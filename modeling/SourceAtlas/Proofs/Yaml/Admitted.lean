import SourceAtlas.Proofs.Yaml.Scan

namespace SourceAtlas.Yaml

variable {c : Char} {t : List Char}

theorem isAdmitted_of_visible (h : isPlainlyVisible c = true) : isAdmitted c = true := by
  simp only [isPlainlyVisible, isAdmitted, Bool.or_eq_true, Bool.and_eq_true, beq_iff_eq,
    decide_eq_true_eq, bne_iff_ne] at h ⊢
  omega

theorem isAdmitted_of_isKeyChar (h : isKeyChar c = true) : isAdmitted c = true := by
  rw [isKeyChar, Bool.or_eq_true, beq_iff_eq] at h
  rcases h with h | rfl
  · have hrange : 97 ≤ c.toNat ∧ c.toNat ≤ 122 := by
      obtain ⟨hlow, hhigh⟩ := Bool.and_eq_true_iff.mp h
      exact ⟨of_decide_eq_true hlow, of_decide_eq_true hhigh⟩
    simp only [isAdmitted, Bool.or_eq_true, Bool.and_eq_true, beq_iff_eq, decide_eq_true_eq]
    omega
  · rfl

theorem isAdmitted_of_isDigit (h : c.isDigit = true) : isAdmitted c = true := by
  have hrange : 48 ≤ c.toNat ∧ c.toNat ≤ 57 := by
    simpa [Char.isDigit, UInt32.le_iff_toNat_le] using h
  simp only [isAdmitted, Bool.or_eq_true, Bool.and_eq_true, beq_iff_eq, decide_eq_true_eq]
  omega

def Admitted (t : List Char) : Prop := ∀ c ∈ t, isAdmitted c = true

instance (t : List Char) : Decidable (Admitted t) := List.decidableBAll _ t

theorem Admitted.append {u v : List Char} (hu : Admitted u) (hv : Admitted v) : Admitted (u ++ v) :=
  List.forall_mem_append.mpr ⟨hu, hv⟩

theorem Admitted.cons (hc : isAdmitted c = true) (ht : Admitted t) : Admitted (c :: t) :=
  List.forall_mem_cons.mpr ⟨hc, ht⟩

theorem admitted_nil : Admitted [] := List.forall_mem_nil _

theorem admitted_singleton (hc : isAdmitted c = true) : Admitted [c] := .cons hc admitted_nil

theorem admitted_spaces (m : Nat) : Admitted (spaces m) := fun c hc => by
  rw [eq_of_mem_spaces hc]
  rfl

theorem admitted_hexPadded (w n : Nat) : Admitted (hexPadded w n) := by
  have hdigit : ∀ n < 16, isAdmitted (hexDigit n) = true := by decide
  induction w generalizing n with
  | zero => exact admitted_nil
  | succ w ih => exact (ih _).append (admitted_singleton (hdigit _ (Nat.mod_lt _ (by decide))))

theorem admitted_escaped (c : Char) : Admitted (escaped c) := by
  have hletter : ∀ e ∈ writtenEscapes, isAdmitted e.2 = true := by decide
  have hlong : ∀ {mark}, isAdmitted mark = true →
      ∀ w, Admitted (['\\', mark] ++ hexPadded w c.toNat) := fun hmark w =>
    .append (.cons rfl (admitted_singleton hmark)) (admitted_hexPadded w _)
  rw [escaped]
  split
  · next x hlookup =>
      obtain ⟨before, after, hmem, -⟩ := List.lookup_eq_some_iff.mp hlookup
      exact .cons rfl (admitted_singleton (hletter (c, x) (by simp [hmem])))
  · split
    · exact hlong rfl 2
    · split
      · exact hlong rfl 4
      · exact hlong rfl 8

theorem admitted_quotedChar (c : Char) : Admitted (quotedChar c) := by
  rw [quotedChar]
  split
  · exact admitted_escaped c
  · next h =>
      simp only [Bool.or_eq_true, not_or, Bool.not_eq_true, Bool.not_eq_false'] at h
      exact admitted_singleton (isAdmitted_of_visible h.1.1.1)

theorem admitted_doubleQuoted (t : List Char) : Admitted (doubleQuoted t) := by
  have hbody : Admitted (t.flatMap quotedChar) := fun x hx => by
    obtain ⟨c, -, hx⟩ := List.mem_flatMap.mp hx
    exact admitted_quotedChar c x hx
  exact (hbody.cons rfl).append (admitted_singleton rfl)

theorem admitted_singleFrom (ht : Admitted t) (indent : Nat) (fresh : Bool) :
    Admitted (singleFrom indent fresh t) := by
  have hindent : ∀ fresh, Admitted (if fresh = true then spaces indent else []) := by
    rintro (_ | _)
    · exact admitted_nil
    · exact admitted_spaces indent
  induction t generalizing fresh with
  | nil => exact hindent fresh
  | cons c t ih =>
      obtain ⟨hc, ht⟩ := List.forall_mem_cons.mp ht
      rw [singleFrom]
      split
      · exact (ih ht fresh).cons hc
      · split
        · refine .append ?_ (ih ht true)
          split
          · exact .cons rfl (admitted_singleton hc)
          · exact admitted_singleton hc
        · refine .append (.append (hindent fresh) ?_) (ih ht false)
          split
          · exact .cons rfl (admitted_singleton rfl)
          · exact admitted_singleton hc

theorem admitted_literalLines (ht : Admitted t) (indent : Nat) (fresh : Bool) :
    Admitted (literalLines indent fresh t) := by
  induction t generalizing fresh with
  | nil =>
      cases fresh
      · exact admitted_singleton rfl
      · exact admitted_nil
  | cons c t ih =>
      obtain ⟨hc, ht⟩ := List.forall_mem_cons.mp ht
      rw [literalLines]
      split
      · exact (ih ht true).cons hc
      · refine .append ?_ ((ih ht false).cons hc)
        split
        · exact admitted_spaces indent
        · exact admitted_nil

theorem admitted_blockHints (t : List Char) : Admitted (blockHints t) := by
  rw [blockHints_eq]
  cases hidesIndent t <;> cases chompingOf t <;> decide

theorem admitted_writeText (indent : Nat) (t : List Char) : Admitted (writeText indent t) := by
  have hsuits := Scanner.suits_textStyle t
  rw [writeText]
  cases hstyle : textStyle t with
  | plain =>
      rw [hstyle] at hsuits
      exact .append (fun c hc => isAdmitted_of_visible
        ((isPlain_of_shape hsuits.1 hsuits.2).visible c hc)) (admitted_singleton rfl)
  | singleQuoted =>
      rw [hstyle] at hsuits
      have ht : Admitted t := fun c hc => isAdmitted_of_visible ((of_shape_single hsuits.2).1 c hc)
      exact .append (.append (.cons rfl (admitted_singleFrom ht indent false)) (admitted_singleton rfl))
        (admitted_singleton rfl)
  | doubleQuoted => exact .append (admitted_doubleQuoted t) (admitted_singleton rfl)
  | literal =>
      rw [hstyle] at hsuits
      have ht : Admitted t := fun c hc => isAdmitted_of_visible ((of_shape_block hsuits).2 c hc)
      exact .append (.cons rfl (admitted_blockHints t)) (.cons rfl (admitted_literalLines ht indent true))
  | folded =>
      rw [hstyle] at hsuits
      exact hsuits.elim

end SourceAtlas.Yaml
