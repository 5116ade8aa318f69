import Mathlib.Data.String.Basic

namespace SourceAtlas.Text

def bytes (s : String) : List UInt8 := s.toUTF8.data.toList

theorem bytes_eq (s : String) : bytes s = s.toList.flatMap String.utf8EncodeChar := by
  have h : s.toUTF8 = s.toList.utf8Encode := by simp
  rw [bytes, h, List.utf8Encode, List.toList_data_toByteArray]

inductive Below : List UInt8 → List UInt8 → Prop
  | here {x y : UInt8} {as bs : List UInt8} : x < y → Below (x :: as) (y :: bs)
  | later {x : UInt8} {as bs : List UInt8} : Below as bs → Below (x :: as) (x :: bs)

namespace Below

variable {as bs : List UInt8}

theorem append (h : Below as bs) (us vs : List UInt8) : as ++ us < bs ++ vs := by
  induction h with
  | here h => exact List.cons_lt_cons_iff.mpr (.inl h)
  | later _ ih => exact List.cons_lt_cons_iff.mpr (.inr ⟨rfl, ih⟩)

theorem ofNat {a b : Nat} (hb : b < 256) (hab : a ≤ b) (h : a = b → Below as bs) :
    Below (.ofNat a :: as) (.ofNat b :: bs) := by
  rcases Nat.lt_or_eq_of_le hab with hlt | rfl
  · refine .here ?_
    rw [UInt8.lt_iff_toNat_lt, UInt8.toNat_ofNat', UInt8.toNat_ofNat', Nat.mod_eq_of_lt hb,
      Nat.mod_eq_of_lt (hlt.trans hb)]
    exact hlt
  · exact .later (h rfl)

end Below

theorem below_encode {c d : Char} (h : c < d) :
    Below (String.utf8EncodeChar c) (String.utf8EncodeChar d) := by
  have hlt : c.val.toNat < d.val.toNat := h
  have hd : d.val.toNat < 1114112 := by
    rcases d.valid with h | ⟨_, h⟩
    · exact Nat.lt_trans h (by decide)
    · exact h
  unfold String.utf8EncodeChar
  generalize c.val.toNat = v at hlt
  generalize d.val.toNat = w at hlt hd
  dsimp only
  -- by the lengths of the two; only where they are equal more than the first byte is looked at
  split_ifs
  · exact .ofNat (by omega) (by omega) fun _ => by omega
  · exact .ofNat (by omega) (by omega) fun _ => by omega
  · exact .ofNat (by omega) (by omega) fun _ => by omega
  · exact .ofNat (by omega) (by omega) fun _ => by omega
  · omega
  · exact .ofNat (by omega) (by omega) fun _ => .ofNat (by omega) (by omega) fun _ => by omega
  · exact .ofNat (by omega) (by omega) fun _ => by omega
  · exact .ofNat (by omega) (by omega) fun _ => by omega
  · omega
  · omega
  · exact .ofNat (by omega) (by omega) fun _ => .ofNat (by omega) (by omega) fun _ =>
      .ofNat (by omega) (by omega) fun _ => by omega
  · exact .ofNat (by omega) (by omega) fun _ => by omega
  · omega
  · omega
  · omega
  · exact .ofNat (by omega) (by omega) fun _ => .ofNat (by omega) (by omega) fun _ =>
      .ofNat (by omega) (by omega) fun _ => .ofNat (by omega) (by omega) fun _ => by omega

theorem flatMap_encode_lt {cs ds : List Char} (h : cs < ds) :
    cs.flatMap String.utf8EncodeChar < ds.flatMap String.utf8EncodeChar := by
  induction h with
  | @nil d ds =>
      obtain ⟨x, r, hx⟩ := List.exists_cons_of_ne_nil (String.utf8EncodeChar_ne_nil (c := d))
      rw [List.flatMap_cons, hx]
      exact .nil
  | cons _ ih =>
      rw [List.flatMap_cons, List.flatMap_cons]
      exact List.append_left_lt ih
  | rel h =>
      rw [List.flatMap_cons, List.flatMap_cons]
      exact (below_encode h).append _ _

theorem lt_iff_bytes_lt {s t : String} : s < t ↔ bytes s < bytes t := by
  rw [String.lt_iff_toList_lt, bytes_eq, bytes_eq]
  refine ⟨flatMap_encode_lt, fun h => ?_⟩
  rcases lt_trichotomy s.toList t.toList with hlt | heq | hgt
  · exact hlt
  · rw [heq] at h
    exact absurd h (List.lt_irrefl _)
  · exact absurd h (List.lt_asymm (flatMap_encode_lt hgt))

theorem eq_of_ordered {α : Type} {r : α → α → Prop} (hr : ∀ {x y}, r x y → ¬ r y x) {l m : List α}
    (hl : l.Pairwise r) (hm : m.Pairwise r) (h : ∀ x, x ∈ l ↔ x ∈ m) : l = m := by
  have hnodup : ∀ {l : List α}, l.Pairwise r → l.Nodup := by
    refine fun h => h.imp fun {x y} hxy => ?_
    rintro rfl
    exact hr hxy hxy
  exact ((List.perm_ext_iff_of_nodup (hnodup hl) (hnodup hm)).mpr h).eq_of_pairwise
    (fun _ _ _ _ hxy hyx => absurd hyx (hr hxy)) hl hm

end SourceAtlas.Text
