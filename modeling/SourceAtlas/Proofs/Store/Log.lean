import SourceAtlas.Proofs.Archive.Confinement
import SourceAtlas.Proofs.Clock.Timestamp
import SourceAtlas.Proofs.Disk.Places
import SourceAtlas.Project.Id
import SourceAtlas.Store

namespace SourceAtlas

open Disk Work

namespace Archive

theorem Widened.bytesAt {d d' : Disk} {q : Place} (h : Widened d d')
    (hq : d'.found? q ≠ some .folder) : d'.bytesAt q = d.bytesAt q := by
  rcases h.only q with hq' | ⟨hf, _⟩
  · exact bytesAt_congr (found?_congr hq')
  · exact absurd hf hq

end Archive

namespace Store

variable {d : Disk} {s : Settings} {q : Place}

def around (log : Path) : Edit Unit :=
  match log.parent with
  | some folder => if folder.isEmpty then pure () else makeFolders folder
  | none => pure ()

theorem appendLog_run (log : Path) (operation id detail : String) (d : Disk) :
    (appendLog log operation id detail).run d = match (around log).run d with
      | (.error e, d') => (.error (.ofFault e), d')
      | (.ok _, d') => (Work.edit (.because ("Failed to open error log " ++ log.text))
          (appendBytes log (logEntry (.ofNanos d'.now) operation id detail).toUTF8)).run d' := by
  have hlast : ∀ d : Disk, ((do
      let t := Timestamp.ofNanos (← get).now
      Work.edit (.because ("Failed to open error log " ++ log.text))
        (appendBytes log (logEntry t operation id detail).toUTF8)) : Work Diagnostic Unit).run d =
      (Work.edit (.because ("Failed to open error log " ++ log.text))
        (appendBytes log (logEntry (.ofNanos d.now) operation id detail).toUTF8)).run d := by
    intro d
    rw [run_bind, run_get]
  unfold appendLog around
  rcases log.parent with _ | folder
  · exact hlast d
  · dsimp only
    cases folder.isEmpty with
    | true => exact hlast d
    | false =>
        rw [if_pos (by decide), if_neg (by decide), run_bind, run_edit]
        rcases (makeFolders folder).run d with ⟨_ | _, d'⟩
        · rfl
        · exact hlast d'

theorem around_widened (ht : IsTree d) (log : Path) :
    Archive.Widened d ((around log).run d).2 := by
  have hsame : Archive.Widened d d := ⟨ht, .refl d, fun _ => .inl rfl⟩
  unfold around
  split
  · split
    · exact hsame
    · exact Archive.makeFolders_widened ht _
  · exact hsame

theorem recordFailure_filedAt (ht : IsTree d) (s : Settings) (operation id : String) (f : Failure)
    (hp : ∀ {p}, s.errorLog.parent = some p → p.isEmpty = false → d.isFolder p = true) :
    FiledAt s.errorLog d ((recordFailure s operation id f).run d).2 := by
  have haround : (around s.errorLog).run d = (.ok (), d) := by
    unfold around
    split
    · next p h =>
        cases he : p.isEmpty with
        | true => rfl
        | false => exact makeFolders_of_isFolder (hp h he)
    · rfl
  rw [recordFailure, appendLog_run, haround]
  dsimp only
  rw [run_edit]
  have happend : FiledAt s.errorLog d ((appendBytes s.errorLog
      (logEntry (.ofNanos d.now) operation id f.logDetail).toUTF8).run d).2 := by
    rw [appendBytes, run_discard_snd]
    exact openWith_filedAt ht ..
  split <;> next he => rwa [he] at happend

def Opens (s : Settings) (d : Disk) (q : Place) : Prop :=
  ∃ d' r, (around s.errorLog).run d = (.ok (), d') ∧
    d'.locate true s.errorLog = .ok ⟨q, r, false⟩ ∧ d'.found? q ≠ some .folder

theorem Opens.recordFailure (ht : IsTree d) (h : Opens s d q) (operation id : String) (f : Failure) :
    ∃ d₁ d' t, (recordFailure s operation id f).run d = (.ok (), d') ∧ Archive.Widened d d₁ ∧
      Filed q d₁ d' ∧ d'.bytesAt q = d.bytesAt q ++ (logEntry t operation id f.logDetail).toUTF8 := by
  obtain ⟨d₁, r, haround, hl, hq⟩ := h
  have hwide := around_widened ht s.errorLog
  rw [haround] at hwide
  obtain ⟨i, d', x, hrun, hfiled, hget⟩ := openWith_lands hwide.tree hl hq
    (· ++ (logEntry (.ofNanos d₁.now) operation id f.logDetail).toUTF8)
  refine ⟨d₁, d', .ofNanos d₁.now, ?_, hwide, hfiled, ?_⟩
  · rw [Store.recordFailure, appendLog_run, haround]
    dsimp only
    rw [run_edit, appendBytes, run_discard, hrun]
  · rw [bytesAt_file (found?_of_get? hget), hwide.bytesAt hq]

end Store

namespace Timestamp

theorem mem_fractionText {n : Nat} {c : Char} (h : c ∈ (fractionText n).toList) :
    c.isDigit = true ∨ c = '.' := by
  have hdot : ∀ {w k : Nat}, c ∈ ("." ++ padded w k).toList → c.isDigit = true ∨ c = '.' := by
    intro w k h
    rw [String.toList_append, toList_dot, List.mem_append, List.mem_singleton] at h
    exact h.elim .inr fun h => .inl (padded_isDigit w k c h)
  unfold fractionText at h
  split at h
  · cases h
  · split at h
    · exact hdot h
    · split at h <;> exact hdot h

theorem mem_yearText {y : Int} {c : Char} (h : c ∈ (yearText y).toList) :
    c.isDigit = true ∨ c = '-' ∨ c = '+' := by
  unfold yearText at h
  split at h
  · exact .inl (padded_isDigit _ _ c h)
  · rw [String.toList_append, List.mem_append] at h
    rcases h with h | h
    · split at h
      · rw [toList_minus, List.mem_singleton] at h
        exact .inr (.inl h)
      · rw [toList_plus, List.mem_singleton] at h
        exact .inr (.inr h)
    · exact .inl (padded_isDigit _ _ c h)

theorem mem_text {zone : String} {t : Timestamp} {c : Char} (h : c ∈ (t.text zone).toList) :
    c.isDigit = true ∨ c ∈ ['-', '+', 'T', ':', '.'] ∨ c ∈ zone.toList := by
  simp only [text, String.toList_append, List.mem_append, toList_minus, toList_T, toList_colon,
    List.mem_singleton] at h
  rcases h with ((((((((((((h | rfl) | h) | rfl) | h) | rfl) | h) | rfl) | h) | rfl) | h) | h) | h)
  · rcases mem_yearText h with h | rfl | rfl
    · exact .inl h
    · exact .inr (.inl (by decide))
    · exact .inr (.inl (by decide))
  · exact .inr (.inl (by decide))
  · exact .inl (padded_isDigit _ _ c h)
  · exact .inr (.inl (by decide))
  · exact .inl (padded_isDigit _ _ c h)
  · exact .inr (.inl (by decide))
  · exact .inl (padded_isDigit _ _ c h)
  · exact .inr (.inl (by decide))
  · exact .inl (padded_isDigit _ _ c h)
  · exact .inr (.inl (by decide))
  · exact .inl (padded_isDigit _ _ c h)
  · rcases mem_fractionText h with h | rfl
    · exact .inl h
    · exact .inr (.inl (by decide))
  · exact .inr (.inr h)

end Timestamp

namespace Store

def logHead (t : Timestamp) (operation id : String) : String :=
  "[" ++ t.text "+00:00" ++ "] " ++ operation ++ " error for " ++ id ++ ": "

theorem toList_logEntry (t : Timestamp) (operation id detail : String) :
    (logEntry t operation id detail).toList =
      (logHead t operation id).toList ++ escapeBreaks detail.toList ++ ['\n'] := by
  have hbreak : "\n".toList = ['\n'] := rfl
  rw [logEntry, ← logHead, String.toList_append, String.toList_append, String.toList_ofList, hbreak]

theorem isIdChar_of_mem {id : String} (h : Project.checkId id = .ok ()) {c : Char}
    (hc : c ∈ id.toList) : Project.isIdChar c = true :=
  List.all_eq_true.mp (Project.checkId_ok_iff.mp h).2.2 c hc

theorem not_mem_logHead {t : Timestamp} {operation id : String} {c : Char}
    (hid : Project.checkId id = .ok ()) (hop : c ∉ operation.toList)
    (hc : Project.isIdChar c = false)
    (hsigns : c ∉ ['[', ']', ' ', ':', '+', '.']) : c ∉ (logHead t operation id).toList := by
  have hletters : ∀ s : String, (s.toList.all fun c => Project.isIdChar c ||
      c ∈ ['[', ']', ' ', ':', '+', '.']) = true → c ∉ s.toList := by
    intro s hs hmem
    have := List.all_eq_true.mp hs c hmem
    simp [hc, hsigns] at this
  have htime : c ∉ (t.text "+00:00").toList := by
    intro h
    rcases Timestamp.mem_text h with h | h | h
    · simp [Project.isIdChar, Char.isAlphanum, h] at hc
    · simp only [List.mem_cons, List.not_mem_nil, or_false, not_or] at h hsigns
      rcases h with rfl | h | rfl | h | h
      · cases hc
      · exact hsigns.2.2.2.2.1 h
      · cases hc
      · exact hsigns.2.2.2.1 h
      · exact hsigns.2.2.2.2.2 h
    · exact hletters "+00:00" (by decide) h
  have hid : c ∉ id.toList := fun h => by
    rw [isIdChar_of_mem hid h] at hc
    cases hc
  simp only [logHead, String.toList_append, List.mem_append, not_or]
  refine ⟨⟨⟨⟨⟨⟨?_, htime⟩, ?_⟩, hop⟩, ?_⟩, hid⟩, ?_⟩
  all_goals exact hletters _ (by decide)

def IsLine (s : String) : Prop := ∃ cs, s.toList = cs ++ ['\n'] ∧ '\n' ∉ cs

theorem isLine_logEntry {id operation : String} (hid : Project.checkId id = .ok ())
    (hop : '\n' ∉ operation.toList) (t : Timestamp) (detail : String) :
    IsLine (logEntry t operation id detail) := by
  refine ⟨_, toList_logEntry t operation id detail, fun h => ?_⟩
  rcases List.mem_append.mp h with h | h
  · exact not_mem_logHead hid hop (by decide) (by decide) h
  · exact (not_mem_escapeBreaks _).1 h

theorem count_lines {α : Type} {R : α → String → Prop} {xs : List α} {ls : List String}
    (hR : ∀ {x l}, R x l → IsLine l) (h : List.Forall₂ R xs ls) :
    (String.join ls).toList.count '\n' = xs.length := by
  induction h with
  | nil => rfl
  | cons hl _ ih =>
      obtain ⟨cs, hcs, hnot⟩ := hR hl
      rw [String.join_cons, String.toList_append, List.count_append, ih, hcs, List.count_append,
        List.count_eq_zero.mpr hnot, List.length_cons, List.count_singleton_self]
      omega

end Store

end SourceAtlas
