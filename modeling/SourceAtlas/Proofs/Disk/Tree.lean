import SourceAtlas.Proofs.Disk.Growth

namespace SourceAtlas.Disk

open Work

namespace IsTree

variable {d : Disk} {q : Place}

theorem newFile (ht : IsTree d) (hq : q ≠ []) (hne : d.found? q ≠ some .folder)
    (hf : d.found? q.dropLast = some .folder) (b : ByteArray) (x : Bool) :
    IsTree (d.newFile q b x) := by
  have hkeep : ∀ {p}, d.found? p = some .folder → (d.newFile q b x).found? p = some .folder := by
    intro p hp
    have hpq : p ≠ q := by
      rintro rfl
      exact hne hp
    rwa [found?_newFile, found?_put_of_ne hpq]
  refine ⟨ht.toIsNumbered.newFile hq b x, fun {p e} hp => ?_⟩
  by_cases hpq : p = q
  · subst hpq
    exact hkeep hf
  · rw [found?_newFile, found?_put_of_ne hpq] at hp
    exact hkeep (ht.around hp)

theorem rewrite (ht : IsTree d) {i : Nat} {b b' : ByteArray} {x x' : Bool} {t : Moment}
    (h : d.found? q = some (.file i b x)) : IsTree (d.set q ⟨.file i b' x', t⟩) := by
  have hx : Extends d (d.set q ⟨.file i b' x', t⟩) := .rewrite h
  refine ⟨ht.toIsNumbered.rewrite h, fun {p e} hp => hx.folder ?_⟩
  by_cases hpq : p = q
  · exact hpq ▸ ht.around h
  · exact ht.around ((found?_congr (get?_set_of_ne hpq)).symm.trans hp)

theorem drop (ht : IsTree d) (q : Place) : IsTree (d.drop q) := by
  refine ⟨ht.toIsNumbered.drop q, fun {p e} hp => ?_⟩
  by_cases hp0 : p = []
  · subst hp0
    rfl
  · have hout : ¬ q <+: p := by
      intro h
      rw [found?_drop_below hp0 h] at hp
      cases hp
    rw [found?_drop_of_outside hout] at hp
    have hout' : ¬ q <+: p.dropLast := fun h => hout (h.trans (List.dropLast_prefix p))
    rw [found?_drop_of_outside hout']
    exact ht.around hp

theorem free_spot (ht : IsTree d) {p : Path} {deep sl : Bool}
    (h : d.locate deep p = .ok ⟨q, none, sl⟩) : q ≠ [] ∧ d.found? q.dropLast = some .folder := by
  obtain ⟨hp, hw⟩ := locate_eq_ok.mp h
  exact ht.around_free hw hp.folder rfl

theorem newFile_free (ht : IsTree d) {p : Path} {deep sl : Bool}
    (h : d.locate deep p = .ok ⟨q, none, sl⟩) (b : ByteArray) (x : Bool) :
    IsTree (d.newFile q b x) := by
  obtain ⟨hq, hf⟩ := ht.free_spot h
  refine ht.newFile hq ?_ hf b x
  rw [found?_eq_none.mpr (locate_record h).symm]
  nofun

end IsTree

theorem makeFolders_isTree (p : Path) : Keeps IsTree (makeFolders p) := by
  refine makeFolders_keeps (A := fun _ => True) (fun _ _ _ => trivial) (fun _ ht hl => ?_) trivial
  obtain ⟨hq, hf⟩ := ht.free_spot hl
  exact ht.put hq (free_of_locate hl).1 hf

theorem openWith_isTree (change : ByteArray → Option ByteArray) (p : Path) :
    Keeps IsTree (openWith change p) := fun _ ht =>
  openWith_elim change ht (fun _ hf => ht.rewrite hf) fun hl => ht.newFile_free hl _ false

theorem replaceBytes_isTree (p : Path) (b : ByteArray) : Keeps IsTree (replaceBytes p b) := by
  intro d ht
  rw [replaceBytes_run]
  split
  · exact ht
  · exact ht
  · next q r _ hr h =>
      have hg : d.get? q = some r := (locate_record h).symm
      have hne : d.found? q ≠ some .folder := by
        rw [found?_of_get? hg]
        rintro he
        obtain ⟨e, t⟩ := r
        injection he with he
        exact hr t (by rw [← he])
      have hq : q ≠ [] := by
        rintro rfl
        exact hne (found?_root d)
      exact ht.newFile hq hne (ht.around (found?_of_get? hg)) b false
  · next h =>
      split
      · exact ht
      · exact ht.newFile_free h b false

theorem removeUnless_isTree (isRefused : Record → Bool) (fault : Fault) (p : Path) :
    Keeps IsTree (removeUnless isRefused fault p) := by
  intro d ht
  rw [removeUnless_run]
  split
  · exact ht
  · split
    · exact ht
    · exact ht.drop _

end SourceAtlas.Disk
