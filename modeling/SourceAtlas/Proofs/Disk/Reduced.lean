import SourceAtlas.Proofs.Disk.Emptied

namespace SourceAtlas.Disk

open Work

variable {d d' : Disk} {p : Path} {P q : Place} {n : Name} {r : Record}
  {inside inside' : List (Name × Record)}

structure Reduced (d d' : Disk) : Prop where
  base : d'.base = d.base
  left : ∀ {q e}, d'.found? q = some e → d.found? q = some e

namespace Reduced

theorem folderAt (h : Reduced d d') (hP : d'.FolderAt p P) : d.FolderAt p P :=
  hP.carry h.base.symm fun he _ => h.left he

theorem stat (h : Reduced d d') (hs : d'.stat p = .ok (q, r)) :
    ∃ t, d.stat p = .ok (q, ⟨r.entry, t⟩) := by
  have hl := stat_eq_ok.mp hs
  have hfound : d'.found? q = some r.entry := found?_of_get? (locate_record hl).symm
  have hbefore := h.left hfound
  obtain ⟨t, ht⟩ := found?_eq_some.mp hbefore
  have hcarry := locate_carry h.base.symm (fun he _ => h.left he) hl (hbefore.trans hfound.symm)
  rw [ht] at hcarry
  exact ⟨t, stat_eq_ok.mpr hcarry⟩

end Reduced

theorem not_prefix_of_found (h : (dropAll P d inside).found? q ≠ none) {x : Name × Record}
    (hx : x ∈ inside) : ¬ P ++ [x.1] <+: q :=
  fun hq => h (found?_dropAll_inside hx hq)

theorem reduced_dropAll_of_subset (h : ∀ x ∈ inside, x ∈ inside') :
    Reduced (dropAll P d inside) (dropAll P d inside') where
  base := (dropAll_base d).trans (dropAll_base d).symm
  left := by
    intro q e he
    have hout := fun x hx => not_prefix_of_found (x := x) (by rw [he]; nofun) hx
    rw [found?_dropAll_outside hout] at he
    rwa [found?_dropAll_outside fun x hx => hout x (h x hx)]

theorem reduced_dropAll : Reduced d (dropAll P d inside) :=
  (reduced_dropAll_of_subset nofun : Reduced (dropAll P d []) (dropAll P d inside))

theorem get?_dropAll_outside (hP : q ≠ P) (h : ∀ x ∈ inside, ¬ P ++ [x.1] <+: q) :
    (dropAll P d inside).get? q = d.get? q := by
  induction inside generalizing d with
  | nil => rfl
  | cons x l ih =>
      exact (ih fun y hy => h y (.tail _ hy)).trans
        (get?_drop_of_outside (h x (by simp)) (by rwa [List.dropLast_concat]))

theorem dropAll_now : (dropAll P d inside).now = d.now := by
  obtain ⟨rs, h⟩ := dropAll_eq P d inside
  rw [h]

theorem dropAll_append : dropAll P d (inside ++ inside') = dropAll P (dropAll P d inside) inside' :=
  List.foldl_append

theorem folder_dropAll (hP : d.found? P = some .folder) :
    (dropAll P d inside).found? P = some .folder := by
  rwa [found?_dropAll_outside]
  intro x _ hx
  have := hx.length_le
  rw [List.length_append, List.length_singleton] at this
  omega

theorem linkStat_child (hd : Reduced d d') (ht : IsTree d') (hP : d.FolderAt p P)
    (hn : IsEntryName n) (h : d'.linkStat (p.join ⟨[n]⟩) = .ok (q, r)) : q = P ++ [n] := by
  have hl := linkStat_eq_ok.mp h
  have hp : p.isEmpty = false := (folderAt_iff.mp hP).1.1.nonempty
  obtain ⟨P', hP'⟩ := isFolder_iff.mp (folder_of_locate ht hp hn.proper hl)
  obtain rfl := (hd.folderAt hP').unique hP
  rw [locate_child ht hP' hn] at hl
  injection hl with hl
  injection hl with hq
  exact hq.symm

end SourceAtlas.Disk
