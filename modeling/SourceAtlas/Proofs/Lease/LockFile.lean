import SourceAtlas.Lease
import SourceAtlas.Proofs.Disk.Numbers
import SourceAtlas.Proofs.Store.Saves

namespace SourceAtlas

namespace Disk

def fileAt (d : Disk) (p : Path) : Option Nat :=
  match d.stat p with
  | .ok (_, ⟨.file i _ _, _⟩) => some i
  | _ => none

theorem fileAt_eq_some {d : Disk} {p : Path} {i : Nat} :
    d.fileAt p = some i ↔ ∃ q b x t, d.stat p = .ok (q, ⟨.file i b x, t⟩) := by
  unfold fileAt
  rcases h : d.stat p with e | ⟨q, ⟨_ | ⟨j, b, x⟩ | _, t⟩⟩ <;> simp

theorem fileAt_extend {d d' : Disk} (hx : Extends d d') {p : Path} {i : Nat}
    (h : d.fileAt p = some i) : d'.fileAt p = some i := by
  obtain ⟨q, b, x, t, hs⟩ := fileAt_eq_some.mp h
  obtain ⟨⟨e, t'⟩, hs', ha⟩ := stat_extend hx hs
  cases ha
  exact fileAt_eq_some.mpr ⟨q, _, _, t', hs'⟩

theorem fileAt_newFile {d : Disk} {p : Path} {q : Place} {b : ByteArray} {x : Bool}
    (h : d.locate true p = .ok ⟨q, none, false⟩) : (d.newFile q b x).fileAt p = some d.nextId := by
  obtain ⟨hn, hq⟩ := free_of_locate h
  obtain ⟨hp, hw⟩ := locate_eq_ok.mp h
  have hx : Extends d (d.newFile q b x) := .newFile hq hn
  have hf : (d.newFile q b x).get? q = some ⟨.file d.nextId b x, d.now⟩ := by
    rw [get?_newFile, get?_put_self hq]
  have hw' := hw.filled_file hx rfl rfl (found?_of_get? hf)
  rw [hf] at hw'
  exact fileAt_eq_some.mpr ⟨q, b, x, d.now,
    stat_eq_ok.mpr (locate_eq_ok.mpr ⟨hp.extend hx, start_extend hx p ▸ hw'⟩)⟩

theorem fileAt_of_openFile {d d' : Disk} {p : Path} {i : Nat}
    (h : (openFile p).run d = (.ok i, d')) : d'.fileAt p = some i := by
  rw [openFile, openWith_run] at h
  split at h
  · cases h
  · next hl =>
      cases locate_slash hl
      cases h
      exact fileAt_eq_some.mpr ⟨_, _, _, _, stat_eq_ok.mpr hl⟩
  · cases h
  · next q sl hl =>
      cases sl <;> cases h
      exact fileAt_newFile hl

theorem makeFolders_extends (d : Disk) (p : Path) : Extends d ((makeFolders p).run d).2 :=
  makeFolders_keeps (P := Extends d) (A := fun _ => True) (fun _ _ _ => trivial)
    (fun _ h hl => h.trans (.put (free_of_locate hl).2 (free_of_locate hl).1 fun _ => nofun))
    trivial d (.refl d)

theorem extends_wait (d : Disk) (t : Moment) : Extends d { d with now := t } :=
  .of_found? rfl fun q => found?_congr (by cases q <;> rfl)

end Disk

namespace Leases

open Disk Work

def lockFile (d : Disk) (folder : Path) (id : String) : Option Nat := d.fileAt (lockPath folder id)

theorem isLockedOn_eq (d : Disk) (folder : Path) (ls : Leases) (id : String) :
    isLockedOn d folder ls id = (lockFile d folder id).any ls.isLocked := by
  unfold isLockedOn lockFile fileAt
  rcases d.stat (lockPath folder id) with e | ⟨q, ⟨_ | _ | _, t⟩⟩ <;> rfl

theorem lockName_isProper {o : String} (h : '/' ∉ o.toList) : (Settings.lockName o).IsProper := by
  -- the name is as long as the suffix, at the least
  have hlong : 5 ≤ (Settings.lockName o).toList.length := by
    rw [Settings.lockName, String.toList_append, List.length_append]
    exact Nat.le_add_left ..
  have hne : ∀ {m : Name}, m.toList.length < 5 → Settings.lockName o ≠ m := by
    rintro m hm rfl
    omega
  refine ⟨Path.inner_eq_name ?_ (hne (by decide)), ?_⟩
  · rintro (he | he)
    · exact hne (by decide) he
    · exact hne (by decide) he
  · rw [Settings.lockName, String.toList_append, List.mem_append, not_or]
    exact ⟨h, by decide⟩

theorem lockPath_of_plain (folder : Path) {o : String} (h : '/' ∉ o.toList) :
    lockPath folder o = folder.join ⟨[Settings.lockName o]⟩ := by
  rw [lockPath, ← Path.ofText_name (lockName_isProper h)]
  rfl

theorem place_of_lock {N : Name → Prop} {d : Disk} (hd : IsPlain N d) {folder : Path} {o : String}
    {i : Nat} (ho : '/' ∉ o.toList) (hN : N (Settings.lockName o))
    (h : lockFile d folder o = some i) :
    ∃ q b x, d.found? q = some (.file i b x) ∧ q.getLast? = some (Settings.lockName o) := by
  obtain ⟨q, b, x, t, hs⟩ := fileAt_eq_some.mp h
  have hl := stat_eq_ok.mp hs
  have hn := lockName_isProper ho
  have hup : Settings.lockName o ≠ ".." := by
    intro he
    have := hn.inner
    rw [he] at this
    cases this
  refine ⟨q, b, x, found?_of_get? (locate_record hl).symm, ?_⟩
  rw [lockPath_of_plain folder ho] at hl
  refine hd.place_last hN hn.isStep hup ?_ hl
  rw [Path.segments_join (Path.isAbsolute_names (by simpa using hn))]
  simp

theorem openLock_run (folder : Path) (id : String) (d : Disk) :
    (openLock folder id).run d = match (makeFolders folder).run d with
      | (.ok _, d') => (openFile (lockPath folder id)).run d'
      | (.error e, d') => (.error e, d') := by
  rw [openLock, run_bind]
  rcases (makeFolders folder).run d with ⟨_ | _, d'⟩ <;> rfl

theorem openLock_extends (folder : Path) (id : String) (d : Disk) :
    Extends d ((openLock folder id).run d).2 := by
  have hm := makeFolders_extends d folder
  rw [openLock_run]
  rcases h : (makeFolders folder).run d with ⟨_ | _, d'⟩
  all_goals rw [h] at hm
  · exact hm
  · exact hm.trans (openWith_extends ..)

theorem openLock_lockFile {folder : Path} {id : String} {d d' : Disk} {i : Nat}
    (h : (openLock folder id).run d = (.ok i, d')) : lockFile d' folder id = some i := by
  rw [openLock_run] at h
  split at h
  · exact fileAt_of_openFile h
  · cases h

end Leases

end SourceAtlas
