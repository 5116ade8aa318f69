import Mathlib.Logic.Function.Basic
import SourceAtlas.Proofs.Disk.Numbers
import SourceAtlas.Proofs.Lease.Protocol
import SourceAtlas.Proofs.Store.Saves

namespace SourceAtlas.Leases.Probing

open Disk Work

structure Account where
  holder : String
  id : String
  deriving DecidableEq

inductive Progress where
  | away
  | entered
  | opened (file : Nat)
  | held (file : Nat)
  | leaving
  deriving DecidableEq

def Progress.file? : Progress → Option Nat
  | .opened i | .held i => some i
  | _ => none

inductive Look where
  | idle
  | opened (file : Nat) (entry : Option Due)
  | sharing (file : Nat) (entry : Option Due)

structure Scene where
  disk : Disk
  progress : Account → Progress
  looks : Nat → Look
  due : List Due

namespace Scene

def start (d : Disk) : Scene := ⟨d, fun _ => .away, fun _ => .idle, []⟩

def move (s : Scene) (a : Account) (p : Progress) : Scene :=
  { s with progress := Function.update s.progress a p }

@[simp] theorem progress_move_self (s : Scene) (a : Account) (p : Progress) :
    (s.move a p).progress a = p := Function.update_self ..

theorem progress_move_of_ne (s : Scene) {a b : Account} (h : b ≠ a) (p : Progress) :
    (s.move a p).progress b = s.progress b := Function.update_of_ne h ..

def look (s : Scene) (k : Nat) (l : Look) : Scene := { s with looks := Function.update s.looks k l }

def find (s : Scene) (entry : Option Due) : Scene := { s with due := entry.toList ++ s.due }

def IsLocked (s : Scene) (i : Nat) : Prop := ∃ a, s.progress a = .held i

/-- Somebody shares the lock. -/
def IsShared (s : Scene) (i : Nat) : Prop := ∃ k entry, s.looks k = .sharing i entry

end Scene

def IsLockName (n : Name) : Prop := ∃ id, Project.checkId id = .ok () ∧ n = Settings.lockName id

inductive Act where
  | enter (a : Account)
  | turnAway (a : Account)
  | openLock (a : Account)
  | lock (a : Account)
  | refuse (a : Account)
  | abort (a : Account)
  | unlock (a : Account)
  | leave (a : Account)
  | ask (k : Nat)
  | share (k : Nat)
  | answer (k : Nat)
  | sweep
  | change

inductive Step (folder : Path) : Scene → Act → Scene → Prop
  | enter {s a} : Project.checkId a.id = .ok () → s.progress a = .away →
      Step folder s (.enter a) (s.move a .entered)
  | turnAway {s a} : s.progress a ≠ .away → Step folder s (.turnAway a) s
  | openLock {s a i d} : s.progress a = .entered →
      (openLock folder a.id).run s.disk = (.ok i, d) →
      Step folder s (.openLock a) ({ s with disk := d }.move a (.opened i))
  | fail {s a e d} : s.progress a = .entered →
      (openLock folder a.id).run s.disk = (.error e, d) →
      Step folder s (.openLock a) ({ s with disk := d }.move a .leaving)
  | lock {s a i} : s.progress a = .opened i → ¬s.IsLocked i → ¬s.IsShared i →
      Step folder s (.lock a) ({ s with disk := sign folder a.id i s.disk }.move a (.held i))
  | refuse {s a i} : s.progress a = .opened i → s.IsLocked i ∨ s.IsShared i →
      Step folder s (.refuse a) (s.move a .leaving)
  | abort {s a i} : s.progress a = .opened i → Step folder s (.abort a) (s.move a .leaving)
  | unlock {s a i} : s.progress a = .held i → Step folder s (.unlock a) (s.move a .leaving)
  | leave {s a} : s.progress a = .leaving → Step folder s (.leave a) (s.move a .away)
  -- who has the project in the account does not look at the disk
  | ask {s k h id i entry} : s.looks k = .idle → s.progress ⟨h, id⟩ = .away →
      lockFile s.disk folder id = some i → (∀ e ∈ entry, e.sweeper = h ∧ ownerOf e.name = id) →
      Step folder s (.ask k) (s.look k (.opened i entry))
  | pass {s k h id entry} : s.looks k = .idle → s.progress ⟨h, id⟩ = .away →
      lockFile s.disk folder id = none → (∀ e ∈ entry, e.sweeper = h ∧ ownerOf e.name = id) →
      Step folder s (.ask k) (s.find entry)
  | share {s k i entry} : s.looks k = .opened i entry → ¬s.IsLocked i →
      Step folder s (.share k) (s.look k (.sharing i entry))
  | found {s k i entry} : s.looks k = .opened i entry → s.IsLocked i →
      Step folder s (.answer k) (s.look k .idle)
  | free {s k i entry} : s.looks k = .sharing i entry →
      Step folder s (.answer k) ((s.look k .idle).find entry)
  | age {s h dir n l r m x} : s.due = l ++ ⟨h, dir, n, none⟩ :: r →
      Retention.isExpired s.disk m x = true →
      Step folder s .sweep { s with due := l ++ ⟨h, dir, n, some x⟩ :: r }
  | keep {s l e r} : s.due = l ++ e :: r → Step folder s .sweep { s with due := l ++ r }
  | remove {s h dir n l r x} : s.due = l ++ ⟨h, dir, n, some x⟩ :: r →
      Step folder s .sweep { s with disk := ((removal dir n x).run s.disk).2, due := l ++ r }
  | wait {s t} : Step folder s .change { s with disk := { s.disk with now := t } }
  | change {s d} : Steady IsLockName s.disk d → Step folder s .change { s with disk := d }

inductive Reach (folder : Path) : Scene → Prop
  | start {d} : IsPlain IsLockName d → Reach folder (.start d)
  | step {s a s'} : Reach folder s → Step folder s a s' → Reach folder s'

variable {folder : Path}

theorem place_of_lockFile {d : Disk} {id : String} {i : Nat} (hd : IsPlain IsLockName d)
    (hid : Project.checkId id = .ok ()) (h : lockFile d folder id = some i) :
    ∃ q b x, d.found? q = some (.file i b x) ∧ q.getLast? = some (Settings.lockName id) :=
  place_of_lock hd (Settings.id_isEntryName hid).proper.slash ⟨id, hid, rfl⟩ h

theorem openLock_steady (folder : Path) (d : Disk) (id : String) :
    Keeps (Steady IsLockName d) (openLock folder id) :=
  .bind (makeFolders_steady _ _ _) fun _ => openWith_steady _ _ _ _

end SourceAtlas.Leases.Probing
