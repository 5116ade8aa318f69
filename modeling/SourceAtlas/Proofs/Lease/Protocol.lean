import SourceAtlas.Project.Id
import SourceAtlas.Proofs.Lease.LockFile
import SourceAtlas.Retention

namespace SourceAtlas

open Disk Work

namespace Leases

structure Attempt where
  holder : String
  id : String
  file : Option Nat
  deriving DecidableEq

structure Due where
  sweeper : String
  dir : Path
  name : Name
  record : Option Record

structure Scene where
  disk : Disk
  leases : Leases
  attempts : List Attempt
  due : List Due

namespace Scene

def start (d : Disk) : Scene := ⟨d, [], [], []⟩

def isEntered (s : Scene) (holder id : String) : Bool :=
  s.leases.isHeldBy holder id || s.attempts.any fun a => a.holder == holder && a.id == id

def protects (s : Scene) (folder : Path) (holder : String) (name : Name) : Bool :=
  s.isEntered holder (ownerOf name) || isLockedOn s.disk folder s.leases (ownerOf name)

end Scene

/-- What a lease leaves in the file it has locked, if the file is still where it was opened. -/
def sign (folder : Path) (id : String) (file : Nat) (d : Disk) : Disk :=
  if lockFile d folder id = some file then ((writeText (lockPath folder id) lockText).run d).2 else d

def removal (dir : Path) (name : Name) (r : Record) : Edit Unit :=
  if r.isFolder then removeTree (dir.child name) else removeFile (dir.child name)

inductive Act where
  | enter (holder id : String)
  | openLock (holder id : String)
  | lock (holder id : String)
  | giveUp (holder id : String)
  | release (holder id : String)
  | look (sweeper : String) (dir : Path) (name : Name)
  | age (dir : Path) (name : Name)
  | keep (dir : Path) (name : Name)
  | remove (dir : Path) (name : Name)
  | wait

inductive Step (folder : Path) : Scene → Act → Scene → Prop
  | enter {s h id} : Project.checkId id = .ok () → s.isEntered h id = false →
      Step folder s (.enter h id) { s with attempts := ⟨h, id, none⟩ :: s.attempts }
  | openLock {s h id l r i d} : s.attempts = l ++ ⟨h, id, none⟩ :: r →
      (openLock folder id).run s.disk = (.ok i, d) →
      Step folder s (.openLock h id) { s with disk := d, attempts := l ++ ⟨h, id, some i⟩ :: r }
  | fail {s h id l r e d} : s.attempts = l ++ ⟨h, id, none⟩ :: r →
      (openLock folder id).run s.disk = (.error e, d) →
      Step folder s (.openLock h id) { s with disk := d, attempts := l ++ r }
  | lock {s h id l r i} : s.attempts = l ++ ⟨h, id, some i⟩ :: r → s.leases.isLocked i = false →
      Step folder s (.lock h id)
        { s with disk := sign folder id i s.disk, leases := ⟨h, id, i⟩ :: s.leases,
                 attempts := l ++ r }
  | giveUp {s l a r} : s.attempts = l ++ a :: r →
      Step folder s (.giveUp a.holder a.id) { s with attempts := l ++ r }
  | release {s h id} :
      Step folder s (.release h id) { s with leases := s.leases.release h id }
  | look {s h dir n} : s.protects folder h n = false →
      Step folder s (.look h dir n) { s with due := ⟨h, dir, n, none⟩ :: s.due }
  | age {s h dir n l r m x} : s.due = l ++ ⟨h, dir, n, none⟩ :: r →
      Retention.isExpired s.disk m x = true →
      Step folder s (.age dir n) { s with due := l ++ ⟨h, dir, n, some x⟩ :: r }
  | keep {s l e r} : s.due = l ++ e :: r → Step folder s (.keep e.dir e.name) { s with due := l ++ r }
  | remove {s h dir n l r x} : s.due = l ++ ⟨h, dir, n, some x⟩ :: r →
      Step folder s (.remove dir n)
        { s with disk := ((removal dir n x).run s.disk).2, due := l ++ r }
  | wait {s t} : s.disk.now ≤ t → Step folder s .wait { s with disk := { s.disk with now := t } }

/-- The scenes that steps with `C` lead to from a disk on which nobody has a lease. -/
inductive Reach (folder : Path) (C : Scene → Act → Scene → Prop) : Scene → Prop
  | start (d : Disk) : Reach folder C (.start d)
  | step {s a s'} : Reach folder C s → Step folder s a s' → C s a s' → Reach folder C s'

end Leases

end SourceAtlas
