import Mathlib.Logic.Relation
import SourceAtlas.Proofs.Lease.Protocol

namespace SourceAtlas.Leases

open Disk Work

variable {folder : Path}

def Steps (folder : Path) : Scene → Scene → Prop :=
  Relation.ReflTransGen fun s s' => ∃ a, Step folder s a s'

namespace Steps

theorem refl (s : Scene) : Steps folder s s := Relation.ReflTransGen.refl

theorem tail {s s' s'' : Scene} {a : Act} (h : Steps folder s s') (hs : Step folder s' a s'') :
    Steps folder s s'' := Relation.ReflTransGen.tail h ⟨a, hs⟩

theorem trans {s s' s'' : Scene} (h : Steps folder s s') (h' : Steps folder s' s'') :
    Steps folder s s'' := Relation.ReflTransGen.trans h h'

end Steps

theorem acquire_run {holder id : String} {ls : Leases} (h : ls.isHeldBy holder id = false)
    (d : Disk) : (acquire folder holder id ls).run d = match (openLock folder id).run d with
      | (.error e, d') => (.error e, d')
      | (.ok i, d') =>
          if ls.isLocked i = true then (.ok none, d')
          else match (writeText (lockPath folder id) lockText).run d' with
            | (.error e, d'') => (.error e, d'')
            | (.ok _, d'') => (.ok (some ⟨holder, id, i⟩), d'') := by
  rw [acquire, if_neg (by simp [h]), run_bind]
  rcases (openLock folder id).run d with ⟨_ | i, d'⟩
  · rfl
  · dsimp only
    cases ls.isLocked i with
    | true => rfl
    | false =>
        rw [if_neg (by decide), if_neg (by decide), run_bind]
        rcases (writeText (lockPath folder id) lockText).run d' with ⟨_ | _, d''⟩ <;> rfl

theorem writeText_ok {d : Disk} {p : Path} {i : Nat} (s : String) (h : d.fileAt p = some i) :
    ∃ d', (writeText p s).run d = (.ok (), d') := by
  obtain ⟨q, b, x, t, hs⟩ := fileAt_eq_some.mp h
  rw [writeText, writeBytes, run_discard, openWith_run, stat_eq_ok.mp hs]
  exact ⟨_, rfl⟩

theorem acquire_steps {s : Scene} {holder id : String} {r : Except Fault (Option Lease)} {d : Disk}
    (hv : Project.checkId id = .ok ()) (he : s.isEntered holder id = false)
    (hr : (acquire folder holder id s.leases).run s.disk = (r, d)) :
    Steps folder s { s with
      disk := d
      leases := match r with
        | .ok (some l) => l :: s.leases
        | _ => s.leases } := by
  have hh : s.leases.isHeldBy holder id = false := (Bool.or_eq_false_iff.mp he).1
  have h1 := (Steps.refl s).tail (.enter hv he : Step folder s _ _)
  rw [acquire_run hh] at hr
  rcases ho : (openLock folder id).run s.disk with ⟨e | i, d'⟩
  · rw [ho] at hr
    cases hr
    exact h1.tail (.fail (l := []) rfl ho)
  · rw [ho] at hr
    have h2 := h1.tail (.openLock (l := []) rfl ho)
    dsimp only at hr
    cases hl : s.leases.isLocked i with
    | true =>
        rw [hl, if_pos rfl] at hr
        cases hr
        exact h2.tail (.giveUp (l := []) (a := ⟨holder, id, some i⟩) rfl)
    | false =>
        rw [hl, if_neg (by decide)] at hr
        have hf := openLock_lockFile ho
        obtain ⟨d'', hw⟩ := writeText_ok lockText hf
        rw [hw] at hr
        cases hr
        have hsign : sign folder id i d' = d := by rw [sign, if_pos hf, hw]
        have h3 := h2.tail (.lock (l := []) rfl hl)
        rw [show sign folder id i d' = d from hsign] at h3
        exact h3

end SourceAtlas.Leases

namespace SourceAtlas.Retention

open Leases

variable {folder : Path}

theorem sweepEntry_disk (dir : Path) (holder : String) (ls : Leases) (limit : Span) (x : Sweep)
    (e : Name × Disk.Record) :
    (sweepEntry dir holder folder ls limit x e).disk =
      if ls.protects x.disk folder holder e.1 || !isPast x.disk limit e.2 then x.disk
      else ((removal dir e.1 e.2).run x.disk).2 := by
  unfold sweepEntry removal
  split
  · rfl
  · dsimp only
    split <;> simp_all

theorem protects_eq {s : Scene} {holder : String} (hs : ∀ a ∈ s.attempts, a.holder ≠ holder)
    (n : Name) : s.protects folder holder n = s.leases.protects s.disk folder holder n := by
  have hn : (s.attempts.any fun a => a.holder == holder && a.id == ownerOf n) = false := by
    rw [List.any_eq_false]
    intro a ha
    simp [hs a ha]
  rw [Scene.protects, Scene.isEntered, hn, Bool.or_false]
  rfl

theorem sweepEntry_steps {s : Scene} {holder : String} (hs : ∀ a ∈ s.attempts, a.holder ≠ holder)
    (dir : Path) (maxAge : Nat) {x : Sweep} (hx : x.disk = s.disk) (e : Name × Disk.Record) :
    Steps folder s { s with
      disk := (sweepEntry dir holder folder s.leases (.ofSeconds maxAge) x e).disk } := by
  rw [sweepEntry_disk, hx]
  split
  · exact .refl s
  · next h =>
      rw [Bool.or_eq_true, not_or, Bool.not_eq_true, Bool.not_eq_true, Bool.not_eq_false'] at h
      have hp := (protects_eq hs e.1).trans h.1
      exact (((Steps.refl s).tail (.look hp)).tail (.age (l := []) rfl h.2)).tail
        (.remove (l := []) rfl)

theorem sweepEntries_steps {s : Scene} {holder : String}
    (hs : ∀ a ∈ s.attempts, a.holder ≠ holder) (dir : Path) (maxAge : Nat) {x : Sweep}
    (hx : x.disk = s.disk) (es : List (Name × Disk.Record)) :
    Steps folder s { s with
      disk := (es.foldl (sweepEntry dir holder folder s.leases (.ofSeconds maxAge)) x).disk } := by
  induction es generalizing s x with
  | nil =>
      rw [List.foldl_nil, hx]
      exact .refl s
  | cons e es ih =>
      refine (sweepEntry_steps hs dir maxAge hx e).trans ?_
      generalize hy : sweepEntry dir holder folder s.leases (.ofSeconds maxAge) x e = y
      rw [List.foldl_cons, hy]
      exact ih (s := { s with disk := y.disk }) hs rfl

theorem sweep_steps {s : Scene} {holder : String} (hs : ∀ a ∈ s.attempts, a.holder ≠ holder)
    {dir : Path} {maxAge : Nat} {x : Sweep}
    (hx : sweep s.disk dir maxAge holder folder s.leases = .ok x) :
    Steps folder s { s with disk := x.disk } := by
  unfold sweep sweepListed at hx
  split at hx
  · cases hx
    exact .refl s
  · split at hx
    · cases hx
    · cases hx
      exact sweepEntries_steps hs dir maxAge rfl _

end SourceAtlas.Retention
