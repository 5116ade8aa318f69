import SourceAtlas.Proofs.Lease.Owner
import SourceAtlas.Proofs.Lease.Protocol

namespace SourceAtlas.Leases

open Disk Work

variable {folder : Path}

/-- No lock is taken for a project while a sweep is at an entry of it. -/
def Calm (s : Scene) (a : Act) : Prop :=
  ∀ h id, a = .lock h id → ∀ e ∈ s.due, ownerOf e.name ≠ id

def Scene.isInUse (s : Scene) (id : String) : Prop :=
  (∃ l ∈ s.leases, l.id = id) ∨ ∃ a ∈ s.attempts, a.id = id ∧ a.file ≠ none

/-- No removal changes the file behind the name of a lock that somebody has opened. -/
def Sparing (folder : Path) (s : Scene) (a : Act) (s' : Scene) : Prop :=
  ∀ dir n, a = .remove dir n → ∀ id, s.isInUse id →
    lockFile s'.disk folder id = lockFile s.disk folder id

def Orderly (folder : Path) (s : Scene) (a : Act) (s' : Scene) : Prop :=
  Calm s a ∧ Sparing folder s a s'

structure Sound (folder : Path) (s : Scene) : Prop where
  opened : ∀ {a i}, a ∈ s.attempts → a.file = some i → lockFile s.disk folder a.id = some i
  held : ∀ {l}, l ∈ s.leases → lockFile s.disk folder l.id = some l.file
  apart : s.leases.Pairwise fun l m => l.file ≠ m.file
  calm : ∀ {e l}, e ∈ s.due → l ∈ s.leases → ownerOf e.name ≠ l.id
  entered : ∀ {a}, a ∈ s.attempts → Project.checkId a.id = .ok ()
  valid : ∀ {l}, l ∈ s.leases → Project.checkId l.id = .ok ()

namespace Sound

theorem start (d : Disk) : Sound folder (.start d) := ⟨nofun, nofun, .nil, nofun, nofun, nofun⟩

variable {s : Scene}

theorem onDisk (h : Sound folder s) {d : Disk}
    (hd : ∀ {id i}, s.isInUse id → lockFile s.disk folder id = some i →
      lockFile d folder id = some i) : Sound folder { s with disk := d } where
  opened := fun {a i} ha hi =>
    hd (.inr ⟨a, ha, rfl, by rw [hi]; nofun⟩) (h.opened ha hi)
  held := fun {l} hl => hd (.inl ⟨l, hl, rfl⟩) (h.held hl)
  apart := h.apart
  calm := h.calm
  entered := h.entered
  valid := h.valid

theorem onGrown (h : Sound folder s) {d : Disk} (hx : Extends s.disk d) :
    Sound folder { s with disk := d } :=
  h.onDisk fun _ hi => fileAt_extend hx hi

theorem withAttempts (h : Sound folder s) {as : List Attempt}
    (ha : ∀ a ∈ as, a ∈ s.attempts ∨ Project.checkId a.id = .ok () ∧
      ∀ i, a.file = some i → lockFile s.disk folder a.id = some i) :
    Sound folder { s with attempts := as } where
  opened := by
    intro a i hm hi
    rcases ha a hm with hs | ⟨_, hf⟩
    · exact h.opened hs hi
    · exact hf i hi
  held := h.held
  apart := h.apart
  calm := h.calm
  entered := by
    intro a hm
    rcases ha a hm with hs | ⟨hv, _⟩
    · exact h.entered hs
    · exact hv
  valid := h.valid

theorem withDue (h : Sound folder s) {es : List Due}
    (hes : ∀ e ∈ es, ∀ l ∈ s.leases, ownerOf e.name ≠ l.id) :
    Sound folder { s with due := es } :=
  ⟨h.opened, h.held, h.apart, fun he hl => hes _ he _ hl, h.entered, h.valid⟩

theorem release (h : Sound folder s) (holder id : String) :
    Sound folder { s with leases := s.leases.release holder id } where
  opened := h.opened
  held := fun hl => h.held ((List.mem_filter.mp hl).1)
  apart := h.apart.filter _
  calm := fun he hl => h.calm he ((List.mem_filter.mp hl).1)
  entered := h.entered
  valid := fun hl => h.valid ((List.mem_filter.mp hl).1)

theorem take (h : Sound folder s) (holder : String) {id : String} {i : Nat}
    (hf : lockFile s.disk folder id = some i) (hl : s.leases.isLocked i = false)
    (hv : Project.checkId id = .ok ()) (hc : ∀ e ∈ s.due, ownerOf e.name ≠ id) :
    Sound folder { s with leases := ⟨holder, id, i⟩ :: s.leases } where
  opened := h.opened
  held := by
    intro l hm
    rcases List.mem_cons.mp hm with rfl | hm
    · exact hf
    · exact h.held hm
  apart := by
    refine .cons (fun m hm he => ?_) h.apart
    have hx : s.leases.isLocked i = true := List.any_eq_true.mpr ⟨m, hm, by simpa using he.symm⟩
    rw [hl] at hx
    cases hx
  calm := by
    intro e l he hm
    rcases List.mem_cons.mp hm with rfl | hm
    · exact hc e he
    · exact h.calm he hm
  entered := h.entered
  valid := by
    intro l hm
    rcases List.mem_cons.mp hm with rfl | hm
    · exact hv
    · exact h.valid hm

theorem of_look (h : Sound folder s) {sweeper : String} {n : Name}
    (hp : s.protects folder sweeper n = false) : ∀ l ∈ s.leases, ownerOf n ≠ l.id := by
  intro l hl he
  have hlocked : isLockedOn s.disk folder s.leases (ownerOf n) = true := by
    rw [isLockedOn_eq, he, h.held hl]
    exact List.any_eq_true.mpr ⟨l, hl, by simp⟩
  rw [Scene.protects, hlocked, Bool.or_true] at hp
  cases hp

end Sound

theorem sign_lockFile {d : Disk} {id id' : String} {i j : Nat}
    (h : lockFile d folder id' = some j) : lockFile (sign folder id i d) folder id' = some j := by
  unfold sign
  split
  · rw [writeText, writeBytes_snd]
    exact fileAt_extend (openWith_extends ..) h
  · exact h

namespace Sound

variable {s s' : Scene}

theorem opening (h : Sound folder s) {id : String} {x : Except Fault Nat} {d : Disk}
    (hr : (openLock folder id).run s.disk = (x, d)) : Sound folder { s with disk := d } := by
  have hx := openLock_extends folder id s.disk
  rw [hr] at hx
  exact h.onGrown hx

theorem advance (h : Sound folder s) {l r : List Attempt} {a b : Attempt}
    (ha : s.attempts = l ++ a :: r) (hid : b.id = a.id)
    (hf : ∀ i, b.file = some i → lockFile s.disk folder b.id = some i) :
    Sound folder { s with attempts := l ++ b :: r } := by
  refine h.withAttempts fun c hc => ?_
  rcases List.mem_append.mp hc with hc | hc
  · exact .inl (by simp [ha, hc])
  · rcases List.mem_cons.mp hc with rfl | hc
    · exact .inr ⟨hid ▸ h.entered (by simp [ha]), hf⟩
    · exact .inl (by simp [ha, hc])

theorem leave (h : Sound folder s) {l r : List Attempt} {a : Attempt}
    (ha : s.attempts = l ++ a :: r) : Sound folder { s with attempts := l ++ r } := by
  refine h.withAttempts fun c hc => .inl ?_
  rcases List.mem_append.mp hc with hc | hc <;> simp [ha, hc]

theorem judge (h : Sound folder s) {l r : List Due} {e e' : Due} (hd : s.due = l ++ e :: r)
    (hn : e'.name = e.name) : Sound folder { s with due := l ++ e' :: r } := by
  refine h.withDue fun x hx m hm => ?_
  rcases List.mem_append.mp hx with hx | hx
  · exact h.calm (by simp [hd, hx]) hm
  · rcases List.mem_cons.mp hx with rfl | hx
    · exact hn ▸ h.calm (by simp [hd]) hm
    · exact h.calm (by simp [hd, hx]) hm

theorem pass (h : Sound folder s) {l r : List Due} {e : Due} (hd : s.due = l ++ e :: r) :
    Sound folder { s with due := l ++ r } := by
  refine h.withDue fun x hx m hm => h.calm ?_ hm
  rcases List.mem_append.mp hx with hx | hx <;> simp [hd, hx]

theorem step {a : Act} (h : Sound folder s) (hs : Step folder s a s')
    (ho : Orderly folder s a s') : Sound folder s' := by
  -- order is needed where a lock is taken and where an entry is removed
  cases hs with
  | enter hv _ =>
      refine h.withAttempts fun a ha => ?_
      rcases List.mem_cons.mp ha with rfl | ha
      · exact .inr ⟨hv, nofun⟩
      · exact .inl ha
  | openLock ha hr =>
      refine (h.opening hr).advance ha rfl fun j hj => ?_
      cases hj
      exact openLock_lockFile hr
  | fail ha hr => exact (h.opening hr).leave ha
  | @lock h' id l r i ha hl =>
      have hm : (⟨h', id, some i⟩ : Attempt) ∈ s.attempts := by simp [ha]
      have ht := h.take h' (h.opened hm rfl) hl (h.entered hm) (ho.1 h' id rfl)
      have hd := ht.onDisk (d := sign folder id i s.disk) fun _ hf => sign_lockFile hf
      exact hd.leave ha
  | giveUp ha => exact h.leave ha
  | release => exact h.release _ _
  | look hp =>
      refine h.withDue fun e he => ?_
      rcases List.mem_cons.mp he with rfl | he
      · exact h.of_look hp
      · exact fun l hl => h.calm he hl
  | age hd _ => exact h.judge hd rfl
  | keep hd => exact h.pass hd
  | @remove h' dir n l r x hd =>
      have hdisk := h.onDisk (d := ((removal dir n x).run s.disk).2) fun {id i} hu hi =>
        (ho.2 dir n rfl id hu).trans hi
      exact hdisk.pass hd
  | wait => exact h.onGrown (extends_wait _ _)

end Sound

theorem Reach.sound {s : Scene} (h : Reach folder (Orderly folder) s) : Sound folder s := by
  induction h with
  | start d => exact .start d
  | step _ hs ho ih => exact ih.step hs ho

theorem Sound.nodup {s : Scene} (h : Sound folder s) : (s.leases.map (·.id)).Nodup := by
  rw [List.Nodup, List.pairwise_map]
  refine h.apart.imp_of_mem fun {l m} hl hm hf hid => hf ?_
  have hl' := h.held hl
  rw [hid, h.held hm] at hl'
  exact (Option.some.inj hl').symm

theorem Sound.remove {s s' : Scene} (h : Sound folder s) {dir : Path} {n : Name}
    (hs : Step folder s (.remove dir n) s') {l : Lease} (hl : l ∈ s.leases) :
    n ∉ entryNames l.id := by
  cases hs with
  | @remove h' _ _ _ _ x hd =>
      intro hn
      exact h.calm (e := ⟨h', dir, n, some x⟩) (by simp [hd]) hl (ownerOf_entry (h.valid hl) hn)

theorem remove_of_lock {s s' : Scene} {h id : String} (hs : Step folder s (.lock h id) s') {e : Due}
    (he : e ∈ s.due) (hr : e.record ≠ none) :
    (∃ l ∈ s'.leases, l.id = id) ∧ ∃ s'', Step folder s' (.remove e.dir e.name) s'' := by
  cases hs with
  | @lock _ _ _ _ i =>
      obtain ⟨l, r, hd⟩ := List.append_of_mem he
      obtain ⟨x, hx⟩ := Option.ne_none_iff_exists'.mp hr
      obtain ⟨sweeper, dir, n, record⟩ := e
      cases hx
      exact ⟨⟨⟨h, id, i⟩, List.mem_cons_self, rfl⟩, _, .remove hd⟩

theorem second_lease {s : Scene} {l : Lease} {h : String} {i : Nat} {d : Disk} (hl : l ∈ s.leases)
    (hv : Project.checkId l.id = .ok ()) (he : s.isEntered h l.id = false)
    (ho : (openLock folder l.id).run s.disk = (.ok i, d)) (hi : s.leases.isLocked i = false) :
    ∃ s₁ s₂ s₃, Step folder s (.enter h l.id) s₁ ∧ Step folder s₁ (.openLock h l.id) s₂ ∧
      Step folder s₂ (.lock h l.id) s₃ ∧ ¬ (s₃.leases.map (·.id)).Nodup := by
  refine ⟨_, _, _, .enter hv he, .openLock (l := []) rfl ho, .lock (l := []) rfl hi, ?_⟩
  intro hn
  exact (List.nodup_cons.mp hn).1 (List.mem_map.mpr ⟨l, hl, rfl⟩)

/-- Along orderly runs leases exclude each other and keep sweeps away. Of the two things that order
rules out, the one lets a sweep take from a leased project, the other lets in a second lease. -/
theorem leases_exclusive (folder : Path) :
    (∀ {s}, Reach folder (Orderly folder) s → (s.leases.map (·.id)).Nodup ∧
      (∀ l ∈ s.leases, lockFile s.disk folder l.id = some l.file) ∧
      ∀ {dir n s'}, Step folder s (.remove dir n) s' → ∀ l ∈ s.leases, n ∉ entryNames l.id) ∧
    (∀ {s s' h id e}, Step folder s (.lock h id) s' → e ∈ s.due → e.record ≠ none →
      (∃ l ∈ s'.leases, l.id = id) ∧ ∃ s'', Step folder s' (.remove e.dir e.name) s'') ∧
    (∀ {s l h i d}, l ∈ s.leases → Project.checkId l.id = .ok () → s.isEntered h l.id = false →
      (openLock folder l.id).run s.disk = (.ok i, d) → s.leases.isLocked i = false →
      ∃ s₁ s₂ s₃, Step folder s (.enter h l.id) s₁ ∧ Step folder s₁ (.openLock h l.id) s₂ ∧
        Step folder s₂ (.lock h l.id) s₃ ∧ ¬ (s₃.leases.map (·.id)).Nodup) := by
  refine ⟨fun {s} h => ?_, ?_, ?_⟩
  · have hs := h.sound
    exact ⟨hs.nodup, fun l hl => hs.held hl, fun hr l hl => hs.remove hr hl⟩
  · exact fun hs he hr => remove_of_lock hs he hr
  · exact fun hl hv he ho hi => second_lease hl hv he ho hi

def staleDisk : Disk :=
  ⟨[(["p"], ⟨.folder, 0⟩), (["p", "x"], ⟨.folder, 0⟩),
    (["p", "x.lock"], ⟨.file 0 ByteArray.empty false, 0⟩)], [], 10000000000, 1⟩

def locks : Path := .ofText "p"

theorem leases_exclusive_one :
    Reach locks (Orderly locks) ⟨sign locks "x" 0 staleDisk, [⟨"a", "x", 0⟩], [], []⟩ ∧
    ([⟨"a", "x", 0⟩] : Leases).Pairwise (fun l m => l.id ≠ m.id) ∧
    lockFile (sign locks "x" 0 staleDisk) locks "x" = some 0 := by
  have h1 : Reach locks (Orderly locks) ⟨staleDisk, [], [⟨"a", "x", none⟩], []⟩ :=
    .step (.start staleDisk) (.enter (by decide) (by decide)) ⟨nofun, nofun⟩
  have h2 : Reach locks (Orderly locks) ⟨staleDisk, [], [⟨"a", "x", some 0⟩], []⟩ :=
    .step h1 (.openLock (l := []) rfl rfl) ⟨nofun, nofun⟩
  have h3 : Reach locks (Orderly locks) ⟨sign locks "x" 0 staleDisk, [⟨"a", "x", 0⟩], [], []⟩ :=
    .step h2 (.lock (l := []) rfl (by decide)) ⟨fun _ _ _ _ => nofun, nofun⟩
  have h := (leases_exclusive locks).1 h3
  exact ⟨h3, List.pairwise_map.mp h.1, h.2.1 _ List.mem_cons_self⟩

def staleLock : Record := ⟨.file 0 ByteArray.empty false, 0⟩

def afterRemoval : Disk := ((removal locks "x.lock" staleLock).run staleDisk).2

def afterOpening : Disk := ((openLock locks "x").run afterRemoval).2

theorem leases_disorderly :
    (∃ s, Reach locks (fun s a _ => Calm s a) s ∧ ¬ (s.leases.map (·.id)).Nodup) ∧
    ∃ s s', Reach locks (Sparing locks) s ∧ Step locks s (.remove locks "x") s' ∧
      Sparing locks s (.remove locks "x") s' ∧ ∃ l ∈ s.leases, "x" ∈ entryNames l.id := by
  constructor
  · have h1 : Reach locks (fun s a _ => Calm s a) ⟨staleDisk, [], [⟨"a", "x", none⟩], []⟩ :=
      .step (.start staleDisk) (.enter (by decide) (by decide)) nofun
    have h2 : Reach locks (fun s a _ => Calm s a) ⟨staleDisk, [], [⟨"a", "x", some 0⟩], []⟩ :=
      .step h1 (.openLock (l := []) rfl rfl) nofun
    have h3 : Reach locks (fun s a _ => Calm s a)
        ⟨staleDisk, [], [⟨"a", "x", some 0⟩], [⟨"c", locks, "x.lock", none⟩]⟩ :=
      .step h2 (.look (by decide)) nofun
    have h4 : Reach locks (fun s a _ => Calm s a)
        ⟨staleDisk, [], [⟨"a", "x", some 0⟩], [⟨"c", locks, "x.lock", some staleLock⟩]⟩ :=
      .step h3 (.age (l := []) (m := 1) rfl (by decide)) nofun
    have h5 : Reach locks (fun s a _ => Calm s a)
        ⟨afterRemoval, [], [⟨"a", "x", some 0⟩], []⟩ :=
      .step h4 (.remove (l := []) rfl) nofun
    have h6 : Reach locks (fun s a _ => Calm s a)
        ⟨sign locks "x" 0 afterRemoval, [⟨"a", "x", 0⟩], [], []⟩ :=
      .step h5 (.lock (l := []) rfl (by decide)) fun _ _ _ _ => nofun
    rw [show sign locks "x" 0 afterRemoval = afterRemoval from if_neg (by decide)] at h6
    have h7 : Reach locks (fun s a _ => Calm s a)
        ⟨afterRemoval, [⟨"a", "x", 0⟩], [⟨"b", "x", none⟩], []⟩ :=
      .step h6 (.enter (by decide) (by decide)) nofun
    have h8 : Reach locks (fun s a _ => Calm s a)
        ⟨afterOpening, [⟨"a", "x", 0⟩], [⟨"b", "x", some 1⟩], []⟩ :=
      .step h7 (.openLock (l := []) rfl rfl) nofun
    have h9 : Reach locks (fun s a _ => Calm s a)
        ⟨sign locks "x" 1 afterOpening, [⟨"b", "x", 1⟩, ⟨"a", "x", 0⟩], [], []⟩ :=
      .step h8 (.lock (l := []) rfl (by decide)) fun _ _ _ _ => nofun
    exact ⟨_, h9, by decide⟩
  · have h1 : Reach locks (Sparing locks) ⟨staleDisk, [], [], [⟨"c", locks, "x", none⟩]⟩ :=
      .step (.start staleDisk) (.look (by decide)) nofun
    have h2 : Reach locks (Sparing locks)
        ⟨staleDisk, [], [], [⟨"c", locks, "x", some ⟨.folder, 0⟩⟩]⟩ :=
      .step h1 (.age (l := []) (m := 1) rfl (by decide)) nofun
    have h3 : Reach locks (Sparing locks)
        ⟨staleDisk, [], [⟨"a", "x", none⟩], [⟨"c", locks, "x", some ⟨.folder, 0⟩⟩]⟩ :=
      .step h2 (.enter (by decide) (by decide)) nofun
    have h4 : Reach locks (Sparing locks)
        ⟨staleDisk, [], [⟨"a", "x", some 0⟩], [⟨"c", locks, "x", some ⟨.folder, 0⟩⟩]⟩ :=
      .step h3 (.openLock (l := []) rfl rfl) nofun
    have h5 : Reach locks (Sparing locks) ⟨sign locks "x" 0 staleDisk, [⟨"a", "x", 0⟩], [],
        [⟨"c", locks, "x", some ⟨.folder, 0⟩⟩]⟩ :=
      .step h4 (.lock (l := []) rfl (by decide)) nofun
    refine ⟨_, _, h5, .remove (l := []) rfl, ?_, _, List.mem_cons_self, by decide⟩
    rintro dir n - id (⟨l, hl, rfl⟩ | ⟨a, ha, _⟩)
    · cases List.mem_singleton.mp hl
      decide
    · cases ha

end SourceAtlas.Leases
