import SourceAtlas.Proofs.Lease.Exclusion
import SourceAtlas.Proofs.Lease.Probing
import SourceAtlas.Proofs.Lease.Runs
import SourceAtlas.Proofs.Run.Courses

namespace SourceAtlas.Leases.Probing

open Disk Work

variable {folder : Path} {s s' : Scene} {a b : Account} {i : Nat}

structure Sound (s : Scene) : Prop where
  plain : IsPlain IsLockName s.disk
  valid : ∀ {a}, s.progress a ≠ .away → Project.checkId a.id = .ok ()
  only : ∀ {a i}, (s.progress a).file? = some i →
    i < s.disk.nextId ∧ s.disk.IsOnly i (Settings.lockName a.id)
  apart : ∀ {a b i}, (s.progress a).file? = some i → (s.progress b).file? = some i → a.id = b.id

namespace Sound

theorem start {d : Disk} (h : IsPlain IsLockName d) : Sound (.start d) :=
  ⟨h, fun h => absurd rfl h, nofun, nofun⟩

theorem onDisk (h : Sound s) {d : Disk} (hd : Steady IsLockName s.disk d) :
    Sound { s with disk := d } where
  plain := hd.plain
  valid := h.valid
  only hf := by
    obtain ⟨hi, ho⟩ := h.only hf
    exact ⟨hi.trans_le hd.retains.numbers, ho.retain hd.retains hi⟩
  apart := h.apart

theorem opens (h : Sound s) {id : String} {r : Except Fault Nat} {d : Disk}
    (hr : (openLock folder id).run s.disk = (r, d)) : Steady IsLockName s.disk d := by
  have hd := openLock_steady folder s.disk id s.disk (.refl h.plain)
  rwa [hr] at hd

theorem same (h : Sound s) {id : String} {d : Disk} (hid : Project.checkId id = .ok ())
    (hr : (openLock folder id).run s.disk = (.ok i, d)) (hb : (s.progress b).file? = some i) :
    id = b.id := by
  have hd := h.opens hr
  obtain ⟨q, c, x, hq, hname⟩ := place_of_lockFile hd.plain hid (openLock_lockFile hr)
  obtain ⟨hi, honly⟩ := h.only hb
  -- the file was there before, under the name it was opened by then
  obtain ⟨c', x', hq'⟩ := hd.retains.files hq hi
  have hname' := honly hq'
  rw [hname] at hname'
  exact (String.append_left_inj _).mp (Option.some.inj hname')

theorem move (h : Sound s) {p : Progress} (hv : p ≠ .away → Project.checkId a.id = .ok ())
    (hp : ∀ i, p.file? = some i → (s.progress a).file? = some i) : Sound (s.move a p) := by
  have hfile : ∀ {b i}, ((s.move a p).progress b).file? = some i → (s.progress b).file? = some i := by
    intro b i hb
    by_cases hba : b = a
    · subst hba
      rw [Scene.progress_move_self] at hb
      exact hp i hb
    · rwa [Scene.progress_move_of_ne _ hba] at hb
  refine ⟨h.plain, fun {b} hb => ?_, fun hf => h.only (hfile hf), fun hf hf' =>
    h.apart (hfile hf) (hfile hf')⟩
  by_cases hba : b = a
  · subst hba
    rw [Scene.progress_move_self] at hb
    exact hv hb
  · rw [Scene.progress_move_of_ne _ hba] at hb
    exact h.valid hb

theorem opening (h : Sound s) {d : Disk} (ha : s.progress a = .entered)
    (hr : (openLock folder a.id).run s.disk = (.ok i, d)) :
    Sound ({ s with disk := d }.move a (.opened i)) := by
  have hid : Project.checkId a.id = .ok () := h.valid (by rw [ha]; nofun)
  have hd := h.opens hr
  have hnow := h.onDisk hd
  obtain ⟨q, c, x, hq, hname⟩ := place_of_lockFile hd.plain hid (openLock_lockFile hr)
  have hfile : ∀ {b j}, ((({ s with disk := d } : Scene).move a (.opened i)).progress b).file? =
      some j → b = a ∧ j = i ∨ (s.progress b).file? = some j := by
    intro b j hb
    by_cases hba : b = a
    · subst hba
      rw [Scene.progress_move_self] at hb
      exact .inl ⟨rfl, (Option.some.inj hb).symm⟩
    · rw [Scene.progress_move_of_ne _ hba] at hb
      exact .inr hb
  refine ⟨hd.plain, fun {b} hb => ?_, fun {b j} hb => ?_, fun {b b' j} hb hb' => ?_⟩
  · by_cases hba : b = a
    · exact hba ▸ hid
    · rw [Scene.progress_move_of_ne _ hba] at hb
      exact h.valid hb
  · rcases hfile hb with ⟨rfl, rfl⟩ | hb
    · refine ⟨hd.plain.numbered.fresh hq, fun hq' => ?_⟩
      rwa [hd.plain.numbered.apart hq' hq]
    · exact hnow.only hb
  · rcases hfile hb with ⟨hba, hj⟩ | hold <;> rcases hfile hb' with ⟨hba', hj'⟩ | hold'
    · rw [hba, hba']
    · rw [hba]
      exact h.same hid (hj ▸ hr) hold'
    · rw [hba']
      exact (h.same hid (hj' ▸ hr) hold).symm
    · exact h.apart hold hold'

theorem sign_steady (h : Sound s) (id : String) (i : Nat) :
    Steady IsLockName s.disk (sign folder id i s.disk) := by
  unfold sign
  split
  · exact Keeps.discard (openWith_steady _ _ _ _) _ (.refl h.plain)
  · exact .refl h.plain

theorem removal_steady (h : Sound s) (dir : Path) (n : Name) (x : Record) :
    Steady IsLockName s.disk ((removal dir n x).run s.disk).2 := by
  unfold removal
  split
  · exact removeUnless_steady _ _ _ _ _ _ (.refl h.plain)
  · exact removeUnless_steady _ _ _ _ _ _ (.refl h.plain)

theorem step {act : Act} (h : Sound s) (hs : Step folder s act s') : Sound s' := by
  have hvalid : ∀ {a p}, s.progress a = p → p ≠ .away → Project.checkId a.id = .ok () :=
    fun ha hp => h.valid (ha ▸ hp)
  cases hs with
  | enter hv _ => exact h.move (fun _ => hv) nofun
  | turnAway => exact h
  | openLock ha hr => exact h.opening ha hr
  | fail ha hr => exact (h.onDisk (h.opens hr)).move (fun _ => hvalid ha nofun) nofun
  | @lock a i ha =>
      refine (h.onDisk (h.sign_steady a.id i)).move (fun _ => hvalid ha nofun) fun j hj => ?_
      show (s.progress a).file? = some j
      rw [ha]
      exact hj
  | refuse ha => exact h.move (fun _ => hvalid ha nofun) nofun
  | abort ha => exact h.move (fun _ => hvalid ha nofun) nofun
  | unlock ha => exact h.move (fun _ => hvalid ha nofun) nofun
  | leave => exact h.move (fun hne => absurd rfl hne) nofun
  | @remove _ dir n _ _ x =>
      have hdisk := h.onDisk (h.removal_steady dir n x)
      exact ⟨hdisk.plain, hdisk.valid, hdisk.only, hdisk.apart⟩
  | wait => exact h.onDisk ((Steady.refl h.plain).wait _)
  | change hd => exact h.onDisk hd
  -- looks and sweeps touch neither the disk nor the accounts
  | _ => exact ⟨h.plain, h.valid, h.only, h.apart⟩

end Sound

theorem Reach.sound (h : Reach folder s) : Sound s := by
  induction h with
  | start hd => exact .start hd
  | step _ hs ih => exact ih.step hs

theorem Sound.locked_iff (h : Sound s) (ha : s.progress a = .opened i) :
    s.IsLocked i ↔ ∃ b, b.id = a.id ∧ b ≠ a ∧ s.progress b = .held i := by
  constructor
  · rintro ⟨b, hb⟩
    refine ⟨b, h.apart (i := i) (by rw [hb]; rfl) (by rw [ha]; rfl), ?_, hb⟩
    rintro rfl
    rw [ha] at hb
    cases hb
  · rintro ⟨b, _, _, hb⟩
    exact ⟨b, hb⟩

theorem Sound.lease_of_none (h : Sound s) {ls : Leases} {holder id : String} {d : Disk}
    (hls : ∀ l ∈ ls, s.progress ⟨l.holder, l.id⟩ = .held l.file)
    (hid : Project.checkId id = .ok ())
    (hr : (acquire folder holder id ls).run s.disk = (.ok none, d)) : ∃ l ∈ ls, l.id = id := by
  cases hheld : ls.isHeldBy holder id with
  | true =>
      obtain ⟨l, hl, he⟩ := List.any_eq_true.mp hheld
      simp only [Bool.and_eq_true, beq_iff_eq] at he
      exact ⟨l, hl, he.2⟩
  | false =>
      rw [acquire_run hheld] at hr
      split at hr
      · cases hr
      · next i d' ho =>
          split at hr
          · next hlocked =>
              obtain ⟨l, hl, he⟩ := List.any_eq_true.mp hlocked
              have hi : (s.progress ⟨l.holder, l.id⟩).file? = some i := by
                rw [hls l hl, ← beq_iff_eq.mp he]
                rfl
              exact ⟨l, hl, (h.same hid ho hi).symm⟩
          · split at hr <;> cases hr

/-- In a scene that can be reached, an attempt gets nothing at once if its holder has the project in
the account, and later just if another holder has the lease or a look shares the lock; otherwise it
can have the lock. So a run that nobody comes in between is rejected only if somebody has a lease. -/
theorem refused_iff (folder : Path) {s : Scene} (h : Reach folder s) :
    (∀ a, (∃ s', Step folder s (.turnAway a) s') ↔ s.progress a ≠ .away) ∧
    (∀ {a i}, s.progress a = .opened i →
      ((∃ s', Step folder s (.refuse a) s') ↔
        (∃ b, b.id = a.id ∧ b ≠ a ∧ s.progress b = .held i) ∨ s.IsShared i) ∧
      ((∃ s', Step folder s (.lock a) s') ↔ ¬∃ s', Step folder s (.refuse a) s')) ∧
    ∀ {σ : Type} (an : Run.Analyzer σ) {id : String} {w w' : Run.Workspace σ},
      an.settings.projectsDir = folder → w.disk = s.disk →
      (∀ l ∈ w.leases, s.progress ⟨l.holder, l.id⟩ = .held l.file) →
      (an.start id).run w = (.error (.alreadyRunning id), w') → ∃ l ∈ w.leases, l.id = id := by
  refine ⟨fun a => ⟨?_, fun ha => ⟨s, .turnAway ha⟩⟩, fun {a i} ha => ?_, ?_⟩
  · rintro ⟨s', hs⟩
    cases hs with
    | turnAway ha => exact ha
  · have hrefuse : (∃ s', Step folder s (.refuse a) s') ↔ s.IsLocked i ∨ s.IsShared i := by
      constructor
      · rintro ⟨s', hs⟩
        cases hs with
        | refuse ha' hi =>
            rw [ha] at ha'
            cases ha'
            exact hi
      · exact fun hi => ⟨_, .refuse ha hi⟩
    rw [hrefuse, h.sound.locked_iff ha]
    refine ⟨Iff.rfl, ?_⟩
    -- what keeps an attempt from the lock is just what refuses it
    rw [← h.sound.locked_iff ha, not_or]
    constructor
    · rintro ⟨s', hs⟩
      cases hs with
      | lock ha' hl hsh =>
          rw [ha] at ha'
          cases ha'
          exact ⟨hl, hsh⟩
    · exact fun hi => ⟨_, .lock ha hi.1 hi.2⟩
  · intro σ an id w w' hfolder hdisk hls hr
    subst hfolder
    rw [an.start_run] at hr
    split at hr
    · cases hr
    · next hid =>
        split at hr
        · cases hr
        · next hacquire =>
            rw [hdisk] at hacquire
            exact h.sound.lease_of_none hls hid hacquire
        · cases hr

theorem plain_stale : IsPlain IsLockName staleDisk :=
  .of_records (by decide) (by decide)

def accountOfX : Account := ⟨"a", "x"⟩

def attempted : Scene := ((Scene.start staleDisk).move accountOfX .entered).move accountOfX (.opened 0)

theorem reach_attempted : Reach locks attempted := by
  have h1 : Reach locks ((Scene.start staleDisk).move accountOfX .entered) :=
    .step (.start plain_stale) (.enter (by decide) rfl)
  exact .step h1 (.openLock (Scene.progress_move_self ..) rfl)

theorem refused_iff_attempted : Reach locks attempted ∧
    (∃ s', Step locks attempted (.lock accountOfX) s') ∧
    ¬∃ s', Step locks attempted (.refuse accountOfX) s' := by
  obtain ⟨_, hopened, _⟩ := refused_iff locks reach_attempted
  obtain ⟨hrefuse, hlock⟩ := hopened (a := accountOfX) (i := 0) (Scene.progress_move_self ..)
  have hnot : ¬∃ s', Step locks attempted (.refuse accountOfX) s' := by
    rw [hrefuse]
    rintro (⟨b, _, hb, hheld⟩ | ⟨k, entry, hk⟩)
    · rw [attempted, Scene.progress_move_of_ne _ hb, Scene.progress_move_of_ne _ hb] at hheld
      cases hheld
    · cases hk
  exact ⟨reach_attempted, hlock.mpr hnot, hnot⟩

def watched : Scene := (attempted.look 0 (.opened 0 none)).look 0 (.sharing 0 none)

def linkedLocks : Disk :=
  ⟨[(["p"], ⟨.folder, 0⟩), (["p", "x.lock"], ⟨.link (.ofText "y.lock"), 0⟩),
    (["p", "y.lock"], ⟨.file 0 ByteArray.empty false, 0⟩)], [], 0, 1⟩

theorem refused_without_lease :
    (Reach locks watched ∧ (∃ s', Step locks watched (.refuse accountOfX) s') ∧
      ∀ b, b ≠ accountOfX → watched.progress b = .away) ∧
    (acquire locks "a" "x" [⟨"b", "y", 0⟩]).run linkedLocks = (.ok none, linkedLocks) := by
  have hlooks : ∀ (s : Scene) k l, (s.look k l).looks k = l := fun s k l => Function.update_self ..
  have hnobody : ∀ b, b ≠ accountOfX → attempted.progress b = .away := by
    intro b hb
    rw [attempted, Scene.progress_move_of_ne _ hb, Scene.progress_move_of_ne _ hb]
    rfl
  have hfree : ¬(attempted.look 0 (.opened 0 none)).IsLocked 0 := by
    rintro ⟨b, hb⟩
    by_cases hba : b = accountOfX
    · subst hba
      cases hb
    · exact absurd ((hnobody b hba).symm.trans hb) nofun
  have h1 : Reach locks (attempted.look 0 (.opened 0 none)) :=
    .step reach_attempted (.ask rfl (hnobody ⟨"b", "x"⟩ (by decide)) rfl nofun)
  have h2 : Reach locks watched := .step h1 (.share (hlooks ..) hfree)
  have hopened : attempted.progress accountOfX = .opened 0 := Scene.progress_move_self ..
  exact ⟨⟨h2, ⟨_, .refuse hopened (.inr ⟨0, none, hlooks ..⟩)⟩, hnobody⟩, rfl⟩

end SourceAtlas.Leases.Probing
