import SourceAtlas.Proofs.Lease.Owner
import SourceAtlas.Proofs.Lease.Runs
import SourceAtlas.Proofs.Run.Steps
import SourceAtlas.Proofs.Store.Saves

namespace SourceAtlas.Run

open Disk Work

variable {σ α β γ : Type} {a : Analyzer σ} {operation : String} {lease : Lease}

def Pooled.carries (m : Pooled) : Bool := m.labor.kind.carriesLease

def carriers (ms : List Pooled) : Nat := ms.countP Pooled.carries

@[simp] theorem carriers_append (ms ms' : List Pooled) :
    carriers (ms ++ ms') = carriers ms + carriers ms' := List.countP_append ..

theorem carriers_busy (l : Labor β) :
    carriers (Slot.busy l).pool = l.kind.carriesLease.toNat := by
  cases h : l.kind.carriesLease <;> simp [carriers, Slot.pool, Pooled.carries, h]

theorem carriers_cons (l : Labor β) (ms : List Pooled) :
    carriers (⟨l⟩ :: ms) = carriers (Slot.busy l).pool + carriers ms := carriers_append [⟨l⟩] ms

theorem Hold.shares_share (h : Hold σ) (carries : Bool) :
    (h.share carries).shares = h.shares + carries.toNat := by
  cases carries <;> rfl

theorem Hold.shares_drop (h : Hold σ) (carries : Bool) :
    (h.drop lease carries).shares = h.shares - carries.toNat := by
  cases carries <;> rfl

def Pooled.IsSpare (m : Pooled) : Prop := m.carries = true ∨ m.labor.kind = .look

def Hold.Sound (lease : Lease) (h : Hold σ) : Prop := 0 < h.shares → lease ∈ h.site.leases

theorem Hold.Sound.drop {h : Hold σ} (hs : h.Sound lease) (carries : Bool) :
    (h.drop lease carries).Sound lease := by
  cases carries with
  | false => exact hs
  | true =>
      intro hpos
      have hpos : 0 < h.shares - 1 := hpos
      have hne : h.shares ≠ 1 := by omega
      show lease ∈ (if h.shares = 1 then _ else h.site : Workspace σ).leases
      rw [if_neg hne]
      exact hs (by omega)

namespace Turn

variable {h h' : Hold σ} {x x' : Slot β}

theorem sound (ht : Turn lease h x h' x') (hs : h.Sound lease)
    (hpos : 0 < h.shares ∨ ∃ l, x = .busy l) : h'.Sound lease := by
  cases ht with
  | spawn =>
      intro _
      obtain hpos | ⟨_, hx⟩ := hpos
      · have := hs hpos
        unfold Hold.share
        split <;> exact this
      · cases hx
  | work => exact hs
  | answer => exact hs.drop _

theorem shares (ht : Turn lease h x h' x') (hpos : carriers x.pool ≤ h.shares) :
    h'.shares + carriers x.pool = h.shares + carriers x'.pool := by
  cases ht with
  | spawn =>
      rw [Hold.shares_share, carriers_busy]
      rfl
  | work =>
      rw [carriers_busy, carriers_busy]
      rfl
  | answer =>
      rw [carriers_busy] at hpos ⊢
      rw [Hold.shares_drop]
      exact Nat.sub_add_cancel hpos

theorem spare (ht : Turn lease h x h' x') (hx : x.IsSpare) : x'.IsSpare := by
  cases ht with
  | spawn => exact hx
  | work => exact hx
  | answer => trivial

end Turn

namespace PairTurn

variable {h h' : Hold σ} {x x' : Slot β} {y y' : Slot γ}

theorem sound (ht : PairTurn lease h x y h' x' y') (hs : h.Sound lease) (hpos : 0 < h.shares) :
    h'.Sound lease := by
  cases ht with
  | left ht => exact ht.sound hs (.inl hpos)
  | right ht => exact ht.sound hs (.inl hpos)

theorem shares (ht : PairTurn lease h x y h' x' y')
    (hpos : carriers x.pool + carriers y.pool ≤ h.shares) :
    h'.shares + (carriers x.pool + carriers y.pool) =
      h.shares + (carriers x'.pool + carriers y'.pool) := by
  cases ht with
  | left ht =>
      have := ht.shares (by omega)
      omega
  | right ht =>
      have := ht.shares (by omega)
      omega

theorem minded {ls : List Limit} (ht : PairTurn lease h x y h' x' y') (hm : Minded x y ls) :
    Minded x' y' ls := by
  cases ht with
  | left ht => exact hm.imp_left fun ⟨hx, hy⟩ => ⟨ht.spare hx, hy⟩
  | right ht =>
      rcases hm with ⟨hx, hy⟩ | ⟨_, _, rfl⟩
      · exact .inl ⟨hx, ht.spare hy⟩
      · cases ht

end PairTurn

theorem Slot.IsFresh.pool {x : Slot β} (hx : x.IsFresh) : x.pool = [] := by
  cases x with
  | busy l => cases hx
  | ready _ => rfl
  | back _ => rfl

theorem Slot.IsSpare.pool {x : Slot β} (hx : x.IsSpare) : ∀ m ∈ x.pool, m.IsSpare := by
  intro m hm
  obtain ⟨l, rfl, rfl⟩ := mem_pool hm
  exact hx

theorem append {P : Pooled → Prop} {ms ms' : List Pooled} (h : ∀ m ∈ ms, P m)
    (h' : ∀ m ∈ ms', P m) : ∀ m ∈ ms ++ ms', P m := fun m hm =>
  (List.mem_append.mp hm).elim (h m) (h' m)

def Script.Steady : Script σ α → Prop
  | .done _ | .failed .. => True
  | .go g k => Calm g ∧ ∀ w, (k w).Orderly
  | .await x y _ ls k => Minded x y ls ∧ ∀ b c, (k b c).Orderly

namespace Script.Every

theorem steady {s : Script σ α} (hs : s.Orderly) : s.Steady := by
  cases s with
  | done _ => trivial
  | failed _ _ => trivial
  | go g k => exact hs
  | await x y r ls k => exact ⟨hs.1.2, hs.2⟩

theorem pool {s : Script σ α} (hs : s.Orderly) : s.pool = [] := by
  cases s with
  | done _ => rfl
  | failed _ _ => rfl
  | go g k => rfl
  | await x y r ls k =>
      obtain ⟨⟨⟨hx, hy⟩, _⟩, _⟩ := hs
      rw [Script.pool, hx.pool, hy.pool]
      rfl

end Script.Every

theorem Script.pool_of_outcome {s : Script σ α} (h : s.outcome ≠ none) : s.pool = [] := by
  cases s with
  | await x y r ls k => exact absurd rfl h
  | _ => rfl

structure RunState.Held (lease : Lease) (f : RunState σ α) : Prop where
  shares : f.hold.shares = (!f.ended).toNat + carriers f.pool
  sound : f.hold.Sound lease
  script : f.script.Steady
  spare : ∀ m ∈ f.strays, m.IsSpare
  decided : f.ended = true → f.script.outcome ≠ none

namespace RunState.Held

theorem running {f : RunState σ α} (hf : f.Held lease) (hs : f.script.outcome = none) :
    f.ended = false := by
  cases he : f.ended with
  | false => rfl
  | true => exact absurd hs (hf.decided he)

theorem pos {f : RunState σ α} (hf : f.Held lease) (he : f.ended = false) : 0 < f.hold.shares := by
  rw [hf.shares, he]
  exact Nat.lt_of_lt_of_le Nat.zero_lt_one (Nat.le_add_right ..)

theorem launch {s : Script σ α} (hs : s.Orderly) {w : Workspace σ} (hw : lease ∈ w.leases) :
    (launch s w).Held lease where
  shares := by
    show 1 = 1 + carriers (s.pool ++ [])
    rw [hs.pool]
    rfl
  sound := fun _ => hw
  script := hs.steady
  spare := nofun
  decided := nofun

section

variable {s : Script σ α} {h h' : Hold σ} {st : List Pooled} {e : Bool} {l l' : Option Place}

theorem go {g : Workspace σ → Workspace σ} {k : Workspace σ → Script σ α}
    (hf : (⟨.go g k, h, st, e, l⟩ : RunState σ α).Held lease) :
    (⟨k h.site, { h with site := g h.site }, st, e, l⟩ : RunState σ α).Held lease := by
  obtain rfl : e = false := hf.running rfl
  obtain ⟨hcalm, hk⟩ := hf.script
  refine ⟨?_, fun hpos => ?_, (hk _).steady, hf.spare, nofun⟩
  · show h.shares = 1 + carriers ((k h.site).pool ++ st)
    rw [(hk _).pool]
    exact hf.shares
  · show lease ∈ (g h.site).leases
    rw [(hcalm _).1]
    exact hf.sound hpos

variable {x x' : Slot β} {y y' : Slot γ} {r : Bool} {ls : List Limit} {k : β → γ → Script σ α}

theorem shares_await (hf : (⟨.await x y r ls k, h, st, e, l⟩ : RunState σ α).Held lease) :
    h.shares = (!e).toNat + (carriers x.pool + carriers y.pool + carriers st) := by
  have hshares : h.shares = (!e).toNat + carriers ((x.pool ++ y.pool) ++ st) := hf.shares
  rwa [carriers_append, carriers_append] at hshares

theorem turn (hf : (⟨.await x y r ls k, h, st, e, l⟩ : RunState σ α).Held lease)
    (ht : PairTurn lease h x y h' x' y') :
    (⟨.await x' y' r ls k, h', st, e, l⟩ : RunState σ α).Held lease := by
  have hshares := hf.shares_await
  obtain rfl : e = false := hf.running rfl
  have hturn := ht.shares (by omega)
  refine ⟨?_, ht.sound hf.sound (hf.pos rfl), ⟨ht.minded hf.script.1, hf.script.2⟩, hf.spare, nofun⟩
  show h'.shares = _ + carriers ((x'.pool ++ y'.pool) ++ st)
  simp only [carriers_append]
  omega

theorem proceed {b : β} {c : γ} (hf : (⟨.await (.back (.ok b)) (.back (.ok c)) r ls k, h, st, e, l⟩ :
    RunState σ α).Held lease) : (⟨k b c, h, st, e, l⟩ : RunState σ α).Held lease := by
  obtain rfl : e = false := hf.running rfl
  have hk := hf.script.2 b c
  refine ⟨?_, hf.sound, hk.steady, hf.spare, nofun⟩
  show h.shares = _ + carriers ((k b c).pool ++ st)
  rw [hk.pool]
  exact hf.shares

theorem leave (hf : (⟨.await x y r ls k, h, st, e, l⟩ : RunState σ α).Held lease) {ms : List Pooled}
    (hms : carriers ms = carriers x.pool + carriers y.pool) (hspare : ∀ m ∈ ms, m.IsSpare)
    (b : Bool) (f : Failure) : (⟨.failed b f, h, ms ++ st, e, l⟩ : RunState σ α).Held lease := by
  refine ⟨?_, hf.sound, trivial, append hspare hf.spare, fun _ => nofun⟩
  show h.shares = _ + carriers ([] ++ (ms ++ st))
  rw [List.nil_append, carriers_append, hms]
  exact hf.shares_await

theorem fail {f : Failure} {ms : List Pooled}
    (hf : (⟨.await x y r ls k, h, st, e, l⟩ : RunState σ α).Held lease) (hp : PairFailed f x y ms) :
    (⟨.failed r f, h, ms ++ st, e, l⟩ : RunState σ α).Held lease := by
  have hminded := hf.script.1
  cases hp with
  | left =>
      refine hf.leave (Nat.zero_add _).symm (Slot.IsSpare.pool ?_) r f
      rcases hminded with ⟨_, hy⟩ | ⟨_, c, rfl⟩
      · exact hy
      · trivial
  | right =>
      refine hf.leave (Nat.add_zero _).symm (Slot.IsSpare.pool ?_) r f
      rcases hminded with ⟨hx, _⟩ | ⟨_, c, hy⟩
      · exact hx
      · cases hy

theorem limit {m : Limit} (hf : (⟨.await x y r ls k, h, st, e, l⟩ : RunState σ α).Held lease)
    (hm : m ∈ ls) :
    (⟨.failed m.rejects m.failure, h, x.pool ++ (y.pool ++ st), e, l⟩ : RunState σ α).Held lease := by
  obtain ⟨hx, hy⟩ : x.IsSpare ∧ y.IsSpare := by
    rcases hf.script.1 with hxy | ⟨rfl, _⟩
    · exact hxy
    · cases hm
  rw [← List.append_assoc]
  exact hf.leave (carriers_append ..) (append hx.pool hy.pool) _ _

theorem stray {m : Labor β} {pre post : List Pooled}
    (hf : (⟨s, h, pre ++ ⟨m⟩ :: post, e, l⟩ : RunState σ α).Held lease)
    (ht : Turn lease h (.busy m) h' x) :
    (⟨s, h', pre ++ (x.pool ++ post), e, l⟩ : RunState σ α).Held lease := by
  have hshares : h.shares = (!e).toNat + carriers (s.pool ++ (pre ++ ⟨m⟩ :: post)) := hf.shares
  simp only [carriers_append, carriers_cons] at hshares
  have hturn := ht.shares (by omega)
  refine ⟨?_, ht.sound hf.sound (.inr ⟨m, rfl⟩), hf.script, ?_, hf.decided⟩
  · show h'.shares = (!e).toNat + carriers (s.pool ++ (pre ++ (x.pool ++ post)))
    simp only [carriers_append]
    omega
  · have hspare : Slot.IsSpare (.busy m) := hf.spare ⟨m⟩ (by simp)
    refine append (fun n hn => hf.spare n (by simp [hn])) (append (ht.spare hspare).pool ?_)
    exact fun n hn => hf.spare n (by simp [hn])

theorem finish (hf : (⟨s, h, st, false, l⟩ : RunState σ α).Held lease) (hs : s.outcome ≠ none)
    {w : Workspace σ} (hw : w.leases = h.site.leases) :
    (⟨s, { h with site := w }.drop lease true, st, true, l'⟩ : RunState σ α).Held lease := by
  have hsound : Hold.Sound lease { h with site := w } := fun hpos => hw ▸ hf.sound hpos
  refine ⟨?_, hsound.drop true, hf.script, hf.spare, fun _ => hs⟩
  have hshares : h.shares = 1 + carriers (s.pool ++ st) := hf.shares
  rw [Hold.shares_drop]
  show h.shares - 1 = 0 + carriers (s.pool ++ st)
  omega

end

theorem step {f f' : RunState σ α} (hf : f.Held lease) (hs : Step a operation lease f f') :
    f'.Held lease := by
  cases hs with
  | go => exact hf.go
  | turn ht => exact hf.turn ht
  | proceed => exact hf.proceed
  | fail hp => exact hf.fail hp
  | limit hm => exact hf.limit hm
  | stray ht => exact hf.stray ht
  | finish => exact hf.finish nofun rfl
  | @report r f h st =>
      obtain ⟨ns, hrep⟩ := a.report_self operation lease.id f h.site
      exact hf.finish nofun (by rw [hrep])

theorem others {f f' : RunState σ α} (hf : f.Held lease) (ho : Others lease f f') : f'.Held lease := by
  cases ho with
  | mk hw => exact ⟨hf.shares, fun hpos => hw (hf.sound hpos), hf.script, hf.spare, hf.decided⟩

theorem leased {f : RunState σ α} (hf : f.Held lease) {m : Pooled}
    (hm : m ∈ f.script.pool ∨ m ∈ f.strays ∧ m.labor.kind ≠ .look) :
    lease ∈ f.hold.site.leases := by
  refine hf.sound ?_
  have hshares := hf.shares
  rcases hm with hm | ⟨hm, hkind⟩
  · refine hf.pos (hf.running ?_)
    by_contra hs
    rw [Script.pool_of_outcome hs] at hm
    cases hm
  · have hc : m.carries = true := (hf.spare m hm).resolve_right hkind
    have : 0 < carriers f.pool :=
      List.countP_pos_iff.mpr ⟨m, List.mem_append_right _ hm, hc⟩
    omega

end RunState.Held

def Hold.Tight (lease : Lease) (h : Hold σ) : Prop := h.shares = 0 → lease ∉ h.site.leases

theorem not_mem_release (ls : Leases) : lease ∉ ls.release lease.holder lease.id := by
  simp [Leases.release]

theorem Hold.Tight.drop {h : Hold σ} (ht : h.Tight lease) (carries : Bool)
    (hpos : carries.toNat ≤ h.shares) : (h.drop lease carries).Tight lease := by
  cases carries with
  | false => exact ht
  | true =>
      intro hz
      have hz : h.shares - 1 = 0 := hz
      have hone : h.shares = 1 := by
        have : 1 ≤ h.shares := hpos
        omega
      show lease ∉ (if h.shares = 1 then _ else h.site : Workspace σ).leases
      rw [if_pos hone]
      exact not_mem_release _

theorem Turn.tight {h h' : Hold σ} {x x' : Slot β} (ht : Turn lease h x h' x')
    (htight : h.Tight lease) (hpos : carriers x.pool ≤ h.shares) : h'.Tight lease := by
  cases ht with
  | spawn =>
      intro hz
      rw [Hold.shares_share] at hz
      have := htight (by omega)
      unfold Hold.share
      split <;> exact this
  | work => exact htight
  | answer =>
      rw [carriers_busy] at hpos
      exact htight.drop _ hpos

theorem RunState.Held.tight {f f' : RunState σ α} (hf : f.Held lease) (ht : f.hold.Tight lease)
    (hs : Step a operation lease f f') : f'.hold.Tight lease := by
  -- as long as the run has not ended, it has a share
  have hrunning : f.script.outcome = none → f'.ended = f.ended → f'.hold.Tight lease := by
    intro hnone he hz
    have hshares := (hf.step hs).shares
    rw [hz, he, hf.running hnone] at hshares
    have : (!false).toNat = 1 := rfl
    omega
  cases hs with
  | stray hturn =>
      refine hturn.tight ht ?_
      have hshares := hf.shares
      simp only [RunState.pool, carriers_append, carriers_cons] at hshares
      omega
  | finish => exact ht.drop true (hf.pos rfl)
  | @report r f h st =>
      obtain ⟨ns, hrep⟩ := a.report_self operation lease.id f h.site
      refine Hold.Tight.drop ?_ true (hf.pos rfl)
      rw [hrep]
      exact ht
  | _ => exact hrunning rfl rfl

theorem openLock_of_lockFile {d : Disk} {folder : Path} {id : String} {i : Nat} (ht : IsTree d)
    (hid : Project.checkId id = .ok ()) (h : Leases.lockFile d folder id = some i) :
    (Leases.openLock folder id).run d = (.ok i, d) := by
  obtain ⟨q, b, x, t, hs⟩ := fileAt_eq_some.mp h
  have hl := stat_eq_ok.mp hs
  have hmake : (makeFolders folder).run d = (.ok (), d) := by
    cases hp : folder.isEmpty with
    | true =>
        rw [makeFolders, if_pos hp]
        rfl
    | false =>
        rw [Settings.lockPath_eq folder hid] at hl
        exact makeFolders_of_isFolder
          (folder_of_locate ht hp (Settings.lockName_isEntryName hid).proper hl)
  rw [Leases.openLock_run, hmake]
  dsimp only
  rw [openFile, openWith_run, hl]
  rfl

/-- The lease binds everybody: who asks for it gets nothing, and sweeps stay away. Those who keep an
account of their own know of it as long as the name of the lock leads to the locked file. -/
structure Binding (folder : Path) (lease : Lease) (w : Workspace σ) : Prop where
  held : lease ∈ w.leases
  refused : (Leases.acquire folder lease.holder lease.id w.leases).run w.disk = (.ok none, w.disk)
  spared : ∀ n ∈ Leases.entryNames lease.id,
    w.leases.protects w.disk folder lease.holder n = true
  refused_all : IsTree w.disk → Leases.lockFile w.disk folder lease.id = some lease.file →
    ∀ holder, (Leases.acquire folder holder lease.id w.leases).run w.disk = (.ok none, w.disk)
  spared_all : Leases.lockFile w.disk folder lease.id = some lease.file → ∀ holder,
    ∀ n ∈ Leases.entryNames lease.id, w.leases.protects w.disk folder holder n = true

theorem binding (folder : Path) {w : Workspace σ} (hid : Project.checkId lease.id = .ok ())
    (h : lease ∈ w.leases) : Binding folder lease w := by
  have hheld : w.leases.isHeldBy lease.holder lease.id = true :=
    List.any_eq_true.mpr ⟨lease, h, by simp⟩
  have hlocked : w.leases.isLocked lease.file = true := List.any_eq_true.mpr ⟨lease, h, by simp⟩
  have hactive : ∀ holder n, n ∈ Leases.entryNames lease.id →
      w.leases.protects w.disk folder holder n = (w.leases.isHeldBy holder lease.id ||
        w.leases.isLockedOn w.disk folder lease.id) := by
    intro holder n hn
    rw [Leases.protects, Leases.ownerOf_entry hid hn]
    rfl
  have hrefused : ∀ holder, w.leases.isHeldBy holder lease.id = true →
      (Leases.acquire folder holder lease.id w.leases).run w.disk = (.ok none, w.disk) := by
    intro holder hh
    rw [Leases.acquire, if_pos hh]
    rfl
  refine ⟨h, hrefused _ hheld, fun n hn => ?_, fun ht hf holder => ?_, fun hf holder n hn => ?_⟩
  · rw [hactive _ n hn, hheld, Bool.true_or]
  · cases hh : w.leases.isHeldBy holder lease.id with
    | true => exact hrefused holder hh
    | false =>
        rw [Leases.acquire_run hh, openLock_of_lockFile ht hid hf]
        dsimp only
        rw [if_pos hlocked]
  · rw [hactive _ n hn, Leases.isLockedOn_eq, hf, Option.any_some, hlocked, Bool.or_true]

abbrev InterleavedSteps (a : Analyzer σ) (operation : String) (lease : Lease) :
    RunState σ α → RunState σ α → Prop :=
  Relation.ReflTransGen fun f f' => Step a operation lease f f' ∨ Others lease f f'

theorem RunSteps.interleaved {f f' : RunState σ α} (h : RunSteps a operation lease f f') :
    InterleavedSteps a operation lease f f' := Relation.ReflTransGen.mono (fun _ _ => Or.inl) _ _ h

theorem RunState.Held.interleaved {f f' : RunState σ α} (hf : f.Held lease)
    (hm : InterleavedSteps a operation lease f f') : f'.Held lease := by
  induction hm with
  | refl => exact hf
  | tail _ h ih =>
      rcases h with h | h
      · exact ih.step h
      · exact ih.others h

theorem RunState.Held.runSteps {f f' : RunState σ α} (hf : f.Held lease) (ht : f.hold.Tight lease)
    (hm : RunSteps a operation lease f f') : f'.Held lease ∧ f'.hold.Tight lease := by
  induction hm with
  | refl => exact ⟨hf, ht⟩
  | tail _ h ih => exact ⟨ih.1.step h, ih.1.tight ih.2 h⟩

theorem start_lease {id : String} {w w₀ : Workspace σ} (h : (a.start id).run w = (.ok lease, w₀)) :
    Project.checkId lease.id = .ok () ∧ lease.id = id ∧ lease.holder = a.holder ∧
      lease ∈ w₀.leases := by
  rw [Analyzer.start_run] at h
  split at h
  · cases h
  · next hid =>
      split at h
      · cases h
      · cases h
      · next hacquire =>
          cases h
          obtain ⟨i, rfl⟩ := Leases.acquire_lease hacquire
          exact ⟨hid, rfl, rfl, List.mem_cons_self⟩

/-- Until every labor with a share in the lease has returned, and until the run has ended, the lease
binds everybody, whatever others do meanwhile; a look at an archive that is left behind has no share.
Once they all have, the run does not keep the lease. -/
theorem labors_hold_lease (a : Analyzer σ) (e : CallKind) {id : String} {w w₀ : Workspace σ}
    {lease : Lease} (hstart : (a.start id).run w = (.ok lease, w₀)) :
    (∀ {f m}, InterleavedSteps a e.operation lease (launch (e.script a id) w₀) f →
      m ∈ f.script.pool ∨ m ∈ f.strays ∧ m.labor.kind ≠ .look →
      Binding a.settings.projectsDir lease f.hold.site) ∧
    (∀ {f}, InterleavedSteps a e.operation lease (launch (e.script a id) w₀) f → f.ended = false →
      Binding a.settings.projectsDir lease f.hold.site) ∧
    (∀ {f}, RunSteps a e.operation lease (launch (e.script a id) w₀) f → f.ended = true →
      (∀ m ∈ f.strays, m.labor.kind = .look) → lease ∉ f.hold.site.leases) := by
  obtain ⟨hid, _, _, hmem⟩ := start_lease hstart
  have hlaunch : (launch (e.script a id) w₀).Held lease := .launch (e.orderly a id) hmem
  refine ⟨fun hf hm => binding _ hid ((hlaunch.interleaved hf).leased hm), fun hf he => ?_,
    fun {f} hf he hlook => ?_⟩
  · have hheld := hlaunch.interleaved hf
    exact binding _ hid (hheld.sound (hheld.pos he))
  · obtain ⟨hheld, htight⟩ := hlaunch.runSteps (f := launch (e.script a id) w₀)
      (fun h => absurd h Nat.one_ne_zero) hf
    have hpool : f.script.pool = [] := by
      have hover := hheld.decided he
      cases hs : f.script with
      | await x y r ls k =>
          rw [hs] at hover
          exact absurd rfl hover
      | _ => rfl
    -- looks have no share, so the last share was that of the run
    have hnone : carriers f.strays = 0 := by
      refine List.countP_eq_zero.mpr fun m hm => ?_
      rw [Pooled.carries, hlook m hm]
      decide
    refine htight ?_
    rw [hheld.shares, he, RunState.pool, hpool, List.nil_append, hnone]
    rfl

theorem look_pooled (a : Analyzer σ) (id : String) (zip : Path) (lease : Lease) (w : Workspace σ) :
    ∃ (c : Chain Archive.Report) (k : Archive.Report → Unit → Script σ Unit) (w' : Workspace σ),
      RunSteps a "Analysis" lease (launch ((CallKind.analyze (some zip)).script a id) w)
        ⟨.await (.busy ⟨.look, c⟩) (.back (.ok ())) true [a.own, a.whole] k, ⟨w', 1⟩, [], false,
          none⟩ ∧
      w'.disk = w.disk ∧ w'.leases = w.leases :=
  ⟨_, _, _, .tail (.single .go) (.turn (.left .spawn)), rfl, rfl⟩

theorem look_left (a : Analyzer σ) (id : String) (zip : Path) (lease : Lease) (w : Workspace σ) :
    ∃ f m, RunSteps a "Analysis" lease (launch ((CallKind.analyze (some zip)).script a id) w) f ∧
      f.ended = true ∧ f.strays = [m] ∧ m.labor.kind = .look ∧
      f.hold.site.leases = w.leases.release lease.holder lease.id ∧
      f.hold.site.disk = ((Store.recordFailure a.settings "Analysis" lease.id
        Archive.inspectionOverdue).run w.disk).2 := by
  obtain ⟨c, k, w', hf, hdisk, hleases⟩ := look_pooled a id zip lease w
  obtain ⟨ns, hrep⟩ := a.report_self "Analysis" lease.id Archive.inspectionOverdue w'
  refine ⟨_, ⟨⟨.look, c⟩⟩, .tail (.tail hf (.limit (.head _))) .report, rfl, rfl, rfl, ?_, ?_⟩
  · show ((a.report "Analysis" lease.id Archive.inspectionOverdue).run w').2.leases.release _ _ = _
    rw [hrep, hleases]
  · show ((a.report "Analysis" lease.id Archive.inspectionOverdue).run w').2.disk = _
    rw [hrep, hdisk]

theorem ok_of_toOption {ε τ : Type} {x : Except ε α × τ} {v : α} (h : x.1.toOption = some v) :
    x = (.ok v, x.2) := by
  obtain ⟨_ | _, t⟩ := x <;> cases h
  rfl

def clerk : Analyzer Unit := ⟨{}, "h", fun _ d m => (.ok (), d, m), false⟩

def leaseOfM : Lease := ⟨"h", "m", 0⟩

def zipOfM : Path := .ofText "m.zip"

def underLease : Workspace Unit := ((clerk.start "m").run (.ofDisk .blank [] ())).2

theorem start_clerk : (clerk.start "m").run (.ofDisk .blank [] ()) = (.ok leaseOfM, underLease) :=
  ok_of_toOption (by decide +kernel)

theorem labors_hold_lease_looking :
    (clerk.start "m").run (.ofDisk .blank [] ()) = (.ok leaseOfM, underLease) ∧
    ∃ f m, InterleavedSteps clerk "Analysis" leaseOfM
        (launch ((CallKind.analyze (some zipOfM)).script clerk "m") underLease) f ∧
      m ∈ f.script.pool ∧ Binding clerk.settings.projectsDir leaseOfM f.hold.site := by
  obtain ⟨c, k, w, hf, _, _⟩ := look_pooled clerk "m" zipOfM leaseOfM underLease
  have hm : (⟨⟨.look, c⟩⟩ : Pooled) ∈ [(⟨⟨.look, c⟩⟩ : Pooled)] ++ [] := List.mem_cons_self
  exact ⟨start_clerk, _, _, RunSteps.interleaved hf, hm,
    (labors_hold_lease clerk (.analyze (some zipOfM)) start_clerk).1 (RunSteps.interleaved hf) (.inl hm)⟩

theorem lease_without_look : ∃ f m d, RunSteps clerk "Analysis" leaseOfM
      (launch ((CallKind.analyze (some zipOfM)).script clerk "m") underLease) f ∧
    m ∈ f.pool ∧ leaseOfM ∉ f.hold.site.leases ∧
    (Leases.acquire clerk.settings.projectsDir "h" "m" f.hold.site.leases).run f.hold.site.disk =
      (.ok (some leaseOfM), d) := by
  obtain ⟨f, m, hf, hend, hstrays, hlook, hleases, hdisk⟩ :=
    look_left clerk "m" zipOfM leaseOfM underLease
  have hm : m ∈ f.pool := List.mem_append_right _ (by rw [hstrays]; exact List.mem_singleton_self m)
  have hagain : ((Leases.acquire clerk.settings.projectsDir "h" "m"
      (underLease.leases.release leaseOfM.holder leaseOfM.id)).run
      ((Store.recordFailure clerk.settings "Analysis" leaseOfM.id Archive.inspectionOverdue).run
        underLease.disk).2).1.toOption = some (some leaseOfM) := by decide +kernel
  rw [← hdisk, ← hleases] at hagain
  refine ⟨f, m, _, hf, hm, ?_, ok_of_toOption hagain⟩
  rw [hleases]
  exact not_mem_release _

end SourceAtlas.Run
