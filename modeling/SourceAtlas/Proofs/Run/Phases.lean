import SourceAtlas.Proofs.Run.Steps

namespace SourceAtlas.Run

open Disk Work

variable {σ α β γ : Type}

/-- Nothing of the project has been changed yet; the project may have been; its folder is there; the
analysis has been stored. -/
inductive Phase where
  | untouched
  | touched
  | ready
  | saved
  deriving DecidableEq

def Phase.Allows (ph : Phase) (rejects : Bool) : Prop :=
  (rejects = true → ph = .untouched) ∧ ph ≠ .saved

abbrev Regime := Option Place → Phase → Disk → Prop

def Either (post : β → Phase → Prop) (fail : Phase → Prop) : Except Failure β → Phase → Prop
  | .ok b, ph => post b ph
  | .error _, ph => fail ph

def Chain.Leads (I : Regime) (mid : Phase → Prop) (post : Except Failure β → Phase → Prop) :
    Chain β → Phase → Prop
  | .stop r, ph => post r ph
  | .act f k, ph => ∀ log d, I log ph d → ∃ ph', I log ph' (f d) ∧ mid ph' ∧
      (k d).Leads I mid post ph'

def Chain.IsIdle : Chain β → Prop
  | .stop _ => True
  | .act f k => (∀ d, f d = d) ∧ ∀ d, (k d).IsIdle

def Script.Keeps (I : Regime) (post : α → Phase → Prop) : Script σ α → Phase → Prop
  | .done a, ph => post a ph
  | .failed r _, ph => ph.Allows r
  | .go g k, ph => ∀ w, I none ph w.disk → ∃ ph', I none ph' (g w).disk ∧ (k w).Keeps I post ph'
  | .await x y r ls k, ph =>
      (∀ m ∈ ls, ph.Allows m.rejects) ∧
      ((∃ c, y = .back (.ok c)) ∧
          x.rest.Leads I (fun ph => ∀ m ∈ ls, ph.Allows m.rejects)
            (Either (fun b ph => ∀ c, (k b c).Keeps I post ph) fun ph => ph.Allows r) ph ∨
        x.rest.IsIdle ∧ y.rest.IsIdle ∧ ph.Allows r ∧ ∀ b c, (k b c).Keeps I post ph)

section

variable {I : Regime} {ph : Phase}

namespace Chain

variable {mid mid' : Phase → Prop} {post post' : Except Failure β → Phase → Prop}

theorem Leads.mono {c : Chain β} (h : c.Leads I mid post ph) (hmid : ∀ ph, mid ph → mid' ph)
    (hpost : ∀ r ph, post r ph → post' r ph) : c.Leads I mid' post' ph := by
  induction c generalizing ph with
  | stop r => exact hpost r ph h
  | act f k ih =>
      intro log d hd
      obtain ⟨ph', hd', hm, hk⟩ := h log d hd
      exact ⟨ph', hd', hmid ph' hm, ih d hk⟩

theorem Leads.bind {c : Chain β} {g : β → Chain γ} {post : γ → Phase → Prop} {fail : Phase → Prop}
    (h : c.Leads I mid (Either (fun b ph => (g b).Leads I mid (Either post fail) ph) fail) ph) :
    (c >>= g).Leads I mid (Either post fail) ph := by
  induction c generalizing ph with
  | stop r =>
      cases r with
      | ok b => exact h
      | error e => exact h
  | act f k ih =>
      intro log d hd
      obtain ⟨ph', hd', hm, hk⟩ := h log d hd
      exact ⟨ph', hd', hm, ih d hk⟩

theorem IsIdle.leads {c : Chain β} (h : c.IsIdle) (hm : mid ph) (hpost : ∀ r, post r ph) :
    c.Leads I mid post ph := by
  induction c with
  | stop r => exact hpost r
  | act f k ih =>
      intro log d hd
      exact ⟨ph, by rwa [h.1 d], hm, ih d (h.2 d)⟩

theorem Leads.task {t : Task β} {ph' : Phase} {fail : Phase → Prop} (hm : mid ph) (hm' : mid ph')
    (hf : fail ph) (h : ∀ {log d}, I log ph d →
      (∃ b d', t.run d = (.ok b, d') ∧ I log ph' d') ∨ ∃ f, t.run d = (.error f, d)) :
    (ofTask t).Leads I mid (Either (fun _ x => x = ph') fail) ph := by
  intro log d hd
  dsimp only
  rcases h hd with ⟨b, d', hrun, hd'⟩ | ⟨f, hrun⟩
  · rw [hrun]
    exact ⟨ph', hd', hm', rfl⟩
  · rw [hrun]
    exact ⟨ph, hd, hm, hf⟩

theorem Leads.steady {t : Task β} {fail : Phase → Prop} (hm : mid ph) (hf : fail ph)
    (h : ∀ {log d}, I log ph d → I log ph (t.run d).2) :
    (ofTask t).Leads I mid (Either (fun _ x => x = ph) fail) ph := by
  intro log d hd
  refine ⟨ph, h hd, hm, ?_⟩
  dsimp only
  cases (t.run d).1 with
  | ok b => exact rfl
  | error e => exact hf

theorem Leads.andThen {c : Chain β} {k : β → Chain γ} {ph' : Phase} {post : γ → Phase → Prop}
    {fail : Phase → Prop} (h : c.Leads I mid (Either (fun _ x => x = ph') fail) ph)
    (hk : ∀ b, (k b).Leads I mid (Either post fail) ph') :
    (c >>= k).Leads I mid (Either post fail) ph := by
  refine .bind (h.mono (fun _ h => h) fun r x hr => ?_)
  cases r with
  | ok b =>
      obtain rfl : x = ph' := hr
      exact hk b
  | error e => exact hr

theorem Leads.foldlM {δ : Type} {f : β → δ → Chain β} {fail : Phase → Prop}
    (h : ∀ b x, (f b x).Leads I mid (Either (fun _ x => x = ph) fail) ph) (xs : List δ) (b : β) :
    (xs.foldlM f b).Leads I mid (Either (fun _ x => x = ph) fail) ph := by
  induction xs generalizing b with
  | nil => exact rfl
  | cons x xs ih =>
      rw [List.foldlM_cons]
      exact (h b x).andThen ih

theorem isIdle_ofQuery (f : Disk → Except Failure β) : (ofQuery f).IsIdle :=
  ⟨fun _ => rfl, fun _ => trivial⟩

end Chain

namespace Script.Keeps

variable {post post' : α → Phase → Prop}

theorem await {x : Slot β} {y : Slot γ} {r : Bool} {ls : List Limit} {k : β → γ → Script σ α} :
    (Script.await x y r ls k).Keeps I post ph ↔ (∀ m ∈ ls, ph.Allows m.rejects) ∧
      ((∃ c, y = .back (.ok c)) ∧
          x.rest.Leads I (fun ph => ∀ m ∈ ls, ph.Allows m.rejects)
            (Either (fun b ph => ∀ c, (k b c).Keeps I post ph) fun ph => ph.Allows r) ph ∨
        x.rest.IsIdle ∧ y.rest.IsIdle ∧ ph.Allows r ∧ ∀ b c, (k b c).Keeps I post ph) := Iff.rfl

theorem andThen {s : Script σ α} {g : α → Script σ β} {post' : β → Phase → Prop}
    (h : s.Keeps I post ph) (hg : ∀ a ph, post a ph → (g a).Keeps I post' ph) :
    (s >>= g).Keeps I post' ph := by
  induction s generalizing ph with
  | done a => exact hg a ph h
  | failed _ _ => exact h
  | go f k ih =>
      intro w hw
      obtain ⟨ph', hw', hk⟩ := h w hw
      exact ⟨ph', hw', ih w hk⟩
  | await x y r ls k ih =>
      obtain ⟨hm, h⟩ := await.mp h
      refine await.mpr ⟨hm, ?_⟩
      rcases h with ⟨hy, hx⟩ | ⟨hx, hy, hr, hk⟩
      · refine .inl ⟨hy, hx.mono (fun _ h => h) fun r ph h => ?_⟩
        cases r with
        | ok b => exact fun c => ih b c (h c)
        | error e => exact h
      · exact .inr ⟨hx, hy, hr, fun b c => ih b c (hk b c)⟩

theorem bind {s : Script σ α} {g : α → Script σ β} {post : β → Phase → Prop}
    (h : s.Keeps I (fun a ph => (g a).Keeps I post ph) ph) : (s >>= g).Keeps I post ph :=
  h.andThen fun _ _ h => h

theorem mono {s : Script σ α} (h : s.Keeps I post ph) (hpost : ∀ a ph, post a ph → post' a ph) :
    s.Keeps I post' ph := by
  have := h.andThen (g := pure) hpost
  rwa [Script.bind_done] at this

theorem discard {s : Script σ α} {post : PUnit → Phase → Prop}
    (h : s.Keeps I (fun _ ph => post ⟨⟩ ph) ph) : (discard s : Script σ PUnit).Keeps I post ph :=
  bind h

theorem get {post : Workspace σ → Phase → Prop} (h : ∀ w, post w ph) :
    (get : Script σ (Workspace σ)).Keeps I post ph := fun w hw => ⟨ph, hw, h w⟩

theorem lift {j : Job σ α} (h : ∀ w, ∃ a w', j.run w = (.ok a, w') ∧ w'.disk = w.disk ∧ post a ph) :
    (lift j).Keeps I post ph := by
  intro w hw
  obtain ⟨a, w', hj, hd, hp⟩ := h w
  refine ⟨ph, ?_, ?_⟩ <;> dsimp only <;> rw [hj]
  · rwa [hd]
  · exact hp

theorem notice {id text : String} {post : Unit → Phase → Prop} (h : post () ph) :
    (Script.lift (Job.notice id text) : Script σ Unit).Keeps I post ph :=
  lift fun _ => ⟨(), _, rfl, rfl, h⟩

theorem awaitOne {kind : Kind} {c : Chain α} {r : Bool} {ls : List Limit}
    (hm : ∀ m ∈ ls, ph.Allows m.rejects)
    (h : c.Leads I (fun ph => ∀ m ∈ ls, ph.Allows m.rejects)
      (Either post fun ph => ph.Allows r) ph) : (awaitOne kind c r ls : Script σ α).Keeps I post ph := by
  refine await.mpr ⟨hm, .inl ⟨⟨(), rfl⟩, h.mono (fun _ h => h) fun r ph h => ?_⟩⟩
  cases r with
  | ok b => exact fun _ => h
  | error e => exact h

theorem awaitAll {kind : Kind} {c : Chain α} {r : Bool}
    (h : c.Leads I (fun _ => True) (Either post fun ph => ph.Allows r) ph) :
    (Script.awaitOne kind c r [] : Script σ α).Keeps I post ph :=
  awaitOne (fun _ hm => absurd hm List.not_mem_nil)
    (h.mono (fun _ _ _ hm => absurd hm List.not_mem_nil) fun _ _ h => h)

theorem awaitIdle {kind : Kind} {c : Chain α} {r : Bool} {ls : List Limit} (hc : c.IsIdle)
    (hm : ∀ m ∈ ls, ph.Allows m.rejects) (hr : ph.Allows r) (h : ∀ a, post a ph) :
    (Script.awaitOne kind c r ls : Script σ α).Keeps I post ph := by
  refine awaitOne hm (hc.leads hm fun r => ?_)
  cases r with
  | ok a => exact h a
  | error e => exact hr

end Script.Keeps

/-- The labors that are left behind do nothing, or there is one of which each act keeps to the phases
in which the run may have failed. -/
def IsTeam (I : Regime) (r : Bool) (ph : Phase) (ms : List Pooled) : Prop :=
  (∀ m ∈ ms, m.labor.rest.IsIdle) ∨
    ∃ m, ms = [m] ∧ m.labor.rest.Leads I (·.Allows r) (fun _ _ => True) ph

def RunState.KeepsAs (I : Regime) (mark : Option Place) (f : RunState σ α) : Prop :=
  (f.ended = false → mark = none) ∧ ∃ ph, I mark ph f.hold.site.disk ∧
    ((f.ended = false ∧ f.strays = [] ∧ f.script.Keeps I (fun _ _ => True) ph) ∨
      (∃ v, f.script = .done v ∧ f.strays = []) ∨
      ∃ r e, f.script = .failed r e ∧ ph.Allows r ∧ IsTeam I r ph f.strays)

def RunState.Keeps (I : Regime) (f : RunState σ α) : Prop := f.KeepsAs I f.logged

def RunState.failure? (f : RunState σ α) : Option Failure :=
  match f.ended, f.script.outcome with
  | true, some (.error e) => some e
  | _, _ => none

theorem RunState.outcome_of_failure {f : RunState σ α} {e : Failure} (h : f.failure? = some e) :
    f.ended = true ∧ f.script.outcome = some (.error e) := by
  unfold failure? at h
  split at h
  · next he hx =>
      cases h
      exact ⟨he, hx⟩
  · cases h

structure RunState.Reports (I : Regime) (a : Analyzer σ) (operation : String) (lease : Lease)
    (f f' : RunState σ α) (e : Failure) (ph : Phase) : Prop where
  failed : f.script.outcome = some (.error e)
  before : f.failure? = none
  after : f'.failure? = some e
  disk : I none ph f.hold.site.disk
  logged : f'.logged = Store.logPlace a.settings f.hold.site.disk
  written : f'.hold.site.disk =
    ((Store.recordFailure a.settings operation lease.id e).run f.hold.site.disk).2
  keeps : ∀ {mark}, I mark ph f'.hold.site.disk → f'.KeepsAs I mark

def LogsFailure (I : Regime) (a : Analyzer σ) (operation id : String) (f : Failure) : Prop :=
  ∀ {ph d}, I none ph d → I (Store.logPlace a.settings d) ph
    ((Store.recordFailure a.settings operation id f).run d).2

def Logs (I : Regime) (a : Analyzer σ) : Prop :=
  ∀ {ph d} operation id f, I none ph d → I (Store.logPlace a.settings d) ph
    ((Store.recordFailure a.settings operation id f).run d).2

theorem RunState.KeepsAs.launch {s : Script σ α} {w : Workspace σ} (hw : I none .untouched w.disk)
    (hs : s.Keeps I (fun _ _ => True) .untouched) : (launch s w).KeepsAs I none :=
  ⟨fun _ => rfl, .untouched, hw, .inl ⟨rfl, rfl, hs⟩⟩

namespace Turn

variable {lease : Lease} {h h' : Hold σ} {x x' : Slot β} {mid : Phase → Prop}
  {post : Except Failure β → Phase → Prop}

theorem leads (ht : Turn lease h x h' x') {log : Option Place} (hd : I log ph h.site.disk)
    (hm : mid ph) (hx : x.rest.Leads I mid post ph) :
    ∃ ph', I log ph' h'.site.disk ∧ mid ph' ∧ x'.rest.Leads I mid post ph' := by
  cases ht with
  | spawn => exact ⟨ph, by rwa [Hold.share_disk], hm, hx⟩
  | work => exact hx log _ hd
  | answer => exact ⟨ph, by rwa [Hold.drop_disk], hm, hx⟩

theorem idle (ht : Turn lease h x h' x') (hx : x.rest.IsIdle) :
    h'.site.disk = h.site.disk ∧ x'.rest.IsIdle := by
  cases ht with
  | spawn => exact ⟨Hold.share_disk _ _, hx⟩
  | work => exact ⟨hx.1 _, hx.2 _⟩
  | answer => exact ⟨Hold.drop_disk _ _, trivial⟩

end Turn

namespace PairTurn

variable {lease : Lease} {h h' : Hold σ} {x x' : Slot β} {y y' : Slot γ}

theorem idle (ht : PairTurn lease h x y h' x' y') (hx : x.rest.IsIdle) (hy : y.rest.IsIdle) :
    h'.site.disk = h.site.disk ∧ x'.rest.IsIdle ∧ y'.rest.IsIdle := by
  cases ht with
  | left ht => exact ⟨(ht.idle hx).1, (ht.idle hx).2, hy⟩
  | right ht => exact ⟨(ht.idle hy).1, hx, (ht.idle hy).2⟩

theorem of_back {z : Except Failure γ} (ht : PairTurn lease h x (.back z) h' x' y') :
    Turn lease h x h' x' ∧ y' = .back z := by
  cases ht with
  | left ht => exact ⟨ht, rfl⟩
  | right ht => cases ht

end PairTurn

theorem idle_pool {x : Slot β} (hx : x.rest.IsIdle) : ∀ m ∈ x.pool, m.labor.rest.IsIdle := by
  intro m hm
  obtain ⟨l, rfl, rfl⟩ := Slot.mem_pool hm
  exact hx

theorem team_pool {x : Slot β} {r : Bool} {post : Except Failure β → Phase → Prop}
    (hx : x.rest.Leads I (·.Allows r) post ph) : IsTeam I r ph x.pool := by
  cases x with
  | busy l => exact .inr ⟨⟨l⟩, rfl, hx.mono (fun _ h => h) fun _ _ _ => trivial⟩
  | ready _ => exact .inl nofun
  | back _ => exact .inl nofun

theorem IsTeam.turn {lease : Lease} {h h' : Hold σ} {m : Labor β} {x : Slot β} {r : Bool}
    {pre post : List Pooled} {log : Option Place} (hteam : IsTeam I r ph (pre ++ ⟨m⟩ :: post))
    (ht : Turn lease h (.busy m) h' x) (hd : I log ph h.site.disk) (hr : ph.Allows r) :
    ∃ ph', I log ph' h'.site.disk ∧ ph'.Allows r ∧ IsTeam I r ph' (pre ++ (x.pool ++ post)) := by
  rcases hteam with hidle | ⟨n, hn, hlead⟩
  · obtain ⟨hdisk, hx⟩ := ht.idle (hidle ⟨m⟩ (by simp))
    refine ⟨ph, hdisk ▸ hd, hr, .inl fun n hn => ?_⟩
    simp only [List.mem_append] at hn
    rcases hn with hn | hn | hn
    · exact hidle n (by simp [hn])
    · exact idle_pool hx n hn
    · exact hidle n (by simp [hn])
  · obtain ⟨rfl, rfl, rfl⟩ : pre = [] ∧ ⟨m⟩ = n ∧ post = [] := by
      cases pre with
      | nil =>
          cases hn
          exact ⟨rfl, rfl, rfl⟩
      | cons p pre => cases pre <;> cases hn
    obtain ⟨ph', hd', hr', hx⟩ := ht.leads (x := .busy m) hd hr hlead
    refine ⟨ph', hd', hr', ?_⟩
    rw [List.nil_append, List.append_nil]
    exact team_pool hx

def RunState.Silent (f f' : RunState σ α) : Prop := f'.logged = f.logged ∧ f'.failure? = f.failure?

theorem RunState.Silent.of_open {f f' : RunState σ α} (he : f.ended = false) (he' : f'.ended = false)
    (hl : f'.logged = f.logged) : f.Silent f' := by
  refine ⟨hl, ?_⟩
  unfold failure?
  rw [he, he']

namespace RunState.KeepsAs

section

variable {s : Script σ α} {h h' : Hold σ} {st : List Pooled} {e : Bool} {l mark : Option Place}
  {lease : Lease}

theorem running (hf : (⟨s, h, st, e, l⟩ : RunState σ α).KeepsAs I mark)
    (hs : s.outcome = none) : e = false ∧ mark = none ∧ st = [] ∧
      ∃ ph, I none ph h.site.disk ∧ s.Keeps I (fun _ _ => True) ph := by
  obtain ⟨hmark, ph, hd, ⟨he, hst, hk⟩ | ⟨v, hv, _⟩ | ⟨r, f, hv, _⟩⟩ := hf
  · dsimp only at he hmark
    obtain rfl := hmark he
    exact ⟨he, rfl, hst, ph, hd, hk⟩
  · dsimp only at hv
    rw [hv] at hs
    cases hs
  · dsimp only at hv
    rw [hv] at hs
    cases hs

theorem going (hd : I none ph h.site.disk) (hk : s.Keeps I (fun _ _ => True) ph) :
    (⟨s, h, [], false, l⟩ : RunState σ α).KeepsAs I none := ⟨fun _ => rfl, ph, hd, .inl ⟨rfl, rfl, hk⟩⟩

theorem failing {r : Bool} (hd : I none ph h.site.disk) (hr : ph.Allows r)
    (ht : IsTeam I r ph st) (f : Failure) :
    (⟨.failed r f, h, st, false, l⟩ : RunState σ α).KeepsAs I none :=
  ⟨fun _ => rfl, ph, hd, .inr (.inr ⟨r, f, rfl, hr, ht⟩)⟩

theorem go {g : Workspace σ → Workspace σ} {k : Workspace σ → Script σ α}
    (hf : (⟨.go g k, h, st, e, l⟩ : RunState σ α).KeepsAs I mark) :
    (⟨k h.site, { h with site := g h.site }, st, e, l⟩ : RunState σ α).KeepsAs I mark := by
  obtain ⟨rfl, rfl, rfl, ph, hd, hk⟩ := hf.running rfl
  obtain ⟨ph', hd', hk'⟩ := hk _ hd
  exact .going hd' hk'

variable {x x' : Slot β} {y y' : Slot γ} {r : Bool} {ls : List Limit} {k : β → γ → Script σ α}

theorem turn (hf : (⟨.await x y r ls k, h, st, e, l⟩ : RunState σ α).KeepsAs I mark)
    (ht : PairTurn lease h x y h' x' y') :
    (⟨.await x' y' r ls k, h', st, e, l⟩ : RunState σ α).KeepsAs I mark := by
  obtain ⟨rfl, rfl, rfl, ph, hd, hk⟩ := hf.running rfl
  obtain ⟨hm, ⟨⟨c, rfl⟩, hx⟩ | ⟨hx, hy, hr, hk⟩⟩ := Script.Keeps.await.mp hk
  · obtain ⟨hturn, rfl⟩ := ht.of_back
    obtain ⟨ph', hd', hm', hx'⟩ := hturn.leads hd hm hx
    exact .going hd' (Script.Keeps.await.mpr ⟨hm', .inl ⟨⟨c, rfl⟩, hx'⟩⟩)
  · obtain ⟨hdisk, hx', hy'⟩ := ht.idle hx hy
    exact .going (hdisk ▸ hd) (Script.Keeps.await.mpr ⟨hm, .inr ⟨hx', hy', hr, hk⟩⟩)

theorem proceed {b : β} {c : γ} (hf : (⟨.await (.back (.ok b)) (.back (.ok c)) r ls k, h, st, e, l⟩ :
    RunState σ α).KeepsAs I mark) : (⟨k b c, h, st, e, l⟩ : RunState σ α).KeepsAs I mark := by
  obtain ⟨rfl, rfl, rfl, ph, hd, hk⟩ := hf.running rfl
  obtain ⟨_, ⟨_, hx⟩ | ⟨_, _, _, hk⟩⟩ := Script.Keeps.await.mp hk
  · exact .going hd (hx c)
  · exact .going hd (hk b c)

theorem fail {f : Failure} {ms : List Pooled}
    (hf : (⟨.await x y r ls k, h, st, e, l⟩ : RunState σ α).KeepsAs I mark)
    (hp : PairFailed f x y ms) : (⟨.failed r f, h, ms ++ st, e, l⟩ : RunState σ α).KeepsAs I mark := by
  obtain ⟨rfl, rfl, rfl, ph, hd, hk⟩ := hf.running rfl
  rw [List.append_nil]
  obtain ⟨_, ⟨⟨c, rfl⟩, hx⟩ | ⟨hx, hy, hr, _⟩⟩ := Script.Keeps.await.mp hk
  · -- only the labor that leads on can have failed
    cases hp with
    | left => exact .failing hd hx (.inl (idle_pool (x := .back (.ok c)) trivial)) f
  · refine .failing hd hr (.inl ?_) f
    cases hp with
    | left => exact idle_pool hy
    | right => exact idle_pool hx

theorem limit {m : Limit} (hm : m ∈ ls)
    (hf : (⟨.await x y r ls k, h, st, e, l⟩ : RunState σ α).KeepsAs I mark) :
    (⟨.failed m.rejects m.failure, h, x.pool ++ (y.pool ++ st), e, l⟩ : RunState σ α).KeepsAs I mark := by
  obtain ⟨rfl, rfl, rfl, ph, hd, hk⟩ := hf.running rfl
  rw [List.append_nil]
  obtain ⟨hall, ⟨⟨c, rfl⟩, hx⟩ | ⟨hx, hy, _, _⟩⟩ := Script.Keeps.await.mp hk
  · refine .failing hd (hall m hm) ?_ m.failure
    show IsTeam I _ ph (x.pool ++ [])
    rw [List.append_nil]
    exact team_pool (hx.mono (fun _ h => h m hm) fun _ _ h => h)
  · refine .failing hd (hall m hm) (.inl fun n hn => ?_) m.failure
    exact (List.mem_append.mp hn).elim (idle_pool hx n) (idle_pool hy n)

theorem stray {m : Labor β} {pre post : List Pooled}
    (hf : (⟨s, h, pre ++ ⟨m⟩ :: post, e, l⟩ : RunState σ α).KeepsAs I mark)
    (ht : Turn lease h (.busy m) h' x) :
    (⟨s, h', pre ++ (x.pool ++ post), e, l⟩ : RunState σ α).KeepsAs I mark := by
  obtain ⟨hmark, ph, hd, ⟨_, hst, _⟩ | ⟨_, _, hst⟩ | ⟨r, f, hv, hr, hteam⟩⟩ := hf
  · cases pre <;> cases hst
  · cases pre <;> cases hst
  · obtain ⟨ph', hd', hr', hteam'⟩ := hteam.turn ht hd hr
    exact ⟨hmark, ph', hd', .inr (.inr ⟨r, f, hv, hr', hteam'⟩)⟩

theorem finish {v : α} (hf : (⟨.done v, h, st, false, none⟩ : RunState σ α).KeepsAs I mark) :
    (⟨.done v, h.drop lease true, st, true, none⟩ : RunState σ α).KeepsAs I mark := by
  obtain ⟨_, ph, hd, hmode⟩ := hf
  refine ⟨nofun, ph, ?_, ?_⟩
  · show I mark ph (h.drop lease true).site.disk
    rwa [Hold.drop_disk]
  · obtain ⟨_, hst, _⟩ | ⟨_, _, hst⟩ | ⟨r, f, hv, _⟩ := hmode
    · exact .inr (.inl ⟨v, rfl, hst⟩)
    · exact .inr (.inl ⟨v, rfl, hst⟩)
    · cases hv

theorem report {a : Analyzer σ} {operation : String} {f : Failure}
    (hf : (⟨.failed r f, h, st, false, none⟩ : RunState σ α).KeepsAs I mark) :
    ∃ ph, (⟨.failed r f, h, st, false, none⟩ : RunState σ α).Reports I a operation lease
      ⟨.failed r f, { h with site := ((a.report operation lease.id f).run h.site).2 }.drop lease true,
        st, true, Store.logPlace a.settings h.site.disk⟩ f ph := by
  obtain ⟨hmark, ph, hd, hmode⟩ := hf
  obtain rfl := hmark rfl
  obtain ⟨ns, hrep⟩ := a.report_self operation lease.id f h.site
  have hended : ph.Allows r ∧ IsTeam I r ph st := by
    obtain ⟨_, hst, hk⟩ | ⟨_, hv, _⟩ | ⟨r', f', hv, hr, hteam⟩ := hmode
    · dsimp only at hst
      subst hst
      exact ⟨hk, .inl nofun⟩
    · cases hv
    · cases hv
      exact ⟨hr, hteam⟩
  refine ⟨ph, rfl, rfl, rfl, hd, rfl, ?_, fun hd => ?_⟩
  · rw [Hold.drop_disk, hrep]
  · exact ⟨nofun, ph, hd, .inr (.inr ⟨r, f, rfl, hended⟩)⟩

end

theorem step {a : Analyzer σ} {operation : String} {lease : Lease} {f f' : RunState σ α}
    {mark : Option Place} (hf : f.KeepsAs I mark) (hs : Step a operation lease f f') :
    f.Silent f' ∧ f'.KeepsAs I mark ∨ ∃ e ph, f.Reports I a operation lease f' e ph := by
  have hopen : f.script.outcome = none → f'.ended = f.ended → f'.logged = f.logged → f.Silent f' :=
    fun hs he hl => .of_open (hf.running hs).1 (he.trans (hf.running hs).1) hl
  cases hs with
  | go => exact .inl ⟨hopen rfl rfl rfl, hf.go⟩
  | turn ht => exact .inl ⟨hopen rfl rfl rfl, hf.turn ht⟩
  | proceed => exact .inl ⟨hopen rfl rfl rfl, hf.proceed⟩
  | fail hp => exact .inl ⟨hopen rfl rfl rfl, hf.fail hp⟩
  | limit hm => exact .inl ⟨hopen rfl rfl rfl, hf.limit hm⟩
  | stray ht => exact .inl ⟨⟨rfl, rfl⟩, hf.stray ht⟩
  | finish => exact .inl ⟨⟨rfl, rfl⟩, hf.finish⟩
  | report =>
      obtain ⟨ph, hr⟩ := hf.report
      exact .inr ⟨_, ph, hr⟩

end RunState.KeepsAs

theorem Step.outcome {a : Analyzer σ} {operation : String} {lease : Lease} {f f' : RunState σ α}
    (hs : Step a operation lease f f') {x : Except Failure α} (hx : f.script.outcome = some x) :
    f'.script.outcome = some x := by
  cases hs with
  | stray _ => exact hx
  | finish => exact hx
  | report => exact hx
  | _ => cases hx

/-- `mark` changes only where a failure is written down, and then as `I` has it. Of the failures that
is only the one with which the run ends. -/
theorem RunState.KeepsAs.runSteps {a : Analyzer σ} {operation : String} {lease : Lease}
    {f f' : RunState σ α} (mark : RunState σ α → Option Place) (hf : f.KeepsAs I (mark f))
    (h : RunSteps a operation lease f f')
    (hsilent : ∀ {g g' : RunState σ α}, g.Silent g' → mark g' = mark g)
    (hreport : ∀ {g g' : RunState σ α} {e ph}, g.Reports I a operation lease g' e ph →
      f'.script.outcome = some (.error e) → I (mark g') ph g'.hold.site.disk) :
    f'.KeepsAs I (mark f') := by
  induction h with
  | refl => exact hf
  | tail _ hs ih =>
      rcases (ih fun hr he => hreport hr (hs.outcome he)).step hs with ⟨hsame, hf'⟩ | ⟨e, ph, hr⟩
      · rwa [hsilent hsame]
      · exact hr.keeps (hreport hr (hs.outcome hr.failed))

theorem RunState.Keeps.runSteps {a : Analyzer σ} {operation : String} {lease : Lease}
    {f f' : RunState σ α} (hf : f.Keeps I) (h : RunSteps a operation lease f f')
    (hlog : ∀ e, f'.script.outcome = some (.error e) → LogsFailure I a operation lease.id e) :
    f'.Keeps I := by
  refine KeepsAs.runSteps RunState.logged hf h (fun hs => hs.1) fun hr he => ?_
  rw [hr.logged, hr.written]
  exact hlog _ he hr.disk

theorem RunState.KeepsAs.runSteps_failing {a : Analyzer σ} {operation : String} {lease : Lease}
    {f f' : RunState σ α} {q : Place} (hf : f.KeepsAs I none) (hnone : f.failure? = none)
    (h : RunSteps a operation lease f f')
    (hlog : ∀ {e ph d}, f'.script.outcome = some (.error e) → I none ph d →
      I (some q) ph ((Store.recordFailure a.settings operation lease.id e).run d).2) :
    f'.KeepsAs I (f'.failure?.map fun _ => q) := by
  refine KeepsAs.runSteps (fun f => f.failure?.map fun _ => q) (by rwa [hnone]) h
    (fun hs => by rw [hs.2]) fun hr he => ?_
  rw [hr.after, hr.written]
  exact hlog he hr.disk

end

end SourceAtlas.Run
