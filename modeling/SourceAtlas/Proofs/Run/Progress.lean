import SourceAtlas.Proofs.Run.Stages

namespace SourceAtlas.Run

open Disk Work

variable {σ α β γ : Type} {a : Analyzer σ} {operation : String} {lease : Lease}

/-- Steps of a run, between which others may do anything but take away the lease or enter stages of
the project. -/
abbrev QuietlyInterleavedSteps (a : Analyzer σ) (operation : String) (lease : Lease) :
    RunState σ α → RunState σ α → Prop :=
  Relation.ReflTransGen fun f f' => Step a operation lease f f' ∨ Others lease f f' ∧
    entered lease.id f'.hold.site.notices = entered lease.id f.hold.site.notices

theorem RunSteps.quietlyInterleaved {f f' : RunState σ α} (h : RunSteps a operation lease f f') :
    QuietlyInterleavedSteps a operation lease f f' :=
  Relation.ReflTransGen.mono (fun _ _ => Or.inl) _ _ h

theorem Turn.notices {h h' : Hold σ} {x x' : Slot β} (ht : Turn lease h x h' x') :
    h'.site.notices = h.site.notices := by
  cases ht with
  | @spawn l => cases hc : l.kind.carriesLease <;> rfl
  | work => rfl
  | answer => exact Hold.drop_notices _ _

def RunState.told (f : RunState σ α) : List Stage :=
  match f.ended, f.script.outcome with
  | true, some (.error e) => [.failed e.message]
  | _, _ => []

theorem RunState.mem_told {f : RunState σ α} {s : Stage} (hs : s ∈ f.told) : ∃ x, f.ended = true ∧
    f.script.outcome = some (.error x) ∧ f.told = [.failed x.message] ∧ s = .failed x.message := by
  unfold told at hs ⊢
  split at hs
  · next x he hx => exact ⟨x, he, hx, rfl, List.mem_singleton.mp hs⟩
  · cases hs

theorem RunState.told_of_running {f : RunState σ α} (h : f.ended = false) : f.told = [] := by
  rw [told, h]

theorem RunState.pairwise_told (f : RunState σ α) : f.told.Pairwise (·.rank ≤ ·.rank) := by
  unfold told
  split
  · exact List.pairwise_singleton ..
  · exact .nil

def Stored (a : Analyzer σ) (operation : String) (lease : Lease) (base : List Stage)
    (f₀ f : RunState σ α) (r : Analysis) : Prop :=
  ∃ f₁ f₂ tr, QuietlyInterleavedSteps a operation lease f₀ f₁ ∧ Step a operation lease f₁ f₂ ∧
    QuietlyInterleavedSteps a operation lease f₂ f ∧
    Store.Replaces a.settings r f₁.hold.site.disk f₂.hold.site.disk ∧
    entered lease.id f₂.hold.site.notices = base ++ tr ∧ .persisted ∉ tr

def Milestone.result? : Milestone → Option Analysis
  | .under _ => none
  | .saved r | .persisted r => some r

theorem Milestone.Enters.result {q q' : Milestone} {ss : List Stage} (h : q.Enters ss q') :
    q'.result? = q.result? := by
  cases h <;> rfl

structure RunState.Reached (a : Analyzer σ) (operation : String) (lease : Lease)
    (stores : Bool) (post : α → Milestone → Prop) (base : List Stage)
    (f f₀ : RunState σ α) (q : Milestone) (tr : List Stage) : Prop where
  told : entered lease.id f.hold.site.notices = base ++ tr ++ f.told
  ends : q.Ends tr
  script : f.script.Climbs a.settings lease.id stores post q
  decided : f.ended = true → f.script.outcome ≠ none
  stored : ∀ r, q.result? = some r →
    (stores = true ∧ r.projectId = lease.id) ∧ Stored a operation lease base f₀ f r

section

variable {stores : Bool} {post : α → Milestone → Prop} {base tr : List Stage}
  {f₀ f f' : RunState σ α} {q : Milestone}

theorem Stored.tail {r : Analysis} (h : Stored a operation lease base f₀ f r)
    (hs : QuietlyInterleavedSteps a operation lease f f') : Stored a operation lease base f₀ f' r := by
  obtain ⟨f₁, f₂, tr, h₁, hstep, h₂, hsave⟩ := h
  exact ⟨f₁, f₂, tr, h₁, hstep, h₂.trans hs, hsave⟩

namespace Chain.MayAnswer

theorem turn {h h' : Hold σ} {x x' : Slot β} {b : β} (ht : Turn lease h x h' x')
    (hb : x'.rest.MayAnswer b) : x.rest.MayAnswer b := by
  cases ht with
  | spawn => exact hb
  | work => exact nofun
  | answer => exact hb

end Chain.MayAnswer

namespace RunState.Reached

theorem running (hf : f.Reached a operation lease stores post base f₀ q tr)
    (hs : f.script.outcome = none) : f.ended = false := by
  cases he : f.ended with
  | false => rfl
  | true => exact absurd hs (hf.decided he)

theorem now (hf : f.Reached a operation lease stores post base f₀ q tr)
    (hs : f.script.outcome = none) : entered lease.id f.hold.site.notices = base ++ tr := by
  rw [hf.told, RunState.told_of_running (hf.running hs), List.append_nil]

theorem stay (hf : f.Reached a operation lease stores post base f₀ q tr)
    (hs : QuietlyInterleavedSteps a operation lease f f')
    (hn : entered lease.id f'.hold.site.notices = entered lease.id f.hold.site.notices)
    (htold : f'.told = f.told) (hscript : f'.script.Climbs a.settings lease.id stores post q)
    (hdecided : f'.ended = true → f'.script.outcome ≠ none) :
    f'.Reached a operation lease stores post base f₀ q tr where
  told := by rw [hn, htold, hf.told]
  ends := hf.ends
  script := hscript
  decided := hdecided
  stored r hr := ⟨(hf.stored r hr).1, (hf.stored r hr).2.tail hs⟩

theorem stay_running (hf : f.Reached a operation lease stores post base f₀ q tr)
    (hs : Step a operation lease f f') (hnone : f.script.outcome = none)
    (he : f'.ended = f.ended) (hn : f'.hold.site.notices = f.hold.site.notices)
    (hscript : f'.script.Climbs a.settings lease.id stores post q) :
    f'.Reached a operation lease stores post base f₀ q tr := by
  have hend := hf.running hnone
  rw [hend] at he
  refine hf.stay (.single (.inl hs)) (congrArg _ hn) ?_ hscript fun h => ?_
  · rw [RunState.told_of_running he, RunState.told_of_running hend]
  · rw [he] at h
    cases h

section

variable {h h' : Hold σ} {st : List Pooled} {e : Bool} {l : Option Place}

theorem go {g : Workspace σ → Workspace σ} {k : Workspace σ → Script σ α}
    (hf : (⟨.go g k, h, st, e, l⟩ : RunState σ α).Reached a operation lease stores post base f₀ q tr) :
    ∃ q tr, (⟨k h.site, { h with site := g h.site }, st, e, l⟩ : RunState σ α).Reached
      a operation lease stores post base f₀ q tr := by
  have hnow := hf.now rfl
  obtain rfl : e = false := hf.running rfl
  obtain ⟨ss, q', hss, hq, hk⟩ := hf.script h.site
  refine ⟨q', tr ++ ss, ?_, hq.ends hf.ends, hk, nofun, fun r hr => ?_⟩
  · show entered lease.id (g h.site).notices = base ++ (tr ++ ss) ++ []
    rw [hss, hnow, List.append_nil, List.append_assoc]
  · rw [hq.result] at hr
    exact ⟨(hf.stored r hr).1, (hf.stored r hr).2.tail (.single (.inl .go))⟩

variable {x x' : Slot β} {y y' : Slot γ} {r : Bool} {ls : List Limit} {k : β → γ → Script σ α}

theorem save {kind : Kind} {act : Disk → Disk} {rest : Disk → Chain β} {n : Nat} {res : Analysis}
    (hid : Project.checkId lease.id = .ok ())
    (hpast : QuietlyInterleavedSteps a operation lease f₀
      ⟨.await (.busy ⟨kind, .act act rest⟩) y r ls k, h, st, e, l⟩)
    (hf : (⟨.await (.busy ⟨kind, .act act rest⟩) y r ls k, h, st, e, l⟩ : RunState σ α).Reached
      a operation lease stores post base f₀ (.under n) tr)
    (hres : stores = true ∧ res.projectId = lease.id)
    (hstores : (Chain.act act rest).Stores a.settings res
      fun b => ∀ c, (k b c).Climbs a.settings lease.id stores post (.saved res)) :
    ∃ q tr, (⟨.await (.busy ⟨kind, rest h.site.disk⟩) y r ls k, h.onDisk act, st, e, l⟩ :
      RunState σ α).Reached a operation lease stores post base f₀ q tr := by
  have hstep : Step a operation lease ⟨.await (.busy ⟨kind, .act act rest⟩) y r ls k, h, st, e, l⟩
      ⟨.await (.busy ⟨kind, rest h.site.disk⟩) y r ls k, h.onDisk act, st, e, l⟩ := .turn (.left .work)
  rcases hstores h.site.disk with ⟨p, hsave, b, hb, hk⟩ | ⟨err, herr⟩
  · have hnow := hf.now rfl
    obtain rfl : e = false := hf.running rfl
    refine ⟨.saved res, tr, ?_, IsClimb.top hf.ends, ?_, nofun, fun r hr => ?_⟩
    · rw [RunState.told_of_running rfl, List.append_nil]
      exact hnow
    · refine Script.Climbs.await.mpr ⟨trivial, .inl fun b' c hb' => ?_⟩
      obtain rfl : b = b' := Except.ok.inj (hb' _ hb)
      exact hk c
    · obtain rfl : res = r := Option.some.inj hr
      exact ⟨hres, _, _, tr, hpast, hstep, .refl, Store.replaces_of_save (hres.2 ▸ hid) hsave, hnow,
        IsClimb.not_mem hf.ends (by decide)⟩
  · refine ⟨_, tr, hf.stay_running hstep rfl rfl rfl ?_⟩
    refine Script.Climbs.await.mpr ⟨trivial, .inl fun b c hb => ?_⟩
    cases hb _ herr

theorem turn (hid : Project.checkId lease.id = .ok ())
    (hpast : QuietlyInterleavedSteps a operation lease f₀ ⟨.await x y r ls k, h, st, e, l⟩)
    (hf : (⟨.await x y r ls k, h, st, e, l⟩ : RunState σ α).Reached
      a operation lease stores post base f₀ q tr) (ht : PairTurn lease h x y h' x' y') :
    ∃ q tr, (⟨.await x' y' r ls k, h', st, e, l⟩ : RunState σ α).Reached
      a operation lease stores post base f₀ q tr := by
  have hstep : Step a operation lease ⟨.await x y r ls k, h, st, e, l⟩
    ⟨.await x' y' r ls k, h', st, e, l⟩ := .turn ht
  cases ht with
  | right ht => exact ⟨q, tr, hf.stay_running hstep rfl rfl ht.notices hf.script⟩
  | left ht =>
      obtain ⟨hopen, hk | ⟨n, res, rfl, hres, hstores⟩⟩ := Script.Climbs.await.mp hf.script
      · refine ⟨q, tr, hf.stay_running hstep rfl rfl ht.notices ?_⟩
        exact Script.Climbs.await.mpr ⟨hopen, .inl fun b c hb => hk b c (hb.turn ht)⟩
      · -- the labor is the save: either it has not begun, or this turn is its only act
        have hnotices := ht.notices
        cases ht with
        | spawn =>
            refine ⟨_, tr, hf.stay_running hstep rfl rfl hnotices ?_⟩
            exact Script.Climbs.await.mpr ⟨hopen, .inr ⟨n, res, rfl, hres, hstores⟩⟩
        | answer => cases hstores
        | work => exact hf.save hid hpast hres hstores

theorem report {f : Failure} (hf : (⟨.failed r f, h, st, false, none⟩ : RunState σ α).Reached
      a operation lease stores post base f₀ q tr) :
    (⟨.failed r f, { h with site := ((a.report operation lease.id f).run h.site).2 }.drop lease true,
      st, true, Store.logPlace a.settings h.site.disk⟩ : RunState σ α).Reached
      a operation lease stores post base f₀ q tr where
  told := by
    rw [Hold.drop_notices, a.entered_report]
    exact congrArg (· ++ _) (hf.told.trans (List.append_nil _))
  ends := hf.ends
  script := hf.script
  decided := fun _ => nofun
  stored := fun r hr => ⟨(hf.stored r hr).1, (hf.stored r hr).2.tail (.single (.inl .report))⟩

end

theorem step (hid : Project.checkId lease.id = .ok ())
    (hpast : QuietlyInterleavedSteps a operation lease f₀ f)
    (hf : f.Reached a operation lease stores post base f₀ q tr) (hs : Step a operation lease f f') :
    ∃ q tr, f'.Reached a operation lease stores post base f₀ q tr := by
  have hstep := hs
  cases hs with
  | go => exact hf.go
  | turn ht => exact hf.turn hid hpast ht
  | @proceed β γ b c r ls k h st e l =>
      obtain ⟨_, hk | ⟨n, res, _, _, hstores⟩⟩ := Script.Climbs.await.mp hf.script
      · refine ⟨q, tr, hf.stay_running hstep rfl rfl rfl (hk b c fun r hr => ?_)⟩
        exact (Chain.stop.inj hr).symm
      · cases hstores
  | fail => exact ⟨q, tr, hf.stay_running hstep rfl rfl rfl hf.script.1⟩
  | limit => exact ⟨q, tr, hf.stay_running hstep rfl rfl rfl hf.script.1⟩
  | stray ht =>
      exact ⟨q, tr, hf.stay (.single (.inl hstep)) (congrArg _ ht.notices) rfl hf.script hf.decided⟩
  | finish =>
      exact ⟨q, tr, hf.stay (.single (.inl hstep)) (congrArg _ (Hold.drop_notices _ _)) rfl hf.script
        fun _ => nofun⟩
  | report => exact ⟨q, tr, hf.report⟩

theorem others (hf : f.Reached a operation lease stores post base f₀ q tr) (ho : Others lease f f')
    (hn : entered lease.id f'.hold.site.notices = entered lease.id f.hold.site.notices) :
    f'.Reached a operation lease stores post base f₀ q tr := by
  have hs : QuietlyInterleavedSteps a operation lease f f' := .single (.inr ⟨ho, hn⟩)
  cases ho with
  | mk _ => exact hf.stay hs hn rfl hf.script hf.decided

theorem steps (hid : Project.checkId lease.id = .ok ())
    (hf : f₀.Reached a operation lease stores post base f₀ q tr)
    (h : QuietlyInterleavedSteps a operation lease f₀ f) :
    ∃ q tr, f.Reached a operation lease stores post base f₀ q tr := by
  induction h with
  | refl => exact ⟨q, tr, hf⟩
  | tail hpast hs ih =>
      obtain ⟨q, tr, hf⟩ := ih
      rcases hs with hs | ⟨ho, hn⟩
      · exact hf.step hid hpast hs
      · exact ⟨q, tr, hf.others ho hn⟩

theorem launch {s : Script σ α} {w : Workspace σ} {n : Nat}
    (htold : entered lease.id w.notices = base ++ tr) (htr : IsClimb n tr)
    (hs : s.Climbs a.settings lease.id stores post (.under n)) :
    (launch s w).Reached a operation lease stores post base (Run.launch s w) (.under n) tr where
  told := htold.trans (List.append_nil _).symm
  ends := htr
  script := hs
  decided := nofun
  stored := nofun

theorem isOpen (hf : f.Reached a operation lease stores post base f₀ q tr) {x : Failure}
    (hx : f.script.outcome = some (.error x)) : q.IsOpen := by
  obtain ⟨r, hr⟩ := Script.outcome_eq_error hx
  have hs := hf.script
  rw [hr] at hs
  exact hs

theorem answers (hf : f.Reached a operation lease stores post base f₀ q tr) {v : α}
    (hv : f.script.outcome = some (.ok v)) : post v q := by
  have hs := hf.script
  rw [Script.outcome_eq_ok hv] at hs
  exact hs

theorem mem_persisted (hf : f.Reached a operation lease stores post base f₀ q tr) :
    .persisted ∈ tr ++ f.told ↔ ∃ r, q = .persisted r := by
  have hnot : Stage.persisted ∉ f.told := fun hs => by
    obtain ⟨x, _, _, _, hx⟩ := RunState.mem_told hs
    cases hx
  rw [List.mem_append, or_iff_left hnot, hf.ends.persisted_iff]
  cases q <;> simp [Milestone.IsOpen]

theorem told_of_persisted {r : Analysis}
    (hf : f.Reached a operation lease stores post base f₀ (.persisted r) tr) : f.told = [] := by
  refine List.eq_nil_iff_forall_not_mem.mpr fun s hs => ?_
  obtain ⟨x, _, hx, _⟩ := RunState.mem_told hs
  exact hf.isOpen hx

theorem pairwise (hf : f.Reached a operation lease stores post base f₀ q tr) :
    (tr ++ f.told).Pairwise (·.rank ≤ ·.rank) := by
  refine List.pairwise_append.mpr ⟨hf.ends.pairwise, f.pairwise_told, fun s hs t ht => ?_⟩
  obtain ⟨x, _, hx, _, rfl⟩ := RunState.mem_told ht
  exact ((hf.ends.climb (hf.isOpen hx)).2.2 s hs).trans (by show 5 ≤ 7; omega)

end RunState.Reached

end

namespace CallKind

def analyzes : CallKind → Bool
  | .clone .. => false
  | _ => true

def Settles (e : CallKind) : Option Analysis → Milestone → Prop
  | none, _ => e.analyzes = false
  | some r, q => q = .persisted r

theorem climbs (a : Analyzer σ) (id : String) (e : CallKind) :
    (e.telling a id).Climbs a.settings id e.analyzes e.Settles (.under 0) := by
  cases e with
  | analyze zip =>
      exact .map (a.climbs_analyzeScript zip (by decide) rfl fun _ => rfl)
  | clone url token => exact .map (a.climbs_cloneScript url token (by decide) fun _ => rfl)
  | analyzeRepository url token =>
      refine .bind (.discard (a.climbs_cloneScript url token (by decide) fun _ => ?_))
      exact .map (a.climbs_analyzeScript none (by decide) rfl fun _ => rfl)

end CallKind

/-- The stages that a run has entered so far, `tr`, on its way from `f₀` to `f`. -/
structure InOrder (a : Analyzer σ) (e : CallKind) (lease : Lease) (base : List Stage)
    (f₀ f : RunState σ (Option Analysis)) (tr : List Stage) : Prop where
  climbs : tr.Pairwise (·.rank ≤ ·.rank)
  decided : f.ended = true → ∃ x, f.script.outcome = some x
  -- a call that fails tells so at its end, and that once
  fails : ∀ {x}, f.ended = true → f.script.outcome = some (.error x) →
    ∃ pre, tr = pre ++ [.failed x.message] ∧ ∀ reason, .failed reason ∉ pre
  -- no other call does, nor one that has not returned
  fails_only : (∀ x, f.ended = true → f.script.outcome ≠ some (.error x)) →
    ∀ reason, .failed reason ∉ tr
  -- before the last stage is entered, what the call is going to answer takes the place of the
  -- stored analysis
  stored : .persisted ∈ tr → ∃ r, r.projectId = lease.id ∧
    Stored a e.operation lease base f₀ f r ∧
    ∀ x, f.script.outcome = some x → x = .ok (some r)
  persisted_last : .persisted ∈ tr → tr.getLast? = some .persisted
  persisted_iff : e.analyzes = true → f.ended = true →
    (.persisted ∈ tr ↔ ∃ v, f.script.outcome = some (.ok v))
  not_persisted : e.analyzes = false → .persisted ∉ tr

theorem RunState.Reached.inOrder {e : CallKind} {f₀ f : RunState σ (Option Analysis)} {base tr : List Stage}
    {q : Milestone} (hf : f.Reached a e.operation lease e.analyzes e.Settles base f₀ q tr) :
    InOrder a e lease base f₀ f (tr ++ f.told) where
  climbs := hf.pairwise
  decided he := Option.ne_none_iff_exists'.mp (hf.decided he)
  fails {x} he hx := ⟨tr, by rw [RunState.told, he, hx], hf.ends.not_failed⟩
  fails_only hnone reason hm := by
    rcases List.mem_append.mp hm with hm | hm
    · exact hf.ends.not_failed reason hm
    · obtain ⟨x, he, hx, _⟩ := RunState.mem_told hm
      exact hnone x he hx
  stored h := by
    obtain ⟨r, rfl⟩ := hf.mem_persisted.mp h
    obtain ⟨⟨han, hid⟩, hstored⟩ := hf.stored r rfl
    refine ⟨r, hid, hstored, fun x hx => ?_⟩
    rcases x with x | _ | v
    · cases hf.isOpen hx
    · have hnone : e.analyzes = false := hf.answers hx
      rw [han] at hnone
      cases hnone
    · cases hf.answers hx
      rfl
  persisted_last h := by
    obtain ⟨r, rfl⟩ := hf.mem_persisted.mp h
    obtain ⟨pre, rfl, _⟩ := hf.ends
    rw [hf.told_of_persisted, List.append_nil]
    exact List.getLast?_concat
  persisted_iff han he := by
    constructor
    · intro h
      obtain ⟨r, rfl⟩ := hf.mem_persisted.mp h
      obtain ⟨x | v, hx⟩ := Option.ne_none_iff_exists'.mp (hf.decided he)
      · cases hf.isOpen hx
      · exact ⟨v, hx⟩
    · rintro ⟨_ | r, hv⟩
      · have hnone : e.analyzes = false := hf.answers hv
        rw [han] at hnone
        cases hnone
      · exact hf.mem_persisted.mpr ⟨r, hf.answers hv⟩
  not_persisted han h := by
    obtain ⟨r, rfl⟩ := hf.mem_persisted.mp h
    have := (hf.stored r rfl).1.1
    rw [han] at this
    cases this

/-- A run past its begin enters its stages in order, whatever fails, whenever a time limit strikes and
whatever others do meanwhile. The failure is the last stage of a call that fails, and of no other. The
stage of a stored analysis comes after the save of what the call answers, and a call that is to
analyze enters it just if it succeeds. If nobody comes in between, this is what the call does. -/
theorem stages_in_order (a : Analyzer σ) (e : CallKind) {id : String} {w w₀ : Workspace σ}
    {lease : Lease} (hstart : (a.start id).run w = (.ok lease, w₀)) :
    (∀ {f}, QuietlyInterleavedSteps a e.operation lease (launch (e.telling a id) w₀) f →
      ∃ tr, entered id f.hold.site.notices = entered id w.notices ++ tr ∧
        InOrder a e lease (entered id w.notices) (launch (e.telling a id) w₀) f tr) ∧
    ∀ {x w'}, (e.answer a id).run w = (x, w') →
      ∃ f, QuietlyInterleavedSteps a e.operation lease (launch (e.telling a id) w₀) f ∧ f.ended = true ∧
        f.script.outcome = some x ∧ f.hold.site.notices = w'.notices := by
  obtain ⟨hid, rfl, _, _⟩ := start_lease hstart
  have htold : entered lease.id w₀.notices = entered lease.id w.notices ++ [.initializing] := by
    rw [Analyzer.start_run, hid] at hstart
    dsimp only at hstart
    split at hstart
    · cases hstart
    · cases hstart
    · cases hstart
      rw [entered_append, entered_stage]
  constructor
  · intro f hf
    -- the begin itself is the first of the stages
    have hfirst : IsClimb 0 [.initializing] := ⟨by decide, List.pairwise_singleton .., by decide⟩
    obtain ⟨q, tr, hreached⟩ := (RunState.Reached.launch htold hfirst (e.climbs a lease.id)).steps hid hf
    exact ⟨tr ++ f.told, by rw [hreached.told, List.append_assoc], hreached.inOrder⟩
  · intro x w' hrun
    rw [CallKind.answer_eq] at hrun
    obtain ⟨f, hf, hend, hx, ⟨_, hn⟩, _⟩ := RunSteps.leased (e.orderly_telling a lease.id) hstart hrun
    exact ⟨f, hf.quietlyInterleaved, hend, hx, hn⟩

theorem stages_in_order_rejected :
    (clerk.start "m").run (.ofDisk .blank [] ()) = (.ok leaseOfM, underLease) ∧
    entered "m" (((CallKind.clone "" none).answer clerk "m").run (.ofDisk .blank [] ())).2.notices =
      [.initializing, .materializing, .failed "Git URL is required"] ∧
    ∃ f, QuietlyInterleavedSteps clerk "Clone" leaseOfM
        (launch ((CallKind.clone "" none).telling clerk "m") underLease) f ∧
      InOrder clerk (.clone "" none) leaseOfM []
        (launch ((CallKind.clone "" none).telling clerk "m") underLease) f
        [.initializing, .materializing, .failed "Git URL is required"] := by
  have hstages : entered "m" (((CallKind.clone "" none).answer clerk "m").run
      (.ofDisk .blank [] ())).2.notices =
        [.initializing, .materializing, .failed "Git URL is required"] := by decide +kernel
  obtain ⟨hall, hruns⟩ := stages_in_order clerk (.clone "" none) start_clerk
  obtain ⟨f, hf, _, _, hn⟩ := hruns Prod.mk.eta.symm
  obtain ⟨tr, htr, horder⟩ := hall hf
  rw [hn, hstages] at htr
  obtain rfl : _ = tr := htr
  exact ⟨start_clerk, hstages, f, hf, horder⟩

end SourceAtlas.Run
