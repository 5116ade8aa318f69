import SourceAtlas.Proofs.Run.Changes
import SourceAtlas.Proofs.Run.Held

namespace SourceAtlas.Run

open Disk Work

variable {σ α : Type} {q : Place} {d d' : Disk}

def ProjectArea.Noted (g : ProjectArea) (q : Place) (operation : String) (e : Failure) : Regime :=
  fun mark ph d => match mark with
    | none => g.Frame none ph d
    | some _ => g.Footing ph d ∧ ∃ t, d.bytesAt q =
        g.first.bytesAt q ++ (Store.logEntry t operation g.id e.logDetail).toUTF8

namespace ProjectArea

variable {g : ProjectArea} {operation : String} {e : Failure} {mark : Option Place} {ph : Phase}

theorem Noted.footing (h : g.Noted q operation e mark ph d) : g.Footing ph d := by
  cases mark with
  | none => exact h.toFooting
  | some _ => exact h.1

theorem IsSound.suits_noted (hg : g.IsSound) (hq : ¬ g.project <+: q) (hqa : q ≠ g.analysis) :
    Regime.Suits (g.Noted q operation e) g where
  valid := hg.valid
  footing := Noted.footing
  touch := by
    intro mark ph d h hph
    cases mark with
    | none => exact Frame.touch h hph
    | some _ => exact ⟨h.1.inPhase nofun, h.2⟩
  within := by
    intro mark ph d d' h hph hw hl
    cases mark with
    | none => exact Frame.within h hph hw hl
    | some _ => exact ⟨h.1.within hw hl, by rw [bytesAt_congr (hw.outside hq)]; exact h.2⟩
  saved := by
    intro mark ph d d' h hf
    cases mark with
    | none => exact Frame.saved h hf
    | some _ => exact ⟨(h.1.filed hf).inPhase nofun, by rw [bytesAt_congr (hf.other hqa)]; exact h.2⟩

theorem Frame.bytesAt (h : g.Frame none ph d) (hq : ¬ g.project <+: q) (hqa : q ≠ g.analysis) :
    d.bytesAt q = g.first.bytesAt q := bytesAt_congr (h.outside hq hqa nofun)

theorem Frame.noted (h : g.Frame none ph d) (hq : ¬ g.project <+: q) (hqa : q ≠ g.analysis)
    {s : Settings} (ho : Store.Opens s d q) : g.Noted q operation e (some q) ph
      ((Store.recordFailure s operation g.id e).run d).2 := by
  obtain ⟨d₁, d', t, hrun, hwide, hfiled, hbytes⟩ := ho.recordFailure h.tree operation g.id e
  rw [hrun]
  exact ⟨(h.toFooting.widened hwide).filed hfiled, t, by rw [hbytes, h.bytesAt hq hqa]⟩

end ProjectArea

structure Differs (id : String) (P : Place) (d d' : Disk) : Prop where
  tree : IsTree d'
  base : d'.base = d.base
  folder : d.found? (P ++ [id]) = some .folder → d'.found? (P ++ [id]) = some .folder
  other : ∀ {q}, ¬ IsOwn id P q → d'.found? q = d.found? q

theorem ProjectArea.Frame.differs {g : ProjectArea} {ph : Phase} {r : Disk} (h : g.Frame none ph d)
    (hm : Marked (g.folder ++ [Settings.lockName g.id]) r g.first) : Differs g.id g.folder r d where
  tree := h.tree
  base := h.base.trans hm.base
  folder := fun hf => h.firm (hm.kept hf nofun) nofun fun hin => hin.2 rfl
  other := fun hq => (h.outside (fun hin => hq (.inl hin)) (fun he => hq (.inr (.inr he))) nofun).trans
    (hm.other fun he => hq (.inr (.inl he)))

structure Call (σ : Type) where
  analyzer : Analyzer σ
  kind : CallKind
  id : String

def Call.begins (c : Call σ) (w : Workspace σ) : Bool :=
  ((c.analyzer.start c.id).run w).1.toOption.isSome

/-- How a call ends. With `begun` it has taken the lease, else it is refused. -/
inductive Call.Ends (c : Call σ) (w : Workspace σ) : Bool → Except Failure Unit → Disk → Prop
  | refused {f w'} : (c.analyzer.start c.id).run w = (.error f, w') →
      Ends c w false (.error f) w'.disk
  | begun {lease w₀ f x} : (c.analyzer.start c.id).run w = (.ok lease, w₀) →
      RunSteps c.analyzer c.kind.operation lease (launch (c.kind.script c.analyzer c.id) w₀) f →
      f.ended = true → f.script.outcome = some x → Ends c w true x f.hold.site.disk

namespace Call

variable (c : Call σ) (q : Place) (d : Disk)

abbrev made : Disk := Run.made c.analyzer.settings.projectsDir d

abbrev Home (P : Place) : Prop := (c.made d).FolderAt c.analyzer.settings.projectsDir P

structure Fits : Prop where
  tree : IsTree d
  named : c.analyzer.settings.projectsDir.isEmpty = false
  confined : c.analyzer.transport.IsConfined
  laid : LaidOut (c.made d) c.analyzer.settings.projectsDir c.id
  file : (c.made d).found? q ≠ some .folder
  apart : ∀ {P}, c.Home d P → ¬ IsOwn c.id P q
  opens : ∀ {P d'}, c.Home d P → Differs c.id P (c.made d) d' →
    Store.Opens c.analyzer.settings d' q

/-- What is to be read in the log about a failure of the call. -/
def Tells (f : Failure) (line : String) : Prop :=
  Store.IsLine line ∧ ∃ t, line = Store.logEntry t c.kind.operation c.id f.logDetail

end Call

theorem CallKind.operation_unbroken (e : CallKind) : '\n' ∉ e.operation.toList := by
  cases e with
  | clone url token => exact (by decide : '\n' ∉ "Clone".toList)
  | _ => exact (by decide : '\n' ∉ "Analysis".toList)

section

variable {c : Call σ} {w : Workspace σ}

theorem Call.Fits.bytesAt_made (h : c.Fits q d) : (c.made d).bytesAt q = d.bytesAt q :=
  (made_widened h.tree _).bytesAt h.file

theorem Call.Fits.refused (h : c.Fits q w.disk) {f : Failure} {w' : Workspace σ}
    (hstart : (c.analyzer.start c.id).run w = (.error f, w')) :
    w'.disk.bytesAt q = w.disk.bytesAt q := by
  rcases start_marked h.tree h.named h.laid hstart with ⟨_, hd, _⟩ | ⟨_, ⟨P, hP, hm⟩ | ⟨hd | hd, _⟩⟩
  · rw [hd]
  · rw [bytesAt_congr (hm.other fun he => h.apart hP (.inr (.inl he)))]
    exact h.bytesAt_made
  · rw [hd]
  · rw [hd]
    exact h.bytesAt_made

theorem Call.Fits.begun (h : c.Fits q w.disk) {lease : Lease} {w₀ : Workspace σ} {f : RunState σ Unit}
    (hstart : (c.analyzer.start c.id).run w = (.ok lease, w₀))
    (hf : RunSteps c.analyzer c.kind.operation lease
      (launch (c.kind.script c.analyzer c.id) w₀) f) :
    match f.failure? with
    | none => f.hold.site.disk.bytesAt q = w.disk.bytesAt q
    | some e => ∃ line, c.Tells e line ∧
        f.hold.site.disk.bytesAt q = w.disk.bytesAt q ++ line.toUTF8 := by
  obtain ⟨hid, P, hP, hm, hg⟩ := ground_of_start h.named h.tree h.laid hstart
  have hown := h.apart hP
  have hfirst : w₀.disk.bytesAt q = w.disk.bytesAt q := by
    rw [bytesAt_congr (hm.other fun he => hown (.inr (.inl he)))]
    exact h.bytesAt_made
  obtain ⟨e, he⟩ : ∃ e, ∀ e', f.script.outcome = some (.error e') → e' = e := by
    rcases f.script.outcome with _ | e | v
    · exact ⟨.timedOut 0, nofun⟩
    · exact ⟨e, fun e' h => by cases h; rfl⟩
    · exact ⟨.timedOut 0, nofun⟩
  let g : ProjectArea := ⟨c.analyzer.settings, c.id, w₀.disk, P, c.kind.isPlain⟩
  have hq : ¬ g.project <+: q := fun hin => hown (.inl hin)
  have hqa : q ≠ g.analysis := fun he => hown (.inr (.inr he))
  have hlaunch : (launch (c.kind.script c.analyzer c.id) w₀).KeepsAs
      (g.Noted q c.kind.operation e) none :=
    .launch (ProjectArea.Frame.found (hg _))
      (CallKind.keeps ((hg _).suits_noted hq hqa) rfl h.confined c.kind Iff.rfl)
  have hend := hlaunch.runSteps_failing (q := q) rfl hf fun {e' ph d} hx hd => by
    obtain rfl := he e' hx
    rw [c.analyzer.start_id hstart]
    exact ProjectArea.Frame.noted hd hq hqa (h.opens hP (ProjectArea.Frame.differs hd hm))
  rcases hfail : f.failure? with _ | e'
  · rw [hfail] at hend
    obtain ⟨_, ph, hd, _⟩ := hend
    exact (ProjectArea.Frame.bytesAt hd hq hqa).trans hfirst
  · rw [hfail] at hend
    obtain ⟨_, ph, ⟨_, t, hbytes⟩, _⟩ := hend
    obtain rfl := he e' (RunState.outcome_of_failure hfail).2
    exact ⟨_, ⟨Store.isLine_logEntry hid c.kind.operation_unbroken _ _, t, rfl⟩, by rw [hbytes, ← hfirst]⟩

theorem Call.ends_run (c : Call σ) {x : Except Failure Unit} {w' : Workspace σ}
    (h : (c.kind.run c.analyzer c.id).run w = (x, w')) : c.Ends w (c.begins w) x w'.disk := by
  unfold Call.begins
  rcases hstart : (c.analyzer.start c.id).run w with ⟨f | lease, w₀⟩
  · rw [c.kind.run_eq, Analyzer.leased, run_bind, hstart] at h
    cases h
    exact .refused hstart
  · have hid := c.analyzer.start_id hstart
    rw [c.kind.run_eq, ← hid] at h
    rw [← hid] at hstart
    obtain ⟨f, hf, hend, hx, ⟨hd, _⟩, _⟩ :=
      RunSteps.leased (c.kind.orderly c.analyzer lease.id) hstart h
    rw [hid] at hstart hf
    exact hd ▸ .begun hstart hf hend hx

end

structure Returned (σ : Type) where
  call : Call σ
  begun : Bool
  result : Except Failure Unit

def Returned.failure? (r : Returned σ) : Option Failure :=
  match r.begun, r.result with
  | true, .error f => some f
  | _, _ => none

def failures (rs : List (Returned σ)) : List (Call σ × Failure) :=
  rs.filterMap fun r => r.failure?.map (r.call, ·)

/-- Calls that have returned, each before the next is made. Between two of them anything else may
happen to the disk and the leases, but for the log. -/
inductive Session (q : Place) (d : Disk) : List (Returned σ) → Disk → Prop
  | start : Session q d [] d
  | others {rs d₁ d₂} : Session q d rs d₁ → d₂.found? q = d₁.found? q → Session q d rs d₂
  | call {rs r d₁} {w : Workspace σ} : Session q d rs w.disk → r.call.Fits q w.disk →
      r.call.Ends w r.begun r.result d₁ → Session q d (rs ++ [r]) d₁

theorem Session.single {c : Call σ} {w : Workspace σ} {begun : Bool} {x : Except Failure Unit}
    (h : c.Fits q w.disk) (he : c.Ends w begun x d') : Session q w.disk [⟨c, begun, x⟩] d' :=
  .call .start h he

theorem Call.Fits.ends {r : Returned σ} {w : Workspace σ} (h : r.call.Fits q w.disk)
    (he : r.call.Ends w r.begun r.result d) : ∃ lines : List String,
      List.Forall₂ (fun x line => x.1.Tells x.2 line) (failures [r]) lines ∧
      d.bytesAt q = w.disk.bytesAt q ++ (String.join lines).toUTF8 := by
  obtain ⟨c, begun, result⟩ := r
  cases he with
  | refused hstart => exact ⟨[], .nil, by rw [h.refused hstart]; exact ByteArray.append_empty.symm⟩
  | @begun lease w₀ f x hstart hf hend hx =>
      have hlog := h.begun hstart hf
      cases result with
      | ok v =>
          rw [RunState.failure?, hend, hx] at hlog
          exact ⟨[], .nil, by rw [hlog]; exact ByteArray.append_empty.symm⟩
      | error e =>
          rw [RunState.failure?, hend, hx] at hlog
          obtain ⟨line, htells, hbytes⟩ := hlog
          refine ⟨[line], .cons htells .nil, ?_⟩
          rw [hbytes, String.join_cons, String.join_nil, String.append_empty]

theorem Session.lines {rs : List (Returned σ)} (h : Session q d rs d') : ∃ lines : List String,
    List.Forall₂ (fun x line => x.1.Tells x.2 line) (failures rs) lines ∧
    d'.bytesAt q = d.bytesAt q ++ (String.join lines).toUTF8 := by
  induction h with
  | start => exact ⟨[], .nil, ByteArray.append_empty.symm⟩
  | others _ hq ih => rwa [bytesAt_congr hq]
  | @call rs r d₁ w _ hfits hends ih =>
      obtain ⟨before, htold, hbytes⟩ := ih
      obtain ⟨more, htells, hadded⟩ := hfits.ends hends
      refine ⟨before ++ more, ?_, ?_⟩
      · rw [failures, List.filterMap_append]
        exact List.rel_append htold htells
      · simp only [hadded, hbytes, String.join_append, String.toUTF8_eq_toByteArray,
          String.toByteArray_append, ByteArray.append_assoc]

/-- After any sequence of calls the log holds what it held, and then one line for each call that failed
when it had taken the lease of its project, in their order; each names the operation and the project of
its call, and whatever the failure tells, it does not break the line. Calls that succeed or are refused
add nothing. -/
theorem log_tells_failures :
    (∀ (c : Call σ) {w w' : Workspace σ} {x : Except Failure Unit},
      (c.kind.run c.analyzer c.id).run w = (x, w') → c.Ends w (c.begins w) x w'.disk) ∧
    ∀ {q : Place} {d d' : Disk} {rs : List (Returned σ)}, Session q d rs d' →
      ∃ lines : List String,
        List.Forall₂ (fun x line => x.1.Tells x.2 line) (failures rs) lines ∧
        d'.bytesAt q = d.bytesAt q ++ (String.join lines).toUTF8 ∧
        (String.join lines).toList.count '\n' = (failures rs).length := by
  refine ⟨fun c {w w' x} h => c.ends_run h, fun {q d d' rs} h => ?_⟩
  obtain ⟨lines, htold, hbytes⟩ := h.lines
  exact ⟨lines, htold, hbytes, Store.count_lines And.left htold⟩

def bareProjects : Disk := ⟨[(["projects"], ⟨.folder, 0⟩)], [], 0, 0⟩

def lookForM : Call Unit := ⟨clerk, .analyze none, "m"⟩

def logOfClerk : Place := ["DEBUG_ERROR.txt"]

theorem found?_projects {q : Place} {e : Entry} (h : bareProjects.found? q = some e) :
    q = [] ∨ q = ["projects"] := by
  rcases record_of_found? h with ⟨hq, _⟩ | ⟨t, hr⟩
  · exact .inl hq
  · simp only [bareProjects, List.mem_singleton, Prod.mk.injEq] at hr
    exact .inr hr.1

theorem isTree_projects : IsTree bareProjects := by decide

theorem made_projects : lookForM.made bareProjects = bareProjects :=
  made_of_folder (isFolder_iff.mpr ⟨["projects"], 0, rfl⟩)

theorem home_projects {P : Place} (h : lookForM.Home bareProjects P) : P = ["projects"] := by
  rw [Call.Home, made_projects] at h
  exact h.unique ⟨0, rfl⟩

theorem logOfClerk_apart : ¬ IsOwn "m" ["projects"] logOfClerk := by
  rintro (h | h | h)
  · exact absurd h (by decide)
  · exact absurd h (by decide)
  · exact absurd h (by decide)

theorem fits_projects : lookForM.Fits logOfClerk bareProjects where
  tree := isTree_projects
  named := by decide
  confined := fun r d m T ht hT => ⟨ht, rfl, hT.folder, fun _ => rfl⟩
  laid := by
    rw [made_projects]
    constructor
    · intro P q t hP _ h
      rcases found?_projects h with rfl | rfl <;> cases h
    · intro P d' hP hd'
      refine hP.carry hd'.base fun {q e} hq _ => (hd'.other fun hin => ?_).trans hq
      rw [hP.unique ⟨0, rfl⟩] at hin
      rcases found?_projects hq with rfl | rfl
      · exact absurd hin.1 (by decide)
      · exact absurd hin.1 (by decide)
  file := by
    rw [made_projects]
    exact nofun
  apart := by
    intro P hP
    rw [home_projects hP]
    exact logOfClerk_apart
  opens := by
    intro P d' hP hd'
    rw [home_projects hP, made_projects] at hd'
    have hnone : d'.found? logOfClerk = none := (hd'.other logOfClerk_apart).trans rfl
    have hstart : d'.start lookForM.analyzer.settings.errorLog = [] := hd'.base
    have hway : Way d' true maxLinks [] ["DEBUG_ERROR.txt"] ⟨logOfClerk, none, false⟩ :=
      .missing (by decide) (found?_eq_none.mp hnone) rfl
    refine ⟨d', none, rfl, locate_eq_ok.mpr ⟨⟨by decide, rfl, ?_⟩, ?_⟩, ?_⟩
    · rw [hstart]
      rfl
    · rw [hstart]
      exact hway
    · rw [hnone]
      nofun

def lookedForM : Except Failure Unit × Workspace Unit :=
  (lookForM.kind.run clerk "m").run (.ofDisk bareProjects [] ())

theorem log_tells_failures_missing : ∃ r : Returned Unit,
    Session logOfClerk bareProjects [r] lookedForM.2.disk ∧
    failures [r] = [(lookForM, .projectMissing "m")] ∧
    ∃ line, lookForM.Tells (.projectMissing "m") line ∧
      lookedForM.2.disk.bytesAt logOfClerk = line.toUTF8 := by
  have hfails : lookedForM.1 = .error (.projectMissing "m") := by decide +kernel
  have hbegins : lookForM.begins (.ofDisk bareProjects [] ()) = true := by decide +kernel
  obtain ⟨hends, hlog⟩ := log_tells_failures (σ := Unit)
  have hrun : (lookForM.kind.run lookForM.analyzer lookForM.id).run (.ofDisk bareProjects [] ()) =
      (lookedForM.1, lookedForM.2) := by
    unfold lookedForM
    exact Prod.mk.eta.symm
  have hend := hends lookForM hrun
  rw [hbegins, hfails] at hend
  have hsession : Session logOfClerk bareProjects [⟨lookForM, true, .error (.projectMissing "m")⟩]
      lookedForM.2.disk := .single (w := .ofDisk bareProjects [] ()) fits_projects hend
  obtain ⟨lines, htold, hbytes, _⟩ := hlog hsession
  cases htold with
  | @cons _ line _ _ htells hrest =>
      cases hrest
      have hempty : bareProjects.bytesAt logOfClerk = .empty := bytesAt_none rfl
      refine ⟨_, hsession, rfl, line, htells, ?_⟩
      rw [hbytes, hempty, ByteArray.empty_append, String.join_cons, String.join_nil,
        String.append_empty]

def secondCall : Except Failure Unit × Workspace Unit :=
  ((CallKind.analyze none).run clerk "m").run underLease

theorem refusal_not_told : secondCall.1 = .error (.alreadyRunning "m") ∧
    Store.logPlace clerk.settings underLease.disk = some logOfClerk ∧
    underLease.disk.bytesAt logOfClerk = .empty ∧
    secondCall.2.disk.bytesAt logOfClerk = .empty := by
  have hbefore : (underLease.disk.get? logOfClerk).isNone = true := by decide +kernel
  have hafter : (secondCall.2.disk.get? logOfClerk).isNone = true := by decide +kernel
  exact ⟨by decide +kernel, by decide +kernel,
    bytesAt_none (found?_eq_none.mpr (Option.isNone_iff_eq_none.mp hbefore)),
    bytesAt_none (found?_eq_none.mpr (Option.isNone_iff_eq_none.mp hafter))⟩

end SourceAtlas.Run
