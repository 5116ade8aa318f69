import SourceAtlas.Proofs.Lease.Runs
import SourceAtlas.Proofs.Run.Footprint

namespace SourceAtlas

open Disk Work

namespace Leases

variable {folder : Path} {holder id : String} {ls : Leases} {d d' : Disk} {P : Place}
  {r : Except Fault (Option Lease)}

theorem lock_marked (ht : IsTree d) (hP : d.FolderAt folder P) (hid : Project.checkId id = .ok ())
    (hl : ∀ t, d.found? (P ++ [Settings.lockName id]) ≠ some (.link t)) :
    Marked (P ++ [Settings.lockName id]) d ((openFile (lockPath folder id)).run d).2 ∧
      Marked (P ++ [Settings.lockName id]) d ((writeText (lockPath folder id) lockText).run d).2 := by
  have hn := Settings.lockName_isEntryName hid
  rw [Settings.lockPath_eq folder hid]
  rw [openFile, writeText, writeBytes_snd]
  exact ⟨(openWith_filedAt ht ..).marked ht hP hn hl, (openWith_filedAt ht ..).marked ht hP hn hl⟩

theorem acquire_marked (ht : IsTree d) (hf : folder.isEmpty = false)
    (hid : Project.checkId id = .ok ())
    (hl : ∀ {P t}, ((makeFolders folder).run d).2.FolderAt folder P →
      ((makeFolders folder).run d).2.found? (P ++ [Settings.lockName id]) ≠ some (.link t))
    (h : (acquire folder holder id ls).run d = (r, d')) :
    (∃ P, ((makeFolders folder).run d).2.FolderAt folder P ∧
      Marked (P ++ [Settings.lockName id]) ((makeFolders folder).run d).2 d') ∨
    (d' = d ∨ d' = ((makeFolders folder).run d).2) ∧ ∀ l, r ≠ .ok (some l) := by
  cases hh : ls.isHeldBy holder id with
  | true =>
      rw [acquire, if_pos hh] at h
      cases h
      refine .inr ⟨.inl rfl, fun l hl => ?_⟩
      cases hl
  | false =>
      rw [acquire_run hh, openLock_run] at h
      have ht₁ := makeFolders_isTree folder d ht
      rcases hm : (makeFolders folder).run d with ⟨e | _, d₁⟩
      · rw [hm] at h
        cases h
        refine .inr ⟨.inr rfl, fun l hl => ?_⟩
        cases hl
      · obtain ⟨P, hP⟩ := isFolder_iff.mp (makeFolders_ok hf hm)
        rw [hm] at h ht₁ hl
        dsimp only at h ht₁ hl ⊢
        obtain ⟨hopen, _⟩ := lock_marked ht₁ hP hid fun t => hl hP
        refine .inl ⟨P, hP, ?_⟩
        -- the lock is opened, and then signed only if nobody has it
        rcases hr : (openFile (lockPath folder id)).run d₁ with ⟨e | i, d₂⟩
        · rw [hr] at h hopen
          cases h
          exact hopen
        rw [hr] at h hopen
        dsimp only at h hopen
        split at h
        · cases h
          exact hopen
        · obtain ⟨_, hwrite⟩ := lock_marked (hopen.tree ht₁) (hopen.folderAt hP) hid
            fun t he => hl hP (hopen.link he)
          rcases hw : (writeText (lockPath folder id) lockText).run d₂ with ⟨e | _, d₃⟩
          all_goals
            rw [hw] at h hwrite
            cases h
            exact hopen.trans hwrite

end Leases

namespace Settings

def IsUnder (s : Settings) (base : Path) : Prop :=
  ∃ limits clone hours,
    s = ({ limits := limits, clone := clone, maxAgeHours := hours } : Settings).withBase base

namespace IsUnder

variable {s : Settings} {base : Path} {d : Disk} {P : Place}

theorem projectsDir (h : s.IsUnder base) : s.projectsDir = base.join ⟨["projects"]⟩ := by
  obtain ⟨_, _, _, rfl⟩ := h
  rfl

theorem errorLog (h : s.IsUnder base) : s.errorLog = base.join ⟨["DEBUG_ERROR.txt"]⟩ := by
  obtain ⟨_, _, _, rfl⟩ := h
  rfl

theorem isEmpty_projectsDir (h : s.IsUnder base) : s.projectsDir.isEmpty = false := by
  rw [h.projectsDir]
  cases hb : base.isEmpty with
  | true =>
      rw [Path.join_of_isEmpty hb (by decide)]
      decide
  | false => exact Path.isEmpty_join hb (by decide) (by decide)

theorem folder_of_log (h : s.IsUnder base) (ht : IsTree d) (hP : d.FolderAt s.projectsDir P)
    {q : Path} (hq : s.errorLog.parent = some q) (hne : q.isEmpty = false) :
    d.isFolder q = true := by
  rw [h.errorLog] at hq
  cases hb : base.isEmpty with
  | true =>
      rw [Path.join_of_isEmpty hb (by decide)] at hq
      cases hq
      cases hne
  | false =>
      obtain ⟨t, hs⟩ := hP
      rw [h.projectsDir] at hs
      have hbase : d.isFolder base = true :=
        folder_of_locate ht hb (n := "projects") (by decide) (stat_eq_ok.mp hs)
      obtain ⟨Q, hQ⟩ := isFolder_iff.mp hbase
      exact (folder_around ht hQ (n := "DEBUG_ERROR.txt") (by decide) hq).2

end IsUnder

end Settings

namespace Run

variable {σ α : Type} {a : Analyzer σ} {base : Path} {id : String} {w w₀ : Workspace σ} {d r : Disk}
  {P : Place}

def made (p : Path) (d : Disk) : Disk := ((makeFolders p).run d).2

/-- In the place there is what was there, or a folder that was missing on the path. -/
def Stays (p : Path) (q : Place) (d d' : Disk) : Prop :=
  d'.found? q = d.found? q ∨
    d.found? q = none ∧ d'.found? q = some .folder ∧ (made p d).found? q = some .folder

/-- There are no links among the projects, and the way to them does not lead over what lies in the
folder of the project itself. -/
structure LaidOut (d : Disk) (projects : Path) (id : String) : Prop where
  plain : ∀ {P q t}, d.FolderAt projects P → P <+: q → d.found? q ≠ some (.link t)
  apart : ∀ {P d'}, d.FolderAt projects P → Emptied (P ++ [id]) d d' → d'.FolderAt projects P

def IsOwn (id : String) (P q : Place) : Prop :=
  P ++ [id] <+: q ∨ q = P ++ [Settings.lockName id] ∨ q = P ++ [Settings.analysisName id]

structure ObservedCall where
  disk : Disk
  logged : Option Place
  outcome : Option (Except Failure Unit)
  rejected : Bool

def Script.isRejected : Script σ α → Bool
  | .failed r _ => r
  | _ => false

def RunState.observed (f : RunState σ Unit) : ObservedCall :=
  ⟨f.hold.site.disk, f.logged, f.script.outcome, f.script.isRejected⟩

/-- What a call may show: it is refused, or is on its way, or has ended. -/
inductive CallKind.Shows (a : Analyzer σ) (e : CallKind) (id : String) (w : Workspace σ) : ObservedCall → Prop
  | refused {f w'} : (a.start id).run w = (.error f, w') →
      Shows a e id w ⟨w'.disk, none, some (.error f), false⟩
  | running {lease w₀ f} : (a.start id).run w = (.ok lease, w₀) →
      RunSteps a e.operation lease (launch (e.script a id) w₀) f → Shows a e id w f.observed

theorem made_widened (ht : IsTree d) (p : Path) : Archive.Widened d (made p d) :=
  Archive.makeFolders_widened ht p

theorem stays_of_made {p : Path} {q : Place} {d' : Disk} (ht : IsTree d)
    (h : d'.found? q = (made p d).found? q) : Stays p q d d' := by
  unfold Stays
  rw [h]
  rcases (made_widened ht p).only q with hq | ⟨hq, hd | hd⟩
  · exact .inl (found?_congr hq)
  · exact .inr ⟨hd, hq, hq⟩
  · exact .inl (hq.trans hd.symm)

theorem LaidOut.isSound {s : Settings} (hl : LaidOut d s.projectsDir id) (ht : IsTree d)
    (hid : Project.checkId id = .ok ()) (hP : d.FolderAt s.projectsDir P)
    (hm : Marked (P ++ [Settings.lockName id]) d r) (plain : Prop) :
    ProjectArea.IsSound ⟨s, id, r, P, plain⟩ where
  valid := hid
  tree := hm.tree ht
  reached := Emptied.folderAt_carry ht (fun h => hl.apart hP h) hm.base
    fun he hfile _ => hm.kept he hfile
  links := fun hq he => hl.plain hP hq (hm.link he)

theorem logs {g : ProjectArea} (hu : a.settings.IsUnder base) (hs : a.settings = g.settings) :
    Logs g.Frame a := by
  intro ph d operation id f hd
  rcases Store.recordFailure_filedAt hd.tree a.settings operation id f
    (fun hq hne => hu.folder_of_log hd.tree (hs ▸ hd.folderAt) hq hne) with hsame | ⟨s, hl, hf⟩
  · rw [hsame]
    exact hd.relog
  · rw [Store.logPlace, hl]
    exact hd.logged hf

theorem RunState.Keeps.seen {I : Regime} {f : RunState σ Unit} (h : f.Keeps I) :
    ∃ ph, I f.logged ph f.hold.site.disk ∧
      ∀ e, f.script.outcome = some (.error e) → ph.Allows f.script.isRejected := by
  obtain ⟨_, ph, hd, hmode⟩ := h
  refine ⟨ph, hd, fun e he => ?_⟩
  rcases hmode with ⟨_, _, hk⟩ | ⟨v, hv, _⟩ | ⟨b, e', hv, hb, _⟩
  · obtain ⟨b, hs⟩ := Script.outcome_eq_error he
    rw [hs] at hk ⊢
    exact hk
  · rw [hv] at he
    cases he
  · rw [hv]
    exact hb

theorem start_marked {x : Except Failure Lease} (ht : IsTree w.disk)
    (hD : a.settings.projectsDir.isEmpty = false)
    (hl : LaidOut (made a.settings.projectsDir w.disk) a.settings.projectsDir id)
    (h : (a.start id).run w = (x, w₀)) :
    (Project.checkId id ≠ .ok () ∧ w₀.disk = w.disk ∧ ∀ lease, x ≠ .ok lease) ∨
    Project.checkId id = .ok () ∧
      ((∃ P, (made a.settings.projectsDir w.disk).FolderAt a.settings.projectsDir P ∧
        Marked (P ++ [Settings.lockName id]) (made a.settings.projectsDir w.disk) w₀.disk) ∨
      (w₀.disk = w.disk ∨ w₀.disk = made a.settings.projectsDir w.disk) ∧
        ∀ lease, x ≠ .ok lease) := by
  rw [Analyzer.start_run] at h
  rcases hid : Project.checkId id with e | _
  · rw [hid] at h
    cases h
    exact .inl ⟨nofun, rfl, nofun⟩
  · rw [hid] at h
    dsimp only at h
    refine .inr ⟨rfl, ?_⟩
    rcases hacquire : (Leases.acquire a.settings.projectsDir a.holder id w.leases).run w.disk with
      ⟨r, d⟩
    have hmarked := Leases.acquire_marked ht hD hid
      (fun hP => hl.plain hP (List.prefix_append ..)) hacquire
    rw [hacquire] at h
    rcases hmarked with hmarked | ⟨hd, hr⟩
    · rcases r with _ | _ | lease <;> cases h <;> exact .inl hmarked
    · rcases r with _ | _ | lease
      · cases h
        exact .inr ⟨hd, nofun⟩
      · cases h
        exact .inr ⟨hd, nofun⟩
      · exact absurd rfl (hr lease)

/-- But for the place that the log is in, and for folders that were missing on the way to the projects,
the call has changed nothing that is not the project's own; if it has failed, not the analysis
either, nor after a rejection the folder of the project; and if the id is none, nothing at all. -/
structure ObservedCall.KeepsTo (s : ObservedCall) (projects : Path) (id : String) (d : Disk) : Prop where
  rest : ∀ {q}, s.logged ≠ some q →
    (∀ P, (made projects d).FolderAt projects P → ¬ IsOwn id P q) → Stays projects q d s.disk
  analysis : ∀ {P e}, (made projects d).FolderAt projects P → s.outcome = some (.error e) →
    s.logged ≠ some (P ++ [Settings.analysisName id]) →
      Stays projects (P ++ [Settings.analysisName id]) d s.disk
  project : ∀ {P q}, (made projects d).FolderAt projects P → s.rejected = true →
    P ++ [id] <+: q → s.logged ≠ some q → Stays projects q d s.disk
  invalid : Project.checkId id ≠ .ok () → s.disk = d

theorem analysisName_ne_lockName (id : String) :
    Settings.analysisName id ≠ Settings.lockName id := by
  intro h
  have hlen := congrArg String.length h
  rw [Settings.analysisName, Settings.lockName, String.length_append, String.length_append] at hlen
  have ha : Settings.analysisSuffix.length = 14 := by decide
  have hl : Settings.lockSuffix.length = 5 := by decide
  omega

theorem lock_not_in_project (P : Place) (id : String) : ¬ P ++ [id] <+: P ++ [Settings.lockName id] := by
  intro h
  have he := List.singleton_inj.mp (List.append_cancel_left (h.eq_of_length (by simp)))
  have hlen := congrArg String.length he
  rw [Settings.lockName, String.length_append] at hlen
  have hl : Settings.lockSuffix.length = 5 := by decide
  omega

theorem keepsTo_refused {f : Failure} (ht : IsTree w.disk)
    (hD : a.settings.projectsDir.isEmpty = false)
    (hl : LaidOut (made a.settings.projectsDir w.disk) a.settings.projectsDir id)
    (h : (a.start id).run w = (.error f, w₀)) :
    ObservedCall.KeepsTo ⟨w₀.disk, none, some (.error f), false⟩ a.settings.projectsDir id w.disk := by
  rcases start_marked ht hD hl h with ⟨_, hd, _⟩ | ⟨hid, ⟨P, hP, hm⟩ | ⟨hd, _⟩⟩
  · have hstays : ∀ q, Stays a.settings.projectsDir q w.disk w₀.disk := fun q => .inl (by rw [hd])
    exact ⟨fun _ _ => hstays _, fun _ _ _ => hstays _, fun _ _ _ _ => hstays _, fun _ => hd⟩
  · refine ⟨fun _ hq => ?_, fun hP' _ _ => ?_, nofun, fun hne => absurd hid hne⟩
    · refine stays_of_made ht (hm.other ?_)
      rintro rfl
      exact hq P hP (.inr (.inl rfl))
    · obtain rfl := hP.unique hP'
      exact stays_of_made ht (hm.other fun he => analysisName_ne_lockName id
        (List.singleton_inj.mp (List.append_cancel_left he)))
  · have hstays : ∀ q, Stays a.settings.projectsDir q w.disk w₀.disk := by
      intro q
      rcases hd with hd | hd
      · exact .inl (by rw [hd])
      · exact stays_of_made ht (by rw [hd])
    exact ⟨fun _ _ => hstays _, fun _ _ _ => hstays _, fun _ _ _ _ => hstays _,
      fun hne => absurd hid hne⟩

theorem ground_of_start {lease : Lease} (hD : a.settings.projectsDir.isEmpty = false)
    (ht : IsTree w.disk)
    (hl : LaidOut (made a.settings.projectsDir w.disk) a.settings.projectsDir id)
    (h : (a.start id).run w = (.ok lease, w₀)) : Project.checkId id = .ok () ∧
      ∃ P, (made a.settings.projectsDir w.disk).FolderAt a.settings.projectsDir P ∧
        Marked (P ++ [Settings.lockName id]) (made a.settings.projectsDir w.disk) w₀.disk ∧
        ∀ plain, ProjectArea.IsSound ⟨a.settings, id, w₀.disk, P, plain⟩ := by
  have ht₁ := makeFolders_isTree a.settings.projectsDir w.disk ht
  rcases start_marked ht hD hl h with ⟨_, _, hx⟩ | ⟨hid, ⟨P, hP, hm⟩ | ⟨_, hx⟩⟩
  · exact absurd rfl (hx lease)
  · exact ⟨hid, P, hP, hm, hl.isSound ht₁ hid hP hm⟩
  · exact absurd rfl (hx lease)

theorem keepsTo_flying {lease : Lease} {e : CallKind} {f : RunState σ Unit}
    (hu : a.settings.IsUnder base) (hc : a.transport.IsConfined) (ht : IsTree w.disk)
    (hl : LaidOut (made a.settings.projectsDir w.disk) a.settings.projectsDir id)
    (h : (a.start id).run w = (.ok lease, w₀))
    (hf : RunSteps a e.operation lease (launch (e.script a id) w₀) f) :
    f.observed.KeepsTo a.settings.projectsDir id w.disk := by
  obtain ⟨hid, P, hP, hm, hg⟩ := ground_of_start hu.isEmpty_projectsDir ht hl h
  have hg := hg e.isPlain
  have hstays : ∀ {q d}, q ≠ P ++ [Settings.lockName id] → d.found? q = w₀.disk.found? q →
      Stays a.settings.projectsDir q w.disk d :=
    fun hq he => stays_of_made ht (he.trans (hm.other hq))
  have hlaunch : (launch (e.script a id) w₀).Keeps (ProjectArea.Frame _) :=
    .launch (.found hg) (CallKind.keeps hg.suits rfl hc e Iff.rfl)
  obtain ⟨ph, hd, hend⟩ := (hlaunch.runSteps hf fun e _ => logs hu rfl _ _ e).seen
  refine ⟨fun hq hown => ?_, fun hP' he hq => ?_, fun hP' hr hin hq => ?_,
    fun hne => absurd hid hne⟩
  · have hnot := hown P hP
    exact hstays (fun he => hnot (.inr (.inl he))) (hd.outside (fun hin => hnot (.inl hin))
      (fun he => hnot (.inr (.inr he))) hq)
  · obtain rfl := hP.unique hP'
    refine hstays (fun he => analysisName_ne_lockName id
      (List.singleton_inj.mp (List.append_cancel_left he))) (hd.analysis ?_ hq)
    exact (hend _ he).2
  · obtain rfl := hP.unique hP'
    have houtcome : ∃ e, f.script.outcome = some (.error e) := by
      unfold RunState.observed at hr
      cases hs : f.script <;> rw [hs] at hr <;> cases hr
      exact ⟨_, rfl⟩
    obtain ⟨e, he⟩ := houtcome
    refine hstays ?_ (hd.untouched ((hend e he).1 hr) hin hq)
    rintro rfl
    exact lock_not_in_project P id hin

def CallKind.checks (a : Analyzer σ) : CallKind → Job σ Unit
  | .analyze (some zip) => discard (a.inspectInTime zip)
  | .analyze none => pure ()
  | .clone url _ | .analyzeRepository url _ => match Repository.checkUrl url with
      | .error r => throw (.invalidInput r.message)
      | .ok _ => pure ()

theorem inspectInTime_run (a : Analyzer σ) (zip : Path) : ∃ look : Disk → Except Failure Archive.Report,
    ∀ w, (a.inspectInTime zip).run w = (look w.disk, w) := by
  unfold Analyzer.inspectInTime
  dsimp only
  split
  · exact ⟨fun _ => .error _, fun w => rfl⟩
  · refine ⟨fun d => Archive.inspect d zip a.settings.limits, fun w => ?_⟩
    rw [run_bind, run_get]
    dsimp only
    cases Archive.inspect w.disk zip a.settings.limits <;> rfl

theorem cloneJob_rejected {url : String} {r : Rejection} (h : Repository.checkUrl url = .error r)
    (id : String) (token : Option String) (w : Workspace σ) : ∃ w₁,
      (a.cloneJob id url token).run w = (.error (.invalidInput r.message), w₁) ∧ w₁.disk = w.disk := by
  unfold Analyzer.cloneJob Job.clone
  simp only [h]
  exact ⟨_, rfl, rfl⟩

theorem analyzeJob_rejected {zip : Path} {f : Failure} {w₁ : Workspace σ} (lease : Lease)
    (h : (a.inspectInTime zip).run w = (.error f, w₁)) : ∃ w₂,
      (a.analyzeJob lease (some zip)).run w = (.error f, w₂) ∧ w₂.disk = w.disk := by
  obtain ⟨look, hlook⟩ := inspectInTime_run a zip
  rw [hlook] at h
  have hf : look w.disk = .error f := congrArg Prod.fst h
  rw [Analyzer.analyzeJob, run_bind, Job.enter, Job.notice_run]
  dsimp only
  rw [run_bind, Analyzer.materialize]
  dsimp only
  rw [run_bind, hlook]
  dsimp only
  rw [hf]
  exact ⟨_, rfl, rfl⟩

theorem CallKind.checkUrl_rejected {url : String} (token : Option String) {f : Failure}
    {w₁ : Workspace σ} (h : ((CallKind.clone url token).checks a).run w = (.error f, w₁)) :
    ∃ r, Repository.checkUrl url = .error r ∧ Failure.invalidInput r.message = f := by
  unfold checks at h
  dsimp only at h
  rcases hurl : Repository.checkUrl url with r | _
  · rw [hurl] at h
    cases h
    exact ⟨r, rfl, rfl⟩
  · rw [hurl] at h
    cases h

theorem CallKind.rejected_run {e : CallKind} {f : Failure} {w₁ : Workspace σ} (lease : Lease)
    (h : (e.checks a).run w = (.error f, w₁)) : ∃ w₂,
      ((e.script a lease.id).run a.isBusy lease).run w = (.error f, w₂) ∧ w₂.disk = w.disk := by
  cases e with
  | analyze zip =>
      cases zip with
      | none => cases h
      | some zip =>
          have hlook : (a.inspectInTime zip).run w = (.error f, w₁) := by
            rw [checks, run_discard] at h
            rcases hl : (a.inspectInTime zip).run w with ⟨_ | _, w'⟩ <;> rw [hl] at h <;> cases h
            rfl
          obtain ⟨w₂, hrun, hd⟩ := analyzeJob_rejected lease hlook
          rw [script, Script.run_discard, Analyzer.run_analyzeScript, run_discard, hrun]
          exact ⟨w₂, rfl, hd⟩
  | clone url token =>
      obtain ⟨r, hr, rfl⟩ := checkUrl_rejected token h
      obtain ⟨w₂, hrun, hd⟩ := cloneJob_rejected (a := a) hr lease.id token w
      rw [script, Script.run_discard, Analyzer.run_cloneScript, run_discard, hrun]
      exact ⟨w₂, rfl, hd⟩
  | analyzeRepository url token =>
      obtain ⟨r, hr, rfl⟩ := checkUrl_rejected (a := a) token h
      obtain ⟨w₂, hrun, hd⟩ := cloneJob_rejected (a := a) hr lease.id token w
      rw [script, Script.run_bind, Script.run_discard, Analyzer.run_cloneScript, run_bind,
        run_discard, hrun]
      exact ⟨w₂, rfl, hd⟩

theorem run_rejected {lease : Lease} {e : CallKind} {f : Failure} {w₁ w' : Workspace σ}
    {x : Except Failure Unit} (hstart : (a.start id).run w = (.ok lease, w₀))
    (h : (e.checks a).run w₀ = (.error f, w₁)) (hrun : (e.run a id).run w = (x, w')) :
    x = .error f ∧
      w'.disk = ((Store.recordFailure a.settings e.operation id f).run w₀.disk).2 := by
  obtain rfl := a.start_id hstart
  obtain ⟨w₂, hw₂, hd⟩ := e.rejected_run lease h
  obtain ⟨ns, hrep⟩ := a.report_self e.operation lease.id f w₂
  rw [e.run_eq, Analyzer.leased_run hstart, hw₂] at hrun
  dsimp only at hrun
  rw [hrep] at hrun
  cases hrun
  exact ⟨rfl, by rw [Analyzer.finished_disk, hd]⟩

/-- Whatever a call is asked to do, and in whatever state it is seen, it keeps to what is the
project's own. What the call does if nobody comes in between is among what is seen; and if the checks
reject it, it fails with what they say, and the folder of the project is as it was. -/
theorem calls_keep_to_own (hu : a.settings.IsUnder base) (hc : a.transport.IsConfined)
    (ht : IsTree w.disk)
    (hl : LaidOut (made a.settings.projectsDir w.disk) a.settings.projectsDir id) (e : CallKind) :
    (∀ {x w'}, (e.run a id).run w = (x, w') →
      ∃ s, e.Shows a id w s ∧ s.disk = w'.disk ∧ s.outcome = some x) ∧
    (∀ {s}, e.Shows a id w s → s.KeepsTo a.settings.projectsDir id w.disk) ∧
    ∀ {lease w₀ f w₁ x w'}, (a.start id).run w = (.ok lease, w₀) →
      (e.checks a).run w₀ = (.error f, w₁) → (e.run a id).run w = (x, w') → x = .error f ∧
        ∀ {P q}, (made a.settings.projectsDir w.disk).FolderAt a.settings.projectsDir P →
          P ++ [id] <+: q → Store.logPlace a.settings w₀.disk ≠ some q →
            Stays a.settings.projectsDir q w.disk w'.disk := by
  refine ⟨fun {x w'} h => ?_, fun {s} h => ?_, fun {lease w₀ f w₁ x w'} h hf hrun => ?_⟩
  · rcases hstart : (a.start id).run w with ⟨f | lease, w₀⟩
    · rw [e.run_eq, Analyzer.leased, run_bind, hstart] at h
      cases h
      exact ⟨_, .refused hstart, rfl, rfl⟩
    · obtain rfl := a.start_id hstart
      rw [e.run_eq] at h
      obtain ⟨f, hf, _, ho, ⟨hd, _⟩, _⟩ := RunSteps.leased (e.orderly a lease.id) hstart h
      exact ⟨_, .running hstart hf, hd, ho⟩
  · cases h with
    | refused h => exact keepsTo_refused ht hu.isEmpty_projectsDir hl h
    | running h hf => exact keepsTo_flying hu hc ht hl h hf
  · obtain ⟨hx, hd⟩ := run_rejected h hf hrun
    refine ⟨hx, fun {P q} hP hin hlog => ?_⟩
    obtain ⟨_, P', hP', hm, hg⟩ := ground_of_start hu.isEmpty_projectsDir ht hl h
    obtain rfl := hP.unique hP'
    have hframe := logs hu rfl e.operation id f (ProjectArea.Frame.found (hg True))
    rw [hd]
    refine stays_of_made ht ((hframe.untouched rfl hin hlog).trans (hm.other ?_))
    rintro rfl
    exact lock_not_in_project P id hin

def misdirected : Disk :=
  ⟨[(["projects"], ⟨.folder, 0⟩),
    (["projects", "p_analysis.json"], ⟨.file 0 "x".toUTF8 false, 0⟩),
    (["DEBUG_ERROR.txt"], ⟨.link (.ofText "projects/p_analysis.json"), 0⟩)], [], 0, 1⟩

def roundabout : Disk :=
  ⟨[(["projects"], ⟨.folder, 0⟩), (["projects", "p"], ⟨.folder, 0⟩),
    (["projects", "p", "sub"], ⟨.folder, 0⟩), (["other"], ⟨.folder, 0⟩), (["other", "x"], ⟨.folder, 0⟩),
    (["other", "x", "y"], ⟨.folder, 0⟩), (["other", "x", "y", "z"], ⟨.folder, 0⟩),
    (["other", "projects"], ⟨.folder, 0⟩), (["other", "projects", "p"], ⟨.folder, 0⟩),
    (["other", "projects", "p", "k"], ⟨.file 0 "x".toUTF8 false, 0⟩)], [], 0, 1⟩

def straying : Repository.Transport Unit := fun r d m =>
  (.error (.ofText "no"), if d.isFolder r.target then d
    else d.put ["projects", "p", "sub"] (.link (.ofText "/other/x/y/z")), m)

def scribe (base : Path) : Analyzer Unit := ⟨({} : Settings).withBase base, "h", straying, false⟩

def overProject : Path := .ofText "/projects/p/sub/../../.."

theorem isConfined_straying : straying.IsConfined := by
  intro r d m T ht hT
  have hsame : (straying r d m).2.1 = d := if_pos (isFolder_iff.mpr ⟨T, hT⟩)
  rw [hsame]
  exact ⟨ht, rfl, hT.folder, fun _ => rfl⟩

theorem isTree_misdirected : IsTree misdirected := by decide

theorem isTree_roundabout : IsTree roundabout := by decide

theorem misdirected_outside {q : Place} {e : Entry} (h : misdirected.found? q = some e) :
    ¬ ["projects", "p"] <+: q ∧ ∀ t, ["projects"] <+: q → e ≠ .link t := by
  rcases record_of_found? h with ⟨rfl, _⟩ | ⟨τ, hr⟩
  · exact ⟨by decide, fun _ hp => absurd hp (by decide)⟩
  · simp only [misdirected, List.mem_cons, List.not_mem_nil, or_false, Prod.mk.injEq,
      Record.mk.injEq] at hr
    rcases hr with ⟨rfl, rfl, _⟩ | ⟨rfl, rfl, _⟩ | ⟨rfl, rfl, _⟩
    · exact ⟨by decide, nofun⟩
    · exact ⟨by decide, nofun⟩
    · exact ⟨by decide, fun _ hp => absurd hp (by decide)⟩

theorem roundabout_no_link (q : Place) (t : Path) : roundabout.found? q ≠ some (.link t) := by
  intro h
  obtain ⟨τ, hr⟩ := record_of_link h
  simp [roundabout] at hr

theorem made_of_folder {p : Path} (h : d.isFolder p = true) : made p d = d := by
  rw [made, makeFolders_of_isFolder h]

theorem folderAt_misdirected :
    misdirected.FolderAt (scribe Path.top).settings.projectsDir ["projects"] := ⟨0, rfl⟩

theorem laidOut_misdirected :
    LaidOut (made (scribe Path.top).settings.projectsDir misdirected)
      (scribe Path.top).settings.projectsDir "p" := by
  rw [made_of_folder (isFolder_iff.mpr ⟨_, folderAt_misdirected⟩)]
  constructor
  · intro P q t hP hq h
    obtain rfl := folderAt_misdirected.unique hP
    exact (misdirected_outside h).2 t hq rfl
  · intro P d' hP hd'
    obtain rfl := folderAt_misdirected.unique hP
    exact hP.carry hd'.base fun hq _ =>
      (hd'.other fun hin => (misdirected_outside hq).1 hin.1).trans hq

theorem isUnder_scribe (base : Path) : (scribe base).settings.IsUnder base := ⟨_, _, _, rfl⟩

def missing : Except Failure Unit × Workspace Unit :=
  ((CallKind.analyze none).run (scribe Path.top) "p").run (.ofDisk misdirected [] ())

theorem missing_fails : ∃ f, missing.1 = .error f := by
  have h : missing.1.toOption.isSome = false := by decide +kernel
  rcases hm : missing.1 with f | _
  · exact ⟨f, rfl⟩
  · rw [hm] at h
    cases h

theorem calls_keep_to_own_misdirected :
    (scribe Path.top).settings.IsUnder Path.top ∧ straying.IsConfined ∧ IsTree misdirected ∧
    LaidOut (made (scribe Path.top).settings.projectsDir misdirected)
      (scribe Path.top).settings.projectsDir "p" ∧
    ∃ f s, (CallKind.analyze none).Shows (scribe Path.top) "p" (.ofDisk misdirected [] ()) s ∧
      s.outcome = some (.error f) ∧
      s.KeepsTo (scribe Path.top).settings.projectsDir "p" misdirected := by
  have h := calls_keep_to_own (w := .ofDisk misdirected [] ()) (isUnder_scribe Path.top)
    isConfined_straying isTree_misdirected laidOut_misdirected (.analyze none)
  obtain ⟨s, hs, _, ho⟩ := h.1 (Prod.mk.eta (p := missing)).symm
  obtain ⟨f, hf⟩ := missing_fails
  exact ⟨isUnder_scribe _, isConfined_straying, isTree_misdirected, laidOut_misdirected, f, s, hs,
    by rw [ho, hf], h.2.1 hs⟩

def unfetched : Workspace Unit :=
  (((CallKind.clone "https://example.com/a" none).run (scribe overProject) "p").run
    (.ofDisk roundabout [] ())).2

theorem calls_change_more :
    ((scribe Path.top).settings.IsUnder Path.top ∧ straying.IsConfined ∧ IsTree misdirected ∧
      LaidOut (made (scribe Path.top).settings.projectsDir misdirected)
        (scribe Path.top).settings.projectsDir "p" ∧
      (∃ f, missing.1 = .error f) ∧
      (missing.2.disk.get? ["projects", "p_analysis.json"]).map (·.size) ≠
        (misdirected.get? ["projects", "p_analysis.json"]).map (·.size)) ∧
    (scribe overProject).settings.IsUnder overProject ∧ IsTree roundabout ∧
      roundabout.FolderAt (scribe overProject).settings.projectsDir ["projects"] ∧
      (∀ q t, roundabout.found? q ≠ some (.link t)) ∧
      (roundabout.get? ["other", "projects", "p", "k"]).isSome = true ∧
      (unfetched.disk.get? ["other", "projects", "p", "k"]).isSome = false := by
  refine ⟨⟨isUnder_scribe _, isConfined_straying, isTree_misdirected, laidOut_misdirected,
    missing_fails, ?_⟩, isUnder_scribe _, isTree_roundabout, ⟨0, rfl⟩, roundabout_no_link, ?_, ?_⟩
  · decide +kernel
  · decide +kernel
  · decide +kernel

end Run

end SourceAtlas
