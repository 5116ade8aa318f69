import SourceAtlas.Proofs.Run.Frame

namespace SourceAtlas.Run

open Disk Work Repository

variable {σ α β : Type} {g : ProjectArea} {I : Regime} {ph : Phase} {log : Option Place} {d : Disk}

theorem Phase.allows_false : ph.Allows false ↔ ph ≠ .saved := by
  simp [Phase.Allows]

namespace Regime.Suits

variable (hI : I.Suits g)

include hI

theorem projectAt (h : I log .ready d) : d.FolderAt (g.settings.projectDir g.id) g.project :=
  (hI.footing h).projectAt hI.valid ((hI.footing h).ready rfl)

theorem reset (h : I log ph d) (hph : ph ≠ .saved) :
    (∃ d', (Script.reset (g.settings.projectDir g.id)).run d = (.ok (), d') ∧ I log .ready d') ∨
    ∃ f, (Script.reset (g.settings.projectDir g.id)).run d = (.error f, d) := by
  have hfoot := hI.footing h
  have hrun := emptyFolder_inside hfoot.tree hfoot.folderAt
    (Settings.id_isEntryName hI.valid) hfoot.project_no_link
  rw [← Settings.projectDir_eq _ hI.valid] at hrun
  rw [Script.reset, toTask, run_bind, run_get]
  dsimp only
  rw [run_edit]
  rcases hrun with ⟨d', hrun, hin⟩ | ⟨f, hrun⟩
  · rw [hrun]
    exact .inl ⟨d', rfl, hI.inside h hph hin⟩
  · rw [hrun]
    exact .inr ⟨_, rfl⟩

theorem makeTarget (h : I log ph d) (hph : ph ≠ .saved) :
    (∃ d', (makeFolders (g.settings.projectDir g.id)).run d = (.ok (), d') ∧ I log .ready d') ∨
    ∃ f, (makeFolders (g.settings.projectDir g.id)).run d = (.error f, d) := by
  rw [Settings.projectDir_eq _ hI.valid]
  have hfoot := hI.footing h
  have hrun := makeFolders_inside hfoot.tree hfoot.folderAt
    (Settings.id_isEntryName hI.valid) hfoot.project_no_link
  rcases hrun with ⟨d', hrun, hin⟩ | ⟨f, hrun⟩
  · exact .inl ⟨d', hrun, hI.inside h hph hin⟩
  · exact .inr ⟨f, hrun⟩

theorem extractEntry (h : I log .ready d) (hp : g.plain) (archive : Path) (maxBytes : Nat)
    (b : ByteArray) (t : Archive.Tally) (e : Archive.Entry) : I log .ready
      ((Archive.extractEntry archive (g.settings.projectDir g.id) maxBytes b t e).run d).2 := by
  have hT := hI.projectAt h
  have hfoot := hI.footing h
  have hsealed : Archive.Sealed d (g.settings.projectDir g.id) g.project :=
    Archive.sealed_of_descends hfoot.tree hT fun hq hl => absurd hq ((hfoot.links hl).2.2 hp)
  refine hI.inside h nofun
    (.grownIn hT.folder ?_ (Archive.extractEntry_isTree _ _ _ _ _ _ d hfoot.tree))
  exact Archive.extractEntry_grownIn hfoot.tree hT hsealed archive maxBytes b t e d (.refl ..)

theorem removeDependencies (h : I log .ready d) : I log .ready
    ((Archive.removeDependencies (g.settings.projectDir g.id)).run d).2 :=
  hI.inside h nofun (Archive.removeDependencies_inside (hI.footing h).tree (hI.projectAt h))

theorem save (h : I log ph d) {r : Analysis} (hr : r.projectId = g.id) :
    (∃ p d', (Store.save g.settings r).run d = (.ok p, d') ∧ I log .saved d') ∨
      ∃ f, (Store.save g.settings r).run d = (.error f, d) := by
  have hfoot := hI.footing h
  have hP := hfoot.folderAt
  have hsave := Store.save_into hfoot.tree hP (r := r) (hr ▸ hI.valid)
  dsimp only at hsave
  rw [hr] at hsave
  rw [hsave]
  split
  · exact .inr ⟨_, rfl⟩
  · next hfree =>
      refine .inl ⟨_, _, rfl, hI.saved h (.newFile hfoot.tree (by simp [ProjectArea.analysis]) ?_
        (fun {e} he => ?_) _ _)⟩
      · rw [ProjectArea.analysis, List.dropLast_concat]
        exact hP.folder
      · cases e with
        | folder => exact absurd he hfree
        | file i b x => exact ⟨i, b, x, rfl⟩
        | link t => exact absurd rfl (hfoot.links he).2.1

end Regime.Suits

abbrev Chain.Stays (I : Regime) (post : β → Phase → Prop) : Chain β → Phase → Prop :=
  Chain.Leads I (· ≠ .saved) (Either post (· ≠ .saved))

abbrev IsReady (_ : β) (ph : Phase) : Prop := ph = .ready

theorem unpacking_stays (hI : I.Suits g) (hp : g.plain) (archive : Path) (maxBytes : Nat) :
    (Archive.unpacking archive (g.settings.projectDir g.id) maxBytes).Stays I IsReady .touched := by
  have hmake : ∀ d, ((do
      if !(← get).exists? archive then throw (.archiveMissing archive)
      Work.edit (Archive.blame archive) (makeFolders (g.settings.projectDir g.id)) :
        Task Unit).run d) = if d.exists? archive = true then
          (Work.edit (Archive.blame archive) (makeFolders (g.settings.projectDir g.id))).run d
        else (.error (.archiveMissing archive), d) := by
    intro d
    rw [run_bind, run_get]
    dsimp only
    cases d.exists? archive <;> rfl
  unfold Archive.unpacking
  refine .andThen (.task nofun (by decide : Phase.ready ≠ .saved) nofun fun {log d} hd => ?_) fun _ =>
    .andThen (.steady nofun nofun fun {log d} hd => ?_) fun b =>
    .andThen (.steady nofun nofun fun {log d} hd => ?_) fun es =>
    .andThen (.foldlM (fun t e => .steady nofun nofun fun hd =>
      hI.extractEntry hd hp _ _ _ _ _) es _) fun t =>
    .andThen (.steady nofun nofun fun {log d} hd => ?_) fun _ => rfl
  · rw [hmake]
    split
    · rw [run_edit]
      rcases hI.makeTarget hd nofun with ⟨d', hrun, hd'⟩ | ⟨f, hrun⟩
      · rw [hrun]
        exact .inl ⟨(), d', rfl, hd'⟩
      · rw [hrun]
        exact .inr ⟨_, rfl⟩
    · exact .inr ⟨_, rfl⟩
  · rw [run_query]
    cases d.readBytes archive <;> exact hd
  · rw [run_ofExcept]
    exact hd
  · have hremove := hI.removeDependencies hd
    rw [run_discard, run_edit]
    rcases hr : (Archive.removeDependencies (g.settings.projectDir g.id)).run d with ⟨_ | _, d'⟩
    all_goals
      rw [hr] at hremove
      exact hremove

namespace Script

variable {post : α → Phase → Prop} {order : CloneOrder}

theorem keeps_reset (hI : I.Suits g) (hph : ph ≠ .saved) :
    (awaitOne .reset (Chain.ofTask (reset (g.settings.projectDir g.id))) false [] :
      Script σ Unit).Keeps I IsReady ph :=
  .awaitAll (.task trivial trivial (Phase.allows_false.mpr hph) fun hd => by
    rcases hI.reset hd hph with ⟨d', hrun, hd'⟩ | hf
    · exact .inl ⟨(), d', hrun, hd'⟩
    · exact .inr hf)

theorem keeps_giveUp (hI : I.Suits g) (ht : order.target = g.settings.projectDir g.id)
    (hph : ph ≠ .saved) (failure : CloneFailure) (details : String) :
    (giveUp order failure details : Script σ α).Keeps I post ph := by
  have hreset : (awaitOne .reset (Chain.attempt (reset order.target)) false [] :
      Script σ (Except Failure Unit)).Keeps I (fun _ ph => ph ≠ .saved) ph := by
    refine .awaitAll ?_
    intro log d hd
    dsimp only
    rw [ht]
    rcases hI.reset hd hph with ⟨d', hrun, hd'⟩ | ⟨f, hrun⟩
    · rw [hrun]
      exact ⟨.ready, hd', trivial, nofun⟩
    · rw [hrun]
      exact ⟨ph, hd, trivial, hph⟩
  refine .bind (.notice (.bind (hreset.mono fun r ph hph => ?_)))
  cases r with
  | ok _ => exact Phase.allows_false.mpr hph
  | error e => exact .bind (.notice (Phase.allows_false.mpr hph))

theorem keeps_request {transport : Transport σ} (hI : I.Suits g) (hfree : ¬ g.plain)
    (ht : order.target = g.settings.projectDir g.id) (hc : transport.IsConfined) (timeout : Nat) :
    (lift (Job.request transport order timeout)).Keeps I IsReady .ready := by
  intro w hd
  have hT := hI.projectAt hd
  rw [← ht] at hT
  refine ⟨.ready, ?_, rfl⟩
  refine hI.within hd nofun ?_ fun hp => absurd hp hfree
  exact hc ⟨authenticated order.token order.url, order.target, timeout, w.waits⟩ w.disk w.memory
    g.project (hI.footing hd).tree hT

theorem keeps_attempts {transport : Transport σ} (hI : I.Suits g) (hfree : ¬ g.plain)
    (ht : order.target = g.settings.projectDir g.id) (hc : transport.IsConfined)
    (policy : RetryPolicy) (timeout left attempt : Nat) (hph : ph ≠ .saved) :
    (attempts transport policy order timeout left attempt).Keeps I IsReady ph := by
  have hstart : (awaitOne .reset (Chain.ofTask (reset order.target)) false [] :
      Script σ Unit).Keeps I IsReady ph := ht ▸ keeps_reset hI hph
  have hrequest := keeps_request hI hfree ht hc timeout
  have hgive : ∀ failure details,
      (giveUp order failure details : Script σ CloneReport).Keeps I IsReady .ready :=
    keeps_giveUp hI ht nofun
  -- on the attempts that may follow: each begins with the empty folder of the phase
  induction left, attempt using attempts.induct generalizing ph with
  | case1 left attempt ih =>
      rw [attempts]
      refine .bind (hstart.mono fun _ ph hr => ?_)
      subst hr
      refine .bind (hrequest.mono fun r ph hr => ?_)
      subst hr
      cases r with
      | ok _ => exact .bind (.notice rfl)
      | error e =>
          refine .bind (.notice ?_)
          cases left with
          | zero => exact hgive _ _
          | succ left =>
              dsimp only
              split
              · refine .bind (.notice (.bind (.lift fun w => ⟨(), _, rfl, rfl, ?_⟩)))
                exact ih nofun (ht ▸ keeps_reset hI nofun)
              · exact hgive _ _

end Script

namespace Analyzer

variable {a : Analyzer σ}

theorem keeps_cloneScript (hI : I.Suits g) (hfree : ¬ g.plain) (hs : a.settings = g.settings)
    (hc : a.transport.IsConfined) (url : String) (token : Option String) :
    (a.cloneScript g.id url token).Keeps I IsReady .untouched := by
  refine .bind (.notice (.bind ?_))
  unfold Script.clone
  rw [hs]
  split
  · exact ⟨fun _ => rfl, nofun⟩
  · refine .bind (.notice ?_)
    exact (Script.keeps_attempts hI hfree (by rfl) hc _ _ _ _ (by decide)).mono fun _ _ hr => hr

theorem keeps_begin (hI : I.Suits g) (hph : ph ≠ .saved) (id text : String) :
    (Script.lift (Job.notice id text) : Script σ Unit).Keeps I (fun _ x => x = .touched) ph :=
  fun _ hd => ⟨.touched, hI.touch hd hph, rfl⟩

theorem keeps_rootScript (hph : ph ≠ .saved) (id : String) :
    (a.rootScript id).Keeps I (fun _ x => x ≠ .saved) ph := by
  refine .bind (.get fun w => ?_)
  dsimp only
  split
  · exact .bind (.notice hph)
  · exact hph

theorem keeps_lookScript (zip : Path) :
    (a.lookScript zip).Keeps I (fun _ x => x = .untouched) .untouched := by
  refine .awaitIdle (Chain.isIdle_ofQuery _) (fun m _ => ?_) ?_ fun _ => rfl
  all_goals exact ⟨fun _ => rfl, nofun⟩

theorem whole_allowed (hph : ph ≠ .saved) : ∀ m ∈ [a.whole], ph.Allows m.rejects := by
  intro m hm
  rw [List.mem_singleton.mp hm]
  exact Phase.allows_false.mpr hph

theorem keeps_materializeScript (hI : I.Suits g) (hs : a.settings = g.settings) {zip : Option Path}
    (hph : ph ≠ .saved) (hzip : zip.isSome → g.plain ∧ ph = .untouched) :
    (a.materializeScript g.id zip).Keeps I (fun _ x => x ≠ .saved) ph := by
  unfold materializeScript
  dsimp only
  cases zip with
  | some zip =>
      obtain ⟨hp, rfl⟩ := hzip rfl
      refine .bind ((keeps_lookScript zip).mono fun r ph hr => ?_)
      subst hr
      refine .bind ((keeps_begin hI (by decide) _ _).mono fun _ ph hr => ?_)
      subst hr
      rw [hs]
      refine .bind (.discard (.awaitOne (whole_allowed nofun)
        ((unpacking_stays hI hp zip _).mono (fun ph hph => whole_allowed hph) fun r ph hr => ?_)))
      cases r with
      | ok t =>
          obtain rfl : ph = .ready := hr
          have hready : Phase.ready ≠ .saved := nofun
          exact keeps_rootScript hready _
      | error e => exact Phase.allows_false.mpr hr
  | none =>
      refine .bind (.get fun w => ?_)
      split
      · exact Phase.allows_false.mpr hph
      · exact keeps_rootScript hph _

theorem keeps_treeScript (hph : ph ≠ .saved) (id : String) (root : Path) :
    (a.treeScript id root).Keeps I (fun _ x => x ≠ .saved) ph :=
  .bind (.notice (.awaitIdle (Chain.isIdle_ofQuery _) (whole_allowed hph)
    (Phase.allows_false.mpr hph) fun _ => hph))

theorem notices_run (id : String) (texts : List String) (w : Workspace σ) :
    ∃ w', (texts.forM (Job.notice id) : Job σ PUnit).run w = (.ok ⟨⟩, w') ∧ w'.disk = w.disk := by
  induction texts generalizing w with
  | nil => exact ⟨w, rfl, rfl⟩
  | cons t ts ih =>
      obtain ⟨w', hrun, hd⟩ := ih { w with notices := w.notices ++ [⟨id, t⟩] }
      exact ⟨w', hrun, hd⟩

theorem keeps_gatherScript (hph : ph ≠ .saved) (id : String) (root : Path) :
    (a.gatherScript id root).Keeps I (fun _ x => x ≠ .saved) ph := by
  refine .bind (.notice (.bind (.notice (.bind (Script.Keeps.await.mpr ⟨whole_allowed hph,
    .inr ⟨Chain.isIdle_ofQuery _, Chain.isIdle_ofQuery _, Phase.allows_false.mpr hph, ?_⟩⟩)))))
  intro x c
  refine .bind (.lift fun w => ?_)
  obtain ⟨w', hrun, hd⟩ := notices_run id (warnings x c a.settings.limits) w
  exact ⟨_, w', hrun, hd, hph⟩

theorem keeps_save (hI : I.Suits g) (hs : a.settings = g.settings) (hph : ph ≠ .saved)
    {r : Analysis} (hr : r.projectId = g.id) :
    (Script.awaitOne .save (.ofTask (Store.save a.settings r).toTask) false [] :
      Script σ Path).Keeps I (fun _ x => x = .saved) ph := by
  refine .awaitAll (.task trivial trivial (Phase.allows_false.mpr hph) fun {log d} hd => ?_)
  rw [toTask, run_bind, run_get, hs]
  dsimp only
  rcases hI.save hd hr with ⟨p, d', hrun, hd'⟩ | ⟨f, hrun⟩
  · rw [hrun]
    exact .inl ⟨p, d', rfl, hd'⟩
  · rw [hrun]
    exact .inr ⟨_, rfl⟩

theorem keeps_analyzeScript (hI : I.Suits g) (hs : a.settings = g.settings) {zip : Option Path}
    (hph : ph ≠ .saved) (hzip : zip.isSome → g.plain ∧ ph = .untouched) :
    (a.analyzeScript g.id zip).Keeps I (fun _ _ => True) ph := by
  refine .bind (.notice (.bind ((keeps_materializeScript hI hs hph hzip).mono fun root ph hph => ?_)))
  refine .bind ((keeps_treeScript hph _ _).mono fun tree ph hph => ?_)
  refine .bind ((keeps_gatherScript hph _ _).mono fun x ph hph => ?_)
  refine .bind (.notice (.bind (.get fun w => ?_)))
  refine .bind ((keeps_save hI hs hph rfl).mono fun _ ph _ => ?_)
  exact .bind (.notice (.bind (.notice trivial)))

end Analyzer

def CallKind.isPlain : CallKind → Prop
  | .analyze _ => True
  | _ => False

theorem CallKind.keeps {a : Analyzer σ} (hI : I.Suits g) (hs : a.settings = g.settings)
    (hc : a.transport.IsConfined) (e : CallKind) (he : g.plain ↔ e.isPlain) :
    (e.script a g.id).Keeps I (fun _ _ => True) .untouched := by
  cases e with
  | analyze zip =>
      have hp : g.plain := he.mpr trivial
      exact .discard (Analyzer.keeps_analyzeScript hI hs nofun fun _ => ⟨hp, rfl⟩)
  | clone url token =>
      exact .discard ((Analyzer.keeps_cloneScript hI he.mp hs hc url token).mono
        fun _ _ _ => trivial)
  | analyzeRepository url token =>
      refine .bind (.discard ((Analyzer.keeps_cloneScript hI he.mp hs hc url token).mono
        fun _ ph hr => ?_))
      subst hr
      exact .discard (Analyzer.keeps_analyzeScript hI hs nofun nofun)

end SourceAtlas.Run
