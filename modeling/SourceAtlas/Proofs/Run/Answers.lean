import SourceAtlas.Proofs.Run.Analyze
import SourceAtlas.Proofs.Store.Saves

namespace SourceAtlas.Run

open Disk Work

variable {σ α β : Type}

def Maps (j : Job σ α) (d : Disk) (x : α) (d' : Disk) : Prop :=
  ∀ w, w.disk = d → ∃ w', j.run w = (.ok x, w') ∧ w'.disk = d'

namespace Maps

variable {d d' d'' : Disk} {x : α}

theorem pure {x : α} {d : Disk} : Maps (Pure.pure x : Job σ α) d x d := fun w h => ⟨w, rfl, h⟩

theorem bind {j : Job σ α} {f : α → Job σ β} {y : β} (h : Maps j d x d') (hf : Maps (f x) d' y d'') :
    Maps (j >>= f) d y d'' := by
  intro w hw
  obtain ⟨w', hj, hw'⟩ := h w hw
  rw [run_bind, hj]
  exact hf w' hw'

theorem get {f : Workspace σ → Job σ β} {y : β} (h : ∀ w, w.disk = d → Maps (f w) d y d') :
    Maps (MonadState.get >>= f) d y d' := by
  intro w hw
  rw [run_bind]
  exact h w hw w hw

theorem notice {id text : String} : Maps (Job.notice id text : Job σ Unit) d ⟨⟩ d :=
  fun _ h => ⟨_, rfl, h⟩

theorem notices {id : String} {texts : List String} :
    Maps (texts.forM (Job.notice id) : Job σ Unit) d ⟨⟩ d := by
  induction texts with
  | nil => exact .pure
  | cons t ts ih => exact .bind .notice ih

theorem task {t : Task α} (h : t.run d = (.ok x, d')) : Maps (Job.ofTask t : Job σ α) d x d' := by
  rintro w rfl
  rw [Job.ofTask_run, h]
  exact ⟨_, rfl, rfl⟩

end Maps

namespace Analyzer

variable {a : Analyzer σ} {id : String} {lease : Lease} {d d' : Disk} {root : Path}

theorem materialize_maps (h : d.isFolder (a.settings.projectDir id) = true) :
    Maps (a.materialize id none) d (Project.effectiveRoot d (a.settings.projectDir id)) d := by
  unfold materialize
  dsimp only
  refine .get fun w hw => ?_
  rw [if_neg (by simp [hw, h])]
  refine .get fun w hw => ?_
  rw [hw]
  split
  · exact .bind .notice .pure
  · exact .pure

theorem buildTree_maps {tree : List Project.FileNode}
    (htime : a.isOverdue a.settings.limits.analysisTimeout = false)
    (h : Project.fileTree d a.settings.limits root = .ok tree) :
    Maps (a.buildTree lease root) d tree d := by
  unfold buildTree
  refine .bind .notice ?_
  dsimp only
  rw [if_neg (by simp [htime])]
  refine .get fun w hw => ?_
  rw [hw, h]
  exact .pure

theorem extract_maps (id : String) (d : Disk) (root : Path) :
    Maps (a.extract id root) d ((Graph.ofProject d root a.settings.limits).graph,
      (ComponentScan.ofProject d root a.settings.limits).components) d := by
  refine .bind .notice (.bind .notice (.get fun w hw => ?_))
  rw [hw]
  exact .bind .notices .pure

def resultOf (a : Analyzer σ) (id : String) (d : Disk) (tree : List Project.FileNode) : Analysis :=
  let root := Project.effectiveRoot d (a.settings.projectDir id)
  ⟨id, .ofNanos d.now, tree, (Graph.ofProject d root a.settings.limits).graph,
    (ComponentScan.ofProject d root a.settings.limits).components⟩

theorem analyzeJob_maps {tree : List Project.FileNode} {path : Path}
    (htime : a.isOverdue a.settings.limits.analysisTimeout = false)
    (hf : d.isFolder (a.settings.projectDir lease.id) = true)
    (htree : Project.fileTree d a.settings.limits
      (Project.effectiveRoot d (a.settings.projectDir lease.id)) = .ok tree)
    (hsave : (Store.save a.settings (a.resultOf lease.id d tree)).run d = (.ok path, d')) :
    Maps (a.analyzeJob lease none) d (a.resultOf lease.id d tree) d' := by
  refine .bind .notice (.bind (materialize_maps hf) (.bind (buildTree_maps htime htree)
    (.bind (extract_maps _ _ _) (.bind .notice (.get fun w hw => ?_)))))
  rw [hw]
  have htask : (Store.save a.settings (a.resultOf lease.id d tree)).toTask.run d = (.ok path, d') := by
    rw [toTask, run_bind, run_get]
    dsimp only
    rw [hsave]
    rfl
  exact .bind (.task htask) (.bind .notice (.bind .notice .pure))

theorem analyze_run {w : Workspace σ} {d d' : Disk} {lease : Lease} {tree : List Project.FileNode}
    {path : Path} (hid : Project.checkId id = .ok ())
    (hlease : (Leases.acquire a.settings.projectsDir a.holder id w.leases).run w.disk =
      (.ok (some lease), d))
    (htime : a.isOverdue a.settings.limits.analysisTimeout = false)
    (hf : d.isFolder (a.settings.projectDir id) = true)
    (htree : Project.fileTree d a.settings.limits
      (Project.effectiveRoot d (a.settings.projectDir id)) = .ok tree)
    (hsave : (Store.save a.settings (a.resultOf id d tree)).run d = (.ok path, d')) :
    ∃ w', (a.analyze id none).run w = (.ok (a.resultOf id d tree), w') ∧ w'.disk = d' := by
  have hstart : ∃ w', (a.start id).run w = (.ok lease, w') ∧ w'.disk = d := by
    unfold start
    rw [hid]
    dsimp only
    rw [run_bind, run_get]
    dsimp only
    rw [run_bind, Job.ofTask_run, run_edit, hlease]
    exact ⟨_, rfl, rfl⟩
  obtain ⟨w₁, hstart, hd₁⟩ := hstart
  obtain rfl := Leases.acquire_id hlease
  obtain ⟨w₂, hjob, hd₂⟩ := analyzeJob_maps htime hf htree hsave w₁ hd₁
  rw [analyze, leased, run_bind, hstart]
  dsimp only
  rw [run_bind, run_get]
  dsimp only
  rw [hjob]
  dsimp only
  refine ⟨_, rfl, ?_⟩
  dsimp only
  split <;> exact hd₂

theorem analyze_answers {w : Workspace σ} {P R : Place} (hid : Project.checkId id = .ok ())
    (hlease : (Leases.acquire a.settings.projectsDir a.holder id w.leases).run w.disk =
      (.ok (some lease), d))
    (htime : a.isOverdue a.settings.limits.analysisTimeout = false) (ht : IsTree d)
    (hP : d.FolderAt a.settings.projectsDir P)
    (hfree : d.found? (P ++ [Settings.analysisName id]) ≠ some .folder)
    (hf : d.isFolder (a.settings.projectDir id) = true)
    (hR : d.FolderAt (Project.effectiveRoot d (a.settings.projectDir id)) R) :
    ∃ r w', (a.analyze id none).run w = (.ok r, w') ∧
      r.IsOf d a.settings.limits (Project.effectiveRoot d (a.settings.projectDir id)) ∧
      r.projectId = id ∧ r.timestamp = .ofNanos d.now ∧
      w'.disk = d.newFile (P ++ [Settings.analysisName id]) (Store.bytesOf r) false := by
  obtain ⟨tree, htree⟩ : ∃ tree, Project.fileTree d a.settings.limits
      (Project.effectiveRoot d (a.settings.projectDir id)) = .ok tree := by
    obtain ⟨t, hs⟩ := hR
    have hlist : d.list (Project.effectiveRoot d (a.settings.projectDir id)) =
        .ok (d.children R) := by
      rw [Disk.list, hs]
      rfl
    rw [Project.fileTree, hlist, Disk.canonical, hs]
    exact ⟨_, rfl⟩
  have hsave : (Store.save a.settings (a.resultOf id d tree)).run d =
      (.ok (a.settings.analysisPath id), d.newFile (P ++ [Settings.analysisName id])
        (Store.bytesOf (a.resultOf id d tree)) false) := by
    rw [Store.save_into ht hP hid]
    dsimp only [resultOf]
    split
    · next he => exact absurd he hfree
    · rfl
  obtain ⟨w', hrun, hd⟩ := analyze_run hid hlease htime hf htree hsave
  exact ⟨_, w', hrun, ⟨htree, rfl, rfl⟩, rfl, rfl, hd⟩

end Analyzer

end SourceAtlas.Run
