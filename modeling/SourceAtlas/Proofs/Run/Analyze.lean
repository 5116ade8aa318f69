import SourceAtlas.Proofs.Analysis.Paths
import SourceAtlas.Proofs.Archive.Confinement
import SourceAtlas.Proofs.Disk.Tree
import SourceAtlas.Proofs.Lease.Runs
import SourceAtlas.Run.Analyze

namespace SourceAtlas

open Disk Work

theorem Leases.acquire_isTree (folder : Path) (holder id : String) (ls : Leases) :
    Keeps IsTree (acquire folder holder id ls) := by
  unfold acquire
  split
  · exact .pure _
  · refine .bind (.bind (makeFolders_isTree _) fun _ => openWith_isTree _ _) fun i => ?_
    split
    · exact .pure _
    · exact .bind (.discard (openWith_isTree _ _)) fun _ => .pure _

theorem Leases.acquire_lease {folder : Path} {holder id : String} {ls : Leases} {d d' : Disk}
    {l : Lease} (h : (acquire folder holder id ls).run d = (.ok (some l), d')) :
    ∃ i, l = ⟨holder, id, i⟩ := by
  by_cases hh : ls.isHeldBy holder id = true
  · rw [acquire, if_pos hh] at h
    cases h
  · rw [acquire_run (by simpa using hh)] at h
    split at h
    · cases h
    · split at h
      · cases h
      · split at h
        · cases h
        · cases h
          exact ⟨_, rfl⟩

theorem Leases.acquire_id {folder : Path} {holder id : String} {ls : Leases} {d d' : Disk}
    {l : Lease} (h : (acquire folder holder id ls).run d = (.ok (some l), d')) : l.id = id := by
  obtain ⟨i, rfl⟩ := acquire_lease h
  rfl

namespace Archive

theorem extractEntry_isTree (archive target : Path) (maxBytes : Nat) (b : ByteArray) (t : Tally)
    (e : Entry) : Keeps IsTree (extractEntry archive target maxBytes b t e) :=
  extractEntry_keeps (fun _ => makeFolders_isTree _) (fun hp =>
    writeEntry_keeps (makeAround_keeps (fun _ => makeFolders_isTree _) archive hp)
      (openWith_isTree · _) maxBytes) b t e

theorem removeDependencies_isTree (root : Path) : Keeps IsTree (removeDependencies root) := by
  unfold removeDependencies
  refine .bind .get fun d => ?_
  split
  · exact .bind (removeUnless_isTree _ _ _) fun _ => .pure _
  · exact .pure _

theorem extract_isTree (archive target : Path) (maxBytes : Nat) :
    Keeps IsTree (extract archive target maxBytes) := by
  have hunpack : Keeps IsTree (unpack archive target maxBytes) :=
    .bind (.query _ _) fun b => .bind (.ofExcept _) fun es =>
      .bind (.foldlM (extractEntry_isTree archive target maxBytes b) es {}) fun t =>
        .bind (.discard (.edit (removeDependencies_isTree target))) fun _ => .pure _
  intro d ht
  have hmake := makeFolders_isTree target d ht
  rw [extract_run]
  split
  · rcases hm : (makeFolders target).run d with ⟨_ | _, d₁⟩
    all_goals rw [hm] at hmake
    · exact hmake
    · exact hunpack d₁ hmake
  · exact ht

end Archive

namespace Run

variable {σ α : Type}

abbrev HasTree (w : Workspace σ) : Prop := IsTree w.disk

namespace Job

theorem ofTask_run (t : Task α) (w : Workspace σ) : (ofTask t : Job σ α).run w =
    match t.run w.disk with
    | (.ok a, d) => (.ok a, { w with disk := d })
    | (.error f, d) => (.error f, { w with disk := d }) := by
  rcases h : t.run w.disk with ⟨_ | _, d⟩ <;>
    simp only [ofTask, run_bind, run_get, run_set, run_pure, run_throw, h]

theorem ofTask_ok {t : Task α} {w w' : Workspace σ} {x : α}
    (h : (ofTask t : Job σ α).run w = (.ok x, w')) :
    t.run w.disk = (.ok x, w'.disk) ∧ w' = { w with disk := w'.disk } := by
  rw [ofTask_run] at h
  split at h
  · next hr =>
      cases h
      exact ⟨hr, rfl⟩
  · cases h

theorem ofTask_hasTree {t : Task α} (h : Keeps IsTree t) : Keeps HasTree (ofTask t : Job σ α) := by
  intro w hw
  have := h w.disk hw
  rw [ofTask_run]
  rcases hr : t.run w.disk with ⟨_ | _, d⟩
  all_goals
    rw [hr] at this
    exact this

theorem notice_hasTree (id text : String) : Keeps HasTree (notice id text : Job σ Unit) :=
  fun _ hw => hw

theorem ofExcept_hasTree (r : Except Failure α) : Keeps HasTree (ofExcept r : Job σ α) := by
  cases r with
  | ok x => exact .pure x
  | error f => exact .throw f

end Job

namespace Analyzer

variable {a : Analyzer σ} {id : String} {lease : Lease} {zip : Option Path}

theorem inspectInTime_hasTree (zip : Path) : Keeps HasTree (a.inspectInTime zip) := by
  have hlook : Keeps HasTree (do Job.ofExcept (Archive.inspect (← get).disk zip a.settings.limits) :
      Job σ Archive.Report) := .bind .get fun w => Job.ofExcept_hasTree _
  unfold inspectInTime
  dsimp only
  split
  · exact .bind (.throw _) fun _ => hlook
  · exact hlook

theorem materialize_hasTree (id : String) (zip : Option Path) :
    Keeps HasTree (a.materialize id zip) := by
  unfold materialize
  dsimp only
  split
  · refine .bind (inspectInTime_hasTree _) fun r => .bind (Job.notice_hasTree _ _) fun _ => ?_
    refine .bind (.discard (Job.ofTask_hasTree (Archive.extract_isTree _ _ _))) fun _ => ?_
    refine .bind .get fun w => ?_
    split
    · exact .bind (Job.notice_hasTree _ _) fun _ => .pure _
    · exact .pure _
  · refine .bind .get fun w => ?_
    split
    · refine .bind (.throw _) fun _ => .bind .get fun w => ?_
      split
      · exact .bind (Job.notice_hasTree _ _) fun _ => .pure _
      · exact .pure _
    · refine .bind .get fun w => ?_
      split
      · exact .bind (Job.notice_hasTree _ _) fun _ => .pure _
      · exact .pure _

theorem start_ok {w w' : Workspace σ} (h : (a.start id).run w = (.ok lease, w')) (hw : HasTree w) :
    Project.checkId id = .ok () ∧ lease.id = id ∧ HasTree w' := by
  unfold start at h
  dsimp only at h
  rcases hc : Project.checkId id with r | u
  · rw [hc] at h
    cases h
  rw [hc] at h
  dsimp only at h
  obtain ⟨w₁, _, hget, h⟩ := run_bind_ok h
  cases hget
  obtain ⟨l, w₂, htask, h⟩ := run_bind_ok h
  obtain ⟨hacquire, _⟩ := Job.ofTask_ok htask
  have hacquire := run_edit_ok hacquire
  cases l with
  | none => cases h
  | some l =>
      cases h
      refine ⟨rfl, Leases.acquire_id hacquire, ?_⟩
      have := Leases.acquire_isTree a.settings.projectsDir a.holder id w.leases w.disk hw
      rwa [hacquire] at this

theorem leased_ok {operation : String} {job : Lease → Job σ α} {x : α} {w w' : Workspace σ}
    (h : (a.leased operation id job).run w = (.ok x, w')) : ∃ lease w₁ w₂,
      (a.start id).run w = (.ok lease, w₁) ∧ (job lease).run w₁ = (.ok x, w₂) ∧
        w'.disk = w₂.disk := by
  obtain ⟨lease, w₁, hstart, h⟩ := run_bind_ok h
  obtain ⟨_, _, hget, h⟩ := run_bind_ok h
  cases hget
  rcases hj : (job lease).run w₁ with ⟨f | y, w₂⟩
  · rw [hj] at h
    obtain ⟨_, _, _, h⟩ := run_bind_ok h
    obtain ⟨_, _, _, h⟩ := run_bind_ok h
    obtain ⟨_, _, _, h⟩ := run_bind_ok h
    cases h
  · rw [hj] at h
    obtain ⟨_, _, hset, h⟩ := run_bind_ok h
    cases hset
    obtain ⟨_, _, hfinish, h⟩ := run_bind_ok h
    cases hfinish
    cases h
    refine ⟨lease, w₁, w₂, hstart, hj, ?_⟩
    dsimp only
    split <;> rfl

theorem buildTree_ok {root : Path} {tree : List Project.FileNode} {w w' : Workspace σ}
    (h : (a.buildTree lease root).run w = (.ok tree, w')) :
    Project.fileTree w.disk a.settings.limits root = .ok tree ∧ w'.disk = w.disk := by
  obtain ⟨_, _, henter, h⟩ := run_bind_ok h
  cases henter
  dsimp only at h
  split at h
  · split at h
    · obtain ⟨_, _, _, h⟩ := run_bind_ok h
      obtain ⟨_, _, hthrow, _⟩ := run_bind_ok h
      cases hthrow
    · obtain ⟨_, _, hthrow, _⟩ := run_bind_ok h
      cases hthrow
  · obtain ⟨_, _, hget, h⟩ := run_bind_ok h
    cases hget
    split at h
    · next ht =>
        cases h
        exact ⟨ht, rfl⟩
    · cases h

theorem notices_disk {texts : List String} {r : Except Failure Unit} {w w' : Workspace σ}
    (h : (texts.forM (Job.notice id)).run w = (r, w')) : w'.disk = w.disk := by
  induction texts generalizing w with
  | nil => cases h; rfl
  | cons t ts ih => exact (ih h : _)

theorem extract_ok {root : Path} {r : Graph × List Component} {w w' : Workspace σ}
    (h : (a.extract id root).run w = (.ok r, w')) :
    r = ((Graph.ofProject w.disk root a.settings.limits).graph,
      (ComponentScan.ofProject w.disk root a.settings.limits).components) ∧ w'.disk = w.disk := by
  obtain ⟨_, _, henter, h⟩ := run_bind_ok h
  cases henter
  obtain ⟨_, _, henter, h⟩ := run_bind_ok h
  cases henter
  obtain ⟨_, _, hget, h⟩ := run_bind_ok h
  cases hget
  obtain ⟨_, _, hwarn, h⟩ := run_bind_ok h
  have hdisk := notices_disk hwarn
  cases h
  exact ⟨rfl, hdisk⟩

theorem analyzeJob_ok {r : Analysis} {w w' : Workspace σ} (hw : HasTree w)
    (h : (a.analyzeJob lease zip).run w = (.ok r, w')) : ∃ d root path, IsTree d ∧
      r.IsOf d a.settings.limits root ∧ r.projectId = lease.id ∧ r.timestamp = .ofNanos d.now ∧
        (Store.save a.settings r).run d = (.ok path, w'.disk) := by
  obtain ⟨_, w₀, henter, h⟩ := run_bind_ok h
  obtain ⟨root, w₁, hroot, h⟩ := run_bind_ok h
  obtain ⟨tree, w₂, htree, h⟩ := run_bind_ok h
  obtain ⟨gc, w₃, hextract, h⟩ := run_bind_ok h
  obtain ⟨_, w₄, hassemble, h⟩ := run_bind_ok h
  obtain ⟨_, _, hget, h⟩ := run_bind_ok h
  cases hget
  obtain ⟨path, w₅, hsave, h⟩ := run_bind_ok h
  cases h
  have hd₁ : IsTree w₁.disk := by
    have := materialize_hasTree (a := a) lease.id zip w₀ (by cases henter; exact hw)
    rwa [hroot] at this
  have hd₄ : w₄.disk = w₃.disk := by cases hassemble; rfl
  obtain ⟨htree, hd₂⟩ := buildTree_ok htree
  obtain ⟨rfl, hd₃⟩ := extract_ok hextract
  have hsave := run_toTask_ok (Job.ofTask_ok hsave).1
  rw [hd₄, hd₃, hd₂] at hsave ⊢
  exact ⟨w₁.disk, root, path, hd₁, ⟨htree, rfl, rfl⟩, rfl, rfl, hsave⟩

theorem analyze_ok {r : Analysis} {w w' : Workspace σ} (hw : HasTree w)
    (h : (a.analyze id zip).run w = (.ok r, w')) : Project.checkId id = .ok () ∧
      ∃ d root path, IsTree d ∧ r.IsOf d a.settings.limits root ∧ r.projectId = id ∧
        r.timestamp = .ofNanos d.now ∧ (Store.save a.settings r).run d = (.ok path, w'.disk) := by
  obtain ⟨lease, w₁, w₂, hstart, hjob, hdisk⟩ := leased_ok h
  obtain ⟨hid, rfl, hw₁⟩ := start_ok hstart hw
  rw [hdisk]
  exact ⟨hid, analyzeJob_ok hw₁ hjob⟩

end Analyzer

end Run

end SourceAtlas
