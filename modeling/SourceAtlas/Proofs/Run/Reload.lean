import Mathlib
import SourceAtlas.Proofs.Analysis.Depth
import SourceAtlas.Proofs.Run.Answers

namespace SourceAtlas.Run

open Disk Store

theorem projectsDir_of_accepted {s : Settings} (h : s.rejections = []) :
    s.projectsDir.isEmpty = false := by
  rw [Settings.rejections, List.append_eq_nil_iff, List.map_eq_nil_iff] at h
  simpa using List.filter_eq_nil_iff.mp h.1 ("projects_dir", s.projectsDir) (by
    simp [Settings.namedPaths])

section

variable {σ : Type} {a : Analyzer σ} {id : String} {zip : Option Path} {r : Analysis}
  {w w' : Workspace σ} {rs : List Analysis}

theorem disk_of_analyze (hw : IsTree w.disk) (h : (a.analyze id zip).run w = (.ok r, w')) :
    IsTree w'.disk := by
  obtain ⟨_, d, _, _, ht, _, _, _, hsave⟩ := Analyzer.analyze_ok hw h
  have := save_isTree a.settings r d ht
  rwa [hsave] at this

theorem loads_of_analyze (hs : a.settings.rejections = []) (hw : IsTree w.disk)
    (h : (a.analyze id zip).run w = (.ok r, w')) (hr : AreOthers id rs) :
    (∀ qs, qs <+: rs → load (saveAll a.settings qs w'.disk) a.settings id = .ok r) ↔
      r.toJson.depth < Json.depthLimit ∧ r.IsInRange ∧
        ∀ qs, qs <+: rs →
          (saveAll a.settings qs w'.disk).isFolder a.settings.projectsDir = true := by
  have ht' := disk_of_analyze hw h
  obtain ⟨hid, d, root, path, ht, hof, rfl, htime, hsave⟩ := Analyzer.analyze_ok hw h
  have hp := projectsDir_of_accepted hs
  have hsorted : r.dependencies.IsSorted := by
    rw [hof.dependencies]
    exact Graph.ofProject_sorted ..
  rw [loads_iff hp ht' hid hr (kept_save hp hid ht hsave), bytesOf,
    Analysis.ofBytes_iff hsorted htime, and_assoc]

/-- The answer of a run is loaded again through all saves of other projects just if its document
nests less deep than the reader goes, its time and sizes can be read, and the folder with the
projects stays. So it is if no more than 61 levels are listed and no save takes the place of a link. -/
theorem analyze_reloads (hs : a.settings.rejections = []) (hw : IsTree w.disk)
    (h : (a.analyze id zip).run w = (.ok r, w')) (hr : AreOthers id rs) :
    ((∀ qs, qs <+: rs → load (saveAll a.settings qs w'.disk) a.settings id = .ok r) ↔
      r.toJson.depth < Json.depthLimit ∧ r.IsInRange ∧
        ∀ qs, qs <+: rs →
          (saveAll a.settings qs w'.disk).isFolder a.settings.projectsDir = true) ∧
    (a.settings.limits.maxTreeDepth ≤ 61 → r.IsInRange →
      w'.disk.isFolder a.settings.projectsDir = true → TakeNoLink a.settings rs w'.disk →
        ∀ qs, qs <+: rs → load (saveAll a.settings qs w'.disk) a.settings id = .ok r) := by
  have hexact := loads_of_analyze hs hw h hr
  refine ⟨hexact, fun hdepth hregular hf hl => hexact.mpr ⟨?_, hregular, fun qs hq => ?_⟩⟩
  -- two levels of the document for each level of the listing, and a few around it
  · obtain ⟨_, d, root, _, _, hof, _⟩ := Analyzer.analyze_ok hw h
    have hlimit : Json.depthLimit = 128 := rfl
    have := hof.depth_le
    omega
  · obtain ⟨P, hP⟩ := isFolder_iff.mp hf
    exact isFolder_iff.mpr ⟨P, folder_saveAll (disk_of_analyze hw h)
      (fun q hm => hr q (hq.subset hm)) (fun hP' q hm => hl hP' q (hq.subset hm)) hP⟩

end

def keeper (limits : Limits) : Analyzer Unit where
  settings := { projectsDir := .ofText ".", limits }
  holder := "h"
  transport := fun _ d s => (.ok (), d, s)

def shelf (inside : List (Place × Record)) : Disk :=
  ⟨(["p.lock"], ⟨.file 0 Leases.lockText.toUTF8 false, 0⟩) :: (["p"], ⟨.folder, 0⟩) :: inside, [], 0, 2⟩

theorem folderAt_here (d : Disk) (h : d.base = []) : d.FolderAt (.ofText ".") [] := by
  refine folderAt_iff.mpr ⟨⟨⟨rfl, rfl, ?_⟩, ?_⟩, rfl⟩
  · rw [Disk.start, h]
    rfl
  · rw [Disk.start, h]
    exact .idle (.inr rfl) .stop

def small : Disk := shelf [(["p", "a.txt"], ⟨.file 1 "x".toUTF8 false, 0⟩)]

theorem isTree_small : IsTree small := by decide

def other : Analysis := ⟨"q", .ofNanos 0, [], [], []⟩

theorem analyze_reloads_small : (keeper {}).settings.rejections = [] ∧ IsTree small ∧
    AreOthers "p" [other] ∧ ∃ r w',
      ((keeper {}).analyze "p" none).run (.ofDisk small [] ()) = (.ok r, w') ∧
        load (saveAll (keeper {}).settings [other] w'.disk) (keeper {}).settings "p" = .ok r := by
  have hfree : small.found? [Settings.analysisName "p"] = none := by cbv
  have hfree' : small.found? [Settings.analysisName "q"] = none := by cbv
  have hvalid : Project.checkId "p" = .ok () := by decide
  have hlease : (Leases.acquire (.ofText ".") "h" "p" []).run small =
      (.ok (some ⟨"h", "p", 0⟩), small) := rfl
  obtain ⟨r, w', hrun, hof, hid, htime, hd⟩ := Analyzer.analyze_answers (a := keeper {})
    (w := .ofDisk small [] ()) (P := []) (R := ["p"]) hvalid hlease (by decide) isTree_small
    (folderAt_here _ rfl) (by simp [hfree]) (by cbv) ⟨0, by cbv⟩
  have hothers : AreOthers "p" [other] := fun b hb => by
    rw [List.mem_singleton.mp hb]
    exact ⟨by decide, by decide⟩
  have hregular : r.IsInRange := by
    have hlisting : Project.fileTree small {} (Project.effectiveRoot small (.ofText "./p")) =
        .ok [.file "a.txt" "a.txt" 1 ".txt"] := by cbv
    have hl := hlisting.symm.trans hof.listing
    injection hl with hl
    refine ⟨?_, ?_, fun n hn => ?_⟩
    · rw [htime]
      decide
    · rw [htime]
      decide
    · rw [← hl, List.mem_singleton] at hn
      subst hn
      exact ⟨fun k hk => by cases hk; decide, trivial⟩
  have hbase : w'.disk.base = [] := by rw [hd]; simp [small, shelf]
  have hlink : TakeNoLink (keeper {}).settings [other] w'.disk := by
    intro P hP b hb t
    obtain rfl := hP.unique (folderAt_here _ hbase)
    rw [List.mem_singleton.mp hb, hd, found?_newFile, found?_put_of_ne (by decide)]
    exact fun he => by
      rw [show small.found? ([] ++ [Settings.analysisName other.projectId]) = none from hfree'] at he
      cases he
  have hload := (analyze_reloads (by decide) isTree_small hrun hothers).2 (by decide) hregular
    (isFolder_iff.mpr ⟨[], folderAt_here _ hbase⟩) hlink [other] (List.prefix_refl _)
  exact ⟨by decide, isTree_small, hothers, r, w', hrun, hload⟩

def deep (levels : Nat) : Disk :=
  shelf ((List.range levels).map fun k => ("p" :: List.replicate (k + 1) "d", ⟨.folder, 0⟩))

theorem get?_deep {levels k : Nat} (hk : k ≤ levels) :
    (deep levels).get? ("p" :: List.replicate k "d") = some ⟨.folder, 0⟩ := by
  have hinj : Function.Injective fun k => "p" :: List.replicate (k + 1) "d" := by
    intro i j h
    simpa using congrArg List.length h
  refine lookup_of_mem ?_ ?_
  · simp only [deep, shelf, List.map_cons, List.map_map, List.nodup_cons]
    refine ⟨by simp, by simp, ?_⟩
    exact List.Nodup.map hinj List.nodup_range
  · cases k with
    | zero => simp [deep, shelf]
    | succ k => exact .tail _ (.tail _ (List.mem_map.mpr ⟨k, List.mem_range.mpr hk, rfl⟩))

theorem isTree_deep (levels : Nat) : IsTree (deep levels) := by
  have hnumbered : IsNumbered (deep levels) :=
    .of_records (by simp [deep, shelf, Entry.number?]) (by simp [deep, shelf, Entry.number?])
  refine .of_records hnumbered fun x hx => ?_
  rcases List.mem_cons.mp hx with rfl | hx
  · rfl
  rcases List.mem_cons.mp hx with rfl | hx
  · rfl
  obtain ⟨k, hk, rfl⟩ := List.mem_map.mp hx
  have hplace : ("p" :: List.replicate (k + 1) "d").dropLast = "p" :: List.replicate k "d" := by
    rw [List.replicate_succ', ← List.cons_append, List.dropLast_concat]
  dsimp only
  rw [hplace]
  exact found?_of_get? (get?_deep (by have := List.mem_range.mp hk; omega))

theorem nested_deep {levels k m : Nat} (h : k + m ≤ levels) :
    Project.Nested (deep levels) ("p" :: List.replicate k "d") (List.replicate m "d") := by
  induction m generalizing k with
  | zero => trivial
  | succ m ih =>
      have hplace : "p" :: List.replicate k "d" ++ ["d"] = "p" :: List.replicate (k + 1) "d" := by
        rw [List.cons_append, ← List.replicate_succ']
      refine ⟨⟨0, ?_, by decide⟩, ?_⟩
      · rw [hplace, get?_deep (by omega)]
      · rw [hplace]
        exact ih (by omega)

def wide : Limits := { maxTreeDepth := 100, maxDirEntries := 100 }

theorem analyze_loses_deep : (keeper wide).settings.rejections = [] ∧ IsTree (deep 64) ∧ ∃ r w',
    ((keeper wide).analyze "p" none).run (.ofDisk (deep 64) [] ()) = (.ok r, w') ∧
      load w'.disk (keeper wide).settings "p" ≠ .ok r := by
  have hvalid : Project.checkId "p" = .ok () := by decide
  have hlease : (Leases.acquire (.ofText ".") "h" "p" []).run (deep 64) =
      (.ok (some ⟨"h", "p", 0⟩), deep 64) := rfl
  have hfree : (deep 64).found? [Settings.analysisName "p"] = none := by cbv
  have hroot : (deep 64).FolderAt (Project.effectiveRoot (deep 64) (.ofText "./p")) ["p", "d"] :=
    ⟨0, by cbv⟩
  obtain ⟨r, w', hrun, hof, hid, htime, hd⟩ := Analyzer.analyze_answers (a := keeper wide)
    (w := .ofDisk (deep 64) [] ()) (P := []) hvalid hlease (by decide) (isTree_deep 64)
    (folderAt_here _ rfl) (by simp [hfree]) (by cbv) hroot
  have hdepth : Json.depthLimit ≤ r.toJson.depth := by
    have hroom : (deep 64).records.length ≤ wide.maxDirEntries := by simp [deep, shelf, wide]
    have hge := hof.depth_ge hroom hroot (nested_deep (k := 1) (m := 63) (Nat.le_refl 64))
    rw [List.length_replicate] at hge
    exact hge
  refine ⟨by decide, isTree_deep 64, r, w', hrun, fun hload => ?_⟩
  have hothers : AreOthers "p" [] := fun b hb => absurd hb List.not_mem_nil
  have hloads := (loads_of_analyze (by decide) (isTree_deep 64) hrun hothers).mp fun qs hq => by
    rw [List.prefix_nil.mp hq]
    exact hload
  omega

end SourceAtlas.Run
