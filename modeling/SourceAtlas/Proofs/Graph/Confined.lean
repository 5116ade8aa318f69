import Mathlib
import SourceAtlas.Proofs.Archive.Descent
import SourceAtlas.Proofs.Disk.Contents
import SourceAtlas.Proofs.Graph.Files

namespace SourceAtlas

open Disk SourceAtlas.Path

/-- No path of names below the root leads to a file that lies outside the folder. -/
def Disk.Encloses (d : Disk) (root : Path) (R : Place) : Prop :=
  ∀ x, Path.Inside root x → ∀ q r, d.stat x = .ok (q, r) → r.isFile = true → R <+: q

theorem encloses_of_descends {d : Disk} (ht : IsTree d) {root : Path} {R : Place}
    (hR : d.FolderAt root R)
    (hl : ∀ {q p}, R <+: q → d.found? q = some (.link p) → Archive.Descends p) :
    d.Encloses root R := by
  rintro _ ⟨ns, hn, hp, rfl⟩ q r hs _
  obtain ⟨k, _, hj⟩ := hR.join ht (.refl d) (r := ⟨ns⟩) (isAbsolute_names hp) hn
  refine Archive.way_below hl (hj.mp (stat_eq_ok.mp hs)).2 (List.append_nil R).symm ?_
  show (Archive.depthAfter (ns.filterMap inner) 0).isSome = true
  rw [filterMap_inner hp, Archive.depthAfter_of_names]
  rfl

variable {d : Disk} {root : Path} {R : Place} {f : Place → ByteArray → ByteArray}

namespace Source

theorem filesBelow_rewrite (levels : Nat) (place : Place) (path : Path) :
    filesBelow (d.rewrite f) levels place path = filesBelow d levels place path := by
  induction levels generalizing place path with
  | zero => rfl
  | succ levels ih =>
      rw [filesBelow, filesBelow, children_rewrite, List.filter_map, List.flatMap_map]
      simp only [ih, Record.isFolder_rewrite, Record.isFile_rewrite]
      rfl

theorem files_rewrite (hR : d.FolderAt root R) (limit : Nat) :
    files (d.rewrite f) root limit = files d root limit := by
  have hlevels : levelsOf (d.rewrite f) = levelsOf d := by
    rw [levelsOf, levelsOf, rewrite, List.foldl_map]
  rw [files, files, allFiles_eq hR, allFiles_eq (hR.extend (extends_rewrite d f)), hlevels,
    filesBelow_rewrite]

theorem read_rewrite {x : Path}
    (h : ∀ q r, d.stat x = .ok (q, r) → r.isFile = true → ∀ b, f q b = b) (maxBytes : Nat) :
    (∃ text, read (d.rewrite f) x maxBytes = .ok text ∧ read d x maxBytes = .ok text) ∨
    ∃ e e', read (d.rewrite f) x maxBytes = .error e ∧ read d x maxBytes = .error e' := by
  rcases hs : d.stat x with e | ⟨q, r⟩
  · rcases hs' : (d.rewrite f).stat x with e' | ⟨q, r⟩
    · exact .inr ⟨_, _, by rw [read, hs'], by rw [read, hs]⟩
    · obtain ⟨r', hr'⟩ := stat_of_rewrite hs'
      rw [hs] at hr'
      cases hr'
  · have hs' : (d.rewrite f).stat x = d.stat x := by
      rw [stat_rewrite hs, Record.rewrite_eq (h q r hs), hs]
    have hread : read (d.rewrite f) x maxBytes = read d x maxBytes := by
      rw [read, read, readText, readText, readBytes, readBytes, hs']
    rw [hread]
    rcases read d x maxBytes with e | text
    · exact .inr ⟨e, e, rfl, rfl⟩
    · exact .inl ⟨text, rfl, rfl⟩

end Source

namespace Graph

theorem resolve_rewrite : Import.resolve (d.rewrite f) = Import.resolve d := by
  funext root importer specifier
  rw [Import.resolve, Import.resolve, isFile_rewrite]

theorem entryPoint?_rewrite : entryPoint? (d.rewrite f) root = entryPoint? d root := by
  rw [entryPoint?, entryPoint?, isFile_rewrite]

section

variable (hf : ∀ x, Inside root x → ∀ q r, d.stat x = .ok (q, r) → r.isFile = true →
  ∀ b, f q b = b)

include hf

theorem targetsOf_rewrite {x : Path} (hx : Inside root x) (maxBytes : Nat) :
    targetsOf (d.rewrite f) root maxBytes x = targetsOf d root maxBytes x := by
  rw [targetsOf, targetsOf]
  rcases Source.read_rewrite (hf x hx) maxBytes with ⟨text, h', h⟩ | ⟨e, e', h', h⟩
  · rw [h, h']
    dsimp only
    rw [moduleImports, moduleImports, resolve_rewrite]
  · rw [h, h']

theorem explore_rewrite (ht : IsTree d) (hr : ∀ n ∈ root.segments, '/' ∉ n.toList)
    {maxFiles maxBytes : Nat} (fuel done : Nat) {seen : List Path} (g : Graph)
    (hs : ∀ x ∈ seen, Inside root x) :
    explore (d.rewrite f) root maxFiles maxBytes fuel done seen g =
      explore d root maxFiles maxBytes fuel done seen g := by
  induction fuel generalizing done seen g with
  | zero => rfl
  | succ n ih =>
      rw [explore, explore]
      split
      · rfl
      · next file hfile =>
          have hin := hs file (List.mem_of_getElem? hfile)
          split
          · exact ih _ _ hs
          · rw [targetsOf_rewrite hf hin]
            refine ih _ _ fun x hx => ?_
            rcases mem_discover hx with hx | hx
            · exact hs x hx
            · exact targetsOf_inside ht hr hin hx

theorem ofModules_rewrite (ht : IsTree d) (hr : ∀ n ∈ root.segments, '/' ∉ n.toList)
    (maxFiles maxBytes : Nat) :
    ofModules (d.rewrite f) root maxFiles maxBytes = ofModules d root maxFiles maxBytes := by
  rw [ofModules, ofModules, entryPoint?_rewrite]
  split
  · rfl
  · next entry hentry =>
      rw [explore_rewrite hf ht hr]
      intro x hx
      rw [List.mem_singleton.mp hx]
      exact entryPoint_inside hentry

theorem scannedEntry_rewrite {x : Path} (hx : Inside root x) (maxBytes : Nat) :
    scannedEntry (d.rewrite f) root maxBytes x = scannedEntry d root maxBytes x := by
  rw [scannedEntry, scannedEntry]
  rcases Source.read_rewrite (hf x hx) maxBytes with ⟨text, h', h⟩ | ⟨e, e', h', h⟩
  · rw [h, h']
    dsimp only
    rw [scannedTargets, scannedTargets, resolve_rewrite]
  · rw [h, h']

theorem ofScan_rewrite (hd : IsRegular d) (hR : d.FolderAt root R) (maxFiles maxBytes : Nat) :
    ofScan (d.rewrite f) root maxFiles maxBytes = ofScan d root maxFiles maxBytes := by
  have hentries : (Source.files d root maxFiles).files.filterMap
        (scannedEntry (d.rewrite f) root maxBytes) =
      (Source.files d root maxFiles).files.filterMap (scannedEntry d root maxBytes) :=
    List.filterMap_congr fun x hx =>
      scannedEntry_rewrite hf (Source.files_isBelow hd hR hx).inside maxBytes
  rw [ofScan, ofScan, isFolder_rewrite, Source.files_rewrite hR, hentries]

theorem ofProject_rewrite (hd : IsRegular d) (hR : d.FolderAt root R)
    (hr : ∀ n ∈ root.segments, '/' ∉ n.toList) (limits : Limits) :
    ofProject (d.rewrite f) root limits = ofProject d root limits := by
  rw [ofProject, ofProject, modules, modules, manual, manual,
    ofModules_rewrite hf hd.toIsTree hr, ofScan_rewrite hf hd hR]

end

theorem ofProject_files (hd : IsRegular d) (hR : d.FolderAt root R)
    (hr : ∀ n ∈ root.segments, '/' ∉ n.toList) (limits : Limits) :
    (ofProject d root limits).graph.Tells root (fun x => Inside root x ∧ d.isFile x = true)
      fun _ x => Inside root x ∧ d.isFile x = true := by
  have hresolve : ∀ x y s, Inside root x → Import.resolve d root x s = some y →
      Inside root y ∧ d.isFile y = true := fun x y s hx hy =>
    ⟨Import.resolve_inside hd.toIsTree hr (hx.slash hr) hy, Import.resolve_isFile hy⟩
  rcases ofProject_graph d root limits with ⟨hg, _⟩ | ⟨hg | hg, _⟩
  · have htargets : ∀ x y, Inside root x ∧ d.isFile x = true →
        y ∈ targetsOf d root limits.maxParseBytes x → Inside root y ∧ d.isFile y = true := by
      intro x y hx hy
      obtain ⟨_, s, hs⟩ := mem_targetsOf hy
      exact hresolve x y s hx.1 hs
    exact (ofModules_tells (fun x hx => ⟨entryPoint_inside hx, entryPoint_isFile hx⟩) htargets
      hg).mono (fun _ h => h) htargets
  · refine (ofScan_tells hg).2.mono (fun x hx => ?_) fun x y hx hy => ?_
    · obtain ⟨ns, hn, hp, _, rfl, _, r, hr, hfile⟩ := Source.files_isBelow hd hR hx
      refine ⟨⟨ns, hn, hp, rfl⟩, isFile_iff.mpr ⟨_, r, stat_below hd hR hn hr fun t he => ?_, hfile⟩⟩
      rw [Record.isFile, he] at hfile
      cases hfile
    · obtain ⟨_, _, s, _, hs⟩ := hy
      exact hresolve x y s (Source.files_isBelow hd hR hx).inside hs
  · rw [hg]
    exact nofun

/-- Every name in the graph is that of a file. As long as no path of names below the root leads to a
file outside of it, that file lies below the root, and what files elsewhere hold has no part in the
graph. -/
theorem ofProject_confined (hd : IsRegular d) {t : String} (hR : d.FolderAt (.ofText t) R)
    (limits : Limits) :
    (∀ e ∈ (ofProject d (.ofText t) limits).graph, ∀ x ∈ e.1 :: e.2,
      d.isFile ((Path.ofText t).join (.ofText x)) = true) ∧
    (d.Encloses (.ofText t) R →
      (∀ e ∈ (ofProject d (.ofText t) limits).graph, ∀ x ∈ e.1 :: e.2,
        ∃ q, d.canonical ((Path.ofText t).join (.ofText x)) = .ok q ∧ R <+: q) ∧
      ∀ f : Place → ByteArray → ByteArray, (∀ q b, R <+: q → f q b = b) →
        ofProject (d.rewrite f) (.ofText t) limits = ofProject d (.ofText t) limits) := by
  have hr : ∀ n ∈ (Path.ofText t).segments, '/' ∉ n.toList := fun _ => slash_not_mem
  have hfile : ∀ e ∈ (ofProject d (.ofText t) limits).graph, ∀ x ∈ e.1 :: e.2,
      Inside (.ofText t) ((Path.ofText t).join (.ofText x)) ∧
        d.isFile ((Path.ofText t).join (.ofText x)) = true := by
    intro e he x hx
    obtain ⟨y, ⟨hin, hy⟩, hk, htargets⟩ := ofProject_files hd hR hr limits e he
    rcases List.mem_cons.mp hx with rfl | hx
    · rw [hin.join_label hk]
      exact ⟨hin, hy⟩
    · obtain ⟨z, ⟨hin, hz⟩, hl⟩ := htargets x hx
      rw [hin.join_label hl]
      exact ⟨hin, hz⟩
  refine ⟨fun e he x hx => (hfile e he x hx).2, fun hencl => ⟨fun e he x hx => ?_, fun f hf => ?_⟩⟩
  · obtain ⟨hin, hx⟩ := hfile e he x hx
    obtain ⟨q, r, hs, hr⟩ := isFile_iff.mp hx
    exact ⟨q, by rw [canonical, hs]; rfl, hencl _ hin q r hs hr⟩
  · exact ofProject_rewrite (fun x hx q r hs hr b => hf q b (hencl x hx q r hs hr)) hd hR hr limits

def aliased (target : Path) : Disk :=
  ⟨[(["p"], ⟨.folder, 0⟩), (["p", "a.js"], ⟨.file 0 "import x from './x';\n".toUTF8 false, 0⟩),
    (["p", "x.js"], ⟨.link target, 0⟩), (["q"], ⟨.folder, 0⟩),
    (["q", "x.js"], ⟨.file 1 ByteArray.empty false, 0⟩)], [], 0, 2⟩

theorem isRegular_aliased (target : Path) : IsRegular (aliased target) :=
  of_decide_eq_true rfl

theorem folderAt_aliased (target : Path) : (aliased target).FolderAt (.ofText "p") ["p"] := ⟨0, rfl⟩

theorem link_aliased {target p : Path} {q : Place}
    (h : (aliased target).found? q = some (.link p)) : p = target := by
  obtain ⟨t, hr⟩ := record_of_link h
  simp only [aliased, List.mem_cons, List.not_mem_nil, or_false, Prod.mk.injEq, Record.mk.injEq,
    reduceCtorEq, false_and, and_false, false_or] at hr
  obtain ⟨_, hp, _⟩ := hr
  cases hp
  rfl

theorem files_aliased (target : Path) :
    (Source.files (aliased target) (.ofText "p") 5000).files = [.ofText "p/a.js"] := by cbv

theorem ofProject_confined_inner :
    IsRegular (aliased (.ofText "a.js")) ∧
    (aliased (.ofText "a.js")).FolderAt (.ofText "p") ["p"] ∧
    (aliased (.ofText "a.js")).Encloses (.ofText "p") ["p"] ∧
    (ofProject (aliased (.ofText "a.js")) (.ofText "p") {}).graph = [("a.js", ["x.js"])] ∧
    ∃ q, (aliased (.ofText "a.js")).canonical ((Path.ofText "p").join (.ofText "x.js")) = .ok q ∧
      ["p"] <+: q := by
  have hd := isRegular_aliased (.ofText "a.js")
  have hR := folderAt_aliased (.ofText "a.js")
  have hencl : (aliased (.ofText "a.js")).Encloses (.ofText "p") ["p"] :=
    encloses_of_descends hd.toIsTree hR fun {q p} _ he => by
      rw [link_aliased he]
      exact ⟨by decide, by decide⟩
  have hgraph : (ofProject (aliased (.ofText "a.js")) (.ofText "p") {}).graph =
      [("a.js", ["x.js"])] := by
    rw [ofProject, manual, ofScan, files_aliased]
    decide +kernel
  have he : ("a.js", ["x.js"]) ∈ (ofProject (aliased (.ofText "a.js")) (.ofText "p") {}).graph := by
    rw [hgraph]
    exact List.mem_cons_self
  exact ⟨hd, hR, hencl, hgraph, ((ofProject_confined hd hR {}).2 hencl).1 _ he "x.js" (by simp)⟩

theorem graph_leaves_root :
    IsRegular (aliased (.ofText "../q/x.js")) ∧
    (aliased (.ofText "../q/x.js")).FolderAt (.ofText "p") ["p"] ∧
    (ofProject (aliased (.ofText "../q/x.js")) (.ofText "p") {}).graph = [("a.js", ["x.js"])] ∧
    (aliased (.ofText "../q/x.js")).canonical ((Path.ofText "p").join (.ofText "x.js")) =
      .ok ["q", "x.js"] := by
  refine ⟨isRegular_aliased _, folderAt_aliased _, ?_, rfl⟩
  rw [ofProject, manual, ofScan, files_aliased]
  decide +kernel

end Graph

end SourceAtlas
