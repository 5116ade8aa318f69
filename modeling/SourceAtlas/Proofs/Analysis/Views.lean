import SourceAtlas.Proofs.Analysis.Context
import SourceAtlas.Proofs.Analysis.Depth
import SourceAtlas.Proofs.Graph.Confined
import SourceAtlas.Proofs.Project.Listing

namespace SourceAtlas.Project

open Disk SourceAtlas.Path

variable {d : Disk} {root : Path} {R : Place} {limits : Limits}

def IsNamed (d : Disk) (root : Path) (limits : Limits) (p : String) : Prop :=
  p ∈ (ComponentScan.ofProject d root limits).components.map (·.filePath) ∨
    p ∈ (Graph.ofProject d root limits).graph.keys

theorem record_of_named (hd : IsRegular d) (hR : d.FolderAt root R)
    (hr : ∀ n ∈ root.segments, '/' ∉ n.toList)
    (hl : ∀ {q x}, R <+: q → d.found? q ≠ some (.link x)) {p : String}
    (hp : IsNamed d root limits p) : ∃ ns : List Name, ns ≠ [] ∧ (∀ n ∈ ns, n.IsProper) ∧
      p = "/".intercalate ns ∧ ∃ r, d.get? (R ++ ns) = some r ∧ r.isFile = true := by
  rcases hp with hp | hp
  · obtain ⟨c, hc, rfl⟩ := List.mem_map.mp hp
    obtain ⟨x, hx, hlabel⟩ := ComponentScan.exists_file hc
    obtain ⟨ns, hn, hs, _, rfl, _, hrecord⟩ := Source.files_isBelow hd hR hx
    rw [relativeTo_join root hn hs] at hlabel
    exact ⟨ns, hn, hs, (Option.some.inj hlabel).symm, hrecord⟩
  · obtain ⟨e, he, rfl⟩ := List.mem_map.mp hp
    obtain ⟨x, ⟨⟨ns, hn, hs, rfl⟩, hfile⟩, hlabel, _⟩ := Graph.ofProject_files hd hR hr limits e he
    rw [relativeTo_join root hn hs] at hlabel
    obtain ⟨q, r, hstat, hf⟩ := isFile_iff.mp hfile
    exact ⟨ns, hn, hs, (Option.some.inj hlabel).symm, r, ((stat_join hd hR hl hn hs).mp hstat).2, hf⟩

/-- A file that components or the graph name has one node in the listing, with its size, as long as it
is shown on every level and the levels are enough. -/
theorem views_agree (hd : IsRegular d) (hR : d.FolderAt root R)
    (hr : ∀ n ∈ root.segments, '/' ∉ n.toList)
    (hl : ∀ {q x}, R <+: q → d.found? q ≠ some (.link x)) (limits : Limits) :
    ∃ tree, fileTree d limits root = .ok tree ∧ ∀ p, IsNamed d root limits p →
      ∃ r, d.stat (root.join (.ofText p)) = .ok (R ++ (Path.ofText p).segments, r) ∧
        r.isFile = true ∧ ((Path.ofText p).segments.length ≤ limits.maxTreeDepth + 1 →
          IsShown d limits R (Path.ofText p).segments →
          ∃ name extension, (FileNode.listNodes tree).filter (·.path = p) =
            [.file name p r.size extension]) := by
  refine ⟨_, fileTree_eq hR limits, fun p hp => ?_⟩
  obtain ⟨ns, hn, hs, rfl, r, hrecord, hf⟩ := record_of_named hd hR hr hl hp
  rw [ofText_names hn hs]
  refine ⟨r, (stat_join hd hR hl hn hs).mpr ⟨rfl, hrecord⟩, hf, fun hlen hshown => ?_⟩
  have hdeep := length_le_deepest (mem_of_get? (by simp [hn]) hrecord)
  rw [List.length_append] at hdeep
  have hlevels : ns.length ≤ min limits.maxTreeDepth (deepest d + 1) + 1 := by
    dsimp only at hlen
    omega
  have hnone : ∀ n ∈ ([] : List Name), n.IsProper := nofun
  exact ⟨_, _, nodes_of_shown hd hnone hn hlevels hshown hrecord hf⟩

def scripts : Disk :=
  ⟨[(["p"], ⟨.folder, 0⟩), (["p", "a.js"], ⟨.file 0 "import x from './x';\n".toUTF8 false, 0⟩),
    (["p", "x.js"], ⟨.file 1 ByteArray.empty false, 0⟩)], [], 0, 2⟩

theorem views_agree_imported : IsRegular scripts ∧ scripts.FolderAt (.ofText "p") ["p"] ∧
    (∀ {q x}, ["p"] <+: q → scripts.found? q ≠ some (.link x)) ∧
    IsNamed scripts (.ofText "p") {} "a.js" ∧ IsShown scripts {} ["p"] ["a.js"] ∧
    ∃ tree name extension, fileTree scripts {} (.ofText "p") = .ok tree ∧
      (FileNode.listNodes tree).filter (·.path = "a.js") = [.file name "a.js" 21 extension] := by
  have hd : IsRegular scripts := by decide
  have hl : ∀ {q x}, ["p"] <+: q → scripts.found? q ≠ some (.link x) := by
    intro q x hq hlink
    obtain ⟨t, hr⟩ := found?_eq_some.mp hlink
    have hm := mem_of_get? (by rintro rfl; cases List.prefix_nil.mp hq) hr
    simp [scripts] at hm
  have hR : scripts.FolderAt (.ofText "p") ["p"] := ⟨0, rfl⟩
  have hfiles : (Source.files scripts (.ofText "p") 5000).files =
      [.ofText "p/a.js", .ofText "p/x.js"] := by cbv
  have hnamed : IsNamed scripts (.ofText "p") {} "a.js" := by
    have hgraph : (Graph.ofProject scripts (.ofText "p") {}).graph = [("a.js", ["x.js"])] := by
      rw [Graph.ofProject, Graph.manual, Graph.ofScan, hfiles]
      decide +kernel
    exact .inr (by rw [hgraph]; decide)
  have hnames : (shown scripts {} ["p"]).map (·.1) = ["a.js", "x.js"] := by cbv
  have hshown : IsShown scripts {} ["p"] ["a.js"] := ⟨by rw [hnames]; decide, trivial⟩
  obtain ⟨tree, htree, h⟩ := views_agree hd hR (by decide) hl {}
  obtain ⟨r, hstat, _, hnodes⟩ := h "a.js" hnamed
  obtain ⟨name, extension, hnode⟩ := hnodes (by decide) hshown
  have hsize : r.size = 21 := by
    have hr := locate_record (stat_eq_ok.mp hstat)
    obtain rfl := Option.some.inj hr
    decide
  exact ⟨hd, hR, hl, hnamed, hshown, tree, name, extension, htree, hsize ▸ hnode⟩

end SourceAtlas.Project
