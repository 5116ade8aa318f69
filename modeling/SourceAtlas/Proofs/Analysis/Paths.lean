import SourceAtlas.Analysis.Result
import SourceAtlas.Proofs.Graph.Files

namespace SourceAtlas

open Disk SourceAtlas.Path

namespace Graph

def IsInner (g : Graph) : Prop := ∀ e ∈ g, Path.IsInner e.1 ∧ ∀ t ∈ e.2, Path.IsInner t

theorem ofProject_inner {d : Disk} {root : Path} (hd : IsRegular d)
    (hr : ∀ n ∈ root.segments, '/' ∉ n.toList) (limits : Limits) :
    (ofProject d root limits).graph.IsInner := by
  intro e he
  obtain ⟨x, hx, hk, ht⟩ := ofProject_inside hd hr limits e he
  refine ⟨hx.relativeTo hk, fun t hm => ?_⟩
  obtain ⟨y, hy, hl⟩ := ht t hm
  exact hy.relativeTo hl

end Graph

namespace ComponentScan

variable {d : Disk} {root : Path} {R : Place}

theorem components_filePath {file : Path} {label text : String} {cs : List Component}
    (h : Source.components file label text = .ok cs) : ∀ c ∈ cs, c.filePath = label := by
  unfold Source.components at h
  cases hd : Source.declarations file text with
  | error e =>
      rw [hd] at h
      cases h
  | ok ds =>
      rw [hd] at h
      cases h
      intro c hc
      obtain ⟨x, _, hx⟩ := List.mem_filterMap.mp hc
      obtain ⟨kind, _, rfl⟩ := Option.map_eq_some_iff.mp hx
      rfl

theorem componentsOf_filePath {file : Path} {label : String} {maxBytes : Nat} {cs : List Component}
    (h : Source.componentsOf d file label maxBytes = .ok cs) : ∀ c ∈ cs, c.filePath = label := by
  unfold Source.componentsOf at h
  cases hr : Source.read d file maxBytes with
  | error e =>
      rw [hr] at h
      cases h
  | ok text =>
      rw [hr] at h
      exact components_filePath h

theorem mem_addFile {maxBytes : Nat} {scan : ComponentScan} {file : Path} {c : Component}
    (hc : c ∈ (addFile d root maxBytes scan file).components) :
    c ∈ scan.components ∨ file.relativeTo root = some c.filePath := by
  unfold addFile at hc
  split at hc
  · exact .inl hc
  · next label hl =>
      split at hc
      · next found hfound =>
          rcases List.mem_append.mp hc with hc | hc
          · exact .inl hc
          · rw [componentsOf_filePath hfound c hc]
            exact .inr hl
      · exact .inl hc

theorem exists_file {limits : Limits} {c : Component} (hc : c ∈ (ofProject d root limits).components) :
    ∃ x ∈ (Source.files d root limits.maxSourceFiles).files,
      x.relativeTo root = some c.filePath := by
  have hfold : ∀ (files : List Path) (scan : ComponentScan),
      c ∈ (files.foldl (addFile d root limits.maxParseBytes) scan).components →
        c ∈ scan.components ∨ ∃ x ∈ files, x.relativeTo root = some c.filePath := by
    intro files
    induction files with
    | nil => exact fun _ => .inl
    | cons x files ih =>
        intro scan h
        rcases ih _ h with h | ⟨y, hy, hl⟩
        · exact (mem_addFile h).imp_right fun hl => ⟨x, List.mem_cons_self, hl⟩
        · exact .inr ⟨y, .tail _ hy, hl⟩
  exact (hfold _ _ hc).resolve_left nofun

theorem ofProject_inner (hd : IsRegular d) (hR : d.FolderAt root R) (limits : Limits) :
    ∀ c ∈ (ofProject d root limits).components, Path.IsInner c.filePath := by
  intro c hc
  obtain ⟨x, hx, hl⟩ := exists_file hc
  exact (Source.files_isBelow hd hR hx).inside.relativeTo hl

end ComponentScan

namespace Project

mutual

def FileNode.paths : FileNode → List String
  | .mk _ path _ _ _ children => path :: FileNode.childPaths children

def FileNode.childPaths : Option (List FileNode) → List String
  | none => []
  | some ns => FileNode.listPaths ns

def FileNode.listPaths : List FileNode → List String
  | [] => []
  | n :: r => n.paths ++ FileNode.listPaths r

end

theorem mem_listPaths {ns : List FileNode} {p : String} :
    p ∈ FileNode.listPaths ns ↔ ∃ n ∈ ns, p ∈ n.paths := by
  induction ns with
  | nil => simp [FileNode.listPaths]
  | cons n r ih => simp [FileNode.listPaths, ih]

theorem under_inner {above : String} {n : Name} (ha : above = "" ∨ Path.IsInner above)
    (hn : n.IsProper) : Path.IsInner (under above n) := by
  unfold under
  split
  · exact Path.isInner_name hn
  · next he =>
      rcases ha with rfl | ha
      · exact absurd rfl he
      · exact ha.append hn

theorem mem_listLevel {d : Disk} {limits : Limits} {levels : Nat} {place : Place} {above : String}
    {node : FileNode} (h : node ∈ listLevel d limits (levels + 1) place above) :
    (∃ e ∈ d.children place, node = .directory e.1 (under above e.1)
      (listLevel d limits levels (place ++ [e.1]) (under above e.1))) ∨
    (∃ e ∈ d.children place,
      node = .file e.1 (under above e.1) e.2.size (dottedExtension e.1)) ∨
    ∃ n, node = .overflow n := by
  have hshown : node ∈ (((d.children place).filter isListed).take limits.maxDirEntries).map
      (fun e => if e.2.isFolder then
        FileNode.directory e.1 (under above e.1)
          (listLevel d limits levels (place ++ [e.1]) (under above e.1))
      else .file e.1 (under above e.1) e.2.size (dottedExtension e.1)) ∨
      ∃ n, node = .overflow n := by
    rw [listLevel] at h
    split at h
    · rcases List.mem_append.mp h with h | h
      · exact .inl h
      · exact .inr ⟨_, List.mem_singleton.mp h⟩
    · exact .inl h
  rcases hshown with h | h
  · obtain ⟨e, he, rfl⟩ := List.mem_map.mp h
    have hc := (List.mem_filter.mp (List.mem_of_mem_take he)).1
    split
    · exact .inl ⟨e, hc, rfl⟩
    · exact .inr (.inl ⟨e, hc, rfl⟩)
  · exact .inr (.inr h)

theorem listLevel_inner {d : Disk} (hd : IsRegular d) {limits : Limits} (levels : Nat)
    {place : Place} {above p : String} (ha : above = "" ∨ Path.IsInner above)
    (hp : p ∈ FileNode.listPaths (listLevel d limits levels place above)) :
    p = "" ∨ Path.IsInner p := by
  induction levels generalizing place above with
  | zero => cases hp
  | succ levels ih =>
      have hunder : ∀ e ∈ d.children place, Path.IsInner (under above e.1) := fun e he =>
        under_inner ha (hd.names (hd.mem_children.mp he) e.1 (by simp)).proper
      obtain ⟨node, hm, hp⟩ := mem_listPaths.mp hp
      rcases mem_listLevel hm with ⟨e, he, rfl⟩ | ⟨e, he, rfl⟩ | ⟨n, rfl⟩
      · rw [FileNode.directory, FileNode.paths, FileNode.childPaths, List.mem_cons] at hp
        rcases hp with rfl | hp
        · exact .inr (hunder e he)
        · exact ih (.inr (hunder e he)) hp
      · rw [FileNode.file, FileNode.paths, FileNode.childPaths, List.mem_singleton] at hp
        exact .inr (hp ▸ hunder e he)
      · rw [FileNode.overflow, FileNode.file, FileNode.paths, FileNode.childPaths,
          List.mem_singleton] at hp
        exact .inl hp

theorem fileTree_inner {d : Disk} (hd : IsRegular d) {limits : Limits} {root : Path}
    {ns : List FileNode} (h : fileTree d limits root = .ok ns) {p : String}
    (hp : p ∈ FileNode.listPaths ns) : p = "" ∨ Path.IsInner p := by
  unfold fileTree at h
  split at h
  · cases h
    exact listLevel_inner hd _ (.inl rfl) hp
  · cases h
  · cases h

end Project

namespace Analysis

def paths (a : Analysis) : List String :=
  Project.FileNode.listPaths a.listing ++ a.dependencies.flatMap (fun e => e.1 :: e.2) ++
    a.components.map (·.filePath)

/-- What a run finds out about a root, on a disk and within limits. -/
structure IsOf (d : Disk) (limits : Limits) (root : Path) (a : Analysis) : Prop where
  listing : Project.fileTree d limits root = .ok a.listing
  dependencies : a.dependencies = (Graph.ofProject d root limits).graph
  components : a.components = (ComponentScan.ofProject d root limits).components

section

variable {d : Disk} {limits : Limits} {root : Path} {a : Analysis} {R : Place}

theorem IsOf.inner_graph (ha : IsOf d limits root a) (hd : IsRegular d)
    (hr : ∀ n ∈ root.segments, '/' ∉ n.toList) : a.dependencies.IsInner := by
  rw [ha.dependencies]
  exact Graph.ofProject_inner hd hr limits

theorem IsOf.inner_component (ha : IsOf d limits root a) (hd : IsRegular d) (hR : d.FolderAt root R)
    {p : String} (hp : p ∈ a.components.map (·.filePath)) : Path.IsInner p := by
  rw [ha.components] at hp
  obtain ⟨c, hc, rfl⟩ := List.mem_map.mp hp
  exact ComponentScan.ofProject_inner hd hR limits c hc

theorem IsOf.inner (ha : IsOf d limits root a) (hd : IsRegular d) (hR : d.FolderAt root R)
    (hr : ∀ n ∈ root.segments, '/' ∉ n.toList) {p : String} (hp : p ∈ a.paths) :
    p = "" ∨ Path.IsInner p := by
  rcases List.mem_append.mp hp with hp | hp
  · rcases List.mem_append.mp hp with hp | hp
    · exact Project.fileTree_inner hd ha.listing hp
    · obtain ⟨e, he, hp⟩ := List.mem_flatMap.mp hp
      have hg := ha.inner_graph hd hr e he
      rcases List.mem_cons.mp hp with rfl | hp
      · exact .inr hg.1
      · exact .inr (hg.2 p hp)
  · exact .inr (ha.inner_component hd hR hp)

end

end Analysis

end SourceAtlas
