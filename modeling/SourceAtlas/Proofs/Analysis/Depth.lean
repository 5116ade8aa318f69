import SourceAtlas.Proofs.Analysis.Paths
import SourceAtlas.Proofs.Analysis.Stored

namespace SourceAtlas

open Json Json.Value

namespace Project

theorem depth_file (name path : String) (size : Nat) (extension : String) :
    (FileNode.file name path size extension).toJson.depth = 1 := rfl

theorem depth_directory (name path : String) (ns : List FileNode) :
    (FileNode.directory name path ns).toJson.depth = itemsDepth (FileNode.listToJson ns) + 2 := by
  simp [FileNode.directory, FileNode.toJson, FileNode.optionalField, FileNode.childrenToJson, depth,
    pairsDepth]

theorem listLevel_depth (d : Disk) (limits : Limits) (levels : Nat) (place : Place)
    (above : String) :
    itemsDepth (FileNode.listToJson (listLevel d limits levels place above)) ≤ 2 * levels := by
  induction levels generalizing place above with
  | zero => exact Nat.le_refl 0
  | succ levels ih =>
      rw [FileNode.listToJson_eq, itemsDepth_le, List.forall_mem_map]
      intro node hnode
      rcases mem_listLevel hnode with ⟨e, _, rfl⟩ | ⟨e, _, rfl⟩ | ⟨n, rfl⟩
      · rw [depth_directory]
        have := ih (place ++ [e.1]) (under above e.1)
        omega
      · rw [depth_file]
        omega
      · rw [FileNode.overflow, depth_file]
        omega

def Nested (d : Disk) : Place → List Name → Prop
  | _, [] => True
  | place, n :: ns => (∃ t, d.get? (place ++ [n]) = some ⟨.folder, t⟩ ∧
      isListed (n, ⟨.folder, t⟩) = true) ∧ Nested d (place ++ [n]) ns

theorem length_children_le (d : Disk) (place : Place) :
    (d.children place).length ≤ d.records.length := by
  rw [Disk.children, List.length_mergeSort]
  exact List.length_filterMap_le ..

theorem listLevel_depth_ge {d : Disk} {limits : Limits}
    (hroom : d.records.length ≤ limits.maxDirEntries) (levels : Nat) {place : Place} {ns : List Name}
    (h : Nested d place ns) (above : String) : 2 * min levels ns.length ≤
      itemsDepth (FileNode.listToJson (listLevel d limits levels place above)) := by
  induction levels generalizing place ns above with
  | zero => simp
  | succ levels ih =>
      cases ns with
      | nil => simp
      | cons n ns =>
          obtain ⟨⟨t, hn, hlisted⟩, hns⟩ := h
          have hchild : (n, (⟨.folder, t⟩ : Disk.Record)) ∈ (d.children place).filter isListed :=
            List.mem_filter.mpr ⟨Disk.mem_children_iff.mpr (Disk.mem_of_get? (by simp) hn), hlisted⟩
          have hlen : ((d.children place).filter isListed).length ≤ limits.maxDirEntries :=
            ((List.length_filter_le ..).trans (length_children_le d place)).trans hroom
          have hmem : FileNode.directory n (under above n)
              (listLevel d limits levels (place ++ [n]) (under above n)) ∈
              listLevel d limits (levels + 1) place above := by
            rw [listLevel, List.take_of_length_le hlen, if_neg (by omega)]
            exact List.mem_map.mpr ⟨_, hchild, rfl⟩
          have hle := itemsDepth_le.mp (Nat.le_refl _) _
            (FileNode.listToJson_eq _ ▸ List.mem_map_of_mem hmem)
          rw [depth_directory] at hle
          have := ih hns (under above n)
          rw [List.length_cons]
          omega

theorem length_le_deepest {d : Disk} {x : Place × Disk.Record} (h : x ∈ d.records) :
    x.1.length ≤ deepest d := Disk.length_le_of_mem h

theorem Nested.length_le {d : Disk} {place : Place} {ns : List Name} (h : Nested d place ns) :
    place.length + ns.length ≤ max place.length (deepest d) := by
  induction ns generalizing place with
  | nil => simp
  | cons n ns ih =>
      obtain ⟨⟨t, hn, _⟩, hns⟩ := h
      have hdeep := length_le_deepest (Disk.mem_of_get? (by simp) hn)
      have := ih hns
      simp only [List.length_append, List.length_cons, List.length_nil] at hdeep this ⊢
      omega

theorem fileTree_depth {d : Disk} {limits : Limits} {root : Path} {tree : List FileNode}
    (h : fileTree d limits root = .ok tree) :
    itemsDepth (FileNode.listToJson tree) ≤ 2 * (limits.maxTreeDepth + 1) := by
  unfold fileTree at h
  split at h
  · cases h
    refine (listLevel_depth ..).trans ?_
    omega
  · cases h
  · cases h

theorem fileTree_depth_ge {d : Disk} {limits : Limits} {root : Path} {tree : List FileNode}
    {R : Place} {ns : List Name} (hroom : d.records.length ≤ limits.maxDirEntries)
    (hR : d.FolderAt root R) (hns : Nested d R ns) (h : fileTree d limits root = .ok tree) :
    2 * min (limits.maxTreeDepth + 1) ns.length ≤ itemsDepth (FileNode.listToJson tree) := by
  have hlen := hns.length_le
  unfold fileTree at h
  rw [Disk.canonical_of_folderAt hR] at h
  split at h
  · next he =>
      cases he
      cases h
      have := listLevel_depth_ge hroom (min limits.maxTreeDepth (deepest d + 1) + 1) hns ""
      omega
  · cases h
  · cases h

end Project

theorem texts_depth (ss : List String) : (Value.texts ss).depth ≤ 1 := by
  rw [texts, depth, Nat.add_le_add_iff_right, itemsDepth_le, List.forall_mem_map]
  exact fun _ _ => Nat.le_refl 0

theorem Component.depth_le (c : Component) : c.toJson.depth ≤ 2 := by
  have hhooks := texts_depth c.hooks
  have hprops := texts_depth c.props
  simp [toJson, depth, pairsDepth]
  omega

theorem Graph.depth_le (g : Graph) : g.toJson.depth ≤ 2 := by
  rw [toJson, depth, Nat.add_le_add_iff_right, pairsDepth_le, List.forall_mem_map]
  exact fun e _ => texts_depth e.2

namespace Analysis.IsOf

variable {d : Disk} {limits : Limits} {root : Path} {a : Analysis}

theorem depth_le (ha : a.IsOf d limits root) : a.toJson.depth ≤ 2 * limits.maxTreeDepth + 4 := by
  have htree := Project.fileTree_depth ha.listing
  have hgraph := a.dependencies.depth_le
  have hcomponents : itemsDepth (a.components.map Component.toJson) ≤ 2 := by
    rw [itemsDepth_le, List.forall_mem_map]
    exact fun c _ => c.depth_le
  simp [toJson, depth, pairsDepth]
  omega

theorem depth_ge (ha : a.IsOf d limits root) (hroom : d.records.length ≤ limits.maxDirEntries)
    {R : Place} (hR : d.FolderAt root R) {ns : List Name} (hns : Project.Nested d R ns) :
    2 * min (limits.maxTreeDepth + 1) ns.length + 2 ≤ a.toJson.depth := by
  have htree := Project.fileTree_depth_ge hroom hR hns ha.listing
  simp [toJson, depth, pairsDepth]
  omega

end Analysis.IsOf

end SourceAtlas
