import Mathlib
import SourceAtlas.Proofs.Analysis.Depth
import SourceAtlas.Proofs.Project.Listing

namespace SourceAtlas.Project

open Disk SourceAtlas.Path

variable {d : Disk} {limits : Limits} {root : Path} {R place : Place} {as ns : List Name}
  {tree nodes : List FileNode}

structure IsEligible (e : Name × Record) : Prop where
  noLink : ∀ t, e.2.entry ≠ .link t
  visible : e.1.toList.head? ≠ some '.'
  wanted : e.1 ∉ ["node_modules", "dist", "build"]

theorem isListed_iff {e : Name × Record} : isListed e = true ↔ IsEligible e := by
  have hlink : e.2.isLink = false ↔ ∀ t, e.2.entry ≠ .link t := by
    obtain ⟨n, entry, t⟩ := e
    cases entry <;> simp [Record.isLink]
  have hwanted : hiddenFolders.contains e.1 = false ↔ e.1 ∉ ["node_modules", "dist", "build"] := by
    rw [List.contains_eq_mem, decide_eq_false_iff_not]
    rfl
  rw [isListed, Bool.and_eq_true, Bool.and_eq_true, Bool.not_eq_true', Bool.not_eq_true', hlink,
    hwanted, decide_eq_true_iff]
  exact ⟨fun ⟨⟨hv, hw⟩, hl⟩ => ⟨hl, hv, hw⟩, fun h => ⟨⟨h.visible, h.wanted⟩, h.noLink⟩⟩

structure IsRoster (d : Disk) (place : Place) (es : List (Name × Record)) : Prop where
  mem : ∀ {e}, e ∈ es ↔ d.get? (place ++ [e.1]) = some e.2 ∧ IsEligible e
  ordered : es.Pairwise fun a b => Text.bytes a.1 < Text.bytes b.1

theorem IsRoster.eq {es es' : List (Name × Record)} (h : IsRoster d place es)
    (h' : IsRoster d place es') : es = es' :=
  Text.eq_of_ordered (fun hlt => List.lt_asymm hlt) h.ordered h'.ordered fun _ =>
    h.mem.trans h'.mem.symm

theorem isRoster_children (hd : IsRegular d) (place : Place) :
    IsRoster d place ((d.children place).filter isListed) where
  mem := fun {e} => by rw [List.mem_filter, hd.mem_children, isListed_iff]
  ordered := (hd.ordered_children place).filter _

theorem IsRoster.shown_eq (hd : IsRegular d) {es : List (Name × Record)} (h : IsRoster d place es) :
    shown d limits place = es.take limits.maxDirEntries := by
  rw [shown, (isRoster_children hd place).eq h]

def IsFirst (d : Disk) (limits : Limits) (R : Place) (ns : List Name) : Prop :=
  ∀ (as : List Name) (n : Name) (bs : List Name), ns = as ++ n :: bs →
    ∃ es, IsRoster d (R ++ as) es ∧ n ∈ (es.take limits.maxDirEntries).map (·.1)

theorem isFirst_iff (hd : IsRegular d) : IsFirst d limits R ns ↔ IsShown d limits R ns := by
  induction ns generalizing R with
  | nil => exact ⟨fun _ => trivial, fun _ _ _ _ h => by simp at h⟩
  | cons m ns ih =>
      rw [IsShown, ← ih]
      constructor
      · intro h
        refine ⟨?_, fun as n bs hns => ?_⟩
        · obtain ⟨es, hes, hm⟩ := h [] m ns rfl
          rw [List.append_nil] at hes
          rwa [hes.shown_eq hd]
        · obtain ⟨es, hes, hn⟩ := h (m :: as) n bs (congrArg (m :: ·) hns)
          exact ⟨es, by simpa using hes, hn⟩
      · rintro ⟨hm, hrest⟩ as n bs hns
        cases as with
        | nil =>
            obtain ⟨rfl, rfl⟩ := List.cons.inj hns
            rw [List.append_nil]
            exact ⟨_, isRoster_children hd R, hm⟩
        | cons a as =>
            obtain ⟨rfl, htail⟩ := List.cons.inj hns
            obtain ⟨es, hes, hn⟩ := hrest as n bs htail
            exact ⟨es, by simpa using hes, hn⟩

inductive Stands (ns : List Name) : Name × Record → FileNode → Prop
  | file {n : Name} {id : Nat} {bytes : ByteArray} {runnable : Bool} {t : Moment} :
      Stands ns (n, ⟨.file id bytes runnable, t⟩)
        (.file n ("/".intercalate (ns ++ [n])) bytes.size (dottedExtension n))
  | folder {n : Name} {t : Moment} {children : List FileNode} :
      Stands ns (n, ⟨.folder, t⟩) (.directory n ("/".intercalate (ns ++ [n])) children)

theorem stands_entryNode {levels : Nat} (hs : ∀ n ∈ as, n.IsProper) {e : Name × Record}
    (he : IsEligible e) :
    Stands as e (entryNode d limits levels place ("/".intercalate as) e) := by
  obtain ⟨n, entry, t⟩ := e
  cases entry with
  | folder =>
      rw [entryNode_folder rfl, under_intercalate hs]
      exact .folder
  | file id bytes runnable =>
      rw [entryNode_file rfl, under_intercalate hs]
      exact .file
  | link t => exact absurd rfl (he.noLink t)

theorem Stands.path {e : Name × Record} {node : FileNode} (h : Stands as e node) :
    node.path = "/".intercalate (as ++ [e.1]) := by
  cases h <;> rfl

theorem Stands.name {e : Name × Record} {node : FileNode} (h : Stands as e node) :
    node.name = e.1 := by
  cases h <;> rfl

theorem name_overflow (k : Nat) : (FileNode.overflow k).name.toList.head? = some '.' := by
  rw [FileNode.overflow, FileNode.file, FileNode.name, String.toList_append, String.toList_append]
  rfl

inductive Level (tree : List FileNode) : List Name → List FileNode → Prop
  | top : Level tree [] tree
  | inner {ns : List Name} {nodes children : List FileNode} {n : Name} {path : String} :
      Level tree ns nodes → .directory n path children ∈ nodes → Level tree (ns ++ [n]) children

/-- What the listing of a folder has to be. -/
structure IsListing (d : Disk) (limits : Limits) (R : Place) (tree : List FileNode) : Prop where
  level : ∀ {ns nodes}, Level tree ns nodes → ns.length ≤ limits.maxTreeDepth →
    ∃ es emitted, IsRoster d (R ++ ns) es ∧
      List.Forall₂ (Stands ns) (es.take limits.maxDirEntries) emitted ∧
      nodes = emitted ++ placeholder (es.drop limits.maxDirEntries).length ∧
      emitted.length + (es.drop limits.maxDirEntries).length = es.length
  deeper : ∀ {ns nodes}, Level tree ns nodes → limits.maxTreeDepth < ns.length → nodes = []
  appears : ∀ {ns : List Name} {n : Name}, (∀ m ∈ ns ++ [n], m.IsProper) →
    ((∃ node ∈ FileNode.listNodes tree, node.path = "/".intercalate (ns ++ [n])) ↔
      (ns ++ [n]).length ≤ limits.maxTreeDepth + 1 ∧ IsFirst d limits R (ns ++ [n]))
  once : ∀ {ns : List Name} {n : Name}, (ns ++ [n]).length ≤ limits.maxTreeDepth + 1 →
    IsFirst d limits R (ns ++ [n]) →
    ∃ r node, d.get? (R ++ (ns ++ [n])) = some r ∧ Stands ns (n, r) node ∧
      (FileNode.listNodes tree).filter (·.path = "/".intercalate (ns ++ [n])) = [node]
  told : ∀ {node}, node ∈ FileNode.listNodes tree → (∃ k, 0 < k ∧ node = .overflow k) ∨
    (∃ ns e, d.get? (R ++ (ns ++ [e.1])) = some e.2 ∧ Stands ns e node) ∧
      ∀ k, node.path ≠ (FileNode.overflow k).path ∧ node.name ≠ (FileNode.overflow k).name

theorem Level.eq_listLevel (hd : IsRegular d) {levels : Nat}
    (h : Level (listLevel d limits levels R "") ns nodes) : (∀ n ∈ ns, n.IsProper) ∧
      nodes = listLevel d limits (levels - ns.length) (R ++ ns) ("/".intercalate ns) := by
  induction h with
  | top => exact ⟨nofun, by simp⟩
  | @inner ns nodes children n path _ hm ih =>
      obtain ⟨hs, rfl⟩ := ih
      cases hleft : levels - ns.length with
      | zero =>
          rw [hleft] at hm
          cases hm
      | succ left =>
          rw [hleft, listLevel_succ] at hm
          have hnow : levels - (ns ++ [n]).length = left := by
            rw [List.length_append, List.length_singleton]
            omega
          rcases List.mem_append.mp hm with hm | hm
          · obtain ⟨e, he, hnode⟩ := List.mem_map.mp hm
            rw [entryNode, under_intercalate hs] at hnode
            split at hnode
            · obtain ⟨rfl, -, -, -, -, hchildren⟩ := FileNode.mk.inj hnode
              refine ⟨proper_concat hs (proper_of_shown hd he), ?_⟩
              rw [hnow, ← Option.some.inj hchildren, List.append_assoc]
            · cases (FileNode.mk.inj hnode).2.2.1
          · cases (FileNode.mk.inj (mem_placeholder.mp hm).2).2.2.1

theorem eligible_of_shown {e : Name × Record} (h : e ∈ shown d limits place) : IsEligible e :=
  isListed_iff.mp (List.mem_filter.mp (List.mem_of_mem_take h)).2

theorem length_lt_of_get? {as : Place} {n : Name} {r : Record} (h : d.get? (R ++ as ++ [n]) = some r) :
    as.length < deepest d := by
  have := length_le_deepest (mem_of_get? (by simp) h)
  simp only [List.length_append, List.length_singleton] at this
  omega

theorem IsRoster.eq_nil {es : List (Name × Record)} (h : IsRoster d (R ++ as) es)
    (hlen : deepest d ≤ as.length) : es = [] := by
  refine List.eq_nil_iff_forall_not_mem.mpr fun e he => ?_
  have := length_lt_of_get? (h.mem.mp he).1
  omega

section

variable {levels : Nat} (hd : IsRegular d) (hmax : levels ≤ limits.maxTreeDepth + 1)
  (hdeep : levels ≤ limits.maxTreeDepth → deepest d < levels)

include hd hdeep

theorem level_listLevel (h : Level (listLevel d limits levels R "") ns nodes)
    (hlen : ns.length ≤ limits.maxTreeDepth) :
    ∃ es emitted, IsRoster d (R ++ ns) es ∧
      List.Forall₂ (Stands ns) (es.take limits.maxDirEntries) emitted ∧
      nodes = emitted ++ placeholder (es.drop limits.maxDirEntries).length ∧
      emitted.length + (es.drop limits.maxDirEntries).length = es.length := by
  obtain ⟨hs, rfl⟩ := h.eq_listLevel hd
  have hroster := isRoster_children hd (R ++ ns)
  refine ⟨_, (shown d limits (R ++ ns)).map
    (entryNode d limits (levels - ns.length - 1) (R ++ ns) ("/".intercalate ns)), hroster, ?_, ?_, ?_⟩
  · refine List.forall₂_map_right_iff.mpr (List.forall₂_same.mpr fun e he => ?_)
    exact stands_entryNode hs (eligible_of_shown he)
  · cases hleft : levels - ns.length with
    | succ left => exact listLevel_succ ..
    | zero =>
        have hnil := hroster.eq_nil (by have := hdeep; omega)
        rw [shown, hnil]
        simp [listLevel, placeholder]
  · rw [List.length_map, shown, ← List.length_append, List.take_append_drop]

theorem filter_of_first {n : Name} (hlen : (ns ++ [n]).length ≤ limits.maxTreeDepth + 1)
    (hfirst : IsFirst d limits R (ns ++ [n])) :
    ∃ r node, d.get? (R ++ (ns ++ [n])) = some r ∧ Stands ns (n, r) node ∧
      (FileNode.listNodes (listLevel d limits levels R "")).filter
        (·.path = "/".intercalate (ns ++ [n])) = [node] := by
  have hshown := (isFirst_iff hd).mp hfirst
  obtain ⟨es, hes, hn⟩ := hfirst ns n [] rfl
  obtain ⟨e, he, rfl⟩ := List.mem_map.mp hn
  obtain ⟨hr, heligible⟩ := hes.mem.mp (List.mem_of_mem_take he)
  have hlevels : ns.length < levels := by
    have := length_lt_of_get? hr
    rw [List.length_append, List.length_singleton] at hlen
    by_contra hge
    have := hdeep (by omega)
    omega
  rw [List.append_assoc] at hr
  have hnone : ∀ n ∈ ([] : List Name), n.IsProper := nofun
  have hone := filter_of_shown hd hnone hlevels hshown hr
  rw [List.nil_append, String.intercalate_nil] at hone
  have hs : ∀ m ∈ ns, m.IsProper := fun m hm => hshown.proper hd m (by simp [hm])
  exact ⟨e.2, _, hr, stands_entryNode hs heligible, hone⟩

omit hdeep

theorem cases_of_mem {node : FileNode}
    (h : node ∈ FileNode.listNodes (listLevel d limits levels R "")) :
    (∃ k, 0 < k ∧ node = .overflow k) ∨ ∃ ns e, ns.length < levels ∧
      IsFirst d limits R (ns ++ [e.1]) ∧ (∀ m ∈ ns ++ [e.1], m.IsProper) ∧ IsEligible e ∧
      d.get? (R ++ (ns ++ [e.1])) = some e.2 ∧ Stands ns e node := by
  have hnone : ∀ n ∈ ([] : List Name), n.IsProper := nofun
  rw [← String.intercalate_nil] at h
  refine (mem_listNodes hd hnone h).imp_right ?_
  rintro ⟨ns, e, hlen, hshown, he, rfl⟩
  have hs := hshown.proper hd
  have hr := record_of_shown hd he
  have heligible := eligible_of_shown he
  rw [List.append_assoc] at hr
  refine ⟨ns, e, hlen, (isFirst_iff hd).mpr hshown, hs, heligible, hr, ?_⟩
  exact stands_entryNode (fun m hm => hs m (by simp [hm])) heligible

include hmax hdeep

theorem isListing_listLevel : IsListing d limits R (listLevel d limits levels R "") where
  level := level_listLevel hd hdeep
  deeper := by
    intro ns nodes h hlen
    rw [(h.eq_listLevel hd).2, show levels - ns.length = 0 by omega]
    rfl
  appears := by
    intro ns n hs
    constructor
    · rintro ⟨node, hnode, hpath⟩
      rcases cases_of_mem hd hnode with ⟨k, _, rfl⟩ | ⟨ms, e, hlen, hfirst, hms, _, _, hstands⟩
      · exact absurd hpath.symm (intercalate_ne_empty (by simp) hs)
      · have hway := intercalate_inj (by simp) hms (by simp) hs (hstands.path.symm.trans hpath)
        rw [← hway]
        refine ⟨?_, hfirst⟩
        rw [List.length_append, List.length_singleton]
        omega
    · rintro ⟨hlen, hfirst⟩
      obtain ⟨r, node, _, hstands, hone⟩ := filter_of_first hd hdeep hlen hfirst
      have hmem := List.mem_of_mem_filter (hone ▸ List.mem_singleton_self node)
      exact ⟨node, hmem, hstands.path⟩
  once := filter_of_first hd hdeep
  told := by
    intro node hnode
    refine (cases_of_mem hd hnode).imp_right ?_
    rintro ⟨ns, e, _, _, hs, heligible, hr, hstands⟩
    refine ⟨⟨ns, e, hr, hstands⟩, fun k => ⟨?_, ?_⟩⟩
    · rw [hstands.path]
      exact intercalate_ne_empty (by simp) hs
    · intro hname
      refine heligible.visible ?_
      rw [← hstands.name, hname, name_overflow]

end

/-- The listing of a folder is told whole: level by level, and by the paths in it. -/
theorem fileTree_isListing (hd : IsRegular d) (hR : d.FolderAt root R) (limits : Limits) :
    ∃ tree, fileTree d limits root = .ok tree ∧ IsListing d limits R tree :=
  ⟨_, fileTree_eq hR limits, isListing_listLevel hd (by omega) (by omega)⟩

def nested : Disk :=
  ⟨[(["p"], ⟨.folder, 0⟩), (["p", "lib"], ⟨.folder, 0⟩), (["p", ".git"], ⟨.folder, 0⟩),
    (["p", "lib", "x.js"], ⟨.file 1 ByteArray.empty false, 0⟩),
    (["p", "a.js"], ⟨.file 0 "f();\n".toUTF8 false, 0⟩)], [], 0, 2⟩

def narrow : Limits := { maxTreeDepth := 1, maxDirEntries := 1 }

theorem isRegular_nested : IsRegular nested := by decide

theorem folderAt_nested : nested.FolderAt (.ofText "p") ["p"] := ⟨0, rfl⟩

theorem fileTree_isListing_narrow : IsRegular nested ∧ nested.FolderAt (.ofText "p") ["p"] ∧
    ∃ tree, fileTree nested narrow (.ofText "p") = .ok tree ∧ IsListing nested narrow ["p"] tree ∧
      tree.map (fun node => (node.name, node.path)) =
        [("a.js", "a.js"), ("...and 1 more files", "")] := by
  have hnodes : (fileTree nested narrow (.ofText "p")).toOption.map
      (·.map fun node => (node.name, node.path)) =
        some [("a.js", "a.js"), ("...and 1 more files", "")] := by cbv
  obtain ⟨tree, htree, h⟩ := fileTree_isListing isRegular_nested folderAt_nested narrow
  rw [htree] at hnodes
  exact ⟨isRegular_nested, folderAt_nested, tree, htree, h, Option.some.inj hnodes⟩

end SourceAtlas.Project
