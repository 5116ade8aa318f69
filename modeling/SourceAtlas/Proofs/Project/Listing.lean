import SourceAtlas.Project.FileTree
import SourceAtlas.Proofs.Disk.Regular

namespace SourceAtlas

open Disk SourceAtlas.Path

namespace Project

namespace FileNode

def name : FileNode → String
  | .mk name .. => name

def path : FileNode → String
  | .mk _ path .. => path

mutual

def nodes : FileNode → List FileNode
  | .mk name path kind size extension children =>
      .mk name path kind size extension children :: childNodes children

def childNodes : Option (List FileNode) → List FileNode
  | none => []
  | some ns => listNodes ns

def listNodes : List FileNode → List FileNode
  | [] => []
  | n :: r => n.nodes ++ listNodes r

end

theorem listNodes_eq (ns : List FileNode) : listNodes ns = ns.flatMap nodes := by
  induction ns with
  | nil => rfl
  | cons n r ih => rw [listNodes, ih, List.flatMap_cons]

theorem nodes_file (name path : String) (size : Nat) (extension : String) :
    (file name path size extension).nodes = [file name path size extension] := rfl

theorem nodes_directory (name path : String) (ns : List FileNode) :
    (directory name path ns).nodes = directory name path ns :: listNodes ns := rfl

end FileNode

variable {d : Disk} {limits : Limits} {place : Place} {as ns : List Name}

def shown (d : Disk) (limits : Limits) (place : Place) : List (Name × Record) :=
  ((d.children place).filter isListed).take limits.maxDirEntries

/-- Each of the names is one of those that are shown of the folder before it. -/
def IsShown (d : Disk) (limits : Limits) : Place → List Name → Prop
  | _, [] => True
  | place, n :: ns => n ∈ (shown d limits place).map (·.1) ∧ IsShown d limits (place ++ [n]) ns

def entryNode (d : Disk) (limits : Limits) (levels : Nat) (place : Place) (above : String)
    (e : Name × Record) : FileNode :=
  if e.2.isFolder then
    .directory e.1 (under above e.1)
      (listLevel d limits levels (place ++ [e.1]) (under above e.1))
  else .file e.1 (under above e.1) e.2.size (dottedExtension e.1)

theorem entryNode_folder {levels : Nat} {above : String} {e : Name × Record}
    (h : e.2.isFolder = true) : entryNode d limits levels place above e =
      .directory e.1 (under above e.1)
        (listLevel d limits levels (place ++ [e.1]) (under above e.1)) := if_pos h

theorem entryNode_file {levels : Nat} {above : String} {e : Name × Record} (h : e.2.isFile = true) :
    entryNode d limits levels place above e =
      .file e.1 (under above e.1) e.2.size (dottedExtension e.1) := by
  obtain ⟨n, _ | _ | _, t⟩ := e <;> first | rfl | cases h

def placeholder (n : Nat) : List FileNode := if n = 0 then [] else [.overflow n]

theorem mem_placeholder {node : FileNode} {n : Nat} :
    node ∈ placeholder n ↔ 0 < n ∧ node = .overflow n := by
  unfold placeholder
  split
  · next h => simp [h]
  · next h => simp [Nat.pos_of_ne_zero h]

theorem listLevel_succ (d : Disk) (limits : Limits) (levels : Nat) (place : Place)
    (above : String) : listLevel d limits (levels + 1) place above =
      (shown d limits place).map (entryNode d limits levels place above) ++
        placeholder (((d.children place).filter isListed).drop limits.maxDirEntries).length := by
  rw [listLevel, List.length_drop, placeholder]
  split
  · rw [if_neg (by omega)]
    rfl
  · rw [if_pos (by omega), List.append_nil]
    rfl

theorem listNodes_placeholder (n : Nat) : FileNode.listNodes (placeholder n) = placeholder n := by
  unfold placeholder
  split
  · rfl
  · rfl

theorem listNodes_listLevel (d : Disk) (limits : Limits) (levels : Nat) (place : Place)
    (above : String) : FileNode.listNodes (listLevel d limits (levels + 1) place above) =
      (shown d limits place).flatMap (fun e => (entryNode d limits levels place above e).nodes) ++
        placeholder (((d.children place).filter isListed).drop limits.maxDirEntries).length := by
  rw [listLevel_succ, FileNode.listNodes_eq, List.flatMap_append, List.flatMap_map,
    ← FileNode.listNodes_eq (placeholder _), listNodes_placeholder]

theorem intercalate_ne_empty (hn : ns ≠ []) (hs : ∀ n ∈ ns, n.IsProper) : "/".intercalate ns ≠ "" := by
  intro h
  have := ofText_names hn hs
  rw [h] at this
  have hns : ns = [""] := (congrArg Path.segments this).symm
  exact (hs "" (by simp [hns])).ne_empty rfl

theorem intercalate_inj {ms : List Name} (hn : ns ≠ []) (hs : ∀ n ∈ ns, n.IsProper) (hm : ms ≠ [])
    (ht : ∀ n ∈ ms, n.IsProper) (h : "/".intercalate ns = "/".intercalate ms) : ns = ms := by
  have := ofText_names hn hs
  rw [h, ofText_names hm ht] at this
  exact (congrArg Path.segments this).symm

theorem under_intercalate (hs : ∀ n ∈ as, n.IsProper) (n : Name) :
    under ("/".intercalate as) n = "/".intercalate (as ++ [n]) := by
  unfold under
  by_cases has : as = []
  · subst has
    rw [List.nil_append, String.intercalate_singleton]
    rfl
  · rw [if_neg (by simpa using intercalate_ne_empty has hs),
      String.intercalate_append_of_ne_nil has (by simp), String.intercalate_singleton]

theorem record_of_shown (hd : IsRegular d) {e : Name × Record} (h : e ∈ shown d limits place) :
    d.get? (place ++ [e.1]) = some e.2 :=
  hd.mem_children.mp (List.mem_filter.mp (List.mem_of_mem_take h)).1

theorem proper_of_shown (hd : IsRegular d) {e : Name × Record} (h : e ∈ shown d limits place) :
    e.1.IsProper :=
  (hd.names (record_of_shown hd h) e.1 (by simp)).proper

theorem proper_append (hs : ∀ n ∈ as, n.IsProper) (hns : ∀ n ∈ ns, n.IsProper) :
    ∀ n ∈ as ++ ns, n.IsProper := fun n hn => (List.mem_append.mp hn).elim (hs n) (hns n)

theorem proper_concat (hs : ∀ n ∈ as, n.IsProper) {n : Name} (hn : n.IsProper) :
    ∀ m ∈ as ++ [n], m.IsProper := proper_append hs (List.forall_mem_singleton.mpr hn)

theorem IsShown.proper (hd : IsRegular d) (h : IsShown d limits place ns) :
    ∀ n ∈ ns, n.IsProper := by
  induction ns generalizing place with
  | nil => exact nofun
  | cons n ns ih =>
      obtain ⟨e, he, rfl⟩ := List.mem_map.mp h.1
      exact List.forall_mem_cons.mpr ⟨proper_of_shown hd he, ih h.2⟩

theorem path_entryNode {levels : Nat} (hs : ∀ n ∈ as, n.IsProper) (e : Name × Record) :
    (entryNode d limits levels place ("/".intercalate as) e).path =
      "/".intercalate (as ++ [e.1]) := by
  rw [entryNode, under_intercalate hs]
  split
  · rfl
  · rfl

theorem mem_nodes_entryNode {levels : Nat} {node : FileNode} (hs : ∀ n ∈ as, n.IsProper)
    {e : Name × Record}
    (h : node ∈ (entryNode d limits levels place ("/".intercalate as) e).nodes) :
    node = entryNode d limits levels place ("/".intercalate as) e ∨
      node ∈ FileNode.listNodes (listLevel d limits levels (place ++ [e.1])
        ("/".intercalate (as ++ [e.1]))) := by
  unfold entryNode at h ⊢
  rw [under_intercalate hs] at h ⊢
  by_cases he : e.2.isFolder = true
  · rw [if_pos he] at h ⊢
    exact List.mem_cons.mp h
  · rw [if_neg he] at h ⊢
    exact .inl (List.mem_singleton.mp h)

theorem mem_listNodes (hd : IsRegular d) {levels : Nat} {node : FileNode}
    (hs : ∀ n ∈ as, n.IsProper)
    (h : node ∈ FileNode.listNodes (listLevel d limits levels place ("/".intercalate as))) :
    (∃ k, 0 < k ∧ node = .overflow k) ∨ ∃ (ms : List Name) (e : Name × Record),
      ms.length < levels ∧ IsShown d limits place (ms ++ [e.1]) ∧
      e ∈ shown d limits (place ++ ms) ∧ node = entryNode d limits (levels - ms.length - 1)
        (place ++ ms) ("/".intercalate (as ++ ms)) e := by
  induction levels generalizing place as with
  | zero => cases h
  | succ levels ih =>
      rw [listNodes_listLevel] at h
      rcases List.mem_append.mp h with h | h
      · obtain ⟨e, he, h⟩ := List.mem_flatMap.mp h
        have hfirst : e.1 ∈ (shown d limits place).map (·.1) := List.mem_map_of_mem he
        rcases mem_nodes_entryNode hs h with rfl | h
        · exact .inr ⟨[], e, by simp, ⟨hfirst, trivial⟩, by simpa using he, by simp⟩
        · refine (ih (proper_concat hs (proper_of_shown hd he)) h).imp_right ?_
          rintro ⟨ms, e', hlen, hshown, he', rfl⟩
          refine ⟨e.1 :: ms, e', by simpa using hlen, ⟨hfirst, hshown⟩, by simpa using he', ?_⟩
          simp [Nat.add_sub_add_right]
      · exact .inl ⟨_, mem_placeholder.mp h⟩

theorem path_of_mem (hd : IsRegular d) {levels : Nat} {node : FileNode} (hs : ∀ n ∈ as, n.IsProper)
    (h : node ∈ FileNode.listNodes (listLevel d limits levels place ("/".intercalate as))) :
    node.path = "" ∨ ∃ ms : List Name, ms ≠ [] ∧ (∀ m ∈ ms, m.IsProper) ∧
      node.path = "/".intercalate (as ++ ms) := by
  rcases mem_listNodes hd hs h with ⟨k, _, rfl⟩ | ⟨ms, e, _, hshown, _, rfl⟩
  · exact .inl rfl
  · have hms := hshown.proper hd
    refine .inr ⟨ms ++ [e.1], by simp, hms, ?_⟩
    rw [path_entryNode (proper_append hs fun m hm => hms m (by simp [hm])), List.append_assoc]

theorem path_ne_of_mem (hd : IsRegular d) {levels : Nat} {node : FileNode} (has : as ≠ [])
    (hs : ∀ n ∈ as, n.IsProper)
    (h : node ∈ FileNode.listNodes (listLevel d limits levels place ("/".intercalate as))) :
    node.path ≠ "/".intercalate as := by
  intro hpath
  rcases path_of_mem hd hs h with hempty | ⟨ms, hne, hms, hp⟩
  · exact intercalate_ne_empty has hs (hpath.symm.trans hempty)
  · have hsame := intercalate_inj has hs (by simp [has]) (proper_append hs hms)
      (hpath.symm.trans hp)
    exact hne (List.self_eq_append_right.mp hsame)

theorem filter_entryNode (hd : IsRegular d) {levels : Nat} (hs : ∀ n ∈ as, n.IsProper)
    {e : Name × Record} (he : e.1.IsProper) :
    (entryNode d limits levels place ("/".intercalate as) e).nodes.filter
        (·.path = "/".intercalate (as ++ [e.1])) =
      [entryNode d limits levels place ("/".intercalate as) e] := by
  rw [entryNode, under_intercalate hs]
  split
  · rw [FileNode.nodes_directory, List.filter_cons_of_pos (by simp [FileNode.directory,
      FileNode.path]), List.cons.injEq]
    refine ⟨rfl, List.filter_eq_nil_iff.mpr fun node hnode hp => ?_⟩
    exact path_ne_of_mem hd (by simp) (proper_concat hs he) hnode (of_decide_eq_true hp)
  · rw [FileNode.nodes_file, List.filter_singleton]
    simp [FileNode.file, FileNode.path]

theorem filter_flatMap_once {α β : Type} {f : α → List β} {q : β → Bool} {xs : List α} {x : α}
    (hx : x ∈ xs) (hn : xs.Nodup) (h : ∀ y ∈ xs, y ≠ x → (f y).filter q = []) :
    (xs.flatMap f).filter q = (f x).filter q := by
  induction xs with
  | nil => cases hx
  | cons y xs ih =>
      obtain ⟨hy, hxs⟩ := List.nodup_cons.mp hn
      rw [List.flatMap_cons, List.filter_append]
      by_cases hyx : y = x
      · subst hyx
        have hrest : (xs.flatMap f).filter q = [] := by
          rw [List.filter_flatMap, List.flatMap_eq_nil_iff]
          exact fun z hz => h z (.tail _ hz) fun hzy => hy (hzy ▸ hz)
        rw [hrest, List.append_nil]
      · have hx : x ∈ xs := (List.mem_cons.mp hx).resolve_left fun hxy => hyx hxy.symm
        rw [h y List.mem_cons_self hyx, List.nil_append, ih hx hxs fun z hz => h z (.tail _ hz)]

theorem nodup_shown (hd : IsRegular d) (limits : Limits) (place : Place) :
    ((shown d limits place).map (·.1)).Nodup :=
  (hd.nodup_children place).sublist
    (((List.take_sublist ..).trans List.filter_sublist).map _)

theorem filter_listLevel (hd : IsRegular d) (levels : Nat) {e : Name × Record}
    (he : e ∈ shown d limits place) (hs : ∀ n ∈ as, n.IsProper) (hns : ∀ n ∈ ns, n.IsProper) :
    (FileNode.listNodes (listLevel d limits (levels + 1) place ("/".intercalate as))).filter
        (·.path = "/".intercalate (as ++ e.1 :: ns)) =
      (entryNode d limits levels place ("/".intercalate as) e).nodes.filter
        (·.path = "/".intercalate (as ++ e.1 :: ns)) := by
  have hproper := proper_of_shown hd he
  have hall : ∀ {n : Name} {ms : List Name}, n.IsProper → (∀ m ∈ ms, m.IsProper) →
      ∀ m ∈ as ++ n :: ms, m.IsProper := fun hn hms =>
    proper_append hs (List.forall_mem_cons.mpr ⟨hn, hms⟩)
  have hne := intercalate_ne_empty (by simp) (hall hproper hns)
  have hnil : ∀ n, (placeholder n).filter (·.path = "/".intercalate (as ++ e.1 :: ns)) = [] := by
    refine fun n => List.filter_eq_nil_iff.mpr fun node hnode hp => hne ?_
    rw [← of_decide_eq_true hp, (mem_placeholder.mp hnode).2]
    rfl
  have hnames := nodup_shown hd limits place
  rw [listNodes_listLevel, List.filter_append, hnil, List.append_nil]
  refine filter_flatMap_once he (List.Nodup.of_map _ hnames) fun e' he' hother => ?_
  have hproper' := proper_of_shown hd he'
  -- what lies along another name has that name in its path
  have hway : ∀ ms : List Name, (∀ m ∈ ms, m.IsProper) →
      "/".intercalate (as ++ e.1 :: ns) ≠ "/".intercalate (as ++ e'.1 :: ms) := by
    intro ms hms h
    have hsame := intercalate_inj (by simp) (hall hproper hns) (by simp) (hall hproper' hms) h
    have hname := (List.cons.inj (List.append_cancel_left hsame)).1
    exact hother (List.inj_on_of_nodup_map hnames he' he hname.symm)
  refine List.filter_eq_nil_iff.mpr fun node hnode hp => ?_
  have hp := of_decide_eq_true hp
  rcases mem_nodes_entryNode hs hnode with rfl | hnode
  · rw [path_entryNode hs] at hp
    exact hway [] nofun hp.symm
  · rcases path_of_mem hd (proper_concat hs hproper') hnode with hempty | ⟨ms, _, hms, hpath⟩
    · exact hne (hp.symm.trans hempty)
    · rw [List.append_assoc] at hpath
      exact hway ms hms (hp.symm.trans hpath)

theorem filter_of_shown (hd : IsRegular d) {levels : Nat} (hs : ∀ n ∈ as, n.IsProper)
    (hlen : ns.length < levels) {n : Name} (hshown : IsShown d limits place (ns ++ [n]))
    {r : Record} (hr : d.get? (place ++ (ns ++ [n])) = some r) :
    (FileNode.listNodes (listLevel d limits levels place ("/".intercalate as))).filter
        (·.path = "/".intercalate (as ++ (ns ++ [n]))) =
      [entryNode d limits (levels - ns.length - 1) (place ++ ns) ("/".intercalate (as ++ ns))
        (n, r)] := by
  have hproper := hshown.proper hd
  induction ns generalizing place as levels with
  | nil =>
      obtain ⟨e, he, rfl⟩ := List.mem_map.mp hshown.1
      obtain rfl : e.2 = r := Option.some.inj ((record_of_shown hd he).symm.trans hr)
      obtain ⟨levels, rfl⟩ : ∃ l, levels = l + 1 := Nat.exists_eq_succ_of_ne_zero (by omega)
      have hnone : ∀ m ∈ ([] : List Name), m.IsProper := nofun
      rw [List.nil_append, filter_listLevel hd levels he hs hnone,
        filter_entryNode hd hs (proper_of_shown hd he)]
      simp
  | cons m ns ih =>
      obtain ⟨e, he, rfl⟩ := List.mem_map.mp hshown.1
      obtain ⟨levels, rfl⟩ : ∃ l, levels = l + 1 := Nat.exists_eq_succ_of_ne_zero (by omega)
      have hnames : ∀ m ∈ ns ++ [n], m.IsProper := (List.forall_mem_cons.mp hproper).2
      have hconcat := proper_concat hs (proper_of_shown hd he)
      rw [show place ++ (e.1 :: ns ++ [n]) = (place ++ [e.1]) ++ (ns ++ [n]) by simp] at hr
      have hway : as ++ e.1 :: (ns ++ [n]) = (as ++ [e.1]) ++ (ns ++ [n]) := by simp
      have hfolder : e.2.isFolder = true := by
        have habove := hd.folder_above (found?_of_get? hr) (by simp)
        rw [found?_of_get? (record_of_shown hd he)] at habove
        rw [Record.isFolder, Option.some.inj habove]
      -- the folder itself has another path
      have hpath : "/".intercalate (as ++ [e.1]) ≠ "/".intercalate (as ++ e.1 :: (ns ++ [n])) := by
        intro h
        have hall := proper_append hs hproper
        have hsame := intercalate_inj (by simp) hconcat (by simp) hall h
        have hnil := (List.cons.inj (List.append_cancel_left hsame)).2
        simp at hnil
      have hbelow := ih hconcat (by simpa using hlen) hshown.2 hr hnames
      rw [List.cons_append, filter_listLevel hd levels he hs hnames, entryNode_folder hfolder,
        under_intercalate hs, FileNode.nodes_directory, List.filter_cons_of_neg, hway, hbelow]
      · simp [Nat.add_sub_add_right]
      · exact fun h => hpath (of_decide_eq_true h)

theorem nodes_of_shown (hd : IsRegular d) {levels : Nat} (hs : ∀ n ∈ as, n.IsProper) (hns : ns ≠ [])
    (hlen : ns.length ≤ levels) (hshown : IsShown d limits place ns) {r : Record}
    (hr : d.get? (place ++ ns) = some r) (hf : r.isFile = true) :
    (FileNode.listNodes (listLevel d limits levels place ("/".intercalate as))).filter
        (·.path = "/".intercalate (as ++ ns)) =
      [.file (ns.getLast hns) ("/".intercalate (as ++ ns)) r.size
        (dottedExtension (ns.getLast hns))] := by
  obtain ⟨ms, n, rfl⟩ := (List.eq_nil_or_concat' ns).resolve_left hns
  have hms : ∀ m ∈ ms, m.IsProper := fun m hm => hshown.proper hd m (by simp [hm])
  rw [List.length_append] at hlen
  rw [filter_of_shown hd hs hlen hshown hr, entryNode_file hf,
    under_intercalate (proper_append hs hms), List.getLast_concat, List.append_assoc]

theorem fileTree_eq {root : Path} {R : Place} (hR : d.FolderAt root R) (limits : Limits) :
    fileTree d limits root =
      .ok (listLevel d limits (min limits.maxTreeDepth (deepest d + 1) + 1) R "") := by
  rw [fileTree, list_of_folderAt hR, canonical_of_folderAt hR]

end Project

end SourceAtlas
