import Mathlib
import SourceAtlas.Component.Scan
import SourceAtlas.Proofs.Project.Levels
import SourceAtlas.Proofs.Source.Ways

namespace SourceAtlas

open Disk SourceAtlas.Path

variable {d : Disk} {root : Path} {R : Place} {ns : List Name}

namespace Source

def blockOf (maxBytes : Nat) (ns : List Name) (b : ByteArray) : Option (List Component) :=
  if maxBytes < b.size then none
  else match textOf b with
    | .error _ => none
    | .ok text =>
        let t := treeOf ⟨ns⟩ text
        if t.sound then
          some ((Declaration.inTree t).filterMap (Component.ofDeclaration ("/".intercalate ns)))
        else none

def block (d : Disk) (R : Place) (maxBytes : Nat) (ns : List Name) : Option (List Component) :=
  match d.get? (R ++ ns) with
  | some ⟨.file _ b _, _⟩ => blockOf maxBytes ns b
  | _ => none

theorem block_of_get? {maxBytes i : Nat} {b : ByteArray} {x : Bool} {t : Moment}
    (h : d.get? (R ++ ns) = some ⟨.file i b x, t⟩) : block d R maxBytes ns = blockOf maxBytes ns b := by
  rw [block, h]

theorem treeOf_join (root : Path) (hn : ns ≠ []) (hs : ∀ n ∈ ns, n.IsProper) (text : String) :
    treeOf (root.join ⟨ns⟩) text = treeOf ⟨ns⟩ text := by
  obtain ⟨ms, n, rfl⟩ := (List.eq_nil_or_concat' ns).resolve_left hn
  rw [treeOf, treeOf, extension, extension, fileName_join root hs, fileName_names hs]

theorem componentsOf_join (hd : IsRegular d) (hR : d.FolderAt root R) (h : IsSourceFile d R ns)
    (maxBytes : Nat) : (componentsOf d (root.join ⟨ns⟩) ("/".intercalate ns) maxBytes).toOption =
      block d R maxBytes ns := by
  obtain ⟨i, b, x, t, hr⟩ := h.found
  rw [block_of_get? hr, blockOf, componentsOf, h.read_join hd hR hr]
  split
  · rfl
  · cases textOf b with
    | error e => rfl
    | ok text =>
        dsimp only [bind, Except.bind, Except.mapError]
        rw [components, declarations, treeOf_join root h.ne_nil (h.names hd)]
        split
        · rfl
        · rfl

theorem isSourceFile_rewrite {f : Place → ByteArray → ByteArray} :
    IsSourceFile (d.rewrite f) R ns ↔ IsSourceFile d R ns := by
  have hfile : (∃ r, (d.rewrite f).get? (R ++ ns) = some r ∧ r.isFile = true) ↔
      ∃ r, d.get? (R ++ ns) = some r ∧ r.isFile = true := by
    rw [get?_rewrite]
    cases d.get? (R ++ ns) <;> simp
  exact ⟨fun h => ⟨hfile.mp h.file, h.visible, h.script⟩,
    fun h => ⟨hfile.mpr h.file, h.visible, h.script⟩⟩

theorem block_withBytes (h : IsSourceFile d R ns) (q : Place) (b : ByteArray) (maxBytes : Nat) :
    block (d.withBytes q b) R maxBytes ns =
      if R ++ ns = q then blockOf maxBytes ns b else block d R maxBytes ns := by
  obtain ⟨i, old, x, t, hr⟩ := h.found
  rw [block, block, withBytes, get?_rewrite, hr]
  dsimp only [Option.map_some, Record.rewrite]
  split <;> rfl

end Source

namespace ComponentScan

/-- The blocks of the first files, one after the other, and how many files had none. -/
def ofBlocks (block : List Name → Option (List Component)) (F : List (List Name)) (limit : Nat) :
    ComponentScan where
  components := (F.take limit).flatMap fun ns => (block ns).getD []
  skipped := (F.take limit).countP fun ns => (block ns).isNone
  truncated := decide (limit < F.length)

variable {block : List Name → Option (List Component)} {F : List (List Name)} {maxBytes : Nat}

theorem addFile_eq (hn : ns ≠ []) (hs : ∀ n ∈ ns, n.IsProper)
    (h : (Source.componentsOf d (root.join ⟨ns⟩) ("/".intercalate ns) maxBytes).toOption = block ns)
    (scan : ComponentScan) : addFile d root maxBytes scan (root.join ⟨ns⟩) =
      ⟨scan.components ++ (block ns).getD [],
        scan.skipped + if (block ns).isNone then 1 else 0, scan.truncated⟩ := by
  rw [addFile, relativeTo_join root hn hs, ← h]
  dsimp only
  cases Source.componentsOf d (root.join ⟨ns⟩) ("/".intercalate ns) maxBytes with
  | error e => simp [Except.toOption]
  | ok found => simp [Except.toOption]

theorem foldl_addFile (hF : ∀ ns ∈ F, ns ≠ [] ∧ (∀ n ∈ ns, n.IsProper) ∧
      (Source.componentsOf d (root.join ⟨ns⟩) ("/".intercalate ns) maxBytes).toOption = block ns)
    (scan : ComponentScan) : (F.map (root.join ⟨·⟩)).foldl (addFile d root maxBytes) scan =
      ⟨scan.components ++ F.flatMap fun ns => (block ns).getD [],
        scan.skipped + F.countP fun ns => (block ns).isNone, scan.truncated⟩ := by
  induction F generalizing scan with
  | nil => simp
  | cons ns F ih =>
      obtain ⟨⟨hn, hs, hblock⟩, hrest⟩ := List.forall_mem_cons.mp hF
      rw [List.map_cons, List.foldl_cons, addFile_eq hn hs hblock, ih hrest, List.flatMap_cons,
        List.countP_cons, List.append_assoc, Nat.add_assoc,
        Nat.add_comm (List.countP _ F)]

theorem ofProject_eq (hd : IsRegular d) (hR : d.FolderAt root R) (hF : Source.IsSourceList d R F)
    (limits : Limits) : ofProject d root limits =
      ofBlocks (Source.block d R limits.maxParseBytes) F limits.maxSourceFiles := by
  obtain ⟨F', hF', hfiles⟩ := Source.exists_sourceList hd hR
  obtain rfl := hF.eq hF'
  have hblocks : ∀ ns ∈ F.take limits.maxSourceFiles, ns ≠ [] ∧ (∀ n ∈ ns, n.IsProper) ∧
      (Source.componentsOf d (root.join ⟨ns⟩) ("/".intercalate ns) limits.maxParseBytes).toOption =
        Source.block d R limits.maxParseBytes ns := by
    intro ns hns
    have h := hF.mem.mp (List.mem_of_mem_take hns)
    exact ⟨h.ne_nil, h.names hd, Source.componentsOf_join hd hR h _⟩
  rw [ofProject, hfiles]
  dsimp only
  rw [foldl_addFile hblocks]
  simp [ofBlocks]

theorem ofBlocks_congr {block' : List Name → Option (List Component)}
    (h : ∀ ns ∈ F, block ns = block' ns) (limit : Nat) :
    ofBlocks block F limit = ofBlocks block' F limit := by
  have htake : ∀ ns ∈ F.take limit, block ns = block' ns := fun ns hns =>
    h ns (List.mem_of_mem_take hns)
  rw [ofBlocks, ofBlocks, List.flatMap_congr fun ns hns => by rw [htake ns hns],
    List.countP_congr fun ns hns => by rw [htake ns hns]]

/-- Files come in one order, each with what it adds by itself: another content of one file changes what
that file adds, and a lower limit leaves out what the last files add. -/
theorem ofProject_blocks (hd : IsRegular d) (hR : d.FolderAt root R) :
    ∃ F, Source.IsSourceList d R F ∧
      (∀ limit, Source.files d root limit =
        ⟨(F.take limit).map (root.join ⟨·⟩), decide (limit < F.length)⟩) ∧
      (∀ limits, ofProject d root limits =
        ofBlocks (Source.block d R limits.maxParseBytes) F limits.maxSourceFiles) ∧
      (∀ q b limits, ofProject (d.withBytes q b) root limits =
        ofBlocks (fun ns => if R ++ ns = q then Source.blockOf limits.maxParseBytes ns b
          else Source.block d R limits.maxParseBytes ns) F limits.maxSourceFiles) ∧
      ∀ limits less, less ≤ limits.maxSourceFiles → (ofProject d root limits).components =
        (ofProject d root { limits with maxSourceFiles := less }).components ++
          ((F.take limits.maxSourceFiles).drop less).flatMap fun ns =>
            (Source.block d R limits.maxParseBytes ns).getD [] := by
  obtain ⟨F, hF, hfiles⟩ := Source.exists_sourceList hd hR
  refine ⟨F, hF, hfiles, ofProject_eq hd hR hF, fun q b limits => ?_, fun limits less hless => ?_⟩
  · have hF' : Source.IsSourceList (d.withBytes q b) R F :=
      ⟨hF.mem.trans Source.isSourceFile_rewrite.symm, hF.ordered⟩
    have hd' : IsRegular (d.withBytes q b) := hd.rewrite _
    have hR' : (d.withBytes q b).FolderAt root R := hR.extend (extends_rewrite d _)
    rw [ofProject_eq hd' hR' hF']
    exact ofBlocks_congr (fun ns hns => Source.block_withBytes (hF.mem.mp hns) q b _) _
  · rw [ofProject_eq hd hR hF, ofProject_eq hd hR hF]
    have htake : F.take less = (F.take limits.maxSourceFiles).take less := by
      rw [List.take_take, Nat.min_eq_left hless]
    dsimp only [ofBlocks]
    rw [htake, ← List.flatMap_append, List.take_append_drop]

theorem ofProject_blocks_nested : IsRegular Project.nested ∧
    Project.nested.FolderAt (.ofText "p") ["p"] ∧ ∃ F, Source.IsSourceList Project.nested ["p"] F ∧
      1 < F.length ∧ ∀ maxParseBytes,
        ofProject Project.nested (.ofText "p") { maxSourceFiles := 1, maxParseBytes } =
          ofBlocks (Source.block Project.nested ["p"] maxParseBytes) F 1 := by
  have hscan : Source.files Project.nested (.ofText "p") 1 = ⟨[.ofText "p/a.js"], true⟩ := by cbv
  obtain ⟨F, hF, hfiles, hscans, _⟩ :=
    ofProject_blocks Project.isRegular_nested Project.folderAt_nested
  rw [hfiles 1] at hscan
  have hmore : 1 < F.length := of_decide_eq_true (congrArg Source.Scan.truncated hscan)
  exact ⟨Project.isRegular_nested, Project.folderAt_nested, F, hF, hmore, fun _ => hscans _⟩

end ComponentScan

end SourceAtlas
