import Mathlib
import SourceAtlas.Proofs.Graph.Search
import SourceAtlas.Proofs.Project.Listing
import SourceAtlas.Proofs.Source.Ways

namespace SourceAtlas

open Disk SourceAtlas.Path

variable {d : Disk} {root : Path} {R : Place} {ns : List Name} {maxBytes : Nat}

namespace Source

def Holds (d : Disk) (q : Place) (maxBytes : Nat) (text : String) : Prop :=
  ∃ i b x t, d.get? q = some ⟨.file i b x, t⟩ ∧ b.size ≤ maxBytes ∧ String.fromUTF8? b = some text

theorem read_join_eq_ok (hd : IsRegular d) (hR : d.FolderAt root R) (h : IsSourceFile d R ns)
    {text : String} :
    read d (root.join ⟨ns⟩) maxBytes = .ok text ↔ Holds d (R ++ ns) maxBytes text := by
  obtain ⟨i, b, x, t, hr⟩ := h.found
  rw [h.read_join hd hR hr, Holds, hr]
  have hholds : (∃ i' b' x' t', some ⟨.file i b x, t⟩ = some (⟨.file i' b' x', t'⟩ : Record) ∧
      b'.size ≤ maxBytes ∧ String.fromUTF8? b' = some text) ↔
        b.size ≤ maxBytes ∧ String.fromUTF8? b = some text := by
    refine ⟨?_, fun h => ⟨i, b, x, t, rfl, h⟩⟩
    rintro ⟨_, _, _, _, he, h⟩
    cases he
    exact h
  rw [hholds]
  rw [textOf]
  split
  · next hlarge => exact iff_of_false (by simp) fun h => absurd h.1 (Nat.not_le.mpr hlarge)
  · next hsmall =>
      rw [Nat.not_lt] at hsmall
      cases String.fromUTF8? b <;> simp [hsmall, Except.mapError]

end Source

namespace Graph

def importedByLines (d : Disk) (root file : Path) (text : String) : List Path :=
  ((Import.specifiers text).filter Import.isRelative).filterMap (Import.resolve d root file)

/-- The graph of the import lines of the first of these source files: a file is a key if one of
its import lines leads anywhere, and each file that they lead to is told once. -/
structure IsScan (d : Disk) (root : Path) (R : Place) (limits : Limits) (F : List (List Name))
    (g : Graph) : Prop where
  sorted : g.IsSorted
  entries : ∀ e, e ∈ g ↔ ∃ ns ∈ F.take limits.maxSourceFiles, e.1 = "/".intercalate ns ∧
    ∃ text, Source.Holds d (R ++ ns) limits.maxParseBytes text ∧ e.2 ≠ [] ∧
      e.2.map some = (importedByLines d root (root.join ⟨ns⟩) text).eraseDups.map (·.relativeTo root)

theorem map_some_filterMap {xs : List Path} (h : ∀ x ∈ xs, Inside root x) :
    (xs.filterMap (·.relativeTo root)).map some = xs.map (·.relativeTo root) := by
  induction xs with
  | nil => rfl
  | cons x xs ih =>
      rw [List.forall_mem_cons] at h
      obtain ⟨label, hl⟩ := h.1.exists_label
      simp [hl, ih h.2]

theorem scannedTargets_map_some (ht : IsTree d) (hr : ∀ n ∈ root.segments, '/' ∉ n.toList)
    {file : Path} (hf : Inside root file) (text : String) :
    (scannedTargets d root file text).map some =
      (importedByLines d root file text).eraseDups.map (·.relativeTo root) := by
  have hinside : ∀ x ∈ importedByLines d root file text, Inside root x := by
    intro x hx
    obtain ⟨s, _, hs⟩ := List.mem_filterMap.mp hx
    exact Import.resolve_inside ht hr (hf.slash hr) hs
  have honce := filterMap_eraseDups (f := fun x : Path => x.relativeTo root) fun x hx y hy key hk hk' =>
    relativeTo_inj (hinside x hx) (hinside y hy) hk hk'
  rw [← map_some_filterMap fun x hx => hinside x (List.mem_eraseDups.mp hx), honce, scannedTargets,
    distinct_eq, importedByLines, List.filterMap_filterMap]

theorem scannedEntry_join (hd : IsRegular d) (hr : ∀ n ∈ root.segments, '/' ∉ n.toList)
    (hR : d.FolderAt root R) (h : Source.IsSourceFile d R ns) {e : String × List String} :
    scannedEntry d root maxBytes (root.join ⟨ns⟩) = some e ↔ e.1 = "/".intercalate ns ∧
      ∃ text, Source.Holds d (R ++ ns) maxBytes text ∧ e.2 ≠ [] ∧ e.2.map some =
        (importedByLines d root (root.join ⟨ns⟩) text).eraseDups.map (·.relativeTo root) := by
  have hproper := h.names hd
  have hf : Inside root (root.join ⟨ns⟩) := ⟨ns, h.ne_nil, hproper, rfl⟩
  simp only [← Source.read_join_eq_ok hd hR h, ← scannedTargets_map_some hd.toIsTree hr hf,
    (Option.some_injective String).list_map.eq_iff]
  obtain ⟨key, targets⟩ := e
  rw [scannedEntry, relativeTo_join root h.ne_nil hproper]
  cases Source.read d (root.join ⟨ns⟩) maxBytes with
  | error f => simp
  | ok text =>
      dsimp only
      split
      · next hnone => simp [hnone]
      · next hsome =>
          simp only [Option.map_some, Option.some.injEq, Prod.mk.injEq, Except.ok.injEq,
            exists_eq_left']
          exact ⟨fun ⟨hk, ht⟩ => ⟨hk.symm, ht ▸ hsome, ht.symm⟩, fun ⟨hk, _, ht⟩ => ⟨hk.symm, ht.symm⟩⟩

theorem nodup_importedBy (file : Path) : (importedBy d root maxBytes file).Nodup := by
  unfold importedBy
  split
  · exact .nil
  · exact nodup_eraseDups _

variable {limits : Limits} {F : List (List Name)} {g scan : Graph}

namespace IsScan

theorem ne_nil (h : IsScan d root R limits F g) : ∀ e ∈ g, e.2 ≠ [] := by
  intro e he
  obtain ⟨_, _, _, _, _, hne, _⟩ := (h.entries e).mp he
  exact hne

theorem nodup (hd : IsRegular d) (hr : ∀ n ∈ root.segments, '/' ∉ n.toList)
    (hF : Source.IsSourceList d R F) (h : IsScan d root R limits F g) : ∀ e ∈ g, e.2.Nodup := by
  intro e he
  obtain ⟨ns, hns, _, text, _, _, htargets⟩ := (h.entries e).mp he
  have hsource := hF.mem.mp (List.mem_of_mem_take hns)
  rw [← scannedTargets_map_some hd.toIsTree hr ⟨ns, hsource.ne_nil, hsource.names hd, rfl⟩,
    (Option.some_injective String).list_map.eq_iff] at htargets
  rw [htargets, scannedTargets, distinct_eq]
  exact nodup_eraseDups _

end IsScan

theorem ofScan_isScan (hd : IsRegular d) (hr : ∀ n ∈ root.segments, '/' ∉ n.toList)
    (hR : d.FolderAt root R) (hF : Source.IsSourceList d R F) (limits : Limits) :
    ∃ g, IsScan d root R limits F g ∧
      ofScan d root limits.maxSourceFiles limits.maxParseBytes =
        if g = [] then .empty else .graph g := by
  obtain ⟨F', hF', hfiles⟩ := Source.exists_sourceList hd hR
  obtain rfl := hF.eq hF'
  have hsource : ∀ ns ∈ F.take limits.maxSourceFiles, Source.IsSourceFile d R ns :=
    fun ns hns => hF.mem.mp (List.mem_of_mem_take hns)
  generalize hes : ((F.take limits.maxSourceFiles).map (root.join ⟨·⟩)).filterMap
    (scannedEntry d root limits.maxParseBytes) = es
  have hkeys : (es.map (·.1)).Nodup := by
    rw [← hes, List.filterMap_map, List.Nodup, List.pairwise_map, List.pairwise_filterMap]
    refine (hF.ordered.sublist (List.take_sublist ..)).imp_of_mem ?_
    intro ns ms hns hms hlt e he e' he' hk
    have hn := hsource ns hns
    have hm := hsource ms hms
    have hkey := ((scannedEntry_join hd hr hR hn).mp he).1
    have hkey' := ((scannedEntry_join hd hr hR hm).mp he').1
    obtain rfl := Project.intercalate_inj hn.ne_nil (hn.names hd) hm.ne_nil (hm.names hd)
      (hkey.symm.trans (hk.trans hkey'))
    exact List.lt_irrefl _ hlt
  have hentries : ∀ e, e ∈ es ↔ ∃ ns ∈ F.take limits.maxSourceFiles,
      scannedEntry d root limits.maxParseBytes (root.join ⟨ns⟩) = some e := by
    intro e
    rw [← hes, List.filterMap_map, List.mem_filterMap]
    rfl
  refine ⟨ofList es, ⟨.ofList es, fun e => ?_⟩, ?_⟩
  · rw [mem_ofList hkeys, hentries]
    exact exists_congr fun ns => and_congr_right fun hns =>
      scannedEntry_join hd hr hR (hsource ns hns)
  · have hnil : ofList es = [] ↔ es = [] := by
      simp only [List.eq_nil_iff_forall_not_mem, mem_ofList hkeys]
    have hfolder : d.isFolder root = true := isFolder_iff.mpr ⟨R, hR⟩
    rw [ofScan, hfiles, hfolder]
    dsimp only
    rw [hes, if_congr hnil rfl rfl]
    cases es <;> rfl

section

variable (d : Disk) (root : Path) (limits : Limits) (scan : Graph)

/-- Which graph is taken, by what the search for modules comes to. -/
inductive GraphChoice : Extraction → Prop
  | modules {entry files g} : entryPoint? d root = some entry →
      IsSearch d root limits.maxSourceFiles limits.maxParseBytes entry files g →
      (∃ e ∈ g, e.2 ≠ []) → GraphChoice ⟨g, "module-graph", none⟩
  | edgeless {entry files g} : entryPoint? d root = some entry →
      IsSearch d root limits.maxSourceFiles limits.maxParseBytes entry files g → (∀ e ∈ g, e.2 = []) →
      GraphChoice ⟨scan, "manual-scan", some "module-graph produced an empty graph"⟩
  | entryless : entryPoint? d root = none →
      GraphChoice ⟨scan, "manual-scan", some "module-graph failed: no entry point found"⟩

end

theorem fallBack_manual (h : ofScan d root limits.maxSourceFiles limits.maxParseBytes =
    if scan = [] then .empty else .graph scan) (reason : String) :
    (manual d root limits).fallBack reason = ⟨scan, "manual-scan", some reason⟩ := by
  rw [Strategy.fallBack, manual]
  dsimp only
  rw [h]
  split_ifs with hs
  · rw [hs]
    rfl
  · rfl

theorem ofProject_graphChoice {t : String} (ht : IsTree d)
    (h : ofScan d (.ofText t) limits.maxSourceFiles limits.maxParseBytes =
      if scan = [] then .empty else .graph scan) :
    GraphChoice d (.ofText t) limits scan (ofProject d (.ofText t) limits) := by
  obtain ⟨hnone, hsome⟩ := ofModules_isSearch ht t limits.maxSourceFiles limits.maxParseBytes
  rw [ofProject, Strategy.extract]
  simp only [fallBack_manual h]
  rw [modules]
  dsimp only
  rcases hentry : entryPoint? d (.ofText t) with _ | entry
  · rw [hnone hentry]
    exact .entryless hentry
  · obtain ⟨files, g, hg, hout⟩ := hsome entry hentry
    rw [hout]
    split_ifs with hedges
    · exact .edgeless hentry hg hedges
    · exact .modules hentry hg (by simpa using hedges)

namespace GraphChoice

variable {x : Extraction}

theorem edge (hscan : ∀ e ∈ scan, e.2 ≠ []) (h : GraphChoice d root limits scan x) :
    x.graph = [] ∨ ∃ e ∈ x.graph, e.2 ≠ [] := by
  have hfallback : scan = [] ∨ ∃ e ∈ scan, e.2 ≠ [] := by
    cases scan with
    | nil => exact .inl rfl
    | cons e scan => exact .inr ⟨e, List.mem_cons_self, hscan e List.mem_cons_self⟩
  cases h with
  | modules _ _ hedge => exact .inr hedge
  | edgeless => exact hfallback
  | entryless => exact hfallback

theorem nodup (hscan : ∀ e ∈ scan, e.2.Nodup) (h : GraphChoice d root limits scan x) :
    ∀ e ∈ x.graph, e.2.Nodup := by
  cases h with
  | modules _ hg _ =>
      intro e he
      obtain ⟨_, _, _, htargets⟩ := (hg.entries e).mp he
      rw [htargets]
      exact nodup_importedBy _
  | edgeless => exact hscan
  | entryless => exact hscan

theorem modules_of_nil (hscan : ∀ e ∈ scan, e.2 ≠ []) (h : GraphChoice d root limits scan x)
    (hnil : ∃ e ∈ x.graph, e.2 = []) : x.strategy = "module-graph" := by
  obtain ⟨e, he, hnil⟩ := hnil
  cases h with
  | modules => rfl
  | edgeless => exact absurd hnil (hscan e he)
  | entryless => exact absurd hnil (hscan e he)

end GraphChoice

/-- The graph of a project is that of its modules if they have an edge, and else that of its import
lines, with the reason for that. -/
theorem ofProject_falls_back {t : String} (hd : IsRegular d) (hR : d.FolderAt (.ofText t) R)
    (limits : Limits) : ∃ F scan, Source.IsSourceList d R F ∧ IsScan d (.ofText t) R limits F scan ∧
      GraphChoice d (.ofText t) limits scan (ofProject d (.ofText t) limits) ∧
      ((ofProject d (.ofText t) limits).graph = [] ∨
        ∃ e ∈ (ofProject d (.ofText t) limits).graph, e.2 ≠ []) ∧
      (∀ e ∈ (ofProject d (.ofText t) limits).graph, e.2.Nodup) ∧
      ((∃ e ∈ (ofProject d (.ofText t) limits).graph, e.2 = []) →
        (ofProject d (.ofText t) limits).strategy = "module-graph") := by
  have hr : ∀ n ∈ (Path.ofText t).segments, '/' ∉ n.toList := fun _ => slash_not_mem
  obtain ⟨F, hF, _⟩ := Source.exists_sourceList hd hR
  obtain ⟨scan, hscan, hout⟩ := ofScan_isScan hd hr hR hF limits
  have hchoice := ofProject_graphChoice hd.toIsTree hout
  exact ⟨F, scan, hF, hscan, hchoice, hchoice.edge hscan.ne_nil, hchoice.nodup (hscan.nodup hd hr hF),
    hchoice.modules_of_nil hscan.ne_nil⟩

def repeated : Disk :=
  ⟨[(["p"], ⟨.folder, 0⟩),
    (["p", "a.js"], ⟨.file 0 "import x from './x';\nimport y from './x.js';\n".toUTF8 false, 0⟩),
    (["p", "x.js"], ⟨.file 1 ByteArray.empty false, 0⟩)], [], 0, 2⟩

theorem isRegular_repeated : IsRegular repeated := by decide

theorem ofProject_falls_back_repeated : IsRegular repeated ∧
    repeated.FolderAt (.ofText "p") ["p"] ∧ entryPoint? repeated (.ofText "p") = none ∧
    ∃ F scan, Source.IsSourceList repeated ["p"] F ∧
      IsScan repeated (.ofText "p") ["p"] {} F scan ∧ scan = [("a.js", ["x.js"])] ∧
      ofProject repeated (.ofText "p") {} =
        ⟨scan, "manual-scan", some "module-graph failed: no entry point found"⟩ := by
  have hR : repeated.FolderAt (.ofText "p") ["p"] := ⟨0, rfl⟩
  have hnone : entryPoint? repeated (.ofText "p") = none := by decide
  have hfiles : (Source.files repeated (.ofText "p") 5000).files =
      [.ofText "p/a.js", .ofText "p/x.js"] := by cbv
  have hgraph : (ofProject repeated (.ofText "p") {}).graph = [("a.js", ["x.js"])] := by
    rw [ofProject, manual, ofScan, hfiles]
    decide +kernel
  obtain ⟨F, scan, hF, hscan, hchoice, _⟩ := ofProject_falls_back isRegular_repeated hR {}
  generalize ofProject repeated (.ofText "p") {} = x at hchoice hgraph
  cases hchoice with
  | modules hentry => cases hnone.symm.trans hentry
  | edgeless hentry => cases hnone.symm.trans hentry
  | entryless => exact ⟨isRegular_repeated, hR, hnone, F, scan, hF, hscan, hgraph, rfl⟩

end Graph

end SourceAtlas
