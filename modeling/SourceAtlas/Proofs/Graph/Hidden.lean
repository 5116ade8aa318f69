import Mathlib
import SourceAtlas.Proofs.Graph.Files

namespace SourceAtlas

open Disk SourceAtlas.Path

namespace Path

/-- Seen from the base, every step of the path is to an entry that a scan looks at. -/
def IsVisible (base p : Path) : Prop :=
  ∃ cs, p.stripPrefix base = some cs ∧ ∀ c ∈ cs, c.isExcluded = false

theorem isVisible_join (root : Path) {ns : List Name} (hn : ns ≠ []) (h : ∀ n ∈ ns, n.IsProper) :
    IsVisible root (root.join ⟨ns⟩) ↔ ∀ n ∈ ns, n.isExcluded = false := by
  simp [IsVisible, stripPrefix_join root hn h, Step.isExcluded]

theorem isVisible_label {root x : Path} {label : String} (hx : Inside root x)
    (hl : x.relativeTo root = some label) :
    IsVisible Path.empty (.ofText label) ↔ IsVisible root x := by
  obtain ⟨ns, hn, hp, rfl⟩ := hx
  rw [relativeTo_join root hn hp] at hl
  cases hl
  have hj : Path.empty.join ⟨ns⟩ = ⟨ns⟩ :=
    congrArg Path.mk (segments_join (isAbsolute_names hp))
  rw [ofText_names hn hp, isVisible_join root hn hp, ← isVisible_join Path.empty hn hp, hj]

end Path

namespace Import

variable {d : Disk} {root importer x : Path}

theorem excluded_suffix : ∀ suffix ∈ suffixes, Name.isExcluded suffix = true := by decide

theorem visible_append {n : Name} (hn : n ≠ "") (hv : n.isExcluded = false) {suffix : String}
    (hs : suffix ∈ suffixes) : Name.isExcluded (n ++ suffix) = false := by
  have hdot : ∀ suffix ∈ suffixes, '.' ∈ suffix.toList := by decide
  have hne : n ++ suffix ≠ packageFolder := by
    intro he
    have hm : '.' ∈ (n ++ suffix).toList := by
      rw [String.toList_append]
      exact List.mem_append_right _ (hdot suffix hs)
    rw [he] at hm
    exact absurd hm (by decide)
  have hhead : (n ++ suffix).toList.head? = n.toList.head? := by
    rw [String.toList_append, List.head?_append_of_ne_nil _ (by simpa using hn)]
  rw [Name.isExcluded, Bool.or_eq_false_iff] at hv ⊢
  exact ⟨by rw [hhead]; exact hv.1, beq_false_of_ne hne⟩

theorem Spelling.visible {names ns : List Name} (h : Spelling names ns)
    (hp : ∀ n ∈ names, n.IsProper) (hv : ∀ n ∈ names, n.isExcluded = false) :
    (∀ n ∈ ns, n.isExcluded = false) ∨ names = [] ∧ ∃ suffix ∈ suffixes, ns = [suffix] := by
  cases h with
  | plain => exact .inl hv
  | @suffixed as n _ hs =>
      refine .inl fun m hm => ?_
      rcases List.mem_append.mp hm with hm | hm
      · exact hv m (by simp [hm])
      · rw [List.mem_singleton.mp hm]
        exact visible_append (hp n (by simp)).ne_empty (hv n (by simp)) hs
  | bare hs => exact .inr ⟨rfl, _, hs, rfl⟩
  | index hs =>
      refine .inl fun m hm => ?_
      rcases List.mem_append.mp hm with hm | hm
      · exact hv m hm
      · rw [List.mem_singleton.mp hm]
        exact visible_append (by decide) (by decide) hs

theorem resolve_visible (ht : IsTree d) (hr : ∀ n ∈ root.segments, '/' ∉ n.toList)
    (hi : ∀ n ∈ importer.segments, '/' ∉ n.toList) {specifier : String}
    (h : resolve d root importer specifier = some x) :
    IsVisible root x ∨ target root importer specifier = some Path.empty ∧
      ∃ suffix ∈ suffixes, x = root.join ⟨[suffix]⟩ := by
  obtain ⟨names, ns, htarget, hp, hv, hsp, rfl⟩ := resolve_names ht hr hi h
  rcases hsp.visible hp hv with hv | ⟨rfl, suffix, hs, rfl⟩
  · exact .inl ((isVisible_join root hsp.ne_nil (hsp.proper hp)).mpr hv)
  · exact .inr ⟨htarget, suffix, hs, rfl⟩

theorem hidden_suffix (root : Path) {suffix : String} (hs : suffix ∈ suffixes) :
    ¬ IsVisible root (root.join ⟨[suffix]⟩) := by
  have hp : ∀ n ∈ [suffix], Name.IsProper n := by simpa using proper_suffix suffix hs
  rw [isVisible_join root (by simp) hp]
  intro h
  have hv := h suffix (by simp)
  rw [excluded_suffix suffix hs] at hv
  cases hv

theorem not_isSource_suffix (root : Path) {suffix : String} (hs : suffix ∈ suffixes) :
    (root.join ⟨[suffix]⟩).isSource = false := by
  have hp : ∀ n ∈ [suffix], Name.IsProper n := by simpa using proper_suffix suffix hs
  have hname : (root.join ⟨[suffix]⟩).fileName = some suffix := by
    rw [fileName, steps_join_names root (by simp) hp, List.map_singleton, List.getLast?_concat]
  have hext : ∀ suffix ∈ suffixes, (Name.splitExtension suffix).2 = none := by decide
  rw [isSource, extension, hname, Option.bind_some, hext suffix hs]

theorem resolve_bare (ht : IsTree d) (hr : ∀ n ∈ root.segments, '/' ∉ n.toList) {specifier : String}
    (hs : isRelative specifier = true) (htarget : target root importer specifier = some Path.empty)
    (hf : ∃ suffix ∈ suffixes, d.isFile (root.join ⟨[suffix]⟩) = true) :
    ∃ suffix ∈ suffixes, resolve d root importer specifier = some (root.join ⟨[suffix]⟩) := by
  obtain ⟨suffix, hmem, hfile⟩ := hf
  rw [← withSuffix_empty hr hmem] at hfile
  have hsome : ((suffixes.map (withSuffix (root.join Path.empty))).find? d.isFile).isSome = true :=
    List.find?_isSome.mpr ⟨_, List.mem_map.mpr ⟨suffix, hmem, rfl⟩, hfile⟩
  obtain ⟨x, hx⟩ := Option.isSome_iff_exists.mp hsome
  obtain ⟨suffix', hmem', rfl⟩ := List.mem_map.mp (List.mem_of_find?_eq_some hx)
  refine ⟨suffix', hmem', ?_⟩
  rw [resolve, if_neg (by simp [hs])]
  show (target root importer specifier).bind _ = _
  rw [htarget, Option.bind_some, candidates, List.find?_append,
    List.find?_cons_of_neg (by simp [isFile_join_empty ht]), hx, Option.some_or,
    withSuffix_empty hr hmem']

end Import

namespace Graph

variable {d : Disk} {root : Path}

theorem ofModules_visible (ht : IsTree d) (hr : ∀ n ∈ root.segments, '/' ∉ n.toList)
    {maxFiles maxBytes : Nat} {g : Graph} (h : ofModules d root maxFiles maxBytes = .graph g) :
    g.Tells root (fun x => Inside root x ∧ IsVisible root x)
      fun _ x => Inside root x ∧ IsVisible root x := by
  have htargets : ∀ f x, Inside root f → x ∈ targetsOf d root maxBytes f →
      Inside root x ∧ IsVisible root x := by
    intro f x hf hx
    refine ⟨targetsOf_inside ht hr hf hx, ?_⟩
    obtain ⟨hsource, s, hs⟩ := mem_targetsOf hx
    rcases Import.resolve_visible ht hr (hf.slash hr) hs with hv | ⟨_, suffix, hmem, rfl⟩
    · exact hv
    · rw [Import.not_isSource_suffix root hmem] at hsource
      cases hsource
  refine (ofModules_tells (P := fun x => Inside root x ∧ IsVisible root x) (fun x hx => ?_)
    (fun f x hf => htargets f x hf.1) h).mono (fun _ h => h) fun f x hf => htargets f x hf.1
  obtain ⟨ns, hn, hp, hv, rfl⟩ := entryPoint_names hx
  exact ⟨⟨ns, hn, hp, rfl⟩, (isVisible_join root hn hp).mpr hv⟩

/-- An import line of the file leads back to the root. -/
def ImportsRoot (d : Disk) (root : Path) (maxBytes : Nat) (file : Path) : Prop :=
  ∃ text, Source.read d file maxBytes = .ok text ∧
    ∃ s ∈ Import.specifiers text, Import.target root file s = some Path.empty

theorem ofScan_visible (hd : IsRegular d) (hr : ∀ n ∈ root.segments, '/' ∉ n.toList)
    {maxFiles maxBytes : Nat} {g : Graph} (h : ofScan d root maxFiles maxBytes = .graph g) :
    g.Tells root (fun x => Inside root x ∧ IsVisible root x) fun f x =>
      Inside root x ∧ d.isFile x = true ∧ (IsVisible root x ∨
        ImportsRoot d root maxBytes f ∧ ∃ suffix ∈ Import.suffixes, x = root.join ⟨[suffix]⟩) := by
  obtain ⟨⟨R, hR⟩, ht⟩ := ofScan_tells h
  refine ht.mono (fun x hx => ?_) fun f x hf hx => ?_
  · obtain ⟨ns, hn, hp, hv, rfl, _⟩ := Source.files_isBelow hd hR hx
    exact ⟨⟨ns, hn, hp, rfl⟩, (isVisible_join root hn hp).mpr hv⟩
  · have hslash := (Source.files_isBelow hd hR hf).inside.slash hr
    obtain ⟨text, htext, s, hs, hx⟩ := hx
    refine ⟨Import.resolve_inside hd.toIsTree hr hslash hx, Import.resolve_isFile hx, ?_⟩
    rcases Import.resolve_visible hd.toIsTree hr hslash hx with hv | ⟨htarget, hsuffix⟩
    · exact .inl hv
    · exact .inr ⟨⟨text, htext, s, hs, htarget⟩, hsuffix⟩

/-- Specifiers, and the graph with them, lead to a hidden file just where one leads back to the root
and the root has a file named by a suffix alone. -/
theorem hidden_iff_suffix (hd : IsRegular d) (t : String) :
    (∀ i s, (∃ x, Import.resolve d (.ofText t) (.ofText i) s = some x ∧ ¬ IsVisible (.ofText t) x) ↔
      Import.isRelative s = true ∧ Import.target (.ofText t) (.ofText i) s = some Path.empty ∧
        ∃ suffix ∈ Import.suffixes, d.isFile ((Path.ofText t).join ⟨[suffix]⟩) = true) ∧
    ∀ limits, ∀ e ∈ (ofProject d (.ofText t) limits).graph,
      IsVisible Path.empty (.ofText e.1) ∧
      ∀ u ∈ e.2, IsVisible Path.empty (.ofText u) ∨
        (ofProject d (.ofText t) limits).strategy = "manual-scan" ∧ u ∈ Import.suffixes ∧
        d.isFile ((Path.ofText t).join (.ofText u)) = true ∧
        ImportsRoot d (.ofText t) limits.maxParseBytes ((Path.ofText t).join (.ofText e.1)) := by
  have hr : ∀ n ∈ (Path.ofText t).segments, '/' ∉ n.toList := fun _ => slash_not_mem
  refine ⟨fun i s => ⟨?_, ?_⟩, fun limits e he => ?_⟩
  · rintro ⟨x, hx, hidden⟩
    have hfile := Import.resolve_isFile hx
    rcases Import.resolve_visible hd.toIsTree hr (fun _ => slash_not_mem) hx with
      hv | ⟨htarget, suffix, hs, rfl⟩
    · exact absurd hv hidden
    · exact ⟨Import.isRelative_of_resolve hx, htarget, suffix, hs, hfile⟩
  · rintro ⟨hs, htarget, hf⟩
    obtain ⟨suffix, hmem, hx⟩ := Import.resolve_bare hd.toIsTree hr hs htarget hf
    exact ⟨_, hx, Import.hidden_suffix _ hmem⟩
  · rcases ofProject_graph d (.ofText t) limits with ⟨hg, _⟩ | ⟨hg | hg, hscan⟩
    · obtain ⟨x, ⟨hin, hv⟩, hk, ht⟩ := ofModules_visible hd.toIsTree hr hg e he
      refine ⟨(isVisible_label hin hk).mpr hv, fun u hu => .inl ?_⟩
      obtain ⟨y, ⟨hin, hv⟩, hl⟩ := ht u hu
      exact (isVisible_label hin hl).mpr hv
    · obtain ⟨x, ⟨hin, hv⟩, hk, ht⟩ := ofScan_visible hd hr hg e he
      refine ⟨(isVisible_label hin hk).mpr hv, fun u hu => ?_⟩
      obtain ⟨y, ⟨hyin, hfile, hy⟩, hl⟩ := ht u hu
      -- only a line that leads back to the root can name a hidden file, one in the root itself
      rcases hy with hv | ⟨himports, suffix, hs, rfl⟩
      · exact .inl ((isVisible_label hyin hl).mpr hv)
      · rw [hin.join_label hk, hyin.join_label hl]
        rw [relativeTo_name _ (Import.proper_suffix suffix hs)] at hl
        cases hl
        exact .inr ⟨hscan, hs, hfile, himports⟩
    · rw [hg] at he
      cases he

def bareDisk : Disk :=
  ⟨[(["p"], ⟨.folder, 0⟩), (["p", "a.js"], ⟨.file 0 "import x from '.';\n".toUTF8 false, 0⟩),
    (["p", ".ts"], ⟨.file 1 ByteArray.empty false, 0⟩)], [], 0, 2⟩

theorem isRegular_bareDisk : IsRegular bareDisk := by decide

theorem hidden_iff_suffix_bare :
    IsRegular bareDisk ∧
    Import.target (.ofText "p") (.ofText "p/a.js") "." = some Path.empty ∧
    ∃ x, Import.resolve bareDisk (.ofText "p") (.ofText "p/a.js") "." = some x ∧
      ¬ IsVisible (.ofText "p") x := by
  have htarget : Import.target (.ofText "p") (.ofText "p/a.js") "." = some Path.empty := by decide
  refine ⟨isRegular_bareDisk, htarget, ?_⟩
  exact ((hidden_iff_suffix isRegular_bareDisk "p").1 "p/a.js" ".").mpr
    ⟨by decide, htarget, ".ts", by decide, by decide⟩

theorem graph_tells_hidden :
    IsRegular bareDisk ∧
    Import.resolve bareDisk (.ofText "p") (.ofText "p/a.js") "." =
      some ((Path.ofText "p").join ⟨[".ts"]⟩) ∧
    ¬ IsVisible (.ofText "p") ((Path.ofText "p").join ⟨[".ts"]⟩) ∧
    (ofProject bareDisk (.ofText "p") {}).graph = [("a.js", [".ts"])] := by
  refine ⟨isRegular_bareDisk, by decide, Import.hidden_suffix _ (by decide), ?_⟩
  have hfiles : (Source.files bareDisk (.ofText "p") 5000).files = [.ofText "p/a.js"] := by cbv
  rw [ofProject, manual, ofScan, hfiles]
  decide +kernel

end Graph

end SourceAtlas
