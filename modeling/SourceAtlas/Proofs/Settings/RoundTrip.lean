import SourceAtlas.Proofs.Disk.Contents
import SourceAtlas.Proofs.Disk.Growth
import SourceAtlas.Proofs.Json.RoundTrip
import SourceAtlas.Proofs.Yaml.Document
import SourceAtlas.Settings.File

namespace SourceAtlas

namespace Disk

/-- There is a file, or nothing is in its way. -/
def IsWritable (d : Disk) (p : Path) : Prop :=
  ∃ q, d.locate true p = .ok ⟨q, none, false⟩ ∨
    ∃ i b x t, d.locate true p = .ok ⟨q, some ⟨.file i b x, t⟩, false⟩

theorem writeText_ok_iff {d : Disk} {p : Path} (s : String) :
    (∃ d', (writeText p s).run d = (.ok (), d')) ↔ d.IsWritable p := by
  constructor
  · rintro ⟨d', h⟩
    obtain ⟨q, ⟨i, b, x, t, hl, _⟩ | ⟨hl, _⟩⟩ := writeBytes_ok h
    · exact ⟨q, .inr ⟨i, b, x, t, hl⟩⟩
    · exact ⟨q, .inl hl⟩
  · rintro ⟨q, hl | ⟨i, b, x, t, hl⟩⟩ <;>
      rw [writeText, writeBytes, Work.run_discard, openWith_run, hl] <;> exact ⟨_, rfl⟩

theorem readText_of_writeText {d d' : Disk} {p : Path} {s : String}
    (h : (writeText p s).run d = (.ok (), d')) : d'.readText p = .ok s := by
  have hread : ∀ {q i x t}, d'.locate true p = .ok ⟨q, some ⟨.file i s.toUTF8 x, t⟩, false⟩ →
      d'.readText p = .ok s := fun hl => by
    rw [readText_of_stat (stat_eq_ok.mpr hl), Record.text]
    simp only [textOf, Json.fromUTF8_toUTF8]
  obtain ⟨q, ⟨i, b, x, t, hl, rfl⟩ | ⟨hl, rfl⟩⟩ := writeBytes_ok h
  · have hf := found?_of_get? (locate_record hl).symm
    obtain ⟨hp, hw⟩ := locate_eq_ok.mp hl
    have hx : Extends d (d.set q ⟨.file i s.toUTF8 x, d.now⟩) := .rewrite hf
    have hq : q ≠ [] := by
      rintro rfl
      cases hf
    have hw' := hw.extend hx hf
    rw [get?_set_self hq, ← start_extend hx p] at hw'
    exact hread (locate_eq_ok.mpr ⟨hp.extend hx, hw'⟩)
  · obtain ⟨hn, hq⟩ := free_of_locate hl
    obtain ⟨hp, hw⟩ := locate_eq_ok.mp hl
    have hx : Extends d (d.newFile q s.toUTF8 false) := .newFile hq hn
    have hnew : (d.newFile q s.toUTF8 false).get? q =
        some ⟨.file d.nextId s.toUTF8 false, d.now⟩ := by
      rw [get?_newFile, get?_put_self hq]
    have hw' := hw.filled_file hx rfl rfl (found?_of_get? hnew)
    rw [hnew, ← start_extend hx p] at hw'
    exact hread (locate_eq_ok.mpr ⟨hp.extend hx, hw'⟩)

end Disk

namespace Settings

open Yaml (Document Leaf Line Node entryLine sectionLine writeLines)
open Yaml.Scanner (IsName)

def retentionEntries (n : Nat) : List (String × Leaf) := [("max_age_hours", .number n)]

def fileLines (s : Settings) : List Line :=
  s.namedPaths.map (fun e => entryLine 0 (e.1, .text e.2.text.toList)) ++
    [sectionLine "limits" 2 ((limitEntries s.limits).map (entryLine 2)),
     sectionLine "clone" 2 ((cloneEntries s.clone).map (entryLine 2)),
     sectionLine "retention" 2 ((retentionEntries s.maxAgeHours).map (entryLine 2))]

theorem toYaml_eq (s : Settings) : s.toYaml = writeLines s.fileLines := by
  unfold toYaml writeLines fileLines
  generalize "---\n".toList = front
  simp only [List.flatMap_append, List.flatMap_map, Yaml.writeSection_eq, Yaml.writeEntry_eq,
    retentionEntries, List.flatMap_cons, List.flatMap_nil, List.append_nil, List.append_assoc, Nat.mul_zero]

theorem names_limitEntries (l : Limits) :
    (limitEntries l).map Prod.fst = limitFields.map Prod.fst := rfl

theorem names_cloneEntries (c : CloneSettings) :
    (cloneEntries c).map Prod.fst = cloneFields.map Prod.fst := rfl

theorem names_retentionEntries (n : Nat) :
    (retentionEntries n).map Prod.fst = retentionFields.map Prod.fst := rfl

theorem isSound_section {name : String} {es : List (String × Leaf)} {names : List String}
    (hname : IsName name.toList) (hes : es.map Prod.fst = names) (hne : names ≠ [])
    (hnames : ∀ n ∈ names, IsName n.toList) :
    (sectionLine name 2 (es.map (entryLine 2))).IsSound 0 := by
  refine Yaml.isSound_sectionLine hname (by decide) ?_ ?_
  · rintro h
    rw [List.map_eq_nil_iff] at h
    exact hne (hes ▸ h ▸ rfl)
  · intro e he
    obtain ⟨x, hx, rfl⟩ := List.mem_map.mp he
    exact Yaml.isSound_entryLine (hnames x.1 (hes ▸ List.mem_map_of_mem hx)) 2

theorem isSound_fileLines (s : Settings) : ∀ e ∈ s.fileLines, e.IsSound 0 := by
  intro e he
  rcases List.mem_append.mp he with he | he
  · obtain ⟨x, hx, rfl⟩ := List.mem_map.mp he
    have hnames : ∀ n ∈ ["projects_dir", "uploads_dir", "error_log"], IsName n.toList := by decide
    have hx : x.1 ∈ s.namedPaths.map Prod.fst := List.mem_map_of_mem hx
    exact Yaml.isSound_entryLine (hnames x.1 hx) 0
  · simp only [List.mem_cons, List.not_mem_nil, or_false] at he
    rcases he with rfl | rfl | rfl
    · exact isSound_section (by decide) (names_limitEntries s.limits) (by decide) (by decide)
    · exact isSound_section (by decide) (names_cloneEntries s.clone) (by decide) (by decide)
    · exact isSound_section (by decide) (names_retentionEntries s.maxAgeHours) (by decide)
        (by decide)

def limitNumbers (l : Limits) : List Nat :=
  [l.maxArchiveBytes, l.maxArchiveFiles, l.maxUncompressedBytes, l.archiveValidationTimeout,
   l.maxTreeDepth, l.maxDirEntries, l.maxSourceFiles, l.maxParseBytes, l.analysisTimeout,
   l.maxContextFiles, l.contextSnippetChars]

/-- Every path is written as a text, and no number is wider than its type. -/
structure IsTyped (s : Settings) : Prop where
  paths : ∀ e ∈ s.namedPaths, ∃ t, e.2 = Path.ofText t
  limits : ∀ n ∈ limitNumbers s.limits, n ≤ wordMax
  attemptTimeout : s.clone.attemptTimeout ≤ wordMax
  maxAttempts : s.clone.maxAttempts ≤ shortWordMax
  backoffBase : s.clone.backoffBase ≤ wordMax
  maxAgeHours : s.maxAgeHours ≤ wordMax

section Reading

variable {α β : Type} {fields : List (String × Update α)} {es : List (String × Node)} {name : String}
  {n limit : Nat}

def keyed (e : String × Node) : Node × Node := (.scalar e.1.toList .plain none, e.2)

def leafNode (v : Leaf) : Node := .scalar v.letters v.style none

def leafNodes (es : List (String × Leaf)) : List (String × Node) :=
  es.map fun e => (e.1, leafNode e.2)

theorem pairs_entryLine (column : Nat) (es : List (String × Leaf)) :
    (es.map (entryLine column)).map Line.pair = (leafNodes es).map keyed := by
  rw [leafNodes, List.map_map, List.map_map]
  rfl

def setAll (fields : List (String × Update α)) (doc : Document) (es : List (String × Node)) (a : α) :
    Option α :=
  (fields.zip es).foldlM (fun a x => x.1.2 doc x.2.2 a) a

theorem setAll_nil (doc : Document) (a : α) : setAll [] doc es a = some a := rfl

theorem setAll_cons (f : String × Update α) (doc : Document) (e : String × Node) (a : α) :
    setAll (f :: fields) doc (e :: es) a = (f.2 doc e.2 a).bind (setAll fields doc es) := rfl

theorem applyPairs_suffix (hnodup : (fields.map Prod.fst).Nodup) (doc : Document)
    {done rest : List (String × Update α)} (hfields : fields = done ++ rest)
    (hes : es.map Prod.fst = rest.map Prod.fst) (a : α) :
    applyPairs fields doc (done.map Prod.fst).reverse (es.map keyed) a = setAll rest doc es a := by
  -- the keys seen so far are those of the fields in front
  induction es generalizing done rest a with
  | nil =>
      cases List.map_eq_nil_iff.mp hes.symm
      rfl
  | cons e es ih =>
      obtain ⟨⟨key, f⟩, rest, rfl, hkey, hes⟩ := List.map_eq_cons_iff.mp hes.symm
      have hfresh : key ∉ done.map Prod.fst := fun hmem => by
        rw [hfields, List.map_append, List.map_cons, List.nodup_append] at hnodup
        exact hnodup.2.2 key hmem key List.mem_cons_self rfl
      have hlookup : fields.lookup key = some f := by
        refine List.lookup_eq_some_iff.mpr ⟨done, rest, hfields, fun p hp => ?_⟩
        exact bne_iff_ne.mpr fun h => hfresh (h ▸ List.mem_map_of_mem hp)
      have hseen : (done.map Prod.fst).reverse.contains key = false := by
        rwa [← Bool.not_eq_true, List.contains_iff_mem, List.mem_reverse]
      have htext : textOf doc (.scalar e.1.toList .plain none) = some key := by
        rw [← hkey]
        exact congrArg some String.ofList_toList
      have hnext : ∀ a, applyPairs fields doc (key :: (done.map Prod.fst).reverse) (es.map keyed) a =
          setAll rest doc es a := fun a => by
        have hsplit : fields = (done ++ [(key, f)]) ++ rest := by
          rw [hfields, List.append_assoc]
          rfl
        have hrest := ih hsplit hes.symm a
        rwa [List.map_append, List.reverse_append] at hrest
      rw [List.map_cons, keyed, applyPairs, htext, Option.bind_eq_bind, Option.bind_some, hlookup]
      dsimp only
      rw [hseen, if_neg Bool.false_ne_true, setAll_cons]
      exact congrArg _ (funext hnext)

theorem applyPairs_eq_setAll (hnodup : (fields.map Prod.fst).Nodup) (doc : Document)
    (hes : es.map Prod.fst = fields.map Prod.fst) (a : α) :
    applyPairs fields doc [] (es.map keyed) a = setAll fields doc es a :=
  applyPairs_suffix hnodup doc (List.nil_append fields).symm hes a

theorem number_leaf (h : n ≤ limit) (set : Nat → α → α) (doc : Document) (a : α) :
    number limit set doc (leafNode (.number n)) a = some (set n a) := by
  have hnatural := Yaml.natural?_toDigits n
  have hread : numberOf limit doc (leafNode (.number n)) = some n := by
    simp [numberOf, leafNode, Leaf.letters, Leaf.style, Document.resolve, hnatural, h]
  rw [number, hread]
  rfl

theorem path_leaf (t : String) (set : Path → α → α) (doc : Document) (a : α) :
    path set doc (leafNode (.text t.toList)) a = some (set (Path.ofText t) a) := by
  have hread : textOf doc (leafNode (.text t.toList)) = some t := congrArg some String.ofList_toList
  rw [path, hread]
  rfl

theorem nested_section (hnodup : (fields.map Prod.fst).Nodup) {doc : Document}
    {es : List (String × Leaf)} (hes : es.map Prod.fst = fields.map Prod.fst) {init b : α}
    (hread : setAll fields doc (leafNodes es) init = some b) (set : α → β → β) (a : β) :
    nested fields init set doc (sectionLine name 2 (es.map (entryLine 2))).node a = some (set b a) := by
  have hnames : (leafNodes es).map Prod.fst = fields.map Prod.fst := by
    rw [← hes, leafNodes, List.map_map]
    rfl
  have hpairs : pairsOf doc (sectionLine name 2 (es.map (entryLine 2))).node =
      some ((leafNodes es).map keyed) := congrArg some (pairs_entryLine 2 es)
  rw [nested, hpairs, Option.bind_eq_bind, Option.bind_some, applyPairs_eq_setAll hnodup doc hnames, hread]
  rfl

end Reading

theorem setAll_limits {l : Limits} (h : ∀ n ∈ limitNumbers l, n ≤ wordMax) (doc : Document) :
    setAll limitFields doc (leafNodes (limitEntries l)) {} = some l := by
  simp only [limitNumbers, List.forall_mem_cons] at h
  simp only [limitFields, leafNodes, limitEntries, List.map_cons, setAll_cons, setAll_nil, number_leaf, h,
    Option.bind_some]

theorem setAll_clone {s : Settings} (hs : s.IsTyped) (doc : Document) :
    setAll cloneFields doc (leafNodes (cloneEntries s.clone)) {} = some s.clone := by
  simp only [cloneFields, leafNodes, cloneEntries, List.map_cons, setAll_cons, setAll_nil, number_leaf,
    hs.attemptTimeout, hs.maxAttempts, hs.backoffBase, Option.bind_some]

theorem setAll_retention {n : Nat} (h : n ≤ wordMax) (doc : Document) (init : Nat) :
    setAll retentionFields doc (leafNodes (retentionEntries n)) init = some n := by
  simp only [retentionFields, leafNodes, retentionEntries, List.map_cons, setAll_cons, setAll_nil,
    number_leaf h, Option.bind_some]

def fileNodes (s : Settings) : List (String × Node) :=
  leafNodes (s.namedPaths.map fun e => (e.1, .text e.2.text.toList)) ++
    [("limits", (sectionLine "limits" 2 ((limitEntries s.limits).map (entryLine 2))).node),
     ("clone", (sectionLine "clone" 2 ((cloneEntries s.clone).map (entryLine 2))).node),
     ("retention", (sectionLine "retention" 2 ((retentionEntries s.maxAgeHours).map (entryLine 2))).node)]

theorem setAll_fields {s : Settings} (hs : s.IsTyped) (doc : Document) :
    setAll fields doc s.fileNodes {} = some s := by
  have hpaths : ∀ e ∈ s.namedPaths, Path.ofText e.2.text = e.2 := by
    intro e he
    obtain ⟨t, ht⟩ := hs.paths e he
    rw [ht, Path.text_ofText]
  simp only [namedPaths, List.forall_mem_cons] at hpaths
  simp only [fields, fileNodes, leafNodes, namedPaths, List.map_cons, List.map_nil, List.cons_append,
    List.nil_append, setAll_cons, setAll_nil, path_leaf, hpaths, Option.bind_some,
    nested_section (by decide) (names_limitEntries s.limits) (setAll_limits hs.limits doc),
    nested_section (by decide) (names_cloneEntries s.clone) (setAll_clone hs doc),
    nested_section (by decide) (names_retentionEntries s.maxAgeHours)
      (setAll_retention hs.maxAgeHours doc _)]

theorem pairs_fileLines (s : Settings) : s.fileLines.map Line.pair = s.fileNodes.map keyed := by
  have hpaths : s.namedPaths.map (fun e => entryLine 0 (e.1, .text e.2.text.toList)) =
      (s.namedPaths.map fun e => (e.1, .text e.2.text.toList)).map (entryLine 0) := by
    rw [List.map_map]
    rfl
  rw [fileLines, fileNodes, List.map_append, List.map_append, hpaths, pairs_entryLine]
  rfl

theorem ofText?_toYaml {s : Settings} (hs : s.IsTyped) : ofText? (String.ofList s.toYaml) = some s := by
  have hne : s.fileLines ≠ [] := nofun
  rw [ofText?, String.toList_ofList, toYaml_eq, Yaml.ofText?_writeLines hne (isSound_fileLines s),
    pairs_fileLines, Option.bind_eq_bind, Option.bind_some]
  dsimp only
  have hpairs : ∀ doc, pairsOf doc (.mapping (s.fileNodes.map keyed)) = some (s.fileNodes.map keyed) :=
    fun _ => rfl
  rw [hpairs, Option.bind_eq_bind, Option.bind_some, applyPairs_eq_setAll (by decide) _ (by rfl),
    setAll_fields hs]

/-- Settings that are acceptable can be saved wherever a file can be written, and then they are what is
loaded. -/
theorem load_save {s : Settings} (hs : s.IsTyped) (hv : s.rejections = []) (d : Disk) (p : Path) :
    ((∃ d', (save s p).run d = (.ok (), d')) ↔ d.IsWritable p) ∧
      ∀ d', (save s p).run d = (.ok (), d') → load d' p = .ok s := by
  refine ⟨Disk.writeText_ok_iff _, fun d' h => ?_⟩
  rw [load, Disk.readText_of_writeText h]
  dsimp only
  rw [ofText?_toYaml hs]
  dsimp only
  rw [hv]

def awkward : Settings where
  projectsDir := .ofText "'a': \"b\" # c\n\n  d \n"
  uploadsDir := .ofText "null"
  errorLog := .ofText "0x1F"
  limits := { maxTreeDepth := 0, maxParseBytes := wordMax }
  clone := { maxAttempts := shortWordMax, backoffBase := 0 }
  maxAgeHours := wordMax

theorem load_save_awkward :
    (awkward.IsTyped ∧ awkward.rejections = [] ∧ Disk.blank.IsWritable (.ofText "/settings.yaml")) ∧
      ∃ d, (save awkward (.ofText "/settings.yaml")).run .blank = (.ok (), d) ∧
        load d (.ofText "/settings.yaml") = .ok awkward := by
  have htyped : awkward.IsTyped := by
    refine ⟨?_, by decide, by decide, by decide, by decide, by decide⟩
    simp only [namedPaths, List.forall_mem_cons]
    exact ⟨⟨_, rfl⟩, ⟨_, rfl⟩, ⟨_, rfl⟩, nofun⟩
  have hvalid : awkward.rejections = [] := by decide
  have hfree : Disk.blank.IsWritable (.ofText "/settings.yaml") := ⟨["settings.yaml"], .inl (by rfl)⟩
  obtain ⟨hsaved, hloaded⟩ := load_save htyped hvalid .blank (.ofText "/settings.yaml")
  obtain ⟨d, hd⟩ := hsaved.mpr hfree
  exact ⟨⟨htyped, hvalid, hfree⟩, d, hd, hloaded d hd⟩

end Settings

end SourceAtlas
