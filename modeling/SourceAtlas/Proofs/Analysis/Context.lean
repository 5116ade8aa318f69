import Mathlib
import SourceAtlas.Analysis.Context
import SourceAtlas.Proofs.Analysis.Paths
import SourceAtlas.Proofs.Disk.Contents

namespace SourceAtlas

open Disk SourceAtlas.Path

namespace Disk

theorem exists?_iff {d : Disk} {p : Path} :
    d.exists? p = true ↔ ∃ q r, d.stat p = .ok (q, r) := by
  unfold exists?
  rcases d.stat p with e | ⟨q, r⟩ <;> simp [Except.toOption]

end Disk

namespace Project

variable {d : Disk} {D : Path} {P : Place}

theorem join_ne {n : Name} (hn : n.IsProper) : D.join ⟨[n]⟩ ≠ D := by
  intro h
  have hs := segments_join (p := D) (q := ⟨[n]⟩) (isAbsolute_names (by simpa using hn))
  rw [h] at hs
  rcases D.segments_eq_front with hf | hf
  · rw [← hf] at hs
    have := congrArg List.length hs
    rw [List.length_append] at this
    simp at this
  · rw [hs] at hf
    have := List.append_cancel_left hf
    have hi := hn.inner
    rw [List.singleton_inj.mp this] at hi
    cases hi

theorem effectiveRoot_cases (hd : IsRegular d) (hP : d.FolderAt D P)
    (hl : ∀ {q t}, P <+: q → d.found? q ≠ some (.link t)) :
    effectiveRoot d D = D ∨ ∃ n : Name, n.IsProper ∧ effectiveRoot d D = D.join ⟨[n]⟩ ∧
      d.FolderAt (D.join ⟨[n]⟩) (P ++ [n]) ∧
      ∀ m r, d.get? (P ++ [m]) = some r → m = n ∨ m = resourceForks := by
  unfold effectiveRoot
  rw [list_of_folderAt hP]
  dsimp only
  split
  · next n r hf =>
      split
      · next hr =>
          have hm : (n, r) ∈ d.children P := by
            have hx : (n, r) ∈ (d.children P).filter (·.1 ≠ resourceForks) := by
              rw [hf]
              exact List.mem_singleton_self _
            exact (List.mem_filter.mp hx).1
          have hg := hd.mem_children.mp hm
          have hn : n.IsProper := (hd.names hg n (by simp)).proper
          obtain ⟨_ | _ | _, t⟩ := r
          · refine .inr ⟨n, hn, by rw [child, ofText_name hn], ⟨t, ?_⟩, fun m r' hm' => ?_⟩
            · exact (stat_join hd hP hl (by simp) (by simpa using hn)).mpr ⟨rfl, hg⟩
            · by_cases hmr : m = resourceForks
              · exact .inr hmr
              · have hx : (m, r') ∈ (d.children P).filter (·.1 ≠ resourceForks) :=
                  List.mem_filter.mpr ⟨hd.mem_children.mpr hm', by simpa using hmr⟩
                rw [hf] at hx
                exact .inl (congrArg Prod.fst (List.mem_singleton.mp hx))
          · cases hr
          · cases hr
      · exact .inl rfl
  · exact .inl rfl

theorem locateFile_names (root : Path) {ns : List Name} (hn : ns ≠ [])
    (hs : ∀ n ∈ ns, n.IsProper) : locateFile d root ("/".intercalate ns) =
      if d.exists? (root.join ⟨ns⟩) = true then .ok (root.join ⟨ns⟩)
      else if effectiveRoot d root = root then .error (.archiveMissing (root.join ⟨ns⟩))
      else if d.exists? ((effectiveRoot d root).join ⟨ns⟩) = true then
        .ok ((effectiveRoot d root).join ⟨ns⟩)
      else .error (.archiveMissing (root.join ⟨ns⟩)) := by
  unfold locateFile
  dsimp only
  rw [dropWhile_names hs, String.ofList_toList, ofText_names hn hs, joinWithin_names root hn hs,
    joinWithin_names _ hn hs]
  dsimp only
  by_cases hh : d.exists? (root.join ⟨ns⟩) = true
  · rw [if_pos hh, if_pos hh]
  · rw [if_neg hh, if_neg hh]
    by_cases hr : effectiveRoot d root = root
    · rw [if_pos hr, if_pos hr]
      rfl
    · rw [if_neg hr, if_neg hr]
      by_cases ht : d.exists? ((effectiveRoot d root).join ⟨ns⟩) = true
      · rw [if_pos ht, Option.filter_some, if_pos ht]
      · rw [if_neg ht, Option.filter_some, if_neg ht]

theorem contentOf_of_locate (hd : IsRegular d) (hP : d.FolderAt D P) {path s : String} {x : Path}
    {ms : List Name} {r : Record} (hx : locateFile d D path = .ok x)
    (hs : d.stat x = .ok (P ++ ms, r)) (hr : ∀ t, r.entry ≠ .link t) :
    contentOf d D path = .ok s ↔ d.readText x = .ok s := by
  have hq : d.get? (P ++ ms) = some r := (locate_record (stat_eq_ok.mp hs)).symm
  have htext : d.readText (Disk.pathOf (P ++ ms)) = d.readText x := by
    rw [readText_of_stat (stat_pathOf hd hq hr), readText_of_stat hs]
  obtain ⟨t, hD⟩ := hP
  have htop : resolved d D = .ok P := by rw [resolved, canonical, hD]; rfl
  have hplace : resolved d x = .ok (P ++ ms) := by rw [resolved, canonical, hs]; rfl
  rw [readText_of_stat hs] at htext ⊢
  obtain ⟨_ | ⟨i, b, y⟩ | t', τ⟩ := r
  · have hfolder : d.isFolder x = true := isFolder_iff.mpr ⟨P ++ ms, τ, hs⟩
    unfold contentOf
    rw [hx]
    show (if d.isFolder x = true then _ else _) = _ ↔ _
    rw [if_pos hfolder]
    exact iff_of_false (fun h => by cases h) fun h => by cases h
  · have hfolder : d.isFolder x = false := by
      unfold isFolder
      rw [hs]
      rfl
    unfold contentOf
    rw [hx]
    show (if d.isFolder x = true then _ else _) = _ ↔ _
    rw [if_neg (by simp [hfolder]), htop]
    show (resolved d x >>= _) = _ ↔ _
    rw [hplace]
    show (if (!P.isPrefixOf (P ++ ms)) = true then _ else _) = _ ↔ _
    rw [if_neg (by simp), htext]
    rcases Record.text ⟨.file i b y, τ⟩ with e | s' <;> simp
  · exact absurd rfl (hr t')

/-- The path leads somewhere in the project folder itself, where it is looked for first. -/
def IsCovered (d : Disk) (D : Path) (path : String) : Prop :=
  effectiveRoot d D ≠ D ∧ d.exists? (D.join (.ofText path)) = true

theorem contentOf_of_error {path : String} {f : Failure} (h : locateFile d D path = .error f)
    (s : String) : ¬ contentOf d D path = .ok s := by
  intro hc
  rw [contentOf, h] at hc
  cases hc

theorem readText_of_missing {p : Path} (h : ¬ d.exists? p = true) (s : String) :
    ¬ d.readText p = .ok s := by
  intro hr
  rcases hs : d.stat p with e | ⟨q, r⟩
  · rw [readText_of_error hs] at hr
    cases hr
  · exact h (exists?_iff.mpr ⟨q, r, hs⟩)

section

variable (hd : IsRegular d) (hP : d.FolderAt D P)
  (hl : ∀ {q t}, P <+: q → d.found? q ≠ some (.link t))

include hd hP hl

section

variable {ns : List Name} (hn : ns ≠ []) (hs : ∀ n ∈ ns, n.IsProper) (s : String)

include hn hs

theorem contentOf_here (hhere : d.exists? (D.join ⟨ns⟩) = true) :
    contentOf d D ("/".intercalate ns) = .ok s ↔ d.readText (D.join ⟨ns⟩) = .ok s := by
  obtain ⟨q, r, hst⟩ := exists?_iff.mp hhere
  obtain ⟨rfl, hg⟩ := (stat_join hd hP hl hn hs).mp hst
  have hloc := locateFile_names (d := d) D hn hs
  rw [if_pos hhere] at hloc
  exact contentOf_of_locate hd hP hloc hst fun t he =>
    hl (List.prefix_append P ns) (he ▸ found?_of_get? hg)

theorem contentOf_there (hhere : ¬ d.exists? (D.join ⟨ns⟩) = true) :
    contentOf d D ("/".intercalate ns) = .ok s ↔
      d.readText ((effectiveRoot d D).join ⟨ns⟩) = .ok s := by
  have hloc := locateFile_names (d := d) D hn hs
  rw [if_neg hhere] at hloc
  rcases effectiveRoot_cases hd hP hl with hR | ⟨n, hn', hR, hPn, _⟩
  · rw [if_pos hR] at hloc
    rw [hR]
    exact ⟨fun h => absurd h (contentOf_of_error hloc s),
      fun h => absurd h (readText_of_missing hhere s)⟩
  · have hne : effectiveRoot d D ≠ D := by
      rw [hR]
      exact join_ne hn'
    rw [if_neg hne] at hloc
    by_cases hthere : d.exists? ((effectiveRoot d D).join ⟨ns⟩) = true
    · rw [if_pos hthere] at hloc
      obtain ⟨q, r, hst⟩ := exists?_iff.mp hthere
      rw [hR] at hst
      have hln : ∀ {q t}, P ++ [n] <+: q → d.found? q ≠ some (.link t) :=
        fun hq => hl ((List.prefix_append ..).trans hq)
      obtain ⟨rfl, hg⟩ := (stat_join hd hPn hln hn hs).mp hst
      rw [← hR, List.append_assoc] at hst
      exact contentOf_of_locate hd hP hloc hst fun t he =>
        hln (List.prefix_append (P ++ [n]) ns) (he ▸ found?_of_get? hg)
    · rw [if_neg hthere] at hloc
      exact ⟨fun h => absurd h (contentOf_of_error hloc s),
        fun h => absurd h (readText_of_missing hthere s)⟩

end

theorem contentOf_inner {path s : String} (hp : IsInner path) :
    contentOf d D path = .ok s ↔
      (IsCovered d D path → d.readText (D.join (.ofText path)) = .ok s) ∧
      (¬ IsCovered d D path → d.readText ((effectiveRoot d D).join (.ofText path)) = .ok s) := by
  obtain ⟨ns, hn, hs, rfl⟩ := hp
  rw [IsCovered, ofText_names hn hs]
  by_cases hhere : d.exists? (D.join ⟨ns⟩) = true
  · rw [contentOf_here hd hP hl hn hs s hhere]
    by_cases hR : effectiveRoot d D = D
    · rw [hR]
      simp
    · simp [hhere, hR]
  · rw [contentOf_there hd hP hl hn hs s hhere]
    simp [hhere]

end

theorem covered_head (hd : IsRegular d) (hP : d.FolderAt D P)
    (hl : ∀ {q t}, P <+: q → d.found? q ≠ some (.link t)) {path : String} (hp : IsInner path)
    (hc : IsCovered d D path) : ∃ n, (Path.ofText path).segments.head? = some n ∧
      (effectiveRoot d D = D.join ⟨[n]⟩ ∨ n = resourceForks) := by
  obtain ⟨hne, he⟩ := hc
  obtain ⟨ns, hn, hs, rfl⟩ := hp
  rw [ofText_names hn hs] at he ⊢
  obtain ⟨q, r, hst⟩ := exists?_iff.mp he
  obtain ⟨rfl, hg⟩ := (stat_join hd hP hl hn hs).mp hst
  obtain ⟨m, ms, rfl⟩ := List.exists_cons_of_ne_nil hn
  have hm : ∃ r', d.get? (P ++ [m]) = some r' := by
    by_cases hms : ms = []
    · exact ⟨r, by rw [← hg, hms]⟩
    · have hf : d.found? (P ++ [m]) = some .folder := by
        refine hd.folder_above (e := r.entry) ?_ hms
        rw [List.append_assoc]
        exact found?_of_get? hg
      obtain ⟨t, ht⟩ := found?_eq_some.mp hf
      exact ⟨_, ht⟩
  obtain ⟨r', hm⟩ := hm
  refine ⟨m, rfl, ?_⟩
  rcases effectiveRoot_cases hd hP hl with hR | ⟨n, _, hR, _, honly⟩
  · exact absurd hR hne
  · rcases honly m r' hm with rfl | h
    · exact .inl hR
    · exact .inr h

end Project

namespace FeatureContext

theorem mem_candidates {components : List String} {g : Graph} {p : String}
    (h : p ∈ candidates components g) : p ∈ components ∨ p ∈ g.keys :=
  List.mem_append.mp (Graph.mem_distinct h)

theorem mem_ranked {request : String} {ps : List String} {p : String}
    (h : p ∈ ranked request ps) : p ∈ ps := by
  obtain ⟨x, hx, rfl⟩ := List.mem_map.mp h
  rw [List.mem_mergeSort] at hx
  obtain ⟨q, hq, rfl⟩ := List.mem_map.mp (List.mem_filter.mp hx).1
  exact hq

theorem mem_select {d : Disk} {root : Path} {request : String} {components : List String} {g : Graph}
    {maxFiles : Nat} {f : RelevantFile}
    (h : f ∈ (select d root request components g maxFiles).1) :
    (f.path ∈ components ∨ f.path ∈ g.keys) ∧
      Project.contentOf d root f.path = .ok f.content := by
  obtain ⟨p, hp, hf⟩ := List.mem_filterMap.mp h
  have hread : Project.contentOf d root f.path = .ok f.content ∧ p = f.path := by
    split at hf
    · next s hs =>
        cases hf
        exact ⟨hs, rfl⟩
    · cases hf
  refine ⟨?_, hread.1⟩
  rw [← hread.2]
  exact mem_candidates (mem_ranked (List.mem_of_mem_take hp))

end FeatureContext

namespace Project

theorem effectiveRoot_folder {t : String} (hd : IsRegular d) (hP : d.FolderAt (.ofText t) P)
    (hl : ∀ {q x}, P <+: q → d.found? q ≠ some (.link x)) :
    (∃ R, d.FolderAt (effectiveRoot d (.ofText t)) R) ∧
      ∀ n ∈ (effectiveRoot d (.ofText t)).segments, '/' ∉ n.toList := by
  rcases effectiveRoot_cases hd hP hl with hR | ⟨n, hn, hR, hPn, _⟩
  · rw [hR]
    exact ⟨⟨P, hP⟩, fun _ => slash_not_mem⟩
  · rw [hR]
    refine ⟨⟨P ++ [n], hPn⟩, fun m hm => ?_⟩
    rw [segments_join (isAbsolute_names (by simpa using hn))] at hm
    rcases List.mem_append.mp hm with hm | hm
    · exact slash_not_mem (Inside.front_mem hm)
    · rw [List.mem_singleton.mp hm]
      exact hn.slash

theorem readText_folder (hd : IsRegular d) (hP : d.FolderAt D P) (s : String) :
    ¬ d.readText (D.join (.ofText "")) = .ok s := by
  obtain ⟨k, _, hj⟩ := hP.join hd.toIsTree (.refl d) (r := .ofText "") rfl (by decide)
  rcases hs : d.stat (D.join (.ofText "")) with e | ⟨q, r⟩
  · rw [readText_of_error hs]
    nofun
  · have hu := (hj.mp (stat_eq_ok.mp hs)).2.unique (.idle (.inl rfl) .stop)
    injection hu with hq hr
    obtain ⟨τ, ht⟩ := found?_eq_some.mp hP.folder
    rw [ht] at hr
    cases hr
    rw [readText_of_stat hs]
    nofun

/-- Of an analysis of the root of a project, the files that are selected have the text of the root,
and all that can be read there is read, except where the project folder has another file under the
path; and that is so only for paths that begin with the name of the root or of resource forks. -/
theorem context_reads {d : Disk} (hd : IsRegular d) {t : String} {P : Place}
    (hP : d.FolderAt (.ofText t) P) (hl : ∀ {q x}, P <+: q → d.found? q ≠ some (.link x))
    {limits : Limits} {a : Analysis} (ha : a.IsOf d limits (effectiveRoot d (.ofText t))) :
    (∀ request maxFiles, ∀ f ∈ (FeatureContext.select d (.ofText t) request
        (a.components.map (·.filePath)) a.dependencies maxFiles).1,
      d.readText ((effectiveRoot d (.ofText t)).join (.ofText f.path)) = .ok f.content ↔
        (IsCovered d (.ofText t) f.path → d.readText ((Path.ofText t).join (.ofText f.path)) =
          d.readText ((effectiveRoot d (.ofText t)).join (.ofText f.path)))) ∧
    (∀ p ∈ a.paths, ∀ s, d.readText ((effectiveRoot d (.ofText t)).join (.ofText p)) = .ok s →
      ((∃ s', contentOf d (.ofText t) p = .ok s') ↔
        (IsCovered d (.ofText t) p → ∃ s', d.readText ((Path.ofText t).join (.ofText p)) = .ok s'))) ∧
    (∀ p ∈ a.paths, p ≠ "" → IsCovered d (.ofText t) p →
      ∃ n, (Path.ofText p).segments.head? = some n ∧
        (effectiveRoot d (.ofText t) = (Path.ofText t).join ⟨[n]⟩ ∨ n = resourceForks)) := by
  obtain ⟨⟨R, hR⟩, hr⟩ := effectiveRoot_folder hd hP hl
  refine ⟨fun request maxFiles f hf => ?_, fun p hp s hs => ?_, fun p hp hne hc => ?_⟩
  · obtain ⟨hm, hread⟩ := FeatureContext.mem_select hf
    have hi : IsInner f.path := by
      rcases hm with hm | hm
      · exact ha.inner_component hd hR hm
      · obtain ⟨e, he, hk⟩ := List.mem_map.mp hm
        exact hk ▸ (ha.inner_graph hd hr e he).1
    obtain ⟨hcov, hfree⟩ := (contentOf_inner hd hP hl hi).mp hread
    -- what covers the path is read in its place
    by_cases hc : IsCovered d (.ofText t) f.path
    · rw [hcov hc]
      exact ⟨fun h _ => h.symm, fun h => (h hc).symm⟩
    · exact ⟨fun _ h => absurd h hc, fun _ => hfree hc⟩
  · have hi : IsInner p := by
      rcases ha.inner hd hR hr hp with rfl | hi
      · exact absurd hs (readText_folder hd hR s)
      · exact hi
    constructor
    · rintro ⟨s', hs'⟩ hc
      exact ⟨s', ((contentOf_inner hd hP hl hi).mp hs').1 hc⟩
    · intro h
      by_cases hc : IsCovered d (.ofText t) p
      · obtain ⟨s', hs'⟩ := h hc
        exact ⟨s', (contentOf_inner hd hP hl hi).mpr ⟨fun _ => hs', fun hn => absurd hc hn⟩⟩
      · exact ⟨s, (contentOf_inner hd hP hl hi).mpr ⟨fun h => absurd h hc, fun _ => hs⟩⟩
  · exact covered_head hd hP hl ((ha.inner hd hR hr hp).resolve_left hne) hc

def wrapped (inner file : Name) : Disk :=
  ⟨[(["p"], ⟨.folder, 0⟩), (["p", "app"], ⟨.folder, 0⟩), (["p", "app", inner], ⟨.folder, 0⟩),
    (["p", "app", inner, file], ⟨.file 0 "x".toUTF8 false, 0⟩)], [], 0, 1⟩

theorem isRegular_wrapped {inner file : Name} (hi : IsEntryName inner) (hf : IsEntryName file) :
    IsRegular (wrapped inner file) := by
  have hp : IsEntryName "p" := ⟨⟨by decide, by decide⟩, by decide, by decide⟩
  have ha : IsEntryName "app" := ⟨⟨by decide, by decide⟩, by decide, by decide⟩
  have hnumbered : IsNumbered (wrapped inner file) :=
    .of_records (by simp [wrapped, Entry.number?]) (by simp [wrapped, Entry.number?])
  refine ⟨.of_records hnumbered fun x hx => ?_, fun {x} hx n hn => ?_, by simp [wrapped]⟩
  · simp only [wrapped, List.mem_cons, List.not_mem_nil, or_false] at hx
    rcases hx with rfl | rfl | rfl | rfl <;> simp [wrapped, found?, get?, List.lookup]
  · simp only [wrapped, List.mem_cons, List.not_mem_nil, or_false] at hx
    rcases hx with rfl | rfl | rfl | rfl <;>
      simp only [List.mem_cons, List.not_mem_nil, or_false] at hn
    · exact hn ▸ hp
    · rcases hn with rfl | rfl
      · exact hp
      · exact ha
    · rcases hn with rfl | rfl | rfl
      · exact hp
      · exact ha
      · exact hi
    · rcases hn with rfl | rfl | rfl | rfl
      · exact hp
      · exact ha
      · exact hi
      · exact hf

theorem link_wrapped {inner file : Name} (q : Place) (x : Path) :
    (wrapped inner file).found? q ≠ some (.link x) := by
  intro h
  obtain ⟨t, hr⟩ := record_of_link h
  simp [wrapped] at hr

def wrappedListing (inner file : Name) : List FileNode :=
  [.directory inner inner [.file file (inner ++ "/" ++ file) 1 (dottedExtension file)]]

def wrappedAnalysis (inner file : Name) : Analysis where
  projectId := "p"
  timestamp := .ofNanos 0
  listing := wrappedListing inner file
  dependencies :=
    (Graph.ofProject (wrapped inner file) (effectiveRoot (wrapped inner file) (.ofText "p")) {}).graph
  components :=
    (ComponentScan.ofProject (wrapped inner file)
      (effectiveRoot (wrapped inner file) (.ofText "p")) {}).components

theorem isOf_wrapped {inner file : Name}
    (h : fileTree (wrapped inner file) {} (effectiveRoot (wrapped inner file) (.ofText "p")) =
      .ok (wrappedListing inner file)) :
    (wrappedAnalysis inner file).IsOf (wrapped inner file) {}
      (effectiveRoot (wrapped inner file) (.ofText "p")) :=
  ⟨h, rfl, rfl⟩

theorem mem_wrapped {inner file : Name} {p : String}
    (h : p ∈ FileNode.listPaths (wrappedListing inner file)) :
    p ∈ (wrappedAnalysis inner file).paths :=
  List.mem_append_left _ (List.mem_append_left _ h)

theorem context_reads_wrapped :
    IsRegular (wrapped "src" "app") ∧ (wrapped "src" "app").FolderAt (.ofText "p") ["p"] ∧
    (wrappedAnalysis "src" "app").IsOf (wrapped "src" "app") {}
      (effectiveRoot (wrapped "src" "app") (.ofText "p")) ∧
    ∃ s, contentOf (wrapped "src" "app") (.ofText "p") "src/app" = .ok s := by
  have hd : IsRegular (wrapped "src" "app") :=
    isRegular_wrapped ⟨⟨by decide, by decide⟩, by decide, by decide⟩
      ⟨⟨by decide, by decide⟩, by decide, by decide⟩
  have hP : (wrapped "src" "app").FolderAt (.ofText "p") ["p"] := ⟨0, rfl⟩
  have ha : (wrappedAnalysis "src" "app").IsOf (wrapped "src" "app") {}
      (effectiveRoot (wrapped "src" "app") (.ofText "p")) := isOf_wrapped (by cbv)
  have h := context_reads hd hP (fun _ => link_wrapped _ _) ha
  refine ⟨hd, hP, ha, (h.2.1 "src/app" ?_ "x" (by cbv)).mpr fun hc => ?_⟩
  · exact mem_wrapped (by decide)
  · exact absurd hc.2 (by decide)

theorem context_misses :
    IsRegular (wrapped "app" "app") ∧ (wrapped "app" "app").FolderAt (.ofText "p") ["p"] ∧
    (∀ q x, (wrapped "app" "app").found? q ≠ some (.link x)) ∧
    (wrappedAnalysis "app" "app").IsOf (wrapped "app" "app") {}
      (effectiveRoot (wrapped "app" "app") (.ofText "p")) ∧
    "app/app" ∈ (wrappedAnalysis "app" "app").paths ∧
    (wrapped "app" "app").readText
      ((effectiveRoot (wrapped "app" "app") (.ofText "p")).join (.ofText "app/app")) = .ok "x" ∧
    ¬ ∃ s, contentOf (wrapped "app" "app") (.ofText "p") "app/app" = .ok s := by
  refine ⟨isRegular_wrapped ⟨⟨by decide, by decide⟩, by decide, by decide⟩
    ⟨⟨by decide, by decide⟩, by decide, by decide⟩, ⟨0, rfl⟩, link_wrapped, isOf_wrapped (by cbv),
    mem_wrapped (by decide), by cbv, ?_⟩
  have hread : contentOf (wrapped "app" "app") (.ofText "p") "app/app" =
      .error (.invalidInput "app/app is a directory") := by cbv
  rintro ⟨s, hs⟩
  rw [hread] at hs
  cases hs

end Project

end SourceAtlas
