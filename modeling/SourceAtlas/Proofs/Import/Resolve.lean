import SourceAtlas.Import.Resolve
import SourceAtlas.Proofs.Disk.Way
import SourceAtlas.Proofs.Path.Names

namespace SourceAtlas.Import

open Disk SourceAtlas.Path

variable {d : Disk} {root importer x : Path}

theorem slash_suffix : ∀ suffix ∈ suffixes, '/' ∉ suffix.toList := by decide

theorem proper_append {n : Name} (h : '/' ∉ n.toList) {suffix : String} (hs : suffix ∈ suffixes) :
    Name.IsProper (n ++ suffix) := by
  have hlen : ∀ suffix ∈ suffixes, 3 ≤ suffix.toList.length := by decide
  have hne : ∀ s : String, s.toList.length < 3 → n ++ suffix ≠ s := by
    rintro _ hl rfl
    have := hlen suffix hs
    rw [String.toList_append, List.length_append] at hl
    omega
  refine ⟨inner_eq_name ?_ (hne ".." (by decide)), ?_⟩
  · rintro (h | h)
    · exact hne "" (by decide) h
    · exact hne "." (by decide) h
  · rw [String.toList_append]
    simp [h, slash_suffix suffix hs]

theorem proper_suffix : ∀ suffix ∈ suffixes, Name.IsProper suffix := by decide

theorem proper_index : Name.IsProper "index" := ⟨by decide, by decide⟩

inductive Spelling : List Name → List Name → Prop
  | plain {ns} : ns ≠ [] → Spelling ns ns
  | suffixed {as n suffix} : suffix ∈ suffixes → Spelling (as ++ [n]) (as ++ [n ++ suffix])
  | bare {suffix} : suffix ∈ suffixes → Spelling [] [suffix]
  | index {ns suffix} : suffix ∈ suffixes → Spelling ns (ns ++ ["index" ++ suffix])

namespace Spelling

variable {names ns : List Name}

theorem ne_nil (h : Spelling names ns) : ns ≠ [] := by
  cases h with
  | plain h => exact h
  | suffixed => simp
  | bare => simp
  | index => simp

theorem proper (h : Spelling names ns) (hn : ∀ n ∈ names, n.IsProper) : ∀ n ∈ ns, n.IsProper := by
  cases h with
  | plain => exact hn
  | @suffixed as n _ hs =>
      intro m hm
      rcases List.mem_append.mp hm with hm | hm
      · exact hn m (by simp [hm])
      · rw [List.mem_singleton.mp hm]
        exact proper_append (hn n (by simp)).slash hs
  | bare hs =>
      intro m hm
      rw [List.mem_singleton.mp hm]
      exact proper_suffix _ hs
  | index hs =>
      intro m hm
      rcases List.mem_append.mp hm with hm | hm
      · exact hn m hm
      · rw [List.mem_singleton.mp hm]
        exact proper_append proper_index.slash hs

end Spelling

theorem withSuffix_join (hr : ∀ n ∈ root.segments, '/' ∉ n.toList) {as : List Name} {n : Name}
    (has : ∀ m ∈ as, m.IsProper) (hn : '/' ∉ n.toList) (hx : x.segments = root.front ++ (as ++ [n]))
    {suffix : String} (hs : suffix ∈ suffixes) :
    withSuffix x suffix = root.join ⟨as ++ [n ++ suffix]⟩ := by
  have hslash : ∀ m ∈ (root.front ++ as) ++ [n], '/' ∉ m.toList := by
    intro m hm
    rcases List.mem_append.mp hm with hm | hm
    · rcases List.mem_append.mp hm with hm | hm
      · exact hr m (Inside.front_mem hm)
      · exact (has m hm).slash
    · rwa [List.mem_singleton.mp hm]
  have hp : ∀ m ∈ as ++ [n ++ suffix], Name.IsProper m := by
    intro m hm
    rcases List.mem_append.mp hm with hm | hm
    · exact has m hm
    · rw [List.mem_singleton.mp hm]
      exact proper_append hn hs
  have hxe : x = ⟨(root.front ++ as) ++ [n]⟩ :=
    congrArg Path.mk (hx.trans (List.append_assoc ..).symm)
  have hj := segments_join (p := root) (isAbsolute_names hp)
  rw [← List.append_assoc] at hj
  rw [withSuffix, hxe, ofText_append hslash (slash_suffix suffix hs)]
  exact (congrArg Path.mk hj).symm

theorem segments_join_empty : (root.join Path.empty).segments = root.front ++ [""] :=
  segments_join rfl

theorem withSuffix_empty (hr : ∀ n ∈ root.segments, '/' ∉ n.toList) {suffix : String}
    (hs : suffix ∈ suffixes) : withSuffix (root.join Path.empty) suffix = root.join ⟨[suffix]⟩ := by
  have hjoin : withSuffix (root.join Path.empty) suffix = root.join ⟨[] ++ ["" ++ suffix]⟩ :=
    withSuffix_join hr (by simp) (by decide) segments_join_empty hs
  simpa using hjoin

theorem withSuffix_index (hr : ∀ n ∈ root.segments, '/' ∉ n.toList) {names : List Name}
    (hn : ∀ n ∈ names, n.IsProper) {suffix : String} (hs : suffix ∈ suffixes) :
    withSuffix ((root.join (ofNames names)).child "index") suffix =
      root.join ⟨names ++ ["index" ++ suffix]⟩ := by
  have hfront : (root.join (ofNames names)).front = root.front ++ names := by
    rw [ofNames]
    split
    · next h =>
        rw [front, segments_join_empty, List.getLast?_concat, if_pos rfl, List.dropLast_concat, h,
          List.append_nil]
    · next h => exact Inside.front_join h hn
  refine withSuffix_join hr hn proper_index.slash ?_ hs
  rw [Path.child, ofText_name proper_index, segments_join rfl, hfront, List.append_assoc]

theorem mem_candidates (hr : ∀ n ∈ root.segments, '/' ∉ n.toList) {names : List Name}
    (hn : ∀ n ∈ names, n.IsProper) (hx : x ∈ candidates (root.join (ofNames names))) :
    x = root.join Path.empty ∨ ∃ ns, Spelling names ns ∧ x = root.join ⟨ns⟩ := by
  rw [candidates, List.mem_append, List.mem_cons, List.mem_map, List.mem_map] at hx
  rcases hx with (rfl | ⟨suffix, hs, rfl⟩) | ⟨suffix, hs, rfl⟩
  · by_cases hne : names = []
    · exact .inl (by rw [ofNames, if_pos hne])
    · exact .inr ⟨names, .plain hne, by rw [ofNames, if_neg hne]⟩
  · rcases List.eq_nil_or_concat names with rfl | ⟨as, n, rfl⟩
    · exact .inr ⟨_, .bare hs, withSuffix_empty hr hs⟩
    · rw [List.concat_eq_append] at hn ⊢
      refine .inr ⟨_, .suffixed hs, withSuffix_join hr (fun m hm => hn m (by simp [hm]))
        (hn n (by simp)).slash ?_ hs⟩
      rw [ofNames, if_neg (by simp), segments_join (isAbsolute_names hn)]
  · exact .inr ⟨_, .index hs, withSuffix_index hr hn hs⟩

theorem isFile_join_empty (ht : IsTree d) (root : Path) :
    d.isFile (root.join Path.empty) = false := by
  refine Bool.eq_false_iff.mpr fun hf => ?_
  obtain ⟨n, hl, hn⟩ := last_of_isFile ht hf
  rw [segments_join_empty, List.getLast?_concat] at hl
  exact hn.1 (.inl (Option.some.inj hl).symm)

theorem parent_slash {p q : Path} (hp : ∀ n ∈ p.segments, '/' ∉ n.toList)
    (h : p.parent = some q) : ∀ n ∈ q.segments, '/' ∉ n.toList := by
  rcases parent_eq_some h with rfl | rfl | ⟨_, ms, hs, _⟩
  · decide
  · decide
  · exact fun n hn => hp n (by rw [hs]; exact List.mem_append_left ms hn)

theorem target_names (hi : ∀ n ∈ importer.segments, '/' ∉ n.toList) {specifier : String}
    (h : target root importer specifier = some x) :
    ∃ names : List Name, (∀ n ∈ names, n.IsProper) ∧ (∀ n ∈ names, n.isExcluded = false) ∧
      x = ofNames names := by
  unfold target at h
  obtain ⟨folder, hfolder, h⟩ := Option.bind_eq_some_iff.mp h
  obtain ⟨inside, hinside, h⟩ := Option.bind_eq_some_iff.mp h
  obtain ⟨names, hnames, h⟩ := Option.bind_eq_some_iff.mp h
  split at h
  · cases h
  · next hex =>
      cases h
      rw [Bool.not_eq_true, List.any_eq_false] at hex
      refine ⟨names, settle_mem hnames nofun fun n hn => ?_, fun n hn => by simpa using hex n hn, rfl⟩
      rcases List.mem_append.mp hn with hn | hn
      · unfold stripPrefix at hinside
        split at hinside
        · cases hinside
          have hm := mem_steps (List.mem_of_mem_drop hn)
          exact ⟨hm.2, parent_slash hi hfolder n hm.1⟩
        · cases hinside
      · have hm := mem_steps hn
        exact ⟨hm.2, slash_not_mem hm.1⟩

theorem resolve_names (ht : IsTree d) (hr : ∀ n ∈ root.segments, '/' ∉ n.toList)
    (hi : ∀ n ∈ importer.segments, '/' ∉ n.toList) {specifier : String}
    (h : resolve d root importer specifier = some x) :
    ∃ names ns, target root importer specifier = some (ofNames names) ∧
      (∀ n ∈ names, n.IsProper) ∧ (∀ n ∈ names, n.isExcluded = false) ∧ Spelling names ns ∧
      x = root.join ⟨ns⟩ := by
  unfold resolve at h
  split at h
  · cases h
  · obtain ⟨p, hp, h⟩ := Option.bind_eq_some_iff.mp h
    obtain ⟨names, hn, hv, rfl⟩ := target_names hi hp
    have hf := List.find?_some h
    rcases mem_candidates hr hn (List.mem_of_find?_eq_some h) with rfl | ⟨ns, hsp, rfl⟩
    · rw [isFile_join_empty ht] at hf
      cases hf
    · exact ⟨names, ns, hp, hn, hv, hsp, rfl⟩

theorem resolve_inside (ht : IsTree d) (hr : ∀ n ∈ root.segments, '/' ∉ n.toList)
    (hi : ∀ n ∈ importer.segments, '/' ∉ n.toList) {specifier : String}
    (h : resolve d root importer specifier = some x) : Inside root x := by
  obtain ⟨names, ns, _, hn, _, hsp, rfl⟩ := resolve_names ht hr hi h
  exact ⟨ns, hsp.ne_nil, hsp.proper hn, rfl⟩

theorem isRelative_of_resolve {specifier : String}
    (h : resolve d root importer specifier = some x) : isRelative specifier = true := by
  unfold resolve at h
  split at h
  · cases h
  · next hs => simpa using hs

theorem resolve_isFile {specifier : String} (h : resolve d root importer specifier = some x) :
    d.isFile x = true := by
  unfold resolve at h
  split at h
  · cases h
  · obtain ⟨p, _, h⟩ := Option.bind_eq_some_iff.mp h
    exact List.find?_some (p := d.isFile) h

end SourceAtlas.Import
