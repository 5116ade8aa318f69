import SourceAtlas.Proofs.Path.Names

namespace SourceAtlas

def Step.isName : Step → Bool
  | .name _ => true
  | _ => false

namespace Path

theorem settle_append (above : List Name) (cs ds : List Step) :
    settle above (cs ++ ds) = (settle above cs).bind fun ns => settle ns.reverse ds := by
  fun_induction settle above cs with
  | case1 above => rw [List.nil_append, Option.bind_some, List.reverse_reverse]
  | case2 above cs ih => rw [List.cons_append, settle, ih]
  | case3 above cs ih => rw [List.cons_append, settle, ih]
  | case4 above n cs ih => rw [List.cons_append, settle, ih]
  | case5 cs => rfl
  | case6 n above cs ih => rw [List.cons_append, settle, ih]

theorem exists_prefix_cons {α : Type} {P : List α → Prop} (h : ¬ P []) (c : α) (cs : List α) :
    (∃ ds, ds <+: c :: cs ∧ P ds) ↔ ∃ ds, ds <+: cs ∧ P (c :: ds) := by
  constructor
  · rintro ⟨ds, hds, hp⟩
    rcases List.prefix_cons_iff.mp hds with rfl | ⟨es, rfl, hes⟩
    · exact absurd hp h
    · exact ⟨es, hes, hp⟩
  · rintro ⟨ds, hds, hp⟩
    exact ⟨c :: ds, List.cons_prefix_cons.mpr ⟨rfl, hds⟩, hp⟩

theorem settle_eq_none_iff {above : List Name} {cs : List Step} : settle above cs = none ↔
    ∃ ds, ds <+: cs ∧ above.length + ds.countP Step.isName < ds.count .up := by
  fun_induction settle above cs with
  | case1 above => simp
  | case2 above cs ih =>
      rw [ih, exists_prefix_cons (by simp)]
      simp [Step.isName]
  | case3 above cs ih =>
      rw [ih, exists_prefix_cons (by simp)]
      simp [Step.isName]
  | case4 above n cs ih =>
      rw [ih, exists_prefix_cons (by simp)]
      refine exists_congr fun ds => and_congr_right fun _ => ?_
      rw [List.countP_cons_of_pos rfl, List.count_cons_of_ne (by simp), List.length_cons]
      omega
  | case5 cs => exact iff_of_true rfl ⟨[.up], by simp, by decide⟩
  | case6 n above cs ih =>
      rw [ih, exists_prefix_cons (by simp)]
      refine exists_congr fun ds => and_congr_right fun _ => ?_
      rw [List.countP_cons_of_neg (by simp [Step.isName]), List.count_cons_self, List.length_cons]
      omega

section Names

variable {above : List Name} {n : Name}

theorem settle_idle (h : n = "" ∨ n = ".") (ns : List Name) :
    settle above ((n :: ns).filterMap inner) = settle above (ns.filterMap inner) := by
  rcases h with rfl | rfl <;> rfl

theorem settle_name (h : ¬ (n = "" ∨ n = ".")) (hu : n ≠ "..") (ns : List Name) :
    settle above ((n :: ns).filterMap inner) = settle (n :: above) (ns.filterMap inner) := by
  rw [List.filterMap_cons_some (inner_eq_name h hu), settle]

theorem settle_rest {ns : List Name} (h : ns.all (· == "") = true) :
    settle above (ns.filterMap inner) = some above.reverse := by
  induction ns with
  | nil => rfl
  | cons n ns ih =>
      rw [List.all_cons, Bool.and_eq_true, beq_iff_eq] at h
      rw [settle_idle (.inl h.1), ih h.2]

end Names

theorem isProper_settledNames {s : String} {ns : List Name}
    (h : (ofText s).settledNames = some ns) : ∀ n ∈ ns, n.IsProper :=
  settle_mem h nofun fun _ hn => ⟨(mem_steps hn).2, slash_not_mem (mem_steps hn).1⟩

theorem settledNames_of_relative {p : Path} (h : p.isAbsolute = false) :
    p.settledNames = settle [] (p.segments.filterMap inner) := by
  rw [settledNames]
  rcases steps_of_relative h with hs | hs <;> rw [hs]
  rfl

theorem isAbsolute_of_isEmpty {p : Path} (h : p.isEmpty = true) : p.isAbsolute = false := by
  rw [← Bool.not_eq_true, isAbsolute_iff]
  rintro ⟨n, r, hp⟩
  rcases segments_of_isEmpty h with hs | hs <;> rw [hs] at hp <;> cases hp

section Join

variable {p q : Path} (hq : q.isAbsolute = false) (hs : q.segments ≠ [])

include hq hs

theorem isAbsolute_join_relative : (p.join q).isAbsolute = p.isAbsolute := by
  cases hp : p.isEmpty with
  | false => exact isAbsolute_join hp hq hs
  | true => rw [join_of_isEmpty hp hq, hq, isAbsolute_of_isEmpty hp]

theorem settledNames_join : (p.join q).settledNames =
    p.settledNames.bind fun ns => settle ns.reverse (q.segments.filterMap inner) := by
  cases hp : p.isEmpty with
  | false => rw [settledNames, steps_join hp hq hs, settle_append, settledNames]
  | true =>
      rw [join_of_isEmpty hp hq, settledNames_of_relative hq, settledNames, steps_of_isEmpty hp]
      rfl

end Join

def ofSettled (absolute : Bool) (ns : List Name) : Path :=
  if absolute then ofRootNames ns else ofNames ns

theorem normalize_eq (p : Path) : p.normalize = p.settledNames.map (ofSettled p.isAbsolute) := rfl

section Settled

variable {ns : List Name} (h : ∀ n ∈ ns, n.IsProper) (absolute : Bool)

include h

theorem isAbsolute_ofSettled : (ofSettled absolute ns).isAbsolute = absolute := by
  obtain _ | ⟨n, r⟩ := ns
  · cases absolute <;> rfl
  · cases absolute with
    | false => exact isAbsolute_names h
    | true => rfl

theorem steps_ofSettled :
    (ofSettled absolute ns).steps = (if absolute then [.root] else []) ++ ns.map .name := by
  obtain _ | ⟨n, r⟩ := ns
  · cases absolute <;> rfl
  · cases absolute with
    | false => exact steps_names h
    | true => exact congrArg (Step.root :: ·) (filterMap_inner h)

theorem settledNames_ofSettled : (ofSettled absolute ns).settledNames = some ns := by
  rw [settledNames, steps_ofSettled h]
  cases absolute <;> exact settle_names [] ns

end Settled

theorem normalize_eq_some {s : String} {p : Path} (h : (ofText s).normalize = some p) :
    ∃ ns, (∀ n ∈ ns, n.IsProper) ∧ (ofText s).settledNames = some ns ∧
      p = ofSettled (ofText s).isAbsolute ns := by
  obtain ⟨ns, hns, rfl⟩ := Option.map_eq_some_iff.mp h
  exact ⟨ns, isProper_settledNames hns, hns, rfl⟩

theorem normalize_normalize {s : String} {p : Path} (h : (ofText s).normalize = some p) :
    p.normalize = some p := by
  obtain ⟨ns, hns, _, rfl⟩ := normalize_eq_some h
  rw [normalize_eq, settledNames_ofSettled hns, isAbsolute_ofSettled hns, Option.map_some]

theorem plain_of_normalize {s : String} {p : Path} (h : (ofText s).normalize = some p) :
    ∀ c ∈ p.steps, c ≠ .here ∧ c ≠ .up := by
  obtain ⟨ns, hns, _, rfl⟩ := normalize_eq_some h
  rw [steps_ofSettled hns]
  intro c hc
  rcases List.mem_append.mp hc with hc | hc
  · split at hc
    · obtain rfl := List.mem_singleton.mp hc
      decide
    · cases hc
  · obtain ⟨n, _, rfl⟩ := List.mem_map.mp hc
    exact ⟨Step.noConfusion, Step.noConfusion⟩

theorem normalize_join (s : String) {q : Path} (hq : q.isAbsolute = false) (hs : q.segments ≠ []) :
    ((ofText s).join q).normalize = (ofText s).normalize.bind fun n => (n.join q).normalize := by
  rw [normalize_eq, settledNames_join hq hs, isAbsolute_join_relative hq hs]
  cases h : (ofText s).normalize with
  | none =>
      rw [Option.map_eq_none_iff.mp h]
      rfl
  | some p =>
      obtain ⟨ns, hns, hp, rfl⟩ := normalize_eq_some h
      rw [hp, Option.bind_some, Option.bind_some, normalize_eq, settledNames_join hq hs,
        settledNames_ofSettled hns, isAbsolute_join_relative hq hs, isAbsolute_ofSettled hns,
        Option.bind_some]

theorem normalize_eq_none_iff {p : Path} : p.normalize = none ↔
    ∃ cs, cs <+: p.steps ∧ cs.countP Step.isName < cs.count .up := by
  rw [normalize_eq, Option.map_eq_none_iff, settledNames, settle_eq_none_iff]
  simp only [List.length_nil, Nat.zero_add]

theorem segments_ofNames_ne_nil (ns : List Name) : (ofNames ns).segments ≠ [] := by
  rw [ofNames]
  split
  · decide
  · next h => exact h

theorem mem_segments_ofNames {ns : List Name} {n : Name} (h : n ∈ (ofNames ns).segments) :
    n = "" ∨ n ∈ ns := by
  rw [ofNames] at h
  split at h
  · exact .inl (List.mem_singleton.mp h)
  · exact .inr h

theorem joinWithin_eq_some {root p r : Path} : root.joinWithin p = some r ↔
    p.isAbsolute = false ∧ ∃ ns, p.settledNames = some ns ∧ r = root.join (ofNames ns) := by
  rw [joinWithin]
  cases hp : p.isAbsolute with
  | true => simp
  | false =>
      rw [if_neg (by decide), normalize_eq, hp, Option.map_map, Option.map_eq_some_iff]
      refine ⟨?_, ?_⟩
      · rintro ⟨ns, hns, rfl⟩
        exact ⟨rfl, ns, hns, rfl⟩
      · rintro ⟨-, ns, hns, rfl⟩
        exact ⟨ns, hns, rfl⟩

theorem steps_join_ofNames (root : Path) {ns : List Name} (h : ∀ n ∈ ns, n.IsProper) :
    (root.join (ofNames ns)).steps = root.steps ++ ns.map .name := by
  by_cases hns : ns = []
  · subst hns
    rw [List.map_nil, List.append_nil]
    cases hr : root.isEmpty with
    | false => exact (steps_join hr rfl (by decide)).trans (List.append_nil _)
    | true =>
        rw [join_of_isEmpty hr rfl, steps_of_isEmpty hr]
        rfl
  · rw [ofNames, if_neg hns, steps_join_names root hns h]

end Path

end SourceAtlas
