import SourceAtlas.Path.Normal
import SourceAtlas.Proofs.Path.Parts

namespace SourceAtlas

namespace Text

theorem splitAt_of_not_mem {sep : Char} {s : List Char} (h : sep ∉ s) : splitAt sep s = [s] := by
  induction s with
  | nil => rfl
  | cons c r ih =>
      have hc : ¬ c = sep := fun e => h (by simp [e])
      rw [splitAt, if_neg hc, ih fun hm => h (by simp [hm])]

theorem splitAt_append {sep : Char} {s : List Char} (h : sep ∉ s) (r : List Char) :
    splitAt sep (s ++ sep :: r) = s :: splitAt sep r := by
  induction s with
  | nil => simp [splitAt]
  | cons c s ih =>
      have hc : ¬ c = sep := fun e => h (by simp [e])
      rw [List.cons_append, splitAt, if_neg hc, ih fun hm => h (by simp [hm])]

theorem splitAt_joinWith {sep : Char} {ps : List (List Char)} (hp : ps ≠ [])
    (h : ∀ p ∈ ps, sep ∉ p) : splitAt sep (joinWith [sep] ps) = ps := by
  induction ps with
  | nil => exact absurd rfl hp
  | cons p ps ih =>
      have hm : sep ∉ p := h p (by simp)
      cases ps with
      | nil => exact splitAt_of_not_mem hm
      | cons q qs =>
          rw [joinWith, List.append_assoc, List.singleton_append, splitAt_append hm,
            ih (by simp) fun x hx => h x (by simp [hx])]
          simp

theorem mem_of_mem_splitAt {sep : Char} {s p : List Char} (h : p ∈ splitAt sep s) {c : Char}
    (hc : c ∈ p) : c ∈ s := by
  induction s generalizing p with
  | nil =>
      rw [splitAt, List.mem_singleton] at h
      rw [h] at hc
      cases hc
  | cons x r ih =>
      rw [splitAt] at h
      split at h
      · rcases List.mem_cons.mp h with rfl | h
        · cases hc
        · exact .tail _ (ih h hc)
      · split at h
        · next hs => exact absurd hs (splitAt_ne_nil sep r)
        · next q qs hs =>
            rw [hs] at ih
            rcases List.mem_cons.mp h with rfl | h
            · rcases List.mem_cons.mp hc with rfl | hc
              · exact List.mem_cons_self
              · exact .tail _ (ih List.mem_cons_self hc)
            · exact .tail _ (ih (.tail _ h) hc)

theorem joinWith_eq_intercalate (sep : List Char) (ps : List (List Char)) :
    joinWith sep ps = sep.intercalate ps := by
  induction ps with
  | nil => rfl
  | cons p ps ih =>
      cases ps with
      | nil => simp [joinWith]
      | cons q qs => simp [joinWith, ih]

end Text

structure Name.IsProper (n : Name) : Prop where
  inner : Path.inner n = some (.name n)
  slash : '/' ∉ n.toList

instance (n : Name) : Decidable n.IsProper :=
  decidable_of_iff (Path.inner n = some (.name n) ∧ '/' ∉ n.toList)
    ⟨fun h => ⟨h.1, h.2⟩, fun h => ⟨h.inner, h.slash⟩⟩

theorem Name.IsProper.ne_empty {n : Name} (h : n.IsProper) : n ≠ "" := by
  rintro rfl
  cases h.inner

theorem Name.IsProper.isStep {n : Name} (h : n.IsProper) : Path.isStep n = true := by
  have hd : n ≠ "." := by
    rintro rfl
    cases h.inner
  simp [Path.isStep, h.ne_empty, hd]

namespace Path

theorem ofText_text {p : Path} (hp : p.segments ≠ []) (h : ∀ n ∈ p.segments, '/' ∉ n.toList) :
    ofText p.text = p := by
  have hs : Text.splitAt '/' p.text.toList = p.segments.map String.toList := by
    rw [text, String.toList_ofList]
    refine Text.splitAt_joinWith (by simpa using hp) fun x hx => ?_
    obtain ⟨n, hn, rfl⟩ := List.mem_map.mp hx
    exact h n hn
  rw [ofText, hs, List.map_map]
  simp

theorem text_eq_intercalate (ns : List Name) : text ⟨ns⟩ = "/".intercalate ns := by
  rw [← String.toList_inj, text, String.toList_ofList, String.toList_intercalate,
    Text.joinWith_eq_intercalate]
  rfl

theorem isAbsolute_names {ns : List Name} (h : ∀ n ∈ ns, n.IsProper) :
    isAbsolute ⟨ns⟩ = false := by
  rw [← Bool.not_eq_true, isAbsolute_iff]
  rintro ⟨n, r, rfl⟩
  cases (h "" (by simp)).inner

theorem filterMap_inner {ns : List Name} (h : ∀ n ∈ ns, n.IsProper) :
    ns.filterMap inner = ns.map .name := by
  induction ns with
  | nil => rfl
  | cons n r ih =>
      rw [List.filterMap_cons_some (h n (by simp)).inner, ih fun m hm => h m (by simp [hm]),
        List.map_cons]

theorem ofText_names {ns : List Name} (hn : ns ≠ []) (h : ∀ n ∈ ns, n.IsProper) :
    ofText ("/".intercalate ns) = ⟨ns⟩ := by
  rw [← text_eq_intercalate]
  exact ofText_text hn fun n hm => (h n hm).slash

theorem ofText_name {n : Name} (h : n.IsProper) : ofText n = ⟨[n]⟩ := by
  have := ofText_names (List.cons_ne_nil n []) (by simpa using h)
  rwa [String.intercalate_singleton] at this

theorem dropIdle_append {xs : List Name} (hx : xs ≠ []) {n : Name} (hn : isStep n = true)
    {idle : List Name} (hi : ∀ m ∈ idle, isStep m = false) :
    dropIdle (xs ++ n :: idle) = xs ++ [n] := by
  obtain ⟨x, xs, rfl⟩ := List.exists_cons_of_ne_nil hx
  have hidle : ∀ m ∈ idle.reverse, (!isStep m) = true := fun m hm => by
    rw [hi m (List.mem_reverse.mp hm)]
    rfl
  rw [List.cons_append, dropIdle, List.reverse_append, List.reverse_cons, List.append_assoc,
    List.dropWhile_append_of_pos hidle, List.singleton_append,
    List.dropWhile_cons_of_neg (by simp [hn])]
  simp

theorem parent_join {p : Path} (hp : p.isEmpty = false) (as idle : List Name) {n : Name}
    (ha : isAbsolute ⟨as ++ n :: idle⟩ = false) (hn : isStep n = true)
    (hi : ∀ m ∈ idle, isStep m = false) :
    (p.join ⟨as ++ n :: idle⟩).parent =
      some (if dropIdle (p.front ++ as) = [""] then top else ⟨dropIdle (p.front ++ as)⟩) := by
  obtain ⟨f, r, hf⟩ := List.exists_cons_of_ne_nil (front_ne_nil hp)
  have hidle : dropIdle (p.join ⟨as ++ n :: idle⟩).segments = p.front ++ as ++ [n] := by
    rw [segments_join ha, ← List.append_assoc, dropIdle_append (by simp [hf]) hn hi]
  rw [parent, hidle, hf, List.cons_append, List.cons_append]
  split
  · next he => cases he
  · next he => simp at he
  · next he => simp at he
  · next he =>
      obtain ⟨rfl, rfl⟩ := List.cons.inj he
      rw [List.dropLast_concat]
      split
      · next he => rw [he, if_pos rfl]; rfl
      · next hne => rw [if_neg hne]

theorem parent_join_name {p : Path} (hp : p.isEmpty = false) {n : Name} (hn : n.IsProper) :
    (p.join ⟨[n]⟩).parent = some (if dropIdle p.front = [""] then top else ⟨dropIdle p.front⟩) := by
  have habs : isAbsolute ⟨[n]⟩ = false := isAbsolute_names (by simpa using hn)
  have h := parent_join hp [] [] habs hn.isStep nofun
  rwa [List.append_nil] at h

theorem parent_join_step {p : Path} (hp : p.isEmpty = false) {bs idle tail : List Name}
    {m n : Name} (ha : isAbsolute ⟨bs ++ m :: idle ++ n :: tail⟩ = false) (hm : isStep m = true)
    (hi : ∀ x ∈ idle, isStep x = false) (hn : isStep n = true)
    (ht : ∀ x ∈ tail, isStep x = false) :
    (p.join ⟨bs ++ m :: idle ++ n :: tail⟩).parent = some (p.join ⟨bs ++ [m]⟩) := by
  have hf := front_ne_nil hp
  have hdrop : dropIdle (p.front ++ (bs ++ m :: idle)) = p.front ++ (bs ++ [m]) := by
    rw [← List.append_assoc, dropIdle_append (by simp [hf]) hm hi, List.append_assoc]
  have hjoin : p.join ⟨bs ++ [m]⟩ = ⟨p.front ++ (bs ++ [m])⟩ := by
    refine congrArg mk (segments_join (isAbsolute_part (idle ++ n :: tail) ?_))
    simpa using ha
  rw [parent_join hp _ _ ha hn ht, hdrop, hjoin, if_neg]
  intro he
  have hlen := congrArg List.length he
  have := List.length_pos_iff.mpr hf
  simp only [List.length_append, List.length_singleton] at hlen
  omega

theorem steps_root (n : Name) (r : List Name) :
    steps ⟨"" :: n :: r⟩ = .root :: (n :: r).filterMap inner := rfl

theorem steps_here (r : List Name) : steps ⟨"." :: r⟩ = .here :: r.filterMap inner := rfl

theorem steps_plain {n : Name} (hn : n ≠ "") (hd : n ≠ ".") (r : List Name) :
    steps ⟨n :: r⟩ = (n :: r).filterMap inner := by
  unfold steps
  split
  · next h => exact absurd (List.cons.inj h).1 hn
  · next h => exact absurd (List.cons.inj h).1 hd
  · rfl

theorem steps_append {ns : List Name} (hn : isEmpty ⟨ns⟩ = false) (ms : List Name) :
    steps ⟨ns ++ ms⟩ = steps ⟨ns⟩ ++ ms.filterMap inner := by
  obtain _ | ⟨n, r⟩ := ns
  · cases hn
  by_cases hne : n = ""
  · subst hne
    obtain _ | ⟨m, r⟩ := r
    · cases hn
    · rw [List.cons_append, List.cons_append, steps_root, steps_root, ← List.cons_append,
        List.filterMap_append, List.cons_append]
  · by_cases hd : n = "."
    · subst hd
      rw [List.cons_append, steps_here, steps_here, List.filterMap_append, List.cons_append]
    · rw [List.cons_append, steps_plain hne hd, steps_plain hne hd, ← List.cons_append,
        List.filterMap_append]

theorem steps_join {p q : Path} (hp : p.isEmpty = false) (hq : q.isAbsolute = false)
    (hs : q.segments ≠ []) : (p.join q).steps = p.steps ++ q.segments.filterMap inner := by
  have hj : p.join q = ⟨p.front ++ q.segments⟩ := congrArg Path.mk (segments_join hq)
  rw [hj]
  rcases p.segments_eq_front with hf | hf
  · rw [← hf]
    exact steps_append hp _
  · have hpe : p = ⟨p.front ++ [""]⟩ := congrArg Path.mk hf
    by_cases he : isEmpty ⟨p.front⟩ = false
    · rw [hpe, steps_append he, ← hpe, steps_append he]
      simp [inner]
    · obtain ⟨n, r, hn⟩ := List.exists_cons_of_ne_nil (front_ne_nil hp)
      obtain ⟨m, t, hm⟩ := List.exists_cons_of_ne_nil hs
      have hr : n = "" ∧ r = [] := by
        by_contra hc
        exact he (by rw [hn]; exact isEmpty_cons hc)
      rw [hpe, hn, hr.1, hr.2, hm]
      rfl

theorem steps_names {ns : List Name} (h : ∀ n ∈ ns, n.IsProper) : steps ⟨ns⟩ = ns.map .name := by
  cases ns with
  | nil => rfl
  | cons n r =>
      have hi := (h n (by simp)).inner
      have hn : n ≠ "" := by
        rintro rfl
        cases hi
      have hd : n ≠ "." := by
        rintro rfl
        cases hi
      rw [steps_plain hn hd, filterMap_inner h]

theorem steps_join_names (root : Path) {ns : List Name} (hn : ns ≠ []) (h : ∀ n ∈ ns, n.IsProper) :
    (root.join ⟨ns⟩).steps = root.steps ++ ns.map .name := by
  cases hr : root.isEmpty with
  | false => rw [steps_join hr (isAbsolute_names h) hn, filterMap_inner h]
  | true =>
      rw [join_of_isEmpty hr (isAbsolute_names h), steps_of_isEmpty hr, steps_names h,
        List.nil_append]

theorem stripPrefix_join (root : Path) {ns : List Name} (hn : ns ≠ []) (h : ∀ n ∈ ns, n.IsProper) :
    (root.join ⟨ns⟩).stripPrefix root = some (ns.map .name) := by
  rw [stripPrefix, startsWith, steps_join_names root hn h, if_pos (by simp)]
  simp

theorem relativeTo_join (root : Path) {ns : List Name} (hn : ns ≠ []) (h : ∀ n ∈ ns, n.IsProper) :
    (root.join ⟨ns⟩).relativeTo root = some ("/".intercalate ns) := by
  rw [relativeTo, stripPrefix_join root hn h]
  simp only [Option.map_some, slashed, List.map_map]
  congr 2
  exact List.map_id ns

theorem relativeTo_name (root : Path) {n : Name} (h : n.IsProper) :
    (root.join ⟨[n]⟩).relativeTo root = some n := by
  rw [relativeTo_join root (by simp) (by simpa using h), String.intercalate_singleton]

theorem settle_names (above ns : List Name) :
    settle above (ns.map .name) = some (above.reverse ++ ns) := by
  induction ns generalizing above with
  | nil => simp [settle]
  | cons n r ih =>
      rw [List.map_cons, settle, ih]
      simp

theorem joinWithin_names (root : Path) {ns : List Name} (hn : ns ≠ [])
    (h : ∀ n ∈ ns, n.IsProper) : root.joinWithin ⟨ns⟩ = some (root.join ⟨ns⟩) := by
  have hnames : settledNames ⟨ns⟩ = some ns := by
    rw [settledNames, steps_names h, settle_names]
    rfl
  rw [joinWithin, isAbsolute_names h, if_neg (by decide), normalize, hnames, Option.map_some,
    isAbsolute_names h, if_neg (by decide), ofNames, if_neg hn, Option.map_some]

theorem dropWhile_names {ns : List Name} (h : ∀ n ∈ ns, n.IsProper) :
    ("/".intercalate ns).toList.dropWhile (· == '/') = ("/".intercalate ns).toList := by
  cases ns with
  | nil => rfl
  | cons n r =>
      have hn := h n (by simp)
      have hne : n.toList ≠ [] := by
        intro he
        rw [String.toList_eq_nil_iff] at he
        subst he
        cases hn.inner
      obtain ⟨c, cs, hc⟩ := List.exists_cons_of_ne_nil hne
      have hslash : (c == '/') = false := by
        have := hn.slash
        rw [hc] at this
        simp only [List.mem_cons, not_or] at this
        simpa using fun e => this.1 e.symm
      have hcons : ∃ t, ("/".intercalate (n :: r)).toList = c :: t := by
        cases r with
        | nil => exact ⟨cs, by simp [hc]⟩
        | cons m r => exact ⟨_, by simp [hc]; rfl⟩
      obtain ⟨t, ht⟩ := hcons
      rw [ht, List.dropWhile_cons, hslash]
      rfl

theorem slash_not_mem {s : String} {n : Name} (h : n ∈ (ofText s).segments) : '/' ∉ n.toList := by
  obtain ⟨x, hx, rfl⟩ := List.mem_map.mp h
  rw [String.toList_ofList]
  exact Text.not_mem_of_mem_splitAt hx

theorem mem_text {s : String} {n : Name} (h : n ∈ (ofText s).segments) {c : Char}
    (hc : c ∈ n.toList) : c ∈ s.toList := by
  obtain ⟨x, hx, rfl⟩ := List.mem_map.mp h
  rw [String.toList_ofList] at hc
  exact Text.mem_of_mem_splitAt hx hc

theorem mem_steps {p : Path} {n : Name} (h : Step.name n ∈ p.steps) :
    n ∈ p.segments ∧ inner n = some (.name n) := by
  have hfilter : ∀ {ns : List Name}, Step.name n ∈ ns.filterMap inner →
      n ∈ ns ∧ inner n = some (.name n) := by
    intro ns hm
    obtain ⟨m, hn, hi⟩ := List.mem_filterMap.mp hm
    obtain rfl := inner_eq_some hi
    exact ⟨hn, hi⟩
  unfold steps at h
  split at h
  · next hs =>
      rcases List.mem_cons.mp h with h | h
      · cases h
      · rw [hs]
        exact ⟨.tail _ (hfilter h).1, (hfilter h).2⟩
  · next hs =>
      rcases List.mem_cons.mp h with h | h
      · cases h
      · rw [hs]
        exact ⟨.tail _ (hfilter h).1, (hfilter h).2⟩
  · exact hfilter h

theorem settle_mem {P : Name → Prop} {above ns : List Name} {cs : List Step}
    (h : settle above cs = some ns) (ha : ∀ n ∈ above, P n) (hc : ∀ n, Step.name n ∈ cs → P n) :
    ∀ n ∈ ns, P n := by
  induction cs generalizing above with
  | nil =>
      cases h
      exact fun n hn => ha n (List.mem_reverse.mp hn)
  | cons c cs ih =>
      have hc' : ∀ n, Step.name n ∈ cs → P n := fun n hn => hc n (.tail _ hn)
      cases c with
      | root => exact ih h ha hc'
      | here => exact ih h ha hc'
      | name n =>
          refine ih h (fun m hm => ?_) hc'
          rcases List.mem_cons.mp hm with rfl | hm
          · exact hc m (by simp)
          · exact ha m hm
      | up =>
          cases above with
          | nil => cases h
          | cons m above => exact ih h (fun x hx => ha x (.tail _ hx)) hc'

theorem ofText_append {as : List Name} {n : Name} {suffix : String}
    (h : ∀ m ∈ as ++ [n], '/' ∉ m.toList) (hs : '/' ∉ suffix.toList) :
    ofText (text ⟨as ++ [n]⟩ ++ suffix) = ⟨as ++ [n ++ suffix]⟩ := by
  have ht : text ⟨as ++ [n]⟩ ++ suffix = text ⟨as ++ [n ++ suffix]⟩ := by
    rw [text_eq_intercalate, text_eq_intercalate]
    by_cases has : as = []
    · simp [has]
    · rw [String.intercalate_append_of_ne_nil has (by simp),
        String.intercalate_append_of_ne_nil has (by simp), String.append_assoc]
      simp
  rw [ht]
  refine ofText_text (by simp) fun m hm => ?_
  rcases List.mem_append.mp hm with hm | hm
  · exact h m (by simp [hm])
  · rw [List.mem_singleton.mp hm, String.toList_append]
    simp [h n (by simp), hs]

def IsInner (p : String) : Prop :=
  ∃ ns : List Name, ns ≠ [] ∧ (∀ n ∈ ns, n.IsProper) ∧ p = "/".intercalate ns

theorem isInner_name {n : Name} (h : n.IsProper) : IsInner n :=
  ⟨[n], by simp, by simpa using h, by simp⟩

theorem IsInner.append {p : String} {n : Name} (hp : IsInner p) (h : n.IsProper) :
    IsInner (p ++ "/" ++ n) := by
  obtain ⟨ns, hn, hs, rfl⟩ := hp
  refine ⟨ns ++ [n], by simp, fun m hm => ?_, ?_⟩
  · rcases List.mem_append.mp hm with hm | hm
    · exact hs m hm
    · rwa [List.mem_singleton.mp hm]
  · rw [String.intercalate_append_of_ne_nil hn (by simp), String.intercalate_singleton]

def Inside (root x : Path) : Prop :=
  ∃ ns : List Name, ns ≠ [] ∧ (∀ n ∈ ns, n.IsProper) ∧ x = root.join ⟨ns⟩

namespace Inside

variable {root x : Path}

theorem relativeTo (h : Inside root x) {label : String} (hl : x.relativeTo root = some label) :
    IsInner label := by
  obtain ⟨ns, hn, hs, rfl⟩ := h
  rw [relativeTo_join root hn hs] at hl
  exact ⟨ns, hn, hs, (Option.some.inj hl).symm⟩

theorem join_label (h : Inside root x) {label : String} (hl : x.relativeTo root = some label) :
    root.join (ofText label) = x := by
  obtain ⟨ns, hn, hs, rfl⟩ := h
  rw [relativeTo_join root hn hs] at hl
  cases hl
  rw [ofText_names hn hs]

theorem exists_label (h : Inside root x) : ∃ label, x.relativeTo root = some label := by
  obtain ⟨ns, hn, hs, rfl⟩ := h
  exact ⟨_, relativeTo_join root hn hs⟩

theorem front_mem {root : Path} {n : Name} (h : n ∈ root.front) : n ∈ root.segments := by
  rcases root.segments_eq_front with hs | hs
  · rwa [hs]
  · rw [hs]
    exact List.mem_append_left _ h

theorem slash (h : Inside root x) (hr : ∀ n ∈ root.segments, '/' ∉ n.toList) :
    ∀ n ∈ x.segments, '/' ∉ n.toList := by
  obtain ⟨ns, _, hs, rfl⟩ := h
  intro n hn
  rw [segments_join (isAbsolute_names hs)] at hn
  rcases List.mem_append.mp hn with hn | hn
  · exact hr n (front_mem hn)
  · exact (hs n hn).slash

theorem front_join {ns : List Name} (hn : ns ≠ []) (hs : ∀ n ∈ ns, n.IsProper) :
    (root.join ⟨ns⟩).front = root.front ++ ns := by
  rw [front, segments_join (isAbsolute_names hs), if_neg]
  intro hl
  obtain ⟨l, m, rfl⟩ := (List.eq_nil_or_concat ns).resolve_left hn
  have hm := (hs m (by simp)).inner
  simp only [List.concat_eq_append, ← List.append_assoc, List.getLast?_concat] at hl
  rw [Option.some.inj hl] at hm
  cases hm

theorem child_root {n : Name} (h : n.IsProper) : root.child n = root.join ⟨[n]⟩ := by
  rw [Path.child, ofText_name h]

theorem join_append {as : List Name} (ha : as ≠ []) (hs : ∀ n ∈ as, n.IsProper) {ms : List Name}
    (hm : isAbsolute ⟨ms⟩ = false) : root.join ⟨as ++ ms⟩ = (root.join ⟨as⟩).join ⟨ms⟩ := by
  have habs : isAbsolute ⟨as ++ ms⟩ = false := by
    obtain ⟨n, r, rfl⟩ := List.exists_cons_of_ne_nil ha
    rw [← Bool.not_eq_true, isAbsolute_iff]
    rintro ⟨m, t, he⟩
    exact (hs n (by simp)).ne_empty (List.cons.inj he).1
  have hseg : (root.join ⟨as ++ ms⟩).segments = ((root.join ⟨as⟩).join ⟨ms⟩).segments := by
    rw [segments_join habs, segments_join hm, front_join ha hs, List.append_assoc]
  exact congrArg Path.mk hseg

theorem child_join {ns : List Name} (hn : ns ≠ []) (hs : ∀ n ∈ ns, n.IsProper) {n : Name}
    (h : n.IsProper) : (root.join ⟨ns⟩).child n = root.join ⟨ns ++ [n]⟩ := by
  rw [join_append hn hs (isAbsolute_names (by simpa using h)), Path.child, ofText_name h]

end Inside

end Path

end SourceAtlas
