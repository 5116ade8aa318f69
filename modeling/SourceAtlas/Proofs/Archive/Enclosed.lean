import SourceAtlas.Archive.Extract
import SourceAtlas.Proofs.Path.Parts

namespace SourceAtlas.Archive

open SourceAtlas.Path (inner inner_eq_name inner_eq_some steps_of_absolute steps_of_relative)

def depthOver (ns : List Name) (k : Nat) : Option Nat := depthAfter (ns.filterMap inner) k

theorem depthAfter_append (a b : List Step) (k : Nat) :
    depthAfter (a ++ b) k = (depthAfter a k).bind (depthAfter b) := by
  fun_induction depthAfter a k with
  | case1 => rfl
  | case2 => rfl
  | case3 => rfl
  | case4 _ _ ih => rw [List.cons_append, depthAfter, ih]
  | case5 _ _ ih => rw [List.cons_append, depthAfter, ih]
  | case6 _ _ _ ih => rw [List.cons_append, depthAfter, ih]

theorem depthOver_append (ms ns : List Name) (k : Nat) :
    depthOver (ms ++ ns) k = (depthOver ms k).bind (depthOver ns) := by
  rw [depthOver, List.filterMap_append, depthAfter_append]
  rfl

theorem depthOver_idle {n : Name} (hn : n = "" ∨ n = ".") (ns : List Name) (k : Nat) :
    depthOver (n :: ns) k = depthOver ns k := by
  rcases hn with rfl | rfl <;> rfl

theorem depthOver_up (ns : List Name) (k : Nat) :
    depthOver (".." :: ns) (k + 1) = depthOver ns k := rfl

theorem depthOver_up_zero (ns : List Name) : depthOver (".." :: ns) 0 = none := rfl

theorem depthOver_name {n : Name} (h : ¬ (n = "" ∨ n = ".")) (hu : n ≠ "..") (ns : List Name)
    (k : Nat) : depthOver (n :: ns) k = depthOver ns (k + 1) := by
  rw [depthOver, List.filterMap_cons_some (inner_eq_name h hu)]
  rfl

theorem depthAfter_mono {a : List Step} {k l : Nat} (h : k ≤ l)
    (ha : (depthAfter a k).isSome = true) : (depthAfter a l).isSome = true := by
  fun_induction depthAfter a k generalizing l with
  | case1 => rfl
  | case2 => cases ha
  | case3 => cases ha
  | case4 _ _ ih =>
      obtain ⟨l, rfl⟩ : ∃ m, l = m + 1 := ⟨l - 1, by omega⟩
      exact ih (by omega) ha
  | case5 _ _ ih => exact ih h ha
  | case6 _ _ _ ih => exact ih (by omega) ha

theorem depthAfter_steps {p : Path} (h : p.isAbsolute = false) (k : Nat) :
    depthAfter p.steps k = depthOver p.segments k := by
  rcases steps_of_relative h with hs | hs
  · rw [hs, depthOver]
  · rw [hs, depthOver, depthAfter]

theorem isInDependencies_iff {p : Path} (h : p.isAbsolute = false) :
    isInDependencies p = true ↔ dependencyFolder ∈ p.segments := by
  rw [isInDependencies, List.contains_iff_mem]
  have hm : Step.name dependencyFolder ∈ p.segments.filterMap inner ↔
      dependencyFolder ∈ p.segments := by
    rw [List.mem_filterMap]
    constructor
    · rintro ⟨n, hn, hi⟩
      rwa [inner_eq_some hi] at hn
    · exact fun hn => ⟨_, hn, rfl⟩
  rcases steps_of_relative h with hs | hs
  · rw [hs, hm]
  · rw [hs, List.mem_cons, hm]
    simp

structure IsUnpacked (p : Path) : Prop where
  enclosed : (depthAfter p.steps 0).isSome = true
  free : isInDependencies p = false
  segments : p.segments ≠ []

theorem isUnpacked_iff {p : Path} : IsUnpacked p ↔ p.segments ≠ [] ∧ p.isAbsolute = false ∧
    (depthOver p.segments 0).isSome = true ∧ dependencyFolder ∉ p.segments := by
  constructor
  · rintro ⟨he, hf, hs⟩
    have ha : p.isAbsolute = false := by
      rw [← Bool.not_eq_true]
      intro ha
      obtain ⟨cs, hc⟩ := steps_of_absolute ha
      rw [hc] at he
      cases he
    refine ⟨hs, ha, ?_, fun hm => ?_⟩
    · rwa [← depthAfter_steps ha]
    · rw [(isInDependencies_iff ha).mpr hm] at hf
      cases hf
  · rintro ⟨hs, ha, hd, hm⟩
    refine ⟨by rwa [depthAfter_steps ha], ?_, hs⟩
    rw [← Bool.not_eq_true, isInDependencies_iff ha]
    exact hm

theorem IsUnpacked.front {p : Path} (h : IsUnpacked p) {as ms : List Name} (has : as ≠ [])
    (hp : p.segments = as ++ ms) : IsUnpacked ⟨as⟩ := by
  obtain ⟨_, ha, hd, hm⟩ := isUnpacked_iff.mp h
  refine isUnpacked_iff.mpr ⟨has, Path.isAbsolute_part ms ?_, ?_, ?_⟩
  · rwa [← hp]
  · rw [hp, depthOver_append] at hd
    cases hx : depthOver as 0 with
    | none =>
        rw [hx] at hd
        cases hd
    | some => rfl
  · intro hn
    exact hm (by rw [hp]; exact List.mem_append_left ms hn)

theorem enclosedPath_eq_some {e : Entry} {p : Path} : e.enclosedPath = some p ↔
    '\x00' ∉ e.name.toList ∧ p = .ofText e.name ∧ (depthAfter p.steps 0).isSome = true := by
  rw [Entry.enclosedPath]
  by_cases hc : e.name.toList.contains '\x00' = true
  · rw [if_pos hc]
    exact ⟨nofun, fun h => absurd (List.contains_iff_mem.mp hc) h.1⟩
  · rw [if_neg hc, Option.map_eq_some_iff]
    constructor
    · rintro ⟨k, hk, rfl⟩
      exact ⟨fun hm => hc (List.contains_iff_mem.mpr hm), rfl, by rw [hk]; rfl⟩
    · rintro ⟨_, rfl, hd⟩
      obtain ⟨k, hk⟩ := Option.isSome_iff_exists.mp hd
      exact ⟨k, hk, rfl⟩

namespace Entry

def segments (e : Entry) : List Name := (Path.ofText e.name).segments

theorem segments_ne_nil (e : Entry) : e.segments ≠ [] := Path.segments_ofText_ne_nil e.name

/-- The entry is one that is not left out. -/
structure IsKept (e : Entry) : Prop where
  clean : '\x00' ∉ e.name.toList
  unpacked : IsUnpacked ⟨e.segments⟩
  plain : e.isLink = false

end Entry

theorem destination_eq_some {e : Entry} {target out : Path} :
    e.destination target = some out ↔ e.IsKept ∧ out = target.join ⟨e.segments⟩ := by
  constructor
  · intro h
    unfold Entry.destination at h
    split at h
    · cases h
    · next p hp =>
        obtain ⟨hc, rfl, hd⟩ := enclosedPath_eq_some.mp hp
        split at h
        · cases h
        · next hl =>
            cases h
            rw [Bool.or_eq_true, not_or, Bool.not_eq_true, Bool.not_eq_true] at hl
            exact ⟨⟨hc, ⟨hd, hl.2, e.segments_ne_nil⟩, hl.1⟩, rfl⟩
  · rintro ⟨⟨hc, ⟨hd, hf, _⟩, hl⟩, rfl⟩
    rw [Entry.destination, enclosedPath_eq_some.mpr ⟨hc, rfl, hd⟩]
    refine if_neg ?_
    rw [hl, Bool.false_or, Bool.not_eq_true]
    exact hf

inductive Asked (target : Path) : Path → Prop
  | inside {p} : IsUnpacked p → Asked target (target.join p)
  | around {q} ms : q.isEmpty = false → target.segments = q.segments ++ ms → Asked target q
  | top : Asked target Path.top

theorem Asked.of_front {target q : Path} {bs : List Name} (hq : q.isEmpty = false)
    (h : target.front = q.segments ++ bs) : Asked target q := by
  rcases target.segments_eq_front with hs | hs
  · exact .around bs hq (hs.trans h)
  · exact .around (bs ++ [""]) hq (by rw [hs, h, List.append_assoc])

theorem Asked.parent {target p q : Path} (h : Asked target p) (hp : p.parent = some q)
    (hq : q.isEmpty = false) : Asked target q := by
  rcases Path.parent_eq_some hp with rfl | rfl | ⟨_, ms, hs, _⟩
  · cases hq
  · exact .top
  · cases h with
    | @inside p h =>
        rw [Path.segments_join (isUnpacked_iff.mp h).2.1] at hs
        rcases List.append_eq_append_iff.mp hs with ⟨as, ha, hb⟩ | ⟨bs, ha, _⟩
        · by_cases hn : as = []
          · rw [hn, List.append_nil] at ha
            exact .of_front hq (ha.symm.trans (List.append_nil _).symm)
          · have hu := h.front hn hb
            have hj : q = target.join ⟨as⟩ := by
              rw [← Path.segments_join (isUnpacked_iff.mp hu).2.1] at ha
              cases q
              exact congrArg Path.mk ha
            exact hj ▸ .inside hu
        · exact .of_front hq ha
    | around ms' _ hs' => exact .around (ms ++ ms') hq (by rw [hs', hs, List.append_assoc])
    | top => cases hp

end SourceAtlas.Archive
