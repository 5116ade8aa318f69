import Mathlib.Tactic.Common
import SourceAtlas.Lease
import SourceAtlas.Project.Id

namespace SourceAtlas.Leases

open Settings Text

theorem stripSuffix?_append (s suf : List Char) : stripSuffix? suf (s ++ suf) = some s := by
  unfold stripSuffix?
  rw [if_pos (List.isSuffixOf_iff_suffix.mpr (List.suffix_append s suf))]
  simp

theorem stripSuffix?_eq_some {s suf r : List Char} (h : stripSuffix? suf s = some r) :
    s = r ++ suf := by
  unfold stripSuffix? at h
  split at h
  · next hs =>
      cases h
      obtain ⟨t, rfl⟩ := List.isSuffixOf_iff_suffix.mp hs
      simp
  · cases h

theorem stripSuffix?_of_not {s suf : List Char} (h : ¬ suf <:+ s) : stripSuffix? suf s = none := by
  unfold stripSuffix?
  rw [if_neg (by simpa using h)]

theorem not_suffix_of_last {s suf pre : List Char} {c c' : Char} (hc : suf.getLast? = some c)
    (hc' : pre.getLast? = some c') (hne : c ≠ c') : ¬ suf <:+ s ++ pre := by
  rintro ⟨t, ht⟩
  have h := congrArg List.getLast? ht
  rw [List.getLast?_append, List.getLast?_append, hc, hc'] at h
  exact hne (Option.some.inj h)

theorem dot_not_mem {id : String} (h : Project.checkId id = .ok ()) : '.' ∉ id.toList := by
  intro hm
  have := List.all_eq_true.mp (Project.checkId_ok_iff.mp h).2.2 '.' hm
  exact absurd this (by decide)

theorem not_suffix_of_dot {s suf : List Char} (hs : '.' ∉ s) (hd : '.' ∈ suf) : ¬ suf <:+ s :=
  fun h => hs (h.subset hd)

def entryNames (id : String) : List Name :=
  [id, id ++ archiveSuffix, id ++ analysisSuffix, id ++ lockSuffix]

theorem ownerOf_entry {id : String} (h : Project.checkId id = .ok ()) {n : Name}
    (hn : n ∈ entryNames id) : ownerOf n = id := by
  have hd := dot_not_mem h
  have hplain : ∀ {suf : String}, '.' ∈ suf.toList → stripSuffix? suf.toList id.toList = none :=
    fun hs => stripSuffix?_of_not (not_suffix_of_dot hd hs)
  have hother : ∀ {suf pre : String} {c c' : Char}, suf.toList.getLast? = some c →
      pre.toList.getLast? = some c' → c ≠ c' →
      stripSuffix? suf.toList (id ++ pre).toList = none := by
    intro suf pre c c' hc hc' hne
    rw [String.toList_append]
    exact stripSuffix?_of_not (not_suffix_of_last hc hc' hne)
  have hsame : ∀ suf : String, stripSuffix? suf.toList (id ++ suf).toList = some id.toList := by
    intro suf
    rw [String.toList_append, stripSuffix?_append]
  have hlock : lockSuffix.toList.getLast? = some 'k' := by decide
  have hanalysis : analysisSuffix.toList.getLast? = some 'n' := by decide
  have harchive : archiveSuffix.toList.getLast? = some 'p' := by decide
  simp only [entryNames, List.mem_cons, List.not_mem_nil, or_false] at hn
  unfold ownerOf
  dsimp only
  rcases hn with rfl | rfl | rfl | rfl
  · rw [hplain (by decide), hplain (by decide), hplain (by decide)]
    rfl
  · rw [hother hlock harchive (by decide), hother hanalysis harchive (by decide), hsame]
    simp
  · rw [hother hlock hanalysis (by decide), hsame]
    simp
  · rw [hsame]
    simp

theorem mem_entryNames_ownerOf (n : Name) : n ∈ entryNames (ownerOf n) := by
  have hstrip : ∀ {suf : String} {o : String},
      (stripSuffix? suf.toList n.toList).map String.ofList = some o → n = o ++ suf := by
    intro suf o h
    obtain ⟨r, hr, rfl⟩ := Option.map_eq_some_iff.mp h
    rw [← String.toList_inj, stripSuffix?_eq_some hr]
    simp
  unfold ownerOf entryNames
  dsimp only
  cases hlock : (stripSuffix? lockSuffix.toList n.toList).map String.ofList with
  | some o => simp [← hstrip hlock]
  | none =>
      cases hanalysis : (stripSuffix? analysisSuffix.toList n.toList).map String.ofList with
      | some o => simp [← hstrip hanalysis]
      | none =>
          cases harchive : (stripSuffix? archiveSuffix.toList n.toList).map String.ofList with
          | some o => simp [← hstrip harchive]
          | none => simp

theorem mem_entryNames_iff {id : String} (h : Project.checkId id = .ok ()) {n : Name} :
    n ∈ entryNames id ↔ ownerOf n = id :=
  ⟨ownerOf_entry h, fun he => he ▸ mem_entryNames_ownerOf n⟩

end SourceAtlas.Leases
