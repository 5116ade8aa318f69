import SourceAtlas.Proofs.Disk.Regular
import SourceAtlas.Proofs.Path.Normal

namespace SourceAtlas

namespace Disk

open SourceAtlas.Path (inner settle)

variable {d : Disk} {P a : Place} {above : List Name} {n : Name}

structure DescendedVia (P a : Place) (above : List Name) : Prop where
  place : a = P ++ above.reverse
  names : ∀ n ∈ above, IsName n

namespace DescendedVia

theorem start (P : Place) : DescendedVia P P [] := ⟨(List.append_nil P).symm, nofun⟩

theorem enter (h : DescendedVia P a above) (hn : IsName n) : DescendedVia P (a ++ [n]) (n :: above) where
  place := by rw [h.place, List.reverse_cons, List.append_assoc]
  names := List.forall_mem_cons.mpr ⟨hn, h.names⟩

theorem up (h : DescendedVia P a (n :: above)) : DescendedVia P a.dropLast above where
  place := by rw [h.place, List.reverse_cons, ← List.append_assoc, List.dropLast_concat]
  names := (List.forall_mem_cons.mp h.names).2

theorem below (h : DescendedVia P a above) : P <+: a := h.place ▸ List.prefix_append ..

end DescendedVia

theorem way_settle (hl : ∀ q t, P <+: q → d.found? q ≠ some (.link t)) {deep : Bool} {k : Nat}
    {ns ms : List Name} {s : Spot} (h : Way d deep k a ns s) (hg : DescendedVia P a above)
    (hm : settle above (ns.filterMap inner) = some ms) : DescendedVia P s.place ms.reverse := by
  -- each step of the way adds a name, takes one back or does nothing, and so does settling
  induction h generalizing above with
  | stop =>
      cases hm
      rwa [List.reverse_reverse]
  | idle hn _ ih => exact ih hg (by rwa [Path.settle_idle hn] at hm)
  | up _ ih =>
      cases above with
      | nil => cases hm
      | cons n above => exact ih hg.up hm
  | enter hn _ _ ih => exact ih (hg.enter hn) (by rwa [Path.settle_name hn.1 hn.2.1] at hm)
  | missing hn _ hr =>
      rw [Path.settle_name hn.1 hn.2.1, Path.settle_rest hr] at hm
      cases hm
      rw [List.reverse_reverse]
      exact hg.enter hn
  | file hn _ =>
      rw [Path.settle_name hn.1 hn.2.1, Path.settle_rest rfl] at hm
      cases hm
      rw [List.reverse_reverse]
      exact hg.enter hn
  | last hn he _ => exact absurd (found?_of_get? he) (hl _ _ (hg.enter hn).below)
  | turn hn he _ _ _ => exact absurd he (hl _ _ (hg.enter hn).below)

theorem isClean_ofNames {p : Path} (h : IsClean p) {ns : List Name}
    (hns : settle [] (p.segments.filterMap inner) = some ns) : IsClean (.ofNames ns) := by
  have hleft : ∀ n ∈ ns, '\x00' ∉ n.toList := by
    refine Path.settle_mem hns nofun fun n hn => ?_
    obtain ⟨m, hm, he⟩ := List.mem_filterMap.mp hn
    rw [← Path.inner_eq_some he]
    simpa using List.any_eq_false.mp h m hm
  refine isClean_of fun n hn => ?_
  rcases Path.mem_segments_ofNames hn with rfl | hn
  · decide
  · exact hleft n hn

theorem way_ofNames (ht : IsTree d) {k : Nat} {ns : List Name} (hn : ∀ n ∈ ns, IsName n)
    {r : Record} (hr : d.get? (P ++ ns) = some r) (hl : ∀ t, r.entry ≠ .link t) :
    Way d true k P (Path.ofNames ns).segments ⟨P ++ ns, some r, false⟩ := by
  by_cases hns : ns = []
  · subst hns
    rw [List.append_nil] at hr ⊢
    rw [← hr]
    exact .idle (.inl rfl) .stop
  · rw [Path.ofNames, if_neg hns]
    exact way_down ht hn hr hl

theorem stat_joinWithin (ht : IsTree d) {root : Path} (hP : d.FolderAt root P)
    (hl : ∀ q t, P <+: q → d.found? q ≠ some (.link t)) {s : String} {p : Path}
    (hp : root.joinWithin (.ofText s) = some p) {q : Place} {r : Record}
    (hs : d.stat (root.join (.ofText s)) = .ok (q, r)) : P <+: q ∧ d.stat p = .ok (q, r) := by
  obtain ⟨habs, ns, hns, rfl⟩ := Path.joinWithin_eq_some.mp hp
  have habs' : (Path.ofNames ns).isAbsolute = false :=
    Path.isAbsolute_ofSettled (Path.isProper_settledNames hns) false
  rw [Path.settledNames_of_relative habs] at hns
  obtain ⟨k, _, hj⟩ := hP.join ht (.refl d) habs (Path.segments_ofText_ne_nil s)
  obtain ⟨hc, hw⟩ := hj.mp (stat_eq_ok.mp hs)
  -- that a record is there, at the end of the names left, is known from the way itself
  have hg := way_settle hl hw (.start P) hns
  have hq : q = P ++ ns := by simpa using hg.place
  have hr : d.get? (P ++ ns) = some r := hq ▸ hw.record.symm
  refine ⟨hg.below, ?_⟩
  obtain ⟨k', _, hj'⟩ := hP.join ht (.refl d) habs' (Path.segments_ofNames_ne_nil ns)
  rw [stat_eq_ok, hj', hq]
  exact ⟨isClean_ofNames hc hns, way_ofNames ht (fun n hn => hg.names n (List.mem_reverse.mpr hn)) hr
    fun t he => hl (P ++ ns) t (List.prefix_append ..) (he ▸ found?_of_get? hr)⟩

end Disk

namespace Path

open Disk

/-- A normal form stands for its path: it stays as it is, and whatever is joined to the path may be joined to
it. There is none exactly where a path climbs above its start. What is joined within a root consists of the
root and plain names behind it, and where no links lie in the root it leads to what the path leads to. -/
theorem normalize_settles :
    (∀ p q : String, (ofText q).isAbsolute = false → ((ofText p).join (ofText q)).normalize =
      (ofText p).normalize.bind fun n => (n.join (ofText q)).normalize) ∧
    (∀ (p : String) (n : Path), (ofText p).normalize = some n →
      (∀ c ∈ n.steps, c ≠ .here ∧ c ≠ .up) ∧ n.normalize = some n) ∧
    (∀ p : String, (ofText p).isAbsolute = false → ((ofText p).normalize = none ↔
      ∃ cs, cs <+: (ofText p).steps ∧ cs.countP Step.isName < cs.count .up)) ∧
    ∀ (root : Path) (p : String) (r : Path), root.joinWithin (ofText p) = some r →
      (∃ ns : List Name, (∀ n ∈ ns, n.IsProper) ∧ r.steps = root.steps ++ ns.map .name) ∧
      ∀ (d : Disk) (R : Place), IsTree d → d.FolderAt root R →
        (∀ q t, R <+: q → d.found? q ≠ some (.link t)) →
        ∀ q record, d.stat (root.join (ofText p)) = .ok (q, record) →
          R <+: q ∧ d.stat r = .ok (q, record) := by
  refine ⟨fun p q hq => normalize_join p hq (segments_ofText_ne_nil q), fun p n hn =>
    ⟨plain_of_normalize hn, normalize_normalize hn⟩, fun p _ => normalize_eq_none_iff,
    fun root p r hr => ⟨?_, fun d R ht hR hl q record => stat_joinWithin ht hR hl hr⟩⟩
  obtain ⟨_, ns, hns, rfl⟩ := joinWithin_eq_some.mp hr
  exact ⟨ns, isProper_settledNames hns, steps_join_ofNames root (isProper_settledNames hns)⟩

def forked : Disk :=
  ⟨[(["p"], ⟨.folder, 0⟩), (["p", "a"], ⟨.folder, 0⟩),
    (["p", "b"], ⟨.file 0 "x".toUTF8 false, 0⟩)], [], 0, 1⟩

theorem isTree_forked : IsTree forked := by decide

theorem forked_no_link (q : Place) (t : Path) : forked.found? q ≠ some (.link t) := by
  intro h
  obtain ⟨τ, hr⟩ := record_of_link h
  simp [forked] at hr

theorem normalize_settles_forked :
    ((ofText "../b").isAbsolute = false ∧
      ((ofText "a/.").join (ofText "../b")).normalize = some (ofText "b")) ∧
    ((ofText "a/./b").normalize = some (ofText "a/b") ∧
      (ofText "a/b").normalize = some (ofText "a/b")) ∧
    ((ofText "a/../../b").isAbsolute = false ∧ (ofText "a/../../b").normalize = none) ∧
    (ofText "p").joinWithin (ofText "a/./../b") = some (ofText "p/b") ∧ IsTree forked ∧
    forked.FolderAt (ofText "p") ["p"] ∧ (∀ q t, ["p"] <+: q → forked.found? q ≠ some (.link t)) ∧
    ∃ record, forked.stat ((ofText "p").join (ofText "a/./../b")) = .ok (["p", "b"], record) ∧
      forked.stat (ofText "p/b") = .ok (["p", "b"], record) := by
  obtain ⟨hjoin, hplain, hclimb, hwithin⟩ := normalize_settles
  have hnormal : (ofText "a/./b").normalize = some (ofText "a/b") := by decide
  have hr : (ofText "p").joinWithin (ofText "a/./../b") = some (ofText "p/b") := by decide
  have hR : forked.FolderAt (ofText "p") ["p"] := ⟨0, rfl⟩
  have hl : ∀ q t, ["p"] <+: q → forked.found? q ≠ some (.link t) :=
    fun q t _ => forked_no_link q t
  obtain ⟨record, hs⟩ : ∃ record,
      forked.stat ((ofText "p").join (ofText "a/./../b")) = .ok (["p", "b"], record) := ⟨_, rfl⟩
  refine ⟨⟨by decide, (hjoin "a/." "../b" (by decide)).trans (by decide)⟩,
    ⟨hnormal, (hplain _ _ hnormal).2⟩, ⟨by decide, (hclimb _ (by decide)).mpr ?_⟩, hr, isTree_forked,
    hR, hl, record, hs, ((hwithin _ _ _ hr).2 forked ["p"] isTree_forked hR hl _ _ hs).2⟩
  exact ⟨[.name "a", .up, .up], by decide, by decide⟩

end Path

end SourceAtlas
