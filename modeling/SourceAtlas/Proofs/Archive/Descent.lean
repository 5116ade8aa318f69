import SourceAtlas.Proofs.Archive.Confinement

namespace SourceAtlas.Archive

open Disk

structure Descends (p : Path) : Prop where
  nonempty : p.segments ≠ []
  names : ∀ n ∈ p.segments, IsName n

theorem Descends.relative {p : Path} (h : Descends p) : p.isAbsolute = false := by
  rw [← Bool.not_eq_true, Path.isAbsolute_iff]
  rintro ⟨n, r, hp⟩
  exact (h.names "" (by simp [hp])).1 (.inl rfl)

theorem depthOver_names {ms : List Name} (h : ∀ n ∈ ms, IsName n) (ns : List Name) (k : Nat) :
    depthOver (ms ++ ns) k = depthOver ns (k + ms.length) := by
  induction ms generalizing k with
  | nil => rfl
  | cons m ms ih =>
      have hm := h m (by simp)
      rw [List.cons_append, depthOver_name hm.1 hm.2.1, ih fun n hn => h n (by simp [hn]),
        List.length_cons]
      congr 1
      omega

theorem way_below {d : Disk} {T : Place} (hl : ∀ {q p}, T <+: q → d.found? q = some (.link p) →
    Descends p) {deep : Bool} {k : Nat} {a r : Place} {ns : List Name} {s : Spot}
    (h : Way d deep k a ns s) (ha : a = T ++ r) (hd : (depthOver ns r.length).isSome = true) :
    T <+: s.place := by
  -- the way stays so many names below `T` as the depth counts
  induction h generalizing r with
  | stop =>
      rw [ha]
      exact List.prefix_append ..
  | idle hn _ ih => exact ih ha (by rwa [depthOver_idle hn] at hd)
  | up _ ih =>
      rcases List.eq_nil_or_concat r with rfl | ⟨r, n, rfl⟩
      · rw [List.length_nil, depthOver_up_zero] at hd
        cases hd
      · refine ih (r := r) ?_ ?_
        · rw [ha, List.concat_eq_append, ← List.append_assoc, List.dropLast_concat]
        · rwa [List.length_concat, depthOver_up] at hd
  | @enter _ _ n _ _ hn _ _ ih =>
      refine ih (r := r ++ [n]) (by rw [ha, List.append_assoc]) ?_
      rwa [List.length_append, List.length_singleton, ← depthOver_name hn.1 hn.2.1]
  | missing => exact ha ▸ (List.prefix_append T r).trans (List.prefix_append ..)
  | file => exact ha ▸ (List.prefix_append T r).trans (List.prefix_append ..)
  | last => exact ha ▸ (List.prefix_append T r).trans (List.prefix_append ..)
  | turn hn he _ _ ih =>
      have hp := hl (ha ▸ (List.prefix_append T r).trans (List.prefix_append ..)) he
      refine ih (r := r) ?_ ?_
      · rw [if_neg (by simp [hp.relative]), ha]
      · rw [depthOver_name hn.1 hn.2.1] at hd
        rw [depthOver_names hp.names]
        have := List.length_pos_iff.mpr hp.nonempty
        exact depthAfter_mono (by omega) hd

theorem sealed_of_descends {d : Disk} {target : Path} {T : Place} (ht : IsTree d)
    (hT : d.FolderAt target T)
    (hl : ∀ {q p}, T <+: q → d.found? q = some (.link p) → Descends p) : Sealed d target T := by
  intro d' p s hg hu h
  obtain ⟨hs, ha, hd, _⟩ := isUnpacked_iff.mp hu
  obtain ⟨k, _, hj⟩ := hT.join ht hg.grown ha hs
  exact way_below (fun hq he => hl hq (hg.grown.links he)) (hj.mp h).2 (List.append_nil T).symm hd

end SourceAtlas.Archive
