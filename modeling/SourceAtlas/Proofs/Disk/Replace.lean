import SourceAtlas.Proofs.Disk.Regular
import SourceAtlas.Proofs.Disk.Tree

namespace SourceAtlas.Disk

variable {d d' : Disk} {p : Path} {P q : Place} {n : Name}

theorem Way.carry {deep : Bool} {k : Nat} {a : Place} {ns : List Name} {s : Spot}
    (hk : ∀ {q e}, d.found? q = some e → (∀ i b x, e ≠ .file i b x) → d'.found? q = some e)
    (h : Way d deep k a ns s) (hs : d'.found? s.place = d.found? s.place) :
    Way d' deep k a ns ⟨s.place, d'.get? s.place, s.slash⟩ := by
  induction h with
  | stop => exact .stop
  | idle hn _ ih => exact .idle hn (ih hs)
  | up _ ih => exact .up (ih hs)
  | enter hn hf _ ih => exact .enter hn (hk hf fun _ _ _ => Entry.noConfusion) (ih hs)
  | missing hn hm hidle =>
      rw [found?_eq_none.mpr hm] at hs
      have hm' := found?_eq_none.mp hs
      rw [hm']
      exact .missing hn hm' hidle
  | file hn hf =>
      rw [found?_of_get? hf] at hs
      obtain ⟨t, hf'⟩ := found?_eq_some.mp hs
      rw [hf']
      exact .file hn hf'
  | last hn hl hd =>
      rw [found?_of_get? hl] at hs
      obtain ⟨t, hl'⟩ := found?_eq_some.mp hs
      rw [hl']
      exact .last hn hl' hd
  | turn hn hl hr _ ih => exact .turn hn (hk hl fun _ _ _ => Entry.noConfusion) hr (ih hs)

theorem locate_carry {deep : Bool} {s : Spot} (hb : d'.base = d.base)
    (hk : ∀ {q e}, d.found? q = some e → (∀ i b x, e ≠ .file i b x) → d'.found? q = some e)
    (h : d.locate deep p = .ok s) (hs : d'.found? s.place = d.found? s.place) :
    d'.locate deep p = .ok ⟨s.place, d'.get? s.place, s.slash⟩ := by
  obtain ⟨hp, hw⟩ := locate_eq_ok.mp h
  have hst : d'.start p = d.start p := by rw [start, start, hb]
  refine locate_eq_ok.mpr ⟨⟨hp.nonempty, hp.clean, ?_⟩, hst ▸ hw.carry hk hs⟩
  exact hst ▸ hk hp.folder fun _ _ _ => Entry.noConfusion

theorem FolderAt.carry (hb : d'.base = d.base)
    (hk : ∀ {q e}, d.found? q = some e → (∀ i b x, e ≠ .file i b x) → d'.found? q = some e)
    (h : d.FolderAt p q) : d'.FolderAt p q := by
  have hq' : d'.found? q = some .folder := hk h.folder fun _ _ _ => Entry.noConfusion
  obtain ⟨hw, hq⟩ := folderAt_iff.mp h
  have hl := locate_carry hb hk (locate_eq_ok.mpr hw) (hq'.trans hq.symm)
  exact folderAt_iff.mpr ⟨locate_eq_ok.mp hl, hq'⟩

theorem FolderAt.of_newFile {b : ByteArray} {x : Bool} {at_ : Place} (h0 : at_ ≠ [])
    (h : (d.newFile at_ b x).FolderAt p q) : d.FolderAt p q := by
  refine h.carry (by simp) fun {q e} he hfile => ?_
  by_cases hq : q = at_
  · subst hq
    rw [found?_newFile, found?_put_self h0] at he
    cases he
    exact absurd rfl (hfile _ _ _)
  · rwa [found?_newFile, found?_put_of_ne hq] at he

section Child

variable (ht : IsTree d) (hP : d.FolderAt p P) (hn : IsEntryName n)

include ht hP hn

theorem locate_child :
    d.locate false (p.join ⟨[n]⟩) = .ok ⟨P ++ [n], d.get? (P ++ [n]), false⟩ := by
  obtain ⟨k, _, hj⟩ := hP.join ht (.refl d) (r := ⟨[n]⟩)
    (Path.isAbsolute_names (by simpa using hn.proper)) (by simp)
  refine hj.mpr ⟨isClean_of (by simpa using hn.clean), ?_⟩
  exact way_of_follow (follow_plain hn.isName)

theorem replaceBytes_child (b : ByteArray) : (replaceBytes (p.join ⟨[n]⟩) b).run d =
    match d.found? (P ++ [n]) with
    | some .folder => (.error .isFolder, d)
    | _ => (.ok (), d.newFile (P ++ [n]) b false) := by
  rw [replaceBytes_run, locate_child ht hP hn]
  rcases hr : d.get? (P ++ [n]) with _ | ⟨_ | _ | _, t⟩
  · rw [found?_eq_none.mpr hr]
    rfl
  all_goals rw [found?_of_get? hr]

theorem readBytes_child {i : Nat} {b : ByteArray} {x : Bool} {t : Moment}
    (hr : d.get? (P ++ [n]) = some ⟨.file i b x, t⟩) : d.readBytes (p.join ⟨[n]⟩) = .ok b := by
  obtain ⟨k, _, hj⟩ := hP.join ht (.refl d) (r := ⟨[n]⟩)
    (Path.isAbsolute_names (by simpa using hn.proper)) (by simp)
  have hs : d.stat (p.join ⟨[n]⟩) = .ok (P ++ [n], ⟨.file i b x, t⟩) :=
    stat_eq_ok.mpr (hj.mpr ⟨isClean_of (by simpa using hn.clean), .file hn.isName hr⟩)
  simp [readBytes, hs, bind, Except.bind]

end Child

theorem folderAt_of_front (hp : d.Starts p)
    (hw : Way d true maxLinks (d.start p) p.front ⟨P, d.get? P, false⟩)
    (hP : d.found? P = some .folder) : d.FolderAt p P := by
  rcases p.segments_eq_front with hs | hs
  · rw [← hs] at hw
    exact folderAt_iff.mpr ⟨⟨hp, hw⟩, hP⟩
  · obtain ⟨k, _, hf⟩ := hw.append hP
    have hr := hf true [""] (by simp)
    rw [← hs, follow_idle (.inl rfl), follow_nil] at hr
    exact folderAt_iff.mpr ⟨⟨hp, way_of_follow hr⟩, hP⟩

theorem folder_of_locate (ht : IsTree d) (hp : p.isEmpty = false) (hn : n.IsProper) {deep : Bool}
    {s : Spot} (h : d.locate deep (p.join ⟨[n]⟩) = .ok s) : d.isFolder p = true := by
  have ha : Path.isAbsolute ⟨[n]⟩ = false := Path.isAbsolute_names (by simpa using hn)
  obtain ⟨hstarts, hw⟩ := locate_eq_ok.mp h
  have hst : d.start (p.join ⟨[n]⟩) = d.start p := by
    rw [start, start, Path.isAbsolute_join hp ha (by simp)]
  have hclean := hstarts.clean
  have hfolder := hstarts.folder
  rw [IsClean, Path.segments_join ha, List.any_append, Bool.or_eq_false_iff] at hclean
  rw [hst] at hfolder
  rw [hst, Path.segments_join ha] at hw
  obtain ⟨q, hw, hq⟩ := ht.front hw hfolder ⟨n, by simp, hn.ne_empty⟩
  have hp' : IsClean p := by
    rcases p.segments_eq_front with hs | hs
    · rw [IsClean, hs]
      exact hclean.1
    · rw [IsClean, hs, List.any_append, hclean.1]
      rfl
  exact isFolder_iff.mpr ⟨q, folderAt_of_front ⟨hp, hp', hfolder⟩ hw hq⟩

theorem folder_around (ht : IsTree d) (hP : d.FolderAt p P) (hn : n.IsProper) {p' : Path}
    (h : (p.join ⟨[n]⟩).parent = some p') : p'.isEmpty = false ∧ d.isFolder p' = true := by
  obtain ⟨⟨hp, hw⟩, hf⟩ := folderAt_iff.mp hP
  rw [Path.parent_join_name hp.nonempty hn] at h
  injection h with h
  obtain ⟨f, r, hfront⟩ := List.exists_cons_of_ne_nil (Path.front_ne_nil hp.nonempty)
  obtain ⟨t, u, hd, hu, _⟩ := Path.dropIdle_cons f r
  split at h
  · subst h
    exact ⟨rfl, isFolder_iff.mpr ⟨_, .top d⟩⟩
  · next hne =>
      rw [hfront, hd] at h hne
      subst h
      have he : Path.isEmpty ⟨f :: t⟩ = false := Path.isEmpty_cons (by
        rintro ⟨rfl, rfl⟩
        exact hne rfl)
      refine ⟨he, isFolder_iff.mpr ?_⟩
      rcases p.segments_eq_front with hs | hs
      · exact hP.front ht he (by rw [hs, hfront, hu]; rfl)
      · exact hP.front ht he (by rw [hs, hfront, hu]; exact List.append_assoc (f :: t) u [""])

end SourceAtlas.Disk
