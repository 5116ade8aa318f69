import SourceAtlas.Proofs.Archive.Budget
import SourceAtlas.Proofs.Disk.Normal

namespace SourceAtlas.Archive

open Disk Work

theorem mem_landing {n : Name} {a : Place} {ns : List Name} (h : n ∈ landing a ns) :
    n ∈ a ∨ n ∈ ns := by
  induction ns generalizing a with
  | nil => exact .inl h
  | cons m ns ih =>
      rcases ih h with h | h
      · unfold descend at h
        split_ifs at h
        · exact .inl h
        · exact .inl (List.mem_of_mem_dropLast h)
        · rcases List.mem_append.mp h with h | h
          · exact .inl h
          · exact .inr (by rw [List.mem_singleton.mp h]; exact List.mem_cons_self)
      · exact .inr (.tail _ h)

theorem settle_inner {a : Place} {ns : List Name} (h : (depthOver ns a.length).isSome = true) :
    Path.settle a.reverse (ns.filterMap Path.inner) = some (landing a ns) := by
  induction ns generalizing a with
  | nil => exact congrArg some a.reverse_reverse
  | cons n ns ih =>
      rw [landing, List.foldl_cons]
      by_cases hi : n = "" ∨ n = "."
      · rw [depthOver_idle hi] at h
        rw [Path.settle_idle hi, show descend a n = a from if_pos hi]
        exact ih h
      · by_cases hu : n = ".."
        · subst hu
          rcases List.eq_nil_or_concat' a with rfl | ⟨a, m, rfl⟩
          · rw [List.length_nil, depthOver_up_zero] at h
            cases h
          · rw [List.length_append, List.length_singleton, depthOver_up] at h
            rw [List.reverse_concat, show descend (a ++ [m]) ".." = a from List.dropLast_concat]
            exact ih h
        · rw [depthOver_name hi hu] at h
          rw [Path.settle_name hi hu, ← List.reverse_concat,
            show descend a n = a ++ [n] by rw [descend, if_neg hi, if_neg hu]]
          exact ih (by rwa [List.length_append, List.length_singleton])

theorem Entry.IsKept.settled_eq {e : Entry} (h : e.IsKept) : e.settled = landing [] e.segments := by
  obtain ⟨_, ha, hd, _⟩ := isUnpacked_iff.mp h.unpacked
  have hnames : (Path.ofText e.name).settledNames = some (landing [] e.segments) :=
    (Path.settledNames_of_relative ha).trans (settle_inner (a := []) hd)
  rw [settled, hnames]
  rfl

theorem Entry.IsKept.free {e : Entry} (h : e.IsKept) : dependencyFolder ∉ e.settled := by
  rw [h.settled_eq]
  intro hm
  exact (isUnpacked_iff.mp h.unpacked).2.2.2 ((mem_landing hm).resolve_left nofun)

structure Stored (q : Place) (c : ByteArray) (d d' : Disk) : Prop where
  tree : IsTree d'
  grown : Extends d d'
  taken : d.found? q ≠ some .folder
  holds : ∃ i x t, d'.get? q = some ⟨.file i c x, t⟩
  found : ∀ {q'}, q' ≠ q → d'.found? q' = d.found? q'
  kept : ∀ {q'}, q' ≠ q → d.found? q' ≠ some .folder → d'.get? q' = d.get? q'

theorem stored_of_writeBytes {d d' : Disk} (ht : IsTree d) {p : Path} {c : ByteArray}
    (h : (writeBytes p c).run d = (.ok (), d')) :
    ∃ s, d.locate true p = .ok s ∧ Stored s.place c d d' := by
  have htree : IsTree d' := by
    have := openWith_isTree (fun _ => some c) p d ht
    rwa [← writeBytes_snd, h] at this
  obtain ⟨q, ⟨i, b, x, t, hl, rfl⟩ | ⟨hl, rfl⟩⟩ := writeBytes_ok h
  · have hr : d.get? q = some ⟨.file i b x, t⟩ := (locate_record hl).symm
    have hf := found?_of_get? hr
    have hq : q ≠ [] := by
      rintro rfl
      cases hf
    refine ⟨_, hl, htree, .rewrite hf, ?_, ⟨i, x, _, get?_set_self hq⟩, ?_, ?_⟩
    · rw [hf]
      nofun
    · exact fun hne => found?_congr (get?_set_of_ne hne)
    · exact fun hne _ => get?_set_of_ne hne
  · obtain ⟨hn, hq⟩ := free_of_locate hl
    have hfolder := (ht.free_spot hl).2
    refine ⟨_, hl, htree, .newFile hq hn, ?_, ⟨d.nextId, false, d.now, ?_⟩, ?_, ?_⟩
    · rw [found?_eq_none.mpr hn]
      nofun
    · rw [get?_newFile, get?_put_self hq]
    · intro q' hne
      rw [found?_newFile, found?_put_of_ne hne]
    · intro q' hne hq'
      rw [get?_newFile, get?_put_of_ne hne]
      rintro rfl
      exact hq' hfolder

structure Written (T : Place) (ws : List (List Name × ByteArray)) (d d' : Disk) : Prop where
  tree : IsTree d'
  grown : Extends d d'
  holds : ∀ {before ns c after}, ws = before ++ (ns, c) :: after → (∀ w ∈ after, w.1 ≠ ns) →
    ∃ i x t, d'.get? (T ++ ns) = some ⟨.file i c x, t⟩
  spared : ∀ {q}, (∀ w ∈ ws, q ≠ T ++ w.1) → d'.get? q = d.get? q ∨
    d'.found? q = some .folder ∧ (d.found? q = none ∨ d.found? q = some .folder)
  free : ∀ {ns}, dependencyFolder ∈ ns → d'.found? (T ++ ns) = d.found? (T ++ ns)

namespace Written

variable {T : Place} {ws : List (List Name × ByteArray)} {d d' d'' : Disk} {ms : List Name}

theorem refl (ht : IsTree d) (T : Place) : Written T [] d d :=
  ⟨ht, .refl d, fun h => by simp at h, fun _ => .inl rfl, fun _ => rfl⟩

theorem put (h : Written T ws d d') {p : Path} {deep sl : Bool}
    (hl : d'.locate deep p = .ok ⟨T ++ ms, none, sl⟩) (hm : dependencyFolder ∉ ms) :
    Written T ws d (d'.put (T ++ ms) .folder) := by
  obtain ⟨hn, h0⟩ := free_of_locate hl
  have haround := (h.tree.free_spot hl).2
  have hx : Extends d' (d'.put (T ++ ms) .folder) := .put h0 hn fun _ => nofun
  refine ⟨h.tree.put h0 hn haround, h.grown.trans hx, ?_,
    fun hq => get?_or_folder_put h0 hn haround (h.spared hq), ?_⟩
  · intro before ns c after hws hlast
    obtain ⟨i, x, t, hr⟩ := h.holds hws hlast
    refine ⟨i, x, t, ?_⟩
    rw [get?_put_of_ne, hr]
    · intro he
      rw [he, hn] at hr
      cases hr
    · intro he
      rw [← he, found?_of_get? hr] at haround
      cases haround
  · intro ns hns
    rw [found?_put_of_ne, h.free hns]
    intro he
    exact hm (List.append_cancel_left he ▸ hns)

theorem store (h : Written T ws d d') {c : ByteArray} (hs : Stored (T ++ ms) c d' d'')
    (hm : dependencyFolder ∉ ms) : Written T (ws ++ [(ms, c)]) d d'' := by
  refine ⟨hs.tree, h.grown.trans hs.grown, ?_, ?_, ?_⟩
  · intro before ns c' after hws hlast
    -- the last piece is the one just written; none before it is in its place
    rcases List.eq_nil_or_concat' after with rfl | ⟨after, w, rfl⟩
    · obtain ⟨_, hw⟩ := List.append_inj' hws rfl
      cases hw
      exact hs.holds
    · rw [← List.cons_append, ← List.append_assoc] at hws
      obtain ⟨hinit, hw⟩ := List.append_inj' hws rfl
      cases hw
      obtain ⟨i, x, t, hr⟩ := h.holds hinit fun w hw => hlast w (by simp [hw])
      refine ⟨i, x, t, ?_⟩
      rw [hs.kept, hr]
      · exact fun he => hlast (ms, c) (by simp) (List.append_cancel_left he).symm
      · rw [found?_of_get? hr]
        nofun
  · intro q hq
    have hqm : q ≠ T ++ ms := hq (ms, c) (by simp)
    have hold := h.spared fun w hw => hq w (by simp [hw])
    by_cases hf : d'.found? q = some .folder
    · refine .inr ⟨(hs.found hqm).trans hf, ?_⟩
      rcases hold with ho | ⟨_, ho⟩
      · exact .inr ((found?_congr ho).symm.trans hf)
      · exact ho
    · rw [hs.kept hqm hf, hs.found hqm]
      exact hold
  · intro ns hns
    rw [hs.found, h.free hns]
    intro he
    exact hm (List.append_cancel_left he ▸ hns)

end Written

section

variable {d d' d'' : Disk} {target p : Path} {T : Place} {ws : List (List Name × ByteArray)}
  {e : Entry} (ht : IsTree d) (hT : d.FolderAt target T)
  (hl : ∀ {q x}, T <+: q → d.found? q ≠ some (.link x))

include ht hT hl

theorem place_of_locate (hx : Extends d d') (hp : IsUnpacked p) {deep : Bool} {s : Spot}
    (h : d'.locate deep (target.join p) = .ok s) : s.place = T ++ landing [] p.segments := by
  obtain ⟨hs, ha, hd, _⟩ := isUnpacked_iff.mp hp
  obtain ⟨k, _, hj⟩ := hT.join ht hx ha hs
  have hfree : ∀ q x, T <+: q → d'.found? q ≠ some (.link x) := fun _ _ hq he => hl hq (hx.links he)
  have hplace := (way_settle hfree (hj.mp h).2 (.start T) (settle_inner (a := []) hd)).place
  rwa [List.reverse_reverse] at hplace

theorem makeFolders_written (hp : Asked target p) : Keeps (Written T ws d) (makeFolders p) := by
  refine makeFolders_keeps Asked.parent ?_ hp
  intro p d' q sl hp hw hloc
  obtain ⟨u, hu, rfl⟩ := hp.of_free ht hT hw.grown hloc
  obtain rfl : q = T ++ landing [] u.segments := place_of_locate ht hT hl hw.grown hu hloc
  refine hw.put hloc fun hm => ?_
  exact (isUnpacked_iff.mp hu).2.2.2 ((mem_landing hm).resolve_left nofun)

theorem writeFile_written {archive : Path} {mid : Disk} {c : ByteArray} (he : e.IsKept)
    (hw : Written T ws d d')
    (haround : (makeAround archive (target.join ⟨e.segments⟩)).run d' = (.ok (), mid))
    (hwrite : (writeBytes (target.join ⟨e.segments⟩) c).run mid = (.ok (), d'')) :
    Written T (ws ++ [(e.settled, c)]) d d'' := by
  have hmid := makeAround_keeps (makeFolders_written ht hT hl) archive he.unpacked d' hw
  rw [haround] at hmid
  obtain ⟨s, hloc, hs⟩ := stored_of_writeBytes hmid.tree hwrite
  rw [place_of_locate ht hT hl hmid.grown he.unpacked hloc, ← he.settled_eq] at hs
  exact hmid.store hs he.free

end

end SourceAtlas.Archive
