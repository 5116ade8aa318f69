import SourceAtlas.Proofs.Disk.Emptied

namespace SourceAtlas.Disk

open Work

variable {d d' d'' : Disk} {p : Path} {P T q : Place} {n : Name}

structure Filed (q : Place) (d d' : Disk) : Prop where
  tree : IsTree d'
  base : d'.base = d.base
  before : ∀ {e}, d.found? q = some e → ∃ i b x, e = .file i b x
  after : ∃ i b x, d'.found? q = some (.file i b x)
  other : ∀ {q'}, q' ≠ q → d'.found? q' = d.found? q'

namespace Filed

theorem newFile (ht : IsTree d) (hq : q ≠ []) (hf : d.found? q.dropLast = some .folder)
    (h : ∀ {e}, d.found? q = some e → ∃ i b x, e = .file i b x) (b : ByteArray) (x : Bool) :
    Filed q d (d.newFile q b x) where
  tree := by
    refine ht.newFile hq (fun he => ?_) hf b x
    obtain ⟨_, _, _, he⟩ := h he
    cases he
  base := newFile_base ..
  before := h
  after := ⟨_, _, _, by rw [found?_newFile, found?_put_self hq]⟩
  other := fun hq => by rw [found?_newFile, found?_put_of_ne hq]

theorem newFile_free (ht : IsTree d) {deep sl : Bool} (h : d.locate deep p = .ok ⟨q, none, sl⟩)
    (b : ByteArray) (x : Bool) : Filed q d (d.newFile q b x) := by
  obtain ⟨hq, hf⟩ := ht.free_spot h
  refine newFile ht hq hf (fun he => ?_) b x
  rw [found?_eq_none.mpr (free_of_locate h).1] at he
  cases he

theorem rewrite (ht : IsTree d) {i : Nat} {b b' : ByteArray} {x x' : Bool} {t : Moment}
    (h : d.found? q = some (.file i b x)) : Filed q d (d.set q ⟨.file i b' x', t⟩) where
  tree := ht.rewrite h
  base := rfl
  before := by
    intro e he
    rw [h] at he
    cases he
    exact ⟨_, _, _, rfl⟩
  after := by
    have hq : q ≠ [] := by
      rintro rfl
      cases h
    exact ⟨_, _, _, found?_of_get? (get?_set_self hq)⟩
  other := fun hq => found?_congr (get?_set_of_ne hq)

theorem kept (h : Filed q d d') {q' : Place} {e : Entry} (he : d.found? q' = some e)
    (hfile : ∀ i b x, e ≠ .file i b x) : d'.found? q' = some e := by
  by_cases hq : q' = q
  · subst hq
    obtain ⟨i, b, x, rfl⟩ := h.before he
    exact absurd rfl (hfile i b x)
  · rwa [h.other hq]

theorem link (h : Filed q d d') {q' : Place} {t : Path} (he : d'.found? q' = some (.link t)) :
    d.found? q' = some (.link t) := by
  by_cases hq : q' = q
  · subst hq
    obtain ⟨_, _, _, hf⟩ := h.after
    rw [hf] at he
    cases he
  · rwa [← h.other hq]

end Filed

def Marked (q : Place) (d d' : Disk) : Prop := d' = d ∨ Filed q d d'

namespace Marked

theorem tree (h : Marked q d d') (ht : IsTree d) : IsTree d' := by
  rcases h with rfl | h
  · exact ht
  · exact h.tree

theorem base (h : Marked q d d') : d'.base = d.base := by
  rcases h with rfl | h
  · rfl
  · exact h.base

theorem other (h : Marked q d d') {q' : Place} (hq : q' ≠ q) : d'.found? q' = d.found? q' := by
  rcases h with rfl | h
  · rfl
  · exact h.other hq

theorem kept (h : Marked q d d') {q' : Place} {e : Entry} (he : d.found? q' = some e)
    (hfile : ∀ i b x, e ≠ .file i b x) : d'.found? q' = some e := by
  rcases h with rfl | h
  · exact he
  · exact h.kept he hfile

theorem link (h : Marked q d d') {q' : Place} {t : Path} (he : d'.found? q' = some (.link t)) :
    d.found? q' = some (.link t) := by
  rcases h with rfl | h
  · exact he
  · exact h.link he

theorem trans (h : Marked q d d') (h' : Marked q d' d'') : Marked q d d'' := by
  rcases h with rfl | h
  · exact h'
  · rcases h' with rfl | h'
    · exact .inr h
    · exact .inr ⟨h'.tree, h'.base.trans h.base, h.before, h'.after,
        fun hq => (h'.other hq).trans (h.other hq)⟩

theorem folderAt (h : Marked q d d') (hP : d.FolderAt p P) : d'.FolderAt p P :=
  hP.carry h.base h.kept

end Marked

def FiledAt (p : Path) (d d' : Disk) : Prop :=
  d' = d ∨ ∃ s, d.locate true p = .ok s ∧ Filed s.place d d'

theorem openWith_filedAt (ht : IsTree d) (change : ByteArray → Option ByteArray) (p : Path) :
    FiledAt p d ((openWith change p).run d).2 :=
  openWith_elim change (.inl rfl) (fun hl hf => .inr ⟨_, hl, .rewrite ht hf⟩) fun hl =>
    .inr ⟨_, hl, .newFile_free ht hl _ _⟩

def bytesAt (d : Disk) (q : Place) : ByteArray :=
  match d.found? q with
  | some (.file _ b _) => b
  | _ => .empty

theorem bytesAt_congr (h : d'.found? q = d.found? q) : d'.bytesAt q = d.bytesAt q := by
  rw [bytesAt, bytesAt, h]

theorem bytesAt_file {i : Nat} {b : ByteArray} {x : Bool} (h : d.found? q = some (.file i b x)) :
    d.bytesAt q = b := by
  rw [bytesAt, h]

theorem bytesAt_none (h : d.found? q = none) : d.bytesAt q = .empty := by
  rw [bytesAt, h]

theorem openWith_lands (ht : IsTree d) {r : Option Record} (hl : d.locate true p = .ok ⟨q, r, false⟩)
    (hq : d.found? q ≠ some .folder) (new : ByteArray → ByteArray) :
    ∃ i d' x, (openWith (fun old => some (new old)) p).run d = (.ok i, d') ∧ Filed q d d' ∧
      d'.get? q = some ⟨.file i (new (d.bytesAt q)) x, d.now⟩ := by
  have hr : r = d.get? q := locate_record hl
  have h0 : q ≠ [] := by
    rintro rfl
    exact hq (found?_root d)
  rw [openWith_run, hl]
  -- every link has been followed, so what is there is a file, if anything
  rcases r with _ | ⟨_ | ⟨i, old, x⟩ | t, c⟩
  · refine ⟨_, _, false, rfl, .newFile_free ht hl _ false, ?_⟩
    rw [get?_newFile, get?_put_self h0, bytesAt_none (found?_eq_none.mpr hr.symm)]
    rfl
  · exact absurd (found?_of_get? hr.symm) hq
  · have hf := found?_of_get? hr.symm
    refine ⟨_, _, x, rfl, .rewrite ht hf, ?_⟩
    rw [bytesAt_file hf]
    exact get?_set_self h0
  · obtain ⟨hp, hw⟩ := locate_eq_ok.mp hl
    exact (ht.not_link hw hp.folder (found?_of_get? hr.symm)).elim

theorem writeBytes_lands (ht : IsTree d) {r : Option Record}
    (hl : d.locate true p = .ok ⟨q, r, false⟩) (hq : d.found? q ≠ some .folder) (b : ByteArray) :
    ∃ d' i x, (writeBytes p b).run d = (.ok (), d') ∧ Filed q d d' ∧
      d'.get? q = some ⟨.file i b x, d.now⟩ := by
  obtain ⟨i, d', x, hrun, hfiled, hget⟩ := openWith_lands ht hl hq fun _ => b
  exact ⟨d', i, x, by rw [writeBytes, run_discard, hrun], hfiled, hget⟩

structure Inside (T : Place) (d d' : Disk) : Prop extends Within T d d' where
  links : ∀ {q t}, d'.found? q = some (.link t) → d.found? q = some (.link t)

namespace Inside

theorem grownIn (hT : d.found? T = some .folder) (h : GrownIn T d d') (ht : IsTree d') :
    Inside T d d' where
  tree := ht
  base := h.grown.base
  folder := h.grown.folder hT
  outside := fun hq => found?_congr (h.outside hq)
  links := h.grown.links

theorem emptied (h : Emptied T d d') (hT : d.found? T = some .folder) : Inside T d d' where
  tree := h.tree
  base := h.base
  folder := (h.other fun hb => hb.2 rfl).trans hT
  outside := fun hq => h.other fun hb => hq hb.1
  links := by
    intro q t hq
    by_cases hb : T <+: q ∧ q ≠ T
    · rw [h.bare q hb.1 hb.2] at hq
      cases hq
    · rwa [← h.other hb]

theorem put (ht : IsTree d) (hT : T ≠ []) (hn : d.found? T = none)
    (hf : d.found? T.dropLast = some .folder) : Inside T d (d.put T .folder) where
  tree := ht.put hT (found?_eq_none.mp hn) hf
  base := put_base ..
  folder := found?_put_self hT
  outside := by
    intro q hq
    refine found?_put_of_ne ?_
    rintro rfl
    exact hq (List.prefix_refl _)
  links := (Extends.put hT (found?_eq_none.mp hn) fun _ => Entry.noConfusion).links

theorem drop (ht : IsTree d) (hT : d.found? T = some .folder) (hq : T <+: q) (hne : q ≠ T) :
    Inside T d (d.drop q) where
  tree := ht.drop q
  base := drop_base ..
  folder := by
    rwa [found?_drop_of_outside]
    exact fun h => hne ((h.eq_of_length_le hq.length_le))
  outside := fun h => found?_drop_of_outside fun hb => h (hq.trans hb)
  links := by
    intro q' t h
    by_cases hb : q <+: q'
    · by_cases h0 : q' = []
      · subst h0
        cases h
      · rw [found?_drop_below h0 hb] at h
        cases h
    · rwa [found?_drop_of_outside hb] at h

end Inside

section Child

variable (ht : IsTree d) (hP : d.FolderAt p P) (hn : IsEntryName n)

include ht hP hn

theorem locate_child_deep (hl : ∀ t, d.found? (P ++ [n]) ≠ some (.link t)) :
    d.locate true (p.join ⟨[n]⟩) = .ok ⟨P ++ [n], d.get? (P ++ [n]), false⟩ := by
  obtain ⟨k, _, hj⟩ := hP.join ht (.refl d) (r := ⟨[n]⟩)
    (Path.isAbsolute_names (by simpa using hn.proper)) (by simp)
  refine hj.mpr ⟨isClean_of (by simpa using hn.clean), ?_⟩
  rcases hr : d.get? (P ++ [n]) with _ | ⟨_ | _ | t', t⟩
  · exact .missing hn.isName hr rfl
  · have hway : Way d true k (P ++ [n]) [] ⟨P ++ [n], d.get? (P ++ [n]), false⟩ := .stop
    rw [hr] at hway
    exact .enter hn.isName (found?_of_get? hr) hway
  · exact .file hn.isName hr
  · exact absurd (found?_of_get? hr) (hl t')

theorem stat_child (hl : ∀ t, d.found? (P ++ [n]) ≠ some (.link t)) :
    d.stat (p.join ⟨[n]⟩) = match d.get? (P ++ [n]) with
      | some r => .ok (P ++ [n], r)
      | none => .error .notFound := by
  rw [stat, locate_child_deep ht hP hn hl]
  cases d.get? (P ++ [n]) <;> rfl

theorem FiledAt.marked (hl : ∀ t, d.found? (P ++ [n]) ≠ some (.link t))
    (h : FiledAt (p.join ⟨[n]⟩) d d') : Marked (P ++ [n]) d d' := by
  rcases h with rfl | ⟨s, hs, h⟩
  · exact .inl rfl
  · rw [locate_child_deep ht hP hn hl] at hs
    cases hs
    exact .inr h

theorem folderAt_child (h : d.found? (P ++ [n]) = some .folder) :
    d.FolderAt (p.join ⟨[n]⟩) (P ++ [n]) := by
  obtain ⟨t, hr⟩ := found?_eq_some.mp h
  refine ⟨t, ?_⟩
  rw [stat_child ht hP hn (by simp [h]), hr]

theorem makeFolders_child (hl : ∀ t, d.found? (P ++ [n]) ≠ some (.link t)) :
    (makeFolders (p.join ⟨[n]⟩)).run d = match d.found? (P ++ [n]) with
      | some .folder => (.ok (), d)
      | some _ => (.error .exists, d)
      | none => (.ok (), d.put (P ++ [n]) .folder) := by
  have hmake : ∀ missing, (makeOr (p.join ⟨[n]⟩) missing).run d =
      match d.found? (P ++ [n]) with
      | some .folder => (.ok (), d)
      | some _ => (.error .exists, d)
      | none => (.ok (), d.put (P ++ [n]) .folder) := by
    intro missing
    have hs := stat_child ht hP hn hl
    rw [makeOr_run, locate_child ht hP hn, isFolder, hs]
    rcases hr : d.get? (P ++ [n]) with _ | ⟨_ | _ | _, t⟩
    · rw [found?_eq_none.mpr hr]
    all_goals
      rw [found?_of_get? hr]
      rfl
  have hne : (p.join ⟨[n]⟩).isEmpty = false :=
    Path.isEmpty_join (folderAt_iff.mp hP).1.1.nonempty
      (Path.isAbsolute_names (by simpa using hn.proper)) (by simp)
  rw [makeFolders, if_neg (by simp [hne])]
  cases (p.join ⟨[n]⟩).segments.length with
  | zero => exact hmake _
  | succ k => exact hmake _

theorem makeFolders_inside (hl : ∀ t, d.found? (P ++ [n]) ≠ some (.link t)) :
    (∃ d', (makeFolders (p.join ⟨[n]⟩)).run d = (.ok (), d') ∧ Inside (P ++ [n]) d d') ∨
      ∃ f, (makeFolders (p.join ⟨[n]⟩)).run d = (.error f, d) := by
  rw [makeFolders_child ht hP hn hl]
  rcases he : d.found? (P ++ [n]) with _ | _ | _ | _
  · exact .inl ⟨_, rfl, .put ht (by simp) he (by rw [List.dropLast_concat]; exact hP.folder)⟩
  · exact .inl ⟨_, rfl, .grownIn he (.refl ..) ht⟩
  · exact .inr ⟨_, rfl⟩
  · exact .inr ⟨_, rfl⟩

theorem emptyFolder_inside (hl : ∀ t, d.found? (P ++ [n]) ≠ some (.link t)) :
    (∃ d', (emptyFolder (p.join ⟨[n]⟩)).run d = (.ok (), d') ∧ Inside (P ++ [n]) d d') ∨
      ∃ f, (emptyFolder (p.join ⟨[n]⟩)).run d = (.error f, d) := by
  have hs := stat_child ht hP hn hl
  rcases hr : d.get? (P ++ [n]) with _ | ⟨e, t⟩
  · rw [hr] at hs
    rw [emptyFolder_run_of_missing (by rw [exists?, hs]; rfl)]
    exact makeFolders_inside ht hP hn hl
  · rw [hr] at hs
    rw [emptyFolder_run_of_exists (by rw [exists?, hs]; rfl), hs]
    cases e with
    | folder => exact .inl ⟨_, rfl, .emptied (emptied_dropAll ht _) (found?_of_get? hr)⟩
    | file i b x => exact .inr ⟨_, rfl⟩
    | link t' => exact .inr ⟨_, rfl⟩

end Child

end SourceAtlas.Disk
