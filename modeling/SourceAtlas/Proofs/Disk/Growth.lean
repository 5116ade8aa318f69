import SourceAtlas.Proofs.Disk.Way
import SourceAtlas.Proofs.Path.Parts
import SourceAtlas.Proofs.Work

namespace SourceAtlas.Disk

open Work

section Runs

variable (d : Disk) (p : Path)

theorem makeFolder_run : (makeFolder p).run d = match d.locate false p with
    | .error e => (.error e, d)
    | .ok ⟨_, some _, _⟩ => (.error .exists, d)
    | .ok ⟨q, none, _⟩ => (.ok (), d.put q .folder) := by
  rcases h : d.locate false p with e | ⟨q, _ | r, sl⟩ <;>
    simp only [makeFolder, query, run_bind, run_get, run_throw, run_modify, run_pure, h]

theorem makeOr_run (missing : Edit Unit) : (makeOr p missing).run d = match d.locate false p with
    | .ok ⟨q, none, _⟩ => (.ok (), d.put q .folder)
    | .ok ⟨_, some _, _⟩ => if d.isFolder p then (.ok (), d) else (.error .exists, d)
    | .error .notFound => missing.run d
    | .error e => if d.isFolder p then (.ok (), d) else (.error e, d) := by
  simp only [makeOr, run_bind, run_get, makeFolder_run]
  rcases h : d.locate false p with e | ⟨q, _ | r, sl⟩
  · cases e <;> first | rfl | (simp only; split <;> rfl)
  · rfl
  · simp only; split <;> rfl

theorem openWith_run (change : ByteArray → Option ByteArray) :
    (openWith change p).run d = match d.locate true p with
    | .error e => (.error e, d)
    | .ok ⟨q, some ⟨.file i old x, _⟩, _⟩ => (.ok i, d.refill q i x (change old))
    | .ok ⟨_, some _, _⟩ => (.error .isFolder, d)
    | .ok ⟨q, none, sl⟩ =>
        if sl then (.error .isFolder, d)
        else (.ok d.nextId, d.newFile q ((change .empty).getD .empty) false) := by
  rcases h : d.locate true p with e | ⟨q, _ | ⟨_ | _ | _, t⟩, sl⟩ <;>
    simp only [openWith, query, run_bind, run_get, run_throw, run_modify, run_pure, h]
  cases sl <;> rfl

theorem openWith_elim {d : Disk} {p : Path} (change : ByteArray → Option ByteArray)
    {P : Disk → Prop} (same : P d)
    (filled : ∀ {s i b b' x}, d.locate true p = .ok s → d.found? s.place = some (.file i b x) →
      P (d.set s.place ⟨.file i b' x, d.now⟩))
    (made : ∀ {q b}, d.locate true p = .ok ⟨q, none, false⟩ → P (d.newFile q b false)) :
    P ((openWith change p).run d).2 := by
  rw [openWith_run]
  split
  · exact same
  · next q i old x t sl h =>
      dsimp only
      cases change old with
      | none => exact same
      | some b => exact filled h (found?_of_get? (locate_record h).symm)
  · exact same
  · next q sl h =>
      cases sl with
      | true => exact same
      | false => exact made h

theorem writeBytes_snd (d : Disk) (p : Path) (b : ByteArray) :
    ((writeBytes p b).run d).2 = ((openWith (fun _ => some b) p).run d).2 := run_discard_snd ..

theorem writeBytes_ok {d d' : Disk} {p : Path} {b : ByteArray}
    (h : (writeBytes p b).run d = (.ok (), d')) : ∃ q,
    (∃ i old x t, d.locate true p = .ok ⟨q, some ⟨.file i old x, t⟩, false⟩ ∧
        d' = d.set q ⟨.file i b x, d.now⟩) ∨
      d.locate true p = .ok ⟨q, none, false⟩ ∧ d' = d.newFile q b false := by
  obtain ⟨_, h⟩ := run_discard_ok h
  rw [openWith_run] at h
  split at h
  · cases h
  · next q i old x t sl hl =>
      obtain rfl := locate_slash hl
      cases h
      exact ⟨q, .inl ⟨_, old, x, t, hl, rfl⟩⟩
  · cases h
  · next q sl hl =>
      cases sl <;> cases h
      exact ⟨q, .inr ⟨hl, rfl⟩⟩

theorem replaceBytes_run (b : ByteArray) : (replaceBytes p b).run d = match d.locate false p with
    | .error e => (.error e, d)
    | .ok ⟨_, some ⟨.folder, _⟩, _⟩ => (.error .isFolder, d)
    | .ok ⟨q, some _, _⟩ => (.ok (), d.newFile q b false)
    | .ok ⟨q, none, sl⟩ =>
        if sl then (.error .notFolder, d)
        else (.ok (), d.newFile q b false) := by
  rcases h : d.locate false p with e | ⟨q, _ | ⟨_ | _ | _, t⟩, sl⟩ <;>
    simp only [replaceBytes, query, run_bind, run_get, run_throw, run_modify, run_pure, h]
  cases sl <;> rfl

theorem removeUnless_run (isRefused : Record → Bool) (fault : Fault) :
    (removeUnless isRefused fault p).run d = match d.linkStat p with
    | .error e => (.error e, d)
    | .ok (q, r) => if isRefused r then (.error fault, d) else (.ok (), d.drop q) := by
  rcases h : d.linkStat p with e | ⟨q, r⟩ <;>
    simp only [removeUnless, query, run_bind, run_get, run_throw, run_pure, h]
  split <;> rfl

end Runs

theorem Extends.put {d : Disk} {q : Place} {e : Entry} (hq : q ≠ []) (h : d.get? q = none)
    (he : ∀ t, e ≠ .link t) : Extends d (d.put q e) where
  base := put_base ..
  kept := by
    intro q' e' he'
    have hne : q' ≠ q := by
      rintro rfl
      rw [found?_eq_none.mpr h] at he'
      cases he'
    exact ⟨e', by rw [found?_put_of_ne hne, he'], .refl _⟩
  links := by
    intro q' t ht
    by_cases hne : q' = q
    · subst hne
      rw [found?_put_self hq] at ht
      injection ht with ht
      exact absurd ht (he t)
    · rwa [found?_put_of_ne hne] at ht

theorem found?_newFile (d : Disk) (p q : Place) (b : ByteArray) (x : Bool) :
    (d.newFile p b x).found? q = (d.put p (.file d.nextId b x)).found? q :=
  found?_congr (get?_newFile ..)

theorem Extends.newFile {d : Disk} {q : Place} {b : ByteArray} {x : Bool} (hq : q ≠ [])
    (h : d.get? q = none) : Extends d (d.newFile q b x) := by
  have hp : Extends d (d.put q (.file d.nextId b x)) := .put hq h fun _ => Entry.noConfusion
  exact hp.trans (.of_found? (by simp) fun _ => found?_newFile ..)

theorem Extends.rewrite {d : Disk} {q : Place} {i : Nat} {b b' : ByteArray} {x x' : Bool}
    {t : Moment} (h : d.found? q = some (.file i b x)) :
    Extends d (d.set q ⟨.file i b' x', t⟩) := by
  have hq : q ≠ [] := by
    rintro rfl
    rw [found?_root] at h
    cases h
  have hs : (d.set q ⟨.file i b' x', t⟩).found? q = some (.file i b' x') :=
    found?_of_get? (get?_set_self hq)
  refine ⟨rfl, ?_, ?_⟩
  · intro q' e he
    by_cases hne : q' = q
    · subst hne
      rw [h] at he
      cases he
      exact ⟨_, hs, .file ..⟩
    · exact ⟨e, (found?_congr (get?_set_of_ne hne)).trans he, .refl _⟩
  · intro q' p hp
    by_cases hne : q' = q
    · subst hne
      rw [hs] at hp
      cases hp
    · exact (found?_congr (get?_set_of_ne hne)).symm.trans hp

theorem newFile_nextId (d : Disk) (q : Place) (b : ByteArray) (x : Bool) :
    (d.newFile q b x).nextId = d.nextId + 1 := rfl

theorem file_of_put {d : Disk} {q q' : Place} (hq : q ≠ []) {e : Entry} (he : e ≠ .folder)
    (h : (d.put q .folder).found? q' = some e) : d.found? q' = some e := by
  by_cases heq : q' = q
  · subst heq
    rw [found?_put_self hq] at h
    exact absurd (Option.some.inj h).symm he
  · rwa [found?_put_of_ne heq] at h

theorem file_of_drop {d : Disk} {q q' : Place} {e : Entry} (h : (d.drop q).found? q' = some e) :
    d.found? q' = some e := by
  by_cases hq' : q' = []
  · subst hq'
    exact h
  · by_cases hin : q <+: q'
    · rw [found?_drop_below hq' hin] at h
      cases h
    · rwa [found?_drop_of_outside hin] at h

theorem file_of_rewrite {d : Disk} {q q' : Place} {i j : Nat} {b b' c : ByteArray} {x x' y : Bool}
    {t : Moment} (h : d.found? q = some (.file i b x))
    (hj : (d.set q ⟨.file i b' x', t⟩).found? q' = some (.file j c y)) :
    ∃ c y, d.found? q' = some (.file j c y) := by
  have hq : q ≠ [] := by
    rintro rfl
    rw [found?_root] at h
    cases h
  by_cases he : q' = q
  · subst he
    rw [found?_of_get? (get?_set_self hq)] at hj
    cases hj
    exact ⟨b, x, h⟩
  · exact ⟨c, y, (found?_congr (get?_set_of_ne he)).symm.trans hj⟩

namespace IsNumbered

variable {d : Disk} {q : Place}

theorem put (h : IsNumbered d) (hq : q ≠ []) : IsNumbered (d.put q .folder) :=
  h.congr (put_nextId ..) fun hf => ⟨_, _, file_of_put hq Entry.noConfusion hf⟩

theorem drop (h : IsNumbered d) (q : Place) : IsNumbered (d.drop q) :=
  h.congr (drop_nextId ..) fun hf => ⟨_, _, file_of_drop hf⟩

theorem rewrite (h : IsNumbered d) {i : Nat} {b b' : ByteArray} {x x' : Bool} {t : Moment}
    (hf : d.found? q = some (.file i b x)) : IsNumbered (d.set q ⟨.file i b' x', t⟩) :=
  h.congr rfl (file_of_rewrite hf)

theorem file_of_newFile (h : IsNumbered d) (hq : q ≠ []) {q' : Place} {i : Nat}
    {b b' : ByteArray} {x x' : Bool} (hf : (d.newFile q b x).found? q' = some (.file i b' x')) :
    q' = q ∧ i = d.nextId ∨ d.found? q' = some (.file i b' x') ∧ i < d.nextId := by
  rw [found?_newFile] at hf
  by_cases he : q' = q
  · subst he
    rw [found?_put_self hq] at hf
    cases hf
    exact .inl ⟨rfl, rfl⟩
  · rw [found?_put_of_ne he] at hf
    exact .inr ⟨hf, h.fresh hf⟩

theorem newFile (h : IsNumbered d) (hq : q ≠ []) (b : ByteArray) (x : Bool) :
    IsNumbered (d.newFile q b x) where
  fresh hf := by
    rw [newFile_nextId]
    rcases h.file_of_newFile hq hf with ⟨_, rfl⟩ | ⟨_, hi⟩ <;> omega
  apart hf hf' := by
    rcases h.file_of_newFile hq hf with ⟨rfl, rfl⟩ | ⟨hf, hi⟩ <;>
      rcases h.file_of_newFile hq hf' with ⟨rfl, hi'⟩ | ⟨hf', hi'⟩
    · rfl
    · omega
    · omega
    · exact h.apart hf hf'

end IsNumbered

theorem IsTree.put {d : Disk} {q : Place} (ht : IsTree d) (hq : q ≠ []) (hn : d.get? q = none)
    (hf : d.found? q.dropLast = some .folder) : IsTree (d.put q .folder) where
  toIsNumbered := ht.toIsNumbered.put hq
  around := by
    have hx : Extends d (d.put q .folder) := .put hq hn fun _ => Entry.noConfusion
    intro p e hp
    by_cases hne : p = q
    · subst hne
      exact hx.folder hf
    · rw [found?_put_of_ne hne] at hp
      exact hx.folder (ht.around hp)

theorem free_of_locate {d : Disk} {p : Path} {deep sl : Bool} {q : Place}
    (h : d.locate deep p = .ok ⟨q, none, sl⟩) : d.get? q = none ∧ q ≠ [] := by
  have hn : d.get? q = none := (locate_record h).symm
  refine ⟨hn, ?_⟩
  rintro rfl
  cases hn

theorem openWith_extends (d : Disk) (p : Path) (change : ByteArray → Option ByteArray) :
    Extends d ((openWith change p).run d).2 :=
  openWith_elim change (.refl d) (fun _ hf => .rewrite hf) fun hl =>
    .newFile (free_of_locate hl).2 (free_of_locate hl).1

structure GrownIn (T : Place) (d d' : Disk) : Prop where
  grown : Extends d d'
  outside : ∀ {q}, ¬ T <+: q → d'.get? q = d.get? q

namespace GrownIn

variable {T q : Place} {d d' d'' : Disk}

theorem refl (T : Place) (d : Disk) : GrownIn T d d := ⟨.refl d, fun _ => rfl⟩

theorem trans (h : GrownIn T d d') (h' : GrownIn T d' d'') : GrownIn T d d'' :=
  ⟨h.grown.trans h'.grown, fun hq => (h'.outside hq).trans (h.outside hq)⟩

theorem dropLast (hq : T <+: q) (hT : q ≠ T) : T <+: q.dropLast := by
  obtain ⟨r, rfl⟩ := hq
  have hr : r ≠ [] := by
    rintro rfl
    simp at hT
  rw [List.dropLast_append_of_ne_nil hr]
  exact List.prefix_append ..

theorem ne_of_free (hT : d.found? T = some .folder) (hn : d.get? q = none) : q ≠ T := by
  rintro rfl
  rw [found?_eq_none.mpr hn] at hT
  cases hT

theorem put {e : Entry} (hT : d.found? T = some .folder) (hq : T <+: q) (hn : d.get? q = none)
    (h0 : q ≠ []) (he : ∀ t, e ≠ .link t) : GrownIn T d (d.put q e) where
  grown := .put h0 hn he
  outside := by
    intro q' ho
    refine get?_put_of_ne ?_ ?_
    · rintro rfl
      exact ho hq
    · rintro rfl
      exact ho (dropLast hq (ne_of_free hT hn))

theorem newFile {b : ByteArray} {x : Bool} (hT : d.found? T = some .folder) (hq : T <+: q)
    (hn : d.get? q = none) (h0 : q ≠ []) : GrownIn T d (d.newFile q b x) where
  grown := .newFile h0 hn
  outside := by
    intro q' ho
    rw [get?_newFile]
    exact (put hT hq hn h0 fun _ => Entry.noConfusion).outside ho

theorem rewrite {i : Nat} {b b' : ByteArray} {x x' : Bool} {t : Moment} (hq : T <+: q)
    (h : d.found? q = some (.file i b x)) : GrownIn T d (d.set q ⟨.file i b' x', t⟩) where
  grown := .rewrite h
  outside := by
    intro q' ho
    refine get?_set_of_ne ?_
    rintro rfl
    exact ho hq

theorem openWith {p : Path} (change : ByteArray → Option ByteArray)
    (hT : d.found? T = some .folder) (hp : ∀ {s}, d.locate true p = .ok s → T <+: s.place) :
    GrownIn T d ((openWith change p).run d).2 :=
  openWith_elim change (refl T d) (fun hl hf => rewrite (hp hl) hf) fun hl =>
    newFile hT (hp hl) (free_of_locate hl).1 (free_of_locate hl).2

end GrownIn

theorem locate_deepen {d : Disk} {p : Path} {deep sl : Bool} {q : Place}
    (h : d.locate deep p = .ok ⟨q, none, sl⟩) : d.locate true p = .ok ⟨q, none, sl⟩ := by
  obtain ⟨hp, hw⟩ := locate_eq_ok.mp h
  exact locate_eq_ok.mpr ⟨hp, hw.deepen rfl⟩

theorem FolderAt.linkStat {d : Disk} {p : Path} {q : Place} (h : d.FolderAt p q) :
    ∃ q' r, d.linkStat p = .ok (q', r) ∧ r.isFile = false := by
  obtain ⟨⟨hp, hw⟩, hq⟩ := folderAt_iff.mp h
  obtain ⟨t, hr⟩ := found?_eq_some.mp hq
  rw [hr] at hw
  obtain ⟨⟨q', r', sl⟩, hw', hs⟩ := hw.shallow
  rcases hs with hs | ⟨p', t', hs⟩
  · cases hs
    exact ⟨q, _, linkStat_eq_ok.mpr (locate_eq_ok.mpr ⟨hp, hw'⟩), rfl⟩
  · have hl := hw'.slash hs
    dsimp only at hs hl
    subst hs hl
    exact ⟨q', _, linkStat_eq_ok.mpr (locate_eq_ok.mpr ⟨hp, hw'⟩), rfl⟩

theorem makeOr_of_isFolder {d : Disk} {p : Path} (h : d.isFolder p = true) (missing : Edit Unit) :
    (makeOr p missing).run d = (.ok (), d) := by
  obtain ⟨q, hq⟩ := isFolder_iff.mp h
  obtain ⟨q', r, hl, _⟩ := hq.linkStat
  simp only [makeOr_run, linkStat_eq_ok.mp hl, h, if_true]

theorem makeFolders_of_isFolder {d : Disk} {p : Path} (h : d.isFolder p = true) :
    (makeFolders p).run d = (.ok (), d) := by
  unfold makeFolders
  split
  · rfl
  · cases p.segments.length with
    | zero => exact makeOr_of_isFolder h _
    | succ k => exact makeOr_of_isFolder h _

theorem folderAt_put {d : Disk} {p : Path} {q : Place} {sl : Bool} (h : d.locate true p = .ok ⟨q, none, sl⟩) :
    (d.put q .folder).FolderAt p q := by
  obtain ⟨hn, hq⟩ := free_of_locate h
  obtain ⟨hp, hw⟩ := locate_eq_ok.mp h
  have hx : Extends d (d.put q .folder) := .put hq hn fun _ => Entry.noConfusion
  have hf : (d.put q .folder).found? q = some .folder := found?_put_self hq
  exact folderAt_iff.mpr ⟨⟨hp.extend hx, start_extend hx p ▸ hw.filled hx rfl hf⟩, hf⟩

theorem makeOr_ok {d d' : Disk} {p : Path} {missing : Edit Unit}
    (hm : ∀ {d d'}, missing.run d = (.ok (), d') → d'.isFolder p = true)
    (h : (makeOr p missing).run d = (.ok (), d')) : d'.isFolder p = true := by
  rw [makeOr_run] at h
  split at h
  · next q _ hl =>
      cases h
      exact isFolder_iff.mpr ⟨q, folderAt_put (locate_deepen hl)⟩
  · split at h
    · next hf => cases h; exact hf
    · cases h
  · exact hm h
  · split at h
    · next hf => cases h; exact hf
    · cases h

theorem makeFolders_ok {d d' : Disk} {p : Path} (hp : p.isEmpty = false)
    (h : (makeFolders p).run d = (.ok (), d')) : d'.isFolder p = true := by
  have hlast : ∀ {d d'}, (makeOr p (throw .notFound)).run d = (.ok (), d') →
      d'.isFolder p = true := makeOr_ok fun h => by cases h
  rw [makeFolders, if_neg (by simp [hp])] at h
  cases hk : p.segments.length with
  | zero =>
      rw [hk] at h
      exact hlast h
  | succ k =>
      rw [hk] at h
      refine makeOr_ok (fun h => ?_) h
      dsimp only at h
      split at h
      · split at h
        · exact hlast h
        · rw [run_bind] at h
          split at h
          · exact hlast h
          · cases h
      · cases h

section Keeping

variable {P : Disk → Prop} {A : Path → Prop}

theorem makeOr_keeps {p : Path} {missing : Edit Unit} (hm : Keeps P missing)
    (hput : ∀ {d q sl}, P d → d.locate true p = .ok ⟨q, none, sl⟩ → P (d.put q .folder)) :
    Keeps P (makeOr p missing) := by
  intro d hd
  rw [makeOr_run]
  split
  · next h => exact hput hd (locate_deepen h)
  · split <;> exact hd
  · exact hm d hd
  · split <;> exact hd

theorem makeFolders_keeps (hup : ∀ {p q}, A p → p.parent = some q → q.isEmpty = false → A q)
    (hput : ∀ {p d q sl}, A p → P d → d.locate true p = .ok ⟨q, none, sl⟩ → P (d.put q .folder))
    {p : Path} (ha : A p) : Keeps P (makeFolders p) := by
  unfold makeFolders
  split
  · exact .pure _
  generalize p.segments.length = k
  -- from the longest path to those around it
  induction k generalizing p with
  | zero => exact makeOr_keeps (.throw _) (hput ha)
  | succ k ih =>
      have hlast : Keeps P (makeOr p (throw .notFound)) := makeOr_keeps (.throw _) (hput ha)
      refine makeOr_keeps ?_ (hput ha)
      dsimp only
      split
      · next q hq =>
          split
          · exact hlast
          · next he => exact .bind (ih (hup ha hq (by simpa using he)) he) fun _ => hlast
      · exact .bind (.throw _) fun _ => hlast

end Keeping

end SourceAtlas.Disk
