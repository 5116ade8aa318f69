import SourceAtlas.Proofs.Archive.Enclosed
import SourceAtlas.Proofs.Disk.Places

namespace SourceAtlas.Archive

open Disk Work

/-- Whatever folders and files are added in `T`, no path of an archive leads out of it. -/
def Sealed (d : Disk) (target : Path) (T : Place) : Prop :=
  ∀ {d' p s}, GrownIn T d d' → IsUnpacked p → d'.locate true (target.join p) = .ok s → T <+: s.place

def tallyOf (archive : Path) (maxBytes : Nat) (c : Content) (t : Tally) : Except Failure Tally :=
  let written := t.bytesWritten + c.bytes.size
  if c.sound = false then .error (unreadable archive "Invalid checksum")
  else if maxBytes < written then
    .error (.resourceExhausted ("ZIP expands beyond the allowed " ++ toString maxBytes ++ " bytes"))
  else .ok { t with filesWritten := t.filesWritten + 1, bytesWritten := written }

def makeAround (archive out : Path) : Task Unit :=
  match out.parent with
  | some q => Work.edit (blame archive) (makeFolders q)
  | none => pure ()

theorem writeEntry_eq (archive out : Path) (maxBytes : Nat) (c : Content) (t : Tally) :
    writeEntry archive out maxBytes c t = (do
      makeAround archive out
      Work.edit (blame archive)
        (writeBytes out (c.take (maxBytes - t.bytesWritten + 1)).bytes)
      Work.ofExcept (tallyOf archive maxBytes (c.take (maxBytes - t.bytesWritten + 1)) t)) := by
  unfold writeEntry makeAround
  generalize c.take (maxBytes - t.bytesWritten + 1) = c
  have htally : (do
      if !c.sound then throw (unreadable archive "Invalid checksum")
      let written := t.bytesWritten + c.bytes.size
      if maxBytes < written then
        throw (.resourceExhausted ("ZIP expands beyond the allowed " ++ toString maxBytes ++
          " bytes"))
      return { t with filesWritten := t.filesWritten + 1, bytesWritten := written } : Task Tally) =
      Work.ofExcept (tallyOf archive maxBytes c t) := by
    unfold tallyOf
    cases c.sound with
    | false => rfl
    | true => by_cases hw : maxBytes < t.bytesWritten + c.bytes.size <;> simp only [hw] <;> rfl
  cases out.parent with
  | none => exact congrArg (_ >>= ·) (funext fun _ => htally)
  | some q => exact congrArg (_ >>= ·) (funext fun _ => congrArg (_ >>= ·) (funext fun _ => htally))

section Unpacking

variable {d : Disk} {target : Path} {T : Place}

theorem Asked.of_free {d' : Disk} (ht : IsTree d) (hT : d.FolderAt target T) (hx : Extends d d')
    {p : Path} (hp : Asked target p) {q : Place} {sl : Bool}
    (hl : d'.locate true p = .ok ⟨q, none, sl⟩) : ∃ u, IsUnpacked u ∧ p = target.join u := by
  cases hp with
  | inside hu => exact ⟨_, hu, rfl⟩
  | around ms hq hm =>
      obtain ⟨q', hq'⟩ := hT.front ht hq hm
      obtain ⟨t, hst⟩ := hq'.extend hx
      rw [stat_eq_ok, hl] at hst
      cases hst
  | top =>
      obtain ⟨t, hst⟩ := FolderAt.top d'
      rw [stat_eq_ok, hl] at hst
      cases hst

theorem makeAround_keeps {P : Disk → Prop} (h : ∀ {p}, Asked target p → Keeps P (makeFolders p))
    (archive : Path) {p : Path} (hp : IsUnpacked p) : Keeps P (makeAround archive (target.join p)) := by
  unfold makeAround
  split
  · next q hq =>
      refine .edit ?_
      by_cases he : q.isEmpty = true
      · rw [makeFolders, if_pos he]
        exact .pure _
      · exact h (Asked.parent (.inside hp) hq (by simpa using he))
  · exact .pure _

theorem makeFolders_grownIn (ht : IsTree d) (hT : d.FolderAt target T) (hs : Sealed d target T)
    {p : Path} (hp : Asked target p) : Keeps (GrownIn T d) (makeFolders p) := by
  refine makeFolders_keeps Asked.parent ?_ hp
  intro p d' q sl hp hg hl
  obtain ⟨u, hu, rfl⟩ := hp.of_free ht hT hg.grown hl
  obtain ⟨hn, h0⟩ := free_of_locate hl
  have hf := hg.grown.folder hT.folder
  exact hg.trans (.put hf (hs hg hu hl) hn h0 fun _ => nofun)

theorem openWith_grownIn (hT : d.found? T = some .folder) (hs : Sealed d target T) {p : Path}
    (hp : IsUnpacked p) (change : ByteArray → Option ByteArray) :
    Keeps (GrownIn T d) (openWith change (target.join p)) :=
  fun _ hg => hg.trans (.openWith change (hg.grown.folder hT) fun hl => hs hg hp hl)

theorem writeEntry_keeps {P : Disk → Prop} {archive out : Path}
    (haround : Keeps P (makeAround archive out)) (hopen : ∀ change, Keeps P (openWith change out))
    (maxBytes : Nat) (c : Content) (t : Tally) : Keeps P (writeEntry archive out maxBytes c t) := by
  rw [writeEntry_eq]
  exact .bind haround fun _ => .bind (.edit (.discard (hopen _))) fun _ => .ofExcept _

theorem extractEntry_keeps {P : Disk → Prop} {archive : Path} {maxBytes : Nat}
    (hmake : ∀ {p}, IsUnpacked p → Keeps P (makeFolders (target.join p)))
    (hwrite : ∀ {p}, IsUnpacked p → ∀ c t, Keeps P (writeEntry archive (target.join p) maxBytes c t))
    (b : ByteArray) (t : Tally) (e : Entry) :
    Keeps P (extractEntry archive target maxBytes b t e) := by
  unfold extractEntry
  refine .bind (.ofExcept _) fun c => ?_
  split
  · exact .pure _
  · next out ho =>
      obtain ⟨⟨_, hp, _⟩, rfl⟩ := destination_eq_some.mp ho
      split
      · exact .bind (.edit (hmake hp)) fun _ => .pure _
      · exact hwrite hp c t

theorem extractEntry_grownIn (ht : IsTree d) (hT : d.FolderAt target T) (hs : Sealed d target T)
    (archive : Path) (maxBytes : Nat) (b : ByteArray) (t : Tally) (e : Entry) :
    Keeps (GrownIn T d) (extractEntry archive target maxBytes b t e) :=
  extractEntry_keeps (fun hp => makeFolders_grownIn ht hT hs (.inside hp))
    (fun hp => writeEntry_keeps (makeAround_keeps (makeFolders_grownIn ht hT hs) archive hp)
      (openWith_grownIn hT.folder hs hp) maxBytes) b t e

theorem removeDependencies_outside {d' : Disk} (ht : IsTree d) (hT : d.FolderAt target T)
    (hx : Extends d d') {q : Place} (hq : ¬ T <+: q) :
    ((removeDependencies target).run d').2.get? q = d'.get? q := by
  obtain ⟨k, _, hj⟩ := hT.join ht hx (r := .ofText dependencyFolder) rfl (by decide)
  have hremove : ((removeTree (target.child dependencyFolder)).run d').2.get? q = d'.get? q := by
    rw [removeTree, removeUnless_run]
    split
    · rfl
    · next q' r hl =>
        have hw := follow_of_way (hj.mp (linkStat_eq_ok.mp hl)).2
        rw [show (Path.ofText dependencyFolder).segments = [dependencyFolder] by decide,
          follow_plain ⟨by decide, by decide, by decide⟩] at hw
        injection hw with hw
        injection hw with hw _
        subst hw
        split
        · rfl
        · refine get?_drop_of_outside (fun h => hq ((List.prefix_append ..).trans h)) ?_
          rw [List.dropLast_concat]
          rintro rfl
          exact hq (List.prefix_refl _)
  unfold removeDependencies
  dsimp only
  rw [run_bind, run_get]
  dsimp only
  split
  · rw [run_bind]
    split
    · next h =>
        rw [h] at hremove
        exact hremove
    · next h =>
        rw [h] at hremove
        exact hremove
  · rfl

end Unpacking

structure Widened (d d' : Disk) : Prop where
  tree : IsTree d'
  grown : Extends d d'
  only : ∀ q, d'.get? q = d.get? q ∨
    d'.found? q = some .folder ∧ (d.found? q = none ∨ d.found? q = some .folder)

theorem get?_or_folder_put {d d' : Disk} {q q' : Place} (h0 : q ≠ []) (hn : d'.get? q = none)
    (haround : d'.found? q.dropLast = some .folder)
    (h : d'.get? q' = d.get? q' ∨
      d'.found? q' = some .folder ∧ (d.found? q' = none ∨ d.found? q' = some .folder)) :
    (d'.put q .folder).get? q' = d.get? q' ∨ (d'.put q .folder).found? q' = some .folder ∧
      (d.found? q' = none ∨ d.found? q' = some .folder) := by
  have hx : Extends d' (d'.put q .folder) := .put h0 hn fun _ => nofun
  by_cases hq : q' = q
  · subst hq
    refine .inr ⟨found?_put_self h0, .inl ?_⟩
    rcases h with ho | ⟨hf, _⟩
    · exact found?_eq_none.mpr (ho ▸ hn)
    · rw [found?_eq_none.mpr hn] at hf
      cases hf
  · by_cases hd : q' = q.dropLast
    · subst hd
      refine .inr ⟨hx.folder haround, ?_⟩
      rcases h with ho | ⟨_, ho⟩
      · exact .inr ((found?_congr ho).symm.trans haround)
      · exact ho
    · rw [get?_put_of_ne hq hd, found?_put_of_ne hq]
      exact h

theorem Widened.put {d d' : Disk} (h : Widened d d') {p : Path} {q : Place} {sl : Bool}
    (hl : d'.locate true p = .ok ⟨q, none, sl⟩) : Widened d (d'.put q .folder) := by
  obtain ⟨hn, h0⟩ := free_of_locate hl
  have haround := (h.tree.free_spot hl).2
  have hx : Extends d' (d'.put q .folder) := .put h0 hn fun _ => nofun
  exact ⟨h.tree.put h0 hn haround, h.grown.trans hx,
    fun q' => get?_or_folder_put h0 hn haround (h.only q')⟩

theorem makeFolders_widened {d : Disk} (ht : IsTree d) (p : Path) :
    Widened d ((makeFolders p).run d).2 :=
  makeFolders_keeps (A := fun _ => True) (fun _ _ _ => trivial) (fun _ h hl => h.put hl) trivial d
    ⟨ht, .refl d, fun _ => .inl rfl⟩

theorem Widened.file {d d' : Disk} (h : Widened d d') {q : Place} {i : Nat} {b : ByteArray} {x : Bool}
    {t : Moment} (hq : d.get? q = some ⟨.file i b x, t⟩) : d'.get? q = some ⟨.file i b x, t⟩ := by
  rcases h.only q with he | ⟨_, hn | hf⟩
  · rw [he, hq]
  · rw [found?_of_get? hq] at hn
    cases hn
  · rw [found?_of_get? hq] at hf
    cases hf

theorem Widened.readBytes {d d' : Disk} (h : Widened d d') {p : Path} {b : ByteArray}
    (hb : d.readBytes p = .ok b) : d'.readBytes p = .ok b := by
  rcases hs : d.stat p with e | ⟨q, ⟨_ | ⟨i, b', x⟩ | _, t⟩⟩
  all_goals
    rw [Disk.readBytes, hs] at hb
    cases hb
  obtain ⟨r, hr, _⟩ := stat_extend h.grown hs
  have hold := locate_record (stat_eq_ok.mp hs)
  have hnew := locate_record (stat_eq_ok.mp hr)
  rw [h.file hold.symm] at hnew
  cases hnew
  rw [Disk.readBytes, hr]
  rfl

def unpack (archive target : Path) (maxBytes : Nat) : Task Tally := do
  let b ← Work.query (blame archive) (·.readBytes archive)
  let es ← Work.ofExcept (orFailure archive (entries b))
  let t ← es.foldlM (extractEntry archive target maxBytes b) {}
  discard (Work.edit (blame archive) (removeDependencies target))
  return t

theorem extract_run (archive target : Path) (maxBytes : Nat) (d : Disk) :
    (extract archive target maxBytes).run d =
      if d.exists? archive = true then match (makeFolders target).run d with
        | (.ok _, d₁) => (unpack archive target maxBytes).run d₁
        | (.error f, d₁) => (.error (blame archive f), d₁)
      else (.error (.archiveMissing archive), d) := by
  unfold extract
  rw [run_bind, run_get]
  dsimp only
  cases d.exists? archive with
  | false => rfl
  | true =>
      simp only [Bool.not_true, Bool.false_eq_true, if_false, if_true]
      rw [run_bind, run_edit]
      rcases (makeFolders target).run d with ⟨_ | _, d₁⟩ <;> rfl

theorem unpack_outside {d : Disk} {target : Path} {T q : Place} (ht : IsTree d)
    (hT : d.FolderAt target T) (hs : Sealed d target T) (archive : Path) (maxBytes : Nat)
    (hq : ¬ T <+: q) : ((unpack archive target maxBytes).run d).2.get? q = d.get? q := by
  unfold unpack
  rw [run_bind, run_query]
  rcases d.readBytes archive with _ | b
  · rfl
  dsimp only
  rw [run_bind, run_ofExcept]
  rcases orFailure archive (entries b) with _ | es
  · rfl
  dsimp only
  have hg := Keeps.foldlM (extractEntry_grownIn ht hT hs archive maxBytes b) es {} d (.refl T d)
  rw [run_bind]
  rcases hf : (es.foldlM (extractEntry archive target maxBytes b) {}).run d with ⟨_ | t, d'⟩
  · rw [hf] at hg
    exact hg.outside hq
  rw [hf] at hg
  have hr := (removeDependencies_outside ht hT hg.grown hq).trans (hg.outside hq)
  dsimp only
  rw [run_bind, run_discard, run_edit]
  rcases hd : (removeDependencies target).run d' with ⟨_ | _, d''⟩
  · rw [hd] at hr
    exact hr
  · rw [hd] at hr
    exact hr

theorem folderAt_parent {d : Disk} {p q : Path} {deep : Bool} {s : Spot} (ht : IsTree d)
    (h : d.locate deep p = .ok s) (hp : p.parent = some q) (hq : q.isEmpty = false) :
    d.isFolder q = true := by
  rcases Path.parent_eq_some hp with rfl | rfl | ⟨_, ms, hs, n, hm, hn⟩
  · cases hq
  · exact isFolder_iff.mpr ⟨[], .top d⟩
  · have hne : n ≠ "" := by
      rintro rfl
      cases hn
    exact isFolder_iff.mpr (FolderAt.of_locate ht h hq hs ⟨n, hm, hne⟩)

theorem makeAround_run {d : Disk} {out : Path} {deep : Bool} {s : Spot} (archive : Path)
    (ht : IsTree d) (h : d.locate deep out = .ok s) :
    (makeAround archive out).run d = (.ok (), d) := by
  unfold makeAround
  split
  · next q hq =>
      have hm : (makeFolders q).run d = (.ok (), d) := by
        by_cases he : q.isEmpty = true
        · rw [makeFolders, if_pos he, run_pure]
        · exact makeFolders_of_isFolder (folderAt_parent ht h hq (by simpa using he))
      rw [run_edit, hm]
  · rfl

theorem extractEntry_lands {d : Disk} {archive target out : Path} {maxBytes : Nat} {b : ByteArray}
    {t : Tally} {e : Entry} {c : Content} {s : Spot} (ht : IsTree d)
    (ho : e.destination target = some out) (hc : contentOf b e = .ok c) (he : e.isFolder = false)
    (hp : s.slash = false) (h : d.locate true out = .ok s)
    (hs : d.found? s.place ≠ some .folder) :
    ∃ i x, ((extractEntry archive target maxBytes b t e).run d).2.get? s.place =
      some ⟨.file i (c.take (maxBytes - t.bytesWritten + 1)).bytes x, d.now⟩ := by
  obtain ⟨q, r, sl⟩ := s
  obtain rfl : sl = false := hp
  obtain ⟨d', i, x, hw, _, hd⟩ := writeBytes_lands ht h hs (c.take (maxBytes - t.bytesWritten + 1)).bytes
  have hr : ((writeEntry archive out maxBytes c t).run d).2 = d' := by
    rw [writeEntry_eq, run_bind, makeAround_run archive ht h]
    dsimp only
    rw [run_bind, run_edit, hw]
    dsimp only
    rw [run_ofExcept]
  have hx : ((extractEntry archive target maxBytes b t e).run d).2 = d' := by
    rw [extractEntry, run_bind, run_ofExcept, hc]
    simp only [orFailure, Except.mapError, ho, he, Bool.false_eq_true, if_false, hr]
  rw [hx]
  exact ⟨i, x, hd⟩

end SourceAtlas.Archive
