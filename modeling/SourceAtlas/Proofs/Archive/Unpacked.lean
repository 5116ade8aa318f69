import SourceAtlas.Proofs.Archive.Ledger
import SourceAtlas.Proofs.Disk.Places

namespace SourceAtlas.Archive

open Disk Work

theorem removeDependencies_run {d : Disk} {target : Path} {T : Place} (ht : IsTree d)
    (hT : d.FolderAt target T) (hl : ∀ x, d.found? (T ++ [dependencyFolder]) ≠ some (.link x)) :
    (removeDependencies target).run d = match d.found? (T ++ [dependencyFolder]) with
      | some .folder => (.ok true, d.drop (T ++ [dependencyFolder]))
      | _ => (.ok false, d) := by
  have hn : IsEntryName dependencyFolder := by decide
  unfold removeDependencies
  dsimp only
  rw [run_bind, run_get]
  dsimp only
  rw [Path.Inside.child_root hn.proper]
  rcases hr : d.get? (T ++ [dependencyFolder]) with _ | ⟨_ | _ | _, t⟩
  · rw [found?_eq_none.mpr hr, isFolder, stat_child ht hT hn hl, hr]
    rfl
  · have hf := found?_of_get? hr
    have hstat : d.linkStat (target.join ⟨[dependencyFolder]⟩) =
        .ok (T ++ [dependencyFolder], ⟨.folder, t⟩) := by
      rw [linkStat, locate_child ht hT hn, hr]
      rfl
    rw [hf, if_pos (isFolder_iff.mpr ⟨_, folderAt_child ht hT hn hf⟩), run_bind, removeTree,
      removeUnless_run, hstat]
    rfl
  all_goals
    rw [found?_of_get? hr, isFolder, stat_child ht hT hn hl, hr]
    rfl

/-- What a folder `T` holds once the entries have been unpacked into it: `d` is the disk before, `d₁` the
one on which the folder has been made. -/
structure Unpacked (T : Place) (b : ByteArray) (es : List Entry) (d d₁ d' : Disk) : Prop where
  holds : ∀ {before e after}, es = before ++ e :: after → e.isKeptFile = true →
    (∀ e' ∈ after, e'.isKeptFile = true → e'.settled ≠ e.settled) →
    ∃ c i x t, contentOf b e = .ok c ∧ d'.get? (T ++ e.settled) = some ⟨.file i c.bytes x, t⟩
  spared : ∀ {q i c x t}, d.get? q = some ⟨.file i c x, t⟩ →
    (∀ e ∈ es, e.isKeptFile = true → q ≠ T ++ e.settled) →
    (d₁.found? (T ++ [dependencyFolder]) = some .folder → ¬ T ++ [dependencyFolder] <+: q) →
    d'.get? q = some ⟨.file i c x, t⟩
  gone : d₁.found? (T ++ [dependencyFolder]) = some .folder →
    ∀ ns, d'.found? (T ++ dependencyFolder :: ns) = none
  free : ∀ {ns y}, dependencyFolder ∈ ns → d'.found? (T ++ ns) = some y →
    d₁.found? (T ++ ns) = some y

section

variable {T : Place} {d₂ d' : Disk} (hd' : d' = match d₂.found? (T ++ [dependencyFolder]) with
  | some .folder => d₂.drop (T ++ [dependencyFolder])
  | _ => d₂)

include hd'

theorem get?_stripped (hT : d₂.found? T = some .folder) {q : Place} (hq : d₂.found? q ≠ some .folder)
    (hout : d₂.found? (T ++ [dependencyFolder]) = some .folder → ¬ T ++ [dependencyFolder] <+: q) :
    d'.get? q = d₂.get? q := by
  rw [hd']
  split
  · next hd =>
      refine get?_drop_of_outside (hout hd) ?_
      rw [List.dropLast_concat]
      rintro rfl
      exact hq hT
  · rfl

theorem found?_stripped_below (hd : d₂.found? (T ++ [dependencyFolder]) = some .folder)
    (ns : List Name) : d'.found? (T ++ dependencyFolder :: ns) = none := by
  rw [hd', hd]
  exact found?_drop_below (by simp) ⟨ns, by simp⟩

theorem found?_of_stripped {q : Place} {y : Disk.Entry} (hq : q ≠ []) (hy : d'.found? q = some y) :
    d₂.found? q = some y := by
  rw [hd'] at hy
  split at hy
  · by_cases hp : T ++ [dependencyFolder] <+: q
    · rw [found?_drop_below hq hp] at hy
      cases hy
    · rwa [found?_drop_of_outside hp] at hy
  · exact hy

end

namespace Written

variable {T : Place} {b : ByteArray} {es : List Entry} {d₁ d₂ : Disk}

theorem holds_piece (hw : Written T (pieces b es) d₁ d₂) {before after : List Entry} {e : Entry}
    (hes : es = before ++ e :: after) (he : e.isKeptFile = true)
    (hlast : ∀ e' ∈ after, e'.isKeptFile = true → e'.settled ≠ e.settled) :
    ∃ i x t, d₂.get? (T ++ e.settled) = some ⟨.file i (bytesOf b e) x, t⟩ := by
  have hpieces : pieces b es = pieces b before ++ (e.settled, bytesOf b e) :: pieces b after := by
    rw [hes, pieces_split he]
  refine hw.holds hpieces fun w hwm => ?_
  obtain ⟨e', hm, hk, rfl⟩ := of_mem_pieces hwm
  exact hlast e' hm hk

theorem spares_file (hw : Written T (pieces b es) d₁ d₂) {q : Place} {i : Nat} {c : ByteArray}
    {x : Bool} {t : Moment} (hq : d₁.get? q = some ⟨.file i c x, t⟩)
    (hes : ∀ e ∈ es, e.isKeptFile = true → q ≠ T ++ e.settled) :
    d₂.get? q = some ⟨.file i c x, t⟩ := by
  have hother : ∀ w ∈ pieces b es, q ≠ T ++ w.1 := by
    intro w hwm
    obtain ⟨e, hm, hk, rfl⟩ := of_mem_pieces hwm
    exact hes e hm hk
  rcases hw.spared hother with h | ⟨_, h | h⟩
  · rw [h, hq]
  all_goals
    rw [found?_of_get? hq] at h
    cases h

theorem unpacked {d d' : Disk} (hw : Written T (pieces b es) d₁ d₂) (hwide : Widened d d₁)
    (hT : d₂.found? T = some .folder)
    (hread : ∀ e ∈ es, e.isKeptFile = true → ∃ c, contentOf b e = .ok c)
    (hd' : d' = match d₂.found? (T ++ [dependencyFolder]) with
      | some .folder => d₂.drop (T ++ [dependencyFolder])
      | _ => d₂) : Unpacked T b es d d₁ d' := by
  have hdeps : d₂.found? (T ++ [dependencyFolder]) = d₁.found? (T ++ [dependencyFolder]) :=
    hw.free List.mem_cons_self
  refine ⟨?_, ?_, ?_, ?_⟩
  · intro before e after hes he hlast
    obtain ⟨c, hc⟩ := hread e (by simp [hes]) he
    obtain ⟨i, x, t, hr⟩ := hw.holds_piece hes he hlast
    refine ⟨c, i, x, t, hc, ?_⟩
    rw [get?_stripped hd' hT, hr, bytesOf_ok hc]
    · rw [found?_of_get? hr]
      nofun
    · intro _ hp
      have hm := (List.prefix_append_right_inj T).mp hp
      exact (Entry.isKeptFile_iff.mp he).1.free (hm.subset List.mem_cons_self)
  · intro q i c x t hq hes hout
    have hnew := hw.spares_file (hwide.file hq) hes
    rw [get?_stripped hd' hT (by simp [found?_of_get? hnew]) (hdeps ▸ hout), hnew]
  · exact fun hd => found?_stripped_below hd' (hdeps.trans hd)
  · intro ns y hm hy
    rw [← hw.free hm]
    exact found?_of_stripped hd' (by simp [List.ne_nil_of_mem hm]) hy

end Written

/-- What has been written when there is no room for a file: of that file one byte more than there was
room for. -/
def overrun (maxBytes : Nat) (b : ByteArray) (es : List Entry) (e : Entry) :
    List (List Name × ByteArray) :=
  pieces b es ++ [(e.settled, (bytesOf b e).extract 0 (maxBytes - volume (pieces b es) + 1))]

theorem IsBurst.volume_overrun {maxBytes : Nat} {b : ByteArray} {es : List Entry} {e : Entry}
    (h : IsBurst maxBytes b es e) : volume (overrun maxBytes b es e) = maxBytes + 1 := by
  obtain ⟨_, hroom, hover⟩ := h
  have hlast (c : ByteArray) : volume [(e.settled, c)] = c.size := Nat.add_zero _
  rw [overrun, volume_append, hlast, ByteArray.size_extract]
  omega

section

variable {d d₁ : Disk} {archive target : Path} {T : Place} {b : ByteArray} {es : List Entry}
  {maxBytes : Nat}

section

variable {d₂ d₃ : Disk} {t t' : Tally} {e : Entry} (ht : IsTree d₁) (hT : d₁.FolderAt target T)
  (hl : ∀ {q x}, T <+: q → d₁.found? q ≠ some (.link x)) (hw : Written T (pieces b es) d₁ d₂)

include ht hT hl hw

theorem Extracted.written (hx : Extracted archive target maxBytes b t e d₂ (.ok t') d₃) :
    Written T (pieces b (es ++ [e])) d₁ d₃ := by
  rw [pieces_append]
  cases hx with
  | skipped he =>
      rw [pieces_other (by simp [Entry.isKeptFile, he]), List.append_nil]
      exact hw
  | folder he hf hr =>
      have hmade := makeFolders_written ht hT hl (.inside he.unpacked) d₂ hw
      rw [hr] at hmade
      rw [pieces_other (by simp [Entry.isKeptFile, hf]), List.append_nil]
      exact hmade
  | file hfile _ _ hr hwrite =>
      rw [pieces_file hfile]
      exact writeFile_written ht hT hl (Entry.isKeptFile_iff.mp hfile).1 hw hr hwrite

theorem Extracted.written_overrun (hc : Counted maxBytes b es t) {m : String}
    (hx : Extracted archive target maxBytes b t e d₂ (.error (.resourceExhausted m)) d₃) :
    Written T (overrun maxBytes b es e) d₁ d₃ := by
  cases hx with
  | failed hne => exact absurd rfl (hne m)
  | exhausted hfile _ hr hwrite =>
      rw [hc.bytes] at hwrite
      exact writeFile_written ht hT hl (Entry.isKeptFile_iff.mp hfile).1 hw hr hwrite

end

theorem foldlM_written (ht : IsTree d₁) (hT : d₁.FolderAt target T)
    (hl : ∀ {q x}, T <+: q → d₁.found? q ≠ some (.link x)) (archive : Path) (maxBytes : Nat)
    (b : ByteArray) (es : List Entry) :
    Comes (fun t d' => Counted maxBytes b es t ∧ Written T (pieces b es) d₁ d')
      (fun f d' => ∃ done e rest, es = done ++ e :: rest ∧ ∀ m, f = Failure.resourceExhausted m →
        IsBurst maxBytes b done e ∧ Written T (overrun maxBytes b done e) d₁ d')
      ((es.foldlM (extractEntry archive target maxBytes b) {}).run d₁) := by
  refine foldlM_comes (I := fun done t d' => Counted maxBytes b done t ∧ Written T (pieces b done) d₁ d')
    (E := fun done e f d' => ∀ m, f = Failure.resourceExhausted m →
      IsBurst maxBytes b done e ∧ Written T (overrun maxBytes b done e) d₁ d')
    (fun done e t d₂ ⟨hc, hw⟩ => ?_) es
    ⟨⟨nofun, rfl, rfl, rfl, Nat.zero_le maxBytes⟩, .refl ht T⟩
  have hx := extractEntry_extracted archive target b e hc.room d₂
  rcases hr : (extractEntry archive target maxBytes b t e).run d₂ with ⟨f | t', d₃⟩
  · rw [hr] at hx
    rintro m rfl
    exact ⟨hc.burst hx, hx.written_overrun ht hT hl hw hc⟩
  · rw [hr] at hx
    exact ⟨hc.step hx, hx.written ht hT hl hw⟩

/-- How the unpacking into a folder without links ends: all there is to unpack lies there, or there is
no room for it. -/
theorem extract_outcome (ht : IsTree d) (hb : d.readBytes archive = .ok b)
    (hes : entries b = .ok es) (h₁ : ((makeFolders target).run d).2 = d₁)
    (hT : d₁.FolderAt target T) (hl : ∀ {q x}, T <+: q → d.found? q ≠ some (.link x))
    (maxBytes : Nat) :
    (∀ t d', (extract archive target maxBytes).run d = (.ok t, d') →
      t.filesWritten + t.entriesSkipped + es.countP Entry.isKeptFolder = es.length ∧
      t.bytesWritten = volume (pieces b es) ∧ volume (pieces b es) ≤ maxBytes ∧
      Unpacked T b es d d₁ d') ∧
    (∀ m d', (extract archive target maxBytes).run d = (.error (.resourceExhausted m), d') →
      maxBytes < volume (pieces b es) ∧ ∃ done e rest, es = done ++ e :: rest ∧
        volume (overrun maxBytes b done e) = maxBytes + 1 ∧
        Written T (overrun maxBytes b done e) d₁ d') := by
  have hwide : Widened d d₁ := h₁ ▸ makeFolders_widened ht target
  have hlinks : ∀ {q x}, T <+: q → d₁.found? q ≠ some (.link x) :=
    fun hq he => hl hq (hwide.grown.links he)
  have hloop := foldlM_written hwide.tree hT hlinks archive maxBytes b es
  have hcomes := extract_comes ht hb hes h₁ maxBytes
  refine ⟨fun t d' h => ?_, fun m d' h => ?_⟩
  · rw [h] at hcomes
    obtain ⟨d₂, a, hfold, hremove⟩ := hcomes
    rw [hfold] at hloop
    obtain ⟨hc, hw⟩ := hloop
    have hT₂ := hT.extend hw.grown
    -- what is taken away in the end lies beside all that counts as unpacked
    have hrun := removeDependencies_run hw.tree hT₂ fun x hx =>
      hlinks (List.prefix_append ..) (hw.grown.links hx)
    rw [hremove] at hrun
    refine ⟨?_, hc.bytes, hc.bytes ▸ hc.room, hw.unpacked hwide hT₂.folder hc.readable ?_⟩
    · rw [hc.written, hc.skipped]
      exact countP_entries es
    · split at hrun
      all_goals
        cases hrun
        rfl
  · rw [h] at hcomes
    rcases hcomes with hne | hfold
    · exact absurd rfl (hne m)
    · rw [hfold] at hloop
      obtain ⟨done, e, rest, rfl, hend⟩ := hloop
      obtain ⟨hburst, hw⟩ := hend m rfl
      refine ⟨?_, done, e, rest, rfl, hburst.volume_overrun, hw⟩
      obtain ⟨hfile, _, hover⟩ := hburst
      rw [volume_split hfile]
      omega

end

theorem extract_outcome_small : IsTree (delivered soundX) ∧
    (delivered soundX).FolderAt (.ofText "p") ["p"] ∧
    (∀ q x, ["p"] <+: q → (delivered soundX).found? q ≠ some (.link x)) ∧
    (∃ d', (extract (.ofText "a.zip") (.ofText "p") 1).run (delivered soundX) = (.ok ⟨1, 0, 1⟩, d') ∧
      Unpacked ["p"] soundX [entryX 2363233923] (delivered soundX) (delivered soundX) d') ∧
    ∃ m d', (extract (.ofText "a.zip") (.ofText "p") 0).run (delivered soundX) =
      (.error (.resourceExhausted m), d') ∧ 0 < volume (pieces soundX [entryX 2363233923]) := by
  have hT := folderAt_delivered soundX
  have hlinks : ∀ q x, ["p"] <+: q → (delivered soundX).found? q ≠ some (.link x) := by
    rintro q x ⟨ns, rfl⟩ he
    by_cases hns : ns = []
    · subst hns
      cases he
    · rw [empty_delivered _ _ hns] at he
      cases he
  have hmade : ((makeFolders (.ofText "p")).run (delivered soundX)).2 = delivered soundX := by
    rw [makeFolders_of_isFolder (isFolder_iff.mpr ⟨_, hT⟩)]
  obtain ⟨hroom, hfull⟩ := extract_soundX
  have hends := extract_outcome (isTree_delivered soundX) (readBytes_delivered soundX)
    soundX_reads.1 hmade hT (fun hq => hlinks _ _ hq)
  exact ⟨isTree_delivered soundX, hT, hlinks,
    ⟨_, Prod.ext hroom rfl, ((hends 1).1 _ _ (Prod.ext hroom rfl)).2.2.2⟩,
    _, _, Prod.ext hfull rfl, ((hends 0).2 _ _ (Prod.ext hfull rfl)).1⟩

end SourceAtlas.Archive
