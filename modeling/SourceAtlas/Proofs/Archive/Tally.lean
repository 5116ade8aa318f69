import SourceAtlas.Proofs.Archive.Failures

namespace SourceAtlas.Archive

open Disk Work

namespace Entry

def settled (e : Entry) : List Name := ((Path.ofText e.name).settledNames).getD []

instance (e : Entry) : Decidable e.IsKept :=
  decidable_of_iff ((e.destination .empty).isSome = true) <| by
    rw [Option.isSome_iff_exists]
    exact ⟨fun ⟨_, h⟩ => (destination_eq_some.mp h).1, fun h => ⟨_, destination_eq_some.mpr ⟨h, rfl⟩⟩⟩

def isKeptFile (e : Entry) : Bool := decide e.IsKept && !e.isFolder

def isKeptFolder (e : Entry) : Bool := decide e.IsKept && e.isFolder

theorem isKeptFile_iff {e : Entry} : e.isKeptFile = true ↔ e.IsKept ∧ e.isFolder = false := by
  rw [isKeptFile, Bool.and_eq_true, decide_eq_true_iff, Bool.not_eq_true']

end Entry

def bytesOf (b : ByteArray) (e : Entry) : ByteArray :=
  match contentOf b e with
  | .ok c => c.bytes
  | .error _ => .empty

/-- What is written for the files of an archive, one after the other: the names each comes to lie
under, and its bytes. -/
def pieces (b : ByteArray) (es : List Entry) : List (List Name × ByteArray) :=
  (es.filter Entry.isKeptFile).map fun e => (e.settled, bytesOf b e)

def volume (ws : List (List Name × ByteArray)) : Nat := (ws.map fun x => x.2.size).sum

section

variable {b : ByteArray} {e : Entry} {es fs : List Entry}

theorem bytesOf_ok {c : Content} (h : contentOf b e = .ok c) : bytesOf b e = c.bytes := by
  rw [bytesOf, h]

theorem of_mem_pieces {w : List Name × ByteArray} (h : w ∈ pieces b es) :
    ∃ e ∈ es, e.isKeptFile = true ∧ (e.settled, bytesOf b e) = w := by
  obtain ⟨e, he, hw⟩ := List.mem_map.mp h
  obtain ⟨hm, hk⟩ := List.mem_filter.mp he
  exact ⟨e, hm, hk, hw⟩

theorem volume_append (ws vs : List (List Name × ByteArray)) :
    volume (ws ++ vs) = volume ws + volume vs := by
  rw [volume, List.map_append, List.sum_append]
  rfl

theorem pieces_append : pieces b (es ++ fs) = pieces b es ++ pieces b fs := by
  rw [pieces, List.filter_append, List.map_append]
  rfl

theorem pieces_file (h : e.isKeptFile = true) : pieces b [e] = [(e.settled, bytesOf b e)] := by
  rw [pieces, List.filter_cons_of_pos h]
  rfl

theorem pieces_other (h : e.isKeptFile = false) : pieces b [e] = [] := by
  rw [pieces, List.filter_cons_of_neg (by simp [h])]
  rfl

theorem pieces_split (h : e.isKeptFile = true) :
    pieces b (es ++ e :: fs) = pieces b es ++ (e.settled, bytesOf b e) :: pieces b fs := by
  rw [pieces_append, ← List.singleton_append, pieces_append, pieces_file h]
  rfl

theorem volume_split (h : e.isKeptFile = true) : volume (pieces b (es ++ e :: fs)) =
    volume (pieces b es) + (bytesOf b e).size + volume (pieces b fs) := by
  rw [pieces_split h, volume_append, Nat.add_assoc]
  rfl

theorem countP_entries (es : List Entry) : es.countP Entry.isKeptFile +
    es.countP (fun e => !decide e.IsKept) + es.countP Entry.isKeptFolder = es.length := by
  induction es with
  | nil => rfl
  | cons e es ih =>
      simp only [List.countP_cons, List.length_cons, Entry.isKeptFile, Entry.isKeptFolder] at ih ⊢
      by_cases he : e.IsKept <;> by_cases hf : e.isFolder = true <;> simp [he, hf] <;> omega

end

theorem failure_ne_exhausted (fault : ReadFault) (path : Path) (m : String) :
    fault.failure path ≠ .resourceExhausted m := by
  cases fault <;> exact nofun

theorem blame_ne_exhausted (path : Path) (fault : Fault) (m : String) :
    blame path fault ≠ .resourceExhausted m := by
  cases fault <;> exact nofun

inductive Extracted (archive target : Path) (maxBytes : Nat) (b : ByteArray) (t : Tally) (e : Entry)
    (d : Disk) : Except Failure Tally → Disk → Prop
  | failed {f : Failure} {d' : Disk} : (∀ m, f ≠ .resourceExhausted m) →
      Extracted archive target maxBytes b t e d (.error f) d'
  | skipped : ¬ e.IsKept → Extracted archive target maxBytes b t e d
      (.ok { t with entriesSkipped := t.entriesSkipped + 1 }) d
  | folder {d' : Disk} : e.IsKept → e.isFolder = true →
      (makeFolders (target.join ⟨e.segments⟩)).run d = (.ok (), d') →
      Extracted archive target maxBytes b t e d (.ok t) d'
  | file {c : Content} {mid d' : Disk} : e.isKeptFile = true → contentOf b e = .ok c →
      t.bytesWritten + (bytesOf b e).size ≤ maxBytes →
      (makeAround archive (target.join ⟨e.segments⟩)).run d = (.ok (), mid) →
      (writeBytes (target.join ⟨e.segments⟩) (bytesOf b e)).run mid = (.ok (), d') →
      Extracted archive target maxBytes b t e d
        (.ok { t with filesWritten := t.filesWritten + 1
                      bytesWritten := t.bytesWritten + (bytesOf b e).size }) d'
  | exhausted {m : String} {mid d' : Disk} : e.isKeptFile = true →
      maxBytes < t.bytesWritten + (bytesOf b e).size →
      (makeAround archive (target.join ⟨e.segments⟩)).run d = (.ok (), mid) →
      (writeBytes (target.join ⟨e.segments⟩)
        ((bytesOf b e).extract 0 (maxBytes - t.bytesWritten + 1))).run mid = (.ok (), d') →
      Extracted archive target maxBytes b t e d (.error (.resourceExhausted m)) d'

section

variable {archive target : Path} {maxBytes : Nat} {b : ByteArray} {t : Tally} {e : Entry}
  {c : Content}

theorem tallyOf_take (archive : Path) (c : Content) (ht : t.bytesWritten ≤ maxBytes) :
    (maxBytes < t.bytesWritten + c.bytes.size ∧
      (c.take (maxBytes - t.bytesWritten + 1)).bytes =
        c.bytes.extract 0 (maxBytes - t.bytesWritten + 1) ∧
      ∃ m, tallyOf archive maxBytes (c.take (maxBytes - t.bytesWritten + 1)) t =
        .error (.resourceExhausted m)) ∨
    (t.bytesWritten + c.bytes.size ≤ maxBytes ∧
      (c.take (maxBytes - t.bytesWritten + 1)).bytes = c.bytes ∧
      ((∃ f, (∀ m, f ≠ .resourceExhausted m) ∧
        tallyOf archive maxBytes (c.take (maxBytes - t.bytesWritten + 1)) t = .error f) ∨
      tallyOf archive maxBytes (c.take (maxBytes - t.bytesWritten + 1)) t =
        .ok { t with filesWritten := t.filesWritten + 1
                     bytesWritten := t.bytesWritten + c.bytes.size })) := by
  unfold Content.take
  by_cases hsize : maxBytes - t.bytesWritten + 1 ≤ c.bytes.size
  · rw [if_pos hsize]
    have hover : maxBytes < t.bytesWritten +
        (c.bytes.extract 0 (maxBytes - t.bytesWritten + 1)).size := by
      rw [ByteArray.size_extract]
      omega
    refine .inl ⟨by omega, rfl, ?_⟩
    rw [tallyOf, if_neg (by simp)]
    exact ⟨_, if_pos hover⟩
  · rw [if_neg hsize]
    refine .inr ⟨by omega, rfl, ?_⟩
    by_cases hsound : c.sound = false
    · exact .inl ⟨unreadable archive "Invalid checksum", fun m => nofun, if_pos hsound⟩
    · refine .inr ?_
      rw [tallyOf, if_neg hsound]
      exact if_neg (by omega)

theorem makeAround_error {out : Path} {d d' : Disk} {f : Failure}
    (h : (makeAround archive out).run d = (.error f, d')) (m : String) :
    f ≠ .resourceExhausted m := by
  unfold makeAround at h
  split at h
  · rw [run_edit] at h
    split at h
    · cases h
    · next fault _ _ =>
        cases h
        exact blame_ne_exhausted archive fault m
  · cases h

theorem writeEntry_extracted (ht : t.bytesWritten ≤ maxBytes) (he : e.isKeptFile = true)
    (hc : contentOf b e = .ok c) (d : Disk) : Extracted archive target maxBytes b t e d
      ((writeEntry archive (target.join ⟨e.segments⟩) maxBytes c t).run d).1
      ((writeEntry archive (target.join ⟨e.segments⟩) maxBytes c t).run d).2 := by
  have hbytes := bytesOf_ok hc
  rw [writeEntry_eq, run_bind]
  rcases hr : (makeAround archive (target.join ⟨e.segments⟩)).run d with ⟨f | _, mid⟩
  · exact .failed (makeAround_error hr)
  dsimp only
  rw [run_bind, run_edit]
  rcases hw : (writeBytes (target.join ⟨e.segments⟩)
    (c.take (maxBytes - t.bytesWritten + 1)).bytes).run mid with ⟨f | _, d'⟩
  · exact .failed (blame_ne_exhausted archive f)
  dsimp only
  rw [run_ofExcept]
  rcases tallyOf_take archive c ht with
    ⟨hover, htake, m, htally⟩ | ⟨hroom, htake, ⟨f, hf, htally⟩ | htally⟩
  all_goals rw [htally]
  · rw [htake, ← hbytes] at hw
    exact .exhausted he (hbytes ▸ hover) hr hw
  · exact .failed hf
  · rw [htake, ← hbytes] at hw
    rw [← hbytes] at hroom ⊢
    exact .file he hc hroom hr hw

theorem extractEntry_extracted (archive target : Path) (b : ByteArray) (e : Entry)
    (ht : t.bytesWritten ≤ maxBytes) (d : Disk) :
    Extracted archive target maxBytes b t e d
      ((extractEntry archive target maxBytes b t e).run d).1
      ((extractEntry archive target maxBytes b t e).run d).2 := by
  rw [extractEntry, run_bind, run_ofExcept]
  cases hc : contentOf b e with
  | error fault => exact .failed (failure_ne_exhausted fault archive)
  | ok c =>
      simp only [orFailure, Except.mapError]
      cases ho : e.destination target with
      | none =>
          refine .skipped fun he => ?_
          rw [destination_eq_some.mpr ⟨he, rfl⟩] at ho
          cases ho
      | some out =>
          obtain ⟨he, rfl⟩ := destination_eq_some.mp ho
          dsimp only
          cases hf : e.isFolder with
          | false =>
              rw [if_neg (by decide)]
              exact writeEntry_extracted ht (Entry.isKeptFile_iff.mpr ⟨he, hf⟩) hc d
          | true =>
              rw [if_pos rfl, run_bind, run_edit]
              rcases hr : (makeFolders (target.join ⟨e.segments⟩)).run d with ⟨f | _, d'⟩
              · exact .failed (blame_ne_exhausted archive f)
              · exact .folder he hf hr

end

structure Counted (maxBytes : Nat) (b : ByteArray) (es : List Entry) (t : Tally) : Prop where
  readable : ∀ e ∈ es, e.isKeptFile = true → ∃ c, contentOf b e = .ok c
  written : t.filesWritten = es.countP Entry.isKeptFile
  skipped : t.entriesSkipped = es.countP fun e => !decide e.IsKept
  bytes : t.bytesWritten = volume (pieces b es)
  room : t.bytesWritten ≤ maxBytes

section

variable {archive target : Path} {maxBytes : Nat} {b : ByteArray} {t t' : Tally} {e : Entry}
  {es : List Entry} {d d' : Disk} {f : Failure}

theorem Counted.unwritten (h : Counted maxBytes b es t) (hfile : e.isKeptFile = false) {n : Nat}
    (hn : n = t.entriesSkipped + [e].countP fun e => !decide e.IsKept) :
    Counted maxBytes b (es ++ [e]) { t with entriesSkipped := n } where
  readable := List.forall_mem_append.mpr ⟨h.readable, List.forall_mem_singleton.mpr (by simp [hfile])⟩
  written := by
    rw [List.countP_append, ← h.written, List.countP_singleton, hfile]
    rfl
  skipped := by
    rw [List.countP_append, ← h.skipped]
    exact hn
  bytes := by
    rw [pieces_append, pieces_other hfile, List.append_nil]
    exact h.bytes
  room := h.room

theorem Counted.step (h : Counted maxBytes b es t)
    (hx : Extracted archive target maxBytes b t e d (.ok t') d') :
    Counted maxBytes b (es ++ [e]) t' := by
  cases hx with
  | skipped he =>
      refine h.unwritten (by simp [Entry.isKeptFile, he]) ?_
      rw [List.countP_singleton, decide_eq_false he]
      rfl
  | folder he hf =>
      refine h.unwritten (by simp [Entry.isKeptFile, hf]) ?_
      rw [List.countP_singleton, decide_eq_true he]
      rfl
  | file hfile hc hroom =>
      have he := (Entry.isKeptFile_iff.mp hfile).1
      refine ⟨?_, ?_, ?_, ?_, hroom⟩
      · exact List.forall_mem_append.mpr ⟨h.readable, List.forall_mem_singleton.mpr fun _ => ⟨_, hc⟩⟩
      · rw [List.countP_append, ← h.written, List.countP_singleton, hfile]
        rfl
      · rw [List.countP_append, ← h.skipped, List.countP_singleton, decide_eq_true he]
        rfl
      · dsimp only
        rw [volume_split hfile, h.bytes]
        rfl

def IsBurst (maxBytes : Nat) (b : ByteArray) (es : List Entry) (e : Entry) : Prop :=
  e.isKeptFile = true ∧ volume (pieces b es) ≤ maxBytes ∧
    maxBytes < volume (pieces b es) + (bytesOf b e).size

theorem Counted.burst (h : Counted maxBytes b es t) {m : String}
    (hx : Extracted archive target maxBytes b t e d (.error (.resourceExhausted m)) d') :
    IsBurst maxBytes b es e := by
  cases hx with
  | failed hne => exact absurd rfl (hne m)
  | exhausted hfile hover => exact ⟨hfile, h.bytes ▸ h.room, h.bytes ▸ hover⟩

theorem foldlM_counted (archive target : Path) (maxBytes : Nat) (b : ByteArray) (es : List Entry)
    (d : Disk) : Comes (fun t _ => Counted maxBytes b es t)
      (fun f _ => ∃ done e rest, es = done ++ e :: rest ∧
        ∀ m, f = Failure.resourceExhausted m → IsBurst maxBytes b done e)
      ((es.foldlM (extractEntry archive target maxBytes b) {}).run d) := by
  refine foldlM_comes (I := fun done t _ => Counted maxBytes b done t)
    (E := fun done e f _ => ∀ m, f = Failure.resourceExhausted m → IsBurst maxBytes b done e)
    (fun done e t d h => ?_) es ⟨nofun, rfl, rfl, rfl, Nat.zero_le maxBytes⟩
  have hx := extractEntry_extracted archive target b e h.room d
  rcases hr : (extractEntry archive target maxBytes b t e).run d with ⟨f | t', d'⟩
  · rw [hr] at hx
    rintro m rfl
    exact h.burst hx
  · rw [hr] at hx
    exact h.step hx

end

end SourceAtlas.Archive
