import Mathlib
import SourceAtlas.Proofs.Archive.Tidy

namespace SourceAtlas

/-- The archive is refused for what it is, or for what it takes. -/
def Failure.isRefusal : Failure → Bool
  | .invalidArchive _ | .limitExceeded _ | .resourceExhausted _ => true
  | _ => false

namespace Archive

open Disk Work

theorem failure_isRefusal {fault : ReadFault} (h : fault ≠ .cutOff) (path : Path) :
    (fault.failure path).isRefusal = true := by
  cases fault with
  | cutOff => exact absurd rfl h
  | invalid => rfl
  | unsupported => rfl
  | passwordRequired => rfl
  | passwordWrong => rfl

theorem blame_isRefusal (path : Path) (fault : Fault) : (blame path fault).isRefusal = false := by
  cases fault <;> rfl

theorem orFailure_eq_error {α : Type} {path : Path} {r : Read α} {f : Failure} :
    orFailure path r = .error f ↔ ∃ fault, r = .error fault ∧ fault.failure path = f := by
  rcases r with fault | a <;> simp [orFailure, Except.mapError]

theorem orFailure_eq_ok {α : Type} {path : Path} {r : Read α} {a : α} :
    orFailure path r = .ok a ↔ r = .ok a := by
  rcases r with fault | a' <;> simp [orFailure, Except.mapError]

section Tidy

variable {es : List Entry} {e : Entry} {target : Path} {T : Place} {b : ByteArray}

theorem tallyOf_isRefusal {archive : Path} {maxBytes : Nat} {c : Content} {t : Tally} {f : Failure}
    (hc : c.sound = true) (h : tallyOf archive maxBytes c t = .error f) : f.isRefusal = true := by
  unfold tallyOf at h
  rw [hc, if_neg (by decide)] at h
  split at h
  · cases h
    rfl
  · cases h

theorem Content.take_sound {c : Content} (h : c.sound = true) (k : Nat) :
    (c.take k).sound = true := by
  unfold Content.take
  split
  · rfl
  · exact h

theorem extractEntry_ends (ht : IsTidy b es) (hm : e ∈ es) (archive : Path) (maxBytes : Nat)
    (t : Tally) : Ends (Laid es target T) (fun f => f.isRefusal = true)
      (extractEntry archive target maxBytes b t e) := by
  unfold extractEntry
  refine .ofExcept_bind (fun f hf => ?_) fun c hc => ?_
  · obtain ⟨fault, hr, rfl⟩ := orFailure_eq_error.mp hf
    exact failure_isRefusal (fun h => ht.present e hm (h ▸ hr)) archive
  split
  · exact .pure _
  next out ho =>
  obtain ⟨he, rfl⟩ := destination_eq_some.mp ho
  cases hf : e.isFolder with
  | true =>
      rw [if_pos rfl]
      exact .bind (.edit fun d hd => ⟨(), makeFolders_laid ht hm he hf hd⟩) fun _ => .pure _
  | false =>
      rw [if_neg (by decide), writeEntry_eq]
      intro d hd
      obtain ⟨d₁, d₂, hr₁, hr₂, h₂⟩ := writeFile_laid ht hm he hf hd archive
        (c.take (maxBytes - t.bytesWritten + 1)).bytes
      have hsound := Content.take_sound (ht.sound e hm he hf c (orFailure_eq_ok.mp hc))
        (maxBytes - t.bytesWritten + 1)
      rw [run_bind, hr₁]
      dsimp only
      rw [run_bind, run_edit, hr₂]
      dsimp only
      rw [run_ofExcept]
      rcases hr : tallyOf archive maxBytes (c.take (maxBytes - t.bytesWritten + 1)) t with f | t'
      · exact tallyOf_isRefusal hsound hr
      · exact h₂

end Tidy

theorem removeDependencies_ok (root : Path) (d : Disk) :
    ∃ a d', (removeDependencies root).run d = (.ok a, d') := by
  unfold removeDependencies
  rw [run_bind, run_get]
  dsimp only
  split
  · next h =>
      obtain ⟨q, hq⟩ := isFolder_iff.mp h
      obtain ⟨q', r, hl, hr⟩ := hq.linkStat
      rw [run_bind, removeTree, removeUnless_run, hl]
      simp only [hr]
      exact ⟨true, _, rfl⟩
  · exact ⟨false, d, rfl⟩

section Archives

variable {d : Disk} {archive target : Path} {q T : Place} {i : Nat} {b : ByteArray} {x : Bool}
  {t : Moment}

theorem inspect_file (ha : d.stat archive = .ok (q, ⟨.file i b x, t⟩)) (limits : Limits) :
    inspect d archive limits = if limits.maxArchiveBytes < b.size then
      .error (.limitExceeded ("File size exceeds maximum limit of " ++
        megabytes limits.maxArchiveBytes ++ ". Your file: " ++ megabytes b.size))
    else (orFailure archive (entriesWithContent b)).bind fun es =>
      (Report.ofEntries b.size es).within limits := by
  rw [inspect, ha]
  rfl

theorem within_isRefusal {r : Report} {limits : Limits} {f : Failure}
    (h : r.within limits = .error f) : f.isRefusal = true := by
  unfold Report.within at h
  split at h
  · cases h
    rfl
  · split at h
    · cases h
      rfl
    · cases h

theorem inspect_isRefusal (ha : d.stat archive = .ok (q, ⟨.file i b x, t⟩)) {limits : Limits}
    {f : Failure} (h : inspect d archive limits = .error f) : f.isRefusal = true ↔
      limits.maxArchiveBytes < b.size ∨ entriesWithContent b ≠ .error .cutOff := by
  rw [inspect_file ha] at h
  split at h
  · next hsize =>
      cases h
      exact ⟨fun _ => .inl hsize, fun _ => rfl⟩
  next hsize =>
  cases hr : entriesWithContent b with
  | ok es =>
      rw [hr] at h
      exact ⟨fun _ => .inr nofun, fun _ => within_isRefusal h⟩
  | error fault =>
      rw [hr] at h
      cases h
      by_cases hc : fault = .cutOff
      · subst hc
        exact ⟨nofun, fun h => absurd rfl (h.resolve_left hsize)⟩
      · exact ⟨fun _ => .inr fun h => hc (by injection h), fun _ => failure_isRefusal hc archive⟩

theorem extract_run_folder (ha : d.stat archive = .ok (q, ⟨.file i b x, t⟩))
    (hT : d.FolderAt target T) (maxBytes : Nat) :
    (extract archive target maxBytes).run d = match entries b with
      | .error fault => (.error (fault.failure archive), d)
      | .ok es => (do
          let t ← es.foldlM (extractEntry archive target maxBytes b) {}
          discard (Work.edit (blame archive) (removeDependencies target))
          return t).run d := by
  have hexists : d.exists? archive = true := by rw [exists?, ha]; rfl
  have hread : d.readBytes archive = .ok b := by rw [readBytes, ha]; rfl
  rw [extract_run, if_pos hexists, makeFolders_of_isFolder (isFolder_iff.mpr ⟨T, hT⟩), unpack]
  dsimp only
  rw [run_bind, run_query, hread]
  dsimp only
  rw [run_bind, run_ofExcept]
  cases entries b <;> rfl

theorem extract_isRefusal (ht : IsTree d) (ha : d.stat archive = .ok (q, ⟨.file i b x, t⟩))
    (hT : d.FolderAt target T) (hempty : ∀ ns, ns ≠ [] → d.found? (T ++ ns) = none)
    {es : List Entry} (hes : entries b = .ok es) (htidy : IsTidy b es) {maxBytes : Nat}
    {f : Failure} (h : ((extract archive target maxBytes).run d).1 = .error f) :
    f.isRefusal = true := by
  have hlaid : Laid es target T d :=
    ⟨ht, hT, fun ns hns y hy => by rw [hempty ns hns] at hy; cases hy⟩
  have hends := Ends.foldlM (fun e hm t => extractEntry_ends htidy hm archive maxBytes t) {} d hlaid
  rw [extract_run_folder ha hT, hes] at h
  dsimp only at h
  rw [run_bind] at h
  rcases hr : (es.foldlM (extractEntry archive target maxBytes b) {}).run d with ⟨f' | t', d'⟩
  · rw [hr] at h hends
    cases h
    exact hends
  · obtain ⟨a, d'', hremove⟩ := removeDependencies_ok target d'
    rw [hr] at h
    dsimp only at h
    rw [run_bind, run_discard, run_edit, hremove] at h
    cases h

theorem edit_isRefusal {α : Type} {edit : Edit α} {d d' : Disk} {f : Failure}
    (h : (Work.edit (blame archive) edit).run d = (.error f, d')) : f.isRefusal = false := by
  rw [run_edit] at h
  split at h
  · cases h
  · cases h
    exact blame_isRefusal archive _

theorem extractEntry_unsound {e : Entry} {c : Content} (he : e.IsKept) (hf : e.isFolder = false)
    (hc : contentOf b e = .ok c) (hs : c.sound = false) {maxBytes : Nat} {t : Tally}
    (hsize : c.bytes.size ≤ maxBytes - t.bytesWritten) (d : Disk) :
    ∃ f, ((extractEntry archive target maxBytes b t e).run d).1 = .error f ∧
      f.isRefusal = false := by
  have hout : e.destination target = some (target.join ⟨e.segments⟩) :=
    destination_eq_some.mpr ⟨he, rfl⟩
  have htake : c.take (maxBytes - t.bytesWritten + 1) = c := if_neg (by omega)
  have htally : tallyOf archive maxBytes c t = .error (unreadable archive "Invalid checksum") :=
    if_pos hs
  rw [extractEntry, run_bind, run_ofExcept, orFailure_eq_ok.mpr hc]
  dsimp only
  rw [hout]
  dsimp only
  rw [hf, if_neg (by decide), writeEntry_eq, htake, htally, run_bind]
  rcases hr : (makeAround archive (target.join ⟨e.segments⟩)).run d with ⟨f | _, d₁⟩
  · refine ⟨f, rfl, ?_⟩
    unfold makeAround at hr
    split at hr
    · exact edit_isRefusal hr
    · cases hr
  dsimp only
  rw [run_bind]
  rcases hr : (Work.edit (blame archive) (writeBytes (target.join ⟨e.segments⟩) c.bytes)).run d₁ with
    ⟨f | _, d₂⟩
  · exact ⟨f, rfl, edit_isRefusal hr⟩
  · exact ⟨_, rfl, rfl⟩

end Archives

/-- A look at an archive ends in something else than a refusal exactly if bytes are missing that the
reader looks for. Unpacking a tidy archive into an empty folder ends in a refusal if it fails; where
the directory is cut off or a checksum does not fit, it does not. -/
theorem archive_refused {d : Disk} {archive target : Path} {q T : Place} {i : Nat} {b : ByteArray}
    {x : Bool} {t : Moment} (ht : IsTree d) (ha : d.stat archive = .ok (q, ⟨.file i b x, t⟩))
    (hT : d.FolderAt target T) (hempty : ∀ ns, ns ≠ [] → d.found? (T ++ ns) = none) :
    (∀ limits f, inspect d archive limits = .error f → (f.isRefusal = true ↔
      limits.maxArchiveBytes < b.size ∨ entriesWithContent b ≠ .error .cutOff)) ∧
    (∀ maxBytes fault, entries b = .error fault →
      ((extract archive target maxBytes).run d).1 = .error (fault.failure archive) ∧
        ((fault.failure archive).isRefusal = true ↔ fault ≠ .cutOff)) ∧
    (∀ maxBytes es, entries b = .ok es → IsTidy b es →
      ∀ f, ((extract archive target maxBytes).run d).1 = .error f → f.isRefusal = true) ∧
    (∀ maxBytes t e c, e.IsKept → e.isFolder = false → contentOf b e = .ok c → c.sound = false →
      c.bytes.size ≤ maxBytes - t.bytesWritten →
      ∀ d', ∃ f, ((extractEntry archive target maxBytes b t e).run d').1 = .error f ∧
        f.isRefusal = false) := by
  refine ⟨fun limits f h => inspect_isRefusal ha h, fun maxBytes fault hf => ⟨?_, ?_⟩,
    fun maxBytes es hes htidy f h => extract_isRefusal ht ha hT hempty hes htidy h,
    fun maxBytes t e c he hf hc hs hsize d' => extractEntry_unsound he hf hc hs hsize d'⟩
  · rw [extract_run_folder ha hT, hf]
  · refine ⟨?_, fun h => failure_isRefusal h archive⟩
    rintro h rfl
    cases h

def archiveOfX (a b c d : UInt8) : ByteArray :=
  ⟨#[80, 75, 3, 4, 20, 0, 0, 0, 0, 0, 0, 0, 33, 0, a, b, c, d, 1, 0, 0, 0, 1, 0, 0, 0, 1, 0, 0, 0,
    97, 120, 80, 75, 1, 2, 20, 0, 20, 0, 0, 0, 0, 0, 0, 0, 33, 0, a, b, c, d, 1, 0, 0, 0, 1, 0, 0,
    0, 1, 0, 0, 0, 0, 0, 0, 0, 0, 0, 0, 0, 0, 0, 0, 0, 0, 0, 97, 80, 75, 5, 6, 0, 0, 0, 0, 1, 0, 1,
    0, 47, 0, 0, 0, 32, 0, 0, 0, 0, 0]⟩

def entryX (sum : Nat) : Entry where
  name := "a"
  rawName := ⟨#[97]⟩
  system := 0
  locked := false
  method := .stored
  checksum := sum
  packedSize := 1
  size := 1
  attributes := 0
  headerStart := 0
  isSealed := false

def soundX : ByteArray := archiveOfX 131 22 220 140

def unsoundX : ByteArray := archiveOfX 21 38 219 251

deriving instance DecidableEq for Entry

theorem soundX_reads : entries soundX = .ok [entryX 2363233923] ∧
    (contentOf soundX (entryX 2363233923)).toOption.map (·.sound) = some true := by
  decide +kernel

theorem isTidy_soundX : IsTidy soundX [entryX 2363233923] := by
  have hsegments : (entryX 2363233923).segments = ["a"] := by decide
  have hsound := soundX_reads.2
  refine ⟨?_, ?_, ?_, ?_⟩ <;> simp only [List.mem_singleton] <;> rintro _ rfl
  · intro hc
    rw [hc] at hsound
    cases hsound
  · intro _
    refine ⟨?_, fun _ => ⟨[], "a", hsegments, by decide⟩, nofun⟩
    rw [hsegments]
    decide
  · intro _ _ c hc
    rw [hc] at hsound
    exact Option.some.inj hsound
  · rintro _ _ rfl _ _
    decide

def delivered (b : ByteArray) : Disk :=
  ⟨[(["p"], ⟨.folder, 0⟩), (["a.zip"], ⟨.file 0 b false, 0⟩)], [], 1, 1⟩

theorem isTree_delivered (b : ByteArray) : IsTree (delivered b) :=
  of_decide_eq_true rfl

theorem stat_delivered (b : ByteArray) :
    (delivered b).stat (.ofText "a.zip") = .ok (["a.zip"], ⟨.file 0 b false, 0⟩) := rfl

theorem folderAt_delivered (b : ByteArray) : (delivered b).FolderAt (.ofText "p") ["p"] := ⟨0, rfl⟩

theorem empty_delivered (b : ByteArray) (ns : List Name) (h : ns ≠ []) :
    (delivered b).found? (["p"] ++ ns) = none := by
  rw [found?_eq_none]
  rcases hr : (delivered b).get? (["p"] ++ ns) with _ | r
  · rfl
  · have hm := mem_of_get? (by simp) hr
    simp [delivered, h] at hm

theorem archive_refused_small :
    IsTree (delivered soundX) ∧ (delivered soundX).FolderAt (.ofText "p") ["p"] ∧
    (∃ f, inspect (delivered soundX) (.ofText "a.zip") { maxUncompressedBytes := 0 } = .error f ∧
      f.isRefusal = true) ∧
    ∃ f, ((extract (.ofText "a.zip") (.ofText "p") 0).run (delivered soundX)).1 = .error f ∧
      f.isRefusal = true := by
  have ht := isTree_delivered soundX
  have hT := folderAt_delivered soundX
  have h := archive_refused ht (stat_delivered _) hT (empty_delivered _)
  have hinspect : inspect (delivered soundX) (.ofText "a.zip") { maxUncompressedBytes := 0 } =
      .error (.limitExceeded "ZIP expands to 0.00MB, more than the allowed 0.00MB") := by
    rw [inspect_file (stat_delivered _), entriesWithContent, soundX_reads.1]
    decide +kernel
  have hextract : ((extract (.ofText "a.zip") (.ofText "p") 0).run (delivered soundX)).1 =
      .error (.resourceExhausted "ZIP expands beyond the allowed 0 bytes") := by
    rw [extract_run_folder (stat_delivered _) hT, soundX_reads.1]
    decide +kernel
  refine ⟨ht, hT, ⟨_, hinspect, (h.1 _ _ hinspect).mpr (.inr ?_)⟩, _, hextract, ?_⟩
  · rw [entriesWithContent, soundX_reads.1]
    decide +kernel
  · exact h.2.2.1 0 [entryX 2363233923] soundX_reads.1 isTidy_soundX _ hextract

theorem archive_fails_unrefused :
    IsTree (delivered unsoundX) ∧ (delivered unsoundX).FolderAt (.ofText "p") ["p"] ∧
    (∀ ns, ns ≠ [] → (delivered unsoundX).found? (["p"] ++ ns) = none) ∧
    inspect (delivered unsoundX) (.ofText "a.zip") {} = .ok ⟨1, 101, 1⟩ ∧
    ∃ f, ((extract (.ofText "a.zip") (.ofText "p") 10).run (delivered unsoundX)).1 = .error f ∧
      f.isRefusal = false ∧ f.status = 500 := by
  have hentries : entries unsoundX = .ok [entryX 4225443349] := by decide +kernel
  refine ⟨isTree_delivered _, folderAt_delivered _, empty_delivered _, ?_,
    unreadable (.ofText "a.zip") "Invalid checksum", ?_, rfl, rfl⟩
  · rw [inspect_file (stat_delivered _), entriesWithContent, hentries]
    decide +kernel
  · rw [extract_run_folder (stat_delivered _) (folderAt_delivered _), hentries]
    decide +kernel

end Archive

end SourceAtlas
