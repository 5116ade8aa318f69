import SourceAtlas.Proofs.Archive.Tally

namespace SourceAtlas.Archive

open Disk Work

theorem extract_comes {d d₁ : Disk} (ht : IsTree d) {archive target : Path} {b : ByteArray}
    {es : List Entry} (hb : d.readBytes archive = .ok b) (hes : entries b = .ok es)
    (h₁ : ((makeFolders target).run d).2 = d₁) (maxBytes : Nat) :
    Comes (fun t d' => ∃ d₂ a,
        (es.foldlM (extractEntry archive target maxBytes b) {}).run d₁ = (.ok t, d₂) ∧
        (removeDependencies target).run d₂ = (.ok a, d'))
      (fun f d' => (∀ m, f ≠ Failure.resourceExhausted m) ∨
        (es.foldlM (extractEntry archive target maxBytes b) {}).run d₁ = (.error f, d'))
      ((extract archive target maxBytes).run d) := by
  have hread := (makeFolders_widened ht target).readBytes hb
  rw [h₁] at hread
  rw [extract_run]
  split
  · rcases hm : (makeFolders target).run d with ⟨fault | _, mid⟩
    · exact .inl (blame_ne_exhausted archive fault)
    rw [hm] at h₁
    obtain rfl : mid = d₁ := h₁
    dsimp only
    rw [unpack, run_bind, run_query, hread]
    dsimp only
    rw [run_bind, run_ofExcept, orFailure_eq_ok.mpr hes]
    dsimp only
    rw [run_bind]
    rcases (es.foldlM (extractEntry archive target maxBytes b) {}).run mid with ⟨f | t, d₂⟩
    · exact Or.inr rfl
    obtain ⟨a, d₃, hremove⟩ := removeDependencies_ok target d₂
    dsimp only
    rw [run_bind, run_discard, run_edit, hremove]
    exact ⟨d₂, a, rfl, hremove⟩
  · exact .inl fun m h => by cases h

theorem totalSize_eq {es : List Entry} (h : totalSize es < Settings.wordMax) :
    totalSize es = (es.map Entry.size).sum := by
  have hfold : ∀ (es : List Entry) (n : Nat), n ≤ Settings.wordMax →
      es.foldl (fun n e => min (n + e.size) Settings.wordMax) n =
        min (n + (es.map Entry.size).sum) Settings.wordMax := by
    intro es
    induction es with
    | nil => exact fun n hn => (Nat.min_eq_left hn).symm
    | cons e es ih =>
        intro n hn
        rw [List.foldl_cons, ih _ (Nat.min_le_right ..), List.map_cons, List.sum_cons]
        omega
  have htotal := hfold es 0 (Nat.zero_le _)
  rw [Nat.zero_add] at htotal
  rw [totalSize] at h ⊢
  omega

def IsTrue (b : ByteArray) (e : Entry) : Prop :=
  ∀ c, contentOf b e = .ok c → c.bytes.size = e.size

theorem volume_pieces_le {b : ByteArray} {es : List Entry}
    (h : ∀ e ∈ es, e.isFolder = false → IsTrue b e) :
    volume (pieces b es) ≤ ((es.filter fun e => !e.isFolder).map Entry.size).sum := by
  induction es with
  | nil => exact Nat.le_refl 0
  | cons e es ih =>
      obtain ⟨he, hrest⟩ := List.forall_mem_cons.mp h
      have hle := ih hrest
      rw [← List.singleton_append, pieces_append, volume_append, List.filter_append, List.map_append,
        List.sum_append]
      refine Nat.add_le_add ?_ hle
      cases hfile : e.isKeptFile with
      | false =>
          rw [pieces_other hfile]
          exact Nat.zero_le _
      | true =>
          obtain ⟨_, hf⟩ := Entry.isKeptFile_iff.mp hfile
          have hsize : (bytesOf b e).size ≤ e.size := by
            unfold bytesOf
            split
            · next c hc => exact (he hf c hc).le
            · exact Nat.zero_le _
          rw [pieces_file hfile, List.filter_cons_of_pos (by rw [hf]; rfl)]
          simpa [volume] using hsize

theorem countP_keptFile_le (es : List Entry) :
    es.countP Entry.isKeptFile ≤ (es.filter fun e => !e.isFolder).length := by
  rw [← List.countP_eq_length_filter]
  refine List.countP_mono_left fun e _ he => ?_
  rw [(Entry.isKeptFile_iff.mp he).2]
  rfl

theorem inspect_ok {d : Disk} {archive : Path} {limits : Limits} {r : Report}
    (h : inspect d archive limits = .ok r) : ∃ b es, d.readBytes archive = .ok b ∧
      entries b = .ok es ∧ r = Report.ofEntries b.size es ∧
      r.fileCount ≤ limits.maxArchiveFiles ∧ r.unpackedBytes ≤ limits.maxUncompressedBytes := by
  rcases hs : d.stat archive with e | ⟨q, ⟨_ | ⟨i, b, x⟩ | _, t⟩⟩
  · rw [inspect, hs] at h
    cases h
  · rw [inspect, hs] at h
    cases h
  · rw [inspect_file hs] at h
    split at h
    · cases h
    rcases hes : entriesWithContent b with fault | es
    · rw [hes] at h
      cases h
    rw [hes] at h
    change (Report.ofEntries b.size es).within limits = .ok r at h
    have hentries : entries b = .ok es := by
      rw [entriesWithContent] at hes
      rcases he : entries b with fault | es'
      · rw [he] at hes
        cases hes
      · rw [he] at hes
        dsimp only [bind, Except.bind] at hes
        split at hes
        · cases hes
        · exact hes
    rw [Report.within] at h
    split at h
    · cases h
    split at h
    · cases h
    cases h
    have hread : d.readBytes archive = .ok b := by rw [readBytes, hs]; rfl
    exact ⟨b, es, hread, hentries, rfl, by omega, by omega⟩
  · rw [inspect, hs] at h
    cases h

/-- An archive that has passed the look at it and whose sizes are noted as they are never takes more
than the limit it was seen under, nor more than what was told of it. -/
theorem extract_within_report {d : Disk} (ht : IsTree d) {archive : Path} {limits : Limits}
    {r : Report} (hi : inspect d archive limits = .ok r)
    (hword : limits.maxUncompressedBytes < Settings.wordMax)
    (htrue : ∀ b es, d.readBytes archive = .ok b → entries b = .ok es →
      ∀ e ∈ es, e.isFolder = false → IsTrue b e) (target : Path) :
    r.fileCount ≤ limits.maxArchiveFiles ∧
    (∀ m, ((extract archive target limits.maxUncompressedBytes).run d).1 ≠
      .error (.resourceExhausted m)) ∧
    ∀ t, ((extract archive target limits.maxUncompressedBytes).run d).1 = .ok t →
      t.filesWritten ≤ r.fileCount ∧ t.bytesWritten ≤ r.unpackedBytes := by
  obtain ⟨b, es, hb, hes, rfl, hcount, hroom⟩ := inspect_ok hi
  -- what is written is no more than what the report counts, which is within the limit
  have hvolume : volume (pieces b es) ≤ totalSize (es.filter fun e => !e.isFolder) := by
    rw [totalSize_eq (lt_of_le_of_lt hroom hword)]
    exact volume_pieces_le (htrue b es hb hes)
  have hcounted := foldlM_counted archive target limits.maxUncompressedBytes b es
    ((makeFolders target).run d).2
  have hcomes := extract_comes ht hb hes (Eq.refl ((makeFolders target).run d).2)
    limits.maxUncompressedBytes
  refine ⟨hcount, fun m h => ?_, fun t h => ?_⟩
  · rcases hr : (extract archive target limits.maxUncompressedBytes).run d with ⟨f | t, d'⟩
    · rw [hr] at h hcomes
      cases h
      rcases hcomes with hne | hloop
      · exact hne m rfl
      · rw [hloop] at hcounted
        obtain ⟨done, e, rest, rfl, hburst⟩ := hcounted
        obtain ⟨hfile, _, hover⟩ := hburst m rfl
        rw [volume_split hfile] at hvolume
        have hle : totalSize _ ≤ limits.maxUncompressedBytes := hroom
        omega
    · rw [hr] at h
      cases h
  · rcases hr : (extract archive target limits.maxUncompressedBytes).run d with ⟨f | t', d'⟩
    · rw [hr] at h
      cases h
    · rw [hr] at h hcomes
      cases h
      obtain ⟨d₂, a, hloop, _⟩ := hcomes
      rw [hloop] at hcounted
      refine ⟨?_, ?_⟩
      · rw [hcounted.written]
        exact countP_keptFile_le es
      · rw [hcounted.bytes]
        exact hvolume

theorem readBytes_delivered (b : ByteArray) : (delivered b).readBytes (.ofText "a.zip") = .ok b := by
  rw [readBytes, stat_delivered]
  rfl

theorem isTrue_entryX : IsTrue soundX (entryX 2363233923) := by
  have hsize : (contentOf soundX (entryX 2363233923)).toOption.map (·.bytes.size) = some 1 := by
    decide +kernel
  intro c hc
  rw [hc] at hsize
  exact Option.some.inj hsize

theorem extract_soundX :
    ((extract (.ofText "a.zip") (.ofText "p") 1).run (delivered soundX)).1 = .ok ⟨1, 0, 1⟩ ∧
    ((extract (.ofText "a.zip") (.ofText "p") 0).run (delivered soundX)).1 =
      .error (.resourceExhausted "ZIP expands beyond the allowed 0 bytes") := by
  rw [extract_run_folder (stat_delivered _) (folderAt_delivered _),
    extract_run_folder (stat_delivered _) (folderAt_delivered _), soundX_reads.1]
  constructor <;> decide +kernel

theorem extract_within_report_small : IsTree (delivered soundX) ∧
    inspect (delivered soundX) (.ofText "a.zip") { maxUncompressedBytes := 1 } = .ok ⟨1, 101, 1⟩ ∧
    ∃ t, ((extract (.ofText "a.zip") (.ofText "p") 1).run (delivered soundX)).1 = .ok t ∧
      t.filesWritten ≤ 1 ∧ t.bytesWritten ≤ 1 := by
  have hinspect : inspect (delivered soundX) (.ofText "a.zip") { maxUncompressedBytes := 1 } =
      .ok ⟨1, 101, 1⟩ := by
    rw [inspect_file (stat_delivered _), entriesWithContent, soundX_reads.1]
    decide +kernel
  have htrue : ∀ b es, (delivered soundX).readBytes (.ofText "a.zip") = .ok b → entries b = .ok es →
      ∀ e ∈ es, e.isFolder = false → IsTrue b e := by
    intro b es hb hes e he _
    rw [readBytes_delivered] at hb
    cases hb
    rw [soundX_reads.1] at hes
    cases hes
    rw [List.mem_singleton.mp he]
    exact isTrue_entryX
  have h := extract_within_report (isTree_delivered soundX) hinspect (by decide) htrue (.ofText "p")
  exact ⟨isTree_delivered soundX, hinspect, _, extract_soundX.1, h.2.2 _ extract_soundX.1⟩

end SourceAtlas.Archive
