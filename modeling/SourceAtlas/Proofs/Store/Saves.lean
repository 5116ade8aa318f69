import SourceAtlas.Lease
import SourceAtlas.Project.Id
import SourceAtlas.Proofs.Disk.Replace
import SourceAtlas.Store

namespace SourceAtlas

open Disk Work Settings

namespace Settings

def analysisName (id : String) : Name := id ++ analysisSuffix

theorem isEntryName_of_id {id suffix : String} (h : Project.checkId id = .ok ())
    (hs : suffix.utf8ByteSize ≤ 191) (hslash : '/' ∉ suffix.toList)
    (hnul : '\x00' ∉ suffix.toList) : IsEntryName (id ++ suffix) := by
  obtain ⟨hne, hl, hc⟩ := Project.checkId_ok_iff.mp h
  have hchar : ∀ c, Project.isIdChar c = false → c ∉ suffix.toList → c ∉ (id ++ suffix).toList := by
    intro c hid hs hm
    rw [String.toList_append] at hm
    rcases List.mem_append.mp hm with hm | hm
    · have := List.all_eq_true.mp hc c hm
      rw [hid] at this
      cases this
    · exact hs hm
  -- the name begins with a character of an id, and no dot is one
  have hdots : id ++ suffix ≠ "" ∧ id ++ suffix ≠ "." ∧ id ++ suffix ≠ ".." := by
    obtain ⟨c, cs, hcs⟩ := List.exists_cons_of_ne_nil (l := id.toList) (by simpa using hne)
    have hhead : (id ++ suffix).toList.head? = some c := by
      rw [String.toList_append, hcs]
      rfl
    have hidc : Project.isIdChar c = true := List.all_eq_true.mp hc c (by simp [hcs])
    refine ⟨fun he => ?_, fun he => ?_, fun he => ?_⟩
    all_goals
      rw [he] at hhead
      cases hhead
    all_goals exact absurd hidc (by decide)
  refine ⟨⟨Path.inner_eq_name (not_or.mpr ⟨hdots.1, hdots.2.1⟩) hdots.2.2,
    hchar '/' (by decide) hslash⟩, ?_, hchar '\x00' (by decide) hnul⟩
  have hm : maxProjectIdBytes = 64 := rfl
  rw [String.utf8ByteSize_append, Disk.maxNameBytes]
  omega

theorem analysisName_isEntryName {id : String} (h : Project.checkId id = .ok ()) :
    IsEntryName (analysisName id) := isEntryName_of_id h (by decide) (by decide) (by decide)

def lockName (id : String) : Name := id ++ lockSuffix

theorem lockName_isEntryName {id : String} (h : Project.checkId id = .ok ()) :
    IsEntryName (lockName id) := isEntryName_of_id h (by decide) (by decide) (by decide)

theorem id_isEntryName {id : String} (h : Project.checkId id = .ok ()) : IsEntryName id := by
  have := isEntryName_of_id h (by decide : "".utf8ByteSize ≤ 191) (by decide) (by decide)
  rwa [String.append_empty] at this

theorem lockPath_eq (folder : Path) {id : String} (h : Project.checkId id = .ok ()) :
    Leases.lockPath folder id = folder.join ⟨[lockName id]⟩ := by
  rw [Leases.lockPath, ← Path.ofText_name (lockName_isEntryName h).proper]
  rfl

theorem projectDir_eq (s : Settings) {id : String} (h : Project.checkId id = .ok ()) :
    s.projectDir id = s.projectsDir.join ⟨[id]⟩ := by
  rw [projectDir, ← Path.ofText_name (id_isEntryName h).proper]

theorem analysisPath_eq (s : Settings) {id : String} (h : Project.checkId id = .ok ()) :
    s.analysisPath id = s.projectsDir.join ⟨[analysisName id]⟩ := by
  rw [analysisPath, ← Path.ofText_name (analysisName_isEntryName h).proper]
  rfl

end Settings

namespace Store

variable {s : Settings} {d d' : Disk} {a r : Analysis} {P : Place}

def bytesOf (a : Analysis) : ByteArray := a.toJson.indentedText.toUTF8

theorem save_run (s : Settings) (a : Analysis) (d : Disk) : (save s a).run d =
    let p := s.analysisPath a.projectId
    match (makeFolders (folderOf p)).run d with
    | (.error f, d') => (.error (.because ("Failed to create directory " ++ (folderOf p).text) f), d')
    | (.ok _, d') => match (replaceBytes p (bytesOf a)).run d' with
        | (.error f, d'') => (.error (.because ("Failed to write " ++ p.text) f), d'')
        | (.ok _, d'') => (.ok p, d'') := by
  simp only [save, publish, run_bind, run_edit]
  rcases (makeFolders (folderOf (s.analysisPath a.projectId))).run d with ⟨_ | _, d'⟩
  · rfl
  · dsimp only [bytesOf]
    rcases (replaceBytes (s.analysisPath a.projectId) a.toJson.indentedText.toUTF8).run d' with
      ⟨_ | _, d''⟩ <;> rfl

theorem save_isTree (s : Settings) (a : Analysis) : Keeps IsTree (save s a) :=
  .bind (.bind (.edit (makeFolders_isTree _)) fun _ => .edit (replaceBytes_isTree _ _)) fun _ =>
    .pure _

theorem save_into (ht : IsTree d) (hP : d.FolderAt s.projectsDir P)
    (hr : Project.checkId r.projectId = .ok ()) : (save s r).run d =
      let p := s.analysisPath r.projectId
      match d.found? (P ++ [analysisName r.projectId]) with
      | some .folder => (.error (.because ("Failed to write " ++ p.text) .isFolder), d)
      | _ => (.ok p, d.newFile (P ++ [analysisName r.projectId]) (bytesOf r) false) := by
  have hn := analysisName_isEntryName hr
  have hf : (makeFolders (folderOf (s.analysisPath r.projectId))).run d = (.ok (), d) := by
    rw [analysisPath_eq s hr]
    obtain ⟨p', hp'⟩ : ∃ p', (s.projectsDir.join ⟨[analysisName r.projectId]⟩).parent = some p' :=
      ⟨_, Path.parent_join_name (folderAt_iff.mp hP).1.1.nonempty hn.proper⟩
    obtain ⟨he, hd⟩ := folder_around ht hP hn.proper hp'
    rw [folderOf, hp']
    simp only [he, Bool.false_eq_true, if_false]
    exact makeFolders_of_isFolder hd
  have hrun := replaceBytes_child ht hP hn (bytesOf r)
  rw [← analysisPath_eq s hr] at hrun
  rw [save_run]
  dsimp only
  rw [hf]
  dsimp only
  rcases he : d.found? (P ++ [analysisName r.projectId]) with _ | _ | _ | _
  all_goals
    rw [he] at hrun
    rw [hrun]

def Kept (s : Settings) (a : Analysis) (d : Disk) : Prop :=
  ∀ {P}, d.FolderAt s.projectsDir P →
    ∃ i x t, d.get? (P ++ [analysisName a.projectId]) = some ⟨.file i (bytesOf a) x, t⟩

theorem kept_save {p : Path} (hs : s.projectsDir.isEmpty = false)
    (ha : Project.checkId a.projectId = .ok ()) (ht : IsTree d)
    (h : (save s a).run d = (.ok p, d')) : Kept s a d' := by
  have hn := analysisName_isEntryName ha
  rw [save_run] at h
  dsimp only at h
  have ht₁ := makeFolders_isTree (folderOf (s.analysisPath a.projectId)) d ht
  rcases hm : (makeFolders (folderOf (s.analysisPath a.projectId))).run d with ⟨_ | _, d₁⟩
  · rw [hm] at h
    cases h
  rw [hm] at h ht₁
  dsimp only at h ht₁
  rw [analysisPath_eq s ha] at h
  have hf : d₁.isFolder s.projectsDir = true := by
    rcases hl : d₁.locate false (s.projectsDir.join ⟨[analysisName a.projectId]⟩) with e | spot
    · rw [replaceBytes_run, hl] at h
      cases h
    · exact folder_of_locate ht₁ hs hn.proper hl
  obtain ⟨P, hP⟩ := isFolder_iff.mp hf
  have h0 : P ++ [analysisName a.projectId] ≠ [] := by simp
  have hrun := replaceBytes_child ht₁ hP hn (bytesOf a)
  split at hrun
  · rw [hrun] at h
    cases h
  · rw [hrun] at h
    cases h
    intro P' hP'
    obtain rfl := hP.unique (hP'.of_newFile h0)
    rw [get?_newFile]
    exact ⟨_, _, _, get?_put_self h0⟩

structure Replaces (s : Settings) (a : Analysis) (d d' : Disk) : Prop where
  saved : (save s a).run d = (.ok (s.analysisPath a.projectId), d')
  kept : s.projectsDir.isEmpty = false → IsTree d → Kept s a d'

theorem save_path {p : Path} (h : (save s a).run d = (.ok p, d')) :
    p = s.analysisPath a.projectId := by
  rw [save_run] at h
  dsimp only at h
  split at h
  · cases h
  · split at h
    · cases h
    · cases h
      rfl

theorem replaces_of_save {p : Path} (ha : Project.checkId a.projectId = .ok ())
    (h : (save s a).run d = (.ok p, d')) : Replaces s a d d' where
  saved := save_path h ▸ h
  kept hs ht := kept_save hs ha ht h

theorem kept_save_other (ht : IsTree d) (hf : d.isFolder s.projectsDir = true)
    (hr : Project.checkId r.projectId = .ok ()) (hne : r.projectId ≠ a.projectId)
    (h : Kept s a d) : Kept s a ((save s r).run d).2 := by
  obtain ⟨P, hP⟩ := isFolder_iff.mp hf
  rw [save_into ht hP hr]
  dsimp only
  split
  · exact h
  · intro P' hP'
    obtain rfl := hP.unique (hP'.of_newFile (by simp))
    rw [get?_newFile, get?_put_of_ne]
    · exact h hP
    · intro he
      have hname : analysisName a.projectId = analysisName r.projectId := by simpa using he
      exact hne ((String.append_left_inj _).mp hname).symm
    · rw [List.dropLast_concat]
      simp

theorem isFolder_of_load {id : String} (ht : IsTree d) (hs : s.projectsDir.isEmpty = false)
    (hid : Project.checkId id = .ok ()) (h : load d s id = .ok a) :
    d.isFolder s.projectsDir = true := by
  have hn := analysisName_isEntryName hid
  rcases hl : d.locate true (s.analysisPath id) with e | spot
  · have hr : d.readBytes (s.analysisPath id) = .error e := by
      simp only [Disk.readBytes, Disk.stat, hl, bind, Except.bind]
    rw [load, hr] at h
    cases e <;> cases h
  · rw [analysisPath_eq s hid] at hl
    exact folder_of_locate ht hs hn.proper hl

theorem load_of_kept (ht : IsTree d) (ha : Project.checkId a.projectId = .ok ())
    (hf : d.isFolder s.projectsDir = true) (h : Kept s a d) :
    load d s a.projectId = .ok a ↔ Analysis.ofBytes? (bytesOf a) = some a := by
  obtain ⟨P, hP⟩ := isFolder_iff.mp hf
  obtain ⟨i, x, t, hr⟩ := h hP
  have hread : d.readBytes (s.analysisPath a.projectId) = .ok (bytesOf a) := by
    rw [analysisPath_eq s ha]
    exact readBytes_child ht hP (analysisName_isEntryName ha) hr
  rw [load, hread]
  dsimp only
  split
  · next he => rw [he, Option.some_inj, Except.ok.injEq]
  · next he => simp [he]

def saveAll (s : Settings) (rs : List Analysis) (d : Disk) : Disk :=
  rs.foldl (fun d r => ((save s r).run d).2) d

theorem saveAll_isTree (s : Settings) (rs : List Analysis) (ht : IsTree d) :
    IsTree (saveAll s rs d) := by
  induction rs generalizing d with
  | nil => exact ht
  | cons r rs ih => exact ih (save_isTree s r d ht)

/-- The analyses are of projects with valid ids, none of which is `id`. -/
def AreOthers (id : String) (rs : List Analysis) : Prop :=
  ∀ r ∈ rs, Project.checkId r.projectId = .ok () ∧ r.projectId ≠ id

/-- None of the analyses would take the place of a link. -/
def TakeNoLink (s : Settings) (rs : List Analysis) (d : Disk) : Prop :=
  ∀ {P}, d.FolderAt s.projectsDir P →
    ∀ r ∈ rs, ∀ t, d.found? (P ++ [analysisName r.projectId]) ≠ some (.link t)

theorem folder_saveAll {id : String} {rs : List Analysis} (ht : IsTree d) (hr : AreOthers id rs)
    (hl : TakeNoLink s rs d) (hP : d.FolderAt s.projectsDir P) :
    (saveAll s rs d).FolderAt s.projectsDir P := by
  induction rs generalizing d with
  | nil => exact hP
  | cons r rs ih =>
      have hrs : AreOthers id rs := fun q hq => hr q (.tail _ hq)
      have ht' := save_isTree s r d ht
      have hsave := save_into ht hP (hr r (by simp)).1
      rw [saveAll, List.foldl_cons]
      dsimp only at hsave
      split at hsave
      · rw [hsave]
        exact ih ht hrs (fun hP q hq => hl hP q (.tail _ hq)) hP
      next hne =>
      rw [hsave] at ht' ⊢
      have hentry : ∀ {q}, q ≠ P ++ [analysisName r.projectId] →
          (d.newFile (P ++ [analysisName r.projectId]) (bytesOf r) false).found? q = d.found? q :=
        fun hq => by rw [found?_newFile, found?_put_of_ne hq]
      -- the new file takes the place of no link and of no folder
      refine ih ht' hrs (fun {P'} hP' q hq t => ?_) (hP.carry (by simp) fun {q e} he hfile => ?_)
      · obtain rfl := hP.unique (hP'.of_newFile (by simp))
        by_cases hq' : P ++ [analysisName q.projectId] = P ++ [analysisName r.projectId]
        · rw [hq', found?_newFile, found?_put_self (by simp)]
          nofun
        · rw [hentry hq']
          exact hl hP q (.tail _ hq) t
      · by_cases hq : q = P ++ [analysisName r.projectId]
        · subst hq
          cases e with
          | folder => exact absurd he hne
          | file i b x => exact absurd rfl (hfile i b x)
          | link t => exact absurd he (hl hP r (by simp) t)
        · rwa [hentry hq]

theorem kept_saveAll {rs : List Analysis} (ht : IsTree d) (hr : AreOthers a.projectId rs)
    (hf : ∀ qs, qs <+: rs → (saveAll s qs d).isFolder s.projectsDir = true) (h : Kept s a d) :
    Kept s a (saveAll s rs d) := by
  induction rs generalizing d with
  | nil => exact h
  | cons r rs ih =>
      obtain ⟨hv, hne⟩ := hr r (by simp)
      refine ih (save_isTree s r d ht) (fun q hq => hr q (.tail _ hq)) (fun qs hq => ?_) ?_
      · exact hf (r :: qs) (List.cons_prefix_cons.mpr ⟨rfl, hq⟩)
      · exact kept_save_other ht (hf [] (List.nil_prefix ..)) hv hne h

theorem loads_iff {rs : List Analysis} (hs : s.projectsDir.isEmpty = false) (ht : IsTree d)
    (ha : Project.checkId a.projectId = .ok ()) (hr : AreOthers a.projectId rs) (h : Kept s a d) :
    (∀ qs, qs <+: rs → load (saveAll s qs d) s a.projectId = .ok a) ↔
      Analysis.ofBytes? (bytesOf a) = some a ∧
        ∀ qs, qs <+: rs → (saveAll s qs d).isFolder s.projectsDir = true := by
  constructor
  · intro hl
    have hf : ∀ qs, qs <+: rs → (saveAll s qs d).isFolder s.projectsDir = true := fun qs hq =>
      isFolder_of_load (saveAll_isTree s qs ht) hs ha (hl qs hq)
    have hnil := List.nil_prefix (l := rs)
    exact ⟨(load_of_kept ht ha (hf [] hnil) h).mp (hl [] hnil), hf⟩
  · rintro ⟨hb, hf⟩ qs hq
    have hk : Kept s a (saveAll s qs d) :=
      kept_saveAll ht (fun r hm => hr r (hq.subset hm)) (fun ps hp => hf ps (hp.trans hq)) h
    exact (load_of_kept (saveAll_isTree s qs ht) ha (hf qs hq) hk).mpr hb

end Store

end SourceAtlas
