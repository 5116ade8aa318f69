import Mathlib
import SourceAtlas.Proofs.Disk.Places
import SourceAtlas.Proofs.Lease.Exclusion
import SourceAtlas.Proofs.Lease.Sweeping

namespace SourceAtlas.Retention

open Disk Work Leases

variable {d : Disk} {dir folder : Path} {P : Place} {holder : String} {ls : Leases} {limit : Span}

/-- The entries are gone with all that lies below them, and are told of in order; nothing else has
changed, in the folder or outside. -/
structure IsSwept (d : Disk) (P : Place) (taken : List (Name × Record)) (x : Sweep) : Prop where
  names : x.removed.Perm (taken.map (·.1))
  sorted : x.removed.Pairwise (· ≤ ·)
  gone : ∀ e ∈ taken, ∀ q, P ++ [e.1] <+: q → x.disk.get? q = none
  kept : ∀ q, q ≠ P → (∀ e ∈ taken, ¬ P ++ [e.1] <+: q) → x.disk.get? q = d.get? q
  folder : x.disk.found? P = some .folder

/-- Of the entries that are past the limit: whoever is seen to have a lease has one, and whoever has
one is seen to have it even once everything that is due is gone. -/
structure Guarded (d : Disk) (P : Place) (folder : Path) (holder : String) (ls : Leases)
    (limit : Span) : Prop where
  seen : ∀ e ∈ d.children P, isPast d limit e.2 = true →
    isActive d folder holder ls (ownerOf e.1) = true → ∃ l ∈ ls, l.id = ownerOf e.1
  lasting : ∀ e ∈ d.children P, isPast d limit e.2 = true → ∀ l ∈ ls, e.1 ∈ entryNames l.id →
    isActive (dropAll P d (due d P limit ls)) folder holder ls l.id = true

theorem isSwept_of_fold {es : List (Name × Record)} (hP : d.found? P = some .folder)
    (hperm : es.Perm (d.children P)) {x : Sweep}
    (hdisk : x.disk = dropAll P d (es.filter (isDue d limit ls)))
    (hremoved : x.removed = (es.filter (isDue d limit ls)).map (·.1)) :
    IsSwept d P (due d P limit ls) { x with removed := x.removed.mergeSort before } := by
  have hdue : (es.filter (isDue d limit ls)).Perm (due d P limit ls) := hperm.filter _
  refine ⟨?_, ?_, fun e he q hq => ?_, fun q hq hout => ?_, ?_⟩
  · rw [hremoved]
    exact (List.mergeSort_perm ..).trans (hdue.map _)
  · have hsorted :=
      @List.pairwise_mergeSort _ before (fun _ _ _ => before_trans) before_total x.removed
    exact hsorted.imp fun h => of_decide_eq_true h
  · show x.disk.get? q = none
    rw [hdisk]
    exact found?_eq_none.mp (found?_dropAll_inside (hdue.mem_iff.mpr he) hq)
  · show x.disk.get? q = d.get? q
    rw [hdisk]
    exact get?_dropAll_outside hq fun e he => hout e (hdue.mem_iff.mp he)
  · show x.disk.found? P = some .folder
    rw [hdisk]
    exact folder_dropAll hP

section Judging

variable (hls : ∀ l ∈ ls, Project.checkId l.id = .ok ())
  (hseen : ∀ e ∈ d.children P, isPast d limit e.2 = true →
    isActive d folder holder ls (ownerOf e.1) = true → ∃ l ∈ ls, l.id = ownerOf e.1)

include hseen in
theorem judged_of_due {e : Name × Record} (he : e ∈ due d P limit ls) :
    IsJudged d P folder holder ls limit e := by
  intro gone _
  obtain ⟨hchild, hdue⟩ := List.mem_filter.mp he
  obtain ⟨hpast, hfree⟩ := isDue_eq_true.mp hdue
  rw [hdue, hpast, Bool.not_true, Bool.or_false, ← Bool.not_eq_true]
  intro hp
  obtain ⟨l, hl, hid⟩ := hseen e hchild hpast (isActive_of_reduced reduced_dropAll hp)
  exact hfree l hl (hid ▸ mem_entryNames_ownerOf e.1)

include hls in
theorem Guarded.judged (h : Guarded d P folder holder ls limit) {e : Name × Record}
    (he : e ∈ d.children P) : IsJudged d P folder holder ls limit e := by
  cases hdue : isDue d limit ls e with
  | true => exact judged_of_due h.seen (List.mem_filter.mpr ⟨he, hdue⟩)
  | false =>
      intro gone hgone
      rw [hdue, Bool.not_false]
      cases hpast : isPast d limit e.2 with
      | false => simp
      | true =>
          have hleased : ¬ ∀ l ∈ ls, e.1 ∉ entryNames l.id := by
            intro hfree
            rw [isDue_eq_true.mpr ⟨hpast, hfree⟩] at hdue
            cases hdue
          push Not at hleased
          obtain ⟨l, hl, hn⟩ := hleased
          have hlast := h.lasting e he hpast l hl hn
          rw [← ownerOf_entry (hls l hl) hn] at hlast
          rw [Bool.not_true, Bool.or_false]
          exact isActive_of_reduced (reduced_dropAll_of_subset hgone) hlast

end Judging

theorem unfailing_iff {es : List (Name × Record)} :
    (sweepEntries dir holder folder ls limit d es).Unfailing ↔
      (es.foldl (sweepEntry dir holder folder ls limit) ⟨d, [], []⟩).Unfailing := by
  rw [Sweep.Unfailing, sweepEntries, List.length_mergeSort]
  rfl

theorem Guarded.isSwept (hd : IsRegular d) (hP : d.FolderAt dir P)
    (hls : ∀ l ∈ ls, Project.checkId l.id = .ok ()) (h : Guarded d P folder holder ls limit)
    {es : List (Name × Record)} (hperm : es.Perm (d.children P))
    (hrun : (sweepEntries dir holder folder ls limit d es).Unfailing) :
    IsSwept d P (due d P limit ls) (sweepEntries dir holder folder ls limit d es) := by
  have hes : ∀ e ∈ es, e ∈ d.children P ∧ IsJudged d P folder holder ls limit e := fun e he =>
    ⟨hperm.mem_iff.mp he, h.judged hls (hperm.mem_iff.mp he)⟩
  obtain ⟨hdisk, hremoved⟩ :=
    foldl_sweepEntry (x := ⟨d, [], []⟩) hd hP [] hes nofun rfl rfl (unfailing_iff.mp hrun)
  exact isSwept_of_fold hP.folder hperm hdisk hremoved

section Needed

variable (hd : IsRegular d) (hP : d.FolderAt dir P)
  (hls : ∀ l ∈ ls, Project.checkId l.id = .ok ())
  (hall : ∀ es, es.Perm (d.children P) →
    (sweepEntries dir holder folder ls limit d es).Unfailing ∧
      IsSwept d P (due d P limit ls) (sweepEntries dir holder folder ls limit d es))

include hall in
theorem mem_fold_iff {es : List (Name × Record)} (hperm : es.Perm (d.children P)) {n : Name} :
    n ∈ (es.foldl (sweepEntry dir holder folder ls limit) ⟨d, [], []⟩).removed ↔
      n ∈ (due d P limit ls).map (·.1) := by
  rw [← (hall es hperm).2.names.mem_iff, sweepEntries, List.mem_mergeSort]

include hd hls hall in
theorem seen_of_swept {e : Name × Record} (he : e ∈ d.children P)
    (hpast : isPast d limit e.2 = true)
    (ha : isActive d folder holder ls (ownerOf e.1) = true) : ∃ l ∈ ls, l.id = ownerOf e.1 := by
  by_contra hnone
  push Not at hnone
  have hdue : isDue d limit ls e = true := isDue_eq_true.mpr
    ⟨hpast, fun l hl hn => hnone l hl (ownerOf_entry (hls l hl) hn).symm⟩
  obtain ⟨l, r, hlist⟩ := List.append_of_mem he
  have hperm : (e :: (l ++ r)).Perm (d.children P) := hlist ▸ List.perm_middle.symm
  have hgone : e.1 ∈ (due d P limit ls).map (·.1) :=
    List.mem_map_of_mem (List.mem_filter.mpr ⟨he, hdue⟩)
  rw [← mem_fold_iff hall hperm, List.foldl_cons] at hgone
  have hkept : ls.protects d folder holder e.1 = true := ha
  rcases sweepEntry_cases dir folder holder ls limit ⟨d, [], []⟩ e with ⟨_, hx⟩ | ⟨hgo, _⟩
  · rw [hx] at hgone
    rcases mem_removed dir folder holder ls limit hgone with hm | hm
    · cases hm
    · have hnodup := hd.nodup_children P
      rw [← (hperm.map _).nodup_iff] at hnodup
      exact (List.nodup_cons.mp hnodup).1 hm
  · rw [hkept] at hgo
    cases hgo

include hd hP hls hall in
theorem lasting_of_swept {e : Name × Record} (he : e ∈ d.children P)
    (hpast : isPast d limit e.2 = true) {l : Lease} (hl : l ∈ ls) (hn : e.1 ∈ entryNames l.id) :
    isActive (dropAll P d (due d P limit ls)) folder holder ls l.id = true := by
  by_contra hfree
  have hnot : isDue d limit ls e = false := by
    rw [← Bool.not_eq_true, isDue_eq_true]
    exact fun h => h.2 l hl hn
  obtain ⟨a, b, hlist⟩ := List.append_of_mem
    (List.mem_filter.mpr ⟨he, by rw [hnot]; rfl⟩ : e ∈ (d.children P).filter (!isDue d limit ls ·))
  have hperm : (due d P limit ls ++ e :: (a ++ b)).Perm (d.children P) := by
    refine .trans (.append_left _ ?_) (List.filter_append_perm (isDue d limit ls) _)
    exact hlist ▸ List.perm_middle.symm
  have hend := unfailing_iff.mp (hall _ hperm).1
  have hstart : Sweep.Unfailing ⟨d, [], []⟩ := rfl
  have hfront := hstart.front _ _ hend
  have hes : ∀ e ∈ due d P limit ls, e ∈ d.children P ∧ IsJudged d P folder holder ls limit e :=
    fun e he => ⟨(List.mem_filter.mp he).1,
      judged_of_due (fun e he => seen_of_swept hd hls hall he) he⟩
  obtain ⟨hdisk, -⟩ := foldl_sweepEntry hd hP [] hes nofun rfl hstart hfront
  have hdue : (due d P limit ls).filter (isDue d limit ls) = due d P limit ls := by
    simp [due, List.filter_filter]
  rw [hdue, List.nil_append] at hdisk
  have hmem := mem_fold_iff hall hperm (n := e.1)
  rw [List.foldl_append] at hend hmem
  have hremoved := mem_removed_of_go hfront (by
    rw [protects, ownerOf_entry (hls l hl) hn, hdisk, isPast_dropAll, hpast, Bool.not_true,
      Bool.or_false]
    exact Bool.eq_false_iff.mpr hfree) hend
  obtain ⟨e', he', heq⟩ := List.mem_map.mp (hmem.mp hremoved)
  obtain ⟨hchild, htaken⟩ := List.mem_filter.mp he'
  obtain rfl := List.inj_on_of_nodup_map (hd.nodup_children P) hchild he heq
  rw [hnot] at htaken
  cases htaken

end Needed

theorem sweepListed_of_folderAt (hP : d.FolderAt dir P)
    (order : List (Name × Record) → List (Name × Record)) :
    sweepListed order d dir limit holder folder ls =
      .ok (sweepEntries dir holder folder ls limit d (order (d.children P))) := by
  obtain ⟨t, hs⟩ := hP
  have hlist : d.list dir = .ok (d.children P) := by
    simp [Disk.list, hs, bind, Except.bind, Record.isFolder]
  have hexists : d.exists? dir = true := by
    rw [exists?, hs]
    rfl
  rw [sweepListed, hexists, hlist]
  rfl

theorem ownerOf_lockName (o : String) : ownerOf (Settings.lockName o) = o := by
  unfold ownerOf
  dsimp only
  rw [Settings.lockName, String.toList_append, stripSuffix?_append]
  simp

theorem slash_ownerOf {n : Name} (h : '/' ∉ n.toList) : '/' ∉ (ownerOf n).toList := by
  have hentry := mem_entryNames_ownerOf n
  generalize ownerOf n = o at hentry
  simp only [entryNames, List.mem_cons, List.not_mem_nil, or_false] at hentry
  rcases hentry with rfl | rfl | rfl | rfl
  · exact h
  all_goals
    rw [String.toList_append, List.mem_append, not_or] at h
    exact h.1

theorem protects_iff (hls : ∀ l ∈ ls, Project.checkId l.id = .ok ()) :
    (∀ n : Name, '/' ∉ n.toList →
      (ls.protects d folder holder n = true ↔ ∃ l ∈ ls, n ∈ entryNames l.id)) ↔
    (∀ o : String, '/' ∉ o.toList →
      (isActive d folder holder ls o = true ↔ ∃ l ∈ ls, l.id = o)) := by
  constructor
  · intro hall o ho
    have hlock : '/' ∉ (Settings.lockName o).toList := (lockName_isProper ho).slash
    have := hall _ hlock
    rw [protects, ownerOf_lockName] at this
    rw [this]
    refine exists_congr fun l => and_congr_right fun hl => ?_
    rw [mem_entryNames_iff (hls l hl), ownerOf_lockName, eq_comm]
  · intro hall n hn
    rw [protects, hall _ (slash_ownerOf hn)]
    refine exists_congr fun l => and_congr_right fun hl => ?_
    rw [mem_entryNames_iff (hls l hl), eq_comm]

theorem protects_aside (ht : IsTree d) {F : Place} (hF : d.FolderAt folder F) {l : Lease}
    (hid : Project.checkId l.id = .ok ()) (hlocked : isLockedOn d folder ls l.id = true) :
    ls.protects d folder holder (Settings.lockName ("./" ++ l.id)) = true := by
  have hn := Settings.lockName_isEntryName hid
  have hpath : lockPath folder ("./" ++ l.id) = folder.join ⟨[".", Settings.lockName l.id]⟩ := by
    have htext := Path.ofText_text (p := ⟨[".", Settings.lockName l.id]⟩) (by simp) fun n hm => by
      rcases List.mem_cons.mp hm with rfl | hm
      · decide
      · rw [List.mem_singleton.mp hm]
        exact hn.proper.slash
    rw [lockPath, ← htext, Path.text_eq_intercalate]
    congr 2
  have hsame : d.stat (lockPath folder ("./" ++ l.id)) = d.stat (lockPath folder l.id) := by
    obtain ⟨k, _, hl⟩ := hF.locate_join ht (.refl d)
    rw [hpath, Settings.lockPath_eq folder hid, stat, stat,
      hl ⟨[".", Settings.lockName l.id]⟩ rfl (by simp) (isClean_of (by simp [hn.clean])),
      hl ⟨[Settings.lockName l.id]⟩ (Path.isAbsolute_names (by simpa using hn.proper)) (by simp)
        (isClean_of (by simpa using hn.clean)), follow_idle (.inr rfl)]
  rw [protects, ownerOf_lockName, isActive, isLockedOn, hsame]
  rw [isLockedOn] at hlocked
  rw [hlocked, Bool.or_true]

theorem isActive_iff_of_plain (hplain : IsPlain (fun n => ∃ o, n = Settings.lockName o) d)
    (hls : ∀ l ∈ ls, Project.checkId l.id = .ok () ∧ lockFile d folder l.id = some l.file)
    {o : String} (ho : '/' ∉ o.toList) :
    isActive d folder holder ls o = true ↔ ∃ l ∈ ls, l.id = o := by
  constructor
  · intro ha
    rw [isActive, Bool.or_eq_true, isLockedOn_eq] at ha
    rcases ha with ha | ha
    · obtain ⟨l, hl, heq⟩ := List.any_eq_true.mp ha
      rw [Bool.and_eq_true, beq_iff_eq, beq_iff_eq] at heq
      exact ⟨l, hl, heq.2⟩
    · rcases hf : lockFile d folder o with _ | i <;> rw [hf] at ha
      · cases ha
      · obtain ⟨l, hl, hfile⟩ := List.any_eq_true.mp ha
        obtain ⟨hid, hlock⟩ := hls l hl
        rw [beq_iff_eq.mp hfile] at hlock
        -- a file is in one place, so that both locks have one name
        obtain ⟨q, b, x, hq, hlast⟩ := place_of_lock hplain ho ⟨_, rfl⟩ hf
        obtain ⟨q', b', x', hq', hlast'⟩ :=
          place_of_lock hplain (Settings.id_isEntryName hid).proper.slash ⟨_, rfl⟩ hlock
        rw [hplain.numbered.apart hq' hq, hlast] at hlast'
        exact ⟨l, hl, ((String.append_left_inj _).mp (Option.some.inj hlast')).symm⟩
  · rintro ⟨l, hl, rfl⟩
    exact isActive_of_lock hl (hls l hl).2

theorem lockFile_outlasts {F : Place} (hd : IsRegular d)
    (hplain : IsPlain (fun n => ∃ o, n = Settings.lockName o) d)
    (hF : (dropAll P d (due d P limit ls)).FolderAt folder F) {l : Lease} (hl : l ∈ ls)
    (hid : Project.checkId l.id = .ok ()) (hlock : lockFile d folder l.id = some l.file) :
    lockFile (dropAll P d (due d P limit ls)) folder l.id = some l.file := by
  have hn := Settings.lockName_isEntryName hid
  have hlink : ∀ t, d.found? (F ++ [Settings.lockName l.id]) ≠ some (.link t) := fun t =>
    hplain.links ⟨_, rfl⟩
  have hout : ∀ g ∈ due d P limit ls, ¬ P ++ [g.1] <+: F ++ [Settings.lockName l.id] := by
    intro g hg hpre
    rcases List.prefix_concat_iff.mp hpre with heq | hpre
    · obtain ⟨_, hname⟩ := List.append_inj' heq rfl
      refine (isDue_eq_true.mp (List.mem_filter.mp hg).2).2 l hl ?_
      rw [List.cons.inj hname |>.1]
      simp [entryNames, Settings.lockName]
    · exact not_prefix_of_found (by rw [hF.folder]; exact Option.some_ne_none _) hg hpre
  have hleft : Reduced d (dropAll P d (due d P limit ls)) := reduced_dropAll
  have hfile : ∃ b x, d.found? (F ++ [Settings.lockName l.id]) = some (.file l.file b x) := by
    obtain ⟨q, b, x, t, hs⟩ := fileAt_eq_some.mp hlock
    rw [Settings.lockPath_eq folder hid,
      stat_child hd.toIsTree (hleft.folderAt hF) hn hlink] at hs
    split at hs
    · next r hr =>
        cases hs
        exact ⟨b, x, found?_of_get? hr⟩
    · cases hs
  obtain ⟨b, x, hfile⟩ := hfile
  rw [← found?_dropAll_outside hout] at hfile
  obtain ⟨t, hr⟩ := found?_eq_some.mp hfile
  have hs := stat_child (dropAll_isTree hd.toIsTree) hF hn fun t ht => hlink t (hleft.left ht)
  rw [hr, ← Settings.lockPath_eq folder hid] at hs
  exact fileAt_eq_some.mpr ⟨_, b, x, t, hs⟩

theorem guarded_of_plain {F : Place} (hd : IsRegular d)
    (hplain : IsPlain (fun n => ∃ o, n = Settings.lockName o) d)
    (hls : ∀ l ∈ ls, Project.checkId l.id = .ok () ∧ lockFile d folder l.id = some l.file)
    (hF : (dropAll P d (due d P limit ls)).FolderAt folder F) :
    Guarded d P folder holder ls limit where
  seen := by
    intro e he _ ha
    have hname := hd.names (hd.mem_children.mp he) e.1 (by simp)
    exact (isActive_iff_of_plain hplain hls (slash_ownerOf hname.proper.slash)).mp ha
  lasting := by
    intro e _ _ l hl _
    obtain ⟨hid, hlock⟩ := hls l hl
    exact isActive_of_lock hl (lockFile_outlasts hd hplain hF hl hid hlock)

/-- Where locks keep to leases, and to the end, a sweep takes away what is past the limit and
belongs to no lease, and nothing else, in whatever order it goes; it takes no less for that to hold
in every order. Names are protected alike, but for those that are no names of entries. -/
theorem sweep_exact (hd : IsRegular d) (hP : d.FolderAt dir P)
    (hls : ∀ l ∈ ls, Project.checkId l.id = .ok ()) :
    (Guarded d P folder holder ls limit →
      ∀ order, (order (d.children P)).Perm (d.children P) →
        ∃ x, sweepListed order d dir limit holder folder ls = .ok x ∧
          (x.Unfailing → IsSwept d P (due d P limit ls) x)) ∧
    ((∀ order, (order (d.children P)).Perm (d.children P) →
        ∃ x, sweepListed order d dir limit holder folder ls = .ok x ∧
          x.Unfailing ∧ IsSwept d P (due d P limit ls) x) →
      Guarded d P folder holder ls limit) ∧
    ((∀ n : Name, '/' ∉ n.toList →
        (ls.protects d folder holder n = true ↔ ∃ l ∈ ls, n ∈ entryNames l.id)) ↔
      ∀ o : String, '/' ∉ o.toList →
        (isActive d folder holder ls o = true ↔ ∃ l ∈ ls, l.id = o)) ∧
    ∀ F, d.FolderAt folder F → ∀ l ∈ ls, isLockedOn d folder ls l.id = true →
      ls.protects d folder holder (Settings.lockName ("./" ++ l.id)) = true := by
  refine ⟨fun h order hperm => ?_, fun hall => ?_, protects_iff hls,
    fun F hF l hl => protects_aside hd.toIsTree hF (hls l hl)⟩
  · exact ⟨_, sweepListed_of_folderAt hP order, h.isSwept hd hP hls hperm⟩
  · have hswept : ∀ es, es.Perm (d.children P) →
        (sweepEntries dir holder folder ls limit d es).Unfailing ∧
          IsSwept d P (due d P limit ls) (sweepEntries dir holder folder ls limit d es) := by
      intro es hperm
      obtain ⟨x, hx, h⟩ := hall (fun _ => es) hperm
      rw [sweepListed_of_folderAt hP] at hx
      cases hx
      exact h
    exact ⟨fun e he => seen_of_swept hd hls hswept he,
      fun e he hpast l hl hn => lasting_of_swept hd hP hls hswept he hpast hl hn⟩

def sharedDisk : Disk :=
  ⟨[(["p"], ⟨.folder, 0⟩), (["p", "x"], ⟨.folder, 0⟩),
    (["p", "x.lock"], ⟨.file 0 ByteArray.empty false, 0⟩), (["p", "y"], ⟨.folder, 0⟩),
    (["p", "y", "f"], ⟨.file 1 ByteArray.empty false, 0⟩),
    (["p", "z.zip"], ⟨.file 2 ByteArray.empty false, 10000000000⟩)], [], 10000000000, 3⟩

theorem isRegular_sharedDisk : IsRegular sharedDisk := by decide

theorem isPlain_sharedDisk (N : Name → Prop) : IsPlain N sharedDisk :=
  .of_records (by decide) (by decide)

theorem children_sharedDisk : sharedDisk.children ["p"] =
    [("x", ⟨.folder, 0⟩), ("x.lock", ⟨.file 0 ByteArray.empty false, 0⟩), ("y", ⟨.folder, 0⟩),
      ("z.zip", ⟨.file 2 ByteArray.empty false, 10000000000⟩)] := by
  cbv

theorem due_sharedDisk :
    due sharedDisk ["p"] (.ofSeconds 1) [⟨"a", "x", 0⟩] = [("y", ⟨.folder, 0⟩)] := by
  rw [due, children_sharedDisk]
  rfl

theorem sweep_exact_shared :
    ∃ x, sweepListed List.reverse sharedDisk locks (.ofSeconds 1) "c" locks [⟨"a", "x", 0⟩] =
        .ok x ∧
      x.removed = ["y"] ∧ x.disk.get? ["p", "y", "f"] = none ∧
      x.disk.get? ["p", "x.lock"] = some ⟨.file 0 ByteArray.empty false, 0⟩ := by
  have hP : sharedDisk.FolderAt locks ["p"] := ⟨0, rfl⟩
  have hls : ∀ l ∈ ([⟨"a", "x", 0⟩] : Leases),
      Project.checkId l.id = .ok () ∧ lockFile sharedDisk locks l.id = some l.file := by
    intro l hl
    rw [List.mem_singleton.mp hl]
    exact ⟨by decide, rfl⟩
  have hguarded : Guarded sharedDisk ["p"] locks "c" [⟨"a", "x", 0⟩] (.ofSeconds 1) := by
    refine guarded_of_plain (F := ["p"]) isRegular_sharedDisk (isPlain_sharedDisk _) hls ?_
    rw [due_sharedDisk]
    exact ⟨10000000000, rfl⟩
  obtain ⟨hexact, _⟩ := sweep_exact isRegular_sharedDisk hP fun l hl => (hls l hl).1
  obtain ⟨x, hx, hswept⟩ := hexact hguarded List.reverse (List.reverse_perm _)
  have hrun : x.Unfailing := by
    rw [sweepListed_of_folderAt hP] at hx
    cases hx
    rw [unfailing_iff, children_sharedDisk]
    decide +kernel
  have h := hswept hrun
  rw [due_sharedDisk] at h
  refine ⟨x, hx, List.perm_singleton.mp h.names, h.gone _ List.mem_cons_self _ ⟨["f"], rfl⟩, ?_⟩
  rw [h.kept _ (by decide) (by decide)]
  rfl

def aliasedLocks : Disk :=
  ⟨[(["p"], ⟨.folder, 0⟩), (["p", "x"], ⟨.folder, 0⟩),
    (["p", "x.lock"], ⟨.link (.ofText "y.lock"), 0⟩),
    (["p", "y.lock"], ⟨.file 0 ByteArray.empty false, 0⟩)], [], 10000000000, 1⟩

def nestedLocks : Disk :=
  ⟨[(["u"], ⟨.folder, 0⟩), (["u", "p"], ⟨.folder, 0⟩),
    (["u", "p", "x.lock"], ⟨.file 0 ByteArray.empty false, 0⟩),
    (["u", "x.zip"], ⟨.file 1 ByteArray.empty false, 0⟩)], [], 10000000000, 2⟩

theorem sweep_inexact :
    (∃ x, sweepListed id aliasedLocks locks (.ofSeconds 1) "c" locks [⟨"b", "y", 0⟩] = .ok x ∧
      x.Unfailing ∧ "x" ∉ x.removed ∧
      "x" ∈ (due aliasedLocks ["p"] (.ofSeconds 1) [⟨"b", "y", 0⟩]).map (·.1)) ∧
    (∃ x, sweepListed id nestedLocks (.ofText "u") (.ofSeconds 1) "c" (.ofText "u/p")
        [⟨"b", "x", 0⟩] = .ok x ∧
      x.Unfailing ∧ "x.zip" ∈ x.removed ∧ "x.zip" ∈ entryNames "x") ∧
    ∃ x, sweepListed List.reverse nestedLocks (.ofText "u") (.ofSeconds 1) "c" (.ofText "u/p")
        [⟨"b", "x", 0⟩] = .ok x ∧
      x.Unfailing ∧ "x.zip" ∉ x.removed := by
  have haliased : aliasedLocks.children ["p"] =
      [("x", ⟨.folder, 0⟩), ("x.lock", ⟨.link (.ofText "y.lock"), 0⟩),
        ("y.lock", ⟨.file 0 ByteArray.empty false, 0⟩)] := by
    cbv
  have hnested : nestedLocks.children ["u"] =
      [("p", ⟨.folder, 0⟩), ("x.zip", ⟨.file 1 ByteArray.empty false, 0⟩)] := by
    cbv
  have hP : aliasedLocks.FolderAt locks ["p"] := ⟨0, rfl⟩
  have hU : nestedLocks.FolderAt (.ofText "u") ["u"] := ⟨0, rfl⟩
  refine ⟨⟨_, sweepListed_of_folderAt hP id, ?_, ?_, ?_⟩,
    ⟨_, sweepListed_of_folderAt hU id, ?_, ?_, ?_⟩,
    ⟨_, sweepListed_of_folderAt hU List.reverse, ?_, ?_⟩⟩
  · rw [unfailing_iff, haliased]
    decide +kernel
  · rw [sweepEntries, List.mem_mergeSort, haliased]
    decide +kernel
  · rw [due, haliased]
    decide +kernel
  · rw [unfailing_iff, hnested]
    decide +kernel
  · rw [sweepEntries, List.mem_mergeSort, hnested]
    decide +kernel
  · decide
  · rw [unfailing_iff, hnested]
    decide +kernel
  · rw [sweepEntries, List.mem_mergeSort, hnested]
    decide +kernel

end SourceAtlas.Retention
