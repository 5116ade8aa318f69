import SourceAtlas.Proofs.Disk.Contents
import SourceAtlas.Proofs.Source.Files
import SourceAtlas.Proofs.Text.Runs

namespace SourceAtlas

open Disk SourceAtlas.Path

namespace Name

def IsScript (n : Name) : Prop := ∃ stem : String, ∃ e ∈ ["js", "jsx", "ts", "tsx"], n = stem ++ "." ++ e

theorem splitExtension_append {stem e : String} (hs : stem ≠ "") (he : '.' ∉ e.toList) :
    (splitExtension (stem ++ "." ++ e)).2 = some e := by
  have hrev : (stem ++ "." ++ e).toList.reverse =
      e.toList.reverse ++ '.' :: stem.toList.reverse := by simp
  have hrun : ∀ c ∈ e.toList.reverse, (c != '.') = true :=
    Text.bne_of_not_mem fun h => he (List.mem_reverse.mp h)
  have hend : Text.Ends (· != '.') ('.' :: stem.toList.reverse) := .cons (by simp) _
  obtain ⟨c, l, hc⟩ := List.exists_cons_of_ne_nil
    (show stem.toList.reverse ≠ [] by simpa using hs)
  rw [splitExtension, hrev, Text.dropWhile_run hrun hend, Text.takeWhile_run hrun hend, hc]
  simp

theorem eq_of_splitExtension {n : Name} {e : String} (h : (splitExtension n).2 = some e) :
    ∃ stem : String, n = stem ++ "." ++ e := by
  have hsplit := Text.split_last_run (· != '.') n.toList
  have hends := Text.ends_dropWhile (· != '.') n.toList.reverse
  unfold splitExtension at h
  dsimp only at h
  split at h
  · cases h
  · cases h
  · next c stem _ hdrop =>
      rw [hdrop] at hsplit hends
      have hdot : c = '.' := by simpa using hends c rfl
      refine ⟨String.ofList stem.reverse, String.ext ?_⟩
      refine hsplit.symm.trans ?_
      rw [← Option.some.inj h, hdot]
      simp

theorem isSource_iff {n : Name} (hn : n.IsProper) (hv : n.toList.head? ≠ some '.') :
    Path.isSource ⟨[n]⟩ = true ↔ n.IsScript := by
  have hname : Path.extension ⟨[n]⟩ = (splitExtension n).2 := by
    rw [Path.extension, fileName, steps_names (by simpa using hn)]
    rfl
  have hmem : ∀ {e : String}, sourceExtensions.contains e = true ↔ e ∈ ["js", "jsx", "ts", "tsx"] := by
    intro e
    rw [List.contains_eq_mem, decide_eq_true_iff]
    rfl
  unfold Path.isSource
  rw [hname]
  constructor
  · intro h
    split at h
    · next e he =>
        obtain ⟨stem, hstem⟩ := eq_of_splitExtension he
        exact ⟨stem, e, hmem.mp h, hstem⟩
    · cases h
  · rintro ⟨stem, e, he, rfl⟩
    have hstem : stem ≠ "" := by
      rintro rfl
      exact hv (by simp)
    have hplain : ∀ e ∈ ["js", "jsx", "ts", "tsx"], '.' ∉ e.toList := by decide
    rw [splitExtension_append hstem (hplain e he)]
    exact hmem.mpr he

end Name

namespace Path

theorem fileName_join (root : Path) {ns : List Name} {n : Name} (h : ∀ m ∈ ns ++ [n], m.IsProper) :
    (root.join ⟨ns ++ [n]⟩).fileName = some n := by
  rw [fileName, steps_join_names root (by simp) h, List.map_append, List.map_singleton,
    ← List.append_assoc, List.getLast?_concat]

theorem fileName_names {ns : List Name} {n : Name} (h : ∀ m ∈ ns ++ [n], m.IsProper) :
    fileName ⟨ns ++ [n]⟩ = some n := by
  rw [fileName, steps_names h, List.map_append, List.map_singleton, List.getLast?_concat]

theorem isSource_join (root : Path) {ns : List Name} {n : Name} (h : ∀ m ∈ ns ++ [n], m.IsProper) :
    (root.join ⟨ns ++ [n]⟩).isSource = isSource ⟨[n]⟩ := by
  have hn : ∀ m ∈ [] ++ [n], m.IsProper := fun m hm =>
    h m (List.mem_append_right _ hm)
  rw [isSource, isSource, extension, extension, fileName_join root h, ← List.nil_append [n],
    fileName_names hn]

end Path

namespace Source

variable {d : Disk} {root : Path} {R place : Place} {ns : List Name}

structure IsSourceFile (d : Disk) (R : Place) (ns : List Name) : Prop where
  file : ∃ r, d.get? (R ++ ns) = some r ∧ r.isFile = true
  visible : ∀ n ∈ ns, n.toList.head? ≠ some '.' ∧ n ≠ "node_modules"
  script : ∃ n, ns.getLast? = some n ∧ n.IsScript

/-- All source files, in the order of the bytes of the names on the way. -/
structure IsSourceList (d : Disk) (R : Place) (F : List (List Name)) : Prop where
  mem : ∀ {ns}, ns ∈ F ↔ IsSourceFile d R ns
  ordered : F.Pairwise fun as bs => as.map Text.bytes < bs.map Text.bytes

theorem IsSourceList.eq {F F' : List (List Name)} (h : IsSourceList d R F)
    (h' : IsSourceList d R F') : F = F' :=
  Text.eq_of_ordered (fun hlt => List.lt_asymm hlt) h.ordered h'.ordered fun _ =>
    h.mem.trans h'.mem.symm

theorem isExcluded_iff {n : Name} :
    n.isExcluded = false ↔ n.toList.head? ≠ some '.' ∧ n ≠ "node_modules" := by
  rw [Name.isExcluded, Bool.or_eq_false_iff, decide_eq_false_iff_not, beq_eq_false_iff_ne]
  rfl

namespace IsSourceFile

theorem ne_nil (h : IsSourceFile d R ns) : ns ≠ [] := by
  rintro rfl
  obtain ⟨n, hn, _⟩ := h.script
  cases hn

theorem found (h : IsSourceFile d R ns) :
    ∃ i b x t, d.get? (R ++ ns) = some ⟨.file i b x, t⟩ := by
  obtain ⟨⟨entry, t⟩, hr, hf⟩ := h.file
  cases entry with
  | file i b x => exact ⟨i, b, x, t, hr⟩
  | folder => cases hf
  | link => cases hf

theorem names (hd : IsRegular d) (h : IsSourceFile d R ns) : ∀ n ∈ ns, n.IsProper := by
  obtain ⟨r, hr, _⟩ := h.file
  exact fun n hn => (hd.names hr n (by simp [hn])).proper

theorem read_join (hd : IsRegular d) (hR : d.FolderAt root R) (h : IsSourceFile d R ns) {i : Nat}
    {b : ByteArray} {x : Bool} {t : Moment} (hr : d.get? (R ++ ns) = some ⟨.file i b x, t⟩)
    (maxBytes : Nat) : read d (root.join ⟨ns⟩) maxBytes =
      if maxBytes < b.size then .error (.tooLarge b.size)
      else (textOf b).mapError .unreadable := by
  have hstat := stat_below hd hR h.ne_nil hr nofun
  rw [read, hstat]
  dsimp only
  rw [readText_of_stat hstat]
  simp only [reportedSize, Record.isFolder, Record.size, Record.text, Bool.false_eq_true, if_false]
  cases textOf b <;> rfl

theorem cons {n : Name} (hv : n.isExcluded = false) (h : IsSourceFile d (R ++ [n]) ns) :
    IsSourceFile d R (n :: ns) where
  file := by simpa using h.file
  visible := List.forall_mem_cons.mpr ⟨isExcluded_iff.mp hv, h.visible⟩
  script := by
    obtain ⟨m, hm, hs⟩ := h.script
    exact ⟨m, by rw [List.getLast?_cons, hm]; rfl, hs⟩

theorem tail {n : Name} (hn : ns ≠ []) (h : IsSourceFile d R (n :: ns)) :
    IsSourceFile d (R ++ [n]) ns where
  file := by simpa using h.file
  visible := fun m hm => h.visible m (.tail _ hm)
  script := by
    obtain ⟨m, hm, hs⟩ := h.script
    rw [List.getLast?_cons_of_ne_nil hn] at hm
    exact ⟨m, hm, hs⟩

end IsSourceFile

def waysBelow (d : Disk) : (levels : Nat) → Place → List (List Name)
  | 0, _ => []
  | levels + 1, place =>
      ((d.children place).filter fun e => !Name.isExcluded e.1).flatMap fun e =>
        if e.2.isFolder then (waysBelow d levels (place ++ [e.1])).map (e.1 :: ·)
        else if e.2.isFile && Path.isSource ⟨[e.1]⟩ then [[e.1]]
        else []

theorem mem_waysBelow_succ (hd : IsRegular d) {levels : Nat} :
    ns ∈ waysBelow d (levels + 1) place ↔ ∃ n r, d.get? (place ++ [n]) = some r ∧
      n.isExcluded = false ∧
      (r.isFolder = true ∧ (∃ ms ∈ waysBelow d levels (place ++ [n]), n :: ms = ns) ∨
        r.isFile = true ∧ Path.isSource ⟨[n]⟩ = true ∧ ns = [n]) := by
  rw [waysBelow, List.mem_flatMap]
  have hone : ∀ e : Name × Record, ns ∈ (if e.2.isFolder then
      (waysBelow d levels (place ++ [e.1])).map (e.1 :: ·)
      else if e.2.isFile && Path.isSource ⟨[e.1]⟩ then [[e.1]] else []) ↔
        e.2.isFolder = true ∧ (∃ ms ∈ waysBelow d levels (place ++ [e.1]), e.1 :: ms = ns) ∨
        e.2.isFile = true ∧ Path.isSource ⟨[e.1]⟩ = true ∧ ns = [e.1] := by
    rintro ⟨n, _ | _ | _, t⟩ <;> simp [Record.isFolder, Record.isFile]
  simp only [hone, List.mem_filter, hd.mem_children, Bool.not_eq_true', Prod.exists, and_assoc]

theorem mem_waysBelow (hd : IsRegular d) {levels : Nat} :
    ns ∈ waysBelow d levels place ↔ ns.length ≤ levels ∧ IsSourceFile d place ns := by
  -- a way is an entry of the folder, or one of a folder in it with a way below that
  induction levels generalizing place ns with
  | zero =>
      rw [waysBelow]
      refine ⟨nofun, fun ⟨hlen, h⟩ => ?_⟩
      exact absurd (List.length_eq_zero_iff.mp (Nat.le_zero.mp hlen)) h.ne_nil
  | succ levels ih =>
      rw [mem_waysBelow_succ hd]
      constructor
      · rintro ⟨n, r, hr, hv, ⟨_, ms, hms, rfl⟩ | ⟨hf, hs, rfl⟩⟩
        · obtain ⟨hlen, h⟩ := ih.mp hms
          exact ⟨Nat.succ_le_succ hlen, h.cons hv⟩
        · have hn := (hd.names hr n (by simp)).proper
          have hscript := (Name.isSource_iff hn (isExcluded_iff.mp hv).1).mp hs
          exact ⟨by simp, ⟨r, hr, hf⟩, by simpa using isExcluded_iff.mp hv, n, rfl, hscript⟩
      · rintro ⟨hlen, h⟩
        obtain ⟨n, ms, rfl⟩ := List.exists_cons_of_ne_nil h.ne_nil
        have hv := isExcluded_iff.mpr (h.visible n List.mem_cons_self)
        obtain ⟨r, hr, hf⟩ := h.file
        by_cases hms : ms = []
        · subst hms
          obtain ⟨m, hm, hs⟩ := h.script
          cases hm
          have hn := h.names hd n List.mem_cons_self
          have hsource := (Name.isSource_iff hn (isExcluded_iff.mp hv).1).mpr hs
          exact ⟨n, r, hr, hv, .inr ⟨hf, hsource, rfl⟩⟩
        · rw [show place ++ n :: ms = (place ++ [n]) ++ ms by simp] at hr
          obtain ⟨t, hfolder⟩ := found?_eq_some.mp (hd.folder_above (found?_of_get? hr) hms)
          have hbelow := ih.mpr ⟨Nat.le_of_succ_le_succ hlen, h.tail hms⟩
          exact ⟨n, _, hfolder, hv, .inl ⟨rfl, ms, hbelow, rfl⟩⟩

theorem ordered_waysBelow (hd : IsRegular d) (levels : Nat) (place : Place) :
    (waysBelow d levels place).Pairwise fun as bs => as.map Text.bytes < bs.map Text.bytes := by
  induction levels generalizing place with
  | zero => exact .nil
  | succ levels ih =>
      rw [waysBelow, List.pairwise_flatMap]
      constructor
      · intro e _
        split
        · exact List.pairwise_map.mpr ((ih _).imp fun h => List.cons_lt_cons_iff.mpr (.inr ⟨rfl, h⟩))
        · split
          · exact List.pairwise_singleton ..
          · exact .nil
      · -- the first names decide
        have hhead : ∀ (e : Name × Record) (as : List Name), as ∈ (if e.2.isFolder then
            (waysBelow d levels (place ++ [e.1])).map (e.1 :: ·)
            else if e.2.isFile && Path.isSource ⟨[e.1]⟩ then [[e.1]] else []) →
              ∃ bs, as = e.1 :: bs := by
          intro e as h
          split at h
          · obtain ⟨bs, _, rfl⟩ := List.mem_map.mp h
            exact ⟨bs, rfl⟩
          · split at h
            · exact ⟨[], List.mem_singleton.mp h⟩
            · cases h
        refine ((hd.ordered_children place).filter _).imp fun {e e'} hlt as has bs hbs => ?_
        obtain ⟨as, rfl⟩ := hhead e as has
        obtain ⟨bs, rfl⟩ := hhead e' bs hbs
        exact List.cons_lt_cons_iff.mpr (.inl hlt)

theorem filesBelow_eq (hd : IsRegular d) (levels : Nat) {as : List Name} {path : Path}
    (has : ∀ n ∈ as, n.IsProper)
    (hp : path = root ∧ as = [] ∨ path = root.join ⟨as⟩ ∧ as ≠ []) :
    filesBelow d levels (R ++ as) path =
      (waysBelow d levels (R ++ as)).map fun ns => root.join ⟨as ++ ns⟩ := by
  induction levels generalizing as path with
  | zero => rfl
  | succ levels ih =>
      rw [filesBelow, waysBelow, List.map_flatMap]
      refine List.flatMap_congr fun e he => ?_
      have hr := hd.mem_children.mp (List.mem_filter.mp he).1
      have hn : e.1.IsProper := (hd.names hr e.1 (by simp)).proper
      have hnames : ∀ n ∈ as ++ [e.1], n.IsProper := by
        simpa [or_imp, forall_and] using And.intro has hn
      have hhere : path.child e.1 = root.join ⟨as ++ [e.1]⟩ := by
        rcases hp with ⟨rfl, rfl⟩ | ⟨rfl, hne⟩
        · exact Inside.child_root hn
        · exact Inside.child_join hne has hn
      dsimp only
      rw [hhere, isSource_join root hnames]
      split
      · rw [List.append_assoc, ih hnames (.inr ⟨rfl, by simp⟩), List.map_map]
        simp
      · split
        · rfl
        · rfl

theorem exists_sourceList (hd : IsRegular d) (hR : d.FolderAt root R) :
    ∃ F, IsSourceList d R F ∧ ∀ limit, files d root limit =
      ⟨(F.take limit).map (root.join ⟨·⟩), decide (limit < F.length)⟩ := by
  refine ⟨waysBelow d (levelsOf d) R, ⟨fun {ns} => ?_, ordered_waysBelow hd _ _⟩, fun limit => ?_⟩
  · rw [mem_waysBelow hd, and_iff_right_iff_imp]
    intro h
    obtain ⟨r, hr, _⟩ := h.file
    have hlen := length_le_of_mem (mem_of_get? (by simp [h.ne_nil]) hr)
    rw [List.length_append] at hlen
    exact Nat.le_succ_of_le ((Nat.le_add_left ..).trans hlen)
  · have hall : filesBelow d (levelsOf d) (R ++ []) root =
        (waysBelow d (levelsOf d) (R ++ [])).map fun ns => root.join ⟨[] ++ ns⟩ :=
      filesBelow_eq hd (levelsOf d) nofun (.inl ⟨rfl, rfl⟩)
    rw [List.append_nil] at hall
    rw [files, allFiles_eq hR, hall, List.length_map, List.map_take]
    rfl

end Source

end SourceAtlas
