import SourceAtlas.Proofs.Archive.Confinement
import SourceAtlas.Proofs.Disk.Folders

namespace SourceAtlas.Archive

open Disk Work

theorem descend_below {T r : Place} {n : Name} {ns : List Name}
    (h : (depthOver (n :: ns) r.length).isSome = true) :
    descend (T ++ r) n = T ++ descend r n ∧ (depthOver ns (descend r n).length).isSome = true := by
  by_cases hi : n = "" ∨ n = "."
  · rw [depthOver_idle hi] at h
    rw [descend, if_pos hi, descend, if_pos hi]
    exact ⟨rfl, h⟩
  · rw [descend, if_neg hi, descend, if_neg hi]
    by_cases hu : n = ".."
    · subst hu
      rw [if_pos rfl, if_pos rfl]
      rcases List.eq_nil_or_concat r with rfl | ⟨r, m, rfl⟩
      · rw [List.length_nil, depthOver_up_zero] at h
        cases h
      · rw [List.length_concat, depthOver_up] at h
        rw [List.concat_eq_append, ← List.append_assoc, List.dropLast_concat, List.dropLast_concat]
        exact ⟨rfl, h⟩
    · rw [depthOver_name hi hu] at h
      rw [if_neg hu, if_neg hu, List.append_assoc, List.length_append]
      exact ⟨rfl, h⟩

theorem stops_below {T r : Place} {ns : List Name} (h : (depthOver ns r.length).isSome = true) :
    stops (T ++ r) ns = (stops r ns).map (T ++ ·) := by
  induction ns generalizing r with
  | nil => rfl
  | cons n ns ih =>
      obtain ⟨hd, hs⟩ := descend_below (T := T) h
      rw [stops, hd, ih hs]
      rfl

theorem landing_below {T r : Place} {ns : List Name} (h : (depthOver ns r.length).isSome = true) :
    landing (T ++ r) ns = T ++ landing r ns := by
  induction ns generalizing r with
  | nil => rfl
  | cons n ns ih =>
      obtain ⟨hd, hs⟩ := descend_below (T := T) h
      rw [landing, List.foldl_cons, hd]
      exact ih hs

namespace Entry

def way (e : Entry) : List Name := if e.isFolder then e.segments else e.segments.dropLast

/-- No name is too long; the path of a file ends in a name, and that of a folder in a step if there
is any in it. -/
structure IsNamed (e : Entry) : Prop where
  short : ∀ n ∈ e.segments, ¬ maxNameBytes < n.utf8ByteSize
  file : e.isFolder = false → ∃ as n, e.segments = as ++ [n] ∧ IsName n
  folder : e.isFolder = true → (∀ n ∈ e.segments, Path.isStep n = false) ∨
    ∃ as n tail, e.segments = as ++ n :: tail ∧ Path.isStep n = true ∧ ∀ m ∈ tail, m = ""

namespace IsKept

variable {e : Entry} {as tail : List Name} {n : Name}

theorem isClean (h : e.IsKept) : IsClean ⟨e.segments⟩ :=
  isClean_of fun _ hn hc => h.clean (Path.mem_text hn hc)

theorem endsIn (h : e.IsKept) (hn : e.IsNamed) (hs : e.segments = as ++ n :: tail)
    (hstep : Path.isStep n = true) (ht : ∀ m ∈ tail, m = "") : EndsIn as n tail where
  relative := hs ▸ (isUnpacked_iff.mp h.unpacked).2.1
  clean := hs ▸ h.isClean
  short := hs ▸ hn.short
  step := hstep
  rest := ht

theorem depth (h : e.IsKept) (hs : e.segments = as ++ tail) :
    (depthOver as 0).isSome = true := by
  have hd := (isUnpacked_iff.mp h.unpacked).2.2.1
  dsimp only at hd
  rw [hs, depthOver_append] at hd
  cases ha : depthOver as 0 with
  | none =>
      rw [ha] at hd
      cases hd
  | some => rfl

theorem depth_way (h : e.IsKept) : (depthOver e.way 0).isSome = true := by
  unfold way
  split
  · exact h.depth (List.append_nil _).symm
  · exact h.depth (List.dropLast_concat_getLast e.segments_ne_nil).symm

end IsKept

end Entry

/-- The archive is without the damage that the reader of its directory does not tell of: nothing is
cut off, every content is sound, every name can be given, and no file is in the place of a folder. -/
structure IsTidy (b : ByteArray) (es : List Entry) : Prop where
  present : ∀ e ∈ es, contentOf b e ≠ .error .cutOff
  named : ∀ e ∈ es, e.IsKept → e.IsNamed
  sound : ∀ e ∈ es, e.IsKept → e.isFolder = false → ∀ c, contentOf b e = .ok c → c.sound = true
  apart : ∀ e ∈ es, e.IsKept → ∀ e' ∈ es, e'.IsKept → e'.isFolder = false →
    landing [] e'.segments ∉ stops [] e.way

structure Laid (es : List Entry) (target : Path) (T : Place) (d : Disk) : Prop where
  tree : IsTree d
  folder : d.FolderAt target T
  only : ∀ ns, ns ≠ [] → ∀ x, d.found? (T ++ ns) = some x →
    (x = .folder ∧ ∃ e ∈ es, e.IsKept ∧ ns ∈ stops [] e.way) ∨
    ((∃ i b r, x = .file i b r) ∧ ∃ e ∈ es, e.IsKept ∧ e.isFolder = false ∧
      ns = landing [] e.segments)

section Unpacking

variable {d d' : Disk} {es : List Entry} {e : Entry} {target : Path} {T : Place} {b : ByteArray}
  {as tail : List Name} {n : Name}

theorem mem_stops_way (he : e.IsKept) {q : Place} :
    q ∈ stops T e.way ↔ ∃ ns ∈ stops [] e.way, T ++ ns = q := by
  have hs := stops_below (T := T) (r := []) he.depth_way
  rw [List.append_nil] at hs
  rw [hs, List.mem_map]

theorem Laid.isOpen (h : Laid es target T d) (ht : IsTidy b es) (hm : e ∈ es) (he : e.IsKept) :
    d.IsOpen T e.way := by
  intro q hq
  obtain ⟨ns, hns, rfl⟩ := (mem_stops_way he).mp hq
  by_cases hnil : ns = []
  · rw [hnil, List.append_nil]
    exact .inr h.folder.folder
  · rcases hx : d.found? (T ++ ns) with _ | x
    · exact .inl rfl
    · rcases h.only ns hnil x hx with ⟨rfl, _⟩ | ⟨_, e', hm', he', hf', rfl⟩
      · exact .inr rfl
      · exact absurd hns (ht.apart e hm he e' hm' he' hf')

theorem Laid.opened (h : Laid es target T d) (hm : e ∈ es) (he : e.IsKept)
    (ho : Opened d T e.way d') : Laid es target T d' where
  tree := ho.tree
  folder := h.folder.extend ho.grown
  only := by
    intro ns hnil x hx
    rcases ho.only (T ++ ns) with hd | ⟨hf, hq⟩
    · exact h.only ns hnil x (hd ▸ hx)
    · obtain ⟨ms, hms, heq⟩ := (mem_stops_way he).mp hq
      rw [hf] at hx
      cases hx
      exact .inl ⟨rfl, e, hm, he, List.append_cancel_left heq ▸ hms⟩

theorem makeAround_open (archive : Path) (ht : IsTree d) (hT : d.FolderAt target T)
    (h : EndsIn as n []) (hn : IsName n) (ho : d.IsOpen T as) :
    ∃ d', (makeAround archive (target.join ⟨as ++ [n]⟩)).run d = (.ok (), d') ∧
      Opened d T as d' := by
  by_cases hs : d.Stands T as
  · obtain ⟨k, hl⟩ := locate_stands ht hT (List.cons_ne_nil n []) h.relative h.clean
      (fun m hm => h.short m (List.mem_append_left _ hm)) hs
    have hspot := (hl false).trans (follow_plain hn)
    exact ⟨d, makeAround_run archive ht hspot, ht, .refl d, hs, fun _ => .inl rfl⟩
  · obtain ⟨bs, m, idle, rfl, hm, hi⟩ :=
      (exists_last_step as).resolve_left fun hi => hs (stands_idle hT.folder hi)
    have hp := (folderAt_iff.mp hT).1.1.nonempty
    have hopen : d.IsOpen T (bs ++ [m]) := IsOpen.part idle (by simpa using ho)
    obtain ⟨d', hr, h'⟩ := makeFolders_open ht hT (h.part hm) hopen
    refine ⟨d', ?_, h'.tree, h'.grown, ?_, fun q => ?_⟩
    · rw [makeAround, Path.parent_join_step hp h.relative hm hi h.step nofun]
      dsimp only
      rw [run_edit, hr]
    · obtain ⟨hb, hl⟩ := stands_append.mp h'.stands
      exact stands_append.mpr ⟨hb, stands_idle hl.landing hi⟩
    · exact (h'.only q).imp id fun ⟨hf, hq⟩ => ⟨hf, by simpa using mem_stops_part hq idle⟩

section Entries

variable (ht : IsTidy b es) (hm : e ∈ es) (he : e.IsKept)
include ht hm he

theorem makeFolders_laid (hf : e.isFolder = true) (hd : Laid es target T d) :
    ∃ d', (makeFolders (target.join ⟨e.segments⟩)).run d = (.ok (), d') ∧
      Laid es target T d' := by
  have hn := ht.named e hm he
  have hway : e.way = e.segments := if_pos hf
  have hopen := hd.isOpen ht hm he
  rcases hn.folder hf with hi | ⟨as, n, tail, hs, hstep, htail⟩
  · have hrel := (isUnpacked_iff.mp he.unpacked).2.1
    have hat := folderAt_stands hd.tree hd.folder e.segments_ne_nil hrel he.isClean hn.short
      (stands_idle hd.folder.folder hi)
    exact ⟨d, makeFolders_of_isFolder (isFolder_iff.mpr ⟨_, hat⟩), hd⟩
  · rw [hs] at hway ⊢
    rw [hway] at hopen
    obtain ⟨d', hr, h'⟩ :=
      makeFolders_open hd.tree hd.folder (he.endsIn hn hs hstep htail) hopen
    exact ⟨d', hr, hd.opened hm he (hway ▸ h')⟩

theorem writeFile_laid (hf : e.isFolder = false) (hd : Laid es target T d) (archive : Path)
    (x : ByteArray) : ∃ d₁ d₂,
      (makeAround archive (target.join ⟨e.segments⟩)).run d = (.ok (), d₁) ∧
      (writeBytes (target.join ⟨e.segments⟩) x).run d₁ = (.ok (), d₂) ∧ Laid es target T d₂ := by
  have hn := ht.named e hm he
  have hopen := hd.isOpen ht hm he
  obtain ⟨as, n, hs, hname⟩ := hn.file hf
  have hway : e.way = as := by
    rw [Entry.way, hf, if_neg (by decide), hs, List.dropLast_concat]
  have hend := he.endsIn hn hs hname.isStep nofun
  rw [hway] at hopen
  obtain ⟨d₁, hr₁, h₁⟩ := makeAround_open archive hd.tree hd.folder hend hname hopen
  have hd₁ := hd.opened hm he (hway ▸ h₁)
  have hplace : landing T as ++ [n] = T ++ landing [] e.segments := by
    have h := landing_below (T := T) (r := []) (he.depth (List.append_nil e.segments).symm)
    rw [List.append_nil] at h
    rw [← h, hs, landing_concat hname]
  have hne : landing [] e.segments ≠ [] := by simp [hs, landing_concat hname]
  have hfree : ∀ y, d₁.found? (landing T as ++ [n]) = some y → ∃ i b r, y = .file i b r := by
    intro y hy
    rw [hplace] at hy
    rcases hd₁.only _ hne y hy with ⟨_, e', hm', he', hin⟩ | ⟨hfile, _⟩
    · exact absurd hin (ht.apart e' hm' he' e hm he hf)
    · exact hfile
  obtain ⟨d₂, i, r, hr₂, ht₂, hx₂, hf₂, ho₂⟩ :=
    writeBytes_stands hd₁.tree hd₁.folder hend hname h₁.stands hfree x
  refine ⟨d₁, d₂, hs ▸ hr₁, hs ▸ hr₂, ht₂, hd₁.folder.extend hx₂, fun ns hnil y hy => ?_⟩
  by_cases hq : T ++ ns = landing T as ++ [n]
  · rw [hq, hf₂] at hy
    cases hy
    refine .inr ⟨⟨i, x, r, rfl⟩, e, hm, he, hf, ?_⟩
    exact List.append_cancel_left (hq.trans hplace)
  · exact hd₁.only ns hnil y (ho₂ _ hq ▸ hy)

end Entries

end Unpacking

end SourceAtlas.Archive
