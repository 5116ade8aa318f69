import SourceAtlas.Proofs.Disk.Places

namespace SourceAtlas.Disk

open Work SourceAtlas.Path

def descend (a : Place) (n : Name) : Place :=
  if n = "" ∨ n = "." then a else if n = ".." then a.dropLast else a ++ [n]

def landing (a : Place) (ns : List Name) : Place := ns.foldl descend a

def stops (a : Place) : List Name → List Place
  | [] => [a]
  | n :: ns => a :: stops (descend a n) ns

theorem descend_idle {n : Name} (h : isStep n = false) (a : Place) : descend a n = a := by
  refine if_pos ?_
  by_contra hn
  simp only [not_or] at hn
  simp [isStep, hn.1, hn.2] at h

theorem descend_name {n : Name} (h : IsName n) (a : Place) : descend a n = a ++ [n] := by
  rw [descend, if_neg h.1, if_neg h.2.1]

theorem IsName.isStep {n : Name} (h : IsName n) : isStep n = true := by
  have hn := h.1
  simp only [not_or] at hn
  simp [Path.isStep, hn.1, hn.2]

theorem mem_stops_idle {ns : List Name} (h : ∀ n ∈ ns, isStep n = false) {a q : Place}
    (hq : q ∈ stops a ns) : q = a := by
  induction ns with
  | nil => exact List.mem_singleton.mp hq
  | cons n ns ih =>
      rw [stops, descend_idle (h n (by simp))] at hq
      rcases List.mem_cons.mp hq with hq | hq
      · exact hq
      · exact ih (fun m hm => h m (.tail _ hm)) hq

theorem self_mem_stops (a : Place) (ns : List Name) : a ∈ stops a ns := by
  cases ns <;> simp [stops]

theorem landing_concat {n : Name} (h : IsName n) (a : Place) (ns : List Name) :
    landing a (ns ++ [n]) = landing a ns ++ [n] := by
  rw [landing, List.foldl_append]
  exact descend_name h _

theorem landing_mem_stops (a : Place) (ns : List Name) : landing a ns ∈ stops a ns := by
  induction ns generalizing a with
  | nil => exact self_mem_stops a []
  | cons n ns ih => exact .tail _ (ih (descend a n))

theorem stops_append (a : Place) (as : List Name) (n : Name) (ms : List Name) :
    stops a (as ++ n :: ms) = stops a as ++ stops (descend (landing a as) n) ms := by
  induction as generalizing a with
  | nil => rfl
  | cons m as ih => rw [List.cons_append, stops, ih, stops, List.cons_append]; rfl

theorem mem_stops_part {a q : Place} {as : List Name} (h : q ∈ stops a as) (ms : List Name) :
    q ∈ stops a (as ++ ms) := by
  cases ms with
  | nil => rwa [List.append_nil]
  | cons n ms =>
      rw [stops_append]
      exact List.mem_append_left _ h

variable {d d' : Disk} {deep : Bool} {k : Nat} {a T : Place} {p : Path}
  {as bs ns ms tail : List Name} {m n : Name}

def IsOpen (d : Disk) (a : Place) (ns : List Name) : Prop :=
  ∀ q ∈ stops a ns, d.found? q = none ∨ d.found? q = some .folder

def Stands (d : Disk) (a : Place) (ns : List Name) : Prop :=
  ∀ q ∈ stops a ns, d.found? q = some .folder

theorem IsOpen.part (ms : List Name) (h : d.IsOpen a (as ++ ms)) : d.IsOpen a as :=
  fun q hq => h q (mem_stops_part hq ms)

theorem Stands.extend (hx : Extends d d') (h : d.Stands a ns) : d'.Stands a ns :=
  fun q hq => hx.folder (h q hq)

theorem Stands.landing (h : d.Stands a ns) : d.found? (landing a ns) = some .folder :=
  h _ (landing_mem_stops a ns)

theorem stands_append : d.Stands a (as ++ n :: ms) ↔
    d.Stands a as ∧ d.Stands (descend (Disk.landing a as) n) ms := by
  rw [Stands, stops_append]
  exact List.forall_mem_append

theorem stands_idle (ha : d.found? a = some .folder) (h : ∀ n ∈ ns, isStep n = false) :
    d.Stands a ns := fun q hq => by rwa [mem_stops_idle h hq]

theorem follow_descend (hn : ¬ maxNameBytes < n.utf8ByteSize)
    (hf : d.found? (descend a n) = some .folder) (ms : List Name) :
    d.follow deep k a (n :: ms) = d.follow deep k (descend a n) ms := by
  unfold descend at *
  split_ifs at * with hi hu
  · exact follow_idle hi
  · rw [hu, follow_up]
  · exact follow_enter ⟨hi, hu, hn⟩ hf

theorem isName_of_free (ht : IsTree d) (hn : ¬ maxNameBytes < n.utf8ByteSize)
    (ha : d.found? a = some .folder) (hf : d.found? (descend a n) = none) : IsName n := by
  unfold descend at hf
  split_ifs at hf with hi hu
  · rw [ha] at hf
    cases hf
  · rw [ht.around ha] at hf
    cases hf
  · exact ⟨hi, hu, hn⟩

theorem follow_stands (hn : ∀ n ∈ as, ¬ maxNameBytes < n.utf8ByteSize) (h : d.Stands a as)
    (ms : List Name) : d.follow deep k a (as ++ ms) = d.follow deep k (landing a as) ms := by
  induction as generalizing a with
  | nil => rfl
  | cons m as ih =>
      obtain ⟨_, hs⟩ := List.forall_mem_cons.mp h
      rw [List.cons_append, follow_descend (hn m (by simp)) (hs _ (self_mem_stops _ _)),
        ih (fun x hx => hn x (.tail _ hx)) hs]
      rfl

theorem follow_gap (ht : IsTree d) (hn : ∀ n ∈ as, ¬ maxNameBytes < n.utf8ByteSize)
    (ha : d.found? a = some .folder) (ho : d.IsOpen a as) (hs : ¬ d.Stands a as)
    (hm : ∃ m ∈ ms, m ≠ "") : d.follow deep k a (as ++ ms) = .error .notFound := by
  induction as generalizing a with
  | nil => exact absurd (fun q hq => by rwa [List.mem_singleton.mp hq]) hs
  | cons n as ih =>
      obtain ⟨_, ho⟩ := List.forall_mem_cons.mp ho
      have hnn := hn n (by simp)
      rw [List.cons_append]
      rcases ho _ (self_mem_stops _ _) with hfree | hfolder
      · have hname := isName_of_free ht hnn ha hfree
        rw [descend_name hname] at hfree
        rw [follow_missing hname (found?_eq_none.mp hfree), if_neg]
        obtain ⟨m, hm, hne⟩ := hm
        exact fun hall => hne (by simpa using List.all_eq_true.mp hall m (by simp [hm]))
      · rw [follow_descend hnn hfolder]
        exact ih (fun x hx => hn x (.tail _ hx)) hfolder ho
          fun h => hs (List.forall_mem_cons.mpr ⟨ha, h⟩)

structure EndsIn (as : List Name) (n : Name) (tail : List Name) : Prop where
  relative : isAbsolute ⟨as ++ n :: tail⟩ = false
  clean : IsClean ⟨as ++ n :: tail⟩
  short : ∀ m ∈ as ++ n :: tail, ¬ maxNameBytes < m.utf8ByteSize
  step : isStep n = true
  rest : ∀ m ∈ tail, m = ""

structure Opened (d : Disk) (T : Place) (ns : List Name) (d' : Disk) : Prop where
  tree : IsTree d'
  grown : Extends d d'
  stands : d'.Stands T ns
  only : ∀ q, d'.found? q = d.found? q ∨ d'.found? q = some .folder ∧ q ∈ stops T ns

theorem isStep_empty {ms : List Name} (h : ∀ m ∈ ms, m = "") : ∀ m ∈ ms, isStep m = false :=
  fun m hm => by rw [h m hm]; rfl

theorem exists_last_step (ns : List Name) : (∀ n ∈ ns, isStep n = false) ∨
    ∃ bs m idle, ns = bs ++ m :: idle ∧ isStep m = true ∧ ∀ x ∈ idle, isStep x = false := by
  induction ns using List.reverseRecOn with
  | nil => exact .inl nofun
  | append_singleton ns n ih =>
      cases hn : isStep n with
      | true => exact .inr ⟨ns, n, [], by simp, hn, nofun⟩
      | false =>
          rcases ih with hi | ⟨bs, m, idle, rfl, hm, hi⟩
          · refine .inl fun x hx => ?_
            rcases List.mem_append.mp hx with hx | hx
            · exact hi x hx
            · rwa [List.mem_singleton.mp hx]
          · refine .inr ⟨bs, m, idle ++ [n], by simp, hm, fun x hx => ?_⟩
            rcases List.mem_append.mp hx with hx | hx
            · exact hi x hx
            · rwa [List.mem_singleton.mp hx]

theorem EndsIn.part {idle : List Name} (h : EndsIn (bs ++ m :: idle) n tail)
    (hm : isStep m = true) : EndsIn bs m [] where
  relative := isAbsolute_part (idle ++ n :: tail) (by simpa using h.relative)
  clean := by
    have := h.clean
    simp only [IsClean, List.any_append, List.any_cons, List.any_nil, Bool.or_eq_false_iff,
      Bool.or_false] at this ⊢
    exact ⟨this.1.1, this.1.2.1⟩
  short := fun x hx => h.short x (by simp at hx ⊢; tauto)
  step := hm
  rest := nofun

section Making

variable (ht : IsTree d) (hT : d.FolderAt p T)
include ht hT

theorem locate_stands (hns : ns ≠ []) (ha : isAbsolute ⟨as ++ ns⟩ = false)
    (hc : IsClean ⟨as ++ ns⟩) (hn : ∀ m ∈ as, ¬ maxNameBytes < m.utf8ByteSize)
    (hs : d.Stands T as) :
    ∃ k, ∀ deep, d.locate deep (p.join ⟨as ++ ns⟩) = d.follow deep k (landing T as) ns := by
  obtain ⟨k, _, hl⟩ := hT.locate_join ht (.refl d)
  refine ⟨k, fun deep => ?_⟩
  rw [hl _ ha (by simp [hns]) hc, follow_stands hn hs]

theorem folderAt_stands (hns : ns ≠ []) (ha : isAbsolute ⟨ns⟩ = false) (hc : IsClean ⟨ns⟩)
    (hn : ∀ m ∈ ns, ¬ maxNameBytes < m.utf8ByteSize) (hs : d.Stands T ns) :
    d.FolderAt (p.join ⟨ns⟩) (landing T ns) := by
  obtain ⟨k, _, hl⟩ := hT.locate_join ht (.refl d)
  obtain ⟨t, hf⟩ := found?_eq_some.mp hs.landing
  have hw := hl _ ha hns hc true
  have hrest : d.follow true k T (ns ++ []) = d.follow true k (landing T ns) [] :=
    follow_stands hn hs []
  rw [List.append_nil] at hrest
  rw [hrest, follow_nil, hf] at hw
  exact ⟨t, stat_eq_ok.mpr hw⟩

theorem makeOr_stands (h : EndsIn as n tail) (ho : d.IsOpen T (as ++ n :: tail))
    (hs : d.Stands T as) (missing : Edit Unit) :
    ∃ d', (makeOr (p.join ⟨as ++ n :: tail⟩) missing).run d = (.ok (), d') ∧
      Opened d T (as ++ n :: tail) d' := by
  have hlast : descend (landing T as) n ∈ stops T (as ++ n :: tail) := by
    rw [stops_append]
    exact List.mem_append_right _ (self_mem_stops _ _)
  have hrest : ∀ {d' : Disk}, d'.found? (descend (landing T as) n) = some .folder →
      d'.Stands (descend (landing T as) n) tail := fun hf =>
    stands_idle hf (isStep_empty h.rest)
  -- the last name of the way is free, or there is a folder already
  rcases ho _ hlast with hfree | hfolder
  · have hname := isName_of_free ht (h.short n (by simp)) hs.landing hfree
    obtain ⟨k, hl⟩ := locate_stands ht hT (List.cons_ne_nil n tail) h.relative h.clean
      (fun m hm => h.short m (List.mem_append_left _ hm)) hs
    have hd := descend_name hname (landing T as)
    rw [hd] at hfree hlast hrest
    have hq : landing T as ++ [n] ≠ [] := by simp
    have hget := found?_eq_none.mp hfree
    have hspot : d.locate false (p.join ⟨as ++ n :: tail⟩) =
        .ok ⟨landing T as ++ [n], none, !tail.isEmpty⟩ := by
      rw [hl, follow_missing hname hget, if_pos]
      exact List.all_eq_true.mpr fun m hm => by rw [h.rest m hm]; rfl
    have hx : Extends d (d.put (landing T as ++ [n]) .folder) :=
      .put hq hget fun _ => Entry.noConfusion
    have hput := found?_put_self (d := d) (e := .folder) hq
    refine ⟨_, by rw [makeOr_run, hspot], ht.put hq hget ?_, hx, ?_, ?_⟩
    · rw [List.dropLast_concat]
      exact hs.landing
    · refine stands_append.mpr ⟨hs.extend hx, ?_⟩
      rw [hd]
      exact hrest hput
    · intro q
      by_cases hqn : q = landing T as ++ [n]
      · exact .inr ⟨hqn ▸ hput, hqn ▸ hlast⟩
      · exact .inl (found?_put_of_ne hqn)
  · have hall : d.Stands T (as ++ n :: tail) := stands_append.mpr ⟨hs, hrest hfolder⟩
    have hat := folderAt_stands ht hT (by simp) h.relative h.clean h.short hall
    exact ⟨d, makeOr_of_isFolder (isFolder_iff.mpr ⟨_, hat⟩) missing, ht, .refl d, hall,
      fun q => .inl rfl⟩

theorem makeOr_gap (h : EndsIn as n tail) (ho : d.IsOpen T as) (hs : ¬ d.Stands T as)
    (missing : Edit Unit) :
    (makeOr (p.join ⟨as ++ n :: tail⟩) missing).run d = missing.run d := by
  obtain ⟨k, _, hl⟩ := hT.locate_join ht (.refl d)
  have hne : n ≠ "" := by
    rintro rfl
    cases h.step
  rw [makeOr_run, hl _ h.relative (by simp) h.clean,
    follow_gap ht (fun m hm => h.short m (List.mem_append_left _ hm)) hT.folder ho hs
      ⟨n, by simp, hne⟩]

end Making

theorem IsOpen.opened (h : d.IsOpen T ns) (ho : Opened d T ms d') : d'.IsOpen T ns := by
  intro q hq
  rcases ho.only q with he | ⟨hf, _⟩
  · rw [he]
    exact h q hq
  · exact .inr hf

theorem go_open {j : Nat} (ht : IsTree d) (hT : d.FolderAt p T) (h : EndsIn as n tail)
    (ho : d.IsOpen T (as ++ n :: tail)) (hj : as.length < j) :
    ∃ d', (makeFolders.go j (p.join ⟨as ++ n :: tail⟩)).run d = (.ok (), d') ∧
      Opened d T (as ++ n :: tail) d' := by
  -- from the folder asked for up to the last that stands; the others are made on the way back
  induction j generalizing as n tail with
  | zero => omega
  | succ j ih =>
      rw [makeFolders.go]
      by_cases hs : d.Stands T as
      · exact makeOr_stands ht hT h ho hs _
      · rw [makeOr_gap ht hT h (ho.part _) hs]
        obtain ⟨bs, m, idle, rfl, hm, hi⟩ :=
          (exists_last_step as).resolve_left fun hi => hs (stands_idle hT.folder hi)
        have hp := (folderAt_iff.mp hT).1.1.nonempty
        have hb := h.part hm
        have hq := isEmpty_join hp hb.relative (by simp)
        have hopen : d.IsOpen T (bs ++ [m]) :=
          IsOpen.part (idle ++ n :: tail) (by simpa using ho)
        obtain ⟨d₁, hr, h₁⟩ := ih hb hopen (by simp at hj; omega)
        have hs₁ : d₁.Stands T (bs ++ m :: idle) := by
          obtain ⟨hsb, hsm⟩ := stands_append.mp h₁.stands
          exact stands_append.mpr ⟨hsb, stands_idle hsm.landing hi⟩
        obtain ⟨d₂, hr₂, h₂⟩ := makeOr_stands h₁.tree (hT.extend h₁.grown) h (ho.opened h₁) hs₁
          (throw .notFound)
        refine ⟨d₂, ?_, h₂.tree, h₁.grown.trans h₂.grown, h₂.stands, fun q => ?_⟩
        · rw [parent_join_step hp h.relative hm hi h.step (isStep_empty h.rest)]
          dsimp only
          rw [if_neg (by simp [hq]), run_bind, hr]
          exact hr₂
        · rcases h₂.only q with he | hf
          · rcases h₁.only q with he₁ | ⟨hf, hq⟩
            · exact .inl (he.trans he₁)
            · exact .inr ⟨he.trans hf, by simpa using mem_stops_part hq (idle ++ n :: tail)⟩
          · exact .inr hf

theorem makeFolders_open (ht : IsTree d) (hT : d.FolderAt p T) (h : EndsIn as n tail)
    (ho : d.IsOpen T (as ++ n :: tail)) :
    ∃ d', (makeFolders (p.join ⟨as ++ n :: tail⟩)).run d = (.ok (), d') ∧
      Opened d T (as ++ n :: tail) d' := by
  have hp := (folderAt_iff.mp hT).1.1.nonempty
  rw [makeFolders, if_neg (by simp [isEmpty_join hp h.relative (by simp)])]
  refine go_open ht hT h ho ?_
  rw [segments_join h.relative, List.length_append, List.length_append, List.length_cons]
  omega

theorem writeBytes_stands (ht : IsTree d) (hT : d.FolderAt p T) (h : EndsIn as n [])
    (hn : IsName n) (hs : d.Stands T as)
    (hq : ∀ e, d.found? (landing T as ++ [n]) = some e → ∃ i b x, e = .file i b x)
    (b : ByteArray) : ∃ d' i x, (writeBytes (p.join ⟨as ++ [n]⟩) b).run d = (.ok (), d') ∧
      IsTree d' ∧ Extends d d' ∧ d'.found? (landing T as ++ [n]) = some (.file i b x) ∧
      ∀ q, q ≠ landing T as ++ [n] → d'.found? q = d.found? q := by
  obtain ⟨k, hl⟩ := locate_stands ht hT (List.cons_ne_nil n []) h.relative h.clean
    (fun m hm => h.short m (List.mem_append_left _ hm)) hs
  have hfree : d.found? (landing T as ++ [n]) ≠ some .folder := by
    intro hf
    obtain ⟨_, _, _, he⟩ := hq _ hf
    cases he
  have hspot : d.locate true (p.join ⟨as ++ [n]⟩) =
      .ok ⟨landing T as ++ [n], d.get? (landing T as ++ [n]), false⟩ := by
    rw [hl]
    rcases hf : d.get? (landing T as ++ [n]) with _ | ⟨e, t⟩
    · exact follow_missing hn hf
    · obtain ⟨i, b', x, rfl⟩ := hq e (found?_of_get? hf)
      exact follow_file hn hf
  obtain ⟨d', i, x, hr, hfiled, hget⟩ := writeBytes_lands ht hspot hfree b
  have hx := openWith_extends d (p.join ⟨as ++ [n]⟩) fun _ => some b
  rw [← writeBytes_snd, hr] at hx
  exact ⟨d', i, x, hr, hfiled.tree, hx, found?_of_get? hget, fun _ => hfiled.other⟩

end SourceAtlas.Disk
