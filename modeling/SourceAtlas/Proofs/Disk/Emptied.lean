import SourceAtlas.Proofs.Disk.Replace

namespace SourceAtlas.Disk

open Work SourceAtlas.Path

variable {d d' : Disk} {p : Path} {T q : Place}

def IsBare (d : Disk) (T : Place) : Prop := ∀ q, T <+: q → q ≠ T → d.found? q = none

theorem get?_of_mem {r : Record} (hq : q ≠ []) (h : (q, r) ∈ d.records) :
    ∃ r', d.get? q = some r' := by
  have hlookup : ∀ l : List (Place × Record), (q, r) ∈ l → ∃ r', l.lookup q = some r' := by
    intro l hl
    induction l with
    | nil => cases hl
    | cons x l ih =>
        obtain ⟨q', r'⟩ := x
        rw [List.lookup_cons]
        cases hx : q == q' with
        | true => exact ⟨r', rfl⟩
        | false =>
            rcases List.mem_cons.mp hl with he | hl
            · cases he
              simp at hx
            · exact ih hl
  cases q with
  | nil => exact absurd rfl hq
  | cons n q => exact hlookup d.records h

theorem IsBare.children (h : d.IsBare T) : d.children T = [] := by
  rw [List.eq_nil_iff_forall_not_mem]
  rintro ⟨n, r⟩ hm
  obtain ⟨r', hr⟩ := get?_of_mem (by simp) (mem_children_iff.mp hm)
  have hnone := h (T ++ [n]) (List.prefix_append ..) (by simp)
  rw [found?_of_get? hr] at hnone
  cases hnone

theorem IsTree.mem_children (ht : IsTree d) {n : Name} {ms : Place} {e : Entry}
    (h : d.found? (T ++ n :: ms) = some e) : ∃ r, (n, r) ∈ d.children T := by
  have hn : ∃ e', d.found? (T ++ [n]) = some e' := by
    by_cases hms : ms = []
    · exact ⟨e, by rwa [hms] at h⟩
    · have he : T ++ n :: ms = (T ++ [n]) ++ ms := by simp
      exact ⟨.folder, ht.folder_above (he ▸ h) hms⟩
  obtain ⟨e', he'⟩ := hn
  obtain ⟨t, hr⟩ := found?_eq_some.mp he'
  exact ⟨_, mem_children_iff.mpr (mem_of_get? (by simp) hr)⟩

theorem IsTree.isBare (ht : IsTree d) (h : d.children T = []) : d.IsBare T := by
  rintro q ⟨ns, rfl⟩ hne
  obtain ⟨n, ms, rfl⟩ := List.exists_cons_of_ne_nil (l := ns) (by rintro rfl; simp at hne)
  by_contra hfound
  obtain ⟨e, he⟩ := Option.ne_none_iff_exists'.mp hfound
  obtain ⟨r, hr⟩ := ht.mem_children he
  rw [h] at hr
  cases hr

def dropAll (T : Place) (d : Disk) (inside : List (Name × Record)) : Disk :=
  inside.foldl (fun d x => d.drop (T ++ [x.1])) d

section DropAll

variable {inside : List (Name × Record)}

theorem dropAll_eq (T : Place) (d : Disk) (inside : List (Name × Record)) :
    ∃ rs, dropAll T d inside = { d with records := rs } := by
  induction inside generalizing d with
  | nil => exact ⟨d.records, rfl⟩
  | cons x l ih =>
      obtain ⟨rs, h⟩ := d.drop_eq (T ++ [x.1])
      obtain ⟨rs', h'⟩ := ih (d.drop (T ++ [x.1]))
      exact ⟨rs', h'.trans (by rw [h])⟩

theorem dropAll_base (d : Disk) : (dropAll T d inside).base = d.base := by
  obtain ⟨rs, h⟩ := dropAll_eq T d inside
  rw [h]

theorem dropAll_isTree (ht : IsTree d) : IsTree (dropAll T d inside) := by
  induction inside generalizing d with
  | nil => exact ht
  | cons x l ih => exact ih (ht.drop _)

theorem found?_dropAll_outside (h : ∀ x ∈ inside, ¬ T ++ [x.1] <+: q) :
    (dropAll T d inside).found? q = d.found? q := by
  induction inside generalizing d with
  | nil => rfl
  | cons x l ih =>
      exact (ih fun y hy => h y (.tail _ hy)).trans (found?_drop_of_outside (h x (by simp)))

theorem found?_dropAll_none (h : d.found? q = none) : (dropAll T d inside).found? q = none := by
  induction inside generalizing d with
  | nil => exact h
  | cons x l ih =>
      apply ih
      by_cases hx : T ++ [x.1] <+: q
      · exact found?_drop_below (by rintro rfl; simp at hx) hx
      · rwa [found?_drop_of_outside hx]

theorem found?_dropAll_inside {n : Name} {r : Record} (h : (n, r) ∈ inside) (hq : T ++ [n] <+: q) :
    (dropAll T d inside).found? q = none := by
  induction inside generalizing d with
  | nil => cases h
  | cons x l ih =>
      rcases List.mem_cons.mp h with rfl | h
      · have hne : q ≠ [] := by
          rintro rfl
          simp at hq
        have hgone : (d.drop (T ++ [n])).found? q = none := found?_drop_below hne hq
        show (dropAll T (d.drop (T ++ [n])) l).found? q = none
        exact found?_dropAll_none hgone
      · exact ih h

end DropAll

theorem forM_modify {α : Type} (f : α → Disk → Disk) (l : List α) (d : Disk) :
    (l.forM fun x => (modify (f x) : Edit Unit)).run d = (.ok (), l.foldl (fun d x => f x d) d) := by
  induction l generalizing d with
  | nil => rfl
  | cons x l ih =>
      show (modify (f x) >>= fun _ => l.forM fun x => (modify (f x) : Edit Unit)).run d = _
      rw [run_bind]
      exact ih (f x d)

structure Emptied (T : Place) (d d' : Disk) : Prop where
  tree : IsTree d'
  base : d'.base = d.base
  bare : d'.IsBare T
  other : ∀ {q}, ¬ (T <+: q ∧ q ≠ T) → d'.found? q = d.found? q

theorem emptied_dropAll (ht : IsTree d) (T : Place) :
    Emptied T d (dropAll T d (d.children T)) where
  tree := dropAll_isTree ht
  base := dropAll_base d
  bare := by
    rintro q ⟨ns, rfl⟩ hne
    obtain ⟨n, ms, rfl⟩ := List.exists_cons_of_ne_nil (l := ns) (by rintro rfl; simp at hne)
    rcases he : d.found? (T ++ n :: ms) with _ | e
    · exact found?_dropAll_none he
    · obtain ⟨r, hr⟩ := ht.mem_children he
      exact found?_dropAll_inside hr ⟨ms, by simp⟩
  other := by
    intro q hq
    refine found?_dropAll_outside fun x _ hx => hq ⟨(List.prefix_append ..).trans hx, ?_⟩
    rintro rfl
    have hl := hx.length_le
    rw [List.length_append, List.length_singleton] at hl
    omega

theorem query_run {α : Type} (f : Disk → Except Fault α) (d : Disk) :
    (query f).run d = match f d with
      | .ok a => (.ok a, d)
      | .error e => (.error e, d) := by
  rcases h : f d with _ | _ <;> simp only [query, run_bind, run_get, run_pure, run_throw, h]

theorem emptyFolder_run_of_exists (he : d.exists? p = true) : (emptyFolder p).run d =
    match d.stat p with
    | .error e => (.error e, d)
    | .ok (T, r) =>
        if r.isFolder then (.ok (), dropAll T d (d.children T)) else (.error .notFolder, d) := by
  rw [emptyFolder, run_bind, run_get]
  dsimp only
  rw [if_pos he, run_bind, query_run, canonical]
  rcases hs : d.stat p with e | ⟨T, r⟩
  · rfl
  · dsimp only [Except.map]
    rw [run_bind, query_run, list, hs]
    dsimp only [bind, Except.bind]
    cases r.isFolder with
    | false => rfl
    | true => exact forM_modify (fun x d => d.drop (T ++ [x.1])) (d.children T) d

theorem emptyFolder_run_of_missing (he : d.exists? p = false) :
    (emptyFolder p).run d = (makeFolders p).run d := by
  rw [emptyFolder, run_bind, run_get]
  dsimp only
  rw [if_neg (by simp [he])]

theorem emptied_of_exists (ht : IsTree d) (he : d.exists? p = true)
    (h : (emptyFolder p).run d = (.ok (), d')) : ∃ T, d.FolderAt p T ∧ Emptied T d d' := by
  rw [emptyFolder_run_of_exists he] at h
  rcases hs : d.stat p with e | ⟨T, ⟨_ | _ | _, t⟩⟩ <;> rw [hs] at h <;> cases h
  exact ⟨T, ⟨t, hs⟩, emptied_dropAll ht T⟩

theorem emptyFolder_of_folderAt (ht : IsTree d) (hT : d.FolderAt p T) :
    ∃ d', (emptyFolder p).run d = (.ok (), d') ∧ Emptied T d d' := by
  obtain ⟨t, hs⟩ := hT
  have he : d.exists? p = true := by
    rw [exists?, hs]
    rfl
  refine ⟨_, ?_, emptied_dropAll ht T⟩
  rw [emptyFolder_run_of_exists he, hs]
  rfl

theorem isFolder_of_missing (he : d.exists? p = false) : d.isFolder p = false := by
  unfold exists? at he
  unfold isFolder
  rcases hs : d.stat p with e | x
  · rfl
  · rw [hs] at he
    cases he

theorem makeOr_missing {missing : Edit Unit} (he : d.exists? p = false)
    (h : (makeOr p missing).run d = (.ok (), d')) :
    (∃ q sl, d.locate false p = .ok ⟨q, none, sl⟩ ∧ d' = d.put q .folder) ∨
      (d.locate false p = .error .notFound ∧ missing.run d = (.ok (), d')) := by
  rw [makeOr_run, isFolder_of_missing he] at h
  split at h
  · next q sl hl =>
      cases h
      exact .inl ⟨q, sl, hl, rfl⟩
  · cases h
  · next hl => exact .inr ⟨hl, h⟩
  · cases h

theorem makeOr_exists {missing : Edit Unit} (he : d.exists? p = true)
    (h : (makeOr p missing).run d = (.ok (), d')) : d' = d := by
  unfold exists? at he
  rcases hs : d.stat p with e | ⟨q, r⟩
  · rw [hs] at he
    cases he
  obtain ⟨hp, hw⟩ := locate_eq_ok.mp (stat_eq_ok.mp hs)
  obtain ⟨s, hw, hrec⟩ := hw.shallow
  have hl := locate_eq_ok.mpr ⟨hp, hw⟩
  obtain ⟨q', rec, sl⟩ := s
  have hsome : ∃ r', rec = some r' := by
    rcases hrec with hrec | ⟨p', t, hrec⟩
    · cases hrec
      exact ⟨r, rfl⟩
    · exact ⟨_, hrec⟩
  obtain ⟨r', rfl⟩ := hsome
  rw [makeOr_run, hl] at h
  dsimp only at h
  split at h
  · cases h
    rfl
  · cases h

theorem go_exists {k : Nat} (he : d.exists? p = true)
    (h : (makeFolders.go k p).run d = (.ok (), d')) : d' = d := by
  cases k with
  | zero => exact makeOr_exists he h
  | succ k => exact makeOr_exists he h

theorem bare_put (ht : IsTree d) {sl : Bool} (hl : d.locate false p = .ok ⟨q, none, sl⟩) :
    IsTree (d.put q .folder) ∧ (d.put q .folder).FolderAt p q ∧ (d.put q .folder).IsBare q := by
  obtain ⟨hq, hf⟩ := ht.free_spot hl
  have hnone := (free_of_locate hl).1
  refine ⟨ht.put hq hnone hf, folderAt_put (locate_deepen hl), ?_⟩
  rintro q' ⟨ns, rfl⟩ hne
  rw [found?_put_of_ne hne]
  by_contra hfound
  obtain ⟨e, he⟩ := Option.ne_none_iff_exists'.mp hfound
  have hns : ns ≠ [] := by
    rintro rfl
    simp at hne
  have := ht.folder_above he hns
  rw [found?_eq_none.mpr hnone] at this
  cases this

theorem follow_skip {deep : Bool} {k : Nat} {a : Place} {us ms : List Name}
    (h : ∀ n ∈ us, isStep n = false) : d.follow deep k a (us ++ ms) = d.follow deep k a ms := by
  induction us with
  | nil => rfl
  | cons n us ih =>
      have hn : n = "" ∨ n = "." := by
        by_contra hn
        rw [not_or] at hn
        have := h n (by simp)
        simp [isStep, hn.1, hn.2] at this
      rw [List.cons_append, follow_idle hn]
      exact ih fun m hm => h m (.tail _ hm)

theorem locate_in_bare {p' : Path} {us vs : List Name} {m : Name} (hT : d.FolderAt p' T)
    (hb : d.IsBare T) (hp : p.isEmpty = false) (hc : IsClean p)
    (hs : p.segments = p'.segments ++ (us ++ m :: vs)) (hm : isStep m = true) (hup : m ≠ "..")
    (hus : ∀ n ∈ us, isStep n = false) :
    (∃ sl, ∀ deep, d.locate deep p = .ok ⟨T ++ [m], none, sl⟩) ∨
      ∃ e, ∀ deep, d.locate deep p = .error e := by
  obtain ⟨⟨hstarts, hw⟩, hf⟩ := folderAt_iff.mp hT
  have hst : d.start p = d.start p' := start_front hstarts.nonempty hs
  obtain ⟨k, _, hfollow⟩ := hw.append hf
  have hlocate : ∀ deep, d.locate deep p = d.follow deep k T (m :: vs) := by
    intro deep
    rw [locate_of_starts ⟨hp, hc, hst ▸ hstarts.folder⟩, hst, hs, hfollow deep _ (by simp),
      follow_skip hus]
  have hidle : ¬ (m = "" ∨ m = ".") := by
    rintro (rfl | rfl) <;> cases hm
  by_cases hlong : maxNameBytes < m.utf8ByteSize
  · refine .inr ⟨.nameTooLong, fun deep => ?_⟩
    rw [hlocate, follow_cons, if_neg hidle, if_neg hup, if_pos hlong]
  · have hnone : d.get? (T ++ [m]) = none :=
      found?_eq_none.mp (hb _ (List.prefix_append ..) (by simp))
    by_cases hrest : vs.all (· == "") = true
    · refine .inl ⟨!vs.isEmpty, fun deep => ?_⟩
      rw [hlocate, follow_missing ⟨hidle, hup, hlong⟩ hnone, if_pos hrest]
    · refine .inr ⟨.notFound, fun deep => ?_⟩
      rw [hlocate, follow_missing ⟨hidle, hup, hlong⟩ hnone, if_neg hrest]

theorem isClean_of_locate {deep : Bool} (hp : p.isEmpty = false)
    (h : d.locate deep p = .error .notFound) : IsClean p := by
  by_contra hc
  rw [IsClean, Bool.not_eq_false] at hc
  rw [locate, hp, if_neg (by decide), if_pos hc] at h
  cases h

theorem missing_of_locate (h : ∀ q r, d.locate true p ≠ .ok ⟨q, some r, false⟩) :
    d.exists? p = false := by
  unfold exists?
  rcases hs : d.stat p with e | ⟨q, r⟩
  · rfl
  · exact absurd (stat_eq_ok.mp hs) (h q r)

theorem makeOr_bare (ht : IsTree d) (he : d.exists? p = false)
    (h : (makeOr p (throw .notFound)).run d = (.ok (), d')) :
    IsTree d' ∧ ∃ T, d'.FolderAt p T ∧ d'.IsBare T := by
  rcases makeOr_missing he h with ⟨q, sl, hl, rfl⟩ | ⟨_, h⟩
  · obtain ⟨ht', hat, hbare⟩ := bare_put ht hl
    exact ⟨ht', q, hat, hbare⟩
  · cases h

theorem go_bare {k : Nat} (ht : IsTree d) (hp : p.isEmpty = false) (hup : ".." ∉ p.segments)
    (he : d.exists? p = false) (h : (makeFolders.go k p).run d = (.ok (), d')) :
    IsTree d' ∧ ∃ T, d'.FolderAt p T ∧ d'.IsBare T := by
  -- on the folders around: the first that is made has nothing in it, so each after it is made in an
  -- empty one
  induction k generalizing p d d' with
  | zero => exact makeOr_bare ht he h
  | succ k ih =>
      rcases makeOr_missing he h with ⟨q, sl, hl, rfl⟩ | ⟨hl, h⟩
      · obtain ⟨ht', hat, hbare⟩ := bare_put ht hl
        exact ⟨ht', q, hat, hbare⟩
      rcases hpar : p.parent with _ | p'
      · rw [hpar] at h
        cases h
      rw [hpar] at h
      dsimp only at h
      rcases Path.parent_eq_part hpar with rfl | rfl | ⟨hp', us, m, vs, hs, hm, hus, _⟩
      · exact makeOr_bare ht he h
      · obtain ⟨_, d₁, hgo, hlast⟩ := run_bind_ok (x := makeFolders.go k top) h
        obtain rfl := go_exists (by rfl) hgo
        exact makeOr_bare ht he hlast
      · rw [if_neg (by simp [hp'])] at h
        obtain ⟨_, d₁, hgo, hlast⟩ := run_bind_ok h
        cases he' : d.exists? p' with
        | true =>
            obtain rfl := go_exists he' hgo
            exact makeOr_bare ht he hlast
        | false =>
            have hup' : ".." ∉ p'.segments := fun hin => hup (by rw [hs]; simp [hin])
            have hne : m ≠ ".." := by
              rintro rfl
              exact hup (by rw [hs]; simp)
            obtain ⟨ht₁, T, hT, hbare⟩ := ih ht hp' hup' he' hgo
            refine makeOr_bare ht₁ (missing_of_locate fun q r hq => ?_) hlast
            rcases locate_in_bare hT hbare hp (isClean_of_locate hp hl) hs hm hne hus with
              ⟨sl, hl₁⟩ | ⟨e, hl₁⟩ <;> rw [hl₁] at hq <;> cases hq

structure Vacant (d : Disk) (p : Path) (T : Place) : Prop where
  tree : IsTree d
  reached : d.FolderAt p T
  bare : d.IsBare T

structure Within (T : Place) (d d' : Disk) : Prop where
  tree : IsTree d'
  base : d'.base = d.base
  folder : d'.found? T = some .folder
  outside : ∀ {q}, ¬ T <+: q → d'.found? q = d.found? q

theorem Emptied.folderAt_carry {d₀ : Disk} {P : Place} (ht : IsTree d₀)
    (h₀ : ∀ {d'}, Emptied T d₀ d' → d'.FolderAt p P) (hb : d.base = d₀.base)
    (hk : ∀ {q e}, d₀.found? q = some e → (∀ i b x, e ≠ .file i b x) → ¬ (T <+: q ∧ q ≠ T) →
      d.found? q = some e) (h : Emptied T d d') : d'.FolderAt p P := by
  have hempty := emptied_dropAll ht T
  refine (h₀ hempty).carry (h.base.trans (hb.trans hempty.base.symm)) fun {q e} hq hfile => ?_
  have hout : ¬ (T <+: q ∧ q ≠ T) := by
    intro hin
    rw [hempty.bare q hin.1 hin.2] at hq
    cases hq
  rw [hempty.other hout] at hq
  exact (h.other hout).trans (hk hq hfile hout)

/-- The folder can be made empty: that succeeds, and does not take away what the path leads over.
A step back from a folder that is yet to be made may lead to one that is full; such a path counts
only if it does not. -/
def CanEmpty (d : Disk) (p : Path) : Prop :=
  ∃ d', (emptyFolder p).run d = (.ok (), d') ∧ d'.isFolder p = true ∧
    (d.exists? p = false → ".." ∈ p.segments → d'.list p = .ok [])

theorem Vacant.list (h : d.Vacant p T) : d.list p = .ok [] := by
  obtain ⟨t, hs⟩ := h.reached
  simp [Disk.list, hs, bind, Except.bind, Record.isFolder, h.bare.children]

theorem Emptied.folderAt (h : Emptied T d d') (hT : d.FolderAt p T) (hf : d'.isFolder p = true) :
    d'.FolderAt p T := by
  obtain ⟨T', hT'⟩ := isFolder_iff.mp hf
  have hback : d.FolderAt p T' := hT'.carry h.base.symm fun {q e} hq _ => by
    by_cases hbelow : T <+: q ∧ q ≠ T
    · rw [h.bare q hbelow.1 hbelow.2] at hq
      cases hq
    · rwa [h.other hbelow] at hq
  rwa [hT.unique hback]

theorem CanEmpty.vacant (ht : IsTree d) (h : d.CanEmpty p) :
    ∃ d' T, (emptyFolder p).run d = (.ok (), d') ∧ d'.Vacant p T := by
  obtain ⟨d', hrun, hfolder, hodd⟩ := h
  cases he : d.exists? p with
  | true =>
      obtain ⟨T, hT, hemptied⟩ := emptied_of_exists ht he hrun
      exact ⟨d', T, hrun, hemptied.tree, hemptied.folderAt hT hfolder, hemptied.bare⟩
  | false =>
      have hmake := hrun
      rw [emptyFolder_run_of_missing he] at hmake
      have ht' : IsTree d' := by
        have := makeFolders_isTree p d ht
        rwa [hmake] at this
      obtain ⟨T, hT⟩ := isFolder_iff.mp hfolder
      refine ⟨d', T, hrun, ht', hT, ?_⟩
      by_cases hup : ".." ∈ p.segments
      · refine ht'.isBare ?_
        have hlist := hodd he hup
        obtain ⟨t, hs⟩ := hT
        simpa [Disk.list, hs, bind, Except.bind, Record.isFolder] using hlist
      · have hp : p.isEmpty = false := (folderAt_iff.mp hT).1.1.nonempty
        rw [makeFolders, if_neg (by simp [hp])] at hmake
        obtain ⟨_, T', hT', hbare⟩ := go_bare ht hp hup he hmake
        rwa [hT.unique hT']

theorem Vacant.again (h : d.Vacant p T) (hw : Within T d d') :
    ∃ d'', (emptyFolder p).run d' = (.ok (), d'') ∧ d''.Vacant p T := by
  have hkept : ∀ {q e}, d.found? q = some e → d'.found? q = some e := by
    intro q e hq
    by_cases hT : T <+: q
    · by_cases hne : q = T
      · rw [hne, h.reached.folder] at hq
        rw [hne, hw.folder, hq]
      · rw [h.bare q hT hne] at hq
        cases hq
    · rwa [hw.outside hT]
  obtain ⟨d'', hrun, hemptied⟩ :=
    emptyFolder_of_folderAt hw.tree (h.reached.carry hw.base fun hq _ => hkept hq)
  refine ⟨d'', hrun, hemptied.tree, ?_, hemptied.bare⟩
  refine h.reached.carry (hemptied.base.trans hw.base) fun {q e} hq _ => ?_
  rw [hemptied.other, hkept hq]
  rintro ⟨hT, hne⟩
  rw [h.bare q hT hne] at hq
  cases hq

end SourceAtlas.Disk
