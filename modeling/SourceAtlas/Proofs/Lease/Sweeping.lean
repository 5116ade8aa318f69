import SourceAtlas.Proofs.Disk.Reduced
import SourceAtlas.Proofs.Lease.Owner
import SourceAtlas.Proofs.Lease.Runs

namespace SourceAtlas

open Disk Work

namespace Leases

variable {d d' : Disk} {folder : Path} {holder : String} {ls : Leases} {id : String}

theorem lockFile_of_reduced {i : Nat} (h : Reduced d d') (hf : lockFile d' folder id = some i) :
    lockFile d folder id = some i := by
  obtain ⟨q, b, x, t, hs⟩ := fileAt_eq_some.mp hf
  obtain ⟨t', hs'⟩ := h.stat hs
  exact fileAt_eq_some.mpr ⟨q, b, x, t', hs'⟩

theorem isActive_of_reduced (h : Reduced d d') (ha : isActive d' folder holder ls id = true) :
    isActive d folder holder ls id = true := by
  rw [isActive, Bool.or_eq_true, isLockedOn_eq] at ha ⊢
  refine ha.imp_right fun hl => ?_
  rcases hf : lockFile d' folder id with _ | i
  · rw [hf] at hl
    cases hl
  · rw [hf] at hl
    rwa [lockFile_of_reduced h hf]

theorem isActive_of_lock {l : Lease} (hl : l ∈ ls) (h : lockFile d folder l.id = some l.file) :
    isActive d folder holder ls l.id = true := by
  rw [isActive, isLockedOn_eq, h, Option.any_some, Bool.or_eq_true]
  exact .inr (List.any_eq_true.mpr ⟨l, hl, by simp⟩)

end Leases

namespace Retention

open Leases

variable {d : Disk} {dir folder : Path} {P : Place} {holder : String} {ls : Leases} {limit : Span}

def isDue (d : Disk) (limit : Span) (ls : Leases) (e : Name × Record) : Bool :=
  decide (limit.nanos < d.now - e.2.changed) && !ls.any fun l => (entryNames l.id).contains e.1

/-- What a sweep of the folder should take away. -/
def due (d : Disk) (P : Place) (limit : Span) (ls : Leases) : List (Name × Record) :=
  (d.children P).filter (isDue d limit ls)

theorem isPast_iff {r : Record} : isPast d limit r = true ↔ limit.nanos < d.now - r.changed := by
  rw [isPast, decide_eq_true_iff]
  exact Int.lt_toNat

theorem isDue_eq_true {e : Name × Record} : isDue d limit ls e = true ↔
    isPast d limit e.2 = true ∧ ∀ l ∈ ls, e.1 ∉ entryNames l.id := by
  simp [isDue, isPast_iff]

theorem sweepEntry_cases (dir folder : Path) (holder : String) (ls : Leases) (limit : Span)
    (x : Sweep) (e : Name × Record) : let x' := sweepEntry dir holder folder ls limit x e
    (ls.protects x.disk folder holder e.1 || !isPast x.disk limit e.2) = true ∧ x' = x ∨
      (ls.protects x.disk folder holder e.1 || !isPast x.disk limit e.2) = false ∧
        x'.notices.length = x.notices.length + 1 ∧
        (x'.removed = x.removed ∨ x'.removed = x.removed ++ [e.1] ∧
          (removal dir e.1 e.2).run x.disk = (.ok (), x'.disk)) := by
  unfold sweepEntry removal
  dsimp only
  cases ls.protects x.disk folder holder e.1 || !isPast x.disk limit e.2 with
  | true => exact .inl ⟨rfl, rfl⟩
  | false =>
      refine .inr ⟨rfl, ?_⟩
      rw [if_neg Bool.false_ne_true]
      rcases (if e.2.isFolder then removeTree (dir.child e.1) else removeFile (dir.child e.1)).run
        x.disk with ⟨fault | _, d⟩
      · exact ⟨by simp, .inl rfl⟩
      · exact ⟨by simp, .inr ⟨rfl, rfl⟩⟩

/-- Every removal has succeeded: a removal that fails is told of as well. -/
def Sweep.Unfailing (x : Sweep) : Prop := x.notices.length = x.removed.length

instance (x : Sweep) : Decidable x.Unfailing := inferInstanceAs (Decidable (_ = _))

theorem removal_drop {d' d'' : Disk} (hd : Reduced d d') (ht : IsTree d') (hP : d.FolderAt dir P)
    {n : Name} (hn : IsEntryName n) {r : Record}
    (h : (removal dir n r).run d' = (.ok (), d'')) : d'' = d'.drop (P ++ [n]) := by
  have hdrop : ∀ {isRefused fault},
      (removeUnless isRefused fault (dir.join ⟨[n]⟩)).run d' = (.ok (), d'') →
      d'' = d'.drop (P ++ [n]) := by
    intro isRefused fault h
    rw [removeUnless_run] at h
    rcases hs : d'.linkStat (dir.join ⟨[n]⟩) with e | ⟨q, r'⟩ <;> rw [hs] at h
    · cases h
    · dsimp only at h
      split at h <;> cases h
      rw [linkStat_child hd ht hP hn hs]
  unfold removal at h
  rw [Path.child, Path.ofText_name hn.proper] at h
  split at h
  · exact hdrop h
  · exact hdrop h

section Run

variable (dir folder holder ls limit)

theorem failures_le (es : List (Name × Record)) (x : Sweep) :
    x.notices.length + (es.foldl (sweepEntry dir holder folder ls limit) x).removed.length ≤
      (es.foldl (sweepEntry dir holder folder ls limit) x).notices.length + x.removed.length := by
  induction es generalizing x with
  | nil => exact le_rfl
  | cons e es ih =>
      have hrest := ih (sweepEntry dir holder folder ls limit x e)
      rw [List.foldl_cons]
      rcases sweepEntry_cases dir folder holder ls limit x e with
        ⟨_, he⟩ | ⟨_, hn, hr | ⟨hr, _⟩⟩
      · rwa [he] at hrest ⊢
      · rw [hr, hn] at hrest
        omega
      · rw [hr, hn, List.length_append, List.length_singleton] at hrest
        omega

theorem mem_removed {es : List (Name × Record)} {x : Sweep} {n : Name}
    (h : n ∈ (es.foldl (sweepEntry dir holder folder ls limit) x).removed) :
    n ∈ x.removed ∨ n ∈ es.map (·.1) := by
  induction es generalizing x with
  | nil => exact .inl h
  | cons e es ih =>
      rcases ih h with hx | hes
      · rcases sweepEntry_cases dir folder holder ls limit x e with
          ⟨_, he⟩ | ⟨_, _, hr | ⟨hr, _⟩⟩
        · exact .inl (he ▸ hx)
        · exact .inl (hr ▸ hx)
        · rw [hr] at hx
          rcases List.mem_append.mp hx with hx | hx
          · exact .inl hx
          · exact .inr (List.mem_singleton.mp hx ▸ List.mem_cons_self)
      · exact .inr (.tail _ hes)

variable {dir folder holder ls limit}

theorem Sweep.Unfailing.front {x : Sweep} (hx : x.Unfailing) (es es' : List (Name × Record))
    (h : ((es ++ es').foldl (sweepEntry dir holder folder ls limit) x).Unfailing) :
    (es.foldl (sweepEntry dir holder folder ls limit) x).Unfailing := by
  have hfront := failures_le dir folder holder ls limit es x
  have hback := failures_le dir folder holder ls limit es'
    (es.foldl (sweepEntry dir holder folder ls limit) x)
  rw [List.foldl_append] at h
  unfold Unfailing at *
  omega

theorem removed_subset {es : List (Name × Record)} {x : Sweep} {n : Name} (h : n ∈ x.removed) :
    n ∈ (es.foldl (sweepEntry dir holder folder ls limit) x).removed := by
  induction es generalizing x with
  | nil => exact h
  | cons e es ih =>
      refine ih ?_
      rcases sweepEntry_cases dir folder holder ls limit x e with
        ⟨_, he⟩ | ⟨_, _, hr | ⟨hr, _⟩⟩
      · rwa [he]
      · rwa [hr]
      · rw [hr]
        exact List.mem_append_left _ h

theorem mem_removed_of_go {e : Name × Record} {es : List (Name × Record)} {x : Sweep}
    (hx : x.Unfailing)
    (hgo : (ls.protects x.disk folder holder e.1 || !isPast x.disk limit e.2) = false)
    (h : ((e :: es).foldl (sweepEntry dir holder folder ls limit) x).Unfailing) :
    e.1 ∈ ((e :: es).foldl (sweepEntry dir holder folder ls limit) x).removed := by
  have hone : (sweepEntry dir holder folder ls limit x e).Unfailing :=
    hx.front [e] es h
  rw [List.foldl_cons]
  refine removed_subset ?_
  rcases sweepEntry_cases dir folder holder ls limit x e with
    ⟨hkeep, _⟩ | ⟨_, hcount, hfail | ⟨hr, _⟩⟩
  · rw [hgo] at hkeep
    cases hkeep
  · rw [Sweep.Unfailing, hcount, hfail, hx] at hone
    omega
  · rw [hr]
    exact List.mem_append_right _ List.mem_cons_self

end Run

theorem isPast_dropAll {gone : List (Name × Record)} (r : Record) :
    isPast (dropAll P d gone) limit r = isPast d limit r := by
  rw [isPast, isPast, age, age, dropAll_now]

def IsJudged (d : Disk) (P : Place) (folder : Path) (holder : String) (ls : Leases) (limit : Span)
    (e : Name × Record) : Prop :=
  ∀ gone, (∀ g ∈ gone, g ∈ due d P limit ls) →
    (ls.protects (dropAll P d gone) folder holder e.1 || !isPast d limit e.2) =
      !isDue d limit ls e

section Judged

variable {gone : List (Name × Record)} {x : Sweep} (hd : IsRegular d) (hP : d.FolderAt dir P)
  (hgone : ∀ g ∈ gone, g ∈ due d P limit ls) (hx : x.disk = dropAll P d gone)

include hd hP hgone hx

theorem sweepEntry_judged {e : Name × Record} (hchild : e ∈ d.children P)
    (hjudged : IsJudged d P folder holder ls limit e) (hstart : x.Unfailing)
    (hend : (sweepEntry dir holder folder ls limit x e).Unfailing) :
    (sweepEntry dir holder folder ls limit x e).disk =
        dropAll P d (gone ++ [e].filter (isDue d limit ls)) ∧
      (sweepEntry dir holder folder ls limit x e).removed =
        x.removed ++ ([e].filter (isDue d limit ls)).map (·.1) := by
  have hj := hjudged gone hgone
  have hpast : isPast x.disk limit e.2 = isPast d limit e.2 := by rw [hx, isPast_dropAll]
  rw [← hx, ← hpast] at hj
  rcases sweepEntry_cases dir folder holder ls limit x e with
    ⟨hkeep, he⟩ | ⟨hgo, hn, hfail | ⟨hr, hrun⟩⟩
  · rw [hkeep] at hj
    rw [he, hx, List.filter_cons_of_neg (by simpa using hj.symm)]
    simp
  · rw [Sweep.Unfailing, hn, hfail, hstart] at hend
    omega
  · rw [hgo] at hj
    have hdue : isDue d limit ls e = true := by simpa using hj.symm
    have hname : IsEntryName e.1 := hd.names (hd.mem_children.mp hchild) _ (by simp)
    rw [hx] at hrun
    have hdrop := removal_drop reduced_dropAll (dropAll_isTree hd.toIsTree) hP hname hrun
    rw [List.filter_cons_of_pos hdue, hdrop, hr, dropAll_append]
    exact ⟨rfl, rfl⟩

end Judged

theorem foldl_sweepEntry (hd : IsRegular d) (hP : d.FolderAt dir P) {es : List (Name × Record)}
    (gone : List (Name × Record))
    (hes : ∀ e ∈ es, e ∈ d.children P ∧ IsJudged d P folder holder ls limit e)
    (hgone : ∀ g ∈ gone, g ∈ due d P limit ls) {x : Sweep} (hx : x.disk = dropAll P d gone)
    (hstart : x.Unfailing)
    (hend : (es.foldl (sweepEntry dir holder folder ls limit) x).Unfailing) :
    (es.foldl (sweepEntry dir holder folder ls limit) x).disk =
        dropAll P d (gone ++ es.filter (isDue d limit ls)) ∧
      (es.foldl (sweepEntry dir holder folder ls limit) x).removed =
        x.removed ++ (es.filter (isDue d limit ls)).map (·.1) := by
  induction es generalizing gone x with
  | nil => simp [hx]
  | cons e es ih =>
      obtain ⟨hchild, hjudged⟩ := hes e List.mem_cons_self
      have hone : (sweepEntry dir holder folder ls limit x e).Unfailing :=
        hstart.front [e] es hend
      obtain ⟨hdisk, hremoved⟩ := sweepEntry_judged hd hP hgone hx hchild hjudged hstart hone
      have hgone' : ∀ g ∈ gone ++ [e].filter (isDue d limit ls), g ∈ due d P limit ls := by
        intro g hg
        rcases List.mem_append.mp hg with hg | hg
        · exact hgone g hg
        · obtain ⟨hg, hdue⟩ := List.mem_filter.mp hg
          exact List.mem_filter.mpr ⟨List.mem_singleton.mp hg ▸ hchild, hdue⟩
      have hsplit : (e :: es).filter (isDue d limit ls) =
          [e].filter (isDue d limit ls) ++ es.filter (isDue d limit ls) := List.filter_append [e] es
      obtain ⟨h1, h2⟩ := ih _ (fun e he => hes e (.tail _ he)) hgone' hdisk hone hend
      rw [List.foldl_cons, h1, h2, hremoved, hsplit, List.map_append, List.append_assoc,
        List.append_assoc]
      exact ⟨rfl, rfl⟩

end Retention

end SourceAtlas
