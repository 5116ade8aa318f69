import SourceAtlas.Proofs.Disk.View
import SourceAtlas.Proofs.Path.Parts

namespace SourceAtlas.Disk

inductive Entry.Alike : Entry → Entry → Prop
  | folder : Alike .folder .folder
  | file (i : Nat) (b b' : ByteArray) (x x' : Bool) : Alike (.file i b x) (.file i b' x')
  | link (t : Path) : Alike (.link t) (.link t)

theorem Entry.Alike.refl (e : Entry) : e.Alike e := by
  cases e with
  | folder => exact .folder
  | file i b x => exact .file i b b x x
  | link t => exact .link t

theorem Entry.Alike.trans {a b c : Entry} (h : a.Alike b) (h' : b.Alike c) : a.Alike c := by
  cases h with
  | folder => exact h'
  | link t => exact h'
  | file i b b' x x' => cases h' with | file => exact .file ..

structure Extends (d d' : Disk) : Prop where
  base : d'.base = d.base
  kept : ∀ {q e}, d.found? q = some e → ∃ e', d'.found? q = some e' ∧ e.Alike e'
  links : ∀ {q t}, d'.found? q = some (.link t) → d.found? q = some (.link t)

namespace Extends

theorem refl (d : Disk) : Extends d d :=
  ⟨rfl, fun h => ⟨_, h, .refl _⟩, fun h => h⟩

theorem trans {d d' d'' : Disk} (h : Extends d d') (h' : Extends d' d'') : Extends d d'' where
  base := h'.base.trans h.base
  kept := by
    intro q e he
    obtain ⟨e', he', ha⟩ := h.kept he
    obtain ⟨e'', he'', ha'⟩ := h'.kept he'
    exact ⟨e'', he'', ha.trans ha'⟩
  links := fun he => h.links (h'.links he)

theorem of_found? {d d' : Disk} (hb : d'.base = d.base) (h : ∀ q, d'.found? q = d.found? q) :
    Extends d d' :=
  ⟨hb, fun he => ⟨_, (h _).trans he, .refl _⟩, fun he => (h _).symm.trans he⟩

theorem folder {d d' : Disk} (h : Extends d d') {q : Place} (hq : d.found? q = some .folder) :
    d'.found? q = some .folder := by
  obtain ⟨e', he', ha⟩ := h.kept hq
  cases ha
  exact he'

theorem link {d d' : Disk} (h : Extends d d') {q : Place} {t : Path}
    (hq : d.found? q = some (.link t)) : d'.found? q = some (.link t) := by
  obtain ⟨e', he', ha⟩ := h.kept hq
  cases ha
  exact he'

theorem file {d d' : Disk} (h : Extends d d') {q : Place} {i : Nat} {b : ByteArray} {x : Bool}
    (hq : d.found? q = some (.file i b x)) : ∃ b' x', d'.found? q = some (.file i b' x') := by
  obtain ⟨e', he', ha⟩ := h.kept hq
  cases ha
  exact ⟨_, _, he'⟩

end Extends

def IsName (n : Name) : Prop :=
  ¬ (n = "" ∨ n = ".") ∧ n ≠ ".." ∧ ¬ maxNameBytes < n.utf8ByteSize

instance (n : Name) : Decidable (IsName n) :=
  inferInstanceAs (Decidable (¬ (n = "" ∨ n = ".") ∧ n ≠ ".." ∧ ¬ maxNameBytes < n.utf8ByteSize))

inductive Way (d : Disk) (deep : Bool) : Nat → Place → List Name → Spot → Prop
  | stop {k a} : Way d deep k a [] ⟨a, d.get? a, false⟩
  | idle {k a n ns s} : n = "" ∨ n = "." → Way d deep k a ns s → Way d deep k a (n :: ns) s
  | up {k a ns s} : Way d deep k a.dropLast ns s → Way d deep k a (".." :: ns) s
  | enter {k a n ns s} : IsName n → d.found? (a ++ [n]) = some .folder →
      Way d deep k (a ++ [n]) ns s → Way d deep k a (n :: ns) s
  | missing {k a n ns} : IsName n → d.get? (a ++ [n]) = none → ns.all (· == "") = true →
      Way d deep k a (n :: ns) ⟨a ++ [n], none, !ns.isEmpty⟩
  | file {k a n i b x t} : IsName n → d.get? (a ++ [n]) = some ⟨.file i b x, t⟩ →
      Way d deep k a [n] ⟨a ++ [n], some ⟨.file i b x, t⟩, false⟩
  | last {k a n p t} : IsName n → d.get? (a ++ [n]) = some ⟨.link p, t⟩ → deep = false →
      Way d deep k a [n] ⟨a ++ [n], some ⟨.link p, t⟩, false⟩
  | turn {k a n ns p s} : IsName n → d.found? (a ++ [n]) = some (.link p) →
      (deep = true ∨ ns ≠ []) →
      Way d deep k (if p.isAbsolute then [] else a) (p.segments ++ ns) s →
      Way d deep (k + 1) a (n :: ns) s

def turn (d : Disk) (deep : Bool) : Nat → Place → List Name → Except Fault Spot
  | 0 => fun _ _ => .error .tooManyLinks
  | k + 1 => d.follow deep k

theorem follow_eq_walk (d : Disk) (deep : Bool) (k : Nat) :
    d.follow deep k = d.walk deep (d.turn deep k) := by
  cases k <;> rfl

theorem way_of_walk {d : Disk} {deep : Bool} {k : Nat} {a : Place} {ns : List Name} {s : Spot}
    (ih : ∀ {a ns s}, d.turn deep k a ns = .ok s → ∃ l, k = l + 1 ∧ Way d deep l a ns s)
    (h : d.walk deep (d.turn deep k) a ns = .ok s) : Way d deep k a ns s := by
  -- up to a link the walk and the way go alike; behind a link the way is that of the turn
  fun_induction walk d deep (d.turn deep k) a ns with
  | case1 => cases h; exact .stop
  | case2 _ _ _ hn ih => exact .idle hn (ih h)
  | case3 _ _ _ ih => exact .up (ih h)
  | case4 => cases h
  | case5 _ _ _ h1 h2 h3 _ hn hr => cases h; exact .missing ⟨h1, h2, h3⟩ hn hr
  | case6 => cases h
  | case7 _ _ _ h1 h2 h3 _ _ hf ih => exact .enter ⟨h1, h2, h3⟩ (found?_of_get? hf) (ih h)
  | case8 _ _ _ h1 h2 h3 _ _ _ _ _ hf hr =>
      cases h
      rw [List.isEmpty_iff] at hr
      subst hr
      exact .file ⟨h1, h2, h3⟩ hf
  | case9 => cases h
  | case10 _ _ _ h1 h2 h3 _ _ _ hl hr =>
      cases h
      simp only [Bool.and_eq_true, List.isEmpty_iff, Bool.not_eq_true'] at hr
      obtain ⟨rfl, hd⟩ := hr
      exact .last ⟨h1, h2, h3⟩ hl hd
  | case11 _ _ _ h1 h2 h3 _ _ _ hl hr =>
      obtain ⟨l, rfl, hw⟩ := ih h
      refine .turn ⟨h1, h2, h3⟩ (found?_of_get? hl) ?_ hw
      cases deep with
      | true => exact .inl rfl
      | false => exact .inr (by simpa using hr)

theorem way_of_follow {d : Disk} {deep : Bool} {k : Nat} {a : Place} {ns : List Name} {s : Spot}
    (h : d.follow deep k a ns = .ok s) : Way d deep k a ns s := by
  rw [follow_eq_walk] at h
  induction k generalizing a ns s with
  | zero => exact way_of_walk (fun h => by cases h) h
  | succ k ih =>
      refine way_of_walk (fun {a ns s} h => ⟨k, rfl, ih ?_⟩) h
      rwa [← follow_eq_walk]

section Equations

variable {d : Disk} {deep : Bool} {k : Nat} {a : Place} {n : Name} {ns : List Name}

theorem follow_nil : d.follow deep k a [] = .ok ⟨a, d.get? a, false⟩ := by
  cases k <;> rfl

theorem follow_cons : d.follow deep k a (n :: ns) =
    if n = "" ∨ n = "." then d.follow deep k a ns
    else if n = ".." then d.follow deep k a.dropLast ns
    else if maxNameBytes < n.utf8ByteSize then .error .nameTooLong
    else match d.get? (a ++ [n]) with
      | none => if ns.all (· == "") then .ok ⟨a ++ [n], none, !ns.isEmpty⟩ else .error .notFound
      | some ⟨.folder, _⟩ => d.follow deep k (a ++ [n]) ns
      | some ⟨.file i b x, t⟩ =>
          if ns.isEmpty then .ok ⟨a ++ [n], some ⟨.file i b x, t⟩, false⟩ else .error .notFolder
      | some ⟨.link p, t⟩ =>
          if ns.isEmpty && !deep then .ok ⟨a ++ [n], some ⟨.link p, t⟩, false⟩
          else d.turn deep k (if p.isAbsolute then [] else a) (p.segments ++ ns) := by
  cases k <;> rfl

theorem follow_idle (hn : n = "" ∨ n = ".") :
    d.follow deep k a (n :: ns) = d.follow deep k a ns := by
  rw [follow_cons, if_pos hn]

theorem follow_up : d.follow deep k a (".." :: ns) = d.follow deep k a.dropLast ns := by
  rw [follow_cons, if_neg (by decide), if_pos rfl]

theorem follow_enter (hn : IsName n) (hf : d.found? (a ++ [n]) = some .folder) :
    d.follow deep k a (n :: ns) = d.follow deep k (a ++ [n]) ns := by
  obtain ⟨t, hf⟩ := found?_eq_some.mp hf
  rw [follow_cons, if_neg hn.1, if_neg hn.2.1, if_neg hn.2.2, hf]

theorem follow_missing (hn : IsName n) (hm : d.get? (a ++ [n]) = none) :
    d.follow deep k a (n :: ns) =
      if ns.all (· == "") then .ok ⟨a ++ [n], none, !ns.isEmpty⟩ else .error .notFound := by
  rw [follow_cons, if_neg hn.1, if_neg hn.2.1, if_neg hn.2.2, hm]

theorem follow_file {i : Nat} {b : ByteArray} {x : Bool} {t : Moment} (hn : IsName n)
    (hf : d.get? (a ++ [n]) = some ⟨.file i b x, t⟩) :
    d.follow deep k a (n :: ns) =
      if ns.isEmpty then .ok ⟨a ++ [n], some ⟨.file i b x, t⟩, false⟩ else .error .notFolder := by
  rw [follow_cons, if_neg hn.1, if_neg hn.2.1, if_neg hn.2.2, hf]

theorem follow_last {p : Path} {t : Moment} (hn : IsName n)
    (hl : d.get? (a ++ [n]) = some ⟨.link p, t⟩) :
    d.follow false k a [n] = .ok ⟨a ++ [n], some ⟨.link p, t⟩, false⟩ := by
  rw [follow_cons, if_neg hn.1, if_neg hn.2.1, if_neg hn.2.2, hl]
  rfl

theorem follow_turn {p : Path} (hn : IsName n) (hl : d.found? (a ++ [n]) = some (.link p))
    (hr : deep = true ∨ ns ≠ []) :
    d.follow deep (k + 1) a (n :: ns) =
      d.follow deep k (if p.isAbsolute then [] else a) (p.segments ++ ns) := by
  obtain ⟨t, hl⟩ := found?_eq_some.mp hl
  have hgo : ¬ (ns.isEmpty && !deep) = true := by
    rcases hr with hd | hr
    · simp [hd]
    · simp [hr]
  rw [follow_cons, if_neg hn.1, if_neg hn.2.1, if_neg hn.2.2, hl]
  exact if_neg hgo

end Equations

theorem follow_of_way {d : Disk} {deep : Bool} {k : Nat} {a : Place} {ns : List Name} {s : Spot}
    (h : Way d deep k a ns s) : d.follow deep k a ns = .ok s := by
  induction h with
  | stop => rw [follow_nil]
  | idle hn _ ih => rw [follow_idle hn, ih]
  | up _ ih => rw [follow_up, ih]
  | enter hn hf _ ih => rw [follow_enter hn hf, ih]
  | missing hn hm hr => rw [follow_missing hn hm, if_pos hr]
  | file hn hf => rw [follow_file hn hf]; rfl
  | last hn hl hd => rw [hd, follow_last hn hl]
  | turn hn hl hr _ ih => rw [follow_turn hn hl hr, ih]

theorem follow_eq_ok {d : Disk} {deep : Bool} {k : Nat} {a : Place} {ns : List Name} {s : Spot} :
    d.follow deep k a ns = .ok s ↔ Way d deep k a ns s :=
  ⟨way_of_follow, follow_of_way⟩

namespace Way

variable {d d' : Disk} {deep : Bool} {k : Nat} {a : Place} {ns : List Name} {s : Spot}

theorem record (h : Way d deep k a ns s) : s.record = d.get? s.place := by
  induction h with
  | stop => rfl
  | idle _ _ ih => exact ih
  | up _ ih => exact ih
  | enter _ _ _ ih => exact ih
  | missing _ hm _ => exact hm.symm
  | file _ hf => exact hf.symm
  | last _ hl _ => exact hl.symm
  | turn _ _ _ _ ih => exact ih

theorem slash {r : Record} (h : Way d deep k a ns s) (hs : s.record = some r) : s.slash = false := by
  induction h with
  | stop => rfl
  | idle _ _ ih => exact ih hs
  | up _ ih => exact ih hs
  | enter _ _ _ ih => exact ih hs
  | missing => cases hs
  | file => rfl
  | last => rfl
  | turn _ _ _ _ ih => exact ih hs

theorem unique {s' : Spot} (h : Way d deep k a ns s) (h' : Way d deep k a ns s') : s = s' := by
  have := (follow_of_way h).symm.trans (follow_of_way h')
  injection this

theorem extend (hx : Extends d d') {e : Entry} (h : Way d deep k a ns s)
    (he : d.found? s.place = some e) :
    Way d' deep k a ns ⟨s.place, d'.get? s.place, false⟩ := by
  induction h with
  | stop => exact .stop
  | idle hn _ ih => exact .idle hn (ih he)
  | up _ ih => exact .up (ih he)
  | enter hn hf _ ih => exact .enter hn (hx.folder hf) (ih he)
  | missing _ hm _ => rw [found?_eq_none.mpr hm] at he; cases he
  | file hn hf =>
      obtain ⟨b', x', hf'⟩ := hx.file (found?_of_get? hf)
      obtain ⟨t', hf'⟩ := found?_eq_some.mp hf'
      rw [hf']
      exact .file hn hf'
  | last hn hl hd =>
      obtain ⟨t', hl'⟩ := found?_eq_some.mp (hx.link (found?_of_get? hl))
      rw [hl']
      exact .last hn hl' hd
  | turn hn hl hr _ ih => exact .turn hn (hx.link hl) hr (ih he)

theorem rest (hr : ns.all (· == "") = true) : Way d deep k a ns ⟨a, d.get? a, false⟩ := by
  induction ns with
  | nil => exact .stop
  | cons n ns ih =>
      rw [List.all_cons, Bool.and_eq_true] at hr
      exact .idle (.inl (by simpa using hr.1)) (ih hr.2)

theorem filled (hx : Extends d d') (h : Way d deep k a ns s) (hs : s.record = none)
    (hf : d'.found? s.place = some .folder) :
    Way d' deep k a ns ⟨s.place, d'.get? s.place, false⟩ := by
  induction h with
  | stop => exact .stop
  | idle hn _ ih => exact .idle hn (ih hs hf)
  | up _ ih => exact .up (ih hs hf)
  | enter hn he _ ih => exact .enter hn (hx.folder he) (ih hs hf)
  | missing hn _ hr => exact .enter hn hf (rest hr)
  | file => cases hs
  | last => cases hs
  | turn hn hl hr _ ih => exact .turn hn (hx.link hl) hr (ih hs hf)

theorem filled_file (hx : Extends d d') {i : Nat} {b : ByteArray} {x : Bool}
    (h : Way d deep k a ns s) (hs : s.record = none) (hsl : s.slash = false)
    (hf : d'.found? s.place = some (.file i b x)) :
    Way d' deep k a ns ⟨s.place, d'.get? s.place, false⟩ := by
  induction h with
  | stop => exact .stop
  | idle hn _ ih => exact .idle hn (ih hs hsl hf)
  | up _ ih => exact .up (ih hs hsl hf)
  | enter hn he _ ih => exact .enter hn (hx.folder he) (ih hs hsl hf)
  | @missing _ _ _ ns hn _ _ =>
      have hns : ns = [] := by simpa using hsl
      subst hns
      obtain ⟨t, hr⟩ := found?_eq_some.mp hf
      rw [hr]
      exact .file hn hr
  | file => cases hs
  | last => cases hs
  | turn hn hl hr _ ih => exact .turn hn (hx.link hl) hr (ih hs hsl hf)

theorem append (h : Way d true k a ns s) (hf : d.found? s.place = some .folder) :
    ∃ k' ≤ k, ∀ deep ms, ms ≠ [] →
      d.follow deep k a (ns ++ ms) = d.follow deep k' s.place ms := by
  generalize hd : true = deep at h
  induction h with
  | @stop k => exact ⟨k, Nat.le_refl _, fun _ _ _ => rfl⟩
  | idle hn _ ih =>
      obtain ⟨k', hk, h⟩ := ih hf
      exact ⟨k', hk, fun deep ms hm => by rw [List.cons_append, follow_idle hn, h deep ms hm]⟩
  | up _ ih =>
      obtain ⟨k', hk, h⟩ := ih hf
      exact ⟨k', hk, fun deep ms hm => by rw [List.cons_append, follow_up, h deep ms hm]⟩
  | enter hn he _ ih =>
      obtain ⟨k', hk, h⟩ := ih hf
      exact ⟨k', hk, fun deep ms hm => by rw [List.cons_append, follow_enter hn he, h deep ms hm]⟩
  | missing _ he _ => rw [found?_eq_none.mpr he] at hf; cases hf
  | file _ he => rw [found?_of_get? he] at hf; cases hf
  | last _ _ hn => rw [hn] at hd; cases hd
  | turn hn hl _ _ ih =>
      obtain ⟨k', hk, h⟩ := ih hf
      refine ⟨k', by omega, fun deep ms hm => ?_⟩
      rw [List.cons_append, follow_turn hn hl (.inr (by simp [hm])), ← List.append_assoc,
        h deep ms hm]

theorem shallow (h : Way d true k a ns s) :
    ∃ s', Way d false k a ns s' ∧ (s' = s ∨ ∃ p t, s'.record = some ⟨.link p, t⟩) := by
  induction h with
  | stop => exact ⟨_, .stop, .inl rfl⟩
  | idle hn _ ih =>
      obtain ⟨s', hw, hr⟩ := ih
      exact ⟨s', .idle hn hw, hr⟩
  | up _ ih =>
      obtain ⟨s', hw, hr⟩ := ih
      exact ⟨s', .up hw, hr⟩
  | enter hn hf _ ih =>
      obtain ⟨s', hw, hr⟩ := ih
      exact ⟨s', .enter hn hf hw, hr⟩
  | missing hn hm hr => exact ⟨_, .missing hn hm hr, .inl rfl⟩
  | file hn hf => exact ⟨_, .file hn hf, .inl rfl⟩
  | last hn hl _ => exact ⟨_, .last hn hl rfl, .inl rfl⟩
  | @turn _ _ _ ns _ _ hn hl _ _ ih =>
      by_cases hne : ns = []
      · subst hne
        obtain ⟨t, ht⟩ := found?_eq_some.mp hl
        exact ⟨_, .last hn ht rfl, .inr ⟨_, t, rfl⟩⟩
      · obtain ⟨s', hw, hr⟩ := ih
        exact ⟨s', .turn hn hl (.inr hne) hw, hr⟩

theorem deepen (h : Way d deep k a ns s) (hs : s.record = none) : Way d true k a ns s := by
  induction h with
  | stop => exact .stop
  | idle hn _ ih => exact .idle hn (ih hs)
  | up _ ih => exact .up (ih hs)
  | enter hn hf _ ih => exact .enter hn hf (ih hs)
  | missing hn hm hr => exact .missing hn hm hr
  | file hn hf => exact .file hn hf
  | last => cases hs
  | turn hn hl _ _ ih => exact .turn hn hl (.inl rfl) (ih hs)

end Way

theorem follow_plain {d : Disk} {k : Nat} {a : Place} {n : Name} (hn : IsName n) :
    d.follow false k a [n] = .ok ⟨a ++ [n], d.get? (a ++ [n]), false⟩ := by
  rcases h : d.get? (a ++ [n]) with _ | ⟨_ | _ | _, t⟩
  · rw [follow_missing hn h]
    rfl
  · rw [follow_enter hn (found?_of_get? h), follow_nil, h]
  · rw [follow_file hn h]
    rfl
  · rw [follow_last hn h]

instance (d : Disk) (q : Place) : Decidable (d.found? q = some .folder) :=
  decidable_of_iff _ found?_eq_folder.symm

def Entry.number? : Entry → Option Nat
  | .file i _ _ => some i
  | _ => none

def fileNumber? (d : Disk) (q : Place) : Option Nat := (d.found? q).bind Entry.number?

theorem fileNumber?_eq_some {d : Disk} {q : Place} {i : Nat} :
    d.fileNumber? q = some i ↔ ∃ b x, d.found? q = some (.file i b x) := by
  unfold fileNumber?
  rcases d.found? q with _ | _ | ⟨j, b, x⟩ | t <;> simp [Entry.number?]

structure IsNumbered (d : Disk) : Prop where
  fresh : ∀ {q i b x}, d.found? q = some (.file i b x) → i < d.nextId
  apart : ∀ {q q' i b b' x x'}, d.found? q = some (.file i b x) →
    d.found? q' = some (.file i b' x') → q = q'

namespace IsNumbered

variable {d d' : Disk}

theorem of_records (hfresh : ∀ x ∈ d.records, ∀ i ∈ x.2.entry.number?, i < d.nextId)
    (hapart : ∀ x ∈ d.records, ∀ y ∈ d.records, ∀ i ∈ x.2.entry.number?,
      y.2.entry.number? = some i → x.1 = y.1) : IsNumbered d where
  fresh h := by
    obtain ⟨t, hr⟩ := record_of_file h
    exact hfresh _ hr _ rfl
  apart h h' := by
    obtain ⟨t, hr⟩ := record_of_file h
    obtain ⟨t', hr'⟩ := record_of_file h'
    exact hapart _ hr _ hr' _ rfl rfl

theorem iff_records : IsNumbered d ↔
    (∀ x ∈ d.records, ∀ i ∈ d.fileNumber? x.1, i < d.nextId) ∧
      ∀ x ∈ d.records, ∀ y ∈ d.records, ∀ i ∈ d.fileNumber? x.1,
        d.fileNumber? y.1 = some i → x.1 = y.1 := by
  refine ⟨fun h => ⟨fun x _ i hi => ?_, fun x _ y _ i hi hi' => ?_⟩,
    fun ⟨hfresh, hapart⟩ => ⟨fun h => ?_, fun h h' => ?_⟩⟩
  · obtain ⟨b, r, hf⟩ := fileNumber?_eq_some.mp hi
    exact h.fresh hf
  · obtain ⟨b, r, hf⟩ := fileNumber?_eq_some.mp hi
    obtain ⟨b', r', hf'⟩ := fileNumber?_eq_some.mp hi'
    exact h.apart hf hf'
  · obtain ⟨t, hr⟩ := record_of_file h
    exact hfresh _ hr _ (fileNumber?_eq_some.mpr ⟨_, _, h⟩)
  · obtain ⟨t, hr⟩ := record_of_file h
    obtain ⟨t', hr'⟩ := record_of_file h'
    exact hapart _ hr _ hr' _ (fileNumber?_eq_some.mpr ⟨_, _, h⟩)
      (fileNumber?_eq_some.mpr ⟨_, _, h'⟩)

theorem congr (h : IsNumbered d) (hid : d'.nextId = d.nextId)
    (hfile : ∀ {q i b x}, d'.found? q = some (.file i b x) →
      ∃ b x, d.found? q = some (.file i b x)) : IsNumbered d' where
  fresh hq := by
    obtain ⟨b, x, hq⟩ := hfile hq
    exact hid ▸ h.fresh hq
  apart hq hq' := by
    obtain ⟨b, x, hq⟩ := hfile hq
    obtain ⟨b', x', hq'⟩ := hfile hq'
    exact h.apart hq hq'

end IsNumbered

instance (d : Disk) : Decidable (IsNumbered d) := decidable_of_iff _ IsNumbered.iff_records.symm

/-- Every record lies in a folder, and every file has a number of its own. -/
structure IsTree (d : Disk) : Prop extends IsNumbered d where
  around : ∀ {p e}, d.found? p = some e → d.found? p.dropLast = some .folder

namespace IsTree

variable {d : Disk} {deep : Bool} {k : Nat} {a : Place} {ns ms : List Name} {s : Spot}

theorem of_records (hn : IsNumbered d) (h : ∀ x ∈ d.records, d.found? x.1.dropLast = some .folder) :
    IsTree d where
  toIsNumbered := hn
  around := by
    intro p e he
    rcases record_of_found? he with ⟨rfl, _⟩ | ⟨t, hr⟩
    · exact found?_root d
    · exact h _ hr

theorem found?_ne_none {x : Place × Record} (hx : x ∈ d.records) : d.found? x.1 ≠ none := by
  obtain ⟨q, r⟩ := x
  intro hn
  cases q with
  | nil => cases hn
  | cons n q =>
      have hnone := List.lookup_eq_none_iff.mp (found?_eq_none.mp hn) _ hx
      simp at hnone

theorem iff_records :
    IsTree d ↔ IsNumbered d ∧ ∀ x ∈ d.records, d.found? x.1.dropLast = some .folder := by
  refine ⟨fun h => ⟨h.toIsNumbered, fun x hx => ?_⟩, fun h => of_records h.1 h.2⟩
  obtain ⟨e, he⟩ := Option.ne_none_iff_exists'.mp (found?_ne_none hx)
  exact h.around he

theorem found?_turn (ha : d.found? a = some .folder) (p : Path) :
    d.found? (if p.isAbsolute then [] else a) = some .folder := by
  split
  · exact found?_root d
  · exact ha

theorem front (ht : IsTree d) (h : Way d deep k a (ns ++ ms) s)
    (ha : d.found? a = some .folder) (hm : ∃ n ∈ ms, n ≠ "") :
    ∃ q, Way d true k a ns ⟨q, d.get? q, false⟩ ∧ d.found? q = some .folder := by
  have hne : ms ≠ [] := by rintro rfl; obtain ⟨n, hn, _⟩ := hm; cases hn
  -- along the way; where the names of the front part are used up, it has led to a folder
  generalize hx : ns ++ ms = xs at h
  induction h generalizing ns with
  | stop => simp [hne] at hx
  | @idle _ a _ _ _ hn _ ih =>
      cases ns with
      | nil => exact ⟨a, .stop, ha⟩
      | cons n ns =>
          obtain ⟨rfl, hr⟩ := List.cons.inj hx
          obtain ⟨q, hw, hq⟩ := ih ha hr
          exact ⟨q, .idle hn hw, hq⟩
  | @up _ a _ _ _ ih =>
      cases ns with
      | nil => exact ⟨a, .stop, ha⟩
      | cons n ns =>
          obtain ⟨rfl, hr⟩ := List.cons.inj hx
          obtain ⟨q, hw, hq⟩ := ih (ht.around ha) hr
          exact ⟨q, .up hw, hq⟩
  | @enter _ a _ _ _ hn hf _ ih =>
      cases ns with
      | nil => exact ⟨a, .stop, ha⟩
      | cons n ns =>
          obtain ⟨rfl, hr⟩ := List.cons.inj hx
          obtain ⟨q, hw, hq⟩ := ih hf hr
          exact ⟨q, .enter hn hf hw, hq⟩
  | @missing _ a _ _ _ _ hr =>
      cases ns with
      | nil => exact ⟨a, .stop, ha⟩
      | cons n ns =>
          obtain ⟨rfl, rfl⟩ := List.cons.inj hx
          obtain ⟨m, hm, hne⟩ := hm
          exact absurd (by simpa using List.all_eq_true.mp hr m (by simp [hm])) hne
  | @file _ a =>
      cases ns with
      | nil => exact ⟨a, .stop, ha⟩
      | cons n ns => simp [hne] at hx
  | @last _ a =>
      cases ns with
      | nil => exact ⟨a, .stop, ha⟩
      | cons n ns => simp [hne] at hx
  | @turn _ a _ _ p _ hn hl _ _ ih =>
      cases ns with
      | nil => exact ⟨a, .stop, ha⟩
      | cons n ns =>
          obtain ⟨rfl, rfl⟩ := List.cons.inj hx
          obtain ⟨q, hw, hq⟩ := ih (found?_turn ha p) (List.append_assoc ..)
          exact ⟨q, .turn hn hl (.inl rfl) hw, hq⟩

theorem front_of_folder (ht : IsTree d) (h : Way d true k a (ns ++ ms) s)
    (ha : d.found? a = some .folder) (hs : d.found? s.place = some .folder) :
    ∃ q, Way d true k a ns ⟨q, d.get? q, false⟩ ∧ d.found? q = some .folder := by
  obtain ⟨k', _, hf⟩ := h.append hs
  have hx := hf false ["x"] (by simp)
  rw [follow_plain ⟨by decide, by decide, by decide⟩, List.append_assoc] at hx
  exact ht.front (way_of_follow hx) ha ⟨"x", by simp, by decide⟩

theorem around_free (ht : IsTree d) (h : Way d deep k a ns s) (ha : d.found? a = some .folder)
    (hs : s.record = none) : s.place ≠ [] ∧ d.found? s.place.dropLast = some .folder := by
  induction h with
  | stop => rw [found?_eq_none.mpr hs] at ha; cases ha
  | idle _ _ ih => exact ih ha hs
  | up _ ih => exact ih (ht.around ha) hs
  | enter _ hf _ ih => exact ih hf hs
  | missing => exact ⟨by simp, by simpa using ha⟩
  | file => cases hs
  | last => cases hs
  | @turn _ _ _ _ p _ _ _ _ _ ih => exact ih (found?_turn ha p) hs

theorem not_link (ht : IsTree d) (h : Way d true k a ns s) (ha : d.found? a = some .folder)
    {p : Path} (hs : d.found? s.place = some (.link p)) : False := by
  induction h with
  | stop => rw [ha] at hs; cases hs
  | idle _ _ ih => exact ih ha hs
  | up _ ih => exact ih (ht.around ha) hs
  | enter _ hf _ ih => exact ih hf hs
  | missing _ hm => rw [found?_eq_none.mpr hm] at hs; cases hs
  | file _ hf => rw [found?_of_get? hf] at hs; cases hs
  | last _ _ hn => cases hn
  | @turn _ _ _ _ p _ _ _ _ _ ih => exact ih (found?_turn ha p) hs

theorem last_name (ht : IsTree d) (h : Way d true k a ns s) (ha : d.found? a = some .folder)
    {i : Nat} {b : ByteArray} {x : Bool} (hs : d.found? s.place = some (.file i b x)) :
    ∃ n, ns.getLast? = some n ∧ IsName n := by
  have hmore : ∀ {n : Name} {ns : List Name}, (∃ m, ns.getLast? = some m ∧ IsName m) →
      ∃ m, (n :: ns).getLast? = some m ∧ IsName m := by
    rintro n ns ⟨m, hm, hn⟩
    exact ⟨m, by rw [List.getLast?_cons, hm]; rfl, hn⟩
  induction h with
  | stop => rw [ha] at hs; cases hs
  | idle _ _ ih => exact hmore (ih ha hs)
  | up _ ih => exact hmore (ih (ht.around ha) hs)
  | enter _ hf _ ih => exact hmore (ih hf hs)
  | missing _ hm => rw [found?_eq_none.mpr hm] at hs; cases hs
  | file hn _ => exact ⟨_, rfl, hn⟩
  | last _ _ hd => cases hd
  | @turn _ a _ ns p _ hn _ _ _ ih =>
      by_cases hns : ns = []
      · exact ⟨_, by rw [hns]; rfl, hn⟩
      · have hlast := List.getLast?_eq_some_getLast hns
        obtain ⟨m, hm, hn⟩ := ih (found?_turn ha p) hs
        rw [List.getLast?_append, hlast, Option.some_or] at hm
        exact hmore ⟨m, hlast.trans hm, hn⟩

end IsTree

instance (d : Disk) : Decidable (IsTree d) := decidable_of_iff _ IsTree.iff_records.symm

def IsClean (p : Path) : Prop := (p.segments.any fun n => n.toList.contains '\x00') = false

structure Starts (d : Disk) (p : Path) : Prop where
  nonempty : p.isEmpty = false
  clean : IsClean p
  folder : d.found? (d.start p) = some .folder

theorem start_front {d : Disk} {p q : Path} {ms : List Name} (hq : q.isEmpty = false)
    (h : p.segments = q.segments ++ ms) : d.start p = d.start q := by
  rw [start, start, Path.isAbsolute_front hq h]

theorem Starts.front {d : Disk} {p q : Path} {ms : List Name} (hp : d.Starts p)
    (hq : q.isEmpty = false) (h : p.segments = q.segments ++ ms) : d.Starts q := by
  have hc := hp.clean
  rw [IsClean, h, List.any_append, Bool.or_eq_false_iff] at hc
  exact ⟨hq, hc.1, start_front hq h ▸ hp.folder⟩

theorem start_extend {d d' : Disk} (hx : Extends d d') (p : Path) : d'.start p = d.start p := by
  rw [start, start, hx.base]

theorem Starts.extend {d d' : Disk} (hx : Extends d d') {p : Path} (hp : d.Starts p) :
    d'.Starts p :=
  ⟨hp.nonempty, hp.clean, start_extend hx p ▸ hx.folder hp.folder⟩

theorem locate_eq_ok {d : Disk} {deep : Bool} {p : Path} {s : Spot} :
    d.locate deep p = .ok s ↔ d.Starts p ∧ Way d deep maxLinks (d.start p) p.segments s := by
  unfold locate
  cases hp : p.isEmpty with
  | true => exact ⟨nofun, fun h => by rw [h.1.nonempty] at hp; cases hp⟩
  | false =>
      rw [if_neg (by decide)]
      by_cases hc : (p.segments.any fun n => n.toList.contains '\x00') = true
      · rw [if_pos hc]
        refine ⟨nofun, fun h => ?_⟩
        have := h.1.clean
        rw [IsClean, hc] at this
        cases this
      · rw [if_neg hc]
        have hc' : IsClean p := by simpa only [IsClean, Bool.not_eq_true] using hc
        split
        · next t hf =>
            have hs : d.Starts p := ⟨hp, hc', found?_of_get? hf⟩
            rw [follow_eq_ok]
            exact ⟨fun h => ⟨hs, h⟩, fun h => h.2⟩
        · next hf =>
            refine ⟨nofun, fun h => ?_⟩
            obtain ⟨t, ht⟩ := found?_eq_some.mp h.1.folder
            exact absurd ht (hf t)

theorem locate_of_starts {d : Disk} {deep : Bool} {p : Path} (h : d.Starts p) :
    d.locate deep p = d.follow deep maxLinks (d.start p) p.segments := by
  obtain ⟨t, ht⟩ := found?_eq_some.mp h.folder
  have hc := h.clean
  rw [IsClean] at hc
  rw [locate, h.nonempty, if_neg (by decide), hc, if_neg (by decide), ht]

theorem locate_record {d : Disk} {deep : Bool} {p : Path} {s : Spot}
    (h : d.locate deep p = .ok s) : s.record = d.get? s.place :=
  (locate_eq_ok.mp h).2.record

theorem locate_slash {d : Disk} {deep : Bool} {p : Path} {q : Place} {r : Record} {sl : Bool}
    (h : d.locate deep p = .ok ⟨q, some r, sl⟩) : sl = false :=
  (locate_eq_ok.mp h).2.slash rfl

theorem stat_eq_ok {d : Disk} {p : Path} {q : Place} {r : Record} :
    d.stat p = .ok (q, r) ↔ d.locate true p = .ok ⟨q, some r, false⟩ := by
  unfold stat
  rcases h : d.locate true p with e | ⟨q', _ | r', sl⟩
  · simp [bind, Except.bind]
  · simp [bind, Except.bind]
  · simp [bind, Except.bind, locate_slash h]

theorem linkStat_eq_ok {d : Disk} {p : Path} {q : Place} {r : Record} :
    d.linkStat p = .ok (q, r) ↔ d.locate false p = .ok ⟨q, some r, false⟩ := by
  unfold linkStat
  rcases h : d.locate false p with e | ⟨q', _ | r', sl⟩
  · simp [bind, Except.bind]
  · simp [bind, Except.bind]
  · simp [bind, Except.bind, locate_slash h]

theorem stat_extend {d d' : Disk} (hx : Extends d d') {p : Path} {q : Place} {r : Record}
    (h : d.stat p = .ok (q, r)) :
    ∃ r', d'.stat p = .ok (q, r') ∧ r.entry.Alike r'.entry := by
  obtain ⟨hp, hw⟩ := locate_eq_ok.mp (stat_eq_ok.mp h)
  have hq : d.found? q = some r.entry := found?_of_get? hw.record.symm
  obtain ⟨e', he', ha⟩ := hx.kept hq
  obtain ⟨t', hr'⟩ := found?_eq_some.mp he'
  have hw' := hw.extend hx hq
  rw [hr'] at hw'
  exact ⟨⟨e', t'⟩,
    stat_eq_ok.mpr (locate_eq_ok.mpr ⟨hp.extend hx, start_extend hx p ▸ hw'⟩), ha⟩

theorem last_of_isFile {d : Disk} (ht : IsTree d) {p : Path} (h : d.isFile p = true) :
    ∃ n, p.segments.getLast? = some n ∧ IsName n := by
  unfold isFile at h
  rcases hs : d.stat p with e | ⟨q, ⟨_ | ⟨i, b, x⟩ | t, τ⟩⟩
  · rw [hs] at h
    cases h
  · rw [hs] at h
    cases h
  · obtain ⟨hp, hw⟩ := locate_eq_ok.mp (stat_eq_ok.mp hs)
    exact ht.last_name hw hp.folder (found?_of_get? hw.record.symm)
  · rw [hs] at h
    cases h

/-- The path leads to a folder, which is the one in the place. -/
def FolderAt (d : Disk) (p : Path) (q : Place) : Prop := ∃ t, d.stat p = .ok (q, ⟨.folder, t⟩)

theorem isFolder_iff {d : Disk} {p : Path} : d.isFolder p = true ↔ ∃ q, d.FolderAt p q := by
  unfold isFolder FolderAt
  rcases h : d.stat p with e | ⟨q, ⟨_ | _ | _, t⟩⟩ <;> simp [Record.isFolder]

theorem folderAt_iff {d : Disk} {p : Path} {q : Place} :
    d.FolderAt p q ↔ (d.Starts p ∧
      Way d true maxLinks (d.start p) p.segments ⟨q, d.get? q, false⟩) ∧ d.found? q = some .folder := by
  constructor
  · rintro ⟨t, h⟩
    obtain ⟨hp, hw⟩ := locate_eq_ok.mp (stat_eq_ok.mp h)
    have hr := hw.record
    simp only at hr
    rw [hr] at hw
    exact ⟨⟨hp, hw⟩, found?_of_get? hr.symm⟩
  · rintro ⟨h, hq⟩
    obtain ⟨t, hr⟩ := found?_eq_some.mp hq
    rw [hr] at h
    exact ⟨t, stat_eq_ok.mpr (locate_eq_ok.mpr h)⟩

namespace FolderAt

variable {d d' : Disk} {p : Path} {q : Place}

theorem folder (h : d.FolderAt p q) : d.found? q = some .folder := (folderAt_iff.mp h).2

theorem unique {q' : Place} (h : d.FolderAt p q) (h' : d.FolderAt p q') : q = q' := by
  obtain ⟨t, h⟩ := h
  obtain ⟨t', h'⟩ := h'
  rw [h] at h'
  cases h'
  rfl

theorem extend (hx : Extends d d') (h : d.FolderAt p q) : d'.FolderAt p q := by
  obtain ⟨t, h⟩ := h
  obtain ⟨⟨e, t'⟩, h', ha⟩ := stat_extend hx h
  cases ha
  exact ⟨t', h'⟩

theorem top (d : Disk) : d.FolderAt Path.top [] :=
  ⟨0, stat_eq_ok.mpr (locate_eq_ok.mpr ⟨⟨rfl, rfl, rfl⟩, .idle (.inl rfl) (.idle (.inl rfl) .stop)⟩)⟩

theorem way_front (ht : IsTree d) (h : d.FolderAt p q) :
    Way d true maxLinks (d.start p) p.front ⟨q, d.get? q, false⟩ := by
  obtain ⟨⟨hp, hw⟩, hq⟩ := folderAt_iff.mp h
  rcases p.segments_eq_front with hs | hs
  · rwa [hs] at hw
  · rw [hs] at hw
    obtain ⟨q', hw', hq'⟩ := ht.front_of_folder hw hp.folder hq
    obtain ⟨k, _, hf⟩ := hw'.append hq'
    have hr := hf true [""] (by simp)
    rw [follow_of_way hw, follow_of_way (.rest rfl)] at hr
    cases hr
    exact hw'

theorem starts_join (h : d.FolderAt p q) (hx : Extends d d') {r : Path} (hr : r.isAbsolute = false)
    (hs : r.segments ≠ []) :
    d'.start (p.join r) = d.start p ∧ (d'.Starts (p.join r) ↔ IsClean r) := by
  obtain ⟨⟨hp, _⟩, _⟩ := folderAt_iff.mp h
  have hst : d'.start (p.join r) = d.start p := by
    rw [start, start, Path.isAbsolute_join hp.nonempty hr hs, hx.base]
  have hfront : (p.front.any fun n => n.toList.contains '\x00') = false := by
    have hc := hp.clean
    rcases p.segments_eq_front with he | he
    · rwa [IsClean, he] at hc
    · rw [IsClean, he, List.any_append, Bool.or_eq_false_iff] at hc
      exact hc.1
  have hclean : IsClean (p.join r) ↔ IsClean r := by
    rw [IsClean, IsClean, Path.segments_join hr, List.any_append, hfront, Bool.false_or]
  exact ⟨hst, fun h => hclean.mp h.clean, fun h => ⟨Path.isEmpty_join hp.nonempty hr hs,
    hclean.mpr h, hst ▸ hx.folder hp.folder⟩⟩

theorem locate_join (ht : IsTree d) (h : d.FolderAt p q) (hx : Extends d d') :
    ∃ k ≤ maxLinks, ∀ r : Path, r.isAbsolute = false → r.segments ≠ [] → IsClean r →
      ∀ deep, d'.locate deep (p.join r) = d'.follow deep k q r.segments := by
  obtain ⟨k, hk, hf⟩ := ((h.way_front ht).extend hx h.folder).append (hx.folder h.folder)
  refine ⟨k, hk, fun r hr hs hc deep => ?_⟩
  obtain ⟨hst, hstarts⟩ := h.starts_join hx hr hs
  rw [locate_of_starts (hstarts.mpr hc), hst, Path.segments_join hr, hf deep _ hs]

theorem join (ht : IsTree d) (h : d.FolderAt p q) (hx : Extends d d') {r : Path}
    (hr : r.isAbsolute = false) (hs : r.segments ≠ []) :
    ∃ k ≤ maxLinks, ∀ {deep s}, d'.locate deep (p.join r) = .ok s ↔
      IsClean r ∧ Way d' deep k q r.segments s := by
  obtain ⟨k, hk, hl⟩ := h.locate_join ht hx
  refine ⟨k, hk, fun {deep s} => ⟨fun ho => ?_, fun ⟨hc, hw⟩ => ?_⟩⟩
  · have hc := (h.starts_join hx hr hs).2.mp (locate_eq_ok.mp ho).1
    exact ⟨hc, way_of_follow ((hl r hr hs hc deep).symm.trans ho)⟩
  · exact (hl r hr hs hc deep).trans (follow_of_way hw)

theorem of_locate {deep : Bool} {s : Spot} (ht : IsTree d) (h : d.locate deep p = .ok s) {p' : Path}
    {ms : List Name} (hp : p'.isEmpty = false) (hs : p.segments = p'.segments ++ ms)
    (hm : ∃ n ∈ ms, n ≠ "") : ∃ q', d.FolderAt p' q' := by
  obtain ⟨hstarts, hw⟩ := locate_eq_ok.mp h
  have hstarts' := hstarts.front hp hs
  rw [hs, start_front hp hs] at hw
  obtain ⟨q', hw', hq'⟩ := ht.front hw hstarts'.folder hm
  exact ⟨q', folderAt_iff.mpr ⟨⟨hstarts', hw'⟩, hq'⟩⟩

theorem front (ht : IsTree d) (h : d.FolderAt p q) {p' : Path} {ms : List Name}
    (hp : p'.isEmpty = false) (hs : p.segments = p'.segments ++ ms) : ∃ q', d.FolderAt p' q' := by
  obtain ⟨⟨hstarts, hw⟩, hq⟩ := folderAt_iff.mp h
  have hstarts' := hstarts.front hp hs
  rw [hs, start_front hp hs] at hw
  obtain ⟨q', hw', hq'⟩ := ht.front_of_folder hw hstarts'.folder hq
  exact ⟨q', folderAt_iff.mpr ⟨⟨hstarts', hw'⟩, hq'⟩⟩

end FolderAt

end SourceAtlas.Disk
