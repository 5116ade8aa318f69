import SourceAtlas.Disk.Fault
import SourceAtlas.Path.Basic

namespace SourceAtlas

abbrev Place := List Name

namespace Disk

abbrev Moment := Int

inductive Entry where
  | folder
  | file (id : Nat) (bytes : ByteArray) (runnable : Bool)
  | link (target : Path)
  deriving Inhabited

structure Record where
  entry : Entry
  changed : Moment
  deriving Inhabited

end Disk

/-- `base` is where relative paths start; file ids are handed out in order and never reused. -/
structure Disk where
  records : List (Place × Disk.Record)
  base : Place
  now : Disk.Moment
  nextId : Nat
  deriving Inhabited

namespace Disk

def blank : Disk := ⟨[], [], 0, 0⟩

def get? (d : Disk) (p : Place) : Option Record :=
  match p with
  | [] => some ⟨.folder, 0⟩
  | _ => d.records.lookup p

def set (d : Disk) (p : Place) (r : Record) : Disk :=
  { d with records := (p, r) :: d.records.filter (fun x => x.1 ≠ p) }

def erase (d : Disk) (p : Place) : Disk :=
  { d with records := d.records.filter (fun x => !p.isPrefixOf x.1) }

theorem lookup_filter_of_pos {p : Place} {f : Place → Bool} (h : f p = true)
    (l : List (Place × Record)) :
    (l.filter (fun x => f x.1)).lookup p = l.lookup p := by
  induction l with
  | nil => rfl
  | cons x xs ih =>
      obtain ⟨q, r⟩ := x
      by_cases hq : f q = true
      · simp [hq, List.lookup_cons, ih]
      · have hne : (p == q) = false := beq_false_of_ne fun e => hq (e ▸ h)
        simp [hq, List.lookup_cons, ih, hne]

theorem lookup_filter_of_neg {p : Place} {f : Place → Bool} (h : f p = false)
    (l : List (Place × Record)) :
    (l.filter (fun x => f x.1)).lookup p = none := by
  induction l with
  | nil => rfl
  | cons x xs ih =>
      obtain ⟨q, r⟩ := x
      by_cases hq : f q = true
      · have hne : (p == q) = false := beq_false_of_ne fun e => by rw [← e, h] at hq; cases hq
        simp [hq, List.lookup_cons, ih, hne]
      · simp [hq, ih]

theorem get?_set_self {d : Disk} {p : Place} {r : Record} (h : p ≠ []) :
    (d.set p r).get? p = some r := by
  cases p with
  | nil => exact absurd rfl h
  | cons n p => simp [get?, set]

theorem get?_set_of_ne {d : Disk} {p q : Place} {r : Record} (h : q ≠ p) :
    (d.set p r).get? q = d.get? q := by
  cases q with
  | nil => rfl
  | cons n q =>
      have : ((n :: q) == p) = false := by simpa using h
      simp only [get?, set, List.lookup_cons, this]
      exact lookup_filter_of_pos (f := fun x => decide (x ≠ p)) (by simpa using h) d.records

theorem get?_erase_below {d : Disk} {p q : Place} (hq : q ≠ []) (h : p <+: q) :
    (d.erase p).get? q = none := by
  cases q with
  | nil => exact absurd rfl hq
  | cons n q =>
      exact lookup_filter_of_neg (f := fun x => !p.isPrefixOf x)
        (by simpa using List.isPrefixOf_iff_prefix.2 h) d.records

theorem get?_erase_outside {d : Disk} {p q : Place} (h : ¬ p <+: q) :
    (d.erase p).get? q = d.get? q := by
  cases q with
  | nil => rfl
  | cons n q =>
      exact lookup_filter_of_pos (f := fun x => !p.isPrefixOf x)
        (by
          simp only [Bool.not_eq_true']
          exact Bool.eq_false_iff.2 fun e => h (List.isPrefixOf_iff_prefix.1 e)) d.records

/-- Names are ordered by their code points, which is the order of their bytes. -/
def before (a b : Name) : Bool := decide (a ≤ b)

def children (d : Disk) (p : Place) : List (Name × Record) :=
  let inside := d.records.filterMap fun x =>
    match x.1.getLast? with
    | some n => if x.1.dropLast = p then some (n, x.2) else none
    | none => none
  inside.mergeSort fun a b => before a.1 b.1

end Disk

end SourceAtlas
