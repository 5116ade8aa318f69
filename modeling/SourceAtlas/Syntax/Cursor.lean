import SourceAtlas.Syntax.Tree

namespace SourceAtlas.Syntax

/-- The parent of the focus, and the siblings on both sides, nearest first. -/
structure Crumb where
  parent : Node
  left : List Node
  right : List Node

structure Cursor where
  focus : Node
  trail : List Crumb

namespace Cursor

def ofRoot (n : Node) : Cursor := ⟨n, []⟩

def parent? (c : Cursor) : Option Node := c.trail.head?.map (·.parent)

def firstChild? (c : Cursor) : Option Cursor :=
  match c.focus.children with
  | [] => none
  | n :: r => some ⟨n, ⟨c.focus, [], r⟩ :: c.trail⟩

def nextSibling? (c : Cursor) : Option Cursor :=
  match c.trail with
  | ⟨p, l, n :: r⟩ :: t => some ⟨n, ⟨p, c.focus :: l, r⟩ :: t⟩
  | _ => none

def up? (c : Cursor) : Option Cursor :=
  match c.trail with
  | ⟨p, _, _⟩ :: t => some ⟨p, t⟩
  | [] => none

def pending : List Crumb → Nat
  | [] => 0
  | c :: t => Node.sizes c.right + pending t

def remaining (entering : Bool) (c : Cursor) : Nat :=
  if entering then 2 * (c.focus.size + pending c.trail) + c.trail.length
  else 2 * pending c.trail + c.trail.length + 1

theorem remaining_firstChild {c d : Cursor} (h : c.firstChild? = some d) :
    remaining true d < remaining true c := by
  obtain ⟨⟨k, r, s, e, cs⟩, t⟩ := c
  cases cs with
  | nil => simp [firstChild?, Node.children] at h
  | cons n rest =>
      simp only [firstChild?, Node.children, Option.some.injEq] at h
      subst h
      simp [remaining, pending, Node.size, Node.sizes]
      omega

theorem remaining_leave (c : Cursor) : remaining false c < remaining true c := by
  have := c.focus.size_pos
  simp [remaining]
  omega

theorem remaining_nextSibling {c d : Cursor} (h : c.nextSibling? = some d) :
    remaining true d < remaining false c := by
  obtain ⟨n, t⟩ := c
  unfold nextSibling? at h
  split at h
  · next p l m r u he =>
      simp only at he
      subst he
      simp only [Option.some.injEq] at h
      subst h
      simp [remaining, pending, Node.sizes]
      omega
  · cases h

theorem remaining_up {c d : Cursor} (h : c.up? = some d) :
    remaining false d < remaining false c := by
  obtain ⟨n, t⟩ := c
  cases t with
  | nil => simp [up?] at h
  | cons b u =>
      obtain ⟨p, l, r⟩ := b
      simp only [up?, Option.some.injEq] at h
      subst h
      simp [remaining, pending]
      omega

def foldFrom {α : Type} (visit : α → Cursor → α) (acc : α) (entering : Bool) (c : Cursor) : α :=
  match entering with
  | true =>
      match _h : c.firstChild? with
      | some d => foldFrom visit (visit acc c) true d
      | none => foldFrom visit (visit acc c) false c
  | false =>
      match _h : c.nextSibling? with
      | some d => foldFrom visit acc true d
      | none =>
          match _h : c.up? with
          | some d => foldFrom visit acc false d
          | none => acc
termination_by remaining entering c
decreasing_by
  · exact remaining_firstChild _h
  · exact remaining_leave c
  · exact remaining_nextSibling _h
  · exact remaining_up _h

end Cursor

def Node.fold {α : Type} (visit : α → Cursor → α) (acc : α) (n : Node) : α :=
  Cursor.foldFrom visit acc true (.ofRoot n)

def Node.collect {α : Type} (f : Cursor → Option α) (n : Node) : List α :=
  (n.fold (fun acc c => match f c with | some a => a :: acc | none => acc) []).reverse

end SourceAtlas.Syntax
