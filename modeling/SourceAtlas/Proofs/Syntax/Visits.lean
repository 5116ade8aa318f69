import Mathlib.Data.List.Forall2
import SourceAtlas.Proofs.Syntax.Walk

namespace SourceAtlas.Syntax

/-- The way from the root of a tree to a node: which child, of that which child, and so on. -/
abbrev Address := List Nat

namespace Node

def at? (n : Node) : Address → Option Node
  | [] => some n
  | i :: a => n.children[i]?.bind fun c => c.at? a

mutual

def addresses (a : Address) : Node → List Address
  | mk _ _ _ _ cs => a :: addressesFrom a 0 cs

def addressesFrom (a : Address) (i : Nat) : List Node → List Address
  | [] => []
  | n :: r => addresses (a ++ [i]) n ++ addressesFrom a (i + 1) r

end

variable {n : Node} {a b : Address} {i : Nat}

theorem at?_append (n : Node) (a b : Address) : n.at? (a ++ b) = (n.at? a).bind (·.at? b) := by
  induction a generalizing n with
  | nil => rfl
  | cons i a ih =>
      rw [List.cons_append, at?, at?]
      cases n.children[i]? with
      | none => rfl
      | some c => exact ih c

theorem at?_concat {p : Node} (h : n.at? a = some p) (i : Nat) :
    n.at? (a ++ [i]) = p.children[i]? := by
  rw [at?_append, h, Option.bind_some, at?]
  cases p.children[i]? <;> rfl

mutual

theorem mem_addresses (n : Node) (a : Address) {x : Address} :
    x ∈ n.addresses a ↔ ∃ b, x = a ++ b ∧ (n.at? b).isSome = true := by
  obtain ⟨k, r, s, e, cs⟩ := n
  rw [addresses, List.mem_cons, mem_addressesFrom cs]
  constructor
  · rintro (rfl | ⟨j, b, c, hc, rfl, hb⟩)
    · exact ⟨[], by simp, rfl⟩
    · refine ⟨j :: b, by simp, ?_⟩
      rw [at?, children, hc]
      exact hb
  · rintro ⟨_ | ⟨j, b⟩, rfl, hb⟩
    · exact .inl (List.append_nil a)
    · rw [at?, children] at hb
      obtain ⟨_, hx⟩ := Option.isSome_iff_exists.mp hb
      obtain ⟨c, hc, hx⟩ := Option.bind_eq_some_iff.mp hx
      exact .inr ⟨j, b, c, hc, by simp, by rw [hx]; rfl⟩

theorem mem_addressesFrom (cs : List Node) (a : Address) (i : Nat) {x : Address} :
    x ∈ addressesFrom a i cs ↔
      ∃ j b c, cs[j]? = some c ∧ x = a ++ (i + j) :: b ∧ (c.at? b).isSome = true := by
  cases cs with
  | nil => simp [addressesFrom]
  | cons n r =>
      rw [addressesFrom, List.mem_append, mem_addresses n, mem_addressesFrom r]
      constructor
      · rintro (⟨b, rfl, hb⟩ | ⟨j, b, c, hc, rfl, hb⟩)
        · exact ⟨0, b, n, rfl, by simp, hb⟩
        · exact ⟨j + 1, b, c, hc, by rw [Nat.add_right_comm, Nat.add_assoc], hb⟩
      · rintro ⟨_ | j, b, c, hc, rfl, hb⟩
        · cases hc
          exact .inl ⟨b, by simp, hb⟩
        · exact .inr ⟨j, b, c, hc, by rw [Nat.add_right_comm, Nat.add_assoc], hb⟩

end

theorem lex_deeper (a : Address) (i : Nat) (b : Address) : List.Lex (· < ·) a (a ++ i :: b) := by
  induction a with
  | nil => exact .nil
  | cons j a ih => exact .cons ih

theorem lex_later (a : Address) {i j : Nat} (h : i < j) (b c : Address) :
    List.Lex (· < ·) (a ++ i :: b) (a ++ j :: c) := by
  induction a with
  | nil => exact .rel h
  | cons k a ih => exact .cons ih

mutual

theorem pairwise_addresses (n : Node) (a : Address) :
    (n.addresses a).Pairwise (List.Lex (· < ·)) := by
  obtain ⟨k, r, s, e, cs⟩ := n
  rw [addresses, List.pairwise_cons]
  refine ⟨fun x hx => ?_, pairwise_addressesFrom cs a 0⟩
  obtain ⟨j, b, _, _, rfl, _⟩ := (mem_addressesFrom cs a 0).mp hx
  exact lex_deeper a (0 + j) b

theorem pairwise_addressesFrom (cs : List Node) (a : Address) (i : Nat) :
    (addressesFrom a i cs).Pairwise (List.Lex (· < ·)) := by
  cases cs with
  | nil => exact .nil
  | cons n r =>
      rw [addressesFrom, List.pairwise_append]
      refine ⟨pairwise_addresses n _, pairwise_addressesFrom r a (i + 1), fun x hx y hy => ?_⟩
      obtain ⟨b, rfl, _⟩ := (mem_addresses n _).mp hx
      obtain ⟨j, c, _, _, rfl, _⟩ := (mem_addressesFrom r a (i + 1)).mp hy
      rw [List.append_assoc, List.singleton_append]
      exact lex_later a (by omega) b c

end

end Node

/-- What a walk asks of a cursor: the node it is at, and its moves. -/
structure CursorMoves (γ : Type) where
  node : γ → Node
  firstChild? : γ → Option γ
  nextSibling? : γ → Option γ
  up? : γ → Option γ

namespace CursorMoves

variable {γ : Type}

/-- The walk from a cursor on, which has just come to its node or is about to leave it: it ends, and `l` is
where it has stopped to visit. -/
inductive Visits (m : CursorMoves γ) : (entering : Bool) → γ → List γ → Prop
  | down {c d l} : m.firstChild? c = some d → Visits m true d l → Visits m true c (c :: l)
  | turn {c l} : m.firstChild? c = none → Visits m false c l → Visits m true c (c :: l)
  | next {c d l} : m.nextSibling? c = some d → Visits m true d l → Visits m false c l
  | up {c d l} : m.nextSibling? c = none → m.up? c = some d → Visits m false d l → Visits m false c l
  | done {c} : m.nextSibling? c = none → m.up? c = none → Visits m false c []

theorem Visits.unique {m : CursorMoves γ} {entering : Bool} {c : γ} {l l' : List γ}
    (h : m.Visits entering c l) (h' : m.Visits entering c l') : l' = l := by
  -- a cursor leaves no choice: the moves that fail tell which step is next
  induction h generalizing l' with
  | down hd _ ih =>
      cases h' with
      | down hd' h' =>
          cases hd.symm.trans hd'
          rw [ih h']
      | turn hn => cases hd.symm.trans hn
  | turn hn _ ih =>
      cases h' with
      | down hd => cases hn.symm.trans hd
      | turn _ h' => rw [ih h']
  | next hs _ ih =>
      cases h' with
      | next hs' h' =>
          cases hs.symm.trans hs'
          exact ih h'
      | up hn => cases hs.symm.trans hn
      | done hn => cases hs.symm.trans hn
  | up hn hu _ ih =>
      cases h' with
      | next hs => cases hn.symm.trans hs
      | up _ hu' h' =>
          cases hu.symm.trans hu'
          exact ih h'
      | done _ hu' => cases hu.symm.trans hu'
  | done hn hu =>
      cases h' with
      | next hs => cases hn.symm.trans hs
      | up _ hu' => cases hu.symm.trans hu'
      | done => rfl

def Reaches (root : Node) (stands : γ → Address → Prop) (move : Option γ) (a : Address) : Prop :=
  match move with
  | some c => stands c a
  | none => root.at? a = none

/-- `stands` tells where in the tree a cursor is. Its moves lead where they say, and fail only where no such
node exists; nothing is beside the root or above it. -/
structure Faithful (m : CursorMoves γ) (root : Node) (stands : γ → Address → Prop) : Prop where
  node : ∀ {c a}, stands c a → root.at? a = some (m.node c)
  firstChild : ∀ {c a}, stands c a → Reaches root stands (m.firstChild? c) (a ++ [0])
  nextSibling : ∀ {c a i}, stands c (a ++ [i]) →
    Reaches root stands (m.nextSibling? c) (a ++ [i + 1])
  up : ∀ {c a i}, stands c (a ++ [i]) → Reaches root stands (m.up? c) a
  alone : ∀ {c}, stands c [] → m.nextSibling? c = none ∧ m.up? c = none

namespace Faithful

variable {m : CursorMoves γ} {root : Node} {stands : γ → Address → Prop}

mutual

theorem visits_node (hm : m.Faithful root stands) (n : Node) {c : γ} {a : Address} (hc : stands c a)
    (hn : m.node c = n) : ∃ l, List.Forall₂ stands l (n.addresses a) ∧ l.map m.node = n.preorder ∧
      ∃ d, stands d a ∧ ∀ l', m.Visits false d l' → m.Visits true c (l ++ l') := by
  obtain ⟨k, r, s, e, cs⟩ := n
  have hat : root.at? a = some (.mk k r s e cs) := hn ▸ hm.node hc
  have hmove := hm.firstChild hc
  cases hfirst : m.firstChild? c with
  | none =>
      have hcs : cs[0]? = none := (Node.at?_concat hat 0).symm.trans (by rwa [hfirst] at hmove)
      obtain rfl : cs = [] := by simpa using hcs
      have hmap : [c].map m.node = [.mk k r s e []] := by rw [List.map_singleton, hn]
      exact ⟨[c], .cons hc .nil, hmap, c, hc, fun _ h => .turn hfirst h⟩
  | some d =>
      rw [hfirst] at hmove
      obtain ⟨l, hl, hmap, u, hu, hv⟩ := visits_children hm cs hat hmove rfl
      refine ⟨c :: l, .cons hc hl, ?_, u, hu, fun l' h => .down hfirst (hv l' h)⟩
      rw [List.map_cons, hn, hmap, Node.preorder]

theorem visits_children (hm : m.Faithful root stands) (cs : List Node) {c : γ} {a : Address} {i : Nat}
    {p : Node} (hp : root.at? a = some p) (hc : stands c (a ++ [i])) (hcs : p.children.drop i = cs) :
    ∃ l, List.Forall₂ stands l (Node.addressesFrom a i cs) ∧ l.map m.node = Node.preorders cs ∧
      ∃ d, stands d a ∧ ∀ l', m.Visits false d l' → m.Visits true c (l ++ l') := by
  -- the cursor is at a child, so that there is one: the recursion does not end with none left
  have hat : p.children[i]? = some (m.node c) := (Node.at?_concat hp i).symm.trans (hm.node hc)
  have hhead : cs[0]? = some (m.node c) := by rw [← hcs, List.getElem?_drop, Nat.add_zero, hat]
  cases cs with
  | nil => cases hhead
  | cons n r =>
      have hrest : p.children.drop (i + 1) = r := by
        rw [← List.drop_drop, hcs, List.drop_one, List.tail_cons]
      obtain ⟨l, hl, hmap, d, hd, hv⟩ := visits_node hm n hc (Option.some.inj hhead).symm
      have hmove := hm.nextSibling hd
      cases hnext : m.nextSibling? d with
      | some d' =>
          rw [hnext] at hmove
          obtain ⟨l', hl', hmap', u, hu, hv'⟩ := visits_children hm r hp hmove hrest
          refine ⟨l ++ l', List.rel_append hl hl', ?_, u, hu, fun l'' h => ?_⟩
          · rw [List.map_append, hmap, hmap', Node.preorders]
          · rw [List.append_assoc]
            exact hv _ (.next hnext (hv' l'' h))
      | none =>
          have hlast : p.children[i + 1]? = none :=
            (Node.at?_concat hp (i + 1)).symm.trans (by rwa [hnext] at hmove)
          -- it ends here, where the move fails: this was the last child, and the walk goes back up
          obtain rfl : r = [] := by
            rw [← hrest, List.drop_eq_nil_iff]
            simpa using hlast
          have hback := hm.up hd
          cases hup : m.up? d with
          | none =>
              rw [hup] at hback
              cases hp.symm.trans hback
          | some u =>
              rw [hup] at hback
              exact ⟨l, by rwa [Node.addressesFrom, Node.addressesFrom, List.append_nil],
                by rwa [Node.preorders, Node.preorders, List.append_nil], u, hback,
                fun l' h => hv l' (.up hnext hup h)⟩

end

theorem visits (hm : m.Faithful root stands) {c : γ} (hc : stands c []) :
    ∃ l, m.Visits true c l ∧ List.Forall₂ stands l (root.addresses []) ∧
      l.map m.node = root.preorder := by
  have hroot : m.node c = root := (Option.some.inj (hm.node hc)).symm
  obtain ⟨l, hl, hmap, d, hd, hv⟩ := hm.visits_node root hc hroot
  obtain ⟨hnext, hup⟩ := hm.alone hd
  have hall := hv [] (.done hnext hup)
  rw [List.append_nil] at hall
  exact ⟨l, hall, hl, hmap⟩

end Faithful

end CursorMoves

namespace Cursor

def moves : CursorMoves Cursor := ⟨focus, firstChild?, nextSibling?, up?⟩

/-- The cursor is at the address, and its trail tells what lies around the way there. -/
inductive StandsIn (root : Node) : Cursor → Address → Prop
  | start : StandsIn root (.ofRoot root) []
  | child {p n : Node} {trail : List Crumb} {a : Address} {left right : List Node} :
      StandsIn root ⟨p, trail⟩ a → p.children = left.reverse ++ n :: right →
      StandsIn root ⟨n, ⟨p, left, right⟩ :: trail⟩ (a ++ [left.length])

namespace StandsIn

variable {root : Node} {c : Cursor} {a : Address} {i : Nat}

theorem at? (h : StandsIn root c a) : root.at? a = some c.focus := by
  induction h with
  | start => rfl
  | @child _ _ _ _ left _ _ hp ih =>
      rw [Node.at?_concat ih, hp, ← List.length_reverse, List.getElem?_append_right (Nat.le_refl _),
        Nat.sub_self]
      rfl

theorem cases_concat (h : StandsIn root c (a ++ [i])) :
    ∃ p trail left right, StandsIn root ⟨p, trail⟩ a ∧ left.length = i ∧
      p.children = left.reverse ++ c.focus :: right ∧ c.trail = ⟨p, left, right⟩ :: trail := by
  generalize hx : a ++ [i] = x at h
  cases h with
  | start => simp at hx
  | child hp hc =>
      obtain ⟨rfl, hi⟩ := List.append_inj' hx rfl
      cases hi
      exact ⟨_, _, _, _, hp, rfl, hc, rfl⟩

theorem trail_nil (h : StandsIn root c []) : c.trail = [] := by
  generalize hx : [] = x at h
  cases h with
  | start => rfl
  | child => simp at hx

end StandsIn

theorem faithful_moves (root : Node) : moves.Faithful root (StandsIn root) where
  node h := h.at?
  firstChild := by
    rintro ⟨n, trail⟩ a h
    have hat := Node.at?_concat h.at? 0
    show CursorMoves.Reaches root _ (firstChild? ⟨n, trail⟩) _
    rw [firstChild?]
    cases hc : n.children with
    | nil => rwa [hc] at hat
    | cons m r =>
        have hchild : StandsIn root ⟨m, ⟨n, [], r⟩ :: trail⟩ (a ++ [0]) := .child h hc
        exact hchild
  nextSibling := by
    rintro ⟨n, t⟩ a i h
    obtain ⟨p, trail, left, right, hp, rfl, hc, rfl⟩ := h.cases_concat
    have hat := Node.at?_concat hp.at? (left.length + 1)
    show CursorMoves.Reaches root _ (nextSibling? ⟨n, ⟨p, left, right⟩ :: trail⟩) _
    cases right with
    | nil =>
        refine hat.trans (List.getElem?_eq_none ?_)
        simp [hc]
    | cons m r =>
        have hchild : StandsIn root ⟨m, ⟨p, n :: left, r⟩ :: trail⟩ (a ++ [left.length + 1]) :=
          .child hp (by simpa using hc)
        exact hchild
  up := by
    rintro ⟨n, t⟩ a i h
    obtain ⟨p, trail, left, right, hp, _, _, rfl⟩ := h.cases_concat
    exact hp
  alone := by
    rintro ⟨n, t⟩ h
    obtain rfl : t = [] := h.trail_nil
    exact ⟨rfl, rfl⟩

section Fold

variable {α : Type} (visit : α → Cursor → α) (acc : α) (c : Cursor)

theorem foldFrom_entering : foldFrom visit acc true c =
    match c.firstChild? with
    | some d => foldFrom visit (visit acc c) true d
    | none => foldFrom visit (visit acc c) false c := by
  rw [foldFrom]
  split <;> simp only [*]

theorem foldFrom_leaving : foldFrom visit acc false c =
    match c.nextSibling? with
    | some d => foldFrom visit acc true d
    | none =>
        match c.up? with
        | some d => foldFrom visit acc false d
        | none => acc := by
  rw [foldFrom]
  split
  · simp only [*]
  · split <;> simp only [*]

variable {visit acc c}

theorem foldFrom_of_visits {entering : Bool} {l : List Cursor} (h : moves.Visits entering c l) :
    foldFrom visit acc entering c = l.foldl visit acc := by
  induction h generalizing acc with
  | @down c d _ hd _ ih =>
      rw [foldFrom_entering, show c.firstChild? = some d from hd]
      exact ih
  | @turn c _ hn _ ih =>
      rw [foldFrom_entering, show c.firstChild? = none from hn]
      exact ih
  | @next c d _ hs _ ih =>
      rw [foldFrom_leaving, show c.nextSibling? = some d from hs]
      exact ih
  | @up c d _ hn hu _ ih =>
      rw [foldFrom_leaving, show c.nextSibling? = none from hn, show c.up? = some d from hu]
      exact ih
  | @done c hn hu =>
      rw [foldFrom_leaving, show c.nextSibling? = none from hn, show c.up? = none from hu]
      rfl

end Fold

end Cursor

/-- A walk with any cursor whose moves fail only where there is nothing to move to ends, after it has visited
every node once, a parent before its children; so does the walk over a tree that finds imports and
declarations. -/
theorem Node.walk_in_order (root : Node) :
    ((root.addresses []).Pairwise (List.Lex (· < ·)) ∧
      ∀ a, a ∈ root.addresses [] ↔ (root.at? a).isSome = true) ∧
    (∀ {γ : Type} (m : CursorMoves γ) (stands : γ → Address → Prop) (c : γ), m.Faithful root stands →
      stands c [] → ∃ l, (∀ l', m.Visits true c l' ↔ l' = l) ∧
        List.Forall₂ stands l (root.addresses []) ∧ l.map m.node = root.preorder) ∧
    Cursor.moves.Faithful root (Cursor.StandsIn root) ∧
    ∃ l, Cursor.moves.Visits true (.ofRoot root) l ∧
      List.Forall₂ (Cursor.StandsIn root) l (root.addresses []) ∧ l.map (·.focus) = root.preorder ∧
      ∀ {α : Type} (visit : α → Cursor → α) (acc : α), root.fold visit acc = l.foldl visit acc := by
  refine ⟨⟨pairwise_addresses root [], fun a => by simp [mem_addresses]⟩, fun m stands c hm hc => ?_,
    Cursor.faithful_moves root, ?_⟩
  · obtain ⟨l, hv, hl, hmap⟩ := hm.visits hc
    exact ⟨l, fun l' => ⟨hv.unique, fun h => h ▸ hv⟩, hl, hmap⟩
  · obtain ⟨l, hv, hl, hmap⟩ := (Cursor.faithful_moves root).visits .start
    exact ⟨l, hv, hl, hmap, fun visit acc => Cursor.foldFrom_of_visits hv⟩

def branched : Node :=
  .mk .program none 0 9
    [.mk .call none 0 5 [.leaf .identifier 0 1, .leaf .arguments 1 5], .leaf .text 6 9]

theorem walk_in_order_branched : Cursor.moves.Faithful branched (Cursor.StandsIn branched) ∧
    Cursor.StandsIn branched (.ofRoot branched) [] ∧
    ∃ l, Cursor.moves.Visits true (.ofRoot branched) l ∧
      l.map (·.focus.kind) = [.program, .call, .identifier, .arguments, .text] ∧
      List.Forall₂ (Cursor.StandsIn branched) l [[], [0], [0, 0], [0, 1], [1]] := by
  have hm := Cursor.faithful_moves branched
  obtain ⟨_, hwalk, _⟩ := Node.walk_in_order branched
  obtain ⟨l, hv, hl, hmap⟩ := hwalk Cursor.moves _ (.ofRoot branched) hm .start
  have hkinds := congrArg (List.map Node.kind) hmap
  rw [List.map_map] at hkinds
  exact ⟨hm, .start, l, (hv l).mpr rfl, hkinds, hl⟩

end SourceAtlas.Syntax
