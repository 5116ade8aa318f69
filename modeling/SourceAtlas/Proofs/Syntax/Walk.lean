import Mathlib.Tactic.Common
import SourceAtlas.Syntax.Cursor

namespace SourceAtlas.Syntax

namespace Cursor

mutual

def within (trail : List Crumb) : Node → List Cursor
  | .mk k r s e cs => ⟨.mk k r s e cs, trail⟩ :: among (.mk k r s e cs) trail [] cs

def among (p : Node) (trail : List Crumb) (left : List Node) : List Node → List Cursor
  | [] => []
  | n :: r => within (⟨p, left, r⟩ :: trail) n ++ among p trail (n :: left) r

end

variable {α : Type} (visit : α → Cursor → α) (acc : α)

theorem foldFrom_enter (n : Node) (trail : List Crumb) :
    foldFrom visit acc true ⟨n, trail⟩ = match n.children with
      | [] => foldFrom visit (visit acc ⟨n, trail⟩) false ⟨n, trail⟩
      | m :: r => foldFrom visit (visit acc ⟨n, trail⟩) true ⟨m, ⟨n, [], r⟩ :: trail⟩ := by
  rw [foldFrom]
  rcases n with ⟨k, r, s, e, _ | ⟨m, cs⟩⟩ <;> rfl

theorem foldFrom_leave (n p : Node) (left right : List Node) (trail : List Crumb) :
    foldFrom visit acc false ⟨n, ⟨p, left, right⟩ :: trail⟩ = match right with
      | [] => foldFrom visit acc false ⟨p, trail⟩
      | m :: r => foldFrom visit acc true ⟨m, ⟨p, n :: left, r⟩ :: trail⟩ := by
  rw [foldFrom]
  cases right <;> rfl

theorem foldFrom_end (n : Node) : foldFrom visit acc false ⟨n, []⟩ = acc := by
  rw [foldFrom]
  rfl

mutual

theorem foldFrom_within (n : Node) (acc : α) (trail : List Crumb) :
    foldFrom visit acc true ⟨n, trail⟩ =
      foldFrom visit ((within trail n).foldl visit acc) false ⟨n, trail⟩ := by
  obtain ⟨k, r, s, e, cs⟩ := n
  rw [foldFrom_enter, within, List.foldl_cons]
  cases cs with
  | nil => rfl
  | cons m rest => exact foldFrom_among (m :: rest) _ _ _ _ _ _ rfl

theorem foldFrom_among (cs : List Node) (acc : α) (p : Node) (left : List Node)
    (trail : List Crumb) (m : Node) (rest : List Node) (h : cs = m :: rest) :
    foldFrom visit acc true ⟨m, ⟨p, left, rest⟩ :: trail⟩ =
      foldFrom visit ((among p trail left cs).foldl visit acc) false ⟨p, trail⟩ := by
  cases cs with
  | nil => cases h
  | cons n r =>
      obtain ⟨rfl, rfl⟩ := List.cons.inj h
      rw [foldFrom_within n, foldFrom_leave, among, List.foldl_append]
      cases r with
      | nil => rfl
      | cons m rest => exact foldFrom_among (m :: rest) _ _ _ _ _ _ rfl

end

end Cursor

namespace Node

open Cursor

variable {α : Type}

theorem fold_eq (visit : α → Cursor → α) (acc : α) (n : Node) :
    n.fold visit acc = (within [] n).foldl visit acc := by
  rw [fold, ofRoot, foldFrom_within, foldFrom_end]

theorem foldl_push {β : Type} (f : β → Option α) {push : List α → β → List α}
    (h : ∀ acc x, push acc x = (f x).toList ++ acc) (xs : List β) (acc : List α) :
    xs.foldl push acc = (xs.filterMap f).reverse ++ acc := by
  induction xs generalizing acc with
  | nil => rfl
  | cons x xs ih =>
      rw [List.foldl_cons, ih, h, List.filterMap_cons]
      cases f x <;> simp

theorem collect_eq (f : Cursor → Option α) (n : Node) :
    n.collect f = (within [] n).filterMap f := by
  rw [collect, fold_eq, foldl_push f, List.append_nil, List.reverse_reverse]
  intro acc c
  cases f c <;> rfl

mutual

def family (p : Option Node) : Node → List (Option Node × Node)
  | mk k r s e cs => (p, mk k r s e cs) :: families (some (mk k r s e cs)) cs

def families (p : Option Node) : List Node → List (Option Node × Node)
  | [] => []
  | n :: r => family p n ++ families p r

end

mutual

theorem family_eq (n : Node) (trail : List Crumb) :
    (within trail n).map (fun c => (c.parent?, c.focus)) =
      family (trail.head?.map (·.parent)) n := by
  obtain ⟨k, r, s, e, cs⟩ := n
  rw [within, List.map_cons, family, families_eq cs]
  rfl

theorem families_eq (cs : List Node) (p : Node) (trail : List Crumb) (left : List Node) :
    (among p trail left cs).map (fun c => (c.parent?, c.focus)) = families (some p) cs := by
  cases cs with
  | nil => rfl
  | cons n r =>
      rw [among, List.map_append, families, family_eq n, families_eq r]
      rfl

end

mutual

theorem map_family (n : Node) (p : Option Node) : (family p n).map (·.2) = n.preorder := by
  obtain ⟨k, r, s, e, cs⟩ := n
  rw [family, List.map_cons, preorder, map_families cs]

theorem map_families (cs : List Node) (p : Option Node) :
    (families p cs).map (·.2) = preorders cs := by
  cases cs with
  | nil => rfl
  | cons n r => rw [families, List.map_append, preorders, map_family n, map_families r]

end

theorem collect_family (f : Option Node → Node → Option α) (n : Node) :
    n.collect (fun c => f c.parent? c.focus) = (family none n).filterMap fun x => f x.1 x.2 := by
  rw [collect_eq, ← show _ = family none n from family_eq n [], List.filterMap_map]
  rfl

theorem collect_preorder (f : Node → Option α) (n : Node) :
    n.collect (fun c => f c.focus) = n.preorder.filterMap f := by
  rw [collect_family fun _ => f, ← map_family n none, List.filterMap_map]
  rfl

end Node

end SourceAtlas.Syntax
