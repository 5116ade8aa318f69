import SourceAtlas.Import.Tree
import SourceAtlas.Proofs.Syntax.Bare

namespace SourceAtlas.Import

open Syntax (Node Tree)

variable {t : Tree} {n m : Node} {x : String}

/-- The node calls a loader, and its first argument, comments aside, is this text. -/
def Loads (t : Tree) (n : Node) (x : String) : Prop :=
  n.kind = .call ∧ ∃ callee args first, n.child? .function = some callee ∧
    isLoader t callee = true ∧ n.child? .arguments = some args ∧ args.firstProper? = some first ∧
    literal t first = some x

/-- A comment comes before the first argument. -/
def IsMasked (n : Node) : Prop :=
  ∃ args c, n.child? .arguments = some args ∧ args.firstNamed? = some c ∧ c.kind = .comment

theorem literal_bare (t : Tree) (n : Node) : literal t.bare n.bare = literal t n := by
  unfold literal
  rw [Node.kind_bare, show t.bare.textOf n.bare = t.textOf n from Node.textOf_bare t n]

theorem isLoader_bare (t : Tree) (n : Node) : isLoader t.bare n.bare = isLoader t n := by
  unfold isLoader
  rw [Node.kind_bare, show t.bare.textOf n.bare = t.textOf n from Node.textOf_bare t n]

theorem kind_of_literal (h : literal t n = some x) : n.kind = .text := by
  unfold literal at h
  split at h
  · assumption
  · cases h

theorem specifierOf_call (h : n.kind = .call) : specifierOf t n = (loaded t n).bind (literal t) := by
  rw [specifierOf, sourceOf, h]

theorem loaded_eq_some : loaded t n = some m ↔ ∃ callee args, n.child? .function = some callee ∧
    isLoader t callee = true ∧ n.child? .arguments = some args ∧ args.firstNamed? = some m ∧
    m.kind = .text := by
  unfold loaded
  rcases n.child? .function with _ | callee
  · simp
  rcases n.child? .arguments with _ | args
  · simp
  cases hl : isLoader t callee with
  | false => simp [hl]
  | true =>
      simp only [Option.bind_eq_bind, Option.bind_some, hl, Bool.not_true, Bool.false_eq_true, if_false,
        Option.bind_eq_some_iff, Option.ite_none_right_eq_some, Option.some.injEq]
      constructor
      · rintro ⟨_, hfirst, hk, rfl⟩
        exact ⟨_, _, rfl, hl, rfl, hfirst, hk⟩
      · rintro ⟨_, _, rfl, _, rfl, hfirst, hk⟩
        exact ⟨_, hfirst, hk, rfl⟩

theorem loaded_bind_literal : (loaded t n).bind (literal t) = some x ↔
    ∃ callee args first, n.child? .function = some callee ∧ isLoader t callee = true ∧
      n.child? .arguments = some args ∧ args.firstNamed? = some first ∧ literal t first = some x := by
  rw [Option.bind_eq_some_iff]
  constructor
  · rintro ⟨first, hloaded, hx⟩
    obtain ⟨callee, args, hcallee, hloader, hargs, hfirst, _⟩ := loaded_eq_some.mp hloaded
    exact ⟨callee, args, first, hcallee, hloader, hargs, hfirst, hx⟩
  · rintro ⟨callee, args, first, hcallee, hloader, hargs, hfirst, hx⟩
    exact ⟨first, loaded_eq_some.mpr
      ⟨callee, args, hcallee, hloader, hargs, hfirst, kind_of_literal hx⟩, hx⟩

theorem specifierOf_call_eq_some (h : n.kind = .call) :
    specifierOf t n = some x ↔ Loads t n x ∧ ¬ IsMasked n := by
  rw [specifierOf_call h, loaded_bind_literal]
  constructor
  · rintro ⟨callee, args, first, hcallee, hloader, hargs, hfirst, hx⟩
    have hne : first.kind ≠ .comment := by rw [kind_of_literal hx]; nofun
    have hfirst' : args.firstProper? = some first := by
      rw [← Node.firstNamed?_eq, hfirst]
      rintro c hc
      rw [hfirst] at hc
      cases hc
      exact hne
    refine ⟨⟨h, callee, args, first, hcallee, hloader, hargs, hfirst', hx⟩, ?_⟩
    rintro ⟨args', c, hargs', hc, hk⟩
    obtain rfl := Option.some.inj (hargs.symm.trans hargs')
    obtain rfl := Option.some.inj (hfirst.symm.trans hc)
    exact hne hk
  · rintro ⟨⟨_, callee, args, first, hcallee, hloader, hargs, hfirst, hx⟩, hmask⟩
    refine ⟨callee, args, first, hcallee, hloader, hargs, ?_, hx⟩
    rw [Node.firstNamed?_eq, hfirst]
    exact fun c hc hk => hmask ⟨args, c, hargs, hc, hk⟩

theorem specifierOf_bare_call (hn : n.HasPlainComments) (h : n.kind = .call) :
    specifierOf t.bare n.bare = some x ↔ Loads t n x := by
  rw [specifierOf_call ((Node.kind_bare n).trans h), loaded_bind_literal]
  simp only [Node.child?_bare hn, Option.map_eq_some_iff]
  constructor
  · rintro ⟨_, _, _, ⟨callee, hcallee, rfl⟩, hloader, ⟨args, hargs, rfl⟩, hfirst, hx⟩
    rw [Node.firstNamed?_bare, Option.map_eq_some_iff] at hfirst
    obtain ⟨first, hfirst, rfl⟩ := hfirst
    rw [isLoader_bare] at hloader
    rw [literal_bare] at hx
    exact ⟨h, callee, args, first, hcallee, hloader, hargs, hfirst, hx⟩
  · rintro ⟨_, callee, args, first, hcallee, hloader, hargs, hfirst, hx⟩
    refine ⟨_, _, first.bare, ⟨callee, hcallee, rfl⟩, (isLoader_bare t callee).trans hloader,
      ⟨args, hargs, rfl⟩, ?_, (literal_bare t first).trans hx⟩
    rw [Node.firstNamed?_bare, hfirst, Option.map_some]

theorem specifierOf_bare (hn : n.HasPlainComments) (h : n.kind ≠ .call) :
    specifierOf t.bare n.bare = specifierOf t n := by
  have hclause : (n.bare.children.find? (·.kind = .importRequire)).bind (·.child? .source) =
      ((n.children.find? (·.kind = .importRequire)).bind (·.child? .source)).map Node.bare := by
    rw [Node.find?_kind_bare (k := .importRequire) (by decide)]
    cases hr : n.children.find? (·.kind = .importRequire) with
    | none => rfl
    | some r => exact Node.child?_bare (hn.child (List.mem_of_find?_eq_some hr)) _
  have hsource : sourceOf t.bare n.bare = (sourceOf t n).map Node.bare := by
    unfold sourceOf
    rw [Node.kind_bare, Node.child?_bare hn, hclause]
    split
    · cases n.child? .source <;> rfl
    · rfl
    · next hk => exact absurd hk h
    · rfl
  rw [specifierOf, hsource, specifierOf, Option.bind_map]
  congr 1
  exact funext fun m => literal_bare t m

theorem inTree_eq (t : Tree) : inTree t = t.root.preorder.filterMap (specifierOf t) :=
  Node.collect_preorder (specifierOf t) t.root

theorem specifierOf_bare_eq_iff (hn : n.HasPlainComments) :
    specifierOf t.bare n.bare = specifierOf t n ↔ ∀ x, Loads t n x → ¬ IsMasked n := by
  by_cases hk : n.kind = .call
  · have hbare (x : String) := specifierOf_bare_call (t := t) (x := x) hn hk
    have hplain (x : String) := specifierOf_call_eq_some (t := t) (x := x) hk
    constructor
    · intro he x hx
      exact ((hplain x).mp (he ▸ (hbare x).mpr hx)).2
    · intro hm
      refine Option.ext fun x => ?_
      rw [hbare, hplain]
      exact ⟨fun hx => ⟨hx, hm x hx⟩, fun hx => hx.1⟩
  · exact iff_of_true (specifierOf_bare hn hk) fun x hx => absurd hx.1 hk

theorem inTree_bare_iff (ht : t.root.HasPlainComments) : inTree t.bare = inTree t ↔
    ∀ n ∈ t.root.preorder, ∀ x, Loads t n x → ¬ IsMasked n := by
  have hnone : ∀ m : Node, m.kind = .comment → specifierOf t.bare m = none := by
    intro m hm
    rw [specifierOf, sourceOf, hm]
    rfl
  have hmore : ∀ n ∈ t.root.preorder, (specifierOf t n).isSome → (specifierOf t.bare n.bare).isSome := by
    intro n hn hs
    by_cases hk : n.kind = .call
    · obtain ⟨x, hx⟩ := Option.isSome_iff_exists.mp hs
      rw [(specifierOf_bare_call (ht.of_mem hn) hk).mpr ((specifierOf_call_eq_some hk).mp hx).1]
      rfl
    · rwa [specifierOf_bare (ht.of_mem hn) hk]
  refine (Node.collect_bare_iff (f := fun _ => specifierOf t) (g := fun _ => specifierOf t.bare)
    (fun _ => hnone) ht fun x hx => hmore _ (Node.mem_preorder_of_mem_family hx)).trans ?_
  constructor
  · intro h n hn
    obtain ⟨p, hp⟩ := Node.exists_mem_family none hn
    exact (specifierOf_bare_eq_iff (ht.of_mem hn)).mp (h _ hp)
  · intro h x hx
    have hn := Node.mem_preorder_of_mem_family hx
    exact (specifierOf_bare_eq_iff (ht.of_mem hn)).mpr (h _ hn)

end SourceAtlas.Import
