import SourceAtlas.Component.Declaration
import SourceAtlas.Proofs.Import.Loading

namespace SourceAtlas

open Syntax (Node Tree Kind)

namespace Declaration

inductive Wraps : Node → Binding → Prop
  | arrow {n} : n.kind = .arrowFunction → Wraps n .arrow
  | function {n} : n.kind = .functionExpression ∨ n.kind = .generatorFunction → Wraps n .function
  | brackets {n m b} : n.kind = .parenthesized → n.firstProper? = some m → Wraps m b → Wraps n b

inductive Veils : Node → Prop
  | here {n c} : n.kind = .parenthesized → n.firstNamed? = some c → c.kind = .comment → Veils n
  | inside {n m} : n.kind = .parenthesized → n.firstNamed? = some m → Veils m → Veils n

variable {t : Tree} {n m : Node} {b : Binding}

theorem bindingIn_eq (cs : List Node) :
    bindingIn cs = ((cs.find? Node.isNamed).map bindingOf).getD .other := by
  induction cs with
  | nil => rfl
  | cons c cs ih =>
      rw [bindingIn, List.find?_cons, ih]
      cases c.isNamed <;> rfl

theorem bindingOf_eq (n : Node) : bindingOf n = match n.kind with
    | .parenthesized => (n.firstNamed?.map bindingOf).getD .other
    | .arrowFunction => .arrow
    | .functionExpression | .generatorFunction => .function
    | _ => .other := by
  obtain ⟨k, r, s, e, cs⟩ := n
  cases k
  case parenthesized => exact bindingIn_eq cs
  all_goals rfl

theorem bindingOf_brackets (h : n.kind = .parenthesized) (hm : n.firstNamed? = some m) :
    bindingOf n = bindingOf m := by
  rw [bindingOf_eq n, h, hm]
  rfl

theorem bindingOf_comment (h : n.kind = .comment) : bindingOf n = .other := by
  rw [bindingOf_eq n, h]

theorem Veils.brackets (h : Veils n) : n.kind = .parenthesized := by
  cases h <;> assumption

theorem Wraps.ne_other (h : Wraps n b) : b ≠ .other := by
  induction h with
  | arrow => nofun
  | function => nofun
  | brackets _ _ _ ih => exact ih

theorem Wraps.bare (h : Wraps n b) : bindingOf n.bare = b := by
  induction h with
  | arrow hk => rw [bindingOf_eq, Node.kind_bare, hk]
  | function hk => rcases hk with hk | hk <;> rw [bindingOf_eq, Node.kind_bare, hk]
  | @brackets n m b hk hm _ ih =>
      have hm' : n.bare.firstNamed? = some m.bare := by rw [Node.firstNamed?_bare, hm, Option.map_some]
      rw [bindingOf_brackets ((Node.kind_bare n).trans hk) hm', ih]

theorem Wraps.binding (h : Wraps n b) : bindingOf n = b ↔ ¬ Veils n := by
  induction h with
  | @arrow n hk =>
      exact iff_of_true (by rw [bindingOf_eq, hk]) fun hv => nomatch hk.symm.trans hv.brackets
  | @function n hk =>
      rcases hk with hk | hk
      all_goals
        exact iff_of_true (by rw [bindingOf_eq, hk]) fun hv => nomatch hk.symm.trans hv.brackets
  | @brackets n m b hk hm hw ih =>
      by_cases hc : ∃ c, n.firstNamed? = some c ∧ c.kind = .comment
      · obtain ⟨c, hc, hcomment⟩ := hc
        rw [bindingOf_brackets hk hc, bindingOf_comment hcomment]
        exact iff_of_false hw.ne_other.symm (not_not_intro (.here hk hc hcomment))
      · have hfirst : n.firstNamed? = some m := by
          rw [Node.firstNamed?_eq, hm]
          exact fun c h hk => hc ⟨c, h, hk⟩
        rw [bindingOf_brackets hk hfirst, ih]
        refine not_congr ⟨.inside hk hfirst, fun hv => ?_⟩
        cases hv with
        | here _ hc' hcomment => exact absurd ⟨_, hc', hcomment⟩ hc
        | inside _ hm' hv =>
            obtain rfl := Option.some.inj (hfirst.symm.trans hm')
            exact hv

theorem bindingOf_bare_of_kind (h : n.kind ≠ .parenthesized) : bindingOf n.bare = bindingOf n := by
  rw [bindingOf_eq, bindingOf_eq n, Node.kind_bare]
  split <;> first | contradiction | rfl

theorem wraps_of_kind (hb : b ≠ .other) (hn : n.kind ≠ .parenthesized) (h : bindingOf n = b) :
    Wraps n b := by
  rw [bindingOf_eq] at h
  split at h
  · contradiction
  · next hk => exact h ▸ .arrow hk
  · next hk => exact h ▸ .function (.inl hk)
  · next hk => exact h ▸ .function (.inr hk)
  · exact absurd h.symm hb

mutual

theorem wraps_of_binding (hb : b ≠ .other) (n : Node) (h : bindingOf n = b ∨ bindingOf n.bare = b) :
    Wraps n b := by
  obtain ⟨k, r, s, e, cs⟩ := n
  by_cases hk : k = .parenthesized
  · subst hk
    obtain ⟨m, hm, hw⟩ := wraps_of_bindingIn hb cs h
    exact .brackets rfl hm hw
  · rw [bindingOf_bare_of_kind (n := .mk k r s e cs) hk, or_self] at h
    exact wraps_of_kind hb hk h

theorem wraps_of_bindingIn (hb : b ≠ .other) (cs : List Node)
    (h : bindingIn cs = b ∨ bindingIn (Node.bares cs) = b) :
    ∃ m, cs.find? (fun m => m.kind ≠ .comment && m.isNamed) = some m ∧ Wraps m b := by
  cases cs with
  | nil => exact absurd (h.elim id id).symm hb
  | cons c cs =>
      rw [bindingIn, Node.bares] at h
      rw [List.find?_cons]
      by_cases hc : c.kind = .comment
      · have hnamed : c.isNamed = true := by rw [Node.isNamed, hc]; rfl
        rw [if_pos hc, if_pos hnamed, bindingOf_comment hc] at h
        simp only [hc, ne_eq, not_true_eq_false, decide_false, Bool.false_and]
        exact wraps_of_bindingIn hb cs (.inr (h.resolve_left hb.symm))
      · rw [if_neg hc, bindingIn, Node.isNamed_bare] at h
        rw [decide_eq_true hc, Bool.true_and]
        cases hn : c.isNamed with
        | true =>
            rw [hn] at h
            exact ⟨c, rfl, wraps_of_binding hb c h⟩
        | false =>
            rw [hn] at h
            exact wraps_of_bindingIn hb cs h

end

theorem bindingOf_bare_eq_iff (n : Node) :
    bindingOf n.bare = bindingOf n ↔ ∀ b, Wraps n b → ¬ Veils n := by
  constructor
  · exact fun he b hw => hw.binding.mp (he ▸ hw.bare)
  · intro hv
    by_cases hb : bindingOf n.bare = .other
    · by_contra hne
      have hw := wraps_of_binding (fun h => hne (hb.trans h.symm)) n (.inl rfl)
      exact hne (hw.bare)
    · have hw := wraps_of_binding hb n (.inr rfl)
      exact (hw.binding.mpr (hv _ hw)).symm

/-- A variable of this name is bound to a function, brackets and comments aside. -/
def Binds (t : Tree) (n : Node) (name : String) (b : Binding) : Prop :=
  n.kind = .variableDeclarator ∧
    (∃ v, n.child? .name = some v ∧ v.kind = .identifier ∧ t.textOf v = name) ∧
    ∃ v, n.child? .value = some v ∧ Wraps v b

def IsVeiled (n : Node) : Prop := ∃ v, n.child? .value = some v ∧ Veils v

theorem nameIn_bare (hn : n.HasPlainComments) : nameIn t.bare n.bare = nameIn t n := by
  unfold nameIn
  rw [Node.child?_bare hn]
  cases n.child? .name with
  | none => rfl
  | some v =>
      have hv : t.bare.textOf v.bare = t.textOf v := Node.textOf_bare t v
      simp only [Option.map_some, Option.bind_eq_bind, Option.bind_some, hv]

theorem isExtended_bare (t : Tree) (n : Node) : isExtended t.bare n.bare = isExtended t n := by
  have hany (h : Node) : h.bare.children.any (·.kind = .extendsClause) =
      h.children.any (·.kind = .extendsClause) := by
    rw [← List.isSome_find?, ← List.isSome_find?, Node.find?_kind_bare (k := .extendsClause) (by decide),
      Option.isSome_map]
  unfold isExtended
  rw [Node.find?_kind_bare (k := .classHeritage) (by decide)]
  cases n.children.find? (·.kind = .classHeritage) with
  | none => rfl
  | some h =>
      have htext : t.bare.textOf h.bare = t.textOf h := Node.textOf_bare t h
      simp only [Option.map_some, hany, htext]

theorem atNode_declarator (h : n.kind = .variableDeclarator) (p : Option Node) : atNode t p n =
    (n.child? .name).bind fun v => if v.kind = .identifier then
      some (value (t.textOf v) (((n.child? .value).map bindingOf).getD .other)) else none := by
  rw [atNode, h]
  cases n.child? .name <;> rfl

theorem atNode_bare (hn : n.HasPlainComments) (h : n.kind ≠ .variableDeclarator) (p : Option Node) :
    atNode t.bare (p.map Node.bare) n.bare = atNode t p n := by
  have hparent : (p.map Node.bare).any (·.kind = .exportStatement) = p.any (·.kind = .exportStatement) := by
    cases p with
    | none => rfl
    | some q => simp only [Option.map_some, Option.any_some, Node.kind_bare]
  unfold atNode
  rw [Node.kind_bare, nameIn_bare hn, isExtended_bare, hparent]
  split <;> first | contradiction | rfl

theorem Binds.lowered {name : String} (h : Binds t n name b) (p : Option Node) :
    atNode t p n = some (value name b) ↔ ¬ IsVeiled n := by
  obtain ⟨hk, ⟨v, hv, hid, rfl⟩, u, hu, hw⟩ := h
  have hveiled : IsVeiled n ↔ Veils u := by simp [IsVeiled, hu]
  rw [atNode_declarator hk, hv, Option.bind_some, if_pos hid, hu, hveiled, ← hw.binding]
  simp

theorem atNode_bare_declarator (hn : n.HasPlainComments) (h : n.kind = .variableDeclarator)
    (p : Option Node) : atNode t.bare (p.map Node.bare) n.bare =
      (n.child? .name).bind fun v => if v.kind = .identifier then
        some (value (t.textOf v) (((n.child? .value).map fun u => bindingOf u.bare).getD .other))
      else none := by
  rw [atNode_declarator ((Node.kind_bare n).trans h), Node.child?_bare hn, Node.child?_bare hn,
    Option.bind_map, Option.map_map]
  have hv (v : Node) : t.bare.textOf v.bare = t.textOf v := Node.textOf_bare t v
  simp only [Function.comp_def, Node.kind_bare, hv]

theorem atNode_bare_eq_iff (hn : n.HasPlainComments) (p : Option Node) :
    atNode t.bare (p.map Node.bare) n.bare = atNode t p n ↔
      ∀ name b, Binds t n name b → ¬ IsVeiled n := by
  by_cases hk : n.kind = .variableDeclarator
  swap
  · exact iff_of_true (atNode_bare hn hk p) fun _ _ h => absurd h.1 hk
  rw [atNode_bare_declarator hn hk, atNode_declarator hk]
  unfold Binds IsVeiled
  rcases n.child? .name with _ | v
  · simp
  by_cases hid : v.kind = .identifier
  swap
  · simp [hid]
  rcases n.child? .value with _ | u
  · simp [hid]
  · simp only [Option.bind_some, Option.map_some, Option.getD_some, hid, if_true, Option.some.injEq,
      value.injEq, true_and, exists_eq_left', bindingOf_bare_eq_iff, hk]
    exact ⟨fun h _ b hb => h b hb.2, fun h b hb => h _ b ⟨rfl, hb⟩⟩

theorem isSome_atNode_bare (hn : n.HasPlainComments) (p : Option Node)
    (h : (atNode t p n).isSome) : (atNode t.bare (p.map Node.bare) n.bare).isSome := by
  by_cases hk : n.kind = .variableDeclarator
  · rw [atNode_declarator hk] at h
    rw [atNode_bare_declarator hn hk]
    cases hv : n.child? .name with
    | none => rwa [hv] at h
    | some v =>
        rw [hv, Option.bind_some] at h
        rw [Option.bind_some]
        split at h
        · next hid => rw [if_pos hid]; rfl
        · cases h
  · rwa [atNode_bare hn hk]

theorem inTree_bare_iff (ht : t.root.HasPlainComments) : inTree t.bare = inTree t ↔
    ∀ n ∈ t.root.preorder, ∀ name b, Binds t n name b → ¬ IsVeiled n := by
  have hnone : ∀ (p : Option Node) (m : Node), m.kind = .comment → atNode t.bare p m = none := by
    intro p m hm
    rw [atNode, hm]
  refine (Node.collect_bare_iff hnone ht fun x hx =>
    isSome_atNode_bare (ht.of_mem (Node.mem_preorder_of_mem_family hx)) x.1).trans ?_
  constructor
  · intro h n hn
    obtain ⟨p, hp⟩ := Node.exists_mem_family none hn
    exact (atNode_bare_eq_iff (ht.of_mem hn) p).mp (h _ hp)
  · intro h x hx
    have hn := Node.mem_preorder_of_mem_family hx
    exact (atNode_bare_eq_iff (ht.of_mem hn) x.1).mpr (h _ hn)

theorem inTree_eq (t : Tree) :
    inTree t = (Node.family none t.root).filterMap fun x => atNode t x.1 x.2 :=
  Node.collect_family (atNode t) t.root

end Declaration

namespace Syntax

/-- What a comment can hide from a look at the tree: the text that a call loads, if the comment is in
front of it, and the function that a variable is bound to, if the comment is the first inside of its
brackets. All else is found as if there were no comments. -/
theorem comments_hide {t : Tree} (ht : t.root.HasPlainComments) :
    (Import.inTree t.bare = Import.inTree t ↔
      ∀ n ∈ t.root.preorder, ∀ x, Import.Loads t n x → ¬ Import.IsMasked n) ∧
    (Import.inTree t = t.root.preorder.filterMap (Import.specifierOf t) ∧
      ∀ n x, Import.Loads t n x → (Import.specifierOf t n = some x ↔ ¬ Import.IsMasked n)) ∧
    (Declaration.inTree t.bare = Declaration.inTree t ↔
      ∀ n ∈ t.root.preorder, ∀ name b, Declaration.Binds t n name b → ¬ Declaration.IsVeiled n) ∧
    (Declaration.inTree t =
        (Node.family none t.root).filterMap (fun x => Declaration.atNode t x.1 x.2) ∧
      ∀ p n name b, Declaration.Binds t n name b →
        (Declaration.atNode t p n = some (.value name b) ↔ ¬ Declaration.IsVeiled n)) := by
  refine ⟨Import.inTree_bare_iff ht, ⟨Import.inTree_eq t, ?_⟩, Declaration.inTree_bare_iff ht,
    Declaration.inTree_eq t, fun p n name b h => h.lowered p⟩
  intro n x h
  rw [Import.specifierOf_call_eq_some h.1]
  exact ⟨And.right, fun hm => ⟨h, hm⟩⟩

def loadingTree (source : String) (args : List Node) : Tree :=
  let call : Node := .mk .call none 0 21
    [.mk .importWord (some .function) 0 6 [], .mk .arguments (some .arguments) 6 21
      (.leaf .token 6 7 :: args ++ [.leaf .token 20 21])]
  ⟨source.toList.toArray, .mk .program none 0 22 [.mk .phrase none 0 22 [call, .leaf .token 21 22]], true⟩

def annotated : Tree :=
  loadingTree "import('./x' /* c */);" [.leaf .text 7 12, .leaf .comment 13 20]

def masked : Tree :=
  loadingTree "import(/* c */ './x');" [.leaf .comment 7 14, .leaf .text 15 20]

theorem comments_hide_nothing : annotated.root.HasPlainComments ∧
    Import.inTree annotated.bare = Import.inTree annotated ∧
    Declaration.inTree annotated.bare = Declaration.inTree annotated := by
  have ht : annotated.root.HasPlainComments := by
    unfold Node.HasPlainComments
    decide
  refine ⟨ht, (comments_hide ht).1.mpr ?_, (comments_hide ht).2.2.1.mpr ?_⟩
  · have hfirst : ∀ n ∈ annotated.root.preorder,
        ((n.child? .arguments).bind Node.firstNamed?).any (·.kind = .comment) = false := by decide
    rintro n hn _ _ ⟨args, c, hargs, hc, hk⟩
    have := hfirst n hn
    rw [hargs, Option.bind_some, hc, Option.any_some, hk] at this
    exact absurd this (by decide)
  · have hkind : ∀ n ∈ annotated.root.preorder, n.kind ≠ .variableDeclarator := by decide
    exact fun n hn _ _ hb => absurd hb.1 (hkind n hn)

theorem comments_hide_loaded : masked.root.HasPlainComments ∧
    Import.inTree masked = [] ∧ Import.inTree masked.bare = ["./x"] := by
  refine ⟨by unfold Node.HasPlainComments; decide, ?_, ?_⟩
  · rw [Import.inTree_eq]
    decide
  · rw [Import.inTree_eq]
    decide

end Syntax

end SourceAtlas
