import Mathlib.Data.List.Basic
import SourceAtlas.Proofs.Syntax.Walk

namespace SourceAtlas.Syntax

namespace Node

/-- Comments are leaves, and no part of the node they stand in. -/
def HasPlainComments (n : Node) : Prop :=
  ∀ m ∈ n.preorder, m.kind = .comment → m.role = none ∧ m.children = []

def firstProper? (n : Node) : Option Node := n.children.find? fun m => m.kind ≠ .comment && m.isNamed

@[simp] theorem kind_bare (n : Node) : n.bare.kind = n.kind := by cases n; rfl

@[simp] theorem role_bare (n : Node) : n.bare.role = n.role := by cases n; rfl

@[simp] theorem isNamed_bare (n : Node) : n.bare.isNamed = n.isNamed := by rw [isNamed, kind_bare, isNamed]

theorem children_bare (n : Node) : n.bare.children = bares n.children := by cases n; rfl

theorem textOf_bare (t : Tree) (n : Node) : t.textOf n.bare = t.textOf n := by cases n; rfl

variable {n m : Node}

mutual

theorem preorder_trans {k : Node} (n : Node) (h : m ∈ n.preorder) (hk : k ∈ m.preorder) :
    k ∈ n.preorder := by
  obtain ⟨_, _, _, _, cs⟩ := n
  rw [preorder] at h
  rcases List.mem_cons.mp h with rfl | h
  · exact hk
  · exact List.mem_cons_of_mem _ (preorders_trans cs h hk)

theorem preorders_trans {k : Node} (cs : List Node) (h : m ∈ preorders cs) (hk : k ∈ m.preorder) :
    k ∈ preorders cs := by
  cases cs with
  | nil => cases h
  | cons c cs =>
      rw [preorders] at h ⊢
      rcases List.mem_append.mp h with h | h
      · exact List.mem_append_left _ (preorder_trans c h hk)
      · exact List.mem_append_right _ (preorders_trans cs h hk)

end

theorem mem_preorder_self (n : Node) : n ∈ n.preorder := by
  cases n
  rw [preorder]
  exact List.mem_cons_self

theorem mem_preorders {cs : List Node} (h : m ∈ cs) : m ∈ preorders cs := by
  induction cs with
  | nil => cases h
  | cons c cs ih =>
      rw [preorders]
      rcases List.mem_cons.mp h with rfl | h
      · exact List.mem_append_left _ m.mem_preorder_self
      · exact List.mem_append_right _ (ih h)

theorem mem_preorder_of_mem_children (h : m ∈ n.children) : m ∈ n.preorder := by
  cases n
  exact List.mem_cons_of_mem _ (mem_preorders h)

theorem HasPlainComments.of_mem (h : n.HasPlainComments) (hm : m ∈ n.preorder) :
    m.HasPlainComments := fun _ hk => h _ (preorder_trans n hm hk)

theorem HasPlainComments.child (h : n.HasPlainComments) (hm : m ∈ n.children) : m.HasPlainComments :=
  h.of_mem (mem_preorder_of_mem_children hm)

theorem find?_bares {q : Node → Bool} (hq : ∀ m, q m.bare = q m) (cs : List Node) :
    (bares cs).find? q = (cs.find? fun m => m.kind ≠ .comment && q m).map bare := by
  induction cs with
  | nil => rfl
  | cons c cs ih =>
      rw [bares, List.find?_cons]
      by_cases hc : c.kind = .comment
      · simp only [hc, if_true, ne_eq, not_true_eq_false, decide_false, Bool.false_and, ih]
      · rw [if_neg hc, List.find?_cons, hq, decide_eq_true hc, Bool.true_and, ih]
        cases q c <;> rfl

theorem find?_and_eq_self {r q : Node → Bool} {cs : List Node}
    (h : ∀ c ∈ cs, q c = true → r c = true) : (cs.find? fun m => r m && q m) = cs.find? q := by
  induction cs with
  | nil => rfl
  | cons c cs ih =>
      rw [List.find?_cons, List.find?_cons, ih fun d hd => h d (.tail _ hd)]
      cases hc : q c with
      | false => rw [Bool.and_false]
      | true => rw [h c List.mem_cons_self hc, Bool.and_self]

theorem child?_bare (h : n.HasPlainComments) (r : Role) : n.bare.child? r = (n.child? r).map bare := by
  have hrole : ∀ m ∈ n.children, decide (m.role = some r) = true → decide (m.kind ≠ .comment) = true := by
    intro m hm hr
    refine decide_eq_true fun hk => ?_
    rw [(h m (mem_preorder_of_mem_children hm) hk).1] at hr
    simp at hr
  rw [child?, children_bare, find?_bares (fun m => by rw [role_bare]), find?_and_eq_self hrole, child?]

theorem find?_kind_bare {k : Kind} (hk : k ≠ .comment) (n : Node) :
    n.bare.children.find? (·.kind = k) = (n.children.find? (·.kind = k)).map bare := by
  rw [children_bare, find?_bares (fun m => by rw [kind_bare]), find?_and_eq_self]
  intro m _ hm
  exact decide_eq_true fun hc => hk ((of_decide_eq_true hm).symm.trans hc)

theorem firstNamed?_bare (n : Node) : n.bare.firstNamed? = n.firstProper?.map bare := by
  rw [firstNamed?, children_bare, find?_bares isNamed_bare, firstProper?]

theorem firstNamed?_eq (h : ∀ c, n.firstNamed? = some c → c.kind ≠ .comment) :
    n.firstNamed? = n.firstProper? := by
  unfold firstNamed? at h
  unfold firstNamed? firstProper?
  generalize n.children = cs at h
  induction cs with
  | nil => rfl
  | cons c cs ih =>
      rw [List.find?_cons] at h
      rw [List.find?_cons, List.find?_cons]
      cases hn : c.isNamed with
      | false =>
          rw [hn] at h
          rw [Bool.and_false]
          exact ih h
      | true =>
          rw [hn] at h
          rw [decide_eq_true (h c rfl)]
          rfl

theorem filterMap_eq_iff {α β : Type} {f g : α → Option β} {xs : List α}
    (h : ∀ x ∈ xs, (f x).isSome → (g x).isSome) :
    xs.filterMap g = xs.filterMap f ↔ ∀ x ∈ xs, g x = f x := by
  have hlength : ∀ {xs : List α}, (∀ x ∈ xs, (f x).isSome → (g x).isSome) →
      (xs.filterMap f).length ≤ (xs.filterMap g).length := by
    intro xs h
    rw [List.length_filterMap_eq_countP, List.length_filterMap_eq_countP]
    exact List.countP_mono_left h
  refine ⟨fun he => ?_, List.filterMap_congr⟩
  induction xs with
  | nil => nofun
  | cons x xs ih =>
      have hxs : ∀ y ∈ xs, (f y).isSome → (g y).isSome := fun y hy => h y (.tail _ hy)
      have hx := h x List.mem_cons_self
      rw [List.filterMap_cons, List.filterMap_cons] at he
      rw [List.forall_mem_cons]
      generalize f x = a, g x = b at he hx ⊢
      rcases a with _ | a <;> rcases b with _ | b
      · exact ⟨rfl, ih hxs he⟩
      · have hlt : (b :: xs.filterMap g).length = (xs.filterMap f).length := congrArg List.length he
        have hle := hlength hxs
        rw [List.length_cons] at hlt
        omega
      · exact absurd (hx rfl) Bool.noConfusion
      · obtain ⟨rfl, hrest⟩ : b = a ∧ xs.filterMap g = xs.filterMap f := List.cons.inj he
        exact ⟨rfl, ih hxs hrest⟩

mutual

theorem filterMap_family_bare {α : Type} {f : Option Node → Node → Option α}
    (hf : ∀ p m, m.kind = .comment → f p m = none) (n : Node) (p : Option Node)
    (h : n.HasPlainComments) : (family (p.map bare) n.bare).filterMap (fun x => f x.1 x.2) =
      (family p n).filterMap fun x => f (x.1.map bare) x.2.bare := by
  obtain ⟨k, r, s, e, cs⟩ := n
  have hcs := filterMap_families_bare hf cs (some (mk k r s e cs)) fun m hm =>
    h m (List.mem_cons_of_mem _ hm)
  rw [Option.map_some] at hcs
  simp only [bare, family, List.filterMap_cons] at hcs ⊢
  rw [hcs]

theorem filterMap_families_bare {α : Type} {f : Option Node → Node → Option α}
    (hf : ∀ p m, m.kind = .comment → f p m = none) (cs : List Node) (p : Option Node)
    (h : ∀ m ∈ preorders cs, m.kind = .comment → m.role = none ∧ m.children = []) :
    (families (p.map bare) (bares cs)).filterMap (fun x => f x.1 x.2) =
      (families p cs).filterMap fun x => f (x.1.map bare) x.2.bare := by
  cases cs with
  | nil => rfl
  | cons c cs =>
      have hc : c.HasPlainComments := fun m hm => h m (List.mem_append_left _ hm)
      have hcs := filterMap_families_bare hf cs p fun m hm => h m (List.mem_append_right _ hm)
      rw [bares, families, List.filterMap_append, ← hcs]
      by_cases hk : c.kind = .comment
      · obtain ⟨k, r, s, e, ds⟩ := c
        obtain rfl : ds = [] := (hc _ (mem_preorder_self _) hk).2
        rw [if_pos hk, family, families, List.filterMap_cons, hf _ _ ((kind_bare _).trans hk)]
        rfl
      · rw [if_neg hk, families, List.filterMap_append, filterMap_family_bare hf c p hc]

end

theorem collect_bare_iff {α : Type} {f g : Option Node → Node → Option α}
    (hg : ∀ p m, m.kind = .comment → g p m = none) (h : n.HasPlainComments)
    (hfg : ∀ x ∈ family none n, (f x.1 x.2).isSome → (g (x.1.map bare) x.2.bare).isSome) :
    n.bare.collect (fun c => g c.parent? c.focus) = n.collect (fun c => f c.parent? c.focus) ↔
      ∀ x ∈ family none n, g (x.1.map bare) x.2.bare = f x.1 x.2 := by
  rw [collect_family, collect_family, ← filterMap_eq_iff hfg, ← filterMap_family_bare hg n none h]
  rfl

theorem mem_preorder_of_mem_family {p : Option Node} {x : Option Node × Node} (h : x ∈ family p n) :
    x.2 ∈ n.preorder := by
  rw [← map_family n p]
  exact List.mem_map_of_mem h

theorem exists_mem_family (p : Option Node) (h : m ∈ n.preorder) : ∃ q, (q, m) ∈ family p n := by
  rw [← map_family n p] at h
  obtain ⟨⟨q, _⟩, hx, rfl⟩ := List.mem_map.mp h
  exact ⟨q, hx⟩

end Node

def Tree.bare (t : Tree) : Tree := { t with root := t.root.bare }

end SourceAtlas.Syntax
