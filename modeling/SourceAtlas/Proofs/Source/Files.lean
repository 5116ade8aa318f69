import SourceAtlas.Proofs.Disk.Regular
import SourceAtlas.Source.Files

namespace SourceAtlas

open Disk SourceAtlas.Path

namespace Source

variable {d : Disk} {root : Path} {R : Place}

def IsBelow (d : Disk) (root : Path) (R : Place) (x : Path) : Prop :=
  ∃ ns : List Name, ns ≠ [] ∧ (∀ n ∈ ns, n.IsProper) ∧ (∀ n ∈ ns, n.isExcluded = false) ∧
    x = root.join ⟨ns⟩ ∧ x.isSource = true ∧ ∃ r, d.get? (R ++ ns) = some r ∧ r.isFile = true

theorem IsBelow.inside {x : Path} (h : IsBelow d root R x) : Inside root x := by
  obtain ⟨ns, hn, hp, _, hx, _⟩ := h
  exact ⟨ns, hn, hp, hx⟩

theorem filesBelow_isBelow (hd : IsRegular d) (levels : Nat) {as : List Name} {path x : Path}
    (has : ∀ n ∈ as, n.IsProper ∧ n.isExcluded = false)
    (hp : path = root ∧ as = [] ∨ path = root.join ⟨as⟩ ∧ as ≠ [])
    (hx : x ∈ filesBelow d levels (R ++ as) path) : IsBelow d root R x := by
  induction levels generalizing as path with
  | zero => cases hx
  | succ levels ih =>
      rw [filesBelow, List.mem_flatMap] at hx
      obtain ⟨⟨n, r⟩, he, hx⟩ := hx
      obtain ⟨he, hv⟩ := List.mem_filter.mp he
      have hr := hd.mem_children.mp he
      have hn : n.IsProper := (hd.names hr n (by simp)).proper
      have hhere : path.child n = root.join ⟨as ++ [n]⟩ := by
        rcases hp with ⟨rfl, rfl⟩ | ⟨rfl, hne⟩
        · exact Inside.child_root hn
        · exact Inside.child_join hne (fun m hm => (has m hm).1) hn
      have hnames : ∀ m ∈ as ++ [n], m.IsProper ∧ m.isExcluded = false := by
        intro m hm
        rcases List.mem_append.mp hm with hm | hm
        · exact has m hm
        · rw [List.mem_singleton.mp hm]
          exact ⟨hn, by simpa using hv⟩
      dsimp only at hx
      rw [hhere, List.append_assoc] at hx
      split at hx
      · exact ih hnames (.inr ⟨rfl, by simp⟩) hx
      · split at hx
        · next hf =>
            rw [Bool.and_eq_true] at hf
            rw [List.mem_singleton.mp hx]
            exact ⟨as ++ [n], by simp, fun m hm => (hnames m hm).1, fun m hm => (hnames m hm).2, rfl,
              hf.2, r, by rwa [← List.append_assoc], hf.1⟩
        · cases hx

theorem allFiles_eq (hR : d.FolderAt root R) :
    allFiles d root = filesBelow d (levelsOf d) R root := by
  obtain ⟨t, hs⟩ := hR
  rw [allFiles, hs]
  rfl

theorem files_isBelow (hd : IsRegular d) (hR : d.FolderAt root R) {limit : Nat} {x : Path}
    (hx : x ∈ (files d root limit).files) : IsBelow d root R x := by
  have hx := List.mem_of_mem_take hx
  rw [allFiles_eq hR, ← List.append_nil R] at hx
  exact filesBelow_isBelow hd (levelsOf d) (by simp) (.inl ⟨rfl, rfl⟩) hx

end Source

end SourceAtlas
