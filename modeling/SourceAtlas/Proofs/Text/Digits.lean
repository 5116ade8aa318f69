import SourceAtlas.Proofs.Text.Runs

namespace SourceAtlas.Text

theorem foldl_digits (ds : List Char) (n : Nat) :
    ds.foldl (fun n c => n * 10 + (c.toNat - 48)) n = Nat.ofDigitChars 10 ds n := by
  simp only [Nat.ofDigitChars_eq_foldl, Nat.mul_comm]
  rfl

theorem toDigits_isDigit (n : Nat) : ∀ c ∈ Nat.toDigits 10 n, c.isDigit = true :=
  fun _ hc => Nat.isDigit_of_mem_toDigits (by decide) (by decide) hc

theorem head?_toDigits {n : Nat} (h : n ≠ 0) : (Nat.toDigits 10 n).head? ≠ some '0' := by
  induction n using Nat.strongRecOn with
  | ind n ih =>
      rw [Nat.toDigits_eq_if (by decide)]
      split
      · next hn =>
          intro he
          have hc : n.digitChar = '0' := by simpa using he
          have hv := Nat.toNat_digitChar_sub_48_of_lt_ten hn
          rw [hc] at hv
          exact h hv.symm
      · next hn =>
          obtain ⟨c, cs, hc⟩ := List.exists_cons_of_ne_nil (Nat.toDigits_ne_nil (b := 10) (n := n / 10))
          have := ih (n / 10) (by omega) (by omega)
          rw [hc] at this ⊢
          exact this

end SourceAtlas.Text
