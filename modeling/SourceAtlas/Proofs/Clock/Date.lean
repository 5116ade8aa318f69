import Mathlib.Tactic.Common
import SourceAtlas.Clock.Date

namespace SourceAtlas.Date

def yearOfEra (inEra : Nat) : Nat := (inEra - inEra / 1460 + inEra / 36524 - inEra / 146096) / 365

def dayOfYear (inEra : Nat) : Nat :=
  inEra - (365 * yearOfEra inEra + yearOfEra inEra / 4 - yearOfEra inEra / 100)

def monthOf (inYear : Nat) : Nat :=
  if (5 * inYear + 2) / 153 < 10 then (5 * inYear + 2) / 153 + 3 else (5 * inYear + 2) / 153 - 9

def dayOf (inYear : Nat) : Nat := inYear - (153 * ((5 * inYear + 2) / 153) + 2) / 5 + 1

theorem ofDayNumber_eq (n : Int) : ofDayNumber n =
    let inEra := ((n + 719468) % 146097).toNat
    ⟨yearOfEra inEra + (n + 719468) / 146097 * 400 +
      (if monthOf (dayOfYear inEra) ≤ 2 then 1 else 0),
      monthOf (dayOfYear inEra), dayOf (dayOfYear inEra)⟩ := rfl

theorem yearOfEra_parts {c q t : Nat} (hc : c ≤ 3) (ht : t ≤ 1460) (hd : 1461 * q + t < 36524) :
    yearOfEra (36524 * c + (1461 * q + t)) = 100 * c + 4 * q + min (t / 365) 3 := by
  have hquad : (36524 * c + (1461 * q + t)) / 1460 = 25 * c + q + (24 * c + q + t) / 1460 := by
    omega
  have hcentury : (36524 * c + (1461 * q + t)) / 36524 = c := by omega
  have hera : (36524 * c + (1461 * q + t)) / 146096 = 0 := by omega
  have hq : q ≤ 24 := by omega
  rw [yearOfEra, hquad, hcentury, hera]
  by_cases hb : 24 * c + q + t < 1460
  · have hrest : (24 * c + q + t) / 1460 = 0 := by omega
    rw [hrest]
    omega
  · have hrest : (24 * c + q + t) / 1460 = 1 := by omega
    rw [hrest]
    omega

theorem dayOfYear_parts {c q t : Nat} (hc : c ≤ 3) (ht : t ≤ 1460) (hd : 1461 * q + t < 36524) :
    dayOfYear (36524 * c + (1461 * q + t)) = t - 365 * min (t / 365) 3 := by
  have hq : q ≤ 24 := by omega
  have hspans : (100 * c + 4 * q + min (t / 365) 3) / 4 = 25 * c + q := by omega
  have hcenturies : (100 * c + 4 * q + min (t / 365) 3) / 100 = c := by omega
  rw [dayOfYear, yearOfEra_parts hc ht hd, hspans, hcenturies]
  omega

theorem dayOfYear_le {e : Nat} (h : e < 146097) : dayOfYear e ≤ 365 ∧
    (dayOfYear e = 365 → (yearOfEra e + 1) % 4 = 0 ∧
      ((yearOfEra e + 1) % 100 = 0 → (yearOfEra e + 1) % 400 = 0)) := by
  by_cases hlast : e = 146096
  · subst hlast
    decide
  · obtain ⟨c, q, t, hc, ht, hd, rfl⟩ : ∃ c q t, c ≤ 3 ∧ t ≤ 1460 ∧ 1461 * q + t < 36524 ∧
        e = 36524 * c + (1461 * q + t) :=
      ⟨e / 36524, e % 36524 / 1461, e % 36524 % 1461, by omega, by omega, by omega, by omega⟩
    rw [dayOfYear_parts hc ht hd, yearOfEra_parts hc ht hd]
    refine ⟨by omega, fun hk => ?_⟩
    have ht' : t = 1460 := by omega
    subst ht'
    omega

theorem monthOf_bounds : ∀ k ≤ 365, 1 ≤ monthOf k ∧ monthOf k ≤ 12 := by
  decide +kernel

theorem dayOf_bounds : ∀ k ≤ 365, 1 ≤ dayOf k ∧
    (k = 365 → monthOf k = 2 ∧ dayOf k = 29) ∧
    (k < 365 → dayOf k ≤ (if monthOf k = 2 then 28 else
      if monthOf k = 4 ∨ monthOf k = 6 ∨ monthOf k = 9 ∨ monthOf k = 11 then 30 else 31)) := by
  decide +kernel

theorem isValid_ofDayNumber {n : Int} (hlow : firstYear ≤ (ofDayNumber n).year)
    (hhigh : (ofDayNumber n).year ≤ lastYear) : (ofDayNumber n).isValid = true := by
  have he : ((n + 719468) % 146097).toNat < 146097 := by omega
  rw [ofDayNumber_eq] at hlow hhigh ⊢
  obtain ⟨hle, hleap⟩ := dayOfYear_le he
  generalize hE : ((n + 719468) % 146097).toNat = e at *
  generalize (n + 719468) / 146097 = era at *
  obtain ⟨hm, hm'⟩ := monthOf_bounds _ hle
  obtain ⟨hday, hend, hinner⟩ := dayOf_bounds _ hle
  dsimp only at hlow hhigh ⊢
  simp only [isValid, Bool.and_eq_true, decide_eq_true_eq]
  refine ⟨⟨⟨⟨⟨hlow, hhigh⟩, hm⟩, hm'⟩, hday⟩, ?_⟩
  by_cases hk : dayOfYear e = 365
  · obtain ⟨hfour, hhundred⟩ := hleap hk
    obtain ⟨hfeb, h29⟩ := hend hk
    have hyear : isLeap (yearOfEra e + era * 400 + 1) = true := by
      simp only [isLeap, Bool.and_eq_true, Bool.or_eq_true, beq_iff_eq, bne_iff_ne]
      omega
    refine Nat.le_of_eq ?_
    rw [hfeb, h29, if_pos (by decide), daysIn, if_pos rfl, if_pos hyear]
  · refine Nat.le_trans (hinner (by omega)) ?_
    rw [daysIn]
    split
    · generalize isLeap _ = leap
      cases leap <;> decide
    · exact Nat.le_refl _

end SourceAtlas.Date
