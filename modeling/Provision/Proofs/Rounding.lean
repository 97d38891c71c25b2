import Mathlib.Tactic.SplitIfs
import Provision.Binary64

/-!
# Whole numbers as floating point

A whole number is rounded to fifty-three binary digits. Scaled by its own length it has just so
many before the point (`div_scale`), so rounding keeps them and may carry into one more place.
Unless the number is far greater than any of sixty-four bits, it is thus near a finite one
(`isFinite_ofInt`).
-/

namespace Provision

namespace Binary64

theorem isFinite_ofParts {negative : Bool} {m : Nat} {e : Int} (h : Canonical m e) :
    (ofParts negative m e).isFinite = true := by
  rw [ofParts, dif_pos h]
  rfl

theorem divideToEven_cases (num den : Nat) :
    divideToEven num den = num / den ∨ divideToEven num den = num / den + 1 := by
  unfold divideToEven
  dsimp only
  split_ifs
  · exact .inl rfl
  · exact .inr rfl
  · exact .inl rfl
  · exact .inr rfl

/-- Scaled by its own length, a whole number has fifty-three digits before the point. -/
theorem div_scale {num : Nat} (h : num ≠ 0) {n d : Nat}
    (hs : scale num 1 (-(num.log2 - 52)) = (n, d)) :
    Nat.pow 2 52 ≤ n / d ∧ n / d < Nat.pow 2 53 := by
  have hlow : 2 ^ num.log2 ≤ num := Nat.log2_self_le h
  have hhigh : num < 2 ^ (num.log2 + 1) := Nat.lt_log2_self
  generalize num.log2 = places at *
  rcases Nat.lt_or_ge 52 places with hlt | hle
  · obtain ⟨k, rfl⟩ := Nat.exists_eq_add_of_lt hlt
    rw [show -(((52 + k + 1 : Nat) : Int) - 52) = .negSucc k by omega] at hs
    cases hs
    have hpos := Nat.two_pow_pos (k + 1)
    simp only [Nat.pow_eq, Nat.one_mul]
    refine ⟨?_, ?_⟩
    · refine (Nat.le_div_iff_mul_le hpos).2 ?_
      rwa [← Nat.pow_add]
    · refine (Nat.div_lt_iff_lt_mul hpos).2 ?_
      rw [← Nat.pow_add, show 53 + (k + 1) = 52 + k + 1 + 1 by omega]
      exact hhigh
  · obtain ⟨k, hk⟩ := Nat.exists_eq_add_of_le hle
    rw [show -((places : Int) - 52) = ((k : Nat) : Int) by omega] at hs
    cases hs
    have hpos := Nat.two_pow_pos k
    simp only [Nat.pow_eq, Nat.div_one]
    refine ⟨?_, ?_⟩
    · rw [hk, Nat.pow_add]
      exact Nat.mul_le_mul_right _ hlow
    · rw [show 53 = places + 1 + k by omega, Nat.pow_add]
      exact Nat.mul_lt_mul_of_pos_right hhigh hpos

theorem lastPlace_one {num : Nat} (h : num ≠ 0) : lastPlace num 1 = num.log2 - 52 := by
  have hguess : max ((num.log2 : Int) - ((1 : Nat).log2 : Int) - 52) (-1074) = num.log2 - 52 := by
    have hone : (1 : Nat).log2 = 0 := by decide
    omega
  unfold lastPlace
  rw [hguess]
  dsimp only
  rw [if_neg]
  rintro ⟨hlt, -⟩
  exact absurd (div_scale h rfl).1 (Nat.not_le.2 hlt)

/-- A whole number that is not too great is near a finite one. -/
theorem isFinite_ofRatio_one {negative : Bool} {num : Nat} (h : num.log2 ≤ 1022) :
    (ofRatio negative num 1).isFinite = true := by
  unfold ofRatio
  split_ifs with hzero
  · rfl
  dsimp only
  rw [lastPlace_one hzero]
  rcases hs : scale num 1 (-(num.log2 - 52)) with ⟨n, d⟩
  obtain ⟨hlow, hhigh⟩ := div_scale hzero hs
  have hcases := divideToEven_cases n d
  dsimp only
  simp only [Nat.pow_eq] at hlow hhigh ⊢
  -- Rounding up to the next power of two shifts it by one place.
  split_ifs with htop
  · refine isFinite_ofParts ?_
    simp only [Canonical, Nat.pow_eq]
    omega
  · refine isFinite_ofParts ?_
    simp only [Canonical, Nat.pow_eq]
    omega

theorem isFinite_ofInt {i : Int} (hlow : int64Min ≤ i) (hhigh : i < Nat.pow 2 64) :
    (ofInt i).isFinite = true := by
  refine isFinite_ofRatio_one ?_
  by_cases hzero : i.natAbs = 0
  · rw [hzero, Nat.log2_zero]
    omega
  · have hlog : i.natAbs.log2 < 65 := by
      rw [Nat.log2_lt hzero]
      simp only [int64Min, Nat.pow_eq] at hlow hhigh
      omega
    omega

end Binary64

end Provision
