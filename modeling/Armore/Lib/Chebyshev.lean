import Mathlib.Algebra.Order.Field.Basic
import Mathlib.Tactic.Linarith

/-!
# A Chebyshev score

A distance is rated against a deviation: nothing up to the deviation, and beyond it what Chebyshev's
inequality leaves of certainty, one minus the square of their quotient.
-/

namespace Armore.Lib

variable {K : Type} [Field K] [LinearOrder K]

def chebyshev (std distance : K) : K :=
  if distance ≤ std then 0 else 1 - std * std / (distance * distance)

variable [IsStrictOrderedRing K] {std std' distance distance' : K}

/-- Beyond the deviation the quotient is below one. -/
theorem chebyshev_quotient (hstd : 0 ≤ std) (hfar : std < distance) :
    0 ≤ std * std / (distance * distance) ∧ std * std / (distance * distance) < 1 := by
  have hdistance : 0 < distance := lt_of_le_of_lt hstd hfar
  have hsquare : 0 < distance * distance := mul_pos hdistance hdistance
  have hless : std * std < distance * distance := mul_self_lt_mul_self hstd hfar
  exact ⟨div_nonneg (mul_nonneg hstd hstd) hsquare.le, (div_lt_one hsquare).mpr hless⟩

theorem chebyshev_nonneg (hstd : 0 ≤ std) : 0 ≤ chebyshev std distance := by
  unfold chebyshev
  split
  · exact le_rfl
  · rename_i hfar
    linarith only [(chebyshev_quotient hstd (not_le.mp hfar)).2]

theorem chebyshev_le_one (hstd : 0 ≤ std) : chebyshev std distance ≤ 1 := by
  unfold chebyshev
  split
  · exact zero_le_one
  · rename_i hfar
    linarith only [(chebyshev_quotient hstd (not_le.mp hfar)).1]

theorem chebyshev_eq_zero_iff (hstd : 0 ≤ std) : chebyshev std distance = 0 ↔ distance ≤ std := by
  refine ⟨fun hzero => ?_, fun hnear => if_pos hnear⟩
  by_contra hfar
  rw [chebyshev, if_neg hfar] at hzero
  linarith only [hzero, (chebyshev_quotient hstd (not_le.mp hfar)).2]

/-- Farther out, or with a smaller deviation, the score is no less. -/
theorem chebyshev_le_chebyshev (hstd : 0 ≤ std') (hless : std' ≤ std) (hfarther : distance ≤ distance') :
    chebyshev std distance ≤ chebyshev std' distance' := by
  by_cases hnear : distance ≤ std
  · rw [chebyshev, if_pos hnear]
    exact chebyshev_nonneg hstd
  · have hfar : std < distance := not_le.mp hnear
    have hpos : 0 < distance := lt_of_le_of_lt (hstd.trans hless) hfar
    have hfar' : ¬ distance' ≤ std' := not_le.mpr (lt_of_le_of_lt hless (lt_of_lt_of_le hfar hfarther))
    have hnumerator : std' * std' ≤ std * std := mul_self_le_mul_self hstd hless
    have hdenominator : distance * distance ≤ distance' * distance' := mul_self_le_mul_self hpos.le hfarther
    have hquotient : std' * std' / (distance' * distance') ≤ std * std / (distance * distance) :=
      div_le_div₀ (mul_self_nonneg std) hnumerator (mul_pos hpos hpos) hdenominator
    rw [chebyshev, if_neg hnear, chebyshev, if_neg hfar']
    linarith only [hquotient]

end Armore.Lib
