import Mathlib.Algebra.BigOperators.Group.List.Basic
import Mathlib.Algebra.Order.Field.Basic
import Mathlib.Data.Nat.Cast.Order.Ring
import Mathlib.Tactic.Ring

/-!
# The mean and the squared deviations of a sample

The mean of a list and the sum of the squares of its deviations, as sums over the whole list, and what one
more element makes of them. The two step lemmas are the updates that a one-pass computation uses.
-/

namespace Armore.Lib

variable {K : Type} [Field K]

/-- The mean, zero of an empty list. -/
def mean (xs : List K) : K := xs.sum / xs.length

/-- The squared distances from a point. -/
def squaresFrom (c : K) (xs : List K) : K := (xs.map fun x => (x - c) ^ 2).sum

/-- The squared deviations from the mean. -/
def squaredDeviations (xs : List K) : K := squaresFrom (mean xs) xs

@[simp] theorem mean_nil : mean ([] : List K) = 0 := by
  simp [mean]

@[simp] theorem squaresFrom_nil (c : K) : squaresFrom c [] = 0 := rfl

@[simp] theorem squaredDeviations_nil : squaredDeviations ([] : List K) = 0 := rfl

@[simp] theorem squaresFrom_cons (c x : K) (xs : List K) :
    squaresFrom c (x :: xs) = (x - c) ^ 2 + squaresFrom c xs := by
  simp [squaresFrom]

theorem squaresFrom_append (c : K) (xs ys : List K) :
    squaresFrom c (xs ++ ys) = squaresFrom c xs + squaresFrom c ys := by
  simp [squaresFrom]

/-- Moving the point from which the distances are taken. -/
theorem squaresFrom_eq (c d : K) (xs : List K) :
    squaresFrom d xs = squaresFrom c xs + 2 * (c - d) * (xs.sum - xs.length * c) + xs.length * (c - d) ^ 2 := by
  induction xs with
  | nil => simp
  | cons x xs ih =>
      rw [squaresFrom_cons, squaresFrom_cons, ih, List.sum_cons, List.length_cons, Nat.cast_add, Nat.cast_one]
      ring

/-! ### The order of the sample -/

theorem mean_perm {xs ys : List K} (h : xs.Perm ys) : mean xs = mean ys := by
  rw [mean, mean, h.sum_eq, h.length_eq]

theorem squaresFrom_perm (c : K) {xs ys : List K} (h : xs.Perm ys) : squaresFrom c xs = squaresFrom c ys :=
  (h.map _).sum_eq

theorem squaredDeviations_perm {xs ys : List K} (h : xs.Perm ys) :
    squaredDeviations xs = squaredDeviations ys := by
  rw [squaredDeviations, squaredDeviations, mean_perm h, squaresFrom_perm _ h]

/-! ### One more element -/

section

variable [CharZero K]

theorem length_mul_mean (xs : List K) : (xs.length : K) * mean xs = xs.sum := by
  cases xs with
  | nil => simp
  | cons x xs =>
      have hpos : ((x :: xs).length : K) ≠ 0 := Nat.cast_ne_zero.mpr (Nat.succ_ne_zero _)
      rw [mean, mul_div_cancel₀ _ hpos]

theorem mean_concat (xs : List K) (x : K) :
    mean (xs ++ [x]) = mean xs + (x - mean xs) / (xs.length + 1 : ℕ) := by
  have hpos : ((xs.length + 1 : ℕ) : K) ≠ 0 := Nat.cast_ne_zero.mpr (Nat.succ_ne_zero _)
  have hlength : (xs ++ [x]).length = xs.length + 1 := by simp
  have hsum : (xs ++ [x]).sum = xs.length * mean xs + x := by
    rw [List.sum_append, List.sum_singleton, length_mul_mean]
  rw [mean, hsum, hlength, div_eq_iff hpos, add_mul, div_mul_cancel₀ _ hpos, Nat.cast_add, Nat.cast_one]
  ring

/-- The mean is where the cross term vanishes. -/
theorem squaresFrom_eq_squaredDeviations (d : K) (xs : List K) :
    squaresFrom d xs = squaredDeviations xs + xs.length * (mean xs - d) ^ 2 := by
  have hcross : xs.sum - xs.length * mean xs = 0 := by rw [length_mul_mean, sub_self]
  rw [squaresFrom_eq (mean xs) d xs, hcross, mul_zero, add_zero, squaredDeviations]

theorem squaredDeviations_concat (xs : List K) (x : K) :
    squaredDeviations (xs ++ [x]) = squaredDeviations xs + (x - mean xs) * (x - mean (xs ++ [x])) := by
  have hpos : ((xs.length + 1 : ℕ) : K) ≠ 0 := Nat.cast_ne_zero.mpr (Nat.succ_ne_zero _)
  have hstep : mean (xs ++ [x]) = mean xs + (x - mean xs) / (xs.length + 1 : ℕ) := mean_concat xs x
  -- Both sides in terms of the step of the mean.
  obtain ⟨step, hdef⟩ : ∃ step, step = (x - mean xs) / (xs.length + 1 : ℕ) := ⟨_, rfl⟩
  have hdelta : x - mean xs = step * (xs.length + 1) := by
    rw [hdef, ← Nat.cast_succ, div_mul_cancel₀ _ hpos]
  have hrest : x - mean (xs ++ [x]) = step * xs.length := by
    rw [hstep, ← hdef, ← sub_sub, hdelta]
    ring
  have hmove : mean xs - mean (xs ++ [x]) = -step := by
    rw [hstep, ← hdef]
    ring
  calc
    squaredDeviations (xs ++ [x])
        = squaresFrom (mean (xs ++ [x])) xs + (x - mean (xs ++ [x])) ^ 2 := by
          rw [squaredDeviations, squaresFrom_append, squaresFrom_cons, squaresFrom_nil, add_zero]
    _ = squaredDeviations xs + xs.length * (-step) ^ 2 + (step * xs.length) ^ 2 := by
          rw [squaresFrom_eq_squaredDeviations, hmove, hrest]
    _ = squaredDeviations xs + (x - mean xs) * (x - mean (xs ++ [x])) := by
          rw [hdelta, hrest]
          ring

end

/-! ### The sign -/

section

variable [LinearOrder K] [IsStrictOrderedRing K]

theorem squaresFrom_nonneg (c : K) (xs : List K) : 0 ≤ squaresFrom c xs := by
  induction xs with
  | nil => exact le_rfl
  | cons x xs ih =>
      rw [squaresFrom_cons]
      exact add_nonneg (sq_nonneg _) ih

theorem squaredDeviations_nonneg (xs : List K) : 0 ≤ squaredDeviations xs := squaresFrom_nonneg _ xs

end

end Armore.Lib
