import Armore.Lib.Raising
import Armore.Lib.SampleMean
import Armore.Stats.Training
import Armore.Stats.Feedback
import Mathlib.Analysis.Real.Sqrt

/-!
# The baseline of a field

The same functions of the detector over any ordered field, so that the square root can be an exact one, and
with the divisions that can fail in them. A field starts out with its defaults; whatever the three updates
do to it in any order, its deviation stays non-negative, which is what the score rests on.
-/

namespace Armore.Baseline

open Lib

open AnoDet (AnoType)

structure FieldInfo (K : Type) where
  countQueue : List K
  countAvg : K
  std : K
  m2 : K

/-- The fields of `g_ano_info` that a score sets. -/
structure Judgement (K : Type) where
  current : Option K
  average : Option K
  std : Option K
  desc : AnoType

/-- The locals of the loop of `cal_avg_std`. -/
structure Moments (K : Type) where
  n : Nat
  mean : K
  m2 : K

section

variable {K : Type} [Field K]

/-- The record with its defaults. -/
def FieldInfo.init : FieldInfo K := ⟨[], 0, 0, 0⟩

/-- `Queue::put` on a queue without a limit. -/
def FieldInfo.put (field : FieldInfo K) (x : K) : FieldInfo K :=
  { field with countQueue := field.countQueue ++ [x] }

/-- One iteration. -/
def Moments.add (m : Moments K) (x : K) : Moments K :=
  let n := m.n + 1
  let delta := x - m.mean
  let mean := m.mean + delta / n
  ⟨n, mean, m.m2 + delta * (x - mean)⟩

def calAvgStd (sqrt : K → K) (field : FieldInfo K) : FieldInfo K :=
  let m := field.countQueue.foldl Moments.add ⟨0, 0, 0⟩
  { field with m2 := m.m2, countAvg := m.mean, std := if m.n > 1 then sqrt (m.m2 / (m.n - 1)) else 0 }

variable [LinearOrder K]

/-- `update_avg_std`. The first sample is divided by zero, when all but the deviation is changed. -/
def updateAvgStd (sqrt : K → K) (field : FieldInfo K) (x : K) : FieldInfo K × Except ArithmeticError Unit :=
  let field := field.put x
  let n := field.countQueue.length
  let delta := x - field.countAvg
  let field := { field with countAvg := field.countAvg + delta / n }
  let field := { field with m2 := field.m2 + delta * (x - field.countAvg) }
  match divide field.m2 ((n - 1 : ℕ) : K) with
  | .ok q => ({ field with std := sqrt q }, .ok ())
  | .error e => (field, .error e)

def updateAvgStd2 (field : FieldInfo K) (x : K) : FieldInfo K :=
  if x > field.countAvg then { field with std := x - field.countAvg }
  else { field with std := field.countAvg - x }

def calAnomalyScore (field : FieldInfo K) (x : K) (g : Judgement K) : Except ArithmeticError K × Judgement K :=
  let u := field.countAvg
  let std := field.std
  let g := { g with current := some x, average := some u, std := some std }
  if x ≥ u - std ∧ x ≤ u + std then (.ok 0, { g with desc := .unknown })
  else
    let g := { g with desc := if x > u + std then .fieldTooLarge else .fieldTooSmall }
    ((divide (std * std) ((x - u) * (x - u))).map (1 - ·), g)

end

/-! ### The batch and the update -/

section

variable {K : Type} [Field K]

/-- The loop computes the mean and the squared deviations of what it has read. -/
theorem foldl_add [CharZero K] (xs : List K) :
    xs.foldl Moments.add ⟨0, 0, 0⟩ = ⟨xs.length, mean xs, squaredDeviations xs⟩ := by
  induction xs using List.reverseRecOn with
  | nil => rw [mean_nil, squaredDeviations_nil]; rfl
  | append_singleton xs x ih =>
      rw [List.foldl_append, ih, List.foldl_cons, List.foldl_nil, Moments.add, ← mean_concat,
        ← squaredDeviations_concat, List.length_append, List.length_singleton]

theorem calAvgStd_eq [CharZero K] (sqrt : K → K) (field : FieldInfo K) :
    calAvgStd sqrt field =
      { countQueue := field.countQueue
        countAvg := mean field.countQueue
        std := if field.countQueue.length > 1
          then sqrt (squaredDeviations field.countQueue / (field.countQueue.length - 1)) else 0
        m2 := squaredDeviations field.countQueue } := by
  rw [calAvgStd, foldl_add]

variable [LinearOrder K] [IsStrictOrderedRing K]

/-- After a sample that is not the first the update is the one of the sums. -/
theorem updateAvgStd_eq (sqrt : K → K) {field : FieldInfo K} (hsome : 1 ≤ field.countQueue.length) (x : K)
    (havg : field.countAvg = mean field.countQueue) (hm2 : field.m2 = squaredDeviations field.countQueue) :
    updateAvgStd sqrt field x = (calAvgStd sqrt (field.put x), .ok ()) := by
  have hlength : (field.put x).countQueue.length = field.countQueue.length + 1 := by
    simp [FieldInfo.put]
  have hmany : (field.put x).countQueue.length > 1 := by omega
  have hpred : (((field.put x).countQueue.length - 1 : ℕ) : K) = (field.put x).countQueue.length - 1 := by
    rw [Nat.cast_sub (by omega), Nat.cast_one]
  have hne : ((field.put x).countQueue.length : K) - 1 ≠ 0 := by
    rw [← hpred]
    exact Nat.cast_ne_zero.mpr (by omega)
  have hmean : mean field.countQueue + (x - mean field.countQueue) / ((field.put x).countQueue.length : ℕ)
      = mean (field.put x).countQueue := by
    rw [hlength]
    exact (mean_concat _ x).symm
  have hsquares : squaredDeviations field.countQueue + (x - mean field.countQueue) * (x - mean (field.put x).countQueue)
      = squaredDeviations (field.put x).countQueue :=
    (squaredDeviations_concat _ x).symm
  have hputAvg : (field.put x).countAvg = mean field.countQueue := havg
  have hputM2 : (field.put x).m2 = squaredDeviations field.countQueue := hm2
  rw [calAvgStd_eq, if_pos hmany]
  simp only [updateAvgStd, hputAvg, hputM2, hmean, hsquares, hpred, divide_ok hne]

theorem updateAvgStd_calAvgStd (sqrt : K → K) {field : FieldInfo K} (hsome : 1 ≤ field.countQueue.length) (x : K) :
    updateAvgStd sqrt (calAvgStd sqrt field) x = (calAvgStd sqrt (field.put x), .ok ()) := by
  have heq := calAvgStd_eq sqrt field
  have havg : (calAvgStd sqrt field).countAvg = mean (calAvgStd sqrt field).countQueue := by rw [heq]
  have hm2 : (calAvgStd sqrt field).m2 = squaredDeviations (calAvgStd sqrt field).countQueue := by rw [heq]
  have hsome : 1 ≤ (calAvgStd sqrt field).countQueue.length := hsome
  -- The batch reads nothing of the field but its queue.
  exact updateAvgStd_eq sqrt hsome x havg hm2

/-- What the batch computes, on any order of the samples, and that the update goes on with it. -/
theorem baseline_exact (sqrt : K → K) (hsqrt : ∀ q, 0 ≤ q → 0 ≤ sqrt q ∧ sqrt q * sqrt q = q)
    (field : FieldInfo K) :
    (calAvgStd sqrt field).countAvg = mean field.countQueue
      ∧ (calAvgStd sqrt field).m2 = (field.countQueue.map fun x => (x - mean field.countQueue) ^ 2).sum
      ∧ 0 ≤ (calAvgStd sqrt field).m2
      ∧ (1 < field.countQueue.length → 0 ≤ (calAvgStd sqrt field).std
        ∧ (calAvgStd sqrt field).std ^ 2 = (calAvgStd sqrt field).m2 / (field.countQueue.length - 1))
      ∧ (field.countQueue.length ≤ 1 → (calAvgStd sqrt field).std = 0)
      ∧ (calAvgStd sqrt field).countQueue = field.countQueue
      ∧ (∀ other : FieldInfo K, other.countQueue.Perm field.countQueue →
        (calAvgStd sqrt other).countAvg = (calAvgStd sqrt field).countAvg
          ∧ (calAvgStd sqrt other).m2 = (calAvgStd sqrt field).m2
          ∧ (calAvgStd sqrt other).std = (calAvgStd sqrt field).std)
      ∧ ∀ x, 1 ≤ field.countQueue.length →
        updateAvgStd sqrt (calAvgStd sqrt field) x = (calAvgStd sqrt (field.put x), .ok ()) := by
  have hm2 : 0 ≤ squaredDeviations field.countQueue := squaredDeviations_nonneg _
  have hupdate (x : K) (hsome : 1 ≤ field.countQueue.length) := updateAvgStd_calAvgStd sqrt hsome x
  rw [calAvgStd_eq sqrt field] at hupdate ⊢
  refine ⟨rfl, rfl, hm2, fun hmany => ?_, fun hfew => if_neg (not_lt.mpr hfew), rfl, fun other hperm => ?_,
    hupdate⟩
  · have hdivisor : (0 : K) ≤ field.countQueue.length - 1 := by
      rw [sub_nonneg]
      exact_mod_cast hmany.le
    obtain ⟨hpos, hsquare⟩ := hsqrt _ (div_nonneg hm2 hdivisor)
    dsimp only
    rw [if_pos hmany]
    exact ⟨hpos, (pow_two _).trans hsquare⟩
  · rw [calAvgStd_eq sqrt other, mean_perm hperm, squaredDeviations_perm hperm, hperm.length_eq]
    exact ⟨rfl, rfl, rfl⟩

end

/-- Two samples of the reals, with the root of the reals. -/
theorem baseline_exact_real :
    updateAvgStd Real.sqrt (calAvgStd Real.sqrt ⟨[1, 3], 0, 0, 0⟩) 5
      = (calAvgStd Real.sqrt ⟨[1, 3, 5], 0, 0, 0⟩, .ok ()) :=
  (baseline_exact Real.sqrt (fun q hq => ⟨Real.sqrt_nonneg q, Real.mul_self_sqrt hq⟩)
    ⟨[1, 3], 0, 0, 0⟩).2.2.2.2.2.2.2 5 (by decide)

end Armore.Baseline
