import Armore.Lib.Raising
import Mathlib.Order.Basic
import Mathlib.Tactic.NormNum
import Mathlib.Algebra.Order.Ring.Rat

/-!
# Dynamic sampling

At the end of an epoch `update_interval` chooses the interval of the next one from three, by the traffic of
the last. Its three tests stand one after the other and each reads the variable that those before it assign.
Nothing below rests on how the intervals are multiplied and divided.
-/

namespace Armore.Sampling

open Lib

variable {K : Type} [LinearOrder K]

/-- The intervals and the thresholds that can be redefined. -/
structure Settings (K : Type) [LinearOrder K] where
  sa1 : K
  sa2 : K
  sa3 : K
  lowThre : Nat
  upThre : Nat
  sa1_lt_sa2 : sa1 < sa2
  sa2_lt_sa3 : sa2 < sa3
  lowThre_lt_upThre : lowThre < upThre

/-- `sample_interval` and `g_ss$epoch`. -/
structure State (K : Type) where
  sampleInterval : K
  epoch : K
  deriving DecidableEq

section

variable [Mul K] [Div K] [Zero K] [NatCast K] (c : Settings K)

/-! ### The function -/

/-- The first test. -/
def testSa1 (total : Nat) (sampleInterval : K) : Except ArithmeticError K :=
  if sampleInterval = c.sa1 then
    if total < c.lowThre then do
      let ratio ← divide c.sa2 c.sa1
      if (total : K) * ratio < c.lowThre then return c.sa3 else return c.sa2
    else return sampleInterval
  else return sampleInterval

omit [Mul K] [Div K] [Zero K] [NatCast K] in
/-- The second test. -/
def testSa2 (total : Nat) (sampleInterval : K) : K :=
  if sampleInterval = c.sa2 then
    let sampleInterval := if total < c.lowThre then c.sa3 else sampleInterval
    if total > c.upThre then c.sa1 else sampleInterval
  else sampleInterval

omit [Mul K] in
/-- The third test. -/
def testSa3 (total : Nat) (sampleInterval : K) : Except ArithmeticError K :=
  if sampleInterval = c.sa3 then
    if total > c.upThre then do
      let ratio ← divide c.sa3 c.sa2
      let share ← divide (total : K) ratio
      if share > c.upThre then return c.sa1 else return c.sa2
    else return sampleInterval
  else return sampleInterval

def updateInterval (s : State K) (total : Nat) : Except ArithmeticError (State K) := do
  let sampleInterval ← testSa1 c total s.sampleInterval
  let sampleInterval := testSa2 c total sampleInterval
  let sampleInterval ← testSa3 c total sampleInterval
  return ⟨sampleInterval, sampleInterval⟩

/-- In `stats_count.bro`. -/
def StatsCount.updateInterval : State K → Nat → Except ArithmeticError (State K) := Sampling.updateInterval c

/-- In `counter.bro`. -/
def Counter.updateInterval : State K → Nat → Except ArithmeticError (State K) := Sampling.updateInterval c

/-! ### The rules -/

/-- The rule of the interval in force. -/
def rule (total : Nat) (sampleInterval : K) : K :=
  if sampleInterval = c.sa1 then
    if total < c.lowThre then
      if (total : K) * (c.sa2 / c.sa1) < c.lowThre then c.sa3 else c.sa2
    else sampleInterval
  else if sampleInterval = c.sa2 then
    if total < c.lowThre then c.sa3 else if total > c.upThre then c.sa1 else sampleInterval
  else if sampleInterval = c.sa3 then
    if total > c.upThre then
      if (total : K) / (c.sa3 / c.sa2) > c.upThre then c.sa1 else c.sa2
    else sampleInterval
  else sampleInterval

/-- A call that follows the rule of the interval in force. -/
def Follows (update : State K → Nat → Except ArithmeticError (State K)) (s : State K) (total : Nat) : Prop :=
  update s total = .ok ⟨rule c total s.sampleInterval, rule c total s.sampleInterval⟩

/-- Little traffic at the shortest interval, but not so little at the middle one. -/
def Slides (s : State K) (total : Nat) : Prop :=
  s.sampleInterval = c.sa1 ∧ total < c.lowThre ∧ (c.lowThre : K) ≤ total * (c.sa2 / c.sa1)

/-- A division without a divisor. -/
def Undefined (s : State K) (total : Nat) : Prop :=
  (s.sampleInterval = c.sa1 ∧ total < c.lowThre ∧ c.sa1 = 0)
    ∨ (s.sampleInterval = c.sa3 ∧ c.upThre < total ∧ (c.sa2 = 0 ∨ c.sa3 / c.sa2 = 0))

/-! ### What a call does -/

namespace Settings

omit [Mul K] [Div K] [Zero K] [NatCast K] in
theorem sa1_ne_sa2 : c.sa1 ≠ c.sa2 := c.sa1_lt_sa2.ne

omit [Mul K] [Div K] [Zero K] [NatCast K] in
theorem sa2_ne_sa3 : c.sa2 ≠ c.sa3 := c.sa2_lt_sa3.ne

omit [Mul K] [Div K] [Zero K] [NatCast K] in
theorem sa1_ne_sa3 : c.sa1 ≠ c.sa3 := (c.sa1_lt_sa2.trans c.sa2_lt_sa3).ne

end Settings

variable {c} {s : State K} {total : Nat}

omit [Mul K] in
theorem testSa3_of_le (hle : total ≤ c.upThre) (sampleInterval : K) :
    testSa3 c total sampleInterval = .ok sampleInterval := by
  unfold testSa3
  rw [if_neg (not_lt.mpr hle)]
  split <;> rfl

/-- The tests one after the other. -/
theorem updateInterval_ok {first third : K} (hfirst : testSa1 c total s.sampleInterval = .ok first)
    (hthird : testSa3 c total (testSa2 c total first) = .ok third) :
    updateInterval c s total = .ok ⟨third, third⟩ := by
  rw [updateInterval, hfirst]
  show (testSa3 c total (testSa2 c total first) >>= fun sampleInterval => .ok (⟨sampleInterval, sampleInterval⟩ : State K)) = _
  rw [hthird]
  rfl

theorem testSa1_of_ne (hne : s.sampleInterval ≠ c.sa1 ∨ c.lowThre ≤ total) :
    testSa1 c total s.sampleInterval = .ok s.sampleInterval := by
  unfold testSa1
  rcases hne with hne | hle
  · rw [if_neg hne]
    rfl
  · rw [if_neg (not_lt.mpr hle)]
    split <;> rfl

/-- With little traffic the shortest interval ends up as the longest, by one test or by two. -/
theorem updateInterval_of_sa1_of_low (hsa1 : s.sampleInterval = c.sa1) (hlow : total < c.lowThre)
    (hdivisor : c.sa1 ≠ 0) : updateInterval c s total = .ok ⟨c.sa3, c.sa3⟩ := by
  have hle : total ≤ c.upThre := (hlow.trans c.lowThre_lt_upThre).le
  have hfirst : testSa1 c total s.sampleInterval
      = if (total : K) * (c.sa2 / c.sa1) < c.lowThre then .ok c.sa3 else .ok c.sa2 := by
    rw [testSa1, if_pos hsa1, if_pos hlow, divide_ok hdivisor]
    rfl
  by_cases hless : (total : K) * (c.sa2 / c.sa1) < c.lowThre
  · rw [if_pos hless] at hfirst
    have hsecond : testSa2 c total c.sa3 = c.sa3 := if_neg c.sa2_ne_sa3.symm
    refine updateInterval_ok hfirst ?_
    rw [hsecond]
    exact testSa3_of_le hle _
  · rw [if_neg hless] at hfirst
    have hsecond : testSa2 c total c.sa2 = c.sa3 := by
      rw [testSa2, if_pos rfl, if_neg (not_lt.mpr hle), if_pos hlow]
    refine updateInterval_ok hfirst ?_
    rw [hsecond]
    exact testSa3_of_le hle _

theorem updateInterval_of_sa1_of_zero (hsa1 : s.sampleInterval = c.sa1) (hlow : total < c.lowThre)
    (hdivisor : c.sa1 = 0) : updateInterval c s total = .error .divisionByZero := by
  rw [updateInterval, testSa1, if_pos hsa1, if_pos hlow, divide_zero _ hdivisor]
  rfl

theorem follows_of_sa1_of_not_low (hsa1 : s.sampleInterval = c.sa1) (hnotLow : c.lowThre ≤ total) :
    Follows c (updateInterval c) s total := by
  have hrule : rule c total s.sampleInterval = s.sampleInterval := by
    rw [rule, if_pos hsa1, if_neg (not_lt.mpr hnotLow)]
  have hsecond : testSa2 c total s.sampleInterval = s.sampleInterval := by
    rw [hsa1]
    exact if_neg c.sa1_ne_sa2
  have hthird : testSa3 c total s.sampleInterval = .ok s.sampleInterval := by
    rw [hsa1]
    exact if_neg c.sa1_ne_sa3
  rw [Follows, hrule]
  exact updateInterval_ok (testSa1_of_ne (.inr hnotLow)) (by rw [hsecond, hthird])

theorem follows_of_sa2 (hsa2 : s.sampleInterval = c.sa2) : Follows c (updateInterval c) s total := by
  have hne : s.sampleInterval ≠ c.sa1 := hsa2 ▸ c.sa1_ne_sa2.symm
  have hfirst : testSa1 c total s.sampleInterval = .ok s.sampleInterval := testSa1_of_ne (.inl hne)
  rw [Follows, rule, if_neg hne, if_pos hsa2]
  by_cases hlow : total < c.lowThre
  · have hle : total ≤ c.upThre := (hlow.trans c.lowThre_lt_upThre).le
    have hsecond : testSa2 c total s.sampleInterval = c.sa3 := by
      rw [testSa2, if_pos hsa2, if_neg (not_lt.mpr hle), if_pos hlow]
    rw [if_pos hlow]
    refine updateInterval_ok hfirst ?_
    rw [hsecond]
    exact testSa3_of_le hle _
  · rw [if_neg hlow]
    by_cases hup : total > c.upThre
    · have hsecond : testSa2 c total s.sampleInterval = c.sa1 := by
        rw [testSa2, if_pos hsa2, if_pos hup]
      rw [if_pos hup]
      refine updateInterval_ok hfirst ?_
      rw [hsecond]
      exact if_neg c.sa1_ne_sa3
    · have hsecond : testSa2 c total s.sampleInterval = s.sampleInterval := by
        rw [testSa2, if_pos hsa2, if_neg hup, if_neg hlow]
      rw [if_neg hup]
      refine updateInterval_ok hfirst ?_
      rw [hsecond]
      exact testSa3_of_le (not_lt.mp hup) _

/-- From the longest interval only the third test applies. -/
theorem updateInterval_of_sa3 (hsa3 : s.sampleInterval = c.sa3) :
    updateInterval c s total = (testSa3 c total c.sa3).map fun sampleInterval => ⟨sampleInterval, sampleInterval⟩ := by
  have hne : s.sampleInterval ≠ c.sa1 := hsa3 ▸ c.sa1_ne_sa3.symm
  have hsecond : testSa2 c total c.sa3 = c.sa3 := if_neg c.sa2_ne_sa3.symm
  rw [updateInterval, testSa1_of_ne (.inl hne), hsa3]
  show (testSa3 c total (testSa2 c total c.sa3) >>= fun sampleInterval => .ok (⟨sampleInterval, sampleInterval⟩ : State K)) = _
  rw [hsecond]
  cases testSa3 c total c.sa3 <;> rfl

theorem follows_of_sa3_iff (hsa3 : s.sampleInterval = c.sa3) :
    Follows c (updateInterval c) s total ↔ ¬ (c.upThre < total ∧ (c.sa2 = 0 ∨ c.sa3 / c.sa2 = 0)) := by
  have hne : s.sampleInterval ≠ c.sa1 := hsa3 ▸ c.sa1_ne_sa3.symm
  have hne' : s.sampleInterval ≠ c.sa2 := hsa3 ▸ c.sa2_ne_sa3.symm
  rw [Follows, updateInterval_of_sa3 hsa3, rule, if_neg hne, if_neg hne', if_pos hsa3, testSa3, if_pos rfl]
  by_cases hup : total > c.upThre
  · rw [if_pos hup, if_pos hup]
    by_cases hsa2 : c.sa2 = 0
    · rw [divide_zero _ hsa2]
      exact ⟨nofun, fun hdefined => absurd ⟨hup, .inl hsa2⟩ hdefined⟩
    · rw [divide_ok hsa2]
      by_cases hratio : c.sa3 / c.sa2 = 0
      · refine ⟨fun hfollows => ?_, fun hdefined => absurd ⟨hup, .inr hratio⟩ hdefined⟩
        have herror : (divide (total : K) (c.sa3 / c.sa2)) = .error .divisionByZero := divide_zero _ hratio
        revert hfollows
        show (divide (total : K) (c.sa3 / c.sa2) >>= _).map _ = _ → _
        rw [herror]
        nofun
      · refine ⟨fun _ hundefined => hundefined.2.elim hsa2 hratio, fun _ => ?_⟩
        show (divide (total : K) (c.sa3 / c.sa2) >>= _).map _ = _
        rw [divide_ok hratio]
        show (if total / (c.sa3 / c.sa2) > (c.upThre : K) then Except.ok c.sa1 else Except.ok c.sa2).map _ = _
        split <;> rfl
  · rw [if_neg hup, if_neg hup, hsa3]
    exact ⟨fun _ hundefined => hup hundefined.1, fun _ => rfl⟩

theorem follows_of_other (hsa1 : s.sampleInterval ≠ c.sa1) (hsa2 : s.sampleInterval ≠ c.sa2)
    (hsa3 : s.sampleInterval ≠ c.sa3) : Follows c (updateInterval c) s total := by
  have hsecond : testSa2 c total s.sampleInterval = s.sampleInterval := if_neg hsa2
  have hthird : testSa3 c total s.sampleInterval = .ok s.sampleInterval := if_neg hsa3
  rw [Follows, rule, if_neg hsa1, if_neg hsa2, if_neg hsa3]
  exact updateInterval_ok (testSa1_of_ne (.inl hsa1)) (by rw [hsecond, hthird])

theorem follows_iff_of_sa1 (hsa1 : s.sampleInterval = c.sa1) :
    Follows c (updateInterval c) s total
      ↔ ¬ (total < c.lowThre ∧ (c.lowThre : K) ≤ total * (c.sa2 / c.sa1)) ∧ ¬ (total < c.lowThre ∧ c.sa1 = 0) := by
  by_cases hlow : total < c.lowThre
  · by_cases hdivisor : c.sa1 = 0
    · rw [Follows, updateInterval_of_sa1_of_zero hsa1 hlow hdivisor]
      exact ⟨nofun, fun hall => absurd ⟨hlow, hdivisor⟩ hall.2⟩
    · rw [Follows, updateInterval_of_sa1_of_low hsa1 hlow hdivisor, rule, if_pos hsa1, if_pos hlow]
      by_cases hless : (total : K) * (c.sa2 / c.sa1) < c.lowThre
      · rw [if_pos hless]
        exact ⟨fun _ => ⟨fun hslides => absurd hless (not_lt.mpr hslides.2), fun hzero => hdivisor hzero.2⟩,
          fun _ => rfl⟩
      · rw [if_neg hless]
        refine ⟨fun heq => ?_, fun hall => absurd ⟨hlow, not_lt.mp hless⟩ hall.1⟩
        have hsame : c.sa3 = c.sa2 := congrArg State.sampleInterval (Except.ok.inj heq)
        exact absurd hsame.symm c.sa2_ne_sa3
  · exact ⟨fun _ => ⟨fun hslides => hlow hslides.1, fun hzero => hlow hzero.1⟩,
      fun _ => follows_of_sa1_of_not_low hsa1 (not_lt.mp hlow)⟩

variable (c s total)

theorem follows_rule_iff : Follows c (updateInterval c) s total ↔ ¬ Slides c s total ∧ ¬ Undefined c s total := by
  unfold Slides Undefined
  by_cases hsa1 : s.sampleInterval = c.sa1
  · have hne : s.sampleInterval ≠ c.sa3 := hsa1 ▸ c.sa1_ne_sa3
    rw [follows_iff_of_sa1 hsa1]
    simp only [hsa1, c.sa1_ne_sa3, true_and, false_and, or_false]
  · by_cases hsa3 : s.sampleInterval = c.sa3
    · rw [follows_of_sa3_iff hsa3]
      simp only [hsa3, c.sa1_ne_sa3.symm, true_and, false_and, false_or, not_false_eq_true]
    · have hfollows : Follows c (updateInterval c) s total := by
        by_cases hsa2 : s.sampleInterval = c.sa2
        · exact follows_of_sa2 hsa2
        · exact follows_of_other hsa1 hsa2 hsa3
      simp only [hfollows, hsa1, hsa3, false_and, or_false, not_false_eq_true, and_self]

/-- **One rule an epoch.** In both scripts a call follows the rule of the interval in force exactly when it
does not start at the shortest interval with a total below the lower threshold that the longer interval would
bring up to it, and the quotients of its tests are defined. -/
theorem one_rule_per_epoch :
    (Follows c (StatsCount.updateInterval c) s total ↔ ¬ Slides c s total ∧ ¬ Undefined c s total)
      ∧ (Follows c (Counter.updateInterval c) s total ↔ ¬ Slides c s total ∧ ¬ Undefined c s total) :=
  ⟨follows_rule_iff c s total, follows_rule_iff c s total⟩

end

/-- The settings of `stats_count.bro`. -/
def StatsCount.settings : Settings ℚ :=
  ⟨60, 300, 600, 20, 100, by norm_num, by norm_num, by norm_num⟩

/-- The settings of `counter.bro`. -/
def Counter.settings : Settings ℚ :=
  ⟨60, 300, 1200, 20, 100, by norm_num, by norm_num, by norm_num⟩

/-- Ten packets in a minute make fifty in five, and yet the interval becomes the longest. -/
theorem ten_packets_slide :
    (StatsCount.updateInterval StatsCount.settings ⟨60, 60⟩ 10 = .ok ⟨600, 600⟩
        ∧ rule StatsCount.settings 10 60 = 300
        ∧ ¬ Follows StatsCount.settings (StatsCount.updateInterval StatsCount.settings) ⟨60, 60⟩ 10)
      ∧ Counter.updateInterval Counter.settings ⟨60, 60⟩ 10 = .ok ⟨1200, 1200⟩
        ∧ rule Counter.settings 10 60 = 300
        ∧ ¬ Follows Counter.settings (Counter.updateInterval Counter.settings) ⟨60, 60⟩ 10 := by
  have hrule : rule StatsCount.settings 10 60 = 300 := by decide +kernel
  have hrule' : rule Counter.settings 10 60 = 300 := by decide +kernel
  have hcall : StatsCount.updateInterval StatsCount.settings ⟨60, 60⟩ 10 = .ok ⟨600, 600⟩ :=
    updateInterval_of_sa1_of_low rfl (by decide) (by decide)
  have hcall' : Counter.updateInterval Counter.settings ⟨60, 60⟩ 10 = .ok ⟨1200, 1200⟩ :=
    updateInterval_of_sa1_of_low rfl (by decide) (by decide)
  refine ⟨⟨hcall, hrule, fun hfollows => ?_⟩, hcall', hrule', fun hfollows => ?_⟩
  · rw [Follows, hcall] at hfollows
    have hsame := congrArg State.epoch (Except.ok.inj hfollows)
    exact absurd (hsame.trans hrule) (by decide)
  · rw [Follows, hcall'] at hfollows
    have hsame := congrArg State.epoch (Except.ok.inj hfollows)
    exact absurd (hsame.trans hrule') (by decide)

end Armore.Sampling
