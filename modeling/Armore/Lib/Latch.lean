import Mathlib.Tactic.Common

/-!
# Latches

At each tick a latch is told to turn on, to turn off, or nothing, and otherwise keeps its value. After a
tick that told it something its value is that of the last such tick, whenever it was started and with
whatever value. With commands that repeat after a period, and at least one in each period, a latch that has
run for a whole period is as if it had run for ever.
-/

namespace Armore.Lib.Latch

/-- The value after some ticks from `start`. -/
def value (effect : Nat → Option Bool) (start : Nat) (init : Bool) : Nat → Bool
  | 0 => init
  | n + 1 => (effect (start + n)).getD (value effect start init n)

/-- The last command before a tick. -/
def last (effect : Nat → Option Bool) : Nat → Option Bool
  | 0 => none
  | n + 1 => (effect n).or (last effect n)

variable {effect : Nat → Option Bool}

theorem last_succ_of_some {n : Nat} {b : Bool} (hb : effect n = some b) :
    last effect (n + 1) = some b := by
  rw [last, hb]
  rfl

theorem last_succ_of_none {n : Nat} (hn : effect n = none) : last effect (n + 1) = last effect n := by
  rw [last, hn]
  rfl

/-- The last command before a tick came after `start`, or there was none since. -/
theorem last_add {start n : Nat} {b : Bool} (hb : last effect (start + n) = some b) :
    (∃ i < n, effect (start + i) = some b ∧ ∀ j, i < j → j < n → effect (start + j) = none)
      ∨ last effect start = some b ∧ ∀ j < n, effect (start + j) = none := by
  induction n with
  | zero => exact .inr ⟨hb, fun j hj => absurd hj (Nat.not_lt_zero j)⟩
  | succ n ih =>
    rw [← Nat.add_assoc] at hb
    cases hn : effect (start + n) with
    | some b' =>
      rw [last_succ_of_some hn] at hb
      refine .inl ⟨n, Nat.lt_succ_self n, hn.trans hb, fun j hj hj' => ?_⟩
      exact absurd hj (Nat.not_lt.mpr (Nat.lt_succ_iff.mp hj'))
    | none =>
      rw [last_succ_of_none hn] at hb
      have hlater : ∀ j, j < n + 1 → (j < n → effect (start + j) = none) → effect (start + j) = none := by
        intro j hj hbefore
        rcases Nat.lt_or_eq_of_le (Nat.lt_succ_iff.mp hj) with hlt | heq
        · exact hbefore hlt
        · rw [heq]
          exact hn
      rcases ih hb with ⟨i, hi, hsome, hnone⟩ | ⟨hstart, hnone⟩
      · exact .inl ⟨i, Nat.lt_succ_of_lt hi, hsome, fun j hij hj => hlater j hj (hnone j hij)⟩
      · exact .inr ⟨hstart, fun j hj => hlater j hj (hnone j)⟩

/-- Once there has been a command, the start does not matter. -/
theorem last_eq_value {start n : Nat} (init : Bool) (hcommand : ∃ k < n, effect (start + k) ≠ none) :
    last effect (start + n) = some (value effect start init n) := by
  induction n with
  | zero =>
    obtain ⟨k, hk, _⟩ := hcommand
    exact absurd hk (Nat.not_lt_zero k)
  | succ n ih =>
    rw [← Nat.add_assoc, value]
    cases hn : effect (start + n) with
    | some b => exact last_succ_of_some hn
    | none =>
      rw [last_succ_of_none hn]
      apply ih
      obtain ⟨k, hk, hcommand⟩ := hcommand
      refine ⟨k, ?_, hcommand⟩
      -- the last tick commanded nothing
      apply Nat.lt_of_le_of_ne (Nat.lt_succ_iff.mp hk)
      intro heq
      rw [heq] at hcommand
      exact hcommand hn

section Periodic

variable {period : Nat} (hperiodic : ∀ n, effect (n + period) = effect n)
include hperiodic

theorem last_add_period {n : Nat} {b : Bool} (hb : last effect n = some b) :
    last effect (n + period) = some b := by
  induction n with
  | zero => exact nomatch hb
  | succ n ih =>
    rw [Nat.add_right_comm]
    cases hn : effect n with
    | some b' =>
      rw [last_succ_of_some hn] at hb
      rw [last_succ_of_some ((hperiodic n).trans hn), hb]
    | none =>
      rw [last_succ_of_none hn] at hb
      rw [last_succ_of_none ((hperiodic n).trans hn)]
      exact ih hb

theorem effect_mod (n : Nat) : effect (n % period) = effect n := by
  rw [← Nat.mod_add_div n period]
  generalize n / period = q
  induction q with
  | zero => rw [Nat.mul_zero, Nat.add_zero, Nat.mod_mod]
  | succ q ih => rw [Nat.mul_succ, ← Nat.add_assoc, hperiodic, Nat.add_mod_right, ih]

/-- A window as long as the period has a command in it. -/
theorem exists_command {k : Nat} (hk : effect k ≠ none) (hpos : 0 < period) (start : Nat) {n : Nat}
    (hn : period ≤ n) : ∃ i < n, effect (start + i) ≠ none := by
  refine ⟨(k + (period - 1) * start) % period, Nat.lt_of_lt_of_le (Nat.mod_lt _ hpos) hn, ?_⟩
  have hcongr : (start + (k + (period - 1) * start) % period) % period = k % period := by
    rw [Nat.add_mod_mod]
    have : start + (k + (period - 1) * start) = k + period * start := by
      obtain ⟨p, rfl⟩ : ∃ p, period = p + 1 := ⟨period - 1, by omega⟩
      rw [Nat.add_sub_cancel, Nat.succ_mul]
      omega
    rw [this, Nat.add_mul_mod_self_left]
  rw [← effect_mod hperiodic, hcongr, effect_mod hperiodic]
  exact hk

/-- A latch that has run for a period agrees with `meant` at every tick without a command exactly when
the last command before each such tick does. -/
theorem agrees_iff {meant : Nat → Prop} (hmeant : ∀ n, meant (n + period) ↔ meant n) {k : Nat}
    (hk : effect k ≠ none) (hpos : 0 < period) (init : Bool) :
    (∀ start n, period ≤ n → effect (start + n) = none →
        (value effect start init n = true ↔ meant (start + n)))
      ↔ ∀ n b, last effect n = some b → effect n = none → (b = true ↔ meant n) := by
  constructor
  · intro hagrees n b hb hn
    have hvalue := last_eq_value init (exists_command hperiodic hk hpos n (Nat.le_refl period))
    rw [last_add_period hperiodic hb, Option.some.injEq] at hvalue
    rw [hvalue, ← hmeant n]
    apply hagrees n period (Nat.le_refl period)
    rw [hperiodic]
    exact hn
  · intro hlast start n hlong hn
    apply hlast (start + n) _ _ hn
    exact last_eq_value init (exists_command hperiodic hk hpos start hlong)

end Periodic

end Armore.Lib.Latch
