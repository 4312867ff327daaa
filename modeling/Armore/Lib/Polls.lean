import Mathlib.Order.Lattice
import Mathlib.Order.Monotone.Basic
import Mathlib.Tactic.Common

/-!
# Polls

A reader polls at increasing times. What happens at a time is due at the first poll that is not before it,
and a reader that takes at each poll what is after the poll before it takes everything once: a time is
between two polls in a row exactly when the second is where it is due.
-/

namespace Armore.Lib

variable {T : Type*} [LinearOrder T]

/-- The first poll that is not before a time. -/
def FirstAt (now : ℕ → T) (t : T) (k : ℕ) : Prop := t ≤ now k ∧ ∀ j < k, now j < t

namespace FirstAt

variable {now : ℕ → T} {t : T} {j k : ℕ}

theorem le (hk : FirstAt now t k) (hj : t ≤ now j) : k ≤ j := by
  by_contra hlt
  exact absurd hj (not_le.mpr (hk.2 j (not_le.mp hlt)))

theorem unique (hj : FirstAt now t j) (hk : FirstAt now t k) : j = k :=
  le_antisymm (hj.le hk.1) (hk.le hj.1)

theorem iff_eq (hk : FirstAt now t k) : FirstAt now t j ↔ j = k := by
  constructor
  · intro hj
    exact hj.unique hk
  · intro heq
    rw [heq]
    exact hk

/-- The windows between two polls in a row. -/
theorem succ_iff (hmono : StrictMono now) : FirstAt now t (k + 1) ↔ now k < t ∧ t ≤ now (k + 1) := by
  constructor
  · intro ⟨hle, hbefore⟩
    exact ⟨hbefore k (Nat.lt_succ_self k), hle⟩
  · intro ⟨hlt, hle⟩
    refine ⟨hle, fun j hj => ?_⟩
    exact (hmono.monotone (Nat.le_of_lt_succ hj)).trans_lt hlt

theorem zero (hle : t ≤ now 0) : FirstAt now t 0 := ⟨hle, fun j hj => absurd hj (Nat.not_lt_zero j)⟩

end FirstAt

end Armore.Lib
