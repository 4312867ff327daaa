import Mathlib.Data.Nat.ModEq
import Mathlib.Tactic.Ring

/-!
# Ones'-complement sums

A sum of words below a base is brought below the base by adding what overflows at the low end. That keeps
the sum modulo the base less one and keeps it from vanishing, and with the bound these determine the
result. A base that is a square has words of two halves; exchanging the halves of every word multiplies
the sum by the root, so it does not matter in which order the halves are loaded.
-/

namespace Armore.Lib

/-- `r` is `n` brought below `base` with the carries taken around. -/
structure EndAround (base n r : Nat) : Prop where
  lt : r < base
  modEq : r ≡ n [MOD base - 1]
  zero : r = 0 ↔ n = 0

namespace EndAround

variable {base n r : Nat}

theorem of_lt (hn : n < base) : EndAround base n n := ⟨hn, Nat.ModEq.refl n, Iff.rfl⟩

/-- Taking the carries around keeps the sum modulo the base less one. -/
theorem carry_modEq (hbase : 0 < base) (n : Nat) : n % base + n / base ≡ n [MOD base - 1] := by
  have hsplit : n = n % base + n / base + (base - 1) * (n / base) := by
    obtain ⟨b, rfl⟩ : ∃ b, base = b + 1 := ⟨base - 1, by omega⟩
    calc
      n = n % (b + 1) + (b + 1) * (n / (b + 1)) := (Nat.mod_add_div n (b + 1)).symm
      _ = n % (b + 1) + n / (b + 1) + b * (n / (b + 1)) := by ring
  have hdrop : n % base + n / base + (base - 1) * (n / base) ≡ n % base + n / base [MOD base - 1] :=
    Nat.add_mul_mod_self_left _ _ _
  rw [← hsplit] at hdrop
  exact hdrop.symm

theorem carry_eq_zero_iff : n % base + n / base = 0 ↔ n = 0 := by
  constructor
  · intro hzero
    rw [← Nat.mod_add_div n base, Nat.eq_zero_of_add_eq_zero_right hzero,
      Nat.eq_zero_of_add_eq_zero_left hzero, Nat.mul_zero]
  · rintro rfl
    simp

/-- One round. -/
theorem of_carry (hbase : 0 < base) (h : EndAround base (n % base + n / base) r) : EndAround base n r where
  lt := h.lt
  modEq := h.modEq.trans (carry_modEq hbase n)
  zero := h.zero.trans carry_eq_zero_iff

/-- The complement of the result completes the sum. -/
theorem add_complement (h : EndAround base n r) : n + (base - 1 - r) ≡ 0 [MOD base - 1] := by
  have hlt := h.lt
  have hsum : r + (base - 1 - r) = base - 1 := by omega
  have hmodEq : n + (base - 1 - r) ≡ r + (base - 1 - r) [MOD base - 1] := h.modEq.symm.add_right _
  rw [hsum] at hmodEq
  exact hmodEq.trans (Nat.modEq_zero_iff_dvd.mpr (dvd_refl _))

end EndAround

/-- Exchanging the halves of a word. -/
theorem swap_modEq {b : Nat} (hb : 0 < b) (low high : Nat) :
    b * low + high ≡ b * (low + b * high) [MOD b * b - 1] := by
  have hpos : 1 ≤ b * b := Nat.mul_pos hb hb
  have hsquare : b * (low + b * high) = b * low + high + (b * b - 1) * high := by
    calc
      b * (low + b * high) = b * low + (b * b - 1 + 1) * high := by rw [Nat.sub_add_cancel hpos]; ring
      _ = b * low + high + (b * b - 1) * high := by ring
  rw [hsquare]
  exact (Nat.add_mul_mod_self_left _ _ _).symm

end Armore.Lib
