import Mathlib.Algebra.BigOperators.Group.List.Basic
import Mathlib.Algebra.GroupWithZero.Nat
import Mathlib.Data.List.Nodup

/-!
# Counting by a key

The elements of a list are counted under the key of each. Over distinct keys that cover the list the counts
add up to its length.
-/

namespace Armore.Lib

variable {α κ : Type} [DecidableEq κ]

theorem sum_indicator (keys : List κ) (a : κ) : (keys.map fun k => if a = k then 1 else 0).sum = keys.count a := by
  induction keys with
  | nil => rfl
  | cons k keys ih =>
      rw [List.map_cons, List.sum_cons, ih, List.count_cons, Nat.add_comm]
      congr 1
      exact if_congr (eq_comm.trans beq_iff_eq.symm) rfl rfl

/-- **The fibers add up.** -/
theorem sum_countP_key (key : α → κ) {keys : List κ} (hnodup : keys.Nodup) {xs : List α}
    (hcover : ∀ x ∈ xs, key x ∈ keys) : (keys.map fun k => xs.countP fun x => key x = k).sum = xs.length := by
  induction xs with
  | nil =>
      rw [List.length_nil, List.sum_eq_zero_iff_forall_eq_nat]
      intro c hc
      obtain ⟨_, _, rfl⟩ := List.mem_map.mp hc
      exact List.countP_nil
  | cons x xs ih =>
      rw [List.forall_mem_cons] at hcover
      have hone : (keys.map fun k => if key x = k then 1 else 0).sum = 1 :=
        (sum_indicator keys (key x)).trans (List.count_eq_one_of_mem hnodup hcover.1)
      have hstep (k : κ) : (x :: xs).countP (fun x => key x = k)
          = (xs.countP fun x => key x = k) + if key x = k then 1 else 0 := by
        rw [List.countP_cons]
        simp only [decide_eq_true_eq]
      simp only [hstep]
      rw [List.sum_map_add, ih hcover.2, hone, List.length_cons]

end Armore.Lib
