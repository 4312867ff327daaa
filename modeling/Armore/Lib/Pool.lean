import Mathlib.Algebra.GroupWithZero.Nat
import Mathlib.Data.List.Flatten
import Mathlib.Data.List.Perm.Basic
import Mathlib.Tactic.Common

/-!
# A pool of workers

Workers are told apart by their position, and one of them moves at a time. What the workers hold together
changes, up to order, by what that one drops and takes on.
-/

namespace Armore.Lib.Pool

variable {ω α : Type*}

/-- The worker at a position stands between the workers before and after it. -/
theorem split {pool : List ω} {i : Nat} {w : ω} (hw : pool[i]? = some w) :
    ∃ before after, pool = before ++ w :: after ∧ ∀ w', pool.set i w' = before ++ w' :: after := by
  obtain ⟨hi, hget⟩ := List.getElem?_eq_some_iff.mp hw
  refine ⟨pool.take i, pool.drop (i + 1), ?_, ?_⟩
  · rw [← hget, List.getElem_cons_drop, List.take_append_drop]
  · intro w'
    rw [List.set_eq_take_append_cons_drop, if_pos hi]

/-- What is held changes by what one worker drops and takes on. -/
theorem flatMap_set_perm (held : ω → List α) {pool : List ω} {i : Nat} {w : ω} (hw : pool[i]? = some w)
    (w' : ω) : ((pool.set i w').flatMap held ++ held w).Perm (pool.flatMap held ++ held w') := by
  obtain ⟨before, after, hpool, hset⟩ := split hw
  rw [hset, hpool]
  simp only [List.flatMap_append, List.flatMap_cons, List.append_assoc]
  apply List.Perm.append_left
  calc (held w' ++ (after.flatMap held ++ held w)).Perm ((after.flatMap held ++ held w) ++ held w') :=
        List.perm_append_comm
    _ |>.Perm ((held w ++ after.flatMap held) ++ held w') := List.perm_append_comm.append_right _
    _ = held w ++ (after.flatMap held ++ held w') := List.append_assoc ..

/-- The same for what can be counted. -/
theorem sum_map_set (weight : ω → Nat) {pool : List ω} {i : Nat} {w : ω} (hw : pool[i]? = some w)
    (w' : ω) : ((pool.set i w').map weight).sum + weight w = (pool.map weight).sum + weight w' := by
  obtain ⟨before, after, hpool, hset⟩ := split hw
  rw [hset, hpool]
  simp only [List.map_append, List.map_cons, List.sum_append, List.sum_cons]
  omega

theorem weight_le_sum (weight : ω → Nat) {pool : List ω} {i : Nat} {w : ω} (hw : pool[i]? = some w) :
    weight w ≤ (pool.map weight).sum := by
  obtain ⟨before, after, rfl, _⟩ := split hw
  simp only [List.map_append, List.map_cons, List.sum_append, List.sum_cons]
  omega

/-- Two workers weigh no more than all of them. -/
theorem add_weight_le_sum (weight : ω → Nat) {pool : List ω} {i j : Nat} {w w' : ω} (hij : i ≠ j)
    (hw : pool[i]? = some w) (hw' : pool[j]? = some w') : weight w + weight w' ≤ (pool.map weight).sum := by
  induction pool generalizing i j with
  | nil => cases hw
  | cons first pool ih =>
      rw [List.map_cons, List.sum_cons]
      cases i with
      | zero =>
          obtain ⟨j, rfl⟩ := Nat.exists_eq_succ_of_ne_zero hij.symm
          obtain rfl : first = w := Option.some.inj hw
          exact Nat.add_le_add_left (weight_le_sum weight (i := j) hw') _
      | succ i =>
          cases j with
          | zero =>
              obtain rfl : first = w' := Option.some.inj hw'
              rw [Nat.add_comm]
              exact Nat.add_le_add_left (weight_le_sum weight (i := i) hw) _
          | succ j =>
              have hrest := ih (fun h => hij (congrArg Nat.succ h)) hw hw'
              omega

/-- A sum that is not zero has a worker that weighs something. -/
theorem exists_weight_pos (weight : ω → Nat) {pool : List ω} (hsum : (pool.map weight).sum ≠ 0) :
    ∃ (i : Nat) (w : ω), pool[i]? = some w ∧ 0 < weight w := by
  induction pool with
  | nil => exact absurd rfl hsum
  | cons first pool ih =>
      by_cases hfirst : weight first = 0
      · rw [List.map_cons, List.sum_cons, hfirst, Nat.zero_add] at hsum
        obtain ⟨i, w, hw, hpos⟩ := ih hsum
        exact ⟨i + 1, w, hw, hpos⟩
      · exact ⟨0, first, rfl, Nat.pos_of_ne_zero hfirst⟩

end Armore.Lib.Pool
