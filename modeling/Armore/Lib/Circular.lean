import Mathlib.Data.List.Basic
import Mathlib.Data.List.Nodup
import Mathlib.Logic.Function.Iterate
import Mathlib.Tactic.Common

/-!
# Positions on a circle

A queue kept in a fixed array goes round: behind the last slot comes the first. Two positions on the
circle delimit the slots from the one up to the other, and what a reader and a writer of such a queue do
is move one of the two. `between` is the list of the delimited slots in the order in which a reader
passes them; it loses its head when the first position moves and gains a last element when the second
does, as long as the second does not catch up with the first.
-/

namespace Armore.Lib.Circular

variable {n i j k : Nat}

/-- The position behind one. -/
def next (n i : Nat) : Nat := if i + 1 = n then 0 else i + 1

/-- How many positions there are from `i` up to `j`. -/
def distance (n i j : Nat) : Nat := if i ≤ j then j - i else n + j - i

/-- So many positions from `i` on. -/
def span (n : Nat) : Nat → Nat → List Nat
  | _, 0 => []
  | i, k + 1 => i :: span n (next n i) k

/-- The positions from `i` up to `j`. -/
def between (n i j : Nat) : List Nat := span n i (distance n i j)

theorem next_lt (hi : i < n) : next n i < n := by
  unfold next
  split <;> omega

@[simp] theorem distance_self (n i : Nat) : distance n i i = 0 := by
  simp [distance]

theorem distance_lt (hi : i < n) (hj : j < n) : distance n i j < n := by
  unfold distance
  split <;> omega

theorem distance_eq_zero (hi : i < n) (hzero : distance n i j = 0) : i = j := by
  unfold distance at hzero
  split at hzero <;> omega

/-- Moving the first position brings it nearer. -/
theorem distance_next_left (hi : i < n) (hj : j < n) (hne : i ≠ j) :
    distance n i j = distance n (next n i) j + 1 := by
  unfold distance next
  split_ifs <;> omega

/-- Moving the second takes it away, unless it lands on the first. -/
theorem distance_next_right (hi : i < n) (hne : next n j ≠ i) :
    distance n i (next n j) = distance n i j + 1 := by
  unfold next at hne ⊢
  unfold distance
  split_ifs at hne ⊢ <;> omega

/-- Full circle. -/
theorem distance_next_self (hi : i < n) (heq : next n j = i) :
    distance n i j + 1 = n := by
  unfold next at heq
  unfold distance
  split_ifs at heq ⊢ <;> omega

/-- A position on the way splits the way. -/
theorem distance_add {m : Nat} (hi : i < n) (hj : j < n) (hm : m < n)
    (hle : distance n i m ≤ distance n i j) :
    distance n i j = distance n i m + distance n m j := by
  unfold distance at hle ⊢
  split_ifs at hle ⊢ <;> omega

/-! ### The slots on the way -/

@[simp] theorem length_span (n i k : Nat) : (span n i k).length = k := by
  induction k generalizing i with
  | zero => rfl
  | succ k ih => rw [span, List.length_cons, ih]

@[simp] theorem length_between (n i j : Nat) : (between n i j).length = distance n i j :=
  length_span n i _

@[simp] theorem between_self (n i : Nat) : between n i i = [] := by
  rw [between, distance_self, span]

theorem between_eq_nil (hi : i < n) (hj : j < n) : between n i j = [] ↔ i = j := by
  constructor
  · intro hnil
    have hlength := length_between n i j
    rw [hnil] at hlength
    exact distance_eq_zero hi hlength.symm
  · rintro rfl
    exact between_self n i

theorem between_eq_cons (hi : i < n) (hj : j < n) (hne : i ≠ j) :
    between n i j = i :: between n (next n i) j := by
  rw [between, distance_next_left hi hj hne, span, between]

/-- A slot is on the way exactly if it is nearer than the end. -/
theorem mem_span {x : Nat} (hi : i < n) (hk : k ≤ n) :
    x ∈ span n i k ↔ x < n ∧ distance n i x < k := by
  induction k generalizing i with
  | zero => simp [span]
  | succ k ih =>
      rw [span, List.mem_cons, ih (next_lt hi) (by omega)]
      constructor
      · rintro (rfl | ⟨hx, hnear⟩)
        · exact ⟨hi, by rw [distance_self]; omega⟩
        · refine ⟨hx, ?_⟩
          rcases eq_or_ne i x with rfl | hne
          · rw [distance_self]
            omega
          · rw [distance_next_left hi hx hne]
            omega
      · rintro ⟨hx, hnear⟩
        rcases eq_or_ne i x with rfl | hne
        · exact .inl rfl
        · rw [distance_next_left hi hx hne] at hnear
          exact .inr ⟨hx, by omega⟩

theorem mem_between {x : Nat} (hi : i < n) (hj : j < n) :
    x ∈ between n i j ↔ x < n ∧ distance n i x < distance n i j :=
  mem_span hi (Nat.le_of_lt (distance_lt hi hj))

/-- No slot is passed twice. -/
theorem nodup_span (hi : i < n) (hk : k ≤ n) : (span n i k).Nodup := by
  induction k generalizing i with
  | zero => exact List.nodup_nil
  | succ k ih =>
      rw [span, List.nodup_cons]
      refine ⟨?_, ih (next_lt hi) (by omega)⟩
      rw [mem_span (next_lt hi) (by omega)]
      rintro ⟨-, hnear⟩
      have hround := distance_next_self (next_lt hi) rfl
      omega

theorem not_mem_between_end (hi : i < n) (hj : j < n) : j ∉ between n i j := by
  rw [mem_between hi hj]
  omega

theorem span_add (n i k l : Nat) :
    span n i (k + l) = span n i k ++ span n ((next n)^[k] i) l := by
  induction k generalizing i with
  | zero => rw [Nat.zero_add, span, List.nil_append, Function.iterate_zero, id_eq]
  | succ k ih =>
      rw [Nat.add_right_comm, span, span, List.cons_append, ih, Function.iterate_succ_apply]

/-- Walking the distance arrives. -/
theorem iterate_next_distance (hi : i < n) (hj : j < n) : (next n)^[distance n i j] i = j := by
  generalize hk : distance n i j = k
  induction k generalizing i with
  | zero => exact distance_eq_zero hi hk
  | succ k ih =>
      rcases eq_or_ne i j with rfl | hne
      · rw [distance_self] at hk
        omega
      · rw [distance_next_left hi hj hne] at hk
        rw [Function.iterate_succ_apply]
        exact ih (next_lt hi) (by omega)

/-- A position on the way splits the slots. -/
theorem between_append {m : Nat} (hi : i < n) (hj : j < n) (hm : m < n)
    (hle : distance n i m ≤ distance n i j) :
    between n i j = between n i m ++ between n m j := by
  rw [between, distance_add hi hj hm hle, span_add, iterate_next_distance hi hm]
  rfl

/-- Moving the end appends the slot it stood on. -/
theorem between_next (hi : i < n) (hj : j < n) (hne : next n j ≠ i) :
    between n i (next n j) = between n i j ++ [j] := by
  have hdistance := distance_next_right hi hne
  rw [between, hdistance, span_add, iterate_next_distance hi hj]
  rfl

/-! ### All the way round -/

/-- Once round comes back. -/
theorem iterate_next_round (hi : i < n) : (next n)^[n] i = i := by
  obtain ⟨m, rfl⟩ : ∃ m, n = m + 1 := ⟨n - 1, by omega⟩
  have hround : distance (m + 1) (next (m + 1) i) i = m := by
    have hself := distance_next_self (next_lt hi) (rfl : next (m + 1) i = next (m + 1) i)
    omega
  have harrive := iterate_next_distance (next_lt hi) hi
  rwa [hround, ← Function.iterate_succ_apply] at harrive

/-- Once round from a position passes every slot. -/
theorem mem_span_round {x : Nat} (hi : i < n) : x ∈ span n i n ↔ x < n := by
  rw [mem_span hi (Nat.le_refl n)]
  exact ⟨fun hx => hx.1, fun hx => ⟨hx, distance_lt hi hx⟩⟩

/-- Once round from a later position is the same turn, cut there. -/
theorem span_rotate {x : Nat} {before after : List Nat} (hi : i < n)
    (hspan : span n i n = before ++ x :: after) : span n x n = x :: after ++ before := by
  have hlength : before.length + (after.length + 1) = n := by
    have hn := length_span n i n
    rw [hspan, List.length_append, List.length_cons] at hn
    exact hn
  have hcut : span n i before.length ++ span n ((next n)^[before.length] i) (after.length + 1)
      = before ++ x :: after := by
    rw [← span_add, hlength, hspan]
  obtain ⟨hbefore, hafter⟩ := List.append_inj hcut (length_span _ _ _)
  have hx : (next n)^[before.length] i = x := by
    rw [span, List.cons.injEq] at hafter
    exact hafter.1
  rw [hx] at hafter
  have hback : (next n)^[after.length + 1] x = i := by
    rw [← hx, ← Function.iterate_add_apply, Nat.add_comm, hlength, iterate_next_round hi]
  calc span n x n = span n x ((after.length + 1) + before.length) := by rw [Nat.add_comm, hlength]
    _ = x :: after ++ before := by rw [span_add, hafter, hback, hbefore]

end Armore.Lib.Circular
