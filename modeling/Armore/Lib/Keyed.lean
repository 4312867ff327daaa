import Mathlib.Data.List.Nodup
import Mathlib.Tactic.Common

/-!
# Rows with a key

A list of rows, each with a key, used as a map: a row is put in the place of the row with its key or at the
end, and the row of a key is dropped. Both keep distinct keys distinct and leave the rows of the other keys
as they are and in their order. A map of the rows that keeps their keys commutes with both, which is how a
file of lines follows the table it stands for.
-/

namespace Armore.Lib.Keyed

variable {α β κ : Type*} [DecidableEq κ]

/-- The row in the place of each row with its key, or at the end. -/
def put (key : α → κ) (row : α) (rows : List α) : List α :=
  if rows.any fun r => key r = key row then rows.map fun r => if key r = key row then row else r
  else rows ++ [row]

/-- The rows with another key. -/
def drop (key : α → κ) (k : κ) (rows : List α) : List α := rows.filter fun r => key r ≠ k

variable {key : α → κ}

theorem any_key {k : κ} {rows : List α} : (rows.any fun r => key r = k) = true ↔ k ∈ rows.map key := by
  rw [List.any_eq_true, List.mem_map]
  constructor
  · intro ⟨r, hmem, hkey⟩
    exact ⟨r, hmem, of_decide_eq_true hkey⟩
  · intro ⟨r, hmem, hkey⟩
    exact ⟨r, hmem, decide_eq_true hkey⟩

theorem put_cons_of_ne {row r : α} (hkey : key r ≠ key row) (rows : List α) :
    put key row (r :: rows) = r :: put key row rows := by
  rw [put, put, List.any_cons, decide_eq_false hkey, Bool.false_or, List.map_cons, if_neg hkey]
  split <;> rfl

theorem drop_cons_of_ne {k : κ} {r : α} (hkey : key r ≠ k) (rows : List α) :
    drop key k (r :: rows) = r :: drop key k rows :=
  List.filter_cons_of_pos (decide_eq_true hkey)

theorem mem_put {row r : α} {rows : List α} (hmem : r ∈ put key row rows) : r = row ∨ r ∈ rows := by
  rw [put] at hmem
  split at hmem
  · obtain ⟨r', hmem', hr⟩ := List.mem_map.mp hmem
    split at hr
    · exact .inl hr.symm
    · exact .inr (hr ▸ hmem')
  · rcases List.mem_append.mp hmem with hrows | hrow
    · exact .inr hrows
    · exact .inl (List.mem_singleton.mp hrow)

theorem mem_drop {k : κ} {r : α} {rows : List α} : r ∈ drop key k rows ↔ r ∈ rows ∧ key r ≠ k := by
  rw [drop, List.mem_filter, decide_eq_true_eq]

/-- A replaced row has the key it had. -/
theorem map_key_replace (row : α) (rows : List α) :
    (rows.map fun r => if key r = key row then row else r).map key = rows.map key := by
  rw [List.map_map]
  apply List.map_congr_left
  intro r _
  rw [Function.comp_apply]
  split
  · rename_i hkey
    exact hkey.symm
  · rfl

theorem nodup_put {rows : List α} (hnodup : (rows.map key).Nodup) (row : α) :
    ((put key row rows).map key).Nodup := by
  rw [put]
  split
  · rw [map_key_replace]
    exact hnodup
  · rename_i hnew
    rw [List.map_append, List.map_singleton]
    refine List.Nodup.append hnodup (List.nodup_singleton _) ?_
    rw [List.disjoint_singleton]
    exact fun hmem => hnew (any_key.mpr hmem)

theorem nodup_drop {rows : List α} (hnodup : (rows.map key).Nodup) (k : κ) :
    ((drop key k rows).map key).Nodup :=
  (List.filter_sublist.map key).nodup hnodup

/-! ### The other rows -/

theorem drop_replace (row : α) (rows : List α) :
    drop key (key row) (rows.map fun r => if key r = key row then row else r) = drop key (key row) rows := by
  induction rows with
  | nil => rfl
  | cons r rows ih =>
    rw [drop, drop] at ih
    by_cases hkey : key r = key row
    · rw [drop, drop, List.map_cons, if_pos hkey, List.filter_cons_of_neg (by simp),
        List.filter_cons_of_neg (by simp [hkey]), ih]
    · rw [drop, drop, List.map_cons, if_neg hkey, List.filter_cons_of_pos (by simp [hkey]),
        List.filter_cons_of_pos (by simp [hkey]), ih]

/-- **A row put in leaves the rows of the other keys.** -/
theorem drop_put (row : α) (rows : List α) : drop key (key row) (put key row rows) = drop key (key row) rows := by
  rw [put]
  split
  · exact drop_replace row rows
  · rw [drop, List.filter_append, List.filter_cons_of_neg (by simp), List.filter_nil, List.append_nil]
    rfl

theorem drop_drop (k : κ) (rows : List α) : drop key k (drop key k rows) = drop key k rows := by
  rw [drop, drop, List.filter_filter]
  simp only [Bool.and_self]

/-! ### Maps that keep the keys -/

variable {key' : β → κ} {f : α → β}

theorem map_put {row : α} {rows : List α} (hrow : key' (f row) = key row)
    (hkey : ∀ r ∈ rows, key' (f r) = key r) : (put key row rows).map f = put key' (f row) (rows.map f) := by
  have hkeys : (rows.map f).map key' = rows.map key := by
    rw [List.map_map]
    exact List.map_congr_left hkey
  have hany : ((rows.map f).any fun r => key' r = key' (f row)) = rows.any fun r => key r = key row := by
    rw [Bool.eq_iff_iff, any_key, any_key, hkeys, hrow]
  rw [put, put, hany]
  split
  · rw [List.map_map, List.map_map]
    apply List.map_congr_left
    intro r hmem
    rw [Function.comp_apply, Function.comp_apply, hrow, hkey r hmem, apply_ite f]
  · rw [List.map_append, List.map_singleton]

theorem map_drop {rows : List α} (hkey : ∀ r ∈ rows, key' (f r) = key r) (k : κ) :
    (drop key k rows).map f = drop key' k (rows.map f) := by
  rw [drop, drop, List.filter_map]
  congr 1
  apply List.filter_congr
  intro r hmem
  rw [Function.comp_apply, hkey r hmem]

end Armore.Lib.Keyed
