import Mathlib.Data.List.Count
import Mathlib.Data.List.Induction
import Mathlib.Data.List.Nodup
import Mathlib.Tactic.Common

/-!
# The latest of a kind

A history is a list of events, the oldest first, and an event is told by its position. `Latest p` is the
position of the last event that satisfies `p`: what a table that every such event overwrites still knows
of the history. Distinct positions are a way to count: there are no more of them than events.
-/

namespace Armore.Lib

variable {α : Type*}

/-- Position `k` holds the last event that satisfies `p`. -/
def Latest (p : α → Prop) (events : List α) (k : Nat) : Prop :=
  (∃ a, events[k]? = some a ∧ p a) ∧ ∀ k', k < k' → ∀ a, events[k']? = some a → ¬ p a

theorem lt_length_of_getElem? {events : List α} {k : Nat} {a : α} (hk : events[k]? = some a) :
    k < events.length :=
  (List.getElem?_eq_some_iff.mp hk).1

/-- What was at a position stays there. -/
theorem getElem?_append_of_some {events later : List α} {k : Nat} {a : α} (hk : events[k]? = some a) :
    (events ++ later)[k]? = some a := by
  rw [List.getElem?_append_left (lt_length_of_getElem? hk), hk]

theorem getElem?_snoc_length (events : List α) (a : α) : (events ++ [a])[events.length]? = some a := by
  simp

/-- A position of a longer history is the last one or one of before. -/
theorem getElem?_snoc_cases {events : List α} {last a : α} {k : Nat}
    (hk : (events ++ [last])[k]? = some a) :
    events[k]? = some a ∨ k = events.length ∧ a = last := by
  by_cases hlt : k < events.length
  · rw [List.getElem?_append_left hlt] at hk
    exact Or.inl hk
  · have hbound := lt_length_of_getElem? hk
    rw [List.length_append, List.length_singleton] at hbound
    obtain rfl : k = events.length := by omega
    rw [getElem?_snoc_length] at hk
    exact Or.inr ⟨rfl, (Option.some.inj hk).symm⟩

namespace Latest

variable {p : α → Prop} {events : List α} {k : Nat}

theorem lt_length (hlatest : Latest p events k) : k < events.length := by
  obtain ⟨⟨a, hk, _⟩, _⟩ := hlatest
  exact lt_length_of_getElem? hk

theorem snoc_self {a : α} (ha : p a) : Latest p (events ++ [a]) events.length := by
  refine ⟨⟨a, getElem?_snoc_length events a, ha⟩, ?_⟩
  intro k' hk' a' ha'
  have hbound := lt_length_of_getElem? ha'
  rw [List.length_append, List.length_singleton] at hbound
  omega

theorem snoc {a : α} (hlatest : Latest p events k) (ha : ¬ p a) : Latest p (events ++ [a]) k := by
  obtain ⟨⟨b, hk, hb⟩, hlast⟩ := hlatest
  refine ⟨⟨b, getElem?_append_of_some hk, hb⟩, ?_⟩
  intro k' hk' a' ha'
  rcases getElem?_snoc_cases ha' with ha' | ⟨_, rfl⟩
  · exact hlast k' hk' a' ha'
  · exact ha

/-- No event of the kind comes later. -/
theorem le_of_mem (hlatest : Latest p events k) {k' : Nat} {a : α} (hk' : events[k']? = some a)
    (ha : p a) : k' ≤ k := by
  by_contra hlt
  exact hlatest.2 k' (by omega) a hk' ha

end Latest

/-- Distinct positions of events of a kind, all in the second part of a history, are no more than the
events of that kind there. -/
theorem length_le_countP {p : α → Bool} {before during : List α} {positions : List Nat}
    (hnodup : positions.Nodup)
    (hkind : ∀ k ∈ positions, before.length ≤ k ∧ ∃ a, (before ++ during)[k]? = some a ∧ p a = true) :
    positions.length ≤ during.countP p := by
  induction during using List.reverseRecOn generalizing positions with
  | nil =>
      cases positions with
      | nil => exact Nat.zero_le _
      | cons k positions =>
          obtain ⟨hfrom, a, hk, _⟩ := hkind k List.mem_cons_self
          rw [List.append_nil] at hk
          have hbound := lt_length_of_getElem? hk
          omega
  | append_singleton during last ih =>
      rw [List.countP_append, List.countP_singleton]
      have hothers : (positions.erase (before ++ during).length).length ≤ during.countP p := by
        apply ih (hnodup.erase _)
        intro k hk
        obtain ⟨hne, hmem⟩ := hnodup.mem_erase_iff.mp hk
        obtain ⟨hfrom, a, ha, hpa⟩ := hkind k hmem
        rw [← List.append_assoc] at ha
        rcases getElem?_snoc_cases ha with ha | ⟨rfl, _⟩
        · exact ⟨hfrom, a, ha, hpa⟩
        · exact absurd rfl hne
      by_cases hlast : (before ++ during).length ∈ positions
      · obtain ⟨_, a, ha, hpa⟩ := hkind _ hlast
        rw [← List.append_assoc, getElem?_snoc_length] at ha
        cases ha
        rw [List.length_erase_of_mem hlast] at hothers
        rw [if_pos hpa]
        omega
      · rw [List.erase_of_not_mem hlast] at hothers
        omega

end Armore.Lib
