import Mathlib.Data.List.Basic
import Mathlib.Tactic.Common

/-!
# Pairs seen component by component

A list of pairs is gone through, and a pair is left out when its first component and its second component have
both been seen, be it in two different pairs. That leaves out what has been seen before, but also a pair that is
new and mixes two earlier ones; so it keeps each pair once exactly when there is none of these.
-/

namespace Armore.Lib.SeenPairs

variable {α β : Type*} [BEq α] [LawfulBEq α] [BEq β] [LawfulBEq β]

/-- The pairs that have not both components seen before. -/
def kept (seen : List (α × β)) : List (α × β) → List (α × β)
  | [] => []
  | pair :: pairs =>
    if pair.1 ∈ seen.map Prod.fst ∧ pair.2 ∈ seen.map Prod.snd then kept (seen ++ [pair]) pairs
    else pair :: kept (seen ++ [pair]) pairs

/-- No pair has the first component of an earlier pair and the second of an earlier pair, unless it is one of them. -/
def Unmixed (seen : List (α × β)) : List (α × β) → Prop
  | [] => True
  | pair :: pairs =>
    (pair.1 ∈ seen.map Prod.fst → pair.2 ∈ seen.map Prod.snd → pair ∈ seen) ∧ Unmixed (seen ++ [pair]) pairs

variable {seen : List (α × β)}

/-- The pairs that were not seen before, once each. -/
def fresh (seen pairs : List (α × β)) : List (α × β) := (pairs.filter (· ∉ seen)).eraseDups

theorem fresh_of_mem {pair : α × β} (hpair : pair ∈ seen) (pairs : List (α × β)) :
    fresh seen (pair :: pairs) = fresh (seen ++ [pair]) pairs := by
  rw [fresh, fresh, List.filter_cons, if_neg (by simpa using hpair)]
  congr 1
  refine List.filter_congr fun r _ => ?_
  have hsame : r ∈ seen ++ [pair] ↔ r ∈ seen := by
    rw [List.mem_append, List.mem_singleton]
    exact or_iff_left_of_imp fun heq => heq ▸ hpair
  rw [decide_eq_decide, hsame]

theorem fresh_of_notMem {pair : α × β} (hpair : pair ∉ seen) (pairs : List (α × β)) :
    fresh seen (pair :: pairs) = pair :: fresh (seen ++ [pair]) pairs := by
  rw [fresh, fresh, List.filter_cons, if_pos (by simpa using hpair), List.eraseDups_cons, List.filter_filter]
  congr 2
  refine List.filter_congr fun r _ => ?_
  rw [Bool.eq_iff_iff]
  simp only [Bool.and_eq_true, Bool.not_eq_true', beq_eq_false_iff_ne, decide_eq_true_eq, List.mem_append,
    List.mem_singleton, not_or]
  exact and_comm

omit [BEq α] [LawfulBEq α] [BEq β] [LawfulBEq β] in
theorem mem_fst_snd_of_mem {pair : α × β} (hpair : pair ∈ seen) :
    pair.1 ∈ seen.map Prod.fst ∧ pair.2 ∈ seen.map Prod.snd :=
  ⟨List.mem_map_of_mem hpair, List.mem_map_of_mem hpair⟩

/-- No pair is kept twice, and none that is not there. -/
theorem kept_sublist (seen pairs : List (α × β)) : List.Sublist (kept seen pairs) (fresh seen pairs) := by
  induction pairs generalizing seen with
  | nil => exact List.Sublist.refl []
  | cons pair pairs ih =>
      rw [kept]
      by_cases hpair : pair ∈ seen
      · rw [if_pos (mem_fst_snd_of_mem hpair), fresh_of_mem hpair]
        exact ih _
      · rw [fresh_of_notMem hpair]
        split
        · exact (ih _).cons pair
        · exact (ih _).cons_cons pair

/-- **The distinct pairs are kept exactly when no pair mixes two others.** -/
theorem kept_eq_iff (seen pairs : List (α × β)) : kept seen pairs = fresh seen pairs ↔ Unmixed seen pairs := by
  induction pairs generalizing seen with
  | nil => exact iff_of_true rfl trivial
  | cons pair pairs ih =>
      rw [kept, Unmixed, ← ih]
      by_cases hpair : pair ∈ seen
      · rw [if_pos (mem_fst_snd_of_mem hpair), fresh_of_mem hpair, and_iff_right fun _ _ => hpair]
      · rw [fresh_of_notMem hpair]
        split
        · rename_i hmixed
          refine iff_of_false (fun heq => ?_) fun h => hpair (h.1 hmixed.1 hmixed.2)
          -- the rest keeps too few pairs to make up for the one left out
          have hlength := (kept_sublist (seen ++ [pair]) pairs).length_le
          rw [heq, List.length_cons] at hlength
          omega
        · rename_i hunmixed
          rw [List.cons.injEq, and_iff_right rfl, and_iff_right fun h h' => absurd ⟨h, h'⟩ hunmixed]

theorem kept_nil_eq_iff {pairs : List (α × β)} : kept [] pairs = pairs.eraseDups ↔ Unmixed [] pairs := by
  have hall : pairs.filter (fun pair => pair ∉ ([] : List (α × β))) = pairs :=
    List.filter_eq_self.mpr fun pair _ => decide_eq_true List.not_mem_nil
  rw [← kept_eq_iff, fresh, hall]

/-- Only what was seen counts, not how often. -/
theorem kept_congr {seen' : List (α × β)} (hsame : ∀ pair, pair ∈ seen ↔ pair ∈ seen') (pairs : List (α × β)) :
    kept seen pairs = kept seen' pairs := by
  induction pairs generalizing seen seen' with
  | nil => rfl
  | cons pair pairs ih =>
      have hfst : pair.1 ∈ seen.map Prod.fst ↔ pair.1 ∈ seen'.map Prod.fst := by
        simp only [List.mem_map, hsame]
      have hsnd : pair.2 ∈ seen.map Prod.snd ↔ pair.2 ∈ seen'.map Prod.snd := by
        simp only [List.mem_map, hsame]
      have hrest : kept (seen ++ [pair]) pairs = kept (seen' ++ [pair]) pairs := by
        refine ih fun r => ?_
        rw [List.mem_append, List.mem_append, hsame]
      rw [kept, kept, hrest]
      simp only [hfst, hsnd]

/-- A pair that was seen is passed over, as often as it comes. -/
theorem kept_replicate {pair : α × β} (hpair : pair ∈ seen) (n : Nat) (pairs : List (α × β)) :
    kept seen (List.replicate n pair ++ pairs) = kept seen pairs := by
  induction n with
  | zero => rw [List.replicate_zero, List.nil_append]
  | succ n ih =>
      rw [List.replicate_succ, List.cons_append, kept, if_pos (mem_fst_snd_of_mem hpair), ← ih]
      refine kept_congr (fun r => ?_) _
      rw [List.mem_append, List.mem_singleton]
      exact or_iff_left_of_imp fun heq => heq ▸ hpair

/-- Pairs that come several times in a row are kept as if they came once. -/
theorem kept_flatMap (n : Nat) (seen pairs : List (α × β)) :
    kept seen (pairs.flatMap fun pair => List.replicate (n + 1) pair) = kept seen pairs := by
  induction pairs generalizing seen with
  | nil => rfl
  | cons pair pairs ih =>
      have hpair : pair ∈ seen ++ [pair] := List.mem_append_right seen (List.mem_singleton_self pair)
      rw [List.flatMap_cons, List.replicate_succ, List.cons_append, kept, kept, kept_replicate hpair, ih]

theorem kept_subset {pairs : List (α × β)} {pair : α × β} (hpair : pair ∈ kept seen pairs) : pair ∈ pairs :=
  List.mem_of_mem_filter (List.mem_eraseDups.mp ((kept_sublist seen pairs).subset hpair))

end Armore.Lib.SeenPairs
