import Mathlib.Tactic.Common
import Mathlib.Data.List.Infix

/-!
# Walking along a path

A path is a list of components: names, which go down, and `..`, which goes up and stays where it is at the
root. Where a walk ends is told by counting. A walk of which no part from the start climbs stays below where
it began; one of which every part to the end climbs takes back all its names. The walk from the root ends
below the directory of two names exactly when the path is cut at those names into parts of these kinds.
-/

namespace Armore.Lib

inductive Comp (N : Type)
  | up
  | name (n : N)

namespace Comp

variable {N : Type}

def step (s : List N) : Comp N → List N
  | up => s.dropLast
  | name n => s ++ [n]

/-- Where the walk from a place ends; a place is the names from the root. -/
def walk (s : List N) (cs : List (Comp N)) : List N := cs.foldl step s

def ups : List (Comp N) → Nat
  | [] => 0
  | up :: cs => ups cs + 1
  | name _ :: cs => ups cs

def names : List (Comp N) → Nat
  | [] => 0
  | up :: cs => names cs
  | name _ :: cs => names cs + 1

/-- No `..` climbs above the start. -/
def Below (cs : List (Comp N)) : Prop := ∀ front, front <+: cs → ups front ≤ names front

/-- Every name is taken back, and no `..` climbs above the start. -/
def Detour (cs : List (Comp N)) : Prop := Below cs ∧ ups cs = names cs

/-- From no point on are there more names than `..`. -/
def TakesBack (cs : List (Comp N)) : Prop := ∀ back, back <:+ cs → names back ≤ ups back

variable {s : List N} {cs : List (Comp N)}

theorem ups_append (cs cs' : List (Comp N)) : ups (cs ++ cs') = ups cs + ups cs' := by
  induction cs with
  | nil => rw [List.nil_append, ups, Nat.zero_add]
  | cons c cs ih =>
      cases c <;> simp only [List.cons_append, ups, ih]
      omega

theorem names_append (cs cs' : List (Comp N)) : names (cs ++ cs') = names cs + names cs' := by
  induction cs with
  | nil => rw [List.nil_append, names, Nat.zero_add]
  | cons c cs ih =>
      cases c <;> simp only [List.cons_append, names, ih]
      omega

theorem walk_append (s : List N) (cs cs' : List (Comp N)) : walk s (cs ++ cs') = walk (walk s cs) cs' :=
  List.foldl_append

theorem walk_concat (s : List N) (cs : List (Comp N)) (c : Comp N) : walk s (cs ++ [c]) = step (walk s cs) c :=
  walk_append s cs [c]

theorem Below.of_prefix {front : List (Comp N)} (h : Below cs) (hfront : front <+: cs) : Below front :=
  fun _ h' => h _ (h'.trans hfront)

theorem below_nil : Below ([] : List (Comp N)) := by
  intro front hfront
  rw [List.prefix_nil.mp hfront]
  exact le_rfl

theorem Below.concat {c : Comp N} (h : Below cs) (hc : ups (cs ++ [c]) ≤ names (cs ++ [c])) : Below (cs ++ [c]) := by
  intro front hfront
  rcases List.prefix_concat_iff.mp hfront with rfl | hfront
  · exact hc
  · exact h front hfront

/-- A walk that does not climb goes on from where it began. -/
theorem Below.walk (h : Below cs) (s : List N) : ∃ t, walk s cs = s ++ t ∧ t.length + ups cs = names cs := by
  induction cs using List.reverseRecOn with
  | nil => exact ⟨[], (List.append_nil s).symm, rfl⟩
  | append_singleton cs c ih =>
      obtain ⟨t, ht, hlength⟩ := ih (h.of_prefix (List.prefix_append cs [c]))
      have hc := h _ List.prefix_rfl
      rw [ups_append, names_append] at hc ⊢
      rw [walk_concat, ht]
      cases c with
      | up =>
          simp only [ups, names] at hc ⊢
          have hne : t ≠ [] := List.ne_nil_of_length_pos (by omega)
          refine ⟨t.dropLast, List.dropLast_append_of_ne_nil hne, ?_⟩
          rw [List.length_dropLast]
          omega
      | name n =>
          simp only [ups, names] at hc ⊢
          refine ⟨t ++ [n], List.append_assoc s t [n], ?_⟩
          rw [List.length_append, List.length_singleton]
          omega

theorem Detour.walk (h : Detour cs) (s : List N) : walk s cs = s := by
  obtain ⟨t, ht, hlength⟩ := h.1.walk s
  have hnil : t = [] := List.eq_nil_of_length_eq_zero (by have := h.2; omega)
  rw [ht, hnil, List.append_nil]

/-- The names of a walk are where it ends or taken back. -/
theorem names_le (s : List N) (cs : List (Comp N)) : names cs ≤ (walk s cs).length + ups cs := by
  induction cs using List.reverseRecOn with
  | nil => exact Nat.zero_le _
  | append_singleton cs c ih =>
      rw [walk_concat, names_append, ups_append]
      cases c with
      | up => simp only [step, names, ups, List.length_dropLast]; omega
      | name n => simp only [step, names, ups, List.length_append, List.length_singleton]; omega

theorem length_walk_le {k : Nat} (h : ∀ back, back <:+ cs → names back ≤ ups back + k) : (walk [] cs).length ≤ k := by
  induction cs using List.reverseRecOn generalizing k with
  | nil => exact Nat.zero_le k
  | append_singleton cs c ih =>
      have hlast := h [c] (List.suffix_append cs [c])
      have hsuffix (back : List (Comp N)) (hback : back <:+ cs) : names (back ++ [c]) ≤ ups (back ++ [c]) + k :=
        h _ (List.suffix_append_self_iff.mpr hback)
      simp only [names_append, ups_append] at hsuffix
      rw [walk_concat]
      cases c with
      | up =>
          have hbefore := ih (k := k + 1) fun back hback => by
            have := hsuffix back hback
            simp only [names, ups] at this
            omega
          rw [step, List.length_dropLast]
          omega
      | name n =>
          simp only [names, ups] at hlast
          have hbefore := ih (k := k - 1) fun back hback => by
            have := hsuffix back hback
            simp only [names, ups] at this
            omega
          rw [step, List.length_append, List.length_singleton]
          omega

theorem takesBack_iff : TakesBack cs ↔ walk [] cs = [] := by
  constructor
  · intro h
    exact List.eq_nil_of_length_eq_zero (Nat.le_zero.mp (length_walk_le h))
  · rintro h back ⟨front, rfl⟩
    rw [walk_append] at h
    have hnames := names_le (walk [] front) back
    rw [h, List.length_nil] at hnames
    omega

/-- The last time the walk goes down to a name of the place where it ends. -/
theorem exists_split {before : List N} {n : N} {rest : List N} (h : walk [] cs = before ++ n :: rest) :
    ∃ front back, cs = front ++ name n :: back ∧ walk [] front = before ∧ Below back := by
  induction cs using List.reverseRecOn generalizing rest with
  | nil => exact absurd h.symm (List.append_ne_nil_of_right_ne_nil _ (List.cons_ne_nil _ _))
  | append_singleton cs c ih =>
      rw [walk_concat] at h
      cases c with
      | up =>
          obtain ⟨last, hlast⟩ : ∃ last, walk [] cs = before ++ n :: (rest ++ [last]) := by
            have hne : walk [] cs ≠ [] := by
              intro hnil
              rw [hnil] at h
              exact absurd h.symm (List.append_ne_nil_of_right_ne_nil _ (List.cons_ne_nil _ _))
            refine ⟨(walk [] cs).getLast hne, ?_⟩
            rw [← List.cons_append, ← List.append_assoc, ← h]
            exact (List.dropLast_append_getLast hne).symm
          obtain ⟨front, back, rfl, hfront, hback⟩ := ih hlast
          refine ⟨front, back ++ [up], by rw [List.append_assoc, List.cons_append], hfront, hback.concat ?_⟩
          -- the name that is dropped comes from `back`
          obtain ⟨t, ht, hlength⟩ := hback.walk (before ++ [n])
          rw [walk_append, hfront, ← List.singleton_append, walk_append] at hlast
          have hwalk : before ++ [n] ++ t = before ++ [n] ++ (rest ++ [last]) := by
            rw [← ht, List.append_assoc]
            exact hlast
          rw [List.append_cancel_left hwalk, List.length_append, List.length_singleton] at hlength
          rw [ups_append, names_append]
          simp only [ups, names]
          omega
      | name m =>
          rcases List.eq_nil_or_concat rest with rfl | ⟨rest, last, rfl⟩
          · obtain ⟨hbefore, hname⟩ := List.append_inj' h rfl
            obtain rfl := List.singleton_inj.mp hname
            exact ⟨cs, [], rfl, hbefore, below_nil⟩
          · rw [List.concat_eq_append, ← List.cons_append, ← List.append_assoc] at h
            obtain ⟨front, back, rfl, hfront, hback⟩ := ih (List.append_inj' h rfl).1
            refine ⟨front, back ++ [name m], by rw [List.append_assoc, List.cons_append], hfront, hback.concat ?_⟩
            have hall := hback back List.prefix_rfl
            rw [ups_append, names_append]
            simp only [ups, names]
            omega

/-- **The walk ends at the directory of two names or below it** exactly when the path takes back all its names,
goes down to the first, makes a detour, goes down to the second, and does not climb from there. -/
theorem pair_prefix_walk_iff {a b : N} : [a, b] <+: walk [] cs ↔
    ∃ front mid back, cs = front ++ name a :: (mid ++ name b :: back) ∧ TakesBack front ∧ Detour mid ∧ Below back := by
  constructor
  · rintro ⟨rest, hrest⟩
    have hwalk : walk [] cs = [a] ++ b :: rest := hrest.symm
    obtain ⟨front, back, rfl, hfront, hback⟩ := exists_split hwalk
    have hwalk : walk [] front = [] ++ a :: [] := hfront
    obtain ⟨front, mid, rfl, hroot, hmid⟩ := exists_split hwalk
    refine ⟨front, mid, back, by rw [List.append_assoc, List.cons_append], takesBack_iff.mpr hroot, ⟨hmid, ?_⟩, hback⟩
    obtain ⟨t, ht, hlength⟩ := hmid.walk [a]
    rw [walk_append, hroot] at hfront
    have hnil : [a] ++ t = [a] ++ [] := by
      rw [← ht]
      exact hfront
    rw [List.append_cancel_left hnil] at hlength
    exact (Nat.zero_add _).symm.trans hlength
  · rintro ⟨front, mid, back, rfl, hfront, hmid, hback⟩
    obtain ⟨t, ht, _⟩ := hback.walk [a, b]
    refine ⟨t, ?_⟩
    rw [walk_append, takesBack_iff.mp hfront, ← ht]
    show _ = walk [a] (mid ++ name b :: back)
    rw [walk_append, hmid.walk]
    rfl

end Comp

end Armore.Lib
