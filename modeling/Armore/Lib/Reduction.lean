import Mathlib.Data.List.Basic

/-!
# Bracketings of a reduction

Partial results are combined two at a time, in any order and any bracketing, by an operation that may
have several outcomes. What is known of each partial result as a summary of the inputs it was made from
is known of the end result, if one combination keeps it; and a summary that does not depend on the order
of its inputs does not depend on how they were distributed.
-/

namespace Armore.Lib

variable {α ρ : Type*}

/-- A way to bracket some parts. -/
inductive Bracketing (α : Type*)
  | part (a : α)
  | both (left right : Bracketing α)

namespace Bracketing

/-- The parts, from left to right. -/
def parts : Bracketing α → List α
  | .part a => [a]
  | .both left right => left.parts ++ right.parts

/-- What a bracketing reduces to, when each part yields a partial result. -/
inductive Reduces (yields : α → ρ) (compose : ρ → ρ → ρ → Prop) : Bracketing α → ρ → Prop
  | part (a : α) : Reduces yields compose (.part a) (yields a)
  | both {left right : Bracketing α} {r₁ r₂ r : ρ} : Reduces yields compose left r₁ →
      Reduces yields compose right r₂ → compose r₁ r₂ r → Reduces yields compose (.both left right) r

/-- **A summary is kept by the whole reduction.** -/
theorem Reduces.summarizes {yields : List α → ρ} {compose : ρ → ρ → ρ → Prop} (S : List α → ρ → Prop)
    (hyields : ∀ xs, S xs (yields xs))
    (hcompose : ∀ xs ys r₁ r₂ r, S xs r₁ → S ys r₂ → compose r₁ r₂ r → S (xs ++ ys) r)
    {b : Bracketing (List α)} {r : ρ} (hreduces : Reduces yields compose b r) : S b.parts.flatten r := by
  induction hreduces with
  | part xs =>
      rw [parts, List.flatten_singleton]
      exact hyields xs
  | both _ _ hlast ihleft ihright =>
      rw [parts, List.flatten_append]
      exact hcompose _ _ _ _ _ ihleft ihright hlast

/-- Every bracketing reduces to something if any two results can be combined. -/
theorem exists_reduces {yields : α → ρ} {compose : ρ → ρ → ρ → Prop}
    (hcompose : ∀ r₁ r₂, ∃ r, compose r₁ r₂ r) (b : Bracketing α) : ∃ r, Reduces yields compose b r := by
  induction b with
  | part a => exact ⟨_, .part a⟩
  | both left right ihleft ihright =>
      obtain ⟨r₁, hleft⟩ := ihleft
      obtain ⟨r₂, hright⟩ := ihright
      obtain ⟨r, hr⟩ := hcompose r₁ r₂
      exact ⟨r, .both hleft hright hr⟩

end Bracketing

end Armore.Lib
