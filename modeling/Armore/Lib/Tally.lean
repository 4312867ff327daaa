import Armore.Lib.Table

/-!
# Tables that tally

A table that may not exist yet holds, under each key, a summary of what was given for that key. A summary
is a function of a list, `none` of the empty one, that can be extended: from the summary of some inputs
and the summary of more of them `f` makes the summary of both. Giving one more input and merging two such
tables then are the same step, and the table is again what it should be of all inputs.
-/

namespace Armore.Lib

variable {K V α β : Type*}

/-- `f` extends the summary, on the inputs that are `ok`. -/
structure Extends (summary : List β → Option V) (f : Option V → V → V) (ok : β → Prop) : Prop where
  eq_none : ∀ xs, summary xs = none ↔ xs = []
  append : ∀ xs ys value, (∀ b ∈ xs, ok b) → (∀ b ∈ ys, ok b) → summary ys = some value →
    summary (xs ++ ys) = some (f (summary xs) value)

variable [DecidableEq K] {summary : List β → Option V} {f : Option V → V → V} {ok : β → Prop}
  {given : K → α → Option β}

/-- The table holds the summaries of what `given` finds in the inputs, and exists if there is any. -/
structure Tallies (summary : List β → Option V) (given : K → α → Option β) (inputs : List α)
    (table? : Option (Table K V)) : Prop where
  isSome : table?.isSome = true ↔ ∃ a ∈ inputs, ∃ key, (given key a).isSome = true
  get? : ∀ key, table?.bind (·.get? key) = summary (inputs.filterMap (given key))

theorem tallies_nil (hextends : Extends summary f ok) :
    Tallies summary given [] (none : Option (Table K V)) where
  isSome := by simp
  get? _ := ((hextends.eq_none []).mpr rfl).symm

/-- An input that gives nothing. -/
theorem Tallies.skip {inputs : List α} {table? : Option (Table K V)}
    (h : Tallies summary given inputs table?) {a : α} (ha : ∀ key, given key a = none) :
    Tallies summary given (inputs ++ [a]) table? where
  isSome := by
    rw [h.isSome]
    simp [ha]
  get? key := by
    rw [h.get? key, List.filterMap_append]
    simp [ha]

/-- An input that gives something for one key. -/
theorem Tallies.put (hextends : Extends summary f ok) {inputs : List α} {table? : Option (Table K V)}
    (h : Tallies summary given inputs table?) {a : α} {key : K} {b : β} {value : V}
    (ha : given key a = some b) (hother : ∀ other ≠ key, given other a = none)
    (hok : ∀ b ∈ inputs.filterMap (given key), ok b) (hb : ok b) (hvalue : summary [b] = some value) :
    Tallies summary given (inputs ++ [a])
      (some ((table?.getD ∅).put key (f ((table?.getD ∅).get? key) value))) where
  isSome := by
    simp only [Option.isSome_some, true_iff]
    exact ⟨a, by simp, key, by rw [ha]; rfl⟩
  get? other := by
    have hgetD : ∀ key, (table?.getD ∅).get? key = table?.bind (·.get? key) := by
      intro key
      cases table? <;> rfl
    rw [Option.bind_some, Table.get?_put, hgetD, hgetD, h.get? key, h.get? other, List.filterMap_append]
    by_cases hkey : other = key
    · subst hkey
      have hlast : [a].filterMap (given other) = [b] := by simp [ha]
      rw [if_pos rfl, hlast]
      exact (hextends.append _ _ _ hok (by simpa using hb) hvalue).symm
    · have hlast : [a].filterMap (given other) = [] := by simp [hother other hkey]
      rw [if_neg hkey, hlast, List.append_nil]

/-- Two tables put together, the entries of the second one in any order. -/
inductive Merges (f : Option V → V → V) :
    Option (Table K V) → Option (Table K V) → Option (Table K V) → Prop
  | neither : Merges f none none none
  | second (t₂ : Table K V) : Merges f none (some t₂) (some t₂)
  | first (t₁ : Table K V) : Merges f (some t₁) none (some t₁)
  | both (t₁ : Table K V) {t₂ : Table K V} {order : List (Sigma fun _ : K => V)} :
      order.Perm t₂.entries → Merges f (some t₁) (some t₂) (some (t₁.mergeWith f order))

/-- **Merged tables tally the inputs of both.** -/
theorem Tallies.merges (hextends : Extends summary f ok) {xs ys : List α}
    {t₁ t₂ t : Option (Table K V)} (h₁ : Tallies summary given xs t₁) (h₂ : Tallies summary given ys t₂)
    (hxs : ∀ key, ∀ b ∈ xs.filterMap (given key), ok b) (hys : ∀ key, ∀ b ∈ ys.filterMap (given key), ok b)
    (hmerges : Merges f t₁ t₂ t) : Tallies summary given (xs ++ ys) t := by
  have hisSome : (∃ a ∈ xs ++ ys, ∃ key, (given key a).isSome = true)
      ↔ t₁.isSome = true ∨ t₂.isSome = true := by
    rw [h₁.isSome, h₂.isSome]
    simp only [List.mem_append, or_and_right, exists_or]
  -- a table that does not exist had no input
  have hnone : ∀ {zs : List α} {key : K}, Tallies summary given zs none → zs.filterMap (given key) = [] := by
    intro zs key hzs
    rw [List.filterMap_eq_nil_iff]
    intro a ha
    by_contra hsome
    have hexists := hzs.isSome.mpr ⟨a, ha, key, Option.isSome_iff_ne_none.mpr hsome⟩
    cases hexists
  refine ⟨?_, ?_⟩
  · rw [hisSome]
    cases hmerges <;> simp
  · intro key
    rw [List.filterMap_append]
    cases hmerges with
    | neither => rw [hnone h₂, List.append_nil, ← h₁.get? key]
    | second t₂ => rw [hnone h₁, List.nil_append, ← h₂.get? key]
    | first t₁ => rw [hnone h₂, List.append_nil, ← h₁.get? key]
    | both t₁ horder =>
        have hget₁ := h₁.get? key
        have hget₂ := h₂.get? key
        rw [Option.bind_some] at hget₁ hget₂ ⊢
        rw [Table.get?_mergeWith f horder, hget₁]
        cases hvalue : Table.get? _ key with
        | none =>
            rw [hvalue] at hget₂
            rw [(hextends.eq_none _).mp hget₂.symm, List.append_nil]
            rfl
        | some value =>
            rw [hvalue] at hget₂
            exact (hextends.append _ _ _ (hxs key) (hys key) hget₂.symm).symm

end Armore.Lib
