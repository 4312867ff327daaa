import Mathlib.Data.List.AList
import Mathlib.Tactic.Common

/-!
# Tables that are swept

A hash map seen from outside: distinct keys, a value for each, no order that matters. `AList` has the
single-key operations. What a program with time-outs adds is the sweep: walk the map, collect the keys
whose value has expired, remove each of them. The result of a sweep is told by one equation,
`get?_sweep`, and the collected keys are distinct, so each entry is removed once.
-/

namespace Armore.Lib

variable {K V : Type*}

/-- A finite map with distinct keys. -/
abbrev Table (K V : Type*) := AList fun _ : K => V

namespace Table

/-- The keys whose value satisfies a test, in the order of iteration. -/
def keysWhere (t : Table K V) (expired : V → Bool) : List K :=
  (t.entries.filter fun entry => expired entry.2).map Sigma.fst

theorem keysWhere_nodup (t : Table K V) (expired : V → Bool) : (t.keysWhere expired).Nodup :=
  ((List.filter_sublist (l := t.entries)).map Sigma.fst).nodup t.keys_nodup

variable [DecidableEq K]

/-- The value stored under a key. The types of the values do not depend on the keys, so the entry itself
is looked for and no key is transported along an equation. -/
def get? (t : Table K V) (key : K) : Option V :=
  (t.entries.find? fun entry => entry.1 = key).map Sigma.snd

theorem get?_eq_lookup (t : Table K V) (key : K) : t.get? key = t.lookup key := by
  suffices ∀ entries : List (Sigma fun _ : K => V),
      (entries.find? fun entry => entry.1 = key).map Sigma.snd = entries.dlookup key from
    this t.entries
  intro entries
  induction entries with
  | nil => rfl
  | cons entry entries ih =>
      obtain ⟨key', value⟩ := entry
      by_cases hkey : key' = key
      · subst hkey
        rw [List.find?_cons_of_pos (by simp), List.dlookup_cons_eq]
        rfl
      · rw [List.find?_cons_of_neg (by simpa using hkey), List.dlookup_cons_ne _ _ (Ne.symm hkey), ih]

/-- Store a value under a key. -/
def put (t : Table K V) (key : K) (value : V) : Table K V := t.insert key value

/-- Remove a key. -/
def remove (t : Table K V) (key : K) : Table K V := t.erase key

theorem get?_isSome {t : Table K V} {key : K} : (t.get? key).isSome = true ↔ key ∈ t := by
  rw [get?_eq_lookup, AList.lookup_isSome]

@[simp] theorem get?_empty (key : K) : get? (∅ : Table K V) key = none := rfl

theorem get?_put (t : Table K V) (key other : K) (value : V) :
    (t.put key value).get? other = if other = key then some value else t.get? other := by
  simp only [get?_eq_lookup, put]
  by_cases hkey : other = key
  · subst hkey
    rw [if_pos rfl]
    exact AList.lookup_insert t
  · rw [if_neg hkey]
    exact AList.lookup_insert_ne hkey

/-- Only the last value stored under a key counts. -/
theorem put_put (t : Table K V) (key : K) (first last : V) : (t.put key first).put key last = t.put key last :=
  AList.insert_insert t

theorem get?_remove (t : Table K V) (key other : K) :
    (t.remove key).get? other = if other = key then none else t.get? other := by
  simp only [get?_eq_lookup, remove]
  by_cases hkey : other = key
  · subst hkey
    rw [if_pos rfl]
    exact AList.lookup_erase other t
  · rw [if_neg hkey]
    exact AList.lookup_erase_ne hkey

/-- Remove the given keys one after another. -/
def removeAll (t : Table K V) (keys : List K) : Table K V := keys.foldl remove t

/-- Remove every entry whose value satisfies the test. -/
def sweep (t : Table K V) (expired : V → Bool) : Table K V := t.removeAll (t.keysWhere expired)

theorem mem_keysWhere {t : Table K V} {expired : V → Bool} {key : K} :
    key ∈ t.keysWhere expired ↔ ∃ value, t.get? key = some value ∧ expired value = true := by
  simp only [keysWhere, List.mem_map, List.mem_filter, get?_eq_lookup]
  constructor
  · rintro ⟨⟨key', value⟩, ⟨hmem, hexpired⟩, rfl⟩
    exact ⟨value, AList.mem_lookup_iff.mpr hmem, hexpired⟩
  · rintro ⟨value, hget, hexpired⟩
    exact ⟨⟨key, value⟩, ⟨AList.mem_lookup_iff.mp hget, hexpired⟩, rfl⟩

theorem get?_removeAll (t : Table K V) (keys : List K) (key : K) :
    (t.removeAll keys).get? key = if key ∈ keys then none else t.get? key := by
  induction keys generalizing t with
  | nil => rfl
  | cons first keys ih =>
      rw [removeAll, List.foldl_cons, ← removeAll, ih, get?_remove]
      by_cases hfirst : key = first
      · simp [hfirst]
      · simp [hfirst]

/-- **A sweep keeps exactly the entries that have not expired.** -/
theorem get?_sweep (t : Table K V) (expired : V → Bool) (key : K) :
    (t.sweep expired).get? key = (t.get? key).filter fun value => !expired value := by
  rw [sweep, get?_removeAll]
  cases hget : t.get? key with
  | none => simp
  | some value =>
      cases hexpired : expired value with
      | true =>
          rw [if_pos (mem_keysWhere.mpr ⟨value, hget, hexpired⟩)]
          simp [Option.filter_some, hexpired]
      | false =>
          rw [if_neg]
          · simp [Option.filter_some, hexpired]
          · intro hmem
            obtain ⟨value', hget', hexpired'⟩ := mem_keysWhere.mp hmem
            rw [hget, Option.some.injEq] at hget'
            rw [← hget', hexpired] at hexpired'
            cases hexpired'

/-- One value under each of some keys. -/
theorem get?_foldl_put (keys : List K) (value : V) (t : Table K V) (key : K) :
    (keys.foldl (fun t key => t.put key value) t).get? key = if key ∈ keys then some value else t.get? key := by
  induction keys generalizing t with
  | nil => rfl
  | cons first keys ih =>
      rw [List.foldl_cons, ih, get?_put]
      by_cases hfirst : key = first
      · simp [hfirst]
      · simp [hfirst]

/-- Store entries one after another. -/
def putAll (t : Table K V) (entries : List (K × V)) : Table K V :=
  entries.foldl (fun t entry => t.put entry.1 entry.2) t

theorem get?_putAll_of_notMem {entries : List (K × V)} {key : K} (hkey : key ∉ entries.map Prod.fst)
    (t : Table K V) : (t.putAll entries).get? key = t.get? key := by
  induction entries generalizing t with
  | nil => rfl
  | cons entry entries ih =>
      rw [List.map_cons, List.mem_cons, not_or] at hkey
      rw [putAll, List.foldl_cons, ← putAll, ih hkey.2, get?_put, if_neg hkey.1]

/-- Entries that agree on a key may repeat it. -/
theorem get?_putAll_of_mem {entries : List (K × V)} {key : K} {value : V} (hkey : key ∈ entries.map Prod.fst)
    (hsame : ∀ entry ∈ entries, entry.1 = key → entry.2 = value) (t : Table K V) :
    (t.putAll entries).get? key = some value := by
  induction entries generalizing t with
  | nil => exact absurd hkey List.not_mem_nil
  | cons entry entries ih =>
      rw [putAll, List.foldl_cons, ← putAll]
      by_cases hrest : key ∈ entries.map Prod.fst
      · exact ih hrest (fun other hother => hsame other (List.mem_cons_of_mem entry hother)) _
      · have hfirst : key = entry.1 := (List.mem_cons.mp hkey).resolve_right hrest
        rw [get?_putAll_of_notMem hrest, get?_put, if_pos hfirst, hsame entry List.mem_cons_self hfirst.symm]

/-- Change the value under a key that is there. -/
def modify (t : Table K V) (key : K) (f : V → V) : Table K V :=
  match t.get? key with
  | some value => t.put key (f value)
  | none => t

theorem get?_modify (t : Table K V) (key other : K) (f : V → V) :
    (t.modify key f).get? other = if other = key then (t.get? other).map f else t.get? other := by
  unfold modify
  by_cases hsame : other = key
  · subst hsame
    rw [if_pos rfl]
    cases hget : t.get? other with
    | none => exact hget
    | some value => exact (get?_put t other other (f value)).trans (if_pos rfl)
  · rw [if_neg hsame]
    cases hget : t.get? key with
    | none => rfl
    | some value => exact (get?_put t key other (f value)).trans (if_neg hsame)

/-- A part of the values that the change keeps. -/
theorem map_get?_modify_same {W : Type*} {g : V → W} {f : V → V} (hg : ∀ value, g (f value) = g value)
    (t : Table K V) (key other : K) : ((t.modify key f).get? other).map g = (t.get? other).map g := by
  rw [get?_modify]
  split
  · cases t.get? other with
    | none => rfl
    | some value => exact congrArg some (hg value)
  · rfl

/-- A part of the values and what the change does to it. -/
theorem map_get?_modify {W : Type*} {g : V → W} {f : V → V} (h : W → W) (hg : ∀ value, g (f value) = h (g value))
    (t : Table K V) (key other : K) :
    ((t.modify key f).get? other).map g = if other = key then ((t.get? other).map g).map h else (t.get? other).map g := by
  rw [get?_modify]
  split
  · cases t.get? other with
    | none => rfl
    | some value => exact congrArg some (hg value)
  · rfl

/-- Store what `f` makes of the old value and the new one, for one entry after another. -/
def mergeWith (f : Option V → V → V) (t : Table K V) (entries : List (Sigma fun _ : K => V)) : Table K V :=
  entries.foldl (fun t entry => t.put entry.1 (f (t.get? entry.1) entry.2)) t

theorem get?_mergeWith_of_notMem (f : Option V → V → V) {entries : List (Sigma fun _ : K => V)} {key : K}
    (hkey : key ∉ entries.map Sigma.fst) (t : Table K V) : (t.mergeWith f entries).get? key = t.get? key := by
  induction entries generalizing t with
  | nil => rfl
  | cons entry entries ih =>
      rw [List.map_cons, List.mem_cons, not_or] at hkey
      rw [mergeWith, List.foldl_cons, ← mergeWith, ih hkey.2, get?_put, if_neg hkey.1]

theorem get?_mergeWith_of_mem (f : Option V → V → V) {entries : List (Sigma fun _ : K => V)} {key : K}
    {value : V} (hnodup : (entries.map Sigma.fst).Nodup) (hmem : ⟨key, value⟩ ∈ entries) (t : Table K V) :
    (t.mergeWith f entries).get? key = some (f (t.get? key) value) := by
  induction entries generalizing t with
  | nil => cases hmem
  | cons entry entries ih =>
      rw [List.map_cons, List.nodup_cons] at hnodup
      rw [mergeWith, List.foldl_cons, ← mergeWith]
      rcases List.mem_cons.mp hmem with rfl | hmem
      · rw [get?_mergeWith_of_notMem f hnodup.1, get?_put, if_pos rfl]
      · have hne : key ≠ entry.1 := by
          rintro rfl
          exact hnodup.1 (List.mem_map.mpr ⟨_, hmem, rfl⟩)
        rw [ih hnodup.2 hmem, get?_put, if_neg hne]

/-- **Merging the entries of a table in**, in any order. -/
theorem get?_mergeWith (f : Option V → V → V) {t' : Table K V} {order : List (Sigma fun _ : K => V)}
    (horder : order.Perm t'.entries) (t : Table K V) (key : K) :
    (t.mergeWith f order).get? key
      = (t'.get? key).elim (t.get? key) fun value => some (f (t.get? key) value) := by
  have hnodup : (order.map Sigma.fst).Nodup := (horder.map Sigma.fst).nodup_iff.mpr t'.keys_nodup
  cases hget : t'.get? key with
  | none =>
      apply get?_mergeWith_of_notMem
      rw [(horder.map Sigma.fst).mem_iff]
      intro hmem
      have hkey : key ∈ t' := hmem
      rw [← get?_isSome, hget] at hkey
      cases hkey
  | some value =>
      rw [get?_eq_lookup] at hget
      exact get?_mergeWith_of_mem f hnodup (horder.mem_iff.mpr (AList.mem_lookup_iff.mp hget)) t

end Table

end Armore.Lib
