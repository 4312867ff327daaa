import Armore.Stats.Items
import Mathlib.Algebra.Field.Rat
import Mathlib.Algebra.Order.BigOperators.Group.List
import Mathlib.Algebra.Order.Ring.Unbundled.Rat

/-!
# The summaries of an epoch

At the end of an epoch `SumStats` hands over one `ResultVal` for every stream that was observed, made by the
calculation of its reducer: a sum for the totals, `COUNTTABLE` for the levels, `KEYED_AVERAGE` for the
delays. The tables it hands over may hold their entries in any order.
-/

namespace Armore.StatsCount

open Lib

structure KeyedAvgValue where
  num : Nat
  avg : ℚ

/-- What is read of a `ResultVal`. -/
structure ResultVal where
  sum : ℚ := 0
  counttable : Option (Table Text Nat) := none
  avgTable : Option (Table Text KeyedAvgValue) := none

/-- `SumStats::Result`: the streams that were observed. -/
abbrev Result := Stream → Option ResultVal

def addCtEntry (table : Table Text Nat) (str : Text) (num : Nat) : Table Text Nat :=
  table.put str ((table.get? str).getD 0 + num)

def addAvgEntry (table : Table Text KeyedAvgValue) (str : Text) (another : KeyedAvgValue) :
    Table Text KeyedAvgValue :=
  let entry := (table.get? str).getD ⟨0, 0⟩
  let num := entry.num + another.num
  table.put str ⟨num, entry.avg + (another.avg - entry.avg) * another.num / num⟩

/-- The plugin of `SUM`. -/
def sum (rv : ResultVal) (obs : Observation) : ResultVal :=
  { rv with sum := rv.sum + (obs.num.map fun num : Nat => (num : ℚ)).getD (obs.dbl.getD 1) }

/-- The plugin of `COUNTTABLE`. -/
def countTable (rv : ResultVal) (obs : Observation) : ResultVal :=
  match obs.str with
  | none => rv
  | some str => { rv with counttable := some (addCtEntry (rv.counttable.getD ∅) str (obs.num.getD 1)) }

/-- The plugin of `KEYED_AVERAGE`. -/
def keyedAverage (rv : ResultVal) (obs : Observation) : ResultVal :=
  match obs.str, obs.dbl with
  | some str, some dbl =>
    { rv with avgTable := some (addAvgEntry (rv.avgTable.getD ∅) str ⟨obs.num.getD 1, dbl⟩) }
  | _, _ => rv

/-- The calculation of the reducer of a stream. -/
def calculation : Stream → ResultVal → Observation → ResultVal
  | .totalCount | .totalByte => sum
  | .count _ | .byte _ => countTable
  | .functionsRes => keyedAverage

/-- The observations of a stream. -/
def observedOn (stream : Stream) (observed : List Observation) : List Observation :=
  observed.filter fun o => o.stream = stream

/-- What is handed over for the observations of an epoch, each fed once to its plugin. -/
def summarize (observed : List Observation) : Result := fun stream =>
  match observedOn stream observed with
  | [] => none
  | o :: rest => some ((o :: rest).foldl (calculation stream) {})

/-- Two tables with the same entries, in any order. -/
def SameEntries {V : Type} (t t' : Option (Table Text V)) : Prop :=
  t.isSome = t'.isSome ∧ ∀ str, (t.bind (·.get? str)) = (t'.bind (·.get? str))

/-- What may be handed over in place of `rv`. -/
structure SameContent (rv rv' : ResultVal) : Prop where
  sum : rv.sum = rv'.sum
  counttable : SameEntries rv.counttable rv'.counttable
  avgTable : SameEntries rv.avgTable rv'.avgTable

/-- A result for the observations of an epoch, with its tables in some order. -/
def Summarizes (result : Result) (observed : List Observation) : Prop :=
  ∀ stream, Option.Rel SameContent (result stream) (summarize observed stream)

theorem summarizes_summarize (observed : List Observation) : Summarizes (summarize observed) observed := by
  intro stream
  cases summarize observed stream with
  | none => exact .none
  | some rv => exact .some ⟨rfl, ⟨rfl, fun _ => rfl⟩, ⟨rfl, fun _ => rfl⟩⟩

/-! ### What the tables hold -/

theorem observedOn_append (stream : Stream) (observed observed' : List Observation) :
    observedOn stream (observed ++ observed') = observedOn stream observed ++ observedOn stream observed' :=
  List.filter_append ..

/-- The sum of the numbers observed under a string, `none` if it was not observed. -/
def counted (str : Text) (observed : List Observation) : Option Nat :=
  match observed.filter fun o => o.str = some str with
  | [] => none
  | o :: rest => some ((o :: rest).map fun o => o.num.getD 1).sum

theorem counted_snoc (str : Text) (observed : List Observation) (o : Observation) :
    counted str (observed ++ [o])
      = if o.str = some str then some ((counted str observed).getD 0 + o.num.getD 1)
        else counted str observed := by
  unfold counted
  rw [List.filter_append]
  by_cases hstr : o.str = some str
  · have hlast : [o].filter (fun o => o.str = some str) = [o] := by simp [hstr]
    rw [hlast, if_pos hstr]
    cases observed.filter fun o => o.str = some str with
    | nil => simp
    | cons first rest => simp [Nat.add_assoc]
  · have hlast : [o].filter (fun o => o.str = some str) = [] := by simp [hstr]
    rw [hlast, if_neg hstr, List.append_nil]

theorem counted_eq_none {str : Text} {observed : List Observation} :
    counted str observed = none ↔ ∀ o ∈ observed, o.str ≠ some str := by
  unfold counted
  split
  · rename_i hnil
    simpa [List.filter_eq_nil_iff] using hnil
  · rename_i hcons
    simp only [reduceCtorEq, false_iff, not_forall, not_not]
    obtain ⟨hmem, hstr⟩ := List.mem_filter.mp (hcons ▸ List.mem_cons_self)
    exact ⟨_, hmem, of_decide_eq_true hstr⟩

theorem get?_getD_empty {V : Type} (table : Option (Table Text V)) (str : Text) :
    (table.getD ∅).get? str = table.bind (·.get? str) := by
  cases table <;> rfl

theorem get?_countTable (rv : ResultVal) (o : Observation) (str : Text) :
    ((countTable rv o).counttable.bind (·.get? str))
      = if o.str = some str then some (((rv.counttable.bind (·.get? str)).getD 0) + o.num.getD 1)
        else rv.counttable.bind (·.get? str) := by
  unfold countTable
  cases hstr : o.str with
  | none => rfl
  | some other =>
      show (addCtEntry _ other _).get? str = _
      rw [addCtEntry, Table.get?_put]
      by_cases hother : str = other
      · subst hother
        rw [if_pos rfl, if_pos rfl, get?_getD_empty]
      · rw [if_neg hother, if_neg (by simpa using Ne.symm hother), get?_getD_empty]

theorem counted_eq_countP {observed : List Observation} (hnum : ∀ o ∈ observed, o.num = none) {str : Text}
    {n : Nat} (hcounted : counted str observed = some n) :
    n = (observed.countP fun o => o.str = some str) ∧ 0 < n := by
  have hones : ∀ os : List Observation, (∀ o ∈ os, o.num = none) →
      (os.map fun o => o.num.getD 1).sum = os.length := by
    intro os hos
    rw [List.map_congr_left fun o ho => by rw [hos o ho]]
    simp
  unfold counted at hcounted
  rw [List.countP_eq_length_filter]
  split at hcounted
  · cases hcounted
  · rename_i o rest hfilter
    rw [Option.some.injEq, hones] at hcounted
    · rw [hfilter, ← hcounted]
      exact ⟨rfl, Nat.succ_pos _⟩
    · intro o' ho'
      rw [← hfilter] at ho'
      exact hnum o' (List.mem_of_mem_filter ho')

theorem get?_foldl_countTable (observed : List Observation) (str : Text) :
    ((observed.foldl countTable {}).counttable.bind (·.get? str)) = counted str observed := by
  induction observed using List.reverseRecOn with
  | nil => rfl
  | append_singleton observed o ih =>
      rw [List.foldl_append, counted_snoc, ← ih]
      exact get?_countTable _ o str

theorem get?_keyedAverage (rv : ResultVal) {o : Observation} (hdbl : o.dbl.isSome = true) (str : Text) :
    ((keyedAverage rv o).avgTable.bind (·.get? str)).map KeyedAvgValue.num
      = if o.str = some str then
          some ((((rv.avgTable.bind (·.get? str)).map KeyedAvgValue.num).getD 0) + o.num.getD 1)
        else (rv.avgTable.bind (·.get? str)).map KeyedAvgValue.num := by
  obtain ⟨dbl, hdbl⟩ := Option.isSome_iff_exists.mp hdbl
  unfold keyedAverage
  rw [hdbl]
  cases hstr : o.str with
  | none => rfl
  | some other =>
      show ((addAvgEntry _ other _).get? str).map KeyedAvgValue.num = _
      rw [addAvgEntry, Table.get?_put]
      by_cases hother : str = other
      · subst hother
        rw [if_pos rfl, if_pos rfl, get?_getD_empty]
        cases rv.avgTable.bind (·.get? str) <;> rfl
      · rw [if_neg hother, if_neg (by simpa using Ne.symm hother), get?_getD_empty]

theorem get?_foldl_keyedAverage {observed : List Observation} (hdbl : ∀ o ∈ observed, o.dbl.isSome = true)
    (str : Text) :
    ((observed.foldl keyedAverage {}).avgTable.bind (·.get? str)).map KeyedAvgValue.num
      = counted str observed := by
  induction observed using List.reverseRecOn with
  | nil => rfl
  | append_singleton observed o ih =>
      have hbefore : ∀ o ∈ observed, o.dbl.isSome = true := by
        intro o ho
        exact hdbl o (List.mem_append_left _ ho)
      have hlast : o.dbl.isSome = true := hdbl o (List.mem_append_right _ (List.mem_singleton_self o))
      rw [List.foldl_append, counted_snoc, ← ih hbefore]
      exact get?_keyedAverage _ hlast str

theorem isSome_counttable {observed : List Observation} (hne : observed ≠ [])
    (hstr : ∀ o ∈ observed, o.str.isSome = true) :
    (observed.foldl countTable {}).counttable.isSome = true := by
  obtain ⟨o, ho⟩ := List.exists_mem_of_ne_nil observed hne
  obtain ⟨str, hstr⟩ := Option.isSome_iff_exists.mp (hstr o ho)
  cases htable : (observed.foldl countTable {}).counttable with
  | some table => rfl
  | none =>
      have hget := get?_foldl_countTable observed str
      rw [htable] at hget
      exact absurd hstr (counted_eq_none.mp hget.symm o ho)

theorem isSome_avgTable {observed : List Observation} (hne : observed ≠ [])
    (hdelay : ∀ o ∈ observed, o.str.isSome = true ∧ o.dbl.isSome = true) :
    (observed.foldl keyedAverage {}).avgTable.isSome = true := by
  obtain ⟨o, ho⟩ := List.exists_mem_of_ne_nil observed hne
  obtain ⟨str, hstr⟩ := Option.isSome_iff_exists.mp (hdelay o ho).1
  cases htable : (observed.foldl keyedAverage {}).avgTable with
  | some table => rfl
  | none =>
      have hget := get?_foldl_keyedAverage (fun o ho => (hdelay o ho).2) str
      rw [htable] at hget
      exact absurd hstr (counted_eq_none.mp hget.symm o ho)

theorem Summarizes.some_or_none {result : Result} {observed : List Observation}
    (hresult : Summarizes result observed) (stream : Stream) :
    (result stream = none ∧ observedOn stream observed = [])
      ∨ observedOn stream observed ≠ [] ∧ ∃ rv, result stream = some rv
        ∧ SameContent rv ((observedOn stream observed).foldl (calculation stream) {}) := by
  have hstream := hresult stream
  unfold summarize at hstream
  cases hobserved : observedOn stream observed with
  | nil =>
      rw [hobserved] at hstream
      cases hstream' : result stream with
      | none => exact Or.inl ⟨rfl, rfl⟩
      | some rv =>
          rw [hstream'] at hstream
          cases hstream
  | cons o rest =>
      rw [hobserved] at hstream
      cases hstream' : result stream with
      | none =>
          rw [hstream'] at hstream
          cases hstream
      | some rv =>
          rw [hstream'] at hstream
          cases hstream with
          | some hsame => exact Or.inr ⟨List.cons_ne_nil o rest, rv, rfl, hsame⟩

theorem Summarizes.counttable {result : Result} {observed : List Observation}
    (hresult : Summarizes result observed) (stream : Stream) (hcalculation : calculation stream = countTable)
    (hstr : ∀ o ∈ observedOn stream observed, o.str.isSome = true) :
    (result stream = none ∧ observedOn stream observed = [])
      ∨ observedOn stream observed ≠ [] ∧ ∃ rv table, result stream = some rv ∧ rv.counttable = some table
        ∧ ∀ str, table.get? str = counted str (observedOn stream observed) := by
  rcases hresult.some_or_none stream with hnone | ⟨hne, rv, hrv, hsame⟩
  · exact Or.inl hnone
  · right
    obtain ⟨hisSome, hget⟩ := hsame.counttable
    rw [hcalculation, isSome_counttable hne hstr] at hisSome
    obtain ⟨table, htable⟩ := Option.isSome_iff_exists.mp hisSome
    refine ⟨hne, rv, table, hrv, htable, ?_⟩
    intro str
    rw [← get?_foldl_countTable, ← hcalculation, ← hget str, htable]
    rfl

theorem Summarizes.avgTable {result : Result} {observed : List Observation}
    (hresult : Summarizes result observed)
    (hdelay : ∀ o ∈ observedOn .functionsRes observed, o.str.isSome = true ∧ o.dbl.isSome = true) :
    (result .functionsRes = none ∧ observedOn .functionsRes observed = [])
      ∨ ∃ rv table, result .functionsRes = some rv ∧ rv.avgTable = some table
        ∧ ∀ str, (table.get? str).map KeyedAvgValue.num
          = counted str (observedOn .functionsRes observed) := by
  rcases hresult.some_or_none .functionsRes with hnone | ⟨hne, rv, hrv, hsame⟩
  · exact Or.inl hnone
  · right
    obtain ⟨hisSome, hget⟩ := hsame.avgTable
    have hsome : ((observedOn .functionsRes observed).foldl (calculation .functionsRes) {}).avgTable.isSome
        = true := isSome_avgTable hne hdelay
    rw [hsome] at hisSome
    obtain ⟨table, htable⟩ := Option.isSome_iff_exists.mp hisSome
    refine ⟨rv, table, hrv, htable, ?_⟩
    intro str
    rw [← get?_foldl_keyedAverage (fun o ho => (hdelay o ho).2) str]
    have hentry := hget str
    rw [htable] at hentry
    exact congrArg (Option.map KeyedAvgValue.num) hentry

end Armore.StatsCount
