import Armore.Lib.Reduction
import Armore.Lib.Tally
import Armore.Stats.SumStats
import Mathlib.Algebra.BigOperators.Group.List.Basic
import Mathlib.Tactic.FieldSimp
import Mathlib.Tactic.Ring

/-!
# Summaries of a cluster

In a cluster each worker observes its part of the stream, and the manager puts the partial results
together with `compose_resultvals_hook`, two at a time. A hook copies the table of the first result and
adds the entries of the second one, in the order in which that table is iterated.
-/

namespace Armore.StatsCount

open Lib

/-- The calculations a reducer may apply. -/
inductive Calculation
  | sum
  | counttable
  | keyedAverage
  deriving DecidableEq

/-- The observe plugin of a calculation. -/
def Calculation.observe : Calculation → ResultVal → Observation → ResultVal
  | .sum => StatsCount.sum
  | .counttable => countTable
  | .keyedAverage => StatsCount.keyedAverage

/-- A reducer feeds an observation to the plugin of each calculation it applies. -/
def feed (apply : List Calculation) (rv : ResultVal) (obs : Observation) : ResultVal :=
  apply.foldl (fun rv calculation => calculation.observe rv obs) rv

/-- The result of a worker. -/
def worker (apply : List Calculation) (observed : List Observation) : ResultVal :=
  observed.foldl (feed apply) {}

/-! ### The hooks -/

/-- The part of a hook that is about one of the tables. `add` is `add_ct_entry` or `add_avg_entry`, and
`order` is how the loop goes through the table of the second result. -/
inductive ComposeTables {V : Type} (add : Table Text V → Text → V → Table Text V) :
    Option (Table Text V) → Option (Table Text V) → Option (Table Text V) → Prop
  | neither : ComposeTables add none none none
  | second (rv2 : Table Text V) : ComposeTables add none (some rv2) (some rv2)
  | first (rv1 : Table Text V) : ComposeTables add (some rv1) none (some rv1)
  | both (rv1 : Table Text V) {rv2 : Table Text V} {order : List (Sigma fun _ : Text => V)} :
      order.Perm rv2.entries → ComposeTables add (some rv1) (some rv2)
        (some (order.foldl (fun result i => add result i.1 i.2) rv1))

/-- The hooks of `COUNTTABLE` and `KEYED_AVERAGE`, each with its own table of the result. -/
structure ComposeResultvals (rv1 rv2 result : ResultVal) : Prop where
  counttable : ComposeTables addCtEntry rv1.counttable rv2.counttable result.counttable
  avgTable : ComposeTables addAvgEntry rv1.avgTable rv2.avgTable result.avgTable

/-- The results that the manager can arrive at. -/
abbrev Aggregates (apply : List Calculation) : Bracketing (List Observation) → ResultVal → Prop :=
  Bracketing.Reduces (worker apply) ComposeResultvals

/-! ### What the tables should hold -/

/-- What an observation counts for a key. -/
def incrementOf (str : Text) (obs : Observation) : Option Nat :=
  if obs.str = some str then some (obs.num.getD 1) else none

/-- The delay of an observation for a key, with its weight. -/
def delayOf (str : Text) (obs : Observation) : Option (Nat × ℚ) :=
  if obs.str = some str then obs.dbl.map fun dbl => (obs.num.getD 1, dbl) else none

def total : List Nat → Option Nat
  | [] => none
  | increments => some increments.sum

/-- The total weight of some delays and their weighted mean. -/
def weightedMean : List (Nat × ℚ) → Option KeyedAvgValue
  | [] => none
  | delays =>
    let num := (delays.map Prod.fst).sum
    some ⟨num, (delays.map fun delay => (delay.1 : ℚ) * delay.2).sum / num⟩

theorem total_of_ne_nil {increments : List Nat} (hne : increments ≠ []) :
    total increments = some increments.sum := by
  cases increments with
  | nil => exact absurd rfl hne
  | cons => rfl

theorem weightedMean_of_ne_nil {delays : List (Nat × ℚ)} (hne : delays ≠ []) :
    weightedMean delays = some ⟨(delays.map Prod.fst).sum,
      (delays.map fun delay => (delay.1 : ℚ) * delay.2).sum / ((delays.map Prod.fst).sum : Nat)⟩ := by
  cases delays with
  | nil => exact absurd rfl hne
  | cons => rfl

theorem total_perm {increments increments' : List Nat} (hperm : increments.Perm increments') :
    total increments = total increments' := by
  by_cases hne : increments = []
  · subst hne
    rw [hperm.nil_eq]
  · have hne' : increments' ≠ [] := fun h => hne (h ▸ hperm).eq_nil
    rw [total_of_ne_nil hne, total_of_ne_nil hne', hperm.sum_eq]

theorem weightedMean_perm {delays delays' : List (Nat × ℚ)} (hperm : delays.Perm delays') :
    weightedMean delays = weightedMean delays' := by
  by_cases hne : delays = []
  · subst hne
    rw [hperm.nil_eq]
  · have hne' : delays' ≠ [] := fun h => hne (h ▸ hperm).eq_nil
    rw [weightedMean_of_ne_nil hne, weightedMean_of_ne_nil hne', (hperm.map _).sum_eq, (hperm.map _).sum_eq]

theorem extends_total :
    Extends total (fun num? num => num?.getD 0 + num) (fun _ : Nat => True) where
  eq_none increments := by
    cases increments <;> simp [total]
  append xs ys num _ _ hys := by
    have hne : ys ≠ [] := by
      rintro rfl
      cases hys
    rw [total_of_ne_nil hne, Option.some.injEq] at hys
    rw [total_of_ne_nil (List.append_ne_nil_of_right_ne_nil xs hne), List.sum_append, ← hys]
    cases xs with
    | nil => simp [total]
    | cons => rfl

/-- The value `add_avg_entry` stores. -/
def addAverage (old? : Option KeyedAvgValue) (another : KeyedAvgValue) : KeyedAvgValue :=
  let entry := old?.getD ⟨0, 0⟩
  let num := entry.num + another.num
  ⟨num, entry.avg + (another.avg - entry.avg) * another.num / num⟩

theorem sum_pos {delays : List (Nat × ℚ)} (hpos : ∀ delay ∈ delays, 0 < delay.1) (hne : delays ≠ []) :
    0 < (delays.map Prod.fst).sum := by
  obtain ⟨delay, hdelay⟩ := List.exists_mem_of_ne_nil delays hne
  exact (hpos delay hdelay).trans_le (List.single_le_sum (by simp) _ (List.mem_map_of_mem hdelay))

/-- One step of the incremental formula, from the mean of `s` over the weight `w`. -/
theorem mean_add {s s' w w' : ℚ} (hw : 0 < w) (hw' : 0 < w') :
    (s + s') / (w + w') = s / w + (s' / w' - s / w) * w' / (w + w') := by
  have hsum : w + w' ≠ 0 := (add_pos hw hw').ne'
  field_simp
  ring

/-- **The incremental formula gives the weighted mean.** -/
theorem extends_weightedMean : Extends weightedMean addAverage (fun delay => 0 < delay.1) where
  eq_none delays := by
    cases delays <;> simp [weightedMean]
  append xs ys another hxs hys hanother := by
    have hne : ys ≠ [] := by
      rintro rfl
      cases hanother
    rw [weightedMean_of_ne_nil hne, Option.some.injEq] at hanother
    have hweight : (0 : ℚ) < ((ys.map Prod.fst).sum : Nat) := by exact_mod_cast sum_pos hys hne
    rw [weightedMean_of_ne_nil (List.append_ne_nil_of_right_ne_nil xs hne), List.map_append, List.map_append,
      List.sum_append, List.sum_append, ← hanother, Option.some.injEq]
    by_cases hnil : xs = []
    · subst hnil
      simp only [addAverage, weightedMean, List.map_nil, List.sum_nil, zero_add, Option.getD_none,
        sub_zero]
      rw [div_mul_cancel₀ _ hweight.ne']
    · have hbefore : (0 : ℚ) < ((xs.map Prod.fst).sum : Nat) := by exact_mod_cast sum_pos hxs hnil
      rw [addAverage, weightedMean_of_ne_nil hnil]
      simp only [Option.getD_some, KeyedAvgValue.mk.injEq, true_and]
      rw [Nat.cast_add]
      exact mean_add hbefore hweight

/-! ### One worker -/

/-- The table of `COUNTTABLE`. -/
def counted? (apply : List Calculation) (str : Text) (obs : Observation) : Option Nat :=
  if .counttable ∈ apply then incrementOf str obs else none

/-- The table of `KEYED_AVERAGE`. -/
def delayed? (apply : List Calculation) (str : Text) (obs : Observation) : Option (Nat × ℚ) :=
  if .keyedAverage ∈ apply then delayOf str obs else none

theorem counttable_countTable {rv rv' : ResultVal} (htable : rv.counttable = rv'.counttable)
    (obs : Observation) : (countTable rv obs).counttable = (countTable rv' obs).counttable := by
  unfold countTable
  rw [htable]
  cases obs.str <;> simp [htable]

theorem avgTable_keyedAverage {rv rv' : ResultVal} (htable : rv.avgTable = rv'.avgTable)
    (obs : Observation) :
    (StatsCount.keyedAverage rv obs).avgTable = (StatsCount.keyedAverage rv' obs).avgTable := by
  unfold StatsCount.keyedAverage
  rw [htable]
  cases obs.str <;> cases obs.dbl <;> simp [htable]

theorem counttable_observe {calculation : Calculation} (hcalculation : calculation ≠ .counttable)
    (rv : ResultVal) (obs : Observation) : (calculation.observe rv obs).counttable = rv.counttable := by
  cases calculation with
  | sum => rfl
  | counttable => exact absurd rfl hcalculation
  | keyedAverage =>
      show (StatsCount.keyedAverage rv obs).counttable = rv.counttable
      unfold StatsCount.keyedAverage
      cases obs.str <;> cases obs.dbl <;> rfl

theorem avgTable_observe {calculation : Calculation} (hcalculation : calculation ≠ .keyedAverage)
    (rv : ResultVal) (obs : Observation) : (calculation.observe rv obs).avgTable = rv.avgTable := by
  cases calculation with
  | sum => rfl
  | counttable =>
      show (countTable rv obs).avgTable = rv.avgTable
      unfold countTable
      cases obs.str <;> rfl
  | keyedAverage => exact absurd rfl hcalculation

/-- Of the plugins one touches the table of counts. -/
theorem counttable_feed {apply : List Calculation} (happly : apply.Nodup) (rv : ResultVal)
    (obs : Observation) :
    (feed apply rv obs).counttable
      = if .counttable ∈ apply then (countTable rv obs).counttable else rv.counttable := by
  induction apply generalizing rv with
  | nil => rfl
  | cons calculation apply ih =>
      rw [List.nodup_cons] at happly
      rw [feed, List.foldl_cons, ← feed, ih happly.2]
      by_cases hcalculation : calculation = .counttable
      · subst hcalculation
        rw [if_neg happly.1, if_pos List.mem_cons_self]
        rfl
      · have hrest := counttable_observe hcalculation rv obs
        simp only [List.mem_cons, Ne.symm hcalculation, false_or]
        rw [counttable_countTable hrest, hrest]

/-- And one the table of averages. -/
theorem avgTable_feed {apply : List Calculation} (happly : apply.Nodup) (rv : ResultVal)
    (obs : Observation) :
    (feed apply rv obs).avgTable
      = if .keyedAverage ∈ apply then (StatsCount.keyedAverage rv obs).avgTable else rv.avgTable := by
  induction apply generalizing rv with
  | nil => rfl
  | cons calculation apply ih =>
      rw [List.nodup_cons] at happly
      rw [feed, List.foldl_cons, ← feed, ih happly.2]
      by_cases hcalculation : calculation = .keyedAverage
      · subst hcalculation
        rw [if_neg happly.1, if_pos List.mem_cons_self]
        rfl
      · have hrest := avgTable_observe hcalculation rv obs
        simp only [List.mem_cons, Ne.symm hcalculation, false_or]
        rw [avgTable_keyedAverage hrest, hrest]

theorem tallies_counttable {apply : List Calculation} (happly : apply.Nodup) (observed : List Observation) :
    Tallies total (counted? apply) observed (worker apply observed).counttable := by
  induction observed using List.reverseRecOn with
  | nil => exact tallies_nil extends_total
  | append_singleton observed obs ih =>
      rw [worker, List.foldl_append, List.foldl_cons, List.foldl_nil, ← worker, counttable_feed happly]
      by_cases hmem : Calculation.counttable ∈ apply
      · rw [if_pos hmem]
        unfold countTable
        cases hstr : obs.str with
        | none =>
            refine ih.skip ?_
            intro str
            simp [counted?, incrementOf, hstr]
        | some str =>
            refine ih.put extends_total (b := obs.num.getD 1) ?_ ?_ ?_ trivial ?_
            · simp [counted?, incrementOf, hstr, hmem]
            · intro other hother
              simp [counted?, incrementOf, hstr, Ne.symm hother]
            · intro increment _
              trivial
            · simp [total]
      · rw [if_neg hmem]
        refine ih.skip ?_
        intro str
        rw [counted?, if_neg hmem]

theorem weight_pos {apply : List Calculation} {observed : List Observation}
    (hnum : ∀ obs ∈ observed, 1 ≤ obs.num.getD 1) (str : Text) :
    ∀ delay ∈ observed.filterMap (delayed? apply str), 0 < delay.1 := by
  intro delay hdelay
  obtain ⟨obs, hobs, hgiven⟩ := List.mem_filterMap.mp hdelay
  rw [delayed?, Option.ite_none_right_eq_some, delayOf, Option.ite_none_right_eq_some] at hgiven
  obtain ⟨_, _, hdbl⟩ := hgiven
  obtain ⟨dbl, _, rfl⟩ := Option.map_eq_some_iff.mp hdbl
  exact hnum obs hobs

theorem tallies_avgTable {apply : List Calculation} (happly : apply.Nodup) {observed : List Observation}
    (hnum : ∀ obs ∈ observed, 1 ≤ obs.num.getD 1) :
    Tallies weightedMean (delayed? apply) observed (worker apply observed).avgTable := by
  induction observed using List.reverseRecOn with
  | nil => exact tallies_nil extends_weightedMean
  | append_singleton observed obs ih =>
      have hbefore : ∀ obs ∈ observed, 1 ≤ obs.num.getD 1 := by
        intro obs hobs
        exact hnum obs (List.mem_append_left _ hobs)
      have hlast : 1 ≤ obs.num.getD 1 := hnum obs (by simp)
      have ih := ih hbefore
      rw [worker, List.foldl_append, List.foldl_cons, List.foldl_nil, ← worker, avgTable_feed happly]
      by_cases hmem : Calculation.keyedAverage ∈ apply
      · rw [if_pos hmem]
        unfold StatsCount.keyedAverage
        cases hstr : obs.str with
        | none =>
            refine ih.skip ?_
            intro str
            simp [delayed?, delayOf, hstr]
        | some str =>
            cases hdbl : obs.dbl with
            | none =>
                refine ih.skip ?_
                intro str
                simp [delayed?, delayOf, hdbl]
            | some dbl =>
                refine ih.put extends_weightedMean (b := (obs.num.getD 1, dbl)) ?_ ?_
                  (weight_pos hbefore str) hlast ?_
                · simp [delayed?, delayOf, hstr, hdbl, hmem]
                · intro other hother
                  simp [delayed?, delayOf, hstr, Ne.symm hother]
                · have hne : ((obs.num.getD 1 : Nat) : ℚ) ≠ 0 := by
                    exact_mod_cast (show obs.num.getD 1 ≠ 0 by omega)
                  simp [weightedMean, hne]
      · rw [if_neg hmem]
        refine ih.skip ?_
        intro str
        rw [delayed?, if_neg hmem]

/-! ### The manager -/

/-- The hook of `COUNTTABLE` merges. -/
theorem merges_of_counttable {rv1 rv2 result : Option (Table Text Nat)}
    (hcompose : ComposeTables addCtEntry rv1 rv2 result) :
    Merges (fun num? num => num?.getD 0 + num) rv1 rv2 result := by
  cases hcompose with
  | neither => exact .neither
  | second rv2 => exact .second rv2
  | first rv1 => exact .first rv1
  | both rv1 horder => exact .both rv1 horder

/-- The hook of `KEYED_AVERAGE` merges. -/
theorem merges_of_avgTable {rv1 rv2 result : Option (Table Text KeyedAvgValue)}
    (hcompose : ComposeTables addAvgEntry rv1 rv2 result) : Merges addAverage rv1 rv2 result := by
  cases hcompose with
  | neither => exact .neither
  | second rv2 => exact .second rv2
  | first rv1 => exact .first rv1
  | both rv1 horder => exact .both rv1 horder

theorem exists_composeTables {V : Type} (add : Table Text V → Text → V → Table Text V)
    (rv1 rv2 : Option (Table Text V)) : ∃ result, ComposeTables add rv1 rv2 result := by
  cases rv1 with
  | none =>
      cases rv2 with
      | none => exact ⟨_, .neither⟩
      | some rv2 => exact ⟨_, .second rv2⟩
  | some rv1 =>
      cases rv2 with
      | none => exact ⟨_, .first rv1⟩
      | some rv2 => exact ⟨_, .both rv1 (.refl _)⟩

theorem exists_composeResultvals (rv1 rv2 : ResultVal) : ∃ result, ComposeResultvals rv1 rv2 result := by
  obtain ⟨counttable, hcounttable⟩ := exists_composeTables addCtEntry rv1.counttable rv2.counttable
  obtain ⟨avgTable, havgTable⟩ := exists_composeTables addAvgEntry rv1.avgTable rv2.avgTable
  exact ⟨⟨0, counttable, avgTable⟩, hcounttable, havgTable⟩

/-- What is known of a partial result. -/
structure PartialOf (apply : List Calculation) (observed : List Observation) (rv : ResultVal) : Prop where
  counttable : Tallies total (counted? apply) observed rv.counttable
  avgTable : (∀ obs ∈ observed, 1 ≤ obs.num.getD 1) →
    Tallies weightedMean (delayed? apply) observed rv.avgTable

theorem partialOf_aggregates {apply : List Calculation} (happly : apply.Nodup)
    {workers : Bracketing (List Observation)} {result : ResultVal}
    (haggregates : Aggregates apply workers result) : PartialOf apply workers.parts.flatten result := by
  refine haggregates.summarizes (PartialOf apply) ?_ ?_
  · intro observed
    exact ⟨tallies_counttable happly observed, tallies_avgTable happly⟩
  · intro observed₁ observed₂ rv1 rv2 result h₁ h₂ hcompose
    refine ⟨?_, ?_⟩
    · exact h₁.counttable.merges extends_total h₂.counttable (fun _ _ _ => trivial) (fun _ _ _ => trivial)
        (merges_of_counttable hcompose.counttable)
    · intro hnum
      have hnum₁ : ∀ obs ∈ observed₁, 1 ≤ obs.num.getD 1 := by
        intro obs hobs
        exact hnum obs (List.mem_append_left _ hobs)
      have hnum₂ : ∀ obs ∈ observed₂, 1 ≤ obs.num.getD 1 := by
        intro obs hobs
        exact hnum obs (List.mem_append_right _ hobs)
      exact (h₁.avgTable hnum₁).merges extends_weightedMean (h₂.avgTable hnum₂) (weight_pos hnum₁)
        (weight_pos hnum₂) (merges_of_avgTable hcompose.avgTable)

/-- Two tables that tally the same observations in some order. -/
theorem sameEntries_of_tallies {V β : Type} {summary : List β → Option V}
    (hsummary : ∀ xs ys, xs.Perm ys → summary xs = summary ys) {given : Text → Observation → Option β}
    {observed observed' : List Observation} (hperm : observed.Perm observed')
    {table? table?' : Option (Table Text V)} (h : Tallies summary given observed table?)
    (h' : Tallies summary given observed' table?') : SameEntries table? table?' := by
  refine ⟨?_, ?_⟩
  · rw [Bool.eq_iff_iff, h.isSome, h'.isSome]
    simp only [hperm.mem_iff]
  · intro str
    rw [h.get? str, h'.get? str]
    exact hsummary _ _ (hperm.filterMap _)

/-- **Aggregation is safe in a cluster.** However a stream is distributed and whatever the order and the
bracketing, there is a result, and every result has the totals and the weighted means of the stream: that of
one worker that sees all of it. -/
theorem aggregates_exactly {apply : List Calculation} (happly : apply.Nodup) {stream : List Observation}
    (hnum : ∀ obs ∈ stream, 1 ≤ obs.num.getD 1) {workers : Bracketing (List Observation)}
    (hsplit : workers.parts.flatten.Perm stream) :
    (∃ result, Aggregates apply workers result)
      ∧ ∀ result, Aggregates apply workers result →
        (.counttable ∈ apply → ∀ str, result.counttable.bind (·.get? str)
            = total (stream.filterMap (incrementOf str)))
          ∧ (.keyedAverage ∈ apply → ∀ str, result.avgTable.bind (·.get? str)
            = weightedMean (stream.filterMap (delayOf str)))
          ∧ SameEntries result.counttable (worker apply stream).counttable
          ∧ SameEntries result.avgTable (worker apply stream).avgTable := by
  refine ⟨Bracketing.exists_reduces exists_composeResultvals workers, ?_⟩
  intro result hresult
  have hworkers := partialOf_aggregates happly hresult
  have hnumParts : ∀ obs ∈ workers.parts.flatten, 1 ≤ obs.num.getD 1 := by
    intro obs hobs
    exact hnum obs (hsplit.mem_iff.mp hobs)
  have hcount := sameEntries_of_tallies (fun _ _ => total_perm) hsplit hworkers.counttable
    (tallies_counttable happly stream)
  have havg := sameEntries_of_tallies (fun _ _ => weightedMean_perm) hsplit (hworkers.avgTable hnumParts)
    (tallies_avgTable happly hnum)
  refine ⟨?_, ?_, hcount, havg⟩
  · intro hmem str
    have hgiven : counted? apply str = incrementOf str := by
      funext obs
      exact if_pos hmem
    rw [hcount.2 str, (tallies_counttable happly stream).get? str, hgiven]
  · intro hmem str
    have hgiven : delayed? apply str = delayOf str := by
      funext obs
      exact if_pos hmem
    rw [havg.2 str, (tallies_avgTable happly hnum).get? str, hgiven]

/-- Three observers of two delays, one of which sees nothing. -/
def threeWorkers : Bracketing (List Observation) :=
  .both (.part [⟨.functionsRes, some ['a'], none, some 3⟩])
    (.both (.part []) (.part [⟨.functionsRes, some ['a'], some 2, some 6⟩]))

theorem aggregates_exactly_threeWorkers :
    ∃ result, Aggregates [.keyedAverage, .counttable] threeWorkers result
      ∧ result.counttable.bind (·.get? ['a']) = total [2, 1]
      ∧ result.avgTable.bind (·.get? ['a']) = weightedMean [(2, 6), (1, 3)] := by
  have hswap : threeWorkers.parts.flatten.Perm
      [⟨.functionsRes, some ['a'], some 2, some 6⟩, ⟨.functionsRes, some ['a'], none, some 3⟩] :=
    List.Perm.swap ..
  obtain ⟨⟨result, hresult⟩, hall⟩ := aggregates_exactly
    (show [Calculation.keyedAverage, .counttable].Nodup by decide) (by decide) hswap
  obtain ⟨hcount, havg, _, _⟩ := hall result hresult
  exact ⟨result, hresult, hcount (by decide) ['a'], havg (by decide) ['a']⟩

end Armore.StatsCount
