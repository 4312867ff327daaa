import Armore.Filtering.Schedule

/-!
# The rule over a week

The jobs of a time string command the rule on the days of the set, at the starts and stops of its entries,
and turn it off at the midnight that ends a row of days if a stop was moved there. What the rule is then
follows from what it is at the end of each day, and that is the same for every day of the set.
-/

namespace Armore.Filtering

open Armore.Lib

/-- Entries with at least one day each. -/
structure Dated (es : List Entry) : Prop where
  nonempty : ∃ e, e ∈ es
  day : ∀ e ∈ es, ∃ d, d ∈ e.days
  day_lt : ∀ e ∈ es, ∀ d ∈ e.days, d < 7

/-- Entries with their times in order and at least one day each. -/
structure WellTimed (es : List Entry) : Prop where
  nonempty : ∃ e, e ∈ es
  day : ∀ e ∈ es, ∃ d, d ∈ e.days
  day_lt : ∀ e ∈ es, ∀ d ∈ e.days, d < 7
  ordered : ∀ e ∈ es, e.startMinute ≤ e.stopMinute
  stop_lt : ∀ e ∈ es, e.stopMinute < minutesPerDay
  start_midnight : ∀ e ∈ es, e.startClock = "00:00".toList → e.startMinute = 0
  stop_late : ∀ e ∈ es, e.stopClock = "23:59".toList → e.stopMinute + 1 = minutesPerDay

/-- A stop takes effect at the minute `n`. -/
def Stops (es : List Entry) (n : Nat) : Prop :=
  InDays es (dayOf n) ∧ StopsAt es (minuteOf n)
    ∨ ¬ InDays es (dayOf n) ∧ minuteOf n = 0 ∧ LateStop es ∧ InDays es (dayBefore (dayOf n))

/-- A start takes effect at the minute `n`. -/
def Starts (es : List Entry) (n : Nat) : Prop :=
  InDays es (dayOf n) ∧ StartsAt es (dayOf n) (minuteOf n)

/-- The commands of the entries: a stop wins over a start at the same minute. -/
structure Commands (es : List Entry) (effect : Nat → Option Bool) : Prop where
  stop : ∀ n, effect n = some false ↔ Stops es n
  start : ∀ n, effect n = some true ↔ Starts es n ∧ ¬ Stops es n

theorem dayOf_add {k m : Nat} (hm : m < minutesPerDay) : dayOf (minutesPerDay * k + m) = k % 7 := by
  rw [dayOf, Nat.mul_add_div (by decide), Nat.div_eq_of_lt hm, Nat.add_zero]

theorem minuteOf_add {k m : Nat} (hm : m < minutesPerDay) : minuteOf (minutesPerDay * k + m) = m := by
  rw [minuteOf, Nat.mul_add_mod, Nat.mod_eq_of_lt hm]

namespace Commands

variable {es : List Entry} {effect : Nat → Option Bool} (hcommands : Commands es effect)
include hcommands

theorem none_iff (n : Nat) : effect n = none ↔ ¬ Stops es n ∧ ¬ Starts es n := by
  have hstop := hcommands.stop n
  have hstart := hcommands.start n
  rcases heffect : effect n with _ | _ | _
  · rw [heffect] at hstop hstart
    simp only [reduceCtorEq, false_iff, not_and, not_not] at hstop hstart
    exact ⟨fun _ => ⟨hstop, fun h => hstop (hstart h)⟩, fun _ => rfl⟩
  · simp only [heffect, true_iff] at hstop
    simp [hstop]
  · simp only [heffect, true_iff] at hstart
    simp [hstart.1]

/-- On a day of the set the commands are its switches. -/
theorem on_none {n : Nat} (hday : InDays es (dayOf n)) :
    effect n = none ↔ ¬ Switches es (dayOf n) (minuteOf n) := by
  rw [hcommands.none_iff, Stops, Starts, Switches]
  simp only [hday, true_and, not_true_eq_false, false_and, or_false, not_or]

theorem on_some {n : Nat} {b : Bool} (hday : InDays es (dayOf n)) (hb : effect n = some b) :
    Switches es (dayOf n) (minuteOf n) ∧ (b = true ↔ ¬ StopsAt es (minuteOf n)) := by
  cases b with
  | false =>
    rcases (hcommands.stop n).mp hb with ⟨_, hstops⟩ | ⟨hoff, _⟩
    · exact ⟨.inl hstops, by simp [hstops]⟩
    · exact absurd hday hoff
  | true =>
    obtain ⟨⟨_, hstarts⟩, hnot⟩ := (hcommands.start n).mp hb
    refine ⟨.inr hstarts, ?_⟩
    simp only [true_iff]
    intro hstops
    exact hnot (.inl ⟨hday, hstops⟩)

/-- On another day there is at most the stop at midnight. -/
theorem off_some {n : Nat} {b : Bool} (hday : ¬ InDays es (dayOf n)) (hb : effect n = some b) :
    b = false ∧ minuteOf n = 0 := by
  cases b with
  | false =>
    rcases (hcommands.stop n).mp hb with ⟨hon, _⟩ | ⟨_, hmidnight, _⟩
    · exact absurd hon hday
    · exact ⟨rfl, hmidnight⟩
  | true => exact absurd ((hcommands.start n).mp hb).1.1 hday

theorem off_none {n : Nat} (hday : ¬ InDays es (dayOf n)) (hmidnight : minuteOf n = 0)
    (hnone : effect n = none) (hlate : LateStop es) : ¬ InDays es (dayBefore (dayOf n)) := by
  intro hbefore
  exact ((hcommands.none_iff n).mp hnone).1 (.inr ⟨hday, hmidnight, hlate, hbefore⟩)

end Commands

theorem inDays_of_covers {es : List Entry} {d m : Nat} (hcovers : Covers es d m) : InDays es d := by
  obtain ⟨e, hmem, hd, _⟩ := hcovers
  exact ⟨e, hmem, hd⟩

/-! ### The days of the set -/

section

variable {es : List Entry} (hdated : Dated es)
include hdated

theorem Dated.inDays_lt {d : Nat} (hday : InDays es d) : d < 7 := by
  obtain ⟨e, hmem, hd⟩ := hday
  exact hdated.day_lt e hmem d hd

/-- A step of one day, forwards or backwards, that stays in the set goes all round the week. -/
theorem Dated.everyDay_of_closed {c : Nat} (hc : c = 1 ∨ c = 6)
    (hclosed : ∀ d, InDays es d → InDays es ((d + c) % 7)) : EveryDay es := by
  obtain ⟨e, hmem⟩ := hdated.nonempty
  obtain ⟨d, hd⟩ := hdated.day e hmem
  have hlt := hdated.day_lt e hmem d hd
  have hall : ∀ j, InDays es ((d + c * j) % 7) := by
    intro j
    induction j with
    | zero => exact ⟨e, hmem, by rw [Nat.mul_zero, Nat.add_zero, Nat.mod_eq_of_lt hlt]; exact hd⟩
    | succ j ih =>
      have hstep : (d + c * (j + 1)) % 7 = ((d + c * j) % 7 + c) % 7 := by
        rw [Nat.mul_succ, Nat.mod_add_mod, Nat.add_assoc]
      rw [hstep]
      exact hclosed _ ih
  intro x hx
  rcases hc with hc | hc
  · have hreach : (d + c * (x + 7 - d)) % 7 = x := by
      rw [hc]
      omega
    exact hreach ▸ hall _
  · have hreach : (d + c * (d + 7 - x)) % 7 = x := by
      rw [hc]
      omega
    exact hreach ▸ hall _

/-- A row of days that does not go all round the week has a first day. -/
theorem Dated.exists_firstDay (hsome : ¬ EveryDay es) :
    ∃ d, InDays es d ∧ ¬ InDays es (dayBefore d) := by
  by_contra hnone
  apply hsome
  apply hdated.everyDay_of_closed (.inr rfl)
  intro d hd
  by_contra hbefore
  exact hnone ⟨d, hd, hbefore⟩

/-- And a day after its last. -/
theorem Dated.exists_lastDay (hsome : ¬ EveryDay es) :
    ∃ d, (InDays es (dayBefore d) ∧ ¬ InDays es d) ∧ d < 7 := by
  by_contra hnone
  apply hsome
  apply hdated.everyDay_of_closed (.inl rfl)
  intro d hd
  by_contra hafter
  have hbefore : dayBefore ((d + 1) % 7) = d := by
    have := hdated.inDays_lt hd
    rw [dayBefore]
    omega
  exact hnone ⟨(d + 1) % 7, ⟨by rw [hbefore]; exact hd, hafter⟩, Nat.mod_lt _ (by decide)⟩

end

theorem WellTimed.dated {es : List Entry} (htimed : WellTimed es) : Dated es :=
  ⟨htimed.nonempty, htimed.day, htimed.day_lt⟩

/-! ### The end of a day -/

section

variable {es : List Entry} (htimed : WellTimed es)
include htimed

theorem WellTimed.stopsAt_lt {m : Nat} (hstops : StopsAt es m) : m < minutesPerDay := by
  obtain ⟨e, hmem, hstop, _⟩ := hstops
  rw [← hstop]
  exact htimed.stop_lt e hmem

/-- A start after midnight is one on every day of the set. -/
theorem WellTimed.startsAt {e : Entry} (hmem : e ∈ es) (hlater : 0 < e.startMinute) (d : Nat) :
    StartsAt es d e.startMinute := by
  refine ⟨e, hmem, rfl, fun hmidnight => ?_⟩
  rw [htimed.start_midnight e hmem hmidnight] at hlater
  exact absurd hlater (Nat.lt_irrefl 0)

theorem WellTimed.start_lt {e : Entry} (hmem : e ∈ es) : e.startMinute < minutesPerDay :=
  Nat.lt_of_le_of_lt (htimed.ordered e hmem) (htimed.stop_lt e hmem)

/-- The last switch of a day of the set decides whether the rule is installed at its end. -/
theorem WellTimed.endsOn_of_last {d i : Nat} (hswitch : Switches es d i)
    (hlast : ∀ j, i < j → j < minutesPerDay → ¬ Switches es d j) : ¬ StopsAt es i ↔ EndsOn es := by
  constructor
  · intro hnot
    obtain ⟨e, hmem, hstart, _⟩ := hswitch.resolve_left hnot
    constructor
    · refine ⟨e, hmem, ?_⟩
      by_contra hclock
      have hstops : StopsAt es e.stopMinute := ⟨e, hmem, rfl, hclock⟩
      rcases Nat.lt_or_eq_of_le (htimed.ordered e hmem) with hlt | heq
      · exact hlast _ (hstart ▸ hlt) (htimed.stop_lt e hmem) (.inl hstops)
      · rw [← heq, hstart] at hstops
        exact hnot hstops
    · intro m hstops
      refine ⟨e, hmem, ?_⟩
      rw [hstart]
      by_contra hle
      rcases Nat.lt_or_eq_of_le (Nat.not_lt.mp hle) with hlt | heq
      · exact hlast m hlt (htimed.stopsAt_lt hstops) (.inl hstops)
      · exact hnot (heq ▸ hstops)
  · intro hends hstops
    obtain ⟨e, hmem, hlater⟩ := hends.2 i hstops
    have hstarts := htimed.startsAt hmem (Nat.zero_lt_of_lt hlater) d
    exact hlast _ hlater (htimed.start_lt hmem) (.inr hstarts)

/-- A day of the set without a switch goes on as the day before has ended. -/
theorem WellTimed.endsOn_of_none {d : Nat} (hlast : ∀ j < minutesPerDay, ¬ Switches es d j) :
    InDays es (dayBefore d) ∧ EndsOn es := by
  have hnot : ∀ m, ¬ StopsAt es m := fun m hstops => hlast m (htimed.stopsAt_lt hstops) (.inl hstops)
  obtain ⟨e, hmem⟩ := htimed.nonempty
  refine ⟨?_, ⟨e, hmem, ?_⟩, fun m hstops => absurd hstops (hnot m)⟩
  · by_contra hbefore
    exact hlast _ (htimed.start_lt hmem) (.inr ⟨e, hmem, rfl, fun _ => .inr hbefore⟩)
  · by_contra hclock
    exact hnot _ ⟨e, hmem, rfl, hclock⟩

/-- What an entry covers changes at a switch only. -/
theorem WellTimed.covers_succ {d m : Nat} (hm : m + 1 < minutesPerDay)
    (hbefore : ¬ Switches es d m) (hafter : ¬ Switches es d (m + 1)) :
    Covers es d (m + 1) ↔ Covers es d m := by
  constructor
  · intro ⟨e, hmem, hd, hstart, hstop⟩
    refine ⟨e, hmem, hd, ?_, Nat.le_of_succ_le hstop⟩
    rcases Nat.lt_or_eq_of_le hstart with hlt | heq
    · exact Nat.lt_succ_iff.mp hlt
    · have hstarts := htimed.startsAt hmem (heq ▸ Nat.succ_pos m) d
      rw [heq] at hstarts
      exact absurd (.inr hstarts) hafter
  · intro ⟨e, hmem, hd, hstart, hstop⟩
    refine ⟨e, hmem, hd, Nat.le_succ_of_le hstart, ?_⟩
    rcases Nat.lt_or_eq_of_le hstop with hlt | heq
    · exact hlt
    · refine absurd (.inl ⟨e, hmem, heq.symm, fun hlate => ?_⟩) hbefore
      have := htimed.stop_late e hmem hlate
      omega

variable {effect : Nat → Option Bool} (hcommands : Commands es effect)
include hcommands

theorem WellTimed.endOfDay_step (k : Nat) {b : Bool}
    (hbefore : ∀ b, Latch.last effect (minutesPerDay * k) = some b →
      (b = true ↔ InDays es (dayBefore (k % 7)) ∧ EndsOn es))
    (hb : Latch.last effect (minutesPerDay * k + minutesPerDay) = some b) :
    b = true ↔ InDays es (k % 7) ∧ EndsOn es := by
  have hnone : ∀ j < minutesPerDay, InDays es (k % 7) → effect (minutesPerDay * k + j) = none →
      ¬ Switches es (k % 7) j := by
    intro j hj hday heffect
    have hswitch := (hcommands.on_none (by rw [dayOf_add hj]; exact hday)).mp heffect
    rw [dayOf_add hj, minuteOf_add hj] at hswitch
    exact hswitch
  by_cases hday : InDays es (k % 7)
  · simp only [hday, true_and]
    rcases Latch.last_add hb with ⟨i, hi, hsome, hlater⟩ | ⟨hstart, hquiet⟩
    · obtain ⟨hswitch, hvalue⟩ := hcommands.on_some (by rw [dayOf_add hi]; exact hday) hsome
      rw [dayOf_add hi, minuteOf_add hi] at hswitch
      rw [minuteOf_add hi] at hvalue
      rw [hvalue]
      exact htimed.endsOn_of_last hswitch fun j hij hj => hnone j hj hday (hlater j hij hj)
    · obtain ⟨hprev, hends⟩ := htimed.endsOn_of_none fun j hj => hnone j hj hday (hquiet j hj)
      rw [hbefore b hstart]
      simp only [hprev, hends, and_self]
  · simp only [hday, false_and, iff_false, Bool.not_eq_true]
    rcases Latch.last_add hb with ⟨i, hi, hsome, _⟩ | ⟨hstart, hquiet⟩
    · exact (hcommands.off_some (by rw [dayOf_add hi]; exact hday) hsome).1
    · -- an end of day with the rule installed would have been followed by the stop at midnight
      apply eq_false_of_ne_true
      intro hon
      obtain ⟨hprev, hends⟩ := (hbefore b hstart).mp hon
      have hpos : 0 < minutesPerDay := by decide
      have hmidnight := hcommands.off_none (by rw [dayOf_add hpos]; exact hday) (minuteOf_add hpos)
        (hquiet 0 hpos) hends.1
      rw [dayOf_add hpos] at hmidnight
      exact hmidnight hprev

/-- The rule at the end of the day `k`, once it has been commanded. -/
theorem WellTimed.last_endOfDay (k : Nat) {b : Bool}
    (hb : Latch.last effect (minutesPerDay * (k + 1)) = some b) :
    b = true ↔ InDays es (k % 7) ∧ EndsOn es := by
  induction k generalizing b with
  | zero =>
    apply htimed.endOfDay_step hcommands 0 _ hb
    intro b' hb'
    exact nomatch hb'
  | succ k ih =>
    apply htimed.endOfDay_step hcommands (k + 1) _ hb
    intro b' hb'
    have hday : dayBefore ((k + 1) % 7) = k % 7 := by
      rw [dayBefore]
      omega
    rw [hday]
    exact ih hb'

/-! ### Every minute -/

theorem WellTimed.exists_command : ∃ n, effect n ≠ none := by
  obtain ⟨e, hmem⟩ := htimed.nonempty
  -- a start at midnight is taken on the first day of a row, any other on every day of the set
  have hstarts : ∃ d, InDays es d ∧ StartsAt es d e.startMinute := by
    by_cases hevery : EveryDay es
    · exact ⟨0, hevery 0 (by decide), e, hmem, rfl, fun _ => .inl hevery⟩
    · obtain ⟨d, hd, hbefore⟩ := htimed.dated.exists_firstDay hevery
      exact ⟨d, hd, e, hmem, rfl, fun _ => .inr hbefore⟩
  obtain ⟨d, hd, hstart⟩ := hstarts
  have hm := htimed.start_lt hmem
  have hday : d % 7 = d := Nat.mod_eq_of_lt (htimed.dated.inDays_lt hd)
  refine ⟨minutesPerDay * d + e.startMinute, fun hnone => ?_⟩
  have hswitch := (hcommands.on_none (by rw [dayOf_add hm, hday]; exact hd)).mp hnone
  rw [dayOf_add hm, minuteOf_add hm, hday] at hswitch
  exact hswitch (.inr hstart)

/-- With the last commands right, the entries are regular: each clause is read off at one minute. -/
theorem WellTimed.regular_of_last (hperiodic : ∀ n, effect (n + minutesPerWeek) = effect n)
    (hlast : ∀ n b, Latch.last effect n = some b → effect n = none →
      (b = true ↔ Covers es (dayOf n) (minuteOf n))) : Regular es := by
  constructor
  · intro d hd m hm hswitch hafter
    have hbefore : m < minutesPerDay := Nat.lt_of_succ_lt hm
    have hday : d % 7 = d := Nat.mod_eq_of_lt (htimed.dated.inDays_lt hd)
    have hmem : ∀ j, j < minutesPerDay → InDays es (dayOf (minutesPerDay * d + j)) := by
      intro j hj
      rw [dayOf_add hj, hday]
      exact hd
    cases hcommand : effect (minutesPerDay * d + m) with
    | none =>
      have hquiet := (hcommands.on_none (hmem m hbefore)).mp hcommand
      rw [dayOf_add hbefore, minuteOf_add hbefore, hday] at hquiet
      exact absurd hswitch hquiet
    | some b =>
      have hvalue := (hcommands.on_some (hmem m hbefore) hcommand).2
      rw [minuteOf_add hbefore] at hvalue
      have hnone : effect (minutesPerDay * d + (m + 1)) = none := by
        rw [hcommands.on_none (hmem _ hm), dayOf_add hm, minuteOf_add hm, hday]
        exact hafter
      have hcovers := hlast _ b (Latch.last_succ_of_some hcommand) hnone
      rw [← Nat.add_assoc] at hnone
      have heq : minutesPerDay * d + m + 1 = minutesPerDay * d + (m + 1) := Nat.add_assoc ..
      rw [heq, dayOf_add hm, minuteOf_add hm, hday] at hcovers
      exact hcovers.symm.trans hvalue
  · intro d hd hquiet
    have hpos : 0 < minutesPerDay := by decide
    have hday : (d + 7) % 7 = d := by
      rw [Nat.add_mod_right]
      exact Nat.mod_eq_of_lt (htimed.dated.inDays_lt hd)
    have hn : minutesPerDay * (d + 7) = minutesPerDay * (d + 7) + 0 := rfl
    have hnone : effect (minutesPerDay * (d + 7)) = none := by
      rw [hn, hcommands.on_none (by rw [dayOf_add hpos, hday]; exact hd), dayOf_add hpos,
        minuteOf_add hpos, hday]
      exact hquiet
    -- a week has passed, so there was a command
    obtain ⟨k, hk⟩ := htimed.exists_command hcommands
    have hlong : minutesPerWeek ≤ minutesPerDay * (d + 7) := by
      rw [minutesPerWeek, minutesPerDay]
      omega
    have hvalue := Latch.last_eq_value false
      (Latch.exists_command hperiodic hk (by decide) 0 hlong)
    rw [Nat.zero_add] at hvalue
    have hcovers := hlast _ _ hvalue hnone
    have hends := htimed.last_endOfDay hcommands (d + 6) hvalue
    rw [hn, dayOf_add hpos, minuteOf_add hpos, hday] at hcovers
    exact hcovers.symm.trans hends

/-- With regular entries the last commands are right, by induction on the minute of the day. -/
theorem WellTimed.last_of_regular (hregular : Regular es) (k m : Nat) (hm : m < minutesPerDay) {b : Bool}
    (hb : Latch.last effect (minutesPerDay * k + m) = some b)
    (hnone : effect (minutesPerDay * k + m) = none) : b = true ↔ Covers es (k % 7) m := by
  have hoff : ∀ j, ¬ InDays es (k % 7) → b = false → (b = true ↔ Covers es (k % 7) j) := by
    intro j hday hfalse
    have hnot : ¬ Covers es (k % 7) j := fun hcovers => hday (inDays_of_covers hcovers)
    simp only [hfalse, hnot, Bool.false_eq_true]
  induction m with
  | zero =>
    cases k with
    | zero => exact nomatch hb
    | succ k =>
      have hends := htimed.last_endOfDay hcommands k hb
      have hbefore : dayBefore ((k + 1) % 7) = k % 7 := by
        rw [dayBefore]
        omega
      by_cases hday : InDays es ((k + 1) % 7)
      · have hquiet := (hcommands.on_none (by rw [dayOf_add hm]; exact hday)).mp hnone
        rw [dayOf_add hm, minuteOf_add hm] at hquiet
        rw [hends, hregular.midnight _ hday hquiet, hbefore]
      · apply hoff _ hday
        apply eq_false_of_ne_true
        intro hon
        have hmidnight := hcommands.off_none (by rw [dayOf_add hm]; exact hday) (minuteOf_add hm) hnone
          (hends.mp hon).2.1
        rw [dayOf_add hm, hbefore] at hmidnight
        exact hmidnight (hends.mp hon).1
  | succ m ih =>
    have hm' : m < minutesPerDay := Nat.lt_of_succ_lt hm
    have hquiet : InDays es (k % 7) → ¬ Switches es (k % 7) (m + 1) := by
      intro hday
      have := (hcommands.on_none (by rw [dayOf_add hm]; exact hday)).mp hnone
      rw [dayOf_add hm, minuteOf_add hm] at this
      exact this
    cases hcommand : effect (minutesPerDay * k + m) with
    | some b' =>
      have hbb := Latch.last_succ_of_some hcommand
      rw [Nat.add_assoc, hb, Option.some.injEq] at hbb
      by_cases hday : InDays es (k % 7)
      · obtain ⟨hswitch, hvalue⟩ := hcommands.on_some (by rw [dayOf_add hm']; exact hday) hcommand
        rw [dayOf_add hm', minuteOf_add hm'] at hswitch
        rw [minuteOf_add hm'] at hvalue
        rw [hbb, hvalue, hregular.switch _ hday m hm hswitch (hquiet hday)]
      · exact hoff _ hday (hbb.trans (hcommands.off_some (by rw [dayOf_add hm']; exact hday) hcommand).1)
    | none =>
      rw [← Nat.add_assoc, Latch.last_succ_of_none hcommand] at hb
      by_cases hday : InDays es (k % 7)
      · have hbefore := (hcommands.on_none (by rw [dayOf_add hm']; exact hday)).mp hcommand
        rw [dayOf_add hm', minuteOf_add hm'] at hbefore
        rw [htimed.covers_succ hm hbefore (hquiet hday)]
        exact ih hm' hb hcommand
      · apply hoff _ hday
        apply eq_false_of_ne_true
        intro hon
        exact hday (inDays_of_covers ((ih hm' hb hcommand).mp hon))

/-- The last command before each minute without one is right exactly when the entries are regular. -/
theorem WellTimed.regular_iff (hperiodic : ∀ n, effect (n + minutesPerWeek) = effect n) :
    (∀ n b, Latch.last effect n = some b → effect n = none →
        (b = true ↔ Covers es (dayOf n) (minuteOf n))) ↔ Regular es := by
  constructor
  · exact htimed.regular_of_last hcommands hperiodic
  · intro hregular n b hb hnone
    have hm : n % minutesPerDay < minutesPerDay := Nat.mod_lt _ (by decide)
    rw [← Nat.div_add_mod n minutesPerDay] at hb hnone ⊢
    rw [dayOf_add hm, minuteOf_add hm]
    exact htimed.last_of_regular hcommands hregular _ _ hm hb hnone

end

end Armore.Filtering
