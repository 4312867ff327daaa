import Armore.Filtering.ScheduleJobs

/-!
# The rule of a scheduled policy

The jobs of a policy command its rule as `Commands` says, so cron keeps the rule installed on the minutes
its entries cover exactly when the entries are regular. `parseTime` does not look for that: the entries of
one time string share their days, starts and stops.
-/

namespace Armore.Filtering

open Armore.Lib Armore.Lib.Text

section

variable {es : List Entry} {t : Times} (hcollected : Collected es Times.none t)
  (hclocked : ∀ e ∈ es, e.Clocked) (htimed : ∀ e ∈ es, ¬ e.WholeDay)
include hcollected

theorem Collected.day_lt {e : Entry} (hmem : e ∈ es) {d : Nat} (hd : d ∈ e.days) : d < 7 := by
  obtain ⟨ds, hnamed⟩ := hcollected.named e hmem
  rw [e.days_of_namedDays hnamed] at hd
  exact (namedDays_ok hnamed).2 d hd

theorem Collected.dated (hsome : ∃ e, e ∈ es) : Dated es where
  nonempty := hsome
  day e hmem := by
    obtain ⟨ds, hnamed⟩ := hcollected.named e hmem
    rw [e.days_of_namedDays hnamed]
    exact List.exists_mem_of_ne_nil ds (namedDays_ok hnamed).1
  day_lt e hmem d hd := hcollected.day_lt hmem hd

theorem Collected.wellTimed (hvalid : ∀ e ∈ es, e.Valid) (hsome : ∃ e, e ∈ es) : WellTimed es where
  nonempty := hsome
  day := (hcollected.dated hsome).day
  day_lt := (hcollected.dated hsome).day_lt
  ordered e hmem := (hvalid e hmem).ordered
  stop_lt e hmem := (hvalid e hmem).stop_lt
  start_midnight e hmem := (hvalid e hmem).start_midnight
  stop_late e hmem := (hvalid e hmem).stop_late

include htimed

theorem Collected.all_eq_false : t.all = false := by
  apply eq_false_of_ne_true
  intro hall
  rcases hcollected.all.mp hall with hnone | ⟨e, hmem, hwhole⟩
  · exact nomatch hnone
  · exact htimed e hmem hwhole

theorem Collected.mem_inOrder (d : Nat) : d ∈ inOrder t.days ↔ InDays es d := by
  rw [Filtering.mem_inOrder, hcollected.days]
  constructor
  · intro ⟨_, hd⟩
    rcases hd with hnil | ⟨e, hmem, _, hd⟩
    · exact absurd hnil List.not_mem_nil
    · exact ⟨e, hmem, hd⟩
  · intro ⟨e, hmem, hd⟩
    exact ⟨hcollected.day_lt hmem hd, .inr ⟨e, hmem, htimed e hmem, hd⟩⟩

theorem Collected.inOrder_eq_everyDay : inOrder t.days = everyDay ↔ EveryDay es := by
  constructor
  · intro heq d hd
    rw [← hcollected.mem_inOrder htimed, heq]
    revert d
    decide
  · intro hevery
    rw [inOrder, List.filter_eq_self]
    intro d hd
    have hlt : d < 7 := by
      revert d
      decide
    rw [decide_eq_true_eq]
    exact (Filtering.mem_inOrder.mp ((hcollected.mem_inOrder htimed d).mpr (hevery d hlt))).2

theorem Collected.mem_startDays (st : Text) (d : Nat) :
    d ∈ startDays t.days st
      ↔ InDays es d ∧ (st = "00:00".toList → EveryDay es ∨ ¬ InDays es (dayBefore d)) := by
  rw [startDays]
  split
  · rename_i hmerged
    rw [ne_eq, hcollected.inOrder_eq_everyDay htimed] at hmerged
    simp only [List.mem_filter, decide_eq_true_eq, hcollected.mem_inOrder htimed, hmerged.1, hmerged.2,
      false_or, forall_const]
  · rename_i hplain
    rw [ne_eq, hcollected.inOrder_eq_everyDay htimed] at hplain
    rw [hcollected.mem_inOrder htimed]
    constructor
    · intro hd
      refine ⟨hd, fun hst => .inl ?_⟩
      by_contra hevery
      exact hplain ⟨hst, hevery⟩
    · exact fun h => h.1

theorem Collected.mem_midnightDays (d : Nat) :
    d ∈ midnightDays t.days ↔ d < 7 ∧ InDays es (dayBefore d) ∧ ¬ InDays es d := by
  simp only [midnightDays, List.mem_map, List.mem_filter, decide_eq_true_eq,
    hcollected.mem_inOrder htimed]
  constructor
  · intro hmidnight
    obtain ⟨d', ⟨⟨e, hmem, hd'⟩, hout⟩, hd⟩ := hmidnight
    have hlt := hcollected.day_lt hmem hd'
    have hbefore : dayBefore d = d' := by
      rw [← hd, dayBefore]
      omega
    rw [hbefore]
    exact ⟨by omega, ⟨e, hmem, hd'⟩, hd ▸ hout⟩
  · intro hmidnight
    obtain ⟨hlt, hin, hout⟩ := hmidnight
    have hd : (dayBefore d + 1) % 7 = d := by
      rw [dayBefore]
      omega
    exact ⟨dayBefore d, ⟨hin, by rw [hd]; exact hout⟩, hd⟩

/-! ### The moments of an entry -/

omit hcollected htimed in
include hclocked in
theorem Entry.startMoment_eq {e : Entry} (hmem : e ∈ es) :
    startMoment t.days e.startClock
      = .ok ⟨joinDays (startDays t.days e.startClock), e.startHour, e.startMin⟩ :=
  Filtering.startMoment_eq t.days (hclocked e hmem).startHour.1 (hclocked e hmem).startMin.1

/-- Where `stopMoment` puts the stop of an entry. -/
def Entry.stopMoment (days : List Nat) (e : Entry) : Moment :=
  if e.stopClock = "23:59".toList then ⟨joinDays (midnightDays days), "00".toList, "00".toList⟩
  else ⟨joinDays (inOrder days), e.stopHour, e.stopMin⟩

omit hcollected htimed in
include hclocked in
theorem Entry.stopMoment_eq {e : Entry} (hmem : e ∈ es) :
    Filtering.stopMoment t.days e.stopClock = .ok (e.stopMoment t.days) := by
  rw [Entry.stopMoment]
  split
  · rename_i hlate
    rw [hlate, stopMoment_late]
  · rename_i hearly
    exact Filtering.stopMoment_eq t.days (hclocked e hmem).stopHour.1 (hclocked e hmem).stopMin.1 hearly

variable {host : Host} {command : Text}

include hclocked in
/-- The start of an entry always gives a job. -/
theorem Collected.startJob {e : Entry} (hmem : e ∈ es) :
    newJob host command ⟨joinDays (startDays t.days e.startClock), e.startHour, e.startMin⟩
      = .ok ⟨command, "root".toList, decimal e.startMin, decimal e.startHour,
          startDays t.days e.startClock⟩ := by
  have hdated := hcollected.dated ⟨e, hmem⟩
  have hsomeDay : ∃ d, InDays es d ∧ (EveryDay es ∨ ¬ InDays es (dayBefore d)) := by
    by_cases hevery : EveryDay es
    · exact ⟨0, hevery 0 (by decide), .inl hevery⟩
    · obtain ⟨d, hd, hbefore⟩ := hdated.exists_firstDay hevery
      exact ⟨d, hd, .inr hbefore⟩
  obtain ⟨d, hd, hfirst⟩ := hsomeDay
  apply newJob_ok host command (hclocked e hmem).startHour (hclocked e hmem).startMin
  · exact List.ne_nil_of_mem ((hcollected.mem_startDays htimed _ d).mpr ⟨hd, fun _ => hfirst⟩)
  · intro d' hd'
    exact hdated.inDays_lt ((hcollected.mem_startDays htimed _ d').mp hd').1

include hclocked in
/-- The stop of an entry gives a job unless it is moved past the end of the row of days. -/
theorem Collected.stopJob {e : Entry} (hmem : e ∈ es)
    (hends : e.stopClock = "23:59".toList → ¬ EveryDay es) :
    ∃ j, newJob host command (e.stopMoment t.days) = .ok j := by
  have hdated := hcollected.dated ⟨e, hmem⟩
  rw [Entry.stopMoment]
  split
  · rename_i hlate
    obtain ⟨d, hd, hbefore⟩ := hdated.exists_lastDay (hends hlate)
    refine ⟨_, newJob_ok host command (by decide) (by decide) ?_ ?_⟩
    · exact List.ne_nil_of_mem ((hcollected.mem_midnightDays htimed d).mpr ⟨hbefore, hd⟩)
    · intro d' hd'
      exact ((hcollected.mem_midnightDays htimed d').mp hd').1
  · obtain ⟨d, hd⟩ := hdated.day e hmem
    refine ⟨_, newJob_ok host command (hclocked e hmem).stopHour (hclocked e hmem).stopMin ?_ ?_⟩
    · exact List.ne_nil_of_mem ((hcollected.mem_inOrder htimed d).mpr ⟨e, hmem, hd⟩)
    · intro d' hd'
      exact hdated.inDays_lt ((hcollected.mem_inOrder htimed d').mp hd')

end

/-! ### The jobs of the entries -/

section

variable {es : List Entry} {host : Host} {command : Text} {clocks : List Text} {clockOf : Entry → Text}
  {read : Text → Except Exn Moment} {momentOf : Entry → Moment} {moments : List Moment} {jobs : List Job}
  (hclocks : ∀ st, st ∈ clocks ↔ ∃ e ∈ es, clockOf e = st)
  (hread : ∀ e ∈ es, read (clockOf e) = .ok (momentOf e))
include hclocks hread

/-- Two comprehensions, over the clocks of the entries and over their moments, make one job for each. -/
theorem mem_jobs (hmoments : clocks.mapM read = .ok moments)
    (hjobs : moments.mapM (newJob host command) = .ok jobs) (j : Job) :
    j ∈ jobs ↔ ∃ e ∈ es, newJob host command (momentOf e) = .ok j := by
  rw [mem_mapM_ok hjobs]
  constructor
  · intro ⟨m, hm, hj⟩
    obtain ⟨st, hst, hmoment⟩ := (mem_mapM_ok hmoments).mp hm
    obtain ⟨e, hmem, hclock⟩ := (hclocks st).mp hst
    rw [← hclock, hread e hmem, Except.ok.injEq] at hmoment
    exact ⟨e, hmem, hmoment ▸ hj⟩
  · intro ⟨e, hmem, hj⟩
    exact ⟨momentOf e, (mem_mapM_ok hmoments).mpr ⟨clockOf e, (hclocks _).mpr ⟨e, hmem, rfl⟩,
      hread e hmem⟩, hj⟩

/-- They return when every entry gives a job. -/
theorem exists_jobs_iff (hmoments : clocks.mapM read = .ok moments) :
    (∃ jobs, moments.mapM (newJob host command) = .ok jobs)
      ↔ ∀ e ∈ es, ∃ j, newJob host command (momentOf e) = .ok j := by
  constructor
  · intro ⟨jobs, hjobs⟩ e hmem
    apply ok_of_mapM_ok hjobs
    exact (mem_mapM_ok hmoments).mpr ⟨clockOf e, (hclocks _).mpr ⟨e, hmem, rfl⟩, hread e hmem⟩
  · intro hall
    apply exists_mapM_ok
    intro m hm
    obtain ⟨st, hst, hmoment⟩ := (mem_mapM_ok hmoments).mp hm
    obtain ⟨e, hmem, hclock⟩ := (hclocks st).mp hst
    rw [← hclock, hread e hmem, Except.ok.injEq] at hmoment
    exact hmoment ▸ hall e hmem

end

theorem newJob_command {host : Host} {command : Text} {m : Moment} {j : Job}
    (hjob : newJob host command m = .ok j) : j.command = command := by
  obtain ⟨_, _, hrest⟩ := bind_ok.mp hjob
  obtain ⟨_, _, hrest⟩ := bind_ok.mp hrest
  obtain ⟨_, _, hj⟩ := bind_ok.mp hrest
  rw [← Except.ok.inj hj]

/-! ### What cron does with them -/

/-- The command of the jobs at a minute: the stops come after the starts in the file. -/
def effectAt (jobStart jobStop : List Job) (n : Nat) : Option Bool :=
  if jobStop.any (·.fires n) then some false else if jobStart.any (·.fires n) then some true else none

theorem foldl_runCommand {startCmd stopCmd : Text} {jobs : List Job} {value : Bool}
    (hvalue : ∀ j ∈ jobs, ∀ installed, runCommand startCmd stopCmd installed j = value) (n : Nat)
    (installed : Bool) :
    (jobs.filter (·.fires n)).foldl (runCommand startCmd stopCmd) installed
      = if jobs.any (·.fires n) then value else installed := by
  induction jobs generalizing installed with
  | nil => rfl
  | cons j jobs ih =>
    have hrest := ih fun j' hj' => hvalue j' (List.mem_cons_of_mem j hj')
    rw [List.any_cons]
    cases hfires : j.fires n with
    | true =>
      simp only [List.filter_cons, hfires, if_true, List.foldl_cons, hvalue j List.mem_cons_self, hrest,
        Bool.true_or, ite_self]
    | false =>
      simp only [List.filter_cons, hfires, Bool.false_eq_true, if_false, hrest, Bool.false_or]

section

variable {startCmd stopCmd : Text} {jobStart jobStop : List Job} (hne : startCmd ≠ stopCmd)
  (hstart : ∀ j ∈ jobStart, j.command = startCmd) (hstop : ∀ j ∈ jobStop, j.command = stopCmd)
include hne hstart hstop

theorem runMinute_eq (n : Nat) (installed : Bool) :
    runMinute startCmd stopCmd (jobStart ++ jobStop) n installed
      = (effectAt jobStart jobStop n).getD installed := by
  have hon : ∀ j ∈ jobStart, ∀ b, runCommand startCmd stopCmd b j = true := by
    intro j hj b
    rw [runCommand, if_pos (hstart j hj)]
  have hoff : ∀ j ∈ jobStop, ∀ b, runCommand startCmd stopCmd b j = false := by
    intro j hj b
    rw [runCommand, hstop j hj, if_neg hne.symm, if_pos rfl]
  rw [runMinute, List.filter_append, List.foldl_append, foldl_runCommand hon, foldl_runCommand hoff,
    effectAt]
  split
  · rfl
  · split <;> rfl

theorem installedAfter_eq (start : Nat) (installed : Bool) (n : Nat) :
    installedAfter startCmd stopCmd (jobStart ++ jobStop) start installed n
      = Latch.value (effectAt jobStart jobStop) start installed n := by
  induction n with
  | zero => rfl
  | succ n ih => rw [installedAfter, ih, runMinute_eq hne hstart hstop, Latch.value]

end

theorem effectAt_none {jobStart jobStop : List Job} {n : Nat} :
    effectAt jobStart jobStop n = none ↔ ∀ j ∈ jobStart ++ jobStop, j.fires n = false := by
  have hquiet : (∀ j ∈ jobStart ++ jobStop, j.fires n = false)
      ↔ jobStop.any (·.fires n) = false ∧ jobStart.any (·.fires n) = false := by
    simp only [List.mem_append, List.any_eq_false, Bool.not_eq_true, or_imp, forall_and, and_comm]
  rw [hquiet, effectAt]
  cases jobStop.any (·.fires n) <;> cases jobStart.any (·.fires n) <;> simp

theorem dayOf_add_week (n : Nat) : dayOf (n + minutesPerWeek) = dayOf n := by
  rw [dayOf, dayOf, minutesPerWeek, minutesPerDay]
  omega

theorem minuteOf_add_week (n : Nat) : minuteOf (n + minutesPerWeek) = minuteOf n := by
  rw [minuteOf, minuteOf, minutesPerWeek, minutesPerDay]
  omega

theorem fires_add_week (j : Job) (n : Nat) : j.fires (n + minutesPerWeek) = j.fires n := by
  have hminute : (n + minutesPerWeek) % 60 = n % 60 := by
    rw [minutesPerWeek]
    omega
  have hhour : (n + minutesPerWeek) / 60 % 24 = n / 60 % 24 := by
    rw [minutesPerWeek]
    omega
  rw [Job.fires, Job.fires, dayOf_add_week, hminute, hhour]

theorem effectAt_add_week (jobStart jobStop : List Job) (n : Nat) :
    effectAt jobStart jobStop (n + minutesPerWeek) = effectAt jobStart jobStop n := by
  simp only [effectAt, fires_add_week]

section

variable {es : List Entry} {t : Times} (hcollected : Collected es Times.none t)
  (hclocked : ∀ e ∈ es, e.Clocked) (htimed : ∀ e ∈ es, ¬ e.WholeDay)
include hcollected htimed

theorem Collected.mem_start (st : Text) : st ∈ t.start ↔ ∃ e ∈ es, e.startClock = st := by
  rw [hcollected.start]
  constructor
  · intro hst
    rcases hst with hnil | ⟨e, hmem, _, hclock⟩
    · exact absurd hnil List.not_mem_nil
    · exact ⟨e, hmem, hclock⟩
  · intro ⟨e, hmem, hclock⟩
    exact .inr ⟨e, hmem, htimed e hmem, hclock⟩

theorem Collected.mem_stop (st : Text) : st ∈ t.stop ↔ ∃ e ∈ es, e.stopClock = st := by
  rw [hcollected.stop]
  constructor
  · intro hst
    rcases hst with hnil | ⟨e, hmem, _, hclock⟩
    · exact absurd hnil List.not_mem_nil
    · exact ⟨e, hmem, hclock⟩
  · intro ⟨e, hmem, hclock⟩
    exact .inr ⟨e, hmem, htimed e hmem, hclock⟩

include hclocked

variable {host : Host} {command : Text} {moments : List Moment} {jobs : List Job}

theorem Collected.jobStart_fires (hmoments : t.start.mapM (startMoment t.days) = .ok moments)
    (hjobs : moments.mapM (newJob host command) = .ok jobs) (n : Nat) :
    jobs.any (·.fires n) = true ↔ Starts es n := by
  have hmem := mem_jobs (hcollected.mem_start htimed) (fun e => Entry.startMoment_eq hclocked) hmoments hjobs
  rw [List.any_eq_true]
  constructor
  · intro ⟨j, hj, hfires⟩
    obtain ⟨e, he, hjob⟩ := (hmem j).mp hj
    rw [hcollected.startJob hclocked htimed he, Except.ok.injEq] at hjob
    rw [← hjob, fires_iff (hclocked e he).startHour.2 (hclocked e he).startMin.2,
      hcollected.mem_startDays htimed] at hfires
    exact ⟨hfires.2.1, e, he, hfires.1, hfires.2.2⟩
  · intro ⟨hday, e, he, hminute, hmidnight⟩
    refine ⟨_, (hmem _).mpr ⟨e, he, hcollected.startJob hclocked htimed he⟩, ?_⟩
    rw [fires_iff (hclocked e he).startHour.2 (hclocked e he).startMin.2, hcollected.mem_startDays htimed]
    exact ⟨hminute, hday, hmidnight⟩

/-- When the job of a stop fires. -/
theorem Collected.stopJob_fires {e : Entry} (he : e ∈ es) {j : Job}
    (hjob : newJob host command (e.stopMoment t.days) = .ok j) (n : Nat) :
    j.fires n = true ↔
      e.stopClock ≠ "23:59".toList ∧ e.stopMinute = minuteOf n ∧ InDays es (dayOf n)
        ∨ e.stopClock = "23:59".toList ∧ 0 = minuteOf n ∧ InDays es (dayBefore (dayOf n))
          ∧ ¬ InDays es (dayOf n) := by
  have hdated := hcollected.dated ⟨e, he⟩
  rw [Entry.stopMoment] at hjob
  split at hjob
  · rename_i hlate
    have hdays : midnightDays t.days ≠ [] := by
      intro hnil
      rw [hnil] at hjob
      exact newJob_nil host command _ _ j hjob
    rw [newJob_ok host command (by decide) (by decide) hdays
      fun d hd => ((hcollected.mem_midnightDays htimed d).mp hd).1, Except.ok.injEq] at hjob
    rw [← hjob, fires_iff (by decide) (by decide), hcollected.mem_midnightDays htimed]
    have hlt : dayOf n < 7 := Nat.mod_lt _ (by decide)
    simp only [hlate, hlt, ne_eq, not_true_eq_false, false_and, true_and, false_or]
    rfl
  · rename_i hearly
    have hdays : inOrder t.days ≠ [] := by
      obtain ⟨d, hd⟩ := hdated.day e he
      exact List.ne_nil_of_mem ((hcollected.mem_inOrder htimed d).mpr ⟨e, he, hd⟩)
    rw [newJob_ok host command (hclocked e he).stopHour (hclocked e he).stopMin hdays
      fun d hd => hdated.inDays_lt ((hcollected.mem_inOrder htimed d).mp hd), Except.ok.injEq] at hjob
    rw [← hjob, fires_iff (hclocked e he).stopHour.2 (hclocked e he).stopMin.2,
      hcollected.mem_inOrder htimed]
    simp only [hearly, ne_eq, not_false_eq_true, true_and, false_and, or_false]
    rfl

theorem Collected.jobStop_fires (hmoments : t.stop.mapM (stopMoment t.days) = .ok moments)
    (hjobs : moments.mapM (newJob host command) = .ok jobs) (n : Nat) :
    jobs.any (·.fires n) = true ↔ Stops es n := by
  have hmem := mem_jobs (hcollected.mem_stop htimed) (fun e => Entry.stopMoment_eq hclocked) hmoments hjobs
  have hall := (exists_jobs_iff (hcollected.mem_stop htimed) (fun e => Entry.stopMoment_eq hclocked)
    hmoments).mp ⟨jobs, hjobs⟩
  rw [List.any_eq_true]
  constructor
  · intro ⟨j, hj, hfires⟩
    obtain ⟨e, he, hjob⟩ := (hmem j).mp hj
    rcases (hcollected.stopJob_fires hclocked htimed he hjob n).mp hfires with
      ⟨hearly, hminute, hday⟩ | ⟨hlate, hminute, hbefore, hday⟩
    · exact .inl ⟨hday, e, he, hminute, hearly⟩
    · exact .inr ⟨hday, hminute.symm, ⟨e, he, hlate⟩, hbefore⟩
  · intro hstops
    rcases hstops with ⟨hday, e, he, hminute, hearly⟩ | ⟨hday, hminute, ⟨e, he, hlate⟩, hbefore⟩
    · obtain ⟨j, hj⟩ := hall e he
      exact ⟨j, (hmem j).mpr ⟨e, he, hj⟩,
        (hcollected.stopJob_fires hclocked htimed he hj n).mpr (.inl ⟨hearly, hminute, hday⟩)⟩
    · obtain ⟨j, hj⟩ := hall e he
      exact ⟨j, (hmem j).mpr ⟨e, he, hj⟩,
        (hcollected.stopJob_fires hclocked htimed he hj n).mpr (.inr ⟨hlate, hminute.symm, hbefore, hday⟩)⟩

end

theorem Commands.of_any {es : List Entry} {jobStart jobStop : List Job}
    (hstart : ∀ n, jobStart.any (·.fires n) = true ↔ Starts es n)
    (hstop : ∀ n, jobStop.any (·.fires n) = true ↔ Stops es n) :
    Commands es (effectAt jobStart jobStop) := by
  constructor
  · intro n
    rw [← hstop, effectAt]
    cases jobStop.any (·.fires n) <;> cases jobStart.any (·.fires n) <;> simp
  · intro n
    rw [← hstop, ← hstart, effectAt]
    cases jobStop.any (·.fires n) <;> cases jobStart.any (·.fires n) <;> simp

/-! ### The rule -/

theorem covers_of_wholeDay {es : List Entry} {e : Entry} (hmem : e ∈ es) (hwhole : e.WholeDay) (n : Nat) :
    Covers es (dayOf n) (minuteOf n) := by
  have hday : dayOf n ∈ everyDay := by
    have hlt : dayOf n < 7 := Nat.mod_lt _ (by decide)
    simp only [everyDay, List.mem_cons, List.not_mem_nil, or_false]
    omega
  refine ⟨e, hmem, e.days_of_namedDays hwhole.days ▸ hday, ?_, ?_⟩
  · rw [Entry.startMinute, hwhole.2.1, hwhole.2.2.1]
    exact Nat.zero_le _
  · have hlt : minuteOf n < minutesPerDay := Nat.mod_lt _ (by decide)
    rw [Entry.stopMinute, hwhole.2.2.2.2.1, hwhole.2.2.2.2.2.1]
    exact Nat.le_of_lt_succ hlt

theorem installedAfter_nil (startCmd stopCmd : Text) (start : Nat) (installed : Bool) (n : Nat) :
    installedAfter startCmd stopCmd [] start installed n = installed := by
  induction n with
  | zero => rfl
  | succ n ih => rw [installedAfter, ih]; rfl

/-- Without a job and without the rule the entries are not enforced. -/
theorem WellTimed.not_enforces {es : List Entry} (htimed : WellTimed es) (startCmd stopCmd : Text)
    (file : Option Text) : ¬ Enforces startCmd stopCmd ⟨file, [], []⟩ es := by
  intro henforces
  obtain ⟨e, hmem⟩ := htimed.nonempty
  obtain ⟨d, hd⟩ := htimed.day e hmem
  have hm := htimed.start_lt hmem
  have hday : (d + 7) % 7 = d := by
    rw [Nat.add_mod_right]
    exact Nat.mod_eq_of_lt (htimed.day_lt e hmem d hd)
  have hlong : minutesPerWeek ≤ minutesPerDay * (d + 7) + e.startMinute := by
    rw [minutesPerWeek, minutesPerDay]
    omega
  have hcovers := henforces 0 _ hlong fun j hj => absurd hj List.not_mem_nil
  rw [Nat.zero_add, dayOf_add hm, minuteOf_add hm, hday, installedAfter_nil] at hcovers
  exact Bool.false_ne_true (hcovers.mpr ⟨e, hmem, hd, Nat.le_refl _, htimed.ordered e hmem⟩)

theorem WellTimed.enforces_regular {es : List Entry} (htimed : WellTimed es) {startCmd stopCmd : Text}
    {jobStart jobStop : List Job} (hne : startCmd ≠ stopCmd) (hstart : ∀ j ∈ jobStart, j.command = startCmd)
    (hstop : ∀ j ∈ jobStop, j.command = stopCmd) (hcommands : Commands es (effectAt jobStart jobStop))
    (file : Option Text) :
    Enforces startCmd stopCmd ⟨file, jobStart ++ jobStop, []⟩ es ↔ Regular es := by
  have hperiodic := effectAt_add_week jobStart jobStop
  obtain ⟨k, hk⟩ := htimed.exists_command hcommands
  have hmeant : ∀ n, Covers es (dayOf (n + minutesPerWeek)) (minuteOf (n + minutesPerWeek))
      ↔ Covers es (dayOf n) (minuteOf n) := by
    intro n
    rw [dayOf_add_week, minuteOf_add_week]
  have hagrees := @Latch.agrees_iff (effectAt jobStart jobStop) minutesPerWeek hperiodic
    (fun n => Covers es (dayOf n) (minuteOf n)) hmeant k hk (by decide) false
  rw [← htimed.regular_iff hcommands hperiodic, ← hagrees]
  simp only [Enforces, List.not_mem_nil, decide_false, installedAfter_eq hne hstart hstop, effectAt_none]

theorem startCommand_ne_stopCommand (ruleNum : Nat) (srcIp tarIp ports : Text) :
    startCommand ruleNum srcIp tarIp ports ≠ stopCommand ruleNum := by
  unfold startCommand stopCommand
  simp

theorem ipfwRules_ne {host : Host} {ruleNum : Nat} {srcIp tarIp ports proto startCmd stopCmd : Text}
    (hrules : ipfwRules host ruleNum srcIp tarIp ports proto = .ok (startCmd, stopCmd)) :
    startCmd ≠ stopCmd := by
  have hcmds : ∃ ports', (startCommand ruleNum srcIp tarIp ports', stopCommand ruleNum)
      = (startCmd, stopCmd) := by
    unfold ipfwRules at hrules
    split at hrules
    · obtain ⟨ports', _, hcmds⟩ := bind_ok.mp hrules
      exact ⟨ports', Except.ok.inj hcmds⟩
    · split at hrules
      · obtain ⟨ports', _, hcmds⟩ := bind_ok.mp hrules
        exact ⟨ports', Except.ok.inj hcmds⟩
      · obtain ⟨ports', _, hcmds⟩ := bind_ok.mp hrules
        exact ⟨ports', Except.ok.inj hcmds⟩
  obtain ⟨ports', hcmds⟩ := hcmds
  rw [Prod.mk.injEq] at hcmds
  rw [← hcmds.1, ← hcmds.2]
  exact startCommand_ne_stopCommand ruleNum srcIp tarIp ports'

/-- The jobs can all be made unless a stop is moved past the end of a row of days that has none. -/
theorem Collected.newJobs_iff {es : List Entry} {t : Times} (hcollected : Collected es Times.none t)
    (hclocked : ∀ e ∈ es, e.Clocked) (htimed : ∀ e ∈ es, ¬ e.WholeDay) {host : Host}
    {startCmd stopCmd : Text} {startStop : StartStop}
    (hstart : t.start.mapM (startMoment t.days) = .ok startStop.start)
    (hstop : t.stop.mapM (stopMoment t.days) = .ok startStop.stop) :
    (∃ jobs, newJobs host startCmd stopCmd startStop = .ok jobs) ↔ ¬ (LateStop es ∧ EveryDay es) := by
  have hstops := @exists_jobs_iff es host stopCmd _ _ _ _ _ (hcollected.mem_stop htimed)
    (fun e => Entry.stopMoment_eq hclocked) hstop
  constructor
  · intro ⟨jobs, hjobs⟩ ⟨⟨e, hmem, hlate⟩, hevery⟩
    obtain ⟨_, _, hrest⟩ := bind_ok.mp hjobs
    obtain ⟨jobStop, hjobStop, _⟩ := bind_ok.mp hrest
    obtain ⟨j, hj⟩ := hstops.mp ⟨jobStop, hjobStop⟩ e hmem
    have hdays : midnightDays t.days = [] := by
      rw [List.eq_nil_iff_forall_not_mem]
      intro d hd
      obtain ⟨hlt, _, hout⟩ := (hcollected.mem_midnightDays htimed d).mp hd
      exact hout (hevery d hlt)
    rw [Entry.stopMoment, if_pos hlate, hdays] at hj
    exact newJob_nil host stopCmd _ _ j hj
  · intro hends
    obtain ⟨jobStart, hjobStart⟩ := (@exists_jobs_iff es host startCmd _ _ _ _ _
      (hcollected.mem_start htimed) (fun e => Entry.startMoment_eq hclocked) hstart).mpr
      fun e hmem => ⟨_, hcollected.startJob hclocked htimed hmem⟩
    obtain ⟨jobStop, hjobStop⟩ := hstops.mpr fun e hmem =>
      hcollected.stopJob hclocked htimed hmem fun hlate hevery => hends ⟨⟨e, hmem, hlate⟩, hevery⟩
    exact ⟨jobStart ++ jobStop, bind_ok.mpr ⟨jobStart, hjobStart, bind_ok.mpr ⟨jobStop, hjobStop, rfl⟩⟩⟩

/-- **For every time string with its windows in order, the rule of the policy is installed exactly while an
entry is in force if and only if the policy is always on, or its stops at `23:59` have a midnight to be
moved to and its entries are regular.** -/
theorem enforced_iff (host : Host) (file : Option Text) (ruleNum : Nat)
    (timePer srcIp tarIp ports proto : Text) {startCmd stopCmd : Text} {startStop : StartStop}
    (hrules : ipfwRules host ruleNum srcIp tarIp ports proto = .ok (startCmd, stopCmd))
    (hruns : host.runs startCmd = true) (haccepted : parseTime timePer = .ok startStop)
    (hvalid : ∀ e ∈ entries timePer, e.Valid) :
    Enforces startCmd stopCmd
        (createCronJob host ⟨file, [], []⟩ [] ruleNum timePer srcIp tarIp ports proto).1 (entries timePer)
      ↔ (∃ e ∈ entries timePer, e.WholeDay)
        ∨ ¬ (LateStop (entries timePer) ∧ EveryDay (entries timePer)) ∧ Regular (entries timePer) := by
  have hclocked : ∀ e ∈ entries timePer, e.Clocked := fun e hmem => (hvalid e hmem).clocked
  obtain ⟨t, hcollected, hsome, hstart, hstop, hall⟩ := parseTime_ok haccepted hclocked
  have hwell := hcollected.wellTimed hvalid hsome
  by_cases hwhole : ∃ e ∈ entries timePer, e.WholeDay
  · have hon : startStop.all = true := hall.trans (hcollected.all.mpr (.inr hwhole))
    simp only [hwhole, true_or, iff_true]
    obtain ⟨e, hmem, hwhole⟩ := hwhole
    intro start n _ _
    have hinstalled : (createCronJob host ⟨file, [], []⟩ [] ruleNum timePer srcIp tarIp ports proto).1
        = ⟨file, [], [startCmd]⟩ := by
      simp [createCronJob, hrules, haccepted, hon, cmd, hruns]
    rw [hinstalled, installedAfter_nil]
    simp [covers_of_wholeDay hmem hwhole]
  · have htimed : ∀ e ∈ entries timePer, ¬ e.WholeDay := fun e hmem h => hwhole ⟨e, hmem, h⟩
    have hoff : startStop.all = false := hall.trans (hcollected.all_eq_false htimed)
    have hmade := @Collected.newJobs_iff _ _ hcollected hclocked htimed host startCmd stopCmd _ hstart hstop
    simp only [hwhole, false_or]
    cases hjobs : newJobs host startCmd stopCmd startStop with
    | error e =>
      have hraised : (createCronJob host ⟨file, [], []⟩ [] ruleNum timePer srcIp tarIp ports proto).1
          = ⟨file, [], []⟩ := by
        simp [createCronJob, hrules, haccepted, hoff, hjobs]
      rw [hraised]
      simp only [hwell.not_enforces, false_iff]
      intro ⟨hends, _⟩
      obtain ⟨jobs, hok⟩ := hmade.mpr hends
      rw [hjobs] at hok
      exact nomatch hok
    | ok jobs =>
      have hwritten : (createCronJob host ⟨file, [], []⟩ [] ruleNum timePer srcIp tarIp ports proto).1
          = ⟨file, jobs, []⟩ := by
        simp [createCronJob, hrules, haccepted, hoff, hjobs]
      have hends := hmade.mp ⟨jobs, hjobs⟩
      obtain ⟨jobStart, hjobStart, hrest⟩ := bind_ok.mp hjobs
      obtain ⟨jobStop, hjobStop, hjoined⟩ := bind_ok.mp hrest
      rw [hwritten, ← Except.ok.inj hjoined]
      have hcommands := Commands.of_any (hcollected.jobStart_fires hclocked htimed hstart hjobStart)
        (hcollected.jobStop_fires hclocked htimed hstop hjobStop)
      have hstartCmd : ∀ j ∈ jobStart, j.command = startCmd := by
        intro j hj
        obtain ⟨m, _, hjob⟩ := (mem_mapM_ok hjobStart).mp hj
        exact newJob_command hjob
      have hstopCmd : ∀ j ∈ jobStop, j.command = stopCmd := by
        intro j hj
        obtain ⟨m, _, hjob⟩ := (mem_mapM_ok hjobStop).mp hj
        exact newJob_command hjob
      rw [hwell.enforces_regular (ipfwRules_ne hrules) hstartCmd hstopCmd hcommands]
      simp only [hends, not_false_eq_true, true_and]

/-! ### A rule that stays on overnight -/

theorem installedAfter_add_quiet {startCmd stopCmd : Text} {jobs : List Job} {start n k : Nat}
    {installed : Bool} (hquiet : ∀ i < k, ∀ j ∈ jobs, j.fires (start + (n + i)) = false) :
    installedAfter startCmd stopCmd jobs start installed (n + k)
      = installedAfter startCmd stopCmd jobs start installed n := by
  induction k with
  | zero => rfl
  | succ k ih =>
    have hnone : jobs.filter (·.fires (start + (n + k))) = [] := by
      rw [List.filter_eq_nil_iff]
      intro j hj
      rw [hquiet k (Nat.lt_succ_self k) j hj]
      exact Bool.false_ne_true
    rw [← Nat.add_assoc, installedAfter, runMinute, hnone]
    exact ih fun i hi => hquiet i (Nat.lt_succ_of_lt hi)

/-- Mondays and Tuesdays from 8, with the stop left empty in the form. -/
def eveningTimes : Text := "Mon:08:00:00:23:59:59,Tue:08:00:00:23:59:59".toList

def eveningStart : Text := startCommand 0 "any".toList "any".toList "any".toList

/-- The two stops are one job, on the midnight after Tuesday. -/
def eveningJobs : List Job :=
  [⟨eveningStart, "root".toList, 0, 8, [1, 2]⟩, ⟨stopCommand 0, "root".toList, 0, 0, [3]⟩]

theorem eveningJobs_eq :
    (createCronJob Host.plain ⟨none, [], []⟩ [] 0 eveningTimes "any".toList "any".toList "any".toList
      ['*']).1 = ⟨none, eveningJobs, []⟩ := by decide

theorem eveningTimes_valid : ∀ e ∈ entries eveningTimes, e.Valid := by
  have hentries : entries eveningTimes =
      [⟨"Mon".toList, "08".toList, "00".toList, "00".toList, "23".toList, "59".toList, "59".toList⟩,
        ⟨"Tue".toList, "08".toList, "00".toList, "00".toList, "23".toList, "59".toList, "59".toList⟩] := by
    decide
  rw [hentries]
  intro e hmem
  rcases List.mem_cons.mp hmem with heq | hmem
  · rw [heq]
    constructor <;> decide
  · rw [List.mem_singleton.mp hmem]
    constructor <;> decide

theorem eveningTimes_accepted : ∃ startStop, parseTime eveningTimes = .ok startStop := ⟨_, rfl⟩

theorem enforced_iff_evening :
    Enforces eveningStart (stopCommand 0)
        (createCronJob Host.plain ⟨none, [], []⟩ [] 0 eveningTimes "any".toList "any".toList "any".toList
          ['*']).1 (entries eveningTimes)
      ↔ (∃ e ∈ entries eveningTimes, e.WholeDay)
        ∨ ¬ (LateStop (entries eveningTimes) ∧ EveryDay (entries eveningTimes))
          ∧ Regular (entries eveningTimes) :=
  enforced_iff Host.plain none 0 eveningTimes "any".toList "any".toList "any".toList ['*'] rfl rfl
    eveningTimes_accepted.choose_spec eveningTimes_valid

/-- From the start on Monday no job fires until Tuesday 00:01, and the rule is still installed. -/
theorem rule_stays_on :
    ¬ ∀ (host : Host) (file : Option Text) (ruleNum : Nat) (timePer srcIp tarIp ports proto : Text)
        (startCmd stopCmd : Text) (startStop : StartStop),
        ipfwRules host ruleNum srcIp tarIp ports proto = .ok (startCmd, stopCmd) →
        host.runs startCmd = true → parseTime timePer = .ok startStop →
        (∀ e ∈ entries timePer, e.Valid) →
        Enforces startCmd stopCmd
          (createCronJob host ⟨file, [], []⟩ [] ruleNum timePer srcIp tarIp ports proto).1
          (entries timePer) := by
  intro henforces
  have hevening := henforces Host.plain none 0 eveningTimes "any".toList "any".toList "any".toList ['*']
    eveningStart (stopCommand 0) _ rfl rfl eveningTimes_accepted.choose_spec eveningTimes_valid
  rw [eveningJobs_eq] at hevening
  have hquiet : ∀ i, i < 961 → ∀ j ∈ eveningJobs, j.fires (0 + (12001 + i)) = false := by
    intro i hi j hj
    simp only [eveningJobs, List.mem_cons, List.not_mem_nil, or_false] at hj
    rcases hj with hj | hj
    · simp only [hj, Job.fires, dayOf, minutesPerDay, List.mem_cons, List.not_mem_nil, or_false,
        decide_eq_false_iff_not]
      omega
    · simp only [hj, Job.fires, dayOf, minutesPerDay, List.mem_cons, List.not_mem_nil, or_false,
        decide_eq_false_iff_not]
      omega
  have hmonday : ∀ b, runMinute eveningStart (stopCommand 0) eveningJobs (0 + 12000) b = true := by
    decide
  have hinstalled : installedAfter eveningStart (stopCommand 0) eveningJobs 0 false (12000 + 1 + 960)
      = true := by
    rw [installedAfter_add_quiet fun i hi => hquiet i (Nat.lt_succ_of_lt hi), installedAfter]
    exact hmonday _
  obtain ⟨e, hmem, _, hstart, _⟩ := (hevening 0 12961 (by decide) (hquiet 960 (by decide))).mp hinstalled
  have hlate : ∀ e ∈ entries eveningTimes, ¬ e.startMinute ≤ minuteOf (0 + 12961) := by decide
  exact hlate e hmem hstart

end Armore.Filtering
