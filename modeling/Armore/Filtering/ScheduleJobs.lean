import Armore.Filtering.Switches

/-!
# From a time string to its jobs

What `parseTime` collects from the entries of a time string, and the jobs `newJobs` makes of it: which
minute of which days each of them fires at, and that they can all be made unless a stop was to be moved
past the end of a row of days that has none.
-/

namespace Armore.Filtering

open Armore.Lib Armore.Lib.Text

/-! ### The entries -/

theorem not_mem_colon {t : Text} (hdecimal : IsDecimal t) : ':' ∉ t :=
  fun hmem => absurd (hdecimal.2 ':' hmem) (by decide)

theorem splitOn_clock {hour min : Text} (hhour : IsDecimal hour) (hmin : IsDecimal min) :
    (clock hour min).splitOn ':' = [hour, min] :=
  splitOn_join (not_mem_colon hhour) (not_mem_colon hmin)

theorem intsAre_of_isDecimal {fields : List (Text × Nat)} (hdecimal : ∀ f ∈ fields, IsDecimal f.1) :
    intsAre (fields.map fun f => (f.1, (f.2 : Int))) = .ok (decide (∀ f ∈ fields, decimal f.1 = f.2)) := by
  induction fields with
  | nil => rfl
  | cons f fields ih =>
    rw [List.map_cons, intsAre, int_of_isDecimal (hdecimal f List.mem_cons_self)]
    simp only [Int.natCast_inj]
    split
    · rename_i heq
      rw [ih fun g hg => hdecimal g (List.mem_cons_of_mem f hg)]
      simp [heq]
    · rename_i hne
      simp [hne]

namespace Entry

/-- Hours, minutes and seconds are numbers in their range. -/
structure Clocked (e : Entry) : Prop where
  startHour : IsDecimal e.startHour ∧ decimal e.startHour < 24
  startMin : IsDecimal e.startMin ∧ decimal e.startMin < 60
  startSec : IsDecimal e.startSec ∧ decimal e.startSec < 60
  stopHour : IsDecimal e.stopHour ∧ decimal e.stopHour < 24
  stopMin : IsDecimal e.stopMin ∧ decimal e.stopMin < 60
  stopSec : IsDecimal e.stopSec ∧ decimal e.stopSec < 60

theorem Valid.clocked {e : Entry} (hvalid : e.Valid) : e.Clocked :=
  ⟨hvalid.startHour, hvalid.startMin, hvalid.startSec, hvalid.stopHour, hvalid.stopMin, hvalid.stopSec⟩

theorem Clocked.isAll {e : Entry} (hclocked : e.Clocked) : e.isAll = .ok (decide e.WholeDay) := by
  rw [Entry.isAll]
  split
  · rename_i hdaily
    have hints := @intsAre_of_isDecimal [(e.startHour, 0), (e.startMin, 0), (e.startSec, 0),
      (e.stopHour, 23), (e.stopMin, 59), (e.stopSec, 59)] (by
        simp [hclocked.startHour.1, hclocked.startMin.1, hclocked.startSec.1, hclocked.stopHour.1,
          hclocked.stopMin.1, hclocked.stopSec.1])
    have heq : intsAre [(e.startHour, 0), (e.startMin, 0), (e.startSec, 0), (e.stopHour, 23),
        (e.stopMin, 59), (e.stopSec, 59)] = _ := hints
    rw [heq]
    simp [WholeDay, hdaily]
  · rename_i hother
    have hnot : ¬ e.WholeDay := fun hwhole => hother hwhole.1
    rw [decide_eq_false hnot]

theorem Valid.ordered {e : Entry} (hvalid : e.Valid) : e.startMinute ≤ e.stopMinute := by
  have := hvalid.before
  have := hvalid.startSec.2
  have := hvalid.stopSec.2
  omega

theorem Valid.stop_lt {e : Entry} (hvalid : e.Valid) : e.stopMinute < minutesPerDay := by
  have := hvalid.stopHour.2
  have := hvalid.stopMin.2
  rw [stopMinute, minutesPerDay]
  omega

theorem clock_eq {hour min : Text} (hour' min' : Text) (hhour : IsDecimal hour) (hmin : IsDecimal min)
    (hsplit : (clock hour' min').splitOn ':' = [hour', min']) (hclock : clock hour min = clock hour' min') :
    hour = hour' ∧ min = min' := by
  have hpieces := splitOn_clock hhour hmin
  rw [hclock, hsplit] at hpieces
  simp only [List.cons.injEq, and_true] at hpieces
  exact ⟨hpieces.1.symm, hpieces.2.symm⟩

theorem Valid.start_midnight {e : Entry} (hvalid : e.Valid) (hclock : e.startClock = "00:00".toList) :
    e.startMinute = 0 := by
  obtain ⟨hhour, hmin⟩ := clock_eq "00".toList "00".toList hvalid.startHour.1
    hvalid.startMin.1 (by decide) hclock
  rw [startMinute, hhour, hmin]
  decide

theorem Valid.stop_late {e : Entry} (hvalid : e.Valid) (hclock : e.stopClock = "23:59".toList) :
    e.stopMinute + 1 = minutesPerDay := by
  obtain ⟨hhour, hmin⟩ := clock_eq "23".toList "59".toList hvalid.stopHour.1
    hvalid.stopMin.1 (by decide) hclock
  rw [stopMinute, hhour, hmin]
  decide

end Entry

/-! ### What `parseTime` collects -/

theorem DOW_lt {day : Text} {d : Nat} (hd : DOW day = some d) : d < 7 := by
  obtain ⟨before, after, hlist, _⟩ := List.lookup_eq_some_iff.mp hd
  have hsmall : ∀ pair ∈ before ++ (day, d) :: after, pair.2 < 7 := by
    rw [← hlist]
    decide
  exact hsmall (day, d) (List.mem_append_right _ List.mem_cons_self)

theorem namedDays_ok {day : Text} {ds : List Nat} (hnamed : namedDays day = .ok ds) :
    ds ≠ [] ∧ ∀ d ∈ ds, d < 7 := by
  rw [namedDays] at hnamed
  split at hnamed
  · rw [← Except.ok.inj hnamed]
    decide
  · split at hnamed
    · rw [← Except.ok.inj hnamed]
      decide
    · split at hnamed
      · rw [← Except.ok.inj hnamed]
        decide
      · split at hnamed
        · rename_i d hd
          rw [← Except.ok.inj hnamed]
          refine ⟨List.cons_ne_nil d [], fun d' hd' => ?_⟩
          rw [List.mem_singleton.mp hd']
          exact DOW_lt hd
        · exact nomatch hnamed

theorem Entry.days_of_namedDays {e : Entry} {ds : List Nat} (hnamed : namedDays e.day = .ok ds) :
    e.days = ds := by
  rw [Entry.days, hnamed]
  rfl

theorem Entry.WholeDay.days {e : Entry} (hwhole : e.WholeDay) : namedDays e.day = .ok everyDay := by
  rw [namedDays, if_pos hwhole.1]

/-- The sets after some entries: those of a whole day only set the flag. -/
structure Collected (es : List Entry) (t t' : Times) : Prop where
  named : ∀ e ∈ es, ∃ ds, namedDays e.day = .ok ds
  all : t'.all = true ↔ t.all = true ∨ ∃ e ∈ es, e.WholeDay
  days : ∀ d, d ∈ t'.days ↔ d ∈ t.days ∨ ∃ e ∈ es, ¬ e.WholeDay ∧ d ∈ e.days
  start : ∀ st, st ∈ t'.start ↔ st ∈ t.start ∨ ∃ e ∈ es, ¬ e.WholeDay ∧ e.startClock = st
  stop : ∀ st, st ∈ t'.stop ↔ st ∈ t.stop ∨ ∃ e ∈ es, ¬ e.WholeDay ∧ e.stopClock = st

theorem parseEntry_ok {t t' : Times} {text : Text} (hparse : parseEntry t text = .ok t') :
    ∃ e, Entry.unpack text = .ok e ∧ (e.Clocked → Collected [e] t t') := by
  obtain ⟨e, hunpack, hrest⟩ := bind_ok.mp hparse
  refine ⟨e, hunpack, fun hclocked => ?_⟩
  rw [hclocked.isAll] at hrest
  by_cases hwhole : e.WholeDay
  · rw [decide_eq_true hwhole] at hrest
    have ht : t' = { t with all := true } := (Except.ok.inj hrest).symm
    rw [ht]
    constructor <;> simp [hwhole, hwhole.days]
  · rw [decide_eq_false hwhole] at hrest
    change (namedDays e.day >>= _) = _ at hrest
    obtain ⟨ds, hnamed, ht⟩ := bind_ok.mp hrest
    rw [← Except.ok.inj ht]
    have hone : ∀ P : Entry → Prop, (∃ e' ∈ [e], ¬ e'.WholeDay ∧ P e') ↔ P e := by
      intro P
      simp [hwhole]
    constructor
    · intro e' hmem
      rw [List.mem_singleton.mp hmem]
      exact ⟨ds, hnamed⟩
    · simp [hwhole]
    · intro d
      rw [hone fun e => d ∈ e.days, e.days_of_namedDays hnamed, List.mem_union_iff, or_comm]
    · intro st
      rw [hone fun e => e.startClock = st, List.mem_insert_iff, or_comm, eq_comm]
      rfl
    · intro st
      rw [hone fun e => e.stopClock = st, List.mem_insert_iff, or_comm, eq_comm]
      rfl

theorem Collected.append {es : List Entry} {e : Entry} {t t' t'' : Times} (hfirst : Collected [e] t t')
    (hrest : Collected es t' t'') : Collected (e :: es) t t'' := by
  constructor
  · intro e' hmem
    rcases List.mem_cons.mp hmem with heq | hmem
    · exact heq ▸ hfirst.named e List.mem_cons_self
    · exact hrest.named e' hmem
  · rw [hrest.all, hfirst.all]
    simp [or_assoc]
  · intro d
    rw [hrest.days, hfirst.days]
    simp [or_assoc]
  · intro st
    rw [hrest.start, hfirst.start]
    simp [or_assoc]
  · intro st
    rw [hrest.stop, hfirst.stop]
    simp [or_assoc]

theorem foldlM_parseEntry {texts : List Text} {t t' : Times} (hparse : texts.foldlM parseEntry t = .ok t')
    (hclocked : ∀ e ∈ texts.filterMap fun text => (Entry.unpack text).toOption, e.Clocked) :
    Collected (texts.filterMap fun text => (Entry.unpack text).toOption) t t'
      ∧ (texts ≠ [] → ∃ e, e ∈ texts.filterMap fun text => (Entry.unpack text).toOption) := by
  induction texts generalizing t with
  | nil =>
    rw [← Except.ok.inj hparse]
    exact ⟨by constructor <;> simp, fun hne => absurd rfl hne⟩
  | cons text texts ih =>
    rw [List.foldlM_cons] at hparse
    obtain ⟨middle, hfirst, hrest⟩ := bind_ok.mp hparse
    obtain ⟨e, hunpack, hcollected⟩ := parseEntry_ok hfirst
    have hcons : (text :: texts).filterMap (fun text => (Entry.unpack text).toOption)
        = e :: texts.filterMap fun text => (Entry.unpack text).toOption := by
      rw [List.filterMap_cons, hunpack]
      rfl
    rw [hcons] at hclocked ⊢
    obtain ⟨hmore, _⟩ := ih hrest fun e' he' => hclocked e' (List.mem_cons_of_mem e he')
    exact ⟨(hcollected (hclocked e List.mem_cons_self)).append hmore, fun _ => ⟨e, List.mem_cons_self⟩⟩

theorem parseTime_ok {timePer : Text} {startStop : StartStop} (haccepted : parseTime timePer = .ok startStop)
    (hclocked : ∀ e ∈ entries timePer, e.Clocked) :
    ∃ t, Collected (entries timePer) Times.none t ∧ (∃ e, e ∈ entries timePer)
      ∧ t.start.mapM (startMoment t.days) = .ok startStop.start
      ∧ t.stop.mapM (stopMoment t.days) = .ok startStop.stop ∧ startStop.all = t.all := by
  obtain ⟨t, hfold, hrest⟩ := bind_ok.mp haccepted
  obtain ⟨start, hstart, hrest⟩ := bind_ok.mp hrest
  obtain ⟨stop, hstop, hresult⟩ := bind_ok.mp hrest
  obtain ⟨hcollected, hsome⟩ := foldlM_parseEntry hfold hclocked
  rw [← Except.ok.inj hresult]
  exact ⟨t, hcollected, hsome (List.splitOn_ne_nil _ _), hstart, hstop, rfl⟩

/-! ### The days of a job -/

theorem dowOn_str {d : Nat} (hd : d < 7) : dowOn (str d) = .ok d := by
  revert d
  decide

theorem mapM_dowOn_joinDays {ds : List Nat} (hne : ds ≠ []) (hlt : ∀ d ∈ ds, d < 7) :
    ((joinDays ds).splitOn ',').mapM dowOn = .ok ds := by
  have hcomma : ∀ d, d < 7 → ',' ∉ str d := by decide
  rw [joinDays, List.splitOn_intercalate]
  · rw [mapM_ok, List.forall₂_map_left_iff, List.forall₂_same]
    exact fun d hd => dowOn_str (hlt d hd)
  · intro piece hpiece
    obtain ⟨d, hd, hstr⟩ := List.mem_map.mp hpiece
    rw [← hstr]
    exact hcomma d (hlt d hd)
  · exact fun hnil => hne (List.map_eq_nil_iff.mp hnil)

theorem newJob_ok (host : Host) (command : Text) {hour min : Text} {ds : List Nat}
    (hhour : IsDecimal hour ∧ decimal hour < 24) (hmin : IsDecimal min ∧ decimal min < 60) (hne : ds ≠ [])
    (hlt : ∀ d ∈ ds, d < 7) :
    newJob host command ⟨joinDays ds, hour, min⟩
      = .ok ⟨command, "root".toList, decimal min, decimal hour, ds⟩ := by
  rw [newJob, slot, host.minuteOn_decimal min hmin.1, if_pos hmin.2, slot,
    host.hourOn_decimal hour hhour.1, if_pos hhour.2, mapM_dowOn_joinDays hne hlt]
  rfl

/-- A job needs a day. -/
theorem newJob_nil (host : Host) (command hour min : Text) (j : Job) :
    newJob host command ⟨joinDays [], hour, min⟩ ≠ .ok j := by
  intro hjob
  obtain ⟨_, _, hrest⟩ := bind_ok.mp hjob
  obtain ⟨_, _, hrest⟩ := bind_ok.mp hrest
  obtain ⟨_, hdow, _⟩ := bind_ok.mp hrest
  exact nomatch hdow

theorem fires_iff {command user hour min : Text} {ds : List Nat} (hhour : decimal hour < 24)
    (hmin : decimal min < 60) (n : Nat) :
    Job.fires ⟨command, user, decimal min, decimal hour, ds⟩ n = true
      ↔ 60 * decimal hour + decimal min = minuteOf n ∧ dayOf n ∈ ds := by
  rw [Job.fires, decide_eq_true_eq, ← and_assoc]
  apply and_congr_left'
  show n % 60 = decimal min ∧ n / 60 % 24 = decimal hour ↔ _
  rw [minuteOf, minutesPerDay]
  omega

/-- The days of a start. -/
def startDays (days : List Nat) (st : Text) : List Nat :=
  if st = "00:00".toList ∧ inOrder days ≠ everyDay then
    (inOrder days).filter fun d => dayBefore d ∉ inOrder days
  else inOrder days

/-- The days of a stop at `23:59`. -/
def midnightDays (days : List Nat) : List Nat :=
  ((inOrder days).filter fun d => (d + 1) % 7 ∉ inOrder days).map fun d => (d + 1) % 7

theorem mem_inOrder {days : List Nat} {d : Nat} : d ∈ inOrder days ↔ d < 7 ∧ d ∈ days := by
  have hevery : d ∈ everyDay ↔ d < 7 := by
    simp only [everyDay, List.mem_cons, List.not_mem_nil, or_false]
    omega
  rw [inOrder, List.mem_filter, hevery, decide_eq_true_eq]

theorem startMoment_eq (days : List Nat) {hour min : Text} (hhour : IsDecimal hour)
    (hmin : IsDecimal min) :
    startMoment days (clock hour min) = .ok ⟨joinDays (startDays days (clock hour min)), hour, min⟩ := by
  rw [startMoment, startDays, moment, splitOn_clock hhour hmin, moment, splitOn_clock hhour hmin]
  split <;> rfl

theorem stopMoment_eq (days : List Nat) {hour min : Text} (hhour : IsDecimal hour) (hmin : IsDecimal min)
    (hearly : clock hour min ≠ "23:59".toList) :
    stopMoment days (clock hour min) = .ok ⟨joinDays (inOrder days), hour, min⟩ := by
  rw [stopMoment, if_neg hearly, moment, splitOn_clock hhour hmin]

theorem stopMoment_late (days : List Nat) :
    stopMoment days "23:59".toList = .ok ⟨joinDays (midnightDays days), "00".toList, "00".toList⟩ := by
  rw [stopMoment, if_pos rfl]
  rfl

end Armore.Filtering
