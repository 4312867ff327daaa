import Armore.Filtering.Enforcement
import Armore.Filtering.FormTimes

/-!
# The schedule of a form

Which forms the firewall code can schedule. `updatePolicyConfig` writes `Weekday`, which `parseTime` does not
know, and a stop at `23:59` has no day to be moved to when the days go all round the week, unless a row of
`Daily` is the whole day and no job is made.
-/

namespace Armore.Filtering

open Armore.Lib Armore.Lib.Text

/-! ### Numerals -/

theorem decimal_foldl_eq_zero {text : Text} (hdigits : ∀ c ∈ text, c.isDigit = true) (value : Nat) :
    text.foldl (fun value c => 10 * value + (c.toNat - 48)) value = 0 ↔ value = 0 ∧ ∀ c ∈ text, c = '0' := by
  induction text generalizing value with
  | nil => simp
  | cons c rest ih =>
      rw [List.foldl_cons, ih fun d hd => hdigits d (List.mem_cons_of_mem c hd), List.forall_mem_cons, ← and_assoc]
      refine and_congr_left fun _ => ?_
      obtain ⟨hlow, _⟩ := isDigit_toNat (hdigits c List.mem_cons_self)
      have hzero : c = '0' ↔ c.toNat = 48 := by
        rw [← Char.toNat_inj]
        rfl
      rw [hzero]
      omega

/-- Zero is spelled with zeros. -/
theorem decimal_eq_zero {text : Text} (hdecimal : IsDecimal text) : decimal text = 0 ↔ ∀ c ∈ text, c = '0' := by
  rw [decimal, decimal_foldl_eq_zero hdecimal.2 0]
  simp

namespace Numeral

variable {limit : Nat} (n : Numeral limit)

theorem notMem {c : Char} (hc : c.isDigit = false) : c ∉ n.text := by
  intro hmem
  rw [n.isDecimal.2 c hmem] at hc
  exact Bool.noConfusion hc

/-- A number of two digits has one spelling. -/
theorem text_eq (other : Text) (hother : IsDecimal other ∧ other.length = 2 ∧ 10 ≤ decimal other) :
    decimal n.text = decimal other ↔ n.text = other := by
  refine ⟨fun heq => ?_, fun heq => by rw [heq]⟩
  obtain ⟨hdecimal, hlength, hlarge⟩ := hother
  have hlast := n.short
  have hn := n.isDecimal.2
  match other, hlength with
  | [a, b], _ =>
      obtain ⟨ha, _⟩ := isDigit_toNat (hdecimal.2 a List.mem_cons_self)
      obtain ⟨hb, hb'⟩ := isDigit_toNat (hdecimal.2 b (List.mem_cons_of_mem a List.mem_cons_self))
      match htext : n.text with
      | [] => exact absurd htext n.isDecimal.1
      | [c] =>
          obtain ⟨hc, hc'⟩ := isDigit_toNat (hn c (by rw [htext]; exact List.mem_cons_self))
          rw [htext] at heq
          simp only [decimal, List.foldl_cons, List.foldl_nil] at heq hlarge
          omega
      | [c, d] =>
          obtain ⟨hc, _⟩ := isDigit_toNat (hn c (by rw [htext]; exact List.mem_cons_self))
          obtain ⟨hd, hd'⟩ := isDigit_toNat (hn d (by rw [htext]; exact List.mem_cons_of_mem c List.mem_cons_self))
          rw [htext] at heq
          simp only [decimal, List.foldl_cons, List.foldl_nil] at heq
          have hca : c = a := Char.toNat_inj.mp (by omega)
          have hdb : d = b := Char.toNat_inj.mp (by omega)
          rw [hca, hdb]
      | _ :: _ :: _ :: _ =>
          rw [htext] at hlast
          simp only [List.length_cons] at hlast
          omega

end Numeral

/-! ### The entries of a row -/

namespace Entry

def fields (e : Entry) : List Text :=
  [e.day, e.startHour, e.startMin, e.startSec, e.stopHour, e.stopMin, e.stopSec]

/-- The text of an entry in the time string. -/
def joined (e : Entry) : Text := [':'].intercalate e.fields

/-- Nothing in the entry takes it apart. -/
def Plain (e : Entry) : Prop := ∀ field ∈ e.fields, ':' ∉ field ∧ ',' ∉ field

theorem Plain.unpack_joined {e : Entry} (he : e.Plain) : Entry.unpack e.joined = .ok e := by
  rw [Entry.unpack, joined, List.splitOn_intercalate _ (fun field hfield => (he field hfield).1) (List.cons_ne_nil _ _)]
  rfl

theorem Plain.comma_notMem {e : Entry} (he : e.Plain) : ',' ∉ e.joined :=
  notMem_intercalate (by decide) fun field hfield => (he field hfield).2

end Entry

def Row.entry (r : Row) (day : Text) : Entry :=
  ⟨day, r.start.hour.text, r.start.min.text, r.start.sec.text, r.stop.hour.text, r.stop.min.text, r.stop.sec.text⟩

theorem Row.entry_clocked (r : Row) (day : Text) : (r.entry day).Clocked where
  startHour := ⟨r.start.hour.isDecimal, r.start.hour.lt⟩
  startMin := ⟨r.start.min.isDecimal, r.start.min.lt⟩
  startSec := ⟨r.start.sec.isDecimal, r.start.sec.lt⟩
  stopHour := ⟨r.stop.hour.isDecimal, r.stop.hour.lt⟩
  stopMin := ⟨r.stop.min.isDecimal, r.stop.min.lt⟩
  stopSec := ⟨r.stop.sec.isDecimal, r.stop.sec.lt⟩

theorem Row.entry_plain (r : Row) {day : Text} (hday : ':' ∉ day ∧ ',' ∉ day) : (r.entry day).Plain := by
  have hfield : ∀ {limit : Nat} (n : Numeral limit), ':' ∉ n.text ∧ ',' ∉ n.text := fun n =>
    ⟨n.notMem (by decide), n.notMem (by decide)⟩
  unfold Entry.Plain
  simp only [Entry.fields, Row.entry, List.forall_mem_cons, List.not_mem_nil, false_imp_iff, implies_true, and_true]
  exact ⟨hday, hfield _, hfield _, hfield _, hfield _, hfield _, hfield _⟩

theorem Row.joined_entry (r : Row) (day : Text) :
    (r.entry day).joined = day ++ ':' :: r.start.text ++ ':' :: r.stop.text := by
  simp [Entry.joined, Entry.fields, Row.entry, List.intercalate, ClockTime.text]

/-- The words for days that a form can have. -/
def dayWords : List Text :=
  ["Daily".toList, "Weekday".toList, "Mon".toList, "Tue".toList, "Wed".toList, "Thu".toList, "Fri".toList,
    "Weekend".toList, "Sat".toList, "Sun".toList]

theorem formDays_subset (formData : Form) : ∀ day ∈ formDays formData, day ∈ dayWords := by
  intro day hday
  unfold formDays at hday
  split at hday
  · rw [List.mem_singleton.mp hday]
    decide
  · have hweek : ∀ day ∈ ["Mon".toList, "Tue".toList, "Wed".toList, "Thu".toList, "Fri".toList], day ∈ dayWords := by
      decide
    have hend : ∀ day ∈ ["Sat".toList, "Sun".toList], day ∈ dayWords := by decide
    rcases List.mem_append.mp hday with hfirst | hlast
    · split at hfirst
      · rw [List.mem_singleton.mp hfirst]
        decide
      · exact hweek day (List.mem_of_mem_filter hfirst)
    · split at hlast
      · rw [List.mem_singleton.mp hlast]
        decide
      · exact hend day (List.mem_of_mem_filter hlast)

theorem dayWords_plain : ∀ day ∈ dayWords, ':' ∉ day ∧ ',' ∉ day := by decide

/-- The entries of the rows on the days of the form. -/
def rowEntries (rows : List Row) (days : List Text) : List Entry := rows.flatMap fun r => days.map r.entry

theorem mem_rowEntries {rows : List Row} {days : List Text} {e : Entry} :
    e ∈ rowEntries rows days ↔ ∃ r ∈ rows, ∃ day ∈ days, r.entry day = e := by
  simp only [rowEntries, List.mem_flatMap, List.mem_map]

theorem timeTexts_eq {formData : Form} {rows : List Row}
    (hrows : formRows formData = rows.map fun r => (r.start.text, r.stop.text)) :
    timeTexts formData = (rowEntries rows (formDays formData)).map Entry.joined := by
  simp only [timeTexts, hrows, rowEntries, List.flatMap_map, List.map_flatMap, List.map_map, Function.comp_def,
    Row.joined_entry]

/-! ### Parsing the entries -/

section

variable {es : List Entry} (hplain : ∀ e ∈ es, e.Plain)
include hplain

theorem splitOn_joined (hne : es ≠ []) :
    ([','].intercalate (es.map Entry.joined)).splitOn ',' = es.map Entry.joined := by
  refine List.splitOn_intercalate _ ?_ (by simpa using hne)
  intro text htext
  obtain ⟨e, he, rfl⟩ := List.mem_map.mp htext
  exact (hplain e he).comma_notMem

theorem filterMap_joined :
    (es.map Entry.joined).filterMap (fun text => (Entry.unpack text).toOption) = es := by
  have hunpack : ∀ e ∈ es, (Entry.unpack e.joined).toOption = some e := by
    intro e he
    rw [(hplain e he).unpack_joined]
    rfl
  rw [List.filterMap_map]
  exact (List.filterMap_congr hunpack).trans List.filterMap_some

theorem entries_joined (hne : es ≠ []) : entries ([','].intercalate (es.map Entry.joined)) = es := by
  rw [entries, splitOn_joined hplain hne, filterMap_joined hplain]

/-- The loop returns when every entry names days. -/
theorem exists_foldlM_parseEntry (hclocked : ∀ e ∈ es, e.Clocked) (hnamed : ∀ e ∈ es, ∃ ds, namedDays e.day = .ok ds)
    (t : Times) : ∃ t', (es.map Entry.joined).foldlM parseEntry t = .ok t' := by
  induction es generalizing t with
  | nil => exact ⟨t, rfl⟩
  | cons e es ih =>
      have hentry : ∃ t', parseEntry t e.joined = .ok t' := by
        obtain ⟨ds, hds⟩ := hnamed e List.mem_cons_self
        rw [parseEntry, (hplain e List.mem_cons_self).unpack_joined]
        simp only [bind, Except.bind, (hclocked e List.mem_cons_self).isAll, hds]
        split
        · exact ⟨_, rfl⟩
        · exact ⟨_, rfl⟩
      obtain ⟨t', ht'⟩ := hentry
      rw [List.map_cons, List.foldlM_cons, ht']
      exact ih (fun e' he' => hplain e' (List.mem_cons_of_mem e he'))
        (fun e' he' => hclocked e' (List.mem_cons_of_mem e he'))
        (fun e' he' => hnamed e' (List.mem_cons_of_mem e he')) t'

end

/-- A time string of named days is parsed. -/
theorem parseTime_joined {es : List Entry} (hne : es ≠ []) (hplain : ∀ e ∈ es, e.Plain)
    (hclocked : ∀ e ∈ es, e.Clocked) (hnamed : ∀ e ∈ es, ∃ ds, namedDays e.day = .ok ds) :
    ∃ startStop, parseTime ([','].intercalate (es.map Entry.joined)) = .ok startStop := by
  obtain ⟨t, ht⟩ := exists_foldlM_parseEntry hplain hclocked hnamed Times.none
  have hcollected : Collected es Times.none t := by
    have hloop := (foldlM_parseEntry ht (by rwa [filterMap_joined hplain])).1
    rwa [filterMap_joined hplain] at hloop
  have hstart : ∀ st ∈ t.start, ∃ m, startMoment t.days st = .ok m := by
    intro st hst
    rcases (hcollected.start st).mp hst with hnil | ⟨e, he, _, rfl⟩
    · exact absurd hnil List.not_mem_nil
    · exact ⟨_, Entry.startMoment_eq hclocked he⟩
  have hstop : ∀ st ∈ t.stop, ∃ m, stopMoment t.days st = .ok m := by
    intro st hst
    rcases (hcollected.stop st).mp hst with hnil | ⟨e, he, _, rfl⟩
    · exact absurd hnil List.not_mem_nil
    · exact ⟨_, Entry.stopMoment_eq hclocked he⟩
  obtain ⟨start, hstart⟩ := exists_mapM_ok hstart
  obtain ⟨stop, hstop⟩ := exists_mapM_ok hstop
  refine ⟨⟨start, stop, t.all⟩, ?_⟩
  rw [parseTime, splitOn_joined hplain hne, ht]
  exact bind_ok.mpr ⟨t, rfl, bind_ok.mpr ⟨start, hstart, bind_ok.mpr ⟨stop, hstop, rfl⟩⟩⟩

/-! ### Making the jobs -/

/-- Every command runs and the files of both protocols are there. -/
structure Host.Works (host : Host) : Prop where
  runs : ∀ command, host.runs command = true
  modbusMain : host.modbusMain.isSome = true
  dnp3Main : host.dnp3Main.isSome = true

theorem Host.Works.getProtoPort {host : Host} (hworks : host.Works) (proto : Text) :
    ∃ ports, getProtoPort host proto = .ok ports := by
  have hfile : ∀ file : Option Text, file.isSome = true → ∃ ports, getProtoPort.ports file = .ok ports := by
    intro file hfile
    obtain ⟨theFile, rfl⟩ := Option.isSome_iff_exists.mp hfile
    rw [getProtoPort.ports]
    split <;> exact ⟨_, rfl⟩
  unfold Filtering.getProtoPort
  split
  · exact hfile _ hworks.modbusMain
  · split
    · exact hfile _ hworks.dnp3Main
    · exact ⟨_, rfl⟩

theorem Host.Works.ipfwRules {host : Host} (hworks : host.Works) (ruleNum : Nat) (srcIp tarIp ports proto : Text) :
    ∃ startCmd stopCmd, ipfwRules host ruleNum srcIp tarIp ports proto = .ok (startCmd, stopCmd) := by
  unfold Filtering.ipfwRules
  split
  · obtain ⟨_, hports⟩ := hworks.getProtoPort "modbus".toList
    exact ⟨_, _, bind_ok.mpr ⟨_, hports, rfl⟩⟩
  · split
    · obtain ⟨_, hports⟩ := hworks.getProtoPort "dnp3".toList
      exact ⟨_, _, bind_ok.mpr ⟨_, hports, rfl⟩⟩
    · exact ⟨_, _, rfl⟩

/-- A list of days that could be read has a day. -/
theorem newJob_dow_ne_nil {host : Host} {command : Text} {m : Moment} {j : Job}
    (hjob : newJob host command m = .ok j) : j.dow ≠ [] := by
  obtain ⟨_, _, hrest⟩ := bind_ok.mp hjob
  obtain ⟨_, _, hrest⟩ := bind_ok.mp hrest
  obtain ⟨dow, hdow, hj⟩ := bind_ok.mp hrest
  rw [← Except.ok.inj hj]
  intro hnil
  have hlength := (mapM_ok.mp hdow).length_eq
  rw [show dow = [] from hnil, List.length_nil, List.length_eq_zero_iff] at hlength
  exact List.splitOn_ne_nil _ _ hlength

theorem newJobs_dow_ne_nil {host : Host} {startCmd stopCmd : Text} {startStop : StartStop} {jobs : List Job}
    (hjobs : newJobs host startCmd stopCmd startStop = .ok jobs) : ∀ j ∈ jobs, j.dow ≠ [] := by
  obtain ⟨jobStart, hjobStart, hrest⟩ := bind_ok.mp hjobs
  obtain ⟨jobStop, hjobStop, hjoined⟩ := bind_ok.mp hrest
  intro j hj
  rw [← Except.ok.inj hjoined] at hj
  rcases List.mem_append.mp hj with hstart | hstop
  · obtain ⟨m, _, hjob⟩ := (mem_mapM_ok hjobStart).mp hstart
    exact newJob_dow_ne_nil hjob
  · obtain ⟨m, _, hjob⟩ := (mem_mapM_ok hjobStop).mp hstop
    exact newJob_dow_ne_nil hjob

/-- `parseTime` and `createCronJob` return, and every job that is added has a day. -/
structure Accepted (host : Host) (s : System) (cron : List Job) (ruleNum : Nat)
    (timePer srcIp tarIp ports proto : Text) : Prop where
  parsed : ∃ startStop, parseTime timePer = .ok startStop
  created : ∃ s' jobs, createCronJob host s cron ruleNum timePer srcIp tarIp ports proto
      = (s', .ok (ruleNum, cron ++ jobs)) ∧ ∀ j ∈ jobs, j.dow ≠ []

section

variable {host : Host} (hworks : host.Works) (s : System) (cron : List Job) (ruleNum : Nat)
  (srcIp tarIp ports proto : Text)
include hworks

theorem accepted_iff_newJobs {timePer : Text} {startStop : StartStop} (hparsed : parseTime timePer = .ok startStop)
    (hoff : startStop.all = false) :
    Accepted host s cron ruleNum timePer srcIp tarIp ports proto
      ↔ ∃ startCmd stopCmd jobs, ipfwRules host ruleNum srcIp tarIp ports proto = .ok (startCmd, stopCmd)
        ∧ newJobs host startCmd stopCmd startStop = .ok jobs := by
  obtain ⟨startCmd, stopCmd, hrules⟩ := hworks.ipfwRules ruleNum srcIp tarIp ports proto
  constructor
  · intro haccepted
    obtain ⟨_, s', jobs, hcreated, _⟩ := haccepted
    rw [createCronJob, hrules] at hcreated
    simp only [hparsed, hoff, Bool.false_eq_true, if_false] at hcreated
    cases hjobs : newJobs host startCmd stopCmd startStop with
    | error e =>
        rw [hjobs] at hcreated
        cases (Prod.mk.inj hcreated).2
    | ok jobs' => exact ⟨startCmd, stopCmd, jobs', hrules, hjobs⟩
  · intro hrulesJobs
    obtain ⟨startCmd', stopCmd', jobs, hrules', hjobs⟩ := hrulesJobs
    rw [hrules, Except.ok.injEq, Prod.mk.injEq] at hrules'
    obtain ⟨rfl, rfl⟩ := hrules'
    refine ⟨⟨startStop, hparsed⟩, { s with cronFile := cron ++ jobs }, jobs, ?_, newJobs_dow_ne_nil hjobs⟩
    rw [createCronJob, hrules]
    simp only [hparsed, hoff, hjobs, Bool.false_eq_true, if_false]

theorem accepted_of_all {timePer : Text} {startStop : StartStop} (hparsed : parseTime timePer = .ok startStop)
    (hon : startStop.all = true) : Accepted host s cron ruleNum timePer srcIp tarIp ports proto := by
  obtain ⟨startCmd, stopCmd, hrules⟩ := hworks.ipfwRules ruleNum srcIp tarIp ports proto
  refine ⟨⟨startStop, hparsed⟩, { s with firewall := s.firewall ++ [startCmd] }, [], ?_, nofun⟩
  rw [createCronJob, hrules, List.append_nil]
  simp only [hparsed, hon, if_true, cmd, hworks.runs startCmd]

/-- **When entries are accepted**: their days are named, and a whole day is among them or no stop is moved out of a
week without a gap. -/
theorem accepted_joined_iff {es : List Entry} (hne : es ≠ []) (hplain : ∀ e ∈ es, e.Plain)
    (hclocked : ∀ e ∈ es, e.Clocked) :
    Accepted host s cron ruleNum ([','].intercalate (es.map Entry.joined)) srcIp tarIp ports proto
      ↔ (∀ e ∈ es, ∃ ds, namedDays e.day = .ok ds)
        ∧ ((∃ e ∈ es, e.WholeDay) ∨ ¬ (LateStop es ∧ EveryDay es)) := by
  have hentries := entries_joined hplain hne
  by_cases hnamed : ∀ e ∈ es, ∃ ds, namedDays e.day = .ok ds
  · obtain ⟨startStop, hparsed⟩ := parseTime_joined hne hplain hclocked hnamed
    obtain ⟨t, hcollected, _, hstart, hstop, hall⟩ := parseTime_ok hparsed (by rwa [hentries])
    rw [hentries] at hcollected
    rw [and_iff_right hnamed]
    by_cases hwhole : ∃ e ∈ es, e.WholeDay
    · have hon : startStop.all = true := hall.trans (hcollected.all.mpr (.inr hwhole))
      exact iff_of_true (accepted_of_all hworks s cron ruleNum srcIp tarIp ports proto hparsed hon) (.inl hwhole)
    · have htimed : ∀ e ∈ es, ¬ e.WholeDay := fun e he h => hwhole ⟨e, he, h⟩
      have hoff : startStop.all = false := hall.trans (hcollected.all_eq_false htimed)
      obtain ⟨startCmd, stopCmd, hrules⟩ := hworks.ipfwRules ruleNum srcIp tarIp ports proto
      have hmade := @Collected.newJobs_iff _ _ hcollected hclocked htimed host startCmd stopCmd _ hstart hstop
      rw [accepted_iff_newJobs hworks s cron ruleNum srcIp tarIp ports proto hparsed hoff, or_iff_right hwhole, ← hmade]
      constructor
      · intro ⟨startCmd', stopCmd', jobs, hrules', hjobs⟩
        rw [hrules, Except.ok.injEq, Prod.mk.injEq] at hrules'
        obtain ⟨rfl, rfl⟩ := hrules'
        exact ⟨jobs, hjobs⟩
      · intro ⟨jobs, hjobs⟩
        exact ⟨startCmd, stopCmd, jobs, hrules, hjobs⟩
  · refine iff_of_false ?_ fun h => hnamed h.1
    intro ⟨⟨startStop, hparsed⟩, _⟩
    obtain ⟨t, hcollected, _⟩ := parseTime_ok hparsed (by rwa [hentries])
    rw [hentries] at hcollected
    exact hnamed hcollected.named

end

/-! ### What the entries of a form are -/

theorem ClockTime.splitOn_text (c : ClockTime) : c.text.splitOn ':' = [c.hour.text, c.min.text, c.sec.text] := by
  have hcolon : ∀ {limit : Nat} (n : Numeral limit), ':' ∉ n.text := fun n => n.notMem (by decide)
  rw [ClockTime.text, List.append_assoc, List.cons_append, List.splitOn_append_cons_self_of_not_mem (hcolon _),
    splitOn_join (hcolon _) (hcolon _)]

/-- All digits of the start are zero, and the stop is the last second of the day. -/
def AllDay (row : Text × Text) : Prop := (∀ c ∈ row.1, c = '0' ∨ c = ':') ∧ row.2 = "23:59:59".toList

/-- The stop is in the last minute of the day. -/
def StopsLate (row : Text × Text) : Prop := "23:59:".toList <+: row.2

/-- The days of the form are all days of the week. -/
def WeekTicked (formData : Form) : Prop :=
  ∀ d < 7, ∃ day ∈ formDays formData, ∃ ds, namedDays day = .ok ds ∧ d ∈ ds

theorem ClockTime.zero_iff (c : ClockTime) :
    decimal c.hour.text = 0 ∧ decimal c.min.text = 0 ∧ decimal c.sec.text = 0 ↔ ∀ d ∈ c.text, d = '0' ∨ d = ':' := by
  rw [decimal_eq_zero c.hour.isDecimal, decimal_eq_zero c.min.isDecimal, decimal_eq_zero c.sec.isDecimal]
  have hzero : ∀ {limit : Nat} (n : Numeral limit), (∀ d ∈ n.text, d = '0' ∨ d = ':') ↔ ∀ d ∈ n.text, d = '0' := by
    intro limit n
    refine forall₂_congr fun d hd => or_iff_left ?_
    rintro rfl
    exact n.notMem (by decide) hd
  simp only [ClockTime.text, List.forall_mem_append, List.forall_mem_cons, hzero, or_true, true_and, and_assoc]

theorem ClockTime.last_iff (c : ClockTime) :
    decimal c.hour.text = 23 ∧ decimal c.min.text = 59 ∧ decimal c.sec.text = 59 ↔ c.text = "23:59:59".toList := by
  have hhour : decimal c.hour.text = 23 ↔ c.hour.text = "23".toList := c.hour.text_eq "23".toList (by decide)
  have hmin : decimal c.min.text = 59 ↔ c.min.text = "59".toList := c.min.text_eq "59".toList (by decide)
  have hsec : decimal c.sec.text = 59 ↔ c.sec.text = "59".toList := c.sec.text_eq "59".toList (by decide)
  rw [hhour, hmin, hsec]
  constructor
  · intro ⟨h, m, s⟩
    rw [ClockTime.text, h, m, s]
    rfl
  · intro htext
    have hsplit := c.splitOn_text
    rw [htext] at hsplit
    have hpieces : "23:59:59".toList.splitOn ':' = ["23".toList, "59".toList, "59".toList] := by decide
    rw [hpieces, List.cons.injEq, List.cons.injEq, List.cons.injEq] at hsplit
    exact ⟨hsplit.1.symm, hsplit.2.1.symm, hsplit.2.2.1.symm⟩

theorem Row.wholeDay_iff (r : Row) {day : Text} (hday : day ∈ dayWords) :
    (r.entry day).WholeDay ↔ day = "Daily".toList ∧ AllDay (r.start.text, r.stop.text) := by
  have hdaily : ∀ day ∈ dayWords, lower day = "daily".toList ↔ day = "Daily".toList := by decide
  show lower day = _ ∧ _ ∧ _ ∧ _ ∧ _ ∧ _ ∧ _ ↔ _
  rw [hdaily day hday, AllDay, ← r.start.zero_iff, ← r.stop.last_iff]
  simp only [Row.entry, and_assoc]

theorem Row.late_iff (r : Row) (day : Text) :
    (r.entry day).stopClock = "23:59".toList ↔ StopsLate (r.start.text, r.stop.text) := by
  have hclock : (r.entry day).stopClock = clock r.stop.hour.text r.stop.min.text := rfl
  have htext : r.stop.text = clock r.stop.hour.text r.stop.min.text ++ ':' :: r.stop.sec.text := rfl
  rw [hclock, StopsLate]
  constructor
  · intro hlate
    exact ⟨r.stop.sec.text, by rw [htext, hlate]; rfl⟩
  · intro ⟨rest, hrest⟩
    have hsplit := r.stop.splitOn_text
    have hpieces : ("23:59:".toList ++ rest).splitOn ':' = "23".toList :: "59".toList :: rest.splitOn ':' := by
      show ("23".toList ++ ':' :: ("59".toList ++ ':' :: rest)).splitOn ':' = _
      rw [List.splitOn_append_cons_self_of_not_mem (by decide), List.splitOn_append_cons_self_of_not_mem (by decide)]
    have hrest : "23:59:".toList ++ rest = r.stop.text := hrest
    rw [← hrest, hpieces, List.cons.injEq, List.cons.injEq] at hsplit
    rw [← hsplit.1, ← hsplit.2.1]
    rfl

/-- Of the words of a form only `Weekday` is not known. -/
theorem namedDays_iff {day : Text} (hday : day ∈ dayWords) : (∃ ds, namedDays day = .ok ds) ↔ day ≠ "Weekday".toList := by
  have hwords : ∀ day ∈ dayWords, (namedDays day).isOk = decide (day ≠ "Weekday".toList) := by decide
  have hok := hwords day hday
  cases hnamed : namedDays day with
  | ok ds =>
      rw [hnamed] at hok
      exact iff_of_true ⟨ds, rfl⟩ (of_decide_eq_true hok.symm)
  | error e =>
      rw [hnamed] at hok
      exact iff_of_false (fun ⟨_, h⟩ => nomatch h) (of_decide_eq_false hok.symm)

theorem formDays_ne_nil {formData : Form} (hday : ∃ box ∈ dayWords, formData.has box = true) :
    formDays formData ≠ [] := by
  intro hnil
  obtain ⟨box, hbox, hhas⟩ := hday
  unfold formDays at hnil
  split at hnil
  · cases hnil
  · rename_i hdaily
    rw [List.append_eq_nil_iff] at hnil
    obtain ⟨hweek, hend⟩ := hnil
    split at hweek
    · cases hweek
    · rename_i hweekday
      split at hend
      · cases hend
      · rename_i hweekend
        rw [List.filter_eq_nil_iff] at hweek hend
        have hno : ∀ box ∈ dayWords, ¬ formData.has box = true := by
          simp only [dayWords, List.forall_mem_cons] at hweek hend ⊢
          exact ⟨hdaily, hweekday, hweek.1, hweek.2.1, hweek.2.2.1, hweek.2.2.2.1, hweek.2.2.2.2.1, hweekend,
            hend.1, hend.2.1, nofun⟩
        exact hno box hbox hhas

/-- No entry is under `Weekday`; and one of `Daily` is the whole day, or none stops in the last minute of the day, or
the days leave one out. -/
structure Schedulable (formData : Form) : Prop where
  known : "Weekday".toList ∉ formDays formData
  midnight : ("Daily".toList ∈ formDays formData ∧ ∃ row ∈ formRows formData, AllDay row)
    ∨ ¬ ((∃ row ∈ formRows formData, StopsLate row) ∧ WeekTicked formData)

section

variable {formData : Form} {rows : List Row} (hrows : formRows formData = rows.map fun r => (r.start.text, r.stop.text))
include hrows

theorem exists_formRows (P : Text × Text → Prop) :
    (∃ row ∈ formRows formData, P row) ↔ ∃ r ∈ rows, P (r.start.text, r.stop.text) := by
  rw [hrows]
  simp only [List.mem_map, exists_exists_and_eq_and]

theorem wholeDay_rowEntries :
    (∃ e ∈ rowEntries rows (formDays formData), e.WholeDay)
      ↔ "Daily".toList ∈ formDays formData ∧ ∃ row ∈ formRows formData, AllDay row := by
  rw [exists_formRows hrows]
  constructor
  · intro ⟨e, he, hwhole⟩
    obtain ⟨r, hr, day, hday, rfl⟩ := mem_rowEntries.mp he
    obtain ⟨rfl, hall⟩ := (r.wholeDay_iff (formDays_subset formData day hday)).mp hwhole
    exact ⟨hday, r, hr, hall⟩
  · intro ⟨hday, r, hr, hall⟩
    exact ⟨r.entry _, mem_rowEntries.mpr ⟨r, hr, _, hday, rfl⟩, (r.wholeDay_iff (by decide)).mpr ⟨rfl, hall⟩⟩

theorem lateStop_rowEntries (hdays : formDays formData ≠ []) :
    LateStop (rowEntries rows (formDays formData)) ↔ ∃ row ∈ formRows formData, StopsLate row := by
  rw [exists_formRows hrows]
  constructor
  · intro ⟨e, he, hlate⟩
    obtain ⟨r, hr, day, _, rfl⟩ := mem_rowEntries.mp he
    exact ⟨r, hr, (r.late_iff day).mp hlate⟩
  · intro ⟨r, hr, hlate⟩
    obtain ⟨day, hday⟩ := List.exists_mem_of_ne_nil _ hdays
    exact ⟨r.entry day, mem_rowEntries.mpr ⟨r, hr, day, hday, rfl⟩, (r.late_iff day).mpr hlate⟩

omit hrows in
theorem everyDay_rowEntries (hne : rows ≠ []) :
    EveryDay (rowEntries rows (formDays formData)) ↔ WeekTicked formData := by
  refine forall₂_congr fun d _ => ?_
  constructor
  · intro hentry
    obtain ⟨e, he, hd⟩ := hentry
    obtain ⟨r, _, day, hday, rfl⟩ := mem_rowEntries.mp he
    rw [Entry.days] at hd
    cases hnamed : namedDays day with
    | ok ds =>
        rw [show (r.entry day).day = day from rfl, hnamed] at hd
        exact ⟨day, hday, ds, hnamed, hd⟩
    | error e =>
        rw [show (r.entry day).day = day from rfl, hnamed] at hd
        exact absurd hd List.not_mem_nil
  · intro hticked
    obtain ⟨day, hday, ds, hnamed, hd⟩ := hticked
    obtain ⟨r, hr⟩ := List.exists_mem_of_ne_nil rows hne
    refine ⟨r.entry day, mem_rowEntries.mpr ⟨r, hr, day, hday, rfl⟩, ?_⟩
    rw [Entry.days_of_namedDays (e := r.entry day) hnamed]
    exact hd

end

/-- **Which forms the firewall code accepts.** -/
theorem form_accepted_iff {host : Host} (hworks : host.Works) {formData : Form} (hgiven : formData.TimesGiven)
    (hrow : formTimes formData ≠ []) (hday : ∃ box ∈ dayWords, formData.has box = true) (s : System) (cron : List Job) (ruleNum : Nat)
    (srcIp tarIp ports proto : Text) :
    ∃ timeStr, formTimeStr formData = .ok timeStr
      ∧ (Accepted host s cron ruleNum timeStr.dropLast srcIp tarIp ports proto ↔ Schedulable formData) := by
  obtain ⟨timeStr, htimeStr, hstored⟩ := formTimeStr_eq hgiven.both
  obtain ⟨rows, hrows⟩ := hgiven.exists_rows
  have hne : rows ≠ [] := by
    rintro rfl
    rw [List.map_nil, formRows, List.map_eq_nil_iff] at hrows
    exact hrow hrows
  have hdays := formDays_ne_nil hday
  have hentries : rowEntries rows (formDays formData) ≠ [] := by
    obtain ⟨r, hr⟩ := List.exists_mem_of_ne_nil rows hne
    obtain ⟨day, hmem⟩ := List.exists_mem_of_ne_nil _ hdays
    exact List.ne_nil_of_mem (mem_rowEntries.mpr ⟨r, hr, day, hmem, rfl⟩)
  have hplain : ∀ e ∈ rowEntries rows (formDays formData), e.Plain := by
    intro e he
    obtain ⟨r, _, day, hmem, rfl⟩ := mem_rowEntries.mp he
    exact r.entry_plain (dayWords_plain day (formDays_subset formData day hmem))
  have hclocked : ∀ e ∈ rowEntries rows (formDays formData), e.Clocked := by
    intro e he
    obtain ⟨r, _, day, _, rfl⟩ := mem_rowEntries.mp he
    exact r.entry_clocked day
  have hnamed : (∀ e ∈ rowEntries rows (formDays formData), ∃ ds, namedDays e.day = .ok ds)
      ↔ "Weekday".toList ∉ formDays formData := by
    constructor
    · intro h hmem
      obtain ⟨r, hr⟩ := List.exists_mem_of_ne_nil rows hne
      have hknown := h _ (mem_rowEntries.mpr ⟨r, hr, _, hmem, rfl⟩)
      have hword : "Weekday".toList ∈ dayWords := by decide
      exact (namedDays_iff hword).mp hknown rfl
    · intro h e he
      obtain ⟨r, _, day, hmem, rfl⟩ := mem_rowEntries.mp he
      exact (namedDays_iff (formDays_subset formData day hmem)).mpr fun heq => h (heq ▸ hmem)
  refine ⟨timeStr, htimeStr, ?_⟩
  rw [hstored, timeTexts_eq hrows,
    accepted_joined_iff hworks s cron ruleNum srcIp tarIp ports proto hentries hplain hclocked, hnamed,
    wholeDay_rowEntries hrows, lateStop_rowEntries hrows hdays, everyDay_rowEntries hne]
  exact ⟨fun h => ⟨h.1, h.2⟩, fun h => ⟨h.known, h.midnight⟩⟩

/-- A host with the files of both protocols. -/
def Host.equipped : Host := { Host.plain with modbusMain := some [], dnp3Main := some [] }

theorem equipped_works : Host.equipped.Works := ⟨fun _ => rfl, rfl, rfl⟩

/-- A form with empty times. -/
def allDayForm (day : String) (hnodup : ((Form.browserFields day "" "").map Prod.fst).Nodup) : Form :=
  ⟨Form.browserFields day "" "", hnodup⟩

def saturdays : Form := allDayForm "Sat" (by decide)

def workdays : Form := allDayForm "Weekday" Form.nodup_weekday

theorem saturdays_given : saturdays.TimesGiven where
  both := by decide
  value fd hfd htime := by
    have hempty : ∀ fd ∈ saturdays.fields, (searchTime fd.1).isSome = true → fd.2 = [] := by decide
    exact .inl (hempty fd hfd htime)

theorem workdays_given : workdays.TimesGiven where
  both := by decide
  value fd hfd htime := by
    have hempty : ∀ fd ∈ workdays.fields, (searchTime fd.1).isSome = true → fd.2 = [] := by decide
    exact .inl (hempty fd hfd htime)

theorem form_accepted_iff_saturdays :
    ∃ timeStr, formTimeStr saturdays = .ok timeStr
      ∧ (Accepted Host.equipped ⟨none, [], []⟩ [] 0 timeStr.dropLast [] [] [] [] ↔ Schedulable saturdays) :=
  form_accepted_iff equipped_works saturdays_given (by decide) ⟨"Sat".toList, by decide, by decide⟩ ⟨none, [], []⟩ []
    0 [] [] [] []

/-- The word that is written for the weekdays raises a `KeyError`. -/
theorem workdays_not_accepted :
    workdays.TimesGiven ∧ formTimes workdays ≠ [] ∧ workdays.has "Weekday".toList = true
      ∧ ∃ timeStr, formTimeStr workdays = .ok timeStr ∧ parseTime timeStr.dropLast = .error .keyError
        ∧ ¬ Accepted Host.equipped ⟨none, [], []⟩ [] 0 timeStr.dropLast [] [] [] [] := by
  refine ⟨workdays_given, by decide, by decide, "Weekday:00:00:00:23:59:59,".toList, by decide, by decide, ?_⟩
  intro ⟨⟨_, hparsed⟩, _⟩
  have hraises : parseTime "Weekday:00:00:00:23:59:59,".toList.dropLast = .error .keyError := by decide
  rw [hraises] at hparsed
  cases hparsed

end Armore.Filtering
