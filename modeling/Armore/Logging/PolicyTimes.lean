import Armore.Lib.Text
import Mathlib.Data.List.Infix
import Mathlib.Tactic.IntervalCases

/-!
# The times of a logged policy

`policyLogging.bro`: `verifyTime` says whether a connection falls into one of the windows of a policy's time
string, from what `strftime` writes of its start time. The text of `%m` is taken for the minute, but it is the
month, so what is decided is whether the windows contain the time with the month in place of the minute.
-/

namespace Armore.Logging

open Lib Lib.Text

/-! ### The clock -/

inductive Weekday
  | sun
  | mon
  | tue
  | wed
  | thu
  | fri
  | sat
  deriving DecidableEq

/-- The name of a day in the C locale. -/
def Weekday.name : Weekday → Text
  | .sun => "Sun".toList
  | .mon => "Mon".toList
  | .tue => "Tue".toList
  | .wed => "Wed".toList
  | .thu => "Thu".toList
  | .fri => "Fri".toList
  | .sat => "Sat".toList

/-- What `localtime` makes of a time, without leap seconds. -/
structure Tm where
  weekday : Weekday
  month : Nat
  hour : Nat
  minute : Nat
  second : Nat
  month_pos : 1 ≤ month
  month_le : month ≤ 12
  hour_lt : hour < 24
  minute_lt : minute < 60
  second_lt : second < 60

/-- The conversions of `strftime` that are used. -/
inductive Conversion
  | a
  | H
  | m
  | S

def twoDigits (n : Nat) : Text := [Nat.digitChar (n / 10), Nat.digitChar (n % 10)]

def strftime : Conversion → Tm → Text
  | .a, t => t.weekday.name
  | .H, t => twoDigits t.hour
  | .m, t => twoDigits t.month
  | .S, t => twoDigits t.second

/-- `isspace` in the C locale. -/
def isBlank (c : Char) : Bool := c = ' ' ∨ (9 ≤ c.toNat ∧ c.toNat ≤ 13)

/-- `to_int`: `strtol` in base ten. -/
def toInt (str : Text) : Int :=
  match str.dropWhile isBlank with
  | '-' :: rest => max (-(2 ^ 63)) (-(leading rest : Int))
  | '+' :: rest => min (2 ^ 63 - 1) (leading rest)
  | rest => min (2 ^ 63 - 1) (leading rest)
where
  /-- The number of the digits at the front. -/
  leading (text : Text) : Nat := decimal (text.takeWhile Char.isDigit)

/-! ### The functions -/

/-- The six elements of the vector `fTime`. -/
structure Window where
  aHour : Text
  aMin : Text
  aSec : Text
  bHour : Text
  bMin : Text
  bSec : Text

def orStar (field default : Text) : Text := if field = ['*'] then default else field

def isBetween (t : Tm) (f : Window) : Bool :=
  let hour := toInt (strftime .H t)
  let min := toInt (strftime .m t)
  let sec := toInt (strftime .S t)
  let aHour := orStar f.aHour "0".toList
  let bHour := orStar f.bHour "23".toList
  let aMin := orStar f.aMin "0".toList
  let bMin := orStar f.bMin "59".toList
  let aSec := orStar f.aSec "0".toList
  let bSec := orStar f.bSec "59".toList
  let aTot := toInt aHour * 3600 + toInt aMin * 60 + toInt aSec
  let bTot := toInt bHour * 3600 + toInt bMin * 60 + toInt bSec
  let tTot := hour * 3600 + min * 60 + sec
  tTot ≥ aTot && tTot ≤ bTot

/-- A pattern of words, as `/../ in text`. -/
def matchesAny (words : List Text) (text : Text) : Bool := words.any fun word => word <:+: text

/-- The body of the loop over the entries: whether `flag` is set. -/
def entryHolds (t : Tm) (dow day : Text) (fTime : Window) : Bool :=
  if day = "Daily".toList && isBetween t fTime then true
  else if day = "Weekday".toList
      && matchesAny ["Mon".toList, "Tue".toList, "Wed".toList, "Thu".toList, "Fri".toList] dow
      && isBetween t fTime then true
  else if day = "Weekend".toList && matchesAny ["Sat".toList, "Sun".toList] dow && isBetween t fTime then true
  else day = dow && isBetween t fTime

/-- `none` when an index is out of range, which is a runtime error. -/
def verifyTime (t : Tm) (f : Text) : Option Bool :=
  (f.splitOn ',').foldlM (fun flag entry =>
    match entry.splitOn ':' with
    | day :: aHour :: aMin :: aSec :: bHour :: bMin :: bSec :: _ =>
        some (if entryHolds t (strftime .a t) day ⟨aHour, aMin, aSec, bHour, bMin, bSec⟩ then true else flag)
    | _ => none) false

/-! ### The policies -/

/-- A field of a clock time: a star or a number below a limit. -/
structure ClockField (limit : Nat) where
  text : Text
  valid : text = ['*'] ∨ IsDecimal text ∧ decimal text < limit

/-- The number of a field, when a star stands for the given one. -/
def ClockField.value {limit : Nat} (field : ClockField limit) (star : Nat) : Nat :=
  if field.text = ['*'] then star else decimal field.text

/-- The words for days, with the days they stand for. -/
def dayWords : List (Text × List Weekday) :=
  [("Daily".toList, [.sun, .mon, .tue, .wed, .thu, .fri, .sat]), ("Weekday".toList, [.mon, .tue, .wed, .thu, .fri]),
    ("Weekend".toList, [.sat, .sun]), ("Sun".toList, [.sun]), ("Mon".toList, [.mon]), ("Tue".toList, [.tue]),
    ("Wed".toList, [.wed]), ("Thu".toList, [.thu]), ("Fri".toList, [.fri]), ("Sat".toList, [.sat])]

/-- An entry `Day:HH:MM:SS:HH:MM:SS`. -/
structure PolicyEntry where
  day : Text
  days : List Weekday
  startHour : ClockField 24
  startMin : ClockField 60
  startSec : ClockField 60
  stopHour : ClockField 24
  stopMin : ClockField 60
  stopSec : ClockField 60
  day_mem : (day, days) ∈ dayWords

namespace PolicyEntry

def fields (e : PolicyEntry) : List Text :=
  [e.day, e.startHour.text, e.startMin.text, e.startSec.text, e.stopHour.text, e.stopMin.text, e.stopSec.text]

def text (e : PolicyEntry) : Text := [':'].intercalate e.fields

/-- The start in seconds since midnight. -/
def start (e : PolicyEntry) : Nat := e.startHour.value 0 * 3600 + e.startMin.value 0 * 60 + e.startSec.value 0

def stop (e : PolicyEntry) : Nat := e.stopHour.value 23 * 3600 + e.stopMin.value 59 * 60 + e.stopSec.value 59

end PolicyEntry

/-- The time string of a policy, which has an entry. -/
structure PolicyTimes where
  entries : List PolicyEntry
  nonempty : entries ≠ []

def PolicyTimes.text (f : PolicyTimes) : Text := [','].intercalate (f.entries.map PolicyEntry.text)

namespace Tm

def secondOfDay (t : Tm) : Nat := t.hour * 3600 + t.minute * 60 + t.second

/-- The time as `isBetween` reads it. -/
def misread (t : Tm) : Tm := { t with minute := t.month, minute_lt := by have := t.month_le; omega }

end Tm

/-- The day is one of the entry's and the time of day is between its start and its stop. -/
def PolicyEntry.Covers (e : PolicyEntry) (t : Tm) : Prop :=
  t.weekday ∈ e.days ∧ e.start ≤ t.secondOfDay ∧ t.secondOfDay ≤ e.stop

instance (e : PolicyEntry) (t : Tm) : Decidable (e.Covers t) :=
  inferInstanceAs (Decidable (t.weekday ∈ e.days ∧ e.start ≤ t.secondOfDay ∧ t.secondOfDay ≤ e.stop))

def PolicyTimes.Covers (f : PolicyTimes) (t : Tm) : Prop := ∃ e ∈ f.entries, e.Covers t

instance (f : PolicyTimes) (t : Tm) : Decidable (f.Covers t) :=
  inferInstanceAs (Decidable (∃ e ∈ f.entries, e.Covers t))

/-! ### Reading numbers -/

theorem toInt_of_isDecimal {text : Text} (htext : IsDecimal text) (hsmall : decimal text < 2 ^ 63) :
    toInt text = decimal text := by
  obtain ⟨hne, hdigits⟩ := htext
  obtain ⟨c, rest, rfl⟩ := List.exists_cons_of_ne_nil hne
  have hc := hdigits c List.mem_cons_self
  have hblank : isBlank c = false := by
    obtain ⟨hlow, _⟩ := isDigit_toNat hc
    rw [isBlank, decide_eq_false_iff_not, not_or]
    refine ⟨fun heq => ?_, by omega⟩
    rw [heq] at hlow
    exact absurd hlow (by decide)
  have hleading : toInt.leading (c :: rest) = decimal (c :: rest) := by
    rw [toInt.leading, List.takeWhile_eq_self_iff.mpr hdigits]
  rw [toInt, List.dropWhile_cons_of_neg (by rw [hblank]; exact Bool.false_ne_true)]
  -- a digit is no sign
  split
  · rename_i heq
    rw [(List.cons.inj heq).1] at hc
    exact absurd hc (by decide)
  · rename_i heq
    rw [(List.cons.inj heq).1] at hc
    exact absurd hc (by decide)
  · rw [hleading]
    omega

theorem decimal_twoDigits : ∀ n < 100, IsDecimal (twoDigits n) ∧ decimal (twoDigits n) = n := by decide

theorem toInt_twoDigits {n : Nat} (hn : n < 100) : toInt (twoDigits n) = n := by
  obtain ⟨hdecimal, hvalue⟩ := decimal_twoDigits n hn
  rw [toInt_of_isDecimal hdecimal (by omega), hvalue]

/-- A star is replaced by the text of its number. -/
theorem toInt_orStar {limit : Nat} (hlimit : limit < 2 ^ 63) (field : ClockField limit) {default : Text} (star : Nat)
    (hstar : toInt default = star) : toInt (orStar field.text default) = field.value star := by
  rw [orStar, ClockField.value]
  split
  · exact hstar
  · rename_i hnumber
    obtain ⟨hdecimal, hsmall⟩ := field.valid.resolve_left hnumber
    exact toInt_of_isDecimal hdecimal (by omega)

/-- The comparison is of the misread time. -/
theorem isBetween_eq (t : Tm) (e : PolicyEntry) :
    isBetween t ⟨e.startHour.text, e.startMin.text, e.startSec.text, e.stopHour.text, e.stopMin.text, e.stopSec.text⟩
      = decide (e.start ≤ t.misread.secondOfDay ∧ t.misread.secondOfDay ≤ e.stop) := by
  have hhour : toInt (strftime .H t) = t.hour := toInt_twoDigits (by have := t.hour_lt; omega)
  have hmonth : toInt (strftime .m t) = t.month := toInt_twoDigits (by have := t.month_le; omega)
  have hsecond : toInt (strftime .S t) = t.second := toInt_twoDigits (by have := t.second_lt; omega)
  unfold isBetween
  dsimp only
  rw [hhour, hmonth, hsecond, toInt_orStar (by decide) e.startHour 0 (by decide),
    toInt_orStar (by decide) e.startMin 0 (by decide),
    toInt_orStar (by decide) e.startSec 0 (by decide),
    toInt_orStar (by decide) e.stopHour 23 (by decide),
    toInt_orStar (by decide) e.stopMin 59 (by decide),
    toInt_orStar (by decide) e.stopSec 59 (by decide), ← Bool.decide_and, decide_eq_decide]
  simp only [PolicyEntry.start, PolicyEntry.stop, Tm.secondOfDay, Tm.misread]
  omega

/-! ### The decision -/

/-- The conditions on the day are those of its word. -/
theorem entryHolds_eq (t : Tm) {day : Text} {days : List Weekday} (hday : (day, days) ∈ dayWords) (fTime : Window) :
    entryHolds t t.weekday.name day fTime = (decide (t.weekday ∈ days) && isBetween t fTime) := by
  have hwords : ∀ weekday : Weekday, ∀ word ∈ dayWords, ∀ between : Bool,
      (if word.1 = "Daily".toList && between then true
        else if word.1 = "Weekday".toList
            && matchesAny ["Mon".toList, "Tue".toList, "Wed".toList, "Thu".toList, "Fri".toList] weekday.name
            && between then true
        else if word.1 = "Weekend".toList && matchesAny ["Sat".toList, "Sun".toList] weekday.name && between then true
        else word.1 = weekday.name && between)
      = (decide (weekday ∈ word.2) && between) := by
    intro weekday
    cases weekday <;> decide
  exact hwords t.weekday (day, days) hday (isBetween t fTime)

theorem notMem_of_isDecimal {text : Text} (htext : IsDecimal text) {c : Char} (hc : c.isDigit = false) : c ∉ text := by
  intro hmem
  rw [htext.2 c hmem] at hc
  exact Bool.noConfusion hc

theorem ClockField.notMem {limit : Nat} (field : ClockField limit) {c : Char} (hstar : c ≠ '*')
    (hc : c.isDigit = false) : c ∉ field.text := by
  rcases field.valid with htext | ⟨hdecimal, _⟩
  · rw [htext, List.mem_singleton]
    exact hstar
  · exact notMem_of_isDecimal hdecimal hc

namespace PolicyEntry

theorem notMem_fields (e : PolicyEntry) {c : Char} (hc : c = ':' ∨ c = ',') : ∀ field ∈ e.fields, c ∉ field := by
  have hday : c ∉ e.day := by
    have hwords : ∀ word ∈ dayWords, ':' ∉ word.1 ∧ ',' ∉ word.1 := by decide
    obtain ⟨hcolon, hcomma⟩ := hwords _ e.day_mem
    rcases hc with rfl | rfl
    · exact hcolon
    · exact hcomma
  have hother : c ≠ '*' ∧ c.isDigit = false := by
    rcases hc with rfl | rfl <;> decide
  have hfield : ∀ {limit : Nat} (field : ClockField limit), c ∉ field.text := fun field =>
    field.notMem hother.1 hother.2
  simp only [fields, List.forall_mem_cons, List.not_mem_nil, false_imp_iff, implies_true, and_true]
  exact ⟨hday, hfield _, hfield _, hfield _, hfield _, hfield _, hfield _⟩

theorem splitOn_text (e : PolicyEntry) : e.text.splitOn ':' = e.fields :=
  List.splitOn_intercalate _ (e.notMem_fields (.inl rfl)) (List.cons_ne_nil _ _)

theorem comma_notMem_text (e : PolicyEntry) : ',' ∉ e.text :=
  notMem_intercalate (by decide) (e.notMem_fields (.inr rfl))

end PolicyEntry

theorem PolicyTimes.splitOn_text (f : PolicyTimes) : f.text.splitOn ',' = f.entries.map PolicyEntry.text := by
  refine List.splitOn_intercalate _ ?_ ?_
  · intro piece hpiece
    obtain ⟨e, _, rfl⟩ := List.mem_map.mp hpiece
    exact e.comma_notMem_text
  · rw [Ne, List.map_eq_nil_iff]
    exact f.nonempty

/-- **What is decided**: whether the windows contain the misread time. -/
theorem verifyTime_eq (t : Tm) (f : PolicyTimes) : verifyTime t f.text = some (decide (f.Covers t.misread)) := by
  have hloop : ∀ (entries : List PolicyEntry) (flag : Bool),
      (entries.map PolicyEntry.text).foldlM (fun flag entry =>
        match entry.splitOn ':' with
        | day :: aHour :: aMin :: aSec :: bHour :: bMin :: bSec :: _ =>
            some (if entryHolds t (strftime .a t) day ⟨aHour, aMin, aSec, bHour, bMin, bSec⟩ then true else flag)
        | _ => none) flag
      = some (flag || entries.any fun e => decide (e.Covers t.misread)) := by
    intro entries
    induction entries with
    | nil =>
        intro flag
        rw [List.any_nil, Bool.or_false]
        rfl
    | cons e entries ih =>
        intro flag
        have hentry : entryHolds t (strftime .a t) e.day
            ⟨e.startHour.text, e.startMin.text, e.startSec.text, e.stopHour.text, e.stopMin.text, e.stopSec.text⟩
            = decide (e.Covers t.misread) := by
          rw [strftime, entryHolds_eq t e.day_mem, isBetween_eq, ← Bool.decide_and]
          rfl
        rw [List.map_cons, List.foldlM_cons, e.splitOn_text]
        show (some (if entryHolds t (strftime .a t) e.day _ then true else flag)).bind _ = _
        rw [Option.bind_some, ih, hentry, List.any_cons, ← Bool.or_assoc]
        by_cases he : e.Covers t.misread
        · simp [he]
        · simp [he]
  have hany : (f.entries.any fun e => decide (e.Covers t.misread)) = decide (f.Covers t.misread) := by
    rw [Bool.eq_iff_iff, List.any_eq_true, decide_eq_true_eq]
    simp only [decide_eq_true_eq]
    rfl
  rw [verifyTime, f.splitOn_text, hloop, Bool.false_or, hany]

/-- The decision is whether the windows contain the time. -/
def Honours (t : Tm) (f : PolicyTimes) : Prop := verifyTime t f.text = some (decide (f.Covers t))

theorem honours_iff_covers (t : Tm) (f : PolicyTimes) : Honours t f ↔ (f.Covers t.misread ↔ f.Covers t) := by
  rw [Honours, verifyTime_eq, Option.some.injEq, decide_eq_decide]

/-- The number `n` as a field. -/
def ClockField.number (limit n : Nat) (hlimit : limit ≤ 100) (hn : n < limit) : ClockField limit where
  text := twoDigits n
  valid := by
    obtain ⟨hdecimal, hvalue⟩ := decimal_twoDigits n (by omega)
    exact .inr ⟨hdecimal, by omega⟩

theorem ClockField.value_number {limit n : Nat} (hlimit : limit ≤ 100) (hn : n < limit) (star : Nat) :
    (ClockField.number limit n hlimit hn).value star = n := by
  obtain ⟨hdecimal, hvalue⟩ := decimal_twoDigits n (by omega)
  rw [ClockField.value, if_neg]
  · exact hvalue
  · intro heq
    have hdigit := hdecimal.2 '*' (by rw [show twoDigits n = ['*'] from heq]; exact List.mem_singleton_self _)
    exact absurd hdigit (by decide)

/-- The policy of every day at the time of `t`, to the second. -/
def onlyAt (t : Tm) : PolicyTimes where
  entries := [{
    day := "Daily".toList
    days := [.sun, .mon, .tue, .wed, .thu, .fri, .sat]
    startHour := .number 24 t.hour (by omega) t.hour_lt
    startMin := .number 60 t.minute (by omega) t.minute_lt
    startSec := .number 60 t.second (by omega) t.second_lt
    stopHour := .number 24 t.hour (by omega) t.hour_lt
    stopMin := .number 60 t.minute (by omega) t.minute_lt
    stopSec := .number 60 t.second (by omega) t.second_lt
    day_mem := List.mem_cons_self }]
  nonempty := List.cons_ne_nil _ _

theorem onlyAt_covers_iff (t t' : Tm) : (onlyAt t).Covers t' ↔ t'.secondOfDay = t.secondOfDay := by
  have hday : ∀ weekday : Weekday, weekday ∈ [.sun, .mon, .tue, .wed, .thu, .fri, .sat] := by
    intro weekday
    cases weekday <;> decide
  rw [PolicyTimes.Covers, onlyAt]
  simp only [List.mem_singleton, exists_eq_left, PolicyEntry.Covers, PolicyEntry.start, PolicyEntry.stop,
    ClockField.value_number, hday, true_and, Tm.secondOfDay]
  omega

/-- **When the clock is honoured**: for all policies exactly in the minute that has the number of the month, and for
a policy exactly when its windows do not tell the time from the one with the month for the minute. -/
theorem honours_iff (t : Tm) :
    ((∀ f, Honours t f) ↔ t.minute = t.month)
      ∧ ∀ f, Honours t f ↔ (f.Covers t.misread ↔ f.Covers t) := by
  refine ⟨?_, honours_iff_covers t⟩
  constructor
  · intro h
    have honly := (honours_iff_covers t (onlyAt t)).mp (h (onlyAt t))
    rw [onlyAt_covers_iff, onlyAt_covers_iff, iff_true_right rfl] at honly
    simp only [Tm.secondOfDay, Tm.misread] at honly
    omega
  · intro heq f
    have hsame : t.misread = t := by
      cases t
      simp only [Tm.misread] at heq ⊢
      simp only [heq]
    rw [honours_iff_covers, hsame]

/-- A Monday in March, half past ten. -/
def mondayMorning : Tm where
  weekday := .mon
  month := 3
  hour := 10
  minute := 30
  second := 0
  month_pos := by decide
  month_le := by decide
  hour_lt := by decide
  minute_lt := by decide
  second_lt := by decide

/-- Weekdays from ten to a quarter past. -/
def quarterHour : PolicyTimes where
  entries := [{
    day := "Weekday".toList
    days := [.mon, .tue, .wed, .thu, .fri]
    startHour := ⟨"10".toList, by decide⟩
    startMin := ⟨"*".toList, by decide⟩
    startSec := ⟨"00".toList, by decide⟩
    stopHour := ⟨"10".toList, by decide⟩
    stopMin := ⟨"15".toList, by decide⟩
    stopSec := ⟨"*".toList, by decide⟩
    day_mem := by decide }]
  nonempty := List.cons_ne_nil _ _

/-- Half past ten passes for three minutes past ten. -/
theorem quarterHour_not_honoured :
    quarterHour.text = "Weekday:10:*:00:10:15:*".toList ∧ ¬ quarterHour.Covers mondayMorning
      ∧ verifyTime mondayMorning quarterHour.text = some true ∧ ¬ Honours mondayMorning quarterHour := by
  have htrue : verifyTime mondayMorning quarterHour.text = some true := by decide
  have hnot : ¬ quarterHour.Covers mondayMorning := by decide
  refine ⟨by decide, hnot, htrue, ?_⟩
  rw [Honours, htrue, decide_eq_false hnot]
  decide

end Armore.Logging
