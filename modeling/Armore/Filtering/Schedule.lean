import Armore.Filtering.Ipfw
import Armore.Lib.Latch
import Armore.Lib.Raising

/-!
# Time strings and their jobs

What a time string means, and what cron does with the jobs made of it. Minutes are counted from a Sunday at
midnight. An entry is in force on its days from its start to its stop; seconds are below what cron can tell
apart, so the minute of the stop still belongs to it. Cron runs the jobs whose minute, hour and day match,
in the order of the file; the start command installs the deny rule and the stop command deletes it.
-/

namespace Armore.Filtering

open Armore.Lib Armore.Lib.Text

def minutesPerDay : Nat := 1440

def minutesPerWeek : Nat := 10080

/-- The day of the week of a minute. -/
def dayOf (n : Nat) : Nat := n / minutesPerDay % 7

/-- The minute of the day. -/
def minuteOf (n : Nat) : Nat := n % minutesPerDay

def dayBefore (d : Nat) : Nat := (d + 6) % 7

/-! ### Entries -/

namespace Entry

def startMinute (e : Entry) : Nat := 60 * decimal e.startHour + decimal e.startMin

def stopMinute (e : Entry) : Nat := 60 * decimal e.stopHour + decimal e.stopMin

def startClock (e : Entry) : Text := clock e.startHour e.startMin

def stopClock (e : Entry) : Text := clock e.stopHour e.stopMin

/-- The days the entry names. -/
def days (e : Entry) : List Nat := (namedDays e.day).toOption.getD []

/-- Hours, minutes and seconds are numbers in their range, and the start is before the stop. -/
structure Valid (e : Entry) : Prop where
  startHour : IsDecimal e.startHour ∧ decimal e.startHour < 24
  startMin : IsDecimal e.startMin ∧ decimal e.startMin < 60
  startSec : IsDecimal e.startSec ∧ decimal e.startSec < 60
  stopHour : IsDecimal e.stopHour ∧ decimal e.stopHour < 24
  stopMin : IsDecimal e.stopMin ∧ decimal e.stopMin < 60
  stopSec : IsDecimal e.stopSec ∧ decimal e.stopSec < 60
  before : 60 * e.startMinute + decimal e.startSec < 60 * e.stopMinute + decimal e.stopSec

/-- `Daily` from 00:00:00 to 23:59:59. -/
def WholeDay (e : Entry) : Prop :=
  lower e.day = "daily".toList ∧ decimal e.startHour = 0 ∧ decimal e.startMin = 0
    ∧ decimal e.startSec = 0 ∧ decimal e.stopHour = 23 ∧ decimal e.stopMin = 59 ∧ decimal e.stopSec = 59

instance (e : Entry) : Decidable e.WholeDay := inferInstanceAs (Decidable (_ ∧ _))

end Entry

/-- The entries of a time string. -/
def entries (timePer : Text) : List Entry :=
  (timePer.splitOn ',').filterMap fun text => (Entry.unpack text).toOption

/-- An entry covers the minute `m` of the day `d`. -/
def Covers (es : List Entry) (d m : Nat) : Prop :=
  ∃ e ∈ es, d ∈ e.days ∧ e.startMinute ≤ m ∧ m ≤ e.stopMinute

/-- An entry names the day. -/
def InDays (es : List Entry) (d : Nat) : Prop := ∃ e ∈ es, d ∈ e.days

/-! ### Cron -/

/-- Cron runs the job at the minute `n`. -/
def Job.fires (j : Job) (n : Nat) : Bool :=
  n % 60 = j.minute ∧ n / 60 % 24 = j.hour ∧ dayOf n ∈ j.dow

/-- Whether the rule is installed after a command. -/
def runCommand (startCmd stopCmd : Text) (installed : Bool) (j : Job) : Bool :=
  if j.command = startCmd then true else if j.command = stopCmd then false else installed

/-- Whether the rule is installed after the minute `n`. -/
def runMinute (startCmd stopCmd : Text) (jobs : List Job) (n : Nat) (installed : Bool) : Bool :=
  (jobs.filter (·.fires n)).foldl (runCommand startCmd stopCmd) installed

/-- Whether the rule is installed when cron has run for some minutes from `start`. -/
def installedAfter (startCmd stopCmd : Text) (jobs : List Job) (start : Nat) (installed : Bool) :
    Nat → Bool
  | 0 => installed
  | n + 1 =>
    runMinute startCmd stopCmd jobs (start + n)
      (installedAfter startCmd stopCmd jobs start installed n)

/-- After a full week, at every minute at which no job fires, the rule is installed exactly when an entry
covers the minute. -/
def Enforces (startCmd stopCmd : Text) (s : System) (es : List Entry) : Prop :=
  ∀ start n, minutesPerWeek ≤ n → (∀ j ∈ s.cronFile, j.fires (start + n) = false) →
    (installedAfter startCmd stopCmd s.cronFile start (decide (startCmd ∈ s.firewall)) n = true
      ↔ Covers es (dayOf (start + n)) (minuteOf (start + n)))

/-! ### When the jobs enforce the entries

`parseTime` keeps one set of days, one of starts and one of stops, so a start or a stop of one entry counts
on the days of all of them. A start at `00:00` counts only on a day whose day before is not in the set, and a
stop at `23:59` is moved to the next midnight, and only if the next day is not in the set. -/

/-- A stop at the minute `m`, on each day of the set. -/
def StopsAt (es : List Entry) (m : Nat) : Prop :=
  ∃ e ∈ es, e.stopMinute = m ∧ e.stopClock ≠ "23:59".toList

/-- A stop that is moved to midnight. -/
def LateStop (es : List Entry) : Prop := ∃ e ∈ es, e.stopClock = "23:59".toList

def EveryDay (es : List Entry) : Prop := ∀ d < 7, InDays es d

/-- A start at the minute `m` of the day `d` of the set. -/
def StartsAt (es : List Entry) (d m : Nat) : Prop :=
  ∃ e ∈ es, e.startMinute = m
    ∧ (e.startClock = "00:00".toList → EveryDay es ∨ ¬ InDays es (dayBefore d))

/-- The days of the set end with the rule installed: a stop is moved to midnight, and every other stop is
followed by a start. -/
def EndsOn (es : List Entry) : Prop :=
  LateStop es ∧ ∀ m, StopsAt es m → ∃ e ∈ es, m < e.startMinute

/-- A start or stop of the set on the day `d` takes effect at the minute `m`. -/
def Switches (es : List Entry) (d m : Nat) : Prop := StopsAt es m ∨ StartsAt es d m

/-- The minute after a switch that is not one itself is covered unless the switch is a stop; and a midnight
without a switch is covered exactly when the day before is in the set and ends with the rule installed. -/
structure Regular (es : List Entry) : Prop where
  switch : ∀ d, InDays es d → ∀ m, m + 1 < minutesPerDay → Switches es d m → ¬ Switches es d (m + 1) →
    (Covers es d (m + 1) ↔ ¬ StopsAt es m)
  midnight : ∀ d, InDays es d → ¬ Switches es d 0 →
    (Covers es d 0 ↔ InDays es (dayBefore d) ∧ EndsOn es)

end Armore.Filtering
