import Armore.Lib.Text

/-!
# Firewall rules and cron jobs

`domains/support/lib/ipfw.py`: how the time string of an active policy becomes either a deny rule that is
installed at once or the cron jobs that add and delete it. A function that raises returns the exception,
and one that also writes returns the system as it is then: what was written before a raise stays.

What the functions call outside the repository is the `Host`: whether a command line runs, the files of
the two protocols, and how `python-crontab` reads a minute or an hour.
-/

namespace Armore.Filtering

open Armore.Lib Armore.Lib.Text

inductive Exn
  | valueError
  | keyError
  | indexError
  | osError
  | calledProcessError
  deriving DecidableEq, Repr

/-- A line of the cron file, with `on` applied to its minute, hour and day of the week. -/
structure Job where
  command : Text
  user : Text
  minute : Nat
  hour : Nat
  dow : List Nat
  deriving DecidableEq, Repr

/-- The policy file (`none` when there is none), the jobs of the cron file and the commands whose rules
are installed. -/
structure System where
  policyFile : Option Text
  cronFile : List Job
  firewall : List Text
  deriving DecidableEq

/-- What the functions find outside the repository while one of them runs. The two readers are those of
`python-crontab`, which takes a string of digits for its value if it is in range. -/
structure Host where
  runs : Text → Bool
  modbusMain : Option Text
  dnp3Main : Option Text
  minuteOn : Text → Option Nat
  hourOn : Text → Option Nat
  minuteOn_decimal : ∀ t, IsDecimal t → minuteOn t = if decimal t < 60 then some (decimal t) else none
  hourOn_decimal : ∀ t, IsDecimal t → hourOn t = if decimal t < 24 then some (decimal t) else none

/-- A host on which every command runs and `python-crontab` takes decimal strings only. -/
def Host.plain : Host where
  runs _ := true
  modbusMain := none
  dnp3Main := none
  minuteOn t := if IsDecimal t ∧ decimal t < 60 then some (decimal t) else none
  hourOn t := if IsDecimal t ∧ decimal t < 24 then some (decimal t) else none
  minuteOn_decimal t ht := by simp only [ht, true_and]
  hourOn_decimal t ht := by simp only [ht, true_and]

def DOW (day : Text) : Option Nat :=
  [("SUN".toList, 0), ("MON".toList, 1), ("TUE".toList, 2), ("WED".toList, 3), ("THU".toList, 4),
    ("FRI".toList, 5), ("SAT".toList, 6)].lookup day

/-- `cmd`: it raises when the command fails. -/
def cmd (host : Host) (command : Text) : Except Exn Unit :=
  if host.runs command then .ok () else .error .calledProcessError

def flush (host : Host) (s : System) : System × Except Exn Unit :=
  match cmd host "ipfw -q flush".toList with
  | .ok () => ({ s with firewall := [] }, .ok ())
  | .error e => (s, .error e)

/-! ### The rule of a policy -/

/-- The group of `^const ports = {(.*)}`: up to the last brace of the line. -/
def matchPorts (line : Text) : Option Text := do
  let rest ← "const ports = \x7b".toList.isPrefixOf? line
  if '}' ∈ rest then some (rest.rdropWhile (· ≠ '}')).dropLast else none

def stripBlanks : Text → Text := strip (· = ' ')

/-- The first piece of a split. -/
def splitHead (text : Text) (separator : Char) : Text := (text.splitOn separator).headD []

def getProtoPort (host : Host) (proto : Text) : Except Exn Text :=
  if proto = "modbus".toList then ports host.modbusMain
  else if proto = "dnp3".toList then ports host.dnp3Main
  else .ok "any".toList
where
  ports : Option Text → Except Exn Text
    | none => .error .osError
    | some theFile =>
      match ((readlines theFile).map (rstrip '\n')).findSome? matchPorts with
      | some group =>
        .ok ([','].intercalate
          (((stripBlanks group).splitOn ',').map fun x => stripBlanks (splitHead x '/')))
      | none => .ok "any".toList

def startCommand (ruleNum : Nat) (srcIp tarIp ports : Text) : Text :=
  "/usr/bin/ipfw -q add ".toList ++ str ruleNum ++ " deny all from ".toList ++ srcIp ++ " to ".toList
    ++ tarIp ++ (if ports ≠ "any".toList then ' ' :: ports else []) ++ " keep-state".toList

def stopCommand (ruleNum : Nat) : Text := "/usr/bin/ipfw -q delete ".toList ++ str ruleNum

/-- The start and the stop command. -/
def ipfwRules (host : Host) (ruleNum : Nat) (srcIp tarIp ports proto : Text) :
    Except Exn (Text × Text) := do
  let ports ←
    if proto = "modbus".toList then getProtoPort host "modbus".toList
    else if proto = "dnp3".toList then getProtoPort host "dnp3".toList
    else .ok ports
  return (startCommand ruleNum srcIp tarIp ports, stopCommand ruleNum)

/-! ### The time string -/

def everyDay : List Nat := [0, 1, 2, 3, 4, 5, 6]

/-- The days of a set in the order Python lists small integers. -/
def inOrder (days : List Nat) : List Nat := everyDay.filter (· ∈ days)

def joinDays (days : List Nat) : Text := [','].intercalate (days.map str)

/-- The days whose day before is not among them. -/
def parseStartDays (days : List Nat) : Text :=
  joinDays (days.filter fun currDay => (currDay + 6) % 7 ∉ days)

/-- The days after a day whose next day is not among them. -/
def parseStopDays (days : List Nat) : Text :=
  joinDays ((days.filter fun currDay => (currDay + 1) % 7 ∉ days).map fun currDay => (currDay + 1) % 7)

/-- An entry of the time string, split at its colons. -/
structure Entry where
  day : Text
  startHour : Text
  startMin : Text
  startSec : Text
  stopHour : Text
  stopMin : Text
  stopSec : Text
  deriving DecidableEq

def Entry.unpack (e : Text) : Except Exn Entry :=
  match e.splitOn ':' with
  | [day, startHour, startMin, startSec, stopHour, stopMin, stopSec] =>
    .ok ⟨day, startHour, startMin, startSec, stopHour, stopMin, stopSec⟩
  | _ => .error .valueError

/-- A chain of `int(text) == n and ..`, which stops at the first that is false. -/
def intsAre : List (Text × Int) → Except Exn Bool
  | [] => .ok true
  | (text, n) :: rest =>
    match int text with
    | none => .error .valueError
    | some value => if value = n then intsAre rest else .ok false

/-- The first condition of `parseTime`. -/
def Entry.isAll (e : Entry) : Except Exn Bool :=
  if lower e.day = "daily".toList then
    intsAre [(e.startHour, 0), (e.startMin, 0), (e.startSec, 0), (e.stopHour, 23), (e.stopMin, 59),
      (e.stopSec, 59)]
  else .ok false

/-- The days an entry names. -/
def namedDays (day : Text) : Except Exn (List Nat) :=
  if lower day = "daily".toList then .ok everyDay
  else if lower day = "weekdays".toList then .ok [1, 2, 3, 4, 5]
  else if lower day = "weekend".toList then .ok [6, 0]
  else
    match DOW (upper day) with
    | some d => .ok [d]
    | none => .error .keyError

/-- The variables of `parseTime`, sets kept as lists; `all` is a field of `cronRet`. -/
structure Times where
  days : List Nat
  start : List Text
  stop : List Text
  all : Bool
  deriving DecidableEq

def Times.none : Times := ⟨[], [], [], false⟩

/-- `"{}:{}".format(..)`. -/
def clock (hour min : Text) : Text := hour ++ ':' :: min

/-- The body of the loop over the entries. -/
def parseEntry (t : Times) (text : Text) : Except Exn Times := do
  let e ← Entry.unpack text
  if ← e.isAll then return { t with all := true }
  else
    let days ← namedDays e.day
    return { t with
      days := days ∪ t.days
      start := t.start.insert (clock e.startHour e.startMin)
      stop := t.stop.insert (clock e.stopHour e.stopMin) }

/-- `cRet`. -/
structure Moment where
  days : Text
  hour : Text
  min : Text
  deriving DecidableEq

def moment (days st : Text) : Except Exn Moment :=
  match st.splitOn ':' with
  | [hour, min] => .ok ⟨days, hour, min⟩
  | _ => .error .valueError

def startMoment (days : List Nat) (st : Text) : Except Exn Moment :=
  if st = "00:00".toList ∧ inOrder days ≠ everyDay then moment (parseStartDays (inOrder days)) st
  else moment (joinDays (inOrder days)) st

def stopMoment (days : List Nat) (st : Text) : Except Exn Moment :=
  if st = "23:59".toList then moment (parseStopDays (inOrder days)) "00:00".toList
  else moment (joinDays (inOrder days)) st

/-- `cronRet`. -/
structure StartStop where
  start : List Moment
  stop : List Moment
  all : Bool
  deriving DecidableEq

def parseTime (timePer : Text) : Except Exn StartStop := do
  let t ← (timePer.splitOn ',').foldlM parseEntry Times.none
  let start ← t.start.mapM (startMoment t.days)
  let stop ← t.stop.mapM (stopMoment t.days)
  return ⟨start, stop, t.all⟩

/-! ### The jobs of a policy -/

/-- `int(y)`, then `dow.also.on`. -/
def dowOn (y : Text) : Except Exn Nat :=
  match int y with
  | some (.ofNat d) => if d < 7 then .ok d else .error .valueError
  | _ => .error .valueError

/-- `minute.on` and `hour.on`. -/
def slot (read : Text → Option Nat) (text : Text) : Except Exn Nat :=
  match read text with
  | some value => .ok value
  | none => .error .valueError

def newJob (host : Host) (command : Text) (m : Moment) : Except Exn Job := do
  let minute ← slot host.minuteOn m.min
  let hour ← slot host.hourOn m.hour
  let dow ← (m.days.splitOn ',').mapM dowOn
  return ⟨command, "root".toList, minute, hour, dow⟩

def newJobs (host : Host) (startCmd stopCmd : Text) (startStop : StartStop) : Except Exn (List Job) := do
  let jobStart ← startStop.start.mapM (newJob host startCmd)
  let jobStop ← startStop.stop.mapM (newJob host stopCmd)
  return jobStart ++ jobStop

/-- `createCron` is the empty list of jobs. The cron file is written in the last branch only. -/
def createCronJob (host : Host) (s : System) (cron : List Job) (ruleNum : Nat)
    (timePer srcIp tarIp ports proto : Text) : System × Except Exn (Nat × List Job) :=
  match ipfwRules host ruleNum srcIp tarIp ports proto with
  | .error e => (s, .error e)
  | .ok (startCmd, stopCmd) =>
    match parseTime timePer with
    | .error e => (s, .error e)
    | .ok startStop =>
      if startStop.all then
        match cmd host startCmd with
        | .error e => (s, .error e)
        | .ok () => ({ s with firewall := s.firewall ++ [startCmd] }, .ok (ruleNum, cron))
      else
        match newJobs host startCmd stopCmd startStop with
        | .error e => (s, .error e)
        | .ok jobs => ({ s with cronFile := cron ++ jobs }, .ok (ruleNum, cron ++ jobs))

end Armore.Filtering
