import Armore.Filtering.Ipfw

/-!
# The policy file

`domains/support/policy.py`: the policy file has a header and one line of eight tab-separated fields for
each policy. `updatePolicyConfig` puts the line of a submitted form in, `delPolicy` takes the lines of a
policy out, and both end in `parseIPFW`, which flushes the firewall and goes through the lines of the file
it has just written.
-/

namespace Armore.Filtering

open Armore.Lib Armore.Lib.Text

/-- A submitted form: the first value of each of its keys. -/
structure Form where
  fields : List (Text × Text)
  nodup : (fields.map Prod.fst).Nodup

namespace Form

def has (formData : Form) (key : Text) : Bool := (formData.fields.map Prod.fst).contains key

/-- `formData[key]`. -/
def get (formData : Form) (key : Text) : Except Exn Text :=
  match formData.fields.lookup key with
  | some value => .ok value
  | none => .error .keyError

/-- What a browser sends for an active policy with one day and one period. -/
def browserFields (day start stop : String) : List (Text × Text) :=
  [("policyName", "night"), ("srcIp", ""), ("destIp", "10.0.0.7"), ("proto", "Any"), ("func", ""),
    ("funcRegex", "contains"), (day, "on"), ("timeStart0", start), ("timeStop0", stop),
    ("severity", "notice"), ("filtering", "active")].map fun field => (field.1.toList, field.2.toList)

theorem nodup_weekday : ((browserFields "Weekday" "" "").map Prod.fst).Nodup := by decide

end Form

/-! ### The line of a form -/

inductive Bound
  | start
  | stop
  deriving DecidableEq

/-- The groups of `time(Start|Stop)(\d+)` at the beginning of a text. -/
def matchTime (fd : Text) : Option (Bound × Text) := do
  let rest ← "time".toList.isPrefixOf? fd
  (do number .start (← "Start".toList.isPrefixOf? rest))
    <|> (do number .stop (← "Stop".toList.isPrefixOf? rest))
where
  number (bound : Bound) (rest : Text) : Option (Bound × Text) :=
    match rest.takeWhile fun c => (digit c).isSome with
    | [] => none
    | num => some (bound, num)

/-- `re.search`. -/
def searchTime : Text → Option (Bound × Text)
  | [] => none
  | c :: rest => matchTime (c :: rest) <|> searchTime rest

/-- A value of `times`. -/
structure Period where
  start : Option Text
  stop : Option Text
  deriving DecidableEq

def Period.set (p : Period) (value : Text) : Bound → Period
  | .start => { p with start := some value }
  | .stop => { p with stop := some value }

/-- The time of an empty field. -/
def defaultTime : Bound → Text
  | .start => "00:00:00".toList
  | .stop => "23:59:59".toList

def setTime (times : List (Text × Period)) (num value : Text) (startStop : Bound) :
    List (Text × Period) :=
  if (times.map Prod.fst).contains num then
    times.map fun t => if t.1 = num then (t.1, t.2.set value startStop) else t
  else times ++ [(num, Period.set ⟨none, none⟩ value startStop)]

/-- The loop over the keys of the form that fills `times`. -/
def formTimes (formData : Form) : List (Text × Period) :=
  formData.fields.foldl (fun times fd =>
    match searchTime fd.1 with
    | some (startStop, num) =>
      setTime times num (if fd.2 = [] then defaultTime startStop else fd.2) startStop
    | none => times) []

/-- The days whose boxes are ticked, as the time string names them. -/
def formDays (formData : Form) : List Text :=
  if formData.has "Daily".toList then ["Daily".toList]
  else
    (if formData.has "Weekday".toList then ["Weekday".toList]
      else ["Mon".toList, "Tue".toList, "Wed".toList, "Thu".toList, "Fri".toList].filter formData.has)
    ++ (if formData.has "Weekend".toList then ["Weekend".toList]
      else ["Sat".toList, "Sun".toList].filter formData.has)

def timeOf : Option Text → Except Exn Text
  | some value => .ok value
  | none => .error .keyError

/-- One addition to `timeStr`. -/
def dayTime (t : Period) (day : Text) : Except Exn Text := do
  return day ++ ':' :: (← timeOf t.start) ++ ':' :: (← timeOf t.stop) ++ [',']

def formTimeStr (formData : Form) : Except Exn Text := do
  let pieces ← (formTimes formData).mapM fun t => (formDays formData).mapM (dayTime t.2)
  return pieces.flatten.flatten

/-- `re.sub('Any', '*', proto)`. -/
def subAny : Text → Text
  | 'A' :: 'n' :: 'y' :: rest => '*' :: subAny rest
  | c :: rest => c :: subAny rest
  | [] => []

def orElse (value default : Text) : Text := if value = [] then default else value

/-- The line `LINETEMPLATE` gives for the form. -/
def policyLine (formData : Form) (nextNum : Text) : Except Exn Text := do
  let timeStr ← formTimeStr formData
  let src ← formData.get "srcIp".toList
  let dest ← formData.get "destIp".toList
  let func ← formData.get "func".toList
  let regexType ← formData.get "funcRegex".toList
  let name ← formData.get "policyName".toList
  let proto ← formData.get "proto".toList
  let severity ← formData.get "severity".toList
  let filtering ← formData.get "filtering".toList
  let ip := "src=".toList ++ orElse src "0.0.0.0/0".toList ++ ",dest=".toList
    ++ orElse dest "0.0.0.0/0".toList
  return ['\t'].intercalate [nextNum, name, ip, subAny proto, regexType ++ ':' :: orElse func ['*'],
    timeStr.dropLast, severity, filtering] ++ ['\n']

/-! ### The lines of the file -/

/-- The eight fields of a line. -/
structure Policy where
  ruleId : Text
  name : Text
  ip : Text
  proto : Text
  func : Text
  timePer : Text
  severity : Text
  filtering : Text
  deriving DecidableEq

namespace Policy

def unpack (line : Text) : Except Exn Policy :=
  match line.splitOn '\t' with
  | [ruleId, name, ip, proto, func, timePer, severity, filtering] =>
    .ok ⟨ruleId, name, ip, proto, func, timePer, severity, filtering⟩
  | _ => .error .valueError

def fields (p : Policy) : List Text :=
  [p.ruleId, p.name, p.ip, p.proto, p.func, p.timePer, p.severity, p.filtering]

/-- `x.split('=')[1]`. -/
def address (x : Text) : Except Exn Text :=
  match x.splitOn '=' with
  | _ :: value :: _ => .ok value
  | _ => .error .indexError

/-- `srcIp` and `tarIp`. -/
def ips (p : Policy) : Except Exn (Text × Text) := do
  match ← (p.ip.splitOn ',').mapM address with
  | [srcIp, tarIp] => return (srcIp, tarIp)
  | _ => .error .valueError

end Policy

/-- The loop of `parseIPFW` over the lines after the header. -/
def parseLines (host : Host) (s : System) (cron : List Job) (ruleNum : Nat) :
    List Text → System × Except Exn Unit
  | [] => (s, .ok ())
  | line :: lines =>
    match Policy.unpack line with
    | .error e => (s, .error e)
    | .ok p =>
      match p.ips with
      | .error e => (s, .error e)
      | .ok (srcIp, tarIp) =>
        if p.filtering = "active".toList then
          match createCronJob host s cron ruleNum p.timePer srcIp tarIp "any".toList p.proto with
          | (s, .error e) => (s, .error e)
          | (s, .ok (ruleNum, cron)) => parseLines host s cron (ruleNum + 1) lines
        else parseLines host s cron ruleNum lines

/-- The lines of the file without their newlines. -/
def policyLines (file : Text) : List Text := (readlines file).map (rstrip '\n')

def parseIPFW (host : Host) (s : System) : System × Except Exn Unit :=
  match flush host s with
  | (s, .error e) => (s, .error e)
  | (s, .ok ()) =>
    match s.policyFile with
    | none => (s, .error .osError)
    | some file =>
      if (policyLines file).length ≤ 1 then (s, .ok ())
      else parseLines host s [] 0 (policyLines file).tail

/-! ### The operations -/

def header : Text := "#fields\truleNum\tname\tip\tproto\tfunc\ttimePer\tseverity\tfiltering\n".toList

def verifyPolicyFileExists (s : System) : System :=
  match s.policyFile with
  | none => { s with policyFile := some header }
  | some file => if readlines file = [] then { s with policyFile := some header } else s

/-- The lines with `output` in the place of each line of the policy, or at the end. -/
def putLine (nextNum output : Text) (lines : List Text) : List Text :=
  if lines.any fun line => splitHead line '\t' = nextNum then
    lines.map fun line => if splitHead line '\t' = nextNum then output else line
  else lines ++ [output]

/-- `newId` is what `str(uuid4())` returns. -/
def updatePolicyConfig (host : Host) (s : System) (newId : Text) (formData : Form) (num : Option Text) :
    System × Except Exn Unit :=
  let s := verifyPolicyFileExists s
  let nextNum := if formData.has "submitAsNew".toList then newId else num.getD newId
  match policyLine formData nextNum with
  | .error e => (s, .error e)
  | .ok output =>
    match s.policyFile with
    | none => (s, .error .osError)
    | some file =>
      parseIPFW host { s with policyFile := some (putLine nextNum output (readlines file)).flatten }

/-- A line put together again from its fields. -/
def rewriteLine (line : Text) : Except Exn Text := do
  return ['\t'].intercalate (← Policy.unpack (rstrip '\n' line)).fields ++ ['\n']

/-- The content `delPolicy` writes. -/
def dropLines (num : Text) (lines : List Text) : Except Exn Text :=
  match lines.filter fun line => splitHead line '\t' ≠ num with
  | [] => .error .indexError
  | first :: rest => do
    return first ++ (← rest.mapM rewriteLine).flatten

def delPolicy (host : Host) (s : System) (num : Text) : System × Except Exn Unit :=
  match s.policyFile with
  | none => (s, .error .osError)
  | some file =>
    match dropLines num (readlines file) with
    | .error e => (s, .error e)
    | .ok newLines => parseIPFW host { s with policyFile := some newLines }

end Armore.Filtering
