import Armore.Lib.Raising
import Armore.Stats.Tree
import Mathlib.Algebra.Order.Field.Rat

/-!
# The anomaly detector's nodes

What `AnoDet` keeps of a node over the training periods, and what it does with one node: it takes on a
sample, its average and deviation are computed, it is compared with a current node. The labels, scores and
descriptions of an anomaly are collected in the global record `g_ano_info`, from which `gen_ano_info` makes
the record that is raised. The square root is the one function of the script that is not rational; it is a
parameter. A division by zero is a run-time error, which ends the comparison where it is.
-/

namespace Armore.AnoDet

open Lib

inductive AnoType
  | fieldTooLarge
  | fieldTooSmall
  | trafficNew
  | trafficDis
  | unknown
  deriving DecidableEq

structure FieldInfo where
  countQueue : List ℚ := []
  countAvg : ℚ := 0
  std : ℚ := 0
  m2 : ℚ := 0

structure CountInfo where
  num : FieldInfo := {}
  bytes : FieldInfo := {}
  ratioRes : Option FieldInfo := none
  avgDelay : Option FieldInfo := none

/-- The fields of `Count_Info`. -/
inductive FieldName
  | num
  | bytes
  | ratioRes
  | avgDelay
  deriving DecidableEq

def CountInfo.get? (info : CountInfo) : FieldName → Option FieldInfo
  | .num => some info.num
  | .bytes => some info.bytes
  | .ratioRes => info.ratioRes
  | .avgDelay => info.avgDelay

abbrev Level5Node := Trie Text CountInfo 1
abbrev Level4Node := Trie Text CountInfo 2
abbrev Level3Node := Trie Text CountInfo 3
abbrev Level2Node := Trie Text CountInfo 4
abbrev Level1Node := Trie Text CountInfo 5
abbrev RootNode := Trie Text CountInfo 6

structure AnoInfo where
  periodId : Nat
  ts : ℚ
  period : ℚ
  sender : Option Text := none
  receiver : Option Text := none
  protocol : Option Text := none
  uid : Option Text := none
  func : Option Text := none
  target : Option Text := none
  field : Option Text := none
  desc : AnoType
  score : ℚ := 0
  average : Option ℚ := none
  std : Option ℚ := none
  current : Option ℚ := none

structure BaseInfo where
  sender : Option Text := none
  receiver : Option Text := none
  protocol : Option Text := none
  uid : Option Text := none
  func : Option Text := none
  target : Option Text := none
  numAvg : ℚ
  numStd : ℚ
  bytesAvg : ℚ
  bytesStd : ℚ
  ratioResAvg : Option ℚ := none
  ratioResStd : Option ℚ := none
  avgDelayAvg : Option ℚ := none
  avgDelayStd : Option ℚ := none

/-- `g_ano_info`, the `score_calculated` events raised and the records written to `LOG_BASE`. -/
structure Detector where
  gAnoInfo : AnoInfo
  raised : List AnoInfo := []
  logBase : List BaseInfo := []

/-! ### The labels -/

namespace AnoInfo

/-- The assignment to a label at the head of the loop over a level. -/
def label (g : AnoInfo) (level : Nat) (key : Text) : AnoInfo :=
  match level with
  | 1 => { g with sender := some key }
  | 2 => { g with receiver := some key }
  | 3 => { g with protocol := some key }
  | 4 => { g with uid := some key }
  | 5 => { g with func := some key }
  | _ => { g with target := some key }

/-- The labels by their level, from zero. -/
def labelAt (g : AnoInfo) : Nat → Option Text
  | 0 => g.sender
  | 1 => g.receiver
  | 2 => g.protocol
  | 3 => g.uid
  | 4 => g.func
  | 5 => g.target
  | _ + 6 => none

end AnoInfo

namespace Detector

def label (d : Detector) (level : Nat) (key : Text) : Detector :=
  { d with gAnoInfo := d.gAnoInfo.label level key }

/-- `event AnoDet::score_calculated(anomaly)`. -/
def raise (d : Detector) (anomaly : AnoInfo) : Detector := { d with raised := d.raised ++ [anomaly] }

end Detector

/-! ### Scores -/

/-- `cal_anomaly_score`: the score, and `g_ano_info` as it leaves it. -/
def calAnomalyScore (field : FieldInfo) (x : ℚ) (g : AnoInfo) : Except ArithmeticError ℚ × AnoInfo :=
  let u := field.countAvg
  let std := field.std
  let g := { g with current := some x, average := some u, std := some std }
  if x ≥ u - std ∧ x ≤ u + std then (.ok 0, { g with desc := .unknown })
  else
    let g := { g with desc := if x > u + std then .fieldTooLarge else .fieldTooSmall }
    ((divide (std * std) ((x - u) * (x - u))).map (1 - ·), g)

def genAnoInfo (level : Nat) (g : AnoInfo) : AnoInfo :=
  let rst : AnoInfo :=
    { periodId := g.periodId, ts := g.ts, period := g.period, desc := g.desc, score := g.score }
  let rst := if level ≥ 1 then { rst with sender := g.sender } else rst
  let rst := if level ≥ 2 then { rst with receiver := g.receiver } else rst
  let rst := if level ≥ 3 then { rst with protocol := g.protocol } else rst
  let rst := if level ≥ 4 then { rst with uid := g.uid } else rst
  let rst := if level ≥ 5 then { rst with func := g.func } else rst
  let rst := if level ≥ 6 then { rst with target := g.target } else rst
  let rst :=
    if rst.desc = .fieldTooLarge ∨ rst.desc = .fieldTooSmall then
      { rst with field := g.field, average := g.average, std := g.std, current := g.current }
    else rst
  let rst := if rst.desc = .trafficNew then { rst with current := g.current } else rst
  if rst.desc = .trafficDis then { rst with average := g.average, std := g.std } else rst

def genBaseInfo (normalInfo : CountInfo) (level : Nat) (g : AnoInfo) : BaseInfo :=
  let rst : BaseInfo :=
    { numAvg := normalInfo.num.countAvg, numStd := normalInfo.num.std
      bytesAvg := normalInfo.bytes.countAvg, bytesStd := normalInfo.bytes.std }
  let rst := if level ≥ 1 then { rst with sender := g.sender } else rst
  let rst := if level ≥ 2 then { rst with receiver := g.receiver } else rst
  let rst := if level ≥ 3 then { rst with protocol := g.protocol } else rst
  let rst := if level ≥ 4 then { rst with uid := g.uid } else rst
  let rst := if level ≥ 5 then { rst with func := g.func } else rst
  let rst := if level ≥ 6 then { rst with target := g.target } else rst
  if level = 5 then
    { rst with
      ratioResAvg := normalInfo.ratioRes.map FieldInfo.countAvg
      ratioResStd := normalInfo.ratioRes.map FieldInfo.std
      avgDelayAvg := normalInfo.avgDelay.map FieldInfo.countAvg
      avgDelayStd := normalInfo.avgDelay.map FieldInfo.std }
  else rst

/-! ### Comparing a node -/

/-- Statements on what the detector keeps. -/
abbrev Check := Statement ArithmeticError Detector

/-- The score of a field, the record made of it by `finish`, and its event. -/
def scoreField (field : FieldInfo) (x : ℚ) (level : Nat) (finish : AnoInfo → AnoInfo) : Check := fun d =>
  match calAnomalyScore field x d.gAnoInfo with
  | (.ok score, g) =>
    let g := finish { g with score }
    ({ d with gAnoInfo := g }.raise (genAnoInfo level g), .ok ())
  | (.error e, g) => ({ d with gAnoInfo := g }, .error e)

/-- The three statements of `check_node` for one field. -/
def checkField (name : Text) (field : FieldInfo) (x : ℚ) (level : Nat) : Check :=
  .seq (.effect fun d => { d with gAnoInfo := { d.gAnoInfo with field := some name } })
    (scoreField field x level id)

/-- A field that both nodes have. -/
def checkOptional (name : Text) (field : Option FieldInfo) (x : Option ℚ) (level : Nat) : Check :=
  match x, field with
  | some x, some field => checkField name field x level
  | _, _ => .skip

/-- `(current_info$num_res+0.0)/current_info$num`. The node is counted, so that the division does not raise. -/
def responseRatio (currentInfo : StatsCount.CountedInfo) : Option ℚ :=
  currentInfo.numRes.map fun numRes => numRes / currentInfo.num

theorem divide_numRes {currentInfo : StatsCount.CountedInfo} {numRes : Nat}
    (hnumRes : currentInfo.numRes = some numRes) :
    divide (numRes : ℚ) currentInfo.num = .ok (numRes / currentInfo.num) :=
  divide_ok (Nat.cast_ne_zero.mpr (currentInfo.counted (by rw [hnumRes]; exact Option.some_ne_none _)))

def checkNode (normalInfo : CountInfo) (currentInfo : StatsCount.CountedInfo) (level : Nat) : Check :=
  .seq (checkField "number".toList normalInfo.num currentInfo.num level)
    (.seq (checkField "bytes".toList normalInfo.bytes currentInfo.bytes level)
      (.seq (checkOptional "response_ratio".toList normalInfo.ratioRes (responseRatio currentInfo) level)
        (checkOptional "average_response_delay".toList normalInfo.avgDelay currentInfo.avgDelay level)))

def nodeDisappear (normalInfo : CountInfo) (level : Nat) : Check :=
  scoreField normalInfo.num 0 level fun g => { g with desc := .trafficDis }

def nodeNew (currentInfo : StatsCount.CountedInfo) (level : Nat) : Check :=
  .effect fun d =>
    let g := { d.gAnoInfo with desc := .trafficNew, score := 1, current := some (currentInfo.num : ℚ) }
    { d with gAnoInfo := g }.raise (genAnoInfo level g)

/-! ### Training a node -/

/-- `Queue::put` on a queue without a limit. -/
def FieldInfo.put (field : FieldInfo) (x : ℚ) : FieldInfo :=
  { field with countQueue := field.countQueue ++ [x] }

/-- A field that is there or is created, when the current node has a value for it. -/
def putOptional (field : Option FieldInfo) : Option ℚ → Option FieldInfo
  | none => field
  | some x => some ((field.getD {}).put x)

/-- `initialize_node`. The body of its `when` runs on a copy of the frame. -/
def initializeNode (currentInfo : StatsCount.CountedInfo) (normalInfo : CountInfo) : CountInfo where
  num := normalInfo.num.put currentInfo.num
  bytes := normalInfo.bytes.put currentInfo.bytes
  ratioRes := putOptional normalInfo.ratioRes (responseRatio currentInfo)
  avgDelay := putOptional normalInfo.avgDelay currentInfo.avgDelay

/-- The locals of the loop of `cal_avg_std`. -/
structure Moments where
  n : Nat := 0
  mean : ℚ := 0
  m2 : ℚ := 0

/-- One iteration. -/
def Moments.add (m : Moments) (x : ℚ) : Moments :=
  let n := m.n + 1
  let delta := x - m.mean
  let mean := m.mean + delta / n
  ⟨n, mean, m.m2 + delta * (x - mean)⟩

def calAvgStd (sqrt : ℚ → ℚ) (field : FieldInfo) : FieldInfo :=
  let m := field.countQueue.foldl Moments.add {}
  { field with m2 := m.m2, countAvg := m.mean, std := if m.n > 1 then sqrt (m.m2 / (m.n - 1)) else 0 }

/-- `while(Queue::len(q) < num_period) Queue::put(q, 0.0)`. -/
def FieldInfo.pad (numPeriod : Nat) (field : FieldInfo) : FieldInfo :=
  { field with
    countQueue := field.countQueue ++ List.replicate (numPeriod - field.countQueue.length) 0 }

def calAvgStdNode (sqrt : ℚ → ℚ) (numPeriod : Nat) (normalInfo : CountInfo) : CountInfo where
  num := calAvgStd sqrt (normalInfo.num.pad numPeriod)
  bytes := calAvgStd sqrt normalInfo.bytes
  ratioRes := normalInfo.ratioRes.map (calAvgStd sqrt)
  avgDelay := normalInfo.avgDelay.map (calAvgStd sqrt)

end Armore.AnoDet
