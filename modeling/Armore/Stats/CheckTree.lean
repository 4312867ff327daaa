import Armore.Stats.AnoDet
import Mathlib.Tactic.IntervalCases

/-!
# Comparing the current tree with the normal tree

`check_tree` walks both trees and raises an event for each difference. The six functions for the levels
are one walk over the children of a pair of nodes. What the walk finds is described without the shared
record: a report says at which path something was found, and `render` is the event it is raised as. The
reports of two trees at a path depend on what the trees have there and on whether both have its parent. The
walk ends early at a score that cannot be computed; with deviations that are not negative there is none.
-/

namespace Armore.AnoDet

open Lib

/-! ### The walk -/

section

variable {n : Nat}

/-- The body of `check_tree_level1` to `check_tree_level6`. -/
def checkChildren (level : Nat)
    (deeper : Trie Text StatsCount.CountedInfo n → Trie Text CountInfo n → Check)
    (current : Trie Text StatsCount.CountedInfo (n + 1)) (normal : Trie Text CountInfo (n + 1)) : Check :=
  .seq
    (.forEach (fun entry => .seq (.effect fun d => d.label level entry.1)
      (match normal.child? entry.1 with
      | none => nodeNew entry.2.info level
      | some node => .seq (checkNode node.info entry.2.info level) (deeper entry.2 node))) current.childList)
    (.forEach (fun entry => .seq (.effect fun d => d.label level entry.1)
      (if (current.child? entry.1).isNone then nodeDisappear entry.2.info level else .skip)) normal.childList)

end

/-- `check_tree_level6`: a target has no children. -/
def checkTreeLevel6 : StatsCount.Level5Node → Level5Node → Check :=
  checkChildren 6 fun _ _ => .skip

def checkTreeLevel5 : StatsCount.Level4Node → Level4Node → Check :=
  checkChildren 5 checkTreeLevel6

def checkTreeLevel4 : StatsCount.Level3Node → Level3Node → Check :=
  checkChildren 4 checkTreeLevel5

def checkTreeLevel3 : StatsCount.Level2Node → Level2Node → Check :=
  checkChildren 3 checkTreeLevel4

def checkTreeLevel2 : StatsCount.Level1Node → Level1Node → Check :=
  checkChildren 2 checkTreeLevel3

def checkTreeLevel1 : StatsCount.CountedTree → RootNode → Check :=
  checkChildren 1 checkTreeLevel2

def checkTree (normalTree : RootNode) (currentTree : StatsCount.CountedTree) : Check :=
  .seq (checkNode normalTree.info currentTree.info 0) (checkTreeLevel1 currentTree normalTree)

/-! ### Reports -/

/-- What is found at a node: it is new, it has disappeared, or one of its fields is compared. -/
inductive Finding
  | isNew (current : StatsCount.CountedInfo)
  | disappeared (normal : CountInfo)
  | compared (name : Text) (field : FieldInfo) (x : ℚ)

structure Report where
  path : List Text
  finding : Finding

/-- A property of each field of a node. -/
def EachField (P : FieldInfo → Prop) (info : CountInfo) : Prop := ∀ name field, info.get? name = some field → P field

/-- A property of each field of each node. -/
def EachNode (P : FieldInfo → Prop) (tree : RootNode) : Prop :=
  ∀ path info, tree.find? path = some info → EachField P info

/-- A score can be computed unless the value is the average and the deviation is negative. -/
def Scorable (field : FieldInfo) (x : ℚ) : Prop := x = field.countAvg → 0 ≤ field.std

instance (field : FieldInfo) (x : ℚ) : Decidable (Scorable field x) :=
  inferInstanceAs (Decidable (x = field.countAvg → 0 ≤ field.std))

/-- The score that comes with a finding can be computed. -/
def Finding.Defined : Finding → Prop
  | isNew _ => True
  | disappeared normal => Scorable normal.num 0
  | compared _ field x => Scorable field x

instance : DecidablePred Finding.Defined
  | .isNew _ => .isTrue trivial
  | .disappeared normal => inferInstanceAs (Decidable (Scorable normal.num 0))
  | .compared _ field x => inferInstanceAs (Decidable (Scorable field x))

/-- The reports up to the first one without a score. -/
def computed (reports : List Report) : List Report := reports.takeWhile fun report => report.finding.Defined

/-- The description of a value. -/
def verdict (field : FieldInfo) (x : ℚ) : AnoType :=
  if x ≥ field.countAvg - field.std ∧ x ≤ field.countAvg + field.std then .unknown
  else if x > field.countAvg + field.std then .fieldTooLarge else .fieldTooSmall

/-- The score of a value. -/
def scoreOf (field : FieldInfo) (x : ℚ) : ℚ :=
  if x ≥ field.countAvg - field.std ∧ x ≤ field.countAvg + field.std then 0
  else 1 - field.std * field.std / ((x - field.countAvg) * (x - field.countAvg))

/-- The event a report is raised as, in the period of `g`. -/
def render (g : AnoInfo) (report : Report) : AnoInfo :=
  let labelled (desc : AnoType) (score : ℚ) : AnoInfo :=
    { periodId := g.periodId, ts := g.ts, period := g.period, desc, score
      sender := report.path[0]?, receiver := report.path[1]?, protocol := report.path[2]?
      uid := report.path[3]?, func := report.path[4]?, target := report.path[5]? }
  match report.finding with
  | .isNew current => { labelled .trafficNew 1 with current := some (current.num : ℚ) }
  | .disappeared normal =>
      { labelled .trafficDis (scoreOf normal.num 0) with
        average := some normal.num.countAvg, std := some normal.num.std }
  | .compared name field x =>
      if verdict field x = .unknown then labelled .unknown (scoreOf field x)
      else
        { labelled (verdict field x) (scoreOf field x) with
          field := some name, average := some field.countAvg, std := some field.std
          current := some x }

def comparedIfBoth (name : Text) (field : Option FieldInfo) (x : Option ℚ) : List Finding :=
  match x, field with
  | some x, some field => [.compared name field x]
  | _, _ => []

/-- The fields that two nodes have in common. -/
def comparisons (normal : CountInfo) (current : StatsCount.CountedInfo) : List Finding :=
  [.compared "number".toList normal.num current.num, .compared "bytes".toList normal.bytes current.bytes]
    ++ comparedIfBoth "response_ratio".toList normal.ratioRes (responseRatio current)
    ++ comparedIfBoth "average_response_delay".toList normal.avgDelay current.avgDelay

/-- The findings at a path of two trees. -/
def findings {n : Nat} (normal : Trie Text CountInfo n) (current : Trie Text StatsCount.CountedInfo n)
    (path : List Text) : List Finding :=
  match normal.find? path, current.find? path with
  | some normalInfo, some currentInfo => comparisons normalInfo currentInfo
  | none, some currentInfo =>
      if (normal.find? path.dropLast).isSome then [.isNew currentInfo] else []
  | some normalInfo, none =>
      if (current.find? path.dropLast).isSome then [.disappeared normalInfo] else []
  | none, none => []

/-! ### What is raised for a node -/

namespace AnoInfo

/-- The labels of the levels of a path are those of the path. -/
def Labelled (g : AnoInfo) (path : List Text) : Prop := ∀ i, i < path.length → g.labelAt i = path[i]?

def SamePeriod (g g' : AnoInfo) : Prop :=
  g'.periodId = g.periodId ∧ g'.ts = g.ts ∧ g'.period = g.period

/-- The record with the labels of a path and no others. -/
def atPath (g : AnoInfo) (path : List Text) : AnoInfo :=
  { g with
    sender := path[0]?, receiver := path[1]?, protocol := path[2]?
    uid := path[3]?, func := path[4]?, target := path[5]? }

theorem Labelled.of_append {g : AnoInfo} {path path' : List Text} (hg : g.Labelled (path ++ path')) :
    g.Labelled path := by
  intro i hi
  have hlabel := hg i (by rw [List.length_append]; omega)
  rwa [List.getElem?_append_left hi] at hlabel

/-- The loop over a level sets the label of that level. -/
theorem Labelled.label {g : AnoInfo} {path : List Text} (hg : g.Labelled path) (hlength : path.length < 6)
    (key : Text) : (g.label (path.length + 1) key).Labelled (path ++ [key]) := by
  intro i hi
  rw [List.length_append, List.length_singleton] at hi
  have hkept : i < path.length → (g.label (path.length + 1) key).labelAt i = g.labelAt i := by
    intro hlt
    generalize path.length = m at hlt hlength
    interval_cases m <;> interval_cases i <;> rfl
  have hset : (g.label (path.length + 1) key).labelAt path.length = some key := by
    generalize path.length = m at hlength
    interval_cases m <;> rfl
  rcases Nat.lt_or_ge i path.length with hlt | hge
  · rw [hkept hlt, hg i hlt, List.getElem?_append_left hlt]
  · have heq : i = path.length := by omega
    rw [heq, hset, List.getElem?_concat_length]

theorem samePeriod_label (g : AnoInfo) (level : Nat) (key : Text) : g.SamePeriod (g.label level key) := by
  unfold label
  split <;> exact ⟨rfl, rfl, rfl⟩

end AnoInfo

open AnoInfo

/-- `gen_ano_info` copies the labels of its level and leaves the others unset. -/
theorem genAnoInfo_of_labelled {g : AnoInfo} {path : List Text} (hg : g.Labelled path)
    (hlength : path.length ≤ 6) : genAnoInfo path.length g = genAnoInfo 6 (g.atPath path) := by
  have h0 := hg 0
  have h1 := hg 1
  have h2 := hg 2
  have h3 := hg 3
  have h4 := hg 4
  have h5 := hg 5
  rcases path with _ | ⟨a, _ | ⟨b, _ | ⟨c, _ | ⟨d, _ | ⟨e, _ | ⟨f, _ | ⟨_, _⟩⟩⟩⟩⟩⟩⟩
  case cons.cons.cons.cons.cons.cons.cons =>
    simp only [List.length_cons] at hlength
    omega
  all_goals
    simp [labelAt] at h0 h1 h2 h3 h4 h5
    simp [genAnoInfo, atPath, *]

theorem render_congr {g g' : AnoInfo} (hperiod : g.SamePeriod g') (report : Report) :
    render g' report = render g report := by
  obtain ⟨hid, hts, hlength⟩ := hperiod
  simp only [render, hid, hts, hlength]

theorem computed_of_defined {reports : List Report} (hdefined : ∀ report ∈ reports, report.finding.Defined) :
    computed reports = reports := by
  rw [computed, List.takeWhile_eq_self_iff]
  exact fun report hreport => decide_eq_true (hdefined report hreport)

theorem computed_append_of_defined {reports : List Report}
    (hdefined : ∀ report ∈ reports, report.finding.Defined) (reports' : List Report) :
    computed (reports ++ reports') = reports ++ computed reports' :=
  List.takeWhile_append_of_pos fun report hreport => decide_eq_true (hdefined report hreport)

theorem computed_append_of_not {reports : List Report}
    (hundefined : ¬ ∀ report ∈ reports, report.finding.Defined) (reports' : List Report) :
    computed (reports ++ reports') = computed reports := by
  induction reports with
  | nil => exact absurd (fun _ h => nomatch h) hundefined
  | cons report reports ih =>
      rw [List.forall_mem_cons, not_and] at hundefined
      rw [List.cons_append, computed, computed, List.takeWhile_cons, List.takeWhile_cons, ← computed, ← computed]
      split
      next hreport => rw [ih (hundefined (of_decide_eq_true hreport))]
      next => rfl

/-- From `d` to the end of a statement the reports are raised, in a place that has the labels of a path. The
first one without a score ends it. -/
structure Raises (path : List Text) (d : Detector) (result : Detector × Except ArithmeticError Unit)
    (reports : List Report) : Prop where
  labelled : result.2 = .ok () → result.1.gAnoInfo.Labelled path
  period : d.gAnoInfo.SamePeriod result.1.gAnoInfo
  raised : result.1.raised = d.raised ++ (computed reports).map (render d.gAnoInfo)
  logBase : result.1.logBase = d.logBase
  returns : result.2 = .ok () ↔ ∀ report ∈ reports, report.finding.Defined

/-- A statement that raises nothing. -/
theorem Raises.nothing {path : List Text} {d d' : Detector} (hlabelled : d'.gAnoInfo.Labelled path)
    (hperiod : d.gAnoInfo.SamePeriod d'.gAnoInfo) (hraised : d'.raised = d.raised)
    (hlogBase : d'.logBase = d.logBase) : Raises path d (d', .ok ()) [] where
  labelled _ := hlabelled
  period := hperiod
  raised := hraised.trans (List.append_nil _).symm
  logBase := hlogBase
  returns := iff_of_true rfl fun _ h => nomatch h

theorem Raises.skip {path : List Text} {d : Detector} (hd : d.gAnoInfo.Labelled path) :
    Raises path d (Statement.skip d) [] :=
  .nothing hd ⟨rfl, rfl, rfl⟩ rfl rfl

/-- One statement behind another: what the second raises comes behind what the first did. -/
theorem Raises.seq {path path' : List Text} {d : Detector} {first second : Check}
    {reports reports' : List Report} (h : Raises path d (first d) reports)
    (h' : (first d).1.gAnoInfo.Labelled path → Raises path' (first d).1 (second (first d).1) reports') :
    Raises path' d (first.seq second d) (reports ++ reports') := by
  cases hend : (first d).2 with
  | ok =>
      have hdefined := h.returns.mp hend
      have h' := h' (h.labelled hend)
      have hrender : (computed reports').map (render (first d).1.gAnoInfo)
          = (computed reports').map (render d.gAnoInfo) :=
        List.map_congr_left fun report _ => render_congr h.period report
      have hraised : (second (first d).1).1.raised
          = d.raised ++ (computed (reports ++ reports')).map (render d.gAnoInfo) := by
        rw [h'.raised, h.raised, hrender, computed_of_defined hdefined, computed_append_of_defined hdefined,
          List.map_append, List.append_assoc]
      rw [Statement.seq_of_ok hend]
      refine ⟨h'.labelled, ⟨h'.period.1.trans h.period.1, h'.period.2.1.trans h.period.2.1,
        h'.period.2.2.trans h.period.2.2⟩, hraised, h'.logBase.trans h.logBase, ?_⟩
      rw [h'.returns, List.forall_mem_append, and_iff_right hdefined]
  | error e =>
      have herror : (first d).2 ≠ .ok () := by rw [hend]; exact nofun
      have hundefined := mt h.returns.mpr herror
      rw [Statement.seq_of_error hend]
      refine ⟨fun hok => absurd hok herror, h.period, ?_, h.logBase, ?_⟩
      · rw [h.raised, computed_append_of_not hundefined]
      · rw [List.forall_mem_append]
        exact iff_of_false herror fun hall => hundefined hall.1

/-- A round of the loop over a level: the label is set, and what comes behind it raises with this label. -/
theorem raises_round {path : List Text} {d : Detector} (hd : d.gAnoInfo.Labelled path) (hlength : path.length < 6)
    (key : Text) {rest : Check} {reports : List Report}
    (hrest : ∀ d', d'.gAnoInfo.Labelled (path ++ [key]) → Raises (path ++ [key]) d' (rest d') reports) :
    Raises path d (Statement.seq (.effect fun d => d.label (path.length + 1) key) rest d) reports := by
  have hlabel : Raises (path ++ [key]) d (Statement.effect (fun d => d.label (path.length + 1) key) d) [] :=
    .nothing (hd.label hlength key) (samePeriod_label _ _ _) rfl rfl
  have hround := hlabel.seq (hrest _)
  exact ⟨fun hok => (hround.labelled hok).of_append, hround.period, hround.raised, hround.logBase, hround.returns⟩

/-- One event, made of a record with the same labels and period. -/
theorem raises_event {path : List Text} {d : Detector} {g : AnoInfo} {report : Report}
    (hdefined : report.finding.Defined)
    (hlabel : ∀ i, g.labelAt i = d.gAnoInfo.labelAt i) (hperiod : d.gAnoInfo.SamePeriod g)
    (hd : d.gAnoInfo.Labelled path) (hlength : path.length ≤ 6)
    (hreport : genAnoInfo 6 (g.atPath path) = render d.gAnoInfo report) :
    Raises path d ({ d with gAnoInfo := g }.raise (genAnoInfo path.length g), .ok ()) [report] := by
  have hg : g.Labelled path := by
    intro i hi
    rw [hlabel, hd i hi]
  have hone : ∀ report' ∈ [report], report'.finding.Defined := by
    intro report' hreport'
    rwa [List.mem_singleton.mp hreport']
  refine ⟨fun _ => hg, hperiod, ?_, rfl, iff_of_true rfl hone⟩
  rw [computed_of_defined hone]
  show d.raised ++ [genAnoInfo path.length g] = d.raised ++ [render d.gAnoInfo report]
  rw [genAnoInfo_of_labelled hg hlength, hreport]

/-- What `cal_anomaly_score` leaves in the record. -/
def AnoInfo.scored (g : AnoInfo) (field : FieldInfo) (x : ℚ) : AnoInfo :=
  { g with current := some x, average := some field.countAvg, std := some field.std, desc := verdict field x }

theorem calAnomalyScore_of_scorable {field : FieldInfo} {x : ℚ} (hscorable : Scorable field x) (g : AnoInfo) :
    calAnomalyScore field x g = (.ok (scoreOf field x), g.scored field x) := by
  unfold calAnomalyScore scoreOf AnoInfo.scored verdict
  dsimp only
  split
  · rfl
  · rename_i houtside
    have hne : x - field.countAvg ≠ 0 := by
      intro hzero
      have hx : x = field.countAvg := sub_eq_zero.mp hzero
      have hstd := hscorable hx
      exact houtside ⟨by rw [hx]; exact sub_le_self _ hstd, by rw [hx]; exact le_add_of_nonneg_right hstd⟩
    rw [divide_ok (mul_ne_zero hne hne)]
    rfl

/-- The average is outside a band of negative width, and has no distance from itself to divide by. -/
theorem calAnomalyScore_of_not_scorable {field : FieldInfo} {x : ℚ} (hscorable : ¬Scorable field x) (g : AnoInfo) :
    calAnomalyScore field x g = (.error .divisionByZero, g.scored field x) := by
  obtain ⟨rfl, hstd⟩ : x = field.countAvg ∧ ¬0 ≤ field.std := Classical.not_imp.mp hscorable
  have houtside : ¬(field.countAvg ≥ field.countAvg - field.std ∧ field.countAvg ≤ field.countAvg + field.std) := by
    rw [le_add_iff_nonneg_right]
    exact fun h => hstd h.2
  unfold calAnomalyScore AnoInfo.scored verdict
  dsimp only
  rw [if_neg houtside, if_neg houtside, divide_zero _ (by rw [sub_self, mul_zero])]
  rfl

theorem verdict_cases (field : FieldInfo) (x : ℚ) :
    verdict field x = .unknown ∨ verdict field x = .fieldTooLarge ∨ verdict field x = .fieldTooSmall := by
  unfold verdict
  split
  · exact .inl rfl
  · split
    · exact .inr (.inl rfl)
    · exact .inr (.inr rfl)

section

variable {path : List Text} {d : Detector} (hd : d.gAnoInfo.Labelled path) (hlength : path.length ≤ 6)
include hd hlength

theorem raises_nodeNew (current : StatsCount.CountedInfo) :
    Raises path d (nodeNew current path.length d) [⟨path, .isNew current⟩] := by
  refine raises_event trivial (fun i => ?_) ⟨rfl, rfl, rfl⟩ hd hlength ?_
  · rcases i with _ | _ | _ | _ | _ | _ | _ <;> rfl
  · simp [genAnoInfo, atPath, render]

/-- A score is raised as one report, or its division raises. -/
theorem raises_scoreField {field : FieldInfo} {x : ℚ} {finish : AnoInfo → AnoInfo} {finding : Finding}
    (hdefined : finding.Defined ↔ Scorable field x)
    (hlabel : ∀ g i, AnoInfo.labelAt (finish g) i = g.labelAt i) (hperiod : ∀ g : AnoInfo, g.SamePeriod (finish g))
    (hreport : genAnoInfo 6 ((finish { d.gAnoInfo.scored field x with score := scoreOf field x }).atPath path)
      = render d.gAnoInfo ⟨path, finding⟩) :
    Raises path d (scoreField field x path.length finish d) [⟨path, finding⟩] := by
  unfold scoreField
  by_cases hscorable : Scorable field x
  · rw [calAnomalyScore_of_scorable hscorable]
    refine raises_event (hdefined.mpr hscorable) (fun i => ?_) (hperiod _) hd hlength hreport
    rw [hlabel]
    rcases i with _ | _ | _ | _ | _ | _ | _ <;> rfl
  · rw [calAnomalyScore_of_not_scorable hscorable]
    have hundefined : ¬finding.Defined := mt hdefined.mp hscorable
    have hnone : computed [⟨path, finding⟩] = [] :=
      List.takeWhile_cons_of_neg (by rwa [decide_eq_true_eq])
    refine ⟨nofun, ⟨rfl, rfl, rfl⟩, ?_, rfl, iff_of_false nofun fun hall => ?_⟩
    · rw [hnone]
      exact (List.append_nil _).symm
    · exact hundefined (hall _ List.mem_cons_self)

theorem raises_nodeDisappear (normal : CountInfo) :
    Raises path d (nodeDisappear normal path.length d) [⟨path, .disappeared normal⟩] := by
  refine raises_scoreField hd hlength .rfl (fun g i => ?_) (fun g => ⟨rfl, rfl, rfl⟩) ?_
  · rcases i with _ | _ | _ | _ | _ | _ | _ <;> rfl
  · simp [genAnoInfo, atPath, render, AnoInfo.scored]

theorem raises_checkField (name : Text) (field : FieldInfo) (x : ℚ) :
    Raises path d (checkField name field x path.length d) [⟨path, .compared name field x⟩] := by
  have hnamed : Raises path d
      (Statement.effect (fun d => { d with gAnoInfo := { d.gAnoInfo with field := some name } }) d) [] :=
    .nothing hd ⟨rfl, rfl, rfl⟩ rfl rfl
  refine hnamed.seq fun hlabelled => ?_
  refine raises_scoreField hlabelled hlength .rfl (fun _ _ => rfl) (fun _ => ⟨rfl, rfl, rfl⟩) ?_
  rcases verdict_cases field x with h | h | h <;>
    simp [Statement.effect, genAnoInfo, atPath, render, AnoInfo.scored, h]

theorem raises_checkOptional (name : Text) (field : Option FieldInfo) (x : Option ℚ) :
    Raises path d (checkOptional name field x path.length d)
      ((comparedIfBoth name field x).map (Report.mk path)) := by
  cases x with
  | none => exact .skip hd
  | some x =>
      cases field with
      | none => exact .skip hd
      | some field => exact raises_checkField hd hlength name field x

theorem raises_checkNode (normal : CountInfo) (current : StatsCount.CountedInfo) :
    Raises path d (checkNode normal current path.length d)
      ((comparisons normal current).map (Report.mk path)) := by
  have hreports : (comparisons normal current).map (Report.mk path)
      = [⟨path, .compared "number".toList normal.num current.num⟩]
        ++ ([⟨path, .compared "bytes".toList normal.bytes current.bytes⟩]
          ++ ((comparedIfBoth "response_ratio".toList normal.ratioRes (responseRatio current)).map (Report.mk path)
            ++ (comparedIfBoth "average_response_delay".toList normal.avgDelay current.avgDelay).map
              (Report.mk path))) := by
    rw [comparisons, List.map_append, List.map_append]
    simp
  rw [hreports]
  exact (raises_checkField hd hlength _ _ _).seq fun hnum =>
    (raises_checkField hnum hlength _ _ _).seq fun hbytes =>
      (raises_checkOptional hbytes hlength _ _ _).seq fun hratio =>
        raises_checkOptional hratio hlength _ _ _

end

/-! ### What is raised below a pair of nodes -/

section

variable {n : Nat}

/-- The reports for a child of the current node, and below it where the normal node has the child too. -/
def seenReports
    (below : List Text → Trie Text StatsCount.CountedInfo n → Trie Text CountInfo n → List Report)
    (path : List Text) (normal : Trie Text CountInfo (n + 1))
    (entry : Sigma fun _ : Text => Trie Text StatsCount.CountedInfo n) : List Report :=
  match normal.child? entry.1 with
  | none => [⟨path ++ [entry.1], .isNew entry.2.info⟩]
  | some node =>
      (comparisons node.info entry.2.info).map (Report.mk (path ++ [entry.1]))
        ++ below (path ++ [entry.1]) entry.2 node

/-- The report for a child of the normal node that the current node does not have. -/
def goneReports (path : List Text) (current : Trie Text StatsCount.CountedInfo (n + 1))
    (entry : Sigma fun _ : Text => Trie Text CountInfo n) : List Report :=
  if (current.child? entry.1).isNone then [⟨path ++ [entry.1], .disappeared entry.2.info⟩] else []

end

/-- The reports below a path at which both trees have a node. -/
def reportsBelow : (n : Nat) → List Text → Trie Text StatsCount.CountedInfo n → Trie Text CountInfo n →
    List Report
  | 0, _, _, _ => []
  | n + 1, path, current, normal =>
      current.childList.flatMap (seenReports (reportsBelow n) path normal)
        ++ normal.childList.flatMap (goneReports path current)

/-- The walk over a level raises the reports below its pair of nodes. -/
def Walks (n : Nat)
    (walk : Trie Text StatsCount.CountedInfo n → Trie Text CountInfo n → Check) : Prop :=
  ∀ path current normal d, path.length + n = 6 → d.gAnoInfo.Labelled path →
    Raises path d (walk current normal d) (reportsBelow n path current normal)

theorem raises_forEach {β : Type} {path : List Text} {body : β → Check} {reports : β → List Report}
    (hbody : ∀ d entry, d.gAnoInfo.Labelled path → Raises path d (body entry d) (reports entry))
    (entries : List β) {d : Detector} (hd : d.gAnoInfo.Labelled path) :
    Raises path d (Statement.forEach body entries d) (entries.flatMap reports) := by
  induction entries generalizing d with
  | nil => exact .skip hd
  | cons entry entries ih => exact (hbody d entry hd).seq ih

theorem walks_leaf : Walks 0 fun _ _ => .skip := by
  intro path current normal d _ hd
  exact .skip hd

theorem walks_checkChildren {n : Nat}
    {deeper : Trie Text StatsCount.CountedInfo n → Trie Text CountInfo n → Check}
    (hdeeper : Walks n deeper) {level : Nat} (hlevel : level + n = 6) :
    Walks (n + 1) (checkChildren level deeper) := by
  intro path current normal d hlength hd
  have hlevel : level = path.length + 1 := by omega
  subst hlevel
  have hshort : path.length < 6 := by omega
  refine (raises_forEach (fun d entry hd => ?_) current.childList hd).seq
    (raises_forEach (fun d entry hd => ?_) normal.childList)
  · have hkey : (path ++ [entry.1]).length = path.length + 1 := by simp
    apply raises_round hd hshort
    intro d hlabel
    rw [← hkey, seenReports]
    cases normal.child? entry.1 with
    | none => exact raises_nodeNew hlabel (by omega) entry.2.info
    | some node =>
        exact (raises_checkNode hlabel (by omega) node.info entry.2.info).seq
          (hdeeper _ entry.2 node _ (by omega))
  · have hkey : (path ++ [entry.1]).length = path.length + 1 := by simp
    apply raises_round hd hshort
    intro d hlabel
    rw [← hkey, goneReports]
    split
    · exact raises_nodeDisappear hlabel (by omega) entry.2.info
    · exact .skip hlabel

theorem walks_checkTreeLevel1 : Walks 6 checkTreeLevel1 :=
  walks_checkChildren (walks_checkChildren (walks_checkChildren (walks_checkChildren
    (walks_checkChildren (walks_checkChildren walks_leaf rfl) rfl) rfl) rfl) rfl) rfl

/-- All reports of a comparison. -/
def reports (normal : RootNode) (current : StatsCount.CountedTree) : List Report :=
  (comparisons normal.info current.info).map (Report.mk []) ++ reportsBelow 6 [] current normal

theorem checkTree_raises (normal : RootNode) (current : StatsCount.CountedTree) (d : Detector) :
    Raises [] d (checkTree normal current d) (reports normal current) := by
  have hd : d.gAnoInfo.Labelled [] := fun i hi => absurd hi (Nat.not_lt_zero i)
  exact (raises_checkNode hd (Nat.zero_le _) normal.info current.info).seq
    (walks_checkTreeLevel1 [] current normal _ rfl)

/-! ### The reports at a path -/

/-- What is reported at a path, in order. -/
def found (path : List Text) (reports : List Report) : List Finding :=
  (reports.filter fun report => report.path = path).map Report.finding

theorem found_append (path : List Text) (reports reports' : List Report) :
    found path (reports ++ reports') = found path reports ++ found path reports' := by
  rw [found, List.filter_append, List.map_append, found, found]

theorem found_eq_nil {path : List Text} {reports : List Report}
    (hother : ∀ report ∈ reports, report.path ≠ path) : found path reports = [] := by
  have hnone : (reports.filter fun report => report.path = path) = [] := by
    apply List.filter_eq_nil_iff.mpr
    intro report hreport
    simpa using hother report hreport
  rw [found, hnone, List.map_nil]

theorem found_map_mk (path : List Text) (list : List Finding) :
    found path (list.map (Report.mk path)) = list := by
  rw [found, List.filter_eq_self.mpr, List.map_map]
  · exact List.map_id list
  · intro report hreport
    obtain ⟨finding, _, rfl⟩ := List.mem_map.mp hreport
    exact decide_eq_true rfl

section

variable {K V : Type} {report : (Sigma fun _ : K => V) → List Report} {path : List Text}

theorem found_flatMap_eq_nil {entries : List (Sigma fun _ : K => V)}
    (hnone : ∀ entry ∈ entries, found path (report entry) = []) :
    found path (entries.flatMap report) = [] := by
  induction entries with
  | nil => rfl
  | cons entry entries ih =>
      rw [List.flatMap_cons, found_append, hnone entry List.mem_cons_self, List.nil_append]
      exact ih fun entry' hentry' => hnone entry' (List.mem_cons_of_mem _ hentry')

/-- Entries with distinct keys report at paths of their own, so what is found at a path below a key is
found by the entry with that key. -/
theorem found_flatMap {entries : List (Sigma fun _ : K => V)}
    (hnodup : (entries.map Sigma.fst).Nodup) {entry : Sigma fun _ : K => V} (hmem : entry ∈ entries)
    (hother : ∀ entry', entry'.1 ≠ entry.1 → found path (report entry') = []) :
    found path (entries.flatMap report) = found path (report entry) := by
  induction entries with
  | nil => cases hmem
  | cons first entries ih =>
      rw [List.map_cons, List.nodup_cons] at hnodup
      have hkey : ∀ entry' ∈ entries, first.1 ≠ entry'.1 := by
        intro entry' hentry' heq
        exact hnodup.1 (heq ▸ List.mem_map_of_mem hentry')
      rw [List.flatMap_cons, found_append]
      rcases List.mem_cons.mp hmem with hfirst | hrest
      · subst hfirst
        have hnone := found_flatMap_eq_nil fun entry' hentry' =>
          hother entry' (hkey entry' hentry').symm
        rw [hnone, List.append_nil]
      · rw [hother first (hkey entry hrest), List.nil_append]
        exact ih hnodup.2 hrest

end

theorem path_of_mem_reportsBelow {n : Nat} {path : List Text}
    {current : Trie Text StatsCount.CountedInfo n} {normal : Trie Text CountInfo n} {report : Report}
    (hreport : report ∈ reportsBelow n path current normal) :
    ∃ key rest, report.path = path ++ key :: rest := by
  induction n generalizing path with
  | zero => cases hreport
  | succ n ih =>
      rw [reportsBelow, List.mem_append, List.mem_flatMap, List.mem_flatMap] at hreport
      rcases hreport with ⟨entry, _, hentry⟩ | ⟨entry, _, hentry⟩
      · unfold seenReports at hentry
        split at hentry
        · rw [List.mem_singleton.mp hentry]
          exact ⟨entry.1, [], rfl⟩
        · rcases List.mem_append.mp hentry with hnode | hbelow
          · obtain ⟨_, _, rfl⟩ := List.mem_map.mp hnode
            exact ⟨entry.1, [], rfl⟩
          · obtain ⟨key, rest, hpath⟩ := ih hbelow
            exact ⟨entry.1, key :: rest, by rw [hpath, List.append_assoc, List.singleton_append]⟩
      · unfold goneReports at hentry
        split at hentry
        · rw [List.mem_singleton.mp hentry]
          exact ⟨entry.1, [], rfl⟩
        · cases hentry

theorem found_singleton (path : List Text) (key : Text) (rest : List Text) (finding : Finding) :
    found (path ++ key :: rest) [⟨path ++ [key], finding⟩] = if rest = [] then [finding] else [] := by
  split
  next hrest =>
    subst hrest
    exact found_map_mk (path ++ [key]) [finding]
  next hrest =>
    apply found_eq_nil
    intro report hreport heq
    rw [List.mem_singleton.mp hreport, List.append_cancel_left_eq] at heq
    exact hrest (List.cons.inj heq).2.symm

theorem found_seenReports_of_ne {n : Nat} {path : List Text} {key : Text} {rest : List Text}
    {normal : Trie Text CountInfo (n + 1)}
    {entry : Sigma fun _ : Text => Trie Text StatsCount.CountedInfo n} (hne : entry.1 ≠ key) :
    found (path ++ key :: rest) (seenReports (reportsBelow n) path normal entry) = [] := by
  apply found_eq_nil
  intro report hreport heq
  have hpath : ∃ rest', report.path = path ++ entry.1 :: rest' := by
    unfold seenReports at hreport
    split at hreport
    · rw [List.mem_singleton.mp hreport]
      exact ⟨[], rfl⟩
    · rcases List.mem_append.mp hreport with hnode | hbelow
      · obtain ⟨_, _, rfl⟩ := List.mem_map.mp hnode
        exact ⟨[], rfl⟩
      · obtain ⟨key', rest', hpath⟩ := path_of_mem_reportsBelow hbelow
        exact ⟨key' :: rest', by rw [hpath, List.append_assoc, List.singleton_append]⟩
  obtain ⟨rest', hpath⟩ := hpath
  rw [hpath, List.append_cancel_left_eq] at heq
  exact hne (List.cons.inj heq).1

theorem found_goneReports_of_ne {n : Nat} {path : List Text} {key : Text} {rest : List Text}
    {current : Trie Text StatsCount.CountedInfo (n + 1)}
    {entry : Sigma fun _ : Text => Trie Text CountInfo n} (hne : entry.1 ≠ key) :
    found (path ++ key :: rest) (goneReports path current entry) = [] := by
  unfold goneReports
  split
  · apply found_eq_nil
    intro report hreport heq
    rw [List.mem_singleton.mp hreport, List.append_cancel_left_eq] at heq
    exact hne (List.cons.inj heq).1
  · rfl

theorem findings_cons {n : Nat} {normal : Trie Text CountInfo (n + 1)}
    {current : Trie Text StatsCount.CountedInfo (n + 1)} {key : Text} {node : Trie Text CountInfo n}
    {child : Trie Text StatsCount.CountedInfo n} (hnode : normal.child? key = some node)
    (hchild : current.child? key = some child) (rest : List Text) :
    findings normal current (key :: rest) = findings node child rest := by
  have hnormal : ∀ path, normal.find? (key :: path) = node.find? path := by
    intro path
    rw [Trie.find?_cons, hnode, Option.bind_some]
  have hcurrent : ∀ path, current.find? (key :: path) = child.find? path := by
    intro path
    rw [Trie.find?_cons, hchild, Option.bind_some]
  cases rest with
  | nil => simp [findings, hnormal, hcurrent]
  | cons key' rest =>
      have hdrop : (key :: key' :: rest).dropLast = key :: (key' :: rest).dropLast := rfl
      rw [findings, findings, hdrop, hnormal, hcurrent, hnormal, hcurrent]

/-- What the current tree alone has is new at the child and of no interest below. -/
theorem findings_of_new {n : Nat} {normal : Trie Text CountInfo (n + 1)}
    {current : Trie Text StatsCount.CountedInfo (n + 1)} {key : Text}
    {child : Trie Text StatsCount.CountedInfo n} (hnode : normal.child? key = none)
    (hchild : current.child? key = some child) (rest : List Text) :
    findings normal current (key :: rest) = if rest = [] then [.isNew child.info] else [] := by
  have hnormal : ∀ path, normal.find? (key :: path) = none := by
    intro path
    rw [Trie.find?_cons, hnode, Option.bind_none]
  have hcurrent : ∀ path, current.find? (key :: path) = child.find? path := by
    intro path
    rw [Trie.find?_cons, hchild, Option.bind_some]
  cases rest with
  | nil => simp [findings, hnormal, hcurrent]
  | cons key' rest =>
      have hdrop : (key :: key' :: rest).dropLast = key :: (key' :: rest).dropLast := rfl
      rw [findings, hdrop, hnormal, hnormal, hcurrent, if_neg (List.cons_ne_nil _ _)]
      cases child.find? (key' :: rest) <;> rfl

/-- What the normal tree alone has has disappeared at the child and is of no interest below. -/
theorem findings_of_gone {n : Nat} {normal : Trie Text CountInfo (n + 1)}
    {current : Trie Text StatsCount.CountedInfo (n + 1)} {key : Text} {node : Trie Text CountInfo n}
    (hnode : normal.child? key = some node) (hchild : current.child? key = none) (rest : List Text) :
    findings normal current (key :: rest) = if rest = [] then [.disappeared node.info] else [] := by
  have hnormal : ∀ path, normal.find? (key :: path) = node.find? path := by
    intro path
    rw [Trie.find?_cons, hnode, Option.bind_some]
  have hcurrent : ∀ path, current.find? (key :: path) = none := by
    intro path
    rw [Trie.find?_cons, hchild, Option.bind_none]
  cases rest with
  | nil => simp [findings, hnormal, hcurrent]
  | cons key' rest =>
      have hdrop : (key :: key' :: rest).dropLast = key :: (key' :: rest).dropLast := rfl
      rw [findings, hdrop, hcurrent, hcurrent, hnormal, if_neg (List.cons_ne_nil _ _)]
      cases node.find? (key' :: rest) <;> rfl

theorem findings_of_absent {n : Nat} {normal : Trie Text CountInfo (n + 1)}
    {current : Trie Text StatsCount.CountedInfo (n + 1)} {key : Text} (hnode : normal.child? key = none)
    (hchild : current.child? key = none) (rest : List Text) :
    findings normal current (key :: rest) = [] := by
  rw [findings, Trie.find?_cons, Trie.find?_cons, hnode, hchild, Option.bind_none, Option.bind_none]

/-- The child of the current node, if there is one, is the only one that reports below its key. -/
theorem found_seen {n : Nat} (path : List Text) (current : Trie Text StatsCount.CountedInfo (n + 1))
    (normal : Trie Text CountInfo (n + 1)) (key : Text) (rest : List Text) :
    found (path ++ key :: rest) (current.childList.flatMap (seenReports (reportsBelow n) path normal))
      = match current.child? key with
        | none => []
        | some child =>
            found (path ++ key :: rest) (seenReports (reportsBelow n) path normal ⟨key, child⟩) := by
  split
  next hchild =>
    apply found_flatMap_eq_nil
    intro entry hentry
    apply found_seenReports_of_ne
    intro heq
    rw [show entry = ⟨entry.1, entry.2⟩ from rfl, Trie.mem_childList, heq, hchild] at hentry
    cases hentry
  next child hchild =>
    exact found_flatMap current.childList_nodup (Trie.mem_childList.mpr hchild)
      fun entry' hne => found_seenReports_of_ne hne

theorem found_gone {n : Nat} (path : List Text) (current : Trie Text StatsCount.CountedInfo (n + 1))
    (normal : Trie Text CountInfo (n + 1)) (key : Text) (rest : List Text) :
    found (path ++ key :: rest) (normal.childList.flatMap (goneReports path current))
      = match normal.child? key with
        | none => []
        | some node => found (path ++ key :: rest) (goneReports path current ⟨key, node⟩) := by
  split
  next hnode =>
    apply found_flatMap_eq_nil
    intro entry hentry
    apply found_goneReports_of_ne
    intro heq
    rw [show entry = ⟨entry.1, entry.2⟩ from rfl, Trie.mem_childList, heq, hnode] at hentry
    cases hentry
  next node hnode =>
    exact found_flatMap normal.childList_nodup (Trie.mem_childList.mpr hnode)
      fun entry' hne => found_goneReports_of_ne hne

theorem found_node {n : Nat} (path : List Text) (key : Text) (rest : List Text)
    (child : Trie Text StatsCount.CountedInfo n) (node : Trie Text CountInfo n)
    (hbelow : ∀ key' rest', found (path ++ [key] ++ key' :: rest') (reportsBelow n (path ++ [key]) child node)
      = findings node child (key' :: rest')) :
    found (path ++ key :: rest) ((comparisons node.info child.info).map (Report.mk (path ++ [key])))
        ++ found (path ++ key :: rest) (reportsBelow n (path ++ [key]) child node)
      = findings node child rest := by
  rw [← List.singleton_append, ← List.append_assoc]
  cases rest with
  | nil =>
      rw [List.append_nil, found_map_mk, found_eq_nil, List.append_nil, findings, Trie.find?_nil,
        Trie.find?_nil]
      intro report hreport heq
      obtain ⟨key', rest', hpath⟩ := path_of_mem_reportsBelow hreport
      rw [heq] at hpath
      simp at hpath
  | cons key' rest' =>
      rw [hbelow, found_eq_nil, List.nil_append]
      intro report hreport heq
      obtain ⟨_, _, rfl⟩ := List.mem_map.mp hreport
      simp at heq

/-- **What is found below a pair of nodes** is what the two trees say of the path. -/
theorem found_reportsBelow {n : Nat} (path : List Text) (current : Trie Text StatsCount.CountedInfo n)
    (normal : Trie Text CountInfo n) (key : Text) (rest : List Text) :
    found (path ++ key :: rest) (reportsBelow n path current normal)
      = findings normal current (key :: rest) := by
  induction n generalizing path key rest with
  | zero => rfl
  | succ n ih =>
      rw [reportsBelow, found_append, found_seen, found_gone]
      cases hchild : current.child? key with
      | none =>
          cases hnode : normal.child? key with
          | none => rw [findings_of_absent hnode hchild, List.append_nil]
          | some node =>
              have hgone : goneReports path current ⟨key, node⟩ = [⟨path ++ [key], .disappeared node.info⟩] := by
                rw [goneReports, hchild]
                rfl
              show [] ++ found _ (goneReports path current ⟨key, node⟩) = _
              rw [findings_of_gone hnode hchild, hgone, List.nil_append]
              exact found_singleton path key rest (.disappeared node.info)
      | some child =>
          cases hnode : normal.child? key with
          | none =>
              show found _ (seenReports _ path normal ⟨key, child⟩) ++ [] = _
              have hseen : seenReports (reportsBelow n) path normal ⟨key, child⟩
                  = [⟨path ++ [key], .isNew child.info⟩] := by
                rw [seenReports, hnode]
              rw [findings_of_new hnode hchild, hseen, List.append_nil]
              exact found_singleton path key rest (.isNew child.info)
          | some node =>
              have hgone : goneReports path current ⟨key, node⟩ = [] := by
                rw [goneReports, hchild]
                rfl
              have hseen : seenReports (reportsBelow n) path normal ⟨key, child⟩
                  = (comparisons node.info child.info).map (Report.mk (path ++ [key]))
                    ++ reportsBelow n (path ++ [key]) child node := by
                rw [seenReports, hnode]
              show found _ (seenReports _ path normal ⟨key, child⟩)
                ++ found _ (goneReports path current ⟨key, node⟩) = _
              rw [findings_cons hnode hchild, hgone, hseen, found_append]
              show _ ++ _ ++ [] = _
              rw [List.append_nil]
              exact found_node path key rest child node (ih (path ++ [key]) child node)

theorem found_reports (normal : RootNode) (current : StatsCount.CountedTree) (path : List Text) :
    found path (reports normal current) = findings normal current path := by
  rw [reports, found_append]
  cases path with
  | nil =>
      rw [found_map_mk, found_eq_nil, List.append_nil, findings, Trie.find?_nil, Trie.find?_nil]
      intro report hreport heq
      obtain ⟨key, rest, hpath⟩ := path_of_mem_reportsBelow hreport
      rw [heq] at hpath
      cases hpath
  | cons key rest =>
      rw [found_eq_nil, List.nil_append]
      · exact found_reportsBelow [] current normal key rest
      · intro report hreport heq
        obtain ⟨_, _, rfl⟩ := List.mem_map.mp hreport
        cases heq

/-! ### The events at a path -/

namespace AnoInfo

def labels (g : AnoInfo) : List (Option Text) :=
  [g.sender, g.receiver, g.protocol, g.uid, g.func, g.target]

end AnoInfo

/-- The labels of a path, those below its level unset. -/
def labelsOf (path : List Text) : List (Option Text) :=
  [path[0]?, path[1]?, path[2]?, path[3]?, path[4]?, path[5]?]

theorem labelsOf_inj {path path' : List Text} (hlength : path.length ≤ 6) (hlength' : path'.length ≤ 6)
    (hlabels : labelsOf path = labelsOf path') : path = path' := by
  simp only [labelsOf, List.cons.injEq] at hlabels
  obtain ⟨h0, h1, h2, h3, h4, h5, _⟩ := hlabels
  apply List.ext_getElem?
  intro i
  rcases Nat.lt_or_ge i 6 with hi | hi
  · interval_cases i <;> assumption
  · rw [List.getElem?_eq_none (hlength.trans hi), List.getElem?_eq_none (hlength'.trans hi)]

theorem labels_render (g : AnoInfo) (report : Report) : (render g report).labels = labelsOf report.path := by
  unfold render
  cases report.finding with
  | isNew => rfl
  | disappeared => rfl
  | compared name field x =>
      dsimp only
      split <;> rfl

theorem length_le_of_mem_findings {n : Nat} {normal : Trie Text CountInfo n}
    {current : Trie Text StatsCount.CountedInfo n} {path : List Text} {finding : Finding}
    (hfinding : finding ∈ findings normal current path) : path.length ≤ n := by
  cases hnormal : normal.find? path with
  | some normalInfo => exact Trie.length_le_of_find? hnormal
  | none =>
      cases hcurrent : current.find? path with
      | some currentInfo => exact Trie.length_le_of_find? hcurrent
      | none =>
          rw [findings, hnormal, hcurrent] at hfinding
          cases hfinding

theorem mem_findings_of_mem_reports {normal : RootNode} {current : StatsCount.CountedTree} {report : Report}
    (hreport : report ∈ reports normal current) : report.finding ∈ findings normal current report.path := by
  rw [← found_reports]
  exact List.mem_map_of_mem (List.mem_filter.mpr ⟨hreport, decide_eq_true rfl⟩)

theorem length_le_of_mem_reports {normal : RootNode} {current : StatsCount.CountedTree} {report : Report}
    (hreport : report ∈ reports normal current) : report.path.length ≤ 6 :=
  length_le_of_mem_findings (mem_findings_of_mem_reports hreport)

theorem scorable_of_mem_comparisons {normal : CountInfo} {current : StatsCount.CountedInfo}
    (hnormal : EachField (fun field => 0 ≤ field.std) normal) {finding : Finding}
    (hfinding : finding ∈ comparisons normal current) : finding.Defined := by
  have hboth {name : Text} {field : Option FieldInfo} {x : Option ℚ} (fieldName : FieldName)
      (hfield : normal.get? fieldName = field) (h : finding ∈ comparedIfBoth name field x) : finding.Defined := by
    unfold comparedIfBoth at h
    split at h
    · rw [List.mem_singleton.mp h]
      exact fun _ => hnormal fieldName _ hfield
    · cases h
  rw [comparisons, List.mem_append, List.mem_append, List.mem_cons, List.mem_singleton] at hfinding
  rcases hfinding with ((rfl | rfl) | hratio) | hdelay
  · exact fun _ => hnormal .num _ rfl
  · exact fun _ => hnormal .bytes _ rfl
  · exact hboth .ratioRes rfl hratio
  · exact hboth .avgDelay rfl hdelay

/-- Without negative deviations every score can be computed. -/
theorem defined_of_mem_reports {normal : RootNode} (hnormal : EachNode (fun field => 0 ≤ field.std) normal)
    {current : StatsCount.CountedTree} {report : Report} (hreport : report ∈ reports normal current) :
    report.finding.Defined := by
  have hfinding := mem_findings_of_mem_reports hreport
  unfold findings at hfinding
  split at hfinding
  · rename_i hinfo _
    exact scorable_of_mem_comparisons (hnormal _ _ hinfo) hfinding
  · split at hfinding
    · rw [List.mem_singleton.mp hfinding]
      trivial
    · cases hfinding
  · rename_i hinfo _
    split at hfinding
    · rw [List.mem_singleton.mp hfinding]
      exact fun _ => hnormal _ _ hinfo .num _ rfl
    · cases hfinding
  · cases hfinding

/-- **check_tree raises exactly the difference and the comparisons.** Where no deviation is negative it returns.
The events with the labels of a path are those for what the two trees say of that path, in order, and every
event has the labels of a path. -/
theorem checkTree_raises_findings {normal : RootNode} (hnormal : EachNode (fun field => 0 ≤ field.std) normal)
    (current : StatsCount.CountedTree) (d : Detector) :
    (checkTree normal current d).2 = .ok ()
      ∧ ∃ events, (checkTree normal current d).1.raised = d.raised ++ events
        ∧ (∀ path : List Text, path.length ≤ 6 →
            events.filter (fun event => event.labels = labelsOf path)
              = (findings normal current path).map fun finding => render d.gAnoInfo ⟨path, finding⟩)
        ∧ ∀ event ∈ events, ∃ path : List Text, path.length ≤ 6 ∧ event.labels = labelsOf path := by
  have hraises := checkTree_raises normal current d
  have hdefined : ∀ report ∈ reports normal current, report.finding.Defined :=
    fun _ hreport => defined_of_mem_reports hnormal hreport
  refine ⟨hraises.returns.mpr hdefined, (reports normal current).map (render d.gAnoInfo), ?_, ?_, ?_⟩
  · rw [hraises.raised, computed_of_defined hdefined]
  · intro path hlength
    have hsame : ∀ report ∈ reports normal current,
        decide ((render d.gAnoInfo report).labels = labelsOf path) = decide (report.path = path) := by
      intro report hreport
      rw [labels_render, decide_eq_decide]
      exact ⟨labelsOf_inj (length_le_of_mem_reports hreport) hlength, congrArg labelsOf⟩
    rw [← found_reports, List.filter_map, found, List.map_map]
    show ((reports normal current).filter fun report =>
      decide ((render d.gAnoInfo report).labels = labelsOf path)).map _ = _
    rw [List.filter_congr hsame]
    apply List.map_congr_left
    intro report hreport
    have hpath : report.path = path := by simpa using (List.mem_filter.mp hreport).2
    rw [← hpath]
    rfl
  · intro event hevent
    obtain ⟨report, hreport, rfl⟩ := List.mem_map.mp hevent
    exact ⟨report.path, length_le_of_mem_reports hreport, labels_render _ report⟩

/-- One sender, and one packet in a period. -/
def onePacket : RootNode :=
  (Trie.leaf { num := { countAvg := 1 } } 6).putChild "10.0.0.1".toList (Trie.leaf { num := { countAvg := 1 } } 5)

/-- A period without the sender, with two packets. -/
def twoPackets : StatsCount.CountedTree := Trie.leaf (.unanswered 2 0) 6

def blank : AnoInfo := { periodId := 0, ts := 0, period := 0, desc := .unknown }

theorem std_onePacket : EachNode (fun field => 0 ≤ field.std) onePacket := by
  have hleaf (n : Nat) (path : List Text) (info : CountInfo)
      (hinfo : (Trie.leaf ({ num := { countAvg := 1 } } : CountInfo) n).find? path = some info) :
      EachField (fun field => 0 ≤ field.std) info := by
    cases path with
    | nil =>
        rw [Trie.find?_nil, Trie.info_leaf] at hinfo
        obtain rfl := Option.some.inj hinfo
        intro name field hfield
        cases name <;> cases hfield <;> exact le_rfl
    | cons key path =>
        rw [Trie.find?_leaf_cons] at hinfo
        cases hinfo
  intro path info hinfo
  cases path with
  | nil => exact hleaf 6 [] info hinfo
  | cons key path =>
      rw [onePacket, Trie.find?_cons, Trie.child?_putChild] at hinfo
      split at hinfo
      · exact hleaf 5 path info hinfo
      · cases hinfo

/-- The sender is reported once, as disappeared. -/
theorem onePacket_raises_lostSender :
    ∃ events, (checkTree onePacket twoPackets { gAnoInfo := blank }).1.raised = [] ++ events
      ∧ events.filter (fun event => event.labels = labelsOf ["10.0.0.1".toList])
        = [render blank ⟨["10.0.0.1".toList], .disappeared { num := { countAvg := 1 } }⟩] := by
  obtain ⟨_, events, hraised, hevents, _⟩ :=
    checkTree_raises_findings std_onePacket twoPackets { gAnoInfo := blank }
  exact ⟨events, hraised, hevents ["10.0.0.1".toList] (by decide)⟩

end Armore.AnoDet
