import Armore.Lib.EventQueue
import Armore.Lib.Run
import Armore.Stats.Training

/-!
# The detector over its periods

The events of `AnoDet` and the two logs it writes. `process_finish` comes from the collector, at any time; a
comparison raises `score_calculated` for everything it looks at; a score that reaches the threshold raises
`anomaly_detected`, which is logged. What a handler raises goes to the end of the queue, so that the next
period can be worked on while the scores of the last one still wait. In every interleaving the anomalies are
logged period by period, in the order of the comparison, against the normal tree of the training periods,
and the baseline is logged once.
-/

namespace Armore.AnoDet

open Lib

/-! ### The handlers -/

inductive Event
  | processFinish (result : StatsCount.CountStat)
  | scoreCalculated (anomaly : AnoInfo)
  | anomalyDetected (anomaly : AnoInfo)

/-- The globals of the module and `LOG_ANO`. -/
structure Monitor where
  state : State
  logAno : List AnoInfo

def Monitor.init : Monitor := ⟨.init, []⟩

section

variable (sqrt : ℚ → ℚ) (numPeriod : Nat) (threshold : ℚ)

/-- The handlers of one event, and the events they raise. `anomaly_detected` has two: the other one does
nothing with `feedback_on` either. -/
def handle (m : Monitor) : Event → Monitor × List Event
  | .processFinish result =>
      let state := processFinish sqrt numPeriod m.state result
      let detector := { state.detector with raised := [] }
      ({ m with state := { state with detector } }, state.detector.raised.map .scoreCalculated)
  | .scoreCalculated anomaly => (m, if anomaly.score ≥ threshold then [.anomalyDetected anomaly] else [])
  | .anomalyDetected anomaly => ({ m with logAno := m.logAno ++ [anomaly] }, [])

inductive Act
  | finish (result : StatsCount.CountStat)
  | handle (event : Event)

/-- The collector raises `process_finish`, or the first event of the queue is handled. -/
inductive Turn : Monitor × List Event → Act → Monitor × List Event → Prop
  | finish (m : Monitor) (queue : List Event) (result : StatsCount.CountStat) :
      Turn (m, queue) (.finish result) (m, queue ++ [.processFinish result])
  | handle (m : Monitor) (queue : List Event) (event : Event) :
      Turn (m, event :: queue) (.handle event)
        ((handle sqrt numPeriod threshold m event).1,
          queue ++ (handle sqrt numPeriod threshold m event).2)

abbrev Runs : List Act → Monitor × List Event → Prop := Run (Turn sqrt numPeriod threshold) (.init, [])

end

/-! ### What passes through the queue -/

namespace Event

/-- The number of generations an event can still raise. -/
def depth : Event → Nat
  | .processFinish _ => 2
  | .scoreCalculated _ => 1
  | .anomalyDetected _ => 0

def result? : Event → Option StatsCount.CountStat
  | .processFinish result => some result
  | _ => none

def score? : Event → Option AnoInfo
  | .scoreCalculated anomaly => some anomaly
  | _ => none

def anomaly? : Event → Option AnoInfo
  | .anomalyDetected anomaly => some anomaly
  | _ => none

end Event

/-- The periods that the collector has finished. -/
def Act.finished : Act → List StatsCount.CountStat
  | .finish result => [result]
  | .handle _ => []

/-- The periods that the detector has worked on. -/
def Act.worked : Act → List StatsCount.CountStat
  | .finish _ => []
  | .handle event => event.result?.toList

/-- The scores at or above the threshold. -/
def alarms (threshold : ℚ) (anomalies : List AnoInfo) : List AnoInfo :=
  anomalies.filter fun anomaly => anomaly.score ≥ threshold

/-- What waits in the queue to be logged: the anomalies are ahead of what the scores will raise. -/
def waiting (threshold : ℚ) (queue : List Event) : List AnoInfo :=
  queue.filterMap Event.anomaly? ++ alarms threshold (queue.filterMap Event.score?)

/-! ### What the logs are to contain -/

section

variable (sqrt : ℚ → ℚ) (numPeriod : Nat) (threshold : ℚ)

/-- The normal tree as the training periods among the results leave it. -/
def baseline (results : List StatsCount.CountStat) : RootNode :=
  ((results.take numPeriod).foldl (processFinish sqrt numPeriod) .init).normalTree

/-- What is raised for a period in which the tree is checked. -/
def scores (normal : RootNode) (result : StatsCount.CountStat) (periodId : Nat) : List AnoInfo :=
  (computed (reports normal result.tree)).map
    (render { periodId, ts := result.ts, period := result.period, desc := .unknown })

/-- The alarms of all periods after the training, numbered from one. -/
def detections (results : List StatsCount.CountStat) : List AnoInfo :=
  ((results.zipIdx 1).drop numPeriod).flatMap fun entry =>
    alarms threshold (scores (baseline sqrt numPeriod results) entry.1 entry.2)

end

/-! ### The baseline records -/

/-- The record of a node in `LOG_BASE`. -/
def baseRecord (path : List Text) (info : CountInfo) : BaseInfo :=
  { sender := path[0]?, receiver := path[1]?, protocol := path[2]?
    uid := path[3]?, func := path[4]?, target := path[5]?
    numAvg := info.num.countAvg, numStd := info.num.std
    bytesAvg := info.bytes.countAvg, bytesStd := info.bytes.std
    ratioResAvg := if path.length = 5 then info.ratioRes.map FieldInfo.countAvg else none
    ratioResStd := if path.length = 5 then info.ratioRes.map FieldInfo.std else none
    avgDelayAvg := if path.length = 5 then info.avgDelay.map FieldInfo.countAvg else none
    avgDelayStd := if path.length = 5 then info.avgDelay.map FieldInfo.std else none }

/-- The labels that are set. -/
def BaseInfo.path (record : BaseInfo) : List Text :=
  [record.sender, record.receiver, record.protocol, record.uid, record.func, record.target].filterMap id

section

variable (sqrt : ℚ → ℚ) (numPeriod : Nat)

/-- The records of the nodes below a path, each before those below it. -/
def recordsBelow : (n : Nat) → List Text → Trie Text CountInfo n → List BaseInfo
  | 0, _, _ => []
  | n + 1, path, node =>
      node.childList.flatMap fun entry =>
        baseRecord (path ++ [entry.1]) (calAvgStdNode sqrt numPeriod entry.2.info)
          :: recordsBelow n (path ++ [entry.1]) entry.2

def records (normal : RootNode) : List BaseInfo :=
  baseRecord [] (calAvgStdNode sqrt numPeriod normal.info) :: recordsBelow sqrt numPeriod 6 [] normal

/-- What `LOG_BASE` is to contain. -/
def baseRecords (results : List StatsCount.CountStat) : List BaseInfo :=
  if 0 < numPeriod ∧ numPeriod ≤ results.length then
    records sqrt numPeriod (trained (results.take numPeriod))
  else []

end

theorem genBaseInfo_of_labelled {g : AnoInfo} {path : List Text} (hg : g.Labelled path)
    (hlength : path.length ≤ 6) (info : CountInfo) : genBaseInfo info path.length g = baseRecord path info := by
  have h0 := hg 0
  have h1 := hg 1
  have h2 := hg 2
  have h3 := hg 3
  have h4 := hg 4
  have h5 := hg 5
  rcases path with _ | ⟨a, _ | ⟨b, _ | ⟨c, _ | ⟨d, _ | ⟨e, _ | ⟨f, _ | ⟨_, _⟩⟩⟩⟩⟩⟩⟩
  case cons.cons.cons.cons.cons.cons.cons =>
    simp only [List.length_cons] at hlength
    omega
  all_goals
    simp [AnoInfo.labelAt] at h0 h1 h2 h3 h4 h5
    simp [genBaseInfo, baseRecord, *]

theorem path_baseRecord {path : List Text} (hlength : path.length ≤ 6) (info : CountInfo) :
    (baseRecord path info).path = path := by
  rcases path with _ | ⟨a, _ | ⟨b, _ | ⟨c, _ | ⟨d, _ | ⟨e, _ | ⟨f, _ | ⟨_, _⟩⟩⟩⟩⟩⟩⟩
  case cons.cons.cons.cons.cons.cons.cons =>
    simp only [List.length_cons] at hlength
    omega
  all_goals rfl

/-- From `d` to `d'` the records are written, in a place that has the labels of a path. -/
structure Writes (path : List Text) (d d' : Detector) (records : List BaseInfo) : Prop where
  labelled : d'.gAnoInfo.Labelled path
  raised : d'.raised = d.raised
  logBase : d'.logBase = d.logBase ++ records

theorem Writes.nothing {path : List Text} {d : Detector} (hd : d.gAnoInfo.Labelled path) :
    Writes path d d [] :=
  ⟨hd, rfl, (List.append_nil _).symm⟩

theorem Writes.trans {path path' : List Text} {d d' d'' : Detector} {records records' : List BaseInfo}
    (h : Writes path d d' records) (h' : Writes path' d' d'' records') :
    Writes path' d d'' (records ++ records') :=
  ⟨h'.labelled, h'.raised.trans h.raised, by rw [h'.logBase, h.logBase, List.append_assoc]⟩

theorem Writes.above {path path' : List Text} {d d' : Detector} {records : List BaseInfo}
    (h : Writes (path ++ path') d d' records) : Writes path d d' records :=
  ⟨h.labelled.of_append, h.raised, h.logBase⟩

theorem writes_label {path : List Text} {d : Detector} (hd : d.gAnoInfo.Labelled path)
    (hlength : path.length < 6) (key : Text) :
    Writes (path ++ [key]) d (d.label (path.length + 1) key) [] :=
  ⟨hd.label hlength key, rfl, (List.append_nil _).symm⟩

theorem writes_writeBase {path : List Text} {d : Detector} (hd : d.gAnoInfo.Labelled path)
    (hlength : path.length ≤ 6) (info : CountInfo) :
    Writes path d (d.writeBase info path.length) [baseRecord path info] := by
  refine ⟨hd, rfl, ?_⟩
  rw [Detector.writeBase, genBaseInfo_of_labelled hd hlength]

section

variable {sqrt : ℚ → ℚ} {numPeriod : Nat}

/-- A computation of the averages below a node writes the records below its path. -/
def WritesBelow (sqrt : ℚ → ℚ) (numPeriod : Nat) (n : Nat)
    (average : Trie Text CountInfo n → Detector → Trie Text CountInfo n × Detector) : Prop :=
  ∀ path node d info, path.length + n = 6 → d.gAnoInfo.Labelled path →
    Writes path d (average (node.mapInfo info) d).2 (recordsBelow sqrt numPeriod n path node)

theorem writesBelow_leaf : WritesBelow sqrt numPeriod 0 fun node d => (node, d) := by
  intro path node d info _ hd
  exact .nothing hd

theorem childList_mapInfo {n : Nat} (node : Trie Text CountInfo (n + 1)) (info : CountInfo → CountInfo) :
    (node.mapInfo info).childList = node.childList := by
  rw [Trie.childList, Trie.children_mapInfo, Trie.childList]

theorem writesBelow_calculateChildren {n : Nat}
    {deeper : Trie Text CountInfo n → Detector → Trie Text CountInfo n × Detector}
    (hdeeper : WritesBelow sqrt numPeriod n deeper) {level : Nat} (hlevel : level + n = 6) :
    WritesBelow sqrt numPeriod (n + 1) (calculateChildren sqrt numPeriod level deeper) := by
  intro path node d info hlength hd
  obtain rfl : level = path.length + 1 := by omega
  rw [calculateChildren, childList_mapInfo, recordsBelow]
  generalize node.childList = entries, node.mapInfo info = result
  induction entries generalizing d result with
  | nil => exact .nothing hd
  | cons entry entries ih =>
      have hshort : path.length < 6 := by omega
      have hkey : (path ++ [entry.1]).length = path.length + 1 := by simp
      have hlabel := writes_label hd hshort entry.1
      have hnode := writes_writeBase hlabel.labelled (by omega)
        (entry.2.mapInfo (calAvgStdNode sqrt numPeriod)).info
      have hbelow := hdeeper (path ++ [entry.1]) entry.2 _ (calAvgStdNode sqrt numPeriod) (by omega) hnode.labelled
      rw [hkey] at hnode hbelow
      have hfirst := ((hlabel.trans hnode).trans hbelow).above
      have hrecords : baseRecord (path ++ [entry.1]) (calAvgStdNode sqrt numPeriod entry.2.info)
            :: recordsBelow sqrt numPeriod n (path ++ [entry.1]) entry.2
          = [] ++ [baseRecord (path ++ [entry.1]) (entry.2.mapInfo (calAvgStdNode sqrt numPeriod)).info]
            ++ recordsBelow sqrt numPeriod n (path ++ [entry.1]) entry.2 := by
        rw [Trie.info_mapInfo]
        rfl
      rw [List.foldl_cons, List.flatMap_cons, hrecords]
      exact hfirst.trans (ih _ hfirst.labelled _)

theorem writes_calculateTree (normal : RootNode) (d : Detector) :
    Writes [] d (calculateTree sqrt numPeriod normal d).2 (records sqrt numPeriod normal) := by
  have hd : d.gAnoInfo.Labelled [] := fun i hi => absurd hi (Nat.not_lt_zero i)
  have hbelow : WritesBelow sqrt numPeriod 6 (calculateTreeLevel1 sqrt numPeriod) :=
    writesBelow_calculateChildren (writesBelow_calculateChildren (writesBelow_calculateChildren
      (writesBelow_calculateChildren (writesBelow_calculateChildren (writesBelow_calculateChildren
        writesBelow_leaf rfl) rfl) rfl) rfl) rfl) rfl
  have hroot := writes_writeBase hd (Nat.zero_le _) (calAvgStdNode sqrt numPeriod normal.info)
  have hrest := hbelow [] normal _ (calAvgStdNode sqrt numPeriod) rfl hroot.labelled
  rw [calculateTree, Trie.info_mapInfo]
  exact hroot.trans hrest

/-- The records with the labels of a path. -/
def recordsAt (path : List Text) (records : List BaseInfo) : List BaseInfo :=
  records.filter fun record => record.path = path

theorem path_of_mem_recordsBelow {n : Nat} {path : List Text} (hlength : path.length + n = 6)
    {node : Trie Text CountInfo n} {record : BaseInfo}
    (hrecord : record ∈ recordsBelow sqrt numPeriod n path node) :
    ∃ key rest, record.path = path ++ key :: rest := by
  induction n generalizing path with
  | zero => cases hrecord
  | succ n ih =>
      rw [recordsBelow, List.mem_flatMap] at hrecord
      obtain ⟨entry, _, hentry⟩ := hrecord
      have hkey : (path ++ [entry.1]).length = path.length + 1 := by simp
      rcases List.mem_cons.mp hentry with rfl | hbelow
      · exact ⟨entry.1, [], path_baseRecord (by omega) _⟩
      · obtain ⟨key, rest, hpath⟩ := ih (by omega) hbelow
        exact ⟨entry.1, key :: rest, by rw [hpath, List.append_assoc, List.singleton_append]⟩

/-- The records of one child at a path below it. -/
theorem recordsAt_child {n : Nat} {path : List Text} (hlength : path.length + (n + 1) = 6)
    (node : Trie Text CountInfo n) (key : Text) (rest : List Text)
    (hbelow : ∀ key' rest', recordsAt (path ++ [key] ++ key' :: rest')
        (recordsBelow sqrt numPeriod n (path ++ [key]) node)
      = ((node.find? (key' :: rest')).map (calAvgStdNode sqrt numPeriod)).toList.map
          (baseRecord (path ++ [key] ++ key' :: rest'))) :
    recordsAt (path ++ key :: rest)
        (baseRecord (path ++ [key]) (calAvgStdNode sqrt numPeriod node.info)
          :: recordsBelow sqrt numPeriod n (path ++ [key]) node)
      = ((node.find? rest).map (calAvgStdNode sqrt numPeriod)).toList.map
          (baseRecord (path ++ key :: rest)) := by
  have hkey : (path ++ [key]).length = path.length + 1 := by simp
  have hpath := path_baseRecord (show (path ++ [key]).length ≤ 6 by omega) (calAvgStdNode sqrt numPeriod node.info)
  cases rest with
  | nil =>
      have hnone : recordsAt (path ++ [key]) (recordsBelow sqrt numPeriod n (path ++ [key]) node) = [] := by
        apply List.filter_eq_nil_iff.mpr
        intro record hrecord
        obtain ⟨key', rest', hbelow⟩ := path_of_mem_recordsBelow (by omega) hrecord
        rw [hbelow]
        simp
      rw [recordsAt, List.filter_cons_of_pos (by rw [hpath]; exact decide_eq_true rfl), ← recordsAt, hnone,
        Trie.find?_nil]
      rfl
  | cons key' rest =>
      have hother : (baseRecord (path ++ [key]) (calAvgStdNode sqrt numPeriod node.info)).path
          ≠ path ++ key :: key' :: rest := by
        rw [hpath]
        intro heq
        simpa using congrArg List.length heq
      have hsplit : path ++ key :: key' :: rest = path ++ [key] ++ key' :: rest := by simp
      rw [recordsAt, List.filter_cons_of_neg (by rw [decide_eq_true_eq]; exact hother), ← recordsAt, hsplit]
      exact hbelow key' rest

/-- **The records at a path** are the one of its node. -/
theorem recordsAt_recordsBelow {n : Nat} {path : List Text} (hlength : path.length + n = 6)
    (node : Trie Text CountInfo n) (key : Text) (rest : List Text) :
    recordsAt (path ++ key :: rest) (recordsBelow sqrt numPeriod n path node)
      = ((node.find? (key :: rest)).map (calAvgStdNode sqrt numPeriod)).toList.map
          (baseRecord (path ++ key :: rest)) := by
  induction n generalizing path key rest with
  | zero => rfl
  | succ n ih =>
      rw [recordsBelow, recordsAt, List.filter_flatMap, Trie.flatMap_childList key, Trie.find?_cons]
      · cases node.child? key with
        | none => rfl
        | some child =>
            exact recordsAt_child hlength child key rest fun key' rest' => ih (by simp; omega) child key' rest'
      · intro entry hne
        apply List.filter_eq_nil_iff.mpr
        intro record hrecord
        have hentry : (path ++ [entry.1]).length = path.length + 1 := by simp
        rw [decide_eq_true_eq]
        intro hpath
        rcases List.mem_cons.mp hrecord with rfl | hbelow
        · rw [path_baseRecord (by omega), List.append_cancel_left_eq, List.cons.injEq] at hpath
          exact hne hpath.1
        · obtain ⟨key', rest', hbelow⟩ := path_of_mem_recordsBelow (by omega) hbelow
          rw [hbelow, List.append_assoc, List.append_cancel_left_eq, List.singleton_append,
            List.cons.injEq] at hpath
          exact hne hpath.1

theorem recordsAt_records (normal : RootNode) (path : List Text) :
    recordsAt path (records sqrt numPeriod normal)
      = ((normal.find? path).map (calAvgStdNode sqrt numPeriod)).toList.map (baseRecord path) := by
  have hroot : (baseRecord [] (calAvgStdNode sqrt numPeriod normal.info)).path = [] :=
    path_baseRecord (Nat.zero_le _) _
  cases path with
  | nil =>
      have hnone : recordsAt [] (recordsBelow sqrt numPeriod 6 [] normal) = [] := by
        apply List.filter_eq_nil_iff.mpr
        intro record hrecord
        obtain ⟨key, rest, hbelow⟩ := path_of_mem_recordsBelow rfl hrecord
        rw [hbelow]
        simp
      rw [records, recordsAt, List.filter_cons_of_pos (by rw [hroot]; exact decide_eq_true rfl), ← recordsAt,
        hnone, Trie.find?_nil]
      rfl
  | cons key rest =>
      have hother : (baseRecord [] (calAvgStdNode sqrt numPeriod normal.info)).path ≠ key :: rest := by
        rw [hroot]
        exact (List.cons_ne_nil _ _).symm
      rw [records, recordsAt, List.filter_cons_of_neg (by rw [decide_eq_true_eq]; exact hother), ← recordsAt]
      have hpath : ([] : List Text).length + 6 = 6 := rfl
      exact recordsAt_recordsBelow hpath normal key rest

end

/-! ### One period -/

section

variable {sqrt : ℚ → ℚ} {numPeriod : Nat}

/-- The averages are those of the tree, whatever the detector has written. -/
theorem calculateTree_fst (sqrt : ℚ → ℚ) (numPeriod : Nat) (normal : RootNode) (d d' : Detector) :
    (calculateTree sqrt numPeriod normal d).1 = (calculateTree sqrt numPeriod normal d').1 := by
  obtain ⟨result, hresult, _⟩ := averages_calculateTreeLevel1 sqrt numPeriod
  rw [calculateTree, calculateTree, hresult, hresult]

/-- The normal tree and the number of the period do not depend on what was raised and written. -/
theorem processFinish_congr {s s' : State} (htree : s.normalTree = s'.normalTree)
    (hperiod : s.currentPeriod = s'.currentPeriod) (result : StatsCount.CountStat) :
    (processFinish sqrt numPeriod s result).normalTree = (processFinish sqrt numPeriod s' result).normalTree := by
  simp only [processFinish, htree, hperiod]
  split
  · split
    · exact calculateTree_fst sqrt numPeriod _ _ _
    · rfl
  · rfl

theorem currentPeriod_processFinish (s : State) (result : StatsCount.CountStat) :
    (processFinish sqrt numPeriod s result).currentPeriod = s.currentPeriod + 1 := by
  rw [processFinish]
  split
  · split <;> rfl
  · rfl

/-- After the training the tree is checked and stays as it is. -/
theorem processFinish_check (sqrt : ℚ → ℚ) {s : State} (hperiod : numPeriod ≤ s.currentPeriod) (result : StatsCount.CountStat) :
    (processFinish sqrt numPeriod s result).normalTree = s.normalTree
      ∧ (processFinish sqrt numPeriod s result).detector.raised
        = s.detector.raised ++ scores s.normalTree result (s.currentPeriod + 1)
      ∧ (processFinish sqrt numPeriod s result).detector.logBase = s.detector.logBase := by
  rw [processFinish, if_neg (by omega)]
  have hraises := checkTree_raises s.normalTree result.tree
    { s.detector with
      gAnoInfo := { periodId := s.currentPeriod + 1, ts := result.ts, period := result.period, desc := .unknown } }
  exact ⟨rfl, hraises.raised, hraises.logBase⟩

/-- During the training nothing is raised, and the baseline is written when it ends. -/
theorem processFinish_train (sqrt : ℚ → ℚ) {s : State} (hperiod : s.currentPeriod < numPeriod) (result : StatsCount.CountStat) :
    (processFinish sqrt numPeriod s result).detector.raised = s.detector.raised
      ∧ (processFinish sqrt numPeriod s result).detector.logBase
        = s.detector.logBase ++ if s.currentPeriod + 1 = numPeriod then
            records sqrt numPeriod (initializeTree result.tree s.normalTree) else [] := by
  let d : Detector :=
    { s.detector with
      gAnoInfo := { periodId := s.currentPeriod + 1, ts := result.ts, period := result.period, desc := .unknown } }
  rw [processFinish, if_pos (Nat.succ_le_of_lt hperiod)]
  by_cases hlast : s.currentPeriod + 1 = numPeriod
  · rw [if_pos hlast, if_pos hlast]
    have hwrites : Writes [] d (calculateTree sqrt numPeriod (initializeTree result.tree s.normalTree) d).2
        (records sqrt numPeriod (initializeTree result.tree s.normalTree)) :=
      writes_calculateTree _ _
    exact ⟨hwrites.raised, hwrites.logBase⟩
  · rw [if_neg hlast, if_neg hlast, List.append_nil]
    exact ⟨rfl, rfl⟩

end

/-! ### What the logs are to contain after one more period -/

section

variable {sqrt : ℚ → ℚ} {numPeriod : Nat}

theorem baseline_of_lt {results : List StatsCount.CountStat} (hlength : results.length < numPeriod) :
    baseline sqrt numPeriod results = trained results := by
  rw [baseline, List.take_of_length_le hlength.le]
  exact (processFinish_before results hlength).1

theorem baseline_append {results : List StatsCount.CountStat} (hlength : numPeriod ≤ results.length)
    (more : List StatsCount.CountStat) :
    baseline sqrt numPeriod (results ++ more) = baseline sqrt numPeriod results := by
  rw [baseline, List.take_append_of_le_length hlength, ← baseline]

theorem detections_of_le {threshold : ℚ} {results : List StatsCount.CountStat}
    (hlength : results.length ≤ numPeriod) : detections sqrt numPeriod threshold results = [] := by
  rw [detections, List.drop_eq_nil_of_le (by rw [List.length_zipIdx]; exact hlength), List.flatMap_nil]

theorem detections_snoc {threshold : ℚ} {results : List StatsCount.CountStat}
    (hlength : numPeriod ≤ results.length) (result : StatsCount.CountStat) :
    detections sqrt numPeriod threshold (results ++ [result])
      = detections sqrt numPeriod threshold results
        ++ alarms threshold (scores (baseline sqrt numPeriod results) result (results.length + 1)) := by
  have hdrop : ((results ++ [result]).zipIdx 1).drop numPeriod
      = (results.zipIdx 1).drop numPeriod ++ [(result, 1 + results.length)] := by
    rw [List.zipIdx_append, List.drop_append_of_le_length (by rw [List.length_zipIdx]; exact hlength)]
    rfl
  rw [detections, hdrop, List.flatMap_append, List.flatMap_singleton, baseline_append hlength, ← detections,
    Nat.add_comm 1]

theorem baseRecords_snoc {results : List StatsCount.CountStat} (result : StatsCount.CountStat) :
    baseRecords sqrt numPeriod (results ++ [result])
      = baseRecords sqrt numPeriod results ++
        if results.length + 1 = numPeriod then
          records sqrt numPeriod (initializeTree result.tree (trained results)) else [] := by
  have hlength : (results ++ [result]).length = results.length + 1 := by simp
  rw [baseRecords, baseRecords, hlength]
  rcases Nat.lt_trichotomy (results.length + 1) numPeriod with hlt | heq | hgt
  · rw [if_neg (by omega), if_neg (by omega), if_neg (by omega), List.nil_append]
  · rw [if_pos (by omega), if_neg (by omega), if_pos heq, List.nil_append, ← trained_snoc,
      List.take_of_length_le (by omega)]
  · rw [if_neg (show ¬results.length + 1 = numPeriod by omega), List.append_nil,
      List.take_append_of_le_length (by omega)]
    by_cases hpos : 0 < numPeriod
    · rw [if_pos (by omega), if_pos (by omega)]
    · rw [if_neg (by omega), if_neg (by omega)]

end

/-! ### What passes through the queue is kept in order -/

section

variable {sqrt : ℚ → ℚ} {numPeriod : Nat} {threshold : ℚ}

theorem alarms_append (anomalies anomalies' : List AnoInfo) :
    alarms threshold (anomalies ++ anomalies') = alarms threshold anomalies ++ alarms threshold anomalies' :=
  List.filter_append ..

theorem alarms_cons (anomaly : AnoInfo) (anomalies : List AnoInfo) :
    alarms threshold (anomaly :: anomalies)
      = (if anomaly.score ≥ threshold then [anomaly] else []) ++ alarms threshold anomalies := by
  by_cases hscore : anomaly.score ≥ threshold
  · rw [if_pos hscore]
    exact List.filter_cons_of_pos (decide_eq_true hscore)
  · rw [if_neg hscore]
    exact List.filter_cons_of_neg (by rw [decide_eq_true_eq]; exact hscore)

theorem waiting_finish (queue : List Event) (result : StatsCount.CountStat) :
    waiting threshold (queue ++ [.processFinish result]) = waiting threshold queue := by
  have hanomaly : [Event.processFinish result].filterMap Event.anomaly? = [] := rfl
  have hscore : [Event.processFinish result].filterMap Event.score? = [] := rfl
  rw [waiting, List.filterMap_append, List.filterMap_append, hanomaly, hscore, List.append_nil,
    List.append_nil, ← waiting]

/-- The scores of a comparison wait behind all that waits. -/
theorem waiting_scores (queue : List Event) (anomalies : List AnoInfo) :
    waiting threshold (queue ++ anomalies.map .scoreCalculated)
      = waiting threshold queue ++ alarms threshold anomalies := by
  have hanomaly : (anomalies.map Event.scoreCalculated).filterMap Event.anomaly? = [] := by
    simp [Event.anomaly?]
  have hscore : (anomalies.map Event.scoreCalculated).filterMap Event.score? = anomalies := by
    rw [List.filterMap_map]
    exact List.filterMap_some
  rw [waiting, List.filterMap_append, List.filterMap_append, hanomaly, hscore, List.append_nil,
    alarms_append, ← List.append_assoc, ← waiting]

/-- A score that reaches the threshold goes behind the anomalies that wait, ahead of the other scores. -/
theorem waiting_anomaly (queue : List Event) (anomaly : AnoInfo) :
    waiting threshold
        (queue ++ if anomaly.score ≥ threshold then [.anomalyDetected anomaly] else [])
      = waiting threshold (.scoreCalculated anomaly :: queue) := by
  have hfirst : waiting threshold (.scoreCalculated anomaly :: queue)
      = queue.filterMap Event.anomaly? ++ alarms threshold (anomaly :: queue.filterMap Event.score?) := rfl
  rw [hfirst, alarms_cons]
  by_cases hscore : anomaly.score ≥ threshold
  · have hanomaly : [Event.anomalyDetected anomaly].filterMap Event.anomaly? = [anomaly] := rfl
    have hnone : [Event.anomalyDetected anomaly].filterMap Event.score? = [] := rfl
    rw [if_pos hscore, if_pos hscore, waiting, List.filterMap_append, List.filterMap_append, hanomaly, hnone,
      List.append_nil, List.append_assoc]
  · rw [if_neg hscore, if_neg hscore, List.append_nil, List.nil_append, waiting]

theorem result?_scores (queue : List Event) (anomalies : List AnoInfo) :
    (queue ++ anomalies.map Event.scoreCalculated).filterMap Event.result? = queue.filterMap Event.result? := by
  simp [Event.result?]

theorem result?_anomaly (queue : List Event) (anomaly : AnoInfo) :
    (queue ++ if anomaly.score ≥ threshold then [Event.anomalyDetected anomaly] else []).filterMap Event.result?
      = queue.filterMap Event.result? := by
  rw [List.filterMap_append]
  split <;> exact List.append_nil _

/-! ### The invariant -/

/-- The detector after some periods. -/
structure Follows (sqrt : ℚ → ℚ) (numPeriod : Nat) (done : List StatsCount.CountStat) (s : State) :
    Prop where
  tree : s.normalTree = baseline sqrt numPeriod done
  period : s.currentPeriod = done.length
  raised : s.detector.raised = []
  logBase : s.detector.logBase = baseRecords sqrt numPeriod done

theorem follows_init : Follows sqrt numPeriod [] .init where
  tree := by
    rw [baseline, List.take_nil]
    rfl
  period := rfl
  raised := rfl
  logBase := by
    rw [baseRecords, if_neg]
    · rfl
    · rintro ⟨hpos, hle⟩
      exact absurd hpos (Nat.not_lt.mpr hle)

/-- One period of the detector: what it raises are the scores behind the alarms that are added. -/
theorem Follows.processFinish {done : List StatsCount.CountStat} {s : State}
    (h : Follows sqrt numPeriod done s) (threshold : ℚ) (result : StatsCount.CountStat) :
    (processFinish sqrt numPeriod s result).normalTree = baseline sqrt numPeriod (done ++ [result])
      ∧ (processFinish sqrt numPeriod s result).detector.logBase
        = baseRecords sqrt numPeriod (done ++ [result])
      ∧ detections sqrt numPeriod threshold done
          ++ alarms threshold (processFinish sqrt numPeriod s result).detector.raised
        = detections sqrt numPeriod threshold (done ++ [result]) := by
  have hlength : (done ++ [result]).length = done.length + 1 := by simp
  rcases Nat.lt_or_ge done.length numPeriod with hlt | hge
  · obtain ⟨hbefore, hperiod⟩ : (done.foldl (AnoDet.processFinish sqrt numPeriod) .init).normalTree = trained done
        ∧ (done.foldl (AnoDet.processFinish sqrt numPeriod) .init).currentPeriod = done.length :=
      processFinish_before done hlt
    have htrain := processFinish_train sqrt (h.period.trans_lt hlt) result
    have htree : s.normalTree = trained done := h.tree.trans (baseline_of_lt hlt)
    rw [h.raised, h.period, htree, h.logBase, ← baseRecords_snoc] at htrain
    refine ⟨?_, htrain.2, ?_⟩
    · rw [baseline, List.take_of_length_le (by omega), List.foldl_append]
      exact processFinish_congr (htree.trans hbefore.symm) (h.period.trans hperiod.symm) result
    · rw [htrain.1, detections_of_le hlt.le, detections_of_le (by omega)]
      rfl
  · have hcheck := processFinish_check sqrt (h.period.symm ▸ hge) result
    rw [h.raised, h.period, h.tree, h.logBase, List.nil_append] at hcheck
    refine ⟨?_, ?_, ?_⟩
    · rw [hcheck.1, baseline_append hge]
    · rw [hcheck.2.2, baseRecords_snoc, if_neg (by omega), List.append_nil]
    · rw [hcheck.2.1, detections_snoc hge]

/-- What is logged and what waits. -/
structure Accounts (sqrt : ℚ → ℚ) (numPeriod : Nat) (threshold : ℚ) (labels : List Act)
    (s : Monitor × List Event) : Prop where
  follows : Follows sqrt numPeriod (labels.flatMap Act.worked) s.1.state
  logged : s.1.logAno ++ waiting threshold s.2
    = detections sqrt numPeriod threshold (labels.flatMap Act.worked)
  results : labels.flatMap Act.worked ++ s.2.filterMap Event.result? = labels.flatMap Act.finished

theorem accounts_init : Accounts sqrt numPeriod threshold [] (.init, []) :=
  ⟨follows_init, (detections_of_le (Nat.zero_le _)).symm, rfl⟩

theorem Accounts.finish {labels : List Act} {m : Monitor} {queue : List Event}
    (h : Accounts sqrt numPeriod threshold labels (m, queue)) (result : StatsCount.CountStat) :
    Accounts sqrt numPeriod threshold (labels ++ [Act.finish result])
      (m, queue ++ [.processFinish result]) := by
  have hworked : (labels ++ [Act.finish result]).flatMap Act.worked = labels.flatMap Act.worked := by
    simp [Act.worked]
  have hfinished : (labels ++ [Act.finish result]).flatMap Act.finished
      = labels.flatMap Act.finished ++ [result] := by
    simp [Act.finished]
  refine ⟨hworked ▸ h.follows, ?_, ?_⟩
  · rw [hworked, ← h.logged]
    exact congrArg _ (waiting_finish queue result)
  · rw [hworked, hfinished, ← h.results, List.append_assoc]
    exact congrArg _ List.filterMap_append

theorem Accounts.handle {labels : List Act} {m : Monitor} {queue : List Event} {event : Event}
    (h : Accounts sqrt numPeriod threshold labels (m, event :: queue)) :
    Accounts sqrt numPeriod threshold (labels ++ [Act.handle event])
      ((AnoDet.handle sqrt numPeriod threshold m event).1,
        queue ++ (AnoDet.handle sqrt numPeriod threshold m event).2) := by
  have hfinished : (labels ++ [Act.handle event]).flatMap Act.finished = labels.flatMap Act.finished := by
    simp [Act.finished]
  have hworked : (labels ++ [Act.handle event]).flatMap Act.worked
      = labels.flatMap Act.worked ++ event.result?.toList := by
    simp [Act.worked]
  obtain ⟨hfollows, hlogged, hresults⟩ := h
  rw [← hfinished] at hresults
  cases event with
  | processFinish result =>
      rw [show (Event.processFinish result).result?.toList = [result] from rfl] at hworked
      obtain ⟨htree, hbase, hdetections⟩ := hfollows.processFinish threshold result
      refine ⟨⟨?_, ?_, rfl, ?_⟩, ?_, ?_⟩
      · rw [hworked]
        exact htree
      · rw [hworked, List.length_append, List.length_singleton, ← hfollows.period]
        exact currentPeriod_processFinish _ _
      · rw [hworked]
        exact hbase
      · rw [hworked, ← hdetections, ← hlogged, List.append_assoc]
        exact congrArg _ (waiting_scores _ _)
      · rw [hworked, List.append_assoc, ← hresults]
        exact congrArg _ (congrArg ([result] ++ ·) (result?_scores queue _))
  | scoreCalculated anomaly =>
      rw [show (Event.scoreCalculated anomaly).result?.toList = [] from rfl, List.append_nil] at hworked
      refine ⟨hworked ▸ hfollows, ?_, ?_⟩
      · rw [hworked, ← hlogged]
        exact congrArg _ (waiting_anomaly queue anomaly)
      · rw [hworked, ← hresults]
        exact congrArg _ (result?_anomaly queue anomaly)
  | anomalyDetected anomaly =>
      rw [show (Event.anomalyDetected anomaly).result?.toList = [] from rfl, List.append_nil] at hworked
      refine ⟨hworked ▸ hfollows, ?_, ?_⟩
      · rw [hworked, ← hlogged]
        show m.logAno ++ [anomaly] ++ waiting threshold (queue ++ []) = m.logAno ++ (anomaly :: waiting threshold queue)
        rw [List.append_nil, List.append_assoc, List.singleton_append]
      · have hqueue : (queue ++ []).filterMap Event.result? = queue.filterMap Event.result? := by
          rw [List.append_nil]
        rw [hworked, ← hresults]
        exact congrArg _ hqueue

theorem accounts_of_runs {labels : List Act} {s : Monitor × List Event}
    (hruns : Runs sqrt numPeriod threshold labels s) : Accounts sqrt numPeriod threshold labels s := by
  refine Run.history_invariant _ accounts_init ?_ hruns
  intro labels s a s' _ hinv hturn
  cases hturn with
  | finish m queue result => exact hinv.finish result
  | handle m queue event => exact hinv.handle

/-- **The alarms are logged in order.** At any moment the log holds the alarms of the periods the detector
has worked on, but for those that wait in the queue, and the periods it has not worked on wait there too. -/
theorem logAno_run {labels : List Act} {m : Monitor} {queue : List Event}
    (hruns : Runs sqrt numPeriod threshold labels (m, queue)) :
    m.logAno ++ waiting threshold queue
        = detections sqrt numPeriod threshold (labels.flatMap Act.worked)
      ∧ labels.flatMap Act.worked ++ queue.filterMap Event.result? = labels.flatMap Act.finished :=
  ⟨(accounts_of_runs hruns).logged, (accounts_of_runs hruns).results⟩

/-- A period without traffic. -/
def quietPeriod : StatsCount.CountStat := ⟨0, 60, .leaf (.unanswered 0 0) 6⟩

/-- A period with two packets. -/
def busyPeriod : StatsCount.CountStat := ⟨60, 60, .leaf (.unanswered 2 64) 6⟩

/-- Two periods finished before the detector runs; it works on the first of them, which is the training. -/
theorem runs_quietPeriod : ∃ m,
    Runs id 1 (99 / 100) [.finish quietPeriod, .finish busyPeriod, .handle (.processFinish quietPeriod)]
        (m, [.processFinish busyPeriod])
      ∧ m.state.currentPeriod = 1 ∧ m.state.normalTree.info.num.countAvg = 0 :=
  ⟨_, ((Run.single (.finish _ _ _)).snoc (.finish _ _ _)).snoc (.handle _ _ _), rfl, by decide +kernel⟩

theorem detections_busyPeriod : (detections id 1 (99 / 100) [quietPeriod, busyPeriod]).length = 2 := by
  decide +kernel

/-- The second period is worked on too: the number of its packets and their bytes wait to be logged. -/
theorem logAno_run_busyPeriod : ∃ (m : Monitor) (queue : List Event),
    m.logAno ++ waiting (99 / 100) queue = detections id 1 (99 / 100) [quietPeriod, busyPeriod]
      ∧ (m.logAno ++ waiting (99 / 100) queue).length = 2 := by
  obtain ⟨m, hruns, _⟩ := runs_quietPeriod
  have hboth := logAno_run (hruns.snoc (.handle m [] (.processFinish busyPeriod)))
  exact ⟨_, _, hboth.1, (congrArg List.length hboth.1).trans detections_busyPeriod⟩

/-! ### The queue is worked off -/

theorem depth_handle (m : Monitor) (event event' : Event)
    (hevent : event' ∈ (handle sqrt numPeriod threshold m event).2) : event'.depth < event.depth := by
  cases event with
  | processFinish result =>
      obtain ⟨anomaly, _, rfl⟩ := List.mem_map.mp hevent
      exact Nat.lt_succ_self 1
  | scoreCalculated anomaly =>
      change event' ∈ (if anomaly.score ≥ threshold then [Event.anomalyDetected anomaly] else []) at hevent
      split at hevent
      · rw [List.mem_singleton.mp hevent]
        exact Nat.zero_lt_one
      · cases hevent
  | anomalyDetected anomaly => cases hevent

/-- Working off the queue is a run in which the collector finishes nothing. -/
theorem runs_of_drain {labels : List Act} {fuel : Nat} {m m' : Monitor} {queue : List Event}
    (hruns : Runs sqrt numPeriod threshold labels (m, queue))
    (hdrain : drain (handle sqrt numPeriod threshold) fuel m queue = some m') :
    ∃ events : List Event, Runs sqrt numPeriod threshold (labels ++ events.map Act.handle) (m', []) := by
  induction fuel generalizing labels m queue with
  | zero =>
      cases queue with
      | nil =>
          obtain rfl : m = m' := Option.some.inj hdrain
          exact ⟨[], by rwa [List.map_nil, List.append_nil]⟩
      | cons event queue => cases hdrain
  | succ fuel ih =>
      cases queue with
      | nil =>
          obtain rfl : m = m' := Option.some.inj hdrain
          exact ⟨[], by rwa [List.map_nil, List.append_nil]⟩
      | cons event queue =>
          obtain ⟨events, hrest⟩ := ih (hruns.snoc (.handle m queue event)) hdrain
          refine ⟨event :: events, ?_⟩
          rwa [List.append_assoc] at hrest

/-- **Every period is worked on.** The queue can be worked off, and then the log holds the alarms of all
periods that the collector has finished. -/
theorem logAno_complete {labels : List Act} {m : Monitor} {queue : List Event}
    (hruns : Runs sqrt numPeriod threshold labels (m, queue)) :
    ∃ fuel m', drain (handle sqrt numPeriod threshold) fuel m queue = some m'
      ∧ m'.logAno = detections sqrt numPeriod threshold (labels.flatMap Act.finished)
      ∧ m'.state.normalTree = baseline sqrt numPeriod (labels.flatMap Act.finished) := by
  obtain ⟨fuel, m', hdrain⟩ := exists_drain depth_handle m queue
  obtain ⟨events, hend⟩ := runs_of_drain hruns hdrain
  have hfinished : (labels ++ events.map Act.handle).flatMap Act.finished = labels.flatMap Act.finished := by
    simp [Act.finished]
  obtain ⟨hfollows, hlogged, hresults⟩ := accounts_of_runs hend
  have hworked : (labels ++ events.map Act.handle).flatMap Act.worked = labels.flatMap Act.finished := by
    rw [← hfinished, ← hresults]
    exact (List.append_nil _).symm
  rw [hworked] at hlogged
  refine ⟨fuel, m', hdrain, ?_, ?_⟩
  · rw [← hlogged]
    exact (List.append_nil _).symm
  · rw [← hworked]
    exact hfollows.tree

/-- The busy period is worked on against the quiet one: the number of its packets and their bytes are logged. -/
theorem logAno_complete_busyPeriod : ∃ fuel m', ∃ m : Monitor,
    drain (handle id 1 (99 / 100)) fuel m [.processFinish busyPeriod] = some m' ∧ m'.logAno.length = 2 := by
  obtain ⟨m, hruns, _⟩ := runs_quietPeriod
  obtain ⟨fuel, m', hdrain, hlog, _⟩ := logAno_complete hruns
  refine ⟨fuel, m', m, hdrain, ?_⟩
  rw [hlog]
  exact detections_busyPeriod

/-! ### The baseline is logged once -/

theorem find?_baseline {results : List StatsCount.CountStat} (hpos : 0 < numPeriod)
    (hlength : numPeriod ≤ results.length) (path : List Text) :
    (baseline sqrt numPeriod results).find? path
      = ((trained (results.take numPeriod)).find? path).map (calAvgStdNode sqrt numPeriod) := by
  have htake : (results.take numPeriod).length = numPeriod := by
    rw [List.length_take]
    omega
  rw [baseline]
  rcases List.eq_nil_or_concat (results.take numPeriod) with hnil | ⟨before, result, hconcat⟩
  · rw [hnil, List.length_nil] at htake
    omega
  · rw [List.concat_eq_append] at hconcat
    rw [hconcat, List.length_append, List.length_singleton] at htake
    rw [hconcat]
    exact find?_processFinish before result htake path

/-- **The baseline is logged once.** Until the training is over `LOG_BASE` is empty; from then on it holds
one record for each node of the normal tree, with its labels and its averages, and nothing else. -/
theorem logBase_run {labels : List Act} {m : Monitor} {queue : List Event}
    (hruns : Runs sqrt numPeriod threshold labels (m, queue)) :
    (m.state.currentPeriod < numPeriod → m.state.detector.logBase = [])
      ∧ (0 < numPeriod → numPeriod ≤ m.state.currentPeriod → ∀ path,
        recordsAt path m.state.detector.logBase
          = (m.state.normalTree.find? path).toList.map (baseRecord path)) := by
  obtain ⟨htree, hperiod, _, hbase⟩ := (accounts_of_runs hruns).follows
  rw [hperiod, htree, hbase]
  refine ⟨?_, ?_⟩
  · intro hlt
    rw [baseRecords, if_neg]
    omega
  · intro hpos hle path
    rw [baseRecords, if_pos ⟨hpos, hle⟩, recordsAt_records, find?_baseline hpos hle]

/-- The record of the root after one period of training. -/
theorem logBase_run_quietPeriod : ∃ m : Monitor,
    (recordsAt [] m.state.detector.logBase).map BaseInfo.numAvg = [0] := by
  obtain ⟨m, hruns, hperiod, havg⟩ := runs_quietPeriod
  have hrecords := (logBase_run hruns).2 Nat.zero_lt_one hperiod.ge []
  refine ⟨m, ?_⟩
  rw [hrecords, Trie.find?_nil]
  exact congrArg (fun avg => [avg]) havg

end

end Armore.AnoDet
