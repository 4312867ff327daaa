import Armore.Stats.CheckTree
import Mathlib.Algebra.BigOperators.Group.List.Basic
import Mathlib.Algebra.Field.Rat
import Mathlib.Tactic.NormNum
import Mathlib.Tactic.Ring

/-!
# Training

Over the first `num_period` periods each current tree is merged into the normal tree: a node that is there
gets a sample, a node that is not is created first. A node that is missing in a period gets nothing; the
zeros it lacks are added at the end, by `cal_avg_std_node`. The labels that the loops of `initialize_tree`
set are overwritten before anything reads them and are left out.
-/

namespace Armore.AnoDet

open Lib

/-! ### The merge -/

/-- The body of `initialize_tree_level1` to `initialize_tree_level6`. -/
def initializeChildren {n : Nat}
    (deeper : Trie Text StatsCount.CountedInfo n → Trie Text CountInfo n → Trie Text CountInfo n)
    (current : Trie Text StatsCount.CountedInfo (n + 1)) (normal : Trie Text CountInfo (n + 1)) :
    Trie Text CountInfo (n + 1) :=
  normal.putAll
    (fun node? child =>
      let node := node?.getD (.leaf {} n)
      deeper child (node.mapInfo (initializeNode child.info)))
    current.childList

/-- `initialize_tree_level6`: a target has no children. -/
def initializeTreeLevel6 : StatsCount.Level5Node → Level5Node → Level5Node :=
  initializeChildren fun _ node => node

def initializeTreeLevel5 : StatsCount.Level4Node → Level4Node → Level4Node :=
  initializeChildren initializeTreeLevel6

def initializeTreeLevel4 : StatsCount.Level3Node → Level3Node → Level3Node :=
  initializeChildren initializeTreeLevel5

def initializeTreeLevel3 : StatsCount.Level2Node → Level2Node → Level2Node :=
  initializeChildren initializeTreeLevel4

def initializeTreeLevel2 : StatsCount.Level1Node → Level1Node → Level1Node :=
  initializeChildren initializeTreeLevel3

def initializeTreeLevel1 : StatsCount.CountedTree → RootNode → RootNode :=
  initializeChildren initializeTreeLevel2

def initializeTree (currentTree : StatsCount.CountedTree) (normalTree : RootNode) : RootNode :=
  initializeTreeLevel1 currentTree (normalTree.mapInfo (initializeNode currentTree.info))

/-! ### The averages -/

section

variable (sqrt : ℚ → ℚ) (numPeriod : Nat)

/-- `Log::write(AnoDet::LOG_BASE, gen_base_info(info, level))`. -/
def Detector.writeBase (d : Detector) (info : CountInfo) (level : Nat) : Detector :=
  { d with logBase := d.logBase ++ [genBaseInfo info level d.gAnoInfo] }

/-- The body of `calculate_tree_level1` to `calculate_tree_level6`. -/
def calculateChildren {n : Nat} (level : Nat)
    (deeper : Trie Text CountInfo n → Detector → Trie Text CountInfo n × Detector)
    (node : Trie Text CountInfo (n + 1)) (d : Detector) : Trie Text CountInfo (n + 1) × Detector :=
  node.childList.foldl
    (fun s entry =>
      let d := s.2.label level entry.1
      let child := entry.2.mapInfo (calAvgStdNode sqrt numPeriod)
      let (child, d) := deeper child (d.writeBase child.info level)
      (s.1.putChild entry.1 child, d))
    (node, d)

/-- `calculate_tree_level6`: a target has no children. -/
def calculateTreeLevel6 : Level5Node → Detector → Level5Node × Detector :=
  calculateChildren sqrt numPeriod 6 fun child d => (child, d)

def calculateTreeLevel5 : Level4Node → Detector → Level4Node × Detector :=
  calculateChildren sqrt numPeriod 5 (calculateTreeLevel6 sqrt numPeriod)

def calculateTreeLevel4 : Level3Node → Detector → Level3Node × Detector :=
  calculateChildren sqrt numPeriod 4 (calculateTreeLevel5 sqrt numPeriod)

def calculateTreeLevel3 : Level2Node → Detector → Level2Node × Detector :=
  calculateChildren sqrt numPeriod 3 (calculateTreeLevel4 sqrt numPeriod)

def calculateTreeLevel2 : Level1Node → Detector → Level1Node × Detector :=
  calculateChildren sqrt numPeriod 2 (calculateTreeLevel3 sqrt numPeriod)

def calculateTreeLevel1 : RootNode → Detector → RootNode × Detector :=
  calculateChildren sqrt numPeriod 1 (calculateTreeLevel2 sqrt numPeriod)

def calculateTree (normalTree : RootNode) (d : Detector) : RootNode × Detector :=
  let normalTree := normalTree.mapInfo (calAvgStdNode sqrt numPeriod)
  calculateTreeLevel1 sqrt numPeriod normalTree (d.writeBase normalTree.info 0)

end

/-! ### The handler -/

/-- `normal_tree`, `current_period`, and what the detector raises and writes. -/
structure State where
  normalTree : RootNode
  currentPeriod : Nat
  detector : Detector

/-- The second `bro_init`. -/
def State.init : State where
  normalTree := .leaf {} 6
  currentPeriod := 0
  detector := { gAnoInfo := { periodId := 0, ts := 0, period := 0, desc := .unknown } }

/-- The handler of `StatsCount::process_finish`. -/
def processFinish (sqrt : ℚ → ℚ) (numPeriod : Nat) (s : State) (result : StatsCount.CountStat) : State :=
  let currentPeriod := s.currentPeriod + 1
  let d : Detector :=
    { s.detector with
      gAnoInfo := { periodId := currentPeriod, ts := result.ts, period := result.period, desc := .unknown } }
  if currentPeriod ≤ numPeriod then
    let normalTree := initializeTree result.tree s.normalTree
    if currentPeriod = numPeriod then
      let (normalTree, d) := calculateTree sqrt numPeriod normalTree d
      ⟨normalTree, currentPeriod, d⟩
    else ⟨normalTree, currentPeriod, d⟩
  else ⟨s.normalTree, currentPeriod, (checkTree s.normalTree result.tree d).1⟩

/-! ### What the merge does at a path -/

/-- What a current node makes of a normal node, or of its absence. -/
def merged (normal? : Option CountInfo) : Option StatsCount.CountedInfo → Option CountInfo
  | none => normal?
  | some current => some (initializeNode current (normal?.getD {}))

/-- A merge of what is below the roots of two trees. -/
def Merges (n : Nat)
    (merge : Trie Text StatsCount.CountedInfo n → Trie Text CountInfo n → Trie Text CountInfo n) : Prop :=
  ∀ current normal, (merge current normal).info = normal.info
    ∧ ∀ key path, (merge current normal).find? (key :: path)
      = merged (normal.find? (key :: path)) (current.find? (key :: path))

theorem merges_leaf : Merges 0 fun _ node => node := by
  intro current normal
  exact ⟨rfl, fun key path => rfl⟩

theorem merges_initializeChildren {n : Nat}
    {deeper : Trie Text StatsCount.CountedInfo n → Trie Text CountInfo n → Trie Text CountInfo n}
    (hdeeper : Merges n deeper) : Merges (n + 1) (initializeChildren deeper) := by
  intro current normal
  refine ⟨Trie.info_putAll _ _ _, ?_⟩
  intro key path
  rw [Trie.find?_cons, Trie.find?_cons current, initializeChildren, Trie.child?_putAll_childList]
  cases current.child? key with
  | none => rfl
  | some child =>
      show ((deeper child _).find? path) = merged _ (child.find? path)
      rw [Trie.find?_cons normal]
      obtain ⟨hinfo, hbelow⟩ := hdeeper child
        (((normal.child? key).getD (.leaf {} n)).mapInfo (initializeNode child.info))
      cases path with
      | nil =>
          rw [Trie.find?_nil, hinfo, Trie.info_mapInfo, Trie.find?_nil, merged]
          cases normal.child? key with
          | none => rw [Option.getD_none, Trie.info_leaf]; rfl
          | some node => rw [Option.getD_some, Option.bind_some, Trie.find?_nil]; rfl
      | cons key' path =>
          rw [hbelow, Trie.find?_mapInfo_cons]
          cases normal.child? key with
          | none => rw [Option.getD_none, Trie.find?_leaf_cons]; rfl
          | some node => rfl

/-- **A node gets the sample of the period**, if the current tree has it. -/
theorem find?_initializeTree (current : StatsCount.CountedTree) (normal : RootNode) (path : List Text) :
    (initializeTree current normal).find? path = merged (normal.find? path) (current.find? path) := by
  have hmerges : Merges 6 initializeTreeLevel1 :=
    merges_initializeChildren (merges_initializeChildren (merges_initializeChildren
      (merges_initializeChildren (merges_initializeChildren (merges_initializeChildren merges_leaf)))))
  obtain ⟨hinfo, hbelow⟩ := hmerges current (normal.mapInfo (initializeNode current.info))
  cases path with
  | nil =>
      rw [Trie.find?_nil, initializeTree, hinfo, Trie.info_mapInfo, Trie.find?_nil, Trie.find?_nil]
      rfl
  | cons key path => rw [initializeTree, hbelow, Trie.find?_mapInfo_cons]

/-! ### What the averages do at a path -/

section

variable (sqrt : ℚ → ℚ) (numPeriod : Nat)

/-- A computation of the averages below the root of a tree; what the detector has written makes no
difference to the tree. -/
def Averages (n : Nat) (average : Trie Text CountInfo n → Detector → Trie Text CountInfo n × Detector) :
    Prop :=
  ∃ result : Trie Text CountInfo n → Trie Text CountInfo n,
    (∀ node d, (average node d).1 = result node)
      ∧ ∀ node, (result node).info = node.info
        ∧ ∀ key path, (result node).find? (key :: path)
          = (node.find? (key :: path)).map (calAvgStdNode sqrt numPeriod)

theorem averages_leaf : Averages sqrt numPeriod 0 fun node d => (node, d) :=
  ⟨id, fun _ _ => rfl, fun _ => ⟨rfl, fun _ _ => rfl⟩⟩

theorem averages_calculateChildren {n : Nat}
    {deeper : Trie Text CountInfo n → Detector → Trie Text CountInfo n × Detector}
    (hdeeper : Averages sqrt numPeriod n deeper) (level : Nat) :
    Averages sqrt numPeriod (n + 1) (calculateChildren sqrt numPeriod level deeper) := by
  obtain ⟨result, hresult, hbelow⟩ := hdeeper
  refine ⟨fun node => node.putAll
    (fun _ child => result (child.mapInfo (calAvgStdNode sqrt numPeriod))) node.childList, ?_, ?_⟩
  · intro node d
    rw [calculateChildren]
    refine (List.foldl_hom Prod.fst ?_).symm
    intro s entry
    exact congrArg (s.1.putChild entry.1) (hresult _ _).symm
  · intro node
    refine ⟨Trie.info_putAll _ _ _, ?_⟩
    intro key path
    rw [Trie.find?_cons, Trie.find?_cons, Trie.child?_putAll_childList]
    cases node.child? key with
    | none => rfl
    | some child =>
        obtain ⟨hinfo, hfind⟩ := hbelow (child.mapInfo (calAvgStdNode sqrt numPeriod))
        show (result _).find? path = (child.find? path).map _
        cases path with
        | nil => rw [Trie.find?_nil, hinfo, Trie.info_mapInfo, Trie.find?_nil, Option.map_some]
        | cons key' path => rw [hfind, Trie.find?_mapInfo_cons]

theorem averages_calculateTreeLevel1 : Averages sqrt numPeriod 6 (calculateTreeLevel1 sqrt numPeriod) :=
  averages_calculateChildren _ _ (averages_calculateChildren _ _ (averages_calculateChildren _ _
    (averages_calculateChildren _ _ (averages_calculateChildren _ _ (averages_calculateChildren _ _
      (averages_leaf sqrt numPeriod) 6) 5) 4) 3) 2) 1

/-- **The averages are computed for every node.** -/
theorem find?_calculateTree (normal : RootNode) (d : Detector) (path : List Text) :
    (calculateTree sqrt numPeriod normal d).1.find? path
      = (normal.find? path).map (calAvgStdNode sqrt numPeriod) := by
  obtain ⟨result, hresult, hbelow⟩ := averages_calculateTreeLevel1 sqrt numPeriod
  rw [calculateTree, hresult]
  obtain ⟨hinfo, hfind⟩ := hbelow (normal.mapInfo (calAvgStdNode sqrt numPeriod))
  cases path with
  | nil => rw [Trie.find?_nil, hinfo, Trie.info_mapInfo, Trie.find?_nil, Option.map_some]
  | cons key path => rw [hfind, Trie.find?_mapInfo_cons]

end

/-! ### The average of a queue -/

theorem foldl_add (xs : List ℚ) (m : Moments) :
    (xs.foldl Moments.add m).n = m.n + xs.length
      ∧ (xs.foldl Moments.add m).mean * (m.n + xs.length : ℕ) = m.mean * m.n + xs.sum := by
  induction xs generalizing m with
  | nil => simp
  | cons x xs ih =>
      obtain ⟨hn, hmean⟩ := ih (m.add x)
      have hlength : (m.add x).n + xs.length = m.n + (x :: xs).length := by
        show m.n + 1 + xs.length = m.n + (xs.length + 1)
        omega
      have hstep : (m.add x).mean * (m.add x).n = m.mean * m.n + x := by
        show (m.mean + (x - m.mean) / (m.n + 1 : ℕ)) * (m.n + 1 : ℕ) = _
        have hpos : ((m.n + 1 : ℕ) : ℚ) ≠ 0 := Nat.cast_ne_zero.mpr (Nat.succ_ne_zero _)
        rw [add_mul, div_mul_cancel₀ _ hpos, Nat.cast_add, Nat.cast_one]
        ring
      rw [List.foldl_cons, ← hlength, List.sum_cons]
      refine ⟨hn, ?_⟩
      rw [hmean, hstep, add_assoc]

/-- The mean computed on the way is the average. -/
theorem countAvg_calAvgStd (sqrt : ℚ → ℚ) (field : FieldInfo) :
    (calAvgStd sqrt field).countAvg = field.countQueue.sum / field.countQueue.length := by
  obtain ⟨_, hmean⟩ := foldl_add field.countQueue {}
  show (field.countQueue.foldl Moments.add {}).mean = _
  cases hqueue : field.countQueue with
  | nil => simp
  | cons x xs =>
      rw [hqueue] at hmean
      have hpos : (((x :: xs).length : ℕ) : ℚ) ≠ 0 := Nat.cast_ne_zero.mpr (Nat.succ_ne_zero _)
      rw [eq_div_iff hpos]
      simpa using hmean

/-! ### A training run -/

/-- The counts of a node over some periods, zero where it is missing. -/
def counts (results : List StatsCount.CountStat) (path : List Text) : List ℚ :=
  results.map fun result => ((result.tree.find? path).map fun info => (info.num : ℚ)).getD 0

/-- The counts of the periods in which it is there. -/
def samples (results : List StatsCount.CountStat) (path : List Text) : List ℚ :=
  results.filterMap fun result => (result.tree.find? path).map fun info => (info.num : ℚ)

theorem samples_length_le (results : List StatsCount.CountStat) (path : List Text) :
    (samples results path).length ≤ results.length :=
  List.length_filterMap_le _ _

/-- The samples and a zero for each period without one. -/
theorem counts_perm (results : List StatsCount.CountStat) (path : List Text) :
    (samples results path ++ List.replicate (results.length - (samples results path).length) 0).Perm
      (counts results path) := by
  induction results with
  | nil => exact .refl _
  | cons result results ih =>
      have hle := samples_length_le results path
      cases hfind : result.tree.find? path with
      | none =>
          have hsamples : samples (result :: results) path = samples results path := by
            simp [samples, hfind]
          have hcounts : counts (result :: results) path = 0 :: counts results path := by
            simp [counts, hfind]
          have hmore : (result :: results).length - (samples results path).length
              = (results.length - (samples results path).length) + 1 := by
            rw [List.length_cons]
            omega
          rw [hsamples, hcounts, hmore, List.replicate_succ]
          exact List.perm_middle.trans (ih.cons 0)
      | some info =>
          have hsamples : samples (result :: results) path = (info.num : ℚ) :: samples results path := by
            simp [samples, hfind]
          have hcounts : counts (result :: results) path = (info.num : ℚ) :: counts results path := by
            simp [counts, hfind]
          rw [hsamples, hcounts, List.length_cons, List.length_cons, Nat.add_sub_add_right]
          exact ih.cons _

/-- The normal tree after some periods of training. -/
def trained (results : List StatsCount.CountStat) : RootNode :=
  results.foldl (fun normal result => initializeTree result.tree normal) (.leaf {} 6)

theorem trained_snoc (results : List StatsCount.CountStat) (result : StatsCount.CountStat) :
    trained (results ++ [result]) = initializeTree result.tree (trained results) := by
  rw [trained, List.foldl_append]
  rfl

/-- While training goes on, the queue of a node holds its samples in order, and a node without one is not
in the tree. -/
theorem queue_trained (results : List StatsCount.CountStat) (path : List Text) :
    (((trained results).find? path).getD {}).num.countQueue = samples results path := by
  induction results using List.reverseRecOn with
  | nil =>
      cases path with
      | nil => rfl
      | cons key path => rfl
  | append_singleton results result ih =>
      rw [trained_snoc, find?_initializeTree, samples, List.filterMap_append, ← samples]
      cases hfind : result.tree.find? path with
      | none =>
          have hnone : [result].filterMap (fun result : StatsCount.CountStat =>
              (result.tree.find? path).map fun info => (info.num : ℚ)) = [] := by simp [hfind]
          rw [hnone, List.append_nil]
          exact ih
      | some info =>
          have hone : [result].filterMap (fun result : StatsCount.CountStat =>
              (result.tree.find? path).map fun info => (info.num : ℚ)) = [(info.num : ℚ)] := by
            simp [hfind]
          rw [hone, ← ih]
          rfl

theorem processFinish_before {sqrt : ℚ → ℚ} {numPeriod : Nat} (results : List StatsCount.CountStat)
    (hlength : results.length < numPeriod) :
    (results.foldl (processFinish sqrt numPeriod) .init).normalTree = trained results
      ∧ (results.foldl (processFinish sqrt numPeriod) .init).currentPeriod = results.length := by
  induction results using List.reverseRecOn with
  | nil => exact ⟨rfl, rfl⟩
  | append_singleton results result ih =>
      rw [List.length_append, List.length_singleton] at hlength
      obtain ⟨htree, hperiod⟩ := ih (by omega)
      rw [List.foldl_append, List.foldl_cons, List.foldl_nil, processFinish, hperiod, htree,
        if_pos hlength.le, if_neg hlength.ne, List.length_append, List.length_singleton, trained_snoc]
      exact ⟨rfl, rfl⟩

theorem find?_processFinish {sqrt : ℚ → ℚ} {numPeriod : Nat} (results : List StatsCount.CountStat)
    (result : StatsCount.CountStat) (hlength : results.length + 1 = numPeriod) (path : List Text) :
    ((results ++ [result]).foldl (processFinish sqrt numPeriod) .init).normalTree.find? path
      = ((trained (results ++ [result])).find? path).map (calAvgStdNode sqrt numPeriod) := by
  have hbefore : results.length < numPeriod := by omega
  obtain ⟨htree, hperiod⟩ :
      (results.foldl (processFinish sqrt numPeriod) .init).normalTree = trained results
        ∧ (results.foldl (processFinish sqrt numPeriod) .init).currentPeriod = results.length :=
    processFinish_before results hbefore
  rw [List.foldl_append, List.foldl_cons, List.foldl_nil, processFinish, hperiod, htree, if_pos hlength.le,
    if_pos hlength, trained_snoc]
  exact find?_calculateTree sqrt numPeriod _ _ path

/-- **Training covers every period.** After as many periods as the training takes, the count queue of
every node holds one sample for each period, zero where the node was missing, and its average is theirs. -/
theorem count_queue_covers_periods (sqrt : ℚ → ℚ) {numPeriod : Nat} {results : List StatsCount.CountStat}
    (hlength : results.length = numPeriod) {path : List Text} {info : CountInfo}
    (hfind : (results.foldl (processFinish sqrt numPeriod) .init).normalTree.find? path = some info) :
    info.num.countQueue.length = numPeriod ∧ info.num.countQueue.Perm (counts results path)
      ∧ info.num.countAvg = (counts results path).sum / numPeriod := by
  have hpadded : ∃ info₀ : CountInfo, info₀.num.countQueue = samples results path
      ∧ info.num.countQueue = (info₀.num.pad numPeriod).countQueue
      ∧ info.num.countAvg = (calAvgStd sqrt (info₀.num.pad numPeriod)).countAvg := by
    rcases List.eq_nil_or_concat results with rfl | ⟨before, result, rfl⟩
    · -- no period at all: the root with its defaults
      subst hlength
      cases path with
      | nil =>
          obtain rfl : ({} : CountInfo) = info := Option.some.inj hfind
          exact ⟨{}, rfl, rfl, rfl⟩
      | cons key path => cases hfind
    · rw [List.concat_eq_append] at hlength hfind ⊢
      rw [List.length_append, List.length_singleton] at hlength
      rw [find?_processFinish before result hlength, Option.map_eq_some_iff] at hfind
      obtain ⟨info₀, hinfo₀, rfl⟩ := hfind
      have hqueue := queue_trained (before ++ [result]) path
      rw [hinfo₀] at hqueue
      exact ⟨info₀, hqueue, rfl, rfl⟩
  obtain ⟨info₀, hsamples, hqueue, havg⟩ := hpadded
  have hperm : info.num.countQueue.Perm (counts results path) := by
    rw [hqueue, FieldInfo.pad, hsamples, ← hlength]
    exact counts_perm results path
  have hcount : info.num.countQueue.length = numPeriod := by
    rw [hperm.length_eq, counts, List.length_map, hlength]
  refine ⟨hcount, hperm, ?_⟩
  rw [havg, countAvg_calAvgStd, ← hqueue, hcount, hperm.sum_eq]

/-- A period with one packet of a sender, after one without. -/
def lateSender : List StatsCount.CountStat :=
  [⟨0, 60, .leaf (.unanswered 0 0) 6⟩,
    ⟨60, 60, Trie.putChild (n := 5) (.leaf (.unanswered 2 64) 6) "10.0.0.5".toList
      (.leaf (.unanswered 2 64) 5)⟩]

/-- Two periods of training with a sender that appears in the second. -/
theorem count_queue_covers_lateSender : ∃ info,
    (lateSender.foldl (processFinish id 2) .init).normalTree.find? ["10.0.0.5".toList] = some info
      ∧ info.num.countQueue.Perm [0, 2] ∧ info.num.countAvg = 1 := by
  have hcounts : counts lateSender ["10.0.0.5".toList] = [0, 2] := by rfl
  obtain ⟨info, hfind⟩ : ∃ info,
      (lateSender.foldl (processFinish id 2) .init).normalTree.find? ["10.0.0.5".toList] = some info :=
    ⟨_, rfl⟩
  have hperiods : lateSender.length = 2 := rfl
  obtain ⟨_, hperm, havg⟩ := count_queue_covers_periods id hperiods hfind
  rw [hcounts] at hperm havg
  refine ⟨info, hfind, hperm, ?_⟩
  rw [havg]
  norm_num

end Armore.AnoDet
