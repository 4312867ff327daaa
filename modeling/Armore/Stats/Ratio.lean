import Armore.Lib.Run
import Armore.Stats.FunctionNodes

/-!
# The ratio of responded requests

`req_table` lives on when an epoch ends, and the counts start again. The detector divides the number of
delays of a function by the number of its items; this is a ratio when each delay belongs to a request of
the same epoch and the items of a node are all counted under one key.
-/

namespace Armore.StatsCount

open Lib
open StatsCol (Info)

/-- What happens to the counts: an item is seen, or an epoch ends and its summaries are handed over. -/
inductive Event
  | item (item : Info)
  | epoch (result : Result)

/-- What lives between two events. `seen` is the epoch so far, `finished` the trees of the epochs before. -/
structure Counting where
  reqTable : Table Text ReqInfo
  observed : List Observation
  currentTree : RootNode
  seen : List Info
  finished : List RootNode

def Counting.init : Counting := ⟨∅, [], emptyTree, [], []⟩

/-- An item goes to `item_seen`. At the end of an epoch `process_result` writes the tree, which a run-time
error may cut short, and `after_process` hands it on and starts a new one. -/
inductive CountStep (levels : Nat) : Counting → Event → Counting → Prop
  | item (s : Counting) (item : Info) :
      CountStep levels s (.item item)
        { s with
          reqTable := (itemSeen levels item s.reqTable).1
          observed := s.observed ++ (itemSeen levels item s.reqTable).2
          seen := s.seen ++ [item] }
  | epoch (s : Counting) (result : Result) : Summarizes result s.observed →
      CountStep levels s (.epoch result)
        { s with
          observed := []
          currentTree := emptyTree
          seen := []
          finished := s.finished ++ [left (processResult levels result s.currentTree)] }

/-- A response is matched only with a request of its own epoch, and an item goes to a function node only
under the key under which the node was counted before in the epoch. -/
def InEpoch (s : Counting) : Event → Prop
  | .epoch _ => True
  | .item item =>
    (∀ conn req, IsResponse conn item → s.reqTable.get? conn = some req → Answers item req →
      ∃ request ∈ s.seen, IsRequest conn request)
    ∧ ∀ other ∈ s.seen, ∀ str str' names, functionKey? item = some str → functionKey? other = some str' →
      nodeOf str = some names → nodeOf str' = some names → str = str'

/-- What is known within an epoch. -/
structure EpochInv (s : Counting) : Prop where
  tree : s.currentTree = emptyTree
  observed : ObservedAs .functions functionKey? s.seen s.observed
  delays : DelaysOnly (delays s.observed)
  once : ∀ item ∈ s.seen, ∀ other ∈ s.seen, ∀ str str' names, functionKey? item = some str →
    functionKey? other = some str' → nodeOf str = some names → nodeOf str' = some names → str = str'
  matched : ∃ before pairs during, Matched (before ++ s.seen) s.reqTable (pairs ++ during)
    ∧ List.Forall₂ (Paired (before ++ s.seen)) during (StatsCount.delays s.observed)
    ∧ ∀ pair ∈ during, before.length ≤ pair.1
  finished : ∀ tree ∈ s.finished, RatioBounded tree

theorem epochInv_init : EpochInv .init where
  tree := rfl
  observed := .nil
  delays := delaysOnly_nil
  once := by
    intro item hitem
    cases hitem
  matched := by
    refine ⟨[], [], [], .nil, .nil, ?_⟩
    intro pair hpair
    cases hpair
  finished := by
    intro tree htree
    cases htree

/-- **An item within its epoch.** -/
theorem EpochInv.item {levels : Nat} (hlevels : 5 ≤ levels) {s : Counting} (hinv : EpochInv s) {item : Info}
    (hepoch : InEpoch s (.item item)) :
    EpochInv { s with
      reqTable := (itemSeen levels item s.reqTable).1
      observed := s.observed ++ (itemSeen levels item s.reqTable).2
      seen := s.seen ++ [item] } where
  tree := hinv.tree
  observed := hinv.observed.snoc (observedAs_itemSeen hlevels item s.reqTable)
  delays := by
    show DelaysOnly (StatsCount.delays (s.observed ++ _))
    rw [delays_append]
    intro o ho
    rcases List.mem_append.mp ho with ho | ho
    · exact hinv.delays o ho
    · exact delaysOnly_itemSeen levels item s.reqTable o ho
  once := by
    intro item₁ hitem₁ item₂ hitem₂ str str' names hstr hstr' hnode hnode'
    rcases List.mem_append.mp hitem₁ with hseen₁ | hlast₁
    · rcases List.mem_append.mp hitem₂ with hseen₂ | hlast₂
      · exact hinv.once item₁ hseen₁ item₂ hseen₂ str str' names hstr hstr' hnode hnode'
      · rw [List.mem_singleton.mp hlast₂] at hstr'
        exact (hepoch.2 item₁ hseen₁ str' str names hstr' hstr hnode' hnode).symm
    · rw [List.mem_singleton.mp hlast₁] at hstr
      rcases List.mem_append.mp hitem₂ with hseen₂ | hlast₂
      · exact hepoch.2 item₂ hseen₂ str str' names hstr hstr' hnode hnode'
      · rw [List.mem_singleton.mp hlast₂, hstr, Option.some.injEq] at hstr'
        exact hstr'
  matched := by
    obtain ⟨before, pairs, during, hmatched, hpaired, hfrom⟩ := hinv.matched
    obtain ⟨new, hadds⟩ := hmatched.itemSeen hlevels item
    refine ⟨before, pairs, during ++ new, ?_, ?_, ?_⟩
    · rw [← List.append_assoc, ← List.append_assoc]
      exact hadds.matched
    · rw [← List.append_assoc, delays_append]
      exact List.rel_append (hpaired.imp fun _ _ hpair => hpair.snoc item) hadds.paired
    · intro pair hpair
      rcases List.mem_append.mp hpair with hpair | hpair
      · exact hfrom pair hpair
      · -- the last request of the connection is not before the one of this epoch
        obtain ⟨conn, req, hresponse, hget, hanswers, hlatest⟩ := hadds.answers pair hpair
        obtain ⟨request, hrequest, hconn⟩ := hepoch.1 conn req hresponse hget hanswers
        obtain ⟨k, hk⟩ := List.mem_iff_getElem?.mp hrequest
        have hposition : (before ++ s.seen)[before.length + k]? = some request := by
          rw [List.getElem?_append_right (Nat.le_add_right _ _), Nat.add_sub_cancel_left, hk]
        exact (Nat.le_add_right _ _).trans (hlatest.le_of_mem hposition hconn)
  finished := hinv.finished

/-- A delay is counted where its request was seen, and each request has one delay at most. -/
theorem EpochInv.delays_le {s : Counting} (hinv : EpochInv s) {str : Text} {numRes : Nat}
    (hdelays : counted str (StatsCount.delays s.observed) = some numRes) :
    ∃ num, counted (str ++ ":T".toList) (observedOn (.count .functions) s.observed) = some num
      ∧ numRes ≤ num := by
  obtain ⟨before, pairs, during, hmatched, hpaired, hfrom⟩ := hinv.matched
  have hnodup : (during.map Prod.fst).Nodup := by
    have hall := hmatched.requests
    rw [List.map_append] at hall
    exact hall.of_append_right
  obtain ⟨rfl, hpos⟩ := counted_eq_countP (fun o ho => (hinv.delays o ho).2.1) hdelays
  have hle : (StatsCount.delays s.observed).countP (fun o => o.str = some str)
      ≤ (itemsOf functionKey? (str ++ ":T".toList) s.seen).length := by
    refine (countP_delays_le hpaired hnodup hfrom str).trans ?_
    rw [itemsOf, ← List.countP_eq_length_filter]
    apply List.countP_mono_left
    intro item _ hkey
    exact decide_eq_true (functionKey?_of_requestKey? (of_decide_eq_true hkey))
  have hne : itemsOf functionKey? (str ++ ":T".toList) s.seen ≠ [] :=
    List.ne_nil_of_length_pos (hpos.trans_le hle)
  exact ⟨_, ((hinv.observed.counted _).1.trans (if_neg hne)), hle⟩

/-- **The end of an epoch.** -/
theorem EpochInv.epoch {levels : Nat} (hlevels : 5 ≤ levels) {s : Counting} (hinv : EpochInv s)
    {result : Result} (hresult : Summarizes result s.observed) :
    EpochInv { s with
      observed := []
      currentTree := emptyTree
      seen := []
      finished := s.finished ++ [left (processResult levels result s.currentTree)] } where
  tree := rfl
  observed := .nil
  delays := delaysOnly_nil
  once := by
    intro item hitem
    cases hitem
  matched := by
    obtain ⟨before, pairs, during, hmatched, _⟩ := hinv.matched
    refine ⟨before ++ s.seen, pairs ++ during, [], ?_, .nil, ?_⟩
    · rw [List.append_nil, List.append_nil]
      exact hmatched
    · intro pair hpair
      cases hpair
  finished := by
    intro tree htree
    rcases List.mem_append.mp htree with htree | htree
    · exact hinv.finished tree htree
    · rw [List.mem_singleton] at htree
      rw [htree, hinv.tree]
      have hkey : ∀ str, (counted str (observedOn (.count .functions) s.observed)).isSome = true →
          ∃ item ∈ s.seen, functionKey? item = some str := by
        intro str hsome
        rw [(hinv.observed.counted str).1] at hsome
        split at hsome
        · cases hsome
        · obtain ⟨item, hitem⟩ := List.exists_mem_of_ne_nil _ ‹_›
          exact ⟨item, mem_itemsOf.mp hitem⟩
      apply ratioBounded_processResult hlevels hresult hinv.observed.complete
      · intro str num hnum
        rw [(hinv.observed.counted str).1, Option.ite_none_left_eq_some, Option.some.injEq] at hnum
        obtain ⟨hne, rfl⟩ := hnum
        exact fun hzero => hne (List.eq_nil_of_length_eq_zero hzero)
      · intro o ho
        obtain ⟨_, _, hdbl, _, _, hstr⟩ := hinv.delays o ho
        rw [hstr]
        exact ⟨rfl, hdbl⟩
      · intro str str' names hsome hsome' hnode hnode'
        obtain ⟨item, hitem, hstr⟩ := hkey str hsome
        obtain ⟨item', hitem', hstr'⟩ := hkey str' hsome'
        exact hinv.once item hitem item' hitem' str str' names hstr hstr' hnode hnode'
      · intro str numRes hdelays
        exact hinv.delays_le hdelays

/-- **The ratio is a ratio.** In a run whose responses are matched within their epochs and whose function
nodes are each counted under one key, every epoch's tree has, at every function node with responses, no more
of them than items. -/
theorem ratio_bounded {levels : Nat} {events : List Event} {s : Counting}
    (hrun : Run (Restrict (CountStep levels) InEpoch) .init events s) :
    ∀ tree ∈ s.finished, ∀ names info numRes, names.length = 5 → tree.find? names = some info →
      info.numRes = some numRes →
      numRes ≤ info.num ∧ (info.num : ℚ) ≠ 0 ∧ 0 ≤ (numRes : ℚ) / info.num
        ∧ (numRes : ℚ) / info.num ≤ 1 := by
  have hbounded : ∀ tree ∈ s.finished, RatioBounded tree := by
    by_cases hlevels : 5 ≤ levels
    · refine (hrun.invariant EpochInv epochInv_init ?_).finished
      intro s event s' hinv ⟨hstep, hepoch⟩
      cases hstep with
      | item item => exact hinv.item hlevels hepoch
      | epoch result hresult => exact hinv.epoch hlevels hresult
    · refine (hrun.invariant (fun s => s.currentTree = emptyTree ∧ ∀ tree ∈ s.finished, RatioBounded tree)
        ⟨rfl, List.forall_mem_nil _⟩ ?_).2
      intro s event s' ⟨htree, hfinished⟩ ⟨hstep, _⟩
      cases hstep with
      | item item => exact ⟨htree, hfinished⟩
      | epoch result hresult =>
          refine ⟨rfl, ?_⟩
          intro tree hmem
          rcases List.mem_append.mp hmem with hmem | hmem
          · exact hfinished tree hmem
          · rw [List.mem_singleton.mp hmem, htree]
            exact ratioBounded_of_lt (Nat.lt_of_not_le hlevels) result
  intro tree htree names info numRes hlength hfind hnumRes
  obtain ⟨hpos, hle⟩ := hbounded tree htree names info hlength hfind numRes hnumRes
  have hnum : (0 : ℚ) < info.num := by exact_mod_cast hpos
  refine ⟨hle, hnum.ne', div_nonneg (Nat.cast_nonneg _) hnum.le, ?_⟩
  rw [div_le_one hnum]
  exact_mod_cast hle

/-- **The trees that are passed on are counted**, in every run. -/
theorem finished_counted {levels : Nat} {events : List Event} {s : Counting}
    (hrun : Run (CountStep levels) .init events s) :
    ∀ tree ∈ s.finished, ∃ finished : CountedTree, finished.map CountedInfo.toCountInfo = tree := by
  refine (hrun.invariant (fun s => s.currentTree = emptyTree ∧ OneByOne s.observed
    ∧ ∀ tree ∈ s.finished, ∃ finished : CountedTree, finished.map CountedInfo.toCountInfo = tree)
    ⟨rfl, oneByOne_nil, List.forall_mem_nil _⟩ ?_).2.2
  intro s event s' ⟨htree, hobserved, hfinished⟩ hstep
  cases hstep with
  | item item => exact ⟨htree, hobserved.append (oneByOne_itemSeen levels item s.reqTable), hfinished⟩
  | epoch result hresult =>
      refine ⟨rfl, oneByOne_nil, ?_⟩
      intro tree hmem
      rcases List.mem_append.mp hmem with hmem | hmem
      · exact hfinished tree hmem
      · rw [List.mem_singleton.mp hmem, htree]
        exact exists_counted_processResult (hresult.positive hobserved)

/-! ### A response in the next epoch -/

theorem run_items (levels : Nat) (s : Counting) (items : List Info) :
    Run (CountStep levels) s (items.map .item)
      { s with
        reqTable := (itemsSeen levels items s.reqTable).1
        observed := s.observed ++ (itemsSeen levels items s.reqTable).2
        seen := s.seen ++ items } := by
  induction items using List.reverseRecOn with
  | nil =>
      show Run _ s [] { s with observed := s.observed ++ [], seen := s.seen ++ [] }
      rw [List.append_nil, List.append_nil]
      exact .nil
  | append_singleton items item ih =>
      rw [List.map_append, List.map_singleton, itemsSeen_snoc, ← List.append_assoc, ← List.append_assoc]
      exact ih.snoc (.item _ item)

/-- The packets of a poll. -/
def pollPacket (isResponse : Bool) : Info where
  ts := 0
  len := 60
  sender := some (if isResponse then "10.0.0.2".toList else "10.0.0.1".toList)
  receiver := some (if isResponse then "10.0.0.1".toList else "10.0.0.2".toList)

/-- The functions they carry. -/
def pollFunction (isResponse : Bool) (conn : Text) : Info :=
  { pollPacket isResponse with
    protocol := some "DNP3".toList
    uid := some (if isResponse then "2:1".toList else "1:2".toList)
    func := some "READ".toList
    isResponse := some isResponse
    conn := some ⟨conn⟩ }

def pollNames : List Text :=
  ["10.0.0.1".toList, "10.0.0.2".toList, "DNP3".toList, "1:2".toList, "READ".toList]

/-- A request on one connection. -/
def polled : List Info := [pollPacket false, pollFunction false "C1".toList]

/-- A request on another one, and the responses to both. -/
def polledAgain : List Info :=
  [pollPacket false, pollFunction false "C2".toList, pollPacket true, pollFunction true "C1".toList,
    pollFunction true "C2".toList]

theorem two_responses :
    ∃ events s, Run (CountStep 6) .init events s ∧ ∃ tree ∈ s.finished, ∃ info,
      tree.find? pollNames = some info ∧ info.num = 1 ∧ info.numRes = some 2 := by
  have hfirst := run_items 6 .init polled
  have hepoch := hfirst.snoc (.epoch _ _ (summarizes_summarize _))
  have hsecond := hepoch.trans (run_items 6 _ polledAgain)
  have hlast := hsecond.snoc (.epoch _ _ (summarizes_summarize _))
  refine ⟨_, _, hlast, _, List.mem_append_right _ (List.mem_singleton_self _), ?_⟩
  have hfind : ((left (processResult 6
      (summarize (itemsSeen 6 polledAgain (itemsSeen 6 polled ∅).1).2) emptyTree)).find? pollNames).map
        (fun info => (info.num, info.numRes)) = some (1, some 2) := by
    decide +kernel
  obtain ⟨info, hinfo, hnumbers⟩ := Option.map_eq_some_iff.mp hfind
  obtain ⟨hnum, hnumRes⟩ := Prod.mk.inj hnumbers
  exact ⟨info, hinfo, hnum, hnumRes⟩

/-- When an epoch ends between a request and its response, the next one can count two responses to one
request. -/
theorem ratio_not_bounded :
    ¬ ∀ events s, Run (CountStep 6) .init events s →
      ∀ tree ∈ s.finished, ∀ names info numRes, names.length = 5 → tree.find? names = some info →
        info.numRes = some numRes → numRes ≤ info.num := by
  intro hall
  obtain ⟨events, s, hrun, tree, htree, info, hfind, hnum, hnumRes⟩ := two_responses
  have hle := hall events s hrun tree htree pollNames info 2 rfl hfind hnumRes
  omega

/-! ### A response in its epoch -/

theorem inEpoch_pollPacket (s : Counting) (isResponse : Bool) : InEpoch s (.item (pollPacket isResponse)) := by
  constructor
  · intro conn req hresponse
    cases hresponse.2.2.2
  · intro other _ str str' names hstr
    cases hstr

/-- A request and its response. -/
def answered : List Info :=
  [pollPacket false, pollFunction false "C1".toList, pollPacket true, pollFunction true "C1".toList]

theorem run_answered :
    Run (Restrict (CountStep 6) InEpoch) .init (answered.map .item)
      { Counting.init with
        reqTable := (itemsSeen 6 answered ∅).1
        observed := (itemsSeen 6 answered ∅).2
        seen := answered } := by
  have hpacket : Run (Restrict (CountStep 6) InEpoch) .init [.item (pollPacket false)] _ :=
    .single ⟨.item .init (pollPacket false), inEpoch_pollPacket _ false⟩
  have hrequest := hpacket.snoc ⟨.item _ (pollFunction false "C1".toList), ?_, ?_⟩
  · have hback := hrequest.snoc ⟨.item _ (pollPacket true), inEpoch_pollPacket _ true⟩
    refine hback.snoc ⟨.item _ (pollFunction true "C1".toList), ?_, ?_⟩
    · intro conn req hresponse _ _
      refine ⟨pollFunction false "C1".toList, by simp, rfl, rfl, ?_, rfl⟩
      exact hresponse.2.2.1
    · intro other hother str str' names hstr hstr' hnode hnode'
      -- the response goes to a node of its own
      have hnodes : (functionKey? (pollFunction true "C1".toList)).bind nodeOf
          ≠ (functionKey? (pollFunction false "C1".toList)).bind nodeOf := by
        decide +kernel
      have hseen : other = pollPacket false ∨ other = pollFunction false "C1".toList ∨ other = pollPacket true := by
        simpa only [Counting.init, List.nil_append, List.append_assoc, List.cons_append, List.mem_cons,
          List.not_mem_nil, or_false] using hother
      rcases hseen with rfl | rfl | rfl
      · cases hstr'
      · rw [hstr, hstr'] at hnodes
        exact absurd (hnode.trans hnode'.symm) hnodes
      · cases hstr'
  · intro conn req hresponse
    cases hresponse.2.2.2
  · intro other hother str str' names _ hstr'
    obtain rfl := List.mem_singleton.mp hother
    cases hstr'

theorem ratio_bounded_answered :
    ∃ (tree : RootNode) (info : CountInfo), tree.find? pollNames = some info ∧ info.numRes = some 1 ∧ 1 ≤ info.num
      ∧ (info.num : ℚ) ≠ 0 ∧ 0 ≤ ((1 : Nat) : ℚ) / info.num ∧ ((1 : Nat) : ℚ) / info.num ≤ 1 := by
  have hrun := run_answered.snoc ⟨.epoch _ _ (summarizes_summarize _), trivial⟩
  have hfind : ((left (processResult 6 (summarize (itemsSeen 6 answered ∅).2) emptyTree)).find? pollNames).map
      CountInfo.numRes = some (some 1) := by
    decide +kernel
  obtain ⟨info, hinfo, hnumRes⟩ := Option.map_eq_some_iff.mp hfind
  exact ⟨_, info, hinfo, hnumRes,
    ratio_bounded hrun _ (List.mem_append_right _ (List.mem_singleton_self _)) pollNames info 1 rfl hinfo hnumRes⟩

end Armore.StatsCount
