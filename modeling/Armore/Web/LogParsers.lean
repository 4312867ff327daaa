import Armore.Lib.Raising
import Armore.Stats.Dnp3
import Armore.Stats.LogWriter

/-!
# The parsers of the logs

`domains/lib/create_json_graph.py`: what `process_stats_col_log`, `process_stats_count_log` and
`process_stats_anomaly_log` take from a line. Each has its own way to cut the line, and all three cut at
spaces, while the writer puts tabs between the columns and a target may have spaces of its own. So a line
is read back exactly when none of the columns that are taken has a space.
-/

namespace Armore.Web

open Lib Lib.Text

inductive ParseExn
  | valueError
  | indexError
  deriving DecidableEq

/-- `data[i]`. -/
def getItem (data : List Text) (i : Nat) : Except ParseExn Text :=
  match data[i]? with
  | some value => .ok value
  | none => .error .indexError

def startsWithHash (line : Text) : Bool := line.head? = some '#'

/-- The body of the second loop of `process_stats_col_log`, up to the columns it takes. -/
def processStatsCol (line : Text) : Except ParseExn (Option ColRow) :=
  if startsWithHash line then .ok none
  else
    match ((words line).drop 2).take 7 with
    | [send, recv, proto, uid, func, target, isResponse] =>
      .ok (some ⟨⟨send, recv, proto, uid, func, target⟩, isResponse⟩)
    | _ => .error .valueError

/-- `line.strip().replace('\t', ' ')`. -/
def tabsToSpaces (line : Text) : Text := (strip whitespace line).map fun c => if c = '\t' then ' ' else c

/-- The columns `process_stats_count_log` takes, in the order it takes them. -/
def countColumns (data : List Text) : Except ParseExn (Option Labels) := do
  let _ ← getItem data 0
  let _ ← getItem data 1
  let proto ← getItem data 5
  let protoid ← getItem data 6
  if proto = ['-'] then return none
  let src ← getItem data 3
  let dst ← getItem data 4
  let func ← getItem data 7
  let target ← getItem data 8
  return some ⟨src, dst, proto, protoid, func, target⟩

/-- The body of the loop of `process_stats_count_log`, up to the columns it takes. -/
def processStatsCount (line : Text) : Except ParseExn (Option Labels) :=
  let line := tabsToSpaces line
  if startsWithHash line || strip whitespace line = [] then .ok none else countColumns (line.splitOn ' ')

/-- The body of the loop of `process_stats_anomaly_log`. -/
def processStatsAnomaly (line : Text) : Except ParseExn (Option AnomalyRow) :=
  if startsWithHash line then .ok none
  else do
    let data := words line
    if (← getItem data 5) = ['-'] then return none
    let sender ← getItem data 3
    let receiver ← getItem data 4
    let proto ← getItem data 5
    let uid ← getItem data 6
    let func ← getItem data 7
    let target ← getItem data 8
    let field ← getItem data 9
    let desc ← getItem data 10
    let score ← getItem data 11
    let avg ← getItem data 12
    let std ← getItem data 13
    let current ← getItem data 14
    return some ⟨⟨sender, receiver, proto, uid, func, target⟩, field, desc, score, avg, std, current⟩

/-! ### The pieces of a line -/

theorem words_line (columns : List Text) : words (AsciiWriter.line columns) = columns.flatMap words := by
  have hnewline := words_append (show whitespace '\n' = true by decide) (['\t'].intercalate columns) []
  rw [AsciiWriter.line, hnewline, words_intercalate (by decide)]
  exact List.append_nil _

theorem words_word {c : Text} (hc : Word c) : words c = [c] := words_eq_singleton hc.1 hc.whitespace_eq_false

theorem splitOn_word {c : Text} (hc : Word c) : c.splitOn ' ' = [c] := List.splitOn_eq_singleton hc.notMem_space

section

variable {cut : Text → List Text} (hcut : ∀ c, Word c → cut c = [c])

include hcut

/-- Columns without spaces are the pieces of the line. -/
theorem flatMap_of_forall_word {columns : List Text} (hwords : ∀ c ∈ columns, Word c) :
    columns.flatMap cut = columns := by
  induction columns with
  | nil => rfl
  | cons c columns ih =>
    rw [List.flatMap_cons, hcut c (hwords c List.mem_cons_self), List.singleton_append,
      ih fun d hd => hwords d (List.mem_cons_of_mem c hd)]

end

theorem mem_of_getItem {data : List Text} {i : Nat} {value : Text} (h : getItem data i = .ok value) :
    value ∈ data := by
  rw [getItem] at h
  split at h
  · rename_i hvalue
    rw [← Except.ok.inj h]
    exact List.mem_of_getElem? hvalue
  · exact nomatch h

theorem notMem_space_of_mem_words {text word : Text} (hword : word ∈ words text) : ' ' ∉ word :=
  fun hmem => absurd (of_mem_words hword ' ' hmem) (by decide)

theorem exists_intercalate_cons (separator c : Char) (rest : Text) (columns : List Text) (after : Text) :
    ∃ more, [separator].intercalate ((c :: rest) :: columns) ++ after = c :: more := by
  by_cases hnil : columns = []
  · exact ⟨rest ++ after, by rw [hnil]; simp [List.intercalate]⟩
  · exact ⟨_, by rw [intercalate_cons _ hnil]; rfl⟩

/-- A comment starts with `#`, and a row with a number. -/
theorem startsWithHash_intercalate {first : Text} (hword : Word first) (hstart : first.head? ≠ some '#')
    (separator : Char) (columns : List Text) (after : Text) :
    startsWithHash ([separator].intercalate (first :: columns) ++ after) = false := by
  obtain ⟨c, rest, rfl⟩ := List.exists_cons_of_ne_nil hword.1
  obtain ⟨more, hmore⟩ := exists_intercalate_cons separator c rest columns after
  rw [startsWithHash, decide_eq_false_iff_not, hmore]
  exact hstart

/-! ### The log of `StatsCol` -/

/-- What is taken are words of the line. -/
theorem processStatsCol_ok {line : Text} {row : ColRow} (h : processStatsCol line = .ok (some row)) :
    ∀ c ∈ row.columns, c ∈ words line := by
  rw [processStatsCol] at h
  split at h
  · exact nomatch h
  · split at h
    · rename_i heq
      rw [← Option.some.inj (Except.ok.inj h)]
      intro c hc
      have htaken : c ∈ ((words line).drop 2).take 7 := by
        rw [heq]
        exact hc
      exact List.mem_of_mem_drop (List.mem_of_mem_take htaken)
    · exact nomatch h

theorem processStatsCol_iff (w : AsciiWriter) (item : StatsCol.Info) :
    processStatsCol (w.colLine item) = .ok (some (w.colRow item)) ↔ ∀ c ∈ (w.colRow item).columns, ' ' ∉ c := by
  constructor
  · intro h c hc
    exact notMem_space_of_mem_words (processStatsCol_ok h c hc)
  · intro hspace
    have hwords : ∀ c ∈ [w.time item.ts, w.count item.len] ++ (w.colRow item).columns, Word c := by
      simp only [List.forall_mem_append, List.forall_mem_cons, List.not_mem_nil, false_imp_iff, implies_true,
        and_true]
      exact ⟨⟨w.time_word _, w.count_word _⟩, fun c hc => (w.colRow_printed item c hc).word_iff.mpr (hspace c hc)⟩
    have hline : words (w.colLine item) = [w.time item.ts, w.count item.len] ++ (w.colRow item).columns := by
      rw [AsciiWriter.colLine, words_line, flatMap_of_forall_word (fun _ => words_word) hwords]
    have hhash : startsWithHash (w.colLine item) = false :=
      startsWithHash_intercalate (w.time_word _) (w.time_start _) _ _ _
    rw [processStatsCol, hhash, hline]
    rfl

/-! ### The log of `AnoDet` -/

theorem processStatsAnomaly_ok {line : Text} {row : AnomalyRow} (h : processStatsAnomaly line = .ok (some row)) :
    ∀ c ∈ row.columns, c ∈ words line := by
  rw [processStatsAnomaly] at h
  split at h
  · exact nomatch h
  · obtain ⟨proto, _, h⟩ := bind_ok.mp h
    split at h
    · exact nomatch h
    · simp only [bind_ok] at h
      obtain ⟨sender, hsender, receiver, hreceiver, proto, hproto, uid, huid, func, hfunc, target, htarget, field,
        hfield, desc, hdesc, score, hscore, avg, havg, std, hstd, current, hcurrent, h⟩ := h
      rw [← Option.some.inj (Except.ok.inj h)]
      simp only [AnomalyRow.columns, Labels.columns, List.forall_mem_append, List.forall_mem_cons,
        List.not_mem_nil, false_imp_iff, implies_true, and_true]
      exact ⟨⟨mem_of_getItem hsender, mem_of_getItem hreceiver, mem_of_getItem hproto, mem_of_getItem huid,
        mem_of_getItem hfunc, mem_of_getItem htarget⟩, mem_of_getItem hfield, mem_of_getItem hdesc,
        mem_of_getItem hscore, mem_of_getItem havg, mem_of_getItem hstd, mem_of_getItem hcurrent⟩

/-- The sender and the receiver of a record are addresses, which have no spaces. -/
def Addressed (sender receiver : Option Text) : Prop :=
  (∀ a ∈ sender, IsAddress a) ∧ ∀ a ∈ receiver, IsAddress a

/-- What there is to take from a row: nothing without a protocol. -/
def expected {α : Type} (protocol : Option Text) (row : α) : Option α := protocol.map fun _ => row

theorem expected_eq {α : Type} (protocol : Option Text) (row : α) :
    protocol = none ∧ expected protocol row = none ∨ protocol ≠ none ∧ expected protocol row = some row := by
  cases protocol with
  | none => exact .inl ⟨rfl, rfl⟩
  | some _ => exact .inr ⟨Option.some_ne_none _, rfl⟩

section

variable (w : AsciiWriter) (anomaly : AnoDet.AnoInfo)

theorem anomalyLine_hash : startsWithHash (w.anomalyLine anomaly) = false :=
  startsWithHash_intercalate (w.count_word _) (w.count_start _) _ _ _

theorem anomalyLead_word : ∀ c ∈ [w.count anomaly.periodId, w.time anomaly.ts, w.interval anomaly.period], Word c := by
  simp only [List.forall_mem_cons, List.not_mem_nil, false_imp_iff, implies_true, and_true]
  exact ⟨w.count_word _, w.time_word _, w.interval_word _⟩

/-- The line of a record without a protocol is skipped. -/
theorem processStatsAnomaly_unset {anomaly : AnoDet.AnoInfo} (haddressed : Addressed anomaly.sender anomaly.receiver)
    (hprotocol : anomaly.protocol = none) : processStatsAnomaly (w.anomalyLine anomaly) = .ok none := by
  let front := [w.count anomaly.periodId, w.time anomaly.ts, w.interval anomaly.period,
    AsciiWriter.cell w.string anomaly.sender, AsciiWriter.cell w.string anomaly.receiver, AsciiWriter.unset]
  have hfront : ∀ c ∈ front, Word c := by
    simp only [front, List.forall_mem_cons, List.not_mem_nil, false_imp_iff, implies_true, and_true]
    exact ⟨w.count_word _, w.time_word _, w.interval_word _, w.cell_address haddressed.1,
      w.cell_address haddressed.2, AsciiWriter.unset_word⟩
  have hcolumns : [w.count anomaly.periodId, w.time anomaly.ts, w.interval anomaly.period]
      ++ (w.anomalyRow anomaly).columns = front ++ (w.anomalyRow anomaly).columns.drop 3 := by
    have hunset := w.cell_eq_unset.mpr hprotocol
    simp only [front, ← hunset]
    rfl
  have hline : words (w.anomalyLine anomaly) = front ++ ((w.anomalyRow anomaly).columns.drop 3).flatMap words := by
    rw [AsciiWriter.anomalyLine, words_line, hcolumns, List.flatMap_append,
      flatMap_of_forall_word (fun _ => words_word) hfront]
  rw [processStatsAnomaly, anomalyLine_hash, hline]
  rfl

theorem processStatsAnomaly_iff (haddressed : Addressed anomaly.sender anomaly.receiver) :
    processStatsAnomaly (w.anomalyLine anomaly) = .ok (expected anomaly.protocol (w.anomalyRow anomaly)) ↔
      anomaly.protocol = none ∨ ∀ c ∈ (w.anomalyRow anomaly).columns, ' ' ∉ c := by
  rcases expected_eq anomaly.protocol (w.anomalyRow anomaly) with ⟨hprotocol, hnone⟩ | ⟨hprotocol, hsome⟩
  · rw [hnone]
    exact ⟨fun _ => .inl hprotocol, fun _ => processStatsAnomaly_unset w haddressed hprotocol⟩
  · rw [hsome]
    constructor
    · intro h
      exact .inr fun c hc => notMem_space_of_mem_words (processStatsAnomaly_ok h c hc)
    · intro hspace
      have hrow : ∀ c ∈ (w.anomalyRow anomaly).columns, Word c := fun c hc =>
        (w.anomalyRow_printed anomaly c hc).word_iff.mpr (hspace.resolve_left hprotocol c hc)
      have hline : words (w.anomalyLine anomaly)
          = [w.count anomaly.periodId, w.time anomaly.ts, w.interval anomaly.period]
            ++ (w.anomalyRow anomaly).columns := by
        rw [AsciiWriter.anomalyLine, words_line, flatMap_of_forall_word fun _ => words_word]
        rw [List.forall_mem_append]
        exact ⟨anomalyLead_word w anomaly, hrow⟩
      have hset : AsciiWriter.cell w.string anomaly.protocol ≠ ['-'] :=
        fun h => hprotocol ((w.cell_eq_unset).mp h)
      rw [processStatsAnomaly, anomalyLine_hash, hline]
      show (if AsciiWriter.cell w.string anomaly.protocol = ['-'] then _ else _) = _
      rw [if_neg hset]
      rfl

end

/-! ### The log of `StatsCount` -/

theorem processStatsCount_ok {line : Text} {row : Labels} (h : processStatsCount line = .ok (some row)) :
    ∀ c ∈ row.columns, c ∈ (tabsToSpaces line).splitOn ' ' := by
  rw [processStatsCount] at h
  split at h
  · exact nomatch h
  · simp only [countColumns, bind_ok] at h
    obtain ⟨_, _, _, _, proto, hproto, protoid, hprotoid, h⟩ := h
    split at h
    · exact nomatch h
    · simp only [bind_ok] at h
      obtain ⟨src, hsrc, dst, hdst, func, hfunc, target, htarget, h⟩ := h
      rw [← Option.some.inj (Except.ok.inj h)]
      simp only [Labels.columns, List.forall_mem_cons, List.not_mem_nil, false_imp_iff, implies_true, and_true]
      exact ⟨mem_of_getItem hsrc, mem_of_getItem hdst, mem_of_getItem hproto, mem_of_getItem hprotoid,
        mem_of_getItem hfunc, mem_of_getItem htarget⟩

/-- Tabs are the separators only. -/
theorem map_intercalate {columns : List Text} (htab : ∀ c ∈ columns, '\t' ∉ c) :
    (['\t'].intercalate columns).map (fun c => if c = '\t' then ' ' else c) = [' '].intercalate columns := by
  have hkeep : ∀ c : Text, '\t' ∉ c → c.map (fun c => if c = '\t' then ' ' else c) = c := by
    intro c hc
    conv_rhs => rw [← List.map_id c]
    apply List.map_congr_left
    intro d hd
    rw [if_neg fun heq : d = '\t' => hc (heq ▸ hd)]
    rfl
  induction columns with
  | nil => rfl
  | cons c columns ih =>
    have hc := hkeep c (htab c List.mem_cons_self)
    by_cases hnil : columns = []
    · simpa [hnil, List.intercalate] using hc
    · rw [intercalate_cons _ hnil, intercalate_cons _ hnil, List.map_append, List.map_cons, hc, if_pos rfl,
        ih fun d hd => htab d (List.mem_cons_of_mem c hd)]

/-- Only the newline is stripped from a line that starts and ends with a word. -/
theorem strip_line {first last : Text} (hfirst : Word first) (hlast : Word last) (middle : List Text) :
    strip whitespace (AsciiWriter.line (first :: middle ++ [last])) = ['\t'].intercalate (first :: middle ++ [last]) := by
  obtain ⟨c, rest, rfl⟩ := List.exists_cons_of_ne_nil hfirst.1
  obtain ⟨more, hmore⟩ := exists_intercalate_cons '\t' c rest (middle ++ [last]) ['\n']
  have hlastEq := (List.dropLast_append_getLast hlast.1).symm
  have hfront : (AsciiWriter.line ((c :: rest) :: middle ++ [last])).dropWhile whitespace
      = AsciiWriter.line ((c :: rest) :: middle ++ [last]) := by
    rw [AsciiWriter.line, List.cons_append, hmore, List.dropWhile_cons_of_neg]
    rw [hfirst.whitespace_eq_false c List.mem_cons_self]
    exact Bool.false_ne_true
  have hend : ['\t'].intercalate ((c :: rest) :: middle ++ [last])
      = ['\t'].intercalate ((c :: rest) :: middle ++ [[]]) ++ last.dropLast ++ [last.getLast hlast.1] := by
    rw [List.append_assoc, ← hlastEq, intercalate_append]
    rfl
  have hd : ¬ whitespace (last.getLast hlast.1) = true := by
    rw [hlast.whitespace_eq_false _ (List.getLast_mem hlast.1)]
    exact Bool.false_ne_true
  rw [strip, hfront, AsciiWriter.line, List.rdropWhile_concat_pos _ _ _ (by decide), hend,
    List.rdropWhile_concat_neg _ _ _ hd]

section

variable {first last : Text} {middle : List Text} (hfirst : Word first) (hlast : Word last)
  (hmiddle : ∀ c ∈ middle, Printed c)

include hfirst hlast hmiddle

theorem tabsToSpaces_line :
    tabsToSpaces (AsciiWriter.line (first :: middle ++ [last])) = [' '].intercalate (first :: middle ++ [last]) := by
  rw [tabsToSpaces, strip_line hfirst hlast, map_intercalate]
  simp only [List.cons_append, List.forall_mem_cons, List.forall_mem_append, List.not_mem_nil, false_imp_iff,
    implies_true, and_true]
  exact ⟨hfirst.printed.notMem_tab, fun c hc => (hmiddle c hc).notMem_tab, hlast.printed.notMem_tab⟩

/-- The pieces of a line. -/
theorem splitOn_tabsToSpaces :
    (tabsToSpaces (AsciiWriter.line (first :: middle ++ [last]))).splitOn ' '
      = (first :: middle ++ [last]).flatMap (·.splitOn ' ') := by
  rw [tabsToSpaces_line hfirst hlast hmiddle, splitOn_intercalate_eq_flatMap (by simp)]

/-- A row is neither a comment nor blank. -/
theorem tabsToSpaces_read (hstart : first.head? ≠ some '#') :
    (startsWithHash (tabsToSpaces (AsciiWriter.line (first :: middle ++ [last])))
      || decide (strip whitespace (tabsToSpaces (AsciiWriter.line (first :: middle ++ [last]))) = [])) = false := by
  rw [tabsToSpaces_line hfirst hlast hmiddle, Bool.or_eq_false_iff]
  have happend := List.append_nil ([' '].intercalate (first :: middle ++ [last]))
  constructor
  · rw [← happend]
    exact startsWithHash_intercalate hfirst hstart ' ' (middle ++ [last]) []
  · obtain ⟨c, rest, rfl⟩ := List.exists_cons_of_ne_nil hfirst.1
    obtain ⟨more, hmore⟩ := exists_intercalate_cons ' ' c rest (middle ++ [last]) []
    have hc := hfirst.whitespace_eq_false c List.mem_cons_self
    rw [← happend, List.cons_append, hmore, decide_eq_false_iff_not, strip, List.dropWhile_cons_of_neg,
      List.rdropWhile_eq_nil_iff]
    · intro hall
      have hspace := hall c List.mem_cons_self
      rw [hc] at hspace
      exact Bool.false_ne_true hspace
    · rw [hc]
      exact Bool.false_ne_true

theorem processStatsCount_line (hstart : first.head? ≠ some '#') :
    processStatsCount (AsciiWriter.line (first :: middle ++ [last]))
      = countColumns ((first :: middle ++ [last]).flatMap (·.splitOn ' ')) := by
  rw [processStatsCount]
  simp only [tabsToSpaces_read hfirst hlast hmiddle hstart, splitOn_tabsToSpaces hfirst hlast hmiddle]
  rfl

end

section

variable (w : AsciiWriter) (info : StatsCount.LogInfo)

/-- The columns after the labels but the last one. -/
def countRest : List Text :=
  [w.count info.num, w.double info.bytes, AsciiWriter.cell AsciiWriter.bool info.isRequest,
    AsciiWriter.cell w.count info.numResponse]

theorem countRest_word : ∀ c ∈ countRest w info, Word c := by
  simp only [countRest, List.forall_mem_cons, List.not_mem_nil, false_imp_iff, implies_true, and_true]
  exact ⟨w.count_word _, w.double_word _, AsciiWriter.cell_word AsciiWriter.bool_word _,
    AsciiWriter.cell_word w.count_word _⟩

/-- The columns between the first and the last one. -/
def countMiddle : List Text :=
  [w.time info.ts, w.interval info.period] ++ (w.countLabels info).columns ++ countRest w info

theorem countMiddle_printed : ∀ c ∈ countMiddle w info, Printed c := by
  rw [countMiddle, List.forall_mem_append, List.forall_mem_append]
  refine ⟨⟨?_, w.labels_printed _ _ _ _ _ _⟩, fun c hc => (countRest_word w info c hc).printed⟩
  simp only [List.forall_mem_cons, List.not_mem_nil, false_imp_iff, implies_true, and_true]
  exact ⟨(w.time_word _).printed, (w.interval_word _).printed⟩

theorem processStatsCount_countLine :
    processStatsCount (w.countLine info)
      = countColumns ((w.count info.periodId :: countMiddle w info
          ++ [AsciiWriter.cell w.interval info.avgDelay]).flatMap (·.splitOn ' ')) := by
  rw [← processStatsCount_line (w.count_word _) (AsciiWriter.cell_word w.interval_word _)
    (countMiddle_printed w info) (w.count_start _)]
  rfl

/-- The line of a record without a protocol is skipped. -/
theorem processStatsCount_unset (haddressed : Addressed info.sender info.receiver)
    (hprotocol : info.protocol = none) : processStatsCount (w.countLine info) = .ok none := by
  let front := [w.count info.periodId, w.time info.ts, w.interval info.period,
    AsciiWriter.cell w.string info.sender, AsciiWriter.cell w.string info.receiver, AsciiWriter.unset]
  have hfront : ∀ c ∈ front, Word c := by
    simp only [front, List.forall_mem_cons, List.not_mem_nil, false_imp_iff, implies_true, and_true]
    exact ⟨w.count_word _, w.time_word _, w.interval_word _, w.cell_address haddressed.1,
      w.cell_address haddressed.2, AsciiWriter.unset_word⟩
  let uid := AsciiWriter.cell w.string info.uid
  let after := [AsciiWriter.cell w.string info.func, AsciiWriter.cell w.string info.target] ++ countRest w info
    ++ [AsciiWriter.cell w.interval info.avgDelay]
  have hcolumns : w.count info.periodId :: countMiddle w info ++ [AsciiWriter.cell w.interval info.avgDelay]
      = front ++ uid :: after := by
    have hunset := w.cell_eq_unset.mpr hprotocol
    simp only [front, ← hunset]
    rfl
  obtain ⟨protoid, rest, huid⟩ := List.exists_cons_of_ne_nil (List.splitOn_ne_nil ' ' uid)
  rw [processStatsCount_countLine, hcolumns, List.flatMap_append,
    flatMap_of_forall_word (fun _ => splitOn_word) hfront, List.flatMap_cons, huid]
  rfl

theorem processStatsCount_iff (haddressed : Addressed info.sender info.receiver) :
    processStatsCount (w.countLine info) = .ok (expected info.protocol (w.countLabels info)) ↔
      info.protocol = none ∨ ∀ c ∈ (w.countLabels info).columns, ' ' ∉ c := by
  rcases expected_eq info.protocol (w.countLabels info) with ⟨hprotocol, hnone⟩ | ⟨hprotocol, hsome⟩
  · rw [hnone]
    exact ⟨fun _ => .inl hprotocol, fun _ => processStatsCount_unset w info haddressed hprotocol⟩
  · rw [hsome]
    constructor
    · intro h
      exact .inr fun c hc => notMem_of_mem_splitOn (processStatsCount_ok h c hc)
    · intro hspace
      have hlabels : ∀ c ∈ (w.countLabels info).columns, Word c := fun c hc =>
        (w.labels_printed _ _ _ _ _ _ c hc).word_iff.mpr (hspace.resolve_left hprotocol c hc)
      have hset : AsciiWriter.cell w.string info.protocol ≠ ['-'] := fun h => hprotocol (w.cell_eq_unset.mp h)
      rw [processStatsCount_countLine, flatMap_of_forall_word fun _ => splitOn_word]
      · show (if AsciiWriter.cell w.string info.protocol = ['-'] then _ else _) = _
        rw [if_neg hset]
        rfl
      · simp only [countMiddle, List.cons_append, List.forall_mem_cons, List.forall_mem_append, List.not_mem_nil,
          false_imp_iff, implies_true, and_true]
        exact ⟨w.count_word _, w.time_word _, w.interval_word _, ⟨⟨trivial, hlabels⟩, countRest_word w info⟩,
          AsciiWriter.cell_word w.interval_word _⟩

end

/-! ### All three -/

/-- **The parsers give the columns of a row back, or skip it for want of a protocol, exactly when no column
they take has a space; the parser of the log of `StatsCol` skips no row.** -/
theorem parsers_undo_iff (w : AsciiWriter) :
    (∀ item : StatsCol.Info, processStatsCol (w.colLine item) = .ok (some (w.colRow item)) ↔
        ∀ c ∈ (w.colRow item).columns, ' ' ∉ c)
      ∧ (∀ info : StatsCount.LogInfo, Addressed info.sender info.receiver →
          (processStatsCount (w.countLine info) = .ok (expected info.protocol (w.countLabels info)) ↔
            info.protocol = none ∨ ∀ c ∈ (w.countLabels info).columns, ' ' ∉ c))
      ∧ ∀ anomaly : AnoDet.AnoInfo, Addressed anomaly.sender anomaly.receiver →
          (processStatsAnomaly (w.anomalyLine anomaly) = .ok (expected anomaly.protocol (w.anomalyRow anomaly)) ↔
            anomaly.protocol = none ∨ ∀ c ∈ (w.anomalyRow anomaly).columns, ' ' ∉ c) :=
  ⟨processStatsCol_iff w, processStatsCount_iff w, processStatsAnomaly_iff w⟩

/-! ### A target of three parts -/

/-- A writer that prints the numbers of the records below as they are printed. -/
def plainWriter : AsciiWriter where
  count _ := ['1']
  time _ := "1.000000".toList
  interval _ := "1.000000".toList
  double _ := "1.0".toList
  anoType _ := "AnoDet::TRAFFIC_NEW".toList
  string s := if Printed s ∧ s ≠ ['-'] then s else "(empty)".toList
  count_word _ := by decide
  time_word _ := by decide
  interval_word _ := by decide
  double_word _ := by decide
  anoType_word _ := by decide
  count_start _ := by decide
  time_start _ := by decide
  string_printed s := by
    split
    · rename_i hs
      exact hs.1
    · decide
  string_ne_unset s := by
    split
    · rename_i hs
      exact hs.2
    · decide
  string_address s hs := by
    rw [if_pos]
    refine ⟨hs.word.printed, fun heq => ?_⟩
    exact absurd (hs.2 '-' (heq ▸ List.mem_singleton_self '-')) (by decide)

def sender : Text := "10.0.0.1".toList

def receiver : Text := "10.0.0.2".toList

/-- A packet of DNP3 that asks for all objects of a group and a variation. -/
def readAll : StatsCol.Info where
  ts := 1
  len := 1
  sender := sender
  receiver := receiver
  protocol := some "DNP3".toList
  uid := some "1:2".toList
  func := some "READ".toList
  target := some (StatsCol.objectTarget 30 1 "Target:all".toList)
  isResponse := some false

/-- The same as counted, and as an anomaly. -/
def counted : StatsCount.LogInfo where
  periodId := 1
  ts := 1
  period := 1
  sender := sender
  receiver := receiver
  protocol := readAll.protocol
  uid := readAll.uid
  func := readAll.func
  target := readAll.target

def anomalous : AnoDet.AnoInfo where
  periodId := 1
  ts := 1
  period := 1
  sender := sender
  receiver := receiver
  protocol := readAll.protocol
  uid := readAll.uid
  func := readAll.func
  target := readAll.target
  desc := .trafficNew
  score := 1

theorem addressed : Addressed (some sender) (some receiver) := by
  constructor
  · rintro a ⟨⟩
    show IsAddress sender
    decide
  · rintro a ⟨⟩
    show IsAddress receiver
    decide

theorem parsers_undo_iff_readAll :
    (processStatsCol (plainWriter.colLine readAll) = .ok (some (plainWriter.colRow readAll)) ↔
        ∀ c ∈ (plainWriter.colRow readAll).columns, ' ' ∉ c)
      ∧ (processStatsCount (plainWriter.countLine counted)
            = .ok (expected counted.protocol (plainWriter.countLabels counted)) ↔
          counted.protocol = none ∨ ∀ c ∈ (plainWriter.countLabels counted).columns, ' ' ∉ c)
      ∧ (processStatsAnomaly (plainWriter.anomalyLine anomalous)
            = .ok (expected anomalous.protocol (plainWriter.anomalyRow anomalous)) ↔
          anomalous.protocol = none ∨ ∀ c ∈ (plainWriter.anomalyRow anomalous).columns, ' ' ∉ c) :=
  ⟨(parsers_undo_iff plainWriter).1 readAll, (parsers_undo_iff plainWriter).2.1 counted addressed,
    (parsers_undo_iff plainWriter).2.2 anomalous addressed⟩

/-- The parser takes the first part for the target and the second for `is_response`. -/
theorem target_cut : ¬ ∀ (w : AsciiWriter) (item : StatsCol.Info),
    processStatsCol (w.colLine item) = .ok (some (w.colRow item)) := by
  intro hundone
  have hspace := (processStatsCol_iff plainWriter readAll).mp (hundone plainWriter readAll)
    (plainWriter.colRow readAll).labels.target (by simp [ColRow.columns, Labels.columns])
  have hmem : ' ' ∈ (plainWriter.colRow readAll).labels.target := by decide +kernel
  exact hspace hmem

end Armore.Web
