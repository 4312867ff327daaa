import Armore.Lib.Calls
import Armore.Web.BaselineGraph
import Armore.Web.CountTree

/-!
# The database of the logs

`domains/lib/create_json_graph.py` keeps what it has made of the logs in a database, as documents named by
`created_at`: the importer adds documents and deletes them, `updateNode` of `domains/visualization.py` writes
a label or a type into a node, and `diffDocuments` compares two documents. Importers are processes of their
own beside the web server, so the calls of all of them interleave, and any call can raise. The server of the
database is a parameter, of which only what its documentation says is used.

`add_to_db` looks whether there is a document of the name before it inserts one, in two calls.
-/

namespace Armore.Web.LogDatabase

open Lib Lib.Calls

/-! ### The documents -/

/-- The value under `count_log`. -/
inductive CountLog
  | root (trees : List CountTree.TimestampNode)
  | baseline (children : List Text)
  | emptyList

/-- What a node has besides its number and name, by the log it was made from. -/
inductive NodeRest
  | col (rest : ColGraph.NodeRest)
  | baseline (rest : BaselineGraph.NodeRest)

inductive LinkRest
  | col (rest : ColGraph.LinkRest)
  | baseline (rest : BaselineGraph.LinkRest)

/-- A node can have been given a label. -/
structure NodeValue where
  label : Option Text := none
  rest : NodeRest

abbrev StoredLog := ColDiff.ColLog NodeValue LinkRest

/-- The value under `col_log`. -/
inductive ColValue
  | graph (g : StoredLog)
  | emptyDict
  | emptyList

structure Logs where
  countLog : CountLog
  colLog : ColValue

/-- An entry of `anomalies`. -/
structure Anomaly where
  senderReceiver : Text
  proto : Text
  uid : Text
  func : Text
  target : Text
  field : Text
  desc : Text
  score : Text
  avg : Text
  std : Text
  current : Text

inductive Body
  | logs (value : Logs)
  | anomalies (rows : List Anomaly)

structure Document where
  createdAt : Text
  body : Body

def Document.logs? (doc : Document) : Option Logs :=
  match doc.body with
  | .logs value => some value
  | .anomalies _ => none

def ColValue.graph? : ColValue → Option StoredLog
  | .graph g => some g
  | _ => none

/-- A graph as it is stored. -/
def storedLog {ν μ : Type} (node : ν → NodeRest) (link : μ → LinkRest) (clg : ColDiff.ColLog ν μ) : StoredLog where
  nodes := clg.nodes.map fun nd =>
    { id := nd.id, name := nd.name, diffs := nd.diffs, rest := { rest := node nd.rest } }
  links := clg.links.map fun lk =>
    { source := lk.source, target := lk.target, sourceName := lk.sourceName, targetName := lk.targetName,
      diffs := lk.diffs, rest := link lk.rest }
  functions := clg.functions
  protocols := clg.protocols
  targets := clg.targets

/-! ### The database -/

/-- What `updateNode` sets. -/
inductive NodeChange
  | label (label : Text)
  | nodeType (nodeType : Text)

inductive Call
  | find (coll : Text)
  | findNamed (coll ts : Text)
  | insert (coll : Text) (doc : Document)
  | deleteOne (coll ts : Text)
  | dropCollection (coll : Text)
  | updateOne (coll ts name : Text) (change : NodeChange)

/-- The collection of a call. -/
def Call.coll : Call → Text
  | .find coll | .findNamed coll _ | .insert coll _ | .deleteOne coll _ | .dropCollection coll
  | .updateOne coll _ _ _ => coll

/-- The answer: the documents found, and how many an update has matched. -/
structure Reply where
  documents : List Document := []
  matched : Nat := 0

/-- The document is called so. -/
def isNamed (ts : Text) (doc : Document) : Bool := doc.createdAt = ts

def NodeChange.apply (change : NodeChange) (value : NodeValue) : NodeValue :=
  match change, value.rest with
  | .label text, _ => { value with label := some text }
  | .nodeType text, .col rest => { value with rest := .col { rest with nodeType := text } }
  | .nodeType text, .baseline rest => { value with rest := .baseline { rest with nodeType := text } }

/-- A document that the query of `updateNode` finds, and what `$set` at the node it has found makes of it. -/
inductive NodeSet (ts name : Text) (change : NodeChange) : Document → Document → Prop
  | set {countLog : CountLog} {g : StoredLog} {before after : List (ColDiff.Node NodeValue)}
      {nd : ColDiff.Node NodeValue} (hnodes : g.nodes = before ++ nd :: after) (hname : nd.name = name) :
      NodeSet ts name change ⟨ts, .logs ⟨countLog, .graph g⟩⟩
        ⟨ts, .logs ⟨countLog,
          .graph { g with nodes := before ++ { nd with rest := change.apply nd.rest } :: after }⟩⟩

/-- A database server over states `σ`: how it carries out a call, and what its collections hold. -/
structure MongoDB (σ : Type) where
  exec : Call → σ → Reply × σ
  documents : σ → Text → List Document

/-- What is documented of the calls. No order of the documents is. -/
structure MongoDB.Documented {σ : Type} (mongo : MongoDB σ) : Prop where
  find : ∀ coll s, (mongo.exec (.find coll) s).1.documents.Perm (mongo.documents s coll)
    ∧ (mongo.exec (.find coll) s).2 = s
  findNamed : ∀ coll ts s,
    (mongo.exec (.findNamed coll ts) s).1.documents.Perm ((mongo.documents s coll).filter (isNamed ts))
      ∧ (mongo.exec (.findNamed coll ts) s).2 = s
  insert : ∀ coll doc s,
    (mongo.documents (mongo.exec (.insert coll doc) s).2 coll).Perm (doc :: mongo.documents s coll)
  deleteOne : ∀ coll ts s, (∃ doc ∈ mongo.documents s coll, isNamed ts doc = true) → ∃ doc, isNamed ts doc = true
    ∧ (mongo.documents s coll).Perm (doc :: mongo.documents (mongo.exec (.deleteOne coll ts) s).2 coll)
  deleteOne_none : ∀ coll ts s, (∀ doc ∈ mongo.documents s coll, isNamed ts doc = false) →
    (mongo.exec (.deleteOne coll ts) s).2 = s
  dropCollection : ∀ coll s, mongo.documents (mongo.exec (.dropCollection coll) s).2 coll = []
  updateOne : ∀ coll ts name change s, (mongo.exec (.updateOne coll ts name change) s).2 = s
    ∨ ∃ doc doc' others, NodeSet ts name change doc doc' ∧ (mongo.documents s coll).Perm (doc :: others)
      ∧ (mongo.documents (mongo.exec (.updateOne coll ts name change) s).2 coll).Perm (doc' :: others)
  others : ∀ (c : Call) s coll, coll ≠ c.coll → mongo.documents (mongo.exec c s).2 coll = mongo.documents s coll

abbrev Prog := Program Call Reply

def jlogsCollection : Text := "stats_jlogs".toList

def anomalyCollection : Text := "stats_anomalies".toList

/-! ### Documents in and out -/

/-- `get_times`; `none` is the `False` it returns when the call raises. -/
def getTimes (coll : Text) : Prog (Option (List Text)) := do
  let reply ← Program.request (.find coll)
  return reply.map fun found => found.documents.map Document.createdAt

/-- `add_to_db`. Without a `created_at` the message about it raises, and `in False` raises as well. -/
def addToDb (createdAt : Option Text) (body : Body) (coll : Text) : Prog Bool :=
  match createdAt with
  | none => return false
  | some creationTime => do
    let _ ← getTimes coll
    match ← getTimes coll with
    | none => return false
    | some times =>
      if creationTime ∈ times then return false
      else
        let reply ← Program.request (.insert coll ⟨creationTime, body⟩)
        return reply.isSome

/-- `reset_db`. -/
def resetDb (coll : Text) : Prog Unit := do
  let _ ← Program.request (.dropCollection coll)

/-- `remove_from_db`. Without a name it resets the collection of the logs, whichever collection it was given. -/
def removeFromDb (ts coll : Text) : Prog Unit :=
  if ts = [] then resetDb jlogsCollection
  else do
    let _ ← getTimes coll
    match ← getTimes coll with
    | none => return ()
    | some times =>
      if ts ∈ times then
        let _ ← Program.request (.deleteOne coll ts)

/-! ### The imports -/

/-- What an import sees of the machine: how a time is printed, the files, the directories, and the orders in
which sets are listed. -/
structure Host where
  strftime : Text → Option Text
  lines : Text → Option (List Text)
  isDir : Text → Bool
  texts : ColGraph.SetOrder Text
  pairs : ColGraph.SetOrder (Text × Text)

/-- A text that counts as true. -/
def truthy (text : Option Text) : Option Text := text.filter fun t => t ≠ []

/-- `os.path.join` of a directory and a file name. -/
def pathJoin (dir name : Text) : Text := if dir.getLast? = some '/' then dir ++ name else dir ++ '/' :: name

/-- The body of the loop of `process_stats_anomaly_log`; what it raises is printed. -/
def anomalyOf (line : Text) : Option Anomaly :=
  match processStatsAnomaly line with
  | .ok (some row) => some
    { senderReceiver := row.labels.sender ++ '-' :: row.labels.receiver
      proto := row.labels.protocol
      uid := row.labels.uid
      func := row.labels.func
      target := row.labels.target
      field := row.field
      desc := row.desc
      score := row.score
      avg := row.average
      std := row.std
      current := row.current }
  | _ => none

/-- `process_stats_anomaly_log`; without the file it returns nothing. -/
def processStatsAnomalyLog (host : Host) (path timestamp : Text) : Prog (Option Bool) :=
  match host.lines path with
  | none => return none
  | some lines => do
    let added ← addToDb (some timestamp) (.anomalies (lines.filterMap anomalyOf)) anomalyCollection
    return some added

/-- The name of the document of the baseline. -/
def baselineName : Text := "baseline".toList

/-- What the import of a baseline stores. -/
def baselineBody (read : List Text × Option BaselineGraph.BaseLog) : Body :=
  .logs
    { countLog := .baseline read.1
      colLog := match read.2 with
        | some g => .graph (storedLog .baseline .baseline g)
        | none => .emptyDict }

/-- `process_stats_baseline_log`; `none` without the file and when a line is too short for the first loop. -/
def processStatsBaselineLog (host : Host) (path : Text) : Prog (Option Bool) :=
  match host.lines path with
  | none => return none
  | some lines =>
    match BaselineGraph.readBaseline host.texts host.pairs lines with
    | .error _ => return none
    | .ok read => do
      removeFromDb baselineName jlogsCollection
      let added ← addToDb (some baselineName) (baselineBody read) jlogsCollection
      return some added

/-- The two files that `process_stats_logs` reads, or none; `.error` is a directory that is not there. -/
def statsFiles (host : Host) (statsDir statscol statscount timestamp : Option Text) :
    Except (Option Bool) (Option Text × Option Text) :=
  match truthy statsDir with
  | some dir =>
    if host.isDir dir then
      .ok (some (pathJoin dir "stats_col.log".toList), some (pathJoin dir "stats_count.log".toList))
    else .error (some false)
  | none =>
    if (truthy statscol).isSome || ((truthy statscount).isSome && (truthy timestamp).isSome) then
      .ok (truthy statscol, truthy statscount)
    else .ok (none, none)

/-- The dictionary for `count_log`, where `none` is the empty one. The error is what `process_stats_logs`
returns, or nothing if it raises. -/
def readCount (host : Host) (countf : Option Text) : Except (Option Bool) (Option CountLog) :=
  match countf with
  | none => .ok (some .emptyList)
  | some path =>
    match host.lines path with
    | none => .error (some false)
    | some lines =>
      match CountTree.processStatsCountLog host.strftime lines with
      | .error _ => .error none
      | .ok trees => .ok (trees.map .root)

def readCol (host : Host) (colf : Option Text) : Except (Option Bool) (Option ColValue) :=
  match colf with
  | none => .ok (some .emptyList)
  | some path =>
    match host.lines path with
    | none => .error (some false)
    | some lines =>
      match ColGraph.processStatsColLog host.texts host.pairs lines with
      | .error _ => .error none
      | .ok g => .ok (g.map fun clg => .graph (storedLog .col .col clg))

/-- The dictionaries that `process_stats_logs` stores; it gives up when one of them is empty. -/
def readStats (host : Host) (statsDir statscol statscount timestamp : Option Text) : Except (Option Bool) Logs := do
  let files ← statsFiles host statsDir statscol statscount timestamp
  let count ← readCount host files.2
  let col ← readCol host files.1
  match count, col with
  | some countLog, some colLog => return { countLog, colLog }
  | _, _ => .error (some false)

/-- `process_stats_logs`; `none` when it raises. -/
def processStatsLogs (host : Host) (statsDir statscol statscount timestamp : Option Text) : Prog (Option Bool) :=
  match readStats host statsDir statscol statscount timestamp with
  | .error result => return result
  | .ok value => do
    let createdAt := if (truthy timestamp).isSome then timestamp else statsDir
    let added ← addToDb createdAt (.logs value) jlogsCollection
    return some added

/-! ### Comparing and changing documents -/

/-- `doc[0]` of a query for a name, read for its logs. Every `[0]` asks the database again. -/
def firstLogs (ts : Text) : Prog (Option Logs) := do
  let reply ← Program.request (.findNamed jlogsCollection ts)
  return reply.bind fun found => found.documents.head?.bind Document.logs?

/-- The document that a comparison returns. -/
structure Comparison where
  createdAt : Text
  countLog : CountLog
  colLog : ColDiff.Graph NodeValue LinkRest

/-- `diffColLogs` on the values under `col_log`; without the keys of a graph it raises. -/
def compareColLogs (col1 col2 : ColValue) (frm to_ : Text) : Option (ColDiff.Graph NodeValue LinkRest) :=
  match col1, col2 with
  | .graph g1, .graph g2 => (ColDiff.diffColLogs g1 g2 frm to_).toOption
  | _, _ => none

/-- `diffDocuments`; `none` is the empty text it returns when something raises. -/
def diffDocuments (timestamp1 timestamp2 : Text) : Prog (Option Comparison) := do
  match ← firstLogs timestamp1 with
  | none => return none
  | some first =>
    match ← firstLogs timestamp2 with
    | none => return none
    | some second =>
      match compareColLogs first.colLog second.colLog timestamp1 timestamp2 with
      | none => return none
      | some colLog =>
        match ← firstLogs timestamp1 with
        | none => return none
        | some _ =>
          match ← firstLogs timestamp2 with
          | none => return none
          | some _ =>
            match ← firstLogs timestamp1 with
            | none => return none
            | some res => return some { createdAt := timestamp1, countLog := res.countLog, colLog }

/-- The second half of `updateNode`, after a first update or none. -/
def updateType (timestamp nodeName : Text) (nodeType : Option Text) (res : Option Reply) : Prog (Option Nat) :=
  match nodeType with
  | none => return res.map Reply.matched
  | some type => do
    let reply ← Program.request (.updateOne jlogsCollection timestamp nodeName (.nodeType type))
    return reply.map Reply.matched

/-- `updateNode`, for a form with a document and a node: the number it answers with, or nothing when it
raises. Without a label and a type there is no `res`. -/
def updateNode (timestamp nodeName : Text) (nodeLabel nodeType : Option Text) : Prog (Option Nat) :=
  match nodeLabel with
  | none => updateType timestamp nodeName nodeType none
  | some label => do
    match ← Program.request (.updateOne jlogsCollection timestamp nodeName (.label label)) with
    | none => return none
    | some res => updateType timestamp nodeName nodeType (some res)

/-! ### The command line -/

inductive Subcommand
  | none
  | db (delete : Bool) (collection : Text)
  | directory (inputdir : Text)
  | files (statscol statscount : Text)
  | diff (first second : Text)

structure Options where
  timestamp : Option Text
  baseline : Option Text
  anomaly : Option Text
  sub : Subcommand

/-- `main` on the options it has parsed; where it only prints its help there is nothing to do. -/
def main (host : Host) (opt : Options) : Prog Unit :=
  match opt.sub with
  | .db true collection =>
    match opt.timestamp with
    | some ts => removeFromDb ts collection
    | none => resetDb collection
  | sub =>
    match truthy opt.anomaly, truthy opt.baseline with
    | some path, _ =>
      match opt.timestamp with
      | some ts => (processStatsAnomalyLog host path ts).ignore
      | none => return ()
    | none, some path => (processStatsBaselineLog host path).ignore
    | none, none =>
      match sub with
      | .directory inputdir =>
        if inputdir = [] then return ()
        else (processStatsLogs host (some inputdir) none none opt.timestamp).ignore
      | .files statscol statscount =>
        if statscol = [] ∧ statscount = [] then return ()
        else (processStatsLogs host none (some statscol) (some statscount) opt.timestamp).ignore
      | .diff first second => (diffDocuments first second).ignore
      | _ => return ()

/-- The programs that use the database. -/
inductive Client : Prog Unit → Prop
  | main (host : Host) (opt : Options) : Client (main host opt)
  | updateNode (timestamp nodeName : Text) (nodeLabel nodeType : Option Text) :
      Client (updateNode timestamp nodeName nodeLabel nodeType).ignore
  | compareDates (timestamp1 timestamp2 : Text) : Client (diffDocuments timestamp1 timestamp2).ignore

end Armore.Web.LogDatabase
