import Armore.Lib.PrefixTree
import Armore.Web.LogParsers

/-!
# The tree of the counts

`domains/lib/create_json_graph.py` and its copy in `domains/support/lib`: `process_stats_count_log` collects
the labels of the lines in dictionaries in dictionaries, and then walks them. Under a protocol the walk
expects a uid with a dictionary of functions. The first loop puts a list there for a function without a uid,
on which the walk raises; so the tree is that of the lines exactly when no function comes without a uid.
-/

namespace Armore.Web.CountTree

open Lib Lib.Text

/-- What is kept of a line with a protocol. -/
structure CountRow where
  formattedTime : Text
  labels : Labels

/-- What is under a protocol: the functions of a uid, or the targets of a function that has none. -/
inductive Entry
  | dict (funcs : Dict Text (List Text))
  | list (targets : List Text)

abbrev Protoids := Dict Text Entry
abbrev Protos := Dict Text Protoids
abbrev Receivers := Dict Text Protos
abbrev Senders := Dict Text Receivers
abbrev Root := Dict Text Senders

/-! ### The first loop -/

/-- `strftime` of the time in the second column, and the labels; `none` where there is no protocol or where
the body raises before it changes anything. -/
def countRow (strftime : Text → Option Text) (line : Text) : Option CountRow :=
  match processStatsCount line with
  | .ok (some labels) => do
    let ts ← ((tabsToSpaces line).splitOn ' ')[1]?
    let formattedTime ← strftime ts
    return ⟨formattedTime, labels⟩
  | _ => none

/-- A target that is set and not yet there is appended. -/
def addTarget (target : Text) (targets : List Text) : List Text :=
  if target ≠ ['-'] then if target ∈ targets then targets else targets ++ [target] else targets

/-- The function and the target under a uid. A list has no key that is a text: `TypeError`. -/
def Entry.addFunc (func target : Text) : Entry → Entry
  | .dict funcs => if func ≠ ['-'] then .dict (Dict.enter func [] (addTarget target) funcs) else .dict funcs
  | .list targets => .list targets

/-- The target under a function without a uid. A dictionary has no `append`: `AttributeError`. -/
def Entry.append (target : Text) : Entry → Entry
  | .dict funcs => .dict funcs
  | .list targets => .list (addTarget target targets)

/-- Under a protocol. Without a function there is no key for a target: `KeyError`. -/
def addProtoid (protoid func target : Text) (protoids : Protoids) : Protoids :=
  if protoid ≠ ['-'] then Dict.enter protoid (.dict []) (Entry.addFunc func target) protoids
  else if func ≠ ['-'] then Dict.enter func (.list []) (Entry.append target) protoids
  else protoids

/-- The body of the first loop on a line with a protocol. An unset sender or receiver is not put in, and the
next lookup raises `KeyError`. -/
def addRow (root : Root) (row : CountRow) : Root :=
  let ⟨formattedTime, src, dst, proto, protoid, func, target⟩ := row
  Dict.enter formattedTime [] (fun senders =>
    if src = [] ∨ src = ['-'] then senders
    else
      Dict.enter src [] (fun receivers =>
        if dst = [] ∨ dst = ['-'] then receivers
        else Dict.enter dst [] (Dict.enter proto [] (addProtoid protoid func target)) receivers) senders) root

def addLine (strftime : Text → Option Text) (root : Root) (line : Text) : Root :=
  match countRow strftime line with
  | some row => addRow root row
  | none => root

/-! ### The second loop -/

inductive NodeType
  | timestampRoot
  | sender
  | receiver
  | proto
  | protoid
  | func
  | target
  deriving DecidableEq

/-- `{'name': .., 'type': .., 'children': ..}`. -/
structure Node (C : Type) where
  name : Text
  type : NodeType
  children : List C

abbrev TargetNode := Node Empty
abbrev FuncNode := Node TargetNode
abbrev ProtoidNode := Node FuncNode
abbrev ProtoNode := Node ProtoidNode
abbrev ReceiverNode := Node ProtoNode
abbrev SenderNode := Node ReceiverNode
abbrev TimestampNode := Node SenderNode

inductive Exn
  | attributeError
  deriving DecidableEq

def dtrgt (trgt : Text) : TargetNode := ⟨trgt, .target, []⟩

def dfunc (entry : Text × List Text) : FuncNode := ⟨entry.1, .func, entry.2.map dtrgt⟩

/-- `funcd.items()` raises on a list. -/
def dprotoid (entry : Text × Entry) : Except Exn ProtoidNode :=
  match entry.2 with
  | .dict funcd => .ok ⟨entry.1, .protoid, funcd.map dfunc⟩
  | .list _ => .error .attributeError

/-- A node with the nodes of what is below it. -/
def level {V C : Type} (type : NodeType) (child : Text × V → Except Exn C) (entry : Text × Dict Text V) :
    Except Exn (Node C) := do
  return ⟨entry.1, type, ← entry.2.mapM child⟩

def dproto : Text × Protoids → Except Exn ProtoNode := level .proto dprotoid
def dreceiver : Text × Protos → Except Exn ReceiverNode := level .receiver dproto
def dsender : Text × Receivers → Except Exn SenderNode := level .sender dreceiver
def tsTree : Text × Senders → Except Exn TimestampNode := level .timestampRoot dsender

/-- `process_stats_count_log` on the lines of a file; `none` is the empty dictionary, and otherwise there are
the children of the root. -/
def processStatsCountLog (strftime : Text → Option Text) (lines : List Text) :
    Except Exn (Option (List TimestampNode)) := do
  let root := lines.foldl (addLine strftime) []
  let trees ← root.mapM tsTree
  return if trees.isEmpty then none else some trees

/-! ### The paths of the tree -/

/-- A node is told by the types and names from the timestamp down. -/
abbrev Path := List (NodeType × Text)

def Node.paths {C : Type} (below : C → List Path) (node : Node C) : List Path :=
  [(node.type, node.name)] :: (node.children.flatMap below).map ((node.type, node.name) :: ·)

def TargetNode.paths : TargetNode → List Path := Node.paths Empty.elim
def FuncNode.paths : FuncNode → List Path := Node.paths TargetNode.paths
def ProtoidNode.paths : ProtoidNode → List Path := Node.paths FuncNode.paths
def ProtoNode.paths : ProtoNode → List Path := Node.paths ProtoidNode.paths
def ReceiverNode.paths : ReceiverNode → List Path := Node.paths ProtoNode.paths
def SenderNode.paths : SenderNode → List Path := Node.paths ReceiverNode.paths
def TimestampNode.paths : TimestampNode → List Path := Node.paths SenderNode.paths

/-- The nodes of the result. -/
def treePaths (jtree : Option (List TimestampNode)) : List Path := (jtree.getD []).flatMap TimestampNode.paths

/-! The same paths in the dictionaries. -/

def targetsPaths (targets : List Text) : List Path := targets.map fun trgt => [(.target, trgt)]

def funcsPaths : Dict Text (List Text) → List Path := Dict.paths (Prod.mk .func) targetsPaths

def Entry.paths : Entry → List Path
  | .dict funcs => funcsPaths funcs
  | .list _ => []

def protoidsPaths : Protoids → List Path := Dict.paths (Prod.mk .protoid) Entry.paths
def protosPaths : Protos → List Path := Dict.paths (Prod.mk .proto) protoidsPaths
def receiversPaths : Receivers → List Path := Dict.paths (Prod.mk .receiver) protosPaths
def sendersPaths : Senders → List Path := Dict.paths (Prod.mk .sender) receiversPaths
def rootPaths : Root → List Path := Dict.paths (Prod.mk .timestampRoot) sendersPaths

/-! ### The second loop shows the dictionaries -/

/-- What is returned for an entry has the paths of the entry. -/
def Shows {V C : Type} (type : NodeType) (paths : C → List Path) (below : V → List Path)
    (child : Text × V → Except Exn C) : Prop :=
  ∀ entry node, child entry = .ok node → paths node = Dict.entryPaths (Prod.mk type) below entry

section

variable {V C : Type} {type : NodeType} {paths : C → List Path} {below : V → List Path}
  {child : Text × V → Except Exn C}

theorem Shows.flatMap (h : Shows type paths below child) {d : Dict Text V} {nodes : List C}
    (hnodes : d.mapM child = .ok nodes) : nodes.flatMap paths = Dict.paths (Prod.mk type) below d := by
  have hall := mapM_ok.mp hnodes
  clear hnodes
  induction hall with
  | nil => rfl
  | cons hnode _ ih => rw [List.flatMap_cons, ih, h _ _ hnode, Dict.paths_cons]

/-- One level up. -/
theorem Shows.level (h : Shows type paths below child) (above : NodeType) :
    Shows above (Node.paths paths) (Dict.paths (Prod.mk type) below) (level above child) := by
  intro entry node hnode
  obtain ⟨children, hchildren, hnode⟩ := bind_ok.mp hnode
  obtain rfl := Except.ok.inj hnode
  rw [Node.paths, h.flatMap hchildren]
  rfl

/-- A level raises only where one of its children does. -/
theorem exists_level_ok {P : V → Prop} (h : ∀ entry : Text × V, P entry.2 → ∃ node, child entry = .ok node)
    (entry : Text × Dict Text V) (hentry : Dict.Good P entry.2) : ∃ node, level type child entry = .ok node := by
  obtain ⟨children, hchildren⟩ := exists_mapM_ok fun e he => h e (hentry.values e he)
  exact ⟨_, bind_ok.mpr ⟨children, hchildren, rfl⟩⟩

end

theorem paths_dfunc (entry : Text × List Text) :
    FuncNode.paths (dfunc entry) = Dict.entryPaths (Prod.mk .func) targetsPaths entry := by
  have htargets : (entry.2.map dtrgt).flatMap TargetNode.paths = targetsPaths entry.2 := by
    rw [List.flatMap_map, targetsPaths, List.map_eq_flatMap]
    rfl
  rw [FuncNode.paths, Node.paths, dfunc, htargets]
  rfl

theorem shows_dprotoid : Shows .protoid ProtoidNode.paths Entry.paths dprotoid := by
  rintro ⟨protoid, funcd | targets⟩ node hnode
  · obtain rfl := Except.ok.inj hnode
    have hfuncs : (funcd.map dfunc).flatMap FuncNode.paths = funcsPaths funcd := by
      rw [List.flatMap_map]
      exact List.flatMap_congr fun entry _ => paths_dfunc entry
    rw [ProtoidNode.paths, Node.paths, hfuncs]
    rfl
  · exact nomatch hnode

theorem shows_tsTree : Shows .timestampRoot TimestampNode.paths sendersPaths tsTree :=
  (((shows_dprotoid.level .proto).level .receiver).level .sender).level .timestampRoot

/-- What is returned has the paths of the dictionaries. -/
theorem treePaths_eq {strftime : Text → Option Text} {lines : List Text} {jtree : Option (List TimestampNode)}
    (h : processStatsCountLog strftime lines = .ok jtree) :
    treePaths jtree = rootPaths (lines.foldl (addLine strftime) []) := by
  obtain ⟨trees, htrees, hjtree⟩ := bind_ok.mp h
  obtain rfl := Except.ok.inj hjtree
  rw [rootPaths, ← shows_tsTree.flatMap htrees]
  cases trees <;> rfl

/-! ### The lines -/

/-- A line at some level: what is below an unset label is unset, but a uid may be unset on its own. No column
is empty, so no target has a space. -/
structure AtLevel (strftime : Text → Option Text) (line : Text) (labels : Labels) : Prop where
  columns : ∃ period ts interval rest, (tabsToSpaces line).splitOn ' '
    = period :: ts :: interval :: (labels.columns ++ rest) ∧ (strftime ts).isSome ∧ rest.length = 5
  nonempty : ∀ c ∈ labels.columns, c ≠ []
  sender : labels.protocol ≠ ['-'] → labels.sender ≠ ['-']
  receiver : labels.protocol ≠ ['-'] → labels.receiver ≠ ['-']
  func : labels.target ≠ ['-'] → labels.func ≠ ['-']

/-- A log: comments, blank lines, and lines at any level in any order. -/
structure Log (strftime : Text → Option Text) where
  lines : List Text
  levels : ∀ line ∈ lines, startsWithHash (tabsToSpaces line) ∨ strip whitespace (tabsToSpaces line) = []
    ∨ ∃ labels, AtLevel strftime line labels

variable {strftime : Text → Option Text}

/-- The lines with a protocol. -/
def Log.rows (log : Log strftime) : List CountRow := log.lines.filterMap (countRow strftime)

/-- A node of a label that is set. -/
def labelled (type : NodeType) (label : Text) : Path := if label = ['-'] then [] else [(type, label)]

/-- The nodes for a line, from the timestamp down. -/
def CountRow.path (row : CountRow) : Path :=
  (.timestampRoot, row.formattedTime) :: (.sender, row.labels.sender) :: (.receiver, row.labels.receiver)
    :: (.proto, row.labels.protocol) :: (labelled .protoid row.labels.uid
      ++ (labelled .func row.labels.func ++ labelled .target row.labels.target))

/-- The labels that a row of a log has. -/
structure RowLabels (labels : Labels) : Prop where
  sender : ¬ (labels.sender = [] ∨ labels.sender = ['-'])
  receiver : ¬ (labels.receiver = [] ∨ labels.receiver = ['-'])
  func : labels.func = ['-'] → labels.target = ['-']

/-- What the first loop keeps of a line at a level. -/
theorem countRow_atLevel {line : Text} {labels : Labels} (h : AtLevel strftime line labels) {row : CountRow}
    (hrow : countRow strftime line = some row) : row.labels = labels ∧ labels.protocol ≠ ['-'] := by
  obtain ⟨period, ts, interval, rest, hcolumns, _, _⟩ := h.columns
  have hlabels : processStatsCount line = .ok (some row.labels) := by
    rw [countRow] at hrow
    split at hrow
    · rename_i hlabels
      obtain ⟨_, _, hrow⟩ := Option.bind_eq_some_iff.mp hrow
      obtain ⟨_, _, hrow⟩ := Option.bind_eq_some_iff.mp hrow
      rw [hlabels, ← Option.some.inj hrow]
    · cases hrow
  rw [processStatsCount] at hlabels
  split at hlabels
  · cases Except.ok.inj hlabels
  · rw [hcolumns] at hlabels
    obtain ⟨sender, receiver, protocol, uid, func, target⟩ := labels
    change (if protocol = ['-'] then _ else _) = _ at hlabels
    split at hlabels
    · cases Except.ok.inj hlabels
    · rename_i hprotocol
      exact ⟨(Option.some.inj (Except.ok.inj hlabels)).symm, hprotocol⟩

theorem countRow_comment {line : Text}
    (h : startsWithHash (tabsToSpaces line) ∨ strip whitespace (tabsToSpaces line) = []) :
    countRow strftime line = none := by
  rw [countRow, processStatsCount, if_pos (by simpa using h)]

theorem rowLabels {log : Log strftime} {row : CountRow} (hrow : row ∈ log.rows) : RowLabels row.labels := by
  obtain ⟨line, hline, hrow⟩ := List.mem_filterMap.mp hrow
  rcases log.levels line hline with hhash | hblank | ⟨labels, hlevel⟩
  · rw [countRow_comment (.inl hhash)] at hrow
    exact nomatch hrow
  · rw [countRow_comment (.inr hblank)] at hrow
    exact nomatch hrow
  · obtain ⟨rfl, hprotocol⟩ := countRow_atLevel hlevel hrow
    have hnonempty := hlevel.nonempty
    simp only [Labels.columns, List.forall_mem_cons] at hnonempty
    exact ⟨not_or.mpr ⟨hnonempty.1, hlevel.sender hprotocol⟩,
      not_or.mpr ⟨hnonempty.2.1, hlevel.receiver hprotocol⟩, fun h => not_not.mp fun ht => hlevel.func ht h⟩

/-! ### The first loop grows the dictionaries -/

/-- The functions of a uid, with their targets. -/
def GoodEntry (entry : Entry) : Prop := ∃ funcs, entry = .dict funcs ∧ Dict.Good List.Nodup funcs

abbrev GoodRoot : Root → Prop := Dict.Good (Dict.Good (Dict.Good (Dict.Good (Dict.Good GoodEntry))))

theorem grows_addTarget (target : Text) :
    Dict.Grows List.Nodup targetsPaths (addTarget target) (labelled .target target) := by
  unfold addTarget labelled
  by_cases htarget : target = ['-']
  · simp only [htarget, ne_eq, not_true_eq_false, if_false, if_true]
    exact .id
  · simp only [htarget, ne_eq, not_false_eq_true, if_true, if_false]
    constructor
    · intro targets hnodup
      split
      · exact hnodup
      · rename_i hnew
        exact hnodup.append (List.nodup_singleton target) (List.disjoint_singleton.mpr hnew)
    · intro targets _ q
      have hpath : q ≠ [] ∧ q <+: [(NodeType.target, target)] ↔ q = [(.target, target)] := by
        rw [Dict.prefix_cons_iff]
        simp
      rw [hpath]
      split
      · rename_i hmem
        refine (or_iff_left_of_imp fun hq => ?_).symm
        exact List.mem_map.mpr ⟨target, hmem, hq.symm⟩
      · rw [targetsPaths, List.map_append, List.mem_append, List.map_singleton, List.mem_singleton]
        rfl

/-- Changes of the same dictionary of functions. -/
theorem grows_dict {f : Dict Text (List Text) → Dict Text (List Text)} {g : Entry → Entry} {path : Path}
    (h : Dict.Grows (Dict.Good List.Nodup) funcsPaths f path) (hg : ∀ funcs, g (.dict funcs) = .dict (f funcs)) :
    Dict.Grows GoodEntry Entry.paths g path where
  keeps := by
    rintro _ ⟨funcs, rfl, hfuncs⟩
    exact ⟨f funcs, hg funcs, h.keeps funcs hfuncs⟩
  mem := by
    rintro _ ⟨funcs, rfl, hfuncs⟩ q
    rw [hg]
    exact h.mem funcs hfuncs q

theorem grows_addFunc {func target : Text} (hfunc : func = ['-'] → target = ['-']) :
    Dict.Grows GoodEntry Entry.paths (Entry.addFunc func target) (labelled .func func ++ labelled .target target) := by
  by_cases hunset : func = ['-']
  · rw [labelled, labelled, if_pos hunset, if_pos (hfunc hunset)]
    exact grows_dict .id fun funcs => by rw [Entry.addFunc, if_neg (not_not.mpr hunset)]; rfl
  · rw [labelled, if_neg hunset]
    refine grows_dict ((grows_addTarget target).enter List.nodup_nil rfl) fun funcs => ?_
    rw [Entry.addFunc, if_pos hunset]

theorem goodEntry_empty : GoodEntry (.dict []) := ⟨[], rfl, Dict.good_nil _⟩

/-- Under a protocol, where a function comes with a uid. -/
theorem grows_addProtoid {protoid func target : Text} (hfunc : func = ['-'] → target = ['-'])
    (hprotoid : protoid = ['-'] → func = ['-']) :
    Dict.Grows (Dict.Good GoodEntry) protoidsPaths (addProtoid protoid func target)
      (labelled .protoid protoid ++ (labelled .func func ++ labelled .target target)) := by
  by_cases hunset : protoid = ['-']
  · have hfunset := hprotoid hunset
    rw [labelled, labelled, labelled, if_pos hunset, if_pos hfunset, if_pos (hfunc hfunset)]
    have hid : addProtoid protoid func target = id := by
      funext protoids
      rw [addProtoid, if_neg (not_not.mpr hunset), if_neg (not_not.mpr hfunset)]
      rfl
    rw [hid]
    exact .id
  · have henter : addProtoid protoid func target = Dict.enter protoid (.dict []) (Entry.addFunc func target) := by
      funext protoids
      rw [addProtoid, if_pos hunset]
    rw [henter, labelled, if_neg hunset]
    exact (grows_addFunc hfunc).enter goodEntry_empty rfl

/-- A row whose function comes with a uid. -/
theorem grows_addRow {row : CountRow} (hlabels : RowLabels row.labels)
    (huid : row.labels.uid = ['-'] → row.labels.func = ['-']) :
    Dict.Grows GoodRoot rootPaths (fun root => addRow root row) row.path := by
  obtain ⟨formattedTime, src, dst, proto, protoid, func, target⟩ := row
  have hprotoids := grows_addProtoid hlabels.func huid
  have hprotos : Dict.Grows _ protosPaths (Dict.enter proto [] (addProtoid protoid func target))
      ((.proto, proto) :: _) := hprotoids.enter (Dict.good_nil _) rfl
  have hreceivers : Dict.Grows _ receiversPaths (Dict.enter dst [] (Dict.enter proto [] (addProtoid protoid func target)))
      ((.receiver, dst) :: _) := hprotos.enter (Dict.good_nil _) rfl
  have hsenders : Dict.Grows _ sendersPaths
      (Dict.enter src [] (Dict.enter dst [] (Dict.enter proto [] (addProtoid protoid func target))))
      ((.sender, src) :: _) := hreceivers.enter (Dict.good_nil _) rfl
  have hroot : Dict.Grows GoodRoot rootPaths (Dict.enter formattedTime []
      (Dict.enter src [] (Dict.enter dst [] (Dict.enter proto [] (addProtoid protoid func target)))))
      ((.timestampRoot, formattedTime) :: _) := hsenders.enter (Dict.good_nil _) rfl
  have hrow (root : Root) : addRow root ⟨formattedTime, src, dst, proto, protoid, func, target⟩ = Dict.enter formattedTime []
      (Dict.enter src [] (Dict.enter dst [] (Dict.enter proto [] (addProtoid protoid func target)))) root := by
    simp only [addRow, if_neg hlabels.sender, if_neg hlabels.receiver]
  simp only [hrow]
  exact hroot

theorem foldl_addLine (log : Log strftime) (root : Root) :
    log.lines.foldl (addLine strftime) root = log.rows.foldl addRow root := by
  rw [Log.rows, List.foldl_filterMap]
  congr 1
  funext root line
  rw [addLine]
  cases countRow strftime line <;> rfl

/-- **The first loop leaves the prefixes of the rows.** -/
theorem rootPaths_foldl {log : Log strftime} (h : ∀ row ∈ log.rows, row.labels.uid = ['-'] → row.labels.func = ['-']) :
    GoodRoot (log.lines.foldl (addLine strftime) [])
      ∧ ∀ p, p ∈ rootPaths (log.lines.foldl (addLine strftime) []) ↔ p ≠ [] ∧ ∃ row ∈ log.rows, p <+: row.path := by
  obtain ⟨hgood, hmem⟩ := Dict.Grows.foldl (fun row hrow => grows_addRow (rowLabels hrow) (h row hrow))
    (Dict.good_nil _ : GoodRoot [])
  rw [foldl_addLine]
  refine ⟨hgood, fun p => ?_⟩
  rw [hmem]
  exact or_iff_right List.not_mem_nil

/-! ### The tree -/

theorem once_targets : Dict.Once List.Nodup targetsPaths where
  nodup targets hnodup := hnodup.map fun a b heq => (Prod.mk.inj (List.cons.inj heq).1).2
  nil_notMem targets hmem := by
    obtain ⟨_, _, h⟩ := List.mem_map.mp hmem
    exact nomatch h

theorem label_injective (type : NodeType) : Function.Injective (Prod.mk type : Text → NodeType × Text) :=
  fun _ _ h => (Prod.mk.inj h).2

theorem once_entry : Dict.Once GoodEntry Entry.paths where
  nodup := by
    rintro _ ⟨funcs, rfl, hfuncs⟩
    exact (once_targets.paths (label_injective .func)).nodup funcs hfuncs
  nil_notMem := by
    rintro (funcs | targets)
    · exact (once_targets.paths (label_injective .func)).nil_notMem funcs
    · exact List.not_mem_nil

theorem once_root : Dict.Once GoodRoot rootPaths :=
  ((((once_entry.paths (label_injective .protoid)).paths (label_injective .proto)).paths
    (label_injective .receiver)).paths (label_injective .sender)).paths (label_injective .timestampRoot)

theorem exists_dprotoid_ok (entry : Text × Entry) (hentry : GoodEntry entry.2) :
    ∃ node, dprotoid entry = .ok node := by
  obtain ⟨funcs, hfuncs, _⟩ := hentry
  rw [dprotoid, hfuncs]
  exact ⟨_, rfl⟩

/-- The walk returns where every uid has a dictionary. -/
theorem exists_trees_ok {root : Root} (hroot : GoodRoot root) : ∃ trees, root.mapM tsTree = .ok trees :=
  exists_mapM_ok fun entry hentry => exists_level_ok (exists_level_ok (exists_level_ok (exists_level_ok
    exists_dprotoid_ok))) entry (hroot.values entry hentry)

/-- The tree has exactly the prefixes of the lines with a protocol, each once. -/
structure PrefixTree (log : Log strftime) (jtree : Option (List TimestampNode)) : Prop where
  paths : ∀ p, p ∈ treePaths jtree ↔ p ≠ [] ∧ ∃ row ∈ log.rows, p <+: row.path
  once : (treePaths jtree).Nodup

/-- No node of a function is right under a protocol. -/
theorem func_notMem_rootPaths {a b c d : NodeType × Text} {func : Text} {root : Root} :
    [a, b, c, d, (.func, func)] ∉ rootPaths root := by
  intro hmem
  obtain ⟨senders, hmem⟩ := Dict.mem_below_of_mem_paths hmem
  obtain ⟨receivers, hmem⟩ := Dict.mem_below_of_mem_paths hmem
  obtain ⟨protos, hmem⟩ := Dict.mem_below_of_mem_paths hmem
  obtain ⟨protoids, hmem⟩ := Dict.mem_below_of_mem_paths hmem
  obtain ⟨protoid, hlabel⟩ := Dict.exists_label_of_mem_paths hmem
  exact nomatch (Prod.mk.inj hlabel).1

/-- **The tree is the prefix tree of the log exactly when no function comes without a uid.** -/
theorem prefix_tree_iff (strftime : Text → Option Text) (log : Log strftime) :
    (∃ jtree, processStatsCountLog strftime log.lines = .ok jtree ∧ PrefixTree log jtree)
      ↔ ∀ row ∈ log.rows, row.labels.uid = ['-'] → row.labels.func = ['-'] := by
  constructor
  · intro ⟨jtree, hreturn, htree⟩ row hrow huid
    by_contra hfunc
    have hprefix : [(.timestampRoot, row.formattedTime), (.sender, row.labels.sender),
        (.receiver, row.labels.receiver), (.proto, row.labels.protocol), (.func, row.labels.func)] <+: row.path := by
      refine ⟨labelled .target row.labels.target, ?_⟩
      rw [CountRow.path, labelled, labelled, labelled, if_pos huid, if_neg hfunc]
      rfl
    have hmem := (htree.paths _).mpr ⟨List.cons_ne_nil _ _, row, hrow, hprefix⟩
    rw [treePaths_eq hreturn] at hmem
    exact func_notMem_rootPaths hmem
  · intro h
    obtain ⟨hgood, hmem⟩ := rootPaths_foldl h
    obtain ⟨trees, htrees⟩ := exists_trees_ok hgood
    have hreturn : processStatsCountLog strftime log.lines = .ok (if trees.isEmpty then none else some trees) :=
      bind_ok.mpr ⟨trees, htrees, rfl⟩
    refine ⟨_, hreturn, ?_⟩
    constructor <;> rw [treePaths_eq hreturn]
    · exact hmem
    · exact once_root.nodup _ hgood

/-- A clock that knows one time. -/
def oneTime (ts : Text) : Option Text :=
  if ts = "1400000000.5".toList then some "May 13 2014 16:53:20".toList else none

def readLine : Text :=
  "1\t1400000000.5\t600.0\t10.0.0.1\t10.0.0.2\tDNP3\t-\tREAD\t-\t1\t64.0\tT\t0\t0.0".toList

/-- A DNP3 request, which has no uid. -/
def readLog : Log oneTime where
  lines := [readLine]
  levels := by
    simp only [List.forall_mem_singleton]
    refine .inr (.inr ⟨⟨"10.0.0.1".toList, "10.0.0.2".toList, "DNP3".toList, ['-'], "READ".toList, ['-']⟩, ?_⟩)
    constructor
    · refine ⟨['1'], "1400000000.5".toList, "600.0".toList,
        [['1'], "64.0".toList, ['T'], ['0'], "0.0".toList], ?_, ?_, rfl⟩ <;> decide
    all_goals decide

/-- The walk raises on the list of the function. -/
theorem readLog_raises : ¬ ∀ (strftime : Text → Option Text) (log : Log strftime),
    ∃ jtree, processStatsCountLog strftime log.lines = .ok jtree ∧ PrefixTree log jtree := by
  intro h
  obtain ⟨jtree, hreturn, _⟩ := h oneTime readLog
  have hraise : (processStatsCountLog oneTime readLog.lines).toOption = none := by decide
  rw [hreturn] at hraise
  exact nomatch hraise

end Armore.Web.CountTree
