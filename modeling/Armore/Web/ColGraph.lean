import Armore.Web.ColDiff
import Armore.Web.LogParsers
import Mathlib.Data.Char
import Mathlib.Data.List.Lex
import Mathlib.Data.List.Sort
import Mathlib.Data.Finset.Max
import Mathlib.Data.List.Dedup

/-!
# The graph of the connections

`domains/lib/create_json_graph.py`: `process_stats_col_log` reads the log of the packets twice. The first
loop collects the endpoints of the lines with a protocol, the second counts the lines of Modbus and DNP3 at
the nodes and links that the first has found, and lists their protocols, functions and targets there and
in the lists for the whole graph. `list` of a set has an order of its own, which is a parameter.
-/

namespace Armore.Web.ColGraph

open Lib Lib.Text

/-- An order in which the elements of a set are listed. -/
structure SetOrder (α : Type) where
  list : List α → List α
  perm : ∀ xs, (list xs).Perm xs

/-! ### The counters -/

/-- An entry of `nodes_spec`. -/
structure NodeSpec where
  sCnt : Nat := 0
  rCnt : Nat := 0
  uids : List Text := []
  protocols : List Text := []
  sourceof : List Text := []
  targetof : List Text := []
  funcsrc : List Text := []
  funcdst : List Text := []
  targets : List Text := []
  nodetype : Text := "master".toList

/-- An entry of `links_spec`. -/
structure LinkSpec where
  cnt : Nat := 0
  protoFuncTarget : Text := []
  uid : Text := []
  proto : List Text := []
  func : List Text := []
  target : List Text := []

/-- The variables of the second loop. -/
structure Specs where
  nodesSpec : Table Text NodeSpec
  linksSpec : Table (Text × Text) LinkSpec
  protocols : List Text := []
  functions : List Text := []
  targets : List Text := []

/-- What the graph has of a node besides its number and name. -/
structure NodeRest where
  group : Nat
  nodeType : Text
  uids : List Text
  size : Nat
  sCnt : Nat
  rCnt : Nat
  protocols : List Text
  sourceof : List Text
  targetof : List Text
  funcsrc : List Text
  funcdst : List Text
  targets : List Text

/-- What the graph has of a link besides its endpoints. -/
structure LinkRest where
  id : Nat
  protoFuncTarget : Text
  uid : Text
  value : Nat
  protocol : List Text
  function : List Text
  target : List Text

abbrev ColLog := ColDiff.ColLog NodeRest LinkRest

namespace Specs

def atNode (s : Specs) (name : Text) (f : NodeSpec → NodeSpec) : Specs :=
  { s with nodesSpec := s.nodesSpec.modify name f }

def atLink (s : Specs) (link : Text × Text) (f : LinkSpec → LinkSpec) : Specs :=
  { s with linksSpec := s.linksSpec.modify link f }

end Specs

/-- `if x not in xs: xs.append(x)`. -/
def appendNew (xs : List Text) (x : Text) : List Text := if x ∈ xs then xs else xs ++ [x]

def protocolFilter (proto : Text) : Bool := lower proto ∈ ["modbus".toList, "dnp3".toList]

/-! ### The two loops -/

/-- The body of the first loop. -/
def endpoints (line : Text) : Except ParseExn (Option (Text × Text)) :=
  if startsWithHash line then .ok none
  else do
    let data := words line
    if (← getItem data 4) = ['-'] then return none
    return some (← getItem data 2, ← getItem data 3)

/-- The part of the second loop on the protocol. -/
def Specs.addProtocol (s : Specs) (send recv proto : Text) : Specs :=
  if proto ≠ ['-'] then
    let s := s.atLink (send, recv) fun l => { l with proto := l.proto.insert proto }
    let s := { s with protocols := appendNew s.protocols proto }
    s.atNode send fun n => { n with protocols := n.protocols.insert proto }
  else s

/-- The part on the function. -/
def Specs.addFunction (s : Specs) (send recv proto func : Text) : Specs :=
  if func ≠ ['-'] then
    let func := proto ++ ':' :: func
    let s := s.atLink (send, recv) fun l => { l with func := l.func.insert func }
    let s := s.atNode send fun n => { n with funcsrc := n.funcsrc.insert func }
    let s := s.atNode recv fun n => { n with funcdst := n.funcdst.insert func }
    { s with functions := appendNew s.functions func }
  else s

/-- The part on a response. -/
def Specs.addResponse (s : Specs) (send uid isResponse : Text) : Specs :=
  if isResponse = ['T'] then
    let s := s.atNode send fun n => { n with nodetype := "slave".toList }
    if uid ≠ [] then s.atNode send fun n => { n with uids := n.uids.insert uid } else s
  else s

/-- The part on the target. At the node the protocol is put before the target once more. -/
def Specs.addTarget (s : Specs) (send recv proto uid target isResponse : Text) : Specs :=
  if target ≠ ['-'] then
    let target := proto ++ ':' :: target
    let s := s.atLink (send, recv) fun l => { l with target := l.target.insert target }
    let s := { s with targets := appendNew s.targets target }
    let s := s.atNode send fun n => { n with sourceof := n.sourceof.insert recv }
    let s := s.atNode recv fun n => { n with targetof := n.targetof.insert send }
    let s := s.addResponse send uid isResponse
    s.atNode send fun n => { n with targets := n.targets.insert (proto ++ ':' :: target) }
  else s

/-- The body of the second loop after the filter. A `KeyError` ends it where it is raised. -/
def Specs.addRow (s : Specs) (row : ColRow) : Specs :=
  let ⟨⟨send, recv, proto, uid, func, target⟩, isResponse⟩ := row
  match s.nodesSpec.get? send with
  | none => s
  | some _ =>
    let s := s.atNode send fun n => { n with sCnt := n.sCnt + 1 }
    match s.nodesSpec.get? recv with
    | none => s
    | some _ =>
      let s := s.atNode recv fun n => { n with rCnt := n.rCnt + 1 }
      match s.linksSpec.get? (send, recv) with
      | none => s
      | some _ =>
        let s := s.atLink (send, recv) fun l =>
          { l with cnt := l.cnt + 1, protoFuncTarget := proto ++ ':' :: func ++ ':' :: target, uid }
        ((s.addProtocol send recv proto).addFunction send recv proto func).addTarget send recv proto uid target
          isResponse

/-- The body of the second loop; what it raises is printed. -/
def Specs.addLine (s : Specs) (line : Text) : Specs :=
  match processStatsCol line with
  | .ok (some row) => if protocolFilter row.labels.protocol then s.addRow row else s
  | _ => s

/-! ### The graph -/

/-- `sorted(list(..))`. -/
def sorted (xs : List Text) : List Text := xs.insertionSort (· ≤ ·)

/-- An entry of `j_nodes`. -/
def jNode (s : Specs) (i : Nat) (node : Text) : ColDiff.Node NodeRest :=
  let spec := (s.nodesSpec.get? node).getD {}
  { id := i
    name := node
    rest :=
      { group := 1
        nodeType := spec.nodetype
        uids := sorted spec.uids
        size := spec.sCnt + spec.rCnt
        sCnt := spec.sCnt
        rCnt := spec.rCnt
        protocols := sorted spec.protocols
        sourceof := sorted spec.sourceof
        targetof := sorted spec.targetof
        funcsrc := sorted spec.funcsrc
        funcdst := sorted spec.funcdst
        targets := sorted spec.targets } }

/-- An entry of `j_links`; `nodes.index` raises for a name that is not there. -/
def jLink (texts : SetOrder Text) (s : Specs) (nodes : List Text) (j : Nat) (link : Text × Text) :
    Option (ColDiff.Link LinkRest) := do
  let source ← nodes.idxOf? link.1
  let target ← nodes.idxOf? link.2
  let spec ← s.linksSpec.get? link
  return {
    source := source
    target := target
    sourceName := link.1
    targetName := link.2
    rest :=
      { id := j
        protoFuncTarget := spec.protoFuncTarget
        uid := spec.uid
        value := spec.cnt
        protocol := texts.list spec.proto
        function := texts.list spec.func
        target := texts.list spec.target } }

/-- The loop over the links, which counts those it has added. -/
def jLinks (texts : SetOrder Text) (s : Specs) (nodes : List Text) (links : List (Text × Text)) :
    List (ColDiff.Link LinkRest) :=
  links.foldl (fun js link => js ++ (jLink texts s nodes js.length link).toList) []

/-- `process_stats_col_log` on the lines of a file that is there; `none` is the empty graph. -/
def processStatsColLog (texts : SetOrder Text) (pairs : SetOrder (Text × Text)) (lines : List Text) :
    Except ParseExn (Option ColLog) := do
  let found := (← lines.mapM endpoints).filterMap fun link => link
  let nodes := texts.list (found.flatMap fun link => [link.1, link.2]).dedup
  let links := pairs.list found.dedup
  let specs : Specs :=
    { nodesSpec := nodes.foldl (fun t node => t.put node {}) ∅
      linksSpec := links.foldl (fun t link => t.put link {}) ∅ }
  let specs := lines.foldl Specs.addLine specs
  let jnodes := nodes.zipIdx.map fun entry => jNode specs entry.2 entry.1
  let jlinks := jLinks texts specs nodes links
  if jnodes ≠ [] ∧ jlinks ≠ [] then
    return some {
      nodes := jnodes
      links := jlinks
      protocols := specs.protocols
      functions := specs.functions
      targets := specs.targets }
  else return none

/-! ### What a row changes -/

/-- A part of what is kept of a node. -/
def Specs.nodeGet {β : Type} (g : NodeSpec → β) (s : Specs) (n : Text) : Option β := (s.nodesSpec.get? n).map g

/-- A part of what is kept of a link. -/
def Specs.linkGet {β : Type} (g : LinkSpec → β) (s : Specs) (l : Text × Text) : Option β := (s.linksSpec.get? l).map g

namespace Specs

variable {β : Type} {s : Specs} {send recv proto uid func target isResponse : Text}

/-- The part on the protocol keeps what does not depend on the protocols. -/
theorem nodeGet_addProtocol {g : NodeSpec → β} (hg : ∀ spec xs, g { spec with protocols := xs } = g spec) (n : Text) :
    (s.addProtocol send recv proto).nodeGet g n = s.nodeGet g n := by
  unfold addProtocol
  split
  · exact Table.map_get?_modify_same (fun spec => hg spec _) _ send n
  · rfl

theorem linkGet_addProtocol {g : LinkSpec → β} (hg : ∀ spec xs, g { spec with proto := xs } = g spec)
    (l : Text × Text) : (s.addProtocol send recv proto).linkGet g l = s.linkGet g l := by
  unfold addProtocol
  split
  · exact Table.map_get?_modify_same (fun spec => hg spec _) _ (send, recv) l
  · rfl

theorem nodeGet_addFunction {g : NodeSpec → β} (hsrc : ∀ spec xs, g { spec with funcsrc := xs } = g spec)
    (hdst : ∀ spec xs, g { spec with funcdst := xs } = g spec) (n : Text) :
    (s.addFunction send recv proto func).nodeGet g n = s.nodeGet g n := by
  unfold addFunction
  split
  · exact (Table.map_get?_modify_same (fun spec => hdst spec _) _ recv n).trans
      (Table.map_get?_modify_same (fun spec => hsrc spec _) _ send n)
  · rfl

theorem linkGet_addFunction {g : LinkSpec → β} (hg : ∀ spec xs, g { spec with func := xs } = g spec)
    (l : Text × Text) : (s.addFunction send recv proto func).linkGet g l = s.linkGet g l := by
  unfold addFunction
  split
  · exact Table.map_get?_modify_same (fun spec => hg spec _) _ (send, recv) l
  · rfl

theorem nodeGet_addResponse {g : NodeSpec → β} (hnodetype : ∀ spec x, g { spec with nodetype := x } = g spec)
    (huids : ∀ spec xs, g { spec with uids := xs } = g spec) (n : Text) :
    (s.addResponse send uid isResponse).nodeGet g n = s.nodeGet g n := by
  unfold addResponse
  split
  · dsimp only
    split
    · exact (Table.map_get?_modify_same (fun spec => huids spec _) _ send n).trans
        (Table.map_get?_modify_same (fun spec => hnodetype spec _) _ send n)
    · exact Table.map_get?_modify_same (fun spec => hnodetype spec _) _ send n
  · rfl

@[simp] theorem linksSpec_addResponse : (s.addResponse send uid isResponse).linksSpec = s.linksSpec := by
  unfold addResponse
  split
  · dsimp only
    split <;> rfl
  · rfl

@[simp] theorem protocols_addResponse : (s.addResponse send uid isResponse).protocols = s.protocols := by
  unfold addResponse
  split
  · dsimp only
    split <;> rfl
  · rfl

@[simp] theorem functions_addResponse : (s.addResponse send uid isResponse).functions = s.functions := by
  unfold addResponse
  split
  · dsimp only
    split <;> rfl
  · rfl

@[simp] theorem targets_addResponse : (s.addResponse send uid isResponse).targets = s.targets := by
  unfold addResponse
  split
  · dsimp only
    split <;> rfl
  · rfl

theorem nodeGet_addTarget_same {g : NodeSpec → β} (hsourceof : ∀ spec xs, g { spec with sourceof := xs } = g spec)
    (htargetof : ∀ spec xs, g { spec with targetof := xs } = g spec)
    (hnodetype : ∀ spec x, g { spec with nodetype := x } = g spec)
    (huids : ∀ spec xs, g { spec with uids := xs } = g spec)
    (htargets : ∀ spec xs, g { spec with targets := xs } = g spec) (n : Text) :
    (s.addTarget send recv proto uid target isResponse).nodeGet g n = s.nodeGet g n := by
  unfold addTarget
  split
  · refine (Table.map_get?_modify_same (fun spec => htargets spec _) _ send n).trans ?_
    refine (nodeGet_addResponse hnodetype huids n).trans ?_
    exact (Table.map_get?_modify_same (fun spec => htargetof spec _) _ recv n).trans
      (Table.map_get?_modify_same (fun spec => hsourceof spec _) _ send n)
  · rfl

/-- The target with the protocol before it twice. -/
theorem nodeGet_addTarget (htarget : target ≠ ['-']) (n : Text) :
    (s.addTarget send recv proto uid target isResponse).nodeGet NodeSpec.targets n
      = if n = send then (s.nodeGet NodeSpec.targets n).map (List.insert (proto ++ ':' :: (proto ++ ':' :: target)))
        else s.nodeGet NodeSpec.targets n := by
  have hbefore (s : Specs) :
      (((s.atNode send fun n => { n with sourceof := n.sourceof.insert recv }).atNode recv
        fun n => { n with targetof := n.targetof.insert send }).addResponse send uid isResponse).nodeGet
          NodeSpec.targets n = s.nodeGet NodeSpec.targets n := by
    refine (nodeGet_addResponse (fun _ _ => rfl) (fun _ _ => rfl) n).trans ?_
    refine Eq.trans (Table.map_get?_modify_same ?_ _ recv n) (Table.map_get?_modify_same ?_ _ send n)
    all_goals exact fun _ => rfl
  rw [addTarget, if_pos htarget]
  refine Eq.trans (Table.map_get?_modify (List.insert (proto ++ ':' :: (proto ++ ':' :: target))) ?_ _ send n) ?_
  · exact fun _ => rfl
  split
  · exact congrArg _ (hbefore _)
  · exact hbefore _

theorem linkGet_addTarget_same {g : LinkSpec → β} (hg : ∀ spec xs, g { spec with target := xs } = g spec)
    (l : Text × Text) : (s.addTarget send recv proto uid target isResponse).linkGet g l = s.linkGet g l := by
  unfold addTarget
  split
  · refine (congrArg (fun t : Table (Text × Text) LinkSpec => (t.get? l).map g) linksSpec_addResponse).trans ?_
    exact Table.map_get?_modify_same (fun spec => hg spec _) _ (send, recv) l
  · rfl

/-! ### The lists of the whole graph -/

@[simp] theorem functions_addProtocol : (s.addProtocol send recv proto).functions = s.functions := by
  unfold addProtocol
  split <;> rfl

@[simp] theorem targets_addProtocol : (s.addProtocol send recv proto).targets = s.targets := by
  unfold addProtocol
  split <;> rfl

@[simp] theorem protocols_addFunction : (s.addFunction send recv proto func).protocols = s.protocols := by
  unfold addFunction
  split <;> rfl

@[simp] theorem targets_addFunction : (s.addFunction send recv proto func).targets = s.targets := by
  unfold addFunction
  split <;> rfl

@[simp] theorem protocols_addTarget :
    (s.addTarget send recv proto uid target isResponse).protocols = s.protocols := by
  unfold addTarget
  split
  · exact protocols_addResponse
  · rfl

@[simp] theorem functions_addTarget :
    (s.addTarget send recv proto uid target isResponse).functions = s.functions := by
  unfold addTarget
  split
  · exact functions_addResponse
  · rfl

theorem targets_addTarget : (s.addTarget send recv proto uid target isResponse).targets
    = if target ≠ ['-'] then appendNew s.targets (proto ++ ':' :: target) else s.targets := by
  unfold addTarget
  split
  · exact targets_addResponse
  · rfl

end Specs

theorem mem_appendNew {xs : List Text} {x y : Text} : y ∈ appendNew xs x ↔ y = x ∨ y ∈ xs := by
  unfold appendNew
  split
  · rename_i hmem
    exact ⟨.inr, fun h => h.elim (· ▸ hmem) id⟩
  · rw [List.mem_append, List.mem_singleton, or_comm]

/-! ### What is listed -/

/-- What is listed at a place of the graph is listed for the whole graph. -/
def Listed {κ : Type} (get : κ → Option (List Text)) (known : List Text) : Prop :=
  ∀ k xs, get k = some xs → xs ⊆ known

/-- A text that is put in both lists. -/
theorem Listed.insert {κ : Type} [DecidableEq κ] {get get' : κ → Option (List Text)} {known : List Text}
    (h : Listed get known) (k : κ) (p : Text)
    (hget : ∀ k', get' k' = if k' = k then (get k').map (List.insert p) else get k') :
    Listed get' (appendNew known p) := by
  intro k' xs hxs x hx
  rw [hget] at hxs
  rw [mem_appendNew]
  split at hxs
  · obtain ⟨ys, hys, rfl⟩ := Option.map_eq_some_iff.mp hxs
    exact (List.mem_insert_iff.mp hx).imp id fun hmem => h k' ys hys hmem
  · exact .inr (h k' xs hxs hx)

/-- A text that is only put in the list for the whole graph. -/
theorem Listed.congr {κ : Type} {get get' : κ → Option (List Text)} {known known' : List Text}
    (h : Listed get known) (hget : ∀ k, get' k = get k) (hknown : known' = known) : Listed get' known' := by
  intro k xs hxs
  rw [hget] at hxs
  rw [hknown]
  exact h k xs hxs

/-! ### One row -/

namespace Specs

/-- The three counters. -/
def count (s : Specs) (row : ColRow) : Specs :=
  let ⟨⟨send, recv, proto, uid, func, target⟩, _⟩ := row
  let s := s.atNode send fun n => { n with sCnt := n.sCnt + 1 }
  let s := s.atNode recv fun n => { n with rCnt := n.rCnt + 1 }
  s.atLink (send, recv) fun l =>
    { l with cnt := l.cnt + 1, protoFuncTarget := proto ++ ':' :: func ++ ':' :: target, uid }

/-- The endpoints of a row are nodes, with a link between them. -/
structure Knows (s : Specs) (row : ColRow) : Prop where
  sender : (s.nodesSpec.get? row.labels.sender).isSome
  receiver : (s.nodesSpec.get? row.labels.receiver).isSome
  link : (s.linksSpec.get? (row.labels.sender, row.labels.receiver)).isSome

variable {β : Type} {s : Specs} {row : ColRow}

theorem get?_isSome_atNode {name n : Text} {f : NodeSpec → NodeSpec} (h : (s.nodesSpec.get? n).isSome) :
    ((s.atNode name f).nodesSpec.get? n).isSome := by
  unfold atNode
  rw [Table.get?_modify]
  split
  · rw [Option.isSome_map]
    exact h
  · exact h

theorem addRow_eq (hknows : s.Knows row) :
    s.addRow row = (((s.count row).addProtocol row.labels.sender row.labels.receiver row.labels.protocol).addFunction
      row.labels.sender row.labels.receiver row.labels.protocol row.labels.func).addTarget row.labels.sender
        row.labels.receiver row.labels.protocol row.labels.uid row.labels.target row.isResponse := by
  obtain ⟨⟨send, recv, proto, uid, func, target⟩, isResponse⟩ := row
  obtain ⟨first, hfirst⟩ := Option.isSome_iff_exists.mp hknows.sender
  obtain ⟨second, hsecond⟩ := Option.isSome_iff_exists.mp
    (get?_isSome_atNode hknows.receiver : ((s.atNode send fun n => { n with sCnt := n.sCnt + 1 }).nodesSpec.get?
      recv).isSome)
  obtain ⟨third, hthird⟩ := Option.isSome_iff_exists.mp hknows.link
  unfold addRow
  dsimp only at hfirst hthird ⊢
  rw [hfirst]
  dsimp only
  rw [hsecond]
  dsimp only
  split
  · rename_i hnone
    have hthird : ((s.atNode send fun n => { n with sCnt := n.sCnt + 1 }).atNode recv
        fun n => { n with rCnt := n.rCnt + 1 }).linksSpec.get? (send, recv) = some third := hthird
    rw [hthird] at hnone
    cases hnone
  · rfl

/-- What no part but the counters touches. -/
theorem nodeGet_addRow {g : NodeSpec → β} (hknows : s.Knows row)
    (hg : ∀ spec spec', spec.sCnt = spec'.sCnt → spec.rCnt = spec'.rCnt → g spec = g spec') (n : Text) :
    (s.addRow row).nodeGet g n = (s.count row).nodeGet g n := by
  rw [addRow_eq hknows, nodeGet_addTarget_same, nodeGet_addFunction, nodeGet_addProtocol]
  all_goals exact fun _ _ => hg _ _ rfl rfl

theorem linkGet_addRow {g : LinkSpec → β} (hknows : s.Knows row)
    (hg : ∀ spec spec', spec.cnt = spec'.cnt → g spec = g spec') (l : Text × Text) :
    (s.addRow row).linkGet g l = (s.count row).linkGet g l := by
  rw [addRow_eq hknows, linkGet_addTarget_same, linkGet_addFunction, linkGet_addProtocol]
  all_goals exact fun _ _ => hg _ _ rfl

theorem nodeGet_count {g : NodeSpec → β} (hs : ∀ spec x, g { spec with sCnt := x } = g spec)
    (hr : ∀ spec x, g { spec with rCnt := x } = g spec) (n : Text) : (s.count row).nodeGet g n = s.nodeGet g n := by
  refine Eq.trans (Table.map_get?_modify_same ?_ _ row.labels.receiver n)
    (Table.map_get?_modify_same ?_ _ row.labels.sender n)
  · exact fun spec => hr spec _
  · exact fun spec => hs spec _

theorem linkGet_count {g : LinkSpec → β}
    (hg : ∀ spec x y z, g { spec with cnt := x, protoFuncTarget := y, uid := z } = g spec) (l : Text × Text) :
    (s.count row).linkGet g l = s.linkGet g l :=
  Table.map_get?_modify_same (fun spec => hg spec _ _ _) _ _ l

theorem sCnt_addRow (hknows : s.Knows row) (n : Text) :
    (s.addRow row).nodeGet NodeSpec.sCnt n
      = if n = row.labels.sender then (s.nodeGet NodeSpec.sCnt n).map (· + 1) else s.nodeGet NodeSpec.sCnt n := by
  rw [nodeGet_addRow hknows fun _ _ h _ => h]
  refine Eq.trans (Table.map_get?_modify_same ?_ _ row.labels.receiver n)
    (Table.map_get?_modify (· + 1) ?_ _ row.labels.sender n)
  all_goals exact fun _ => rfl

theorem rCnt_addRow (hknows : s.Knows row) (n : Text) :
    (s.addRow row).nodeGet NodeSpec.rCnt n
      = if n = row.labels.receiver then (s.nodeGet NodeSpec.rCnt n).map (· + 1) else s.nodeGet NodeSpec.rCnt n := by
  rw [nodeGet_addRow hknows fun _ _ _ h => h]
  refine Eq.trans (Table.map_get?_modify (· + 1) ?_ _ row.labels.receiver n) ?_
  · exact fun _ => rfl
  · have hbefore : ((s.atNode row.labels.sender fun n => { n with sCnt := n.sCnt + 1 }).nodesSpec.get? n).map
        NodeSpec.rCnt = s.nodeGet NodeSpec.rCnt n := by
      refine Table.map_get?_modify_same ?_ _ row.labels.sender n
      exact fun _ => rfl
    exact congrArg (fun x : Option Nat => if n = row.labels.receiver then x.map (· + 1) else x) hbefore

theorem cnt_addRow (hknows : s.Knows row) (l : Text × Text) :
    (s.addRow row).linkGet LinkSpec.cnt l
      = if l = (row.labels.sender, row.labels.receiver) then (s.linkGet LinkSpec.cnt l).map (· + 1)
        else s.linkGet LinkSpec.cnt l := by
  rw [linkGet_addRow hknows fun _ _ h => h]
  exact Table.map_get?_modify (· + 1) (fun _ => rfl) _ (row.labels.sender, row.labels.receiver) l

/-- The keys do not change. -/
theorem isSome_nodesSpec_addRow (hknows : s.Knows row) (n : Text) :
    ((s.addRow row).nodesSpec.get? n).isSome = (s.nodesSpec.get? n).isSome := by
  have hkeys : (s.addRow row).nodeGet (fun _ => ()) n = s.nodeGet (fun _ => ()) n := by
    rw [nodeGet_addRow hknows fun _ _ _ _ => rfl, nodeGet_count (fun _ _ => rfl) fun _ _ => rfl]
  simpa only [nodeGet, Option.isSome_map] using congrArg Option.isSome hkeys

theorem isSome_linksSpec_addRow (hknows : s.Knows row) (l : Text × Text) :
    ((s.addRow row).linksSpec.get? l).isSome = (s.linksSpec.get? l).isSome := by
  have hkeys : (s.addRow row).linkGet (fun _ => ()) l = s.linkGet (fun _ => ()) l := by
    rw [linkGet_addRow hknows fun _ _ _ => rfl, linkGet_count fun _ _ _ _ => rfl]
  simpa only [linkGet, Option.isSome_map] using congrArg Option.isSome hkeys

/-! ### The lists after a row -/

section

variable (send recv proto uid func target isResponse : Text)

theorem listed_addProtocol (h : Listed (s.nodeGet NodeSpec.protocols) s.protocols) :
    Listed ((s.addProtocol send recv proto).nodeGet NodeSpec.protocols) (s.addProtocol send recv proto).protocols := by
  unfold addProtocol
  split
  · refine h.insert send proto fun n => Table.map_get?_modify (List.insert proto) ?_ _ send n
    exact fun _ => rfl
  · exact h

theorem listed_link_addProtocol (h : Listed (s.linkGet LinkSpec.proto) s.protocols) :
    Listed ((s.addProtocol send recv proto).linkGet LinkSpec.proto) (s.addProtocol send recv proto).protocols := by
  unfold addProtocol
  split
  · refine h.insert (send, recv) proto fun l => Table.map_get?_modify (List.insert proto) ?_ _ (send, recv) l
    exact fun _ => rfl
  · exact h

theorem listed_src_addFunction (h : Listed (s.nodeGet NodeSpec.funcsrc) s.functions) :
    Listed ((s.addFunction send recv proto func).nodeGet NodeSpec.funcsrc)
      (s.addFunction send recv proto func).functions := by
  unfold addFunction
  split
  · refine h.insert send (proto ++ ':' :: func) fun n => Eq.trans (Table.map_get?_modify_same ?_ _ recv n)
      (Table.map_get?_modify (List.insert (proto ++ ':' :: func)) ?_ _ send n)
    all_goals exact fun _ => rfl
  · exact h

theorem listed_dst_addFunction (h : Listed (s.nodeGet NodeSpec.funcdst) s.functions) :
    Listed ((s.addFunction send recv proto func).nodeGet NodeSpec.funcdst)
      (s.addFunction send recv proto func).functions := by
  unfold addFunction
  split
  · have hbefore (n : Text) : ((s.nodesSpec.modify send fun n =>
        { n with funcsrc := n.funcsrc.insert (proto ++ ':' :: func) }).get? n).map NodeSpec.funcdst
        = s.nodeGet NodeSpec.funcdst n := by
      refine Table.map_get?_modify_same ?_ _ send n
      exact fun _ => rfl
    refine h.insert recv (proto ++ ':' :: func) fun n =>
      Eq.trans (Table.map_get?_modify (List.insert (proto ++ ':' :: func)) ?_ _ recv n) ?_
    · exact fun _ => rfl
    · exact congrArg (fun x : Option (List Text) =>
        if n = recv then x.map (List.insert (proto ++ ':' :: func)) else x) (hbefore n)
  · exact h

theorem listed_link_addFunction (h : Listed (s.linkGet LinkSpec.func) s.functions) :
    Listed ((s.addFunction send recv proto func).linkGet LinkSpec.func)
      (s.addFunction send recv proto func).functions := by
  unfold addFunction
  split
  · refine h.insert (send, recv) (proto ++ ':' :: func) fun l =>
      Table.map_get?_modify (List.insert (proto ++ ':' :: func)) ?_ _ (send, recv) l
    exact fun _ => rfl
  · exact h

theorem listed_link_addTarget (h : Listed (s.linkGet LinkSpec.target) s.targets) :
    Listed ((s.addTarget send recv proto uid target isResponse).linkGet LinkSpec.target)
      (s.addTarget send recv proto uid target isResponse).targets := by
  rw [targets_addTarget]
  by_cases htarget : target ≠ ['-']
  · rw [if_pos htarget]
    refine h.insert (send, recv) (proto ++ ':' :: target) fun l => ?_
    rw [addTarget, if_pos htarget]
    refine (congrArg (fun t : Table (Text × Text) LinkSpec => (t.get? l).map LinkSpec.target)
      linksSpec_addResponse).trans ?_
    refine Table.map_get?_modify (List.insert (proto ++ ':' :: target)) ?_ _ (send, recv) l
    exact fun _ => rfl
  · rw [if_neg htarget, addTarget, if_neg htarget]
    exact h

end

/-- The counters and the protocol of a row. -/
def countProtocol (s : Specs) (row : ColRow) : Specs :=
  (s.count row).addProtocol row.labels.sender row.labels.receiver row.labels.protocol

/-- The counters, the protocol and the function of a row. -/
def countFunction (s : Specs) (row : ColRow) : Specs :=
  (s.countProtocol row).addFunction row.labels.sender row.labels.receiver row.labels.protocol row.labels.func

theorem nodeGet_countFunction {g : NodeSpec → β}
    (hg : ∀ spec spec', spec.targets = spec'.targets → g spec = g spec') (n : Text) :
    (s.countFunction row).nodeGet g n = s.nodeGet g n := by
  rw [countFunction, countProtocol, nodeGet_addFunction, nodeGet_addProtocol, nodeGet_count]
  all_goals exact fun _ _ => hg _ _ rfl

theorem protocols_addRow (hknows : s.Knows row) : (s.addRow row).protocols = (s.countProtocol row).protocols := by
  rw [addRow_eq hknows, protocols_addTarget, protocols_addFunction, countProtocol]

theorem functions_addRow (hknows : s.Knows row) : (s.addRow row).functions = (s.countFunction row).functions := by
  rw [addRow_eq hknows, functions_addTarget, countFunction, countProtocol]

theorem listed_protocols_addRow (hknows : s.Knows row) (h : Listed (s.nodeGet NodeSpec.protocols) s.protocols) :
    Listed ((s.addRow row).nodeGet NodeSpec.protocols) (s.addRow row).protocols := by
  have hcount : Listed ((s.count row).nodeGet NodeSpec.protocols) (s.count row).protocols :=
    h.congr (fun n => nodeGet_count (fun _ _ => rfl) (fun _ _ => rfl) n) rfl
  refine (listed_addProtocol row.labels.sender row.labels.receiver row.labels.protocol hcount).congr (fun n => ?_)
    (protocols_addRow hknows)
  rw [addRow_eq hknows, nodeGet_addTarget_same, nodeGet_addFunction]
  all_goals exact fun _ _ => rfl

theorem listed_proto_addRow (hknows : s.Knows row) (h : Listed (s.linkGet LinkSpec.proto) s.protocols) :
    Listed ((s.addRow row).linkGet LinkSpec.proto) (s.addRow row).protocols := by
  have hcount : Listed ((s.count row).linkGet LinkSpec.proto) (s.count row).protocols :=
    h.congr (fun l => linkGet_count (fun _ _ _ _ => rfl) l) rfl
  refine (listed_link_addProtocol row.labels.sender row.labels.receiver row.labels.protocol hcount).congr
    (fun l => ?_) (protocols_addRow hknows)
  rw [addRow_eq hknows, linkGet_addTarget_same, linkGet_addFunction]
  all_goals exact fun _ _ => rfl

theorem listed_funcsrc_addRow (hknows : s.Knows row) (h : Listed (s.nodeGet NodeSpec.funcsrc) s.functions) :
    Listed ((s.addRow row).nodeGet NodeSpec.funcsrc) (s.addRow row).functions := by
  have hprotocol : Listed ((s.countProtocol row).nodeGet NodeSpec.funcsrc) (s.countProtocol row).functions := by
    refine h.congr (fun n => ?_) functions_addProtocol
    rw [countProtocol, nodeGet_addProtocol, nodeGet_count]
    all_goals exact fun _ _ => rfl
  refine (listed_src_addFunction row.labels.sender row.labels.receiver row.labels.protocol row.labels.func
    hprotocol).congr (fun n => ?_) (functions_addRow hknows)
  rw [addRow_eq hknows, nodeGet_addTarget_same, countProtocol]
  all_goals exact fun _ _ => rfl

theorem listed_funcdst_addRow (hknows : s.Knows row) (h : Listed (s.nodeGet NodeSpec.funcdst) s.functions) :
    Listed ((s.addRow row).nodeGet NodeSpec.funcdst) (s.addRow row).functions := by
  have hprotocol : Listed ((s.countProtocol row).nodeGet NodeSpec.funcdst) (s.countProtocol row).functions := by
    refine h.congr (fun n => ?_) functions_addProtocol
    rw [countProtocol, nodeGet_addProtocol, nodeGet_count]
    all_goals exact fun _ _ => rfl
  refine (listed_dst_addFunction row.labels.sender row.labels.receiver row.labels.protocol row.labels.func
    hprotocol).congr (fun n => ?_) (functions_addRow hknows)
  rw [addRow_eq hknows, nodeGet_addTarget_same, countProtocol]
  all_goals exact fun _ _ => rfl

theorem listed_func_addRow (hknows : s.Knows row) (h : Listed (s.linkGet LinkSpec.func) s.functions) :
    Listed ((s.addRow row).linkGet LinkSpec.func) (s.addRow row).functions := by
  have hprotocol : Listed ((s.countProtocol row).linkGet LinkSpec.func) (s.countProtocol row).functions := by
    refine h.congr (fun l => ?_) functions_addProtocol
    rw [countProtocol, linkGet_addProtocol fun _ _ => rfl]
    exact linkGet_count (fun _ _ _ _ => rfl) l
  refine (listed_link_addFunction row.labels.sender row.labels.receiver row.labels.protocol row.labels.func
    hprotocol).congr (fun l => ?_) (functions_addRow hknows)
  rw [addRow_eq hknows, linkGet_addTarget_same, countProtocol]
  exact fun _ _ => rfl

theorem listed_target_addRow (hknows : s.Knows row) (h : Listed (s.linkGet LinkSpec.target) s.targets) :
    Listed ((s.addRow row).linkGet LinkSpec.target) (s.addRow row).targets := by
  have hfunction : Listed ((s.countFunction row).linkGet LinkSpec.target) (s.countFunction row).targets := by
    refine h.congr (fun l => ?_) (targets_addFunction.trans targets_addProtocol)
    rw [countFunction, linkGet_addFunction fun _ _ => rfl, countProtocol, linkGet_addProtocol fun _ _ => rfl]
    exact linkGet_count (fun _ _ _ _ => rfl) l
  rw [addRow_eq hknows]
  exact listed_link_addTarget _ _ _ _ _ _ hfunction

theorem targets_addRow (hknows : s.Knows row) : (s.addRow row).targets
    = if row.labels.target ≠ ['-'] then appendNew s.targets (row.labels.protocol ++ ':' :: row.labels.target)
      else s.targets := by
  rw [addRow_eq hknows, targets_addTarget, targets_addFunction, targets_addProtocol]
  rfl

/-- The targets of the nodes. -/
theorem nodeTargets_addRow (hknows : s.Knows row) (n : Text) :
    (s.addRow row).nodeGet NodeSpec.targets n
      = if row.labels.target ≠ ['-'] ∧ n = row.labels.sender then
          (s.nodeGet NodeSpec.targets n).map
            (List.insert (row.labels.protocol ++ ':' :: (row.labels.protocol ++ ':' :: row.labels.target)))
        else s.nodeGet NodeSpec.targets n := by
  have hbefore : (s.countFunction row).nodeGet NodeSpec.targets n = s.nodeGet NodeSpec.targets n :=
    nodeGet_countFunction (fun _ _ h => h) n
  rw [addRow_eq hknows]
  by_cases htarget : row.labels.target ≠ ['-']
  · refine (nodeGet_addTarget htarget n).trans ?_
    rw [← hbefore]
    exact if_congr (and_iff_right htarget).symm rfl rfl
  · rw [addTarget, if_neg htarget, if_neg fun h => htarget h.1]
    exact hbefore

end Specs

/-! ### What the second loop leaves -/

/-- The target of a row with its protocol. -/
def qualified (row : ColRow) : Text := row.labels.protocol ++ ':' :: row.labels.target

/-- What the counters and lists are after some rows. -/
structure Summarises (rows : List ColRow) (s : Specs) : Prop where
  sCnt : ∀ n c, s.nodeGet NodeSpec.sCnt n = some c → c = rows.countP fun r => r.labels.sender = n
  rCnt : ∀ n c, s.nodeGet NodeSpec.rCnt n = some c → c = rows.countP fun r => r.labels.receiver = n
  cnt : ∀ l c, s.linkGet LinkSpec.cnt l = some c → c = rows.countP fun r => (r.labels.sender, r.labels.receiver) = l
  protocols : Listed (s.nodeGet NodeSpec.protocols) s.protocols
  funcsrc : Listed (s.nodeGet NodeSpec.funcsrc) s.functions
  funcdst : Listed (s.nodeGet NodeSpec.funcdst) s.functions
  linkProtos : Listed (s.linkGet LinkSpec.proto) s.protocols
  linkFuncs : Listed (s.linkGet LinkSpec.func) s.functions
  linkTargets : Listed (s.linkGet LinkSpec.target) s.targets
  targets : ∀ text, text ∈ s.targets ↔ ∃ r ∈ rows, r.labels.target ≠ ['-'] ∧ text = qualified r
  nodeTargets : ∀ n xs, s.nodeGet NodeSpec.targets n = some xs → ∀ text,
    text ∈ xs ↔ ∃ r ∈ rows, r.labels.sender = n ∧ r.labels.target ≠ ['-']
      ∧ text = r.labels.protocol ++ ':' :: qualified r

section

variable {rows : List ColRow} {s : Specs} {row : ColRow}

/-- A counter that is kept or increased with the rows. -/
theorem countP_concat (p : ColRow → Prop) [DecidablePred p] {c? : Option Nat} {c : Nat}
    (h : ∀ c, c? = some c → c = rows.countP p) (hc : (if p row then c?.map (· + 1) else c?) = some c) :
    c = (rows ++ [row]).countP p := by
  rw [List.countP_append, List.countP_singleton]
  split at hc
  · rename_i hrow
    obtain ⟨c', hc', rfl⟩ := Option.map_eq_some_iff.mp hc
    rw [h c' hc', if_pos (decide_eq_true hrow)]
  · rename_i hrow
    rw [h c hc, if_neg (by simpa using hrow), Nat.add_zero]

theorem exists_mem_concat (p : ColRow → Prop) :
    (∃ r ∈ rows ++ [row], p r) ↔ (∃ r ∈ rows, p r) ∨ p row := by
  simp only [List.mem_append, List.mem_singleton, or_and_right, exists_or, exists_eq_left]

theorem Summarises.addRow (h : Summarises rows s) (hknows : s.Knows row) :
    Summarises (rows ++ [row]) (s.addRow row) where
  sCnt n c hc := by
    rw [Specs.sCnt_addRow hknows] at hc
    exact countP_concat _ (h.sCnt n) ((if_congr eq_comm rfl rfl).trans hc)
  rCnt n c hc := by
    rw [Specs.rCnt_addRow hknows] at hc
    exact countP_concat _ (h.rCnt n) ((if_congr eq_comm rfl rfl).trans hc)
  cnt l c hc := by
    rw [Specs.cnt_addRow hknows] at hc
    exact countP_concat _ (h.cnt l) ((if_congr eq_comm rfl rfl).trans hc)
  protocols := Specs.listed_protocols_addRow hknows h.protocols
  funcsrc := Specs.listed_funcsrc_addRow hknows h.funcsrc
  funcdst := Specs.listed_funcdst_addRow hknows h.funcdst
  linkProtos := Specs.listed_proto_addRow hknows h.linkProtos
  linkFuncs := Specs.listed_func_addRow hknows h.linkFuncs
  linkTargets := Specs.listed_target_addRow hknows h.linkTargets
  targets text := by
    rw [Specs.targets_addRow hknows, exists_mem_concat, ← h.targets text]
    split
    · rename_i htarget
      rw [mem_appendNew, or_comm]
      exact or_congr_right ⟨fun hsame => ⟨htarget, hsame⟩, And.right⟩
    · rename_i htarget
      exact (or_iff_left fun hrow => htarget hrow.1).symm
  nodeTargets n xs hxs text := by
    rw [Specs.nodeTargets_addRow hknows] at hxs
    rw [exists_mem_concat]
    split at hxs
    · rename_i hrow
      obtain ⟨ys, hys, rfl⟩ := Option.map_eq_some_iff.mp hxs
      rw [List.mem_insert_iff, h.nodeTargets n ys hys text, or_comm]
      exact or_congr_right ⟨fun hsame => ⟨hrow.2.symm, hrow.1, hsame⟩, fun hlast => hlast.2.2⟩
    · rename_i hrow
      rw [h.nodeTargets n xs hxs text]
      exact (or_iff_left fun hlast => hrow ⟨hlast.2.1, hlast.1.symm⟩).symm

end

end Armore.Web.ColGraph
