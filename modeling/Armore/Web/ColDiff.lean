import Armore.Lib.Text

/-!
# Comparing two graphs

`domains/lib/create_json_graph.py`: `diffColLogs` makes one graph of two `col_log` dictionaries. The nodes of
both get new ids from a running counter, a node is looked up by its name, and every node and link is marked
with how it changed. What the dictionaries have under other keys is copied; it is a type parameter here.
-/

namespace Armore.Web.ColDiff

open Lib

inductive Change
  | modified
  | deleted
  | inserted
  deriving DecidableEq

/-- `difrc`. -/
structure Difference where
  frm : Text
  to_ : Text
  diff : Change
  deriving DecidableEq

structure Node (ν : Type) where
  id : Int
  name : Text
  diffs : Option (List Difference) := none
  rest : ν
  deriving DecidableEq

structure Link (μ : Type) where
  source : Int
  target : Int
  sourceName : Text
  targetName : Text
  diffs : Option (List Difference) := none
  rest : μ
  deriving DecidableEq

structure ColLog (ν μ : Type) where
  nodes : List (Node ν)
  links : List (Link μ)
  functions : List Text
  protocols : List Text
  targets : List Text

/-- The numbers under `changes`. -/
structure Counts where
  new : Nat
  modified : Nat
  deleted : Nat
  deriving DecidableEq

structure Changes where
  frm : Text
  to_ : Text
  nodes : Counts
  links : Counts

structure Graph (ν μ : Type) where
  nodes : List (Node ν)
  links : List (Link μ)
  functions : List Text
  protocols : List Text
  targets : List Text
  changes : Changes

inductive Exn
  | keyError
  deriving DecidableEq

variable {ν μ : Type}

/-! ### Looking up -/

def findNodeByName (name : Text) (nodes : List (Node ν)) : Option (Node ν) :=
  nodes.find? fun nd => nd.name = name

/-- The endpoints of `link` are not looked at. -/
def findLinkByEndpoints (_link : Link μ) (jstatscol : ColLog ν μ) : Option (Link μ) :=
  jstatscol.links.find? fun lk =>
    (findNodeByName lk.sourceName jstatscol.nodes).isSome && (findNodeByName lk.targetName jstatscol.nodes).isSome

/-! ### The nodes -/

/-- The variables of the two loops over the nodes; an assignment to `node_name_id` goes to the front. -/
structure NodeLoop (ν : Type) where
  nodes : List (Node ν) := []
  nodeNameId : List (Text × Int) := []
  idx : Nat := 0
  nm : Nat := 0
  ni : Nat := 0
  ndl : Nat := 0

/-- `diffs` with one more difference. -/
def appendDiff (diffs : Option (List Difference)) (difrc : Difference) : Option (List Difference) :=
  some (diffs.getD [] ++ [difrc])

/-- A copy of `node` with the next id, added to the result. -/
def NodeLoop.add (s : NodeLoop ν) (frm to_ : Text) (node : Node ν) (diff : Change) : NodeLoop ν :=
  let rnd := { node with id := s.idx, diffs := appendDiff node.diffs ⟨frm, to_, diff⟩ }
  { s with
    nodes := s.nodes ++ [rnd]
    nodeNameId := (rnd.name, rnd.id) :: s.nodeNameId
    idx := s.idx + 1 }

/-- The body of the loop over the nodes of the first log. -/
def origNode (clg2 : ColLog ν μ) (frm to_ : Text) (s : NodeLoop ν) (orig : Node ν) : NodeLoop ν :=
  match findNodeByName orig.name clg2.nodes with
  | some other => { s.add frm to_ other .modified with nm := s.nm + 1 }
  | none => { s.add frm to_ orig .deleted with ndl := s.ndl + 1 }

/-- The body of the loop over the nodes of the second log. -/
def otherNode (clg1 : ColLog ν μ) (frm to_ : Text) (s : NodeLoop ν) (other : Node ν) : NodeLoop ν :=
  match findNodeByName other.name clg1.nodes with
  | some _ => s
  | none => { s.add frm to_ other .inserted with ni := s.ni + 1 }

def nodeLoops (clg1 clg2 : ColLog ν μ) (frm to_ : Text) : NodeLoop ν :=
  clg2.nodes.foldl (otherNode clg1 frm to_) (clg1.nodes.foldl (origNode clg2 frm to_) {})

/-! ### The links -/

def linkFootprint (link : Link μ) : Text := link.sourceName ++ '-' :: link.targetName

/-- `node_name_id[name]`. -/
def idOf (nodeNameId : List (Text × Int)) (name : Text) : Except Exn Int :=
  match nodeNameId.lookup name with
  | some id => .ok id
  | none => .error .keyError

/-- A copy of `lk` between the new ids. -/
def relink (nodeNameId : List (Text × Int)) (frm to_ : Text) (lk : Link μ) (diff : Change) :
    Except Exn (Link μ) := do
  let source ← idOf nodeNameId lk.sourceName
  let target ← idOf nodeNameId lk.targetName
  return { lk with source, target, diffs := appendDiff lk.diffs ⟨frm, to_, diff⟩ }

/-- The body of the loop over the links of the first log: the link that is added, if any. -/
def origLink (clg2 : ColLog ν μ) (nodeNameId : List (Text × Int)) (frm to_ : Text) (lk : Link μ) :
    Except Exn (Option (Link μ)) :=
  if (findLinkByEndpoints lk clg2).isSome then
    if (nodeNameId.lookup lk.sourceName).isSome && (nodeNameId.lookup lk.targetName).isSome then
      some <$> relink nodeNameId frm to_ lk .modified
    else .ok none
  else some <$> relink nodeNameId frm to_ lk .deleted

/-- The body of the loop over the links of the second log. -/
def otherLink (matchedLinks : List Text) (nodeNameId : List (Text × Int)) (frm to_ : Text) (lk : Link μ) :
    Except Exn (Option (Link μ)) :=
  if linkFootprint lk ∈ matchedLinks then .ok none else some <$> relink nodeNameId frm to_ lk .inserted

/-- `[x for x in set(..)]`, in some order. -/
def listOfSet (texts : List Text) : List Text := texts.dedup

/-- `lm`, `li` and `ld` are never counted up. The comparison of two nodes by `jsondiff` is left out: nothing reads
its result, and on dictionaries it is taken not to raise. -/
def diffColLogs (clg1 clg2 : ColLog ν μ) (frm to_ : Text) : Except Exn (Graph ν μ) := do
  let s := nodeLoops clg1 clg2 frm to_
  let orig := (← clg1.links.mapM (origLink clg2 s.nodeNameId frm to_)).filterMap id
  let other := (← clg2.links.mapM (otherLink (orig.map linkFootprint) s.nodeNameId frm to_)).filterMap id
  return {
    nodes := s.nodes
    links := orig ++ other
    functions := listOfSet (clg1.functions ++ clg2.functions)
    protocols := listOfSet (clg1.protocols ++ clg2.protocols)
    targets := listOfSet (clg1.targets ++ clg2.targets)
    changes := ⟨frm, to_, ⟨s.ni, s.nm, s.ndl⟩, ⟨0, 0, 0⟩⟩ }

end Armore.Web.ColDiff
