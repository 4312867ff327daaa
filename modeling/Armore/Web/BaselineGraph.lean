import Armore.Web.ColDiffGraph
import Armore.Web.ColGraph

/-!
# The graph of the baseline

`domains/lib/create_json_graph.py`: `process_stats_baseline_log` reads the log of the baseline twice. The
first loop collects the endpoints of all lines, with or without a protocol; a line that is too short for it
ends the import. The second puts the columns of each line at the end of the lists of its link, and skips a line
of fewer than fourteen columns. Every list of a link then has the column of each of its lines, in the order of
the file, so that the lines between two endpoints can be read off their link again (`links_readBaseline`).
-/

namespace Armore.Web.BaselineGraph

open Lib Lib.Text ColGraph

/-- A line of the log. -/
structure BaseRow where
  labels : Labels
  navg : Text
  nstd : Text
  bavg : Text
  bstd : Text
  ravg : Text
  rstd : Text
  davg : Text
  dstd : Text
  deriving DecidableEq

/-- An entry of `nodes_spec`. -/
structure NodeSpec where
  sCnt : Nat := 0
  rCnt : Nat := 0
  protocols : List Text := []
  sourceof : List Text := []
  targetof : List Text := []
  funcsrc : List Text := []
  funcdst : List Text := []
  targets : List Text := []
  nodetype : Text := "master".toList

/-- An entry of `links_spec`. -/
structure LinkSpec where
  cnt : Nat := 0
  proto : List Text := []
  func : List Text := []
  target : List Text := []
  uid : List Text := []
  navg : List Text := []
  nstd : List Text := []
  bavg : List Text := []
  bstd : List Text := []
  ravg : List Text := []
  rstd : List Text := []
  davg : List Text := []
  dstd : List Text := []

/-- The variables of the second loop. -/
structure Specs where
  nodesSpec : Table Text NodeSpec
  linksSpec : Table (Text × Text) LinkSpec
  protocols : List Text := []
  functions : List Text := []
  targets : List Text := []

/-- What the graph has of a node besides its number and name. -/
structure NodeRest where
  group : Nat
  nodeType : Text
  size : Nat
  sCnt : Nat
  rCnt : Nat
  protocols : List Text
  sourceof : List Text
  targetof : List Text
  funcsrc : List Text
  funcdst : List Text
  targets : List Text

/-- What the graph has of a link besides its endpoints. -/
structure LinkRest where
  id : Nat
  value : Nat
  protocol : List Text
  function : List Text
  target : List Text
  uid : List Text
  navg : List Text
  nstd : List Text
  bavg : List Text
  bstd : List Text
  ravg : List Text
  rstd : List Text
  davg : List Text
  dstd : List Text

abbrev BaseLog := ColDiff.ColLog NodeRest LinkRest

namespace Specs

def atNode (s : Specs) (name : Text) (f : NodeSpec → NodeSpec) : Specs :=
  { s with nodesSpec := s.nodesSpec.modify name f }

def atLink (s : Specs) (link : Text × Text) (f : LinkSpec → LinkSpec) : Specs :=
  { s with linksSpec := s.linksSpec.modify link f }

end Specs

/-! ### The two loops -/

/-- The body of the first loop; the protocol is only looked at for the message. -/
def endpoints (line : Text) : Except ParseExn (Option (Text × Text)) :=
  if startsWithHash line then .ok none
  else do
    let data := words line
    let _ ← getItem data 2
    return some (← getItem data 0, ← getItem data 1)

/-- The columns of a line; `data[SENDER:DELAY_STD+1]` must have all fourteen. -/
def baseRow (line : Text) : Except ParseExn (Option BaseRow) :=
  if startsWithHash line then .ok none
  else
    match (words line).take 14 with
    | [send, recv, proto, uid, func, target, navg, nstd, bavg, bstd, ravg, rstd, davg, dstd] =>
      .ok (some ⟨⟨send, recv, proto, uid, func, target⟩, navg, nstd, bavg, bstd, ravg, rstd, davg, dstd⟩)
    | _ => .error .valueError

/-- `x if x else '-'`. -/
def orDash (x : Text) : Text := if x = [] then ['-'] else x

namespace Specs

/-- The part of the second loop on the protocol. -/
def addProtocol (s : Specs) (send recv proto : Text) : Specs :=
  let s := s.atLink (send, recv) fun l => { l with proto := l.proto ++ [proto] }
  if proto ≠ ['-'] then
    let s := s.atNode send fun n => { n with protocols := n.protocols.insert proto }
    { s with protocols := appendNew s.protocols proto }
  else s

/-- The part on the function, which the protocol has been put before. -/
def addFunction (s : Specs) (send recv func : Text) : Specs :=
  let s := s.atLink (send, recv) fun l => { l with func := l.func ++ [func] }
  if func ≠ ['-'] then
    let s := s.atNode send fun n => { n with funcsrc := n.funcsrc.insert func }
    let s := s.atNode recv fun n => { n with funcdst := n.funcdst.insert func }
    { s with functions := appendNew s.functions func }
  else s

/-- The part on the target. At the node the protocol is put before it once more. -/
def addTarget (s : Specs) (send recv proto target : Text) : Specs :=
  let s := s.atLink (send, recv) fun l => { l with target := l.target ++ [target] }
  if target ≠ ['-'] then
    let s := { s with targets := appendNew s.targets target }
    let s := s.atNode send fun n => { n with sourceof := n.sourceof.insert recv }
    let s := s.atNode recv fun n => { n with targetof := n.targetof.insert send }
    s.atNode send fun n => { n with targets := n.targets.insert (proto ++ ':' :: target) }
  else s

/-- The part on the identifier and the averages. -/
def addAverages (s : Specs) (row : BaseRow) : Specs :=
  s.atLink (row.labels.sender, row.labels.receiver) fun l =>
    { l with
      uid := l.uid ++ [orDash row.labels.uid]
      navg := l.navg ++ [orDash row.navg]
      nstd := l.nstd ++ [orDash row.nstd]
      bavg := l.bavg ++ [orDash row.bavg]
      bstd := l.bstd ++ [orDash row.bstd]
      ravg := l.ravg ++ [orDash row.ravg]
      rstd := l.rstd ++ [orDash row.rstd]
      davg := l.davg ++ [orDash row.davg]
      dstd := l.dstd ++ [orDash row.dstd] }

/-- The body of the second loop. A `KeyError` ends it where it is raised. -/
def addRow (s : Specs) (row : BaseRow) : Specs :=
  let ⟨send, recv, proto, _, func, target⟩ := row.labels
  match s.nodesSpec.get? send with
  | none => s
  | some _ =>
    let s := s.atNode send fun n => { n with sCnt := n.sCnt + 1 }
    match s.nodesSpec.get? recv with
    | none => s
    | some _ =>
      let s := s.atNode recv fun n => { n with rCnt := n.rCnt + 1 }
      match s.linksSpec.get? (send, recv) with
      | none => s
      | some _ =>
        let s := s.atLink (send, recv) fun l => { l with cnt := l.cnt + 1 }
        let s := s.addProtocol send recv proto
        let s := s.addFunction send recv (proto ++ ':' :: func)
        let s := s.addTarget send recv proto (proto ++ ':' :: target)
        s.addAverages row

/-- The second loop on a line; what it raises is printed. -/
def addLine (s : Specs) (line : Text) : Specs :=
  match baseRow line with
  | .ok (some row) => s.addRow row
  | _ => s

end Specs

/-! ### The graph -/

/-- An entry of `j_nodes`. -/
def jNode (s : Specs) (i : Nat) (node : Text) : ColDiff.Node NodeRest :=
  let spec := (s.nodesSpec.get? node).getD {}
  { id := i
    name := node
    rest :=
      { group := 1
        nodeType := spec.nodetype
        size := spec.sCnt + spec.rCnt
        sCnt := spec.sCnt
        rCnt := spec.rCnt
        protocols := sorted spec.protocols
        sourceof := sorted spec.sourceof
        targetof := sorted spec.targetof
        funcsrc := sorted spec.funcsrc
        funcdst := sorted spec.funcdst
        targets := sorted spec.targets } }

/-- What an entry of `j_links` has besides the endpoints. -/
def LinkSpec.rest (spec : LinkSpec) (j : Nat) : LinkRest where
  id := j
  value := spec.cnt
  protocol := spec.proto
  function := spec.func
  target := spec.target
  uid := spec.uid
  navg := spec.navg
  nstd := spec.nstd
  bavg := spec.bavg
  bstd := spec.bstd
  ravg := spec.ravg
  rstd := spec.rstd
  davg := spec.davg
  dstd := spec.dstd

/-- An entry of `j_links`; `nodes.index` raises for a name that is not there. -/
def jLink (s : Specs) (nodes : List Text) (j : Nat) (link : Text × Text) : Option (ColDiff.Link LinkRest) := do
  let spec ← s.linksSpec.get? link
  let source ← nodes.idxOf? link.1
  let target ← nodes.idxOf? link.2
  return {
    source := source
    target := target
    sourceName := link.1
    targetName := link.2
    rest := spec.rest j }

/-- The loop over the links, which counts those it has added. -/
def jLinks (s : Specs) (nodes : List Text) (links : List (Text × Text)) : List (ColDiff.Link LinkRest) :=
  links.foldl (fun js link => js ++ (jLink s nodes js.length link).toList) []

/-- The counters before the second loop. -/
def startSpecs (nodes : List Text) (links : List (Text × Text)) : Specs where
  nodesSpec := nodes.foldl (fun t node => t.put node {}) ∅
  linksSpec := links.foldl (fun t link => t.put link {}) ∅

/-- `process_stats_baseline_log` on the lines of a file that is there, up to the dictionary it stores: the names
of the children of `jtree`, and `jgraph`, where `none` is the empty dictionary. -/
def readBaseline (texts : SetOrder Text) (pairs : SetOrder (Text × Text)) (lines : List Text) :
    Except ParseExn (List Text × Option BaseLog) := do
  let found := (← lines.mapM endpoints).filterMap fun link => link
  let nodes := texts.list (found.flatMap fun link => [link.1, link.2]).dedup
  let links := pairs.list found.dedup
  let specs := lines.foldl Specs.addLine (startSpecs nodes links)
  let jnodes := nodes.zipIdx.map fun entry => jNode specs entry.2 entry.1
  let jlinks := jLinks specs nodes links
  let children := jlinks.map ColDiff.Link.sourceName
  if jnodes ≠ [] ∧ jlinks ≠ [] then
    return (children, some {
      nodes := jnodes
      links := jlinks
      protocols := specs.protocols
      functions := specs.functions
      targets := specs.targets })
  else return (children, none)

/-! ### What a row changes -/

/-- The endpoints of a row. -/
def pairOf (row : BaseRow) : Text × Text := (row.labels.sender, row.labels.receiver)

/-- What is kept of a link whose lines are the given ones. -/
def linkSpec (rows : List BaseRow) : LinkSpec where
  cnt := rows.length
  proto := rows.map fun row => row.labels.protocol
  func := rows.map fun row => row.labels.protocol ++ ':' :: row.labels.func
  target := rows.map fun row => row.labels.protocol ++ ':' :: row.labels.target
  uid := rows.map fun row => orDash row.labels.uid
  navg := rows.map fun row => orDash row.navg
  nstd := rows.map fun row => orDash row.nstd
  bavg := rows.map fun row => orDash row.bavg
  bstd := rows.map fun row => orDash row.bstd
  ravg := rows.map fun row => orDash row.ravg
  rstd := rows.map fun row => orDash row.rstd
  davg := rows.map fun row => orDash row.davg
  dstd := rows.map fun row => orDash row.dstd

/-- A row at the end of each list. -/
def LinkSpec.add (spec : LinkSpec) (row : BaseRow) : LinkSpec where
  cnt := spec.cnt + 1
  proto := spec.proto ++ [row.labels.protocol]
  func := spec.func ++ [row.labels.protocol ++ ':' :: row.labels.func]
  target := spec.target ++ [row.labels.protocol ++ ':' :: row.labels.target]
  uid := spec.uid ++ [orDash row.labels.uid]
  navg := spec.navg ++ [orDash row.navg]
  nstd := spec.nstd ++ [orDash row.nstd]
  bavg := spec.bavg ++ [orDash row.bavg]
  bstd := spec.bstd ++ [orDash row.bstd]
  ravg := spec.ravg ++ [orDash row.ravg]
  rstd := spec.rstd ++ [orDash row.rstd]
  davg := spec.davg ++ [orDash row.davg]
  dstd := spec.dstd ++ [orDash row.dstd]

theorem LinkSpec.rest_injective {spec spec' : LinkSpec} {j : Nat} (h : spec.rest j = spec'.rest j) : spec = spec' := by
  cases spec
  cases spec'
  simp only [rest, LinkRest.mk.injEq, true_and] at h
  simp only [mk.injEq]
  exact h

theorem linkSpec_concat (rows : List BaseRow) (row : BaseRow) :
    linkSpec (rows ++ [row]) = (linkSpec rows).add row := by
  simp [linkSpec, LinkSpec.add]

/-- The lines between two endpoints. -/
def between (rows : List BaseRow) (pair : Text × Text) : List BaseRow := rows.filter fun row => pairOf row = pair

theorem between_concat (rows : List BaseRow) (row : BaseRow) (pair : Text × Text) :
    between (rows ++ [row]) pair = if pair = pairOf row then between rows pair ++ [row] else between rows pair := by
  rw [between, List.filter_append]
  split
  next hpair => rw [List.filter_cons_of_pos (by simp [hpair]), List.filter_nil, between]
  next hpair =>
    rw [List.filter_cons_of_neg (by simpa using fun h : pairOf row = pair => hpair h.symm), List.filter_nil,
      List.append_nil, between]

namespace Specs

variable {s : Specs} {send recv proto func target : Text} {row : BaseRow} {nodes : List Text}
  {links : List (Text × Text)} {done : List BaseRow}

@[simp] theorem linksSpec_atNode (name : Text) (f : NodeSpec → NodeSpec) :
    (s.atNode name f).linksSpec = s.linksSpec := rfl

@[simp] theorem isSome_atNode (name : Text) (f : NodeSpec → NodeSpec) (n : Text) :
    ((s.atNode name f).nodesSpec.get? n).isSome = (s.nodesSpec.get? n).isSome := by
  unfold atNode
  rw [Table.get?_modify]
  split
  · exact Option.isSome_map
  · rfl

@[simp] theorem nodesSpec_atLink (link : Text × Text) (f : LinkSpec → LinkSpec) :
    (s.atLink link f).nodesSpec = s.nodesSpec := rfl

@[simp] theorem isSome_addProtocol (n : Text) :
    ((s.addProtocol send recv proto).nodesSpec.get? n).isSome = (s.nodesSpec.get? n).isSome := by
  unfold addProtocol
  split
  · exact isSome_atNode _ _ n
  · rfl

@[simp] theorem isSome_addFunction (n : Text) :
    ((s.addFunction send recv func).nodesSpec.get? n).isSome = (s.nodesSpec.get? n).isSome := by
  unfold addFunction
  split
  · exact (isSome_atNode _ _ n).trans (isSome_atNode _ _ n)
  · rfl

@[simp] theorem isSome_addTarget (n : Text) :
    ((s.addTarget send recv proto target).nodesSpec.get? n).isSome = (s.nodesSpec.get? n).isSome := by
  unfold addTarget
  split
  · exact (isSome_atNode _ _ n).trans ((isSome_atNode _ _ n).trans (isSome_atNode _ _ n))
  · rfl

theorem linksSpec_addProtocol : (s.addProtocol send recv proto).linksSpec
    = s.linksSpec.modify (send, recv) fun l => { l with proto := l.proto ++ [proto] } := by
  unfold addProtocol
  split <;> rfl

theorem linksSpec_addFunction : (s.addFunction send recv func).linksSpec
    = s.linksSpec.modify (send, recv) fun l => { l with func := l.func ++ [func] } := by
  unfold addFunction
  split <;> rfl

theorem linksSpec_addTarget : (s.addTarget send recv proto target).linksSpec
    = s.linksSpec.modify (send, recv) fun l => { l with target := l.target ++ [target] } := by
  unfold addTarget
  split <;> rfl

/-- The endpoints of a row are nodes, with a link between them. -/
structure Knows (s : Specs) (row : BaseRow) : Prop where
  sender : (s.nodesSpec.get? row.labels.sender).isSome
  receiver : (s.nodesSpec.get? row.labels.receiver).isSome
  link : (s.linksSpec.get? (pairOf row)).isSome

theorem addRow_eq (hknows : s.Knows row) :
    s.addRow row = ((((((s.atNode row.labels.sender fun n => { n with sCnt := n.sCnt + 1 }).atNode row.labels.receiver
      fun n => { n with rCnt := n.rCnt + 1 }).atLink (pairOf row) fun l => { l with cnt := l.cnt + 1 }).addProtocol
        row.labels.sender row.labels.receiver row.labels.protocol).addFunction row.labels.sender row.labels.receiver
          (row.labels.protocol ++ ':' :: row.labels.func)).addTarget row.labels.sender row.labels.receiver
            row.labels.protocol (row.labels.protocol ++ ':' :: row.labels.target)).addAverages row := by
  obtain ⟨⟨send, recv, proto, uid, func, target⟩, navg, nstd, bavg, bstd, ravg, rstd, davg, dstd⟩ := row
  obtain ⟨first, hfirst⟩ := Option.isSome_iff_exists.mp hknows.sender
  have hreceiver : ((s.atNode send fun n => { n with sCnt := n.sCnt + 1 }).nodesSpec.get? recv).isSome := by
    rw [isSome_atNode]
    exact hknows.receiver
  obtain ⟨second, hsecond⟩ := Option.isSome_iff_exists.mp hreceiver
  obtain ⟨third, hthird⟩ := Option.isSome_iff_exists.mp hknows.link
  have hthird : s.linksSpec.get? (send, recv) = some third := hthird
  dsimp only at hfirst
  simp only [addRow, hfirst, hsecond, linksSpec_atNode, hthird, pairOf]

/-- **A row goes to the end of the lists of its link.** -/
theorem linksSpec_addRow (hknows : s.Knows row) (l : Text × Text) :
    (s.addRow row).linksSpec.get? l
      = if l = pairOf row then (s.linksSpec.get? l).map fun spec => spec.add row else s.linksSpec.get? l := by
  rw [addRow_eq hknows]
  unfold addAverages atLink
  simp only [linksSpec_addTarget, linksSpec_addFunction, linksSpec_addProtocol, linksSpec_atNode, Table.get?_modify]
  by_cases hpair : l = pairOf row
  · have hsame : l = (row.labels.sender, row.labels.receiver) := hpair
    simp only [if_pos hsame, if_pos hpair, Option.map_map]
    rfl
  · have hother : l ≠ (row.labels.sender, row.labels.receiver) := hpair
    simp only [if_neg hother, if_neg hpair]

theorem isSome_nodesSpec_addRow (hknows : s.Knows row) (n : Text) :
    ((s.addRow row).nodesSpec.get? n).isSome = (s.nodesSpec.get? n).isSome := by
  rw [addRow_eq hknows]
  simp only [addAverages, nodesSpec_atLink, isSome_addTarget, isSome_addFunction, isSome_addProtocol, isSome_atNode]

/-- The nodes and links are those found, and the links have the rows read so far. -/
structure Reads (nodes : List Text) (links : List (Text × Text)) (done : List BaseRow) (s : Specs) : Prop where
  nodes : ∀ n ∈ nodes, (s.nodesSpec.get? n).isSome
  links : ∀ l ∈ links, s.linksSpec.get? l = some (linkSpec (between done l))

theorem Reads.knows (h : Reads nodes links done s) (hsender : row.labels.sender ∈ nodes)
    (hreceiver : row.labels.receiver ∈ nodes) (hlink : pairOf row ∈ links) : s.Knows row :=
  ⟨h.nodes _ hsender, h.nodes _ hreceiver, by rw [h.links _ hlink]; rfl⟩

theorem Reads.addRow (h : Reads nodes links done s) (hknows : s.Knows row) :
    Reads nodes links (done ++ [row]) (s.addRow row) where
  nodes n hn := by
    rw [isSome_nodesSpec_addRow hknows]
    exact h.nodes n hn
  links l hl := by
    rw [linksSpec_addRow hknows, h.links l hl, between_concat]
    split
    · rw [linkSpec_concat]
      rfl
    · rfl

theorem Reads.foldl {rows : List BaseRow} (h : Reads nodes links done s)
    (hrows : ∀ row ∈ rows, row.labels.sender ∈ nodes ∧ row.labels.receiver ∈ nodes ∧ pairOf row ∈ links) :
    Reads nodes links (done ++ rows) (rows.foldl Specs.addRow s) := by
  induction rows generalizing done s with
  | nil =>
      rw [List.append_nil]
      exact h
  | cons row rows ih =>
      obtain ⟨hsender, hreceiver, hlink⟩ := hrows row List.mem_cons_self
      have hrest := ih (h.addRow (h.knows hsender hreceiver hlink)) fun other hother =>
        hrows other (List.mem_cons_of_mem row hother)
      rw [List.append_assoc, List.singleton_append] at hrest
      exact hrest

end Specs

/-! ### The lines of the file -/

/-- The row that the second loop takes from a line. -/
def rowOf (line : Text) : Option BaseRow :=
  match baseRow line with
  | .ok row => row
  | .error _ => none

def rowsOf (lines : List Text) : List BaseRow := lines.filterMap rowOf

theorem foldl_addLine (lines : List Text) (s : Specs) :
    lines.foldl Specs.addLine s = (rowsOf lines).foldl Specs.addRow s := by
  rw [rowsOf, List.foldl_filterMap]
  congr 1
  funext s line
  unfold Specs.addLine rowOf
  cases baseRow line with
  | error _ => rfl
  | ok row =>
      cases row with
      | none => rfl
      | some row => rfl

/-- The columns of a row are the first fourteen words of its line. -/
theorem words_of_rowOf {line : Text} {row : BaseRow} (h : rowOf line = some row) :
    startsWithHash line = false ∧ (words line).take 14
      = row.labels.columns ++ [row.navg, row.nstd, row.bavg, row.bstd, row.ravg, row.rstd, row.davg, row.dstd] := by
  unfold rowOf baseRow at h
  by_cases hhash : startsWithHash line = true
  · rw [if_pos hhash] at h
    cases h
  · refine ⟨Bool.eq_false_iff.mpr hhash, ?_⟩
    rw [if_neg hhash] at h
    split at h
    next hrow =>
      split at hrow
      next hcolumns =>
        obtain rfl := Except.ok.inj hrow
        obtain rfl := Option.some.inj h
        rw [hcolumns]
        rfl
      next => cases hrow
    next => cases h

/-- The first loop finds the endpoints of every row. -/
theorem endpoints_of_rowOf {line : Text} {row : BaseRow} (h : rowOf line = some row) :
    endpoints line = .ok (some (pairOf row)) := by
  obtain ⟨hhash, hcolumns⟩ := words_of_rowOf h
  have hget : ∀ i < 14, (words line)[i]? = (row.labels.columns ++ [row.navg, row.nstd, row.bavg, row.bstd, row.ravg,
      row.rstd, row.davg, row.dstd])[i]? := by
    intro i hi
    rw [← hcolumns, List.getElem?_take_of_lt hi]
  have hitem : ∀ i < 14, getItem (words line) i = getItem (row.labels.columns ++ [row.navg, row.nstd, row.bavg,
      row.bstd, row.ravg, row.rstd, row.davg, row.dstd]) i := by
    intro i hi
    rw [getItem, hget i hi, getItem]
  rw [endpoints, if_neg (by rw [hhash]; decide)]
  dsimp only
  rw [hitem 2 (by decide), hitem 0 (by decide), hitem 1 (by decide)]
  rfl

theorem pairOf_mem {lines : List Text} {found : List (Option (Text × Text))} (h : lines.mapM endpoints = .ok found)
    {row : BaseRow} (hrow : row ∈ rowsOf lines) : some (pairOf row) ∈ found := by
  obtain ⟨line, hline, hrow⟩ := List.mem_filterMap.mp hrow
  exact (mem_mapM_ok h).mpr ⟨line, hline, endpoints_of_rowOf hrow⟩

/-! ### What the graph has -/

/-- What a loop has added that counts what it adds. -/
theorem mem_collect {α β : Type} {f : Nat → α → Option β} {xs : List α} {y : β}
    (h : y ∈ xs.foldl (fun ys x => ys ++ (f ys.length x).toList) []) : ∃ x ∈ xs, ∃ i, f i x = some y := by
  induction xs using List.reverseRecOn with
  | nil => exact absurd h List.not_mem_nil
  | append_singleton xs x ih =>
      rw [List.foldl_append, List.foldl_cons, List.foldl_nil] at h
      rcases List.mem_append.mp h with hmem | hmem
      · obtain ⟨x', hx', hy⟩ := ih hmem
        exact ⟨x', List.mem_append_left _ hx', hy⟩
      · exact ⟨x, by simp, _, Option.mem_toList.mp hmem⟩

section

variable {s : Specs} {nodes : List Text} {ls : List (Text × Text)} {link : ColDiff.Link LinkRest}

theorem jLinks_concat (s : Specs) (nodes : List Text) (ls : List (Text × Text)) (l : Text × Text) :
    jLinks s nodes (ls ++ [l]) = jLinks s nodes ls ++ (jLink s nodes (jLinks s nodes ls).length l).toList :=
  List.foldl_concat ..

/-- A link of the graph is that of one pair. -/
theorem mem_jLinks (h : link ∈ jLinks s nodes ls) : ∃ l ∈ ls, ∃ j, jLink s nodes j l = some link := mem_collect h

/-- What a link of the graph says of its pair. -/
theorem of_jLink {l : Text × Text} {j : Nat} (h : jLink s nodes j l = some link) :
    ∃ spec, s.linksSpec.get? l = some spec ∧ l.1 ∈ nodes ∧ l.2 ∈ nodes ∧ ColDiff.endpoints link = l
      ∧ link.rest = spec.rest j := by
  obtain ⟨spec, hspec, h⟩ := Option.bind_eq_some_iff.mp h
  obtain ⟨source, hsource, h⟩ := Option.bind_eq_some_iff.mp h
  obtain ⟨target, htarget, h⟩ := Option.bind_eq_some_iff.mp h
  obtain rfl := Option.some.inj h
  have hmem : ∀ {name : Text} {i : Nat}, nodes.idxOf? name = some i → name ∈ nodes := by
    intro name i hi
    exact List.isSome_idxOf?.mp (by rw [hi]; rfl)
  exact ⟨spec, hspec, hmem hsource, hmem htarget, rfl, rfl⟩

theorem exists_jLink {l : Text × Text} (hspec : (s.linksSpec.get? l).isSome) (hsource : l.1 ∈ nodes)
    (htarget : l.2 ∈ nodes) (j : Nat) : ∃ link, jLink s nodes j l = some link := by
  obtain ⟨spec, hspec⟩ := Option.isSome_iff_exists.mp hspec
  obtain ⟨source, hsource⟩ := Option.isSome_iff_exists.mp (List.isSome_idxOf?.mpr hsource)
  obtain ⟨target, htarget⟩ := Option.isSome_iff_exists.mp (List.isSome_idxOf?.mpr htarget)
  simp only [jLink, hspec, hsource, htarget, Option.bind_eq_bind, Option.bind_some, Option.pure_def]
  exact ⟨_, rfl⟩

/-- Each pair of nodes has one link. -/
theorem endpoints_jLinks (h : ∀ l ∈ ls, (s.linksSpec.get? l).isSome ∧ l.1 ∈ nodes ∧ l.2 ∈ nodes) :
    (jLinks s nodes ls).map ColDiff.endpoints = ls := by
  induction ls using List.reverseRecOn with
  | nil => rfl
  | append_singleton ls l ih =>
      rw [List.forall_mem_append] at h
      obtain ⟨hspec, hsource, htarget⟩ := h.2 l List.mem_cons_self
      obtain ⟨link, hlink⟩ := exists_jLink hspec hsource htarget (jLinks s nodes ls).length
      obtain ⟨_, _, _, _, hends, _⟩ := of_jLink hlink
      rw [jLinks_concat, hlink, List.map_append, ih h.1, Option.toList_some, List.map_singleton, hends]

end

/-- The graph of a file whose lines have the given endpoints. -/
def graph (texts : SetOrder Text) (pairs : SetOrder (Text × Text)) (found : List (Text × Text)) (lines : List Text) :
    BaseLog :=
  let nodes := texts.list (found.flatMap fun link => [link.1, link.2]).dedup
  let links := pairs.list found.dedup
  let specs := lines.foldl Specs.addLine (startSpecs nodes links)
  { nodes := nodes.zipIdx.map fun entry => jNode specs entry.2 entry.1
    links := jLinks specs nodes links
    protocols := specs.protocols
    functions := specs.functions
    targets := specs.targets }

section

variable {texts : SetOrder Text} {pairs : SetOrder (Text × Text)} {lines children : List Text} {g : BaseLog}

theorem readBaseline_ok (h : readBaseline texts pairs lines = .ok (children, some g)) :
    ∃ found, lines.mapM endpoints = .ok found ∧ g = graph texts pairs (found.filterMap fun link => link) lines := by
  obtain ⟨found, hfound, h⟩ := bind_ok.mp h
  refine ⟨found, hfound, ?_⟩
  dsimp only at h
  split at h
  · exact (Option.some.inj (Prod.ext_iff.mp (Except.ok.inj h)).2).symm
  · cases Except.ok.inj h

/-- The graph has the lines of the file: those between the endpoints of a link are in its lists, and every line
is at one link. -/
structure Holds (lines : List Text) (g : BaseLog) : Prop where
  rest : ∀ link ∈ g.links,
    link.rest = (linkSpec (between (rowsOf lines) (ColDiff.endpoints link))).rest link.rest.id
  covered : ∀ row ∈ rowsOf lines, pairOf row ∈ g.pairs
  once : g.pairs.Nodup

/-- What the second loop leaves, where it knows the endpoints of every row. -/
theorem reads_foldl {nodes : List Text} {links : List (Text × Text)}
    (hrows : ∀ row ∈ rowsOf lines, row.labels.sender ∈ nodes ∧ row.labels.receiver ∈ nodes ∧ pairOf row ∈ links) :
    Specs.Reads nodes links (rowsOf lines) (lines.foldl Specs.addLine (startSpecs nodes links)) := by
  have hstart : Specs.Reads nodes links [] (startSpecs nodes links) := by
    refine ⟨fun n hn => ?_, fun l hl => ?_⟩
    · rw [startSpecs, Table.get?_foldl_put, if_pos hn]
      rfl
    · rw [startSpecs, Table.get?_foldl_put, if_pos hl]
      rfl
  rw [foldl_addLine]
  exact hstart.foldl hrows

variable (texts pairs) in
theorem mem_list_endpoints {found : List (Text × Text)} {l : Text × Text} (hl : l ∈ pairs.list found.dedup) :
    l.1 ∈ texts.list (found.flatMap fun link => [link.1, link.2]).dedup
      ∧ l.2 ∈ texts.list (found.flatMap fun link => [link.1, link.2]).dedup := by
  rw [(pairs.perm _).mem_iff, List.mem_dedup] at hl
  rw [(texts.perm _).mem_iff, (texts.perm _).mem_iff, List.mem_dedup, List.mem_dedup, List.mem_flatMap, List.mem_flatMap]
  exact ⟨⟨l, hl, List.mem_cons_self⟩, ⟨l, hl, by simp⟩⟩

/-- **The graph of the baseline has all lines of the file.** -/
theorem holds_readBaseline (h : readBaseline texts pairs lines = .ok (children, some g)) : Holds lines g := by
  obtain ⟨found, hfound, rfl⟩ := readBaseline_ok h
  have hlinks : ∀ row ∈ rowsOf lines, pairOf row ∈ pairs.list (found.filterMap fun link => link).dedup := by
    intro row hrow
    rw [(pairs.perm _).mem_iff, List.mem_dedup, List.mem_filterMap]
    exact ⟨_, pairOf_mem hfound hrow, rfl⟩
  have hreads := reads_foldl fun row hrow =>
    ⟨(mem_list_endpoints texts pairs (hlinks row hrow)).1, (mem_list_endpoints texts pairs (hlinks row hrow)).2,
      hlinks row hrow⟩
  have hpairs : (graph texts pairs (found.filterMap fun link => link) lines).pairs
      = pairs.list (found.filterMap fun link => link).dedup := by
    refine endpoints_jLinks fun l hl => ⟨?_, mem_list_endpoints texts pairs hl⟩
    rw [hreads.links l hl]
    rfl
  refine ⟨fun link hlink => ?_, fun row hrow => ?_, ?_⟩
  · obtain ⟨l, hl, j, hj⟩ := mem_jLinks hlink
    obtain ⟨spec, hspec, _, _, hends, hrest⟩ := of_jLink hj
    rw [hreads.links l hl] at hspec
    obtain rfl := Option.some.inj hspec
    rw [hrest, hends]
    rfl
  · rw [hpairs]
    exact hlinks row hrow
  · rw [hpairs]
    exact (pairs.perm _).nodup_iff.mpr (List.nodup_dedup _)

variable (texts pairs lines) in
theorem names_graph (found : List (Text × Text)) :
    (graph texts pairs found lines).names = texts.list (found.flatMap fun link => [link.1, link.2]).dedup := by
  rw [ColDiff.ColLog.names, graph, List.map_map]
  exact (List.map_congr_left fun _ _ => rfl).trans (List.zipIdx_map_fst 0 _)

theorem wellFormed_readBaseline (h : readBaseline texts pairs lines = .ok (children, some g)) : g.WellFormed := by
  obtain ⟨found, hfound, rfl⟩ := readBaseline_ok h
  refine ⟨?_, fun link hlink => ?_⟩
  · rw [names_graph]
    exact (texts.perm _).nodup_iff.mpr (List.nodup_dedup _)
  · obtain ⟨l, hl, j, hj⟩ := mem_jLinks hlink
    obtain ⟨_, _, hsource, htarget, rfl, _⟩ := of_jLink hj
    rw [names_graph]
    exact ⟨hsource, htarget⟩

end

/-! ### Reading the lines back -/

/-- The columns of a row are words. -/
def Filled (row : BaseRow) : Prop :=
  row.labels.uid ≠ [] ∧ row.navg ≠ [] ∧ row.nstd ≠ [] ∧ row.bavg ≠ [] ∧ row.bstd ≠ [] ∧ row.ravg ≠ []
    ∧ row.rstd ≠ [] ∧ row.davg ≠ [] ∧ row.dstd ≠ []

theorem filled_of_mem {lines : List Text} {row : BaseRow} (h : row ∈ rowsOf lines) : Filled row := by
  obtain ⟨line, _, hrow⟩ := List.mem_filterMap.mp h
  have hwords : ∀ word ∈ row.labels.columns ++ [row.navg, row.nstd, row.bavg, row.bstd, row.ravg, row.rstd, row.davg,
      row.dstd], word ≠ [] := by
    intro word hword
    rw [← (words_of_rowOf hrow).2] at hword
    exact of_decide_eq_true (List.mem_filter.mp (List.mem_of_mem_take hword)).2
  exact ⟨hwords _ (by simp [Labels.columns]), hwords _ (by simp), hwords _ (by simp), hwords _ (by simp),
    hwords _ (by simp), hwords _ (by simp), hwords _ (by simp), hwords _ (by simp), hwords _ (by simp)⟩

theorem orDash_inj {x y : Text} (hx : x ≠ []) (hy : y ≠ []) (h : orDash x = orDash y) : x = y := by
  rwa [orDash, if_neg hx, orDash, if_neg hy] at h

/-- The columns of a row and its endpoints tell the row. -/
theorem eq_of_linkSpec_singleton {row row' : BaseRow} (hpair : pairOf row = pairOf row') (hrow : Filled row)
    (hrow' : Filled row') (h : linkSpec [row] = linkSpec [row']) : row = row' := by
  obtain ⟨⟨send, recv, proto, uid, func, target⟩, navg, nstd, bavg, bstd, ravg, rstd, davg, dstd⟩ := row
  obtain ⟨⟨send', recv', proto', uid', func', target'⟩, navg', nstd', bavg', bstd', ravg', rstd', davg', dstd'⟩ := row'
  obtain ⟨huid₁, hnavg₁, hnstd₁, hbavg₁, hbstd₁, hravg₁, hrstd₁, hdavg₁, hdstd₁⟩ := hrow
  obtain ⟨huid₂, hnavg₂, hnstd₂, hbavg₂, hbstd₂, hravg₂, hrstd₂, hdavg₂, hdstd₂⟩ := hrow'
  simp only [linkSpec, LinkSpec.mk.injEq, List.map_cons, List.map_nil, List.cons.injEq, and_true] at h
  obtain ⟨_, hproto, hfunc, htarget, huid, hnavg, hnstd, hbavg, hbstd, hravg, hrstd, hdavg, hdstd⟩ := h
  obtain rfl : send = send' := (Prod.ext_iff.mp hpair).1
  obtain rfl : recv = recv' := (Prod.ext_iff.mp hpair).2
  obtain rfl : proto = proto' := hproto
  obtain rfl : func = func' := (List.cons.inj (List.append_cancel_left hfunc)).2
  obtain rfl : target = target' := (List.cons.inj (List.append_cancel_left htarget)).2
  obtain rfl := orDash_inj huid₁ huid₂ huid
  obtain rfl := orDash_inj hnavg₁ hnavg₂ hnavg
  obtain rfl := orDash_inj hnstd₁ hnstd₂ hnstd
  obtain rfl := orDash_inj hbavg₁ hbavg₂ hbavg
  obtain rfl := orDash_inj hbstd₁ hbstd₂ hbstd
  obtain rfl := orDash_inj hravg₁ hravg₂ hravg
  obtain rfl := orDash_inj hrstd₁ hrstd₂ hrstd
  obtain rfl := orDash_inj hdavg₁ hdavg₂ hdavg
  obtain rfl := orDash_inj hdstd₁ hdstd₂ hdstd
  rfl

theorem linkSpec_cons_inj {row row' : BaseRow} {rows rows' : List BaseRow}
    (h : linkSpec (row :: rows) = linkSpec (row' :: rows')) :
    linkSpec [row] = linkSpec [row'] ∧ linkSpec rows = linkSpec rows' := by
  simp only [linkSpec, LinkSpec.mk.injEq, List.length_cons, List.map_cons, List.map_nil, List.cons.injEq, and_true,
    Nat.succ.injEq] at h ⊢
  tauto

/-- The columns at a link tell the rows between its endpoints. -/
theorem linkSpec_injective {pair : Text × Text} {rows rows' : List BaseRow}
    (hrows : ∀ row ∈ rows, pairOf row = pair ∧ Filled row) (hrows' : ∀ row ∈ rows', pairOf row = pair ∧ Filled row)
    (h : linkSpec rows = linkSpec rows') : rows = rows' := by
  induction rows generalizing rows' with
  | nil => exact (List.length_eq_zero_iff.mp (congrArg LinkSpec.cnt h).symm).symm
  | cons row rows ih =>
      cases rows' with
      | nil => cases congrArg LinkSpec.cnt h
      | cons row' rows' =>
          rw [List.forall_mem_cons] at hrows hrows'
          obtain ⟨hhead, htail⟩ := linkSpec_cons_inj h
          rw [eq_of_linkSpec_singleton (hrows.1.1.trans hrows'.1.1.symm) hrows.1.2 hrows'.1.2 hhead,
            ih hrows.2 hrows'.2 htail]

theorem mem_between {rows : List BaseRow} {pair : Text × Text} {row : BaseRow} :
    row ∈ between rows pair ↔ row ∈ rows ∧ pairOf row = pair := by
  rw [between, List.mem_filter, decide_eq_true_eq]

/-- **Nothing of the log is lost.** The graph has all lines of the file, each at one link, and two files with
the same graph have the same lines between any two endpoints, in the same order. -/
theorem readBaseline_lossless {texts : SetOrder Text} {pairs : SetOrder (Text × Text)} {lines children : List Text}
    {g : BaseLog} (h : readBaseline texts pairs lines = .ok (children, some g)) :
    Holds lines g ∧ ∀ {texts' : SetOrder Text} {pairs' : SetOrder (Text × Text)} {lines' children' : List Text},
      readBaseline texts' pairs' lines' = .ok (children', some g) →
        ∀ pair, between (rowsOf lines) pair = between (rowsOf lines') pair := by
  have hholds := holds_readBaseline h
  refine ⟨hholds, fun h' pair => ?_⟩
  have hholds' := holds_readBaseline h'
  by_cases hpair : pair ∈ g.pairs
  · obtain ⟨link, hlink, rfl⟩ := List.mem_map.mp hpair
    have hfilled : ∀ {file : List Text}, ∀ row ∈ between (rowsOf file) (ColDiff.endpoints link),
        pairOf row = ColDiff.endpoints link ∧ Filled row := by
      intro file row hrow
      obtain ⟨hrow, hends⟩ := mem_between.mp hrow
      exact ⟨hends, filled_of_mem hrow⟩
    have hrest := (hholds.rest link hlink).symm.trans (hholds'.rest link hlink)
    exact linkSpec_injective hfilled hfilled (LinkSpec.rest_injective hrest)
  · have hnone : ∀ {rows : List BaseRow}, (∀ row ∈ rows, pairOf row ∈ g.pairs) → between rows pair = [] := by
      intro rows hrows
      rw [between, List.filter_eq_nil_iff]
      intro row hrow hends
      exact hpair (of_decide_eq_true hends ▸ hrows row hrow)
    rw [hnone hholds.covered, hnone hholds'.covered]

/-- The order in which the elements come. -/
def asListed (α : Type) : SetOrder α := ⟨id, fun xs => List.Perm.refl xs⟩

/-- A comment, two lines between the same endpoints, and a line that is too short for the second loop. -/
def readBase : List Text :=
  ["#fields\tsender\treceiver".toList, "m s modbus 1 READ x 4 0 10 0 1 0 2 0".toList,
    "m s modbus 1 WRITE x 2 1 8 0 1 0 3 1".toList, "s m -".toList]

/-- The endpoints of the lines of `readBase`. -/
def readBasePairs : List (Text × Text) := [(['m'], ['s']), (['m'], ['s']), (['s'], ['m'])]

/-- The graph of `readBase`. -/
def readBaseGraph : BaseLog := graph (asListed Text) (asListed (Text × Text)) readBasePairs readBase

theorem readBaseline_readBase :
    readBaseline (asListed Text) (asListed (Text × Text)) readBase = .ok ([['m'], ['s']], some readBaseGraph) := rfl

theorem readBaseline_lossless_readBase : Holds readBase readBaseGraph ∧ (rowsOf readBase).length = 2 :=
  ⟨(readBaseline_lossless readBaseline_readBase).1, rfl⟩

end Armore.Web.BaselineGraph
