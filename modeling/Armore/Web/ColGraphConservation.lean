import Armore.Lib.Fibers
import Armore.Web.ColGraph

/-!
# What the graph of the connections conserves

The lines of Modbus and DNP3 are counted once as sent, once as received and once on a link, the links are
those of the lines with a protocol, and what is listed at a node or link is listed for the whole graph. The
last fails for the targets of the nodes, where the protocol is put before the target twice.
-/

namespace Armore.Web.ColGraph

open Lib Lib.Text

/-- The lines of a log: comments, or nine fields. -/
structure Log where
  lines : List Text
  fields : ∀ line ∈ lines, startsWithHash line ∨ (words line).length = 9

/-- What the second loop takes from a line. -/
def rowOf (line : Text) : Option ColRow :=
  match processStatsCol line with
  | .ok row => row
  | .error _ => none

namespace Log

variable (log : Log)

/-- The lines with a protocol. -/
def linked : List ColRow := (log.lines.filterMap rowOf).filter fun row => row.labels.protocol ≠ ['-']

/-- The lines of Modbus and DNP3. -/
def fieldbus : List ColRow := (log.lines.filterMap rowOf).filter fun row => protocolFilter row.labels.protocol

end Log

def pairOf (row : ColRow) : Text × Text := (row.labels.sender, row.labels.receiver)

/-- What the first loop takes from a row. -/
def linkOf (row : ColRow) : Option (Text × Text) := if row.labels.protocol = ['-'] then none else some (pairOf row)

theorem protocol_of_protocolFilter {proto : Text} (h : protocolFilter proto = true) : proto ≠ ['-'] := by
  rintro rfl
  exact absurd h (by decide)

theorem mem_fieldbus {log : Log} {row : ColRow} (h : row ∈ log.fieldbus) : row ∈ log.linked := by
  obtain ⟨hrow, hprotocol⟩ := List.mem_filter.mp h
  exact List.mem_filter.mpr ⟨hrow, decide_eq_true (protocol_of_protocolFilter hprotocol)⟩

/-! ### The first loop -/

theorem exists_nine {columns : List Text} (h : columns.length = 9) :
    ∃ a₀ a₁ a₂ a₃ a₄ a₅ a₆ a₇ a₈, columns = [a₀, a₁, a₂, a₃, a₄, a₅, a₆, a₇, a₈] := by
  match columns, h with
  | [a₀, a₁, a₂, a₃, a₄, a₅, a₆, a₇, a₈], _ => exact ⟨a₀, a₁, a₂, a₃, a₄, a₅, a₆, a₇, a₈, rfl⟩

theorem endpoints_eq {line : Text} (h : startsWithHash line ∨ (words line).length = 9) :
    endpoints line = .ok ((rowOf line).bind linkOf) := by
  by_cases hhash : startsWithHash line = true
  · rw [endpoints, if_pos hhash, rowOf, processStatsCol, if_pos hhash]
    rfl
  · have hwords := h.resolve_left hhash
    obtain ⟨a₀, a₁, a₂, a₃, a₄, a₅, a₆, a₇, a₈, hcolumns⟩ := exists_nine hwords
    have hrow : rowOf line = some ⟨⟨a₂, a₃, a₄, a₅, a₆, a₇⟩, a₈⟩ := by
      rw [rowOf, processStatsCol, if_neg hhash, hcolumns]
      rfl
    rw [endpoints, if_neg hhash, hrow, hcolumns]
    show (if a₄ = ['-'] then _ else _) = Except.ok (if a₄ = ['-'] then _ else _)
    split <;> rfl

/-- The pairs of the lines with a protocol. -/
theorem mapM_endpoints (log : Log) : ∃ links, log.lines.mapM endpoints = .ok links
    ∧ (links.filterMap fun link => link) = log.linked.map pairOf := by
  refine ⟨_, mapM_eq_map fun line hline => endpoints_eq (log.fields line hline), ?_⟩
  rw [Log.linked, List.filterMap_map]
  induction log.lines with
  | nil => rfl
  | cons line lines ih =>
      cases hrow : rowOf line with
      | none =>
          rw [List.filterMap_cons_none (by simp [hrow]), List.filterMap_cons_none hrow, ih]
      | some row =>
          rw [List.filterMap_cons_some hrow, List.filter_cons]
          by_cases hprotocol : row.labels.protocol = ['-']
          · rw [List.filterMap_cons_none (by simp [hrow, linkOf, hprotocol]), ih, if_neg (by simpa using hprotocol)]
          · rw [List.filterMap_cons_some (b := pairOf row) (by simp [hrow, linkOf, hprotocol]), ih,
              if_pos (by simpa using hprotocol)]
            rfl

/-! ### The second loop -/

theorem foldl_addLine (log : Log) (s : Specs) : log.lines.foldl Specs.addLine s = log.fieldbus.foldl Specs.addRow s := by
  rw [Log.fieldbus, List.foldl_filter, List.foldl_filterMap]
  congr 1
  funext s line
  unfold Specs.addLine rowOf
  cases processStatsCol line with
  | error _ => rfl
  | ok row =>
      cases row with
      | none => rfl
      | some row => rfl

section

variable {s : Specs} {row : ColRow}

theorem Specs.knows_addRow (hknows : s.Knows row) {other : ColRow} (hother : s.Knows other) :
    (s.addRow row).Knows other where
  sender := by
    rw [Specs.isSome_nodesSpec_addRow hknows]
    exact hother.sender
  receiver := by
    rw [Specs.isSome_nodesSpec_addRow hknows]
    exact hother.receiver
  link := by
    rw [Specs.isSome_linksSpec_addRow hknows]
    exact hother.link

/-- The keys of the counters and what they are after some rows. -/
structure Counted (nodes : List Text) (links : List (Text × Text)) (rows : List ColRow) (s : Specs) : Prop where
  summarises : Summarises rows s
  nodes : ∀ n, (s.nodesSpec.get? n).isSome = true ↔ n ∈ nodes
  links : ∀ l, (s.linksSpec.get? l).isSome = true ↔ l ∈ links

variable {nodes : List Text} {links : List (Text × Text)} {done rows : List ColRow}

theorem Counted.addRow (h : Counted nodes links done s) (hknows : s.Knows row) :
    Counted nodes links (done ++ [row]) (s.addRow row) where
  summarises := h.summarises.addRow hknows
  nodes n := by
    rw [Specs.isSome_nodesSpec_addRow hknows]
    exact h.nodes n
  links l := by
    rw [Specs.isSome_linksSpec_addRow hknows]
    exact h.links l

theorem Counted.foldl (h : Counted nodes links done s) (hknows : ∀ row ∈ rows, s.Knows row) :
    Counted nodes links (done ++ rows) (rows.foldl Specs.addRow s) := by
  induction rows generalizing done s with
  | nil =>
      rw [List.append_nil]
      exact h
  | cons row rows ih =>
      rw [List.forall_mem_cons] at hknows
      rw [List.foldl_cons, List.append_cons]
      exact ih (h.addRow hknows.1) fun other hother => Specs.knows_addRow hknows.1 (hknows.2 other hother)

end

/-- The counters before the second loop. -/
def startSpecs (nodes : List Text) (links : List (Text × Text)) : Specs :=
  { nodesSpec := nodes.foldl (fun t node => t.put node {}) ∅
    linksSpec := links.foldl (fun t link => t.put link {}) ∅ }

section

variable (nodes : List Text) (links : List (Text × Text))

theorem startSpecs_nodesSpec (n : Text) :
    (startSpecs nodes links).nodesSpec.get? n = if n ∈ nodes then some {} else none := by
  convert Table.get?_foldl_put nodes ({} : NodeSpec) ∅ n
  all_goals rfl

theorem startSpecs_linksSpec (l : Text × Text) :
    (startSpecs nodes links).linksSpec.get? l = if l ∈ links then some {} else none := by
  convert Table.get?_foldl_put links ({} : LinkSpec) ∅ l
  all_goals rfl

/-- A part of what is kept of a node is as at the start. -/
theorem startSpecs_nodeGet {β : Type} {g : NodeSpec → β} {n : Text} {b : β}
    (h : (startSpecs nodes links).nodeGet g n = some b) : b = g {} := by
  rw [Specs.nodeGet, startSpecs_nodesSpec] at h
  split at h
  · exact (Option.some.inj h).symm
  · cases h

theorem startSpecs_linkGet {β : Type} {g : LinkSpec → β} {l : Text × Text} {b : β}
    (h : (startSpecs nodes links).linkGet g l = some b) : b = g {} := by
  rw [Specs.linkGet, startSpecs_linksSpec] at h
  split at h
  · exact (Option.some.inj h).symm
  · cases h

theorem counted_startSpecs : Counted nodes links [] (startSpecs nodes links) where
  summarises :=
    { sCnt := fun _ _ h => startSpecs_nodeGet nodes links h
      rCnt := fun _ _ h => startSpecs_nodeGet nodes links h
      cnt := fun _ _ h => startSpecs_linkGet nodes links h
      protocols := fun _ _ h => List.subset_nil.mpr (startSpecs_nodeGet nodes links h)
      funcsrc := fun _ _ h => List.subset_nil.mpr (startSpecs_nodeGet nodes links h)
      funcdst := fun _ _ h => List.subset_nil.mpr (startSpecs_nodeGet nodes links h)
      linkProtos := fun _ _ h => List.subset_nil.mpr (startSpecs_linkGet nodes links h)
      linkFuncs := fun _ _ h => List.subset_nil.mpr (startSpecs_linkGet nodes links h)
      linkTargets := fun _ _ h => List.subset_nil.mpr (startSpecs_linkGet nodes links h)
      targets := by simp [startSpecs]
      nodeTargets := by
        intro n xs h text
        rw [startSpecs_nodeGet nodes links h]
        simp }
  nodes n := by
    rw [startSpecs_nodesSpec]
    split <;> simp_all
  links l := by
    rw [startSpecs_linksSpec]
    split <;> simp_all

end

/-! ### The graph -/

namespace Log

variable (texts : SetOrder Text) (pairs : SetOrder (Text × Text)) (log : Log)

def nodes : List Text := texts.list ((log.linked.map pairOf).flatMap fun link => [link.1, link.2]).dedup

def links : List (Text × Text) := pairs.list (log.linked.map pairOf).dedup

/-- The counters after the second loop. -/
def specs : Specs := log.fieldbus.foldl Specs.addRow (startSpecs (log.nodes texts) (log.links pairs))

/-- The graph of a log that has lines with a protocol. -/
def graph : ColLog where
  nodes := (log.nodes texts).zipIdx.map fun entry => jNode (log.specs texts pairs) entry.2 entry.1
  links := jLinks texts (log.specs texts pairs) (log.nodes texts) (log.links pairs)
  protocols := (log.specs texts pairs).protocols
  functions := (log.specs texts pairs).functions
  targets := (log.specs texts pairs).targets

end Log

variable {texts : SetOrder Text} {pairs : SetOrder (Text × Text)} {log : Log}

theorem processStatsColLog_eq : processStatsColLog texts pairs log.lines = .ok
    (if (log.graph texts pairs).nodes ≠ [] ∧ (log.graph texts pairs).links ≠ [] then some (log.graph texts pairs)
    else none) := by
  obtain ⟨links, hlinks, hfound⟩ := mapM_endpoints log
  rw [processStatsColLog, hlinks]
  show (if _ then Except.ok (some _) else Except.ok none) = _
  rw [hfound, foldl_addLine, apply_ite Except.ok]
  rfl

theorem mem_nodes {n : Text} : n ∈ log.nodes texts ↔ ∃ row ∈ log.linked, n = row.labels.sender ∨ n = row.labels.receiver := by
  rw [Log.nodes, (texts.perm _).mem_iff, List.mem_dedup, List.flatMap_map, List.mem_flatMap]
  simp only [pairOf, List.mem_cons, List.not_mem_nil, or_false]

theorem mem_links {l : Text × Text} : l ∈ log.links pairs ↔ ∃ row ∈ log.linked, pairOf row = l := by
  rw [Log.links, (pairs.perm _).mem_iff, List.mem_dedup, List.mem_map]

theorem nodup_nodes : (log.nodes texts).Nodup := (texts.perm _).nodup_iff.mpr (List.nodup_dedup _)

theorem nodup_links : (log.links pairs).Nodup := (pairs.perm _).nodup_iff.mpr (List.nodup_dedup _)

/-- The endpoints of the links are nodes. -/
theorem endpoints_mem {l : Text × Text} (h : l ∈ log.links pairs) : l.1 ∈ log.nodes texts ∧ l.2 ∈ log.nodes texts := by
  obtain ⟨row, hrow, rfl⟩ := mem_links.mp h
  exact ⟨mem_nodes.mpr ⟨row, hrow, .inl rfl⟩, mem_nodes.mpr ⟨row, hrow, .inr rfl⟩⟩

theorem knows_startSpecs {row : ColRow} (hrow : row ∈ log.linked) :
    (startSpecs (log.nodes texts) (log.links pairs)).Knows row where
  sender := ((counted_startSpecs _ _).nodes _).mpr (mem_nodes.mpr ⟨row, hrow, .inl rfl⟩)
  receiver := ((counted_startSpecs _ _).nodes _).mpr (mem_nodes.mpr ⟨row, hrow, .inr rfl⟩)
  link := ((counted_startSpecs _ _).links _).mpr (mem_links.mpr ⟨row, hrow, rfl⟩)

variable (texts pairs log) in
/-- **The second loop counts the lines of Modbus and DNP3.** -/
theorem counted_specs : Counted (log.nodes texts) (log.links pairs) log.fieldbus (log.specs texts pairs) := by
  have hrun := (counted_startSpecs (log.nodes texts) (log.links pairs)).foldl fun row hrow =>
    knows_startSpecs (mem_fieldbus hrow)
  rw [List.nil_append] at hrun
  exact hrun

/-! ### The links of the graph -/

/-- A link of the graph and the pair it is for. -/
def LinkFor (texts : SetOrder Text) (s : Specs) (nodes : List Text) (l : Text × Text) (j : ColDiff.Link LinkRest) : Prop :=
  ∃ id, jLink texts s nodes id l = some j

theorem jLinks_concat (s : Specs) (nodes : List Text) (ls : List (Text × Text)) (l : Text × Text) :
    jLinks texts s nodes (ls ++ [l])
      = jLinks texts s nodes ls ++ (jLink texts s nodes (jLinks texts s nodes ls).length l).toList :=
  List.foldl_concat ..

/-- Each pair gives one link when the endpoints are nodes. -/
theorem forall₂_jLinks {s : Specs} {nodes : List Text} {ls : List (Text × Text)}
    (h : ∀ l ∈ ls, l.1 ∈ nodes ∧ l.2 ∈ nodes ∧ (s.linksSpec.get? l).isSome) :
    List.Forall₂ (LinkFor texts s nodes) ls (jLinks texts s nodes ls) := by
  induction ls using List.reverseRecOn with
  | nil => exact .nil
  | append_singleton ls l ih =>
      rw [List.forall_mem_append] at h
      obtain ⟨hsource, htarget, hspec⟩ := h.2 l List.mem_cons_self
      rw [jLinks_concat]
      refine List.rel_append (ih h.1) ?_
      obtain ⟨source, hsource⟩ := Option.ne_none_iff_exists'.mp (mt List.idxOf?_eq_none_iff.mp (not_not.mpr hsource))
      obtain ⟨target, htarget⟩ := Option.ne_none_iff_exists'.mp (mt List.idxOf?_eq_none_iff.mp (not_not.mpr htarget))
      obtain ⟨spec, hspec⟩ := Option.isSome_iff_exists.mp hspec
      have hlink : ∃ j, jLink texts s nodes (jLinks texts s nodes ls).length l = some j := by
        simp only [jLink, hsource, htarget, hspec, Option.bind_eq_bind, Option.bind_some, Option.pure_def]
        exact ⟨_, rfl⟩
      obtain ⟨j, hj⟩ := hlink
      rw [hj]
      exact .cons ⟨_, hj⟩ .nil

variable (texts pairs log) in
theorem forall₂_links : List.Forall₂ (LinkFor texts (log.specs texts pairs) (log.nodes texts)) (log.links pairs)
    (log.graph texts pairs).links :=
  forall₂_jLinks fun l hl =>
    ⟨(endpoints_mem hl).1, (endpoints_mem hl).2, ((counted_specs texts pairs log).links l).mpr hl⟩

theorem linkFor_of_mem {link : ColDiff.Link LinkRest} (h : link ∈ (log.graph texts pairs).links) :
    ∃ l, LinkFor texts (log.specs texts pairs) (log.nodes texts) l link := by
  obtain ⟨i, rfl⟩ := List.get_of_mem h
  have hall := forall₂_links texts pairs log
  have hi : i < (log.links pairs).length := by
    rw [hall.length_eq]
    exact i.isLt
  exact ⟨_, hall.get hi i.isLt⟩

/-- What the links of the graph have, read from their pairs. -/
theorem map_links {β : Type} {f : Text × Text → β} {g : ColDiff.Link LinkRest → β}
    (h : ∀ l j, LinkFor texts (log.specs texts pairs) (log.nodes texts) l j → g j = f l) :
    (log.graph texts pairs).links.map g = (log.links pairs).map f := by
  have hall : List.Forall₂ (· = ·) ((log.links pairs).map f) ((log.graph texts pairs).links.map g) := by
    rw [List.forall₂_map_left_iff, List.forall₂_map_right_iff]
    exact (forall₂_links texts pairs log).imp fun l j hj => (h l j hj).symm
  exact (List.forall₂_eq_eq_eq ▸ hall).symm

/-- The fields of a link of the graph. -/
theorem LinkFor.fields {s : Specs} {nodes : List Text} {l : Text × Text} {j : ColDiff.Link LinkRest}
    (h : LinkFor texts s nodes l j) : ∃ source target spec, nodes.idxOf? l.1 = some source
      ∧ nodes.idxOf? l.2 = some target ∧ s.linksSpec.get? l = some spec ∧ j.source = source ∧ j.target = target
      ∧ (j.sourceName, j.targetName) = l ∧ j.rest.value = spec.cnt ∧ j.rest.protocol = texts.list spec.proto
      ∧ j.rest.function = texts.list spec.func ∧ j.rest.target = texts.list spec.target := by
  obtain ⟨id, hj⟩ := h
  obtain ⟨source, hsource, hj⟩ := Option.bind_eq_some_iff.mp hj
  obtain ⟨target, htarget, hj⟩ := Option.bind_eq_some_iff.mp hj
  obtain ⟨spec, hspec, hj⟩ := Option.bind_eq_some_iff.mp hj
  obtain rfl := Option.some.inj hj
  exact ⟨source, target, spec, hsource, htarget, hspec, rfl, rfl, rfl, rfl, rfl, rfl, rfl⟩

/-! ### The nodes of the graph -/

theorem map_nodes {β : Type} {f : Text → β} {g : ColDiff.Node NodeRest → β}
    (h : ∀ n ∈ log.nodes texts, ∀ id, g (jNode (log.specs texts pairs) id n) = f n) :
    (log.graph texts pairs).nodes.map g = (log.nodes texts).map f := by
  rw [Log.graph, List.map_map, ← List.zipIdx_map_fst 0 ((log.nodes texts).map f), List.zipIdx_map, List.map_map]
  refine List.map_congr_left fun entry hentry => ?_
  exact h entry.1 (List.fst_mem_of_mem_zipIdx hentry) entry.2

theorem mem_graph_nodes {node : ColDiff.Node NodeRest} (h : node ∈ (log.graph texts pairs).nodes) :
    ∃ n ∈ log.nodes texts, ∃ id, node = jNode (log.specs texts pairs) id n := by
  obtain ⟨entry, hentry, rfl⟩ := List.mem_map.mp h
  exact ⟨entry.1, List.fst_mem_of_mem_zipIdx hentry, entry.2, rfl⟩

variable (pairs) in
/-- What is kept of a node of the graph. -/
theorem nodesSpec_of_mem {n : Text} (hn : n ∈ log.nodes texts) :
    ∃ spec, (log.specs texts pairs).nodesSpec.get? n = some spec :=
  Option.isSome_iff_exists.mp (((counted_specs texts pairs log).nodes n).mpr hn)

/-- The position of a name is that of its node. -/
theorem graph_nodes_getElem? {n : Text} {i : Nat} (h : (log.nodes texts).idxOf? n = some i) :
    ((log.graph texts pairs).nodes[i]?).map ColDiff.Node.name = some n := by
  obtain ⟨hi, hn, _⟩ := List.idxOf?_eq_some_iff.mp h
  rw [Log.graph, List.getElem?_map, List.getElem?_zipIdx, List.getElem?_eq_getElem hi, hn]
  rfl

/-! ### What is conserved -/

/-- The empty dictionary, in which nothing is listed. -/
def emptyLog : ColLog := ⟨[], [], [], [], []⟩

/-- The counts and references of a graph agree with the lines of the log. -/
structure Conserves (log : Log) (g : ColLog) : Prop where
  values : (g.links.map fun link => link.rest.value).sum = log.fieldbus.length
  sent : (g.nodes.map fun node => node.rest.sCnt).sum = log.fieldbus.length
  received : (g.nodes.map fun node => node.rest.rCnt).sum = log.fieldbus.length
  sizes : ∀ node ∈ g.nodes, node.rest.size = node.rest.sCnt + node.rest.rCnt
  unique : (g.links.map fun link => (link.sourceName, link.targetName)).Nodup
  pairs : ∀ l, (∃ link ∈ g.links, (link.sourceName, link.targetName) = l) ↔ ∃ row ∈ log.linked, pairOf row = l
  endpoints : ∀ link ∈ g.links, ∃ i j : Nat, link.source = i ∧ link.target = j
    ∧ (g.nodes[i]?).map ColDiff.Node.name = some link.sourceName
    ∧ (g.nodes[j]?).map ColDiff.Node.name = some link.targetName
  protocols : ∀ node ∈ g.nodes, node.rest.protocols ⊆ g.protocols
  functions : ∀ node ∈ g.nodes, node.rest.funcsrc ⊆ g.functions ∧ node.rest.funcdst ⊆ g.functions
  targets : ∀ node ∈ g.nodes, node.rest.targets ⊆ g.targets
  linkLists : ∀ link ∈ g.links, link.rest.protocol ⊆ g.protocols ∧ link.rest.function ⊆ g.functions
    ∧ link.rest.target ⊆ g.targets

theorem sorted_subset {xs ys : List Text} : sorted xs ⊆ ys ↔ xs ⊆ ys :=
  (List.perm_insertionSort _ xs).subset_congr_left

theorem list_subset {xs ys : List Text} : texts.list xs ⊆ ys ↔ xs ⊆ ys :=
  (texts.perm xs).subset_congr_left

/-- The numbers of the rows of each pair add up. -/
theorem sum_values : ((log.graph texts pairs).links.map fun link => link.rest.value).sum = log.fieldbus.length := by
  have hvalues : ((log.graph texts pairs).links.map fun link => link.rest.value)
      = (log.links pairs).map fun l => log.fieldbus.countP fun row => pairOf row = l := by
    refine map_links fun l j hj => ?_
    obtain ⟨_, _, spec, _, _, hspec, _, _, _, hvalue, _⟩ := hj.fields
    rw [hvalue]
    refine (counted_specs texts pairs log).summarises.cnt l spec.cnt ?_
    rw [Specs.linkGet, hspec]
    rfl
  rw [hvalues]
  exact sum_countP_key pairOf nodup_links fun row hrow => mem_links.mpr ⟨row, mem_fieldbus hrow, rfl⟩

/-- A counter of the nodes that each row raises at one of its ends counts the rows. -/
theorem sum_nodeCount {count : ColDiff.Node NodeRest → Nat} {g : NodeSpec → Nat} {name : ColRow → Text}
    (hcount : ∀ s id n, count (jNode s id n) = g ((s.nodesSpec.get? n).getD {}))
    (hg : ∀ n c, (log.specs texts pairs).nodeGet g n = some c → c = log.fieldbus.countP fun row => name row = n)
    (hname : ∀ row ∈ log.fieldbus, name row ∈ log.nodes texts) :
    ((log.graph texts pairs).nodes.map count).sum = log.fieldbus.length := by
  have hvalues : (log.graph texts pairs).nodes.map count
      = (log.nodes texts).map fun n => log.fieldbus.countP fun row => name row = n := by
    refine map_nodes fun n hn id => ?_
    obtain ⟨spec, hspec⟩ := nodesSpec_of_mem pairs hn
    rw [hcount, hspec]
    apply hg n
    rw [Specs.nodeGet, hspec]
    rfl
  rw [hvalues]
  exact sum_countP_key name nodup_nodes hname

theorem sum_sCnt : ((log.graph texts pairs).nodes.map fun node => node.rest.sCnt).sum = log.fieldbus.length := by
  apply sum_nodeCount (fun _ _ _ => rfl) (counted_specs texts pairs log).summarises.sCnt
  intro row hrow
  exact mem_nodes.mpr ⟨row, mem_fieldbus hrow, .inl rfl⟩

theorem sum_rCnt : ((log.graph texts pairs).nodes.map fun node => node.rest.rCnt).sum = log.fieldbus.length := by
  apply sum_nodeCount (fun _ _ _ => rfl) (counted_specs texts pairs log).summarises.rCnt
  intro row hrow
  exact mem_nodes.mpr ⟨row, mem_fieldbus hrow, .inr rfl⟩

/-- A list in which each text has a longer one. -/
theorem eq_nil_of_longer {xs : List Text} (h : ∀ x ∈ xs, ∃ y ∈ xs, x.length < y.length) : xs = [] := by
  by_contra hne
  obtain ⟨x, hx, hmax⟩ := xs.toFinset.exists_max_image List.length (List.toFinset_nonempty_iff xs |>.mpr hne)
  obtain ⟨y, hy, hlt⟩ := h x (List.mem_toFinset.mp hx)
  exact absurd (hmax y (List.mem_toFinset.mpr hy)) (Nat.not_le.mpr hlt)

/-- The targets of the nodes are listed for the graph only when there are none. -/
theorem nodeTargets_subset_iff :
    (∀ node ∈ (log.graph texts pairs).nodes, node.rest.targets ⊆ (log.graph texts pairs).targets)
      ↔ ∀ row ∈ log.fieldbus, row.labels.target = ['-'] := by
  have hcounted := counted_specs texts pairs log
  constructor
  · intro h
    have hnil : (log.graph texts pairs).targets = [] := by
      refine eq_nil_of_longer fun text htext => ?_
      obtain ⟨row, hrow, htarget, rfl⟩ := (hcounted.summarises.targets text).mp htext
      have hn : row.labels.sender ∈ log.nodes texts := mem_nodes.mpr ⟨row, mem_fieldbus hrow, .inl rfl⟩
      obtain ⟨spec, hspec⟩ := nodesSpec_of_mem pairs hn
      obtain ⟨i, hi⟩ := List.mem_iff_getElem?.mp hn
      have hnode : jNode (log.specs texts pairs) i row.labels.sender ∈ (log.graph texts pairs).nodes :=
        List.mem_map.mpr ⟨(row.labels.sender, i), List.mem_zipIdx_iff_getElem?.mpr hi, rfl⟩
      have hsubset := h _ hnode
      rw [jNode, hspec, sorted_subset] at hsubset
      refine ⟨row.labels.protocol ++ ':' :: qualified row, hsubset ?_, by simp; omega⟩
      exact (hcounted.summarises.nodeTargets row.labels.sender spec.targets (congrArg _ hspec) _).mpr
        ⟨row, hrow, rfl, htarget, rfl⟩
    intro row hrow
    by_contra htarget
    have hmem := (hcounted.summarises.targets (qualified row)).mpr ⟨row, hrow, htarget, rfl⟩
    rw [show (log.specs texts pairs).targets = [] from hnil] at hmem
    exact absurd hmem List.not_mem_nil
  · intro h node hnode
    obtain ⟨n, hn, id, rfl⟩ := mem_graph_nodes hnode
    obtain ⟨spec, hspec⟩ := nodesSpec_of_mem pairs hn
    rw [jNode, hspec, sorted_subset]
    intro text htext
    obtain ⟨row, hrow, _, htarget, _⟩ :=
      (hcounted.summarises.nodeTargets n spec.targets (congrArg _ hspec) text).mp htext
    exact absurd (h row hrow) htarget

theorem conserves_graph_iff :
    Conserves log (log.graph texts pairs) ↔ ∀ row ∈ log.fieldbus, row.labels.target = ['-'] := by
  have hcounted := counted_specs texts pairs log
  have hnames : ((log.graph texts pairs).links.map fun link => (link.sourceName, link.targetName)) = log.links pairs := by
    rw [← (log.links pairs).map_id]
    refine map_links fun l j hj => ?_
    obtain ⟨_, _, _, _, _, _, _, _, hnames, _⟩ := hj.fields
    exact hnames
  constructor
  · intro h
    exact nodeTargets_subset_iff.mp h.targets
  · intro h
    exact
      { values := sum_values
        sent := sum_sCnt
        received := sum_rCnt
        sizes := by
          intro node hnode
          obtain ⟨n, _, id, rfl⟩ := mem_graph_nodes hnode
          rfl
        unique := by
          rw [hnames]
          exact nodup_links
        pairs := by
          intro l
          rw [← List.mem_map, hnames, mem_links]
        endpoints := by
          intro link hlink
          obtain ⟨l, hl⟩ := linkFor_of_mem hlink
          obtain ⟨source, target, _, hsource, htarget, _, hlinkSource, hlinkTarget, rfl, _⟩ := hl.fields
          exact ⟨source, target, hlinkSource, hlinkTarget, graph_nodes_getElem? hsource, graph_nodes_getElem? htarget⟩
        protocols := by
          intro node hnode
          obtain ⟨n, hn, id, rfl⟩ := mem_graph_nodes hnode
          obtain ⟨spec, hspec⟩ := nodesSpec_of_mem pairs hn
          rw [jNode, hspec, sorted_subset]
          exact hcounted.summarises.protocols n spec.protocols (congrArg _ hspec)
        functions := by
          intro node hnode
          obtain ⟨n, hn, id, rfl⟩ := mem_graph_nodes hnode
          obtain ⟨spec, hspec⟩ := nodesSpec_of_mem pairs hn
          rw [jNode, hspec, sorted_subset, sorted_subset]
          exact ⟨hcounted.summarises.funcsrc n spec.funcsrc (congrArg _ hspec),
            hcounted.summarises.funcdst n spec.funcdst (congrArg _ hspec)⟩
        targets := nodeTargets_subset_iff.mpr h
        linkLists := by
          intro link hlink
          obtain ⟨l, hl⟩ := linkFor_of_mem hlink
          obtain ⟨_, _, spec, _, _, hspec, _, _, _, _, hprotocol, hfunction, htarget⟩ := hl.fields
          rw [hprotocol, hfunction, htarget, list_subset, list_subset, list_subset]
          exact ⟨hcounted.summarises.linkProtos l spec.proto (congrArg _ hspec),
            hcounted.summarises.linkFuncs l spec.func (congrArg _ hspec),
            hcounted.summarises.linkTargets l spec.target (congrArg _ hspec)⟩ }

/-- A log without protocols has the empty graph. -/
theorem graph_ne_nil_iff :
    ((log.graph texts pairs).nodes ≠ [] ∧ (log.graph texts pairs).links ≠ []) ↔ log.linked ≠ [] := by
  have hnodes : (log.graph texts pairs).nodes.length = (log.nodes texts).length := by
    rw [Log.graph, List.length_map, List.length_zipIdx]
  have hlinks := (forall₂_links texts pairs log).length_eq
  rw [← List.length_pos_iff, ← List.length_pos_iff, ← List.length_pos_iff, hnodes, ← hlinks,
    List.length_pos_iff_exists_mem, List.length_pos_iff_exists_mem, List.length_pos_iff_exists_mem]
  constructor
  · intro ⟨_, l, hl⟩
    obtain ⟨row, hrow, _⟩ := mem_links.mp hl
    exact ⟨row, hrow⟩
  · intro ⟨row, hrow⟩
    exact ⟨⟨_, mem_nodes.mpr ⟨row, hrow, .inl rfl⟩⟩, ⟨_, mem_links.mpr ⟨row, hrow, rfl⟩⟩⟩

theorem conserves_emptyLog (h : log.linked = []) : Conserves log emptyLog := by
  have hfieldbus : log.fieldbus = [] :=
    List.eq_nil_iff_forall_not_mem.mpr fun row hrow => absurd (mem_fieldbus hrow) (h ▸ List.not_mem_nil)
  constructor <;> simp [emptyLog, hfieldbus, h]

/-- **The graph conserves counts and references exactly when no line of Modbus or DNP3 has a target.** -/
theorem conserves_iff (texts : SetOrder Text) (pairs : SetOrder (Text × Text)) (log : Log) :
    (∃ graph, processStatsColLog texts pairs log.lines = .ok graph ∧ Conserves log (graph.getD emptyLog))
      ↔ ∀ row ∈ log.fieldbus, row.labels.target = ['-'] := by
  simp only [processStatsColLog_eq, Except.ok.injEq, exists_eq_left']
  by_cases hlinked : log.linked = []
  · rw [if_neg (mt graph_ne_nil_iff.mp (not_not.mpr hlinked))]
    constructor
    · intro _ row hrow
      exact absurd (mem_fieldbus hrow) (hlinked ▸ List.not_mem_nil)
    · intro _
      exact conserves_emptyLog hlinked
  · rw [if_pos (graph_ne_nil_iff.mpr hlinked)]
    exact conserves_graph_iff

/-- A log of one request for a coil. -/
def readCoils : Log where
  lines := ["0.5 64 10.0.0.1 10.0.0.2 MODBUS 1 READ_COILS 40001 F".toList]
  fields := by decide

def readCoilsRow : ColRow :=
  ⟨⟨"10.0.0.1".toList, "10.0.0.2".toList, "MODBUS".toList, ['1'], "READ_COILS".toList, "40001".toList⟩, ['F']⟩

theorem readCoils_fieldbus : readCoils.fieldbus = [readCoilsRow] := by
  decide

/-- The node of the sender lists `MODBUS:MODBUS:40001`, the graph `MODBUS:40001`. -/
theorem readCoils_target_unlisted : ¬ ∀ (texts : SetOrder Text) (pairs : SetOrder (Text × Text)) (log : Log),
    ∃ graph, processStatsColLog texts pairs log.lines = .ok graph ∧ Conserves log (graph.getD emptyLog) := by
  intro h
  obtain ⟨graph, hgraph, hconserves⟩ := h ⟨id, .refl⟩ ⟨id, .refl⟩ readCoils
  have hrow : readCoilsRow ∈ readCoils.fieldbus := by
    rw [readCoils_fieldbus]
    exact List.mem_cons_self
  rw [processStatsColLog_eq, if_pos (graph_ne_nil_iff.mpr (List.ne_nil_of_mem (mem_fieldbus hrow)))] at hgraph
  obtain rfl := Except.ok.inj hgraph
  exact absurd (conserves_graph_iff.mp hconserves readCoilsRow hrow) (by decide)

end Armore.Web.ColGraph
