import Armore.Lib.Raising
import Armore.Web.ColDiff

/-!
# The graph of a comparison

What `diffColLogs` returns for two logs whose nodes have unique names and whose links end at their own
nodes. The nodes are those of the first log and the new ones of the second, numbered by position, and every
link is between the nodes of its names. The marks of the nodes are right. Those of the links are right only
where the search for a link by its endpoints, which does not look at the endpoints, and the comparison of the
joined names happen to be; and the numbers of links are never counted.
-/

namespace Armore.Web.ColDiff

open Lib

variable {ν μ : Type} {clg1 clg2 : ColLog ν μ} {frm to_ : Text}

namespace ColLog

def names (clg : ColLog ν μ) : List Text := clg.nodes.map Node.name

/-- Node names are unique and links end at the nodes. -/
structure WellFormed (clg : ColLog ν μ) : Prop where
  names : clg.names.Nodup
  endpoints : ∀ lk ∈ clg.links, lk.sourceName ∈ clg.names ∧ lk.targetName ∈ clg.names

end ColLog

/-- The change of what is in the first log, in the second, or in both. -/
def changeOf (inFirst inSecond : Prop) [Decidable inFirst] [Decidable inSecond] : Change :=
  if inFirst then if inSecond then .modified else .deleted else .inserted

/-- The difference that the comparison has added is of the given kind. -/
def Marked (frm to_ : Text) (change : Change) (diffs : Option (List Difference)) : Prop :=
  ∃ before, diffs = some (before ++ [⟨frm, to_, change⟩])

theorem marked_appendDiff (frm to_ : Text) (change : Change) (diffs : Option (List Difference)) :
    Marked frm to_ change (appendDiff diffs ⟨frm, to_, change⟩) := ⟨_, rfl⟩

theorem Marked.unique {change change' : Change} {diffs : Option (List Difference)}
    (h : Marked frm to_ change diffs) (h' : Marked frm to_ change' diffs) : change = change' := by
  obtain ⟨before, rfl⟩ := h
  obtain ⟨before', heq⟩ := h'
  have hlast := (List.append_inj' (Option.some.inj heq) rfl).2
  rw [List.singleton_inj, Difference.mk.injEq] at hlast
  exact hlast.2.2

/-! ### The nodes -/

theorem findNodeByName_isSome {name : Text} {nodes : List (Node ν)} :
    (findNodeByName name nodes).isSome = true ↔ name ∈ nodes.map Node.name := by
  rw [findNodeByName, List.find?_isSome, List.mem_map]
  simp only [decide_eq_true_eq]

theorem name_of_findNodeByName {name : Text} {nodes : List (Node ν)} {node : Node ν}
    (h : findNodeByName name nodes = some node) : node.name = name := by
  have hname := List.find?_some h
  exact of_decide_eq_true hname

theorem findNodeByName_none {name : Text} {nodes : List (Node ν)} (h : findNodeByName name nodes = none) :
    name ∉ nodes.map Node.name := by
  rw [← findNodeByName_isSome, h]
  exact Bool.false_ne_true

/-- What the loops over the nodes have made, given the names of the nodes added so far. -/
structure Built (clg1 clg2 : ColLog ν μ) (frm to_ : Text) (names : List Text) (s : NodeLoop ν) : Prop where
  names_eq : s.nodes.map Node.name = names
  idx : s.idx = s.nodes.length
  ids : s.nodes.map Node.id = (List.range s.nodes.length).map Int.ofNat
  table : s.nodeNameId = (s.nodes.map fun node => (node.name, node.id)).reverse
  marks : ∀ node ∈ s.nodes, Marked frm to_ (changeOf (node.name ∈ clg1.names) (node.name ∈ clg2.names)) node.diffs

namespace Built

variable {names : List Text} {s : NodeLoop ν}

theorem add (h : Built clg1 clg2 frm to_ names s) (node : Node ν) (diff : Change)
    (hdiff : diff = changeOf (node.name ∈ clg1.names) (node.name ∈ clg2.names)) :
    Built clg1 clg2 frm to_ (names ++ [node.name]) (s.add frm to_ node diff) where
  names_eq := by
    rw [NodeLoop.add, List.map_append, h.names_eq]
    rfl
  idx := by
    rw [NodeLoop.add, List.length_append, h.idx]
    rfl
  ids := by
    rw [NodeLoop.add, List.map_append, List.length_append, List.length_singleton, List.range_succ, List.map_append,
      h.ids, h.idx]
    rfl
  table := by
    rw [NodeLoop.add, List.map_append, List.reverse_append, h.table]
    rfl
  marks := by
    intro other hmem
    rcases List.mem_append.mp hmem with hold | hnew
    · exact h.marks other hold
    · rw [List.mem_singleton.mp hnew, hdiff]
      exact marked_appendDiff frm to_ _ _

theorem origNode (h : Built clg1 clg2 frm to_ names s) {orig : Node ν} (horig : orig.name ∈ clg1.names) :
    Built clg1 clg2 frm to_ (names ++ [orig.name]) (origNode clg2 frm to_ s orig) := by
  unfold ColDiff.origNode
  split
  · rename_i other hfind
    have hname := name_of_findNodeByName hfind
    have hother : orig.name ∈ clg2.names := by
      rw [ColLog.names, ← findNodeByName_isSome, hfind]
      rfl
    have hadd := h.add other .modified (by rw [changeOf, hname, if_pos horig, if_pos hother])
    rw [hname] at hadd
    exact ⟨hadd.names_eq, hadd.idx, hadd.ids, hadd.table, hadd.marks⟩
  · rename_i hfind
    have hother : orig.name ∉ clg2.names := findNodeByName_none hfind
    have hadd := h.add orig .deleted (by rw [changeOf, if_pos horig, if_neg hother])
    exact ⟨hadd.names_eq, hadd.idx, hadd.ids, hadd.table, hadd.marks⟩

theorem otherNode (h : Built clg1 clg2 frm to_ names s) (other : Node ν) :
    Built clg1 clg2 frm to_ (names ++ [other.name].filter (· ∉ clg1.names))
      (otherNode clg1 frm to_ s other) := by
  unfold ColDiff.otherNode
  split
  · rename_i hfind
    have hold : other.name ∈ clg1.names := by
      rw [ColLog.names, ← findNodeByName_isSome, hfind]
      rfl
    rw [List.filter_cons_of_neg (by simp [hold]), List.filter_nil, List.append_nil]
    exact h
  · rename_i hfind
    have hnew : other.name ∉ clg1.names := findNodeByName_none hfind
    have hfilter : [other.name].filter (· ∉ clg1.names) = [other.name] := by simp [hnew]
    rw [hfilter]
    have hadd := h.add other .inserted (by rw [changeOf, if_neg hnew])
    exact ⟨hadd.names_eq, hadd.idx, hadd.ids, hadd.table, hadd.marks⟩

theorem origNodes (h : Built clg1 clg2 frm to_ names s) {nodes : List (Node ν)}
    (hnodes : ∀ orig ∈ nodes, orig.name ∈ clg1.names) :
    Built clg1 clg2 frm to_ (names ++ nodes.map Node.name) (nodes.foldl (ColDiff.origNode clg2 frm to_) s) := by
  induction nodes generalizing names s with
  | nil =>
      rw [List.map_nil, List.append_nil]
      exact h
  | cons orig nodes ih =>
      have hrest := ih (h.origNode (hnodes orig List.mem_cons_self))
        fun node hmem => hnodes node (List.mem_cons_of_mem _ hmem)
      rw [List.append_assoc] at hrest
      exact hrest

theorem otherNodes (h : Built clg1 clg2 frm to_ names s) (nodes : List (Node ν)) :
    Built clg1 clg2 frm to_ (names ++ (nodes.map Node.name).filter (· ∉ clg1.names))
      (nodes.foldl (ColDiff.otherNode clg1 frm to_) s) := by
  induction nodes generalizing names s with
  | nil =>
      rw [List.map_nil, List.filter_nil, List.append_nil]
      exact h
  | cons other nodes ih =>
      have hrest := ih (h.otherNode other)
      rw [List.append_assoc, ← List.filter_append] at hrest
      exact hrest

end Built

/-- The names of the result, in their order. -/
def allNames (clg1 clg2 : ColLog ν μ) : List Text := clg1.names ++ clg2.names.filter (· ∉ clg1.names)

theorem built_nodeLoops (clg1 clg2 : ColLog ν μ) (frm to_ : Text) :
    Built clg1 clg2 frm to_ (allNames clg1 clg2) (nodeLoops clg1 clg2 frm to_) := by
  have hempty : Built clg1 clg2 frm to_ [] ({} : NodeLoop ν) := ⟨rfl, rfl, rfl, rfl, nofun⟩
  have horig := hempty.origNodes fun orig hmem => List.mem_map_of_mem hmem
  exact horig.otherNodes clg2.nodes

theorem mem_allNames {name : Text} : name ∈ allNames clg1 clg2 ↔ name ∈ clg1.names ∨ name ∈ clg2.names := by
  rw [allNames, List.mem_append, List.mem_filter, decide_eq_true_eq]
  by_cases hfirst : name ∈ clg1.names
  · exact iff_of_true (.inl hfirst) (.inl hfirst)
  · rw [or_iff_right hfirst, or_iff_right hfirst, and_iff_left hfirst]

theorem nodup_allNames (hfirst : clg1.names.Nodup) (hsecond : clg2.names.Nodup) : (allNames clg1 clg2).Nodup := by
  rw [allNames, List.nodup_append]
  refine ⟨hfirst, hsecond.filter _, fun name hold name' hnew heq => ?_⟩
  exact of_decide_eq_true (List.mem_filter.mp hnew).2 (heq ▸ hold)

/-! ### The links -/

/-- The nodes of the names at the ends of the link are those of its indices. -/
structure Connects (nodes : List (Node ν)) (lk : Link μ) : Prop where
  source : ∃ node ∈ nodes, node.name = lk.sourceName ∧ node.id = lk.source
  target : ∃ node ∈ nodes, node.name = lk.targetName ∧ node.id = lk.target

/-- What `relink` makes of a link. -/
def copyLink (nodeNameId : List (Text × Int)) (frm to_ : Text) (diff : Change) (lk : Link μ) : Link μ :=
  { lk with
    source := (nodeNameId.lookup lk.sourceName).getD 0
    target := (nodeNameId.lookup lk.targetName).getD 0
    diffs := appendDiff lk.diffs ⟨frm, to_, diff⟩ }

variable {names : List Text} {s : NodeLoop ν}

theorem Built.lookup (h : Built clg1 clg2 frm to_ names s) {name : Text} (hname : name ∈ names) :
    ∃ node ∈ s.nodes, node.name = name ∧ s.nodeNameId.lookup name = some node.id := by
  have hsome : (s.nodeNameId.lookup name).isSome = true := by
    rw [List.lookup_isSome_iff, h.table]
    rw [← h.names_eq] at hname
    obtain ⟨node, hmem, hnode⟩ := List.mem_map.mp hname
    exact ⟨_, List.mem_reverse.mpr (List.mem_map_of_mem hmem), beq_iff_eq.mpr hnode.symm⟩
  obtain ⟨id, hid⟩ := Option.isSome_iff_exists.mp hsome
  obtain ⟨front, back, htable, _⟩ := List.lookup_eq_some_iff.mp hid
  have hmem : (name, id) ∈ s.nodeNameId := by
    rw [htable]
    exact List.mem_append_right front List.mem_cons_self
  rw [h.table, List.mem_reverse] at hmem
  obtain ⟨node, hnode, heq⟩ := List.mem_map.mp hmem
  rw [Prod.mk.injEq] at heq
  exact ⟨node, hnode, heq.1, by rw [hid, heq.2]⟩

theorem Built.relink (h : Built clg1 clg2 frm to_ names s) {lk : Link μ} (hsource : lk.sourceName ∈ names)
    (htarget : lk.targetName ∈ names) (diff : Change) :
    relink s.nodeNameId frm to_ lk diff = .ok (copyLink s.nodeNameId frm to_ diff lk)
      ∧ Connects s.nodes (copyLink s.nodeNameId frm to_ diff lk) := by
  obtain ⟨source, hsourceMem, hsourceName, hsourceId⟩ := h.lookup hsource
  obtain ⟨target, htargetMem, htargetName, htargetId⟩ := h.lookup htarget
  constructor
  · rw [ColDiff.relink, idOf, idOf, copyLink, hsourceId, htargetId]
    rfl
  · refine ⟨⟨source, hsourceMem, hsourceName, ?_⟩, target, htargetMem, htargetName, ?_⟩
    · rw [copyLink, hsourceId]
      rfl
    · rw [copyLink, htargetId]
      rfl

/-- The search finds a link as soon as there is one. -/
theorem findLinkByEndpoints_isSome (hwf : clg2.WellFormed) (lk : Link μ) :
    (findLinkByEndpoints lk clg2).isSome = true ↔ clg2.links ≠ [] := by
  rw [findLinkByEndpoints, List.find?_isSome]
  constructor
  · rintro ⟨link, hmem, _⟩
    exact List.ne_nil_of_mem hmem
  · intro hne
    obtain ⟨link, hmem⟩ := List.exists_mem_of_ne_nil _ hne
    obtain ⟨hsource, htarget⟩ := hwf.endpoints link hmem
    refine ⟨link, hmem, ?_⟩
    rw [Bool.and_eq_true, findNodeByName_isSome, findNodeByName_isSome]
    exact ⟨hsource, htarget⟩

/-- The mark that all links of the first log get. -/
def origChange (clg2 : ColLog ν μ) : Change := if clg2.links.isEmpty then .deleted else .modified

theorem origChange_of_nil (h : clg2.links = []) : origChange clg2 = .deleted := by
  rw [origChange, h]
  rfl

theorem origChange_of_ne_nil (h : clg2.links ≠ []) : origChange clg2 = .modified := by
  rw [origChange, if_neg (by simpa using h)]

/-- The links of the second log whose joined names are not among those of the first. -/
def newLinks (clg1 clg2 : ColLog ν μ) : List (Link μ) :=
  clg2.links.filter fun lk => linkFootprint lk ∉ clg1.links.map linkFootprint

theorem mem_newLinks {lk : Link μ} :
    lk ∈ newLinks clg1 clg2 ↔ lk ∈ clg2.links ∧ linkFootprint lk ∉ clg1.links.map linkFootprint := by
  rw [newLinks, List.mem_filter, decide_eq_true_eq]

/-- What a loop that passes over some of the links adds. -/
theorem filterMap_links {copy : Link μ → Link μ} {skip : Link μ → Prop} [DecidablePred skip] (links : List (Link μ)) :
    (links.map fun lk => if skip lk then none else some (copy lk)).filterMap id
      = (links.filter fun lk => ¬ skip lk).map copy := by
  induction links with
  | nil => rfl
  | cons lk links ih =>
      rw [List.map_cons, List.filterMap_cons, ih]
      by_cases hskip : skip lk
      · simp [hskip]
      · simp [hskip]

theorem ColLog.WellFormed.endpoints_allNames (hwf1 : clg1.WellFormed) (clg2 : ColLog ν μ) {lk : Link μ} (hlk : lk ∈ clg1.links) :
    lk.sourceName ∈ allNames clg1 clg2 ∧ lk.targetName ∈ allNames clg1 clg2 := by
  obtain ⟨hsource, htarget⟩ := hwf1.endpoints lk hlk
  exact ⟨mem_allNames.mpr (.inl hsource), mem_allNames.mpr (.inl htarget)⟩

theorem origLink_eq (hwf1 : clg1.WellFormed) (hwf2 : clg2.WellFormed) {lk : Link μ} (hlk : lk ∈ clg1.links) :
    origLink clg2 (nodeLoops clg1 clg2 frm to_).nodeNameId frm to_ lk
      = .ok (some (copyLink (nodeLoops clg1 clg2 frm to_).nodeNameId frm to_ (origChange clg2) lk)) := by
  have hbuilt := built_nodeLoops clg1 clg2 frm to_
  obtain ⟨hsource, htarget⟩ := hwf1.endpoints_allNames clg2 hlk
  have hrelink := fun diff => (hbuilt.relink hsource htarget diff).1
  obtain ⟨source, _, _, hsourceId⟩ := hbuilt.lookup hsource
  obtain ⟨target, _, _, htargetId⟩ := hbuilt.lookup htarget
  unfold origLink
  split
  · rename_i hfind
    rw [findLinkByEndpoints_isSome hwf2] at hfind
    rw [if_pos (by rw [hsourceId, htargetId]; rfl), hrelink, origChange_of_ne_nil hfind]
    rfl
  · rename_i hfind
    rw [findLinkByEndpoints_isSome hwf2, not_not] at hfind
    rw [hrelink, origChange_of_nil hfind]
    rfl

theorem otherLink_eq (hwf2 : clg2.WellFormed) (matchedLinks : List Text) {lk : Link μ} (hlk : lk ∈ clg2.links) :
    otherLink matchedLinks (nodeLoops clg1 clg2 frm to_).nodeNameId frm to_ lk
      = .ok (if linkFootprint lk ∈ matchedLinks then none
          else some (copyLink (nodeLoops clg1 clg2 frm to_).nodeNameId frm to_ .inserted lk)) := by
  obtain ⟨hsource, htarget⟩ := hwf2.endpoints lk hlk
  have hrelink := (built_nodeLoops clg1 clg2 frm to_).relink (mem_allNames.mpr (.inr hsource))
    (mem_allNames.mpr (.inr htarget)) .inserted
  unfold otherLink
  split
  · rfl
  · rw [hrelink.1]
    rfl

/-- The links of the result. -/
def comparedLinks (clg1 clg2 : ColLog ν μ) (frm to_ : Text) : List (Link μ) :=
  let nodeNameId := (nodeLoops clg1 clg2 frm to_).nodeNameId
  clg1.links.map (copyLink nodeNameId frm to_ (origChange clg2))
    ++ (newLinks clg1 clg2).map (copyLink nodeNameId frm to_ .inserted)

/-- The comparison of two such logs returns, with these nodes, links and numbers. -/
theorem diffColLogs_ok (hwf1 : clg1.WellFormed) (hwf2 : clg2.WellFormed) (frm to_ : Text) :
    ∃ result, diffColLogs clg1 clg2 frm to_ = .ok result
      ∧ result.nodes = (nodeLoops clg1 clg2 frm to_).nodes
      ∧ result.links = comparedLinks clg1 clg2 frm to_
      ∧ result.changes.links = ⟨0, 0, 0⟩ := by
  let nodeNameId := (nodeLoops clg1 clg2 frm to_).nodeNameId
  have horig : clg1.links.mapM (origLink clg2 nodeNameId frm to_)
      = .ok (clg1.links.map fun lk => some (copyLink nodeNameId frm to_ (origChange clg2) lk)) :=
    mapM_eq_map fun lk hlk => origLink_eq hwf1 hwf2 hlk
  have hother : ∀ matchedLinks, clg2.links.mapM (otherLink matchedLinks nodeNameId frm to_)
      = .ok (clg2.links.map fun lk => if linkFootprint lk ∈ matchedLinks then none
          else some (copyLink nodeNameId frm to_ .inserted lk)) :=
    fun matchedLinks => mapM_eq_map fun lk hlk => otherLink_eq hwf2 matchedLinks hlk
  have hcopies : (clg1.links.map fun lk => some (copyLink nodeNameId frm to_ (origChange clg2) lk)).filterMap id
      = clg1.links.map (copyLink nodeNameId frm to_ (origChange clg2)) := by
    rw [List.filterMap_map, Function.id_comp, List.filterMap_eq_map']
  have hfootprints : (clg1.links.map (copyLink nodeNameId frm to_ (origChange clg2))).map linkFootprint
      = clg1.links.map linkFootprint := by
    rw [List.map_map]
    rfl
  unfold diffColLogs
  dsimp only
  rw [horig]
  dsimp only [bind, Except.bind]
  rw [hcopies, hother, hfootprints]
  refine ⟨_, rfl, rfl, ?_, rfl⟩
  dsimp only
  rw [filterMap_links]
  rfl

/-! ### The graph -/

/-- Unique nodes with the names of both logs, numbered by position, each with its mark, and links between them. -/
structure WellFormedGraph (clg1 clg2 : ColLog ν μ) (frm to_ : Text) (result : Graph ν μ) : Prop where
  names : (result.nodes.map Node.name).Nodup
  mem_names : ∀ name, name ∈ result.nodes.map Node.name ↔ name ∈ clg1.names ∨ name ∈ clg2.names
  marks : ∀ node ∈ result.nodes,
    Marked frm to_ (changeOf (node.name ∈ clg1.names) (node.name ∈ clg2.names)) node.diffs
  ids : result.nodes.map Node.id = (List.range result.nodes.length).map Int.ofNat
  links : ∀ lk ∈ result.links, Connects result.nodes lk

theorem diffColLogs_wellFormed (hwf1 : clg1.WellFormed) (hwf2 : clg2.WellFormed) :
    ∃ result, diffColLogs clg1 clg2 frm to_ = .ok result ∧ WellFormedGraph clg1 clg2 frm to_ result := by
  obtain ⟨result, hok, hnodes, hlinks, _⟩ := diffColLogs_ok hwf1 hwf2 frm to_
  have hbuilt := built_nodeLoops clg1 clg2 frm to_
  refine ⟨result, hok, ?_, ?_, ?_, ?_, ?_⟩
  · rw [hnodes, hbuilt.names_eq]
    exact nodup_allNames hwf1.names hwf2.names
  · intro name
    rw [hnodes, hbuilt.names_eq]
    exact mem_allNames
  · rw [hnodes]
    exact hbuilt.marks
  · rw [hnodes]
    exact hbuilt.ids
  · intro lk hlk
    rw [hlinks] at hlk
    rw [hnodes]
    rcases List.mem_append.mp hlk with hold | hnew
    · obtain ⟨orig, horig, rfl⟩ := List.mem_map.mp hold
      obtain ⟨hsource, htarget⟩ := hwf1.endpoints_allNames clg2 horig
      exact (hbuilt.relink hsource htarget _).2
    · obtain ⟨other, hother, rfl⟩ := List.mem_map.mp hnew
      obtain ⟨hsource, htarget⟩ := hwf2.endpoints other (mem_newLinks.mp hother).1
      exact (hbuilt.relink (mem_allNames.mpr (.inr hsource)) (mem_allNames.mpr (.inr htarget)) _).2

def nodeNamed (id : Int) (name : Text) : Node Unit := { id, name, rest := () }

def linkNamed (source target : Int) (sourceName targetName : Text) : Link Unit :=
  { source, target, sourceName, targetName, rest := () }

/-- Nodes `a`, `b` and `c` with a link from `a` to `b`. -/
def firstLog : ColLog Unit Unit where
  nodes := [nodeNamed 0 ['a'], nodeNamed 1 ['b'], nodeNamed 2 ['c']]
  links := [linkNamed 0 1 ['a'] ['b']]
  functions := []
  protocols := []
  targets := []

/-- The same nodes in another order with a link from `b` to `c`. -/
def secondLog : ColLog Unit Unit where
  nodes := [nodeNamed 0 ['c'], nodeNamed 1 ['b'], nodeNamed 2 ['a']]
  links := [linkNamed 1 0 ['b'] ['c']]
  functions := []
  protocols := []
  targets := []

theorem firstLog_wellFormed : firstLog.WellFormed := ⟨by decide, by decide⟩

theorem secondLog_wellFormed : secondLog.WellFormed := ⟨by decide, by decide⟩

theorem diffColLogs_wellFormed_sharedNodes :
    ∃ result, diffColLogs firstLog secondLog ['1'] ['2'] = .ok result
      ∧ WellFormedGraph firstLog secondLog ['1'] ['2'] result :=
  diffColLogs_wellFormed firstLog_wellFormed secondLog_wellFormed

/-! ### The marks of the links -/

/-- The pair of names that a link is between. -/
def endpoints (lk : Link μ) : Text × Text := (lk.sourceName, lk.targetName)

def ColLog.pairs (clg : ColLog ν μ) : List (Text × Text) := clg.links.map endpoints

/-- One link for each pair of names of either log, marked by where the pair is. -/
structure LinksClassified (clg1 clg2 : ColLog ν μ) (frm to_ : Text) (result : Graph ν μ) : Prop where
  pairs : (result.links.map endpoints).Nodup
  mem_pairs : ∀ pair, pair ∈ result.links.map endpoints ↔ pair ∈ clg1.pairs ∨ pair ∈ clg2.pairs
  marks : ∀ lk ∈ result.links,
    Marked frm to_ (changeOf (endpoints lk ∈ clg1.pairs) (endpoints lk ∈ clg2.pairs)) lk.diffs

/-- The numbers of pairs in both logs, only in the first and only in the second. -/
structure LinksCounted (clg1 clg2 : ColLog ν μ) (result : Graph ν μ) : Prop where
  modified : result.changes.links.modified = clg1.pairs.countP (· ∈ clg2.pairs)
  deleted : result.changes.links.deleted = clg1.pairs.countP (· ∉ clg2.pairs)
  new : result.changes.links.new = clg2.pairs.countP (· ∉ clg1.pairs)

theorem endpoints_copyLink (nodeNameId : List (Text × Int)) (frm to_ : Text) (diff : Change) (lk : Link μ) :
    endpoints (copyLink nodeNameId frm to_ diff lk) = endpoints lk := rfl

theorem linkFootprint_of_endpoints {lk lk' : Link μ} (h : endpoints lk = endpoints lk') :
    linkFootprint lk = linkFootprint lk' := by
  obtain ⟨hsource, htarget⟩ := Prod.mk.inj h
  rw [linkFootprint, linkFootprint, hsource, htarget]

/-- A link whose joined names are new is between a new pair of names. -/
theorem endpoints_not_mem_of_newLinks {lk : Link μ} (hlk : lk ∈ newLinks clg1 clg2) : endpoints lk ∉ clg1.pairs := by
  intro hold
  obtain ⟨orig, horig, heq⟩ := List.mem_map.mp hold
  refine (mem_newLinks.mp hlk).2 ?_
  rw [← linkFootprint_of_endpoints heq]
  exact List.mem_map_of_mem horig

theorem map_endpoints_comparedLinks (clg1 clg2 : ColLog ν μ) (frm to_ : Text) :
    (comparedLinks clg1 clg2 frm to_).map endpoints = clg1.pairs ++ (newLinks clg1 clg2).map endpoints := by
  rw [comparedLinks, List.map_append, List.map_map, List.map_map]
  rfl

/-- A search that finds any link is right about all links of the first log. -/
def AllOrNone (clg1 clg2 : ColLog ν μ) : Prop := clg2.links = [] ∨ ∀ pair ∈ clg1.pairs, pair ∈ clg2.pairs

/-- No link of the second log has the joined names of a link between other nodes. -/
def FootprintsTellApart (clg1 clg2 : ColLog ν μ) : Prop :=
  ∀ lk ∈ clg2.links, linkFootprint lk ∈ clg1.links.map linkFootprint → endpoints lk ∈ clg1.pairs

theorem nodup_comparedLinks (hpairs1 : clg1.pairs.Nodup) (hpairs2 : clg2.pairs.Nodup) :
    ((comparedLinks clg1 clg2 frm to_).map endpoints).Nodup := by
  rw [map_endpoints_comparedLinks, List.nodup_append]
  refine ⟨hpairs1, ?_, ?_⟩
  · exact hpairs2.sublist (List.filter_sublist.map endpoints)
  · intro pair hold pair' hnew heq
    obtain ⟨lk, hlk, rfl⟩ := List.mem_map.mp hnew
    exact endpoints_not_mem_of_newLinks hlk (heq ▸ hold)

theorem mem_comparedLinks_iff :
    (∀ pair, pair ∈ (comparedLinks clg1 clg2 frm to_).map endpoints ↔ pair ∈ clg1.pairs ∨ pair ∈ clg2.pairs)
      ↔ FootprintsTellApart clg1 clg2 := by
  rw [map_endpoints_comparedLinks]
  constructor
  · intro h lk hlk hold
    rcases List.mem_append.mp ((h (endpoints lk)).mpr (.inr (List.mem_map_of_mem hlk))) with hfirst | hnew
    · exact hfirst
    · -- a new link with these endpoints would have these joined names
      obtain ⟨lk', hlk', heq⟩ := List.mem_map.mp hnew
      rw [← linkFootprint_of_endpoints heq] at hold
      exact absurd hold (mem_newLinks.mp hlk').2
  · intro h pair
    rw [List.mem_append]
    constructor
    · rintro (hfirst | hnew)
      · exact .inl hfirst
      · obtain ⟨lk, hlk, rfl⟩ := List.mem_map.mp hnew
        exact .inr (List.mem_map_of_mem (mem_newLinks.mp hlk).1)
    · rintro (hfirst | hsecond)
      · exact .inl hfirst
      · obtain ⟨lk, hlk, rfl⟩ := List.mem_map.mp hsecond
        by_cases hold : linkFootprint lk ∈ clg1.links.map linkFootprint
        · exact .inl (h lk hlk hold)
        · exact .inr (List.mem_map_of_mem (mem_newLinks.mpr ⟨hlk, hold⟩))

theorem marked_comparedLinks_iff :
    (∀ lk ∈ comparedLinks clg1 clg2 frm to_,
        Marked frm to_ (changeOf (endpoints lk ∈ clg1.pairs) (endpoints lk ∈ clg2.pairs)) lk.diffs)
      ↔ AllOrNone clg1 clg2 := by
  constructor
  · intro h
    by_cases hempty : clg2.links = []
    · exact .inl hempty
    · right
      intro pair hpair
      obtain ⟨lk, hlk, rfl⟩ := List.mem_map.mp hpair
      have hcopy := h _ (List.mem_append_left _ (List.mem_map_of_mem hlk))
      have hmark := hcopy.unique (marked_appendDiff frm to_ (origChange clg2) lk.diffs)
      rw [endpoints_copyLink, changeOf, if_pos hpair, origChange_of_ne_nil hempty] at hmark
      by_contra hmissing
      rw [if_neg hmissing] at hmark
      exact absurd hmark (by decide)
  · intro h lk hlk
    rcases List.mem_append.mp hlk with hold | hnew
    · obtain ⟨orig, horig, rfl⟩ := List.mem_map.mp hold
      have hfirst : endpoints orig ∈ clg1.pairs := List.mem_map_of_mem horig
      have hchange : changeOf (endpoints orig ∈ clg1.pairs) (endpoints orig ∈ clg2.pairs) = origChange clg2 := by
        rw [changeOf, if_pos hfirst]
        rcases h with hempty | hall
        · have hmissing : endpoints orig ∉ clg2.pairs := by
            rw [ColLog.pairs, hempty]
            exact List.not_mem_nil
          rw [if_neg hmissing, origChange_of_nil hempty]
        · obtain ⟨other, hother, _⟩ := List.mem_map.mp (hall _ hfirst)
          rw [if_pos (hall _ hfirst), origChange_of_ne_nil (List.ne_nil_of_mem hother)]
      rw [endpoints_copyLink, hchange]
      exact marked_appendDiff frm to_ _ _
    · obtain ⟨other, hother, rfl⟩ := List.mem_map.mp hnew
      rw [endpoints_copyLink, changeOf, if_neg (endpoints_not_mem_of_newLinks hother)]
      exact marked_appendDiff frm to_ _ _

theorem linksClassified_comparison (hpairs1 : clg1.pairs.Nodup) (hpairs2 : clg2.pairs.Nodup) {result : Graph ν μ}
    (hlinks : result.links = comparedLinks clg1 clg2 frm to_) :
    LinksClassified clg1 clg2 frm to_ result ↔ AllOrNone clg1 clg2 ∧ FootprintsTellApart clg1 clg2 := by
  constructor
  · intro ⟨_, hmem, hmarks⟩
    rw [hlinks] at hmem hmarks
    exact ⟨marked_comparedLinks_iff.mp hmarks, mem_comparedLinks_iff.mp hmem⟩
  · intro ⟨hall, happart⟩
    refine ⟨?_, ?_, ?_⟩
    · rw [hlinks]
      exact nodup_comparedLinks hpairs1 hpairs2
    · rw [hlinks]
      exact mem_comparedLinks_iff.mpr happart
    · rw [hlinks]
      exact marked_comparedLinks_iff.mpr hall

/-- Numbers that are not counted are right when there is nothing to count. -/
theorem linksCounted_comparison (clg1 clg2 : ColLog ν μ) {result : Graph ν μ} (hcounts : result.changes.links = ⟨0, 0, 0⟩) :
    LinksCounted clg1 clg2 result ↔ clg1.links = [] ∧ clg2.links = [] := by
  constructor
  · intro ⟨hmodified, hdeleted, hnew⟩
    rw [hcounts] at hmodified hdeleted hnew
    have hfirst : clg1.links = [] := by
      rw [List.eq_nil_iff_forall_not_mem]
      intro lk hlk
      have hpair : endpoints lk ∈ clg1.pairs := List.mem_map_of_mem hlk
      have hnotBoth := List.countP_eq_zero.mp hmodified.symm _ hpair
      have hnotFirst := List.countP_eq_zero.mp hdeleted.symm _ hpair
      simp only [decide_eq_true_eq, not_not] at hnotBoth hnotFirst
      exact hnotBoth hnotFirst
    refine ⟨hfirst, ?_⟩
    rw [List.eq_nil_iff_forall_not_mem]
    intro lk hlk
    have hold := List.countP_eq_zero.mp hnew.symm (endpoints lk) (List.mem_map_of_mem hlk)
    rw [ColLog.pairs, hfirst] at hold
    simp at hold
  · intro ⟨hfirst, hsecond⟩
    have hpairs1 : clg1.pairs = [] := by rw [ColLog.pairs, hfirst, List.map_nil]
    have hpairs2 : clg2.pairs = [] := by rw [ColLog.pairs, hsecond, List.map_nil]
    refine ⟨?_, ?_, ?_⟩ <;> rw [hcounts, hpairs1, hpairs2] <;> rfl

/-- Marks and numbers are right when there are no links; the marks alone also when the second log has all
links of the first, and no joined names mislead. -/
theorem diffColLogs_links_iff (hwf1 : clg1.WellFormed) (hwf2 : clg2.WellFormed) (hpairs1 : clg1.pairs.Nodup)
    (hpairs2 : clg2.pairs.Nodup) :
    ∃ result, diffColLogs clg1 clg2 frm to_ = .ok result
      ∧ (LinksClassified clg1 clg2 frm to_ result ∧ LinksCounted clg1 clg2 result
          ↔ clg1.links = [] ∧ clg2.links = [])
      ∧ (LinksClassified clg1 clg2 frm to_ result ↔ AllOrNone clg1 clg2 ∧ FootprintsTellApart clg1 clg2) := by
  obtain ⟨result, hok, _, hlinks, hcounts⟩ := diffColLogs_ok hwf1 hwf2 frm to_
  have hclassified := linksClassified_comparison hpairs1 hpairs2 hlinks
  have hcounted := linksCounted_comparison clg1 clg2 hcounts
  refine ⟨result, hok, ?_, hclassified⟩
  rw [hcounted, hclassified, and_iff_right_iff_imp]
  intro ⟨_, hsecond⟩
  refine ⟨.inl hsecond, fun lk hlk => ?_⟩
  rw [hsecond] at hlk
  exact absurd hlk List.not_mem_nil

theorem diffColLogs_links_sharedNodes :
    ∃ result, diffColLogs firstLog secondLog ['1'] ['2'] = .ok result
      ∧ (LinksClassified firstLog secondLog ['1'] ['2'] result ∧ LinksCounted firstLog secondLog result
          ↔ firstLog.links = [] ∧ secondLog.links = [])
      ∧ (LinksClassified firstLog secondLog ['1'] ['2'] result
          ↔ AllOrNone firstLog secondLog ∧ FootprintsTellApart firstLog secondLog) :=
  diffColLogs_links_iff firstLog_wellFormed secondLog_wellFormed (by decide) (by decide)

/-- The link from `a` to `b` is only in the first log and is marked as modified, and no link is counted. -/
theorem sharedNodes_not_classified :
    firstLog.WellFormed ∧ secondLog.WellFormed ∧ firstLog.pairs.Nodup ∧ secondLog.pairs.Nodup
      ∧ ∃ result, diffColLogs firstLog secondLog ['1'] ['2'] = .ok result
        ∧ ¬ LinksClassified firstLog secondLog ['1'] ['2'] result
        ∧ ¬ LinksCounted firstLog secondLog result := by
  refine ⟨firstLog_wellFormed, secondLog_wellFormed, by decide, by decide, _, rfl, ?_, ?_⟩
  · intro h
    have hmark := h.marks _ List.mem_cons_self
    have hmodified : Marked ['1'] ['2'] .modified (some [⟨['1'], ['2'], .modified⟩]) := ⟨[], rfl⟩
    exact absurd (hmark.unique hmodified) (by decide)
  · intro h
    exact absurd h.deleted (by decide)

end Armore.Web.ColDiff
