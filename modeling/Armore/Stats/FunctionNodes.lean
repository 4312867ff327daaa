import Armore.Stats.Paths

/-!
# Function nodes

What `process_result` makes of the function nodes, also when a run-time error cuts it short: first their
numbers and no responses, then the responses. No node has more responses than items when the keys of the
epoch go to distinct nodes and no request is answered more often than it was counted.
-/

namespace Armore.StatsCount

open Lib
open StatsCol (Info)

/-! ### The keys of functions -/

/-- The key under which an item is counted at the function level. -/
def functionKey? (item : Info) : Option Text :=
  if item.target = none ∧ item.conn.isSome = true then
    (item.path 5).map fun names => key names ++ suffix item
  else none

/-- The names of the node a key of the function level goes to. -/
def nodeOf (str : Text) : Option (List Text) := (place .functions str).map Place.names

theorem functionKey?_of_requestKey? {item : Info} {str : Text} (hkey : requestKey? item = some str) :
    functionKey? item = some (str ++ ":T".toList) := by
  rw [requestKey?, Option.ite_none_right_eq_some] at hkey
  obtain ⟨⟨htarget, hconn, hresponse⟩, hpath⟩ := hkey
  obtain ⟨names, hnames, rfl⟩ := Option.map_eq_some_iff.mp hpath
  rw [functionKey?, if_pos ⟨htarget, hconn⟩, hnames, Option.map_some, suffix, hresponse]

theorem functionKey?_eq_none {item : Info} (hpath : item.path 5 = none) : functionKey? item = none := by
  rw [functionKey?, hpath, Option.map_none, ite_self]

theorem observedAs_functionSeen {item : Info} (htarget : item.target = none) (reqTable : Table Text ReqInfo) :
    ObservedAs .functions functionKey? [item] (functionSeen item reqTable).2 := by
  cases hpath : item.path 5 with
  | none =>
      have hnone : ∀ suffix rest, (observe item .functions suffix reqTable rest).2 = [] := by
        intro suffix rest
        simp only [observe, Level.depth, hpath]
      have hobserved : (functionSeen item reqTable).2 = [] := by
        rw [functionSeen]
        cases item.conn with
        | none => rfl
        | some conn =>
            rcases item.isResponse with _ | _ | _
            · exact hnone _ _
            · exact hnone _ _
            · exact hnone _ _
      rw [hobserved]
      constructor <;> simp [observedOn, functionKey?_eq_none hpath]
  | some names =>
      cases hconn : item.conn with
      | none =>
          have hkey : functionKey? item = none := by
            rw [functionKey?, hconn]
            exact if_neg fun h => Bool.false_ne_true h.2
          rw [functionSeen, hconn]
          constructor <;> simp [observedOn, hkey]
      | some conn =>
          have hkey : functionKey? item = some (key names ++ suffix item) := by
            rw [functionKey?, hconn, if_pos ⟨htarget, rfl⟩, hpath, Option.map_some]
          obtain ⟨delays, hdelays, hseen⟩ := functionSeen_of_path hconn hpath reqTable
          have hcount := observedOn_delaysOnly hdelays
            (Stream.noConfusion : Stream.count .functions ≠ .functionsRes)
          have hbyte := observedOn_delaysOnly hdelays
            (Stream.noConfusion : Stream.byte .functions ≠ .functionsRes)
          rw [hseen]
          constructor
          · rw [observedOn_append, hcount]
            simp [observedOn, both, hkey]
          · rw [observedOn_append, hbyte]
            simp [observedOn, both, hkey]

theorem observedAs_nil {item : Info} (hkey : functionKey? item = none) :
    ObservedAs .functions functionKey? [item] [] := by
  constructor <;> simp [observedOn, hkey]

theorem ObservedAs.observe {item : Info} {level : Level} (hlevel : level ≠ .functions) {rest : Effect}
    (hrest : ObservedAs .functions functionKey? [item] rest.2)
    (hpath : item.path level.depth = none → functionKey? item = none) (suffix : Text)
    (reqTable : Table Text ReqInfo) :
    ObservedAs .functions functionKey? [item] (observe item level suffix reqTable rest).2 := by
  unfold StatsCount.observe
  cases hnames : item.path level.depth with
  | none => exact observedAs_nil (hpath hnames)
  | some names =>
      constructor
      · rw [← hrest.count]
        simp [observedOn, hlevel]
      · rw [← hrest.byte]
        simp [observedOn, hlevel]

theorem path_eq_none_of_le {item : Info} {n m : Nat} (hle : n ≤ m) (hpath : item.path n = none) :
    item.path m = none := by
  induction m with
  | zero =>
      obtain rfl := Nat.le_zero.mp hle
      exact hpath
  | succ m ih =>
      rcases Nat.lt_or_ge n (m + 1) with hlt | hge
      · rw [StatsCol.Info.path, ih (Nat.le_of_lt_succ hlt)]
        rfl
      · obtain rfl := Nat.le_antisymm hle hge
        exact hpath

/-- **What one item adds at the function level**, whatever its fields. -/
theorem observedAs_itemSeen {levels : Nat} (hlevels : 5 ≤ levels) (item : Info)
    (reqTable : Table Text ReqInfo) :
    ObservedAs .functions functionKey? [item] (itemSeen levels item reqTable).2 := by
  have hpath : ∀ {n : Nat}, n ≤ 5 → item.path n = none → functionKey? item = none := fun hle hnone =>
    functionKey?_eq_none (path_eq_none_of_le hle hnone)
  by_cases hprotocol : item.protocol = none
  · have hkey : functionKey? item = none := by
      apply functionKey?_eq_none
      by_contra hsome
      exact protocol_ne_none (Option.isSome_iff_ne_none.mpr hsome) hprotocol
    have hlevel : ObservedAs .functions functionKey? [item]
        (observe item .senders [] reqTable (observe item .receivers [] reqTable (reqTable, []))).2 :=
      .observe (by decide) (.observe (by decide) (observedAs_nil hkey) (fun _ => hkey) [] reqTable)
        (fun _ => hkey) [] reqTable
    rw [itemSeen, if_pos hprotocol, if_pos (by omega : 2 ≤ levels)]
    constructor
    · rw [← hlevel.count]
      simp [observedOn]
    · rw [← hlevel.byte]
      simp [observedOn]
  · by_cases htarget : item.target = none
    · rw [itemSeen, if_neg hprotocol, if_pos htarget, if_pos (by omega : 4 ≤ levels), if_pos hlevels]
      exact .observe (by decide)
        (.observe (by decide) (observedAs_functionSeen htarget reqTable) (hpath (by decide)) [] reqTable)
        (hpath (by decide)) [] reqTable
    · have hkey : functionKey? item = none := by
        rw [functionKey?, if_neg fun h => htarget h.1]
      rw [itemSeen, if_neg hprotocol, if_neg htarget]
      exact .observe (by decide) (observedAs_nil hkey) (fun _ => hkey) [] reqTable

/-! ### The function nodes of a tree that may be cut short -/

/-- What holds of every function node. -/
def FunctionNodes (Q : List Text → CountInfo → Prop) (tree : RootNode) : Prop :=
  ∀ names info, names.length = 5 → tree.find? names = some info → Q names info

/-- The responded requests of every function node are a part of its items. -/
abbrev RatioBounded (tree : RootNode) : Prop :=
  FunctionNodes (fun _ info => ∀ numRes, info.numRes = some numRes → 0 < info.num ∧ numRes ≤ info.num) tree

/-- While functions are written no response is counted yet. -/
abbrev Unanswered (tree : RootNode) : Prop :=
  FunctionNodes (fun _ info => 0 < info.num ∧ (info.numRes = none ∨ info.numRes = some 0)) tree

/-- Wherever a part of `process_result` ends. -/
abbrev Leaves {V : Type} (P : RootNode → Prop) (Q : V → Prop) (x : Except Stopped V) : Prop :=
  Outcome (fun stopped => P stopped.tree) Q x

theorem leaves_need {V : Type} {P : RootNode → Prop} {Q : V → Prop} {tree : RootNode} {value? : Option V}
    (htree : P tree) (hvalue : ∀ value, value? = some value → Q value) : Leaves P Q (need tree value?) := by
  cases value? with
  | none => exact htree
  | some value => exact hvalue value rfl

theorem Leaves.left {P : RootNode → Prop} {x : Except Stopped RootNode} (hx : Leaves P P x) : P (left x) := by
  cases x with
  | ok tree => exact hx
  | error stopped => exact hx

section

variable {Q : List Text → CountInfo → Prop} {tree tree' : RootNode} {level : Level}

theorem FunctionNodes.imp {Q' : List Text → CountInfo → Prop} (htree : FunctionNodes Q tree)
    (himp : ∀ names info, Q names info → Q' names info) : FunctionNodes Q' tree := by
  intro names info hlength hfind
  exact himp names info (htree names info hlength hfind)

/-- Only the node that is stored has to be looked at. -/
theorem FunctionNodes.store_at (htree : FunctionNodes Q tree) {f : CountInfo → CountInfo} {path : List Text}
    (hstore : tree.store noCount f path = some tree')
    (hnode : path.length = 5 → Q path (f ((tree.find? path).getD noCount))) : FunctionNodes Q tree' := by
  intro names info hlength hfind
  rw [Trie.find?_store hstore] at hfind
  split at hfind
  · rename_i hnames
    subst hnames
    rw [← Option.some.inj hfind]
    exact hnode hlength
  · exact htree names info hlength hfind

theorem FunctionNodes.store (htree : FunctionNodes Q tree) {f : CountInfo → CountInfo} {path : List Text}
    (hpath : path.length ≠ 5) (hstore : tree.store noCount f path = some tree') : FunctionNodes Q tree' :=
  htree.store_at hstore fun hlength => absurd hlength hpath

theorem leaves_storeEntry_other (hlevel : level ≠ .functions) (htree : FunctionNodes Q tree)
    (byteTable : Table Text Nat) (entry : Sigma fun _ : Text => Nat) :
    Leaves (FunctionNodes Q) (FunctionNodes Q) (storeEntry level byteTable tree entry) := by
  refine (leaves_need htree fun p hp => hp).bind fun p _ hp => ?_
  have hpath : p.names.length ≠ 5 := by
    rw [length_place hp]
    cases level <;> first | decide | exact absurd rfl hlevel
  refine (leaves_need htree fun tree₁ hstore => htree.store hpath hstore).bind fun tree₁ _ htree₁ => ?_
  refine (leaves_need htree₁ fun _ _ => trivial).bind fun byte _ _ => ?_
  refine (leaves_need htree₁ fun _ _ => trivial).bind fun bytes _ _ => ?_
  refine (leaves_need htree₁ fun tree₂ hstore => htree₁.store hpath hstore).bind fun tree₂ _ htree₂ => ?_
  refine (leaves_need htree₂ fun _ _ => trivial).bind fun mark _ _ => ?_
  exact leaves_need htree₂ fun tree₃ hstore => htree₂.store hpath hstore

theorem leaves_levelSection_other (hlevel : level ≠ .functions) (levels : Nat) (result : Result)
    (htree : FunctionNodes Q tree) :
    Leaves (FunctionNodes Q) (FunctionNodes Q) (levelSection levels result level tree) := by
  unfold levelSection
  split
  · split
    · exact htree
    · refine (leaves_need htree fun _ _ => trivial).bind fun r2 _ _ => ?_
      split
      · exact htree
      · refine (leaves_need htree fun _ _ => trivial).bind fun byteTable _ _ => ?_
        exact .foldlM htree fun tree htree entry _ => leaves_storeEntry_other hlevel htree byteTable entry
  · exact htree

theorem leaves_totalSection (result : Result) (htree : FunctionNodes Q tree) :
    Leaves (FunctionNodes Q) (FunctionNodes Q) (totalSection result tree) := by
  unfold totalSection
  split
  · exact htree
  · refine (leaves_need htree fun _ _ => trivial).bind fun r2 _ _ => ?_
    intro names info hlength hfind
    obtain ⟨name, names, rfl⟩ := List.exists_cons_of_ne_nil (List.ne_nil_of_length_eq_add_one hlength)
    rw [Trie.find?_mapInfo_cons] at hfind
    exact htree _ info hlength hfind

end

/-! ### The functions -/

theorem numRes_mark {str : Text} {p : Place} (hplace : place .functions str = some p)
    {mark : CountInfo → CountInfo} (hmark : p.mark = some mark) (info : CountInfo) :
    (mark info).numRes = info.numRes ∨ (mark info).numRes = some 0 := by
  simp only [place, bind, Option.bind_eq_some_iff, pure, Option.some.injEq] at hplace
  obtain ⟨_, _, _, _, _, _, rfl⟩ := hplace
  obtain ⟨suffix, _, rfl⟩ := Option.map_eq_some_iff.mp hmark
  unfold markFunction
  split
  · exact Or.inr rfl
  · split <;> exact Or.inl rfl

theorem leaves_storeEntry_functions {tree : RootNode} (htree : Unanswered tree) (byteTable : Table Text Nat)
    {entry : Sigma fun _ : Text => Nat} (hcount : entry.2 ≠ 0) :
    Leaves Unanswered Unanswered (storeEntry .functions byteTable tree entry) := by
  refine (leaves_need htree fun p hp => hp).bind fun p _ hp => ?_
  -- once the number is stored the node is there
  have hfirst : ∀ tree₁, tree.store noCount (fun info => { info with num := entry.2 }) p.names = some tree₁ →
      Unanswered tree₁ ∧ (tree₁.find? p.names).isSome = true := by
    intro tree₁ hstore
    refine ⟨htree.store_at hstore fun hlength => ⟨Nat.pos_of_ne_zero hcount, ?_⟩, Trie.isSome_find?_store hstore⟩
    show ((tree.find? p.names).getD noCount).numRes = none ∨ _
    cases hfind : tree.find? p.names with
    | none => exact Or.inl rfl
    | some info => exact (htree p.names info hlength hfind).2
  have hlater : ∀ (tree₁ : RootNode) (f : CountInfo → CountInfo) (tree₂ : RootNode),
      (∀ info, 0 < info.num ∧ (info.numRes = none ∨ info.numRes = some 0) →
        0 < (f info).num ∧ ((f info).numRes = none ∨ (f info).numRes = some 0)) →
      Unanswered tree₁ ∧ (tree₁.find? p.names).isSome = true →
      tree₁.store noCount f p.names = some tree₂ →
      Unanswered tree₂ ∧ (tree₂.find? p.names).isSome = true := by
    intro tree₁ f tree₂ hf hstored hstore
    refine ⟨hstored.1.store_at hstore fun hlength => ?_, Trie.isSome_find?_store hstore⟩
    obtain ⟨info, hfind⟩ := Option.isSome_iff_exists.mp hstored.2
    rw [hfind]
    exact hf info (hstored.1 p.names info hlength hfind)
  refine (leaves_need htree hfirst).bind fun tree₁ _ htree₁ => ?_
  refine (leaves_need htree₁.1 fun _ _ => trivial).bind fun byte _ _ => ?_
  refine (leaves_need htree₁.1 fun _ _ => trivial).bind fun bytes _ _ => ?_
  refine (leaves_need htree₁.1 fun tree₂ hstore =>
    hlater tree₁ (fun info => { info with bytes := bytes }) tree₂ (fun _ hinfo => hinfo) htree₁
      hstore).bind fun tree₂ _ htree₂ => ?_
  refine (leaves_need htree₂.1 fun mark hmark => hmark).bind fun mark _ hmark => ?_
  refine leaves_need htree₂.1 fun tree₃ hstore => (hlater tree₂ mark tree₃ ?_ htree₂ hstore).1
  intro info hinfo
  obtain ⟨hnum, hnumRes⟩ := hinfo
  rw [(mark_place hp hmark info).1]
  refine ⟨hnum, ?_⟩
  rcases numRes_mark hp hmark info with hsame | hzero
  · rw [hsame]
    exact hnumRes
  · exact Or.inr hzero

/-- A written function node: its number is that of a key that goes there. -/
def Written (observed : List Observation) (names : List Text) (info : CountInfo) : Prop :=
  0 < info.num ∧ (info.numRes = none ∨ info.numRes = some 0)
    ∧ ∃ str, nodeOf str = some names ∧ counted str (observedOn (.count .functions) observed) = some info.num

/-- **The functions are written.** -/
theorem leaves_functionsSection {levels : Nat} (hlevels : 5 ≤ levels) {result : Result}
    {observed : List Observation} (hresult : Summarizes result observed)
    (hcomplete : Complete .functions observed)
    (hcounts : ∀ str num, counted str (observedOn (.count .functions) observed) = some num → num ≠ 0)
    {tree : RootNode} (htree : FunctionNodes (fun _ _ => False) tree) :
    Leaves Unanswered (FunctionNodes (Written observed)) (levelSection levels result .functions tree) := by
  have hunanswered : Unanswered tree := htree.imp fun _ _ hfalse => hfalse.elim
  have hleaves : Leaves Unanswered Unanswered (levelSection levels result .functions tree) := by
    rcases levelSection_eq hlevels hresult hcomplete with ⟨_, heq⟩ | ⟨countTable, byteTable, hcount, _, heq⟩
    · rw [heq]
      exact hunanswered
    · rw [heq]
      refine .foldlM hunanswered fun tree htree entry hentry => ?_
      refine leaves_storeEntry_functions htree byteTable (hcounts entry.1 entry.2 ?_)
      rw [← hcount]
      exact Table.mem_entries_iff.mp hentry
  refine hleaves.imp (fun _ h => h) ?_
  intro tree' hok htree' names info hlength hfind
  obtain ⟨hnum, hnumRes⟩ := htree' names info hlength hfind
  refine ⟨hnum, hnumRes, ?_⟩
  rcases (levelSection_ok hlevels hresult hcomplete hok names).2 with ⟨hsame, _⟩ | ⟨info', hfind', hholds⟩
  · rw [hsame] at hfind
    exact (htree names info hlength hfind).elim
  · rw [hfind'] at hfind
    cases hfind
    obtain ⟨str, p, num, _, hp, hnames, hcount, _, hinfo, _⟩ := hholds
    refine ⟨str, ?_, ?_⟩
    · rw [nodeOf, hp, Option.map_some, hnames]
    · rw [hcount, hinfo]

/-! ### The delays -/

/-- A function node while the delays are written. -/
def Answered (observed : List Observation) (names : List Text) (info : CountInfo) : Prop :=
  0 < info.num
    ∧ (∃ str, nodeOf str = some names
      ∧ counted str (observedOn (.count .functions) observed) = some info.num)
    ∧ ∀ numRes, info.numRes = some numRes → numRes = 0
      ∨ ∃ str, parts 5 str = some names ∧ counted str (observedOn .functionsRes observed) = some numRes

theorem leaves_delaySection {levels : Nat} {result : Result} {observed : List Observation}
    (hresult : Summarizes result observed)
    (hdelay : ∀ o ∈ observedOn .functionsRes observed, o.str.isSome = true ∧ o.dbl.isSome = true)
    {tree : RootNode} (htree : FunctionNodes (Answered observed) tree) :
    Leaves (FunctionNodes (Answered observed)) (FunctionNodes (Answered observed))
      (delaySection levels result tree) := by
  unfold delaySection
  split
  · rcases hresult.avgTable hdelay with ⟨hnone, _⟩ | ⟨rv, avgTable, hrv, htable, hget⟩
    · rw [hnone]
      exact htree
    · rw [hrv]
      simp only [htable]
      refine .foldlM htree fun tree htree entry hentry => ?_
      have hnum : counted entry.1 (observedOn .functionsRes observed) = some entry.2.num := by
        rw [← hget, Table.mem_entries_iff.mp hentry]
        rfl
      cases hstore : storeDelay tree entry with
      | ok tree' =>
          obtain ⟨names, hnames, hfind⟩ := storeDelay_ok hstore
          intro path info hlength hpath
          rw [hfind] at hpath
          split at hpath
          · rename_i heq
            obtain ⟨info', hinfo', rfl⟩ := Option.map_eq_some_iff.mp hpath
            obtain ⟨hpos, hstr, _⟩ := htree path info' hlength hinfo'
            refine ⟨hpos, hstr, ?_⟩
            intro numRes hnumRes
            cases hnumRes
            exact Or.inr ⟨entry.1, heq ▸ hnames, hnum⟩
          · exact htree path info hlength hpath
      | error stopped =>
          have hkept : Leaves (FunctionNodes (Answered observed)) (fun _ => True) (storeDelay tree entry) := by
            refine (leaves_need htree fun _ _ => trivial).bind fun names _ _ => ?_
            split
            · trivial
            · exact leaves_need htree fun _ _ => trivial
          rw [hstore] at hkept
          exact hkept
  · exact htree

/-- Names that end in a function's name go back to a node. -/
theorem nodeOf_append {str delay : Text} {names : List Text} (hnode : nodeOf str = some names)
    (hparts : parts 5 delay = some names) : nodeOf (delay ++ ":T".toList) = some names := by
  obtain ⟨p, hp, rfl⟩ := Option.map_eq_some_iff.mp hnode
  simp only [place, bind, Option.bind_eq_some_iff, pure, Option.some.injEq] at hp
  obtain ⟨above, habove, function, _, name, hname, rfl⟩ := hp
  have hcolon : ':' ∉ name := Text.notMem_of_mem_splitOn (List.mem_of_getElem? hname)
  have hlength : above.length = 4 := length_parts habove
  rw [parts, Option.ite_none_right_eq_some, Option.some.injEq] at hparts
  obtain ⟨hfive, htake⟩ := hparts
  have htake : (delay.splitOn ';').take 5 = above ++ [name] := htake
  -- the fifth part of the delay's key is the name of the function
  obtain ⟨rest, hsplit⟩ : ∃ rest, delay.splitOn ';' = above ++ name :: rest := by
    refine ⟨(delay.splitOn ';').drop 5, ?_⟩
    rw [← List.singleton_append, ← List.append_assoc, ← htake, List.take_append_drop]
  have hplace : ∀ {text function : Text} {rest : List Text}, text.splitOn ';' = above ++ function :: rest →
      (function.splitOn ':')[0]? = some name → nodeOf text = some (above ++ [name]) := by
    intro text function rest hsplit hname
    have hget : (above ++ function :: rest)[4]? = some function := by
      rw [List.getElem?_append_right hlength.le, hlength]
      rfl
    have hfour : parts 4 text = some above := by
      rw [parts, hsplit]
      simp [← hlength]
    simp [nodeOf, place, hsplit, hfour, hget, hname]
  rcases List.eq_nil_or_concat rest with rfl | ⟨middle, last, rfl⟩
  · refine hplace (Text.splitOn_append hsplit (by decide)) ?_
    rw [show name ++ ":T".toList = name ++ ':' :: "T".toList from rfl,
      Text.splitOn_join hcolon (by decide)]
    rfl
  · rw [List.concat_eq_append, ← List.cons_append, ← List.append_assoc] at hsplit
    have hall := Text.splitOn_append hsplit (by decide : ';' ∉ ":T".toList)
    rw [List.append_assoc, List.cons_append] at hall
    refine hplace hall ?_
    rw [List.splitOn_eq_singleton hcolon]
    rfl

/-! ### One epoch -/

/-- A tree above the function level. -/
abbrev NoFunctions (tree : RootNode) : Prop := FunctionNodes (fun _ _ => False) tree

theorem noFunctions_emptyTree : NoFunctions emptyTree := by
  intro names info hlength hfind
  obtain ⟨name, names, rfl⟩ := List.exists_cons_of_ne_nil (List.ne_nil_of_length_eq_add_one hlength)
  rw [emptyTree, Trie.find?_leaf_cons] at hfind
  cases hfind

theorem NoFunctions.ratioBounded {tree : RootNode} (htree : NoFunctions tree) : RatioBounded tree :=
  htree.imp fun _ _ hfalse => hfalse.elim

/-- Only the two sections of the functions reach the function nodes: when what they leave is bounded, so
is the tree of the epoch. -/
theorem ratioBounded_left {levels : Nat} {result : Result} {P Q : List Text → CountInfo → Prop}
    (hfunctions : ∀ tree, NoFunctions tree →
      Leaves RatioBounded (FunctionNodes P) (levelSection levels result .functions tree))
    (hdelays : ∀ tree, FunctionNodes P tree →
      Leaves RatioBounded (FunctionNodes Q) (delaySection levels result tree))
    (hbounded : ∀ tree, FunctionNodes Q tree → RatioBounded tree) :
    RatioBounded (left (processResult levels result emptyTree)) := by
  have hquiet : ∀ {level : Level} {tree : RootNode}, level ≠ .functions → NoFunctions tree →
      Leaves RatioBounded NoFunctions (levelSection levels result level tree) :=
    fun hlevel htree => (leaves_levelSection_other hlevel levels result htree).imp
      (fun _ h => NoFunctions.ratioBounded h) fun _ _ h => h
  refine Leaves.left ?_
  refine ((leaves_totalSection result noFunctions_emptyTree).imp (fun _ h => NoFunctions.ratioBounded h)
    fun _ _ h => h).bind fun tree _ htree => ?_
  refine (hquiet (by decide) htree).bind fun tree _ htree => ?_
  refine (hquiet (by decide) htree).bind fun tree _ htree => ?_
  refine (hquiet (by decide) htree).bind fun tree _ htree => ?_
  refine (hquiet (by decide) htree).bind fun tree _ htree => ?_
  refine (hfunctions tree htree).bind fun tree _ htree => ?_
  refine (hdelays tree htree).bind fun tree _ htree => ?_
  exact (leaves_levelSection_other (by decide) levels result htree).imp (fun stopped => hbounded stopped.tree)
    fun tree _ => hbounded tree

theorem eq_zero_of_unanswered {numRes? : Option Nat} {numRes : Nat} (hnone : numRes? = none ∨ numRes? = some 0)
    (hsome : numRes? = some numRes) : numRes = 0 := by
  rcases hnone with h | h
  · rw [h] at hsome
    cases hsome
  · rw [h, Option.some.injEq] at hsome
    exact hsome.symm

theorem ratioBounded_of_unanswered {tree : RootNode} (htree : Unanswered tree) : RatioBounded tree := by
  refine htree.imp ?_
  intro names info ⟨hpos, hnumRes⟩ numRes hsome
  exact ⟨hpos, (eq_zero_of_unanswered hnumRes hsome).le.trans (Nat.zero_le _)⟩

/-- The tree of an epoch whose keys go to distinct nodes and whose delays belong to its requests. -/
theorem ratioBounded_processResult {levels : Nat} (hlevels : 5 ≤ levels) {result : Result}
    {observed : List Observation} (hresult : Summarizes result observed)
    (hcomplete : Complete .functions observed)
    (hcounts : ∀ str num, counted str (observedOn (.count .functions) observed) = some num → num ≠ 0)
    (hdelay : ∀ o ∈ observedOn .functionsRes observed, o.str.isSome = true ∧ o.dbl.isSome = true)
    (honce : ∀ str str' names, (counted str (observedOn (.count .functions) observed)).isSome = true →
      (counted str' (observedOn (.count .functions) observed)).isSome = true →
      nodeOf str = some names → nodeOf str' = some names → str = str')
    (hanswered : ∀ str numRes, counted str (observedOn .functionsRes observed) = some numRes →
      ∃ num, counted (str ++ ":T".toList) (observedOn (.count .functions) observed) = some num ∧ numRes ≤ num) :
    RatioBounded (left (processResult levels result emptyTree)) := by
  have hbounded : ∀ tree, FunctionNodes (Answered observed) tree → RatioBounded tree := by
    intro tree htree
    refine htree.imp ?_
    intro names info ⟨hpos, ⟨str, hnode, hcount⟩, hnumRes⟩ numRes hsome
    refine ⟨hpos, ?_⟩
    rcases hnumRes numRes hsome with rfl | ⟨delay, hparts, hdelays⟩
    · exact Nat.zero_le _
    · obtain ⟨num, hnum, hle⟩ := hanswered delay numRes hdelays
      obtain rfl := honce str (delay ++ ":T".toList) names (by rw [hcount]; rfl) (by rw [hnum]; rfl) hnode
        (nodeOf_append hnode hparts)
      rw [hcount, Option.some.injEq] at hnum
      exact hnum ▸ hle
  refine ratioBounded_left (P := Written observed) (Q := Answered observed) ?_ ?_ hbounded
  · intro tree htree
    exact (leaves_functionsSection hlevels hresult hcomplete hcounts htree).imp
      (fun stopped => ratioBounded_of_unanswered) fun _ _ h => h
  · intro tree htree
    have hwritten : FunctionNodes (Answered observed) tree := by
      refine htree.imp ?_
      intro names info ⟨hpos, hnumRes, hstr⟩
      exact ⟨hpos, hstr, fun numRes hsome => .inl (eq_zero_of_unanswered hnumRes hsome)⟩
    exact (leaves_delaySection hresult hdelay hwritten).imp (fun stopped => hbounded stopped.tree) fun _ _ h => h

/-- Without the function level there is no function node. -/
theorem ratioBounded_of_lt {levels : Nat} (hlevels : levels < 5) (result : Result) :
    RatioBounded (left (processResult levels result emptyTree)) := by
  refine ratioBounded_left (P := fun _ _ => False) (Q := fun _ _ => False) ?_ ?_
    fun _ => NoFunctions.ratioBounded
  · intro tree htree
    have hskipped : levelSection levels result .functions tree = .ok tree := if_neg (by
      show ¬ 5 ≤ levels
      omega)
    rw [hskipped]
    exact htree
  · intro tree htree
    have hskipped : delaySection levels result tree = .ok tree := if_neg (by omega)
    rw [hskipped]
    exact htree

/-! ### The tree that is passed on -/

/-- Below the root every node has been counted, and the root has no responses. -/
def AllCounted (tree : RootNode) : Prop :=
  ∀ names info, tree.find? names = some info → names = [] ∧ info.numRes = none ∨ names ≠ [] ∧ info.num ≠ 0

theorem AllCounted.store {tree tree' : RootNode} (htree : AllCounted tree) {f : CountInfo → CountInfo}
    {names : List Text} (hnames : names ≠ []) (hstore : tree.store noCount f names = some tree')
    (hnum : (f ((tree.find? names).getD noCount)).num ≠ 0) : AllCounted tree' := by
  intro other info hfind
  rw [Trie.find?_store hstore] at hfind
  split at hfind
  · rename_i hother
    subst hother
    rw [← Option.some.inj hfind]
    exact .inr ⟨hnames, hnum⟩
  · exact htree other info hfind

/-- What changes no number can be stored where there is a node. -/
theorem AllCounted.store_isSome {tree tree' : RootNode} {names : List Text}
    (htree : AllCounted tree ∧ (tree.find? names).isSome = true) {f : CountInfo → CountInfo} (hnames : names ≠ [])
    (hstore : tree.store noCount f names = some tree') (hf : ∀ info, (f info).num = info.num) :
    AllCounted tree' ∧ (tree'.find? names).isSome = true := by
  refine ⟨htree.1.store hnames hstore ?_, Trie.isSome_find?_store hstore⟩
  obtain ⟨info, hinfo⟩ := Option.isSome_iff_exists.mp htree.2
  rw [hinfo, Option.getD_some, hf]
  exact ((htree.1 names info hinfo).resolve_left fun h => hnames h.1).2

theorem allCounted_storeEntry {tree : RootNode} (htree : AllCounted tree) (level : Level)
    (byteTable : Table Text Nat) {entry : Sigma fun _ : Text => Nat} (hcount : entry.2 ≠ 0) :
    Leaves AllCounted AllCounted (storeEntry level byteTable tree entry) := by
  refine (leaves_need htree fun p hp => hp).bind fun p _ hp => ?_
  have hnames : p.names ≠ [] := by
    intro hnil
    have hlength := length_place hp
    rw [hnil] at hlength
    cases level <;> cases hlength
  have hfirst : ∀ tree₁, tree.store noCount (fun info => { info with num := entry.2 }) p.names = some tree₁ →
      AllCounted tree₁ ∧ (tree₁.find? p.names).isSome = true :=
    fun tree₁ hstore => ⟨htree.store hnames hstore hcount, Trie.isSome_find?_store hstore⟩
  refine (leaves_need htree hfirst).bind fun tree₁ _ htree₁ => ?_
  refine (leaves_need htree₁.1 fun _ _ => trivial).bind fun byte _ _ => ?_
  refine (leaves_need htree₁.1 fun _ _ => trivial).bind fun bytes _ _ => ?_
  have hbytes : ∀ tree₂, tree₁.store noCount (fun info => { info with bytes := bytes }) p.names = some tree₂ →
      AllCounted tree₂ ∧ (tree₂.find? p.names).isSome = true :=
    fun tree₂ hstore => AllCounted.store_isSome htree₁ hnames hstore fun _ => rfl
  refine (leaves_need htree₁.1 hbytes).bind fun tree₂ _ htree₂ => ?_
  refine (leaves_need htree₂.1 fun mark hmark => hmark).bind fun mark _ hmark => ?_
  exact leaves_need htree₂.1 fun tree₃ hstore =>
    (AllCounted.store_isSome htree₂ hnames hstore fun info => (mark_place hp hmark info).1).1

theorem allCounted_storeDelay {tree : RootNode} (htree : AllCounted tree)
    (entry : Sigma fun _ : Text => KeyedAvgValue) : Leaves AllCounted AllCounted (storeDelay tree entry) := by
  refine (leaves_need htree fun names hnames => hnames).bind fun names _ hparts => ?_
  have hnames : names ≠ [] := by
    intro hnil
    have hlength := length_parts hparts
    rw [hnil] at hlength
    cases hlength
  split
  · exact htree
  · rename_i info hinfo
    have hsome : (tree.find? names).isSome = true := by rw [hinfo]; rfl
    exact leaves_need htree fun tree' hstore =>
      (AllCounted.store_isSome ⟨htree, hsome⟩ hnames hstore fun _ => rfl).1

/-- What is counted under a string at a level is counted one by one. -/
def OneByOne (observed : List Observation) : Prop :=
  ∀ level, ∀ o ∈ observedOn (.count level) observed, o.num = none ∧ o.str.isSome = true

theorem oneByOne_nil : OneByOne [] := fun _ _ ho => nomatch ho

theorem OneByOne.append {observed observed' : List Observation} (h : OneByOne observed) (h' : OneByOne observed') :
    OneByOne (observed ++ observed') := by
  intro level o ho
  rw [observedOn_append] at ho
  rcases List.mem_append.mp ho with ho | ho
  · exact h level o ho
  · exact h' level o ho

theorem oneByOne_delaysOnly {delays : List Observation} (hdelays : DelaysOnly delays) : OneByOne delays := by
  intro level o ho
  rw [observedOn_delaysOnly hdelays (Stream.noConfusion : Stream.count level ≠ .functionsRes)] at ho
  cases ho

theorem OneByOne.observe {item : Info} {rest : Effect} (hrest : OneByOne rest.2) (level : Level) (suffix : Text)
    (reqTable : Table Text ReqInfo) : OneByOne (observe item level suffix reqTable rest).2 := by
  cases hnames : item.path level.depth with
  | none =>
      rw [StatsCount.observe, hnames]
      exact oneByOne_nil
  | some names =>
      rw [observe_of_path hnames]
      refine OneByOne.append ?_ hrest
      intro level' o ho
      obtain ⟨hmem, hstream⟩ := List.mem_filter.mp ho
      rcases List.mem_cons.mp hmem with rfl | hbyte
      · exact ⟨rfl, rfl⟩
      · rw [List.mem_singleton.mp hbyte] at hstream
        cases of_decide_eq_true hstream

theorem oneByOne_itemSeen (levels : Nat) (item : Info) (reqTable : Table Text ReqInfo) :
    OneByOne (itemSeen levels item reqTable).2 := by
  have hrequest (conn : Text) : (requestSeen item conn reqTable).2 = [] := by
    unfold requestSeen
    split <;> rfl
  have hfunction : OneByOne (functionSeen item reqTable).2 := by
    unfold functionSeen
    split
    · exact oneByOne_nil
    · split
      · exact oneByOne_nil.observe .functions _ reqTable
      · refine OneByOne.observe ?_ .functions _ reqTable
        rw [hrequest]
        exact oneByOne_nil
      · exact (oneByOne_delaysOnly (delaysOnly_responseSeen item _ reqTable)).observe .functions _ reqTable
  have htotal : OneByOne [{ stream := .totalCount, num := some 1 }, { stream := .totalByte, num := item.len }] := by
    intro level o ho
    obtain ⟨hmem, hstream⟩ := List.mem_filter.mp ho
    rcases List.mem_cons.mp hmem with rfl | hmem
    · cases of_decide_eq_true hstream
    · rw [List.mem_singleton.mp hmem] at hstream
      cases of_decide_eq_true hstream
  unfold itemSeen
  split
  · refine htotal.append (OneByOne.observe ?_ .senders _ reqTable)
    split
    · exact oneByOne_nil.observe .receivers _ reqTable
    · exact oneByOne_nil
  · split
    · refine OneByOne.observe ?_ .protocols _ reqTable
      split
      · refine OneByOne.observe ?_ .uid _ reqTable
        split
        · exact hfunction
        · exact oneByOne_nil
      · exact oneByOne_nil
    · exact oneByOne_nil.observe .targets _ reqTable

/-- No string has been counted zero times. -/
def Result.Positive (result : Result) : Prop :=
  ∀ level rv countTable, result (.count level) = some rv → rv.counttable = some countTable →
    ∀ entry ∈ countTable.entries, entry.2 ≠ 0

theorem Summarizes.positive {result : Result} {observed : List Observation} (hresult : Summarizes result observed)
    (hcounts : OneByOne observed) : result.Positive := by
  intro level rv countTable hrv htable entry hentry
  rcases hresult.counttable (.count level) rfl (fun o ho => (hcounts level o ho).2) with
    ⟨hnone, _⟩ | ⟨_, rv', table, hrv', htable', hget⟩
  · rw [hnone] at hrv
    cases hrv
  · obtain rfl := Option.some.inj (hrv.symm.trans hrv')
    obtain rfl := Option.some.inj (htable.symm.trans htable')
    have hcounted := (hget entry.1).symm.trans (Table.mem_entries_iff.mp hentry)
    exact (counted_eq_countP (fun o ho => (hcounts level o ho).1) hcounted).2.ne'

section

variable {levels : Nat} {result : Result} (hpositive : result.Positive)
include hpositive

theorem allCounted_levelSection (level : Level) {tree : RootNode} (htree : AllCounted tree) :
    Leaves AllCounted AllCounted (levelSection levels result level tree) := by
  unfold levelSection
  split
  · split
    · exact htree
    · rename_i rv hrv
      refine (leaves_need htree fun _ _ => trivial).bind fun r2 _ _ => ?_
      split
      · exact htree
      · rename_i countTable htable
        refine (leaves_need htree fun _ _ => trivial).bind fun byteTable _ _ => ?_
        exact .foldlM htree fun tree htree entry hentry =>
          allCounted_storeEntry htree level byteTable (hpositive level rv countTable hrv htable entry hentry)
  · exact htree

theorem allCounted_processResult : AllCounted (left (processResult levels result emptyTree)) := by
  have hempty : AllCounted emptyTree := by
    intro names info hfind
    cases names with
    | nil => exact .inl ⟨rfl, Option.some.inj hfind ▸ rfl⟩
    | cons key names => rw [emptyTree, Trie.find?_leaf_cons] at hfind; cases hfind
  have htotal : Leaves AllCounted AllCounted (totalSection result emptyTree) := by
    unfold totalSection
    split
    · exact hempty
    · refine (leaves_need hempty fun _ _ => trivial).bind fun r2 _ _ => ?_
      intro names info hfind
      cases names with
      | nil => exact .inl ⟨rfl, Option.some.inj hfind ▸ rfl⟩
      | cons key names =>
          rw [Trie.find?_mapInfo_cons] at hfind
          exact hempty (key :: names) info hfind
  have hdelays : ∀ tree, AllCounted tree → Leaves AllCounted AllCounted (delaySection levels result tree) := by
    intro tree htree
    unfold delaySection
    split
    · split
      · exact htree
      · split
        · exact htree
        · exact .foldlM htree fun tree htree entry _ => allCounted_storeDelay htree entry
    · exact htree
  have hlevel : ∀ level tree, AllCounted tree → Leaves AllCounted AllCounted (levelSection levels result level tree) :=
    fun level _ htree => allCounted_levelSection hpositive level htree
  refine Leaves.left ?_
  exact htotal.bind fun tree _ htree => (hlevel .senders tree htree).bind fun tree _ htree =>
    (hlevel .receivers tree htree).bind fun tree _ htree => (hlevel .protocols tree htree).bind fun tree _ htree =>
      (hlevel .uid tree htree).bind fun tree _ htree => (hlevel .functions tree htree).bind fun tree _ htree =>
        (hdelays tree htree).bind fun tree _ htree => hlevel .targets tree htree

/-- The tree of an epoch is counted, also when a run-time error has cut it short. -/
theorem exists_counted_processResult : ∃ finished : CountedTree,
    finished.map CountedInfo.toCountInfo = left (processResult levels result emptyTree) := by
  have hall : AllCounted (left (processResult levels result emptyTree)) := allCounted_processResult hpositive
  let finish (info : CountInfo) : CountedInfo :=
    if hcounted : info.numRes ≠ none → info.num ≠ 0 then ⟨info, hcounted⟩ else ⟨noCount, by simp [noCount]⟩
  refine ⟨(left (processResult levels result emptyTree)).map finish, Trie.map_map_of_find? ?_⟩
  intro names info hfind
  have hcounted : info.numRes ≠ none → info.num ≠ 0 := by
    rcases hall names info hfind with ⟨_, hnone⟩ | ⟨_, hnum⟩
    · exact fun hsome => absurd hnone hsome
    · exact fun _ => hnum
  show (finish info).toCountInfo = info
  simp only [finish, dif_pos hcounted]

end

end Armore.StatsCount
