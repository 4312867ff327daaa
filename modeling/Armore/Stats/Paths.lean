import Armore.Stats.Matching
import Armore.Stats.ProcessResult

/-!
# Paths and strings

An item is counted under a path at each depth of its level: one of a packet for the root, its sender and
its receiver, one of a function for the protocol, the unit id and the function, one of a target for the
target. `item_seen` packs the path into a string, at the function level with a suffix that tells requests,
responses and other items apart, and `process_result` splits the string again.
-/

namespace Armore.StatsCount

open Lib
open StatsCol (Info)

/-- The depths at which an item is counted. -/
def depths (item : Info) : List Nat :=
  if item.protocol = none then [0, 1, 2] else if item.target = none then [3, 4, 5] else [6]

/-- The path of an item at a depth at which it is counted. -/
def pathAt (item : Info) (depth : Nat) : Option (List Text) :=
  if depth ∈ depths item then item.path depth else none

/-- The items that have a path at its depth. -/
def itemsAt (items : List Info) (path : List Text) : List Info :=
  items.filter fun item => pathAt item path.length = some path

/-- An item as `StatsCol` makes it, with the fields of its level, and without the separators of the keys. -/
structure WellFormed (item : Info) : Prop where
  addresses : (item.path 2).isSome = true
  function : item.protocol ≠ none → (item.path 5).isSome = true ∧ item.conn.isSome = true
  semicolon : ∀ n name, item.field n = some name → ';' ∉ name
  colon : ∀ func, item.func = some func → ':' ∉ func

/-- Each item comes with the coarser items of its packet. -/
def Accompanied (items : List Info) : Prop :=
  ∀ item ∈ items, item.protocol ≠ none →
    (∃ packet ∈ items, packet.protocol = none ∧ packet.path 2 = item.path 2)
      ∧ (item.target ≠ none →
        ∃ function ∈ items, function.protocol ≠ none ∧ function.target = none
          ∧ function.path 5 = item.path 5)

/-! ### The strings of an item -/

/-- The suffix of a function's key. -/
def suffix (item : Info) : Text :=
  match item.isResponse with
  | none => ":-".toList
  | some false => ":T".toList
  | some true => ":F".toList

/-- The string under which an item is counted at a level. -/
def strAt (level : Level) (item : Info) : Option Text :=
  (pathAt item level.depth).map fun names =>
    key names ++ if level = .functions then suffix item else []

/-- Both observations of a level. -/
def both (item : Info) (level : Level) (str : Text) : List Observation :=
  [{ stream := .count level, str := str }, { stream := .byte level, str := str, num := item.len }]

theorem observe_of_path {item : Info} {level : Level} {names : List Text}
    (hnames : item.path level.depth = some names) (suffix : Text) (reqTable : Table Text ReqInfo)
    (rest : Effect) :
    observe item level suffix reqTable rest
      = (rest.1, both item level (key names ++ suffix) ++ rest.2) := by
  rw [observe, hnames]
  rfl

section

variable {item : Info}

theorem exists_path (hwf : WellFormed item) {n : Nat} (hn : n ≤ 2 ∨ item.protocol ≠ none ∧ n ≤ 5) :
    ∃ names, item.path n = some names := by
  have hdown : ∀ {m : Nat}, (item.path m).isSome = true → n ≤ m → (item.path n).isSome = true := by
    intro m hm hle
    induction m with
    | zero =>
        obtain rfl := Nat.le_zero.mp hle
        exact hm
    | succ m ih =>
        rcases Nat.lt_or_ge n (m + 1) with hlt | hge
        · exact ih (path_isSome_of_succ hm) (Nat.le_of_lt_succ hlt)
        · obtain rfl := Nat.le_antisymm hle hge
          exact hm
  rw [← Option.isSome_iff_exists]
  rcases hn with hn | ⟨hprotocol, hn⟩
  · exact hdown hwf.addresses hn
  · exact hdown (hwf.function hprotocol).1 hn

theorem itemSeen_packet (hprotocol : item.protocol = none) {sender receiver : List Text}
    (hsender : item.path 1 = some sender) (hreceiver : item.path 2 = some receiver)
    (reqTable : Table Text ReqInfo) :
    (itemSeen 6 item reqTable).2
      = { stream := .totalCount, num := some 1 } :: { stream := .totalByte, num := item.len }
        :: (both item .senders (key sender) ++ both item .receivers (key receiver)) := by
  have hsender : item.path Level.senders.depth = some sender := hsender
  have hreceiver : item.path Level.receivers.depth = some receiver := hreceiver
  rw [itemSeen, if_pos hprotocol, observe_of_path hsender, if_pos (by decide), observe_of_path hreceiver]
  simp [both]

theorem functionSeen_of_path {conn : StatsCol.Connection} (hconn : item.conn = some conn) {names : List Text}
    (hnames : item.path 5 = some names) (reqTable : Table Text ReqInfo) :
    ∃ delays, DelaysOnly delays
      ∧ (functionSeen item reqTable).2 = both item .functions (key names ++ suffix item) ++ delays := by
  have hnames : item.path Level.functions.depth = some names := hnames
  rw [functionSeen, hconn]
  cases hresponse : item.isResponse with
  | none =>
      refine ⟨[], delaysOnly_nil, ?_⟩
      show (observe item .functions _ reqTable _).2 = _
      rw [observe_of_path hnames, suffix, hresponse]
  | some isResponse =>
      cases isResponse with
      | false =>
          refine ⟨(requestSeen item conn.uid reqTable).2, ?_, ?_⟩
          · rw [requestSeen]
            cases reqInfo? item <;> exact delaysOnly_nil
          · show (observe item .functions _ reqTable _).2 = _
            rw [observe_of_path hnames, suffix, hresponse]
      | true =>
          refine ⟨(responseSeen item conn.uid reqTable).2, delaysOnly_responseSeen item conn.uid reqTable, ?_⟩
          show (observe item .functions _ reqTable _).2 = _
          rw [observe_of_path hnames, suffix, hresponse]

theorem itemSeen_function_observed (hwf : WellFormed item) (hprotocol : item.protocol ≠ none)
    (htarget : item.target = none) {protocol uid function : List Text}
    (hpro : item.path 3 = some protocol) (huid : item.path 4 = some uid)
    (hfunction : item.path 5 = some function) (reqTable : Table Text ReqInfo) :
    ∃ delays, DelaysOnly delays ∧ (itemSeen 6 item reqTable).2
      = both item .protocols (key protocol) ++ (both item .uid (key uid)
        ++ (both item .functions (key function ++ suffix item) ++ delays)) := by
  have hpro : item.path Level.protocols.depth = some protocol := hpro
  have huid : item.path Level.uid.depth = some uid := huid
  obtain ⟨conn, hconn⟩ := Option.isSome_iff_exists.mp (hwf.function hprotocol).2
  obtain ⟨delays, hdelays, hseen⟩ := functionSeen_of_path hconn hfunction reqTable
  refine ⟨delays, hdelays, ?_⟩
  rw [itemSeen_function (by decide) htarget (hwf.function hprotocol).1, observe_of_path hpro,
    observe_of_path huid, hseen, List.append_nil, List.append_nil]

theorem itemSeen_target (hprotocol : item.protocol ≠ none) (htarget : item.target ≠ none)
    {target : List Text} (hpath : item.path 6 = some target) (reqTable : Table Text ReqInfo) :
    (itemSeen 6 item reqTable).2 = both item .targets (key target) := by
  have hpath : item.path Level.targets.depth = some target := hpath
  rw [itemSeen, if_neg hprotocol, if_neg htarget, observe_of_path hpath]
  simp

theorem observedOn_delaysOnly {delays : List Observation} (hdelays : DelaysOnly delays) {stream : Stream}
    (hstream : stream ≠ .functionsRes) : observedOn stream delays = [] := by
  rw [observedOn, List.filter_eq_nil_iff]
  intro o ho
  rw [(hdelays o ho).1, decide_eq_true_eq]
  exact Ne.symm hstream

/-- **What an item adds to a level.** -/
theorem observedOn_itemSeen (hwf : WellFormed item) (level : Level) (reqTable : Table Text ReqInfo) :
    observedOn (.count level) (itemSeen 6 item reqTable).2
        = (strAt level item).toList.map (fun str => { stream := .count level, str := str })
      ∧ observedOn (.byte level) (itemSeen 6 item reqTable).2
        = (strAt level item).toList.map fun str =>
          { stream := .byte level, str := str, num := item.len } := by
  by_cases hprotocol : item.protocol = none
  · obtain ⟨sender, hsender⟩ := exists_path hwf (Or.inl (by decide : 1 ≤ 2))
    obtain ⟨receiver, hreceiver⟩ := exists_path hwf (Or.inl (by decide : 2 ≤ 2))
    rw [itemSeen_packet hprotocol hsender hreceiver]
    cases level <;>
      simp [observedOn, both, strAt, pathAt, depths, hprotocol, Level.depth, hsender, hreceiver]
  · obtain ⟨protocol, hpro⟩ := exists_path hwf (Or.inr ⟨hprotocol, (by decide : 3 ≤ 5)⟩)
    obtain ⟨uid, huid⟩ := exists_path hwf (Or.inr ⟨hprotocol, (by decide : 4 ≤ 5)⟩)
    obtain ⟨function, hfunction⟩ := exists_path hwf (Or.inr ⟨hprotocol, (by decide : 5 ≤ 5)⟩)
    cases htarget : item.target with
    | none =>
        obtain ⟨delays, hdelays, hseen⟩ :=
          itemSeen_function_observed hwf hprotocol htarget hpro huid hfunction reqTable
        have hcount := observedOn_delaysOnly hdelays (Stream.noConfusion : Stream.count level ≠ .functionsRes)
        have hbyte := observedOn_delaysOnly hdelays (Stream.noConfusion : Stream.byte level ≠ .functionsRes)
        rw [hseen]
        simp only [observedOn_append, hcount, hbyte, List.append_nil]
        cases level <;>
          simp [observedOn, both, strAt, pathAt, depths, hprotocol, htarget, Level.depth, hpro, huid,
            hfunction]
    | some target =>
        have hpath : item.path 6 = some (function ++ [target]) := by
          rw [StatsCol.Info.path, hfunction, StatsCol.Info.field, htarget]
          rfl
        rw [itemSeen_target hprotocol (htarget ▸ Option.some_ne_none target) hpath]
        cases level <;>
          simp [observedOn, both, strAt, pathAt, depths, hprotocol, htarget, Level.depth, hpath]

end

/-! ### Where the strings go -/

theorem mem_path {item : Info} {n : Nat} {names : List Text} (hpath : item.path n = some names) {name : Text}
    (hname : name ∈ names) : ∃ m, item.field m = some name := by
  induction n generalizing names with
  | zero =>
      cases hpath
      cases hname
  | succ n ih =>
      obtain ⟨above, last, habove, hlast, rfl⟩ := StatsCol.Info.path_succ hpath
      rcases List.mem_append.mp hname with hname | hname
      · exact ih habove hname
      · rw [List.mem_singleton] at hname
        exact ⟨n, hname ▸ hlast⟩

theorem splitOn_key {item : Info} (hwf : WellFormed item) {n : Nat} {names : List Text}
    (hpath : item.path (n + 1) = some names) : (key names).splitOn ';' = names := by
  apply List.splitOn_intercalate
  · intro name hname
    obtain ⟨m, hm⟩ := mem_path hpath hname
    exact hwf.semicolon m name hm
  · intro hnil
    have hlength := StatsCol.Info.length_path hpath
    rw [hnil] at hlength
    cases hlength

theorem parts_key {item : Info} (hwf : WellFormed item) {n : Nat} {names : List Text}
    (hpath : item.path (n + 1) = some names) : parts (n + 1) (key names) = some names := by
  have hlength := StatsCol.Info.length_path hpath
  rw [parts, splitOn_key hwf hpath]
  show (if n + 1 ≤ names.length then some (names.take (n + 1)) else none) = some names
  rw [if_pos hlength.ge, ← hlength, List.take_length]

/-- A loop over the parts of a target comes to its end when each of them has an index. -/
theorem foldlM_subTarget_isSome (pieces : List Text) (tgt : Table Text Text) :
    (pieces.foldlM subTarget tgt).isSome = true ↔ ∀ piece ∈ pieces, ':' ∈ piece := by
  induction pieces generalizing tgt with
  | nil => simp
  | cons piece pieces ih =>
      rw [List.foldlM_cons, List.forall_mem_cons, subTarget]
      by_cases hcolon : ':' ∈ piece
      · obtain ⟨name, index, rest, hsplit⟩ := Text.splitOn_of_mem hcolon
        rw [hsplit]
        exact (ih (tgt.put name index)).trans (by simp [hcolon])
      · rw [List.splitOn_eq_singleton hcolon]
        simp [hcolon]

theorem subTargets_isSome {tgtString : Text} :
    (subTargets tgtString).isSome = true ↔ ∀ piece ∈ tgtString.splitOn ' ', ':' ∈ piece :=
  foldlM_subTarget_isSome _ _

theorem suffix_eq (item : Info) : ∃ kind : Text, ':' ∉ kind ∧ ';' ∉ kind ∧ suffix item = ':' :: kind := by
  rw [suffix]
  cases item.isResponse with
  | none => exact ⟨"-".toList, by decide, by decide, rfl⟩
  | some isResponse =>
      cases isResponse with
      | false => exact ⟨"T".toList, by decide, by decide, rfl⟩
      | true => exact ⟨"F".toList, by decide, by decide, rfl⟩

theorem place_function {item : Info} (hwf : WellFormed item) {names : List Text}
    (hpath : item.path 5 = some names) :
    ∃ kind, place .functions (key names ++ suffix item) = some ⟨names, some (markFunction kind)⟩ := by
  obtain ⟨above, name, habove, hname, rfl⟩ := StatsCol.Info.path_succ hpath
  have hlength : above.length = 4 := StatsCol.Info.length_path habove
  obtain ⟨kind, hkind, hsemicolon, hsuffix⟩ := suffix_eq item
  refine ⟨kind, ?_⟩
  -- the suffix belongs to the last part of the key
  have hsplit : (key (above ++ [name]) ++ suffix item).splitOn ';' = above ++ [name ++ suffix item] := by
    apply Text.splitOn_append (splitOn_key hwf hpath)
    rw [hsuffix, List.mem_cons, not_or]
    exact ⟨by decide, hsemicolon⟩
  have hfunction : (name ++ suffix item).splitOn ':' = [name, kind] := by
    rw [hsuffix]
    exact Text.splitOn_join (hwf.colon name hname) hkind
  have hget : (above ++ [name ++ suffix item])[4]? = some (name ++ suffix item) := by
    rw [← hlength, getElem?_snoc_length]
  have hparts : parts 4 (key (above ++ [name]) ++ suffix item) = some above := by
    rw [parts, hsplit]
    simp [hlength]
  simp [place, hsplit, hparts, hget, hfunction]

theorem place_target {item : Info} (hwf : WellFormed item) {names : List Text}
    (hpath : item.path 6 = some names) :
    ∃ target, item.target = some target ∧ place .targets (key names)
      = (subTargets target).map fun tgt => ⟨names, some fun info => { info with tgt := some tgt }⟩ := by
  have hparts : parts 6 (key names) = some names := parts_key hwf hpath
  have hsplit := splitOn_key hwf hpath
  obtain ⟨above, name, habove, hname, rfl⟩ := StatsCol.Info.path_succ hpath
  have hlength : above.length = 5 := StatsCol.Info.length_path habove
  have hget : (above ++ [name])[5]? = some name := by
    rw [← hlength, getElem?_snoc_length]
  refine ⟨name, hname, ?_⟩
  simp only [place, hsplit, hparts, hget, bind, Option.bind_some]
  cases subTargets name <;> rfl

/-- **The node a string goes to** is that of the path it was made of. -/
theorem place_strAt {item : Info} (hwf : WellFormed item) {level : Level} {str : Text} {names : List Text}
    (hstr : strAt level item = some str) (hnames : pathAt item level.depth = some names) :
    (∀ p, place level str = some p → p.names = names)
      ∧ ((level = .targets → ∀ target, item.target = some target → ∀ piece ∈ target.splitOn ' ', ':' ∈ piece) →
        ∃ p, place level str = some p ∧ p.mark.isSome = true) := by
  have hpath : item.path level.depth = some names := by
    rw [pathAt, Option.ite_none_right_eq_some] at hnames
    exact hnames.2
  rw [strAt, hnames, Option.map_some, Option.some.injEq] at hstr
  have hplaced : ∀ {mark : CountInfo → CountInfo}, place level str = some ⟨names, some mark⟩ →
      (∀ p, place level str = some p → p.names = names)
        ∧ ∃ p, place level str = some p ∧ p.mark.isSome = true := by
    intro mark hplace
    refine ⟨?_, _, hplace, rfl⟩
    intro p hp
    rw [hplace] at hp
    cases hp
    rfl
  have hparts : ∀ {n : Nat}, item.path (n + 1) = some names → (key names ++ []) = str →
      (parts (n + 1) str).map (⟨·, some id⟩ : List Text → Place) = some ⟨names, some id⟩ := by
    intro n hpath hstr
    rw [← hstr, List.append_nil, parts_key hwf hpath]
    rfl
  cases level with
  | senders =>
      obtain ⟨above, name, habove, _, rfl⟩ := StatsCol.Info.path_succ hpath
      cases habove
      have hname : name = str := by simpa [key, List.intercalate] using hstr
      have hplace : place .senders str = some ⟨[name], some id⟩ := by
        rw [← hname]
        rfl
      exact (hplaced hplace).imp id fun hplace _ => hplace
  | receivers => exact (hplaced (hparts hpath hstr)).imp id fun hplace _ => hplace
  | protocols => exact (hplaced (hparts hpath hstr)).imp id fun hplace _ => hplace
  | uid => exact (hplaced (hparts hpath hstr)).imp id fun hplace _ => hplace
  | functions =>
      obtain ⟨kind, hplace⟩ := place_function hwf hpath
      exact (hplaced (hstr ▸ hplace)).imp id fun hplace _ => hplace
  | targets =>
      obtain ⟨target, htarget, hplace⟩ := place_target hwf hpath
      have hstr : key names = str := (List.append_nil _).symm.trans hstr
      rw [hstr] at hplace
      constructor
      · intro p hp
        rw [hplace] at hp
        obtain ⟨tgt, _, rfl⟩ := Option.map_eq_some_iff.mp hp
        rfl
      · intro hindexed
        obtain ⟨tgt, htgt⟩ :=
          Option.isSome_iff_exists.mp (subTargets_isSome.mpr (hindexed rfl target htarget))
        rw [htgt] at hplace
        exact ⟨_, hplace, rfl⟩

/-! ### The strings of all items -/

/-- The items with a string. -/
def itemsOf (strOf : Info → Option Text) (str : Text) (items : List Info) : List Info :=
  items.filter fun item => strOf item = some str

theorem mem_itemsOf {strOf : Info → Option Text} {items : List Info} {item : Info} {str : Text} :
    item ∈ itemsOf strOf str items ↔ item ∈ items ∧ strOf item = some str := by
  rw [itemsOf, List.mem_filter, decide_eq_true_eq]

theorem itemsOf_snoc (strOf : Info → Option Text) (str : Text) (items : List Info) (item : Info) :
    itemsOf strOf str (items ++ [item])
      = itemsOf strOf str items ++ if strOf item = some str then [item] else [] := by
  rw [itemsOf, List.filter_append, ← itemsOf]
  by_cases hstr : strOf item = some str <;> simp [hstr]

/-- At a level every item that has a string is observed under it. -/
structure ObservedAs (level : Level) (strOf : Info → Option Text) (items : List Info)
    (observed : List Observation) : Prop where
  count : observedOn (.count level) observed
    = items.flatMap fun item => (strOf item).toList.map fun str => { stream := .count level, str := str }
  byte : observedOn (.byte level) observed
    = items.flatMap fun item => (strOf item).toList.map fun str =>
      { stream := .byte level, str := str, num := item.len }

namespace ObservedAs

variable {level : Level} {strOf : Info → Option Text} {items : List Info} {observed observed' : List Observation}

theorem nil : ObservedAs level strOf [] [] := ⟨rfl, rfl⟩

theorem snoc (hobserved : ObservedAs level strOf items observed) {item : Info}
    (hitem : ObservedAs level strOf [item] observed') :
    ObservedAs level strOf (items ++ [item]) (observed ++ observed') := by
  constructor
  · rw [observedOn_append, hobserved.count, hitem.count, List.flatMap_append]
  · rw [observedOn_append, hobserved.byte, hitem.byte, List.flatMap_append]

/-- **What is counted under a string**: the items that have it, and their lengths. -/
theorem counted (hobserved : ObservedAs level strOf items observed) (str : Text) :
    counted str (observedOn (.count level) observed)
        = (if itemsOf strOf str items = [] then none else some (itemsOf strOf str items).length)
      ∧ StatsCount.counted str (observedOn (.byte level) observed)
        = if itemsOf strOf str items = [] then none
          else some ((itemsOf strOf str items).map Info.len).sum := by
  rw [hobserved.count, hobserved.byte]
  clear hobserved
  induction items using List.reverseRecOn with
  | nil => exact ⟨rfl, rfl⟩
  | append_singleton items item ih =>
      obtain ⟨hcount, hbyte⟩ := ih
      rw [List.flatMap_append, List.flatMap_append, List.flatMap_singleton, List.flatMap_singleton,
        itemsOf_snoc]
      cases hstr : strOf item with
      | none => simp [hcount, hbyte]
      | some other =>
          simp only [Option.toList_some, List.map_cons, List.map_nil, counted_snoc, hcount, hbyte,
            Option.some.injEq]
          by_cases hother : other = str
          · by_cases hnil : itemsOf strOf str items = [] <;> simp [hother, hnil]
          · simp [hother]

theorem counted_isSome (hobserved : ObservedAs level strOf items observed) {item : Info} (hmem : item ∈ items)
    {str : Text} (hstr : strOf item = some str) :
    (StatsCount.counted str (observedOn (.count level) observed)).isSome = true := by
  rw [(hobserved.counted str).1, if_neg (List.ne_nil_of_mem (mem_itemsOf.mpr ⟨hmem, hstr⟩))]
  rfl

theorem complete (hobserved : ObservedAs level strOf items observed) : Complete level observed := by
  refine ⟨?_, ?_, ?_⟩
  · intro o ho
    rw [hobserved.count, List.mem_flatMap] at ho
    obtain ⟨item, _, ho⟩ := ho
    obtain ⟨str, _, rfl⟩ := List.mem_map.mp ho
    rfl
  · intro o ho
    rw [hobserved.byte, List.mem_flatMap] at ho
    obtain ⟨item, _, ho⟩ := ho
    obtain ⟨str, _, rfl⟩ := List.mem_map.mp ho
    rfl
  · intro str
    obtain ⟨hcount, hbyte⟩ := hobserved.counted str
    rw [hcount, hbyte]
    split <;> rfl

end ObservedAs

section

variable {items : List Info} {reqTable : Table Text ReqInfo} {level : Level}

theorem observedAs_itemsSeen (hwf : ∀ item ∈ items, WellFormed item) (level : Level)
    (reqTable : Table Text ReqInfo) :
    ObservedAs level (strAt level) items (itemsSeen 6 items reqTable).2 := by
  induction items using List.reverseRecOn with
  | nil => exact .nil
  | append_singleton items item ih =>
      have hbefore := ih fun item' hitem' => hwf item' (List.mem_append_left _ hitem')
      obtain ⟨hcount, hbyte⟩ := observedOn_itemSeen
        (hwf item (List.mem_append_right _ (List.mem_singleton_self item))) level
        (itemsSeen 6 items reqTable).1
      have hlast : ObservedAs level (strAt level) [item] (itemSeen 6 item (itemsSeen 6 items reqTable).1).2 :=
        ⟨hcount.trans (List.flatMap_singleton ..).symm, hbyte.trans (List.flatMap_singleton ..).symm⟩
      rw [itemsSeen_snoc]
      exact hbefore.snoc hlast

theorem mem_itemsAt {items : List Info} {path : List Text} {item : Info} :
    item ∈ itemsAt items path ↔ item ∈ items ∧ pathAt item path.length = some path := by
  rw [itemsAt, List.mem_filter, decide_eq_true_eq]

theorem exists_strAt {item : Info} {names : List Text} (hnames : pathAt item level.depth = some names) :
    ∃ str, strAt level item = some str := by
  rw [strAt, hnames]
  exact ⟨_, rfl⟩

end

end Armore.StatsCount
