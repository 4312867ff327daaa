import Armore.Stats.Paths
import Mathlib.Data.Nat.Cast.Field

/-!
# The reference tree

What the tree of an epoch is for: a node for every path of an item, the number of the items that have it,
and their average length.
-/

namespace Armore.StatsCount

open Lib
open StatsCol (Info)

/-- The tree counts the items. -/
structure Reference (items : List Info) (tree : RootNode) : Prop where
  nodes : ∀ path, (tree.find? path).isSome = true ↔ path = [] ∨ itemsAt items path ≠ []
  num : ∀ path info, tree.find? path = some info → info.num = (itemsAt items path).length
  bytes : ∀ path info, tree.find? path = some info →
    info.bytes = ((itemsAt items path).map Info.len).sum / (itemsAt items path).length

/-- All items of a function are requests, or all are responses, or none says what it is. -/
def OneKind (items : List Info) : Prop :=
  ∀ item ∈ items, ∀ item' ∈ items, ∀ path, pathAt item 5 = some path → pathAt item' 5 = some path →
    item.isResponse = item'.isResponse

/-- Below the root the average lengths are whole numbers. -/
def Whole (items : List Info) : Prop :=
  ∀ path, path ≠ [] → (itemsAt items path).length ∣ ((itemsAt items path).map Info.len).sum

/-- Every part of a target has an index. -/
def Indexed (items : List Info) : Prop :=
  ∀ item ∈ items, ∀ target, item.protocol ≠ none → item.target = some target →
    ∀ piece ∈ target.splitOn ' ', ':' ∈ piece

section

variable {items : List Info} {reqTable : Table Text ReqInfo} {level : Level}

/-! ### The tree after each level -/

/-- The node at a path holds the items of one string of its level. -/
def HeldBy (items : List Info) (path : List Text) (info : CountInfo) : Prop :=
  ∃ level str item, level.depth = path.length ∧ item ∈ items ∧ strAt level item = some str
    ∧ pathAt item level.depth = some path ∧ info.num = (itemsOf (strAt level) str items).length
    ∧ info.bytes
      = ((((itemsOf (strAt level) str items).map Info.len).sum / (itemsOf (strAt level) str items).length : Nat) : ℚ)

/-- The tree is written down to a depth. -/
structure Filled (items : List Info) (depth : Nat) (tree : RootNode) : Prop where
  nodes : ∀ path, (tree.find? path).isSome = true
    ↔ path.length ≤ depth ∧ (path = [] ∨ itemsAt items path ≠ [])
  held : ∀ path info, path ≠ [] → tree.find? path = some info → HeldBy items path info
  root : ∀ info, tree.find? [] = some info → info.num = (itemsAt items []).length
    ∧ info.bytes = ((itemsAt items []).map Info.len).sum / (itemsAt items []).length

theorem heldBy_of_holds (hwf : ∀ item ∈ items, WellFormed item) {path : List Text} {info : CountInfo}
    (hholds : Holds level (itemsSeen 6 items reqTable).2 path info) :
    level.depth = path.length ∧ HeldBy items path info := by
  obtain ⟨str, p, num, byte, hp, rfl, hnum, hbyte, hinfoNum, hinfoBytes⟩ := hholds
  obtain ⟨hcount, hbytes⟩ := (observedAs_itemsSeen hwf level reqTable).counted str
  rw [hcount, Option.ite_none_left_eq_some, Option.some.injEq] at hnum
  obtain ⟨hne, rfl⟩ := hnum
  rw [hbytes, if_neg hne, Option.some.injEq] at hbyte
  obtain ⟨item, hitem⟩ := List.exists_mem_of_ne_nil _ hne
  obtain ⟨hmem, hstr⟩ := mem_itemsOf.mp hitem
  obtain ⟨names, hnames, _⟩ := Option.map_eq_some_iff.mp hstr
  have hpnames := (place_strAt (hwf item hmem) hstr hnames).1 p hp
  refine ⟨(length_place hp).symm, level, str, item, (length_place hp).symm, hmem, hstr, ?_, hinfoNum, ?_⟩
  · rw [hnames, hpnames]
  · rw [hinfoBytes, hbyte]

/-- **One level more.** -/
theorem Filled.levelSection (hwf : ∀ item ∈ items, WellFormed item) {result : Result}
    (hresult : Summarizes result (itemsSeen 6 items reqTable).2) {tree tree' : RootNode} {depth : Nat}
    (hdepth : level.depth = depth + 1) (hfilled : Filled items depth tree)
    (hok : levelSection 6 result level tree = .ok tree') : Filled items (depth + 1) tree' := by
  have hsix : level.depth ≤ 6 := by cases level <;> decide
  have hcomplete := (observedAs_itemsSeen hwf level reqTable).complete
  have hpath := fun path => (levelSection_ok hsix hresult hcomplete hok path).2
  have hplaced := (levelSection_ok hsix hresult hcomplete hok []).1
  refine ⟨?_, ?_, ?_⟩
  · intro path
    rcases hpath path with ⟨hsame, hnone⟩ | ⟨info, hfind, hholds⟩
    · rw [hsame, hfilled.nodes]
      refine ⟨fun ⟨hle, hnode⟩ => ⟨Nat.le_succ_of_le hle, hnode⟩, ?_⟩
      intro ⟨hle, hnode⟩
      refine ⟨?_, hnode⟩
      by_contra hlt
      -- a path of this level is written
      have hlength : path.length = level.depth := by omega
      rcases hnode with rfl | hnode
      · exact hlt (Nat.zero_le _)
      · obtain ⟨item, hitem⟩ := List.exists_mem_of_ne_nil _ hnode
        obtain ⟨hmem, hitemPath⟩ := mem_itemsAt.mp hitem
        rw [hlength] at hitemPath
        obtain ⟨str, hstr⟩ := exists_strAt hitemPath
        have hsome := (observedAs_itemsSeen hwf _ reqTable).counted_isSome hmem hstr
        obtain ⟨p, hp⟩ := Option.isSome_iff_exists.mp (hplaced str hsome)
        exact hnone str p hsome hp ((place_strAt (hwf item hmem) hstr hitemPath).1 p hp)
    · obtain ⟨hlength, hheld⟩ := heldBy_of_holds hwf hholds
      obtain ⟨level', _, item, hlevel', hmem, _, hitemPath, _⟩ := hheld
      rw [hfind, ← hlength, hdepth]
      refine ⟨fun _ => ⟨le_rfl, Or.inr (List.ne_nil_of_mem (mem_itemsAt.mpr ⟨hmem, ?_⟩))⟩, fun _ => rfl⟩
      rw [← hlevel', hitemPath]
  · intro path info hne hfind
    rcases hpath path with ⟨hsame, _⟩ | ⟨info', hfind', hholds⟩
    · rw [hsame] at hfind
      exact hfilled.held path info hne hfind
    · rw [hfind'] at hfind
      cases hfind
      exact (heldBy_of_holds hwf hholds).2
  · intro info hfind
    rcases hpath [] with ⟨hsame, _⟩ | ⟨_, _, hholds⟩
    · rw [hsame] at hfind
      exact hfilled.root info hfind
    · have hlength := (heldBy_of_holds hwf hholds).1
      rw [hdepth] at hlength
      cases hlength

theorem Filled.congr {depth : Nat} {tree tree' : RootNode} (hfilled : Filled items depth tree)
    (hsame : ∀ path, (tree'.find? path).map (fun info => (info.num, info.bytes))
      = (tree.find? path).map fun info => (info.num, info.bytes)) : Filled items depth tree' := by
  have hinfo : ∀ path info, tree'.find? path = some info →
      ∃ info', tree.find? path = some info' ∧ info.num = info'.num ∧ info.bytes = info'.bytes := by
    intro path info hfind
    have hpath := hsame path
    rw [hfind, Option.map_some, eq_comm, Option.map_eq_some_iff] at hpath
    obtain ⟨info', hfind', heq⟩ := hpath
    obtain ⟨hnum, hbytes⟩ := Prod.mk.inj heq
    exact ⟨info', hfind', hnum.symm, hbytes.symm⟩
  refine ⟨?_, ?_, ?_⟩
  · intro path
    rw [← hfilled.nodes path, ← Option.isSome_map, hsame, Option.isSome_map]
  · intro path info hne hfind
    obtain ⟨info', hfind', hnum, hbytes⟩ := hinfo path info hfind
    obtain ⟨level, str, item, hlevel, hmem, hstr, hpath, hnum', hbytes'⟩ := hfilled.held path info' hne hfind'
    exact ⟨level, str, item, hlevel, hmem, hstr, hpath, hnum.trans hnum', hbytes.trans hbytes'⟩
  · intro info hfind
    obtain ⟨info', hfind', hnum, hbytes⟩ := hinfo [] info hfind
    obtain ⟨hnum', hbytes'⟩ := hfilled.root info' hfind'
    exact ⟨hnum.trans hnum', hbytes.trans hbytes'⟩

/-- The node above a path is the path of an item too. -/
theorem itemsAt_dropLast (haccompanied : Accompanied items) {path : List Text}
    (hpath : itemsAt items path ≠ []) : path.dropLast = [] ∨ itemsAt items path.dropLast ≠ [] := by
  obtain ⟨item, hitem⟩ := List.exists_mem_of_ne_nil _ hpath
  obtain ⟨hmem, hitemPath⟩ := mem_itemsAt.mp hitem
  rw [pathAt, Option.ite_none_right_eq_some] at hitemPath
  obtain ⟨hdepths, hitemPath⟩ := hitemPath
  rcases List.eq_nil_or_concat path with rfl | ⟨above, name, rfl⟩
  · exact Or.inl rfl
  rw [List.concat_eq_append] at hdepths hitemPath ⊢
  rw [List.dropLast_concat]
  rw [List.length_append, List.length_singleton] at hdepths hitemPath
  obtain ⟨above', name', habove, _, heq⟩ := StatsCol.Info.path_succ hitemPath
  obtain ⟨rfl, _⟩ := List.append_inj' heq rfl
  have hfound : ∀ other ∈ items, above.length ∈ depths other → other.path above.length = some above →
      itemsAt items above ≠ [] := by
    intro other hother hdepth hother'
    apply List.ne_nil_of_mem (a := other)
    rw [mem_itemsAt, pathAt, if_pos hdepth]
    exact ⟨hother, hother'⟩
  by_cases hprotocol : item.protocol = none
  · rw [depths, if_pos hprotocol] at hdepths
    by_cases hzero : above.length = 0
    · exact Or.inl (List.eq_nil_of_length_eq_zero hzero)
    · refine Or.inr (hfound item hmem ?_ habove)
      rw [depths, if_pos hprotocol]
      simp only [List.mem_cons, List.not_mem_nil, or_false] at hdepths ⊢
      omega
  · right
    obtain ⟨⟨packet, hpacket, hnone, hsame⟩, hfunction⟩ := haccompanied item hmem hprotocol
    by_cases htarget : item.target = none
    · rw [depths, if_neg hprotocol, if_pos htarget] at hdepths
      simp only [List.mem_cons, List.not_mem_nil, or_false] at hdepths
      by_cases htwo : above.length = 2
      · refine hfound packet hpacket ?_ ?_
        · rw [depths, if_pos hnone, htwo]
          decide
        · rw [htwo, hsame, ← htwo, habove]
      · refine hfound item hmem ?_ habove
        rw [depths, if_neg hprotocol, if_pos htarget]
        simp only [List.mem_cons, List.not_mem_nil, or_false]
        omega
    · rw [depths, if_neg hprotocol, if_neg htarget] at hdepths
      have hfive : above.length = 5 := by
        simp only [List.mem_cons, List.not_mem_nil, or_false] at hdepths
        omega
      obtain ⟨function, hmem', hprotocol', htarget', hsame'⟩ := hfunction htarget
      refine hfound function hmem' ?_ ?_
      · rw [depths, if_neg hprotocol', if_pos htarget', hfive]
        decide
      · rw [hfive, hsame', ← hfive, habove]

theorem Filled.exists_levelSection (hwf : ∀ item ∈ items, WellFormed item) (haccompanied : Accompanied items)
    (hindexed : level = .targets → Indexed items) {result : Result}
    (hresult : Summarizes result (itemsSeen 6 items reqTable).2) {tree : RootNode} {depth : Nat}
    (hdepth : level.depth = depth + 1) (hfilled : Filled items depth tree) :
    ∃ tree', StatsCount.levelSection 6 result level tree = .ok tree' := by
  have hsix : level.depth ≤ 6 := by cases level <;> decide
  apply exists_levelSection_ok hsix hresult ((observedAs_itemsSeen hwf level reqTable).complete)
  intro str num hnum
  rw [((observedAs_itemsSeen hwf level reqTable).counted str).1, Option.ite_none_left_eq_some, Option.some.injEq] at hnum
  obtain ⟨hne, rfl⟩ := hnum
  refine ⟨fun hzero => hne (List.eq_nil_of_length_eq_zero hzero), ?_⟩
  obtain ⟨item, hitem⟩ := List.exists_mem_of_ne_nil _ hne
  obtain ⟨hmem, hstr⟩ := mem_itemsOf.mp hitem
  obtain ⟨names, hnames, _⟩ := Option.map_eq_some_iff.mp hstr
  obtain ⟨hplace, hplaced⟩ := place_strAt (hwf item hmem) hstr hnames
  obtain ⟨p, hp, hmark⟩ := hplaced fun hlevel target htarget =>
    hindexed hlevel item hmem target (by
      intro hprotocol
      rw [hlevel, pathAt, depths, if_pos hprotocol] at hnames
      simp [Level.depth] at hnames) htarget
  refine ⟨p, hp, hmark, ?_⟩
  have hlength : p.names.length = depth + 1 := (length_place hp).trans hdepth
  have hpath : itemsAt items p.names ≠ [] := by
    apply List.ne_nil_of_mem (a := item)
    rw [mem_itemsAt, hlength, ← hdepth, hnames, hplace p hp]
    exact ⟨hmem, rfl⟩
  rw [hfilled.nodes, List.length_dropLast, hlength]
  exact ⟨le_rfl, itemsAt_dropLast haccompanied hpath⟩

/-! ### The totals -/

theorem itemsAt_nil_snoc (items : List Info) (item : Info) :
    itemsAt (items ++ [item]) []
      = itemsAt items [] ++ if item.protocol = none then [item] else [] := by
  have hroot : pathAt item 0 = some [] ↔ item.protocol = none := by
    rw [pathAt, depths]
    by_cases hprotocol : item.protocol = none
    · simp [hprotocol, StatsCol.Info.path]
    · by_cases htarget : item.target = none <;> simp [hprotocol, htarget]
  rw [itemsAt, List.filter_append, ← itemsAt]
  by_cases hprotocol : item.protocol = none
  · simp [hroot.mpr hprotocol, hprotocol]
  · simp [mt hroot.mp hprotocol, hprotocol]

theorem observedOn_total_itemSeen {item : Info} (hwf : WellFormed item) (reqTable : Table Text ReqInfo) :
    observedOn .totalCount (itemSeen 6 item reqTable).2
        = (if item.protocol = none then [{ stream := .totalCount, num := some 1 }] else [])
      ∧ observedOn .totalByte (itemSeen 6 item reqTable).2
        = if item.protocol = none then [{ stream := .totalByte, num := item.len }] else [] := by
  by_cases hprotocol : item.protocol = none
  · obtain ⟨sender, hsender⟩ := exists_path hwf (Or.inl (by decide : 1 ≤ 2))
    obtain ⟨receiver, hreceiver⟩ := exists_path hwf (Or.inl (by decide : 2 ≤ 2))
    rw [itemSeen_packet hprotocol hsender hreceiver]
    simp [observedOn, both, hprotocol]
  · obtain ⟨protocol, hpro⟩ := exists_path hwf (Or.inr ⟨hprotocol, (by decide : 3 ≤ 5)⟩)
    obtain ⟨uid, huid⟩ := exists_path hwf (Or.inr ⟨hprotocol, (by decide : 4 ≤ 5)⟩)
    obtain ⟨function, hfunction⟩ := exists_path hwf (Or.inr ⟨hprotocol, (by decide : 5 ≤ 5)⟩)
    cases htarget : item.target with
    | none =>
        obtain ⟨delays, hdelays, hseen⟩ :=
          itemSeen_function_observed hwf hprotocol htarget hpro huid hfunction reqTable
        have hcount := observedOn_delaysOnly hdelays (Stream.noConfusion : Stream.totalCount ≠ .functionsRes)
        have hbyte := observedOn_delaysOnly hdelays (Stream.noConfusion : Stream.totalByte ≠ .functionsRes)
        rw [hseen]
        simp only [observedOn_append, hcount, hbyte]
        simp [observedOn, both, hprotocol]
    | some target =>
        have hpath : item.path 6 = some (function ++ [target]) := by
          rw [StatsCol.Info.path, hfunction, StatsCol.Info.field, htarget]
          rfl
        rw [itemSeen_target hprotocol (htarget ▸ Option.some_ne_none target) hpath]
        simp [observedOn, both, hprotocol]

theorem sum_total (hwf : ∀ item ∈ items, WellFormed item) (reqTable : Table Text ReqInfo) :
    (observedOn .totalCount (itemsSeen 6 items reqTable).2 = [] ↔ itemsAt items [] = [])
      ∧ (observedOn .totalByte (itemsSeen 6 items reqTable).2 = [] ↔ itemsAt items [] = [])
      ∧ ((observedOn .totalCount (itemsSeen 6 items reqTable).2).foldl sum {}).sum
        = (itemsAt items []).length
      ∧ ((observedOn .totalByte (itemsSeen 6 items reqTable).2).foldl sum {}).sum
        = (((itemsAt items []).map Info.len).sum : Nat) := by
  induction items using List.reverseRecOn with
  | nil => simp [itemsSeen, observedOn, itemsAt]
  | append_singleton items item ih =>
      obtain ⟨hcountNil, hbyteNil, hcount, hbyte⟩ :=
        ih fun item' hitem' => hwf item' (List.mem_append_left _ hitem')
      obtain ⟨hcountItem, hbyteItem⟩ := observedOn_total_itemSeen
        (hwf item (List.mem_append_right _ (List.mem_singleton_self item))) (itemsSeen 6 items reqTable).1
      rw [itemsSeen_snoc, observedOn_append, observedOn_append, hcountItem, hbyteItem, itemsAt_nil_snoc]
      by_cases hprotocol : item.protocol = none
      · simp [hprotocol, sum, hcount, hbyte]
      · simp [hprotocol, hcountNil, hbyteNil, hcount, hbyte]

theorem doubleToCount_natCast (n : Nat) : doubleToCount n = n := by
  have hfloor : ⌊(n : ℚ) + 1 / 2⌋ = n := by
    rw [Int.floor_eq_iff]
    constructor
    · simp
    · norm_num
  rw [doubleToCount, hfloor]
  rfl

theorem exists_totalSection (hwf : ∀ item ∈ items, WellFormed item) {result : Result}
    (hresult : Summarizes result (itemsSeen 6 items reqTable).2) :
    ∃ tree, totalSection result emptyTree = .ok tree ∧ Filled items 0 tree := by
  obtain ⟨hcountNil, hbyteNil, hcount, hbyte⟩ := sum_total hwf reqTable
  have hfilled : ∀ info : CountInfo, info.num = (itemsAt items []).length →
      info.bytes = ((itemsAt items []).map Info.len).sum / (itemsAt items []).length →
      Filled items 0 (.leaf info 6) := by
    intro info hnum hbytes
    refine ⟨?_, ?_, ?_⟩
    · intro path
      cases path with
      | nil => simp
      | cons name path => simp [Trie.find?_leaf_cons]
    · intro path info' hne hfind
      obtain ⟨name, path, rfl⟩ := List.exists_cons_of_ne_nil hne
      rw [Trie.find?_leaf_cons] at hfind
      cases hfind
    · intro info' hfind
      cases hfind
      exact ⟨hnum, hbytes⟩
  rcases hresult.some_or_none .totalCount with ⟨hnone, hobserved⟩ | ⟨hne, rv, hrv, hsame⟩
  · have hnil := hcountNil.mp hobserved
    refine ⟨emptyTree, ?_, hfilled noCount ?_ ?_⟩
    · rw [totalSection, hnone]
    · rw [hnil]
      rfl
    · rw [hnil]
      simp [noCount]
  · rcases hresult.some_or_none .totalByte with ⟨_, hobserved⟩ | ⟨_, rv', hrv', hsame'⟩
    · exact absurd (hcountNil.mpr (hbyteNil.mp hobserved)) hne
    · refine ⟨.leaf { noCount with num := doubleToCount rv.sum, bytes := rv'.sum / rv.sum } 6, ?_,
        hfilled _ ?_ ?_⟩
      · rw [totalSection, hrv, hrv']
        rfl
      · show doubleToCount rv.sum = _
        rw [hsame.sum, show calculation .totalCount = sum from rfl, hcount, doubleToCount_natCast]
      · show rv'.sum / rv.sum = _
        rw [hsame.sum, hsame'.sum, show calculation .totalCount = sum from rfl,
          show calculation .totalByte = sum from rfl, hcount, hbyte]

/-! ### The tree of an epoch -/

theorem length_le_of_itemsAt {path : List Text} (hpath : itemsAt items path ≠ []) : path.length ≤ 6 := by
  obtain ⟨item, hitem⟩ := List.exists_mem_of_ne_nil _ hpath
  have hdepths := (Option.ite_none_right_eq_some.mp (mem_itemsAt.mp hitem).2).1
  rw [depths] at hdepths
  split at hdepths
  · simp only [List.mem_cons, List.not_mem_nil, or_false] at hdepths
    omega
  · split at hdepths <;> simp only [List.mem_cons, List.not_mem_nil, or_false] at hdepths <;> omega

/-- Everything above the targets is written whatever the items are. -/
theorem exists_written (hwf : ∀ item ∈ items, WellFormed item) (haccompanied : Accompanied items)
    {result : Result} (hresult : Summarizes result (itemsSeen 6 items reqTable).2) :
    ∃ tree, processResult 6 result emptyTree = StatsCount.levelSection 6 result .targets tree
      ∧ Filled items 5 tree := by
  have hlevel : ∀ (level : Level) {tree : RootNode} {depth : Nat}, level ≠ .targets →
      level.depth = depth + 1 → Filled items depth tree →
      ∃ tree', StatsCount.levelSection 6 result level tree = .ok tree' ∧ Filled items (depth + 1) tree' := by
    intro level tree depth hlevel hdepth hfilled
    obtain ⟨tree', hok⟩ := hfilled.exists_levelSection hwf haccompanied (fun h => absurd h hlevel) hresult hdepth
    exact ⟨tree', hok, hfilled.levelSection hwf hresult hdepth hok⟩
  obtain ⟨tree₀, hok₀, hfilled₀⟩ := exists_totalSection hwf hresult
  obtain ⟨tree₁, hok₁, hfilled₁⟩ := hlevel .senders (by decide) rfl hfilled₀
  obtain ⟨tree₂, hok₂, hfilled₂⟩ := hlevel .receivers (by decide) rfl hfilled₁
  obtain ⟨tree₃, hok₃, hfilled₃⟩ := hlevel .protocols (by decide) rfl hfilled₂
  obtain ⟨tree₄, hok₄, hfilled₄⟩ := hlevel .uid (by decide) rfl hfilled₃
  obtain ⟨tree₅, hok₅, hfilled₅⟩ := hlevel .functions (by decide) rfl hfilled₄
  have hdelay : ∀ o ∈ observedOn .functionsRes (itemsSeen 6 items reqTable).2, o.dbl.isSome = true
      ∧ ∃ str, o.str = some str ∧ (parts 5 str).isSome = true := by
    intro o ho
    obtain ⟨_, _, hdbl, names, hlength, hstr⟩ := delaysOnly_itemsSeen 6 items reqTable o ho
    refine ⟨hdbl, key names, hstr, ?_⟩
    have hle := Text.length_le_splitOn_intercalate ';' names []
    rw [List.append_nil, hlength] at hle
    rw [parts, key, if_pos hle]
    rfl
  obtain ⟨tree₆, hok₆, hsame⟩ := delaySection_ok 6 hresult hdelay tree₅
  refine ⟨tree₆, ?_, hfilled₅.congr hsame⟩
  simp only [processResult, hok₀, hok₁, hok₂, hok₃, hok₄, hok₅, hok₆, bind, Except.bind]

theorem dvd_of_div_eq {a b : Nat} (hb : 0 < b) (hdiv : ((a / b : Nat) : ℚ) = a / b) : b ∣ a := by
  have hne : (b : ℚ) ≠ 0 := by exact_mod_cast hb.ne'
  rw [eq_div_iff hne] at hdiv
  exact ⟨a / b, by rw [Nat.mul_comm]; exact_mod_cast hdiv.symm⟩

/-- Items counted under one string have one path. -/
theorem pathAt_of_strAt {item item' : Info} (hwf : WellFormed item) (hwf' : WellFormed item') {str : Text}
    (hstr : strAt level item = some str) (hstr' : strAt level item' = some str) :
    pathAt item level.depth = pathAt item' level.depth := by
  obtain ⟨names, hnames, hkey⟩ := Option.map_eq_some_iff.mp hstr
  obtain ⟨names', hnames', hkey'⟩ := Option.map_eq_some_iff.mp hstr'
  have hpath := (Option.ite_none_right_eq_some.mp hnames).2
  have hpath' := (Option.ite_none_right_eq_some.mp hnames').2
  rw [hnames, hnames']
  congr 1
  by_cases hlevel : level = .targets
  · subst hlevel
    have hsplit := splitOn_key hwf hpath
    rw [← splitOn_key hwf' hpath', ← hsplit]
    simp only [reduceCtorEq, if_false, List.append_nil] at hkey hkey'
    rw [hkey, hkey']
  · obtain ⟨hplace, hplaced⟩ := place_strAt hwf hstr hnames
    obtain ⟨p, hp, _⟩ := hplaced fun h => absurd h hlevel
    rw [← hplace p hp, (place_strAt hwf' hstr' hnames').1 p hp]

theorem suffix_injective {item item' : Info} (hsuffix : suffix item = suffix item') :
    item.isResponse = item'.isResponse := by
  unfold suffix at hsuffix
  rcases hresponse : item.isResponse with _ | _ | _ <;> rcases hresponse' : item'.isResponse with _ | _ | _ <;>
    simp [hresponse, hresponse'] at hsuffix ⊢

/-- A node that holds as many items as its path has holds them all. -/
theorem itemsOf_sublist (hwf : ∀ item ∈ items, WellFormed item) {item : Info} (hmem : item ∈ items)
    {str : Text} (hstr : strAt level item = some str) {path : List Text} (hlength : level.depth = path.length)
    (hpath : pathAt item level.depth = some path) :
    (itemsOf (strAt level) str items).Sublist (itemsAt items path) := by
  have hsub : ∀ other ∈ items, strAt level other = some str → pathAt other path.length = some path := by
    intro other hother hstr'
    rw [← hlength, pathAt_of_strAt (hwf other hother) (hwf item hmem) hstr' hstr, hpath]
  clear hmem hwf
  unfold itemsOf itemsAt
  induction items with
  | nil => exact List.Sublist.refl _
  | cons first items ih =>
      have hrest := ih fun other hother => hsub other (List.mem_cons_of_mem _ hother)
      by_cases hfirst : strAt level first = some str
      · rw [List.filter_cons_of_pos (by simpa using hfirst),
          List.filter_cons_of_pos (by simpa using hsub first List.mem_cons_self hfirst)]
        exact hrest.cons_cons first
      · rw [List.filter_cons_of_neg (by simpa using hfirst)]
        exact hrest.trans (List.sublist_cons_self _ _ |>.filter _)

/-- With one kind of items at every function a path has one string. -/
theorem itemsOf_eq_of_oneKind (hwf : ∀ item ∈ items, WellFormed item) (hkind : OneKind items) {item : Info}
    (hmem : item ∈ items) {str : Text} (hstr : strAt level item = some str) {path : List Text}
    (hlength : level.depth = path.length) (hpath : pathAt item level.depth = some path) :
    itemsOf (strAt level) str items = itemsAt items path := by
  unfold itemsOf itemsAt
  apply List.filter_congr
  intro other hother
  rw [decide_eq_decide, ← hlength]
  constructor
  · intro hstr'
    rw [pathAt_of_strAt (hwf other hother) (hwf item hmem) hstr' hstr, hpath]
  · intro hpath'
    rw [strAt, hpath, Option.map_some] at hstr
    rw [strAt, hpath', ← hstr, Option.map_some]
    by_cases hlevel : level = .functions
    · subst hlevel
      rw [suffix, suffix, hkind other hother item hmem path hpath' hpath]
    · rw [if_neg hlevel, if_neg hlevel]

theorem condition_of_reference (hwf : ∀ item ∈ items, WellFormed item) (haccompanied : Accompanied items)
    {result : Result} (hresult : Summarizes result (itemsSeen 6 items reqTable).2) {tree : RootNode}
    (hok : processResult 6 result emptyTree = .ok tree) (hreference : Reference items tree) :
    OneKind items ∧ Whole items ∧ Indexed items := by
  obtain ⟨tree₅, hprocess, hfilled₅⟩ := exists_written hwf haccompanied hresult
  have hdepth : Level.targets.depth = 5 + 1 := rfl
  rw [hprocess] at hok
  have hfilled := hfilled₅.levelSection hwf hresult hdepth hok
  have hheld : ∀ path, path ≠ [] → itemsAt items path ≠ [] → ∃ level str,
      level.depth = path.length ∧ itemsOf (strAt level) str items = itemsAt items path
        ∧ (itemsAt items path).length ∣ ((itemsAt items path).map Info.len).sum := by
    intro path hne hitems
    obtain ⟨info, hfind⟩ := Option.isSome_iff_exists.mp ((hreference.nodes path).mpr (Or.inr hitems))
    obtain ⟨level, str, item, hlength, hmem, hstr, hpath, hnum, hbytes⟩ := hfilled.held path info hne hfind
    have hall : itemsOf (strAt level) str items = itemsAt items path := by
      apply (itemsOf_sublist hwf hmem hstr hlength hpath).eq_of_length
      rw [← hnum, hreference.num path info hfind]
    refine ⟨level, str, hlength, hall, ?_⟩
    rw [hall, hreference.bytes path info hfind] at hbytes
    exact dvd_of_div_eq (List.length_pos_iff.mpr hitems) hbytes.symm
  refine ⟨?_, ?_, ?_⟩
  · intro item hmem item' hmem' path hpath hpath'
    have hfive : path.length = 5 :=
      StatsCol.Info.length_path (Option.ite_none_right_eq_some.mp hpath).2
    have hitem : item ∈ itemsAt items path := mem_itemsAt.mpr ⟨hmem, hfive ▸ hpath⟩
    have hitem' : item' ∈ itemsAt items path := mem_itemsAt.mpr ⟨hmem', hfive ▸ hpath'⟩
    have hne : path ≠ [] := List.ne_nil_of_length_pos (by omega)
    obtain ⟨level, str, hlength, hall, _⟩ := hheld path hne (List.ne_nil_of_mem hitem)
    obtain rfl : level = .functions := by
      rw [hfive] at hlength
      cases level <;> first | rfl | cases hlength
    rw [← hall] at hitem hitem'
    have hstr := (mem_itemsOf.mp hitem).2
    have hstr' := (mem_itemsOf.mp hitem').2
    have hpath : pathAt item Level.functions.depth = some path := hpath
    have hpath' : pathAt item' Level.functions.depth = some path := hpath'
    rw [strAt, hpath, Option.map_some, if_pos rfl] at hstr
    rw [strAt, hpath', Option.map_some, if_pos rfl, ← hstr, Option.some.injEq] at hstr'
    exact (suffix_injective (List.append_cancel_left hstr')).symm
  · intro path hne
    by_cases hitems : itemsAt items path = []
    · rw [hitems]
      exact dvd_rfl
    · obtain ⟨_, _, _, _, hdvd⟩ := hheld path hne hitems
      exact hdvd
  · intro item hmem target hprotocol htarget
    obtain ⟨function, hfunction⟩ := exists_path (hwf item hmem) (Or.inr ⟨hprotocol, (by decide : 5 ≤ 5)⟩)
    have hpath : item.path 6 = some (function ++ [target]) := by
      rw [StatsCol.Info.path, hfunction, StatsCol.Info.field, htarget]
      rfl
    have hstr : strAt .targets item = some (key (function ++ [target])) := by
      simp [strAt, pathAt, depths, hprotocol, htarget, Level.depth, hpath]
    have hplaced := (levelSection_ok (by decide) hresult ((observedAs_itemsSeen hwf .targets reqTable).complete) hok []).1
      _ ((observedAs_itemsSeen hwf _ reqTable).counted_isSome hmem hstr)
    obtain ⟨target', htarget', hplace⟩ := place_target (hwf item hmem) hpath
    rw [htarget] at htarget'
    cases htarget'
    rw [hplace, Option.isSome_map] at hplaced
    exact subTargets_isSome.mp hplaced

theorem exists_reference (hwf : ∀ item ∈ items, WellFormed item) (haccompanied : Accompanied items)
    {result : Result} (hresult : Summarizes result (itemsSeen 6 items reqTable).2) (hkind : OneKind items)
    (hwhole : Whole items) (hindexed : Indexed items) :
    ∃ tree, processResult 6 result emptyTree = .ok tree ∧ Reference items tree := by
  obtain ⟨tree₅, hprocess, hfilled₅⟩ := exists_written hwf haccompanied hresult
  have hdepth : Level.targets.depth = 5 + 1 := rfl
  rw [hprocess]
  obtain ⟨tree, hok⟩ := hfilled₅.exists_levelSection hwf haccompanied (fun _ => hindexed) hresult hdepth
  have hfilled := hfilled₅.levelSection hwf hresult hdepth hok
  have hnumbers : ∀ path info, tree.find? path = some info →
      info.num = (itemsAt items path).length
        ∧ info.bytes = ((itemsAt items path).map Info.len).sum / (itemsAt items path).length := by
    intro path info hfind
    by_cases hne : path = []
    · subst hne
      exact hfilled.root info hfind
    · obtain ⟨level, str, item, hlength, hmem, hstr, hpath, hnum, hbytes⟩ := hfilled.held path info hne hfind
      rw [itemsOf_eq_of_oneKind hwf hkind hmem hstr hlength hpath] at hnum hbytes
      have hitems : itemsAt items path ≠ [] :=
        List.ne_nil_of_mem (mem_itemsAt.mpr ⟨hmem, hlength ▸ hpath⟩)
      refine ⟨hnum, hbytes.trans (Nat.cast_div (hwhole path hne) ?_)⟩
      exact_mod_cast (List.length_pos_iff.mpr hitems).ne'
  refine ⟨tree, hok, ?_, fun path info hfind => (hnumbers path info hfind).1,
    fun path info hfind => (hnumbers path info hfind).2⟩
  intro path
  rw [hfilled.nodes]
  refine and_iff_right_of_imp ?_
  intro hnode
  rcases hnode with rfl | hitems
  · exact Nat.zero_le _
  · exact length_le_of_itemsAt hitems

/-- **The reference tree.** `process_result` comes to its end and leaves the reference tree exactly if no
function has items of two kinds, the averages are whole numbers and every part of a target has an index. -/
theorem processResult_reference_iff (hwf : ∀ item ∈ items, WellFormed item)
    (haccompanied : Accompanied items) {result : Result}
    (hresult : Summarizes result (itemsSeen 6 items reqTable).2) :
    (∃ tree, processResult 6 result emptyTree = .ok tree ∧ Reference items tree)
      ↔ OneKind items ∧ Whole items ∧ Indexed items := by
  constructor
  · intro ⟨tree, hok, hreference⟩
    exact condition_of_reference hwf haccompanied hresult hok hreference
  · intro ⟨hkind, hwhole, hindexed⟩
    exact exists_reference hwf haccompanied hresult hkind hwhole hindexed

end

/-! ### Two epochs -/

/-- A packet from a master to an outstation. -/
def readPacket (len : Nat) : Info where
  ts := 0
  len := len
  sender := "10.0.0.1".toList
  receiver := "10.0.0.2".toList
  conn := some ⟨"C1".toList⟩

/-- The function it carries, a request or a response. -/
def readFunction (len : Nat) (isResponse : Bool) : Info :=
  { readPacket len with
    protocol := some "DNP3".toList
    uid := some "1:2".toList
    func := some "READ".toList
    isResponse := some isResponse }

/-- The target of a request. -/
def readTarget (len : Nat) : Info := { readFunction len false with target := some "Target:3".toList }

theorem wellFormed_read (len : Nat) (isResponse : Bool) :
    WellFormed (readPacket len) ∧ WellFormed (readFunction len isResponse) ∧ WellFormed (readTarget len) := by
  refine ⟨⟨rfl, fun h => absurd rfl h, ?_, ?_⟩, ⟨rfl, fun _ => ⟨rfl, rfl⟩, ?_, ?_⟩,
    ⟨rfl, fun _ => ⟨rfl, rfl⟩, ?_, ?_⟩⟩
  any_goals
    intro n name hname
    match n, hname with
    | 0, hname | 1, hname | 2, hname | 3, hname | 4, hname | 5, hname =>
      first | (cases hname; decide) | cases hname
  all_goals
    intro func hfunc
    first | (cases hfunc; decide) | cases hfunc

/-- An epoch in which one function node receives a request and a response. -/
def mixed : List Info := [readPacket 60, readFunction 60 false, readPacket 61, readFunction 61 true]

theorem wellFormed_mixed : ∀ item ∈ mixed, WellFormed item := by
  intro item hitem
  simp only [mixed, List.mem_cons, List.not_mem_nil, or_false] at hitem
  rcases hitem with rfl | rfl | rfl | rfl
  · exact (wellFormed_read 60 false).1
  · exact (wellFormed_read 60 false).2.1
  · exact (wellFormed_read 61 false).1
  · exact (wellFormed_read 61 true).2.1

theorem accompanied_mixed : Accompanied mixed := by
  intro item hitem hprotocol
  have hpacket : readPacket 60 ∈ mixed := List.mem_cons_self
  simp only [mixed, List.mem_cons, List.not_mem_nil, or_false] at hitem
  rcases hitem with rfl | rfl | rfl | rfl
  · exact absurd rfl hprotocol
  · exact ⟨⟨_, hpacket, rfl, rfl⟩, fun htarget => absurd rfl htarget⟩
  · exact absurd rfl hprotocol
  · exact ⟨⟨_, hpacket, rfl, rfl⟩, fun htarget => absurd rfl htarget⟩

/-- The node of the function holds one of its two items, and the sender's average is no whole number. -/
theorem mixed_not_reference :
    (∀ item ∈ mixed, WellFormed item) ∧ Accompanied mixed
      ∧ Summarizes (summarize (itemsSeen 6 mixed ∅).2) (itemsSeen 6 mixed ∅).2
      ∧ ¬ ∃ tree, processResult 6 (summarize (itemsSeen 6 mixed ∅).2) emptyTree = .ok tree
        ∧ Reference mixed tree := by
  refine ⟨wellFormed_mixed, accompanied_mixed, summarizes_summarize _, ?_⟩
  intro ⟨tree, hok, hreference⟩
  obtain ⟨hkind, _⟩ := condition_of_reference wellFormed_mixed accompanied_mixed
    (summarizes_summarize _) hok hreference
  have hrequest : readFunction 60 false ∈ mixed := by simp [mixed]
  have hresponse : readFunction 61 true ∈ mixed := by simp [mixed]
  cases hkind _ hrequest _ hresponse _ rfl rfl

/-- A request with its target. -/
def plain : List Info := [readPacket 60, readFunction 60 false, readTarget 60]

/-- The epoch of one request. -/
theorem processResult_reference_plain :
    ∃ tree, processResult 6 (summarize (itemsSeen 6 plain ∅).2) emptyTree = .ok tree
      ∧ Reference plain tree := by
  have hread : ∀ item ∈ plain, item = readPacket 60 ∨ item = readFunction 60 false ∨ item = readTarget 60 := by
    intro item hitem
    simpa [plain] using hitem
  obtain ⟨hpacket, hfunction, htarget⟩ := wellFormed_read 60 false
  have hwf : ∀ item ∈ plain, WellFormed item := by
    intro item hitem
    rcases hread item hitem with rfl | rfl | rfl <;> assumption
  have haccompanied : Accompanied plain := by
    intro item hitem hprotocol
    refine ⟨⟨readPacket 60, by simp [plain], rfl, ?_⟩, ?_⟩
    · rcases hread item hitem with rfl | rfl | rfl <;> rfl
    · intro _
      refine ⟨readFunction 60 false, by simp [plain], Option.some_ne_none _, rfl, ?_⟩
      rcases hread item hitem with rfl | rfl | rfl
      · exact absurd rfl hprotocol
      · rfl
      · rfl
  refine (processResult_reference_iff hwf haccompanied (summarizes_summarize _)).mpr ⟨?_, ?_, ?_⟩
  · intro item hitem item' hitem' path hpath hpath'
    rcases hread item hitem with rfl | rfl | rfl
    · cases hpath
    · rcases hread item' hitem' with rfl | rfl | rfl
      · cases hpath'
      · rfl
      · rfl
    · cases hpath
  · intro path _
    have hlen : (itemsAt plain path).map Info.len = List.replicate (itemsAt plain path).length 60 := by
      rw [List.eq_replicate_iff, List.length_map]
      refine ⟨rfl, ?_⟩
      intro len hlen
      obtain ⟨item, hitem, rfl⟩ := List.mem_map.mp hlen
      rcases hread item (mem_itemsAt.mp hitem).1 with rfl | rfl | rfl <;> rfl
    rw [hlen, List.sum_replicate]
    exact Dvd.intro 60 rfl
  · intro item hitem name _ hname
    rcases hread item hitem with rfl | rfl | rfl
    · cases hname
    · cases hname
    · cases hname
      decide

end Armore.StatsCount
