import Armore.Lib.Raising
import Armore.Stats.SumStats
import Mathlib.Algebra.Order.Floor.Ring
import Mathlib.Data.Rat.Floor

/-!
# From the summaries to the tree

`process_result` writes the summaries into `current_tree`, one level after the other. The keys of a count
table are split again, and each of them creates its node where there is none and overwrites its numbers. A
missing entry or field is a run-time error; it ends the function, which leaves the tree as far as it came,
and so does a `return`.
-/

namespace Armore.StatsCount

open Lib

/-- Where `process_result` ends before its last statement. -/
structure Stopped where
  tree : RootNode
  error : Bool

/-- The value of an expression. -/
def need {V : Type} (tree : RootNode) : Option V → Except Stopped V
  | none => .error ⟨tree, true⟩
  | some value => .ok value

/-- The tree that is left. -/
def left : Except Stopped RootNode → RootNode
  | .ok tree => tree
  | .error stopped => stopped.tree

/-- `[$num=0,$bytes=0.0]`. -/
def noCount : CountInfo := { num := 0, bytes := 0 }

/-- `double_to_count`, which rounds. -/
def doubleToCount (d : ℚ) : Nat := ⌊d + 1 / 2⌋.toNat

/-- The quotient of two counts is a count. -/
def divide (byte count : Nat) : Option ℚ :=
  if count = 0 then none else some ((byte / count : Nat) : ℚ)

/-! ### Splitting a key -/

/-- Where a key of a count table goes: the names of the node, and what is set there besides the numbers. -/
structure Place where
  names : List Text
  mark : Option (CountInfo → CountInfo)

/-- The first parts of a key. -/
def parts (n : Nat) (str : Text) : Option (List Text) :=
  let indexes := str.splitOn ';'
  if n ≤ indexes.length then some (indexes.take n) else none

/-- What the suffix of a function's key says. -/
def markFunction (suffix : Text) (info : CountInfo) : CountInfo :=
  if suffix = "T".toList then { info with isRequest := some true, numRes := some 0 }
  else if suffix = "F".toList then { info with isRequest := some false }
  else info

/-- One part of a target: a name and an index. -/
def subTarget (tgt : Table Text Text) (piece : Text) : Option (Table Text Text) :=
  match piece.splitOn ':' with
  | name :: index :: _ => some (tgt.put name index)
  | _ => none

/-- The parts of a target. -/
def subTargets (tgtString : Text) : Option (Table Text Text) := (tgtString.splitOn ' ').foldlM subTarget ∅

def place : Level → Text → Option Place
  | .senders, str => some ⟨[str], some id⟩
  | .receivers, str => (parts 2 str).map (⟨·, some id⟩)
  | .protocols, str => (parts 3 str).map (⟨·, some id⟩)
  | .uid, str => (parts 4 str).map (⟨·, some id⟩)
  | .functions, str => do
    let names ← parts 4 str
    let function ← (str.splitOn ';')[4]?
    let functionInfo := function.splitOn ':'
    return ⟨names ++ [← functionInfo[0]?], functionInfo[1]?.map markFunction⟩
  | .targets, str => do
    let names ← parts 6 str
    let tgt ← subTargets (← (str.splitOn ';')[5]?)
    return ⟨names, some fun info => { info with tgt := some tgt }⟩

/-! ### The sections -/

/-- The body of the loops over a count table. -/
def storeEntry (level : Level) (byteTable : Table Text Nat) (tree : RootNode)
    (entry : Sigma fun _ : Text => Nat) : Except Stopped RootNode := do
  let place ← need tree (place level entry.1)
  let tree ← need tree (tree.store noCount (fun info => { info with num := entry.2 }) place.names)
  let byte ← need tree (byteTable.get? entry.1)
  let bytes ← need tree (divide byte entry.2)
  let tree ← need tree (tree.store noCount (fun info => { info with bytes := bytes }) place.names)
  let mark ← need tree place.mark
  need tree (tree.store noCount mark place.names)

/-- The totals. -/
def totalSection (result : Result) (tree : RootNode) : Except Stopped RootNode :=
  match result .totalCount with
  | none => .ok tree
  | some r1 => do
    let r2 ← need tree (result .totalByte)
    return tree.mapInfo fun info => { info with num := doubleToCount r1.sum, bytes := r2.sum / r1.sum }

/-- A level: its count table and its byte table. -/
def levelSection (levels : Nat) (result : Result) (level : Level) (tree : RootNode) :
    Except Stopped RootNode :=
  if level.depth ≤ levels then
    match result (.count level) with
    | none => .ok tree
    | some r1 => do
      let r2 ← need tree (result (.byte level))
      match r1.counttable with
      | none => .error ⟨tree, false⟩
      | some countTable =>
        let byteTable ← need tree r2.counttable
        countTable.entries.foldlM (storeEntry level byteTable) tree
  else .ok tree

/-- The body of the loop over the delays: only a node that is there gets them. -/
def storeDelay (tree : RootNode) (entry : Sigma fun _ : Text => KeyedAvgValue) :
    Except Stopped RootNode := do
  let names ← need tree (parts 5 entry.1)
  match tree.find? names with
  | none => return tree
  | some _ =>
    need tree (tree.store noCount
      (fun info => { info with numRes := some entry.2.num, avgDelay := some entry.2.avg }) names)

/-- The delays. -/
def delaySection (levels : Nat) (result : Result) (tree : RootNode) : Except Stopped RootNode :=
  if 5 ≤ levels then
    match result .functionsRes with
    | none => .ok tree
    | some r1 =>
      match r1.avgTable with
      | none => .error ⟨tree, false⟩
      | some avgTable => avgTable.entries.foldlM storeDelay tree
  else .ok tree

def processResult (levels : Nat) (result : Result) (tree : RootNode) : Except Stopped RootNode := do
  let tree ← totalSection result tree
  let tree ← levelSection levels result .senders tree
  let tree ← levelSection levels result .receivers tree
  let tree ← levelSection levels result .protocols tree
  let tree ← levelSection levels result .uid tree
  let tree ← levelSection levels result .functions tree
  let tree ← delaySection levels result tree
  levelSection levels result .targets tree

/-- The tree `after_process` leaves for the next epoch. -/
def emptyTree : RootNode := .leaf noCount 6

/-! ### One entry -/

@[simp] theorem need_ok {V : Type} {tree : RootNode} {value? : Option V} {value : V} :
    need tree value? = .ok value ↔ value? = some value := by
  cases value? <;> simp [need]

theorem length_parts {n : Nat} {str : Text} {names : List Text} (hparts : parts n str = some names) :
    names.length = n := by
  rw [parts, Option.ite_none_right_eq_some, Option.some.injEq] at hparts
  obtain ⟨hlength, rfl⟩ := hparts
  rw [List.length_take, Nat.min_eq_left hlength]

theorem length_place {level : Level} {str : Text} {p : Place} (hplace : place level str = some p) :
    p.names.length = level.depth := by
  have hmap : ∀ {n : Nat}, (parts n str).map (⟨·, some id⟩) = some p → p.names.length = n := by
    intro n hmap
    obtain ⟨names, hnames, rfl⟩ := Option.map_eq_some_iff.mp hmap
    exact length_parts hnames
  cases level with
  | senders =>
      cases hplace
      rfl
  | receivers => exact hmap hplace
  | protocols => exact hmap hplace
  | uid => exact hmap hplace
  | functions =>
      simp only [place, bind, Option.bind_eq_some_iff, pure, Option.some.injEq] at hplace
      obtain ⟨names, hnames, _, _, _, _, rfl⟩ := hplace
      show (names ++ [_]).length = 5
      rw [List.length_append, length_parts hnames]
      rfl
  | targets =>
      simp only [place, bind, Option.bind_eq_some_iff, pure, Option.some.injEq] at hplace
      obtain ⟨names, hnames, _, _, _, _, rfl⟩ := hplace
      exact length_parts hnames

theorem mark_place {level : Level} {str : Text} {p : Place} (hplace : place level str = some p)
    {mark : CountInfo → CountInfo} (hmark : p.mark = some mark) (info : CountInfo) :
    (mark info).num = info.num ∧ (mark info).bytes = info.bytes := by
  have hmap : ∀ {n : Nat}, (parts n str).map (⟨·, some id⟩) = some p →
      (mark info).num = info.num ∧ (mark info).bytes = info.bytes := by
    intro n hmap
    obtain ⟨names, _, rfl⟩ := Option.map_eq_some_iff.mp hmap
    cases hmark
    exact ⟨rfl, rfl⟩
  cases level with
  | senders =>
      cases hplace
      cases hmark
      exact ⟨rfl, rfl⟩
  | receivers => exact hmap hplace
  | protocols => exact hmap hplace
  | uid => exact hmap hplace
  | functions =>
      simp only [place, bind, Option.bind_eq_some_iff, pure, Option.some.injEq] at hplace
      obtain ⟨_, _, _, _, _, _, rfl⟩ := hplace
      obtain ⟨suffix, _, rfl⟩ := Option.map_eq_some_iff.mp hmark
      unfold markFunction
      split
      · exact ⟨rfl, rfl⟩
      · split <;> exact ⟨rfl, rfl⟩
  | targets =>
      simp only [place, bind, Option.bind_eq_some_iff, pure, Option.some.injEq] at hplace
      obtain ⟨_, _, _, _, _, _, rfl⟩ := hplace
      cases hmark
      exact ⟨rfl, rfl⟩

section

variable {level : Level} {byteTable : Table Text Nat} {tree tree' : RootNode}
  {entry : Sigma fun _ : Text => Nat}

theorem storeEntry_ok (hstore : storeEntry level byteTable tree entry = .ok tree') :
    ∃ p mark byte, place level entry.1 = some p ∧ p.mark = some mark ∧ byteTable.get? entry.1 = some byte
      ∧ entry.2 ≠ 0
      ∧ ∀ path, tree'.find? path
        = if path = p.names then
            some (mark { (tree.find? path).getD noCount with
              num := entry.2, bytes := ((byte / entry.2 : Nat) : ℚ) })
          else tree.find? path := by
  simp only [storeEntry, bind_ok, need_ok] at hstore
  obtain ⟨p, hp, tree₁, hstore₁, byte, hbyte, bytes, hbytes, tree₂, hstore₂, mark, hmark, hstore₃⟩ := hstore
  rw [divide, Option.ite_none_left_eq_some, Option.some.injEq] at hbytes
  obtain ⟨hcount, rfl⟩ := hbytes
  refine ⟨p, mark, byte, hp, hmark, hbyte, hcount, ?_⟩
  intro path
  by_cases hpath : path = p.names
  · subst hpath
    simp only [Trie.find?_store hstore₃, Trie.find?_store hstore₂, Trie.find?_store hstore₁, if_true,
      Option.getD_some]
  · rw [Trie.find?_store hstore₃ path, if_neg hpath, Trie.find?_store hstore₂ path, if_neg hpath,
      Trie.find?_store hstore₁ path, if_neg hpath, if_neg hpath]

theorem exists_storeEntry_ok {p : Place} (hplace : place level entry.1 = some p) (hmark : p.mark.isSome = true)
    (habove : (tree.find? p.names.dropLast).isSome = true) {byte : Nat}
    (hbyte : byteTable.get? entry.1 = some byte) (hcount : entry.2 ≠ 0) :
    ∃ tree', storeEntry level byteTable tree entry = .ok tree' := by
  obtain ⟨mark, hmark⟩ := Option.isSome_iff_exists.mp hmark
  have hdepth : p.names.length ≤ 6 := by
    rw [length_place hplace]
    cases level <;> decide
  have hkeep : ∀ {tree tree' : RootNode} {f : CountInfo → CountInfo},
      tree.store noCount f p.names = some tree' → (tree.find? p.names.dropLast).isSome = true →
      (tree'.find? p.names.dropLast).isSome = true := by
    intro tree tree' f hstore habove
    rw [Trie.find?_store hstore]
    split
    · rfl
    · exact habove
  obtain ⟨tree₁, hstore₁⟩ := Option.isSome_iff_exists.mp
    (Trie.store_isSome noCount (fun info => { info with num := entry.2 }) hdepth habove)
  have habove₁ := hkeep hstore₁ habove
  obtain ⟨tree₂, hstore₂⟩ := Option.isSome_iff_exists.mp
    (Trie.store_isSome noCount (fun info => { info with bytes := ((byte / entry.2 : Nat) : ℚ) }) hdepth
      habove₁)
  obtain ⟨tree₃, hstore₃⟩ := Option.isSome_iff_exists.mp
    (Trie.store_isSome noCount mark hdepth (hkeep hstore₂ habove₁))
  refine ⟨tree₃, ?_⟩
  simp only [storeEntry, bind_ok, need_ok]
  exact ⟨p, hplace, tree₁, hstore₁, byte, hbyte, _, if_neg hcount, tree₂, hstore₂, mark, hmark, hstore₃⟩

/-! ### One count table -/

variable {entries : List (Sigma fun _ : Text => Nat)}

/-- A loop that comes to its end has placed every entry, and a node of its level holds what one of the
entries that go there says. -/
theorem foldlM_storeEntry_ok
    (hfold : entries.foldlM (storeEntry level byteTable) tree = .ok tree') (path : List Text) :
    (∀ entry ∈ entries, (place level entry.1).isSome = true)
      ∧ (tree'.find? path = tree.find? path
          ∧ (∀ entry ∈ entries, ∀ p, place level entry.1 = some p → p.names ≠ path)
        ∨ ∃ entry ∈ entries, ∃ p byte info, place level entry.1 = some p ∧ p.names = path
          ∧ byteTable.get? entry.1 = some byte ∧ tree'.find? path = some info ∧ info.num = entry.2
          ∧ info.bytes = ((byte / entry.2 : Nat) : ℚ)) := by
  induction entries using List.reverseRecOn generalizing tree' with
  | nil =>
      cases hfold
      refine ⟨?_, Or.inl ⟨rfl, ?_⟩⟩
      · intro entry hentry
        cases hentry
      · intro entry hentry
        cases hentry
  | append_singleton entries last ih =>
      rw [List.foldlM_append, bind_ok] at hfold
      obtain ⟨tree₁, hfold, hlast⟩ := hfold
      rw [List.foldlM_cons, bind_ok] at hlast
      obtain ⟨tree₂, hstore, hnil⟩ := hlast
      cases hnil
      obtain ⟨p, mark, byte, hp, hmark, hbyte, _, hfind⟩ := storeEntry_ok hstore
      obtain ⟨hplaced, hpath⟩ := ih hfold
      constructor
      · intro entry hentry
        rcases List.mem_append.mp hentry with hentry | hentry
        · exact hplaced entry hentry
        · rw [List.mem_singleton] at hentry
          rw [hentry, hp]
          rfl
      · by_cases hnames : path = p.names
        · right
          obtain ⟨hnum, hbytes⟩ := mark_place hp hmark { (tree₁.find? path).getD noCount with
            num := last.2, bytes := ((byte / last.2 : Nat) : ℚ) }
          refine ⟨last, List.mem_append_right _ (List.mem_singleton_self _), p, byte, _, hp, hnames.symm,
            hbyte, (hfind path).trans (if_pos hnames), hnum, hbytes⟩
        · have hsame : tree'.find? path = tree₁.find? path := (hfind path).trans (if_neg hnames)
          rcases hpath with ⟨hpath, hnone⟩ | ⟨entry, hentry, hholds⟩
          · left
            refine ⟨hsame.trans hpath, ?_⟩
            intro entry hentry p' hp'
            rcases List.mem_append.mp hentry with hentry | hentry
            · exact hnone entry hentry p' hp'
            · rw [List.mem_singleton] at hentry
              rw [hentry, hp] at hp'
              cases hp'
              exact Ne.symm hnames
          · right
            rw [hsame]
            exact ⟨entry, List.mem_append_left _ hentry, hholds⟩

theorem exists_foldlM_ok
    (hentries : ∀ entry ∈ entries, entry.2 ≠ 0 ∧ (byteTable.get? entry.1).isSome = true
      ∧ ∃ p, place level entry.1 = some p ∧ p.mark.isSome = true
        ∧ (tree.find? p.names.dropLast).isSome = true) :
    ∃ tree', entries.foldlM (storeEntry level byteTable) tree = .ok tree' := by
  induction entries generalizing tree with
  | nil => exact ⟨tree, rfl⟩
  | cons entry entries ih =>
      obtain ⟨hcount, hbyte, p, hp, hmark, habove⟩ := hentries entry List.mem_cons_self
      obtain ⟨byte, hbyte⟩ := Option.isSome_iff_exists.mp hbyte
      obtain ⟨tree₁, hstore⟩ := exists_storeEntry_ok hp hmark habove hbyte hcount
      obtain ⟨tree', hfold⟩ : ∃ tree', entries.foldlM (storeEntry level byteTable) tree₁ = .ok tree' := by
        apply ih
        intro entry' hentry'
        obtain ⟨hcount', hbyte', p', hp', hmark', habove'⟩ := hentries entry' (List.mem_cons_of_mem _ hentry')
        refine ⟨hcount', hbyte', p', hp', hmark', ?_⟩
        obtain ⟨_, _, _, _, _, _, _, hfind⟩ := storeEntry_ok hstore
        rw [hfind]
        split
        · rfl
        · exact habove'
      refine ⟨tree', ?_⟩
      rw [List.foldlM_cons, bind_ok]
      exact ⟨tree₁, hstore, hfold⟩

end

/-! ### One level -/

section

variable {levels : Nat} {result : Result} {observed : List Observation} {level : Level}
  {tree tree' : RootNode}

/-- A level whose observations all have their strings, counts and bytes together. -/
structure Complete (level : Level) (observed : List Observation) : Prop where
  count : ∀ o ∈ observedOn (.count level) observed, o.str.isSome = true
  byte : ∀ o ∈ observedOn (.byte level) observed, o.str.isSome = true
  together : ∀ str, (counted str (observedOn (.count level) observed)).isSome
    = (counted str (observedOn (.byte level) observed)).isSome

/-- The node at a path holds what was counted under one of the strings that go there. -/
def Holds (level : Level) (observed : List Observation) (path : List Text) (info : CountInfo) : Prop :=
  ∃ str p num byte, place level str = some p ∧ p.names = path
    ∧ counted str (observedOn (.count level) observed) = some num
    ∧ counted str (observedOn (.byte level) observed) = some byte
    ∧ info.num = num ∧ info.bytes = ((byte / num : Nat) : ℚ)

theorem levelSection_eq (hlevels : level.depth ≤ levels) (hresult : Summarizes result observed)
    (hcomplete : Complete level observed) :
    (observedOn (.count level) observed = [] ∧ ∀ tree, levelSection levels result level tree = .ok tree)
      ∨ ∃ countTable byteTable : Table Text Nat,
        (∀ str, countTable.get? str = counted str (observedOn (.count level) observed))
          ∧ (∀ str, byteTable.get? str = counted str (observedOn (.byte level) observed))
          ∧ ∀ tree, levelSection levels result level tree
            = countTable.entries.foldlM (storeEntry level byteTable) tree := by
  rcases hresult.counttable (.count level) rfl hcomplete.count with
    ⟨hnone, hobserved⟩ | ⟨hne, rv, countTable, hrv, htable, hcount⟩
  · left
    refine ⟨hobserved, ?_⟩
    intro tree
    rw [levelSection, if_pos hlevels, hnone]
  · right
    rcases hresult.counttable (.byte level) rfl hcomplete.byte with
      ⟨_, hobserved⟩ | ⟨_, rv', byteTable, hrv', htable', hbyte⟩
    · -- an observation of a count comes with one of its bytes
      obtain ⟨o, ho⟩ := List.exists_mem_of_ne_nil _ hne
      obtain ⟨str, hstr⟩ := Option.isSome_iff_exists.mp (hcomplete.count o ho)
      have htogether := hcomplete.together str
      rw [hobserved] at htogether
      have hnone : counted str (observedOn (.count level) observed) = none := by
        rw [← Option.not_isSome_iff_eq_none, htogether]
        exact Bool.false_ne_true
      exact absurd hstr (counted_eq_none.mp hnone o ho)
    · refine ⟨countTable, byteTable, hcount, hbyte, ?_⟩
      intro tree
      rw [levelSection, if_pos hlevels, hrv, hrv']
      show (match rv.counttable with
        | none => _
        | some countTable => _) = _
      rw [htable, htable']
      rfl

/-- **A level that is written.** -/
theorem levelSection_ok (hlevels : level.depth ≤ levels) (hresult : Summarizes result observed)
    (hcomplete : Complete level observed) (hok : levelSection levels result level tree = .ok tree')
    (path : List Text) :
    (∀ str, (counted str (observedOn (.count level) observed)).isSome = true → (place level str).isSome = true)
      ∧ (tree'.find? path = tree.find? path
          ∧ (∀ str p, (counted str (observedOn (.count level) observed)).isSome = true →
              place level str = some p → p.names ≠ path)
        ∨ ∃ info, tree'.find? path = some info ∧ Holds level observed path info) := by
  rcases levelSection_eq hlevels hresult hcomplete with ⟨hobserved, heq⟩ | ⟨countTable, byteTable, hcount, hbyte, heq⟩
  · rw [heq] at hok
    cases hok
    rw [hobserved]
    refine ⟨?_, Or.inl ⟨rfl, ?_⟩⟩
    · intro str hstr
      cases hstr
    · intro str p hstr
      cases hstr
  · rw [heq] at hok
    obtain ⟨hplaced, hpath⟩ := foldlM_storeEntry_ok hok path
    have hentry : ∀ str, (counted str (observedOn (.count level) observed)).isSome = true →
        ∃ num, ⟨str, num⟩ ∈ countTable.entries := by
      intro str hstr
      rw [← hcount, Option.isSome_iff_exists] at hstr
      obtain ⟨num, hnum⟩ := hstr
      exact ⟨num, Table.mem_entries_iff.mpr hnum⟩
    constructor
    · intro str hstr
      obtain ⟨num, hnum⟩ := hentry str hstr
      exact hplaced _ hnum
    · rcases hpath with ⟨hsame, hnone⟩ | ⟨entry, hmem, p, byte, info, hp, hnames, hbytes, hfind, hinfo⟩
      · left
        refine ⟨hsame, ?_⟩
        intro str p hstr hp
        obtain ⟨num, hnum⟩ := hentry str hstr
        exact hnone _ hnum p hp
      · right
        refine ⟨info, hfind, entry.1, p, entry.2, byte, hp, hnames, ?_, ?_, hinfo⟩
        · rw [← hcount]
          exact Table.mem_entries_iff.mp hmem
        · rw [← hbyte, hbytes]

theorem exists_levelSection_ok (hlevels : level.depth ≤ levels) (hresult : Summarizes result observed)
    (hcomplete : Complete level observed)
    (hplaces : ∀ str num, counted str (observedOn (.count level) observed) = some num →
      num ≠ 0 ∧ ∃ p, place level str = some p ∧ p.mark.isSome = true
        ∧ (tree.find? p.names.dropLast).isSome = true) :
    ∃ tree', levelSection levels result level tree = .ok tree' := by
  rcases levelSection_eq hlevels hresult hcomplete with ⟨_, heq⟩ | ⟨countTable, byteTable, hcount, hbyte, heq⟩
  · exact ⟨tree, heq tree⟩
  · rw [heq]
    apply exists_foldlM_ok
    intro entry hentry
    have hnum : counted entry.1 (observedOn (.count level) observed) = some entry.2 := by
      rw [← hcount]
      exact Table.mem_entries_iff.mp hentry
    obtain ⟨hne, hplace⟩ := hplaces entry.1 entry.2 hnum
    refine ⟨hne, ?_, hplace⟩
    rw [hbyte, ← hcomplete.together, hnum]
    rfl

end

/-! ### The delays -/

section

variable {tree tree' : RootNode}

theorem storeDelay_ok {entry : Sigma fun _ : Text => KeyedAvgValue}
    (hstore : storeDelay tree entry = .ok tree') :
    ∃ names, parts 5 entry.1 = some names ∧ ∀ path, tree'.find? path
      = if path = names then
          (tree.find? path).map fun info =>
            { info with numRes := some entry.2.num, avgDelay := some entry.2.avg }
        else tree.find? path := by
  rw [storeDelay, bind_ok] at hstore
  obtain ⟨names, hnames, hstore⟩ := hstore
  refine ⟨names, need_ok.mp hnames, ?_⟩
  intro path
  cases hfind : tree.find? names with
  | none =>
      rw [hfind] at hstore
      cases hstore
      by_cases hpath : path = names
      · rw [if_pos hpath, hpath, hfind]
        rfl
      · rw [if_neg hpath]
  | some info =>
      rw [hfind] at hstore
      rw [Trie.find?_store (need_ok.mp hstore)]
      by_cases hpath : path = names
      · rw [if_pos hpath, if_pos hpath, hpath, hfind]
        rfl
      · rw [if_neg hpath, if_neg hpath]

theorem exists_storeDelay_ok (tree : RootNode) {entry : Sigma fun _ : Text => KeyedAvgValue}
    (hparts : (parts 5 entry.1).isSome = true) : ∃ tree', storeDelay tree entry = .ok tree' := by
  obtain ⟨names, hnames⟩ := Option.isSome_iff_exists.mp hparts
  rw [storeDelay, hnames]
  cases hfind : tree.find? names with
  | none =>
      refine ⟨tree, ?_⟩
      show (match tree.find? names with
        | none => pure tree
        | some _ => _) = _
      rw [hfind]
      rfl
  | some info =>
      have hsome : (tree.find? names).isSome = true := by
        rw [hfind]
        rfl
      obtain ⟨tree', htree'⟩ := Option.isSome_iff_exists.mp (Trie.store_isSome_of_find? noCount
        (fun info => { info with numRes := some entry.2.num, avgDelay := some entry.2.avg }) hsome)
      refine ⟨tree', ?_⟩
      show (match tree.find? names with
        | none => pure tree
        | some _ => _) = _
      rw [hfind]
      exact need_ok.mpr htree'

theorem foldlM_storeDelay {entries : List (Sigma fun _ : Text => KeyedAvgValue)}
    (hparts : ∀ entry ∈ entries, (parts 5 entry.1).isSome = true) (tree : RootNode) :
    ∃ tree', entries.foldlM storeDelay tree = .ok tree' ∧ ∀ path,
      (tree'.find? path).map (fun info => (info.num, info.bytes))
        = (tree.find? path).map fun info => (info.num, info.bytes) := by
  induction entries generalizing tree with
  | nil => exact ⟨tree, rfl, fun _ => rfl⟩
  | cons entry entries ih =>
      obtain ⟨tree₁, hstore⟩ := exists_storeDelay_ok tree (hparts entry List.mem_cons_self)
      obtain ⟨tree', hfold, hsame⟩ :=
        ih (fun entry' hentry' => hparts entry' (List.mem_cons_of_mem _ hentry')) tree₁
      refine ⟨tree', ?_, ?_⟩
      · rw [List.foldlM_cons, bind_ok]
        exact ⟨tree₁, hstore, hfold⟩
      · intro path
        obtain ⟨names, _, hfind⟩ := storeDelay_ok hstore
        rw [hsame, hfind]
        split
        · cases tree.find? path <;> rfl
        · rfl

/-- **The delays are written** and change no number. -/
theorem delaySection_ok (levels : Nat) {result : Result} {observed : List Observation}
    (hresult : Summarizes result observed)
    (hdelay : ∀ o ∈ observedOn .functionsRes observed, o.dbl.isSome = true
      ∧ ∃ str, o.str = some str ∧ (parts 5 str).isSome = true) (tree : RootNode) :
    ∃ tree', delaySection levels result tree = .ok tree' ∧ ∀ path,
      (tree'.find? path).map (fun info => (info.num, info.bytes))
        = (tree.find? path).map fun info => (info.num, info.bytes) := by
  unfold delaySection
  split
  · have hstr : ∀ o ∈ observedOn .functionsRes observed, o.str.isSome = true ∧ o.dbl.isSome = true := by
      intro o ho
      obtain ⟨hdbl, str, hstr, _⟩ := hdelay o ho
      rw [hstr]
      exact ⟨rfl, hdbl⟩
    rcases hresult.avgTable hstr with ⟨hnone, _⟩ | ⟨rv, avgTable, hrv, htable, hget⟩
    · rw [hnone]
      exact ⟨tree, rfl, fun _ => rfl⟩
    · rw [hrv]
      show ∃ tree', (match rv.avgTable with
        | none => _
        | some avgTable => _) = Except.ok tree' ∧ _
      rw [htable]
      apply foldlM_storeDelay
      intro entry hentry
      have hsome : (counted entry.1 (observedOn .functionsRes observed)).isSome = true := by
        rw [← hget, Table.mem_entries_iff.mp hentry]
        rfl
      obtain ⟨o, ho, hostr⟩ : ∃ o ∈ observedOn .functionsRes observed, o.str = some entry.1 := by
        by_contra hno
        rw [counted_eq_none.mpr fun o ho hostr => hno ⟨o, ho, hostr⟩] at hsome
        cases hsome
      obtain ⟨_, str, hstr', hparts⟩ := hdelay o ho
      rw [hostr] at hstr'
      cases hstr'
      exact hparts
  · exact ⟨tree, rfl, fun _ => rfl⟩

end

end Armore.StatsCount
