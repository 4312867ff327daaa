import Armore.Stats.CheckTree
import Mathlib.Tactic.Linarith

/-!
# Feedback on an anomaly

`feedback` takes a raised anomaly as normal traffic: it looks the node up by the labels and the field by its
name and makes the deviation so wide that the value is no longer an anomaly. The value is read from `current`,
which `gen_ano_info` leaves unset when traffic has disappeared, and only the branch of the function level
knows all the fields that `check_node` compares.
-/

namespace Armore.AnoDet

open Lib

/-! ### The function -/

/-- The runtime errors: an optional field that is not set, an index that is not in the table. -/
inductive Exn
  | fieldMissing
  | noSuchIndex
  deriving DecidableEq

namespace CountInfo

def set (info : CountInfo) (name : FieldName) (field : FieldInfo) : CountInfo :=
  match name with
  | .num => { info with num := field }
  | .bytes => { info with bytes := field }
  | .ratioRes => { info with ratioRes := some field }
  | .avgDelay => { info with avgDelay := some field }

@[simp] theorem get?_set_self (info : CountInfo) (name : FieldName) (field : FieldInfo) :
    (info.set name field).get? name = some field := by
  cases name <;> rfl

theorem get?_set_of_ne (info : CountInfo) {name other : FieldName} (hne : other ≠ name) (field : FieldInfo) :
    (info.set name field).get? other = info.get? other := by
  cases name <;> cases other <;> first | rfl | exact absurd rfl hne

end CountInfo

/-- `r$f` of an optional field. -/
def read {α : Type} : Option α → Except Exn α
  | some a => .ok a
  | none => .error .fieldMissing

/-- `t$children[key]` for each key of the path, and the info there. -/
def nodeAt : {n : Nat} → Trie Text CountInfo n → List Text → Except Exn CountInfo
  | _, t, [] => .ok t.info
  | 0, _, _ :: _ => .error .fieldMissing
  | _ + 1, t, key :: path => do
      let children ← read t.children
      match children.get? key with
      | some child => nodeAt child path
      | none => .error .noSuchIndex

/-- The tests on the description and the field at six of the seven levels. -/
def numOrBytes (anomaly : AnoInfo) : Except Exn FieldName :=
  if anomaly.desc = .trafficDis then .ok .num
  else do
    let field ← read anomaly.field
    if field = "number".toList then return .num
    else return .bytes

/-- The tests at the function level. -/
def anyField (anomaly : AnoInfo) : Except Exn FieldName :=
  if anomaly.desc = .trafficDis then .ok .num
  else do
    let field ← read anomaly.field
    if field = "number".toList then return .num
    else if field = "bytes".toList then return .bytes
    else if field = "response_ratio".toList then return .ratioRes
    else return .avgDelay

/-- The branches: the keys down to the node, and its field. -/
def selected (anomaly : AnoInfo) : Except Exn (List Text × FieldName) :=
  match anomaly.sender with
  | none => do return ([], ← numOrBytes anomaly)
  | some sender =>
    match anomaly.receiver with
    | none => do return ([sender], ← numOrBytes anomaly)
    | some receiver =>
      match anomaly.protocol with
      | none => do return ([sender, receiver], ← numOrBytes anomaly)
      | some protocol =>
        match anomaly.uid with
        | none => do return ([sender, receiver, protocol], ← numOrBytes anomaly)
        | some uid =>
          match anomaly.func with
          | none => do return ([sender, receiver, protocol, uid], ← numOrBytes anomaly)
          | some func =>
            match anomaly.target with
            | none => do return ([sender, receiver, protocol, uid, func], ← anyField anomaly)
            | some target => do return ([sender, receiver, protocol, uid, func, target], ← numOrBytes anomaly)

def updateAvgStd2 (field : FieldInfo) (x : ℚ) : FieldInfo :=
  if x > field.countAvg then { field with std := x - field.countAvg }
  else { field with std := field.countAvg - x }

/-- The tree with the info of a node changed in place. -/
def modifyAt (tree : RootNode) (path : List Text) (f : CountInfo → CountInfo) : RootNode :=
  (tree.store {} f path).getD tree

/-- `feedback`, with `normal_tree` as it leaves it. -/
def feedback (normalTree : RootNode) (anomaly : AnoInfo) : Except Exn RootNode :=
  if anomaly.desc = .fieldTooLarge ∨ anomaly.desc = .fieldTooSmall ∨ anomaly.desc = .trafficDis then do
    let x ← read anomaly.current
    let (path, name) ← selected anomaly
    let info ← nodeAt normalTree path
    let field ← read (info.get? name)
    return modifyAt normalTree path fun info => info.set name (updateAvgStd2 field x)
  else return normalTree

/-! ### Reading the tree -/

theorem nodeAt_eq_ok {n : Nat} {t : Trie Text CountInfo n} {path : List Text} {info : CountInfo}
    (hfind : t.find? path = some info) : nodeAt t path = .ok info := by
  induction n generalizing path with
  | zero =>
      cases path with
      | nil =>
          rw [nodeAt, ← Option.some.inj ((Trie.find?_nil t).symm.trans hfind)]
      | cons key path => cases hfind
  | succ n ih =>
      cases path with
      | nil =>
          rw [nodeAt, ← Option.some.inj ((Trie.find?_nil t).symm.trans hfind)]
      | cons key path =>
          rw [Trie.find?_cons, Option.bind_eq_some_iff] at hfind
          obtain ⟨child, hchild, hrest⟩ := hfind
          obtain ⟨children, hchildren, hget⟩ := Option.bind_eq_some_iff.mp hchild
          rw [nodeAt, hchildren]
          show (match children.get? key with
            | some child => nodeAt child path
            | none => .error .noSuchIndex) = _
          rw [hget]
          exact ih hrest

/-- The labels lead to the node, and only the function level tells all fields apart. -/
theorem selected_eq {anomaly : AnoInfo} {path : List Text} (hlength : path.length ≤ 6)
    (hlabels : anomaly.labels = labelsOf path) :
    selected anomaly
      = (if path.length = 5 then anyField anomaly else numOrBytes anomaly).map fun name => (path, name) := by
  simp only [AnoInfo.labels, labelsOf, List.cons.injEq] at hlabels
  obtain ⟨hsender, hreceiver, hprotocol, huid, hfunc, htarget, _⟩ := hlabels
  unfold selected
  rw [hsender, hreceiver, hprotocol, huid, hfunc, htarget]
  rcases path with _ | ⟨a, _ | ⟨b, _ | ⟨c, _ | ⟨d, _ | ⟨e, _ | ⟨f, _ | ⟨_, _⟩⟩⟩⟩⟩⟩⟩
  case cons.cons.cons.cons.cons.cons.cons =>
    simp only [List.length_cons] at hlength
    omega
  all_goals rfl

/-! ### What is raised -/

/-- The fields under the names that `check_node` uses. -/
def fieldNamed (name : Text) : Option FieldName :=
  if name = "number".toList then some .num
  else if name = "bytes".toList then some .bytes
  else if name = "response_ratio".toList then some .ratioRes
  else if name = "average_response_delay".toList then some .avgDelay
  else none

theorem mem_comparedIfBoth {name name' : Text} {field : Option FieldInfo} {x : Option ℚ} {field' : FieldInfo} {x' : ℚ}
    (h : .compared name field' x' ∈ comparedIfBoth name' field x) : name = name' ∧ field = some field' := by
  unfold comparedIfBoth at h
  split at h
  · obtain ⟨rfl, rfl, _⟩ := Finding.compared.inj (List.mem_singleton.mp h)
    exact ⟨rfl, rfl⟩
  · cases h

/-- A comparison is of the field that its name stands for. -/
theorem get?_of_mem_comparisons {normal : CountInfo} {current : StatsCount.CountedInfo} {name : Text}
    {field : FieldInfo} {x : ℚ} (h : .compared name field x ∈ comparisons normal current) :
    ∃ fieldName, fieldNamed name = some fieldName ∧ normal.get? fieldName = some field := by
  rw [comparisons, List.mem_append, List.mem_append, List.mem_cons, List.mem_singleton] at h
  rcases h with ((hnum | hbytes) | hratio) | hdelay
  · obtain ⟨rfl, rfl, _⟩ := Finding.compared.inj hnum
    exact ⟨.num, by decide, rfl⟩
  · obtain ⟨rfl, rfl, _⟩ := Finding.compared.inj hbytes
    exact ⟨.bytes, by decide, rfl⟩
  · obtain ⟨rfl, hfield⟩ := mem_comparedIfBoth hratio
    exact ⟨.ratioRes, by decide, hfield⟩
  · obtain ⟨rfl, hfield⟩ := mem_comparedIfBoth hdelay
    exact ⟨.avgDelay, by decide, hfield⟩

theorem compared_of_mem_findings {n : Nat} {normal : Trie Text CountInfo n}
    {current : Trie Text StatsCount.CountedInfo n} {path : List Text} {name : Text} {field : FieldInfo} {x : ℚ}
    (h : .compared name field x ∈ findings normal current path) :
    ∃ info fieldName, normal.find? path = some info ∧ fieldNamed name = some fieldName
      ∧ info.get? fieldName = some field := by
  unfold findings at h
  split at h
  · rename_i info currentInfo hinfo _
    obtain ⟨fieldName, hname, hfield⟩ := get?_of_mem_comparisons h
    exact ⟨info, fieldName, hinfo, hname, hfield⟩
  · split at h <;> simp at h
  · split at h <;> simp at h
  · cases h

/-- The three kinds of anomalies that `feedback` looks at, as they are raised. -/
inductive Raised (normal : RootNode) (anomaly : AnoInfo) (path : List Text) : Prop
  | disappeared (desc : anomaly.desc = .trafficDis) (current : anomaly.current = none)
  | deviates (name : Text) (fieldName : FieldName) (info : CountInfo) (field : FieldInfo) (x : ℚ)
      (desc : anomaly.desc = .fieldTooLarge ∨ anomaly.desc = .fieldTooSmall)
      (fieldName_eq : fieldNamed name = some fieldName) (field_eq : anomaly.field = some name)
      (current : anomaly.current = some x) (info_eq : normal.find? path = some info)
      (get_eq : info.get? fieldName = some field) (outside : verdict field x ≠ .unknown)

theorem raised_of_mem_checkTree {normal : RootNode} {current : StatsCount.CountedTree} {g : AnoInfo}
    {logBase : List BaseInfo} {anomaly : AnoInfo}
    (hraised : anomaly ∈ (checkTree normal current { gAnoInfo := g, logBase }).1.raised)
    (hdesc : anomaly.desc = .fieldTooLarge ∨ anomaly.desc = .fieldTooSmall ∨ anomaly.desc = .trafficDis) :
    ∃ path : List Text, path.length ≤ 6 ∧ anomaly.labels = labelsOf path ∧ Raised normal anomaly path := by
  rw [(checkTree_raises normal current _).raised, List.nil_append] at hraised
  obtain ⟨⟨path, finding⟩, hcomputed, rfl⟩ := List.mem_map.mp hraised
  have hreport : ⟨path, finding⟩ ∈ reports normal current := (List.takeWhile_prefix _).subset hcomputed
  refine ⟨path, length_le_of_mem_reports hreport, labels_render g _, ?_⟩
  have hfinding := mem_findings_of_mem_reports hreport
  cases finding with
  | isNew current =>
      simp [render] at hdesc
  | disappeared info => exact .disappeared rfl rfl
  | compared name field x =>
      obtain ⟨info, fieldName, hinfo, hname, hfield⟩ := compared_of_mem_findings hfinding
      by_cases hverdict : verdict field x = .unknown
      · simp [render, hverdict] at hdesc
      · refine .deviates name fieldName info field x ?_ hname ?_ ?_ hinfo hfield hverdict
        · simp only [render, if_neg hverdict]
          exact (verdict_cases field x).resolve_left hverdict
        · simp only [render, if_neg hverdict]
        · simp only [render, if_neg hverdict]

/-! ### What is corrected -/

/-- From one tree to the other only the deviation of the field of the node at the path has changed, unless the
value was inside already, and the field now gives the value a score of zero. -/
def Corrects (tree tree' : RootNode) (path : List Text) (name : FieldName) (x : ℚ) : Prop :=
  ∃ info field std, tree.find? path = some info ∧ info.get? name = some field
    ∧ (std ≠ field.std ∨ verdict field x = .unknown)
    ∧ (∀ other, tree'.find? other
        = if other = path then some (info.set name { field with std }) else tree.find? other)
    ∧ ∀ g, (calAnomalyScore { field with std } x g).1 = .ok 0

namespace AnoInfo

/-- The field that an anomaly names. -/
def fieldName (anomaly : AnoInfo) : Option FieldName :=
  if anomaly.desc = .trafficDis then some .num else anomaly.field.bind fieldNamed

/-- The value that an anomaly is about. -/
def value (anomaly : AnoInfo) : Option ℚ := if anomaly.desc = .trafficDis then some 0 else anomaly.current

end AnoInfo

/-- The feedback returns and corrects the field that the anomaly names in the node that it names. -/
def FeedbackHits (tree : RootNode) (anomaly : AnoInfo) : Prop :=
  ∃ tree' path name x, feedback tree anomaly = .ok tree' ∧ anomaly.labels = labelsOf path
    ∧ anomaly.fieldName = some name ∧ anomaly.value = some x ∧ Corrects tree tree' path name x

theorem updateAvgStd2_eq (field : FieldInfo) (x : ℚ) :
    updateAvgStd2 field x = { field with std := |x - field.countAvg| } := by
  unfold updateAvgStd2
  split
  · rename_i hlarge
    rw [abs_of_pos (sub_pos.mpr hlarge)]
  · rename_i hsmall
    rw [abs_of_nonpos (sub_nonpos.mpr (not_lt.mp hsmall)), neg_sub]

theorem scoreOf_updateAvgStd2 (field : FieldInfo) (x : ℚ) : scoreOf (updateAvgStd2 field x) x = 0 := by
  rw [updateAvgStd2_eq, scoreOf, if_pos]
  dsimp only
  have hupper := le_abs_self (x - field.countAvg)
  have hlower := neg_abs_le (x - field.countAvg)
  constructor <;> linarith

/-- A value outside the band has another distance than the deviation. -/
theorem std_updateAvgStd2_ne {field : FieldInfo} {x : ℚ} (houtside : verdict field x ≠ .unknown) :
    (updateAvgStd2 field x).std ≠ field.std := by
  intro hstd
  refine houtside ?_
  rw [updateAvgStd2_eq] at hstd
  have hstd : |x - field.countAvg| = field.std := hstd
  have hupper := le_abs_self (x - field.countAvg)
  have hlower := neg_abs_le (x - field.countAvg)
  rw [verdict, if_pos]
  rw [← hstd]
  constructor <;> linarith

theorem find?_modifyAt {tree : RootNode} {path : List Text} {info : CountInfo} (hinfo : tree.find? path = some info)
    (f : CountInfo → CountInfo) (other : List Text) :
    (modifyAt tree path f).find? other = if other = path then some (f info) else tree.find? other := by
  have hsome : (tree.find? path).isSome = true := by rw [hinfo]; rfl
  obtain ⟨tree', htree'⟩ := Option.isSome_iff_exists.mp (Trie.store_isSome_of_find? {} f hsome)
  rw [modifyAt, htree', Option.getD_some, Trie.find?_store htree' other, hinfo, Option.getD_some]

/-- What the feedback does when the value is set and the field it selects is there. -/
theorem feedback_ok {tree : RootNode} {anomaly : AnoInfo} {path : List Text} {name : FieldName} {info : CountInfo}
    {field : FieldInfo} {x : ℚ} (hdesc : anomaly.desc = .fieldTooLarge ∨ anomaly.desc = .fieldTooSmall)
    (hcurrent : anomaly.current = some x) (hselected : selected anomaly = .ok (path, name))
    (hinfo : tree.find? path = some info) (hfield : info.get? name = some field) :
    feedback tree anomaly
      = .ok (modifyAt tree path fun info => info.set name (updateAvgStd2 field x)) := by
  have hknown : anomaly.desc = .fieldTooLarge ∨ anomaly.desc = .fieldTooSmall ∨ anomaly.desc = .trafficDis :=
    hdesc.imp_right .inl
  rw [feedback, if_pos hknown, hcurrent, hselected]
  show (do
    let info ← nodeAt tree path
    let field ← read (info.get? name)
    return modifyAt tree path fun info => info.set name (updateAvgStd2 field x)) = _
  rw [nodeAt_eq_ok hinfo]
  show (do
    let field ← read (info.get? name)
    return modifyAt tree path fun info => info.set name (updateAvgStd2 field x)) = _
  rw [hfield]
  rfl

theorem EachField.set {P : FieldInfo → Prop} {info : CountInfo} (heach : EachField P info) (name : FieldName)
    {field : FieldInfo} (hfield : P field) : EachField P (info.set name field) := by
  intro other field' hget
  by_cases hother : other = name
  · subst hother
    rw [CountInfo.get?_set_self] at hget
    exact Option.some.inj hget ▸ hfield
  · rw [CountInfo.get?_set_of_ne info hother] at hget
    exact heach other field' hget

theorem EachNode.modifyAt {P : FieldInfo → Prop} {tree : RootNode} (heach : EachNode P tree) {path : List Text}
    {info : CountInfo} (hinfo : tree.find? path = some info) (name : FieldName) {field : FieldInfo}
    (hfield : P field) : EachNode P (AnoDet.modifyAt tree path fun info => info.set name field) := by
  intro other info' hfind
  rw [find?_modifyAt hinfo] at hfind
  split at hfind
  · exact Option.some.inj hfind ▸ (heach path info hinfo).set name hfield
  · exact heach other info' hfind

theorem corrects_updated {tree : RootNode} {path : List Text} {name : FieldName} {info : CountInfo}
    {field : FieldInfo} {x : ℚ} (hinfo : tree.find? path = some info) (hfield : info.get? name = some field)
    (houtside : verdict field x ≠ .unknown) :
    Corrects tree (modifyAt tree path fun info => info.set name (updateAvgStd2 field x)) path name x := by
  have hstd := updateAvgStd2_eq field x
  refine ⟨info, field, |x - field.countAvg|, hinfo, hfield, .inl ?_, ?_, ?_⟩
  · have hne := std_updateAvgStd2_ne houtside
    rwa [hstd] at hne
  · intro other
    rw [find?_modifyAt hinfo, hstd]
  · intro g
    have hscorable : Scorable (updateAvgStd2 field x) x := by
      rw [hstd]
      exact fun _ => abs_nonneg _
    rw [← hstd, calAnomalyScore_of_scorable hscorable, scoreOf_updateAvgStd2]

/-! ### Which anomalies are handled -/

/-- The traffic has not disappeared, and the level is that of a function if the field is not of every level. -/
def Handled (anomaly : AnoInfo) : Prop :=
  anomaly.desc ≠ .trafficDis
    ∧ (anomaly.field = some "number".toList ∨ anomaly.field = some "bytes".toList
      ∨ anomaly.func.isSome = true ∧ anomaly.target.isNone = true)

theorem length_eq_five_iff {anomaly : AnoInfo} {path : List Text} (hlabels : anomaly.labels = labelsOf path) :
    path.length = 5 ↔ anomaly.func.isSome = true ∧ anomaly.target.isNone = true := by
  simp only [AnoInfo.labels, labelsOf, List.cons.injEq] at hlabels
  rw [hlabels.2.2.2.2.1, hlabels.2.2.2.2.2.1]
  simp only [List.getElem?_eq_some_iff, Option.isSome_iff_exists, Option.isNone_iff_eq_none, List.getElem?_eq_none_iff]
  constructor
  · intro hlength
    exact ⟨⟨path[4], by omega, rfl⟩, by omega⟩
  · intro hends
    obtain ⟨⟨_, hlong, _⟩, hshort⟩ := hends
    omega

section

variable {anomaly : AnoInfo} {name : Text} (hdesc : anomaly.desc ≠ .trafficDis) (hname : anomaly.field = some name)
include hdesc hname

theorem anyField_eq {fieldName : FieldName} (hfield : fieldNamed name = some fieldName) :
    anyField anomaly = .ok fieldName := by
  rw [anyField, if_neg hdesc, hname]
  unfold fieldNamed at hfield
  dsimp only [read, bind, Except.bind]
  split_ifs at hfield ⊢ <;> rw [← Option.some.inj hfield] <;> rfl

theorem numOrBytes_eq : numOrBytes anomaly = .ok (if name = "number".toList then .num else .bytes) := by
  rw [numOrBytes, if_neg hdesc, hname]
  dsimp only [read, bind, Except.bind]
  split <;> rfl

end

section

variable {anomaly : AnoInfo} {path : List Text} {name : Text} {fieldName : FieldName} (hlength : path.length ≤ 6)
  (hlabels : anomaly.labels = labelsOf path) (hdesc : anomaly.desc ≠ .trafficDis) (hname : anomaly.field = some name)
  (hfield : fieldNamed name = some fieldName)
include hlength hlabels hdesc hname hfield

/-- The branch of a handled anomaly is that of its field. -/
theorem selected_of_handled (hhandled : Handled anomaly) : selected anomaly = .ok (path, fieldName) := by
  have hselected := selected_eq hlength hlabels
  rw [numOrBytes_eq hdesc hname, anyField_eq hdesc hname hfield] at hselected
  have hkind := hhandled.2
  rw [hname, Option.some.injEq, Option.some.injEq, ← length_eq_five_iff hlabels] at hkind
  rw [hselected]
  rcases hkind with rfl | rfl | hfive
  · obtain rfl : .num = fieldName := Option.some.inj hfield
    split <;> rfl
  · obtain rfl : .bytes = fieldName := Option.some.inj hfield
    split <;> rfl
  · rw [if_pos hfive]
    rfl

/-- The branch of any other is that of the bytes, which are not its field. -/
theorem selected_of_not_handled (hother : ¬ Handled anomaly) :
    selected anomaly = .ok (path, .bytes) ∧ fieldName ≠ .bytes := by
  have hselected := selected_eq hlength hlabels
  rw [numOrBytes_eq hdesc hname, anyField_eq hdesc hname hfield] at hselected
  rw [Handled, and_iff_right hdesc, not_or, not_or, hname, Option.some.injEq, Option.some.injEq,
    ← length_eq_five_iff hlabels] at hother
  rw [if_neg hother.2.2, if_neg hother.1] at hselected
  refine ⟨hselected, fun heq => ?_⟩
  rw [heq, fieldNamed, if_neg hother.1, if_neg hother.2.1] at hfield
  split_ifs at hfield <;> cases hfield

end

/-- What changes another field corrects nothing. -/
theorem not_corrects_of_ne {tree : RootNode} {path : List Text} {name other : FieldName} {info : CountInfo}
    {field : FieldInfo} {x : ℚ} (hne : name ≠ other) (hinfo : tree.find? path = some info)
    (hfield : info.get? name = some field) (houtside : verdict field x ≠ .unknown) (new : FieldInfo) :
    ¬ Corrects tree (modifyAt tree path fun info => info.set other new) path name x := by
  intro ⟨info', field', std, hinfo', hfield', hchanged, hframe, _⟩
  obtain rfl := Option.some.inj (hinfo.symm.trans hinfo')
  obtain rfl := Option.some.inj (hfield.symm.trans hfield')
  have hsame := hframe path
  rw [find?_modifyAt hinfo, if_pos rfl, if_pos rfl, Option.some.injEq] at hsame
  have hfieldSame := congrArg (fun info => info.get? name) hsame
  rw [CountInfo.get?_set_of_ne _ hne, hfield, CountInfo.get?_set_self, Option.some.injEq] at hfieldSame
  rcases hchanged with hstd | hunknown
  · exact hstd (congrArg FieldInfo.std hfieldSame).symm
  · exact houtside hunknown

theorem feedbackHits_iff_of_raised {tree : RootNode} {anomaly : AnoInfo} {path : List Text} (hlength : path.length ≤ 6)
    (hlabels : anomaly.labels = labelsOf path) (hraised : Raised tree anomaly path) :
    FeedbackHits tree anomaly ↔ Handled anomaly := by
  cases hraised with
  | disappeared hdis hcurrent =>
      apply iff_of_false
      · intro ⟨tree', _, _, _, hfeedback, _⟩
        rw [feedback, if_pos (.inr (.inr hdis)), hcurrent] at hfeedback
        cases hfeedback
      · intro h
        exact h.1 hdis
  | deviates name fieldName info field x hdesc hnamed hfield hcurrent hinfo hget houtside =>
      have hnotDis : anomaly.desc ≠ .trafficDis := by
        rcases hdesc with h | h <;> rw [h] <;> decide
      have hfieldName : anomaly.fieldName = some fieldName := by
        rw [AnoInfo.fieldName, if_neg hnotDis, hfield, Option.bind_some, hnamed]
      have hvalue : anomaly.value = some x := by
        rw [AnoInfo.value, if_neg hnotDis, hcurrent]
      constructor
      · intro ⟨tree', path', name', x', hfeedback, hlabels', hname', hvalue', hcorrects⟩
        by_contra hother
        obtain ⟨hselected, hne⟩ := selected_of_not_handled hlength hlabels hnotDis hfield hnamed hother
        rw [feedback_ok hdesc hcurrent hselected hinfo rfl] at hfeedback
        have hlength' : path'.length ≤ 6 := by
          obtain ⟨_, _, _, hinfo', _⟩ := hcorrects
          exact Trie.length_le_of_find? hinfo'
        obtain rfl : path' = path := labelsOf_inj hlength' hlength (hlabels'.symm.trans hlabels)
        obtain rfl := Option.some.inj (hfieldName.symm.trans hname')
        obtain rfl := Option.some.inj (hvalue.symm.trans hvalue')
        rw [← Except.ok.inj hfeedback] at hcorrects
        exact not_corrects_of_ne hne hinfo hget houtside _ hcorrects
      · intro hhandled
        have hselected := selected_of_handled hlength hlabels hnotDis hfield hnamed hhandled
        exact ⟨_, path, fieldName, x, feedback_ok hdesc hcurrent hselected hinfo hget, hlabels, hfieldName, hvalue,
          corrects_updated hinfo hget houtside⟩

/-- **Which raised anomalies are corrected**: all but disappeared traffic and, away from the function level, the
fields of the responses. -/
theorem feedbackHits_iff (normal : RootNode) (current : StatsCount.CountedTree) (g : AnoInfo)
    (logBase : List BaseInfo) {anomaly : AnoInfo}
    (hraised : anomaly ∈ (checkTree normal current { gAnoInfo := g, logBase }).1.raised)
    (hdesc : anomaly.desc = .fieldTooLarge ∨ anomaly.desc = .fieldTooSmall ∨ anomaly.desc = .trafficDis) :
    FeedbackHits normal anomaly ↔ Handled anomaly := by
  obtain ⟨path, hlength, hlabels, h⟩ := raised_of_mem_checkTree hraised hdesc
  exact feedbackHits_iff_of_raised hlength hlabels h

/-- Two packets instead of one. -/
def moreTraffic : AnoInfo := render blank ⟨[], .compared "number".toList { countAvg := 1 } 2⟩

/-- The traffic of the sender has disappeared. -/
def lostSender : AnoInfo := render blank ⟨["10.0.0.1".toList], .disappeared { num := { countAvg := 1 } }⟩

/-- What the check of the two trees raises. -/
theorem raised_onePacket : (checkTree onePacket twoPackets { gAnoInfo := blank, logBase := [] }).1.raised
    = (reports onePacket twoPackets).map (render blank) := by
  rw [(checkTree_raises onePacket twoPackets _).raised,
    computed_of_defined fun _ => defined_of_mem_reports std_onePacket]
  rfl

theorem moreTraffic_raised : moreTraffic ∈ (checkTree onePacket twoPackets { gAnoInfo := blank, logBase := [] }).1.raised := by
  rw [raised_onePacket]
  exact List.mem_map_of_mem List.mem_cons_self

theorem lostSender_raised : lostSender ∈ (checkTree onePacket twoPackets { gAnoInfo := blank, logBase := [] }).1.raised := by
  rw [raised_onePacket]
  refine List.mem_map_of_mem (List.mem_append_right _ ?_)
  exact List.mem_cons_self

theorem verdict_moreTraffic : verdict { countAvg := 1 } 2 = .fieldTooLarge := by
  norm_num [verdict]

theorem desc_moreTraffic : moreTraffic.desc = .fieldTooLarge := by
  rw [moreTraffic, render]
  dsimp only
  rw [verdict_moreTraffic]
  rfl

theorem feedbackHits_moreTraffic : FeedbackHits onePacket moreTraffic ↔ Handled moreTraffic :=
  feedbackHits_iff onePacket twoPackets blank [] moreTraffic_raised (.inl desc_moreTraffic)

/-- The feedback on a sender that has disappeared reads a value that is not set. -/
theorem lostSender_fails :
    lostSender ∈ (checkTree onePacket twoPackets { gAnoInfo := blank, logBase := [] }).1.raised
      ∧ lostSender.desc = .trafficDis
      ∧ feedback onePacket lostSender = .error .fieldMissing
      ∧ ¬ FeedbackHits onePacket lostSender := by
  have hfails : feedback onePacket lostSender = .error .fieldMissing := rfl
  refine ⟨lostSender_raised, rfl, hfails, ?_⟩
  intro ⟨_, _, _, _, hfeedback, _⟩
  rw [hfails] at hfeedback
  cases hfeedback

end Armore.AnoDet
