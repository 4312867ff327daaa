import Armore.Lib.Text
import Mathlib

/-!
# The functions of a logged policy

`policyLogging.bro`: a policy's `func` is the mode of the form and the functions, joined by a colon.
`checkPolicyModbus` and `checkPolicyDnp3` compare it with the function names of a record. The list is compared as
one name, its commas included, and the exact comparison of a DNP3 name minds the case.
-/

namespace Armore.Logging

open Lib Lib.Text

/-! ### The functions of the script -/

/-- What the two functions read of a `filter`. -/
structure Filter where
  funcRegex : Text
  func : Text
  deriving DecidableEq

/-- What `Input::end_of_data` stores of the `func` of a policy; `none` is the runtime error of an index. -/
def loadFilter (func : Text) : Option Filter :=
  match func.splitOn ':' with
  | funcRegex :: func :: _ => some ⟨funcRegex, func⟩
  | _ => none

/-- `Modbus::Info`. -/
structure ModbusInfo where
  func : Option Text

/-- `DNP3::Info`. -/
structure Dnp3Info where
  fcRequest : Option Text
  fcReply : Option Text

def toLower (text : Text) : Text := text.map Char.toLower

/-- `strstr`: the place of the first occurrence from one, or zero. -/
def strstr (big little : Text) : Nat :=
  match big.tails.findIdx? fun rest => little.isPrefixOf rest with
  | some i => i + 1
  | none => 0

/-- `funcFlagged` and what is added to `reason`. -/
structure FuncTest where
  funcFlagged : Bool
  reason : Text

/-- `fmt("Function=%s,", func)`. -/
def functionReason (func : Text) : Text := "Function=".toList ++ func ++ [',']

/-- The last condition: a star is flagged without a match. -/
def FuncTest.orStar (test : FuncTest) (f : Filter) : FuncTest :=
  if !test.funcFlagged && f.func = ['*'] then ⟨true, test.reason ++ functionReason f.func⟩ else test

/-- The comparison under `contains`. -/
def containsFunc (f : Filter) (func : Text) : Bool := strstr (toLower func) (toLower f.func) ≠ 0 || f.func = ['*']

/-- The function test of `checkPolicyModbus`. -/
def testModbus (f : Filter) (rec : ModbusInfo) : FuncTest :=
  let test : FuncTest :=
    match rec.func with
    | none => ⟨false, []⟩
    | some func =>
      if toLower f.funcRegex = "contains".toList then
        if containsFunc f func then ⟨true, functionReason func⟩ else ⟨false, []⟩
      else if toLower func = toLower f.func then ⟨true, functionReason func⟩
      else ⟨false, []⟩
  test.orStar f

/-- A field that is set and passes the comparison. -/
def flagged (compare : Text → Bool) : Option Text → Option Text
  | none => none
  | some func => if compare func then some func else none

/-- The function test of `checkPolicyDnp3`. -/
def testDnp3 (f : Filter) (rec : Dnp3Info) : FuncTest :=
  let compare : Text → Bool :=
    if toLower f.funcRegex = "contains".toList then containsFunc f else fun func => func = f.func
  let request := flagged compare rec.fcRequest
  let reply := flagged compare rec.fcReply
  let functionStr := request.getD []
  let functionStr := match reply with
    | some func => functionStr ++ ';' :: func
    | none => functionStr
  FuncTest.orStar ⟨request.isSome || reply.isSome, functionReason functionStr⟩ f

/-! ### What the form says -/

inductive Mode
  | contains
  | exact
  deriving DecidableEq

/-- The value of `funcRegex`. -/
def Mode.text : Mode → Text
  | .contains => "contains".toList
  | .exact => "exact".toList

/-- A function of the list and the name of a record, ignoring case. -/
def Mode.Matches (mode : Mode) (fi name : Text) : Prop :=
  match mode with
  | .contains => toLower fi <:+: toLower name
  | .exact => toLower fi = toLower name

/-- The stored list is a star, or one of its functions matches one of the names. -/
def Listed (mode : Mode) (f : Text) (names : List Text) : Prop :=
  f = ['*'] ∨ ∃ fi ∈ f.splitOn ',', ∃ name ∈ names, mode.Matches fi name

def ModbusInfo.names (rec : ModbusInfo) : List Text := rec.func.toList

def Dnp3Info.names (rec : Dnp3Info) : List Text := rec.fcRequest.toList ++ rec.fcReply.toList

/-! ### Comparing texts -/

theorem strstr_ne_zero {big little : Text} : strstr big little ≠ 0 ↔ little <:+: big := by
  rw [List.infix_iff_prefix_suffix]
  unfold strstr
  split
  · rename_i i hfound
    obtain ⟨hlt, hprefix, _⟩ := List.findIdx?_eq_some_iff_getElem.mp hfound
    refine iff_of_true (Nat.succ_ne_zero i) ⟨big.tails[i], List.isPrefixOf_iff_prefix.mp hprefix, ?_⟩
    exact (List.mem_tails _ _).mp (List.getElem_mem hlt)
  · rename_i hnone
    refine iff_of_false (fun h => h rfl) ?_
    intro ⟨rest, hprefix, hsuffix⟩
    have hno := List.findIdx?_eq_none_iff.mp hnone rest ((List.mem_tails _ _).mpr hsuffix)
    rw [List.isPrefixOf_iff_prefix.mpr hprefix] at hno
    exact Bool.noConfusion hno

theorem toLower_toLower (text : Text) : toLower (toLower text) = toLower text := by
  rw [toLower, toLower, List.map_map]
  exact List.map_congr_left fun c _ => Char.toLower_toLower_eq_toLower c

theorem length_toLower (text : Text) : (toLower text).length = text.length := List.length_map _

theorem toLower_of_no_letter {text : Text} (htext : ∀ c ∈ text, c.isAlpha = false) : toLower text = text := by
  have hsame : ∀ c ∈ text, c.toLower = c := by
    intro c hc
    apply Char.toLower_eq_of_not_isUpper
    intro hupper
    have halpha := htext c hc
    rw [Char.isAlpha, hupper, Bool.true_or] at halpha
    exact Bool.noConfusion halpha
  rw [toLower, List.map_congr_left hsame, List.map_id']

/-- A name that equals a list without letters up to case equals it. -/
theorem eq_of_toLower_eq {text name : Text} (htext : ∀ c ∈ text, c.isAlpha = false)
    (heq : toLower name = toLower text) : name = text := by
  rw [toLower_of_no_letter htext] at heq
  have hname : ∀ c ∈ name, c.isAlpha = false := by
    intro c hc
    have hlower := htext c.toLower (heq ▸ List.mem_map_of_mem hc)
    rwa [Char.isAlpha_toLower_eq_isAlpha] at hlower
  rwa [toLower_of_no_letter hname] at heq

/-- A text with a letter can be spelled otherwise. -/
theorem exists_other_spelling {text : Text} {c : Char} (hc : c ∈ text) (hletter : c.isAlpha = true) :
    ∃ other, other ≠ text ∧ toLower other = toLower text := by
  rw [Char.isAlpha, Bool.or_eq_true] at hletter
  rcases hletter with hupper | hlower
  · refine ⟨toLower text, fun heq => ?_, toLower_toLower text⟩
    have hnone : ∀ d ∈ toLower text, d.isUpper = false := by
      intro d hd
      obtain ⟨d', _, rfl⟩ := List.mem_map.mp hd
      exact Char.isUpper_toLower_eq_false d'
    rw [heq] at hnone
    exact Bool.noConfusion ((hnone c hc).symm.trans hupper)
  · refine ⟨text.map Char.toUpper, fun heq => ?_, ?_⟩
    · have hnone : ∀ d ∈ text.map Char.toUpper, d.isLower = false := by
        intro d hd
        obtain ⟨d', _, rfl⟩ := List.mem_map.mp hd
        exact Char.isLower_toUpper_eq_false d'
      rw [heq] at hnone
      exact Bool.noConfusion ((hnone c hc).symm.trans hlower)
    · rw [toLower, toLower, List.map_map]
      exact List.map_congr_left fun d _ => Char.toLower_toUpper_eq_toLower d

/-! ### What the tests decide -/

theorem Mode.matches_self (mode : Mode) (name : Text) : mode.Matches name name := by
  cases mode with
  | contains => exact List.infix_refl _
  | exact => rfl

theorem Mode.Matches.length_le {mode : Mode} {fi name : Text} (h : mode.Matches fi name) :
    fi.length ≤ name.length := by
  rw [← length_toLower fi, ← length_toLower name]
  cases mode with
  | contains => exact List.IsInfix.length_le h
  | exact => rw [show toLower fi = toLower name from h]

theorem containsFunc_iff (funcRegex f func : Text) :
    containsFunc ⟨funcRegex, f⟩ func = true ↔ f = ['*'] ∨ Mode.contains.Matches f func := by
  rw [containsFunc, Bool.or_eq_true, decide_eq_true_eq, decide_eq_true_eq, strstr_ne_zero, or_comm]
  rfl

theorem funcFlagged_orStar (test : FuncTest) (f : Filter) :
    (test.orStar f).funcFlagged = true ↔ f.func = ['*'] ∨ test.funcFlagged = true := by
  unfold FuncTest.orStar
  split
  · rename_i h
    rw [Bool.and_eq_true, decide_eq_true_eq] at h
    exact iff_of_true rfl (.inl h.2)
  · rename_i h
    rw [Bool.and_eq_true, decide_eq_true_eq, not_and] at h
    constructor
    · exact .inr
    · rintro (hstar | hflagged)
      · by_contra hno
        exact h (by rw [Bool.eq_false_of_not_eq_true hno]; rfl) hstar
      · exact hflagged

theorem toLower_mode (mode : Mode) : toLower mode.text = "contains".toList ↔ mode = .contains := by
  cases mode <;> decide

/-- The whole list is compared with the name. -/
theorem testModbus_iff (mode : Mode) (f func : Text) :
    (testModbus ⟨mode.text, f⟩ ⟨some func⟩).funcFlagged = true ↔ f = ['*'] ∨ mode.Matches f func := by
  rw [testModbus, funcFlagged_orStar]
  dsimp only
  refine or_congr_right' fun hstar => ?_
  cases mode with
  | contains =>
      rw [if_pos ((toLower_mode _).mpr rfl)]
      have hcompare := containsFunc_iff Mode.contains.text f func
      rw [or_iff_right hstar] at hcompare
      rw [← hcompare]
      split
      · exact iff_of_true rfl ‹_›
      · exact iff_of_false Bool.false_ne_true ‹_›
  | exact =>
      rw [if_neg (by rw [toLower_mode]; decide)]
      split
      · rename_i heq
        exact iff_of_true rfl heq.symm
      · rename_i hne
        exact iff_of_false Bool.false_ne_true fun h => hne h.symm

theorem isSome_flagged (compare : Text → Bool) (field : Option Text) :
    (flagged compare field).isSome = true ↔ ∃ name ∈ field.toList, compare name = true := by
  cases field with
  | none => simp [flagged]
  | some func =>
      rw [flagged]
      split
      · rename_i h
        exact iff_of_true rfl ⟨func, List.mem_singleton_self func, h⟩
      · rename_i h
        refine iff_of_false Bool.false_ne_true ?_
        intro ⟨name, hname, hcompare⟩
        rw [List.mem_singleton.mp hname] at hcompare
        exact h hcompare

theorem testDnp3_iff (f : Filter) (rec : Dnp3Info) :
    (testDnp3 f rec).funcFlagged = true
      ↔ f.func = ['*'] ∨ ∃ name ∈ rec.names,
          (if toLower f.funcRegex = "contains".toList then containsFunc f else fun func => func = f.func) name
            = true := by
  rw [testDnp3, funcFlagged_orStar]
  dsimp only
  rw [Bool.or_eq_true, isSome_flagged, isSome_flagged, Dnp3Info.names]
  simp only [List.mem_append, or_and_right, exists_or]

theorem testDnp3_contains_iff (f : Text) (rec : Dnp3Info) :
    (testDnp3 ⟨Mode.contains.text, f⟩ rec).funcFlagged = true
      ↔ f = ['*'] ∨ ∃ name ∈ rec.names, Mode.contains.Matches f name := by
  rw [testDnp3_iff, if_pos ((toLower_mode _).mpr rfl)]
  refine or_congr_right' fun hstar => ?_
  simp only [containsFunc_iff, or_iff_right hstar]

theorem testDnp3_exact_iff (f : Text) (rec : Dnp3Info) :
    (testDnp3 ⟨Mode.exact.text, f⟩ rec).funcFlagged = true ↔ f = ['*'] ∨ f ∈ rec.names := by
  rw [testDnp3_iff, if_neg (by rw [toLower_mode]; decide)]
  simp only [decide_eq_true_eq, exists_eq_right]

/-- Both tests follow the form on every record with a function name. -/
structure FormFollowed (filter : Filter) (mode : Mode) (f : Text) : Prop where
  modbus : ∀ rec : ModbusInfo, rec.names ≠ [] →
    ((testModbus filter rec).funcFlagged = true ↔ Listed mode f rec.names)
  dnp3 : ∀ rec : Dnp3Info, rec.names ≠ [] → ((testDnp3 filter rec).funcFlagged = true ↔ Listed mode f rec.names)

/-- Without a comma the list is its one function. -/
theorem listed_iff {mode : Mode} {f : Text} (hcomma : ',' ∉ f) (names : List Text) :
    Listed mode f names ↔ f = ['*'] ∨ ∃ name ∈ names, mode.Matches f name := by
  rw [Listed, List.splitOn_eq_singleton hcomma]
  simp only [List.mem_singleton, exists_eq_left]

theorem comma_notMem_of_followed {mode : Mode} {f : Text} (h : FormFollowed ⟨mode.text, f⟩ mode f) : ',' ∉ f := by
  intro hcomma
  obtain ⟨first, after, rfl, hfirst⟩ := List.eq_append_cons_of_mem hcomma
  -- the first function alone is listed and not flagged
  have hlisted : Listed mode (first ++ ',' :: after) [first] := by
    refine .inr ⟨first, ?_, first, List.mem_singleton_self first, mode.matches_self first⟩
    rw [List.splitOn_append_cons_self_of_not_mem hfirst]
    exact List.mem_cons_self
  rcases (testModbus_iff mode _ first).mp ((h.modbus ⟨some first⟩ (List.cons_ne_nil _ _)).mpr hlisted) with hstar | hmatch
  · rw [hstar] at hcomma
    exact absurd hcomma (by decide)
  · have hlength := hmatch.length_le
    rw [List.length_append, List.length_cons] at hlength
    omega

theorem no_letter_of_followed {f : Text} (h : FormFollowed ⟨Mode.exact.text, f⟩ .exact f) : ∀ c ∈ f, c.isAlpha = false := by
  intro c hc
  by_contra hletter
  rw [Bool.not_eq_false] at hletter
  obtain ⟨other, hne, hlower⟩ := exists_other_spelling hc hletter
  have hlisted : Listed .exact f [other] :=
    (listed_iff (comma_notMem_of_followed h) _).mpr (.inr ⟨other, List.mem_singleton_self other, hlower.symm⟩)
  rcases (testDnp3_exact_iff f _).mp ((h.dnp3 ⟨some other, none⟩ (List.cons_ne_nil _ _)).mpr hlisted) with hstar | hmem
  · rw [hstar, List.mem_singleton] at hc
    rw [hc] at hletter
    exact absurd hletter (by decide)
  · exact hne (List.mem_singleton.mp hmem).symm

/-- **When both tests follow the form**: the list is one function, and under an exact match it has no letter. -/
theorem functionTests_iff (mode : Mode) {f : Text} (hcolon : ':' ∉ f) :
    ∃ filter, loadFilter (mode.text ++ ':' :: f) = some filter
      ∧ (FormFollowed filter mode f ↔ ',' ∉ f ∧ (mode = .contains ∨ ∀ c ∈ f, c.isAlpha = false)) := by
  have hmode : ':' ∉ mode.text := by cases mode <;> decide
  refine ⟨⟨mode.text, f⟩, by rw [loadFilter, splitOn_join hmode hcolon], ?_⟩
  constructor
  · intro h
    refine ⟨comma_notMem_of_followed h, ?_⟩
    cases mode with
    | contains => exact .inl rfl
    | exact => exact .inr (no_letter_of_followed h)
  · intro ⟨hcomma, hspelling⟩
    constructor
    · intro rec hrec
      cases hfunc : rec.func with
      | none => exact absurd (by rw [ModbusInfo.names, hfunc]; rfl) hrec
      | some func =>
          have hrec : rec = ⟨some func⟩ := by rw [← hfunc]
          rw [hrec, testModbus_iff, listed_iff hcomma]
          simp [ModbusInfo.names]
    · intro rec _
      cases mode with
      | contains => rw [testDnp3_contains_iff, listed_iff hcomma]
      | exact =>
          have hnone := hspelling.resolve_left (by decide)
          rw [testDnp3_exact_iff, listed_iff hcomma]
          refine or_congr_right ⟨fun hmem => ⟨f, hmem, rfl⟩, ?_⟩
          intro ⟨name, hname, hmatch⟩
          rwa [eq_of_toLower_eq hnone hmatch.symm] at hname

theorem functionTests_iff_code :
    ∃ filter, loadFilter "exact:129".toList = some filter
      ∧ (FormFollowed filter .exact "129".toList
        ↔ ',' ∉ "129".toList ∧ (Mode.exact = .contains ∨ ∀ c ∈ "129".toList, c.isAlpha = false)) :=
  functionTests_iff .exact (by decide)

/-- One of two listed functions is not found, and neither is a DNP3 name in another case. -/
theorem readList_not_followed :
    loadFilter "contains:read,write".toList = some ⟨"contains".toList, "read,write".toList⟩
      ∧ Listed .contains "read,write".toList ["READ_COILS".toList]
      ∧ (testModbus ⟨"contains".toList, "read,write".toList⟩ ⟨some "READ_COILS".toList⟩).funcFlagged = false
      ∧ Listed .exact "read".toList ["READ".toList]
      ∧ (testDnp3 ⟨"exact".toList, "read".toList⟩ ⟨some "READ".toList, none⟩).funcFlagged = false := by
  refine ⟨by decide, .inr ⟨"read".toList, by decide, "READ_COILS".toList, by decide, ?_⟩, by decide,
    .inr ⟨"read".toList, by decide, "READ".toList, by decide, ?_⟩, by decide⟩
  · show toLower "read".toList <:+: toLower "READ_COILS".toList
    decide
  · show toLower "read".toList = toLower "READ".toList
    decide

end Armore.Logging
