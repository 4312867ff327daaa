import Armore.Filtering.EditLines

/-!
# The form that was saved

A form is submitted, and the edit page of its id is opened. `updatePolicyConfig` writes an entry for each row and
each day, and `getPolicy` makes rows of them again. What the page shows is what was saved: the values of the form, an
empty address as `0.0.0.0/0`, an empty function and the protocol `Any` as `*`, an empty time as the start or the end
of the day.
-/

namespace Armore.Filtering

open Armore.Lib Armore.Lib.Text

/-! ### A form and the page -/

/-- The values of a form that are no days and no times. -/
structure Values where
  name : Text
  src : Text
  dest : Text
  proto : Text
  funcRegex : Text
  func : Text
  severity : Text
  filtering : Text

structure Form.Submits (formData : Form) (v : Values) : Prop where
  name : formData.get "policyName".toList = .ok v.name
  src : formData.get "srcIp".toList = .ok v.src
  dest : formData.get "destIp".toList = .ok v.dest
  proto : formData.get "proto".toList = .ok v.proto
  funcRegex : formData.get "funcRegex".toList = .ok v.funcRegex
  func : formData.get "func".toList = .ok v.func
  severity : formData.get "severity".toList = .ok v.severity
  filtering : formData.get "filtering".toList = .ok v.filtering

/-- The boxes of the days, each with that of its group. -/
def dayBoxes : List (Text × Text) :=
  (["Mon".toList, "Tue".toList, "Wed".toList, "Thu".toList, "Fri".toList].map fun day => (day, "Weekday".toList))
    ++ ["Sat".toList, "Sun".toList].map fun day => (day, "Weekend".toList)

/-- A day is ticked by its box, that of its group or `Daily`. -/
def Form.Ticks (formData : Form) (box : Text × Text) : Prop :=
  ∃ word ∈ ["Daily".toList, box.2, box.1], formData.has word = true

def PolicyDict.Ticks (policy : PolicyDict) (box : Text × Text) : Prop :=
  ∃ word ∈ ["Daily".toList, box.2, box.1], policy.values (lower word) = some "on".toList

/-- The page shows what the form has saved: its values, its days and each of its rows once. -/
structure Shows (formData : Form) (v : Values) (policy : PolicyDict) : Prop where
  name : policy.values "name".toList = some v.name
  src : policy.values "src".toList = some (orElse v.src "0.0.0.0/0".toList)
  dest : policy.values "dest".toList = some (orElse v.dest "0.0.0.0/0".toList)
  proto : policy.values "proto".toList = some (subAny v.proto)
  funcRegex : policy.values "funcRegex".toList = some v.funcRegex
  func : policy.values "func".toList = some (orElse v.func ['*'])
  severity : policy.values "severity".toList = some v.severity
  filtering : policy.values "filtering".toList = some v.filtering
  days : ∀ box ∈ dayBoxes, policy.Ticks box ↔ formData.Ticks box
  timePer : policy.timePer = (formRows formData).eraseDups

/-- The edit page of the id shows the form. -/
def Recovers (formData : Form) (id : Text) (s : System) : Prop :=
  ∃ v policy, formData.Submits v ∧ (getPolicy s (some id)).2 = .ok policy ∧ Shows formData v policy

/-! ### When it does -/

/-- No value breaks the line or a field of it, and the last character of the line is no space. -/
structure Values.Plain (v : Values) : Prop where
  unbreaking : ∀ value ∈ [v.name, v.src, v.dest, v.proto, v.funcRegex, v.func, v.severity, v.filtering],
    Unbreaking value
  addresses : ∀ value ∈ [v.src, v.dest], ',' ∉ value ∧ '=' ∉ value
  functions : ∀ value ∈ [v.funcRegex, v.func], ':' ∉ value
  filtering : ∃ c ∈ v.filtering.getLast?, whitespace c = false

/-- The lines of the file when a form is put into it. -/
def linesBefore (s : System) : List Text := readlines ((verifyPolicyFileExists s).policyFile.getD [])

/-- The values and the id are plain, a day is ticked, there are rows of times in three parts, none of which mixes two
others, and `getPolicy` comes to the line. -/
structure Recoverable (formData : Form) (id : Text) (lines : List Text) : Prop where
  values : ∃ v, formData.Submits v ∧ v.Plain
  ruleId : Unbreaking id
  days : ∃ box ∈ dayWords, formData.has box = true
  rows : formRows formData ≠ []
  times : ∀ row ∈ formRows formData, ∀ time ∈ [row.1, row.2], Timed time ∧ Unbreaking time
  unmixed : SeenPairs.Unmixed [] (formRows formData)
  reachable : Reachable id lines

/-! ### The values -/

theorem of_orElse {P : Text → Prop} {value default : Text} (hnil : P []) (hvalue : P (orElse value default)) : P value := by
  unfold orElse at hvalue
  split at hvalue
  · rename_i heq
    exact heq ▸ hnil
  · exact hvalue

theorem orElse_of {P : Text → Prop} {value default : Text} (hdefault : P default) (hvalue : P value) :
    P (orElse value default) := by
  unfold orElse
  split
  · exact hdefault
  · exact hvalue

theorem of_mem_subAny {c : Char} {value : Text} (hc : c ∈ subAny value) : c ∈ value ∨ c = '*' := by
  fun_induction subAny value with
  | case1 rest ih =>
      rcases List.mem_cons.mp hc with rfl | hrest
      · exact .inr rfl
      · exact (ih hrest).imp_left fun hmem => by simp [hmem]
  | case2 d rest _ ih =>
      rcases List.mem_cons.mp hc with rfl | hrest
      · exact .inl List.mem_cons_self
      · exact (ih hrest).imp_left (List.mem_cons_of_mem d)
  | case3 => exact .inl hc

theorem mem_subAny {c : Char} {value : Text} (hc : c ∈ value) (hletter : c ∉ "Any".toList) : c ∈ subAny value := by
  fun_induction subAny value with
  | case1 rest ih =>
      have hsplit : c ∈ "Any".toList ++ rest := hc
      exact List.mem_cons_of_mem '*' (ih ((List.mem_append.mp hsplit).resolve_left hletter))
  | case2 d rest _ ih =>
      rcases List.mem_cons.mp hc with rfl | hrest
      · exact List.mem_cons_self
      · exact List.mem_cons_of_mem d (ih hrest)
  | case3 => exact hc

theorem subAny_unbreaking {value : Text} : Unbreaking (subAny value) ↔ Unbreaking value := by
  have hfree : ∀ c, c ∉ "*Any".toList → (c ∉ subAny value ↔ c ∉ value) := fun c hc => not_congr
    ⟨fun hmem => (of_mem_subAny hmem).resolve_right fun heq => hc (heq ▸ List.mem_cons_self),
      fun hmem => mem_subAny hmem fun hletter => hc (List.mem_cons_of_mem '*' hletter)⟩
  rw [Unbreaking, Unbreaking, Unbroken, Unbroken, hfree '\t' (by decide), hfree '\n' (by decide), hfree '\r' (by decide)]

/-- What the page shows of the values of a form lets no value in that is not plain. -/
theorem Shows.plain {formData : Form} {v : Values} {p : Policy} (hp : p.Legible) {parts : p.Parts}
    (hshows : Shows formData v parts.dict) : v.Plain where
  unbreaking := by
    have hvalue := parts.values_unbreaking hp.plain
    have hnil : Unbreaking [] := ⟨List.not_mem_nil, List.not_mem_nil, List.not_mem_nil⟩
    simp only [List.forall_mem_cons]
    exact ⟨hvalue _ _ hshows.name, of_orElse hnil (hvalue _ _ hshows.src), of_orElse hnil (hvalue _ _ hshows.dest),
      subAny_unbreaking.mp (hvalue _ _ hshows.proto), hvalue _ _ hshows.funcRegex, of_orElse hnil (hvalue _ _ hshows.func),
      hvalue _ _ hshows.severity, hvalue _ _ hshows.filtering, nofun⟩
  addresses := by
    have hnil : ',' ∉ ([] : Text) ∧ '=' ∉ ([] : Text) := ⟨List.not_mem_nil, List.not_mem_nil⟩
    rw [List.forall_mem_cons, List.forall_mem_singleton]
    constructor
    · exact of_orElse (P := fun value => ',' ∉ value ∧ '=' ∉ value) hnil (parts.src_plain hshows.src)
    · exact of_orElse (P := fun value => ',' ∉ value ∧ '=' ∉ value) hnil (parts.dest_plain hshows.dest)
  functions := by
    rw [List.forall_mem_cons, List.forall_mem_singleton]
    constructor
    · exact parts.funcRegex_plain hshows.funcRegex
    · exact of_orElse (P := fun value => ':' ∉ value) List.not_mem_nil (parts.func_plain hshows.func)
  filtering := by
    have hfiltering := hshows.filtering
    rw [parts.values_filtering, Option.some.injEq] at hfiltering
    exact hfiltering ▸ hp.filtering

/-! ### The days -/

/-- The words that are written for a group of days. -/
def groupWords (formData : Form) (group : Text) (days : List Text) : List Text :=
  if formData.has group then [group] else days.filter formData.has

theorem formDays_eq (formData : Form) : formDays formData
    = if formData.has "Daily".toList then ["Daily".toList]
      else groupWords formData "Weekday".toList ["Mon".toList, "Tue".toList, "Wed".toList, "Thu".toList, "Fri".toList]
        ++ groupWords formData "Weekend".toList ["Sat".toList, "Sun".toList] := rfl

section

variable {formData : Form} {group : Text} {days : List Text}

theorem has_of_mem_groupWords {word : Text} (hword : word ∈ groupWords formData group days) : formData.has word = true := by
  unfold groupWords at hword
  split at hword
  · rename_i hgroup
    rwa [List.mem_singleton.mp hword]
  · exact (List.mem_filter.mp hword).2

/-- A day that is ticked in a group is written, by its own word or that of the group. -/
theorem exists_mem_groupWords {day : Text} (hday : day ∈ days)
    (hticked : formData.has group = true ∨ formData.has day = true) :
    ∃ word ∈ ["Daily".toList, group, day], word ∈ groupWords formData group days := by
  by_cases hgroup : formData.has group = true
  · refine ⟨group, by simp, ?_⟩
    rw [groupWords, if_pos hgroup]
    exact List.mem_singleton_self group
  · refine ⟨day, by simp, ?_⟩
    rw [groupWords, if_neg hgroup]
    exact List.mem_filter.mpr ⟨hday, hticked.resolve_left hgroup⟩

end

theorem has_of_mem_formDays {formData : Form} {day : Text} (hday : day ∈ formDays formData) : formData.has day = true := by
  rw [formDays_eq] at hday
  split at hday
  · rename_i hdaily
    rwa [List.mem_singleton.mp hday]
  · rcases List.mem_append.mp hday with hweek | hend
    · exact has_of_mem_groupWords hweek
    · exact has_of_mem_groupWords hend

/-- A day that is ticked is written, by its own word, that of its group or `Daily`. -/
theorem ticks_iff_formDays {formData : Form} {box : Text × Text} (hbox : box ∈ dayBoxes) :
    formData.Ticks box ↔ ∃ word ∈ ["Daily".toList, box.2, box.1], word ∈ formDays formData := by
  refine ⟨fun ⟨word, hword, hhas⟩ => ?_, fun ⟨word, hword, hday⟩ => ⟨word, hword, has_of_mem_formDays hday⟩⟩
  rw [formDays_eq]
  by_cases hdaily : formData.has "Daily".toList = true
  · refine ⟨"Daily".toList, List.mem_cons_self, ?_⟩
    rw [if_pos hdaily]
    exact List.mem_singleton_self _
  have hticked : formData.has box.2 = true ∨ formData.has box.1 = true := by
    simp only [List.mem_cons, List.not_mem_nil, or_false] at hword
    rcases hword with rfl | rfl | rfl
    · exact absurd hhas hdaily
    · exact .inl hhas
    · exact .inr hhas
  rw [if_neg hdaily]
  rcases List.mem_append.mp hbox with hweek | hend
  · obtain ⟨day, hday, rfl⟩ := List.mem_map.mp hweek
    obtain ⟨word, hword, hmem⟩ := exists_mem_groupWords hday hticked
    exact ⟨word, hword, List.mem_append_left _ hmem⟩
  · obtain ⟨day, hday, rfl⟩ := List.mem_map.mp hend
    obtain ⟨word, hword, hmem⟩ := exists_mem_groupWords hday hticked
    exact ⟨word, hword, List.mem_append_right _ hmem⟩

theorem dayBoxes_dayWords : ∀ box ∈ dayBoxes, ∀ word ∈ ["Daily".toList, box.2, box.1], word ∈ dayWords := by decide

/-- The words of the days stay apart in lower case. -/
theorem lower_dayWords_inj : ∀ word ∈ dayWords, ∀ word' ∈ dayWords, lower word = lower word' → word = word' := by
  decide

/-- The keys of the dictionary that are no days. -/
def otherKeys : List Text := ["num".toList, "name".toList, "src".toList, "dest".toList, "proto".toList,
  "funcRegex".toList, "func".toList, "severity".toList, "filtering".toList]

theorem lower_dayWords : ∀ word ∈ dayWords, lower word ∉ otherKeys := by decide

theorem fixedKeys_dayWords (p : Policy) (src dest funcRegex funcText : Text) {word : Text} (hword : word ∈ dayWords) :
    lower word ≠ "filtering".toList ∧ lower word ≠ "severity".toList
      ∧ (p.fixedKeys src dest funcRegex funcText).values (lower word) = none := by
  have hkey := lower_dayWords word hword
  unfold otherKeys at hkey
  simp only [List.mem_cons, List.not_mem_nil, or_false, not_or] at hkey
  obtain ⟨hnum, hname, hsrc, hdest, hproto, hregex, hfunc, hseverity, hfiltering⟩ := hkey
  refine ⟨hfiltering, hseverity, ?_⟩
  simp only [Policy.fixedKeys, PolicyDict.values_set, hnum, hname, hsrc, hdest, hproto, hregex, hfunc, if_false]
  rfl

/-! ### The entries -/

namespace Entry

/-- The entry of a row and a day. -/
def ofRow (row : Text × Text) (day : Text) : Entry :=
  ⟨day, part row.1 0, part row.1 1, part row.1 2, part row.2 0, part row.2 1, part row.2 2⟩
where
  part (time : Text) (n : Nat) : Text := (time.splitOn ':').getD n []

theorem part_of_timed {hour min sec : Text} (hparts : ∀ part ∈ [hour, min, sec], ':' ∉ part ∧ ',' ∉ part) :
    ofRow.part ([':'].intercalate [hour, min, sec]) 0 = hour ∧ ofRow.part ([':'].intercalate [hour, min, sec]) 1 = min
      ∧ ofRow.part ([':'].intercalate [hour, min, sec]) 2 = sec := by
  have hsplit : ([':'].intercalate [hour, min, sec]).splitOn ':' = [hour, min, sec] :=
    List.splitOn_intercalate _ (fun part hpart => (hparts part hpart).1) (List.cons_ne_nil _ _)
  simp only [ofRow.part, hsplit]
  exact ⟨rfl, rfl, rfl⟩

variable {row : Text × Text} {day : Text} (hrow : ∀ time ∈ [row.1, row.2], Timed time)
include hrow

theorem row_ofRow : (ofRow row day).row = row := by
  obtain ⟨start, stop⟩ := row
  rw [List.forall_mem_cons, List.forall_mem_singleton] at hrow
  obtain ⟨⟨startHour, startMin, startSec, rfl, hstart⟩, stopHour, stopMin, stopSec, rfl, hstop⟩ := hrow
  obtain ⟨h₁, h₂, h₃⟩ := part_of_timed hstart
  obtain ⟨h₄, h₅, h₆⟩ := part_of_timed hstop
  simp only [Entry.row, currStart, currStop, ofRow, h₁, h₂, h₃, h₄, h₅, h₆]

theorem ofRow_plain (hday : ':' ∉ day ∧ ',' ∉ day) : (ofRow row day).Plain := by
  obtain ⟨start, stop⟩ := row
  rw [List.forall_mem_cons, List.forall_mem_singleton] at hrow
  obtain ⟨⟨startHour, startMin, startSec, rfl, hstart⟩, stopHour, stopMin, stopSec, rfl, hstop⟩ := hrow
  obtain ⟨h₁, h₂, h₃⟩ := part_of_timed hstart
  obtain ⟨h₄, h₅, h₆⟩ := part_of_timed hstop
  unfold Plain
  simp only [fields, ofRow, h₁, h₂, h₃, h₄, h₅, h₆]
  simp only [List.forall_mem_cons] at hstart hstop ⊢
  exact ⟨hday, hstart.1, hstart.2.1, hstart.2.2.1, hstop⟩

theorem joined_ofRow : (ofRow row day).joined = day ++ ':' :: row.1 ++ ':' :: row.2 := by
  have hjoined : (ofRow row day).joined = day ++ ':' :: (ofRow row day).row.1 ++ ':' :: (ofRow row day).row.2 := by
    simp [joined, fields, Entry.row, currStart, currStop, List.intercalate]
    rfl
  rw [hjoined, row_ofRow hrow]

end Entry

/-- The entries of the rows on the days. -/
def savedEntries (rows : List (Text × Text)) (days : List Text) : List Entry :=
  rows.flatMap fun row => days.map (Entry.ofRow row)

theorem mem_savedEntries {rows : List (Text × Text)} {days : List Text} {e : Entry} :
    e ∈ savedEntries rows days ↔ ∃ row ∈ rows, ∃ day ∈ days, Entry.ofRow row day = e := by
  simp only [savedEntries, List.mem_flatMap, List.mem_map]

section

variable {rows : List (Text × Text)} {days : List Text}

theorem mem_lower_savedEntries (hrows : rows ≠ []) {key : Text} :
    (key ∈ (savedEntries rows days).map fun e => lower e.day) ↔ ∃ day ∈ days, lower day = key := by
  rw [List.mem_map]
  constructor
  · intro ⟨e, he, hkey⟩
    obtain ⟨row, _, day, hday, rfl⟩ := mem_savedEntries.mp he
    exact ⟨day, hday, hkey⟩
  · intro ⟨day, hday, hkey⟩
    obtain ⟨row, hrow⟩ := List.exists_mem_of_ne_nil rows hrows
    exact ⟨Entry.ofRow row day, mem_savedEntries.mpr ⟨row, hrow, day, hday, rfl⟩, hkey⟩

variable (htimed : ∀ row ∈ rows, ∀ time ∈ [row.1, row.2], Timed time)
include htimed

theorem savedEntries_plain (hdays : ∀ day ∈ days, ':' ∉ day ∧ ',' ∉ day) : ∀ e ∈ savedEntries rows days, e.Plain := by
  intro e he
  obtain ⟨row, hrow, day, hday, rfl⟩ := mem_savedEntries.mp he
  exact Entry.ofRow_plain (htimed row hrow) (hdays day hday)

/-- The days are gone, and each row comes once for each of them. -/
theorem map_row_savedEntries :
    (savedEntries rows days).map Entry.row = rows.flatMap fun row => List.replicate days.length row := by
  rw [savedEntries, List.map_flatMap]
  refine List.flatMap_congr fun row hrow => ?_
  have hconst : days.map (fun day => (Entry.ofRow row day).row) = days.map fun _ => row :=
    List.map_congr_left fun day _ => Entry.row_ofRow (htimed row hrow)
  rw [List.map_map]
  exact hconst.trans List.map_const'

omit htimed in
theorem timeTexts_eq_joined {formData : Form} (htimed : ∀ row ∈ formRows formData, ∀ time ∈ [row.1, row.2], Timed time) :
    timeTexts formData = (savedEntries (formRows formData) (formDays formData)).map Entry.joined := by
  rw [timeTexts, savedEntries, List.map_flatMap]
  refine List.flatMap_congr fun row hrow => ?_
  rw [List.map_map]
  exact List.map_congr_left fun day _ => (Entry.joined_ofRow (htimed row hrow)).symm

end

theorem mapM_unpack_joined {es : List Entry} (hplain : ∀ e ∈ es, e.Plain) :
    (es.map Entry.joined).mapM Entry.unpack = .ok es := by
  rw [mapM_ok, List.forall₂_map_left_iff, List.forall₂_same]
  exact fun e he => (hplain e he).unpack_joined

/-! ### The policy of a form -/

/-- The fields of the line that is written. -/
def Values.policy (v : Values) (id timePer : Text) : Policy where
  ruleId := id
  name := v.name
  ip := "src=".toList ++ orElse v.src "0.0.0.0/0".toList ++ ",dest=".toList ++ orElse v.dest "0.0.0.0/0".toList
  proto := subAny v.proto
  func := v.funcRegex ++ ':' :: orElse v.func ['*']
  timePer
  severity := v.severity
  filtering := v.filtering

theorem Form.Submits.formPolicy {formData : Form} {v : Values} (hsubmits : formData.Submits v)
    (hboth : ∀ t ∈ formTimes formData, t.2.start.isSome = true ∧ t.2.stop.isSome = true) (id : Text) :
    formPolicy formData id = .ok (v.policy id ([','].intercalate (timeTexts formData))) := by
  obtain ⟨timeStr, htimeStr, hstored⟩ := formTimeStr_eq hboth
  obtain ⟨hname, hsrc, hdest, hproto, hregex, hfunc, hseverity, hfiltering⟩ := hsubmits
  rw [Filtering.formPolicy, htimeStr, hsrc, hdest, hfunc, hregex, hname, hproto, hseverity, hfiltering, ← hstored]
  rfl

namespace Values.Plain

variable {v : Values} (hv : v.Plain) (id timePer : Text)
include hv

theorem ips : (v.policy id timePer).ips = .ok (orElse v.src "0.0.0.0/0".toList, orElse v.dest "0.0.0.0/0".toList) := by
  have haddress : ∀ value ∈ [v.src, v.dest], ',' ∉ orElse value "0.0.0.0/0".toList ∧ '=' ∉ orElse value "0.0.0.0/0".toList :=
    fun value hvalue => orElse_of (P := fun value => ',' ∉ value ∧ '=' ∉ value) (by decide) (hv.addresses value hvalue)
  rw [List.forall_mem_cons, List.forall_mem_singleton] at haddress
  obtain ⟨hsrc, hdest⟩ := haddress
  have hsplit : (v.policy id timePer).ip.splitOn ','
      = ["src=".toList ++ orElse v.src "0.0.0.0/0".toList, "dest=".toList ++ orElse v.dest "0.0.0.0/0".toList] := by
    have hfirst : ',' ∉ "src=".toList ++ orElse v.src "0.0.0.0/0".toList := by
      rw [List.mem_append, not_or]
      exact ⟨by decide, hsrc.1⟩
    have hsecond : ',' ∉ "dest=".toList ++ orElse v.dest "0.0.0.0/0".toList := by
      rw [List.mem_append, not_or]
      exact ⟨by decide, hdest.1⟩
    rw [← splitOn_join hfirst hsecond, policy, List.append_assoc]
    rfl
  have hread : ∀ (key value : Text), '=' ∉ key → '=' ∉ value → Policy.address (key ++ '=' :: value) = .ok value := by
    intro key value hkey hvalue
    rw [Policy.address, splitOn_join hkey hvalue]
  rw [Policy.ips_ok, hsplit, mapM_ok]
  exact .cons (hread "src".toList _ (by decide) hsrc.2) (.cons (hread "dest".toList _ (by decide) hdest.2) .nil)

theorem func : (v.policy id timePer).func.splitOn ':' = [v.funcRegex, orElse v.func ['*']] := by
  have hfunctions := hv.functions
  rw [List.forall_mem_cons, List.forall_mem_singleton] at hfunctions
  exact splitOn_join hfunctions.1 (orElse_of (P := fun value => ':' ∉ value) (by decide) hfunctions.2)

end Values.Plain

/-! ### What the page shows -/

section

variable {formData : Form} {v : Values} {id : Text}

/-- Without a day or a row the time string is empty, and no entry. -/
theorem Policy.Parts.nonempty (parts : (v.policy id ([','].intercalate (timeTexts formData))).Parts) :
    formDays formData ≠ [] ∧ formRows formData ≠ [] := by
  have hentry : timeTexts formData ≠ [] := by
    intro hnil
    have htimes := parts.times
    rw [show (v.policy id ([','].intercalate (timeTexts formData))).timePer = [] by rw [hnil]; rfl] at htimes
    exact nomatch htimes
  constructor
  · intro hnil
    refine hentry ?_
    rw [timeTexts, hnil]
    exact List.flatMap_eq_nil_iff.mpr fun _ _ => rfl
  · intro hnil
    refine hentry ?_
    rw [timeTexts, hnil]
    rfl

variable (htimed : ∀ row ∈ formRows formData, ∀ time ∈ [row.1, row.2], Timed time)
include htimed

/-- The entries that were written are read back. -/
theorem mapM_unpack_timeTexts (hdays : formDays formData ≠ []) (hrows : formRows formData ≠ []) :
    (([','].intercalate (timeTexts formData)).splitOn ',').mapM Entry.unpack
      = .ok (savedEntries (formRows formData) (formDays formData)) := by
  have hplain := savedEntries_plain htimed fun day hday => dayWords_plain day (formDays_subset formData day hday)
  have hne : savedEntries (formRows formData) (formDays formData) ≠ [] := by
    obtain ⟨row, hrow⟩ := List.exists_mem_of_ne_nil _ hrows
    obtain ⟨day, hday⟩ := List.exists_mem_of_ne_nil _ hdays
    exact List.ne_nil_of_mem (mem_savedEntries.mpr ⟨row, hrow, day, hday, rfl⟩)
  rw [timeTexts_eq_joined htimed, splitOn_joined hplain hne, mapM_unpack_joined hplain]

/-- The policy of a form comes apart, if it has entries. -/
theorem Values.Plain.exists_parts (hv : v.Plain) (hdays : formDays formData ≠ []) (hrows : formRows formData ≠ []) :
    Nonempty (v.policy id ([','].intercalate (timeTexts formData))).Parts :=
  ⟨⟨_, _, _, _, _, hv.ips id _, hv.func id _, mapM_unpack_timeTexts htimed hdays hrows⟩⟩

variable (parts : (v.policy id ([','].intercalate (timeTexts formData))).Parts)
include parts

theorem Policy.Parts.entries_eq : parts.entries = savedEntries (formRows formData) (formDays formData) := by
  obtain ⟨hdays, hrows⟩ := parts.nonempty
  exact Except.ok.inj (parts.times.symm.trans (mapM_unpack_timeTexts htimed hdays hrows))

theorem Policy.Parts.timePer_eq : parts.dict.timePer = SeenPairs.kept [] (formRows formData) := by
  obtain ⟨n, hlength⟩ := Nat.exists_eq_succ_of_ne_zero (mt List.length_eq_zero_iff.mp parts.nonempty.1)
  rw [parts.timePer_dict, parts.entries_eq htimed, map_row_savedEntries htimed, hlength, SeenPairs.kept_flatMap]

theorem Policy.Parts.mem_lower_entries {key : Text} :
    (key ∈ parts.entries.map fun e => lower e.day) ↔ ∃ day ∈ formDays formData, lower day = key := by
  rw [parts.entries_eq htimed]
  exact mem_lower_savedEntries parts.nonempty.2

/-- The days do not hide another key. -/
theorem Policy.Parts.values_otherKeys {key : Text} (hkey : key ∈ otherKeys) (hfiltering : key ≠ "filtering".toList)
    (hseverity : key ≠ "severity".toList) : parts.dict.values key
      = ((v.policy id ([','].intercalate (timeTexts formData))).fixedKeys parts.src parts.dest parts.funcRegex
        parts.funcText).values key := by
  rw [parts.values_dict, if_neg hfiltering, if_neg hseverity, if_neg]
  rw [parts.mem_lower_entries htimed]
  rintro ⟨day, hday, rfl⟩
  exact lower_dayWords day (formDays_subset formData day hday) hkey

/-- The days that are on are those that are written. -/
theorem Policy.Parts.values_dayWords {word : Text} (hword : word ∈ dayWords) :
    parts.dict.values (lower word) = some "on".toList ↔ word ∈ formDays formData := by
  obtain ⟨hfiltering, hseverity, hnone⟩ := fixedKeys_dayWords _ parts.src parts.dest parts.funcRegex parts.funcText hword
  have hon : (lower word ∈ parts.entries.map fun e => lower e.day) ↔ word ∈ formDays formData := by
    rw [parts.mem_lower_entries htimed]
    constructor
    · intro ⟨day, hday, heq⟩
      rwa [← lower_dayWords_inj day (formDays_subset formData day hday) word hword heq]
    · intro hday
      exact ⟨word, hday, rfl⟩
  rw [parts.values_dict, if_neg hfiltering, if_neg hseverity, hnone, ← hon]
  split
  · rename_i hmem
    exact iff_of_true rfl hmem
  · rename_i hmem
    exact iff_of_false nofun hmem

/-- **The page shows the form exactly when no row mixes two others.** -/
theorem Policy.Parts.shows_iff (hv : v.Plain) :
    Shows formData v parts.dict ↔ SeenPairs.Unmixed [] (formRows formData) := by
  obtain ⟨hsrc, hdest⟩ := Prod.mk.inj (Except.ok.inj (parts.ips.symm.trans (hv.ips id _)))
  obtain ⟨hregex, hfunc⟩ := List.cons.inj (parts.func.symm.trans (hv.func id _))
  have hfunc : parts.funcText = orElse v.func ['*'] := (List.cons.inj hfunc).1
  rw [← SeenPairs.kept_nil_eq_iff, ← parts.timePer_eq htimed]
  refine ⟨Shows.timePer, fun htimePer => ?_⟩
  have hother := @Policy.Parts.values_otherKeys _ _ _ htimed parts
  have hdays : ∀ box ∈ dayBoxes, parts.dict.Ticks box ↔ formData.Ticks box := by
    intro box hbox
    rw [ticks_iff_formDays hbox]
    refine exists_congr fun word => and_congr_right fun hword => ?_
    exact parts.values_dayWords htimed (dayBoxes_dayWords box hbox word hword)
  exact {
    name := hother (by decide) (by decide) (by decide)
    src := (hother (by decide) (by decide) (by decide)).trans (congrArg some hsrc)
    dest := (hother (by decide) (by decide) (by decide)).trans (congrArg some hdest)
    proto := hother (by decide) (by decide) (by decide)
    funcRegex := (hother (by decide) (by decide) (by decide)).trans (congrArg some hregex)
    func := (hother (by decide) (by decide) (by decide)).trans (congrArg some hfunc)
    severity := by rw [parts.values_dict, if_neg (by decide), if_pos rfl]; rfl
    filtering := parts.values_filtering
    days := hdays
    timePer := htimePer }

end

/-! ### The file -/

/-- What is written can be read, if the values, the id and the times are plain. -/
theorem Values.Plain.legible {v : Values} (hv : v.Plain) {id : Text} (hid : Unbreaking id) {formData : Form}
    (htimes : ∀ row ∈ formRows formData, ∀ time ∈ [row.1, row.2], Unbreaking time) :
    (v.policy id ([','].intercalate (timeTexts formData))).Legible where
  plain := by
    have hunbreaking := hv.unbreaking
    simp only [List.forall_mem_cons] at hunbreaking
    obtain ⟨hname, hsrc, hdest, hproto, hregex, hfunc, hseverity, hfiltering, _⟩ := hunbreaking
    have haddress : ∀ value, Unbreaking value → Unbreaking (orElse value "0.0.0.0/0".toList) := fun value hvalue =>
      orElse_of (by decide) hvalue
    have hip : Unbreaking ("src=".toList ++ orElse v.src "0.0.0.0/0".toList ++ ",dest=".toList
        ++ orElse v.dest "0.0.0.0/0".toList) := by
      refine ((Unbreaking.append (by decide) (haddress v.src hsrc)).append (by decide)).append (haddress v.dest hdest)
    have hfunction : Unbreaking (v.funcRegex ++ ([':'] ++ orElse v.func ['*'])) :=
      hregex.append (Unbreaking.append (by decide) (orElse_of (by decide) hfunc))
    have hword : ∀ day ∈ dayWords, Unbreaking day := by decide
    have hentries : ∀ text ∈ timeTexts formData, Unbreaking text := by
      intro text htext
      simp only [timeTexts, List.mem_flatMap, List.mem_map] at htext
      obtain ⟨row, hrow, day, hday, rfl⟩ := htext
      have hstart : Unbreaking (day ++ ([':'] ++ row.1)) := (hword day (formDays_subset formData day hday)).append
        (Unbreaking.append (by decide) (htimes row hrow _ List.mem_cons_self))
      exact hstart.append (Unbreaking.append (by decide : Unbreaking [':'])
        (htimes row hrow _ (List.mem_cons_of_mem _ List.mem_cons_self)))
    unfold Policy.fields
    simp only [List.forall_mem_cons]
    exact ⟨hid, hname, hip, subAny_unbreaking.mpr hproto, hfunction, Unbreaking.intercalate (by decide) hentries, hseverity,
      hfiltering, List.forall_mem_nil _⟩
  filtering := hv.filtering

/-- A row of times has both its inputs. -/
theorem both_of_timed {formData : Form} (htimed : ∀ row ∈ formRows formData, ∀ time ∈ [row.1, row.2], Timed time) :
    ∀ t ∈ formTimes formData, t.2.start.isSome = true ∧ t.2.stop.isSome = true := by
  have hsome : ∀ time : Option Text, Timed (time.getD []) → time.isSome = true := by
    intro time ⟨hour, min, sec, htime, _⟩
    cases time with
    | some _ => rfl
    | none => simp [List.intercalate] at htime
  intro t ht
  have hrow := htimed _ (List.mem_map_of_mem ht)
  exact ⟨hsome _ (hrow _ List.mem_cons_self), hsome _ (hrow _ (List.mem_cons_of_mem _ List.mem_cons_self))⟩

theorem mem_putLine (nextNum output : Text) (lines : List Text) : output ∈ putLine nextNum output lines := by
  rw [putLine]
  split
  · rename_i hany
    obtain ⟨line, hline, hid⟩ := List.any_eq_true.mp hany
    exact List.mem_map.mpr ⟨line, hline, if_pos (of_decide_eq_true hid)⟩
  · exact List.mem_append_right lines (List.mem_singleton_self output)

theorem verify_of_lines {s : System} {file : Text} (hfile : s.policyFile = some file) (hne : file ≠ []) :
    verifyPolicyFileExists s = s := by
  rw [verifyPolicyFileExists, hfile]
  exact if_neg fun hnil => hne (eq_nil_of_readlines hnil)

theorem linesBefore_ne_nil (s : System) : linesBefore s ≠ [] := by
  have hheader : readlines header ≠ [] := fun hnil => absurd (eq_nil_of_readlines hnil) (by decide)
  rw [linesBefore, verifyPolicyFileExists]
  split
  · exact hheader
  · rename_i file hfile
    split
    · exact hheader
    · rename_i hlines
      rwa [hfile]

section

variable {host : Host} {s : System} {newId : Text} {formData : Form} {num : Option Text} {p : Policy}
  (hform : formPolicy formData (Op.names (.update formData num newId)) = .ok p)
include hform

/-- The line of the form is put into the lines. -/
theorem policyFile_updatePolicyConfig :
    (updatePolicyConfig host s newId formData num).1.policyFile
      = some (putLine p.ruleId p.line (linesBefore s)).flatten := by
  have hline : policyLine formData (Op.names (.update formData num newId)) = .ok p.line := by
    rw [policyLine_eq, hform]
    rfl
  obtain ⟨file, hfile⟩ := verifyPolicyFileExists_eq s
  have hbefore : linesBefore s = readlines file := by
    rw [linesBefore, hfile, Option.getD_some]
  rw [formPolicy_ruleId hform, hbefore, updatePolicyConfig]
  rw [Op.names] at hline ⊢
  simp only [hline, hfile]
  exact parseIPFW_policyFile host _

/-- The page of the id reads the lines that were written. -/
theorem getPolicy_updatePolicyConfig (theId : Option Text) :
    (getPolicy (updatePolicyConfig host s newId formData num).1 theId).2
      = loadFrom theId ((readlines (putLine p.ruleId p.line (linesBefore s)).flatten).tail.map stripEnd) := by
  have hfile := @policyFile_updatePolicyConfig host s newId formData num p hform
  have hne : (putLine p.ruleId p.line (linesBefore s)).flatten ≠ [] := by
    intro hnil
    have hempty := List.flatten_eq_nil_iff.mp hnil p.line (mem_putLine p.ruleId p.line (linesBefore s))
    exact absurd hempty (List.append_ne_nil_of_right_ne_nil _ (List.cons_ne_nil _ _))
  rw [getPolicy, verify_of_lines hfile hne, hfile]

end

/-- What the page was filled from is a line of the file. -/
theorem exists_line_of_getPolicy {s : System} {id : Text} {policy : PolicyDict}
    (hget : (getPolicy s (some id)).2 = .ok policy) :
    policy = .empty ∨ ∃ p : Policy, p.Legible ∧ p.ruleId = id ∧ p.load = .ok policy := by
  unfold getPolicy at hget
  split at hget
  · exact nomatch hget
  · rename_i file _
    rcases found_of_loadFrom hget with hempty | ⟨p, hfound, hload⟩
    · exact .inl hempty
    · obtain ⟨l, hl, hunpack, hid⟩ := hfound.exists_line
      exact .inr ⟨p, Policy.legible_of_unpack (fileLines_readlines file) (List.mem_of_mem_tail hl) hunpack, hid, hload⟩

/-! ### The form is recovered -/

section

variable {host : Host} {s : System} {newId : Text} {formData : Form} {num : Option Text}

/-- What the page shows tells that the form is one that can be shown. -/
theorem Recovers.recoverable
    (hrecovers : Recovers formData (Op.names (.update formData num newId)) (updatePolicyConfig host s newId formData num).1) :
    Recoverable formData (Op.names (.update formData num newId)) (linesBefore s) := by
  obtain ⟨v, policy, hsubmits, hget, hshows⟩ := hrecovers
  obtain rfl | ⟨q, hlegible, hid, hload⟩ := exists_line_of_getPolicy hget
  · exact nomatch hshows.name
  obtain ⟨shown, rfl⟩ := Policy.load_ok.mp hload
  have hv : v.Plain := hshows.plain hlegible
  have htimes : ∀ row ∈ formRows formData, ∀ time ∈ [row.1, row.2], Timed time ∧ Unbreaking time := by
    intro row hrow
    refine shown.rows_timed hlegible.plain row ?_
    rw [hshows.timePer]
    exact List.mem_eraseDups.mpr hrow
  have htimed : ∀ row ∈ formRows formData, ∀ time ∈ [row.1, row.2], Timed time :=
    fun row hrow time htime => (htimes row hrow time htime).1
  have hruleId : Unbreaking (Op.names (.update formData num newId)) := by
    rw [← hid]
    exact hlegible.plain q.ruleId List.mem_cons_self
  -- the line that was written is plain, so it is the line that was found
  have hp := hv.legible hruleId fun row hrow time htime => (htimes row hrow time htime).2
  have hform := hsubmits.formPolicy (both_of_timed htimed) (Op.names (.update formData num newId))
  rw [getPolicy_updatePolicyConfig hform] at hget
  obtain hempty | ⟨p, hfound, hp'⟩ := found_of_loadFrom hget
  · rw [hempty] at hshows
    exact nomatch hshows.name
  obtain ⟨rfl, hreachable⟩ := (found_putLine hp (fileLines_readlines _) (linesBefore_ne_nil s)).mp hfound
  obtain ⟨parts, hparts⟩ := Policy.load_ok.mp hp'
  rw [← hparts] at hshows
  obtain ⟨day, hday⟩ := List.exists_mem_of_ne_nil _ parts.nonempty.1
  exact {
    values := ⟨v, hsubmits, hv⟩
    ruleId := hruleId
    days := ⟨day, formDays_subset formData day hday, has_of_mem_formDays hday⟩
    rows := parts.nonempty.2
    times := htimes
    unmixed := (parts.shows_iff htimed hv).mp hshows
    reachable := hreachable }

theorem Recoverable.recovers
    (hrecoverable : Recoverable formData (Op.names (.update formData num newId)) (linesBefore s)) :
    Recovers formData (Op.names (.update formData num newId)) (updatePolicyConfig host s newId formData num).1 := by
  obtain ⟨v, hsubmits, hv⟩ := hrecoverable.values
  have htimed : ∀ row ∈ formRows formData, ∀ time ∈ [row.1, row.2], Timed time :=
    fun row hrow time htime => (hrecoverable.times row hrow time htime).1
  have hp := hv.legible hrecoverable.ruleId fun row hrow time htime => (hrecoverable.times row hrow time htime).2
  have hform := hsubmits.formPolicy (both_of_timed htimed) (Op.names (.update formData num newId))
  have hfound := (found_putLine hp (fileLines_readlines _) (linesBefore_ne_nil s)).mpr ⟨rfl, hrecoverable.reachable⟩
  obtain ⟨parts⟩ := hv.exists_parts htimed (formDays_ne_nil hrecoverable.days) hrecoverable.rows
  have hget : (getPolicy (updatePolicyConfig host s newId formData num).1
      (some (Op.names (.update formData num newId)))).2 = .ok parts.dict := by
    rw [getPolicy_updatePolicyConfig hform]
    exact hfound.loadFrom.trans (Policy.load_ok.mpr ⟨parts, rfl⟩)
  exact ⟨v, parts.dict, hsubmits, hget, (parts.shows_iff htimed hv).mpr hrecoverable.unmixed⟩

end

/-- **When the edit page shows what was saved.** -/
theorem getPolicy_recovers_iff (host : Host) (s : System) (newId : Text) (formData : Form) (num : Option Text) :
    Recovers formData (Op.names (.update formData num newId)) (updatePolicyConfig host s newId formData num).1
      ↔ Recoverable formData (Op.names (.update formData num newId)) (linesBefore s) :=
  ⟨Recovers.recoverable, Recoverable.recovers⟩

/-- In a file that is the map of storable policies, `getPolicy` comes to every line but the header. -/
theorem Stores.reachable {s : System} {live : List Policy} (hs : Stores s live) {id : Text}
    (hid : id ≠ "#fields".toList) : Reachable id (linesBefore s) := by
  have hlines : linesBefore s = header :: live.map Policy.line := by
    rw [linesBefore, hs.verify, hs.file, Option.getD_some, readlines_file hs.storable]
  rw [hlines]
  constructor
  · intro l hl
    obtain ⟨p, hp, rfl⟩ := List.mem_map.mp (List.takeWhile_subset _ hl)
    exact ⟨p, (hs.storable p hp).legible.unpack_line⟩
  · refine or_iff_not_imp_left.mpr fun hnew => List.forall_mem_cons.mpr ⟨⟨?_, by decide⟩, fun l hl => ?_⟩
    · rw [lineId_header]
      exact hid.symm
    · refine ⟨fun heq => hnew (List.mem_map.mpr ⟨l, hl, heq⟩), ?_⟩
      obtain ⟨p, _, rfl⟩ := List.mem_map.mp hl
      exact List.suffix_append _ ['\n']

/-- A row with the start of the first and the stop of the second. -/
def mixedForm : Form where
  fields := [("policyName", "shifts"), ("srcIp", ""), ("destIp", "10.0.0.7"), ("proto", "modbus"), ("func", ""),
    ("funcRegex", "contains"), ("Mon", "on"), ("timeStart0", "08:00:00"), ("timeStop0", "12:00:00"),
    ("timeStart1", "13:00:00"), ("timeStop1", "17:00:00"), ("timeStart2", "08:00:00"), ("timeStop2", "17:00:00"),
    ("severity", "notice"), ("filtering", "active")].map fun field => (field.1.toList, field.2.toList)
  nodup := by decide

def mixedValues : Values where
  name := "shifts".toList
  src := []
  dest := "10.0.0.7".toList
  proto := "modbus".toList
  funcRegex := "contains".toList
  func := []
  severity := "notice".toList
  filtering := "active".toList

/-- The third row is not shown. -/
theorem mixed_row_dropped :
    mixedForm.Submits mixedValues ∧ mixedValues.Plain
      ∧ formRows mixedForm = [("08:00:00".toList, "12:00:00".toList), ("13:00:00".toList, "17:00:00".toList),
        ("08:00:00".toList, "17:00:00".toList)]
      ∧ ¬ Recovers mixedForm mondayId (updatePolicyConfig Host.plain ⟨none, [], []⟩ mondayId mixedForm none).1 := by
  have hrows : formRows mixedForm = [("08:00:00".toList, "12:00:00".toList), ("13:00:00".toList, "17:00:00".toList),
      ("08:00:00".toList, "17:00:00".toList)] := by decide
  refine ⟨⟨rfl, rfl, rfl, rfl, rfl, rfl, rfl, rfl⟩, ⟨by decide, by decide, by decide, 'e', rfl, by decide⟩, hrows, ?_⟩
  intro hrecovers
  have hid : Op.names (.update mixedForm none mondayId) = mondayId := by
    have hnew : mixedForm.has "submitAsNew".toList = false := rfl
    rw [Op.names, hnew, if_neg Bool.false_ne_true, Option.getD_none]
  rw [← hid] at hrecovers
  have hunmixed := hrecovers.recoverable.unmixed
  rw [hrows] at hunmixed
  exact absurd (hunmixed.2.2.1 (by decide) (by decide)) (by decide)

end Armore.Filtering
