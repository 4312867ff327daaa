import Armore.Filtering.PolicyFile
import Armore.Filtering.ScheduleJobs
import Mathlib.Data.Set.List

/-!
# The times of a form

What `updatePolicyConfig` makes of the day boxes and the time rows of a form. The inputs of a row accept an
hour, a minute and a second of one or two digits each, an empty input stands for the start or the end of the
day, and the time string has an entry for each row and each day.
-/

namespace Armore.Filtering

open Armore.Lib Armore.Lib.Text

/-! ### What the inputs accept -/

/-- One or two digits of a number below a limit. -/
structure Numeral (limit : Nat) where
  text : Text
  isDecimal : IsDecimal text
  short : text.length ≤ 2
  lt : decimal text < limit

/-- What `(?:[0-1]?[0-9]|2[0-3]):[0-5]?[0-9]:[0-5]?[0-9]` matches. -/
structure ClockTime where
  hour : Numeral 24
  min : Numeral 60
  sec : Numeral 60

namespace ClockTime

def text (c : ClockTime) : Text := c.hour.text ++ ':' :: c.min.text ++ ':' :: c.sec.text

end ClockTime

def IsClock (text : Text) : Prop := ∃ c : ClockTime, c.text = text

/-- A row as it is stored: its start and its stop. -/
structure Row where
  start : ClockTime
  stop : ClockTime

/-- Every row has both inputs, and each is empty or a time. -/
structure Form.TimesGiven (formData : Form) : Prop where
  both : ∀ t ∈ formTimes formData, t.2.start.isSome = true ∧ t.2.stop.isSome = true
  value : ∀ fd ∈ formData.fields, (searchTime fd.1).isSome = true → fd.2 = [] ∨ IsClock fd.2

/-- The start and the stop of each row, the defaults put in. -/
def formRows (formData : Form) : List (Text × Text) :=
  (formTimes formData).map fun t => (t.2.start.getD [], t.2.stop.getD [])

/-- The entries of the time string. -/
def timeTexts (formData : Form) : List Text :=
  (formRows formData).flatMap fun row => (formDays formData).map fun day => day ++ ':' :: row.1 ++ ':' :: row.2

/-! ### What the rows hold -/

/-- Both values of a period are of a kind, if they are set. -/
def Period.All (P : Text → Prop) (p : Period) : Prop := (∀ v, p.start = some v → P v) ∧ ∀ v, p.stop = some v → P v

theorem Period.all_set {P : Text → Prop} {p : Period} (hp : p.All P) {value : Text} (hvalue : P value)
    (startStop : Bound) : (p.set value startStop).All P := by
  cases startStop with
  | start =>
      refine ⟨fun v hv => ?_, hp.2⟩
      exact Option.some.inj hv ▸ hvalue
  | stop =>
      refine ⟨hp.1, fun v hv => ?_⟩
      exact Option.some.inj hv ▸ hvalue

theorem all_setTime {P : Text → Prop} {times : List (Text × Period)} (htimes : ∀ t ∈ times, t.2.All P)
    {num value : Text} (hvalue : P value) (startStop : Bound) :
    ∀ t ∈ setTime times num value startStop, t.2.All P := by
  unfold setTime
  split
  · intro t ht
    obtain ⟨t', ht', rfl⟩ := List.mem_map.mp ht
    split
    · exact Period.all_set (htimes t' ht') hvalue startStop
    · exact htimes t' ht'
  · intro t ht
    rcases List.mem_append.mp ht with hold | hnew
    · exact htimes t hold
    · rw [List.mem_singleton.mp hnew]
      exact Period.all_set ⟨nofun, nofun⟩ hvalue startStop

/-- What holds of the values of the time fields, and of the defaults of the empty ones, holds of the rows. -/
theorem all_formTimes {P : Text → Prop} (formData : Form)
    (hvalue : ∀ fd ∈ formData.fields, ∀ startStop num, searchTime fd.1 = some (startStop, num) →
      P (if fd.2 = [] then defaultTime startStop else fd.2)) :
    ∀ t ∈ formTimes formData, t.2.All P := by
  rw [formTimes]
  apply List.foldlRecOn (motive := fun times : List (Text × Period) => ∀ t ∈ times, t.2.All P)
  · exact List.forall_mem_nil _
  · intro times htimes fd hfd
    split
    · rename_i startStop num hsearch
      exact all_setTime htimes (hvalue fd hfd startStop num hsearch) startStop
    · exact htimes

theorem isClock_defaultTime (startStop : Bound) : IsClock (defaultTime startStop) := by
  cases startStop with
  | start =>
      exact ⟨⟨⟨"00".toList, by decide, by decide, by decide⟩, ⟨"00".toList, by decide, by decide, by decide⟩,
        ⟨"00".toList, by decide, by decide, by decide⟩⟩, rfl⟩
  | stop =>
      exact ⟨⟨⟨"23".toList, by decide, by decide, by decide⟩, ⟨"59".toList, by decide, by decide, by decide⟩,
        ⟨"59".toList, by decide, by decide, by decide⟩⟩, rfl⟩

/-- The rows are pairs of times. -/
theorem Form.TimesGiven.exists_rows {formData : Form} (hgiven : formData.TimesGiven) :
    ∃ rows : List Row, formRows formData = rows.map fun r => (r.start.text, r.stop.text) := by
  have hclocks : ∀ t ∈ formTimes formData, t.2.All IsClock := by
    apply all_formTimes
    intro fd hfd startStop num hsearch
    split
    · exact isClock_defaultTime startStop
    · rename_i hne
      exact (hgiven.value fd hfd (by rw [hsearch]; rfl)).resolve_left hne
  have hrange : ∀ row ∈ formRows formData, row ∈ Set.range fun r : Row => (r.start.text, r.stop.text) := by
    intro row hrow
    obtain ⟨t, ht, rfl⟩ := List.mem_map.mp hrow
    obtain ⟨hstart, hstop⟩ := hgiven.both t ht
    obtain ⟨start, hstart⟩ := Option.isSome_iff_exists.mp hstart
    obtain ⟨stop, hstop⟩ := Option.isSome_iff_exists.mp hstop
    obtain ⟨c, hc⟩ := (hclocks t ht).1 start hstart
    obtain ⟨c', hc'⟩ := (hclocks t ht).2 stop hstop
    rw [hstart, hstop, Option.getD_some, Option.getD_some, ← hc, ← hc']
    exact Set.mem_range_self (⟨c, c'⟩ : Row)
  have hmem : formRows formData ∈ Set.range (List.map fun r : Row => (r.start.text, r.stop.text)) := by
    rw [Set.range_list_map]
    exact hrange
  obtain ⟨rows, hrows⟩ := hmem
  exact ⟨rows, hrows.symm⟩

/-! ### The time string -/

theorem dropLast_flatten_commas (texts : List Text) :
    (texts.map (· ++ [','])).flatten.dropLast = [','].intercalate texts := by
  induction texts with
  | nil => rfl
  | cons text texts ih =>
      by_cases hnil : texts = []
      · simp [hnil, List.intercalate]
      · have hrest : (texts.map (· ++ [','])).flatten ≠ [] := by
          obtain ⟨next, rest, rfl⟩ := List.exists_cons_of_ne_nil hnil
          simp
        rw [List.map_cons, List.flatten_cons, List.dropLast_append_of_ne_nil hrest, ih,
          intercalate_cons text hnil, List.append_assoc, List.singleton_append]

/-- The entries of the form are joined. -/
theorem formTimeStr_eq {formData : Form}
    (hboth : ∀ t ∈ formTimes formData, t.2.start.isSome = true ∧ t.2.stop.isSome = true) :
    ∃ timeStr, formTimeStr formData = .ok timeStr ∧ timeStr.dropLast = [','].intercalate (timeTexts formData) := by
  have hday : ∀ t ∈ formTimes formData, ∀ day, dayTime t.2 day
      = .ok (day ++ ':' :: t.2.start.getD [] ++ ':' :: t.2.stop.getD [] ++ [',']) := by
    intro t ht day
    obtain ⟨hstart, hstop⟩ := hboth t ht
    obtain ⟨start, hstart⟩ := Option.isSome_iff_exists.mp hstart
    obtain ⟨stop, hstop⟩ := Option.isSome_iff_exists.mp hstop
    rw [dayTime, hstart, hstop]
    rfl
  have hrow : ∀ t ∈ formTimes formData, (formDays formData).mapM (dayTime t.2)
      = .ok ((formDays formData).map fun day =>
          day ++ ':' :: t.2.start.getD [] ++ ':' :: t.2.stop.getD [] ++ [',']) :=
    fun t ht => mapM_eq_map fun day _ => hday t ht day
  refine ⟨_, ?_, dropLast_flatten_commas (timeTexts formData)⟩
  rw [formTimeStr, mapM_eq_map hrow]
  show Except.ok _ = _
  congr 1
  simp only [timeTexts, formRows, List.flatMap_map, List.map_flatMap, List.map_map, ← List.flatMap_def]
  rfl

end Armore.Filtering
