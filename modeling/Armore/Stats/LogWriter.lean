import Armore.Stats.AnoDet
import Armore.Stats.Collector

/-!
# The lines of the logs

`Log::write` is outside the repository: it prints a record as one line, the columns separated by tabs and a
field that is not set as `-`. What is used of it here is that it escapes what cannot be printed, prints a
string that is empty or `-` in another way, and leaves an address as it is. The columns are those of the
records of the three scripts, in their order.
-/

namespace Armore

open Lib

/-- A column as it is printed: not empty, and of printable ASCII characters. -/
def Printed (t : Text) : Prop := t ≠ [] ∧ ∀ c ∈ t, 0x20 ≤ c.toNat ∧ c.toNat < 0x7f

/-- A column without a space. -/
def Word (t : Text) : Prop := t ≠ [] ∧ ∀ c ∈ t, 0x20 < c.toNat ∧ c.toNat < 0x7f

instance (t : Text) : Decidable (Printed t) :=
  @instDecidableAnd _ _ inferInstance (List.decidableBAll (fun c => 0x20 ≤ c.toNat ∧ c.toNat < 0x7f) t)

instance (t : Text) : Decidable (Word t) :=
  @instDecidableAnd _ _ inferInstance (List.decidableBAll (fun c => 0x20 < c.toNat ∧ c.toNat < 0x7f) t)

def IsAddress (t : Text) : Prop := t ≠ [] ∧ ∀ c ∈ t, c ∈ "0123456789abcdef.:".toList

instance (t : Text) : Decidable (IsAddress t) :=
  @instDecidableAnd _ _ inferInstance (List.decidableBAll (fun c => c ∈ "0123456789abcdef.:".toList) t)

/-- How a value is printed. -/
structure AsciiWriter where
  count : Nat → Text
  time : ℚ → Text
  interval : ℚ → Text
  double : ℚ → Text
  anoType : AnoDet.AnoType → Text
  string : Text → Text
  count_word : ∀ n, Word (count n)
  time_word : ∀ t, Word (time t)
  interval_word : ∀ d, Word (interval d)
  double_word : ∀ x, Word (double x)
  anoType_word : ∀ desc, Word (anoType desc)
  count_start : ∀ n, (count n).head? ≠ some '#'
  time_start : ∀ t, (time t).head? ≠ some '#'
  string_printed : ∀ s, Printed (string s)
  string_ne_unset : ∀ s, string s ≠ ['-']
  string_address : ∀ s, IsAddress s → string s = s

/-- `StatsCount::Info`. -/
structure StatsCount.LogInfo where
  periodId : Nat
  ts : ℚ
  period : ℚ
  sender : Option Text := none
  receiver : Option Text := none
  protocol : Option Text := none
  uid : Option Text := none
  func : Option Text := none
  target : Option Text := none
  num : Nat := 0
  bytes : ℚ := 0
  isRequest : Option Bool := none
  numResponse : Option Nat := none
  avgDelay : Option ℚ := none

namespace AsciiWriter

variable (w : AsciiWriter)

/-- `unset_field`. -/
def unset : Text := ['-']

def cell {α : Type} (print : α → Text) (field : Option α) : Text := (field.map print).getD unset

def bool (b : Bool) : Text := if b then ['T'] else ['F']

def line (columns : List Text) : Text := ['\t'].intercalate columns ++ ['\n']

end AsciiWriter

/-- The columns that all three logs have. -/
structure Labels where
  sender : Text
  receiver : Text
  protocol : Text
  uid : Text
  func : Text
  target : Text
  deriving DecidableEq

def Labels.columns (l : Labels) : List Text := [l.sender, l.receiver, l.protocol, l.uid, l.func, l.target]

/-- A row of the log of `StatsCol` from the sender on. -/
structure ColRow where
  labels : Labels
  isResponse : Text
  deriving DecidableEq

def ColRow.columns (r : ColRow) : List Text := r.labels.columns ++ [r.isResponse]

/-- A row of the log of `AnoDet` from the sender on. -/
structure AnomalyRow where
  labels : Labels
  field : Text
  desc : Text
  score : Text
  average : Text
  std : Text
  current : Text
  deriving DecidableEq

def AnomalyRow.columns (r : AnomalyRow) : List Text :=
  r.labels.columns ++ [r.field, r.desc, r.score, r.average, r.std, r.current]

namespace AsciiWriter

variable (w : AsciiWriter)

def labels (sender receiver protocol uid func target : Option Text) : Labels where
  sender := cell w.string sender
  receiver := cell w.string receiver
  protocol := cell w.string protocol
  uid := cell w.string uid
  func := cell w.string func
  target := cell w.string target

def colRow (item : StatsCol.Info) : ColRow where
  labels := w.labels item.sender item.receiver item.protocol item.uid item.func item.target
  isResponse := cell bool item.isResponse

def colLine (item : StatsCol.Info) : Text :=
  line ([w.time item.ts, w.count item.len] ++ (w.colRow item).columns)

def countLabels (info : StatsCount.LogInfo) : Labels :=
  w.labels info.sender info.receiver info.protocol info.uid info.func info.target

def countLine (info : StatsCount.LogInfo) : Text :=
  line ([w.count info.periodId, w.time info.ts, w.interval info.period] ++ (w.countLabels info).columns
    ++ [w.count info.num, w.double info.bytes, cell bool info.isRequest, cell w.count info.numResponse,
      cell w.interval info.avgDelay])

def anomalyRow (anomaly : AnoDet.AnoInfo) : AnomalyRow where
  labels := w.labels anomaly.sender anomaly.receiver anomaly.protocol anomaly.uid anomaly.func anomaly.target
  field := cell w.string anomaly.field
  desc := w.anoType anomaly.desc
  score := w.double anomaly.score
  average := cell w.double anomaly.average
  std := cell w.double anomaly.std
  current := cell w.double anomaly.current

def anomalyLine (anomaly : AnoDet.AnoInfo) : Text :=
  line ([w.count anomaly.periodId, w.time anomaly.ts, w.interval anomaly.period]
    ++ (w.anomalyRow anomaly).columns)

end AsciiWriter

/-! ### What the columns are like -/

namespace Word

variable {t : Text}

theorem printed (ht : Word t) : Printed t := ⟨ht.1, fun c hc => ⟨(ht.2 c hc).1.le, (ht.2 c hc).2⟩⟩

theorem notMem_space (ht : Word t) : ' ' ∉ t := fun hmem => absurd (ht.2 ' ' hmem).1 (by decide)

theorem whitespace_eq_false (ht : Word t) : ∀ c ∈ t, Text.whitespace c = false := by
  intro c hc
  obtain ⟨hlow, hhigh⟩ := ht.2 c hc
  simp only [Text.whitespace, Text.isSpace, Bool.or_eq_false_iff, decide_eq_false_iff_not, List.mem_cons,
    List.not_mem_nil, or_false]
  omega

end Word

namespace Printed

variable {t : Text}

theorem word_iff (ht : Printed t) : Word t ↔ ' ' ∉ t := by
  constructor
  · exact Word.notMem_space
  · intro hspace
    refine ⟨ht.1, fun c hc => ⟨?_, (ht.2 c hc).2⟩⟩
    refine lt_of_le_of_ne (ht.2 c hc).1 fun heq => hspace ?_
    have hc' : c = ' ' := Char.ext (UInt32.toNat_inj.mp heq.symm)
    exact hc' ▸ hc

theorem notMem_tab (ht : Printed t) : '\t' ∉ t := fun hmem => absurd (ht.2 '\t' hmem).1 (by decide)

end Printed

theorem IsAddress.word {t : Text} (ht : IsAddress t) : Word t := by
  refine ⟨ht.1, fun c hc => ?_⟩
  have hall : ("0123456789abcdef.:".toList.all fun d => 0x20 < d.toNat ∧ d.toNat < 0x7f) = true := by decide
  exact of_decide_eq_true (List.all_eq_true.mp hall c (ht.2 c hc))

namespace AsciiWriter

variable (w : AsciiWriter)

theorem unset_word : Word unset := by decide

theorem cell_word {α : Type} {print : α → Text} (hprint : ∀ x, Word (print x)) (field : Option α) :
    Word (cell print field) := by
  cases field with
  | none => exact unset_word
  | some x => exact hprint x

theorem cell_string (field : Option Text) : Printed (cell w.string field) := by
  cases field with
  | none => exact unset_word.printed
  | some s => exact w.string_printed s

theorem bool_word (b : Bool) : Word (bool b) := by
  cases b <;> decide

theorem cell_address {field : Option Text} (haddress : ∀ a ∈ field, IsAddress a) :
    Word (cell w.string field) := by
  cases field with
  | none => exact unset_word
  | some a =>
    have ha := haddress a rfl
    rw [cell, Option.map_some, Option.getD_some, w.string_address a ha]
    exact ha.word

/-- Only a field that is not set is printed as one. -/
theorem cell_eq_unset {field : Option Text} : cell w.string field = unset ↔ field = none := by
  cases field with
  | none => exact ⟨fun _ => rfl, fun _ => rfl⟩
  | some s => exact ⟨fun h => absurd h (w.string_ne_unset s), fun h => nomatch h⟩

theorem labels_printed (sender receiver protocol uid func target : Option Text) :
    ∀ c ∈ (w.labels sender receiver protocol uid func target).columns, Printed c := by
  simp only [Labels.columns, labels, List.forall_mem_cons, cell_string, List.not_mem_nil, false_imp_iff,
    implies_true, and_self]

theorem colRow_printed (item : StatsCol.Info) : ∀ c ∈ (w.colRow item).columns, Printed c := by
  rw [ColRow.columns, List.forall_mem_append]
  exact ⟨w.labels_printed _ _ _ _ _ _, List.forall_mem_singleton.mpr (cell_word bool_word _).printed⟩

theorem anomalyRow_printed (anomaly : AnoDet.AnoInfo) : ∀ c ∈ (w.anomalyRow anomaly).columns, Printed c := by
  rw [AnomalyRow.columns, List.forall_mem_append]
  refine ⟨w.labels_printed _ _ _ _ _ _, ?_⟩
  simp only [List.forall_mem_cons, List.not_mem_nil, false_imp_iff, implies_true, and_true]
  exact ⟨w.cell_string _, (w.anoType_word _).printed, (w.double_word _).printed,
    (cell_word w.double_word _).printed, (cell_word w.double_word _).printed, (cell_word w.double_word _).printed⟩

end AsciiWriter

end Armore
