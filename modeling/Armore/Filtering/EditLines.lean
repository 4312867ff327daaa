import Armore.Filtering.EditPolicy

/-!
# The line of an id

Which line `getPolicy` finds when a line was put into the file under the id it asks for. It splits every line up to
that of the id, so a line before it that has not eight fields is an exception; it never looks at the first line; and
a line that was added is only there if the line before it ends.
-/

namespace Armore.Filtering

open Armore.Lib Armore.Lib.Text

/-! ### A line and its fields -/

namespace Policy

variable {p : Policy}

/-- What a policy needs to be read back from its line. -/
structure Legible (p : Policy) : Prop where
  plain : ∀ value ∈ p.fields, Unbreaking value
  filtering : ∃ c ∈ p.filtering.getLast?, whitespace c = false

theorem Storable.legible (hp : p.Storable) : p.Legible where
  plain := hp.plain
  filtering := hp.filtering

theorem Legible.unbroken (hp : p.Legible) : Unbroken (['\t'].intercalate p.fields) :=
  ⟨notMem_intercalate (by decide) fun value hvalue => (hp.plain value hvalue).2.1,
    notMem_intercalate (by decide) fun value hvalue => (hp.plain value hvalue).2.2⟩

theorem Legible.unpack_line (hp : p.Legible) : unpack (stripEnd p.line) = .ok p := by
  rw [stripEnd_line hp.filtering]
  exact unpack_intercalate fun value hvalue => (hp.plain value hvalue).1

theorem Legible.lineId_line (hp : p.Legible) : lineId p.line = p.ruleId :=
  lineId_append (hp.plain p.ruleId List.mem_cons_self).1 ['\n']

theorem stripEnd_of_unpack {l : Text} (hunpack : unpack (stripEnd l) = .ok p) :
    stripEnd l = ['\t'].intercalate p.fields := by
  rw [← fields_of_unpack hunpack, List.intercalate_splitOn]

/-- The spaces that are stripped are not in the first field. -/
theorem lineId_of_unpack {l : Text} (hunpack : unpack (stripEnd l) = .ok p) : lineId l = p.ruleId := by
  have hid : p.ruleId ∈ (stripEnd l).splitOn '\t' := by
    rw [fields_of_unpack hunpack]
    exact List.mem_cons_self
  have hline : ['\t'].intercalate p.fields ++ l.rtakeWhile whitespace = l := by
    rw [← stripEnd_of_unpack hunpack]
    exact List.rdropWhile_append_rtakeWhile
  rw [← lineId_append (notMem_of_mem_splitOn hid) (l.rtakeWhile whitespace), hline]

/-- The last character of what is left of a line is no space. -/
theorem filtering_of_unpack {l : Text} (hunpack : unpack (stripEnd l) = .ok p) :
    ∃ c ∈ p.filtering.getLast?, whitespace c = false := by
  have hline : stripEnd l = ['\t'].intercalate [p.ruleId, p.name, p.ip, p.proto, p.func, p.timePer, p.severity]
      ++ '\t' :: p.filtering := by
    rw [stripEnd_of_unpack hunpack]
    simp [List.intercalate, fields]
  have hne : stripEnd l ≠ [] := by
    rw [hline]
    exact List.append_ne_nil_of_right_ne_nil _ (List.cons_ne_nil _ _)
  have hvisible : whitespace ((stripEnd l).getLast hne) = false :=
    eq_false_of_ne_true (List.rdropWhile_last_not whitespace l hne)
  simp only [hline, List.getLast_append_of_ne_nil _ (List.cons_ne_nil _ _)] at hvisible
  by_cases hnil : p.filtering = []
  · simp only [hnil, List.getLast_singleton] at hvisible
    exact absurd hvisible (by decide)
  · rw [List.getLast_cons hnil] at hvisible
    exact ⟨_, List.getLast?_eq_some_getLast hnil, hvisible⟩

theorem legible_of_unpack {lines : List Text} (hlines : FileLines lines) {l : Text} (hl : l ∈ lines)
    (hunpack : unpack (stripEnd l) = .ok p) : p.Legible where
  plain value hvalue := by
    rw [← fields_of_unpack hunpack] at hvalue
    obtain ⟨text, hfree, hline⟩ := hlines.of_mem hl
    have hstripped : stripEnd l = stripEnd text := by
      rcases hline with rfl | rfl
      · rw [stripEnd, List.rdropWhile_concat_pos _ _ _ (by decide)]
        rfl
      · rfl
    have hsubset : value ⊆ text := by
      intro c hc
      have hmem := subset_of_mem_splitOn hvalue hc
      rw [hstripped] at hmem
      exact (List.rdropWhile_prefix whitespace text).subset hmem
    exact ⟨notMem_of_mem_splitOn hvalue, fun hc => hfree.1 (hsubset hc), fun hc => hfree.2 (hsubset hc)⟩
  filtering := filtering_of_unpack hunpack

end Policy

/-! ### The loop over the lines -/

/-- The line comes apart into eight fields. -/
def Readable (l : Text) : Prop := ∃ p, Policy.unpack (stripEnd l) = .ok p

/-- The loop comes to a line of the id with these fields. -/
inductive Found (id : Text) (p : Policy) : List Text → Prop
  | here {l : Text} {lines : List Text} : Policy.unpack (stripEnd l) = .ok p → p.ruleId = id → Found id p (l :: lines)
  | later {l : Text} {lines : List Text} {q : Policy} : Policy.unpack (stripEnd l) = .ok q → q.ruleId ≠ id →
      Found id p lines → Found id p (l :: lines)

section

variable {id : Text} {p q : Policy} {lines : List Text}

theorem Found.loadFrom (hfound : Found id p lines) : loadFrom (some id) (lines.map stripEnd) = p.load := by
  induction hfound with
  | here hunpack hid =>
      rw [List.map_cons, Filtering.loadFrom, hunpack]
      exact if_pos (congrArg some hid)
  | later hunpack hid _ ih =>
      rw [List.map_cons, Filtering.loadFrom, hunpack, ← ih]
      exact if_neg fun heq => hid (Option.some.inj heq)

/-- The dictionary is empty, or that of a line of the id. -/
theorem found_of_loadFrom {policy : PolicyDict} (hload : loadFrom (some id) (lines.map stripEnd) = .ok policy) :
    policy = .empty ∨ ∃ p, Found id p lines ∧ p.load = .ok policy := by
  induction lines with
  | nil => exact .inl (Except.ok.inj hload).symm
  | cons l lines ih =>
      rw [List.map_cons, Filtering.loadFrom, bind_ok] at hload
      obtain ⟨p, hunpack, hrest⟩ := hload
      split at hrest
      · rename_i hid
        exact .inr ⟨p, .here hunpack (Option.some.inj hid), hrest⟩
      · rename_i hid
        rcases ih hrest with hempty | ⟨q, hfound, hload⟩
        · exact .inl hempty
        · exact .inr ⟨q, .later hunpack (fun heq => hid (congrArg some heq)) hfound, hload⟩

theorem Found.exists_line (hfound : Found id p lines) : ∃ l ∈ lines, Policy.unpack (stripEnd l) = .ok p ∧ p.ruleId = id := by
  induction hfound with
  | here hunpack hid => exact ⟨_, List.mem_cons_self, hunpack, hid⟩
  | later _ _ _ ih =>
      obtain ⟨l, hl, hline⟩ := ih
      exact ⟨l, List.mem_cons_of_mem _ hl, hline⟩

/-- Only the first line of the id counts. -/
theorem found_cons {l : Text} :
    Found id p (l :: lines)
      ↔ if lineId l = id then Policy.unpack (stripEnd l) = .ok p else Readable l ∧ Found id p lines := by
  constructor
  · intro hfound
    cases hfound with
    | here hunpack hid => rwa [if_pos ((Policy.lineId_of_unpack hunpack).trans hid)]
    | later hunpack hid hrest =>
        rw [if_neg (Policy.lineId_of_unpack hunpack ▸ hid)]
        exact ⟨⟨_, hunpack⟩, hrest⟩
  · split
    · rename_i hid
      exact fun hunpack => .here hunpack ((Policy.lineId_of_unpack hunpack).symm.trans hid)
    · rename_i hid
      exact fun ⟨⟨q, hunpack⟩, hrest⟩ => .later hunpack (fun heq => hid ((Policy.lineId_of_unpack hunpack).trans heq)) hrest

end

/-! ### The line that was put in -/

/-- `getPolicy` comes to the line that is put into the lines under the id: those before it can be read, and it takes
the place of a line after the first or comes after the end of the last. -/
structure Reachable (id : Text) (lines : List Text) : Prop where
  readable : ∀ l ∈ lines.tail.takeWhile fun l => lineId l ≠ id, Readable l
  placed : id ∈ lines.tail.map lineId ∨ ∀ l ∈ lines, lineId l ≠ id ∧ ['\n'] <:+ l

section

variable {p q : Policy} (hp : p.Legible)
include hp

theorem found_line (lines : List Text) : Found p.ruleId q (p.line :: lines) ↔ q = p := by
  rw [found_cons, if_pos hp.lineId_line, hp.unpack_line, Except.ok.injEq]
  exact eq_comm

theorem found_replaced (lines : List Text) :
    Found p.ruleId q (lines.map fun l => if lineId l = p.ruleId then p.line else l)
      ↔ q = p ∧ p.ruleId ∈ lines.map lineId
        ∧ ∀ l ∈ lines.takeWhile fun l => lineId l ≠ p.ruleId, Readable l := by
  induction lines with
  | nil => exact iff_of_false nofun fun h => absurd h.2.1 List.not_mem_nil
  | cons l lines ih =>
      rw [List.map_cons, List.map_cons, List.mem_cons, List.takeWhile_cons]
      by_cases hid : lineId l = p.ruleId
      · rw [if_pos hid, found_line hp, if_neg (by simpa using hid)]
        exact ⟨fun hq => ⟨hq, .inl hid.symm, nofun⟩, And.left⟩
      · rw [if_neg hid, found_cons, if_neg hid, ih, if_pos (by simpa using hid), List.forall_mem_cons,
          or_iff_right (Ne.symm hid)]
        tauto

theorem found_appended {lines : List Text} (hother : ∀ l ∈ lines, lineId l ≠ p.ruleId) :
    Found p.ruleId q (lines ++ [p.line]) ↔ q = p ∧ ∀ l ∈ lines, Readable l := by
  induction lines with
  | nil => rw [List.nil_append, found_line hp, and_iff_left nofun]
  | cons l lines ih =>
      rw [List.forall_mem_cons] at hother
      rw [List.cons_append, found_cons, if_neg hother.1, ih hother.2, List.forall_mem_cons]
      tauto

/-- A line at the end of one that has no newline is not under its id. -/
theorem lineId_joined {last : Text} (hne : last ≠ []) (hother : lineId last ≠ p.ruleId) :
    lineId (last ++ p.line) ≠ p.ruleId := by
  by_cases htab : '\t' ∈ last
  · obtain ⟨first, rest, rfl, hfirst⟩ := List.eq_append_cons_of_mem htab
    have hhead : ∀ after, lineId (first ++ '\t' :: after) = first := fun after => by
      rw [lineId, splitHead, List.splitOn_append_cons_self_of_not_mem hfirst, List.headD_cons]
    rw [hhead] at hother
    rwa [List.append_assoc, List.cons_append, hhead]
  · have hid : '\t' ∉ last ++ p.ruleId := by
      rw [List.mem_append, not_or]
      exact ⟨htab, (hp.plain p.ruleId List.mem_cons_self).1⟩
    have hline : last ++ p.line = ['\t'].intercalate ({ p with ruleId := last ++ p.ruleId } : Policy).fields ++ ['\n'] := by
      simp [Policy.line, Policy.fields, List.intercalate]
    rw [hline, Policy.lineId_append hid]
    exact fun heq => hne (List.append_left_eq_self.mp heq)

section

variable {lines : List Text} (hlines : FileLines lines)
include hlines

/-- A line in the place of an old one is found if it is not the first. -/
theorem found_putLine_old (hold : p.ruleId ∈ lines.map lineId) :
    Found p.ruleId q (readlines (putLine p.ruleId p.line lines).flatten).tail ↔ q = p ∧ Reachable p.ruleId lines := by
  have hput : putLine p.ruleId p.line lines = lines.map fun l => if lineId l = p.ruleId then p.line else l :=
    if_pos (Keyed.any_key.mpr hold)
  have hread := (hlines.replace (fun l => lineId l = p.ruleId) hp.unbroken).readlines_flatten
  have htail : (readlines (putLine p.ruleId p.line lines).flatten).tail
      = lines.tail.map fun l => if lineId l = p.ruleId then p.line else l := by
    rw [hput]
    exact (congrArg List.tail hread).trans List.map_tail.symm
  rw [htail, found_replaced hp]
  refine and_congr_right fun _ => ⟨fun ⟨hbody, hreadable⟩ => ⟨hreadable, .inl hbody⟩, fun h => ⟨?_, h.readable⟩⟩
  refine h.placed.resolve_right fun hother => ?_
  obtain ⟨l, hl, hid⟩ := List.mem_map.mp hold
  exact (hother l hl).1 hid

omit hlines in
/-- A new line is found if it is a line of its own. -/
theorem found_putLine_new (hne : lines ≠ []) (hother : ∀ l ∈ lines, lineId l ≠ p.ruleId)
    (hends : ∀ l ∈ lines, ['\n'] <:+ l) (happended : FileLines (lines ++ [p.line])) :
    Found p.ruleId q (readlines (lines ++ [p.line]).flatten).tail ↔ q = p ∧ Reachable p.ruleId lines := by
  have htail : ∀ l ∈ lines.tail, lineId l ≠ p.ruleId := fun l hl => hother l (List.mem_of_mem_tail hl)
  have hwhole : lines.tail.takeWhile (fun l => lineId l ≠ p.ruleId) = lines.tail :=
    List.takeWhile_eq_self_iff.mpr fun l hl => decide_eq_true (htail l hl)
  rw [happended.readlines_flatten, List.tail_append_of_ne_nil hne, found_appended hp htail]
  refine and_congr_right fun _ => ⟨fun hreadable => ⟨?_, .inr fun l hl => ⟨hother l hl, hends l hl⟩⟩, fun h => ?_⟩
  · rwa [hwhole]
  · rw [← hwhole]
    exact h.readable

omit hlines in
/-- A new line is not found if it went to the end of another. -/
theorem not_found_joined {before : List Text} {last : Text} (hlast : last ≠ [])
    (hother : ∀ l ∈ before ++ [last], lineId l ≠ p.ruleId) (hjoined : FileLines (before ++ [last ++ p.line])) :
    ¬ Found p.ruleId q (readlines (before ++ [last] ++ [p.line]).flatten).tail := by
  have hflatten : (before ++ [last] ++ [p.line]).flatten = (before ++ [last ++ p.line]).flatten := by simp
  rw [hflatten, hjoined.readlines_flatten]
  intro hfound
  obtain ⟨l, hl, hunpack, hid⟩ := hfound.exists_line
  have hlid : lineId l = p.ruleId := (Policy.lineId_of_unpack hunpack).trans hid
  rcases List.mem_append.mp (List.mem_of_mem_tail hl) with hbefore | hlastline
  · exact hother l (List.mem_append_left _ hbefore) hlid
  · rw [List.mem_singleton.mp hlastline] at hlid
    exact lineId_joined hp hlast (hother last (List.mem_append_right before (List.mem_singleton_self last))) hlid

/-- **The line that is found after a line was put in**: it is that line, and there is no other. -/
theorem found_putLine (hne : lines ≠ []) :
    Found p.ruleId q (readlines (putLine p.ruleId p.line lines).flatten).tail ↔ q = p ∧ Reachable p.ruleId lines := by
  by_cases hold : p.ruleId ∈ lines.map lineId
  · exact found_putLine_old hp hlines hold
  · have hput : putLine p.ruleId p.line lines = lines ++ [p.line] := if_neg fun h => hold (Keyed.any_key.mp h)
    have hother : ∀ l ∈ lines, lineId l ≠ p.ruleId := fun l hl heq => hold (List.mem_map.mpr ⟨l, hl, heq⟩)
    rw [hput]
    rcases hlines.concat hp.unbroken with ⟨hends, happended⟩ | ⟨before, last, rfl, hlast, hopen, hjoined⟩
    · exact found_putLine_new hp hne hother hends happended
    · rw [List.append_assoc] at hjoined
      refine iff_of_false (not_found_joined hp hlast hother hjoined) fun ⟨_, h⟩ => ?_
      have hbody : p.ruleId ∉ (before ++ [last]).tail.map lineId := by
        intro hmem
        obtain ⟨l, hl, hid⟩ := List.mem_map.mp hmem
        exact hother l (List.mem_of_mem_tail hl) hid
      refine hopen ((h.placed.resolve_left hbody) last ?_).2
      exact List.mem_append_right before (List.mem_singleton_self last)

end

end

end Armore.Filtering
