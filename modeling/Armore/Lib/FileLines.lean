import Armore.Lib.Text

/-!
# The lines of a file

What `readlines` returns has a shape of its own: every line but the last ends with a newline, and there is no
other line break in it. Joined lines of that shape are read back as they are, so a program that reads the lines,
replaces some and writes them joined finds its lines again. A line that is added is found again only if the
line before it has its newline; otherwise the two become one.
-/

namespace Armore.Lib.Text

/-- No line break is in the text. -/
def Unbroken (text : Text) : Prop := '\n' ∉ text ∧ '\r' ∉ text

/-- Every line ends with its newline, but for the last, which may have none. -/
inductive FileLines : List Text → Prop
  | nil : FileLines []
  | last {line : Text} : line ≠ [] → Unbroken line → FileLines [line]
  | cons {line : Text} {lines : List Text} : Unbroken line → FileLines lines → FileLines ((line ++ ['\n']) :: lines)

theorem return_notMem_universalNewlines (text : Text) : '\r' ∉ universalNewlines text := by
  fun_induction universalNewlines text with
  | case1 rest ih | case2 rest _ ih =>
      intro hmem
      rcases List.mem_cons.mp hmem with heq | hrest
      · exact absurd heq (by decide)
      · exact ih hrest
  | case3 c rest _ hne ih =>
      intro hmem
      rcases List.mem_cons.mp hmem with heq | hrest
      · exact hne heq.symm
      · exact ih hrest
  | case4 => exact List.not_mem_nil

theorem fileLines_keepLines {text : Text} (hreturn : '\r' ∉ text) : FileLines (keepLines text) := by
  induction text with
  | nil => exact .nil
  | cons c rest ih =>
      rw [List.mem_cons, not_or] at hreturn
      have hrest := ih hreturn.2
      rw [keepLines]
      split
      · rename_i hnewline
        rw [hnewline]
        exact .cons ⟨List.not_mem_nil, List.not_mem_nil⟩ hrest
      · rename_i hnewline
        have hextend : ∀ {line : Text}, Unbroken line → Unbroken (c :: line) := fun hline =>
          ⟨List.not_mem_cons_of_ne_of_not_mem (Ne.symm hnewline) hline.1,
            List.not_mem_cons_of_ne_of_not_mem hreturn.1 hline.2⟩
        split
        · exact .last (List.cons_ne_nil c []) (hextend ⟨List.not_mem_nil, List.not_mem_nil⟩)
        · rename_i line lines hlines
          rw [hlines] at hrest
          cases hrest with
          | last _ hfree => exact .last (List.cons_ne_nil c line) (hextend hfree)
          | cons hfree hlines => exact .cons (hextend hfree) hlines

theorem fileLines_readlines (text : Text) : FileLines (readlines text) :=
  fileLines_keepLines (return_notMem_universalNewlines text)

theorem keepLines_unbroken {line : Text} (hne : line ≠ []) (hline : '\n' ∉ line) : keepLines line = [line] := by
  induction line with
  | nil => exact absurd rfl hne
  | cons c line ih =>
      rw [List.mem_cons, not_or] at hline
      rw [keepLines, if_neg (Ne.symm hline.1)]
      cases line with
      | nil => rfl
      | cons d line => rw [ih (List.cons_ne_nil d line) hline.2]

/-- The lines have the characters of the text, and newlines. -/
theorem mem_universalNewlines {c : Char} {text : Text} (hc : c ∈ universalNewlines text) : c ∈ text ∨ c = '\n' := by
  fun_induction universalNewlines text with
  | case1 rest ih | case2 rest _ ih =>
      rcases List.mem_cons.mp hc with rfl | hrest
      · exact .inr rfl
      · exact (ih hrest).imp_left fun hmem => by simp [hmem]
  | case3 d rest _ _ ih =>
      rcases List.mem_cons.mp hc with rfl | hrest
      · exact .inl List.mem_cons_self
      · exact (ih hrest).imp_left (List.mem_cons_of_mem d)
  | case4 => exact absurd hc List.not_mem_nil

theorem flatten_keepLines (text : Text) : (keepLines text).flatten = text := by
  fun_induction keepLines text with
  | case1 => rfl
  | case2 rest ih => rw [List.flatten_cons, ih, List.singleton_append]
  | case3 c rest hc hlines ih =>
      rw [hlines] at ih
      rw [← ih]
      rfl
  | case4 c rest hc line lines hlines ih =>
      rw [hlines] at ih
      rw [← ih]
      rfl

theorem mem_of_mem_readlines {c : Char} {text line : Text} (hline : line ∈ readlines text) (hc : c ∈ line) :
    c ∈ text ∨ c = '\n' := by
  apply mem_universalNewlines
  rw [← flatten_keepLines (universalNewlines text)]
  exact List.mem_flatten.mpr ⟨line, hline, hc⟩

namespace FileLines

variable {lines : List Text}

/-- A line is its text, with a newline or without. -/
theorem of_mem (hlines : FileLines lines) {line : Text} (hline : line ∈ lines) :
    ∃ text, Unbroken text ∧ (line = text ++ ['\n'] ∨ line = text) := by
  induction hlines with
  | nil => exact absurd hline List.not_mem_nil
  | @last text _ hfree => exact ⟨text, hfree, .inr (List.mem_singleton.mp hline)⟩
  | @cons text lines hfree _ ih =>
      rcases List.mem_cons.mp hline with heq | hrest
      · exact ⟨text, hfree, .inl heq⟩
      · exact ih hrest

theorem return_notMem_flatten (hlines : FileLines lines) : '\r' ∉ lines.flatten := by
  intro hmem
  obtain ⟨line, hline, hc⟩ := List.mem_flatten.mp hmem
  obtain ⟨text, hfree, rfl | rfl⟩ := hlines.of_mem hline
  · rcases List.mem_append.mp hc with htext | hnewline
    · exact hfree.2 htext
    · exact absurd (List.mem_singleton.mp hnewline) (by decide)
  · exact hfree.2 hc

/-- Joined lines are read back as they are. -/
theorem readlines_flatten (hlines : FileLines lines) : readlines lines.flatten = lines := by
  rw [readlines, universalNewlines_of_notMem hlines.return_notMem_flatten]
  induction hlines with
  | nil => rfl
  | @last line hne hfree =>
      rw [List.flatten_cons, List.flatten_nil, List.append_nil, keepLines_unbroken hne hfree.1]
  | @cons line lines hfree _ ih =>
      rw [List.flatten_cons, List.append_assoc, List.singleton_append, keepLines_line hfree.1, ih]

/-- Some lines may be replaced by a line with its newline. -/
theorem replace (hlines : FileLines lines) (replaces : Text → Prop) [DecidablePred replaces] {text : Text}
    (htext : Unbroken text) :
    FileLines (lines.map fun line => if replaces line then text ++ ['\n'] else line) := by
  induction hlines with
  | nil => exact .nil
  | last hne hfree =>
      rw [List.map_singleton]
      split
      · exact .cons htext .nil
      · exact .last hne hfree
  | cons hfree _ ih =>
      rw [List.map_cons]
      split
      · exact .cons htext ih
      · exact .cons hfree ih

/-- A line that is added is a line of its own, or goes to the end of the last line. -/
theorem concat (hlines : FileLines lines) {text : Text} (htext : Unbroken text) :
    ((∀ line ∈ lines, ['\n'] <:+ line) ∧ FileLines (lines ++ [text ++ ['\n']]))
      ∨ ∃ before last, lines = before ++ [last] ∧ last ≠ [] ∧ ¬ ['\n'] <:+ last
        ∧ FileLines (before ++ [last ++ text ++ ['\n']]) := by
  induction hlines with
  | nil => exact .inl ⟨nofun, .cons htext .nil⟩
  | @last line hne hfree =>
      have hjoined : Unbroken (line ++ text) := by
        rw [Unbroken, List.mem_append, List.mem_append, not_or, not_or]
        exact ⟨⟨hfree.1, htext.1⟩, hfree.2, htext.2⟩
      have hends : ¬ ['\n'] <:+ line := fun hsuffix => hfree.1 (hsuffix.subset List.mem_cons_self)
      exact .inr ⟨[], line, rfl, hne, hends, .cons hjoined .nil⟩
  | @cons line lines hfree _ ih =>
      rcases ih with ⟨hends, happended⟩ | ⟨before, last, rfl, hne, hlast, hjoined⟩
      · refine .inl ⟨List.forall_mem_cons.mpr ⟨List.suffix_append line ['\n'], hends⟩, .cons hfree happended⟩
      · exact .inr ⟨(line ++ ['\n']) :: before, last, rfl, hne, hlast, .cons hfree hjoined⟩

end FileLines

end Armore.Lib.Text
