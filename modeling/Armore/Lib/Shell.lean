import Armore.Lib.Text
import Mathlib.Data.List.Infix

/-!
# What a shell makes of text

A script reads the lines of a file, keeps those with a pattern, takes a pattern out of each and has the result for
the value of a variable; where the variable stands without quotes its value comes apart into words, and a word that
is the pattern of files gives way to their names. Patterns here are literal.
-/

namespace Armore.Lib.Shell

/-! ### Lines -/

/-- The lines of a text, without their newlines. -/
def lines (text : Text) : List Text :=
  match (text.splitOn '\n').getLast? with
  | some [] => (text.splitOn '\n').dropLast
  | _ => text.splitOn '\n'

theorem lines_flatten {ls : List Text} (hfree : ∀ line ∈ ls, '\n' ∉ line) :
    lines (ls.map (· ++ ['\n'])).flatten = ls := by
  have hsplit : ((ls.map (· ++ ['\n'])).flatten).splitOn '\n' = ls ++ [[]] := by
    induction ls with
    | nil => rfl
    | cons line ls ih =>
        rw [List.map_cons, List.flatten_cons, List.append_assoc, List.singleton_append,
          List.splitOn_append_cons_self_of_not_mem (hfree line List.mem_cons_self),
          ih fun other hother => hfree other (List.mem_cons_of_mem line hother), List.cons_append]
  rw [lines, hsplit, List.getLast?_concat, List.dropLast_concat]

def grep (pattern : Text) (ls : List Text) : List Text := ls.filter fun line => pattern <:+: line

/-- `sed 's/pattern//'` of a line: the first occurrence goes. -/
def delete (pattern : Text) : Text → Text
  | [] => []
  | c :: line => if pattern <+: c :: line then (c :: line).drop pattern.length else c :: delete pattern line

theorem delete_append {pattern : Text} (hpattern : pattern ≠ []) (line : Text) : delete pattern (pattern ++ line) = line := by
  obtain ⟨c, rest, rfl⟩ := List.exists_cons_of_ne_nil hpattern
  rw [List.cons_append, delete, ← List.cons_append, if_pos (List.prefix_append _ _), List.drop_left]

/-- `$(..)` of some lines: the newlines at the end go. -/
def substitution (ls : List Text) : Text := Text.rstrip '\n' (ls.map (· ++ ['\n'])).flatten

theorem substitution_singleton {line : Text} (hline : '\n' ∉ line) : substitution [line] = line := by
  rw [substitution, List.map_singleton, List.flatten_singleton, Text.rstrip_line hline]

/-! ### Words -/

/-- The characters of the default `IFS`. -/
def ifs (c : Char) : Bool := c = ' ' ∨ c = '\t' ∨ c = '\n'

/-- Field splitting leaves the text alone. -/
def Unsplit (text : Text) : Prop := ∀ c ∈ text, ifs c = false

instance (text : Text) : Decidable (Unsplit text) := List.decidableBAll _ text

/-- Field splitting of an expansion. -/
def fields (text : Text) : List Text := (text.splitOnP ifs).filter (· ≠ [])

theorem fields_append {c : Char} (hc : ifs c = true) (left right : Text) :
    fields (left ++ c :: right) = fields left ++ fields right := by
  rw [fields, List.splitOnP_append_cons _ _ hc, List.filter_append]
  rfl

theorem fields_eq_singleton {text : Text} (hne : text ≠ []) (hunsplit : Unsplit text) :
    fields text = [text] := by
  rw [fields, List.splitOnP_eq_singleton hunsplit]
  exact List.filter_cons_of_pos (decide_eq_true hne)

/-- Pathname expansion has nothing to match in the word. -/
def Literal (word : Text) : Prop := ∀ c ∈ word, c ∉ ['*', '?', '[']

instance (word : Text) : Decidable (Literal word) := List.decidableBAll _ word

/-- The directory in which words are expanded: the names that match a word as a pattern. -/
structure Directory where
  glob : Text → List Text
  glob_literal : ∀ word, Literal word → glob word = []

/-- Pathname expansion: a word that matches no name stays. -/
def Directory.expand (dir : Directory) (word : Text) : List Text := if dir.glob word = [] then [word] else dir.glob word

/-- The words of an expansion without quotes. -/
def Directory.words (dir : Directory) (text : Text) : List Text := (fields text).flatMap dir.expand

theorem Directory.words_append (dir : Directory) {c : Char} (hc : ifs c = true) (left right : Text) :
    dir.words (left ++ c :: right) = dir.words left ++ dir.words right := by
  rw [words, fields_append hc, List.flatMap_append]
  rfl

@[simp] theorem Directory.words_nil (dir : Directory) : dir.words [] = [] := rfl

theorem Directory.words_eq_singleton (dir : Directory) {text : Text} (hne : text ≠ [])
    (hunsplit : Unsplit text) (hglob : dir.glob text = []) : dir.words text = [text] := by
  rw [words, fields_eq_singleton hne hunsplit, List.flatMap_singleton, expand, if_pos hglob]

end Armore.Lib.Shell
