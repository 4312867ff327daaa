import Armore.Lib.Text

/-!
# What stripping leaves

`strip` takes the spaces at both ends of a text away. A text with spaces around it is stripped to what the text
itself is stripped to, a text that begins and ends with other characters stays, and stripping reaches no further
than the last character that is no space.
-/

namespace Armore.Lib.Text

variable {space : Char → Bool}

theorem rdropWhile_append_cons {c : Char} (hc : space c = false) (left right : Text) :
    (left ++ c :: right).rdropWhile space = left ++ c :: right.rdropWhile space := by
  rw [List.rdropWhile, List.reverse_append, List.reverse_cons, List.append_assoc, List.dropWhile_append]
  split
  · rename_i hempty
    rw [List.isEmpty_iff] at hempty
    rw [List.singleton_append, List.dropWhile_cons_of_neg (by simp [hc]), List.rdropWhile, hempty]
    simp
  · rw [List.rdropWhile]
    simp

theorem rdropWhile_append_spaces (text : Text) {spaces : Text} (hspaces : ∀ c ∈ spaces, space c = true) :
    (text ++ spaces).rdropWhile space = text.rdropWhile space := by
  rw [List.rdropWhile, List.reverse_append, List.dropWhile_append_of_pos, List.rdropWhile]
  intro c hc
  exact hspaces c (List.mem_reverse.mp hc)

theorem strip_spaces_append {spaces : Text} (hspaces : ∀ c ∈ spaces, space c = true) (text : Text) :
    strip space (spaces ++ text) = strip space text := by
  rw [strip, List.dropWhile_append_of_pos hspaces, strip]

theorem strip_append_spaces (text : Text) {spaces : Text} (hspaces : ∀ c ∈ spaces, space c = true) :
    strip space (text ++ spaces) = strip space text := by
  rw [strip, strip, List.dropWhile_append]
  split
  · rename_i hempty
    rw [List.isEmpty_iff.mp hempty, List.dropWhile_eq_nil_iff.mpr hspaces]
  · exact rdropWhile_append_spaces _ hspaces

/-- A strip at the end comes first. -/
theorem strip_rdropWhile (text : Text) : strip space (text.rdropWhile space) = strip space text := by
  conv_rhs => rw [← List.rdropWhile_append_rtakeWhile (p := space) (l := text)]
  rw [strip_append_spaces]
  intro c hc
  exact List.mem_rtakeWhile_imp hc

theorem strip_eq_self_of_ends {first last : Char} (hfirst : space first = false) (hlast : space last = false)
    (text : Text) : strip space (first :: text ++ [last]) = first :: text ++ [last] := by
  rw [strip, List.cons_append, List.dropWhile_cons_of_neg (by simp [hfirst]), ← List.cons_append,
    List.rdropWhile_concat_neg _ _ _ (by simp [hlast])]

theorem strip_strip (text : Text) : strip space (strip space text) = strip space text := by
  calc strip space ((text.dropWhile space).rdropWhile space)
      = strip space (text.dropWhile space) := strip_rdropWhile _
    _ = strip space text := by rw [strip, List.dropWhile_idempotent, strip]

theorem strip_subset (text : Text) : strip space text ⊆ text := fun _ hc =>
  (List.dropWhile_suffix space).subset ((List.rdropWhile_prefix space _).subset hc)

end Armore.Lib.Text
