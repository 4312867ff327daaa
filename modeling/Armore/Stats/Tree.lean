import Armore.Lib.Text
import Armore.Lib.Trie
import Mathlib.Data.Rat.Defs

/-!
# The tree of counts

The records of `StatsCount`: below the root a level for the sender, the receiver, the protocol, the unit
id, the function and the target. A `double`, a `time` and an `interval` are rational numbers here. The tree
that is passed on at the end of an epoch has the nodes of `current_tree`, which are counted by then.
-/

namespace Armore

namespace StatsCount

structure CountInfo where
  num : Nat
  bytes : ℚ
  isRequest : Option Bool := none
  numRes : Option Nat := none
  avgDelay : Option ℚ := none
  tgt : Option (Lib.Table Lib.Text Lib.Text) := none

abbrev RootNode := Lib.Trie Lib.Text CountInfo 6

/-- What a node of a finished epoch holds: where responses have been counted, so have requests. -/
structure CountedInfo extends CountInfo where
  counted : numRes ≠ none → num ≠ 0 := by exact fun h => absurd rfl h

/-- A node at which no response has been counted. -/
def CountedInfo.unanswered (num : Nat) (bytes : ℚ) : CountedInfo := { num, bytes }

abbrev Level5Node := Lib.Trie Lib.Text CountedInfo 1
abbrev Level4Node := Lib.Trie Lib.Text CountedInfo 2
abbrev Level3Node := Lib.Trie Lib.Text CountedInfo 3
abbrev Level2Node := Lib.Trie Lib.Text CountedInfo 4
abbrev Level1Node := Lib.Trie Lib.Text CountedInfo 5

/-- The tree of a finished epoch. -/
abbrev CountedTree := Lib.Trie Lib.Text CountedInfo 6

structure CountStat where
  ts : ℚ
  period : ℚ
  tree : CountedTree

end StatsCount

end Armore
