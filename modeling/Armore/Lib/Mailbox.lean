import Mathlib.Data.List.Basic
import Mathlib.Tactic.Common

/-!
# A mailbox announced by an event counter

Producers push onto a list and write to an event counter, a consumer takes the whole list and reads the
counter. The counter is the one of an event descriptor: a write adds, a read returns the value and resets
it, and a read at zero blocks. A consumer that finds the list empty leaves the counter alone. When the
two change together and in no other way the counter is the length of the list, and what follows is what
the pair is for: the read never blocks, and the descriptor is readable exactly while something waits.
-/

namespace Armore.Lib

variable {α : Type*}

/-- Reading an event counter: its value, and zero left behind; `none` where the read blocks. -/
def eventRead (counter : Nat) : Option (Nat × Nat) :=
  if counter = 0 then none else some (counter, 0)

/-- What waits, and the event counter. -/
structure Mailbox (α : Type*) where
  waiting : List α
  counter : Nat

namespace Mailbox

/-- Nothing waits and nothing is announced. -/
def empty : Mailbox α := ⟨[], 0⟩

/-- Push and announce. -/
def put (m : Mailbox α) (a : α) : Mailbox α := ⟨m.waiting ++ [a], m.counter + 1⟩

/-- Announce without pushing. -/
def announce (m : Mailbox α) : Mailbox α := { m with counter := m.counter + 1 }

/-- Take the list, and read the counter if the list is not empty; `none` where that read blocks. -/
def swap (m : Mailbox α) : Option (List α × Mailbox α) :=
  if m.waiting.length > 0 then
    (eventRead m.counter).map fun (_, counter) => (m.waiting, ⟨[], counter⟩)
  else some (m.waiting, ⟨[], m.counter⟩)

/-- Polling the descriptor reports it readable. -/
def Readable (m : Mailbox α) : Prop := m.counter ≠ 0

/-- The counter is the number of what waits. -/
def Balanced (m : Mailbox α) : Prop := m.counter = m.waiting.length

theorem balanced_empty : (empty : Mailbox α).Balanced := rfl

theorem Balanced.put {m : Mailbox α} (hm : m.Balanced) (a : α) : (m.put a).Balanced := by
  show m.counter + 1 = (m.waiting ++ [a]).length
  rw [hm, List.length_append, List.length_singleton]

/-- With a balanced mailbox the swap goes through, whatever waits. -/
theorem Balanced.swap {m : Mailbox α} (hm : m.Balanced) : m.swap = some (m.waiting, empty) := by
  have hcounter : m.counter = m.waiting.length := hm
  unfold Mailbox.swap eventRead
  split
  next hwaiting =>
    rw [if_neg (by omega)]
    rfl
  next hwaiting =>
    have hzero : m.counter = 0 := by omega
    rw [hzero]
    rfl

/-- A swap takes all that waits. -/
theorem swap_waiting {m m' : Mailbox α} {taken : List α} (hswap : m.swap = some (taken, m')) :
    m'.waiting = [] ∧ taken = m.waiting := by
  unfold swap at hswap
  split at hswap
  · obtain ⟨_, _, heq⟩ := Option.map_eq_some_iff.mp hswap
    cases heq
    exact ⟨rfl, rfl⟩
  · cases hswap
    exact ⟨rfl, rfl⟩

theorem Balanced.readable_iff {m : Mailbox α} (hm : m.Balanced) :
    m.Readable ↔ m.waiting ≠ [] := by
  have hcounter : m.counter = m.waiting.length := hm
  rw [Readable, hcounter, Ne, List.length_eq_zero_iff]

end Mailbox

end Armore.Lib
