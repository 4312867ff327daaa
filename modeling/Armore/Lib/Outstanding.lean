import Mathlib.Data.List.Basic
import Mathlib.Data.List.Count
import Mathlib.Tactic.Common

/-!
# One outstanding request

A party asks for something and waits. While it waits it may go on making use of the fact that a
request is out, but it does not ask again; the request ends when it is settled. The protocol has one
bit of state, and a sequence of acts is legal when the bit never stands in its way. What follows for
every legal sequence is the counting law: between two settlements there is exactly one request, and a
stretch without a settlement holds at most one.
-/

namespace Armore.Lib.Outstanding

/-- What can happen to one request. -/
inductive Act
  | ask
  | use
  | settle
  deriving DecidableEq

/-- One act, from and to "a request is out". -/
def advance : Bool → Act → Option Bool
  | false, .ask => some true
  | true, .use => some true
  | true, .settle => some false
  | _, _ => none

/-- A sequence of acts, `none` when one of them is not allowed where it stands. -/
def play : Bool → List Act → Option Bool
  | out, [] => some out
  | out, act :: acts => (advance out act).bind fun out' => play out' acts

theorem play_append (acts acts' : List Act) (out : Bool) :
    play out (acts ++ acts') = (play out acts).bind fun out' => play out' acts' := by
  induction acts generalizing out with
  | nil => rfl
  | cons act acts ih =>
      simp only [List.cons_append, play]
      cases advance out act with
      | none => rfl
      | some out' => exact ih out'

/-- The state between two halves of a legal sequence. -/
theorem play_append_some {acts acts' : List Act} {out out' : Bool}
    (hplay : play out (acts ++ acts') = some out') :
    ∃ mid, play out acts = some mid ∧ play mid acts' = some out' := by
  rw [play_append] at hplay
  exact Option.bind_eq_some_iff.mp hplay

/-- While a request is out and nothing settles it, nobody asks. -/
theorem count_ask_of_out {acts : List Act} {out' : Bool} (hplay : play true acts = some out')
    (hopen : Act.settle ∉ acts) : acts.count .ask = 0 := by
  induction acts with
  | nil => rfl
  | cons act acts ih =>
      rw [List.mem_cons, not_or] at hopen
      cases act with
      | ask => simp [play, advance] at hplay
      | settle => exact absurd rfl hopen.1
      | use =>
          have hrest : play true acts = some out' := by simpa [play, advance] using hplay
          rw [List.count_cons_of_ne (by decide), ih hrest hopen.2]

/-- With no request out, the first act has to be the request, and it is the only one. -/
theorem count_ask_of_idle {acts : List Act} {out' : Bool} (hplay : play false acts = some out')
    (hopen : Act.settle ∉ acts) : acts.count .ask = if acts = [] then 0 else 1 := by
  cases acts with
  | nil => rfl
  | cons act acts =>
      rw [List.mem_cons, not_or] at hopen
      cases act with
      | use => simp [play, advance] at hplay
      | settle => exact absurd rfl hopen.1
      | ask =>
          have hrest : play true acts = some out' := by simpa [play, advance] using hplay
          rw [List.count_cons_self, count_ask_of_out hrest hopen.2]
          simp

/-- A stretch without a settlement holds at most one request. -/
theorem count_ask_le_one {acts : List Act} {out out' : Bool} (hplay : play out acts = some out')
    (hopen : Act.settle ∉ acts) : acts.count .ask ≤ 1 := by
  cases out with
  | true => rw [count_ask_of_out hplay hopen]; exact Nat.zero_le 1
  | false =>
      rw [count_ask_of_idle hplay hopen]
      split <;> omega

/-- A stretch that starts with nothing out and makes use of a request holds exactly one. -/
theorem count_ask_of_use {acts : List Act} {out' : Bool} (hplay : play false acts = some out')
    (hopen : Act.settle ∉ acts) (huse : Act.use ∈ acts) : acts.count .ask = 1 := by
  rw [count_ask_of_idle hplay hopen, if_neg (List.ne_nil_of_mem huse)]

/-- A settlement leaves nothing out. -/
theorem play_settle {acts : List Act} {out out' : Bool}
    (hplay : play out (.settle :: acts) = some out') : play false acts = some out' := by
  cases out with
  | false => simp [play, advance] at hplay
  | true => simpa [play, advance] using hplay

/-- **Between two settlements there is exactly one request.** -/
theorem count_ask_between {pre mid post : List Act} {out out' : Bool}
    (hplay : play out (pre ++ .settle :: (mid ++ .settle :: post)) = some out')
    (hopen : Act.settle ∉ mid) : mid.count .ask = 1 := by
  obtain ⟨_, _, hfirst⟩ := play_append_some hplay
  obtain ⟨out₂, hmid, hlast⟩ := play_append_some (play_settle hfirst)
  rw [count_ask_of_idle hmid hopen, if_neg]
  rintro rfl
  -- an empty stretch would settle a request that is not out
  obtain rfl : out₂ = false := by simpa [play] using hmid.symm
  simp [play, advance] at hlast

end Armore.Lib.Outstanding
