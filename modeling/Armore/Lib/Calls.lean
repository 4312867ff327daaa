import Mathlib.Data.List.Basic
import Mathlib.Logic.Relation
import Mathlib.Tactic.Common

/-!
# Programs that share a service

A program calls a service, goes on with its answer, and may find that a call raises instead. Many programs
run at once against one service: a call is one step, and between two calls of a program the others go on.
A call that raises may have been carried out all the same.

Two rules say what holds whatever the interleaving. What every call keeps holds at all times. And a program
that first asks whether something is there, and adds it when it is not, can add it twice: between the answer
and the addition another program may have done the same. How often it can then be there is the number of
programs that were in between at one time (`present_add_waiting_le`).
-/

namespace Armore.Lib.Calls

variable {σ C R α β : Type}

/-- A program that returns, or calls the service and goes on with the answer, which is `none` when the call
raises. -/
inductive Program (C R α : Type)
  | done (result : α)
  | call (request : C) (next : Option R → Program C R α)

namespace Program

def bind : Program C R α → (α → Program C R β) → Program C R β
  | .done result, rest => rest result
  | .call request next, rest => .call request fun reply => (next reply).bind rest

instance : Monad (Program C R) where
  pure := .done
  bind := bind

@[simp] theorem done_bind (result : α) (rest : α → Program C R β) : (done result >>= rest) = rest result := rfl

@[simp] theorem call_bind (request : C) (next : Option R → Program C R α) (rest : α → Program C R β) :
    (call request next >>= rest) = call request fun reply => next reply >>= rest := rfl

theorem bind_assoc {γ : Type} (p : Program C R α) (rest : α → Program C R β) (last : β → Program C R γ) :
    (p >>= rest) >>= last = p >>= fun result => rest result >>= last := by
  induction p with
  | done result => rfl
  | call c next ih =>
      simp only [call_bind]
      congr 1
      funext reply
      exact ih reply

/-- A program of one call. -/
def request (c : C) : Program C R (Option R) := .call c .done

@[simp] theorem request_bind (c : C) (rest : Option R → Program C R β) : (request c >>= rest) = call c rest := rfl

/-- The program without its result. -/
def ignore (p : Program C R α) : Program C R Unit := p >>= fun _ => .done ()

/-- All calls the program can come to are of a kind. -/
def Uses (kind : C → Prop) : Program C R α → Prop
  | .done _ => True
  | .call request next => kind request ∧ ∀ reply, (next reply).Uses kind

theorem Uses.bind {kind : C → Prop} {p : Program C R α} (hp : p.Uses kind) {rest : α → Program C R β}
    (hrest : ∀ result, (rest result).Uses kind) : (p >>= rest).Uses kind := by
  induction p with
  | done result => exact hrest result
  | call request next ih => exact ⟨hp.1, fun reply => ih reply (hp.2 reply)⟩

theorem Uses.imp {kind kind' : C → Prop} {p : Program C R α} (hp : p.Uses kind) (h : ∀ c, kind c → kind' c) :
    p.Uses kind' := by
  induction p with
  | done => trivial
  | call request next ih => exact ⟨h request hp.1, fun reply => ih reply (hp.2 reply)⟩

theorem Uses.request {kind : C → Prop} {c : C} (hc : kind c) : (request c : Program C R (Option R)).Uses kind :=
  ⟨hc, fun _ => trivial⟩

section

variable (exec : C → σ → R × σ)

/-- The program alone with the service, where no call raises: its result, and how it leaves the service. -/
def run : Program C R α → σ → α × σ
  | .done result, s => (result, s)
  | .call request next, s => (next (some (exec request s).1)).run (exec request s).2

@[simp] theorem run_done (result : α) (s : σ) : (done result : Program C R α).run exec s = (result, s) := rfl

@[simp] theorem run_call (request : C) (next : Option R → Program C R α) (s : σ) :
    (call request next).run exec s = (next (some (exec request s).1)).run exec (exec request s).2 := rfl

theorem run_bind (p : Program C R α) (rest : α → Program C R β) (s : σ) :
    (p >>= rest).run exec s = (rest (p.run exec s).1).run exec (p.run exec s).2 := by
  induction p generalizing s with
  | done result => rfl
  | call request next ih => exact ih (some (exec request s).1) (exec request s).2

end

end Program

open Program

/-! ### Many programs -/

section

variable (exec : C → σ → R × σ)

/-- The ways a call can end: with the answer, or raising, without an effect or with it. -/
inductive Ends (c : C) (s : σ) : Option R → σ → Prop
  | answered : Ends c s (some (exec c s).1) (exec c s).2
  | refused : Ends c s none s
  | lost : Ends c s none (exec c s).2

/-- The service, and what the programs that have started have left to do. -/
abbrev System (σ C R : Type) := σ × List (Program C R Unit)

/-- A program starts, or one of those that have started does its next call. -/
inductive Step (program : Program C R Unit → Prop) : System σ C R → System σ C R → Prop
  | start {s : σ} {running : List (Program C R Unit)} {p : Program C R Unit} (hp : program p) :
      Step program (s, running) (s, p :: running)
  | move {s s' : σ} {before after : List (Program C R Unit)} {c : C} {next : Option R → Program C R Unit}
      {reply : Option R} (hends : Ends exec c s reply s') :
      Step program (s, before ++ call c next :: after) (s', before ++ next reply :: after)

variable {exec} {program : Program C R Unit → Prop}

/-- A call of the program that has started last. -/
theorem Step.head (s : σ) (c : C) (next : Option R → Program C R Unit) (after : List (Program C R Unit)) :
    Step exec program (s, call c next :: after) ((exec c s).2, next (some (exec c s).1) :: after) := by
  have hmove : Step exec program (s, [] ++ call c next :: after)
      ((exec c s).2, [] ++ next (some (exec c s).1) :: after) := .move .answered
  exact hmove

/-- To run a program alone is one of the things that can happen. -/
theorem runs_alone {p : Program C R Unit} (hp : program p) (s : σ) (running : List (Program C R Unit)) :
    Relation.ReflTransGen (Step exec program) (s, running) ((p.run exec s).2, .done () :: running) := by
  refine .head (.start hp) ?_
  clear hp
  induction p generalizing s with
  | done => exact .refl
  | call c next ih => exact .head (.head s c next running) (ih (some (exec c s).1) (exec c s).2)

/-- What the calls of the programs keep holds at all times. -/
theorem invariant {inv : σ → Prop} {kind : C → Prop} (hprogram : ∀ p, program p → p.Uses kind)
    (hkind : ∀ c s, kind c → inv s → inv (exec c s).2) {init s : σ} {running : List (Program C R Unit)}
    (hinit : inv init) (hrun : Relation.ReflTransGen (Step exec program) (init, []) (s, running)) :
    inv s ∧ ∀ p ∈ running, p.Uses kind := by
  suffices ∀ state : System σ C R, Relation.ReflTransGen (Step exec program) (init, []) state →
      inv state.1 ∧ ∀ p ∈ state.2, p.Uses kind from this _ hrun
  intro state hstate
  induction hstate with
  | refl => exact ⟨hinit, fun p hp => absurd hp List.not_mem_nil⟩
  | tail _ hstep ih =>
      obtain ⟨hinv, huses⟩ := ih
      cases hstep with
      | start hp =>
          refine ⟨hinv, fun q hq => ?_⟩
          rcases List.mem_cons.mp hq with rfl | hq
          · exact hprogram _ hp
          · exact huses q hq
      | @move s s' before after c next reply hends =>
          have hcall : (call c next).Uses kind := huses _ (by simp)
          refine ⟨?_, fun q hq => ?_⟩
          · cases hends with
            | answered => exact hkind c s hcall.1 hinv
            | refused => exact hinv
            | lost => exact hkind c s hcall.1 hinv
          · rcases List.mem_append.mp hq with hq | hq
            · exact huses q (List.mem_append_left _ hq)
            · rcases List.mem_cons.mp hq with rfl | hq
              · exact hcall.2 reply
              · exact huses q (List.mem_append_right _ (List.mem_cons_of_mem _ hq))

end

/-! ### Asking before adding -/

section

variable (adds : C → Prop) (absent : C → R → Prop)

/-- The next call of the program is an addition. -/
def Waiting : Program C R α → Prop
  | .done _ => False
  | .call c _ => adds c

instance [DecidablePred adds] : DecidablePred (Waiting (R := R) (α := α) adds)
  | .done _ => inferInstanceAs (Decidable False)
  | .call c _ => inferInstanceAs (Decidable (adds c))

/-- The number of programs that are about to add. -/
def waiting [DecidablePred adds] (running : List (Program C R α)) : Nat :=
  running.countP fun p => decide (Waiting adds p)

/-- After its first call, the program adds only right after an answer that there is nothing. -/
def Asks : Program C R α → Prop
  | .done _ => True
  | .call c next => ∀ reply, (Waiting adds (next reply) → ∃ r, reply = some r ∧ absent c r) ∧ Asks (next reply)

/-- The program never adds without having asked. -/
structure Careful (p : Program C R α) : Prop where
  first : ¬ Waiting adds p
  asks : Asks adds absent p

variable {adds absent}

theorem not_waiting_bind {p : Program C R α} (hp : ¬ Waiting adds p) {rest : α → Program C R β}
    (hrest : ∀ result, ¬ Waiting adds (rest result)) : ¬ Waiting adds (p >>= rest) := by
  cases p with
  | done result => exact hrest result
  | call c next => exact hp

theorem Asks.bind {p : Program C R α} (hp : Asks adds absent p) {rest : α → Program C R β}
    (hrest : ∀ result, Careful adds absent (rest result)) : Asks adds absent (p >>= rest) := by
  induction p with
  | done result => exact (hrest result).asks
  | call c next ih =>
      intro reply
      refine ⟨fun hwaiting => (hp reply).1 ?_, ih reply (hp reply).2⟩
      by_contra hnext
      exact not_waiting_bind hnext (fun result => (hrest result).first) hwaiting

theorem Careful.bind {p : Program C R α} (hp : Careful adds absent p) {rest : α → Program C R β}
    (hrest : ∀ result, Careful adds absent (rest result)) : Careful adds absent (p >>= rest) :=
  ⟨not_waiting_bind hp.first fun result => (hrest result).first, hp.asks.bind hrest⟩

theorem Careful.done (result : α) : Careful adds absent (done result : Program C R α) := ⟨fun h => h, trivial⟩

theorem Careful.ignore {p : Program C R α} (hp : Careful adds absent p) : Careful adds absent p.ignore :=
  hp.bind fun _ => .done ()

/-- A program that never adds is careful. -/
theorem careful_of_uses {p : Program C R α} (hp : p.Uses fun c => ¬ adds c) : Careful adds absent p := by
  have hfirst : ∀ {q : Program C R α}, (q.Uses fun c => ¬ adds c) → ¬ Waiting adds q := by
    intro q hq
    cases q with
    | done => exact fun h => h
    | call => exact hq.1
  refine ⟨hfirst hp, ?_⟩
  induction p with
  | done => trivial
  | call c next ih =>
      intro reply
      exact ⟨fun hwaiting => absurd hwaiting (hfirst (hp.2 reply)), ih reply (hp.2 reply)⟩

/-- What the calls do to the number of the things there: an addition adds at most one, no other call adds
any, and an answer that there is nothing is true and comes from no addition. -/
structure Counted (exec : C → σ → R × σ) (adds : C → Prop) (absent : C → R → Prop) (present : σ → Nat) : Prop where
  add : ∀ c s, adds c → present (exec c s).2 ≤ present s + 1
  keep : ∀ c s, ¬ adds c → present (exec c s).2 ≤ present s
  ask : ∀ c s, absent c (exec c s).1 → present s = 0 ∧ ¬ adds c

variable {exec : C → σ → R × σ} {present : σ → Nat} [DecidablePred adds]

theorem waiting_cons (p : Program C R α) (running : List (Program C R α)) :
    waiting adds (p :: running) = waiting adds running + if Waiting adds p then 1 else 0 := by
  rw [waiting, List.countP_cons, waiting]
  simp only [decide_eq_true_eq]

theorem waiting_move (before after : List (Program C R α)) (p : Program C R α) :
    waiting adds (before ++ p :: after)
      = waiting adds before + waiting adds after + if Waiting adds p then 1 else 0 := by
  rw [waiting, List.countP_append, ← waiting, ← waiting, waiting_cons, Nat.add_assoc]

/-- A call of a program that asks first keeps the bound, if no more than so many programs are waiting after it. -/
theorem Counted.move (hcounted : Counted exec adds absent present) {n : Nat} {s s' : σ}
    {before after : List (Program C R α)} {c : C} {next : Option R → Program C R α} {reply : Option R}
    (hends : Ends exec c s reply s') (hasks : Asks adds absent (call c next))
    (hbound : present s + waiting adds (before ++ call c next :: after) ≤ n)
    (hwaiting : waiting adds (before ++ next reply :: after) ≤ n) :
    present s' + waiting adds (before ++ next reply :: after) ≤ n := by
  rw [waiting_move] at hbound
  by_cases hnext : Waiting adds (next reply)
  · -- it has just been told that there is nothing
    obtain ⟨r, rfl, habsent⟩ := (hasks reply).1 hnext
    cases hends with
    | answered =>
        obtain ⟨hzero, hask⟩ := hcounted.ask c s habsent
        have hkeep := hcounted.keep c s hask
        omega
  · rw [waiting_move, if_neg hnext]
    by_cases hadds : adds c
    · have hcall : Waiting adds (call c next) := hadds
      rw [if_pos hcall] at hbound
      have hadd := hcounted.add c s hadds
      cases hends <;> omega
    · have hkeep := hcounted.keep c s hadds
      have hafter : present s' ≤ present s := by
        cases hends with
        | answered => exact hkeep
        | refused => exact Nat.le_refl _
        | lost => exact hkeep
      omega

/-- If never more than `n` programs are at once between their question and their addition, there are never
more than `n` of the thing. -/
theorem present_add_waiting_le (hcounted : Counted exec adds absent present) {program : Program C R Unit → Prop}
    (hprogram : ∀ p, program p → Careful adds absent p) {n : Nat} {init s : σ}
    {running : List (Program C R Unit)} (hinit : present init = 0)
    (hrun : Relation.ReflTransGen (fun a b => Step exec program a b ∧ waiting adds b.2 ≤ n) (init, [])
      (s, running)) : present s + waiting adds running ≤ n := by
  suffices ∀ state : System σ C R,
      Relation.ReflTransGen (fun a b => Step exec program a b ∧ waiting adds b.2 ≤ n) (init, []) state →
      present state.1 + waiting adds state.2 ≤ n ∧ ∀ p ∈ state.2, Asks adds absent p from (this _ hrun).1
  intro state hstate
  induction hstate with
  | refl => exact ⟨by simp [hinit, waiting], fun p hp => absurd hp List.not_mem_nil⟩
  | tail _ hlast ih =>
      obtain ⟨hstep, hwaiting⟩ := hlast
      obtain ⟨hbound, hasks⟩ := ih
      cases hstep with
      | @start s running p hp =>
          have hcareful := hprogram p hp
          refine ⟨?_, fun q hq => ?_⟩
          · rw [waiting_cons, if_neg hcareful.first]
            exact hbound
          · rcases List.mem_cons.mp hq with rfl | hq
            · exact hcareful.asks
            · exact hasks q hq
      | @move s s' before after c next reply hends =>
          have hcall : Asks adds absent (call c next) := hasks _ (by simp)
          refine ⟨hcounted.move hends hcall hbound hwaiting, fun q hq => ?_⟩
          rcases List.mem_append.mp hq with hq | hq
          · exact hasks q (List.mem_append_left _ hq)
          · rcases List.mem_cons.mp hq with rfl | hq
            · exact (hcall reply).2
            · exact hasks q (List.mem_append_right _ (List.mem_cons_of_mem _ hq))

/-- The next call of a program with its answer. -/
def advance (exec : C → σ → R × σ) : Program C R Unit → σ → Program C R Unit × σ
  | .done result, s => (.done result, s)
  | .call c next, s => (next (some (exec c s).1), (exec c s).2)

/-- A program does its next call, if it has one, within the bound. -/
theorem runs_advance {program : Program C R Unit → Prop} {n : Nat} {init : System σ C R} {s : σ}
    {before after : List (Program C R Unit)} (p : Program C R Unit)
    (hrun : Relation.ReflTransGen (fun a b => Step exec program a b ∧ waiting adds b.2 ≤ n) init
      (s, before ++ p :: after))
    (hwaiting : waiting adds (before ++ (advance exec p s).1 :: after) ≤ n) :
    Relation.ReflTransGen (fun a b => Step exec program a b ∧ waiting adds b.2 ≤ n) init
      ((advance exec p s).2, before ++ (advance exec p s).1 :: after) := by
  cases p with
  | done => exact hrun
  | call c next => exact hrun.tail ⟨.move .answered, hwaiting⟩

end

end Armore.Lib.Calls
