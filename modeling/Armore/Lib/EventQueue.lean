import Mathlib.Data.List.Basic
import Mathlib.Tactic.Common

/-!
# A first-in first-out event engine

Dispatching an event changes the state and queues further events, behind all that wait. An engine works
its queue off until nothing waits. What a handler queues is thus dispatched only when the events that
waited before it are done: `drain_append` says so for any stretch of the queue, and when the second
generation queues nothing more the queue is worked off in two rounds. When every event queues only events of
a smaller depth the queue is worked off after some number of rounds.
-/

namespace Armore.Lib

variable {σ ε : Type*} (dispatch : σ → ε → σ × List ε)

/-- Dispatch the first event of the queue until the queue is empty; `none` when the fuel does not last. -/
def drain : Nat → σ → List ε → Option σ
  | _, s, [] => some s
  | 0, _, _ :: _ => none
  | fuel + 1, s, e :: queue => drain fuel (dispatch s e).1 (queue ++ (dispatch s e).2)

/-- The events one after the other: the state they leave and all that they queue. -/
def dispatchAll : σ → List ε → σ × List ε
  | s, [] => (s, [])
  | s, e :: events =>
    ((dispatchAll (dispatch s e).1 events).1, (dispatch s e).2 ++ (dispatchAll (dispatch s e).1 events).2)

theorem dispatchAll_cons (s : σ) (e : ε) (events : List ε) :
    dispatchAll dispatch s (e :: events) =
      ((dispatchAll dispatch (dispatch s e).1 events).1,
        (dispatch s e).2 ++ (dispatchAll dispatch (dispatch s e).1 events).2) := rfl

variable {dispatch}

/-- The events at the head of the queue are dispatched before anything they queue. -/
theorem drain_append (fuel : Nat) (s : σ) (events queue : List ε) :
    drain dispatch (events.length + fuel) s (events ++ queue) =
      drain dispatch fuel (dispatchAll dispatch s events).1 (queue ++ (dispatchAll dispatch s events).2) := by
  induction events generalizing s queue with
  | nil =>
      rw [List.length_nil, Nat.zero_add]
      show _ = drain dispatch fuel s (queue ++ [])
      rw [List.append_nil]
      rfl
  | cons e events ih =>
      rw [List.length_cons, Nat.add_right_comm]
      show drain dispatch (events.length + fuel) (dispatch s e).1 ((events ++ queue) ++ (dispatch s e).2) = _
      rw [List.append_assoc, ih, List.append_assoc]
      rfl

/-- More fuel does not change the end. -/
theorem drain_mono {fuel fuel' : Nat} {s s' : σ} {queue : List ε} (hdrain : drain dispatch fuel s queue = some s')
    (hle : fuel ≤ fuel') : drain dispatch fuel' s queue = some s' := by
  induction fuel generalizing fuel' s queue with
  | zero =>
      cases queue with
      | nil =>
          cases fuel' <;> exact hdrain
      | cons e queue => cases hdrain
  | succ fuel ih =>
      cases queue with
      | nil =>
          cases fuel' <;> exact hdrain
      | cons e queue =>
          obtain ⟨fuel', rfl⟩ : ∃ n, fuel' = n + 1 := ⟨fuel' - 1, by omega⟩
          show drain dispatch fuel' (dispatch s e).1 (queue ++ (dispatch s e).2) = some s'
          exact ih hdrain (by omega)

theorem drain_unique {fuel fuel' : Nat} {s s₁ s₂ : σ} {queue : List ε}
    (hfirst : drain dispatch fuel s queue = some s₁) (hsecond : drain dispatch fuel' s queue = some s₂) :
    s₁ = s₂ := by
  have hmax := drain_mono hfirst (Nat.le_max_left fuel fuel')
  rw [drain_mono hsecond (Nat.le_max_right fuel fuel')] at hmax
  exact (Option.some.inj hmax).symm

/-- Events of which none queues anything queue nothing together. -/
theorem dispatchAll_quiet {events : List ε} (hquiet : ∀ e ∈ events, ∀ s, (dispatch s e).2 = []) (s : σ) :
    (dispatchAll dispatch s events).2 = [] := by
  induction events generalizing s with
  | nil => rfl
  | cons e events ih =>
      show (dispatch s e).2 ++ _ = []
      rw [hquiet e List.mem_cons_self, ih fun e' he' => hquiet e' (List.mem_cons_of_mem _ he')]
      rfl

/-- **Two rounds.** When what the events queue queues nothing more, the queue is worked off: the events one
after the other, and then what they queued. -/
theorem drain_two_rounds {s : σ} {events : List ε}
    (hquiet : ∀ e ∈ (dispatchAll dispatch s events).2, ∀ s', (dispatch s' e).2 = []) :
    drain dispatch (events.length + (dispatchAll dispatch s events).2.length) s events =
      some (dispatchAll dispatch (dispatchAll dispatch s events).1 (dispatchAll dispatch s events).2).1 := by
  obtain ⟨s', queued, hevents⟩ : ∃ s' queued, dispatchAll dispatch s events = (s', queued) := ⟨_, _, rfl⟩
  rw [hevents] at hquiet ⊢
  calc drain dispatch (events.length + queued.length) s events
      = drain dispatch (events.length + queued.length) s (events ++ []) := by rw [List.append_nil]
    _ = drain dispatch queued.length s' queued := by rw [drain_append, hevents, List.nil_append]
    _ = drain dispatch (queued.length + 0) s' (queued ++ []) := by rw [List.append_nil, Nat.add_zero]
    _ = drain dispatch 0 (dispatchAll dispatch s' queued).1 [] := by
        rw [drain_append, dispatchAll_quiet hquiet, List.append_nil]
    _ = some (dispatchAll dispatch s' queued).1 := rfl

/-- What a round queues is queued by one of its events. -/
theorem depth_dispatchAll {depth : ε → Nat}
    (hless : ∀ s e, ∀ e' ∈ (dispatch s e).2, depth e' < depth e) {s : σ} {events : List ε} {e' : ε}
    (he' : e' ∈ (dispatchAll dispatch s events).2) : ∃ e ∈ events, depth e' < depth e := by
  induction events generalizing s with
  | nil => cases he'
  | cons e events ih =>
      rw [dispatchAll_cons, List.mem_append] at he'
      rcases he' with hfirst | hrest
      · exact ⟨e, List.mem_cons_self, hless s e e' hfirst⟩
      · obtain ⟨e₀, he₀, hlt⟩ := ih hrest
        exact ⟨e₀, List.mem_cons_of_mem _ he₀, hlt⟩

theorem exists_depth_lt (depth : ε → Nat) (queue : List ε) : ∃ bound, ∀ e ∈ queue, depth e < bound := by
  induction queue with
  | nil => exact ⟨0, fun e he => absurd he List.not_mem_nil⟩
  | cons first rest ih =>
      obtain ⟨bound, hbound⟩ := ih
      refine ⟨max bound (depth first + 1), ?_⟩
      intro e he
      rcases List.mem_cons.mp he with rfl | hrest
      · omega
      · have := hbound e hrest
        omega

/-- **Draining ends.** When every event queues only events of a smaller depth, some fuel lasts. -/
theorem exists_drain {depth : ε → Nat}
    (hless : ∀ s e, ∀ e' ∈ (dispatch s e).2, depth e' < depth e) (s : σ) (queue : List ε) :
    ∃ fuel s', drain dispatch fuel s queue = some s' := by
  obtain ⟨bound, hbound⟩ := exists_depth_lt depth queue
  induction bound generalizing s queue with
  | zero =>
      cases queue with
      | nil => exact ⟨0, s, rfl⟩
      | cons e queue => exact absurd (hbound e List.mem_cons_self) (Nat.not_lt_zero _)
  | succ bound ih =>
      -- One round leaves a queue whose events are one less deep.
      have hround : ∀ e' ∈ (dispatchAll dispatch s queue).2, depth e' < bound := by
        intro e' he'
        obtain ⟨e, he, hlt⟩ := depth_dispatchAll hless he'
        have := hbound e he
        omega
      obtain ⟨fuel, s', hdrain⟩ := ih (dispatchAll dispatch s queue).1 (dispatchAll dispatch s queue).2 hround
      refine ⟨queue.length + fuel, s', ?_⟩
      have hround : drain dispatch (queue.length + fuel) s (queue ++ [])
          = drain dispatch fuel (dispatchAll dispatch s queue).1 ([] ++ (dispatchAll dispatch s queue).2) :=
        drain_append fuel s queue []
      rw [List.append_nil, List.nil_append] at hround
      rw [hround, hdrain]

end Armore.Lib
