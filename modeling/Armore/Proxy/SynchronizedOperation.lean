import Armore.Lib.Latest
import Armore.Lib.Pool
import Armore.Lib.Run
import Mathlib.Data.Bool.Basic

/-!
# The synchronized operation

`SynchronizedOperation` keeps one word, `m_state`, and every method that runs the action goes through
compare-and-swap on it. A thread is at one place of these methods and each of its atomic steps takes it
to the next; between two steps any other thread may move. A call that the action itself makes counts as a
thread of its own.

The word is not `NotRunning` exactly while one thread is in `ExecuteAction` or on the way to it, and that
thread is the only one. What `Run` asks for is followed from the call on: until its second
compare-and-swap the call is undecided, afterwards an execution has started since, or one is owed.
-/

namespace Armore.Proxy.SynchronizedOperation

inductive RunState
  | notRunning
  | running
  | pending
  deriving DecidableEq

/-- What `__sync_val_compare_and_swap` leaves in the word; it returns what the word was. -/
def compareAndSwap (mState expected desired : RunState) : RunState :=
  if mState = expected then desired else mState

inductive Attempt
  | tryRun
  | tryRunOnce
  | tryRunOnceAsync
  deriving DecidableEq

/-- What a caller of `ExecuteAction` does when it returns `true`: the loops of `TryRun` and of
`AsyncThreadProc` call it again, `TryRunOnce` calls `ExecuteActionAsync`. -/
inductive Caller
  | loop
  | once
  deriving DecidableEq

/-- Where a thread stands: in none of the methods, before the compare-and-swap of `Run` and its
siblings or before that of `TryRun` and its siblings, in `ExecuteAction` before the action, in it, after
it or before the word is set back to `Running`, or in `ExecuteActionAsync`. -/
inductive Place
  | outside
  | requesting (attempt : Attempt)
  | trying (attempt : Attempt)
  | starting (caller : Caller)
  | acting (caller : Caller)
  | acted (caller : Caller)
  | consuming (caller : Caller)
  | spawning
  deriving DecidableEq

inductive Method
  | run
  | tryRun
  | runOnce
  | tryRunOnce
  | runOnceAsync
  | tryRunOnceAsync
  deriving DecidableEq

/-- The place a call of the method starts at. -/
def Method.entry : Method → Place
  | .run => .requesting .tryRun
  | .tryRun => .trying .tryRun
  | .runOnce => .requesting .tryRunOnce
  | .tryRunOnce => .trying .tryRunOnce
  | .runOnceAsync => .requesting .tryRunOnceAsync
  | .tryRunOnceAsync => .trying .tryRunOnceAsync

/-- The methods that mark the operation as pending when it is running. -/
def Method.requests : Method → Bool
  | .run | .runOnce | .runOnceAsync => true
  | .tryRun | .tryRunOnce | .tryRunOnceAsync => false

/-- What follows the compare-and-swap that set the word to `Running`. -/
def Attempt.begin : Attempt → Place
  | .tryRun => .starting .loop
  | .tryRunOnce => .starting .once
  | .tryRunOnceAsync => .spawning

/-- What follows an `ExecuteAction` that returned `true`. -/
def Caller.again : Caller → Place
  | .loop => .starting .loop
  | .once => .spawning

/-- The next step of a thread: the word and the place after it. -/
def advance (mState : RunState) : Place → RunState × Place
  | .outside => (mState, .outside)
  | .requesting attempt =>
      (compareAndSwap mState .running .pending,
        if mState = .notRunning then .trying attempt else .outside)
  | .trying attempt =>
      (compareAndSwap mState .notRunning .running,
        if mState = .notRunning then attempt.begin else .outside)
  | .starting caller => (mState, .acting caller)
  | .acting caller => (mState, .acted caller)
  | .acted caller =>
      (compareAndSwap mState .running .notRunning,
        if mState = .pending then .consuming caller else .outside)
  | .consuming caller => (.running, caller.again)
  | .spawning => (mState, .outside)

/-- The thread that `ExecuteActionAsync` creates starts in the loop of `AsyncThreadProc`. -/
def created : Place → List Place
  | .spawning => [.starting .loop]
  | _ => []

structure Operation where
  mState : RunState
  threads : List Place

/-- The constructor, with the threads that will call. -/
def construct (threads : Nat) : Operation where
  mState := .notRunning
  threads := List.replicate threads .outside

inductive Act
  | call (thread : Nat) (method : Method)
  | advance (thread : Nat) (place : Place)

inductive Step : Operation → Act → Operation → Prop
  | call {s : Operation} {thread : Nat} {method : Method} : s.threads[thread]? = some .outside →
      Step s (.call thread method) { s with threads := s.threads.set thread method.entry }
  | advance {s : Operation} {thread : Nat} {place : Place} : s.threads[thread]? = some place →
      place ≠ .outside →
      Step s (.advance thread place)
        { mState := (advance s.mState place).1
          threads := s.threads.set thread (advance s.mState place).2 ++ created place }

abbrev Runs (threads : Nat) : List Act → Operation → Prop :=
  Lib.Run Step (construct threads)

/-- In `ExecuteAction`, or on the way to it. -/
def Place.owns : Place → Bool
  | .starting _ | .acting _ | .acted _ | .consuming _ | .spawning => true
  | .outside | .requesting _ | .trying _ => false

/-- On the way to an execution that has not started. -/
def Place.unstarted : Place → Bool
  | .starting _ | .spawning => true
  | .outside | .requesting _ | .trying _ | .acting _ | .acted _ | .consuming _ => false

/-- `Running` with an action that has not started, or `Pending`. -/
def Operation.Owed (s : Operation) : Prop :=
  s.mState = .pending ∨
    s.mState = .running ∧ ∃ (i : Nat) (place : Place), s.threads[i]? = some place ∧ place.unstarted = true

/-- An execution of the action has started after the step at position `k`. -/
def Served (acts : List Act) (k : Nat) : Prop :=
  ∃ k', k < k' ∧ ∃ thread caller, acts[k']? = some (.advance thread (.starting caller))

def Act.CallOf (thread : Nat) (act : Act) : Prop := ∃ method, act = .call thread method

/-- The call at position `k` is the one its thread is in, before a compare-and-swap that will find
`NotRunning` unless another thread moves. -/
def Undecided (acts : List Act) (s : Operation) (k thread : Nat) : Prop :=
  Lib.Latest (Act.CallOf thread) acts k ∧ ∃ attempt : Attempt,
    s.threads[thread]? = some (.requesting attempt) ∨
    s.threads[thread]? = some (.trying attempt) ∧ s.mState = .notRunning

/-! ## One owner -/

def RunState.owners : RunState → Nat
  | .notRunning => 0
  | .running | .pending => 1

def Place.weight (place : Place) : Nat := place.owns.toNat

def Operation.weight (s : Operation) : Nat := (s.threads.map Place.weight).sum

/-- The word counts the owners, and it is `Pending` while its owner is about to set it back. -/
structure Owned (s : Operation) : Prop where
  weight : s.weight = s.mState.owners
  pending : ∀ (i : Nat) (caller : Caller), s.threads[i]? = some (.consuming caller) → s.mState = .pending

theorem Attempt.begin_weight (attempt : Attempt) : attempt.begin.weight = 1 := by
  cases attempt <;> rfl

theorem Caller.again_weight (caller : Caller) : caller.again.weight = 1 := by
  cases caller <;> rfl

theorem Method.entry_weight (method : Method) : method.entry.weight = 0 := by
  cases method <;> rfl

/-- A step changes the weight of its thread, and of the one it creates, as it changes the word. -/
theorem advance_weight {mState : RunState} {place : Place}
    (howns : place.weight ≤ mState.owners) :
    (advance mState place).2.weight + ((created place).map Place.weight).sum + mState.owners
      = place.weight + (advance mState place).1.owners := by
  cases place with
  | outside => rfl
  | requesting attempt => cases mState <;> rfl
  | trying attempt =>
      cases mState with
      | notRunning =>
          have hbegin := attempt.begin_weight
          simp only [advance, if_true, hbegin]
          rfl
      | running => rfl
      | pending => rfl
  | starting caller => rfl
  | acting caller => rfl
  | acted caller =>
      cases mState with
      | notRunning => exact absurd howns (Nat.not_succ_le_zero 0)
      | running => rfl
      | pending => rfl
  | consuming caller =>
      have hagain := caller.again_weight
      cases mState with
      | notRunning => exact absurd howns (Nat.not_succ_le_zero 0)
      | running => simp only [advance, hagain]; rfl
      | pending => simp only [advance, hagain]; rfl
  | spawning => rfl

/-- While the word is `Pending` it changes at one place only. -/
theorem advance_pending {place : Place} (hplace : ∀ caller, place ≠ .consuming caller) :
    (advance .pending place).1 = .pending := by
  cases place with
  | consuming caller => exact absurd rfl (hplace caller)
  | outside | requesting | trying | starting | acting | acted | spawning => rfl

/-- A thread comes to set the word back by finding it `Pending`. -/
theorem advance_eq_consuming {mState : RunState} {place : Place} {caller : Caller}
    (hnext : (advance mState place).2 = .consuming caller) : (advance mState place).1 = .pending := by
  cases place with
  | acted caller' =>
      cases mState with
      | pending => rfl
      | notRunning | running => cases hnext
  | trying attempt =>
      cases mState with
      | notRunning => cases attempt <;> cases hnext
      | running | pending => cases hnext
  | requesting attempt => cases mState <;> cases hnext
  | consuming caller' => cases caller' <;> cases hnext
  | outside | starting | acting | spawning => cases hnext

theorem weight_le_owners {s : Operation} (howned : Owned s) {thread : Nat} {place : Place}
    (hplace : s.threads[thread]? = some place) : place.weight ≤ s.mState.owners :=
  howned.weight ▸ Lib.Pool.weight_le_sum Place.weight hplace

theorem Place.weight_of_owns {place : Place} (howns : place.owns = true) : place.weight = 1 := by
  rw [Place.weight, howns]
  rfl

theorem owns_unique {s : Operation} (howned : Owned s) {i j : Nat} {place place' : Place}
    (hi : s.threads[i]? = some place) (hj : s.threads[j]? = some place') (howns : place.owns = true)
    (howns' : place'.owns = true) : i = j := by
  by_contra hne
  have hsum : place.weight + place'.weight ≤ s.weight := Lib.Pool.add_weight_le_sum _ hne hi hj
  rw [howned.weight, Place.weight_of_owns howns, Place.weight_of_owns howns'] at hsum
  have hbound : s.mState.owners ≤ 1 := by cases s.mState <;> decide
  omega

theorem owns_iff {s : Operation} (howned : Owned s) :
    s.mState ≠ .notRunning ↔
      ∃ (i : Nat) (place : Place), s.threads[i]? = some place ∧ place.owns = true := by
  constructor
  · intro hstate
    have hsum : s.weight ≠ 0 := by
      rw [howned.weight]
      cases hword : s.mState with
      | notRunning => exact absurd hword hstate
      | running | pending => decide
    obtain ⟨i, place, hi, hpos⟩ := Lib.Pool.exists_weight_pos _ hsum
    refine ⟨i, place, hi, ?_⟩
    cases howns : place.owns with
    | true => rfl
    | false =>
        rw [Place.weight, howns] at hpos
        cases hpos
  · rintro ⟨i, place, hi, howns⟩ hstate
    have hle := weight_le_owners howned hi
    rw [Place.weight_of_owns howns, hstate] at hle
    exact absurd hle (by decide)

theorem owned_construct (threads : Nat) : Owned (construct threads) := by
  constructor
  · rw [Operation.weight, construct, List.map_replicate]
    exact List.sum_replicate_nat.trans (Nat.mul_zero threads)
  · intro i caller hi
    rw [construct, List.getElem?_replicate] at hi
    split at hi <;> cases hi

/-- A place after a step of one thread: the thread's next place, a new thread, or as before. -/
theorem place_cases {s : Operation} {thread i : Nat} {place place' next : Place}
    (hi : (s.threads.set thread next ++ created place)[i]? = some place') :
    i = thread ∧ place' = next ∨ i ≠ thread ∧ s.threads[i]? = some place' ∨
      place = .spawning ∧ place' = .starting .loop := by
  by_cases hlt : i < s.threads.length
  · rw [List.getElem?_append_left (by rwa [List.length_set])] at hi
    by_cases heq : i = thread
    · subst heq
      rw [List.getElem?_set_self hlt] at hi
      exact Or.inl ⟨rfl, (Option.some.inj hi).symm⟩
    · rw [List.getElem?_set_ne (Ne.symm heq)] at hi
      exact Or.inr (Or.inl ⟨heq, hi⟩)
  · rw [List.getElem?_append_right (by rw [List.length_set]; omega)] at hi
    cases place with
    | spawning =>
        have hmem := List.mem_of_getElem? hi
        exact Or.inr (Or.inr ⟨rfl, List.mem_singleton.mp hmem⟩)
    | outside | requesting | trying | starting | acting | acted | consuming => cases hi

theorem owned_step {s s' : Operation} {act : Act} (howned : Owned s) (hstep : Step s act s') :
    Owned s' := by
  cases hstep with
  | @call thread method hthread =>
      constructor
      · have hset := Lib.Pool.sum_map_set Place.weight hthread method.entry
        rw [Method.entry_weight] at hset
        exact hset.trans howned.weight
      · intro i caller hi
        by_cases heq : i = thread
        · subst heq
          rw [List.getElem?_set_self (Lib.lt_length_of_getElem? hthread)] at hi
          cases method <;> cases hi
        · rw [List.getElem?_set_ne (Ne.symm heq)] at hi
          exact howned.pending i caller hi
  | @advance thread place hthread hinside =>
      have hle := weight_le_owners howned hthread
      constructor
      · have hset := Lib.Pool.sum_map_set Place.weight hthread (advance s.mState place).2
        have hadvance := advance_weight hle
        have hweight : (s.threads.map Place.weight).sum = s.mState.owners := howned.weight
        simp only [Operation.weight, List.map_append, List.sum_append]
        omega
      · intro i caller hi
        rcases place_cases hi with ⟨_, hnext⟩ | ⟨hne, hbefore⟩ | ⟨_, hnew⟩
        · exact advance_eq_consuming hnext.symm
        · -- The thread about to set the word back is the owner, so this one is not.
          rw [howned.pending i caller hbefore]
          apply advance_pending
          rintro caller' rfl
          exact hne (owns_unique howned hbefore hthread rfl rfl)
        · cases hnew

theorem Runs.owned {threads : Nat} {acts : List Act} {s : Operation} (hrun : Runs threads acts s) :
    Owned s :=
  hrun.invariant Owned (owned_construct threads) fun _ _ _ => owned_step

/-- Only the thread that executes the action takes the word out of `Pending`. -/
theorem leaves_pending {s s' : Operation} {act : Act} (hstep : Step s act s')
    (hpending : s.mState = .pending) (hleft : s'.mState ≠ .pending) :
    ∃ thread caller, act = .advance thread (.consuming caller) ∧
      s.threads[thread]? = some (.consuming caller) := by
  cases hstep with
  | call => exact absurd hpending hleft
  | @advance thread place hthread hinside =>
      by_contra hother
      apply hleft
      rw [hpending]
      apply advance_pending
      rintro caller rfl
      exact hother ⟨thread, caller, rfl, hthread⟩

/-! ## No request is lost -/

theorem Served.snoc {acts : List Act} {k : Nat} (hserved : Served acts k) (act : Act) :
    Served (acts ++ [act]) k := by
  obtain ⟨k', hk, thread, caller, hstart⟩ := hserved
  exact ⟨k', hk, thread, caller, Lib.getElem?_append_of_some hstart⟩

theorem served_starting {acts : List Act} {k thread : Nat} {caller : Caller} (hk : k < acts.length) :
    Served (acts ++ [.advance thread (.starting caller)]) k :=
  ⟨acts.length, hk, thread, caller, Lib.getElem?_snoc_length acts _⟩

theorem Attempt.begin_unstarted (attempt : Attempt) : attempt.begin.unstarted = true := by
  cases attempt <;> rfl

theorem Caller.again_unstarted (caller : Caller) : caller.again.unstarted = true := by
  cases caller <;> rfl

theorem Place.owns_of_unstarted {place : Place} (hplace : place.unstarted = true) : place.owns = true := by
  cases place with
  | starting | spawning => rfl
  | outside | requesting | trying | acting | acted | consuming => cases hplace

/-- Another thread stays where it is. -/
theorem place_of_ne {s : Operation} {thread i : Nat} {place place' next : Place} (hne : i ≠ thread)
    (hi : s.threads[i]? = some place') :
    (s.threads.set thread next ++ created place)[i]? = some place' := by
  apply Lib.getElem?_append_of_some
  rw [List.getElem?_set_ne hne.symm]
  exact hi

theorem place_self {s : Operation} {thread : Nat} {place next : Place}
    (hthread : s.threads[thread]? = some place) :
    (s.threads.set thread next ++ created place)[thread]? = some next := by
  apply Lib.getElem?_append_of_some
  rw [List.getElem?_set_self (Lib.lt_length_of_getElem? hthread)]

/-- An execution that is owed stays owed until it starts. -/
theorem owed_step {s s' : Operation} {act : Act} (howned : Owned s) (howed : s.Owed)
    (hstep : Step s act s') :
    s'.Owed ∨ ∃ thread caller, act = .advance thread (.starting caller) := by
  cases hstep with
  | @call thread method hthread =>
      left
      rcases howed with hpending | ⟨hrunning, i, place, hi, hplace⟩
      · exact Or.inl hpending
      · refine Or.inr ⟨hrunning, i, place, ?_, hplace⟩
        rw [List.getElem?_set_ne]
        · exact hi
        · rintro rfl
          rw [hthread] at hi
          cases hi
          cases hplace
  | @advance thread place hthread hinside =>
      rcases howed with hpending | ⟨hrunning, i, place', hi, hplace⟩
      · left
        by_cases hother : ∀ caller, place ≠ .consuming caller
        · left
          rw [hpending]
          exact advance_pending hother
        · -- The word is set back to `Running` for the execution that follows.
          obtain ⟨caller, hcaller⟩ := not_forall.mp hother
          obtain rfl := not_not.mp hcaller
          exact Or.inr ⟨rfl, thread, caller.again, place_self hthread, caller.again_unstarted⟩
      · by_cases heq : i = thread
        · obtain rfl := heq
          obtain rfl : place' = place := Option.some.inj (hi.symm.trans hthread)
          cases place' with
          | starting caller => exact Or.inr ⟨i, caller, rfl⟩
          | spawning =>
              -- The created thread has the execution now.
              refine Or.inl (Or.inr ⟨hrunning, s.threads.length, .starting .loop, ?_, rfl⟩)
              have hlast := Lib.getElem?_snoc_length (s.threads.set i .outside) (.starting .loop)
              rw [List.length_set] at hlast
              exact hlast
          | outside | requesting | trying | acting | acted | consuming => cases hplace
        · left
          have hframe : (s.threads.set thread (advance s.mState place).2 ++ created place)[i]? =
              some place' := place_of_ne heq hi
          cases howns : place.owns with
          | true =>
              exact absurd (owns_unique howned hi hthread (Place.owns_of_unstarted hplace) howns) heq
          | false =>
              cases place with
              | requesting attempt =>
                  left
                  simp only [advance, compareAndSwap, hrunning, if_true]
              | trying attempt =>
                  refine Or.inr ⟨?_, i, place', hframe, hplace⟩
                  rw [hrunning]
                  rfl
              | outside => exact absurd rfl hinside
              | starting | acting | acted | consuming | spawning => cases howns

/-- A call stays undecided, or leaves an execution owed. -/
theorem undecided_step {acts : List Act} {s s' : Operation} {act : Act} {k i : Nat} (howned : Owned s)
    (hundecided : Undecided acts s k i) (hstep : Step s act s') :
    Undecided (acts ++ [act]) s' k i ∨ s'.Owed := by
  obtain ⟨hlatest, attempt, hplace⟩ := hundecided
  have hinside : s.threads[i]? ≠ some .outside := by
    rcases hplace with hplace | ⟨hplace, _⟩ <;> rw [hplace] <;> exact fun h => by cases h
  cases hstep with
  | @call thread method hthread =>
      have hne : i ≠ thread := by
        rintro rfl
        exact hinside hthread
      left
      refine ⟨hlatest.snoc ?_, attempt, ?_⟩
      · rintro ⟨method', hcall⟩
        injection hcall with hsame
        exact hne hsame.symm
      · rw [List.getElem?_set_ne hne.symm]
        exact hplace
  | @advance thread place hthread _ =>
      have hlater : Lib.Latest (Act.CallOf i) (acts ++ [.advance thread place]) k :=
        hlatest.snoc fun ⟨_, hcall⟩ => by cases hcall
      by_cases heq : i = thread
      · obtain rfl := heq
        rcases hplace with hplace | ⟨hplace, hword⟩
        · obtain rfl : place = .requesting attempt := Option.some.inj (hthread.symm.trans hplace)
          cases hword : s.mState with
          | notRunning =>
              left
              refine ⟨hlater, attempt, Or.inr ⟨?_, ?_⟩⟩
              · exact place_self hthread
              · rfl
          | running => exact Or.inr (Or.inl rfl)
          | pending => exact Or.inr (Or.inl rfl)
        · obtain rfl : place = .trying attempt := Option.some.inj (hthread.symm.trans hplace)
          right
          rw [hword]
          exact Or.inr ⟨rfl, i, attempt.begin, place_self hthread, attempt.begin_unstarted⟩
      · rcases hplace with hplace | ⟨hplace, hword⟩
        · exact Or.inl ⟨hlater, attempt, Or.inl (place_of_ne heq hplace)⟩
        · have hle := weight_le_owners howned hthread
          rw [hword] at hle ⊢
          cases place with
          | trying attempt' =>
              exact Or.inr (Or.inr ⟨rfl, thread, attempt'.begin, place_self hthread,
                attempt'.begin_unstarted⟩)
          | requesting attempt' =>
              exact Or.inl ⟨hlater, attempt, Or.inr ⟨place_of_ne heq hplace, rfl⟩⟩
          | outside => exact Or.inl ⟨hlater, attempt, Or.inr ⟨place_of_ne heq hplace, rfl⟩⟩
          | starting | acting | acted | consuming | spawning =>
              exact absurd hle (Nat.not_succ_le_zero 0)

/-- What holds of every call of `Run`, `RunOnce` and `RunOnceAsync` made so far. -/
def Followed (acts : List Act) (s : Operation) : Prop :=
  ∀ (k thread : Nat) (method : Method), acts[k]? = some (.call thread method) →
    method.requests = true → Served acts k ∨ s.Owed ∨ Undecided acts s k thread

theorem followed_step {acts : List Act} {s s' : Operation} {act : Act} (howned : Owned s)
    (hfollowed : Followed acts s) (hstep : Step s act s') : Followed (acts ++ [act]) s' := by
  intro k thread method hcall hrequests
  rcases Lib.getElem?_snoc_cases hcall with hcall | ⟨rfl, rfl⟩
  · have hk := Lib.lt_length_of_getElem? hcall
    rcases hfollowed k thread method hcall hrequests with hserved | howed | hundecided
    · exact Or.inl (hserved.snoc act)
    · rcases owed_step howned howed hstep with howed | ⟨thread, caller, rfl⟩
      · exact Or.inr (Or.inl howed)
      · exact Or.inl (served_starting hk)
    · rcases undecided_step howned hundecided hstep with hundecided | howed
      · exact Or.inr (Or.inr hundecided)
      · exact Or.inr (Or.inl howed)
  · cases hstep with
    | call hthread =>
        have hentry : ∃ attempt, method.entry = .requesting attempt := by
          cases method with
          | run | runOnce | runOnceAsync => exact ⟨_, rfl⟩
          | tryRun | tryRunOnce | tryRunOnceAsync => cases hrequests
        obtain ⟨attempt, hentry⟩ := hentry
        right
        right
        refine ⟨Lib.Latest.snoc_self ⟨method, rfl⟩, attempt, Or.inl ?_⟩
        rw [hentry, List.getElem?_set_self (Lib.lt_length_of_getElem? hthread)]

theorem Runs.followed {threads : Nat} {acts : List Act} {s : Operation} (hrun : Runs threads acts s) :
    Followed acts s := by
  apply Lib.Run.history_invariant Followed _ _ hrun
  · intro k thread method hcall
    cases hcall
  · intro acts s act s' hbefore hfollowed hstep
    exact followed_step (Runs.owned hbefore) hfollowed hstep

/-! ## What is owed comes -/

def Act.byOwner : Act → Bool
  | .call _ _ => false
  | .advance _ place => place.owns

/-- How many steps the owner takes before the action starts. -/
def Place.distance : Place → Nat
  | .acting _ => 4
  | .acted _ => 3
  | .consuming _ => 2
  | .spawning => 1
  | .starting _ | .outside | .requesting _ | .trying _ => 0

theorem Place.distance_le (place : Place) : place.distance ≤ 4 := by
  cases place <;> simp only [Place.distance] <;> omega

theorem Caller.again_distance (caller : Caller) : caller.again.distance ≤ 1 := by
  cases caller <;> simp only [Caller.again, Place.distance] <;> omega

/-- An execution is owed, and its owner starts it within so many steps of its own. -/
def Operation.OwedWithin (s : Operation) (bound : Nat) : Prop :=
  s.Owed ∧ ∃ (i : Nat) (place : Place), s.threads[i]? = some place ∧ place.owns = true ∧
    place.distance ≤ bound

theorem Operation.Owed.within {s : Operation} (howned : Owned s) (howed : s.Owed) : s.OwedWithin 4 := by
  refine ⟨howed, ?_⟩
  have hstate : s.mState ≠ .notRunning := by
    rcases howed with hword | ⟨hword, _⟩ <;> rw [hword] <;> decide
  obtain ⟨i, place, hi, howns⟩ := (owns_iff howned).mp hstate
  exact ⟨i, place, hi, howns, place.distance_le⟩

/-- The owner of an execution that is owed and has not begun finds the word `Pending`. -/
theorem pending_of_owed {s : Operation} (howned : Owned s) (howed : s.Owed) {i : Nat} {place : Place}
    (hi : s.threads[i]? = some place) (howns : place.owns = true) (hbegun : place.unstarted = false) :
    s.mState = .pending := by
  rcases howed with hpending | ⟨_, j, place', hj, hplace'⟩
  · exact hpending
  · obtain rfl := owns_unique howned hi hj howns (Place.owns_of_unstarted hplace')
    rw [hi] at hj
    cases hj
    rw [hbegun] at hplace'
    cases hplace'

theorem Caller.again_owns (caller : Caller) : caller.again.owns = true := by
  cases caller <;> rfl

/-- A step of the owner that does not start the action comes closer to it. -/
theorem owner_advances {s : Operation} (howned : Owned s) (howed : s.Owed) {thread : Nat} {place : Place}
    (hthread : s.threads[thread]? = some place) (howns : place.owns = true)
    (hstart : ∀ caller, place ≠ .starting caller) :
    ∃ (i : Nat) (next : Place),
      (s.threads.set thread (advance s.mState place).2 ++ created place)[i]? = some next ∧
      next.owns = true ∧ next.distance < place.distance := by
  have hnext : (s.threads.set thread (advance s.mState place).2 ++ created place)[thread]? =
      some (advance s.mState place).2 := place_self hthread
  cases place with
  | starting caller => exact absurd rfl (hstart caller)
  | acting caller => exact ⟨thread, _, hnext, rfl, Nat.lt_add_one 3⟩
  | acted caller =>
      have hword := pending_of_owed howned howed hthread rfl rfl
      rw [hword] at hnext ⊢
      exact ⟨thread, _, hnext, rfl, Nat.lt_add_one 2⟩
  | consuming caller =>
      exact ⟨thread, _, hnext, caller.again_owns, Nat.lt_add_one_of_le caller.again_distance⟩
  | spawning =>
      have hlast := Lib.getElem?_snoc_length (s.threads.set thread .outside) (.starting .loop)
      exact ⟨_, .starting .loop, hlast, rfl, Nat.lt_add_one 0⟩
  | outside | requesting | trying => cases howns

theorem owedWithin_step {s s' : Operation} {act : Act} {bound : Nat} (howned : Owned s)
    (hwithin : s.OwedWithin bound) (hstep : Step s act s') :
    (∃ thread caller, act = .advance thread (.starting caller)) ∨
      ∃ rest, rest + act.byOwner.toNat = bound ∧ s'.OwedWithin rest := by
  obtain ⟨howed, i, place, hi, howns, hdistance⟩ := hwithin
  rcases owed_step howned howed hstep with howed' | hstart
  · cases hstep with
    | @call thread method hthread =>
        refine Or.inr ⟨bound, rfl, howed', i, place, ?_, howns, hdistance⟩
        rw [List.getElem?_set_ne]
        · exact hi
        · rintro rfl
          rw [hthread] at hi
          cases hi
          cases howns
    | @advance thread place' hthread hinside =>
        by_cases heq : i = thread
        · obtain rfl := heq
          obtain rfl : place = place' := Option.some.inj (hi.symm.trans hthread)
          by_cases hstart : ∀ caller, place ≠ .starting caller
          · obtain ⟨j, next, hj, hnext, hcloser⟩ := owner_advances howned howed hi howns hstart
            refine Or.inr ⟨bound - 1, ?_, howed', j, next, hj, hnext, by omega⟩
            rw [Act.byOwner, howns, Bool.toNat_true]
            omega
          · obtain ⟨caller, hcaller⟩ := not_forall.mp hstart
            obtain rfl := not_not.mp hcaller
            exact Or.inl ⟨i, caller, rfl⟩
        · have hother : place'.owns = false := by
            cases howns' : place'.owns with
            | false => rfl
            | true => exact absurd (owns_unique howned hi hthread howns howns') heq
          refine Or.inr ⟨bound, ?_, howed', i, place, place_of_ne heq hi, howns, hdistance⟩
          rw [Act.byOwner, hother]
          rfl
  · exact Or.inl hstart

/-- Where an execution is owed, the owner starts it with its fifth step at the latest, whatever the other
threads do in between. -/
theorem owed_starts {s s' : Operation} {acts : List Act} (howned : Owned s) (howed : s.Owed)
    (hrun : Lib.Run Step s acts s') (howner : 4 < acts.countP Act.byOwner) :
    ∃ thread caller, .advance thread (.starting caller) ∈ acts := by
  by_contra hnone
  have hinv : Owned s' ∧ ∃ rest, rest + acts.countP Act.byOwner = 4 ∧ s'.OwedWithin rest := by
    clear howner
    induction hrun with
    | nil => exact ⟨howned, 4, rfl, howed.within howned⟩
    | @snoc acts s s' act hbefore hstep ih =>
        have hsofar : ¬∃ thread caller, Act.advance thread (.starting caller) ∈ acts :=
          fun ⟨thread, caller, hmem⟩ => hnone ⟨thread, caller, List.mem_append_left _ hmem⟩
        obtain ⟨hbetween, rest, hrest, hwithin⟩ := ih hsofar
        refine ⟨owned_step hbetween hstep, ?_⟩
        rcases owedWithin_step hbetween hwithin hstep with ⟨thread, caller, rfl⟩ | ⟨rest', hrest', hnext⟩
        · exact absurd ⟨thread, caller, List.mem_append_right _ (List.mem_singleton_self _)⟩ hnone
        · refine ⟨rest', ?_, hnext⟩
          have hlast : (if act.byOwner = true then 1 else 0) = act.byOwner.toNat := by
            cases act.byOwner <;> rfl
          rw [List.countP_append, List.countP_singleton, hlast]
          omega
  obtain ⟨_, rest, hrest, _⟩ := hinv
  omega

/-- For every number of threads and every order of their steps: one thread at a time executes the action;
the word is `Running` or `Pending` exactly while a thread is in `ExecuteAction` or on the way to it; the
only step that leaves `Pending` is that thread's, and it sets `Running`; every `Run`, `RunOnce` and
`RunOnceAsync` is followed by an execution that starts after the call, unless one is owed or the call has
not reached its second compare-and-swap; and what is owed starts within five steps of its owner. -/
theorem exclusive_and_lossless (threads : Nat) {acts : List Act} {s : Operation}
    (hrun : Runs threads acts s) :
    (∀ (i j : Nat) (caller caller' : Caller), s.threads[i]? = some (.acting caller) →
      s.threads[j]? = some (.acting caller') → i = j) ∧
    (s.mState ≠ .notRunning ↔
      ∃ (i : Nat) (place : Place), s.threads[i]? = some place ∧ place.owns = true) ∧
    (∀ (act : Act) (s' : Operation), Step s act s' → s.mState = .pending → s'.mState ≠ .pending →
      s'.mState = .running ∧ ∃ thread caller, act = .advance thread (.consuming caller) ∧
        ∀ (i : Nat) (place : Place), s.threads[i]? = some place → place.owns = true → i = thread) ∧
    (∀ (k thread : Nat) (method : Method), acts[k]? = some (.call thread method) →
      method.requests = true → Served acts k ∨ s.Owed ∨ Undecided acts s k thread) ∧
    (∀ (later : List Act) (s' : Operation), s.Owed → Lib.Run Step s later s' →
      4 < later.countP Act.byOwner → ∃ thread caller, .advance thread (.starting caller) ∈ later) := by
  have howned := Runs.owned hrun
  refine ⟨?_, owns_iff howned, ?_, Runs.followed hrun, ?_⟩
  · intro i j caller caller' hi hj
    exact owns_unique howned hi hj rfl rfl
  · intro act s' hstep hpending hleft
    obtain ⟨thread, caller, rfl, hthread⟩ := leaves_pending hstep hpending hleft
    refine ⟨?_, thread, caller, rfl, ?_⟩
    · cases hstep
      rfl
    · intro i place hi howns
      exact owns_unique howned hi hthread howns rfl
  · intro later s' howed hlater howner
    exact owed_starts howned howed hlater howner

/-- Two threads call `Run`, the second while the first is on its way to the action. -/
def runTwice : List Act :=
  [.call 0 .run, .advance 0 (.requesting .tryRun), .advance 0 (.trying .tryRun), .call 1 .run,
    .advance 1 (.requesting .tryRun)]

def ranTwice : Operation where
  mState := .pending
  threads := [.starting .loop, .outside]

theorem runs_runTwice : Runs 2 runTwice ranTwice := by
  have hfirst : Runs 2 [.call 0 .run] ⟨.notRunning, [.requesting .tryRun, .outside]⟩ :=
    Lib.Run.single (.call rfl)
  have htrying := hfirst.snoc (@Step.advance _ 0 (.requesting .tryRun) rfl (by decide))
  have hstarting := htrying.snoc (@Step.advance _ 0 (.trying .tryRun) rfl (by decide))
  have hsecond := hstarting.snoc (@Step.call _ 1 .run rfl)
  exact hsecond.snoc (@Step.advance _ 1 (.requesting .tryRun) rfl (by decide))

theorem exclusive_and_lossless_runTwice :
    Runs 2 runTwice ranTwice ∧
      (ranTwice.mState ≠ .notRunning ↔
        ∃ (i : Nat) (place : Place), ranTwice.threads[i]? = some place ∧ place.owns = true) ∧
      (Served runTwice 3 ∨ ranTwice.Owed ∨ Undecided runTwice ranTwice 3 1) := by
  obtain ⟨_, hword, _, hrequests, _⟩ := exclusive_and_lossless 2 runs_runTwice
  exact ⟨runs_runTwice, hword, hrequests 3 1 .run rfl rfl⟩

end Armore.Proxy.SynchronizedOperation
