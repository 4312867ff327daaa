import Armore.Lib.Pool
import Armore.Lib.Run

/-!
# Threads and their locks

A program as its locks see it: which locks a piece of code takes, in which order, inside which others. What
else it does is left open, so that a branch goes either way, a loop runs as often as it likes and a statement
may throw. A lock is held to the end of its block, also when an exception leaves it. Threads take turns, one
can start another, and a signal handler can cut into any of them.

When every block takes locks of a higher rank than those around it, no thread ever waits for a lock that
cannot come free: from wherever the threads stand, all of them can still end. A handler that takes a lock of
the thread it cuts into is another matter, and that thread waits for good.
-/

namespace Armore.Lib.Locks

/-! ### Programs -/

/-- Pieces of code over locks named by `L`, starting threads named by `W`. -/
inductive Code (L W : Type)
  | skip
  | statement
  | seq (first second : Code L W)
  | choice (left right : Code L W)
  | loop (body : Code L W)
  | spinlock (name : L) (body : Code L W)
  | tryspinlock (name : L) (body : Code L W)
  | attempt (body handler : Code L W)
  | start (worker : W)

/-- What is left to do: code, an exception on its way, the end of the block of a lock, and the end of a
`try` block. -/
inductive Item (L W : Type)
  | run (code : Code L W)
  | unwind
  | release (name : L)
  | handler (code : Code L W)

/-- A thread is what it has left to do, innermost first. -/
abbrev Thread (L W : Type) := List (Item L W)

abbrev Threads (L W : Type) := List (Thread L W)

variable {L W : Type}

namespace Code

/-- `if (..) body`. -/
def when (body : Code L W) : Code L W := .choice .skip body

/-- Statements one after the other. -/
def block : List (Code L W) → Code L W
  | [] => .skip
  | first :: rest => .seq first (block rest)

/-- `switch`, or `if` and `else if`. -/
def oneOf : List (Code L W) → Code L W
  | [] => .skip
  | first :: rest => .choice first (oneOf rest)

end Code

/-- The locks of the blocks a thread stands in. -/
def held (t : Thread L W) : List L :=
  t.filterMap fun item => match item with
    | .release name => some name
    | _ => none

@[simp] theorem held_nil : held ([] : Thread L W) = [] := rfl

@[simp] theorem held_run (code : Code L W) (t : Thread L W) : held (.run code :: t) = held t := rfl

@[simp] theorem held_unwind (t : Thread L W) : held (.unwind :: t) = held t := rfl

@[simp] theorem held_release (name : L) (t : Thread L W) : held (.release name :: t) = name :: held t := rfl

@[simp] theorem held_handler (code : Code L W) (t : Thread L W) : held (.handler code :: t) = held t := rfl

/-- No thread holds the lock. -/
def Free (threads : Threads L W) (name : L) : Prop := ∀ t ∈ threads, name ∉ held t

section

variable (body : W → Code L W)

/-- One thing a thread does, where it finds some locks free, and the threads it starts. -/
inductive Moves (free : L → Prop) : Thread L W → Thread L W → Threads L W → Prop
  | skip (t : Thread L W) : Moves free (.run .skip :: t) t []
  | statement (t : Thread L W) : Moves free (.run .statement :: t) t []
  | throw (t : Thread L W) : Moves free (.run .statement :: t) (.unwind :: t) []
  | seq (first second : Code L W) (t : Thread L W) :
      Moves free (.run (.seq first second) :: t) (.run first :: .run second :: t) []
  | left (left right : Code L W) (t : Thread L W) :
      Moves free (.run (.choice left right) :: t) (.run left :: t) []
  | right (left right : Code L W) (t : Thread L W) :
      Moves free (.run (.choice left right) :: t) (.run right :: t) []
  | again (code : Code L W) (t : Thread L W) :
      Moves free (.run (.loop code) :: t) (.run code :: .run (.loop code) :: t) []
  | leave (code : Code L W) (t : Thread L W) : Moves free (.run (.loop code) :: t) t []
  | acquire (name : L) (code : Code L W) (t : Thread L W) (hfree : free name) :
      Moves free (.run (.spinlock name code) :: t) (.run code :: .release name :: t) []
  | tryAcquire (name : L) (code : Code L W) (t : Thread L W) (hfree : free name) :
      Moves free (.run (.tryspinlock name code) :: t) (.run code :: .release name :: t) []
  | tryFails (name : L) (code : Code L W) (t : Thread L W) :
      Moves free (.run (.tryspinlock name code) :: t) t []
  | attempt (code handler : Code L W) (t : Thread L W) :
      Moves free (.run (.attempt code handler) :: t) (.run code :: .handler handler :: t) []
  | start (worker : W) (t : Thread L W) :
      Moves free (.run (.start worker) :: t) t [[.run (body worker)]]
  | release (name : L) (t : Thread L W) : Moves free (.release name :: t) t []
  | past (code : Code L W) (t : Thread L W) : Moves free (.handler code :: t) t []
  | unwindRun (code : Code L W) (t : Thread L W) : Moves free (.unwind :: .run code :: t) (.unwind :: t) []
  | unwindUnwind (t : Thread L W) : Moves free (.unwind :: .unwind :: t) (.unwind :: t) []
  | unwindRelease (name : L) (t : Thread L W) :
      Moves free (.unwind :: .release name :: t) (.unwind :: t) []
  | caught (code : Code L W) (t : Thread L W) : Moves free (.unwind :: .handler code :: t) (.run code :: t) []
  | uncaught (code : Code L W) (t : Thread L W) :
      Moves free (.unwind :: .handler code :: t) (.unwind :: t) []
  | terminate : Moves free [.unwind] [] []

inductive Act
  | move (i : Nat)
  | signal (i : Nat)

/-- One thread moves, or a signal is handled by a thread that has not ended. -/
inductive Step (signalHandler : Code L W) : Threads L W → Act → Threads L W → Prop
  | move {threads : Threads L W} {i : Nat} {t t' : Thread L W} {started : Threads L W}
      (ht : threads[i]? = some t) (hmoves : Moves body (Free threads) t t' started) :
      Step signalHandler threads (.move i) (threads.set i t' ++ started)
  | signal {threads : Threads L W} {i : Nat} {t : Thread L W} (ht : threads[i]? = some t) (hne : t ≠ []) :
      Step signalHandler threads (.signal i) (threads.set i (.run signalHandler :: t))

end

/-! ### How often a lock is held -/

section

variable [DecidableEq L]

/-- How often a lock is held. -/
def holders (threads : Threads L W) (name : L) : Nat := (threads.map fun t => (held t).count name).sum

theorem free_iff {threads : Threads L W} {name : L} : Free threads name ↔ holders threads name = 0 := by
  refine ⟨?_, ?_⟩
  · intro hfree
    by_contra hsum
    obtain ⟨i, t, ht, hpos⟩ := Pool.exists_weight_pos _ hsum
    exact hfree t (List.mem_of_getElem? ht) (List.count_pos_iff.mp hpos)
  · intro hsum t ht
    obtain ⟨i, ht⟩ := List.mem_iff_getElem?.mp ht
    have hle := Pool.weight_le_sum (fun t => (held t).count name) ht
    have hzero : (held t).count name = 0 := Nat.le_zero.mp (hsum ▸ hle)
    exact List.count_eq_zero.mp hzero

theorem holders_pos {threads : Threads L W} {i : Nat} {t : Thread L W} (ht : threads[i]? = some t) {name : L}
    (hheld : name ∈ held t) : 0 < holders threads name :=
  Nat.lt_of_lt_of_le (List.count_pos_iff.mpr hheld)
    (Pool.weight_le_sum (fun t => (held t).count name) ht)

theorem holders_append (threads threads' : Threads L W) (name : L) :
    holders (threads ++ threads') name = holders threads name + holders threads' name := by
  rw [holders, List.map_append, List.sum_append]
  rfl

theorem holders_set {threads : Threads L W} {i : Nat} {t : Thread L W} (ht : threads[i]? = some t)
    (t' : Thread L W) (name : L) :
    holders (threads.set i t') name + (held t).count name = holders threads name + (held t').count name :=
  Pool.sum_map_set _ ht t'

end

/-! ### The order of the locks -/

section

variable (rank : L → Nat)

/-- Code that waits for locks of a higher rank only, and inside a lock for those of a higher rank than it.
An attempt to take a lock does not wait. -/
def Code.Above : Nat → Code L W → Prop
  | _, .skip => True
  | _, .statement => True
  | n, .seq first second => first.Above n ∧ second.Above n
  | n, .choice left right => left.Above n ∧ right.Above n
  | n, .loop body => body.Above n
  | n, .spinlock name body => n < rank name ∧ body.Above (rank name)
  | n, .tryspinlock name body => body.Above (max n (rank name))
  | n, .attempt body handler => body.Above n ∧ handler.Above n
  | _, .start _ => True

instance Code.decidableAbove : (n : Nat) → (code : Code L W) → Decidable (code.Above rank n)
  | _, .skip => .isTrue trivial
  | _, .statement => .isTrue trivial
  | n, .seq first second => by
      have := decidableAbove n first
      have := decidableAbove n second
      exact inferInstanceAs (Decidable (_ ∧ _))
  | n, .choice left right => by
      have := decidableAbove n left
      have := decidableAbove n right
      exact inferInstanceAs (Decidable (_ ∧ _))
  | n, .loop body => decidableAbove n body
  | n, .spinlock name body => by
      have := decidableAbove (rank name) body
      exact inferInstanceAs (Decidable (_ ∧ _))
  | n, .tryspinlock name body => decidableAbove (max n (rank name)) body
  | n, .attempt body handler => by
      have := decidableAbove n body
      have := decidableAbove n handler
      exact inferInstanceAs (Decidable (_ ∧ _))
  | _, .start _ => .isTrue trivial

/-- The highest rank of the locks a thread holds. -/
def top : Thread L W → Nat
  | [] => 0
  | .release name :: t => max (rank name) (top t)
  | _ :: t => top t

/-- All that a thread has left to do keeps to the order. -/
def Ordered : Thread L W → Prop
  | [] => True
  | .run code :: t => code.Above rank (top rank t) ∧ Ordered t
  | .handler code :: t => code.Above rank (top rank t) ∧ Ordered t
  | .release _ :: t => Ordered t
  | .unwind :: t => Ordered t

variable {rank}

theorem rank_le_top {t : Thread L W} {name : L} (hname : name ∈ held t) : rank name ≤ top rank t := by
  induction t with
  | nil => cases hname
  | cons item t ih =>
      cases item with
      | release name' =>
          rcases List.mem_cons.mp hname with rfl | hrest
          · exact Nat.le_max_left _ _
          · exact Nat.le_trans (ih hrest) (Nat.le_max_right _ _)
      | _ => exact ih hname

/-- The order is kept. -/
theorem Moves.ordered {body : W → Code L W} (hbody : ∀ w, (body w).Above rank 0) {free : L → Prop}
    {t t' : Thread L W} {started : Threads L W} (hmoves : Moves body free t t' started)
    (ht : Ordered rank t) : Ordered rank t' ∧ ∀ s ∈ started, Ordered rank s := by
  have hnone : ∀ s ∈ ([] : Threads L W), Ordered rank s := fun s hs => absurd hs List.not_mem_nil
  cases hmoves with
  | skip => exact ⟨ht.2, hnone⟩
  | statement => exact ⟨ht.2, hnone⟩
  | throw => exact ⟨ht.2, hnone⟩
  | seq => exact ⟨⟨ht.1.1, ht.1.2, ht.2⟩, hnone⟩
  | left => exact ⟨⟨ht.1.1, ht.2⟩, hnone⟩
  | right => exact ⟨⟨ht.1.2, ht.2⟩, hnone⟩
  | again => exact ⟨⟨ht.1, ht.1, ht.2⟩, hnone⟩
  | leave => exact ⟨ht.2, hnone⟩
  | acquire name code t hfree =>
      have hmax : max (rank name) (top rank t) = rank name := Nat.max_eq_left (Nat.le_of_lt ht.1.1)
      refine ⟨⟨?_, ht.2⟩, hnone⟩
      rw [top, hmax]
      exact ht.1.2
  | tryAcquire name code t hfree =>
      refine ⟨⟨?_, ht.2⟩, hnone⟩
      rw [top, Nat.max_comm]
      exact ht.1
  | tryFails => exact ⟨ht.2, hnone⟩
  | attempt => exact ⟨⟨ht.1.1, ht.1.2, ht.2⟩, hnone⟩
  | start worker t =>
      refine ⟨ht.2, ?_⟩
      intro s hs
      rw [List.mem_singleton.mp hs]
      exact ⟨hbody worker, trivial⟩
  | release => exact ⟨ht, hnone⟩
  | past => exact ⟨ht.2, hnone⟩
  | unwindRun => exact ⟨ht.2, hnone⟩
  | unwindUnwind => exact ⟨ht, hnone⟩
  | unwindRelease => exact ⟨ht, hnone⟩
  | caught => exact ⟨ht, hnone⟩
  | uncaught => exact ⟨ht.2, hnone⟩
  | terminate => exact ⟨trivial, hnone⟩

end

/-! ### All threads can end -/

section

variable (body : W → Code L W)

/-- The steps of the way through a program that takes the first branch, leaves every loop and tries no
lock, where starting a thread counts as given. -/
def Code.cost (started : W → Nat) : Code L W → Nat
  | .skip => 1
  | .statement => 1
  | .seq first second => 1 + first.cost started + second.cost started
  | .choice left _ => 1 + left.cost started
  | .loop _ => 1
  | .spinlock _ body => 2 + body.cost started
  | .tryspinlock _ _ => 1
  | .attempt body _ => 2 + body.cost started
  | .start worker => 1 + started worker

/-- No thread is started on that way. -/
def Code.Alone : Code L W → Prop
  | .skip => True
  | .statement => True
  | .seq first second => first.Alone ∧ second.Alone
  | .choice left _ => left.Alone
  | .loop _ => True
  | .spinlock _ body => body.Alone
  | .tryspinlock _ _ => True
  | .attempt body _ => body.Alone
  | .start _ => False

theorem Code.cost_of_alone {code : Code L W} (halone : code.Alone) (started started' : W → Nat) :
    code.cost started = code.cost started' := by
  induction code with
  | skip => rfl
  | statement => rfl
  | seq first second ihFirst ihSecond => rw [cost, cost, ihFirst halone.1, ihSecond halone.2]
  | choice left right ihLeft ihRight => rw [cost, cost, ihLeft halone]
  | loop body ih => rfl
  | spinlock name body ih => rw [cost, cost, ih halone]
  | tryspinlock name body ih => rfl
  | attempt body handler ihBody ihHandler => rw [cost, cost, ihBody halone]
  | start worker => cases halone

/-- What a new thread costs. -/
def startCost (worker : W) : Nat := (body worker).cost fun _ => 0

def Item.cost : Item L W → Nat
  | .run code => code.cost fun worker => startCost body worker
  | _ => 1

def threadCost (t : Thread L W) : Nat := (t.map (Item.cost body)).sum

def threadsCost (threads : Threads L W) : Nat := (threads.map (threadCost body)).sum

/-- A thread that has not ended waits for a lock. -/
def Waits (free : L → Prop) (t : Thread L W) (name : L) : Prop :=
  ∃ code rest, t = .run (.spinlock name code) :: rest ∧ ¬free name

variable {body}

theorem threadCost_cons (item : Item L W) (t : Thread L W) :
    threadCost body (item :: t) = item.cost body + threadCost body t := by
  rw [threadCost, List.map_cons, List.sum_cons]
  rfl

theorem cost_pos (code : Code L W) (started : W → Nat) : 0 < code.cost started := by
  cases code <;> simp only [Code.cost] <;> omega

/-- A thread comes closer to its end, unless it waits. -/
theorem moves_or_waits (halone : ∀ w, (body w).Alone) (free : L → Prop) {t : Thread L W} (hne : t ≠ []) :
    (∃ t' started, Moves body free t t' started
        ∧ threadCost body t' + threadsCost body started < threadCost body t)
      ∨ ∃ name, Waits free t name := by
  have hnone : threadsCost body ([] : Threads L W) = 0 := rfl
  cases t with
  | nil => exact absurd rfl hne
  | cons item t =>
      rw [threadCost_cons]
      cases item with
      | run code =>
          have hpos : 0 < (Item.run code).cost body := cost_pos code _
          cases code with
          | skip => exact .inl ⟨_, _, .skip t, by omega⟩
          | statement => exact .inl ⟨_, _, .statement t, by omega⟩
          | seq first second =>
              refine .inl ⟨_, _, .seq first second t, ?_⟩
              rw [threadCost_cons, threadCost_cons]
              simp only [Item.cost, Code.cost]
              omega
          | choice left right =>
              refine .inl ⟨_, _, .left left right t, ?_⟩
              rw [threadCost_cons]
              simp only [Item.cost, Code.cost]
              omega
          | loop code => exact .inl ⟨_, _, .leave code t, by omega⟩
          | spinlock name code =>
              by_cases hfree : free name
              · refine .inl ⟨_, _, .acquire name code t hfree, ?_⟩
                rw [threadCost_cons, threadCost_cons]
                simp only [Item.cost, Code.cost]
                omega
              · exact .inr ⟨name, code, t, rfl, hfree⟩
          | tryspinlock name code => exact .inl ⟨_, _, .tryFails name code t, by omega⟩
          | attempt code handler =>
              refine .inl ⟨_, _, .attempt code handler t, ?_⟩
              rw [threadCost_cons, threadCost_cons]
              simp only [Item.cost, Code.cost]
              omega
          | start worker =>
              refine .inl ⟨_, _, .start worker t, ?_⟩
              have hcost : threadsCost body [[.run (body worker)]] = startCost body worker := by
                rw [threadsCost, List.map_singleton, List.sum_singleton, threadCost, List.map_singleton,
                  List.sum_singleton]
                exact Code.cost_of_alone (halone worker) _ _
              rw [hcost]
              simp only [Item.cost, Code.cost]
              omega
      | release name => exact .inl ⟨_, _, .release name t, by simp only [Item.cost]; omega⟩
      | handler code => exact .inl ⟨_, _, .past code t, by simp only [Item.cost]; omega⟩
      | unwind =>
          cases t with
          | nil => exact .inl ⟨_, _, .terminate, by simp only [Item.cost]; omega⟩
          | cons item t =>
              have hless : ∀ item : Item L W, 0 < item.cost body → threadCost body (.unwind :: t) + 0
                  < Item.unwind.cost body + threadCost body (item :: t) := by
                intro item hpos
                rw [threadCost_cons, threadCost_cons]
                omega
              cases item with
              | run code => exact .inl ⟨_, _, .unwindRun code t, hless _ (cost_pos code _)⟩
              | unwind => exact .inl ⟨_, _, .unwindUnwind t, hless _ Nat.zero_lt_one⟩
              | release name => exact .inl ⟨_, _, .unwindRelease name t, hless _ Nat.zero_lt_one⟩
              | handler code => exact .inl ⟨_, _, .uncaught code t, hless _ Nat.zero_lt_one⟩

end

section

variable {body : W → Code L W} {rank : L → Nat}

/-- Behind a lock that a thread waits for is a thread that waits for a lock of a higher rank, or does not
wait. -/
theorem exists_moves (halone : ∀ w, (body w).Alone) {threads : Threads L W}
    (hordered : ∀ t ∈ threads, Ordered rank t) {t : Thread L W} (ht : t ∈ threads) (hne : t ≠ []) :
    ∃ s ∈ threads, ∃ s' started, Moves body (Free threads) s s' started
      ∧ threadCost body s' + threadsCost body started < threadCost body s := by
  by_contra hnone
  have hwaits : ∀ s ∈ threads, s ≠ [] → ∃ name, Waits (Free threads) s name := by
    intro s hs hne
    rcases moves_or_waits halone (Free threads) hne with hmoves | hwaits
    · obtain ⟨s', started, hmoves⟩ := hmoves
      exact absurd ⟨s, hs, s', started, hmoves⟩ hnone
    · exact hwaits
  -- The ranks of the locks that are waited for have no bound.
  have hhigh : ∀ n, ∃ s ∈ threads, ∃ name, Waits (Free threads) s name ∧ n ≤ rank name := by
    intro n
    induction n with
    | zero =>
        obtain ⟨name, hname⟩ := hwaits t ht hne
        exact ⟨t, ht, name, hname, Nat.zero_le _⟩
    | succ n ih =>
        obtain ⟨s, hs, name, hname, hle⟩ := ih
        obtain ⟨_, _, _, hheld⟩ := hname
        simp only [Free, not_forall, not_not] at hheld
        obtain ⟨s', hs', hheld⟩ := hheld
        obtain ⟨name', hname'⟩ := hwaits s' hs' fun hnil => by rw [hnil] at hheld; cases hheld
        refine ⟨s', hs', name', hname', ?_⟩
        obtain ⟨code, rest, rfl, _⟩ := hname'
        have hrank : rank _ ≤ top rank _ := rank_le_top hheld
        have habove : top rank (.run (.spinlock name' code) :: rest) < rank name' := (hordered _ hs').1.1
        omega
  obtain ⟨s, hs, name, hname, hle⟩ := hhigh ((threads.map (top rank)).sum + 1)
  obtain ⟨_, _, _, hheld⟩ := hname
  simp only [Free, not_forall, not_not] at hheld
  obtain ⟨s', hs', hheld⟩ := hheld
  obtain ⟨i, hs'⟩ := List.mem_iff_getElem?.mp hs'
  have hrank : rank _ ≤ top rank _ := rank_le_top hheld
  have hsum := Pool.weight_le_sum (top rank) hs'
  omega

/-- **No deadlock.** From wherever the threads stand, all of them can end. -/
theorem ends (hbody : ∀ w, (body w).Above rank 0) (halone : ∀ w, (body w).Alone) (signalHandler : Code L W)
    {threads : Threads L W} (hordered : ∀ t ∈ threads, Ordered rank t) :
    ∃ (moves : List Nat) (threads' : Threads L W),
      Run (Step body signalHandler) threads (moves.map .move) threads' ∧ ∀ t ∈ threads', t = [] := by
  induction hcost : threadsCost body threads using Nat.strongRecOn generalizing threads with
  | _ cost ih =>
      by_cases hdone : ∀ t ∈ threads, t = []
      · exact ⟨[], threads, .nil, hdone⟩
      · simp only [not_forall] at hdone
        obtain ⟨t, ht, hne⟩ := hdone
        obtain ⟨s, hs, s', started, hmoves, hless⟩ := exists_moves halone hordered ht hne
        obtain ⟨i, hi⟩ := List.mem_iff_getElem?.mp hs
        have hstep : Step body signalHandler threads (.move i) (threads.set i s' ++ started) := .move hi hmoves
        obtain ⟨hs', hstarted⟩ := hmoves.ordered hbody (hordered s hs)
        have hsum := Pool.sum_map_set (threadCost body) hi s'
        have hafter : threadsCost body (threads.set i s' ++ started)
            = ((threads.set i s').map (threadCost body)).sum + threadsCost body started := by
          rw [threadsCost, List.map_append, List.sum_append]
          rfl
        have hbefore : threadsCost body threads = (threads.map (threadCost body)).sum := rfl
        have hordered' : ∀ t ∈ threads.set i s' ++ started, Ordered rank t := by
          intro t ht
          rcases List.mem_append.mp ht with hset | hnew
          · rcases List.mem_or_eq_of_mem_set hset with hold | rfl
            · exact hordered t hold
            · exact hs'
          · exact hstarted t hnew
        obtain ⟨moves, threads', hrun, hend⟩ := ih _ (by omega) hordered' rfl
        exact ⟨i :: moves, threads', (Run.single hstep).trans hrun, hend⟩

end

/-! ### A handler that takes a lock of its own thread -/

/-- The thread waits for a lock that it holds. -/
def Stuck (name : L) (t : Thread L W) : Prop :=
  ∃ code rest, t = .run (.spinlock name code) :: rest ∧ name ∈ held rest

theorem stuck_signal {name : L} (code : Code L W) {t : Thread L W} (hheld : name ∈ held t) :
    Stuck name (.run (.spinlock name code) :: t) :=
  ⟨code, t, rfl, hheld⟩

/-- **The thread waits for good**, whatever the others do and whatever signals come. -/
theorem Stuck.forever {body : W → Code L W} {name : L} {code : Code L W} {threads : Threads L W} {i : Nat}
    {t : Thread L W} (ht : threads[i]? = some t) (hstuck : Stuck name t) {acts : List Act}
    {threads' : Threads L W} (hrun : Run (Step body (.spinlock name code)) threads acts threads') :
    ∃ t', threads'[i]? = some t' ∧ Stuck name t' := by
  refine Run.invariant (fun threads => ∃ t', threads[i]? = some t' ∧ Stuck name t') ⟨t, ht, hstuck⟩ ?_ hrun
  intro threads a threads' hinv hstep
  obtain ⟨t, ht, hstuck⟩ := hinv
  have hlength := (List.getElem?_eq_some_iff.mp ht).1
  cases hstep with
  | @move j s s' started hs hmoves =>
      by_cases hij : j = i
      · subst hij
        obtain rfl : t = s := Option.some.inj (ht.symm.trans hs)
        obtain ⟨code, rest, rfl, hheld⟩ := hstuck
        have hheld : name ∈ held (.run (.spinlock name code) :: rest) := hheld
        cases hmoves with
        | acquire _ _ _ hfree => exact absurd hheld (hfree _ (List.mem_of_getElem? ht))
      · refine ⟨t, ?_, hstuck⟩
        rw [List.getElem?_append_left (by rw [List.length_set]; exact hlength), List.getElem?_set_ne hij]
        exact ht
  | @signal j s hs hne =>
      by_cases hij : j = i
      · subst hij
        obtain rfl : t = s := Option.some.inj (ht.symm.trans hs)
        obtain ⟨code', rest, rfl, hheld⟩ := hstuck
        exact ⟨_, List.getElem?_set_self hlength, stuck_signal code hheld⟩
      · exact ⟨t, by rw [List.getElem?_set_ne hij]; exact ht, hstuck⟩

theorem Stuck.ne_nil {name : L} {t : Thread L W} (hstuck : Stuck name t) : t ≠ [] := by
  obtain ⟨code, rest, rfl, _⟩ := hstuck
  exact List.cons_ne_nil _ _

end Armore.Lib.Locks
