import Armore.Proxy.Threads

/-!
# The spin locks of the proxy

`SpinLock` wraps a lock of `pthread`, a word that a thread sets when it finds it clear, and that a call of
unlock clears, whoever has set it. `LocalSpinLock` is the guard that the macros `spinlock` and `tryspinlock`
put around a block: it keeps in `m_acquired` whether it has the lock, gives it back behind the block, and gives
it back in its destructor when an exception leaves the block.

Here the threads of the proxy run this code. That no lock has two holders is not given by the words: it holds
because a guard unlocks what it has locked, and nothing else (`one_holder`). It makes the locks those of
`Lib.Locks`, where a lock is taken when no thread holds it (`run_view`).
-/

namespace Armore.Proxy

/-! ### SpinLock -/

/-- What the methods throw: a `runtime_error` with the number that `pthread` has returned, or a `logic_error`. -/
inductive LockError
  | failedToAcquire (err : Nat)
  | failedToRelease (err : Nat)
  | alreadyAcquired
  | notAcquired

namespace SpinLock

/-- `EBUSY`. -/
def busy : Nat := 16

/-- `pthread_spin_lock`, which returns when it has found the word clear. -/
def pthreadSpinLock (word : Bool) : Option (Nat × Bool) := if word then none else some (0, true)

def pthreadSpinTrylock (word : Bool) : Nat × Bool := if word then (busy, true) else (0, true)

/-- `pthread_spin_unlock` does not look at the word. -/
def pthreadSpinUnlock (_word : Bool) : Nat × Bool := (0, false)

def acquire (word : Bool) : Option (Except LockError Unit × Bool) :=
  (pthreadSpinLock word).map fun (err, word') =>
    (if err ≠ 0 then .error (.failedToAcquire err) else .ok (), word')

def tryAcquire (word : Bool) : Bool × Bool :=
  let (err, word') := pthreadSpinTrylock word
  (err = 0, word')

def release (word : Bool) : Except LockError Unit × Bool :=
  let (err, word') := pthreadSpinUnlock word
  (if err ≠ 0 then .error (.failedToRelease err) else .ok (), word')

end SpinLock

/-! ### LocalSpinLock -/

/-- `m_lock` and `m_acquired`. -/
structure LocalSpinLock (L : Type) where
  lock : L
  acquired : Bool := false

namespace LocalSpinLock

/-- What a method of a guard returns or throws, and what it leaves of the guard and of the word of its lock. -/
structure Outcome (L α : Type) where
  result : Except LockError α
  guard : LocalSpinLock L
  word : Bool

variable {L : Type}

/-- `Acquire`; `none` as long as it waits. -/
def acquire (guard : LocalSpinLock L) (word : Bool) : Option (Outcome L Unit) :=
  if guard.acquired then some ⟨.error .alreadyAcquired, guard, word⟩
  else (SpinLock.acquire word).map fun
    | (.ok (), word') => ⟨.ok (), { guard with acquired := true }, word'⟩
    | (.error error, word') => ⟨.error error, { guard with acquired := false }, word'⟩

/-- `TryAcquire`. -/
def tryAcquire (guard : LocalSpinLock L) (word : Bool) : Outcome L Bool :=
  if guard.acquired then ⟨.error .alreadyAcquired, guard, word⟩
  else
    let (acquired, word') := SpinLock.tryAcquire word
    ⟨.ok acquired, { guard with acquired }, word'⟩

/-- `Release`. -/
def release (guard : LocalSpinLock L) (word : Bool) : Outcome L Unit :=
  if !guard.acquired then ⟨.error .notAcquired, guard, word⟩
  else
    let (result, word') := SpinLock.release word
    ⟨result, { guard with acquired := false }, word'⟩

/-- The destructor. -/
def destroy (guard : LocalSpinLock L) (word : Bool) : Outcome L Unit :=
  if guard.acquired then guard.release word else ⟨.ok (), guard, word⟩

theorem acquire_eq_some {guard : LocalSpinLock L} (hguard : guard.acquired = false) {word : Bool}
    {outcome : Outcome L Unit} (h : guard.acquire word = some outcome) :
    word = false ∧ outcome = ⟨.ok (), { guard with acquired := true }, true⟩ := by
  rw [acquire, hguard] at h
  cases word with
  | true => cases h
  | false => exact ⟨rfl, (Option.some.inj h).symm⟩

theorem tryAcquire_eq {guard : LocalSpinLock L} (hguard : guard.acquired = false) {word : Bool}
    {outcome : Outcome L Bool} (h : guard.tryAcquire word = outcome) :
    word = false ∧ outcome = ⟨.ok true, { guard with acquired := true }, true⟩
      ∨ word = true ∧ outcome = ⟨.ok false, { guard with acquired := false }, true⟩ := by
  rw [tryAcquire, hguard] at h
  cases word with
  | true => exact .inr ⟨rfl, h.symm⟩
  | false => exact .inl ⟨rfl, h.symm⟩

theorem release_acquired {guard : LocalSpinLock L} (hguard : guard.acquired = true) (word : Bool) :
    guard.release word = ⟨.ok (), { guard with acquired := false }, false⟩ := by
  rw [release, hguard]
  rfl

theorem destroy_acquired {guard : LocalSpinLock L} (hguard : guard.acquired = true) (word : Bool) :
    guard.destroy word = ⟨.ok (), { guard with acquired := false }, false⟩ := by
  rw [destroy, if_pos hguard, release_acquired hguard]

theorem destroy_not_acquired {guard : LocalSpinLock L} (hguard : guard.acquired = false) (word : Bool) :
    guard.destroy word = ⟨.ok (), guard, word⟩ := by
  rw [destroy, hguard]
  rfl

end LocalSpinLock

namespace SpinLock

open Lib.Locks (Code Act held holders)

/-! ### Threads that run it -/

/-- What a thread has left to do: code, an exception on its way, the end of a `try` block, the call of
`Acquire` or `TryAcquire` before a block, and the end of a block with a guard. -/
inductive Frame (L W : Type)
  | run (code : Code L W)
  | unwind
  | handler (code : Code L W)
  | acquire (guard : LocalSpinLock L) (code : Code L W)
  | tryAcquire (guard : LocalSpinLock L) (code : Code L W)
  | inside (guard : LocalSpinLock L)

abbrev Stack (L W : Type) := List (Frame L W)

def Frame.guard? {L W : Type} : Frame L W → Option (LocalSpinLock L)
  | .acquire guard _ | .tryAcquire guard _ | .inside guard => some guard
  | _ => none

/-- The words of the locks, and the threads. -/
structure Machine (L W : Type) where
  words : L → Bool
  threads : List (Stack L W)

section

variable {L W : Type} [DecidableEq L] (body : W → Code L W)

/-- One thing a thread does to its stack and to the words, and the threads it starts. The guard of a block is
destroyed at the end of the block, where `Release` has already been called. A destructor that throws ends the
proxy. -/
inductive Moves (words : L → Bool) : Stack L W → (L → Bool) → Stack L W → List (Stack L W) → Prop
  | skip (t : Stack L W) : Moves words (.run .skip :: t) words t []
  | statement (t : Stack L W) : Moves words (.run .statement :: t) words t []
  | throw (t : Stack L W) : Moves words (.run .statement :: t) words (.unwind :: t) []
  | seq (first second : Code L W) (t : Stack L W) :
      Moves words (.run (.seq first second) :: t) words (.run first :: .run second :: t) []
  | left (left right : Code L W) (t : Stack L W) :
      Moves words (.run (.choice left right) :: t) words (.run left :: t) []
  | right (left right : Code L W) (t : Stack L W) :
      Moves words (.run (.choice left right) :: t) words (.run right :: t) []
  | again (code : Code L W) (t : Stack L W) :
      Moves words (.run (.loop code) :: t) words (.run code :: .run (.loop code) :: t) []
  | leave (code : Code L W) (t : Stack L W) : Moves words (.run (.loop code) :: t) words t []
  | attempt (code handler : Code L W) (t : Stack L W) :
      Moves words (.run (.attempt code handler) :: t) words (.run code :: .handler handler :: t) []
  | start (worker : W) (t : Stack L W) :
      Moves words (.run (.start worker) :: t) words t [[.run (body worker)]]
  | past (code : Code L W) (t : Stack L W) : Moves words (.handler code :: t) words t []
  | spinlock (name : L) (code : Code L W) (t : Stack L W) :
      Moves words (.run (.spinlock name code) :: t) words (.acquire { lock := name } code :: t) []
  | tryspinlock (name : L) (code : Code L W) (t : Stack L W) :
      Moves words (.run (.tryspinlock name code) :: t) words (.tryAcquire { lock := name } code :: t) []
  | acquire {guard guard' : LocalSpinLock L} {word : Bool} (code : Code L W) (t : Stack L W)
      (hacquire : guard.acquire (words guard.lock) = some ⟨.ok (), guard', word⟩) :
      Moves words (.acquire guard code :: t) (Function.update words guard.lock word)
        (.run code :: .inside guard' :: t) []
  | acquireThrows {guard guard' gone : LocalSpinLock L} {word word' : Bool} {error : LockError} (code : Code L W)
      (t : Stack L W) (hacquire : guard.acquire (words guard.lock) = some ⟨.error error, guard', word⟩)
      (hdestroy : guard'.destroy word = ⟨.ok (), gone, word'⟩) :
      Moves words (.acquire guard code :: t) (Function.update words guard.lock word') (.unwind :: t) []
  | tryAcquire {guard guard' : LocalSpinLock L} {word : Bool} (code : Code L W) (t : Stack L W)
      (hacquire : guard.tryAcquire (words guard.lock) = ⟨.ok true, guard', word⟩) :
      Moves words (.tryAcquire guard code :: t) (Function.update words guard.lock word)
        (.run code :: .inside guard' :: t) []
  | tryFails {guard guard' gone : LocalSpinLock L} {word word' : Bool} (code : Code L W) (t : Stack L W)
      (hacquire : guard.tryAcquire (words guard.lock) = ⟨.ok false, guard', word⟩)
      (hdestroy : guard'.destroy word = ⟨.ok (), gone, word'⟩) :
      Moves words (.tryAcquire guard code :: t) (Function.update words guard.lock word') t []
  | tryThrows {guard guard' gone : LocalSpinLock L} {word word' : Bool} {error : LockError} (code : Code L W)
      (t : Stack L W) (hacquire : guard.tryAcquire (words guard.lock) = ⟨.error error, guard', word⟩)
      (hdestroy : guard'.destroy word = ⟨.ok (), gone, word'⟩) :
      Moves words (.tryAcquire guard code :: t) (Function.update words guard.lock word') (.unwind :: t) []
  | release {guard guard' gone : LocalSpinLock L} {word word' : Bool} (t : Stack L W)
      (hrelease : guard.release (words guard.lock) = ⟨.ok (), guard', word⟩)
      (hdestroy : guard'.destroy word = ⟨.ok (), gone, word'⟩) :
      Moves words (.inside guard :: t) (Function.update words guard.lock word') t []
  | releaseThrows {guard guard' gone : LocalSpinLock L} {word word' : Bool} {error : LockError} (t : Stack L W)
      (hrelease : guard.release (words guard.lock) = ⟨.error error, guard', word⟩)
      (hdestroy : guard'.destroy word = ⟨.ok (), gone, word'⟩) :
      Moves words (.inside guard :: t) (Function.update words guard.lock word') (.unwind :: t) []
  | unwindRun (code : Code L W) (t : Stack L W) : Moves words (.unwind :: .run code :: t) words (.unwind :: t) []
  | unwindUnwind (t : Stack L W) : Moves words (.unwind :: .unwind :: t) words (.unwind :: t) []
  | unwindGuard {frame : Frame L W} {guard gone : LocalSpinLock L} {word : Bool} (t : Stack L W)
      (hframe : frame.guard? = some guard) (hdestroy : guard.destroy (words guard.lock) = ⟨.ok (), gone, word⟩) :
      Moves words (.unwind :: frame :: t) (Function.update words guard.lock word) (.unwind :: t) []
  | caught (code : Code L W) (t : Stack L W) :
      Moves words (.unwind :: .handler code :: t) words (.run code :: t) []
  | uncaught (code : Code L W) (t : Stack L W) :
      Moves words (.unwind :: .handler code :: t) words (.unwind :: t) []
  | terminate : Moves words [.unwind] words [] []

/-- One thread moves, or a signal is handled by a thread that has not ended, though not within a call of a guard. -/
inductive Step (signalHandler : Code L W) : Machine L W → Act → Machine L W → Prop
  | move {machine : Machine L W} {i : Nat} {t t' : Stack L W} {words' : L → Bool} {started : List (Stack L W)}
      (ht : machine.threads[i]? = some t) (hmoves : Moves body machine.words t words' t' started) :
      Step signalHandler machine (.move i) ⟨words', machine.threads.set i t' ++ started⟩
  | signal {machine : Machine L W} {i : Nat} {t : Stack L W} (ht : machine.threads[i]? = some t) (hne : t ≠ []) :
      Step signalHandler machine (.signal i) ⟨machine.words, machine.threads.set i (.run signalHandler :: t)⟩

end

/-! ### The blocks the threads stand in -/

section

variable {L W : Type}

/-- The frame without its guard: in `Lib.Locks` a thread before a block waits, and one inside has the lock. -/
def Frame.view : Frame L W → Lib.Locks.Item L W
  | .run code => .run code
  | .unwind => .unwind
  | .handler code => .handler code
  | .acquire guard code => .run (.spinlock guard.lock code)
  | .tryAcquire guard code => .run (.tryspinlock guard.lock code)
  | .inside guard => .release guard.lock

def view (t : Stack L W) : Lib.Locks.Thread L W := t.map Frame.view

def Machine.view (machine : Machine L W) : Lib.Locks.Threads L W := machine.threads.map SpinLock.view

theorem getElem?_view {machine : Machine L W} {i : Nat} {t : Stack L W} (ht : machine.threads[i]? = some t) :
    machine.view[i]? = some (view t) := by
  rw [Machine.view, List.getElem?_map, ht]
  rfl

/-- A guard has the lock inside its block, and does not have it before. -/
def Frame.Sound : Frame L W → Prop
  | .acquire guard _ | .tryAcquire guard _ => guard.acquired = false
  | .inside guard => guard.acquired = true
  | _ => True

def Sound : Stack L W → Prop
  | [] => True
  | frame :: t => frame.Sound ∧ Sound t

/-- What a move does to the words, to the locks of its thread, and to what `Lib.Locks` sees of it. -/
inductive Effect [DecidableEq L] (body : W → Code L W) (words : L → Bool) (t t' : Stack L W)
    (started : List (Stack L W)) : (L → Bool) → Prop
  | hides (hview : view t' = view t) (hstarted : started = []) : Effect body words t t' started words
  | keeps (hheld : held (view t') = held (view t))
      (hview : ∀ free, Lib.Locks.Moves body free (view t) (view t') (started.map view)) :
      Effect body words t t' started words
  | takes (name : L) (hclear : words name = false) (hheld : held (view t') = name :: held (view t))
      (hview : ∀ free : L → Prop, free name → Lib.Locks.Moves body free (view t) (view t') (started.map view)) :
      Effect body words t t' started (Function.update words name true)
  | gives (name : L) (hheld : held (view t) = name :: held (view t'))
      (hview : ∀ free, Lib.Locks.Moves body free (view t) (view t') (started.map view)) :
      Effect body words t t' started (Function.update words name false)

theorem Moves.effect [DecidableEq L] {body : W → Code L W} {words words' : L → Bool} {t t' : Stack L W}
    {started : List (Stack L W)} (hmoves : Moves body words t words' t' started) (hsound : Sound t) :
    Sound t' ∧ (∀ s ∈ started, Sound s ∧ held (view s) = []) ∧ Effect body words t t' started words' := by
  have hnone : ∀ s ∈ ([] : List (Stack L W)), Sound s ∧ held (view s) = [] := fun s hs => absurd hs List.not_mem_nil
  cases hmoves with
  | skip t => exact ⟨hsound.2, hnone, .keeps rfl fun free => .skip _⟩
  | statement t => exact ⟨hsound.2, hnone, .keeps rfl fun free => .statement _⟩
  | throw t => exact ⟨⟨trivial, hsound.2⟩, hnone, .keeps rfl fun free => .throw _⟩
  | seq first second t => exact ⟨⟨trivial, trivial, hsound.2⟩, hnone, .keeps rfl fun free => .seq _ _ _⟩
  | left left right t => exact ⟨⟨trivial, hsound.2⟩, hnone, .keeps rfl fun free => .left _ _ _⟩
  | right left right t => exact ⟨⟨trivial, hsound.2⟩, hnone, .keeps rfl fun free => .right _ _ _⟩
  | again code t => exact ⟨⟨trivial, trivial, hsound.2⟩, hnone, .keeps rfl fun free => .again _ _⟩
  | leave code t => exact ⟨hsound.2, hnone, .keeps rfl fun free => .leave _ _⟩
  | attempt code handler t => exact ⟨⟨trivial, trivial, hsound.2⟩, hnone, .keeps rfl fun free => .attempt _ _ _⟩
  | start worker t =>
      refine ⟨hsound.2, fun s hs => ?_, .keeps rfl fun free => .start _ _⟩
      rw [List.mem_singleton.mp hs]
      exact ⟨⟨trivial, trivial⟩, rfl⟩
  | past code t => exact ⟨hsound.2, hnone, .keeps rfl fun free => .past _ _⟩
  | spinlock name code t => exact ⟨⟨rfl, hsound.2⟩, hnone, .hides rfl rfl⟩
  | tryspinlock name code t => exact ⟨⟨rfl, hsound.2⟩, hnone, .hides rfl rfl⟩
  | @acquire guard guard' word code t hacquire =>
      obtain ⟨hclear, houtcome⟩ := LocalSpinLock.acquire_eq_some hsound.1 hacquire
      cases houtcome
      exact ⟨⟨trivial, rfl, hsound.2⟩, hnone, .takes guard.lock hclear rfl fun free hfree => .acquire _ _ _ hfree⟩
  | acquireThrows code t hacquire hdestroy =>
      obtain ⟨_, houtcome⟩ := LocalSpinLock.acquire_eq_some hsound.1 hacquire
      cases houtcome
  | @tryAcquire guard guard' word code t hacquire =>
      rcases LocalSpinLock.tryAcquire_eq hsound.1 hacquire with ⟨hclear, houtcome⟩ | ⟨_, houtcome⟩
      · cases houtcome
        exact ⟨⟨trivial, rfl, hsound.2⟩, hnone,
          .takes guard.lock hclear rfl fun free hfree => .tryAcquire _ _ _ hfree⟩
      · cases houtcome
  | @tryFails guard guard' gone word word' code t hacquire hdestroy =>
      rcases LocalSpinLock.tryAcquire_eq hsound.1 hacquire with ⟨_, houtcome⟩ | ⟨hset, houtcome⟩
      · cases houtcome
      · cases houtcome
        rw [LocalSpinLock.destroy_not_acquired rfl] at hdestroy
        cases hdestroy
        rw [← hset, Function.update_eq_self]
        exact ⟨hsound.2, hnone, .keeps rfl fun free => .tryFails _ _ _⟩
  | tryThrows code t hacquire hdestroy =>
      rcases LocalSpinLock.tryAcquire_eq hsound.1 hacquire with ⟨_, houtcome⟩ | ⟨_, houtcome⟩
      · cases houtcome
      · cases houtcome
  | @release guard guard' gone word word' t hrelease hdestroy =>
      rw [LocalSpinLock.release_acquired hsound.1] at hrelease
      cases hrelease
      rw [LocalSpinLock.destroy_not_acquired rfl] at hdestroy
      cases hdestroy
      exact ⟨hsound.2, hnone, .gives guard.lock rfl fun free => .release _ _⟩
  | releaseThrows t hrelease hdestroy =>
      rw [LocalSpinLock.release_acquired hsound.1] at hrelease
      cases hrelease
  | unwindRun code t => exact ⟨⟨trivial, hsound.2.2⟩, hnone, .keeps rfl fun free => .unwindRun _ _⟩
  | unwindUnwind t => exact ⟨⟨trivial, hsound.2.2⟩, hnone, .keeps rfl fun free => .unwindUnwind _⟩
  | @unwindGuard frame guard gone word t hframe hdestroy =>
      have hframeSound := hsound.2.1
      cases frame with
      | acquire _ code | tryAcquire _ code =>
          obtain rfl := Option.some.inj hframe
          rw [LocalSpinLock.destroy_not_acquired hframeSound] at hdestroy
          cases hdestroy
          rw [Function.update_eq_self]
          exact ⟨⟨trivial, hsound.2.2⟩, hnone, .keeps rfl fun free => .unwindRun _ _⟩
      | inside guard' =>
          obtain rfl := Option.some.inj hframe
          rw [LocalSpinLock.destroy_acquired hframeSound] at hdestroy
          cases hdestroy
          exact ⟨⟨trivial, hsound.2.2⟩, hnone, .gives guard'.lock rfl fun free => .unwindRelease _ _⟩
      | run | unwind | handler => cases hframe
  | caught code t => exact ⟨⟨trivial, hsound.2.2⟩, hnone, .keeps rfl fun free => .caught _ _⟩
  | uncaught code t => exact ⟨⟨trivial, hsound.2.2⟩, hnone, .keeps rfl fun free => .uncaught _ _⟩
  | terminate => exact ⟨trivial, hnone, .keeps rfl fun free => .terminate⟩

end

/-! ### One thread holds a lock -/

section

variable {L W : Type} [DecidableEq L] {body : W → Code L W} {signalHandler : Code L W}

/-- In how many blocks of the lock the threads stand. -/
def Machine.inside (machine : Machine L W) (name : L) : Nat := holders machine.view name

/-- Every guard has what it should, and a word is set for each block a thread stands in. -/
structure Machine.Sound (machine : Machine L W) : Prop where
  threads : ∀ t ∈ machine.threads, SpinLock.Sound t
  words : ∀ name, machine.inside name = (machine.words name).toNat

theorem Machine.Sound.free {machine : Machine L W} (hsound : machine.Sound) {name : L}
    (hclear : machine.words name = false) : Lib.Locks.Free machine.view name := by
  rw [Lib.Locks.free_iff, ← Machine.inside, hsound.words, hclear]
  rfl

theorem holders_of_held_nil {threads : Lib.Locks.Threads L W} (h : ∀ t ∈ threads, held t = []) (name : L) :
    holders threads name = 0 := by
  rw [← Lib.Locks.free_iff]
  intro t ht
  rw [h t ht]
  exact List.not_mem_nil

/-- What a thread takes on, all threads together take on. -/
theorem inside_move {machine : Machine L W} {i : Nat} {t t' : Stack L W} {started : List (Stack L W)}
    (ht : machine.threads[i]? = some t) (hstarted : ∀ s ∈ started, held (view s) = []) (words' : L → Bool) (name : L) :
    Machine.inside ⟨words', machine.threads.set i t' ++ started⟩ name + (held (view t)).count name
      = machine.inside name + (held (view t')).count name := by
  have hnone : holders (started.map view) name = 0 := by
    refine holders_of_held_nil (fun t ht => ?_) name
    obtain ⟨s, hs, rfl⟩ := List.mem_map.mp ht
    exact hstarted s hs
  have hset := Lib.Locks.holders_set (getElem?_view ht) (view t') name
  rw [Machine.inside, Machine.view, List.map_append, Lib.Locks.holders_append, hnone, List.map_set]
  exact hset

/-- The words stay right, whatever the move does to the locks of its thread. -/
theorem Effect.words {machine : Machine L W} {words' : L → Bool} {i : Nat} {t t' : Stack L W}
    {started : List (Stack L W)} (heffect : Effect body machine.words t t' started words')
    (ht : machine.threads[i]? = some t) (hstarted : ∀ s ∈ started, held (view s) = []) (hsound : machine.Sound)
    (name : L) : Machine.inside ⟨words', machine.threads.set i t' ++ started⟩ name = (words' name).toNat := by
  have hmove : Machine.inside ⟨words', machine.threads.set i t' ++ started⟩ name + (held (view t)).count name
      = machine.inside name + (held (view t')).count name := inside_move ht hstarted words' name
  have hbefore := hsound.words name
  cases heffect with
  | hides hview hstarted' =>
      rw [hview] at hmove
      omega
  | keeps hheld hview =>
      rw [hheld] at hmove
      omega
  | takes name' hclear hheld hview =>
      rw [hheld] at hmove
      by_cases hname : name' = name
      · subst hname
        rw [List.count_cons_self] at hmove
        rw [hclear] at hbefore
        rw [Function.update_self, Bool.toNat_true]
        rw [Bool.toNat_false] at hbefore
        omega
      · rw [List.count_cons_of_ne hname] at hmove
        rw [Function.update_of_ne (Ne.symm hname)]
        omega
  | gives name' hheld hview =>
      rw [hheld] at hmove
      by_cases hname : name' = name
      · subst hname
        rw [List.count_cons_self] at hmove
        have hone := Bool.toNat_le (machine.words name')
        rw [Function.update_self, Bool.toNat_false]
        omega
      · rw [List.count_cons_of_ne hname] at hmove
        rw [Function.update_of_ne (Ne.symm hname)]
        omega

/-- **A step is one of `Lib.Locks`, or is not seen there.** The lock a thread takes has a clear word, and so no
thread has it. -/
theorem Step.sound {machine machine' : Machine L W} {a : Act}
    (hstep : Step body signalHandler machine a machine') (hsound : machine.Sound) :
    machine'.Sound ∧ (machine'.view = machine.view
      ∨ Lib.Locks.Step body signalHandler machine.view a machine'.view) := by
  cases hstep with
  | @move i t t' words' started ht hmoves =>
      obtain ⟨ht', hstarted, heffect⟩ := hmoves.effect (hsound.threads t (List.mem_of_getElem? ht))
      have hview := getElem?_view ht
      have hafter : Machine.view ⟨words', machine.threads.set i t' ++ started⟩
          = machine.view.set i (view t') ++ started.map view := by
        rw [Machine.view, List.map_append, List.map_set]
        rfl
      refine ⟨⟨fun s hs => ?_, heffect.words ht (fun s hs => (hstarted s hs).2) hsound⟩, ?_⟩
      · rcases List.mem_append.mp hs with hset | hnew
        · rcases List.mem_or_eq_of_mem_set hset with hold | rfl
          · exact hsound.threads s hold
          · exact ht'
        · exact (hstarted s hnew).1
      · rw [hafter]
        cases heffect with
        | hides hsame hnone =>
            left
            rw [hsame, hnone, List.map_nil, List.append_nil]
            obtain ⟨hi, hget⟩ := List.getElem?_eq_some_iff.mp hview
            rw [← hget]
            exact List.set_getElem_self hi
        | keeps _ hmove => exact .inr (.move hview (hmove _))
        | takes name hclear _ hmove => exact .inr (.move hview (hmove _ (hsound.free hclear)))
        | gives name _ hmove => exact .inr (.move hview (hmove _))
  | @signal i t ht hne =>
      have hview := getElem?_view ht
      have hafter : Machine.view ⟨machine.words, machine.threads.set i (.run signalHandler :: t)⟩
          = machine.view.set i (.run signalHandler :: view t) := by
        rw [Machine.view, List.map_set]
        rfl
      refine ⟨⟨fun s hs => ?_, fun name => ?_⟩, ?_⟩
      · rcases List.mem_or_eq_of_mem_set hs with hold | rfl
        · exact hsound.threads s hold
        · exact ⟨trivial, hsound.threads t (List.mem_of_getElem? ht)⟩
      · have hset := Lib.Locks.holders_set hview (.run signalHandler :: view t) name
        rw [Lib.Locks.held_run] at hset
        rw [Machine.inside, hafter, ← hsound.words name, Machine.inside]
        omega
      · rw [hafter]
        exact .inr (.signal hview fun hnil => hne (List.map_eq_nil_iff.mp hnil))

end

/-! ### The proxy -/

section

open Threads (LockName Worker)

variable (logging : Bool)

/-- The proxy when it has started, with all locks free. -/
def start : Machine LockName Worker where
  words _ := false
  threads := [[.run (Threads.main logging)]]

abbrev Runs : List Act → Machine LockName Worker → Prop :=
  Lib.Run (Step (Threads.worker logging) (Threads.receivedSignal logging)) (start logging)

variable {logging}

/-- What the proxy does on its spin locks is a run on those of `Lib.Locks`. -/
theorem run_view {acts : List Act} {machine : Machine LockName Worker} (hruns : Runs logging acts machine) :
    machine.Sound ∧ ∃ acts', Threads.Runs logging acts' machine.view := by
  refine Lib.Run.invariant (fun machine => machine.Sound ∧ ∃ acts', Threads.Runs logging acts' machine.view)
    ?_ ?_ hruns
  · refine ⟨⟨fun t ht => ?_, fun name => rfl⟩, [], .nil⟩
    rw [List.mem_singleton.mp ht]
    exact ⟨trivial, trivial⟩
  · intro machine a machine' hinv hstep
    obtain ⟨hsound, acts', hview⟩ := hinv
    obtain ⟨hsound', hsame | hmove⟩ := hstep.sound hsound
    · exact ⟨hsound', acts', hsame ▸ hview⟩
    · exact ⟨hsound', acts' ++ [a], hview.snoc hmove⟩

/-- **A lock has one holder.** However the threads take turns, and wherever exceptions and signals come, at
most one thread stands in a block of a lock, and the word of the lock is set exactly while one does. -/
theorem one_holder {acts : List Act} {machine : Machine LockName Worker} (hruns : Runs logging acts machine)
    (name : LockName) : machine.inside name ≤ 1 ∧ (machine.words name = true ↔ machine.inside name = 1) := by
  have hwords := (run_view hruns).1.words name
  cases hword : machine.words name with
  | true =>
      rw [hword, Bool.toNat_true] at hwords
      exact ⟨Nat.le_of_eq hwords, fun _ => hwords, fun _ => rfl⟩
  | false =>
      rw [hword, Bool.toNat_false] at hwords
      rw [hwords]
      exact ⟨Nat.zero_le 1, by decide⟩

/-- The main thread in its first `log_info`, with the console locked. -/
theorem one_holder_logInfo : ∃ machine, Runs true [.move 0, .move 0, .move 0, .move 0, .move 0] machine
    ∧ machine.words .consoleLock = true ∧ machine.inside .consoleLock = 1 := by
  have hrun : ∃ machine, Runs true [.move 0, .move 0, .move 0, .move 0, .move 0] machine
      ∧ machine.words .consoleLock = true := by
    refine ⟨_, ((((Lib.Run.single (.move rfl (.seq _ _ _))).snoc (.move rfl (.attempt _ _ _))).snoc
      (.move rfl (.seq _ _ _))).snoc (.move rfl (.spinlock LockName.consoleLock .statement _))).snoc
      (.move rfl (.acquire _ _ rfl)), ?_⟩
    rfl
  obtain ⟨machine, hrun, hword⟩ := hrun
  exact ⟨machine, hrun, hword, (one_holder hrun .consoleLock).2.mp hword⟩

end

end SpinLock

end Armore.Proxy
