import Armore.Lib.Latest
import Armore.Lib.Run
import Armore.Lib.Table
import Armore.Proxy.Frame

/-!
# The active clients of the ZeroMQ server

`m_clients` keeps for every client when `UpdateClientActivityTime` was last called for it, and
`CheckActiveClients` erases the clients for which that is too long ago. Both functions read the clock
before they take the lock, so what they write and what they compare with may be older than what other
threads have written in between.

`UpdateClientActivityTime` is called for a message received from a client and for a buffer sent to it: the
activity that counts is of either kind, and a buffer that waited in the queue brings a client back.
-/

namespace Armore.Proxy.ActiveClients

/-- Where a thread stands: in `zmq_poll`; in `ReceiveNextBuffer` with a client and the time read for it, or
behind `UpdateClientActivityTime` there; in `CheckActiveClients` with the time read; in the loop of
`SendQueuedBuffers`, or there with a client and the time read for it. -/
inductive Place
  | polling
  | receiving (connectionID : UUID) (now : Int)
  | received
  | checking (now : Int)
  | sending (workingBuffers : List (UUID × Buffer))
  | updating (connectionID : UUID) (now : Int) (workingBuffers : List (UUID × Buffer))

/-- `now` is what `time` returns. A thread that has not been created yet is one that does not move. -/
structure Server where
  now : Int
  clients : Lib.Table UUID Int
  sendBuffers : List (UUID × Buffer)
  threads : Nat → Place

namespace Server

def start (now : Int) : Server := ⟨now, ∅, [], fun _ => .polling⟩

def advance (s : Server) (thread : Nat) (place : Place) : Server :=
  { s with threads := Function.update s.threads thread place }

@[simp] theorem threads_advance (s : Server) (thread : Nat) (place : Place) :
    (s.advance thread place).threads = Function.update s.threads thread place := rfl

/-- The section of `UpdateClientActivityTime` under the lock; a new client and a known one get the same
entry. -/
def updateClientActivityTime (s : Server) (connectionID : UUID) (now : Int) : Server :=
  { s with clients := s.clients.put connectionID now }

/-- The section of `CheckActiveClients` under the lock. -/
def checkActiveClients (s : Server) (inactiveClientTimeout now : Int) : Server :=
  { s with clients := s.clients.sweep fun lastActivity => inactiveClientTimeout < now - lastActivity }

end Server

/-- The steps of the clock, of the callers of `SendBuffer` and of the poll threads. A call of `SendBuffer`
to all clients is one for each of them. -/
inductive Act
  | tick (seconds : Nat)
  | sendBuffer (connectionID : UUID) (buffer : Buffer)
  | receive (thread : Nat) (connectionID : UUID) (now : Int)
  | takeBuffers (thread : Nat)
  | send (thread : Nat) (connectionID : UUID) (buffer : Buffer) (now : Int)
  | update (thread : Nat) (connectionID : UUID) (now : Int)
  | readTime (thread : Nat) (now : Int)
  | checkActiveClients (thread : Nat) (now : Int)
  | finish (thread : Nat)

/-- One step. Receiving and sending go up to the time that `UpdateClientActivityTime` reads; when the timer
has fired is not followed, so a thread that has received may check the clients or not. -/
inductive Step (inactiveClientTimeout : Int) : Server → Act → Server → Prop
  | tick (s : Server) (seconds : Nat) :
      Step inactiveClientTimeout s (.tick seconds) { s with now := s.now + seconds }
  | sendBuffer (s : Server) {connectionID : UUID} (buffer : Buffer) : connectionID.isEmpty = false →
      Step inactiveClientTimeout s (.sendBuffer connectionID buffer)
        { s with sendBuffers := s.sendBuffers ++ [(connectionID, buffer)] }
  | receive {s : Server} {thread : Nat} (connectionID : UUID) : s.threads thread = .polling →
      Step inactiveClientTimeout s (.receive thread connectionID s.now)
        (s.advance thread (.receiving connectionID s.now))
  | updateReceived {s : Server} {thread : Nat} {connectionID : UUID} {now : Int} :
      s.threads thread = .receiving connectionID now →
      Step inactiveClientTimeout s (.update thread connectionID now)
        ((s.updateClientActivityTime connectionID now).advance thread .received)
  | readTime {s : Server} {thread : Nat} : s.threads thread = .received →
      Step inactiveClientTimeout s (.readTime thread s.now) (s.advance thread (.checking s.now))
  | checkActiveClients {s : Server} {thread : Nat} {now : Int} : s.threads thread = .checking now →
      Step inactiveClientTimeout s (.checkActiveClients thread now)
        ((s.checkActiveClients inactiveClientTimeout now).advance thread .polling)
  | takeBuffers {s : Server} {thread : Nat} : s.threads thread = .polling →
      Step inactiveClientTimeout s (.takeBuffers thread)
        ({ s with sendBuffers := [] }.advance thread (.sending s.sendBuffers))
  | send {s : Server} {thread : Nat} {connectionID : UUID} {buffer : Buffer}
      {workingBuffers : List (UUID × Buffer)} :
      s.threads thread = .sending ((connectionID, buffer) :: workingBuffers) →
      Step inactiveClientTimeout s (.send thread connectionID buffer s.now)
        (s.advance thread (.updating connectionID s.now workingBuffers))
  | updateSent {s : Server} {thread : Nat} {connectionID : UUID} {now : Int}
      {workingBuffers : List (UUID × Buffer)} :
      s.threads thread = .updating connectionID now workingBuffers →
      Step inactiveClientTimeout s (.update thread connectionID now)
        ((s.updateClientActivityTime connectionID now).advance thread (.sending workingBuffers))
  | finish {s : Server} {thread : Nat} : s.threads thread = .received ∨ s.threads thread = .sending [] →
      Step inactiveClientTimeout s (.finish thread) (s.advance thread .polling)

abbrev Runs (inactiveClientTimeout start : Int) : List Act → Server → Prop :=
  Lib.Run (Step inactiveClientTimeout) (.start start)

/-- The client that is active in a step, and when. -/
def Act.active : Act → Option (UUID × Int)
  | .receive _ connectionID now | .send _ connectionID _ now => some (connectionID, now)
  | .tick _ | .sendBuffer _ _ | .takeBuffers _ | .update _ _ _ | .readTime _ _ | .checkActiveClients _ _
  | .finish _ => none

/-- The thread that takes a step. -/
def Act.thread : Act → Option Nat
  | .tick _ | .sendBuffer _ _ => none
  | .receive thread _ _ | .takeBuffers thread | .send thread _ _ _ | .update thread _ _
  | .readTime thread _ | .checkActiveClients thread _ | .finish thread => some thread

/-- The entry that a thread is about to write. -/
def Place.noted : Place → Option (UUID × Int)
  | .receiving connectionID now | .updating connectionID now _ => some (connectionID, now)
  | .polling | .received | .checking _ | .sending _ => none

/-- The last step of the thread made the client active. -/
def Follows (acts : List Act) (thread : Nat) (entry : UUID × Int) : Prop :=
  ∃ k, Lib.Latest (fun act => act.thread = some thread) acts k ∧ acts[k]?.bind Act.active = some entry

/-- Every entry, written or about to be written, is of a client that was active then. -/
structure Recorded (acts : List Act) (s : Server) : Prop where
  clients : ∀ (client : UUID) (lastActivity : Int), s.clients.get? client = some lastActivity →
    ∃ act ∈ acts, act.active = some (client, lastActivity)
  threads : ∀ (thread : Nat) (entry : UUID × Int), (s.threads thread).noted = some entry →
    Follows acts thread entry

theorem Follows.mem {acts : List Act} {thread : Nat} {entry : UUID × Int}
    (hfollows : Follows acts thread entry) : ∃ act ∈ acts, act.active = some entry := by
  obtain ⟨k, _, hentry⟩ := hfollows
  obtain ⟨act, hact, hactive⟩ := Option.bind_eq_some_iff.mp hentry
  exact ⟨act, List.mem_of_getElem? hact, hactive⟩

theorem Follows.snoc {acts : List Act} {act : Act} {thread : Nat} {entry : UUID × Int}
    (hfollows : Follows acts thread entry) (hother : act.thread ≠ some thread) :
    Follows (acts ++ [act]) thread entry := by
  obtain ⟨k, hlatest, hentry⟩ := hfollows
  refine ⟨k, hlatest.snoc hother, ?_⟩
  rw [List.getElem?_append_left hlatest.lt_length]
  exact hentry

theorem follows_snoc {acts : List Act} {act : Act} {thread : Nat} {entry : UUID × Int}
    (hthread : act.thread = some thread) (hactive : act.active = some entry) :
    Follows (acts ++ [act]) thread entry := by
  refine ⟨acts.length, Lib.Latest.snoc_self hthread, ?_⟩
  rw [Lib.getElem?_snoc_length]
  exact hactive

/-! ### One step -/

/-- A step of a thread that writes no entry, or the one it is about to write. -/
theorem Recorded.advance {acts : List Act} {s s' : Server} {act : Act} {thread : Nat} {place : Place}
    (hs : Recorded acts s) (hthread : act.thread = some thread) (hthreads : s'.threads = s.threads)
    (hclients : ∀ (client : UUID) (lastActivity : Int), s'.clients.get? client = some lastActivity →
      s.clients.get? client = some lastActivity ∨ (s.threads thread).noted = some (client, lastActivity))
    (hplace : place.noted = none ∨ place.noted = act.active) :
    Recorded (acts ++ [act]) (s'.advance thread place) := by
  constructor
  · intro client lastActivity hget
    have hbefore : ∃ act ∈ acts, act.active = some (client, lastActivity) := by
      rcases hclients client lastActivity hget with hget | hnoted
      · exact hs.clients client lastActivity hget
      · exact (hs.threads thread _ hnoted).mem
    obtain ⟨act', hmem, hactive⟩ := hbefore
    exact ⟨act', List.mem_append_left _ hmem, hactive⟩
  · intro other entry hnoted
    by_cases hother : other = thread
    · obtain rfl := hother
      rw [Server.threads_advance, Function.update_self] at hnoted
      rcases hplace with hplace | hplace
      · rw [hplace] at hnoted
        cases hnoted
      · exact follows_snoc hthread (hplace ▸ hnoted)
    · rw [Server.threads_advance, Function.update_of_ne hother, hthreads] at hnoted
      apply (hs.threads other entry hnoted).snoc
      rw [hthread]
      exact fun h => hother (Option.some.inj h).symm

/-- A step of no thread. -/
theorem Recorded.other {acts : List Act} {s s' : Server} {act : Act} (hs : Recorded acts s)
    (hthread : act.thread = none) (hclients : s'.clients = s.clients) (hthreads : s'.threads = s.threads) :
    Recorded (acts ++ [act]) s' := by
  constructor
  · intro client lastActivity hget
    obtain ⟨act', hmem, hactive⟩ := hs.clients client lastActivity (hclients ▸ hget)
    exact ⟨act', List.mem_append_left _ hmem, hactive⟩
  · intro thread entry hnoted
    apply (hs.threads thread entry (hthreads ▸ hnoted)).snoc
    rw [hthread]
    exact (Option.some_ne_none thread).symm

theorem get?_updateClientActivityTime {s : Server} {connectionID : UUID} {now : Int} {client : UUID}
    {lastActivity : Int}
    (hget : (s.updateClientActivityTime connectionID now).clients.get? client = some lastActivity) :
    s.clients.get? client = some lastActivity ∨ some (connectionID, now) = some (client, lastActivity) := by
  rw [Server.updateClientActivityTime, Lib.Table.get?_put] at hget
  split at hget
  · subst_vars
    cases hget
    exact Or.inr rfl
  · exact Or.inl hget

theorem get?_checkActiveClients {s : Server} {inactiveClientTimeout now : Int} {client : UUID}
    {lastActivity : Int}
    (hget : (s.checkActiveClients inactiveClientTimeout now).clients.get? client = some lastActivity) :
    s.clients.get? client = some lastActivity ∧ now - lastActivity ≤ inactiveClientTimeout := by
  rw [Server.checkActiveClients, Lib.Table.get?_sweep, Option.filter_eq_some_iff] at hget
  refine ⟨hget.1, ?_⟩
  simpa using hget.2

theorem recorded_step {inactiveClientTimeout : Int} {acts : List Act} {s s' : Server} {act : Act}
    (hs : Recorded acts s) (hstep : Step inactiveClientTimeout s act s') : Recorded (acts ++ [act]) s' := by
  cases hstep with
  | tick | sendBuffer => exact hs.other rfl rfl rfl
  | receive | send => exact hs.advance rfl rfl (fun _ _ => Or.inl) (Or.inr rfl)
  | readTime | takeBuffers | finish => exact hs.advance rfl rfl (fun _ _ => Or.inl) (Or.inl rfl)
  | updateReceived hplace | updateSent hplace =>
      refine hs.advance rfl rfl ?_ (Or.inl rfl)
      intro client lastActivity hget
      rw [hplace]
      exact get?_updateClientActivityTime hget
  | checkActiveClients =>
      refine hs.advance rfl rfl ?_ (Or.inl rfl)
      intro client lastActivity hget
      exact Or.inl (get?_checkActiveClients hget).1

theorem recorded {inactiveClientTimeout start : Int} {acts : List Act} {s : Server}
    (hrun : Runs inactiveClientTimeout start acts s) : Recorded acts s := by
  apply Lib.Run.history_invariant Recorded _ (fun _ _ _ _ _ hs => recorded_step hs) hrun
  constructor
  · intro client lastActivity hget
    cases hget
  · intro thread entry hnoted
    cases hnoted

/-- What a check leaves was there before it and is not too old. -/
theorem left_by_check {inactiveClientTimeout : Int} {s s' : Server} {thread : Nat} {now : Int}
    (hstep : Step inactiveClientTimeout s (.checkActiveClients thread now) s') {client : UUID}
    {lastActivity : Int} (hleft : s'.clients.get? client = some lastActivity) :
    s.clients.get? client = some lastActivity ∧ now - lastActivity ≤ inactiveClientTimeout := by
  cases hstep
  exact get?_checkActiveClients hleft

/-- A client enters by the update of a thread that has noted it. -/
theorem entered {inactiveClientTimeout : Int} {s s' : Server} {act : Act}
    (hstep : Step inactiveClientTimeout s act s') {client : UUID} (hout : client ∉ s.clients)
    (hin : client ∈ s'.clients) :
    ∃ thread now, act = .update thread client now ∧ (s.threads thread).noted = some (client, now) := by
  rw [← Lib.Table.get?_isSome] at hin hout
  obtain ⟨lastActivity, hget⟩ := Option.isSome_iff_exists.mp hin
  have hnone : s.clients.get? client ≠ some lastActivity := by
    intro hsome
    exact hout (Option.isSome_iff_exists.mpr ⟨_, hsome⟩)
  cases hstep with
  | tick | sendBuffer | receive | send | readTime | takeBuffers | finish => exact absurd hget hnone
  | checkActiveClients => exact absurd (get?_checkActiveClients hget).1 hnone
  | updateReceived hplace | updateSent hplace =>
      obtain hget | hentry := get?_updateClientActivityTime hget
      · exact absurd hget hnone
      · cases hentry
        exact ⟨_, _, rfl, hplace ▸ rfl⟩

/-- Immediately after a check at a time, every client left was active, by a message received from it or a
buffer sent to it, at a time that is no more than the timeout before; and a client that is not in the table
enters it only by the update that a thread makes next after receiving from it or sending to it. -/
theorem evicts_inactive {inactiveClientTimeout start : Int} {acts : List Act} {s : Server}
    (hrun : Runs inactiveClientTimeout start acts s) {act : Act} {s' : Server}
    (hstep : Step inactiveClientTimeout s act s') :
    (∀ (thread : Nat) (now : Int), act = .checkActiveClients thread now → ∀ client ∈ s'.clients,
      ∃ lastActivity, (∃ act ∈ acts, act.active = some (client, lastActivity)) ∧
        now - lastActivity ≤ inactiveClientTimeout) ∧
    (∀ client, client ∉ s.clients → client ∈ s'.clients →
      ∃ thread now, act = .update thread client now ∧ Follows acts thread (client, now)) := by
  have hs := recorded hrun
  constructor
  · rintro thread now rfl client hleft
    obtain ⟨lastActivity, hget⟩ := Option.isSome_iff_exists.mp (Lib.Table.get?_isSome.mpr hleft)
    obtain ⟨hbefore, hrecent⟩ := left_by_check hstep hget
    exact ⟨lastActivity, hs.clients client lastActivity hbefore, hrecent⟩
  · intro client hout hin
    obtain ⟨thread, now, rfl, hnoted⟩ := entered hstep hout hin
    exact ⟨thread, now, rfl, hs.threads thread _ hnoted⟩

def payload : Buffer := .single 7

def client : UUID := .replicate 1

def other : UUID := .replicate 2

/-- The client is received from and has a buffer queued for it, which a second thread takes. -/
def taken : List Act :=
  [.receive 0 client 0, .update 0 client 0, .sendBuffer client payload, .takeBuffers 1]

/-- The buffer is sent after 50 seconds, and 20 seconds later another client makes a third thread check. -/
def sentBeforeCheck : List Act :=
  taken ++ [.tick 50, .send 1 client payload 50, .update 1 client 50, .tick 20, .receive 2 other 70,
    .update 2 other 70, .readTime 2 70]

/-- The check comes after 61 seconds, and the buffer is sent after it. -/
def checkedBeforeSend : List Act :=
  taken ++ [.tick 61, .receive 2 other 61, .update 2 other 61, .readTime 2 61, .checkActiveClients 2 61]

/-- A client that was only sent to is left, and one that was erased is back without a message from it. -/
theorem sending_is_activity :
    (∃ s s', Runs 60 0 sentBeforeCheck s ∧ Step 60 s (.checkActiveClients 2 70) s' ∧
      client ∈ s'.clients ∧ ∀ thread now, .receive thread client now ∈ sentBeforeCheck → 60 < 70 - now) ∧
    (∃ s s', Runs 60 0 checkedBeforeSend s ∧ client ∉ s.clients ∧
      Lib.Run (Step 60) s [.send 1 client payload 61, .update 1 client 61] s' ∧ client ∈ s'.clients) := by
  have hreceived : Runs 60 0 [.receive 0 client 0] _ := .single (@Step.receive _ _ 0 client rfl)
  have hupdated := hreceived.snoc (@Step.updateReceived _ _ 0 client 0 rfl)
  have hqueued := hupdated.snoc (Step.sendBuffer _ payload (by decide : client.isEmpty = false))
  have htaken := hqueued.snoc (@Step.takeBuffers _ _ 1 rfl)
  constructor
  · have hsent := (htaken.snoc (Step.tick _ 50)).snoc (@Step.send _ _ 1 client payload [] rfl)
    have hlater := (hsent.snoc (@Step.updateSent _ _ 1 client 50 [] rfl)).snoc (Step.tick _ 20)
    have hother := (hlater.snoc (@Step.receive _ _ 2 other rfl)).snoc (@Step.updateReceived _ _ 2 other 70 rfl)
    refine ⟨_, _, hother.snoc (@Step.readTime _ _ 2 rfl), @Step.checkActiveClients _ _ 2 70 rfl, by decide, ?_⟩
    intro thread now hmem
    have hdistinct : client ≠ other := by decide
    simp only [sentBeforeCheck, taken, List.mem_append, List.mem_cons, Act.receive.injEq, hdistinct,
      reduceCtorEq, List.not_mem_nil, false_and, and_false, or_false, true_and] at hmem
    omega
  · have hother := ((htaken.snoc (Step.tick _ 61)).snoc (@Step.receive _ _ 2 other rfl)).snoc
      (@Step.updateReceived _ _ 2 other 61 rfl)
    have hchecked := (hother.snoc (@Step.readTime _ _ 2 rfl)).snoc (@Step.checkActiveClients _ _ 2 61 rfl)
    exact ⟨_, _, hchecked, by decide, .snoc (.single (@Step.send _ _ 1 client payload [] rfl))
      (@Step.updateSent _ _ 1 client 61 [] rfl), by decide⟩

theorem evicts_inactive_greeted :
    (∃ thread now, Act.update 0 client 0 = .update thread client now ∧
      Follows [.receive 0 client 0] thread (client, now)) ∧
    ∃ lastActivity, (∃ act ∈ [Act.receive 0 client 0, .update 0 client 0, .readTime 0 0],
      act.active = some (client, lastActivity)) ∧ 0 - lastActivity ≤ 60 := by
  have hreceived : Runs 60 0 [.receive 0 client 0] ((Server.start 0).advance 0 (.receiving client 0)) :=
    .single (@Step.receive _ _ 0 client rfl)
  have hentered := hreceived.snoc (@Step.updateReceived _ _ 0 client 0 rfl)
  have htimed := hentered.snoc (@Step.readTime _ _ 0 rfl)
  constructor
  · exact (evicts_inactive hreceived (@Step.updateReceived _ _ 0 client 0 rfl)).2 client (by decide) (by decide)
  · exact (evicts_inactive htimed (@Step.checkActiveClients _ _ 0 0 rfl)).1 0 0 rfl client (by decide)

end Armore.Proxy.ActiveClients
