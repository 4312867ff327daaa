import Armore.Lib.Mailbox
import Armore.Lib.Pool
import Armore.Lib.Run
import Armore.Proxy.Frame
import Mathlib.Data.List.Perm.Basic

/-!
# The send queue of the ZeroMQ server

`SendBuffer` queues a copy of a buffer for a client and raises the event descriptor; any number of threads
run `SocketPollHandler`, and one that sees the descriptor readable tries the lock, takes everything that is
queued and sends it on its own socket. The sections under the two locks are one step each, `TryAcquire`
may fail at any time, and the server stays enabled: `Dispose` is not a step.

A copy is one object from `SendBuffer` to `zmsg_send`. Its serial number and the thread that asked for it
are no part of the pair in the vector; they tell the copies apart, as their addresses do.
-/

namespace Armore.Proxy.SendQueue

open Lib (Mailbox)

/-- An entry of `m_sendBuffers`. -/
structure Copy where
  serial : Nat
  caller : Nat
  connectionID : UUID
  buffer : Buffer

/-- Where a thread stands in `SocketPollHandler`: in or before `zmq_poll`, behind it with the descriptor
readable, in the loop over its working list, or there between `zmsg_send` and
`UpdateClientActivityTime`. -/
inductive PollThread
  | polling
  | readable
  | sending (workingBuffers : List Copy)
  | updating (connectionID : UUID) (workingBuffers : List Copy)

def PollThread.workingBuffers : PollThread → List Copy
  | .polling | .readable => []
  | .sending workingBuffers | .updating _ workingBuffers => workingBuffers

/-- The keys of `m_clients`, `m_socketPollThreadPool`, and `m_sendBuffers` with the counter of
`m_fileDescriptor`; `copied` counts the copies made. -/
structure Server where
  clients : List UUID
  pool : List PollThread
  sendBuffers : Mailbox Copy
  copied : Nat

def maxThreadPoolSize : Nat := 20

namespace Server

/-- A server with some poll threads; `Initialize` creates one. -/
def start (threads : Nat) : Server := ⟨[], List.replicate threads .polling, .empty, 0⟩

/-- `SendBuffer` for a client. -/
def sendBuffer (s : Server) (caller : Nat) (connectionID : UUID) (buffer : Buffer) : Server :=
  { s with
    sendBuffers := s.sendBuffers.put ⟨s.copied, caller, connectionID, buffer⟩
    copied := s.copied + 1 }

/-- The part of `UpdateClientActivityTime` that is not about time. -/
def updateClientActivityTime (s : Server) (connectionID : UUID) : Server :=
  if connectionID ∈ s.clients then s
  else
    let clients := s.clients ++ [connectionID]
    if s.pool.length < maxThreadPoolSize ∧ clients.length > s.pool.length then
      { s with clients, pool := s.pool ++ [.polling] }
    else { s with clients }

/-- A thread moves on. -/
def advance (s : Server) (thread : Nat) (place : PollThread) : Server :=
  { s with pool := s.pool.set thread place }

/-- The section of `SendQueuedBuffers` under the lock; `none` where the read of the descriptor blocks. -/
def takeBuffers (s : Server) (thread : Nat) : Option Server :=
  s.sendBuffers.swap.map fun (workingBuffers, sendBuffers) =>
    { s with sendBuffers }.advance thread (.sending workingBuffers)

/-- What has been taken and not sent. -/
def pending (s : Server) : List Copy := s.pool.flatMap PollThread.workingBuffers

/-- Every thread is in `zmq_poll` and the descriptor is not readable. -/
def Quiet (s : Server) : Prop :=
  (∀ thread ∈ s.pool, thread = .polling) ∧ ¬ s.sendBuffers.Readable

end Server

/-- The steps of the callers of `SendBuffer` and of the poll threads. -/
inductive Act
  | sendBuffer (caller : Nat) (connectionID : UUID) (buffer : Buffer)
  | poll (thread : Nat)
  | receiveNextBuffer (thread : Nat) (connectionID : UUID)
  | checkActiveClients (expired : UUID → Bool)
  | failToAcquire (thread : Nat)
  | takeBuffers (thread : Nat)
  | send (thread : Nat) (copy : Copy)
  | updateClientActivityTime (thread : Nat)
  | finish (thread : Nat)

/-- One step of any thread. -/
inductive Step : Server → Act → Server → Prop
  | sendBuffer (s : Server) (caller : Nat) {connectionID : UUID} (buffer : Buffer) :
      connectionID.isEmpty = false →
      Step s (.sendBuffer caller connectionID buffer) (s.sendBuffer caller connectionID buffer)
  | poll {s : Server} {thread : Nat} : s.pool[thread]? = some .polling → s.sendBuffers.Readable →
      Step s (.poll thread) (s.advance thread .readable)
  | receiveNextBuffer {s : Server} {thread : Nat} (connectionID : UUID) :
      s.pool[thread]? = some .polling ∨ s.pool[thread]? = some .readable →
      Step s (.receiveNextBuffer thread connectionID) (s.updateClientActivityTime connectionID)
  | checkActiveClients (s : Server) (expired : UUID → Bool) :
      Step s (.checkActiveClients expired)
        { s with clients := s.clients.filter fun client => !expired client }
  | failToAcquire {s : Server} {thread : Nat} : s.pool[thread]? = some .readable →
      Step s (.failToAcquire thread) (s.advance thread .polling)
  | takeBuffers {s s' : Server} {thread : Nat} : s.pool[thread]? = some .readable →
      s.takeBuffers thread = some s' → Step s (.takeBuffers thread) s'
  | send {s : Server} {thread : Nat} {copy : Copy} {workingBuffers : List Copy} :
      s.pool[thread]? = some (.sending (copy :: workingBuffers)) →
      Step s (.send thread copy) (s.advance thread (.updating copy.connectionID workingBuffers))
  | updateClientActivityTime {s : Server} {thread : Nat} {connectionID : UUID}
      {workingBuffers : List Copy} :
      s.pool[thread]? = some (.updating connectionID workingBuffers) →
      Step s (.updateClientActivityTime thread)
        ((s.updateClientActivityTime connectionID).advance thread (.sending workingBuffers))
  | finish {s : Server} {thread : Nat} : s.pool[thread]? = some (.sending []) →
      Step s (.finish thread) (s.advance thread .polling)

/-- The runs of a server that starts with some poll threads. -/
abbrev Runs (threads : Nat) : List Act → Server → Prop := Lib.Run Step (.start threads)

/-- The calls of `SendBuffer`, in the order in which they queued. -/
def requested (acts : List Act) : List (Nat × UUID × Buffer) :=
  acts.filterMap fun
    | .sendBuffer caller connectionID buffer => some (caller, connectionID, buffer)
    | _ => none

/-- The copies they queued. -/
def copies (acts : List Act) : List Copy :=
  (requested acts).zipIdx.map fun ((caller, connectionID, buffer), serial) =>
    ⟨serial, caller, connectionID, buffer⟩

/-- The calls of `zmsg_send` in order, with the thread that made each. -/
def sent (acts : List Act) : List (Nat × Copy) :=
  acts.filterMap fun
    | .send thread copy => some (thread, copy)
    | _ => none

/-! ### What a step does to the three places of a copy -/

theorem pending_advance {s : Server} {thread : Nat} {old : PollThread}
    (hthread : s.pool[thread]? = some old) (place : PollThread) :
    ((s.advance thread place).pending ++ old.workingBuffers).Perm
      (s.pending ++ place.workingBuffers) :=
  Lib.Pool.flatMap_set_perm _ hthread place

theorem pool_updateClientActivityTime (s : Server) (connectionID : UUID) :
    (s.updateClientActivityTime connectionID).pool = s.pool
      ∨ (s.updateClientActivityTime connectionID).pool = s.pool ++ [.polling] := by
  unfold Server.updateClientActivityTime
  dsimp only
  split
  · exact .inl rfl
  · split
    · exact .inr rfl
    · exact .inl rfl

@[simp] theorem sendBuffers_updateClientActivityTime (s : Server) (connectionID : UUID) :
    (s.updateClientActivityTime connectionID).sendBuffers = s.sendBuffers := by
  unfold Server.updateClientActivityTime
  dsimp only
  split
  · rfl
  · split <;> rfl

@[simp] theorem copied_updateClientActivityTime (s : Server) (connectionID : UUID) :
    (s.updateClientActivityTime connectionID).copied = s.copied := by
  unfold Server.updateClientActivityTime
  dsimp only
  split
  · rfl
  · split <;> rfl

@[simp] theorem pending_updateClientActivityTime (s : Server) (connectionID : UUID) :
    (s.updateClientActivityTime connectionID).pending = s.pending := by
  unfold Server.pending
  rcases pool_updateClientActivityTime s connectionID with hpool | hpool
  · rw [hpool]
  · rw [hpool, List.flatMap_append]
    exact List.append_nil _

theorem getElem?_updateClientActivityTime {s : Server} {thread : Nat} {place : PollThread}
    (hthread : s.pool[thread]? = some place) (connectionID : UUID) :
    (s.updateClientActivityTime connectionID).pool[thread]? = some place := by
  rcases pool_updateClientActivityTime s connectionID with hpool | hpool
  · rw [hpool, hthread]
  · rw [hpool, List.getElem?_append_left (List.getElem?_eq_some_iff.mp hthread).1, hthread]

/-! ### The invariant -/

/-- What every interleaving keeps. -/
structure SendsOnce (acts : List Act) (s : Server) : Prop where
  balanced : s.sendBuffers.Balanced
  copied : s.copied = (requested acts).length
  once : ((sent acts).map Prod.snd ++ s.pending ++ s.sendBuffers.waiting).Perm (copies acts)

theorem sendsOnce_start (threads : Nat) : SendsOnce [] (.start threads) where
  balanced := Lib.Mailbox.balanced_empty
  copied := rfl
  once := by
    have hpending : (Server.start threads).pending = [] := by
      apply List.flatMap_eq_nil_iff.mpr
      intro thread hthread
      rw [List.eq_of_mem_replicate hthread]
      rfl
    rw [hpending]
    exact .refl _

theorem requested_snoc (acts : List Act) (act : Act) :
    requested (acts ++ [act]) = requested acts ++ requested [act] :=
  List.filterMap_append

theorem sent_snoc (acts : List Act) (act : Act) : sent (acts ++ [act]) = sent acts ++ sent [act] :=
  List.filterMap_append

theorem copies_of_requested_nil {acts : List Act} {act : Act} (hact : requested [act] = []) :
    copies (acts ++ [act]) = copies acts := by
  rw [copies, requested_snoc, hact, List.append_nil, copies]

theorem copies_sendBuffer (acts : List Act) (caller : Nat) (connectionID : UUID) (buffer : Buffer) :
    copies (acts ++ [.sendBuffer caller connectionID buffer])
      = copies acts ++ [⟨(requested acts).length, caller, connectionID, buffer⟩] := by
  rw [copies, requested_snoc, List.zipIdx_append, List.map_append, Nat.zero_add, copies]
  rfl

/-- What a thread sends is the one thing that is no longer pending. -/
theorem perm_of_sent {pending pending' workingBuffers : List Copy} {copy : Copy}
    (hmoved : (pending' ++ (copy :: workingBuffers)).Perm (pending ++ workingBuffers)) :
    (copy :: pending').Perm pending := by
  rw [List.append_cons] at hmoved
  have hfirst : ([copy] ++ pending').Perm (pending' ++ [copy]) := List.perm_append_comm
  exact hfirst.trans ((List.perm_append_right_iff _).mp hmoved)

/-- A step of a poll thread that takes nothing and sends nothing. -/
theorem SendsOnce.moved {acts : List Act} {s s' : Server} {act : Act} (hs : SendsOnce acts s)
    (hrequested : requested [act] = []) (hsent : sent [act] = [])
    (hwaiting : s'.sendBuffers = s.sendBuffers) (hcopied : s'.copied = s.copied)
    (hpending : s'.pending.Perm s.pending) : SendsOnce (acts ++ [act]) s' where
  balanced := hwaiting ▸ hs.balanced
  copied := by rw [hcopied, hs.copied, requested_snoc, hrequested, List.append_nil]
  once := by
    rw [copies_of_requested_nil hrequested, sent_snoc, hsent, List.append_nil, hwaiting]
    exact ((hpending.append_left _).append_right _).trans hs.once

theorem sendsOnce_step {acts : List Act} {s s' : Server} {act : Act} (hs : SendsOnce acts s)
    (hstep : Step s act s') : SendsOnce (acts ++ [act]) s' := by
  cases hstep with
  | sendBuffer caller buffer _ =>
      refine ⟨hs.balanced.put _, ?_, ?_⟩
      · rw [requested_snoc, List.length_append]
        exact congrArg (· + 1) hs.copied
      · rw [copies_sendBuffer, sent_snoc, ← hs.copied]
        show ((sent acts ++ []).map Prod.snd ++ s.pending ++ (s.sendBuffers.waiting ++ [_])).Perm _
        rw [List.append_nil, ← List.append_assoc _ s.sendBuffers.waiting]
        exact hs.once.append_right _
  | poll hthread _ =>
      refine hs.moved rfl rfl rfl rfl ?_
      simpa [PollThread.workingBuffers] using pending_advance hthread .readable
  | receiveNextBuffer => exact hs.moved rfl rfl (by simp) (by simp) (by simp)
  | checkActiveClients => exact hs.moved rfl rfl rfl rfl (.refl _)
  | failToAcquire hthread =>
      refine hs.moved rfl rfl rfl rfl ?_
      simpa [PollThread.workingBuffers] using pending_advance hthread .polling
  | @takeBuffers _ thread hthread htake =>
      rw [Server.takeBuffers, hs.balanced.swap, Option.map_some, Option.some.injEq] at htake
      subst htake
      refine ⟨Lib.Mailbox.balanced_empty, ?_, ?_⟩
      · rw [requested_snoc]
        exact hs.copied.trans (congrArg List.length (List.append_nil _)).symm
      · -- the waiting copies become the thread's working list
        have htaken : (s.advance thread (.sending s.sendBuffers.waiting)).pending.Perm
            (s.pending ++ s.sendBuffers.waiting) := by
          simpa [PollThread.workingBuffers] using pending_advance hthread (.sending _)
        rw [copies_of_requested_nil rfl, sent_snoc]
        show ((sent acts ++ []).map Prod.snd
          ++ (s.advance thread (.sending s.sendBuffers.waiting)).pending ++ []).Perm _
        rw [List.append_nil, List.append_nil]
        apply (htaken.append_left _).trans
        rw [← List.append_assoc]
        exact hs.once
  | @send thread copy workingBuffers hthread =>
      refine ⟨hs.balanced, ?_, ?_⟩
      · rw [requested_snoc]
        exact hs.copied.trans (congrArg List.length (List.append_nil _)).symm
      · have hleft : (copy :: (s.advance thread (.updating copy.connectionID workingBuffers)).pending).Perm
            s.pending :=
          perm_of_sent (pending_advance hthread _)
        rw [copies_of_requested_nil rfl, sent_snoc, List.map_append]
        show ((sent acts).map Prod.snd ++ [copy]
          ++ (s.advance thread (.updating copy.connectionID workingBuffers)).pending
          ++ s.sendBuffers.waiting).Perm _
        rw [List.append_assoc _ [copy], List.singleton_append]
        exact ((hleft.append_left _).append_right _).trans hs.once
  | @updateClientActivityTime thread connectionID workingBuffers hthread =>
      refine hs.moved rfl rfl (sendBuffers_updateClientActivityTime s connectionID)
        (copied_updateClientActivityTime s connectionID) ?_
      have hmoved := pending_advance (getElem?_updateClientActivityTime hthread connectionID)
        (.sending workingBuffers)
      rw [pending_updateClientActivityTime] at hmoved
      exact (List.perm_append_right_iff _).mp hmoved
  | finish hthread =>
      refine hs.moved rfl rfl rfl rfl ?_
      simpa [PollThread.workingBuffers] using pending_advance hthread .polling

theorem sendsOnce {threads : Nat} {acts : List Act} {s : Server} (hrun : Runs threads acts s) :
    SendsOnce acts s :=
  hrun.history_invariant SendsOnce (sendsOnce_start threads) fun _ _ _ _ _ => sendsOnce_step

theorem copies_nodup (acts : List Act) : (copies acts).Nodup := by
  have hserial : (copies acts).map Copy.serial = List.range' 0 (requested acts).length := by
    rw [← List.zipIdx_map_snd, copies, List.map_map]
    rfl
  apply List.Nodup.of_map Copy.serial
  rw [hserial]
  exact List.nodup_range'

/-- When every thread waits and the descriptor is not readable, every copy has been sent. -/
theorem SendsOnce.sent_of_quiet {acts : List Act} {s : Server} (hs : SendsOnce acts s)
    (hquiet : s.Quiet) : ((sent acts).map Prod.snd).Perm (copies acts) := by
  have hpending : s.pending = [] := by
    apply List.flatMap_eq_nil_iff.mpr
    intro thread hthread
    rw [hquiet.1 thread hthread]
    rfl
  have hwaiting : s.sendBuffers.waiting = [] := by
    by_contra hne
    exact hquiet.2 (hs.balanced.readable_iff.mpr hne)
  have honce := hs.once
  rwa [hpending, hwaiting, List.append_nil, List.append_nil] at honce

/-- Exactly one call of `zmsg_send`, by exactly one thread. -/
def SentOnce (acts : List Act) (copy : Copy) : Prop :=
  ∃! k : Nat, ∃ thread, (sent acts)[k]? = some (thread, copy)

theorem sentOnce_of_perm {acts : List Act} (hperm : ((sent acts).map Prod.snd).Perm (copies acts))
    {copy : Copy} (hcopy : copy ∈ copies acts) : SentOnce acts copy := by
  have hnodup : ((sent acts).map Prod.snd).Nodup := hperm.nodup_iff.mpr (copies_nodup acts)
  obtain ⟨k, hk⟩ := List.getElem?_of_mem (hperm.mem_iff.mpr hcopy)
  rw [List.getElem?_map, Option.map_eq_some_iff] at hk
  obtain ⟨⟨thread, copy'⟩, hget, rfl⟩ := hk
  refine ⟨k, ⟨thread, hget⟩, ?_⟩
  intro j hj
  obtain ⟨thread', hget'⟩ := hj
  have hj : ((sent acts).map Prod.snd)[j]? = some copy' := by
    rw [List.getElem?_map, hget']
    rfl
  have hk : ((sent acts).map Prod.snd)[k]? = some copy' := by
    rw [List.getElem?_map, hget]
    rfl
  obtain ⟨hlt, _⟩ := List.getElem?_eq_some_iff.mp hj
  exact (List.getElem?_inj hlt hnodup).mp (hj.trans hk.symm)

/-! ### Nothing is stuck -/

/-- The steps a thread has before it, at most, until it waits again. -/
def PollThread.work : PollThread → Nat
  | .polling => 0
  | .readable => 2
  | .sending workingBuffers => 2 * workingBuffers.length + 1
  | .updating _ workingBuffers => 2 * workingBuffers.length + 2

/-- The steps that are left, at most, if nobody queues and `TryAcquire` succeeds. -/
def Server.load (s : Server) : Nat :=
  (s.pool.map PollThread.work).sum
    + if s.sendBuffers.waiting = [] then 0 else 2 * s.sendBuffers.waiting.length + 2

theorem load_advance {s : Server} {thread : Nat} {old : PollThread}
    (hthread : s.pool[thread]? = some old) (place : PollThread) :
    (s.advance thread place).load + old.work = s.load + place.work := by
  have hsum := Lib.Pool.sum_map_set PollThread.work hthread place
  unfold Server.load
  show (((s.pool.set thread place).map PollThread.work).sum + _) + _ = _
  have hsame : (s.advance thread place).sendBuffers = s.sendBuffers := rfl
  rw [hsame]
  omega

@[simp] theorem load_updateClientActivityTime (s : Server) (connectionID : UUID) :
    (s.updateClientActivityTime connectionID).load = s.load := by
  unfold Server.load
  rw [sendBuffers_updateClientActivityTime]
  rcases pool_updateClientActivityTime s connectionID with hpool | hpool
  · rw [hpool]
  · rw [hpool, List.map_append, List.sum_append]
    rfl

theorem take_progress (s : Server) (hbalanced : s.sendBuffers.Balanced) {thread : Nat}
    (hthread : s.pool[thread]? = some .readable) :
    ∃ s', Step s (.takeBuffers thread) s'
      ∧ s'.load + (if s.sendBuffers.waiting = [] then 1 else 3) = s.load := by
  refine ⟨{ s with sendBuffers := .empty }.advance thread (.sending s.sendBuffers.waiting),
    .takeBuffers hthread ?_, ?_⟩
  · rw [Server.takeBuffers, hbalanced.swap]
    rfl
  · have hsum := Lib.Pool.sum_map_set PollThread.work hthread (.sending s.sendBuffers.waiting)
    show ((s.pool.set thread (.sending s.sendBuffers.waiting)).map PollThread.work).sum + 0 + _
      = (s.pool.map PollThread.work).sum + _
    simp only [PollThread.work] at hsum
    split
    next hwaiting =>
      rw [hwaiting, List.length_nil] at hsum
      rw [hwaiting]
      omega
    next => omega

/-- While anything is left to do, some thread can do it. -/
theorem progress {s : Server} (hbalanced : s.sendBuffers.Balanced) (hpool : s.pool ≠ [])
    (hbusy : ¬ s.Quiet) :
    ∃ acts s', Lib.Run Step s acts s' ∧ requested acts = [] ∧ s'.load < s.load := by
  by_cases hall : ∀ thread ∈ s.pool, thread = .polling
  · -- all threads wait, so the descriptor is readable: one of them wakes up and takes
    have hreadable : s.sendBuffers.Readable := by
      by_contra hnot
      exact hbusy ⟨hall, hnot⟩
    have hwaiting : (s.advance 0 .readable).sendBuffers.waiting ≠ [] :=
      hbalanced.readable_iff.mp hreadable
    obtain ⟨first, others, hcons⟩ := List.exists_cons_of_ne_nil hpool
    have hfirst : s.pool[0]? = some .polling := by
      rw [hcons, List.getElem?_cons_zero, hall first (by simp [hcons])]
    have hpoll := Step.poll hfirst hreadable
    have hwoken : (s.advance 0 .readable).pool[0]? = some .readable := by
      show (s.pool.set 0 .readable)[0]? = _
      rw [hcons]
      rfl
    obtain ⟨s', htake, hload⟩ := take_progress (s.advance 0 .readable) hbalanced hwoken
    refine ⟨_, s', (Lib.Run.single hpoll).snoc htake, rfl, ?_⟩
    have hload' := load_advance hfirst .readable
    rw [if_neg hwaiting] at hload
    simp only [PollThread.work] at hload'
    omega
  · push Not at hall
    obtain ⟨place, hmem, hne⟩ := hall
    obtain ⟨thread, hthread⟩ := List.getElem?_of_mem hmem
    cases place with
    | polling => exact absurd rfl hne
    | readable =>
        obtain ⟨s', htake, hload⟩ := take_progress s hbalanced hthread
        refine ⟨_, s', .single htake, rfl, ?_⟩
        split at hload <;> omega
    | sending workingBuffers =>
        cases workingBuffers with
        | nil =>
            refine ⟨_, _, .single (.finish hthread), rfl, ?_⟩
            have hload := load_advance hthread .polling
            simp only [PollThread.work] at hload
            omega
        | cons copy workingBuffers =>
            refine ⟨_, _, .single (.send hthread), rfl, ?_⟩
            have hload := load_advance hthread (.updating copy.connectionID workingBuffers)
            simp only [PollThread.work, List.length_cons] at hload
            omega
    | updating connectionID workingBuffers =>
        refine ⟨_, _, .single (.updateClientActivityTime hthread), rfl, ?_⟩
        have hload := load_advance (getElem?_updateClientActivityTime hthread connectionID)
          (.sending workingBuffers)
        rw [load_updateClientActivityTime] at hload
        simp only [PollThread.work] at hload
        omega

theorem pool_step {s s' : Server} {act : Act} (hstep : Step s act s') :
    s.pool.length ≤ s'.pool.length := by
  have hset : ∀ (thread : Nat) (place : PollThread),
      s.pool.length ≤ (s.advance thread place).pool.length := by
    intro thread place
    exact (List.length_set ..).ge
  have hmore : ∀ connectionID : UUID,
      s.pool.length ≤ (s.updateClientActivityTime connectionID).pool.length := by
    intro connectionID
    rcases pool_updateClientActivityTime s connectionID with hpool | hpool
    · rw [hpool]
    · rw [hpool, List.length_append]
      exact Nat.le_add_right _ _
  cases hstep with
  | sendBuffer => exact le_rfl
  | poll => exact hset _ _
  | receiveNextBuffer connectionID => exact hmore connectionID
  | checkActiveClients => exact le_rfl
  | failToAcquire => exact hset _ _
  | takeBuffers _ htake =>
      obtain ⟨_, _, heq⟩ := Option.map_eq_some_iff.mp htake
      rw [← heq]
      exact hset _ _
  | send => exact hset _ _
  | updateClientActivityTime => exact (hmore _).trans (List.length_set ..).ge
  | finish => exact hset _ _

theorem pool_run {s s' : Server} {acts : List Act} (hrun : Lib.Run Step s acts s') :
    s.pool.length ≤ s'.pool.length :=
  hrun.invariant (fun t => s.pool.length ≤ t.pool.length) le_rfl
    fun _ _ _ hle hstep => hle.trans (pool_step hstep)

/-- Whatever has happened so far, the poll threads can send everything that is queued. -/
theorem can_finish {threads : Nat} (hthreads : 0 < threads) {acts : List Act} {s : Server}
    (hrun : Runs threads acts s) :
    ∃ acts' s', Lib.Run Step s acts' s' ∧ requested acts' = [] ∧ s'.Quiet := by
  induction hn : s.load using Nat.strong_induction_on generalizing acts s with
  | h n ih =>
      by_cases hquiet : s.Quiet
      · exact ⟨[], s, .nil, rfl, hquiet⟩
      · have hpool : s.pool ≠ [] := by
          have hle := pool_run hrun
          rw [Server.start, List.length_replicate] at hle
          exact List.ne_nil_of_length_pos (by omega)
        obtain ⟨first, s₁, hfirst, hnone, hload⟩ := progress (sendsOnce hrun).balanced hpool hquiet
        obtain ⟨rest, s', hrest, hnone', hquiet'⟩ := ih s₁.load (hn ▸ hload) (hrun.trans hfirst) rfl
        refine ⟨first ++ rest, s', hfirst.trans hrest, ?_, hquiet'⟩
        rw [requested, List.filterMap_append]
        exact (congrArg₂ (· ++ ·) hnone hnone').trans (List.append_nil _)

/-- **Every buffer is sent once.** In every state of every interleaving, the copies sent, those in the
working lists and those that wait are together the copies queued, each of them once; the descriptor counts
those that wait, so its read never blocks and it is readable while one waits. When every thread waits and
the descriptor is not readable, every copy has been sent by exactly one thread exactly once, and the
threads can always get there. -/
theorem sent_exactly_once {threads : Nat} {acts : List Act} {s : Server} (hrun : Runs threads acts s) :
    ((sent acts).map Prod.snd ++ s.pending ++ s.sendBuffers.waiting).Perm (copies acts)
      ∧ (copies acts).Nodup
      ∧ s.sendBuffers.counter = s.sendBuffers.waiting.length
      ∧ (∀ thread, s.takeBuffers thread ≠ none)
      ∧ (s.sendBuffers.waiting ≠ [] → s.sendBuffers.Readable)
      ∧ (s.Quiet → ∀ copy ∈ copies acts, SentOnce acts copy)
      ∧ (0 < threads → ∃ acts' s', Lib.Run Step s acts' s' ∧ requested acts' = [] ∧ s'.Quiet) := by
  have hs := sendsOnce hrun
  refine ⟨hs.once, copies_nodup acts, hs.balanced, ?_, hs.balanced.readable_iff.mpr, ?_, ?_⟩
  · intro thread
    rw [Server.takeBuffers, hs.balanced.swap]
    exact Option.some_ne_none _
  · intro hquiet copy hcopy
    exact sentOnce_of_perm (hs.sent_of_quiet hquiet) hcopy
  · intro hthreads
    exact can_finish hthreads hrun

def message (octet : UInt8) : Buffer := .single octet

/-- The law where two threads see the descriptor, one of them takes the buffer and the other fails to
acquire the lock. -/
theorem sent_exactly_once_contended :
    ∃ acts s, Runs 2 acts s ∧ copies acts = [⟨0, 5, .replicate 1, message 1⟩]
      ∧ SentOnce acts ⟨0, 5, .replicate 1, message 1⟩ ∧ s.sendBuffers.counter = 0
      ∧ ∀ thread, s.takeBuffers thread ≠ none := by
  have hqueued : Runs 2 _ _ :=
    .single (.sendBuffer _ 5 (message 1) (by decide : (UUID.replicate 1).isEmpty = false))
  have hwoken := (hqueued.snoc (a := .poll 0) (.poll rfl (by exact Nat.one_ne_zero))).snoc (a := .poll 1)
    (.poll rfl (by exact Nat.one_ne_zero))
  have htaken := (hwoken.snoc (a := .takeBuffers 0) (.takeBuffers rfl rfl)).snoc
    (a := .failToAcquire 1) (.failToAcquire rfl)
  have hsent := htaken.snoc (a := .send 0 ⟨0, 5, .replicate 1, message 1⟩) (.send rfl)
  have hrun := (hsent.snoc (a := .updateClientActivityTime 0) (.updateClientActivityTime rfl)).snoc
    (a := .finish 0) (.finish rfl)
  obtain ⟨_, _, _, hread, _, hquiet, _⟩ := sent_exactly_once hrun
  refine ⟨_, _, hrun, rfl, hquiet ⟨?_, ?_⟩ _ ?_, rfl, hread⟩
  · intro thread hthread
    have hpool : thread ∈ [PollThread.polling, PollThread.polling] := hthread
    simpa using hpool
  · exact fun h => h rfl
  · exact List.mem_singleton.mpr rfl

end Armore.Proxy.SendQueue
