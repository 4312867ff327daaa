import Armore.Lib.Locks

/-!
# The threads of the proxy

The main loop, the poll threads of the server, the receiving thread of the client and the threads of the
timers, with the four spin locks they share. Each function stands here for the locks it takes, for the
functions it calls inside and outside of them, and for the threads it starts; a plain statement may throw, and
a condition goes either way. The main thread starts all others.

`ReceivedSignal` handles `SIGINT` and `SIGTERM`, and it logs, which takes the lock of the console on whatever
thread the signal comes to.
-/

namespace Armore.Proxy.Threads

open Lib.Locks

inductive LockName
  | clientsLock
  | sendBuffersLock
  | receivedBuffersLock
  | consoleLock
  deriving DecidableEq

/-- The order in which the locks are taken. -/
def LockName.rank : LockName → Nat
  | .clientsLock => 1
  | .sendBuffersLock => 2
  | .receivedBuffersLock => 3
  | .consoleLock => 4

/-- The workers of the threads. -/
inductive Worker
  | socketPollHandler
  | receiveDataHandler
  | timerPoll

abbrev Code := Lib.Locks.Code LockName Worker

open Lib.Locks.Code (when block oneOf)

section

-- Whether there are log functions; the standard logger has none without console output.
variable (logging : Bool)

/-! ### ConsoleLogger -/

def logInfo : Code := if logging then .spinlock .consoleLock .statement else .skip

def logError : Code := if logging then .spinlock .consoleLock .statement else .skip

def describePacket : Code :=
  block
    [.statement,
      oneOf [logInfo logging, block [logInfo logging, .statement, logInfo logging], logInfo logging,
        logInfo logging],
      .statement, logInfo logging, .statement, logInfo logging, .statement]

/-- `ReceivedSignal`. Before it logs it only sets `interrupted`. -/
def receivedSignal : Code := logInfo logging

/-! ### The packet processor, called by the middleware -/

def queueReceivedBuffer : Code :=
  block
    [when (describePacket logging),
      .spinlock .receivedBuffersLock (block [.statement, when (logError logging)]),
      when (logInfo logging)]

/-- `OnBufferReceived`, which calls `ReceivedBuffer`. -/
def onBufferReceived : Code := when (queueReceivedBuffer logging)

/-! ### ZeroMQServer -/

namespace Server

/-- `SendBuffer` to one client. -/
def sendBufferTo : Code :=
  when (block
    [.statement, .spinlock .sendBuffersLock (block [.statement, when (logError logging)])])

/-- `SendBuffer` to all clients. -/
def sendBuffer : Code := when (.spinlock .clientsLock (.loop (sendBufferTo logging)))

def updateClientActivityTime : Code :=
  block
    [.statement,
      .spinlock .clientsLock
        (block
          [.statement,
            .choice .statement
              (block [logInfo logging, .statement, when (.start .socketPollHandler)])])]

def checkActiveClients : Code :=
  block
    [.statement,
      .spinlock .clientsLock
        (block
          [.loop .statement, when (logInfo logging), when (block [logInfo logging, .loop .statement])])]

def receiveNextBuffer : Code :=
  block
    [.statement,
      when (block
        [.statement,
          when (block
            [.statement, onBufferReceived logging, .statement, updateClientActivityTime logging,
              when (checkActiveClients logging)]),
          .statement])]

def sendQueuedBuffers : Code :=
  block
    [.tryspinlock .sendBuffersLock (block [.statement, when (logError logging)]),
      when (block
        [.loop (block [.statement, updateClientActivityTime logging, .statement]), .statement])]

def socketPollHandler : Code :=
  block
    [.statement,
      .loop (block
        [.statement,
          .choice (block [when (receiveNextBuffer logging), when (sendQueuedBuffers logging)])
            (when (logError logging))])]

/-- `Initialize`, with the timer of the active clients and the first poll thread. -/
def initializeServer : Code :=
  block [.statement, when (.start .timerPoll), when (.start .socketPollHandler)]

end Server

/-! ### ZeroMQClient -/

namespace Client

def sendBuffer : Code := .statement

def receiveDataHandler : Code :=
  block
    [.statement,
      .loop (block
        [.statement,
          when (block [when (block [.statement, onBufferReceived logging, .statement]), .statement])])]

def initializeClient : Code := block [.statement, when (.start .receiveDataHandler)]

end Client

/-! ### ZeroMQEngine -/

def sendBuffer : Code := when (.choice (Server.sendBuffer logging) Client.sendBuffer)

def sendBufferTo : Code := when (.choice (Server.sendBufferTo logging) Client.sendBuffer)

def initializeEngine : Code :=
  block [.statement, .choice Server.initializeServer Client.initializeClient, logInfo logging]

/-! ### The packet processor, called by the main loop -/

def injectPacket : Code :=
  .choice
    (block
      [when (describePacket logging), .attempt .statement (logError logging), when (logInfo logging)])
    (block
      [.statement, .spinlock .receivedBuffersLock (block [.statement, when (logError logging)])])

def updateIPTable : Code :=
  when (block [.statement, .choice (block [.statement, when (logInfo logging)]) .statement, .statement])

/-- `SendPacket` to an address. -/
def sendPacketTo : Code :=
  block
    [when (describePacket logging),
      .choice (block [.statement, .choice (sendBuffer logging) (sendBufferTo logging)]) (sendBuffer logging),
      when (logInfo logging)]

def sendMacRequestPacket : Code := block [logInfo logging, sendBuffer logging]

/-- `SendPacket` of both versions of IP: a broadcast, or the packet and perhaps a request. -/
def sendPacket : Code :=
  block
    [updateIPTable logging,
      .choice (sendBuffer logging)
        (block
          [sendPacketTo logging, when (block [.statement, sendMacRequestPacket logging, .statement])])]

def encodePacket : Code :=
  .choice (logError logging)
    (block
      [.statement, oneOf [sendPacket logging, sendPacket logging, sendPacket logging, when (logInfo logging)]])

def checkActiveIPAddresses : Code :=
  block [.loop .statement, when (logInfo logging), when (block [logInfo logging, .loop .statement])]

def checkPendingIPMacRequests : Code :=
  block [.loop .statement, when (block [logInfo logging, .loop .statement])]

def encodePackets : Code :=
  block
    [.statement, .loop (block [encodePacket logging, .statement]), when (checkActiveIPAddresses logging),
      when (checkPendingIPMacRequests logging)]

/-- The request for a MAC address that is not known. -/
def requestMac : Code := block [when (logInfo logging), .statement, injectPacket logging, .statement]

def processIPv4Packet : Code :=
  .choice (logError logging)
    (block
      [.statement, updateIPTable logging,
        .choice .statement (when (.choice .statement (block [.statement, when (requestMac logging)])))])

def processARPPacket : Code :=
  .choice (logError logging) (block [.statement, updateIPTable logging, .statement])

def processNDPPacket : Code := .choice (logError logging) .statement

def processIPv6Packet : Code :=
  .choice (logError logging)
    (block
      [.statement, updateIPTable logging,
        .choice .statement (block
          [.choice .statement (block [.statement, when (requestMac logging)]),
            .loop (.choice .statement (logError logging)),
            oneOf [.skip, logError logging, processNDPPacket logging]])])

def decodePacket : Code :=
  .choice (logError logging)
    (block
      [.statement,
        oneOf [processARPPacket logging, processIPv4Packet logging, processIPv6Packet logging,
          when (logInfo logging)],
        when (oneOf
          [block [sendBuffer logging, injectPacket logging],
            block [when (sendBuffer logging), injectPacket logging], sendBufferTo logging,
            injectPacket logging])])

def decodePackets : Code :=
  block
    [.loop (block [injectPacket logging, .statement]), .statement,
      .spinlock .receivedBuffersLock (block [.statement, when (logError logging)]),
      .loop (block [decodePacket logging, .statement])]

/-! ### Threads -/

/-- `ThreadProc`. The signal it raises is handled by the thread itself, before `raise` returns. -/
def threadProc (worker : Code) : Code :=
  .attempt worker (block [logError logging, receivedSignal logging])

/-- `TimerPoll`. The callbacks set a flag. -/
def timerPoll : Code :=
  block
    [.statement,
      .loop (block
        [.statement, when (.attempt .statement (block [logError logging, receivedSignal logging]))])]

def worker : Worker → Code
  | .socketPollHandler => threadProc logging (Server.socketPollHandler logging)
  | .receiveDataHandler => threadProc logging (Client.receiveDataHandler logging)
  | .timerPoll => threadProc logging (timerPoll logging)

/-- `main`, from where the log functions are set. The processor starts two timers. -/
def main : Code :=
  block
    [.attempt
        (block
          [logInfo logging, .statement, logInfo logging, .statement, logInfo logging, .statement,
            when (logInfo logging), .statement, logInfo logging, initializeEngine logging, logInfo logging,
            .statement, when (.start .timerPoll), when (.start .timerPoll), .statement,
            .loop (block
              [.statement,
                .choice (block [when (encodePackets logging), when (decodePackets logging)])
                  (when (logError logging))])])
        (logError logging),
      when (block [logInfo logging, .statement]), when (block [logInfo logging, .statement]), .statement]

end

/-! ### The order of the locks -/

theorem above_worker (logging : Bool) (w : Worker) : (worker logging w).Above LockName.rank 0 := by
  cases logging <;> cases w <;> decide

theorem above_main (logging : Bool) : (main logging).Above LockName.rank 0 := by
  cases logging <;> decide

theorem alone_worker (logging : Bool) (w : Worker) : (worker logging w).Alone := by
  cases w <;> exact ⟨trivial, trivial, trivial⟩

/-! ### Runs of the proxy -/

abbrev Pool := Lib.Locks.Threads LockName Worker

/-- The proxy when it has started. -/
def start (logging : Bool) : Pool := [[.run (main logging)]]

/-- A signal comes to a thread that is not logging. -/
def OutsideLog (threads : Pool) (a : Act) : Prop :=
  ∀ i t, a = .signal i → threads[i]? = some t → LockName.consoleLock ∉ held t

section

variable (logging : Bool)

abbrev Turn : Pool → Act → Pool → Prop := Lib.Locks.Step (worker logging) (receivedSignal logging)

/-- Runs with signals wherever they come. -/
abbrev Runs : List Act → Pool → Prop := Lib.Run (Turn logging) (start logging)

/-- Runs in which no signal comes to a thread that is logging. -/
abbrev RunsOutsideLog : List Act → Pool → Prop :=
  Lib.Run (Lib.Restrict (Turn logging) OutsideLog) (start logging)

end

variable {logging : Bool}

/-- Every other lock is below the one of the console. -/
theorem top_lt {t : Lib.Locks.Thread LockName Worker} (hconsole : LockName.consoleLock ∉ held t) :
    top LockName.rank t < LockName.consoleLock.rank := by
  induction t with
  | nil => exact Nat.zero_lt_succ 3
  | cons item t ih =>
      cases item with
      | release name =>
          rw [held_release, List.mem_cons, not_or] at hconsole
          have hrest := ih hconsole.2
          have hname : name.rank < LockName.consoleLock.rank := by
            cases name with
            | consoleLock => exact absurd rfl hconsole.1
            | _ => decide
          exact Nat.max_lt.mpr ⟨hname, hrest⟩
      | _ => exact ih hconsole

theorem above_receivedSignal {n : Nat} (hn : n < LockName.consoleLock.rank) :
    (receivedSignal logging).Above LockName.rank n := by
  cases logging with
  | false => exact trivial
  | true => exact ⟨hn, trivial⟩

/-- What is left to do keeps to the order, as long as no thread is interrupted while it logs. -/
theorem ordered_of_runs {acts : List Act} {threads : Pool} (hruns : RunsOutsideLog logging acts threads) :
    ∀ t ∈ threads, Ordered LockName.rank t := by
  refine Lib.Run.invariant (fun threads => ∀ t ∈ threads, Ordered LockName.rank t) ?_ ?_ hruns
  · intro t ht
    rw [List.mem_singleton.mp ht]
    exact ⟨above_main logging, trivial⟩
  · intro threads a threads' hinv hstep t ht
    obtain ⟨hstep, houtside⟩ := hstep
    cases hstep with
    | @move i s s' started hs hmoves =>
        obtain ⟨hs', hstarted⟩ := hmoves.ordered (above_worker logging) (hinv s (List.mem_of_getElem? hs))
        rcases List.mem_append.mp ht with hset | hnew
        · rcases List.mem_or_eq_of_mem_set hset with hold | rfl
          · exact hinv t hold
          · exact hs'
        · exact hstarted t hnew
    | @signal i s hs hne =>
        rcases List.mem_or_eq_of_mem_set ht with hold | rfl
        · exact hinv t hold
        · exact ⟨above_receivedSignal (top_lt (houtside i s rfl hs)), hinv s (List.mem_of_getElem? hs)⟩

/-- The main thread in its first `log_info`. -/
theorem runs_logInfo : ∃ (threads : Pool) (t : Lib.Locks.Thread LockName Worker),
    RunsOutsideLog true [.move 0, .move 0, .move 0, .move 0] threads ∧ threads[0]? = some t
      ∧ LockName.consoleLock ∈ held t := by
  have houtside : ∀ threads, OutsideLog threads (.move 0) := by
    intro threads i t hact
    cases hact
  refine ⟨_, _, (((Lib.Run.single ⟨.move rfl (.seq _ _ _), houtside _⟩).snoc
    ⟨.move rfl (.attempt _ _ _), houtside _⟩).snoc ⟨.move rfl (.seq _ _ _), houtside _⟩).snoc
    ⟨.move rfl (.acquire .consoleLock .statement _ ?_), houtside _⟩, rfl, List.mem_cons_self⟩
  intro t ht
  rw [List.mem_singleton.mp ht]
  exact List.not_mem_nil

/-- **The threads do not deadlock.** As long as no signal comes to a thread that is logging, all threads can
still end from wherever they stand. -/
theorem threads_end {acts : List Act} {threads : Pool} (hruns : RunsOutsideLog logging acts threads) :
    ∃ (moves : List Nat) (threads' : Pool),
      Lib.Run (Turn logging) threads (moves.map .move) threads' ∧ ∀ t ∈ threads', t = [] :=
  ends (above_worker logging) (alone_worker logging) (receivedSignal logging) (ordered_of_runs hruns)

theorem threads_end_logInfo : ∃ (threads : Pool) (moves : List Nat) (threads' : Pool),
    0 < holders threads .consoleLock
      ∧ Lib.Run (Turn true) threads (moves.map .move) threads' ∧ ∀ t ∈ threads', t = [] := by
  obtain ⟨threads, t, hruns, ht, hheld⟩ := runs_logInfo
  obtain ⟨moves, threads', hend⟩ := threads_end hruns
  exact ⟨threads, moves, threads', holders_pos ht hheld, hend⟩

/-- **A signal deadlocks the thread that logs.** The first signal that comes to a thread while it logs leaves
it waiting for good for the lock it holds; after any other, all threads can still end. -/
theorem signal_ends_iff {acts : List Act} {threads : Pool} (hruns : RunsOutsideLog true acts threads) {i : Nat}
    {t : Lib.Locks.Thread LockName Worker} (ht : threads[i]? = some t) :
    (∃ acts' threads', Lib.Run (Turn true) (threads.set i (.run (receivedSignal true) :: t)) acts' threads'
        ∧ ∀ t' ∈ threads', t' = [])
      ↔ LockName.consoleLock ∉ held t := by
  have hlength := (List.getElem?_eq_some_iff.mp ht).1
  refine ⟨?_, ?_⟩
  · intro hend hheld
    obtain ⟨acts', threads', hrun, hend⟩ := hend
    have hset : (threads.set i (.run (receivedSignal true) :: t))[i]? = some (.run (receivedSignal true) :: t) :=
      List.getElem?_set_self hlength
    have hstuck : Stuck LockName.consoleLock (.run (receivedSignal true) :: t) := stuck_signal .statement hheld
    obtain ⟨t', ht', hstuck⟩ := hstuck.forever hset hrun
    exact hstuck.ne_nil (hend t' (List.mem_of_getElem? ht'))
  · intro hconsole
    have hordered : ∀ t' ∈ threads.set i (.run (receivedSignal true) :: t), Ordered LockName.rank t' := by
      intro t' ht'
      rcases List.mem_or_eq_of_mem_set ht' with hold | rfl
      · exact ordered_of_runs hruns t' hold
      · exact ⟨above_receivedSignal (top_lt hconsole), ordered_of_runs hruns t (List.mem_of_getElem? ht)⟩
    obtain ⟨moves, threads', hrun, hend⟩ :=
      ends (above_worker true) (alone_worker true) (receivedSignal true) hordered
    exact ⟨_, threads', hrun, hend⟩

/-- `SIGINT` in the first `log_info`: the proxy never ends. -/
theorem signal_ends_iff_logInfo : ∃ (threads : Pool) (t : Lib.Locks.Thread LockName Worker),
    threads[0]? = some t
      ∧ ¬∃ acts' threads', Lib.Run (Turn true) (threads.set 0 (.run (receivedSignal true) :: t)) acts' threads'
        ∧ ∀ t' ∈ threads', t' = [] := by
  obtain ⟨threads, t, hruns, ht, hheld⟩ := runs_logInfo
  refine ⟨threads, t, ht, ?_⟩
  rw [signal_ends_iff hruns ht, not_not]
  exact hheld

end Armore.Proxy.Threads
