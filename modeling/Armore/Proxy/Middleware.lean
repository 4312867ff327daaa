import Armore.Proxy.IPTable

/-!
# The ZeroMQ server

What `ZeroMQServer.cpp` does with a buffer that is to be sent: it is queued for one connection, or for
every registered client in turn. `SendBuffer` throws for the empty connection, and the loop over the
clients does not catch it, so it reaches the clients before an empty one.

A call either returns or throws; in both cases the state it leaves is what matters, so `Except` carries a
server on both sides.
-/

namespace Armore.Proxy

/-- `m_enabled`, the keys of `m_clients` in the order of iteration, and `m_sendBuffers`. -/
structure ZeroMQServer where
  enabled : Bool
  clients : List UUID
  sendBuffers : List (UUID × Buffer)

namespace ZeroMQServer

/-- `SendBuffer(connectionID, buffer)`. -/
def sendBuffer (s : ZeroMQServer) (connectionID : UUID) (buffer : Buffer) :
    Except ZeroMQServer ZeroMQServer :=
  if !s.enabled then .ok s
  else if connectionID.isEmpty then .error s
  else .ok { s with sendBuffers := s.sendBuffers ++ [(connectionID, buffer)] }

/-- `for (auto enumerator = m_clients.begin(); …) SendBuffer(enumerator->first, buffer);` -/
def sendToEach (buffer : Buffer) : List UUID → ZeroMQServer → Except ZeroMQServer ZeroMQServer
  | [], s => .ok s
  | client :: clients, s => (s.sendBuffer client buffer).bind (sendToEach buffer clients)

/-- `SendBuffer(buffer)`. -/
def sendBufferToAll (s : ZeroMQServer) (buffer : Buffer) : Except ZeroMQServer ZeroMQServer :=
  if !s.enabled then .ok s else sendToEach buffer s.clients s

/-- What an event of the packet processor makes the server do. -/
def handle (s : ZeroMQServer) : Event → Except ZeroMQServer ZeroMQServer
  | .sentToAll packet => s.sendBufferToAll packet
  | .sentTo connectionID packet => s.sendBuffer connectionID packet
  | .settled _ | .requested _ _ | .dropped _ | .discarded _ | .injected _ => .ok s

/-- The events one after another, up to one that throws. -/
def perform : List Event → ZeroMQServer → Except ZeroMQServer ZeroMQServer
  | [], s => .ok s
  | event :: events, s => (s.handle event).bind (perform events)

/-- The server that a call leaves. -/
def state : Except ZeroMQServer ZeroMQServer → ZeroMQServer
  | .ok s => s
  | .error s => s

/-- The server queues the buffer for the connection while it performs the events. -/
def Queues (s : ZeroMQServer) (events : List Event) (connectionID : UUID) (buffer : Buffer) : Prop :=
  ∃ queued, (state (perform events s)).sendBuffers = s.sendBuffers ++ queued
    ∧ (connectionID, buffer) ∈ queued

/-- The clients that a broadcast reaches. -/
def reached (s : ZeroMQServer) : List UUID := s.clients.takeWhile fun client => !client.isEmpty

/-! ### What is queued -/

theorem sendBuffer_of_enabled {s : ZeroMQServer} (henabled : s.enabled = true) (connectionID : UUID)
    (buffer : Buffer) :
    s.sendBuffer connectionID buffer
      = if connectionID.isEmpty then .error s
        else .ok { s with sendBuffers := s.sendBuffers ++ [(connectionID, buffer)] } := by
  simp [sendBuffer, henabled]

theorem sendToEach_sendBuffers (buffer : Buffer) (clients : List UUID) (s : ZeroMQServer)
    (henabled : s.enabled = true) :
    (state (sendToEach buffer clients s)).sendBuffers
      = s.sendBuffers
        ++ (clients.takeWhile fun client => !client.isEmpty).map fun client => (client, buffer) := by
  induction clients generalizing s with
  | nil => simp [sendToEach, state]
  | cons client clients ih =>
      rw [sendToEach, sendBuffer_of_enabled henabled]
      cases hempty : client.isEmpty with
      | true => simp [hempty, Except.bind, state]
      | false =>
          have hrest := ih { s with sendBuffers := s.sendBuffers ++ [(client, buffer)] } henabled
          simp only [Bool.false_eq_true, if_false, Except.bind, hrest]
          simp [hempty]

/-- A broadcast queues the buffer once for each client it reaches. -/
theorem sendBufferToAll_state (s : ZeroMQServer) (buffer : Buffer) (henabled : s.enabled = true) :
    (state (s.sendBufferToAll buffer)).sendBuffers
      = s.sendBuffers ++ s.reached.map fun client => (client, buffer) := by
  rw [sendBufferToAll, if_neg (by simp [henabled]), sendToEach_sendBuffers _ _ _ henabled, reached]

theorem perform_disabled (s : ZeroMQServer) (events : List Event) (hdisabled : s.enabled = false) :
    perform events s = .ok s := by
  induction events with
  | nil => rfl
  | cons event events ih =>
      have hhandle : s.handle event = .ok s := by
        cases event <;> simp [handle, sendBufferToAll, sendBuffer, hdisabled]
      rw [perform, hhandle]
      exact ih

/-- A disabled server queues nothing. -/
theorem not_queues_of_disabled {s : ZeroMQServer} {events : List Event} {connectionID : UUID}
    {buffer : Buffer} (hdisabled : s.enabled = false) : ¬ s.Queues events connectionID buffer := by
  rintro ⟨queued, hstate, hmem⟩
  rw [perform_disabled s events hdisabled] at hstate
  have hqueued : queued = [] := by simpa [state] using hstate
  rw [hqueued] at hmem
  cases hmem

/-- Queuing is decided by what is appended. -/
theorem queues_iff {s : ZeroMQServer} {events : List Event} {queued : List (UUID × Buffer)}
    (hstate : (state (perform events s)).sendBuffers = s.sendBuffers ++ queued)
    (connectionID : UUID) (buffer : Buffer) :
    s.Queues events connectionID buffer ↔ (connectionID, buffer) ∈ queued := by
  constructor
  · rintro ⟨queued', hstate', hmem⟩
    rw [hstate, List.append_cancel_left_eq] at hstate'
    rwa [hstate']
  · exact fun hmem => ⟨queued, hstate, hmem⟩

end ZeroMQServer

end Armore.Proxy
