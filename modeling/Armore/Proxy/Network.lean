import Armore.Lib.Star
import Armore.Proxy.Broadcast

/-!
# The network of proxies

One proxy is the server and the others are its clients. A client has two sockets to the ROUTER socket of
the server, for sending and for receiving; they carry the connection identity of the client with one more
byte, `S` or `R`. The server knows a client by the first sixteen bytes of what the ROUTER socket puts in
front of a message, and addresses the answer with these and an `R`.

A step of the network is a call of the packet processor of one site, with what it makes the middleware of
that site do. Messages between the sites are bytes: what is received has them in memory of its own. Each
frame that is captured anywhere gets a number, and the messages it causes carry the number along.
-/

namespace Armore.Proxy

open Tables ZeroMQServer

/-- The bytes of a buffer. -/
def Buffer.bytes (f : Buffer) : List UInt8 := bytesAt f.byte 0 f.length

/-- The configurations of the sites. `ARMOREProxy` runs the middleware in server mode at one of them. -/
structure Sites where
  server : Config
  client : UUID → Config
  server_mode : server.serverMode = true
  client_mode : ∀ id, (client id).serverMode = false

inductive Site
  | server
  | client (id : UUID)

namespace Network

/-! ### What is on the wire -/

/-- The last byte of the identity of a sending socket. -/
def modeS : UInt8 := 0x53

/-- The last byte of the identity of a receiving socket. -/
def modeR : UInt8 := 0x52

/-- `memcpy(identity, connectionID.value, 16); identity[16] = mode;` -/
def identity (connectionID : UUID) (mode : UInt8) : List UInt8 := List.ofFn connectionID.value ++ [mode]

/-- `UUID(*reinterpret_cast<uuid_t*>(zframe_data(frame)))` -/
def connectionID (frame : List UInt8) : UUID := ⟨fun i => frame.getD i 0⟩

@[simp] theorem connectionID_identity (id : UUID) (mode : UInt8) :
    connectionID (identity id mode) = id := by
  apply UUID.ext
  funext i
  have hi : i.val < (List.ofFn id.value).length := by
    rw [List.length_ofFn]
    exact i.isLt
  show (List.ofFn id.value ++ [mode]).getD i.val 0 = id.value i
  rw [List.getD_eq_getElem?_getD, List.getElem?_append_left hi, List.getElem?_eq_getElem hi,
    List.getElem_ofFn, Option.getD_some]

/-- The frames of `SendQueuedBuffers`. -/
def serverMessage (connectionID : UUID) (payload : List UInt8) : List (List UInt8) :=
  [identity connectionID modeR, [], payload]

/-- The frames of a client, behind the one that the ROUTER socket puts there for the sending socket. -/
def clientMessage (connectionID : UUID) (payload : List UInt8) : List (List UInt8) :=
  [identity connectionID modeS, [], payload]

/-- What `ReceiveNextBuffer` makes of the frames of a message. -/
def receiveNextBuffer : List (List UInt8) → Option (UUID × List UInt8)
  | [frame, _, payload] => some (connectionID frame, payload)
  | _ => none

/-- What `ReceiveDataHandler` makes of them, the ROUTER socket having taken the first off. -/
def receiveData : List (List UInt8) → Option (List UInt8)
  | [_, payload] => some payload
  | _ => none

/-! ### The sites -/

/-- The packet processor of every site; the server with its clients and an empty queue; what clients have
sent and `DecodePacket` has not been called on, what the server has queued and clients have not handled,
each message as its frames; the number of frames captured so far. -/
structure State where
  server : Tables
  client : UUID → Tables
  router : ZeroMQServer
  up : List (List (List UInt8) × Nat)
  down : List (List (List UInt8) × Nat)
  captures : Nat

def start : State := ⟨.empty, fun _ => .empty, ⟨true, [], []⟩, [], [], 0⟩

/-- The buffers the packet processor calls `SendBuffer` on, for one connection or for all. -/
def sends (events : List Event) : List Buffer :=
  events.filterMap fun
    | .sentToAll packet | .sentTo _ packet => some packet
    | .settled _ | .requested _ _ | .dropped _ | .discarded _ | .injected _ => none

/-- What the server queues for its clients. -/
def queued (router : ZeroMQServer) (events : List Event) : List (UUID × Buffer) :=
  (ZeroMQServer.state (perform events { router with sendBuffers := [] })).sendBuffers

/-- The messages for what is queued. -/
def addressed (capture : Nat) (buffers : List (UUID × Buffer)) : List (List (List UInt8) × Nat) :=
  buffers.map fun (client, buffer) => (serverMessage client buffer.bytes, capture)

/-- The messages for what a client sends: it has one peer, for one connection and for all. -/
def offered (id : UUID) (capture : Nat) (buffers : List Buffer) : List (List (List UInt8) × Nat) :=
  buffers.map fun buffer => (clientMessage id buffer.bytes, capture)

/-- The labels: a frame captured, a frame handled by the server for a connection and one handled by a
client, each with the capture it goes back to, the frame and the events; the timers of the packet
processors, the comings and goings of clients, and messages that are lost. -/
inductive Act
  | capture (site : Site) (f : Buffer) (events : List Event)
  | receive (connectionID : UUID) (capture : Nat) (f : Buffer) (events : List Event)
  | deliver (id : UUID) (capture : Nat) (f : Buffer) (events : List Event)
  | timer (site : Site) (events : List Event)
  | clients
  | lose

/-- What the timers make a packet processor do. -/
def IsTimer (op : Op) : Prop := op = .checkActiveIPAddresses ∨ op = .checkPendingIPMacRequests

inductive Step (sites : Sites) : State → Act → State → Prop
  | captureServer {n : State} {f : Buffer} {events : List Event} {t : Tables} :
      Proxy.Step sites.server n.server (.encodePacket f, events) t →
      Step sites n (.capture .server f events)
        { n with
          server := t
          down := n.down ++ addressed n.captures (queued n.router events)
          captures := n.captures + 1 }
  | captureClient {n : State} {id : UUID} {f : Buffer} {events : List Event} {t : Tables} :
      Proxy.Step (sites.client id) (n.client id) (.encodePacket f, events) t →
      Step sites n (.capture (.client id) f events)
        { n with
          client := Function.update n.client id t
          up := n.up ++ offered id n.captures (sends events)
          captures := n.captures + 1 }
  | receive {n : State} {message : List (List UInt8)} {capture : Nat}
      {before after : List (List (List UInt8) × Nat)} {id : UUID} {payload : List UInt8} {f : Buffer}
      {events : List Event} {t : Tables} :
      n.up = before ++ (message, capture) :: after → receiveNextBuffer message = some (id, payload) →
      f.bytes = payload → Proxy.Step sites.server n.server (.decodePacket id f, events) t →
      Step sites n (.receive id capture f events)
        { n with
          server := t
          up := before ++ after
          down := n.down ++ addressed capture (queued n.router events) }
  | deliver {n : State} {id : UUID} {frames : List (List UInt8)} {capture : Nat}
      {before after : List (List (List UInt8) × Nat)} {payload : List UInt8} {f : Buffer}
      {events : List Event} {t : Tables} :
      n.down = before ++ (identity id modeR :: frames, capture) :: after →
      receiveData frames = some payload → f.bytes = payload →
      Proxy.Step (sites.client id) (n.client id) (.decodePacket id f, events) t →
      Step sites n (.deliver id capture f events)
        { n with
          client := Function.update n.client id t
          up := n.up ++ offered id capture (sends events)
          down := before ++ after }
  | timerServer {n : State} {op : Op} {events : List Event} {t : Tables} : IsTimer op →
      Proxy.Step sites.server n.server (op, events) t →
      Step sites n (.timer .server events) { n with server := t }
  | timerClient {n : State} {id : UUID} {op : Op} {events : List Event} {t : Tables} : IsTimer op →
      Proxy.Step (sites.client id) (n.client id) (op, events) t →
      Step sites n (.timer (.client id) events) { n with client := Function.update n.client id t }
  | greet {n : State} {id : UUID} {clients : List UUID} :
      clients.Perm (Broadcast.updateClientActivityTime n.router.clients id) →
      Step sites n .clients { n with router := { n.router with clients } }
  | expire (n : State) (expired : UUID → Bool) :
      Step sites n .clients
        { n with router := { n.router with clients := n.router.clients.filter fun id => !expired id } }
  | lose {n : State} {up down : List (List (List UInt8) × Nat)} : up.Sublist n.up → down.Sublist n.down →
      Step sites n .lose { n with up, down }

abbrev Runs (sites : Sites) : List Act → State → Prop := Lib.Run (Step sites) start

/-- The frames captured, in the order of their numbers. -/
def captured (acts : List Act) : List (Site × Buffer) :=
  acts.filterMap fun
    | .capture site f _ => some (site, f)
    | .receive _ _ _ _ | .deliver _ _ _ _ | .timer _ _ | .clients | .lose => none

/-- The captures the server handled a frame of. -/
def received (acts : List Act) : List Nat :=
  acts.filterMap fun
    | .receive _ capture _ _ => some capture
    | .capture _ _ _ | .deliver _ _ _ _ | .timer _ _ | .clients | .lose => none

/-- The captures the clients handled a frame of. -/
def delivered (acts : List Act) : List (UUID × Nat) :=
  acts.filterMap fun
    | .deliver id capture _ _ => some (id, capture)
    | .capture _ _ _ | .receive _ _ _ _ | .timer _ _ | .clients | .lose => none

/-! ### What a call sends -/

theorem sends_append (events events' : List Event) : sends (events ++ events') = sends events ++ sends events' :=
  List.filterMap_append

theorem sends_of_quiet {quiet : List Event} (hquiet : ∀ event ∈ quiet, event.isDelivery = false) :
    sends quiet = [] := by
  refine List.filterMap_eq_nil_iff.mpr fun event hevent => ?_
  have h := hquiet event hevent
  cases event <;> first | rfl | cases h

/-- A captured frame is sent once or not at all. -/
theorem sends_encodePacket {cfg : Config} {t t' : Tables} {f : Buffer} {events : List Event}
    (hstep : Proxy.Step cfg t (.encodePacket f, events) t') : sends events = [] ∨ sends events = [f] := by
  cases hstep with
  | encodePacket now _ _ =>
      rcases encodePacket_cases cfg now t f with
        ⟨-, heq⟩ | ⟨source, destination, -, -, sent, hevents, hsent⟩
      · rw [heq]
        exact .inl rfl
      · right
        have hlearn : sends (updateIPTable cfg t source (macAt f.byte 6) .empty (now 0)).2 = [] := by
          rw [updateIPTable_events]
          split <;> rfl
        rw [hevents, sends_append, hlearn, List.nil_append]
        rcases hsent with rfl | ⟨connectionID, rfl⟩ <;> rfl

/-- The ways in which a received frame is handed on: with the frame `out` that it has become. -/
inductive HandsOn (cfg : Config) (out : Buffer) : List Event → Prop
  | nothing : HandsOn cfg out []
  | injects : HandsOn cfg out [.injected out]
  | sendsToAll : cfg.permissiveMode = true → cfg.serverMode = true →
      HandsOn cfg out [.sentToAll out, .injected out]
  | sendsTo (connectionID : UUID) : cfg.permissiveMode = true → cfg.serverMode = true →
      HandsOn cfg out [.sentTo connectionID out]

theorem forward_handsOn (cfg : Config) (type : Nat) (h : Handled) (packet : Buffer) :
    HandsOn cfg packet (forward cfg type h packet) := by
  unfold forward
  by_cases hinject : h.injectPacket = true
  · rw [if_pos hinject]
    by_cases hmode : (cfg.permissiveMode && cfg.serverMode) = true
    · obtain ⟨hpermissive, hserver⟩ := (Bool.and_eq_true _ _).mp hmode
      rw [if_pos hmode]
      split
      · exact .sendsToAll hpermissive hserver
      · split
        · split
          · exact .sendsToAll hpermissive hserver
          · exact .injects
        · exact .sendsTo _ hpermissive hserver
    · rw [if_neg hmode]
      exact .injects
  · rw [if_neg hinject]
    exact .nothing

/-- What `DecodePacket` does in the end. In transparent operation the frame stays as it is. -/
theorem decodePacket_handsOn {cfg : Config} {t t' : Tables} {id : UUID} {f : Buffer} {events : List Event}
    (hstep : Proxy.Step cfg t (.decodePacket id f, events) t') :
    ∃ out quiet rest, events = quiet ++ rest ∧ (∀ event ∈ quiet, event.isDelivery = false) ∧
      HandsOn cfg out rest ∧ out.length = f.length ∧ (cfg.transparentOperation = true → out = f) := by
  cases hstep with
  | @decodePacket fuel now _ _ _ h hdecode =>
      by_cases hinject : h.injectPacket = true
      · obtain ⟨type, packet, source, destination, -, -, -, -, -, haccepts, quiet, hevents, hquiet⟩ :=
          decodePacket_accepts hdecode hinject
        refine ⟨f.rewritten h.byte, quiet, _, hevents, hquiet, forward_handsOn cfg type h _, rfl, ?_⟩
        intro htransparent
        have hbyte : h.byte = f.byte := by
          generalize h.byte = byte at haccepts
          generalize h.destinationConnectionID = connectionID at haccepts
          cases haccepts with
          | transparent _ => rw [incoming, if_pos htransparent]
          | arpRequest hnot => exact absurd (htransparent.symm.trans hnot) (by decide)
          | arpReply hnot => exact absurd (htransparent.symm.trans hnot) (by decide)
          | ipv4Known hnot => exact absurd (htransparent.symm.trans hnot) (by decide)
          | ipv4Unknown hnot => exact absurd (htransparent.symm.trans hnot) (by decide)
          | ipv6 hnot => exact absurd (htransparent.symm.trans hnot) (by decide)
          | advertisement hnot => exact absurd (htransparent.symm.trans hnot) (by decide)
        rw [hbyte]
        rfl
      · obtain ⟨type, quiet, hevents, hquiet⟩ := decodePacket_forward hdecode
        have hnothing : forward cfg type h (f.rewritten h.byte) = [] := by
          rw [forward, if_neg hinject]
        refine ⟨f, quiet, [], ?_, hquiet, .nothing, rfl, fun _ => rfl⟩
        rw [hevents, hnothing]

/-- A received frame is sent on once or not at all, and only by a permissive server. -/
theorem HandsOn.sends {cfg : Config} {out : Buffer} {rest : List Event} (h : HandsOn cfg out rest) :
    Network.sends rest = [] ∨
      (cfg.permissiveMode = true ∧ cfg.serverMode = true ∧ Network.sends rest = [out]) := by
  cases h with
  | nothing => exact .inl rfl
  | injects => exact .inl rfl
  | sendsToAll hpermissive hserver => exact .inr ⟨hpermissive, hserver, rfl⟩
  | sendsTo _ hpermissive hserver => exact .inr ⟨hpermissive, hserver, rfl⟩

theorem sends_decodePacket {cfg : Config} {t t' : Tables} {id : UUID} {f : Buffer} {events : List Event}
    (hstep : Proxy.Step cfg t (.decodePacket id f, events) t') :
    sends events = [] ∨ ∃ out, cfg.permissiveMode = true ∧ cfg.serverMode = true ∧ sends events = [out] ∧
      out.length = f.length ∧ (cfg.transparentOperation = true → out = f) := by
  obtain ⟨out, quiet, rest, rfl, hquiet, hrest, hlength, htransparent⟩ := decodePacket_handsOn hstep
  rw [sends_append, sends_of_quiet hquiet, List.nil_append]
  rcases hrest.sends with hnone | ⟨hpermissive, hserver, hsent⟩
  · exact .inl hnone
  · exact .inr ⟨out, hpermissive, hserver, hsent, hlength, htransparent⟩

/-- A client hands nothing it received back to the server. -/
theorem sends_of_client {sites : Sites} {id : UUID} {t t' : Tables} {f : Buffer} {events : List Event}
    (hstep : Proxy.Step (sites.client id) t (.decodePacket id f, events) t') : sends events = [] := by
  rcases sends_decodePacket hstep with hnone | ⟨_, -, hserver, -⟩
  · exact hnone
  · rw [sites.client_mode] at hserver
    cases hserver

/-! ### What the server queues -/

theorem perform_of_sends_nil (s : ZeroMQServer) {events : List Event} (hsends : sends events = []) :
    perform events s = .ok s := by
  induction events with
  | nil => rfl
  | cons event events ih =>
      have hhandle : s.handle event = .ok s ∧ sends events = [] := by
        cases event with
        | sentToAll packet => cases hsends
        | sentTo connectionID packet => cases hsends
        | settled ip => exact ⟨rfl, hsends⟩
        | requested ip packet => exact ⟨rfl, hsends⟩
        | dropped ip => exact ⟨rfl, hsends⟩
        | discarded ip => exact ⟨rfl, hsends⟩
        | injected packet => exact ⟨rfl, hsends⟩
      rw [perform, hhandle.1]
      exact ih hhandle.2

theorem queued_of_sends_nil (router : ZeroMQServer) {events : List Event} (hsends : sends events = []) :
    queued router events = [] := by
  rw [queued, perform_of_sends_nil _ hsends]
  rfl

/-- What is queued for one buffer that is sent: no client gets it twice. -/
structure Copies (buffer : Buffer) (buffers : List (UUID × Buffer)) : Prop where
  nodup : (buffers.map Prod.fst).Nodup
  buffer : ∀ pair ∈ buffers, pair.2 = buffer

theorem copies_handle {s : ZeroMQServer} (hs : s.sendBuffers = []) (hclients : s.clients.Nodup)
    {event : Event} {buffer : Buffer} (hevent : sends [event] = [buffer]) :
    Copies buffer (ZeroMQServer.state (s.handle event)).sendBuffers := by
  by_cases henabled : s.enabled = true
  · cases event with
    | sentToAll packet =>
        obtain rfl : packet = buffer := (List.cons.inj hevent).1
        rw [handle, sendBufferToAll_state s packet henabled, hs, List.nil_append]
        constructor
        · rw [List.map_map]
          show (s.reached.map id).Nodup
          rw [List.map_id]
          exact hclients.sublist (List.takeWhile_sublist _)
        · intro pair hpair
          obtain ⟨client, -, rfl⟩ := List.mem_map.mp hpair
          rfl
    | sentTo connectionID packet =>
        obtain rfl : packet = buffer := (List.cons.inj hevent).1
        rw [handle, sendBuffer_of_enabled henabled]
        split
        · rw [ZeroMQServer.state, hs]
          exact ⟨List.nodup_nil, fun _ hpair => absurd hpair List.not_mem_nil⟩
        · rw [ZeroMQServer.state, hs]
          refine ⟨List.nodup_singleton _, fun pair hpair => ?_⟩
          rw [List.nil_append, List.mem_singleton] at hpair
          rw [hpair]
    | settled ip => cases hevent
    | requested ip packet => cases hevent
    | dropped ip => cases hevent
    | discarded ip => cases hevent
    | injected packet => cases hevent
  · rw [Bool.not_eq_true] at henabled
    have hnone := perform_disabled s [event] henabled
    have hhandle : (ZeroMQServer.state (s.handle event)).sendBuffers = [] := by
      cases event <;> simp [handle, sendBufferToAll, sendBuffer, henabled, ZeroMQServer.state, hs]
    rw [hhandle]
    exact ⟨List.nodup_nil, fun _ hpair => absurd hpair List.not_mem_nil⟩

/-- Behind the buffer that is sent nothing more is queued. -/
theorem state_perform_last {s : ZeroMQServer} (event : Event) {rest : List Event} (hrest : sends rest = []) :
    ZeroMQServer.state (perform (event :: rest) s) = ZeroMQServer.state (s.handle event) := by
  rw [perform]
  cases s.handle event with
  | error s' => rfl
  | ok s' =>
      show ZeroMQServer.state (perform rest s') = _
      rw [perform_of_sends_nil s' hrest]

theorem copies_queued {router : ZeroMQServer} (hclients : router.clients.Nodup) {events : List Event}
    {buffer : Buffer} (hsends : sends events = [buffer]) : Copies buffer (queued router events) := by
  unfold queued
  induction events with
  | nil => cases hsends
  | cons event events ih =>
      by_cases hevent : sends [event] = []
      · have hrest : sends events = [buffer] := by
          have hsplit := sends_append [event] events
          rw [hevent, List.nil_append] at hsplit
          rw [← hsplit]
          exact hsends
        have hhandle : ({ router with sendBuffers := [] } : ZeroMQServer).handle event
            = .ok { router with sendBuffers := [] } := by
          cases event <;> first | rfl | cases hevent
        rw [perform, hhandle]
        exact ih hrest
      · have hsplit : sends [event] ++ sends events = [buffer] := by
          rw [← sends_append]
          exact hsends
        rcases List.append_eq_singleton_iff.mp hsplit with ⟨hnil, -⟩ | ⟨hone, hnil⟩
        · exact absurd hnil hevent
        · have hempty : ({ router with sendBuffers := [] } : ZeroMQServer).sendBuffers = [] := rfl
          rw [state_perform_last event hnil]
          exact copies_handle hempty hclients hone

end Network

end Armore.Proxy
