import Armore.Proxy.SplitHorizon

/-!
# Broadcast to the clients

`ReceiveNextBuffer` takes sixteen bytes at the start of the identity frame as the connection, whatever
the size of the frame, and `UpdateClientActivityTime` makes them a key of `m_clients`. `SendBuffer` throws
for the empty connection, and a broadcast calls it for every key. What comes between a message and its key,
and between a queued buffer and its `UpdateClientActivityTime`, does not touch the clients, so both are one
step here.
-/

namespace Armore.Proxy.Broadcast

open ZeroMQServer

/-- `UUID(*reinterpret_cast<uuid_t*>(zframe_data(frame)))`. -/
def connectionID (frame : Buffer) : UUID := ⟨fun i => frame.byte i.val⟩

/-- The read of the identity frame. -/
def identityAccess : Access := .touch 0 16

/-- A message that does not consist of identity, delimiter and payload is dropped. -/
def identityFrame : List Buffer → Option Buffer
  | [identity, _, _] => some identity
  | _ => none

/-- The keys of `m_clients` behind `UpdateClientActivityTime`. -/
def updateClientActivityTime (clients : List UUID) (client : UUID) : List UUID :=
  if client ∈ clients then clients else clients ++ [client]

/-- The clients behind `ReceiveNextBuffer`. -/
def receiveNextBuffer (clients : List UUID) (message : List Buffer) : List UUID :=
  match identityFrame message with
  | some frame => updateClientActivityTime clients (connectionID frame)
  | none => clients

inductive Act
  | receiveNextBuffer (message : List Buffer)
  | sendQueuedBuffer (client : UUID) (buffer : Buffer)
  | checkActiveClients (expired : UUID → Bool)
  | perform (events : List Event)

/-- One step of any thread; what the main loop does is a call of the packet processor with the events it
causes. The map may put its keys in any order when one is added. -/
inductive Step (cfg : Config) : ZeroMQServer → Act → ZeroMQServer → Prop
  | receiveNextBuffer {s : ZeroMQServer} {message : List Buffer} {clients : List UUID} :
      clients.Perm (receiveNextBuffer s.clients message) →
      Step cfg s (.receiveNextBuffer message) { s with clients }
  | sendQueuedBuffer {s : ZeroMQServer} {client : UUID} {buffer : Buffer} {clients : List UUID}
      {before after : List (UUID × Buffer)} : s.sendBuffers = before ++ (client, buffer) :: after →
      clients.Perm (updateClientActivityTime s.clients client) →
      Step cfg s (.sendQueuedBuffer client buffer) { s with clients, sendBuffers := before ++ after }
  | checkActiveClients (s : ZeroMQServer) (expired : UUID → Bool) :
      Step cfg s (.checkActiveClients expired)
        { s with clients := s.clients.filter fun client => !expired client }
  | perform {s : ZeroMQServer} {t t' : Tables} {op : Op} {events : List Event} :
      Proxy.Step cfg t (op, events) t' → Step cfg s (.perform events) (state (perform events s))

def start : ZeroMQServer := ⟨true, [], []⟩

abbrev Runs (cfg : Config) : List Act → ZeroMQServer → Prop := Lib.Run (Step cfg) start

/-- A message is read inside its identity frame. -/
def Act.ReadsInside (act : Act) : Prop :=
  ∀ message frame, act = .receiveNextBuffer message → identityFrame message = some frame →
    identityAccess.Inside frame.length

/-- No key is empty, and neither a broadcast nor handling a received frame throws. -/
structure Safe (cfg : Config) (s : ZeroMQServer) : Prop where
  clients : ∀ client ∈ s.clients, client.isEmpty = false
  sendBuffer : ∀ buffer, ∃ s', s.sendBufferToAll buffer = .ok s'
  decodePacket : ∀ (t t' : Tables) (sourceConnectionID : UUID) (f : Buffer) (events : List Event),
    Proxy.Step cfg t (.decodePacket sourceConnectionID f, events) t' → ∃ s', perform events s = .ok s'

/-- The identity frame is long enough for a connection, and that is not the empty one. -/
def Identified (message : List Buffer) : Prop :=
  ∀ frame, identityFrame message = some frame →
    16 ≤ frame.length ∧ (connectionID frame).isEmpty = false

/-! ### What a call leaves of the server -/

/-- A call of `SendBuffer` keeps the clients and queues for connections that are not empty. -/
structure Extends (s s' : ZeroMQServer) : Prop where
  clients : s'.clients = s.clients
  sendBuffers : ∀ queued ∈ s'.sendBuffers, queued ∈ s.sendBuffers ∨ queued.1.isEmpty = false

theorem Extends.refl (s : ZeroMQServer) : Extends s s := ⟨rfl, fun _ => Or.inl⟩

theorem Extends.trans {s s' s'' : ZeroMQServer} (h : Extends s s') (h' : Extends s' s'') :
    Extends s s'' where
  clients := h'.clients.trans h.clients
  sendBuffers := by
    intro queued hmem
    rcases h'.sendBuffers queued hmem with hmem | hnonempty
    · exact h.sendBuffers queued hmem
    · exact Or.inr hnonempty

theorem extends_bind {s : ZeroMQServer} {result : Except ZeroMQServer ZeroMQServer}
    {next : ZeroMQServer → Except ZeroMQServer ZeroMQServer} (hresult : Extends s (state result))
    (hnext : ∀ s', Extends s' (state (next s'))) : Extends s (state (result.bind next)) := by
  cases result with
  | ok s' => exact hresult.trans (hnext s')
  | error s' => exact hresult

theorem extends_sendBuffer (s : ZeroMQServer) (client : UUID) (buffer : Buffer) :
    Extends s (state (s.sendBuffer client buffer)) := by
  unfold sendBuffer
  split
  · exact .refl s
  · split
    · exact .refl s
    · rename_i hnonempty
      refine ⟨rfl, ?_⟩
      intro queued hmem
      rcases List.mem_append.mp hmem with hmem | hmem
      · exact Or.inl hmem
      · obtain rfl := List.mem_singleton.mp hmem
        exact Or.inr (Bool.eq_false_iff.mpr hnonempty)

theorem extends_sendToEach (buffer : Buffer) (clients : List UUID) (s : ZeroMQServer) :
    Extends s (state (sendToEach buffer clients s)) := by
  induction clients generalizing s with
  | nil => exact .refl s
  | cons client clients ih => exact extends_bind (extends_sendBuffer s client buffer) ih

theorem extends_handle (s : ZeroMQServer) (event : Event) : Extends s (state (s.handle event)) := by
  cases event with
  | sentToAll packet =>
      rw [handle, sendBufferToAll]
      split
      · exact .refl s
      · exact extends_sendToEach packet s.clients s
  | sentTo client packet => exact extends_sendBuffer s client packet
  | settled | requested | dropped | discarded | injected => exact .refl s

theorem extends_perform (events : List Event) (s : ZeroMQServer) :
    Extends s (state (perform events s)) := by
  induction events generalizing s with
  | nil => exact .refl s
  | cons event events ih => exact extends_bind (extends_handle s event) ih

/-! ### What does not throw -/

theorem sendBuffer_ok (s : ZeroMQServer) {client : UUID} (hclient : client.isEmpty = false)
    (buffer : Buffer) : ∃ s', s.sendBuffer client buffer = .ok s' := by
  unfold sendBuffer
  rw [hclient]
  split
  · exact ⟨_, rfl⟩
  · exact ⟨_, rfl⟩

theorem sendToEach_ok (buffer : Buffer) {clients : List UUID}
    (hclients : ∀ client ∈ clients, client.isEmpty = false) (s : ZeroMQServer) :
    ∃ s', sendToEach buffer clients s = .ok s' := by
  induction clients generalizing s with
  | nil => exact ⟨s, rfl⟩
  | cons client clients ih =>
      obtain ⟨s', hfirst⟩ := sendBuffer_ok s (hclients client List.mem_cons_self) buffer
      rw [sendToEach, hfirst]
      exact ih (fun other hother => hclients other (List.mem_cons_of_mem _ hother)) s'

theorem sendBufferToAll_ok {s : ZeroMQServer} (hclients : ∀ client ∈ s.clients, client.isEmpty = false)
    (buffer : Buffer) : ∃ s', s.sendBufferToAll buffer = .ok s' := by
  rw [sendBufferToAll]
  split
  · exact ⟨s, rfl⟩
  · exact sendToEach_ok buffer hclients s

theorem handle_ok {s : ZeroMQServer} (hclients : ∀ client ∈ s.clients, client.isEmpty = false)
    {event : Event} (hevent : ∀ client packet, event = .sentTo client packet → client.isEmpty = false) :
    ∃ s', s.handle event = .ok s' := by
  cases event with
  | sentToAll packet => exact sendBufferToAll_ok hclients packet
  | sentTo client packet => exact sendBuffer_ok s (hevent client packet rfl) packet
  | settled | requested | dropped | discarded | injected => exact ⟨s, rfl⟩

theorem perform_ok {s : ZeroMQServer} (hclients : ∀ client ∈ s.clients, client.isEmpty = false)
    {events : List Event}
    (hevents : ∀ client packet, .sentTo client packet ∈ events → client.isEmpty = false) :
    ∃ s', perform events s = .ok s' := by
  induction events generalizing s with
  | nil => exact ⟨s, rfl⟩
  | cons event events ih =>
      have hfirst : ∀ client packet, event = .sentTo client packet → client.isEmpty = false := by
        rintro client packet rfl
        exact hevents client packet List.mem_cons_self
      obtain ⟨s', hhandle⟩ := handle_ok hclients hfirst
      have hextends := extends_handle s event
      rw [hhandle] at hextends
      rw [perform, hhandle]
      apply ih
      · intro client hmem
        have hbefore : client ∈ s.clients := hextends.clients ▸ hmem
        exact hclients client hbefore
      · intro client packet hmem
        exact hevents client packet (List.mem_cons_of_mem _ hmem)

/-- A received frame is never sent to the empty connection. -/
theorem sentTo_of_decode {cfg : Config} {t t' : Tables} {sourceConnectionID : UUID} {f : Buffer}
    {events : List Event} (hstep : Proxy.Step cfg t (.decodePacket sourceConnectionID f, events) t')
    {client : UUID} {packet : Buffer} (hsent : .sentTo client packet ∈ events) :
    client.isEmpty = false := by
  cases hstep with
  | decodePacket hdecode =>
      obtain ⟨type, quiet, hevents, hquiet⟩ := decodePacket_forward hdecode
      rw [hevents, List.mem_append] at hsent
      rcases hsent with hsent | hsent
      · cases hquiet _ hsent
      · unfold forward at hsent
        split at hsent
        · split at hsent
          · split at hsent
            · simp at hsent
            · split at hsent
              · simp at hsent
              · rename_i hnonempty
                rw [List.mem_singleton, Event.sentTo.injEq] at hsent
                rw [hsent.1]
                exact Bool.eq_false_iff.mpr hnonempty
          · simp at hsent
        · cases hsent

/-! ### The invariant -/

/-- No key and no queued connection is empty. -/
structure Nonempty (s : ZeroMQServer) : Prop where
  clients : ∀ client ∈ s.clients, client.isEmpty = false
  sendBuffers : ∀ queued ∈ s.sendBuffers, queued.1.isEmpty = false

theorem Nonempty.safe {s : ZeroMQServer} (hs : Nonempty s) (cfg : Config) : Safe cfg s where
  clients := hs.clients
  sendBuffer := sendBufferToAll_ok hs.clients
  decodePacket _ _ _ _ _ hstep := perform_ok hs.clients fun _ _ => sentTo_of_decode hstep

theorem mem_updateClientActivityTime {clients : List UUID} {client other : UUID}
    (hmem : other ∈ updateClientActivityTime clients client) : other ∈ clients ∨ other = client := by
  unfold updateClientActivityTime at hmem
  split at hmem
  · exact Or.inl hmem
  · simpa using hmem

theorem mem_updateClientActivityTime_self (clients : List UUID) (client : UUID) :
    client ∈ updateClientActivityTime clients client := by
  unfold updateClientActivityTime
  split
  · assumption
  · exact List.mem_append_right _ (List.mem_singleton_self client)

theorem mem_receiveNextBuffer {clients : List UUID} {message : List Buffer}
    (hidentified : Identified message) {client : UUID} (hmem : client ∈ receiveNextBuffer clients message) :
    client ∈ clients ∨ client.isEmpty = false := by
  unfold receiveNextBuffer at hmem
  split at hmem
  · rename_i frame hframe
    rcases mem_updateClientActivityTime hmem with hmem | rfl
    · exact Or.inl hmem
    · exact Or.inr (hidentified frame hframe).2
  · exact Or.inl hmem

theorem nonempty_step {cfg : Config} {s s' : ZeroMQServer} {act : Act} (hs : Nonempty s)
    (hidentified : ∀ message, act = .receiveNextBuffer message → Identified message)
    (hstep : Step cfg s act s') : Nonempty s' := by
  cases hstep with
  | @receiveNextBuffer message clients hperm =>
      refine ⟨?_, hs.sendBuffers⟩
      intro client hmem
      rcases mem_receiveNextBuffer (hidentified message rfl) (hperm.mem_iff.mp hmem) with hmem | hnonempty
      · exact hs.clients client hmem
      · exact hnonempty
  | @sendQueuedBuffer client buffer clients before after hqueue hperm =>
      have hqueued : ∀ queued ∈ before ++ (client, buffer) :: after, queued.1.isEmpty = false :=
        hqueue ▸ hs.sendBuffers
      constructor
      · intro other hmem
        rcases mem_updateClientActivityTime (hperm.mem_iff.mp hmem) with hmem | rfl
        · exact hs.clients other hmem
        · exact hqueued (other, buffer) (List.mem_append_right _ List.mem_cons_self)
      · intro queued hmem
        apply hqueued
        rcases List.mem_append.mp hmem with hmem | hmem
        · exact List.mem_append_left _ hmem
        · exact List.mem_append_right _ (List.mem_cons_of_mem _ hmem)
  | checkActiveClients expired =>
      exact ⟨fun client hmem => hs.clients client (List.mem_filter.mp hmem).1, hs.sendBuffers⟩
  | @perform _ _ _ events _ =>
      have hextends := extends_perform events s
      constructor
      · rw [hextends.clients]
        exact hs.clients
      · intro queued hmem
        rcases hextends.sendBuffers queued hmem with hmem | hnonempty
        · exact hs.sendBuffers queued hmem
        · exact hnonempty

theorem nonempty_run {cfg : Config} {acts : List Act} {s : ZeroMQServer} (hrun : Runs cfg acts s)
    (hidentified : ∀ message, .receiveNextBuffer message ∈ acts → Identified message) : Nonempty s := by
  induction hrun with
  | nil => exact ⟨nofun, nofun⟩
  | snoc _ hlast ih =>
      have hbefore := ih fun message hmem => hidentified message (List.mem_append_left _ hmem)
      refine nonempty_step hbefore ?_ hlast
      rintro message rfl
      exact hidentified message (List.mem_append_right _ (List.mem_singleton_self _))

/-- In a run every message is read inside its identity frame, no key is ever empty and neither a broadcast
nor handling a received frame ever throws, if and only if every message of three frames has an identity
frame of sixteen bytes or more that does not begin with sixteen zeros. -/
theorem safe_iff {cfg : Config} {acts : List Act} {s : ZeroMQServer} (hrun : Runs cfg acts s) :
    (∀ before act after s₁ s₂, acts = before ++ act :: after → Runs cfg before s₁ →
      Step cfg s₁ act s₂ → act.ReadsInside ∧ Safe cfg s₂) ↔
    ∀ message, .receiveNextBuffer message ∈ acts → Identified message := by
  constructor
  · intro hsafe message hmem frame hframe
    obtain ⟨before, after, rfl⟩ := List.append_of_mem hmem
    obtain ⟨s₁, s₂, hbefore, hstep⟩ := hrun.at_step
    obtain ⟨hinside, hs⟩ := hsafe before _ after s₁ s₂ rfl hbefore hstep
    refine ⟨hinside message frame rfl hframe, ?_⟩
    cases hstep with
    | receiveNextBuffer hperm =>
        apply hs.clients
        rw [hperm.mem_iff, receiveNextBuffer, hframe]
        exact mem_updateClientActivityTime_self s₁.clients (connectionID frame)
  · rintro hidentified before act after s₁ s₂ rfl hbefore hstep
    constructor
    · rintro message frame rfl hframe
      exact (hidentified message (List.mem_append_right _ List.mem_cons_self) frame hframe).1
    · have hsofar : ∀ message, .receiveNextBuffer message ∈ before ++ [act] → Identified message := by
        intro message hmem
        apply hidentified
        rcases List.mem_append.mp hmem with hmem | hmem
        · exact List.mem_append_left _ hmem
        · rw [List.mem_singleton.mp hmem]
          exact List.mem_append_right _ List.mem_cons_self
      exact (nonempty_run (hbefore.snoc hstep) hsofar).safe cfg

/-- The identity that the ROUTER socket makes up for a peer that sets none. -/
def madeUp : Buffer := .ofList [0x00, 0x6B, 0x8B, 0x45, 0x67] (by simp)

/-- Sixteen zeros and the suffix. -/
def allZero : Buffer := .ofList (List.replicate 16 0x00 ++ [0x53]) (by decide)

def identified : Buffer := .ofList (List.replicate 16 0x03 ++ [0x53]) (by decide)

def payload : Buffer := .single 7

/-- The read goes beyond a frame of five bytes; after a frame of zeros a broadcast throws, and so does the
handling of a received multicast packet. -/
theorem peers_break_broadcast :
    ¬ (Act.receiveNextBuffer [madeUp, payload, payload]).ReadsInside ∧
    ∃ s, Runs translatingServer [.receiveNextBuffer [allZero, payload, payload]] s ∧
      UUID.empty ∈ s.clients ∧ (∀ buffer s', s.sendBufferToAll buffer ≠ .ok s') ∧
      ∃ events t, Proxy.Step translatingServer .empty (.decodePacket (.replicate 3) multicast, events) t ∧
        ∀ s', perform events s ≠ .ok s' := by
  constructor
  · intro hinside
    have hlength := hinside _ madeUp rfl rfl
    exact absurd hlength (by decide)
  · have hreceived : Step translatingServer start (.receiveNextBuffer [allZero, payload, payload])
        ⟨true, [connectionID allZero], []⟩ := .receiveNextBuffer (.refl _)
    have hthrown : (decodePacket 2 translatingServer (fun _ => 0) .empty (.replicate 3) multicast).map
        (fun h => (perform h.events ⟨true, [connectionID allZero], []⟩).toOption.isSome) = some false := by
      rfl
    obtain ⟨h, hdecode, herror⟩ := Option.map_eq_some_iff.mp hthrown
    refine ⟨_, .single hreceived, by decide, ?_, h.events, h.tables, .decodePacket hdecode, ?_⟩
    · rintro buffer s' ⟨⟩
    · intro s' hok
      rw [hok] at herror
      cases herror

/-- The law where a client is received from. -/
theorem safe_iff_identified :
    ∃ s, Runs translatingServer [.receiveNextBuffer [identified, payload, payload]] s ∧
      ((∀ before act after s₁ s₂, [.receiveNextBuffer [identified, payload, payload]] = before ++ act :: after →
        Runs translatingServer before s₁ → Step translatingServer s₁ act s₂ →
        act.ReadsInside ∧ Safe translatingServer s₂) ↔
      ∀ message, .receiveNextBuffer message ∈ [Act.receiveNextBuffer [identified, payload, payload]] →
        Identified message) := by
  have hreceived : Step translatingServer start (.receiveNextBuffer [identified, payload, payload])
      ⟨true, [connectionID identified], []⟩ := .receiveNextBuffer (.refl _)
  exact ⟨_, .single hreceived, safe_iff (.single hreceived)⟩

end Armore.Proxy.Broadcast
