import Armore.Lib.Mailbox
import Armore.Proxy.Broadcast

/-!
# The receive hand-off

Middleware threads queue received buffers; the poll thread captures with `EncodePackets` and injects with
`DecodePackets`. They share `m_receivedBuffers`, `m_queuedBufferCount` and the event descriptor, each
section under `m_receivedBuffersLock` being one step here. `InjectPacket` has a second way to use them: on
a frame that comes while the capture engine is being read, it stores the frame and raises the counter and
the descriptor for it. `EncodePackets` injects nothing, so that branch is never taken.

`SendBuffer` throws for a client with an empty key, and nothing between it and the `catch` block of `main`
catches that: both functions are left, and with them the main loop. No buffer is decoded after that.

A received buffer waits, is in the working list of the poll thread, or has been passed to `DecodePacket`.
-/

namespace Armore.Proxy

/-- Where the poll thread stands: in the main loop, in `EncodePackets`, in `DecodePackets` before its
lock, there with the buffers it took and has not processed, or behind the main loop that an exception has
ended. -/
inductive PollThread
  | polling
  | encoding
  | injecting
  | decoding (workingBuffers : List (UUID × Buffer))
  | ended (workingBuffers : List (UUID × Buffer))

namespace PollThread

def workingBuffers : PollThread → List (UUID × Buffer)
  | decoding workingBuffers | ended workingBuffers => workingBuffers
  | polling | encoding | injecting => []

/-- Inside `DecodePackets`. -/
def Decodes : PollThread → Prop
  | injecting | decoding _ => True
  | polling | encoding | ended _ => False

end PollThread

def processingIncoming : Int := 0

def processingOutgoing : Int := 1

/-- `received` is `m_receivedBuffers` with the counter of `m_fileDescriptor`; `injected` are the frames
given to the capture engine. -/
structure PacketProcessor where
  tables : Tables
  processingState : Int
  received : Lib.Mailbox (UUID × Buffer)
  queuedBufferCount : Int
  injectionQueue : List Buffer
  injected : List Buffer
  poll : PollThread

namespace PacketProcessor

/-- The constructor leaves `m_queuedBufferCount` as it finds it. -/
def construct (count : Int) : PacketProcessor where
  tables := .empty
  processingState := -1
  received := .empty
  queuedBufferCount := count
  injectionQueue := []
  injected := []
  poll := .polling

/-- The main loop sets `POLLOUT` when `GetQueuedBufferCount` is not zero. -/
def asksPOLLOUT (p : PacketProcessor) : Bool := p.queuedBufferCount != 0

def queueReceivedBuffer (p : PacketProcessor) (connectionBuffer : UUID × Buffer) : PacketProcessor :=
  { p with
    received := p.received.put connectionBuffer
    queuedBufferCount := p.queuedBufferCount + 1 }

def injectPacket (p : PacketProcessor) (packet : Buffer) : PacketProcessor :=
  if p.processingState = processingOutgoing then { p with injected := p.injected ++ [packet] }
  else
    { p with
      injectionQueue := p.injectionQueue ++ [packet]
      queuedBufferCount := p.queuedBufferCount + 1
      received := p.received.announce }

/-- `InjectPacket` on one frame after another. -/
def injectPackets (p : PacketProcessor) (packets : List Buffer) : PacketProcessor :=
  packets.foldl injectPacket p

/-- `DecodePackets` up to its lock. -/
def decodePackets (p : PacketProcessor) : PacketProcessor :=
  let p := { p with processingState := processingOutgoing, poll := .injecting }
  { p.injectPackets p.injectionQueue with injectionQueue := [] }

/-- The section of `DecodePackets` under the lock; `none` where the read of the descriptor blocks. -/
def takeBuffers (p : PacketProcessor) : Option PacketProcessor :=
  p.received.swap.map fun (workingBuffers, received) =>
    { p with received, queuedBufferCount := 0, poll := .decoding workingBuffers }

end PacketProcessor

namespace HandOff

open PacketProcessor ZeroMQServer

/-- A server that a run reaches throws while it performs the events, behind those in `before`. -/
structure Throws (cfg : Config) (events before : List Event) : Prop where
  serverMode : cfg.serverMode = true
  raises : ∃ acts s s' s'' event after, Broadcast.Runs cfg acts s ∧ events = before ++ event :: after
    ∧ perform before s = .ok s' ∧ s'.handle event = .error s''

/-- The steps of the middleware threads and of the poll thread. -/
inductive Act
  | queueReceivedBuffer (thread : Nat) (connectionBuffer : UUID × Buffer)
  | encodePackets
  | encode (op : Op)
  | decodePackets
  | takeBuffers
  | decodePacket (connectionBuffer : UUID × Buffer)
  | finish

/-- One step of any thread. What `EncodePackets` performs between its start and its return is any
operation of the processor that is not `DecodePacket`. An operation that throws has changed the tables
before it sends. -/
inductive Step (cfg : Config) : PacketProcessor → Act → PacketProcessor → Prop
  | queueReceivedBuffer (p : PacketProcessor) (thread : Nat) (connectionBuffer : UUID × Buffer) :
      Step cfg p (.queueReceivedBuffer thread connectionBuffer) (p.queueReceivedBuffer connectionBuffer)
  | encodePackets {p : PacketProcessor} : p.poll = .polling →
      Step cfg p .encodePackets { p with processingState := processingIncoming, poll := .encoding }
  | encode {p : PacketProcessor} {op : Op} {events : List Event} {tables : Tables} :
      p.poll = .encoding → (∀ sourceConnectionID f, op ≠ .decodePacket sourceConnectionID f) →
      Proxy.Step cfg p.tables (op, events) tables →
      Step cfg p (.encode op)
        ({ p with tables := tables }.injectPackets (events.filterMap Event.injection))
  | encodeThrows {p : PacketProcessor} {op : Op} {events before : List Event} {tables : Tables} :
      p.poll = .encoding → (∀ sourceConnectionID f, op ≠ .decodePacket sourceConnectionID f) →
      Proxy.Step cfg p.tables (op, events) tables → Throws cfg events before →
      Step cfg p (.encode op)
        ({ p with tables := tables, poll := .ended [] }.injectPackets (before.filterMap Event.injection))
  | decodePackets {p : PacketProcessor} : p.poll = .polling →
      Step cfg p .decodePackets p.decodePackets
  | takeBuffers {p p' : PacketProcessor} : p.poll = .injecting → p.takeBuffers = some p' →
      Step cfg p .takeBuffers p'
  | decodePacket {p : PacketProcessor} {connectionBuffer : UUID × Buffer}
      {workingBuffers : List (UUID × Buffer)} {events : List Event} {tables : Tables} :
      p.poll = .decoding (connectionBuffer :: workingBuffers) →
      Proxy.Step cfg p.tables (.decodePacket connectionBuffer.1 connectionBuffer.2, events) tables →
      Step cfg p (.decodePacket connectionBuffer)
        ({ p with tables := tables, poll := .decoding workingBuffers }.injectPackets
          (events.filterMap Event.injection))
  | decodePacketThrows {p : PacketProcessor} {connectionBuffer : UUID × Buffer}
      {workingBuffers : List (UUID × Buffer)} {events before : List Event} {tables : Tables} :
      p.poll = .decoding (connectionBuffer :: workingBuffers) →
      Proxy.Step cfg p.tables (.decodePacket connectionBuffer.1 connectionBuffer.2, events) tables →
      Throws cfg events before →
      Step cfg p (.decodePacket connectionBuffer)
        ({ p with tables := tables, poll := .ended workingBuffers }.injectPackets
          (before.filterMap Event.injection))
  | finish {p : PacketProcessor} : p.poll = .encoding ∨ p.poll = .decoding [] →
      Step cfg p .finish { p with poll := .polling }

/-- The runs of the processor, whatever memory `m_queuedBufferCount` was constructed in. -/
abbrev Runs (cfg : Config) (count : Int) : List Act → PacketProcessor → Prop :=
  Lib.Run (Step cfg) (construct count)

/-- The buffers queued, in order. -/
def queued (acts : List Act) : List (UUID × Buffer) :=
  acts.filterMap fun
    | .queueReceivedBuffer _ connectionBuffer => some connectionBuffer
    | _ => none

/-- The buffers passed to `DecodePacket`, in order. -/
def decoded (acts : List Act) : List (UUID × Buffer) :=
  acts.filterMap fun
    | .decodePacket connectionBuffer => some connectionBuffer
    | _ => none

/-! ### Injection -/

/-- What injects nothing injects nothing before an exception. -/
theorem injection_of_throws {cfg : Config} {events before : List Event} (hthrows : Throws cfg events before)
    (hnone : events.filterMap Event.injection = []) : before.filterMap Event.injection = [] := by
  obtain ⟨_, _, _, _, _, event, after, _, rfl, _⟩ := hthrows
  rw [List.filterMap_append] at hnone
  exact (List.append_eq_nil_iff.mp hnone).1

/-- While packets are decoded, injecting only reaches the capture engine. -/
theorem injectPackets_of_outgoing (p : PacketProcessor)
    (houtgoing : p.processingState = processingOutgoing) (packets : List Buffer) :
    p.injectPackets packets = { p with injected := p.injected ++ packets } := by
  induction packets generalizing p with
  | nil =>
      show p = { p with injected := p.injected ++ [] }
      rw [List.append_nil]
  | cons packet packets ih =>
      have hfirst : p.injectPacket packet = { p with injected := p.injected ++ [packet] } :=
        if_pos houtgoing
      show (p.injectPacket packet).injectPackets packets = _
      rw [hfirst, ih { p with injected := p.injected ++ [packet] } houtgoing, List.append_assoc,
        List.singleton_append]

/-! ### The invariant -/

/-- What every interleaving keeps. -/
structure HandsOff (acts : List Act) (p : PacketProcessor) : Prop where
  balanced : p.received.Balanced
  injectionQueue : p.injectionQueue = []
  outgoing : p.poll.Decodes → p.processingState = processingOutgoing
  order : queued acts = decoded acts ++ p.poll.workingBuffers ++ p.received.waiting
  count : Act.takeBuffers ∈ acts → p.queuedBufferCount = p.received.waiting.length

theorem handsOff_construct (count : Int) : HandsOff [] (construct count) where
  balanced := Lib.Mailbox.balanced_empty
  injectionQueue := rfl
  outgoing := nofun
  order := rfl
  count := by simp

theorem queued_snoc (acts : List Act) (act : Act) : queued (acts ++ [act]) = queued acts ++ queued [act] :=
  List.filterMap_append

theorem decoded_snoc (acts : List Act) (act : Act) :
    decoded (acts ++ [act]) = decoded acts ++ decoded [act] :=
  List.filterMap_append

/-- A step that neither queues nor decodes nor takes leaves the shared state to the others. -/
theorem HandsOff.idle {acts : List Act} {p p' : PacketProcessor} {act : Act} (hp : HandsOff acts p)
    (hqueued : queued [act] = []) (hdecoded : decoded [act] = []) (htake : act ≠ .takeBuffers)
    (hreceived : p'.received = p.received) (hcount : p'.queuedBufferCount = p.queuedBufferCount)
    (hqueue : p'.injectionQueue = [])
    (houtgoing : p'.poll.Decodes → p'.processingState = processingOutgoing)
    (hworking : p'.poll.workingBuffers = p.poll.workingBuffers) : HandsOff (acts ++ [act]) p' where
  balanced := hreceived ▸ hp.balanced
  injectionQueue := hqueue
  outgoing := houtgoing
  order := by
    rw [queued_snoc, decoded_snoc, hqueued, hdecoded, hreceived, hworking, List.append_nil,
      List.append_nil, hp.order]
  count := by
    intro hmem
    rw [hcount, hreceived]
    apply hp.count
    rcases List.mem_append.mp hmem with hmem | hmem
    · exact hmem
    · exact absurd (List.mem_singleton.mp hmem).symm htake

/-- The buffer at the head of the working list is passed to `DecodePacket`. -/
theorem HandsOff.decode {acts : List Act} {p p' : PacketProcessor} {connectionBuffer : UUID × Buffer}
    {workingBuffers : List (UUID × Buffer)} (hp : HandsOff acts p)
    (hpoll : p.poll = .decoding (connectionBuffer :: workingBuffers)) (hreceived : p'.received = p.received)
    (hcount : p'.queuedBufferCount = p.queuedBufferCount) (hqueue : p'.injectionQueue = p.injectionQueue)
    (houtgoing : p'.processingState = p.processingState)
    (hworking : p'.poll.workingBuffers = workingBuffers) :
    HandsOff (acts ++ [.decodePacket connectionBuffer]) p' where
  balanced := hreceived ▸ hp.balanced
  injectionQueue := hqueue.trans hp.injectionQueue
  outgoing := fun _ => houtgoing.trans (hp.outgoing (by rw [hpoll]; trivial))
  order := by
    rw [queued_snoc, decoded_snoc, hp.order, hpoll, hreceived, hworking]
    show decoded acts ++ (connectionBuffer :: workingBuffers) ++ p.received.waiting ++ []
      = decoded acts ++ [connectionBuffer] ++ workingBuffers ++ p.received.waiting
    simp
  count := by
    intro hmem
    rw [hcount, hreceived]
    exact hp.count (by simpa using hmem)

theorem handsOff_step {cfg : Config} {acts : List Act} {p p' : PacketProcessor} {act : Act}
    (hp : HandsOff acts p) (hstep : Step cfg p act p') : HandsOff (acts ++ [act]) p' := by
  cases hstep with
  | queueReceivedBuffer thread connectionBuffer =>
      refine ⟨hp.balanced.put connectionBuffer, hp.injectionQueue, hp.outgoing, ?_, ?_⟩
      · show _ = _ ++ p.poll.workingBuffers ++ (p.received.waiting ++ [connectionBuffer])
        rw [queued_snoc, decoded_snoc, hp.order, ← List.append_assoc _ p.received.waiting]
        show _ = decoded acts ++ [] ++ _ ++ _ ++ _
        rw [List.append_nil]
        rfl
      · intro hmem
        have htaken : Act.takeBuffers ∈ acts := by simpa using hmem
        show p.queuedBufferCount + 1 = ((p.received.waiting ++ [connectionBuffer]).length : Int)
        rw [hp.count htaken, List.length_append, List.length_singleton, Nat.cast_add, Nat.cast_one]
  | encodePackets hpoll =>
      refine hp.idle rfl rfl (by simp) rfl rfl hp.injectionQueue nofun ?_
      rw [hpoll]
      rfl
  | encode hpoll hop hencode =>
      rw [injection_of_encode hop hencode]
      exact hp.idle rfl rfl (by simp) rfl rfl hp.injectionQueue hp.outgoing rfl
  | encodeThrows hpoll hop hencode hthrows =>
      rw [injection_of_throws hthrows (injection_of_encode hop hencode)]
      refine hp.idle rfl rfl (by simp) rfl rfl hp.injectionQueue nofun ?_
      rw [hpoll]
      rfl
  | decodePackets hpoll =>
      have hnone : p.decodePackets
          = { p with processingState := processingOutgoing, poll := .injecting, injectionQueue := [] } := by
        show { injectPackets _ p.injectionQueue with injectionQueue := [] } = _
        rw [hp.injectionQueue]
        rfl
      rw [hnone]
      refine hp.idle rfl rfl (by simp) rfl rfl rfl (fun _ => rfl) ?_
      rw [hpoll]
      rfl
  | takeBuffers hpoll htake =>
      rw [PacketProcessor.takeBuffers, hp.balanced.swap, Option.map_some, Option.some.injEq] at htake
      subst htake
      have houtgoing := hp.outgoing (by rw [hpoll]; trivial)
      refine ⟨Lib.Mailbox.balanced_empty, hp.injectionQueue, fun _ => houtgoing, ?_, fun _ => rfl⟩
      -- the working list was empty and is now what waited
      rw [queued_snoc, decoded_snoc, hp.order, hpoll]
      show decoded acts ++ [] ++ p.received.waiting ++ [] = decoded acts ++ [] ++ p.received.waiting ++ []
      rfl
  | @decodePacket connectionBuffer workingBuffers events tables hpoll hdecode =>
      have houtgoing := hp.outgoing (by rw [hpoll]; trivial)
      rw [injectPackets_of_outgoing { p with tables := tables, poll := .decoding workingBuffers }
        houtgoing]
      exact hp.decode hpoll rfl rfl rfl rfl rfl
  | @decodePacketThrows connectionBuffer workingBuffers events before tables hpoll hdecode hthrows =>
      have houtgoing := hp.outgoing (by rw [hpoll]; trivial)
      rw [injectPackets_of_outgoing { p with tables := tables, poll := .ended workingBuffers } houtgoing]
      exact hp.decode hpoll rfl rfl rfl rfl rfl
  | finish hpoll =>
      refine hp.idle rfl rfl (by simp) rfl rfl hp.injectionQueue nofun ?_
      rcases hpoll with hpoll | hpoll <;> rw [hpoll] <;> rfl

theorem handsOff {cfg : Config} {count : Int} {acts : List Act} {p : PacketProcessor}
    (hrun : Runs cfg count acts p) : HandsOff acts p :=
  hrun.history_invariant HandsOff (handsOff_construct count) fun _ _ _ _ _ => handsOff_step

/-! ### What has been taken is decoded -/

theorem injectPackets_waiting (p : PacketProcessor) (packets : List Buffer) :
    (p.injectPackets packets).received.waiting = p.received.waiting := by
  induction packets generalizing p with
  | nil => rfl
  | cons packet packets ih =>
      show ((p.injectPacket packet).injectPackets packets).received.waiting = _
      rw [ih]
      unfold injectPacket
      split <;> rfl

theorem takeBuffers_waiting {p p' : PacketProcessor} (htake : p.takeBuffers = some p') :
    p'.received.waiting = [] := by
  obtain ⟨⟨workingBuffers, received⟩, hswap, heq⟩ := Option.map_eq_some_iff.mp htake
  rw [← heq]
  exact (Lib.Mailbox.swap_waiting hswap).1

theorem waiting_length_step {cfg : Config} {p p' : PacketProcessor} {act : Act}
    (hstep : Step cfg p act p') :
    p'.received.waiting.length ≤ p.received.waiting.length + (queued [act]).length := by
  cases hstep with
  | queueReceivedBuffer => exact (List.length_append ..).le
  | encodePackets => exact Nat.le_add_right _ _
  | encode | encodeThrows =>
      rw [injectPackets_waiting]
      exact Nat.le_add_right _ _
  | decodePackets =>
      show (injectPackets _ _).received.waiting.length ≤ _
      rw [injectPackets_waiting]
      exact Nat.le_add_right _ _
  | takeBuffers _ htake =>
      rw [takeBuffers_waiting htake]
      exact Nat.zero_le _
  | decodePacket | decodePacketThrows =>
      rw [injectPackets_waiting]
      exact Nat.le_add_right _ _
  | finish => exact Nat.le_add_right _ _

theorem waiting_length_run {cfg : Config} {p p' : PacketProcessor} {acts : List Act}
    (hrun : Lib.Run (Step cfg) p acts p') :
    p'.received.waiting.length ≤ p.received.waiting.length + (queued acts).length := by
  induction hrun with
  | nil => exact Nat.le_add_right _ _
  | snoc _ hlast ih =>
      have hstep := waiting_length_step hlast
      rw [queued_snoc, List.length_append]
      omega

/-- When `DecodePackets` has returned, whatever was queued before its lock has been decoded. -/
theorem queued_prefix_decoded {cfg : Config} {count : Int} {before after : List Act}
    {p : PacketProcessor} (hrun : Runs cfg count (before ++ [.takeBuffers] ++ after) p)
    (hpoll : p.poll = .polling) :
    queued before <+: decoded (before ++ [.takeBuffers] ++ after) := by
  obtain ⟨taken, hbefore, hafter⟩ := hrun.split
  obtain ⟨_, _, htake⟩ := hbefore.split
  have hwaiting := waiting_length_run hafter
  have hempty : taken.received.waiting = [] := by
    cases htake.of_single with
    | takeBuffers _ htake => exact takeBuffers_waiting htake
  have horder := (handsOff hrun).order
  rw [hpoll] at horder
  have hqueued : queued (before ++ [.takeBuffers] ++ after) = queued before ++ queued after := by
    simp [queued]
  have hdecoded : decoded (before ++ [.takeBuffers] ++ after)
      <+: queued (before ++ [.takeBuffers] ++ after) := by
    rw [horder, List.append_assoc (decoded _)]
    exact List.prefix_append _ _
  apply List.prefix_of_prefix_length_le ⟨queued after, hqueued.symm⟩ hdecoded
  have hlength := congrArg List.length horder
  rw [hqueued] at hlength
  simp only [List.length_append, PollThread.workingBuffers, List.length_nil] at hlength
  rw [hempty, List.length_nil] at hwaiting
  omega

/-! ### The end of the main loop -/

/-- Behind the main loop no buffer is decoded any more. -/
theorem ended_step {cfg : Config} {p p' : PacketProcessor} {act : Act} {left : List (UUID × Buffer)}
    (hpoll : p.poll = .ended left) (hstep : Step cfg p act p') : p'.poll = .ended left ∧ decoded [act] = [] := by
  cases hstep with
  | queueReceivedBuffer => exact ⟨hpoll, rfl⟩
  | encodePackets h | encode h | encodeThrows h | decodePackets h | takeBuffers h | decodePacket h
  | decodePacketThrows h =>
      rw [hpoll] at h
      cases h
  | finish h =>
      rw [hpoll] at h
      rcases h with h | h <;> cases h

theorem ended_run {cfg : Config} {p p' : PacketProcessor} {acts : List Act} {left : List (UUID × Buffer)}
    (hpoll : p.poll = .ended left) (hrun : Lib.Run (Step cfg) p acts p') :
    p'.poll = .ended left ∧ decoded acts = [] := by
  induction hrun with
  | nil => exact ⟨hpoll, rfl⟩
  | snoc _ hlast ih =>
      obtain ⟨hpoll', hnone⟩ := ended_step ih.1 hlast
      exact ⟨hpoll', by rw [decoded_snoc, ih.2, hnone]; rfl⟩

/-- **What the hand-off keeps.** In every state of every interleaving, what was queued is what has been
decoded, then the working list, then what waits, in this order; the descriptor counts what waits, so its
read never blocks and it is readable exactly while something waits; and from the first taking on the poll
loop asks for `POLLOUT` exactly then. When `DecodePackets` returns, everything queued before it took the
buffers has been decoded. Behind a main loop that an exception has ended, nothing is decoded. -/
theorem received_handed_off {cfg : Config} {count : Int} {acts : List Act} {p : PacketProcessor}
    (hrun : Runs cfg count acts p) :
    queued acts = decoded acts ++ p.poll.workingBuffers ++ p.received.waiting
      ∧ (∀ before after, acts = before ++ [.takeBuffers] ++ after → p.poll = .polling →
          queued before <+: decoded acts)
      ∧ p.received.counter = p.received.waiting.length
      ∧ p.takeBuffers ≠ none
      ∧ (p.received.Readable ↔ p.received.waiting ≠ [])
      ∧ (.takeBuffers ∈ acts → p.queuedBufferCount = p.received.waiting.length
          ∧ (p.asksPOLLOUT = true ↔ p.received.waiting ≠ []))
      ∧ ∀ left, p.poll = .ended left → ∀ more p', Lib.Run (Step cfg) p more p' → decoded more = [] := by
  have hp := handsOff hrun
  refine ⟨hp.order, ?_, hp.balanced, ?_, hp.balanced.readable_iff, ?_, ?_⟩
  · intro before after hacts hpoll
    subst hacts
    exact queued_prefix_decoded hrun hpoll
  · rw [PacketProcessor.takeBuffers, hp.balanced.swap]
    exact Option.some_ne_none _
  · intro htaken
    have hcount := hp.count htaken
    refine ⟨hcount, ?_⟩
    rw [asksPOLLOUT, hcount]
    simp
  · exact fun left hpoll more p' hmore => (ended_run hpoll hmore).2

/-- A received buffer that is too short for an Ethernet header. -/
def runt (octet : UInt8) : UUID × Buffer := (.replicate octet, .single octet)

/-- The law where a second thread queues while the poll thread decodes what it took. -/
theorem received_handed_off_while_decoding :
    ∃ acts p, Runs translatingServer 7 acts p ∧ decoded acts = [runt 1]
      ∧ queued acts = [runt 1] ++ p.poll.workingBuffers ++ [runt 2]
      ∧ p.received.counter = 1 ∧ p.queuedBufferCount = 1 ∧ p.takeBuffers ≠ none := by
  have hqueue : Runs translatingServer 7 _ _ := .single (.queueReceivedBuffer _ 0 (runt 1))
  have htake := (hqueue.snoc (.decodePackets rfl)).snoc (.takeBuffers rfl rfl)
  have hmore := htake.snoc (.queueReceivedBuffer _ 1 (runt 2))
  have hrun := hmore.snoc (.decodePacket rfl
    (.decodePacket (show decodePacket 0 _ (fun _ => 0) _ _ (runt 1).2 = some _ from rfl)))
  obtain ⟨horder, _, hcounter, hread, _, hcount, _⟩ := received_handed_off hrun
  exact ⟨_, _, hrun, rfl, horder, hcounter, (hcount (by simp)).1, hread⟩

/-! ### A broadcast that throws -/

/-- When a server throws, it does so at one of the events. -/
theorem exists_raising {events : List Event} {s e : ZeroMQServer} (herror : perform events s = .error e) :
    ∃ before s' s'' event after, events = before ++ event :: after ∧ perform before s = .ok s'
      ∧ s'.handle event = .error s'' := by
  induction events generalizing s with
  | nil => cases herror
  | cons event events ih =>
      rw [perform] at herror
      cases hhandle : s.handle event with
      | error s'' => exact ⟨[], s, s'', event, events, rfl, rfl, hhandle⟩
      | ok s₁ =>
          rw [hhandle] at herror
          obtain ⟨before, s', s'', event', after, rfl, hbefore, hraises⟩ := ih herror
          refine ⟨event :: before, s', s'', event', after, rfl, ?_, hraises⟩
          rw [perform, hhandle]
          exact hbefore

/-- The server with a client that has identified itself by zeros. -/
def zeroClient : ZeroMQServer := ⟨true, [.empty], []⟩

theorem runs_zeroClient :
    Broadcast.Runs translatingServer
      [.receiveNextBuffer [Broadcast.allZero, Broadcast.payload, Broadcast.payload]] zeroClient :=
  .single (.receiveNextBuffer (by decide))

/-- Handling a multicast packet throws at this server. -/
theorem throws_multicast : ∃ events tables before,
    Proxy.Step translatingServer .empty (.decodePacket (.replicate 3) multicast, events) tables
      ∧ Throws translatingServer events before := by
  have hthrown : (decodePacket 2 translatingServer (fun _ => 0) .empty (.replicate 3) multicast).map
      (fun h => (perform h.events zeroClient).toOption.isSome) = some false := by rfl
  obtain ⟨h, hdecode, hnone⟩ := Option.map_eq_some_iff.mp hthrown
  cases hperform : perform h.events zeroClient with
  | ok s =>
      rw [hperform] at hnone
      cases hnone
  | error s =>
      obtain ⟨before, s', s'', event, after, hevents, hbefore, hraises⟩ := exists_raising hperform
      exact ⟨h.events, h.tables, before, .decodePacket hdecode,
        rfl, _, _, s', s'', event, after, runs_zeroClient, hevents, hbefore, hraises⟩

/-- Two buffers are queued and taken, the first is a packet whose broadcast throws, and the second is not
decoded then and not in any continuation of the run. -/
theorem second_never_decoded :
    ∃ acts p, Runs translatingServer 0 acts p ∧ Act.takeBuffers ∈ acts
      ∧ queued acts = [(.replicate 3, multicast), runt 2] ∧ decoded acts = [(.replicate 3, multicast)]
      ∧ ∀ more p', Lib.Run (Step translatingServer) p more p' → decoded more = [] := by
  obtain ⟨events, tables, before, hdecode, hthrows⟩ := throws_multicast
  have hfirst : Runs translatingServer 0 _ _ := .single (.queueReceivedBuffer _ 0 (.replicate 3, multicast))
  have hqueue := hfirst.snoc (.queueReceivedBuffer _ 1 (runt 2))
  have htake := (hqueue.snoc (.decodePackets rfl)).snoc (.takeBuffers rfl rfl)
  have hrun := htake.snoc (.decodePacketThrows rfl hdecode hthrows)
  rw [injectPackets_of_outgoing _ rfl] at hrun
  exact ⟨_, _, hrun, by simp, rfl, rfl, fun more p' hmore => (ended_run rfl hmore).2⟩

end HandOff

end Armore.Proxy
