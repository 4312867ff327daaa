import Armore.Lib.EventQueue
import Armore.Lib.Run
import Armore.Stats.Dnp3
import Armore.Stats.Modbus

/-!
# The packets of a run

The engine queues the events of a packet and then dispatches what waits, first in, first out. The events
`item_seen` and `item_gen` that the handlers of a packet queue are thus behind all the handlers of the
packet, and their consumers, the counter and the log, read the records as the last handler left them.
-/

namespace Armore.StatsCol

open Lib

/-- The events of the protocols. -/
inductive Event
  | dnp3 (e : Dnp3Event)
  | modbusMessage (headers : ModbusHeaders) (isOrig : Bool)
  | modbusRequest (e : ModbusRequest)
  | modbusResponse (e : ModbusResponse)

/-- `col_levels`, and the names of the functions of both protocols. -/
structure Config where
  levels : Nat
  dnp3FunctionCodes : UInt64 → Text
  modbusFunctionCodes : UInt64 → Text

/-- A table of function names with one entry, and the number for every other code. -/
def oneName (known : UInt64) (name : Text) (code : UInt64) : Text :=
  if code = known then name else "unknown-".toList ++ countText code

/-- All levels, with the names of the reading functions. -/
def readConfig : Config := ⟨6, oneName 1 "READ".toList, oneName 1 "READ_COILS".toList⟩

/-- The handler of an event. -/
def Event.handle (config : Config) (c : Connection) : Event → Globals → Left
  | .dnp3 e => e.handle config.levels config.dnp3FunctionCodes c
  | .modbusMessage headers isOrig =>
    StatsCol.modbusMessage config.levels config.modbusFunctionCodes c headers isOrig
  | .modbusRequest e => e.handle config.levels
  | .modbusResponse e => e.handle config.levels

/-- What waits in the queue of the engine. -/
inductive Queued
  | packet (c : Connection) (time : ℚ) (p : PktHdr)
  | handler (c : Connection) (e : Event)
  | item (item : Item)

/-- The variables of the collector, and what its consumers were given. -/
structure Engine where
  globals : Globals
  seen : List Info := []
  logged : List Info := []

/-- A handler of the collector runs, or a consumer is given the record of an item. -/
def dispatch (config : Config) (engine : Engine) : Queued → Engine × List Queued
  | .packet c time p =>
    let left := newPacket config.levels c time p engine.globals
    ({ engine with globals := left.globals }, left.queued.map .item)
  | .handler c e =>
    let left := e.handle config c engine.globals
    ({ engine with globals := left.globals }, left.queued.map .item)
  | .item (.seen info) => ({ engine with seen := engine.seen ++ (engine.globals.heap[info]?).toList }, [])
  | .item (.gen info) => ({ engine with logged := engine.logged ++ (engine.globals.heap[info]?).toList }, [])

/-- A packet: its connection, when it came, its header and what the analyzers find in it. -/
structure Packet where
  conn : Connection
  time : ℚ
  hdr : PktHdr
  payload : List Event

/-- What the engine queues for a packet. -/
def Packet.queue (packet : Packet) : List Queued :=
  .packet packet.conn packet.time packet.hdr :: packet.payload.map (.handler packet.conn)

/-- The engine works off the queue of a packet. -/
def Drained (config : Config) (s : Globals) (packet : Packet) (engine : Engine) : Prop :=
  ∃ fuel, drain (dispatch config) fuel { globals := s } packet.queue = some engine

/-- A packet from the point of view of the collector. -/
def PacketStep (config : Config) (s : Globals) (packet : Packet) (s' : Globals) : Prop :=
  ∃ engine, Drained config s packet engine ∧ engine.globals = s'

/-! ### In two rounds -/

/-- The handlers of the events one after the other. -/
def handleAll (config : Config) (c : Connection) : List Event → Globals → Globals × List Item
  | [], s => (s, [])
  | e :: events, s =>
    let left := e.handle config c s
    let rest := handleAll config c events left.globals
    (rest.1, left.queued ++ rest.2)

/-- The handlers of a packet. -/
def Packet.handle (config : Config) (packet : Packet) (s : Globals) : Globals × List Item :=
  let left := newPacket config.levels packet.conn packet.time packet.hdr s
  let rest := handleAll config packet.conn packet.payload left.globals
  (rest.1, left.queued ++ rest.2)

/-- The record the counter is given. -/
def seenRecord (heap : List Info) : Item → Option Info
  | .seen info => heap[info]?
  | .gen _ => none

/-- The record the log is given. -/
def loggedRecord (heap : List Info) : Item → Option Info
  | .seen _ => none
  | .gen info => heap[info]?

theorem dispatchAll_handlers (config : Config) (c : Connection) (events : List Event) (engine : Engine) :
    dispatchAll (dispatch config) engine (events.map (.handler c)) =
      ({ engine with globals := (handleAll config c events engine.globals).1 },
        (handleAll config c events engine.globals).2.map .item) := by
  induction events generalizing engine with
  | nil => rfl
  | cons e events ih =>
      rw [List.map_cons, dispatchAll_cons, ih, handleAll, List.map_append]
      rfl

theorem dispatchAll_queue (config : Config) (packet : Packet) (engine : Engine) :
    dispatchAll (dispatch config) engine packet.queue =
      ({ engine with globals := (packet.handle config engine.globals).1 },
        (packet.handle config engine.globals).2.map .item) := by
  rw [Packet.queue, dispatchAll_cons, dispatchAll_handlers, Packet.handle, List.map_append]
  rfl

theorem dispatchAll_items (config : Config) (items : List Item) (engine : Engine) :
    dispatchAll (dispatch config) engine (items.map .item) =
      ({ engine with
          seen := engine.seen ++ items.filterMap (seenRecord engine.globals.heap)
          logged := engine.logged ++ items.filterMap (loggedRecord engine.globals.heap) }, []) := by
  induction items generalizing engine with
  | nil =>
      show (engine, []) = _
      rw [List.filterMap_nil, List.filterMap_nil, List.append_nil, List.append_nil]
  | cons item items ih =>
      rw [List.map_cons, dispatchAll_cons, ih]
      cases item with
      | seen info =>
          cases hinfo : engine.globals.heap[info]? <;>
            simp [dispatch, seenRecord, loggedRecord, List.filterMap_cons, hinfo]
      | gen info =>
          cases hinfo : engine.globals.heap[info]? <;>
            simp [dispatch, seenRecord, loggedRecord, List.filterMap_cons, hinfo]

/-- **The queue of a packet is worked off**, and the consumers read the records that the handlers left. -/
theorem drained_iff {config : Config} {s : Globals} {packet : Packet} {engine : Engine} :
    Drained config s packet engine ↔
      engine =
        { globals := (packet.handle config s).1
          seen := (packet.handle config s).2.filterMap (seenRecord (packet.handle config s).1.heap)
          logged := (packet.handle config s).2.filterMap (loggedRecord (packet.handle config s).1.heap) } := by
  have hdrain : Drained config s packet
      { globals := (packet.handle config s).1
        seen := (packet.handle config s).2.filterMap (seenRecord (packet.handle config s).1.heap)
        logged := (packet.handle config s).2.filterMap (loggedRecord (packet.handle config s).1.heap) } := by
    have hquiet : ∀ e ∈ (dispatchAll (dispatch config) { globals := s } packet.queue).2,
        ∀ engine, (dispatch config engine e).2 = [] := by
      rw [dispatchAll_queue]
      intro e he engine
      obtain ⟨item, _, rfl⟩ := List.mem_map.mp he
      cases item <;> rfl
    refine ⟨_, (drain_two_rounds hquiet).trans ?_⟩
    rw [dispatchAll_queue, dispatchAll_items]
    rfl
  constructor
  · intro ⟨fuel, hfuel⟩
    obtain ⟨_, hother⟩ := hdrain
    exact drain_unique hfuel hother
  · intro heq
    rw [heq]
    exact hdrain

theorem packetStep_iff {config : Config} {s s' : Globals} {packet : Packet} :
    PacketStep config s packet s' ↔ s' = (packet.handle config s).1 := by
  constructor
  · intro ⟨engine, hdrained, hglobals⟩
    rw [← hglobals, drained_iff.mp hdrained]
  · intro heq
    exact ⟨_, drained_iff.mpr rfl, heq.symm⟩

end Armore.StatsCol
