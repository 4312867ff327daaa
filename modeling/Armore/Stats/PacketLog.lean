import Armore.Lib.Latest
import Armore.Stats.ObjectTargets
import Armore.Stats.ResponseTargets
import Mathlib.Algebra.GroupWithZero.Nat
import Mathlib.Algebra.Order.BigOperators.Group.List
import Mathlib.Algebra.Order.Group.Nat

/-!
# The packets in the log

A packet that names targets is logged once for each of them. One that names none is logged by the packet
after it: `new_packet` finds `g_wait` still set and passes the record of the packet before on. This module
follows a trace from the start of the collector to `bro_done` and counts what every packet adds to the log.
-/

namespace Armore.StatsCol

open Lib

/-- The handler of `bro_done`. Without `measure` it does nothing. -/
def broDone (s : Globals) : Left := { globals := s }

/-- What the log is given while the packets of a trace are worked off, from these variables to the end. -/
inductive Logs (config : Config) : Globals → List Packet → List Info → Prop
  | done (s : Globals) : Logs config s [] ((broDone s).queued.filterMap (loggedRecord s.heap))
  | packet {s : Globals} {packet : Packet} {engine : Engine} {packets : List Packet} {logged : List Info} :
      Drained config s packet engine → Logs config engine.globals packets logged →
      Logs config s (packet :: packets) (engine.logged ++ logged)

/-! ### What a packet names -/

/-- What has been parsed so far: the group and the variation of the prefixes that follow, when they are to
be paid attention to, and whether the connection has a target in the table. -/
structure Context where
  indexed : Option (UInt64 × UInt64)
  known : Bool

/-- The context of the next event of a connection. -/
def Globals.context (s : Globals) (c : Connection) : Context where
  indexed := s.indexed
  known := (s.gTgtTable.get? c.uid).isSome

/-- Whether an event names a target. -/
def Context.names (context : Context) : Event → Bool
  | .dnp3 (.objectHeader objType quaField rfLow rfHigh) => (headerTarget objType quaField rfLow rfHigh).isSome
  | .dnp3 (.objectPrefix _) => context.indexed.isSome
  | .modbusRequest _ => true
  | .modbusResponse _ => context.known
  | .dnp3 _ | .modbusMessage _ _ => false

/-- What an event changes. -/
def Context.next (context : Context) : Event → Context
  | .dnp3 (.objectHeader objType quaField _ _) =>
    if PrefixesYield (getObjPrefixCode quaField) (getRangeSpecCode quaField) then
      { context with indexed := some (getGroup objType, getVariation objType) }
    else { context with indexed := none }
  | .modbusRequest _ => { context with known := true }
  | .dnp3 _ | .modbusMessage _ _ | .modbusResponse _ => context

/-- How many targets the events name. -/
def Context.targets : Context → List Event → Nat
  | _, [] => 0
  | context, e :: events => (context.names e).toNat + (context.next e).targets events

def Event.isModbusResponse : Event → Bool
  | .modbusResponse _ => true
  | .dnp3 _ | .modbusMessage _ _ | .modbusRequest _ => false

/-- The packet has the call of a Modbus response. -/
def Packet.responds (packet : Packet) : Bool := packet.payload.any Event.isModbusResponse

/-- Every packet of a trace with the number of the targets it names. -/
def counted (config : Config) : Globals → List Packet → List (Packet × Nat)
  | _, [] => []
  | s, packet :: packets =>
    (packet, (s.context packet.conn).targets packet.payload)
      :: counted config (packet.handle config s).1 packets

/-! ### What an item says of its packet -/

/-- The time, the length, the sender and the receiver. -/
structure Header where
  ts : ℚ
  len : Nat
  sender : Option Text
  receiver : Option Text

def Info.header (info : Info) : Header := ⟨info.ts, info.len, info.sender, info.receiver⟩

def Packet.header (packet : Packet) : Header :=
  ⟨packet.time, packet.hdr.len, some packet.hdr.src, some packet.hdr.dst⟩

/-- The log is made of what each packet caused, one after the other: as many items as it names targets, or
one if it names none, all of them with the header of the packet. -/
def EachLogged (packets : List (Packet × Nat)) (logged : List Info) : Prop :=
  ∃ blocks : List (List Info), logged = blocks.flatten ∧
    List.Forall₂ (fun packet block => block.length = max 1 packet.2 ∧
      ∀ info ∈ block, info.header = packet.1.header) packets blocks

/-! ### One handler -/

/-- The records that reach the log. -/
def gens (items : List Item) : List Ref :=
  items.filterMap fun
    | .seen _ => none
    | .gen info => some info

/-- The current record is the same one, and every record there was keeps its header. -/
structure Frames (s s' : Globals) : Prop where
  gInfo : s'.gInfo = s.gInfo
  header : ∀ (r : Ref) (header : Header), s.heap[r]?.map Info.header = some header →
    s'.heap[r]?.map Info.header = some header

namespace Frames

variable {s s' s'' : Globals}

theorem refl (s : Globals) : Frames s s := ⟨rfl, fun _ _ h => h⟩

theorem trans (h : Frames s s') (h' : Frames s' s'') : Frames s s'' :=
  ⟨h'.gInfo.trans h.gInfo, fun r header hr => h'.header r header (h.header r header hr)⟩

/-- Where the heap is not touched. -/
theorem of_heap (hgInfo : s'.gInfo = s.gInfo) (hheap : s'.heap = s.heap) : Frames s s' := by
  refine ⟨hgInfo, ?_⟩
  intro r header hr
  rw [hheap]
  exact hr

theorem modifyInfo (s : Globals) {change : Info → Info} (hchange : ∀ info, (change info).header = info.header) :
    Frames s (s.modifyInfo change) := by
  refine ⟨rfl, ?_⟩
  intro r header hr
  by_cases heq : r = s.gInfo
  · subst heq
    have hinfo := Globals.info?_modifyInfo s change
    rw [Globals.info?, Globals.info?] at hinfo
    rw [show (s.modifyInfo change).heap[s.gInfo]? = _ from hinfo, Option.map_map, ← hr]
    exact Option.map_congr fun info _ => hchange info
  · rw [Globals.heap_modifyInfo_of_ne s change heq]
    exact hr

theorem alloc (s : Globals) (fresh : Info) : Frames s (s.alloc fresh) := by
  refine ⟨rfl, ?_⟩
  intro r header hr
  obtain ⟨info, hinfo, hheader⟩ := Option.map_eq_some_iff.mp hr
  rw [Globals.heap_alloc_of_some hinfo, Option.map_some, hheader]

theorem storeTarget (target : Text) (s : Globals) : Frames s (storeTarget target s).globals :=
  (@modifyInfo s (fun info => { info with target := some target }) fun _ => rfl).trans (of_heap rfl rfl)

theorem functionItem (c : Connection) (protocol func : Text) (isResponse : Bool) (s : Globals) :
    Frames s (functionItem 6 c protocol func isResponse s).globals := by
  rw [StatsCol.functionItem, if_neg (by decide)]
  cases s.gUid with
  | none => exact refl s
  | some uid => exact alloc s _

end Frames

/-- What a handler does for the log: it passes the record on when the event names a target, and the wait
ends then, or when the event is a response. -/
structure Effect (s : Globals) (left : Left) (named responds : Bool) : Prop where
  frames : Frames s left.globals
  gens : gens left.queued = List.replicate named.toNat s.gInfo
  gWait : left.globals.gWait = (s.gWait && !named && !responds)

namespace Effect

variable {s s' : Globals}

/-- An event that names nothing. -/
theorem quiet {left : Left} (hframes : Frames s left.globals) (hgens : StatsCol.gens left.queued = [])
    (hwait : left.globals.gWait = s.gWait) : Effect s left false false where
  frames := hframes
  gens := hgens
  gWait := by rw [hwait, Bool.not_false, Bool.and_true, Bool.and_true]

theorem storeTarget (hframes : Frames s s') (target : Text) (responds : Bool) :
    Effect s (storeTarget target s') true responds where
  frames := hframes.trans (.storeTarget target s')
  gens := by rw [← hframes.gInfo]; rfl
  gWait := by rw [Bool.not_true, Bool.and_false, Bool.false_and]; rfl

end Effect

theorem gens_functionItem (c : Connection) (protocol func : Text) (isResponse : Bool) (s : Globals) :
    gens (functionItem 6 c protocol func isResponse s).queued = [] := by
  rw [functionItem, if_neg (by decide)]
  cases s.gUid <;> rfl

theorem gWait_functionItem (c : Connection) (protocol func : Text) (isResponse : Bool) (s : Globals) :
    (functionItem 6 c protocol func isResponse s).globals.gWait = s.gWait := by
  rw [functionItem, if_neg (by decide)]
  cases s.gUid <;> rfl

theorem indexed_functionItem (c : Connection) (protocol func : Text) (isResponse : Bool) (s : Globals) :
    (functionItem 6 c protocol func isResponse s).globals.indexed = s.indexed := by
  rw [functionItem, if_neg (by decide)]
  cases s.gUid <;> rfl

theorem effect_functionItem {s s' : Globals} (hframes : Frames s s') (hwait : s'.gWait = s.gWait)
    (c : Connection) (protocol func : Text) (isResponse : Bool) :
    Effect s (functionItem 6 c protocol func isResponse s') false false :=
  .quiet (hframes.trans (.functionItem c protocol func isResponse s'))
    (gens_functionItem c protocol func isResponse s')
    ((gWait_functionItem c protocol func isResponse s').trans hwait)

theorem effect_dnp3HeaderBlock (destAddr srcAddr : UInt64) (s : Globals) :
    Effect s (dnp3HeaderBlock 6 destAddr srcAddr s) false false := by
  rw [dnp3HeaderBlock, if_pos (by decide)]
  have hmodify := @Frames.modifyInfo s
    (fun info => { info with uid := some (countText srcAddr ++ ':' :: countText destAddr) }) fun _ => rfl
  exact .quiet (hmodify.trans (.of_heap rfl rfl)) rfl rfl

theorem effect_dnp3ApplicationHeader (functionCodes : UInt64 → Text) (isResponse : Bool) (c : Connection)
    (fc : UInt64) (s : Globals) :
    Effect s (dnp3ApplicationHeader 6 functionCodes isResponse c fc s) false false := by
  rw [dnp3ApplicationHeader, if_pos (by decide)]
  have hprotocol := @Frames.modifyInfo s (fun info => { info with protocol := some "DNP3".toList }) fun _ => rfl
  have hfunction := hprotocol.trans (@Frames.modifyInfo _
    (fun info => { info with func := some (functionCodes fc), isResponse := some isResponse }) fun _ => rfl)
  exact effect_functionItem hfunction rfl c _ _ isResponse

theorem indexed_dnp3ApplicationHeader (functionCodes : UInt64 → Text) (isResponse : Bool) (c : Connection)
    (fc : UInt64) (s : Globals) :
    (dnp3ApplicationHeader 6 functionCodes isResponse c fc s).globals.indexed = s.indexed := by
  rw [dnp3ApplicationHeader, if_pos (by decide)]
  exact indexed_functionItem c _ _ isResponse _

theorem effect_dnp3ObjectHeader (objType quaField rfLow rfHigh : UInt64) (s : Globals) :
    Effect s (dnp3ObjectHeader 6 objType quaField rfLow rfHigh s)
      (headerTarget objType quaField rfLow rfHigh).isSome false := by
  rw [dnp3ObjectHeader_eq]
  have hheader : Frames s (s.withHeader objType quaField) := .of_heap rfl rfl
  cases headerTarget objType quaField rfLow rfHigh with
  | none => exact .quiet hheader rfl rfl
  | some target => exact .storeTarget hheader target false

theorem indexed_dnp3ObjectHeader (objType quaField rfLow rfHigh : UInt64) (s : Globals) :
    (dnp3ObjectHeader 6 objType quaField rfLow rfHigh s).globals.indexed =
      if PrefixesYield (getObjPrefixCode quaField) (getRangeSpecCode quaField) then
        some (getGroup objType, getVariation objType)
      else none := by
  have hstore : (dnp3ObjectHeader 6 objType quaField rfLow rfHigh s).globals.indexed =
      (s.withHeader objType quaField).indexed := by
    rw [dnp3ObjectHeader_eq]
    cases headerTarget objType quaField rfLow rfHigh <;> rfl
  rw [hstore, Globals.indexed, Globals.withHeader]
  by_cases hyield : PrefixesYield (getObjPrefixCode quaField) (getRangeSpecCode quaField)
  · rw [decide_eq_true hyield, if_pos hyield]
  · rw [decide_eq_false hyield, if_neg hyield]

theorem effect_dnp3ObjectPrefix (prefixValue : UInt64) (s : Globals) :
    Effect s (dnp3ObjectPrefix 6 prefixValue s) s.indexed.isSome false := by
  have hquiet : ∀ raised, Effect s { globals := s, raised := raised } false false := fun raised =>
    .quiet (.refl s) rfl rfl
  rw [Globals.indexed, dnp3ObjectPrefix, if_pos rfl]
  cases s.dnp3Prefix with
  | none => exact hquiet _
  | some attended =>
      cases attended with
      | false => exact hquiet _
      | true =>
          cases s.dnp3Group with
          | none => exact hquiet _
          | some group =>
              cases s.dnp3Variation with
              | none => exact hquiet _
              | some variation => exact .storeTarget (.refl s) _ false

theorem indexed_dnp3ObjectPrefix (prefixValue : UInt64) (s : Globals) :
    (dnp3ObjectPrefix 6 prefixValue s).globals.indexed = s.indexed := by
  rw [dnp3ObjectPrefix, if_pos rfl]
  split
  · rfl
  · rfl
  · split <;> rfl

theorem effect_modbusMessage (functionCodes : UInt64 → Text) (c : Connection) (headers : ModbusHeaders)
    (isOrig : Bool) (s : Globals) :
    Effect s (modbusMessage 6 functionCodes c headers isOrig s) false false := by
  have hprotocol := @Frames.modifyInfo s (fun info => { info with protocol := some "Modbus".toList }) fun _ => rfl
  have huid := hprotocol.trans (@Frames.modifyInfo _
    (fun info => { info with uid := some (countText headers.uid) }) fun _ => rfl)
  rw [modbusMessage, if_pos (by decide)]
  refine effect_functionItem (Frames.trans (huid.trans (.of_heap ?_ ?_)) (Frames.modifyInfo _ ?_)) ?_ c _ _ _
  · rfl
  · rfl
  · intro info
    rfl
  · rfl

theorem indexed_modbusMessage (functionCodes : UInt64 → Text) (c : Connection) (headers : ModbusHeaders)
    (isOrig : Bool) (s : Globals) :
    (modbusMessage 6 functionCodes c headers isOrig s).globals.indexed = s.indexed := by
  rw [modbusMessage, if_pos (by decide)]
  exact indexed_functionItem c _ _ _ _

section

variable {config : Config} {c : Connection} {s : Globals}

/-- What a handler does for the log follows from the context. -/
theorem effect_handle (hlevels : config.levels = 6) (hconn : s.gConn = some c) (e : Event) :
    Effect s (e.handle config c s) ((s.context c).names e) e.isModbusResponse := by
  cases e with
  | dnp3 e =>
      rw [Event.handle, hlevels]
      cases e with
      | headerBlock destAddr srcAddr => exact effect_dnp3HeaderBlock destAddr srcAddr s
      | applicationRequestHeader fc => exact effect_dnp3ApplicationHeader _ false c fc s
      | applicationResponseHeader fc => exact effect_dnp3ApplicationHeader _ true c fc s
      | objectHeader objType quaField rfLow rfHigh =>
          exact effect_dnp3ObjectHeader objType quaField rfLow rfHigh s
      | objectPrefix prefixValue => exact effect_dnp3ObjectPrefix prefixValue s
  | modbusMessage headers isOrig =>
      rw [Event.handle, hlevels]
      exact effect_modbusMessage _ c headers isOrig s
  | modbusRequest e =>
      rw [Event.handle, hlevels, e.handle_eq hconn]
      exact @Effect.storeTarget s (s.stopWait.putEntry c.uid e.target) (.of_heap rfl rfl) e.target false
  | modbusResponse e =>
      rw [Event.handle, hlevels, e.handle_eq, Context.names, Globals.context]
      cases htarget : s.gTgtTable.get? c.uid with
      | none =>
          rw [responseTarget_of_none hconn htarget]
          exact ⟨.of_heap rfl rfl, rfl, by rw [Event.isModbusResponse, Bool.not_true, Bool.and_false]; rfl⟩
      | some target =>
          rw [responseTarget_of_some hconn htarget]
          exact @Effect.storeTarget s s.stopWait (.of_heap rfl rfl) target true

theorem indexed_handle (hlevels : config.levels = 6) (hconn : s.gConn = some c) (e : Event) :
    (e.handle config c s).globals.indexed = ((s.context c).next e).indexed := by
  cases e with
  | dnp3 e =>
      rw [Event.handle, hlevels]
      cases e with
      | headerBlock => rfl
      | applicationRequestHeader fc | applicationResponseHeader fc =>
          exact indexed_dnp3ApplicationHeader _ _ c fc s
      | objectHeader objType quaField rfLow rfHigh =>
          refine (indexed_dnp3ObjectHeader objType quaField rfLow rfHigh s).trans ?_
          rw [Context.next]
          split <;> rfl
      | objectPrefix prefixValue => exact indexed_dnp3ObjectPrefix prefixValue s
  | modbusMessage headers isOrig =>
      rw [Event.handle, hlevels]
      exact indexed_modbusMessage _ c headers isOrig s
  | modbusRequest e =>
      rw [Event.handle, hlevels, e.handle_eq hconn]
      rfl
  | modbusResponse e =>
      rw [Event.handle, hlevels, e.handle_eq]
      cases htarget : s.gTgtTable.get? c.uid with
      | none =>
          rw [responseTarget_of_none hconn htarget]
          rfl
      | some target =>
          rw [responseTarget_of_some hconn htarget]
          rfl

theorem known_handle (hlevels : config.levels = 6) (hconn : s.gConn = some c) (e : Event) :
    ((e.handle config c s).globals.gTgtTable.get? c.uid).isSome = ((s.context c).next e).known := by
  by_cases hrequest : ∃ call, e = .modbusRequest call
  · obtain ⟨call, rfl⟩ := hrequest
    rw [Event.handle, hlevels, call.handle_eq hconn]
    show ((s.gTgtTable.put c.uid call.target).get? c.uid).isSome = true
    rw [Table.get?_put, if_pos rfl]
    rfl
  · rw [(keeps_handle fun call heq => hrequest ⟨call, heq⟩).gTgtTable]
    cases e with
    | dnp3 e =>
        cases e with
        | objectHeader =>
            rw [Context.next]
            split <;> rfl
        | headerBlock | applicationRequestHeader | applicationResponseHeader | objectPrefix => rfl
    | modbusMessage | modbusResponse => rfl
    | modbusRequest call => exact absurd ⟨call, rfl⟩ hrequest

theorem context_handle (hlevels : config.levels = 6) (hconn : s.gConn = some c) (e : Event) :
    (e.handle config c s).globals.context c = (s.context c).next e := by
  rw [Globals.context, indexed_handle hlevels hconn, known_handle hlevels hconn]

end

/-! ### One packet -/

theorem gens_append (items items' : List Item) : gens (items ++ items') = gens items ++ gens items' :=
  List.filterMap_append

/-- The handlers of the events together. -/
structure Effects (s s' : Globals) (queued : List Item) (targets : Nat) (responds : Bool) : Prop where
  frames : Frames s s'
  gens : gens queued = List.replicate targets s.gInfo
  gWait : s'.gWait = (s.gWait && targets == 0 && !responds)

theorem effects_handleAll {config : Config} (hlevels : config.levels = 6) {c : Connection} (events : List Event)
    {s : Globals} (hconn : s.gConn = some c) :
    Effects s (handleAll config c events s).1 (handleAll config c events s).2
      ((s.context c).targets events) (events.any Event.isModbusResponse) := by
  induction events generalizing s with
  | nil =>
      refine ⟨.refl s, rfl, ?_⟩
      show s.gWait = (s.gWait && true && true)
      rw [Bool.and_true, Bool.and_true]
  | cons e events ih =>
      have hfirst := effect_handle hlevels hconn e
      have hrest := ih ((gConn_handle hlevels c e s).trans hconn)
      rw [context_handle hlevels hconn] at hrest
      constructor
      · exact hfirst.frames.trans hrest.frames
      · rw [handleAll, gens_append, hfirst.gens, hrest.gens, hfirst.frames.gInfo, List.replicate_append_replicate]
        rfl
      · rw [handleAll, hrest.gWait, hfirst.gWait, Context.targets, List.any_cons]
        cases (s.context c).names e <;> cases e.isModbusResponse <;> simp

/-- What a packet does to the log: it passes on the record of a packet that waits, then its own once for
each target, and waits itself when it names none and has no response. -/
structure PacketEffect (s s' : Globals) (queued : List Item) (packet : Packet) (targets : Nat) : Prop where
  old : ∀ (r : Ref) (header : Header), s.heap[r]?.map Info.header = some header →
    s'.heap[r]?.map Info.header = some header
  own : s'.heap[s'.gInfo]?.map Info.header = some packet.header
  gens : gens queued = (if s.gWait = true then [s.gInfo] else []) ++ List.replicate targets s'.gInfo
  gWait : s'.gWait = (targets == 0 && !packet.responds)

theorem heap_newPacket (packet : Packet) (s : Globals) :
    ∃ fresh : Info, (newPacket 6 packet.conn packet.time packet.hdr s).globals.heap = s.heap ++ [fresh] ++ [fresh]
      ∧ fresh.header = packet.header :=
  ⟨_, rfl, rfl⟩

theorem gens_newPacket (packet : Packet) (s : Globals) :
    gens (newPacket 6 packet.conn packet.time packet.hdr s).queued = if s.gWait = true then [s.gInfo] else [] := by
  show gens ((if s.gWait then [Item.gen s.gInfo] else []) ++ [.seen _]) = _
  rw [gens_append]
  split <;> rfl

theorem effect_packet {config : Config} (hlevels : config.levels = 6) (s : Globals) (packet : Packet) :
    PacketEffect s (packet.handle config s).1 (packet.handle config s).2 packet
      ((s.context packet.conn).targets packet.payload) := by
  obtain ⟨fresh, hheap, hfresh⟩ := heap_newPacket packet s
  have hgens := gens_newPacket packet s
  have hrest : Effects (newPacket 6 packet.conn packet.time packet.hdr s).globals (packet.handle config s).1
      (handleAll config packet.conn packet.payload (newPacket 6 packet.conn packet.time packet.hdr s).globals).2
      ((s.context packet.conn).targets packet.payload) packet.responds := by
    rw [Packet.handle, hlevels]
    exact effects_handleAll hlevels packet.payload rfl
  have hinfo : (packet.handle config s).1.gInfo = s.heap.length := hrest.frames.gInfo
  constructor
  · intro r header hr
    apply hrest.frames.header
    obtain ⟨info, hr, hheader⟩ := Option.map_eq_some_iff.mp hr
    rw [hheap, List.append_assoc, getElem?_append_of_some hr, Option.map_some, hheader]
  · rw [hinfo]
    apply hrest.frames.header
    rw [hheap, getElem?_append_of_some (getElem?_snoc_length s.heap fresh), Option.map_some, hfresh]
  · rw [hinfo, Packet.handle, hlevels, gens_append, hgens, hrest.gens]
    rfl
  · rw [hrest.gWait]
    rfl

/-! ### The trace -/

/-- How often each packet of a trace is in the log: as often as it names targets; when it names none, once
if it has no response and a packet follows. -/
def emitted : List (Packet × Nat) → List Nat
  | [] => []
  | (packet, targets) :: packets =>
    (if targets = 0 then (if packet.responds || packets.isEmpty then 0 else 1) else targets) :: emitted packets

/-- A packet that names no target has no response, and another packet follows. -/
def NoneLost (packets : List (Packet × Nat)) : Prop :=
  ∀ (i : Nat) (packet : Packet), packets[i]? = some (packet, 0) →
    packet.responds = false ∧ i + 1 < packets.length

theorem isEmpty_counted (config : Config) (s : Globals) (packets : List Packet) :
    (counted config s packets).isEmpty = packets.isEmpty := by
  cases packets <;> rfl

theorem filterMap_loggedRecord (heap : List Info) (items : List Item) :
    items.filterMap (loggedRecord heap) = (gens items).filterMap fun info => heap[info]? := by
  rw [gens, List.filterMap_filterMap]
  congr 1
  funext item
  cases item <;> rfl

theorem filterMap_replicate {α β : Type} {f : α → Option β} {a : α} {b : β} (hf : f a = some b) (n : Nat) :
    (List.replicate n a).filterMap f = List.replicate n b := by
  induction n with
  | zero => rfl
  | succ n ih => rw [List.replicate_succ, List.filterMap_cons_some hf, ih, List.replicate_succ]

theorem waiting_record {heap : List Info} {waits : Bool} {record : Ref} {waiting : Header}
    (hwaiting : waits = true → heap[record]?.map Info.header = some waiting) :
    ∃ first : List Info, (if waits = true then [record] else []).filterMap (fun info => heap[info]?) = first ∧
      first.length = (if waits = true then 1 else 0) ∧ ∀ info ∈ first, info.header = waiting := by
  cases waits with
  | false => exact ⟨[], rfl, rfl, List.forall_mem_nil _⟩
  | true =>
    obtain ⟨info, hinfo, hold⟩ := Option.map_eq_some_iff.mp (hwaiting rfl)
    refine ⟨[info], ?_, rfl, List.forall_mem_singleton.mpr hold⟩
    rw [if_pos rfl, List.filterMap_cons_some hinfo, List.filterMap_nil]

/-- A packet's own records, and the one that waits when it names no target and has no response. -/
theorem block_length (targets : Nat) (responds last : Bool) :
    targets + (if (targets == 0 && !responds) = true ∧ last = false then 1 else 0) =
      if targets = 0 then (if responds || last then 0 else 1) else targets := by
  cases targets with
  | zero => cases responds <;> cases last <;> rfl
  | succ n => simp

/-- What the log is given: the record that waits, if a packet follows, and then what each packet adds. -/
theorem logs_blocks {config : Config} (hlevels : config.levels = 6) {s : Globals} {packets : List Packet}
    {logged : List Info} (hlogs : Logs config s packets logged) {waiting : Header}
    (hwaiting : s.gWait = true → s.heap[s.gInfo]?.map Info.header = some waiting) :
    ∃ (flushed : List Info) (blocks : List (List Info)), logged = flushed ++ blocks.flatten ∧
      flushed.length = (if s.gWait = true ∧ packets.isEmpty = false then 1 else 0) ∧
      (∀ info ∈ flushed, info.header = waiting) ∧
      List.Forall₂ (fun packet block => ∀ info ∈ block, info.header = packet.1.header)
        (counted config s packets) blocks ∧
      blocks.map List.length = emitted (counted config s packets) := by
  induction hlogs generalizing waiting with
  | done s => exact ⟨[], [], rfl, by simp, List.forall_mem_nil _, .nil, rfl⟩
  | @packet s packet engine packets logged hdrained _ ih =>
      have heffect := effect_packet hlevels s packet
      obtain ⟨own, hown, hheader⟩ := Option.map_eq_some_iff.mp heffect.own
      rw [drained_iff.mp hdrained] at ih ⊢
      obtain ⟨flushed, blocks, rfl, hlength, hflushed, hheaders, hlengths⟩ := ih fun _ => heffect.own
      have hrecords : (packet.handle config s).2.filterMap (loggedRecord (packet.handle config s).1.heap) =
          (if s.gWait = true then [s.gInfo] else []).filterMap
            (fun info => (packet.handle config s).1.heap[info]?) ++
          List.replicate ((s.context packet.conn).targets packet.payload) own := by
        rw [filterMap_loggedRecord, heffect.gens, List.filterMap_append, filterMap_replicate hown]
      obtain ⟨first, hfirst, hfirstlength, hfirstheader⟩ :=
        waiting_record fun hwait => heffect.old _ _ (hwaiting hwait)
      refine ⟨first, (List.replicate ((s.context packet.conn).targets packet.payload) own ++ flushed) :: blocks,
        ?_, ?_, hfirstheader, .cons ?_ hheaders, ?_⟩
      · rw [hrecords, hfirst, List.flatten_cons, List.append_assoc, List.append_assoc]
      · simpa using hfirstlength
      · intro info hmem
        rcases List.mem_append.mp hmem with hmem | hmem
        · rw [List.eq_of_mem_replicate hmem]
          exact hheader
        · exact hflushed info hmem
      · rw [List.map_cons, hlengths, List.length_append, List.length_replicate, hlength, heffect.gWait]
        rw [counted, emitted, isEmpty_counted, block_length]

theorem emitted_le (packets : List (Packet × Nat)) :
    List.Forall₂ (· ≤ ·) (emitted packets) (packets.map fun packet => max 1 packet.2) := by
  induction packets with
  | nil => exact .nil
  | cons packet packets ih =>
      refine .cons ?_ ih
      dsimp only
      split
      · split <;> omega
      · exact Nat.le_max_right _ _

/-- Where the sums are the same, nothing is smaller. -/
theorem eq_of_sum_eq {xs ys : List Nat} (hle : List.Forall₂ (· ≤ ·) xs ys) (hsum : xs.sum = ys.sum) : xs = ys := by
  induction hle with
  | nil => rfl
  | @cons x y xs ys hxy hrest ih =>
      have hrestsum := hrest.sum_le_sum
      rw [List.sum_cons, List.sum_cons] at hsum
      obtain rfl : x = y := by omega
      rw [ih (by omega)]

theorem noneLost_cons (packet : Packet) (targets : Nat) (packets : List (Packet × Nat)) :
    NoneLost ((packet, targets) :: packets) ↔
      (targets = 0 → packet.responds = false ∧ packets.isEmpty = false) ∧ NoneLost packets := by
  constructor
  · intro hall
    constructor
    · rintro rfl
      obtain ⟨hresponds, hlength⟩ := hall 0 packet rfl
      refine ⟨hresponds, ?_⟩
      cases packets with
      | nil => exact absurd hlength (Nat.lt_irrefl 1)
      | cons => rfl
    · intro i other hi
      obtain ⟨hresponds, hlength⟩ := hall (i + 1) other hi
      exact ⟨hresponds, Nat.lt_of_succ_lt_succ hlength⟩
  · rintro ⟨hfirst, hall⟩ i other hi
    cases i with
    | zero =>
        cases hi
        obtain ⟨hresponds, hnext⟩ := hfirst rfl
        refine ⟨hresponds, ?_⟩
        cases packets with
        | nil => cases hnext
        | cons => exact Nat.succ_lt_succ (Nat.succ_pos _)
    | succ i =>
        obtain ⟨hresponds, hlength⟩ := hall i other hi
        exact ⟨hresponds, Nat.succ_lt_succ hlength⟩

theorem emitted_eq_iff (packets : List (Packet × Nat)) :
    emitted packets = packets.map (fun packet => max 1 packet.2) ↔ NoneLost packets := by
  induction packets with
  | nil => exact iff_of_true rfl nofun
  | cons packet packets ih =>
      obtain ⟨packet, targets⟩ := packet
      rw [emitted, List.map_cons, List.cons.injEq, ih, noneLost_cons]
      cases targets with
      | zero => cases packet.responds <;> cases packets.isEmpty <;> simp
      | succ targets => simp

/-- The blocks have the right lengths and the right headers. -/
theorem forall₂_blocks {packets : List (Packet × Nat)} {blocks : List (List Info)} :
    List.Forall₂ (fun packet block => block.length = max 1 packet.2 ∧
      ∀ info ∈ block, info.header = packet.1.header) packets blocks ↔
    blocks.map List.length = packets.map (fun packet => max 1 packet.2) ∧
      List.Forall₂ (fun packet block => ∀ info ∈ block, info.header = packet.1.header) packets blocks := by
  constructor
  · intro hall
    induction hall with
    | nil => exact ⟨rfl, .nil⟩
    | cons hfirst _ ih =>
        refine ⟨?_, .cons hfirst.2 ih.2⟩
        rw [List.map_cons, List.map_cons, hfirst.1, ih.1]
  · rintro ⟨hlengths, hheaders⟩
    induction hheaders with
    | nil => exact .nil
    | cons hfirst _ ih =>
        rw [List.map_cons, List.map_cons, List.cons.injEq] at hlengths
        exact .cons ⟨hlengths.1, hfirst⟩ (ih hlengths.2)

/-- The items of all packets. -/
theorem EachLogged.length {packets : List (Packet × Nat)} {logged : List Info} (h : EachLogged packets logged) :
    logged.length = (packets.map fun packet => max 1 packet.2).sum := by
  obtain ⟨blocks, rfl, hblocks⟩ := h
  rw [List.length_flatten, (forall₂_blocks.mp hblocks).1]

theorem exists_logs (config : Config) (s : Globals) (packets : List Packet) : ∃ logged, Logs config s packets logged := by
  induction packets generalizing s with
  | nil => exact ⟨_, .done s⟩
  | cons packet packets ih =>
      obtain ⟨logged, hlogs⟩ := ih (packet.handle config s).1
      exact ⟨_, .packet (drained_iff.mpr rfl) hlogs⟩

/-- Every trace is worked off, and **every packet reaches the log**, as often as it names targets and once
when it names none, with its own time, length, sender and receiver, if and only if every packet that names no
target has no Modbus response and is followed by another packet. -/
theorem each_logged_iff {config : Config} (hlevels : config.levels = 6) (packets : List Packet) :
    (∃ logged, Logs config {} packets logged) ∧ ∀ logged, Logs config {} packets logged →
      (EachLogged (counted config {} packets) logged ↔ NoneLost (counted config {} packets)) := by
  refine ⟨exists_logs config {} packets, ?_⟩
  intro logged hlogs
  have hwaiting : ({} : Globals).gWait = true →
      ({} : Globals).heap[({} : Globals).gInfo]?.map Info.header = some ⟨0, 0, none, none⟩ := by
    rintro ⟨⟩
  obtain ⟨flushed, blocks, hlogged, hlength, _, hheaders, hlengths⟩ := logs_blocks hlevels hlogs hwaiting
  obtain rfl : flushed = [] := List.eq_nil_of_length_eq_zero hlength
  rw [List.nil_append] at hlogged
  rw [← emitted_eq_iff]
  constructor
  · rintro ⟨blocks', hlogged', hblocks'⟩
    obtain ⟨hlengths', _⟩ := forall₂_blocks.mp hblocks'
    apply eq_of_sum_eq (emitted_le _)
    rw [← hlengths, ← hlengths', ← List.length_flatten, ← List.length_flatten, ← hlogged, ← hlogged']
  · intro hall
    rw [hall] at hlengths
    exact ⟨blocks, hlogged, forall₂_blocks.mpr ⟨hlengths, hheaders⟩⟩

/-- A packet with these events. -/
def samplePacket (payload : List Event) : Packet := ⟨sampleConn, 1, sampleHdr, payload⟩

/-- A request to read eight coils, and its response. -/
def answered : List Packet :=
  [samplePacket [.modbusMessage ⟨1, 1, 1⟩ true, .modbusRequest (.readCoils 0 8)],
    samplePacket [.modbusMessage ⟨1, 1, 1⟩ false, .modbusResponse .readCoils]]

theorem each_logged_iff_answered :
    (∃ logged, Logs readConfig {} answered logged) ∧ ∀ logged, Logs readConfig {} answered logged →
      (EachLogged (counted readConfig {} answered) logged ↔ NoneLost (counted readConfig {} answered)) :=
  each_logged_iff rfl answered

/-- A packet of no protocol that ends the trace is not logged, and neither is a response whose connection has
no target in the table. -/
theorem not_each_logged :
    (∃ logged, Logs readConfig {} [samplePacket []] logged ∧
      ¬ EachLogged (counted readConfig {} [samplePacket []]) logged) ∧
    (∃ logged, Logs readConfig {} (answered.drop 1 ++ answered) logged ∧
      ¬ EachLogged (counted readConfig {} (answered.drop 1 ++ answered)) logged) := by
  constructor
  · refine ⟨_, .packet (drained_iff.mpr rfl) (.done _), ?_⟩
    intro hall
    exact absurd hall.length (by decide)
  · refine ⟨_, .packet (drained_iff.mpr rfl) (.packet (drained_iff.mpr rfl) (.packet (drained_iff.mpr rfl) (.done _))), ?_⟩
    intro hall
    exact absurd hall.length (by decide)

end Armore.StatsCol
