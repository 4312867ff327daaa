import Armore.Lib.Table
import Armore.Proxy.Frame

/-!
# The IP table and the pending requests

The packet processor keeps two hash maps: `m_ipTable` says for a network address which hardware
address and which connection it was last seen with, `m_pendingIPMacRequests` says for which addresses a
resolution request is out. Five operations touch them. Every read of the clock is an argument, so
nothing below depends on what the clock does.

What the operations do to the addresses is `binding_updateIPTable` and its neighbours: the rest of the
development reads a table through `Tables.binding` and never opens an entry.
-/

namespace Armore.Proxy

open Armore.Lib

/-- What a `PacketProcessor` is constructed with, and the two facts it reads off its engines: the local
hardware address of the capture engine and whether the middleware is in server mode. -/
structure Config where
  transparentOperation : Bool
  permissiveMode : Bool
  ipv4Netmask : UInt32
  inactiveIPTimeout : Int
  macResolutionTimeout : Int
  localMACAddress : MacAddress
  serverMode : Bool

/-- A server in permissive mode that translates addresses, with a 24-bit netmask; for the traces below. -/
def translatingServer : Config where
  transparentOperation := false
  permissiveMode := true
  ipv4Netmask := 0x00FFFFFF
  inactiveIPTimeout := 600
  macResolutionTimeout := 60
  localMACAddress := .copyFrom fun _ => 0x02
  serverMode := true

/-- `tuple<MacAddress, UUID, time_t>`. -/
structure IPEntry where
  mac : MacAddress
  connectionID : UUID
  lastAccess : Int
  deriving DecidableEq

/-- The two maps of a `PacketProcessor`. -/
structure Tables where
  ipTable : Table IPAddress IPEntry
  pendingIPMacRequests : Table IPAddress Int

/-- What an outside observer of the packet processor sees. -/
inductive Event
  /-- An address leaves the pending requests. -/
  | settled (ip : IPAddress)
  /-- `InjectPacket` of an ARP or NDP request for an address. -/
  | requested (ip : IPAddress) (packet : Buffer)
  /-- An IP packet is dropped because the hardware address of its destination is not known. -/
  | dropped (ip : IPAddress)
  /-- An ARP reply or neighbour advertisement is dropped because nobody is known at its target. -/
  | discarded (ip : IPAddress)
  /-- `InjectPacket` of the received frame. -/
  | injected (packet : Buffer)
  /-- `SendBuffer` to all clients. -/
  | sentToAll (packet : Buffer)
  /-- `SendBuffer` to one connection. -/
  | sentTo (connectionID : UUID) (packet : Buffer)

namespace Tables

/-- Both maps empty, as the constructor leaves them. -/
def empty : Tables := ⟨∅, ∅⟩

/-- The hardware address and connection stored for an address. -/
def binding (t : Tables) (ip : IPAddress) : Option (MacAddress × UUID) :=
  (t.ipTable.get? ip).map fun entry => (entry.mac, entry.connectionID)

def pendingIPMacRequestExists (t : Tables) (ip : IPAddress) : Bool :=
  (t.pendingIPMacRequests.get? ip).isSome

theorem mem_ipTable {t : Tables} {ip : IPAddress} : ip ∈ t.ipTable ↔ t.binding ip ≠ none := by
  rw [← Table.get?_isSome, binding]
  cases t.ipTable.get? ip <;> simp

theorem mem_pendingIPMacRequests {t : Tables} {ip : IPAddress} :
    ip ∈ t.pendingIPMacRequests ↔ t.pendingIPMacRequestExists ip = true := by
  rw [← Table.get?_isSome, pendingIPMacRequestExists]

@[simp] theorem binding_empty (ip : IPAddress) : empty.binding ip = none := rfl

@[simp] theorem pendingIPMacRequestExists_empty (ip : IPAddress) :
    empty.pendingIPMacRequestExists ip = false := rfl

/-! ### The operations -/

def updateIPTable (cfg : Config) (t : Tables) (ip : IPAddress) (etherMac : Memory)
    (connectionID : UUID) (now : Int) : Tables × List Event :=
  if ip.isValid cfg.ipv4Netmask then
    let mac := MacAddress.copyFrom etherMac
    match t.ipTable.get? ip with
    | none =>
        let t := { t with ipTable := t.ipTable.put ip ⟨mac, connectionID, now⟩ }
        if t.pendingIPMacRequestExists ip then
          ({ t with pendingIPMacRequests := t.pendingIPMacRequests.remove ip }, [.settled ip])
        else (t, [])
    | some entry =>
        if connectionID.isEmpty then
          ({ t with ipTable := t.ipTable.put ip { entry with lastAccess := now } }, [])
        else ({ t with ipTable := t.ipTable.put ip ⟨mac, connectionID, now⟩ }, [])
  else (t, [])

/-- `TryIPTableLookup`: what was found, and the table with the access time of the entry renewed. -/
def tryIPTableLookup (t : Tables) (ip : IPAddress) (now : Int) :
    Tables × Option (MacAddress × UUID) :=
  match t.ipTable.get? ip with
  | none => (t, none)
  | some entry =>
      ({ t with ipTable := t.ipTable.put ip { entry with lastAccess := now } },
        some (entry.mac, entry.connectionID))

/-- `m_pendingIPMacRequests[ip] = time(nullptr)`. -/
def addPending (t : Tables) (ip : IPAddress) (now : Int) : Tables :=
  { t with pendingIPMacRequests := t.pendingIPMacRequests.put ip now }

def checkActiveIPAddresses (cfg : Config) (t : Tables) (now : Int) : Tables :=
  { t with ipTable := t.ipTable.sweep fun entry =>
      decide (cfg.inactiveIPTimeout < now - entry.lastAccess) }

/-- The test of `CheckPendingIPMacRequests`. -/
def requestExpired (cfg : Config) (now lastActivity : Int) : Bool :=
  decide (cfg.macResolutionTimeout < now - lastActivity)

def checkPendingIPMacRequests (cfg : Config) (t : Tables) (now : Int) : Tables × List Event :=
  ({ t with pendingIPMacRequests := t.pendingIPMacRequests.sweep (requestExpired cfg now) },
    (t.pendingIPMacRequests.keysWhere (requestExpired cfg now)).map .settled)

/-! ### What they do to the stored bindings -/

/-- The one way a stored binding changes: a valid address is bound to what it was seen with when it has
no binding yet or when it was seen on a connection. -/
theorem binding_updateIPTable (cfg : Config) (t : Tables) (ip : IPAddress) (etherMac : Memory)
    (connectionID : UUID) (now : Int) (other : IPAddress) :
    (updateIPTable cfg t ip etherMac connectionID now).1.binding other
      = if other = ip ∧ ip.isValid cfg.ipv4Netmask = true
            ∧ (t.binding ip = none ∨ connectionID ≠ UUID.empty) then
          some (MacAddress.copyFrom etherMac, connectionID)
        else t.binding other := by
  unfold updateIPTable binding
  by_cases hvalid : ip.isValid cfg.ipv4Netmask = true
  · cases hget : t.ipTable.get? ip with
    | none =>
        by_cases hpending : pendingIPMacRequestExists
            { t with ipTable := t.ipTable.put ip ⟨MacAddress.copyFrom etherMac, connectionID, now⟩ } ip
        <;> by_cases hother : other = ip
        <;> simp [hvalid, hpending, hother, Table.get?_put]
    | some entry =>
        by_cases hempty : connectionID = UUID.empty
        <;> by_cases hother : other = ip
        <;> simp [hvalid, hget, hempty, hother, Table.get?_put]
  · simp [hvalid]

@[simp] theorem tryIPTableLookup_result (t : Tables) (ip : IPAddress) (now : Int) :
    (tryIPTableLookup t ip now).2 = t.binding ip := by
  unfold tryIPTableLookup binding
  cases t.ipTable.get? ip <;> rfl

@[simp] theorem binding_tryIPTableLookup (t : Tables) (ip : IPAddress) (now : Int)
    (other : IPAddress) : (tryIPTableLookup t ip now).1.binding other = t.binding other := by
  unfold tryIPTableLookup binding
  cases hget : t.ipTable.get? ip with
  | none => rfl
  | some entry => by_cases hother : other = ip <;> simp [hget, hother, Table.get?_put]

@[simp] theorem binding_addPending (t : Tables) (ip : IPAddress) (now : Int) (other : IPAddress) :
    (t.addPending ip now).binding other = t.binding other := rfl

/-- A time-out takes a binding away or leaves it as it is. -/
theorem binding_checkActiveIPAddresses (cfg : Config) (t : Tables) (now : Int) (ip : IPAddress) :
    (checkActiveIPAddresses cfg t now).binding ip = none
      ∨ (checkActiveIPAddresses cfg t now).binding ip = t.binding ip := by
  simp only [checkActiveIPAddresses, binding, Table.get?_sweep]
  cases t.ipTable.get? ip with
  | none => exact .inl rfl
  | some entry =>
      rw [Option.filter_some]
      split
      · exact .inr rfl
      · exact .inl rfl

@[simp] theorem binding_checkPendingIPMacRequests (cfg : Config) (t : Tables) (now : Int)
    (ip : IPAddress) : (checkPendingIPMacRequests cfg t now).1.binding ip = t.binding ip := rfl

/-! ### What they do to the pending requests -/

/-- A new entry settles the request for its address. -/
theorem updateIPTable_events (cfg : Config) (t : Tables) (ip : IPAddress) (etherMac : Memory)
    (connectionID : UUID) (now : Int) :
    (updateIPTable cfg t ip etherMac connectionID now).2
      = if ip.isValid cfg.ipv4Netmask = true ∧ t.binding ip = none
            ∧ t.pendingIPMacRequestExists ip = true then [.settled ip] else [] := by
  unfold updateIPTable binding pendingIPMacRequestExists
  by_cases hvalid : ip.isValid cfg.ipv4Netmask = true
  · cases hget : t.ipTable.get? ip with
    | none => cases hpending : t.pendingIPMacRequests.get? ip <;> simp [hvalid, hpending]
    | some entry => by_cases hempty : connectionID = UUID.empty <;> simp [hvalid, hempty]
  · simp [hvalid]

theorem pendingIPMacRequestExists_updateIPTable (cfg : Config) (t : Tables) (ip : IPAddress)
    (etherMac : Memory) (connectionID : UUID) (now : Int) (other : IPAddress) :
    (updateIPTable cfg t ip etherMac connectionID now).1.pendingIPMacRequestExists other
      = if other = ip ∧ ip.isValid cfg.ipv4Netmask = true ∧ t.binding ip = none then false
        else t.pendingIPMacRequestExists other := by
  unfold updateIPTable binding pendingIPMacRequestExists
  by_cases hvalid : ip.isValid cfg.ipv4Netmask = true
  · cases hget : t.ipTable.get? ip with
    | none =>
        cases hpending : t.pendingIPMacRequests.get? ip <;> by_cases hother : other = ip
        <;> simp [hvalid, hpending, hother, Table.get?_remove]
    | some entry => by_cases hempty : connectionID = UUID.empty <;> simp [hvalid, hempty]
  · simp [hvalid]

@[simp] theorem pending_tryIPTableLookup (t : Tables) (ip : IPAddress) (now : Int) :
    (tryIPTableLookup t ip now).1.pendingIPMacRequests = t.pendingIPMacRequests := by
  unfold tryIPTableLookup
  cases t.ipTable.get? ip <;> rfl

@[simp] theorem pendingIPMacRequestExists_tryIPTableLookup (t : Tables) (ip other : IPAddress)
    (now : Int) : (tryIPTableLookup t ip now).1.pendingIPMacRequestExists other
      = t.pendingIPMacRequestExists other := by
  simp [pendingIPMacRequestExists]

theorem pendingIPMacRequestExists_addPending (t : Tables) (ip other : IPAddress) (now : Int) :
    (t.addPending ip now).pendingIPMacRequestExists other
      = (decide (other = ip) || t.pendingIPMacRequestExists other) := by
  by_cases hother : other = ip <;>
    simp [pendingIPMacRequestExists, addPending, Table.get?_put, hother]

@[simp] theorem pendingIPMacRequestExists_checkActiveIPAddresses (cfg : Config) (t : Tables)
    (now : Int) (ip : IPAddress) :
    (checkActiveIPAddresses cfg t now).pendingIPMacRequestExists ip
      = t.pendingIPMacRequestExists ip := rfl

/-- A time-out of the pending requests keeps those that have not expired. -/
theorem pendingIPMacRequestExists_checkPendingIPMacRequests (cfg : Config) (t : Tables) (now : Int)
    (ip : IPAddress) :
    (checkPendingIPMacRequests cfg t now).1.pendingIPMacRequestExists ip
      = (t.pendingIPMacRequestExists ip
        && !decide (ip ∈ t.pendingIPMacRequests.keysWhere (requestExpired cfg now))) := by
  unfold checkPendingIPMacRequests pendingIPMacRequestExists Table.sweep
  rw [Table.get?_removeAll]
  by_cases hmem : ip ∈ t.pendingIPMacRequests.keysWhere (requestExpired cfg now) <;> simp [hmem]

end Tables

end Armore.Proxy
