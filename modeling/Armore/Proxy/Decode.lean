import Armore.Proxy.Request

/-!
# The decode path

`DecodePacket` and the functions it calls, as `PacketProcessor.cpp` has them. A function gets the
tables, the bytes of the frame and the packet pointer, and returns what it leaves behind together with
the events it caused and the accesses it made. `ethhdr` is always the start of the buffer, so the two
Ethernet addresses are at offsets 0 and 6.

The two loops of the path, over VLAN tags and over IPv6 extension headers, take a bound on the number of
their iterations and return `none` when it runs out. `now` gives the values that the successive reads of
the clock return.
-/

namespace Armore.Proxy

open Tables

/-- What handling a received frame leaves behind: the tables, the frame as rewritten, the two results
that are returned through pointers, and the returned flag. -/
structure Handled where
  tables : Tables
  byte : Memory
  destinationConnectionID : UUID
  destinationIP : IPAddress
  injectPacket : Bool
  events : List Event
  accesses : List Access

/-- The connection a lookup leaves in `*destinationConnectionID`, which starts out empty. -/
def foundConnection (found : Option (MacAddress × UUID)) : UUID := (found.map Prod.snd).getD .empty

/-- Reading the source hardware address, which `UpdateIPTable` does for a valid address only. -/
def readSourceMac (cfg : Config) (ip : IPAddress) : List Access :=
  if ip.isValid cfg.ipv4Netmask then [.touch 6 6] else []

/-- A frame that is too small for its header. -/
def Handled.tooSmall (t : Tables) (mem : Memory) : Handled where
  tables := t
  byte := mem
  destinationConnectionID := .empty
  destinationIP := .default
  injectPacket := false
  events := []
  accesses := []

/-! ### ARP -/

def processARPPacket (cfg : Config) (now : Nat → Int) (t : Tables) (sourceConnectionID : UUID)
    (mem : Memory) (packet : Cursor) : Handled :=
  if packet.length < 28 then .tooSmall t mem
  else
    let arpmsg := packet.value
    let op := ntohs mem (arpmsg + 6)
    let destinationIP := inAddr mem (arpmsg + 24)
    let sourceIP := inAddr mem (arpmsg + 14)
    let updated := updateIPTable cfg t sourceIP (macAt mem 6) sourceConnectionID (now 0)
    let read := [.touch (arpmsg + 6) 2, .touch (arpmsg + 24) 4, .touch (arpmsg + 14) 4]
      ++ readSourceMac cfg sourceIP
    let lookup := tryIPTableLookup updated.1 destinationIP (now 1)
    if cfg.transparentOperation then
      { tables := lookup.1, byte := mem, destinationConnectionID := foundConnection lookup.2,
        destinationIP, injectPacket := true, events := updated.2, accesses := read }
    else if isARPRequest op then
      { tables := updated.1, byte := storeMac mem (arpmsg + 8) cfg.localMACAddress,
        destinationConnectionID := .empty, destinationIP, injectPacket := true,
        events := updated.2, accesses := read ++ [.touch (arpmsg + 8) 6] }
    else
      match lookup.2 with
      | some (mac, connectionID) =>
          { tables := lookup.1
            byte := storeMac (storeMac (storeMac mem 0 mac) (arpmsg + 18) mac) (arpmsg + 8)
              cfg.localMACAddress
            destinationConnectionID := connectionID, destinationIP, injectPacket := true
            events := updated.2
            accesses := read ++ [.touch 0 6, .touch (arpmsg + 18) 6, .touch (arpmsg + 8) 6] }
      | none =>
          { tables := lookup.1, byte := mem, destinationConnectionID := .empty, destinationIP,
            injectPacket := false, events := updated.2 ++ [.discarded destinationIP],
            accesses := read }

/-! ### IPv4 -/

def processIPv4Packet (cfg : Config) (now : Nat → Int) (t : Tables) (sourceConnectionID : UUID)
    (mem : Memory) (packet : Cursor) : Handled :=
  if packet.length < 20 then .tooSmall t mem
  else
    let ipmsg := packet.value
    let destinationIP := inAddr mem (ipmsg + 16)
    let sourceIP := inAddr mem (ipmsg + 12)
    let updated := updateIPTable cfg t sourceIP (macAt mem 6) sourceConnectionID (now 0)
    let read := [.touch (ipmsg + 16) 4, .touch (ipmsg + 12) 4] ++ readSourceMac cfg sourceIP
    let lookup := tryIPTableLookup updated.1 destinationIP (now 1)
    if cfg.transparentOperation then
      { tables := lookup.1, byte := mem, destinationConnectionID := foundConnection lookup.2,
        destinationIP, injectPacket := true, events := updated.2, accesses := read }
    else if destinationIP.isValid cfg.ipv4Netmask then
      match lookup.2 with
      | some (mac, connectionID) =>
          { tables := lookup.1, byte := storeMac mem 0 mac, destinationConnectionID := connectionID,
            destinationIP, injectPacket := true, events := updated.2,
            accesses := read ++ [.touch 0 6] }
      | none =>
          if destinationIP.isMulticast then
            { tables := lookup.1, byte := mem, destinationConnectionID := .empty, destinationIP,
              injectPacket := true, events := updated.2, accesses := read }
          else if lookup.1.pendingIPMacRequestExists destinationIP then
            { tables := lookup.1, byte := mem, destinationConnectionID := .empty, destinationIP,
              injectPacket := false, events := updated.2 ++ [.dropped destinationIP],
              accesses := read }
          else
            { tables := lookup.1.addPending destinationIP (now 2), byte := mem,
              destinationConnectionID := .empty, destinationIP, injectPacket := false
              events := updated.2
                ++ [.requested destinationIP (createARPRequestPacket cfg mem ipmsg),
                  .dropped destinationIP]
              accesses := read ++ [.touch (ipmsg + 16) 4, .touch (ipmsg + 12) 4] }
    else
      { tables := updated.1, byte := mem, destinationConnectionID := .empty, destinationIP,
        injectPacket := true, events := updated.2, accesses := read }

/-! ### IPv6 -/

/-- How the loop over the extension headers ends: with `return false`, or with `nextHeader` (which is
then `IPPROTO_ICMPV6` or -1) and the packet pointer behind the headers. -/
structure ExtensionWalk where
  stop : Option (Int × Cursor)
  accesses : List Access

/-- `while (nextHeader != IPPROTO_ICMPV6 && nextHeader != -1)`. -/
def skipExtensionHeaders (mem : Memory) : Nat → Int → Cursor → Option ExtensionWalk
  | 0, _, _ => none
  | fuel + 1, nextHeader, packet =>
      if nextHeader = ipprotoICMPV6 ∨ nextHeader = -1 then some ⟨some (nextHeader, packet), []⟩
      else if isExtensionHeader nextHeader then
        if packet.length < 8 then some ⟨none, []⟩
        else
          let extmsg := packet.value
          let size := ((mem (extmsg + 1)).toNat + 1) * 8
          if packet.length < size then some ⟨none, [.touch (extmsg + 1) 1]⟩
          else
            -- `ip6e_nxt` is read after the pointer has moved on, through `extmsg`
            (skipExtensionHeaders mem fuel (mem extmsg).toNat (packet.skip size)).map fun walk =>
              { walk with accesses := .touch (extmsg + 1) 1 :: .shrink packet.length size
                  :: .touch extmsg 1 :: walk.accesses }
      else skipExtensionHeaders mem fuel (-1) packet

/-- `ProcessNDPPacket`, called with what `ProcessIPv6Packet` has done so far. -/
def processNDPPacket (now : Nat → Int) (packet : Cursor) (h : Handled) : Handled :=
  if packet.length < 24 then { h with injectPacket := false }
  else
    let na := packet.value
    let target := in6Addr h.byte (na + 8)
    let lookup := tryIPTableLookup h.tables target (now 3)
    match lookup.2 with
    | none =>
        { h with tables := lookup.1, injectPacket := false, events := h.events ++ [.discarded target]
                 accesses := h.accesses ++ [.touch (na + 8) 16] }
    | some (mac, connectionID) =>
        { h with tables := lookup.1, byte := storeMac h.byte 0 mac
                 destinationConnectionID := connectionID, injectPacket := true
                 accesses := h.accesses ++ [.touch (na + 8) 16, .touch 0 6] }

/-- The part of `ProcessIPv6Packet` behind the destination lookup: past the IPv6 header and the
extension headers to an ICMPv6 message. -/
def processIPv6Payload (fuel : Nat) (now : Nat → Int) (packet : Cursor) (h : Handled) :
    Option Handled :=
  let payload := packet.skip 40
  let read := [.shrink packet.length 40, .touch (packet.value + 6) 1]
  (skipExtensionHeaders h.byte fuel (h.byte (packet.value + 6)).toNat payload).map fun walk =>
    let h := { h with accesses := h.accesses ++ read ++ walk.accesses }
    match walk.stop with
    | none => { h with injectPacket := false }
    | some (nextHeader, packet) =>
        if nextHeader = -1 then { h with injectPacket := true }
        else if packet.length < 8 then { h with injectPacket := false }
        else
          let h := { h with accesses := h.accesses ++ [.touch packet.value 1] }
          if h.byte packet.value = ndNeighborAdvert then processNDPPacket now packet h
          else { h with injectPacket := true }

def processIPv6Packet (fuel : Nat) (cfg : Config) (now : Nat → Int) (t : Tables)
    (sourceConnectionID : UUID) (mem : Memory) (packet : Cursor) : Option Handled :=
  if packet.length < 40 then some (.tooSmall t mem)
  else
    let ipmsg := packet.value
    let destinationIP := in6Addr mem (ipmsg + 24)
    let sourceIP := in6Addr mem (ipmsg + 8)
    let updated := updateIPTable cfg t sourceIP (macAt mem 6) sourceConnectionID (now 0)
    let read := [.touch (ipmsg + 24) 16, .touch (ipmsg + 8) 16] ++ readSourceMac cfg sourceIP
    let lookup := tryIPTableLookup updated.1 destinationIP (now 1)
    let h : Handled :=
      { tables := lookup.1, byte := mem, destinationConnectionID := foundConnection lookup.2,
        destinationIP, injectPacket := true, events := updated.2, accesses := read }
    if cfg.transparentOperation then some h
    else
      match lookup.2 with
      | some (mac, _) =>
          processIPv6Payload fuel now packet
            { h with byte := storeMac mem 0 mac, accesses := read ++ [.touch 0 6] }
      | none =>
          if destinationIP.isMulticast then processIPv6Payload fuel now packet h
          else if lookup.1.pendingIPMacRequestExists destinationIP then
            some { h with injectPacket := false, events := updated.2 ++ [.dropped destinationIP] }
          else
            some { h with tables := lookup.1.addPending destinationIP (now 2), injectPacket := false
                          events := updated.2
                            ++ [.requested destinationIP (createNDPRequestPacket cfg mem ipmsg),
                              .dropped destinationIP]
                          accesses := read ++ [.touch (ipmsg + 24) 16] }

/-! ### The whole frame -/

/-- `while (type == ETHERTYPE_VLAN)`: the type behind the tags, the packet pointer there, the accesses. -/
def skipVLANHeaders (mem : Memory) : Nat → Nat → Cursor → Option (Nat × Cursor × List Access)
  | 0, _, _ => none
  | fuel + 1, type, packet =>
      if type = ethertypeVLAN then
        let packet' := packet.skip 4
        let inner := packet'.value - 2
        (skipVLANHeaders mem fuel (ntohs mem inner) packet').map fun (type, last, accesses) =>
          (type, last, .shrink packet.length 4 :: .touch inner 2 :: accesses)
      else some (type, packet, [])

/-- `switch (type)`. -/
def processPacket (fuel : Nat) (cfg : Config) (now : Nat → Int) (t : Tables)
    (sourceConnectionID : UUID) (mem : Memory) (type : Nat) (packet : Cursor) : Option Handled :=
  if type = ethertypeARP then some (processARPPacket cfg now t sourceConnectionID mem packet)
  else if type = ethertypeIP then some (processIPv4Packet cfg now t sourceConnectionID mem packet)
  else if type = ethertypeIPV6 then
    processIPv6Packet fuel cfg now t sourceConnectionID mem packet
  else some (.tooSmall t mem)

/-- What `DecodePacket` does with an accepted frame. -/
def forward (cfg : Config) (type : Nat) (h : Handled) (sourcePacket : Buffer) : List Event :=
  if h.injectPacket then
    if cfg.permissiveMode && cfg.serverMode then
      if h.destinationIP.isMulticast then [.sentToAll sourcePacket, .injected sourcePacket]
      else if h.destinationConnectionID.isEmpty then
        (if type = ethertypeARP then [.sentToAll sourcePacket] else []) ++ [.injected sourcePacket]
      else [.sentTo h.destinationConnectionID sourcePacket]
    else [.injected sourcePacket]
  else []

/-- The frame that leaves: the received buffer with the bytes as rewritten. -/
def Buffer.rewritten (f : Buffer) (byte : Memory) : Buffer := { f with byte }

/-- The bytes of a frame when its type is looked at: outside transparent operation the source hardware
address has been replaced. -/
def incoming (cfg : Config) (f : Buffer) : Memory :=
  if cfg.transparentOperation then f.byte else storeMac f.byte 6 cfg.localMACAddress

/-- The accesses before the loop over the VLAN tags. -/
def openingAccesses (cfg : Config) (f : Buffer) : List Access :=
  .touch 12 2 :: (if cfg.transparentOperation then [] else [.touch 6 6]) ++ [.shrink f.length 14]

/-- `DecodePacket` on the frame `f` received from `sourceConnectionID`. -/
def decodePacket (fuel : Nat) (cfg : Config) (now : Nat → Int) (t : Tables)
    (sourceConnectionID : UUID) (f : Buffer) : Option Handled :=
  if f.length < 14 then some (.tooSmall t f.byte)
  else
    let mem := incoming cfg f
    (skipVLANHeaders mem fuel (ntohs f.byte 12) (Cursor.skip ⟨0, f.length⟩ 14)).bind
      fun (type, packet, walked) =>
        (processPacket fuel cfg now t sourceConnectionID mem type packet).map fun h =>
          { h with
            events := h.events ++ forward cfg type h (f.rewritten h.byte)
            accesses := openingAccesses cfg f ++ walked ++ h.accesses }

end Armore.Proxy
