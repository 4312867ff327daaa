import Armore.Proxy.Decode

/-!
# The encode path

`EncodePacket` and the `SendPacket` overloads it calls. A captured frame is handed to the middleware as
it is; on the way its source address is put into the IP table with the empty connection. The payload is
read without a look at the length, and the overload of `SendPacket` that picks the connection returns
`true` in every case, so the resolution requests of the other two overloads are never made.
-/

namespace Armore.Proxy

open Tables

/-- `SendPacket(destinationIP, packet)`: also the returned flag. -/
def sendPacket (cfg : Config) (now : Nat → Int) (t : Tables) (destinationIP : IPAddress)
    (packet : Buffer) : Tables × List Event × Bool :=
  if cfg.serverMode && !destinationIP.isMulticast then
    let lookup := tryIPTableLookup t destinationIP (now 1)
    let connectionID := foundConnection lookup.2
    if connectionID.isEmpty then (lookup.1, [.sentToAll packet], true)
    else (lookup.1, [.sentTo connectionID packet], true)
  else (t, [.sentToAll packet], true)

def sendMacRequestPacket (requestPacket : Buffer) : List Event := [.sentToAll requestPacket]

/-- `SendPacket` for an ARP message (`ipmsg` is `nullptr`) or an IPv4 packet. -/
def sendIPv4Packet (cfg : Config) (now : Nat → Int) (t : Tables) (sourceIP destinationIP : IPAddress)
    (packet : Buffer) (ipmsg : Option Nat) : Tables × List Event :=
  let updated := updateIPTable cfg t sourceIP (macAt packet.byte 6) .empty (now 0)
  match ipmsg with
  | none => (updated.1, updated.2 ++ [.sentToAll packet])
  | some ipmsg =>
      let (t, sent, delivered) := sendPacket cfg now updated.1 destinationIP packet
      if !delivered && !cfg.transparentOperation && destinationIP.isValid cfg.ipv4Netmask then
        (t, updated.2 ++ sent
          ++ sendMacRequestPacket (createARPRequestPacket cfg packet.byte ipmsg))
      else (t, updated.2 ++ sent)

/-- `SendPacket` for an IPv6 packet. -/
def sendIPv6Packet (cfg : Config) (now : Nat → Int) (t : Tables) (sourceIP destinationIP : IPAddress)
    (packet : Buffer) (ipmsg : Nat) : Tables × List Event :=
  let updated := updateIPTable cfg t sourceIP (macAt packet.byte 6) .empty (now 0)
  if ((packet.byte (ipmsg + 6)).toNat : Int) = ipprotoICMPV6
      ∧ packet.byte (ipmsg + 40) = ndNeighborSolicit then
    (updated.1, updated.2 ++ [.sentToAll packet])
  else
    let (t, sent, delivered) := sendPacket cfg now updated.1 destinationIP packet
    if !delivered && !cfg.transparentOperation then
      (t, updated.2 ++ sent
        ++ sendMacRequestPacket (createNDPRequestPacket cfg packet.byte ipmsg))
    else (t, updated.2 ++ sent)

/-- A call of one of these two overloads with its addresses and `ipmsg`. -/
inductive SendCall
  | ipv4 (sourceIP destinationIP : IPAddress) (ipmsg : Option Nat)
  | ipv6 (sourceIP destinationIP : IPAddress) (ipmsg : Nat)

def SendCall.run (cfg : Config) (now : Nat → Int) (t : Tables) (packet : Buffer) :
    SendCall → Tables × List Event
  | ipv4 sourceIP destinationIP ipmsg => sendIPv4Packet cfg now t sourceIP destinationIP packet ipmsg
  | ipv6 sourceIP destinationIP ipmsg => sendIPv6Packet cfg now t sourceIP destinationIP packet ipmsg

/-- The call that `EncodePacket` makes for the captured frame `f`, by its `switch (type)`. -/
def encodeCall (f : Buffer) : Option SendCall :=
  if f.length < 14 then none
  else
    let type := ntohs f.byte 12
    if type = ethertypeARP then some (.ipv4 (inAddr f.byte (14 + 14)) (inAddr f.byte (14 + 24)) none)
    else if type = ethertypeIP then
      some (.ipv4 (inAddr f.byte (14 + 12)) (inAddr f.byte (14 + 16)) (some 14))
    else if type = ethertypeIPV6 then
      some (.ipv6 (in6Addr f.byte (14 + 8)) (in6Addr f.byte (14 + 24)) 14)
    else none

/-- `EncodePacket` on the captured frame `f`. -/
def encodePacket (cfg : Config) (now : Nat → Int) (t : Tables) (f : Buffer) : Tables × List Event :=
  match encodeCall f with
  | none => (t, [])
  | some call => call.run cfg now t f

/-! ### What the overloads leave behind -/

/-- Picking the connection changes an access time at most and sends the frame once. -/
theorem sendPacket_cases (cfg : Config) (now : Nat → Int) (t : Tables) (destinationIP : IPAddress)
    (packet : Buffer) :
    ∃ t' sent, sendPacket cfg now t destinationIP packet = (t', [sent], true)
      ∧ (t' = t ∨ t' = (tryIPTableLookup t destinationIP (now 1)).1)
      ∧ (sent = .sentToAll packet ∨ ∃ connectionID, sent = .sentTo connectionID packet) := by
  unfold sendPacket
  dsimp only
  split
  · split
    · exact ⟨_, _, rfl, .inr rfl, .inl rfl⟩
    · exact ⟨_, _, rfl, .inr rfl, .inr ⟨_, rfl⟩⟩
  · exact ⟨_, _, rfl, .inl rfl, .inl rfl⟩

/-- What every overload does: learn the source, renew one access time at most, send the frame once. -/
def Sends (cfg : Config) (now : Nat → Int) (t : Tables) (sourceIP destinationIP : IPAddress)
    (f : Buffer) (result : Tables × List Event) : Prop :=
  let updated := updateIPTable cfg t sourceIP (macAt f.byte 6) .empty (now 0)
  (result.1 = updated.1 ∨ result.1 = (tryIPTableLookup updated.1 destinationIP (now 1)).1)
    ∧ ∃ sent, result.2 = updated.2 ++ [sent]
      ∧ (sent = .sentToAll f ∨ ∃ connectionID, sent = .sentTo connectionID f)

theorem sendIPv4Packet_sends (cfg : Config) (now : Nat → Int) (t : Tables)
    (sourceIP destinationIP : IPAddress) (f : Buffer) (ipmsg : Option Nat) :
    Sends cfg now t sourceIP destinationIP f
      (sendIPv4Packet cfg now t sourceIP destinationIP f ipmsg) := by
  cases ipmsg with
  | none => exact ⟨.inl rfl, _, rfl, .inl rfl⟩
  | some ipmsg =>
      obtain ⟨t', sent, hsend, htables, hsent⟩ := sendPacket_cases cfg now
        (updateIPTable cfg t sourceIP (macAt f.byte 6) .empty (now 0)).1 destinationIP f
      simp only [sendIPv4Packet, hsend, Bool.not_true, Bool.false_and, Bool.false_eq_true, if_false]
      exact ⟨htables, sent, rfl, hsent⟩

theorem sendIPv6Packet_sends (cfg : Config) (now : Nat → Int) (t : Tables)
    (sourceIP destinationIP : IPAddress) (f : Buffer) (ipmsg : Nat) :
    Sends cfg now t sourceIP destinationIP f
      (sendIPv6Packet cfg now t sourceIP destinationIP f ipmsg) := by
  unfold sendIPv6Packet
  split
  · exact ⟨.inl rfl, _, rfl, .inl rfl⟩
  · obtain ⟨t', sent, hsend, htables, hsent⟩ := sendPacket_cases cfg now
      (updateIPTable cfg t sourceIP (macAt f.byte 6) .empty (now 0)).1 destinationIP f
    simp only [hsend, Bool.not_true, Bool.false_and, Bool.false_eq_true, if_false]
    exact ⟨htables, sent, rfl, hsent⟩

/-- The source and destination address of a captured frame that is processed. -/
def capturedAddresses (f : Buffer) : Option (IPAddress × IPAddress) :=
  if f.length < 14 then none
  else
    let type := ntohs f.byte 12
    (sourceAddress f.byte type 14).bind fun source =>
      (destinationAddress f.byte type 14).map fun destination => (source, destination)

/-- **A captured frame is ignored, or its source is learned and the frame is sent once.** -/
theorem encodePacket_cases (cfg : Config) (now : Nat → Int) (t : Tables) (f : Buffer) :
    (capturedAddresses f = none ∧ encodePacket cfg now t f = (t, []))
      ∨ ∃ source destination, capturedAddresses f = some (source, destination)
        ∧ Sends cfg now t source destination f (encodePacket cfg now t f) := by
  unfold encodePacket encodeCall capturedAddresses sourceAddress destinationAddress
  dsimp only
  by_cases hshort : f.length < 14
  · simp only [if_pos hshort]
    exact .inl ⟨trivial, trivial⟩
  · simp only [if_neg hshort]
    by_cases hARP : ntohs f.byte 12 = ethertypeARP
    · simp only [if_pos hARP]
      exact .inr ⟨_, _, rfl, sendIPv4Packet_sends ..⟩
    · by_cases hIP : ntohs f.byte 12 = ethertypeIP
      · simp only [if_neg hARP, if_pos hIP]
        exact .inr ⟨_, _, rfl, sendIPv4Packet_sends ..⟩
      · by_cases hIPV6 : ntohs f.byte 12 = ethertypeIPV6
        · simp only [if_neg hARP, if_neg hIP, if_pos hIPV6]
          exact .inr ⟨_, _, rfl, sendIPv6Packet_sends ..⟩
        · simp only [if_neg hARP, if_neg hIP, if_neg hIPV6]
          exact .inl ⟨rfl, trivial⟩

end Armore.Proxy
