import Armore.Proxy.Encode
import Armore.Proxy.ParsingSafety

/-!
# What the two directions take a frame for

`DecodePacket` walks over the VLAN tags of a frame before it looks at its type, `EncodePacket` looks at
the type in the Ethernet header alone. Here it is stated for each of them what it takes a frame for: the
kind of its network header with the two addresses, together with the function that is called on it.
-/

namespace Armore.Proxy

open Tables

/-- The network headers that both directions know. -/
inductive Kind
  | arp
  | ipv4
  | ipv6
  deriving DecidableEq

namespace Kind

def etherType : Kind → Nat
  | arp => ethertypeARP
  | ipv4 => ethertypeIP
  | ipv6 => ethertypeIPV6

/-- The source and the destination address of a header. -/
def addresses (mem : Memory) (header : Nat) : Kind → IPAddress × IPAddress
  | arp => (inAddr mem (header + 14), inAddr mem (header + 24))
  | ipv4 => (inAddr mem (header + 12), inAddr mem (header + 16))
  | ipv6 => (in6Addr mem (header + 8), in6Addr mem (header + 24))

/-- The function that `DecodePacket` calls for a kind. -/
def process (kind : Kind) (fuel : Nat) (cfg : Config) (now : Nat → Int) (t : Tables)
    (sourceConnectionID : UUID) (mem : Memory) (packet : Cursor) : Option Handled :=
  match kind with
  | arp => some (processARPPacket cfg now t sourceConnectionID mem packet)
  | ipv4 => some (processIPv4Packet cfg now t sourceConnectionID mem packet)
  | ipv6 => processIPv6Packet fuel cfg now t sourceConnectionID mem packet

theorem etherType_injective {kind kind' : Kind} (h : kind.etherType = kind'.etherType) : kind = kind' := by
  cases kind <;> cases kind' <;> first | rfl | exact absurd h (by decide)

theorem etherType_ne_vlan (kind : Kind) : kind.etherType ≠ ethertypeVLAN := by
  cases kind <;> decide

end Kind

/-- The kind of frame that a call of `SendPacket` is made for: an ARP message comes without an `ipmsg`. -/
def SendCall.kind : SendCall → Kind
  | ipv4 _ _ none => .arp
  | ipv4 _ _ (some _) => .ipv4
  | ipv6 _ _ _ => .ipv6

def SendCall.addresses : SendCall → IPAddress × IPAddress
  | ipv4 sourceIP destinationIP _ | ipv6 sourceIP destinationIP _ => (sourceIP, destinationIP)

/-- The header behind `tags` VLAN tags is one of this kind, and the frame is long enough for it. -/
structure Tagged (f : Buffer) (tags : Nat) (kind : Kind) : Prop where
  vlan : ∀ i < tags, ntohs f.byte (12 + 4 * i) = ethertypeVLAN
  type : ntohs f.byte (12 + 4 * tags) = kind.etherType
  size : 14 + 4 * tags + headerSize kind.etherType ≤ f.length

/-- `EncodePacket` takes `f` for a frame of this kind, by the call that it makes, and hands it to the
middleware. -/
structure EncodesAs (f : Buffer) (kind : Kind) (addresses : IPAddress × IPAddress) : Prop where
  call : ∃ call, encodeCall f = some call ∧ call.kind = kind ∧ call.addresses = addresses
  forwards : ∀ cfg now t, ∃ sent ∈ (encodePacket cfg now t f).2,
    sent = .sentToAll f ∨ ∃ connectionID, sent = .sentTo connectionID f

/-- `DecodePacket` takes `f` for a frame of this kind, with the header at `packet`, and processes it. -/
structure DecodesAt (cfg : Config) (f : Buffer) (kind : Kind) (packet : Cursor) : Prop where
  reaches : ReachesType cfg f kind.etherType packet
  size : headerSize kind.etherType ≤ packet.length
  returns : ∀ now t sourceConnectionID, ∃ fuel h, decodePacket fuel cfg now t sourceConnectionID f = some h
  processes : ∀ fuel now t sourceConnectionID h,
    decodePacket fuel cfg now t sourceConnectionID f = some h →
    ∃ h', kind.process fuel cfg now t sourceConnectionID (incoming cfg f) packet = some h'
      ∧ h.tables = h'.tables ∧ h.byte = h'.byte
      ∧ h.events = h'.events ++ forward cfg kind.etherType h' (f.rewritten h'.byte)

def DecodesAs (cfg : Config) (f : Buffer) (kind : Kind) (addresses : IPAddress × IPAddress) : Prop :=
  ∃ packet, DecodesAt cfg f kind packet ∧ kind.addresses (incoming cfg f) packet.value = addresses

variable {cfg : Config} {f : Buffer} {tags : Nat} {kind : Kind} {addresses : IPAddress × IPAddress}

/-! ### Encoding -/

/-- The call that is made by the type in the Ethernet header. -/
theorem encodeCall_of_type (hlong : 14 ≤ f.length) (htype : ntohs f.byte 12 = kind.etherType) :
    ∃ call, encodeCall f = some call ∧ call.kind = kind ∧ call.addresses = kind.addresses f.byte 14 := by
  rw [encodeCall, if_neg (by omega), htype]
  cases kind <;> exact ⟨_, rfl, rfl, rfl⟩

/-- Every call sends the frame. -/
theorem encodePacket_forwards {call : SendCall} (hcall : encodeCall f = some call) (cfg : Config)
    (now : Nat → Int) (t : Tables) : ∃ sent ∈ (encodePacket cfg now t f).2,
      sent = .sentToAll f ∨ ∃ connectionID, sent = .sentTo connectionID f := by
  have hsends : ∀ {result : Tables × List Event} {source destination : IPAddress},
      Sends cfg now t source destination f result →
      ∃ sent ∈ result.2, sent = .sentToAll f ∨ ∃ connectionID, sent = .sentTo connectionID f := by
    intro result source destination ⟨_, sent, hevents, hsent⟩
    exact ⟨sent, by simp [hevents], hsent⟩
  rw [encodePacket, hcall]
  cases call with
  | ipv4 sourceIP destinationIP ipmsg => exact hsends (sendIPv4Packet_sends ..)
  | ipv6 sourceIP destinationIP ipmsg => exact hsends (sendIPv6Packet_sends ..)

/-! ### Decoding -/

/-- The loop over the tags goes past every one of them. -/
theorem skipVLANHeaders_tags (mem : Memory) {packet : Cursor} {size : Nat} (hpacket : packet.Within size)
    (hvalue : 2 ≤ packet.value)
    (htags : ∀ i < tags, ntohs mem (packet.value - 2 + 4 * i) = ethertypeVLAN)
    (hend : ntohs mem (packet.value - 2 + 4 * tags) ≠ ethertypeVLAN) (hlength : 4 * tags ≤ packet.length) :
    ∃ last accesses,
      skipVLANHeaders mem (tags + 1) (ntohs mem (packet.value - 2)) packet
          = some (ntohs mem (packet.value - 2 + 4 * tags), last, accesses)
        ∧ last.Within size ∧ last.value = packet.value + 4 * tags := by
  induction tags generalizing packet with
  | zero =>
      rw [skipVLANHeaders, if_neg (by simpa using hend)]
      exact ⟨packet, [], rfl, hpacket, rfl⟩
  | succ tags ih =>
      have htag : ntohs mem (packet.value - 2) = ethertypeVLAN := htags 0 (Nat.succ_pos tags)
      have hskip : (packet.skip 4).Within size := hpacket.skip (by omega)
      have hstart : ∀ i, (packet.skip 4).value - 2 + 4 * i = packet.value - 2 + 4 * (i + 1) := by
        intro i
        rw [Cursor.skip_value]
        omega
      have hends := hskip.ends
      have hends' := hpacket.ends
      rw [Cursor.skip_value] at hends
      obtain ⟨last, accesses, hwalk, hlast, hlastValue⟩ := ih hskip (by rw [Cursor.skip_value]; omega)
        (fun i hi => by rw [hstart]; exact htags (i + 1) (by omega)) (by rw [hstart]; exact hend) (by omega)
      rw [hstart] at hwalk
      rw [Cursor.skip_value] at hlastValue
      rw [skipVLANHeaders, if_pos htag]
      dsimp only
      rw [hwalk]
      exact ⟨last, _, rfl, hlast, by omega⟩

theorem Tagged.reaches (h : Tagged f tags kind) (cfg : Config) :
    ∃ packet, ReachesType cfg f kind.etherType packet ∧ packet.value = 14 + 4 * tags
      ∧ headerSize kind.etherType ≤ packet.length := by
  have hsize := h.size
  have hlong : 14 ≤ f.length := by omega
  have hsame : ∀ i, ntohs (incoming cfg f) (12 + 4 * i) = ntohs f.byte (12 + 4 * i) := by
    intro i
    unfold ntohs
    rw [incoming_of_le (by omega), incoming_of_le (by omega)]
  have hwithin := within_ethernet hlong
  have hends : 14 + (Cursor.skip ⟨0, f.length⟩ 14).length = f.length := hwithin.ends
  have hvalue : (Cursor.skip ⟨0, f.length⟩ 14).value - 2 = 12 := rfl
  obtain ⟨last, accesses, hwalk, hlast, hlastValue⟩ := skipVLANHeaders_tags
    (incoming cfg f) hwithin (by simp) (fun i hi => by rw [hvalue, hsame]; exact h.vlan i hi)
    (by rw [hvalue, hsame, h.type]; exact kind.etherType_ne_vlan) (by omega)
  rw [hvalue, hsame, h.type] at hwalk
  have hlastEnds := hlast.ends
  have hlastValue : last.value = 14 + 4 * tags := hlastValue
  refine ⟨last, ⟨hlong, tags + 1, accesses, ?_⟩, by omega, by omega⟩
  rw [ntohs_incoming cfg]
  exact hwalk

theorem Tagged.chainEnds (h : Tagged f tags kind) : ChainEnds f.byte 12 tags f.length := by
  have hsize := h.size
  refine ⟨h.vlan, ?_, by omega⟩
  rw [h.type]
  exact kind.etherType_ne_vlan

theorem processPacket_kind (kind : Kind) (fuel : Nat) (cfg : Config) (now : Nat → Int) (t : Tables)
    (sourceConnectionID : UUID) (mem : Memory) (packet : Cursor) :
    processPacket fuel cfg now t sourceConnectionID mem kind.etherType packet
      = kind.process fuel cfg now t sourceConnectionID mem packet := by
  cases kind <;> rfl

/-- A tagged frame is processed as what it carries. -/
theorem Tagged.decodesAt (h : Tagged f tags kind) (cfg : Config) :
    ∃ packet, DecodesAt cfg f kind packet ∧ packet.value = 14 + 4 * tags := by
  obtain ⟨packet, hreaches, hvalue, hlength⟩ := h.reaches cfg
  refine ⟨packet, ⟨hreaches, hlength, ?_, ?_⟩, hvalue⟩
  · intro now t sourceConnectionID
    have hsafe : SafelyDecoded cfg now t sourceConnectionID f :=
      safelyDecoded_of_chainEnds hreaches.1 h.chainEnds
    obtain ⟨fuel, h', hdecode, _⟩ := hsafe
    exact ⟨fuel, h', hdecode⟩
  · intro fuel now t sourceConnectionID h' hdecode
    rw [decodePacket, if_neg (Nat.not_lt.mpr hreaches.1)] at hdecode
    obtain ⟨⟨type, packet', walked⟩, hwalk, hrest⟩ := Option.bind_eq_some_iff.mp hdecode
    obtain ⟨h'', hprocess, rfl⟩ := Option.map_eq_some_iff.mp hrest
    obtain ⟨rfl, rfl⟩ := hreaches.unique ⟨hreaches.1, fuel, walked, hwalk⟩
    exact ⟨h'', by rw [← processPacket_kind, hprocess], rfl, rfl, rfl⟩

theorem addresses_incoming (cfg : Config) (f : Buffer) (kind : Kind) {header : Nat} (hheader : 12 ≤ header) :
    kind.addresses (incoming cfg f) header = kind.addresses f.byte header := by
  have hsame : ∀ i, incoming cfg f (header + i) = f.byte (header + i) := by
    intro i
    exact incoming_of_le (by omega)
  cases kind <;> simp only [Kind.addresses, inAddr, in6Addr, Nat.add_assoc, hsame]

theorem DecodesAt.unique {kind' : Kind} {packet packet' : Cursor} (h : DecodesAt cfg f kind packet)
    (h' : DecodesAt cfg f kind' packet') : kind = kind' ∧ packet = packet' := by
  obtain ⟨htype, hpacket⟩ := h.reaches.unique h'.reaches
  exact ⟨Kind.etherType_injective htype, hpacket⟩

/-- What a tagged frame is decoded as. -/
theorem Tagged.decodesAs_iff (h : Tagged f tags kind) (cfg : Config) (kind' : Kind)
    (addresses : IPAddress × IPAddress) :
    DecodesAs cfg f kind' addresses
      ↔ kind' = kind ∧ kind.addresses f.byte (14 + 4 * tags) = addresses := by
  obtain ⟨packet, hat, hvalue⟩ := h.decodesAt cfg
  constructor
  · rintro ⟨packet', hat', haddresses⟩
    obtain ⟨rfl, rfl⟩ := hat.unique hat'
    rw [hvalue, addresses_incoming cfg f kind (by omega)] at haddresses
    exact ⟨rfl, haddresses⟩
  · rintro ⟨rfl, haddresses⟩
    refine ⟨packet, hat, ?_⟩
    rw [hvalue, addresses_incoming cfg f kind' (by omega), haddresses]

/-- What a frame is encoded as. -/
theorem Tagged.encodesAs_iff (h : Tagged f 0 kind) (kind' : Kind) (addresses : IPAddress × IPAddress) :
    EncodesAs f kind' addresses ↔ kind' = kind ∧ kind.addresses f.byte 14 = addresses := by
  have hsize := h.size
  obtain ⟨call, hcall, hkind, haddresses⟩ := encodeCall_of_type (by omega) h.type
  constructor
  · rintro ⟨⟨call', hcall', hkind', haddresses'⟩, _⟩
    obtain rfl := Option.some.inj (hcall.symm.trans hcall')
    exact ⟨hkind'.symm.trans hkind, haddresses.symm.trans haddresses'⟩
  · rintro ⟨rfl, rfl⟩
    exact ⟨⟨call, hcall, hkind, haddresses⟩, encodePacket_forwards hcall⟩

/-- A frame with a tag is not encoded at all. -/
theorem Tagged.dropped (h : Tagged f tags kind) (htags : tags ≠ 0) (cfg : Config) (now : Nat → Int)
    (t : Tables) : encodePacket cfg now t f = (t, []) := by
  have htype : ntohs f.byte 12 = ethertypeVLAN := h.vlan 0 (by omega)
  have hnone : encodeCall f = none := by
    unfold encodeCall
    split
    · rfl
    · rw [htype]
      rfl
  rw [encodePacket, hnone]

/-- A frame that is dropped is not encoded as anything. -/
theorem not_encodesAs_of_dropped (hdropped : ∀ cfg now t, encodePacket cfg now t f = (t, [])) (kind : Kind)
    (addresses : IPAddress × IPAddress) : ¬ EncodesAs f kind addresses := by
  rintro ⟨_, hforwards⟩
  obtain ⟨sent, hsent, _⟩ := hforwards translatingServer (fun _ => 0) .empty
  rw [hdropped] at hsent
  cases hsent

/-- **The two directions take a frame for the same exactly when it has no tag.** -/
theorem classifies_alike_iff (h : Tagged f tags kind) (cfg : Config) :
    (∀ kind' addresses, DecodesAs cfg f kind' addresses ↔ EncodesAs f kind' addresses) ↔ tags = 0 := by
  constructor
  · intro halike
    by_contra htags
    exact not_encodesAs_of_dropped (h.dropped htags) kind _
      ((halike kind _).mp ((h.decodesAs_iff cfg kind _).mpr ⟨rfl, rfl⟩))
  · rintro rfl kind' addresses
    rw [h.decodesAs_iff, h.encodesAs_iff]

/-- An ARP request for 10.0.0.2 from 10.0.0.1, in VLAN 5. -/
def taggedARP : Buffer :=
  .ofList (List.replicate 6 0xFF ++ List.replicate 6 0xAA ++ [0x81, 0x00, 0x00, 0x05, 0x08, 0x06]
    ++ [0x00, 0x01, 0x08, 0x00, 0x06, 0x04, 0x00, 0x01] ++ List.replicate 6 0xAA ++ [10, 0, 0, 1]
    ++ List.replicate 6 0x00 ++ [10, 0, 0, 2]) (by decide)

theorem tagged_taggedARP : Tagged taggedARP 1 .arp where
  vlan := by decide
  type := by decide
  size := by decide

/-- It is decoded as a message from 10.0.0.1 to 10.0.0.2, and it is dropped when it is captured. -/
theorem taggedARP_not_alike :
    DecodesAs translatingServer taggedARP .arp (.ipv4 0x0100000A, .ipv4 0x0200000A)
      ∧ (∀ cfg now t, encodePacket cfg now t taggedARP = (t, []))
      ∧ ¬ ∀ kind addresses, DecodesAs translatingServer taggedARP kind addresses
          ↔ EncodesAs taggedARP kind addresses := by
  have hdecodes : DecodesAs translatingServer taggedARP .arp (.ipv4 0x0100000A, .ipv4 0x0200000A) :=
    (tagged_taggedARP.decodesAs_iff translatingServer .arp _).mpr ⟨rfl, by decide⟩
  have hdropped := tagged_taggedARP.dropped (by decide)
  refine ⟨hdecodes, hdropped, fun halike => ?_⟩
  exact not_encodesAs_of_dropped hdropped _ _ ((halike _ _).mp hdecodes)

/-- The same request without the tag. -/
def plainARP : Buffer :=
  .ofList (List.replicate 6 0xFF ++ List.replicate 6 0xAA ++ [0x08, 0x06]
    ++ [0x00, 0x01, 0x08, 0x00, 0x06, 0x04, 0x00, 0x01] ++ List.replicate 6 0xAA ++ [10, 0, 0, 1]
    ++ List.replicate 6 0x00 ++ [10, 0, 0, 2]) (by decide)

theorem tagged_plainARP : Tagged plainARP 0 .arp where
  vlan := by decide
  type := by decide
  size := by decide

theorem classifies_alike_plainARP :
    (∀ kind addresses,
        DecodesAs translatingServer plainARP kind addresses ↔ EncodesAs plainARP kind addresses) ↔ 0 = 0 :=
  classifies_alike_iff tagged_plainARP translatingServer

end Armore.Proxy
