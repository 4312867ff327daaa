import Armore.Proxy.Encode
import Armore.Proxy.ParsingSafety

/-!
# Safety of the capture path

A capture engine hands out a frame where it lies. `PcapEngine` takes the length that the frame had on the
wire for the length of the buffer, though the library may have kept less of it. `EncodePacket` compares the
length with that of an Ethernet header and then reads the network header that the type announces, as
`SendPacket` and the trace function it calls do, without another look at it.
-/

namespace Armore.Proxy

/-! ### The captured frame -/

/-- What the capture library returns: for `pcap` the bytes, how many of them there are and how many the frame
had on the wire; for `netmap` the bytes and their number. -/
inductive Capture
  | pcap (data : Memory) (caplen len : UInt32)
  | netmap (data : Memory) (len : UInt32)

namespace Capture

def data : Capture → Memory
  | pcap data _ _ | netmap data _ => data

/-- The length in the header that comes with the frame, `len` of both libraries. -/
def len : Capture → Nat
  | pcap _ _ len | netmap _ len => len.toNat

/-- The bytes that are there. -/
def present : Capture → Nat
  | pcap _ caplen _ => caplen.toNat
  | netmap _ len => len.toNat

/-- The library has kept all of the frame. -/
def Kept : Capture → Prop
  | pcap _ caplen len => len ≤ caplen
  | netmap _ _ => True

instance : DecidablePred Kept
  | pcap _ caplen len => inferInstanceAs (Decidable (len ≤ caplen))
  | netmap _ _ => inferInstanceAs (Decidable True)

end Capture

/-- `GetNextPacket` of the two engines. -/
def getNextPacket : Capture → Buffer
  | .pcap data _ len => ⟨data, len.toNat, len.toNat_lt⟩
  | .netmap data len => ⟨data, len.toNat, len.toNat_lt⟩

@[simp] theorem getNextPacket_byte (c : Capture) : (getNextPacket c).byte = c.data := by
  cases c <;> rfl

@[simp] theorem getNextPacket_length (c : Capture) : (getNextPacket c).length = c.len := by
  cases c <;> rfl

/-- The buffer that is handed out ends inside the bytes that are there exactly when nothing was cut off. -/
theorem getNextPacket_le_present (c : Capture) : (getNextPacket c).length ≤ c.present ↔ c.Kept := by
  cases c with
  | pcap _ caplen len => exact UInt32.le_iff_toNat_le.symm
  | netmap _ len => exact iff_of_true (le_refl len.toNat) trivial

/-! ### Reads -/

/-- `IPPROTO_ICMP`, `IPPROTO_TCP` and `IPPROTO_UDP`. -/
def ipprotoICMP : Nat := 1
def ipprotoTCP : Nat := 6
def ipprotoUDP : Nat := 17

def isPortProtocol (protocol : Nat) : Bool := protocol == ipprotoTCP || protocol == ipprotoUDP

/-- What the two summaries read of the header at an offset: the ports, or the sequence number of the given
protocol for control messages. -/
def transportReads (control protocol offset : Nat) : List Access :=
  if isPortProtocol protocol then [.touch offset 2, .touch (offset + 2) 2]
  else if protocol = control then [.touch (offset + 6) 2]
  else []

/-- The offset behind an IPv4 header, by its `ip_hl`. -/
def ipv4Transport (byte : Memory) : Nat := 14 + 4 * ((byte 14).toNat % 16)

def getIPv4PacketSummary (f : Buffer) : List Access :=
  [.touch (14 + 12) 4, .touch (14 + 16) 4, .touch (14 + 9) 1, .touch 14 1]
    ++ transportReads ipprotoICMP (f.byte (14 + 9)).toNat (ipv4Transport f.byte)

def getIPv6PacketSummary (f : Buffer) : List Access :=
  [.touch (14 + 8) 16, .touch (14 + 24) 16, .touch (14 + 6) 1]
    ++ transportReads 58 (f.byte (14 + 6)).toNat (14 + 40)

/-- `DescribePacket`. -/
def describePacket (f : Buffer) : List Access :=
  let type := ntohs f.byte 12
  .touch 12 2
    :: (if type = ethertypeIP then getIPv4PacketSummary f
      else if type = ethertypeARP then
        [.touch (14 + 8) 6, .touch (14 + 6) 2, .touch (14 + 14) 4, .touch (14 + 24) 4]
      else if type = ethertypeIPV6 then getIPv6PacketSummary f
      else [])
    ++ [.touch 6 6, .touch 0 6]

/-- `SendPacket(destinationIP, packet)`. `describes` is
`m_verboseOutput && m_packetsSent % m_feedbackInterval == 0`. -/
def sendPacketReads (describes : Bool) (f : Buffer) : List Access := if describes then describePacket f else []

/-- The overload for ARP messages (`ipmsg` is `nullptr`) and IPv4 packets. -/
def sendIPv4PacketReads (cfg : Config) (describes : Bool) (sourceIP : IPAddress) (f : Buffer)
    (ipmsg : Option Nat) : List Access :=
  readSourceMac cfg sourceIP ++ if ipmsg.isNone then [] else sendPacketReads describes f

/-- The overload for IPv6 packets: the type of an ICMPv6 message is read for the solicitation test. -/
def sendIPv6PacketReads (cfg : Config) (describes : Bool) (sourceIP : IPAddress) (f : Buffer) (ipmsg : Nat) :
    List Access :=
  readSourceMac cfg sourceIP ++ .touch (ipmsg + 6) 1
    :: if ((f.byte (ipmsg + 6)).toNat : Int) = ipprotoICMPV6 then
      .touch (ipmsg + 40) 1
        :: if f.byte (ipmsg + 40) = ndNeighborSolicit then [] else sendPacketReads describes f
    else sendPacketReads describes f

/-- What `encodePacket` reads of the captured frame `f`. -/
def encodePacketReads (cfg : Config) (describes : Bool) (f : Buffer) : List Access :=
  if f.length < 14 then []
  else
    let type := ntohs f.byte 12
    .touch 12 2
      :: if type = ethertypeARP then
        [.touch (14 + 14) 4, .touch (14 + 24) 4]
          ++ sendIPv4PacketReads cfg describes (inAddr f.byte (14 + 14)) f none
      else if type = ethertypeIP then
        [.touch (14 + 12) 4, .touch (14 + 16) 4]
          ++ sendIPv4PacketReads cfg describes (inAddr f.byte (14 + 12)) f (some 14)
      else if type = ethertypeIPV6 then
        [.touch (14 + 8) 16, .touch (14 + 24) 16]
          ++ sendIPv6PacketReads cfg describes (in6Addr f.byte (14 + 8)) f 14
      else []

/-- The buffer is no longer than the bytes that are there, and handling it reads inside it. -/
def SafelyCaptured (cfg : Config) (describes : Bool) (c : Capture) : Prop :=
  (getNextPacket c).length ≤ c.present
    ∧ AllInside (getNextPacket c).length (encodePacketReads cfg describes (getNextPacket c))

/-! ### The headers that fit -/

/-- What is read of a transport header is inside. -/
def TransportFits (control protocol offset size : Nat) : Prop :=
  if isPortProtocol protocol then offset + 4 ≤ size
  else if protocol = control then offset + 8 ≤ size
  else True

/-- An ARP message, an IPv4 or an IPv6 header is complete, as is the type of an ICMPv6 message, and when the
packet is described the ports or the sequence number behind the header. -/
def HeadersFit (describes : Bool) (byte : Memory) (length : Nat) : Prop :=
  let type := ntohs byte 12
  if type = ethertypeARP then 42 ≤ length
  else if type = ethertypeIP then
    34 ≤ length
      ∧ (describes = true → TransportFits ipprotoICMP (byte (14 + 9)).toNat (ipv4Transport byte) length)
  else if type = ethertypeIPV6 then
    let protocol := (byte (14 + 6)).toNat
    54 ≤ length ∧ ((protocol : Int) = ipprotoICMPV6 → 55 ≤ length)
      ∧ (describes = true → ¬ ((protocol : Int) = ipprotoICMPV6 ∧ byte (14 + 40) = ndNeighborSolicit) →
          TransportFits 58 protocol (14 + 40) length)
  else True

variable {cfg : Config} {describes : Bool} {f : Buffer} {size control protocol offset : Nat}

theorem transportReads_inside :
    AllInside size (transportReads control protocol offset) ↔ TransportFits control protocol offset size := by
  unfold transportReads TransportFits
  split
  · simp
    omega
  · split
    · simp
    · simp

theorem describePacket_ipv4 (htype : ntohs f.byte 12 = ethertypeIP) (hsize : 34 ≤ size) :
    AllInside size (describePacket f)
      ↔ TransportFits ipprotoICMP (f.byte (14 + 9)).toNat (ipv4Transport f.byte) size := by
  rw [describePacket, if_pos htype, getIPv4PacketSummary]
  simp only [allInside_cons, allInside_append, Access.inside_touch, allInside_nil, transportReads_inside, and_true]
  constructor
  · rintro ⟨⟨_, _, h⟩, _⟩
    exact h
  · intro h
    refine ⟨⟨?_, ⟨?_, ?_, ?_, ?_⟩, h⟩, ?_, ?_⟩ <;> omega

theorem describePacket_ipv6 (htype : ntohs f.byte 12 = ethertypeIPV6) (hsize : 54 ≤ size) :
    AllInside size (describePacket f) ↔ TransportFits 58 (f.byte (14 + 6)).toNat (14 + 40) size := by
  have hip : ntohs f.byte 12 ≠ ethertypeIP := by
    rw [htype]
    decide
  have harp : ntohs f.byte 12 ≠ ethertypeARP := by
    rw [htype]
    decide
  rw [describePacket, if_neg hip, if_neg harp, if_pos htype, getIPv6PacketSummary]
  simp only [allInside_cons, allInside_append, Access.inside_touch, allInside_nil, transportReads_inside, and_true]
  constructor
  · rintro ⟨⟨_, _, h⟩, _⟩
    exact h
  · intro h
    refine ⟨⟨?_, ⟨?_, ?_, ?_⟩, h⟩, ?_, ?_⟩ <;> omega

/-- Reading the source hardware address is inside as soon as there is an Ethernet header. -/
theorem sendIPv4PacketReads_arp (hsize : 14 ≤ size) (sourceIP : IPAddress) :
    AllInside size (sendIPv4PacketReads cfg describes sourceIP f none) := by
  rw [sendIPv4PacketReads, allInside_append]
  exact ⟨readSourceMac_inside cfg hsize sourceIP, allInside_nil size⟩

theorem sendIPv4PacketReads_ipv4 (htype : ntohs f.byte 12 = ethertypeIP) (hsize : 34 ≤ size)
    (sourceIP : IPAddress) (ipmsg : Nat) :
    AllInside size (sendIPv4PacketReads cfg describes sourceIP f (some ipmsg))
      ↔ (describes = true → TransportFits ipprotoICMP (f.byte (14 + 9)).toNat (ipv4Transport f.byte) size) := by
  have hsource : AllInside size (readSourceMac cfg sourceIP) := readSourceMac_inside cfg (by omega) sourceIP
  rw [sendIPv4PacketReads, allInside_append, and_iff_right hsource, Option.isNone_some, if_neg Bool.false_ne_true,
    sendPacketReads]
  cases describes with
  | false => exact iff_of_true (allInside_nil size) nofun
  | true => exact (describePacket_ipv4 htype hsize).trans (imp_iff_right rfl).symm

theorem sendIPv6PacketReads_ipv6 (htype : ntohs f.byte 12 = ethertypeIPV6) (hsize : 54 ≤ size)
    (sourceIP : IPAddress) :
    AllInside size (sendIPv6PacketReads cfg describes sourceIP f 14)
      ↔ (((f.byte (14 + 6)).toNat : Int) = ipprotoICMPV6 → 55 ≤ size)
        ∧ (describes = true →
            ¬ (((f.byte (14 + 6)).toNat : Int) = ipprotoICMPV6 ∧ f.byte (14 + 40) = ndNeighborSolicit) →
            TransportFits 58 (f.byte (14 + 6)).toNat (14 + 40) size) := by
  have hsource : AllInside size (readSourceMac cfg sourceIP) := readSourceMac_inside cfg (by omega) sourceIP
  have hdescribe : AllInside size (sendPacketReads describes f)
      ↔ (describes = true → TransportFits 58 (f.byte (14 + 6)).toNat (14 + 40) size) := by
    rw [sendPacketReads]
    cases describes with
    | false => exact iff_of_true (allInside_nil size) nofun
    | true => exact (describePacket_ipv6 htype hsize).trans (imp_iff_right rfl).symm
  have hnext : 14 + 6 + 1 ≤ size := by omega
  rw [sendIPv6PacketReads, allInside_append, and_iff_right hsource, allInside_cons, Access.inside_touch,
    and_iff_right hnext]
  by_cases hicmp : ((f.byte (14 + 6)).toNat : Int) = ipprotoICMPV6
  · rw [if_pos hicmp, allInside_cons, Access.inside_touch, imp_iff_right hicmp]
    refine and_congr_right fun _ => ?_
    by_cases hsolicit : f.byte (14 + 40) = ndNeighborSolicit
    · rw [if_pos hsolicit]
      exact iff_of_true (allInside_nil size) fun _ hnot => absurd ⟨hicmp, hsolicit⟩ hnot
    · rw [if_neg hsolicit, hdescribe]
      exact imp_congr_right fun _ => (imp_iff_right fun h => hsolicit h.2).symm
  · rw [if_neg hicmp, hdescribe]
    constructor
    · exact fun h => ⟨fun h' => absurd h' hicmp, fun hdescribes _ => h hdescribes⟩
    · exact fun h hdescribes => h.2 hdescribes fun h' => hicmp h'.1

theorem encodePacketReads_inside (hlong : 14 ≤ f.length) :
    AllInside f.length (encodePacketReads cfg describes f) ↔ HeadersFit describes f.byte f.length := by
  have hshort : ¬ f.length < 14 := by omega
  have htypeRead : 12 + 2 ≤ f.length := hlong
  unfold encodePacketReads HeadersFit
  dsimp only
  rw [if_neg hshort, allInside_cons, Access.inside_touch, and_iff_right htypeRead]
  by_cases harp : ntohs f.byte 12 = ethertypeARP
  · rw [if_pos harp, if_pos harp, allInside_append, and_iff_left (sendIPv4PacketReads_arp hlong _)]
    simp only [allInside_cons, Access.inside_touch, allInside_nil, and_true]
    omega
  · rw [if_neg harp, if_neg harp]
    by_cases hip : ntohs f.byte 12 = ethertypeIP
    · rw [if_pos hip, if_pos hip, allInside_append]
      have haddresses : AllInside f.length [.touch (14 + 12) 4, .touch (14 + 16) 4] ↔ 34 ≤ f.length := by
        simp only [allInside_cons, Access.inside_touch, allInside_nil, and_true]
        omega
      rw [haddresses]
      exact and_congr_right fun h34 => sendIPv4PacketReads_ipv4 hip h34 _ 14
    · rw [if_neg hip, if_neg hip]
      by_cases hipv6 : ntohs f.byte 12 = ethertypeIPV6
      · rw [if_pos hipv6, if_pos hipv6, allInside_append]
        have haddresses : AllInside f.length [.touch (14 + 8) 16, .touch (14 + 24) 16] ↔ 54 ≤ f.length := by
          simp only [allInside_cons, Access.inside_touch, allInside_nil, and_true]
          omega
        rw [haddresses]
        exact and_congr_right fun h54 => sendIPv6PacketReads_ipv6 hipv6 h54 _
      · rw [if_neg hipv6, if_neg hipv6]
        exact iff_of_true (allInside_nil f.length) trivial

/-- **Handling a captured frame is safe exactly when the library has kept all of the frame and the headers
that are read fit into it.** -/
theorem safelyCaptured_iff (cfg : Config) (describes : Bool) (c : Capture) :
    SafelyCaptured cfg describes c ↔ c.Kept ∧ (c.len < 14 ∨ HeadersFit describes c.data c.len) := by
  unfold SafelyCaptured
  refine and_congr (getNextPacket_le_present c) ?_
  rw [← getNextPacket_length, ← getNextPacket_byte]
  by_cases hshort : (getNextPacket c).length < 14
  · rw [encodePacketReads, if_pos hshort]
    exact iff_of_true (allInside_nil _) (.inl hshort)
  · rw [encodePacketReads_inside (by omega), or_iff_right hshort]

/-- An Ethernet header that announces an ARP message, and nothing behind it. -/
def truncatedARP : Capture :=
  .pcap (Buffer.ofList (List.replicate 12 0xAA ++ [0x08, 0x06]) (by decide)).byte 14 14

/-- A frame of another type, of which the library has kept the first 96 of 1500 bytes. -/
def snapped : Capture :=
  .pcap (Buffer.ofList (List.replicate 12 0xAA ++ [0x88, 0xCC] ++ List.replicate 82 0) (by decide)).byte 96 1500

/-- The addresses of the message are read behind the end of the first frame, and the buffer of the second is
longer than what is there. -/
theorem truncatedARP_not_safelyCaptured :
    ¬ SafelyCaptured translatingServer false truncatedARP
      ∧ ¬ SafelyCaptured translatingServer false snapped := by
  constructor
  · intro hsafe
    have hreads := hsafe.2 (.touch (14 + 24) 4)
    have hinside : 14 + 24 + 4 ≤ 14 := hreads (by decide)
    exact absurd hinside (by decide)
  · intro hsafe
    exact absurd ((getNextPacket_le_present snapped).mp hsafe.1) (by decide)

end Armore.Proxy
