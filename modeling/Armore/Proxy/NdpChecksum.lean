import Armore.Lib.OnesComplement
import Armore.Proxy.Request

/-!
# The checksum of an injected solicitation

`IPv6CheckSum` adds up the words of the IPv6 header as they stand in the packet, where the receiver of an
ICMPv6 message adds up those of the pseudo-header: the two addresses, the length in 32 bits and the next
header in 32 bits. The addresses are in both sums. What the others add is constant in the packets of
`CreateNDPRequestPacket`, and is not the same.
-/

namespace Armore.Proxy

open Armore.Lib

/-! ### The sums -/

theorem foldCarries_endAround (sum : Nat) : EndAround (2 ^ 16) sum (foldCarries sum) := by
  induction sum using foldCarries.induct with
  | case1 sum hlow =>
      rw [foldCarries, if_pos hlow]
      exact .of_lt (by omega)
  | case2 sum hhigh ih =>
      rw [foldCarries, if_neg hhigh]
      exact ih.of_carry (by decide)

/-- The 16-bit words of a packet in network order, high byte first. -/
def networkWords : List UInt8 → List Nat
  | high :: low :: rest => (256 * high.toNat + low.toNat) :: networkWords rest
  | _ => []

/-- The order in which the bytes of a word are loaded is a factor of the sum. -/
theorem networkWords_sum (bytes : List UInt8) :
    (networkWords bytes).sum ≡ 256 * (hostWords bytes).sum [MOD 2 ^ 16 - 1] := by
  induction bytes using networkWords.induct with
  | case1 high low rest ih =>
      rw [networkWords, hostWords, List.sum_cons, List.sum_cons, Nat.mul_add]
      exact (swap_modEq (by decide) high.toNat low.toNat).add ih
  | case2 bytes hshort =>
      rw [networkWords, hostWords]
      · rfl
      all_goals exact hshort

theorem hostWords_append {bytes : List UInt8} (heven : bytes.length % 2 = 0) (rest : List UInt8) :
    hostWords (bytes ++ rest) = hostWords bytes ++ hostWords rest := by
  induction bytes using hostWords.induct with
  | case1 low high bytes ih =>
      rw [List.length_cons, List.length_cons] at heven
      rw [List.cons_append, List.cons_append, hostWords, hostWords, ih (by omega), List.cons_append]
  | case2 bytes hshort =>
      rcases bytes with _ | ⟨low, _ | ⟨high, rest'⟩⟩
      · rfl
      · simp at heven
      · exact absurd rfl (hshort low high rest')

/-! ### The receiver -/

/-- The pseudo-header of an ICMPv6 message. -/
def pseudoHeader (source destination : List UInt8) (length : Nat) : List UInt8 :=
  source ++ destination
    ++ [.ofNat (length / 2 ^ 24), .ofNat (length / 2 ^ 16), .ofNat (length / 2 ^ 8), .ofNat length, 0, 0, 0, 58]

/-- The ones'-complement sum over the pseudo-header and the ICMPv6 message of a packet without extension
headers. -/
def receiverSum (packet : Buffer) : Nat :=
  let message := bytesAt packet.byte 54 (ntohs packet.byte 18)
  let header := pseudoHeader (bytesAt packet.byte 22 16) (bytesAt packet.byte 38 16) message.length
  foldCarries ((networkWords header).sum + (networkWords message).sum)

/-- The receiver takes the message. -/
def ChecksumValid (packet : Buffer) : Prop := receiverSum packet = 0xFFFF

/-! ### The packet -/

variable (cfg : Config) (mem : Memory) (ipmsg : Nat)

/-- The checksum that the packet carries. -/
def ndpChecksum : List UInt8 :=
  ipv6CheckSum (ndpRequestHeader mem ipmsg) (ndpRequestMessage [0, 0] mem ipmsg)

theorem source_createNDPRequestPacket :
    bytesAt (createNDPRequestPacket cfg mem ipmsg).byte 22 16 = List.replicate 16 0 := by
  rfl

theorem destination_createNDPRequestPacket :
    bytesAt (createNDPRequestPacket cfg mem ipmsg).byte 38 16 = bytesAt mem (ipmsg + 24) 16 := by
  rfl

theorem length_createNDPRequestPacket : ntohs (createNDPRequestPacket cfg mem ipmsg).byte 18 = 24 := by
  rfl

theorem message_createNDPRequestPacket :
    bytesAt (createNDPRequestPacket cfg mem ipmsg).byte 54 24
      = ndpRequestMessage (ndpChecksum mem ipmsg) mem ipmsg := by
  rfl

/-! ### The difference of the sums -/

theorem hostWords_pseudoHeader {source destination : List UInt8} (hsource : source.length = 16)
    (hdestination : destination.length = 16) :
    (hostWords (pseudoHeader source destination 24)).sum
      = (hostWords source).sum + (hostWords destination).sum + 20992 := by
  have hboth : (source ++ destination).length % 2 = 0 := by
    rw [List.length_append, hsource, hdestination]
  have hsourceEven : source.length % 2 = 0 := by
    rw [hsource]
  rw [pseudoHeader, hostWords_append hboth, hostWords_append hsourceEven, List.sum_append, List.sum_append]
  rfl

theorem hostWords_ndpRequestHeader :
    (hostWords (ndpRequestHeader mem ipmsg)).sum
      = 71578 + (hostWords (List.replicate 16 0)).sum + (hostWords (bytesAt mem (ipmsg + 24) 16)).sum := by
  rw [ndpRequestHeader, hostWords_append rfl, hostWords_append rfl, List.sum_append, List.sum_append]
  rfl

theorem hostWords_ndpRequestMessage (low high : UInt8) :
    (hostWords (ndpRequestMessage [low, high] mem ipmsg)).sum
      = (hostWords (ndpRequestMessage [0, 0] mem ipmsg)).sum + (low.toNat + 256 * high.toNat) := by
  simp only [ndpRequestMessage, List.cons_append, List.nil_append, hostWords, List.sum_cons, UInt8.toNat_zero]
  omega

/-- The stored checksum completes the sum over the header and the message. -/
theorem checksum_completes (header message : List UInt8) :
    ∃ low high : UInt8, ipv6CheckSum header message = [low, high]
      ∧ (hostWords header).sum + (hostWords message).sum + (low.toNat + 256 * high.toNat) ≡ 0 [MOD 2 ^ 16 - 1] := by
  have hcomplete := (foldCarries_endAround ((hostWords header).sum + (hostWords message).sum)).add_complement
  refine ⟨_, _, rfl, ?_⟩
  generalize foldCarries ((hostWords header).sum + (hostWords message).sum) = folded at hcomplete ⊢
  have hvalue : (UInt8.ofNat ((2 ^ 16 - 1 - folded) % 256)).toNat
      + 256 * (UInt8.ofNat ((2 ^ 16 - 1 - folded) / 256)).toNat = 2 ^ 16 - 1 - folded := by
    rw [UInt8.toNat_ofNat', UInt8.toNat_ofNat']
    omega
  rw [hvalue]
  exact hcomplete

/-- What the receiver adds up is by a constant away from a multiple of `0xFFFF`. -/
theorem receiverSum_modEq :
    receiverSum (createNDPRequestPacket cfg mem ipmsg) + 256 * 50586 ≡ 0 [MOD 2 ^ 16 - 1] := by
  obtain ⟨low, high, hchecksum, hcomplete⟩ :=
    checksum_completes (ndpRequestHeader mem ipmsg) (ndpRequestMessage [0, 0] mem ipmsg)
  rw [hostWords_ndpRequestHeader] at hcomplete
  unfold receiverSum
  dsimp only
  rw [length_createNDPRequestPacket, source_createNDPRequestPacket, destination_createNDPRequestPacket,
    message_createNDPRequestPacket, ndpChecksum, hchecksum]
  set header := pseudoHeader (List.replicate 16 0) (bytesAt mem (ipmsg + 24) 16)
    (ndpRequestMessage [low, high] mem ipmsg).length with hheader
  set message := ndpRequestMessage [low, high] mem ipmsg with hmessage
  have hfold := (foldCarries_endAround ((networkWords header).sum + (networkWords message).sum)).modEq
  have hnetwork := (networkWords_sum header).add (networkWords_sum message)
  have hhost : (hostWords header).sum + (hostWords message).sum + 50586
      = 71578 + (hostWords (List.replicate 16 0)).sum + (hostWords (bytesAt mem (ipmsg + 24) 16)).sum
        + (hostWords (ndpRequestMessage [0, 0] mem ipmsg)).sum + (low.toNat + 256 * high.toNat) := by
    have hlength : message.length = 24 := by
      simp [hmessage, ndpRequestMessage]
    rw [hheader, hlength, hostWords_pseudoHeader List.length_replicate (length_bytesAt _ _ _), hmessage,
      hostWords_ndpRequestMessage]
    omega
  calc
    _ ≡ (256 * (hostWords header).sum + 256 * (hostWords message).sum) + 256 * 50586 [MOD 2 ^ 16 - 1] :=
      (hfold.trans hnetwork).add_right _
    _ = 256 * ((hostWords header).sum + (hostWords message).sum + 50586) := by ring
    _ ≡ 256 * 0 [MOD 2 ^ 16 - 1] := by
      rw [hhost]
      exact hcomplete.mul_left 256
    _ = 0 := rfl

theorem receiverSum_ne : receiverSum (createNDPRequestPacket cfg mem ipmsg) ≠ 0xFFFF := by
  intro hsum
  have hmodEq := receiverSum_modEq cfg mem ipmsg
  rw [hsum] at hmodEq
  exact absurd hmodEq (by decide)

/-- **No injected solicitation passes the check of the receiver.** -/
theorem checksum_never_valid : ¬ ChecksumValid (createNDPRequestPacket cfg mem ipmsg) :=
  receiverSum_ne cfg mem ipmsg

theorem solicitation_refused :
    ¬ ∀ (cfg : Config) (mem : Memory) (ipmsg : Nat), ChecksumValid (createNDPRequestPacket cfg mem ipmsg) :=
  fun hvalid => receiverSum_ne _ _ _ (hvalid translatingServer (fun _ => 0) 0)

end Armore.Proxy
