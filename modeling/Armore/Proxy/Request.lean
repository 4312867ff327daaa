import Armore.Proxy.IPTable
import Mathlib.Tactic.Ring

/-!
# Resolution requests

When the decode path does not know the hardware address of a destination it makes up a request for it
and injects that: an ARP request for an IPv4 address, a neighbour solicitation for an IPv6 address. Both
packets are built in a buffer of zeros; a field the source does not assign stays zero.
-/

namespace Armore.Proxy

/-- `count` bytes from an offset on. -/
def bytesAt (mem : Memory) (offset count : Nat) : List UInt8 :=
  (List.range count).map fun i => mem (offset + i)

@[simp] theorem length_bytesAt (mem : Memory) (offset count : Nat) :
    (bytesAt mem offset count).length = count := by
  simp [bytesAt]

/-- What `CopyTo` writes. -/
def MacAddress.bytes (mac : MacAddress) : List UInt8 := bytesAt mac.octet 0 6

@[simp] theorem MacAddress.length_bytes (mac : MacAddress) : mac.bytes.length = 6 :=
  length_bytesAt _ _ _

/-- The bytes of `CreateARPRequestPacket` for the IPv4 header at `ipmsg`. -/
def arpRequestBytes (cfg : Config) (mem : Memory) (ipmsg : Nat) : List UInt8 :=
  MacAddress.broadcast.bytes ++ cfg.localMACAddress.bytes ++ [0x08, 0x06]
    -- hardware type, protocol type, the two address lengths, ARPOP_REQUEST
    ++ [0x00, 0x01, 0x08, 0x00, 0x06, 0x04, 0x00, 0x01]
    ++ cfg.localMACAddress.bytes ++ bytesAt mem (ipmsg + 12) 4
    ++ MacAddress.zero.bytes ++ bytesAt mem (ipmsg + 16) 4

def createARPRequestPacket (cfg : Config) (mem : Memory) (ipmsg : Nat) : Buffer :=
  .ofList (arpRequestBytes cfg mem ipmsg) (by simp [arpRequestBytes])

/-- The 16-bit words of a packet as the host loads them, low byte first. -/
def hostWords : List UInt8 → List Nat
  | low :: high :: rest => (low.toNat + 256 * high.toNat) :: hostWords rest
  | _ => []

/-- `while (sum >> 16) sum = (sum & 0xffff) + (sum >> 16);` -/
def foldCarries (sum : Nat) : Nat :=
  if sum / 2 ^ 16 = 0 then sum else foldCarries (sum % 2 ^ 16 + sum / 2 ^ 16)
termination_by sum
decreasing_by omega

/-- `IPv6CheckSum` of a 40-byte header and the data behind it, as the two bytes the host stores. -/
def ipv6CheckSum (header data : List UInt8) : List UInt8 :=
  let sum := 2 ^ 16 - 1 - foldCarries ((hostWords header).sum + (hostWords data).sum)
  [.ofNat (sum % 256), .ofNat (sum / 256)]

/-- The IPv6 header of `CreateNDPRequestPacket`: the source address is never assigned. -/
def ndpRequestHeader (mem : Memory) (ipmsg : Nat) : List UInt8 :=
  [0x60, 0, 0, 0, 0, 24, 58, 255] ++ List.replicate 16 0 ++ bytesAt mem (ipmsg + 24) 16

/-- The `nd_neighbor_solicit` behind it, with the given checksum bytes. -/
def ndpRequestMessage (checksum : List UInt8) (mem : Memory) (ipmsg : Nat) : List UInt8 :=
  [ndNeighborSolicit, 0] ++ checksum ++ List.replicate 4 0 ++ bytesAt mem (ipmsg + 24) 16

/-- The bytes of `CreateNDPRequestPacket` for the IPv6 header at `ipmsg`. -/
def ndpRequestBytes (cfg : Config) (mem : Memory) (ipmsg : Nat) : List UInt8 :=
  let header := ndpRequestHeader mem ipmsg
  -- the checksum field is still zero when the sum is taken
  let checksum := ipv6CheckSum header (ndpRequestMessage [0, 0] mem ipmsg)
  MacAddress.broadcast.bytes ++ cfg.localMACAddress.bytes ++ [0x86, 0xDD]
    ++ header ++ ndpRequestMessage checksum mem ipmsg

def createNDPRequestPacket (cfg : Config) (mem : Memory) (ipmsg : Nat) : Buffer :=
  .ofList (ndpRequestBytes cfg mem ipmsg) (by
    simp [ndpRequestBytes, ndpRequestHeader, ndpRequestMessage, ipv6CheckSum])

end Armore.Proxy
