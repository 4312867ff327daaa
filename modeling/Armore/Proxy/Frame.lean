import Armore.Proxy.Address
import Mathlib.Tactic.Common

/-!
# Frames in memory

The decode path walks a received buffer with a pointer and an unsigned 32-bit remaining length. Memory
here is total: a `Buffer` says what lies at every offset from its start, the first `length` bytes being
the frame and the rest whatever is behind the allocation. A load or a store therefore always has a
result, and the functions of the decode path return the list of their accesses; `Access.Inside` says
what it means for one of them to stay in the buffer.
-/

namespace Armore.Proxy

/-- The bytes at every offset from the start of a buffer. -/
abbrev Memory := Nat → UInt8

/-- `Buffer`: a reference to memory and a `u_int32_t` length. -/
structure Buffer where
  byte : Memory
  length : Nat
  length_lt : length < 2 ^ 32

namespace Buffer

/-- A buffer with the given bytes and zeros behind it. -/
def ofList (bytes : List UInt8) (hlength : bytes.length < 2 ^ 32) : Buffer :=
  ⟨fun i => bytes.getD i 0, bytes.length, hlength⟩

/-- A buffer of one byte. -/
def single (octet : UInt8) : Buffer := ofList [octet] (by simp)

end Buffer

/-! ### Loads and stores -/

/-- `ntohs` of the 16-bit word at an offset. -/
def ntohs (mem : Memory) (offset : Nat) : Nat := 256 * (mem offset).toNat + (mem (offset + 1)).toNat

/-- The `in_addr` at an offset, loaded little-endian. -/
def inAddr (mem : Memory) (offset : Nat) : IPAddress :=
  .ipv4 <| .ofNat <| (mem offset).toNat + 2 ^ 8 * (mem (offset + 1)).toNat
    + 2 ^ 16 * (mem (offset + 2)).toNat + 2 ^ 24 * (mem (offset + 3)).toNat

/-- The `in6_addr` at an offset. -/
def in6Addr (mem : Memory) (offset : Nat) : IPAddress := .ipv6 fun i => mem (offset + i.val)

/-- `mac.CopyTo(&mem[offset])`. -/
def storeMac (mem : Memory) (offset : Nat) (mac : MacAddress) : Memory :=
  fun i => if offset ≤ i ∧ i < offset + 6 then mac.octet (i - offset) else mem i

theorem storeMac_self (mem : Memory) (offset : Nat) (mac : MacAddress) {i : Nat} (hi : i < 6) :
    storeMac mem offset mac (offset + i) = mac.octet i := by
  have hrange : offset ≤ offset + i ∧ offset + i < offset + 6 := by omega
  rw [storeMac, if_pos hrange, Nat.add_sub_cancel_left]

theorem storeMac_of_outside (mem : Memory) {offset : Nat} (mac : MacAddress) {i : Nat}
    (hi : i < offset ∨ offset + 6 ≤ i) : storeMac mem offset mac i = mem i := by
  have hrange : ¬ (offset ≤ i ∧ i < offset + 6) := by omega
  rw [storeMac, if_neg hrange]

theorem storeMac_storeMac (mem : Memory) (offset : Nat) (mac mac' : MacAddress) :
    storeMac (storeMac mem offset mac) offset mac' = storeMac mem offset mac' := by
  funext i
  by_cases hrange : offset ≤ i ∧ i < offset + 6
  · simp only [storeMac, if_pos hrange]
  · simp only [storeMac, if_neg hrange]

/-- The hardware address at an offset. -/
def macAt (mem : Memory) (offset : Nat) : Memory := fun i => mem (offset + i)

/-! ### The packet pointer -/

/-- `packet` while it is being parsed: `packet.value`, as an offset from the start of the buffer, and
`packet.length`, a `u_int32_t`. -/
structure Cursor where
  value : Nat
  length : Nat

namespace Cursor

/-- `packet.value += n; packet.length -= n;`, the length modulo `2^32`. -/
def skip (packet : Cursor) (n : Nat) : Cursor :=
  ⟨packet.value + n, (packet.length + (2 ^ 32 - n)) % 2 ^ 32⟩

@[simp] theorem skip_value (packet : Cursor) (n : Nat) :
    (packet.skip n).value = packet.value + n := rfl

/-- While the length covers what is skipped, it does not wrap. -/
theorem skip_length {packet : Cursor} {n : Nat} (hn : n ≤ packet.length)
    (hlt : packet.length < 2 ^ 32) : (packet.skip n).length = packet.length - n := by
  simp only [skip]
  omega

/-- What is left of a buffer of `size` bytes: pointer and length end where the buffer ends. -/
structure Within (packet : Cursor) (size : Nat) : Prop where
  ends : packet.value + packet.length = size
  fits : size < 2 ^ 32

theorem Within.skip {packet : Cursor} {size n : Nat} (h : packet.Within size)
    (hn : n ≤ packet.length) : (packet.skip n).Within size := by
  have hends := h.ends
  have hfits := h.fits
  refine ⟨?_, hfits⟩
  rw [skip_length hn (by omega), skip_value]
  omega

end Cursor

/-! ### Accesses -/

/-- What the decode path does with the buffer: it touches bytes and it takes from the length. -/
inductive Access
  | touch (offset count : Nat)
  | shrink (length by_ : Nat)
  deriving DecidableEq

/-- The access stays inside a buffer of `size` bytes; the subtraction stays above zero. -/
def Access.Inside (size : Nat) : Access → Prop
  | .touch offset count => offset + count ≤ size
  | .shrink length by_ => by_ ≤ length

instance (size : Nat) (access : Access) : Decidable (access.Inside size) := by
  cases access <;> unfold Access.Inside <;> infer_instance

@[simp] theorem Access.inside_touch (size offset count : Nat) :
    (Access.touch offset count).Inside size ↔ offset + count ≤ size := Iff.rfl

@[simp] theorem Access.inside_shrink (size length by_ : Nat) :
    (Access.shrink length by_).Inside size ↔ by_ ≤ length := Iff.rfl

/-! ### Header layout

Offsets are from the start of the header. -/

/-- Values of `ether_type`. -/
def ethertypeARP : Nat := 0x0806
def ethertypeIP : Nat := 0x0800
def ethertypeIPV6 : Nat := 0x86DD
def ethertypeVLAN : Nat := 0x8100

/-- `ARPOP_REQUEST`, `ARPOP_RREQUEST` and `ARPOP_InREQUEST`. -/
def isARPRequest (op : Nat) : Bool := op == 1 || op == 3 || op == 8

/-- `IPPROTO_HOPOPTS`, `IPPROTO_ROUTING`, `IPPROTO_FRAGMENT` and `IPPROTO_DSTOPTS`. -/
def isExtensionHeader (nextHeader : Int) : Bool :=
  nextHeader == 0 || nextHeader == 43 || nextHeader == 44 || nextHeader == 60

def ipprotoICMPV6 : Int := 58

/-- `ND_NEIGHBOR_ADVERT` and `ND_NEIGHBOR_SOLICIT`. -/
def ndNeighborAdvert : UInt8 := 136
def ndNeighborSolicit : UInt8 := 135

/-- The source address of the network header that follows a type field: `arp_spa`, `ip_src` or
`ip6_src`. -/
def sourceAddress (mem : Memory) (type header : Nat) : Option IPAddress :=
  if type = ethertypeARP then some (inAddr mem (header + 14))
  else if type = ethertypeIP then some (inAddr mem (header + 12))
  else if type = ethertypeIPV6 then some (in6Addr mem (header + 8))
  else none

/-- The destination address there: `arp_tpa`, `ip_dst` or `ip6_dst`. -/
def destinationAddress (mem : Memory) (type header : Nat) : Option IPAddress :=
  if type = ethertypeARP then some (inAddr mem (header + 24))
  else if type = ethertypeIP then some (inAddr mem (header + 16))
  else if type = ethertypeIPV6 then some (in6Addr mem (header + 24))
  else none

/-- The size of the header that a type announces. -/
def headerSize (type : Nat) : Nat :=
  if type = ethertypeARP then 28 else if type = ethertypeIP then 20 else 40

end Armore.Proxy
