import Mathlib.Data.Fintype.Pi
import Mathlib.Data.Fin.Basic

/-!
# Addresses

The three kinds of name the proxy handles: hardware addresses (`MacAddress.cpp`), connection
identities (`UUID.cpp`) and network addresses (`IPAddress.cpp`). A `MacAddress` value has eight bytes
of which the first six are the address: copying in fills six, copying out writes six, comparing looks
at all eight.

The tables of the packet processor are hash maps keyed by `IPAddress`. Here an address is one of two
constructors and two addresses are the same key when they are equal; the constructors of the source
leave the half of the object that is not in use at zero, so this is the identity of the objects.
-/

namespace Armore.Proxy

/-! ### Hardware addresses -/

/-- `MacAddress::value`. -/
@[ext] structure MacAddress where
  value : Fin 8 → UInt8

namespace MacAddress

instance : DecidableEq MacAddress := fun mac mac' =>
  decidable_of_iff (mac.value = mac'.value) MacAddress.ext_iff.symm

/-- One byte of the value. -/
def octet (mac : MacAddress) (i : Nat) : UInt8 := if h : i < 8 then mac.value ⟨i, h⟩ else 0

/-- `CopyFrom`: six bytes are copied, the constructor has cleared the other two. -/
def copyFrom (address : Nat → UInt8) : MacAddress :=
  ⟨fun i => if i.val < 6 then address i.val else 0⟩

/-- `CopyTo`: the six bytes that leave the value. -/
def copyTo (mac : MacAddress) : Fin 6 → UInt8 := fun i => mac.octet i.val

/-- `Broadcast`, all eight bytes set. -/
def broadcast : MacAddress := ⟨fun _ => 0xFF⟩

def zero : MacAddress := ⟨fun _ => 0⟩

@[simp] theorem octet_copyFrom (address : Nat → UInt8) {i : Nat} (hi : i < 6) :
    (copyFrom address).octet i = address i := by
  have hi8 : i < 8 := by omega
  simp [octet, copyFrom, hi, hi8]

/-- Six bytes copied in are the six bytes copied out. -/
theorem copyTo_copyFrom (address : Nat → UInt8) (i : Fin 6) :
    (copyFrom address).copyTo i = address i.val :=
  octet_copyFrom address i.isLt

end MacAddress

/-! ### Connection identities -/

/-- `UUID::value`, a `uuid_t`. -/
@[ext] structure UUID where
  value : Fin 16 → UInt8

namespace UUID

instance : DecidableEq UUID := fun id id' =>
  decidable_of_iff (id.value = id'.value) UUID.ext_iff.symm

/-- `UUID::Empty`, what the default constructor makes. -/
def empty : UUID := ⟨fun _ => 0⟩

/-- The identity that consists of one byte sixteen times. -/
def replicate (byte : UInt8) : UUID := ⟨fun _ => byte⟩

def isEmpty (id : UUID) : Bool := id = empty

@[simp] theorem isEmpty_iff {id : UUID} : id.isEmpty = true ↔ id = empty := by
  simp [isEmpty]

end UUID

/-! ### Network addresses -/

/-- An `IPAddress`: the raw `s_addr` word of an IPv4 address, first octet lowest as the little-endian
targets load it, or the sixteen bytes of an IPv6 address. -/
inductive IPAddress
  | ipv4 (s_addr : UInt32)
  | ipv6 (s6_addr : Fin 16 → UInt8)

namespace IPAddress

instance : DecidableEq IPAddress
  | .ipv4 a, .ipv4 b => decidable_of_iff (a = b) (by rw [ipv4.injEq])
  | .ipv6 a, .ipv6 b => decidable_of_iff (a = b) (by rw [ipv6.injEq])
  | .ipv4 _, .ipv6 _ => isFalse nofun
  | .ipv6 _, .ipv4 _ => isFalse nofun

/-- The default constructor. -/
def default : IPAddress := .ipv4 0

def isMulticast : IPAddress → Bool
  | .ipv6 s6_addr => s6_addr 0 == 0xFF
  | .ipv4 s_addr =>
      let octet := (s_addr &&& 0xFF).toNat
      decide (223 < octet) && decide (octet < 240)

/-- `IsValid` under an IPv4 netmask: the host part is neither all zeros nor all ones. -/
def isValid (netmask : UInt32) : IPAddress → Bool
  | .ipv6 _ => true
  | .ipv4 s_addr =>
      let mask := ~~~netmask
      let result := s_addr &&& mask
      decide (0 < result) && decide (result < mask)

@[simp] theorem isValid_ipv6 (netmask : UInt32) (s6_addr : Fin 16 → UInt8) :
    (ipv6 s6_addr).isValid netmask = true := rfl

end IPAddress

end Armore.Proxy
