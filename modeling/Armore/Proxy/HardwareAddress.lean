import Armore.Lib.Hex
import Armore.Proxy.AddressKeys

/-!
# Hardware addresses as values

A `MacAddress` has eight bytes. Copying in and out, printing and parsing go over the six of the address; the
comparisons go over all eight. The two agree on values whose last two bytes are zero, as the constructor leaves
them. `FromULong` sets all eight, and `Broadcast` is made with it.
-/

namespace Armore.Proxy

open Lib (Text)
open Lib

namespace MacAddress

/-! ### `MacAddress.cpp` -/

/-- The default constructor. -/
def default : MacAddress := ⟨fun _ => 0⟩

/-- `FromULong`: the bytes as a little-endian host stores them. -/
def fromULong (address : UInt64) : MacAddress := ⟨fun i => .ofNat (address.toNat / 256 ^ i.val)⟩

def toString (mac : MacAddress) : Text :=
  (List.range 6).flatMap fun i => (if i ≠ 0 then [':'] else []) ++ Hex.print (mac.octet i)

/-- `Parse`: the string ends at its first zero; `none` where it throws `out_of_range`. -/
def parse (address : Text) : Option MacAddress :=
  let value := Hex.scanAll ':' 6 (address.takeWhile (· ≠ '\x00'))
  if value.length = 6 then some ⟨fun i => value.getD i.val 0⟩ else none

/-- `value`, as the comparisons go over it. -/
def block (mac : MacAddress) : List UInt8 := List.ofFn mac.value

/-- `operator<`. -/
def lt (mac other : MacAddress) : Bool := decide (memcmp mac.block other.block < 0)

/-- `operator==`. -/
def eq (mac other : MacAddress) : Bool := memcmp mac.block other.block == 0

/-- `operator!=`. -/
def ne (mac other : MacAddress) : Bool := memcmp mac.block other.block != 0

theorem broadcast_eq_fromULong : broadcast = fromULong 0xFFFFFFFFFFFFFFFF := by decide

theorem zero_eq_fromULong : zero = fromULong 0 := by decide

/-! ### What an address denotes -/

/-- How a value comes about. -/
inductive Origin
  | default
  | copyFrom (address : Nat → UInt8)
  | parse (address : Text)
  | fromULong (address : UInt64)
  | broadcast
  | zero

def Origin.make : Origin → Option MacAddress
  | .default => some MacAddress.default
  | .copyFrom address => some (MacAddress.copyFrom address)
  | .parse address => MacAddress.parse address
  | .fromULong address => some (MacAddress.fromULong address)
  | .broadcast => some MacAddress.broadcast
  | .zero => some MacAddress.zero

/-- The values are their six octets, for the comparisons and for the ways out and back in. -/
structure Denote (values : Set MacAddress) : Prop where
  ne : ∀ m ∈ values, ∀ n ∈ values, m.eq n = true ↔ m.ne n = false
  toString : ∀ m ∈ values, ∀ n ∈ values, m.eq n = true ↔ m.toString = n.toString
  copyTo : ∀ m ∈ values, ∀ n ∈ values, m.eq n = true ↔ m.copyTo = n.copyTo
  irrefl : ∀ m ∈ values, m.lt m = false
  trans : ∀ m ∈ values, ∀ n ∈ values, ∀ k ∈ values, m.lt n = true → n.lt k = true → m.lt k = true
  total : ∀ m ∈ values, ∀ n ∈ values, m.lt n = true ∨ m.eq n = true ∨ n.lt m = true
  consistent : ∀ m ∈ values, ∀ n ∈ values, m.eq n = true → m.lt n = false
  copied : ∀ m ∈ values, ∀ buffer : Nat → UInt8, (∀ i : Fin 6, buffer i.val = m.copyTo i) →
    (MacAddress.copyFrom buffer).eq m = true
  parsed : ∀ m ∈ values, ∃ n, MacAddress.parse m.toString = some n ∧ n.eq m = true

/-- What makes the value sets no more than six octets. -/
def Origin.SixOctets : Origin → Prop
  | .fromULong address => address.toNat < 2 ^ 48
  | .broadcast => False
  | _ => True

/-! ### The comparisons -/

variable {m n k : MacAddress}

@[simp] theorem eq_iff : m.eq n = true ↔ m = n := by
  rw [eq, beq_iff_eq, memcmp_eq_zero_iff (by simp [block]), block, block, List.ofFn_inj, MacAddress.ext_iff]

theorem ne_iff : m.ne n = false ↔ m = n := by
  rw [← eq_iff, ne, eq, bne_eq_false_iff_eq, beq_iff_eq]

/-- The bytes as the comparison orders them. -/
def ordered (mac : MacAddress) : List Nat := mac.block.map UInt8.toNat

theorem ordered_inj : m.ordered = n.ordered ↔ m = n := by
  have hinjective : Function.Injective UInt8.toNat := fun _ _ h => UInt8.toNat_inj.mp h
  rw [ordered, ordered, (List.map_injective_iff.mpr hinjective).eq_iff, block, block, List.ofFn_inj, MacAddress.ext_iff]

theorem lt_iff : m.lt n = true ↔ m.ordered < n.ordered := by
  rw [lt, decide_eq_true_eq, memcmp_neg_iff (by simp [block])]
  rfl

/-! ### The ways out and back in -/

/-- The bytes that are no part of the address are as the constructor leaves them. -/
def Padded (mac : MacAddress) : Prop := mac.value 6 = 0 ∧ mac.value 7 = 0

theorem eq_of_copyTo (hm : m.Padded) (hn : n.Padded) (h : m.copyTo = n.copyTo) : m = n := by
  apply MacAddress.ext
  funext i
  by_cases hi : i.val < 6
  · have hoctet := congrFun h ⟨i.val, hi⟩
    rw [copyTo, copyTo, octet, octet, dif_pos i.isLt, dif_pos i.isLt] at hoctet
    exact hoctet
  · obtain rfl | rfl : i = 6 ∨ i = 7 := by
      rw [Fin.ext_iff, Fin.ext_iff]
      have := i.isLt
      omega
    · exact hm.1.trans hn.1.symm
    · exact hm.2.trans hn.2.symm

theorem padded_copyFrom (address : Nat → UInt8) : (MacAddress.copyFrom address).Padded := ⟨rfl, rfl⟩

/-- What was copied out and is copied in again is the value when it is padded. -/
theorem copyFrom_eq_iff {buffer : Nat → UInt8} (hbuffer : ∀ i : Fin 6, buffer i.val = m.copyTo i) :
    MacAddress.copyFrom buffer = m ↔ m.Padded := by
  constructor
  · rintro rfl
    exact padded_copyFrom buffer
  · intro hm
    apply eq_of_copyTo (padded_copyFrom buffer) hm
    funext i
    rw [copyTo_copyFrom, hbuffer]

theorem toString_eq (mac : MacAddress) :
    mac.toString = [':'].intercalate ((List.ofFn mac.copyTo).map Hex.print) := by
  rfl

/-- The octets are read of what is printed. -/
theorem scanAll_toString (mac : MacAddress) :
    Hex.scanAll ':' 6 (mac.toString.takeWhile (· ≠ '\x00')) = List.ofFn mac.copyTo := by
  have hzero : '\x00' ∉ mac.toString := by
    rw [toString_eq]
    apply Text.notMem_intercalate (by decide)
    intro piece hpiece
    obtain ⟨byte, -, rfl⟩ := List.mem_map.mp hpiece
    exact Hex.zero_notMem_print byte
  have hwhole : mac.toString.takeWhile (· ≠ '\x00') = mac.toString := by
    rw [List.takeWhile_eq_self_iff]
    intro c hc
    exact decide_eq_true fun heq => hzero (heq ▸ hc)
  have hscan := @Hex.scanAll_intercalate ':' (by decide) (List.ofFn mac.copyTo)
  rw [List.length_ofFn] at hscan
  rw [hwhole, toString_eq, hscan]

theorem toString_inj : m.toString = n.toString ↔ m.copyTo = n.copyTo := by
  constructor
  · intro h
    have hoctets := scanAll_toString m
    rw [h, scanAll_toString n, List.ofFn_inj] at hoctets
    exact hoctets.symm
  · intro h
    rw [toString_eq, toString_eq, h]

/-- What is printed is parsed to the octets, with the padding. -/
theorem parse_toString (mac : MacAddress) :
    MacAddress.parse mac.toString = some (MacAddress.copyFrom mac.octet) := by
  rw [parse, scanAll_toString, if_pos (List.length_ofFn), Option.some.injEq]
  apply MacAddress.ext
  funext i
  simp only [MacAddress.copyFrom, List.getD_eq_getElem?_getD, List.getElem?_ofFn]
  split
  · rfl
  · rfl

/-- Other spellings are parsed too. -/
example : (MacAddress.parse " a:1B:0x2c:3d:4E:5F eth0".toList).map toString = some "0A:1B:2C:3D:4E:5F".toList := by
  decide +kernel

theorem padded_of_parse {address : Text} (h : MacAddress.parse address = some m) : m.Padded := by
  rw [parse] at h
  split at h
  · rename_i hlength
    obtain rfl := Option.some.inj h
    have hpast : ∀ i, 6 ≤ i → (Hex.scanAll ':' 6 (address.takeWhile (· ≠ '\x00'))).getD i 0 = 0 := by
      intro i hi
      rw [List.getD_eq_getElem?_getD, List.getElem?_eq_none (hlength.trans_le hi), Option.getD_none]
    exact ⟨hpast 6 (le_refl 6), hpast 7 (by decide)⟩
  · exact nomatch h

theorem ofNat_eq_zero_iff (n : Nat) : UInt8.ofNat n = 0 ↔ n % 256 = 0 := by
  rw [← UInt8.toNat_inj, UInt8.toNat_ofNat']
  exact Iff.rfl

theorem padded_fromULong {address : UInt64} : (MacAddress.fromULong address).Padded ↔ address.toNat < 2 ^ 48 := by
  have hlt := address.toNat_lt
  have hsix := ofNat_eq_zero_iff (address.toNat / 256 ^ 6)
  have hseven := ofNat_eq_zero_iff (address.toNat / 256 ^ 7)
  calc (MacAddress.fromULong address).Padded
      ↔ UInt8.ofNat (address.toNat / 256 ^ 6) = 0 ∧ UInt8.ofNat (address.toNat / 256 ^ 7) = 0 := Iff.rfl
    _ ↔ address.toNat < 2 ^ 48 := by
        rw [hsix, hseven]
        omega

/-- A value is padded when it comes about as six octets. -/
theorem padded_iff {origin : Origin} (hmake : origin.make = some m) : m.Padded ↔ origin.SixOctets := by
  cases origin with
  | default =>
      rw [← Option.some.inj hmake]
      exact iff_of_true ⟨rfl, rfl⟩ trivial
  | copyFrom address =>
      rw [← Option.some.inj hmake]
      exact iff_of_true (padded_copyFrom address) trivial
  | parse address => exact iff_of_true (padded_of_parse hmake) trivial
  | fromULong address =>
      rw [← Option.some.inj hmake]
      exact padded_fromULong
  | broadcast =>
      rw [← Option.some.inj hmake]
      exact iff_of_false (fun hpadded => absurd hpadded.1 (by decide)) id
  | zero =>
      rw [← Option.some.inj hmake]
      exact iff_of_true ⟨rfl, rfl⟩ trivial

/-! ### The six octets -/

/-- The values that come about in the given ways. -/
def made (origins : Set Origin) : Set MacAddress := {mac | ∃ origin ∈ origins, origin.make = some mac}

/-- **Addresses denote their six octets exactly when** none of them is `Broadcast`, or made of a number that does not
fit into six octets. -/
theorem denote_iff (origins : Set Origin) : Denote (made origins) ↔ ∀ origin ∈ origins, origin.SixOctets := by
  constructor
  · intro hdenote origin horigin
    cases hmake : origin.make with
    | none =>
        cases origin with
        | parse address => trivial
        | default | copyFrom | fromULong | broadcast | zero => exact nomatch hmake
    | some mac =>
        have hcopied := hdenote.copied mac ⟨origin, horigin, hmake⟩ mac.octet fun i => rfl
        rw [eq_iff, copyFrom_eq_iff fun i => rfl] at hcopied
        exact (padded_iff hmake).mp hcopied
  · intro hsix
    have hpadded : ∀ mac ∈ made origins, mac.Padded := by
      rintro mac ⟨origin, horigin, hmake⟩
      exact (padded_iff hmake).mpr (hsix origin horigin)
    have hcopyTo : ∀ m ∈ made origins, ∀ n ∈ made origins, m.eq n = true ↔ m.copyTo = n.copyTo := by
      intro m hm n hn
      rw [eq_iff]
      exact ⟨congrArg copyTo, eq_of_copyTo (hpadded m hm) (hpadded n hn)⟩
    refine ⟨?_, ?_, hcopyTo, ?_, ?_, ?_, ?_, ?_, ?_⟩
    · intro m _ n _
      rw [eq_iff, ne_iff]
    · intro m hm n hn
      rw [toString_inj, hcopyTo m hm n hn]
    · intro m _
      rw [← Bool.not_eq_true, lt_iff]
      exact lt_irrefl _
    · intro m _ n _ k _ hmn hnk
      exact lt_iff.mpr ((lt_iff.mp hmn).trans (lt_iff.mp hnk))
    · intro m _ n _
      rw [lt_iff, lt_iff, eq_iff, ← ordered_inj]
      exact lt_trichotomy _ _
    · intro m _ n _ heq
      rw [eq_iff.mp heq, ← Bool.not_eq_true, lt_iff]
      exact lt_irrefl _
    · intro m hm buffer hbuffer
      rw [eq_iff, copyFrom_eq_iff hbuffer]
      exact hpadded m hm
    · intro m hm
      refine ⟨_, parse_toString m, ?_⟩
      rw [eq_iff, copyFrom_eq_iff fun i => rfl]
      exact hpadded m hm

/-- `Broadcast` is not the address of six bytes `FF`, though it is printed and copied as that. -/
theorem broadcast_ne_copied : broadcast.eq (MacAddress.copyFrom fun _ => 0xFF) = false
    ∧ broadcast.toString = (MacAddress.copyFrom fun _ => 0xFF).toString
    ∧ broadcast.copyTo = (MacAddress.copyFrom fun _ => 0xFF).copyTo ∧ ¬ Denote (made Set.univ) := by
  have heq : broadcast.eq (MacAddress.copyFrom fun _ => 0xFF) = false := by decide
  have hcopyTo : broadcast.copyTo = (MacAddress.copyFrom fun _ => 0xFF).copyTo := by decide
  refine ⟨heq, toString_inj.mpr hcopyTo, hcopyTo, ?_⟩
  intro hdenote
  have hcopied := (hdenote.copyTo broadcast ⟨.broadcast, Set.mem_univ _, rfl⟩ _
    ⟨.copyFrom fun _ => 0xFF, Set.mem_univ _, rfl⟩).mpr hcopyTo
  rw [heq] at hcopied
  exact nomatch hcopied

end MacAddress

end Armore.Proxy
