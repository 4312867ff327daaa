import Armore.Lib.HashTable
import Armore.Proxy.Address
import Armore.Lib.Text
import Mathlib.Data.List.Lex
import Mathlib.Data.Set.Insert

/-!
# Addresses as keys

The processor keys its two maps with `IPAddress`. An object of this class has room for an address of each
version, and its comparisons look at the version of the left operand only. Elsewhere in this development an
address is its version with its value; here it is the object, and the comparisons and the hash code are
those of the class.
-/

namespace Armore.Proxy

open Lib (Text)
open Lib.HashTable

/-- The fields of an `IPAddress`. -/
@[ext] structure AddressObject where
  ipVersion : Nat
  ipv4Value : UInt32
  ipv6Value : Fin 16 → UInt8
  hashCode : UInt64

/-- What the class takes from the libraries: `inet_pton` for the two families, `inet_ntop` for IPv6, and
`hash<string>`. -/
structure AddressLibrary where
  inetPton : Text → Option UInt32
  inetPton6 : Text → Option (Fin 16 → UInt8)
  inetNtop6 : (Fin 16 → UInt8) → Text
  hashString : Text → UInt64

/-- `hash<u_int32_t>` is the identity. -/
def hashUInt32 (value : UInt32) : UInt64 := value.toUInt64

/-- `memcmp` of two blocks of the same size. -/
def memcmp : List UInt8 → List UInt8 → Int
  | x :: xs, y :: ys => if x = y then memcmp xs ys else x.toNat - y.toNat
  | _, _ => 0

namespace AddressObject

/-! ### Construction -/

def default : AddressObject := ⟨4, 0, fun _ => 0, 0⟩

def ofInAddr (address : UInt32) : AddressObject := ⟨4, address, fun _ => 0, hashUInt32 address⟩

def ofIn6Addr (lib : AddressLibrary) (address : Fin 16 → UInt8) : AddressObject :=
  ⟨6, 0, address, lib.hashString (lib.inetNtop6 address)⟩

/-- `Parse`; `none` where it throws `out_of_range`. -/
def parse (lib : AddressLibrary) (address : Text) (isIPv6 : Bool) : Option AddressObject :=
  if isIPv6 then (lib.inetPton6 address).map (ofIn6Addr lib) else (lib.inetPton address).map ofInAddr

/-- The objects that the constructors and `Parse` make. -/
inductive Built (lib : AddressLibrary) : AddressObject → Prop
  | zero : Built lib default
  | ipv4 (address : UInt32) : Built lib (ofInAddr address)
  | ipv6 (address : Fin 16 → UInt8) : Built lib (ofIn6Addr lib address)
  | parsed {address : Text} {isIPv6 : Bool} {object : AddressObject} :
      parse lib address isIPv6 = some object → Built lib object

/-! ### Comparison -/

def isIPv6 (a : AddressObject) : Bool := a.ipVersion == 6

/-- `m_ipv6Value.s6_addr`. -/
def bytes (a : AddressObject) : List UInt8 := List.ofFn a.ipv6Value

/-- `operator<`. -/
def lt (a other : AddressObject) : Bool :=
  if a.isIPv6 then decide (memcmp a.bytes other.bytes < 0) else decide (a.ipv4Value < other.ipv4Value)

/-- `operator==`. -/
def eq (a other : AddressObject) : Bool :=
  if a.isIPv6 then memcmp a.bytes other.bytes == 0 else a.ipv4Value == other.ipv4Value

/-- `hash<IPAddress>`. -/
def getHashCode (a : AddressObject) : Nat := a.hashCode.toNat

end AddressObject

/-! ### `memcmp` -/

theorem memcmp_eq_zero_iff {xs ys : List UInt8} (hlength : xs.length = ys.length) :
    memcmp xs ys = 0 ↔ xs = ys := by
  induction xs generalizing ys with
  | nil =>
      rw [List.eq_nil_of_length_eq_zero hlength.symm]
      simp [memcmp]
  | cons x xs ih =>
      cases ys with
      | nil => cases hlength
      | cons y ys =>
          rw [memcmp]
          by_cases hxy : x = y
          · rw [if_pos hxy, ih (by simpa using hlength), hxy, List.cons.injEq, and_iff_right rfl]
          · have hne : x.toNat ≠ y.toNat := fun h => hxy (UInt8.toNat_inj.mp h)
            rw [if_neg hxy, List.cons.injEq]
            simp only [hxy, false_and, iff_false]
            omega

/-- `memcmp` is the lexicographic order of the bytes. -/
theorem memcmp_neg_iff {xs ys : List UInt8} (hlength : xs.length = ys.length) :
    memcmp xs ys < 0 ↔ xs.map UInt8.toNat < ys.map UInt8.toNat := by
  induction xs generalizing ys with
  | nil =>
      rw [List.eq_nil_of_length_eq_zero hlength.symm]
      simp [memcmp]
  | cons x xs ih =>
      cases ys with
      | nil => cases hlength
      | cons y ys =>
          rw [memcmp, List.map_cons, List.map_cons, List.cons_lt_cons_iff]
          by_cases hxy : x = y
          · rw [if_pos hxy, ih (by simpa using hlength), hxy]
            simp
          · have hne : x.toNat ≠ y.toNat := fun h => hxy (UInt8.toNat_inj.mp h)
            rw [if_neg hxy]
            simp only [hne, false_and, or_false]
            omega

namespace AddressObject

variable {lib : AddressLibrary} {a b : AddressObject}

/-! ### What is built -/

theorem Built.of_version (h : Built lib a) :
    (∃ address, a = ofInAddr address) ∨ ∃ address, a = ofIn6Addr lib address := by
  cases h with
  | zero => exact .inl ⟨0, rfl⟩
  | ipv4 address => exact .inl ⟨address, rfl⟩
  | ipv6 address => exact .inr ⟨address, rfl⟩
  | @parsed address isIPv6 _ hparse =>
      unfold parse at hparse
      split at hparse
      · obtain ⟨value, _, rfl⟩ := Option.map_eq_some_iff.mp hparse
        exact .inr ⟨value, rfl⟩
      · obtain ⟨value, _, rfl⟩ := Option.map_eq_some_iff.mp hparse
        exact .inl ⟨value, rfl⟩

/-- Two of one version are IPv4 both or IPv6 both. -/
theorem Built.same_version (ha : Built lib a) (hb : Built lib b) (hversion : a.ipVersion = b.ipVersion) :
    (∃ x y, a = ofInAddr x ∧ b = ofInAddr y) ∨ ∃ x y, a = ofIn6Addr lib x ∧ b = ofIn6Addr lib y := by
  rcases ha.of_version with ⟨x, rfl⟩ | ⟨x, rfl⟩
  · rcases hb.of_version with ⟨y, rfl⟩ | ⟨y, rfl⟩
    · exact .inl ⟨x, y, rfl, rfl⟩
    · cases hversion
  · rcases hb.of_version with ⟨y, rfl⟩ | ⟨y, rfl⟩
    · cases hversion
    · exact .inr ⟨x, y, rfl, rfl⟩

@[simp] theorem eq_ofInAddr (x y : UInt32) : (ofInAddr x).eq (ofInAddr y) = true ↔ x = y := by
  simp [AddressObject.eq, isIPv6, ofInAddr]

@[simp] theorem lt_ofInAddr (x y : UInt32) : (ofInAddr x).lt (ofInAddr y) = true ↔ x < y := by
  show (if (4 : Nat) == 6 then _ else decide (x < y)) = true ↔ x < y
  rw [if_neg (by decide), decide_eq_true_eq]

theorem memcmp_bytes_eq_zero (a b : AddressObject) : memcmp a.bytes b.bytes = 0 ↔ a.ipv6Value = b.ipv6Value := by
  rw [memcmp_eq_zero_iff (by simp [bytes]), bytes, bytes, List.ofFn_inj]

@[simp] theorem eq_ofIn6Addr (x y : Fin 16 → UInt8) : (ofIn6Addr lib x).eq (ofIn6Addr lib y) = true ↔ x = y := by
  have h := memcmp_bytes_eq_zero (ofIn6Addr lib x) (ofIn6Addr lib y)
  rw [AddressObject.eq, if_pos (by rfl), beq_iff_eq, h]
  rfl

/-- The bytes as the comparison orders them. -/
def ordered (x : Fin 16 → UInt8) : List Nat := (List.ofFn x).map UInt8.toNat

theorem ordered_injective {x y : Fin 16 → UInt8} (h : ordered x = ordered y) : x = y := by
  have hinjective : Function.Injective UInt8.toNat := fun _ _ hxy => UInt8.toNat_inj.mp hxy
  exact List.ofFn_inj.mp (List.map_injective_iff.mpr hinjective h)

@[simp] theorem lt_ofIn6Addr (x y : Fin 16 → UInt8) :
    (ofIn6Addr lib x).lt (ofIn6Addr lib y) = true ↔ ordered x < ordered y := by
  have hlength : (ofIn6Addr lib x).bytes.length = (ofIn6Addr lib y).bytes.length := by simp [bytes]
  have h := memcmp_neg_iff hlength
  rw [AddressObject.lt, if_pos (by rfl), decide_eq_true_eq, h]
  rfl

/-! ### The laws -/

/-- What the two maps expect of the addresses they are used with. -/
structure LawfulKeys (keys : Set AddressObject) : Prop where
  lawful : LawfulOn getHashCode eq keys
  version : ∀ a ∈ keys, ∀ b ∈ keys, a.eq b = true → a.ipVersion = b.ipVersion
  irrefl : ∀ a ∈ keys, a.lt a = false
  trans : ∀ a ∈ keys, ∀ b ∈ keys, ∀ c ∈ keys, a.lt b = true → b.lt c = true → a.lt c = true
  equivalent : ∀ a ∈ keys, ∀ b ∈ keys, a.lt b = false ∧ b.lt a = false ↔ a.eq b = true
  found : ∀ {V : Type} {nodes : List (AddressObject × V)}, Reachable getHashCode eq keys nodes →
    ∀ node ∈ nodes, ∀ b ∈ keys, find getHashCode eq nodes b = some node ↔ node.1.eq b = true

/-- The laws hold where the comparisons are those of a linear order. -/
theorem lawfulKeys_of_order {L : Type} [LinearOrder L] {keys : Set AddressObject} (order : AddressObject → L)
    (heq : ∀ a ∈ keys, ∀ b ∈ keys, a.eq b = true ↔ order a = order b)
    (hlt : ∀ a ∈ keys, ∀ b ∈ keys, a.lt b = true ↔ order a < order b)
    (hversion : ∀ a ∈ keys, ∀ b ∈ keys, a.ipVersion = b.ipVersion)
    (hhash : ∀ a ∈ keys, ∀ b ∈ keys, order a = order b → a.getHashCode = b.getHashCode) :
    LawfulKeys keys := by
  have hlawful : LawfulOn getHashCode eq keys := by
    refine ⟨?_, ?_, ?_, ?_⟩
    · intro a ha
      exact (heq a ha a ha).mpr rfl
    · intro a ha b hb hab
      exact (heq b hb a ha).mpr ((heq a ha b hb).mp hab).symm
    · intro a ha b hb c hc hab hbc
      exact (heq a ha c hc).mpr (((heq a ha b hb).mp hab).trans ((heq b hb c hc).mp hbc))
    · intro a ha b hb hab
      exact hhash a ha b hb ((heq a ha b hb).mp hab)
  refine ⟨hlawful, ?_, ?_, ?_, ?_, ?_⟩
  · intro a ha b hb _
    exact hversion a ha b hb
  · intro a ha
    rw [← Bool.not_eq_true, hlt a ha a ha]
    exact lt_irrefl _
  · intro a ha b hb c hc hab hbc
    exact (hlt a ha c hc).mpr (((hlt a ha b hb).mp hab).trans ((hlt b hb c hc).mp hbc))
  · intro a ha b hb
    rw [← Bool.not_eq_true, ← Bool.not_eq_true, hlt a ha b hb, hlt b hb a ha, heq a ha b hb, not_lt, not_lt]
    exact ⟨fun h => le_antisymm h.2 h.1, fun h => ⟨h.ge, h.le⟩⟩
  · intro V nodes hreachable node hnode b hb
    exact hreachable.find_iff hlawful hnode hb

theorem lawfulKeys_of_ipv4 {keys : Set AddressObject} (hkeys : ∀ a ∈ keys, ∃ x, a = ofInAddr x) :
    LawfulKeys keys := by
  refine lawfulKeys_of_order (fun a => a.ipv4Value.toNat) ?_ ?_ ?_ ?_
  · intro a ha b hb
    obtain ⟨x, rfl⟩ := hkeys a ha
    obtain ⟨y, rfl⟩ := hkeys b hb
    rw [eq_ofInAddr]
    exact UInt32.toNat_inj.symm
  · intro a ha b hb
    obtain ⟨x, rfl⟩ := hkeys a ha
    obtain ⟨y, rfl⟩ := hkeys b hb
    rw [lt_ofInAddr]
    exact UInt32.lt_iff_toNat_lt
  · intro a ha b hb
    obtain ⟨x, rfl⟩ := hkeys a ha
    obtain ⟨y, rfl⟩ := hkeys b hb
    rfl
  · intro a ha b hb hab
    obtain ⟨x, rfl⟩ := hkeys a ha
    obtain ⟨y, rfl⟩ := hkeys b hb
    obtain rfl : x = y := UInt32.toNat_inj.mp hab
    rfl

theorem lawfulKeys_of_ipv6 {keys : Set AddressObject} (hkeys : ∀ a ∈ keys, ∃ x, a = ofIn6Addr lib x) :
    LawfulKeys keys := by
  refine lawfulKeys_of_order (fun a => ordered a.ipv6Value) ?_ ?_ ?_ ?_
  · intro a ha b hb
    obtain ⟨x, rfl⟩ := hkeys a ha
    obtain ⟨y, rfl⟩ := hkeys b hb
    rw [eq_ofIn6Addr]
    exact ⟨congrArg ordered, ordered_injective⟩
  · intro a ha b hb
    obtain ⟨x, rfl⟩ := hkeys a ha
    obtain ⟨y, rfl⟩ := hkeys b hb
    exact lt_ofIn6Addr x y
  · intro a ha b hb
    obtain ⟨x, rfl⟩ := hkeys a ha
    obtain ⟨y, rfl⟩ := hkeys b hb
    rfl
  · intro a ha b hb hab
    obtain ⟨x, rfl⟩ := hkeys a ha
    obtain ⟨y, rfl⟩ := hkeys b hb
    obtain rfl : x = y := ordered_injective hab
    rfl

/-! ### Addresses of both versions -/

theorem memcmp_zero_nonneg (xs : List UInt8) (n : Nat) : 0 ≤ memcmp xs (List.replicate n 0) := by
  induction xs generalizing n with
  | nil => exact le_refl 0
  | cons x xs ih =>
      cases n with
      | zero => exact le_refl 0
      | succ n =>
          rw [List.replicate_succ, memcmp]
          split
          · exact ih n
          · exact Int.sub_nonneg_of_le (Int.ofNat_le.mpr (Nat.zero_le _))

/-- No address is before one of the other version. -/
theorem lt_ofInAddr_ofIn6Addr (x : UInt32) (y : Fin 16 → UInt8) :
    (ofInAddr x).lt (ofIn6Addr lib y) = false ∧ (ofIn6Addr lib y).lt (ofInAddr x) = false := by
  constructor
  · simp [AddressObject.lt, isIPv6, ofInAddr, ofIn6Addr]
  · have hzero : (ofInAddr x).bytes = List.replicate 16 0 := rfl
    rw [AddressObject.lt, if_pos (by rfl), hzero, decide_eq_false_iff_not, not_lt]
    exact memcmp_zero_nonneg _ _

/-- **Addresses are lawful keys exactly where they are of one version.** -/
theorem lawfulKeys_iff {keys : Set AddressObject} (hbuilt : ∀ a ∈ keys, Built lib a) :
    LawfulKeys keys ↔ ∀ a ∈ keys, ∀ b ∈ keys, a.ipVersion = b.ipVersion := by
  constructor
  · intro hlawful a ha b hb
    have hmixed : ∀ x y, ofInAddr x ∈ keys → ofIn6Addr lib y ∈ keys → False := by
      intro x y hx hy
      have heq := (hlawful.equivalent _ hx _ hy).mp (lt_ofInAddr_ofIn6Addr x y)
      exact absurd (hlawful.version _ hx _ hy heq) (by decide : (4 : Nat) ≠ 6)
    rcases (hbuilt a ha).of_version with ⟨x, rfl⟩ | ⟨x, rfl⟩
    · rcases (hbuilt b hb).of_version with ⟨y, rfl⟩ | ⟨y, rfl⟩
      · rfl
      · exact (hmixed x y ha hb).elim
    · rcases (hbuilt b hb).of_version with ⟨y, rfl⟩ | ⟨y, rfl⟩
      · exact (hmixed y x hb ha).elim
      · rfl
  · intro hversion
    by_cases hipv6 : ∃ x, ofIn6Addr lib x ∈ keys
    · obtain ⟨x, hx⟩ := hipv6
      refine @lawfulKeys_of_ipv6 lib _ ?_
      intro b hb
      rcases (hbuilt _ hx).same_version (hbuilt b hb) (hversion _ hx b hb) with
        ⟨y, z, hy, _⟩ | ⟨y, z, _, hz⟩
      · exact absurd (congrArg ipVersion hy) (by decide : (6 : Nat) ≠ 4)
      · exact ⟨z, hz⟩
    · refine lawfulKeys_of_ipv4 ?_
      intro b hb
      rcases (hbuilt b hb).of_version with ⟨y, hy⟩ | ⟨y, rfl⟩
      · exact ⟨y, hy⟩
      · exact absurd ⟨y, hb⟩ hipv6

/-- `fe80::1`. -/
def linkLocal : Fin 16 → UInt8 := fun i => [0xFE, 0x80, 0, 0, 0, 0, 0, 0, 0, 0, 0, 0, 0, 0, 0, 1].getD i 0

/-- `0.0.0.0 == fe80::1`, but not the other way round. -/
theorem zero_eq_linkLocal (lib : AddressLibrary) :
    default.eq (ofIn6Addr lib linkLocal) = true ∧ (ofIn6Addr lib linkLocal).eq default = false :=
  ⟨rfl, rfl⟩

/-- The library functions on the addresses of these examples. -/
def someLibrary : AddressLibrary where
  inetPton address := if address = "10.0.0.1".toList then some 0x0100000A else none
  inetPton6 address := if address = "fe80::1".toList then some linkLocal else none
  inetNtop6 _ := "fe80::1".toList
  hashString _ := 3747621354205863606

theorem mixed_not_lawful :
    ¬ ∀ (lib : AddressLibrary) (keys : Set AddressObject), (∀ a ∈ keys, Built lib a) → LawfulKeys keys := by
  intro hall
  have hlawful := hall someLibrary {default, ofIn6Addr someLibrary linkLocal} (by
    rintro a (rfl | rfl)
    · exact .zero
    · exact .ipv6 linkLocal)
  have hback := hlawful.lawful.symm default (by simp) (ofIn6Addr someLibrary linkLocal) (by simp)
    (zero_eq_linkLocal someLibrary).1
  rw [(zero_eq_linkLocal someLibrary).2] at hback
  cases hback

theorem lawfulKeys_parsed :
    LawfulKeys {default, ofInAddr 0x0100000A} := by
  have hparse : parse someLibrary "10.0.0.1".toList false = some (ofInAddr 0x0100000A) := rfl
  refine (@lawfulKeys_iff someLibrary _ ?_).mpr ?_
  · rintro a (rfl | rfl)
    · exact .zero
    · exact .parsed hparse
  · rintro a (rfl | rfl) b (rfl | rfl) <;> rfl

/-! ### The value of an address -/

/-- The address an object stands for. -/
def value (a : AddressObject) : IPAddress := if a.isIPv6 then .ipv6 a.ipv6Value else .ipv4 a.ipv4Value

@[simp] theorem value_ofInAddr (x : UInt32) : (ofInAddr x).value = .ipv4 x := rfl

@[simp] theorem value_ofIn6Addr (x : Fin 16 → UInt8) : (ofIn6Addr lib x).value = .ipv6 x := rfl

theorem eq_iff_value (ha : Built lib a) (hb : Built lib b) (hversion : a.ipVersion = b.ipVersion) :
    a.eq b = true ↔ a.value = b.value := by
  rcases ha.same_version hb hversion with ⟨x, y, rfl, rfl⟩ | ⟨x, y, rfl, rfl⟩
  · rw [eq_ofInAddr]
    simp
  · rw [eq_ofIn6Addr]
    simp

theorem getHashCode_lt (x : UInt32) : (ofInAddr x).getHashCode < 2 ^ 32 := by
  show (hashUInt32 x).toNat < 2 ^ 32
  rw [hashUInt32, UInt32.toNat_toUInt64]
  exact x.toNat_lt

/-- **A lookup goes by the value**, in tables of both versions too, unless the code of some IPv6 address is
one that an IPv4 address can have. -/
theorem hits_iff_value (hcode : ∀ x, 2 ^ 32 ≤ (ofIn6Addr lib x).getHashCode) (ha : Built lib a)
    (hb : Built lib b) : hits getHashCode eq b a = true ↔ a.value = b.value := by
  rcases ha.of_version with ⟨x, rfl⟩ | ⟨x, rfl⟩
  · rcases hb.of_version with ⟨y, rfl⟩ | ⟨y, rfl⟩
    · have hlawful : LawfulKeys {ofInAddr x, ofInAddr y} := lawfulKeys_of_ipv4 (by
        rintro c (rfl | rfl)
        · exact ⟨x, rfl⟩
        · exact ⟨y, rfl⟩)
      rw [hlawful.lawful.hits_iff (by simp) (by simp), eq_iff_value hb ha rfl, eq_comm]
    · have hlt := getHashCode_lt x
      have hle := hcode y
      have hne : (ofInAddr x).getHashCode ≠ (ofIn6Addr lib y).getHashCode := by omega
      simp [hits, hne]
  · rcases hb.of_version with ⟨y, rfl⟩ | ⟨y, rfl⟩
    · have hlt := getHashCode_lt y
      have hle := hcode x
      have hne : (ofIn6Addr lib x).getHashCode ≠ (ofInAddr y).getHashCode := by omega
      simp [hits, hne]
    · have hlawful : LawfulKeys {ofIn6Addr lib x, ofIn6Addr lib y} := by
        apply @lawfulKeys_of_ipv6 lib
        rintro c (rfl | rfl)
        · exact ⟨x, rfl⟩
        · exact ⟨y, rfl⟩
      rw [hlawful.lawful.hits_iff (by simp) (by simp), eq_iff_value hb ha rfl, eq_comm]

end AddressObject

end Armore.Proxy
