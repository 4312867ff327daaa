import Armore.Proxy.ParsingSafety

/-!
# The walk over the extension headers

What an IPv6 packet is by its headers, without the loop: a chain of extension headers, each of which says
what follows it and how long it is, up to a header that is cut off or to another protocol. There is one such
reading of a packet, and `ProcessIPv6Packet` ends where it ends.
-/

namespace Armore.Proxy

open Tables

/-- The length of the extension header at an offset. -/
def headerLength (mem : Memory) (offset : Nat) : Nat := ((mem (offset + 1)).toNat + 1) * 8

/-- Where a chain of extension headers ends. -/
inductive ChainEnd
  | cutOff (offset : Nat)
  | payload (protocol offset : Nat)
  deriving DecidableEq

/-- From an offset on, where a header of the given protocol starts, there are the extension headers at the
listed offsets, in a packet that ends at `size`. -/
inductive Chain (mem : Memory) (size : Nat) : Nat → Nat → List Nat → ChainEnd → Prop
  | payload {offset protocol : Nat} : isExtensionHeader protocol = false →
      Chain mem size offset protocol [] (.payload protocol offset)
  | cutOff {offset protocol : Nat} : isExtensionHeader protocol = true →
      size < offset + headerLength mem offset → Chain mem size offset protocol [] (.cutOff offset)
  | header {offset protocol : Nat} {headers : List Nat} {last : ChainEnd} : isExtensionHeader protocol = true →
      offset + headerLength mem offset ≤ size →
      Chain mem size (offset + headerLength mem offset) (mem offset).toNat headers last →
      Chain mem size offset protocol (offset :: headers) last

namespace ChainEnd

def offset : ChainEnd → Nat
  | .cutOff offset => offset
  | .payload _ offset => offset

/-- What the loop leaves with: `return false`, or `nextHeader` and the packet pointer. -/
def stop (size : Nat) : ChainEnd → Option (Int × Cursor)
  | .cutOff _ => none
  | .payload protocol offset =>
      some (if (protocol : Int) = ipprotoICMPV6 then ipprotoICMPV6 else -1, ⟨offset, size - offset⟩)

/-- What is read of the header at the end: the length of one that is cut off, if there are eight bytes. -/
def accesses (size : Nat) : ChainEnd → List Access
  | .cutOff offset => if size - offset < 8 then [] else [.touch (offset + 1) 1]
  | .payload _ _ => []

/-- The chain ends in an ICMPv6 header. -/
def IsICMPv6 : ChainEnd → Prop
  | .cutOff _ => False
  | .payload protocol _ => (protocol : Int) = ipprotoICMPV6

/-- It ends in another protocol. -/
def IsOther : ChainEnd → Prop
  | .cutOff _ => False
  | .payload protocol _ => (protocol : Int) ≠ ipprotoICMPV6

instance : ∀ last : ChainEnd, Decidable last.IsICMPv6
  | .cutOff _ => isFalse id
  | .payload protocol _ => inferInstanceAs (Decidable ((protocol : Int) = ipprotoICMPV6))

instance : ∀ last : ChainEnd, Decidable last.IsOther
  | .cutOff _ => isFalse id
  | .payload protocol _ => inferInstanceAs (Decidable ((protocol : Int) ≠ ipprotoICMPV6))

end ChainEnd

/-- What the loop reads of a header and takes from the length for it. -/
def headerAccesses (mem : Memory) (size offset : Nat) : List Access :=
  [.touch (offset + 1) 1, .shrink (size - offset) (headerLength mem offset), .touch offset 1]

def chainAccesses (mem : Memory) (size : Nat) (headers : List Nat) (last : ChainEnd) : List Access :=
  headers.flatMap (headerAccesses mem size) ++ last.accesses size

/-! ### The reading of a packet -/

variable {mem : Memory} {size offset protocol : Nat} {headers headers' : List Nat} {last last' : ChainEnd}

theorem eight_le_headerLength (mem : Memory) (offset : Nat) : 8 ≤ headerLength mem offset := by
  unfold headerLength
  omega

theorem Chain.unique (h : Chain mem size offset protocol headers last)
    (h' : Chain mem size offset protocol headers' last') : headers' = headers ∧ last' = last := by
  induction h generalizing headers' last' with
  | payload hother =>
      cases h' with
      | payload _ => exact ⟨rfl, rfl⟩
      | cutOff hext _ => exact absurd hext (by simp [hother])
      | header hext _ _ => exact absurd hext (by simp [hother])
  | cutOff hext hcut =>
      cases h' with
      | payload hother => exact absurd hext (by simp [hother])
      | cutOff _ _ => exact ⟨rfl, rfl⟩
      | header _ hcomplete _ => exact absurd hcomplete (by omega)
  | header hext hcomplete _ ih =>
      cases h' with
      | payload hother => exact absurd hext (by simp [hother])
      | cutOff _ hcut => exact absurd hcut (by omega)
      | header _ _ hrest =>
          obtain ⟨rfl, rfl⟩ := ih hrest
          exact ⟨rfl, rfl⟩

/-- Every header takes eight bytes at least, so there is a reading. -/
theorem exists_chain (mem : Memory) (size offset protocol : Nat) :
    ∃ headers last, Chain mem size offset protocol headers last := by
  induction hleft : size - offset using Nat.strong_induction_on generalizing offset protocol with
  | _ left ih =>
      by_cases hext : isExtensionHeader protocol = true
      · by_cases hcomplete : offset + headerLength mem offset ≤ size
        · have hlength := eight_le_headerLength mem offset
          obtain ⟨headers, last, hrest⟩ :=
            ih (size - (offset + headerLength mem offset)) (by omega) _ (mem offset).toNat rfl
          exact ⟨_, _, .header hext hcomplete hrest⟩
        · exact ⟨_, _, .cutOff hext (by omega)⟩
      · exact ⟨_, _, .payload (by simpa using hext)⟩

theorem Chain.offset_last (h : Chain mem size offset protocol headers last) :
    last.offset = offset + (headers.map (headerLength mem)).sum := by
  induction h with
  | payload _ => rfl
  | cutOff _ _ => rfl
  | header _ _ _ ih =>
      rw [ih, List.map_cons, List.sum_cons]
      omega

/-! ### The loop -/

theorem not_done_of_extension {nextHeader : Int} (hext : isExtensionHeader nextHeader = true) :
    ¬ (nextHeader = ipprotoICMPV6 ∨ nextHeader = -1) := by
  rintro (rfl | rfl) <;> exact absurd hext (by decide)

/-- **The loop ends where the chain ends, and reads what the chain is.** -/
theorem skipExtensionHeaders_chain {packet : Cursor} (hpacket : packet.Within size)
    (hchain : Chain mem size packet.value protocol headers last) {fuel : Nat}
    (hfuel : packet.length / 8 + 2 ≤ fuel) :
    skipExtensionHeaders mem fuel protocol packet
      = some ⟨last.stop size, chainAccesses mem size headers last⟩ := by
  induction fuel generalizing packet protocol headers last with
  | zero => omega
  | succ fuel ih =>
      have hends := hpacket.ends
      have hleft : packet.length = size - packet.value := by omega
      cases hchain with
      | payload hother =>
          rw [ChainEnd.stop, ← hleft]
          by_cases hicmp : (protocol : Int) = ipprotoICMPV6
          · rw [hicmp, skipExtensionHeaders_done (.inl rfl), if_pos rfl]
            rfl
          · have hone : (protocol : Int) ≠ -1 := by omega
            obtain ⟨fuel, rfl⟩ : ∃ n, fuel = n + 1 := ⟨fuel - 1, by omega⟩
            rw [skipExtensionHeaders, if_neg (not_or.mpr ⟨hicmp, hone⟩), hother, if_neg Bool.false_ne_true,
              skipExtensionHeaders_done (.inr rfl), if_neg hicmp]
            rfl
      | cutOff hext hcut =>
          rw [skipExtensionHeaders, if_neg (not_done_of_extension hext), if_pos hext]
          rw [chainAccesses, ChainEnd.accesses, ← hleft]
          dsimp only
          by_cases hshort : packet.length < 8
          · rw [if_pos hshort, if_pos hshort]
            rfl
          · rw [if_neg hshort, if_neg hshort]
            have hlong : packet.length < headerLength mem packet.value := by omega
            exact if_pos hlong
      | @header _ _ headers _ hext hcomplete hrest =>
          have hlength := eight_le_headerLength mem packet.value
          have hfits : headerLength mem packet.value ≤ packet.length := by omega
          have hskip : (packet.skip (headerLength mem packet.value)).length
              = packet.length - headerLength mem packet.value :=
            Cursor.skip_length hfits (by have := hpacket.fits; omega)
          have hwalk := ih (hpacket.skip hfits) hrest (by rw [hskip]; omega)
          have hshort : ¬ packet.length < 8 := by omega
          have hlong : ¬ packet.length < ((mem (packet.value + 1)).toNat + 1) * 8 := Nat.not_lt.mpr hfits
          rw [skipExtensionHeaders, if_neg (not_done_of_extension hext), if_pos hext]
          dsimp only
          rw [if_neg hshort, if_neg hlong]
          rw [headerLength] at hwalk
          rw [hwalk, Option.map_some, hleft]
          rfl

/-! ### The packet -/

/-- What the function has done when it comes to the headers of a packet: the source is learned, the
destination looked up and its hardware address stored. -/
def beforeHeaders (cfg : Config) (now : Nat → Int) (t : Tables) (sourceConnectionID : UUID) (mem : Memory)
    (packet : Cursor) : Handled :=
  let destinationIP := in6Addr mem (packet.value + 24)
  let sourceIP := in6Addr mem (packet.value + 8)
  let updated := updateIPTable cfg t sourceIP (macAt mem 6) sourceConnectionID (now 0)
  let lookup := tryIPTableLookup updated.1 destinationIP (now 1)
  { tables := lookup.1
    byte := match lookup.2 with
      | some (mac, _) => storeMac mem 0 mac
      | none => mem
    destinationConnectionID := foundConnection lookup.2, destinationIP, injectPacket := true
    events := updated.2
    accesses := [.touch (packet.value + 24) 16, .touch (packet.value + 8) 16] ++ readSourceMac cfg sourceIP
      ++ (if lookup.2.isSome then [.touch 0 6] else []) }

/-- What it does at the end of the chain. -/
def atChainEnd (now : Nat → Int) (mem : Memory) (size : Nat) (last : ChainEnd) (h : Handled) : Handled :=
  if last.IsICMPv6 then
    if last.offset + 8 ≤ size then
      let h := { h with accesses := h.accesses ++ [.touch last.offset 1] }
      if mem last.offset = ndNeighborAdvert then
        processNDPPacket now ⟨last.offset, size - last.offset⟩ h
      else { h with injectPacket := true }
    else { h with injectPacket := false }
  else { h with injectPacket := decide last.IsOther }

theorem processIPv6Payload_chain {now : Nat → Int} {packet : Cursor} {h : Handled} {fuel : Nat}
    (hwalk : skipExtensionHeaders h.byte fuel (h.byte (packet.value + 6)).toNat (packet.skip 40)
      = some ⟨last.stop size, chainAccesses mem size headers last⟩)
    (hlast : h.byte last.offset = mem last.offset) :
    processIPv6Payload fuel now packet h
      = some (atChainEnd now mem size last
          { h with accesses := h.accesses ++ [.shrink packet.length 40, .touch (packet.value + 6) 1]
              ++ chainAccesses mem size headers last }) := by
  unfold processIPv6Payload
  dsimp only
  rw [hwalk, Option.map_some]
  refine congrArg some ?_
  cases last with
  | cutOff offset => rfl
  | payload protocol offset =>
      unfold atChainEnd
      dsimp only [ChainEnd.stop]
      by_cases hicmp : (ChainEnd.payload protocol offset).IsICMPv6
      · have hprotocol : (protocol : Int) = ipprotoICMPV6 := hicmp
        have hone : ipprotoICMPV6 ≠ -1 := by decide
        rw [if_pos hicmp, if_pos hprotocol, if_neg hone]
        by_cases hfits : (ChainEnd.payload protocol offset).offset + 8 ≤ size
        · have hlong : ¬ size - offset < 8 := by
            rw [ChainEnd.offset] at hfits
            omega
          rw [if_neg hlong, if_pos hfits, ← hlast]
          rfl
        · have hshort : size - offset < 8 := by
            rw [ChainEnd.offset] at hfits
            omega
          rw [if_pos hshort, if_neg hfits]
      · have hprotocol : (protocol : Int) ≠ ipprotoICMPV6 := hicmp
        have hother : (ChainEnd.payload protocol offset).IsOther := hprotocol
        rw [if_neg hicmp, if_neg hprotocol, if_pos rfl, decide_eq_true hother]

/-- The destination of the packet is in the table once the source is learned, or is a multicast address. -/
def Located (cfg : Config) (now : Nat → Int) (t : Tables) (sourceConnectionID : UUID) (mem : Memory)
    (packet : Cursor) : Prop :=
  let destinationIP := in6Addr mem (packet.value + 24)
  let updated := updateIPTable cfg t (in6Addr mem (packet.value + 8)) (macAt mem 6) sourceConnectionID (now 0)
  (tryIPTableLookup updated.1 destinationIP (now 1)).2.isSome ∨ destinationIP.isMulticast

section

variable {cfg : Config} {now : Nat → Int} {t : Tables} {sourceConnectionID : UUID} {packet : Cursor}

/-- The hardware address that is stored is in front of the packet. -/
theorem beforeHeaders_byte {i : Nat} (hi : 6 ≤ i) :
    (beforeHeaders cfg now t sourceConnectionID mem packet).byte i = mem i := by
  unfold beforeHeaders
  dsimp only
  generalize (tryIPTableLookup _ _ _).2 = found
  cases found with
  | some found => exact storeMac_of_outside mem _ (.inr hi)
  | none => rfl

/-- A packet with a located destination is handled by its headers. -/
theorem processIPv6Packet_located (hcfg : cfg.transparentOperation = false) (hlength : 40 ≤ packet.length)
    (hlocated : Located cfg now t sourceConnectionID mem packet) (fuel : Nat) :
    processIPv6Packet fuel cfg now t sourceConnectionID mem packet
      = processIPv6Payload fuel now packet (beforeHeaders cfg now t sourceConnectionID mem packet) := by
  have hlong : ¬ packet.length < 40 := by omega
  unfold processIPv6Packet beforeHeaders
  unfold Located at hlocated
  dsimp only at hlocated ⊢
  rw [if_neg hlong, hcfg, if_neg Bool.false_ne_true]
  cases hfound : (tryIPTableLookup (updateIPTable cfg t (in6Addr mem (packet.value + 8)) (macAt mem 6)
      sourceConnectionID (now 0)).1 (in6Addr mem (packet.value + 24)) (now 1)).2 with
  | some found => rfl
  | none =>
      rw [hfound] at hlocated
      dsimp only
      rw [if_pos (hlocated.resolve_left Bool.false_ne_true)]
      simp only [Option.isSome_none, Bool.false_eq_true, if_false, List.append_nil]

theorem beforeHeaders_inside (hpacket : packet.Within size) (hlength : 40 ≤ packet.length) (hsize : 14 ≤ size) :
    AllInside size (beforeHeaders cfg now t sourceConnectionID mem packet).accesses := by
  have hends := hpacket.ends
  have hread := readSourceMac_inside cfg hsize
  unfold beforeHeaders
  dsimp only
  split <;>
    simp only [allInside_append, allInside_cons, Access.inside_touch, allInside_nil, hread, and_true] <;>
    omega

theorem atChainEnd_inside {h : Handled} (hsize : 14 ≤ size) (hfits : size < 2 ^ 32)
    (hinside : AllInside size h.accesses) : AllInside size (atChainEnd now mem size last h).accesses := by
  unfold atChainEnd
  split
  · split
    · rename_i hcomplete
      have htype : AllInside size (h.accesses ++ [.touch last.offset 1]) := by
        simp only [allInside_append, allInside_cons, Access.inside_touch, allInside_nil, hinside, and_true,
          true_and]
        omega
      have hrest : Cursor.Within ⟨last.offset, size - last.offset⟩ size := ⟨by dsimp only; omega, hfits⟩
      dsimp only
      split
      · exact processNDPPacket_inside hrest hsize htype
      · exact htype
    · exact hinside
  · exact hinside

/-- How the loop leaves: with `false` when a header is cut off, with nothing more to look at when another
protocol follows, else at the ICMPv6 header. -/
structure LeavesAt (size : Nat) (last : ChainEnd) (stop : Option (Int × Cursor)) : Prop where
  withFalse : stop = none ↔ ∃ offset, last = .cutOff offset
  withTrue : (∃ cursor, stop = some (-1, cursor)) ↔ last.IsOther
  atHeader : last.IsICMPv6 → stop = some (ipprotoICMPV6, ⟨last.offset, size - last.offset⟩)

theorem ChainEnd.leavesAt_stop (size : Nat) (last : ChainEnd) : LeavesAt size last (last.stop size) := by
  cases last with
  | cutOff offset => exact ⟨iff_of_true rfl ⟨offset, rfl⟩, iff_of_false (by rintro ⟨_, ⟨⟩⟩) id, False.elim⟩
  | payload protocol offset =>
      refine ⟨iff_of_false nofun (by rintro ⟨_, ⟨⟩⟩), ?_, ?_⟩
      · by_cases hicmp : (protocol : Int) = ipprotoICMPV6
        · refine iff_of_false ?_ (not_not_intro hicmp)
          rintro ⟨cursor, hstop⟩
          rw [stop, if_pos hicmp, Option.some.injEq, Prod.mk.injEq] at hstop
          exact absurd hstop.1 (by decide)
        · exact iff_of_true ⟨_, by rw [stop, if_neg hicmp]⟩ hicmp
      · intro hicmp
        have hprotocol : (protocol : Int) = ipprotoICMPV6 := hicmp
        rw [stop, if_pos hprotocol, ChainEnd.offset]

/-- The loop reads the headers of the one chain there is and leaves where it ends, the function goes on from
there, and all of it stays inside the packet. -/
def FollowsChain (cfg : Config) (now : Nat → Int) (t : Tables) (sourceConnectionID : UUID) (mem : Memory)
    (packet : Cursor) (size : Nat) : Prop :=
  ∃ headers last, Chain mem size (packet.value + 40) (mem (packet.value + 6)).toNat headers last
    ∧ (∀ headers' last', Chain mem size (packet.value + 40) (mem (packet.value + 6)).toNat headers' last' →
        headers' = headers ∧ last' = last)
    ∧ last.offset = packet.value + 40 + (headers.map (headerLength mem)).sum
    ∧ ∀ fuel, size / 8 + 2 ≤ fuel →
        let before := beforeHeaders cfg now t sourceConnectionID mem packet
        ∃ stop h, skipExtensionHeaders before.byte fuel (before.byte (packet.value + 6)).toNat (packet.skip 40)
            = some ⟨stop, chainAccesses mem size headers last⟩
          ∧ LeavesAt size last stop
          ∧ processIPv6Packet fuel cfg now t sourceConnectionID mem packet = some h
          ∧ h = atChainEnd now mem size last
              { before with accesses := before.accesses
                  ++ [.shrink packet.length 40, .touch (packet.value + 6) 1]
                  ++ chainAccesses mem size headers last }
          ∧ AllInside size h.accesses

/-- **`ProcessIPv6Packet` follows the chain of extension headers of its packet.** -/
theorem processIPv6Packet_followsChain (hcfg : cfg.transparentOperation = false) (hpacket : packet.Within size)
    (hbehind : 14 ≤ packet.value) (hlength : 40 ≤ packet.length)
    (hlocated : Located cfg now t sourceConnectionID mem packet) :
    FollowsChain cfg now t sourceConnectionID mem packet size := by
  have hends := hpacket.ends
  obtain ⟨headers, last, hchain⟩ := exists_chain mem size (packet.value + 40) (mem (packet.value + 6)).toNat
  refine ⟨headers, last, hchain, fun _ _ => hchain.unique, hchain.offset_last, fun fuel hfuel => ?_⟩
  intro before
  have hagree : ∀ i, 6 ≤ i → before.byte i = mem i := fun _ => beforeHeaders_byte
  have hpayload := hpacket.skip hlength
  have hfuelPayload : (packet.skip 40).length / 8 + 2 ≤ fuel := by
    have hpayloadEnds := hpayload.ends
    omega
  have hloop := skipExtensionHeaders_chain hpayload hchain hfuelPayload
  have hwalk : skipExtensionHeaders before.byte fuel (before.byte (packet.value + 6)).toNat (packet.skip 40)
      = some ⟨last.stop size, chainAccesses mem size headers last⟩ := by
    have hstart : 6 ≤ (packet.skip 40).value := by
      rw [Cursor.skip_value]
      omega
    rw [skipExtensionHeaders_congr hagree _ _ _ hstart, hagree _ (by omega)]
    exact hloop
  have hlast : before.byte last.offset = mem last.offset := hagree _ (by rw [hchain.offset_last]; omega)
  obtain ⟨walk, hsome, hwalkInside⟩ :=
    skipExtensionHeaders_inside mem hpayload hfuelPayload (mem (packet.value + 6)).toNat
  obtain rfl : walk = ⟨last.stop size, chainAccesses mem size headers last⟩ :=
    Option.some.inj (hsome.symm.trans hloop)
  refine ⟨_, _, hwalk, last.leavesAt_stop size, ?_, rfl, ?_⟩
  · rw [processIPv6Packet_located hcfg hlength hlocated]
    exact processIPv6Payload_chain hwalk hlast
  · apply atChainEnd_inside (by omega) hpacket.fits
    rw [allInside_append, allInside_append]
    refine ⟨⟨beforeHeaders_inside hpacket hlength (by omega), ?_⟩, hwalkInside.accesses⟩
    simp only [allInside_cons, Access.inside_touch, Access.inside_shrink, allInside_nil, and_true]
    omega

end

/-- A neighbour advertisement to all nodes behind a header of hop-by-hop options, cut off after its ICMPv6
header. -/
def advertisementBehindOptions : Buffer :=
  .ofList (List.replicate 12 0xAA ++ [0x86, 0xDD]
    ++ [0x60, 0, 0, 0, 0, 16, 0, 255] ++ List.replicate 16 0x02 ++ 0xFF :: List.replicate 15 0x01
    ++ [58, 0, 1, 4, 0, 0, 0, 0] ++ [136, 0, 0, 0, 0, 0, 0, 0]) (by decide)

theorem processIPv6Packet_followsChain_advertisement :
    FollowsChain translatingServer (fun _ => 0) .empty (.replicate 3) advertisementBehindOptions.byte ⟨14, 56⟩ 70 :=
  processIPv6Packet_followsChain rfl ⟨rfl, by decide⟩ (by decide) (by decide) (.inr rfl)

end Armore.Proxy
