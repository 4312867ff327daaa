import Armore.Proxy.Received

/-!
# Safety of the decode path

Handling a received frame is safe when it ends, touches bytes of the frame only and never takes more from
the remaining length than there is. Every layer behind the VLAN tags keeps this as long as the packet
pointer it is given ends where the frame ends, `Cursor.Within`. The loop over the VLAN tags does not look
at the length, so the whole path is safe exactly when the chain of tags ends inside the frame.
-/

namespace Armore.Proxy

open Tables

/-- All accesses stay inside a buffer of `size` bytes. -/
def AllInside (size : Nat) (accesses : List Access) : Prop := ∀ access ∈ accesses, access.Inside size

@[simp] theorem allInside_nil (size : Nat) : AllInside size [] := nofun

@[simp] theorem allInside_cons {size : Nat} {access : Access} {accesses : List Access} :
    AllInside size (access :: accesses) ↔ access.Inside size ∧ AllInside size accesses :=
  List.forall_mem_cons

@[simp] theorem allInside_append {size : Nat} {accesses accesses' : List Access} :
    AllInside size (accesses ++ accesses') ↔ AllInside size accesses ∧ AllInside size accesses' :=
  List.forall_mem_append

/-- Handling the frame ends, and all its accesses stay inside the frame. -/
def SafelyDecoded (cfg : Config) (now : Nat → Int) (t : Tables) (sourceConnectionID : UUID)
    (f : Buffer) : Prop :=
  ∃ fuel h, decodePacket fuel cfg now t sourceConnectionID f = some h ∧ AllInside f.length h.accesses

variable {cfg : Config} {now : Nat → Int} {t : Tables} {sourceConnectionID : UUID} {mem : Memory}
  {packet : Cursor} {size : Nat}

/-! ### The protocol functions -/

theorem readSourceMac_inside (cfg : Config) (hsize : 14 ≤ size) (ip : IPAddress) :
    AllInside size (readSourceMac cfg ip) := by
  unfold readSourceMac
  split
  · simp
    omega
  · simp

theorem processARPPacket_inside (hpacket : packet.Within size) (hsize : 14 ≤ size) :
    AllInside size (processARPPacket cfg now t sourceConnectionID mem packet).accesses := by
  have hends := hpacket.ends
  have hread := readSourceMac_inside cfg hsize
  unfold processARPPacket
  dsimp only
  split
  · exact allInside_nil size
  · split
    · simp [hread]
      omega
    · split
      · simp [hread]
        omega
      · split
        · simp [hread]
          omega
        · simp [hread]
          omega

theorem processIPv4Packet_inside (hpacket : packet.Within size) (hsize : 14 ≤ size) :
    AllInside size (processIPv4Packet cfg now t sourceConnectionID mem packet).accesses := by
  have hends := hpacket.ends
  have hread := readSourceMac_inside cfg hsize
  unfold processIPv4Packet
  dsimp only
  split
  · exact allInside_nil size
  · split
    · simp [hread]
      omega
    · split
      · split
        · simp [hread]
          omega
        · split
          · simp [hread]
            omega
          · split
            · simp [hread]
              omega
            · simp [hread]
              omega
      · simp [hread]
        omega

theorem processNDPPacket_inside {h : Handled} (hpacket : packet.Within size) (hsize : 14 ≤ size)
    (hinside : AllInside size h.accesses) :
    AllInside size (processNDPPacket now packet h).accesses := by
  have hends := hpacket.ends
  unfold processNDPPacket
  dsimp only
  split
  · exact hinside
  · split
    · simp [hinside]
      omega
    · simp [hinside]
      omega

/-! ### The loop over the extension headers -/

theorem skipExtensionHeaders_done {fuel : Nat} {nextHeader : Int}
    (hdone : nextHeader = ipprotoICMPV6 ∨ nextHeader = -1) :
    skipExtensionHeaders mem (fuel + 1) nextHeader packet = some ⟨some (nextHeader, packet), []⟩ := by
  rw [skipExtensionHeaders, if_pos hdone]

/-- The walk over the headers stays inside and so does the pointer it ends with. -/
structure ExtensionWalk.Inside (walk : ExtensionWalk) (size : Nat) : Prop where
  accesses : AllInside size walk.accesses
  stop : ∀ nextHeader last, walk.stop = some (nextHeader, last) → last.Within size

/-- Every extension header takes at least eight bytes from the length, so the loop ends. -/
theorem skipExtensionHeaders_inside (mem : Memory) (hpacket : packet.Within size) {fuel : Nat}
    (hfuel : packet.length / 8 + 2 ≤ fuel) (nextHeader : Int) :
    ∃ walk, skipExtensionHeaders mem fuel nextHeader packet = some walk ∧ walk.Inside size := by
  induction fuel generalizing nextHeader packet with
  | zero => omega
  | succ fuel ih =>
      have hends := hpacket.ends
      by_cases hdone : nextHeader = ipprotoICMPV6 ∨ nextHeader = -1
      · refine ⟨_, skipExtensionHeaders_done hdone, allInside_nil size, ?_⟩
        rintro _ _ ⟨⟩
        exact hpacket
      · rw [skipExtensionHeaders, if_neg hdone]
        by_cases hext : isExtensionHeader nextHeader = true
        · rw [if_pos hext]
          dsimp only
          by_cases hshort : packet.length < 8
          · rw [if_pos hshort]
            refine ⟨_, rfl, allInside_nil size, ?_⟩
            rintro _ _ ⟨⟩
          · rw [if_neg hshort]
            generalize hskipped : ((mem (packet.value + 1)).toNat + 1) * 8 = skipped
            by_cases hlong : packet.length < skipped
            · rw [if_pos hlong]
              refine ⟨_, rfl, ?_, ?_⟩
              · simp only [allInside_cons, Access.inside_touch, allInside_nil, and_true]
                omega
              · rintro _ _ ⟨⟩
            · rw [if_neg hlong]
              have hlength : (packet.skip skipped).length = packet.length - skipped :=
                Cursor.skip_length (by omega) (by have := hpacket.fits; omega)
              have hrest : (packet.skip skipped).Within size := hpacket.skip (by omega)
              obtain ⟨walk, hwalk, hinside⟩ := ih hrest (by rw [hlength]; omega)
                (mem packet.value).toNat
              rw [hwalk]
              refine ⟨_, rfl, ?_, hinside.stop⟩
              simp only [allInside_cons, Access.inside_touch, Access.inside_shrink, hinside.accesses,
                and_true]
              omega
        · rw [if_neg hext]
          obtain ⟨fuel, rfl⟩ : ∃ n, fuel = n + 1 := ⟨fuel - 1, by omega⟩
          refine ⟨_, skipExtensionHeaders_done (.inr rfl), allInside_nil size, ?_⟩
          rintro _ _ ⟨⟩
          exact hpacket

/-- The part of an IPv6 packet behind its header, from accesses that are inside already. -/
theorem processIPv6Payload_inside {h : Handled} (hpacket : packet.Within size) (hsize : 14 ≤ size)
    (hlength : 40 ≤ packet.length) (hinside : AllInside size h.accesses) {fuel : Nat}
    (hfuel : size / 8 + 2 ≤ fuel) :
    ∃ h', processIPv6Payload fuel now packet h = some h' ∧ AllInside size h'.accesses := by
  have hends := hpacket.ends
  have hpayload := hpacket.skip hlength
  have hpayloadEnds := hpayload.ends
  have hbound : (packet.skip 40).length / 8 + 2 ≤ fuel := by omega
  obtain ⟨walk, hwalk, hwalkInside⟩ :=
    skipExtensionHeaders_inside h.byte hpayload hbound (h.byte (packet.value + 6)).toNat
  have hread : AllInside size (h.accesses
      ++ [.shrink packet.length 40, .touch (packet.value + 6) 1] ++ walk.accesses) := by
    simp only [allInside_append, allInside_cons, Access.inside_touch, Access.inside_shrink, hinside,
      hwalkInside.accesses, allInside_nil, and_true, true_and]
    omega
  unfold processIPv6Payload
  dsimp only
  rw [hwalk]
  refine ⟨_, rfl, ?_⟩
  dsimp only
  cases hstop : walk.stop with
  | none => exact hread
  | some stop =>
      have hlast := hwalkInside.stop stop.1 stop.2 hstop
      have hlastEnds := hlast.ends
      dsimp only
      split
      · exact hread
      · split
        · exact hread
        · have htype : AllInside size (h.accesses
              ++ [.shrink packet.length 40, .touch (packet.value + 6) 1] ++ walk.accesses
              ++ [.touch stop.2.value 1]) := by
            rw [allInside_append]
            refine ⟨hread, ?_⟩
            simp only [allInside_cons, Access.inside_touch, allInside_nil, and_true]
            omega
          split
          · exact processNDPPacket_inside hlast hsize htype
          · exact htype

theorem processIPv6Packet_inside (hpacket : packet.Within size) (hsize : 14 ≤ size) {fuel : Nat}
    (hfuel : size / 8 + 2 ≤ fuel) :
    ∃ h, processIPv6Packet fuel cfg now t sourceConnectionID mem packet = some h
      ∧ AllInside size h.accesses := by
  have hends := hpacket.ends
  unfold processIPv6Packet
  dsimp only
  by_cases hlength : packet.length < 40
  · rw [if_pos hlength]
    exact ⟨_, rfl, allInside_nil size⟩
  · rw [if_neg hlength]
    have hread : AllInside size ([.touch (packet.value + 24) 16, .touch (packet.value + 8) 16]
        ++ readSourceMac cfg (in6Addr mem (packet.value + 8))) := by
      simp only [allInside_append, allInside_cons, Access.inside_touch, allInside_nil, and_true,
        readSourceMac_inside cfg hsize]
      omega
    split
    · exact ⟨_, rfl, hread⟩
    · split
      · refine processIPv6Payload_inside hpacket hsize (by omega) ?_ hfuel
        rw [allInside_append]
        refine ⟨hread, ?_⟩
        simp only [allInside_cons, Access.inside_touch, allInside_nil, and_true]
        omega
      · split
        · exact processIPv6Payload_inside hpacket hsize (by omega) hread hfuel
        · split
          · exact ⟨_, rfl, hread⟩
          · refine ⟨_, rfl, ?_⟩
            rw [allInside_append]
            refine ⟨hread, ?_⟩
            simp only [allInside_cons, Access.inside_touch, allInside_nil, and_true]
            omega

theorem processPacket_inside (hpacket : packet.Within size) (hsize : 14 ≤ size) {fuel : Nat}
    (hfuel : size / 8 + 2 ≤ fuel) (type : Nat) :
    ∃ h, processPacket fuel cfg now t sourceConnectionID mem type packet = some h
      ∧ AllInside size h.accesses := by
  unfold processPacket
  split
  · exact ⟨_, rfl, processARPPacket_inside hpacket hsize⟩
  · split
    · exact ⟨_, rfl, processIPv4Packet_inside hpacket hsize⟩
    · split
      · exact processIPv6Packet_inside hpacket hsize hfuel
      · exact ⟨_, rfl, allInside_nil size⟩

/-! ### The loop over the VLAN tags -/

/-- From `start` on there are `count` VLAN tags of four bytes and then another type, all of it inside the
first `size` bytes. -/
def ChainEnds (mem : Memory) (start count size : Nat) : Prop :=
  (∀ i < count, ntohs mem (start + 4 * i) = ethertypeVLAN)
    ∧ ntohs mem (start + 4 * count) ≠ ethertypeVLAN ∧ start + 4 * count + 2 ≤ size

/-- A chain that ends inside is walked, and leaves the pointer where the frame ends. -/
theorem skipVLANHeaders_of_chainEnds {count fuel : Nat} (hpacket : packet.Within size)
    (hvalue : 2 ≤ packet.value) (hchain : ChainEnds mem (packet.value - 2) count size)
    (hfuel : count < fuel) :
    ∃ type last accesses,
      skipVLANHeaders mem fuel (ntohs mem (packet.value - 2)) packet = some (type, last, accesses)
        ∧ last.Within size ∧ AllInside size accesses := by
  induction count generalizing fuel packet with
  | zero =>
      obtain ⟨_, hend, _⟩ := hchain
      obtain ⟨fuel, rfl⟩ : ∃ n, fuel = n + 1 := ⟨fuel - 1, by omega⟩
      rw [skipVLANHeaders, if_neg (by simpa using hend)]
      exact ⟨_, _, _, rfl, hpacket, allInside_nil size⟩
  | succ count ih =>
      obtain ⟨htags, hend, hinside⟩ := hchain
      obtain ⟨fuel, rfl⟩ : ∃ n, fuel = n + 1 := ⟨fuel - 1, by omega⟩
      have hends := hpacket.ends
      have htag : ntohs mem (packet.value - 2) = ethertypeVLAN := by simpa using htags 0 (by omega)
      have hnext : ChainEnds mem ((packet.skip 4).value - 2) count size := by
        have hstart : ∀ i, (packet.skip 4).value - 2 + 4 * i = packet.value - 2 + 4 * (i + 1) :=
          fun i => by rw [Cursor.skip_value]; omega
        refine ⟨fun i hi => ?_, ?_, ?_⟩
        · rw [hstart]
          exact htags (i + 1) (by omega)
        · rw [hstart]
          exact hend
        · rw [hstart]
          exact hinside
      have hskip : (packet.skip 4).Within size := hpacket.skip (by omega)
      have hfuel' : count < fuel := by omega
      obtain ⟨type, last, accesses, hwalk, hlast, haccesses⟩ :=
        ih hskip (by rw [Cursor.skip_value]; omega) hnext hfuel'
      rw [skipVLANHeaders, if_pos htag]
      dsimp only
      rw [hwalk]
      refine ⟨_, _, _, rfl, hlast, ?_⟩
      simp only [allInside_cons, Access.inside_touch, Access.inside_shrink, haccesses, and_true,
        Cursor.skip_value]
      omega

/-- A walk that stays inside is the walk of a chain that ends inside. -/
theorem chainEnds_of_skipVLANHeaders {fuel type : Nat} {last : Cursor} {accesses : List Access}
    (hpacket : packet.Within size) (hvalue : 2 ≤ packet.value)
    (hwalk : skipVLANHeaders mem fuel (ntohs mem (packet.value - 2)) packet
      = some (type, last, accesses))
    (hinside : AllInside size accesses) : ∃ count, ChainEnds mem (packet.value - 2) count size := by
  induction fuel generalizing packet accesses with
  | zero => cases hwalk
  | succ fuel ih =>
      have hends := hpacket.ends
      rw [skipVLANHeaders] at hwalk
      by_cases htag : ntohs mem (packet.value - 2) = ethertypeVLAN
      · rw [if_pos htag] at hwalk
        dsimp only at hwalk
        obtain ⟨⟨type', last', rest⟩, hrest, heq⟩ := Option.map_eq_some_iff.mp hwalk
        simp only [Prod.mk.injEq] at heq
        obtain ⟨rfl, rfl, rfl⟩ := heq
        simp only [allInside_cons, Access.inside_shrink] at hinside
        obtain ⟨hlength, _, hrestInside⟩ := hinside
        have hskip : (packet.skip 4).Within size := hpacket.skip hlength
        obtain ⟨count, htags, hend, hcount⟩ :=
          ih hskip (by rw [Cursor.skip_value]; omega) hrest hrestInside
        have hstart : ∀ i, (packet.skip 4).value - 2 + 4 * i = packet.value - 2 + 4 * (i + 1) :=
          fun i => by rw [Cursor.skip_value]; omega
        rw [hstart] at hend hcount
        refine ⟨count + 1, fun i hi => ?_, hend, hcount⟩
        cases i with
        | zero => simpa using htag
        | succ i =>
            rw [← hstart]
            exact htags i (by omega)
      · exact ⟨0, fun i hi => absurd hi (Nat.not_lt_zero i), by simpa using htag, by omega⟩

/-! ### The whole path -/

/-- The chain of VLAN tags is the same in the received and in the readdressed frame. -/
theorem chainEnds_incoming (cfg : Config) {f : Buffer} {count : Nat} :
    ChainEnds (incoming cfg f) 12 count size ↔ ChainEnds f.byte 12 count size := by
  have hagree : ∀ i, ntohs (incoming cfg f) (12 + 4 * i) = ntohs f.byte (12 + 4 * i) := fun i => by
    unfold ntohs
    rw [incoming_of_le (by omega), incoming_of_le (by omega)]
  unfold ChainEnds
  simp only [hagree]

/-- The pointer behind the Ethernet header. -/
theorem within_ethernet {f : Buffer} (hlong : 14 ≤ f.length) :
    (Cursor.skip ⟨0, f.length⟩ 14).Within f.length := by
  have hstart : Cursor.Within ⟨0, f.length⟩ f.length := ⟨Nat.zero_add _, f.length_lt⟩
  exact hstart.skip hlong

/-- The type in the Ethernet header is not changed by readdressing. -/
theorem ntohs_incoming (cfg : Config) (f : Buffer) :
    ntohs f.byte 12 = ntohs (incoming cfg f) ((Cursor.skip ⟨0, f.length⟩ 14).value - 2) := by
  unfold ntohs
  rw [incoming_of_le (by simp), incoming_of_le (by simp)]
  rfl

theorem chainEnds_of_safelyDecoded {f : Buffer} (hlong : 14 ≤ f.length)
    (hsafe : SafelyDecoded cfg now t sourceConnectionID f) :
    ∃ count, ChainEnds f.byte 12 count f.length := by
  obtain ⟨fuel, h, hdecode, hinside⟩ := hsafe
  rw [decodePacket, if_neg (by omega)] at hdecode
  obtain ⟨⟨type, packet, walked⟩, hwalk, hrest⟩ := Option.bind_eq_some_iff.mp hdecode
  obtain ⟨h', _, rfl⟩ := Option.map_eq_some_iff.mp hrest
  rw [allInside_append, allInside_append] at hinside
  rw [ntohs_incoming cfg] at hwalk
  obtain ⟨count, hchain⟩ :=
    chainEnds_of_skipVLANHeaders (within_ethernet hlong) (by simp) hwalk hinside.1.2
  exact ⟨count, (chainEnds_incoming cfg).mp hchain⟩

theorem safelyDecoded_of_chainEnds {f : Buffer} (hlong : 14 ≤ f.length) {count : Nat}
    (hchain : ChainEnds f.byte 12 count f.length) :
    SafelyDecoded cfg now t sourceConnectionID f := by
  have hfuel : count < count + 1 + (f.length / 8 + 2) := by omega
  obtain ⟨type, last, walked, hwalk, hlast, hwalkInside⟩ := skipVLANHeaders_of_chainEnds
    (within_ethernet hlong) (by simp) ((chainEnds_incoming cfg).mpr hchain) hfuel
  have hfuel' : f.length / 8 + 2 ≤ count + 1 + (f.length / 8 + 2) := by omega
  obtain ⟨h, hprocess, hprocessInside⟩ :
      ∃ h, processPacket (count + 1 + (f.length / 8 + 2)) cfg now t sourceConnectionID
        (incoming cfg f) type last = some h ∧ AllInside f.length h.accesses :=
    processPacket_inside hlast hlong hfuel' type
  have hdecode : decodePacket (count + 1 + (f.length / 8 + 2)) cfg now t sourceConnectionID f
      = some { h with
          events := h.events ++ forward cfg type h (f.rewritten h.byte)
          accesses := openingAccesses cfg f ++ walked ++ h.accesses } := by
    rw [decodePacket, if_neg (by omega)]
    dsimp only
    rw [ntohs_incoming cfg, hwalk, Option.bind_some]
    dsimp only
    rw [hprocess, Option.map_some]
  refine ⟨_, _, hdecode, ?_⟩
  simp only [allInside_append, hwalkInside, hprocessInside, and_true, openingAccesses]
  split <;>
    simp only [allInside_cons, Access.inside_touch, Access.inside_shrink, allInside_nil,
      and_true] <;>
    omega

/-- **Handling a received frame is safe, whatever the mode, the tables, the clock and the sender, exactly
when the frame is too short for an Ethernet header or its chain of VLAN tags ends inside it.** -/
theorem safelyDecoded_iff (cfg : Config) (now : Nat → Int) (t : Tables) (sourceConnectionID : UUID)
    (f : Buffer) :
    SafelyDecoded cfg now t sourceConnectionID f
      ↔ f.length < 14 ∨ ∃ count, ChainEnds f.byte 12 count f.length := by
  by_cases hshort : f.length < 14
  · refine iff_of_true ⟨0, .tooSmall t f.byte, ?_, allInside_nil f.length⟩ (.inl hshort)
    rw [decodePacket, if_pos hshort]
  · have hlong : 14 ≤ f.length := by omega
    constructor
    · exact fun hsafe => .inr (chainEnds_of_safelyDecoded hlong hsafe)
    · rintro (hshort' | ⟨count, hchain⟩)
      · exact absurd hshort' hshort
      · exact safelyDecoded_of_chainEnds hlong hchain

/-- Fourteen bytes that announce a VLAN tag. -/
def truncatedTag : Buffer := .ofList (List.replicate 12 0xAA ++ [0x81, 0x00]) (by decide)

/-- The tag is read behind the end of the frame. -/
theorem truncatedTag_not_safelyDecoded :
    ¬ SafelyDecoded translatingServer (fun _ => 0) .empty (.replicate 3) truncatedTag := by
  intro hsafe
  obtain ⟨count, _, hend, hinside⟩ := chainEnds_of_safelyDecoded (by decide) hsafe
  have hlength : truncatedTag.length = 14 := rfl
  obtain rfl : count = 0 := by omega
  exact hend rfl

end Armore.Proxy
