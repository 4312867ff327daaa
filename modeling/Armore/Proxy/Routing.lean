import Armore.Proxy.Received

/-!
# Accepted frames

What `DecodePacket` decides about a frame it lets through: which bytes the frame leaves with and which
connection it is routed to. Both are read off the IP table as it is once the source of the frame has
been learned. `Accepts` lists the cases, one for each branch of the three protocol functions, and
`decodePacket_accepts` says that there are no others.

A neighbour advertisement stands apart: the table is asked again, for its target, and what is found
there replaces what was found for the destination.
-/

namespace Armore.Proxy

open Tables

/-- What is stored for the addresses once the source of the frame `f` has been learned. -/
def learned (cfg : Config) (t : Tables) (sourceConnectionID : UUID) (f : Buffer) (source : IPAddress)
    (ip : IPAddress) : Option (MacAddress × UUID) :=
  if ip = source ∧ source.isValid cfg.ipv4Netmask = true
      ∧ (t.binding source = none ∨ sourceConnectionID ≠ UUID.empty) then
    some (MacAddress.copyFrom (macAt (incoming cfg f) 6), sourceConnectionID)
  else t.binding ip

theorem binding_learned (cfg : Config) (t : Tables) (sourceConnectionID : UUID) (f : Buffer)
    (source : IPAddress) (now : Int) :
    (updateIPTable cfg t source (macAt (incoming cfg f) 6) sourceConnectionID now).1.binding
      = learned cfg t sourceConnectionID f source :=
  funext fun ip => binding_updateIPTable cfg t source _ sourceConnectionID now ip

/-- `ether_dhost` is overwritten when a hardware address was found. -/
def readdress (mem : Memory) : Option (MacAddress × UUID) → Memory
  | some (mac, _) => storeMac mem 0 mac
  | none => mem

theorem readdress_of_le (mem : Memory) (found : Option (MacAddress × UUID)) {i : Nat} (hi : 6 ≤ i) :
    readdress mem found i = mem i := by
  cases found with
  | none => rfl
  | some pair => exact storeMac_of_outside mem pair.1 (.inr (by omega))

/-! ### Behind the IPv6 header -/

/-- The IPv6 packet at the pointer carries a neighbour advertisement of full size for `target`, behind
any number of extension headers. -/
def Advertises (mem : Memory) (packet : Cursor) (target : IPAddress) : Prop :=
  ∃ fuel accesses last,
    skipExtensionHeaders mem fuel (mem (packet.value + 6)).toNat (packet.skip 40)
      = some ⟨some (ipprotoICMPV6, last), accesses⟩
    ∧ 24 ≤ last.length ∧ mem last.value = ndNeighborAdvert ∧ target = in6Addr mem (last.value + 8)

theorem Advertises.unique {mem : Memory} {packet : Cursor} {target target' : IPAddress}
    (h : Advertises mem packet target) (h' : Advertises mem packet target') : target = target' := by
  obtain ⟨fuel, accesses, last, hwalk, _, _, rfl⟩ := h
  obtain ⟨fuel', accesses', last', hwalk', _, _, rfl⟩ := h'
  have heq := skipExtensionHeaders_unique hwalk hwalk'
  simp only [ExtensionWalk.mk.injEq, Option.some.injEq, Prod.mk.injEq, true_and] at heq
  rw [heq.1]

/-- An advertisement is where the walk over the headers stops. -/
theorem Advertises.stop {mem : Memory} {packet last : Cursor} {target : IPAddress} {fuel : Nat} {nextHeader : Int}
    {accesses : List Access} (h : Advertises mem packet target)
    (hwalk : skipExtensionHeaders mem fuel (mem (packet.value + 6)).toNat (packet.skip 40)
      = some ⟨some (nextHeader, last), accesses⟩) :
    nextHeader = ipprotoICMPV6 ∧ mem last.value = ndNeighborAdvert := by
  obtain ⟨fuel', accesses', last', hwalk', _, hadvert, _⟩ := h
  have heq := skipExtensionHeaders_unique hwalk hwalk'
  simp only [ExtensionWalk.mk.injEq, Option.some.injEq, Prod.mk.injEq] at heq
  exact ⟨heq.1.1, heq.1.2 ▸ hadvert⟩

/-- The loop leaves the pointer behind the place where it started. -/
theorem skipExtensionHeaders_stop {mem : Memory} {fuel : Nat} {nextHeader nextHeader' : Int}
    {packet last : Cursor} {accesses : List Access}
    (hwalk : skipExtensionHeaders mem fuel nextHeader packet
      = some ⟨some (nextHeader', last), accesses⟩) :
    packet.value ≤ last.value ∧ (nextHeader' = ipprotoICMPV6 ∨ nextHeader' = -1) := by
  induction fuel generalizing nextHeader packet accesses with
  | zero => cases hwalk
  | succ fuel ih =>
      rw [skipExtensionHeaders] at hwalk
      split at hwalk
      · rename_i hdone
        simp only [Option.some.injEq, ExtensionWalk.mk.injEq, Prod.mk.injEq] at hwalk
        obtain ⟨⟨rfl, rfl⟩, _⟩ := hwalk
        exact ⟨le_refl _, hdone⟩
      · split at hwalk
        · split at hwalk
          · simp at hwalk
          · dsimp only at hwalk
            split at hwalk
            · simp at hwalk
            · obtain ⟨⟨stop, accesses'⟩, hrest, heq⟩ := Option.map_eq_some_iff.mp hwalk
              simp only [ExtensionWalk.mk.injEq] at heq
              rw [heq.1] at hrest
              obtain ⟨hle, hdone⟩ := ih hrest
              rw [Cursor.skip_value] at hle
              exact ⟨by omega, hdone⟩
        · exact ih hwalk

/-! ### The cases -/

/-- `Accepts cfg stored mem type packet destination byte connectionID`: a frame `mem` whose header of
type `type` is at `packet` is let through with the bytes `byte` and is routed to `connectionID`, when
`stored` says what the table holds once the source has been learned. -/
inductive Accepts (cfg : Config) (stored : IPAddress → Option (MacAddress × UUID)) (mem : Memory)
    (type : Nat) (packet : Cursor) (destination : IPAddress) : Memory → UUID → Prop
  | transparent : cfg.transparentOperation = true →
      Accepts cfg stored mem type packet destination mem (foundConnection (stored destination))
  | arpRequest : cfg.transparentOperation = false → type = ethertypeARP →
      isARPRequest (ntohs mem (packet.value + 6)) = true →
      Accepts cfg stored mem type packet destination
        (storeMac mem (packet.value + 8) cfg.localMACAddress) .empty
  | arpReply {mac : MacAddress} {connectionID : UUID} : cfg.transparentOperation = false →
      type = ethertypeARP → isARPRequest (ntohs mem (packet.value + 6)) = false →
      stored destination = some (mac, connectionID) →
      Accepts cfg stored mem type packet destination
        (storeMac (storeMac (storeMac mem 0 mac) (packet.value + 18) mac) (packet.value + 8)
          cfg.localMACAddress) connectionID
  | ipv4Known {mac : MacAddress} {connectionID : UUID} : cfg.transparentOperation = false →
      type = ethertypeIP → destination.isValid cfg.ipv4Netmask = true →
      stored destination = some (mac, connectionID) →
      Accepts cfg stored mem type packet destination (storeMac mem 0 mac) connectionID
  | ipv4Unknown : cfg.transparentOperation = false → type = ethertypeIP →
      (destination.isValid cfg.ipv4Netmask = true → stored destination = none) →
      Accepts cfg stored mem type packet destination mem .empty
  | ipv6 : cfg.transparentOperation = false → type = ethertypeIPV6 →
      (∀ target, ¬ Advertises mem packet target) →
      Accepts cfg stored mem type packet destination (readdress mem (stored destination))
        (foundConnection (stored destination))
  | advertisement {target : IPAddress} {mac : MacAddress} {connectionID : UUID} :
      cfg.transparentOperation = false → type = ethertypeIPV6 → Advertises mem packet target →
      stored target = some (mac, connectionID) →
      Accepts cfg stored mem type packet destination (storeMac mem 0 mac) connectionID

variable {cfg : Config} {now : Nat → Int} {t : Tables} {sourceConnectionID : UUID} {mem : Memory}
  {packet : Cursor}

/-- The frame is let through only in one of the cases above. -/
def AcceptsOnly (cfg : Config) (stored : IPAddress → Option (MacAddress × UUID)) (mem : Memory)
    (type : Nat) (packet : Cursor) (destination : IPAddress) (h : Handled) : Prop :=
  h.injectPacket = true → h.destinationIP = destination
    ∧ Accepts cfg stored mem type packet destination h.byte h.destinationConnectionID

theorem processARPPacket_accepts :
    AcceptsOnly cfg (updateIPTable cfg t (inAddr mem (packet.value + 14)) (macAt mem 6)
        sourceConnectionID (now 0)).1.binding mem ethertypeARP packet (inAddr mem (packet.value + 24))
      (processARPPacket cfg now t sourceConnectionID mem packet) := by
  unfold processARPPacket
  dsimp only
  by_cases hlength : packet.length < 28
  · rw [if_pos hlength]
    exact fun hinject => nomatch hinject
  · rw [if_neg hlength]
    by_cases htransparent : cfg.transparentOperation = true
    · rw [if_pos htransparent, tryIPTableLookup_result]
      exact fun _ => ⟨rfl, .transparent htransparent⟩
    · rw [if_neg htransparent]
      rw [Bool.not_eq_true] at htransparent
      by_cases hrequest : isARPRequest (ntohs mem (packet.value + 6)) = true
      · rw [if_pos hrequest]
        exact fun _ => ⟨rfl, .arpRequest htransparent rfl hrequest⟩
      · rw [if_neg hrequest, tryIPTableLookup_result]
        rw [Bool.not_eq_true] at hrequest
        split
        · rename_i mac connectionID hfound
          exact fun _ => ⟨rfl, .arpReply htransparent rfl hrequest hfound⟩
        · exact fun hinject => nomatch hinject

theorem processIPv4Packet_accepts :
    AcceptsOnly cfg (updateIPTable cfg t (inAddr mem (packet.value + 12)) (macAt mem 6)
        sourceConnectionID (now 0)).1.binding mem ethertypeIP packet (inAddr mem (packet.value + 16))
      (processIPv4Packet cfg now t sourceConnectionID mem packet) := by
  unfold processIPv4Packet
  dsimp only
  by_cases hlength : packet.length < 20
  · rw [if_pos hlength]
    exact fun hinject => nomatch hinject
  · rw [if_neg hlength]
    by_cases htransparent : cfg.transparentOperation = true
    · rw [if_pos htransparent, tryIPTableLookup_result]
      exact fun _ => ⟨rfl, .transparent htransparent⟩
    · rw [if_neg htransparent]
      rw [Bool.not_eq_true] at htransparent
      by_cases hvalid : (inAddr mem (packet.value + 16)).isValid cfg.ipv4Netmask = true
      · rw [if_pos hvalid, tryIPTableLookup_result]
        split
        · rename_i mac connectionID hfound
          exact fun _ => ⟨rfl, .ipv4Known htransparent rfl hvalid hfound⟩
        · rename_i hnone
          split
          · exact fun _ => ⟨rfl, .ipv4Unknown htransparent rfl fun _ => hnone⟩
          · split <;> exact fun hinject => nomatch hinject
      · rw [if_neg hvalid]
        exact fun _ => ⟨rfl, .ipv4Unknown htransparent rfl fun h => absurd h hvalid⟩

/-- An advertisement is let through when its target is found. -/
theorem processNDPPacket_accepts {stored : IPAddress → Option (MacAddress × UUID)} {h : Handled} {destination : IPAddress}
    {last : Cursor} (htransparent : cfg.transparentOperation = false) (hbinding : ∀ ip, h.tables.binding ip = stored ip)
    (hdestinationIP : h.destinationIP = destination) (hbyte : h.byte = readdress mem (stored destination))
    (hstart : 6 ≤ last.value) (hadvertises : 24 ≤ last.length → Advertises mem packet (in6Addr mem (last.value + 8))) :
    AcceptsOnly cfg stored mem ethertypeIPV6 packet destination (processNDPPacket now last h) := by
  unfold processNDPPacket
  dsimp only
  by_cases hsize : last.length < 24
  · rw [if_pos hsize]
    exact fun hinject => nomatch hinject
  · have htarget : in6Addr h.byte (last.value + 8) = in6Addr mem (last.value + 8) := by
      unfold in6Addr
      congr 1
      funext i
      rw [hbyte, readdress_of_le mem _ (by omega)]
    rw [if_neg hsize, tryIPTableLookup_result, hbinding, htarget]
    split
    · exact fun hinject => nomatch hinject
    · rename_i mac connectionID hfound
      refine fun _ => ⟨hdestinationIP, ?_⟩
      have hstored : storeMac h.byte 0 mac = storeMac mem 0 mac := by
        rw [hbyte]
        cases stored destination with
        | none => rfl
        | some pair => exact storeMac_storeMac mem 0 pair.1 mac
      dsimp only
      rw [hstored]
      exact .advertisement htransparent rfl (hadvertises (by omega)) hfound

/-- The part behind the destination lookup, from what the lookup found. -/
theorem processIPv6Payload_accepts {fuel : Nat} {stored : IPAddress → Option (MacAddress × UUID)}
    {h h' : Handled} {destination : IPAddress} (htransparent : cfg.transparentOperation = false)
    (hstart : 6 ≤ packet.value) (hbinding : ∀ ip, h.tables.binding ip = stored ip)
    (hdestinationIP : h.destinationIP = destination)
    (hbyte : h.byte = readdress mem (stored destination))
    (hconnection : h.destinationConnectionID = foundConnection (stored destination))
    (hpayload : processIPv6Payload fuel now packet h = some h') :
    AcceptsOnly cfg stored mem ethertypeIPV6 packet destination h' := by
  have hagree : ∀ i, 6 ≤ i → h.byte i = mem i := fun i hi => by
    rw [hbyte, readdress_of_le mem _ hi]
  obtain ⟨⟨stop, accesses⟩, hwalk, rfl⟩ := Option.map_eq_some_iff.mp hpayload
  have hpointer : 6 ≤ (packet.skip 40).value := by
    rw [Cursor.skip_value]
    omega
  rw [hagree _ (by omega), skipExtensionHeaders_congr hagree _ _ _ hpointer] at hwalk
  -- an accepted packet that is no advertisement keeps what the lookup of its destination gave
  have hkept : ∀ {accesses' : List Access}, (∀ target, ¬ Advertises mem packet target) →
      AcceptsOnly cfg stored mem ethertypeIPV6 packet destination
        { h with accesses := accesses', injectPacket := true } := fun hnone _ =>
    ⟨hdestinationIP, by
      dsimp only
      rw [hbyte, hconnection]
      exact .ipv6 htransparent rfl hnone⟩
  cases stop with
  | none => exact fun hinject => nomatch hinject
  | some stop =>
      obtain ⟨nextHeader, last⟩ := stop
      obtain ⟨hle, hstop⟩ := skipExtensionHeaders_stop hwalk
      rw [Cursor.skip_value] at hle
      dsimp only
      by_cases hdone : nextHeader = -1
      · rw [if_pos hdone]
        refine hkept fun target hadvertises => ?_
        rw [(hadvertises.stop hwalk).1] at hdone
        exact absurd hdone (by decide)
      · rw [if_neg hdone]
        obtain rfl : nextHeader = ipprotoICMPV6 := hstop.resolve_right hdone
        by_cases hshort : last.length < 8
        · rw [if_pos hshort]
          exact fun hinject => nomatch hinject
        · rw [if_neg hshort, hagree _ (by omega)]
          by_cases hadvert : mem last.value = ndNeighborAdvert
          · rw [if_pos hadvert]
            exact processNDPPacket_accepts htransparent hbinding hdestinationIP hbyte (by omega)
              fun hsize => ⟨fuel, accesses, last, hwalk, hsize, hadvert, rfl⟩
          · rw [if_neg hadvert]
            exact hkept fun target hadvertises => hadvert (hadvertises.stop hwalk).2

theorem processIPv6Packet_accepts {fuel : Nat} {h : Handled} (hstart : 6 ≤ packet.value)
    (hprocess : processIPv6Packet fuel cfg now t sourceConnectionID mem packet = some h) :
    AcceptsOnly cfg (updateIPTable cfg t (in6Addr mem (packet.value + 8)) (macAt mem 6)
      sourceConnectionID (now 0)).1.binding mem ethertypeIPV6 packet (in6Addr mem (packet.value + 24)) h := by
  unfold processIPv6Packet at hprocess
  dsimp only at hprocess
  by_cases hlength : packet.length < 40
  · rw [if_pos hlength, Option.some.injEq] at hprocess
    subst hprocess
    exact fun hinject => nomatch hinject
  · rw [if_neg hlength] at hprocess
    by_cases htransparent : cfg.transparentOperation = true
    · rw [if_pos htransparent, tryIPTableLookup_result, Option.some.injEq] at hprocess
      subst hprocess
      exact fun _ => ⟨rfl, .transparent htransparent⟩
    · rw [if_neg htransparent, tryIPTableLookup_result] at hprocess
      rw [Bool.not_eq_true] at htransparent
      split at hprocess
      · rename_i mac connectionID hfound
        refine processIPv6Payload_accepts htransparent hstart (fun _ => ?_) rfl ?_ rfl hprocess
        · exact binding_tryIPTableLookup ..
        · rw [hfound]
          rfl
      · rename_i hnone
        split at hprocess
        · refine processIPv6Payload_accepts htransparent hstart (fun _ => ?_) rfl ?_ rfl hprocess
          · exact binding_tryIPTableLookup ..
          · rw [hnone]
            rfl
        · split at hprocess <;>
          · rw [Option.some.injEq] at hprocess
            subst hprocess
            exact fun hinject => nomatch hinject

theorem skipVLANHeaders_value_le {fuel type type' : Nat} {packet' : Cursor} {accesses : List Access}
    (hwalk : skipVLANHeaders mem fuel type packet = some (type', packet', accesses)) :
    packet.value ≤ packet'.value := by
  induction fuel generalizing type packet accesses with
  | zero => cases hwalk
  | succ fuel ih =>
      rw [skipVLANHeaders] at hwalk
      split at hwalk
      · dsimp only at hwalk
        obtain ⟨⟨type₁, last, accesses₁⟩, hrest, heq⟩ := Option.map_eq_some_iff.mp hwalk
        simp only [Prod.mk.injEq] at heq
        obtain ⟨rfl, rfl, _⟩ := heq
        have hle := ih hrest
        rw [Cursor.skip_value] at hle
        omega
      · simp only [Option.some.injEq, Prod.mk.injEq] at hwalk
        rw [hwalk.2.1]

/-- The network header lies behind the Ethernet header. -/
theorem ReachesType.le_value {f : Buffer} {type : Nat} {packet : Cursor}
    (h : ReachesType cfg f type packet) : 14 ≤ packet.value := by
  obtain ⟨_, fuel, accesses, hwalk⟩ := h
  simpa using skipVLANHeaders_value_le hwalk

theorem processPacket_accepts {fuel type : Nat} {source destination : IPAddress} {h : Handled}
    (hstart : 6 ≤ packet.value) (hsource : sourceAddress mem type packet.value = some source)
    (hdestination : destinationAddress mem type packet.value = some destination)
    (hprocess : processPacket fuel cfg now t sourceConnectionID mem type packet = some h) :
    AcceptsOnly cfg (updateIPTable cfg t source (macAt mem 6) sourceConnectionID (now 0)).1.binding mem
      type packet destination h := by
  unfold processPacket at hprocess
  unfold sourceAddress at hsource
  unfold destinationAddress at hdestination
  by_cases hARP : type = ethertypeARP
  · subst hARP
    simp only [if_true, Option.some.injEq] at hprocess hsource hdestination
    subst hprocess hsource hdestination
    exact processARPPacket_accepts
  · simp only [if_neg hARP] at hprocess hsource hdestination
    by_cases hIP : type = ethertypeIP
    · subst hIP
      simp only [if_true, Option.some.injEq] at hprocess hsource hdestination
      subst hprocess hsource hdestination
      exact processIPv4Packet_accepts
    · simp only [if_neg hIP] at hprocess hsource hdestination
      by_cases hIPV6 : type = ethertypeIPV6
      · subst hIPV6
        simp only [if_true, Option.some.injEq] at hprocess hsource hdestination
        subst hsource hdestination
        exact processIPv6Packet_accepts hstart hprocess
      · rw [if_neg hIPV6] at hsource
        cases hsource

/-- What is done with a frame in the end is decided by `forward` alone. -/
theorem decodePacket_forward {fuel : Nat} {f : Buffer} {h : Handled}
    (hdecode : decodePacket fuel cfg now t sourceConnectionID f = some h) :
    ∃ type quiet, h.events = quiet ++ forward cfg type h (f.rewritten h.byte)
      ∧ ∀ event ∈ quiet, event.isDelivery = false := by
  unfold decodePacket at hdecode
  by_cases hlength : f.length < 14
  · rw [if_pos hlength, Option.some.injEq] at hdecode
    subst hdecode
    exact ⟨0, [], rfl, nofun⟩
  · rw [if_neg hlength] at hdecode
    obtain ⟨⟨type, packet, walked⟩, _, hrest⟩ := Option.bind_eq_some_iff.mp hdecode
    obtain ⟨h', hprocess, rfl⟩ := Option.map_eq_some_iff.mp hrest
    refine ⟨type, h'.events, rfl, ?_⟩
    rcases processPacket_cases hprocess with ⟨rfl, _⟩ | ⟨_, _, _, _, _, hprocesses⟩
    · exact nofun
    · exact fun _ => hprocesses.quiet

/-- **Every accepted frame is one of the cases of `Accepts`, and what is then done with it is decided by
`forward` alone.** -/
theorem decodePacket_accepts {fuel : Nat} {f : Buffer} {h : Handled}
    (hdecode : decodePacket fuel cfg now t sourceConnectionID f = some h)
    (hinject : h.injectPacket = true) :
    ∃ type packet source destination, ReachesType cfg f type packet
      ∧ headerSize type ≤ packet.length
      ∧ sourceAddress (incoming cfg f) type packet.value = some source
      ∧ destinationAddress (incoming cfg f) type packet.value = some destination
      ∧ h.destinationIP = destination
      ∧ Accepts cfg (learned cfg t sourceConnectionID f source) (incoming cfg f) type packet
          destination h.byte h.destinationConnectionID
      ∧ ∃ quiet, h.events = quiet ++ forward cfg type h (f.rewritten h.byte)
        ∧ ∀ event ∈ quiet, event.isDelivery = false := by
  unfold decodePacket at hdecode
  by_cases hlength : f.length < 14
  · rw [if_pos hlength, Option.some.injEq] at hdecode
    subst hdecode
    cases hinject
  · rw [if_neg hlength] at hdecode
    obtain ⟨⟨type, packet, walked⟩, hwalk, hrest⟩ := Option.bind_eq_some_iff.mp hdecode
    obtain ⟨h', hprocess, rfl⟩ := Option.map_eq_some_iff.mp hrest
    have hreach : ReachesType cfg f type packet := ⟨by omega, fuel, walked, hwalk⟩
    have hvalue := hreach.le_value
    rcases processPacket_cases hprocess with
      ⟨rfl, _⟩ | ⟨source, destination, hsize, hsource, hdestination, hprocesses⟩
    · cases hinject
    · obtain ⟨hdestinationIP, haccepts⟩ :=
        processPacket_accepts (by omega) hsource hdestination hprocess hinject
      rw [binding_learned] at haccepts
      exact ⟨type, packet, source, destination, hreach, hsize, hsource, hdestination,
        hdestinationIP, haccepts, h'.events, rfl, fun _ => hprocesses.quiet⟩

end Armore.Proxy
