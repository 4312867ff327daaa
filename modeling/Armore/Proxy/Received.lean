import Armore.Proxy.Decode

/-!
# What a received frame does to the tables

The decode path has many branches but only a few ways to touch the two tables: it learns the source
address of the frame, it renews access times, and it may add one pending request, for the destination.
`decodePacket_cases` says so, and says which events go with it. The invariants of the packet processor
are derived from this lemma and not from the code.

The two loops return the same result for every bound on which they return one.
-/

namespace Armore.Proxy

open Tables

/-! ### The bound on the loops -/

theorem skipVLANHeaders_mono {mem : Memory} {fuel fuel' type : Nat} {packet : Cursor}
    {walk : Nat × Cursor × List Access} (hle : fuel ≤ fuel')
    (hwalk : skipVLANHeaders mem fuel type packet = some walk) :
    skipVLANHeaders mem fuel' type packet = some walk := by
  induction fuel generalizing fuel' type packet walk with
  | zero => cases hwalk
  | succ fuel ih =>
      obtain ⟨fuel', rfl⟩ : ∃ n, fuel' = n + 1 := ⟨fuel' - 1, by omega⟩
      have hle' : fuel ≤ fuel' := by omega
      rw [skipVLANHeaders] at hwalk ⊢
      by_cases htype : type = ethertypeVLAN
      · rw [if_pos htype] at hwalk ⊢
        dsimp only at hwalk ⊢
        obtain ⟨walk', hwalk', rfl⟩ := Option.map_eq_some_iff.mp hwalk
        rw [ih hle' hwalk']
        rfl
      · rwa [if_neg htype] at hwalk ⊢

theorem skipVLANHeaders_unique {mem : Memory} {fuel fuel' type : Nat} {packet : Cursor}
    {walk walk' : Nat × Cursor × List Access}
    (hwalk : skipVLANHeaders mem fuel type packet = some walk)
    (hwalk' : skipVLANHeaders mem fuel' type packet = some walk') : walk = walk' := by
  have hmax := skipVLANHeaders_mono (Nat.le_max_left fuel fuel') hwalk
  rw [skipVLANHeaders_mono (Nat.le_max_right fuel fuel') hwalk', Option.some.injEq] at hmax
  exact hmax.symm

theorem skipExtensionHeaders_mono {mem : Memory} {fuel fuel' : Nat} {nextHeader : Int}
    {packet : Cursor} {walk : ExtensionWalk} (hle : fuel ≤ fuel')
    (hwalk : skipExtensionHeaders mem fuel nextHeader packet = some walk) :
    skipExtensionHeaders mem fuel' nextHeader packet = some walk := by
  induction fuel generalizing fuel' nextHeader packet walk with
  | zero => cases hwalk
  | succ fuel ih =>
      obtain ⟨fuel', rfl⟩ : ∃ n, fuel' = n + 1 := ⟨fuel' - 1, by omega⟩
      have hle' : fuel ≤ fuel' := by omega
      rw [skipExtensionHeaders] at hwalk ⊢
      by_cases hdone : nextHeader = ipprotoICMPV6 ∨ nextHeader = -1
      · rwa [if_pos hdone] at hwalk ⊢
      · rw [if_neg hdone] at hwalk ⊢
        by_cases hext : isExtensionHeader nextHeader = true
        · rw [if_pos hext] at hwalk ⊢
          by_cases hshort : packet.length < 8
          · rwa [if_pos hshort] at hwalk ⊢
          · rw [if_neg hshort] at hwalk ⊢
            dsimp only at hwalk ⊢
            by_cases hsize : packet.length < ((mem (packet.value + 1)).toNat + 1) * 8
            · rwa [if_pos hsize] at hwalk ⊢
            · rw [if_neg hsize] at hwalk ⊢
              obtain ⟨walk', hwalk', rfl⟩ := Option.map_eq_some_iff.mp hwalk
              rw [ih hle' hwalk']
              rfl
        · rw [if_neg hext] at hwalk ⊢
          exact ih hle' hwalk

theorem skipExtensionHeaders_unique {mem : Memory} {fuel fuel' : Nat} {nextHeader : Int}
    {packet : Cursor} {walk walk' : ExtensionWalk}
    (hwalk : skipExtensionHeaders mem fuel nextHeader packet = some walk)
    (hwalk' : skipExtensionHeaders mem fuel' nextHeader packet = some walk') : walk = walk' := by
  have hmax := skipExtensionHeaders_mono (Nat.le_max_left fuel fuel') hwalk
  rw [skipExtensionHeaders_mono (Nat.le_max_right fuel fuel') hwalk', Option.some.injEq] at hmax
  exact hmax.symm

/-- The loop over the extension headers looks only at what lies behind the pointer. -/
theorem skipExtensionHeaders_congr {mem mem' : Memory} {start : Nat}
    (hagree : ∀ i, start ≤ i → mem' i = mem i) (fuel : Nat) (nextHeader : Int) (packet : Cursor)
    (hpacket : start ≤ packet.value) :
    skipExtensionHeaders mem' fuel nextHeader packet
      = skipExtensionHeaders mem fuel nextHeader packet := by
  induction fuel generalizing nextHeader packet with
  | zero => rfl
  | succ fuel ih =>
      have hskip : ∀ n, start ≤ (packet.skip n).value := fun n => by
        rw [Cursor.skip_value]
        omega
      simp only [skipExtensionHeaders, hagree _ hpacket, hagree (packet.value + 1) (by omega),
        ih _ _ hpacket, ih _ _ (hskip _)]

/-! ### The frame as the protocol functions see it -/

theorem incoming_of_le {f : Buffer} {i : Nat} (hi : 12 ≤ i) : incoming cfg f i = f.byte i := by
  unfold incoming
  split
  · rfl
  · exact storeMac_of_outside _ _ (.inr (by omega))

/-- The loop over the VLAN tags of `f` ends, with this type and this packet pointer. -/
def ReachesType (cfg : Config) (f : Buffer) (type : Nat) (packet : Cursor) : Prop :=
  14 ≤ f.length ∧ ∃ fuel accesses,
    skipVLANHeaders (incoming cfg f) fuel (ntohs f.byte 12) (Cursor.skip ⟨0, f.length⟩ 14)
      = some (type, packet, accesses)

theorem ReachesType.unique {cfg : Config} {f : Buffer} {type type' : Nat} {packet packet' : Cursor}
    (h : ReachesType cfg f type packet) (h' : ReachesType cfg f type' packet') :
    type = type' ∧ packet = packet' := by
  obtain ⟨_, fuel, accesses, hwalk⟩ := h
  obtain ⟨_, fuel', accesses', hwalk'⟩ := h'
  have heq := skipVLANHeaders_unique hwalk hwalk'
  simp only [Prod.mk.injEq] at heq
  exact ⟨heq.1, heq.2.1⟩

/-- `f` holds a network header of full size with these source and destination addresses. -/
def ReceivedAddresses (cfg : Config) (f : Buffer) (source destination : IPAddress) : Prop :=
  ∃ type packet, ReachesType cfg f type packet ∧ headerSize type ≤ packet.length
    ∧ sourceAddress (incoming cfg f) type packet.value = some source
    ∧ destinationAddress (incoming cfg f) type packet.value = some destination

theorem ReceivedAddresses.unique {cfg : Config} {f : Buffer}
    {source destination source' destination' : IPAddress}
    (h : ReceivedAddresses cfg f source destination)
    (h' : ReceivedAddresses cfg f source' destination') :
    source = source' ∧ destination = destination' := by
  obtain ⟨type, packet, hreach, _, hsource, hdestination⟩ := h
  obtain ⟨type', packet', hreach', _, hsource', hdestination'⟩ := h'
  obtain ⟨rfl, rfl⟩ := hreach.unique hreach'
  rw [hsource, Option.some.injEq] at hsource'
  rw [hdestination, Option.some.injEq] at hdestination'
  exact ⟨hsource', hdestination'⟩

/-! ### One frame -/

/-- Two tables that differ in access times only. -/
structure SameEntries (t t' : Tables) : Prop where
  binding : ∀ ip, t'.binding ip = t.binding ip
  pending : ∀ ip, t'.pendingIPMacRequestExists ip = t.pendingIPMacRequestExists ip

theorem SameEntries.refl (t : Tables) : SameEntries t t := ⟨fun _ => rfl, fun _ => rfl⟩

theorem SameEntries.trans {t t' t'' : Tables} (h : SameEntries t t') (h' : SameEntries t' t'') :
    SameEntries t t'' :=
  ⟨fun ip => (h'.binding ip).trans (h.binding ip), fun ip => (h'.pending ip).trans (h.pending ip)⟩

theorem SameEntries.lookup (t : Tables) (ip : IPAddress) (now : Int) :
    SameEntries t (tryIPTableLookup t ip now).1 :=
  ⟨fun _ => by simp, fun _ => by simp⟩

/-- What can happen to a frame once its source has been learned, with the tables before and after and
the events it causes. -/
inductive Outcome (u : Tables) (destination : IPAddress) : Tables → List Event → Prop
  | passed {t' : Tables} : SameEntries u t' → Outcome u destination t' []
  | discarded {t' : Tables} (target : IPAddress) :
      SameEntries u t' → Outcome u destination t' [.discarded target]
  | dropped {t' : Tables} : SameEntries u t' → u.pendingIPMacRequestExists destination = true →
      Outcome u destination t' [.dropped destination]
  | requested {t' : Tables} (packet : Buffer) : u.binding destination = none →
      u.pendingIPMacRequestExists destination = false → (∀ ip, t'.binding ip = u.binding ip) →
      (∀ ip, t'.pendingIPMacRequestExists ip
        = (decide (ip = destination) || u.pendingIPMacRequestExists ip)) →
      Outcome u destination t' [.requested destination packet, .dropped destination]

/-- A protocol function has learned `source` and then done one of the things in `Outcome`. -/
def Processes (cfg : Config) (now : Nat → Int) (t : Tables) (sourceConnectionID : UUID) (mem : Memory)
    (source destination : IPAddress) (h : Handled) : Prop :=
  let updated := updateIPTable cfg t source (macAt mem 6) sourceConnectionID (now 0)
  ∃ rest, h.events = updated.2 ++ rest ∧ Outcome updated.1 destination h.tables rest

variable {cfg : Config} {now : Nat → Int} {t : Tables} {sourceConnectionID : UUID} {mem : Memory}
  {packet : Cursor}

/-- The request branch that IPv4 and IPv6 share. -/
theorem Outcome.of_request {u : Tables} {destination : IPAddress} (time₁ time₂ : Int) (request : Buffer)
    (hlookup : (tryIPTableLookup u destination time₁).2 = none)
    (hpending : ¬ (tryIPTableLookup u destination time₁).1.pendingIPMacRequestExists destination
      = true) :
    Outcome u destination ((tryIPTableLookup u destination time₁).1.addPending destination time₂)
      [.requested destination request, .dropped destination] := by
  refine .requested request ?_ ?_ (fun ip => ?_) fun ip => ?_
  · rwa [tryIPTableLookup_result] at hlookup
  · rwa [pendingIPMacRequestExists_tryIPTableLookup, Bool.not_eq_true] at hpending
  · rw [binding_addPending, binding_tryIPTableLookup]
  · rw [pendingIPMacRequestExists_addPending, pendingIPMacRequestExists_tryIPTableLookup]

theorem processARPPacket_processes (hlength : 28 ≤ packet.length) :
    Processes cfg now t sourceConnectionID mem (inAddr mem (packet.value + 14))
      (inAddr mem (packet.value + 24))
      (processARPPacket cfg now t sourceConnectionID mem packet) := by
  unfold processARPPacket
  rw [if_neg (by omega)]
  dsimp only
  split
  · exact ⟨[], (List.append_nil _).symm, .passed (.lookup _ _ _)⟩
  · split
    · exact ⟨[], (List.append_nil _).symm, .passed (.refl _)⟩
    · split
      · exact ⟨[], (List.append_nil _).symm, .passed (.lookup _ _ _)⟩
      · exact ⟨_, rfl, .discarded _ (.lookup _ _ _)⟩

theorem processIPv4Packet_processes (hlength : 20 ≤ packet.length) :
    Processes cfg now t sourceConnectionID mem (inAddr mem (packet.value + 12))
      (inAddr mem (packet.value + 16))
      (processIPv4Packet cfg now t sourceConnectionID mem packet) := by
  unfold processIPv4Packet
  rw [if_neg (by omega)]
  dsimp only
  split
  · exact ⟨[], (List.append_nil _).symm, .passed (.lookup _ _ _)⟩
  · split
    · split
      · exact ⟨[], (List.append_nil _).symm, .passed (.lookup _ _ _)⟩
      · rename_i hlookup
        split
        · exact ⟨[], (List.append_nil _).symm, .passed (.lookup _ _ _)⟩
        · split
          · rename_i hpending
            rw [pendingIPMacRequestExists_tryIPTableLookup] at hpending
            exact ⟨_, rfl, .dropped (.lookup _ _ _) hpending⟩
          · rename_i hpending
            exact ⟨_, rfl, .of_request _ _ _ hlookup hpending⟩
    · exact ⟨[], (List.append_nil _).symm, .passed (.refl _)⟩

/-- `h'` is what became of `h` behind the lookup of an IPv6 destination. -/
def FollowsUp (h' h : Handled) : Prop :=
  SameEntries h.tables h'.tables
    ∧ (h'.events = h.events ∨ ∃ target, h'.events = h.events ++ [.discarded target])

theorem processNDPPacket_followsUp (now : Nat → Int) (packet : Cursor) (h : Handled) :
    FollowsUp (processNDPPacket now packet h) h := by
  unfold processNDPPacket
  dsimp only
  split
  · exact ⟨.refl _, .inl rfl⟩
  · split
    · exact ⟨.lookup _ _ _, .inr ⟨_, rfl⟩⟩
    · exact ⟨.lookup _ _ _, .inl rfl⟩

theorem processIPv6Payload_followsUp {fuel : Nat} {h h' : Handled}
    (hpayload : processIPv6Payload fuel now packet h = some h') : FollowsUp h' h := by
  obtain ⟨walk, _, rfl⟩ := Option.map_eq_some_iff.mp hpayload
  cases walk.stop with
  | none => exact ⟨.refl _, .inl rfl⟩
  | some stop =>
      dsimp only
      split
      · exact ⟨.refl _, .inl rfl⟩
      · split
        · exact ⟨.refl _, .inl rfl⟩
        · split
          · exact processNDPPacket_followsUp now stop.2
              { h with
                accesses := h.accesses ++ [.shrink packet.length 40, .touch (packet.value + 6) 1]
                  ++ walk.accesses ++ [.touch stop.2.value 1] }
          · exact ⟨.refl _, .inl rfl⟩

theorem processIPv6Packet_processes {fuel : Nat} {h : Handled} (hlength : 40 ≤ packet.length)
    (hprocess : processIPv6Packet fuel cfg now t sourceConnectionID mem packet = some h) :
    Processes cfg now t sourceConnectionID mem (in6Addr mem (packet.value + 8))
      (in6Addr mem (packet.value + 24)) h := by
  have hpassed : ∀ {byte accesses},
      processIPv6Payload fuel now packet
        { tables := (tryIPTableLookup (updateIPTable cfg t (in6Addr mem (packet.value + 8))
            (macAt mem 6) sourceConnectionID (now 0)).1 (in6Addr mem (packet.value + 24)) (now 1)).1
          byte
          destinationConnectionID := foundConnection (tryIPTableLookup (updateIPTable cfg t
            (in6Addr mem (packet.value + 8)) (macAt mem 6) sourceConnectionID (now 0)).1
            (in6Addr mem (packet.value + 24)) (now 1)).2
          destinationIP := in6Addr mem (packet.value + 24)
          injectPacket := true
          events := (updateIPTable cfg t (in6Addr mem (packet.value + 8)) (macAt mem 6)
            sourceConnectionID (now 0)).2
          accesses } = some h →
      Processes cfg now t sourceConnectionID mem (in6Addr mem (packet.value + 8))
        (in6Addr mem (packet.value + 24)) h := by
    intro byte accesses hpayload
    obtain ⟨hsame, hevents | ⟨target, hevents⟩⟩ := processIPv6Payload_followsUp hpayload
    · exact ⟨[], by rw [hevents, List.append_nil], .passed ((SameEntries.lookup _ _ _).trans hsame)⟩
    · exact ⟨_, hevents, .discarded target ((SameEntries.lookup _ _ _).trans hsame)⟩
  unfold processIPv6Packet at hprocess
  rw [if_neg (by omega)] at hprocess
  dsimp only at hprocess
  split at hprocess
  · cases hprocess
    exact ⟨[], (List.append_nil _).symm, .passed (.lookup _ _ _)⟩
  · split at hprocess
    · exact hpassed hprocess
    · rename_i hlookup
      split at hprocess
      · exact hpassed hprocess
      · split at hprocess
        · rename_i hpending
          rw [pendingIPMacRequestExists_tryIPTableLookup] at hpending
          cases hprocess
          exact ⟨_, rfl, .dropped (.lookup _ _ _) hpending⟩
        · rename_i hpending
          cases hprocess
          exact ⟨_, rfl, .of_request _ _ _ hlookup hpending⟩

/-- The switch over the type: an unknown type or a short header leaves everything as it is. -/
theorem processPacket_cases {fuel type : Nat} {h : Handled}
    (hprocess : processPacket fuel cfg now t sourceConnectionID mem type packet = some h) :
    (h = .tooSmall t mem
        ∧ (headerSize type ≤ packet.length → sourceAddress mem type packet.value = none))
      ∨ ∃ source destination, headerSize type ≤ packet.length
        ∧ sourceAddress mem type packet.value = some source
        ∧ destinationAddress mem type packet.value = some destination
        ∧ Processes cfg now t sourceConnectionID mem source destination h := by
  unfold processPacket at hprocess
  unfold headerSize sourceAddress destinationAddress
  by_cases hARP : type = ethertypeARP
  · simp only [if_pos hARP] at hprocess ⊢
    by_cases hlength : packet.length < 28
    · left
      rw [processARPPacket, if_pos hlength, Option.some.injEq] at hprocess
      exact ⟨hprocess.symm, fun _ => by omega⟩
    · have hlength : 28 ≤ packet.length := by omega
      rw [Option.some.injEq] at hprocess
      subst hprocess
      exact .inr ⟨_, _, hlength, rfl, rfl, processARPPacket_processes hlength⟩
  · simp only [if_neg hARP] at hprocess ⊢
    by_cases hIP : type = ethertypeIP
    · simp only [if_pos hIP] at hprocess ⊢
      by_cases hlength : packet.length < 20
      · left
        rw [processIPv4Packet, if_pos hlength, Option.some.injEq] at hprocess
        exact ⟨hprocess.symm, fun _ => by omega⟩
      · have hlength : 20 ≤ packet.length := by omega
        rw [Option.some.injEq] at hprocess
        subst hprocess
        exact .inr ⟨_, _, hlength, rfl, rfl, processIPv4Packet_processes hlength⟩
    · simp only [if_neg hIP] at hprocess ⊢
      by_cases hIPV6 : type = ethertypeIPV6
      · simp only [if_pos hIPV6] at hprocess ⊢
        by_cases hlength : packet.length < 40
        · left
          rw [processIPv6Packet, if_pos hlength, Option.some.injEq] at hprocess
          exact ⟨hprocess.symm, fun _ => by omega⟩
        · have hlength : 40 ≤ packet.length := by omega
          exact .inr ⟨_, _, hlength, rfl, rfl, processIPv6Packet_processes hlength hprocess⟩
      · simp only [if_neg hIPV6, Option.some.injEq] at hprocess ⊢
        exact .inl ⟨hprocess.symm, fun _ => trivial⟩

/-- The events that hand a frame on. -/
def Event.isDelivery : Event → Bool
  | .injected _ | .sentToAll _ | .sentTo _ _ => true
  | .settled _ | .requested _ _ | .dropped _ | .discarded _ => false

/-- Learning a source and handling the frame cause no delivery. -/
theorem Processes.quiet {source destination : IPAddress} {h : Handled}
    (hprocess : Processes cfg now t sourceConnectionID mem source destination h) {event : Event}
    (hevent : event ∈ h.events) : event.isDelivery = false := by
  obtain ⟨rest, hevents, houtcome⟩ := hprocess
  rw [hevents, updateIPTable_events, List.mem_append] at hevent
  rcases hevent with hlearn | hrest
  · split at hlearn
    · rw [List.mem_singleton] at hlearn
      subst hlearn; rfl
    · cases hlearn
  · cases houtcome with
    | passed _ => cases hrest
    | discarded target _ =>
        rw [List.mem_singleton] at hrest
        subst hrest; rfl
    | dropped _ _ =>
        rw [List.mem_singleton] at hrest
        subst hrest; rfl
    | requested packet _ _ _ _ =>
        simp only [List.mem_cons, List.not_mem_nil, or_false] at hrest
        rcases hrest with rfl | rfl <;> rfl

/-- A frame is handed on as it is, in one of three ways. -/
theorem mem_forward {type : Nat} {h : Handled} {sourcePacket : Buffer} {event : Event}
    (hevent : event ∈ forward cfg type h sourcePacket) :
    event = .injected sourcePacket ∨ event = .sentToAll sourcePacket
      ∨ event = .sentTo h.destinationConnectionID sourcePacket := by
  unfold forward at hevent
  split_ifs at hevent <;>
    simp only [List.mem_append, List.mem_cons, List.not_mem_nil, or_false, false_or] at hevent <;>
    tauto

theorem forward_isDelivery {type : Nat} {h : Handled} {sourcePacket : Buffer} {event : Event}
    (hevent : event ∈ forward cfg type h sourcePacket) : event.isDelivery = true := by
  rcases mem_forward hevent with rfl | rfl | rfl <;> rfl

/-- **A received frame leaves everything as it is, or its source is learned and one of the things in
`Outcome` happens to it.** -/
theorem decodePacket_cases {fuel : Nat} {f : Buffer} {h : Handled}
    (hdecode : decodePacket fuel cfg now t sourceConnectionID f = some h) :
    ((∀ source destination, ¬ ReceivedAddresses cfg f source destination)
        ∧ h.tables = t ∧ h.events = [])
      ∨ ∃ source destination rest delivery, ReceivedAddresses cfg f source destination
        ∧ (∀ event ∈ delivery, event.isDelivery = true)
        ∧ h.events = (updateIPTable cfg t source (macAt (incoming cfg f) 6) sourceConnectionID
            (now 0)).2 ++ rest ++ delivery
        ∧ Outcome (updateIPTable cfg t source (macAt (incoming cfg f) 6) sourceConnectionID
            (now 0)).1 destination h.tables rest := by
  unfold decodePacket at hdecode
  by_cases hlength : f.length < 14
  · rw [if_pos hlength, Option.some.injEq] at hdecode
    subst hdecode
    refine .inl ⟨?_, rfl, rfl⟩
    rintro source destination ⟨type, packet, ⟨hlong, _⟩, _⟩
    omega
  · rw [if_neg hlength] at hdecode
    obtain ⟨⟨type, packet, walked⟩, hwalk, hrest⟩ := Option.bind_eq_some_iff.mp hdecode
    obtain ⟨h', hprocess, rfl⟩ := Option.map_eq_some_iff.mp hrest
    have hreach : ReachesType cfg f type packet := ⟨by omega, fuel, walked, hwalk⟩
    rcases processPacket_cases hprocess with
      ⟨rfl, hnone⟩ | ⟨source, destination, hsize, hsource, hdestination, rest, hevents, houtcome⟩
    · refine .inl ⟨?_, rfl, rfl⟩
      rintro source destination ⟨type', packet', hreach', hsize, hsource, _⟩
      obtain ⟨rfl, rfl⟩ := hreach.unique hreach'
      rw [hnone hsize] at hsource
      cases hsource
    · exact .inr ⟨source, destination, rest, _, ⟨type, packet, hreach, hsize, hsource, hdestination⟩,
        fun _ => forward_isDelivery, by rw [hevents], houtcome⟩

end Armore.Proxy
