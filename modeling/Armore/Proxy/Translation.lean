import Armore.Proxy.Routing

/-!
# Address translation

Outside transparent operation an accepted frame should leave with the addresses of its destination: the
local hardware address as source, the hardware address stored for the destination, and the stored
connection as its route. All of it is relative to the IP table once the frame's own source has been
learned.

Every branch does that but one. A neighbour advertisement is addressed with what is stored for its
target, so it is translated correctly exactly when the table does not tell the target and the destination
apart.
-/

namespace Armore.Proxy

open Tables

/-- The frame an event hands on. -/
def Event.frame : Event → Option Buffer
  | .injected packet | .sentToAll packet | .sentTo _ packet => some packet
  | .settled _ | .requested _ _ | .dropped _ | .discarded _ => none

/-- Offsets of the two hardware addresses inside an ARP message at `arpmsg`. -/
def InArpHardwareAddress (arpmsg i : Nat) : Prop :=
  (arpmsg + 8 ≤ i ∧ i < arpmsg + 14) ∨ (arpmsg + 18 ≤ i ∧ i < arpmsg + 24)

/-- A frame for one host goes to the connection found for it. -/
def SentOn (cfg : Config) (destination : IPAddress) (connectionID : UUID) : Prop :=
  cfg.permissiveMode = true ∧ cfg.serverMode = true ∧ destination.isMulticast = false
    ∧ connectionID ≠ .empty

/-- An accepted frame leaves as `out`: by `connectionID` and nowhere else if it is sent on, and to the local
network if not. -/
structure Leaves (cfg : Config) (destination : IPAddress) (connectionID : UUID) (out : Buffer)
    (events : List Event) : Prop where
  outgoing : ∀ event ∈ events, ∀ packet, event.frame = some packet → packet = out
  sent : SentOn cfg destination connectionID →
    events.filter (·.isDelivery) = [.sentTo connectionID out]
  injected : ¬ SentOn cfg destination connectionID →
    .injected out ∈ events ∧ ∀ other packet, .sentTo other packet ∉ events

/-- The accepted frame `f` leaves as it should: `h` is what handling it left behind, `stored` what the
table holds once it knows the source of `f`, and `destination` the destination address in its header of
type `type` at `packet`. -/
structure Translated (cfg : Config) (stored : IPAddress → Option (MacAddress × UUID)) (f : Buffer)
    (type : Nat) (packet : Cursor) (destination : IPAddress) (h : Handled) : Prop where
  leaves : Leaves cfg destination h.destinationConnectionID (f.rewritten h.byte) h.events
  shost : ∀ i : Fin 6, h.byte (6 + i.val) = cfg.localMACAddress.copyTo i
  route : ∃ mac, stored destination = some (mac, h.destinationConnectionID)
    ∧ ∀ i : Fin 6, h.byte i.val = mac.copyTo i
  unchanged : ∀ i, 12 ≤ i → (type = ethertypeARP → ¬ InArpHardwareAddress packet.value i) →
    h.byte i = f.byte i

/-- What a frame is addressed with: the six bytes of a hardware address, and a connection. -/
def addressing (found : Option (MacAddress × UUID)) : Option ((Fin 6 → UInt8) × UUID) :=
  found.map fun (mac, connectionID) => (mac.copyTo, connectionID)

variable {cfg : Config} {now : Nat → Int} {t : Tables} {sourceConnectionID : UUID}

/-! ### How an accepted frame leaves -/

theorem forward_frame {type : Nat} {h : Handled} {sourcePacket out : Buffer} {event : Event}
    (hevent : event ∈ forward cfg type h sourcePacket) (hout : event.frame = some out) :
    out = sourcePacket := by
  rcases mem_forward hevent with rfl | rfl | rfl <;> exact (Option.some.inj hout).symm

/-- A quiet event hands nothing on. -/
theorem Event.frame_of_quiet {event : Event} (hquiet : event.isDelivery = false) :
    event.frame = none := by
  cases event <;> first | rfl | cases hquiet

theorem forward_of_sentOn {type : Nat} {h : Handled} {sourcePacket : Buffer}
    (hinject : h.injectPacket = true) (hsent : SentOn cfg h.destinationIP h.destinationConnectionID) :
    forward cfg type h sourcePacket = [.sentTo h.destinationConnectionID sourcePacket] := by
  obtain ⟨hpermissive, hserver, hmulticast, hconnection⟩ := hsent
  have hempty : ¬ h.destinationConnectionID.isEmpty = true := fun h => hconnection (UUID.isEmpty_iff.mp h)
  rw [forward, if_pos hinject, if_pos (by rw [hpermissive, hserver]; rfl),
    if_neg (by rw [hmulticast]; decide), if_neg hempty]

theorem forward_of_not_sentOn {type : Nat} {h : Handled} {sourcePacket : Buffer}
    (hinject : h.injectPacket = true) (hsent : ¬ SentOn cfg h.destinationIP h.destinationConnectionID) :
    forward cfg type h sourcePacket = [.injected sourcePacket]
      ∨ forward cfg type h sourcePacket = [.sentToAll sourcePacket, .injected sourcePacket] := by
  rw [forward, if_pos hinject]
  by_cases hmode : (cfg.permissiveMode && cfg.serverMode) = true
  · obtain ⟨hpermissive, hserver⟩ := (Bool.and_eq_true _ _).mp hmode
    rw [if_pos hmode]
    cases hmulticast : h.destinationIP.isMulticast with
    | true => exact .inr (if_pos rfl)
    | false =>
        have hempty : h.destinationConnectionID.isEmpty = true := by
          by_contra hnot
          exact hsent ⟨hpermissive, hserver, hmulticast, fun h => hnot (UUID.isEmpty_iff.mpr h)⟩
        rw [if_neg Bool.false_ne_true, if_pos hempty]
        by_cases htype : type = ethertypeARP
        · exact .inr (by rw [if_pos htype]; rfl)
        · exact .inl (by rw [if_neg htype]; rfl)
  · exact .inl (if_neg hmode)

/-- An accepted frame leaves by the connection that was found. -/
theorem leaves_of_forward {type : Nat} {h : Handled} {sourcePacket : Buffer} {quiet : List Event}
    (hinject : h.injectPacket = true) (hquiet : ∀ event ∈ quiet, event.isDelivery = false) :
    Leaves cfg h.destinationIP h.destinationConnectionID sourcePacket
      (quiet ++ forward cfg type h sourcePacket) := by
  have hnone : quiet.filter (·.isDelivery) = [] :=
    List.filter_eq_nil_iff.mpr fun event hevent => by rw [hquiet event hevent]; decide
  refine ⟨fun event hevent packet hpacket => ?_, fun hsent => ?_, fun hsent => ?_⟩
  · rcases List.mem_append.mp hevent with hmem | hmem
    · rw [Event.frame_of_quiet (hquiet _ hmem)] at hpacket
      cases hpacket
    · exact forward_frame hmem hpacket
  · rw [List.filter_append, hnone, forward_of_sentOn hinject hsent]
    rfl
  · have hnot : ∀ other packet, Event.sentTo other packet ∉ quiet := fun _ _ hmem =>
      Bool.noConfusion (hquiet _ hmem)
    have hforward : forward cfg type h sourcePacket = [.injected sourcePacket]
        ∨ forward cfg type h sourcePacket = [.sentToAll sourcePacket, .injected sourcePacket] :=
      forward_of_not_sentOn hinject hsent
    rcases hforward with heq | heq
    all_goals
      rw [heq]
      refine ⟨by simp, fun other packet hmem => ?_⟩
      rcases List.mem_append.mp hmem with hmem | hmem
      · exact hnot other packet hmem
      · simp at hmem

/-! ### How it is addressed -/

theorem incoming_shost {f : Buffer} (htransparent : cfg.transparentOperation = false) (i : Fin 6) :
    incoming cfg f (6 + i.val) = cfg.localMACAddress.copyTo i := by
  rw [incoming, if_neg (by simp [htransparent]), storeMac_self _ _ _ i.isLt]
  rfl

/-- Addressing a frame writes the hardware address and nothing behind it. -/
theorem storeMac_dhost (mem : Memory) (mac : MacAddress) (i : Fin 6) :
    storeMac mem 0 mac i.val = mac.copyTo i := by
  have h := storeMac_self mem 0 mac i.isLt
  rwa [Nat.zero_add] at h

/-- A frame addressed with `mac` has the two Ethernet addresses and its old payload. -/
theorem storeMac_incoming {f : Buffer} (htransparent : cfg.transparentOperation = false)
    (mac : MacAddress) :
    (∀ i : Fin 6, storeMac (incoming cfg f) 0 mac (6 + i.val) = cfg.localMACAddress.copyTo i)
      ∧ ∀ i, 12 ≤ i → storeMac (incoming cfg f) 0 mac i = f.byte i := by
  refine ⟨fun i => ?_, fun i hi => ?_⟩
  · rw [storeMac_of_outside _ _ (.inr (by omega)), incoming_shost htransparent]
  · rw [storeMac_of_outside _ _ (.inr (by omega)), incoming_of_le hi]

/-- An ARP reply gets its two hardware addresses behind offset 14. -/
theorem arpReply_byte (mem : Memory) (mac mac' : MacAddress) {arpmsg i : Nat}
    (hi : ¬ InArpHardwareAddress arpmsg i) :
    storeMac (storeMac (storeMac mem 0 mac) (arpmsg + 18) mac) (arpmsg + 8) mac' i
      = storeMac mem 0 mac i := by
  unfold InArpHardwareAddress at hi
  rw [storeMac_of_outside _ _ (by omega), storeMac_of_outside _ _ (by omega)]

theorem not_inArpHardwareAddress {arpmsg i : Nat} (hi : i < arpmsg + 8) :
    ¬ InArpHardwareAddress arpmsg i := by
  unfold InArpHardwareAddress
  omega

section

variable {stored : IPAddress → Option (MacAddress × UUID)} {f : Buffer} {type : Nat} {packet : Cursor}
  {destination : IPAddress} {h : Handled} (htransparent : cfg.transparentOperation = false)
  (hleaves : Leaves cfg destination h.destinationConnectionID (f.rewritten h.byte) h.events)
include htransparent hleaves

/-- A frame that is addressed with what is stored for its destination. -/
theorem translated_of_stored {mac : MacAddress} (hfound : stored destination = some (mac, h.destinationConnectionID))
    (hbyte : h.byte = storeMac (incoming cfg f) 0 mac) : Translated cfg stored f type packet destination h := by
  obtain ⟨hshost, hpayload⟩ := storeMac_incoming (f := f) htransparent mac
  refine ⟨hleaves, ?_, ⟨mac, hfound, ?_⟩, ?_⟩
  · rwa [hbyte]
  · rw [hbyte]
    exact storeMac_dhost _ mac
  · intro i hi _
    rw [hbyte, hpayload i hi]

/-- An ARP reply, whose message gets the two hardware addresses too. -/
theorem translated_of_arpReply {mac : MacAddress} (htype : type = ethertypeARP)
    (hfound : stored destination = some (mac, h.destinationConnectionID))
    (hbyte : h.byte = storeMac (storeMac (storeMac (incoming cfg f) 0 mac) (packet.value + 18) mac) (packet.value + 8)
      cfg.localMACAddress)
    (hstart : 14 ≤ packet.value) : Translated cfg stored f type packet destination h := by
  obtain ⟨hshost, hpayload⟩ := storeMac_incoming (f := f) htransparent mac
  refine ⟨hleaves, fun i => ?_, ⟨mac, hfound, fun i => ?_⟩, fun i hi hout => ?_⟩
  · rw [hbyte, arpReply_byte _ _ _ (not_inArpHardwareAddress (by omega)), hshost]
  · rw [hbyte, arpReply_byte _ _ _ (not_inArpHardwareAddress (by omega)), storeMac_dhost]
  · rw [hbyte, arpReply_byte _ _ _ (hout htype), hpayload i hi]

/-- A frame that is addressed with what is stored for another address is addressed right when that is the same. -/
theorem translated_iff_addressing {target : IPAddress} {mac : MacAddress}
    (hfound : stored target = some (mac, h.destinationConnectionID)) (hknown : stored destination ≠ none)
    (hbyte : h.byte = storeMac (incoming cfg f) 0 mac) :
    Translated cfg stored f type packet destination h ↔ addressing (stored target) = addressing (stored destination) := by
  obtain ⟨⟨mac', connectionID'⟩, hfound'⟩ := Option.ne_none_iff_exists'.mp hknown
  obtain ⟨hshost, hpayload⟩ := storeMac_incoming (f := f) htransparent mac
  have hdhost : ∀ i : Fin 6, h.byte i.val = mac.copyTo i := fun i => by
    rw [hbyte, storeMac_dhost]
  constructor
  · rintro ⟨_, _, ⟨mac'', hroute, hoctets⟩, _⟩
    rw [hfound, hroute]
    have hmac : mac.copyTo = mac''.copyTo := funext fun i => by rw [← hdhost, hoctets]
    simp only [addressing, Option.map_some, hmac]
  · intro hsame
    rw [hfound, hfound'] at hsame
    simp only [addressing, Option.map_some, Option.some.injEq, Prod.mk.injEq] at hsame
    rw [← hsame.2] at hfound'
    refine ⟨hleaves, fun i => ?_, ⟨mac', hfound', fun i => ?_⟩, fun i hi _ => ?_⟩
    · rw [hbyte, hshost]
    · rw [hdhost, hsame.1]
    · rw [hbyte, hpayload i hi]

end

/-- **A frame is translated correctly exactly when it is not a neighbour advertisement for a target that
the table addresses differently from the destination of the packet.** -/
theorem translated_iff {fuel type : Nat} {f : Buffer} {packet : Cursor}
    {source destination : IPAddress} {h : Handled} (htransparent : cfg.transparentOperation = false)
    (hdecode : decodePacket fuel cfg now t sourceConnectionID f = some h)
    (hinject : h.injectPacket = true) (hreach : ReachesType cfg f type packet)
    (hsource : sourceAddress (incoming cfg f) type packet.value = some source)
    (hdestination : destinationAddress (incoming cfg f) type packet.value = some destination)
    (hreply : type = ethertypeARP → isARPRequest (ntohs (incoming cfg f) (packet.value + 6)) = false)
    (hvalid : type = ethertypeIP → destination.isValid cfg.ipv4Netmask = true)
    (hkey : learned cfg t sourceConnectionID f source destination ≠ none) :
    Translated cfg (learned cfg t sourceConnectionID f source) f type packet destination h
      ↔ ∀ target, type = ethertypeIPV6 → Advertises (incoming cfg f) packet target →
          addressing (learned cfg t sourceConnectionID f source target)
            = addressing (learned cfg t sourceConnectionID f source destination) := by
  obtain ⟨type', packet', source', destination', hreach', _, hsource', hdestination', hIP, haccepts,
    quiet, hevents, hquiet⟩ := decodePacket_accepts hdecode hinject
  obtain ⟨rfl, rfl⟩ := hreach.unique hreach'
  obtain rfl : source = source' := Option.some.inj (hsource.symm.trans hsource')
  obtain rfl : destination = destination' := Option.some.inj (hdestination.symm.trans hdestination')
  have hstart := hreach.le_value
  have hleaves : Leaves cfg h.destinationIP h.destinationConnectionID (f.rewritten h.byte) h.events := by
    rw [hevents]
    exact leaves_of_forward hinject hquiet
  rw [hIP] at hleaves
  generalize learned cfg t sourceConnectionID f source = stored at haccepts hkey ⊢
  generalize hbyte : h.byte = byte at haccepts
  generalize hconnection : h.destinationConnectionID = connectionID at haccepts
  cases haccepts with
  | transparent htrue => rw [htransparent] at htrue; cases htrue
  | arpRequest _ htype hrequest => rw [hreply htype] at hrequest; cases hrequest
  | arpReply _ htype _ hfound =>
      rw [← hconnection] at hfound
      exact iff_of_true (translated_of_arpReply htransparent hleaves htype hfound hbyte hstart)
        fun target hIPV6 _ => absurd (htype.symm.trans hIPV6) (by decide)
  | ipv4Known _ htype _ hfound =>
      rw [← hconnection] at hfound
      exact iff_of_true (translated_of_stored htransparent hleaves hfound hbyte)
        fun target hIPV6 _ => absurd (htype.symm.trans hIPV6) (by decide)
  | ipv4Unknown _ htype hunknown => exact absurd (hunknown (hvalid htype)) hkey
  | ipv6 _ _ hnone =>
      obtain ⟨⟨mac, connectionID⟩, hfound⟩ := Option.ne_none_iff_exists'.mp hkey
      rw [hfound] at hconnection hbyte
      rw [← show h.destinationConnectionID = connectionID from hconnection] at hfound
      exact iff_of_true (translated_of_stored htransparent hleaves hfound hbyte)
        fun target _ hadvertises => absurd hadvertises (hnone target)
  | advertisement _ htype hadvertises hfound =>
      rw [← hconnection] at hfound
      rw [translated_iff_addressing htransparent hleaves hfound hkey hbyte]
      constructor
      · intro hsame target' _ hadvertises'
        rwa [← hadvertises.unique hadvertises']
      · intro hsame
        exact hsame _ htype hadvertises

/-! ### An advertisement on behalf of another host -/

/-- `fe80::n`. -/
def linkLocal (n : UInt8) : List UInt8 := [0xFE, 0x80] ++ List.replicate 13 0 ++ [n]

/-- `fe80::1` and `fe80::2` are known, on two connections. -/
def twoHosts : Tables where
  ipTable :=
    (Lib.Table.put ∅ (in6Addr (fun i => (linkLocal 1).getD i 0) 0)
      ⟨.copyFrom fun _ => 0x11, .replicate 1, 0⟩).put
    (in6Addr (fun i => (linkLocal 2).getD i 0) 0) ⟨.copyFrom fun _ => 0x22, .replicate 2, 0⟩
  pendingIPMacRequests := ∅

/-- A neighbour advertisement for `fe80::2` that `fe80::3` sends to `fe80::1`. -/
def advertisement : Buffer :=
  .ofList (List.replicate 12 0xAA ++ [0x86, 0xDD]
    ++ [0x60, 0, 0, 0, 0, 24, 58, 255] ++ linkLocal 3 ++ linkLocal 1
    ++ [ndNeighborAdvert, 0, 0, 0, 0x40, 0, 0, 0] ++ linkLocal 2) (by decide)

/-- The law at `advertisement`. -/
theorem translated_iff_advertisement :
    ∃ h, decodePacket 3 translatingServer (fun _ => 0) twoHosts (.replicate 3) advertisement = some h
      ∧ (Translated translatingServer (learned translatingServer twoHosts (.replicate 3) advertisement
            (in6Addr advertisement.byte 22)) advertisement ethertypeIPV6 ⟨14, 64⟩
            (in6Addr advertisement.byte 38) h
          ↔ ∀ target, ethertypeIPV6 = ethertypeIPV6 →
            Advertises (incoming translatingServer advertisement) ⟨14, 64⟩ target →
            addressing (learned translatingServer twoHosts (.replicate 3) advertisement
                (in6Addr advertisement.byte 22) target)
              = addressing (learned translatingServer twoHosts (.replicate 3) advertisement
                (in6Addr advertisement.byte 22) (in6Addr advertisement.byte 38))) := by
  have haccepted : (decodePacket 3 translatingServer (fun _ => 0) twoHosts (.replicate 3)
      advertisement).map (·.injectPacket) = some true := by rfl
  obtain ⟨h, hdecode, hinject⟩ := Option.map_eq_some_iff.mp haccepted
  exact ⟨h, hdecode, translated_iff rfl hdecode hinject ⟨by decide, 3, [], rfl⟩ (by decide +kernel)
    (by decide +kernel) (fun h => absurd h (by decide)) (fun h => absurd h (by decide))
    (by decide +kernel)⟩

/-- Its destination `fe80::1` is known and unicast, and it is sent to the connection of `fe80::2`, with the
hardware address of `fe80::2`. -/
theorem advertisement_not_translated :
    ∃ h, decodePacket 3 translatingServer (fun _ => 0) twoHosts (.replicate 3) advertisement = some h
      ∧ h.injectPacket = true ∧ translatingServer.transparentOperation = false
      ∧ ReachesType translatingServer advertisement ethertypeIPV6 ⟨14, 64⟩
      ∧ (in6Addr advertisement.byte 38).isMulticast = false
      ∧ addressing (learned translatingServer twoHosts (.replicate 3) advertisement
          (in6Addr advertisement.byte 22) (in6Addr advertisement.byte 38))
        = some (fun _ => 0x11, .replicate 1)
      ∧ h.events.filter (·.isDelivery) = [.sentTo (.replicate 2) (advertisement.rewritten h.byte)]
      ∧ (∀ i : Fin 6, h.byte i.val = 0x22)
      ∧ ¬ Translated translatingServer (learned translatingServer twoHosts (.replicate 3) advertisement
          (in6Addr advertisement.byte 22)) advertisement ethertypeIPV6 ⟨14, 64⟩
          (in6Addr advertisement.byte 38) h := by
  have hresult : (decodePacket 3 translatingServer (fun _ => 0) twoHosts (.replicate 3)
      advertisement).map (fun h => (h.injectPacket, h.destinationIP.isMulticast, h.destinationConnectionID))
        = some (true, false, .replicate 2) := by rfl
  have hbytes : (decodePacket 3 translatingServer (fun _ => 0) twoHosts (.replicate 3)
      advertisement).map (fun h => List.ofFn fun i : Fin 6 => h.byte i.val)
        = some (List.ofFn fun _ : Fin 6 => 0x22) := by rfl
  have hstored : addressing (learned translatingServer twoHosts (.replicate 3) advertisement
      (in6Addr advertisement.byte 22) (in6Addr advertisement.byte 38))
        = some (fun _ => 0x11, .replicate 1) := by decide +kernel
  obtain ⟨h, hdecode, heq⟩ := Option.map_eq_some_iff.mp hresult
  simp only [Prod.mk.injEq] at heq
  obtain ⟨hinject, hmulticast, hconnection⟩ := heq
  rw [hdecode] at hbytes
  have hdhost := List.ofFn_injective (Option.some.inj hbytes)
  obtain ⟨type, quiet, hevents, hquiet⟩ := decodePacket_forward hdecode
  have hleaves : Leaves translatingServer h.destinationIP h.destinationConnectionID
      (advertisement.rewritten h.byte) h.events := by
    rw [hevents]
    exact leaves_of_forward hinject hquiet
  rw [hconnection] at hleaves
  refine ⟨h, hdecode, hinject, rfl, ⟨by decide, 3, [], rfl⟩, rfl, hstored,
    hleaves.sent ⟨rfl, rfl, hmulticast, by decide⟩, fun i => congrFun hdhost i, ?_⟩
  rintro ⟨_, _, ⟨mac, hroute, _⟩, _⟩
  rw [hroute, hconnection] at hstored
  have hne : UUID.replicate 2 ≠ UUID.replicate 1 := by decide
  exact hne (congrArg Prod.snd (Option.some.inj hstored))

end Armore.Proxy
