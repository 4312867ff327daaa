import Armore.Proxy.Middleware
import Armore.Proxy.Resolution
import Armore.Proxy.Routing

/-!
# Where a received frame goes

In permissive mode the server passes a received frame on: to all clients, or to the connection stored for
its destination. The connection the frame came from is not treated specially anywhere. This module says
exactly when a frame goes back to it, in every state that a run can reach.

The route of a frame is decided by one address, `RoutedBy`: its destination, or the target of a neighbour
advertisement. An ARP request has no route when addresses are translated.
-/

namespace Armore.Proxy

open Tables ZeroMQServer

/-- The address whose stored connection is the route of an accepted frame. -/
def RoutedBy (cfg : Config) (mem : Memory) (type : Nat) (packet : Cursor)
    (destination target : IPAddress) : Prop :=
  Advertises mem packet target ∧ cfg.transparentOperation = false ∧ type = ethertypeIPV6
    ∨ target = destination ∧ ∀ other, Advertises mem packet other →
        ¬ (cfg.transparentOperation = false ∧ type = ethertypeIPV6)

/-- An ARP request in translating mode, whose destination is not looked up. -/
def UnroutedRequest (cfg : Config) (mem : Memory) (type : Nat) (packet : Cursor) : Prop :=
  type = ethertypeARP ∧ cfg.transparentOperation = false
    ∧ isARPRequest (ntohs mem (packet.value + 6)) = true

/-- The accepted frame `f` goes back to `c`, in terms of the table `stored` that knows the source of
`f`. -/
def GoesBack (cfg : Config) (stored : IPAddress → Option (MacAddress × UUID)) (s : ZeroMQServer)
    (mem : Memory) (type : Nat) (packet : Cursor) (destination : IPAddress) (c : UUID) : Prop :=
  (destination.isMulticast = true ∧ c ∈ s.reached)
    ∨ (destination.isMulticast = false ∧ type = ethertypeARP ∧ c ∈ s.reached
        ∧ (UnroutedRequest cfg mem type packet ∨ foundConnection (stored destination) = .empty))
    ∨ (destination.isMulticast = false ∧ c ≠ .empty ∧ ¬ UnroutedRequest cfg mem type packet
        ∧ ∃ target, RoutedBy cfg mem type packet destination target
          ∧ foundConnection (stored target) = c)

/-! ### The route -/

theorem Accepts.unrouted {cfg : Config} {stored : IPAddress → Option (MacAddress × UUID)}
    {mem byte : Memory} {type : Nat} {packet : Cursor} {destination : IPAddress} {connectionID : UUID}
    (h : Accepts cfg stored mem type packet destination byte connectionID)
    (hunrouted : UnroutedRequest cfg mem type packet) : connectionID = .empty := by
  obtain ⟨htype, htransparent, hrequest⟩ := hunrouted
  cases h with
  | transparent htrue => rw [htransparent] at htrue; cases htrue
  | arpRequest => rfl
  | arpReply _ _ hreply _ => rw [hrequest] at hreply; cases hreply
  | ipv4Known _ htype' _ _ => exact absurd (htype.symm.trans htype') (by decide)
  | ipv4Unknown => rfl
  | ipv6 _ htype' _ => exact absurd (htype.symm.trans htype') (by decide)
  | advertisement _ htype' _ _ => exact absurd (htype.symm.trans htype') (by decide)

/-- An accepted frame is routed to the connection stored for the one address that decides its route. -/
theorem Accepts.routed {cfg : Config} {stored : IPAddress → Option (MacAddress × UUID)}
    {mem byte : Memory} {type : Nat} {packet : Cursor} {destination : IPAddress} {connectionID : UUID}
    (hvalid : ∀ ip, stored ip ≠ none → ip.isValid cfg.ipv4Netmask = true)
    (h : Accepts cfg stored mem type packet destination byte connectionID)
    (hrouted : ¬ UnroutedRequest cfg mem type packet) :
    ∃ target, RoutedBy cfg mem type packet destination target
      ∧ (∀ other, RoutedBy cfg mem type packet destination other → other = target)
      ∧ connectionID = foundConnection (stored target) := by
  -- the frame is no advertisement that is looked up again
  have hplain : (∀ other, Advertises mem packet other →
      ¬ (cfg.transparentOperation = false ∧ type = ethertypeIPV6)) →
      connectionID = foundConnection (stored destination) →
      ∃ target, RoutedBy cfg mem type packet destination target
        ∧ (∀ other, RoutedBy cfg mem type packet destination other → other = target)
        ∧ connectionID = foundConnection (stored target) := by
    refine fun hnone hconnection => ⟨destination, .inr ⟨rfl, hnone⟩, fun other hother => ?_, hconnection⟩
    rcases hother with ⟨hadvertises, hnot⟩ | ⟨heq, _⟩
    · exact absurd hnot (hnone other hadvertises)
    · exact heq
  cases h with
  | transparent htrue => exact hplain (fun _ _ hnot => by rw [htrue] at hnot; cases hnot.1) rfl
  | arpRequest htransparent htype hrequest => exact absurd ⟨htype, htransparent, hrequest⟩ hrouted
  | arpReply _ htype _ hfound =>
      exact hplain (fun _ _ hnot => absurd (htype.symm.trans hnot.2) (by decide)) (by rw [hfound]; rfl)
  | ipv4Known _ htype _ hfound =>
      exact hplain (fun _ _ hnot => absurd (htype.symm.trans hnot.2) (by decide)) (by rw [hfound]; rfl)
  | ipv4Unknown _ htype hunknown =>
      -- an address that is not valid is not in the table
      have hnone : stored destination = none := by
        by_contra hsome
        exact hsome (hunknown (hvalid destination hsome))
      exact hplain (fun _ _ hnot => absurd (htype.symm.trans hnot.2) (by decide)) (by rw [hnone]; rfl)
  | ipv6 _ _ hnone => exact hplain (fun other hadvertises _ => hnone other hadvertises) rfl
  | @advertisement target mac _ htransparent htype hadvertises hfound =>
      refine ⟨target, .inl ⟨hadvertises, htransparent, htype⟩, fun other hother => ?_,
        by rw [hfound]; rfl⟩
      rcases hother with ⟨hadvertises', _⟩ | ⟨_, hnone⟩
      · exact hadvertises'.unique hadvertises
      · exact absurd ⟨htransparent, htype⟩ (hnone target hadvertises)

/-! ### What the server queues -/

theorem perform_quiet (s : ZeroMQServer) {quiet : List Event} (events : List Event)
    (hquiet : ∀ event ∈ quiet, event.isDelivery = false) :
    perform (quiet ++ events) s = perform events s := by
  induction quiet with
  | nil => rfl
  | cons event quiet ih =>
      have hhandle : s.handle event = .ok s := by
        have h := hquiet event (List.mem_cons_self ..)
        cases event <;> first | rfl | cases h
      rw [List.cons_append, perform, hhandle]
      exact ih fun other hother => hquiet other (List.mem_cons_of_mem _ hother)

/-- Injecting a frame afterwards changes nothing at the server. -/
theorem state_perform_injected (s : ZeroMQServer) (event : Event) (packet : Buffer) :
    state (perform [event, .injected packet] s) = state (s.handle event) := by
  rw [perform]
  cases s.handle event <;> rfl

/-- What the server queues when a frame is forwarded. -/
def forwarded (s : ZeroMQServer) (type : Nat) (h : Handled) (packet : Buffer) : List (UUID × Buffer) :=
  if h.injectPacket = false then []
  else if h.destinationIP.isMulticast = true ∨
      (h.destinationConnectionID = .empty ∧ type = ethertypeARP) then
    s.reached.map fun client => (client, packet)
  else if h.destinationConnectionID = .empty then []
  else [(h.destinationConnectionID, packet)]

theorem perform_forward {cfg : Config} (hpermissive : cfg.permissiveMode = true)
    (hserver : cfg.serverMode = true) (s : ZeroMQServer) (henabled : s.enabled = true) (type : Nat)
    (h : Handled) (packet : Buffer) :
    (state (perform (forward cfg type h packet) s)).sendBuffers
      = s.sendBuffers ++ forwarded s type h packet := by
  have hbroadcast : (state (perform [.sentToAll packet, .injected packet] s)).sendBuffers
      = s.sendBuffers ++ s.reached.map fun client => (client, packet) := by
    rw [state_perform_injected, handle, sendBufferToAll_state s packet henabled]
  unfold forward forwarded
  rw [hpermissive, hserver, Bool.and_true, if_pos rfl]
  cases hinject : h.injectPacket with
  | false => simp [perform, state]
  | true =>
      rw [if_pos rfl, if_neg (show ¬ true = false by decide)]
      cases hmulticast : h.destinationIP.isMulticast with
      | true =>
          rw [if_pos rfl, if_pos (.inl rfl)]
          exact hbroadcast
      | false =>
          rw [if_neg Bool.false_ne_true]
          by_cases hempty : h.destinationConnectionID = .empty
          · rw [if_pos (UUID.isEmpty_iff.mpr hempty)]
            by_cases htype : type = ethertypeARP
            · rw [if_pos htype, if_pos (.inr ⟨hempty, htype⟩)]
              exact hbroadcast
            · rw [if_neg htype, if_neg (by simp [htype]), if_pos hempty]
              simp [perform, handle, Except.bind, state]
          · have hnot : ¬ h.destinationConnectionID.isEmpty = true :=
              fun h => hempty (UUID.isEmpty_iff.mp h)
            rw [if_neg hnot, if_neg (by simp [hempty]), if_neg hempty, perform, handle,
              sendBuffer_of_enabled henabled, if_neg hnot]
            rfl

/-- Only the frame itself is forwarded, and to `c` under one of two conditions. -/
theorem mem_forwarded {s : ZeroMQServer} {type : Nat} {h : Handled} {packet buffer : Buffer} {c : UUID}
    (hinject : h.injectPacket = true) :
    (c, buffer) ∈ forwarded s type h packet
      ↔ buffer = packet
        ∧ (((h.destinationIP.isMulticast = true
              ∨ h.destinationConnectionID = .empty ∧ type = ethertypeARP) ∧ c ∈ s.reached)
          ∨ (h.destinationIP.isMulticast = false ∧ c ≠ .empty ∧ h.destinationConnectionID = c)) := by
  rw [forwarded, if_neg (by simp [hinject])]
  by_cases hbroadcast : h.destinationIP.isMulticast = true
      ∨ h.destinationConnectionID = .empty ∧ type = ethertypeARP
  · have hnot : ¬ (h.destinationIP.isMulticast = false ∧ c ≠ .empty
        ∧ h.destinationConnectionID = c) := by
      rintro ⟨hmulticast, hc, rfl⟩
      rcases hbroadcast with htrue | ⟨hempty, _⟩
      · rw [hmulticast] at htrue; cases htrue
      · exact hc hempty
    rw [if_pos hbroadcast, or_iff_left hnot]
    simp only [List.mem_map, Prod.mk.injEq, hbroadcast, true_and]
    constructor
    · rintro ⟨client, hclient, rfl, rfl⟩
      exact ⟨rfl, hclient⟩
    · rintro ⟨rfl, hclient⟩
      exact ⟨c, hclient, rfl, rfl⟩
  · obtain ⟨hmulticast, _⟩ := not_or.mp hbroadcast
    rw [Bool.not_eq_true] at hmulticast
    rw [if_neg hbroadcast]
    by_cases hempty : h.destinationConnectionID = .empty
    · simp only [if_pos hempty, List.not_mem_nil, false_iff]
      rintro ⟨_, ⟨hbroadcast', _⟩ | ⟨_, hc, heq⟩⟩
      · exact hbroadcast hbroadcast'
      · exact hc (heq.symm.trans hempty)
    · rw [if_neg hempty, or_iff_right fun hall => hbroadcast hall.1]
      simp only [List.mem_singleton, Prod.mk.injEq, hmulticast, true_and]
      constructor
      · rintro ⟨rfl, rfl⟩
        exact ⟨rfl, hempty, rfl⟩
      · rintro ⟨rfl, _, rfl⟩
        exact ⟨rfl, rfl⟩

/-- For an accepted frame, what is forwarded to `c` is what `GoesBack` says. -/
theorem mem_forwarded_iff_goesBack {cfg : Config} {stored : IPAddress → Option (MacAddress × UUID)}
    {s : ZeroMQServer} {mem : Memory} {type : Nat} {packet : Cursor} {h : Handled} {out buffer : Buffer}
    {c : UUID} (hvalid : ∀ ip, stored ip ≠ none → ip.isValid cfg.ipv4Netmask = true)
    (hinject : h.injectPacket = true)
    (haccepts : Accepts cfg stored mem type packet h.destinationIP h.byte h.destinationConnectionID) :
    (c, buffer) ∈ forwarded s type h out
      ↔ buffer = out ∧ GoesBack cfg stored s mem type packet h.destinationIP c := by
  rw [mem_forwarded hinject, GoesBack]
  refine and_congr_right fun _ => ?_
  cases hmulticast : h.destinationIP.isMulticast with
  | true => simp
  | false =>
      simp only [Bool.false_eq_true, false_or, false_and, true_and]
      by_cases hunrouted : UnroutedRequest cfg mem type packet
      · have hempty := haccepts.unrouted hunrouted
        have htype := hunrouted.1
        constructor
        · rintro (⟨_, hc⟩ | ⟨hc, heq⟩)
          · exact .inl ⟨htype, hc, .inl hunrouted⟩
          · exact absurd (heq.symm.trans hempty) hc
        · rintro (⟨_, hc, _⟩ | ⟨_, hrouted, _⟩)
          · exact .inl ⟨⟨hempty, htype⟩, hc⟩
          · exact absurd hunrouted hrouted
      · obtain ⟨target, hrouted, hunique, hconnection⟩ := haccepts.routed hvalid hunrouted
        have hARP : type = ethertypeARP → target = h.destinationIP := fun htype => by
          rcases hrouted with ⟨_, _, hIPV6⟩ | ⟨heq, _⟩
          · exact absurd (htype.symm.trans hIPV6) (by decide)
          · exact heq
        have hroute : (∃ target, RoutedBy cfg mem type packet h.destinationIP target
            ∧ foundConnection (stored target) = c) ↔ h.destinationConnectionID = c := by
          constructor
          · rintro ⟨other, hother, hstored⟩
            rw [hconnection, ← hunique other hother, hstored]
          · exact fun hc => ⟨target, hrouted, by rw [← hconnection, hc]⟩
        simp only [hunrouted, false_or, not_false_eq_true, true_and, hroute]
        have hbroadcast : ((h.destinationConnectionID = .empty ∧ type = ethertypeARP) ∧ c ∈ s.reached)
            ↔ (type = ethertypeARP ∧ c ∈ s.reached
              ∧ foundConnection (stored h.destinationIP) = .empty) := by
          constructor
          · rintro ⟨⟨hempty, htype⟩, hc⟩
            exact ⟨htype, hc, by rw [← hARP htype, ← hconnection, hempty]⟩
          · rintro ⟨htype, hc, hempty⟩
            exact ⟨⟨by rw [hconnection, hARP htype, hempty], htype⟩, hc⟩
        rw [hbroadcast]

/-- **In permissive mode on a server, what is queued for the connection a frame came from is the frame as
it was rewritten, and it is queued exactly when the frame is accepted and `GoesBack` holds of it**, in every
state a run can reach and for any set of clients. -/
theorem queues_back_iff {cfg : Config} (hpermissive : cfg.permissiveMode = true)
    (hserver : cfg.serverMode = true) {labels : List (Op × List Event)} {t : Tables}
    (hrun : Runs cfg labels t) (s : ZeroMQServer) {fuel : Nat} {now : Nat → Int} {c : UUID}
    {f : Buffer} {h : Handled} (hdecode : decodePacket fuel cfg now t c f = some h) (buffer : Buffer) :
    s.Queues h.events c buffer
      ↔ buffer = f.rewritten h.byte ∧ s.enabled = true ∧ h.injectPacket = true
        ∧ ∃ type packet source destination, ReachesType cfg f type packet
          ∧ sourceAddress (incoming cfg f) type packet.value = some source
          ∧ destinationAddress (incoming cfg f) type packet.value = some destination
          ∧ GoesBack cfg (learned cfg t c f source) s (incoming cfg f) type packet destination c := by
  cases henabled : s.enabled with
  | false =>
      exact iff_of_false (not_queues_of_disabled henabled) fun h => absurd h.2.1 (by decide)
  | true =>
      have hqueued : ∀ {type quiet}, h.events = quiet ++ forward cfg type h (f.rewritten h.byte) →
          (∀ event ∈ quiet, event.isDelivery = false) → (s.Queues h.events c buffer
            ↔ (c, buffer) ∈ forwarded s type h (f.rewritten h.byte)) := by
        intro type quiet hevents hquiet
        refine queues_iff ?_ c buffer
        rw [hevents, perform_quiet s _ hquiet, perform_forward hpermissive hserver s henabled]
      cases hinject : h.injectPacket with
      | false =>
          obtain ⟨type, quiet, hevents, hquiet⟩ := decodePacket_forward hdecode
          rw [hqueued hevents hquiet]
          simp [forwarded, hinject]
      | true =>
          obtain ⟨type, packet, source, destination, hreach, _, hsource, hdestination, rfl, haccepts,
            quiet, hevents, hquiet⟩ := decodePacket_accepts hdecode hinject
          have hvalid : ∀ ip, learned cfg t c f source ip ≠ none →
              ip.isValid cfg.ipv4Netmask = true := fun ip hip =>
            ((Consistent.of_runs hrun).updateIPTable source (macAt (incoming cfg f) 6) c 0).valid ip
              (by rwa [binding_learned])
          rw [hqueued hevents hquiet, mem_forwarded_iff_goesBack hvalid hinject haccepts]
          refine and_congr_right fun _ => ?_
          constructor
          · exact fun hback => ⟨rfl, rfl, type, packet, source, _, hreach, hsource, hdestination, hback⟩
          · rintro ⟨_, _, type', packet', source', destination', hreach', hsource', hdestination', hback⟩
            obtain ⟨rfl, rfl⟩ := hreach.unique hreach'
            obtain rfl : source = source' := Option.some.inj (hsource.symm.trans hsource')
            obtain rfl : h.destinationIP = destination' :=
              Option.some.inj (hdestination.symm.trans hdestination')
            exact hback

/-- A packet that `10.0.0.5` sends to the multicast address `224.0.0.5`. -/
def multicast : Buffer :=
  .ofList (List.replicate 12 0xAA ++ [0x08, 0x00]
    ++ [0x45, 0, 0, 20, 0, 0, 0, 0, 64, 6, 0, 0] ++ [10, 0, 0, 5] ++ [224, 0, 0, 5]) (by decide)

/-- The server with one client. -/
def oneClient : ZeroMQServer := ⟨true, [.replicate 3], []⟩

/-- The law at a multicast packet that arrives first, and the buffer that leaves. -/
theorem queues_back_iff_multicast :
    ∃ h, decodePacket 2 translatingServer (fun _ => 0) .empty (.replicate 3) multicast = some h
      ∧ (oneClient.Queues h.events (.replicate 3) (multicast.rewritten h.byte)
        ↔ multicast.rewritten h.byte = multicast.rewritten h.byte
          ∧ oneClient.enabled = true ∧ h.injectPacket = true ∧ ∃ type packet source destination,
            ReachesType translatingServer multicast type packet
            ∧ sourceAddress (incoming translatingServer multicast) type packet.value = some source
            ∧ destinationAddress (incoming translatingServer multicast) type packet.value
              = some destination
            ∧ GoesBack translatingServer
              (learned translatingServer .empty (.replicate 3) multicast source) oneClient
              (incoming translatingServer multicast) type packet destination (.replicate 3)) := by
  have hsome : (decodePacket 2 translatingServer (fun _ => 0) .empty (.replicate 3)
      multicast).isSome = true := by rfl
  obtain ⟨h, hdecode⟩ := Option.isSome_iff_exists.mp hsome
  exact ⟨h, hdecode, queues_back_iff rfl rfl .nil oneClient hdecode _⟩

/-- The connection it came from is a client, and the packet, with the local hardware address as its
source, is queued for it. -/
theorem multicast_goes_back :
    translatingServer.permissiveMode = true ∧ translatingServer.serverMode = true
      ∧ Runs translatingServer [] .empty
      ∧ ∃ h, decodePacket 2 translatingServer (fun _ => 0) .empty (.replicate 3) multicast = some h
        ∧ oneClient.Queues h.events (.replicate 3) (multicast.rewritten h.byte) := by
  refine ⟨rfl, rfl, .nil, ?_⟩
  have hresult : (decodePacket 2 translatingServer (fun _ => 0) .empty (.replicate 3) multicast).map
      (fun h => (h.injectPacket, h.destinationIP.isMulticast)) = some (true, true) := by rfl
  obtain ⟨h, hdecode, heq⟩ := Option.map_eq_some_iff.mp hresult
  rw [Prod.mk.injEq] at heq
  refine ⟨h, hdecode, ?_⟩
  obtain ⟨type, quiet, hevents, hquiet⟩ := decodePacket_forward hdecode
  have hstate : (state (perform h.events oneClient)).sendBuffers
      = oneClient.sendBuffers ++ forwarded oneClient type h (multicast.rewritten h.byte) := by
    rw [hevents, perform_quiet oneClient _ hquiet, perform_forward rfl rfl oneClient rfl]
  refine (queues_iff hstate _ _).mpr ((mem_forwarded heq.1).mpr ⟨rfl, .inl ⟨.inl heq.2, ?_⟩⟩)
  decide

end Armore.Proxy
