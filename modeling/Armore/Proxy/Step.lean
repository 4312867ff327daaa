import Armore.Lib.Run
import Armore.Proxy.Encode
import Armore.Proxy.Received

/-!
# The packet processor as a system

One step is one call of `EncodePacket`, `DecodePacket`, `CheckActiveIPAddresses` or
`CheckPendingIPMacRequests`. The clock may return anything at every read of it, the frames are arbitrary,
and the order of the calls is arbitrary. A call of `DecodePacket` is a step when it returns. The label of
a step holds the operation and the events it caused.
-/

namespace Armore.Proxy

open Tables

/-- The operations, with what they are called on. -/
inductive Op
  | encodePacket (f : Buffer)
  | decodePacket (sourceConnectionID : UUID) (f : Buffer)
  | checkActiveIPAddresses
  | checkPendingIPMacRequests

/-- One operation. -/
inductive Step (cfg : Config) : Tables → Op × List Event → Tables → Prop
  | encodePacket (now : Nat → Int) (t : Tables) (f : Buffer) :
      Step cfg t (.encodePacket f, (encodePacket cfg now t f).2) (encodePacket cfg now t f).1
  | decodePacket {fuel : Nat} {now : Nat → Int} {t : Tables} {sourceConnectionID : UUID} {f : Buffer}
      {h : Handled} : decodePacket fuel cfg now t sourceConnectionID f = some h →
      Step cfg t (.decodePacket sourceConnectionID f, h.events) h.tables
  | checkActiveIPAddresses (now : Int) (t : Tables) :
      Step cfg t (.checkActiveIPAddresses, []) (checkActiveIPAddresses cfg t now)
  | checkPendingIPMacRequests (now : Int) (t : Tables) :
      Step cfg t (.checkPendingIPMacRequests, (checkPendingIPMacRequests cfg t now).2)
        (checkPendingIPMacRequests cfg t now).1

/-- The runs of a packet processor from its construction. -/
abbrev Runs (cfg : Config) : List (Op × List Event) → Tables → Prop :=
  Lib.Run (Step cfg) Tables.empty

/-- The frame of a step carries this source address, seen with this hardware address on this
connection: the bytes of a captured frame with no connection, the bytes the decode path sees with the
connection the frame arrived on. -/
inductive Op.Carries (cfg : Config) : Op → IPAddress → MacAddress → UUID → Prop
  | captured {f : Buffer} {source destination : IPAddress} :
      capturedAddresses f = some (source, destination) →
      Op.Carries cfg (.encodePacket f) source (.copyFrom (macAt f.byte 6)) .empty
  | received {f : Buffer} {source destination : IPAddress} {sourceConnectionID : UUID} :
      ReceivedAddresses cfg f source destination →
      Op.Carries cfg (.decodePacket sourceConnectionID f) source
        (.copyFrom (macAt (incoming cfg f) 6)) sourceConnectionID

/-- A frame carries one source address. -/
theorem Op.Carries.unique {cfg : Config} {op : Op} {source source' : IPAddress}
    {mac mac' : MacAddress} {connectionID connectionID' : UUID}
    (h : op.Carries cfg source mac connectionID) (h' : op.Carries cfg source' mac' connectionID') :
    source = source' ∧ mac = mac' ∧ connectionID = connectionID' := by
  cases h with
  | captured hsource =>
      cases h' with
      | captured hsource' =>
          rw [hsource, Option.some.injEq, Prod.mk.injEq] at hsource'
          exact ⟨hsource'.1, rfl, rfl⟩
  | received hsource =>
      cases h' with
      | received hsource' => exact ⟨(hsource.unique hsource').1, rfl, rfl⟩

/-- What a step does, in the terms of the two maps: it learns the source of its frame, if there is one,
and goes on from there, or it lets one of the maps time out. -/
theorem step_cases {cfg : Config} {t t' : Tables} {op : Op} {events : List Event}
    (hstep : Step cfg t (op, events) t') :
    ((∀ source mac connectionID, ¬ op.Carries cfg source mac connectionID) ∧ t' = t ∧ events = [])
      ∨ (∃ source etherMac connectionID time destination rest delivery,
          op.Carries cfg source (.copyFrom etherMac) connectionID
            ∧ (∀ event ∈ delivery, event.isDelivery = true)
            ∧ events = (updateIPTable cfg t source etherMac connectionID time).2 ++ rest ++ delivery
            ∧ Outcome (updateIPTable cfg t source etherMac connectionID time).1 destination t' rest)
      ∨ (op = .checkActiveIPAddresses ∧ events = [] ∧ ∃ time, t' = checkActiveIPAddresses cfg t time)
      ∨ (op = .checkPendingIPMacRequests ∧ ∃ time, t' = (checkPendingIPMacRequests cfg t time).1
          ∧ events = (checkPendingIPMacRequests cfg t time).2) := by
  cases hstep with
  | encodePacket now _ f =>
      rcases encodePacket_cases cfg now t f with
        ⟨hnone, heq⟩ | ⟨source, destination, haddresses, htables, sent, hevents, hsent⟩
      · left
        rw [heq]
        refine ⟨fun source mac connectionID hcarries => ?_, rfl, rfl⟩
        cases hcarries with
        | captured hsome =>
            rw [hnone] at hsome
            cases hsome
      · refine .inr (.inl ⟨source, _, _, now 0, destination, [], [sent], .captured haddresses, ?_, ?_,
          .passed ?_⟩)
        · rintro event hevent
          rw [List.mem_singleton] at hevent
          subst hevent
          rcases hsent with rfl | ⟨_, rfl⟩ <;> rfl
        · rw [hevents, List.append_nil]
        · rcases htables with heq | heq <;> rw [heq]
          · exact .refl _
          · exact .lookup _ _ _
  | @decodePacket _ now _ sourceConnectionID f h hdecode =>
      rcases decodePacket_cases hdecode with
        ⟨hnone, htables, hevents⟩ | ⟨source, destination, rest, delivery, haddresses, hdelivery,
          hevents, houtcome⟩
      · left
        rw [htables, hevents]
        refine ⟨fun source mac connectionID hcarries => ?_, rfl, rfl⟩
        cases hcarries with
        | received haddresses => exact hnone _ _ haddresses
      · exact .inr (.inl ⟨source, _, _, now 0, destination, rest, delivery, .received haddresses,
          hdelivery, hevents, houtcome⟩)
  | checkActiveIPAddresses now _ => exact .inr (.inr (.inl ⟨rfl, rfl, now, rfl⟩))
  | checkPendingIPMacRequests now _ => exact .inr (.inr (.inr ⟨rfl, now, rfl, rfl⟩))

/-! ### Injection -/

/-- The frames an event calls `InjectPacket` on. -/
def Event.injection : Event → Option Buffer
  | .requested _ packet | .injected packet => some packet
  | .settled _ | .dropped _ | .discarded _ | .sentToAll _ | .sentTo _ _ => none

/-- Only `DecodePacket` injects. -/
theorem injection_of_encode {cfg : Config} {t t' : Tables} {op : Op} {events : List Event}
    (hop : ∀ sourceConnectionID f, op ≠ .decodePacket sourceConnectionID f)
    (hstep : Step cfg t (op, events) t') : events.filterMap Event.injection = [] := by
  cases hstep with
  | encodePacket now _ f =>
      rcases encodePacket_cases cfg now t f with
        ⟨_, heq⟩ | ⟨source, destination, _, _, sent, hevents, hsent⟩
      · rw [heq]
        rfl
      · rw [hevents, Tables.updateIPTable_events]
        rcases hsent with rfl | ⟨connectionID, rfl⟩ <;> split <;> rfl
  | decodePacket => exact absurd rfl (hop _ _)
  | checkActiveIPAddresses => rfl
  | checkPendingIPMacRequests now _ =>
      rw [Tables.checkPendingIPMacRequests, List.filterMap_map, List.filterMap_eq_nil_iff]
      intro ip _
      rfl

/-- In transparent operation the functions for the protocols inject nothing: they ask for no address. -/
theorem injection_of_processPacket {cfg : Config} (htransparent : cfg.transparentOperation = true)
    {fuel type : Nat} {now : Nat → Int} {t : Tables} {sourceConnectionID : UUID} {mem : Memory} {packet : Cursor}
    {h : Handled} (hprocess : processPacket fuel cfg now t sourceConnectionID mem type packet = some h) :
    h.events.filterMap Event.injection = [] := by
  have hlearn (source : IPAddress) : (updateIPTable cfg t source (macAt mem 6) sourceConnectionID
      (now 0)).2.filterMap Event.injection = [] := by
    rw [updateIPTable_events]
    split <;> rfl
  unfold processPacket processARPPacket processIPv4Packet processIPv6Packet at hprocess
  simp only [if_pos htransparent] at hprocess
  split at hprocess
  · cases hprocess
    split
    · rfl
    · exact hlearn _
  · split at hprocess
    · cases hprocess
      split
      · rfl
      · exact hlearn _
    · split at hprocess
      · split at hprocess <;> cases hprocess
        · rfl
        · exact hlearn _
      · cases hprocess
        rfl

/-- In transparent operation `DecodePacket` injects the received frame or nothing. -/
theorem injection_of_transparent {cfg : Config} (htransparent : cfg.transparentOperation = true) {t t' : Tables}
    {sourceConnectionID : UUID} {f : Buffer} {events : List Event}
    (hstep : Step cfg t (.decodePacket sourceConnectionID f, events) t') {out : Buffer}
    (hout : out ∈ events.filterMap Event.injection) : .injected out ∈ events := by
  cases hstep with
  | @decodePacket fuel now _ _ _ h hdecode =>
      unfold decodePacket at hdecode
      split at hdecode
      · cases hdecode
        cases hout
      · obtain ⟨⟨type, packet, walked⟩, -, hrest⟩ := Option.bind_eq_some_iff.mp hdecode
        obtain ⟨h', hprocess, rfl⟩ := Option.map_eq_some_iff.mp hrest
        dsimp only at hout ⊢
        rw [List.filterMap_append, injection_of_processPacket htransparent hprocess, List.nil_append] at hout
        obtain ⟨event, hevent, hinjection⟩ := List.mem_filterMap.mp hout
        refine List.mem_append_right _ ?_
        rcases mem_forward hevent with rfl | rfl | rfl
        · exact Option.some.inj hinjection ▸ hevent
        · cases hinjection
        · cases hinjection

end Armore.Proxy
