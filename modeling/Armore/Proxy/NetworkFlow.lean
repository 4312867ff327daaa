import Armore.Proxy.Network

/-!
# Frames across the network

However the calls of the sites are interleaved and however messages overtake each other, the network is a
star in which nothing circulates: a client hands nothing back to the server, and the server queues a frame
for no client twice. So the sites handle each captured frame at most once.

What a site handles goes back to one capture. The server handles the frames its clients captured, as they
were captured. A client handles frames that the server captured, and, if the server is permissive, frames
of other clients that the server let through.
-/

namespace Armore.Proxy.Network

open ZeroMQServer

/-! ### The network is a star -/

/-- The connection a message of the server is for. -/
def addressee (message : List (List UInt8)) : UUID := connectionID (message.headD [])

/-- The network as a star: captures are the messages that start. -/
def star (n : State) : Lib.Star UUID where
  started := n.captures
  up := n.up.map Prod.snd
  down := n.down.map fun message => (addressee message.1, message.2)

theorem addressee_serverMessage (client : UUID) (payload : List UInt8) :
    addressee (serverMessage client payload) = client :=
  connectionID_identity client modeR

theorem map_addressed (capture : Nat) (buffers : List (UUID × Buffer)) :
    ((addressed capture buffers).map fun message => (addressee message.1, message.2))
      = (buffers.map Prod.fst).map fun client => (client, capture) := by
  rw [addressed, List.map_map, List.map_map]
  refine List.map_congr_left fun pair _ => ?_
  show (addressee (serverMessage pair.1 pair.2.bytes), capture) = (pair.1, capture)
  rw [addressee_serverMessage]

/-- The clients something is queued for are different from each other. -/
theorem nodup_queued {router : ZeroMQServer} (hclients : router.clients.Nodup) {events : List Event}
    (hsends : sends events = [] ∨ ∃ buffer, sends events = [buffer]) :
    ((queued router events).map Prod.fst).Nodup := by
  rcases hsends with hnone | ⟨buffer, hone⟩
  · rw [queued_of_sends_nil router hnone]
    exact List.nodup_nil
  · exact (copies_queued hclients hone).nodup

/-- The network has moved as a star has. -/
structure Refines (acts : List Act) (n : State) : Prop where
  clients : n.router.clients.Nodup
  moves : ∃ moves : List (Lib.Star.Act UUID), Lib.Star.Runs moves (star n) ∧
    Lib.Star.relays moves = received acts ∧ Lib.Star.deliveries moves = delivered acts

theorem received_append (acts acts' : List Act) : received (acts ++ acts') = received acts ++ received acts' :=
  List.filterMap_append

theorem delivered_append (acts acts' : List Act) :
    delivered (acts ++ acts') = delivered acts ++ delivered acts' :=
  List.filterMap_append

/-- One more step of the star. -/
theorem Refines.snoc {acts : List Act} {n n' : State} (hn : Refines acts n) {act : Act}
    (move : Lib.Star.Act UUID) (hclients : n'.router.clients.Nodup)
    (hstep : Lib.Star.Step (star n) move (star n'))
    (hrelays : Lib.Star.relays [move] = received [act])
    (hdeliveries : Lib.Star.deliveries [move] = delivered [act]) : Refines (acts ++ [act]) n' := by
  obtain ⟨moves, hrun, hrelays', hdeliveries'⟩ := hn.moves
  refine ⟨hclients, moves ++ [move], hrun.snoc hstep, ?_, ?_⟩
  · rw [Lib.Star.relays_append, received_append, hrelays', hrelays]
  · rw [Lib.Star.deliveries_append, delivered_append, hdeliveries', hdeliveries]

/-- A step that leaves the messages alone. -/
theorem Refines.still {acts : List Act} {n n' : State} (hn : Refines acts n) {act : Act}
    (hclients : n'.router.clients.Nodup) (hstar : star n' = star n) (hreceived : received [act] = [])
    (hdelivered : delivered [act] = []) : Refines (acts ++ [act]) n' := by
  obtain ⟨moves, hrun, hrelays, hdeliveries⟩ := hn.moves
  refine ⟨hclients, moves, ?_, ?_, ?_⟩
  · rw [hstar]
    exact hrun
  · rw [received_append, hreceived, List.append_nil, hrelays]
  · rw [delivered_append, hdelivered, List.append_nil, hdeliveries]

theorem nodup_updateClientActivityTime {clients : List UUID} (hclients : clients.Nodup) (id : UUID) :
    (Broadcast.updateClientActivityTime clients id).Nodup := by
  unfold Broadcast.updateClientActivityTime
  split
  · exact hclients
  · rename_i hnew
    refine List.nodup_append.mpr ⟨hclients, List.nodup_singleton id, fun client hclient other hother => ?_⟩
    rw [List.mem_singleton] at hother
    rintro rfl
    exact hnew (hother ▸ hclient)

theorem Refines.step {sites : Sites} {acts : List Act} {n n' : State} {act : Act} (hn : Refines acts n)
    (hstep : Step sites n act n') : Refines (acts ++ [act]) n' := by
  cases hstep with
  | @captureServer f events t hencode =>
      have hnodup := nodup_queued hn.clients
        ((sends_encodePacket hencode).imp_right fun hone => ⟨f, hone⟩)
      refine hn.snoc (.spread ((queued n.router events).map Prod.fst)) hn.clients ?_ rfl rfl
      have hdown : star
            { n with
              server := t
              down := n.down ++ addressed n.captures (queued n.router events)
              captures := n.captures + 1 }
          = ⟨(star n).started + 1, (star n).up, (star n).down
              ++ ((queued n.router events).map Prod.fst).map fun client => (client, n.captures)⟩ := by
        simp only [star, List.map_append, map_addressed]
      rw [hdown]
      exact Lib.Star.Step.spread (star n) hnodup
  | @captureClient id f events t hencode =>
      rcases sends_encodePacket hencode with hnone | hone
      · refine hn.snoc (.spread []) hn.clients ?_ rfl rfl
        have hup : star
              { n with
                client := Function.update n.client id t
                up := n.up ++ offered id n.captures (sends events)
                captures := n.captures + 1 }
            = ⟨(star n).started + 1, (star n).up,
                (star n).down ++ ([] : List UUID).map fun client => (client, n.captures)⟩ := by
          simp only [star, hnone, offered, List.map_nil, List.append_nil]
        rw [hup]
        exact Lib.Star.Step.spread (star n) List.nodup_nil
      · refine hn.snoc .launch hn.clients ?_ rfl rfl
        have hup : star
              { n with
                client := Function.update n.client id t
                up := n.up ++ offered id n.captures (sends events)
                captures := n.captures + 1 }
            = ⟨(star n).started + 1, (star n).up ++ [(star n).started], (star n).down⟩ := by
          simp only [star, hone, offered, List.map_append, List.map_cons, List.map_nil]
        rw [hup]
        exact Lib.Star.Step.launch (star n)
  | @receive message capture before after id payload f events t hup hmessage hbytes hdecode =>
      have hnodup := nodup_queued hn.clients
        ((sends_decodePacket hdecode).imp_right fun hout => ⟨hout.choose, hout.choose_spec.2.2.1⟩)
      refine hn.snoc (.relay capture ((queued n.router events).map Prod.fst)) hn.clients ?_ rfl rfl
      have hstar : star
            { n with
              server := t
              up := before ++ after
              down := n.down ++ addressed capture (queued n.router events) }
          = ⟨(star n).started, (before ++ after).map Prod.snd, (star n).down
              ++ ((queued n.router events).map Prod.fst).map fun client => (client, capture)⟩ := by
        simp only [star, List.map_append, map_addressed]
      rw [hstar]
      refine Lib.Star.Step.relay ?_ hnodup
      show (n.up.map Prod.snd).Perm _
      rw [hup]
      exact (List.perm_middle.map Prod.snd)
  | @deliver id frames capture before after payload f events t hdown hframes hbytes hdecode =>
      refine hn.snoc (.deliver id capture) hn.clients ?_ rfl rfl
      have hstar : star
            { n with
              client := Function.update n.client id t
              up := n.up ++ offered id capture (sends events)
              down := before ++ after }
          = ⟨(star n).started, (star n).up,
              (before ++ after).map fun message => (addressee message.1, message.2)⟩ := by
        simp only [star, sends_of_client hdecode, offered, List.map_nil, List.append_nil]
      rw [hstar]
      refine Lib.Star.Step.deliver ?_
      have hmoved := (List.perm_middle : (before ++ (identity id modeR :: frames, capture) :: after).Perm _).map
        fun message => (addressee message.1, message.2)
      show (n.down.map fun message => (addressee message.1, message.2)).Perm _
      rw [hdown]
      rw [List.map_cons] at hmoved
      rwa [show addressee (identity id modeR :: frames) = id from connectionID_identity id modeR] at hmoved
  | timerServer => exact hn.still hn.clients rfl rfl rfl
  | timerClient => exact hn.still hn.clients rfl rfl rfl
  | @greet id clients hperm =>
      have hnodup : clients.Nodup := hperm.nodup_iff.mpr (nodup_updateClientActivityTime hn.clients id)
      exact hn.still hnodup rfl rfl rfl
  | expire expired => exact hn.still (hn.clients.filter _) rfl rfl rfl
  | lose hup hdown =>
      exact hn.snoc .lose hn.clients (Lib.Star.Step.lose (hup.map _) (hdown.map _)) rfl rfl

/-! ### Where frames come from -/

/-- What the server may send a client for a captured frame: a frame of its own as it is, and in permissive
mode what a frame of a client has become. -/
inductive Passed (sites : Sites) : Site → Buffer → Buffer → Prop
  | own (frame : Buffer) : Passed sites .server frame frame
  | relayed (id : UUID) {frame out : Buffer} : sites.server.permissiveMode = true →
      out.bytes.length = frame.bytes.length →
      (sites.server.transparentOperation = true → out.bytes = frame.bytes) →
      Passed sites (.client id) frame out

/-- The frame with this number was captured at this site. -/
def CapturedAs (acts : List Act) (capture : Nat) (site : Site) (frame : Buffer) : Prop :=
  (captured acts)[capture]? = some (site, frame)

/-- What is on its way, and what was handled, goes back to a captured frame. -/
structure Traced (sites : Sites) (acts : List Act) (n : State) : Prop where
  captures : n.captures = (captured acts).length
  up : ∀ message capture, (message, capture) ∈ n.up → ∃ id frame,
    CapturedAs acts capture (.client id) frame ∧ message = clientMessage id frame.bytes
  down : ∀ message capture, (message, capture) ∈ n.down → ∃ client out site frame,
    CapturedAs acts capture site frame ∧ Passed sites site frame out ∧
      message = serverMessage client out.bytes
  received : ∀ id capture f events, .receive id capture f events ∈ acts → ∃ frame,
    CapturedAs acts capture (.client id) frame ∧ f.bytes = frame.bytes
  delivered : ∀ id capture f events, .deliver id capture f events ∈ acts → ∃ site frame out,
    CapturedAs acts capture site frame ∧ Passed sites site frame out ∧ f.bytes = out.bytes

theorem captured_append (acts acts' : List Act) : captured (acts ++ acts') = captured acts ++ captured acts' :=
  List.filterMap_append

theorem CapturedAs.append {acts : List Act} {capture : Nat} {site : Site} {frame : Buffer}
    (h : CapturedAs acts capture site frame) (acts' : List Act) :
    CapturedAs (acts ++ acts') capture site frame := by
  unfold CapturedAs at h ⊢
  obtain ⟨hlt, -⟩ := List.getElem?_eq_some_iff.mp h
  rw [captured_append, List.getElem?_append_left hlt, h]

/-- The frame captured last has the next number. -/
theorem CapturedAs.last {acts : List Act} (site : Site) (f : Buffer) (events : List Event) :
    CapturedAs (acts ++ [.capture site f events]) (captured acts).length site f := by
  unfold CapturedAs
  rw [captured_append]
  exact List.getElem?_concat_length

/-- What was handled before the last step is accounted for by what was before it. -/
theorem Traced.snoc {sites : Sites} {acts : List Act} {n n' : State} {act : Act} (hn : Traced sites acts n)
    (hcaptures : n'.captures = (captured (acts ++ [act])).length)
    (hup : ∀ message capture, (message, capture) ∈ n'.up → (message, capture) ∈ n.up ∨ ∃ id frame,
      CapturedAs (acts ++ [act]) capture (.client id) frame ∧ message = clientMessage id frame.bytes)
    (hdown : ∀ message capture, (message, capture) ∈ n'.down → (message, capture) ∈ n.down ∨
      ∃ client out site frame, CapturedAs (acts ++ [act]) capture site frame ∧
        Passed sites site frame out ∧ message = serverMessage client out.bytes)
    (hreceived : ∀ id capture f events, act = .receive id capture f events → ∃ frame,
      CapturedAs acts capture (.client id) frame ∧ f.bytes = frame.bytes)
    (hdelivered : ∀ id capture f events, act = .deliver id capture f events → ∃ site frame out,
      CapturedAs acts capture site frame ∧ Passed sites site frame out ∧ f.bytes = out.bytes) :
    Traced sites (acts ++ [act]) n' where
  captures := hcaptures
  up message capture hmem := by
    rcases hup message capture hmem with hold | hnew
    · obtain ⟨id, frame, hcaptured, hmessage⟩ := hn.up message capture hold
      exact ⟨id, frame, hcaptured.append _, hmessage⟩
    · exact hnew
  down message capture hmem := by
    rcases hdown message capture hmem with hold | hnew
    · obtain ⟨client, out, site, frame, hcaptured, hpassed, hmessage⟩ := hn.down message capture hold
      exact ⟨client, out, site, frame, hcaptured.append _, hpassed, hmessage⟩
    · exact hnew
  received id capture f events hmem := by
    have hsource : ∃ frame, CapturedAs acts capture (.client id) frame ∧ f.bytes = frame.bytes := by
      rcases List.mem_append.mp hmem with hold | hlast
      · exact hn.received id capture f events hold
      · exact hreceived id capture f events (List.mem_singleton.mp hlast).symm
    obtain ⟨frame, hcaptured, hbytes⟩ := hsource
    exact ⟨frame, hcaptured.append _, hbytes⟩
  delivered id capture f events hmem := by
    have hsource : ∃ site frame out, CapturedAs acts capture site frame ∧ Passed sites site frame out ∧
        f.bytes = out.bytes := by
      rcases List.mem_append.mp hmem with hold | hlast
      · exact hn.delivered id capture f events hold
      · exact hdelivered id capture f events (List.mem_singleton.mp hlast).symm
    obtain ⟨site, frame, out, hcaptured, hpassed, hbytes⟩ := hsource
    exact ⟨site, frame, out, hcaptured.append _, hpassed, hbytes⟩

/-- What is queued for the clients is the frame that is sent. -/
theorem mem_addressed {router : ZeroMQServer} (hclients : router.clients.Nodup) {events : List Event}
    {buffer : Buffer} (hsends : sends events = [] ∨ sends events = [buffer]) {number : Nat}
    {message : List (List UInt8)} {capture : Nat}
    (hmem : (message, capture) ∈ addressed number (queued router events)) :
    sends events = [buffer] ∧ capture = number ∧ ∃ client, message = serverMessage client buffer.bytes := by
  obtain ⟨pair, hpair, heq⟩ := List.mem_map.mp hmem
  rcases hsends with hnone | hone
  · rw [queued_of_sends_nil router hnone] at hpair
    cases hpair
  · obtain ⟨hmessage, hcapture⟩ := Prod.mk.inj heq
    refine ⟨hone, hcapture.symm, pair.1, ?_⟩
    rw [← hmessage, (copies_queued hclients hone).buffer pair hpair]

theorem length_bytes (f : Buffer) : f.bytes.length = f.length :=
  length_bytesAt _ _ _

theorem Traced.step {sites : Sites} {acts : List Act} {n n' : State} {act : Act}
    (hn : Traced sites acts n) (hclients : n.router.clients.Nodup) (hstep : Step sites n act n') :
    Traced sites (acts ++ [act]) n' := by
  cases hstep with
  | @captureServer f events t hencode =>
      refine hn.snoc ?_ (fun _ _ => .inl) ?_ (by rintro _ _ _ _ ⟨⟩) (by rintro _ _ _ _ ⟨⟩)
      · rw [captured_append, List.length_append, ← hn.captures]
        rfl
      · intro message capture hmem
        refine (List.mem_append.mp hmem).imp_right fun hnew => ?_
        obtain ⟨-, rfl, client, hmessage⟩ := mem_addressed hclients (sends_encodePacket hencode) hnew
        refine ⟨client, f, .server, f, ?_, .own f, hmessage⟩
        rw [hn.captures]
        exact .last .server f events
  | @captureClient id f events t hencode =>
      refine hn.snoc ?_ ?_ (fun _ _ => .inl) (by rintro _ _ _ _ ⟨⟩) (by rintro _ _ _ _ ⟨⟩)
      · rw [captured_append, List.length_append, ← hn.captures]
        rfl
      · intro message capture hmem
        refine (List.mem_append.mp hmem).imp_right fun hnew => ?_
        obtain ⟨buffer, hbuffer, heq⟩ := List.mem_map.mp hnew
        obtain ⟨rfl, rfl⟩ := Prod.mk.inj heq
        have hf : buffer = f := by
          rcases sends_encodePacket hencode with hnone | hone
          · rw [hnone] at hbuffer
            cases hbuffer
          · rw [hone, List.mem_singleton] at hbuffer
            exact hbuffer
        rw [hf, hn.captures]
        exact ⟨id, f, .last (.client id) f events, rfl⟩
  | @receive message capture before after id payload f events t hup hmessage hbytes hdecode =>
      have hmem : (message, capture) ∈ n.up := by
        rw [hup]
        exact List.mem_append_right _ List.mem_cons_self
      obtain ⟨id', frame, hcaptured, hframe⟩ := hn.up message capture hmem
      rw [hframe, clientMessage, receiveNextBuffer, connectionID_identity, Option.some.injEq,
        Prod.mk.injEq] at hmessage
      obtain ⟨rfl, rfl⟩ := hmessage
      refine hn.snoc ?_ ?_ ?_ ?_ (by rintro _ _ _ _ ⟨⟩)
      · rw [captured_append, List.length_append, ← hn.captures]
        rfl
      · intro message' capture' hmem'
        left
        rw [hup]
        rcases List.mem_append.mp hmem' with hbefore | hafter
        · exact List.mem_append_left _ hbefore
        · exact List.mem_append_right _ (List.mem_cons_of_mem _ hafter)
      · intro message' capture' hmem'
        refine (List.mem_append.mp hmem').imp_right fun hnew => ?_
        rcases sends_decodePacket hdecode with hnone | ⟨out, hpermissive, -, hsent, hlength, htransparent⟩
        · rw [queued_of_sends_nil n.router hnone] at hnew
          cases hnew
        · obtain ⟨-, rfl, client, hmessage⟩ := mem_addressed hclients (.inr hsent) hnew
          refine ⟨client, out, .client id', frame, hcaptured.append _, ?_, hmessage⟩
          refine .relayed id' hpermissive ?_ fun h => ?_
          · rw [← hbytes, length_bytes, length_bytes, hlength]
          · rw [htransparent h, hbytes]
      · rintro _ _ _ _ ⟨⟩
        exact ⟨frame, hcaptured, hbytes⟩
  | @deliver id frames capture before after payload f events t hdown hframes hbytes hdecode =>
      have hmem : (identity id modeR :: frames, capture) ∈ n.down := by
        rw [hdown]
        exact List.mem_append_right _ List.mem_cons_self
      obtain ⟨client, out, site, frame, hcaptured, hpassed, hmessage⟩ := hn.down _ capture hmem
      obtain ⟨-, rfl⟩ := List.cons.inj hmessage
      rw [receiveData, Option.some.injEq] at hframes
      refine hn.snoc ?_ ?_ ?_ (by rintro _ _ _ _ ⟨⟩) ?_
      · rw [captured_append, List.length_append, ← hn.captures]
        rfl
      · intro message' capture' hmem'
        refine (List.mem_append.mp hmem').imp_right fun hnew => ?_
        rw [sends_of_client hdecode] at hnew
        cases hnew
      · intro message' capture' hmem'
        left
        rw [hdown]
        rcases List.mem_append.mp hmem' with hbefore | hafter
        · exact List.mem_append_left _ hbefore
        · exact List.mem_append_right _ (List.mem_cons_of_mem _ hafter)
      · rintro _ _ _ _ ⟨⟩
        exact ⟨site, frame, out, hcaptured, hpassed, hbytes.trans hframes.symm⟩
  | timerServer =>
      refine hn.snoc ?_ (fun _ _ => .inl) (fun _ _ => .inl) (by rintro _ _ _ _ ⟨⟩) (by rintro _ _ _ _ ⟨⟩)
      rw [captured_append, List.length_append, ← hn.captures]
      rfl
  | timerClient =>
      refine hn.snoc ?_ (fun _ _ => .inl) (fun _ _ => .inl) (by rintro _ _ _ _ ⟨⟩) (by rintro _ _ _ _ ⟨⟩)
      rw [captured_append, List.length_append, ← hn.captures]
      rfl
  | greet =>
      refine hn.snoc ?_ (fun _ _ => .inl) (fun _ _ => .inl) (by rintro _ _ _ _ ⟨⟩) (by rintro _ _ _ _ ⟨⟩)
      rw [captured_append, List.length_append, ← hn.captures]
      rfl
  | expire =>
      refine hn.snoc ?_ (fun _ _ => .inl) (fun _ _ => .inl) (by rintro _ _ _ _ ⟨⟩) (by rintro _ _ _ _ ⟨⟩)
      rw [captured_append, List.length_append, ← hn.captures]
      rfl
  | lose hup hdown =>
      refine hn.snoc ?_ (fun _ _ hmem => .inl (hup.subset hmem)) (fun _ _ hmem => .inl (hdown.subset hmem))
        (by rintro _ _ _ _ ⟨⟩) (by rintro _ _ _ _ ⟨⟩)
      rw [captured_append, List.length_append, ← hn.captures]
      rfl

theorem refines_traced {sites : Sites} {acts : List Act} {n : State} (hrun : Runs sites acts n) :
    Refines acts n ∧ Traced sites acts n := by
  refine hrun.history_invariant (fun acts n => Refines acts n ∧ Traced sites acts n) ⟨?_, ?_⟩ ?_
  · exact ⟨List.nodup_nil, [], .nil, rfl, rfl⟩
  · exact ⟨rfl, fun _ _ hmem => absurd hmem List.not_mem_nil, fun _ _ hmem => absurd hmem List.not_mem_nil,
      fun _ _ _ _ hmem => absurd hmem List.not_mem_nil, fun _ _ _ _ hmem => absurd hmem List.not_mem_nil⟩
  · intro acts n act n' _ hn hstep
    exact ⟨hn.1.step hstep, hn.2.step hn.1.clients hstep⟩

/-- Each captured frame is handled by the server at most once and by every client at most once. -/
theorem handled_once {sites : Sites} {acts : List Act} {n : State} (hrun : Runs sites acts n) :
    (received acts).Nodup ∧ (delivered acts).Nodup := by
  obtain ⟨moves, hmoves, hrelays, hdeliveries⟩ := (refines_traced hrun).1.moves
  rw [← hrelays, ← hdeliveries]
  exact Lib.Star.once hmoves

/-- The server handles for a connection what the client of that connection captured. A client handles
what the server captured, and what another client captured only if the server is permissive. -/
theorem handled_captured {sites : Sites} {acts : List Act} {n : State} (hrun : Runs sites acts n) :
    (∀ id capture f events, .receive id capture f events ∈ acts → ∃ frame,
      CapturedAs acts capture (.client id) frame ∧ f.bytes = frame.bytes) ∧
    (∀ id capture f events, .deliver id capture f events ∈ acts → ∃ site frame out,
      CapturedAs acts capture site frame ∧ Passed sites site frame out ∧ f.bytes = out.bytes) :=
  ⟨(refines_traced hrun).2.received, (refines_traced hrun).2.delivered⟩

/-- In transparent operation what is injected is what was received. -/
theorem injected_of_transparent {cfg : Config} {t t' : Tables} {id : UUID} {f out : Buffer}
    {events : List Event} (htransparent : cfg.transparentOperation = true)
    (hstep : Proxy.Step cfg t (.decodePacket id f, events) t') (hout : .injected out ∈ events) : out = f := by
  obtain ⟨out', quiet, rest, rfl, hquiet, hrest, -, hsame⟩ := decodePacket_handsOn hstep
  rcases List.mem_append.mp hout with hmem | hmem
  · have hloud := hquiet _ hmem
    cases hloud
  · rw [← hsame htransparent]
    cases hrest with
    | nothing => cases hmem
    | injects => exact Event.injected.inj (List.mem_singleton.mp hmem)
    | sendsToAll _ _ =>
        rcases List.mem_cons.mp hmem with heq | hmem
        · cases heq
        · exact Event.injected.inj (List.mem_singleton.mp hmem)
    | sendsTo connectionID _ _ =>
        have heq := List.mem_singleton.mp hmem
        cases heq

/-- A label of a run stands for a step of it. -/
theorem step_of_mem {sites : Sites} {acts : List Act} {n : State} (hrun : Runs sites acts n) {act : Act}
    (hmem : act ∈ acts) : ∃ mid mid', Step sites mid act mid' := by
  obtain ⟨before, after, rfl⟩ := List.append_of_mem hmem
  obtain ⟨mid, mid', -, hstep⟩ := hrun.at_step
  exact ⟨mid, mid', hstep⟩

/-- **In a network in transparent operation only captured frames are injected.** Every frame that a proxy injects
while it handles a message is, byte for byte, a frame captured somewhere: with the number it was handled under.
A capture and a timer inject nothing. -/
theorem injected_captured {sites : Sites} (hserver : sites.server.transparentOperation = true)
    (hclients : ∀ id, (sites.client id).transparentOperation = true) {acts : List Act} {n : State}
    (hrun : Runs sites acts n) :
    (∀ id capture f events out, .receive id capture f events ∈ acts → out ∈ events.filterMap Event.injection →
      ∃ frame, CapturedAs acts capture (.client id) frame ∧ out.bytes = frame.bytes) ∧
    (∀ id capture f events out, .deliver id capture f events ∈ acts → out ∈ events.filterMap Event.injection →
      ∃ site frame, CapturedAs acts capture site frame ∧ out.bytes = frame.bytes) ∧
    (∀ site f events, .capture site f events ∈ acts → events.filterMap Event.injection = []) ∧
    (∀ site events, .timer site events ∈ acts → events.filterMap Event.injection = []) := by
  obtain ⟨hreceived, hdelivered⟩ := handled_captured hrun
  refine ⟨?_, ?_, ?_, ?_⟩
  · intro id capture f events out hmem hout
    obtain ⟨frame, hcaptured, hbytes⟩ := hreceived id capture f events hmem
    obtain ⟨mid, mid', hstep⟩ := step_of_mem hrun hmem
    cases hstep with
    | receive _ _ _ hdecode =>
        rw [injected_of_transparent hserver hdecode (injection_of_transparent hserver hdecode hout)]
        exact ⟨frame, hcaptured, hbytes⟩
  · intro id capture f events out hmem hout
    obtain ⟨site, frame, out', hcaptured, hpassed, hbytes⟩ := hdelivered id capture f events hmem
    obtain ⟨mid, mid', hstep⟩ := step_of_mem hrun hmem
    cases hstep with
    | deliver _ _ _ hdecode =>
        rw [injected_of_transparent (hclients id) hdecode (injection_of_transparent (hclients id) hdecode hout)]
        refine ⟨site, frame, hcaptured, hbytes.trans ?_⟩
        cases hpassed with
        | own _ => rfl
        | relayed _ _ _ hsame => exact hsame hserver
  · intro site f events hmem
    obtain ⟨mid, mid', hstep⟩ := step_of_mem hrun hmem
    cases hstep with
    | captureServer hencode => exact injection_of_encode (by rintro _ _ ⟨⟩) hencode
    | captureClient hencode => exact injection_of_encode (by rintro _ _ ⟨⟩) hencode
  · intro site events hmem
    obtain ⟨mid, mid', hstep⟩ := step_of_mem hrun hmem
    have hdecode (op : Op) (htimer : IsTimer op) (id : UUID) (f : Buffer) : op ≠ .decodePacket id f := by
      rintro rfl
      rcases htimer with h | h <;> cases h
    cases hstep with
    | timerServer htimer htick => exact injection_of_encode (hdecode _ htimer) htick
    | timerClient htimer htick => exact injection_of_encode (hdecode _ htimer) htick

/-! ### A frame from a client -/

/-- A permissive server and its clients. -/
def permissive (transparentOperation : Bool) : Sites where
  server := { translatingServer with transparentOperation }
  client := fun _ => { translatingServer with transparentOperation, serverMode := false }
  server_mode := rfl
  client_mode := fun _ => rfl

/-- A client captures a multicast packet and the server handles it. -/
theorem runs_multicast (transparentOperation : Bool) : ∃ events events' n,
    Runs (permissive transparentOperation)
      [.capture (.client (.replicate 3)) multicast events, .receive (.replicate 3) 0 multicast events'] n := by
  have hsome : (decodePacket 2 (permissive transparentOperation).server (fun _ => 0) .empty (.replicate 3)
      multicast).isSome = true := by
    cases transparentOperation <;> rfl
  obtain ⟨h, hdecode⟩ := Option.isSome_iff_exists.mp hsome
  have hencode : Proxy.Step ((permissive transparentOperation).client (.replicate 3)) .empty
      (.encodePacket multicast, _) _ := Proxy.Step.encodePacket (fun _ => 0) Tables.empty multicast
  have hcapture : Step (permissive transparentOperation) start
      (.capture (.client (.replicate 3)) multicast _) _ := Step.captureClient hencode
  have hup : start.up ++ offered (.replicate 3) start.captures
      (sends (encodePacket ((permissive transparentOperation).client (.replicate 3)) (fun _ => 0) .empty
        multicast).2)
      = [] ++ (clientMessage (.replicate 3) multicast.bytes, 0) :: [] := by
    cases transparentOperation <;> rfl
  have hmessage : receiveNextBuffer (clientMessage (.replicate 3) multicast.bytes)
      = some (.replicate 3, multicast.bytes) := by
    rw [clientMessage, receiveNextBuffer, connectionID_identity]
  exact ⟨_, _, _, (Lib.Run.single hcapture).snoc
    (Step.receive hup hmessage rfl (Proxy.Step.decodePacket hdecode))⟩

theorem handled_once_multicast : ∃ acts n, Runs (permissive false) acts n ∧ received acts = [0] ∧
    (received acts).Nodup ∧ (delivered acts).Nodup := by
  obtain ⟨events, events', n, hrun⟩ := runs_multicast false
  exact ⟨_, n, hrun, rfl, handled_once hrun⟩

theorem handled_captured_multicast : ∃ acts n events, Runs (permissive false) acts n ∧
    Act.receive (.replicate 3) 0 multicast events ∈ acts ∧
    ∃ frame, CapturedAs acts 0 (.client (.replicate 3)) frame ∧ multicast.bytes = frame.bytes := by
  obtain ⟨events, events', n, hrun⟩ := runs_multicast false
  have hmem : Act.receive (.replicate 3) 0 multicast events' ∈
      [Act.capture (.client (.replicate 3)) multicast events, .receive (.replicate 3) 0 multicast events'] :=
    List.mem_cons_of_mem _ List.mem_cons_self
  exact ⟨_, n, events', hrun, hmem, (handled_captured hrun).1 _ _ _ _ hmem⟩

theorem injected_captured_multicast : ∃ acts n, Runs (permissive true) acts n ∧ received acts = [0] ∧
    ∀ id capture f events out, .receive id capture f events ∈ acts → out ∈ events.filterMap Event.injection →
      ∃ frame, CapturedAs acts capture (.client id) frame ∧ out.bytes = frame.bytes := by
  obtain ⟨events, events', n, hrun⟩ := runs_multicast true
  exact ⟨_, n, hrun, rfl, (injected_captured rfl (fun _ => rfl) hrun).1⟩

end Armore.Proxy.Network
