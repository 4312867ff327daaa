import Armore.Lib.Outstanding
import Armore.Proxy.Step

/-!
# Resolution of hardware addresses

The two maps of the packet processor never hold the same address, the IP table holds valid addresses
only, and while an address is pending the decode path does not ask for it again. All of this is kept by
every step, so it holds after every run. The counting law comes from `Lib.Outstanding`: what the decode
path does about one address is a legal sequence of asking, using and settling, and the bit of that
protocol is "the address is pending".
-/

namespace Armore.Proxy

open Tables Armore.Lib Armore.Lib.Outstanding

/-! ### The two maps -/

/-- What holds of the two maps after every step. -/
structure Consistent (cfg : Config) (t : Tables) : Prop where
  valid : ∀ ip, t.binding ip ≠ none → ip.isValid cfg.ipv4Netmask = true
  disjoint : ∀ ip, t.binding ip ≠ none → t.pendingIPMacRequestExists ip = false

theorem Consistent.empty (cfg : Config) : Consistent cfg Tables.empty :=
  ⟨fun _ h => absurd rfl h, fun _ h => absurd rfl h⟩

theorem Consistent.of_sameEntries {cfg : Config} {t t' : Tables} (h : Consistent cfg t)
    (hsame : SameEntries t t') : Consistent cfg t' where
  valid ip hip := h.valid ip (by rwa [hsame.binding] at hip)
  disjoint ip hip := by
    rw [hsame.pending]
    exact h.disjoint ip (by rwa [hsame.binding] at hip)

theorem Consistent.updateIPTable {cfg : Config} {t : Tables} (h : Consistent cfg t) (ip : IPAddress)
    (etherMac : Memory) (connectionID : UUID) (now : Int) :
    Consistent cfg (updateIPTable cfg t ip etherMac connectionID now).1 where
  valid other hother := by
    rw [binding_updateIPTable] at hother
    split at hother
    · rename_i hlearn
      rw [hlearn.1]
      exact hlearn.2.1
    · exact h.valid other hother
  disjoint other hother := by
    rw [binding_updateIPTable] at hother
    rw [pendingIPMacRequestExists_updateIPTable]
    split at hother
    · rename_i hlearn
      obtain ⟨rfl, hvalid, _⟩ := hlearn
      split
      · rfl
      · rename_i hold
        exact h.disjoint _ fun hnone => hold ⟨rfl, hvalid, hnone⟩
    · split
      · rfl
      · exact h.disjoint other hother

theorem Consistent.outcome {cfg : Config} {t t' : Tables} {destination : IPAddress}
    {rest : List Event} (h : Consistent cfg t) (houtcome : Outcome t destination t' rest) :
    Consistent cfg t' := by
  cases houtcome with
  | passed hsame => exact h.of_sameEntries hsame
  | discarded _ hsame => exact h.of_sameEntries hsame
  | dropped hsame _ => exact h.of_sameEntries hsame
  | requested _ hunknown _ hbinding hpending =>
      refine ⟨fun ip hip => h.valid ip (by rwa [hbinding] at hip), fun ip hip => ?_⟩
      rw [hbinding] at hip
      -- the new pending address has no entry, so it is not `ip`
      have hne : ip ≠ destination := fun heq => hip (heq ▸ hunknown)
      rw [hpending, decide_eq_false hne, Bool.false_or, h.disjoint ip hip]

/-- Every step keeps the maps consistent. -/
theorem Consistent.step {cfg : Config} {t t' : Tables} {label : Op × List Event}
    (h : Consistent cfg t) (hstep : Step cfg t label t') : Consistent cfg t' := by
  obtain ⟨op, events⟩ := label
  rcases step_cases hstep with ⟨_, rfl, _⟩ | ⟨source, etherMac, connectionID, time, destination, rest,
    delivery, _, _, _, houtcome⟩ | ⟨_, _, time, rfl⟩ | ⟨_, time, rfl, _⟩
  · exact h
  · exact (h.updateIPTable source etherMac connectionID time).outcome houtcome
  · have hkept : ∀ ip, (checkActiveIPAddresses cfg t time).binding ip ≠ none →
        t.binding ip ≠ none := fun ip hip => by
      rcases binding_checkActiveIPAddresses cfg t time ip with heq | heq
      · exact absurd heq hip
      · rwa [heq] at hip
    exact ⟨fun ip hip => h.valid ip (hkept ip hip), fun ip hip => h.disjoint ip (hkept ip hip)⟩
  · refine ⟨h.valid, fun ip hip => ?_⟩
    rw [pendingIPMacRequestExists_checkPendingIPMacRequests, h.disjoint ip hip, Bool.false_and]

/-- After every run the maps are consistent. -/
theorem Consistent.of_runs {cfg : Config} {labels : List (Op × List Event)} {t : Tables}
    (hrun : Runs cfg labels t) : Consistent cfg t :=
  hrun.invariant (Consistent cfg) (.empty cfg) fun _ _ _ h hstep => h.step hstep

/-! ### One request at a time -/

/-- What an event is in the protocol about the address `ip`. -/
def Event.act (ip : IPAddress) : Event → Option Act
  | .requested other _ => if other = ip then some .ask else none
  | .dropped other => if other = ip then some .use else none
  | .settled other => if other = ip then some .settle else none
  | .discarded _ | .injected _ | .sentToAll _ | .sentTo _ _ => none

theorem act_of_isDelivery {ip : IPAddress} {delivery : List Event}
    (hdelivery : ∀ event ∈ delivery, event.isDelivery = true) :
    delivery.filterMap (Event.act ip) = [] := by
  rw [List.filterMap_eq_nil_iff]
  intro event hevent
  have h := hdelivery event hevent
  cases event <;> first | rfl | cases h

/-- Learning a source settles the request for it. -/
theorem play_updateIPTable (cfg : Config) (t : Tables) (source ip : IPAddress) (etherMac : Memory)
    (connectionID : UUID) (now : Int) :
    play (t.pendingIPMacRequestExists ip)
        ((updateIPTable cfg t source etherMac connectionID now).2.filterMap (Event.act ip))
      = some ((updateIPTable cfg t source etherMac connectionID now).1.pendingIPMacRequestExists ip) := by
  rw [updateIPTable_events, pendingIPMacRequestExists_updateIPTable]
  by_cases hnew : source.isValid cfg.ipv4Netmask = true ∧ t.binding source = none
  · by_cases hip : ip = source
    · subst hip
      cases hpending : t.pendingIPMacRequestExists ip <;> simp [hnew, Event.act, play, advance]
    · have hip' : ¬ source = ip := fun heq => hip heq.symm
      by_cases hpending : t.pendingIPMacRequestExists source = true <;>
        simp [hnew, hip, hip', hpending, Event.act, play]
  · have hnever : ¬ (source.isValid cfg.ipv4Netmask = true ∧ t.binding source = none
        ∧ t.pendingIPMacRequestExists source = true) := fun h => hnew ⟨h.1, h.2.1⟩
    rw [if_neg hnever, if_neg fun h => hnew h.2]
    rfl

theorem play_outcome {t t' : Tables} {destination : IPAddress} {rest : List Event} (ip : IPAddress)
    (houtcome : Outcome t destination t' rest) :
    play (t.pendingIPMacRequestExists ip) (rest.filterMap (Event.act ip))
      = some (t'.pendingIPMacRequestExists ip) := by
  cases houtcome with
  | passed hsame => rw [hsame.pending]; rfl
  | discarded _ hsame => rw [hsame.pending]; rfl
  | dropped hsame hpending =>
      rw [hsame.pending]
      by_cases hip : destination = ip
      · subst hip
        simp [Event.act, hpending, play, advance]
      · simp [Event.act, hip, play]
  | requested _ _ hidle _ hpending =>
      rw [hpending]
      by_cases hip : destination = ip
      · subst hip
        simp [Event.act, hidle, play, advance]
      · simp [Event.act, hip, Ne.symm hip, play]

/-- The removal of distinct addresses settles each of them once. -/
theorem act_settled {keys : List IPAddress} (hnodup : keys.Nodup) (ip : IPAddress) :
    (keys.map Event.settled).filterMap (Event.act ip) = if ip ∈ keys then [.settle] else [] := by
  induction keys with
  | nil => rfl
  | cons key keys ih =>
      rw [List.nodup_cons] at hnodup
      by_cases hip : key = ip
      · subst hip
        simp [Event.act, ih hnodup.2, hnodup.1]
      · simp [Event.act, ih hnodup.2, hip, Ne.symm hip]

theorem play_checkPendingIPMacRequests (cfg : Config) (t : Tables) (now : Int) (ip : IPAddress) :
    play (t.pendingIPMacRequestExists ip)
        ((checkPendingIPMacRequests cfg t now).2.filterMap (Event.act ip))
      = some ((checkPendingIPMacRequests cfg t now).1.pendingIPMacRequestExists ip) := by
  rw [pendingIPMacRequestExists_checkPendingIPMacRequests, checkPendingIPMacRequests,
    act_settled (Table.keysWhere_nodup _ _)]
  by_cases hexpired : ip ∈ t.pendingIPMacRequests.keysWhere (requestExpired cfg now)
  · obtain ⟨value, hget, _⟩ := Table.mem_keysWhere.mp hexpired
    have hpending : t.pendingIPMacRequestExists ip = true := by
      rw [pendingIPMacRequestExists, hget]
      rfl
    simp [hexpired, hpending, play, advance]
  · simp [hexpired, play]

/-- One step is a legal continuation of the protocol about `ip`. -/
theorem play_step {cfg : Config} {t t' : Tables} {op : Op} {events : List Event} (ip : IPAddress)
    (hstep : Step cfg t (op, events) t') :
    play (t.pendingIPMacRequestExists ip) (events.filterMap (Event.act ip))
      = some (t'.pendingIPMacRequestExists ip) := by
  rcases step_cases hstep with ⟨_, rfl, rfl⟩ | ⟨source, etherMac, connectionID, time, destination,
    rest, delivery, _, hdelivery, rfl, houtcome⟩ | ⟨_, rfl, time, rfl⟩ | ⟨_, time, rfl, rfl⟩
  · rfl
  · rw [List.filterMap_append, List.filterMap_append, act_of_isDelivery hdelivery, List.append_nil,
      play_append, play_updateIPTable, Option.bind_some, play_outcome ip houtcome]
  · rfl
  · exact play_checkPendingIPMacRequests cfg t time ip

/-- The events of a run, in order. -/
def history (labels : List (Op × List Event)) : List Event := labels.flatMap Prod.snd

theorem play_runs {cfg : Config} {labels : List (Op × List Event)} {t : Tables} (ip : IPAddress)
    (hrun : Runs cfg labels t) :
    play false ((history labels).filterMap (Event.act ip))
      = some (t.pendingIPMacRequestExists ip) := by
  refine hrun.history_invariant (fun labels t => play false ((history labels).filterMap (Event.act ip))
    = some (t.pendingIPMacRequestExists ip)) rfl ?_
  rintro labels t ⟨op, events⟩ t' _ ih hstep
  rw [history, List.flatMap_append, List.filterMap_append, play_append, ← history, ih,
    Option.bind_some, List.flatMap_cons, List.flatMap_nil, List.append_nil]
  exact play_step ip hstep

/-! ### Counting -/

/-- A resolution request for `ip` is injected. -/
def Event.isRequestFor (ip : IPAddress) : Event → Bool
  | .requested other _ => decide (other = ip)
  | .settled _ | .dropped _ | .discarded _ | .injected _ | .sentToAll _ | .sentTo _ _ => false

theorem count_ask_act (ip : IPAddress) (events : List Event) :
    (events.filterMap (Event.act ip)).count .ask = events.countP (·.isRequestFor ip) := by
  induction events with
  | nil => rfl
  | cons event events ih =>
      rw [List.filterMap_cons, List.countP_cons, ← ih]
      cases event with
      | requested other _ | dropped other | settled other =>
          by_cases hip : other = ip <;> simp [Event.act, Event.isRequestFor, hip]
      | discarded _ | injected _ | sentToAll _ | sentTo _ _ =>
          simp [Event.act, Event.isRequestFor]

theorem settle_notMem_act {ip : IPAddress} {events : List Event} (hopen : .settled ip ∉ events) :
    .settle ∉ events.filterMap (Event.act ip) := by
  rw [List.mem_filterMap]
  rintro ⟨event, hevent, hact⟩
  cases event <;> simp only [Event.act, reduceCtorEq] at hact <;> split at hact <;> cases hact
  rename_i hip
  exact hopen (hip ▸ hevent)

theorem use_mem_act {ip : IPAddress} {events : List Event} (hdropped : .dropped ip ∈ events) :
    .use ∈ events.filterMap (Event.act ip) :=
  List.mem_filterMap.mpr ⟨_, hdropped, if_pos rfl⟩

/-- In every run, between two consecutive removals of an address from the pending requests it is asked
for once. -/
theorem one_request_between_removals {cfg : Config} {labels : List (Op × List Event)} {t : Tables}
    (hrun : Runs cfg labels t) {ip : IPAddress} {pre mid post : List Event}
    (hhistory : history labels = pre ++ .settled ip :: (mid ++ .settled ip :: post))
    (hopen : .settled ip ∉ mid) : mid.countP (·.isRequestFor ip) = 1 := by
  have hplay := play_runs ip hrun
  have hsettled : Event.act ip (.settled ip) = some .settle := if_pos rfl
  rw [hhistory, List.filterMap_append, List.filterMap_cons_some hsettled, List.filterMap_append,
    List.filterMap_cons_some hsettled] at hplay
  rw [← count_ask_act]
  exact count_ask_between hplay (settle_notMem_act hopen)

/-- **After every run, no address is a key of both maps and every key of the IP table is valid; and in
every stretch of the run that starts where nothing is pending for an address and does not remove it from
the pending requests, the address is asked for at most once, and exactly once if a packet for it is
dropped.** A stretch between two consecutive removals is one of these. -/
theorem resolution_invariant {cfg : Config} {labels : List (Op × List Event)} {t : Tables}
    (hrun : Runs cfg labels t) (ip : IPAddress) :
    ¬ (ip ∈ t.ipTable ∧ ip ∈ t.pendingIPMacRequests)
      ∧ (ip ∈ t.ipTable → ip.isValid cfg.ipv4Netmask = true)
      ∧ ∀ pre mid post, history labels = pre ++ mid ++ post → .settled ip ∉ mid →
        (pre = [] ∨ ∃ before, pre = before ++ [.settled ip]) →
          mid.countP (·.isRequestFor ip) ≤ 1
            ∧ (.dropped ip ∈ mid → mid.countP (·.isRequestFor ip) = 1) := by
  have hconsistent := Consistent.of_runs hrun
  refine ⟨?_, ?_, ?_⟩
  · rintro ⟨htable, hpending⟩
    rw [mem_ipTable] at htable
    rw [mem_pendingIPMacRequests, hconsistent.disjoint ip htable] at hpending
    cases hpending
  · rw [mem_ipTable]
    exact hconsistent.valid ip
  · intro pre mid post hhistory hopen hstart
    have hplay := play_runs ip hrun
    rw [hhistory, List.filterMap_append, List.filterMap_append, List.append_assoc] at hplay
    -- at the start of the stretch no request is out
    have hidle : ∃ out, play false (mid.filterMap (Event.act ip)) = some out := by
      rcases hstart with rfl | ⟨before, rfl⟩
      · rw [List.filterMap_nil, List.nil_append] at hplay
        obtain ⟨out, hmid, _⟩ := play_append_some hplay
        exact ⟨out, hmid⟩
      · have hsettled : [Event.settled ip].filterMap (Event.act ip) = [.settle] := by
          simp [Event.act]
        rw [List.filterMap_append, hsettled, List.append_assoc, List.singleton_append] at hplay
        obtain ⟨_, _, hrest⟩ := play_append_some hplay
        obtain ⟨out, hmid, _⟩ := play_append_some (play_settle hrest)
        exact ⟨out, hmid⟩
    obtain ⟨out, hmid⟩ := hidle
    rw [← count_ask_act]
    exact ⟨count_ask_le_one hmid (settle_notMem_act hopen),
      fun hdropped => count_ask_of_use hmid (settle_notMem_act hopen) (use_mem_act hdropped)⟩

/-- An IPv4 packet that `10.0.0.5` sends to `10.0.0.9`. -/
def unresolved : Buffer :=
  .ofList (List.replicate 12 0xAA ++ [0x08, 0x00]
    ++ [0x45, 0, 0, 20, 0, 0, 0, 0, 64, 6, 0, 0] ++ [10, 0, 0, 5] ++ [10, 0, 0, 9]) (by decide)

/-- A run in which `10.0.0.9` is asked for: its packet comes before anything is known. -/
theorem resolution_invariant_unresolved :
    ∃ labels t, Runs translatingServer labels t
      ∧ (history labels).countP (·.isRequestFor (.ipv4 0x0900000A)) = 1
      ∧ ¬ (.ipv4 0x0900000A ∈ t.ipTable ∧ .ipv4 0x0900000A ∈ t.pendingIPMacRequests) := by
  have hasked : (decodePacket 2 translatingServer (fun _ => 0) .empty (.replicate 3) unresolved).map
      (fun h => h.events.countP (·.isRequestFor (.ipv4 0x0900000A))) = some 1 := by rfl
  obtain ⟨h, hdecode, hcount⟩ := Option.map_eq_some_iff.mp hasked
  have hrun : Runs translatingServer [(.decodePacket (.replicate 3) unresolved, h.events)] h.tables :=
    .single (.decodePacket hdecode)
  refine ⟨_, _, hrun, ?_, (resolution_invariant hrun _).1⟩
  rw [history, List.flatMap_cons, List.flatMap_nil, List.append_nil, hcount]

end Armore.Proxy
