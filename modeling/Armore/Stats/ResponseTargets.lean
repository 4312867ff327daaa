import Armore.Stats.Dispatch

/-!
# The targets of the responses

A connection of Modbus may have several transactions open, and a response is about the target of the
request with its own transaction identifier. The collector remembers one target for each connection, the
last one a request named. This module follows the table through any run of packets and says when the two
are the same.
-/

namespace Armore.StatsCol

open Lib

/-- What the analyzers find in a packet: a request or a response of Modbus with the calls of its own
handlers, or an event of DNP3. A request for records of a file calls its handler for each of them. -/
inductive Pdu
  | request (headers : ModbusHeaders) (calls : List ModbusRequest)
  | response (headers : ModbusHeaders) (calls : List ModbusResponse)
  | dnp3 (e : Dnp3Event)

/-- The events of a unit, the one of its header first. -/
def Pdu.events : Pdu → List Event
  | .request headers calls => .modbusMessage headers true :: calls.map .modbusRequest
  | .response headers calls => .modbusMessage headers false :: calls.map .modbusResponse
  | .dnp3 e => [.dnp3 e]

/-- What happens on a connection. -/
inductive Activity
  | packet (time : ℚ) (p : PktHdr)
  | pdu (unit : Pdu)

/-- The handlers of an activity. -/
def Activity.handle (config : Config) (c : Connection) (s : Globals) : Activity → Globals
  | .packet time p => (newPacket config.levels c time p s).globals
  | .pdu unit => (handleAll config c unit.events s).1

/-- What is found in a packet is handled while the packet is the current one. -/
inductive CollectorStep (config : Config) (s : Globals) : Connection × Activity → Globals → Prop
  | packet (c : Connection) (time : ℚ) (p : PktHdr) :
      CollectorStep config s (c, .packet time p) (Activity.handle config c s (.packet time p))
  | pdu {c : Connection} (unit : Pdu) : s.gConn = some c →
      CollectorStep config s (c, .pdu unit) (Activity.handle config c s (.pdu unit))

/-! ### The request of a response -/

/-- The calls of the last request of a transaction. -/
def request? (uid : Text) (tid : UInt64) (history : List (Connection × Activity)) :
    Option (List ModbusRequest) :=
  history.reverse.findSome? fun (c, a) =>
    match a with
    | .pdu (.request headers calls) => if c.uid = uid ∧ headers.tid = tid then some calls else none
    | _ => none

/-- The target that was named last on a connection. -/
def lastTarget? (uid : Text) (history : List (Connection × Activity)) : Option Text :=
  history.reverse.findSome? fun (c, a) =>
    match a with
    | .pdu (.request _ calls) => if c.uid = uid then calls.getLast?.map ModbusRequest.target else none
    | _ => none

/-- The target a request built for a call of its response: the records of a file are answered in their
order, and everything else is answered as a whole. -/
def Built (calls : List ModbusRequest) (response : ModbusResponse) (place : Nat) (target : Text) : Prop :=
  match response with
  | .fileRecord => calls[place]?.map ModbusRequest.target = some target
  | _ => target ∈ calls.map ModbusRequest.target

/-- The handler of a response meets no missing entry and stores the target built from its request, or none
when there was no such request. -/
def Attributed (history : List (Connection × Activity)) (c : Connection) (headers : ModbusHeaders)
    (response : ModbusResponse) (place : Nat) (s : Globals) : Prop :=
  let left := response.handle 6 s
  left.raised = none
    ∧ match request? c.uid headers.tid history with
      | none => left.globals.info?.bind Info.target = none
      | some calls => ∃ target, Built calls response place target
          ∧ left.globals.info?.bind Info.target = some target

/-- The request of the response was seen, and no other target was named on the connection since. -/
def OwnIsLast (history : List (Connection × Activity)) (c : Connection) (headers : ModbusHeaders)
    (response : ModbusResponse) (place : Nat) : Prop :=
  ∃ calls target, request? c.uid headers.tid history = some calls ∧ Built calls response place target
    ∧ lastTarget? c.uid history = some target

theorem lastTarget?_snoc (uid : Text) (history : List (Connection × Activity)) (c : Connection)
    (a : Activity) :
    lastTarget? uid (history ++ [(c, a)]) =
      (match a with
        | .pdu (.request _ calls) => if c.uid = uid then calls.getLast?.map ModbusRequest.target else none
        | _ => none).or (lastTarget? uid history) := by
  rw [lastTarget?, List.reverse_append, List.reverse_singleton, List.singleton_append, List.findSome?_cons]
  dsimp only
  split <;> simp_all [lastTarget?]

/-! ### The table -/

/-- The table holds what was named last on every connection, and the record of the current packet is there. -/
structure Follows (history : List (Connection × Activity)) (s : Globals) : Prop where
  table : ∀ uid, s.gTgtTable.get? uid = lastTarget? uid history
  info : s.gConn.isSome = true → s.info?.isSome = true

theorem keeps_handle {config : Config} {c : Connection} {e : Event} {s : Globals}
    (hrequest : ∀ call, e ≠ .modbusRequest call) : Keeps s (e.handle config c s).globals := by
  cases e with
  | dnp3 e => exact (e.edits config.levels config.dnp3FunctionCodes c s).keeps
  | modbusMessage headers isOrig =>
      exact (edits_modbusMessage config.levels config.modbusFunctionCodes c headers isOrig s).keeps
  | modbusRequest call => exact absurd rfl (hrequest call)
  | modbusResponse e =>
      rw [Event.handle, e.handle_eq]
      exact (edits_responseTarget config.levels s).keeps

theorem keeps_handleAll {config : Config} {c : Connection} {events : List Event} {s : Globals}
    (hrequest : ∀ e ∈ events, ∀ call, e ≠ .modbusRequest call) : Keeps s (handleAll config c events s).1 := by
  induction events generalizing s with
  | nil => exact ⟨rfl, rfl, fun h => h⟩
  | cons e events ih =>
      have hfirst : Keeps s (e.handle config c s).globals := keeps_handle (hrequest e List.mem_cons_self)
      have hrest : Keeps (e.handle config c s).globals _ := ih fun e' he' =>
        hrequest e' (List.mem_cons_of_mem _ he')
      exact ⟨hrest.gConn.trans hfirst.gConn, hrest.gTgtTable.trans hfirst.gTgtTable,
        fun h => hrest.info (hfirst.info h)⟩

theorem notRequest_response (headers : ModbusHeaders) (calls : List ModbusResponse) :
    ∀ e ∈ (Pdu.response headers calls).events, ∀ call, e ≠ .modbusRequest call := by
  intro e he call
  rcases List.mem_cons.mp he with rfl | he
  · exact Event.noConfusion
  · obtain ⟨response, _, rfl⟩ := List.mem_map.mp he
    exact Event.noConfusion

/-- The calls of a request leave the target of the last of them. -/
theorem handleAll_requests {config : Config} (hlevels : config.levels = 6) {c : Connection}
    (calls : List ModbusRequest) {s : Globals} (hconn : s.gConn = some c) :
    let s' := (handleAll config c (calls.map .modbusRequest) s).1
    s'.gConn = some c ∧ (s.info?.isSome = true → s'.info?.isSome = true)
      ∧ ∀ uid, s'.gTgtTable.get? uid =
        (if c.uid = uid then calls.getLast?.map ModbusRequest.target else none).or (s.gTgtTable.get? uid) := by
  induction calls generalizing s with
  | nil =>
      refine ⟨hconn, fun h => h, ?_⟩
      intro uid
      show s.gTgtTable.get? uid = (if c.uid = uid then none else none).or _
      rw [ite_self, Option.none_or]
  | cons call calls ih =>
      have hcall : (Event.handle config c (.modbusRequest call) s).globals =
          (storeTarget call.target (s.stopWait.putEntry c.uid call.target)).globals := by
        rw [Event.handle, hlevels, call.handle_eq hconn]
      have hstored : (storeTarget call.target (s.stopWait.putEntry c.uid call.target)).globals.gConn = some c :=
        hconn
      obtain ⟨hrestconn, hrestinfo, hresttable⟩ := ih hstored
      rw [List.map_cons, handleAll, hcall]
      refine ⟨hrestconn, fun h => hrestinfo ((isSome_info?_modifyInfo _ _).trans h), ?_⟩
      intro uid
      rw [hresttable uid]
      show Option.or _ ((s.gTgtTable.put c.uid call.target).get? uid) = _
      rw [Table.get?_put, List.getLast?_cons]
      by_cases huid : c.uid = uid
      · rw [if_pos huid, if_pos huid.symm, if_pos huid]
        cases calls.getLast? <;> rfl
      · rw [if_neg huid, if_neg (Ne.symm huid), if_neg huid]

namespace Follows

variable {history : List (Connection × Activity)} {s : Globals}

theorem keeps {s' : Globals} (h : Follows history s) (hkeeps : Keeps s s') (a : Connection × Activity)
    (hlast : ∀ uid, lastTarget? uid (history ++ [a]) = lastTarget? uid history) :
    Follows (history ++ [a]) s' where
  table := by
    intro uid
    rw [hkeeps.gTgtTable, hlast, h.table]
  info := by
    rw [hkeeps.gConn]
    exact fun hconn => hkeeps.info (h.info hconn)

theorem step (h : Follows history s) {config : Config} (hlevels : config.levels = 6)
    {a : Connection × Activity} {s' : Globals} (hstep : CollectorStep config s a s') :
    Follows (history ++ [a]) s' := by
  cases hstep with
  | packet c time p =>
      rw [Activity.handle, hlevels]
      constructor
      · intro uid
        rw [lastTarget?_snoc, Option.none_or, ← h.table]
        rfl
      · intro _
        obtain ⟨info, hinfo, _⟩ := info?_newPacket c time p s
        exact Option.isSome_iff_exists.mpr ⟨info, hinfo⟩
  | @pdu c unit hconn =>
      cases unit with
      | request headers calls =>
          have hmessage := (edits_modbusMessage config.levels config.modbusFunctionCodes c headers true s).keeps
          obtain ⟨hconn', hinfo, htable⟩ := handleAll_requests hlevels calls (hmessage.gConn.trans hconn)
          constructor
          · intro uid
            rw [lastTarget?_snoc, ← h.table, ← hmessage.gTgtTable]
            exact htable uid
          · intro _
            apply hinfo
            apply hmessage.info
            apply h.info
            rw [hconn]
            rfl
      | response headers calls =>
          apply h.keeps (keeps_handleAll (notRequest_response headers calls))
          intro uid
          rw [lastTarget?_snoc, Option.none_or]
      | dnp3 e =>
          apply h.keeps
          · apply keeps_handleAll
            intro e' he' call
            rw [List.mem_singleton.mp he']
            exact Event.noConfusion
          · intro uid
            rw [lastTarget?_snoc, Option.none_or]

theorem of_run {config : Config} (hlevels : config.levels = 6)
    (hrun : Run (CollectorStep config) {} history s) : Follows history s := by
  apply hrun.history_invariant
  · exact ⟨fun _ => rfl, fun h => h⟩
  · intro labels s a s' _ hfollows hstep
    exact hfollows.step hlevels hstep

end Follows

/-! ### The responses of a run -/

/-- The state a call of a response is handled in. -/
def stateAt (config : Config) (c : Connection) (headers : ModbusHeaders) (calls : List ModbusResponse)
    (place : Nat) (s : Globals) : Globals :=
  (handleAll config c (Pdu.response headers (calls.take place)).events s).1

theorem keeps_stateAt (config : Config) (c : Connection) (headers : ModbusHeaders) (calls : List ModbusResponse)
    (place : Nat) (s : Globals) : Keeps s (stateAt config c headers calls place s) :=
  keeps_handleAll (notRequest_response headers (calls.take place))

/-- What a call of a response does is decided by the target that was named last on its connection. -/
theorem attributed_iff {history : List (Connection × Activity)} {s : Globals} {c : Connection}
    (htable : s.gTgtTable.get? c.uid = lastTarget? c.uid history) (hconn : s.gConn = some c)
    (hinfo : s.info?.isSome = true) (headers : ModbusHeaders) (response : ModbusResponse) (place : Nat) :
    Attributed history c headers response place s ↔ OwnIsLast history c headers response place := by
  rw [Attributed, response.handle_eq]
  cases hlast : lastTarget? c.uid history with
  | none =>
      rw [responseTarget_of_none hconn (htable.trans hlast)]
      constructor
      · intro ⟨hraised, _⟩
        cases hraised
      · intro ⟨_, target, _, _, hown⟩
        rw [hlast] at hown
        cases hown
  | some last =>
      rw [responseTarget_of_some hconn (htable.trans hlast)]
      obtain ⟨info, hinfo⟩ := Option.isSome_iff_exists.mp hinfo
      have hstored : (storeTarget last s.stopWait).globals.info?.bind Info.target = some last := by
        have hrecord : (storeTarget last s.stopWait).globals.info? = s.info?.map fun info =>
          { info with target := some last } := Globals.info?_modifyInfo s.stopWait _
        rw [hrecord, hinfo]
        rfl
      rw [hstored]
      cases hrequest : request? c.uid headers.tid history with
      | none =>
          constructor
          · intro ⟨_, hnone⟩
            cases hnone
          · intro ⟨calls, _, hcalls, _⟩
            rw [hrequest] at hcalls
            cases hcalls
      | some calls =>
          constructor
          · intro ⟨_, target, hbuilt, heq⟩
            exact ⟨calls, target, hrequest, hbuilt, hlast.trans heq⟩
          · intro ⟨calls', target, hcalls, hbuilt, hown⟩
            rw [hrequest] at hcalls
            cases hcalls
            exact ⟨rfl, target, hbuilt, hlast.symm.trans hown⟩

theorem attributed_stateAt_iff {config : Config} (hlevels : config.levels = 6)
    {before : List (Connection × Activity)} {mid : Globals} (hbefore : Run (CollectorStep config) {} before mid)
    {c : Connection} (hconn : mid.gConn = some c) (headers : ModbusHeaders) (calls : List ModbusResponse)
    (place : Nat) (response : ModbusResponse) :
    Attributed before c headers response place (stateAt config c headers calls place mid)
      ↔ OwnIsLast before c headers response place := by
  have hfollows := Follows.of_run hlevels hbefore
  have hkeeps := keeps_stateAt config c headers calls place mid
  have hinfo : mid.info?.isSome = true := by
    apply hfollows.info
    rw [hconn]
    rfl
  apply attributed_iff
  · rw [hkeeps.gTgtTable, hfollows.table]
  · exact hkeeps.gConn.trans hconn
  · exact hkeeps.info hinfo

/-- Every call of every response of a run is attributed to its own request. -/
def EachAttributed (config : Config) (history : List (Connection × Activity)) : Prop :=
  ∀ before c headers calls after, history = before ++ (c, .pdu (.response headers calls)) :: after →
    ∃ mid, Run (CollectorStep config) {} before mid ∧ mid.gConn = some c
      ∧ ∀ place response, calls[place]? = some response →
        Attributed before c headers response place (stateAt config c headers calls place mid)

/-- At every call of every response the request was seen, and its target is the last of its connection. -/
def EachOwnIsLast (history : List (Connection × Activity)) : Prop :=
  ∀ before c headers calls after, history = before ++ (c, .pdu (.response headers calls)) :: after →
    ∀ place response, calls[place]? = some response → OwnIsLast before c headers response place

/-- **The responses of a run.** Every call of every response meets no missing entry and stores the target of
its own request, if and only if for each of them the request was seen and its target was the last named on
the connection. -/
theorem responses_attributed_iff {config : Config} (hlevels : config.levels = 6)
    {history : List (Connection × Activity)} {s : Globals} (hrun : Run (CollectorStep config) {} history s) :
    EachAttributed config history ↔ EachOwnIsLast history := by
  constructor
  · intro hall before c headers calls after hhistory place response hresponse
    obtain ⟨mid, hbefore, hconn, hattributed⟩ := hall before c headers calls after hhistory
    exact (attributed_stateAt_iff hlevels hbefore hconn headers calls place response).mp (hattributed place response hresponse)
  · intro hall before c headers calls after hhistory
    rw [hhistory] at hrun
    obtain ⟨mid, mid', hbefore, hstep⟩ := hrun.at_step
    have hconn : mid.gConn = some c := by
      cases hstep with
      | pdu _ hconn => exact hconn
    refine ⟨mid, hbefore, hconn, ?_⟩
    intro place response hresponse
    exact (attributed_stateAt_iff hlevels hbefore hconn headers calls place response).mpr
      (hall before c headers calls after hhistory place response hresponse)

/-! ### Two requests before the first response -/

def sampleConn : Connection := ⟨"C1".toList⟩

def sampleHdr : PktHdr := .ip 60 "10.0.0.1".toList "10.0.0.2".toList

/-- A packet on its way back. -/
def sampleAnswer : PktHdr := .ip 60 "10.0.0.2".toList "10.0.0.1".toList

/-- A request, and its response in a packet of its own. -/
def readAnswered : List (Connection × Activity) :=
  [(sampleConn, .packet 0 sampleHdr), (sampleConn, .pdu (.request ⟨1, 1, 1⟩ [.readCoils 0 8])),
    (sampleConn, .packet 1 sampleAnswer), (sampleConn, .pdu (.response ⟨1, 1, 1⟩ [.readCoils]))]

/-- Two requests in one packet, and the response to the first of them. -/
def readPipelined : List (Connection × Activity) :=
  [(sampleConn, .packet 0 sampleHdr), (sampleConn, .pdu (.request ⟨1, 1, 1⟩ [.readCoils 0 8])),
    (sampleConn, .pdu (.request ⟨2, 1, 1⟩ [.readCoils 100 8])), (sampleConn, .packet 1 sampleAnswer),
    (sampleConn, .pdu (.response ⟨1, 1, 1⟩ [.readCoils]))]

theorem run_request :
    Run (CollectorStep readConfig) {} (readAnswered.take 2)
      (Activity.handle readConfig sampleConn
        (Activity.handle readConfig sampleConn {} (.packet 0 sampleHdr))
        (.pdu (.request ⟨1, 1, 1⟩ [.readCoils 0 8]))) :=
  (Run.single (.packet sampleConn 0 sampleHdr)).snoc (.pdu _ rfl)

theorem readAnswered_attributed :
    ∃ mid, Run (CollectorStep readConfig) {} (readAnswered.take 3) mid ∧ mid.gConn = some sampleConn
      ∧ ∀ place response, [ModbusResponse.readCoils][place]? = some response →
        Attributed (readAnswered.take 3) sampleConn ⟨1, 1, 1⟩ response place
          (stateAt readConfig sampleConn ⟨1, 1, 1⟩ [.readCoils] place mid) := by
  have hrun := (run_request.snoc (.packet sampleConn 1 sampleAnswer)).snoc (.pdu (.response ⟨1, 1, 1⟩ [.readCoils]) rfl)
  refine (responses_attributed_iff (show readConfig.levels = 6 from rfl) hrun).mpr ?_ (readAnswered.take 3)
    sampleConn ⟨1, 1, 1⟩ [.readCoils] [] rfl
  intro before c headers calls after hhistory place response hresponse
  rcases before with _ | ⟨_, _ | ⟨_, _ | ⟨_, _ | ⟨_, before⟩⟩⟩⟩
  · cases hhistory
  · cases hhistory
  · cases hhistory
  · cases hhistory
    have hcall := List.mem_singleton.mp (List.mem_of_getElem? hresponse)
    subst hcall
    exact ⟨[.readCoils 0 8], _, rfl, List.mem_singleton_self _, rfl⟩
  · simp [readAnswered] at hhistory

/-- The response to the first of two requests gets the target of the second. -/
theorem not_each_attributed :
    ¬ ∀ history s, Run (CollectorStep readConfig) {} history s → EachAttributed readConfig history := by
  intro hall
  have hsecond := run_request.snoc (.pdu (.request ⟨2, 1, 1⟩ [.readCoils 100 8]) rfl)
  have hrun := (hsecond.snoc (.packet sampleConn 1 sampleAnswer)).snoc (.pdu (.response ⟨1, 1, 1⟩ [.readCoils]) rfl)
  obtain ⟨mid, hbefore, hconn, hattributed⟩ :=
    hall readPipelined _ hrun (readPipelined.take 4) sampleConn ⟨1, 1, 1⟩ [.readCoils] [] rfl
  obtain ⟨calls, target, hcalls, hbuilt, hlast⟩ := (attributed_stateAt_iff (show readConfig.levels = 6 from rfl)
    hbefore hconn _ _ _ _).mp (hattributed 0 .readCoils rfl)
  have hown : request? sampleConn.uid 1 (readPipelined.take 4) = some [.readCoils 0 8] := rfl
  rw [hown] at hcalls
  cases hcalls
  have hother : lastTarget? sampleConn.uid (readPipelined.take 4) = some "Coil:100-107".toList := by
    decide +kernel
  rw [hother] at hlast
  cases hlast
  have hdifferent : "Coil:100-107".toList ∉ [(ModbusRequest.readCoils 0 8).target] := by
    decide +kernel
  exact hdifferent hbuilt

/-! ### From packets -/

theorem gConn_handle {config : Config} (hlevels : config.levels = 6) (c : Connection) (e : Event) (s : Globals) :
    (e.handle config c s).globals.gConn = s.gConn := by
  by_cases hrequest : ∃ call, e = .modbusRequest call
  · obtain ⟨call, rfl⟩ := hrequest
    rw [Event.handle, hlevels]
    cases hconn : s.gConn with
    | none =>
        rw [call.handle_unset hconn]
        exact hconn
    | some conn =>
        rw [call.handle_eq hconn]
        exact hconn
  · exact (keeps_handle fun call heq => hrequest ⟨call, heq⟩).gConn

theorem gConn_handleAll {config : Config} (hlevels : config.levels = 6) (c : Connection) (events : List Event)
    (s : Globals) : (handleAll config c events s).1.gConn = s.gConn := by
  induction events generalizing s with
  | nil => rfl
  | cons e events ih => exact (ih _).trans (gConn_handle hlevels c e s)

theorem handleAll_append (config : Config) (c : Connection) (events later : List Event) (s : Globals) :
    (handleAll config c (events ++ later) s).1 = (handleAll config c later (handleAll config c events s).1).1 := by
  induction events generalizing s with
  | nil => rfl
  | cons e events ih => exact ih _

/-- The units of the current packet one after the other. -/
theorem run_units {config : Config} (hlevels : config.levels = 6) {labels : List (Connection × Activity)}
    {s : Globals} (hrun : Run (CollectorStep config) {} labels s) {c : Connection} (hconn : s.gConn = some c)
    (units : List Pdu) :
    Run (CollectorStep config) {} (labels ++ units.map fun unit => (c, .pdu unit))
      (handleAll config c (units.flatMap Pdu.events) s).1 := by
  induction units generalizing labels s with
  | nil =>
      rw [List.map_nil, List.append_nil]
      exact hrun
  | cons unit units ih =>
      have hfirst := hrun.snoc (.pdu unit hconn)
      have hrest := ih hfirst ((gConn_handleAll hlevels c unit.events s).trans hconn)
      rw [List.append_assoc] at hrest
      rw [List.flatMap_cons, handleAll_append]
      exact hrest

/-- **The packets of a run are a run of activities.** -/
theorem run_packet {config : Config} (hlevels : config.levels = 6) {labels : List (Connection × Activity)}
    {s s' : Globals} (hrun : Run (CollectorStep config) {} labels s) (c : Connection) (time : ℚ) (p : PktHdr)
    (units : List Pdu) (hstep : PacketStep config s ⟨c, time, p, units.flatMap Pdu.events⟩ s') :
    Run (CollectorStep config) {} (labels ++ (c, .packet time p) :: units.map fun unit => (c, .pdu unit)) s' := by
  have hpacket := hrun.snoc (.packet c time p)
  have hconn : (Activity.handle config c s (.packet time p)).gConn = some c := by
    rw [Activity.handle, hlevels]
    rfl
  have hunits := run_units hlevels hpacket hconn units
  rw [List.append_assoc] at hunits
  rw [packetStep_iff.mp hstep]
  exact hunits

end Armore.StatsCol
