import Armore.Lib.Run
import Armore.Stats.Items

/-!
# Recognising identities

`IdRecog` remembers the last request of every connection. A response that answers it makes a pair of
functions, and the intelligence framework looks the pair up; what it finds comes back later, as an event, with
descriptions that name the identity of the requestor and that of the responder. Each identity of an address
is logged when it is first recognised. The match event carries the connection only, so that the addresses are
those of the request that is remembered by then.
-/

namespace Armore.IdRecog

open Lib

/-! ### The handlers -/

/-- `IdRecog::Info`. -/
structure Info where
  ts : ℚ
  ip : Text
  identity : Text

structure ReqInfo where
  requestor : Text
  responder : Text
  protocol : Text
  reqFunc : Text

structure State where
  reqTable : Table Text ReqInfo
  identityMap : Table Text (List Text)
  log : List Info

def State.init : State := ⟨∅, ∅, []⟩

/-- The events handled: an item of `StatsCol`, and a match of the intelligence framework, of which the
handler reads the connection and the descriptions of the items. -/
inductive Event
  | itemGen (item : StatsCol.Info)
  | intelMatch (uid : Text) (descs : List Text)

/-- The entry a request leaves in `req_table`. -/
def reqInfo? (item : StatsCol.Info) : Option ReqInfo := do
  return {
    requestor := ← item.sender
    responder := ← item.receiver
    protocol := ← item.protocol
    reqFunc := ← item.func }

/-- A response answers an entry of `req_table`. -/
def Answers (item : StatsCol.Info) (req : ReqInfo) : Prop :=
  item.receiver = some req.requestor ∧ item.sender = some req.responder ∧ item.protocol = some req.protocol

instance (item : StatsCol.Info) (req : ReqInfo) : Decidable (Answers item req) :=
  inferInstanceAs (Decidable (_ ∧ _))

/-- `cat(item$protocol,";",req_table[index]$req_func,";",item$func)`. -/
def funcPair (protocol reqFunc func : Text) : Text := protocol ++ ';' :: reqFunc ++ ';' :: func

section

-- `Intel::seen`: the descriptions of the items found for an indicator of type `FUNCTION_PAIR`.
variable (intel : Text → List Text)

/-- `Intel::seen` raises `Intel::match` when it finds anything. -/
def seen (uid indicator : Text) : List Event :=
  if intel indicator = [] then [] else [.intelMatch uid (intel indicator)]

/-- The handler of `StatsCol::item_gen`: `req_table`, and the events it raises. A field that is read while
it is missing ends the handler. -/
def itemGen (reqTable : Table Text ReqInfo) (item : StatsCol.Info) : Table Text ReqInfo × List Event :=
  match item.func, item.conn, item.isResponse with
  | some _, some conn, some false =>
    match reqInfo? item with
    | none => (reqTable, [])
    | some req => (reqTable.put conn.uid req, [])
  | some func, some conn, some true =>
    match reqTable.get? conn.uid with
    | none => (reqTable, [])
    | some req =>
      -- An answer has the protocol of the request.
      (reqTable, if Answers item req then seen intel conn.uid (funcPair req.protocol req.reqFunc func) else [])
  | _, _, _ => (reqTable, [])

end

section

variable (now : ℚ)

def addIdentity (ip identity : Text) (s : State) : State :=
  match s.identityMap.get? ip with
  | none =>
    { s with identityMap := s.identityMap.put ip [identity], log := s.log ++ [⟨now, ip, identity⟩] }
  | some identities =>
    if identity ∈ identities then s
    else
      { s with
        identityMap := s.identityMap.put ip (identities ++ [identity])
        log := s.log ++ [⟨now, ip, identity⟩] }

/-- `if(identity[..]!="") add_identity(.., identity[..])`. -/
def addNamed (ip identity : Text) (s : State) : State :=
  if identity = [] then s else addIdentity now ip identity s

/-- The loop of the handler of `Intel::match`. A description without a second part ends the handler, when its
first part has been added. -/
def addIdentities (req : ReqInfo) : List Text → State → State
  | [], s => s
  | desc :: descs, s =>
    let identity := desc.splitOn ';'
    let s := addNamed now req.requestor (identity.headD []) s
    match identity[1]? with
    | none => s
    | some second => addIdentities req descs (addNamed now req.responder second s)

variable (intel : Text → List Text)

/-- The handlers at a network time, and the events they raise. -/
def handle (s : State) : Event → State × List Event
  | .itemGen item => ({ s with reqTable := (itemGen intel s.reqTable item).1 }, (itemGen intel s.reqTable item).2)
  | .intelMatch uid descs =>
    match s.reqTable.get? uid with
    | none => (s, [])
    | some req => (addIdentities now req descs s, [])

end

/-! ### Runs -/

inductive Act
  | generate (item : StatsCol.Info)
  | handle (now : ℚ) (event : Event)

/-- `StatsCol` raises `item_gen`, or the first event of the queue is handled. -/
inductive Turn (intel : Text → List Text) : State × List Event → Act → State × List Event → Prop
  | generate (s : State) (queue : List Event) (item : StatsCol.Info) :
      Turn intel (s, queue) (.generate item) (s, queue ++ [.itemGen item])
  | handle (s : State) (queue : List Event) (now : ℚ) (event : Event) :
      Turn intel (s, event :: queue) (.handle now event)
        ((handle now intel s event).1, queue ++ (handle now intel s event).2)

abbrev Runs (intel : Text → List Text) : List Act → State × List Event → Prop :=
  Run (Turn intel) (.init, [])

namespace Event

def item? : Event → Option StatsCol.Info
  | .itemGen item => some item
  | .intelMatch _ _ => none

def match? : Event → Option (Text × List Text)
  | .itemGen _ => none
  | .intelMatch uid descs => some (uid, descs)

end Event

namespace Act

/-- The items that `StatsCol` has raised. -/
def generated : Act → List StatsCol.Info
  | .generate item => [item]
  | .handle _ _ => []

/-- The items that have been handled. -/
def handled : Act → List StatsCol.Info
  | .generate _ => []
  | .handle _ event => event.item?.toList

/-- The matches that have been handled. -/
def matched : Act → List (Text × List Text)
  | .generate _ => []
  | .handle _ event => event.match?.toList

end Act

/-! ### What is to be recognised -/

/-- What a description says of the two ends of a connection, up to the end of the handler. -/
def named (ends : Text × Text) : List Text → List (Text × Text)
  | [] => []
  | desc :: descs =>
    let identity := desc.splitOn ';'
    (if identity.headD [] = [] then [] else [(ends.1, identity.headD [])])
      ++ match identity[1]? with
        | none => []
        | some second => (if second = [] then [] else [(ends.2, second)]) ++ named ends descs

/-- The request that is remembered for a connection. -/
def lastRequest (items : List StatsCol.Info) (uid : Text) : Option ReqInfo :=
  items.foldl (fun last item =>
    if item.isResponse = some false ∧ item.conn.map StatsCol.Connection.uid = some uid then
      (reqInfo? item).or last
    else last) none

/-- The match an item makes after others. -/
def answered (intel : Text → List Text) (before : List StatsCol.Info) (item : StatsCol.Info) :
    List (Text × List Text) :=
  match item.func, item.conn, item.isResponse with
  | some func, some conn, some true =>
    match lastRequest before conn.uid with
    | none => []
    | some req =>
      if Answers item req ∧ intel (funcPair req.protocol req.reqFunc func) ≠ [] then
        [(conn.uid, intel (funcPair req.protocol req.reqFunc func))]
      else []
  | _, _, _ => []

/-- The matches of items that come after others, in order. -/
def exchanges (intel : Text → List Text) :
    List StatsCol.Info → List StatsCol.Info → List (Text × List Text)
  | _, [] => []
  | before, item :: items => answered intel before item ++ exchanges intel (before ++ [item]) items

/-- What a handled match names, at the ends of the last request handled before it. -/
def recognisedBy (before : List Act) : Act → List (Text × Text)
  | .handle _ (.intelMatch uid descs) =>
    match lastRequest (before.flatMap Act.handled) uid with
    | none => []
    | some req => named (req.requestor, req.responder) descs
  | _ => []

/-- What is recognised in a run, with repetitions. -/
def recognised : List Act → List Act → List (Text × Text)
  | _, [] => []
  | before, a :: acts => recognisedBy before a ++ recognised (before ++ [a]) acts

/-- The requests of a connection all go the same way. -/
def Keeps (ends : Text → Text × Text) (item : StatsCol.Info) : Prop :=
  item.isResponse = some false → ∀ conn, item.conn = some conn → ∀ req, reqInfo? item = some req →
    (req.requestor, req.responder) = ends conn.uid

/-- Items whose requests go the way of their connections. -/
def Regular (ends : Text → Text × Text) (_ : State × List Event) (a : Act) : Prop :=
  ∀ item ∈ a.generated, Keeps ends item

/-! ### The table of requests -/

section

variable {intel : Text → List Text}

theorem exchanges_snoc (before items : List StatsCol.Info) (item : StatsCol.Info) :
    exchanges intel before (items ++ [item])
      = exchanges intel before items ++ answered intel (before ++ items) item := by
  induction items generalizing before with
  | nil =>
      rw [List.nil_append, List.append_nil]
      exact List.append_nil _
  | cons first items ih =>
      rw [List.cons_append, exchanges, exchanges, ih, List.append_assoc, List.append_assoc,
        List.singleton_append]

theorem lastRequest_snoc (items : List StatsCol.Info) (item : StatsCol.Info) (uid : Text) :
    lastRequest (items ++ [item]) uid
      = if item.isResponse = some false ∧ item.conn.map StatsCol.Connection.uid = some uid then
          (reqInfo? item).or (lastRequest items uid)
        else lastRequest items uid := by
  rw [lastRequest, List.foldl_append]
  rfl

/-- An item that is no request with a connection leaves the table. -/
theorem lastRequest_of_not {item : StatsCol.Info} {uid : Text}
    (hnot : ¬(item.isResponse = some false ∧ item.conn.map StatsCol.Connection.uid = some uid))
    (items : List StatsCol.Info) : lastRequest (items ++ [item]) uid = lastRequest items uid := by
  rw [lastRequest_snoc, if_neg hnot]

theorem reqInfo?_of_func {item : StatsCol.Info} (hfunc : item.func = none) : reqInfo? item = none := by
  rw [reqInfo?, hfunc]
  cases item.sender <;> cases item.receiver <;> cases item.protocol <;> rfl

/-- The handler keeps the last request of every connection and raises the matches. -/
theorem itemGen_spec {reqTable : Table Text ReqInfo} {items : List StatsCol.Info}
    (htable : ∀ uid, reqTable.get? uid = lastRequest items uid) (item : StatsCol.Info) :
    (∀ uid, (itemGen intel reqTable item).1.get? uid = lastRequest (items ++ [item]) uid)
      ∧ (itemGen intel reqTable item).2
        = (answered intel items item).map fun found => .intelMatch found.1 found.2 := by
  unfold itemGen answered
  cases hfunc : item.func with
  | none =>
      refine ⟨?_, rfl⟩
      intro uid
      rw [lastRequest_snoc, reqInfo?_of_func hfunc, htable, Option.none_or, ite_self]
  | some func =>
      cases hconn : item.conn with
      | none =>
          refine ⟨?_, rfl⟩
          intro uid
          rw [lastRequest_of_not, htable]
          rw [hconn]
          rintro ⟨_, ⟨⟩⟩
      | some conn =>
          cases hresponse : item.isResponse with
          | none =>
              refine ⟨?_, rfl⟩
              intro uid
              rw [lastRequest_of_not, htable]
              rw [hresponse]
              rintro ⟨⟨⟩, _⟩
          | some isResponse =>
              cases isResponse with
              | false =>
                  dsimp only
                  cases hreq : reqInfo? item with
                  | none =>
                      refine ⟨?_, rfl⟩
                      intro uid
                      rw [lastRequest_snoc, hreq, Option.none_or, ite_self, htable]
                  | some req =>
                      refine ⟨?_, rfl⟩
                      intro uid
                      show (reqTable.put conn.uid req).get? uid = _
                      rw [Table.get?_put, lastRequest_snoc, hconn, hresponse, hreq, htable, Option.some_or]
                      by_cases huid : uid = conn.uid
                      · subst huid
                        rw [if_pos rfl, if_pos ⟨rfl, rfl⟩]
                      · rw [if_neg huid, if_neg]
                        rintro ⟨_, hsome⟩
                        exact huid (Option.some.inj hsome).symm
              | true =>
                  have hnot : ∀ uid, ¬(item.isResponse = some false
                      ∧ item.conn.map StatsCol.Connection.uid = some uid) := by
                    intro uid
                    rw [hresponse]
                    rintro ⟨⟨⟩, _⟩
                  dsimp only
                  rw [← htable conn.uid]
                  cases reqTable.get? conn.uid with
                  | none =>
                      refine ⟨?_, rfl⟩
                      intro uid
                      rw [lastRequest_of_not (hnot uid), htable]
                  | some req =>
                      refine ⟨?_, ?_⟩
                      · intro uid
                        rw [lastRequest_of_not (hnot uid), htable]
                      · dsimp only [seen]
                        by_cases hanswers : Answers item req
                        · by_cases hfound : intel (funcPair req.protocol req.reqFunc func) = []
                          · rw [if_pos hanswers, if_pos hfound, if_neg fun h => h.2 hfound]
                            rfl
                          · rw [if_pos hanswers, if_neg hfound, if_pos ⟨hanswers, hfound⟩]
                            rfl
                        · rw [if_neg hanswers, if_neg fun h => hanswers h.1]
                          rfl

end

/-! ### The identities -/

def Info.pair (info : Info) : Text × Text := (info.ip, info.identity)

/-- The log and the map after some recognitions. -/
structure Recognised (s : State) (pairs : List (Text × Text)) : Prop where
  log : s.log.map Info.pair = pairs.eraseDups
  map : ∀ ip identity, identity ∈ (s.identityMap.get? ip).getD [] ↔ (ip, identity) ∈ pairs

theorem recognised_init : Recognised .init [] where
  log := rfl
  map := fun _ _ => iff_of_false List.not_mem_nil List.not_mem_nil

theorem eraseDups_snoc_of_mem {pairs : List (Text × Text)} {pair : Text × Text} (hpair : pair ∈ pairs) :
    (pairs ++ [pair]).eraseDups = pairs.eraseDups := by
  have hnone : [pair].removeAll pairs = [] := by simp [List.removeAll, hpair]
  rw [List.eraseDups_append, hnone]
  exact List.append_nil _

theorem eraseDups_snoc_of_notMem {pairs : List (Text × Text)} {pair : Text × Text} (hpair : pair ∉ pairs) :
    (pairs ++ [pair]).eraseDups = pairs.eraseDups ++ [pair] := by
  have hone : [pair].removeAll pairs = [pair] := by simp [List.removeAll, hpair]
  rw [List.eraseDups_append, hone]
  rfl

section

variable {now : ℚ}

/-- A new identity is stored with its address and logged. -/
theorem Recognised.store {s : State} {pairs : List (Text × Text)} (h : Recognised s pairs) {ip identity : Text}
    {identities : List Text} (hold : (s.identityMap.get? ip).getD [] = identities)
    (hnew : identity ∉ identities) :
    Recognised
      { s with
        identityMap := s.identityMap.put ip (identities ++ [identity])
        log := s.log ++ [⟨now, ip, identity⟩] } (pairs ++ [(ip, identity)]) := by
  subst hold
  have hpair : (ip, identity) ∉ pairs := fun hmem => hnew ((h.map ip identity).mpr hmem)
  refine ⟨?_, ?_⟩
  · rw [List.map_append, h.log, eraseDups_snoc_of_notMem hpair]
    rfl
  · intro ip' identity'
    rw [Table.get?_put, List.mem_append, List.mem_singleton, Prod.mk.injEq, ← h.map]
    by_cases hip : ip' = ip
    · subst hip
      rw [if_pos rfl, Option.getD_some, List.mem_append, List.mem_singleton, eq_self, true_and]
    · rw [if_neg hip, eq_false hip, false_and, or_false]

theorem Recognised.addIdentity {s : State} {pairs : List (Text × Text)} (h : Recognised s pairs)
    (ip identity : Text) :
    Recognised (addIdentity now ip identity s) (pairs ++ [(ip, identity)])
      ∧ (addIdentity now ip identity s).reqTable = s.reqTable := by
  unfold IdRecog.addIdentity
  cases hget : s.identityMap.get? ip with
  | none =>
      have hold : (s.identityMap.get? ip).getD [] = [] := by rw [hget]; rfl
      exact ⟨h.store hold List.not_mem_nil, rfl⟩
  | some identities =>
      have hold : (s.identityMap.get? ip).getD [] = identities := by rw [hget]; rfl
      dsimp only
      by_cases hmem : identity ∈ identities
      · have hpair : (ip, identity) ∈ pairs := (h.map ip identity).mp (hold.symm ▸ hmem)
        rw [if_pos hmem]
        refine ⟨⟨?_, ?_⟩, rfl⟩
        · rw [h.log, eraseDups_snoc_of_mem hpair]
        · intro ip' identity'
          rw [h.map, List.mem_append, List.mem_singleton]
          refine ⟨.inl, ?_⟩
          rintro (hold | heq)
          · exact hold
          · rw [heq]
            exact hpair
      · rw [if_neg hmem]
        exact ⟨h.store hold hmem, rfl⟩

theorem Recognised.addNamed {s : State} {pairs : List (Text × Text)} (h : Recognised s pairs)
    (ip identity : Text) :
    Recognised (addNamed now ip identity s) (pairs ++ if identity = [] then [] else [(ip, identity)])
      ∧ (addNamed now ip identity s).reqTable = s.reqTable := by
  unfold IdRecog.addNamed
  split
  · rw [List.append_nil]
    exact ⟨h, rfl⟩
  · exact h.addIdentity ip identity

theorem Recognised.addIdentities (req : ReqInfo) (descs : List Text) {s : State} {pairs : List (Text × Text)}
    (h : Recognised s pairs) :
    Recognised (addIdentities now req descs s) (pairs ++ named (req.requestor, req.responder) descs)
      ∧ (addIdentities now req descs s).reqTable = s.reqTable := by
  induction descs generalizing s pairs with
  | nil =>
      rw [named, List.append_nil]
      exact ⟨h, rfl⟩
  | cons desc descs ih =>
      obtain ⟨hfirst, htable⟩ := h.addNamed req.requestor ((desc.splitOn ';').headD [])
      rw [IdRecog.addIdentities, named, ← List.append_assoc]
      dsimp only
      cases (desc.splitOn ';')[1]? with
      | none =>
          rw [List.append_nil]
          exact ⟨hfirst, htable⟩
      | some second =>
          obtain ⟨hsecond, htable'⟩ := hfirst.addNamed req.responder second
          obtain ⟨hrest, htable''⟩ := ih hsecond
          rw [← List.append_assoc]
          exact ⟨hrest, htable''.trans (htable'.trans htable)⟩

end

/-! ### A run -/

section

variable {intel : Text → List Text}

theorem recognised_snoc (before acts : List Act) (a : Act) :
    recognised before (acts ++ [a]) = recognised before acts ++ recognisedBy (before ++ acts) a := by
  induction acts generalizing before with
  | nil =>
      rw [List.nil_append, List.append_nil]
      exact List.append_nil _
  | cons first acts ih =>
      rw [List.cons_append, recognised, recognised, ih, List.append_assoc, List.append_assoc,
        List.singleton_append]

/-- What the table, the queue and the log hold after a run. -/
structure Accounts (intel : Text → List Text) (acts : List Act) (s : State × List Event) : Prop where
  requests : ∀ uid, s.1.reqTable.get? uid = lastRequest (acts.flatMap Act.handled) uid
  exchanged : acts.flatMap Act.matched ++ s.2.filterMap Event.match?
    = exchanges intel [] (acts.flatMap Act.handled)
  items : acts.flatMap Act.handled ++ s.2.filterMap Event.item? = acts.flatMap Act.generated
  recognised : Recognised s.1 (recognised [] acts)

theorem accounts_init : Accounts intel [] (.init, []) :=
  ⟨fun _ => rfl, rfl, rfl, recognised_init⟩

theorem flatMap_snoc {β : Type} (f : Act → List β) (acts : List Act) (a : Act) :
    (acts ++ [a]).flatMap f = acts.flatMap f ++ f a := by
  rw [List.flatMap_append, List.flatMap_singleton]

theorem Accounts.generate {acts : List Act} {s : State} {queue : List Event} (h : Accounts intel acts (s, queue))
    (item : StatsCol.Info) :
    Accounts intel (acts ++ [.generate item]) (s, queue ++ [.itemGen item]) := by
  have hhandled : (acts ++ [Act.generate item]).flatMap Act.handled = acts.flatMap Act.handled := by
    rw [flatMap_snoc]
    exact List.append_nil _
  refine ⟨?_, ?_, ?_, ?_⟩
  · intro uid
    rw [hhandled]
    exact h.requests uid
  · rw [hhandled, flatMap_snoc, ← h.exchanged, List.filterMap_append]
    show _ ++ [] ++ (_ ++ []) = _
    rw [List.append_nil, List.append_nil]
  · rw [hhandled, flatMap_snoc, ← h.items, List.filterMap_append, List.append_assoc]
    rfl
  · rw [recognised_snoc]
    show Recognised s (IdRecog.recognised [] acts ++ [])
    rw [List.append_nil]
    exact h.recognised

/-- Handling an item: the matches it makes go to the end of the queue. -/
theorem Accounts.itemGen {acts : List Act} {s : State} {queue : List Event} {item : StatsCol.Info}
    (h : Accounts intel acts (s, .itemGen item :: queue)) (now : ℚ) :
    Accounts intel (acts ++ [.handle now (.itemGen item)])
      ((handle now intel s (.itemGen item)).1, queue ++ (handle now intel s (.itemGen item)).2) := by
  have hhandled : (acts ++ [Act.handle now (.itemGen item)]).flatMap Act.handled
      = acts.flatMap Act.handled ++ [item] := flatMap_snoc _ _ _
  obtain ⟨hrequests, hexchanged, hitems, hrecognised⟩ := h
  obtain ⟨htable, hmatches⟩ : (∀ uid, (IdRecog.itemGen intel s.reqTable item).1.get? uid
        = lastRequest (acts.flatMap Act.handled ++ [item]) uid)
      ∧ (IdRecog.itemGen intel s.reqTable item).2
        = (answered intel (acts.flatMap Act.handled) item).map fun found => .intelMatch found.1 found.2 :=
    itemGen_spec hrequests item
  have hfound : (IdRecog.itemGen intel s.reqTable item).2.filterMap Event.match?
      = answered intel (acts.flatMap Act.handled) item := by
    rw [hmatches, List.filterMap_map]
    exact List.filterMap_some
  have hnone : (IdRecog.itemGen intel s.reqTable item).2.filterMap Event.item? = [] := by
    rw [hmatches]
    simp [Event.item?]
  refine ⟨?_, ?_, ?_, ?_⟩
  · intro uid
    rw [hhandled]
    exact htable uid
  · rw [hhandled, exchanges_snoc, List.nil_append, ← hexchanged, flatMap_snoc, List.filterMap_append]
    show _ ++ [] ++ (_ ++ (IdRecog.itemGen intel s.reqTable item).2.filterMap Event.match?) = _
    rw [hfound, List.append_nil, ← List.append_assoc]
    rfl
  · rw [hhandled, flatMap_snoc, List.filterMap_append, List.append_assoc]
    show _ ++ ([item] ++ (_ ++ (IdRecog.itemGen intel s.reqTable item).2.filterMap Event.item?)) = _ ++ []
    rw [hnone, List.append_nil, List.append_nil]
    exact hitems
  · rw [recognised_snoc]
    show Recognised _ (IdRecog.recognised [] acts ++ [])
    rw [List.append_nil]
    exact ⟨hrecognised.log, hrecognised.map⟩

/-- The handler of a match names the ends of the request that is remembered. -/
theorem handle_intelMatch {acts : List Act} {s : State} (hrequests : ∀ uid, s.reqTable.get? uid
      = lastRequest (acts.flatMap Act.handled) uid)
    (hrecognised : Recognised s (recognised [] acts)) (now : ℚ) (uid : Text) (descs : List Text) :
    (handle now intel s (.intelMatch uid descs)).2 = []
      ∧ (handle now intel s (.intelMatch uid descs)).1.reqTable = s.reqTable
      ∧ Recognised (handle now intel s (.intelMatch uid descs)).1
        (recognised [] (acts ++ [.handle now (.intelMatch uid descs)])) := by
  rw [recognised_snoc, List.nil_append]
  unfold handle recognisedBy
  dsimp only
  rw [← hrequests uid]
  cases s.reqTable.get? uid with
  | none =>
      rw [List.append_nil]
      exact ⟨rfl, rfl, hrecognised⟩
  | some req =>
      obtain ⟨hadded, htable⟩ := hrecognised.addIdentities req descs
      exact ⟨rfl, htable, hadded⟩

theorem Accounts.intelMatch {acts : List Act} {s : State} {queue : List Event} {uid : Text} {descs : List Text}
    (h : Accounts intel acts (s, .intelMatch uid descs :: queue)) (now : ℚ) :
    Accounts intel (acts ++ [.handle now (.intelMatch uid descs)])
      ((handle now intel s (.intelMatch uid descs)).1,
        queue ++ (handle now intel s (.intelMatch uid descs)).2) := by
  have hhandled : (acts ++ [Act.handle now (.intelMatch uid descs)]).flatMap Act.handled
      = acts.flatMap Act.handled := by
    rw [flatMap_snoc]
    exact List.append_nil _
  obtain ⟨hrequests, hexchanged, hitems, hrecognised⟩ := h
  obtain ⟨hevents, htable, hadded⟩ := handle_intelMatch hrequests hrecognised now uid descs
  rw [hevents, List.append_nil]
  refine ⟨?_, ?_, ?_, hadded⟩
  · intro uid'
    rw [hhandled, htable]
    exact hrequests uid'
  · rw [hhandled, flatMap_snoc, ← hexchanged, List.append_assoc]
    rfl
  · rw [hhandled, flatMap_snoc, ← hitems]
    exact (List.append_nil _).symm

theorem accounts_of_runs {acts : List Act} {s : State × List Event} (hruns : Runs intel acts s) :
    Accounts intel acts s := by
  refine Run.history_invariant _ accounts_init ?_ hruns
  intro acts s a s' _ hinv hturn
  cases hturn with
  | generate s queue item => exact hinv.generate item
  | handle s queue now event =>
      cases event with
      | itemGen item => exact hinv.itemGen now
      | intelMatch uid descs => exact hinv.intelMatch now

/-- A request and its answer, which are known to come from a master and an outstation. -/
def readRequest : StatsCol.Info where
  ts := 0
  len := 60
  sender := some "10.0.0.1".toList
  receiver := some "10.0.0.2".toList
  protocol := some "DNP3".toList
  func := some "READ".toList
  isResponse := some false
  conn := some ⟨"C1".toList⟩

def readResponse : StatsCol.Info :=
  { readRequest with
    sender := some "10.0.0.2".toList
    receiver := some "10.0.0.1".toList
    func := some "RESPONSE".toList
    isResponse := some true }

def readPair (indicator : Text) : List Text :=
  if indicator = "DNP3;READ;RESPONSE".toList then ["master;outstation".toList] else []

def readActs : List Act :=
  [.generate readRequest, .generate readResponse, .handle 0 (.itemGen readRequest),
    .handle 0 (.itemGen readResponse), .handle 1 (.intelMatch "C1".toList ["master;outstation".toList])]

/-- The master asks and the outstation answers. -/
def readEnds (_ : Text) : Text × Text := ("10.0.0.1".toList, "10.0.0.2".toList)

theorem regular_readActs {a : Act} (ha : a ∈ readActs) (s : State × List Event) : Regular readEnds s a := by
  intro item hitem hresponse conn _ req hreq
  simp only [readActs, List.mem_cons, List.not_mem_nil, or_false] at ha
  rcases ha with rfl | rfl | rfl | rfl | rfl
  · rw [List.mem_singleton.mp hitem] at hreq
    cases hreq
    rfl
  · rw [List.mem_singleton.mp hitem] at hresponse
    cases hresponse
  all_goals cases hitem

theorem runs_readActs : ∃ s,
    Run (Restrict (Turn readPair) (Regular readEnds)) (.init, []) readActs (s, []) := by
  refine ⟨_, ((((Run.single ⟨.generate _ _ readRequest, ?_⟩).snoc ⟨.generate _ _ readResponse, ?_⟩).snoc
    ⟨.handle _ _ 0 _, ?_⟩).snoc ⟨.handle _ _ 0 _, ?_⟩).snoc ⟨.handle _ [] 1 _, ?_⟩⟩
  all_goals exact regular_readActs (by simp [readActs]) _

/-- **Each identity of an address is logged once**, when it is first recognised, and the map holds what has
been logged. -/
theorem log_run {acts : List Act} {s : State} {queue : List Event} (hruns : Runs intel acts (s, queue)) :
    s.log.map Info.pair = (recognised [] acts).eraseDups
      ∧ ∀ ip identity, identity ∈ (s.identityMap.get? ip).getD [] ↔ (ip, identity) ∈ s.log.map Info.pair := by
  obtain ⟨hlog, hmap⟩ := (accounts_of_runs hruns).recognised
  refine ⟨hlog, ?_⟩
  intro ip identity
  rw [hmap, hlog, List.mem_eraseDups]

theorem log_run_readActs : ∃ s : State,
    "master".toList ∈ (s.identityMap.get? "10.0.0.1".toList).getD [] := by
  obtain ⟨s, hruns⟩ := runs_readActs
  refine ⟨s, ?_⟩
  rw [(log_run hruns.forget).2, (log_run hruns.forget).1, List.mem_eraseDups]
  exact List.mem_cons_self

/-! ### Connections with requests one way -/

variable {ends : Text → Text × Text}

theorem lastRequest_ends {items : List StatsCol.Info} (hkeeps : ∀ item ∈ items, Keeps ends item) {uid : Text}
    {req : ReqInfo} (hlast : lastRequest items uid = some req) : (req.requestor, req.responder) = ends uid := by
  induction items using List.reverseRecOn with
  | nil => cases hlast
  | append_singleton items item ih =>
      have hbefore := ih fun item hitem => hkeeps item (List.mem_append_left _ hitem)
      rw [lastRequest_snoc] at hlast
      split at hlast
      next hrequest =>
        obtain ⟨hresponse, hconn⟩ := hrequest
        cases hreq : reqInfo? item with
        | none =>
            rw [hreq, Option.none_or] at hlast
            exact hbefore hlast
        | some req' =>
            rw [hreq, Option.some_or] at hlast
            obtain rfl : req' = req := Option.some.inj hlast
            obtain ⟨conn, hitem, rfl⟩ := Option.map_eq_some_iff.mp hconn
            exact hkeeps item (List.mem_append_right _ (List.mem_singleton_self _)) hresponse conn hitem req' hreq
      next => exact hbefore hlast

/-- A connection with a match has a request. -/
theorem lastRequest_of_mem_exchanges {items : List StatsCol.Info} {uid : Text} {descs : List Text}
    (hmem : (uid, descs) ∈ exchanges intel [] items) : ∃ req, lastRequest items uid = some req := by
  induction items using List.reverseRecOn with
  | nil => cases hmem
  | append_singleton items item ih =>
      have hkept : (∃ req, lastRequest items uid = some req) →
          ∃ req, lastRequest (items ++ [item]) uid = some req := by
        intro hbefore
        obtain ⟨req, hreq⟩ := hbefore
        rw [lastRequest_snoc, hreq]
        split
        · cases reqInfo? item with
          | none => exact ⟨req, rfl⟩
          | some req' => exact ⟨req', rfl⟩
        · exact ⟨req, rfl⟩
      rw [exchanges_snoc, List.nil_append, List.mem_append] at hmem
      rcases hmem with hold | hnew
      · exact hkept (ih hold)
      · apply hkept
        unfold answered at hnew
        split at hnew
        next func conn hfunc hconn hresponse =>
          cases hlast : lastRequest items conn.uid with
          | none =>
              rw [hlast] at hnew
              cases hnew
          | some req =>
              rw [hlast] at hnew
              dsimp only at hnew
              split at hnew
              · obtain ⟨rfl, _⟩ := Prod.mk.inj (List.mem_singleton.mp hnew)
                exact ⟨req, hlast⟩
              · cases hnew
        next => cases hnew

/-- What the matches name does not depend on when they are handled. -/
theorem recognised_of_regular {acts : List Act} {s : State × List Event}
    (hruns : Run (Restrict (Turn intel) (Regular ends)) (.init, []) acts s) :
    (∀ item ∈ acts.flatMap Act.generated, Keeps ends item)
      ∧ recognised [] acts = (acts.flatMap Act.matched).flatMap fun found => named (ends found.1) found.2 := by
  refine Run.history_invariant (fun acts _ => (∀ item ∈ acts.flatMap Act.generated, Keeps ends item)
    ∧ recognised [] acts = (acts.flatMap Act.matched).flatMap fun found => named (ends found.1) found.2)
    ⟨fun item hitem => absurd hitem List.not_mem_nil, rfl⟩ ?_ hruns
  intro acts s a s' hbefore hinv hstep
  obtain ⟨hkeeps, hrecognised⟩ := hinv
  obtain ⟨hturn, hregular⟩ := hstep
  have haccounts := accounts_of_runs hbefore.forget
  refine ⟨?_, ?_⟩
  · intro item hitem
    rw [flatMap_snoc, List.mem_append] at hitem
    exact hitem.elim (hkeeps item) (hregular item)
  · rw [recognised_snoc, flatMap_snoc, List.flatMap_append, hrecognised, List.nil_append]
    cases hturn with
    | generate => rfl
    | handle s queue now event =>
        cases event with
        | itemGen item => rfl
        | intelMatch uid descs =>
            have hmem : (uid, descs) ∈ exchanges intel [] (acts.flatMap Act.handled) := by
              rw [← haccounts.exchanged]
              exact List.mem_append_right _ List.mem_cons_self
            have hhandled : ∀ item ∈ acts.flatMap Act.handled, Keeps ends item := by
              intro item hitem
              apply hkeeps
              rw [← haccounts.items]
              exact List.mem_append_left _ hitem
            obtain ⟨req, hreq⟩ := lastRequest_of_mem_exchanges hmem
            have hends := lastRequest_ends hhandled hreq
            have hnamed : recognisedBy acts (.handle now (.intelMatch uid descs))
                = named (req.requestor, req.responder) descs := by
              rw [recognisedBy, hreq]
            rw [hnamed, hends]
            exact congrArg _ (List.append_nil _).symm

/-- **What is recognised.** When the requests of each connection go one way and nothing is left to handle, the
log holds, once each and in order, the identities that the answered requests give the two ends of their
connections. -/
theorem log_ends {acts : List Act} {s : State}
    (hruns : Run (Restrict (Turn intel) (Regular ends)) (.init, []) acts (s, [])) :
    s.log.map Info.pair
      = ((exchanges intel [] (acts.flatMap Act.generated)).flatMap fun found =>
          named (ends found.1) found.2).eraseDups := by
  obtain ⟨_, hrecognised⟩ := recognised_of_regular hruns
  obtain ⟨_, hexchanged, hitems, hlog, _⟩ := accounts_of_runs hruns.forget
  have hhandled : acts.flatMap Act.handled = acts.flatMap Act.generated := (List.append_nil _).symm.trans hitems
  have hmatched : acts.flatMap Act.matched = exchanges intel [] (acts.flatMap Act.handled) :=
    (List.append_nil _).symm.trans hexchanged
  rw [hlog, hrecognised, hmatched, hhandled]

end

/-- The two ends of the connection are known by what the pair of functions says of them. -/
theorem log_ends_readActs : ∃ s : State,
    s.log.map Info.pair
      = [("10.0.0.1".toList, "master".toList), ("10.0.0.2".toList, "outstation".toList)] := by
  obtain ⟨s, hruns⟩ := runs_readActs
  refine ⟨s, ?_⟩
  rw [log_ends hruns]
  rfl

end Armore.IdRecog
