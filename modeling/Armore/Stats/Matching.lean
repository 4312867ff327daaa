import Armore.Lib.Latest
import Armore.Stats.Items

/-!
# Responses and their requests

`req_table` holds one entry for each connection: the last request, and whether it was answered. A pair is
the position of a request and the position of the response that was matched with it, in the sequence of
all items.
-/

namespace Armore.StatsCount

open Lib
open StatsCol (Info)

/-- An item of the function level, with all its names, on a connection. -/
def OnConn (item : Info) (isResponse : Bool) (conn : Text) : Prop :=
  item.target = none ∧ (item.path 5).isSome = true ∧ item.conn.map (·.uid) = some conn
    ∧ item.isResponse = some isResponse

abbrev IsRequest (conn : Text) (item : Info) : Prop := OnConn item false conn

abbrev IsResponse (conn : Text) (item : Info) : Prop := OnConn item true conn

/-- The observations of `functions_res`. -/
def delays (observed : List Observation) : List Observation :=
  observed.filter fun o => o.stream = .functionsRes

/-- What concerns the matching: the table and the delays. -/
def Effect.matching (effect : Effect) : Effect := (effect.1, delays effect.2)

/-- The response at `pair.2` was matched with the request at `pair.1`, the last one on its connection, and
`o` is what was observed. -/
def Paired (items : List Info) (pair : Nat × Nat) (o : Observation) : Prop :=
  ∃ request response conn names,
    items[pair.1]? = some request ∧ items[pair.2]? = some response ∧ IsResponse conn response
      ∧ Latest (IsRequest conn) (items.take pair.2) pair.1
      ∧ response.receiver = request.sender ∧ response.sender = request.receiver
      ∧ response.protocol = request.protocol ∧ response.uid.map swapUid = request.uid
      ∧ request.path 5 = some names ∧ o.str = some (key names) ∧ o.dbl = some (response.ts - request.ts)

/-! ### The names of an item -/

theorem path_isSome_of_succ {item : Info} {n : Nat} (hpath : (item.path (n + 1)).isSome = true) :
    (item.path n).isSome = true := by
  obtain ⟨names, hnames⟩ := Option.isSome_iff_exists.mp hpath
  obtain ⟨above, _, habove, _⟩ := StatsCol.Info.path_succ hnames
  rw [habove]
  rfl

theorem field_isSome_of_path {item : Info} {n : Nat} (hpath : (item.path (n + 1)).isSome = true) :
    (item.field n).isSome = true := by
  obtain ⟨names, hnames⟩ := Option.isSome_iff_exists.mp hpath
  obtain ⟨_, name, _, hname, _⟩ := StatsCol.Info.path_succ hnames
  rw [hname]
  rfl

/-- The names of a request are those of its entry. -/
def ReqInfo.names (req : ReqInfo) : List Text :=
  [req.requestor, req.responder, req.protocol, req.uid, req.reqFunc]

theorem path_of_reqInfo? {item : Info} {req : ReqInfo} (hreq : reqInfo? item = some req) :
    item.sender = some req.requestor ∧ item.receiver = some req.responder
      ∧ item.protocol = some req.protocol ∧ item.uid = some req.uid ∧ item.path 5 = some req.names
      ∧ req.reqTime = item.ts := by
  simp only [reqInfo?, bind, Option.bind_eq_some_iff, pure, Option.some.injEq] at hreq
  obtain ⟨sender, hsender, receiver, hreceiver, protocol, hprotocol, uid, huid, func, hfunc, rfl⟩ := hreq
  refine ⟨hsender, hreceiver, hprotocol, huid, ?_, rfl⟩
  simp [StatsCol.Info.path, StatsCol.Info.field, hsender, hreceiver, hprotocol, huid, hfunc, ReqInfo.names]

theorem reqInfo?_of_path {item : Info} (hpath : (item.path 5).isSome = true) :
    ∃ req, reqInfo? item = some req ∧ req.isResponded = false := by
  obtain ⟨func, hfunc⟩ := Option.isSome_iff_exists.mp (field_isSome_of_path hpath)
  have hpath := path_isSome_of_succ hpath
  obtain ⟨uid, huid⟩ := Option.isSome_iff_exists.mp (field_isSome_of_path hpath)
  have hpath := path_isSome_of_succ hpath
  obtain ⟨protocol, hprotocol⟩ := Option.isSome_iff_exists.mp (field_isSome_of_path hpath)
  have hpath := path_isSome_of_succ hpath
  obtain ⟨receiver, hreceiver⟩ := Option.isSome_iff_exists.mp (field_isSome_of_path hpath)
  obtain ⟨sender, hsender⟩ :=
    Option.isSome_iff_exists.mp (field_isSome_of_path (path_isSome_of_succ hpath))
  simp only [StatsCol.Info.field] at hfunc huid hprotocol hreceiver hsender
  simp [reqInfo?, hfunc, huid, hprotocol, hreceiver, hsender]

/-! ### What one item does to the table -/

section

variable {levels : Nat} {item : Info} {conn : Text} {reqTable : Table Text ReqInfo}

theorem matching_observe (level : Level) (suffix : Text) (rest : Effect) :
    (observe item level suffix reqTable rest).matching
      = if (item.path level.depth).isSome = true then rest.matching else (reqTable, []) := by
  unfold observe
  cases item.path level.depth <;> rfl

theorem protocol_ne_none (hpath : (item.path 5).isSome = true) : item.protocol ≠ none := by
  intro hnone
  have hfield := field_isSome_of_path (path_isSome_of_succ (path_isSome_of_succ hpath))
  rw [StatsCol.Info.field, hnone] at hfield
  cases hfield

theorem itemSeen_function (hlevels : 5 ≤ levels) (htarget : item.target = none)
    (hpath : (item.path 5).isSome = true) (reqTable : Table Text ReqInfo) :
    itemSeen levels item reqTable
      = observe item .protocols [] reqTable (observe item .uid [] reqTable (functionSeen item reqTable)) := by
  rw [itemSeen, if_neg (protocol_ne_none hpath), if_pos htarget, if_pos (by omega : 4 ≤ levels),
    if_pos hlevels]

theorem matching_itemSeen_function (hlevels : 5 ≤ levels) (htarget : item.target = none)
    (hpath : (item.path 5).isSome = true) :
    (itemSeen levels item reqTable).matching = (functionSeen item reqTable).matching := by
  have huid := path_isSome_of_succ hpath
  rw [itemSeen_function hlevels htarget hpath, matching_observe, matching_observe]
  exact (if_pos (path_isSome_of_succ huid)).trans (if_pos huid)

theorem matching_itemSeen_request (hlevels : 5 ≤ levels) (hrequest : IsRequest conn item)
    (reqTable : Table Text ReqInfo) :
    ∃ req, reqInfo? item = some req ∧ req.isResponded = false
      ∧ (itemSeen levels item reqTable).matching = (reqTable.put conn req, []) := by
  obtain ⟨htarget, hpath, hconn, hresponse⟩ := hrequest
  obtain ⟨c, hc, rfl⟩ := Option.map_eq_some_iff.mp hconn
  obtain ⟨req, hreq, hresponded⟩ := reqInfo?_of_path hpath
  refine ⟨req, hreq, hresponded, ?_⟩
  rw [matching_itemSeen_function hlevels htarget hpath, functionSeen, hc, hresponse]
  show (observe item .functions _ reqTable _).matching = _
  rw [matching_observe, requestSeen, hreq]
  exact if_pos hpath

theorem matching_itemSeen_response (hlevels : 5 ≤ levels) (hresponse : IsResponse conn item)
    (reqTable : Table Text ReqInfo) :
    (itemSeen levels item reqTable).matching = (responseSeen item conn reqTable).matching := by
  obtain ⟨htarget, hpath, hconn, hresponse⟩ := hresponse
  obtain ⟨c, hc, rfl⟩ := Option.map_eq_some_iff.mp hconn
  rw [matching_itemSeen_function hlevels htarget hpath, functionSeen, hc, hresponse]
  show (observe item .functions _ reqTable _).matching = _
  rw [matching_observe]
  exact if_pos hpath

theorem matching_itemSeen_other (hother : levels < 5 ∨ ∀ isResponse conn, ¬ OnConn item isResponse conn) :
    (itemSeen levels item reqTable).matching = (reqTable, []) := by
  have hquiet : ∀ (level : Level) (suffix : Text) (rest : Effect), rest.matching = (reqTable, []) →
      (observe item level suffix reqTable rest).matching = (reqTable, []) := by
    intro level suffix rest hrest
    rw [matching_observe, hrest, ite_self]
  have hfunction : 5 ≤ levels → item.target = none → (functionSeen item reqTable).matching = (reqTable, []) := by
    intro hlevels htarget
    have hother := hother.resolve_left (by omega)
    rw [functionSeen]
    cases hconn : item.conn with
    | none => rfl
    | some conn =>
        have hpath : item.isResponse.isSome = true → (item.path 5).isSome ≠ true := by
          intro hsome hpath
          obtain ⟨isResponse, hresponse⟩ := Option.isSome_iff_exists.mp hsome
          exact hother isResponse conn.uid ⟨htarget, hpath, by rw [hconn]; rfl, hresponse⟩
        cases hresponse : item.isResponse with
        | none => exact hquiet _ _ _ rfl
        | some isResponse =>
            rw [hresponse] at hpath
            cases isResponse with
            | false => exact (matching_observe _ _ _).trans (if_neg (hpath rfl))
            | true => exact (matching_observe _ _ _).trans (if_neg (hpath rfl))
  rw [itemSeen]
  split
  · refine hquiet _ _ _ ?_
    split
    · exact hquiet _ _ _ rfl
    · rfl
  · split
    · refine hquiet _ _ _ ?_
      split
      · refine hquiet _ _ _ ?_
        split
        · exact hfunction ‹_› ‹_›
        · rfl
      · rfl
    · exact hquiet _ _ _ rfl

/-- A response either finds nothing to answer or answers the entry of its connection. -/
theorem responseSeen_cases (item : Info) (conn : Text) (reqTable : Table Text ReqInfo) :
    responseSeen item conn reqTable = (reqTable, [])
      ∨ ∃ req, reqTable.get? conn = some req ∧ Answers item req
        ∧ responseSeen item conn reqTable
          = (reqTable.put conn { req with isResponded := true },
              [{ stream := .functionsRes, str := key req.names, dbl := item.ts - req.reqTime }]) := by
  rw [responseSeen]
  cases hget : reqTable.get? conn with
  | none => exact Or.inl rfl
  | some req =>
      by_cases hanswers : Answers item req
      · have ⟨hreceiver, hsender, hprotocol, huid, _⟩ := hanswers
        obtain ⟨uid, hitemUid, hswap⟩ := Option.map_eq_some_iff.mp huid
        refine Or.inr ⟨req, rfl, hanswers, (if_pos hanswers).trans ?_⟩
        rw [hreceiver, hsender, hprotocol, hitemUid]
        show (_, [_]) = _
        rw [hswap]
        rfl
      · exact Or.inl (if_neg hanswers)

end

/-! ### The delays -/

/-- Observations of delays, each with the names of a request. -/
def DelaysOnly (observed : List Observation) : Prop :=
  ∀ o ∈ observed, o.stream = .functionsRes ∧ o.num = none ∧ o.dbl.isSome = true
    ∧ ∃ names : List Text, names.length = 5 ∧ o.str = some (key names)

theorem delaysOnly_nil : DelaysOnly [] := by
  intro o ho
  cases ho

theorem delaysOnly_responseSeen (item : Info) (conn : Text) (reqTable : Table Text ReqInfo) :
    DelaysOnly (responseSeen item conn reqTable).2 := by
  rcases responseSeen_cases item conn reqTable with hseen | ⟨req, _, _, hseen⟩
  · rw [hseen]
    exact delaysOnly_nil
  · rw [hseen]
    intro o ho
    rw [List.mem_singleton] at ho
    subst ho
    exact ⟨rfl, rfl, rfl, req.names, rfl, rfl⟩

theorem delaysOnly_itemSeen (levels : Nat) (item : Info) (reqTable : Table Text ReqInfo) :
    DelaysOnly (delays (itemSeen levels item reqTable).2) := by
  have hnone : (itemSeen levels item reqTable).matching = (reqTable, []) →
      DelaysOnly (delays (itemSeen levels item reqTable).2) := by
    intro heffect
    obtain ⟨_, hdelays⟩ := Prod.mk.inj heffect
    rw [hdelays]
    exact delaysOnly_nil
  by_cases hlevels : levels < 5
  · exact hnone (matching_itemSeen_other (Or.inl hlevels))
  · have hlevels : 5 ≤ levels := Nat.le_of_not_lt hlevels
    by_cases hitem : ∃ isResponse conn, OnConn item isResponse conn
    · obtain ⟨isResponse, conn, hitem⟩ := hitem
      cases isResponse with
      | false =>
          obtain ⟨_, _, _, heffect⟩ := matching_itemSeen_request hlevels hitem reqTable
          obtain ⟨_, hdelays⟩ := Prod.mk.inj heffect
          rw [hdelays]
          exact delaysOnly_nil
      | true =>
          obtain ⟨_, hdelays⟩ := Prod.mk.inj (matching_itemSeen_response hlevels hitem reqTable)
          rw [hdelays]
          intro o ho
          exact delaysOnly_responseSeen item conn reqTable o (List.mem_of_mem_filter ho)
    · apply hnone
      apply matching_itemSeen_other
      right
      intro isResponse conn hitem'
      exact hitem ⟨isResponse, conn, hitem'⟩

/-! ### The table and the pairs -/

theorem Paired.snoc {items : List Info} {pair : Nat × Nat} {o : Observation} (hpaired : Paired items pair o)
    (item : Info) : Paired (items ++ [item]) pair o := by
  obtain ⟨request, response, conn, names, hrequest, hresponse, hconn, hlatest, hrest⟩ := hpaired
  refine ⟨request, response, conn, names, getElem?_append_of_some hrequest,
    getElem?_append_of_some hresponse, hconn, ?_, hrest⟩
  rwa [List.take_append_of_le_length (lt_length_of_getElem? hresponse).le]

/-- After a sequence of items: what `req_table` knows of them, and the pairs that were made. -/
structure Matched (items : List Info) (reqTable : Table Text ReqInfo) (pairs : List (Nat × Nat)) : Prop where
  bound : ∀ pair ∈ pairs, pair.1 < items.length ∧ pair.2 < items.length
  requests : (pairs.map Prod.fst).Nodup
  responses : (pairs.map Prod.snd).Nodup
  entries : ∀ conn req, reqTable.get? conn = some req →
    ∃ k request, Latest (IsRequest conn) items k ∧ items[k]? = some request
      ∧ reqInfo? request = some { req with isResponded := false }
      ∧ (req.isResponded = false → k ∉ pairs.map Prod.fst)

namespace Matched

variable {items : List Info} {reqTable : Table Text ReqInfo} {pairs : List (Nat × Nat)}

theorem nil : Matched [] ∅ [] := by
  refine ⟨?_, List.nodup_nil, List.nodup_nil, ?_⟩
  · intro pair hpair
    cases hpair
  · intro conn req hget
    cases hget

theorem bound_snoc (hmatched : Matched items reqTable pairs) (item : Info) :
    ∀ pair ∈ pairs, pair.1 < (items ++ [item]).length ∧ pair.2 < (items ++ [item]).length := by
  intro pair hpair
  obtain ⟨hrequest, hresponse⟩ := hmatched.bound pair hpair
  rw [List.length_append, List.length_singleton]
  omega

theorem length_notMem (hmatched : Matched items reqTable pairs) :
    items.length ∉ pairs.map Prod.fst ∧ items.length ∉ pairs.map Prod.snd := by
  constructor
  · intro hmem
    obtain ⟨pair, hpair, heq⟩ := List.mem_map.mp hmem
    exact (hmatched.bound pair hpair).1.ne heq
  · intro hmem
    obtain ⟨pair, hpair, heq⟩ := List.mem_map.mp hmem
    exact (hmatched.bound pair hpair).2.ne heq

theorem entry_snoc (hmatched : Matched items reqTable pairs) {item : Info} {conn : Text} {req : ReqInfo}
    (hget : reqTable.get? conn = some req) (hitem : ¬ IsRequest conn item) :
    ∃ k request, Latest (IsRequest conn) (items ++ [item]) k ∧ (items ++ [item])[k]? = some request
      ∧ reqInfo? request = some { req with isResponded := false }
      ∧ (req.isResponded = false → k ∉ pairs.map Prod.fst) := by
  obtain ⟨k, request, hlatest, hk, hreq, hunpaired⟩ := hmatched.entries conn req hget
  exact ⟨k, request, hlatest.snoc hitem, getElem?_append_of_some hk, hreq, hunpaired⟩

theorem request (hmatched : Matched items reqTable pairs) {item : Info} {conn : Text}
    (hrequest : IsRequest conn item) {req : ReqInfo} (hreq : reqInfo? item = some req)
    (hresponded : req.isResponded = false) : Matched (items ++ [item]) (reqTable.put conn req) pairs where
  bound := hmatched.bound_snoc item
  requests := hmatched.requests
  responses := hmatched.responses
  entries := by
    intro conn' req' hget
    rw [Table.get?_put] at hget
    split at hget
    · subst conn'
      cases hget
      refine ⟨items.length, item, Latest.snoc_self hrequest, getElem?_snoc_length items item, ?_, ?_⟩
      · rw [hreq]
        cases req
        cases hresponded
        rfl
      · intro _
        exact hmatched.length_notMem.1
    · rename_i hne
      apply hmatched.entry_snoc hget
      intro hrequest'
      exact hne (Option.some.inj (hrequest'.2.2.1.symm.trans hrequest.2.2.1))

theorem quiet (hmatched : Matched items reqTable pairs) {item : Info}
    (hitem : ∀ conn, ¬ IsRequest conn item) : Matched (items ++ [item]) reqTable pairs where
  bound := hmatched.bound_snoc item
  requests := hmatched.requests
  responses := hmatched.responses
  entries := by
    intro conn req hget
    exact hmatched.entry_snoc hget (hitem conn)

/-- Answering the entry of a connection pairs the response with its last request. -/
theorem answer (hmatched : Matched items reqTable pairs) {item : Info} {conn : Text}
    (hresponse : IsResponse conn item) {req : ReqInfo} (hget : reqTable.get? conn = some req)
    (hanswers : Answers item req) :
    ∃ k, Latest (IsRequest conn) items k
      ∧ Matched (items ++ [item]) (reqTable.put conn { req with isResponded := true })
          (pairs ++ [(k, items.length)])
      ∧ Paired (items ++ [item]) (k, items.length)
          { stream := .functionsRes, str := key req.names, dbl := item.ts - req.reqTime } := by
  have hitem : ∀ conn, ¬ IsRequest conn item := by
    intro conn hrequest
    exact Bool.false_ne_true (Option.some.inj (hrequest.2.2.2.symm.trans hresponse.2.2.2))
  obtain ⟨hreceiver, hsender, hprotocol, huid, hresponded⟩ := hanswers
  obtain ⟨k, request, hlatest, hk, hreq, hunpaired⟩ := hmatched.entries conn req hget
  refine ⟨k, hlatest, ?_, ?_⟩
  · refine ⟨?_, ?_, ?_, ?_⟩
    · intro pair hpair
      rcases List.mem_append.mp hpair with hpair | hpair
      · exact hmatched.bound_snoc item pair hpair
      · rw [List.mem_singleton] at hpair
        subst hpair
        have hbound := hlatest.lt_length
        rw [List.length_append, List.length_singleton]
        exact ⟨hbound.trans (Nat.lt_succ_self _), Nat.lt_succ_self _⟩
    · rw [List.map_append, List.map_singleton, List.nodup_append_comm]
      exact List.nodup_cons.mpr ⟨hunpaired hresponded, hmatched.requests⟩
    · rw [List.map_append, List.map_singleton, List.nodup_append_comm]
      exact List.nodup_cons.mpr ⟨hmatched.length_notMem.2, hmatched.responses⟩
    · intro conn' req' hget'
      rw [Table.get?_put] at hget'
      split at hget'
      · subst conn'
        cases hget'
        obtain ⟨k', request', hlatest', hk', hreq', _⟩ := hmatched.entry_snoc hget (hitem conn)
        refine ⟨k', request', hlatest', hk', hreq', ?_⟩
        intro hresponded'
        cases hresponded'
      · rename_i hne
        obtain ⟨k', request', hlatest', hk', hreq', hunpaired'⟩ := hmatched.entry_snoc hget' (hitem conn')
        refine ⟨k', request', hlatest', hk', hreq', ?_⟩
        intro hresponded' hmem
        rw [List.map_append, List.mem_append] at hmem
        rcases hmem with hmem | hmem
        · exact hunpaired' hresponded' hmem
        · -- a request is on one connection only
          obtain rfl : k' = k := by simpa using hmem
          obtain ⟨⟨request₁, hk₁, hrequest₁⟩, _⟩ := hlatest
          obtain ⟨⟨request₂, hk₂, hrequest₂⟩, _⟩ := hlatest'
          rw [getElem?_append_of_some hk₁] at hk₂
          cases hk₂
          exact hne (Option.some.inj (hrequest₂.2.2.1.symm.trans hrequest₁.2.2.1))
  · obtain ⟨hrequestor, hresponder, hprotocol', huid', hpath, htime⟩ := path_of_reqInfo? hreq
    refine ⟨request, item, conn, _, getElem?_append_of_some hk, getElem?_snoc_length items item, hresponse,
      ?_, ?_, ?_, ?_, ?_, hpath, rfl, ?_⟩
    · rw [List.take_left]
      exact hlatest
    · rw [hreceiver, hrequestor]
    · rw [hsender, hresponder]
    · rw [hprotocol, hprotocol']
    · rw [huid, huid']
    · rw [← htime]

/-- What an item adds: pairs for the delays it is observed with, each with the request that it answers. -/
structure Adds (levels : Nat) (items : List Info) (reqTable : Table Text ReqInfo) (pairs : List (Nat × Nat))
    (item : Info) (new : List (Nat × Nat)) : Prop where
  matched : Matched (items ++ [item]) (itemSeen levels item reqTable).1 (pairs ++ new)
  paired : List.Forall₂ (Paired (items ++ [item])) new (delays (itemSeen levels item reqTable).2)
  answers : ∀ pair ∈ new, ∃ conn req, IsResponse conn item ∧ reqTable.get? conn = some req
    ∧ Answers item req ∧ Latest (IsRequest conn) items pair.1

theorem adds_nil {levels : Nat} {item : Info} {reqTable' : Table Text ReqInfo}
    (hmatched : Matched (items ++ [item]) reqTable' pairs)
    (heffect : (itemSeen levels item reqTable).matching = (reqTable', [])) :
    Adds levels items reqTable pairs item [] := by
  obtain ⟨htable, hdelays⟩ := Prod.mk.inj heffect
  refine ⟨?_, ?_, ?_⟩
  · rw [List.append_nil, htable]
    exact hmatched
  · rw [hdelays]
    exact .nil
  · intro pair hpair
    cases hpair

/-- **One item.** -/
theorem itemSeen {levels : Nat} (hlevels : 5 ≤ levels) (hmatched : Matched items reqTable pairs)
    (item : Info) : ∃ new, Adds levels items reqTable pairs item new := by
  by_cases hrequest : ∃ conn, IsRequest conn item
  · obtain ⟨conn, hrequest⟩ := hrequest
    obtain ⟨req, hreq, hresponded, heffect⟩ := matching_itemSeen_request hlevels hrequest reqTable
    exact ⟨[], adds_nil (hmatched.request hrequest hreq hresponded) heffect⟩
  · have hquiet := hmatched.quiet (fun conn hitem => hrequest ⟨conn, hitem⟩)
    by_cases hresponse : ∃ conn, IsResponse conn item
    · obtain ⟨conn, hresponse⟩ := hresponse
      have heffect := matching_itemSeen_response hlevels hresponse reqTable
      rcases responseSeen_cases item conn reqTable with hseen | ⟨req, hget, hanswers, hseen⟩
      · rw [hseen] at heffect
        exact ⟨[], adds_nil hquiet heffect⟩
      · rw [hseen] at heffect
        obtain ⟨htable, hdelays⟩ := Prod.mk.inj heffect
        obtain ⟨k, hlatest, hmatched', hpaired⟩ := hmatched.answer hresponse hget hanswers
        refine ⟨[(k, items.length)], ?_, ?_, ?_⟩
        · rw [htable]
          exact hmatched'
        · rw [hdelays]
          exact .cons hpaired .nil
        · intro pair hpair
          rw [List.mem_singleton] at hpair
          subst hpair
          exact ⟨conn, req, hresponse, hget, hanswers, hlatest⟩
    · have hother : ∀ isResponse conn, ¬ OnConn item isResponse conn := by
        intro isResponse conn hitem
        cases isResponse with
        | false => exact hrequest ⟨conn, hitem⟩
        | true => exact hresponse ⟨conn, hitem⟩
      exact ⟨[], adds_nil hquiet (matching_itemSeen_other (Or.inr hother))⟩

end Matched

theorem itemsSeen_snoc (levels : Nat) (items : List Info) (item : Info) (reqTable : Table Text ReqInfo) :
    itemsSeen levels (items ++ [item]) reqTable
      = ((itemSeen levels item (itemsSeen levels items reqTable).1).1,
        (itemsSeen levels items reqTable).2
          ++ (itemSeen levels item (itemsSeen levels items reqTable).1).2) := by
  rw [itemsSeen, List.foldl_append]
  rfl

theorem delays_append (observed observed' : List Observation) :
    delays (observed ++ observed') = delays observed ++ delays observed' :=
  List.filter_append ..

theorem delaysOnly_itemsSeen (levels : Nat) (items : List Info) (reqTable : Table Text ReqInfo) :
    DelaysOnly (delays (itemsSeen levels items reqTable).2) := by
  induction items using List.reverseRecOn with
  | nil => exact delaysOnly_nil
  | append_singleton items item ih =>
      rw [itemsSeen_snoc, delays_append]
      intro o ho
      rcases List.mem_append.mp ho with ho | ho
      · exact ih o ho
      · exact delaysOnly_itemSeen levels item _ o ho

/-- Every delay of a sequence of items belongs to a pair of its own. -/
theorem matched_itemsSeen {levels : Nat} (hlevels : 5 ≤ levels) (items : List Info) :
    ∃ pairs, Matched items (itemsSeen levels items ∅).1 pairs
      ∧ List.Forall₂ (Paired items) pairs (delays (itemsSeen levels items ∅).2) := by
  induction items using List.reverseRecOn with
  | nil => exact ⟨[], .nil, .nil⟩
  | append_singleton items item ih =>
      obtain ⟨pairs, hmatched, hpaired⟩ := ih
      obtain ⟨new, hadds⟩ := hmatched.itemSeen hlevels item
      refine ⟨pairs ++ new, ?_, ?_⟩
      · rw [itemsSeen_snoc]
        exact hadds.matched
      · rw [itemsSeen_snoc, delays_append]
        exact List.rel_append (hpaired.imp fun _ _ hpair => hpair.snoc item) hadds.paired

/-- Below the function level no delay is observed. -/
theorem delays_itemsSeen_of_lt {levels : Nat} (hlevels : levels < 5) (items : List Info) :
    delays (itemsSeen levels items ∅).2 = [] := by
  induction items using List.reverseRecOn with
  | nil => rfl
  | append_singleton items item ih =>
      rw [itemsSeen_snoc, delays_append, ih]
      exact (Prod.mk.inj (matching_itemSeen_other (Or.inl hlevels))).2

/-! ### Counting -/

/-- The key under which a request is counted, without its suffix. -/
def requestKey? (item : Info) : Option Text :=
  if item.target = none ∧ item.conn.isSome = true ∧ item.isResponse = some false then (item.path 5).map key
  else none

/-- The number of delays under a key. -/
def delaysOf (str : Text) (observed : List Observation) : Nat :=
  observed.countP fun o => o.stream = .functionsRes ∧ o.str = some str

theorem delaysOf_eq (str : Text) (observed : List Observation) :
    delaysOf str observed = (delays observed).countP fun o => o.str = some str := by
  rw [delays, List.countP_filter, delaysOf]
  congr 1
  funext o
  rw [Bool.decide_and, Bool.and_comm]

/-- The number of times a key was counted at the function level. -/
def functionsOf (str : Text) (observed : List Observation) : Nat :=
  observed.countP fun o => o.stream = .count .functions ∧ o.str = some str

theorem requestKey?_of_isRequest {item : Info} {conn : Text} {names : List Text}
    (hrequest : IsRequest conn item) (hnames : item.path 5 = some names) :
    requestKey? item = some (key names) := by
  obtain ⟨htarget, _, hconn, hresponse⟩ := hrequest
  have hsome : item.conn.isSome = true := by
    rw [← Option.isSome_map, hconn]
    rfl
  rw [requestKey?, if_pos ⟨htarget, hsome, hresponse⟩, hnames]
  rfl

theorem functionsOf_observe_rest {item : Info} {level : Level} (hpath : (item.path level.depth).isSome = true)
    (suffix str : Text) (reqTable : Table Text ReqInfo) (rest : Effect) :
    functionsOf str rest.2 ≤ functionsOf str (observe item level suffix reqTable rest).2 := by
  obtain ⟨names, hnames⟩ := Option.isSome_iff_exists.mp hpath
  rw [observe, hnames]
  exact (((List.sublist_cons_self _ _).trans (List.sublist_cons_self _ _)).countP_le)

theorem functionsOf_request {levels : Nat} (hlevels : 5 ≤ levels) {item : Info} {str : Text}
    (hkey : requestKey? item = some str) (reqTable : Table Text ReqInfo) :
    1 ≤ functionsOf (str ++ ":T".toList) (itemSeen levels item reqTable).2 := by
  rw [requestKey?, Option.ite_none_right_eq_some] at hkey
  obtain ⟨⟨htarget, hconn, hresponse⟩, hpath⟩ := hkey
  obtain ⟨names, hnames, rfl⟩ := Option.map_eq_some_iff.mp hpath
  have hsome : (item.path 5).isSome = true := by
    rw [hnames]
    rfl
  obtain ⟨conn, hconn⟩ := Option.isSome_iff_exists.mp hconn
  have hcounted : 1 ≤ functionsOf (key names ++ ":T".toList) (functionSeen item reqTable).2 := by
    rw [functionSeen, hconn, hresponse]
    show 1 ≤ functionsOf _ (observe item .functions _ reqTable _).2
    have hdepth : item.path Level.functions.depth = some names := hnames
    rw [observe, hdepth, functionsOf, List.countP_cons_of_pos (by simp)]
    exact Nat.succ_le_succ (Nat.zero_le _)
  have huid := path_isSome_of_succ hsome
  rw [itemSeen_function hlevels htarget hsome]
  calc 1 ≤ functionsOf (key names ++ ":T".toList) (functionSeen item reqTable).2 := hcounted
    _ ≤ functionsOf _ (observe item .uid [] reqTable _).2 := functionsOf_observe_rest huid ..
    _ ≤ functionsOf _ (observe item .protocols [] reqTable _).2 :=
        functionsOf_observe_rest (path_isSome_of_succ huid) ..

theorem functionsOf_itemsSeen {levels : Nat} (hlevels : 5 ≤ levels) (str : Text) (items : List Info)
    (reqTable : Table Text ReqInfo) :
    items.countP (fun item => requestKey? item = some str)
      ≤ functionsOf (str ++ ":T".toList) (itemsSeen levels items reqTable).2 := by
  induction items using List.reverseRecOn with
  | nil => exact Nat.zero_le _
  | append_singleton items item ih =>
      rw [itemsSeen_snoc, functionsOf, List.countP_append, List.countP_append, List.countP_singleton]
      apply Nat.add_le_add ih
      split
      · exact functionsOf_request hlevels (of_decide_eq_true ‹_›) _
      · exact Nat.zero_le _

/-- Delays whose requests are all in the second part of the items are no more than the requests there. -/
theorem countP_delays_le {before during : List Info} {pairs : List (Nat × Nat)} {observed : List Observation}
    (hpaired : List.Forall₂ (Paired (before ++ during)) pairs observed) (hnodup : (pairs.map Prod.fst).Nodup)
    (hfrom : ∀ pair ∈ pairs, before.length ≤ pair.1) (str : Text) :
    observed.countP (fun o => o.str = some str)
      ≤ during.countP fun item => requestKey? item = some str := by
  have hcount : ∀ (pairs : List (Nat × Nat)) (observed : List Observation),
      List.Forall₂ (Paired (before ++ during)) pairs observed →
      observed.countP (fun o => o.str = some str)
        = (pairs.filter fun pair => ((before ++ during)[pair.1]?.bind requestKey?) = some str).length := by
    intro pairs observed hpaired
    induction hpaired with
    | nil => rfl
    | @cons pair o pairs observed hpair _ ih =>
        obtain ⟨request, _, conn, names, hrequest, _, _, hlatest, _, _, _, _, hnames, ho, _⟩ := hpair
        obtain ⟨⟨request', hrequest', hconn⟩, _⟩ := hlatest
        rw [List.getElem?_take] at hrequest'
        split at hrequest'
        · rw [hrequest] at hrequest'
          cases hrequest'
          have hkey : ((before ++ during)[pair.1]?.bind requestKey?) = o.str := by
            rw [hrequest, ho]
            exact requestKey?_of_isRequest hconn hnames
          rw [List.countP_cons, List.filter_cons, ih, hkey]
          split <;> rfl
        · cases hrequest'
  rw [hcount pairs observed hpaired, ← List.length_map (f := Prod.fst)]
  apply length_le_countP
  · exact (List.filter_sublist.map Prod.fst).nodup hnodup
  · intro k hk
    obtain ⟨pair, hpair, rfl⟩ := List.mem_map.mp hk
    obtain ⟨hmem, hkey⟩ := List.mem_filter.mp hpair
    obtain ⟨item, hitem, hitemKey⟩ := Option.bind_eq_some_iff.mp (of_decide_eq_true hkey)
    exact ⟨hfrom pair hmem, item, hitem, decide_eq_true hitemKey⟩

/-- **Matching.** Each delay belongs to a pair of a response and the last request before it on its
connection; no request and no response is in two pairs; and no path has more delays than requests. -/
theorem delays_matched (levels : Nat) (items : List Info) :
    ∃ pairs : List (Nat × Nat),
      List.Forall₂ (Paired items) pairs (delays (itemsSeen levels items ∅).2)
        ∧ (pairs.map Prod.fst).Nodup ∧ (pairs.map Prod.snd).Nodup
        ∧ ∀ names : List Text,
          delaysOf (key names) (itemsSeen levels items ∅).2
            ≤ functionsOf (key names ++ ":T".toList) (itemsSeen levels items ∅).2 := by
  by_cases hlevels : 5 ≤ levels
  · obtain ⟨pairs, hmatched, hpaired⟩ := matched_itemsSeen hlevels items
    refine ⟨pairs, hpaired, hmatched.requests, hmatched.responses, ?_⟩
    intro names
    have hall : List.Forall₂ (Paired ([] ++ items)) pairs (delays (itemsSeen levels items ∅).2) := hpaired
    calc delaysOf (key names) (itemsSeen levels items ∅).2
        = (delays (itemsSeen levels items ∅).2).countP (fun o => o.str = some (key names)) :=
          delaysOf_eq _ _
      _ ≤ items.countP (fun item => requestKey? item = some (key names)) :=
          countP_delays_le hall hmatched.requests (fun _ _ => Nat.zero_le _) _
      _ ≤ functionsOf (key names ++ ":T".toList) (itemsSeen levels items ∅).2 :=
          functionsOf_itemsSeen hlevels _ _ _
  · have hnone := delays_itemsSeen_of_lt (Nat.lt_of_not_le hlevels) items
    refine ⟨[], ?_, List.nodup_nil, List.nodup_nil, ?_⟩
    · rw [hnone]
      exact .nil
    · intro names
      rw [delaysOf_eq, hnone]
      exact Nat.zero_le _

end Armore.StatsCount
