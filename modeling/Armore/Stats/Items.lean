import Armore.Stats.Tree

/-!
# Items and what is observed of them

A packet of `StatsCol` makes items of three kinds: one of the packet itself, one for the function it
carries, one for each target. `StatsCount` turns an item into observations, each on a stream of its own
level, and remembers in `req_table` the last request of every connection, to find the delay of the
response. An address is the text `cat` makes of it. A field that is read while it is missing is a run-time
error, which ends the handler.
-/

namespace Armore

open Lib

namespace StatsCol

/-- What is read of a `connection`. -/
structure Connection where
  uid : Text

/-- `StatsCol::Info`. -/
structure Info where
  ts : ℚ
  len : Nat
  sender : Option Text := none
  receiver : Option Text := none
  protocol : Option Text := none
  uid : Option Text := none
  func : Option Text := none
  target : Option Text := none
  isResponse : Option Bool := none
  conn : Option Connection := none

namespace Info

/-- The fields that name a node of the tree, by the depth of the node above it. -/
def field (item : Info) : Nat → Option Text
  | 0 => item.sender
  | 1 => item.receiver
  | 2 => item.protocol
  | 3 => item.uid
  | 4 => item.func
  | 5 => item.target
  | _ => none

/-- The first fields, from the sender on. -/
def path (item : Info) : Nat → Option (List Text)
  | 0 => some []
  | n + 1 => do return (← item.path n) ++ [← item.field n]

theorem path_succ {item : Info} {n : Nat} {names : List Text} (hpath : item.path (n + 1) = some names) :
    ∃ above name, item.path n = some above ∧ item.field n = some name ∧ names = above ++ [name] := by
  rw [path] at hpath
  simp only [bind, Option.bind_eq_some_iff, pure, Option.some.injEq] at hpath
  obtain ⟨above, habove, name, hname, rfl⟩ := hpath
  exact ⟨above, name, habove, hname, rfl⟩

theorem length_path {item : Info} {n : Nat} {names : List Text} (hpath : item.path n = some names) :
    names.length = n := by
  induction n generalizing names with
  | zero =>
      cases hpath
      rfl
  | succ n ih =>
      obtain ⟨above, name, habove, _, rfl⟩ := path_succ hpath
      rw [List.length_append, ih habove]
      rfl

end Info

end StatsCol

namespace StatsCount

open StatsCol (Info)

/-- The levels below the root. -/
inductive Level
  | senders
  | receivers
  | protocols
  | uid
  | functions
  | targets
  deriving DecidableEq

def Level.depth : Level → Nat
  | .senders => 1
  | .receivers => 2
  | .protocols => 3
  | .uid => 4
  | .functions => 5
  | .targets => 6

/-- The streams of the reducers: `total_count`, `total_byte`, for each level `<level>_count` and
`<level>_byte`, and `functions_res`. -/
inductive Stream
  | totalCount
  | totalByte
  | count (level : Level)
  | byte (level : Level)
  | functionsRes
  deriving DecidableEq

/-- A call of `SumStats::observe`. -/
structure Observation where
  stream : Stream
  str : Option Text := none
  num : Option Nat := none
  dbl : Option ℚ := none

structure ReqInfo where
  requestor : Text
  responder : Text
  protocol : Text
  uid : Text
  reqFunc : Text
  reqTime : ℚ
  isResponded : Bool := false

/-- What a part of the handler leaves: `req_table`, and the observations it made. -/
abbrev Effect := Table Text ReqInfo × List Observation

/-- The names of a node in one string. -/
def key (names : List Text) : Text := [';'].intercalate names

/-- Both observations of an item at a level, and the rest of the handler. -/
def observe (item : Info) (level : Level) (suffix : Text) (reqTable : Table Text ReqInfo) (rest : Effect) :
    Effect :=
  match item.path level.depth with
  | none => (reqTable, [])
  | some names =>
    let str := key names ++ suffix
    (rest.1, { stream := .count level, str := str } :: { stream := .byte level, str := str, num := item.len }
      :: rest.2)

/-- The entry a request leaves in `req_table`. -/
def reqInfo? (item : Info) : Option ReqInfo := do
  return {
    requestor := ← item.sender
    responder := ← item.receiver
    protocol := ← item.protocol
    uid := ← item.uid
    reqFunc := ← item.func
    reqTime := item.ts }

/-- An id of two parts, the other way round. -/
def swapUid (uid : Text) : Text :=
  match uid.splitOn ':' with
  | [first, second] => second ++ ':' :: first
  | _ => uid

/-- The branch of a request. -/
def requestSeen (item : Info) (index : Text) (reqTable : Table Text ReqInfo) : Effect :=
  match reqInfo? item with
  | none => (reqTable, [])
  | some request => (reqTable.put index request, [])

/-- A response answers an entry of `req_table`. -/
def Answers (item : Info) (req : ReqInfo) : Prop :=
  item.receiver = some req.requestor ∧ item.sender = some req.responder ∧ item.protocol = some req.protocol
    ∧ item.uid.map swapUid = some req.uid ∧ req.isResponded = false

instance (item : Info) (req : ReqInfo) : Decidable (Answers item req) :=
  inferInstanceAs (Decidable (_ ∧ _))

/-- The branch of a response. -/
def responseSeen (item : Info) (index : Text) (reqTable : Table Text ReqInfo) : Effect :=
  match reqTable.get? index with
  | none => (reqTable, [])
  | some req =>
    if Answers item req then
      match item.receiver, item.sender, item.protocol, item.uid with
      | some receiver, some sender, some protocol, some uid =>
        (reqTable.put index { req with isResponded := true },
          [{ stream := .functionsRes
             str := key [receiver, sender, protocol, swapUid uid, req.reqFunc]
             dbl := item.ts - req.reqTime }])
      | _, _, _, _ => (reqTable, [])
    else (reqTable, [])

/-- The branch of the function level. Without `is_response` the comparison that comes after the
observations has no value. -/
def functionSeen (item : Info) (reqTable : Table Text ReqInfo) : Effect :=
  match item.conn with
  | none => (reqTable, [])
  | some conn =>
    match item.isResponse with
    | none => observe item .functions ":-".toList reqTable (reqTable, [])
    | some false => observe item .functions ":T".toList reqTable (requestSeen item conn.uid reqTable)
    | some true => observe item .functions ":F".toList reqTable (responseSeen item conn.uid reqTable)

/-- The handler of `StatsCol::item_seen`. -/
def itemSeen (levels : Nat) (item : Info) (reqTable : Table Text ReqInfo) : Effect :=
  if item.protocol = none then
    let (reqTable', observed) := observe item .senders [] reqTable
      (if 2 ≤ levels then observe item .receivers [] reqTable (reqTable, []) else (reqTable, []))
    (reqTable', { stream := .totalCount, num := some 1 } :: { stream := .totalByte, num := item.len }
      :: observed)
  else if item.target = none then
    observe item .protocols [] reqTable
      (if 4 ≤ levels then
        observe item .uid [] reqTable (if 5 ≤ levels then functionSeen item reqTable else (reqTable, []))
      else (reqTable, []))
  else observe item .targets [] reqTable (reqTable, [])

/-- The items one after the other. -/
def itemsSeen (levels : Nat) (items : List Info) (reqTable : Table Text ReqInfo) : Effect :=
  items.foldl (fun seen item =>
    let (reqTable, observed) := itemSeen levels item seen.1
    (reqTable, seen.2 ++ observed)) (reqTable, [])

end StatsCount

end Armore
