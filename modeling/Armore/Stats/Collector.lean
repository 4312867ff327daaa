import Armore.Lib.Table
import Armore.Stats.Items

/-!
# The record of the current packet

`StatsCol` keeps one record for the packet it is at, `g_info`. `new_packet` makes it, the handlers of the
protocols fill it in, and each of them that knows a target passes it on in the events `item_seen` and
`item_gen`. An event holds the record itself and not a copy, so the records live in a heap and an event
holds the place of one. The times that `measure` takes are left out.
-/

namespace Armore.StatsCol

open Lib

/-- What `cat` makes of a `count`. -/
def countText (n : UInt64) : Text := Nat.toDigits 10 n.toNat

def targetGen (name : Text) (startAddress quantity : UInt64) : Text :=
  if quantity = 0 then name ++ ":Nothing".toList
  else if quantity = 1 then name ++ ':' :: countText startAddress
  else name ++ ':' :: (countText startAddress ++ '-' :: countText (startAddress + quantity - 1))

/-- `pkt_hdr`, which has one of the two headers. -/
inductive PktHdr
  | ip (len : Nat) (src dst : Text)
  | ip6 (len : Nat) (src dst : Text)

def PktHdr.len : PktHdr → Nat
  | .ip len _ _ => len
  | .ip6 len _ _ => len

def PktHdr.src : PktHdr → Text
  | .ip _ src _ => src
  | .ip6 _ src _ => src

def PktHdr.dst : PktHdr → Text
  | .ip _ _ dst => dst
  | .ip6 _ _ dst => dst

/-- The place of a record in the heap. -/
abbrev Ref := Nat

/-- The events the collector queues. -/
inductive Item
  | seen (info : Ref)
  | gen (info : Ref)
  deriving DecidableEq

/-- What ends a handler before its end: a variable read before it is set, or a missing entry of a table. -/
inductive RuntimeError
  | unset
  | noSuchIndex
  deriving DecidableEq

/-- The global variables of the collector and the records it has made. `none` is a variable that is not
set yet; every `new_packet` sets `g_ts` and `g_len` before they are read. -/
structure Globals where
  gTs : ℚ := 0
  gLen : Nat := 0
  gConn : Option Connection := none
  gSrc : Option Text := none
  gDst : Option Text := none
  gUid : Option Text := none
  gTgtTable : Table Text Text := ∅
  gWait : Bool := false
  gInfo : Ref := 0
  dnp3Group : Option UInt64 := none
  dnp3Variation : Option UInt64 := none
  dnp3Prefix : Option Bool := none
  heap : List Info := []

/-- What a handler leaves: the variables, the events it queued and the error that ended it. What it did
before the error stays. -/
structure Left where
  globals : Globals
  queued : List Item := []
  raised : Option RuntimeError := none

namespace Globals

/-- The record `g_info`. -/
def info? (s : Globals) : Option Info := s.heap[s.gInfo]?

/-- An assignment to fields of `g_info`. -/
def modifyInfo (s : Globals) (f : Info → Info) : Globals := { s with heap := s.heap.modify s.gInfo f }

/-- A new record. Its place is the length of the heap before. -/
def alloc (s : Globals) (info : Info) : Globals := { s with heap := s.heap ++ [info] }

theorem info?_modifyInfo (s : Globals) (f : Info → Info) : (s.modifyInfo f).info? = s.info?.map f :=
  List.getElem?_modify_eq ..

/-- No other record changes. -/
theorem heap_modifyInfo_of_ne (s : Globals) (f : Info → Info) {r : Ref} (hne : r ≠ s.gInfo) :
    (s.modifyInfo f).heap[r]? = s.heap[r]? :=
  List.getElem?_modify_ne f s.heap (Ne.symm hne)

/-- A new record does not touch those that are there. -/
theorem heap_alloc_of_some {s : Globals} {r : Ref} {info : Info} (hr : s.heap[r]? = some info) (fresh : Info) :
    (s.alloc fresh).heap[r]? = some info := by
  show (s.heap ++ [fresh])[r]? = some info
  rw [List.getElem?_append_left (List.getElem?_eq_some_iff.mp hr).1, hr]

theorem heap_alloc_length (s : Globals) (fresh : Info) : (s.alloc fresh).heap[s.heap.length]? = some fresh := by
  show (s.heap ++ [fresh])[s.heap.length]? = some fresh
  rw [List.getElem?_append_right (Nat.le_refl _), Nat.sub_self]
  rfl

end Globals

def newPacket (levels : Nat) (c : Connection) (time : ℚ) (p : PktHdr) (s : Globals) : Left :=
  let waiting := if s.gWait then [Item.gen s.gInfo] else []
  let s := { s with
    gTs := time
    gConn := some c
    gLen := p.len
    gSrc := some p.src
    gDst := if 2 ≤ levels then some p.dst else s.gDst }
  let info : Info :=
    { ts := s.gTs
      len := s.gLen
      sender := s.gSrc
      receiver := if levels ≤ 1 then none else s.gDst
      conn := s.gConn }
  let s := { s.alloc info with gInfo := s.heap.length }
  if levels ≤ 2 then
    { globals := s, queued := waiting ++ [.seen s.gInfo, .gen s.gInfo] }
  else
    -- the item of the packet itself gets a record of its own
    { globals := { s.alloc info with gWait := true }, queued := waiting ++ [.seen s.heap.length] }

theorem info?_newPacket (c : Connection) (time : ℚ) (p : PktHdr) (s : Globals) :
    ∃ info, (newPacket 6 c time p s).globals.info? = some info ∧ info.uid = none ∧ info.func = none
      ∧ info.target = none :=
  ⟨_, Globals.heap_alloc_of_some (Globals.heap_alloc_length s _) _, rfl, rfl, rfl⟩

/-- The end of the handlers that know the function: with more levels to come the item gets a record of its
own. -/
def functionItem (levels : Nat) (c : Connection) (protocol func : Text) (isResponse : Bool) (s : Globals) :
    Left :=
  if levels ≤ 5 then
    { globals := { s with gWait := false }, queued := [.seen s.gInfo, .gen s.gInfo] }
  else
    match s.gUid with
    | none => { globals := s, raised := some .unset }
    | some uid =>
      { globals := s.alloc
          { ts := s.gTs
            len := s.gLen
            sender := s.gSrc
            receiver := s.gDst
            conn := some c
            protocol := some protocol
            uid := some uid
            func := some func
            isResponse := some isResponse }
        queued := [.seen s.heap.length] }

/-- The end of the handlers that know a target. -/
def storeTarget (target : Text) (s : Globals) : Left :=
  let s := { s.modifyInfo fun info => { info with target := some target } with gWait := false }
  { globals := s, queued := [.seen s.gInfo, .gen s.gInfo] }

/-! ### What a handler may change -/

/-- What the handlers of the protocols do to the variables, but for the table of targets: they fill in the
record, make others, end the wait, and always do that when the record gets a target. -/
inductive Edits (s : Globals) : Globals → Prop
  | refl : Edits s s
  | modify {s' : Globals} : Edits s s' → ∀ change : Info → Info,
      (∀ info, (change info).target = info.target) → Edits s (s'.modifyInfo change)
  | alloc {s' : Globals} : Edits s s' → ∀ fresh, Edits s (s'.alloc fresh)
  | uid {s' : Globals} : Edits s s' → ∀ gUid, Edits s { s' with gUid := gUid }
  | header {s' : Globals} : Edits s s' → ∀ group variation attended,
      Edits s { s' with dnp3Group := group, dnp3Variation := variation, dnp3Prefix := attended }
  | noWait {s' : Globals} : Edits s s' → Edits s { s' with gWait := false }
  | store {s' : Globals} : Edits s s' → ∀ target, Edits s (storeTarget target s').globals

theorem Edits.functionItem {s s' : Globals} (h : Edits s s') (levels : Nat) (c : Connection)
    (protocol func : Text) (isResponse : Bool) :
    Edits s (functionItem levels c protocol func isResponse s').globals := by
  rw [StatsCol.functionItem]
  split
  · exact h.noWait
  · split
    · exact h
    · exact h.alloc _

/-- The record is still there, the current packet is the same one, and so is the table of targets. -/
structure Keeps (s s' : Globals) : Prop where
  gConn : s'.gConn = s.gConn
  gTgtTable : s'.gTgtTable = s.gTgtTable
  info : s.info?.isSome = true → s'.info?.isSome = true

theorem isSome_info?_modifyInfo (s : Globals) (change : Info → Info) :
    (s.modifyInfo change).info?.isSome = s.info?.isSome := by
  rw [Globals.info?_modifyInfo, Option.isSome_map]

theorem Edits.keeps {s s' : Globals} (h : Edits s s') : Keeps s s' := by
  induction h with
  | refl => exact ⟨rfl, rfl, fun h => h⟩
  | @modify s' _ change _ ih =>
      exact ⟨ih.gConn, ih.gTgtTable, fun h => (isSome_info?_modifyInfo s' change).trans (ih.info h)⟩
  | alloc _ fresh ih =>
      refine ⟨ih.gConn, ih.gTgtTable, ?_⟩
      intro h
      obtain ⟨info, hinfo⟩ := Option.isSome_iff_exists.mp (ih.info h)
      exact Option.isSome_iff_exists.mpr ⟨info, Globals.heap_alloc_of_some hinfo fresh⟩
  | uid _ _ ih => exact ⟨ih.gConn, ih.gTgtTable, ih.info⟩
  | header _ _ _ _ ih => exact ⟨ih.gConn, ih.gTgtTable, ih.info⟩
  | noWait _ ih => exact ⟨ih.gConn, ih.gTgtTable, ih.info⟩
  | @store s' _ target ih =>
      exact ⟨ih.gConn, ih.gTgtTable, fun h => (isSome_info?_modifyInfo s' _).trans (ih.info h)⟩

/-- While the collector waits for a target the record has none. -/
def Waits (s : Globals) : Prop := s.gWait = true → ∃ info, s.info? = some info ∧ info.target = none

theorem Waits.of_not_gWait {s : Globals} (hwait : s.gWait = false) : Waits s := by
  intro h
  rw [hwait] at h
  cases h

theorem Edits.waits {s s' : Globals} (h : Edits s s') (hwaits : Waits s) : Waits s' := by
  induction h with
  | refl => exact hwaits
  | @modify s' _ change htarget ih =>
      intro hwait
      obtain ⟨info, hinfo, hnone⟩ := ih hwait
      refine ⟨change info, ?_, (htarget info).trans hnone⟩
      rw [Globals.info?_modifyInfo, hinfo]
      rfl
  | alloc _ fresh ih =>
      intro hwait
      obtain ⟨info, hinfo, hnone⟩ := ih hwait
      exact ⟨info, Globals.heap_alloc_of_some hinfo fresh, hnone⟩
  | uid _ _ ih => exact ih
  | header _ _ _ _ ih => exact ih
  | noWait => exact Waits.of_not_gWait rfl
  | store => exact Waits.of_not_gWait rfl

end Armore.StatsCol
