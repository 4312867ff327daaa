import Armore.Stats.Dispatch

/-!
# The targets of the objects of a packet

A packet of DNP3 may name many targets, and all its items are the one record of the packet. This module
says what every object of a packet is about when it is parsed, and what the counter and the log are given
for it: the record as the last handler of the packet left it.
-/

namespace Armore.StatsCol

open Lib

/-! ### What is parsed -/

/-- What the headers so far say about an object: who talks to whom, the function, and the group and the
variation of the prefixes that follow, when they are to be paid attention to. -/
structure InForce where
  uid : Option Text := none
  func : Option Text := none
  indexed : Option (UInt64 × UInt64) := none

/-- What an object header with these codes names by itself. -/
def headerNamed (objPrefixCode rangeSpecCode rfLow rfHigh : UInt64) : Option Text :=
  match objPrefixCode, rangeSpecCode with
  | 0, 0 => some (targetGen "Target".toList rfLow (rfHigh - rfLow + 1))
  | 0, 1 => some (targetGen "Target".toList rfLow (rfHigh - rfLow + 1))
  | 0, 6 => some "Target:all".toList
  | 0, 7 => some (targetGen "Quantity".toList rfLow 1)
  | 0, 8 => some (targetGen "Quantity".toList rfLow 1)
  | 5, 11 => some (targetGen "Quantity".toList rfLow 1)
  | _, _ => none

/-- The target an object header yields. -/
def headerTarget (objType quaField rfLow rfHigh : UInt64) : Option Text :=
  (headerNamed (getObjPrefixCode quaField) (getRangeSpecCode quaField) rfLow rfHigh).map
    (objectTarget (getGroup objType) (getVariation objType))

/-- The prefixes after an object header with these codes yield targets. -/
def PrefixesYield (objPrefixCode rangeSpecCode : UInt64) : Prop :=
  (objPrefixCode = 1 ∧ rangeSpecCode = 7) ∨ (objPrefixCode = 2 ∧ rangeSpecCode = 8)

instance (objPrefixCode rangeSpecCode : UInt64) : Decidable (PrefixesYield objPrefixCode rangeSpecCode) :=
  inferInstanceAs (Decidable (_ ∨ _))

/-- What an event changes. -/
def InForce.next (functionCodes : UInt64 → Text) (f : InForce) : Dnp3Event → InForce
  | .headerBlock destAddr srcAddr => { f with uid := some (countText srcAddr ++ ':' :: countText destAddr) }
  | .applicationRequestHeader fc => { f with func := some (functionCodes fc) }
  | .applicationResponseHeader fc => { f with func := some (functionCodes fc) }
  | .objectHeader objType quaField _ _ =>
    { f with indexed :=
        if PrefixesYield (getObjPrefixCode quaField) (getRangeSpecCode quaField) then
          some (getGroup objType, getVariation objType)
        else none }
  | .objectPrefix _ => f

/-- The target an event yields. -/
def InForce.target? (f : InForce) : Dnp3Event → Option Text
  | .objectHeader objType quaField rfLow rfHigh => headerTarget objType quaField rfLow rfHigh
  | .objectPrefix prefixValue =>
    f.indexed.map fun (group, variation) =>
      objectTarget group variation (targetGen "Target".toList prefixValue 1)
  | _ => none

/-- A target with the function and the unit it belongs to. -/
structure Attribution where
  target : Text
  func : Option Text
  uid : Option Text
  deriving DecidableEq

/-- The objects of a packet that yield a target, each with what is in force when it is parsed. -/
def parsed (functionCodes : UInt64 → Text) : InForce → List Dnp3Event → List Attribution
  | _, [] => []
  | f, e :: events =>
    ((f.target? e).map fun target => ⟨target, f.func, f.uid⟩).toList
      ++ parsed functionCodes (f.next functionCodes e) events

/-- What is in force at the end of a packet. -/
def atEnd (functionCodes : UInt64 → Text) (f : InForce) (events : List Dnp3Event) : InForce :=
  events.foldl (InForce.next functionCodes) f

/-- The prefixes a packet begins with belong to the last object header before it. -/
def Globals.indexed (s : Globals) : Option (UInt64 × UInt64) :=
  match s.dnp3Prefix, s.dnp3Group, s.dnp3Variation with
  | some true, some group, some variation => some (group, variation)
  | _, _, _ => none

/-- At the start of a packet. -/
def Globals.inForce (s : Globals) : InForce := { indexed := s.indexed }

/-- What an item says about a target, if it has one. -/
def attribution? (info : Info) : Option Attribution :=
  info.target.map fun target => ⟨target, info.func, info.uid⟩

/-- Exactly one item for each object, with its target, its function and its unit. -/
def EachItsOwn (items : List Info) (objects : List Attribution) : Prop :=
  (items.filterMap attribution?).Perm objects

/-- The objects of the packet have the target of the last of them, and belong to the function and the unit
that are in force at the end of the packet. -/
def AllAsLast (functionCodes : UInt64 → Text) (f : InForce) (events : List Dnp3Event) : Prop :=
  ∀ object ∈ parsed functionCodes f events, ∀ last, (parsed functionCodes f events).getLast? = some last →
    object = ⟨last.target, (atEnd functionCodes f events).func, (atEnd functionCodes f events).uid⟩

/-- The variables for the prefixes after an object header. -/
def Globals.withHeader (s : Globals) (objType quaField : UInt64) : Globals :=
  { s with
    dnp3Group := some (getGroup objType)
    dnp3Variation := some (getVariation objType)
    dnp3Prefix := some (decide (PrefixesYield (getObjPrefixCode quaField) (getRangeSpecCode quaField))) }

/-- An object header leaves what it says about the prefixes after it, and stores the target it yields. -/
theorem dnp3ObjectHeader_eq (objType quaField rfLow rfHigh : UInt64) (s : Globals) :
    dnp3ObjectHeader 6 objType quaField rfLow rfHigh s =
      match headerTarget objType quaField rfLow rfHigh with
      | some target => storeTarget target (s.withHeader objType quaField)
      | none => { globals := s.withHeader objType quaField } := by
  simp only [dnp3ObjectHeader, if_true, headerTarget, Globals.withHeader]
  generalize getObjPrefixCode quaField = code
  generalize getRangeSpecCode quaField = range
  split
  next hrange =>
    obtain ⟨rfl, rfl | rfl⟩ := hrange <;> rfl
  split
  next hall =>
    obtain ⟨rfl, rfl⟩ := hall
    rfl
  split
  next hquantity =>
    obtain ⟨rfl, rfl | rfl⟩ := hquantity <;> rfl
  split
  next hyield =>
    obtain ⟨rfl, rfl⟩ | ⟨rfl, rfl⟩ := hyield <;> rfl
  split
  next hfree =>
    obtain ⟨rfl, rfl⟩ := hfree
    rfl
  next hrange hall hquantity hyield hfree =>
    have hnamed : headerNamed code range rfLow rfHigh = none := by
      rw [headerNamed] <;> grind
    have hprefixes : ¬ PrefixesYield code range := hyield
    rw [hnamed, decide_eq_false hprefixes]
    rfl

/-! ### What the handlers leave -/

/-- The place an item holds. -/
def Item.ref : Item → Ref
  | .seen info => info
  | .gen info => info

/-- Where the handlers of a packet have come to: the record of the packet, and the items queued, which hold
that record once for every object on each side and are without target otherwise. -/
structure Collected (s : Globals) (queued : List Item) (f : InForce) (objects : List Attribution) : Prop where
  info : ∃ info, s.info? = some info ∧ info.uid = f.uid ∧ info.func = f.func
    ∧ info.target = objects.getLast?.map Attribution.target
  indexed : s.indexed = f.indexed
  others : ∀ item ∈ queued, item.ref ≠ s.gInfo → ∃ info, s.heap[item.ref]? = some info ∧ info.target = none
  seen : queued.count (.seen s.gInfo) = objects.length
  gen : queued.count (.gen s.gInfo) = objects.length

namespace Collected

variable {s s' : Globals} {queued : List Item} {f f' : InForce} {objects : List Attribution}

theorem congr (h : Collected s queued f objects) (hheap : s'.heap = s.heap) (hgInfo : s'.gInfo = s.gInfo)
    (hindexed : s'.indexed = f'.indexed) (huid : f'.uid = f.uid) (hfunc : f'.func = f.func) :
    Collected s' queued f' objects where
  info := by
    rw [Globals.info?, hheap, hgInfo, huid, hfunc]
    exact h.info
  indexed := hindexed
  others := by
    rw [hheap, hgInfo]
    exact h.others
  seen := by
    rw [hgInfo]
    exact h.seen
  gen := by
    rw [hgInfo]
    exact h.gen

/-- A field of the record is filled in. -/
theorem modifyInfo (h : Collected s queued f objects) (change : Info → Info) (f' : InForce)
    (huid : ∀ info, info.uid = f.uid → (change info).uid = f'.uid)
    (hfunc : ∀ info, info.func = f.func → (change info).func = f'.func)
    (htarget : ∀ info, (change info).target = info.target) (hindexed : f'.indexed = f.indexed) :
    Collected (s.modifyInfo change) queued f' objects where
  info := by
    obtain ⟨info, hinfo, hinfouid, hinfofunc, hinfotarget⟩ := h.info
    refine ⟨change info, ?_, huid info hinfouid, hfunc info hinfofunc, ?_⟩
    · rw [Globals.info?_modifyInfo, hinfo]
      rfl
    · rw [htarget, hinfotarget]
  indexed := h.indexed.trans hindexed.symm
  others := by
    intro item hitem hne
    rw [Globals.heap_modifyInfo_of_ne s change hne]
    exact h.others item hitem hne
  seen := h.seen
  gen := h.gen

/-- An item with a record of its own, which has no target. -/
theorem alloc {fresh : Info} (h : Collected s queued f objects) (hfresh : fresh.target = none) :
    Collected (s.alloc fresh) (queued ++ [.seen s.heap.length]) f objects := by
  obtain ⟨info, hinfo, hfields⟩ := h.info
  have hne : s.heap.length ≠ s.gInfo := by
    have hlt := (List.getElem?_eq_some_iff.mp hinfo).1
    omega
  constructor
  · exact ⟨info, Globals.heap_alloc_of_some hinfo fresh, hfields⟩
  · exact h.indexed
  · intro item hitem hother
    rcases List.mem_append.mp hitem with hitem | hitem
    · obtain ⟨info, hinfo, htarget⟩ := h.others item hitem hother
      exact ⟨info, Globals.heap_alloc_of_some hinfo fresh, htarget⟩
    · rw [List.mem_singleton.mp hitem]
      exact ⟨fresh, Globals.heap_alloc_length s fresh, hfresh⟩
  · show (queued ++ [Item.seen s.heap.length]).count (.seen s.gInfo) = objects.length
    rw [List.count_append, h.seen, List.count_singleton, if_neg (by simpa using hne), Nat.add_zero]
  · show (queued ++ [Item.seen s.heap.length]).count (.gen s.gInfo) = objects.length
    rw [List.count_append, h.gen, List.count_singleton, if_neg (by simp), Nat.add_zero]

/-- A target goes to the record, and the record goes to both consumers. -/
theorem storeTarget (h : Collected s queued f objects) (target : Text) :
    Collected (storeTarget target s).globals (queued ++ (StatsCol.storeTarget target s).queued) f
      (objects ++ [⟨target, f.func, f.uid⟩]) := by
  obtain ⟨info, hinfo, huid, hfunc, _⟩ := h.info
  constructor
  · refine ⟨{ info with target := some target }, ?_, huid, hfunc, ?_⟩
    · show (s.modifyInfo _).info? = _
      rw [Globals.info?_modifyInfo, hinfo]
      rfl
    · rw [List.getLast?_concat]
      rfl
  · exact h.indexed
  · intro item hitem hne
    have hold : item ∈ queued := by
      rcases List.mem_append.mp hitem with hold | hnew
      · exact hold
      · rcases List.mem_pair.mp hnew with rfl | rfl
        · exact absurd rfl hne
        · exact absurd rfl hne
    obtain ⟨other, hother, htarget⟩ := h.others item hold hne
    exact ⟨other, (Globals.heap_modifyInfo_of_ne s _ hne).trans hother, htarget⟩
  · show (queued ++ [Item.seen s.gInfo, Item.gen s.gInfo]).count (.seen s.gInfo) = _
    rw [List.count_append, h.seen, List.length_append]
    simp
  · show (queued ++ [Item.seen s.gInfo, Item.gen s.gInfo]).count (.gen s.gInfo) = _
    rw [List.count_append, h.gen, List.length_append]
    simp

theorem functionItem (h : Collected s queued f objects) (c : Connection) (protocol func : Text)
    (isResponse : Bool) :
    Collected (functionItem 6 c protocol func isResponse s).globals
      (queued ++ (StatsCol.functionItem 6 c protocol func isResponse s).queued) f objects := by
  rw [StatsCol.functionItem, if_neg (by decide)]
  cases s.gUid with
  | none =>
      show Collected s (queued ++ []) f objects
      rw [List.append_nil]
      exact h
  | some uid => exact h.alloc rfl

theorem headerBlock (h : Collected s queued f objects) (functionCodes : UInt64 → Text)
    (destAddr srcAddr : UInt64) :
    Collected (dnp3HeaderBlock 6 destAddr srcAddr s).globals queued
      (f.next functionCodes (.headerBlock destAddr srcAddr)) objects := by
  rw [dnp3HeaderBlock, if_pos (by decide)]
  have hmodify := h.modifyInfo
    (fun info => { info with uid := some (countText srcAddr ++ ':' :: countText destAddr) })
    (f.next functionCodes (.headerBlock destAddr srcAddr))
    (fun _ _ => rfl) (fun _ hfunc => hfunc) (fun _ => rfl) rfl
  exact hmodify.congr rfl rfl hmodify.indexed rfl rfl

theorem applicationHeader (h : Collected s queued f objects) (functionCodes : UInt64 → Text)
    (isResponse : Bool) (c : Connection) (fc : UInt64) :
    Collected (dnp3ApplicationHeader 6 functionCodes isResponse c fc s).globals
      (queued ++ (dnp3ApplicationHeader 6 functionCodes isResponse c fc s).queued)
      { f with func := some (functionCodes fc) } objects := by
  rw [dnp3ApplicationHeader, if_pos (by decide)]
  have hprotocol := h.modifyInfo (fun info => { info with protocol := some "DNP3".toList }) f
    (fun _ huid => huid) (fun _ hfunc => hfunc) (fun _ => rfl) rfl
  have hfunction := hprotocol.modifyInfo
    (fun info => { info with func := some (functionCodes fc), isResponse := some isResponse })
    { f with func := some (functionCodes fc) }
    (fun _ huid => huid) (fun _ _ => rfl) (fun _ => rfl) rfl
  exact hfunction.functionItem c _ _ isResponse

theorem objectHeader (h : Collected s queued f objects) (functionCodes : UInt64 → Text)
    (objType quaField rfLow rfHigh : UInt64) :
    Collected (dnp3ObjectHeader 6 objType quaField rfLow rfHigh s).globals
      (queued ++ (dnp3ObjectHeader 6 objType quaField rfLow rfHigh s).queued)
      (f.next functionCodes (.objectHeader objType quaField rfLow rfHigh))
      (objects ++ ((headerTarget objType quaField rfLow rfHigh).map fun target =>
        ⟨target, f.func, f.uid⟩).toList) := by
  rw [dnp3ObjectHeader_eq]
  have hindexed : (s.withHeader objType quaField).indexed =
      (f.next functionCodes (.objectHeader objType quaField rfLow rfHigh)).indexed := by
    rw [Globals.indexed, Globals.withHeader, InForce.next]
    by_cases hyield : PrefixesYield (getObjPrefixCode quaField) (getRangeSpecCode quaField)
    · rw [decide_eq_true hyield, if_pos hyield]
    · rw [decide_eq_false hyield, if_neg hyield]
  have hheader : Collected (s.withHeader objType quaField) queued
      (f.next functionCodes (.objectHeader objType quaField rfLow rfHigh)) objects :=
    h.congr rfl rfl hindexed rfl rfl
  cases headerTarget objType quaField rfLow rfHigh with
  | none =>
      show Collected _ (queued ++ []) _ (objects ++ [])
      rw [List.append_nil, List.append_nil]
      exact hheader
  | some target => exact hheader.storeTarget target

theorem objectPrefix (h : Collected s queued f objects) (prefixValue : UInt64) :
    Collected (dnp3ObjectPrefix 6 prefixValue s).globals (queued ++ (dnp3ObjectPrefix 6 prefixValue s).queued) f
      (objects ++ ((f.target? (.objectPrefix prefixValue)).map fun target => ⟨target, f.func, f.uid⟩).toList) := by
  have hstay : Collected s (queued ++ []) f (objects ++ []) := by
    rw [List.append_nil, List.append_nil]
    exact h
  have hindexed := h.indexed
  rw [InForce.target?, ← hindexed, Globals.indexed, dnp3ObjectPrefix, if_pos rfl]
  cases s.dnp3Prefix with
  | none => exact hstay
  | some attended =>
      cases attended with
      | false => exact hstay
      | true =>
          cases s.dnp3Group with
          | none => exact hstay
          | some group =>
              cases s.dnp3Variation with
              | none => exact hstay
              | some variation => exact h.storeTarget _

theorem step (h : Collected s queued f objects) (functionCodes : UInt64 → Text) (c : Connection)
    (e : Dnp3Event) :
    Collected (e.handle 6 functionCodes c s).globals (queued ++ (e.handle 6 functionCodes c s).queued)
      (f.next functionCodes e)
      (objects ++ ((f.target? e).map fun target => ⟨target, f.func, f.uid⟩).toList) := by
  cases e with
  | headerBlock destAddr srcAddr =>
      show Collected _ (queued ++ []) _ (objects ++ [])
      rw [List.append_nil, List.append_nil]
      exact h.headerBlock functionCodes destAddr srcAddr
  | applicationRequestHeader fc =>
      show Collected _ _ _ (objects ++ [])
      rw [List.append_nil]
      exact h.applicationHeader functionCodes false c fc
  | applicationResponseHeader fc =>
      show Collected _ _ _ (objects ++ [])
      rw [List.append_nil]
      exact h.applicationHeader functionCodes true c fc
  | objectHeader objType quaField rfLow rfHigh =>
      exact h.objectHeader functionCodes objType quaField rfLow rfHigh
  | objectPrefix prefixValue => exact h.objectPrefix prefixValue

theorem handleAll (h : Collected s queued f objects) (config : Config) (hlevels : config.levels = 6)
    (c : Connection) (events : List Dnp3Event) :
    Collected (handleAll config c (events.map .dnp3) s).1
      (queued ++ (StatsCol.handleAll config c (events.map .dnp3) s).2)
      (atEnd config.dnp3FunctionCodes f events) (objects ++ parsed config.dnp3FunctionCodes f events) := by
  induction events generalizing s queued f objects with
  | nil =>
      show Collected s (queued ++ []) f (objects ++ [])
      rw [List.append_nil, List.append_nil]
      exact h
  | cons e events ih =>
      have hstep := h.step config.dnp3FunctionCodes c e
      rw [← hlevels] at hstep
      have hrest := ih hstep
      rw [List.append_assoc, List.append_assoc] at hrest
      exact hrest

end Collected

/-! ### The packets before -/

namespace Waits

variable {s : Globals}

theorem newPacket (s : Globals) (c : Connection) (time : ℚ) (p : PktHdr) :
    Waits (newPacket 6 c time p s).globals := by
  intro _
  obtain ⟨info, hinfo, _, _, htarget⟩ := info?_newPacket c time p s
  exact ⟨info, hinfo, htarget⟩

theorem handle (h : Waits s) {config : Config} (hlevels : config.levels = 6) (c : Connection) (e : Event) :
    Waits (e.handle config c s).globals := by
  cases e with
  | dnp3 e => exact (e.edits config.levels config.dnp3FunctionCodes c s).waits h
  | modbusMessage headers isOrig =>
      exact (edits_modbusMessage config.levels config.modbusFunctionCodes c headers isOrig s).waits h
  | modbusRequest e =>
      rw [Event.handle, hlevels]
      exact of_not_gWait (e.gWait_handle s)
  | modbusResponse e =>
      rw [Event.handle, e.handle_eq]
      exact (edits_responseTarget config.levels s).waits h

theorem handleAll (h : Waits s) {config : Config} (hlevels : config.levels = 6) (c : Connection)
    (events : List Event) : Waits (handleAll config c events s).1 := by
  induction events generalizing s with
  | nil => exact h
  | cons e events ih => exact ih (h.handle hlevels c e)

/-- Between packets. -/
theorem of_run {config : Config} (hlevels : config.levels = 6) {packets : List Packet}
    (hrun : Run (PacketStep config) {} packets s) : Waits s := by
  apply hrun.invariant
  · exact of_not_gWait rfl
  · intro s packet s' _ hstep
    rw [packetStep_iff.mp hstep, Packet.handle, hlevels]
    exact (newPacket s packet.conn packet.time packet.hdr).handleAll hlevels packet.conn packet.payload

end Waits

theorem collected_newPacket {s : Globals} (hwaits : Waits s) (c : Connection) (time : ℚ) (p : PktHdr) :
    Collected (newPacket 6 c time p s).globals (newPacket 6 c time p s).queued s.inForce [] := by
  have hqueued : ∀ item ∈ (newPacket 6 c time p s).queued,
      item = .gen s.gInfo ∧ s.gWait = true ∨ item = .seen (s.heap.length + 1) := by
    intro item hitem
    rcases List.mem_append.mp hitem with hitem | hitem
    · split at hitem
      next hwait => exact Or.inl ⟨List.mem_singleton.mp hitem, hwait⟩
      next => cases hitem
    · right
      rw [List.mem_singleton.mp hitem]
      exact congrArg Item.seen List.length_append
  constructor
  · exact info?_newPacket c time p s
  · rfl
  · intro item hitem _
    rcases hqueued item hitem with ⟨rfl, hwait⟩ | rfl
    · obtain ⟨info, hinfo, htarget⟩ := hwaits hwait
      exact ⟨info, Globals.heap_alloc_of_some (Globals.heap_alloc_of_some hinfo _) _, htarget⟩
    · obtain ⟨fresh, hheap, hfresh⟩ : ∃ fresh : Info,
          (newPacket 6 c time p s).globals.heap = (s.heap ++ [fresh]) ++ [fresh] ∧ fresh.target = none :=
        ⟨_, rfl, rfl⟩
      refine ⟨fresh, ?_, hfresh⟩
      have hlength : (s.heap ++ [fresh]).length = s.heap.length + 1 := List.length_append
      rw [hheap, Item.ref, ← hlength]
      exact List.getElem?_concat_length
  · apply List.count_eq_zero.mpr
    intro hmem
    rcases hqueued _ hmem with ⟨heq, _⟩ | heq
    · cases heq
    · have hplace : s.heap.length = s.heap.length + 1 := Item.seen.inj heq
      omega
  · apply List.count_eq_zero.mpr
    intro hmem
    rcases hqueued _ hmem with ⟨heq, hwait⟩ | heq
    · obtain ⟨info, hinfo, _⟩ := hwaits hwait
      have hlt := (List.getElem?_eq_some_iff.mp hinfo).1
      have hplace : s.heap.length = s.gInfo := Item.gen.inj heq
      omega
    · cases heq

/-! ### What the consumers are given -/

theorem filterMap_eq_replicate {α β : Type} [DecidableEq α] {f : α → Option β} {a : α} {b : β} {l : List α}
    (ha : a ∈ l → f a = some b) (hother : ∀ x ∈ l, x ≠ a → f x = none) :
    l.filterMap f = List.replicate (l.count a) b := by
  induction l with
  | nil => rfl
  | cons x l ih =>
      have hrest := ih (fun hmem => ha (List.mem_cons_of_mem _ hmem)) fun y hy => hother y (List.mem_cons_of_mem _ hy)
      by_cases hx : x = a
      · rw [List.filterMap_cons_some (hx ▸ ha (hx ▸ List.mem_cons_self)), hrest, hx, List.count_cons_self]
        rfl
      · rw [List.filterMap_cons_none (hother x List.mem_cons_self hx), hrest, List.count_cons_of_ne hx]

/-- One of the consumers is given exactly one item for each object when the objects are all as the last. -/
theorem Collected.eachItsOwn_iff {s : Globals} {queued : List Item} {f : InForce} {objects : List Attribution}
    (h : Collected s queued f objects) (record : Item → Option Info) (own : Item) (hown : record own = s.info?)
    (hothers : ∀ item, item ≠ own → record item = none ∨ record item = s.heap[item.ref]? ∧ item.ref ≠ s.gInfo)
    (hcount : queued.count own = objects.length) :
    EachItsOwn (queued.filterMap record) objects ↔
      ∀ object ∈ objects, ∀ last, objects.getLast? = some last → object = ⟨last.target, f.func, f.uid⟩ := by
  obtain ⟨info, hinfo, huid, hfunc, htarget⟩ := h.info
  have hnone : ∀ item ∈ queued, item ≠ own → (record item).bind attribution? = none := by
    intro item hitem hne
    rcases hothers item hne with hrecord | ⟨hrecord, hplace⟩
    · rw [hrecord]
      rfl
    · obtain ⟨other, hother, hothertarget⟩ := h.others item hitem hplace
      rw [hrecord, hother, Option.bind_some, attribution?, hothertarget]
      rfl
  rw [EachItsOwn, List.filterMap_filterMap]
  cases hlast : objects.getLast? with
  | none =>
      rw [List.getLast?_eq_none_iff] at hlast
      subst hlast
      have hnil : queued.filterMap (fun item => (record item).bind attribution?) = [] := by
        rw [List.filterMap_eq_nil_iff]
        intro item hitem
        apply hnone item hitem
        intro heq
        rw [heq] at hitem
        exact absurd hitem (List.count_eq_zero.mp hcount)
      rw [hnil]
      simp
  | some last =>
      have hall : queued.filterMap (fun item => (record item).bind attribution?) =
          List.replicate objects.length ⟨last.target, f.func, f.uid⟩ := by
        rw [← hcount]
        apply filterMap_eq_replicate _ hnone
        intro _
        rw [hown, hinfo, Option.bind_some, attribution?, htarget, hlast, hfunc, huid]
        rfl
      rw [hall, List.replicate_perm, eq_comm, List.eq_replicate_iff]
      simp

/-- What a packet of DNP3 leaves behind its last handler. -/
theorem collected_handle {config : Config} (hlevels : config.levels = 6) {s : Globals} (hwaits : Waits s)
    (c : Connection) (time : ℚ) (p : PktHdr) (events : List Dnp3Event) :
    Collected (Packet.handle config ⟨c, time, p, events.map .dnp3⟩ s).1
      (Packet.handle config ⟨c, time, p, events.map .dnp3⟩ s).2
      (atEnd config.dnp3FunctionCodes s.inForce events) (parsed config.dnp3FunctionCodes s.inForce events) := by
  have hall := (collected_newPacket hwaits c time p).handleAll config hlevels c events
  rw [← hlevels] at hall
  exact hall

/-- **The items of a packet of DNP3.** After any packets the queue of a packet is worked off; and the counter
and the log are given exactly one item for each object, with the target, the function and the unit in force
when it was parsed, if and only if all its objects are as the last is at the end of the packet. -/
theorem each_its_own_iff {config : Config} (hlevels : config.levels = 6) {packets : List Packet} {s : Globals}
    (hrun : Run (PacketStep config) {} packets s) (c : Connection) (time : ℚ) (p : PktHdr)
    (events : List Dnp3Event) :
    (∃ engine, Drained config s ⟨c, time, p, events.map .dnp3⟩ engine)
      ∧ ∀ engine, Drained config s ⟨c, time, p, events.map .dnp3⟩ engine →
        (EachItsOwn engine.seen (parsed config.dnp3FunctionCodes s.inForce events)
            ∧ EachItsOwn engine.logged (parsed config.dnp3FunctionCodes s.inForce events)
          ↔ AllAsLast config.dnp3FunctionCodes s.inForce events) := by
  refine ⟨⟨_, drained_iff.mpr rfl⟩, ?_⟩
  intro engine hdrained
  have hcollected := collected_handle hlevels (Waits.of_run hlevels hrun) c time p events
  rw [drained_iff.mp hdrained]
  have hseen := hcollected.eachItsOwn_iff (seenRecord _) _ rfl ?_ hcollected.seen
  have hlogged := hcollected.eachItsOwn_iff (loggedRecord _) _ rfl ?_ hcollected.gen
  · rw [hseen, hlogged, and_self, AllAsLast]
  · intro item hne
    cases item with
    | seen info => exact Or.inl rfl
    | gen info => exact Or.inr ⟨rfl, fun heq => hne (congrArg Item.gen heq)⟩
  · intro item hne
    cases item with
    | seen info => exact Or.inr ⟨rfl, fun heq => hne (congrArg Item.seen heq)⟩
    | gen info => exact Or.inl rfl

/-- A read request. -/
def readHeaders : List Dnp3Event := [.headerBlock 2 1, .applicationRequestHeader 1]

/-- One object: inputs 0 to 9. -/
def readOne : List Dnp3Event := readHeaders ++ [.objectHeader 258 0 0 9]

/-- Another one in the same request: all analog inputs. -/
def readTwo : List Dnp3Event := readOne ++ [.objectHeader 7681 6 0 0]

theorem each_its_own_readOne :
    ∃ engine, Drained readConfig {} ⟨⟨"C1".toList⟩, 0, .ip 60 "10.0.0.1".toList "10.0.0.2".toList,
        readOne.map .dnp3⟩ engine
      ∧ EachItsOwn engine.seen [⟨"Group:1 Variation:2 Target:0-9".toList, "READ".toList, "1:2".toList⟩]
      ∧ EachItsOwn engine.logged [⟨"Group:1 Variation:2 Target:0-9".toList, "READ".toList, "1:2".toList⟩] := by
  obtain ⟨⟨engine, hdrained⟩, hiff⟩ := each_its_own_iff (show readConfig.levels = 6 from rfl) .nil ⟨"C1".toList⟩ 0
    (.ip 60 "10.0.0.1".toList "10.0.0.2".toList) readOne
  have hparsed : parsed readConfig.dnp3FunctionCodes ({} : Globals).inForce readOne =
      [⟨"Group:1 Variation:2 Target:0-9".toList, "READ".toList, "1:2".toList⟩] := by
    decide +kernel
  have hend : (atEnd readConfig.dnp3FunctionCodes ({} : Globals).inForce readOne).func = some "READ".toList
      ∧ (atEnd readConfig.dnp3FunctionCodes ({} : Globals).inForce readOne).uid = some "1:2".toList := by
    decide +kernel
  have howned := (hiff engine hdrained).mpr ?_
  · rw [hparsed] at howned
    exact ⟨engine, hdrained, howned⟩
  · rw [AllAsLast, hparsed, hend.1, hend.2]
    intro object hobject last hlast
    cases hlast
    exact List.mem_singleton.mp hobject

/-- The items of the first of two objects carry the target of the second. -/
theorem not_each_its_own :
    ¬ ∀ packets s, Run (PacketStep readConfig) {} packets s → ∀ c time p events engine,
      Drained readConfig s ⟨c, time, p, events.map .dnp3⟩ engine →
        EachItsOwn engine.seen (parsed readConfig.dnp3FunctionCodes s.inForce events)
          ∧ EachItsOwn engine.logged (parsed readConfig.dnp3FunctionCodes s.inForce events) := by
  intro hall
  have hseen := (hall [] {} .nil ⟨"C1".toList⟩ 0 (.ip 60 "10.0.0.1".toList "10.0.0.2".toList) readTwo _
    (drained_iff.mpr rfl)).1
  have hmem := hseen.mem_iff (a := ⟨"Group:1 Variation:2 Target:0-9".toList, "READ".toList, "1:2".toList⟩)
  revert hmem
  decide +kernel

end Armore.StatsCol
