import Armore.Lib.Text
import Mathlib.Algebra.GroupWithZero.Nat
import Mathlib.Data.List.Perm.Basic

/-!
# The targets of the Modbus counter

The handlers of requests put the items that a request addresses into `g_tgt` and observe each of them; the
handlers of responses observe what they find in `g_tgt`. The items are enumerated by the recursive `range`,
whose two bounds belong to the range. An event may be handled without a result, when `range` does not return.

The script has no handler for a request to read holding registers, nor for its response: those that it has for
them are handlers of `modbus_read_holdinmodbus_registers_request` and `modbus_read_holdinmodbus_registers_response`,
and no packet raises these.
-/

namespace Armore.StatisticAnalyzer

open Lib

/-! ### The globals -/

/-- A `table[string] of count`. -/
abbrev Target := List (Text × UInt64)

/-- The globals that a handler reads. The contents of coils and registers are kept in further ones, which only
messages on the console depend on. -/
structure Globals where
  gSrc : Text
  gDst : Text
  gPro : Text
  gFun : Text
  gTgt : List Target
  modbusStartAddress : UInt64
  modbusStartAddress2 : UInt64
  modbusQuantity : UInt64
  modbusQuantity2 : UInt64

inductive Exn
  | noSuchIndex
  deriving DecidableEq

/-- What a handler leaves: the globals, the keys observed in `modbus_tgt`, and what it was aborted by. -/
structure Left where
  globals : Globals
  observed : List Text := []
  raised : Option Exn := none

abbrev Handler := Globals → Option Left

namespace Globals

/-- `cat(g_src, ";", g_dst, ";", g_pro, ";", g_fun, ";", target)`. -/
def key (s : Globals) (target : Text) : Text :=
  s.gSrc ++ ';' :: (s.gDst ++ ';' :: (s.gPro ++ ';' :: (s.gFun ++ ';' :: target)))

/-- The headers of another packet. -/
def withHeaders (s : Globals) (src dst pro func : Text) : Globals :=
  { s with gSrc := src, gDst := dst, gPro := pro, gFun := func }

end Globals

/-- Handlers of events that follow each other. An event that is aborted does not keep the next from its
handler. -/
def runAll : List Handler → Handler
  | [], s => some { globals := s }
  | handler :: handlers, s => do
      let first ← handler s
      let rest ← runAll handlers first.globals
      return { globals := rest.globals, observed := first.observed ++ rest.observed
               raised := first.raised <|> rest.raised }

/-! ### Ranges -/

/-- `range`, to a depth of calls. The addition wraps around. -/
def range : Nat → UInt64 → UInt64 → Option (List UInt64)
  | 0, _, _ => none
  | fuel + 1, lower, upper =>
    if lower > upper then some []
    else (range fuel (lower + 1) upper).map fun r => lower :: r

/-- The text of an item. -/
def item (label : Text) (n : Nat) : Text := label ++ ':' :: Text.str n

/-- The text of a record of a file. -/
def fileRecord (fileNum n : Nat) : Text :=
  item "File_Number".toList fileNum ++ ' ' :: item "Record_Number".toList n

/-- The loop over the items of a range. -/
def Globals.addItems (s : Globals) (label : Text) (v : List UInt64) : Left where
  globals := { s with gTgt := s.gTgt ++ v.map fun n => [(label, n)] }
  observed := v.map fun n => s.key (item label n.toNat)

section

variable (levels fuel : Nat)

/-! ### Handlers of requests -/

/-- The handlers of the requests that read a number of items. -/
def readRequest (label : Text) (startAddress quantity : UInt64) : Handler := fun s =>
  let s := { s with gTgt := [] }
  if quantity > 0 then
    let s := { s with modbusStartAddress := startAddress, modbusQuantity := quantity }
    if levels ≥ 5 then
      (range fuel s.modbusStartAddress (s.modbusStartAddress + s.modbusQuantity - 1)).map (s.addItems label)
    else some { globals := s }
  else some { globals := s }

def modbusReadCoilsRequest := readRequest levels fuel "Coil".toList
def modbusReadDiscreteInputsRequest := readRequest levels fuel "Discrete_Input".toList
def modbusReadInputRegistersRequest := readRequest levels fuel "Input_Register".toList

/-- The handlers of the requests for one item. -/
def singleRequest (label : Text) (address : UInt64) : Handler := fun s =>
  let s := { s with gTgt := [], modbusStartAddress := address }
  if levels ≥ 5 then some (s.addItems label [address]) else some { globals := s }

def modbusWriteSingleCoilRequest := singleRequest levels "Coil".toList
def modbusWriteSingleRegisterRequest := singleRequest levels "Holdinmodbus_register".toList
def modbusMaskWriteRegisterRequest := singleRequest levels "Holdinmodbus_register".toList
def modbusReadFifoQueueRequest := singleRequest levels "FIFO_Queue".toList

/-- The handlers of the requests that write a list of values. Here `g_tgt` is emptied after the test. -/
def writeRequest (label : Text) (startAddress : UInt64) (length : Nat) : Handler := fun s =>
  let s := { s with modbusStartAddress := startAddress, modbusQuantity := UInt64.ofNat length }
  if s.modbusQuantity > 0 then
    let s := { s with gTgt := [] }
    if levels ≥ 5 then
      (range fuel s.modbusStartAddress (s.modbusStartAddress + s.modbusQuantity - 1)).map (s.addItems label)
    else some { globals := s }
  else some { globals := s }

def modbusWriteMultipleCoilsRequest (startAddress : UInt64) (coils : List Bool) :=
  writeRequest levels fuel "Coil".toList startAddress coils.length

def modbusWriteMultipleRegistersRequest (startAddress : UInt64) (registers : List UInt64) :=
  writeRequest levels fuel "Holdinmodbus_register".toList startAddress registers.length

/-- The handlers of the events before the references to records. -/
def clearTargets : Handler := fun s => some { globals := { s with gTgt := [] } }

def modbusReadFileRecordRequest := clearTargets
def modbusWriteFileRecordRequest := clearTargets

/-- The handlers of a reference to records. What is observed is the index in the range. -/
def referenceRequest (fileNum recordNum length : UInt64) : Handler := fun s =>
  if levels ≥ 5 then
    (range fuel recordNum (length - 1)).map fun v =>
      { globals :=
          { s with
            gTgt := s.gTgt ++ v.map fun n =>
              [("File_Number".toList, fileNum), ("Record_Number".toList, n)] }
        observed := (List.range v.length).map fun i => s.key (fileRecord fileNum.toNat i) }
  else some { globals := s }

def modbusFileRecordRequest := referenceRequest levels fuel
def modbusReferenceWithData := referenceRequest levels fuel

omit levels in
/-- A loop over a range that is only asked for with a quantity. -/
def itemsIf (label : Text) (quantity lower upper : UInt64) : Handler := fun s =>
  if quantity > 0 then (range fuel lower upper).map (s.addItems label) else some { globals := s }

def modbusReadWriteMultipleRegistersRequest (readStartAddress readQuantity writeStartAddress : UInt64)
    (writeRegisters : List UInt64) : Handler := fun s =>
  let s :=
    { s with
      modbusStartAddress := writeStartAddress, modbusStartAddress2 := readStartAddress
      modbusQuantity := UInt64.ofNat writeRegisters.length, modbusQuantity2 := readQuantity, gTgt := [] }
  if levels ≥ 5 then do
    let write ← itemsIf fuel "Write_Holdinmodbus_register".toList s.modbusQuantity
      s.modbusStartAddress (s.modbusStartAddress + s.modbusQuantity - 1) s
    let s := write.globals
    -- from the start of the registers that are written
    let read ← itemsIf fuel "Read_Holdinmodbus_register".toList s.modbusQuantity2
      s.modbusStartAddress (s.modbusStartAddress2 + s.modbusQuantity2 - 1) s
    return { globals := read.globals, observed := write.observed ++ read.observed }
  else some { globals := s }

/-! ### Handlers of responses -/

/-- The loop over `g_tgt`: what each entry makes observed, up to an entry without an index. -/
def observeEach (s : Globals) (texts : Target → Option (List Text)) : List Target → Left
  | [] => { globals := s }
  | target :: targets =>
    match texts target with
    | none => { globals := s, raised := some .noSuchIndex }
    | some found =>
      let rest := observeEach s texts targets
      { rest with observed := found.map s.key ++ rest.observed }

/-- `g_tgt[i][label]`. -/
def labelled (label : Text) (target : Target) : Option (List Text) :=
  (target.lookup label).map fun n => [item label n.toNat]

/-- Both indices of a record. -/
def recordOf (target : Target) : Option (List Text) := do
  let fileNum ← target.lookup "File_Number".toList
  let recordNum ← target.lookup "Record_Number".toList
  return [fileRecord fileNum.toNat recordNum.toNat]

/-- An index that is tested before it is read. -/
def ifThere (label : Text) (target : Target) : List Text :=
  match target.lookup label with
  | none => []
  | some n => [item label n.toNat]

def eachResponse (texts : Target → Option (List Text)) : Handler := fun s =>
  if levels ≥ 5 then some (observeEach s texts s.gTgt) else some { globals := s }

/-- The handlers that read `g_tgt[0]` alone. -/
def firstResponse (label : Text) : Handler := fun s =>
  if levels ≥ 5 then
    match s.gTgt with
    | [] => some { globals := s, raised := some .noSuchIndex }
    | target :: _ => some (observeEach s (labelled label) [target])
  else some { globals := s }

def modbusReadCoilsResponse := eachResponse levels (labelled "Coil".toList)
def modbusReadDiscreteInputsResponse := eachResponse levels (labelled "Discrete_Input".toList)
def modbusReadInputRegistersResponse := eachResponse levels (labelled "Input_Register".toList)
def modbusWriteSingleCoilResponse := firstResponse levels "Coil".toList
def modbusWriteSingleRegisterResponse := firstResponse levels "Holdinmodbus_register".toList
def modbusWriteMultipleCoilsResponse := eachResponse levels (labelled "Coil".toList)
def modbusWriteMultipleRegistersResponse := eachResponse levels (labelled "Holdinmodbus_register".toList)
def modbusFileRecordResponse := eachResponse levels recordOf
def modbusWriteFileRecordResponse := eachResponse levels recordOf
def modbusMaskWriteRegisterResponse := firstResponse levels "Holdinmodbus_register".toList

def modbusReadWriteMultipleRegistersResponse := eachResponse levels fun target =>
  some (ifThere "Write_Holdinmodbus_register".toList target ++ ifThere "Read_Holdinmodbus_register".toList target)

def modbusReadFifoQueueResponse := firstResponse levels "FIFO_Queue".toList

end

/-! ### Requests -/

/-- A reference to records of a file. -/
structure Reference where
  fileNum : UInt64
  recordNum : UInt64
  recordLen : UInt64

inductive Request
  | readCoils (startAddress quantity : UInt64)
  | readDiscreteInputs (startAddress quantity : UInt64)
  | readHoldingRegisters (startAddress quantity : UInt64)
  | readInputRegisters (startAddress quantity : UInt64)
  | writeSingleCoil (address : UInt64)
  | writeSingleRegister (address : UInt64)
  | writeMultipleCoils (startAddress : UInt64) (coils : List Bool)
  | writeMultipleRegisters (startAddress : UInt64) (registers : List UInt64)
  | readFileRecord (references : List Reference)
  | writeFileRecord (references : List Reference)
  | maskWriteRegister (address : UInt64)
  | readWriteMultipleRegisters (readStartAddress readQuantity writeStartAddress : UInt64)
      (writeRegisters : List UInt64)
  | readFifoQueue (startAddress : UInt64)

namespace Request

/-- The handlers of the events of a request. -/
def handlers (levels fuel : Nat) : Request → List Handler
  | readCoils startAddress quantity => [modbusReadCoilsRequest levels fuel startAddress quantity]
  | readDiscreteInputs startAddress quantity => [modbusReadDiscreteInputsRequest levels fuel startAddress quantity]
  -- `modbus_read_holding_registers_request` has no handler
  | readHoldingRegisters _ _ => []
  | readInputRegisters startAddress quantity => [modbusReadInputRegistersRequest levels fuel startAddress quantity]
  | writeSingleCoil address => [modbusWriteSingleCoilRequest levels address]
  | writeSingleRegister address => [modbusWriteSingleRegisterRequest levels address]
  | writeMultipleCoils startAddress coils => [modbusWriteMultipleCoilsRequest levels fuel startAddress coils]
  | writeMultipleRegisters startAddress registers =>
    [modbusWriteMultipleRegistersRequest levels fuel startAddress registers]
  | readFileRecord references =>
    modbusReadFileRecordRequest
      :: references.map fun r => modbusFileRecordRequest levels fuel r.fileNum r.recordNum r.recordLen
  | writeFileRecord references =>
    modbusWriteFileRecordRequest
      :: references.map fun r => modbusReferenceWithData levels fuel r.fileNum r.recordNum r.recordLen
  | maskWriteRegister address => [modbusMaskWriteRegisterRequest levels address]
  | readWriteMultipleRegisters readStartAddress readQuantity writeStartAddress writeRegisters =>
    [modbusReadWriteMultipleRegistersRequest levels fuel readStartAddress readQuantity writeStartAddress
      writeRegisters]
  | readFifoQueue startAddress => [modbusReadFifoQueueRequest levels startAddress]

/-- The handlers of the events of its response. A file that is read has an event for each reference. -/
def responseHandlers (levels : Nat) : Request → List Handler
  | readCoils _ _ => [modbusReadCoilsResponse levels]
  | readDiscreteInputs _ _ => [modbusReadDiscreteInputsResponse levels]
  | readHoldingRegisters _ _ => []
  | readInputRegisters _ _ => [modbusReadInputRegistersResponse levels]
  | writeSingleCoil _ => [modbusWriteSingleCoilResponse levels]
  | writeSingleRegister _ => [modbusWriteSingleRegisterResponse levels]
  | writeMultipleCoils _ _ => [modbusWriteMultipleCoilsResponse levels]
  | writeMultipleRegisters _ _ => [modbusWriteMultipleRegistersResponse levels]
  | readFileRecord references => references.map fun _ => modbusFileRecordResponse levels
  | writeFileRecord _ => [modbusWriteFileRecordResponse levels]
  | maskWriteRegister _ => [modbusMaskWriteRegisterResponse levels]
  | readWriteMultipleRegisters _ _ _ _ => [modbusReadWriteMultipleRegistersResponse levels]
  | readFifoQueue _ => [modbusReadFifoQueueResponse levels]

end Request

/-! ### What a request addresses -/

/-- The texts of consecutive items. -/
def items (label : Text) (start quantity : Nat) : List Text := (List.range' start quantity).map (item label)

/-- The texts of the records of a reference. -/
def Reference.records (r : Reference) : List Text :=
  (List.range' r.recordNum.toNat r.recordLen.toNat).map (fileRecord r.fileNum.toNat)

namespace Request

def addressed : Request → List Text
  | readCoils startAddress quantity => items "Coil".toList startAddress.toNat quantity.toNat
  | readDiscreteInputs startAddress quantity => items "Discrete_Input".toList startAddress.toNat quantity.toNat
  | readHoldingRegisters startAddress quantity =>
    items "Holdinmodbus_register".toList startAddress.toNat quantity.toNat
  | readInputRegisters startAddress quantity => items "Input_Register".toList startAddress.toNat quantity.toNat
  | writeSingleCoil address => [item "Coil".toList address.toNat]
  | writeSingleRegister address => [item "Holdinmodbus_register".toList address.toNat]
  | writeMultipleCoils startAddress coils => items "Coil".toList startAddress.toNat coils.length
  | writeMultipleRegisters startAddress registers =>
    items "Holdinmodbus_register".toList startAddress.toNat registers.length
  | readFileRecord references => references.flatMap Reference.records
  | writeFileRecord references => references.flatMap Reference.records
  | maskWriteRegister address => [item "Holdinmodbus_register".toList address.toNat]
  | readWriteMultipleRegisters readStartAddress readQuantity writeStartAddress writeRegisters =>
    items "Write_Holdinmodbus_register".toList writeStartAddress.toNat writeRegisters.length
      ++ items "Read_Holdinmodbus_register".toList readStartAddress.toNat readQuantity.toNat
  | readFifoQueue startAddress => [item "FIFO_Queue".toList startAddress.toNat]

end Request

/-- The handlers of some events return, none is aborted, and what they observe is, in some order, `texts`. -/
def Observes (handlers : List Handler) (s : Globals) (texts : List Text) (left : Left) : Prop :=
  runAll handlers s = some left ∧ left.raised = none ∧ left.observed.Perm (texts.map s.key)

/-- The same texts are observed at a request and at its response, whose packet has other headers. -/
def ObservesTwice (request : Nat → List Handler) (response : List Handler) (texts : List Text) (s : Globals) :
    Prop :=
  ∃ fuel left, Observes (request fuel) s texts left
    ∧ ∀ src dst pro func, ∃ left', Observes response (left.globals.withHeaders src dst pro func) texts left'

/-- A request is observed item by item, and so is its response. -/
def ObservesItems (levels : Nat) (r : Request) (s : Globals) : Prop :=
  ObservesTwice (r.handlers levels) (r.responseHandlers levels) r.addressed s

/-- The bounds of a range of items in a `count`. -/
def Fits (startAddress : UInt64) (quantity : Nat) : Prop := startAddress.toNat + quantity < 2 ^ 64

/-- The requests that the handlers get right. -/
def Request.Observable (s : Globals) : Request → Prop
  | readCoils startAddress quantity => Fits startAddress quantity.toNat
  | readDiscreteInputs startAddress quantity => Fits startAddress quantity.toNat
  | readHoldingRegisters _ quantity => quantity = 0
  | readInputRegisters startAddress quantity => Fits startAddress quantity.toNat
  | writeSingleCoil _ => True
  | writeSingleRegister _ => True
  | writeMultipleCoils startAddress coils => Fits startAddress coils.length ∧ (coils = [] → s.gTgt = [])
  | writeMultipleRegisters startAddress registers =>
    Fits startAddress registers.length ∧ (registers = [] → s.gTgt = [])
  | readFileRecord references =>
    references.length ≤ 1 ∧ ∀ r ∈ references, r.recordNum = 0 ∧ r.recordLen ≠ 0
  | writeFileRecord references => ∀ r ∈ references, r.recordNum = 0 ∧ r.recordLen ≠ 0
  | maskWriteRegister _ => True
  | readWriteMultipleRegisters readStartAddress readQuantity writeStartAddress writeRegisters =>
    Fits writeStartAddress writeRegisters.length
      ∧ (readQuantity = 0 ∨ (readStartAddress = writeStartAddress ∧ Fits readStartAddress readQuantity.toNat))
  | readFifoQueue _ => True

/-! ### The range -/

/-- A range up to the largest `count` has no end. -/
theorem range_max (fuel : Nat) (lower : UInt64) : range fuel lower (-1) = none := by
  induction fuel generalizing lower with
  | zero => rfl
  | succ fuel ih =>
      have hle : ¬ lower > (-1 : UInt64) := by
        rw [gt_iff_lt, UInt64.lt_iff_toNat_lt]
        have hmax : (-1 : UInt64).toNat = 2 ^ 64 - 1 := by decide
        have := lower.toNat_lt
        omega
      rw [range, if_neg hle, ih]
      rfl

theorem toNat_lt_max {n : UInt64} (hne : n ≠ -1) : n.toNat + 1 < 2 ^ 64 := by
  have hmax : (-1 : UInt64).toNat = 2 ^ 64 - 1 := by decide
  have hne : n.toNat ≠ (-1 : UInt64).toNat := fun h => hne (UInt64.toNat_inj.mp h)
  have := n.toNat_lt
  omega

/-- What a range returns is what is between its bounds. -/
theorem range_some {fuel : Nat} {lower upper : UInt64} {v : List UInt64} (h : range fuel lower upper = some v) :
    upper ≠ -1 ∧ v.map UInt64.toNat = List.range' lower.toNat (upper.toNat + 1 - lower.toNat) := by
  have hupper : upper ≠ -1 := by
    rintro rfl
    rw [range_max] at h
    cases h
  refine ⟨hupper, ?_⟩
  induction fuel generalizing lower v with
  | zero => cases h
  | succ fuel ih =>
      rw [range] at h
      split at h
      · rename_i hgt
        have hgt := UInt64.lt_iff_toNat_lt.mp hgt
        rw [← Option.some.inj h, show upper.toNat + 1 - lower.toNat = 0 by omega]
        rfl
      · rename_i hle
        have hle : lower.toNat ≤ upper.toNat := by
          rw [gt_iff_lt, UInt64.lt_iff_toNat_lt] at hle
          omega
        obtain ⟨r, hr, rfl⟩ := Option.map_eq_some_iff.mp h
        have hbound := toNat_lt_max hupper
        have hnext : (lower + 1).toNat = lower.toNat + 1 := by
          rw [UInt64.toNat_add, UInt64.toNat_one]
          omega
        rw [List.map_cons, ih hr, hnext,
          show upper.toNat + 1 - lower.toNat = (upper.toNat + 1 - (lower.toNat + 1)) + 1 by omega]
        rfl

theorem range_isSome {upper : UInt64} (hupper : upper ≠ -1) (n : Nat) {lower : UInt64}
    (hn : upper.toNat + 1 - lower.toNat ≤ n) : ∃ v, range (n + 1) lower upper = some v := by
  induction n generalizing lower with
  | zero =>
      refine ⟨[], ?_⟩
      rw [range, if_pos]
      rw [gt_iff_lt, UInt64.lt_iff_toNat_lt]
      omega
  | succ n ih =>
      rw [range]
      split
      · exact ⟨_, rfl⟩
      · rename_i hle
        rw [gt_iff_lt, UInt64.lt_iff_toNat_lt] at hle
        have hbound := toNat_lt_max hupper
        have hnext : (lower + 1).toNat = lower.toNat + 1 := by
          rw [UInt64.toNat_add, UInt64.toNat_one]
          omega
        obtain ⟨r, hr⟩ : ∃ r, range (n + 1) (lower + 1) upper = some r := ih (by omega)
        exact ⟨lower :: r, by rw [hr]; rfl⟩

/-- One depth of calls is enough for all ranges that end. -/
theorem exists_depth : ∃ fuel, ∀ lower upper : UInt64, upper ≠ -1 → ∃ v, range fuel lower upper = some v := by
  refine ⟨2 ^ 64 + 1, fun lower upper hupper => range_isSome hupper (2 ^ 64) ?_⟩
  have := upper.toNat_lt
  omega

section

variable {fuel : Nat} {lower startAddress quantity : UInt64} {v : List UInt64}

/-- The last item, which wraps around with the sum. -/
theorem toNat_last (startAddress : UInt64) (hpos : quantity > 0) :
    (startAddress + quantity - 1).toNat = (startAddress.toNat + quantity.toNat - 1) % 2 ^ 64 := by
  have hpos := UInt64.lt_iff_toNat_lt.mp hpos
  have := startAddress.toNat_lt
  have := quantity.toNat_lt
  rw [UInt64.toNat_zero] at hpos
  rw [UInt64.toNat_sub, UInt64.toNat_add, UInt64.toNat_one]
  omega

theorem last_ne_max (hpos : quantity > 0) (hfits : Fits startAddress quantity.toNat) :
    startAddress + quantity - 1 ≠ -1 := by
  intro hmax
  have hlast := toNat_last startAddress hpos
  have hpos := UInt64.lt_iff_toNat_lt.mp hpos
  have hone : (-1 : UInt64).toNat = 2 ^ 64 - 1 := by decide
  rw [UInt64.toNat_zero] at hpos
  rw [hmax, hone] at hlast
  unfold Fits at hfits
  omega

theorem range_items (hpos : quantity > 0) (hfits : Fits startAddress quantity.toNat)
    (h : range fuel startAddress (startAddress + quantity - 1) = some v) :
    v.map UInt64.toNat = List.range' startAddress.toNat quantity.toNat := by
  have hlast := toNat_last startAddress hpos
  have hpos := UInt64.lt_iff_toNat_lt.mp hpos
  rw [UInt64.toNat_zero] at hpos
  unfold Fits at hfits
  rw [(range_some h).2, hlast]
  congr 1
  omega

/-- As many items as asked for are the items asked for. -/
theorem fits_of_length (hpos : quantity > 0) (h : range fuel lower (startAddress + quantity - 1) = some v)
    (hlength : v.length = quantity.toNat) : lower = startAddress ∧ Fits startAddress quantity.toNat := by
  obtain ⟨hmax, hrange⟩ := range_some h
  have hmax := toNat_lt_max hmax
  have hlast := toNat_last startAddress hpos
  have hpos := UInt64.lt_iff_toNat_lt.mp hpos
  rw [UInt64.toNat_zero] at hpos
  have hcount := congrArg List.length hrange
  rw [List.length_map, List.length_range', hlength] at hcount
  have := startAddress.toNat_lt
  have := quantity.toNat_lt
  have := lower.toNat_lt
  constructor
  · apply UInt64.toNat_inj.mp
    omega
  · unfold Fits
    omega

theorem length_lt_of_range {upper : UInt64} (h : range fuel lower upper = some v) : v.length < 2 ^ 64 := by
  obtain ⟨hmax, hrange⟩ := range_some h
  have hmax := toNat_lt_max hmax
  have hcount := congrArg List.length hrange
  rw [List.length_map, List.length_range'] at hcount
  omega

end

/-! ### Observations -/

theorem runAll_cons_eq_some {handler : Handler} {handlers : List Handler} {s : Globals} {left : Left} :
    runAll (handler :: handlers) s = some left
      ↔ ∃ first rest, handler s = some first ∧ runAll handlers first.globals = some rest
        ∧ left = { globals := rest.globals, observed := first.observed ++ rest.observed
                   raised := first.raised <|> rest.raised } := by
  rw [runAll, Option.bind_eq_bind, Option.bind_eq_some_iff]
  constructor
  · rintro ⟨first, hfirst, h⟩
    obtain ⟨rest, hrest, h⟩ := Option.bind_eq_some_iff.mp h
    exact ⟨first, rest, hfirst, hrest, (Option.some.inj h).symm⟩
  · rintro ⟨first, rest, hfirst, hrest, rfl⟩
    exact ⟨first, hfirst, Option.bind_eq_some_iff.mpr ⟨rest, hrest, rfl⟩⟩

theorem runAll_singleton {handler : Handler} {s : Globals} {left : Left} :
    runAll [handler] s = some left ↔ handler s = some left := by
  rw [runAll_cons_eq_some]
  constructor
  · rintro ⟨⟨globals, observed, raised⟩, rest, hfirst, hrest, rfl⟩
    rw [← Option.some.inj hrest, List.append_nil]
    cases raised <;> exact hfirst
  · intro hleft
    refine ⟨left, { globals := left.globals }, hleft, rfl, ?_⟩
    rw [List.append_nil]
    cases h : left.raised <;> simp [← h]

theorem key_injective (s : Globals) : Function.Injective s.key := by
  intro a b h
  unfold Globals.key at h
  simpa using h

theorem Observes.length_eq {handlers : List Handler} {s : Globals} {texts : List Text} {left : Left}
    (h : Observes handlers s texts left) : left.observed.length = texts.length := by
  rw [h.2.2.length_eq, List.length_map]

/-- A loop over entries of which each has its text. -/
theorem observeEach_of_map (s : Globals) {texts : Target → Option (List Text)} {targets : List Target}
    {found : List Text} (h : targets.map texts = found.map fun text => some [text]) :
    observeEach s texts targets = { globals := s, observed := found.map s.key } := by
  induction targets generalizing found with
  | nil =>
      cases found with
      | nil => rfl
      | cons text found => cases h
  | cons target targets ih =>
      cases found with
      | nil => cases h
      | cons text found =>
          obtain ⟨htarget, htargets⟩ := List.cons.inj h
          rw [observeEach, htarget]
          dsimp only
          rw [ih htargets]
          rfl

theorem labelled_singleton (label : Text) (n : UInt64) : labelled label [(label, n)] = some [item label n.toNat] := by
  rw [labelled, List.lookup_cons_self]
  rfl

theorem items_eq_map {v : List UInt64} {start quantity : Nat} (h : v.map UInt64.toNat = List.range' start quantity)
    (label : Text) : items label start quantity = v.map fun n => item label n.toNat := by
  rw [items, ← h, List.map_map]
  rfl

section

variable {levels : Nat} (hlevels : 5 ≤ levels)

/-! ### Requests for a number of items -/

include hlevels in
/-- The response to a request whose items are in `g_tgt`. -/
theorem eachResponse_items (label : Text) {s : Globals} {v : List UInt64}
    (htgt : s.gTgt = v.map fun n => [(label, n)]) :
    eachResponse levels (labelled label) s
      = some { globals := s, observed := (v.map fun n => item label n.toNat).map s.key } := by
  have heach : s.gTgt.map (labelled label) = (v.map fun n => item label n.toNat).map fun text => some [text] := by
    rw [htgt, List.map_map, List.map_map]
    exact List.map_congr_left fun n _ => labelled_singleton label n
  rw [eachResponse, if_pos hlevels, observeEach_of_map s heach]

include hlevels in
/-- What a loop over the right items leaves is observed again. -/
theorem observes_addItems (label : Text) {s : Globals} {v : List UInt64} (hclear : s.gTgt = [])
    (src dst pro func : Text) :
    ∃ left, Observes [eachResponse levels (labelled label)]
      ((s.addItems label v).globals.withHeaders src dst pro func) (v.map fun n => item label n.toNat) left := by
  refine ⟨_, runAll_singleton.mpr (eachResponse_items hlevels label ?_), rfl, List.Perm.refl _⟩
  show s.gTgt ++ _ = _
  rw [hclear, List.nil_append]

include hlevels in
theorem readRequest_of_pos (fuel : Nat) (label : Text) (startAddress : UInt64) {quantity : UInt64}
    (hpos : quantity > 0) (s : Globals) :
    readRequest levels fuel label startAddress quantity s
      = (range fuel startAddress (startAddress + quantity - 1)).map
        (Globals.addItems { s with gTgt := [], modbusStartAddress := startAddress, modbusQuantity := quantity }
          label) := by
  rw [readRequest, if_pos hpos, if_pos hlevels]

theorem readRequest_of_zero (fuel : Nat) (label : Text) (startAddress : UInt64) (s : Globals) :
    readRequest levels fuel label startAddress 0 s = some { globals := { s with gTgt := [] } } := rfl

theorem eq_zero_of_not_pos {quantity : UInt64} (hpos : ¬ quantity > 0) : quantity = 0 := by
  rw [gt_iff_lt, UInt64.lt_iff_toNat_lt, UInt64.toNat_zero] at hpos
  exact UInt64.toNat_inj.mp (by rw [UInt64.toNat_zero]; omega)

theorem fits_zero (startAddress : UInt64) : Fits startAddress 0 := startAddress.toNat_lt

include hlevels in
theorem readItems_iff (label : Text) (startAddress quantity : UInt64) (s : Globals) :
    ObservesTwice (fun fuel => [readRequest levels fuel label startAddress quantity])
        [eachResponse levels (labelled label)] (items label startAddress.toNat quantity.toNat) s
      ↔ Fits startAddress quantity.toNat := by
  by_cases hpos : quantity > 0
  · constructor
    · rintro ⟨fuel, left, hrequest, -⟩
      have hlength := hrequest.length_eq
      obtain ⟨v, hv, rfl⟩ :=
        Option.map_eq_some_iff.mp ((readRequest_of_pos hlevels fuel label startAddress hpos s).symm.trans
          (runAll_singleton.mp hrequest.1))
      rw [Globals.addItems, List.length_map, items, List.length_map, List.length_range'] at hlength
      exact (fits_of_length hpos hv hlength).2
    · intro hfits
      obtain ⟨fuel, hdepth⟩ := exists_depth
      obtain ⟨v, hv⟩ := hdepth startAddress _ (last_ne_max hpos hfits)
      have hrequest := readRequest_of_pos hlevels fuel label startAddress hpos s
      rw [hv] at hrequest
      rw [items_eq_map (range_items hpos hfits hv)]
      refine ⟨fuel, _, ⟨runAll_singleton.mpr hrequest, rfl, ?_⟩, observes_addItems hlevels label rfl⟩
      rw [List.map_map]
      rfl
  · rw [eq_zero_of_not_pos hpos]
    refine iff_of_true ⟨0, _, ⟨runAll_singleton.mpr (readRequest_of_zero 0 label startAddress s), rfl, .refl _⟩,
      fun src dst pro func => ?_⟩ (fits_zero startAddress)
    exact ⟨_, runAll_singleton.mpr (if_pos hlevels), rfl, .refl _⟩

/-! ### Requests for one item -/

include hlevels in
theorem singleItem (label : Text) (address : UInt64) (s : Globals) :
    ObservesTwice (fun _ => [singleRequest levels label address]) [firstResponse levels label]
      [item label address.toNat] s := by
  refine ⟨0, _, ⟨runAll_singleton.mpr (if_pos hlevels), rfl, .refl _⟩, fun src dst pro func => ?_⟩
  refine ⟨_, runAll_singleton.mpr (if_pos hlevels), ?_⟩
  have heach : [[(label, address)]].map (labelled label) = [item label address.toNat].map fun text => some [text] := by
    rw [List.map_singleton, List.map_singleton, labelled_singleton]
  show (observeEach _ _ [[(label, address)]]).raised = none ∧ (observeEach _ _ [[(label, address)]]).observed.Perm _
  rw [observeEach_of_map _ heach]
  exact ⟨rfl, .refl _⟩

/-! ### Requests that write a list -/

theorem writeRequest_of_pos (fuel : Nat) (label : Text) (startAddress : UInt64) {length : Nat}
    (hpos : UInt64.ofNat length > 0) (s : Globals) :
    writeRequest levels fuel label startAddress length s
      = readRequest levels fuel label startAddress (UInt64.ofNat length) s := by
  rw [writeRequest, readRequest, if_pos hpos, if_pos hpos]

theorem writeRequest_of_zero (fuel : Nat) (label : Text) (startAddress : UInt64) {length : Nat}
    (hzero : UInt64.ofNat length = 0) (s : Globals) :
    writeRequest levels fuel label startAddress length s
      = some { globals := { s with modbusStartAddress := startAddress, modbusQuantity := 0 } } := by
  rw [writeRequest, hzero]
  rfl

/-- The first entry of `g_tgt` is observed or aborts the handler. -/
theorem eachResponse_nil {label : Text} {s : Globals} {left : Left} (hlevels : 5 ≤ levels)
    (h : Observes [eachResponse levels (labelled label)] s [] left) : s.gTgt = [] := by
  have heach := runAll_singleton.mp h.1
  have hlength := h.length_eq
  have hnone := h.2.1
  rw [eachResponse, if_pos hlevels] at heach
  rw [← Option.some.inj heach] at hlength hnone
  cases htgt : s.gTgt with
  | nil => rfl
  | cons target targets =>
      rw [htgt, observeEach] at hlength hnone
      cases hlookup : target.lookup label with
      | none =>
          rw [labelled, hlookup] at hnone
          cases hnone
      | some n =>
          rw [labelled, hlookup] at hlength
          simp at hlength

include hlevels in
theorem writeItems_iff (label : Text) (startAddress : UInt64) (length : Nat) (s : Globals) :
    ObservesTwice (fun fuel => [writeRequest levels fuel label startAddress length])
        [eachResponse levels (labelled label)] (items label startAddress.toNat length) s
      ↔ Fits startAddress length ∧ (length = 0 → s.gTgt = []) := by
  by_cases hpos : UInt64.ofNat length > 0
  · have hne : length ≠ 0 := by
      rintro rfl
      exact absurd hpos (by decide)
    have hsame : (fun fuel => [writeRequest levels fuel label startAddress length])
        = fun fuel => [readRequest levels fuel label startAddress (UInt64.ofNat length)] := by
      funext fuel
      congr 1
      funext s
      exact writeRequest_of_pos fuel label startAddress hpos s
    rw [hsame]
    by_cases hsmall : length < 2 ^ 64
    · have hlength : (UInt64.ofNat length).toNat = length :=
        UInt64.toNat_ofNat_of_lt' hsmall
      have hread := readItems_iff hlevels label startAddress (UInt64.ofNat length) s
      rw [hlength] at hread
      exact hread.trans ⟨fun hfits => ⟨hfits, fun hzero => absurd hzero hne⟩, And.left⟩
    · refine iff_of_false ?_ fun h => ?_
      · -- A range is shorter than the list.
        rintro ⟨fuel, left, hrequest, -⟩
        have hlength := hrequest.length_eq
        obtain ⟨v, hv, rfl⟩ :=
          Option.map_eq_some_iff.mp ((readRequest_of_pos hlevels fuel label startAddress hpos s).symm.trans
            (runAll_singleton.mp hrequest.1))
        rw [Globals.addItems, List.length_map, items, List.length_map, List.length_range'] at hlength
        exact hsmall (hlength ▸ length_lt_of_range hv)
      · have hfits : startAddress.toNat + length < 2 ^ 64 := h.1
        omega
  · have hzero := eq_zero_of_not_pos hpos
    constructor
    · rintro ⟨fuel, left, hrequest, hresponse⟩
      have hlength := hrequest.length_eq
      have hleft := (writeRequest_of_zero fuel label startAddress hzero s).symm.trans (runAll_singleton.mp hrequest.1)
      rw [← Option.some.inj hleft, items, List.length_map, List.length_range'] at hlength
      have hnone : length = 0 := hlength.symm
      subst hnone
      refine ⟨fits_zero startAddress, fun _ => ?_⟩
      obtain ⟨left', hleft'⟩ := hresponse [] [] [] []
      have htgt := eachResponse_nil hlevels hleft'
      rw [← Option.some.inj hleft] at htgt
      exact htgt
    · rintro ⟨hfits, hclear⟩
      have hsmall : length < 2 ^ 64 := lt_of_le_of_lt (Nat.le_add_left _ _) hfits
      have hlength : length = 0 := by
        have := congrArg UInt64.toNat hzero
        rwa [UInt64.toNat_ofNat', Nat.mod_eq_of_lt hsmall, UInt64.toNat_zero] at this
      subst hlength
      refine ⟨0, _, ⟨runAll_singleton.mpr (writeRequest_of_zero 0 label startAddress hzero s), rfl, .refl _⟩,
        fun src dst pro func => ?_⟩
      refine ⟨_, runAll_singleton.mpr (if_pos hlevels), ?_⟩
      show (observeEach _ _ s.gTgt).raised = none ∧ (observeEach _ _ s.gTgt).observed.Perm _
      rw [hclear rfl]
      exact ⟨rfl, .refl _⟩

/-! ### References to records -/

/-- A reference whose range is the one of its records. -/
def Reference.FromStart (r : Reference) : Prop := r.recordNum = 0 ∧ r.recordLen ≠ 0

/-- The entries of `g_tgt` for the records of references. -/
def Records (targets : List Target) (references : List Reference) : Prop :=
  targets.map recordOf = (references.flatMap Reference.records).map fun text => some [text]

theorem toNat_recordLen {length : UInt64} (hne : length - 1 ≠ -1) :
    length ≠ 0 ∧ (length - 1).toNat + 1 = length.toNat := by
  have hzero : length ≠ 0 := by
    rintro rfl
    exact hne (by decide)
  have hpos : length.toNat ≠ 0 := fun h => hzero (UInt64.toNat_inj.mp h)
  have := length.toNat_lt
  refine ⟨hzero, ?_⟩
  rw [UInt64.toNat_sub, UInt64.toNat_one]
  omega

include hlevels in
theorem referenceRequest_eq_some {fuel : Nat} {r : Reference} {s : Globals} {left : Left}
    (h : referenceRequest levels fuel r.fileNum r.recordNum r.recordLen s = some left) :
    r.recordLen ≠ 0 ∧ left.raised = none ∧ left.observed.length = r.recordLen.toNat - r.recordNum.toNat
      ∧ (r.recordNum = 0 → left.observed = r.records.map s.key
        ∧ ∃ targets, left.globals = { s with gTgt := s.gTgt ++ targets } ∧ Records targets [r]) := by
  rw [referenceRequest, if_pos hlevels] at h
  obtain ⟨v, hv, rfl⟩ := Option.map_eq_some_iff.mp h
  obtain ⟨hmax, hrange⟩ := range_some hv
  obtain ⟨hne, hlast⟩ := toNat_recordLen hmax
  rw [hlast] at hrange
  have hlength := congrArg List.length hrange
  rw [List.length_map, List.length_range'] at hlength
  refine ⟨hne, rfl, ?_, fun hzero => ⟨?_, _, rfl, ?_⟩⟩
  · rw [List.length_map, List.length_range, hlength]
  · rw [Reference.records, List.map_map, hlength, hzero, UInt64.toNat_zero, Nat.sub_zero, List.range_eq_range']
    rfl
  · have hrecords : r.records = v.map fun n => fileRecord r.fileNum.toNat n.toNat := by
      rw [hzero, UInt64.toNat_zero, Nat.sub_zero] at hrange
      rw [Reference.records, hzero, UInt64.toNat_zero, ← hrange, List.map_map]
      rfl
    have heach (n : UInt64) : recordOf [("File_Number".toList, r.fileNum), ("Record_Number".toList, n)]
        = some [fileRecord r.fileNum.toNat n.toNat] := rfl
    rw [Records, List.flatMap_singleton, hrecords, List.map_map, List.map_map]
    exact List.map_congr_left fun n _ => heach n

/-- The records that are addressed. -/
def recordCount (references : List Reference) : Nat := (references.map fun r => r.recordLen.toNat).sum

theorem length_flatMap_records (references : List Reference) :
    (references.flatMap Reference.records).length = recordCount references := by
  induction references with
  | nil => rfl
  | cons r references ih =>
      rw [List.flatMap_cons, List.length_append, ih, Reference.records, List.length_map, List.length_range',
        recordCount, recordCount, List.map_cons, List.sum_cons]

include hlevels in
/-- References observe no more than their records, and as many only if each starts at the first record. -/
theorem runAll_references {fuel : Nat} {references : List Reference} {s : Globals} {left : Left}
    (h : runAll (references.map fun r => referenceRequest levels fuel r.fileNum r.recordNum r.recordLen) s
      = some left) :
    left.observed.length ≤ recordCount references
      ∧ (left.observed.length = recordCount references → ∀ r ∈ references, r.FromStart) := by
  induction references generalizing s left with
  | nil =>
      rw [← Option.some.inj h]
      exact ⟨le_rfl, fun _ r hr => absurd hr List.not_mem_nil⟩
  | cons r references ih =>
      rw [List.map_cons, runAll_cons_eq_some] at h
      obtain ⟨first, rest, hfirst, hrest, rfl⟩ := h
      obtain ⟨hne, -, hlength, -⟩ := referenceRequest_eq_some hlevels hfirst
      obtain ⟨hle, hall⟩ := ih hrest
      have hpos : r.recordLen.toNat ≠ 0 := fun h => hne (UInt64.toNat_inj.mp h)
      rw [List.length_append, hlength, recordCount, List.map_cons, List.sum_cons, ← recordCount]
      refine ⟨by omega, fun hsame => ?_⟩
      rw [List.forall_mem_cons]
      refine ⟨⟨UInt64.toNat_inj.mp ?_, hne⟩, hall (by omega)⟩
      rw [UInt64.toNat_zero]
      omega

include hlevels in
/-- References that start at the first record observe their records and leave them in `g_tgt`. -/
theorem runAll_references_fromStart {fuel : Nat} {references : List Reference} {s : Globals} {left : Left}
    (hstart : ∀ r ∈ references, r.FromStart)
    (h : runAll (references.map fun r => referenceRequest levels fuel r.fileNum r.recordNum r.recordLen) s
      = some left) :
    left.raised = none ∧ left.observed = (references.flatMap Reference.records).map s.key
      ∧ ∃ targets, left.globals = { s with gTgt := s.gTgt ++ targets } ∧ Records targets references := by
  induction references generalizing s left with
  | nil =>
      rw [← Option.some.inj h]
      refine ⟨rfl, rfl, [], ?_, rfl⟩
      rw [List.append_nil]
  | cons r references ih =>
      rw [List.map_cons, runAll_cons_eq_some] at h
      obtain ⟨first, rest, hfirst, hrest, rfl⟩ := h
      rw [List.forall_mem_cons] at hstart
      obtain ⟨-, hraised, -, hrecords⟩ := referenceRequest_eq_some hlevels hfirst
      obtain ⟨hobserved, targets, hglobals, htargets⟩ := hrecords hstart.1.1
      obtain ⟨hraised', hobserved', targets', hglobals', htargets'⟩ := ih hstart.2 hrest
      refine ⟨?_, ?_, targets ++ targets', ?_, ?_⟩
      · rw [hraised, hraised']
        rfl
      · rw [hobserved, hobserved', hglobals, List.flatMap_cons, List.map_append]
        rfl
      · rw [hglobals', hglobals, List.append_assoc]
      · rw [Records, List.flatMap_singleton] at htargets
        rw [Records, List.map_append, htargets, htargets', List.flatMap_cons, List.map_append]

include hlevels in
theorem exists_runAll_references {fuel : Nat}
    (hdepth : ∀ lower upper : UInt64, upper ≠ -1 → ∃ v, range fuel lower upper = some v)
    {references : List Reference} (hstart : ∀ r ∈ references, r.FromStart) (s : Globals) :
    ∃ left, runAll (references.map fun r => referenceRequest levels fuel r.fileNum r.recordNum r.recordLen) s
      = some left := by
  induction references generalizing s with
  | nil => exact ⟨_, rfl⟩
  | cons r references ih =>
      rw [List.forall_mem_cons] at hstart
      have hmax : r.recordLen - 1 ≠ -1 := by
        intro hmax
        have hsum : r.recordLen - 1 + 1 = -1 + 1 := congrArg (· + 1) hmax
        rw [UInt64.sub_add_cancel] at hsum
        exact hstart.1.2 hsum
      obtain ⟨v, hv⟩ := hdepth r.recordNum (r.recordLen - 1) hmax
      obtain ⟨first, hfirst⟩ : ∃ first,
          referenceRequest levels fuel r.fileNum r.recordNum r.recordLen s = some first := by
        rw [referenceRequest, if_pos hlevels, hv]
        exact ⟨_, rfl⟩
      obtain ⟨rest, hrest⟩ := ih hstart.2 first.globals
      exact ⟨_, runAll_cons_eq_some.mpr ⟨first, rest, hfirst, hrest, rfl⟩⟩

/-- The events of a request with references to records. -/
def referenceHandlers (levels fuel : Nat) (references : List Reference) : List Handler :=
  clearTargets :: references.map fun r => referenceRequest levels fuel r.fileNum r.recordNum r.recordLen

include hlevels in
theorem fromStart_of_observes {fuel : Nat} {references : List Reference} {s : Globals} {left : Left}
    (h : Observes (referenceHandlers levels fuel references) s (references.flatMap Reference.records) left) :
    (∀ r ∈ references, r.FromStart) ∧ Records left.globals.gTgt references := by
  have hlength := h.length_eq
  obtain ⟨first, rest, hfirst, hrest, rfl⟩ := runAll_cons_eq_some.mp h.1
  rw [← Option.some.inj hfirst] at hrest hlength
  rw [List.nil_append, length_flatMap_records] at hlength
  have hstart := (runAll_references hlevels hrest).2 hlength
  obtain ⟨-, -, targets, hglobals, htargets⟩ := runAll_references_fromStart hlevels hstart hrest
  refine ⟨hstart, ?_⟩
  show Records rest.globals.gTgt references
  rw [hglobals, List.nil_append]
  exact htargets

include hlevels in
theorem exists_observes_of_fromStart {references : List Reference} (hstart : ∀ r ∈ references, r.FromStart)
    (s : Globals) :
    ∃ fuel left,
      Observes (referenceHandlers levels fuel references) s (references.flatMap Reference.records) left := by
  obtain ⟨fuel, hdepth⟩ := exists_depth
  obtain ⟨rest, hrest⟩ := exists_runAll_references hlevels hdepth hstart { s with gTgt := [] }
  obtain ⟨hraised, hobserved, -⟩ := runAll_references_fromStart hlevels hstart hrest
  refine ⟨fuel, _, runAll_cons_eq_some.mpr ⟨_, rest, rfl, hrest, rfl⟩, hraised, ?_⟩
  rw [hobserved]
  exact .refl _

include hlevels in
theorem eachResponse_records {references : List Reference} (s : Globals) (hrecords : Records s.gTgt references) :
    eachResponse levels recordOf s
      = some { globals := s, observed := (references.flatMap Reference.records).map s.key } := by
  rw [eachResponse, if_pos hlevels, observeEach_of_map s hrecords]

include hlevels in
theorem writeFile_iff (references : List Reference) (s : Globals) :
    ObservesTwice (fun fuel => referenceHandlers levels fuel references) [eachResponse levels recordOf]
        (references.flatMap Reference.records) s
      ↔ ∀ r ∈ references, r.FromStart := by
  constructor
  · rintro ⟨fuel, left, hrequest, -⟩
    exact (fromStart_of_observes hlevels hrequest).1
  · intro hstart
    obtain ⟨fuel, left, hrequest⟩ := exists_observes_of_fromStart hlevels hstart s
    have hrecords := (fromStart_of_observes hlevels hrequest).2
    refine ⟨fuel, left, hrequest, fun src dst pro func => ?_⟩
    exact ⟨_, runAll_singleton.mpr (eachResponse_records hlevels _ hrecords), rfl, .refl _⟩

theorem length_flatMap_const (references : List Reference) (seen : List Text) :
    (references.flatMap fun _ => seen).length = references.length * seen.length := by
  induction references with
  | nil => rw [List.flatMap_nil, List.length_nil, List.length_nil, Nat.zero_mul]
  | cons r references ih => rw [List.flatMap_cons, List.length_append, ih, List.length_cons, Nat.succ_mul, Nat.add_comm]

/-- A handler that changes nothing, once for each of some references. -/
theorem runAll_const {handler : Handler} {s : Globals} {seen : List Text}
    (h : handler s = some { globals := s, observed := seen }) (references : List Reference) :
    runAll (references.map fun _ => handler) s
      = some { globals := s, observed := references.flatMap fun _ => seen } := by
  induction references with
  | nil => rfl
  | cons r references ih =>
      rw [List.map_cons]
      exact runAll_cons_eq_some.mpr ⟨_, _, h, ih, rfl⟩

include hlevels in
theorem readFile_iff (references : List Reference) (s : Globals) :
    ObservesTwice (fun fuel => referenceHandlers levels fuel references)
        (references.map fun _ => eachResponse levels recordOf) (references.flatMap Reference.records) s
      ↔ references.length ≤ 1 ∧ ∀ r ∈ references, r.FromStart := by
  constructor
  · rintro ⟨fuel, left, hrequest, hresponse⟩
    obtain ⟨hstart, hrecords⟩ := fromStart_of_observes hlevels hrequest
    refine ⟨?_, hstart⟩
    obtain ⟨left', hleft'⟩ := hresponse [] [] [] []
    have hlength := hleft'.length_eq
    rw [← Option.some.inj ((runAll_const (eachResponse_records hlevels (left.globals.withHeaders [] [] [] []) hrecords)
      references).symm.trans hleft'.1)]
      at hlength
    rw [length_flatMap_const, List.length_map] at hlength
    cases references with
    | nil => exact Nat.zero_le _
    | cons r references =>
        have hpos : 0 < ((r :: references).flatMap Reference.records).length := by
          have hne := (hstart r List.mem_cons_self).2
          have hpos : r.recordLen.toNat ≠ 0 := fun h => hne (UInt64.toNat_inj.mp h)
          rw [length_flatMap_records, recordCount, List.map_cons, List.sum_cons]
          omega
        exact Nat.le_of_mul_le_mul_right (hlength.le.trans_eq (Nat.one_mul _).symm) hpos
  · rintro ⟨hone, hstart⟩
    obtain ⟨fuel, left, hrequest⟩ := exists_observes_of_fromStart hlevels hstart s
    have hrecords := (fromStart_of_observes hlevels hrequest).2
    refine ⟨fuel, left, hrequest, fun src dst pro func => ?_⟩
    refine ⟨_, runAll_const (eachResponse_records hlevels (left.globals.withHeaders src dst pro func) hrecords)
      references, rfl, ?_⟩
    match references, hone with
    | [], _ => exact .refl _
    | [r], _ => rw [List.flatMap_singleton]

/-! ### Reading and writing at once -/

/-- A range that is only asked for with a quantity. -/
def rangeIf (fuel : Nat) (quantity lower upper : UInt64) : Option (List UInt64) :=
  if quantity > 0 then range fuel lower upper else some []

section

variable (fuel : Nat) (readStartAddress readQuantity writeStartAddress : UInt64) (writeRegisters : List UInt64)

/-- The globals after the request, by the items of its two ranges. -/
def afterReadWrite (write read : List UInt64) (s : Globals) : Globals :=
  { s with
    modbusStartAddress := writeStartAddress, modbusStartAddress2 := readStartAddress
    modbusQuantity := UInt64.ofNat writeRegisters.length, modbusQuantity2 := readQuantity
    gTgt := write.map (fun n => [("Write_Holdinmodbus_register".toList, n)])
      ++ read.map fun n => [("Read_Holdinmodbus_register".toList, n)] }

/-- The texts of the items of two ranges. -/
def readWriteTexts (write read : List UInt64) : List Text :=
  write.map (fun n => item "Write_Holdinmodbus_register".toList n.toNat)
    ++ read.map fun n => item "Read_Holdinmodbus_register".toList n.toNat

theorem addItems_nil (label : Text) (s : Globals) : s.addItems label [] = { globals := s } := by
  rw [Globals.addItems, List.map_nil, List.append_nil]
  rfl

/-- One of the two parts of the handler. -/
theorem itemsIf_eq (quantity lower upper : UInt64) (label : Text) (s : Globals) :
    itemsIf fuel label quantity lower upper s = (rangeIf fuel quantity lower upper).map (s.addItems label) := by
  unfold itemsIf rangeIf
  split
  · rfl
  · rw [Option.map_some, addItems_nil]

include hlevels in
theorem readWriteRequest_eq (s : Globals) :
    modbusReadWriteMultipleRegistersRequest levels fuel readStartAddress readQuantity writeStartAddress writeRegisters s
      = (rangeIf fuel (UInt64.ofNat writeRegisters.length) writeStartAddress
          (writeStartAddress + UInt64.ofNat writeRegisters.length - 1)).bind fun write =>
        (rangeIf fuel readQuantity writeStartAddress (readStartAddress + readQuantity - 1)).map fun read =>
          { globals := afterReadWrite readStartAddress readQuantity writeStartAddress writeRegisters write read s
            observed := (readWriteTexts write read).map s.key } := by
  rw [modbusReadWriteMultipleRegistersRequest, if_pos hlevels]
  dsimp only
  rw [itemsIf_eq]
  cases rangeIf fuel (UInt64.ofNat writeRegisters.length) writeStartAddress
    (writeStartAddress + UInt64.ofNat writeRegisters.length - 1) with
  | none => rfl
  | some write =>
      dsimp only [Option.map_some, Option.bind_eq_bind, Option.bind_some, Globals.addItems]
      rw [itemsIf_eq]
      cases rangeIf fuel readQuantity writeStartAddress (readStartAddress + readQuantity - 1) with
      | none => rfl
      | some read =>
          dsimp only [Option.map_some, Option.bind_some, readWriteTexts]
          rw [List.map_append, List.map_map, List.map_map]
          rfl

theorem length_lt_of_rangeIf {quantity lower upper : UInt64} {v : List UInt64}
    (h : rangeIf fuel quantity lower upper = some v) : v.length < 2 ^ 64 := by
  unfold rangeIf at h
  split at h
  · exact length_lt_of_range h
  · rw [← Option.some.inj h]
    decide

theorem fits_of_rangeIf {quantity lower startAddress : UInt64} {v : List UInt64}
    (h : rangeIf fuel quantity lower (startAddress + quantity - 1) = some v) (hlength : v.length = quantity.toNat) :
    quantity = 0 ∨ (lower = startAddress ∧ Fits startAddress quantity.toNat) := by
  unfold rangeIf at h
  split at h
  · rename_i hpos
    exact .inr (fits_of_length hpos h hlength)
  · rename_i hpos
    exact .inl (eq_zero_of_not_pos hpos)

variable {fuel} in
theorem exists_rangeIf (hdepth : ∀ lower upper : UInt64, upper ≠ -1 → ∃ v, range fuel lower upper = some v)
    {quantity startAddress : UInt64} (hfits : quantity = 0 ∨ Fits startAddress quantity.toNat) (label : Text) :
    ∃ v, rangeIf fuel quantity startAddress (startAddress + quantity - 1) = some v
      ∧ items label startAddress.toNat quantity.toNat = v.map fun n => item label n.toNat := by
  unfold rangeIf
  by_cases hpos : quantity > 0
  · have hfits : Fits startAddress quantity.toNat := by
      refine hfits.resolve_left ?_
      rintro rfl
      exact absurd hpos (by decide)
    obtain ⟨v, hv⟩ := hdepth startAddress _ (last_ne_max hpos hfits)
    exact ⟨v, (if_pos hpos).trans hv, items_eq_map (range_items hpos hfits hv) label⟩
  · refine ⟨[], if_neg hpos, ?_⟩
    rw [eq_zero_of_not_pos hpos]
    rfl

/-- The first letter tells the registers that are written from those that are read. -/
def isWrite (text : Text) : Bool := text.head? == some 'W'

theorem countP_isWrite (write read : List Nat) :
    (write.map (item "Write_Holdinmodbus_register".toList)
      ++ read.map (item "Read_Holdinmodbus_register".toList)).countP isWrite = write.length := by
  rw [List.countP_append, List.countP_map, List.countP_map]
  have hwrite : write.countP (isWrite ∘ item "Write_Holdinmodbus_register".toList) = write.length :=
    List.countP_eq_length.mpr fun n _ => rfl
  have hread : read.countP (isWrite ∘ item "Read_Holdinmodbus_register".toList) = 0 :=
    List.countP_eq_zero.mpr fun n _ => by
      show ¬ (false = true)
      decide
  rw [hwrite, hread, Nat.add_zero]

/-- The texts of the same items, with the counts as numbers. -/
theorem readWriteTexts_eq (write read : List UInt64) :
    readWriteTexts write read = (write.map UInt64.toNat).map (item "Write_Holdinmodbus_register".toList)
      ++ (read.map UInt64.toNat).map (item "Read_Holdinmodbus_register".toList) := by
  rw [readWriteTexts, List.map_map, List.map_map]
  rfl

/-- Ranges with the right texts are as long as the ranges asked for. -/
theorem lengths_of_perm {write read : List UInt64} {start start' quantity quantity' : Nat}
    (h : (readWriteTexts write read).Perm (items "Write_Holdinmodbus_register".toList start quantity
      ++ items "Read_Holdinmodbus_register".toList start' quantity')) :
    write.length = quantity ∧ read.length = quantity' := by
  have hlength := h.length_eq
  have hcount := h.countP_eq isWrite
  rw [readWriteTexts_eq] at hcount hlength
  rw [items, items, countP_isWrite, countP_isWrite, List.length_map, List.length_range'] at hcount
  simp only [items, List.length_append, List.length_map, List.length_range'] at hlength
  exact ⟨hcount, by omega⟩

include hlevels in
theorem readWriteResponse_eq (write read : List UInt64) (s : Globals) (src dst pro func : Text) :
    ∃ left, Observes [modbusReadWriteMultipleRegistersResponse levels]
      ((afterReadWrite readStartAddress readQuantity writeStartAddress writeRegisters write read s).withHeaders
        src dst pro func) (readWriteTexts write read) left := by
  have hwrite (n : UInt64) : ifThere "Write_Holdinmodbus_register".toList [("Write_Holdinmodbus_register".toList, n)]
      ++ ifThere "Read_Holdinmodbus_register".toList [("Write_Holdinmodbus_register".toList, n)]
      = [item "Write_Holdinmodbus_register".toList n.toNat] := rfl
  have hread (n : UInt64) : ifThere "Write_Holdinmodbus_register".toList [("Read_Holdinmodbus_register".toList, n)]
      ++ ifThere "Read_Holdinmodbus_register".toList [("Read_Holdinmodbus_register".toList, n)]
      = [item "Read_Holdinmodbus_register".toList n.toNat] := rfl
  refine ⟨_, runAll_singleton.mpr ((if_pos hlevels).trans (congrArg some (observeEach_of_map _ ?_))), rfl, .refl _⟩
  show List.map _ (write.map _ ++ read.map _) = _
  rw [readWriteTexts, List.map_append, List.map_append, List.map_map, List.map_map, List.map_map, List.map_map]
  exact congrArg₂ (· ++ ·) (List.map_congr_left fun n _ => congrArg some (hwrite n))
    (List.map_congr_left fun n _ => congrArg some (hread n))

include hlevels in
theorem readWrite_iff (s : Globals) :
    ObservesTwice (fun fuel => [modbusReadWriteMultipleRegistersRequest levels fuel readStartAddress readQuantity
          writeStartAddress writeRegisters])
        [modbusReadWriteMultipleRegistersResponse levels]
        (items "Write_Holdinmodbus_register".toList writeStartAddress.toNat writeRegisters.length
          ++ items "Read_Holdinmodbus_register".toList readStartAddress.toNat readQuantity.toNat) s
      ↔ Fits writeStartAddress writeRegisters.length
        ∧ (readQuantity = 0 ∨ (readStartAddress = writeStartAddress ∧ Fits readStartAddress readQuantity.toNat)) := by
  constructor
  · rintro ⟨fuel, left, ⟨hrun, -, hperm⟩, -⟩
    have hrun := (readWriteRequest_eq hlevels fuel readStartAddress readQuantity writeStartAddress writeRegisters
      s).symm.trans (runAll_singleton.mp hrun)
    obtain ⟨write, hwrite, hrun⟩ := Option.bind_eq_some_iff.mp hrun
    obtain ⟨read, hread, rfl⟩ := Option.map_eq_some_iff.mp hrun
    obtain ⟨hlength, hlength'⟩ := lengths_of_perm ((List.map_perm_map_iff (key_injective s)).mp hperm)
    have hsmall : writeRegisters.length < 2 ^ 64 := hlength ▸ length_lt_of_rangeIf fuel hwrite
    have hquantity : (UInt64.ofNat writeRegisters.length).toNat = writeRegisters.length :=
      UInt64.toNat_ofNat_of_lt' hsmall
    constructor
    · rcases fits_of_rangeIf fuel hwrite (hlength.trans hquantity.symm) with hzero | ⟨-, hfits⟩
      · rw [hzero, UInt64.toNat_zero] at hquantity
        rw [← hquantity]
        exact fits_zero _
      · rwa [hquantity] at hfits
    · refine (fits_of_rangeIf fuel hread hlength').imp_right ?_
      rintro ⟨hsame, hfits⟩
      exact ⟨hsame.symm, hfits⟩
  · rintro ⟨hfits, hread⟩
    obtain ⟨fuel, hdepth⟩ := exists_depth
    have hsmall : writeRegisters.length < 2 ^ 64 := lt_of_le_of_lt (Nat.le_add_left _ _) hfits
    have hquantity : (UInt64.ofNat writeRegisters.length).toNat = writeRegisters.length :=
      UInt64.toNat_ofNat_of_lt' hsmall
    have hfits : Fits writeStartAddress (UInt64.ofNat writeRegisters.length).toNat := by rwa [hquantity]
    obtain ⟨write, hwrite, hwriteTexts⟩ :=
      exists_rangeIf hdepth (.inr hfits) "Write_Holdinmodbus_register".toList
    obtain ⟨read, hreadRange, hreadTexts⟩ := exists_rangeIf hdepth
      (hread.imp_right And.right) "Read_Holdinmodbus_register".toList
    have hreadRange : rangeIf fuel readQuantity writeStartAddress (readStartAddress + readQuantity - 1) = some read := by
      rcases hread with rfl | ⟨rfl, -⟩
      · rw [← hreadRange]
        rfl
      · exact hreadRange
    have hrequest := readWriteRequest_eq hlevels fuel readStartAddress readQuantity writeStartAddress writeRegisters s
    rw [hwrite, hreadRange] at hrequest
    rw [hquantity] at hwriteTexts
    rw [hwriteTexts, hreadTexts]
    exact ⟨fuel, _, ⟨runAll_singleton.mpr hrequest, rfl, .refl _⟩,
      readWriteResponse_eq hlevels readStartAddress readQuantity writeStartAddress writeRegisters write read s⟩

end

/-- A request without handlers is observed when it addresses nothing. -/
theorem unhandled_iff (texts : List Text) (s : Globals) :
    ObservesTwice (fun _ => []) [] texts s ↔ texts = [] := by
  constructor
  · rintro ⟨fuel, left, ⟨hrun, -, hperm⟩, -⟩
    obtain rfl := Option.some.inj hrun
    exact List.map_eq_nil_iff.mp hperm.nil_eq.symm
  · rintro rfl
    exact ⟨0, _, ⟨rfl, rfl, .refl _⟩, fun _ _ _ _ => ⟨_, rfl, rfl, .refl _⟩⟩

/-- **The items of a request.** The handlers observe exactly the addressed items, and the handlers of the
response the same again, for the requests that are observable and for no others. -/
theorem observesItems_iff (r : Request) (s : Globals) (hlevels : 5 ≤ levels) :
    ObservesItems levels r s ↔ r.Observable s := by
  cases r with
  | readCoils startAddress quantity => exact readItems_iff hlevels _ startAddress quantity s
  | readDiscreteInputs startAddress quantity => exact readItems_iff hlevels _ startAddress quantity s
  | readHoldingRegisters startAddress quantity =>
      refine (unhandled_iff _ s).trans ?_
      rw [Request.addressed, items, List.map_eq_nil_iff, List.range'_eq_nil_iff, ← UInt64.toNat_zero]
      exact UInt64.toNat_inj
  | readInputRegisters startAddress quantity => exact readItems_iff hlevels _ startAddress quantity s
  | writeSingleCoil address => exact iff_of_true (singleItem hlevels _ address s) trivial
  | writeSingleRegister address => exact iff_of_true (singleItem hlevels _ address s) trivial
  | writeMultipleCoils startAddress coils =>
      refine (writeItems_iff hlevels _ startAddress coils.length s).trans ?_
      rw [List.length_eq_zero_iff]
      rfl
  | writeMultipleRegisters startAddress registers =>
      refine (writeItems_iff hlevels _ startAddress registers.length s).trans ?_
      rw [List.length_eq_zero_iff]
      rfl
  | readFileRecord references => exact readFile_iff hlevels references s
  | writeFileRecord references => exact writeFile_iff hlevels references s
  | maskWriteRegister address => exact iff_of_true (singleItem hlevels _ address s) trivial
  | readWriteMultipleRegisters readStartAddress readQuantity writeStartAddress writeRegisters =>
      exact readWrite_iff hlevels readStartAddress readQuantity writeStartAddress writeRegisters s
  | readFifoQueue startAddress => exact iff_of_true (singleItem hlevels _ startAddress s) trivial

end

/-- Before the first request. -/
def Globals.idle : Globals where
  gSrc := "10.0.0.1".toList
  gDst := "10.0.0.2".toList
  gPro := "Modbus".toList
  gFun := "READ_COILS_REQUEST".toList
  gTgt := []
  modbusStartAddress := 0
  modbusStartAddress2 := 0
  modbusQuantity := 0
  modbusQuantity2 := 0

/-- Three coils from the seventh. -/
theorem observesItems_three_coils : ObservesItems 5 (.readCoils 7 3) .idle :=
  (observesItems_iff (.readCoils 7 3) .idle le_rfl).mpr (show 7 + 3 < 2 ^ 64 by decide)

/-- A register is read and another written, two records are read from the fourth, no coil is written while
the target of an earlier request is still there, and three holding registers are read. -/
theorem four_requests_missed :
    ¬ ObservesItems 5 (.readWriteMultipleRegisters 0 1 5 [7]) .idle
      ∧ ¬ ObservesItems 5 (.readFileRecord [⟨1, 4, 2⟩]) .idle
      ∧ ¬ ObservesItems 5 (.writeMultipleCoils 0 []) { Globals.idle with gTgt := [[("Coil".toList, 7)]] }
      ∧ ¬ ObservesItems 5 (.readHoldingRegisters 7 3) .idle := by
  refine ⟨fun h => ?_, fun h => ?_, fun h => ?_, fun h => ?_⟩
  · rcases ((readWrite_iff le_rfl 0 1 5 [7] .idle).mp h).2 with hnone | ⟨hsame, -⟩
    · exact absurd hnone (by decide)
    · exact absurd hsame (by decide)
  · have hstart := ((readFile_iff le_rfl [⟨1, 4, 2⟩] .idle).mp h).2 ⟨1, 4, 2⟩ List.mem_cons_self
    exact absurd hstart.1 (by decide)
  · have hclear := ((writeItems_iff le_rfl _ 0 0 { Globals.idle with gTgt := [[("Coil".toList, 7)]] }).mp h).2 rfl
    cases hclear
  · cases (unhandled_iff (Request.addressed (.readHoldingRegisters 7 3)) .idle).mp h

end Armore.StatisticAnalyzer
