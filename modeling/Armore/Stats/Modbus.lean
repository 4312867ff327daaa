import Armore.Stats.Collector

/-!
# The handlers of Modbus

A response does not repeat what its request asked for, so the handlers of requests leave the target in
`g_tgt_table` and the handlers of responses take it from there. The key is the connection of the current
packet.
-/

namespace Armore.StatsCol

open Lib

/-- What is read of `ModbusHeaders`, and the transaction they belong to, which no handler reads. -/
structure ModbusHeaders where
  tid : UInt64
  uid : UInt64
  functionCode : UInt64

/-- The events of requests that name a target, with the arguments that are read. -/
inductive ModbusRequest
  | readCoils (startAddress quantity : UInt64)
  | readDiscreteInputs (startAddress quantity : UInt64)
  | readHoldingRegisters (startAddress quantity : UInt64)
  | readInputRegisters (startAddress quantity : UInt64)
  | writeSingleCoil (address : UInt64)
  | writeSingleRegister (address : UInt64)
  | writeMultipleCoils (startAddress : UInt64) (coils : List Bool)
  | writeMultipleRegisters (startAddress : UInt64) (registers : List UInt64)
  | fileRecord (fileNum recordNum recordLen : UInt64)
  | referenceWithData (fileNum recordNum wordCount : UInt64)
  | maskWriteRegister (address : UInt64)
  | readWriteMultipleRegisters (readStartAddress readQuantity writeStartAddress : UInt64)
      (writeRegisters : List UInt64)
  | readFifoQueue (startAddress : UInt64)

/-- The events of the responses to them. Their arguments are not read. -/
inductive ModbusResponse
  | readCoils
  | readDiscreteInputs
  | readHoldingRegisters
  | readInputRegisters
  | writeSingleCoil
  | writeSingleRegister
  | writeMultipleCoils
  | writeMultipleRegisters
  | fileRecord
  | writeFileRecord
  | maskWriteRegister
  | readWriteMultipleRegisters
  | readFifoQueue

/-- `modbus_message`. Here too `function_codes` has a default. -/
def modbusMessage (levels : Nat) (functionCodes : UInt64 → Text) (c : Connection) (headers : ModbusHeaders)
    (isOrig : Bool) (s : Globals) : Left :=
  if 3 ≤ levels then
    let func := functionCodes headers.functionCode ++ (if isOrig then "_REQUEST" else "_RESPONSE").toList
    let uid := countText headers.uid
    let s := s.modifyInfo fun info => { info with protocol := some "Modbus".toList }
    let s :=
      if 4 ≤ levels then { s.modifyInfo fun info => { info with uid := some uid } with gUid := some uid } else s
    let s :=
      if 5 ≤ levels then
        s.modifyInfo fun info => { info with func := some func, isResponse := some !isOrig }
      else s
    functionItem levels c "Modbus".toList func (!isOrig) s
  else { globals := s }

/-! ### The entry of the connection -/

/-- `g_tgt_table[g_conn$uid]`. -/
def Globals.entry (s : Globals) : Except RuntimeError Text :=
  match s.gConn with
  | none => .error .unset
  | some conn =>
    match s.gTgtTable.get? conn.uid with
    | none => .error .noSuchIndex
    | some target => .ok target

/-- An entry of the table. -/
def Globals.putEntry (s : Globals) (uid target : Text) : Globals :=
  { s with gTgtTable := s.gTgtTable.put uid target }

/-- `g_tgt_table[g_conn$uid] = target`. -/
def Globals.setEntry (s : Globals) (target : Text) : Except RuntimeError Globals :=
  match s.gConn with
  | none => .error .unset
  | some conn => .ok (s.putEntry conn.uid target)

/-- `g_wait = F`. -/
def Globals.stopWait (s : Globals) : Globals := { s with gWait := false }

/-- `g_info$target = g_tgt_table[g_conn$uid]`, and both events. -/
def passEntry (s : Globals) : Left :=
  match s.entry with
  | .error e => { globals := s, raised := some e }
  | .ok target => storeTarget target s

/-- The handler of a request whose target is made in one step. -/
def requestTarget (target : Text) (levels : Nat) (s : Globals) : Left :=
  if levels = 6 then
    match s.stopWait.setEntry target with
    | .error e => { globals := s.stopWait, raised := some e }
    | .ok s => passEntry s
  else { globals := s }

/-- The handler of a request whose target is made in two steps, the first of them in the table. -/
def requestTargetTwice (first second : Text) (levels : Nat) (s : Globals) : Left :=
  if levels = 6 then
    match s.stopWait.setEntry first with
    | .error e => { globals := s.stopWait, raised := some e }
    | .ok s =>
      match s.entry.bind fun target => s.setEntry (target ++ ' ' :: second) with
      | .error e => { globals := s, raised := some e }
      | .ok s => passEntry s
  else { globals := s }

/-- The handler of a response. -/
def responseTarget (levels : Nat) (s : Globals) : Left :=
  if levels = 6 then passEntry s.stopWait else { globals := s }

/-! ### The handlers by their names -/

def modbusReadCoilsRequest (startAddress quantity : UInt64) :=
  requestTarget (targetGen "Coil".toList startAddress quantity)

def modbusReadDiscreteInputsRequest (startAddress quantity : UInt64) :=
  requestTarget (targetGen "Discrete_Input".toList startAddress quantity)

def modbusReadHoldingRegistersRequest (startAddress quantity : UInt64) :=
  requestTarget (targetGen "Holding_Register".toList startAddress quantity)

def modbusReadInputRegistersRequest (startAddress quantity : UInt64) :=
  requestTarget (targetGen "Input_Register".toList startAddress quantity)

def modbusWriteSingleCoilRequest (address : UInt64) :=
  requestTarget (targetGen "Coil".toList address 1)

-- the source spells the register of this handler so
def modbusWriteSingleRegisterRequest (address : UInt64) :=
  requestTarget (targetGen "Holdinmodbus_Register".toList address 1)

def modbusWriteMultipleCoilsRequest (startAddress : UInt64) (coils : List Bool) :=
  requestTarget (targetGen "Coil".toList startAddress (UInt64.ofNat coils.length))

def modbusWriteMultipleRegistersRequest (startAddress : UInt64) (registers : List UInt64) :=
  requestTarget (targetGen "Holding_Register".toList startAddress (UInt64.ofNat registers.length))

def modbusFileRecordRequest (fileNum recordNum recordLen : UInt64) :=
  requestTargetTwice (targetGen "File_Number".toList fileNum 1)
    (targetGen "Record_Number".toList recordNum recordLen)

def modbusReferenceWithData (fileNum recordNum wordCount : UInt64) :=
  requestTargetTwice (targetGen "File_Number".toList fileNum 1)
    (targetGen "Record_Number".toList recordNum wordCount)

def modbusMaskWriteRegisterRequest (address : UInt64) :=
  requestTarget (targetGen "Holdinmodbus_Register".toList address 1)

def modbusReadWriteMultipleRegistersRequest (readStartAddress readQuantity writeStartAddress : UInt64)
    (writeRegisters : List UInt64) :=
  requestTargetTwice
    (targetGen "Write_Holdinmodbus_Register".toList writeStartAddress (UInt64.ofNat writeRegisters.length))
    (targetGen "Read_Holdinmodbus_Register".toList readStartAddress readQuantity)

def modbusReadFifoQueueRequest (startAddress : UInt64) :=
  requestTarget (targetGen "FIFO_Queue".toList startAddress 1)

def modbusReadCoilsResponse := responseTarget
def modbusReadDiscreteInputsResponse := responseTarget
def modbusReadHoldingRegistersResponse := responseTarget
def modbusReadInputRegistersResponse := responseTarget
def modbusWriteSingleCoilResponse := responseTarget
def modbusWriteSingleRegisterResponse := responseTarget
def modbusWriteMultipleCoilsResponse := responseTarget
def modbusWriteMultipleRegistersResponse := responseTarget
def modbusFileRecordResponse := responseTarget
def modbusWriteFileRecordResponse := responseTarget
def modbusMaskWriteRegisterResponse := responseTarget
def modbusReadWriteMultipleRegistersResponse := responseTarget
def modbusReadFifoQueueResponse := responseTarget

/-- The handler of the event of a request. -/
def ModbusRequest.handle : ModbusRequest → Nat → Globals → Left
  | .readCoils startAddress quantity => modbusReadCoilsRequest startAddress quantity
  | .readDiscreteInputs startAddress quantity => modbusReadDiscreteInputsRequest startAddress quantity
  | .readHoldingRegisters startAddress quantity => modbusReadHoldingRegistersRequest startAddress quantity
  | .readInputRegisters startAddress quantity => modbusReadInputRegistersRequest startAddress quantity
  | .writeSingleCoil address => modbusWriteSingleCoilRequest address
  | .writeSingleRegister address => modbusWriteSingleRegisterRequest address
  | .writeMultipleCoils startAddress coils => modbusWriteMultipleCoilsRequest startAddress coils
  | .writeMultipleRegisters startAddress registers =>
    modbusWriteMultipleRegistersRequest startAddress registers
  | .fileRecord fileNum recordNum recordLen => modbusFileRecordRequest fileNum recordNum recordLen
  | .referenceWithData fileNum recordNum wordCount => modbusReferenceWithData fileNum recordNum wordCount
  | .maskWriteRegister address => modbusMaskWriteRegisterRequest address
  | .readWriteMultipleRegisters readStartAddress readQuantity writeStartAddress writeRegisters =>
    modbusReadWriteMultipleRegistersRequest readStartAddress readQuantity writeStartAddress writeRegisters
  | .readFifoQueue startAddress => modbusReadFifoQueueRequest startAddress

/-- The handler of the event of a response. -/
def ModbusResponse.handle : ModbusResponse → Nat → Globals → Left
  | .readCoils => modbusReadCoilsResponse
  | .readDiscreteInputs => modbusReadDiscreteInputsResponse
  | .readHoldingRegisters => modbusReadHoldingRegistersResponse
  | .readInputRegisters => modbusReadInputRegistersResponse
  | .writeSingleCoil => modbusWriteSingleCoilResponse
  | .writeSingleRegister => modbusWriteSingleRegisterResponse
  | .writeMultipleCoils => modbusWriteMultipleCoilsResponse
  | .writeMultipleRegisters => modbusWriteMultipleRegistersResponse
  | .fileRecord => modbusFileRecordResponse
  | .writeFileRecord => modbusWriteFileRecordResponse
  | .maskWriteRegister => modbusMaskWriteRegisterResponse
  | .readWriteMultipleRegisters => modbusReadWriteMultipleRegistersResponse
  | .readFifoQueue => modbusReadFifoQueueResponse

/-- The target a request asks for. -/
def ModbusRequest.target : ModbusRequest → Text
  | .readCoils startAddress quantity => targetGen "Coil".toList startAddress quantity
  | .readDiscreteInputs startAddress quantity => targetGen "Discrete_Input".toList startAddress quantity
  | .readHoldingRegisters startAddress quantity => targetGen "Holding_Register".toList startAddress quantity
  | .readInputRegisters startAddress quantity => targetGen "Input_Register".toList startAddress quantity
  | .writeSingleCoil address => targetGen "Coil".toList address 1
  | .writeSingleRegister address => targetGen "Holdinmodbus_Register".toList address 1
  | .writeMultipleCoils startAddress coils =>
    targetGen "Coil".toList startAddress (UInt64.ofNat coils.length)
  | .writeMultipleRegisters startAddress registers =>
    targetGen "Holding_Register".toList startAddress (UInt64.ofNat registers.length)
  | .fileRecord fileNum recordNum recordLen =>
    targetGen "File_Number".toList fileNum 1 ++ ' ' :: targetGen "Record_Number".toList recordNum recordLen
  | .referenceWithData fileNum recordNum wordCount =>
    targetGen "File_Number".toList fileNum 1 ++ ' ' :: targetGen "Record_Number".toList recordNum wordCount
  | .maskWriteRegister address => targetGen "Holdinmodbus_Register".toList address 1
  | .readWriteMultipleRegisters readStartAddress readQuantity writeStartAddress writeRegisters =>
    targetGen "Write_Holdinmodbus_Register".toList writeStartAddress (UInt64.ofNat writeRegisters.length)
      ++ ' ' :: targetGen "Read_Holdinmodbus_Register".toList readStartAddress readQuantity
  | .readFifoQueue startAddress => targetGen "FIFO_Queue".toList startAddress 1

/-! ### What the handlers leave -/

theorem edits_modbusMessage (levels : Nat) (functionCodes : UInt64 → Text) (c : Connection)
    (headers : ModbusHeaders) (isOrig : Bool) (s : Globals) :
    Edits s (modbusMessage levels functionCodes c headers isOrig s).globals := by
  have hfunction : ∀ s', Edits s s' → Edits s (if 5 ≤ levels then
      s'.modifyInfo fun info => { info with
        func := some (functionCodes headers.functionCode ++ (if isOrig then "_REQUEST" else "_RESPONSE").toList)
        isResponse := some !isOrig }
      else s') := by
    intro s' h
    split
    · refine h.modify _ ?_
      intro info
      rfl
    · exact h
  have hprotocol : Edits s (s.modifyInfo fun info => { info with protocol := some "Modbus".toList }) := by
    refine Edits.refl.modify _ ?_
    intro info
    rfl
  rw [modbusMessage]
  split
  · refine (hfunction _ ?_).functionItem levels c _ _ (!isOrig)
    split
    · refine (hprotocol.modify _ ?_).uid _
      intro info
      rfl
    · exact hprotocol
  · exact .refl

theorem edits_responseTarget (levels : Nat) (s : Globals) : Edits s (responseTarget levels s).globals := by
  rw [responseTarget]
  split
  · rw [passEntry]
    split
    · exact Edits.refl.noWait
    · exact Edits.refl.noWait.store _
  · exact .refl

section

variable {s : Globals} {conn : Connection}

theorem entry_of_some (hconn : s.gConn = some conn) {target : Text}
    (htarget : s.gTgtTable.get? conn.uid = some target) : s.entry = .ok target := by
  rw [Globals.entry, hconn]
  dsimp only
  rw [htarget]

theorem entry_of_none (hconn : s.gConn = some conn) (hmissing : s.gTgtTable.get? conn.uid = none) :
    s.entry = .error .noSuchIndex := by
  rw [Globals.entry, hconn]
  dsimp only
  rw [hmissing]

theorem gConn_stopWait (s : Globals) : s.stopWait.gConn = s.gConn := rfl

theorem gConn_putEntry (s : Globals) (uid target : Text) : (s.putEntry uid target).gConn = s.gConn := rfl

theorem putEntry_putEntry (s : Globals) (uid first last : Text) :
    (s.putEntry uid first).putEntry uid last = s.putEntry uid last := by
  rw [Globals.putEntry, Globals.putEntry, Globals.putEntry, Table.put_put]

theorem setEntry_eq (hconn : s.gConn = some conn) (target : Text) :
    s.setEntry target = .ok (s.putEntry conn.uid target) := by
  rw [Globals.setEntry, hconn]

theorem setEntry_unset (hconn : s.gConn = none) (target : Text) : s.setEntry target = .error .unset := by
  rw [Globals.setEntry, hconn]

theorem entry_putEntry (hconn : s.gConn = some conn) (target : Text) :
    (s.putEntry conn.uid target).entry = .ok target := by
  refine entry_of_some ((gConn_putEntry s _ _).trans hconn) ?_
  show (s.gTgtTable.put conn.uid target).get? conn.uid = some target
  rw [Table.get?_put, if_pos rfl]

theorem requestTarget_unset (hconn : s.gConn = none) (target : Text) :
    requestTarget target 6 s = { globals := s.stopWait, raised := some .unset } := by
  rw [requestTarget, if_pos rfl, setEntry_unset ((gConn_stopWait s).trans hconn)]

theorem requestTarget_eq (hconn : s.gConn = some conn) (target : Text) :
    requestTarget target 6 s = storeTarget target (s.stopWait.putEntry conn.uid target) := by
  have hwait := (gConn_stopWait s).trans hconn
  rw [requestTarget, if_pos rfl, setEntry_eq hwait]
  dsimp only
  rw [passEntry, entry_putEntry hwait]

theorem requestTargetTwice_unset (hconn : s.gConn = none) (first second : Text) :
    requestTargetTwice first second 6 s = { globals := s.stopWait, raised := some .unset } := by
  rw [requestTargetTwice, if_pos rfl, setEntry_unset ((gConn_stopWait s).trans hconn)]

theorem requestTargetTwice_eq (hconn : s.gConn = some conn) (first second : Text) :
    requestTargetTwice first second 6 s = requestTarget (first ++ ' ' :: second) 6 s := by
  have hwait := (gConn_stopWait s).trans hconn
  have hsecond : (s.stopWait.putEntry conn.uid first).entry.bind
      (fun target => (s.stopWait.putEntry conn.uid first).setEntry (target ++ ' ' :: second)) =
        .ok (s.stopWait.putEntry conn.uid (first ++ ' ' :: second)) := by
    rw [entry_putEntry hwait, Except.bind, setEntry_eq ((gConn_putEntry _ _ _).trans hwait), putEntry_putEntry]
  rw [requestTarget, requestTargetTwice, if_pos rfl, if_pos rfl, setEntry_eq hwait, setEntry_eq hwait]
  dsimp only
  rw [hsecond]

/-- The handler of a request stores its target, in the table and in the record. -/
theorem ModbusRequest.handle_eq (e : ModbusRequest) (hconn : s.gConn = some conn) :
    e.handle 6 s = storeTarget e.target (s.stopWait.putEntry conn.uid e.target) := by
  rw [← requestTarget_eq hconn]
  cases e <;> first | rfl | exact requestTargetTwice_eq hconn _ _

theorem ModbusRequest.handle_unset (e : ModbusRequest) (hconn : s.gConn = none) :
    e.handle 6 s = { globals := s.stopWait, raised := some .unset } := by
  cases e <;> first | exact requestTarget_unset hconn _ | exact requestTargetTwice_unset hconn _ _

theorem ModbusRequest.gWait_handle (e : ModbusRequest) (s : Globals) : (e.handle 6 s).globals.gWait = false := by
  cases hconn : s.gConn with
  | none =>
      rw [e.handle_unset hconn]
      rfl
  | some conn =>
      rw [e.handle_eq hconn]
      rfl

/-- The handlers of responses are all the same. -/
theorem ModbusResponse.handle_eq (e : ModbusResponse) (levels : Nat) (s : Globals) :
    e.handle levels s = responseTarget levels s := by
  cases e <;> rfl

theorem responseTarget_of_some (hconn : s.gConn = some conn) {target : Text}
    (htarget : s.gTgtTable.get? conn.uid = some target) :
    responseTarget 6 s = storeTarget target s.stopWait := by
  have hentry : s.stopWait.entry = .ok target := entry_of_some ((gConn_stopWait s).trans hconn) htarget
  rw [responseTarget, if_pos rfl, passEntry, hentry]

theorem responseTarget_of_none (hconn : s.gConn = some conn) (hmissing : s.gTgtTable.get? conn.uid = none) :
    responseTarget 6 s = { globals := s.stopWait, raised := some .noSuchIndex } := by
  have hentry : s.stopWait.entry = .error .noSuchIndex := entry_of_none ((gConn_stopWait s).trans hconn) hmissing
  rw [responseTarget, if_pos rfl, passEntry, hentry]

end

end Armore.StatsCol
