import Armore.Stats.Collector

/-!
# The handlers of DNP3
-/

namespace Armore.StatsCol

open Lib

/-- The events of the DNP3 analyzer, with the arguments that are read. -/
inductive Dnp3Event
  | headerBlock (destAddr srcAddr : UInt64)
  | applicationRequestHeader (fc : UInt64)
  | applicationResponseHeader (fc : UInt64)
  | objectHeader (objType quaField rfLow rfHigh : UInt64)
  | objectPrefix (prefixValue : UInt64)

def getGroup (objType : UInt64) : UInt64 := (objType - objType % 256) / 256

def getVariation (objType : UInt64) : UInt64 := objType % 256

def getObjPrefixCode (quaField : UInt64) : UInt64 := (quaField - quaField % 16) / 16 % 8

def getRangeSpecCode (quaField : UInt64) : UInt64 := quaField % 16

/-- The target of an object: its group, its variation and what it names. -/
def objectTarget (group variation : UInt64) (named : Text) : Text :=
  targetGen "Group".toList group 1 ++ ' ' :: (targetGen "Variation".toList variation 1 ++ ' ' :: named)

def dnp3HeaderBlock (levels : Nat) (destAddr srcAddr : UInt64) (s : Globals) : Left :=
  if 4 ≤ levels then
    let uid := countText srcAddr ++ ':' :: countText destAddr
    { globals := { s.modifyInfo fun info => { info with uid := some uid } with gUid := some uid } }
  else { globals := s }

/-- The two application headers. `function_codes` has a default, so every code has a name. -/
def dnp3ApplicationHeader (levels : Nat) (functionCodes : UInt64 → Text) (isResponse : Bool) (c : Connection)
    (fc : UInt64) (s : Globals) : Left :=
  if 3 ≤ levels then
    let s := s.modifyInfo fun info => { info with protocol := some "DNP3".toList }
    let s :=
      if 5 ≤ levels then
        s.modifyInfo fun info => { info with func := some (functionCodes fc), isResponse := some isResponse }
      else s
    functionItem levels c "DNP3".toList (functionCodes fc) isResponse s
  else { globals := s }

def dnp3ApplicationRequestHeader (levels : Nat) (functionCodes : UInt64 → Text) :=
  dnp3ApplicationHeader levels functionCodes false

def dnp3ApplicationResponseHeader (levels : Nat) (functionCodes : UInt64 → Text) :=
  dnp3ApplicationHeader levels functionCodes true

/-- `dnp3_object_header`. The tests come one after the other, and no qualifier passes two of them. -/
def dnp3ObjectHeader (levels : Nat) (objType quaField rfLow rfHigh : UInt64) (s : Globals) : Left :=
  if levels = 6 then
    let group := getGroup objType
    let variation := getVariation objType
    let objPrefixCode := getObjPrefixCode quaField
    let rangeSpecCode := getRangeSpecCode quaField
    let s := { s with dnp3Group := some group, dnp3Variation := some variation, dnp3Prefix := some false }
    if objPrefixCode = 0 ∧ (rangeSpecCode = 0 ∨ rangeSpecCode = 1) then
      storeTarget (objectTarget group variation (targetGen "Target".toList rfLow (rfHigh - rfLow + 1))) s
    else if objPrefixCode = 0 ∧ rangeSpecCode = 6 then
      storeTarget (objectTarget group variation "Target:all".toList) s
    else if objPrefixCode = 0 ∧ (rangeSpecCode = 7 ∨ rangeSpecCode = 8) then
      storeTarget (objectTarget group variation (targetGen "Quantity".toList rfLow 1)) s
    else if (objPrefixCode = 1 ∧ rangeSpecCode = 7) ∨ (objPrefixCode = 2 ∧ rangeSpecCode = 8) then
      { globals := { s with dnp3Prefix := some true } }
    else if objPrefixCode = 5 ∧ rangeSpecCode = 11 then
      storeTarget (objectTarget group variation (targetGen "Quantity".toList rfLow 1)) s
    else { globals := s }
  else { globals := s }

def dnp3ObjectPrefix (levels : Nat) (prefixValue : UInt64) (s : Globals) : Left :=
  if levels = 6 then
    match s.dnp3Prefix with
    | none => { globals := s, raised := some .unset }
    | some false => { globals := s }
    | some true =>
      match s.dnp3Group, s.dnp3Variation with
      | some group, some variation =>
        storeTarget (objectTarget group variation (targetGen "Target".toList prefixValue 1)) s
      | _, _ => { globals := s, raised := some .unset }
  else { globals := s }

/-- The handler of an event. -/
def Dnp3Event.handle (levels : Nat) (functionCodes : UInt64 → Text) (c : Connection) :
    Dnp3Event → Globals → Left
  | .headerBlock destAddr srcAddr => dnp3HeaderBlock levels destAddr srcAddr
  | .applicationRequestHeader fc => dnp3ApplicationRequestHeader levels functionCodes c fc
  | .applicationResponseHeader fc => dnp3ApplicationResponseHeader levels functionCodes c fc
  | .objectHeader objType quaField rfLow rfHigh => dnp3ObjectHeader levels objType quaField rfLow rfHigh
  | .objectPrefix prefixValue => dnp3ObjectPrefix levels prefixValue

theorem edits_dnp3ApplicationHeader (levels : Nat) (functionCodes : UInt64 → Text) (isResponse : Bool)
    (c : Connection) (fc : UInt64) (s : Globals) :
    Edits s (dnp3ApplicationHeader levels functionCodes isResponse c fc s).globals := by
  rw [dnp3ApplicationHeader]
  split
  · have hprotocol : Edits s (s.modifyInfo fun info => { info with protocol := some "DNP3".toList }) := by
      refine Edits.refl.modify _ ?_
      intro info
      rfl
    dsimp only
    split
    · refine (hprotocol.modify _ ?_).functionItem levels c _ _ isResponse
      intro info
      rfl
    · exact hprotocol.functionItem levels c _ _ isResponse
  · exact .refl

theorem edits_dnp3ObjectHeader (levels : Nat) (objType quaField rfLow rfHigh : UInt64) (s : Globals) :
    Edits s (dnp3ObjectHeader levels objType quaField rfLow rfHigh s).globals := by
  rw [dnp3ObjectHeader]
  split
  · have hheader : Edits s { s with
        dnp3Group := some (getGroup objType)
        dnp3Variation := some (getVariation objType)
        dnp3Prefix := some false } := Edits.refl.header _ _ _
    dsimp only
    split
    · exact hheader.store _
    split
    · exact hheader.store _
    split
    · exact hheader.store _
    split
    · exact Edits.refl.header _ _ _
    split
    · exact hheader.store _
    · exact hheader
  · exact .refl

theorem edits_dnp3ObjectPrefix (levels : Nat) (prefixValue : UInt64) (s : Globals) :
    Edits s (dnp3ObjectPrefix levels prefixValue s).globals := by
  rw [dnp3ObjectPrefix]
  split
  · split
    · exact .refl
    · exact .refl
    · split
      · exact Edits.refl.store _
      · exact .refl
  · exact .refl

theorem Dnp3Event.edits (levels : Nat) (functionCodes : UInt64 → Text) (c : Connection) (e : Dnp3Event)
    (s : Globals) : Edits s (e.handle levels functionCodes c s).globals := by
  cases e with
  | headerBlock destAddr srcAddr =>
      show Edits s (dnp3HeaderBlock levels destAddr srcAddr s).globals
      rw [dnp3HeaderBlock]
      split
      · refine (Edits.refl.modify _ ?_).uid _
        intro info
        rfl
      · exact .refl
  | applicationRequestHeader fc => exact edits_dnp3ApplicationHeader levels functionCodes false c fc s
  | applicationResponseHeader fc => exact edits_dnp3ApplicationHeader levels functionCodes true c fc s
  | objectHeader objType quaField rfLow rfHigh =>
      exact edits_dnp3ObjectHeader levels objType quaField rfLow rfHigh s
  | objectPrefix prefixValue => exact edits_dnp3ObjectPrefix levels prefixValue s

end Armore.StatsCol
