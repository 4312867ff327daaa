import Armore.Filtering.PolicyMap
import Armore.Filtering.FormSchedule
import Armore.Lib.FileLines
import Armore.Lib.SeenPairs

/-!
# The policy on the edit page

`domains/support/policy.py`, `getPolicy`: the dictionary the edit page is filled with. It goes through the lines
after the header up to the line of the id, takes its fields apart, and collects the time rows of its entries. The
entries repeat a row for each day, so a row is left out when its start and its stop have both been seen: each of
them, not the two together.
-/

namespace Armore.Filtering

open Armore.Lib Armore.Lib.Text

/-- `policy`: the values of its keys, and the rows under `timePer` (none while the key is not set). No day has the key
`timePer`, which is not in lower case. -/
structure PolicyDict where
  values : Text → Option Text
  timePer : List (Text × Text)

namespace PolicyDict

def empty : PolicyDict := ⟨fun _ => none, []⟩

/-- `policy[key] = value`. -/
def set (policy : PolicyDict) (key value : Text) : PolicyDict :=
  { policy with values := Function.update policy.values key (some value) }

theorem values_set (policy : PolicyDict) (key value k : Text) :
    (policy.set key value).values k = if k = key then some value else policy.values k :=
  Function.update_apply policy.values key (some value) k

end PolicyDict

/-! ### The entries of a policy -/

def Entry.currStart (e : Entry) : Text := [':'].intercalate [e.startHour, e.startMin, e.startSec]

def Entry.currStop (e : Entry) : Text := [':'].intercalate [e.stopHour, e.stopMin, e.stopSec]

/-- The variables of the loop over the entries. -/
structure Loaded where
  policy : PolicyDict
  starts : List Text
  stops : List Text

namespace Loaded

/-- What the body of the loop does with the fields of an entry. -/
def add (l : Loaded) (e : Entry) : Loaded :=
  let policy := l.policy.set (lower e.day) "on".toList
  let timePer :=
    if policy.timePer = [] then [(e.currStart, e.currStop)]
    else if e.currStart ∈ l.starts ∧ e.currStop ∈ l.stops then policy.timePer
    else policy.timePer ++ [(e.currStart, e.currStop)]
  ⟨{ policy with timePer }, l.starts ++ [e.currStart], l.stops ++ [e.currStop]⟩

end Loaded

namespace Policy

/-- The two parts of `func.split(':')`. -/
def funcParts (p : Policy) : Except Exn (Text × Text) :=
  match p.func.splitOn ':' with
  | [funcRegex, funcText] => .ok (funcRegex, funcText)
  | _ => .error .valueError

/-- The dictionary before the loop over the entries. -/
def fixedKeys (p : Policy) (src dest funcRegex funcText : Text) : PolicyDict :=
  ((((((PolicyDict.empty.set "num".toList p.ruleId).set "name".toList p.name).set "src".toList src).set
    "dest".toList dest).set "proto".toList p.proto).set "funcRegex".toList funcRegex).set "func".toList funcText

/-- The body of the `if` of `getPolicy`. -/
def load (p : Policy) : Except Exn PolicyDict := do
  let (src, dest) ← p.ips
  let (funcRegex, funcText) ← p.funcParts
  let l ← (p.timePer.splitOn ',').foldlM (fun l t => do return Loaded.add l (← Entry.unpack t))
    ⟨p.fixedKeys src dest funcRegex funcText, [], []⟩
  return (l.policy.set "severity".toList p.severity).set "filtering".toList p.filtering

end Policy

/-- The loop over the lines, up to the `break`. Without an id `theId` is `-1`, which is no field of a line. -/
def loadFrom (theId : Option Text) : List Text → Except Exn PolicyDict
  | [] => .ok .empty
  | l :: lines => do
    let p ← Policy.unpack l
    if some p.ruleId = theId then p.load else loadFrom theId lines

def getPolicy (s : System) (theId : Option Text) : System × Except Exn PolicyDict :=
  match (verifyPolicyFileExists s).policyFile with
  | none => (verifyPolicyFileExists s, .error .osError)
  | some file => (verifyPolicyFileExists s, loadFrom theId ((readlines file).tail.map stripEnd))

/-! ### What the loop over the entries does -/

def Entry.row (e : Entry) : Text × Text := (e.currStart, e.currStop)

namespace Loaded

theorem values_foldl (es : List Entry) (l : Loaded) (key : Text) :
    (es.foldl add l).policy.values key
      = if key ∈ es.map fun e => lower e.day then some "on".toList else l.policy.values key := by
  induction es generalizing l with
  | nil => rfl
  | cons e es ih =>
      have hadd : (l.add e).policy.values key = if key = lower e.day then some "on".toList else l.policy.values key :=
        l.policy.values_set (lower e.day) "on".toList key
      rw [List.foldl_cons, ih, hadd, List.map_cons]
      simp only [List.mem_cons]
      by_cases hrest : key ∈ es.map fun e => lower e.day
      · rw [if_pos hrest, if_pos (.inr hrest)]
      · simp only [hrest, if_false, or_false]

/-- A row is kept by what the starts and the stops were before it. -/
theorem timePer_foldl (es : List Entry) {l : Loaded} {seen : List (Text × Text)} (hstarts : l.starts = seen.map Prod.fst)
    (hstops : l.stops = seen.map Prod.snd) (hset : l.policy.timePer = [] → seen = []) :
    (es.foldl add l).policy.timePer = l.policy.timePer ++ SeenPairs.kept seen (es.map Entry.row) := by
  induction es generalizing l seen with
  | nil => exact (List.append_nil _).symm
  | cons e es ih =>
      have hadd : (l.add e).policy.timePer = if e.currStart ∈ seen.map Prod.fst ∧ e.currStop ∈ seen.map Prod.snd
          then l.policy.timePer else l.policy.timePer ++ [e.row] := by
        show (if l.policy.timePer = [] then _ else if e.currStart ∈ l.starts ∧ e.currStop ∈ l.stops then _ else _) = _
        rw [hstarts, hstops]
        by_cases hnil : l.policy.timePer = []
        · rw [if_pos hnil, hset hnil, if_neg fun h => absurd h.1 List.not_mem_nil, hnil]
          rfl
        · rw [if_neg hnil]
          rfl
      have hseen : (l.add e).policy.timePer = [] → seen ++ [e.row] = [] := by
        rw [hadd]
        split
        · rename_i hboth
          intro hnil
          rw [hset hnil] at hboth
          exact absurd hboth.1 List.not_mem_nil
        · exact fun hnil => absurd hnil (by simp)
      have hstarts' : (l.add e).starts = (seen ++ [e.row]).map Prod.fst := by
        rw [List.map_append, ← hstarts]
        rfl
      have hstops' : (l.add e).stops = (seen ++ [e.row]).map Prod.snd := by
        rw [List.map_append, ← hstops]
        rfl
      have hrest := ih hstarts' hstops' hseen
      rw [List.foldl_cons, hrest, hadd, List.map_cons, SeenPairs.kept]
      show _ = _ ++ if e.currStart ∈ seen.map Prod.fst ∧ e.currStop ∈ seen.map Prod.snd then _ else _
      split
      · rfl
      · rw [List.append_assoc, List.singleton_append]

end Loaded

namespace Policy

variable {p : Policy}

theorem fields_of_unpack {line : Text} (hunpack : unpack line = .ok p) : line.splitOn '\t' = p.fields := by
  unfold unpack at hunpack
  split at hunpack
  · rename_i hsplit
    rw [hsplit, ← Except.ok.inj hunpack]
    rfl
  · exact nomatch hunpack

theorem ips_ok {src dest : Text} : p.ips = .ok (src, dest) ↔ (p.ip.splitOn ',').mapM address = .ok [src, dest] := by
  rw [ips, bind_ok]
  constructor
  · intro ⟨parts, hparts, hpair⟩
    split at hpair
    · rw [hparts]
      cases hpair
      rfl
    · exact nomatch hpair
  · intro hparts
    exact ⟨[src, dest], hparts, rfl⟩

theorem funcParts_ok {funcRegex funcText : Text} :
    p.funcParts = .ok (funcRegex, funcText) ↔ p.func.splitOn ':' = [funcRegex, funcText] := by
  unfold funcParts
  constructor
  · intro hparts
    split at hparts
    · rename_i hsplit
      rw [hsplit]
      cases hparts
      rfl
    · exact nomatch hparts
  · intro hsplit
    rw [hsplit]

/-- The parts of a policy as `getPolicy` takes them apart. -/
structure Parts (p : Policy) where
  src : Text
  dest : Text
  funcRegex : Text
  funcText : Text
  entries : List Entry
  ips : p.ips = .ok (src, dest)
  func : p.func.splitOn ':' = [funcRegex, funcText]
  times : (p.timePer.splitOn ',').mapM Entry.unpack = .ok entries

/-- The dictionary with the entries taken in. -/
def Parts.dict (parts : p.Parts) : PolicyDict :=
  ((parts.entries.foldl Loaded.add
    ⟨p.fixedKeys parts.src parts.dest parts.funcRegex parts.funcText, [], []⟩).policy.set
      "severity".toList p.severity).set "filtering".toList p.filtering

/-- A policy is loaded when it comes apart. -/
theorem load_ok {policy : PolicyDict} : p.load = .ok policy ↔ ∃ parts : p.Parts, parts.dict = policy := by
  unfold load
  simp only [bind_ok, foldlM_ok, Prod.exists]
  constructor
  · intro ⟨src, dest, hips, funcRegex, funcText, hfunc, l, ⟨es, htimes, hl⟩, hpolicy⟩
    refine ⟨⟨src, dest, funcRegex, funcText, es, hips, funcParts_ok.mp hfunc, htimes⟩, ?_⟩
    rw [← Except.ok.inj hpolicy, ← hl]
    rfl
  · intro ⟨parts, hpolicy⟩
    exact ⟨parts.src, parts.dest, parts.ips, parts.funcRegex, parts.funcText, funcParts_ok.mpr parts.func, _,
      ⟨parts.entries, parts.times, rfl⟩, congrArg Except.ok hpolicy⟩

namespace Parts

variable (parts : p.Parts)

theorem values_dict (key : Text) : parts.dict.values key
    = if key = "filtering".toList then some p.filtering
      else if key = "severity".toList then some p.severity
      else if key ∈ parts.entries.map fun e => lower e.day then some "on".toList
      else (p.fixedKeys parts.src parts.dest parts.funcRegex parts.funcText).values key := by
  rw [dict, PolicyDict.values_set, PolicyDict.values_set, Loaded.values_foldl]

theorem timePer_dict : parts.dict.timePer = SeenPairs.kept [] (parts.entries.map Entry.row) :=
  @Loaded.timePer_foldl parts.entries _ [] rfl rfl fun _ => rfl

end Parts

/-! ### What can be in a dictionary -/

theorem mem_of_ips {src dest : Text} (hips : p.ips = .ok (src, dest)) :
    (src ⊆ p.ip ∧ ',' ∉ src ∧ '=' ∉ src) ∧ dest ⊆ p.ip ∧ ',' ∉ dest ∧ '=' ∉ dest := by
  have haddress : ∀ value ∈ [src, dest], value ⊆ p.ip ∧ ',' ∉ value ∧ '=' ∉ value := by
    intro value hvalue
    obtain ⟨x, hx, hread⟩ := (mem_mapM_ok (ips_ok.mp hips)).mp hvalue
    have hpiece : value ∈ x.splitOn '=' := by
      rw [address] at hread
      split at hread
      · rename_i hsplit
        rw [hsplit, ← Except.ok.inj hread]
        exact List.mem_cons_of_mem _ List.mem_cons_self
      · exact nomatch hread
    have hsubset := subset_of_mem_splitOn hpiece
    exact ⟨fun c hc => subset_of_mem_splitOn hx (hsubset hc), fun hc => notMem_of_mem_splitOn hx (hsubset hc),
      notMem_of_mem_splitOn hpiece⟩
  exact ⟨haddress src List.mem_cons_self, haddress dest (List.mem_cons_of_mem src List.mem_cons_self)⟩

end Policy

/-- Nothing in the value breaks a line of the file. -/
def Unbreaking (value : Text) : Prop := '\t' ∉ value ∧ Unbroken value

theorem Unbreaking.of_subset {value text : Text} (htext : Unbreaking text) (hsubset : value ⊆ text) : Unbreaking value :=
  ⟨fun hc => htext.1 (hsubset hc), fun hc => htext.2.1 (hsubset hc), fun hc => htext.2.2 (hsubset hc)⟩

instance (value : Text) : Decidable (Unbreaking value) :=
  inferInstanceAs (Decidable ('\t' ∉ value ∧ '\n' ∉ value ∧ '\r' ∉ value))

theorem Unbreaking.append {left right : Text} (hleft : Unbreaking left) (hright : Unbreaking right) :
    Unbreaking (left ++ right) := by
  have hfree : ∀ c, c ∉ left → c ∉ right → c ∉ left ++ right := fun c hl hr => by
    rw [List.mem_append, not_or]
    exact ⟨hl, hr⟩
  exact ⟨hfree '\t' hleft.1 hright.1, hfree '\n' hleft.2.1 hright.2.1, hfree '\r' hleft.2.2 hright.2.2⟩

theorem Unbreaking.intercalate {pieces : List Text} {separator : Char} (hseparator : Unbreaking [separator])
    (hpieces : ∀ piece ∈ pieces, Unbreaking piece) : Unbreaking ([separator].intercalate pieces) := by
  have hfree : ∀ c, c ∉ [separator] → (∀ piece ∈ pieces, c ∉ piece) → c ∉ [separator].intercalate pieces :=
    fun c hc => notMem_intercalate (List.ne_of_not_mem_cons hc)
  exact ⟨hfree '\t' hseparator.1 fun piece hpiece => (hpieces piece hpiece).1,
    hfree '\n' hseparator.2.1 fun piece hpiece => (hpieces piece hpiece).2.1,
    hfree '\r' hseparator.2.2 fun piece hpiece => (hpieces piece hpiece).2.2⟩

/-- A time in three parts. -/
def Timed (text : Text) : Prop := ∃ hour min sec : Text, text = [':'].intercalate [hour, min, sec]
  ∧ ∀ part ∈ [hour, min, sec], ':' ∉ part ∧ ',' ∉ part

namespace Entry

theorem fields_of_unpack {t : Text} {e : Entry} (hunpack : Entry.unpack t = .ok e) : t.splitOn ':' = e.fields := by
  unfold Entry.unpack at hunpack
  split at hunpack
  · rename_i hsplit
    rw [hsplit, ← Except.ok.inj hunpack]
    rfl
  · exact nomatch hunpack

/-- The row of an entry has times in three parts, and nothing the text of the entry has not. -/
theorem row_of_unpack {t : Text} {e : Entry} (hunpack : Entry.unpack t = .ok e) (hcomma : ',' ∉ t) (ht : Unbreaking t) :
    ∀ time ∈ [e.currStart, e.currStop], Timed time ∧ Unbreaking time := by
  have hfield : ∀ field ∈ e.fields, ':' ∉ field ∧ field ⊆ t := fun field hfield => by
    rw [← fields_of_unpack hunpack] at hfield
    exact ⟨notMem_of_mem_splitOn hfield, subset_of_mem_splitOn hfield⟩
  have htime : ∀ hour min sec : Text, [hour, min, sec] ⊆ e.fields →
      Timed ([':'].intercalate [hour, min, sec]) ∧ Unbreaking ([':'].intercalate [hour, min, sec]) := by
    intro hour min sec hparts
    refine ⟨⟨hour, min, sec, rfl, fun part hpart => ⟨(hfield part (hparts hpart)).1, fun hmem => ?_⟩⟩, ?_⟩
    · exact hcomma ((hfield part (hparts hpart)).2 hmem)
    · exact Unbreaking.intercalate (by decide) fun part hpart => ht.of_subset (hfield part (hparts hpart)).2
  rw [List.forall_mem_cons, List.forall_mem_singleton]
  constructor
  · exact htime e.startHour e.startMin e.startSec (by simp [fields])
  · exact htime e.stopHour e.stopMin e.stopSec (by simp [fields])

end Entry

theorem PolicyDict.of_values_set {P : Text → Prop} {policy : PolicyDict} {key value : Text} (hvalue : P value)
    (hpolicy : ∀ k v, policy.values k = some v → P v) : ∀ k v, (policy.set key value).values k = some v → P v := by
  intro k v hv
  rw [PolicyDict.values_set] at hv
  split at hv
  · exact Option.some.inj hv ▸ hvalue
  · exact hpolicy k v hv

namespace Policy.Parts

variable {p : Policy} (parts : p.Parts)

theorem values_filtering : parts.dict.values "filtering".toList = some p.filtering := by
  rw [values_dict, if_pos rfl]

/-- A key that is set before the loop has its value, unless a day has its name. -/
theorem of_values {P : Text → Prop} {key value v : Text} (hv : parts.dict.values key = some v)
    (hfixed : (p.fixedKeys parts.src parts.dest parts.funcRegex parts.funcText).values key = some value)
    (hkey : key ≠ "filtering".toList ∧ key ≠ "severity".toList) (hon : P "on".toList) (hvalue : P value) : P v := by
  rw [values_dict, if_neg hkey.1, if_neg hkey.2, hfixed] at hv
  split at hv
  · exact Option.some.inj hv ▸ hon
  · exact Option.some.inj hv ▸ hvalue

theorem src_plain {v : Text} (hv : parts.dict.values "src".toList = some v) : ',' ∉ v ∧ '=' ∉ v :=
  parts.of_values (P := fun v => ',' ∉ v ∧ '=' ∉ v) hv rfl (by decide) (by decide) (mem_of_ips parts.ips).1.2

theorem dest_plain {v : Text} (hv : parts.dict.values "dest".toList = some v) : ',' ∉ v ∧ '=' ∉ v :=
  parts.of_values (P := fun v => ',' ∉ v ∧ '=' ∉ v) hv rfl (by decide) (by decide) (mem_of_ips parts.ips).2.2

theorem colon_notMem : ':' ∉ parts.funcRegex ∧ ':' ∉ parts.funcText := by
  have hpart : ∀ part ∈ [parts.funcRegex, parts.funcText], ':' ∉ part := fun part hpart =>
    notMem_of_mem_splitOn (parts.func ▸ hpart)
  rwa [List.forall_mem_cons, List.forall_mem_singleton] at hpart

theorem funcRegex_plain {v : Text} (hv : parts.dict.values "funcRegex".toList = some v) : ':' ∉ v :=
  parts.of_values (P := fun v => ':' ∉ v) hv rfl (by decide) (by decide) parts.colon_notMem.1

theorem func_plain {v : Text} (hv : parts.dict.values "func".toList = some v) : ':' ∉ v :=
  parts.of_values (P := fun v => ':' ∉ v) hv rfl (by decide) (by decide) parts.colon_notMem.2

variable (hp : ∀ value ∈ p.fields, Unbreaking value)
include hp

theorem values_unbreaking : ∀ key v, parts.dict.values key = some v → Unbreaking v := by
  have hfield : ∀ value ∈ [p.ruleId, p.name, p.ip, p.proto, p.func, p.timePer, p.severity, p.filtering],
      Unbreaking value := hp
  simp only [List.forall_mem_cons] at hfield
  obtain ⟨hid, hname, hip, hproto, hfunc, _, hseverity, hfiltering, _⟩ := hfield
  obtain ⟨hsrc, hdest⟩ := mem_of_ips parts.ips
  have hpart : ∀ part ∈ [parts.funcRegex, parts.funcText], Unbreaking part := fun part hpart =>
    hfunc.of_subset (subset_of_mem_splitOn (parts.func ▸ hpart))
  have hfixed : ∀ key v, (p.fixedKeys parts.src parts.dest parts.funcRegex parts.funcText).values key = some v →
      Unbreaking v := by
    refine PolicyDict.of_values_set (hpart _ (List.mem_cons_of_mem _ List.mem_cons_self)) ?_
    refine PolicyDict.of_values_set (hpart _ List.mem_cons_self) (PolicyDict.of_values_set hproto ?_)
    refine PolicyDict.of_values_set (hip.of_subset hdest.1) (PolicyDict.of_values_set (hip.of_subset hsrc.1) ?_)
    exact PolicyDict.of_values_set hname (PolicyDict.of_values_set hid nofun)
  refine PolicyDict.of_values_set hfiltering (PolicyDict.of_values_set hseverity fun key v hv => ?_)
  rw [Loaded.values_foldl] at hv
  split at hv
  · exact Option.some.inj hv ▸ (by decide : Unbreaking "on".toList)
  · exact hfixed key v hv

theorem rows_timed : ∀ row ∈ parts.dict.timePer, ∀ time ∈ [row.1, row.2], Timed time ∧ Unbreaking time := by
  intro row hrow
  rw [timePer_dict] at hrow
  obtain ⟨e, he, rfl⟩ := List.mem_map.mp (SeenPairs.kept_subset hrow)
  obtain ⟨t, ht, hunpack⟩ := (mem_mapM_ok parts.times).mp he
  have htimePer : Unbreaking p.timePer := hp p.timePer (by simp [Policy.fields])
  exact Entry.row_of_unpack hunpack (notMem_of_mem_splitOn ht) (htimePer.of_subset (subset_of_mem_splitOn ht))

end Policy.Parts

end Armore.Filtering
