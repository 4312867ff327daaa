import Armore.Filtering.CronFollows
import Armore.Lib.Keyed
import Mathlib.Data.Char
import Mathlib.Data.List.Lex
import Mathlib.Data.List.Sort

/-!
# The policy file as a map

What the file is for is a map from ids to policies: an update puts the policy of the form under its id, a
deletion drops the policy of an id, and `getPolicies` lists what is there. The functions find a policy by
the first field of its line, and `getPolicies` skips the header by its position. So the file is that map as
long as no id is the first field of the header and every line that is written comes apart again.
-/

namespace Armore.Filtering

open Armore.Lib Armore.Lib.Text

/-! ### The policies as the page lists them -/

/-- `d[key].append(value)`, or a new entry with the value alone. -/
def appendTo (d : List (Text × List Text)) (key value : Text) : List (Text × List Text) :=
  if (d.map Prod.fst).contains key then d.map fun e => if e.1 = key then (e.1, e.2 ++ [value]) else e
  else d ++ [(key, [value])]

def Entry.startStop (e : Entry) : Text :=
  [':'].intercalate [e.startHour, e.startMin, e.startSec] ++ " to ".toList
    ++ [':'].intercalate [e.stopHour, e.stopMin, e.stopSec]

/-- `"{} from {}".format(..)`. -/
def fromText (days period : Text) : Text := days ++ " from ".toList ++ period

/-- By period when there are not more periods than days, and otherwise by day. -/
def parseTimes (ts : List Text) : Except Exn (List Text) := do
  let entries ← ts.mapM Entry.unpack
  let d := entries.foldl (fun d e => appendTo d e.day e.startStop) []
  let p := entries.foldl (fun p e => appendTo p e.startStop e.day) []
  if p.length ≤ d.length then
    return (p.insertionSort fun x y => x.1 ≤ y.1).map fun x => fromText ([','].intercalate x.2) x.1
  else return d.flatMap fun x => x.2.map fun y => fromText x.1 y

/-- `re.sub('0.0.0.0/0', 'Any', text)`, where a dot is any character but a newline. -/
def subAddress : Text → Text
  | '0' :: a :: '0' :: b :: '0' :: c :: '0' :: '/' :: '0' :: rest =>
    if '\n' ∈ [a, b, c] then '0' :: subAddress (a :: '0' :: b :: '0' :: c :: '0' :: '/' :: '0' :: rest)
    else "Any".toList ++ subAddress rest
  | c :: rest => c :: subAddress rest
  | [] => []

/-- A policy of the list `getPolicies` returns. -/
structure Shown where
  num : Text
  name : Text
  ip : List Text
  proto : List Text
  funcRegex : Text
  func : List Text
  time : List Text
  severity : Text
  filtering : Text

section

-- `str.capitalize`
variable (capitalize : Text → Text)

/-- What the loop of `getPolicies` makes of the fields of a line. -/
def Policy.shown (p : Policy) : Except Exn Shown :=
  match p.func.splitOn ':' with
  | [regex, funcText] => do
    let time ← parseTimes (p.timePer.splitOn ',')
    return {
      num := p.ruleId
      name := p.name
      ip := (p.ip.splitOn ',').map fun x => subAddress (" = ".toList.intercalate (x.splitOn '='))
      proto := p.proto.splitOn ','
      funcRegex := regex
      func := funcText.splitOn ','
      time
      severity := capitalize p.severity
      filtering := capitalize p.filtering }
  | _ => .error .valueError

/-- `rstrip()`: every space at the end goes, not only the newline. -/
def stripEnd (line : Text) : Text := line.rdropWhile whitespace

def getPolicies (s : System) : System × Except Exn (List Shown) :=
  match (verifyPolicyFileExists s).policyFile with
  | none => (verifyPolicyFileExists s, .error .osError)
  | some file =>
    (verifyPolicyFileExists s, (readlines file).tail.mapM fun line => do
      (← Policy.unpack (stripEnd line)).shown capitalize)

end

/-! ### The map -/

namespace Policy

/-- The line `LINETEMPLATE` gives. -/
def line (p : Policy) : Text := ['\t'].intercalate p.fields ++ ['\n']

end Policy

/-- The eight values of a complete form. -/
def formPolicy (formData : Form) (nextNum : Text) : Except Exn Policy := do
  let timeStr ← formTimeStr formData
  let src ← formData.get "srcIp".toList
  let dest ← formData.get "destIp".toList
  let func ← formData.get "func".toList
  let regexType ← formData.get "funcRegex".toList
  let name ← formData.get "policyName".toList
  let proto ← formData.get "proto".toList
  let severity ← formData.get "severity".toList
  let filtering ← formData.get "filtering".toList
  return {
    ruleId := nextNum
    name
    ip := "src=".toList ++ orElse src "0.0.0.0/0".toList ++ ",dest=".toList ++ orElse dest "0.0.0.0/0".toList
    proto := subAny proto
    func := regexType ++ ':' :: orElse func ['*']
    timePer := timeStr.dropLast
    severity
    filtering }

namespace Op

/-- The id an operation is about. -/
def names : Op → Text
  | .update formData num newId => if formData.has "submitAsNew".toList then newId else num.getD newId
  | .delete num => num

/-- What the operation is for: a complete form goes under its id, and an id is dropped. -/
def apply (op : Op) (live : List Policy) : List Policy :=
  match op with
  | .update formData _ _ =>
    match formPolicy formData op.names with
    | .ok p => Keyed.put Policy.ruleId p live
    | .error _ => live
  | .delete num => Keyed.drop Policy.ruleId num live

end Op

/-- The live policies after some requests. -/
def live (requests : List Request) : List Policy := requests.foldl (fun live r => r.op.apply live) []

/-- The system after some requests, raised or not. -/
def reached (s : System) (requests : List Request) : System :=
  requests.foldl (fun s r => (serve s r).1) s

/-- The file is the header and a line of eight fields for each live policy, and `getPolicies` returns the
live policies. -/
structure PolicyMap (capitalize : Text → Text) (s : System) (live : List Policy) : Prop where
  file : s.policyFile = some (header ++ (live.map Policy.line).flatten)
  fields : ∀ p ∈ live, Policy.unpack (rstrip '\n' p.line) = .ok p
  distinct : (live.map Policy.ruleId).Nodup
  listed : ∃ shown, live.mapM (Policy.shown capitalize) = .ok shown
    ∧ getPolicies capitalize s = (s, .ok shown)

/-- The field of a line that is compared with an id. -/
def lineId (line : Text) : Text := splitHead line '\t'

/-- The lines of the file under other ids. -/
def otherLines (id : Text) (s : System) : List Text := Keyed.drop lineId id (readlines (s.policyFile.getD []))

/-- A policy whose line is found by its id and comes apart again: the id is not that of the header, no value
breaks the line, and `getPolicies` can read the functions, the times and the last field. -/
structure Policy.Storable (p : Policy) : Prop where
  ruleId : p.ruleId ≠ "#fields".toList
  plain : ∀ value ∈ p.fields, '\t' ∉ value ∧ '\n' ∉ value ∧ '\r' ∉ value
  func : (p.func.splitOn ':').length = 2
  times : ∀ t ∈ p.timePer.splitOn ',', (t.splitOn ':').length = 7
  filtering : ∃ c ∈ p.filtering.getLast?, whitespace c = false

/-- No operation names the header, and what is written is storable. -/
def Op.Careful (op : Op) : Prop :=
  match op with
  | .update formData _ _ => ∀ p, formPolicy formData op.names = .ok p → p.Storable
  | .delete num => num ≠ "#fields".toList

/-! ### A line -/

namespace Policy

variable {p : Policy}

theorem fields_ne_nil (p : Policy) : p.fields ≠ [] := List.cons_ne_nil _ _

theorem unpack_intercalate (hplain : ∀ value ∈ p.fields, '\t' ∉ value) :
    unpack (['\t'].intercalate p.fields) = .ok p := by
  rw [unpack, List.splitOn_intercalate _ hplain (fields_ne_nil p)]
  rfl

theorem Storable.oneLine (hp : p.Storable) :
    '\n' ∉ ['\t'].intercalate p.fields ∧ '\r' ∉ ['\t'].intercalate p.fields := by
  constructor
  · exact notMem_intercalate (by decide) fun value hvalue => (hp.plain value hvalue).2.1
  · exact notMem_intercalate (by decide) fun value hvalue => (hp.plain value hvalue).2.2

theorem Storable.unpack_line (hp : p.Storable) : unpack (rstrip '\n' p.line) = .ok p := by
  rw [line, rstrip_line hp.oneLine.1]
  exact unpack_intercalate fun value hvalue => (hp.plain value hvalue).1

theorem lineId_append (hid : '\t' ∉ p.ruleId) (after : Text) :
    lineId (['\t'].intercalate p.fields ++ after) = p.ruleId := by
  rw [lineId, splitHead, fields, intercalate_cons _ (List.cons_ne_nil _ _), List.append_assoc, List.cons_append,
    List.splitOn_append_cons_self_of_not_mem hid, List.headD_cons]

theorem Storable.lineId_line (hp : p.Storable) : lineId p.line = p.ruleId :=
  lineId_append (hp.plain p.ruleId List.mem_cons_self).1 ['\n']

/-- Nothing but the newline is stripped from the line. -/
theorem stripEnd_line (hfiltering : ∃ c ∈ p.filtering.getLast?, whitespace c = false) :
    stripEnd p.line = ['\t'].intercalate p.fields := by
  obtain ⟨c, hc, hvisible⟩ := hfiltering
  obtain ⟨front, hfront⟩ := List.getLast?_eq_some_iff.mp hc
  have hlast : ['\t'].intercalate p.fields
      = ['\t'].intercalate ([p.ruleId, p.name, p.ip, p.proto, p.func, p.timePer, p.severity] ++ [[]])
        ++ front ++ [c] := by
    rw [List.append_assoc, ← hfront, intercalate_append]
    rfl
  rw [stripEnd, line, List.rdropWhile_concat_pos _ _ _ (by decide), hlast,
    List.rdropWhile_concat_neg _ _ _ (by rw [hvisible]; exact Bool.false_ne_true)]

/-- `getPolicies` can read the policy. -/
theorem Storable.exists_shown (hp : p.Storable) (capitalize : Text → Text) :
    ∃ shown, p.shown capitalize = .ok shown := by
  have hentries : ∀ t ∈ p.timePer.splitOn ',', ∃ e, Entry.unpack t = .ok e := by
    intro t ht
    rw [Entry.unpack]
    match hparts : t.splitOn ':', hp.times t ht with
    | [_, _, _, _, _, _, _], _ => exact ⟨_, rfl⟩
  obtain ⟨entries, hentries⟩ := exists_mapM_ok hentries
  have htimes : ∃ time, parseTimes (p.timePer.splitOn ',') = .ok time := by
    rw [parseTimes, hentries]
    simp only [bind, Except.bind]
    split <;> exact ⟨_, rfl⟩
  obtain ⟨time, htime⟩ := htimes
  rw [shown]
  match hfunc : p.func.splitOn ':', hp.func with
  | [regex, funcText], _ =>
    simp only [htime]
    exact ⟨_, rfl⟩

end Policy

theorem policyLine_eq (formData : Form) (nextNum : Text) :
    policyLine formData nextNum = Policy.line <$> formPolicy formData nextNum := by
  rw [policyLine, formPolicy]
  simp only [map_bind, map_pure]
  rfl

theorem formPolicy_ruleId {formData : Form} {nextNum : Text} {p : Policy}
    (hform : formPolicy formData nextNum = .ok p) : p.ruleId = nextNum := by
  simp only [formPolicy, bind_ok] at hform
  obtain ⟨timeStr, -, src, -, dest, -, func, -, regexType, -, name, -, proto, -, severity, -, filtering, -, hp⟩ :=
    hform
  rw [← Except.ok.inj hp]

/-! ### The file -/

variable {capitalize : Text → Text} {live : List Policy}

/-- The text of the header without its newline. -/
def headerText : Text := header.dropLast

/-- The lines of the file the policies make. -/
theorem readlines_file (hlive : ∀ p ∈ live, p.Storable) :
    readlines (header ++ (live.map Policy.line).flatten) = header :: live.map Policy.line := by
  have hlines : ∀ line ∈ headerText :: live.map fun p => ['\t'].intercalate p.fields,
      '\n' ∉ line ∧ '\r' ∉ line := by
    intro line hline
    rcases List.mem_cons.mp hline with rfl | hline
    · decide
    · obtain ⟨p, hp, rfl⟩ := List.mem_map.mp hline
      exact (hlive p hp).oneLine
  have hread := readlines_flatten hlines
  rw [List.map_cons, List.flatten_cons, List.map_map] at hread
  exact hread

theorem lineId_header : lineId header = "#fields".toList := by
  decide

/-- A pass over the file leaves it as it is. -/
theorem parseIPFW_policyFile (host : Host) (s : System) :
    (parseIPFW host s).1.policyFile = s.policyFile := by
  cases hfile : s.policyFile with
  | none =>
    rw [parseIPFW, flush]
    cases cmd host "ipfw -q flush".toList with
    | error e => exact hfile
    | ok _ =>
      simp only [hfile]
  | some file =>
    rw [parseIPFW_eq host hfile]
    cases cmd host "ipfw -q flush".toList with
    | error e => exact hfile
    | ok _ =>
      rcases hpass : parseLines host { s with firewall := [] } [] 0 (bodyLines file) with ⟨s', e | _⟩
      · obtain ⟨done, _, _, _, hdone, _⟩ := parseLines_error hpass
        exact (parseLines_ok hdone).1.trans hfile
      · exact (parseLines_ok hpass).1.trans hfile

/-! ### One operation -/

/-- The file is the one the policies make, and the policies are storable under distinct ids. -/
structure Stores (s : System) (live : List Policy) : Prop where
  file : s.policyFile = some (header ++ (live.map Policy.line).flatten)
  storable : ∀ p ∈ live, p.Storable
  distinct : (live.map Policy.ruleId).Nodup

theorem Stores.verify {s : System} (hs : Stores s live) : verifyPolicyFileExists s = s := by
  rw [verifyPolicyFileExists, hs.file]
  simp only [readlines_file hs.storable, List.cons_ne_nil, if_false]

theorem Stores.prepared {s : System} (hs : Stores s live) (op : Op) : prepared s op = s := by
  cases op with
  | update formData num newId => exact hs.verify
  | delete num => rfl

theorem Stores.lineId_line {s : System} (hs : Stores s live) : ∀ p ∈ live, lineId p.line = p.ruleId :=
  fun p hp => (hs.storable p hp).lineId_line

/-- The line of a policy takes the place of its old line in the file. -/
theorem Stores.putLine {s : System} (hs : Stores s live) {p : Policy} (hp : p.Storable) :
    putLine p.ruleId p.line (header :: live.map Policy.line)
      = header :: (Keyed.put Policy.ruleId p live).map Policy.line := by
  have hput : ∀ lines, Filtering.putLine p.ruleId p.line lines = Keyed.put lineId p.line lines := by
    intro lines
    rw [Filtering.putLine, Keyed.put, hp.lineId_line]
    rfl
  have hheader : lineId header ≠ lineId p.line := by
    rw [hp.lineId_line, lineId_header]
    exact hp.ruleId.symm
  rw [hput, Keyed.put_cons_of_ne hheader, Keyed.map_put hp.lineId_line hs.lineId_line]

theorem rewriteLine_line {p : Policy} (hp : p.Storable) : rewriteLine p.line = .ok p.line := by
  rw [rewriteLine, hp.unpack_line]
  rfl

/-- The lines of the others are put together again as they were. -/
theorem Stores.dropLines {s : System} (hs : Stores s live) {num : Text} (hnum : num ≠ "#fields".toList) :
    dropLines num (header :: live.map Policy.line)
      = .ok (header ++ ((Keyed.drop Policy.ruleId num live).map Policy.line).flatten) := by
  have hheader : lineId header ≠ num := by
    rw [lineId_header]
    exact hnum.symm
  have hfilter : (header :: live.map Policy.line).filter (fun line => splitHead line '\t' ≠ num)
      = header :: (Keyed.drop Policy.ruleId num live).map Policy.line := by
    rw [Keyed.map_drop hs.lineId_line]
    exact Keyed.drop_cons_of_ne hheader _
  have hrewrite : ((Keyed.drop Policy.ruleId num live).map Policy.line).mapM rewriteLine
      = .ok ((Keyed.drop Policy.ruleId num live).map Policy.line) := by
    rw [mapM_ok, List.forall₂_same]
    intro line hline
    obtain ⟨p, hp, rfl⟩ := List.mem_map.mp hline
    exact rewriteLine_line (hs.storable p (Keyed.mem_drop.mp hp).1)
  rw [Filtering.dropLines, hfilter]
  simp only [hrewrite]
  rfl

/-- An operation raises before it writes and asks for no change, or writes what it asks for. -/
theorem Stores.edited {s : System} (hs : Stores s live) {op : Op} (hcareful : op.Careful) :
    (∃ e, edited s op = .error e ∧ op.apply live = live)
      ∨ edited s op = .ok (header ++ ((op.apply live).map Policy.line).flatten) := by
  cases op with
  | update formData num newId =>
    have hline := policyLine_eq formData (Op.names (.update formData num newId))
    cases hform : formPolicy formData (Op.names (.update formData num newId)) with
    | error e =>
      rw [hform] at hline
      refine .inl ⟨e, ?_, ?_⟩
      · rw [Filtering.edited]
        exact congrArg (· >>= _) hline
      · simp only [Op.apply, hform]
    | ok p =>
      have hp : p.Storable := hcareful p hform
      have hid : p.ruleId = Op.names (.update formData num newId) := formPolicy_ruleId hform
      rw [hform] at hline
      refine .inr ?_
      rw [Filtering.edited]
      refine (congrArg (· >>= _) hline).trans ?_
      show (match (verifyPolicyFileExists s).policyFile with | none => _ | some file => _) = _
      simp only [hs.verify, hs.file, readlines_file hs.storable, Op.apply, hform]
      have hput := hs.putLine hp
      rw [hid] at hput
      exact congrArg (fun lines => Except.ok lines.flatten) hput
  | delete num =>
    rw [Filtering.edited, hs.file]
    simp only [readlines_file hs.storable, hs.dropLines hcareful]
    exact .inr rfl

theorem storable_apply (hlive : ∀ p ∈ live, p.Storable) {op : Op} (hcareful : op.Careful) :
    ∀ p ∈ op.apply live, p.Storable := by
  intro p hp
  cases op with
  | update formData num newId =>
    rw [Op.apply] at hp
    split at hp
    · rename_i p' hform
      rcases Keyed.mem_put hp with rfl | hold
      · exact hcareful p hform
      · exact hlive p hold
    · exact hlive p hp
  | delete num => exact hlive p (Keyed.mem_drop.mp hp).1

theorem distinct_apply (hdistinct : (live.map Policy.ruleId).Nodup) (op : Op) :
    ((op.apply live).map Policy.ruleId).Nodup := by
  cases op with
  | update formData num newId =>
    rw [Op.apply]
    split
    · exact Keyed.nodup_put hdistinct _
    · exact hdistinct
  | delete num => exact Keyed.nodup_drop hdistinct num

theorem Stores.serve {s : System} (hs : Stores s live) {r : Request} (hcareful : r.op.Careful) :
    Stores (serve s r).1 (r.op.apply live) where
  file := by
    rw [serve_eq]
    rcases hs.edited hcareful with ⟨e, hedited, happly⟩ | hedited
    · rw [hedited, happly]
      exact (congrArg System.policyFile (hs.prepared r.op)).trans hs.file
    · rw [hedited]
      exact parseIPFW_policyFile r.host _
  storable := storable_apply hs.storable hcareful
  distinct := distinct_apply hs.distinct r.op

/-- The lines of the file under other ids are those of the other policies, and of the header. -/
theorem Stores.otherLines {s : System} (hs : Stores s live) {id : Text} (hid : id ≠ "#fields".toList) :
    otherLines id s = header :: (Keyed.drop Policy.ruleId id live).map Policy.line := by
  have hheader : lineId header ≠ id := by
    rw [lineId_header]
    exact hid.symm
  rw [Filtering.otherLines, hs.file, Option.getD_some, readlines_file hs.storable,
    Keyed.drop_cons_of_ne hheader, Keyed.map_drop hs.lineId_line]

/-- Outside the policy it names, what an operation is for leaves the policies as they are. -/
theorem drop_apply (op : Op) (live : List Policy) :
    Keyed.drop Policy.ruleId op.names (op.apply live) = Keyed.drop Policy.ruleId op.names live := by
  cases op with
  | update formData num newId =>
    rw [Op.apply]
    split
    · rename_i p hform
      rw [← formPolicy_ruleId hform]
      exact Keyed.drop_put p live
    · rfl
  | delete num => exact Keyed.drop_drop num live

theorem Stores.getPolicies {s : System} (hs : Stores s live) (capitalize : Text → Text) :
    ∃ shown, live.mapM (Policy.shown capitalize) = .ok shown
      ∧ getPolicies capitalize s = (s, .ok shown) := by
  obtain ⟨shown, hshown⟩ := exists_mapM_ok fun p hp => (hs.storable p hp).exists_shown capitalize
  refine ⟨shown, hshown, ?_⟩
  simp only [Filtering.getPolicies, hs.verify, hs.file, readlines_file hs.storable, List.tail_cons]
  congr 1
  rw [mapM_ok, List.forall₂_map_left_iff]
  have hall := (List.forall₂_and_left _ _).mpr ⟨hs.storable, mapM_ok.mp hshown⟩
  refine hall.imp ?_
  intro p v ⟨hp, hv⟩
  rw [Policy.stripEnd_line hp.filtering, Policy.unpack_intercalate fun value hvalue => (hp.plain value hvalue).1]
  exact hv

/-- A careful operation on the id of the header does nothing. -/
theorem Op.Careful.apply_eq {op : Op} (hcareful : op.Careful) (hid : op.names = "#fields".toList)
    (live : List Policy) : op.apply live = live := by
  cases op with
  | update formData num newId =>
    rw [Op.apply]
    split
    · rename_i p hform
      exact absurd ((formPolicy_ruleId hform).trans hid) (hcareful p hform).ruleId
    · rfl
  | delete num => exact absurd hid hcareful

/-- **An operation leaves the lines of the policies it does not name.** -/
theorem Stores.otherLines_serve {s : System} (hs : Stores s live) {r : Request} (hcareful : r.op.Careful) :
    Filtering.otherLines r.op.names (Filtering.serve s r).1 = Filtering.otherLines r.op.names s := by
  have hafter := hs.serve hcareful
  by_cases hid : r.op.names = "#fields".toList
  · rw [hcareful.apply_eq hid] at hafter
    rw [Filtering.otherLines, Filtering.otherLines, hafter.file, hs.file]
  · rw [hafter.otherLines hid, hs.otherLines hid, drop_apply]

theorem Stores.policyMap {s : System} (hs : Stores s live) (capitalize : Text → Text) :
    PolicyMap capitalize s live where
  file := hs.file
  fields p hp := (hs.storable p hp).unpack_line
  distinct := hs.distinct
  listed := hs.getPolicies capitalize

/-! ### Runs -/

theorem Stores.reached {s : System} (hs : Stores s live) {requests : List Request}
    (hcareful : ∀ r ∈ requests, r.op.Careful) :
    Stores (reached s requests) (requests.foldl (fun live r => r.op.apply live) live) := by
  induction requests generalizing s live with
  | nil => exact hs
  | cons r requests ih =>
    exact ih (hs.serve (hcareful r List.mem_cons_self)) fun r' hr' => hcareful r' (List.mem_cons_of_mem r hr')

theorem stores_header {s : System} (hstart : s.policyFile = some header) : Stores s [] where
  file := hstart
  storable _ hp := absurd hp List.not_mem_nil
  distinct := List.nodup_nil

/-- **From a file with the header only, every run of careful operations keeps the file the map of the live
policies, and each operation leaves the lines of the others.** -/
theorem keyed_by_id (capitalize : Text → Text) {s : System} (hstart : s.policyFile = some header)
    {requests : List Request} (hcareful : ∀ r ∈ requests, r.op.Careful) :
    PolicyMap capitalize (reached s requests) (Filtering.live requests)
      ∧ ∀ (before : List Request) (r : Request) (after : List Request), requests = before ++ r :: after →
          otherLines r.op.names (reached s (before ++ [r])) = otherLines r.op.names (reached s before) := by
  constructor
  · exact ((stores_header hstart).reached hcareful).policyMap capitalize
  · intro before r after hrequests
    subst hrequests
    have hbefore := (stores_header hstart).reached fun r' hr' => hcareful r' (List.mem_append_left _ hr')
    rw [reached, List.foldl_append]
    exact hbefore.otherLines_serve (hcareful r (List.mem_append_right _ List.mem_cons_self))

/-! ### The id of the header -/

/-- The values of the form have no tabs and no newlines. -/
def Op.PlainValues : Op → Prop
  | .update formData _ _ => ∀ field ∈ formData.fields, '\t' ∉ field.2 ∧ '\n' ∉ field.2
  | .delete _ => True

def mondayId : Text := "0f8fad5b-d9cb-469f-a165-70867728950e".toList

/-- What `mondayForm` asks for. -/
def mondayPolicy : Policy where
  ruleId := mondayId
  name := "night".toList
  ip := "src=0.0.0.0/0,dest=10.0.0.7".toList
  proto := ['*']
  func := "contains:*".toList
  timePer := "Mon:08:00:00:17:00:00".toList
  severity := "notice".toList
  filtering := "active".toList

theorem formPolicy_mondayForm : formPolicy mondayForm mondayId = .ok mondayPolicy := by decide +kernel

theorem mondayPolicy_storable : mondayPolicy.Storable where
  ruleId := by decide
  plain := by decide
  func := by decide
  times := by decide
  filtering := ⟨'e', rfl, by decide⟩

theorem names_mondayForm : Op.names (.update mondayForm none mondayId) = mondayId := by
  have hnew : mondayForm.has "submitAsNew".toList = false := rfl
  rw [Op.names, hnew, if_neg Bool.false_ne_true, Option.getD_none]

theorem addition_careful : Op.Careful (.update mondayForm none mondayId) := by
  intro p hform
  rw [names_mondayForm, formPolicy_mondayForm, Except.ok.injEq] at hform
  exact hform ▸ mondayPolicy_storable

/-- The policy is added, and taken out again. -/
def addedAndDeleted : List Request :=
  [⟨Host.plain, .update mondayForm none mondayId⟩, ⟨Host.plain, .delete mondayId⟩]

theorem addedAndDeleted_careful : ∀ r ∈ addedAndDeleted, r.op.Careful := by
  intro r hr
  rw [addedAndDeleted, List.mem_pair] at hr
  rcases hr with rfl | rfl
  · exact addition_careful
  · show mondayId ≠ "#fields".toList
    decide

theorem keyed_by_id_addedAndDeleted :
    PolicyMap id (reached ⟨some header, [], []⟩ addedAndDeleted) (Filtering.live addedAndDeleted)
      ∧ ∀ (before : List Request) (r : Request) (after : List Request), addedAndDeleted = before ++ r :: after →
          otherLines r.op.names (reached ⟨some header, [], []⟩ (before ++ [r]))
            = otherLines r.op.names (reached ⟨some header, [], []⟩ before) :=
  keyed_by_id id rfl addedAndDeleted_careful

/-- The policy is added, and then the id of the header is deleted. -/
def headerDeleted : List Request :=
  [⟨Host.plain, .update mondayForm none mondayId⟩, ⟨Host.plain, .delete "#fields".toList⟩]

/-- Deleting the id of the header leaves the line of the policy in its place. -/
theorem edited_deleteHeader {s : System} {p : Policy} (hs : Stores s [p]) {num : Text}
    (hnum : lineId header = num) : edited s (.delete num) = .ok p.line := by
  have hp : p.Storable := hs.storable p (List.mem_singleton_self p)
  have hheader : ¬ decide (splitHead header '\t' ≠ num) = true := fun hne => of_decide_eq_true hne hnum
  have hline : decide (splitHead p.line '\t' ≠ num) = true := by
    refine decide_eq_true fun hid => hp.ruleId ?_
    rw [← lineId_header, hnum, ← hid, ← hp.lineId_line, lineId]
  have hkept : [header, p.line].filter (fun line => splitHead line '\t' ≠ num) = [p.line] := by
    rw [List.filter_cons, if_neg hheader, List.filter_cons, if_pos hline, List.filter_nil]
  rw [edited, hs.file]
  show dropLines num (readlines (header ++ ([p].map Policy.line).flatten)) = .ok p.line
  rw [readlines_file hs.storable]
  show dropLines num [header, p.line] = .ok p.line
  rw [dropLines, hkept]
  show Except.ok (p.line ++ []) = .ok p.line
  rw [List.append_nil]

theorem policyFile_deleteHeader {s : System} {p : Policy} (hs : Stores s [p]) {num : Text}
    (hnum : lineId header = num) (host : Host) :
    (serve s ⟨host, .delete num⟩).1.policyFile = some p.line := by
  rw [serve_eq]
  simp only [edited_deleteHeader hs hnum]
  exact parseIPFW_policyFile _ _

theorem policyFile_headerDeleted :
    (reached ⟨some header, [], []⟩ headerDeleted).policyFile = some mondayPolicy.line := by
  have hadded := (stores_header (s := ⟨some header, [], []⟩) rfl).serve
    (r := ⟨Host.plain, .update mondayForm none mondayId⟩) addition_careful
  have happly : (Op.update mondayForm none mondayId).apply [] = [mondayPolicy] := by
    simp only [Op.apply, names_mondayForm, formPolicy_mondayForm]
    rfl
  rw [happly] at hadded
  rw [headerDeleted, reached, List.foldl_cons, List.foldl_cons, List.foldl_nil]
  exact policyFile_deleteHeader hadded lineId_header Host.plain

/-- The file has lost its header, and `getPolicies` takes the line of the policy for it. -/
theorem header_lost :
    ¬ ∀ (capitalize : Text → Text) (s : System) (requests : List Request), s.policyFile = some header →
        (∀ r ∈ requests, r.op.PlainValues) →
        PolicyMap capitalize (reached s requests) (Filtering.live requests)
          ∧ ∀ (before : List Request) (r : Request) (after : List Request), requests = before ++ r :: after →
              otherLines r.op.names (reached s (before ++ [r])) = otherLines r.op.names (reached s before) := by
  intro hkeyed
  have hvalues : ∀ r ∈ headerDeleted, r.op.PlainValues := by
    intro r hr
    rw [headerDeleted, List.mem_pair] at hr
    rcases hr with rfl | rfl
    · show ∀ field ∈ mondayForm.fields, _
      decide
    · trivial
  have hfile := (hkeyed id ⟨some header, [], []⟩ headerDeleted rfl hvalues).1.file
  rw [policyFile_headerDeleted, Option.some.injEq] at hfile
  have hfirst : mondayPolicy.line.head? = some '0' := rfl
  rw [hfile] at hfirst
  exact nomatch Option.some.inj hfirst

end Armore.Filtering
