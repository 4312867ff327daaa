import Armore.Filtering.PolicyFile
import Armore.Lib.Raising

/-!
# What a policy file asks for

Over the functions of the source: the `ruleNum`-th active policy of a file asks for a rule if it is always
on, and for a list of jobs if it has a schedule. `parseLines` then does one thing for each line, and a whole
pass leaves the rules in the firewall and, if there was a schedule among the policies, their jobs in the
cron file. What an operation does to the policy file comes before the pass, and is the same function
whatever the firewall and the cron file hold.
-/

namespace Armore.Filtering

open Armore.Lib Armore.Lib.Text

/-- How a policy is enforced. -/
inductive Protection
  | rule (command : Text)
  | schedule (jobs : List Job)

def protection (host : Host) (ruleNum : Nat) (timePer srcIp tarIp ports proto : Text) :
    Except Exn Protection := do
  let cmds ← ipfwRules host ruleNum srcIp tarIp ports proto
  let startStop ← parseTime timePer
  if startStop.all then return .rule cmds.1
  else return .schedule (← newJobs host cmds.1 cmds.2 startStop)

/-- The effect of a protection on the system, and the jobs created so far after it. -/
def Protection.apply (host : Host) (s : System) (cron : List Job) :
    Protection → System × Except Exn (List Job)
  | .rule command =>
    match cmd host command with
    | .error e => (s, .error e)
    | .ok () => ({ s with firewall := s.firewall ++ [command] }, .ok cron)
  | .schedule jobs => ({ s with cronFile := cron ++ jobs }, .ok (cron ++ jobs))

theorem Protection.apply_error {host : Host} {s s' : System} {cron : List Job} {asked : Protection}
    {e : Exn} (happly : asked.apply host s cron = (s', .error e)) : s' = s := by
  cases asked with
  | rule command =>
    rw [Protection.apply] at happly
    cases hcmd : cmd host command with
    | error e' =>
      rw [hcmd, Prod.mk.injEq] at happly
      exact happly.1.symm
    | ok _ =>
      rw [hcmd, Prod.mk.injEq] at happly
      exact nomatch happly.2
  | schedule jobs => exact nomatch happly

theorem Protection.apply_rule_ok {host : Host} {s s' : System} {cron cron' : List Job} {command : Text}
    (happly : (Protection.rule command).apply host s cron = (s', .ok cron')) :
    s' = { s with firewall := s.firewall ++ [command] } ∧ cron' = cron := by
  rw [Protection.apply] at happly
  cases hcmd : cmd host command with
  | error e =>
    rw [hcmd, Prod.mk.injEq] at happly
    exact nomatch happly.2
  | ok _ =>
    rw [hcmd, Prod.mk.injEq, Except.ok.injEq] at happly
    exact ⟨happly.1.symm, happly.2.symm⟩

theorem createCronJob_eq (host : Host) (s : System) (cron : List Job) (ruleNum : Nat)
    (timePer srcIp tarIp ports proto : Text) :
    createCronJob host s cron ruleNum timePer srcIp tarIp ports proto =
      match protection host ruleNum timePer srcIp tarIp ports proto with
      | .error e => (s, .error e)
      | .ok protection =>
        match protection.apply host s cron with
        | (s, .error e) => (s, .error e)
        | (s, .ok cron) => (s, .ok (ruleNum, cron)) := by
  rw [createCronJob, protection]
  cases ipfwRules host ruleNum srcIp tarIp ports proto with
  | error e => rfl
  | ok cmds =>
    dsimp only
    cases parseTime timePer with
    | error e => rfl
    | ok startStop =>
      cases hall : startStop.all with
      | true =>
        simp only [hall, if_true, bind, Except.bind, pure, Except.pure, Protection.apply]
        cases cmd host cmds.1 <;> rfl
      | false =>
        simp only [hall, Bool.false_eq_true, if_false, bind, Except.bind, pure, Except.pure]
        cases newJobs host cmds.1 cmds.2 startStop <;> rfl

/-! ### The policies of a file -/

namespace Policy

/-- What a policy asks for as the `ruleNum`-th active one. -/
def protection (host : Host) (ruleNum : Nat) (p : Policy) : Except Exn Protection := do
  let ips ← p.ips
  Filtering.protection host ruleNum p.timePer ips.1 ips.2 "any".toList p.proto

def rule (host : Host) (ruleNum : Nat) (p : Policy) : Option Text :=
  match p.protection host ruleNum with
  | .ok (.rule command) => some command
  | _ => none

def jobs (host : Host) (ruleNum : Nat) (p : Policy) : List Job :=
  match p.protection host ruleNum with
  | .ok (.schedule jobs) => jobs
  | _ => []

/-- The time string is accepted and the policy is not always on. -/
def scheduled (p : Policy) : Bool :=
  match parseTime p.timePer with
  | .ok startStop => !startStop.all
  | .error _ => false

end Policy

/-- The active policies among some lines. -/
def activePolicies (lines : List Text) : List Policy :=
  (lines.filterMap fun line => (Policy.unpack line).toOption).filter (·.filtering = "active".toList)

/-- The rules of the always-on ones. -/
def rules (host : Host) (ruleNum : Nat) (policies : List Policy) : List Text :=
  (policies.zipIdx ruleNum).flatMap fun (p, n) => (p.rule host n).toList

/-- The jobs of the others. -/
def schedule (host : Host) (ruleNum : Nat) (policies : List Policy) : List Job :=
  (policies.zipIdx ruleNum).flatMap fun (p, n) => p.jobs host n

namespace Policy

theorem scheduled_of_protection {host : Host} {ruleNum : Nat} {p : Policy} {asked : Protection}
    (hasked : p.protection host ruleNum = .ok asked) :
    (∃ command, asked = .rule command ∧ p.scheduled = false)
      ∨ ∃ jobs, asked = .schedule jobs ∧ p.scheduled = true := by
  obtain ⟨ips, _, hips⟩ := bind_ok.mp hasked
  obtain ⟨cmds, _, hcmds⟩ := bind_ok.mp hips
  obtain ⟨startStop, htime, hstartStop⟩ := bind_ok.mp hcmds
  rw [scheduled, htime]
  cases hall : startStop.all with
  | true =>
    rw [hall, if_pos rfl] at hstartStop
    exact .inl ⟨cmds.1, (Except.ok.inj hstartStop).symm, by simp only [hall, Bool.not_true]⟩
  | false =>
    rw [hall, if_neg Bool.false_ne_true] at hstartStop
    obtain ⟨jobs, _, hjobs⟩ := bind_ok.mp hstartStop
    exact .inr ⟨jobs, (Except.ok.inj hjobs).symm, by simp only [hall, Bool.not_false]⟩

theorem jobs_of_not_scheduled {p : Policy} (hscheduled : p.scheduled = false) (host : Host)
    (ruleNum : Nat) : p.jobs host ruleNum = [] := by
  rw [jobs]
  split
  · rename_i jobs hasked
    rcases scheduled_of_protection hasked with ⟨_, hrule, _⟩ | ⟨_, _, hyes⟩
    · exact nomatch hrule
    · rw [hscheduled] at hyes
      exact nomatch hyes
  · rfl

end Policy

theorem rules_cons (host : Host) (ruleNum : Nat) (p : Policy) (policies : List Policy) :
    rules host ruleNum (p :: policies)
      = (p.rule host ruleNum).toList ++ rules host (ruleNum + 1) policies := by
  rw [rules, List.zipIdx_cons, List.flatMap_cons]
  rfl

theorem schedule_cons (host : Host) (ruleNum : Nat) (p : Policy) (policies : List Policy) :
    schedule host ruleNum (p :: policies)
      = p.jobs host ruleNum ++ schedule host (ruleNum + 1) policies := by
  rw [schedule, List.zipIdx_cons, List.flatMap_cons]
  rfl

theorem schedule_of_not_scheduled {policies : List Policy}
    (hnone : policies.any Policy.scheduled = false) (host : Host) (ruleNum : Nat) :
    schedule host ruleNum policies = [] := by
  rw [schedule, List.flatMap_eq_nil_iff]
  intro pair hmem
  apply Policy.jobs_of_not_scheduled
  rw [List.any_eq_false] at hnone
  exact eq_false_of_ne_true (hnone pair.1 (List.fst_mem_of_mem_zipIdx hmem))

/-! ### One line -/

/-- What a line asks for: nothing when the policy is passive. -/
def lineProtection (host : Host) (ruleNum : Nat) (line : Text) : Except Exn (Option Protection) := do
  let p ← Policy.unpack line
  let _ ← p.ips
  if p.filtering = "active".toList then return some (← p.protection host ruleNum) else return none

theorem lineProtection_none {host : Host} {ruleNum : Nat} {line : Text}
    (hline : lineProtection host ruleNum line = .ok none) (lines : List Text) :
    activePolicies (line :: lines) = activePolicies lines := by
  obtain ⟨p, hunpack, hp⟩ := bind_ok.mp hline
  obtain ⟨_, _, hips⟩ := bind_ok.mp hp
  split at hips
  · obtain ⟨_, _, hsome⟩ := bind_ok.mp hips
    exact nomatch hsome
  · rename_i hpassive
    simp only [activePolicies, hunpack, Except.toOption, List.filterMap_cons]
    apply List.filter_cons_of_neg
    rw [decide_eq_true_eq]
    exact hpassive

theorem lineProtection_some {host : Host} {ruleNum : Nat} {line : Text} {asked : Protection}
    (hline : lineProtection host ruleNum line = .ok (some asked)) (lines : List Text) :
    ∃ p : Policy, p.protection host ruleNum = .ok asked
      ∧ activePolicies (line :: lines) = p :: activePolicies lines := by
  obtain ⟨p, hunpack, hp⟩ := bind_ok.mp hline
  obtain ⟨_, _, hips⟩ := bind_ok.mp hp
  split at hips
  · rename_i hactive
    obtain ⟨asked', hasked, hsome⟩ := bind_ok.mp hips
    refine ⟨p, ?_, ?_⟩
    · rw [hasked, Option.some.inj (Except.ok.inj hsome)]
    · simp only [activePolicies, hunpack, Except.toOption, List.filterMap_cons]
      apply List.filter_cons_of_pos
      rw [decide_eq_true_eq]
      exact hactive
  · exact nomatch hips

theorem parseLines_cons (host : Host) (s : System) (cron : List Job) (ruleNum : Nat) (line : Text)
    (lines : List Text) :
    parseLines host s cron ruleNum (line :: lines) =
      match lineProtection host ruleNum line with
      | .error e => (s, .error e)
      | .ok none => parseLines host s cron ruleNum lines
      | .ok (some asked) =>
        match asked.apply host s cron with
        | (s, .error e) => (s, .error e)
        | (s, .ok cron) => parseLines host s cron (ruleNum + 1) lines := by
  rw [parseLines, lineProtection]
  cases Policy.unpack line with
  | error e => rfl
  | ok p =>
    cases hips : p.ips with
    | error e => simp only [hips, bind, Except.bind]
    | ok ips =>
      simp only [createCronJob_eq, Policy.protection, hips, bind, Except.bind]
      by_cases hactive : p.filtering = "active".toList
      · rw [if_pos hactive, if_pos hactive]
        cases protection host ruleNum p.timePer ips.1 ips.2 "any".toList p.proto with
        | error e => rfl
        | ok asked =>
          rcases happly : asked.apply host s cron with ⟨s', e | cron'⟩ <;>
            simp only [happly, pure, Except.pure]
      · rw [if_neg hactive, if_neg hactive]
        rfl

theorem parseLines_raises {host : Host} {ruleNum : Nat} {line : Text} {e : Exn}
    (hline : lineProtection host ruleNum line = .error e) (s : System) (cron : List Job)
    (lines : List Text) : parseLines host s cron ruleNum (line :: lines) = (s, .error e) := by
  rw [parseLines_cons, hline]

theorem parseLines_passive {host : Host} {ruleNum : Nat} {line : Text}
    (hline : lineProtection host ruleNum line = .ok none) (s : System) (cron : List Job)
    (lines : List Text) :
    parseLines host s cron ruleNum (line :: lines) = parseLines host s cron ruleNum lines := by
  rw [parseLines_cons, hline]

theorem parseLines_refused {host : Host} {ruleNum : Nat} {line : Text} {asked : Protection}
    (hline : lineProtection host ruleNum line = .ok (some asked)) {s s' : System} {cron : List Job}
    {e : Exn} (happly : asked.apply host s cron = (s', .error e)) (lines : List Text) :
    parseLines host s cron ruleNum (line :: lines) = (s', .error e) := by
  rw [parseLines_cons, hline]
  simp only [happly]

theorem parseLines_applied {host : Host} {ruleNum : Nat} {line : Text} {asked : Protection}
    (hline : lineProtection host ruleNum line = .ok (some asked)) {s s' : System} {cron cron' : List Job}
    (happly : asked.apply host s cron = (s', .ok cron')) (lines : List Text) :
    parseLines host s cron ruleNum (line :: lines) = parseLines host s' cron' (ruleNum + 1) lines := by
  rw [parseLines_cons, hline]
  simp only [happly]

/-! ### A pass over the lines -/

/-- A pass that returns has installed the rules and, if there was a schedule, written the jobs. -/
theorem parseLines_ok {host : Host} {s s' : System} {cron : List Job} {ruleNum : Nat} {lines : List Text}
    (hpass : parseLines host s cron ruleNum lines = (s', .ok ())) :
    s'.policyFile = s.policyFile
      ∧ s'.firewall = s.firewall ++ rules host ruleNum (activePolicies lines)
      ∧ s'.cronFile = if (activePolicies lines).any Policy.scheduled then
          cron ++ schedule host ruleNum (activePolicies lines) else s.cronFile := by
  induction lines generalizing s cron ruleNum with
  | nil =>
    rw [parseLines, Prod.mk.injEq] at hpass
    rw [← hpass.1]
    exact ⟨rfl, (List.append_nil _).symm, rfl⟩
  | cons line lines ih =>
    cases hline : lineProtection host ruleNum line with
    | error e =>
      rw [parseLines_raises hline] at hpass
      exact nomatch hpass
    | ok asked =>
      cases asked with
      | none =>
        rw [parseLines_passive hline] at hpass
        rw [lineProtection_none hline]
        exact ih hpass
      | some asked =>
        obtain ⟨p, hasked, hactive⟩ := lineProtection_some hline lines
        rcases happly : asked.apply host s cron with ⟨middle, e | cron'⟩
        · rw [parseLines_refused hline happly] at hpass
          exact nomatch hpass
        · rw [parseLines_applied hline happly] at hpass
          obtain ⟨hfile, hfirewall, hcron⟩ := ih hpass
          rw [hfile, hfirewall, hcron, hactive, rules_cons, schedule_cons, List.any_cons, Policy.rule,
            Policy.jobs, hasked]
          rcases Policy.scheduled_of_protection hasked with
            ⟨command, hrule, hscheduled⟩ | ⟨jobs, hjobs, hscheduled⟩
          · obtain ⟨hmiddle, hcron'⟩ := Protection.apply_rule_ok (hrule ▸ happly)
            rw [hrule, hscheduled, hmiddle, hcron', Bool.false_or]
            exact ⟨rfl, List.append_assoc .., rfl⟩
          · rw [hjobs, Protection.apply, Prod.mk.injEq, Except.ok.injEq] at happly
            rw [hjobs, hscheduled, ← happly.1, ← happly.2, Bool.true_or, if_pos rfl]
            refine ⟨rfl, rfl, ?_⟩
            -- without another schedule the file keeps what this one wrote
            split
            · exact List.append_assoc ..
            · rename_i hnone
              rw [schedule_of_not_scheduled (eq_false_of_ne_true hnone), List.append_nil]

/-- A pass that raises stops at a line that raises, with the system the lines before it have left. -/
theorem parseLines_error {host : Host} {s s' : System} {cron : List Job} {ruleNum : Nat}
    {lines : List Text} {e : Exn} (hpass : parseLines host s cron ruleNum lines = (s', .error e)) :
    ∃ done failing rest, lines = done ++ failing :: rest
      ∧ parseLines host s cron ruleNum done = (s', .ok ())
      ∧ ∃ cron' ruleNum', parseLines host s' cron' ruleNum' [failing] = (s', .error e) := by
  induction lines generalizing s cron ruleNum with
  | nil => exact nomatch hpass
  | cons line lines ih =>
    cases hline : lineProtection host ruleNum line with
    | error e' =>
      rw [parseLines_raises hline, Prod.mk.injEq] at hpass
      obtain ⟨rfl, he⟩ := hpass
      exact ⟨[], line, lines, rfl, rfl, cron, ruleNum, by rw [parseLines_raises hline, he]⟩
    | ok asked =>
      cases asked with
      | none =>
        rw [parseLines_passive hline] at hpass
        obtain ⟨done, failing, rest, hlines, hdone, hfailing⟩ := ih hpass
        refine ⟨line :: done, failing, rest, congrArg (line :: ·) hlines, ?_, hfailing⟩
        rw [parseLines_passive hline]
        exact hdone
      | some asked =>
        rcases happly : asked.apply host s cron with ⟨middle, e' | cron'⟩
        · have hmiddle := Protection.apply_error happly
          rw [parseLines_refused hline happly, hmiddle, Prod.mk.injEq] at hpass
          rw [hmiddle] at happly
          obtain ⟨rfl, he⟩ := hpass
          exact ⟨[], line, lines, rfl, rfl, cron, ruleNum, by rw [parseLines_refused hline happly, he]⟩
        · rw [parseLines_applied hline happly] at hpass
          obtain ⟨done, failing, rest, hlines, hdone, hfailing⟩ := ih hpass
          refine ⟨line :: done, failing, rest, congrArg (line :: ·) hlines, ?_, hfailing⟩
          rw [parseLines_applied hline happly]
          exact hdone

/-! ### The operations -/

inductive Op
  | update (formData : Form) (num : Option Text) (newId : Text)
  | delete (num : Text)

/-- An operation and what it finds outside while it runs. -/
structure Request where
  host : Host
  op : Op

def serve (s : System) (r : Request) : System × Except Exn Unit :=
  match r.op with
  | .update formData num newId => updatePolicyConfig r.host s newId formData num
  | .delete num => delPolicy r.host s num

/-- The system when the operation has made sure that there is a policy file. -/
def prepared (s : System) : Op → System
  | .update _ _ _ => verifyPolicyFileExists s
  | .delete _ => s

/-- The policy file with the form's line put in, or without the lines of a policy. -/
def edited (s : System) : Op → Except Exn Text
  | .update formData num newId => do
    let nextNum := if formData.has "submitAsNew".toList then newId else num.getD newId
    let output ← policyLine formData nextNum
    match (verifyPolicyFileExists s).policyFile with
    | none => .error .osError
    | some file => return (putLine nextNum output (readlines file)).flatten
  | .delete num =>
    match s.policyFile with
    | none => .error .osError
    | some file => dropLines num (readlines file)

theorem verifyPolicyFileExists_eq (s : System) :
    ∃ file, verifyPolicyFileExists s = { s with policyFile := some file } := by
  rw [verifyPolicyFileExists]
  split
  · exact ⟨header, rfl⟩
  · rename_i file hfile
    split
    · exact ⟨header, rfl⟩
    · exact ⟨file, by rw [← hfile]⟩

/-- Every operation writes the edited file and then goes through it, or raises before it writes. -/
theorem serve_eq (s : System) (r : Request) :
    serve s r =
      match edited s r.op with
      | .error e => (prepared s r.op, .error e)
      | .ok file => parseIPFW r.host { s with policyFile := some file } := by
  rw [serve]
  cases r.op with
  | update formData num newId =>
    obtain ⟨file, hfile⟩ := verifyPolicyFileExists_eq s
    simp only [updatePolicyConfig, edited, prepared, hfile]
    cases policyLine formData (if formData.has "submitAsNew".toList then newId else num.getD newId) <;> rfl
  | delete num =>
    simp only [delPolicy, edited, prepared]
    cases s.policyFile with
    | none => rfl
    | some file =>
      cases hdrop : dropLines num (readlines file) with
      | error e => simp only [hdrop]
      | ok newLines => simp only [hdrop]

/-- The lines of the policies: all but the header. -/
def bodyLines (file : Text) : List Text := (policyLines file).tail

/-- A file without policies needs no branch of its own. -/
theorem parseIPFW_eq (host : Host) {s : System} {file : Text} (hfile : s.policyFile = some file) :
    parseIPFW host s =
      match cmd host "ipfw -q flush".toList with
      | .error e => (s, .error e)
      | .ok () => parseLines host { s with firewall := [] } [] 0 (bodyLines file) := by
  rw [parseIPFW, flush]
  cases cmd host "ipfw -q flush".toList with
  | error e => rfl
  | ok _ =>
    simp only [hfile]
    split
    · rename_i hlength
      have hnil : bodyLines file = [] := by
        rw [bodyLines, ← List.length_eq_zero_iff, List.length_tail]
        omega
      rw [hnil]
      rfl
    · rfl

end Armore.Filtering
