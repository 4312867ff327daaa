import Armore.Filtering.Protection

/-!
# The firewall and the cron file after an operation

After an operation that returns, the firewall holds the rules of the policies that are active and always
on. The cron file is written only when `createCronJob` takes its last branch, so it holds the jobs of the
other active policies if there is one, and otherwise whatever it held before: the jobs of the last policy
with a schedule outlive its deletion.
-/

namespace Armore.Filtering

open Armore.Lib Armore.Lib.Text

/-- The active policies of the policy file. -/
def System.policies (s : System) : List Policy := activePolicies (bodyLines (s.policyFile.getD []))

/-- The rules installed are those of the always-on policies, the jobs those of the others. -/
def Follows (host : Host) (s : System) : Prop :=
  s.firewall = rules host 0 s.policies ∧ s.cronFile = schedule host 0 s.policies

/-- There is no job to be left behind, or a policy with a schedule after the edit. -/
def Rewrites (s : System) (op : Op) : Prop :=
  s.cronFile = [] ∨
    ∃ file, edited s op = .ok file ∧ (activePolicies (bodyLines file)).any Policy.scheduled = true

/-- What an operation that returns leaves. -/
theorem serve_ok {s s' : System} {r : Request} (hserve : serve s r = (s', .ok ())) :
    ∃ file, edited s r.op = .ok file ∧ s'.policyFile = some file
      ∧ s'.firewall = rules r.host 0 s'.policies
      ∧ s'.cronFile = if s'.policies.any Policy.scheduled then schedule r.host 0 s'.policies
          else s.cronFile := by
  rw [serve_eq] at hserve
  cases hedited : edited s r.op with
  | error e =>
    rw [hedited] at hserve
    exact nomatch hserve
  | ok file =>
    rw [hedited] at hserve
    change parseIPFW r.host { s with policyFile := some file } = _ at hserve
    rw [parseIPFW_eq r.host rfl] at hserve
    cases hflush : cmd r.host "ipfw -q flush".toList with
    | error e =>
      rw [hflush] at hserve
      exact nomatch hserve
    | ok _ =>
      rw [hflush] at hserve
      obtain ⟨hfile, hfirewall, hcron⟩ := parseLines_ok hserve
      refine ⟨file, rfl, hfile, ?_, ?_⟩
      · rw [hfirewall, System.policies, hfile]
        rfl
      · rw [hcron, System.policies, hfile]
        rfl

theorem follows_of_completed {s s' : System} {r : Request} (hserve : serve s r = (s', .ok ())) :
    Follows r.host s' ↔ Rewrites s r.op := by
  obtain ⟨file, hedited, hfile, hfirewall, hcron⟩ := serve_ok hserve
  have hpolicies : s'.policies = activePolicies (bodyLines file) := by
    rw [System.policies, hfile]
    rfl
  rw [Follows, Rewrites, hcron]
  cases hscheduled : s'.policies.any Policy.scheduled with
  | true =>
    rw [if_pos rfl]
    constructor
    · intro _
      exact .inr ⟨file, hedited, hpolicies ▸ hscheduled⟩
    · intro _
      exact ⟨hfirewall, rfl⟩
  | false =>
    rw [if_neg Bool.false_ne_true, schedule_of_not_scheduled hscheduled]
    constructor
    · intro ⟨_, hempty⟩
      exact .inl hempty
    · intro hrewrites
      refine ⟨hfirewall, ?_⟩
      rcases hrewrites with hempty | ⟨file', hedited', hsome⟩
      · exact hempty
      · rw [hedited, Except.ok.injEq] at hedited'
        rw [← hedited', ← hpolicies, hscheduled] at hsome
        exact nomatch hsome

/-! ### Runs -/

/-- One operation of a run. -/
structure Stage where
  before : System
  request : Request
  after : System
  result : Except Exn Unit

/-- The operations of a run, raised or not. -/
def history (s : System) : List Request → List Stage
  | [] => []
  | r :: requests => ⟨s, r, (serve s r).1, (serve s r).2⟩ :: history (serve s r).1 requests

/-- An empty policy file, no job and no rule. -/
def System.empty : System := ⟨some [], [], []⟩

theorem serve_of_mem_history {s : System} {requests : List Request} {stage : Stage}
    (hmem : stage ∈ history s requests) :
    serve stage.before stage.request = (stage.after, stage.result) := by
  induction requests generalizing s with
  | nil => exact absurd hmem List.not_mem_nil
  | cons r requests ih =>
    rcases List.mem_cons.mp hmem with heq | hrest
    · rw [heq]
    · exact ih hrest

/-- **In every run from an empty policy file, the firewall and the cron file follow the policy file after
an operation that returns exactly when it leaves a policy with a schedule or found no job.** -/
theorem follows_iff {requests : List Request} {stage : Stage}
    (hmem : stage ∈ history System.empty requests) (hreturns : stage.result = .ok ()) :
    Follows stage.request.host stage.after ↔ Rewrites stage.before stage.request.op := by
  have hserve := serve_of_mem_history hmem
  rw [hreturns] at hserve
  exact follows_of_completed hserve

/-! ### Jobs left behind -/

/-- A policy for Mondays from 8 to 17. -/
def mondayForm : Form := ⟨Form.browserFields "Mon" "08:00:00" "17:00:00", by decide⟩

def addition : Request := ⟨Host.plain, .update mondayForm none ['7']⟩

/-- The policy is deleted right after it was added. -/
def deletion : Stage :=
  let before := (serve System.empty addition).1
  let request := ⟨Host.plain, .delete ['7']⟩
  ⟨before, request, (serve before request).1, (serve before request).2⟩

theorem deletion_mem : deletion ∈ history System.empty [addition, deletion.request] :=
  List.mem_cons_of_mem _ List.mem_cons_self

theorem deletion_returns : deletion.result = .ok () := by decide +kernel

theorem follows_iff_deletion :
    Follows Host.plain deletion.after ↔ Rewrites deletion.before (.delete ['7']) :=
  follows_iff deletion_mem deletion_returns

/-- The cron file still holds the two jobs of the deleted policy. -/
theorem jobs_left_behind :
    ¬ ∀ (requests : List Request) (stage : Stage), stage ∈ history System.empty requests →
        stage.result = .ok () → Follows stage.request.host stage.after := by
  intro hfollows
  have hcron := (hfollows [addition, deletion.request] deletion deletion_mem deletion_returns).2
  have hjobs : deletion.after.cronFile ≠ schedule Host.plain 0 deletion.after.policies := by decide +kernel
  exact hjobs hcron

end Armore.Filtering
