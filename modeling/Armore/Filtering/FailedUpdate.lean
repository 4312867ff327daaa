import Armore.Filtering.Protection

/-!
# An operation that raises

Nothing is put back when an operation raises. Until the policy file is written only its header can have
been added; after that the firewall is flushed and filled again line by line, so what a raise leaves is the
new file with the protection of the lines before the one that raised.
-/

namespace Armore.Filtering

open Armore.Lib Armore.Lib.Text

/-- The system an operation that raises leaves. -/
inductive Abandoned (s : System) (r : Request) (s' : System) : Prop
  | unwritten :
      (∀ file, edited s r.op ≠ .ok file) →
      s' = s ∨ s.policyFile.getD [] = [] ∧ s' = { s with policyFile := some header } → Abandoned s r s'
  | unflushed {file : Text} :
      edited s r.op = .ok file → r.host.runs "ipfw -q flush".toList = false →
      s' = { s with policyFile := some file } → Abandoned s r s'
  | stopped {file : Text} {done rest : List Text} {failing : Text} :
      edited s r.op = .ok file → bodyLines file = done ++ failing :: rest →
      (∃ cron ruleNum e, parseLines r.host s' cron ruleNum [failing] = (s', .error e)) →
      s'.policyFile = some file → s'.firewall = rules r.host 0 (activePolicies done) →
      s'.cronFile = (if (activePolicies done).any Policy.scheduled then
        schedule r.host 0 (activePolicies done) else s.cronFile) → Abandoned s r s'

/-- The preparation adds a header at most. -/
theorem prepared_cases (s : System) (op : Op) :
    prepared s op = s
      ∨ s.policyFile.getD [] = [] ∧ prepared s op = { s with policyFile := some header } := by
  cases op with
  | delete num => exact .inl rfl
  | update formData num newId =>
    rw [prepared, verifyPolicyFileExists]
    split
    · rename_i hnone
      exact .inr ⟨by rw [hnone]; rfl, rfl⟩
    · rename_i file hsome
      split
      · rename_i hempty
        exact .inr ⟨by rw [hsome]; exact eq_nil_of_readlines hempty, rfl⟩
      · exact .inl rfl

/-- **An operation that raises leaves the old policy file, up to a header, with the old firewall and cron
file; or the new file with the old ones when the flush failed; or else the new file with the protection of
the lines before the one that raised.** -/
theorem abandoned_of_raises {s s' : System} {r : Request} {e : Exn}
    (hserve : serve s r = (s', .error e)) : Abandoned s r s' := by
  rw [serve_eq] at hserve
  cases hedited : edited s r.op with
  | error e' =>
    rw [hedited, Prod.mk.injEq] at hserve
    apply Abandoned.unwritten
    · intro file hfile
      rw [hedited] at hfile
      exact nomatch hfile
    · rw [← hserve.1]
      exact prepared_cases s r.op
  | ok file =>
    rw [hedited] at hserve
    change parseIPFW r.host { s with policyFile := some file } = _ at hserve
    rw [parseIPFW_eq r.host rfl] at hserve
    cases hflush : cmd r.host "ipfw -q flush".toList with
    | error e' =>
      rw [hflush, Prod.mk.injEq] at hserve
      apply Abandoned.unflushed hedited _ hserve.1.symm
      rw [cmd] at hflush
      split at hflush
      · exact nomatch hflush
      · rename_i hruns
        exact eq_false_of_ne_true hruns
    | ok _ =>
      rw [hflush] at hserve
      obtain ⟨done, failing, rest, hlines, hdone, cron, ruleNum, hfailing⟩ := parseLines_error hserve
      obtain ⟨hfile, hfirewall, hcron⟩ := parseLines_ok hdone
      exact .stopped hedited hlines ⟨cron, ruleNum, e, hfailing⟩ hfile hfirewall hcron

/-! ### A rule that is lost -/

/-- A policy for every day with the periods left empty, which is always on. -/
def dailyForm : Form := ⟨Form.browserFields "Daily" "" "", by decide⟩

/-- The box for the days from Monday to Friday, whose name `parseTime` does not know. -/
def weekdayForm : Form := ⟨Form.browserFields "Weekday" "" "", Form.nodup_weekday⟩

/-- The system with the always-on policy. -/
def alwaysOn : System := (serve ⟨none, [], []⟩ ⟨Host.plain, .update dailyForm none ['7']⟩).1

/-- The policy is edited. -/
def editToWeekday : Request := ⟨Host.plain, .update weekdayForm (some ['7']) ['8']⟩

theorem editToWeekday_raises : (serve alwaysOn editToWeekday).2 = .error .keyError := by
  decide +kernel

theorem serve_editToWeekday :
    serve alwaysOn editToWeekday = ((serve alwaysOn editToWeekday).1, .error .keyError) :=
  (Prod.eta _).symm.trans (by rw [editToWeekday_raises])

theorem abandoned_of_raises_editToWeekday :
    Abandoned alwaysOn editToWeekday (serve alwaysOn editToWeekday).1 :=
  abandoned_of_raises serve_editToWeekday

/-- The rule of the policy is gone, and the file holds the line that raises. -/
theorem protection_lost :
    ¬ ∀ (s s' : System) (r : Request) (e : Exn), serve s r = (s', .error e) → s' = s := by
  intro hunchanged
  have hsame := hunchanged alwaysOn (serve alwaysOn editToWeekday).1 editToWeekday .keyError
    serve_editToWeekday
  have hlost : (serve alwaysOn editToWeekday).1.firewall ≠ alwaysOn.firewall := by decide +kernel
  exact hlost (congrArg System.firewall hsame)

end Armore.Filtering
