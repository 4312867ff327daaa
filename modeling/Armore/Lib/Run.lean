import Mathlib.Data.List.Basic

/-!
# Runs of a labelled step relation

A system is a step relation: in state `s`, under label `a`, the system may move to `s'`. A run is any
finite sequence of such steps, and what a development wants to know is what holds at the end of every
run: an invariant kept by each step does, and the invariant may speak of the labels of the run so far. A
run whose steps all meet a side condition is a run of the restricted relation.
-/

namespace Armore.Lib

variable {σ α : Type*}

/-- The finite runs from `init`, with the labels of their steps in the order they were taken. -/
inductive Run (step : σ → α → σ → Prop) (init : σ) : List α → σ → Prop
  | nil : Run step init [] init
  | snoc {labels : List α} {s s' : σ} {a : α} :
      Run step init labels s → step s a s' → Run step init (labels ++ [a]) s'

/-- The steps that meet a condition on the state before them and on their label. -/
def Restrict (step : σ → α → σ → Prop) (cond : σ → α → Prop) (s : σ) (a : α) (s' : σ) : Prop :=
  step s a s' ∧ cond s a

namespace Run

variable {step : σ → α → σ → Prop} {init : σ}

/-- What holds at the start and is kept by every step holds after every run. -/
theorem invariant (inv : σ → Prop) (hinit : inv init)
    (hstep : ∀ s a s', inv s → step s a s' → inv s') {labels : List α} {s : σ}
    (hrun : Run step init labels s) : inv s := by
  induction hrun with
  | nil => exact hinit
  | snoc _ hlast ih => exact hstep _ _ _ ih hlast

/-- The invariant may mention the labels of the run so far. -/
theorem history_invariant (inv : List α → σ → Prop) (hinit : inv [] init)
    (hstep : ∀ labels s a s', Run step init labels s → inv labels s → step s a s' →
      inv (labels ++ [a]) s')
    {labels : List α} {s : σ} (hrun : Run step init labels s) : inv labels s := by
  induction hrun with
  | nil => exact hinit
  | snoc hbefore hlast ih => exact hstep _ _ _ _ hbefore ih hlast

theorem single {s : σ} {a : α} (hstep : step init a s) : Run step init [a] s :=
  Run.snoc .nil hstep

theorem of_single {s : σ} {a : α} (hrun : Run step init [a] s) : step init a s := by
  generalize hlabels : [a] = labels at hrun
  cases hrun with
  | nil => cases hlabels
  | @snoc before _ _ last hbefore hlast =>
      have hsplit : [] ++ [a] = before ++ [last] := hlabels
      obtain ⟨hnil, hlabel⟩ := List.append_inj' hsplit rfl
      cases hlabel
      generalize before = labels at hnil hbefore
      cases hbefore with
      | nil => exact hlast
      | snoc => simp at hnil

/-- A run whose steps meet a condition is a run. -/
theorem forget {cond : σ → α → Prop} {labels : List α} {s : σ}
    (hrun : Run (Restrict step cond) init labels s) : Run step init labels s := by
  induction hrun with
  | nil => exact .nil
  | snoc _ hlast ih => exact ih.snoc hlast.1

/-- Runs one after the other. -/
theorem trans {labels labels' : List α} {mid s : σ} (hfirst : Run step init labels mid)
    (hsecond : Run step mid labels' s) : Run step init (labels ++ labels') s := by
  induction hsecond with
  | nil =>
      rw [List.append_nil]
      exact hfirst
  | snoc _ hlast ih =>
      rw [← List.append_assoc]
      exact ih.snoc hlast

/-- A run stops at the state reached after its first labels and goes on from there. -/
theorem split {labels labels' : List α} {s : σ} (hrun : Run step init (labels ++ labels') s) :
    ∃ mid, Run step init labels mid ∧ Run step mid labels' s := by
  generalize hall : labels ++ labels' = all at hrun
  induction hrun generalizing labels' with
  | nil =>
      obtain ⟨rfl, rfl⟩ := List.append_eq_nil_iff.mp hall
      exact ⟨init, .nil, .nil⟩
  | @snoc before s s' a hbefore hlast ih =>
      rcases List.eq_nil_or_concat labels' with rfl | ⟨front, last, rfl⟩
      · rw [List.append_nil] at hall
        subst hall
        exact ⟨s', hbefore.snoc hlast, .nil⟩
      · rw [List.concat_eq_append, ← List.append_assoc] at hall
        obtain ⟨hfront, hlabel⟩ := List.append_inj' hall rfl
        obtain ⟨mid, hfirst, hsecond⟩ := ih hfront
        rw [List.cons.injEq] at hlabel
        rw [hlabel.1, List.concat_eq_append]
        exact ⟨mid, hfirst, hsecond.snoc hlast⟩

/-- The step a label of a run stands for. -/
theorem at_step {before after : List α} {a : α} {s : σ} (hrun : Run step init (before ++ a :: after) s) :
    ∃ mid mid', Run step init before mid ∧ step mid a mid' := by
  obtain ⟨mid, hbefore, hafter⟩ := hrun.split
  have hfirst : Run step mid ([a] ++ after) s := hafter
  obtain ⟨mid', hstep, _⟩ := hfirst.split
  exact ⟨mid, mid', hbefore, of_single hstep⟩

/-- What a queue takes in and gives out over a run, where each step accounts for its own part. -/
theorem conserve {β : Type*} (inv : σ → Prop) (held : σ → List β) (into out : α → List β)
    (hinit : inv init)
    (hstep : ∀ s a s', inv s → step s a s' → inv s' ∧ held s ++ into a = out a ++ held s')
    {labels : List α} {s : σ} (hrun : Run step init labels s) :
    inv s ∧ held init ++ labels.flatMap into = labels.flatMap out ++ held s := by
  induction hrun with
  | nil => exact ⟨hinit, by rw [List.flatMap_nil, List.flatMap_nil, List.append_nil, List.nil_append]⟩
  | snoc _ hlast ih =>
      obtain ⟨hinv, hheld⟩ := ih
      obtain ⟨hinv', hlast⟩ := hstep _ _ _ hinv hlast
      refine ⟨hinv', ?_⟩
      rw [List.flatMap_append, List.flatMap_singleton, ← List.append_assoc, hheld, List.append_assoc, hlast,
        ← List.append_assoc, List.flatMap_append, List.flatMap_singleton]

end Run

end Armore.Lib
