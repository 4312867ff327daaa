import Mathlib.Data.List.Forall2
import Mathlib.Tactic.Common

/-!
# Computations that may raise

`Except` as the result of a function that raises: what a sequence, a comprehension and a loop returned
says what each of their parts returned. `Outcome` is a postcondition for both ways a computation can end,
with a rule for sequences and one for loops. A `Statement` changes a state as well: what it has changed before
it raises stays, and what comes behind it is left out.
-/

namespace Armore.Lib

variable {ε α β : Type}

theorem bind_ok {x : Except ε α} {f : α → Except ε β} {r : β} :
    x >>= f = .ok r ↔ ∃ a, x = .ok a ∧ f a = .ok r := by
  cases x with
  | ok a =>
    constructor
    · intro h
      exact ⟨a, rfl, h⟩
    · intro ⟨a', hx, hf⟩
      rw [Except.ok.inj hx]
      exact hf
  | error e =>
    constructor
    · intro h
      exact nomatch h
    · intro ⟨a', hx, _⟩
      exact nomatch hx

/-- A comprehension returns when each of its elements does. -/
theorem mapM_ok {f : α → Except ε β} {xs : List α} {ys : List β} :
    xs.mapM f = .ok ys ↔ List.Forall₂ (fun x y => f x = .ok y) xs ys := by
  induction xs generalizing ys with
  | nil =>
    rw [List.mapM_nil, List.forall₂_nil_left_iff]
    constructor
    · intro h
      exact (Except.ok.inj h).symm
    · intro h
      rw [h]
      rfl
  | cons x xs ih =>
    rw [List.mapM_cons, bind_ok, List.forall₂_cons_left_iff]
    constructor
    · intro ⟨y, hx, hrest⟩
      obtain ⟨ys', hxs, hys⟩ := bind_ok.mp hrest
      exact ⟨y, ys', hx, ih.mp hxs, (Except.ok.inj hys).symm⟩
    · intro ⟨y, ys', hx, hxs, hys⟩
      exact ⟨y, hx, bind_ok.mpr ⟨ys', ih.mpr hxs, by rw [hys]; rfl⟩⟩

theorem mem_mapM_ok {f : α → Except ε β} {xs : List α} {ys : List β} (h : xs.mapM f = .ok ys) {y : β} :
    y ∈ ys ↔ ∃ x ∈ xs, f x = .ok y := by
  have hall := mapM_ok.mp h
  clear h
  induction hall with
  | nil => simp
  | cons hx _ ih =>
    constructor
    · intro hy
      rcases List.mem_cons.mp hy with heq | hmem
      · exact ⟨_, List.mem_cons_self, by rw [heq]; exact hx⟩
      · obtain ⟨x', hmem', hx'⟩ := ih.mp hmem
        exact ⟨x', List.mem_cons_of_mem _ hmem', hx'⟩
    · intro ⟨x', hmem, hx'⟩
      rcases List.mem_cons.mp hmem with heq | hmem
      · rw [heq, hx, Except.ok.injEq] at hx'
        exact hx' ▸ List.mem_cons_self
      · exact List.mem_cons_of_mem _ (ih.mpr ⟨x', hmem, hx'⟩)

theorem ok_of_mapM_ok {f : α → Except ε β} {xs : List α} {ys : List β} (h : xs.mapM f = .ok ys) {x : α}
    (hx : x ∈ xs) : ∃ y, f x = .ok y := by
  have hall := mapM_ok.mp h
  clear h
  induction hall with
  | nil => exact absurd hx List.not_mem_nil
  | cons hhead _ ih =>
    rcases List.mem_cons.mp hx with heq | hmem
    · exact ⟨_, heq ▸ hhead⟩
    · exact ih hmem

/-- A comprehension whose elements all return returns. -/
theorem exists_mapM_ok {f : α → Except ε β} {xs : List α} (h : ∀ x ∈ xs, ∃ y, f x = .ok y) :
    ∃ ys, xs.mapM f = .ok ys := by
  induction xs with
  | nil => exact ⟨[], rfl⟩
  | cons x xs ih =>
    obtain ⟨y, hy⟩ := h x List.mem_cons_self
    obtain ⟨ys, hys⟩ := ih fun x' hx' => h x' (List.mem_cons_of_mem x hx')
    exact ⟨y :: ys, mapM_ok.mpr (.cons hy (mapM_ok.mp hys))⟩

/-- A comprehension whose elements all return a value of their own. -/
theorem mapM_eq_map {f : α → Except ε β} {g : α → β} {xs : List α} (h : ∀ x ∈ xs, f x = .ok (g x)) :
    xs.mapM f = .ok (xs.map g) := by
  rw [mapM_ok, List.forall₂_map_right_iff, List.forall₂_same]
  exact h

/-- A loop that takes in what a function returns for each element. -/
theorem foldlM_ok {γ : Type} {f : α → Except ε β} {g : γ → β → γ} {xs : List α} {c c' : γ} :
    xs.foldlM (fun c x => do return g c (← f x)) c = .ok c' ↔ ∃ ys, xs.mapM f = .ok ys ∧ ys.foldl g c = c' := by
  induction xs generalizing c with
  | nil =>
    constructor
    · intro h
      exact ⟨[], rfl, Except.ok.inj h⟩
    · intro ⟨ys, hys, hfold⟩
      obtain rfl : [] = ys := Except.ok.inj hys
      exact congrArg Except.ok hfold
  | cons x xs ih =>
    rw [List.foldlM_cons, bind_ok]
    simp only [ih, mapM_ok, List.forall₂_cons_left_iff]
    constructor
    · intro ⟨c₁, hx, ys, hys, hfold⟩
      obtain ⟨y, hy, hc₁⟩ := bind_ok.mp hx
      obtain rfl : g c y = c₁ := Except.ok.inj hc₁
      exact ⟨y :: ys, ⟨y, ys, hy, hys, rfl⟩, hfold⟩
    · intro ⟨_, ⟨y, ys, hy, hys, rfl⟩, hfold⟩
      exact ⟨g c y, bind_ok.mpr ⟨y, hy, rfl⟩, ys, hys, hfold⟩

/-! ### Both ways to end -/

/-- A computation raises only what `E` allows and returns only what `Q` allows. -/
def Outcome (E : ε → Prop) (Q : α → Prop) : Except ε α → Prop
  | .ok a => Q a
  | .error e => E e

namespace Outcome

variable {E : ε → Prop}

theorem bind {Q : α → Prop} {R : β → Prop} {x : Except ε α} {f : α → Except ε β} (hx : Outcome E Q x)
    (hf : ∀ a, x = .ok a → Q a → Outcome E R (f a)) : Outcome E R (x >>= f) := by
  cases x with
  | ok a => exact hf a rfl hx
  | error e => exact hx

theorem imp {E' : ε → Prop} {Q Q' : α → Prop} {x : Except ε α} (hx : Outcome E Q x)
    (hE : ∀ e, E e → E' e) (hQ : ∀ a, x = .ok a → Q a → Q' a) : Outcome E' Q' x := by
  cases x with
  | ok a => exact hQ a rfl hx
  | error e => exact hE e hx

/-- What every round of a loop keeps. -/
theorem foldlM {P : β → Prop} {f : β → α → Except ε β} {xs : List α} {b : β} (hb : P b)
    (hstep : ∀ b, P b → ∀ a ∈ xs, Outcome E P (f b a)) : Outcome E P (xs.foldlM f b) := by
  induction xs generalizing b with
  | nil => exact hb
  | cons a xs ih =>
    rw [List.foldlM_cons]
    refine (hstep b hb a List.mem_cons_self).bind ?_
    intro b' _ hb'
    exact ih hb' fun b hb a ha => hstep b hb a (List.mem_cons_of_mem _ ha)

end Outcome

/-! ### Statements -/

/-- The state that a statement leaves, and how it ended. -/
def Statement (ε σ : Type) : Type := σ → σ × Except ε Unit

namespace Statement

variable {σ : Type}

/-- A statement that does not raise. -/
def effect (f : σ → σ) : Statement ε σ := fun s => (f s, .ok ())

def skip : Statement ε σ := effect id

/-- One statement behind another. -/
def seq (first second : Statement ε σ) : Statement ε σ := fun s =>
  match (first s).2 with
  | .ok _ => second (first s).1
  | .error _ => first s

def forEach (body : α → Statement ε σ) : List α → Statement ε σ
  | [] => skip
  | a :: as => (body a).seq (forEach body as)

theorem seq_of_ok {first second : Statement ε σ} {s : σ} (hok : (first s).2 = .ok ()) :
    first.seq second s = second (first s).1 := by
  rw [seq, hok]

theorem seq_of_error {first second : Statement ε σ} {s : σ} {e : ε} (herror : (first s).2 = .error e) :
    first.seq second s = first s := by
  rw [seq, herror]

end Statement

/-! ### Division -/

/-- The runtime error of a division. -/
inductive ArithmeticError
  | divisionByZero
  deriving DecidableEq

section

variable {K : Type} [Div K] [Zero K] [DecidableEq K]

/-- A division that is checked. -/
def divide (a b : K) : Except ArithmeticError K := if b = 0 then .error .divisionByZero else .ok (a / b)

theorem divide_ok {a b : K} (hb : b ≠ 0) : divide a b = .ok (a / b) := by
  rw [divide, if_neg hb]

theorem divide_zero (a : K) {b : K} (hb : b = 0) : divide a b = .error .divisionByZero := by
  rw [divide, if_pos hb]

end

end Armore.Lib
