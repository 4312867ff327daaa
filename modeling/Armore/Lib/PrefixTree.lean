import Mathlib.Data.List.Nodup
import Mathlib.Tactic.Common

/-!
# Dictionaries of dictionaries

A dictionary lists its keys in the order they came. Where its values are dictionaries again, a node is told
by its path, the labels of the keys from the top. `Grows` says of an update that it adds the prefixes of one
path and nothing else; it goes up from the values to the dictionary (`Grows.enter`), and over a run the nodes
are the prefixes of all the paths added (`Grows.foldl`).
-/

namespace Armore.Lib

/-- A dictionary in the order in which its keys came. -/
abbrev Dict (K V : Type) := List (K × V)

namespace Dict

variable {K V L : Type}

/-- The paths of an entry: its own and those below. -/
def entryPaths (label : K → L) (below : V → List (List L)) (entry : K × V) : List (List L) :=
  [label entry.1] :: (below entry.2).map (label entry.1 :: ·)

def paths (label : K → L) (below : V → List (List L)) (d : Dict K V) : List (List L) :=
  d.flatMap (entryPaths label below)

/-- Distinct keys, and values that are good themselves. -/
structure Good (P : V → Prop) (d : Dict K V) : Prop where
  nodup : (d.map Prod.fst).Nodup
  values : ∀ entry ∈ d, P entry.2

theorem good_nil (P : V → Prop) : Good P ([] : Dict K V) where
  nodup := List.nodup_nil
  values := by simp

variable {P : V → Prop} {label : K → L} {below : V → List (List L)} {f : V → V} {key : K} {start : V} {d : Dict K V}

/-! ### The paths -/

theorem mem_paths {q : List L} : q ∈ paths label below d ↔ ∃ entry ∈ d, q ∈ entryPaths label below entry :=
  List.mem_flatMap

theorem mem_entryPaths {entry : K × V} {q : List L} :
    q ∈ entryPaths label below entry ↔ q = [label entry.1] ∨ ∃ rest ∈ below entry.2, q = label entry.1 :: rest := by
  rw [entryPaths, List.mem_cons, List.mem_map]
  simp only [eq_comm]

theorem paths_cons (entry : K × V) (d : Dict K V) :
    paths label below (entry :: d) = entryPaths label below entry ++ paths label below d :=
  List.flatMap_cons

theorem nil_notMem_paths : [] ∉ paths label below d := by
  intro hmem
  obtain ⟨entry, _, hentry⟩ := mem_paths.mp hmem
  rcases mem_entryPaths.mp hentry with h | ⟨_, _, h⟩ <;> exact nomatch h

/-- A path of more than one label goes on below one of the entries. -/
theorem mem_below_of_mem_paths {a b : L} {q : List L} (h : a :: b :: q ∈ paths label below d) :
    ∃ v, b :: q ∈ below v := by
  obtain ⟨entry, _, hentry⟩ := mem_paths.mp h
  rcases mem_entryPaths.mp hentry with h | ⟨rest, hrest, h⟩
  · exact nomatch (List.cons.inj h).2
  · rw [(List.cons.inj h).2]
    exact ⟨entry.2, hrest⟩

theorem exists_label_of_mem_paths {a : L} {q : List L} (h : a :: q ∈ paths label below d) : ∃ k, a = label k := by
  obtain ⟨entry, _, hentry⟩ := mem_paths.mp h
  rcases mem_entryPaths.mp hentry with h | ⟨_, _, h⟩ <;> exact ⟨entry.1, (List.cons.inj h).1⟩

/-! ### Each node once -/

/-- No path comes twice, and none is empty. -/
structure Once (P : V → Prop) (below : V → List (List L)) : Prop where
  nodup : ∀ v, P v → (below v).Nodup
  nil_notMem : ∀ v, [] ∉ below v

theorem Once.entryPaths (h : Once P below) (entry : K × V) (hentry : P entry.2) :
    (entryPaths label below entry).Nodup := by
  refine List.nodup_cons.mpr ⟨?_, (h.nodup entry.2 hentry).map fun _ _ heq => (List.cons.inj heq).2⟩
  intro hmem
  obtain ⟨q, hq, heq⟩ := List.mem_map.mp hmem
  rw [(List.cons.inj heq).2] at hq
  exact h.nil_notMem entry.2 hq

theorem Once.paths (h : Once P below) (hlabel : Function.Injective label) : Once (Good P) (paths label below) where
  nodup d hd := by
    induction d with
    | nil => exact List.nodup_nil
    | cons entry d ih =>
        obtain ⟨hnew, hnodup⟩ := List.nodup_cons.mp hd.nodup
        obtain ⟨hentry, hvalues⟩ := List.forall_mem_cons.mp hd.values
        rw [paths_cons]
        refine (h.entryPaths entry hentry).append (ih ⟨hnodup, hvalues⟩) ?_
        -- the first label of a path tells its entry
        intro q hfirst hrest
        obtain ⟨other, hother, hq⟩ := mem_paths.mp hrest
        have hhead : q.head? = some (label entry.1) ∧ q.head? = some (label other.1) := by
          constructor
          · rcases mem_entryPaths.mp hfirst with rfl | ⟨_, _, rfl⟩ <;> rfl
          · rcases mem_entryPaths.mp hq with rfl | ⟨_, _, rfl⟩ <;> rfl
        have hsame : entry.1 = other.1 := hlabel (Option.some.inj (hhead.1.symm.trans hhead.2))
        exact hnew (hsame ▸ List.mem_map_of_mem hother)
  nil_notMem _ := nil_notMem_paths

/-! ### Growing -/

/-- An update keeps good values good and adds the prefixes of a path. -/
structure Grows (P : V → Prop) (below : V → List (List L)) (f : V → V) (path : List L) : Prop where
  keeps : ∀ v, P v → P (f v)
  mem : ∀ v, P v → ∀ q, q ∈ below (f v) ↔ q ∈ below v ∨ q ≠ [] ∧ q <+: path

theorem prefix_cons_iff {q path : List L} {l : L} :
    q ≠ [] ∧ q <+: l :: path ↔ q = [l] ∨ ∃ rest, q = l :: rest ∧ rest ≠ [] ∧ rest <+: path := by
  cases q with
  | nil => simp
  | cons a rest =>
      rw [List.cons_prefix_cons]
      by_cases hrest : rest = []
      · simp [hrest]
      · simp [hrest]

theorem Grows.id : Grows P below id [] where
  keeps _ h := h
  mem v _ q := by simp

theorem Grows.mem_entryPaths {path : List L} (h : Grows P below f path) (k : K) {v : V} (hv : P v) (q : List L) :
    q ∈ entryPaths label below (k, f v)
      ↔ q ∈ entryPaths label below (k, v) ∨ q ≠ [] ∧ q <+: label k :: path := by
  rw [Dict.mem_entryPaths, Dict.mem_entryPaths, prefix_cons_iff]
  constructor
  · rintro (rfl | ⟨rest, hrest, rfl⟩)
    · exact .inl (.inl rfl)
    · rcases (h.mem v hv rest).mp hrest with hold | hnew
      · exact .inl (.inr ⟨rest, hold, rfl⟩)
      · exact .inr (.inr ⟨rest, rfl, hnew⟩)
  · rintro ((rfl | ⟨rest, hrest, rfl⟩) | (rfl | ⟨rest, rfl, hrest⟩))
    · exact .inl rfl
    · exact .inr ⟨rest, (h.mem v hv rest).mpr (.inl hrest), rfl⟩
    · exact .inl rfl
    · exact .inr ⟨rest, (h.mem v hv rest).mpr (.inr hrest), rfl⟩

/-- **A run adds the prefixes of all its paths.** -/
theorem Grows.foldl {α : Type} {step : V → α → V} {path : α → List L} {xs : List α}
    (h : ∀ x ∈ xs, Grows P below (fun v => step v x) (path x)) {v : V} (hv : P v) :
    P (xs.foldl step v) ∧
      ∀ q, q ∈ below (xs.foldl step v) ↔ q ∈ below v ∨ q ≠ [] ∧ ∃ x ∈ xs, q <+: path x := by
  induction xs generalizing v with
  | nil => exact ⟨hv, by simp⟩
  | cons x xs ih =>
      obtain ⟨hx, hxs⟩ := List.forall_mem_cons.mp h
      obtain ⟨hkeeps, hmem⟩ := ih hxs (hx.keeps v hv)
      refine ⟨hkeeps, fun q => ?_⟩
      rw [List.foldl_cons, hmem, hx.mem v hv, List.exists_mem_cons_iff, and_or_left, or_assoc]

/-! ### Entering a key -/

variable [DecidableEq K]

/-- Put `start` under a key that is not there, and then change what is under it. -/
def enter (key : K) (start : V) (f : V → V) : Dict K V → Dict K V
  | [] => [(key, f start)]
  | entry :: d => if entry.1 = key then (entry.1, f entry.2) :: d else entry :: enter key start f d

theorem mem_keys_enter {k : K} : k ∈ (enter key start f d).map Prod.fst ↔ k = key ∨ k ∈ d.map Prod.fst := by
  induction d with
  | nil => simp [enter]
  | cons entry d ih =>
      rw [enter]
      by_cases hkey : entry.1 = key
      · rw [if_pos hkey, List.map_cons, List.map_cons, List.mem_cons, hkey]
        exact or_self_left.symm
      · rw [if_neg hkey, List.map_cons, List.map_cons, List.mem_cons, List.mem_cons, ih]
        exact or_left_comm

theorem Good.enter (h : Good P d) (hstart : P start) (hf : ∀ v, P v → P (f v)) : Good P (enter key start f d) := by
  induction d with
  | nil => exact ⟨List.nodup_singleton key, fun entry hentry => List.mem_singleton.mp hentry ▸ hf start hstart⟩
  | cons entry d ih =>
      obtain ⟨hnew, hnodup⟩ := List.nodup_cons.mp h.nodup
      obtain ⟨hentry, hvalues⟩ := List.forall_mem_cons.mp h.values
      rw [Dict.enter]
      by_cases hkey : entry.1 = key
      · rw [if_pos hkey]
        exact ⟨h.nodup, List.forall_mem_cons.mpr ⟨hf entry.2 hentry, hvalues⟩⟩
      · have hrest := ih ⟨hnodup, hvalues⟩
        rw [if_neg hkey]
        refine ⟨List.nodup_cons.mpr ⟨?_, hrest.nodup⟩, List.forall_mem_cons.mpr ⟨hentry, hrest.values⟩⟩
        rw [mem_keys_enter, not_or]
        exact ⟨hkey, hnew⟩

/-- **Growing goes up**: what the values grow by, the dictionary grows by under the label of the key. -/
theorem Grows.enter {path : List L} (h : Grows P below f path) (hstart : P start) (hempty : below start = []) :
    Grows (Good P) (paths label below) (enter key start f) (label key :: path) where
  keeps d hd := hd.enter hstart h.keeps
  mem d hd q := by
    induction d with
    | nil =>
        have hnew : q ∈ entryPaths label below (key, f start) ↔ _ := h.mem_entryPaths key hstart q
        rw [Dict.enter, paths_cons, paths, List.flatMap_nil, List.append_nil, hnew, Dict.mem_entryPaths, hempty,
          prefix_cons_iff]
        simp only [List.not_mem_nil, false_and, exists_false, or_false, false_or]
        exact or_self_left
    | cons entry d ih =>
        obtain ⟨_, hnodup⟩ := List.nodup_cons.mp hd.nodup
        obtain ⟨hentry, hvalues⟩ := List.forall_mem_cons.mp hd.values
        rw [Dict.enter]
        by_cases hkey : entry.1 = key
        · subst hkey
          rw [if_pos rfl, paths_cons, paths_cons, List.mem_append, List.mem_append,
            h.mem_entryPaths entry.1 hentry q]
          exact or_right_comm
        · rw [if_neg hkey, paths_cons, paths_cons, List.mem_append, List.mem_append, ih ⟨hnodup, hvalues⟩, or_assoc]

end Dict

end Armore.Lib
