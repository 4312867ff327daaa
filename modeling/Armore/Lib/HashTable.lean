import Mathlib.Data.List.Pairwise
import Mathlib.Data.Set.Basic

/-!
# Hash tables over a user-defined equality

The nodes of a chained hash table that keeps the hash code of each key: a key is found in the first node
whose code and whose key are equal to it, as the hash function and the equality of the program say. Nodes
with one code are in one bucket, so buckets do not appear, and the nodes may be reordered at any time.

What a program expects of such a table holds on a set of keys when the equality is an equivalence there
that the hash function respects.
-/

namespace Armore.Lib.HashTable

variable {K V : Type} (hash : K → Nat) (eq : K → K → Bool)

/-- The test of a lookup: the key that is looked for stands on the left. -/
def hits (key other : K) : Bool := hash other == hash key && eq key other

def find (nodes : List (K × V)) (key : K) : Option (K × V) := nodes.find? fun node => hits hash eq key node.1

/-- `table[key] = value;` -/
def assign (nodes : List (K × V)) (key : K) (value : V) : List (K × V) :=
  if (find hash eq nodes key).isSome then
    nodes.map fun node => if hits hash eq key node.1 then (node.1, value) else node
  else nodes ++ [(key, value)]

def erase (nodes : List (K × V)) (key : K) : List (K × V) := nodes.eraseP fun node => hits hash eq key node.1

/-- The tables that operations on keys of a set lead to. -/
inductive Reachable (keys : Set K) : List (K × V) → Prop
  | empty : Reachable keys []
  | assign {nodes : List (K × V)} {key : K} (value : V) : Reachable keys nodes → key ∈ keys →
      Reachable keys (assign hash eq nodes key value)
  | erase {nodes : List (K × V)} {key : K} : Reachable keys nodes → key ∈ keys →
      Reachable keys (erase hash eq nodes key)
  | reorder {nodes nodes' : List (K × V)} : Reachable keys nodes → nodes.Perm nodes' →
      Reachable keys nodes'

/-- The equality is an equivalence on the keys, and equal keys have equal hash codes. -/
structure LawfulOn (keys : Set K) : Prop where
  refl : ∀ a ∈ keys, eq a a = true
  symm : ∀ a ∈ keys, ∀ b ∈ keys, eq a b = true → eq b a = true
  trans : ∀ a ∈ keys, ∀ b ∈ keys, ∀ c ∈ keys, eq a b = true → eq b c = true → eq a c = true
  hash : ∀ a ∈ keys, ∀ b ∈ keys, eq a b = true → hash a = hash b

variable {hash eq} {keys : Set K}

theorem hits_of_find {nodes : List (K × V)} {key : K} {node : K × V}
    (hfind : find hash eq nodes key = some node) : hits hash eq key node.1 = true := by
  unfold find at hfind
  have htest := List.find?_some hfind
  exact htest

namespace LawfulOn

theorem hits_iff (h : LawfulOn hash eq keys) {key other : K} (hkey : key ∈ keys) (hother : other ∈ keys) :
    hits hash eq key other = true ↔ eq key other = true := by
  rw [hits, Bool.and_eq_true, beq_iff_eq, and_iff_right_iff_imp]
  intro heq
  exact (h.hash key hkey other hother heq).symm

end LawfulOn

/-- Two nodes with keys that are not equal either way round. -/
def Apart (eq : K → K → Bool) (node node' : K × V) : Prop := eq node.1 node'.1 = false ∧ eq node'.1 node.1 = false

theorem Apart.symm {node node' : K × V} (hapart : Apart eq node node') : Apart eq node' node :=
  ⟨hapart.2, hapart.1⟩

instance : Std.Symm (Apart (V := V) eq) := ⟨fun _ _ => Apart.symm⟩

/-- What every operation keeps: the keys are in the set, and no two of them are equal. -/
structure Distinct (eq : K → K → Bool) (keys : Set K) (nodes : List (K × V)) : Prop where
  mem : ∀ node ∈ nodes, node.1 ∈ keys
  apart : nodes.Pairwise (Apart eq)

theorem Distinct.assign (h : LawfulOn hash eq keys) {nodes : List (K × V)} (hnodes : Distinct eq keys nodes)
    {key : K} (hkey : key ∈ keys) (value : V) : Distinct eq keys (assign hash eq nodes key value) := by
  unfold HashTable.assign
  split
  · refine ⟨?_, ?_⟩
    · intro node hnode
      obtain ⟨old, hold, rfl⟩ := List.mem_map.mp hnode
      have hmem := hnodes.mem old hold
      split <;> exact hmem
    · refine List.pairwise_map.mpr (hnodes.apart.imp ?_)
      intro node node' hapart
      unfold Apart at hapart ⊢
      split <;> split <;> exact hapart
  · rename_i hnone
    rw [Bool.not_eq_true, Option.isSome_eq_false_iff, Option.isNone_iff_eq_none, find, List.find?_eq_none] at hnone
    have hother : ∀ node ∈ nodes, eq key node.1 = false := by
      intro node hnode
      rw [← Bool.not_eq_true, ← h.hits_iff hkey (hnodes.mem node hnode)]
      exact hnone node hnode
    refine ⟨?_, ?_⟩
    · intro node hnode
      rcases List.mem_append.mp hnode with hnode | hnode
      · exact hnodes.mem node hnode
      · rw [List.mem_singleton.mp hnode]
        exact hkey
    · rw [List.pairwise_append]
      refine ⟨hnodes.apart, List.pairwise_singleton _ _, ?_⟩
      intro node hnode last hlast
      rw [List.mem_singleton.mp hlast]
      refine ⟨?_, hother node hnode⟩
      rw [← Bool.not_eq_true]
      intro heq
      have hback := h.symm node.1 (hnodes.mem node hnode) key hkey heq
      rw [hother node hnode] at hback
      cases hback

theorem Distinct.sublist {nodes nodes' : List (K × V)} (hnodes : Distinct eq keys nodes)
    (hsublist : nodes'.Sublist nodes) : Distinct eq keys nodes' where
  mem := fun node hnode => hnodes.mem node (hsublist.mem hnode)
  apart := hnodes.apart.sublist hsublist

theorem Distinct.perm {nodes nodes' : List (K × V)} (hnodes : Distinct eq keys nodes)
    (hperm : nodes.Perm nodes') : Distinct eq keys nodes' where
  mem := fun node hnode => hnodes.mem node (hperm.mem_iff.mpr hnode)
  apart := (hperm.pairwise_iff Apart.symm).mp hnodes.apart

theorem Reachable.distinct (h : LawfulOn hash eq keys) {nodes : List (K × V)}
    (hreachable : Reachable hash eq keys nodes) : Distinct eq keys nodes := by
  induction hreachable with
  | empty => exact ⟨fun _ hnode => (List.not_mem_nil hnode).elim, .nil⟩
  | assign value _ hkey ih => exact ih.assign h hkey value
  | erase _ _ ih => exact ih.sublist List.eraseP_sublist
  | reorder _ hperm ih => exact ih.perm hperm

/-- **An entry is found under exactly the keys that are equal to its own.** -/
theorem Reachable.find_iff (h : LawfulOn hash eq keys) {nodes : List (K × V)}
    (hreachable : Reachable hash eq keys nodes) {node : K × V} (hnode : node ∈ nodes) {key : K}
    (hkey : key ∈ keys) : find hash eq nodes key = some node ↔ eq node.1 key = true := by
  have hdistinct := hreachable.distinct h
  have hmem := hdistinct.mem node hnode
  constructor
  · intro hfind
    exact h.symm key hkey node.1 hmem ((h.hits_iff hkey hmem).mp (hits_of_find hfind))
  · intro heq
    cases hfind : find hash eq nodes key with
    | none =>
        have hmiss := List.find?_eq_none.mp hfind node hnode
        exact absurd ((h.hits_iff hkey hmem).mpr (h.symm node.1 hmem key hkey heq)) hmiss
    | some found =>
        have hfound := List.mem_of_find?_eq_some hfind
        have hfoundMem := hdistinct.mem found hfound
        have hhits := (h.hits_iff hkey hfoundMem).mp (hits_of_find hfind)
        by_contra hne
        have hapart := hdistinct.apart.forall hnode hfound (fun hsame => hne (by rw [hsame]))
        have hequal := h.trans node.1 hmem key hkey found.1 hfoundMem heq hhits
        rw [hapart.1] at hequal
        cases hequal

end Armore.Lib.HashTable
