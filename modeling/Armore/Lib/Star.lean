import Armore.Lib.Run
import Mathlib.Data.List.Count
import Mathlib.Data.List.Nodup
import Mathlib.Data.List.Perm.Basic
import Mathlib.Tactic.Common

/-!
# Messages through a hub

Spokes talk to each other through a hub. A message starts at a spoke, from where it goes to the hub, or at
the hub; the hub passes it to spokes, to no spoke twice, and a spoke keeps what it gets. Messages wait or
travel in no order and may be lost. Every message has a number of its own, given out when it starts.

Nothing circulates in such a network: the hub gets a message at most once, and so does every spoke.
-/

namespace Armore.Lib

/-- How many messages have started, those on the way to the hub, and those on the way to a spoke. -/
structure Star (ι : Type*) where
  started : Nat
  up : List Nat
  down : List (ι × Nat)

namespace Star

variable {ι : Type*}

inductive Act (ι : Type*)
  | launch
  | spread (spokes : List ι)
  | relay (message : Nat) (spokes : List ι)
  | deliver (spoke : ι) (message : Nat)
  | lose

inductive Step : Star ι → Act ι → Star ι → Prop
  | launch (s : Star ι) : Step s .launch ⟨s.started + 1, s.up ++ [s.started], s.down⟩
  | spread (s : Star ι) {spokes : List ι} : spokes.Nodup →
      Step s (.spread spokes) ⟨s.started + 1, s.up, s.down ++ spokes.map fun i => (i, s.started)⟩
  | relay {s : Star ι} {message : Nat} {up : List Nat} {spokes : List ι} : s.up.Perm (message :: up) →
      spokes.Nodup →
      Step s (.relay message spokes) ⟨s.started, up, s.down ++ spokes.map fun i => (i, message)⟩
  | deliver {s : Star ι} {spoke : ι} {message : Nat} {down : List (ι × Nat)} :
      s.down.Perm ((spoke, message) :: down) → Step s (.deliver spoke message) ⟨s.started, s.up, down⟩
  | lose {s : Star ι} {up : List Nat} {down : List (ι × Nat)} : up.Sublist s.up → down.Sublist s.down →
      Step s .lose ⟨s.started, up, down⟩

/-- Nothing has started. -/
def start : Star ι := ⟨0, [], []⟩

abbrev Runs : List (Act ι) → Star ι → Prop := Run Step start

/-- The messages the hub got. -/
def relays (acts : List (Act ι)) : List Nat :=
  acts.filterMap fun
    | .relay message _ => some message
    | .launch | .spread _ | .deliver _ _ | .lose => none

/-- The messages the spokes got. -/
def deliveries (acts : List (Act ι)) : List (ι × Nat) :=
  acts.filterMap fun
    | .deliver spoke message => some (spoke, message)
    | .launch | .spread _ | .relay _ _ | .lose => none

theorem relays_append (acts acts' : List (Act ι)) : relays (acts ++ acts') = relays acts ++ relays acts' :=
  List.filterMap_append

theorem deliveries_append (acts acts' : List (Act ι)) :
    deliveries (acts ++ acts') = deliveries acts ++ deliveries acts' :=
  List.filterMap_append

variable [DecidableEq ι]

/-- Where a message can be: with the hub once, with a spoke once, with no spoke before the hub had it, and
nowhere before it started. -/
structure Once (acts : List (Act ι)) (s : Star ι) : Prop where
  hub : ∀ message, s.up.count message + (relays acts).count message ≤ 1
  spoke : ∀ i message, s.down.count (i, message) + (deliveries acts).count (i, message) ≤ 1
  ahead : ∀ i message, 0 < s.up.count message →
    s.down.count (i, message) + (deliveries acts).count (i, message) = 0
  unstarted : ∀ message, s.started ≤ message → s.up.count message + (relays acts).count message = 0 ∧
    ∀ i, s.down.count (i, message) + (deliveries acts).count (i, message) = 0

/-- A message goes to a spoke once, and only to the spokes listed. -/
theorem count_spokes {spokes : List ι} (hnodup : spokes.Nodup) (i : ι) (message message' : Nat) :
    (spokes.map fun j => (j, message')).count (i, message) ≤ 1 ∧
      (message ≠ message' → (spokes.map fun j => (j, message')).count (i, message) = 0) := by
  refine ⟨?_, fun hne => ?_⟩
  · exact List.nodup_iff_count_le_one.mp (hnodup.map fun _ _ heq => (Prod.mk.inj heq).1) _
  · refine List.count_eq_zero.mpr fun hmem => ?_
    obtain ⟨j, -, heq⟩ := List.mem_map.mp hmem
    exact hne (Prod.mk.inj heq).2.symm

theorem count_singleton_of_ne {message message' : Nat} (hne : message ≠ message') :
    [message'].count message = 0 :=
  List.count_eq_zero.mpr fun hmem => hne (List.mem_singleton.mp hmem)

/-- Starting at a spoke. -/
theorem Once.launch {acts : List (Act ι)} {s : Star ι} (hs : Once acts s) :
    Once (acts ++ [.launch]) ⟨s.started + 1, s.up ++ [s.started], s.down⟩ := by
  have hrelays : relays (acts ++ [.launch]) = relays acts := by
    rw [relays_append]
    exact List.append_nil _
  have hdeliveries : deliveries (acts ++ [.launch]) = deliveries acts := by
    rw [deliveries_append]
    exact List.append_nil _
  have hup : ∀ message, (s.up ++ [s.started]).count message + (relays acts).count message
      = s.up.count message + (relays acts).count message + [s.started].count message := by
    intro message
    rw [List.count_append]
    omega
  have hfresh := hs.unstarted s.started (Nat.le_refl _)
  constructor
  · intro message
    rw [hrelays, hup]
    rcases eq_or_ne message s.started with rfl | hne
    · have hnone := hfresh.1
      have hone : [s.started].count s.started = 1 := List.count_singleton_self
      omega
    · rw [count_singleton_of_ne hne]
      exact hs.hub message
  · intro i message
    rw [hdeliveries]
    exact hs.spoke i message
  · intro i message hpos
    rw [hdeliveries]
    rcases eq_or_ne message s.started with rfl | hne
    · exact hfresh.2 i
    · rw [List.count_append, count_singleton_of_ne hne] at hpos
      exact hs.ahead i message hpos
  · intro message hle
    have hne : message ≠ s.started := Nat.ne_of_gt hle
    rw [hrelays, hdeliveries, hup, count_singleton_of_ne hne]
    exact hs.unstarted message (Nat.le_of_succ_le hle)

/-- Starting at the hub. -/
theorem Once.spread {acts : List (Act ι)} {s : Star ι} (hs : Once acts s) {spokes : List ι}
    (hnodup : spokes.Nodup) : Once (acts ++ [.spread spokes])
      ⟨s.started + 1, s.up, s.down ++ spokes.map fun i => (i, s.started)⟩ := by
  have hrelays : relays (acts ++ [.spread spokes]) = relays acts := by
    rw [relays_append]
    exact List.append_nil _
  have hdeliveries : deliveries (acts ++ [.spread spokes]) = deliveries acts := by
    rw [deliveries_append]
    exact List.append_nil _
  have hfresh := hs.unstarted s.started (Nat.le_refl _)
  constructor
  · intro message
    rw [hrelays]
    exact hs.hub message
  · intro i message
    have hspokes := count_spokes hnodup i message s.started
    have hold := hs.spoke i message
    rw [hdeliveries, List.count_append]
    rcases eq_or_ne message s.started with rfl | hne
    · have hnone := hfresh.2 i
      omega
    · have hzero := hspokes.2 hne
      omega
  · intro i message hpos
    have hold := hs.ahead i message hpos
    rw [hdeliveries, List.count_append]
    rcases eq_or_ne message s.started with rfl | hne
    · have hnone := hfresh.1
      dsimp only at hpos
      omega
    · have hzero := (count_spokes hnodup i message s.started).2 hne
      omega
  · intro message hle
    have hne : message ≠ s.started := Nat.ne_of_gt hle
    have hold := hs.unstarted message (Nat.le_of_succ_le hle)
    rw [hrelays, hdeliveries]
    refine ⟨hold.1, fun i => ?_⟩
    have hzero := (count_spokes hnodup i message s.started).2 hne
    have hi := hold.2 i
    rw [List.count_append]
    omega

/-- Passing on: the spokes get what the hub no longer has. -/
theorem Once.relay {acts : List (Act ι)} {s : Star ι} (hs : Once acts s) {relayed : Nat} {up : List Nat}
    {spokes : List ι} (hperm : s.up.Perm (relayed :: up)) (hnodup : spokes.Nodup) :
    Once (acts ++ [.relay relayed spokes])
      ⟨s.started, up, s.down ++ spokes.map fun i => (i, relayed)⟩ := by
  have hrelays : ∀ message, (relays (acts ++ [.relay relayed spokes])).count message
      = (relays acts).count message + [relayed].count message := by
    intro message
    rw [relays_append, List.count_append]
    rfl
  have hdeliveries : deliveries (acts ++ [.relay relayed spokes]) = deliveries acts := by
    rw [deliveries_append]
    exact List.append_nil _
  have hup : ∀ message, s.up.count message = [relayed].count message + up.count message := by
    intro message
    rw [hperm.count_eq message, ← List.singleton_append, List.count_append]
  have hself : [relayed].count relayed = 1 := List.count_singleton_self
  have hnone : ∀ i, s.down.count (i, relayed) + (deliveries acts).count (i, relayed) = 0 := by
    intro i
    exact hs.ahead i relayed (by rw [hup, hself]; omega)
  constructor
  · intro message
    have hold := hs.hub message
    rw [hup] at hold
    rw [hrelays]
    dsimp only
    omega
  · intro i message
    have hspokes := count_spokes hnodup i message relayed
    have hold := hs.spoke i message
    rw [hdeliveries, List.count_append]
    rcases eq_or_ne message relayed with rfl | hne
    · have hi := hnone i
      omega
    · have hzero := hspokes.2 hne
      omega
  · intro i message hpos
    have hold := hs.hub message
    rw [hup] at hold
    dsimp only at hpos
    have hne : message ≠ relayed := by
      rintro rfl
      rw [hself] at hold
      omega
    have hbefore := hs.ahead i message (by rw [hup]; omega)
    have hzero := (count_spokes hnodup i message relayed).2 hne
    rw [hdeliveries, List.count_append]
    omega
  · intro message hle
    have hold := hs.unstarted message hle
    rw [hup] at hold
    have hne : message ≠ relayed := by
      rintro rfl
      rw [hself] at hold
      omega
    rw [hrelays, hdeliveries]
    refine ⟨by dsimp only; omega, fun i => ?_⟩
    have hzero := (count_spokes hnodup i message relayed).2 hne
    have hi := hold.2 i
    rw [List.count_append]
    omega

theorem Once.deliver {acts : List (Act ι)} {s : Star ι} (hs : Once acts s) {spoke : ι} {delivered : Nat}
    {down : List (ι × Nat)} (hperm : s.down.Perm ((spoke, delivered) :: down)) :
    Once (acts ++ [.deliver spoke delivered]) ⟨s.started, s.up, down⟩ := by
  have hrelays : relays (acts ++ [.deliver spoke delivered]) = relays acts := by
    rw [relays_append]
    exact List.append_nil _
  have hdown : ∀ i message, s.down.count (i, message) + (deliveries acts).count (i, message)
      = down.count (i, message)
        + (deliveries (acts ++ [.deliver spoke delivered])).count (i, message) := by
    intro i message
    have hlast : deliveries (acts ++ [.deliver spoke delivered])
        = deliveries acts ++ [(spoke, delivered)] := deliveries_append acts _
    rw [hlast, hperm.count_eq, ← List.singleton_append, List.count_append, List.count_append]
    omega
  constructor
  · intro message
    rw [hrelays]
    exact hs.hub message
  · intro i message
    rw [← hdown]
    exact hs.spoke i message
  · intro i message hpos
    rw [← hdown]
    exact hs.ahead i message hpos
  · intro message hle
    have hold := hs.unstarted message hle
    rw [hrelays]
    exact ⟨hold.1, fun i => (hdown i message).symm.trans (hold.2 i)⟩

theorem Once.lose {acts : List (Act ι)} {s : Star ι} (hs : Once acts s) {up : List Nat}
    {down : List (ι × Nat)} (hup : up.Sublist s.up) (hdown : down.Sublist s.down) :
    Once (acts ++ [.lose]) ⟨s.started, up, down⟩ := by
  have hrelays : relays (acts ++ [.lose]) = relays acts := by
    rw [relays_append]
    exact List.append_nil _
  have hdeliveries : deliveries (acts ++ [.lose]) = deliveries acts := by
    rw [deliveries_append]
    exact List.append_nil _
  have hfewer : ∀ message, up.count message + (relays acts).count message
      ≤ s.up.count message + (relays acts).count message :=
    fun message => Nat.add_le_add_right (hup.count_le message) _
  have hfewer' : ∀ pair, down.count pair + (deliveries acts).count pair
      ≤ s.down.count pair + (deliveries acts).count pair :=
    fun pair => Nat.add_le_add_right (hdown.count_le pair) _
  constructor
  · intro message
    rw [hrelays]
    exact Nat.le_trans (hfewer message) (hs.hub message)
  · intro i message
    rw [hdeliveries]
    exact Nat.le_trans (hfewer' _) (hs.spoke i message)
  · intro i message hpos
    have hold := hs.ahead i message (Nat.lt_of_lt_of_le hpos (hup.count_le message))
    rw [hdeliveries]
    exact Nat.le_zero.mp (hold ▸ hfewer' _)
  · intro message hle
    have hold := hs.unstarted message hle
    rw [hrelays, hdeliveries]
    exact ⟨Nat.le_zero.mp (hold.1 ▸ hfewer message), fun i => Nat.le_zero.mp (hold.2 i ▸ hfewer' _)⟩

theorem Once.step {acts : List (Act ι)} {s s' : Star ι} {act : Act ι} (hs : Once acts s)
    (hstep : Step s act s') : Once (acts ++ [act]) s' := by
  cases hstep with
  | launch => exact hs.launch
  | spread hnodup => exact hs.spread hnodup
  | relay hperm hnodup => exact hs.relay hperm hnodup
  | deliver hperm => exact hs.deliver hperm
  | lose hup hdown => exact hs.lose hup hdown

/-- The hub gets a message at most once, and so does every spoke. -/
theorem once {acts : List (Act ι)} {s : Star ι} (hrun : Runs acts s) :
    (relays acts).Nodup ∧ (deliveries acts).Nodup := by
  have honce : Once acts s := by
    refine hrun.history_invariant Once ⟨?_, ?_, ?_, ?_⟩ fun _ _ _ _ _ hs hstep => hs.step hstep
    · exact fun _ => Nat.zero_le 1
    · exact fun _ _ => Nat.zero_le 1
    · exact fun _ _ _ => rfl
    · exact fun _ _ => ⟨rfl, fun _ => rfl⟩
  constructor
  · refine List.nodup_iff_count_le_one.mpr fun message => ?_
    have hhub := honce.hub message
    omega
  · refine List.nodup_iff_count_le_one.mpr fun pair => ?_
    obtain ⟨i, message⟩ := pair
    have hspoke := honce.spoke i message
    omega

end Star

end Armore.Lib
