import Armore.Proxy.Netmap

/-!
# Reading the receive rings

Between two system calls nothing is added to the receive rings, and the packets in them are one list: those
of the current ring, then those of the rings behind it, all the way round. `nm_nextpkt` takes the head of
that list. `EncodePackets` reads until a packet is empty, which is so when the list has come to its end, and
also when a slot has the length zero.
-/

namespace Armore.Proxy

open Lib.Circular

namespace RingRange

/-- The rings of the range from the current one on, once round. -/
def turn (range : RingRange) : List Nat :=
  (span range.count (range.cur - range.first) range.count).map fun x => range.first + x

theorem Has.sub_lt {range : RingRange} {ri : Nat} (hri : range.Has ri) : ri - range.first < range.count := by
  unfold Has at hri
  unfold count
  omega

theorem mem_turn {range : RingRange} (hcur : range.Has range.cur) {ri : Nat} :
    ri ∈ range.turn ↔ range.Has ri := by
  rw [turn, List.mem_map]
  constructor
  · rintro ⟨x, hx, rfl⟩
    rw [mem_span_round hcur.sub_lt] at hx
    unfold count at hx
    unfold Has at hcur ⊢
    omega
  · intro hri
    refine ⟨ri - range.first, ?_, Nat.add_sub_cancel' hri.1⟩
    rw [mem_span_round hcur.sub_lt]
    exact hri.sub_lt

theorem nodup_turn {range : RingRange} (hcur : range.Has range.cur) : range.turn.Nodup :=
  (nodup_span hcur.sub_lt (Nat.le_refl _)).map fun _ _ hxy => Nat.add_left_cancel hxy

/-- A turn from a later ring is the same turn, cut there. -/
theorem turn_rotate {range : RingRange} (hcur : range.Has range.cur) {before after : List Nat} {ri : Nat}
    (hturn : range.turn = before ++ ri :: after) :
    ({ range with cur := ri } : RingRange).turn = ri :: after ++ before := by
  obtain ⟨before, rest, hspan, rfl, hrest⟩ := List.map_eq_append_iff.mp hturn
  obtain ⟨x, after, rfl, rfl, rfl⟩ := List.map_eq_cons_iff.mp hrest
  have hrotate := span_rotate hcur.sub_lt hspan
  show (span range.count (range.first + x - range.first) range.count).map _ = _
  rw [Nat.add_sub_cancel_left, hrotate, List.map_append, List.map_cons]

end RingRange

namespace NmDesc

/-- The packets of a receive ring that have not been read. -/
def pending (d : NmDesc) (ri : Nat) : List Packet :=
  (between (d.ring .rx ri).numSlots (d.ring .rx ri).cur (d.ring .rx ri).tail).map (d.packet ri)

/-- The packets that have not been read, in the order in which they will be. -/
def backlog (d : NmDesc) : List Packet := (d.range .rx).turn.flatMap d.pending

theorem pending_eq_nil {d : NmDesc} {ri : Nat} (hr : (d.ring .rx ri).Valid) :
    d.pending ri = [] ↔ (d.ring .rx ri).nmRingEmpty = true := by
  rw [pending, List.map_eq_nil_iff, between_eq_nil hr.cur_lt hr.tail_lt, NetmapRing.nmRingEmpty_iff]

theorem pending_eq_cons {d : NmDesc} {ri : Nat} (hr : (d.ring .rx ri).Valid)
    (hroom : (d.ring .rx ri).nmRingEmpty = false) :
    d.pending ri = d.packet ri (d.ring .rx ri).cur
      :: (between (d.ring .rx ri).numSlots (d.ring .rx ri).forward.cur (d.ring .rx ri).tail).map
        (d.packet ri) := by
  have hne : (d.ring .rx ri).cur ≠ (d.ring .rx ri).tail := by
    intro heq
    rw [(NetmapRing.nmRingEmpty_iff _).mpr heq] at hroom
    cases hroom
  rw [pending, between_eq_cons hr.cur_lt hr.tail_lt hne, List.map_cons]
  rfl

/-! ### The search -/

/-- From a ring with `k` rings still to try, the search finds the first of these that holds a packet. -/
theorem searchRings_eq {d : NmDesc} (hcur : (d.range .rx).Has (d.range .rx).cur) {k bound x : Nat}
    (hx : x < (d.range .rx).count)
    (hk : distance (d.range .rx).count (next (d.range .rx).count x)
      ((d.range .rx).cur - (d.range .rx).first) + 1 = k) (hbound : k ≤ bound) :
    d.searchRings bound ((d.range .rx).first + x)
      = some (((span (d.range .rx).count x k).map fun x => (d.range .rx).first + x).find?
        fun ri => !(d.ring .rx ri).nmRingEmpty) := by
  generalize hrange : d.range .rx = range at *
  induction k generalizing bound x with
  | zero => omega
  | succ k ih =>
      obtain ⟨bound, rfl⟩ : ∃ b, bound = b + 1 := ⟨bound - 1, by omega⟩
      rw [searchRings, span, List.map_cons, List.find?_cons]
      by_cases hempty : (d.ring .rx (range.first + x)).nmRingEmpty = true
      · have hafter : (if range.first + x + 1 > range.last then range.first else range.first + x + 1)
            = range.first + next range.count x := by
          unfold RingRange.count at hx ⊢
          unfold RingRange.Has at hcur
          unfold next
          split_ifs <;> omega
        rw [if_pos hempty, hempty, hrange, hafter]
        dsimp only [Bool.not_true]
        by_cases hback : range.first + next range.count x = range.cur
        · have hzero : k = 0 := by
            have hoffset : range.cur - range.first = next range.count x := by omega
            rw [hoffset, distance_self] at hk
            omega
          rw [if_neg (not_not.mpr hback), hzero, span]
          rfl
        · have hne : next range.count x ≠ range.cur - range.first := by
            unfold RingRange.Has at hcur
            omega
          have hstep := distance_next_left (next_lt hx) hcur.sub_lt hne
          rw [if_pos hback]
          exact ih (by omega) (next_lt hx) (by omega)
      · rw [Bool.not_eq_true] at hempty
        rw [if_neg (by rw [hempty]; exact Bool.false_ne_true), hempty]
        rfl

/-- `nm_nextpkt` tries every ring once, from the current one on. -/
theorem searchRings_cur {d : NmDesc} (hcur : (d.range .rx).Has (d.range .rx).cur) {bound : Nat}
    (hbound : (d.range .rx).count ≤ bound) :
    d.searchRings bound (d.range .rx).cur
      = some ((d.range .rx).turn.find? fun ri => !(d.ring .rx ri).nmRingEmpty) := by
  have hround := distance_next_self (next_lt hcur.sub_lt) (rfl : next (d.range .rx).count _ = _)
  have hsearch := searchRings_eq hcur hcur.sub_lt hround hbound
  rwa [Nat.add_sub_cancel' hcur.1] at hsearch

/-! ### Taking a packet -/

/-- The descriptor after a packet of a ring has been taken. -/
def taken (d : NmDesc) (ri : Nat) : NmDesc :=
  (d.setRing .rx ri (d.ring .rx ri).forward).setCur .rx ri

theorem Valid.taken {d : NmDesc} (hd : d.Valid) {ri : Nat} (hri : (d.range .rx).Has ri) :
    (d.taken ri).Valid :=
  hd.moved hri (hd.ring .rx ri hri).forward rfl fun _ => rfl

@[simp] theorem taken_mem (d : NmDesc) (ri : Nat) : (d.taken ri).mem = d.mem := rfl

@[simp] theorem taken_nrBufSize (d : NmDesc) (ri : Nat) : (d.taken ri).nrBufSize = d.nrBufSize := rfl

@[simp] theorem taken_self (d : NmDesc) (ri : Nat) :
    (d.taken ri).ring .rx ri = (d.ring .rx ri).forward := setRing_self _ _ _ _

theorem taken_of_ne (d : NmDesc) {ri ri' : Nat} (hne : ri' ≠ ri) :
    (d.taken ri).ring .rx ri' = d.ring .rx ri' :=
  setRing_of_ne d _ fun hsame => hne hsame.2

@[simp] theorem taken_tx (d : NmDesc) (ri ri' : Nat) : (d.taken ri).ring .tx ri' = d.ring .tx ri' := by
  rw [taken, setCur_ring]
  exact setRing_of_ne d _ fun hsame => absurd hsame.1 (by decide)

@[simp] theorem taken_range_tx (d : NmDesc) (ri : Nat) : (d.taken ri).range .tx = d.range .tx :=
  setCur_of_ne _ _ (by decide)

theorem taken_packet (d : NmDesc) (ri ri' i : Nat) : (d.taken ri).packet ri' i = d.packet ri' i := by
  rcases eq_or_ne ri' ri with rfl | hne
  · simp only [packet, netmapBuf, taken_self, taken_nrBufSize]
    rfl
  · simp only [packet, netmapBuf, taken_of_ne d hne, taken_nrBufSize]

theorem taken_pending_of_ne (d : NmDesc) {ri ri' : Nat} (hne : ri' ≠ ri) :
    (d.taken ri).pending ri' = d.pending ri' := by
  rw [pending, pending, taken_of_ne d hne]
  exact List.map_congr_left fun i _ => taken_packet d ri ri' i

/-- The packet that is taken is the first one pending in its ring. -/
theorem pending_taken {d : NmDesc} {ri : Nat} (hr : (d.ring .rx ri).Valid)
    (hroom : (d.ring .rx ri).nmRingEmpty = false) :
    d.pending ri = d.packet ri (d.ring .rx ri).cur :: (d.taken ri).pending ri := by
  rw [pending_eq_cons hr hroom, pending, taken_self]
  congr 1
  exact List.map_congr_left fun i _ => (taken_packet d ri ri i).symm

/-- `nm_nextpkt` takes the head of the backlog. -/
theorem nmNextpkt_backlog {d : NmDesc} (hd : d.Valid) {bound : Nat}
    (hbound : (d.range .rx).count ≤ bound) :
    (d.backlog = [] ∧ d.nmNextpkt bound = some (d, none)) ∨
      ∃ ri, (d.range .rx).Has ri ∧ (d.ring .rx ri).nmRingEmpty = false ∧
        d.backlog = d.packet ri (d.ring .rx ri).cur :: (d.taken ri).backlog ∧
        d.nmNextpkt bound = some (d.taken ri, some (d.packet ri (d.ring .rx ri).cur)) := by
  have hcur := hd.has_cur .rx
  rw [nmNextpkt, searchRings_cur hcur hbound]
  cases hfind : (d.range .rx).turn.find? fun ri => !(d.ring .rx ri).nmRingEmpty with
  | none =>
      refine .inl ⟨List.flatMap_eq_nil_iff.mpr fun ri hri => ?_, rfl⟩
      have hempty := List.find?_eq_none.mp hfind ri hri
      rw [Bool.not_eq_true, Bool.not_eq_false'] at hempty
      exact (pending_eq_nil (hd.ring .rx ri ((RingRange.mem_turn hcur).mp hri))).mpr hempty
  | some ri =>
      obtain ⟨hroom, before, after, hturn, hbefore⟩ := List.find?_eq_some_iff_append.mp hfind
      rw [Bool.not_eq_true'] at hroom
      have hri : (d.range .rx).Has ri := by
        rw [← RingRange.mem_turn hcur, hturn]
        exact List.mem_append_right _ List.mem_cons_self
      refine .inr ⟨ri, hri, hroom, ?_, rfl⟩
      -- the rings before the one it stopped at are empty, and the others are passed over
      have hskipped : before.flatMap d.pending = [] := by
        refine List.flatMap_eq_nil_iff.mpr fun ri' hri' => ?_
        have hempty := hbefore ri' hri'
        rw [Bool.not_not] at hempty
        have hhas : (d.range .rx).Has ri' := by
          rw [← RingRange.mem_turn hcur, hturn]
          exact List.mem_append_left _ hri'
        exact (pending_eq_nil (hd.ring .rx ri' hhas)).mpr hempty
      have hnodup := RingRange.nodup_turn hcur
      rw [hturn, List.nodup_append, List.nodup_cons] at hnodup
      have hothers : ∀ ri' ∈ after ++ before, (d.taken ri).pending ri' = d.pending ri' := by
        intro ri' hri'
        apply taken_pending_of_ne
        rintro rfl
        rcases List.mem_append.mp hri' with hafter | hbefore
        · exact hnodup.2.1.1 hafter
        · exact hnodup.2.2 _ hbefore _ List.mem_cons_self rfl
      have hrotated : ((d.taken ri).range .rx).turn = ri :: (after ++ before) := by
        rw [taken, setCur_self]
        exact RingRange.turn_rotate hcur hturn
      calc d.backlog = d.pending ri ++ (after ++ before).flatMap d.pending := by
            rw [backlog, hturn, List.flatMap_append, List.flatMap_cons, hskipped, List.nil_append,
              List.flatMap_append, hskipped, List.append_nil]
        _ = d.packet ri (d.ring .rx ri).cur
              :: ((d.taken ri).pending ri ++ (after ++ before).flatMap (d.taken ri).pending) := by
            rw [pending_taken (hd.ring .rx ri hri) hroom, List.cons_append,
              List.flatMap_congr fun ri' hri' => hothers ri' hri']
        _ = d.packet ri (d.ring .rx ri).cur :: (d.taken ri).backlog := by
            rw [backlog, hrotated, List.flatMap_cons]

/-- The number of rings stays what it is. -/
theorem taken_count (d : NmDesc) (ri : Nat) : ((d.taken ri).range .rx).count = (d.range .rx).count := by
  rw [taken, setCur_self]
  rfl

end NmDesc

/-- `packet.IsEmpty()`; its value is never null. -/
def Packet.isEmpty (packet : Packet) : Bool := packet.len == 0

namespace NetmapEngine

/-- The loop of `EncodePackets`: the packets it passes to `EncodePacket`. There is no result where one of
the bounds was too small. -/
def encodePackets (bound : Nat) : Nat → NmDesc → Option (NmDesc × List Packet)
  | 0, _ => none
  | fuel + 1, d =>
    match d.nmNextpkt bound with
    | none => none
    | some (d, none) => some (d, [])
    | some (d, some packet) =>
      if packet.isEmpty then some (d, [])
      else (encodePackets bound fuel d).map fun (d, packets) => (d, packet :: packets)

/-- The backlog is read up to the first packet of length zero, which is taken and lost. -/
theorem encodePackets_backlog {d : NmDesc} (hd : d.Valid) {bound fuel : Nat}
    (hbound : (d.range .rx).count ≤ bound) (hfuel : d.backlog.length < fuel) :
    ∃ d', encodePackets bound fuel d = some (d', d.backlog.takeWhile fun packet => !packet.isEmpty) ∧
      d'.backlog = (d.backlog.dropWhile fun packet => !packet.isEmpty).tail ∧
      d'.mem = d.mem ∧ d'.Valid := by
  generalize hlist : d.backlog = list at *
  induction list generalizing d fuel with
  | nil =>
      obtain ⟨fuel, rfl⟩ : ∃ n, fuel = n + 1 := ⟨fuel - 1, by omega⟩
      rcases NmDesc.nmNextpkt_backlog hd hbound with ⟨hnil, hnext⟩ | ⟨ri, -, -, hcons, -⟩
      · refine ⟨d, ?_, hlist, rfl, hd⟩
        rw [encodePackets, hnext]
        rfl
      · rw [hlist] at hcons
        cases hcons
  | cons packet list ih =>
      obtain ⟨fuel, rfl⟩ : ∃ n, fuel = n + 1 := ⟨fuel - 1, by omega⟩
      rcases NmDesc.nmNextpkt_backlog hd hbound with ⟨hnil, -⟩ | ⟨ri, hri, -, hcons, hnext⟩
      · rw [hlist] at hnil
        cases hnil
      · rw [hlist, List.cons.injEq] at hcons
        obtain ⟨rfl, hrest⟩ := hcons
        rw [encodePackets, hnext]
        dsimp only
        by_cases hempty : (d.packet ri (d.ring .rx ri).cur).isEmpty = true
        · refine ⟨d.taken ri, ?_, ?_, rfl, hd.taken hri⟩
          · rw [if_pos hempty, List.takeWhile_cons, hempty]
            rfl
          · rw [List.dropWhile_cons, hempty]
            exact hrest.symm
        · have hfuel' : list.length < fuel := Nat.lt_of_succ_lt_succ hfuel
          obtain ⟨d', hread, hleft, hmem, hd'⟩ := ih (hd.taken hri)
            (by rw [NmDesc.taken_count]; exact hbound) hrest.symm hfuel'
          rw [if_neg hempty, hread]
          rw [Bool.not_eq_true] at hempty
          refine ⟨d', ?_, ?_, hmem, hd'⟩
          · rw [List.takeWhile_cons, hempty]
            rfl
          · rw [List.dropWhile_cons, hempty]
            exact hleft

theorem encodePackets_backlog_twoRings :
    ∃ d', encodePackets 1 2 NmDesc.twoRings = some (d', [⟨0, 128, 3, (0, 0)⟩]) ∧ d'.backlog = [] := by
  obtain ⟨d', hread, hleft, -⟩ :=
    encodePackets_backlog NmDesc.twoRings_valid (by decide : _ ≤ 1) (by decide : _ < 2)
  exact ⟨d', hread, hleft⟩

end NetmapEngine

end Armore.Proxy
