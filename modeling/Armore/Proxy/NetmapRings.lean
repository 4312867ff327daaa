import Armore.Lib.Run
import Armore.Proxy.NetmapReceive

/-!
# Frames through the rings

The program reads and fills slots it owns, the kernel works on the others, and only during a system call;
what a call may do is stated by ownership alone. Under any interleaving of the three every receive ring
hands its frames over in the order in which the kernel put them there, each once, and every transmit ring
hands the kernel the frames that were injected into it.

A frame that finds no room is lost without an error. `nm_inject` looks for room in the rings from the
current one to the last, and from there on in the first ring only.
-/

namespace Armore.Proxy

open Lib.Circular

/-- The slots of the program. -/
def NetmapRing.owned (r : NetmapRing) : List Nat := between r.numSlots r.head r.tail

namespace NmDesc

/-- The bytes of a slot. -/
def frame (d : NmDesc) (dir : Direction) (ri i : Nat) : List UInt8 :=
  bytesAt d.mem (d.netmapBuf dir ri i) ((d.ring dir ri).slot i).len

/-- The frames of a receive ring that have not been read. -/
def unread (d : NmDesc) (ri : Nat) : List (List UInt8) :=
  (between (d.ring .rx ri).numSlots (d.ring .rx ri).cur (d.ring .rx ri).tail).map (d.frame .rx ri)

/-- The frames of a transmit ring from position `hwcur` on. -/
def filled (d : NmDesc) (ri hwcur : Nat) : List (List UInt8) :=
  (between (d.ring .tx ri).numSlots hwcur (d.ring .tx ri).head).map (d.frame .tx ri)

/-- Slots from one position up to another hold no more than their buffers. -/
def Fits (d : NmDesc) (dir : Direction) (ri i j : Nat) : Prop :=
  ∀ x ∈ between (d.ring dir ri).numSlots i j, ((d.ring dir ri).slot x).len ≤ d.nrBufSize

end NmDesc

/-- A system call: the kernel leaves the slots of the program and their buffers as they are, and may give
it more of them. What it received fits into the buffers. -/
structure KernelCall (d d' : NmDesc) : Prop where
  valid : d'.Valid
  nrBufSize : d'.nrBufSize = d.nrBufSize
  range : d'.range = d.range
  numSlots : ∀ dir ri, (d.range dir).Has ri → (d'.ring dir ri).numSlots = (d.ring dir ri).numSlots
  head : ∀ dir ri, (d.range dir).Has ri → (d'.ring dir ri).head = (d.ring dir ri).head
  tail : ∀ dir ri, (d.range dir).Has ri →
    distance (d.ring dir ri).numSlots (d.ring dir ri).head (d.ring dir ri).tail
      ≤ distance (d.ring dir ri).numSlots (d.ring dir ri).head (d'.ring dir ri).tail
  slot : ∀ dir ri, (d.range dir).Has ri → ∀ i ∈ (d.ring dir ri).owned,
    (d'.ring dir ri).slot i = (d.ring dir ri).slot i
  buffer : ∀ dir ri, (d.range dir).Has ri → ∀ i ∈ (d.ring dir ri).owned, ∀ k < d.nrBufSize,
    d'.mem (d.netmapBuf dir ri i + k) = d.mem (d.netmapBuf dir ri i + k)
  fits : ∀ ri, (d.range .rx).Has ri → d'.Fits .rx ri (d.ring .rx ri).tail (d'.ring .rx ri).tail

/-- The mapped rings, and `head` of each transmit ring at the last system call. -/
structure NetmapRings where
  desc : NmDesc
  hwcur : Nat → Nat

/-- The three kinds of steps: a packet read, with its ring and its bytes; a frame injected, with the ring
that took it; a system call, with the frames it puts into each receive ring and takes from each transmit
ring. -/
inductive RingAct
  | nextpkt (read : Option (Nat × List UInt8))
  | inject (buffer : Buffer) (ring : Option Nat)
  | call (received sent : Nat → List (List UInt8))

namespace NetmapRings

inductive Step (bound : Nat) : NetmapRings → RingAct → NetmapRings → Prop
  | nextpkt {s : NetmapRings} {d : NmDesc} {packet : Option Packet} :
      s.desc.nmNextpkt bound = some (d, packet) →
      Step bound s (.nextpkt (packet.map fun p => (p.ring, bytesAt d.mem p.value p.len)))
        { s with desc := d }
  | inject (s : NetmapRings) (buffer : Buffer) :
      Step bound s (.inject buffer s.desc.roomyRing) { s with desc := (s.desc.nmInject buffer).1 }
  | call {s : NetmapRings} {d : NmDesc} : KernelCall s.desc d →
      Step bound s
        (.call
          (fun ri => (between (d.ring .rx ri).numSlots (s.desc.ring .rx ri).tail
            (d.ring .rx ri).tail).map (d.frame .rx ri))
          (fun ri => s.desc.filled ri (s.hwcur ri)))
        ⟨d, fun ri => (d.ring .tx ri).head⟩

/-- A frame that `nm_inject` copies whole and inside one buffer. -/
def Fitting (nrBufSize : Nat) : RingAct → Prop
  | .inject buffer _ => buffer.length < 2 ^ 16 ∧ NmDesc.copied buffer.length ≤ nrBufSize
  | .nextpkt _ | .call _ _ => True

/-- The runs in which every injected frame fits into a buffer. -/
abbrev Runs (bound : Nat) (init : NetmapRings) : List RingAct → NetmapRings → Prop :=
  Lib.Run (Lib.Restrict (Step bound) fun s act => Fitting s.desc.nrBufSize act) init

/-- The frames the kernel put into a receive ring. -/
def received (ri : Nat) (acts : List RingAct) : List (List UInt8) :=
  acts.flatMap fun
    | .call received _ => received ri
    | .nextpkt _ | .inject _ _ => []

/-- The frames read from a receive ring. -/
def read (ri : Nat) (acts : List RingAct) : List (List UInt8) :=
  acts.flatMap fun
    | .nextpkt (some (ring, bytes)) => if ring = ri then [bytes] else []
    | .nextpkt none | .inject _ _ | .call _ _ => []

/-- The frames that a transmit ring took. -/
def taken (ri : Nat) (acts : List RingAct) : List (List UInt8) :=
  acts.flatMap fun
    | .inject buffer ring => if ring = some ri then [bytesAt buffer.byte 0 buffer.length] else []
    | .nextpkt _ | .call _ _ => []

/-- The frames the kernel took from a transmit ring. -/
def sent (ri : Nat) (acts : List RingAct) : List (List UInt8) :=
  acts.flatMap fun
    | .call _ sent => sent ri
    | .nextpkt _ | .inject _ _ => []

end NetmapRings

/-! ### The copy -/

namespace NmDesc

theorem le_copied {size : Nat} (hsize : size < 2 ^ 16) : size ≤ copied size := by
  unfold copied
  split_ifs <;> omega

theorem nmPktCopy_self (src mem : Memory) (dst : Nat) {size k : Nat} (hk : k < copied size) :
    nmPktCopy src mem dst size (dst + k) = src k := by
  rw [nmPktCopy, if_pos ⟨by omega, by omega⟩, Nat.add_sub_cancel_left]

/-- A copy that fits into its buffer leaves the other buffers alone. -/
theorem nmPktCopy_of_ne (src mem : Memory) {bufSize idx idx' size k : Nat} (hne : idx' ≠ idx)
    (hsize : copied size ≤ bufSize) (hk : k < bufSize) :
    nmPktCopy src mem (idx * bufSize) size (idx' * bufSize + k) = mem (idx' * bufSize + k) := by
  have hapart : idx' * bufSize + k < idx * bufSize ∨ idx * bufSize + bufSize ≤ idx' * bufSize := by
    rcases Nat.lt_or_gt_of_ne hne with hlt | hgt
    · have hmul := Nat.mul_le_mul_right bufSize (Nat.succ_le_of_lt hlt)
      rw [Nat.succ_mul] at hmul
      omega
    · have hmul := Nat.mul_le_mul_right bufSize (Nat.succ_le_of_lt hgt)
      rw [Nat.succ_mul] at hmul
      omega
  exact if_neg (by omega)

/-- A frame depends on its slot and on its buffer. -/
theorem frame_congr {d d' : NmDesc} {dir : Direction} {ri i : Nat} (hsize : d'.nrBufSize = d.nrBufSize)
    (hslot : (d'.ring dir ri).slot i = (d.ring dir ri).slot i)
    (hfit : ((d.ring dir ri).slot i).len ≤ d.nrBufSize)
    (hbuffer : ∀ k < d.nrBufSize, d'.mem (d.netmapBuf dir ri i + k) = d.mem (d.netmapBuf dir ri i + k)) :
    d'.frame dir ri i = d.frame dir ri i := by
  have hat : d'.netmapBuf dir ri i = d.netmapBuf dir ri i := by
    rw [netmapBuf, netmapBuf, hslot, hsize]
  rw [frame, frame, hat, hslot]
  refine List.map_congr_left fun k hk => ?_
  rw [List.mem_range] at hk
  exact hbuffer k (by omega)

end NmDesc

/-! ### Reading -/

namespace NmDesc

theorem taken_frame (d : NmDesc) (ri : Nat) (dir : Direction) (ri' i : Nat) :
    (d.taken ri).frame dir ri' i = d.frame dir ri' i := by
  by_cases hsame : dir = .rx ∧ ri' = ri
  · obtain ⟨rfl, rfl⟩ := hsame
    simp only [frame, netmapBuf, taken_self, taken_mem, taken_nrBufSize]
    rfl
  · have hring : (d.taken ri).ring dir ri' = d.ring dir ri' := by
      rw [taken, setCur_ring]
      exact setRing_of_ne d _ hsame
    simp only [frame, netmapBuf, hring, taken_mem, taken_nrBufSize]

theorem taken_has (d : NmDesc) (ri : Nat) (dir : Direction) (ri' : Nat) :
    ((d.taken ri).range dir).Has ri' ↔ (d.range dir).Has ri' :=
  setCur_has _ _ _ _ _

theorem unread_taken {d : NmDesc} {ri : Nat} (hr : (d.ring .rx ri).Valid)
    (hroom : (d.ring .rx ri).nmRingEmpty = false) :
    d.unread ri = d.frame .rx ri (d.ring .rx ri).cur :: (d.taken ri).unread ri := by
  have hne : (d.ring .rx ri).cur ≠ (d.ring .rx ri).tail := by
    intro heq
    rw [(NetmapRing.nmRingEmpty_iff _).mpr heq] at hroom
    cases hroom
  rw [unread, between_eq_cons hr.cur_lt hr.tail_lt hne, List.map_cons, unread, taken_self]
  congr 1
  exact List.map_congr_left fun i _ => (taken_frame d ri .rx ri i).symm

theorem taken_unread_of_ne (d : NmDesc) {ri ri' : Nat} (hne : ri' ≠ ri) :
    (d.taken ri).unread ri' = d.unread ri' := by
  rw [unread, unread, taken_of_ne d hne]
  exact List.map_congr_left fun i _ => taken_frame d ri .rx ri' i

theorem taken_filled (d : NmDesc) (ri ri' hwcur : Nat) :
    (d.taken ri).filled ri' hwcur = d.filled ri' hwcur := by
  rw [filled, filled, taken_tx]
  exact List.map_congr_left fun i _ => taken_frame d ri .tx ri' i

end NmDesc

/-- What holds of the rings between any two steps: unread frames and filled slots fit into their buffers,
and a transmit ring has its filled slots before the free ones. -/
structure NetmapRings.Sound (s : NetmapRings) : Prop where
  valid : s.desc.Valid
  unread : ∀ ri, (s.desc.range .rx).Has ri →
    s.desc.Fits .rx ri (s.desc.ring .rx ri).cur (s.desc.ring .rx ri).tail
  hwcur_lt : ∀ ri, (s.desc.range .tx).Has ri → s.hwcur ri < (s.desc.ring .tx ri).numSlots
  order : ∀ ri, (s.desc.range .tx).Has ri →
    distance (s.desc.ring .tx ri).numSlots (s.hwcur ri) (s.desc.ring .tx ri).head
      ≤ distance (s.desc.ring .tx ri).numSlots (s.hwcur ri) (s.desc.ring .tx ri).tail
  filled : ∀ ri, (s.desc.range .tx).Has ri →
    s.desc.Fits .tx ri (s.hwcur ri) (s.desc.ring .tx ri).head

/-- What a step does to the rings of either direction. -/
structure NetmapRings.Accounts (s : NetmapRings) (act : RingAct) (s' : NetmapRings) : Prop where
  has : ∀ dir ri, (s'.desc.range dir).Has ri ↔ (s.desc.range dir).Has ri
  rx : ∀ ri, (s.desc.range .rx).Has ri →
    s.desc.unread ri ++ received ri [act] = read ri [act] ++ s'.desc.unread ri
  tx : ∀ ri, (s.desc.range .tx).Has ri →
    s.desc.filled ri (s.hwcur ri) ++ taken ri [act] = sent ri [act] ++ s'.desc.filled ri (s'.hwcur ri)

namespace NetmapRings

theorem Sound.nextpkt {s : NetmapRings} (hs : s.Sound) {bound : Nat}
    (hbound : (s.desc.range .rx).count ≤ bound) {d : NmDesc} {packet : Option Packet}
    (hnext : s.desc.nmNextpkt bound = some (d, packet)) :
    Sound { s with desc := d } ∧ s.Accounts
      (.nextpkt (packet.map fun p => (p.ring, bytesAt d.mem p.value p.len))) { s with desc := d } := by
  rcases NmDesc.nmNextpkt_backlog hs.valid hbound with ⟨-, hnone⟩ | ⟨ri, hri, hroom, -, hsome⟩
  · rw [hnone, Option.some.injEq, Prod.mk.injEq] at hnext
    obtain ⟨rfl, rfl⟩ := hnext
    refine ⟨hs, fun dir ri => Iff.rfl, fun ri _ => ?_, fun ri _ => ?_⟩
    · exact List.append_nil _
    · exact List.append_nil _
  · rw [hsome, Option.some.injEq, Prod.mk.injEq] at hnext
    obtain ⟨rfl, rfl⟩ := hnext
    have hvalid := hs.valid.ring .rx ri hri
    refine ⟨⟨hs.valid.taken hri, ?_, ?_, ?_, ?_⟩, s.desc.taken_has ri, fun ri' _ => ?_, fun ri' _ => ?_⟩
    · intro ri' hri'
      rw [NmDesc.taken_has] at hri'
      have hfits := hs.unread ri' hri'
      rcases eq_or_ne ri' ri with rfl | hne
      · have hne : (s.desc.ring .rx ri').cur ≠ (s.desc.ring .rx ri').tail := by
          intro heq
          rw [(NetmapRing.nmRingEmpty_iff _).mpr heq] at hroom
          cases hroom
        unfold NmDesc.Fits at hfits ⊢
        rw [between_eq_cons hvalid.cur_lt hvalid.tail_lt hne] at hfits
        rw [NmDesc.taken_self]
        exact fun x hx => hfits x (List.mem_cons_of_mem _ hx)
      · unfold NmDesc.Fits at hfits ⊢
        rwa [NmDesc.taken_of_ne s.desc hne]
    · intro ri' hri'
      rw [NmDesc.taken_has] at hri'
      rw [NmDesc.taken_tx]
      exact hs.hwcur_lt ri' hri'
    · intro ri' hri'
      rw [NmDesc.taken_has] at hri'
      rw [NmDesc.taken_tx]
      exact hs.order ri' hri'
    · intro ri' hri'
      rw [NmDesc.taken_has] at hri'
      have hfits := hs.filled ri' hri'
      unfold NmDesc.Fits at hfits ⊢
      rwa [NmDesc.taken_tx]
    · rcases eq_or_ne ri' ri with rfl | hne
      · have hread : read ri' [.nextpkt (some (ri', s.desc.frame .rx ri' (s.desc.ring .rx ri').cur))]
            = [s.desc.frame .rx ri' (s.desc.ring .rx ri').cur] := by
          simp [read]
        rw [NmDesc.unread_taken hvalid hroom]
        exact (List.append_nil _).trans (congrArg (· ++ _) hread.symm)
      · have hread : read ri' [.nextpkt (some (ri, s.desc.frame .rx ri (s.desc.ring .rx ri).cur))] = [] := by
          simp [read, Ne.symm hne]
        rw [← NmDesc.taken_unread_of_ne s.desc hne]
        exact (List.append_nil _).trans (congrArg (· ++ _) hread.symm)
    · exact (List.append_nil _).trans (NmDesc.taken_filled s.desc ri ri' _).symm

end NetmapRings

/-! ### Injecting -/

namespace NmDesc

theorem roomyRing_some {d : NmDesc} (hcur : (d.range .tx).Has (d.range .tx).cur) {ri : Nat}
    (hroomy : d.roomyRing = some ri) :
    (d.range .tx).Has ri ∧ (d.ring .tx ri).nmRingEmpty = false := by
  have hroom := List.find?_some hroomy
  rw [Bool.not_eq_true'] at hroom
  refine ⟨?_, hroom⟩
  obtain ⟨c, hc, rfl⟩ := List.mem_map.mp (List.mem_of_find?_eq_some hroomy)
  rw [List.mem_range] at hc
  unfold RingRange.Has RingRange.count at *
  unfold injectRing
  split_ifs <;> omega

@[simp] theorem fill_nrBufSize (d : NmDesc) (ri : Nat) (buf : Buffer) :
    (d.fill ri buf).nrBufSize = d.nrBufSize := rfl

@[simp] theorem fill_self (d : NmDesc) (ri : Nat) (buf : Buffer) : (d.fill ri buf).ring .tx ri
    = ((d.ring .tx ri).setLen (d.ring .tx ri).cur buf.length).forward := setRing_self _ _ _ _

theorem fill_of_ne (d : NmDesc) (buf : Buffer) {ri ri' : Nat} {dir : Direction}
    (hne : ¬ (dir = .tx ∧ ri' = ri)) : (d.fill ri buf).ring dir ri' = d.ring dir ri' :=
  setRing_of_ne d _ hne

theorem fill_has (d : NmDesc) (ri : Nat) (buf : Buffer) (dir : Direction) (ri' : Nat) :
    ((d.fill ri buf).range dir).Has ri' ↔ (d.range dir).Has ri' :=
  setCur_has _ _ _ _ _

theorem fill_numSlots (d : NmDesc) (ri : Nat) (buf : Buffer) (dir : Direction) (ri' : Nat) :
    ((d.fill ri buf).ring dir ri').numSlots = (d.ring dir ri').numSlots := by
  by_cases hsame : dir = .tx ∧ ri' = ri
  · obtain ⟨rfl, rfl⟩ := hsame
    rw [fill_self]
    rfl
  · rw [fill_of_ne d buf hsame]

theorem fill_tail (d : NmDesc) (ri : Nat) (buf : Buffer) (dir : Direction) (ri' : Nat) :
    ((d.fill ri buf).ring dir ri').tail = (d.ring dir ri').tail := by
  by_cases hsame : dir = .tx ∧ ri' = ri
  · obtain ⟨rfl, rfl⟩ := hsame
    rw [fill_self]
    rfl
  · rw [fill_of_ne d buf hsame]

theorem Valid.fill {d : NmDesc} (hd : d.Valid) {ri : Nat} (hri : (d.range .tx).Has ri) (buf : Buffer) :
    (d.fill ri buf).Valid := by
  have hmoved := hd.moved hri ((hd.ring .tx ri hri).setLen (d.ring .tx ri).cur buf.length).forward rfl
    ((d.ring .tx ri).setLen_bufIdx _ _)
  exact ⟨hmoved.has_cur, hmoved.ring, hmoved.buffers⟩

variable {d : NmDesc} {buf : Buffer} {ri : Nat}

/-- The slot that is filled. -/
theorem fill_slot_of_ne {dir : Direction} {ri' i : Nat}
    (hne : ¬ (dir = .tx ∧ ri' = ri ∧ i = (d.ring .tx ri).cur)) :
    ((d.fill ri buf).ring dir ri').slot i = (d.ring dir ri').slot i := by
  by_cases hsame : dir = .tx ∧ ri' = ri
  · obtain ⟨rfl, rfl⟩ := hsame
    rw [fill_self]
    exact NetmapRing.setLen_of_ne _ _ fun hi => hne ⟨rfl, rfl, hi⟩
  · rw [fill_of_ne d buf hsame]

/-- Frames in other slots stay as they are. -/
theorem fill_frame_of_ne (hd : d.Valid) (hri : (d.range .tx).Has ri)
    (hcopied : copied buf.length ≤ d.nrBufSize) {dir : Direction} {ri' i : Nat}
    (hri' : (d.range dir).Has ri') (hi : i < (d.ring dir ri').numSlots)
    (hfit : ((d.ring dir ri').slot i).len ≤ d.nrBufSize)
    (hne : ¬ (dir = .tx ∧ ri' = ri ∧ i = (d.ring .tx ri).cur)) :
    (d.fill ri buf).frame dir ri' i = d.frame dir ri' i := by
  refine frame_congr rfl (fill_slot_of_ne hne) hfit fun k hk => ?_
  have hbuffers : ((d.ring dir ri').slot i).bufIdx ≠ ((d.ring .tx ri).slot (d.ring .tx ri).cur).bufIdx :=
    fun heq => hne (hd.buffers _ _ _ _ _ _ hri' hri hi (hd.ring .tx ri hri).cur_lt heq)
  exact nmPktCopy_of_ne _ _ hbuffers hcopied hk

/-- The filled slot holds the injected frame. -/
theorem fill_frame (hlength : buf.length < 2 ^ 16) :
    (d.fill ri buf).frame .tx ri (d.ring .tx ri).cur = bytesAt buf.byte 0 buf.length := by
  have hslot : ((d.fill ri buf).ring .tx ri).slot (d.ring .tx ri).cur
      = ⟨((d.ring .tx ri).slot (d.ring .tx ri).cur).bufIdx, buf.length⟩ := by
    rw [fill_self]
    exact (NetmapRing.setLen_self _ _ _).trans (by rw [Nat.mod_eq_of_lt hlength])
  rw [frame, netmapBuf, hslot, fill_nrBufSize]
  refine List.map_congr_left fun k hk => ?_
  rw [List.mem_range] at hk
  rw [Nat.zero_add]
  exact nmPktCopy_self _ _ _ (hk.trans_le (le_copied hlength))

theorem fill_unread (hd : d.Valid) (hri : (d.range .tx).Has ri)
    (hcopied : copied buf.length ≤ d.nrBufSize) {ri' : Nat} (hri' : (d.range .rx).Has ri')
    (hfits : d.Fits .rx ri' (d.ring .rx ri').cur (d.ring .rx ri').tail) :
    (d.fill ri buf).unread ri' = d.unread ri' := by
  have hrx : ¬ (Direction.rx = .tx ∧ ri' = ri) := fun hsame => absurd hsame.1 (by decide)
  have hvalid := hd.ring .rx ri' hri'
  rw [unread, unread, fill_of_ne d buf hrx]
  refine List.map_congr_left fun i hi => ?_
  exact fill_frame_of_ne hd hri hcopied hri' ((mem_between hvalid.cur_lt hvalid.tail_lt).mp hi).1
    (hfits i hi) fun hsame => hrx ⟨hsame.1, hsame.2.1⟩

theorem fill_filled_of_ne (hd : d.Valid) (hri : (d.range .tx).Has ri)
    (hcopied : copied buf.length ≤ d.nrBufSize) {ri' hwcur : Nat} (hri' : (d.range .tx).Has ri')
    (hwcur_lt : hwcur < (d.ring .tx ri').numSlots)
    (hfits : d.Fits .tx ri' hwcur (d.ring .tx ri').head) (hne : ri' ≠ ri) :
    (d.fill ri buf).filled ri' hwcur = d.filled ri' hwcur := by
  have hvalid := hd.ring .tx ri' hri'
  have hhead : (d.ring .tx ri').head < (d.ring .tx ri').numSlots := by
    rw [hvalid.head_eq]
    exact hvalid.cur_lt
  rw [filled, filled, fill_of_ne d buf fun hsame => hne hsame.2]
  refine List.map_congr_left fun i hi => ?_
  exact fill_frame_of_ne hd hri hcopied hri' ((mem_between hwcur_lt hhead).mp hi).1 (hfits i hi)
    fun hsame => hne hsame.2.1

/-- A ring with free slots has room behind its filled ones. -/
theorem next_ne_of_room {r : NetmapRing} (hr : r.Valid) {hwcur : Nat} (hwcur_lt : hwcur < r.numSlots)
    (horder : distance r.numSlots hwcur r.head ≤ distance r.numSlots hwcur r.tail)
    (hroom : r.nmRingEmpty = false) :
    next r.numSlots r.head ≠ hwcur ∧
      distance r.numSlots hwcur (next r.numSlots r.head) ≤ distance r.numSlots hwcur r.tail := by
  have hhead : r.head < r.numSlots := by
    rw [hr.head_eq]
    exact hr.cur_lt
  have hne : r.head ≠ r.tail := by
    intro heq
    rw [hr.head_eq] at heq
    rw [(NetmapRing.nmRingEmpty_iff _).mpr heq] at hroom
    cases hroom
  have hapart := distance_add hwcur_lt hr.tail_lt hhead horder
  have hpos := distance_next_left hhead hr.tail_lt hne
  have htail := distance_lt hwcur_lt hr.tail_lt
  have hbehind : next r.numSlots r.head ≠ hwcur := by
    intro hround
    have hfull := distance_next_self hwcur_lt hround
    omega
  refine ⟨hbehind, ?_⟩
  rw [distance_next_right hwcur_lt hbehind]
  omega

/-- The injected frame comes behind those the ring has. -/
theorem fill_filled (hd : d.Valid) (hri : (d.range .tx).Has ri)
    (hroom : (d.ring .tx ri).nmRingEmpty = false) (hlength : buf.length < 2 ^ 16)
    (hcopied : copied buf.length ≤ d.nrBufSize) {hwcur : Nat}
    (hwcur_lt : hwcur < (d.ring .tx ri).numSlots)
    (horder : distance (d.ring .tx ri).numSlots hwcur (d.ring .tx ri).head
      ≤ distance (d.ring .tx ri).numSlots hwcur (d.ring .tx ri).tail)
    (hfits : d.Fits .tx ri hwcur (d.ring .tx ri).head) :
    (d.fill ri buf).filled ri hwcur
      = d.filled ri hwcur ++ [bytesAt buf.byte 0 buf.length] := by
  have hvalid := hd.ring .tx ri hri
  have hhead : (d.ring .tx ri).head < (d.ring .tx ri).numSlots := by
    rw [hvalid.head_eq]
    exact hvalid.cur_lt
  have hbehind := (next_ne_of_room hvalid hwcur_lt horder hroom).1
  have hmoved : ((d.fill ri buf).ring .tx ri).head
      = next (d.ring .tx ri).numSlots (d.ring .tx ri).head := by
    rw [fill_self, hvalid.head_eq]
    rfl
  rw [filled, filled, fill_numSlots, hmoved, between_next hwcur_lt hhead hbehind, List.map_append]
  congr 1
  · refine List.map_congr_left fun i hi => ?_
    refine fill_frame_of_ne hd hri hcopied hri ((mem_between hwcur_lt hhead).mp hi).1 (hfits i hi) ?_
    rintro ⟨-, -, hcur⟩
    rw [hcur, ← hvalid.head_eq] at hi
    exact not_mem_between_end hwcur_lt hhead hi
  · rw [List.map_singleton, hvalid.head_eq, fill_frame hlength]

end NmDesc

namespace NetmapRings

theorem Sound.inject {s : NetmapRings} (hs : s.Sound) {buffer : Buffer}
    (hfitting : Fitting s.desc.nrBufSize (.inject buffer s.desc.roomyRing)) :
    Sound { s with desc := (s.desc.nmInject buffer).1 } ∧
      s.Accounts (.inject buffer s.desc.roomyRing) { s with desc := (s.desc.nmInject buffer).1 } := by
  obtain ⟨hlength, hcopied⟩ := hfitting
  cases hroomy : s.desc.roomyRing with
  | none =>
      have hlost : (s.desc.nmInject buffer).1 = s.desc := by rw [NmDesc.nmInject, hroomy]
      rw [hlost]
      exact ⟨hs, fun dir ri => Iff.rfl, fun ri _ => List.append_nil _, fun ri _ => List.append_nil _⟩
  | some ri =>
      have hfilled : (s.desc.nmInject buffer).1 = s.desc.fill ri buffer := by rw [NmDesc.nmInject, hroomy]
      obtain ⟨hri, hroom⟩ := NmDesc.roomyRing_some (hs.valid.has_cur .tx) hroomy
      have hvalid := hs.valid.ring .tx ri hri
      have hcurHead : (s.desc.ring .tx ri).cur = (s.desc.ring .tx ri).head := hvalid.head_eq.symm
      obtain ⟨hbehind, horder⟩ :=
        NmDesc.next_ne_of_room hvalid (hs.hwcur_lt ri hri) (hs.order ri hri) hroom
      have hhead : (s.desc.ring .tx ri).head < (s.desc.ring .tx ri).numSlots := by
        rw [hvalid.head_eq]
        exact hvalid.cur_lt
      have hmoved : ((s.desc.fill ri buffer).ring .tx ri).head
          = next (s.desc.ring .tx ri).numSlots (s.desc.ring .tx ri).head := by
        rw [NmDesc.fill_self, hvalid.head_eq]
        rfl
      rw [hfilled]
      refine ⟨⟨hs.valid.fill hri buffer, ?_, ?_, ?_, ?_⟩, s.desc.fill_has ri buffer, ?_, ?_⟩
      · intro ri' hri'
        rw [NmDesc.fill_has] at hri'
        have hrx : ¬ (Direction.rx = .tx ∧ ri' = ri) := fun hsame => absurd hsame.1 (by decide)
        have hfits := hs.unread ri' hri'
        unfold NmDesc.Fits at hfits ⊢
        rwa [NmDesc.fill_of_ne s.desc buffer hrx]
      · intro ri' hri'
        rw [NmDesc.fill_has] at hri'
        rw [NmDesc.fill_numSlots]
        exact hs.hwcur_lt ri' hri'
      · intro ri' hri'
        rw [NmDesc.fill_has] at hri'
        rw [NmDesc.fill_numSlots, NmDesc.fill_tail]
        rcases eq_or_ne ri' ri with rfl | hne
        · rw [hmoved]
          exact horder
        · rw [NmDesc.fill_of_ne s.desc buffer fun hsame => hne hsame.2]
          exact hs.order ri' hri'
      · intro ri' hri'
        rw [NmDesc.fill_has] at hri'
        have hfits := hs.filled ri' hri'
        unfold NmDesc.Fits at hfits ⊢
        rcases eq_or_ne ri' ri with rfl | hne
        · intro x hx
          rw [NmDesc.fill_numSlots, hmoved, between_next (hs.hwcur_lt ri' hri') hhead hbehind,
            List.mem_append, List.mem_singleton] at hx
          rw [NmDesc.fill_self]
          by_cases hcur : x = (s.desc.ring .tx ri').cur
          · rw [hcur]
            show (((s.desc.ring .tx ri').setLen _ _).slot _).len ≤ _
            rw [NetmapRing.setLen_self]
            exact ((Nat.mod_le _ _).trans (NmDesc.le_copied hlength)).trans hcopied
          · have hbefore := hx.resolve_right fun heq => hcur (heq.trans hcurHead.symm)
            show (((s.desc.ring .tx ri').setLen _ _).slot _).len ≤ _
            rw [NetmapRing.setLen_of_ne _ _ hcur]
            exact hfits x hbefore
        · rwa [NmDesc.fill_of_ne s.desc buffer fun hsame => hne hsame.2]
      · intro ri' hri'
        rw [NmDesc.fill_unread hs.valid hri hcopied hri' (hs.unread ri' hri')]
        exact List.append_nil _
      · intro ri' hri'
        rcases eq_or_ne ri' ri with rfl | hne
        · have htaken : taken ri' [.inject buffer (some ri')] = [bytesAt buffer.byte 0 buffer.length] := by
            simp [taken]
          rw [NmDesc.fill_filled hs.valid hri hroom hlength hcopied (hs.hwcur_lt ri' hri')
            (hs.order ri' hri') (hs.filled ri' hri'), htaken]
          rfl
        · have htaken : taken ri' [.inject buffer (some ri)] = [] := by
            simp [taken, Ne.symm hne]
          rw [NmDesc.fill_filled_of_ne hs.valid hri hcopied hri' (hs.hwcur_lt ri' hri')
            (hs.filled ri' hri') hne, htaken, List.append_nil]
          rfl

end NetmapRings

/-! ### System calls -/

namespace NetmapRings

theorem Sound.call {s : NetmapRings} (hs : s.Sound) {d : NmDesc} (hcall : KernelCall s.desc d) :
    Sound ⟨d, fun ri => (d.ring .tx ri).head⟩ ∧ s.Accounts
      (.call
        (fun ri => (between (d.ring .rx ri).numSlots (s.desc.ring .rx ri).tail
          (d.ring .rx ri).tail).map (d.frame .rx ri))
        (fun ri => s.desc.filled ri (s.hwcur ri)))
      ⟨d, fun ri => (d.ring .tx ri).head⟩ := by
  have hrange : ∀ dir ri, (d.range dir).Has ri ↔ (s.desc.range dir).Has ri := by
    intro dir ri
    rw [hcall.range]
  have hcur : ∀ ri, (s.desc.range .rx).Has ri → (d.ring .rx ri).cur = (s.desc.ring .rx ri).cur := by
    intro ri hri
    rw [← (hcall.valid.ring .rx ri ((hrange .rx ri).mpr hri)).head_eq, hcall.head .rx ri hri,
      (hs.valid.ring .rx ri hri).head_eq]
  -- the slots up to the new tail: those up to the old one, then those the kernel gives
  have hsplit : ∀ ri, (s.desc.range .rx).Has ri →
      between (d.ring .rx ri).numSlots (d.ring .rx ri).cur (d.ring .rx ri).tail
        = (s.desc.ring .rx ri).owned
          ++ between (d.ring .rx ri).numSlots (s.desc.ring .rx ri).tail (d.ring .rx ri).tail := by
    intro ri hri
    have hold := hs.valid.ring .rx ri hri
    have hnew := hcall.valid.ring .rx ri ((hrange .rx ri).mpr hri)
    have htail := hcall.tail .rx ri hri
    have hnum := hcall.numSlots .rx ri hri
    rw [NetmapRing.owned, ← hnum, hold.head_eq, hcur ri hri]
    rw [hold.head_eq, ← hnum] at htail
    have hcur_lt := hold.cur_lt
    have htail_lt := hold.tail_lt
    rw [← hnum] at hcur_lt htail_lt
    exact between_append hcur_lt hnew.tail_lt htail_lt htail
  refine ⟨⟨hcall.valid, ?_, ?_, ?_, ?_⟩, hrange, ?_, ?_⟩
  · intro ri hri
    rw [hrange] at hri
    have hfits := hcall.fits ri hri
    have hunread := hs.unread ri hri
    have hold := hs.valid.ring .rx ri hri
    unfold NmDesc.Fits at hfits hunread ⊢
    intro x hx
    rw [hsplit ri hri] at hx
    rcases List.mem_append.mp hx with howned | hgiven
    · rw [hcall.slot .rx ri hri x howned, hcall.nrBufSize]
      rw [NetmapRing.owned, hold.head_eq] at howned
      exact hunread x howned
    · exact hfits x hgiven
  · intro ri hri
    have hnew := hcall.valid.ring .tx ri hri
    show (d.ring .tx ri).head < _
    rw [hnew.head_eq]
    exact hnew.cur_lt
  · intro ri _
    dsimp only
    rw [distance_self]
    exact Nat.zero_le _
  · intro ri _ x hx
    rw [between_self] at hx
    cases hx
  · intro ri hri
    have hold := hs.valid.ring .rx ri hri
    have hkept : (s.desc.ring .rx ri).owned.map (d.frame .rx ri) = s.desc.unread ri := by
      rw [NmDesc.unread, NetmapRing.owned, hold.head_eq]
      refine List.map_congr_left fun i hi => ?_
      have howned : i ∈ (s.desc.ring .rx ri).owned := by
        rw [NetmapRing.owned, hold.head_eq]
        exact hi
      exact NmDesc.frame_congr hcall.nrBufSize (hcall.slot .rx ri hri i howned) (hs.unread ri hri i hi)
        (hcall.buffer .rx ri hri i howned)
    have hunread : d.unread ri = s.desc.unread ri
        ++ (between (d.ring .rx ri).numSlots (s.desc.ring .rx ri).tail (d.ring .rx ri).tail).map
          (d.frame .rx ri) := by
      rw [← hkept, ← List.map_append, ← hsplit ri hri]
      rfl
    show s.desc.unread ri ++ (_ ++ []) = [] ++ d.unread ri
    rw [List.append_nil, List.nil_append, hunread]
  · intro ri _
    show s.desc.filled ri (s.hwcur ri) ++ [] = (s.desc.filled ri (s.hwcur ri) ++ []) ++ d.filled ri _
    rw [NmDesc.filled, NmDesc.filled, between_self, List.map_nil, List.append_nil, List.append_nil]

theorem Sound.step {s : NetmapRings} (hs : s.Sound) {bound : Nat}
    (hbound : (s.desc.range .rx).count ≤ bound) {act : RingAct} {s' : NetmapRings}
    (hstep : Lib.Restrict (Step bound) (fun s act => Fitting s.desc.nrBufSize act) s act s') :
    s'.Sound ∧ s.Accounts act s' := by
  obtain ⟨hstep, hfitting⟩ := hstep
  cases hstep with
  | nextpkt hnext => exact hs.nextpkt hbound hnext
  | inject buffer => exact hs.inject hfitting
  | call hcall => exact hs.call hcall

/-- The range of a direction keeps its rings. -/
theorem count_eq {range range' : RingRange} (hcur : range.Has range.cur)
    (hhas : ∀ ri, range'.Has ri ↔ range.Has ri) : range'.count = range.count := by
  have hfirst := (hhas range.first).mpr ⟨Nat.le_refl _, hcur.1.trans hcur.2⟩
  have hlast := (hhas range.last).mpr ⟨hcur.1.trans hcur.2, Nat.le_refl _⟩
  have hfirst' := (hhas range'.first).mp ⟨Nat.le_refl _, hfirst.1.trans hfirst.2⟩
  have hlast' := (hhas range'.last).mp ⟨hlast.1.trans hlast.2, Nat.le_refl _⟩
  unfold RingRange.Has at *
  unfold RingRange.count
  omega

/-- What every step keeps. -/
def Kept (init s : NetmapRings) : Prop :=
  s.Sound ∧ ∀ dir ri, (s.desc.range dir).Has ri ↔ (init.desc.range dir).Has ri

theorem Kept.step {init s s' : NetmapRings} (hinit : init.Sound) (hs : Kept init s) {bound : Nat}
    (hbound : (init.desc.range .rx).count ≤ bound) {act : RingAct}
    (hstep : Lib.Restrict (Step bound) (fun s act => Fitting s.desc.nrBufSize act) s act s') :
    Kept init s' ∧ s.Accounts act s' := by
  obtain ⟨hsound, hhas⟩ := hs
  have hcount := count_eq (hinit.valid.has_cur .rx) (hhas .rx)
  obtain ⟨hsound', haccounts⟩ := hsound.step (hcount.trans_le hbound) hstep
  exact ⟨⟨hsound', fun dir ri => (haccounts.has dir ri).trans (hhas dir ri)⟩, haccounts⟩

/-- A receive ring hands over what the kernel put there: in order, each frame once, and none that was not
put there, however reads, injections and system calls are interleaved. -/
theorem unread_received {init s : NetmapRings} (hinit : init.Sound) {bound : Nat}
    (hbound : (init.desc.range .rx).count ≤ bound) {acts : List RingAct} (hrun : Runs bound init acts s)
    {ri : Nat} (hri : (init.desc.range .rx).Has ri) :
    init.desc.unread ri ++ received ri acts = read ri acts ++ s.desc.unread ri := by
  refine (hrun.conserve (Kept init) (fun s => s.desc.unread ri) _ _ ⟨hinit, fun _ _ => Iff.rfl⟩ ?_).2
  intro s act s' hs hstep
  obtain ⟨hs', haccounts⟩ := hs.step hinit hbound hstep
  refine ⟨hs', ?_⟩
  have hrx := haccounts.rx ri ((hs.2 .rx ri).mpr hri)
  rw [received, read, List.flatMap_singleton, List.flatMap_singleton] at hrx
  exact hrx

/-- The kernel gets from a transmit ring the frames that were injected into it, in order and each once. -/
theorem filled_taken {init s : NetmapRings} (hinit : init.Sound) {bound : Nat}
    (hbound : (init.desc.range .rx).count ≤ bound) {acts : List RingAct} (hrun : Runs bound init acts s)
    {ri : Nat} (hri : (init.desc.range .tx).Has ri) :
    init.desc.filled ri (init.hwcur ri) ++ taken ri acts
      = sent ri acts ++ s.desc.filled ri (s.hwcur ri) := by
  refine (hrun.conserve (Kept init) (fun s => s.desc.filled ri (s.hwcur ri)) _ _
    ⟨hinit, fun _ _ => Iff.rfl⟩ ?_).2
  intro s act s' hs hstep
  obtain ⟨hs', haccounts⟩ := hs.step hinit hbound hstep
  refine ⟨hs', ?_⟩
  have htx := haccounts.tx ri ((hs.2 .tx ri).mpr hri)
  rw [taken, sent, List.flatMap_singleton, List.flatMap_singleton] at htx
  exact htx

/-- The rings of `twoRings` after a system call. -/
def atRest : NetmapRings := ⟨.twoRings, fun _ => 0⟩

theorem atRest_sound : atRest.Sound where
  valid := NmDesc.twoRings_valid
  unread _ _ _ _ := (by decide : 3 ≤ 64)
  hwcur_lt _ _ := Nat.zero_lt_two
  order _ _ := (by decide : distance 2 0 0 ≤ distance 2 0 1)
  filled _ _ x hx := by cases hx

theorem twoRings_call : KernelCall NmDesc.twoRings NmDesc.twoRings where
  valid := NmDesc.twoRings_valid
  nrBufSize := rfl
  range := rfl
  numSlots _ _ _ := rfl
  head _ _ _ := rfl
  tail _ _ _ := Nat.le_refl _
  slot _ _ _ _ _ := rfl
  buffer _ _ _ _ _ _ _ := rfl
  fits _ _ x hx := by cases hx

/-- The waiting packet is read after a system call. -/
theorem runs_read : Runs 1 atRest
    [.call (fun _ => []) (fun _ => []), .nextpkt (some (0, [0, 0, 0]))]
    ⟨NmDesc.twoRings.taken 0, fun _ => 0⟩ := by
  have hcall : Step 1 atRest (.call _ _) atRest := Step.call twoRings_call
  have htaken : NmDesc.twoRings.nmNextpkt 1 = some (NmDesc.twoRings.taken 0, some ⟨0, 128, 3, (0, 0)⟩) := rfl
  have hread : Step 1 atRest (.nextpkt _) ⟨NmDesc.twoRings.taken 0, fun _ => 0⟩ := Step.nextpkt htaken
  have hfirst : Runs 1 atRest [.call (fun _ => []) (fun _ => [])] atRest := Lib.Run.single ⟨hcall, trivial⟩
  exact hfirst.snoc ⟨hread, trivial⟩

theorem unread_received_atRest :
    atRest.desc.unread 0 ++ [] = [[0, 0, 0]] ++ (NmDesc.twoRings.taken 0).unread 0 :=
  unread_received atRest_sound (by decide : _ ≤ 1) runs_read ⟨Nat.le_refl 0, Nat.le_refl 0⟩

/-- A frame of one byte is injected and taken by the kernel. -/
theorem runs_inject : Runs 1 atRest [.inject (Buffer.single 5) (some 0)]
    ⟨NmDesc.twoRings.fill 0 (Buffer.single 5), fun _ => 0⟩ :=
  Lib.Run.single ⟨Step.inject atRest (Buffer.single 5), by decide, by decide⟩

theorem filled_taken_atRest :
    atRest.desc.filled 0 0 ++ [[5]]
      = [] ++ (NmDesc.twoRings.fill 0 (Buffer.single 5)).filled 0 0 :=
  filled_taken atRest_sound (by decide : _ ≤ 1) runs_inject ⟨Nat.le_refl 0, Nat.le_refl 0⟩

end NetmapRings

/-! ### Frames that find no room -/

namespace NmDesc

/-- `nm_inject` finds no room exactly if the rings from the current one to the last and the first one are
full, whatever room the rings between the first and the current one have. -/
theorem roomyRing_eq_none {d : NmDesc} (hcur : (d.range .tx).Has (d.range .tx).cur) :
    d.roomyRing = none ↔ (d.ring .tx (d.range .tx).first).nmRingEmpty = true ∧
      ∀ ri, (d.range .tx).cur ≤ ri → ri ≤ (d.range .tx).last → (d.ring .tx ri).nmRingEmpty = true := by
  have hfull : d.roomyRing = none ↔
      ∀ c < (d.range .tx).count, (d.ring .tx (d.injectRing c)).nmRingEmpty = true := by
    simp [roomyRing, List.find?_eq_none]
  rw [hfull]
  unfold RingRange.Has at hcur
  constructor
  · intro htried
    have hbehind : ∀ ri, (d.range .tx).cur ≤ ri → ri ≤ (d.range .tx).last →
        (d.ring .tx ri).nmRingEmpty = true := by
      intro ri hle hlast
      have hri : d.injectRing (ri - (d.range .tx).cur) = ri := by
        unfold injectRing
        split_ifs <;> omega
      have hempty := htried (ri - (d.range .tx).cur) (by unfold RingRange.count; omega)
      rwa [hri] at hempty
    refine ⟨?_, hbehind⟩
    rcases Nat.eq_or_lt_of_le hcur.1 with hfirst | hlt
    · rw [hfirst]
      exact hbehind _ (Nat.le_refl _) hcur.2
    · have hri : d.injectRing ((d.range .tx).last + 1 - (d.range .tx).cur) = (d.range .tx).first := by
        unfold injectRing
        split_ifs <;> omega
      have hempty := htried ((d.range .tx).last + 1 - (d.range .tx).cur) (by unfold RingRange.count; omega)
      rwa [hri] at hempty
  · intro hempty c _
    unfold injectRing
    split_ifs with hwrap
    · exact hempty.1
    · exact hempty.2 _ (Nat.le_add_right _ _) (by omega)

end NmDesc

namespace NetmapEngine

/-- `InjectPacket` leaves everything as it was, and so drops the frame, exactly if the rings `nm_inject`
looks at are full. The exception it has for this is thrown in no such case: the only frame it is ever
thrown for has the length `2^32 - 1` and was accepted. -/
theorem injectPacket_drops_iff {nmd : NmDesc} (hnmd : nmd.Valid) (buffer : Buffer) :
    ((injectPacket nmd buffer).1 = nmd ↔
      (nmd.ring .tx (nmd.range .tx).first).nmRingEmpty = true ∧
        ∀ ri, (nmd.range .tx).cur ≤ ri → ri ≤ (nmd.range .tx).last →
          (nmd.ring .tx ri).nmRingEmpty = true) ∧
      ((injectPacket nmd buffer).2 ≠ none ↔
        buffer.length = 2 ^ 32 - 1 ∧ (injectPacket nmd buffer).1 ≠ nmd) := by
  have hcur := hnmd.has_cur .tx
  rw [← NmDesc.roomyRing_eq_none hcur]
  cases hroomy : nmd.roomyRing with
  | none =>
      have hdropped : injectPacket nmd buffer = (nmd, none) := by
        rw [injectPacket, NmDesc.nmInject, hroomy]
        rfl
      rw [hdropped]
      simp
  | some ri =>
      obtain ⟨hri, hroom⟩ := NmDesc.roomyRing_some hcur hroomy
      have hring := hnmd.ring .tx ri hri
      have hmoved : nmd.fill ri buffer ≠ nmd := by
        intro hsame
        have hnext := NmDesc.fill_self nmd ri buffer
        rw [hsame] at hnext
        have hcurrent : (nmd.ring .tx ri).cur = next (nmd.ring .tx ri).numSlots (nmd.ring .tx ri).cur :=
          congrArg NetmapRing.cur hnext
        have hne : (nmd.ring .tx ri).cur ≠ (nmd.ring .tx ri).tail := by
          intro heq
          rw [(NetmapRing.nmRingEmpty_iff _).mpr heq] at hroom
          cases hroom
        have hcur_lt := hring.cur_lt
        have htail_lt := hring.tail_lt
        unfold next at hcurrent
        split_ifs at hcurrent <;> omega
      have haccepted : (injectPacket nmd buffer).1 = nmd.fill ri buffer := by
        rw [injectPacket, NmDesc.nmInject, hroomy]
      have hlength := buffer.length_lt
      rw [haccepted]
      refine ⟨iff_of_false hmoved (by simp), ?_⟩
      have hthrown : (injectPacket nmd buffer).2 ≠ none ↔
          (if 2 ^ 31 ≤ buffer.length then (buffer.length : Int) - 2 ^ 32 else (buffer.length : Int)) = -1 := by
        rw [injectPacket, NmDesc.nmInject, hroomy]
        simp
      rw [hthrown, and_iff_left hmoved]
      by_cases hbig : 2 ^ 31 ≤ buffer.length
      · rw [if_pos hbig]
        omega
      · rw [if_neg hbig]
        omega

theorem injectPacket_drops_iff_twoRings :
    (injectPacket NmDesc.twoRings (Buffer.single 5)).1 ≠ NmDesc.twoRings := by
  rw [Ne, (injectPacket_drops_iff NmDesc.twoRings_valid (Buffer.single 5)).1]
  intro hfull
  exact absurd hfull.1 (by decide)

end NetmapEngine

end Armore.Proxy
