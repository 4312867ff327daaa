import Armore.Lib.Circular
import Armore.Proxy.Request

/-!
# The netmap capture engine

`NetmapEngine` reads and injects frames through the rings that the kernel maps into the process. A ring is
a circular array of slots, each with the index and the length of a buffer; the slots from `head` up to
`tail` belong to the program and the others to the kernel, which touches what the rings hold only during a
system call. `nm_nextpkt` takes a frame from the receive rings, trying one ring after the other, and
`nm_inject` fills a slot of a transmit ring.

All rings share one region of buffers. The model keeps it as one memory with buffers of `nr_buf_size` bytes
side by side, so that a copy which leaves its buffer runs into the next one.
-/

namespace Armore.Proxy

open Lib.Circular

structure NetmapSlot where
  bufIdx : Nat
  len : Nat

/-- `netmap_ring`: the slots the program owns are those from `head` up to `tail`. -/
structure NetmapRing where
  numSlots : Nat
  slot : Nat → NetmapSlot
  head : Nat
  cur : Nat
  tail : Nat
  ts : Int × Int

/-- The `dir` of a ring. -/
inductive Direction
  | tx
  | rx
deriving DecidableEq

/-- The rings `first_*_ring` to `last_*_ring` of a direction, and `cur_*_ring`. -/
structure RingRange where
  first : Nat
  last : Nat
  cur : Nat

/-- `nm_desc`; `mem` begins at `buf_start`. -/
structure NmDesc where
  mem : Memory
  nrBufSize : Nat
  ring : Direction → Nat → NetmapRing
  range : Direction → RingRange

/-- What `nm_nextpkt` returns: the buffer, as an offset, and `hdr`; with the ring it came from. -/
structure Packet where
  ring : Nat
  value : Nat
  len : Nat
  ts : Int × Int
deriving DecidableEq

namespace NetmapRing

def nmRingNext (r : NetmapRing) (i : Nat) : Nat := if i + 1 = r.numSlots then 0 else i + 1

def nmRingEmpty (r : NetmapRing) : Bool := r.cur == r.tail

/-- `ring->head = ring->cur = nm_ring_next(ring, ring->cur);` -/
def forward (r : NetmapRing) : NetmapRing := { r with head := r.nmRingNext r.cur, cur := r.nmRingNext r.cur }

/-- `ring->slot[i].len = size;` -/
def setLen (r : NetmapRing) (i size : Nat) : NetmapRing :=
  { r with slot := fun j => if j = i then ⟨(r.slot i).bufIdx, size % 2 ^ 16⟩ else r.slot j }

end NetmapRing

/-- How many rings the range has. -/
def RingRange.count (range : RingRange) : Nat := range.last - range.first + 1

namespace NmDesc

def setRing (d : NmDesc) (dir : Direction) (ri : Nat) (r : NetmapRing) : NmDesc :=
  { d with ring := fun dir' ri' => if dir' = dir ∧ ri' = ri then r else d.ring dir' ri' }

/-- `d->cur_*_ring = ri;` -/
def setCur (d : NmDesc) (dir : Direction) (ri : Nat) : NmDesc :=
  { d with range := fun dir' => if dir' = dir then { d.range dir with cur := ri } else d.range dir' }

/-- `NETMAP_BUF(ring, ring->slot[i].buf_idx)` -/
def netmapBuf (d : NmDesc) (dir : Direction) (ri i : Nat) : Nat :=
  ((d.ring dir ri).slot i).bufIdx * d.nrBufSize

/-! ### Receiving -/

/-- The packet of a slot. -/
def packet (d : NmDesc) (ri i : Nat) : Packet :=
  ⟨ri, d.netmapBuf .rx ri i, ((d.ring .rx ri).slot i).len, (d.ring .rx ri).ts⟩

/-- The loop of `nm_nextpkt` from ring `ri` on: the ring it stops at, or none when it is back at
`cur_rx_ring`. There is no result where the bound was too small. -/
def searchRings (d : NmDesc) : Nat → Nat → Option (Option Nat)
  | 0, _ => none
  | bound + 1, ri =>
    if (d.ring .rx ri).nmRingEmpty then
      let ri := if ri + 1 > (d.range .rx).last then (d.range .rx).first else ri + 1
      if ri ≠ (d.range .rx).cur then searchRings d bound ri else some none
    else some (some ri)

def nmNextpkt (bound : Nat) (d : NmDesc) : Option (NmDesc × Option Packet) :=
  (d.searchRings bound (d.range .rx).cur).map fun
    | none => (d, none)
    | some ri =>
      ((d.setRing .rx ri (d.ring .rx ri).forward).setCur .rx ri,
        some (d.packet ri (d.ring .rx ri).cur))

/-! ### Sending -/

/-- How many bytes `nm_pkt_copy` writes: its length is an `int`, and below 1024 bytes it copies in pieces
of 64. -/
def copied (size : Nat) : Nat :=
  if 2 ^ 31 ≤ size then 0 else if 1024 ≤ size then size else 64 * ((size + 63) / 64)

def nmPktCopy (src : Memory) (mem : Memory) (dst size : Nat) : Memory :=
  fun i => if dst ≤ i ∧ i < dst + copied size then src (i - dst) else mem i

/-- The ring `nm_inject` tries in its iteration `c`. -/
def injectRing (d : NmDesc) (c : Nat) : Nat :=
  if (d.range .tx).cur + c > (d.range .tx).last then (d.range .tx).first else (d.range .tx).cur + c

/-- The ring `nm_inject` uses. -/
def roomyRing (d : NmDesc) : Option Nat :=
  ((List.range (d.range .tx).count).map d.injectRing).find? fun ri => !(d.ring .tx ri).nmRingEmpty

/-- The rest of an iteration of `nm_inject` that found room. -/
def fill (d : NmDesc) (ri : Nat) (buf : Buffer) : NmDesc :=
  let i := (d.ring .tx ri).cur
  let mem := nmPktCopy buf.byte d.mem (d.netmapBuf .tx ri i) buf.length
  { (d.setRing .tx ri ((d.ring .tx ri).setLen i buf.length).forward).setCur .tx ri with mem }

/-- `nm_inject`, with the `int` it returns. -/
def nmInject (d : NmDesc) (buf : Buffer) : NmDesc × Int :=
  match d.roomyRing with
  | none => (d, 0)
  | some ri => (d.fill ri buf, if 2 ^ 31 ≤ buf.length then (buf.length : Int) - 2 ^ 32 else buf.length)

end NmDesc

namespace NetmapEngine

/-- `GetNextPacket` on `m_nmd`, none standing for `Buffer::Empty`. -/
def getNextPacket (bound : Nat) : Option NmDesc → Option (Option NmDesc × Option Packet)
  | none => some (none, none)
  | some nmd => (nmd.nmNextpkt bound).map fun (nmd, packet) => (some nmd, packet)

/-- `InjectPacket`, with the `runtime_error` it throws. -/
def injectPacket (nmd : NmDesc) (buffer : Buffer) : NmDesc × Option String :=
  let (nmd, result) := nmd.nmInject buffer
  (nmd, if result = -1 then some "Failed to inject netmap packet" else none)

end NetmapEngine

/-! ### Well-formed descriptors -/

structure NetmapRing.Valid (r : NetmapRing) : Prop where
  head_eq : r.head = r.cur
  cur_lt : r.cur < r.numSlots
  tail_lt : r.tail < r.numSlots

/-- The rings of the range. -/
def RingRange.Has (range : RingRange) (ri : Nat) : Prop := range.first ≤ ri ∧ ri ≤ range.last

/-- The kernel sets a ring up with its positions inside, and gives every slot a buffer of its own. -/
structure NmDesc.Valid (d : NmDesc) : Prop where
  has_cur : ∀ dir, (d.range dir).Has (d.range dir).cur
  ring : ∀ dir ri, (d.range dir).Has ri → (d.ring dir ri).Valid
  buffers : ∀ dir dir' ri ri' i i', (d.range dir).Has ri → (d.range dir').Has ri' →
    i < (d.ring dir ri).numSlots → i' < (d.ring dir' ri').numSlots →
    ((d.ring dir ri).slot i).bufIdx = ((d.ring dir' ri').slot i').bufIdx → dir = dir' ∧ ri = ri' ∧ i = i'

namespace NetmapRing

theorem nmRingEmpty_iff (r : NetmapRing) : r.nmRingEmpty = true ↔ r.cur = r.tail := by
  rw [nmRingEmpty, beq_iff_eq]

theorem Valid.forward {r : NetmapRing} (hr : r.Valid) : r.forward.Valid where
  head_eq := rfl
  cur_lt := next_lt hr.cur_lt
  tail_lt := hr.tail_lt

theorem Valid.setLen {r : NetmapRing} (hr : r.Valid) (i size : Nat) : (r.setLen i size).Valid where
  head_eq := hr.head_eq
  cur_lt := hr.cur_lt
  tail_lt := hr.tail_lt

theorem setLen_self (r : NetmapRing) (i size : Nat) :
    (r.setLen i size).slot i = ⟨(r.slot i).bufIdx, size % 2 ^ 16⟩ := if_pos rfl

theorem setLen_of_ne (r : NetmapRing) {i j : Nat} (size : Nat) (hj : j ≠ i) :
    (r.setLen i size).slot j = r.slot j := if_neg hj

theorem setLen_bufIdx (r : NetmapRing) (i size j : Nat) :
    ((r.setLen i size).slot j).bufIdx = (r.slot j).bufIdx := by
  by_cases hj : j = i
  · rw [hj, setLen_self]
  · rw [setLen_of_ne r size hj]

end NetmapRing

namespace NmDesc

@[simp] theorem setRing_mem (d : NmDesc) (dir : Direction) (ri : Nat) (r : NetmapRing) :
    (d.setRing dir ri r).mem = d.mem := rfl

@[simp] theorem setRing_nrBufSize (d : NmDesc) (dir : Direction) (ri : Nat) (r : NetmapRing) :
    (d.setRing dir ri r).nrBufSize = d.nrBufSize := rfl

@[simp] theorem setRing_range (d : NmDesc) (dir : Direction) (ri : Nat) (r : NetmapRing) :
    (d.setRing dir ri r).range = d.range := rfl

@[simp] theorem setRing_self (d : NmDesc) (dir : Direction) (ri : Nat) (r : NetmapRing) :
    (d.setRing dir ri r).ring dir ri = r := if_pos ⟨rfl, rfl⟩

theorem setRing_of_ne (d : NmDesc) {dir dir' : Direction} {ri ri' : Nat} (r : NetmapRing)
    (hne : ¬ (dir' = dir ∧ ri' = ri)) : (d.setRing dir ri r).ring dir' ri' = d.ring dir' ri' :=
  if_neg hne

@[simp] theorem setCur_mem (d : NmDesc) (dir : Direction) (ri : Nat) :
    (d.setCur dir ri).mem = d.mem := rfl

@[simp] theorem setCur_nrBufSize (d : NmDesc) (dir : Direction) (ri : Nat) :
    (d.setCur dir ri).nrBufSize = d.nrBufSize := rfl

@[simp] theorem setCur_ring (d : NmDesc) (dir : Direction) (ri : Nat) :
    (d.setCur dir ri).ring = d.ring := rfl

@[simp] theorem setCur_self (d : NmDesc) (dir : Direction) (ri : Nat) :
    (d.setCur dir ri).range dir = { d.range dir with cur := ri } := if_pos rfl

theorem setCur_of_ne (d : NmDesc) {dir dir' : Direction} (ri : Nat) (hne : dir' ≠ dir) :
    (d.setCur dir ri).range dir' = d.range dir' := if_neg hne

theorem setCur_has (d : NmDesc) (dir dir' : Direction) (ri ri' : Nat) :
    ((d.setCur dir ri).range dir').Has ri' ↔ (d.range dir').Has ri' := by
  by_cases hdir : dir' = dir
  · rw [hdir, setCur_self]
    rfl
  · rw [setCur_of_ne d ri hdir]

/-- Moving one ring on, its buffers unchanged, and making it the current one keeps the descriptor well
formed. -/
theorem Valid.moved {d : NmDesc} (hd : d.Valid) {dir : Direction} {ri : Nat} (hri : (d.range dir).Has ri)
    {r : NetmapRing} (hr : r.Valid) (hslots : r.numSlots = (d.ring dir ri).numSlots)
    (hbuf : ∀ i, (r.slot i).bufIdx = ((d.ring dir ri).slot i).bufIdx) :
    ((d.setRing dir ri r).setCur dir ri).Valid := by
  have hnum : ∀ dir' ri', (((d.setRing dir ri r).setCur dir ri).ring dir' ri').numSlots
      = (d.ring dir' ri').numSlots := by
    intro dir' ri'
    rw [setCur_ring]
    by_cases hsame : dir' = dir ∧ ri' = ri
    · obtain ⟨rfl, rfl⟩ := hsame
      rw [setRing_self, hslots]
    · rw [setRing_of_ne d r hsame]
  have hidx : ∀ dir' ri' i, ((((d.setRing dir ri r).setCur dir ri).ring dir' ri').slot i).bufIdx
      = ((d.ring dir' ri').slot i).bufIdx := by
    intro dir' ri' i
    rw [setCur_ring]
    by_cases hsame : dir' = dir ∧ ri' = ri
    · obtain ⟨rfl, rfl⟩ := hsame
      rw [setRing_self, hbuf]
    · rw [setRing_of_ne d r hsame]
  constructor
  · intro dir'
    by_cases hdir : dir' = dir
    · rw [hdir, setCur_has, setCur_self]
      exact hri
    · rw [setCur_has, setCur_of_ne _ _ hdir]
      exact hd.has_cur dir'
  · intro dir' ri' hri'
    rw [setCur_has] at hri'
    rw [setCur_ring]
    by_cases hsame : dir' = dir ∧ ri' = ri
    · obtain ⟨rfl, rfl⟩ := hsame
      rw [setRing_self]
      exact hr
    · rw [setRing_of_ne d r hsame]
      exact hd.ring dir' ri' hri'
  · intro dir₁ dir₂ ri₁ ri₂ i₁ i₂ hri₁ hri₂ hi₁ hi₂ heq
    rw [setCur_has] at hri₁ hri₂
    rw [hnum] at hi₁ hi₂
    rw [hidx, hidx] at heq
    exact hd.buffers _ _ _ _ _ _ hri₁ hri₂ hi₁ hi₂ heq

/-- One ring in either direction, with two slots; a packet of three bytes waits, and one slot is free. -/
def twoRings : NmDesc where
  mem := fun _ => 0
  nrBufSize := 64
  ring := fun dir _ => ⟨2, fun i => ⟨if dir = .tx then i else 2 + i, 3⟩, 0, 0, 1, (0, 0)⟩
  range := fun _ => ⟨0, 0, 0⟩

theorem twoRings_valid : twoRings.Valid where
  has_cur _ := ⟨Nat.le_refl 0, Nat.le_refl 0⟩
  ring _ _ _ := ⟨rfl, Nat.zero_lt_two, Nat.one_lt_two⟩
  buffers dir dir' ri ri' i i' hri hri' hi hi' heq := by
    have hzero : ri = 0 := Nat.le_zero.mp hri.2
    have hzero' : ri' = 0 := Nat.le_zero.mp hri'.2
    have hlt : i < 2 := hi
    have hlt' : i' < 2 := hi'
    have hbuf : (if dir = .tx then i else 2 + i) = if dir' = .tx then i' else 2 + i' := heq
    cases dir with
    | tx =>
        cases dir' with
        | tx => exact ⟨rfl, hzero.trans hzero'.symm, hbuf⟩
        | rx =>
            rw [if_pos rfl, if_neg (by decide)] at hbuf
            omega
    | rx =>
        cases dir' with
        | tx =>
            rw [if_neg (by decide), if_pos rfl] at hbuf
            omega
        | rx =>
            rw [if_neg (by decide), if_neg (by decide)] at hbuf
            exact ⟨rfl, hzero.trans hzero'.symm, by omega⟩

end NmDesc

end Armore.Proxy
