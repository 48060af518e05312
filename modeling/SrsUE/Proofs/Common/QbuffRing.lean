import Mathlib.Algebra.Order.BigOperators.Group.List
import Mathlib.Algebra.Order.Ring.Nat
import SrsUE.Common.Qbuff
import SrsUE.Lib.Ring

/-!
# `SrsUE.Proofs.Common.QbuffRing`: the messages of a queue of buffers

`QbuffRep n m q msgs` says that a queue of `n` messages of at most `m` bytes stands for a list of
messages. Packet `k` points to byte `k * m` of the buffer. The packets from `rp` on are valid and
hold the list, the others are not valid, and `wp` is the packet behind the list. The list may go
around the end of the packets any number of times.

There is a lemma for each function of the queue: it returns what the list says, and leaves a queue
that stands for the list after the operation. They need `n < 2 ^ 31` and `n * m < 2 ^ 32`.
-/

set_option autoImplicit false

namespace SrsUE.Proofs.Common

open SrsUE.Common SrsUE.Lib
open SrsUE.Rlc (Bytes add32 sub32 add32_of_lt sub32_of_le)

/-! ### Slots of the buffer -/

/-- Each packet has its place in the memory. -/
theorem slot_inside {n k : Nat} (m : Nat) (hk : k < n) : k * m + m ≤ n * m := by
  rw [← Nat.succ_mul]
  exact Nat.mul_le_mul_right m hk

/-- The places of two packets do not overlap. -/
theorem slot_apart {j k : Nat} (m : Nat) (hne : k ≠ j) : k * m + m ≤ j * m ∨ j * m + m ≤ k * m :=
  (Nat.lt_or_gt_of_ne hne).imp (slot_inside m) (slot_inside m)

/-- The packet holds the message. -/
structure SlotHolds (m : Nat) (q : Qbuff) (k : Nat) (x : Bytes) : Prop where
  valid : (q.packets k).valid = true
  len : (q.packets k).len = x.length
  length_le : x.length ≤ m
  bytes : At q.buffer (k * m) x

/-- The packet holds no message. -/
structure SlotFree (q : Qbuff) (k : Nat) : Prop where
  valid : (q.packets k).valid = false
  len : (q.packets k).len = 0

/-- The queue stands for a list of messages. -/
structure QbuffRep (n m : Nat) (q : Qbuff) (msgs : List Bytes) : Prop where
  nofMessages : q.nofMessages = n
  maxMsgSize : q.maxMsgSize = m
  length_buffer : q.buffer.length = n * m
  ptr : ∀ k, k < n → (q.packets k).ptr = k * m
  ring : InRing (SlotHolds m q) (SlotFree q) n q.rp msgs
  wp : q.wp = slotAt n q.rp msgs.length

/-- Positions advance by one slot, also where `1 - nof_messages` wraps around. -/
theorem Qbuff.advance_eq {q : Qbuff} {p : Nat} (hn : q.nofMessages < 2 ^ 32)
    (hp : p < q.nofMessages) :
    q.advance p = slotAt q.nofMessages p 1 := by
  have hnext : add32 p 1 = p + 1 := add32_of_lt (by omega)
  rw [Qbuff.advance, hnext]
  split
  · -- The last packet.
    have hlast : q.nofMessages = p + 1 := by omega
    rw [hlast, slotAt, Nat.mod_self]
    unfold add32 sub32
    split
    · omega
    · omega
  · rw [hnext, slotAt, Nat.mod_eq_of_lt (by omega)]

/-- A loop with an `int` counter ends when the bound is one, and then goes through all numbers
below. -/
theorem countTo_eq_some_iff {n : Nat} {is : List Nat} :
    countTo n = some is ↔ n < 2 ^ 31 ∧ is = List.range n := by
  rw [countTo]
  split
  · rw [Option.some_inj, eq_comm, and_iff_right ‹_›]
  · rename_i hge
    exact iff_of_false (fun h => by cases h) fun h => hge h.1

/-- Adding up 32-bit numbers, if the sum is one. -/
theorem foldl_add32 (is : List Nat) (g : Nat → Nat) {t : Nat} (hlt : t + (is.map g).sum < 2 ^ 32) :
    is.foldl (fun total i => add32 total (g i)) t = t + (is.map g).sum := by
  induction is generalizing t with
  | nil => rfl
  | cons i is ih =>
    rw [List.map_cons, List.sum_cons] at hlt ⊢
    rw [List.foldl_cons, add32_of_lt (by omega), ih (by omega), Nat.add_assoc]

namespace QbuffRep

variable {n m : Nat} {q : Qbuff} {msgs rest : List Bytes} {x : Bytes}

/-- The read pointer is the index of a packet. -/
theorem rp_lt (h : QbuffRep n m q msgs) : q.rp < n := h.ring.start_lt

/-- So is the write pointer. -/
theorem wp_lt (h : QbuffRep n m q msgs) : q.wp < n := by
  rw [h.wp]
  exact slotAt_lt h.ring.pos

/-- A pointer moves on around the ring. -/
theorem advance (h : QbuffRep n m q msgs) (hn : n < 2 ^ 31) {p : Nat} (hp : p < n) :
    q.advance p = slotAt n p 1 := by
  have hnof := h.nofMessages
  rw [Qbuff.advance_eq (by omega) (by omega), hnof]

/-! ### Which packets are valid -/

/-- From the read pointer on, the packets that hold messages are valid. -/
theorem valid_iff (h : QbuffRep n m q msgs) {i : Nat} (hi : i < n) :
    (q.packets (slotAt n q.rp i)).valid = true ↔ i < msgs.length := by
  constructor
  · intro hvalid
    by_contra hge
    rw [(h.ring.free i (Nat.le_of_not_lt hge) hi).valid] at hvalid
    cases hvalid
  · exact fun hlt => (h.ring.used i hlt).valid

/-- The queue says that it is empty when there are no messages. -/
theorem isempty_iff (h : QbuffRep n m q msgs) : q.isempty = true ↔ msgs = [] := by
  have hvalid := h.valid_iff h.ring.pos
  rw [slotAt_zero h.rp_lt] at hvalid
  rw [Qbuff.isempty, Bool.not_eq_true', ← Bool.not_eq_true, hvalid, Nat.not_lt, Nat.le_zero]
  exact List.length_eq_zero_iff

/-- It says that it is full when there is a message in every packet. -/
theorem isfull_iff (h : QbuffRep n m q msgs) : q.isfull = true ↔ n ≤ msgs.length := by
  rw [Qbuff.isfull, h.wp]
  rcases Nat.lt_or_ge msgs.length n with hlt | hge
  · rw [h.valid_iff hlt]
    omega
  · -- Once around the ring, `wp` is the first valid packet again.
    have hlen : msgs.length = n := Nat.le_antisymm h.ring.length_le hge
    have haround : slotAt n q.rp n = slotAt n q.rp 0 := by
      rw [slotAt, slotAt, Nat.add_mod_right, Nat.add_zero]
    rw [hlen, haround, h.valid_iff h.ring.pos]
    have := h.ring.pos
    omega

/-- `request` gives the place of the write pointer, unless the queue is full. -/
theorem request (h : QbuffRep n m q msgs) :
    q.request = if msgs.length < n then some (q.wp * m) else none := by
  rw [Qbuff.request]
  by_cases hfull : n ≤ msgs.length
  · rw [if_pos (h.isfull_iff.mpr hfull), if_neg (by omega)]
  · rw [if_neg (fun hf => hfull (h.isfull_iff.mp hf)), if_pos (by omega), h.ptr _ h.wp_lt]

/-! ### Reading -/

/-- `pop` gives the first message, if there is one. -/
theorem pop (h : QbuffRep n m q msgs) :
    q.pop = msgs.head?.map fun x => (q.rp * m, x.length) := by
  rw [Qbuff.pop]
  cases msgs with
  | nil => exact if_pos (h.isempty_iff.mpr rfl)
  | cons x rest =>
    rw [if_neg (fun hempty => List.cons_ne_nil _ _ (h.isempty_iff.mp hempty)), h.ptr _ h.rp_lt,
      h.ring.head.len]
    rfl

/-- The loop of `pop(len, idx)` stops at the packet it looks for, or behind the last valid one. -/
theorem seek (h : QbuffRep n m q msgs) (hn : n < 2 ^ 31) {i k : Nat} (hi : i ≤ msgs.length)
    (hk : i + k < n) :
    q.seek k (slotAt n q.rp i) = slotAt n q.rp (min (i + k) msgs.length) := by
  induction k generalizing i with
  | zero => rw [Qbuff.seek, Nat.add_zero, Nat.min_eq_left hi]
  | succ k ih =>
    rw [Qbuff.seek]
    by_cases hlt : i < msgs.length
    · rw [if_pos ((h.valid_iff (by omega)).mpr hlt), h.advance hn (slotAt_lt h.ring.pos),
        slotAt_slotAt, ih hlt (by omega)]
      congr 2
      omega
    · rw [if_neg (fun hv => hlt ((h.valid_iff (by omega)).mp hv)), Nat.min_eq_right (by omega)]
      congr 1
      omega

/-- `pop(idx)` gives the message at an index, if there is one. -/
theorem popAt (h : QbuffRep n m q msgs) (hn : n < 2 ^ 31) {idx : Nat} (hidx : idx < n) :
    q.popAt idx = msgs[idx]?.map fun x => (slotAt n q.rp idx * m, x.length) := by
  rw [Qbuff.popAt]
  split
  · rename_i hzero
    subst hzero
    rw [h.pop, slotAt_zero h.rp_lt, ← List.head?_eq_getElem?]
  -- The loop has stopped at packet `idx` of the list, or behind its end.
  · have hseek := h.seek hn (Nat.zero_le msgs.length) (show 0 + idx < n by omega)
    rw [slotAt_zero h.rp_lt, Nat.zero_add] at hseek
    dsimp only
    rw [hseek]
    by_cases hlt : idx < msgs.length
    · rw [Nat.min_eq_left (Nat.le_of_lt hlt), if_pos ((h.valid_iff hidx).mpr hlt),
        h.ptr _ (slotAt_lt h.ring.pos), (h.ring.used idx hlt).len, List.getElem?_eq_getElem hlt]
      rfl
    · rw [Nat.min_eq_right (Nat.le_of_not_lt hlt),
        if_neg (fun hv => Nat.lt_irrefl _ ((h.valid_iff (by omega)).mp hv)),
        List.getElem?_eq_none (Nat.le_of_not_lt hlt)]
      rfl

/-- What a packet in the queue points to. -/
theorem readAt_slot (h : QbuffRep n m q msgs) {i : Nat} (hi : i < msgs.length) :
    readAt q.buffer (slotAt n q.rp i * m) msgs[i].length = some msgs[i] := by
  have hused := h.ring.used i hi
  have hin := slot_inside m (show slotAt n q.rp i < n from slotAt_lt h.ring.pos)
  exact hused.bytes.readAt (by rw [h.length_buffer]; have := hused.length_le; omega)

/-- The memory at the read pointer holds the first message. -/
theorem readAt_head (h : QbuffRep n m q (x :: rest)) :
    readAt q.buffer (q.rp * m) x.length = some x := by
  have hread := h.readAt_slot (Nat.succ_pos rest.length)
  rw [slotAt_zero h.rp_lt] at hread
  exact hread

/-! ### Counting -/

/-- The loops over the packets go through all of them. -/
theorem countTo_eq (h : QbuffRep n m q msgs) (hn : n < 2 ^ 31) :
    countTo q.nofMessages = some (List.range n) := by
  rw [h.nofMessages]
  exact countTo_eq_some_iff.mpr ⟨hn, rfl⟩

/-- `pending_msgs` counts the messages. -/
theorem pendingMsgs (h : QbuffRep n m q msgs) (hn : n < 2 ^ 31) :
    q.pendingMsgs = some msgs.length := by
  have hsum := h.ring.sum_eq (g := fun i => if (q.packets i).valid then 1 else 0) (v := fun _ => 1)
    (fun k x hk => if_pos hk.valid) (fun k hk =>
      if_neg (by rw [hk.valid]; exact Bool.false_ne_true))
  rw [List.map_const', List.sum_replicate_nat, Nat.mul_one] at hsum
  have hle := h.ring.length_le
  rw [Qbuff.pendingMsgs, h.countTo_eq hn, Option.map_some, foldl_add32 _ _ (by omega), hsum,
    Nat.zero_add]

/-- The messages have room in the memory. -/
theorem sum_length_le (h : QbuffRep n m q msgs) : (msgs.map List.length).sum ≤ n * m := by
  have hle : ∀ l ∈ msgs.map List.length, l ≤ m := by
    intro l hl
    obtain ⟨x, hx, rfl⟩ := List.mem_map.mp hl
    obtain ⟨i, hi, rfl⟩ := List.getElem_of_mem hx
    exact (h.ring.used i hi).length_le
  have hsum := List.sum_le_card_nsmul _ m hle
  rw [List.length_map, Nat.nsmul_eq_mul] at hsum
  exact Nat.le_trans hsum (Nat.mul_le_mul_right m h.ring.length_le)

/-- `pending_data` sums up the messages. -/
theorem pendingData (h : QbuffRep n m q msgs) (hn : n < 2 ^ 31) (hsize : n * m < 2 ^ 32) :
    q.pendingData = some (msgs.map List.length).sum := by
  have hsum :=
    h.ring.sum_eq (g := fun i => (q.packets i).len) (v := List.length) (fun k x hk => hk.len)
    (fun k hk => hk.len)
  have hle := h.sum_length_le
  rw [Qbuff.pendingData, h.countTo_eq hn, Option.map_some, foldl_add32 _ _ (by omega), hsum,
    Nat.zero_add]

/-! ### Writing -/

/-- The writer writes into the packet behind the list. -/
theorem writeMem (h : QbuffRep n m q msgs) (hroom : msgs.length < n) {off : Nat} {bytes : Bytes}
    (hlen : off + bytes.length ≤ m) :
    ∃ buffer, writeAt q.buffer (q.wp * m + off, bytes) = some buffer ∧
      QbuffRep n m { q with buffer := buffer } msgs := by
  have hin := slot_inside m h.wp_lt
  have hwrite := writeAt_of_inside (show Inside q.buffer.length (q.wp * m + off, bytes) by
    rw [Inside, h.length_buffer]
    dsimp only
    omega)
  refine ⟨_, hwrite, h.nofMessages, h.maxMsgSize, ?_, h.ptr, ?_, h.wp⟩
  · exact (length_writeAt hwrite).trans h.length_buffer
  · refine h.ring.imp (fun i hi hused => ⟨hused.valid, hused.len, hused.length_le, ?_⟩) fun _ _ _
      hfree =>
      ⟨hfree.valid, hfree.len⟩
    -- A packet of the list is not the one that is written to, so its bytes stay.
    have hne : slotAt n q.rp i ≠ q.wp := by
      rw [h.wp]
      exact fun heq => Nat.ne_of_lt hi ((slotAt_inj (by omega) hroom).mp heq)
    have hle := hused.length_le
    refine hused.bytes.writeAt_other hwrite ?_
    dsimp only
    rcases slot_apart m hne with hbefore | hbehind
    · exact Or.inl (by omega)
    · exact Or.inr (by omega)

/-- `push` adds the message that was written at the place of the write pointer. -/
theorem push (h : QbuffRep n m q msgs) (hn : n < 2 ^ 31) (hroom : msgs.length < n)
    (hx : x.length ≤ m)
    (hat : At q.buffer (q.wp * m) x) : QbuffRep n m (q.push x.length) (msgs ++ [x]) where
  nofMessages := h.nofMessages
  maxMsgSize := h.maxMsgSize
  length_buffer := h.length_buffer
  ptr k hk := by
    show (Function.update q.packets q.wp _ k).ptr = k * m
    rcases eq_or_ne k q.wp with rfl | hne
    · rw [Function.update_self]
      exact h.ptr _ hk
    · rw [Function.update_of_ne hne]
      exact h.ptr k hk
  ring := by
    have hother : ∀ k, k ≠ slotAt n q.rp msgs.length → (q.push x.length).packets k
        = q.packets k := by
      intro k hne
      exact Function.update_of_ne (by rw [h.wp]; exact hne) ..
    have hself : (q.push x.length).packets q.wp
        = { q.packets q.wp with len := x.length, valid := true } :=
      Function.update_self ..
    refine h.ring.snoc hroom ?_ (fun k _ hne y hy => ?_) (fun k _ hne hk => ?_)
    · rw [← h.wp]
      exact ⟨by rw [hself], by rw [hself], hx, hat⟩
    · exact ⟨by rw [hother k hne]; exact hy.valid, by rw [hother k hne]; exact hy.len, hy.length_le,
        hy.bytes⟩
    · exact ⟨by rw [hother k hne]; exact hk.valid, by rw [hother k hne]; exact hk.len⟩
  wp := by
    show q.advance q.wp = _
    rw [h.advance hn h.wp_lt, h.wp, slotAt_slotAt, List.length_append]
    rfl

/-- `release` takes the first message off. -/
theorem release (h : QbuffRep n m q (x :: rest)) (hn : n < 2 ^ 31) :
    QbuffRep n m q.release rest where
  nofMessages := h.nofMessages
  maxMsgSize := h.maxMsgSize
  length_buffer := h.length_buffer
  ptr k hk := by
    show (Function.update q.packets q.rp _ k).ptr = k * m
    rcases eq_or_ne k q.rp with rfl | hne
    · rw [Function.update_self]
      exact h.ptr _ hk
    · rw [Function.update_of_ne hne]
      exact h.ptr k hk
  ring := by
    have hother : ∀ k, k ≠ q.rp → q.release.packets k = q.packets k :=
      fun k hne => Function.update_of_ne hne ..
    have hself : q.release.packets q.rp = { q.packets q.rp with valid := false, len := 0 } :=
      Function.update_self ..
    show InRing _ _ n (q.advance q.rp) rest
    rw [h.advance hn h.rp_lt]
    refine h.ring.tail (fun k _ hne y hy => ?_) (fun k _ hne hk => ?_) ?_
    · exact ⟨by rw [hother k hne]; exact hy.valid, by rw [hother k hne]; exact hy.len, hy.length_le,
        hy.bytes⟩
    · exact ⟨by rw [hother k hne]; exact hk.valid, by rw [hother k hne]; exact hk.len⟩
    · exact ⟨by rw [hself], by rw [hself]⟩
  wp := by
    show q.wp = slotAt n (q.advance q.rp) rest.length
    rw [h.advance hn h.rp_lt, slotAt_slotAt, h.wp, List.length_cons, Nat.add_comm 1]

end QbuffRep

/-! ### A new queue -/

/-- What `flush` makes of the packets. -/
theorem packets_of_flush {q q' : Qbuff} (h : q.flush = some q') {i : Nat} (hi : i < q.nofMessages) :
    q'.packets i = { valid := false, ptr := i * q.maxMsgSize % 2 ^ 32, len := 0 } := by
  obtain ⟨is, hcount, rfl⟩ := Option.map_eq_some_iff.mp h
  obtain ⟨-, rfl⟩ := countTo_eq_some_iff.mp hcount
  exact if_pos (List.mem_range.mpr hi)

/-- `flush` empties the queue, whatever it held. -/
theorem qbuffRep_flush {n m : Nat} {q : Qbuff} (hpos : 1 ≤ n) (hn : n < 2 ^ 31)
    (hsize : n * m < 2 ^ 32)
    (hnof : q.nofMessages = n) (hmax : q.maxMsgSize = m) (hbuffer : q.buffer.length = n * m) :
    ∃ q', q.flush = some q' ∧ QbuffRep n m q' [] := by
  have hcount : countTo q.nofMessages = some (List.range n) := countTo_eq_some_iff.mpr (by
    rw [hnof]
    exact ⟨hn, rfl⟩)
  have hflush := (show q.flush = some _ from congrArg (Option.map _) hcount)
  have hpackets := fun k (hk : k < n) => packets_of_flush hflush (hk.trans_eq hnof.symm)
  refine ⟨_, hflush, hnof, hmax, hbuffer, fun k hk => ?_, ?_, ?_⟩
  · rw [hpackets k hk, hmax]
    have := slot_inside m hk
    exact Nat.mod_eq_of_lt (by omega)
  · exact .empty hpos fun k hk => ⟨by rw [hpackets k hk], by rw [hpackets k hk]⟩
  · exact (slotAt_zero hpos).symm

/-- `init` makes an empty queue. -/
theorem qbuffRep_init {n m : Nat} (hpos : 1 ≤ n) (hn : n < 2 ^ 31) (hsize : n * m < 2 ^ 32) :
    ∃ q, Qbuff.init n m = some q ∧ QbuffRep n m q [] :=
  qbuffRep_flush hpos hn hsize rfl rfl (by rw [List.length_replicate, Nat.mod_eq_of_lt hsize])

end SrsUE.Proofs.Common
