import SrsUE.Common.Qbuff
import SrsUE.Lib.Run
import SrsUE.Mac.Msg3
import SrsUE.Mac.PduProcess
import SrsUE.Proofs.Common.QbuffRing

/-!
# `SrsUE.Proofs.Common.QbuffUses`: the queues of buffers in the MAC

Two parts of the MAC are modelled with a queue of their own in the place of a `qbuff`. The queues of
`pdu_queue` have no bytes and no pointers, and the Msg3 buffer has one message. Both are what is
seen of a `qbuff` there.

* `PduSeen`: a queue of `pdu_queue`, with a lemma for each function that is called on it.
* `Msg3Seen`: the Msg3 buffer. `Msg3Seen.pduMoveToMsg3` and `Msg3Seen.msg3Get` compare the two
  functions of `mux.cc` with the same functions on a `qbuff`.
-/

set_option autoImplicit false

namespace SrsUE.Proofs.Common

open SrsUE.Common SrsUE.Lib
open SrsUE.Mac (Msg3Buff Packet PduGetOutcome msg3BuffSz nofBufferPdus)
open SrsUE.Rlc (Bytes)

/-! ### The queues of `pdu_queue` -/

/-- The packets of the queue, without their bytes. -/
structure PduSeen (q : Qbuff) (p : Mac.Qbuff) : Prop where
  nofMessages : q.nofMessages = nofBufferPdus
  wp : q.wp = p.wp.val
  rp : q.rp = p.rp.val
  packets : ∀ i : Fin nofBufferPdus,
    (p.packets i).map Packet.len = if (q.packets i.val).valid then some (q.packets i.val).len
      else none

namespace PduSeen

variable {q : Qbuff} {p : Mac.Qbuff}

/-- A new queue of the demux is the one that its model begins with. -/
theorem init {maxMsgSize : Nat} (h : Qbuff.init nofBufferPdus maxMsgSize = some q) :
    PduSeen q {} := by
  have hpackets := fun i : Fin nofBufferPdus => packets_of_flush h i.isLt
  rw [Qbuff.init, Qbuff.flush] at h
  obtain ⟨is, hcount, rfl⟩ := Option.map_eq_some_iff.mp h
  refine ⟨rfl, rfl, rfl, fun i => ?_⟩
  rw [hpackets i]
  rfl

/-- The pointers move in the same way. -/
theorem advance (h : PduSeen q p) (i : Fin nofBufferPdus) :
    q.advance i.val = (Mac.Qbuff.after i).val := by
  have hnof := h.nofMessages
  rw [Qbuff.advance_eq (by rw [hnof]; decide) (by rw [hnof]; exact i.isLt), hnof, Mac.Qbuff.after,
    slotAt]
  split
  · exact Nat.mod_eq_of_lt ‹_›
  · rw [show i.val + 1 = nofBufferPdus by omega, Nat.mod_self]
    rfl

/-- Both say alike whether they are empty. -/
theorem isempty (h : PduSeen q p) : q.isempty = p.isEmpty := by
  have hpackets := h.packets p.rp
  rw [Qbuff.isempty, Mac.Qbuff.isEmpty, Mac.Qbuff.pop, h.rp]
  cases hpacket : p.packets p.rp with
  | none =>
    rw [hpacket] at hpackets
    cases hvalid : (q.packets p.rp.val).valid with
    | false => rfl
    | true =>
      rw [hvalid] at hpackets
      cases hpackets
  | some pkt =>
    rw [hpacket] at hpackets
    cases hvalid : (q.packets p.rp.val).valid with
    | true => rfl
    | false =>
      rw [hvalid] at hpackets
      cases hpackets

/-- `pop` gives the same length. -/
theorem pop (h : PduSeen q p) : q.pop.map Prod.snd = p.pop.map Packet.len := by
  have hempty := h.isempty
  rw [Qbuff.pop, Mac.Qbuff.pop, h.packets p.rp, h.rp]
  cases hvalid : (q.packets p.rp.val).valid with
  | true =>
    rw [if_neg (by rw [Qbuff.isempty, h.rp, hvalid]; exact Bool.false_ne_true)]
    rfl
  | false =>
    rw [if_pos (by rw [Qbuff.isempty, h.rp, hvalid]; rfl)]
    rfl

/-- A PDU that is pushed is pushed in both. -/
theorem push (h : PduSeen q p) (len pushNo : Nat) : PduSeen (q.push len)
    (p.push { len := len, pushNo := pushNo }) where
  nofMessages := h.nofMessages
  wp := by
    show q.advance q.wp = _
    rw [h.wp]
    exact h.advance p.wp
  rp := h.rp
  packets i := by
    show (Function.update p.packets p.wp _ i).map Packet.len =
      if (Function.update q.packets q.wp _ i.val).valid then some
        (Function.update q.packets q.wp _ i.val).len else none
    -- The packet that is pushed, and the others.
    rcases eq_or_ne i p.wp with rfl | hne
    · rw [Function.update_self, h.wp, Function.update_self]
      rfl
    · rw [Function.update_of_ne hne, Function.update_of_ne
        (by rw [h.wp]; exact Fin.val_ne_of_ne hne)]
      exact h.packets i

/-- A PDU that is released is released in both. -/
theorem release (h : PduSeen q p) : PduSeen q.release p.release where
  nofMessages := h.nofMessages
  wp := h.wp
  rp := by
    show q.advance q.rp = _
    rw [h.rp]
    exact h.advance p.rp
  packets i := by
    show (Function.update p.packets p.rp _ i).map Packet.len =
      if (Function.update q.packets q.rp _ i.val).valid then some
        (Function.update q.packets q.rp _ i.val).len else none
    rcases eq_or_ne i p.rp with rfl | hne
    · rw [Function.update_self, h.rp, Function.update_self]
      rfl
    · rw [Function.update_of_ne hne, Function.update_of_ne
        (by rw [h.rp]; exact Fin.val_ne_of_ne hne)]
      exact h.packets i

end PduSeen

/-! ### The Msg3 buffer -/

section
variable {ρ : Type}

/-- `pdu_move_to_msg3` on a `qbuff`, with what `pdu_get` does if it is called. -/
def pduMoveToMsg3 (q : Qbuff) (out : PduGetOutcome ρ) (pduSz : Nat) : Option (Qbuff × Bool) :=
  match q.request with
  | some msg3Start =>
    (writeAll q.buffer (out.writes.map fun w => (msg3Start + w.1, w.2))).bind fun buffer =>
      if out.ret.isSome then
        (readAt buffer (msg3Start + out.assembly.pdu.removeEmptyLast.pduStart) pduSz).bind
          fun msg3Pdu =>
          (writeAt buffer (msg3Start, msg3Pdu)).map fun buffer =>
            (({ q with buffer := buffer } : Qbuff).push pduSz, true)
      else some ({ q with buffer := buffer }, false)
  | none => some (q, false)

/-- `msg3_get` on a `qbuff`. -/
def msg3Get (q : Qbuff) (out : PduGetOutcome ρ) (pduSz : Nat) : Option (Qbuff × Option Bytes) :=
  (if q.isempty then pduMoveToMsg3 q out pduSz else some (q, true)).bind fun (q, moved) =>
    if moved then
      match q.pop with
      | some (msg3, _) => (readAt q.buffer msg3 pduSz).map fun payload => (q, some payload)
      | none => some (q, none)
    else some (q, none)

/-- The only packet of the queue, and its bytes. -/
structure Msg3Seen (q : Qbuff) (b : Msg3Buff) : Prop where
  nofMessages : q.nofMessages = 1
  rp : q.rp = 0
  wp : q.wp = 0
  ptr : (q.packets 0).ptr = 0
  valid : (q.packets 0).valid = b.valid
  len : (q.packets 0).len = b.len
  bytes : q.buffer = b.bytes

namespace Msg3Seen

variable {q : Qbuff} {b : Msg3Buff}

/-- A new queue of one message is the Msg3 buffer that its model begins with. -/
theorem init : ∃ q, Qbuff.init 1 msg3BuffSz = some q ∧ Msg3Seen q {} :=
  ⟨_, rfl, rfl, rfl, rfl, rfl, rfl, rfl, rfl⟩

/-- The buffer is empty when it has no valid message. -/
theorem isempty (h : Msg3Seen q b) : q.isempty = !b.valid := by
  rw [Qbuff.isempty, h.rp, h.valid]

/-- It gives memory when it has none. -/
theorem request (h : Msg3Seen q b) : q.request = if b.valid then none else some 0 := by
  rw [Qbuff.request, Qbuff.isfull, h.wp, h.valid, h.ptr]

/-- It gives the message that it has. -/
theorem pop (h : Msg3Seen q b) : q.pop = if b.valid then some (0, b.len) else none := by
  rw [Qbuff.pop, h.isempty, h.rp, h.ptr, h.len]
  cases b.valid with
  | true => rfl
  | false => rfl

/-- Other bytes in the message. -/
theorem write (h : Msg3Seen q b) (bytes : Bytes) :
    Msg3Seen { q with buffer := bytes } { b with bytes := bytes } :=
  ⟨h.nofMessages, h.rp, h.wp, h.ptr, h.valid, h.len, rfl⟩

/-- A message that is pushed makes it valid. -/
theorem push (h : Msg3Seen q b) (len : Nat) : Msg3Seen (q.push len)
    { b with valid := true, len := len } where
  nofMessages := h.nofMessages
  rp := h.rp
  wp := by
    show q.advance q.wp = 0
    rw [h.wp, Qbuff.advance_eq (by rw [h.nofMessages]; decide) (by rw [h.nofMessages]; decide),
      h.nofMessages]
    rfl
  ptr := by
    show (Function.update q.packets q.wp _ 0).ptr = 0
    rw [h.wp, Function.update_self]
    exact h.ptr
  valid := by
    show (Function.update q.packets q.wp _ 0).valid = true
    rw [h.wp, Function.update_self]
  len := by
    show (Function.update q.packets q.wp _ 0).len = len
    rw [h.wp, Function.update_self]
  bytes := h.bytes

/-- `pdu_move_to_msg3` does the same on the queue and on the buffer. -/
theorem pduMoveToMsg3 (h : Msg3Seen q b) (out : PduGetOutcome ρ) (pduSz : Nat) :
    Option.Rel (fun x y => Msg3Seen x.1 y.1 ∧ x.2 = y.2 ∧ (y.2 = true → y.1.valid = true))
      (Common.pduMoveToMsg3 q out pduSz) (b.pduMoveToMsg3 out pduSz) := by
  rw [Common.pduMoveToMsg3, Msg3Buff.pduMoveToMsg3, h.request]
  by_cases hvalid : b.valid = true
  · rw [if_pos hvalid, if_pos hvalid]
    exact .some ⟨h, rfl, fun hfalse => absurd hfalse Bool.false_ne_true⟩
  · rw [if_neg hvalid, if_neg hvalid]
    -- The message starts at byte 0 of the buffer, so the writes of `pdu_get` are the same.
    simp only [Nat.zero_add, Prod.mk.eta, List.map_id', h.bytes]
    refine optionRel_bind (R := Eq) ?_ (optionRel_eq _)
    rintro bytes _ rfl
    split
    · refine optionRel_bind (R := Eq) ?_ (optionRel_eq _)
      rintro msg3Pdu _ rfl
      refine optionRel_map (R := Eq) ?_ (optionRel_eq _)
      rintro moved _ rfl
      exact ⟨(h.write moved).push pduSz, rfl, fun _ => rfl⟩
    · exact .some ⟨h.write bytes, rfl, fun hfalse => absurd hfalse Bool.false_ne_true⟩

/-- So does `msg3_get`. -/
theorem msg3Get (h : Msg3Seen q b) (out : PduGetOutcome ρ) (pduSz : Nat) :
    Option.Rel (fun x y => Msg3Seen x.1 y.1 ∧ x.2 = y.2) (Common.msg3Get q out pduSz)
      (b.msg3Get out pduSz) := by
  -- Either there was a message before, or it is there now.
  have hmoved : Option.Rel (fun x y => Msg3Seen x.1 y.1 ∧ x.2 = y.2 ∧
      (y.2 = true → y.1.valid = true))
      (if q.isempty then Common.pduMoveToMsg3 q out pduSz else some (q, true))
      (if b.valid then some (b, true) else b.pduMoveToMsg3 out pduSz) := by
    rw [h.isempty]
    cases hvalid : b.valid with
    | true => exact .some ⟨h, rfl, fun _ => hvalid⟩
    | false => exact h.pduMoveToMsg3 out pduSz
  rw [Common.msg3Get, Msg3Buff.msg3Get]
  refine optionRel_bind ?_ hmoved
  rintro ⟨q', moved⟩ ⟨b', _⟩ ⟨hseen, rfl, hvalid⟩
  cases moved with
  | false => exact .some ⟨hseen, rfl⟩
  | true =>
    dsimp only
    rw [if_pos rfl, if_pos rfl, hseen.pop, if_pos (hvalid rfl), hseen.bytes]
    refine optionRel_map (R := Eq) ?_ (optionRel_eq _)
    rintro payload _ rfl
    exact ⟨hseen, rfl⟩

end Msg3Seen

end

end SrsUE.Proofs.Common
