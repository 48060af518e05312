import Mathlib.Logic.Function.Basic
import SrsUE.Lib.Memory
import SrsUE.Mac.Pdu

/-!
# `SrsUE.Common.Qbuff`: the queue of buffers

The class `qbuff` (`qbuff.h` and `qbuff.cc`), a queue between one reader and one writer. A pointer
is an index of `buffer`, and `srslte_vec_malloc` gives as many bytes as it is asked for. The numbers
are `uint32_t` values.

A function is `none` where the source reads or writes outside `buffer`, or lets an `int` overflow.

The reader and the writer of a queue keep the pointers that they got. `QbuffUser` has these next to
the queue, and `QbuffAction` is what the users of several queues do.
-/

set_option autoImplicit false

namespace SrsUE.Common

open SrsUE.Lib
open SrsUE.Rlc (Bytes add32 sub32)
open SrsUE.Mac (toInt32)

/-- The values of an `int` that counts up to `n`, if it gets there. -/
def countTo (n : Nat) : Option (List Nat) := if n < 2 ^ 31 then some (List.range n) else none

/-- `pkt_t` -/
structure Pkt where
  valid : Bool := false
  len : Nat := 0
  ptr : Nat := 0
deriving DecidableEq, Repr

/-- `qbuff` -/
structure Qbuff where
  nofMessages : Nat
  maxMsgSize : Nat
  rp : Nat := 0
  wp : Nat := 0
  packets : Nat → Pkt := fun _ => {}
  buffer : Bytes

namespace Qbuff

variable (q : Qbuff)

/-- `flush` -/
def flush : Option Qbuff :=
  (countTo q.nofMessages).map fun is =>
    { q with
        wp := 0
        rp := 0
        packets := fun i =>
          if i ∈ is then { valid := false, ptr := i * q.maxMsgSize % 2 ^ 32, len := 0 }
          else q.packets i }

/-- `init`, on a new `qbuff`. -/
def init (nofMessages maxMsgSize : Nat) : Option Qbuff :=
  flush
    { nofMessages := nofMessages, maxMsgSize := maxMsgSize,
      buffer := List.replicate (nofMessages * maxMsgSize % 2 ^ 32) 0 }

/-- `isempty` -/
def isempty : Bool := !(q.packets q.rp).valid

/-- `isfull` -/
def isfull : Bool := (q.packets q.wp).valid

/-- `request` -/
def request : Option Nat := if q.isfull then none else some (q.packets q.wp).ptr

/-- The position behind `p`, `p + ((p+1 >= nof_messages)?(1-nof_messages):1)`. -/
def advance (p : Nat) : Nat :=
  add32 p (if q.nofMessages ≤ add32 p 1 then sub32 1 q.nofMessages else 1)

/-- `push`, which returns `true`. -/
def push (len : Nat) : Qbuff :=
  { q with
      -- The slot is taken whether or not `request` has found it free.
      packets := Function.update q.packets q.wp { q.packets q.wp with len := len, valid := true }
      wp := q.advance q.wp }

/-- `pop(len)`: the pointer and the length. -/
def pop : Option (Nat × Nat) :=
  if q.isempty then none else some ((q.packets q.rp).ptr, (q.packets q.rp).len)

/-- The loop of `pop(len, idx)`, for `n` more messages. -/
def seek : Nat → Nat → Nat
  | 0, rpp => rpp
  | n + 1, rpp => if (q.packets rpp).valid then seek n (q.advance rpp) else rpp

/-- `pop(len, idx)` -/
def popAt (idx : Nat) : Option (Nat × Nat) :=
  if idx = 0 then q.pop
  else
    let rpp := q.seek idx q.rp
    if (q.packets rpp).valid then some ((q.packets rpp).ptr, (q.packets rpp).len) else none

/-- `release` -/
def release : Qbuff :=
  { q with
      packets := Function.update q.packets q.rp { q.packets q.rp with valid := false, len := 0 }
      rp := q.advance q.rp }

/-- `memcpy` to a pointer into the buffer. -/
def writeMem (ptr : Nat) (bytes : Bytes) : Option Qbuff :=
  (writeAt q.buffer (ptr, bytes)).map fun buffer => { q with buffer := buffer }

/-- `send` -/
def send (msg : Bytes) : Option (Qbuff × Bool) :=
  if msg.length ≤ q.maxMsgSize then
    match q.request with
    | some ptr => (q.writeMem ptr msg).map fun q => (q.push msg.length, true)
    | none => some (q, false)
  else some (q, false)

/-- Whether `recv` takes a message out of the queue. -/
def receives (bufferSize : Nat) : Bool :=
  match q.pop with
  | some (_, len) => decide (len ≤ bufferSize)
  | none => false

/-- `recv`: what it returns, and what it writes to the buffer of the caller. -/
def recv (bufferSize : Nat) : Option (Qbuff × Int × Bytes) :=
  match q.pop with
  | some (ptr, len) =>
    if len ≤ bufferSize then
      (readAt q.buffer ptr len).map fun bytes => (q.release, toInt32 len, bytes)
    -- The message is too long for the caller, and stays.
    else some (q, -1, [])
  | none => some (q, 0, [])

/-- `pending_data` -/
def pendingData : Option Nat :=
  (countTo q.nofMessages).map fun is => is.foldl (fun totalLen i =>
    add32 totalLen (q.packets i).len) 0

/-- `pending_msgs` -/
def pendingMsgs : Option Nat :=
  (countTo q.nofMessages).map fun is =>
    is.foldl (fun nofMsg i => add32 nofMsg (if (q.packets i).valid then 1 else 0)) 0

/-- `max_msgs` -/
def maxMsgs : Nat := q.nofMessages

/-- `move_to` between two of several queues, and whether it moves a message. -/
def moveTo {κ : Type} [DecidableEq κ] (qs : κ → Qbuff) (src dst : κ) :
    Option ((κ → Qbuff) × Bool) :=
  match (qs src).pop with
  | some (ptrSrc, len) =>
    match (qs dst).request with
    | some ptrDst =>
      (readAt (qs src).buffer ptrSrc len).bind fun msg =>
        ((qs dst).writeMem ptrDst msg).map fun q =>
          let qs := Function.update qs dst (q.push len)
          -- The two queues may be the same.
          (Function.update qs src (qs src).release, true)
    | none => some (qs, false)
  | none => some (qs, false)

end Qbuff

/-! ### Readers and writers -/

/-- A queue with the pointer that its writer got from `request`, and the pointer and the length that
its reader got from `pop`. They are no good any more when the next message is in the queue, or the
oldest one is not. -/
structure QbuffUser where
  queue : Qbuff
  requested : Option Nat := none
  popped : Option (Nat × Nat) := none

/-- What the users of a queue do with it alone. -/
inductive QbuffCall where
  | request
  | write (off : Nat) (bytes : Bytes)
  | push (len : Nat)
  | pop (idx : Nat)
  | read
  | release
  | send (msg : Bytes)
  | recv (bufferSize : Nat)
  | flush
  | isempty
  | isfull
  | pendingMsgs
  | pendingData
  | maxMsgs
deriving DecidableEq, Repr

/-- What they see: whether a pointer is not `NULL`, the length that `pop` gives, bytes of a message,
or what a function returns. -/
inductive QbuffOut where
  | done
  | flag (b : Bool)
  | popped (len : Option Nat)
  | bytes (bytes : Bytes)
  | received (ret : Int) (bytes : Bytes)
  | number (n : Nat)
deriving DecidableEq, Repr

/-- One call. `write` and `read` use the pointers. -/
def QbuffUser.call (u : QbuffUser) : QbuffCall → Option (QbuffUser × QbuffOut)
  | .request =>
    match u.queue.request with
    | some ptr => some ({ u with requested := some ptr }, .flag true)
    | none => some (u, .flag false)
  | .write off bytes =>
    u.requested.bind fun ptr =>
      (u.queue.writeMem (ptr + off) bytes).map fun q => ({ u with queue := q }, .done)
  | .push len => some ({ u with queue := u.queue.push len, requested := none }, .flag true)
  | .pop idx =>
    match u.queue.popAt idx with
    | some (ptr, len) => some ({ u with popped := some (ptr, len) }, .popped (some len))
    | none => some (u, .popped none)
  | .read =>
    u.popped.bind fun (ptr, len) => (readAt u.queue.buffer ptr len).map fun bytes =>
      (u, .bytes bytes)
  | .release => some ({ u with queue := u.queue.release, popped := none }, .done)
  | .send msg =>
    (u.queue.send msg).map fun (q, sent) =>
      ({ u with queue := q, requested := if sent then none else u.requested }, .flag sent)
  | .recv bufferSize =>
    (u.queue.recv bufferSize).map fun (q, ret, bytes) =>
      ({ u with queue := q, popped := if u.queue.receives bufferSize then none else u.popped },
        .received ret bytes)
  | .flush => u.queue.flush.map fun q => ({ queue := q }, .done)
  | .isempty => some (u, .flag u.queue.isempty)
  | .isfull => some (u, .flag u.queue.isfull)
  | .pendingMsgs => u.queue.pendingMsgs.map fun n => (u, .number n)
  | .pendingData => u.queue.pendingData.map fun n => (u, .number n)
  | .maxMsgs => some (u, .number u.queue.maxMsgs)

/-- What the users of several queues do. -/
inductive QbuffAction (κ : Type) where
  | on (k : κ) (c : QbuffCall)
  | moveTo (src dst : κ)
deriving DecidableEq, Repr

/-- One action. -/
def qbuffStep {κ : Type} [DecidableEq κ] (us : κ → QbuffUser) :
    QbuffAction κ → Option ((κ → QbuffUser) × QbuffOut)
  | .on k c => ((us k).call c).map fun (u, out) => (Function.update us k u, out)
  | .moveTo src dst =>
    (Qbuff.moveTo (fun k => (us k).queue) src dst).map fun (qs, moved) =>
      (fun k =>
        { queue := qs k
          requested := if moved ∧ k = dst then none else (us k).requested
          popped := if moved ∧ k = src then none else (us k).popped }, .done)

end SrsUE.Common
