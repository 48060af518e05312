import Mathlib.Logic.Function.Basic
import SrsUE.Rlc.Common

/-!
# `SrsUE.Common.MsgQueue`: the queue of messages between threads

The class `msg_queue` (`msg_queue.h`). A message is a pointer to a byte buffer, here of any type
`μ`, and its `N_bytes` is read where the source reads it. The numbers are `uint32_t` values.

The mutex makes each call one step. A `write` to a full queue and a `read` from an empty one wait,
and their step is not defined until the queue has changed.
-/

set_option autoImplicit false

namespace SrsUE.Common

open SrsUE.Rlc (add32 sub32)

variable {μ θ : Type}

/-- `msg_queue` -/
structure MsgQueue (μ : Type) where
  head : Nat
  tail : Nat
  unread : Nat
  unreadBytes : Nat
  capacity : Nat
  buf : Nat → μ

namespace MsgQueue

/-- The constructor. It leaves `buf` as it gets it. -/
def constructed (capacity : Nat) (buf : Nat → μ) : MsgQueue μ :=
  { head := 0, tail := 0, unread := 0, unreadBytes := 0, capacity := capacity, buf := buf }

/-- `is_empty` -/
def isEmpty (q : MsgQueue μ) : Bool := decide (q.unread = 0)

/-- `is_full` -/
def isFull (q : MsgQueue μ) : Bool := decide (q.unread = q.capacity)

/-- `write`, behind the wait. -/
def push (q : MsgQueue μ) (nBytes : μ → UInt32) (msg : μ) : MsgQueue μ :=
  { q with
      buf := Function.update q.buf q.head msg
      head := add32 q.head 1 % q.capacity
      unread := add32 q.unread 1
      unreadBytes := add32 q.unreadBytes (nBytes msg).toNat }

/-- `read`, behind the wait, and `try_read` if the queue is not empty. -/
def pop (q : MsgQueue μ) (nBytes : μ → UInt32) : μ × MsgQueue μ :=
  (q.buf q.tail, { q with
      tail := add32 q.tail 1 % q.capacity
      unread := sub32 q.unread 1
      unreadBytes := sub32 q.unreadBytes (nBytes (q.buf q.tail)).toNat })

/-- `size` -/
def size (q : MsgQueue μ) : Nat := q.unread

/-- `size_bytes` -/
def sizeBytes (q : MsgQueue μ) : Nat := q.unreadBytes

/-- `size_tail_bytes`, which does not look whether there is a message. -/
def sizeTailBytes (q : MsgQueue μ) (nBytes : μ → UInt32) : Nat := (nBytes (q.buf q.tail)).toNat

end MsgQueue

/-- What a thread does: it calls the queue, or writes to `N_bytes` of a message. -/
inductive MsgQueueCall (μ : Type) where
  | write (msg : μ)
  | read
  | tryRead
  | size
  | sizeBytes
  | setNBytes (msg : μ) (n : UInt32)
deriving DecidableEq, Repr

/-- What a call returns. -/
inductive MsgQueueOut (μ : Type) where
  | done
  | message (msg : μ)
  | tried (msg : Option μ)
  | number (n : Nat)
deriving DecidableEq, Repr

/-- The messages that a call returns. -/
def MsgQueueOut.msgs : MsgQueueOut μ → List μ
  | .message msg => [msg]
  | .tried msg => msg.toList
  | .done => []
  | .number _ => []

/-- The queue and the messages. -/
structure MsgQueueState (μ : Type) where
  queue : MsgQueue μ
  nBytes : μ → UInt32

/-- One call of any thread, unless it waits. -/
def MsgQueueState.call [DecidableEq μ] (s : MsgQueueState μ) :
    θ × MsgQueueCall μ → Option (MsgQueueState μ × MsgQueueOut μ)
  | (_, .write msg) =>
    if s.queue.isFull then none else some ({ s with queue := s.queue.push s.nBytes msg }, .done)
  | (_, .read) =>
    if s.queue.isEmpty then none
    else some ({ s with queue := (s.queue.pop s.nBytes).2 }, .message (s.queue.pop s.nBytes).1)
  | (_, .tryRead) =>
    if s.queue.isEmpty then some (s, .tried none)
    else some ({ s with queue := (s.queue.pop s.nBytes).2 }, .tried (some (s.queue.pop s.nBytes).1))
  | (_, .size) => some (s, .number s.queue.size)
  | (_, .sizeBytes) => some (s, .number s.queue.sizeBytes)
  | (_, .setNBytes msg n) => some ({ s with nBytes := Function.update s.nBytes msg n }, .done)

end SrsUE.Common
