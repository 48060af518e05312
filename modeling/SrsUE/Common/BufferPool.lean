import Mathlib.Data.List.FinRange
import Mathlib.Logic.Function.Basic
import SrsUE.Lib.Run
import SrsUE.Rlc.Common

/-!
# `SrsUE.Common.BufferPool`: the pool of byte buffers

The class `buffer_pool` (`buffer_pool.cc`) with the objects of class `byte_buffer_t` (`common.h`)
that it hands out. A pointer to a buffer is its index in `pool`, `msg` is an index in the `buffer`
it points to, and the bytes in there are left out. The mutex makes each call one step.

Between `allocate` and `deallocate` the user of a buffer writes to its public members; `next` is
private, and nobody else calls `set_next`.
-/

set_option autoImplicit false

namespace SrsUE.Common

open SrsUE.Rlc (bufferHeaderOffset)

/-- `POOL_SIZE` -/
@[irreducible] def poolSize : Nat := 2048

/-- The pool has buffers. -/
theorem poolSize_pos : 0 < poolSize := by
  unfold poolSize
  decide

/-- The public members of a `byte_buffer_t`, with the values that its constructor gives them. -/
structure BufferFields where
  nBytes : Nat := 0
  msg : Nat := bufferHeaderOffset
  /-- `none` is `not_a_date_time`. -/
  timestamp : Option Nat := none
  opt : Nat := 0
  opt2 : Nat := 0
deriving DecidableEq, Repr

/-- `byte_buffer_t` -/
structure ByteBuffer extends BufferFields where
  next : Option (Fin poolSize) := none
deriving DecidableEq, Repr

namespace ByteBuffer

/-- `reset` leaves `opt` and `opt2`, and the successor. -/
def reset (b : ByteBuffer) : ByteBuffer :=
  { b with msg := bufferHeaderOffset, nBytes := 0, timestamp := none }

/-- `set_next` -/
def setNext (b : ByteBuffer) (next : Option (Fin poolSize)) : ByteBuffer := { b with next := next }

end ByteBuffer

/-- `buffer_pool` -/
structure BufferPool where
  pool : Fin poolSize → ByteBuffer
  firstAvailable : Option (Fin poolSize)
  allocated : Int

namespace BufferPool

/-- The constructor. Each buffer but the last one is followed by the one behind it. -/
def constructed : BufferPool where
  pool i :=
    ({} : ByteBuffer).setNext (if h : i.val + 1 < poolSize then some ⟨i.val + 1, h⟩ else none)
  firstAvailable := some ⟨0, poolSize_pos⟩
  allocated := 0

/-- `allocate` -/
def allocate (p : BufferPool) : Option (Fin poolSize) × BufferPool :=
  match p.firstAvailable with
  | none => (none, p)
  | some b =>
    -- The buffer keeps its successor.
    (some b, { p with firstAvailable := (p.pool b).next, allocated := p.allocated + 1 })

/-- `deallocate` -/
def deallocate (p : BufferPool) (b : Fin poolSize) : BufferPool :=
  -- It is not checked that the buffer was handed out.
  { pool := Function.update p.pool b ((p.pool b).reset.setNext p.firstAvailable)
    firstAvailable := some b
    allocated := p.allocated - 1 }

/-- The buffer that is given back becomes the first one. -/
@[simp] theorem pool_deallocate_self (p : BufferPool) (b : Fin poolSize) :
    (p.deallocate b).pool b = (p.pool b).reset.setNext p.firstAvailable := Function.update_self ..

/-- The other buffers stay as they are. -/
theorem pool_deallocate_of_ne (p : BufferPool) {b c : Fin poolSize} (h : c ≠ b) :
    (p.deallocate b).pool c = p.pool c := Function.update_of_ne h ..

/-- The user of a buffer writes to its public members. -/
def write (p : BufferPool) (b : Fin poolSize) (fields : BufferFields) : BufferPool :=
  { p with pool := Function.update p.pool b { p.pool b with toBufferFields := fields } }

end BufferPool

/-- The pool and its users: the buffers that `allocate` has returned and that were not given
back. -/
structure PoolState where
  pool : BufferPool := .constructed
  outstanding : List (Fin poolSize) := []

/-- What the users do. -/
inductive PoolAction where
  | allocate
  | deallocate (b : Fin poolSize)
  | write (b : Fin poolSize) (fields : BufferFields)
deriving DecidableEq, Repr

/-- One step. A buffer can only be given back, or written to, by the user that has it. -/
def PoolState.step (s : PoolState) : PoolAction → Option PoolState
  | .allocate =>
    some { pool := s.pool.allocate.2, outstanding := s.pool.allocate.1.toList ++ s.outstanding }
  | .deallocate b =>
    if b ∈ s.outstanding then
      some { pool := s.pool.deallocate b, outstanding := s.outstanding.erase b }
    else none
  | .write b fields =>
    if b ∈ s.outstanding then some { s with pool := s.pool.write b fields } else none

end SrsUE.Common
