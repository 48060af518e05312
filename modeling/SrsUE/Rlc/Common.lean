import Mathlib.Algebra.Order.Ring.Int
import Mathlib.Data.List.TakeDrop
import SrsUE.Lib.Dict

/-!
# `SrsUE.Rlc.Common`: the types the RLC entities share

The headers and enumerations of `rlc_common.h`, the millisecond timeouts of `timeout.h`, the
counted timers of `timers.h`, and the bounded queue of `msg_queue.h` as far as the RLC
entities use it.

A `byte_buffer_t` is the list of the bytes from `msg` on, `N_bytes` of them. The entities never
look for the end of its array, `msgRoom` bytes from `msg` on. So the list takes any number of bytes,
and `SrsUE.Rlc.BufferRoom` says how far each function writes. In the same way an allocation always
succeeds here, and `SrsUE.Rlc.AmBuffers` follows the buffers of the pool.

An array with its count (`li` with `N_li`, `nacks` with `N_nack`) is a list, so `li[N_li++] = x`
appends and `N_li--` drops the last element. Every `uint32_t` and `uint16_t` is a natural number.
Where a difference can go below zero it is written `sub32` or `sub16`, and where a sum can leave its
type `add32` or `add16`.

A `timeout` reads the wall clock. Here the clock reading `now`, in microseconds, is an
argument of every function that reads it, so a run is a sequence of calls at arbitrary
times.
-/

set_option autoImplicit false

namespace SrsUE.Rlc

/-- The bytes of a `byte_buffer_t`. -/
abbrev Bytes := List UInt8

/-- `SRSUE_MAX_BUFFER_SIZE_BYTES`, the size of the array in a `byte_buffer_t`. -/
def maxBufferSizeBytes : Nat := 12756

/-- `SRSUE_BUFFER_HEADER_OFFSET`, the room in front of `msg` of a new `byte_buffer_t`. -/
def bufferHeaderOffset : Nat := 1024

/-- The bytes from `msg` of a new `byte_buffer_t` to the end of its array. The pointer `msg` itself
is stored behind them. -/
def msgRoom : Nat := maxBufferSizeBytes - bufferHeaderOffset

/-- `SRSUE_N_RADIO_BEARERS` -/
abbrev nRadioBearers : Nat := 11

/-- The difference of two `uint32_t` values. It wraps when `b` is larger. -/
def sub32 (a b : Nat) : Nat := if b ≤ a then a - b else a + 2 ^ 32 - b

/-- The sum of two `uint32_t` values. -/
def add32 (a b : Nat) : Nat := (a + b) % 2 ^ 32

/-- The difference of two values as a `uint16_t`. -/
def sub16 (a b : Nat) : Nat := (a + (2 ^ 16 - b % 2 ^ 16)) % 2 ^ 16

/-- The sum of two values as a `uint16_t`. -/
def add16 (a b : Nat) : Nat := (a + b) % 2 ^ 16

/-- A 16-bit difference that does not wrap. -/
theorem sub16_of_le {a b : Nat} (h : b ≤ a) (ha : a < 2 ^ 16) : sub16 a b = a - b := by
  rw [sub16, Nat.mod_eq_of_lt (Nat.lt_of_le_of_lt h ha)]
  omega

/-- A 16-bit sum that does not wrap. -/
theorem add16_of_lt {a b : Nat} (h : a + b < 2 ^ 16) : add16 a b = a + b := Nat.mod_eq_of_lt h

/-- A 32-bit difference that does not wrap. -/
theorem sub32_of_le {a b : Nat} (h : b ≤ a) : sub32 a b = a - b := if_pos h

/-- A 32-bit sum that does not wrap. -/
theorem add32_of_lt {a b : Nat} (h : a + b < 2 ^ 32) : add32 a b = a + b := Nat.mod_eq_of_lt h

/-- The bytes `memcpy` reads from offset `start` on. The code does not keep `start + len`
inside the buffer. What lies past `N_bytes` is left over from an earlier use of the buffer
and reads as zero here. -/
def copyBytes (buf : Bytes) (start len : Nat) : Bytes := (buf.drop start).takeD len 0

/-- A copy has the length it is given. -/
@[simp] theorem length_copyBytes (buf : Bytes) (start len : Nat) :
    (copyBytes buf start len).length = len := by
  simp [copyBytes]

/-- A `timeout` without a callback thread. The RLC entities never pass a callback. -/
structure Timeout where
  running : Bool := false
  stopTime : Nat := 0
deriving DecidableEq, Repr

/-- `start`. A negative duration leaves the timeout as it is. -/
def Timeout.start (t : Timeout) (now : Nat) (durationMsec : Int) : Timeout :=
  if durationMsec < 0 then t
  else { running := true, stopTime := now + 1000 * durationMsec.toNat }

/-- `reset` stops the timeout. -/
def Timeout.reset (t : Timeout) : Timeout := { t with running := false }

/-- `expired`. A timeout that does not run has not expired. -/
def Timeout.expired (t : Timeout) (now : Nat) : Bool := t.running && decide (t.stopTime < now)

/-- A timeout that is reset does not run. -/
@[simp] theorem Timeout.running_reset (t : Timeout) : t.reset.running = false := rfl

/-! ### `timers.h` -/

/-- A `timers::timer`. Its callback is the entity that holds it. -/
structure Timer where
  timeout : Nat := 0
  counter : Nat := 0
  running : Bool := false
deriving DecidableEq, Repr

/-- `set`: a new timeout, counted from zero. -/
def Timer.set (t : Timer) (timeout : Nat) : Timer := { t with timeout := timeout, counter := 0 }

/-- `run` -/
def Timer.run (t : Timer) : Timer := { t with running := true }

/-- `stop` -/
def Timer.stop (t : Timer) : Timer := { t with running := false }

/-- `is_running` -/
def Timer.isRunning (t : Timer) : Bool := decide (t.counter < t.timeout) && t.running

/-- The timer inside the `step` that reaches the timeout, when it calls `timer_expired`. -/
def Timer.expire (t : Timer) : Timer := { t with counter := t.timeout, running := false }

/-- `is_expired` -/
def Timer.isExpired (t : Timer) : Bool := decide (t.counter = t.timeout) || !t.running

/-- `step`: the timer after it, and whether it calls `timer_expired`. -/
def Timer.step (t : Timer) : Timer × Bool :=
  if t.running then
    let t := { t with counter := add32 t.counter 1 }
    if t.isExpired then (t.stop, true) else (t, false)
  else (t, false)

/-! ### `rlc_common.h` -/

/-- The capacity of `tx_sdu_queue`. A `write` to a full queue blocks its caller. -/
abbrev txSduQueueCapacity : Nat := 16

/-- `rlc_fi_field_t`: the two framing bits of a PDU. The first bit says that the data does
not start with the first byte of an SDU, the second that it does not end with the last
byte of one. -/
abbrev FiField := BitVec 2

/-- `RLC_FI_FIELD_START_AND_END_ALIGNED` -/
abbrev fiStartAndEndAligned : FiField := 0#2

/-- `RLC_FI_FIELD_NOT_END_ALIGNED` -/
abbrev fiNotEndAligned : FiField := 1#2

/-- `RLC_FI_FIELD_NOT_START_ALIGNED` -/
abbrev fiNotStartAligned : FiField := 2#2

/-- `RLC_FI_FIELD_NOT_START_OR_END_ALIGNED` -/
abbrev fiNotStartOrEndAligned : FiField := 3#2

/-- `rlc_dc_field_t`: control or data PDU. -/
inductive DcField where
  | controlPdu
  | dataPdu
deriving DecidableEq, Repr

/-- The number of the enumerator, as it goes on the wire. -/
def DcField.toNat : DcField → Nat
  | .controlPdu => 0
  | .dataPdu => 1

/-- `rlc_umd_sn_size_t`: the length of the sequence number of a UMD PDU. -/
inductive UmdSnSize where
  | size5Bits
  | size10Bits
deriving DecidableEq, Repr

/-- `rlc_umd_pdu_header_t` -/
structure UmdPduHeader where
  fi : FiField := 0#2
  snSize : UmdSnSize
  sn : Nat := 0
  li : List Nat := []
deriving DecidableEq, Repr

/-- `rlc_amd_pdu_header_t`. The defaults are those of its constructor. -/
structure AmdPduHeader where
  dc : DcField := .controlPdu
  rf : Bool := false
  p : Bool := false
  fi : FiField := 0#2
  sn : Nat := 0
  lsf : Bool := false
  so : Nat := 0
  li : List Nat := []
deriving DecidableEq, Repr

/-- `rlc_status_nack_t` -/
structure StatusNack where
  nackSn : Nat := 0
  hasSo : Bool := false
  soStart : Nat := 0
  soEnd : Nat := 0
deriving DecidableEq, Repr

/-- `rlc_status_pdu_t` -/
structure StatusPdu where
  ackSn : Nat := 0
  nacks : List StatusNack := []
deriving DecidableEq, Repr

end SrsUE.Rlc
