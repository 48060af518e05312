import Mathlib.Logic.Function.Basic
import Mathlib.Tactic.Common

/-!
# `SrsUE.Mac.PduProcess`: the thread that processes the received MAC PDUs

The PHY threads put a decoded transport block into the queue of its HARQ process (`pdu_queue.cc`,
`qbuff.cc`) and call `notify`. The `pdu_process` thread of `mac.cc` empties the queues, and waits
for a `notify` when it found nothing.

A step is one atomic action of a thread. The part of `notify`, of `stop` and of `run_thread` under
the mutex is one step each. `process_pdus` is one step as well, and so is the assignment of its
result to `have_data`, which is made without the mutex. The numbers of the pushes are there only to
tell which `notify` is still to come.
-/

set_option autoImplicit false

namespace SrsUE.Mac

/-! ### `qbuff.cc` -/

/-- `NOF_BUFFER_PDUS` -/
abbrev nofBufferPdus : Nat := 64

/-- A valid `pkt_t`, with the number of its push. -/
structure Packet where
  len : Nat
  pushNo : Nat
deriving DecidableEq, Repr

/-- A `qbuff`: its ring of packets, where `none` is a packet that is not valid. -/
structure Qbuff where
  packets : Fin nofBufferPdus → Option Packet := fun _ => none
  wp : Fin nofBufferPdus := 0
  rp : Fin nofBufferPdus := 0

namespace Qbuff

/-- The place after `i` in the ring. -/
def after (i : Fin nofBufferPdus) : Fin nofBufferPdus :=
  if h : i.val + 1 < nofBufferPdus then ⟨i.val + 1, h⟩ else 0

/-- `pop`. It leaves the packet in its place. -/
def pop (q : Qbuff) : Option Packet := q.packets q.rp

/-- `isempty` -/
def isEmpty (q : Qbuff) : Bool := q.pop.isNone

/-- `push`. It does not look whether the place it writes to is free. -/
def push (q : Qbuff) (pkt : Packet) : Qbuff :=
  { q with packets := Function.update q.packets q.wp (some pkt), wp := after q.wp }

/-- `release` -/
def release (q : Qbuff) : Qbuff :=
  { q with packets := Function.update q.packets q.rp none, rp := after q.rp }

/-- The inner loop of `process_pdus`, at most `fuel` times around: the queue after it, and whether
there was a packet. -/
def drain : Nat → Qbuff → Qbuff × Bool
  | 0, q => (q, false)
  | fuel + 1, q => if q.isEmpty then (q, false) else ((drain fuel q.release).1, true)

end Qbuff

/-! ### `pdu_queue.cc` -/

/-- `NOF_HARQ_PID` -/
abbrev nofHarqPid : Nat := 8

/-- `pdu_q` of a `pdu_queue` that is initiated. -/
abbrev PduQueue := Fin nofHarqPid → Qbuff

namespace PduQueue

/-- `push_pdu` -/
def pushPdu (pdus : PduQueue) (pid nofBytes pushNo : Nat) : PduQueue :=
  if h : pid < nofHarqPid then
    if 0 < nofBytes then
      Function.update pdus ⟨pid, h⟩ ((pdus ⟨pid, h⟩).push { len := nofBytes, pushNo := pushNo })
    else pdus
  else pdus

/-- `process_pdus`: the queues after it, and what it returns. A packet is released on each way
around its loop, so it ends after `NOF_BUFFER_PDUS` of them at the latest. -/
def processPdus (pdus : PduQueue) : PduQueue × Bool :=
  (fun pid => ((pdus pid).drain nofBufferPdus).1,
    (List.finRange nofHarqPid).any fun pid => ((pdus pid).drain nofBufferPdus).2)

end PduQueue

/-! ### `pdu_process` -/

/-- Where the thread is in `run_thread`. -/
inductive Pc where
  /-- Before `running = true`. -/
  | start
  /-- At the test of the outer loop. -/
  | loop
  /-- `process_pdus` has returned, and its result is to be assigned to `have_data`. -/
  | assign (found : Bool)
  /-- At `if (!have_data)`. -/
  | test
  /-- About to test `have_data` and `running` with the mutex held. -/
  | locked
  /-- Blocked in `pthread_cond_wait`. -/
  | blocked
  /-- `run_thread` has returned. -/
  | done
deriving DecidableEq, Repr

/-- `pdu_process` and the queues of its `demux_unit`. -/
structure PduProcess where
  pdus : PduQueue := fun _ => {}
  haveData : Bool := false
  running : Bool := false
  pc : Pc := .start
  /-- The number of calls of `push_pdu` so far. -/
  pushes : Nat := 0
  /-- The pushes that are not notified yet. -/
  toNotify : List Nat := []

/-- An atomic action: of a PHY thread, of the thread that stops the MAC, or of `run_thread`. A
thread may also wake up without a signal. -/
inductive PduAction where
  | push (pid nofBytes : Nat)
  | notify (pushNo : Nat)
  | stop
  | thread
  | wake
deriving DecidableEq, Repr

namespace PduProcess

/-- `pthread_cond_signal` makes a blocked thread test its condition again. -/
def signal : Pc → Pc
  | .blocked => .locked
  | pc => pc

/-- The next action of `run_thread`. A blocked thread has none. -/
def thread (s : PduProcess) : Option PduProcess :=
  match s.pc with
  | .start => some { s with running := true, pc := .loop }
  | .loop =>
    if s.running then
      some { s with pdus := s.pdus.processPdus.1, pc := .assign s.pdus.processPdus.2 }
    else some { s with pc := .done }
  | .assign found => some { s with haveData := found, pc := .test }
  | .test => some { s with pc := if s.haveData then .loop else .locked }
  | .locked => some { s with pc := if !s.haveData && s.running then .blocked else .loop }
  | .blocked => none
  | .done => none

/-- One step. `tb_decoded` calls `push_pdu` and then `notify`, also when nothing was queued. -/
def step (s : PduProcess) : PduAction → Option PduProcess
  | .push pid nofBytes =>
    some { s with
      pdus := s.pdus.pushPdu pid nofBytes s.pushes
      pushes := s.pushes + 1, toNotify := s.pushes :: s.toNotify }
  | .notify pushNo =>
    if pushNo ∈ s.toNotify then
      some { s with haveData := true, pc := signal s.pc, toNotify := s.toNotify.erase pushNo }
    else none
  | .stop => some { s with running := false, pc := signal s.pc }
  | .thread => s.thread
  | .wake => if s.pc = .blocked then some { s with pc := .locked } else none

end PduProcess

end SrsUE.Mac
