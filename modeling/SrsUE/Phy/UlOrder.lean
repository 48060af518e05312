import Mathlib.Logic.Function.Basic
import Mathlib.Tactic.Common

/-!
# `SrsUE.Phy.UlOrder`: the workers that send the uplink subframes

`phch_recv` starts a worker for every subframe, and each worker ends with `worker_end` of
`phch_common.cc`, which makes the radio call of its subframe. The workers run at the same time. The
flag `is_first_tx` and the array `tx_mutex` are there to keep the radio calls in order.

A subframe that was handed to a worker is a job, numbered in the order of the subframes. A step is
one atomic action of a worker, of `reset_ul`, or the start of a job. A mutex is a binary semaphore:
`unlock` by any thread makes it free, whether or not it was locked. It also remembers which job
freed it last in `worker_end`. The PRACH, which `phch_recv` sends itself, is left out, and so is
`set_tti`.
-/

set_option autoImplicit false

namespace SrsUE.Phy

/-- The calls that `worker_end` makes on the radio: `tx` of the subframe or of zeros, and
`tx_end`. -/
inductive RadioCall where
  | tx
  | txZeros
  | txEnd
deriving DecidableEq, Repr

/-- `TX_MODE_CONTINUOUS` -/
def txModeContinuous : Bool := false

/-- Where a worker is in `worker_end`. -/
inductive TxPc where
  /-- Before it reads `is_first_tx`. -/
  | entry
  /-- It has read `true`, and clears the flag. -/
  | clear
  /-- At `pthread_mutex_lock`. -/
  | wait
  /-- Before the radio call. -/
  | send
  /-- Before it writes `is_first_of_burst`. -/
  | setBurst (first : Bool)
  /-- Before `pthread_mutex_unlock`. -/
  | release
  /-- It has left `worker_end`. -/
  | done
deriving DecidableEq, Repr

/-- A job: the arguments of its `worker_end`, and where it is. `txTti` is the index that `phch_recv`
passes in the place of the TTI. -/
structure TxJob where
  txTti : Nat := 0
  txEnable : Bool := false
  pc : TxPc := .entry
deriving DecidableEq, Repr

/-- An entry of `tx_mutex`, with the job that freed it last. -/
structure TxMutex where
  locked : Bool := false
  freedBy : Option Nat := none
deriving DecidableEq, Repr

/-- `phch_common` and `phch_recv`, as far as `worker_end` goes. -/
structure UlTx where
  isFirstTx : Bool := true
  isFirstOfBurst : Bool := true
  txMutex : Nat → TxMutex := fun _ => {}
  txMutexCnt : Nat := 0
  /-- The jobs that are started, in the order of their subframes. -/
  started : Nat := 0
  jobs : Nat → TxJob := fun _ => {}
  /-- How far `phch_recv` is in `reset_ul`, where 0 is outside. -/
  resetPos : Nat := 0
  /-- The radio calls so far, with the job that made each. -/
  calls : List (Nat × RadioCall) := []

/-- An atomic action. -/
inductive TxAction where
  | start (txEnable : Bool)
  | worker (job : Nat)
  | resetUl
deriving DecidableEq, Repr

namespace UlTx

/-- The number of workers that have a job. -/
def busyWorkers (s : UlTx) : Nat :=
  (List.range s.started).countP fun j => (s.jobs j).pc ≠ .done

/-- A worker goes on. -/
def goto (s : UlTx) (job : Nat) (pc : TxPc) : UlTx :=
  { s with jobs := Function.update s.jobs job { s.jobs job with pc := pc } }

/-- `pthread_mutex_lock` of a mutex that is free. -/
def lock (s : UlTx) (i : Nat) : UlTx :=
  { s with txMutex := Function.update s.txMutex i { s.txMutex i with locked := true } }

/-- `pthread_mutex_unlock` in `worker_end` of a job. -/
def free (s : UlTx) (i job : Nat) : UlTx :=
  { s with txMutex := Function.update s.txMutex i { locked := false, freedBy := some job } }

/-- The radio call of a job. -/
def radio (s : UlTx) (job : Nat) (call : RadioCall) : UlTx :=
  { s with calls := s.calls ++ [(job, call)] }

/-- The part of `worker_end` around the radio call. -/
def transmit (s : UlTx) (job : Nat) : UlTx :=
  if (s.jobs job).txEnable then (s.radio job .tx).goto job (.setBurst false)
  else if s.isFirstOfBurst then s.goto job .release
  else if txModeContinuous then (s.radio job .txZeros).goto job .release
  else (s.radio job .txEnd).goto job (.setBurst true)

/-- The next action of a worker. At a mutex that is locked there is none. -/
def worker (nofMutex : Nat) (s : UlTx) (job : Nat) : Option UlTx :=
  let i := (s.jobs job).txTti % nofMutex
  match (s.jobs job).pc with
  | .entry => some (s.goto job (if s.isFirstTx then .clear else .wait))
  | .clear => some ({ s with isFirstTx := false }.goto job .send)
  | .wait =>
    if (s.txMutex i).locked then none else some ((s.lock i).goto job .send)
  | .send => some (s.transmit job)
  | .setBurst first => some ({ s with isFirstOfBurst := first }.goto job .release)
  | .release => some ((s.free (((s.jobs job).txTti + 1) % nofMutex) job).goto job .done)
  | .done => none

/-- The next action of `reset_ul`: it sets the two flags and then frees the mutexes one by one. -/
def resetUl (nofMutex : Nat) (s : UlTx) : UlTx :=
  let next := if s.resetPos = nofMutex + 1 then 0 else s.resetPos + 1
  match s.resetPos with
  | 0 => { s with isFirstTx := true, resetPos := next }
  | 1 => { s with isFirstOfBurst := true, resetPos := next }
  | i + 2 =>
    { s with
        txMutex := Function.update s.txMutex i { locked := false, freedBy := none }
        resetPos := next }

/-- One step, with `nof_mutex` mutexes and `nof_workers` workers. `phch_recv` starts a job when a
worker is idle and it is not in `reset_ul`. -/
def step (nofMutex nofWorkers : Nat) (s : UlTx) : TxAction → Option UlTx
  | .start txEnable =>
    if s.busyWorkers < nofWorkers ∧ s.resetPos = 0 then
      some { s with
        jobs := Function.update s.jobs s.started { txTti := s.txMutexCnt, txEnable := txEnable }
        started := s.started + 1
        txMutexCnt := (s.txMutexCnt + 1) % nofMutex }
    else none
  | .worker job => if job < s.started then s.worker nofMutex job else none
  | .resetUl => some (s.resetUl nofMutex)

end UlTx

end SrsUE.Phy
