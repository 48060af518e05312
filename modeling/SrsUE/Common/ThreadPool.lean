import Mathlib.Logic.Function.Basic
import Mathlib.Tactic.Common

/-!
# `SrsUE.Common.ThreadPool`: the pool of worker threads

`thread_pool` of `thread_pool.cc`, in the variant with the queue. One thread, `phch_recv`, gets a
worker from `wait_worker`, prepares it, and passes it to `start_worker`, or to `release` when the
subframe was not received. The workers run at the same time, and a further thread calls `stop` after
`phch_recv` has ended, as `phy::stop` does.

A step is one atomic action of a thread. A critical section is one action when all that it reads and
writes is guarded by its mutex. Two are not. `wait_to_start` reads `running`, which `stop` writes
without the mutex, so its decision to wait and the wait are two actions, with the mutex of the
worker held between them. `find_finished_worker` reads every `status` without the mutex of the
worker, so it is one action for each, with `mutex_queue` held. The stack `available_workers`, which
is only ever filled, and `init_worker` are left out.
-/

set_option autoImplicit false

namespace SrsUE.Common

/-- `worker_status` -/
inductive WorkerStatus where
  | idle
  | startWork
  | workerReady
  | working
deriving DecidableEq, Repr

/-- Where a worker is in `run_thread`. -/
inductive WorkerPc where
  /-- The thread is started. -/
  | entry
  /-- Before `while(running)`. -/
  | loop
  /-- Before it takes its mutex in `wait_to_start`. -/
  | lock
  /-- Before `pthread_cond_wait`, with its mutex. -/
  | wait
  /-- In `pthread_cond_wait`. -/
  | blocked
  /-- Signalled, and before it has its mutex again. -/
  | woken
  /-- Before `if (running)`. -/
  | check
  /-- In `work_imp`. -/
  | work
  /-- Before it takes its mutex in `finished`. -/
  | finish
  /-- Before it takes `mutex_queue` in `finished`. -/
  | notify
  /-- It has left `run_thread`. -/
  | exited
deriving DecidableEq, Repr

/-- Where `phch_recv` is in the calls that it makes on the pool. -/
inductive CallerPc where
  /-- In none, and without a worker. -/
  | outside
  /-- Before it takes `mutex_queue` in `wait_worker`. -/
  | lock
  /-- In `find_finished_worker`, before it reads a status. -/
  | scan (i : Nat)
  /-- It has found no worker, and has not read `running`. -/
  | noneFree
  /-- Before `pthread_cond_wait`, with `mutex_queue`. -/
  | wait
  /-- In `pthread_cond_wait`. -/
  | blocked
  /-- Signalled, and before it has `mutex_queue` again. -/
  | woken
  /-- Before `if (running)`. -/
  | found (id : Nat)
  /-- Before it takes the mutex of the worker. -/
  | claim (id : Nat)
  /-- `wait_worker` has returned the worker. -/
  | hasWorker (id : Nat)
  /-- In `release`, before it takes `mutex_queue`. -/
  | notify
deriving DecidableEq, Repr

/-- Where the pool is in `stop`. The second `wait_thread_finish` for a worker has nothing to wait
for. -/
inductive StopPc where
  | notCalled
  /-- Before `running = false` of a worker, or past the last worker. -/
  | flag (i : Nat)
  /-- Before `pthread_cond_signal`. -/
  | signal (i : Nat)
  /-- In `wait_thread_finish`. -/
  | join (i : Nat)
  /-- Before `start_worker`. -/
  | start (i : Nat)
deriving DecidableEq, Repr

/-- The pool with its threads. `started` and `worked` count the calls of `start_worker` by
`phch_recv` and of `work_imp`. -/
structure ThreadPool where
  status : Nat → WorkerStatus := fun _ => .idle
  pc : Nat → WorkerPc := fun _ => .entry
  running : Nat → Bool := fun _ => false
  poolRunning : Bool := true
  caller : CallerPc := .outside
  stopPc : StopPc := .notCalled
  started : Nat → Nat := fun _ => 0
  worked : Nat → Nat := fun _ => 0

/-- An atomic action. POSIX allows a `pthread_cond_wait` to return without a signal. -/
inductive ThreadAction where
  | worker (i : Nat)
  | waitWorker
  | caller
  | startWorker
  | release
  | stop
  | spuriousWorker (i : Nat)
  | spuriousCaller
deriving DecidableEq, Repr

namespace ThreadPool

variable (nofWorkers : Nat) (s : ThreadPool)

/-- A worker goes on. -/
def goto (i : Nat) (pc : WorkerPc) : ThreadPool := { s with pc := Function.update s.pc i pc }

/-- A write of a `status`. -/
def setStatus (i : Nat) (status : WorkerStatus) : ThreadPool :=
  { s with status := Function.update s.status i status }

/-- `pthread_cond_signal` of the `cvar` of a worker. -/
def signalWorker (i : Nat) : ThreadPool := if s.pc i = .blocked then s.goto i .woken else s

/-- `pthread_cond_signal` of `cvar_queue`. -/
def signalQueue : ThreadPool := if s.caller = .blocked then { s with caller := .woken } else s

/-- `mutex_queue` is taken. -/
def queueLocked : Bool :=
  match s.caller with
  | .scan _ | .noneFree | .wait => true
  | _ => false

/-- The test of the loop of `wait_to_start`, and what follows it when the worker need not wait. -/
def waitToStart (i : Nat) : ThreadPool :=
  if s.status i ≠ .startWork ∧ s.running i then s.goto i .wait
  else (s.setStatus i .working).goto i .check

/-- The next action of a worker. -/
def worker (i : Nat) : Option ThreadPool :=
  match s.pc i with
  | .entry => some ({ s with running := Function.update s.running i true }.goto i .loop)
  | .loop => some (s.goto i (if s.running i then .lock else .exited))
  | .lock | .woken => some (s.waitToStart i)
  | .wait => some (s.goto i .blocked)
  | .check =>
    if s.running i then
      some ({ s with worked := Function.update s.worked i (s.worked i + 1) }.goto i .work)
    else some (s.goto i .loop)
  | .work => some (s.goto i .finish)
  | .finish => some ((s.setStatus i .idle).goto i .notify)
  | .notify => if s.queueLocked then none else some (s.signalQueue.goto i .loop)
  | .blocked | .exited => none

/-- The next action of `wait_worker`, or of `release` after the worker is idle. -/
def callerStep : Option ThreadPool :=
  match s.caller with
  | .lock | .woken => some { s with caller := .scan 0 }
  | .scan i =>
    if i < nofWorkers then
      some { s with caller := if s.status i = .idle then .found i else .scan (i + 1) }
    else some { s with caller := .noneFree }
  | .noneFree => some { s with caller := if s.poolRunning then .wait else .found 0 }
  | .wait => some { s with caller := .blocked }
  | .found id => some { s with caller := if s.poolRunning then .claim id else .outside }
  | .claim id =>
    if s.pc id = .wait then none
    else some { s.setStatus id .workerReady with caller := .hasWorker id }
  | .notify => some { s with caller := .outside }
  | .outside | .blocked | .hasWorker _ => none

/-- `start_worker` of the worker that `wait_worker` returned. -/
def startWorker : Option ThreadPool :=
  match s.caller with
  | .hasWorker id =>
    if s.pc id = .wait then none
    else
      some { (s.setStatus id .startWork).signalWorker id with
        caller := .outside
        started := Function.update s.started id (s.started id + 1) }
  | _ => none

/-- The first action of `release`. -/
def release : Option ThreadPool :=
  match s.caller with
  | .hasWorker id =>
    if s.pc id = .wait then none else some { s.setStatus id .idle with caller := .notify }
  | _ => none

/-- The next action of `stop`. It is called when `phch_recv` has ended. -/
def stop : Option ThreadPool :=
  match s.stopPc with
  | .notCalled =>
    if s.caller = .outside then some { s with poolRunning := false, stopPc := .flag 0 } else none
  | .flag i =>
    if i < nofWorkers then
      some { s with running := Function.update s.running i false, stopPc := .signal i }
    else none
  | .signal i => some { s.signalWorker i with stopPc := .join i }
  | .join i => if s.pc i = .exited then some { s with stopPc := .start i } else none
  | .start i => some { s.setStatus i .startWork with stopPc := .flag (i + 1) }

/-- One step of the pool. -/
def step : ThreadAction → Option ThreadPool
  | .worker i => if i < nofWorkers then s.worker i else none
  | .waitWorker =>
    if s.caller = .outside ∧ s.stopPc = .notCalled then some { s with caller := .lock } else none
  | .caller => s.callerStep nofWorkers
  | .startWorker => s.startWorker
  | .release => s.release
  | .stop => s.stop nofWorkers
  | .spuriousWorker i => if s.pc i = .blocked then some (s.goto i .woken) else none
  | .spuriousCaller => if s.caller = .blocked then some { s with caller := .woken } else none

end ThreadPool

end SrsUE.Common
