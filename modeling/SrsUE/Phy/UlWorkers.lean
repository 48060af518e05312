import SrsUE.Common.ThreadPool
import SrsUE.Phy.UlOrder

/-!
# `SrsUE.Phy.UlWorkers`: the thread pool that runs `worker_end`

The pool of `SrsUE.Common.ThreadPool` and the uplink of `SrsUE.Phy.UlOrder` together. `phch_recv`
gets a worker from `wait_worker`, gives it the next index with `set_tti`, and starts it. The worker
goes through `worker_end` for that job in its `work_imp`, which ends with it. After a `release`,
`phch_recv` calls `reset_ul` before it gets the next worker.

A cell is initiated before the first subframe, so the return of `work_imp` without one is left out.
-/

set_option autoImplicit false

namespace SrsUE.Phy

open SrsUE.Common

/-- A job is started: `set_tti` with `tx_mutex_cnt`, which moves on. -/
def UlTx.startJob (nofMutex : Nat) (s : UlTx) (txEnable : Bool) : UlTx :=
  { s with
    jobs := Function.update s.jobs s.started { txTti := s.txMutexCnt, txEnable := txEnable }
    started := s.started + 1
    txMutexCnt := (s.txMutexCnt + 1) % nofMutex }

/-- The pool, the uplink, and the job that each worker had last. -/
structure UlWorkers where
  pool : ThreadPool := {}
  tx : UlTx := {}
  job : Nat → Option Nat := fun _ => none

/-- An atomic action of a thread: on the pool, the start of a worker with a subframe, an action of a
worker in `worker_end`, or one of `reset_ul`. -/
inductive UlAction where
  | pool (a : ThreadAction)
  | start (txEnable : Bool)
  | worker (i : Nat)
  | resetUl
deriving DecidableEq, Repr

namespace UlWorkers

/-- The worker has a job that it has not finished. -/
def atJob (s : UlWorkers) (i : Nat) : Bool :=
  match s.job i with
  | none => false
  | some j => (s.tx.jobs j).pc ≠ .done

/-- An action on the pool: `work_imp` ends after `worker_end`, and `phch_recv` is out of `reset_ul`
when it calls `wait_worker`. -/
def poolStep (nofWorkers : Nat) (s : UlWorkers) (a : ThreadAction) : Option UlWorkers :=
  match a with
  | .startWorker => none
  | .worker i =>
    if s.pool.pc i = .work ∧ s.atJob i then none
    else (s.pool.step nofWorkers a).map fun pool => { s with pool := pool }
  | .waitWorker =>
    if s.tx.resetPos = 0 then (s.pool.step nofWorkers a).map fun pool => { s with pool := pool }
    else none
  | _ => (s.pool.step nofWorkers a).map fun pool => { s with pool := pool }

/-- `phch_recv` starts the worker that it has. -/
def start (nofMutex nofWorkers : Nat) (s : UlWorkers) (txEnable : Bool) : Option UlWorkers :=
  match s.pool.caller with
  | .hasWorker id =>
    (s.pool.step nofWorkers .startWorker).map fun pool =>
      { pool := pool
        tx := s.tx.startJob nofMutex txEnable
        job := Function.update s.job id (some s.tx.started) }
  | _ => none

/-- The next action in `worker_end` of a worker that is in `work_imp`. -/
def worker (nofMutex : Nat) (s : UlWorkers) (i : Nat) : Option UlWorkers :=
  match s.pool.pc i, s.job i with
  | .work, some j => (s.tx.worker nofMutex j).map fun tx => { s with tx := tx }
  | _, _ => none

/-- One step of the pool and the uplink. -/
def step (nofMutex nofWorkers : Nat) (s : UlWorkers) : UlAction → Option UlWorkers
  | .pool a => s.poolStep nofWorkers a
  | .start txEnable => s.start nofMutex nofWorkers txEnable
  | .worker i => s.worker nofMutex i
  | .resetUl =>
    if s.pool.caller = .outside then some { s with tx := s.tx.resetUl nofMutex } else none

end UlWorkers

end SrsUE.Phy
