import Mathlib.Algebra.BigOperators.Group.Finset.Piecewise
import Mathlib.Algebra.Order.BigOperators.Group.Finset
import SrsUE.Lib.Inevitable
import SrsUE.Proofs.Common.ThreadPoolRun

/-!
# `SrsUE.Proofs.Common.ThreadPoolProgress`: what the pool comes to

Nothing is assumed of the scheduler: when a thread can go on, some thread does, and a run ends only
where none can. The signals are what could be missed.

`waitWorker_inevitable` is that `wait_worker` returns a worker. The invariant has it that the
threads cannot all wait: when `phch_recv` waits, a worker is busy, or has yet to signal. Each round
of a worker ends, so `effort` falls.

`handedOver_along` is the promise of the pool: each start of a worker is one job. A worker with a
start pending never waits, and it inevitably does that job when the threads go on.

`stop` clears `running` and signals without the mutex of the worker. `stop_iff` says when it gets
past a worker then: the worker must not be between its test and its wait, where it misses the
signal, and its thread must have begun, since it sets `running` itself. Otherwise `stop` waits for
ever for the worker, which waits for ever for `start_worker`, and that is what `stop` would call
next.
-/

set_option autoImplicit false

namespace SrsUE.Common

open SrsUE.Lib

/-- The actions of the threads while `phch_recv` is in `wait_worker`. -/
def ThreadAction.InWaitWorker : ThreadAction → Prop
  | .worker _ | .caller => True
  | _ => False

/-- `phch_recv` is in `wait_worker`, or has a worker from it. -/
def CallerPc.InWaitWorker : CallerPc → Prop
  | .outside | .notify => False
  | _ => True

namespace ThreadPool

variable {nofWorkers : Nat} {s s' : ThreadPool} {i j id : Nat} {a : ThreadAction}

/-- The steps that a worker takes until it waits or ends, if nobody starts or wakes it. -/
def workerEffort (status : WorkerStatus) (pc : WorkerPc) (running : Bool) : Nat :=
  match pc with
  | .entry => 10
  | .loop => if !running then 1 else if status = .startWork then 9 else 3
  | .lock | .woken => if !running then 3 else if status = .startWork then 8 else 2
  | .wait => 1
  | .blocked | .exited => 0
  | .check => if running then 7 else 2
  | .work => 6
  | .finish => 5
  | .notify => if running && status = .startWork then 10 else 4

/-- A status other than a start does not matter for what is left to do. -/
theorem workerEffort_congr {st st' : WorkerStatus} (pc : WorkerPc) (running : Bool)
    (h : st ≠ .startWork)
    (h' : st' ≠ .startWork) : workerEffort st pc running = workerEffort st' pc running := by
  simp only [workerEffort, h, h', if_false, decide_false]

/-- The steps of all workers together. -/
def effort (nofWorkers : Nat) (s : ThreadPool) : Nat :=
  ∑ i ∈ Finset.range nofWorkers, workerEffort (s.status i) (s.pc i) (s.running i)

/-- The steps of `phch_recv` until it has a worker or waits for one. -/
def callerEffort (nofWorkers : Nat) : CallerPc → Nat
  | .lock | .woken => nofWorkers + 5
  | .scan i => nofWorkers - i + 4
  | .noneFree => 3
  | .wait | .found _ => 2
  | .blocked | .claim _ => 1
  | .outside | .hasWorker _ | .notify => 0

/-- A move of a worker takes it nearer to its wait or its end. -/
theorem WorkerMove.effort {running running' : Bool} {worked worked' : Nat} {st st' : WorkerStatus}
    {pc pc' : WorkerPc} (hmove : WorkerMove running worked st pc st' pc' running' worked') :
    workerEffort st' pc' running' < workerEffort st pc running := by
  cases hmove with
  | _ => grind [workerEffort]

/-- Every action of a worker lowers the effort. -/
theorem WorkerStep.effort (h : s.WorkerStep s' i) (hi : i < nofWorkers) :
    s'.effort nofWorkers < s.effort nofWorkers := by
  refine Finset.sum_lt_sum (fun j _ => ?_) ⟨i, Finset.mem_range.mpr hi, h.move.effort⟩
  by_cases hj : j = i
  · exact hj ▸ h.move.effort.le
  · rw [h.beside.status j hj, h.beside.pc j hj, h.beside.running j hj]

/-! ### `wait_worker` -/

/-- A worker that does not wait can go on, unless `phch_recv` has `mutex_queue` when it signals. -/
theorem worker_defined (hblocked : s.pc i ≠ .blocked) (hexited : s.pc i ≠ .exited)
    (hnotify : s.pc i = .notify → s.queueLocked = false) : ∃ s', s.worker i = some s' := by
  unfold worker
  cases hpc : s.pc i with
  | blocked => exact absurd hpc hblocked
  | exited => exact absurd hpc hexited
  | check => by_cases hrunning : s.running i <;> simp [hrunning]
  | notify => simp [hnotify hpc]
  | _ => exact ⟨_, rfl⟩

/-- When `phch_recv` waits for a worker, one of them has something to do. -/
theorem Consistent.some_busy (h : s.Consistent nofWorkers) (hn : 0 < nofWorkers)
    (hblocked : s.caller = .blocked) : ∃ i < nofWorkers, s.pc i ≠ .blocked ∧ s.pc i ≠ .exited := by
  refine ⟨0, hn, ?_⟩
  obtain ⟨busy, working, waits, ready, seen, alive, counted, bounds, exited, joined⟩ := h.workers 0
  have hstop := h.callers.calls (by simp [hblocked])
  have hrunning := alive (by rw [hstop]; exact Nat.zero_le 0)
  rw [hblocked] at seen ready
  rw [← not_or]
  intro hpc
  cases hst : s.status 0 with
  | idle => grind [CallerPc.seen]
  | startWork => grind
  | workerReady => grind
  | working => grind [WorkerPc.InJob]

/-- In `wait_worker` some thread can go on. -/
theorem Consistent.waitWorker_progress (h : s.Consistent nofWorkers) (hn : 0 < nofWorkers)
    (hcaller : s.caller.InWaitWorker) (hgoal : ¬∃ id, s.caller = .hasWorker id) :
    ∃ a s', a.InWaitWorker ∧ s.step nofWorkers a = some s' := by
  cases hc : s.caller with
  | outside | notify => simp [hc, CallerPc.InWaitWorker] at hcaller
  | hasWorker id => exact absurd ⟨id, hc⟩ hgoal
  | lock | woken | noneFree | wait | found =>
    exact ⟨.caller, _, trivial, by simp only [ThreadPool.step, ThreadPool.callerStep, hc]; rfl⟩
  | scan i =>
    by_cases hi : i < nofWorkers
    · exact ⟨.caller, _, trivial, by
        simp only [ThreadPool.step, ThreadPool.callerStep, hc, if_pos hi]
        rfl⟩
    · exact ⟨.caller, _, trivial, by
        simp only [ThreadPool.step, ThreadPool.callerStep, hc, if_neg hi]
        rfl⟩
  -- A blocked caller waits for a worker that is busy, and that worker can go on.
  | blocked =>
    obtain ⟨i, hi, hblocked, hexited⟩ := h.some_busy hn hc
    obtain ⟨s', hs'⟩ := worker_defined hblocked hexited fun _ => by simp [queueLocked, hc]
    exact ⟨.worker i, s', trivial, by rw [ThreadPool.step, if_pos hi, hs']⟩
  -- A worker about to block still holds its mutex, and goes on first.
  | claim id =>
    by_cases hpc : s.pc id = .wait
    · obtain ⟨s', hs'⟩ :=
        worker_defined (s := s) (i := id) (by simp [hpc]) (by simp [hpc]) (by simp [hpc])
      exact ⟨.worker id, s',
        trivial, by rw [ThreadPool.step, if_pos (h.callers.claimed id (.inr hc)).1, hs']⟩
    · exact ⟨.caller, _, trivial, by
        simp only [ThreadPool.step, ThreadPool.callerStep, hc, if_neg hpc]
        rfl⟩

/-- What is left of `wait_worker`. A worker that signals may send `phch_recv` through all workers
again. -/
def waitEffort (nofWorkers : Nat) (s : ThreadPool) : Nat :=
  (nofWorkers + 5) * s.effort nofWorkers + callerEffort nofWorkers s.caller

/-- A step of `phch_recv` in `wait_worker` takes it nearer to a worker. -/
theorem Consistent.callerStep_effort (h : s.Consistent nofWorkers) (hcaller : s.caller.InWaitWorker)
    (hs : s.callerStep nofWorkers = some s') :
    s'.caller.InWaitWorker ∧ s'.effort nofWorkers = s.effort nofWorkers ∧
      callerEffort nofWorkers s'.caller < callerEffort nofWorkers s.caller := by
  have hpool : s.poolRunning = true := h.callers.pool.mpr (h.callers.calls fun hout => by
    simp [hout, CallerPc.InWaitWorker] at hcaller)
  unfold ThreadPool.callerStep at hs
  cases hc : s.caller with
  | outside | notify => simp [hc, CallerPc.InWaitWorker] at hcaller
  | hasWorker | blocked => simp [hc] at hs
  | lock | woken | wait =>
    obtain rfl : _ = s' := by simpa only [hc, Option.some.injEq] using hs
    exact ⟨trivial, rfl, by simp [callerEffort]⟩
  | noneFree | found =>
    obtain rfl : _ = s' := by simpa only [hc, if_pos hpool, Option.some.injEq] using hs
    exact ⟨trivial, rfl, by simp [callerEffort]⟩
  | scan i =>
    simp only [hc] at hs
    split at hs
    · obtain rfl := Option.some.inj hs
      by_cases hidle : s.status i = .idle
      · simp only [if_pos hidle]
        exact ⟨trivial, rfl, by simp only [callerEffort]; omega⟩
      · simp only [if_neg hidle]
        exact ⟨trivial, rfl, by simp only [callerEffort]; omega⟩
    · obtain rfl := Option.some.inj hs
      exact ⟨trivial, rfl, by simp only [callerEffort]; omega⟩
  -- Taking the worker changes its status but adds no effort, for it is idle.
  | claim id =>
    simp only [hc] at hs
    split at hs
    · cases hs
    obtain rfl := Option.some.inj hs
    refine ⟨trivial, Finset.sum_congr rfl fun j _ => ?_, by simp [callerEffort]⟩
    by_cases hj : j = id
    · subst hj
      have hidle := (h.callers.claimed j (.inr hc)).2
      simp only [setStatus, Function.update_self, hidle]
      exact workerEffort_congr _ _ (by simp) (by simp)
    · simp only [setStatus, Function.update_of_ne hj]

/-- An action of a worker takes `phch_recv` nearer to a worker, also when it wakes `phch_recv`. -/
theorem WorkerStep.waitEffort (h : s.WorkerStep s' i) (hi : i < nofWorkers) :
    s'.waitEffort nofWorkers < s.waitEffort nofWorkers := by
  have heffort := h.effort hi
  rw [ThreadPool.waitEffort, ThreadPool.waitEffort]
  rcases h.caller with hc | ⟨hc, hc'⟩
  · rw [hc]
    exact Nat.add_lt_add_right (Nat.mul_lt_mul_of_pos_left heffort (by omega)) _
  · rw [hc, hc', callerEffort, callerEffort]
    have := Nat.mul_le_mul_left (nofWorkers + 5) heffort
    rw [Nat.mul_succ] at this
    omega

/-- `phch_recv` goes on in a call, which neither starts a worker nor stops the pool. -/
theorem callerStep_same (hs : s.callerStep nofWorkers = some s') :
    s'.stopPc = s.stopPc ∧ s'.started = s.started := by
  unfold callerStep at hs
  cases hc : s.caller with
  | outside | blocked | hasWorker => simp [hc] at hs
  | lock | woken | wait | notify | noneFree | found =>
    obtain rfl : _ = s' := by simpa only [hc, Option.some.injEq] using hs
    exact ⟨rfl, rfl⟩
  | scan | claim =>
    simp only [hc] at hs
    split at hs
    all_goals first | (obtain rfl := Option.some.inj hs; exact ⟨rfl, rfl⟩) | cases hs

/-- `wait_worker` returns a worker, in whatever order the threads run. -/
theorem waitWorker_inevitable (hn : 0 < nofWorkers) (h : s.Consistent nofWorkers)
    (hcaller : s.caller.InWaitWorker) :
    Inevitable (step nofWorkers) ThreadAction.InWaitWorker (fun s => ∃ id, s.caller = .hasWorker id)
      s := by
  refine Inevitable.of_measure (I := fun s => s.Consistent nofWorkers ∧ s.caller.InWaitWorker)
    (waitEffort nofWorkers) (fun s hs => hs.1.waitWorker_progress hn hs.2) ?_ ⟨h, hcaller⟩
  intro s a s' ⟨h, hcaller⟩ hgoal ha hs
  cases a with
  | worker i =>
    have hs' := hs
    rw [step] at hs
    split at hs
    · have hstep := workerStep_of_worker hs
      refine ⟨⟨h.step hs', ?_⟩, hstep.waitEffort ‹_›⟩
      rcases hstep.caller with hc | ⟨-, hc'⟩
      · exact hc ▸ hcaller
      · exact hc' ▸ trivial
    · cases hs
  | caller =>
    obtain ⟨hcaller', heffort, hlt⟩ := h.callerStep_effort hcaller hs
    rw [waitEffort, waitEffort, heffort]
    exact ⟨⟨h.step hs, hcaller'⟩, Nat.add_lt_add_left hlt _⟩
  | _ => exact ha.elim

/-- Whenever `phch_recv` is in `wait_worker`, it gets a worker, in whatever order the threads
run. -/
theorem waitWorker_returns (n : Nat) (as : List ThreadAction) :
    Along (step (n + 1)) (fun _ _ s => s.caller.InWaitWorker →
      Inevitable (step (n + 1)) ThreadAction.InWaitWorker (fun s => ∃ id, s.caller = .hasWorker id)
      s) {} as :=
  Along.of_kind (K := fun _ => True)
    (fun _ _ _ h _ hs => ⟨waitWorker_inevitable n.succ_pos (h.step hs), h.step hs⟩)
    (fun _ _ => trivial) (consistent_init (n + 1))

/-! ### Each start is one job -/

/-- Until `stop`, a worker has as many jobs as starts, or one less and a start that is pending. -/
theorem Consistent.counted (h : s.Consistent nofWorkers) (hstop : s.stopPc = .notCalled) (i : Nat) :
    s.started i = s.worked i + if s.Pending i then 1 else 0 := by
  have hi := h.workers i
  refine hi.counted ((em _).symm.imp_left (hi.alive ?_))
  rw [hstop]
  exact Nat.zero_le i

/-- Until `stop`, a worker with a pending start does not wait for a signal, and has not ended. -/
theorem Consistent.awake (h : s.Consistent nofWorkers) (hstop : s.stopPc = .notCalled)
    (hpending : s.Pending i) : s.pc i ≠ .wait ∧ s.pc i ≠ .blocked ∧ s.pc i ≠ .exited := by
  obtain ⟨busy, working, waits, ready, seen, alive, counted, bounds, exited, joined⟩ := h.workers i
  rw [hstop] at alive
  have hrunning := alive (Nat.zero_le i)
  rcases hpending with hst | hpc
  · refine ⟨fun hpc => waits (.inl hpc) hst, fun hpc => waits (.inr hpc) hst, fun hpc => ?_⟩
    rw [exited hpc] at hrunning
    cases hrunning (by rw [hpc]; decide)
  · rw [hpc]
    decide

/-- What is left of the calls that `phch_recv` has begun and of the jobs. -/
def jobEffort (nofWorkers : Nat) (s : ThreadPool) : Nat :=
  s.waitEffort nofWorkers + if s.caller = .notify then 1 else 0

/-- The pool runs, and the worker has been started this often. -/
structure StartedTimes (nofWorkers i starts : Nat) (s : ThreadPool) : Prop where
  consistent : s.Consistent nofWorkers
  stopPc : s.stopPc = .notCalled
  started : s.started i = starts

/-- Some thread can go on while the worker has not done its job. It is the worker itself, or
`phch_recv` with the mutex that the worker takes to signal. -/
theorem StartedTimes.progress {starts : Nat} (h : s.StartedTimes nofWorkers i starts)
    (hi : i < nofWorkers) (hgoal : s.worked i ≠ starts) :
    ∃ a s', a.InWaitWorker ∧ s.step nofWorkers a = some s' := by
  have hpending : s.Pending i := by
    have hcounted := h.consistent.counted h.stopPc i
    rw [h.started] at hcounted
    by_contra hnone
    rw [if_neg hnone] at hcounted
    exact hgoal hcounted.symm
  obtain ⟨-, hblocked, hexited⟩ := h.consistent.awake h.stopPc hpending
  cases hlocked : s.queueLocked with
  | false =>
    obtain ⟨s', hs'⟩ := worker_defined hblocked hexited fun _ => hlocked
    exact ⟨.worker i, s', trivial, by rw [ThreadPool.step, if_pos hi, hs']⟩
  | true =>
    refine h.consistent.waitWorker_progress (Nat.zero_lt_of_lt hi) ?_ ?_
    · cases hc : s.caller <;> simp [queueLocked, hc, CallerPc.InWaitWorker] at hlocked ⊢
    · rintro ⟨id, hc⟩
      simp [queueLocked, hc] at hlocked

/-- A step of a thread takes the worker nearer to its job. -/
theorem StartedTimes.step {starts : Nat} (h : s.StartedTimes nofWorkers i starts)
    (ha : a.InWaitWorker) (hs : s.step nofWorkers a = some s') :
    s'.StartedTimes nofWorkers i starts ∧ s'.jobEffort nofWorkers < s.jobEffort nofWorkers := by
  have hconsistent := h.consistent.step hs
  cases a with
  -- A step of any worker lowers the effort, and only its own can raise the number of starts.
  | worker j =>
    rw [ThreadPool.step] at hs
    split at hs
    · have hstep := workerStep_of_worker hs
      have heffort := hstep.waitEffort ‹_›
      refine ⟨⟨hconsistent, hstep.stopPc.trans h.stopPc, ?_⟩, ?_⟩
      · rw [← h.started]
        by_cases hj : i = j
        · exact hj ▸ hstep.started
        · exact hstep.beside.started i hj
      · rw [jobEffort, jobEffort]
        rcases hstep.caller with hc | ⟨hc, hc'⟩
        · rw [hc]
          omega
        · rw [hc, hc']
          simpa using heffort
    · cases hs
  | caller =>
    obtain ⟨hstop', hstarted'⟩ := callerStep_same hs
    refine ⟨⟨hconsistent, hstop'.trans h.stopPc, (congrFun hstarted' i).trans h.started⟩, ?_⟩
    -- The caller is on its way to a worker, or about to wake the one it has started.
    by_cases hcaller : s.caller.InWaitWorker
    · obtain ⟨hcaller', heffort, hlt⟩ := h.consistent.callerStep_effort hcaller hs
      have hnotify : s'.caller ≠ .notify := fun hc => by rw [hc] at hcaller'; exact hcaller'
      rw [jobEffort, jobEffort, waitEffort, waitEffort, heffort, if_neg hnotify]
      omega
    · have hnotify : s.caller = .notify := by
        cases hc : s.caller <;>
          simp [hc, CallerPc.InWaitWorker, ThreadPool.step, ThreadPool.callerStep] at hcaller hs ⊢
      obtain rfl : _ = s' := by
        simpa only [ThreadPool.step, ThreadPool.callerStep, hnotify, Option.some.injEq] using hs
      rw [jobEffort, jobEffort, if_pos hnotify, waitEffort, waitEffort, hnotify]
      exact Nat.lt_succ_self _
  | _ => exact ha.elim

/-- What the pool promises to those who use it. -/
structure HandedOver (nofWorkers : Nat) (s : ThreadPool) : Prop where
  /-- A worker that `wait_worker` has returned is not in its job. -/
  apart : ∀ id, s.caller = .hasWorker id → id < nofWorkers ∧ ¬(s.pc id).InJob
  /-- No job is done twice, and at most one is not begun. -/
  once : ∀ i, s.worked i ≤ s.started i ∧ s.started i ≤ s.worked i + 1
  /-- Until `stop`, that is one that is pending. -/
  pending : s.stopPc = .notCalled → ∀ i, s.started i = s.worked i + if s.Pending i then 1 else 0
  /-- Until `stop`, a worker with a pending start waits for no signal. -/
  awake : s.stopPc = .notCalled → ∀ i, s.Pending i →
    s.pc i ≠ .wait ∧ s.pc i ≠ .blocked ∧ s.pc i ≠ .exited
  /-- Until `stop`, a worker does as many jobs as it has been started, when the threads go on with
  what they have begun. -/
  done : s.stopPc = .notCalled → ∀ i < nofWorkers,
    Inevitable (ThreadPool.step nofWorkers) ThreadAction.InWaitWorker
      (fun s' => s'.worked i = s.started i) s

/-- A consistent pool hands its jobs over, one at a time. -/
theorem Consistent.handedOver (h : s.Consistent nofWorkers) : s.HandedOver nofWorkers where
  apart id hid := by
    obtain ⟨hlt, hstatus⟩ := h.callers.held id hid
    refine ⟨hlt, fun hjob => ?_⟩
    rw [(h.workers id).busy hjob] at hstatus
    cases hstatus
  once i := (h.workers i).bounds
  pending := h.counted
  awake hstop _ hpending := h.awake hstop hpending
  done hstop i hi :=
    Inevitable.of_measure (I := StartedTimes nofWorkers i (s.started i)) (jobEffort nofWorkers)
      (fun _ hs hgoal => hs.progress hi hgoal) (fun _ _ _ hs _ ha hstep => hs.step ha hstep)
      ⟨h, hstop, rfl⟩

/-- In whatever order the threads run, also with wakeups that no signal caused, each start of a
worker is one job that the worker does, and the worker that `phch_recv` prepares is not at work. -/
theorem handedOver_along (nofWorkers : Nat) (as : List ThreadAction) :
    Along (step nofWorkers) (fun _ _ s => s.HandedOver nofWorkers) {} as :=
  Along.of_kind (K := fun _ => True) (fun _ _ _ h _ hs => ⟨(h.step hs).handedOver, h.step hs⟩)
    (fun _ _ => trivial) (consistent_init nofWorkers)

/-! ### `stop` -/

/-- The actions of the threads while the pool is in `stop`. -/
def InStop : ThreadAction → Prop
  | .worker _ | .stop => True
  | _ => False

/-- The worker will end: it sees that `running` is cleared, and does not wait for a signal that has
been. -/
structure Ending (nofWorkers : Nat) (i : Nat) (s : ThreadPool) : Prop where
  lt : i < nofWorkers
  running : s.running i = false
  entry : s.pc i ≠ .entry
  wait : s.pc i ≠ .wait
  stopPc : s.stopPc = .signal i ∨ s.stopPc = .join i ∧ s.pc i ≠ .blocked ∨ s.stopPc = .start i
  caller : s.caller = .outside

/-- The worker waits, or will wait, for a signal that does not come. -/
structure Missed (i : Nat) (s : ThreadPool) : Prop where
  stopPc : s.stopPc = .join i
  missed : s.running i = true ∨ s.pc i = .entry ∨ s.pc i = .wait ∨ s.pc i = .blocked
  alive : s.pc i ≠ .exited

/-- The worker is still on its way to its end when any worker has acted. -/
theorem Ending.worker (h : s.Ending nofWorkers i) (hs : s.worker j = some s') :
    s'.Ending nofWorkers i := by
  have hstep := workerStep_of_worker hs
  have hcaller : s'.caller = .outside := by
    rcases hstep.caller with hc | ⟨hc, -⟩
    · rw [hc, h.caller]
    · rw [h.caller] at hc
      cases hc
  obtain ⟨lt, running, entry, wait, stopPc, caller⟩ := h
  rw [← hstep.stopPc] at stopPc
  by_cases hj : i = j
  · subst hj
    have hmove := hstep.move
    generalize s.status i = st, s.worked i = w, s.running i = r, s.pc i = pc at *
    generalize hst' : s'.status i = st', hw' : s'.worked i = w', hr' : s'.running i = r',
      hpc' : s'.pc i = pc' at hmove
    cases hmove with
    | _ => constructor <;> grind
  · rw [← hstep.beside.running i hj] at running
    rw [← hstep.beside.pc i hj] at entry wait stopPc
    exact { lt, running, entry, wait, stopPc, caller := hcaller }

/-- It still waits for the signal when any worker has acted. -/
theorem Missed.worker (h : s.Missed i) (hs : s.worker j = some s') : s'.Missed i := by
  have hstep := workerStep_of_worker hs
  obtain ⟨stopPc, missed, alive⟩ := h
  rw [← hstep.stopPc] at stopPc
  by_cases hj : i = j
  · subst hj
    have hmove := hstep.move
    generalize s.status i = st, s.worked i = w, s.running i = r, s.pc i = pc at *
    generalize hst' : s'.status i = st', hw' : s'.worked i = w', hr' : s'.running i = r',
      hpc' : s'.pc i = pc' at hmove
    cases hmove with
    | _ => constructor <;> grind
  · rw [← hstep.beside.running i hj, ← hstep.beside.pc i hj] at missed
    rw [← hstep.beside.pc i hj] at alive
    exact { stopPc, missed, alive }

/-- What `stop` has before it until it gets past a worker. -/
def stopEffort : StopPc → Nat
  | .signal _ => 5
  | .join _ => 1
  | _ => 0

/-- A signal makes a worker that waits take at most three steps, when its `running` is cleared. -/
theorem effort_signalWorker (hrunning : s.running i = false) :
    (s.signalWorker i).effort nofWorkers ≤ s.effort nofWorkers + 3 := by
  have hle : ∀ j ∈ Finset.range nofWorkers,
      workerEffort ((s.signalWorker i).status j) ((s.signalWorker i).pc j)
        ((s.signalWorker i).running j) ≤
        workerEffort (s.status j) (s.pc j) (s.running j) + if j = i then 3 else 0 := by
    intro j _
    unfold signalWorker
    split
    · rename_i hblocked
      by_cases hj : j = i
      · subst hj
        simp [goto, workerEffort, hrunning]
      · simp [goto, hj]
    · exact Nat.le_add_right _ _
  refine (Finset.sum_le_sum hle).trans ?_
  rw [Finset.sum_add_distrib, Finset.sum_ite_eq']
  refine Nat.add_le_add_left ?_ _
  split
  · exact Nat.le_refl 3
  · exact Nat.zero_le 3

/-- While `stop` has not reached the worker, it can act. -/
theorem Ending.progress (h : s.Ending nofWorkers i) (hgoal : s.stopPc ≠ .start i) :
    ∃ a s', InStop a ∧ s.step nofWorkers a = some s' := by
  rcases h.stopPc with hstop | ⟨hstop, hblocked⟩ | hstop
  · exact ⟨.stop, _, trivial, by simp only [step, stop, hstop]; rfl⟩
  · by_cases hpc : s.pc i = .exited
    · exact ⟨.stop, _, trivial, by simp only [step, stop, hstop, if_pos hpc]; rfl⟩
    · obtain ⟨s', hs'⟩ := worker_defined hblocked hpc fun _ => by simp [queueLocked, h.caller]
      exact ⟨.worker i, s', trivial, by rw [step, if_pos h.lt, hs']⟩
  · exact absurd hstop hgoal

/-- `stop` signals, or joins the worker. -/
theorem Ending.stop (h : s.Ending nofWorkers i) (hgoal : s.stopPc ≠ .start i)
    (hs : s.stop nofWorkers = some s') :
    s'.Ending nofWorkers i ∧
      s'.effort nofWorkers + stopEffort s'.stopPc < s.effort nofWorkers + stopEffort s.stopPc := by
  -- Of `signal`, `join` and `start`, only the first two move on before the goal.
  rcases h.stopPc with hstop | ⟨hstop, hblocked⟩ | hstop
  · obtain rfl : _ = s' := by simpa only [ThreadPool.stop, hstop, Option.some.injEq] using hs
    have heffort : (s.signalWorker i).effort nofWorkers ≤ s.effort nofWorkers + 3 :=
      effort_signalWorker h.running
    refine ⟨?_, ?_⟩
    · obtain ⟨lt, running, entry, wait, stopPc, caller⟩ := h
      unfold signalWorker
      split
      · constructor <;> simp [goto, *]
      · constructor <;> simp [*]
    · rw [hstop]
      show (s.signalWorker i).effort nofWorkers + 1 < _
      simp only [stopEffort]
      omega
  · simp only [ThreadPool.stop, hstop] at hs
    split at hs
    · obtain rfl := Option.some.inj hs
      refine ⟨{ h with stopPc := .inr (.inr rfl) }, ?_⟩
      rw [hstop]
      exact Nat.lt_succ_self _
    · cases hs
  · exact absurd hstop hgoal

/-- `stop` gets past a worker that will end. -/
theorem Ending.inevitable (h : s.Ending nofWorkers i) :
    Inevitable (step nofWorkers) InStop (fun s => s.stopPc = .start i) s := by
  refine Inevitable.of_measure (I := Ending nofWorkers i)
    (fun s => s.effort nofWorkers + stopEffort s.stopPc) (fun s hs => hs.progress) ?_ h
  intro s a s' h hgoal ha hs
  cases a with
  | worker j =>
    rw [step] at hs
    split at hs
    · have hstep := workerStep_of_worker hs
      refine ⟨h.worker hs, ?_⟩
      rw [hstep.stopPc]
      exact Nat.add_lt_add_right (hstep.effort ‹_›) _
    · cases hs
  | stop => exact h.stop hgoal hs
  | _ => exact ha.elim

/-- A signal that was missed is not sent again. -/
theorem Missed.not_inevitable (h : s.Missed i) :
    ¬Inevitable (step nofWorkers) InStop (fun s => s.stopPc = .start i) s := by
  refine Lib.not_inevitable (I := Missed i) (fun s hs => by simp [hs.stopPc]) ?_ h
  intro s a s' h ha hs
  cases a with
  | worker j =>
    rw [step] at hs
    split at hs
    · exact h.worker hs
    · cases hs
  | stop => simp [step, stop, h.stopPc, h.alive] at hs
  | _ => exact ha.elim

/-- Before its signal to a worker, `stop` is sure to get past it exactly when the thread of the
worker has begun, has not set `running` again, and is not between its test and its wait. -/
theorem Consistent.stop_iff (h : s.Consistent nofWorkers) (hstop : s.stopPc = .signal i) :
    Inevitable (ThreadPool.step nofWorkers) InStop (fun s => s.stopPc = .start i) s ↔
      s.running i = false ∧ s.pc i ≠ .entry ∧ s.pc i ≠ .wait := by
  have hcaller : s.caller = .outside := by
    by_contra hne
    rw [h.callers.calls hne] at hstop
    cases hstop
  constructor
  · intro hinev
    by_contra hne
    have hs : s.step nofWorkers .stop = some { s.signalWorker i with stopPc := .join i } := by
      simp only [ThreadPool.step, ThreadPool.stop, hstop]
    have hexited := (h.workers i).exited
    -- The signal is given, but the worker still runs or has yet to reach its wait.
    have hmissed : Missed i { s.signalWorker i with stopPc := .join i } := by
      unfold signalWorker
      split
      · rename_i hblocked
        have hrunning : s.running i = true := by grind
        refine { stopPc := rfl, missed := .inl hrunning, alive := ?_ }
        simp [goto]
      · constructor <;> grind
    exact hmissed.not_inevitable (hinev.after (a := .stop) (by simp [hstop]) trivial hs)
  · rintro ⟨hrunning, hentry, hwait⟩
    exact Ending.inevitable
      { lt := h.callers.stops i (.inl hstop)
        running := hrunning
        entry := hentry
        wait := hwait
        stopPc := .inl hstop
        caller := hcaller }

/-- `Consistent.stop_iff` in every state that the pool reaches. -/
theorem stop_along (nofWorkers : Nat) (as : List ThreadAction) :
    Along (step nofWorkers) (fun _ _ s => ∀ i, s.stopPc = .signal i →
      (Inevitable (step nofWorkers) InStop (fun s => s.stopPc = .start i) s ↔
        s.running i = false ∧ s.pc i ≠ .entry ∧ s.pc i ≠ .wait)) {} as :=
  Along.of_kind (K := fun _ => True)
    (fun _ _ _ h _ hs => ⟨fun _ hstop => (h.step hs).stop_iff hstop, h.step hs⟩)
    (fun _ _ => trivial) (consistent_init nofWorkers)

/-- The worker has tested `running`, and `stop` clears it and signals before the worker waits. -/
example : ∃ s, runTo (step 1) {} [.worker 0, .worker 0, .worker 0, .stop, .stop] = some s ∧
    s.stopPc = .signal 0 ∧ s.pc 0 = .wait := ⟨_, rfl, rfl, rfl⟩

end ThreadPool

end SrsUE.Common
