import SrsUE.Common.ThreadPool
import SrsUE.Lib.Run

/-!
# `SrsUE.Proofs.Common.ThreadPoolRun`: the pool hands a worker to one side at a time

`Consistent` is the invariant of the pool, for any order in which the threads run. It says what the
`status` of a worker tells about the place where its thread is, and what `phch_recv` may rely on.

* A worker that `wait_worker` has returned is not in `work_imp`, and stays out of it until
  `start_worker`.
* A worker that waits has no job: no start is missed.
* The workers that `wait_worker` has seen busy when it waits are busy, or about to signal
  `cvar_queue`. So no signal of that is missed either.
* `started` and `worked` differ by the job that the worker has not begun.

`Consistent.step` keeps the invariant in every step. What it means for the callers is in
`SrsUE.Proofs.Common.ThreadPoolProgress`.
-/

set_option autoImplicit false

namespace SrsUE.Common

open SrsUE.Lib

/-- The worker has left `wait_to_start`, and is not yet idle again. -/
def WorkerPc.InJob : WorkerPc → Prop
  | .check | .work | .finish => True
  | _ => False

instance : DecidablePred WorkerPc.InJob := fun pc => by
  cases pc <;> first | exact isTrue trivial | exact isFalse id

/-- The number of workers that `find_finished_worker` has found busy, from the lowest on. -/
def CallerPc.seen (nofWorkers : Nat) : CallerPc → Nat
  | .scan i => min i nofWorkers
  | .noneFree | .wait | .blocked => nofWorkers
  | _ => 0

/-- The number of workers whose `running` is cleared by `stop`. -/
def StopPc.cleared : StopPc → Nat
  | .notCalled => 0
  | .flag i => i
  | .signal i | .join i | .start i => i + 1

namespace ThreadPool

variable {nofWorkers : Nat} {s s' : ThreadPool} {i j id : Nat}

/-- What holds of a worker, for the place where `phch_recv` and `stop` are. -/
structure WorkerOk (nofWorkers : Nat) (caller : CallerPc) (stopPc : StopPc) (i : Nat)
    (status : WorkerStatus)
    (pc : WorkerPc) (running : Bool) (started worked : Nat) : Prop where
  busy : pc.InJob → status = .working
  working : status = .working → pc.InJob ∨ (running = false ∧ (pc = .loop ∨ pc = .exited))
  waits : pc = .wait ∨ pc = .blocked → status ≠ .startWork
  ready : status = .workerReady → caller = .hasWorker i
  seen : i < caller.seen nofWorkers → status = .idle → pc = .notify
  alive : stopPc.cleared ≤ i → pc ≠ .entry → running = true
  counted : running = true ∨ pc = .entry →
    started = worked + if status = .startWork ∨ pc = .check then 1 else 0
  bounds : worked ≤ started ∧ started ≤ worked + 1
  exited : pc = .exited → running = false
  joined : stopPc = .start i → pc = .exited

/-- What holds of `phch_recv`, which is in no call when `stop` begins, and of `stop`. -/
structure CallerOk (nofWorkers : Nat) (s : ThreadPool) : Prop where
  held : ∀ id, s.caller = .hasWorker id → id < nofWorkers ∧ s.status id = .workerReady
  claimed : ∀ id, s.caller = .found id ∨ s.caller = .claim id → id < nofWorkers ∧ s.status id
    = .idle
  calls : s.caller ≠ .outside → s.stopPc = .notCalled
  pool : s.poolRunning = true ↔ s.stopPc = .notCalled
  stops : ∀ i, s.stopPc = .signal i ∨ s.stopPc = .join i ∨ s.stopPc = .start i → i < nofWorkers

/-- The invariant of the pool. -/
structure Consistent (nofWorkers : Nat) (s : ThreadPool) : Prop where
  workers : ∀ i, WorkerOk nofWorkers s.caller s.stopPc i (s.status i) (s.pc i) (s.running i)
    (s.started i)
    (s.worked i)
  callers : s.CallerOk nofWorkers

/-- The states differ in one worker only. -/
structure SameBeside (s s' : ThreadPool) (i : Nat) : Prop where
  status : ∀ j, j ≠ i → s'.status j = s.status j
  pc : ∀ j, j ≠ i → s'.pc j = s.pc j
  running : ∀ j, j ≠ i → s'.running j = s.running j
  started : ∀ j, j ≠ i → s'.started j = s.started j
  worked : ∀ j, j ≠ i → s'.worked j = s.worked j

/-- What a worker does in one action, with its `running` and its number of jobs. -/
inductive WorkerMove (running : Bool) (worked : Nat) :
    WorkerStatus → WorkerPc → WorkerStatus → WorkerPc → Bool → Nat → Prop where
  | entry (st : WorkerStatus) : WorkerMove running worked st .entry st .loop true worked
  | loop (st : WorkerStatus) (h : running = true) : WorkerMove running worked st .loop st .lock
      running worked
  | leave (st : WorkerStatus) (h : running = false) : WorkerMove running worked st .loop st .exited
      running worked
  | wait (st : WorkerStatus) (pc : WorkerPc) (hpc : pc = .lock ∨ pc = .woken)
      (hst : st ≠ .startWork)
      (h : running = true) : WorkerMove running worked st pc st .wait running worked
  | take (st : WorkerStatus) (pc : WorkerPc) (hpc : pc = .lock ∨ pc = .woken)
      (h : st = .startWork ∨ running = false) : WorkerMove running worked st pc .working .check
        running worked
  | block (st : WorkerStatus) : WorkerMove running worked st .wait st .blocked running worked
  | work (st : WorkerStatus) (h : running = true) :
      WorkerMove running worked st .check st .work running (worked + 1)
  | quit (st : WorkerStatus) (h : running = false) : WorkerMove running worked st .check st .loop
      running worked
  | done (st : WorkerStatus) : WorkerMove running worked st .work st .finish running worked
  | finish (st : WorkerStatus) : WorkerMove running worked st .finish .idle .notify running worked
  | notify (st : WorkerStatus) : WorkerMove running worked st .notify st .loop running worked

/-- All that an action of a worker changes. It can wake `phch_recv`, and it does not take
`mutex_queue` while `phch_recv` looks for a worker. -/
structure WorkerStep (s s' : ThreadPool) (i : Nat) : Prop where
  beside : s.SameBeside s' i
  move : WorkerMove (s.running i) (s.worked i) (s.status i) (s.pc i) (s'.status i) (s'.pc i)
    (s'.running i)
    (s'.worked i)
  started : s'.started i = s.started i
  stopPc : s'.stopPc = s.stopPc
  poolRunning : s'.poolRunning = s.poolRunning
  caller : s'.caller = s.caller ∨ (s.caller = .blocked ∧ s'.caller = .woken)
  notified : s.pc i = .notify → s'.caller ≠ .blocked ∧ s'.queueLocked = false

/-- A worker that moves on in its code. -/
theorem workerStep_goto {pc : WorkerPc} (hpc : s.pc i ≠ .notify)
    (hmove : WorkerMove (s.running i) (s.worked i) (s.status i) (s.pc i) (s.status i) pc
    (s.running i) (s.worked i)) :
    s.WorkerStep (s.goto i pc) i where
  beside := by constructor <;> simp +contextual [goto, Function.update_of_ne]
  move := by simpa only [goto, Function.update_self] using hmove
  started := rfl
  stopPc := rfl
  poolRunning := rfl
  caller := .inl rfl
  notified h := absurd h hpc

/-- A worker in `wait_to_start`: it goes on, or it blocks. -/
theorem workerStep_waitToStart (hpc : s.pc i = .lock ∨ s.pc i = .woken) :
    s.WorkerStep (s.waitToStart i) i := by
  have hnotify : s.pc i ≠ .notify := by rcases hpc with h | h <;> simp [h]
  unfold waitToStart
  split
  · rename_i hwait
    exact workerStep_goto hnotify (.wait _ _ hpc hwait.1 hwait.2)
  · rename_i htake
    refine { beside := ?_, move := ?_, started := rfl, stopPc := rfl, poolRunning := rfl,
             caller := .inl rfl, notified := fun h => absurd h hnotify }
    · constructor <;> simp +contextual [goto, setStatus, Function.update_of_ne]
    · simp only [goto, setStatus, Function.update_self]
      exact .take _ _ hpc (by grind)

/-- Every action of a worker is of this kind. -/
theorem workerStep_of_worker (hs : s.worker i = some s') : s.WorkerStep s' i := by
  unfold worker at hs
  -- One case for each position of `run_thread`. Only `notify` touches anything but worker `i`.
  cases hpc : s.pc i with
  | entry =>
    obtain rfl : _ = s' := by simpa only [hpc, Option.some.injEq] using hs
    refine { beside := ?_, move := ?_, started := rfl, stopPc := rfl, poolRunning := rfl,
             caller := .inl rfl, notified := fun h => by simp [hpc] at h }
    · constructor <;> simp +contextual [goto, Function.update_of_ne]
    · simp only [goto, Function.update_self, hpc]
      exact .entry _
  | loop =>
    obtain rfl : _ = s' := by simpa only [hpc, Option.some.injEq] using hs
    refine workerStep_goto (by simp [hpc]) ?_
    rw [hpc]
    split
    · exact .loop _ ‹_›
    · rename_i hrunning
      exact .leave _ (Bool.eq_false_iff.mpr hrunning)
  | lock =>
    obtain rfl : _ = s' := by simpa only [hpc, Option.some.injEq] using hs
    exact workerStep_waitToStart (.inl hpc)
  | woken =>
    obtain rfl : _ = s' := by simpa only [hpc, Option.some.injEq] using hs
    exact workerStep_waitToStart (.inr hpc)
  | wait =>
    obtain rfl : _ = s' := by simpa only [hpc, Option.some.injEq] using hs
    exact workerStep_goto (by simp [hpc]) (hpc ▸ .block _)
  | check =>
    simp only [hpc] at hs
    split at hs
    · rename_i hrunning
      obtain rfl := Option.some.inj hs
      refine { beside := ?_, move := ?_, started := rfl, stopPc := rfl, poolRunning := rfl,
               caller := .inl rfl, notified := fun h => by simp [hpc] at h }
      · constructor <;> simp +contextual [goto, Function.update_of_ne]
      · simp only [goto, Function.update_self, hpc]
        exact .work _ hrunning
    · rename_i hrunning
      obtain rfl := Option.some.inj hs
      exact workerStep_goto (by simp [hpc]) (hpc ▸ .quit _ (by simpa using hrunning))
  | work =>
    obtain rfl : _ = s' := by simpa only [hpc, Option.some.injEq] using hs
    exact workerStep_goto (by simp [hpc]) (hpc ▸ .done _)
  | finish =>
    obtain rfl : _ = s' := by simpa only [hpc, Option.some.injEq] using hs
    refine { beside := ?_, move := ?_, started := rfl, stopPc := rfl, poolRunning := rfl,
             caller := .inl rfl, notified := fun h => by simp [hpc] at h }
    · constructor <;> simp +contextual [goto, setStatus, Function.update_of_ne]
    · simp only [goto, setStatus, Function.update_self, hpc]
      exact .finish _
  | notify =>
    simp only [hpc] at hs
    split at hs
    · cases hs
    rename_i hlocked
    obtain rfl := Option.some.inj hs
    unfold signalQueue
    split
    · rename_i hblocked
      refine { beside := ?_, move := ?_, started := rfl, stopPc := rfl, poolRunning := rfl,
               caller := .inr ⟨hblocked, rfl⟩, notified := fun _ => ⟨by simp [goto], rfl⟩ }
      · constructor <;> simp +contextual [goto, Function.update_of_ne]
      · simp only [goto, Function.update_self, hpc]
        exact .notify _
    · rename_i hblocked
      refine { beside := ?_, move := ?_, started := rfl, stopPc := rfl, poolRunning := rfl,
               caller := .inl rfl, notified := fun _ => ⟨hblocked, Bool.eq_false_iff.mpr hlocked⟩ }
      · constructor <;> simp +contextual [goto, Function.update_of_ne]
      · simp only [goto, Function.update_self, hpc]
        exact .notify _
  | blocked | exited => simp [hpc] at hs

/-- The state with a step of one worker. Its status stays while `phch_recv` relies on it, and the
caller may be woken. -/
theorem Consistent.of_worker (h : s.Consistent nofWorkers) (hbeside : s.SameBeside s' i)
    (hstop : s'.stopPc = s.stopPc) (hpool : s'.poolRunning = s.poolRunning)
    (hcaller : s'.caller = s.caller ∨ (s.caller = .blocked ∧ s'.caller = .woken))
    (hkept : s.caller = .hasWorker i ∨ s.caller = .found i ∨ s.caller = .claim i →
      s'.status i = s.status i)
    (hi : WorkerOk nofWorkers s'.caller s'.stopPc i (s'.status i) (s'.pc i) (s'.running i)
      (s'.started i) (s'.worked i)) : s'.Consistent nofWorkers := by
  have hseen : s'.caller.seen nofWorkers ≤ s.caller.seen nofWorkers := by
    rcases hcaller with h | ⟨h, h'⟩
    · exact Nat.le_of_eq (congrArg _ h)
    · rw [h']
      exact Nat.zero_le _
  have heq : ∀ c, s'.caller = c → c ≠ .woken → s.caller = c := by
    intro c hc hne
    rcases hcaller with h | ⟨h, h'⟩
    · rw [← h, hc]
    · exact absurd (hc.symm.trans h') hne
  have hstatus : ∀ j, s.caller = .hasWorker j ∨ s.caller = .found j ∨ s.caller = .claim j →
      s'.status j = s.status j := by
    intro j hj
    by_cases hji : j = i
    · subst hji
      exact hkept hj
    · exact hbeside.status j hji
  -- The other workers are as they were, so only what they know of the caller has to be checked.
  refine { workers := fun j => ?_, callers := ?_ }
  · by_cases hj : j = i
    · exact hj ▸ hi
    have hok := h.workers j
    rw [hbeside.status j hj, hbeside.pc j hj, hbeside.running j hj, hbeside.started j hj,
      hbeside.worked j hj, hstop]
    refine { hok with ready := fun hr => ?_,
                      seen := fun hlt => hok.seen (Nat.lt_of_lt_of_le hlt hseen) }
    have hc := hok.ready hr
    rcases hcaller with h | ⟨h, h'⟩
    · rw [h, hc]
    · rw [h] at hc
      cases hc
  · have hok := h.callers
    constructor
    · intro id hid
      have hid' := heq _ hid (by simp)
      rw [hstatus id (.inl hid')]
      exact hok.held id hid'
    · rintro id (hid | hid)
      · have hid' := heq _ hid (by simp)
        rw [hstatus id (.inr (.inl hid'))]
        exact hok.claimed id (.inl hid')
      · have hid' := heq _ hid (by simp)
        rw [hstatus id (.inr (.inr hid'))]
        exact hok.claimed id (.inr hid')
    · rw [hstop]
      intro hne
      refine hok.calls fun hout => ?_
      rcases hcaller with h | ⟨h, -⟩
      · exact hne (h.trans hout)
      · rw [h] at hout
        cases hout
    · rw [hstop, hpool]
      exact hok.pool
    · rw [hstop]
      exact hok.stops

/-- A worker goes on, and nothing else happens. -/
theorem Consistent.of_goto (h : s.Consistent nofWorkers) {pc : WorkerPc}
    (hi : WorkerOk nofWorkers s.caller s.stopPc i (s.status i) pc (s.running i) (s.started i)
      (s.worked i)) :
    (s.goto i pc).Consistent nofWorkers := by
  refine h.of_worker (i := i) ?_ rfl rfl (.inl rfl) (fun _ => rfl) ?_
  · constructor <;> simp +contextual [goto, Function.update_of_ne]
  · simpa only [goto, Function.update_self] using hi

/-- A worker that is idle or handed out, while `stop` has not come to it, keeps its status. -/
theorem WorkerMove.keeps {running running' : Bool} {started worked worked' : Nat}
    {st st' : WorkerStatus}
    {pc pc' : WorkerPc} {c : CallerPc} {p : StopPc}
    (hmove : WorkerMove running worked st pc st' pc' running' worked')
    (hok : WorkerOk nofWorkers c p i st pc running started worked)
    (hst : st = .idle ∨ st = .workerReady)
    (hstop : p.cleared ≤ i) : st' = st := by
  obtain ⟨busy, working, waits, ready, seen, alive, counted, bounds, exited, joined⟩ := hok
  cases hmove with
  | take st hpc h =>
    have hrunning := alive hstop (by rcases hpc with rfl | rfl <;> simp)
    rcases h with rfl | h
    · simp at hst
    · rw [hrunning] at h
      cases h
  | finish =>
    have hworking := busy trivial
    rcases hst with rfl | rfl <;> cases hworking
  | _ => rfl

/-- A move of a worker keeps what holds of it. -/
theorem WorkerMove.ok {running running' : Bool} {started worked worked' : Nat}
    {st st' : WorkerStatus}
    {pc pc' : WorkerPc} {c c' : CallerPc} {p : StopPc}
    (hmove : WorkerMove running worked st pc st' pc' running' worked')
    (hok : WorkerOk nofWorkers c p i st pc running started worked)
    (hready : c = .hasWorker i → c' = .hasWorker i) (hseen : c'.seen nofWorkers ≤ c.seen nofWorkers)
    (hnotified : pc = .notify → c'.seen nofWorkers = 0) :
    WorkerOk nofWorkers c' p i st' pc' running' started worked' := by
  obtain ⟨busy, working, waits, ready, seen, alive, counted, bounds, exited, joined⟩ := hok
  cases hmove with
  | _ => constructor <;> grind -ring -linarith [WorkerPc.InJob]

/-- It keeps the pool consistent. -/
theorem Consistent.worker (h : s.Consistent nofWorkers) (hs : s.worker i = some s') :
    s'.Consistent nofWorkers := by
  have hstep := workerStep_of_worker hs
  have hi := h.workers i
  refine h.of_worker hstep.beside hstep.stopPc hstep.poolRunning hstep.caller ?_ ?_
  -- The caller holds or claims the worker: it is ready, and its step leaves the status.
  · intro hid
    refine hstep.move.keeps hi ?_ ?_
    · rcases hid with hid | hid
      · exact .inr (h.callers.held i hid).2
      · exact .inl (h.callers.claimed i hid).2
    · rw [h.callers.calls (by rcases hid with hid | hid | hid <;> simp [hid])]
      exact Nat.zero_le i
  · rw [hstep.started, hstep.stopPc]
    refine hstep.move.ok hi ?_ ?_ ?_
    · intro hc
      rcases hstep.caller with h | ⟨h, -⟩
      · rw [h, hc]
      · rw [hc] at h
        cases h
    · rcases hstep.caller with h | ⟨-, h⟩
      · exact Nat.le_of_eq (congrArg _ h)
      · rw [h]
        exact Nat.zero_le _
    · intro hpc
      obtain ⟨hblocked, hlocked⟩ := hstep.notified hpc
      cases hc : s'.caller <;> simp [queueLocked, hc, CallerPc.seen] at hblocked hlocked ⊢

/-- `phch_recv` goes on while it has no worker. -/
theorem Consistent.of_caller (h : s.Consistent nofWorkers) {c : CallerPc}
    (hnone : ∀ id, s.caller ≠ .hasWorker id)
    (hseen : ∀ i < c.seen nofWorkers, s.status i = .idle → s.pc i = .notify)
    (hc : CallerOk nofWorkers { s with caller := c }) :
    Consistent nofWorkers { s with caller := c } where
  workers i := { h.workers i with
    ready := fun hr => absurd ((h.workers i).ready hr) (hnone i)
    seen := fun hi => hseen i hi }
  callers := hc

/-- What `phch_recv` has seen busy while it looks for a worker is not idle. -/
theorem Consistent.scan (h : s.Consistent nofWorkers) (hscan : s.caller = .scan i)
    (hi : i < nofWorkers) :
    Consistent nofWorkers
      { s with caller := if s.status i = .idle then .found i else .scan (i + 1) } := by
  have hc := h.callers
  refine h.of_caller (by simp [hscan]) ?_ ?_
  · intro j hj hidle
    split at hj
    · exact absurd hj (Nat.not_lt_zero j)
    · have hij : j < i := by
        have hne : j ≠ i := by
          rintro rfl
          contradiction
        have hle : j < i + 1 := Nat.lt_of_lt_of_le hj (Nat.min_le_left ..)
        omega
      refine (h.workers j).seen ?_ hidle
      rw [hscan]
      exact Nat.lt_min.mpr ⟨hij, by omega⟩
  · obtain ⟨held, claimed, calls, pool, stops⟩ := hc
    constructor <;> grind -ring -linarith

/-- So does an action of `phch_recv` in `find_finished_worker`. -/
theorem Consistent.callerStep (h : s.Consistent nofWorkers)
    (hs : s.callerStep nofWorkers = some s') :
    s'.Consistent nofWorkers := by
  have hc := h.callers
  unfold ThreadPool.callerStep at hs
  cases hcaller : s.caller with
  | outside | blocked | hasWorker => simp [hcaller] at hs
  | lock | woken | notify =>
    obtain rfl : _ = s' := by simpa only [hcaller, Option.some.injEq] using hs
    refine h.of_caller (by simp [hcaller]) (by simp [CallerPc.seen]) ?_
    obtain ⟨held, claimed, calls, pool, stops⟩ := hc
    constructor <;> grind -ring -linarith
  -- The scan goes on only past workers that are not idle, which is what `seen` says.
  | scan i =>
    simp only [hcaller] at hs
    split at hs
    · obtain rfl := Option.some.inj hs
      exact h.scan hcaller ‹_›
    · obtain rfl := Option.some.inj hs
      refine h.of_caller (by simp [hcaller]) ?_ ?_
      · intro j hj hidle
        have hj' : j < nofWorkers := hj
        refine (h.workers j).seen ?_ hidle
        rw [hcaller]
        exact Nat.lt_min.mpr ⟨by omega, hj'⟩
      · obtain ⟨held, claimed, calls, pool, stops⟩ := hc
        constructor <;> grind -ring -linarith
  | noneFree =>
    have hopen : s.poolRunning = true := hc.pool.mpr (hc.calls (by simp [hcaller]))
    obtain rfl : _ = s' := by simpa only [hcaller, if_pos hopen, Option.some.injEq] using hs
    refine h.of_caller (by simp [hcaller]) ?_ ?_
    · intro j hj
      exact (h.workers j).seen (by rw [hcaller]; exact hj)
    · obtain ⟨held, claimed, calls, pool, stops⟩ := hc
      constructor <;> grind -ring -linarith
  | wait =>
    obtain rfl : _ = s' := by simpa only [hcaller, Option.some.injEq] using hs
    refine h.of_caller (by simp [hcaller]) ?_ ?_
    · intro j hj
      exact (h.workers j).seen (by rw [hcaller]; exact hj)
    · obtain ⟨held, claimed, calls, pool, stops⟩ := hc
      constructor <;> grind -ring -linarith
  | found id =>
    have hopen : s.poolRunning = true := hc.pool.mpr (hc.calls (by simp [hcaller]))
    obtain rfl : _ = s' := by simpa only [hcaller, if_pos hopen, Option.some.injEq] using hs
    refine h.of_caller (by simp [hcaller]) (by simp [CallerPc.seen]) ?_
    obtain ⟨held, claimed, calls, pool, stops⟩ := hc
    constructor <;> grind -ring -linarith
  -- The claimed worker becomes ready, and it alone changes.
  | claim id =>
    simp only [hcaller] at hs
    split at hs
    · cases hs
    obtain rfl := Option.some.inj hs
    have hid := hc.claimed id (.inr hcaller)
    refine { workers := fun j => ?_, callers := ?_ }
    · obtain ⟨busy, working, waits, ready, seen, alive, counted, bounds, exited, joined⟩ :=
        h.workers j
      by_cases hj : j = id
      · subst hj
        simp only [setStatus, Function.update_self]
        constructor <;> grind -ring -linarith [WorkerPc.InJob, CallerPc.seen]
      · simp only [setStatus, Function.update_of_ne hj]
        constructor <;> grind -ring -linarith [CallerPc.seen]
    · simp only [setStatus]
      obtain ⟨held, claimed, calls, pool, stops⟩ := hc
      constructor <;> grind -ring -linarith [Function.update_self]

/-- The caller lets its worker go, with another status. The worker may be woken from its wait. -/
theorem Consistent.of_release (h : s.Consistent nofWorkers) (hcaller : s.caller = .hasWorker id)
    (hbeside : s.SameBeside s' id) (hstop : s'.stopPc = s.stopPc)
    (hpool : s'.poolRunning = s.poolRunning)
    (hcaller' : s'.caller = .outside ∨ s'.caller = .notify)
    (hid : WorkerOk nofWorkers s'.caller s'.stopPc id (s'.status id) (s'.pc id) (s'.running id)
      (s'.started id) (s'.worked id)) : s'.Consistent nofWorkers := by
  have hseen : s'.caller.seen nofWorkers = 0 := by rcases hcaller' with h | h <;> rw [h] <;> rfl
  -- The caller holds no worker afterwards.
  have hnone : ∀ j, s'.caller ≠ .hasWorker j ∧ s'.caller ≠ .found j ∧ s'.caller ≠ .claim j := by
    intro j
    rcases hcaller' with h | h <;> simp [h]
  have hc := h.callers
  refine { workers := fun j => ?_, callers := ?_ }
  · by_cases hj : j = id
    · exact hj ▸ hid
    rw [hbeside.status j hj, hbeside.pc j hj, hbeside.running j hj, hbeside.started j hj,
      hbeside.worked j hj, hstop]
    refine { h.workers j with ready := fun hr => ?_, seen := fun hlt => ?_ }
    · have heq := (h.workers j).ready hr
      rw [hcaller] at heq
      exact absurd (CallerPc.hasWorker.inj heq).symm hj
    · rw [hseen] at hlt
      exact absurd hlt (Nat.not_lt_zero j)
  · refine { held := fun j hj => absurd hj (hnone j).1, claimed := ?_, calls := fun _ => ?_,
             pool := ?_, stops := ?_ }
    · exact fun j hj => absurd hj (not_or.mpr (hnone j).2)
    · rw [hstop]
      exact hc.calls (by simp [hcaller])
    · rw [hpool, hstop]
      exact hc.pool
    · rw [hstop]
      exact hc.stops

/-- So does the start of a worker. -/
theorem Consistent.startWorker (h : s.Consistent nofWorkers) (hs : s.startWorker = some s') :
    s'.Consistent nofWorkers := by
  have hc := h.callers
  unfold ThreadPool.startWorker at hs
  cases hcaller : s.caller with
  | hasWorker id =>
    simp only [hcaller] at hs
    split at hs
    · cases hs
    rename_i hwait
    have hstatus := (hc.held id hcaller).2
    have hstop := hc.calls (by simp [hcaller])
    obtain ⟨busy, working, waits, ready, seen, alive, counted, bounds, exited, joined⟩ :=
      h.workers id
    have hcleared : s.stopPc.cleared = 0 := by
      rw [hstop]
      rfl
    have hjob : ¬(s.pc id).InJob := fun hjob => by simp [busy hjob] at hstatus
    have hcheck : s.pc id ≠ .check := fun hpc => hjob (by rw [hpc]; trivial)
    -- A worker that is held has done all its starts, so the new one is the only one pending.
    have hnone : s.started id = s.worked id := by
      rw [counted, if_neg (by simp [hstatus, hcheck]), Nat.add_zero]
      exact (em _).symm.imp_left (alive (by omega))
    unfold signalWorker at hs
    split at hs
    · rename_i hblocked
      obtain rfl := Option.some.inj hs
      refine h.of_release hcaller ?_ rfl rfl (.inl rfl) ?_
      · constructor <;> simp +contextual [goto, setStatus, Function.update_of_ne]
      · simp only [goto, setStatus, Function.update_self] at hblocked ⊢
        constructor <;> grind -ring -linarith [WorkerPc.InJob, CallerPc.seen]
    · rename_i hblocked
      obtain rfl := Option.some.inj hs
      refine h.of_release hcaller ?_ rfl rfl (.inl rfl) ?_
      · constructor <;> simp +contextual [setStatus, Function.update_of_ne]
      · simp only [setStatus, Function.update_self] at hblocked ⊢
        constructor <;> grind -ring -linarith [WorkerPc.InJob, CallerPc.seen]
  | _ => simp [hcaller] at hs

/-- So does the release of a worker that is not started. -/
theorem Consistent.release (h : s.Consistent nofWorkers) (hs : s.release = some s') :
    s'.Consistent nofWorkers := by
  have hc := h.callers
  unfold ThreadPool.release at hs
  cases hcaller : s.caller with
  | hasWorker id =>
    simp only [hcaller] at hs
    split at hs
    · cases hs
    obtain rfl := Option.some.inj hs
    have hstatus := (hc.held id hcaller).2
    obtain ⟨busy, working, waits, ready, seen, alive, counted, bounds, exited, joined⟩ :=
      h.workers id
    refine h.of_release hcaller ?_ rfl rfl (.inr rfl) ?_
    · constructor <;> simp +contextual [setStatus, Function.update_of_ne]
    · simp only [setStatus, Function.update_self]
      constructor <;> grind -ring -linarith [WorkerPc.InJob, CallerPc.seen]
  | _ => simp [hcaller] at hs

/-- `stop` goes on while `phch_recv` is in no call. One worker may change. -/
theorem Consistent.of_stop (h : s.Consistent nofWorkers) (houtside : s.caller = .outside)
    (hbeside : s.SameBeside s' i) (hcaller : s'.caller = s.caller) (hpool : s'.poolRunning = false)
    (hstop : s'.stopPc ≠ .notCalled)
    (hcleared : ∀ j, j ≠ i → s'.stopPc.cleared ≤ j → s.stopPc.cleared ≤ j)
    (hjoined : ∀ j, s'.stopPc = .start j → j = i)
    (hlt : ∀ i, s'.stopPc = .signal i ∨ s'.stopPc = .join i ∨ s'.stopPc = .start i → i < nofWorkers)
    (hi : WorkerOk nofWorkers s'.caller s'.stopPc i (s'.status i) (s'.pc i) (s'.running i)
      (s'.started i) (s'.worked i)) : s'.Consistent nofWorkers := by
  refine { workers := fun j => ?_, callers := ?_ }
  · by_cases hj : j = i
    · exact hj ▸ hi
    rw [hbeside.status j hj, hbeside.pc j hj, hbeside.running j hj, hbeside.started j hj,
      hbeside.worked j hj, hcaller]
    exact { h.workers j with
      alive := fun hle => (h.workers j).alive (hcleared j hj hle)
      joined := fun hstart => absurd (hjoined j hstart) hj }
  · constructor <;> grind -ring -linarith

/-- So does an action of `stop`. -/
theorem Consistent.stop (h : s.Consistent nofWorkers) (hs : s.stop nofWorkers = some s') :
    s'.Consistent nofWorkers := by
  have hc := h.callers
  have houtside : s.stopPc ≠ .notCalled → s.caller = .outside := fun hne => by
    by_contra hcaller
    exact hne (hc.calls hcaller)
  have hpool : s.stopPc ≠ .notCalled → s.poolRunning = false := fun hne => by
    simpa using mt hc.pool.mp hne
  unfold ThreadPool.stop at hs
  -- One case for each position of `stop`. Nothing but worker `i` and the position changes.
  cases hstop : s.stopPc with
  | notCalled =>
    simp only [hstop] at hs
    split at hs
    · obtain rfl := Option.some.inj hs
      refine h.of_stop (i := 0) ‹_› ?_ rfl rfl (by simp) ?_ (by simp) (by simp) ?_
      · constructor <;> simp
      · exact fun j _ _ => by rw [hstop]; exact Nat.zero_le _
      · have hi := h.workers 0
        exact { hi with alive := fun _ => hi.alive (by rw [hstop]; exact Nat.zero_le _),
                        joined := by simp }
    · cases hs
  | flag i =>
    have hcaller := houtside (by simp [hstop])
    simp only [hstop] at hs
    split at hs
    · obtain rfl := Option.some.inj hs
      refine h.of_stop (i := i) hcaller ?_ rfl (hpool (by simp [hstop])) (by simp) ?_ (by simp)
        ?_ ?_
      · constructor <;> simp +contextual [Function.update_of_ne]
      · intro j _ hle
        rw [hstop]
        exact Nat.le_of_succ_le hle
      · grind
      · simp only [Function.update_self]
        obtain ⟨busy, working, waits, ready, seen, alive, counted, bounds, exited, joined⟩ :=
          h.workers i
        constructor <;> grind -ring -linarith [StopPc.cleared]
    · cases hs
  | signal i =>
    have hcaller := houtside (by simp [hstop])
    obtain rfl : _ = s' := by simpa only [hstop, Option.some.injEq] using hs
    have hlt := hc.stops i (.inl hstop)
    have hcleared : s.stopPc.cleared = (StopPc.join i).cleared := by rw [hstop]; rfl
    unfold signalWorker
    split
    · rename_i hblocked
      refine h.of_stop (i := i) hcaller ?_ rfl (hpool (by simp [hstop])) (by simp) ?_ (by simp)
        ?_ ?_
      · constructor <;> simp +contextual [goto, Function.update_of_ne]
      · exact fun j _ hle => hcleared ▸ hle
      · grind
      · simp only [goto, Function.update_self]
        obtain ⟨busy, working, waits, ready, seen, alive, counted, bounds, exited, joined⟩ :=
          h.workers i
        constructor <;> grind -ring -linarith [WorkerPc.InJob, CallerPc.seen]
    · refine h.of_stop (i := i) hcaller ?_ rfl (hpool (by simp [hstop])) (by simp) ?_ (by simp)
        ?_ ?_
      · constructor <;> simp
      · exact fun j _ hle => hcleared ▸ hle
      · grind
      · obtain ⟨busy, working, waits, ready, seen, alive, counted, bounds, exited, joined⟩ :=
          h.workers i
        constructor <;> grind -ring -linarith
  | join i =>
    have hcaller := houtside (by simp [hstop])
    simp only [hstop] at hs
    split at hs
    · obtain rfl := Option.some.inj hs
      have hlt := hc.stops i (.inr (.inl hstop))
      have hcleared : s.stopPc.cleared = (StopPc.start i).cleared := by rw [hstop]; rfl
      refine h.of_stop (i := i) hcaller ?_ rfl (hpool (by simp [hstop])) (by simp) ?_
        (by simp +contextual) ?_ ?_
      · constructor <;> simp
      · exact fun j _ hle => hcleared ▸ hle
      · grind
      · obtain ⟨busy, working, waits, ready, seen, alive, counted, bounds, exited, joined⟩ :=
          h.workers i
        constructor <;> grind -ring -linarith
    · cases hs
  | start i =>
    have hcaller := houtside (by simp [hstop])
    obtain rfl : _ = s' := by simpa only [hstop, Option.some.injEq] using hs
    have hcleared : s.stopPc.cleared = (StopPc.flag (i + 1)).cleared := by rw [hstop]; rfl
    refine h.of_stop (i := i) hcaller ?_ rfl (hpool (by simp [hstop])) (by simp) ?_ (by simp)
      (by simp) ?_
    · constructor <;> simp +contextual [setStatus, Function.update_of_ne]
    · exact fun j _ hle => hcleared ▸ hle
    · simp only [setStatus, Function.update_self]
      obtain ⟨busy, working, waits, ready, seen, alive, counted, bounds, exited, joined⟩ :=
        h.workers i
      have hpc := joined hstop
      have hrunning := exited hpc
      constructor <;> grind -ring -linarith [WorkerPc.InJob, CallerPc.seen]

/-- A worker may leave its wait without a signal. -/
theorem Consistent.spuriousWorker (h : s.Consistent nofWorkers) (hpc : s.pc i = .blocked) :
    (s.goto i .woken).Consistent nofWorkers := by
  refine h.of_goto ?_
  have hi := h.workers i
  rw [hpc] at hi
  obtain ⟨busy, working, waits, ready, seen, alive, counted, bounds, exited, joined⟩ := hi
  constructor <;> grind -ring -linarith [WorkerPc.InJob]

/-- So does every action. -/
theorem Consistent.step {a : ThreadAction} (h : s.Consistent nofWorkers)
    (hs : s.step nofWorkers a = some s') : s'.Consistent nofWorkers := by
  have hc := h.callers
  cases a with
  | worker i =>
    simp only [ThreadPool.step] at hs
    split at hs
    · exact h.worker hs
    · cases hs
  -- The caller's and the workers' own steps have their lemmas; these only move the caller.
  | waitWorker =>
    simp only [ThreadPool.step] at hs
    split at hs
    · rename_i hcall
      obtain rfl := Option.some.inj hs
      refine h.of_caller (by simp [hcall.1]) (by simp [CallerPc.seen]) ?_
      obtain ⟨held, claimed, calls, pool, stops⟩ := hc
      constructor <;> grind -ring -linarith
    · cases hs
  | caller => exact h.callerStep hs
  | startWorker => exact h.startWorker hs
  | release => exact h.release hs
  | stop => exact h.stop hs
  | spuriousWorker i =>
    simp only [ThreadPool.step] at hs
    split at hs
    · obtain rfl := Option.some.inj hs
      exact h.spuriousWorker ‹_›
    · cases hs
  | spuriousCaller =>
    simp only [ThreadPool.step] at hs
    split at hs
    · rename_i hcaller
      obtain rfl := Option.some.inj hs
      refine h.of_caller (by simp [hcaller]) (by simp [CallerPc.seen]) ?_
      obtain ⟨held, claimed, calls, pool, stops⟩ := hc
      constructor <;> grind -ring -linarith
    · cases hs

/-- A new pool is consistent. -/
theorem consistent_init (nofWorkers : Nat) : Consistent nofWorkers {} where
  workers i := by constructor <;> simp [WorkerPc.InJob, CallerPc.seen]
  callers := by constructor <;> simp

/-- The worker has a job that it has not begun. -/
def Pending (s : ThreadPool) (i : Nat) : Prop := s.status i = .startWork ∨ s.pc i = .check

instance (s : ThreadPool) (i : Nat) : Decidable (s.Pending i) := inferInstanceAs (Decidable (_ ∨ _))

end ThreadPool

end SrsUE.Common
