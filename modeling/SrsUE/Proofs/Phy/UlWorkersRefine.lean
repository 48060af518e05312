import Mathlib.Data.Finset.Card
import Mathlib.Data.Finset.Range
import SrsUE.Phy.UlWorkers
import SrsUE.Proofs.Common.ThreadPoolRun
import SrsUE.Proofs.Phy.TxOrder

/-!
# `SrsUE.Proofs.Phy.UlWorkersRefine`: the pool keeps to the number of workers

`UlTx.step` lets a job start only while fewer jobs than workers are open. In the code nothing counts
the jobs: it is the pool that gives `phch_recv` a worker without one. `Linked` says how. Each open
job is that of a worker that is at it, as long as the pool is not in `stop`, and the worker that
`phch_recv` has is at none.

`refines_along` is the result. Every run of the pool with the uplink is, for the uplink, a run of
`UlTx.step`, so what is proved of that holds of the code with its pool.
-/

set_option autoImplicit false

namespace SrsUE.Phy

open SrsUE.Lib SrsUE.Common

/-- The worker has a job before it, or is in `work_imp`. -/
def AtWork (s : ThreadPool) (i : Nat) : Prop := s.Pending i ∨ s.pc i = .work

instance (s : ThreadPool) (i : Nat) : Decidable (AtWork s i) := inferInstanceAs (Decidable (_ ∨ _))

section
variable {nofWorkers i j id : Nat} {s s' : ThreadPool} {a : ThreadAction}

/-- A worker that is idle, or that `phch_recv` has, is not at work. -/
theorem not_atWork (h : s.Consistent nofWorkers)
    (hst : s.status i = .idle ∨ s.status i = .workerReady) :
    ¬AtWork s i := by
  have hbusy := (h.workers i).busy
  rintro ((hstart | hpc) | hpc)
  · simp [hstart] at hst
  · simp [hbusy (by rw [hpc]; trivial)] at hst
  · simp [hbusy (by rw [hpc]; trivial)] at hst

/-- A worker that has a job keeps it while it acts, until it has done it. -/
theorem atWork_worker (h : s.Consistent nofWorkers) (hs : s.worker j = some s')
    (hstop : s.stopPc = .notCalled) (hi : AtWork s i) : AtWork s' i ∨ (j = i ∧ s.pc i = .work) := by
  have hstep := ThreadPool.workerStep_of_worker hs
  have hbusy := (h.workers i).busy
  have hrunning : s.pc i ≠ .entry → s.running i = true :=
    (h.workers i).alive (by rw [hstop]; exact Nat.zero_le i)
  by_cases hij : i = j
  · subst hij
    have hmove := hstep.move
    rw [AtWork, ThreadPool.Pending] at hi ⊢
    generalize s.status i = st, s.worked i = w, s.running i = r, s.pc i = pc at *
    generalize s'.status i = st', s'.worked i = w', s'.running i = r', s'.pc i = pc' at *
    cases hmove with
    | finish => simp [hbusy trivial] at hi
    | _ => grind
  · refine .inl ?_
    rw [AtWork, ThreadPool.Pending] at hi ⊢
    rwa [hstep.beside.status i hij, hstep.beside.pc i hij]

/-- `phch_recv` takes no job away. -/
theorem atWork_callerStep (h : s.Consistent nofWorkers) (hs : s.callerStep nofWorkers = some s')
    (hi : AtWork s i) : AtWork s' i := by
  unfold ThreadPool.callerStep at hs
  cases hc : s.caller with
  -- A worker that is claimed was idle, so it is another one.
  | claim id =>
    simp only [hc] at hs
    split at hs
    · cases hs
    obtain rfl := Option.some.inj hs
    have hne : i ≠ id := by
      rintro rfl
      exact not_atWork h (.inl (h.callers.claimed i (.inr hc)).2) hi
    simpa only [AtWork, ThreadPool.Pending, ThreadPool.setStatus,
      Function.update_of_ne hne] using hi
  | scan j =>
    simp only [hc] at hs
    split at hs
    · obtain rfl := Option.some.inj hs
      exact hi
    · obtain rfl := Option.some.inj hs
      exact hi
  | outside | blocked | hasWorker => simp [hc] at hs
  | lock | woken | noneFree | wait | found | notify =>
    obtain rfl : _ = s' := by simpa only [hc, Option.some.injEq] using hs
    exact hi

/-- The worker that is started has a job. -/
theorem atWork_startWorker (hcaller : s.caller = .hasWorker id) (hs : s.startWorker = some s') :
    AtWork s' id ∧ (AtWork s i → AtWork s' i) := by
  simp only [ThreadPool.startWorker, hcaller] at hs
  split at hs
  · cases hs
  unfold ThreadPool.signalWorker at hs
  split at hs
  · rename_i hblocked
    obtain rfl := Option.some.inj hs
    refine ⟨.inl (.inl (by simp [ThreadPool.goto, ThreadPool.setStatus])), fun hi => ?_⟩
    by_cases hne : i = id
    · exact .inl (.inl (by simp [ThreadPool.goto, ThreadPool.setStatus, hne]))
    · simpa only [AtWork, ThreadPool.Pending, ThreadPool.goto, ThreadPool.setStatus,
        Function.update_of_ne hne]
        using hi
  · obtain rfl := Option.some.inj hs
    refine ⟨.inl (.inl (by simp [ThreadPool.setStatus])), fun hi => ?_⟩
    by_cases hne : i = id
    · exact .inl (.inl (by simp [ThreadPool.setStatus, hne]))
    · simpa only [AtWork, ThreadPool.Pending, ThreadPool.setStatus,
        Function.update_of_ne hne] using hi

/-- A release takes no job away. -/
theorem atWork_release (h : s.Consistent nofWorkers) (hs : s.release = some s') (hi : AtWork s i) :
    AtWork s' i := by
  unfold ThreadPool.release at hs
  cases hc : s.caller with
  | hasWorker id =>
    simp only [hc] at hs
    split at hs
    · cases hs
    obtain rfl := Option.some.inj hs
    have hne : i ≠ id := by
      rintro rfl
      exact not_atWork h (.inr (h.callers.held i hc).2) hi
    simpa only [AtWork, ThreadPool.Pending, ThreadPool.setStatus,
      Function.update_of_ne hne] using hi
  | _ => simp [hc] at hs

/-- `stop` has been called once it begins. -/
theorem stopPc_stop (hs : s.stop nofWorkers = some s') : s'.stopPc ≠ .notCalled := by
  unfold ThreadPool.stop at hs
  cases hc : s.stopPc with
  | notCalled | flag | join =>
    simp only [hc] at hs
    split at hs
    · obtain rfl := Option.some.inj hs
      simp
    · cases hs
  | signal | start =>
    obtain rfl : _ = s' := by simpa only [hc, Option.some.injEq] using hs
    simp

/-- No other action calls it. -/
theorem stopPc_step (hs : s.step nofWorkers a = some s') (ha : a ≠ .stop) :
    s'.stopPc = s.stopPc := by
  cases a with
  | worker j =>
    rw [ThreadPool.step] at hs
    split at hs
    · exact (ThreadPool.workerStep_of_worker hs).stopPc
    · cases hs
  | stop => exact absurd rfl ha
  | _ =>
    simp only [ThreadPool.step, ThreadPool.callerStep, ThreadPool.startWorker,
      ThreadPool.release] at hs
    grind [ThreadPool.signalWorker, ThreadPool.setStatus, ThreadPool.goto]

/-- `phch_recv` enters the pool by `wait_worker` only. -/
theorem caller_step (hs : s.step nofWorkers a = some s') (hout : s.caller = .outside)
    (ha : a ≠ .waitWorker) :
    s'.caller = .outside := by
  cases a with
  | worker j =>
    rw [ThreadPool.step] at hs
    split at hs
    · rcases (ThreadPool.workerStep_of_worker hs).caller with hc | ⟨hc, -⟩
      · rw [hc, hout]
      · rw [hout] at hc
        cases hc
    · cases hs
  | waitWorker => exact absurd rfl ha
  | stop =>
    simp only [ThreadPool.step, ThreadPool.stop] at hs
    grind [ThreadPool.signalWorker, ThreadPool.setStatus, ThreadPool.goto]
  | spuriousWorker j => grind [ThreadPool.step, ThreadPool.goto]
  | _ =>
    simp [ThreadPool.step, ThreadPool.callerStep, ThreadPool.startWorker, ThreadPool.release,
      hout] at hs

/-- A step of the pool outside `stop` leaves a worker at work, unless it is the one that ends its
`work_imp`. -/
theorem atWork_step (h : s.Consistent nofWorkers) (hstop : s'.stopPc = .notCalled)
    (hs : s.step nofWorkers a = some s') (hi : AtWork s i) :
    AtWork s' i ∨ (a = .worker i ∧ s.pc i = .work) := by
  cases a with
  | worker j =>
    rw [ThreadPool.step] at hs
    split at hs
    · have hstopped : s.stopPc = .notCalled := by
        rw [← (ThreadPool.workerStep_of_worker hs).stopPc, hstop]
      -- The worker itself goes on with its job until it has done it.
      rcases atWork_worker h hs hstopped hi with hi' | ⟨rfl, hpc⟩
      · exact .inl hi'
      · exact .inr ⟨rfl, hpc⟩
    · cases hs
  | caller => exact .inl (atWork_callerStep h hs hi)
  | startWorker =>
    refine .inl ?_
    cases hc : s.caller with
    | hasWorker id => exact (atWork_startWorker hc hs).2 hi
    | _ => simp [ThreadPool.step, ThreadPool.startWorker, hc] at hs
  | release => exact .inl (atWork_release h hs hi)
  | stop =>
    exact absurd hstop (stopPc_stop hs)
  | waitWorker =>
    simp only [ThreadPool.step] at hs
    split at hs
    · obtain rfl := Option.some.inj hs
      exact .inl hi
    · cases hs
  | spuriousCaller =>
    simp only [ThreadPool.step] at hs
    split at hs
    · obtain rfl := Option.some.inj hs
      exact .inl hi
    · cases hs
  | spuriousWorker j =>
    simp only [ThreadPool.step] at hs
    split at hs
    · rename_i hblocked
      obtain rfl := Option.some.inj hs
      refine .inl ?_
      by_cases hne : i = j
      · subst hne
        rcases hi with (hstart | hpc) | hpc
        · exact .inl (.inl hstart)
        · simp [hblocked] at hpc
        · simp [hblocked] at hpc
      · simpa only [AtWork, ThreadPool.Pending, ThreadPool.goto, Function.update_of_ne hne] using hi
    · cases hs

end

/-- The open jobs as a set. -/
theorem UlTx.busyWorkers_eq_card (s : UlTx) :
    s.busyWorkers = ((Finset.range s.started).filter fun j => (s.jobs j).pc ≠ .done).card := by
  rw [show Finset.range s.started = (List.range s.started).toFinset by ext; simp,
    List.nodup_range.card_eq_countP]
  rfl

namespace UlWorkers

variable {nofMutex nofWorkers : Nat} {s s' : UlWorkers} {i j : Nat}

/-- The jobs of the uplink and the workers of the pool belong together. -/
structure Linked (nofWorkers : Nat) (s : UlWorkers) : Prop where
  pool : s.pool.Consistent nofWorkers
  lt : ∀ i j, s.job i = some j → j < s.tx.started
  reset : s.pool.caller ≠ .outside → s.tx.resetPos = 0
  workers : s.pool.stopPc = .notCalled → ∀ j < s.tx.started, (s.tx.jobs j).pc ≠ .done →
    ∃ i < nofWorkers, s.job i = some j ∧ AtWork s.pool i

/-- Where `phch_recv` starts a worker, fewer jobs than workers are open. -/
theorem Linked.busyWorkers_lt {id : Nat} (h : s.Linked nofWorkers)
    (hcaller : s.pool.caller = .hasWorker id) :
    s.tx.busyWorkers < nofWorkers := by
  have hstop := h.pool.callers.calls (by simp [hcaller])
  obtain ⟨hid, hstatus⟩ := h.pool.callers.held id hcaller
  have hfree : ¬AtWork s.pool id := not_atWork h.pool (.inr hstatus)
  -- The open jobs are among those of the workers at work, and `id` is not one of these.
  have hopen : (Finset.range s.tx.started).filter (fun j => (s.tx.jobs j).pc ≠ .done) ⊆
      (((Finset.range nofWorkers).filter (AtWork s.pool ·)).image fun i => (s.job i).getD 0) := by
    intro j hj
    obtain ⟨hlt, hopen⟩ := Finset.mem_filter.mp hj
    obtain ⟨i, hi, hjob, hwork⟩ := h.workers hstop j (Finset.mem_range.mp hlt) hopen
    exact Finset.mem_image.mpr ⟨i, Finset.mem_filter.mpr ⟨Finset.mem_range.mpr hi,
      hwork⟩, by rw [hjob]; rfl⟩
  have hwork : (Finset.range nofWorkers).filter (AtWork s.pool ·) ⊂ Finset.range nofWorkers :=
    Finset.filter_ssubset.mpr ⟨id, Finset.mem_range.mpr hid, hfree⟩
  calc s.tx.busyWorkers
      = ((Finset.range s.tx.started).filter fun j => (s.tx.jobs j).pc ≠ .done).card :=
        s.tx.busyWorkers_eq_card
    _ ≤ _ := Finset.card_le_card hopen
    _ ≤ _ := Finset.card_image_le
    _ < (Finset.range nofWorkers).card := Finset.card_lt_card hwork
    _ = nofWorkers := Finset.card_range nofWorkers

/-- A step of the pool leaves the jobs with their workers. The end of a `work_imp` is that of a job
that is done. -/
theorem Linked.of_pool (h : s.Linked nofWorkers) {a : ThreadAction} {pool : ThreadPool}
    (hs : s.pool.step nofWorkers a = some pool)
    (ha : ∀ i, a = .worker i → s.pool.pc i = .work → s.atJob i = false)
    (hreset : a = .waitWorker → s.tx.resetPos = 0) : Linked nofWorkers { s with pool := pool } where
  pool := h.pool.step hs
  lt := h.lt
  reset hcaller := by
    by_cases hwait : a = .waitWorker
    · exact hreset hwait
    · exact h.reset fun hout => hcaller (caller_step hs hout hwait)
  workers hstop j hj hopen := by
    have hstopped : s.pool.stopPc = .notCalled := by
      rw [← stopPc_step hs (fun hstop' => stopPc_stop (hstop' ▸ hs) hstop), hstop]
    obtain ⟨i, hi, hjob, hwork⟩ := h.workers hstopped j hj hopen
    refine ⟨i, hi, hjob, ?_⟩
    rcases atWork_step h.pool hstop hs hwork with hwork' | ⟨rfl, hpc⟩
    · exact hwork'
    · have hdone := ha i rfl hpc
      simp only [atJob, hjob, decide_eq_false_iff_not, not_not] at hdone
      exact absurd hdone hopen

/-- An action of the pool beside the jobs keeps jobs and workers together, and is none of the
uplink. -/
theorem Linked.poolStep (h : s.Linked nofWorkers) {a : ThreadAction}
    (hs : s.poolStep nofWorkers a = some s') :
    s'.Linked nofWorkers ∧ s'.tx = s.tx := by
  -- The job model does not change, so the link needs only what the pool step leaves.
  have hmap : ∀ b, (∀ i, b = .worker i → s.pool.pc i = .work → s.atJob i = false) →
      (b = .waitWorker → s.tx.resetPos = 0) → ((s.pool.step nofWorkers b).map fun pool =>
        { s with pool := pool }) = some s' →
      s'.Linked nofWorkers ∧ s'.tx = s.tx := by
    intro b hb hreset hs
    obtain ⟨pool, hpool, rfl⟩ := Option.map_eq_some_iff.mp hs
    exact ⟨h.of_pool hpool hb hreset, rfl⟩
  unfold UlWorkers.poolStep at hs
  split at hs
  · cases hs
  · split at hs
    · cases hs
    · rename_i i hwork
      refine hmap _ ?_ (by simp) hs
      rintro _ ⟨rfl⟩ hpc
      simpa using fun hjob => hwork ⟨hpc, hjob⟩
  · split at hs
    · exact hmap _ (by simp) (fun _ => ‹_›) hs
    · cases hs
  · rename_i _ hne hwait
    exact hmap _ (fun i hi => absurd hi (hne i)) (fun hb => absurd hb hwait) hs

/-- The start of a worker is a step of the uplink, within the number of workers. -/
theorem Linked.start (h : s.Linked nofWorkers) {txEnable : Bool}
    (hs : s.start nofMutex nofWorkers txEnable = some s') :
    s'.Linked nofWorkers ∧ s.tx.step nofMutex nofWorkers (.start txEnable) = some s'.tx := by
  unfold UlWorkers.start at hs
  cases hcaller : s.pool.caller with
  | hasWorker id =>
    simp only [hcaller] at hs
    obtain ⟨pool, hpool, rfl⟩ := Option.map_eq_some_iff.mp hs
    have hid := (h.pool.callers.held id hcaller).1
    have hreset := h.reset (by simp [hcaller])
    have hstarted := fun i => atWork_startWorker (i := i) hcaller hpool
    refine ⟨{ pool := h.pool.step hpool, lt := ?_, reset := fun _ => hreset, workers := ?_ }, ?_⟩
    · intro i j hij
      have hij' : Function.update s.job id (some s.tx.started) i = some j := hij
      rw [Function.update_apply] at hij'
      split at hij'
      · exact Nat.lt_succ_of_le (Option.some.inj hij').ge
      · exact Nat.lt_succ_of_lt (h.lt i j hij')
    · intro hstop j hj hopen
      -- The new job belongs to the worker that is held, and the others keep theirs.
      by_cases hnew : j = s.tx.started
      · exact ⟨id, hid, by rw [hnew]; exact Function.update_self .., (hstarted id).1⟩
      · have hold : (s.tx.jobs j).pc ≠ .done := by
          rw [show (s.tx.startJob nofMutex txEnable).jobs j = s.tx.jobs j from Function.update_of_ne
            hnew ..] at hopen
          exact hopen
        have hlt : j < s.tx.started := by
          have hle : j < s.tx.started + 1 := hj
          omega
        have hstopped := h.pool.callers.calls (by simp [hcaller])
        obtain ⟨i, hi, hjob, hwork⟩ := h.workers hstopped j hlt hold
        have hne : i ≠ id := by
          rintro rfl
          exact not_atWork h.pool (.inr (h.pool.callers.held i hcaller).2) hwork
        exact ⟨i, hi, (Function.update_of_ne hne ..).trans hjob, (hstarted i).2 hwork⟩
    · rw [UlTx.step, if_pos ⟨h.busyWorkers_lt hcaller, hreset⟩]
      rfl
  | _ => simp [hcaller] at hs

end UlWorkers

/-- The states differ in a job, and otherwise not in what concerns the start of jobs. -/
structure UlTx.SameBeside (s s' : UlTx) (job : Nat) : Prop where
  started : s'.started = s.started
  resetPos : s'.resetPos = s.resetPos
  jobs : ∀ j, j ≠ job → s'.jobs j = s.jobs j

/-- A job that moves on changes nothing else. -/
theorem UlTx.sameBeside_goto (s : UlTx) (job : Nat) (pc : TxPc) : s.SameBeside
    (s.goto job pc) job where
  started := rfl
  resetPos := rfl
  jobs _ hj := (UlTx.jobs_goto ..).trans (if_neg hj)

/-- A job that transmits changes nothing else of this kind. -/
theorem UlTx.sameBeside_transmit (s : UlTx) (job : Nat) : s.SameBeside (s.transmit job) job := by
  unfold UlTx.transmit
  split
  · exact { sameBeside_goto (s.radio job .tx) job _ with }
  · split
    · exact sameBeside_goto s job _
    · split
      · exact { sameBeside_goto (s.radio job .txZeros) job _ with }
      · exact { sameBeside_goto (s.radio job .txEnd) job _ with }

/-- A worker in `worker_end` has a job that is not done, and touches no other. -/
theorem UlTx.sameBeside_worker {nofMutex job : Nat} {s s' : UlTx}
    (hs : s.worker nofMutex job = some s') :
    s.SameBeside s' job ∧ (s.jobs job).pc ≠ .done := by
  unfold UlTx.worker at hs
  -- One case for each position of the job.
  cases hpc : (s.jobs job).pc with
  | done => simp [hpc] at hs
  | wait =>
    simp only [hpc] at hs
    split at hs
    · cases hs
    · obtain rfl := Option.some.inj hs
      exact ⟨{ sameBeside_goto (s.lock _) job .send with }, by simp⟩
  | send =>
    obtain rfl : _ = s' := by simpa only [hpc, Option.some.injEq] using hs
    exact ⟨sameBeside_transmit s job, by simp⟩
  | entry =>
    obtain rfl : _ = s' := by simpa only [hpc, Option.some.injEq] using hs
    exact ⟨sameBeside_goto s job _, by simp⟩
  | clear =>
    obtain rfl : _ = s' := by simpa only [hpc, Option.some.injEq] using hs
    exact ⟨{ sameBeside_goto { s with isFirstTx := false } job .send with }, by simp⟩
  | setBurst first =>
    obtain rfl : _ = s' := by simpa only [hpc, Option.some.injEq] using hs
    exact ⟨{ sameBeside_goto { s with isFirstOfBurst := first } job .release with }, by simp⟩
  | release =>
    obtain rfl : _ = s' := by simpa only [hpc, Option.some.injEq] using hs
    exact ⟨{ sameBeside_goto (s.free _ job) job .done with }, by simp⟩

namespace UlWorkers

variable {nofMutex nofWorkers : Nat} {s s' : UlWorkers} {i j : Nat}

/-- An action in `worker_end` is a step of the uplink. -/
theorem Linked.worker (h : s.Linked nofWorkers) (hs : s.worker nofMutex i = some s') :
    s'.Linked nofWorkers ∧ ∃ j, s.tx.step nofMutex nofWorkers (.worker j) = some s'.tx := by
  unfold UlWorkers.worker at hs
  split at hs
  · rename_i j _ hjob
    obtain ⟨tx, htx, rfl⟩ := Option.map_eq_some_iff.mp hs
    obtain ⟨⟨hstarted, hreset, hbeside⟩, hopen⟩ := UlTx.sameBeside_worker htx
    refine ⟨{ pool := h.pool, lt := ?_, reset := ?_, workers := ?_ }, j, ?_⟩
    · rw [hstarted]
      exact h.lt
    · rw [hreset]
      exact h.reset
    · intro hstop k hk hk'
      rw [hstarted] at hk
      refine h.workers hstop k hk ?_
      by_cases hkj : k = j
      · exact hkj ▸ hopen
      · rwa [hbeside k hkj] at hk'
    · rw [UlTx.step, if_pos (h.lt i j hjob), htx]
  · cases hs

/-- A reset of the uplink leaves the workers alone. -/
theorem Linked.resetUl (h : s.Linked nofWorkers) (hout : s.pool.caller = .outside) :
    Linked nofWorkers { s with tx := s.tx.resetUl nofMutex } := by
  have hkept : (s.tx.resetUl nofMutex).started = s.tx.started ∧ (s.tx.resetUl nofMutex).jobs
      = s.tx.jobs := by
    simp only [UlTx.resetUl]
    split
    · exact ⟨rfl, rfl⟩
    · exact ⟨rfl, rfl⟩
    · exact ⟨rfl, rfl⟩
  refine { pool := h.pool, lt := ?_, reset := fun hne => absurd hout hne, workers := ?_ }
  · rw [hkept.1]
    exact h.lt
  · rw [hkept.1, hkept.2]
    exact h.workers

/-- Each step leaves the uplink as it is, or is a step of it. -/
theorem Linked.step (h : s.Linked nofWorkers) {a : UlAction}
    (hs : s.step nofMutex nofWorkers a = some s') :
    (s'.tx = s.tx ∨ ∃ b, s.tx.step nofMutex nofWorkers b = some s'.tx) ∧ s'.Linked nofWorkers := by
  cases a with
  | pool a =>
    obtain ⟨hlinked, htx⟩ := h.poolStep hs
    exact ⟨.inl htx, hlinked⟩
  | start txEnable =>
    obtain ⟨hlinked, htx⟩ := h.start hs
    exact ⟨.inr ⟨_, htx⟩, hlinked⟩
  | worker i =>
    obtain ⟨hlinked, j, htx⟩ := h.worker hs
    exact ⟨.inr ⟨_, htx⟩, hlinked⟩
  | resetUl =>
    simp only [UlWorkers.step] at hs
    split at hs
    · obtain rfl := Option.some.inj hs
      exact ⟨.inr ⟨.resetUl, rfl⟩, h.resetUl ‹_›⟩
    · cases hs

/-- At the start there is no job. -/
theorem linked_init (nofWorkers : Nat) : Linked nofWorkers {} where
  pool := ThreadPool.consistent_init nofWorkers
  lt _ _ h := by cases h
  reset _ := rfl
  workers _ j hj := absurd hj (Nat.not_lt_zero j)

/-- The uplink in the pool does what `UlTx.step` does: the pool keeps to the number of workers. -/
theorem refines_along (nofMutex nofWorkers : Nat) (as : List UlAction) :
    Along (step nofMutex nofWorkers)
      (fun s _ s' => s'.tx = s.tx ∨ ∃ b, s.tx.step nofMutex nofWorkers b = some s'.tx) {} as :=
  Along.of_kind (K := fun _ => True) (fun _ _ _ h _ hs => h.step hs) (fun _ _ => trivial)
    (linked_init nofWorkers)

end UlWorkers

end SrsUE.Phy
