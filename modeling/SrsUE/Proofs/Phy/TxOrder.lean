import SrsUE.Lib.Run
import SrsUE.Phy.UlOrder

/-!
# `SrsUE.Proofs.Phy.TxOrder`: when the uplink subframes are sent in order

A job is let past the wait in `worker_end` in one of three ways. The job before it has freed its
mutex, `is_first_tx` was set, or its mutex was free for another reason: no mutex is taken at the
start, `reset_ul` frees them all, and a mutex that is freed while it is free is freed for nothing.

Only the first way keeps the order. `Awaited` says that a step lets a job past in one of the other
two ways only when all earlier jobs have been sent. `Sequenced` is the invariant of the runs whose
steps are so: a job that is past the wait has all earlier jobs sent. `along_inOrder` states the
result for a run, and `not_inOrder_firstRound` is a run of the first two jobs in which they
overtake.
-/

set_option autoImplicit false

namespace SrsUE.Phy

open SrsUE.Lib

/-- The worker is past the wait. -/
def TxPc.Passed : TxPc → Prop
  | .send | .setBurst _ | .release | .done => True
  | .entry | .clear | .wait => False

/-- The worker is past its radio call. -/
def TxPc.Sent : TxPc → Prop
  | .setBurst _ | .release | .done => True
  | .entry | .clear | .wait | .send => False

instance (pc : TxPc) : Decidable pc.Sent :=
  match pc with
  | .setBurst _ | .release | .done => isTrue trivial
  | .entry | .clear | .wait | .send => isFalse id

/-- A job that has sent has passed the wait. -/
theorem TxPc.Sent.passed {pc : TxPc} (h : pc.Sent) : pc.Passed := by
  cases pc with
  | entry | clear | wait | send => exact h.elim
  | setBurst | release | done => trivial

namespace UlTx

variable {nofMutex nofWorkers : Nat} {s s' : UlTx}

/-- The radio calls come in the order of the jobs that made them. -/
abbrev InOrder (s : UlTx) : Prop := (s.calls.map Prod.fst).Pairwise (· < ·)

/-- All jobs before this one are past their radio call. -/
abbrev AllSent (s : UlTx) (job : Nat) : Prop := ∀ j < job, (s.jobs j).pc.Sent

/-- A step lets a job past the wait because of `is_first_tx`, or by a mutex that the job before it
has not freed, only when all earlier jobs have been sent. -/
def Awaited (nofMutex : Nat) (s : UlTx) : TxAction → Prop
  | .worker job =>
    ((s.jobs job).pc = .clear → s.AllSent job) ∧
    ((s.jobs job).pc = .wait →
      (s.txMutex ((s.jobs job).txTti % nofMutex)).freedBy.map (· + 1) ≠ some job →
      s.AllSent job)
  | .start _ | .resetUl => True

instance (nofMutex : Nat) (s : UlTx) (a : TxAction) : Decidable (s.Awaited nofMutex a) :=
  match a with
  | .worker _ => inferInstanceAs (Decidable (_ ∧ _))
  | .start _ | .resetUl => isTrue trivial

/-- A job past the wait has all earlier jobs sent, a mutex was freed by jobs that are done, and
the radio calls are those of jobs that are sent, in order. -/
structure Sequenced (s : UlTx) : Prop where
  past : ∀ j < s.started, (s.jobs j).pc.Passed → s.AllSent j
  freed : ∀ i j, (s.txMutex i).freedBy = some j → j < s.started ∧ (s.jobs j).pc.Sent
  made : ∀ c ∈ s.calls, c.1 < s.started ∧ (s.jobs c.1).pc.Sent
  order : s.InOrder

/-- A job that moves on leaves the others alone. -/
@[simp] theorem jobs_goto (s : UlTx) (job j : Nat) (pc : TxPc) :
    (s.goto job pc).jobs j = if j = job then { s.jobs job with pc := pc } else s.jobs j :=
  Function.update_apply ..

/-- It takes no mutex. -/
@[simp] theorem txMutex_goto (s : UlTx) (job : Nat) (pc : TxPc) :
    (s.goto job pc).txMutex = s.txMutex := rfl

/-- A worker that goes on keeps what it has done. -/
theorem sent_goto {job j : Nat} {pc : TxPc} (hpc : (s.jobs job).pc.Sent → pc.Sent)
    (h : (s.jobs j).pc.Sent) : ((s.goto job pc).jobs j).pc.Sent := by
  rw [jobs_goto]
  split
  · rename_i heq
    subst heq
    exact hpc h
  · exact h

namespace Sequenced

/-- The invariant does not speak of the flags, and of a mutex only who freed it. -/
theorem of_eq (h : s.Sequenced) (hstarted : s'.started = s.started) (hjobs : s'.jobs = s.jobs)
    (hcalls : s'.calls = s.calls)
    (hfreed : ∀ i j, (s'.txMutex i).freedBy = some j → (s.txMutex i).freedBy = some j) :
    s'.Sequenced where
  past j hj hp k hk := by
    rw [hjobs] at hp ⊢
    exact h.past j (hstarted ▸ hj) hp k hk
  freed i j hij := by
    rw [hjobs, hstarted]
    exact h.freed i j (hfreed i j hij)
  made c hc := by
    rw [hjobs, hstarted]
    exact h.made c (hcalls ▸ hc)
  order := by
    rw [InOrder, hcalls]
    exact h.order

/-- A worker goes on without a radio call. If that lets it past the wait, all earlier jobs are
sent. -/
theorem goto (h : s.Sequenced) {job : Nat} {pc : TxPc} (hpc : (s.jobs job).pc.Sent → pc.Sent)
    (hpass : pc.Passed → s.AllSent job) : (s.goto job pc).Sequenced where
  past j hj hp k hk := by
    refine sent_goto hpc ?_
    rw [jobs_goto] at hp
    split at hp
    · rename_i heq
      subst heq
      exact hpass hp k hk
    · exact h.past j hj hp k hk
  freed i j hij := (h.freed i j hij).imp id (sent_goto hpc)
  made c hc := (h.made c hc).imp id (sent_goto hpc)
  order := h.order

/-- The radio call of a job that is past the wait and not sent: it comes after all others. -/
theorem radio (h : s.Sequenced) {job : Nat} (hjob : job < s.started)
    (hpc : (s.jobs job).pc = .send) (call : RadioCall) {pc : TxPc} (hsent : pc.Sent) :
    ((s.radio job call).goto job pc).Sequenced := by
  have hall : s.AllSent job := h.past job hjob (by rw [hpc]; trivial)
  have hgoto : (s.goto job pc).Sequenced := h.goto (fun _ => hsent) fun _ => hall
  refine ⟨hgoto.past, hgoto.freed, fun c hc => ?_, ?_⟩
  · obtain hold | hnew := List.mem_append.mp hc
    · exact hgoto.made c hold
    · obtain rfl := List.mem_singleton.mp hnew
      refine ⟨hjob, ?_⟩
      rw [jobs_goto, if_pos rfl]
      exact hsent
  · show ((s.calls ++ [(job, call)]).map Prod.fst).Pairwise (· < ·)
    rw [List.map_append, List.pairwise_append]
    refine ⟨h.order, List.pairwise_singleton _ _, fun j hj k hk => ?_⟩
    rw [List.mem_singleton.mp hk]
    obtain ⟨c, hc, rfl⟩ := List.mem_map.mp hj
    obtain ⟨hlt, hsentc⟩ := h.made c hc
    -- A later job that is sent was past the wait, when this one had not been sent.
    obtain hc1 | hc1 | hc1 := Nat.lt_trichotomy c.1 job
    · exact hc1
    · rw [hc1, hpc] at hsentc
      exact hsentc.elim
    · have := h.past c.1 hlt hsentc.passed job hc1
      rw [hpc] at this
      exact this.elim

/-- A job sends in its turn. -/
theorem transmit (h : s.Sequenced) {job : Nat} (hjob : job < s.started)
    (hpc : (s.jobs job).pc = .send) : (s.transmit job).Sequenced := by
  have hall : s.AllSent job := h.past job hjob (by rw [hpc]; trivial)
  rw [UlTx.transmit]
  split
  · exact h.radio hjob hpc .tx trivial
  · split
    · exact h.goto (fun _ => trivial) fun _ => hall
    · split
      · exact h.radio hjob hpc .txZeros trivial
      · exact h.radio hjob hpc .txEnd trivial

/-- The job before this one has freed its mutex: then all earlier jobs are sent. -/
theorem allSent_of_freedBy (h : s.Sequenced) {i job : Nat}
    (hfreed : (s.txMutex i).freedBy.map (· + 1) = some job) : s.AllSent job := by
  obtain ⟨j, hmutex, rfl⟩ := Option.map_eq_some_iff.mp hfreed
  obtain ⟨hj, hsent⟩ := h.freed i j hmutex
  intro k hk
  obtain hlt | rfl := Nat.lt_succ_iff_lt_or_eq.mp hk
  · exact h.past j hj hsent.passed k hlt
  · exact hsent

/-- A worker takes the mutex of its TTI. That lets it past the wait. -/
theorem takeMutex (h : s.Sequenced) {job : Nat} (hpc : ¬(s.jobs job).pc.Sent) (i : Nat)
    (hall : s.AllSent job) : ((s.lock i).goto job .send).Sequenced := by
  have hlock : (s.lock i).Sequenced := by
    refine h.of_eq rfl rfl rfl fun k j hk => ?_
    by_cases hki : k = i
    · subst hki
      simpa [lock] using hk
    · simpa [lock, Function.update_of_ne hki] using hk
  exact hlock.goto (fun hs => absurd hs hpc) fun _ => hall

/-- A worker frees the mutex of the next TTI: it is sent itself. -/
theorem freeMutex (h : s.Sequenced) {job : Nat} (hjob : job < s.started) (i : Nat)
    (hall : s.AllSent job) : ((s.free i job).goto job .done).Sequenced := by
  have hgoto : (s.goto job .done).Sequenced := h.goto (fun _ => trivial) fun _ => hall
  refine ⟨hgoto.past, fun k j hkj => ?_, hgoto.made, hgoto.order⟩
  by_cases hk : k = i
  · subst hk
    simp only [txMutex_goto, free, Function.update_self, Option.some.injEq] at hkj
    subst hkj
    refine ⟨hjob, ?_⟩
    rw [jobs_goto, if_pos rfl]
    trivial
  · simp only [txMutex_goto, free, Function.update_of_ne hk] at hkj
    exact hgoto.freed k j hkj

/-- An action of a job that waits its turn keeps the order. -/
theorem worker (h : s.Sequenced) {job : Nat} (hjob : job < s.started)
    (hawait : s.Awaited nofMutex (.worker job)) (hstep : s.worker nofMutex job = some s') :
    s'.Sequenced := by
  simp only [UlTx.worker] at hstep
  split at hstep
  case h_1 hpc =>
    -- The flag sends the worker past its mutex or to it. Neither place is past the wait yet.
    cases hstep
    refine h.goto (fun hs => ?_) fun hp => ?_
    · rw [hpc] at hs
      exact hs.elim
    · split at hp <;> exact hp.elim
  case h_2 hpc =>
    cases hstep
    have hflag : ({ s with isFirstTx := false } : UlTx).Sequenced :=
      h.of_eq rfl rfl rfl fun _ _ => id
    refine hflag.goto (fun hs => ?_) fun _ => hawait.1 hpc
    change (s.jobs job).pc.Sent at hs
    rw [hpc] at hs
    exact hs.elim
  case h_3 hpc =>
    split at hstep
    · cases hstep
    · cases hstep
      -- The job before freed the mutex. If it was freed in another way, `Awaited` is needed.
      refine h.takeMutex (by rw [hpc]; exact id) _ ?_
      by_cases hprev : (s.txMutex ((s.jobs job).txTti % nofMutex)).freedBy.map (· + 1) = some job
      · exact h.allSent_of_freedBy hprev
      · exact hawait.2 hpc hprev
  case h_4 hpc =>
    cases hstep
    exact h.transmit hjob hpc
  case h_5 first hpc =>
    cases hstep
    have hflag : ({ s with isFirstOfBurst := first } : UlTx).Sequenced :=
      h.of_eq rfl rfl rfl fun _ _ => id
    exact hflag.goto (fun _ => trivial) fun _ => h.past job hjob (by rw [hpc]; trivial)
  case h_6 hpc =>
    cases hstep
    exact h.freeMutex hjob _ (h.past job hjob (by rw [hpc]; trivial))
  case h_7 => cases hstep

/-- A reset keeps the order. -/
theorem resetUl (h : s.Sequenced) : (s.resetUl nofMutex).Sequenced := by
  simp only [UlTx.resetUl]
  split
  · exact h.of_eq rfl rfl rfl fun _ _ => id
  · exact h.of_eq rfl rfl rfl fun _ _ => id
  · rename_i i _
    refine h.of_eq rfl rfl rfl fun k j hk => ?_
    by_cases hki : k = i
    · subst hki
      simp at hk
    · simpa [Function.update_of_ne hki] using hk

/-- A new job has not passed anything. -/
theorem start (h : s.Sequenced) (job : TxJob) (hpc : job.pc = .entry) (cnt : Nat) :
    ({ s with
        jobs := Function.update s.jobs s.started job
        started := s.started + 1, txMutexCnt := cnt } : UlTx).Sequenced := by
  have hold : ∀ j, j < s.started → Function.update s.jobs s.started job j = s.jobs j :=
    fun j hj => Function.update_of_ne (Nat.ne_of_lt hj) ..
  constructor
  case past =>
    intro j hj hp k hk
    dsimp only at hp ⊢
    obtain hlt | rfl := Nat.lt_succ_iff_lt_or_eq.mp hj
    · rw [hold j hlt] at hp
      rw [hold k (Nat.lt_trans hk hlt)]
      exact h.past j hlt hp k hk
    · rw [Function.update_self, hpc] at hp
      exact hp.elim
  case freed =>
    intro i j hij
    obtain ⟨hj, hsent⟩ := h.freed i j hij
    refine ⟨Nat.lt_succ_of_lt hj, ?_⟩
    dsimp only
    rwa [hold j hj]
  case made =>
    intro c hc
    obtain ⟨hlt, hsent⟩ := h.made c hc
    refine ⟨Nat.lt_succ_of_lt hlt, ?_⟩
    dsimp only
    rwa [hold c.1 hlt]
  case order => exact h.order

/-- Every step that waits as it should keeps the invariant. -/
theorem step (h : s.Sequenced) {a : TxAction} (hawait : s.Awaited nofMutex a)
    (hstep : s.step nofMutex nofWorkers a = some s') : s'.Sequenced := by
  cases a with
  | start txEnable =>
    rw [UlTx.step] at hstep
    split at hstep
    · cases hstep
      exact h.start _ rfl _
    · cases hstep
  | worker job =>
    rw [UlTx.step] at hstep
    split at hstep
    · rename_i hjob
      exact h.worker hjob hawait hstep
    · cases hstep
  | resetUl =>
    cases hstep
    exact h.resetUl

end Sequenced

/-- At first there is no job. -/
theorem sequenced_init : ({} : UlTx).Sequenced where
  past j hj := absurd hj (Nat.not_lt_zero j)
  freed i j h := by cases h
  made c hc := by cases hc
  order := List.Pairwise.nil

/-- **When the subframes are sent in order.** In a run that lets no job past the wait because of
`is_first_tx` or a mutex left free before all earlier jobs have been sent, the radio calls come in
the order of the subframes. -/
theorem along_inOrder (nofMutex nofWorkers : Nat) {as : List TxAction}
    (h : Along (step nofMutex nofWorkers) (fun s a _ => s.Awaited nofMutex a) ({} : UlTx) as) :
    Along (step nofMutex nofWorkers) (fun _ _ s' => s'.InOrder) ({} : UlTx) as := by
  refine h.of_inv (fun s a s' hs hstep hawait => ?_) sequenced_init
  have hs' := hs.step hawait hstep
  exact ⟨hs'.order, hs'⟩

/-- The second job waits until the first has freed its mutex. -/
theorem along_inOrder_twoJobs :
    Along (step 8 2) (fun _ _ s' => s'.InOrder) ({} : UlTx)
      [.start true, .start true, .worker 0, .worker 0, .worker 0, .worker 0, .worker 1, .worker 0,
        .worker 1, .worker 1] :=
  along_inOrder 8 2 (by decide)

/-- With two workers, the second job takes its mutex, which nobody has locked, and sends before the
first. -/
theorem not_inOrder_firstRound :
    ¬Along (step 8 2) (fun _ _ s' => s'.InOrder) ({} : UlTx)
      [.start true, .start true, .worker 0, .worker 0, .worker 1, .worker 1, .worker 1,
        .worker 0] := by
  decide

end UlTx

end SrsUE.Phy
