import Mathlib.Data.Fintype.Card
import Mathlib.Data.Finset.Card
import SrsUE.Lib.Run
import SrsUE.Mac.PduProcess

/-!
# `SrsUE.Proofs.Mac.PduWakeUp`: when a wake-up for a received PDU is lost

The thread of `pdu_process` writes the result of its scan to `have_data` without the mutex. A
`push_pdu` and its `notify` that both fall between a scan that found nothing and this assignment are
lost: the assignment clears the flag, and the thread waits with a PDU in its queue.

`Timely` says that a step is not the `notify` of such a PDU. `Awaited` is the invariant of the runs
whose steps are timely: from a scan that found nothing until the thread has seen a `notify`, the
first PDU of every queue has its `notify` still to come. `lost_of_not_timely` shows that one
untimely `notify` is enough to block the thread for good.
-/

set_option autoImplicit false

namespace SrsUE.Mac

open SrsUE.Lib

/-! ### The queues -/

namespace Qbuff

/-- The number of valid packets. -/
def validCount (q : Qbuff) : Nat := (Finset.univ.filter fun i => (q.packets i).isSome).card

/-- A queue has no more PDUs than places. -/
theorem validCount_le (q : Qbuff) : q.validCount ≤ nofBufferPdus :=
  (Finset.card_filter_le _ _).trans (Finset.card_fin _).le

/-- A release takes one of them. -/
theorem validCount_release {q : Qbuff} (h : q.isEmpty = false) :
    q.release.validCount + 1 = q.validCount := by
  have hmem : q.rp ∈ Finset.univ.filter fun i => (q.packets i).isSome := by
    rw [isEmpty, pop, Option.isNone_eq_false_iff] at h
    simpa using h
  have herase : (Finset.univ.filter fun i => (q.release.packets i).isSome) =
      (Finset.univ.filter fun i => (q.packets i).isSome).erase q.rp := by
    ext i
    rw [Finset.mem_erase, Finset.mem_filter, Finset.mem_filter]
    by_cases hi : i = q.rp
    · subst hi
      simp [release]
    · simp [release, hi]
  rw [validCount, herase, Finset.card_erase_add_one hmem, validCount]

/-- The loop ends with an empty queue when it may go around once for each valid packet. -/
theorem isEmpty_drain {fuel : Nat} {q : Qbuff} (h : q.validCount ≤ fuel) :
    (drain fuel q).1.isEmpty = true := by
  induction fuel generalizing q with
  | zero =>
    have hnone : ∀ i, i ∉ Finset.univ.filter fun i => (q.packets i).isSome := by
      intro i hi
      have := Finset.card_pos.mpr ⟨i, hi⟩
      rw [validCount] at h
      omega
    have := hnone q.rp
    simpa [drain, isEmpty, pop] using this
  | succ fuel ih =>
    rw [drain]
    split
    · assumption
    · rename_i hne
      have := validCount_release (Bool.eq_false_iff.mpr hne)
      exact ih (by omega)

/-- What `pop` finds after a `push` was there before, or is the packet that was pushed. -/
theorem pop_push {q : Qbuff} {pkt p : Packet} (h : (q.push pkt).pop = some p) :
    p = pkt ∨ q.pop = some p := by
  by_cases hp : q.rp = q.wp
  · refine .inl ?_
    simpa [pop, push, hp, eq_comm] using h
  · refine .inr ?_
    simpa [pop, push, Function.update_of_ne hp] using h

end Qbuff

/-- `process_pdus` leaves every queue empty. -/
theorem PduQueue.isEmpty_processPdus (pdus : PduQueue) (pid : Fin nofHarqPid) :
    (pdus.processPdus.1 pid).isEmpty = true :=
  Qbuff.isEmpty_drain (Qbuff.validCount_le _)

/-- `process_pdus` says that it found nothing exactly when every queue was empty. -/
theorem PduQueue.processPdus_false_iff (pdus : PduQueue) :
    pdus.processPdus.2 = false ↔ ∀ pid, (pdus pid).isEmpty = true := by
  simp only [processPdus, List.any_eq_false, List.mem_finRange, true_implies]
  refine forall_congr' fun pid => ?_
  rw [Qbuff.drain]
  split <;> simp_all

/-- The first PDU of a queue is the one that was pushed or the one before. -/
theorem PduQueue.pop_pushPdu {pdus : PduQueue} {pid nofBytes pushNo : Nat}
    {i : Fin nofHarqPid} {p : Packet} (h : (pdus.pushPdu pid nofBytes pushNo i).pop = some p) :
    p.pushNo = pushNo ∨ (pdus i).pop = some p := by
  rw [pushPdu] at h
  split at h
  · rename_i hpid
    split at h
    · by_cases hi : i = ⟨pid, hpid⟩
      · subst hi
        rw [Function.update_self] at h
        exact (Qbuff.pop_push h).imp (congrArg Packet.pushNo) id
      · rw [Function.update_of_ne hi] at h
        exact .inr h
    · exact .inr h
  · exact .inr h

/-! ### Blocked threads -/

namespace PduProcess

/-- Every queue is empty, or the `notify` of the PDU it will give next is still to come. -/
def Announced (s : PduProcess) : Prop :=
  ∀ pid p, (s.pdus pid).pop = some p → p.pushNo ∈ s.toNotify

/-- No wake-up is lost: a thread that is blocked has nothing to process, or will be notified. -/
def NoLostWakeUp (s : PduProcess) : Prop := s.pc = .blocked → s.Announced

/-- The step is not the `notify` of a PDU that a queue will give next, between a scan that found
nothing and the assignment of its result. -/
def Timely (s : PduProcess) : PduAction → Prop
  | .notify pushNo => s.pc = .assign false →
      ∀ pid p, (s.pdus pid).pop = some p → p.pushNo ≠ pushNo
  | _ => True

/-- The thread goes on to wait if nobody notifies it. -/
def GoesToWait (s : PduProcess) : Prop :=
  match s.pc with
  | .assign found => found = false
  | .test | .locked | .blocked => s.haveData = false
  | .start | .loop | .done => False

/-- A thread that goes on to wait has nothing to process, or will be notified. -/
def Awaited (s : PduProcess) : Prop := s.GoesToWait → s.Announced

/-- A push keeps the queues announced: its own notification is still to come. -/
theorem Announced.push {s : PduProcess} (h : s.Announced) (pid nofBytes : Nat) :
    ({ s with
        pdus := s.pdus.pushPdu pid nofBytes s.pushes
        pushes := s.pushes + 1, toNotify := s.pushes :: s.toNotify } : PduProcess).Announced := by
  intro i p hp
  obtain hnew | hold := PduQueue.pop_pushPdu hp
  · exact hnew ▸ List.mem_cons_self ..
  · exact List.mem_cons_of_mem _ (h i p hold)

/-- The thread goes on to wait only behind a scan that found nothing. -/
theorem Awaited.thread {s s' : PduProcess} (h : s.Awaited) (hstep : s.thread = some s') :
    s'.Awaited := by
  rw [PduProcess.thread] at hstep
  cases hpc : s.pc with
  | start =>
    rw [hpc] at hstep
    cases hstep
    exact False.elim
  | loop =>
    rw [hpc] at hstep
    dsimp only at hstep
    split at hstep
    · cases hstep
      -- The scan has emptied every queue.
      intro _ pid p hp
      have hempty := s.pdus.isEmpty_processPdus pid
      rw [Qbuff.isEmpty, hp] at hempty
      cases hempty
    · cases hstep
      exact False.elim
  | assign found =>
    rw [hpc] at hstep
    cases hstep
    exact fun hfound => h (by rw [GoesToWait, hpc]; exact hfound)
  | test =>
    rw [hpc] at hstep
    cases hstep
    cases hd : s.haveData with
    | true => exact fun hw => by simp [GoesToWait] at hw
    | false => exact fun _ => h (by rw [GoesToWait, hpc]; exact hd)
  | locked =>
    rw [hpc] at hstep
    cases hstep
    cases hd : s.haveData with
    | true => exact fun hw => by simp [GoesToWait] at hw
    | false => exact fun _ => h (by rw [GoesToWait, hpc]; exact hd)
  | blocked =>
    rw [hpc] at hstep
    cases hstep
  | done =>
    rw [hpc] at hstep
    cases hstep

/-- A notification in time announces its PDU. -/
theorem Awaited.notify {s : PduProcess} (h : s.Awaited) {pushNo : Nat}
    (ht : s.Timely (.notify pushNo)) :
    ({ s with haveData := true, pc := signal s.pc, toNotify := s.toNotify.erase pushNo } :
      PduProcess).Awaited := by
  intro hw
  cases hpc : s.pc with
  | assign found =>
    -- The flag that is set here is about to be cleared: the step is timely for this case.
    simp only [GoesToWait, hpc, signal] at hw
    subst hw
    intro pid p hp
    have hmem := h (by rw [GoesToWait, hpc]) pid p hp
    exact (List.mem_erase_of_ne (ht hpc pid p hp)).mpr hmem
  | _ => simp [GoesToWait, hpc, signal] at hw

/-- Every timely step keeps the invariant. -/
theorem Awaited.step {s s' : PduProcess} {a : PduAction} (h : s.Awaited) (ht : s.Timely a)
    (hstep : s.step a = some s') : s'.Awaited := by
  cases a with
  | push pid nofBytes =>
    cases hstep
    exact fun hw => (h hw).push pid nofBytes
  | notify pushNo =>
    rw [PduProcess.step] at hstep
    split at hstep
    · cases hstep
      exact h.notify ht
    · cases hstep
  | stop =>
    cases hstep
    intro hw
    refine h ?_
    cases hpc : s.pc <;> simp_all [GoesToWait, signal]
  | thread => exact h.thread hstep
  | wake =>
    rw [PduProcess.step] at hstep
    split at hstep
    · rename_i hpc
      cases hstep
      exact fun hw => h (by rw [GoesToWait, hpc]; exact hw)
    · cases hstep

/-- A thread only blocks with `have_data` false. -/
def Idle (s : PduProcess) : Prop := s.pc = .blocked → s.haveData = false

/-- The thread blocks only when there is no data. -/
theorem haveData_of_thread {s s' : PduProcess} (hstep : s.thread = some s')
    (hb : s'.pc = .blocked) : s'.haveData = false := by
  rw [PduProcess.thread] at hstep
  split at hstep
  · cases hstep
    cases hb
  · split at hstep <;> cases hstep <;> cases hb
  · cases hstep
    cases hb
  · cases hstep
    dsimp only at hb
    split at hb <;> cases hb
  · cases hstep
    -- Only the test with the mutex held leads to the wait.
    dsimp only at hb ⊢
    split at hb
    · rename_i hwait
      rw [Bool.and_eq_true, Bool.not_eq_true'] at hwait
      exact hwait.1
    · cases hb
  · cases hstep
  · cases hstep

/-- Every step keeps it: the thread looks at `have_data` before it blocks. -/
theorem Idle.step {s s' : PduProcess} {a : PduAction} (h : s.Idle)
    (hstep : s.step a = some s') : s'.Idle := by
  cases a with
  | push pid nofBytes =>
    cases hstep
    exact h
  | notify pushNo =>
    rw [PduProcess.step] at hstep
    split at hstep
    · cases hstep
      intro hb
      cases hpc : s.pc <;> simp [hpc, signal] at hb
    · cases hstep
  | stop =>
    cases hstep
    intro hb
    cases hpc : s.pc <;> simp [hpc, signal] at hb
  | thread => exact fun hb => haveData_of_thread hstep hb
  | wake =>
    rw [PduProcess.step] at hstep
    split at hstep
    · cases hstep
      intro hb
      cases hb
    · cases hstep

/-- **When no wake-up is lost.** In a run whose steps are timely, a blocked thread has nothing to
process or will be notified. -/
theorem along_noLostWakeUp {as : List PduAction}
    (h : Along step (fun s a _ => s.Timely a) ({} : PduProcess) as) :
    Along step (fun _ _ s' => s'.NoLostWakeUp) ({} : PduProcess) as := by
  refine h.of_inv (I := fun s => s.Awaited ∧ s.Idle) (fun s a s' hs hstep ht => ?_)
    ⟨False.elim, fun hb => by cases hb⟩
  have haw := hs.1.step ht hstep
  have hidle := hs.2.step hstep
  refine ⟨fun hb => haw ?_, haw, hidle⟩
  rw [GoesToWait, hb]
  exact hidle hb

/-- The thread waits, a PDU is pushed and notified, and the thread processes it and waits again. -/
theorem along_noLostWakeUp_onePdu :
    Along step (fun _ _ s' => s'.NoLostWakeUp) ({} : PduProcess)
      [.thread, .thread, .thread, .thread, .thread, .push 0 1, .notify 0, .thread, .thread,
        .thread, .thread, .thread, .thread, .thread, .thread] := by
  refine along_noLostWakeUp ?_
  iterate 15
    intro s' hs'
    refine ⟨?_, ?_⟩
    · first | trivial | exact fun hpc => by cases hpc
    cases hs'
  trivial

/-- An untimely `notify`, with no other to follow, blocks a thread that is running although a queue
has a PDU for it. -/
theorem lost_of_not_timely (s : PduProcess) (pid : Fin nofHarqPid) (p : Packet)
    (hpc : s.pc = .assign false) (hrun : s.running = true) (hpop : (s.pdus pid).pop = some p)
    (hnotify : s.toNotify = [p.pushNo]) :
    ∃ s', runTo step s [.notify p.pushNo, .thread, .thread, .thread] = some s' ∧
      s'.pc = .blocked ∧ (s'.pdus pid).pop = some p ∧ s'.toNotify = [] := by
  refine ⟨{ s with haveData := false, pc := .blocked, toNotify := [] }, ?_, rfl, hpop, rfl⟩
  simp [runTo, step, thread, signal, hpc, hrun, hnotify]

/-- The thread finds nothing, a PDU is pushed and notified, and the thread clears the flag. -/
theorem not_along_noLostWakeUp :
    ¬Along step (fun _ _ s' => s'.NoLostWakeUp) ({} : PduProcess)
      [.thread, .thread, .push 0 1, .notify 0, .thread, .thread, .thread] := by
  obtain ⟨s', hlast, hb, hpop, hnone⟩ := lost_of_not_timely
    { pdus := PduQueue.pushPdu (PduQueue.processPdus fun _ => {}).1 0 1 0
      running := true, pc := .assign false, pushes := 1, toNotify := [0] }
    0 { len := 1, pushNo := 0 } rfl rfl rfl rfl
  intro h
  have hs' : s'.NoLostWakeUp := h.last (fun hb => by cases hb) hlast
  have hmem := hs' hb 0 _ hpop
  rw [hnone] at hmem
  cases hmem

end PduProcess

end SrsUE.Mac
