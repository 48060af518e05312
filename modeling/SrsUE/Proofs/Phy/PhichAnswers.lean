import Mathlib.Order.Interval.Finset.Nat
import SrsUE.Phy.PendingAck
import SrsUE.Proofs.Phy.UlWorkersRefine

/-!
# `SrsUE.Proofs.Phy.PhichAnswers`: which PHICH a subframe decodes

A subframe decodes the PHICH that the one eight subframes before it expects. An entry of
`pending_ack` serves every tenth subframe, so a job sets the entry that the job two before it reads.
No mutex keeps them apart. What does is the order of `worker_end`: with two workers, a job starts
only when the job two before it has been sent.

`Tracks` is the invariant of the runs with at most two workers that keep this order. `answered_iff`
says that two workers are the most for which all such runs are right. `check_args` of `phy.cc`
admits three.
-/

set_option autoImplicit false

namespace SrsUE.Phy

open SrsUE.Lib

/-! ### Entries -/

section
variable {pendingAck : Fin 10 → PendingAck} {t u : Nat}

/-- The array has an entry for each TTI modulo ten. -/
theorem getPendingAck_congr (h : t % 10 = u % 10) :
    getPendingAck pendingAck t = getPendingAck pendingAck u := by
  have hindex : ackIndex t = ackIndex u := Fin.ext h
  rw [getPendingAck, getPendingAck, hindex]

/-- An entry that is cleared expects nothing. -/
theorem getPendingAck_resetPendingAck_self :
    getPendingAck (resetPendingAck pendingAck t) t = none := by
  simp [getPendingAck, resetPendingAck]

/-- An entry that is set expects what it was set to. -/
theorem getPendingAck_setPendingAck_self (phich : Phich) :
    getPendingAck (setPendingAck pendingAck t phich) t = some phich := by
  simp [getPendingAck, setPendingAck]

/-- A call that changes an entry leaves the others. -/
theorem getPendingAck_update_of_ne (ack : PendingAck) (h : u % 10 ≠ t % 10) :
    getPendingAck (Function.update pendingAck (ackIndex t) ack) u = getPendingAck pendingAck u := by
  have hindex : ackIndex u ≠ ackIndex t := fun heq => h (congrArg Fin.val heq)
  rw [getPendingAck, getPendingAck, Function.update_of_ne hindex]

end

/-! ### One job -/

/-- What a job has put into the entry of eight subframes later, once it has cleared that. -/
def WorkJob.placed (w : WorkJob) : Option (Option Phich) :=
  match w.pc with
  | .decodePhich | .resetHeard | .decodePdcchUl => none
  | .encodePusch => some none
  | .workerEnd => some w.expects

/-- What a call on `pending_ack` can do: it reads and changes the entries of its own TTI and of
eight later. -/
structure WorkJob.StepTo (pendingAck pendingAck' : Fin 10 → PendingAck) (w w' : WorkJob) :
    Prop where
  tti : w'.tti = w.tti
  expects : w'.expects = w.expects
  running : w.pc ≠ .workerEnd
  read : w'.pc ≠ .decodePhich
  heard : w'.heard = if w.pc = .decodePhich then getPendingAck pendingAck w.tti else w.heard
  others : ∀ u, u % 10 ≠ w.tti % 10 → u % 10 ≠ (w.tti + 8) % 10 →
    getPendingAck pendingAck' u = getPendingAck pendingAck u
  placed : (∀ a, w.placed = some a → getPendingAck pendingAck (w.tti + 8) = a) →
    ∀ a, w'.placed = some a → getPendingAck pendingAck' (w.tti + 8) = a

/-- Every call of a job on the array is one of those listed. -/
theorem WorkJob.stepTo_of_step {pendingAck pendingAck' : Fin 10 → PendingAck} {w w' : WorkJob}
    (hs : w.step pendingAck = some (pendingAck', w')) : StepTo pendingAck pendingAck' w w' := by
  unfold WorkJob.step at hs
  cases hpc : w.pc with
  | decodePhich =>
    simp only [hpc] at hs
    split at hs
    · rename_i phich hget
      cases hs
      exact { tti := rfl, expects := rfl, running := by simp [hpc], read := by simp,
              heard := by simp [hpc, hget], others := fun _ _ _ => rfl,
              placed := fun _ _ h => by cases h }
    · rename_i hget
      cases hs
      exact { tti := rfl, expects := rfl, running := by simp [hpc], read := by simp,
              heard := by simp [hpc, hget], others := fun _ _ _ => rfl,
              placed := fun _ _ h => by cases h }
  | resetHeard =>
    simp only [hpc] at hs
    cases hs
    exact { tti := rfl, expects := rfl, running := by simp [hpc], read := by simp,
            heard := by simp [hpc], others := fun _ hown _ => getPendingAck_update_of_ne _ hown,
            placed := fun _ _ h => by cases h }
  | decodePdcchUl =>
    simp only [hpc] at hs
    cases hs
    refine { tti := rfl, expects := rfl, running := by simp [hpc], read := by simp,
             heard := by simp [hpc],
             others := fun _ _ hlater => getPendingAck_update_of_ne _ hlater,
             placed := fun _ a ha => ?_ }
    cases ha
    exact getPendingAck_resetPendingAck_self
  | encodePusch =>
    simp only [hpc] at hs
    split at hs
    · rename_i phich hexpects
      cases hs
      refine { tti := rfl, expects := rfl, running := by simp [hpc], read := by simp,
               heard := by simp [hpc],
               others := fun _ _ hlater => getPendingAck_update_of_ne _ hlater,
               placed := fun _ a ha => ?_ }
      cases ha
      rw [hexpects, getPendingAck_setPendingAck_self]
    · rename_i hexpects
      cases hs
      refine { tti := rfl, expects := rfl, running := by simp [hpc], read := by simp,
               heard := by simp [hpc], others := fun _ _ _ => rfl,
               placed := fun hplaced a ha => ?_ }
      -- Nothing is sent, so the entry stays cleared.
      cases ha
      rw [hexpects]
      exact hplaced none (by rw [WorkJob.placed, hpc])
  | workerEnd => simp [hpc] at hs

/-! ### The order of the jobs -/

/-- With fewer than `n` open jobs, those `n` or more before the next one are sent. -/
theorem UlTx.Sequenced.sent_of_busyWorkers {s : UlTx} (h : s.Sequenced) {n j : Nat}
    (hbusy : s.busyWorkers < n)
    (hj : j + n ≤ s.started) : (s.jobs j).pc.Sent := by
  by_contra hsent
  -- None of the jobs from this one on is done, as it would have waited for this one.
  have hopen : Finset.Ico j s.started ⊆ (Finset.range s.started).filter fun i => (s.jobs i).pc
      ≠ .done := by
    intro i hi
    obtain ⟨hji, hlt⟩ := Finset.mem_Ico.mp hi
    refine Finset.mem_filter.mpr ⟨Finset.mem_range.mpr hlt, fun hdone => hsent ?_⟩
    obtain rfl | hbefore := Nat.eq_or_lt_of_le hji
    · rw [hdone]
      trivial
    · exact h.past i hlt (by rw [hdone]; trivial) j hbefore
  have hcard := Finset.card_le_card hopen
  rw [Nat.card_Ico, ← busyWorkers_eq_card] at hcard
  omega

/-- What the start of a job does. -/
theorem UlTx.start_spec {nofMutex nofWorkers : Nat} {s s' : UlTx} {txEnable : Bool}
    (hs : s.step nofMutex nofWorkers (.start txEnable) = some s') :
    s.busyWorkers < nofWorkers ∧ s'.started = s.started + 1 ∧ (s'.jobs s.started).pc = .entry ∧
      ∀ k, k ≠ s.started → s'.jobs k = s.jobs k := by
  rw [UlTx.step] at hs
  split at hs
  · rename_i hguard
    obtain rfl := Option.some.inj hs
    refine ⟨hguard.1, rfl, ?_, fun k hk => Function.update_of_ne hk ..⟩
    show (Function.update s.jobs s.started _ s.started).pc = .entry
    rw [Function.update_self]
  · cases hs

namespace UlPhich

variable {nofMutex nofWorkers job j : Nat} {s₀ s s' : UlPhich} {pendingAck : Fin 10 → PendingAck}
  {w : WorkJob}

/-- A call of one job leaves the others alone. -/
theorem work_setWork (k : Nat) : (s.setWork job pendingAck w).work k = if k = job then w
    else s.work k :=
  Function.update_apply ..

/-- A job that starts leaves the others alone. -/
theorem work_startWork (tx : UlTx) (expects : Option Phich) (k : Nat) :
    (s.startWork tx expects).work k
      = if k = s.tx.started then { tti := (s.tti + 1) % 10240, expects := expects } else s.work k :=
  Function.update_apply ..

/-- A step lets a job past the wait in `worker_end` only when all earlier jobs have been sent. -/
def Awaited (nofMutex : Nat) (s : UlPhich) : PhichAction → Prop
  | .workerEnd job => s.tx.Awaited nofMutex (.worker job)
  | .start _ _ | .work _ => True

/-- What a job should hear: what the job eight before it expects, or what was in the array from
before the first job. -/
def due (s₀ s : UlPhich) (j : Nat) : Option Phich :=
  if j < 8 then getPendingAck s₀.pendingAck (s₀.tti + 1 + j) else (s.work (j - 8)).expects

/-- Every job that has read its entry has heard what it should. -/
def Answered (s₀ s : UlPhich) : Prop :=
  ∀ j < s.tx.started, (s.work j).pc ≠ .decodePhich → (s.work j).heard = due s₀ s j

/-- A job has not read its entry yet. -/
def Unread (s : UlPhich) (j : Nat) : Prop := j < s.tx.started → (s.work j).pc = .decodePhich

/-- All but the last two jobs are at `worker_end`, and the entries that will be read hold what is
due. -/
structure Tracks (s₀ s : UlPhich) : Prop where
  sequenced : s.tx.Sequenced
  worked : ∀ j < s.tx.started, (s.tx.jobs j).pc ≠ .entry → (s.work j).pc = .workerEnd
  behind : ∀ j, j + 2 < s.tx.started → (s.work j).pc = .workerEnd
  tti : s.tti % 10 = (s₀.tti + s.tx.started) % 10
  ttis : ∀ j < s.tx.started, (s.work j).tti % 10 = (s₀.tti + 1 + j) % 10
  first : ∀ j < 8, s.Unread j →
    getPendingAck s.pendingAck (s₀.tti + 1 + j) = getPendingAck s₀.pendingAck (s₀.tti + 1 + j)
  later : ∀ j < s.tx.started, s.Unread (j + 8) → ∀ a, (s.work j).placed = some a →
    getPendingAck s.pendingAck (s₀.tti + 1 + (j + 8)) = a
  heard : Answered s₀ s

/-- Before the first job the array is what it was. -/
theorem tracks_init (tti : Nat) (pendingAck : Fin 10 → PendingAck) :
    Tracks (init tti pendingAck) (init tti pendingAck) where
  sequenced := UlTx.sequenced_init
  worked j hj := absurd hj (Nat.not_lt_zero j)
  behind _ hj := absurd hj (Nat.not_lt_zero _)
  tti := rfl
  ttis j hj := absurd hj (Nat.not_lt_zero j)
  first _ _ _ := rfl
  later j hj := absurd hj (Nat.not_lt_zero j)
  heard j hj := absurd hj (Nat.not_lt_zero j)

namespace Tracks

/-- A job that has not read its entry is one of the last two, or not started. -/
theorem started_le (h : Tracks s₀ s) (hu : s.Unread j) : s.tx.started ≤ j + 2 := by
  by_contra hlt
  have hpc := h.behind j (by omega)
  rw [hu (by omega)] at hpc
  cases hpc

/-- What a job finds in its entry. -/
theorem getPendingAck_eq (h : Tracks s₀ s) (hjob : job < s.tx.started)
    (hpc : (s.work job).pc = .decodePhich) :
    getPendingAck s.pendingAck (s.work job).tti = due s₀ s job := by
  have hread : s.Unread job := fun _ => hpc
  rw [getPendingAck_congr (h.ttis job hjob), due]
  split
  · rename_i hfirst
    exact h.first job hfirst hread
  · rename_i hlate
    obtain ⟨k, rfl⟩ : ∃ k, job = k + 8 := ⟨job - 8, by omega⟩
    -- The job eight before is at `worker_end`, so it has set its entry.
    refine h.later k (by omega) hread _ ?_
    rw [WorkJob.placed, h.behind k (by omega), Nat.add_sub_cancel]

/-- A call of a job keeps the entries that later jobs will read. -/
theorem work (h : Tracks s₀ s) (hjob : job < s.tx.started)
    (hs : (s.work job).step s.pendingAck = some (pendingAck, w)) :
    Tracks s₀ (s.setWork job pendingAck w) := by
  have hstep := WorkJob.stepTo_of_step hs
  have htti := h.ttis job hjob
  have hactive : s.tx.started ≤ job + 2 := by
    by_contra hlt
    exact hstep.running (h.behind job (by omega))
  have hunread : ∀ k, (s.setWork job pendingAck w).Unread k → k ≠ job ∧ s.Unread k := by
    intro k hu
    by_cases hk : k = job
    · subst hk
      have hpc := hu hjob
      rw [work_setWork, if_pos rfl] at hpc
      exact absurd hpc hstep.read
    · refine ⟨hk, fun hlt => ?_⟩
      have hpc := hu hlt
      rwa [work_setWork, if_neg hk] at hpc
  -- The entries of the ten subframes from the last but one on are different ones.
  have hother : ∀ k, k < s.tx.started + 8 → k ≠ job → k ≠ job + 8 → s.Unread k →
      getPendingAck pendingAck (s₀.tti + 1 + k) = getPendingAck s.pendingAck (s₀.tti + 1 + k) := by
    intro k hlt hk hk8 hu
    have hle := h.started_le hu
    exact hstep.others _ (by omega) (by omega)
  have hdue : ∀ k, due s₀ (s.setWork job pendingAck w) k = due s₀ s k := by
    intro k
    rw [due, due, work_setWork]
    split
    · rfl
    · split
      · rename_i heq
        rw [hstep.expects, heq]
      · rfl
  have hend : ∀ k, (s.work k).pc = .workerEnd → ((s.setWork job pendingAck w).work k).pc
      = .workerEnd := by
    intro k hpc
    rw [work_setWork, if_neg (fun heq : k = job => hstep.running (heq ▸ hpc)), hpc]
  refine { sequenced := h.sequenced, worked := fun k hk hpc => hend k (h.worked k hk hpc),
           behind := fun k hk => hend k (h.behind k hk), tti := h.tti, ttis := fun k hk => ?_,
           first :=
         fun k hk hu => ?_, later := fun k hk hu a ha => ?_, heard := fun k hk hread => ?_ }
  · rw [work_setWork]
    split
    · rename_i heq
      rw [hstep.tti, htti, heq]
    · exact h.ttis k hk
  · obtain ⟨hne, hu⟩ := hunread k hu
    exact (hother k (by omega) hne (by omega) hu).trans (h.first k hk hu)
  · obtain ⟨hne, hu'⟩ := hunread (k + 8) hu
    rw [work_setWork] at ha
    split at ha
    · rename_i heq
      subst heq
      have hentry : ∀ pendingAck, getPendingAck pendingAck (s₀.tti + 1 + (k + 8))
          = getPendingAck pendingAck ((s.work k).tti + 8) := fun _ => getPendingAck_congr (by omega)
      rw [show (s.setWork k pendingAck w).pendingAck = pendingAck from rfl, hentry]
      refine hstep.placed (fun b hb => ?_) a ha
      rw [← hentry]
      exact h.later k hk hu' b hb
    · rename_i hk'
      exact (hother (k + 8) (Nat.add_lt_add_right hk 8) hne (by omega) hu').trans
        (h.later k hk hu' a ha)
  · rw [hdue]
    rw [work_setWork] at hread ⊢
    split
    · rename_i heq
      subst heq
      rw [hstep.heard]
      split
      · rename_i hpc
        exact h.getPendingAck_eq hjob hpc
      · rename_i hpc
        exact h.heard k hjob hpc
    · rename_i hne
      rw [if_neg hne] at hread
      exact h.heard k hk hread

/-- A new job keeps them: with two workers the job before the last is at `worker_end`. -/
theorem start (h : Tracks s₀ s) (hn : nofWorkers ≤ 2) {txEnable : Bool} {tx : UlTx}
    (expects : Option Phich)
    (hs : s.tx.step nofMutex nofWorkers (.start txEnable) = some tx) :
    Tracks s₀ (s.startWork tx expects) := by
  obtain ⟨hbusy, hstarted, hentry, hjobs⟩ := UlTx.start_spec hs
  have htti := h.tti
  have hlt : ∀ k < tx.started, k ≠ s.tx.started → k < s.tx.started := fun k _ _ => by omega
  have hunread : ∀ k, (s.startWork tx expects).Unread k → s.Unread k := by
    intro k hu hk
    have hpc := hu (show k < tx.started by omega)
    rwa [work_startWork, if_neg (Nat.ne_of_lt hk)] at hpc
  refine { sequenced := h.sequenced.step (a := .start txEnable) trivial hs,
           worked := fun k hk hpc => ?_, behind := fun k hk => ?_, tti := ?_,
           ttis := fun k hk => ?_, first := fun k hk hu => h.first k hk (hunread k hu),
           later := fun k hk hu a ha => ?_, heard := fun k hk hread => ?_ }
  · by_cases hlast : k = s.tx.started
    · exact absurd (hlast ▸ hentry) hpc
    · rw [work_startWork, if_neg hlast]
      exact h.worked k (hlt k hk hlast) (by rw [← hjobs k hlast]; exact hpc)
  · have hlate : k + 2 < tx.started := hk
    rw [work_startWork, if_neg (by omega)]
    have hsent := h.sequenced.sent_of_busyWorkers hbusy (by omega : k + nofWorkers ≤ s.tx.started)
    exact h.worked k (by omega) fun hpc => by rw [hpc] at hsent; exact hsent
  · show (s.tti + 1) % 10240 % 10 = (s₀.tti + tx.started) % 10
    omega
  · rw [work_startWork]
    split
    · show (s.tti + 1) % 10240 % 10 = (s₀.tti + 1 + k) % 10
      omega
    · rename_i hlast
      exact h.ttis k (hlt k hk hlast)
  · rw [work_startWork] at ha
    split at ha
    · cases ha
    · rename_i hlast
      exact h.later k (hlt k hk hlast) (hunread _ hu) a ha
  · by_cases hlast : k = s.tx.started
    · rw [work_startWork, if_pos hlast] at hread
      exact absurd rfl hread
    · have hk' := hlt k hk hlast
      rw [work_startWork, if_neg hlast] at hread ⊢
      rw [h.heard k hk' hread, due, due, work_startWork, if_neg (by omega : k - 8 ≠ s.tx.started)]

/-- A job leaves `worker_end` in its turn only. -/
theorem workerEnd (h : Tracks s₀ s) {tx : UlTx} (hpc : (s.work job).pc = .workerEnd)
    (hawait : s.tx.Awaited nofMutex (.worker job))
    (hs : s.tx.step nofMutex nofWorkers (.worker job) = some tx) :
    Tracks s₀ { s with tx := tx } := by
  have hsequenced := h.sequenced.step hawait hs
  rw [UlTx.step] at hs
  split at hs
  · obtain ⟨⟨hstarted, -, hjobs⟩, -⟩ := UlTx.sameBeside_worker hs
    have hlt : ∀ k, k < tx.started → k < s.tx.started := fun k hk => by rwa [hstarted] at hk
    have hunread : ∀ k, Unread { s with tx := tx } k → s.Unread k :=
      fun k hu hk => hu (show k < tx.started by rwa [hstarted])
    refine { sequenced := hsequenced, worked := fun k hk hentry => ?_,
             behind := fun k hk => h.behind k (hlt _ hk), tti := ?_,
             ttis := fun k hk => h.ttis k (hlt k hk),
             first := fun k hk hu => h.first k hk (hunread k hu),
             later := fun k hk hu => h.later k (hlt k hk) (hunread _ hu),
             heard := fun k hk => h.heard k (hlt k hk) }
    · by_cases hk' : k = job
      · rw [hk']
        exact hpc
      · exact h.worked k (hlt k hk) (by rw [← hjobs k hk']; exact hentry)
    · show s.tti % 10 = (s₀.tti + tx.started) % 10
      rw [hstarted]
      exact h.tti
  · cases hs

/-- Every step that waits its turn keeps the entries. -/
theorem step (h : Tracks s₀ s) (hn : nofWorkers ≤ 2) {a : PhichAction}
    (hawait : s.Awaited nofMutex a)
    (hs : s.step nofMutex nofWorkers a = some s') : Tracks s₀ s' := by
  cases a with
  | start txEnable expects =>
    obtain ⟨tx, htx, rfl⟩ := Option.map_eq_some_iff.mp hs
    exact h.start hn expects htx
  | work job =>
    rw [UlPhich.step] at hs
    split at hs
    · rename_i hjob
      obtain ⟨⟨pendingAck, w⟩, hw, rfl⟩ := Option.map_eq_some_iff.mp hs
      exact h.work hjob hw
    · cases hs
  | workerEnd job =>
    rw [UlPhich.step] at hs
    split at hs
    · rename_i hpc
      obtain ⟨tx, htx, rfl⟩ := Option.map_eq_some_iff.mp hs
      exact h.workerEnd hpc hawait htx
    · cases hs

end Tracks

/-! ### More workers -/

/-- What fewer workers can do, more can. -/
theorem step_mono {n : Nat} (hn : nofWorkers ≤ n) {a : PhichAction}
    (hs : s.step nofMutex nofWorkers a = some s') :
    s.step nofMutex n a = some s' := by
  cases a with
  | start txEnable expects =>
    obtain ⟨tx, htx, rfl⟩ := Option.map_eq_some_iff.mp hs
    refine Option.map_eq_some_iff.mpr ⟨tx, ?_, rfl⟩
    rw [UlTx.step] at htx ⊢
    split at htx
    · rename_i hguard
      rw [if_pos ⟨Nat.lt_of_lt_of_le hguard.1 hn, hguard.2⟩]
      exact htx
    · cases htx
  | work job => exact hs
  | workerEnd job => exact hs

/-- What two workers can do, more workers can do. -/
theorem runTo_mono {n : Nat} (hn : nofWorkers ≤ n) {as : List PhichAction}
    (hrun : runTo (UlPhich.step nofMutex nofWorkers) s as = some s') :
    runTo (UlPhich.step nofMutex n) s as = some s' := by
  induction as generalizing s with
  | nil => exact hrun
  | cons a as ih =>
    obtain ⟨s₁, hs, hrest⟩ := Option.bind_eq_some_iff.mp hrun
    exact Option.bind_eq_some_iff.mpr ⟨s₁, step_mono hn hs, ih hrest⟩

/-- No subframe before the first one expects a PHICH. -/
def noneExpected : Fin 10 → PendingAck := fun _ => { enabled := false, iLowest := 0, nDmrs := 0 }

/-- The third job sets its entry before the first one has read it. -/
def overtaking : List PhichAction :=
  [.start false none, .start false none, .start true (some ⟨0, 0⟩), .work 2, .work 2, .work 2,
    .work 0]

/-- With three workers the first job hears what the third one expects. -/
theorem not_answered_overtaking (nofMutex : Nat) (hn : 3 ≤ nofWorkers) :
    ¬Along (UlPhich.step nofMutex nofWorkers) (fun _ _ s' => Answered (init 0 noneExpected) s')
      (init 0 noneExpected)
      overtaking := by
  intro h
  have hend : (runTo (UlPhich.step nofMutex 3) (init 0 noneExpected) overtaking).map
      (fun s' => (s'.tx.started, (s'.work 0).pc, (s'.work 0).heard))
        = some (3, .resetHeard, some ⟨0, 0⟩) := by
    with_unfolding_all rfl
  obtain ⟨s', hrun, hend⟩ := Option.map_eq_some_iff.mp hend
  simp only [Prod.mk.injEq] at hend
  obtain ⟨hstarted, hpc, hheard⟩ := hend
  have hlast : Answered (init 0 noneExpected) s' :=
    h.last (tracks_init 0 noneExpected).heard (runTo_mono hn hrun)
  have hnone := hlast 0 (by rw [hstarted]; decide) (by rw [hpc]; decide)
  rw [hheard] at hnone
  cases hnone

/-- **How many workers the entries are for.** Every run whose steps keep the order of `worker_end`
has each subframe decode what the one eight subframes before it expects, if and only if there are at
most two workers. -/
theorem answered_iff (nofMutex nofWorkers : Nat) :
    (∀ tti pendingAck as,
      Along (UlPhich.step nofMutex nofWorkers) (fun s a _ => s.Awaited nofMutex a)
      (init tti pendingAck) as →
        Along (UlPhich.step nofMutex nofWorkers) (fun _ _ s' => Answered (init tti pendingAck) s')
          (init tti pendingAck) as) ↔ nofWorkers ≤ 2 := by
  constructor
  · intro hall
    by_contra hn
    refine not_answered_overtaking nofMutex (Nat.lt_of_not_le hn)
      (hall 0 noneExpected overtaking ?_)
    -- No job comes to `worker_end` in this run.
    refine Along.of_kind (I := fun _ => True) (K := fun a => ∀ job, a ≠ .workerEnd job)
      (fun s a s' _ ha _ => ?_)
      (by simp [overtaking]) trivial
    refine ⟨?_, trivial⟩
    cases a with
    | start txEnable expects => trivial
    | work job => trivial
    | workerEnd job => exact absurd rfl (ha job)
  · intro hn tti pendingAck as hawait
    refine hawait.of_inv (fun s a s' htracks hs hawait => ?_) (tracks_init tti pendingAck)
    have htracks' := htracks.step hn hawait hs
    exact ⟨htracks'.heard, htracks'⟩

end UlPhich

end SrsUE.Phy
