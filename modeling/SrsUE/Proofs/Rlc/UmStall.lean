import SrsUE.Proofs.Rlc.UmVariables

/-!
# `SrsUE.Proofs.Rlc.UmStall`: gaps and the steps of the reordering timer

MAC counts its timers in steps of a millisecond. A run is here a sequence of PDUs and of steps of
the reordering timer, which calls `timer_expired` from the step that makes its counter equal to
the timeout. `UmNoStall` says that a gap in front of `vr_ux` does not outlast `max 1 T` steps.

`umNoStall_iff` says that this is so for every `t_reordering` but 0 ms. A timer of 0 ms is
started with its counter at the timeout already. The first step takes it past, and the next
equality is a wrap of the counter away.
-/

set_option autoImplicit false

namespace SrsUE.Proofs.Rlc

open SrsUE.Lib
open SrsUE.Rlc (Bytes Timer UmdSnSize UmdPduHeader add32 add32_of_lt)
open SrsUE.Rlc.Um

/-! ### Runs with timer steps -/

/-- What happens to the receive side: MAC hands over a PDU, or steps the reordering timer. -/
inductive UmTimedEvent where
  | writePdu (payload : Bytes)
  | timerStep
deriving DecidableEq, Repr

/-- An entity with the number of SNs that `vr_ur` has passed and of calls of `timer_expired`. -/
structure UmTimedLog where
  st : RlcUmRx
  passed : Nat := 0
  expiries : Nat := 0

/-- The entity after an event. -/
def umTimedSt (st : RlcUmRx) : UmTimedEvent → Option RlcUmRx
  | .writePdu payload => handleDataPdu st payload
  | .timerStep => some (stepReorderingTimer st)

/-- The event calls `timer_expired`. -/
def umExpires (st : RlcUmRx) : UmTimedEvent → Bool
  | .writePdu _ => false
  | .timerStep => st.reorderingTimer.step.2

/-- The entity and its log after an event. -/
def umTimedStep (s : UmTimedLog) (e : UmTimedEvent) : Option UmTimedLog :=
  (umTimedSt s.st e).map fun st =>
    { st := st
      passed := s.passed + modDist s.st.rxMod st.vrUr s.st.vrUr
      expiries := s.expiries + (umExpires s.st e).toNat }

/-- A fresh receiver. -/
def umTimedStart (snSize : UmdSnSize) (tReordering : Nat) : UmTimedLog :=
  { st := configureRx snSize tReordering }

/-- The timer is armed for the gap: after `max 1 T` timer steps, with any PDUs between them,
`timer_expired` has been called or `vr_ur` has reached what is now `vr_ux`. -/
def UmArmed (tReordering : Nat) (s : UmTimedLog) : Prop :=
  s.st.vrUr ≠ s.st.vrUh → ∀ later s', runTo umTimedStep s later = some s' →
    max 1 tReordering ≤ later.count .timerStep →
      s.expiries < s'.expiries ∨
        s.passed + modDist s.st.rxMod s.st.vrUx s.st.vrUr ≤ s'.passed

/-- In a run of a fresh receiver the timer is armed after every PDU and every call of
`timer_expired`. -/
def UmNoStall (snSize : UmdSnSize) (tReordering : Nat) : Prop :=
  ∀ events s e s', runTo umTimedStep (umTimedStart snSize tReordering) events = some s →
    (e ≠ .timerStep ∨ umExpires s.st e = true) → umTimedStep s e = some s' →
      UmArmed tReordering s'

/-! ### The timer -/

/-- A timer that is not running is not stepped. -/
theorem Timer.step_of_stopped {t : Timer} (hoff : t.running = false) : t.step = (t, false) := by
  rw [Timer.step, hoff]
  rfl

/-- A step below the timeout counts, and the one that reaches it expires the timer. -/
theorem Timer.step_of_running {t : Timer} (hon : t.running = true) (hlt : t.counter < t.timeout)
    (h32 : t.timeout < 2 ^ 32) :
    t.step = if t.counter + 1 = t.timeout then (t.expire, true)
      else ({ t with counter := t.counter + 1 }, false) := by
  have hadd : add32 t.counter 1 = t.counter + 1 := add32_of_lt (by omega)
  simp only [Timer.step, hon, if_true, hadd, Timer.isExpired, Bool.not_true, Bool.or_false,
    decide_eq_true_eq]
  split
  · rename_i heq
    rw [Timer.expire, Timer.stop, ← heq]
  · rfl

/-- The timer counts towards `T` while it runs, and it runs while PDUs are missing. -/
structure UmTimerOk (T : Nat) (st : RlcUmRx) (r h : Nat) : Prop where
  tReordering : st.tReordering = T
  counter : st.reorderingTimer.running = true →
    st.reorderingTimer.timeout = T ∧ st.reorderingTimer.counter < T
  armed : r < h → st.reorderingTimer.running = true

section
variable {W r h T : Nat} {st : RlcUmRx} {Q : Nat → UmdPdu → Prop}

/-- The timer runs when its flag says so, as it never stands at its timeout. -/
theorem UmTimerOk.isRunning (t : UmTimerOk T st r h) :
    st.reorderingTimer.isRunning = st.reorderingTimer.running := by
  cases hon : st.reorderingTimer.running with
  | false => rw [Timer.isRunning, hon, Bool.and_false]
  | true =>
    obtain ⟨htimeout, hlt⟩ := t.counter hon
    rw [Timer.isRunning, hon, htimeout, decide_eq_true hlt]
    rfl

/-- The timer after it has been started for what is missing. -/
theorem UmWindow.timerOk_startReordering (w : UmWindow W (startReordering st) r h Q)
    (hedge : h ≤ r + W) (hT : 0 < T) (htr : st.tReordering = T)
    (hoff : st.reorderingTimer.running = false) : UmTimerOk T (startReordering st) r h := by
  -- The guard reads variables that the start of the timer does not change.
  have hguard : st.rxModBase st.vrUr < st.rxModBase st.vrUh ↔ r < h := by
    obtain ⟨timer, ux, hf⟩ := umStartReordering_frame st
    have hr := w.rxModBase_vrUr hedge
    have hh := umRxModBase_vrUh w.toUmScale
    rw [hf] at hr hh
    have hr' : st.rxModBase st.vrUr = r + W - h := hr
    have hh' : st.rxModBase st.vrUh = W := hh
    have hle := w.r_le
    rw [hr', hh']
    omega
  unfold startReordering
  by_cases hlt : r < h
  · rw [if_pos (hguard.mpr hlt)]
    exact { tReordering := htr, counter := fun _ => ⟨htr, hT⟩, armed := fun _ => rfl }
  · rw [if_neg (fun hc => hlt (hguard.mp hc))]
    refine { tReordering := htr, counter := ?_, armed := fun hc => absurd hc hlt }
    intro hon
    rw [hoff] at hon
    cases hon

/-- The timer after `timer_expired`. -/
theorem UmRxInv.timerOk_timerExpired (inv : UmRxInv W (timerExpired st) r h Q) (hT : 0 < T)
    (htr : (timerExpired st).tReordering = T) : UmTimerOk T (timerExpired st) r h := by
  -- The last thing `timer_expired` does is to start the timer that it has stopped.
  obtain ⟨t, ht⟩ : ∃ t : RlcUmRx,
      timerExpired st = startReordering { t with reorderingTimer := t.reorderingTimer.stop } :=
    ⟨_, rfl⟩
  rw [ht] at inv htr ⊢
  obtain ⟨timer, ux, hf⟩ :=
    umStartReordering_frame { t with reorderingTimer := t.reorderingTimer.stop }
  rw [hf] at htr
  exact inv.timerOk_startReordering inv.edge hT htr rfl

/-- The timer after the end of `handle_data_pdu`. -/
theorem UmWindow.timerOk_updateReordering (w : UmWindow W st r h Q) (hedge : h ≤ r + W)
    (hT : 0 < T) (htr : st.tReordering = T)
    (hcounter : st.reorderingTimer.running = true →
      st.reorderingTimer.timeout = T ∧ st.reorderingTimer.counter < T)
    (htimer : st.reorderingTimer.isRunning = true →
      ∃ x, st.vrUx = x % (2 * W) ∧ h < x + 2 * W ∧ x ≤ h) :
    UmTimerOk T (updateReordering st) r h := by
  -- A start of the timer leaves the window as it is.
  have hstart : ∀ timer : Timer, timer.running = false →
      UmTimerOk T (startReordering { st with reorderingTimer := timer }) r h := by
    intro timer hoff
    obtain ⟨timer', ux, hf⟩ := umStartReordering_frame { st with reorderingTimer := timer }
    have w' : UmWindow W (startReordering { st with reorderingTimer := timer }) r h Q := by
      rw [hf]
      exact w.of_eq rfl rfl
    exact w'.timerOk_startReordering hedge hT htr hoff
  cases hon : st.reorderingTimer.running with
  | false =>
    have hoff : st.reorderingTimer.isRunning = false := by rw [Timer.isRunning, hon, Bool.and_false]
    rw [umUpdateReordering_of_off hoff]
    exact hstart st.reorderingTimer hon
  | true =>
    obtain ⟨htimeout, hlt⟩ := hcounter hon
    have hrun : st.reorderingTimer.isRunning = true := by
      rw [Timer.isRunning, hon, htimeout, decide_eq_true hlt]
      rfl
    obtain ⟨x, hux, hlo, hhi⟩ := htimer hrun
    rcases Nat.lt_or_ge r x with hahead | hpassed
    · rw [w.updateReordering_of_lt hedge hrun hux hhi hahead]
      exact { tReordering := htr, counter := hcounter, armed := fun _ => hon }
    · rw [w.updateReordering_of_ge hedge hrun hux hlo hhi hpassed]
      exact hstart _ rfl

/-- `vr_ur` does not go round a whole modulus for one PDU. -/
theorem UmReassembled.rounds_lt {header : UmdPduHeader} {buf : Bytes} {i n : Nat}
    (w : UmReassembled W st header buf r h i n Q) (inv : UmRxInv W st r h Q) (hri : r ≤ i)
    (hi : i < h + W) (hsn : header.sn = i % (2 * W)) : n < 2 * W := by
  have hW := inv.cases
  have hedge := inv.edge
  have hle := w.r_le
  by_contra hn
  -- It would pass the index below the new PDU, which is above everything that has waited.
  have hwait := w.passed (r + 2 * W - 2) (by omega) (by omega) (by omega)
  rw [inv.waiting_storeDataPdu hri hi hsn] at hwait
  rcases hwait with hmod | hwait
  · have := eq_of_mod_eq hmod (by omega) (by omega)
    omega
  · have := inv.lt_of_waiting (by omega) (by omega) hwait
    omega

end

/-! ### One event -/

/-- The invariant of a run, with the indices of `vr_ur` and `vr_uh`. -/
structure UmTimedInv (W T : Nat) (s : UmTimedLog) (r h : Nat) : Prop
    extends UmRxInv W s.st r h (fun _ _ => True), UmTimerOk T s.st r h where
  passed : s.passed = r

/-- From `s` to `s'` nothing goes back, and while `vr_ux` is ahead a running timer goes on
counting the timer steps, of which there are `ticks`. -/
structure UmTimedMove (s s' : UmTimedLog) (ticks x : Nat) : Prop where
  passed : s.passed ≤ s'.passed
  expiries : s.expiries ≤ s'.expiries
  counts : s'.passed < x → s.expiries < s'.expiries ∨
    s'.st.vrUx = s.st.vrUx ∧ s'.st.reorderingTimer.running = true ∧
      s'.st.reorderingTimer.counter = s.st.reorderingTimer.counter + ticks

section
variable {W T r h : Nat} {s : UmTimedLog}

/-- Nothing has arrived at first. -/
theorem umTimedInv_start (snSize : UmdSnSize) (T : Nat) :
    UmTimedInv (umWidth snSize) T (umTimedStart snSize T) 0 0 where
  toUmRxInv := umRxInv_init snSize T _
  tReordering := rfl
  counter hon := by cases hon
  armed h0 := absurd h0 (Nat.lt_irrefl 0)
  passed := rfl

/-- A PDU keeps the invariant. Nothing goes back, and no timer step is counted. -/
theorem UmTimedInv.writePdu {s' : UmTimedLog} {payload : Bytes} (inv : UmTimedInv W T s r h)
    (hT : 0 < T) (hstep : umTimedStep s (.writePdu payload) = some s') :
    ∃ r' h', UmTimedInv W T s' r' h' ∧ h ≤ h' ∧
      ∀ x, s.st.vrUx = x % (2 * W) → r < x → x ≤ h → UmTimedMove s s' 0 x := by
  obtain ⟨st', hst, rfl⟩ := Option.map_eq_some_iff.mp hstep
  obtain ⟨⟨header, buf⟩, hread, hpdu⟩ := Option.bind_eq_some_iff.mp hst
  obtain rfl := Option.some.inj hpdu
  have hW := inv.cases
  by_cases ha : UmAccepts s.st header.sn
  · have hsn := umReadDataPduHeader_sn_lt hread
    rw [← inv.width] at hsn
    obtain ⟨i, hri, hi, hsni, hnew⟩ := inv.index_of_accepts hsn ha
    obtain ⟨n, w⟩ := @UmRxInv.reassembled W r h s.st _ i header buf
      inv.toUmRxInv hri hi hsni hnew trivial
    have inv' := inv.inv_reassembled hri hi w
    have hn := w.rounds_lt inv.toUmRxInv hri hi hsni
    have htr : ((passRound true)^[n] (storeDataPdu s.st header buf)).tReordering = T := by
      rw [(passRound_iterate_same true n _).2.2, inv.storeDataPdu_eq hri hi hsni]
      exact inv.tReordering
    have htimer := w.timerOk_updateReordering w.edge hT htr (by rw [w.timer]; exact inv.counter)
      (by
        rw [w.timer, w.vrUx]
        intro hrun
        obtain ⟨x, hux, hrx, hxh, -⟩ := inv.timer hrun
        have hedge := inv.edge
        exact ⟨x, hux, by omega, by omega⟩)
    have hmove : modDist s.st.rxMod (receivePdu s.st header buf).vrUr s.st.vrUr = n := by
      rw [w.eq, inv'.vrUr, inv.vrUr, inv.rxMod, modDist_of_le (by omega) (by omega)]
      omega
    refine ⟨r + n, max h (i + 1), ?_, by omega, ?_⟩
    · refine { toUmRxInv := w.eq ▸ inv', toUmTimerOk := w.eq ▸ htimer, passed := ?_ }
      simp only [hmove, inv.passed]
    · intro x hux hrx hxh
      refine { passed := Nat.le_add_right _ _, expiries := Nat.le_add_right _ _, counts := ?_ }
      simp only [hmove, inv.passed]
      intro hlt
      -- `vr_ux` is still ahead, so the timer has been left alone.
      have hrun : s.st.reorderingTimer.isRunning = true := by
        rw [inv.isRunning]
        exact inv.armed (by omega)
      have hkeep :=
        w.updateReordering_of_lt w.edge (w.timer ▸ hrun) (w.vrUx.trans hux) (by omega) hlt
      rw [w.eq, hkeep, w.timer, w.vrUx]
      exact .inr ⟨rfl, inv.armed (by omega), rfl⟩
  · -- A PDU that is not kept changes nothing.
    have heq : receivePdu s.st header buf = s.st := umReceivePdu_of_not_accepts inv.toUmScale ha
    have hpos : 0 < s.st.rxMod := by rw [inv.rxMod]; omega
    simp only [heq, modDist_self hpos, umExpires, Bool.toNat_false, Nat.add_zero]
    refine ⟨r, h, { toUmRxInv := inv.toUmRxInv, toUmTimerOk := inv.toUmTimerOk,
                    passed := inv.passed }, Nat.le_refl h, ?_⟩
    intro x _ hrx hxh
    exact { passed := Nat.le_refl _, expiries := Nat.le_refl _,
            counts := fun _ => .inr ⟨rfl, inv.armed (by omega), rfl⟩ }

/-- A step of the timer keeps the invariant, and is counted. -/
theorem UmTimedInv.timerStep {s' : UmTimedLog} (inv : UmTimedInv W T s r h) (hT : 0 < T)
    (h32 : T < 2 ^ 32) (hstep : umTimedStep s .timerStep = some s') :
    ∃ r' h', UmTimedInv W T s' r' h' ∧ h ≤ h' ∧
      ∀ x, s.st.vrUx = x % (2 * W) → r < x → x ≤ h → UmTimedMove s s' 1 x := by
  obtain ⟨st', hst, rfl⟩ := Option.map_eq_some_iff.mp hstep
  obtain rfl := Option.some.inj hst
  have hW := inv.cases
  have hpos : 0 < s.st.rxMod := by rw [inv.rxMod]; omega
  cases hon : s.st.reorderingTimer.running with
  | false =>
    -- Nothing is missing, and the step does nothing.
    have heq : stepReorderingTimer s.st = s.st := by
      rw [stepReorderingTimer, Timer.step_of_stopped hon]
      rfl
    have hexp : umExpires s.st .timerStep = false := by rw [umExpires, Timer.step_of_stopped hon]
    simp only [heq, hexp, modDist_self hpos, Bool.toNat_false, Nat.add_zero]
    refine ⟨r, h, { toUmRxInv := inv.toUmRxInv, toUmTimerOk := inv.toUmTimerOk,
                    passed := inv.passed }, Nat.le_refl h, ?_⟩
    intro x _ hrx hxh
    have := inv.armed (by omega)
    rw [hon] at this
    cases this
  | true =>
    obtain ⟨htimeout, hlt⟩ := inv.counter hon
    have hsteps := Timer.step_of_running hon (htimeout ▸ hlt) (htimeout ▸ h32)
    have hrun := inv.isRunning.trans hon
    split at hsteps
    · rename_i hlast
      obtain ⟨x, hux, hrx, hxh, hwx⟩ := inv.timer hrun
      obtain ⟨n, timer', ux, inv', hframe, hxn, -⟩ :=
        inv.after_timerExpired hux hrx hxh hwx s.st.reorderingTimer.expire
      have heq : stepReorderingTimer s.st
          = timerExpired { s.st with reorderingTimer := s.st.reorderingTimer.expire } := by
        rw [stepReorderingTimer, hsteps]
        rfl
      have hexp : umExpires s.st .timerStep = true := by rw [umExpires, hsteps]
      have htr : (timerExpired { s.st with
          reorderingTimer := s.st.reorderingTimer.expire }).tReordering = T := by
        rw [hframe]
        exact (passRound_iterate_same false n _).2.2.trans inv.tReordering
      have hmove : modDist s.st.rxMod (timerExpired { s.st with
          reorderingTimer := s.st.reorderingTimer.expire }).vrUr s.st.vrUr = n := by
        have hedge := inv.edge
        have hle := inv'.r_le
        rw [inv'.vrUr, inv.vrUr, inv.rxMod, modDist_of_le (by omega) (by omega)]
        omega
      simp only [heq, hexp, hmove, Bool.toNat_true]
      refine ⟨r + n, h, { toUmRxInv := inv', passed := by rw [inv.passed], toUmTimerOk :=
        inv'.timerOk_timerExpired hT htr }, Nat.le_refl h, ?_⟩
      intro y _ _ _
      exact { passed := Nat.le_add_right _ _, expiries := Nat.le_succ _,
              counts := fun _ => .inl (Nat.lt_succ_self _) }
    · rename_i hmore
      have heq : stepReorderingTimer s.st = { s.st with reorderingTimer :=
          { s.st.reorderingTimer with counter := s.st.reorderingTimer.counter + 1 } } := by
        rw [stepReorderingTimer, hsteps]
        rfl
      have hexp : umExpires s.st .timerStep = false := by rw [umExpires, hsteps]
      simp only [heq, hexp, modDist_self hpos, Bool.toNat_false, Nat.add_zero]
      refine ⟨r, h, { toUmWindow := inv.toUmWindow.of_eq rfl rfl, edge := inv.edge,
                      missing := inv.missing, top := inv.top, timer := fun _ => inv.timer hrun,
                      tReordering := inv.tReordering, counter := ?_, armed := inv.armed,
                      passed := inv.passed }, Nat.le_refl h, ?_⟩
      · intro _
        exact ⟨htimeout, show s.st.reorderingTimer.counter + 1 < T by omega⟩
      · intro x _ _ _
        exact { passed := Nat.le_refl _, expiries := Nat.le_refl _,
                counts := fun _ => .inr ⟨rfl, hon, rfl⟩ }

/-! ### Runs -/

/-- So every event keeps the invariant, and a running timer goes on counting. -/
theorem UmTimedInv.step {s' : UmTimedLog} {e : UmTimedEvent} (inv : UmTimedInv W T s r h)
    (hT : 0 < T) (h32 : T < 2 ^ 32) (hstep : umTimedStep s e = some s') :
    ∃ r' h', UmTimedInv W T s' r' h' ∧ h ≤ h' ∧
      ∀ x, s.st.vrUx = x % (2 * W) → r < x → x ≤ h →
        UmTimedMove s s' ([e].count .timerStep) x := by
  cases e with
  | writePdu payload => exact inv.writePdu hT hstep
  | timerStep => exact inv.timerStep hT h32 hstep

/-- Neither count goes down in a run. -/
theorem umTimed_mono {s s' : UmTimedLog} {events : List UmTimedEvent}
    (hrun : runTo umTimedStep s events = some s') :
    s.passed ≤ s'.passed ∧ s.expiries ≤ s'.expiries := by
  refine runTo_inv (I := fun s₁ => s.passed ≤ s₁.passed ∧ s.expiries ≤ s₁.expiries)
    (K := fun _ => True) ?_ (fun _ _ => trivial) ⟨Nat.le_refl _, Nat.le_refl _⟩ hrun
  rintro s₁ e s₂ ⟨hp, he⟩ - hstep
  obtain ⟨st, -, rfl⟩ := Option.map_eq_some_iff.mp hstep
  exact ⟨Nat.le_add_right_of_le hp, Nat.le_add_right_of_le he⟩

/-- A timer that runs with `vr_ux` at index `x` expires with the last of the steps that it lacks,
unless `vr_ur` gets to `x` before. -/
theorem UmTimedInv.expires_or_passes {s' : UmTimedLog} {later : List UmTimedEvent} {x : Nat}
    (inv : UmTimedInv W T s r h) (hT : 0 < T) (h32 : T < 2 ^ 32) (hux : s.st.vrUx = x % (2 * W))
    (hrx : r < x) (hxh : x ≤ h) (hrun : runTo umTimedStep s later = some s')
    (hticks : T ≤ s.st.reorderingTimer.counter + later.count .timerStep) :
    s.expiries < s'.expiries ∨ x ≤ s'.passed := by
  induction later generalizing s r h with
  | nil =>
    obtain ⟨-, hlt⟩ := inv.counter (inv.armed (by omega))
    rw [List.count_nil] at hticks
    omega
  | cons e later ih =>
    obtain ⟨s₁, hstep, hrest⟩ := Option.bind_eq_some_iff.mp hrun
    obtain ⟨r', h', inv', hh, hmove⟩ := inv.step hT h32 hstep
    have hmono := umTimed_mono hrest
    have hm := hmove x hux hrx hxh
    have hexp := hm.expiries
    by_cases hlt : s₁.passed < x
    · rcases hm.counts hlt with hgone | ⟨hux', -, hcounter⟩
      · exact .inl (by omega)
      · rw [← List.singleton_append, List.count_append] at hticks
        have hr' := inv'.passed
        rcases ih inv' (hux'.trans hux) (by omega) (by omega) hrest (by omega) with hgone | hpass
        · exact .inl (by omega)
        · exact .inr hpass
    · exact .inr (by omega)

/-- The timer is armed for the gap: it expires after enough steps, if `vr_ur` has not reached
`vr_ux`. -/
theorem UmTimedInv.umArmed (inv : UmTimedInv W T s r h) (hT : 0 < T) (h32 : T < 2 ^ 32) :
    UmArmed T s := by
  intro hgap later s' hrun hticks
  have hW := inv.cases
  have hedge := inv.edge
  -- Different SNs of `vr_ur` and `vr_uh` belong to different indices, so the timer runs.
  have hlt : r < h := by
    refine Nat.lt_of_le_of_ne inv.r_le ?_
    rintro rfl
    exact hgap (inv.vrUr.trans inv.vrUh.symm)
  obtain ⟨x, hux, hrx, hxh, -⟩ := inv.timer (inv.isRunning.trans (inv.armed hlt))
  have hdist : modDist s.st.rxMod s.st.vrUx s.st.vrUr = x - r := by
    rw [hux, inv.vrUr, inv.rxMod, modDist_of_le (by omega) (by omega)]
  rw [hdist, inv.passed, show r + (x - r) = x by omega]
  exact inv.expires_or_passes hT h32 hux hrx hxh hrun (by omega)

end

/-! ### A timeout of 0 ms -/

/-- PDU 1 comes before PDU 0. -/
def pduOne : UmdSnSize → Bytes
  | .size5Bits => [0x01, 7]
  | .size10Bits => [0x00, 0x01, 7]

/-- With a timeout of 0 ms the first step of the timer goes past it. -/
theorem not_umArmed_zero (snSize : UmdSnSize) :
    ∃ s, umTimedStep (umTimedStart snSize 0) (.writePdu (pduOne snSize)) = some s ∧
      ¬UmArmed 0 s := by
  have hrun : ((umTimedStep (umTimedStart snSize 0) (.writePdu (pduOne snSize))).map fun s =>
      (decide (s.st.vrUr ≠ s.st.vrUh), (runTo umTimedStep s [.timerStep]).map fun s' =>
        (decide (s.expiries < s'.expiries),
        decide (s.passed + modDist s.st.rxMod s.st.vrUx s.st.vrUr
          ≤ s'.passed)))) = some (true, some (false, false)) := by
    cases snSize <;> decide +kernel
  obtain ⟨s, hs, heq⟩ := Option.map_eq_some_iff.mp hrun
  rw [Prod.mk.injEq, decide_eq_true_eq] at heq
  obtain ⟨s', hs', hout⟩ := Option.map_eq_some_iff.mp heq.2
  rw [Prod.mk.injEq, decide_eq_false_iff_not, decide_eq_false_iff_not] at hout
  refine ⟨s, hs, fun harmed => ?_⟩
  rcases harmed heq.1 _ s' hs' (by decide) with hexp | hpass
  · exact hout.1 hexp
  · exact hout.2 hpass

/-- RLC UM does not stall on a gap exactly if `t_reordering` is not 0 ms. -/
theorem umNoStall_iff (snSize : UmdSnSize) (tReordering : UInt32) :
    UmNoStall snSize tReordering.toNat ↔ 0 < tReordering.toNat := by
  constructor
  · intro hstall
    refine Nat.pos_of_ne_zero fun h0 => ?_
    rw [h0] at hstall
    obtain ⟨s, hs, hnot⟩ := not_umArmed_zero snSize
    exact hnot (hstall [] _ (.writePdu (pduOne snSize)) s rfl (.inl UmTimedEvent.noConfusion) hs)
  · intro hT events s e s' hrun _ hstep
    have h32 := tReordering.toNat_lt
    have hrun' : runTo umTimedStep (umTimedStart snSize tReordering.toNat) (events ++ [e])
        = some s' := by
      rw [runTo_append, hrun]
      simp [runTo, hstep]
    have hinv : ∃ r h, UmTimedInv (umWidth snSize) tReordering.toNat s' r h := by
      refine runTo_inv (I := fun s => ∃ r h, UmTimedInv (umWidth snSize) tReordering.toNat s r h)
        (K := fun _ => True) ?_ (fun _ _ => trivial)
        ⟨0, 0, umTimedInv_start snSize tReordering.toNat⟩ hrun'
      rintro s e s' ⟨r, h, inv⟩ - hstep
      obtain ⟨r', h', inv', -⟩ := inv.step hT h32 hstep
      exact ⟨r', h', inv'⟩
    obtain ⟨r, h, inv⟩ := hinv
    exact inv.umArmed hT h32

/-- PDU 1 comes before PDU 0 with a timeout of 0 ms, and the first step of the timer does not call
`timer_expired`. -/
theorem umStall_zero : ∃ s,
    runTo umTimedStep (umTimedStart .size5Bits 0) [.writePdu [0x01, 7]] = some s ∧
      ¬UmArmed 0 s := by
  obtain ⟨s, hs, hnot⟩ := not_umArmed_zero .size5Bits
  refine ⟨s, ?_, hnot⟩
  have hs' : umTimedStep (umTimedStart .size5Bits 0) (.writePdu [0x01, 7]) = some s := hs
  simp [runTo, hs']

end SrsUE.Proofs.Rlc
