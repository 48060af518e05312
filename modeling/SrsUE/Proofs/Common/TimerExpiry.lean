import SrsUE.Common.TimerCalls
import SrsUE.Lib.Run

/-!
# `SrsUE.Proofs.Common.TimerExpiry`: a timer that is started expires

`step` compares the counter with the timeout for equality, and only `set` and `reset` clear the
counter. When a timer has expired, its counter is at the timeout. If it is then started without
being reset, the next step takes the counter past the timeout, and the timer neither runs nor
expires any more.

* `Sane`: the counter is not past the timeout. `Sane.apply` keeps it, as long as no step is made at
  the timeout.
* `invocations_started`: from such a state the callback is invoked once, by the step that reaches
  the timeout.
* `expires_iff`: whatever calls are made, the timer does what it should exactly when no step is made
  at the timeout.
-/

set_option autoImplicit false

namespace SrsUE.Proofs.Common

open SrsUE.Common SrsUE.Lib
open SrsUE.Rlc (Timer add32 add32_of_lt)

/-! ### Statements -/

/-- What a timer does along calls: it runs or has expired, never both; when it has been started, as
many steps as its timeout has invoke the callback once; and while it is stopped, the callback is not
invoked. -/
structure Expires (t : Timer) (cs : List TimerCall) : Prop where
  complementary : ∀ pre, pre <+: cs →
    ((timerAfter t pre).isRunning = true ↔ ¬(timerAfter t pre).isExpired = true)
  once : ∀ pre w, pre ++ .op .run :: w <+: cs → (∀ c ∈ w, c = .op .run ∨ c = .step) →
    w.count .step = (timerAfter t pre).timeout →
    invocations (timerAfter t (pre ++ [.op .run])) w = 1
  stopped : ∀ pre w, pre ++ .op .stop :: w <+: cs → .op .run ∉ w →
    invocations (timerAfter t (pre ++ [.op .stop])) w = 0

/-- The timer runs although its counter has reached the timeout: it has expired, and was started
again without a `set` or `reset`. -/
def AtTimeout (t : Timer) : Prop := t.running = true ∧ t.counter = t.timeout

instance (t : Timer) : Decidable (AtTimeout t) := inferInstanceAs (Decidable (_ ∧ _))

/-- One call, as a step of a machine. -/
def timerStep (t : Timer) (c : TimerCall) : Option Timer := some (c.apply t).1

/-- The call is not a `step` at the timeout. -/
def InTime (t : Timer) (c : TimerCall) : Prop := c = .step → ¬AtTimeout t

/-- Every timeout is a positive 32-bit number. -/
def ValidOp (o : TimerOp) : Prop := ∀ timeout, o = .set timeout → 1 ≤ timeout ∧ timeout < 2 ^ 32

/-! ### The calls -/

section
variable {t : Timer} {c : TimerCall} {cs : List TimerCall}

/-- Calls one after the other. -/
theorem timerAfter_append (t : Timer) (cs ds : List TimerCall) :
    timerAfter t (cs ++ ds) = timerAfter (timerAfter t cs) ds := List.foldl_append ..

/-- Every call is defined. -/
theorem runTo_timerStep (t : Timer) (cs : List TimerCall) :
    runTo timerStep t cs = some (timerAfter t cs) := by
  induction cs generalizing t with
  | nil => rfl
  | cons c cs ih => exact ih (c.apply t).1

/-- A call invokes the callback only in `step`, and the steps are those of the users. -/
theorem count_callsMade (t : Timer) (us : List TimerUse) :
    (callsMade t us).count .step = us.countP TimerUse.isStep := by
  induction us generalizing t with
  | nil => rfl
  | cons u us ih =>
    have hcallback : ∀ os : List TimerOp, (os.map TimerCall.op).count .step = 0 := by
      intro os
      refine List.count_eq_zero.mpr fun hmem => ?_
      obtain ⟨o, -, ho⟩ := List.mem_map.mp hmem
      cases ho
    rw [callsMade, List.count_append, ih, List.countP_cons, Nat.add_comm]
    cases u with
    | op o => rfl
    | step callback =>
      rw [TimerUse.calls, List.count_cons]
      split
      · rw [hcallback]
        rfl
      · rfl

/-- The calls that are made are valid when the operations are. -/
theorem valid_callsMade {us : List TimerUse} (h : ∀ u ∈ us, ∀ o ∈ u.ops, ValidOp o) (t : Timer) :
    ∀ o, .op o ∈ callsMade t us → ValidOp o := by
  induction us generalizing t with
  | nil => exact fun o ho => absurd ho (List.not_mem_nil)
  | cons u us ih =>
    obtain ⟨hu, hus⟩ := List.forall_mem_cons.mp h
    intro o ho
    rcases List.mem_append.mp ho with hcall | hrest
    · refine hu o ?_
      cases u with
      | op o' =>
        obtain rfl := TimerCall.op.inj (List.mem_singleton.mp hcall)
        exact List.mem_singleton_self o
      | step callback =>
        rcases List.mem_cons.mp hcall with hstep | hcallback
        · cases hstep
        · split at hcallback
          · obtain ⟨o', ho', heq⟩ := List.mem_map.mp hcallback
            obtain rfl := TimerCall.op.inj heq
            exact ho'
          · cases hcallback
    · exact ih hus _ o hrest

/-! ### Steps -/

/-- The counter is not past the timeout. -/
structure Sane (t : Timer) : Prop where
  counter : t.counter ≤ t.timeout
  pos : 1 ≤ t.timeout
  lt : t.timeout < 2 ^ 32

/-- A timer that is stopped does not count. -/
theorem step_stopped (h : t.running = false) : t.step = (t, false) := by
  rw [Timer.step, if_neg (by rw [h]; exact Bool.false_ne_true)]

/-- A step before the last one counts. -/
theorem Sane.step_waiting (h : Sane t) (hrun : t.running = true) (hlt : t.counter + 1 < t.timeout) :
    t.step = ({ t with counter := t.counter + 1 }, false) := by
  have hadd : add32 t.counter 1 = t.counter + 1 := add32_of_lt (by have := h.lt; omega)
  have hnot : ({ t with counter := t.counter + 1 } : Timer).isExpired = false := by
    rw [Timer.isExpired, hrun, decide_eq_false (by dsimp only; omega)]
    rfl
  rw [Timer.step, if_pos hrun, hadd]
  dsimp only
  rw [hnot, if_neg Bool.false_ne_true]

/-- The last one invokes the callback. -/
theorem Sane.step_last (h : Sane t) (hrun : t.running = true) (heq : t.counter + 1 = t.timeout) :
    t.step = (t.expire, true) := by
  have hadd : add32 t.counter 1 = t.timeout := by
    rw [← heq]
    exact add32_of_lt (by have := h.lt; omega)
  have hexpired : ({ t with counter := t.timeout } : Timer).isExpired = true := by
    rw [Timer.isExpired, decide_eq_true rfl]
    rfl
  rw [Timer.step, if_pos hrun, hadd]
  dsimp only
  rw [hexpired, if_pos rfl]
  rfl

/-- A running timer is below its timeout until it expires. -/
theorem Sane.counter_lt (h : Sane t) (hrun : t.running = true) (hin : ¬AtTimeout t) :
    t.counter < t.timeout :=
  Nat.lt_of_le_of_ne h.counter fun heq => hin ⟨hrun, heq⟩

/-- A call in time keeps the counter in its range. -/
theorem Sane.apply (h : Sane t) (hin : InTime t c) (hvalid : ∀ o, c = .op o → ValidOp o) :
    Sane (c.apply t).1 := by
  cases c with
  | op o =>
    cases o with
    | set timeout =>
      obtain ⟨hpos, hlt⟩ := hvalid _ rfl timeout rfl
      exact ⟨Nat.zero_le _, hpos, hlt⟩
    | reset => exact ⟨Nat.zero_le _, h.pos, h.lt⟩
    | run => exact ⟨h.counter, h.pos, h.lt⟩
    | stop => exact ⟨h.counter, h.pos, h.lt⟩
  | step =>
    show Sane t.step.1
    cases hrun : t.running with
    | false =>
      rw [step_stopped hrun]
      exact h
    | true =>
      have hlt := h.counter_lt hrun (hin rfl)
      -- The step is the last one, or the timer waits on.
      rcases Nat.eq_or_lt_of_le (Nat.succ_le_of_lt hlt) with heq | hmore
      · rw [h.step_last hrun heq]
        exact ⟨Nat.le_refl _, h.pos, h.lt⟩
      · rw [h.step_waiting hrun hmore]
        exact ⟨hlt, h.pos, h.lt⟩

/-- The timer runs or has expired. -/
theorem Sane.complementary (h : Sane t) : t.isRunning = true ↔ ¬t.isExpired = true := by
  have hcounter := h.counter
  unfold Timer.isRunning Timer.isExpired
  cases t.running with
  | false => simp
  | true =>
    simp only [Bool.and_true, Bool.not_true, Bool.or_false, decide_eq_true_eq]
    omega

/-! ### Runs -/

/-- The counter stays in its range. Induction on the calls. -/
theorem sane_timerAfter (h : Sane t) (hin : Throughout timerStep InTime t cs)
    (hvalid : ∀ o, .op o ∈ cs → ValidOp o) : Sane (timerAfter t cs) := by
  induction cs generalizing t with
  | nil => exact h
  | cons c cs ih =>
    obtain ⟨hc, hrest⟩ := hin
    refine ih (h.apply hc fun o ho => hvalid o (by rw [ho]; exact List.mem_cons_self ..))
      (hrest _ rfl) fun o ho => hvalid o (List.mem_cons_of_mem c ho)

/-- Nothing is invoked once the timer has expired. It may be started, but a step would then be at
the timeout. -/
theorem invocations_expired (hcounter : t.counter = t.timeout)
    (hin : Throughout timerStep InTime t cs) (hcs : ∀ c ∈ cs, c = .op .run ∨ c = .step) :
    invocations t cs = 0 ∧ (t.running = true → cs.count .step = 0) := by
  -- An expired timer that runs may not be stepped, and one that is stopped does nothing.
  induction cs generalizing t with
  | nil => exact ⟨rfl, fun _ => rfl⟩
  | cons c cs ih =>
    obtain ⟨hc, hrest⟩ := hin
    obtain ⟨hkind, hcs'⟩ := List.forall_mem_cons.mp hcs
    rcases hkind with rfl | rfl
    · obtain ⟨hnone, hcount⟩ := ih (t := t.run) hcounter (hrest _ rfl) hcs'
      refine ⟨?_, fun _ => ?_⟩
      · rw [invocations]
        exact (Nat.zero_add _).trans hnone
      · rw [List.count_cons_of_ne (by decide)]
        exact hcount rfl
    · have hstopped : t.running = false := by
        cases hrun : t.running with
        | false => rfl
        | true => exact absurd ⟨hrun, hcounter⟩ (hc rfl)
      have hstep : TimerCall.step.apply t = (t, false) := step_stopped hstopped
      have hrest' := hrest _ rfl
      rw [hstep] at hrest'
      refine ⟨?_, fun hrun => absurd hrun (by rw [hstopped]; exact Bool.false_ne_true)⟩
      rw [invocations, hstep]
      exact (Nat.zero_add _).trans (ih hcounter hrest' hcs').1

/-- The callback is invoked by the step that reaches the timeout, and not again. -/
theorem invocations_started (h : Sane t) (hrun : t.running = true) (hlt : t.counter < t.timeout)
    (hin : Throughout timerStep InTime t cs) (hcs : ∀ c ∈ cs, c = .op .run ∨ c = .step) :
    invocations t cs = if t.timeout - t.counter ≤ cs.count .step then 1 else 0 := by
  -- Each step takes one from what is left. The one that uses it up invokes the callback.
  induction cs generalizing t with
  | nil => rw [List.count_nil, if_neg (by omega)]; rfl
  | cons c cs ih =>
    obtain ⟨hc, hrest⟩ := hin
    obtain ⟨hkind, hcs'⟩ := List.forall_mem_cons.mp hcs
    have hrest' := hrest _ rfl
    rcases hkind with rfl | rfl
    · have hsame : TimerCall.apply (.op .run) t = (t, false) := by
        show (t.run, false) = (t, false)
        rw [Timer.run, ← hrun]
      rw [hsame] at hrest'
      rw [invocations, hsame, List.count_cons_of_ne (by decide)]
      exact (Nat.zero_add _).trans (ih h hrun hlt hrest' hcs')
    · rcases Nat.eq_or_lt_of_le (Nat.succ_le_of_lt hlt) with heq | hmore
      · have hstep : TimerCall.step.apply t = (t.expire, true) := h.step_last hrun heq
        rw [hstep] at hrest'
        rw [invocations, hstep, List.count_cons_self,
          (invocations_expired (t := t.expire) rfl hrest' hcs').1, if_pos (by omega)]
        rfl
      · have hstep : TimerCall.step.apply t = ({ t with counter := t.counter + 1 }, false) :=
          h.step_waiting hrun hmore
        rw [hstep] at hrest'
        have hnext := ih (t := { t with counter := t.counter + 1 }) ⟨hlt, h.pos, h.lt⟩ hrun hmore
          hrest' hcs'
        rw [invocations, hstep, List.count_cons_self]
        refine (Nat.zero_add _).trans (hnext.trans ?_)
        exact if_congr (by dsimp only; omega) rfl rfl

/-- A timer that is stopped invokes nothing until it is started. -/
theorem invocations_stopped (h : t.running = false) (hcs : .op .run ∉ cs) :
    invocations t cs = 0 := by
  induction cs generalizing t with
  | nil => rfl
  | cons c cs ih =>
    obtain ⟨hne, hcs'⟩ := not_or.mp fun hor => hcs (List.mem_cons.mpr hor)
    rw [invocations]
    cases c with
    | op o =>
      refine (Nat.zero_add _).trans (ih ?_ hcs')
      cases o with
      | set timeout => exact h
      | reset => exact h
      | run => exact absurd rfl hne
      | stop => rfl
    | step =>
      have hstep : TimerCall.step.apply t = (t, false) := step_stopped h
      rw [hstep]
      exact (Nat.zero_add _).trans (ih h hcs')

/-- The counter is at most the number of steps. -/
theorem counter_le (t : Timer) (cs : List TimerCall) :
    (timerAfter t cs).counter ≤ t.counter + cs.count .step := by
  -- Only a step counts, and it counts by one.
  induction cs generalizing t with
  | nil => exact Nat.le_refl _
  | cons c cs ih =>
    have hrest := ih (c.apply t).1
    refine Nat.le_trans hrest ?_
    cases c with
    | op o =>
      rw [List.count_cons_of_ne (by intro h; cases h)]
      have hop : (o.apply t).counter ≤ t.counter := by
        cases o with
        | set timeout => exact Nat.zero_le _
        | reset => exact Nat.zero_le _
        | run => exact Nat.le_refl _
        | stop => exact Nat.le_refl _
      exact Nat.add_le_add_right hop _
    | step =>
      have hstep : t.step.1.counter ≤ t.counter + 1 := by
        have hadd : add32 t.counter 1 ≤ t.counter + 1 := Nat.mod_le ..
        unfold Timer.step
        split
        · dsimp only
          split
          · exact hadd
          · exact hadd
        · exact Nat.le_succ _
      rw [List.count_cons_self]
      show t.step.1.counter + cs.count .step ≤ _
      omega

/-- Without a step at the timeout the timer does what it should. -/
theorem Sane.expires (h : Sane t) (hin : Throughout timerStep InTime t cs)
    (hvalid : ∀ o, .op o ∈ cs → ValidOp o) : Expires t cs := by
  have hreached : ∀ pre rest, pre ++ rest = cs →
      Sane (timerAfter t pre) ∧ Throughout timerStep InTime (timerAfter t pre) rest := by
    rintro pre rest rfl
    obtain ⟨hpre, hrest⟩ := (throughout_append (runTo_timerStep t pre)).mp hin
    exact ⟨sane_timerAfter h hpre fun o ho => hvalid o (List.mem_append_left rest ho), hrest⟩
  refine { complementary := ?_, once := ?_, stopped := ?_ }
  · rintro pre ⟨rest, hpre⟩
    exact (hreached pre rest hpre).1.complementary
  · rintro pre w ⟨rest, hpre⟩ hw hcount
    have hsplit : (pre ++ [.op .run]) ++ (w ++ rest) = cs := by
      rw [← hpre]
      simp
    have hbefore := (hreached pre (.op .run :: w ++ rest) (by rw [← hpre]; simp)).1
    obtain ⟨hsane, hrest⟩ := hreached _ _ hsplit
    have hw' := ((throughout_append (runTo_timerStep _ w)).mp hrest).1
    have hstart : timerAfter t (pre ++ [.op .run]) = (timerAfter t pre).run := timerAfter_append ..
    rw [hstart] at hsane hw' ⊢
    have hcounter := hbefore.counter
    have hpos := hbefore.pos
    rcases Nat.eq_or_lt_of_le hcounter with heq | hlt
    · -- It was started at the timeout, but then there is no step.
      have hnone := (invocations_expired (t := (timerAfter t pre).run) heq hw' hw).2 rfl
      omega
    · rw [invocations_started hsane rfl hlt hw' hw]
      exact if_pos (hcount.symm ▸ Nat.sub_le ..)
  · rintro pre w - hw
    have hstop : timerAfter t (pre ++ [.op .stop]) = (timerAfter t pre).stop := timerAfter_append ..
    rw [hstop]
    exact invocations_stopped rfl hw

/-- A step at the timeout leaves a timer that neither runs nor has expired. -/
theorem not_complementary (h : AtTimeout t) (hlt : t.timeout + 1 < 2 ^ 32) :
    t.step.1.isRunning = false ∧ t.step.1.isExpired = false := by
  obtain ⟨hrun, hcounter⟩ := h
  have hadd : add32 t.counter 1 = t.timeout + 1 := by
    rw [hcounter]
    exact Nat.mod_eq_of_lt hlt
  have hne : ({ t with counter := t.timeout + 1 } : Timer).isExpired = false := by
    rw [Timer.isExpired, hrun, decide_eq_false (by dsimp only; omega)]
    rfl
  have hstep : t.step = ({ t with counter := t.timeout + 1 }, false) := by
    rw [Timer.step, if_pos hrun, hadd]
    dsimp only
    rw [hne, if_neg Bool.false_ne_true]
  rw [hstep]
  refine ⟨?_, hne⟩
  rw [Timer.isRunning, decide_eq_false (by dsimp only; omega)]
  rfl

/-- A timer that expires did so in time, when there are fewer than `2 ^ 32` steps. -/
theorem Expires.inTime (h : Expires t cs) (hzero : t.counter = 0)
    (hsteps : cs.count .step < 2 ^ 32) :
    Throughout timerStep InTime t cs := by
  refine throughout_of_splits fun pre c post t' hsplit hrun hc hat => ?_
  obtain rfl := Option.some.inj ((runTo_timerStep t pre).symm.trans hrun)
  rw [hc] at hsplit
  -- The counter has counted steps only, so there is room for one more.
  have hle := counter_le t pre
  have hcount : pre.count .step + 1 ≤ cs.count .step := by
    rw [hsplit, List.count_append, List.count_cons_self]
    omega
  have hlt : (timerAfter t pre).timeout + 1 < 2 ^ 32 := by
    have hcounter := hat.2
    omega
  obtain ⟨hrunning, hexpired⟩ := not_complementary hat hlt
  have hafter : timerAfter t (pre ++ [.step]) = (timerAfter t pre).step.1 := timerAfter_append ..
  have hboth := h.complementary (pre ++ [.step]) ⟨post, by rw [hsplit]; simp⟩
  rw [hafter, hrunning, hexpired] at hboth
  exact Bool.false_ne_true (hboth.mpr Bool.false_ne_true)

end

/-! ### Results -/

/-- With fewer than `2 ^ 32` steps, a timer that was set does what it should exactly when no step is
made at the timeout. -/
theorem expires_iff {timeout : Nat} (htimeout : ValidOp (.set timeout)) {us : List TimerUse}
    (hvalid : ∀ u ∈ us, ∀ o ∈ u.ops, ValidOp o) (hsteps : us.countP TimerUse.isStep < 2 ^ 32) :
    Expires (({} : Timer).set timeout) (callsMade (({} : Timer).set timeout) us) ↔
      Throughout timerStep InTime (({} : Timer).set timeout)
        (callsMade (({} : Timer).set timeout) us) := by
  obtain ⟨hpos, hlt⟩ := htimeout timeout rfl
  constructor
  · intro h
    refine h.inTime rfl ?_
    rw [count_callsMade]
    exact hsteps
  · intro hin
    exact Sane.expires ⟨Nat.zero_le _, hpos, hlt⟩ hin (valid_callsMade hvalid _)

/-- A timer of two steps whose callback resets and starts it again. -/
theorem expires_iff_restarted :
    Expires (({} : Timer).set 2)
      (callsMade (({} : Timer).set 2) [.op .run, .step [], .step [.reset, .run], .step [],
      .op .stop]) := by
  have hset : ∀ timeout, 1 ≤ timeout → timeout < 2 ^ 32 → ValidOp (.set timeout) := by
    intro timeout hpos hlt timeout' heq
    obtain rfl := TimerOp.set.inj heq
    exact ⟨hpos, hlt⟩
  have hother : ∀ o ∈ [TimerOp.run, .reset, .stop], ValidOp o := by
    intro o ho timeout heq
    rw [heq] at ho
    simp at ho
  have hops : ∀ u ∈ [TimerUse.op .run, .step [], .step [.reset, .run], .step [], .op .stop],
      ∀ o ∈ u.ops, o ∈ [TimerOp.run, .reset, .stop] := by decide
  refine (expires_iff (hset 2 (by decide) (by decide)) (fun u hu o ho => hother o (hops u hu o ho))
    (by decide)).mpr ?_
  simp [Throughout, callsMade, TimerUse.calls, timerStep, InTime, AtTimeout, timerAfter,
    TimerCall.apply, TimerOp.apply, Timer.step, Timer.set, Timer.run, Timer.stop, Timer.isExpired,
    add32]

/-- A timer of one step that has expired and is started again: its callback is not invoked, and
after the step the timer neither runs nor has expired. -/
theorem not_expires :
    callsMade (({} : Timer).set 1) [.op .run, .step [], .op .run, .step []]
        = [.op .run, .step, .op .run, .step] ∧
      ¬Expires (({} : Timer).set 1)
        (callsMade (({} : Timer).set 1) [.op .run, .step [], .op .run, .step []]) := by
  refine ⟨by decide, fun h => ?_⟩
  have honce := h.once [.op .run, .step] [.step] (by decide) (by decide) (by decide)
  exact absurd honce (by decide)

end SrsUE.Proofs.Common
