import SrsUE.Lib.Run
import SrsUE.Mac.SrProc

/-!
# `SrsUE.Proofs.Mac.SrSchedule`: when a scheduling request is signalled

A pending SR is signalled for the first time in the next step. After that each step should do
something exactly when more than eight TTIs have passed since the last transmission, counted modulo
10240.

* `needTx_eq_iff`: the TTIs for which `need_tx` says that.
* `SrRunInv.step`: every call signals at most as often as it may, and releases and asks for a random
  access at most once.
* `schedule_iff`: a run keeps the schedule exactly when no step of an SR that was signalled is at a
  TTI for which `need_tx` is wrong.
-/

set_option autoImplicit false

namespace SrsUE.Proofs.Mac

open SrsUE.Mac SrsUE.Lib
open SrsUE.Rlc (sub32 sub32_of_le)

/-! ### The time that has passed -/

/-- More than eight TTIs have passed since the last transmission. -/
def Due (lastTxTti : Int) (tti : Nat) : Prop :=
  0 ≤ lastTxTti ∧ 8 < ((tti : Int) - lastTxTti) % 10240

instance (lastTxTti : Int) (tti : Nat) : Decidable (Due lastTxTti tti) :=
  inferInstanceAs (Decidable (_ ∧ _))

/-- What PHY answers: -1 or a TTI. -/
def IsLastTx (lastTxTti : Int) : Prop := lastTxTti = -1 ∨ 0 ≤ lastTxTti ∧ lastTxTti < 10240

instance (lastTxTti : Int) : Decidable (IsLastTx lastTxTti) :=
  inferInstanceAs (Decidable (_ ∨ _))

/-- The TTIs for which `need_tx` is wrong: those from 8 on that are before the last transmission,
and the first eight when they are the last transmission. -/
def Misjudged (lastTxTti : Int) (tti : Nat) : Prop :=
  (8 ≤ tti ∧ (tti : Int) < lastTxTti) ∨ ((tti : Int) = lastTxTti ∧ tti < 8)

instance (lastTxTti : Int) (tti : Nat) : Decidable (Misjudged lastTxTti tti) :=
  inferInstanceAs (Decidable (_ ∨ _))

/-- When `need_tx` asks for a transmission: the last one is long enough ago, around the end of the
TTIs as the code counts. -/
theorem needTx_iff {lastTxTti : Int} {tti : Nat} (hlast : IsLastTx lastTxTti) (htti : tti < 10240) :
    SrProc.needTx lastTxTti tti = true ↔
      0 ≤ lastTxTti ∧ (lastTxTti + 8 < tti ∨
        tti ≤ lastTxTti ∧ tti < 8 ∧ 8 < 10240 - lastTxTti + tti) := by
  rcases hlast with rfl | ⟨h0, hlt⟩
  · simp [SrProc.needTx]
  · have hlast : toUint32 lastTxTti = lastTxTti.toNat := by
      rw [toUint32]
      omega
    have hinterval : toUint32 (10240 - lastTxTti) = (10240 - lastTxTti).toNat := by
      rw [toUint32]
      omega
    rw [SrProc.needTx, if_pos h0, hlast, hinterval]
    split
    · rename_i hgt
      rw [decide_eq_true_eq, sub32_of_le (by omega)]
      omega
    · dsimp only
      rw [Bool.and_eq_true, decide_eq_true_eq, decide_eq_true_eq]
      omega

/-- Everywhere else `need_tx` is right. -/
theorem needTx_eq_iff {lastTxTti : Int} {tti : Nat} (hlast : IsLastTx lastTxTti)
    (htti : tti < 10240) :
    SrProc.needTx lastTxTti tti = decide (Due lastTxTti tti) ↔ ¬Misjudged lastTxTti tti := by
  rw [Bool.eq_iff_iff, needTx_iff hlast htti, decide_eq_true_eq, Due, Misjudged]
  rcases hlast with rfl | ⟨h0, hlt⟩
  · omega
  · have hback : (tti : Int) < lastTxTti →
        ((tti : Int) - lastTxTti) % 10240 = 10240 - lastTxTti + tti := by omega
    have hahead : lastTxTti ≤ tti → ((tti : Int) - lastTxTti) % 10240 = tti - lastTxTti := by omega
    rcases lt_or_ge (tti : Int) lastTxTti with hlt' | hge
    · rw [hback hlt']
      omega
    · rw [hahead hge]
      omega

/-! ### The schedule -/

/-- What a step does for an SR that was signalled some times. -/
def scheduled (transmax signals : Nat) (due : Bool) : List SrAct :=
  if signals = 0 then [.srSend]
  else if due then
    if signals < transmax then [.srSend] else [.releasePucchSrs, .startRa]
  else []

/-- A call keeps the schedule. A pending SR is signalled at most so many times, and at most one
release and one random access come after that. A step does what is due, and a second start changes
nothing. -/
def KeepsSchedule (transmax : Nat) (s : SrRun) (e : SrEvent) (s' : SrRun) : Prop :=
  s'.signals ≤ transmax ∧ s'.releases ≤ 1 ∧ s'.requests = s'.releases ∧
    match e with
    | .step lastTxTti =>
      s'.acts =
        (if s.sr.isPendingSr then scheduled transmax s.signals (Due lastTxTti s.tti) else []) ∧
        s'.sr.isPendingSr = (s.sr.isPendingSr && !s'.acts.contains .releasePucchSrs)
    | .start => s.sr.isPendingSr = true → s' = { s with acts := [] }
    | .reset => s'.sr.isPendingSr = false

/-- The step is not at a TTI where `need_tx` is wrong about an SR that was signalled. -/
def NotMisjudged (s : SrRun) : SrEvent → Prop
  | .step lastTxTti => s.sr.isPendingSr = true → s.signals ≠ 0 → ¬Misjudged lastTxTti s.tti
  | _ => True

/-- A call with an answer of PHY. -/
def ValidEvent : SrEvent → Prop
  | .step lastTxTti => IsLastTx lastTxTti
  | _ => True

instance (transmax : Nat) (s : SrRun) (e : SrEvent) (s' : SrRun) :
    Decidable (KeepsSchedule transmax s e s') :=
  match e with
  | .step _ => inferInstanceAs (Decidable (_ ∧ _ ∧ _ ∧ _))
  | .start => inferInstanceAs (Decidable (_ ∧ _ ∧ _ ∧ _))
  | .reset => inferInstanceAs (Decidable (_ ∧ _ ∧ _ ∧ _))

instance (s : SrRun) (e : SrEvent) : Decidable (NotMisjudged s e) :=
  match e with
  | .step _ => inferInstanceAs (Decidable (_ → _ → ¬_))
  | .start => isTrue trivial
  | .reset => isTrue trivial

instance (e : SrEvent) : Decidable (ValidEvent e) :=
  match e with
  | .step lastTxTti => inferInstanceAs (Decidable (IsLastTx lastTxTti))
  | .start => isTrue trivial
  | .reset => isTrue trivial

/-- The counter counts the signals of a pending SR, which was not released. -/
structure SrRunInv (transmax : Nat) (s : SrRun) : Prop where
  tti : s.tti < 10240
  initiated : s.sr.initiated = true
  doRa : s.sr.doRa = false
  counter : s.sr.isPendingSr = true →
    s.sr.srCounter = s.signals ∧ s.sr.dsrTransmax = transmax ∧ s.releases = 0 ∧ s.requests = 0
  signals : s.signals ≤ transmax
  releases : s.releases ≤ 1
  requests : s.requests = s.releases

section
variable {transmax : Nat} {s s' : SrRun}

/-- The state after a step with some acts. -/
def afterStep (s : SrRun) (acts : List SrAct) : SrRun :=
  { s with
    sr := { s.sr with
      srCounter := s.sr.srCounter + acts.count SrAct.srSend
      isPendingSr := s.sr.isPendingSr && !acts.contains .releasePucchSrs }
    tti := (s.tti + 1) % 10240 }.record acts

/-- A step of a pending SR does what `need_tx` says. -/
theorem SrRunInv.step_eq (h : SrRunInv transmax s) (hpos : 1 ≤ transmax) (hmax : transmax < 2 ^ 32)
    (lastTxTti : Int) :
    SrRun.step transmax s (.step lastTxTti) = some (afterStep s
      (if s.sr.isPendingSr then scheduled transmax s.signals (SrProc.needTx lastTxTti s.tti)
      else [])) := by
  obtain ⟨⟨srCounter, dsrTransmax, isPendingSr, initiated, doRa⟩, tti, signals, releases, requests,
    acts⟩
    := s
  obtain ⟨-, hinit, hdoRa, hcounter, hsignals, -, -⟩ := h
  dsimp only at hinit hdoRa hcounter hsignals
  subst hinit hdoRa
  cases isPendingSr with
  | false => rfl
  | true =>
    obtain ⟨rfl, rfl, -, -⟩ := hcounter rfl
    by_cases hzero : srCounter = 0
    · subst hzero
      simp [SrRun.step, SrProc.step, SrProc.needRandomAccess, scheduled, afterStep,
        Nat.lt_of_lt_of_le Nat.zero_lt_one hpos]
    · by_cases hlt : srCounter < dsrTransmax
      · -- The counter is below an unsigned number, so it does not wrap.
        have hwrap : (srCounter + 1) % 4294967296 = srCounter + 1 := by omega
        cases hneed : SrProc.needTx lastTxTti tti
        · simp [SrRun.step, SrProc.step, SrProc.needRandomAccess, scheduled, afterStep, hzero, hlt,
            hneed]
        · simp [SrRun.step, SrProc.step, SrProc.needRandomAccess, scheduled, afterStep, hzero, hlt,
            hneed, hwrap]
      · cases hneed : SrProc.needTx lastTxTti tti <;>
          simp [SrRun.step, SrProc.step, SrProc.needRandomAccess, scheduled, afterStep, hzero, hlt,
            hneed]

/-- Whatever is taken to be due, a step signals within the limit and releases once. -/
theorem SrRunInv.afterStep (h : SrRunInv transmax s) (hpos : 1 ≤ transmax) (due : Bool) :
    SrRunInv transmax
      (afterStep s (if s.sr.isPendingSr then scheduled transmax s.signals due else [])) := by
  obtain ⟨htti, hinit, hdoRa, hcounter, hsignals, hreleases, hrequests⟩ := h
  have htti' : (s.tti + 1) % 10240 < 10240 := Nat.mod_lt _ (by decide)
  cases hpending : s.sr.isPendingSr with
  | false =>
    refine ⟨htti', hinit, hdoRa, fun hp => ?_, hsignals, hreleases, hrequests⟩
    simp [Proofs.Mac.afterStep, SrRun.record, hpending] at hp
  | true =>
    obtain ⟨hcount, hmax, hrel, hreq⟩ := hcounter hpending
    have hsignal : s.signals < transmax →
        SrRunInv transmax (Proofs.Mac.afterStep s [.srSend]) := fun hlt =>
      ⟨htti', hinit, hdoRa, fun _ => ⟨congrArg (· + 1) hcount, hmax, hrel, hreq⟩, hlt, hreleases,
        hrequests⟩
    rw [if_pos rfl, scheduled]
    split
    · exact hsignal (by omega)
    · split
      · split
        · rename_i hlt
          exact hsignal hlt
        · refine ⟨htti', hinit, hdoRa, fun hp => ?_, hsignals, ?_, ?_⟩
          · simp [Proofs.Mac.afterStep, SrRun.record] at hp
          · show s.releases + 1 ≤ 1
            omega
          · show s.requests + 1 = s.releases + 1
            omega
      · exact ⟨htti', hinit, hdoRa, fun _ => ⟨hcount, hmax, hrel, hreq⟩, hsignals, hreleases,
          hrequests⟩

/-- Once an SR was signalled, what is scheduled tells whether one was due. -/
theorem scheduled_inj {signals : Nat} (h : signals ≠ 0) {due due' : Bool} :
    scheduled transmax signals due = scheduled transmax signals due' ↔ due = due' := by
  rw [scheduled, scheduled, if_neg h, if_neg h]
  cases due <;> cases due' <;> by_cases hlt : signals < transmax <;> simp [hlt]

/-- A start keeps the invariant, and does nothing while a request is pending. -/
theorem SrRunInv.start (h : SrRunInv transmax s) (hpos : 1 ≤ transmax)
    (hstep : SrRun.step transmax s .start = some s') :
    SrRunInv transmax s' ∧ (s.sr.isPendingSr = true → s' = { s with acts := [] }) := by
  obtain rfl := Option.some.inj hstep
  obtain ⟨⟨srCounter, dsrTransmax, isPendingSr, initiated, doRa⟩, tti, signals, releases, requests,
    acts⟩
    := s
  obtain ⟨htti, hinit, hdoRa, hcounter, hsignals, hreleases, hrequests⟩ := h
  dsimp only at hinit hdoRa hcounter
  subst hinit hdoRa
  cases isPendingSr with
  | false =>
    refine ⟨⟨htti, rfl, rfl, fun _ => ⟨rfl, rfl, rfl, rfl⟩, Nat.zero_le _, Nat.zero_le _, rfl⟩, ?_⟩
    exact fun hp => by cases hp
  | true =>
    obtain ⟨-, rfl, -, -⟩ := hcounter rfl
    exact ⟨⟨htti, rfl, rfl, hcounter, hsignals, hreleases, hrequests⟩, fun _ => rfl⟩

/-- A call keeps the invariant, and keeps the schedule where `need_tx` is right. -/
theorem SrRunInv.step (h : SrRunInv transmax s) (hpos : 1 ≤ transmax) (hmax : transmax < 2 ^ 32)
    {e : SrEvent} (he : ValidEvent e) (hstep : SrRun.step transmax s e = some s') :
    (KeepsSchedule transmax s e s' ↔ NotMisjudged s e) ∧ SrRunInv transmax s' := by
  cases e with
  | step lastTxTti =>
    rw [h.step_eq hpos hmax] at hstep
    obtain rfl := Option.some.inj hstep
    have hinv := h.afterStep hpos (SrProc.needTx lastTxTti s.tti)
    refine ⟨?_, hinv⟩
    have hacts : KeepsSchedule transmax s (.step lastTxTti) _ ↔ _ :=
      (and_iff_right hinv.signals).trans ((and_iff_right hinv.releases).trans
        ((and_iff_right hinv.requests).trans (and_iff_left rfl)))
    rw [hacts, NotMisjudged, ← needTx_eq_iff he h.tti]
    show (if s.sr.isPendingSr then _ else _) = (if s.sr.isPendingSr then _ else _) ↔ _
    cases hpending : s.sr.isPendingSr with
    | false => simp
    | true =>
      rw [if_pos rfl, if_pos rfl]
      by_cases hzero : s.signals = 0
      · simp [scheduled, hzero]
      · rw [scheduled_inj hzero]
        simp [hzero]
  | start =>
    obtain ⟨hinv, hsame⟩ := h.start hpos hstep
    exact ⟨iff_of_true ⟨hinv.signals, hinv.releases, hinv.requests, hsame⟩ trivial, hinv⟩
  | reset =>
    obtain rfl := Option.some.inj hstep
    obtain ⟨htti, hinit, hdoRa, -, hsignals, hreleases, hrequests⟩ := h
    refine ⟨iff_of_true ⟨hsignals, hreleases, hrequests, rfl⟩ trivial, htti, hinit, hdoRa,
      fun hp => ?_, hsignals, hreleases, hrequests⟩
    cases hp

end

/-- The procedure after `init` and `reset`, before the step of a TTI. -/
def srInit (srCounter dsrTransmax tti : Nat) : SrRun :=
  { sr := { srCounter := srCounter, dsrTransmax := dsrTransmax }, tti := tti }

/-- In every run an SR is signalled at most so many times as configured, and released at most once
with one random access. The run keeps the schedule exactly when no step of an SR that was signalled
is at a TTI where `need_tx` is wrong about the last transmission. -/
theorem schedule_iff {transmax : Nat} (hpos : 1 ≤ transmax) (hmax : transmax < 2 ^ 32)
    {events : List SrEvent} (hevents : ∀ e ∈ events, ValidEvent e) {tti : Nat} (htti : tti < 10240)
    (srCounter dsrTransmax : Nat) :
    Along (SrRun.step transmax)
        (fun _ _ s' => s'.signals ≤ transmax ∧ s'.releases ≤ 1 ∧ s'.requests = s'.releases)
        (srInit srCounter dsrTransmax tti) events ∧
      (Along (SrRun.step transmax) (KeepsSchedule transmax) (srInit srCounter dsrTransmax tti)
      events ↔
        Along (SrRun.step transmax) (fun s e _ => NotMisjudged s e)
          (srInit srCounter dsrTransmax tti) events) := by
  have hinit : SrRunInv transmax (srInit srCounter dsrTransmax tti) :=
    ⟨htti, rfl, rfl, (fun hp => by cases hp), Nat.zero_le _, Nat.zero_le _, rfl⟩
  constructor
  · exact Along.of_kind (I := SrRunInv transmax) (K := ValidEvent) (fun s e s' h he hstep => by
      have hinv := (h.step hpos hmax he hstep).2
      exact ⟨⟨hinv.signals, hinv.releases, hinv.requests⟩, hinv⟩) hevents hinit
  · exact along_iff (I := SrRunInv transmax) (K := ValidEvent)
      (fun s e s' h he hstep => (h.step hpos hmax he hstep).1)
      (fun s e s' h he hstep _ => (h.step hpos hmax he hstep).2) hevents hinit

/-- Two signals with a wait between them, and a second start. -/
theorem schedule_iff_twoSignals :
    Along (SrRun.step 4) (KeepsSchedule 4) (srInit 0 0 100)
      [.start, .step (-1), .step 101, .start, .step 92] :=
  (schedule_iff (by decide) (by decide) (by decide) (by decide) 0 0).2.mpr (by decide)

/-- The SR is transmitted at the last TTI before the wrap. Nine TTIs later it is not signalled
again. -/
theorem not_keepsSchedule_wrap :
    ¬Along (SrRun.step 4) (KeepsSchedule 4) (srInit 0 0 10235)
      ([.start, .step (-1), .step (-1), .step (-1), .step (-1)] ++
      List.replicate 10 (.step 10239)) := by
  decide

end SrsUE.Proofs.Mac
