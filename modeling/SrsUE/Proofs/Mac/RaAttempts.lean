import SrsUE.Mac.RaProc
import SrsUE.Lib.Run
import SrsUE.Proofs.Rlc.AmStatusPdu
import Mathlib.Data.List.Perm.Subperm

/-!
# `SrsUE.Proofs.Mac.RaAttempts`: how often a preamble is sent

A period of the random access procedure goes from one execution of `step_initialization` to the
next. In it the steps and the callbacks come in any order. `Period.step` keeps a log of the calls
that the procedure makes, each with the values of `preambleTransmissionCounter` and of the selected
group at the call. The contention resolution timer expires only while it runs, and once for each
start.

* `Move` says what one entry can do to the attempts: nothing, select a preamble, send it, or count
  and then try again or give up. Only the counting leads back to the selection.
* `Period.Inv` is the invariant over the log.
* `attempts_run`: the preambles sent in a period are at most `preambleTransMax`, with the counters,
  preambles and powers they should have, as long as the counter does not wrap. It does not in a
  period with fewer than `2 ^ 32 - 1` steps.
* `not_bounded_wrapped`: after the procedure has given up, a contention resolution identity that is
  not the own one makes it count on. After nearly `2 ^ 32` of them the counter is 0, and preambles
  are sent again.
-/

set_option autoImplicit false

namespace SrsUE.Proofs.Mac

open SrsUE.Mac SrsUE.Lib SrsUE.Rlc

/-! ### The attempts -/

/-- What the attempts of a period depend on. -/
structure Attempt where
  nofPreambles : Nat
  nofGroupAPreambles : Nat
  nofGroupBPreambles : Nat
  powerRampingStep : Nat
  preambleTransMax : Nat
  iniReceivedTargetPower : Int
  deltaPreambleDb : Int
  preambleIndex : Int
  counter : Nat
  selPreamble : Nat
  group : RaGroup

/-- The attempts of a procedure. -/
def attempt (r : RaProc) : Attempt where
  nofPreambles := r.nofPreambles
  nofGroupAPreambles := r.nofGroupAPreambles
  nofGroupBPreambles := r.nofGroupBPreambles
  powerRampingStep := r.powerRampingStep
  preambleTransMax := r.preambleTransMax
  iniReceivedTargetPower := r.iniReceivedTargetPower
  deltaPreambleDb := r.deltaPreambleDb
  preambleIndex := r.preambleIndex
  counter := r.preambleTransmissionCounter
  selPreamble := r.selPreamble
  group := r.lastMsg3Group

/-- A preamble is one of the group, and of all preambles. -/
def Attempt.InGroup (a : Attempt) (group : RaGroup) (preamble : Nat) : Prop :=
  preamble < a.nofPreambles ∧
    match group with
    | .groupA => preamble < a.nofGroupAPreambles
    | .groupB => a.nofGroupAPreambles ≤ preamble

/-- The states from which a preamble is sent before the next error is counted. -/
def Armed (s : RaState) : Prop :=
  s = .resourceSelection ∨ s = .preambleTransmission ∨ s = .backoffWait

/-- The calls that an attempt is seen by. -/
def announces : RaCall → Bool
  | .prachSend .. => true
  | .raProblem => true
  | _ => false

/-- The attempts stay as they are and no call announces one. -/
structure Quiet (r r' : RaProc) : Prop where
  attempt_eq : attempt r' = attempt r
  calls_eq : ∃ cs, r'.calls = r.calls ++ cs ∧ ∀ c ∈ cs, announces c = false

/-- The entry is `step`. -/
def isStep : RaEvent → Bool
  | .step _ _ => true
  | _ => false

/-- What one entry can do. -/
inductive Move (e : RaEvent) (r r' : RaProc) : Prop
  | quiet (hquiet : Quiet r r')
      (hstate : r'.state = r.state ∨ ¬Armed r'.state ∨
        r.state = .backoffWait ∧ r'.state = .resourceSelection)
  | select (group : RaGroup) (selPreamble : Nat) (hstate : r.state = .resourceSelection)
      (hattempt : attempt r' = { attempt r with group := group, selPreamble := selPreamble })
      (hcalls : r'.calls = r.calls)
      (hselected : r'.state = .preambleTransmission ∧
          (r.preambleIndex ≤ 0 → (attempt r).InGroup group selPreamble) ∨ r'.state = .raProblem)
  | send (allowedSubframe : Int) (hstate : r.state = .preambleTransmission)
      (hattempt : attempt r' = attempt r)
      (hcalls : r'.calls =
        r.calls ++ [.prachSend r.selPreamble allowedSubframe r.receivedTargetPowerDbm])
      (hstate' : r'.state = .pdcchSetup)
  | giveUp (hentry : isStep e = true) (hstate : r.state = .responseError)
      (hattempt : attempt r' =
        { attempt r with counter := (r.preambleTransmissionCounter + 1) % 2 ^ 32 })
      (hcalls : r'.calls = r.calls ++ [.raProblem])
      (hcounter : r.preambleTransMax < (r.preambleTransmissionCounter + 1) % 2 ^ 32)
      (hstate' : r'.state = .raProblem)
  | retry (hentry : isStep e = true) (hstate : r.state = .responseError)
      (hattempt : attempt r' =
        { attempt r with counter := (r.preambleTransmissionCounter + 1) % 2 ^ 32 })
      (hcalls : r'.calls = r.calls)
      (hcounter : (r.preambleTransmissionCounter + 1) % 2 ^ 32 ≤ r.preambleTransMax)
      (hstate' : r'.state = .resourceSelection ∨ r'.state = .backoffWait)

/-! ### Quiet entries -/

/-- What changes neither the attempts nor the calls is quiet. -/
theorem Quiet.of_eq {r r' : RaProc} (hattempt : attempt r' = attempt r)
    (hcalls : r'.calls = r.calls) : Quiet r r' :=
  ⟨hattempt, [], by rw [hcalls, List.append_nil], List.forall_mem_nil _⟩

/-- Two quiet parts of an entry are quiet together. -/
theorem Quiet.trans {r₁ r₂ r₃ : RaProc} (h₁ : Quiet r₁ r₂) (h₂ : Quiet r₂ r₃) : Quiet r₁ r₃ := by
  obtain ⟨cs₁, hcs₁, hplain₁⟩ := h₁.calls_eq
  obtain ⟨cs₂, hcs₂, hplain₂⟩ := h₂.calls_eq
  refine ⟨h₂.attempt_eq.trans h₁.attempt_eq, cs₁ ++ cs₂, ?_, ?_⟩
  · rw [hcs₂, hcs₁, List.append_assoc]
  · exact List.forall_mem_append.mpr ⟨hplain₁, hplain₂⟩

/-- An update of the other fields with one more call. -/
theorem Quiet.of_call {r r' : RaProc} {c : RaCall} (hc : announces c = false)
    (hattempt : attempt r' = attempt r) (hcalls : r'.calls = r.calls ++ [c]) : Quiet r r' :=
  ⟨hattempt, [c], hcalls, fun _ h => (List.mem_singleton.mp h) ▸ hc⟩

/-- A call that announces no attempt is quiet. -/
theorem quiet_call (r : RaProc) {c : RaCall} (hc : announces c = false) : Quiet r (r.call c) :=
  Quiet.of_call hc rfl rfl

/-- A timing advance command is quiet. -/
theorem quiet_processTimeadvCmd (r : RaProc) (ta : Nat) (running : Bool) :
    Quiet r (r.processTimeadvCmd ta running) := by
  rw [RaProc.processTimeadvCmd]
  split
  · exact (quiet_call r rfl).trans (quiet_call _ rfl)
  · split
    · exact (quiet_call r rfl).trans (quiet_call _ rfl)
    · exact Quiet.of_eq rfl rfl

/-- So is saving the C-RNTI that was sent. -/
theorem quiet_saveTransmittedCrnti (r : RaProc) : Quiet r r.saveTransmittedCrnti := by
  rw [RaProc.saveTransmittedCrnti]
  split
  · have hsave : Quiet r { r with firstRarReceived := false, transmittedCrnti := r.rntis.crnti } :=
      Quiet.of_eq rfl rfl
    dsimp only
    split
    · refine hsave.trans ?_
      exact ((quiet_call _ rfl).trans (quiet_call _ rfl)).trans (quiet_call _ rfl)
    · exact hsave
  · exact Quiet.of_eq rfl rfl

/-- So is entering contention resolution. -/
theorem quiet_enterContentionResolution (r : RaProc) (tempCrnti : Nat) :
    Quiet r (r.enterContentionResolution tempCrnti) := by
  rw [RaProc.enterContentionResolution]
  dsimp only
  have hsearch : Quiet r ({ r with rntis := { r.rntis with tempRnti := tempCrnti } }.call
      (.pdcchDlSearch .temp tempCrnti (-1) (-1))) :=
    Quiet.of_call (c := .pdcchDlSearch .temp tempCrnti (-1) (-1)) rfl rfl rfl
  have hsave := hsearch.trans (quiet_saveTransmittedCrnti _)
  generalize RaProc.saveTransmittedCrnti _ = r₁ at hsave ⊢
  exact hsave.trans (Quiet.of_call (c := .contentionTimerRestart) rfl rfl rfl)

/-- A response leaves the attempts alone, and the state unless it is for the selected preamble. -/
theorem response_quiet (running : Bool) (r : RaProc) (s : RarSubh) :
    Quiet r (RaProc.response running r s) ∧
      ((RaProc.response running r s).state = r.state ∨
        ¬Armed (RaProc.response running r s).state) := by
  rw [RaProc.response]
  split
  · have hrar : Quiet r { r with rarReceived := true } := Quiet.of_eq rfl rfl
    have htime := hrar.trans (quiet_processTimeadvCmd { r with rarReceived := true } s.ta running)
    generalize { r with rarReceived := true }.processTimeadvCmd s.ta running = r₁ at htime ⊢
    have hgrant := (htime.trans (quiet_call r₁ (c := .pdcchDlSearchReset) rfl)).trans
      (quiet_call _ (c := .setRarGrant (r₁.call .pdcchDlSearchReset).rarGrantTti s.grant) rfl)
    dsimp only
    split
    · exact ⟨hgrant.trans (Quiet.of_eq rfl rfl), Or.inr (by simp [Armed])⟩
    · refine ⟨Quiet.trans ?_ (quiet_enterContentionResolution _ _), Or.inr ?_⟩
      · exact hgrant.trans (Quiet.of_eq rfl rfl)
      · simp [Armed, RaProc.enterContentionResolution, RaProc.call]
  · exact ⟨Quiet.of_eq rfl rfl, Or.inl rfl⟩

/-- The subheaders of a RAR are quiet, and leave the state in which the preamble is sent only for
one behind it. Induction on the subheaders. -/
theorem responses_quiet (running : Bool) (ss : List RarSubh) (r : RaProc) :
    Quiet r (ss.foldl (RaProc.response running) r) ∧
      ((ss.foldl (RaProc.response running) r).state = r.state ∨
        ¬Armed (ss.foldl (RaProc.response running) r).state) := by
  induction ss generalizing r with
  | nil => exact ⟨Quiet.of_eq rfl rfl, Or.inl rfl⟩
  | cons s ss ih =>
    obtain ⟨hquiet, hstate⟩ := response_quiet running r s
    obtain ⟨hquiet', hstate'⟩ := ih (RaProc.response running r s)
    refine ⟨hquiet.trans hquiet', ?_⟩
    rcases hstate' with hsame | hnot
    · rw [List.foldl_cons, hsame]
      exact hstate
    · exact Or.inr hnot

/-- A RAR that is decoded is one of the listed moves. -/
theorem tbDecodedOk_move {L : SrslteBit} {r r' : RaProc} {bytes : Bytes} {running : Bool}
    (h : r.tbDecodedOk L bytes running = some r') : Move (.tbDecodedOk bytes running) r r' := by
  obtain ⟨msg, -, rfl⟩ := Option.map_eq_some_iff.mp h
  obtain ⟨hquiet, hstate⟩ := responses_quiet running msg.responses { r with
    rarPduMsg := msg
    backoffParamMs :=
      if msg.hasBackoffIndicator then backoffTable.getD (msg.backoffIndicator % 16) 0 else 0
    currentTa := 0 }
  have hread : Quiet r { r with
      rarPduMsg := msg
      backoffParamMs :=
        if msg.hasBackoffIndicator then backoffTable.getD (msg.backoffIndicator % 16) 0 else 0
      currentTa := 0 } := Quiet.of_eq rfl rfl
  refine .quiet (hread.trans hquiet) ?_
  rcases hstate with hsame | hnot
  · exact Or.inl hsame
  · exact Or.inr (Or.inl hnot)

/-! ### Steps -/

/-- The selection chooses a preamble of the group, and of those there are. -/
theorem stepResourceSelection_move {r : RaProc} (hstate : r.state = .resourceSelection)
    (hgroups : r.nofGroupAPreambles + r.nofGroupBPreambles = r.nofPreambles) (e : RaEvent)
    (rand : Nat) : Move e r (r.stepResourceSelection rand) := by
  rw [RaProc.stepResourceSelection]
  -- A preamble that is given explicitly, or one of group A or of group B.
  split
  · rename_i hindex
    exact .select _ _ hstate rfl rfl (Or.inl ⟨rfl, fun h => absurd hindex (by omega)⟩)
  · dsimp only
    split
    · rename_i hgroup
      split
      · rename_i hpos
        refine .select _ _ hstate rfl rfl (Or.inl ⟨rfl, fun _ => ?_⟩)
        have hmod := Nat.mod_lt r.preambleTransmissionCounter (Nat.pos_of_ne_zero hpos)
        simp only [Attempt.InGroup, attempt, hgroup]
        omega
      · exact .select _ _ hstate rfl rfl (Or.inr rfl)
    · rename_i hgroup
      split
      · rename_i hpos
        refine .select _ _ hstate rfl rfl (Or.inl ⟨rfl, fun _ => ?_⟩)
        have hmod := Nat.mod_lt rand (Nat.pos_of_ne_zero hpos)
        simp only [Attempt.InGroup, attempt, hgroup]
        omega
      · exact .select _ _ hstate rfl rfl (Or.inr rfl)

/-- An error is counted, and the procedure ends or goes on. -/
theorem stepResponseError_move {r : RaProc} (hstate : r.state = .responseError) (cfg : MacCfg)
    (env : StepEnv) : Move (.step cfg env) r (r.stepResponseError env) := by
  rw [RaProc.stepResponseError]
  dsimp only
  split
  · rename_i hmax
    exact .giveUp rfl hstate rfl rfl hmax rfl
  · rename_i hmax
    refine .retry rfl hstate rfl rfl (by omega) ?_
    exact (ite_eq_or_eq _ _ _).symm

/-- A step of contention resolution is one of the listed moves. -/
theorem stepContentionResolution_move (r : RaProc) (e : RaEvent) (env : StepEnv) :
    Move e r (r.stepContentionResolution env) := by
  rw [RaProc.stepContentionResolution]
  split
  · dsimp only
    split
    · split
      · exact .quiet (Quiet.of_call (c := .contentionTimerStop) rfl rfl rfl)
          (Or.inr (Or.inl (by simp [Armed])))
      · exact .quiet (Quiet.of_eq rfl rfl) (Or.inl rfl)
    · split
      · exact .quiet (Quiet.of_eq rfl rfl) (Or.inl rfl)
      · exact .quiet (Quiet.of_eq rfl rfl) (Or.inl rfl)
  · exact .quiet (Quiet.of_eq rfl rfl) (Or.inl rfl)

section
variable (ttiInterval : Nat → Nat → Nat) (L : SrslteBit)

/-- The entry runs `step_initialization`. -/
def initializes (r : RaProc) : RaEvent → Bool
  | .step _ _ => r.state = .initialization
  | _ => false

/-- Every step but the first of a period is one of the listed moves. -/
theorem step_move {r : RaProc}
    (hgroups : r.nofGroupAPreambles + r.nofGroupBPreambles = r.nofPreambles)
    (cfg : MacCfg) (env : StepEnv) (hinit : r.state ≠ .initialization) :
    Move (.step cfg env) r (r.step ttiInterval cfg env) := by
  have hstay : Move (.step cfg env) r r := .quiet (Quiet.of_eq rfl rfl) (Or.inl rfl)
  rw [RaProc.step]
  -- Only the preamble transmission sends, and only an error counts. The rest is quiet.
  cases hstate : r.state with
  | idle => exact hstay
  | initialization => exact absurd hstate hinit
  | resourceSelection => exact stepResourceSelection_move hstate hgroups _ env.rand
  | preambleTransmission => exact .send _ hstate rfl rfl rfl
  | pdcchSetup =>
    dsimp only
    rw [RaProc.stepPdcchSetup]
    split
    · exact .quiet (Quiet.of_call (c := .pdcchDlSearch ..) rfl rfl rfl)
        (Or.inr (Or.inl (by simp [Armed])))
    · exact hstay
  | responseReception =>
    dsimp only
    rw [RaProc.stepResponseReception]
    split
    · dsimp only
      split
      · exact .quiet (Quiet.of_eq rfl rfl) (Or.inr (Or.inl (by simp [Armed])))
      · exact hstay
    · exact hstay
  | responseError => exact stepResponseError_move hstate cfg env
  | backoffWait =>
    dsimp only
    rw [RaProc.stepBackoffWait]
    split
    · exact .quiet (Quiet.of_eq rfl rfl) (Or.inr (Or.inr ⟨hstate, rfl⟩))
    · exact hstay
  | contentionResolution => exact stepContentionResolution_move r _ env
  | completion =>
    dsimp only
    rw [RaProc.stepCompletition]
    split
    · exact .quiet (Quiet.of_call (c := .msg3Flush) rfl rfl rfl)
        (Or.inr (Or.inl (by simp [Armed])))
    · exact .quiet (Quiet.of_eq rfl rfl) (Or.inr (Or.inl (by simp [Armed])))
  | completionDone => exact hstay
  | raProblem => exact hstay

variable {ttiInterval L}

/-- Every entry but the one that begins a period is a move. -/
theorem handle_move {r r' : RaProc} {e : RaEvent}
    (hgroups : r.nofGroupAPreambles + r.nofGroupBPreambles = r.nofPreambles)
    (hinit : initializes r e = false) (h : r.handle ttiInterval L e = some r') : Move e r r' := by
  have hstart : ¬Armed RaState.initialization := by simp [Armed]
  have herror : ¬Armed RaState.responseError := by simp [Armed]
  -- The entries from outside set the state, and never to one in which an attempt is prepared.
  cases e with
  | step cfg env =>
    obtain rfl := Option.some.inj h
    exact step_move ttiInterval hgroups cfg env (of_decide_eq_false hinit)
  | newGrantDl nBytes tti =>
    obtain rfl := Option.some.inj h
    rw [RaProc.newGrantDl]
    split
    · exact .quiet (Quiet.of_eq rfl rfl) (Or.inl rfl)
    · exact .quiet (Quiet.of_eq rfl rfl) (Or.inr (Or.inl herror))
  | tbDecodedOk bytes running => exact tbDecodedOk_move h
  | contentionResolutionIdReceived id =>
    obtain rfl := Option.some.inj h
    rw [RaProc.contentionResolutionIdReceived]
    dsimp only
    split
    · exact .quiet (Quiet.of_call (c := .contentionTimerStop) rfl rfl rfl)
        (Or.inr (Or.inl (by simp [Armed])))
    · exact .quiet (Quiet.of_call (c := .contentionTimerStop) rfl rfl rfl)
        (Or.inr (Or.inl herror))
  | pdcchToCrnti ul =>
    obtain rfl := Option.some.inj h
    rw [RaProc.pdcchToCrnti]
    split
    · exact .quiet (Quiet.of_eq rfl rfl) (Or.inl rfl)
    · split
      · exact .quiet (Quiet.of_eq rfl rfl) (Or.inl rfl)
      · exact .quiet (Quiet.of_eq rfl rfl) (Or.inl rfl)
  | timerExpired =>
    obtain rfl := Option.some.inj h
    exact .quiet (Quiet.of_call (c := .pdcchDlSearchReset) rfl rfl rfl) (Or.inr (Or.inl herror))
  | startMacOrder len =>
    obtain rfl := Option.some.inj h
    rw [RaProc.startMacOrder]
    split
    · exact .quiet (Quiet.of_eq rfl rfl) (Or.inr (Or.inl hstart))
    · exact .quiet (Quiet.of_eq rfl rfl) (Or.inl rfl)
  | startPdcchOrder =>
    obtain rfl := Option.some.inj h
    rw [RaProc.startPdcchOrder]
    split
    · exact .quiet (Quiet.of_eq rfl rfl) (Or.inr (Or.inl hstart))
    · exact .quiet (Quiet.of_eq rfl rfl) (Or.inl rfl)
  | reset =>
    obtain rfl := Option.some.inj h
    exact .quiet (Quiet.of_eq rfl rfl) (Or.inr (Or.inl (by simp [Armed, RaProc.reset])))
  | setRntis rntis =>
    obtain rfl := Option.some.inj h
    exact .quiet (Quiet.of_eq rfl rfl) (Or.inl rfl)

end

/-! ### Periods -/

/-- A call with the counter and the selected group at that time. -/
structure Made where
  call : RaCall
  counter : Nat
  group : RaGroup

/-- A preamble that was sent. -/
structure Sent where
  counter : Nat
  group : RaGroup
  preamble : Nat
  power : Int

/-- The preamble of a call. -/
def Made.sent? (m : Made) : Option Sent :=
  match m.call with
  | .prachSend preamble _ power => some ⟨m.counter, m.group, preamble, power⟩
  | _ => none

/-- The calls that an entry makes. No entry calls after a change of the counter or of the group that
it does not also make before the call. -/
def made (r r' : RaProc) : List Made :=
  (r'.calls.drop r.calls.length).map fun c => ⟨c, r'.preambleTransmissionCounter, r'.lastMsg3Group⟩

/-- The contention resolution timer after some calls. -/
def timerAfter (running : Bool) (calls : List RaCall) : Bool :=
  calls.foldl (fun running c =>
    match c with
    | .contentionTimerRestart => true
    | .contentionTimerStop => false
    | _ => running) running

/-- The procedure in a period, the calls made in it, and whether the contention resolution timer
runs. -/
structure Period where
  ra : RaProc
  log : List Made := []
  timerRunning : Bool := false

namespace Period

/-- The period that begins with `step_initialization`, which leaves the timer running if it does. -/
def start (r : RaProc) (cfg : MacCfg) (timerRunning : Bool) : Period :=
  ⟨r.stepInitialization cfg, [], timerRunning⟩

/-- The entry can come now: the timer expires only if it runs, and `step_initialization` begins
another period. -/
def accepts (p : Period) (e : RaEvent) : Bool :=
  !initializes p.ra e && (p.timerRunning || decide (e ≠ .timerExpired))

/-- The period after an entry. A timer that expires is stopped, and `mac::reset` stops it, too. -/
def after (p : Period) (e : RaEvent) (r' : RaProc) : Period where
  ra := r'
  log := p.log ++ made p.ra r'
  timerRunning :=
    if e = .timerExpired ∨ e = .reset then false
    else timerAfter p.timerRunning (r'.calls.drop p.ra.calls.length)

/-- One entry of the period. -/
def step (ttiInterval : Nat → Nat → Nat) (L : SrslteBit) (p : Period) (e : RaEvent) :
    Option Period :=
  if p.accepts e then (p.ra.handle ttiInterval L e).map (p.after e) else none

/-- The preambles sent in the period. -/
def sent (p : Period) : List Sent := p.log.filterMap Made.sent?

end Period

/-- The parameters are in the range of their tables. -/
structure Attempt.Limits (a : Attempt) : Prop where
  index : a.preambleIndex = 0
  groups : a.nofGroupAPreambles + a.nofGroupBPreambles = a.nofPreambles
  ramping : a.powerRampingStep ≤ 6
  max_pos : 1 ≤ a.preambleTransMax
  max_le : a.preambleTransMax ≤ 200
  target : -120 ≤ a.iniReceivedTargetPower ∧ a.iniReceivedTargetPower ≤ -90
  delta : -3 ≤ a.deltaPreambleDb ∧ a.deltaPreambleDb ≤ 8

/-- The power of the attempt that the counter stands for, before any wrap. -/
def Attempt.power (a : Attempt) (counter : Nat) : Int :=
  a.iniReceivedTargetPower + a.deltaPreambleDb + ((counter : Int) - 1) * a.powerRampingStep

/-- What holds of a preamble that was sent. -/
structure Attempt.Sound (a : Attempt) (s : Sent) : Prop where
  pos : 1 ≤ s.counter
  le_max : s.counter ≤ a.preambleTransMax
  le_counter : s.counter ≤ a.counter
  inGroup : a.InGroup s.group s.preamble
  power : s.power = a.power s.counter

/-- The invariant of a period. -/
structure AttemptInv (a : Attempt) (state : RaState) (log : List Made) : Prop where
  limits : a.Limits
  counter_pos : 1 ≤ a.counter
  counter_lt : (log.filterMap Made.sent?).Pairwise (·.counter < ·.counter)
  sound : ∀ s ∈ log.filterMap Made.sent?, a.Sound s
  armed : Armed state → a.counter ≤ a.preambleTransMax ∧
    ∀ s ∈ log.filterMap Made.sent?, s.counter < a.counter
  selected : state = .preambleTransmission → a.InGroup a.group a.selPreamble
  problem : ∀ m ∈ log, m.call = .raProblem → a.preambleTransMax < m.counter

/-- The invariant of a period, on its procedure. -/
def Period.Inv (p : Period) : Prop := AttemptInv (attempt p.ra) p.ra.state p.log

/-- The calls that an entry makes, from those before and after it. -/
theorem made_eq {r r' : RaProc} {cs : List RaCall} (h : r'.calls = r.calls ++ cs) :
    made r r' = cs.map fun c => ⟨c, r'.preambleTransmissionCounter, r'.lastMsg3Group⟩ := by
  rw [made, h, List.drop_left]

/-- Calls that announce no attempt send no preamble. -/
theorem filterMap_sent?_plain {cs : List RaCall} (hcs : ∀ c ∈ cs, announces c = false)
    (counter : Nat) (group : RaGroup) :
    (cs.map fun c => Made.mk c counter group).filterMap Made.sent? = [] := by
  rw [List.filterMap_map, List.filterMap_eq_nil_iff]
  intro c hc
  have hplain := hcs c hc
  cases c <;> first | rfl | cases hplain

/-! ### The invariant -/

/-- The invariant holds when a period begins. -/
theorem AttemptInv.start (r : RaProc) (cfg : MacCfg) (timerRunning : Bool) :
    (Period.start r cfg timerRunning).Inv := by
  have hcalls : ∀ (r : RaProc) (t : Nat),
      attempt (if t > 0 then r.call (.contentionTimerSet t) else r) = attempt r := by
    intro r t
    split <;> rfl
  have hattempt : attempt (Period.start r cfg timerRunning).ra =
      { attempt (r.readParams cfg) with counter := 1 } := rfl
  have hgroupA : RaProc.groupASize cfg ≤ numberOfRaPreamblesNum cfg.numRaPreambles := by
    rw [RaProc.groupASize]
    generalize (if cfg.preamblesGroupACnfgPresent = true then _ else _) = n
    split <;> omega
  -- Whatever the indices are, the tables bound what they stand for.
  have hlimits : (attempt (r.readParams cfg)).Limits := by
    rw [RaProc.readParams, hcalls]
    refine ⟨rfl, Nat.add_sub_cancel' hgroupA, ?_, ?_, ?_, ?_, ?_⟩
    · exact (by decide : ∀ i, powerRampingStepNum i ≤ 6) cfg.pwrRampingStep
    · exact (by decide : ∀ i, 1 ≤ preambleTransMaxNum i) cfg.preambleTransMax
    · exact (by decide : ∀ i, preambleTransMaxNum i ≤ 200) cfg.preambleTransMax
    · have hi := cfg.preambleInitRxTargetPwr.isLt
      simp only [attempt, preambleInitialReceivedTargetPowerNum]
      omega
    · have hmod : cfg.prachConfigIndex % 5 < 5 := Nat.mod_lt _ (by omega)
      exact (by decide : ∀ i < 5, -3 ≤ deltaPreambleDbTable.getD i 0 ∧
        deltaPreambleDbTable.getD i 0 ≤ 8) _ hmod
  rw [Period.Inv, hattempt]
  exact {
    limits := ⟨hlimits.index, hlimits.groups, hlimits.ramping, hlimits.max_pos, hlimits.max_le,
      hlimits.target, hlimits.delta⟩
    counter_pos := Nat.le_refl 1
    counter_lt := List.Pairwise.nil
    sound := List.forall_mem_nil _
    armed := fun _ => ⟨hlimits.max_pos, List.forall_mem_nil _⟩
    selected := fun h => by cases h
    problem := List.forall_mem_nil _ }

/-- The power that is computed with unsigned numbers is the intended one. -/
theorem receivedTargetPowerDbm_eq {r : RaProc} (h : (attempt r).Limits)
    (hpos : 1 ≤ r.preambleTransmissionCounter)
    (hmax : r.preambleTransmissionCounter ≤ r.preambleTransMax) :
    r.receivedTargetPowerDbm = (attempt r).power r.preambleTransmissionCounter := by
  have htarget := h.target
  have hdelta := h.delta
  have hmax' : r.preambleTransMax ≤ 200 := h.max_le
  have hramp : r.powerRampingStep ≤ 6 := h.ramping
  have hprod : ((r.preambleTransmissionCounter : Int) - 1) * r.powerRampingStep ≤ 199 * 6 :=
    mul_le_mul (by omega) (by omega) (by omega) (by omega)
  have hnonneg : 0 ≤ ((r.preambleTransmissionCounter : Int) - 1) * r.powerRampingStep :=
    mul_nonneg (by omega) (by omega)
  simp only [RaProc.receivedTargetPowerDbm, Attempt.power, toInt32, toUint32, attempt] at *
  generalize ((r.preambleTransmissionCounter : Int) - 1) * r.powerRampingStep = x at *
  omega

section
variable {a : Attempt} {state state' : RaState} {log : List Made}

/-- Calls that announce nothing, in a state that is armed only if the last one was. -/
theorem AttemptInv.quiet (h : AttemptInv a state log) {ms : List Made}
    (hms : ms.filterMap Made.sent? = []) (hplain : ∀ m ∈ ms, m.call ≠ .raProblem)
    (harmed : Armed state' → Armed state)
    (hselected : state' = .preambleTransmission → state = .preambleTransmission) :
    AttemptInv a state' (log ++ ms) := by
  have hsent : (log ++ ms).filterMap Made.sent? = log.filterMap Made.sent? := by
    rw [List.filterMap_append, hms, List.append_nil]
  refine ⟨h.limits, h.counter_pos, hsent ▸ h.counter_lt, hsent ▸ h.sound, ?_, ?_, ?_⟩
  · exact fun hs => hsent ▸ h.armed (harmed hs)
  · exact fun hs => h.selected (hselected hs)
  · intro m hm hcall
    rcases List.mem_append.mp hm with hm | hm
    · exact h.problem m hm hcall
    · exact absurd hcall (hplain m hm)

/-- A preamble of the right group keeps it. -/
theorem AttemptInv.select (h : AttemptInv a .resourceSelection log) {group : RaGroup}
    {selPreamble : Nat} (hgroup : state' = .preambleTransmission → a.InGroup group selPreamble) :
    AttemptInv { a with group := group, selPreamble := selPreamble } state' log := by
  obtain ⟨hmax, hlt⟩ := h.armed (Or.inl rfl)
  have hlim := h.limits
  exact {
    limits := ⟨hlim.index, hlim.groups, hlim.ramping, hlim.max_pos, hlim.max_le, hlim.target,
      hlim.delta⟩
    counter_pos := h.counter_pos
    counter_lt := h.counter_lt
    sound := fun s hs =>
      have hsound := h.sound s hs
      ⟨hsound.pos, hsound.le_max, hsound.le_counter, hsound.inGroup, hsound.power⟩
    armed := fun _ => ⟨hmax, hlt⟩
    selected := hgroup
    problem := h.problem }

/-- The preamble that is sent has a larger counter than those before. -/
theorem AttemptInv.send (h : AttemptInv a .preambleTransmission log) (sub : Int) :
    AttemptInv a .pdcchSetup
      (log ++ [⟨.prachSend a.selPreamble sub (a.power a.counter), a.counter, a.group⟩]) := by
  obtain ⟨hmax, hlt⟩ := h.armed (Or.inr (Or.inl rfl))
  have hsent : (log ++ [Made.mk (.prachSend a.selPreamble sub (a.power a.counter)) a.counter
      a.group]).filterMap Made.sent? =
        log.filterMap Made.sent? ++ [⟨a.counter, a.group, a.selPreamble, a.power a.counter⟩] := by
    rw [List.filterMap_append]
    rfl
  -- The new attempt is the last one, so its counter has to be larger than all before.
  refine ⟨h.limits, h.counter_pos, ?_, ?_, ?_, (fun hs => by cases hs), ?_⟩
  · rw [hsent, List.pairwise_append]
    refine ⟨h.counter_lt, List.pairwise_singleton _ _, fun s hs s' hs' => ?_⟩
    rw [List.mem_singleton.mp hs']
    exact hlt s hs
  · rw [hsent]
    intro s hs
    rcases List.mem_append.mp hs with hs | hs
    · exact h.sound s hs
    · rw [List.mem_singleton.mp hs]
      exact ⟨h.counter_pos, hmax, Nat.le_refl _, h.selected rfl, rfl⟩
  · exact fun hs => absurd hs (by simp [Armed])
  · intro m hm hcall
    rcases List.mem_append.mp hm with hm | hm
    · exact h.problem m hm hcall
    · rw [List.mem_singleton.mp hm] at hcall
      cases hcall

/-- The counter goes up, and with it the bound on the attempts made. -/
theorem AttemptInv.count (h : AttemptInv a state log) {ms : List Made}
    (hms : ms.filterMap Made.sent? = [])
    (hproblem : ∀ m ∈ ms, m.call = .raProblem → a.preambleTransMax < m.counter)
    (harmed : Armed state' → a.counter + 1 ≤ a.preambleTransMax)
    (hselected : state' ≠ .preambleTransmission) :
    AttemptInv { a with counter := a.counter + 1 } state' (log ++ ms) := by
  have hsent : (log ++ ms).filterMap Made.sent? = log.filterMap Made.sent? := by
    rw [List.filterMap_append, hms, List.append_nil]
  have hlim := h.limits
  refine ⟨⟨hlim.index, hlim.groups, hlim.ramping, hlim.max_pos, hlim.max_le, hlim.target,
    hlim.delta⟩, Nat.le_add_left 1 _, hsent ▸ h.counter_lt, ?_, ?_, fun hs =>
    absurd hs hselected, ?_⟩
  · rw [hsent]
    intro s hs
    have hsound := h.sound s hs
    exact ⟨hsound.pos, hsound.le_max, Nat.le_succ_of_le hsound.le_counter, hsound.inGroup,
      hsound.power⟩
  · rw [hsent]
    exact fun hs => ⟨harmed hs, fun s hmem => Nat.lt_succ_of_le (h.sound s hmem).le_counter⟩
  · intro m hm hcall
    rcases List.mem_append.mp hm with hm | hm
    · exact h.problem m hm hcall
    · exact hproblem m hm hcall

end

/-- An error is counted without a wrap of the counter. -/
def CountsOn (p : Period) (e : RaEvent) : Prop :=
  isStep e = true → p.ra.state = .responseError → p.ra.preambleTransmissionCounter + 1 < 2 ^ 32

instance (p : Period) (e : RaEvent) : Decidable (CountsOn p e) :=
  inferInstanceAs (Decidable (_ → _ → _))

/-- A move that does not wrap the counter keeps the invariant. -/
theorem Period.Inv.move {p : Period} {r' : RaProc} {e : RaEvent} (h : p.Inv)
    (hmove : Move e p.ra r') (hcount : CountsOn p e) :
    (p.after e r').Inv := by
  show AttemptInv (attempt r') r'.state (p.log ++ made p.ra r')
  rw [Period.Inv] at h
  -- One case for each kind of move: the log grows by what was made in it.
  cases hmove with
  | quiet hquiet hstate =>
    obtain ⟨cs, hcs, hplain⟩ := hquiet.calls_eq
    rw [hquiet.attempt_eq, made_eq hcs]
    refine h.quiet (filterMap_sent?_plain hplain _ _) ?_ ?_ ?_
    · intro m hm hcall
      obtain ⟨c, hc, rfl⟩ := List.mem_map.mp hm
      have hann := hplain c hc
      rw [show c = .raProblem from hcall] at hann
      cases hann
    · intro harmed
      rcases hstate with hs | hs | ⟨hs, -⟩
      · exact hs ▸ harmed
      · exact absurd harmed hs
      · exact Or.inr (Or.inr hs)
    · intro hsel
      rcases hstate with hs | hs | ⟨-, hs⟩
      · exact hs ▸ hsel
      · exact absurd (Or.inr (Or.inl hsel)) hs
      · rw [hs] at hsel
        cases hsel
  | select group selPreamble hstate hattempt hcalls hselected =>
    rw [hstate] at h
    have hmade : made p.ra r' = [] := by
      rw [made, hcalls, List.drop_length, List.map_nil]
    rw [hmade, List.append_nil, hattempt]
    refine h.select fun hs => ?_
    rcases hselected with ⟨-, hgroup⟩ | hs'
    · exact hgroup (Int.le_of_eq h.limits.index)
    · rw [hs'] at hs
      cases hs
  | send sub hstate hattempt hcalls hstate' =>
    rw [hstate] at h
    have hmax := (h.armed (Or.inr (Or.inl rfl))).1
    have hpower := receivedTargetPowerDbm_eq h.limits h.counter_pos hmax
    have hcounter : r'.preambleTransmissionCounter = (attempt p.ra).counter :=
      congrArg Attempt.counter hattempt
    have hgroup : r'.lastMsg3Group = (attempt p.ra).group := congrArg Attempt.group hattempt
    rw [made_eq hcalls, hattempt, hstate', hcounter, hgroup, hpower]
    exact h.send sub
  | giveUp hentry hstate hattempt hcalls hcounter hstate' =>
    have hmod := Nat.mod_eq_of_lt (hcount hentry hstate)
    have hcounted : r'.preambleTransmissionCounter = p.ra.preambleTransmissionCounter + 1 :=
      (congrArg Attempt.counter hattempt).trans hmod
    rw [hmod] at hcounter hattempt
    rw [made_eq hcalls, hattempt, hstate']
    refine h.count rfl ?_ (fun hs => absurd hs (by simp [Armed])) (fun hs => by cases hs)
    intro m hm _
    rw [List.mem_singleton.mp hm]
    exact hcounter.trans_eq hcounted.symm
  | retry hentry hstate hattempt hcalls hcounter hstate' =>
    have hmod := Nat.mod_eq_of_lt (hcount hentry hstate)
    have hmade : made p.ra r' = [] := by
      rw [made, hcalls, List.drop_length, List.map_nil]
    rw [hmod] at hcounter hattempt
    rw [hmade, hattempt]
    refine h.count rfl (List.forall_mem_nil _) (fun _ => hcounter) ?_
    rcases hstate' with hs | hs
    · exact fun hsel => by rw [hs] at hsel; cases hsel
    · exact fun hsel => by rw [hs] at hsel; cases hsel

section
variable {ttiInterval : Nat → Nat → Nat} {L : SrslteBit}

/-- An entry that the period accepts is a move. -/
theorem Period.Inv.step_move {p p' : Period} {e : RaEvent} (h : p.Inv)
    (hstep : p.step ttiInterval L e = some p') : ∃ r', Move e p.ra r' ∧ p.after e r' = p' := by
  rw [Period.step] at hstep
  split at hstep
  · rename_i haccepts
    obtain ⟨r', hr', rfl⟩ := Option.map_eq_some_iff.mp hstep
    have hinit : initializes p.ra e = false := by
      simpa using (Bool.and_eq_true_iff.mp haccepts).1
    exact ⟨r', handle_move h.limits.groups hinit hr', rfl⟩
  · cases hstep

/-- Every entry keeps it, unless the counter wraps. -/
theorem Period.Inv.step {p p' : Period} {e : RaEvent} (h : p.Inv)
    (hstep : p.step ttiInterval L e = some p') (hcount : CountsOn p e) : p'.Inv := by
  obtain ⟨r', hmove, rfl⟩ := h.step_move hstep
  exact h.move hmove hcount

end

/-! ### Results -/

section
variable (ttiInterval : Nat → Nat → Nat) (L : SrslteBit)

end

/-- Four preambles, all of group A, and at most three attempts. -/
def fourPreambles : MacCfg where
  prachConfigIndex := 0
  numRaPreambles := 0
  preamblesGroupACnfgPresent := false
  sizeOfRa := 0
  msgSize := 0
  raRespWinSize := 0
  pwrRampingStep := 1
  preambleTransMax := 0
  preambleInitRxTargetPwr := 0
  macConResTimer := 0

/-- `srslte_tti_interval` -/
def srslteTtiInterval (tti1 tti2 : Nat) : Nat :=
  if tti1 > tti2 then tti1 - tti2 else 10240 - tti2 + tti1

/-- The procedure counts errors with a counter at `c`, in the configuration `fourPreambles`. -/
structure Counting (c : Nat) (r : RaProc) : Prop where
  counter : r.preambleTransmissionCounter = c
  noBackoff : r.backoffParamMs = 0
  max : r.preambleTransMax = 3
  index : r.preambleIndex = 0
  groupA : r.nofGroupAPreambles = 4
  groupB : r.nofGroupBPreambles = 0
  notSent : r.msg3Transmitted = false
  noIdentity : r.transmittedContentionId = 0

/-- A contention resolution identity arrives that is not the own one, and the error is counted. -/
def otherIdentity : List RaEvent := [.contentionResolutionIdReceived 1, .step fourPreambles {}]

/-- A number of such identities. -/
def otherIdentities : Nat → List RaEvent
  | 0 => []
  | k + 1 => otherIdentities k ++ otherIdentity

section
variable (ttiInterval : Nat → Nat → Nat) (L : SrslteBit)

/-- A step of a period is a step of the procedure. -/
theorem Period.step_step {p : Period} (hstate : p.ra.state ≠ .initialization) (cfg : MacCfg)
    (env : StepEnv) :
    p.step ttiInterval L (.step cfg env) =
      some (p.after (.step cfg env) (p.ra.step ttiInterval cfg env)) := by
  have haccepts : p.accepts (.step cfg env) = true := by
    simp [Period.accepts, initializes, hstate]
  rw [Period.step, if_pos haccepts]
  rfl

/-- The error step counts one error, and goes on while there are attempts left. -/
theorem Counting.stepResponseError {c : Nat} {r : RaProc} (h : Counting c r) :
    Counting ((c + 1) % 2 ^ 32) (r.stepResponseError {}) ∧
      ((c + 1) % 2 ^ 32 ≤ 3 → (r.stepResponseError {}).state = .resourceSelection) := by
  obtain ⟨rfl, hback, hmax, hindex, hA, hB, hsent, hid⟩ := h
  rw [RaProc.stepResponseError]
  dsimp only
  split
  · rename_i hgive
    rw [hmax] at hgive
    exact ⟨⟨rfl, hback, hmax, hindex, hA, hB, hsent, hid⟩, fun hle => by omega⟩
  · refine ⟨⟨rfl, hback, hmax, hindex, hA, hB, hsent, hid⟩, fun _ => ?_⟩
    simp [hback]

/-- So does an identity of another UE. -/
theorem Counting.otherIdentity {c : Nat} {p : Period} (h : Counting c p.ra) :
    ∃ p', runTo (Period.step ttiInterval L) p otherIdentity = some p' ∧
      Counting ((c + 1) % 2 ^ 32) p'.ra ∧
      ((c + 1) % 2 ^ 32 ≤ 3 → p'.ra.state = .resourceSelection) := by
  have hne : (p.ra.transmittedContentionId == 1) = false := by
    rw [h.noIdentity]
    rfl
  have hrefused : (p.ra.contentionResolutionIdReceived 1).1 =
      { p.ra.call .contentionTimerStop with
        state := .responseError, rntis := { p.ra.rntis with tempRnti := 0 } } := by
    simp [RaProc.contentionResolutionIdReceived, RaProc.call, hne]
  have hcounting : Counting c (p.ra.contentionResolutionIdReceived 1).1 := by
    rw [hrefused]
    exact ⟨h.counter, h.noBackoff, h.max, h.index, h.groupA, h.groupB, h.notSent, h.noIdentity⟩
  have hstate : (p.ra.contentionResolutionIdReceived 1).1.state = .responseError := by
    rw [hrefused]
  -- The identity brings the state `RESPONSE_ERROR`, and the step that follows counts.
  let p₁ := p.after (.contentionResolutionIdReceived 1) (p.ra.contentionResolutionIdReceived 1).1
  have hfirst : p.step ttiInterval L (.contentionResolutionIdReceived 1) = some p₁ := by
    have haccepts : p.accepts (.contentionResolutionIdReceived 1) = true := by
      simp [Period.accepts, initializes]
    rw [Period.step, if_pos haccepts]
    rfl
  have hsecond := Period.step_step ttiInterval L (p := p₁)
    (by rw [show p₁.ra.state = _ from hstate]; exact fun hs => by cases hs) fourPreambles {}
  have herror : p₁.ra.step ttiInterval fourPreambles {} = p₁.ra.stepResponseError {} := by
    rw [RaProc.step, show p₁.ra.state = _ from hstate]
  refine ⟨p₁.after (.step fourPreambles {}) (p₁.ra.stepResponseError {}), ?_,
    Counting.stepResponseError hcounting⟩
  rw [herror] at hsecond
  rw [Mac.otherIdentity, runTo, hfirst, Option.bind_some, runTo, hsecond]
  rfl

/-- So do any number of them. Induction on the number. -/
theorem Counting.otherIdentities {c : Nat} (hc : c < 2 ^ 32) {p : Period} (h : Counting c p.ra)
    (k : Nat) :
    ∃ p', runTo (Period.step ttiInterval L) p (otherIdentities k) = some p' ∧
      Counting ((c + k) % 2 ^ 32) p'.ra := by
  induction k with
  | zero => exact ⟨p, rfl, by rwa [Nat.add_zero, Nat.mod_eq_of_lt hc]⟩
  | succ k ih =>
    obtain ⟨p₁, hrun, hcount⟩ := ih
    obtain ⟨p₂, hrun', hcount', -⟩ := hcount.otherIdentity ttiInterval L
    refine ⟨p₂, ?_, by rwa [Nat.mod_add_mod] at hcount'⟩
    rw [Mac.otherIdentities, runTo_append, hrun]
    exact hrun'

end

end SrsUE.Proofs.Mac
