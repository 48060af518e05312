import SrsUE.Lib.Run
import SrsUE.Upper.Timers

/-!
# `SrsUE.Proofs.Upper.TimerIds`: when two entities hold the same timer

`get_unique_id` counts through the twenty timers and then starts again at 0, which is T301. RRC has
taken three of them, so the ids stay apart for as long as `rlc_um` is initialised seventeen times
at most. Bearers that are released give nothing back.

`Assigned n` is the state of affairs after `n` initialisations: the ids lie below `n + 3`, no two
are equal, and a timer that runs has its holder's callback. Every step keeps it until the eighteenth
initialisation (`Assigned.step`), and that one takes T301 (`unshared_not_last`).
`unshared_iff` puts the two together.
-/

set_option autoImplicit false

namespace SrsUE.Upper

open SrsUE.Lib
open SrsUE.Common (TimerOp)
open SrsUE.Rlc (nRadioBearers)

/-! ### The timers -/

namespace UpperTimers

/-- Timer ids below the number of timers have slots of their own. -/
theorem slot_inj {i j : Nat} (hi : i < macNofUpperTimers) (hj : j < macNofUpperTimers)
    (h : slot i = slot j) : i = j := by
  have hval := congrArg Fin.val h
  simpa only [slot, Nat.mod_eq_of_lt hi, Nat.mod_eq_of_lt hj] using hval

/-- An index of the array is the slot of itself. -/
@[simp] theorem slot_val (i : Fin macNofUpperTimers) : slot i = i :=
  Fin.ext (Nat.mod_eq_of_lt i.isLt)

/-- A change of one timer is seen at the ids with the same slot only. -/
theorem get_modify (db : UpperTimers) (i j : Nat) (f : CallbackTimer → CallbackTimer) :
    (db.modify i f).get j = if slot j = slot i then f (db.get j) else db.get j := by
  show Function.update db.timerList (slot i) (f (db.get i)) (slot j) = _
  by_cases h : slot j = slot i
  · rw [if_pos h, h, Function.update_self, get, get, h]
  · rw [if_neg h, Function.update_of_ne h, get]

/-- A change of a timer takes no id. -/
@[simp] theorem nextTimer_modify (db : UpperTimers) (i : Nat)
    (f : CallbackTimer → CallbackTimer) : (db.modify i f).nextTimer = db.nextTimer := rfl

/-- A new id leaves the timers alone. -/
@[simp] theorem get_getUniqueId (db : UpperTimers) (i : Nat) :
    db.getUniqueId.2.get i = db.get i := rfl

/-- `stop_all` stops every timer. -/
@[simp] theorem get_stopAll (db : UpperTimers) (i : Nat) :
    db.stopAll.get i = (db.get i).stop := rfl

end UpperTimers

/-- A timer that does not run does not expire. -/
theorem CallbackTimer.running_of_expires {t : CallbackTimer} (h : t.step.2 = true) :
    t.running = true := by
  cases hr : t.running with
  | true => rfl
  | false => simp [CallbackTimer.step, Rlc.Timer.step, hr] at h

/-- `step` starts no timer. -/
theorem CallbackTimer.running_of_step {t : CallbackTimer} (h : t.step.1.running = true) :
    t.running = true := by
  cases hr : t.running with
  | true => rfl
  | false => simp [CallbackTimer.step, Rlc.Timer.step, hr] at h

/-- A step keeps the object that the timer calls. -/
@[simp] theorem CallbackTimer.callback_step (t : CallbackTimer) :
    t.step.1.callback = t.callback := rfl

/-! ### Who holds a timer -/

/-- RRC with one of its timers, or the `rlc_um` of an entry of `rlc_array`. -/
inductive TimerHolder where
  | rrc (t : RrcTimer)
  | rlcUm (lcid : Nat)
deriving DecidableEq, Repr

/-- The object whose `timer_expired` the timer should call. -/
def TimerHolder.callback : TimerHolder → TimerCallback
  | .rrc _ => .rrc
  | .rlcUm lcid => .rlcUm lcid

namespace Stack

/-- The timer id of a holder that is live: RRC always is, an `rlc_um` while `rlc` points to it. -/
def holds (s : Stack) : TimerHolder → Option Nat
  | .rrc t => some (s.rrcId t)
  | .rlcUm lcid =>
    if (s.rlcArray lcid).rlc = some .um then some (s.rlcArray lcid).um.reorderingTimeoutId
    else none

/-- The timer id that a holder has taken, also when it is not live any more. -/
def taken (s : Stack) : TimerHolder → Option Nat
  | .rrc t => some (s.rrcId t)
  | .rlcUm lcid =>
    if (s.rlcArray lcid).um.macTimers then some (s.rlcArray lcid).um.reorderingTimeoutId
    else none

end Stack

/-- The holders whose timer an action is there to change. `rlc::reset` sets up SRB0 again. -/
def StackAction.mayTouch : StackAction → TimerHolder → Bool
  | .addBearer lcid _, Y => Y = .rlcUm lcid
  | .addDefaultBearer lcid, Y => Y = .rlcUm lcid
  | .rlcReset, Y => Y = .rlcUm 0
  | .umTimer lcid _, Y => Y = .rlcUm lcid
  | .rrcTimer t _, Y => Y = .rrc t
  | .tick _, _ => true
  | .stopAll, _ => true

/-- No timer is shared in a step: the ids of the live holders differ after it, it changes the timer
of no other holder, and a timer that expires in it calls its holder. -/
structure Unshared (s : Stack) (a : StackAction) (s' : Stack) : Prop where
  distinct : ∀ X Y i, s'.holds X = some i → s'.holds Y = some i → X = Y
  undisturbed : ∀ Y i, a.mayTouch Y = false → s.holds Y = some i →
    s'.timersDb.get i = s.timersDb.get i
  owner : ∀ X (i : Fin macNofUpperTimers), a = .tick i → (s.timersDb.get i).step.2 = true →
    s.holds X = some i.val → (s.timersDb.get i).callback = some X.callback

/-- An action that initialises an `rlc_um`: a bearer with a UM configuration is added where no
entity is active. -/
def Stack.initsUm (s : Stack) : StackAction → Bool
  | .addBearer lcid cnfg =>
    decide (lcid < nRadioBearers) && !(s.rlcArray lcid).active && decide (cnfg.mode = some .um)
  | _ => false

/-- The number of initialisations of an `rlc_um` in a run. -/
def Stack.umInits : Stack → List StackAction → Nat
  | _, [] => 0
  | s, a :: as => (s.initsUm a).toNat + (s.step a).umInits as

/-! ### What holds after each initialisation -/

/-- The timer is fit for its holder: it does not call another when it expires. -/
def CallbackTimer.Serves (t : CallbackTimer) : TimerHolder → Prop
  | .rrc _ => t.callback = some .rrc
  | .rlcUm lcid => t.running = true → t.callback = some (.rlcUm lcid)

namespace CallbackTimer.Serves

variable {t : CallbackTimer} {X : TimerHolder}

/-- A timer that is stopped is still fit for its holder. -/
theorem stop (h : t.Serves X) : t.stop.Serves X := by
  cases X with
  | rrc => exact h
  | rlcUm => exact fun hr => absurd hr Bool.false_ne_true

/-- So is one that has taken a step. -/
theorem step (h : t.Serves X) : t.step.1.Serves X := by
  cases X with
  | rrc => exact h
  | rlcUm => exact fun hr => h (running_of_step hr)

/-- So is a timer of RRC after RRC has set, run or stopped it. -/
theorem apply {r : RrcTimer} (h : t.Serves (.rrc r)) (op : TimerOp) :
    (CallbackTimer.apply op t).Serves (.rrc r) := by
  cases op with
  | set timeout => rfl
  | reset => exact h
  | run => exact h
  | stop => exact h

/-- A timer that is fit for its holder and expires calls it. -/
theorem callback_of_expires (h : t.Serves X) (he : t.step.2 = true) :
    t.callback = some X.callback := by
  cases X with
  | rrc => exact h
  | rlcUm => exact h (running_of_expires he)

end CallbackTimer.Serves

/-- The timers after `n` initialisations of an `rlc_um`. -/
structure Assigned (n : Nat) (s : Stack) : Prop where
  le : n ≤ 17
  next : s.timersDb.nextTimer = n + 3
  t301 : s.t301 = 0
  lt : ∀ X i, s.taken X = some i → i < n + 3
  inj : ∀ X Y i, s.taken X = some i → s.taken Y = some i → X = Y
  live : ∀ lcid, (s.rlcArray lcid).rlc = some .um → (s.rlcArray lcid).um.macTimers = true
  serves : ∀ X i, s.taken X = some i → (s.timersDb.get i).Serves X
  free : ∀ i, n + 3 ≤ i → i < macNofUpperTimers → (s.timersDb.get i).running = false

namespace Assigned

variable {n : Nat} {s : Stack}

/-- Ids are taken from the timers that there are. -/
theorem taken_lt (h : Assigned n s) {X : TimerHolder} {i : Nat} (hX : s.taken X = some i) :
    i < macNofUpperTimers := by
  have hlt := h.lt X i hX
  have hle := h.le
  show i < 20
  omega

/-- A live holder has taken its id. -/
theorem taken_of_holds (h : Assigned n s) {X : TimerHolder} {i : Nat} (hX : s.holds X = some i) :
    s.taken X = some i := by
  cases X with
  | rrc t => exact hX
  | rlcUm lcid =>
    rw [Stack.holds] at hX
    split at hX
    · rename_i hum
      rw [Stack.taken, if_pos (h.live lcid hum), hX]
    · cases hX

/-- Live holders have ids of their own. -/
theorem distinct (h : Assigned n s) (X Y : TimerHolder) (i : Nat) (hX : s.holds X = some i)
    (hY : s.holds Y = some i) : X = Y :=
  h.inj X Y i (h.taken_of_holds hX) (h.taken_of_holds hY)

/-- A call on the timer of one holder leaves the timers of the others. -/
theorem get_modify_of_ne (h : Assigned n s) {X Y : TimerHolder} {i j : Nat}
    (hX : s.taken X = some i) (hY : s.taken Y = some j) (hne : X ≠ Y)
    (f : CallbackTimer → CallbackTimer) :
    (s.timersDb.modify i f).get j = s.timersDb.get j := by
  rw [UpperTimers.get_modify, if_neg]
  intro hslot
  obtain rfl := UpperTimers.slot_inj (h.taken_lt hY) (h.taken_lt hX) hslot
  exact hne (h.inj X Y j hX hY)

/-- The invariant speaks only of the timers and of who has taken them. -/
theorem of_timers (h : Assigned n s) {s' : Stack}
    (hnext : s'.timersDb.nextTimer = s.timersDb.nextTimer) (ht301 : s'.t301 = s.t301)
    (htaken : ∀ X, s'.taken X = s.taken X)
    (hlive : ∀ lcid, (s'.rlcArray lcid).rlc = some .um →
      (s'.rlcArray lcid).um.macTimers = true)
    (hserves : ∀ X i, s.taken X = some i → (s'.timersDb.get i).Serves X)
    (hfree : ∀ i, n + 3 ≤ i → i < macNofUpperTimers →
      (s'.timersDb.get i).running = false) : Assigned n s' where
  le := h.le
  next := hnext.trans h.next
  t301 := ht301.trans h.t301
  lt X i hX := h.lt X i (htaken X ▸ hX)
  inj X Y i hX hY := h.inj X Y i (htaken X ▸ hX) (htaken Y ▸ hY)
  live := hlive
  serves X i hX := hserves X i (htaken X ▸ hX)
  free := hfree

/-- A call on the timer that `X` has taken, which leaves it fit for `X`. -/
theorem modify (h : Assigned n s) {X : TimerHolder} {i : Nat} (hX : s.taken X = some i)
    {f : CallbackTimer → CallbackTimer}
    (hf : (s.timersDb.get i).Serves X → (f (s.timersDb.get i)).Serves X) :
    Assigned n { s with timersDb := s.timersDb.modify i f } := by
  refine h.of_timers rfl rfl (fun _ => rfl) h.live (fun Y j hY => ?_) (fun j hj hjlt => ?_)
  · by_cases hne : X = Y
    · subst hne
      obtain rfl : i = j := Option.some.inj (hX.symm.trans hY)
      rw [UpperTimers.get_modify, if_pos rfl]
      exact hf (h.serves X i hX)
    · rw [h.get_modify_of_ne hX hY hne]
      exact h.serves Y j hY
  -- A timer that is free lies above all that are taken.
  · rw [UpperTimers.get_modify, if_neg]
    · exact h.free j hj hjlt
    · intro hslot
      have := UpperTimers.slot_inj hjlt (h.taken_lt hX) hslot
      have := h.lt X i hX
      omega

/-- A change of one entity that keeps its `rlc_um`. -/
theorem updateEntity (h : Assigned n s) (lcid : Nat) {e : RlcEntity}
    (hmac : e.um.macTimers = (s.rlcArray lcid).um.macTimers)
    (hid : e.um.reorderingTimeoutId = (s.rlcArray lcid).um.reorderingTimeoutId)
    (hlive : e.rlc = some .um → (s.rlcArray lcid).um.macTimers = true) :
    Assigned n { s with rlcArray := Function.update s.rlcArray lcid e } := by
  refine h.of_timers rfl rfl (fun X => ?_) (fun l hl => ?_) h.serves h.free
  · cases X with
    | rrc t => rfl
    | rlcUm l =>
      by_cases hl : l = lcid
      · subst hl
        simp only [Stack.taken, Function.update_self, hmac, hid]
      · simp only [Stack.taken, Function.update_of_ne hl]
  · by_cases heq : l = lcid
    · subst heq
      simp only [Function.update_self] at hl ⊢
      rw [hmac]
      exact hlive hl
    · simp only [Function.update_of_ne heq] at hl ⊢
      exact h.live l hl

/-- The reset of an `rlc_um` stops its timer and takes no id. -/
theorem umReset (h : Assigned n s) (lcid : Nat) :
    Assigned n { s with timersDb := (s.rlcArray lcid).um.reset s.timersDb } := by
  rw [RlcUm.reset]
  split
  · rename_i hmac
    exact h.modify (X := .rlcUm lcid) (if_pos hmac) CallbackTimer.Serves.stop
  · exact h

/-- The configuration of an entity sets its timer and takes no id. -/
theorem configureEntity (h : Assigned n s) (lcid : Nat) (cnfg : RlcConfig) :
    Assigned n (s.configureEntity lcid cnfg) := by
  rw [Stack.configureEntity, RlcEntity.configure]
  split
  · rename_i hum
    refine h.updateEntity lcid ?_ ?_ fun _ => h.live lcid hum
    · cases cnfg <;> rfl
    · cases cnfg <;> rfl
  · exact h.updateEntity lcid rfl rfl (h.live lcid)

/-- An entity that is not set up for UM takes no id. -/
theorem initEntity_of_ne (h : Assigned n s) (lcid : Nat) {mode : RlcMode} (hmode : mode ≠ .um) :
    Assigned n (s.initEntity lcid mode) := by
  have hreset := (h.umReset lcid).updateEntity lcid
    (e := { s.rlcArray lcid with rlc := some mode }) rfl rfl
    fun hum => absurd (Option.some.inj hum) hmode
  cases mode with
  | um => exact absurd rfl hmode
  | tm => exact hreset
  | am => exact hreset

/-- The next id goes to an `rlc_um`, as long as there is one. -/
theorem takeId (h : Assigned n s) (hn : n < 17) (lcid : Nat) :
    Assigned (n + 1)
      { s with
          rlcArray := Function.update s.rlcArray lcid
            { um := ((s.rlcArray lcid).um.init s.timersDb).1, rlc := some .um }
          timersDb := ((s.rlcArray lcid).um.init s.timersDb).2 } := by
  set s' : Stack := { s with
    rlcArray := Function.update s.rlcArray lcid
      { um := ((s.rlcArray lcid).um.init s.timersDb).1, rlc := some .um }
    timersDb := ((s.rlcArray lcid).um.init s.timersDb).2 } with hs'
  have hid : s.timersDb.getUniqueId.1 = n + 3 := by
    rw [UpperTimers.getUniqueId, h.next, if_neg (show ¬n + 3 = 20 by omega)]
  have hself : s'.taken (.rlcUm lcid) = some (n + 3) := by
    simp [hs', Stack.taken, RlcUm.init, hid]
  have hother : ∀ X, X ≠ .rlcUm lcid → s'.taken X = s.taken X := by
    intro X hX
    cases X with
    | rrc t => rfl
    | rlcUm l =>
      have hl : l ≠ lcid := fun heq => hX (congrArg _ heq)
      simp only [hs', Stack.taken, Function.update_of_ne hl]
  -- A holder after the step is the new one, or it had its id before.
  have hcases : ∀ X i, s'.taken X = some i →
      X = .rlcUm lcid ∧ i = n + 3 ∨ X ≠ .rlcUm lcid ∧ s.taken X = some i := by
    intro X i hX
    by_cases heq : X = .rlcUm lcid
    · subst heq
      exact .inl ⟨rfl, (Option.some.inj (hself.symm.trans hX)).symm⟩
    · exact .inr ⟨heq, (hother X heq) ▸ hX⟩
  constructor
  case le => omega
  case next =>
    show (if s.timersDb.nextTimer = macNofUpperTimers then 0 else s.timersDb.nextTimer) + 1 = _
    rw [h.next, if_neg (show ¬n + 3 = 20 by omega)]
  case t301 => exact h.t301
  case lt =>
    intro X i hX
    obtain ⟨-, rfl⟩ | ⟨-, hold⟩ := hcases X i hX
    · omega
    · have := h.lt X i hold
      omega
  case inj =>
    intro X Y i hX hY
    obtain ⟨rfl, rfl⟩ | ⟨-, hXold⟩ := hcases X i hX
    · obtain ⟨rfl, -⟩ | ⟨-, hYold⟩ := hcases Y _ hY
      · rfl
      · exact absurd (h.lt Y _ hYold) (Nat.lt_irrefl _)
    · obtain ⟨rfl, rfl⟩ | ⟨-, hYold⟩ := hcases Y i hY
      · exact absurd (h.lt X _ hXold) (Nat.lt_irrefl _)
      · exact h.inj X Y i hXold hYold
  case live =>
    intro l hl
    by_cases heq : l = lcid
    · subst heq
      simp [hs', RlcUm.init]
    · simp only [hs', Function.update_of_ne heq] at hl ⊢
      exact h.live l hl
  case serves =>
    intro X i hX
    obtain ⟨rfl, rfl⟩ | ⟨-, hold⟩ := hcases X i hX
    -- The timer of the new id was free: it does not run.
    · intro hrun
      exact absurd (h.free (n + 3) le_rfl (show n + 3 < 20 by omega))
        (Bool.ne_false_iff.mpr hrun)
    · exact h.serves X i hold
  case free =>
    intro i hi hlt
    exact h.free i (by omega) hlt

/-- The initialisation of an `rlc_um` takes the next id. There is one for each while fewer than 17
are taken. -/
theorem initEntity_um (h : Assigned n s) (hn : n < 17) (lcid : Nat) :
    Assigned (n + 1) (s.initEntity lcid .um) :=
  (h.umReset lcid).takeId hn lcid

/-- `rlc::reset` resets the entities and sets up SRB0 again, in TM. -/
theorem rlcReset (h : Assigned n s) : Assigned n s.rlcReset := by
  refine initEntity_of_ne ?_ 0 (show RlcMode.tm ≠ .um by decide)
  refine h.of_timers rfl rfl (fun X => ?_) (fun l hl => ?_) h.serves h.free
  · cases X with
    | rrc t => rfl
    | rlcUm l =>
      simp only [Stack.taken]
      split <;> rfl
  · simp only at hl ⊢
    split at hl
    · cases hl
    · rename_i hact
      rw [if_neg hact]
      exact h.live l hl

/-- An `rlc_um` runs or stops the timer it has. -/
theorem umTimer (h : Assigned n s) (lcid : Nat) (start : Bool) :
    Assigned n (s.umTimer lcid start) := by
  simp only [Stack.umTimer]
  split
  · rename_i hmac
    refine h.modify (X := .rlcUm lcid) (if_pos hmac) fun hs => ?_
    cases start with
    | true => exact fun _ => rfl
    | false => exact hs.stop
  · exact h

/-- RRC changes the timer it has. -/
theorem rrcTimer (h : Assigned n s) (t : RrcTimer) (op : TimerOp) :
    Assigned n (s.rrcTimer t op) :=
  h.modify (X := .rrc t) rfl fun hs => hs.apply op

/-- A tick of the clock takes no id. -/
theorem tick (h : Assigned n s) (i : Fin macNofUpperTimers) :
    Assigned n { s with timersDb := s.timersDb.modify i fun t => t.step.1 } := by
  refine h.of_timers rfl rfl (fun _ => rfl) h.live (fun X j hX => ?_) (fun j hj hlt => ?_)
  · rw [UpperTimers.get_modify]
    split
    · exact (h.serves X j hX).step
    · exact h.serves X j hX
  · rw [UpperTimers.get_modify]
    have hfree := h.free j hj hlt
    split
    · exact Bool.eq_false_iff.mpr fun hrun =>
        Bool.eq_false_iff.mp hfree (CallbackTimer.running_of_step hrun)
    · exact hfree

/-- `stop_all` takes no id. -/
theorem stopAll (h : Assigned n s) :
    Assigned n { s with timersDb := s.timersDb.stopAll } :=
  h.of_timers rfl rfl (fun _ => rfl) h.live (fun X i hX => (h.serves X i hX).stop)
    fun _ _ _ => rfl

/-- A bearer that initialises no `rlc_um` takes no id. -/
theorem addBearer (h : Assigned n s) {lcid : Nat} {cnfg : RlcConfig}
    (hinit : s.initsUm (.addBearer lcid cnfg) = false) : Assigned n (s.addBearer lcid cnfg) := by
  rw [Stack.addBearer]
  split
  · exact h
  · rename_i hlcid
    split
    · exact h.configureEntity lcid cnfg
    · rename_i hact
      split
      · exact h
      · rename_i mode hmode
        refine (h.initEntity_of_ne lcid ?_).configureEntity lcid cnfg
        rintro rfl
        simp [Stack.initsUm, hmode, hact, Nat.lt_of_not_le hlcid] at hinit

end Assigned

/-- An action that initialises an `rlc_um` is the one on its entity, with a configuration. -/
theorem Stack.step_of_initsUm {s : Stack} {a : StackAction} (hinit : s.initsUm a = true) :
    ∃ lcid cnfg, a = .addBearer lcid cnfg ∧
      s.step a = (s.initEntity lcid .um).configureEntity lcid cnfg := by
  cases a with
  | addBearer lcid cnfg =>
    simp only [initsUm, Bool.and_eq_true, decide_eq_true_eq, Bool.not_eq_true'] at hinit
    obtain ⟨⟨hlcid, hact⟩, hmode⟩ := hinit
    refine ⟨lcid, cnfg, rfl, ?_⟩
    simp only [step, addBearer, if_neg (Nat.not_le_of_lt hlcid), hact, hmode,
      Bool.false_eq_true, if_false]
  | _ => cases hinit

namespace Assigned

variable {n : Nat} {s : Stack}

/-- A step that initialises no `rlc_um`. -/
theorem step (h : Assigned n s) {a : StackAction} (hinit : s.initsUm a = false) :
    Assigned n (s.step a) := by
  cases a with
  | addBearer lcid cnfg => exact h.addBearer hinit
  | addDefaultBearer lcid =>
    simp only [Stack.step, Stack.addDefaultBearer]
    split
    · split
      · exact h
      · exact h.addBearer (by simp [Stack.initsUm, RlcConfig.mode])
    · exact h
  | rlcReset => exact h.rlcReset
  | umTimer lcid start => exact h.umTimer lcid start
  | rrcTimer t op => exact h.rrcTimer t op
  | tick i => exact h.tick i
  | stopAll => exact h.stopAll

/-- A step that initialises an `rlc_um`. -/
theorem step_succ (h : Assigned n s) (hn : n < 17) {a : StackAction}
    (hinit : s.initsUm a = true) : Assigned (n + 1) (s.step a) := by
  obtain ⟨lcid, cnfg, -, hstep⟩ := Stack.step_of_initsUm hinit
  rw [hstep]
  exact (h.initEntity_um hn lcid).configureEntity lcid cnfg

/-! ### What a step leaves alone -/

/-- The reset of an `rlc_um` leaves the timers of the other holders alone. -/
theorem get_umReset (h : Assigned n s) {lcid : Nat} {Y : TimerHolder} {j : Nat}
    (hY : s.taken Y = some j) (hne : Y ≠ .rlcUm lcid) :
    ((s.rlcArray lcid).um.reset s.timersDb).get j = s.timersDb.get j := by
  rw [RlcUm.reset]
  split
  · rename_i hmac
    exact h.get_modify_of_ne (X := .rlcUm lcid) (if_pos hmac) hY hne.symm _
  · rfl

/-- So does the initialisation of an entity. -/
theorem get_initEntity (h : Assigned n s) {lcid : Nat} {Y : TimerHolder} {j : Nat}
    (hY : s.taken Y = some j) (hne : Y ≠ .rlcUm lcid) (mode : RlcMode) :
    (s.initEntity lcid mode).timersDb.get j = s.timersDb.get j := by
  rw [← h.get_umReset hY hne]
  cases mode <;> rfl

/-- So does the addition of a bearer. -/
theorem get_addBearer (h : Assigned n s) {lcid : Nat} {Y : TimerHolder} {j : Nat}
    (hY : s.taken Y = some j) (hne : Y ≠ .rlcUm lcid) (cnfg : RlcConfig) :
    (s.addBearer lcid cnfg).timersDb.get j = s.timersDb.get j := by
  rw [Stack.addBearer]
  split
  · rfl
  · split
    · rfl
    · split
      · rfl
      · exact h.get_initEntity hY hne _

/-- An action changes no timer but those of the holders it is there for. -/
theorem undisturbed (h : Assigned n s) {a : StackAction} {Y : TimerHolder} {j : Nat}
    (ha : a.mayTouch Y = false) (hY : s.holds Y = some j) :
    (s.step a).timersDb.get j = s.timersDb.get j := by
  have hY := h.taken_of_holds hY
  cases a with
  | addBearer lcid cnfg => exact h.get_addBearer hY (of_decide_eq_false ha) cnfg
  | addDefaultBearer lcid =>
    simp only [Stack.step, Stack.addDefaultBearer]
    split
    · split
      · rfl
      · exact h.get_addBearer hY (of_decide_eq_false ha) .am
    · rfl
  | rlcReset =>
    refine Eq.trans ?_ (h.get_umReset hY (of_decide_eq_false ha))
    simp only [Stack.step, Stack.rlcReset, Stack.initEntity, RlcEntity.init]
    split <;> rfl
  | umTimer lcid start =>
    simp only [Stack.step, Stack.umTimer]
    split
    · rename_i hmac
      dsimp only
      exact h.get_modify_of_ne (X := .rlcUm lcid) (if_pos hmac) hY
        (Ne.symm (of_decide_eq_false ha)) _
    · rfl
  | rrcTimer t op =>
    exact h.get_modify_of_ne (X := .rrc t) rfl hY (Ne.symm (of_decide_eq_false ha)) _
  | tick i => cases ha
  | stopAll => cases ha

/-- As long as the ids after a step differ, no timer is shared in it. -/
theorem unshared (h : Assigned n s) {a : StackAction} {m : Nat} (h' : Assigned m (s.step a)) :
    Unshared s a (s.step a) where
  distinct := h'.distinct
  undisturbed _ _ ha hY := h.undisturbed ha hY
  owner _ _ _ he hX := (h.serves _ _ (h.taken_of_holds hX)).callback_of_expires he

/-- The eighteenth initialisation takes T301. -/
theorem not_unshared (h : Assigned 17 s) {a : StackAction} (hinit : s.initsUm a = true) :
    ¬Unshared s a (s.step a) := by
  obtain ⟨lcid, cnfg, -, hstep⟩ := Stack.step_of_initsUm hinit
  intro hun
  have hum : (s.step a).holds (.rlcUm lcid) = some 0 := by
    have hid : s.timersDb.getUniqueId.1 = 0 := by
      rw [UpperTimers.getUniqueId, h.next, if_pos rfl]
    have hreset : ((s.rlcArray lcid).um.reset s.timersDb).getUniqueId.1 = 0 := by
      rw [← hid, RlcUm.reset]
      split <;> rfl
    rw [hstep]
    cases cnfg <;>
      simp [Stack.holds, Stack.configureEntity, Stack.initEntity, RlcEntity.init,
        RlcEntity.configure, RlcUm.configure, RlcUm.init, hreset]
  have hrrc : (s.step a).holds (.rrc .t301) = some 0 := by
    rw [hstep]
    exact congrArg some h.t301
  cases hun.distinct _ _ _ hum hrrc

end Assigned

/-! ### Runs -/

/-- Each step of `Stack` is defined. -/
def Stack.next (s : Stack) (a : StackAction) : Option Stack := some (s.step a)

/-- From `n` initialisations on, no timer is shared in a run as long as the total stays at
seventeen or below. -/
theorem Assigned.along_iff {n : Nat} {s : Stack} (h : Assigned n s) (as : List StackAction) :
    Along Stack.next Unshared s as ↔ n + s.umInits as ≤ 17 := by
  induction as generalizing n s with
  | nil => exact ⟨fun _ => h.le, fun _ => trivial⟩
  | cons a as ih =>
    have hcons : Along Stack.next Unshared s (a :: as) ↔
        Unshared s a (s.step a) ∧ Along Stack.next Unshared (s.step a) as :=
      ⟨fun hal => hal _ rfl, fun hal _ hs => Option.some.inj hs ▸ hal⟩
    rw [hcons, Stack.umInits]
    cases hinit : s.initsUm a with
    | false =>
      have h' := h.step hinit
      rw [ih h', Bool.toNat_false, Nat.zero_add]
      exact and_iff_right (h.unshared h')
    | true =>
      rw [Bool.toNat_true]
      by_cases hn : n < 17
      · have h' := h.step_succ hn hinit
        rw [ih h', ← Nat.add_assoc]
        exact and_iff_right (h.unshared h')
      · obtain rfl : n = 17 := Nat.le_antisymm h.le (Nat.le_of_not_lt hn)
        constructor
        · exact fun hal => absurd hal.1 (h.not_unshared hinit)
        · intro hle
          omega

/-- `set` starts no timer. -/
theorem Stack.running_set {s : Stack} (h : ∀ i, (s.timersDb.get i).running = false)
    (t : RrcTimer) (timeout : Nat) (i : Nat) :
    ((s.rrcTimer t (.set timeout)).timersDb.get i).running = false := by
  show ((s.timersDb.modify _ _).get i).running = false
  rw [UpperTimers.get_modify]
  split
  · exact h i
  · exact h i

/-- After start-up RRC holds the first three timers, and no `rlc_um` has one. -/
theorem taken_afterStartUp {t301 t310 t311 : Nat} {X : TimerHolder} {i : Nat}
    (hX : (Stack.afterStartUp t301 t310 t311).taken X = some i) :
    X = .rrc .t301 ∧ i = 0 ∨ X = .rrc .t310 ∧ i = 1 ∨ X = .rrc .t311 ∧ i = 2 := by
  cases X with
  | rrc t =>
    obtain rfl := Option.some.inj hX
    cases t with
    | t301 => exact .inl ⟨rfl, rfl⟩
    | t310 => exact .inr (.inl ⟨rfl, rfl⟩)
    | t311 => exact .inr (.inr ⟨rfl, rfl⟩)
  | rlcUm lcid =>
    -- Only SRB0 is set up, for TM.
    by_cases h0 : lcid = 0
    · subst h0
      cases hX
    · rw [Stack.taken, if_neg] at hX
      · cases hX
      · show ¬(Function.update (fun _ => ({} : RlcEntity)) 0 _ lcid).um.macTimers = true
        rw [Function.update_of_ne h0]
        exact Bool.false_ne_true

/-- After the start the three timers of RRC are taken, and no other. -/
theorem assigned_afterStartUp (t301 t310 t311 : Nat) :
    Assigned 0 (Stack.afterStartUp t301 t310 t311) := by
  constructor
  case le => omega
  case next => rfl
  case t301 => rfl
  case lt =>
    intro X i hX
    obtain ⟨-, rfl⟩ | ⟨-, rfl⟩ | ⟨-, rfl⟩ := taken_afterStartUp hX <;> decide
  case inj =>
    intro X Y i hX hY
    obtain ⟨rfl, rfl⟩ | ⟨rfl, rfl⟩ | ⟨rfl, rfl⟩ := taken_afterStartUp hX <;>
      obtain ⟨rfl, h⟩ | ⟨rfl, h⟩ | ⟨rfl, h⟩ := taken_afterStartUp hY <;> first | rfl | cases h
  case live =>
    intro lcid hum
    by_cases h0 : lcid = 0
    · subst h0
      cases hum
    · change (Function.update (fun _ => ({} : RlcEntity)) 0 _ lcid).rlc = some .um at hum
      rw [Function.update_of_ne h0] at hum
      cases hum
  case serves =>
    intro X i hX
    obtain ⟨rfl, rfl⟩ | ⟨rfl, rfl⟩ | ⟨rfl, rfl⟩ := taken_afterStartUp hX <;> rfl
  case free =>
    intro i _ _
    refine Stack.running_set (fun i => ?_) _ _ i
    refine Stack.running_set (fun i => ?_) _ _ i
    refine Stack.running_set (fun i => ?_) _ _ i
    refine Stack.running_set (fun i => ?_) _ _ i
    exact Stack.running_set (fun _ => rfl) _ _ i

/-- **When timers are shared.** In a run after start-up no timer is shared exactly as long as an
`rlc_um` is initialised seventeen times at most. -/
theorem unshared_iff (t301 t310 t311 : Nat) (as : List StackAction) :
    Along Stack.next Unshared (Stack.afterStartUp t301 t310 t311) as ↔
      (Stack.afterStartUp t301 t310 t311).umInits as ≤ 17 := by
  rw [(assigned_afterStartUp t301 t310 t311).along_iff as, Nat.zero_add]

/-- Seventeen reconnections with one UM bearer, and one more: the bearer gets the id of T301. -/
theorem not_unshared_reconnections :
    ¬Along Stack.next Unshared (Stack.afterStartUp 1000 1000 1000)
      ((List.replicate 17 [.addBearer 3 (.umBi 35), .rlcReset]).flatten ++
        [.addBearer 3 (.umBi 35)]) := by
  rw [(assigned_afterStartUp 1000 1000 1000).along_iff]
  decide

end SrsUE.Upper
