import Mathlib.Logic.Function.Basic
import SrsUE.Common.TimerCalls

/-!
# `SrsUE.Upper.Timers`: the timers of the upper layers and the entities that hold them

`mac` keeps one `timers` object (`timers.h`) for the layers above it. RRC takes three timers from it
when it starts, and every initialisation of an `rlc_um` entity takes one more. This is the part of
`rlc`, `rlc_entity`, `rlc_um` and `rrc` that takes, sets and stops these timers.

A step is one call that RRC or the MAC makes, or one use of a timer by the entity that holds its id:
which of these come, and when, depends on the messages and is left open. `step_all` is a `tick` of
every timer in turn, and what a callback does to the timers are steps of their own that follow.
-/

set_option autoImplicit false

namespace SrsUE.Upper

open SrsUE.Common (TimerOp)
open SrsUE.Rlc (Timer nRadioBearers)

/-! ### `timers.h` -/

/-- The objects that are a `timer_callback`: `rrc`, and the `um` of each entry of `rlc_array`. -/
inductive TimerCallback where
  | rrc
  | rlcUm (lcid : Nat)
deriving DecidableEq, Repr

/-- A `timers::timer` with its callback. -/
structure CallbackTimer extends Timer where
  callback : Option TimerCallback := none
deriving DecidableEq, Repr

namespace CallbackTimer

/-- `set` -/
def set (t : CallbackTimer) (callback : TimerCallback) (timeout : Nat) : CallbackTimer :=
  { toTimer := t.toTimer.set timeout, callback := some callback }

/-- `reset` -/
def reset (t : CallbackTimer) : CallbackTimer := { t with counter := 0 }

/-- `run` -/
def run (t : CallbackTimer) : CallbackTimer := { t with toTimer := t.toTimer.run }

/-- `stop` -/
def stop (t : CallbackTimer) : CallbackTimer := { t with toTimer := t.toTimer.stop }

/-- `step`: the timer after it, and whether it calls `timer_expired` of its callback. -/
def step (t : CallbackTimer) : CallbackTimer × Bool :=
  ({ t with toTimer := t.toTimer.step.1 }, t.toTimer.step.2)

end CallbackTimer

/-- `MAC_NOF_UPPER_TIMERS` -/
abbrev macNofUpperTimers : Nat := 20

/-- The `timers` object behind `mac_interface_timers`. -/
structure UpperTimers where
  timerList : Fin macNofUpperTimers → CallbackTimer := fun _ => {}
  nextTimer : Nat := 0

namespace UpperTimers

/-- The place of a timer id. `upper_timers::get` reduces the id first. -/
def slot (timerId : Nat) : Fin macNofUpperTimers :=
  ⟨timerId % macNofUpperTimers, Nat.mod_lt _ (by decide)⟩

/-- `upper_timers::get` -/
def get (db : UpperTimers) (timerId : Nat) : CallbackTimer := db.timerList (slot timerId)

/-- A call of a member function of the timer that `get` returns. -/
def modify (db : UpperTimers) (timerId : Nat) (f : CallbackTimer → CallbackTimer) : UpperTimers :=
  { db with timerList := Function.update db.timerList (slot timerId) (f (db.get timerId)) }

/-- `get_unique_id` -/
def getUniqueId (db : UpperTimers) : Nat × UpperTimers :=
  let next := if db.nextTimer = macNofUpperTimers then 0 else db.nextTimer
  (next, { db with nextTimer := next + 1 })

/-- `stop_all` -/
def stopAll (db : UpperTimers) : UpperTimers :=
  { db with timerList := fun i => (db.timerList i).stop }

end UpperTimers

/-! ### RLC -/

/-- `rlc_mode_t` -/
inductive RlcMode where
  | tm
  | um
  | am
deriving DecidableEq, Repr

/-- `LIBLTE_RRC_RLC_CONFIG_STRUCT`: its mode, with the reordering timeout where it has one. -/
inductive RlcConfig where
  | am
  | umBi (tReordering : Nat)
  | umUniUl
  | umUniDl (tReordering : Nat)
  | invalid
deriving DecidableEq, Repr

/-- The mode that `rlc::add_bearer` initialises an entity with. -/
def RlcConfig.mode : RlcConfig → Option RlcMode
  | .am => some .am
  | .umBi _ | .umUniDl _ | .umUniUl => some .um
  | .invalid => none

/-- The fields of `rlc_um` that have to do with its timer. `macTimers` says that the pointer of that
name is set. -/
structure RlcUm where
  macTimers : Bool := false
  reorderingTimeoutId : Nat := 0
  tReordering : Nat := 0
deriving DecidableEq, Repr

namespace RlcUm

/-- `rlc_um::init` -/
def init (um : RlcUm) (db : UpperTimers) : RlcUm × UpperTimers :=
  ({ um with macTimers := true, reorderingTimeoutId := db.getUniqueId.1 }, db.getUniqueId.2)

/-- `rlc_um::configure` -/
def configure (um : RlcUm) : RlcConfig → RlcUm
  | .umBi t | .umUniDl t => { um with tReordering := t }
  | .umUniUl | .am | .invalid => um

/-- `rlc_um::reset` -/
def reset (um : RlcUm) (db : UpperTimers) : UpperTimers :=
  if um.macTimers then db.modify um.reorderingTimeoutId .stop else db

end RlcUm

/-- An `rlc_entity`: its `rlc_um`, and the one of its three entities that `rlc` points to. -/
structure RlcEntity where
  um : RlcUm := {}
  rlc : Option RlcMode := none
deriving DecidableEq, Repr

namespace RlcEntity

/-- `active` -/
def active (e : RlcEntity) : Bool := e.rlc.isSome

/-- `rlc_entity::init`. It resets all three entities before it takes one. -/
def init (e : RlcEntity) (mode : RlcMode) (db : UpperTimers) : RlcEntity × UpperTimers :=
  let db := e.um.reset db
  match mode with
  | .um => ({ um := (e.um.init db).1, rlc := some .um }, (e.um.init db).2)
  | mode => ({ e with rlc := some mode }, db)

/-- `rlc_entity::configure` -/
def configure (e : RlcEntity) (cnfg : RlcConfig) : RlcEntity :=
  if e.rlc = some .um then { e with um := e.um.configure cnfg } else e

/-- `rlc_entity::reset`. It leaves the timer of the entity alone. -/
def reset (e : RlcEntity) : RlcEntity := { e with rlc := none }

end RlcEntity

/-! ### The layers together -/

/-- The timers of RRC. -/
inductive RrcTimer where
  | t301
  | t310
  | t311
deriving DecidableEq, Repr

/-- `mac`, `rlc` and `rrc`, as far as the timers go. -/
structure Stack where
  timersDb : UpperTimers := {}
  rlcArray : Nat → RlcEntity := fun _ => {}
  t301 : Nat := 0
  t310 : Nat := 0
  t311 : Nat := 0

/-- A call of RRC on one of its timers. -/
def CallbackTimer.apply : TimerOp → CallbackTimer → CallbackTimer
  | .set timeout, t => t.set .rrc timeout
  | .reset, t => t.reset
  | .run, t => t.run
  | .stop, t => t.stop

namespace Stack

/-- The id that RRC keeps for a timer. -/
def rrcId (s : Stack) : RrcTimer → Nat
  | .t301 => s.t301
  | .t310 => s.t310
  | .t311 => s.t311

/-- `rlc_array[lcid].init` -/
def initEntity (s : Stack) (lcid : Nat) (mode : RlcMode) : Stack :=
  { s with
      rlcArray := Function.update s.rlcArray lcid ((s.rlcArray lcid).init mode s.timersDb).1
      timersDb := ((s.rlcArray lcid).init mode s.timersDb).2 }

/-- `rlc_array[lcid].configure` -/
def configureEntity (s : Stack) (lcid : Nat) (cnfg : RlcConfig) : Stack :=
  { s with rlcArray := Function.update s.rlcArray lcid ((s.rlcArray lcid).configure cnfg) }

/-- `rlc::add_bearer` with a configuration. -/
def addBearer (s : Stack) (lcid : Nat) (cnfg : RlcConfig) : Stack :=
  if nRadioBearers ≤ lcid then s
  -- An entity that is active takes no other timer.
  else if (s.rlcArray lcid).active then s.configureEntity lcid cnfg
  else
    match cnfg.mode with
    | none => s
    | some mode => (s.initEntity lcid mode).configureEntity lcid cnfg

/-- `rlc::add_bearer` with the defaults: AM on SRB1 and SRB2. -/
def addDefaultBearer (s : Stack) (lcid : Nat) : Stack :=
  if lcid = 1 ∨ lcid = 2 then
    if (s.rlcArray lcid).active then s else s.addBearer lcid .am
  else s

/-- `rlc::reset` -/
def rlcReset (s : Stack) : Stack :=
  ({ s with
      rlcArray := fun i =>
        if i < nRadioBearers ∧ (s.rlcArray i).active then (s.rlcArray i).reset
        else s.rlcArray i } : Stack).initEntity 0 .tm

/-- One of the three calls of `get_unique_id` in `set_rrc_default`. -/
def takeRrcId (s : Stack) (t : RrcTimer) : Stack :=
  let s' := { s with timersDb := s.timersDb.getUniqueId.2 }
  match t with
  | .t301 => { s' with t301 := s.timersDb.getUniqueId.1 }
  | .t310 => { s' with t310 := s.timersDb.getUniqueId.1 }
  | .t311 => { s' with t311 := s.timersDb.getUniqueId.1 }

/-- A call of RRC on one of its timers. -/
def rrcTimer (s : Stack) (t : RrcTimer) (op : TimerOp) : Stack :=
  { s with timersDb := s.timersDb.modify (s.rrcId t) (CallbackTimer.apply op) }

/-- `set_rrc_default` -/
def setRrcDefault (s : Stack) : Stack :=
  let s := ((s.takeRrcId .t301).takeRrcId .t310).takeRrcId .t311
  (s.rrcTimer .t310 (.set 1000)).rrcTimer .t311 (.set 1000)

/-- The timers in `apply_sib2_configs`. -/
def applySib2Configs (s : Stack) (t301 t310 t311 : Nat) : Stack :=
  ((s.rrcTimer .t301 (.set t301)).rrcTimer .t310 (.set t310)).rrcTimer .t311 (.set t311)

/-- The start-up: `rlc::init`, `rrc::init`, and the timeouts of the cell. -/
def afterStartUp (t301 t310 t311 : Nat) : Stack :=
  ((({} : Stack).initEntity 0 .tm).setRrcDefault).applySib2Configs t301 t310 t311

/-- The use an `rlc_um` entity makes of its timer: `set` and `run` together, or `stop`. An entity
that is no longer in use still does so when its timer expires. -/
def umTimer (s : Stack) (lcid : Nat) (start : Bool) : Stack :=
  let um := (s.rlcArray lcid).um
  if um.macTimers then
    { s with timersDb := s.timersDb.modify um.reorderingTimeoutId fun t =>
        if start then (t.set (.rlcUm lcid) um.tReordering).run else t.stop }
  else s

end Stack

/-- What happens after start-up. -/
inductive StackAction where
  | addBearer (lcid : Nat) (cnfg : RlcConfig)
  | addDefaultBearer (lcid : Nat)
  | rlcReset
  | umTimer (lcid : Nat) (start : Bool)
  | rrcTimer (t : RrcTimer) (op : TimerOp)
  | tick (i : Fin macNofUpperTimers)
  | stopAll
deriving DecidableEq, Repr

/-- One step. -/
def Stack.step (s : Stack) : StackAction → Stack
  | .addBearer lcid cnfg => s.addBearer lcid cnfg
  | .addDefaultBearer lcid => s.addDefaultBearer lcid
  | .rlcReset => s.rlcReset
  | .umTimer lcid start => s.umTimer lcid start
  | .rrcTimer t op => s.rrcTimer t op
  | .tick i => { s with timersDb := s.timersDb.modify i fun t => t.step.1 }
  | .stopAll => { s with timersDb := s.timersDb.stopAll }

end SrsUE.Upper
