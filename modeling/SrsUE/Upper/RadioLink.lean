import SrsUE.Upper.Timers

/-!
# `SrsUE.Upper.RadioLink`: the monitoring of the radio link in RRC

`in_sync` and `out_of_sync` of `rrc.cc` count the indications that the PHY gives, and start and stop
T310. The other functions of RRC are here with what they do to T301, T310 and T311. Several threads
call them, so they come in any order, and `send_con_restablish_request`, which waits for the PHY in
the middle, comes in three parts.

The indications that were received are kept, the last one first, with what the timers did at the
time. The code does not keep them.
-/

set_option autoImplicit false

namespace SrsUE.Upper

open SrsUE.Rlc (Timer add32)

/-- The two indications of `rrc_interface_phy`. -/
inductive Sync where
  | inSync
  | outOfSync
deriving DecidableEq, Repr

/-- An indication, and whether T310 and T311 ran when it was received. -/
structure Indication where
  sync : Sync
  t310Running : Bool
  t311Running : Bool
deriving DecidableEq, Repr

/-- The counters, constants and timers of `rrc`. No constructor sets the two counters. -/
structure RadioLink where
  n310Cnt : Nat
  n311Cnt : Nat
  n310 : Nat := 1
  n311 : Nat := 1
  t301 : Timer := {}
  t310 : Timer := { timeout := 1000 }
  t311 : Timer := { timeout := 1000 }
  received : List Indication := []
deriving DecidableEq, Repr

/-- `reset` and `run` of a timer. -/
def rerun (t : Timer) : Timer := { t with counter := 0 }.run

namespace RadioLink

/-- The indication is received. -/
def receive (s : RadioLink) (sync : Sync) : RadioLink :=
  { s with
      received := { sync := sync, t310Running := s.t310.isRunning,
                    t311Running := s.t311.isRunning } :: s.received }

/-- `out_of_sync`, and whether it starts T310. -/
def outOfSync (s : RadioLink) : RadioLink × Bool :=
  let r := s.receive .outOfSync
  if !s.t311.isRunning && !s.t310.isRunning then
    let cnt := add32 s.n310Cnt 1
    if cnt = s.n310 then ({ r with n310Cnt := 0, t310 := rerun s.t310 }, true)
    else ({ r with n310Cnt := cnt }, false)
  else (r, false)

/-- `in_sync`, and whether it stops T310. -/
def inSync (s : RadioLink) : RadioLink × Bool :=
  let r := s.receive .inSync
  if s.t310.isRunning then
    let cnt := add32 s.n311Cnt 1
    if cnt = s.n311 then ({ r with n311Cnt := 0, t310 := s.t310.stop }, true)
    else ({ r with n311Cnt := cnt }, false)
  else (r, false)

/-- The timer thread steps a timer. -/
def tick (s : RadioLink) : RrcTimer → RadioLink
  | .t301 => { s with t301 := s.t301.step.1 }
  | .t310 => { s with t310 := s.t310.step.1 }
  | .t311 => { s with t311 := s.t311.step.1 }

/-- The constants and timers in `apply_sib2_configs`. -/
def applySib2Configs (s : RadioLink) (t301 t310 t311 n310 n311 : Nat) : RadioLink :=
  { s with
      t301 := s.t301.set t301, t310 := s.t310.set t310, t311 := s.t311.set t311
      n310 := n310, n311 := n311 }

/-- `mac::reset` stops all timers of the upper layers. -/
def macReset (s : RadioLink) : RadioLink :=
  { s with t301 := s.t301.stop, t310 := s.t310.stop, t311 := s.t311.stop }

/-- `send_con_restablish_request` before it resets the MAC. -/
def restablishStart (s : RadioLink) : RadioLink :=
  { s with t310 := s.t310.stop, t311 := rerun s.t311 }

/-- `send_con_restablish_request` after it has waited for the PHY. -/
def restablishEnd (s : RadioLink) : RadioLink :=
  { s with t301 := rerun s.t301, t311 := s.t311.stop }

/-- `handle_con_reest` -/
def handleConReest (s : RadioLink) : RadioLink := { s with t301 := s.t301.stop }

/-- `rrc_connection_release` -/
def rrcConnectionRelease (s : RadioLink) : RadioLink :=
  { s.macReset with t310 := s.macReset.t310.stop, t311 := s.macReset.t311.stop }

end RadioLink

/-- What can happen to the radio link. -/
inductive LinkAction where
  | indication (sync : Sync)
  | tick (t : RrcTimer)
  | applySib2Configs (t301 t310 t311 n310 n311 : Nat)
  | macReset
  | restablishStart
  | restablishEnd
  | handleConReest
  | rrcConnectionRelease
deriving DecidableEq, Repr

/-- One step, and whether an indication started or stopped T310 in it. -/
def RadioLink.act (s : RadioLink) : LinkAction → RadioLink × Bool
  | .indication .outOfSync => s.outOfSync
  | .indication .inSync => s.inSync
  | .tick t => (s.tick t, false)
  | .applySib2Configs t301 t310 t311 n310 n311 =>
    (s.applySib2Configs t301 t310 t311 n310 n311, false)
  | .macReset => (s.macReset, false)
  | .restablishStart => (s.restablishStart, false)
  | .restablishEnd => (s.restablishEnd, false)
  | .handleConReest => (s.handleConReest, false)
  | .rrcConnectionRelease => (s.rrcConnectionRelease, false)

end SrsUE.Upper
