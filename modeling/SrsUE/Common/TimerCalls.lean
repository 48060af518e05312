import SrsUE.Rlc.Common

/-!
# `SrsUE.Common.TimerCalls`: the calls that are made on one timer

The users of a `timers::timer` (`timers.h`) call its member functions in any order. A `step` that
reaches the timeout calls `timer_expired` of the callback, and the callback may call the member
functions itself. It does so at the end of `step`, when `running` is already cleared, so its calls
simply follow the step.
-/

set_option autoImplicit false

namespace SrsUE.Common

open SrsUE.Rlc (Timer)

/-- The member functions other than `step` that change a timer. -/
inductive TimerOp where
  | set (timeout : Nat)
  | reset
  | run
  | stop
deriving DecidableEq, Repr

/-- The timer after the call. -/
def TimerOp.apply : TimerOp → Timer → Timer
  | .set timeout, t => t.set timeout
  | .reset, t => { t with counter := 0 }
  | .run, t => t.run
  | .stop, t => t.stop

/-- A call of a member function. -/
inductive TimerCall where
  | op (o : TimerOp)
  | step
deriving DecidableEq, Repr

/-- The timer after the call, and whether it invokes the callback. -/
def TimerCall.apply : TimerCall → Timer → Timer × Bool
  | .op o, t => (o.apply t, false)
  | .step, t => t.step

/-- What a user does. A `step` comes with the calls that the callback makes if it is invoked. -/
inductive TimerUse where
  | op (o : TimerOp)
  | step (callback : List TimerOp)
deriving DecidableEq, Repr

namespace TimerUse

/-- The calls other than `step`. -/
def ops : TimerUse → List TimerOp
  | .op o => [o]
  | .step callback => callback

/-- Whether the user calls `step`. -/
def isStep : TimerUse → Bool
  | .op _ => false
  | .step _ => true

/-- The calls that are made. -/
def calls (t : Timer) : TimerUse → List TimerCall
  | .op o => [.op o]
  | .step callback => .step :: if t.step.2 then callback.map .op else []

end TimerUse

/-- The timer after several calls. -/
def timerAfter (t : Timer) (cs : List TimerCall) : Timer := cs.foldl (fun t c => (c.apply t).1) t

/-- How often the calls invoke the callback. -/
def invocations : Timer → List TimerCall → Nat
  | _, [] => 0
  | t, c :: cs => (c.apply t).2.toNat + invocations (c.apply t).1 cs

/-- All calls, those of the callback included, in the order in which they are made. -/
def callsMade : Timer → List TimerUse → List TimerCall
  | _, [] => []
  | t, u :: us => u.calls t ++ callsMade (timerAfter t (u.calls t)) us

end SrsUE.Common
