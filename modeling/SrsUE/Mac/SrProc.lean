import SrsUE.Mac.Pdu

/-!
# `SrsUE.Mac.SrProc`: the scheduling request procedure

The class `sr_proc` of `proc_sr.cc` (3GPP TS 36.321 Section 5.4.4), and its part in the loop of the
MAC thread, which asks for a random access after each step.

The TTI of the last transmission is what PHY answers: -1 between `sr_send` and the transmission, and
then the TTI for which a worker prepared it.
-/

set_option autoImplicit false

namespace SrsUE.Mac

open SrsUE.Rlc (sub32)

/-- `sr_proc` after `init`. The counter and the maximum have no value of their own before
`start`. -/
structure SrProc where
  srCounter : Nat
  dsrTransmax : Nat
  isPendingSr : Bool := false
  initiated : Bool := true
  doRa : Bool := false
deriving DecidableEq, Repr

/-- What the procedure makes others do. `startRa` is what the MAC does when `need_random_access`
returns true. -/
inductive SrAct
  | srSend
  | releasePucchSrs
  | startRa
deriving DecidableEq, Repr

namespace SrProc

variable (s : SrProc)

/-- `reset` -/
def reset : SrProc := { s with isPendingSr := false }

/-- `need_tx`. The comparisons are those of unsigned numbers. -/
def needTx (lastTxTti : Int) (tti : Nat) : Bool :=
  if lastTxTti ≥ 0 then
    if tti > toUint32 lastTxTti then sub32 tti (toUint32 lastTxTti) > 8
    else
      -- The TTI counter has wrapped around in between.
      let interval := (toUint32 (10240 - lastTxTti) + tti) % 2 ^ 32
      interval > 8 && tti < 8
  else false

/-- `step`, with `sr.setup_present` of the configuration and what `sr_last_tx_tti` returns. -/
def step (setupPresent : Bool) (lastTxTti : Int) (tti : Nat) : SrProc × List SrAct :=
  if s.initiated && s.isPendingSr then
    if setupPresent then
      if s.srCounter < s.dsrTransmax then
        -- The first one goes out at once, the next ones more than eight TTIs after the one before.
        if s.srCounter = 0 || needTx lastTxTti tti then
          ({ s with srCounter := (s.srCounter + 1) % 2 ^ 32 }, [.srSend])
        else (s, [])
      else if needTx lastTxTti tti then
        -- "Scheduling request failed"
        ({ s with doRa := true, isPendingSr := false }, [.releasePucchSrs])
      else (s, [])
    -- "PUCCH not configured. Starting RA procedure"
    else ({ s with doRa := true }.reset, [])
  else (s, [])

/-- `need_random_access` -/
def needRandomAccess : SrProc × Bool :=
  if s.initiated && s.doRa then ({ s with doRa := false }, true) else (s, false)

/-- `start`, with the entry of `liblte_rrc_dsr_trans_max_num`. -/
def start (dsrTransMax : Nat) : SrProc :=
  if s.initiated then
    let s := if !s.isPendingSr then { s with srCounter := 0, isPendingSr := true } else s
    { s with dsrTransmax := dsrTransMax }
  else s

end SrProc

/-! ### Runs -/

/-- The calls of the MAC. A step is the one of the next TTI. -/
inductive SrEvent
  | step (lastTxTti : Int)
  | start
  | reset
deriving DecidableEq, Repr

/-- The procedure in a run: the next TTI, what was done since an SR became pending, and what the
last call did. -/
structure SrRun where
  sr : SrProc
  tti : Nat
  signals : Nat := 0
  releases : Nat := 0
  requests : Nat := 0
  acts : List SrAct := []
deriving DecidableEq, Repr

namespace SrRun

/-- What was done, counted. -/
def record (s : SrRun) (acts : List SrAct) : SrRun :=
  { s with
    signals := s.signals + acts.count .srSend
    releases := s.releases + acts.count .releasePucchSrs
    requests := s.requests + acts.count .startRa
    acts := acts }

/-- A call, with SR configured for `dsrTransMax` transmissions. -/
def step (dsrTransMax : Nat) (s : SrRun) : SrEvent → Option SrRun
  | .step lastTxTti =>
    let (sr, acts) := s.sr.step true lastTxTti s.tti
    let (sr, needsRa) := sr.needRandomAccess
    some ({ s with sr := sr, tti := (s.tti + 1) % 10240 }.record
      (if needsRa then acts ++ [SrAct.startRa] else acts))
  | .start =>
    some (if s.sr.isPendingSr then { s with sr := s.sr.start dsrTransMax, acts := [] }
      else { sr := s.sr.start dsrTransMax, tti := s.tti })
  | .reset => some { s with sr := s.sr.reset, acts := [] }

end SrRun

end SrsUE.Mac
