import SrsUE.Mac.Pdu

/-!
# `SrsUE.Mac.Bsr`: the buffer status report procedure

The class `bsr_proc` of `proc_bsr.cc` (3GPP TS 36.321 Section 5.4.5): the priorities and groups of
the logical channels, the test for new data, and the reports for a grant and for padding. The buffer
states of RLC are a function of the channel. The timers that the procedure restarts are left out.
-/

set_option autoImplicit false

namespace SrsUE.Mac

/-- `triggered_bsr_type_t` -/
inductive TriggeredBsrType
  | none
  | regular
  | padding
  | periodic
deriving DecidableEq, Repr

/-- `MAX_LCID` -/
def maxLcid : Nat := 6

/-- `bsr_t` -/
structure Bsr where
  format : BsrFormat
  buffSize : Vector Nat 4
deriving DecidableEq, Repr

/-- `bsr_proc`. The defaults are those of `reset`. -/
structure BsrProc where
  lcg : List Int := [0, -1, -1, -1, -1, -1]
  priorities : List Int := [99, -1, -1, -1, -1, -1]
  lastPendingData : List Nat := List.replicate 6 0
  triggeredBsrType : TriggeredBsrType := .none
  resetSr : Bool := false
  srIsSent : Bool := false
  nextTxTti : Nat := 0
deriving DecidableEq, Repr

namespace BsrProc

variable (b : BsrProc)

/-- `lcg[lcid]` -/
def lcgOf (lcid : Nat) : Int := b.lcg.getD lcid (-1)

/-- `priorities[lcid]` -/
def priorityOf (lcid : Nat) : Int := b.priorities.getD lcid (-1)

/-- `setup_lcg` -/
def setupLcg (lcid newLcg : Nat) : BsrProc :=
  if lcid < maxLcid ∧ newLcg < 4 then { b with lcg := b.lcg.set lcid newLcg } else b

/-- `set_priority`. The array has signed entries. -/
def setPriority (lcid priority : Nat) : BsrProc :=
  if lcid < maxLcid then
    { b with priorities := b.priorities.set lcid (toInt32 (priority % 2 ^ 32)) }
  else b

/-- The calls that configure the channels. -/
inductive Call
  | setupLcg (lcid newLcg : Nat)
  | setPriority (lcid priority : Nat)
  | reset
deriving DecidableEq, Repr

/-- A call. -/
def call : Call → BsrProc
  | .setupLcg lcid newLcg => b.setupLcg lcid newLcg
  | .setPriority lcid priority => b.setPriority lcid priority
  | .reset => {}

/-- `find_max_priority_lcid`. `max_prio` is unsigned, and so is the comparison with it. -/
def findMaxPriorityLcid : Nat :=
  ((List.range maxLcid).foldl (fun (maxPrio, maxIdx) i =>
    if toUint32 (b.priorityOf i) > maxPrio then (toUint32 (b.priorityOf i), i)
    else (maxPrio, maxIdx)) (0, 0)).2

section
variable (rlc : Nat → Nat)

/-- `pending_data_lcid` after the loops of `check_highest_channel`: the first channel with data,
such that no channel with data has a larger priority. -/
def pendingDataLcid : Option Nat :=
  (List.range maxLcid).find? fun i =>
    b.lcgOf i ≥ 0 && rlc i > 0 &&
      (List.range maxLcid).all fun j => !(rlc j > 0 && b.priorityOf j > b.priorityOf i)

/-- `check_highest_channel` -/
def checkHighestChannel : BsrProc × Bool :=
  match b.pendingDataLcid rlc with
  | some lcid =>
    if rlc lcid > b.lastPendingData.getD lcid 0 then ({ b with triggeredBsrType := .regular }, true)
    else (b, false)
  | none => (b, false)

/-- `buff_size` in `generate_bsr`, a sum for each group. -/
def buffSizes : Vector Nat 4 :=
  Vector.ofFn fun group =>
    (((List.range maxLcid).filter fun i => b.lcgOf i = (group.val : Int)).map rlc).sum % 2 ^ 32

/-- `nof_lcg` in `generate_bsr`, which counts channels. -/
def nofLcg : Nat := ((List.range maxLcid).filter fun i => b.lcgOf i ≥ 0 && rlc i > 0).length

/-- `generate_bsr`, without the value it returns, which no caller reads. -/
def generateBsr (nofPaddingBytes : Nat) : Bsr :=
  if b.triggeredBsrType = .padding then
    if nofPaddingBytes < 4 then
      if b.nofLcg rlc > 1 then
        { format := .truncBsr
          -- Only the group of one channel is reported.
          buffSize := Vector.ofFn fun group =>
            if b.lcgOf b.findMaxPriorityLcid ≠ (group.val : Int) then 0
            else (b.buffSizes rlc)[group.val] }
      else { format := .shortBsr, buffSize := b.buffSizes rlc }
    else { format := .longBsr, buffSize := b.buffSizes rlc }
  else
    { format := if b.nofLcg rlc > 1 then .longBsr else .shortBsr, buffSize := b.buffSizes rlc }

/-- The loop of `need_to_send_bsr_on_ul_grant`, over the channels that are left. `total_data` is
compared as an unsigned number, and the sum is one of unsigned numbers. -/
def totalData (grantSize : Nat) : List Nat → Nat → Nat
  | [], total => total
  | i :: is, total =>
    if total < grantSize then
      totalData grantSize is ((total + (sizeHeaderSdu (rlc i) + rlc i)) % 2 ^ 32)
    else total

/-- `bsr_sz` -/
def bsrSz (bsr : Bsr) : Nat := if bsr.format = .longBsr then 3 else 1

/-- `need_to_send_bsr_on_ul_grant`: the procedure, the report, and the value that is returned. The
report is written only when one is triggered. -/
def needToSendBsrOnUlGrant (grantSize : Nat) : BsrProc × Option Bsr × Bool :=
  let b' := { b with triggeredBsrType := .none, resetSr := true }
  if b.triggeredBsrType = .periodic ∨ b.triggeredBsrType = .regular then
    -- "Because last SDU has no size header"
    let total := (totalData rlc grantSize (List.range maxLcid) 0 + (2 ^ 32 - 1)) % 2 ^ 32
    let bsr := b.generateBsr rlc 0
    (b', some bsr, !(total ≤ grantSize && (total + 1 + bsrSz bsr) % 2 ^ 32 > grantSize))
  else (b', none, false)

/-- `generate_padding_bsr` -/
def generatePaddingBsr (nofPaddingBytes : Nat) : BsrProc × Option Bsr :=
  if b.triggeredBsrType ≠ .none ∨ nofPaddingBytes ≥ 2 then
    let b := if b.triggeredBsrType = .none then { b with triggeredBsrType := .padding } else b
    (b, some (b.generateBsr rlc nofPaddingBytes))
  else (b, none)

end

end BsrProc

end SrsUE.Mac
