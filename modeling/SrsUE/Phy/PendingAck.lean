import SrsUE.Phy.UlOrder

/-!
# `SrsUE.Phy.PendingAck`: the PHICH that a subframe waits for

A subframe that sends on the PUSCH gets its answer on the PHICH eight subframes later. `phch_common`
keeps in `pending_ack` which PHICH that is, in an entry for each of ten subframes, and the workers
share the array. In `work_imp` of `phch_worker.cc` a worker reads and clears the entry of its own
TTI, clears the one of eight subframes later, and sets it again when it has sent. Then it goes
through `worker_end`, as in `SrsUE.Phy.UlOrder`.

A step is one call on `pending_ack`, which no mutex guards, one action in `worker_end`, or the start
of a job. The start says what the subframe sends and which PHICH it expects for that. `phch_recv`
stays in `SYNC_DONE`, so the TTI goes up by one. `extract_fft_and_pdcch_llr` reads the array to see
if the FFT is needed, and is left out.
-/

set_option autoImplicit false

namespace SrsUE.Phy

/-- What `srslte_ue_dl_decode_phich` needs to find a PHICH. -/
structure Phich where
  iLowest : Nat
  nDmrs : Nat
deriving DecidableEq, Repr

/-- `pending_ack_t` -/
structure PendingAck where
  enabled : Bool
  iLowest : Nat
  nDmrs : Nat
deriving DecidableEq, Repr

/-- The index of a TTI in `pending_ack`. -/
def ackIndex (tti : Nat) : Fin 10 := ⟨tti % 10, Nat.mod_lt _ (by decide)⟩

def resetPendingAck (pendingAck : Fin 10 → PendingAck) (tti : Nat) : Fin 10 → PendingAck :=
  Function.update pendingAck (ackIndex tti) { pendingAck (ackIndex tti) with enabled := false }

def setPendingAck (pendingAck : Fin 10 → PendingAck) (tti : Nat) (phich : Phich) : Fin 10 →
    PendingAck :=
  Function.update pendingAck (ackIndex tti)
    { enabled := true, iLowest := phich.iLowest, nDmrs := phich.nDmrs }

/-- The PHICH of an entry, if that is enabled. -/
def getPendingAck (pendingAck : Fin 10 → PendingAck) (tti : Nat) : Option Phich :=
  let ack := pendingAck (ackIndex tti)
  if ack.enabled then some { iLowest := ack.iLowest, nDmrs := ack.nDmrs } else none

/-- Where a worker is in `work_imp`. -/
inductive WorkPc where
  /-- Before `get_pending_ack` in `decode_phich`. -/
  | decodePhich
  /-- Before `reset_pending_ack` in `decode_phich`. -/
  | resetHeard
  /-- Before `reset_pending_ack` in `decode_pdcch_ul`. -/
  | decodePdcchUl
  /-- Before `encode_pusch` and `set_pending_ack`. -/
  | encodePusch
  /-- At `worker_end`. -/
  | workerEnd
deriving DecidableEq, Repr

/-- The `work_imp` of a subframe: the PHICH that it expects for what it sends, and the one that it
has decoded. -/
structure WorkJob where
  tti : Nat := 0
  expects : Option Phich := none
  heard : Option Phich := none
  pc : WorkPc := .decodePhich
deriving DecidableEq, Repr

/-- The next call on `pending_ack` in a `work_imp`. -/
def WorkJob.step (pendingAck : Fin 10 → PendingAck) (w : WorkJob) :
    Option ((Fin 10 → PendingAck) × WorkJob) :=
  match w.pc with
  | .decodePhich =>
    match getPendingAck pendingAck w.tti with
    | some phich => some (pendingAck, { w with heard := some phich, pc := .resetHeard })
    | none => some (pendingAck, { w with heard := none, pc := .decodePdcchUl })
  | .resetHeard => some (resetPendingAck pendingAck w.tti, { w with pc := .decodePdcchUl })
  | .decodePdcchUl => some (resetPendingAck pendingAck (w.tti + 8), { w with pc := .encodePusch })
  | .encodePusch =>
    match w.expects with
    | some phich => some (setPendingAck pendingAck (w.tti + 8) phich, { w with pc := .workerEnd })
    | none => some (pendingAck, { w with pc := .workerEnd })
  | .workerEnd => none

/-- The uplink of `SrsUE.Phy.UlOrder`, with the `work_imp` of each job before its `worker_end`. -/
structure UlPhich where
  tx : UlTx := {}
  /-- The TTI of `phch_recv`. -/
  tti : Nat
  pendingAck : Fin 10 → PendingAck
  work : Nat → WorkJob := fun _ => {}

/-- An atomic action. -/
inductive PhichAction where
  | start (txEnable : Bool) (expects : Option Phich)
  | work (job : Nat)
  | workerEnd (job : Nat)
deriving DecidableEq, Repr

namespace UlPhich

/-- Before the first subframe. -/
def init (tti : Nat) (pendingAck : Fin 10 → PendingAck) : UlPhich :=
  { tti := tti, pendingAck := pendingAck }

/-- A `work_imp` goes on. -/
def setWork (s : UlPhich) (job : Nat) (pendingAck : Fin 10 → PendingAck) (w : WorkJob) : UlPhich :=
  { s with pendingAck := pendingAck, work := Function.update s.work job w }

/-- `phch_recv` starts the job of the next TTI. -/
def startWork (s : UlPhich) (tx : UlTx) (expects : Option Phich) : UlPhich :=
  let tti := (s.tti + 1) % 10240
  { s with
    tx := tx
    tti := tti
    work := Function.update s.work s.tx.started { tti := tti, expects := expects } }

/-- One step, with `nof_mutex` mutexes and `nof_workers` workers. -/
def step (nofMutex nofWorkers : Nat) (s : UlPhich) : PhichAction → Option UlPhich
  | .start txEnable expects =>
    (s.tx.step nofMutex nofWorkers (.start txEnable)).map fun tx => s.startWork tx expects
  | .work job =>
    if job < s.tx.started then
      ((s.work job).step s.pendingAck).map fun (pendingAck, w) => s.setWork job pendingAck w
    else none
  | .workerEnd job =>
    if (s.work job).pc = .workerEnd then
      (s.tx.step nofMutex nofWorkers (.worker job)).map fun tx => { s with tx := tx }
    else none

end UlPhich

end SrsUE.Phy
