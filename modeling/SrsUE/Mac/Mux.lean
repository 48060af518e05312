import SrsUE.Mac.Bsr
import SrsUE.Mac.Pdu

/-!
# `SrsUE.Mac.Mux`: multiplexing and logical channel prioritization

The class `mux` of `mux.cc` (3GPP TS 36.321 Section 5.4.3): the tables of the logical channels, and
the assembly of a MAC PDU for a grant.

`pdu_get` asks RLC, the buffer status reports and the power headroom reports. What they answer is
arbitrary here. Its `while` loops have fuel, and `pduGet` is `none` when they run out of it.
-/

set_option autoImplicit false

namespace SrsUE.Mac

open SrsUE.Rlc (Bytes)

/-- `NOF_UL_LCH` -/
def nofUlLch : Nat := 17

/-- The tables of `mux`. The defaults are those of the constructor, and of `reset` for `Bj`. -/
structure Mux where
  priority : List Nat := List.range 17
  prioritySorted : List Nat := List.range 17
  lchidSorted : List Nat := List.range 17
  pbr : List Int := List.replicate 17 (-1)
  bsd : List Nat := List.replicate 17 10
  bj : List Int := List.replicate 17 0
  pendingCrntiCe : Nat := 0
deriving DecidableEq, Repr

namespace Mux

/-- `set_priority`. The loop at its end moves the entries between the old and the new index by one
place. -/
def setPriority (m : Mux) (lchId newPriority : Nat) (setPbr : Int) (setBsd : Nat) : Mux :=
  if lchId < nofUlLch then
    if newPriority < nofUlLch then
      let m := { m with
        priority := m.priority.set lchId newPriority
        pbr := m.pbr.set lchId setPbr
        bsd := m.bsd.set lchId setBsd }
      let newIndex := m.prioritySorted.findIdx fun q => !(newPriority > q)
      let oldIndex := m.lchidSorted.findIdx fun l => lchId == l
      -- "Can't find LCID in sorted list", with the three tables above already changed.
      if newIndex = nofUlLch then m
      else { m with
        prioritySorted := (m.prioritySorted.eraseIdx oldIndex).insertIdx newIndex newPriority
        lchidSorted := (m.lchidSorted.eraseIdx oldIndex).insertIdx newIndex lchId }
    else m
  else m

end Mux

/-- The parts of `mac` that know the logical channels. -/
structure LchTables where
  mux : Mux := {}
  bsr : BsrProc := {}
deriving DecidableEq, Repr

/-- The arguments of `mac::setup_lcid`. -/
structure SetupLcid where
  lcid : Nat
  lcg : Nat
  priority : Nat
  pbrXTti : Int
  bsd : Nat
deriving DecidableEq, Repr

/-- `mac::setup_lcid` -/
def LchTables.setupLcid (t : LchTables) (c : SetupLcid) : LchTables where
  mux := t.mux.setPriority c.lcid c.priority c.pbrXTti c.bsd
  bsr := (t.bsr.setupLcg c.lcid c.lcg).setPriority c.lcid c.priority

/-! ### Assembly of a PDU -/

/-- `rlc_interface_mac` as the mux uses it, with any state. `read_pdu` gets the channel and the
number of bytes requested, and returns a length and what it wrote. -/
structure RlcItf (ρ : Type) where
  getBufferState : ρ → Nat → Nat × ρ
  readPdu : ρ → Nat → Nat → (Int × Bytes) × ρ

/-- What the procedures answer: the reports on a grant, each for the bytes that are left. -/
structure CeRequests where
  regularBsr : Nat → Option (Vector Nat 4 × BsrFormat) := fun _ => none
  phr : Option Rat := none
  paddingBsr : Nat → Option (Vector Nat 4 × BsrFormat) := fun _ => none

/-- `new_subh` and a setter for a control element, with `pdu_msg` before and after them. -/
structure CeAttempt where
  before : SchPdu
  call : SetCall
  after : SchPdu
  inserted : Bool
deriving DecidableEq, Repr

/-- `pdu_msg` and RLC, with a record of what `read_pdu` returned, of every state of `pdu_msg`, and
of the attempts to insert control elements. -/
structure Assembly (ρ : Type) where
  pdu : SchPdu
  rlc : ρ
  reads : List (Nat × Bytes) := []
  states : List SchPdu := []
  ceAttempts : List CeAttempt := []
deriving DecidableEq, Repr

/-- `MAX_NOF_SUBHEADERS` -/
def maxNofSubheaders : Nat := 20

namespace Assembly

variable {ρ : Type}

/-- `init_tx` -/
def start (pduSz : Nat) (rlc : ρ) : Assembly ρ :=
  let pdu := initTx maxNofSubheaders pduSz true
  { pdu := pdu, rlc := rlc, states := [pdu] }

/-- `sdu_len` in `allocate_sdu` as it is requested. -/
def requestLen (pdu : SchPdu) (bufferState : Nat) (maxSduSz : Int) : Int :=
  let sduLen := toInt32 (bufferState % 2 ^ 32)
  let sduLen := if sduLen > maxSduSz && maxSduSz ≥ 0 then maxSduSz else sduLen
  if sduLen > pdu.getSduSpace then pdu.getSduSpace else sduLen

/-- `set_sdu` on a subheader that was opened, and `del_subh` if it fails. -/
def readSdu (itf : RlcItf ρ) (a : Assembly ρ) (opened : SchPdu) (lcid sduLen : Nat) :
    Assembly ρ × Option Nat :=
  let ((sduSz, payload), rlc) :=
    if opened.hasSpaceSdu sduLen then itf.readPdu a.rlc lcid sduLen else ((-1, []), a.rlc)
  let (pdu, len) := opened.setSduFrom lcid sduLen sduSz payload
  let a := { a with
    rlc := rlc
    reads := if 0 < sduSz then a.reads ++ [(lcid, payload.takeD sduSz.toNat 0)] else a.reads }
  if 0 < len then ({ a with pdu := pdu, states := a.states ++ [opened, pdu] }, some len.toNat)
  else ({ a with pdu := pdu.delSubh, states := a.states ++ [opened, pdu, pdu.delSubh] }, none)

/-- `allocate_sdu`: the length of the SDU, or `none` for false. -/
def allocateSdu (itf : RlcItf ρ) (a : Assembly ρ) (lcid : Nat) (maxSduSz : Int) :
    Assembly ρ × Option Nat :=
  let (bufferState, rlc) := itf.getBufferState a.rlc lcid
  let a := { a with rlc := rlc }
  if 0 < toInt32 (bufferState % 2 ^ 32) then
    let sduLen := requestLen a.pdu bufferState maxSduSz
    if 0 < sduLen then
      match a.pdu.newSubh with
      | some opened => a.readSdu itf opened lcid sduLen.toNat
      | none => (a, none)
    else (a, none)
  else (a, none)

/-- `new_subh` and the setter of a control element, of which `pdu_get` does not look at the
result. -/
def insertCe (a : Assembly ρ) (c : SetCall) : Assembly ρ :=
  match a.pdu.newSubh with
  | some opened =>
    let (pdu, inserted) := opened.set c
    { a with
      pdu := pdu
      states := a.states ++ [opened, pdu]
      ceAttempts := a.ceAttempts ++ [⟨a.pdu, c, pdu, inserted⟩] }
  | none => { a with ceAttempts := a.ceAttempts ++ [⟨a.pdu, c, a.pdu, false⟩] }

/-- A report that was asked for, if there is one. -/
def insertReport (a : Assembly ρ) : Option SetCall → Assembly ρ
  | some c => a.insertCe c
  | none => a

/-- The first loop over a channel, with its `Bj` and `PBR`. The conversion to `int` is that of the
argument. -/
def whilePositive (itf : RlcItf ρ) (lcid : Nat) (pbr : Int) :
    Nat → Assembly ρ → Int → Option (Assembly ρ × Int)
  | 0, _, _ => none
  | fuel + 1, a, bj =>
    if bj > 0 || pbr < 0 then
      match a.allocateSdu itf lcid (if pbr < 0 then -1 else toInt32 (toUint32 bj)) with
      | (a, some sduSz) => whilePositive itf lcid pbr fuel a (if pbr ≥ 0 then bj - sduSz else bj)
      | (a, none) => some (a, bj)
    else some (a, bj)

/-- The second loop over a channel. -/
def whileAllocated (itf : RlcItf ρ) (lcid : Nat) : Nat → Assembly ρ → Option (Assembly ρ)
  | 0, _ => none
  | fuel + 1, a =>
    match a.allocateSdu itf lcid (-1) with
    | (a, some _) => whileAllocated itf lcid fuel a
    | (a, none) => some a

/-- The channels with positive `Bj`, in their order. -/
def firstPass (itf : RlcItf ρ) (fuel : Nat) (pbr : List Int) :
    List Nat → Assembly ρ → List Int → Option (Assembly ρ × List Int)
  | [], a, bj => some (a, bj)
  | lcid :: lcids, a, bj =>
    if lcid ≠ 0 then
      (whilePositive itf lcid (pbr.getD lcid 0) fuel a (bj.getD lcid 0)).bind fun (a, b) =>
        firstPass itf fuel pbr lcids a (bj.set lcid b)
    else firstPass itf fuel pbr lcids a bj

/-- The channels regardless of their `Bj`. -/
def secondPass (itf : RlcItf ρ) (fuel : Nat) : List Nat → Assembly ρ → Option (Assembly ρ)
  | [], a => some a
  | lcid :: lcids, a => (whileAllocated itf lcid fuel a).bind (secondPass itf fuel lcids)

end Assembly

/-- What `pdu_get` leaves and returns. `bsrIsInserted` goes into `pid_has_bsr`. -/
structure PduGetOutcome (ρ : Type) where
  mux : Mux
  assembly : Assembly ρ
  bsrIsInserted : Bool
  ret : Option Bytes
deriving DecidableEq, Repr

namespace Mux

variable {ρ : Type}

/-- The update of `Bj` at the start of `pdu_get`. -/
def updateBj (m : Mux) : List Int :=
  (List.range nofUlLch).map fun i =>
    -- A negative `PBR` stands for infinity.
    let bj := if m.pbr.getD i 0 ≥ 0 then m.bj.getD i 0 + m.pbr.getD i 0 else m.bj.getD i 0
    if bj ≥ m.bsd.getD i 0 then m.bsd.getD i 0 else bj

/-- The call of `set_bsr` for a report. -/
def setBsrCall (bsr : Vector Nat 4 × BsrFormat) : SetCall := .bsr bsr.1 bsr.2

/-- The reports that `pdu_get` inserts before the SDUs. -/
def insertReports (req : CeRequests) (a : Assembly ρ) : Assembly ρ :=
  let a := a.insertReport ((req.regularBsr a.pdu.remLen).map setBsrCall)
  a.insertReport (req.phr.map .phr)

/-- What `pdu_get` inserts before the SDUs of the other channels: data from UL-CCCH or the
C-RNTI. -/
def insertCrnti (itf : RlcItf ρ) (m : Mux) (a : Assembly ρ) : Assembly ρ :=
  let (a, ccch) := a.allocateSdu itf 0 (-1)
  if ccch.isNone && m.pendingCrntiCe ≠ 0 then a.insertCe (.cRnti m.pendingCrntiCe) else a

/-- The padding BSR of `pdu_get`. -/
def insertPaddingBsr (req : CeRequests) (regular : Bool) (a : Assembly ρ) : Assembly ρ × Bool :=
  if regular then (a, false)
  else
    let bsr := req.paddingBsr a.pdu.remLen
    (a.insertReport (bsr.map setBsrCall), bsr.isSome && a.pdu.newSubh.isSome)

/-- `pdu_get`. The channels of the loops are those from the second place of `lchid_sorted` on. -/
def pduGet (fuel : Nat) (itf : RlcItf ρ) (req : CeRequests) (m : Mux) (rlc : ρ) (pduSz : Nat) :
    Option (PduGetOutcome ρ) :=
  let a := m.insertCrnti itf (.start pduSz rlc)
  let regular := (req.regularBsr a.pdu.remLen).isSome
  let regularIsInserted := regular && a.pdu.newSubh.isSome
  -- Control elements come first, then the channels with a positive `Bj`, then whatever remains.
  let a := insertReports req a
  (Assembly.firstPass itf fuel m.pbr m.lchidSorted.tail a m.updateBj).bind fun (a, bj) =>
    (Assembly.secondPass itf fuel m.lchidSorted.tail a).map fun a =>
      let (a, paddingIsInserted) := insertPaddingBsr req regular a
      { mux := { m with bj := bj, pendingCrntiCe := 0 }
        assembly := a
        bsrIsInserted := regularIsInserted || paddingIsInserted
        ret := a.pdu.writePacket }

end Mux

end SrsUE.Mac
