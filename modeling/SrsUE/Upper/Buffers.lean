import SrsUE.Upper.Nas

/-!
# `SrsUE.Upper.Buffers`: the buffers of RRC and NAS

The same functions of `rrc.cc` and `nas.cc` again, this time with the `byte_buffer_t` objects they
receive, allocate, deallocate and hand on. Of RRC there is its state and what its messages do to the
buffers, of NAS all of `SrsUE.Upper.Nas`.

A function holds a buffer from the moment it receives or allocates it. It gives the buffer up when
it deallocates it or hands it on to NAS, RRC or PDCP. A function that receives a buffer from another
one holds it from then on. A message comes as what liblte unpacks it to.
-/

set_option autoImplicit false

namespace SrsUE.Upper

/-- `rrc_state_t` -/
inductive RrcState where
  | idle
  | sib1Search
  | sib2Search
  | waitForConSetup
  | completingSetup
  | rrcConnected
deriving DecidableEq, Repr

/-- A message on SRB0. -/
inductive DlCcchMsg where
  | rrcConRej
  | rrcConSetup
  | rrcConReest
  | rrcConReestRej
  | other
deriving DecidableEq, Repr

/-- A message on SRB1 or SRB2. Of an enquiry there is, for each capability that is requested,
whether it is the one of E-UTRA. -/
inductive DlDcchMsg where
  | dlInfoTransfer (dedicatedInfo : NasPdu)
  | securityModeCommand
  | rrcConReconfig (dedInfoNasList : List NasPdu)
  | ueCapabilityEnquiry (eutra : List Bool)
  | rrcConRelease
  | other

/-- A PDU from PDCP: what it is as a message on SRB0, and what on SRB1 or SRB2. -/
structure RrcPdu where
  dlCcch : DlCcchMsg
  dlDcch : DlDcchMsg

/-- RRC and NAS with the buffers. -/
structure Ue where
  rrcState : RrcState := .idle
  nas : Nas
  /-- The number of buffers that were received or allocated so far. -/
  buffers : Nat := 0
  /-- The buffers that are held, the last one first. -/
  held : List Nat := []
  /-- A buffer was given up that was not held. -/
  misused : Bool := false

namespace Ue

/-! ### Holding and giving up -/

/-- A function receives a buffer. -/
def receive (s : Ue) (b : Nat) : Ue := { s with held := b :: s.held }

/-- A function deallocates a buffer, or hands it on. -/
def giveUp (s : Ue) (b : Nat) : Ue :=
  if b ∈ s.held then { s with held := s.held.erase b } else { s with misused := true }

/-- The number of the buffer that is allocated next. -/
def newBuffer (s : Ue) : Nat := s.buffers

/-- `pool->allocate` -/
def allocate (s : Ue) : Ue := { s with buffers := s.buffers + 1, held := s.buffers :: s.held }

/-- RRC makes a message of its own: it allocates a buffer and hands it on to PDCP. -/
def sendNew (s : Ue) (next : RrcState) : Ue :=
  let b := s.newBuffer
  { s.allocate with rrcState := next }.giveUp b

/-! ### RRC, called by NAS -/

/-- `rrc::write_sdu`. With the setup to complete, the message is copied to a new buffer, and the old
one is left. In any other state but connected it is left as well. -/
def writeSdu (s : Ue) (b : Nat) : Ue :=
  let s := s.receive b
  match s.rrcState with
  | .completingSetup => s.sendNew .rrcConnected
  | .rrcConnected => s.giveUp b
  | .idle | .sib1Search | .sib2Search | .waitForConSetup => s

/-! ### NAS -/

/-- What NAS does with the buffer of a message: `parse_attach_accept` and the other parsers. -/
inductive Disposal where
  | deallocate
  | reuse
  | leave
deriving DecidableEq, Repr

/-- The buffer goes back to the pool, carries the answer to RRC, or is left. -/
def disposal (F : SecurityFunctions) (nas : Nas) : NasPdu → Disposal
  | .attachAccept msg => if msg.epsOnly && msg.pdnTypeIpv4 then .reuse else .deallocate
  | .attachReject => .deallocate
  | .authenticationRequest rand autn mcc mnc =>
    if (nas.usim.generateAuthenticationResponse F rand autn mcc mnc).2.1 then .reuse
    else .deallocate
  | .authenticationReject => .deallocate
  | .identityRequest => .leave
  | .securityModeCommand _ => .reuse
  | .serviceReject => .leave
  | .esmInformationRequest => .leave
  | .emmInformation => .leave
  | .other => .deallocate

/-- `nas::write_pdu` -/
def nasWritePdu (F : SecurityFunctions) (s : Ue) (lcid b : Nat) (pdu : NasPdu) : Ue :=
  let d := disposal F s.nas pdu
  let s := { s with nas := s.nas.writePdu F lcid pdu }.receive b
  match d with
  | .deallocate => s.giveUp b
  | .reuse => (s.giveUp b).writeSdu b
  | .leave => s

/-- `nas::notify_connection_setup`: an attach request or a service request in a new buffer. -/
def notifyConnectionSetup (F : SecurityFunctions) (s : Ue) : Ue :=
  let b := s.newBuffer
  let s := { s.allocate with nas := s.nas.notifyConnectionSetup F }
  (s.giveUp b).writeSdu b

/-! ### RRC, called by PDCP -/

/-- `parse_dl_ccch`. The buffer is deallocated before the message is looked at. -/
def parseDlCcch (F : SecurityFunctions) (s : Ue) (b : Nat) (msg : DlCcchMsg) : Ue :=
  let s := s.giveUp b
  match msg with
  | .rrcConRej => { s with rrcState := .idle }
  | .rrcConSetup => { s with rrcState := .completingSetup }.notifyConnectionSetup F
  | .rrcConReest => s.sendNew .rrcConnected
  | .rrcConReestRej => { s with rrcState := .idle }
  | .other => s

/-- The loop of `handle_rrc_con_reconfig` over the NAS messages. -/
def handOnNas (F : SecurityFunctions) (lcid : Nat) : Ue → List NasPdu → Ue
  | s, [] => s
  | s, pdu :: pdus =>
    handOnNas F lcid ((s.allocate.giveUp s.newBuffer).nasWritePdu F lcid s.newBuffer pdu) pdus

/-- `parse_dl_dcch` -/
def parseDlDcch (F : SecurityFunctions) (s : Ue) (lcid b : Nat) (msg : DlDcchMsg) : Ue :=
  match msg with
  | .dlInfoTransfer pdu => (s.giveUp b).nasWritePdu F lcid b pdu
  | .securityModeCommand => s.giveUp b
  | .rrcConReconfig pdus => handOnNas F lcid (s.giveUp b) pdus
  | .ueCapabilityEnquiry eutra => if eutra.any id then s.giveUp b else s
  -- The buffer is left.
  | .rrcConRelease => { s with rrcState := .idle }
  | .other => s

/-- `rrc::write_pdu` -/
def writePdu (F : SecurityFunctions) (s : Ue) (lcid b : Nat) (pdu : RrcPdu) : Ue :=
  let s := s.receive b
  match lcid with
  | 0 => s.parseDlCcch F b pdu.dlCcch
  | 1 => s.parseDlDcch F 1 b pdu.dlDcch
  | 2 => s.parseDlDcch F 2 b pdu.dlDcch
  | _ => s

/-- `SRSUE_MAX_BUFFER_SIZE_BITS` -/
def maxBufferSizeBits : Nat := 102048

/-- The paging record of this UE in RRC: a connection request, when it is idle. -/
def paged (s : Ue) (isOurs : Bool) : Ue :=
  if isOurs && decide (s.rrcState = .idle) then s.sendNew .waitForConSetup else s

/-- `rrc::write_pdu_pcch`. Each record of the message matches the S-TMSI of NAS or not. -/
def writePduPcch (s : Ue) (b nBytes : Nat) (records : List Bool) : Ue :=
  let s := s.receive b
  if 0 < nBytes ∧ nBytes < maxBufferSizeBits then
    let s := s.giveUp b
    if s.nas.guti.isSome then records.foldl paged s else s
  else s

end Ue

/-- The calls from outside: the four functions with a buffer, and what else changes the state of
RRC. -/
inductive UeAction where
  | writePdu (lcid : Nat) (pdu : RrcPdu)
  | writeSdu
  | writePduPcch (nBytes : Nat) (records : List Bool)
  | nasWritePdu (lcid : Nat) (pdu : NasPdu)
  | rrcConnect
  | writePduBcchBch
  | sib1
  | sib2
  | radioLinkFailure
  | rrcConnectionRelease

namespace Ue

/-- One call. A buffer that comes from outside is a new one. -/
def step (F : SecurityFunctions) (s : Ue) : UeAction → Ue
  | .writePdu lcid pdu => { s with buffers := s.buffers + 1 }.writePdu F lcid s.newBuffer pdu
  | .writeSdu => { s with buffers := s.buffers + 1 }.writeSdu s.newBuffer
  | .writePduPcch nBytes records =>
    { s with buffers := s.buffers + 1 }.writePduPcch s.newBuffer nBytes records
  | .nasWritePdu lcid pdu => { s with buffers := s.buffers + 1 }.nasWritePdu F lcid s.newBuffer pdu
  | .rrcConnect => if s.rrcState = .idle then s.sendNew .waitForConSetup else s
  | .writePduBcchBch => { s with rrcState := .sib1Search }
  | .sib1 => if s.rrcState = .sib1Search then { s with rrcState := .sib2Search } else s
  | .sib2 => if s.rrcState = .sib2Search then s.sendNew .waitForConSetup else s
  | .radioLinkFailure =>
    if s.rrcState = .rrcConnected then s.sendNew .waitForConSetup else { s with rrcState := .idle }
  | .rrcConnectionRelease => { s with rrcState := .idle }

end Ue

end SrsUE.Upper
