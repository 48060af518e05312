import SrsUE.Lib.Run
import SrsUE.Upper.Buffers
import SrsUE.Proofs.Upper.SecurityContext

/-!
# `SrsUE.Proofs.Upper.BufferAccount`: which messages of RRC and NAS leak a buffer

No function of RRC or NAS gives a buffer up twice. Several leave it: `write_sdu` outside the
connected state, `parse_dl_dcch` for a release, for a message it does not know and for an enquiry
without E-UTRA, `write_pdu_pcch` for an empty PDU, and the parsers of NAS that are not written.

`Accounts s s' ok` says what a function does to the buffers that are held: it adds those it leaves,
none exactly when `ok`. It composes along the calls. `step_accounted_iff` is the result for one
call, and `along_accounted_iff` for a run.
-/

set_option autoImplicit false

namespace SrsUE.Upper

open SrsUE.Lib

/-! ### The verdict of the USIM -/

/-- The user data that an authentication is checked with. -/
def Usim.SameUser (s s' : Usim) : Prop :=
  s'.authAlgo = s.authAlgo ∧ s'.k = s.k ∧ s'.op = s.op ∧ s'.amf = s.amf

/-- An authentication leaves the user data alone. -/
theorem Usim.sameUser_response (F : SecurityFunctions) (s : Usim) (rand autnEnb : Octets 16)
    (mcc mnc : Nat) :
    s.SameUser (s.generateAuthenticationResponse F rand autnEnb mcc mnc).1 := by
  obtain ⟨res, heq⟩ := s.generateAuthenticationResponse_eq F rand autnEnb mcc mnc
  rw [heq]
  exact ⟨rfl, rfl, rfl, rfl⟩

/-- The same user data accept the same networks. -/
theorem Usim.SameUser.netValid {s s' : Usim} (h : s.SameUser s') (F : SecurityFunctions)
    (rand autnEnb : Octets 16) (mcc mnc : Nat) :
    (s'.generateAuthenticationResponse F rand autnEnb mcc mnc).2.1 =
      (s.generateAuthenticationResponse F rand autnEnb mcc mnc).2.1 := by
  obtain ⟨halgo, hk, hop, hamf⟩ := h
  rw [Bool.eq_iff_iff, netValid_iff, netValid_iff, Genuine, Genuine, authVector, authVector, halgo,
    hk, hop, hamf]

/-- No message changes the user data of the USIM. -/
theorem Nas.sameUser_writePdu (F : SecurityFunctions) (s : Nas) (lcid : Nat) (pdu : NasPdu) :
    s.usim.SameUser (s.writePdu F lcid pdu).usim := by
  cases pdu with
  | attachAccept msg =>
    simp only [writePdu, parseAttachAccept]
    split
    · split <;> exact ⟨rfl, rfl, rfl, rfl⟩
    · exact ⟨rfl, rfl, rfl, rfl⟩
  | authenticationRequest rand autn mcc mnc =>
    simp only [writePdu, parseAuthenticationRequest]
    split <;> exact s.usim.sameUser_response F rand autn mcc mnc
  | securityModeCommand cmd =>
    simp only [writePdu, parseSecurityModeCommand]
    split <;> exact ⟨rfl, rfl, rfl, rfl⟩
  | _ => exact ⟨rfl, rfl, rfl, rfl⟩

namespace Ue

/-- What NAS does with a buffer does not depend on the messages before. -/
theorem disposal_writePdu (F : SecurityFunctions) (nas : Nas) (lcid : Nat) (pdu q : NasPdu) :
    disposal F (nas.writePdu F lcid pdu) q = disposal F nas q := by
  cases q with
  | authenticationRequest rand autn mcc mnc =>
    simp only [disposal, (nas.sameUser_writePdu F lcid pdu).netValid F rand autn mcc mnc]
  | _ => rfl

/-! ### Accounts -/

/-- Every buffer was given up once. -/
def Accounted (s : Ue) : Prop := s.held = [] ∧ s.misused = false

/-- From one state to the other some buffers are left, none exactly when `ok`, and every buffer that
is given up was held. -/
def Accounts (s s' : Ue) (ok : Prop) : Prop :=
  s'.misused = s.misused ∧ ∃ left, s'.held = left ++ s.held ∧ (left = [] ↔ ok)

namespace Accounts

variable {s s₁ s₂ : Ue} {ok ok₁ ok₂ : Prop}

/-- A step that holds as many buffers as before accounts for them. -/
theorem none_left (hheld : s₁.held = s.held) (hmis : s₁.misused = s.misused) (hok : ok) :
    Accounts s s₁ ok :=
  ⟨hmis, [], hheld, iff_of_true rfl hok⟩

/-- A step that holds one more has left it. -/
theorem one_left {b : Nat} (hheld : s₁.held = b :: s.held) (hmis : s₁.misused = s.misused)
    (hok : ¬ok) : Accounts s s₁ ok :=
  ⟨hmis, [b], hheld, iff_of_false (List.cons_ne_nil _ _) hok⟩

/-- Two steps leave nothing exactly when neither does. -/
theorem trans (h₁ : Accounts s s₁ ok₁) (h₂ : Accounts s₁ s₂ ok₂) : Accounts s s₂ (ok₁ ∧ ok₂) := by
  obtain ⟨hm₁, l₁, hh₁, hl₁⟩ := h₁
  obtain ⟨hm₂, l₂, hh₂, hl₂⟩ := h₂
  refine ⟨hm₂.trans hm₁, l₂ ++ l₁, by rw [hh₂, hh₁, List.append_assoc], ?_⟩
  rw [List.append_eq_nil_iff, hl₁, hl₂, and_comm]

/-- The condition can be restated. -/
theorem congr (h : Accounts s s₁ ok₁) (hok : ok₁ ↔ ok₂) : Accounts s s₁ ok₂ := by
  obtain ⟨hm, l, hh, hl⟩ := h
  exact ⟨hm, l, hh, hl.trans hok⟩

/-- A function that starts with nothing held accounts for every buffer exactly when `ok`. -/
theorem accounted_iff (h : Accounts s s₁ ok) (hs : s.Accounted) : s₁.Accounted ↔ ok := by
  obtain ⟨hm, l, hh, hl⟩ := h
  rw [Accounted, hm, hs.2, hh, hs.1, List.append_nil, hl]
  exact and_iff_left rfl

end Accounts

/-! ### The calls -/

/-- Giving up the buffer received last leaves the others held. -/
theorem held_giveUp {s : Ue} {b : Nat} {h : List Nat} (hs : s.held = b :: h) :
    (s.giveUp b).held = h ∧ (s.giveUp b).misused = s.misused ∧
      (s.giveUp b).rrcState = s.rrcState ∧ (s.giveUp b).nas = s.nas := by
  rw [giveUp, if_pos (hs ▸ List.mem_cons_self ..)]
  exact ⟨by rw [hs, List.erase_cons_head], rfl, rfl, rfl⟩

/-- A message of its own allocates and gives up its buffer. -/
theorem sendNew_held (s : Ue) (next : RrcState) :
    (s.sendNew next).held = s.held ∧ (s.sendNew next).misused = s.misused := by
  obtain ⟨hheld, hmis, -⟩ := held_giveUp (s := { s.allocate with rrcState := next })
    (b := s.newBuffer) (h := s.held) rfl
  exact ⟨hheld, hmis⟩

/-- So it leaves nothing. -/
theorem accounts_sendNew (s : Ue) (next : RrcState) : Accounts s (s.sendNew next) True :=
  .none_left (s.sendNew_held next).1 (s.sendNew_held next).2 trivial

/-- NAS may hand a message to RRC when RRC is connected. -/
theorem accounts_writeSdu (s : Ue) (b : Nat) :
    Accounts s (s.writeSdu b) (s.rrcState = .rrcConnected) := by
  rw [writeSdu]
  have hreceive : (s.receive b).rrcState = s.rrcState := rfl
  cases hstate : s.rrcState with
  | rrcConnected =>
    simp only [hreceive, hstate]
    obtain ⟨hheld, hmis, -⟩ := held_giveUp (s := s.receive b) (b := b) (h := s.held) rfl
    exact .none_left hheld hmis trivial
  | completingSetup =>
    simp only [hreceive, hstate]
    obtain ⟨hheld, hmis⟩ := (s.receive b).sendNew_held .rrcConnected
    exact .one_left hheld hmis (by simp)
  | _ =>
    simp only [hreceive, hstate]
    exact .one_left rfl rfl (by simp)

/-- An SDU that is written while RRC is connected leaves it so. -/
theorem rrcState_writeSdu {s : Ue} {b : Nat} (h : s.rrcState = .rrcConnected) :
    (s.writeSdu b).rrcState = .rrcConnected ∧ (s.writeSdu b).nas = s.nas := by
  rw [writeSdu]
  have hreceive : (s.receive b).rrcState = .rrcConnected := h
  simp only [hreceive]
  obtain ⟨-, -, hstate, hnas⟩ := held_giveUp (s := s.receive b) (b := b) (h := s.held) rfl
  exact ⟨hstate.trans h, hnas⟩

/-- NAS gives up the buffer of a message: it deallocates it, or answers while RRC is connected. -/
def Disposes (F : SecurityFunctions) (s : Ue) (pdu : NasPdu) : Prop :=
  disposal F s.nas pdu = .deallocate ∨
    disposal F s.nas pdu = .reuse ∧ s.rrcState = .rrcConnected

/-- NAS leaves nothing exactly when it disposes of the message. -/
theorem accounts_nasWritePdu (F : SecurityFunctions) (s : Ue) (lcid b : Nat) (pdu : NasPdu) :
    Accounts s (s.nasWritePdu F lcid b pdu) (s.Disposes F pdu) := by
  obtain ⟨hheld, hmis, hstate, -⟩ := held_giveUp
    (s := { s with nas := s.nas.writePdu F lcid pdu }.receive b) (b := b) (h := s.held) rfl
  rw [nasWritePdu]
  cases hd : disposal F s.nas pdu with
  | deallocate =>
    exact .none_left hheld hmis (.inl hd)
  | reuse =>
    -- The answer is written to the buffer of the message, which goes to RRC.
    have hgive : Accounts s (({ s with nas := s.nas.writePdu F lcid pdu }.receive b).giveUp b)
        True := .none_left hheld hmis trivial
    refine (hgive.trans (accounts_writeSdu _ b)).congr ?_
    simp only [Disposes, hd, hstate]
    simp [receive]
  | leave => exact .one_left rfl rfl (by simp [Disposes, hd])

/-- A message whose buffer is given up leaves RRC in its state. -/
theorem state_nasWritePdu {F : SecurityFunctions} {s : Ue} (lcid b : Nat) {pdu : NasPdu}
    (h : s.Disposes F pdu) : (s.nasWritePdu F lcid b pdu).rrcState = s.rrcState ∧
      (s.nasWritePdu F lcid b pdu).nas = s.nas.writePdu F lcid pdu := by
  obtain ⟨-, -, hstate, hnas⟩ := held_giveUp
    (s := { s with nas := s.nas.writePdu F lcid pdu }.receive b) (b := b) (h := s.held) rfl
  rw [nasWritePdu]
  obtain hd | ⟨hd, hconn⟩ := h
  · rw [hd]
    exact ⟨hstate, hnas⟩
  · rw [hd]
    obtain ⟨h₁, h₂⟩ := rrcState_writeSdu (b := b) (hstate.trans hconn)
    exact ⟨h₁.trans hconn.symm, h₂.trans hnas⟩

/-- Whether NAS disposes of a message does not depend on the messages before. -/
theorem disposes_of_state {F : SecurityFunctions} {s s' : Ue} {pdu : NasPdu} {lcid : Nat}
    (hstate : s'.rrcState = s.rrcState) (hnas : s'.nas = s.nas.writePdu F lcid pdu) (q : NasPdu) :
    s'.Disposes F q ↔ s.Disposes F q := by
  rw [Disposes, Disposes, hstate, hnas, disposal_writePdu]

/-- Several messages for NAS, one after the other. Induction on the messages. -/
theorem accounts_handOnNas (F : SecurityFunctions) (lcid : Nat) (s : Ue) (pdus : List NasPdu) :
    Accounts s (handOnNas F lcid s pdus) (∀ pdu ∈ pdus, s.Disposes F pdu) := by
  induction pdus generalizing s with
  | nil => exact .none_left rfl rfl (by simp)
  | cons pdu pdus ih =>
    rw [handOnNas]
    obtain ⟨hheld, hmis, hstate, hnas⟩ :=
      held_giveUp (s := s.allocate) (b := s.newBuffer) (h := s.held) rfl
    set s₁ := s.allocate.giveUp s.newBuffer with hs₁
    have hgive : Accounts s s₁ True := .none_left hheld hmis trivial
    have hdisp : ∀ q, s₁.Disposes F q ↔ s.Disposes F q := fun q => by
      rw [Disposes, Disposes, hnas, hstate]
      rfl
    -- The messages behind the first one find RRC and the verdict of the USIM as they were, if the
    -- first one is given up.
    refine ((hgive.trans (accounts_nasWritePdu F s₁ lcid _ pdu)).trans (ih _)).congr ?_
    rw [true_and, hdisp pdu, List.forall_mem_cons]
    refine and_congr_right fun hpdu => ?_
    obtain ⟨hstate', hnas'⟩ := state_nasWritePdu lcid s.newBuffer ((hdisp pdu).mpr hpdu)
    simp only [disposes_of_state hstate' hnas', hdisp]

/-- The set-up of a connection: NAS has its message, and RRC does not give it up. -/
theorem accounts_notifyConnectionSetup (F : SecurityFunctions) {s : Ue}
    (hs : s.rrcState = .completingSetup) : Accounts s (s.notifyConnectionSetup F) False := by
  rw [notifyConnectionSetup]
  obtain ⟨hheld, hmis, hstate, -⟩ := held_giveUp
    (s := { s.allocate with nas := s.nas.notifyConnectionSetup F }) (b := s.newBuffer)
    (h := s.held) rfl
  have hgive : Accounts s ({ s.allocate with
      nas := s.nas.notifyConnectionSetup F }.giveUp s.newBuffer) True :=
    .none_left hheld hmis trivial
  refine (hgive.trans (accounts_writeSdu _ s.newBuffer)).congr ?_
  rw [hstate]
  simp [allocate, hs]

/-- A function that receives a buffer and gives it up first. -/
theorem accounts_receive_giveUp (s : Ue) (b : Nat) :
    Accounts s ((s.receive b).giveUp b) True :=
  have h := held_giveUp (s := s.receive b) (b := b) (h := s.held) rfl
  .none_left h.1 h.2.1 trivial

/-- A message on CCCH is given up, unless it is a connection setup. -/
theorem accounts_parseDlCcch (F : SecurityFunctions) (s : Ue) (b : Nat) (msg : DlCcchMsg) :
    Accounts s ((s.receive b).parseDlCcch F b msg) (msg ≠ .rrcConSetup) := by
  have hgive := s.accounts_receive_giveUp b
  cases msg with
  | rrcConSetup =>
    have hsetup : Accounts s { (s.receive b).giveUp b with rrcState := .completingSetup } True :=
      hgive
    exact (hsetup.trans (accounts_notifyConnectionSetup F rfl)).congr (by simp)
  | rrcConReest =>
    exact (hgive.trans (accounts_sendNew _ .rrcConnected)).congr (by simp)
  | rrcConRej => exact hgive.congr (by simp)
  | rrcConReestRej => exact hgive.congr (by simp)
  | other => exact hgive.congr (by simp)

/-- A message on SRB1 or SRB2 whose buffer is given up. -/
def DcchDisposes (F : SecurityFunctions) (s : Ue) : DlDcchMsg → Prop
  | .dlInfoTransfer pdu => s.Disposes F pdu
  | .securityModeCommand => True
  | .rrcConReconfig pdus => ∀ pdu ∈ pdus, s.Disposes F pdu
  | .ueCapabilityEnquiry eutra => true ∈ eutra
  | .rrcConRelease | .other => False

/-- A message on SRB1 or SRB2 is given up in the listed cases. -/
theorem accounts_parseDlDcch (F : SecurityFunctions) (s : Ue) (lcid b : Nat) (msg : DlDcchMsg) :
    Accounts s ((s.receive b).parseDlDcch F lcid b msg) (s.DcchDisposes F msg) := by
  have hgive := s.accounts_receive_giveUp b
  obtain ⟨-, -, hstate, hnas⟩ := held_giveUp (s := s.receive b) (b := b) (h := s.held) rfl
  have hdisp : ∀ q, ((s.receive b).giveUp b).Disposes F q ↔ s.Disposes F q := fun q => by
    rw [Disposes, Disposes, hnas, hstate]
    rfl
  cases msg with
  | dlInfoTransfer pdu =>
    exact (hgive.trans (accounts_nasWritePdu F _ lcid b pdu)).congr (by simp [hdisp, DcchDisposes])
  | securityModeCommand => exact hgive
  | rrcConReconfig pdus =>
    exact (hgive.trans (accounts_handOnNas F lcid _ pdus)).congr (by simp [hdisp, DcchDisposes])
  | ueCapabilityEnquiry eutra =>
    rw [parseDlDcch.eq_def]
    dsimp only
    split
    · rename_i hany
      exact hgive.congr (by simpa [DcchDisposes] using hany)
    · rename_i hany
      exact .one_left rfl rfl (by simpa [DcchDisposes] using hany)
  | rrcConRelease => exact .one_left rfl rfl id
  | other => exact .one_left rfl rfl id

/-- Paging records leave nothing. Induction on the records. -/
theorem accounts_paged (s : Ue) (records : List Bool) :
    Accounts s (records.foldl paged s) True := by
  induction records generalizing s with
  | nil => exact .none_left rfl rfl trivial
  | cons isOurs records ih =>
    have hone : Accounts s (s.paged isOurs) True := by
      rw [paged]
      split
      · exact accounts_sendNew s _
      · exact .none_left rfl rfl trivial
    exact (hone.trans (ih _)).congr (and_self_iff)

/-- A paging message is given up when its length is one that RRC reads. -/
theorem accounts_writePduPcch (s : Ue) (b nBytes : Nat) (records : List Bool) :
    Accounts s (s.writePduPcch b nBytes records) (0 < nBytes ∧ nBytes < maxBufferSizeBits) := by
  rw [writePduPcch]
  split
  · rename_i hsize
    have hgive := s.accounts_receive_giveUp b
    dsimp only
    -- Without an S-TMSI no record is looked at, and the buffer is deallocated all the same.
    split
    · exact (hgive.trans (accounts_paged _ records)).congr (iff_of_true ⟨trivial, trivial⟩ hsize)
    · exact hgive.congr (iff_of_true trivial hsize)
  · rename_i hsize
    exact .one_left rfl rfl hsize

/-! ### One call, and runs -/

/-- The call gives up every buffer. -/
def GivesUp (F : SecurityFunctions) (s : Ue) : UeAction → Prop
  | .writePdu 0 pdu => pdu.dlCcch ≠ .rrcConSetup
  | .writePdu 1 pdu | .writePdu 2 pdu => s.DcchDisposes F pdu.dlDcch
  | .writePdu (_ + 3) _ => False
  | .writeSdu => s.rrcState = .rrcConnected
  | .writePduPcch nBytes _ => 0 < nBytes ∧ nBytes < maxBufferSizeBits
  | .nasWritePdu _ pdu => s.Disposes F pdu
  | .rrcConnect | .writePduBcchBch | .sib1 | .sib2 | .radioLinkFailure
  | .rrcConnectionRelease => True

/-- A PDU from PDCP is given up in the cases of its channel. -/
theorem accounts_writePdu (F : SecurityFunctions) (s : Ue) (lcid b : Nat) (pdu : RrcPdu) :
    Accounts s (s.writePdu F lcid b pdu) (s.GivesUp F (.writePdu lcid pdu)) := by
  obtain _ | _ | _ | k := lcid
  · exact accounts_parseDlCcch F s b pdu.dlCcch
  · exact accounts_parseDlDcch F s 1 b pdu.dlDcch
  · exact accounts_parseDlDcch F s 2 b pdu.dlDcch
  · exact .one_left rfl rfl id

/-- A call accounts for its buffers exactly when it gives up every one. -/
theorem accounts_step (F : SecurityFunctions) (s : Ue) (a : UeAction) :
    Accounts s (s.step F a) (s.GivesUp F a) := by
  cases a with
  | writePdu lcid pdu => exact accounts_writePdu F { s with buffers := s.buffers + 1 } lcid _ pdu
  | writeSdu => exact accounts_writeSdu { s with buffers := s.buffers + 1 } _
  | writePduPcch nBytes records =>
    exact accounts_writePduPcch { s with buffers := s.buffers + 1 } _ nBytes records
  | nasWritePdu lcid pdu =>
    exact accounts_nasWritePdu F { s with buffers := s.buffers + 1 } lcid _ pdu
  | rrcConnect | sib1 | sib2 | radioLinkFailure =>
    rw [step]
    split <;> first | exact accounts_sendNew s _ | exact .none_left rfl rfl trivial
  | writePduBcchBch | rrcConnectionRelease => exact .none_left rfl rfl trivial

/-- Each call is defined. -/
def next (F : SecurityFunctions) (s : Ue) (a : UeAction) : Option Ue := some (s.step F a)

/-- **Which messages leak.** In a run of calls from any state of RRC and NAS with no buffer held,
every buffer has been given up exactly once at the end of each call if and only if each call gives
up every one. -/
theorem along_accounted_iff (F : SecurityFunctions) (rrcState : RrcState) (nas : Nas)
    (as : List UeAction) :
    Along (next F) (fun _ _ s' => s'.Accounted) ({ rrcState := rrcState, nas := nas } : Ue) as ↔
      Along (next F) (fun s a _ => s.GivesUp F a) ({ rrcState := rrcState, nas := nas } : Ue)
        as := by
  have hone : ∀ s a s', s.Accounted → True → next F s a = some s' →
      (s'.Accounted ↔ s.GivesUp F a) := by
    intro s a s' hs _ hstep
    obtain rfl := Option.some.inj hstep
    exact (accounts_step F s a).accounted_iff hs
  exact along_iff (I := Accounted) (K := fun _ => True) hone
    (fun s a s' hs ha hstep hc => (hone s a s' hs ha hstep).mpr hc) (fun _ _ => trivial) ⟨rfl, rfl⟩

/-- The set-up of a connection leaves the attach request of NAS. -/
theorem not_along_accounted :
    ¬Along (next default) (fun _ _ s' => s'.Accounted)
      ({ nas := Nas.new default 0 0 default default .eea0 .eia0 } : Ue)
      [.rrcConnect, .writePdu 0 ⟨.rrcConSetup, .other⟩] := by
  intro h
  obtain ⟨-, hrest⟩ := h _ rfl
  obtain ⟨⟨hheld, -⟩, -⟩ := hrest _ rfl
  cases hheld

end Ue

end SrsUE.Upper
