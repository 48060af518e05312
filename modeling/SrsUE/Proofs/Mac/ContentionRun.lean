import SrsUE.Proofs.Mac.ContentionReception

/-!
# `SrsUE.Proofs.Mac.ContentionRun`: which Msg4 is accepted

A Msg4 is genuine if it has an identity that belongs to a CCCH SDU in a Msg3 of the current
procedure. `Sound` says of an action that only a genuine Msg4 makes the temporary C-RNTI the C-RNTI,
is acknowledged, or leads to SDUs for RLC.

* `contention_run`: a run is sound exactly when every other Msg4 has no SDU, no identity equal to
  `transmitted_contention_id`, and is decoded once. This identity is the one of the Msg3 if RRC
  registers identities in time, but it is 0 until a step after Msg3 saves it, and the demux keeps
  the PDU whatever the result is. A block that is not decoded gets the answer of the one before, and
  a block that was refused is acknowledged when it is sent again.
* `not_sound_zero`: a Msg4 with the identity 0 that comes before this step, one that is not decoded,
  and one that is refused and sent again.
-/

set_option autoImplicit false

namespace SrsUE.Proofs.Mac

open SrsUE.Mac SrsUE.Lib
open SrsUE.Rlc (Bytes SrslteBit)

/-! ### What the procedure does to the identities -/

/-- The C-RNTI, the identity that RRC registered and the one that was saved. -/
def identities (r : RaProc) : Nat × Nat × Nat :=
  (r.rntis.crnti, r.rntis.contentionId, r.transmittedContentionId)

/-- A timing advance command changes no identity. -/
theorem identities_processTimeadvCmd (r : RaProc) (ta : Nat) (running : Bool) :
    identities (r.processTimeadvCmd ta running) = identities r := by
  rw [RaProc.processTimeadvCmd]
  split
  · rfl
  · split
    · rfl
    · rfl

/-- Nor does saving the C-RNTI that was sent. -/
theorem identities_saveTransmittedCrnti (r : RaProc) :
    identities r.saveTransmittedCrnti = identities r := by
  rw [RaProc.saveTransmittedCrnti]
  split
  · dsimp only
    split
    · rfl
    · rfl
  · rfl

/-- Nor does entering contention resolution. -/
theorem identities_enterContentionResolution (r : RaProc) (tempCrnti : Nat) :
    identities (r.enterContentionResolution tempCrnti) = identities r := by
  rw [RaProc.enterContentionResolution]
  dsimp only
  have hsave :=
    identities_saveTransmittedCrnti ({ r with rntis := { r.rntis with tempRnti := tempCrnti } }.call
    (.pdcchDlSearch .temp tempCrnti (-1) (-1)))
  generalize RaProc.saveTransmittedCrnti _ = r₁ at hsave ⊢
  exact hsave

/-- Nor does a subheader of the RAR. -/
theorem identities_response (running : Bool) (r : RaProc) (s : RarSubh) :
    identities (RaProc.response running r s) = identities r := by
  rw [RaProc.response]
  split
  · have hta := identities_processTimeadvCmd { r with rarReceived := true } s.ta running
    generalize { r with rarReceived := true }.processTimeadvCmd s.ta running = r₁ at hta ⊢
    dsimp only
    split
    · exact hta
    · exact (identities_enterContentionResolution _ _).trans hta
  · rfl

/-- Nor does a RAR that is decoded. -/
theorem identities_tbDecodedOk {L : SrslteBit} {r r' : RaProc} {bytes : Bytes} {running : Bool}
    (h : r.tbDecodedOk L bytes running = some r') : identities r' = identities r := by
  obtain ⟨msg, -, rfl⟩ := Option.map_eq_some_iff.mp h
  have hfold : ∀ (ss : List RarSubh) (r₀ : RaProc),
      identities (ss.foldl (RaProc.response running) r₀) = identities r₀ := by
    intro ss
    induction ss with
    | nil => exact fun _ => rfl
    | cons s ss ih => exact fun r₀ => (ih _).trans (identities_response running r₀ s)
  exact hfold _ _

/-- Nor does the selection of a preamble. -/
theorem identities_stepResourceSelection (r : RaProc) (rand : Nat) :
    identities (r.stepResourceSelection rand) = identities r := by
  rw [RaProc.stepResourceSelection]
  split
  · rfl
  · dsimp only
    split
    · split
      · rfl
      · rfl
    · split
      · rfl
      · rfl

/-- Outside of initialisation and contention resolution a step changes no identity. -/
theorem identities_step (ttiInterval : Nat → Nat → Nat) {r : RaProc}
    (hinit : r.state ≠ .initialization) (hresolution : r.state ≠ .contentionResolution)
    (cfg : MacCfg)
    (env : StepEnv) : identities (r.step ttiInterval cfg env) = identities r := by
  rw [RaProc.step]
  -- Only two states of the procedure write the identities, and both are excluded.
  cases hstate : r.state with
  | idle => rfl
  | initialization => exact absurd hstate hinit
  | resourceSelection => exact identities_stepResourceSelection r env.rand
  | preambleTransmission => rfl
  | pdcchSetup =>
    dsimp only
    rw [RaProc.stepPdcchSetup]
    split
    · rfl
    · rfl
  | responseReception =>
    dsimp only
    rw [RaProc.stepResponseReception]
    split
    · dsimp only
      split
      · rfl
      · rfl
    · rfl
  | responseError =>
    dsimp only
    rw [RaProc.stepResponseError]
    dsimp only
    split
    · rfl
    · rfl
  | backoffWait =>
    dsimp only
    rw [RaProc.stepBackoffWait]
    split
    · rfl
    · rfl
  | contentionResolution => exact absurd hstate hresolution
  | completion =>
    dsimp only
    rw [RaProc.stepCompletition]
    split
    · rfl
    · rfl
  | completionDone => rfl
  | raProblem => rfl

/-- In contention resolution a step saves the identity that RRC registered, once Msg3 is sent and if
none is saved, or it changes no identity. -/
theorem stepContentionResolution_identities (r : RaProc) (env : StepEnv) :
    (env.msg3IsTransmitted = true ∧ r.transmittedContentionId = 0 ∧
      identities (r.stepContentionResolution env) = (r.rntis.crnti, 0, r.rntis.contentionId)) ∨
    identities (r.stepContentionResolution env) = identities r := by
  rw [RaProc.stepContentionResolution]
  split
  · rename_i hsent
    dsimp only
    split
    · split
      · exact Or.inr rfl
      · exact Or.inr rfl
    · split
      · rename_i hunsaved
        exact Or.inl ⟨hsent, hunsaved, rfl⟩
      · exact Or.inr rfl
  · exact Or.inr rfl

/-- What a step can do to the identities: it begins a procedure, it saves the registered identity
after Msg3, or it leaves them. -/
theorem step_identities (ttiInterval : Nat → Nat → Nat) (r : RaProc) (cfg : MacCfg)
    (env : StepEnv) :
    (r.state = .initialization ∧ .msg3Flush ∈ (r.step ttiInterval cfg env).calls ∧
      identities (r.step ttiInterval cfg env) = (r.rntis.crnti, r.rntis.contentionId, 0)) ∨
    (r.state ≠ .initialization ∧ env.msg3IsTransmitted = true ∧ r.transmittedContentionId = 0 ∧
      identities (r.step ttiInterval cfg env) = (r.rntis.crnti, 0, r.rntis.contentionId)) ∨
    (r.state ≠ .initialization ∧ identities (r.step ttiInterval cfg env) = identities r) := by
  by_cases hinit : r.state = .initialization
  · left
    have hstep : r.step ttiInterval cfg env = r.stepInitialization cfg := by
      rw [RaProc.step, hinit]
    rw [hstep]
    exact ⟨hinit, by simp [RaProc.stepInitialization, RaProc.call], rfl⟩
  · right
    by_cases hresolution : r.state = .contentionResolution
    · have hstep : r.step ttiInterval cfg env = r.stepContentionResolution env := by
        rw [RaProc.step, hresolution]
      rw [hstep]
      rcases stepContentionResolution_identities r env with ⟨hsent, hunsaved, hsaved⟩ | hsame
      · exact Or.inl ⟨hinit, hsent, hunsaved, hsaved⟩
      · exact Or.inr ⟨hinit, hsame⟩
    · exact Or.inr ⟨hinit, identities_step ttiInterval hinit hresolution cfg env⟩

/-! ### What the demux does -/

/-- The callback is called until it accepts, so an identity is accepted exactly when it is the saved
one. If none is, the identities stay as they are. -/
theorem offerIds_spec (r : RaProc) (ids : List Nat) :
    (offerIds r ids).2 = decide (r.transmittedContentionId ∈ ids) ∧
      (offerIds r ids).1.rntis.contentionId = r.rntis.contentionId ∧
      (offerIds r ids).1.transmittedContentionId = r.transmittedContentionId ∧
      (r.transmittedContentionId ∉ ids → (offerIds r ids).1.rntis.crnti = r.rntis.crnti) := by
  induction ids generalizing r with
  | nil => exact ⟨rfl, rfl, rfl, fun _ => rfl⟩
  | cons id ids ih =>
    rw [offerIds, RaProc.contentionResolutionIdReceived]
    by_cases hid : r.transmittedContentionId = id
    · have hbeq : ((r.call .contentionTimerStop).transmittedContentionId == id) = true :=
        beq_iff_eq.mpr hid
      simp only [hbeq, if_true]
      exact ⟨by simp [hid], rfl, rfl, fun hne => absurd (hid ▸ List.mem_cons_self ..) hne⟩
    · have hbeq : ((r.call .contentionTimerStop).transmittedContentionId == id) = false :=
        beq_eq_false_iff_ne.mpr hid
      simp only [hbeq, Bool.false_eq_true, if_false]
      obtain ⟨hok, hcontention, hsaved, hcrnti⟩ := ih _
      refine ⟨hok.trans ?_, hcontention, hsaved, fun hne => hcrnti ?_⟩
      · rw [decide_eq_decide, List.mem_cons]
        exact ⟨Or.inr, fun h => h.resolve_left hid⟩
      · exact fun hmem => hne (List.mem_cons_of_mem _ hmem)

/-- What becomes the C-RNTI when one of these identities is the saved one. An identity before it
resets the temporary C-RNTI. -/
def acceptedCrnti (r : RaProc) (ids : List Nat) : Nat :=
  if ids.head? = some r.transmittedContentionId then r.rntis.tempRnti else 0

/-- With the saved identity among those offered, the C-RNTI becomes the temporary one, as the
identities before leave it. -/
theorem offerIds_accepted {r : RaProc} {ids : List Nat} (hmem : r.transmittedContentionId ∈ ids) :
    (offerIds r ids).1.rntis.crnti = acceptedCrnti r ids := by
  induction ids generalizing r with
  | nil => cases hmem
  | cons id ids ih =>
    rw [offerIds, RaProc.contentionResolutionIdReceived, acceptedCrnti, List.head?_cons]
    by_cases hid : r.transmittedContentionId = id
    · have hbeq : ((r.call .contentionTimerStop).transmittedContentionId == id) = true :=
        beq_iff_eq.mpr hid
      simp only [hbeq, if_true]
      rw [if_pos (congrArg some hid.symm)]
      rfl
    · have hbeq : ((r.call .contentionTimerStop).transmittedContentionId == id) = false :=
        beq_eq_false_iff_ne.mpr hid
      simp only [hbeq, Bool.false_eq_true, if_false]
      rw [if_neg fun heq => hid (Option.some.inj heq).symm]
      refine Eq.trans (ih ?_) ?_
      · exact List.mem_of_ne_of_mem hid hmem
      rw [acceptedCrnti]
      split
      · rfl
      · rfl

/-! ### Sound actions -/

/-- The identities in a PDU. -/
def pduIds (pdu : QueuedPdu) : List Nat := (pdu.parse.map pdu.conResIds).getD []

/-- The SDUs that RLC was given, and those that it will be given when the queues are processed. -/
def reachRlc (s : Contention) : List (Nat × Bytes) := s.rlc ++ processQueues s.pdus

section
variable (ttiInterval : Nat → Nat → Nat) (codes : DlRntiCodes)

/-- The block of a reception: the one that the process holds, or the one that is decoded. -/
def blockOf (s : Contention) (r : Reception) : Option QueuedPdu :=
  if holds ttiInterval codes s r then s.blocks.get r.harqPid
  else if r.buffer.isSome && r.decodePdsch then some r.pdu else none

/-- The Msg4 has an identity that was in a Msg3 of the procedure. -/
def genuine (s : Contention) (r : Reception) : Bool :=
  (blockOf ttiInterval codes s r).any fun pdu =>
    decide (0 < pdu.nofBytes) && (pduIds pdu).any (· ∈ s.sentIds)

/-- Only a genuine Msg4 may change the C-RNTI, be acknowledged, or give SDUs to RLC. -/
def Sound (s : Contention) (e : ContentionEvent) (s' : Contention) : Prop :=
  match e with
  | .dlReception r =>
    if r.search = .temp then
      genuine ttiInterval codes s r = false →
        s'.ra.rntis.crnti = s.ra.rntis.crnti ∧ s'.uciAck ≠ some true ∧ reachRlc s' = reachRlc s
    else s'.ra.rntis.crnti = s.ra.rntis.crnti
  | .macReset => s'.ra.rntis.crnti = 0 ∧ reachRlc s' = reachRlc s
  | _ => s'.ra.rntis.crnti = s.ra.rntis.crnti ∧ reachRlc s' = reachRlc s

/-- A Msg4 does no harm: a block that the process holds is not answered, one that is decoded now is
refused and has no SDU, and one that is not decoded does not get the answer of one before that was
accepted. -/
def Benign (s : Contention) (r : Reception) (refused : Prop) : Prop :=
  if holds ttiInterval codes s r then r.taExpired = true
  else if (r.buffer.isSome && r.decodePdsch) = true ∧ 0 < r.grant.nBytes then
    refused ∧ r.pdu.process = []
  else r.buffer.isSome = true → r.taExpired = true ∨ s.isUecridSuccessful = false

/-- A Msg4 is refused. If it is accepted, it must not be acknowledged, nor change the C-RNTI. -/
def Refused (s : Contention) (r : Reception) : Prop :=
  s.ra.transmittedContentionId ∉ pduIds r.pdu ∨
    r.taExpired = true ∧ acceptedCrnti s.ra (pduIds r.pdu) = s.ra.rntis.crnti

/-- A Msg4 that is not genuine does no harm, by the identity that is saved. -/
def Harmless (s : Contention) (e : ContentionEvent) : Prop :=
  match e with
  | .dlReception r =>
    r.search = .temp → genuine ttiInterval codes s r = false →
      Benign ttiInterval codes s r (Refused s r)
  | _ => True

/-- Identities are used in order. A Msg3 has the SDU of the identity that is registered, RRC
registers no other one until it is saved, and no Msg4 has the identity 0 before. Otherwise a Msg4
that is not genuine does no harm. -/
def InOrder (s : Contention) (e : ContentionEvent) : Prop :=
  match e with
  | .msg3Get pduGet =>
    s.ra.transmittedContentionId = 0 → s.ra.rntis.contentionId ≠ 0 →
      ∀ msg3 ∈ (s.msg3.msg3Get pduGet).2, msg3.ccch = some s.ra.rntis.contentionId
  | .setContentionId _ => s.msg3.hasBeenTransmitted = true → s.ra.transmittedContentionId ≠ 0
  | .dlReception r =>
    r.search = .temp → genuine ttiInterval codes s r = false →
      Benign ttiInterval codes s r (s.ra.transmittedContentionId = 0 → 0 ∉ pduIds r.pdu)
  | _ => True

end

section
variable {s s' : Contention} {pid : Nat} {pdu : QueuedPdu}

/-- What a Msg4 leads to. -/
theorem msg4_spec (h : s.pushPduTempCrnti pid pdu = some s') (hpid : pid < nofHarqPid)
    (hpos : 0 < pdu.nofBytes) :
    s'.isUecridSuccessful = decide (s.ra.transmittedContentionId ∈ pduIds pdu) ∧
      (reachRlc s' = reachRlc s ↔ pdu.process = []) ∧
      (s.ra.transmittedContentionId ∉ pduIds pdu → s'.ra.rntis.crnti = s.ra.rntis.crnti) ∧
      (s.ra.transmittedContentionId ∈ pduIds pdu →
        s'.ra.rntis.crnti = acceptedCrnti s.ra (pduIds pdu)) := by
  rw [Contention.pushPduTempCrnti, if_pos hpos] at h
  obtain ⟨ss, hparse, rfl⟩ := Option.map_eq_some_iff.mp h
  have hids : pduIds pdu = pdu.conResIds ss := by
    rw [pduIds, hparse]
    rfl
  obtain ⟨hok, -, -, hcrnti⟩ := offerIds_spec s.ra (pdu.conResIds ss)
  rw [hids]
  refine ⟨hok, ?_, hcrnti, offerIds_accepted⟩
  rw [reachRlc, reachRlc, List.append_cancel_left_eq]
  exact processQueues_concat hpid

/-- A block without bytes does nothing. -/
theorem pushPduTempCrnti_empty (h : s.pushPduTempCrnti pid pdu = some s')
    (hzero : ¬0 < pdu.nofBytes) : s' = s := by
  rw [Contention.pushPduTempCrnti, if_neg hzero] at h
  exact (Option.some.inj h).symm

/-- A Msg4 changes neither of the two identities. -/
theorem pushPduTempCrnti_identities (h : s.pushPduTempCrnti pid pdu = some s') :
    s'.ra.rntis.contentionId = s.ra.rntis.contentionId ∧
      s'.ra.transmittedContentionId = s.ra.transmittedContentionId ∧ s'.msg3 = s.msg3 ∧
      s'.sentIds = s.sentIds := by
  by_cases hpos : 0 < pdu.nofBytes
  · rw [Contention.pushPduTempCrnti, if_pos hpos] at h
    obtain ⟨ss, -, rfl⟩ := Option.map_eq_some_iff.mp h
    obtain ⟨-, hcontention, hsaved, -⟩ := offerIds_spec s.ra (pdu.conResIds ss)
    exact ⟨hcontention, hsaved, rfl, rfl⟩
  · obtain rfl := pushPduTempCrnti_empty h hpos
    exact ⟨rfl, rfl, rfl, rfl⟩

end

/-- The acknowledgement is sent unless the timer is expired. -/
theorem ite_ne_some_true {taExpired ack : Bool} :
    (if taExpired then none else some ack) ≠ some true ↔ taExpired = true ∨ ack = false := by
  cases taExpired <;> cases ack <;> decide

section
variable {ttiInterval : Nat → Nat → Nat} {codes : DlRntiCodes} {s s' : Contention} {r : Reception}
  {refused : Prop}

/-- A block that the process holds is acknowledged, unless the time alignment timer has expired. -/
theorem benign_of_holds (hholds : holds ttiInterval codes s r = true) :
    Benign ttiInterval codes s r refused ↔ r.taExpired = true := by
  rw [Benign, if_pos hholds]

/-- A block that is decoded must be refused and have no SDU. -/
theorem benign_of_decoded (hholds : holds ttiInterval codes s r = false)
    (hdecoded : (r.buffer.isSome && r.decodePdsch) = true ∧ 0 < r.grant.nBytes) :
    Benign ttiInterval codes s r refused ↔ refused ∧ r.pdu.process = [] := by
  rw [Benign, hholds, if_neg Bool.false_ne_true, if_pos hdecoded]

/-- A block that is not decoded gets the answer of the last one that was. -/
theorem benign_of_not_decoded (hholds : holds ttiInterval codes s r = false)
    (hdecoded : ¬((r.buffer.isSome && r.decodePdsch) = true ∧ 0 < r.grant.nBytes)) :
    Benign ttiInterval codes s r refused ↔
      (r.buffer.isSome = true → r.taExpired = true ∨ s.isUecridSuccessful = false) := by
  rw [Benign, hholds, if_neg Bool.false_ne_true, if_neg hdecoded]

/-- A reception on the temporary C-RNTI is sound exactly when it is harmless. -/
theorem sound_temp_iff (hr : r.search = .temp) (hs : Numbered s.procs)
    (h : s.receive ttiInterval codes r = some s') :
    Sound ttiInterval codes s (.dlReception r) s' ↔
      Harmless ttiInterval codes s (.dlReception r) := by
  have hlt : (r.harqPid : Nat) < nofHarqPid := harqPid_lt (by rw [hr]; decide)
  rw [Sound, if_pos hr, Harmless]
  refine Iff.trans ?_ (forall_prop_of_true hr).symm
  refine imp_congr_right fun _ => ?_
  cases receive_temp hr (hs r.harqPid) h with
  -- Nothing is decoded again, and `default_ack` is what is answered.
  | again procs lastTemporalCrnti hholds =>
    rw [benign_of_holds hholds, ite_ne_some_true]
    exact ⟨fun hall => hall.2.1.resolve_right (Ne.symm Bool.false_ne_true),
      fun hta => ⟨rfl, Or.inl hta, rfl⟩⟩
  -- The callback returns what the last Msg4 has left.
  | undecoded procs lastTemporalCrnti hholds hdecoded =>
    rw [benign_of_not_decoded hholds fun hboth => Bool.false_ne_true (hdecoded.symm.trans hboth.1)]
    cases hbuffer : r.buffer with
    | none =>
      refine iff_of_true ⟨rfl, ?_, rfl⟩ fun hsome => by cases hsome
      exact fun hack => Bool.false_ne_true (Option.some.inj hack)
    | some buffer =>
      rw [Option.isNone_some, if_neg Bool.false_ne_true, ite_ne_some_true]
      exact ⟨fun hall _ => hall.2.1, fun hack => ⟨rfl, hack rfl, rfl⟩⟩
  -- The identities in the block decide, and the SDUs are queued in any case.
  | decoded procs lastTemporalCrnti blocks s₁ hholds hdecoded hpush =>
    rw [ite_ne_some_true]
    by_cases hpos : 0 < r.grant.nBytes
    · obtain ⟨hok, hreach, hcrnti, haccepted⟩ := msg4_spec hpush hlt hpos
      rw [benign_of_decoded hholds ⟨hdecoded, hpos⟩, hok, decide_eq_false_iff_not]
      constructor
      · rintro ⟨hsame, hack, hrlc⟩
        refine ⟨?_, hreach.mp hrlc⟩
        by_cases hmem : s.ra.transmittedContentionId ∈ pduIds r.pdu
        · exact Or.inr ⟨hack.resolve_right fun hne => hne hmem, (haccepted hmem).symm.trans hsame⟩
        · exact Or.inl hmem
      · rintro ⟨hrefused | ⟨hta, hsame⟩, hsdus⟩
        · exact ⟨hcrnti hrefused, Or.inr hrefused, hreach.mpr hsdus⟩
        · refine ⟨?_, Or.inl hta, hreach.mpr hsdus⟩
          by_cases hmem : s.ra.transmittedContentionId ∈ pduIds r.pdu
          · exact (haccepted hmem).trans hsame
          · exact hcrnti hmem
    · obtain rfl := pushPduTempCrnti_empty hpush hpos
      rw [benign_of_not_decoded hholds fun hboth => hpos hboth.2]
      exact ⟨fun hall _ => hall.2.1, fun hack =>
        ⟨rfl, hack (Bool.and_eq_true_iff.mp hdecoded).1, rfl⟩⟩

end

section
variable {ttiInterval : Nat → Nat → Nat} {codes : DlRntiCodes} {L : SrslteBit} {s s' : Contention}

/-- The C-RNTI is one of the identities. -/
theorem crnti_eq_of_identities {r r' : RaProc} (h : identities r' = identities r) :
    r'.rntis.crnti = r.rntis.crnti := congrArg Prod.fst h

/-- No step of the random access changes the C-RNTI. -/
theorem crnti_step (r : RaProc) (cfg : MacCfg) (env : StepEnv) :
    (r.step ttiInterval cfg env).rntis.crnti = r.rntis.crnti := by
  rcases step_identities ttiInterval r cfg env with ⟨-, -, h⟩ | ⟨-, -, -, h⟩ | ⟨-, h⟩
  · exact congrArg Prod.fst h
  · exact congrArg Prod.fst h
  · exact congrArg Prod.fst h

/-- A grant for the RAR changes no identity. -/
theorem identities_newGrantDl (r : RaProc) (nBytes tti : Nat) :
    identities (r.newGrantDl nBytes tti) = identities r := by
  rw [RaProc.newGrantDl]
  split
  · rfl
  · rfl

/-- A PDCCH for the C-RNTI changes no identity. -/
theorem identities_pdcchToCrnti (r : RaProc) (containsUplinkGrant : Bool) :
    identities (r.pdcchToCrnti containsUplinkGrant) = identities r := by
  rw [RaProc.pdcchToCrnti]
  split
  · rfl
  · split
    · rfl
    · rfl

/-- The start of a random access by MAC changes no identity. -/
theorem identities_startMacOrder (r : RaProc) (msgLenBits : Nat) :
    identities (r.startMacOrder msgLenBits) = identities r := by
  rw [RaProc.startMacOrder]
  split
  · rfl
  · rfl

/-- Nor does a start by a PDCCH order. -/
theorem identities_startPdcchOrder (r : RaProc) : identities r.startPdcchOrder = identities r := by
  rw [RaProc.startPdcchOrder]
  split
  · rfl
  · rfl

/-- A block for another RNTI changes no identity. -/
theorem identities_receive_other {r : Reception} (hr : r.search ≠ .temp)
    (h : s.receive ttiInterval codes r = some s') : identities s'.ra = identities s.ra := by
  rcases (receive_other hr h).1 with hra | hra
  · rw [hra]
  · rw [hra]
    exact identities_pdcchToCrnti s.ra false

/-- The processes stay where they are. -/
theorem Numbered.step (hs : Numbered s.procs) {e : ContentionEvent}
    (h : s.step ttiInterval codes L e = some s') : Numbered s'.procs := by
  cases e with
  | dlReception r => exact hs.receive h
  | tbDecodedOk bytes running =>
    obtain ⟨ra, -, rfl⟩ := Option.map_eq_some_iff.mp h
    exact hs
  | macReset =>
    obtain rfl := Option.some.inj h
    intro i
    rw [Fin.getElem_fin, Vector.getElem_map]
    exact hs i
  | _ =>
    obtain rfl := Option.some.inj h
    exact hs

/-- A step is sound exactly when it is harmless: its Msg4 is genuine, or it does no harm. -/
theorem sound_iff {e : ContentionEvent} (hs : Numbered s.procs)
    (h : s.step ttiInterval codes L e = some s') :
    Sound ttiInterval codes s e s' ↔ Harmless ttiInterval codes s e := by
  -- A Msg4 is the only event that can go wrong: the others do what they should, in any state.
  cases e with
  | step cfg env =>
    obtain rfl := Option.some.inj h
    exact iff_of_true ⟨crnti_step _ cfg _, rfl⟩ trivial
  | newGrantDl nBytes tti =>
    obtain rfl := Option.some.inj h
    exact iff_of_true ⟨crnti_eq_of_identities (identities_newGrantDl s.ra nBytes tti), rfl⟩ trivial
  | tbDecodedOk bytes running =>
    obtain ⟨ra, hra, rfl⟩ := Option.map_eq_some_iff.mp h
    exact iff_of_true ⟨crnti_eq_of_identities (identities_tbDecodedOk hra), rfl⟩ trivial
  | pdcchToCrnti ul =>
    obtain rfl := Option.some.inj h
    exact iff_of_true ⟨crnti_eq_of_identities (identities_pdcchToCrnti s.ra ul), rfl⟩ trivial
  | timerExpired =>
    obtain rfl := Option.some.inj h
    exact iff_of_true ⟨rfl, rfl⟩ trivial
  | startMacOrder len =>
    obtain rfl := Option.some.inj h
    exact iff_of_true ⟨crnti_eq_of_identities (identities_startMacOrder s.ra len), rfl⟩ trivial
  | startPdcchOrder =>
    obtain rfl := Option.some.inj h
    exact iff_of_true ⟨crnti_eq_of_identities (identities_startPdcchOrder s.ra), rfl⟩ trivial
  | msg3Get pduGet =>
    obtain rfl := Option.some.inj h
    exact iff_of_true ⟨rfl, rfl⟩ trivial
  | setContentionId id =>
    obtain rfl := Option.some.inj h
    exact iff_of_true ⟨rfl, rfl⟩ trivial
  | dlReception r =>
    by_cases hr : r.search = .temp
    · exact sound_temp_iff hr hs h
    · refine iff_of_true ?_ fun htemp => absurd htemp hr
      rw [Sound, if_neg hr]
      exact crnti_eq_of_identities (identities_receive_other hr h)
  | processPdus =>
    obtain rfl := Option.some.inj h
    exact iff_of_true ⟨rfl, by rw [reachRlc, reachRlc]; exact List.append_nil _⟩ trivial
  | macReset =>
    obtain rfl := Option.some.inj h
    exact iff_of_true ⟨rfl, rfl⟩ trivial

/-! ### Identities in order -/

/-- A saved identity was in a Msg3 of the procedure, and so was a registered one that is still to be
saved. -/
structure IdInv (s : Contention) : Prop where
  saved : s.ra.transmittedContentionId ≠ 0 → s.ra.transmittedContentionId ∈ s.sentIds
  registered : s.msg3.hasBeenTransmitted = true → s.ra.transmittedContentionId = 0 →
    s.ra.rntis.contentionId ≠ 0 → s.ra.rntis.contentionId ∈ s.sentIds

/-- After the constructors no identity is saved and none registered. -/
theorem idInv_initial (isUecridSuccessful : Bool) (lastTemporalCrnti : Nat)
    (unset : Nat → Bool × Nat) :
    IdInv (.initial isUecridSuccessful lastTemporalCrnti unset) :=
  ⟨fun h => absurd rfl h, fun h => by cases h⟩

/-- The constructor numbers the processes. -/
theorem numbered_initial (isUecridSuccessful : Bool) (lastTemporalCrnti : Nat)
    (unset : Nat → Bool × Nat) :
    Numbered (Contention.initial isUecridSuccessful lastTemporalCrnti unset).procs := by
  intro i
  rw [Contention.initial, Fin.getElem_fin, Vector.getElem_ofFn]
  rfl

/-- The invariant is about the identities and the mux only. -/
theorem IdInv.of_eq (h : IdInv s) (hcontention : s'.ra.rntis.contentionId = s.ra.rntis.contentionId)
    (hsaved : s'.ra.transmittedContentionId = s.ra.transmittedContentionId)
    (hmsg3 : s'.msg3.hasBeenTransmitted = true → s.msg3.hasBeenTransmitted = true)
    (hsent : s'.sentIds = s.sentIds) : IdInv s' := by
  refine ⟨?_, ?_⟩
  · rw [hsaved, hsent]
    exact h.saved
  · rw [hsaved, hcontention, hsent]
    exact fun hflag => h.registered (hmsg3 hflag)

/-- The invariant is about the identities only. -/
theorem IdInv.of_identities (h : IdInv s) {ra : RaProc} (hids : identities ra = identities s.ra) :
    IdInv { s with ra := ra } := by
  have hrest := congrArg Prod.snd hids
  exact h.of_eq (congrArg Prod.fst hrest) (congrArg Prod.snd hrest) id rfl

/-- The Msg3 that is sent has the SDU of the registered identity. -/
theorem IdInv.msg3Get (h : IdInv s) {pduGet : Option Msg3}
    (hord : InOrder ttiInterval codes s (.msg3Get pduGet)) :
    IdInv { s with
      msg3 := (s.msg3.msg3Get pduGet).1
      sentIds := s.sentIds ++ ((s.msg3.msg3Get pduGet).2.bind Msg3.ccch).toList } := by
  refine ⟨fun hne => List.mem_append_left _ (h.saved hne), fun hflag hunsaved hne => ?_⟩
  have hccch := hord hunsaved hne
  rw [Msg3Buffer.msg3Get] at hflag hccch ⊢
  cases hsend : s.msg3.pdu.or pduGet with
  | none =>
    rw [hsend] at hflag
    exact List.mem_append_left _ (h.registered hflag hunsaved hne)
  | some msg3 =>
    rw [hsend] at hccch
    refine List.mem_append_right _ ?_
    dsimp only
    rw [Option.bind_some, hccch msg3 rfl]
    exact List.mem_singleton.mpr rfl

/-- A step of the random access saves at most the identity that is registered. -/
theorem IdInv.afterStep (h : IdInv s) (cfg : MacCfg) (env : StepEnv) :
    IdInv (s.afterStep ({ s.ra with calls := [] }.step ttiInterval cfg
      { env with msg3IsTransmitted := s.msg3.hasBeenTransmitted })) := by
  have hcases := step_identities ttiInterval { s.ra with calls := [] } cfg
    { env with msg3IsTransmitted := s.msg3.hasBeenTransmitted }
  generalize { s.ra with calls := [] }.step ttiInterval cfg
    { env with msg3IsTransmitted := s.msg3.hasBeenTransmitted } = ra at hcases ⊢
  have hflushed : (s.afterStep ra).msg3.hasBeenTransmitted = true →
      s.msg3.hasBeenTransmitted = true := by
    rw [Contention.afterStep]
    dsimp only
    split
    · exact fun hfalse => by cases hfalse
    · exact id
  rcases hcases with ⟨-, hflush, hids⟩ | ⟨hinit, hflag, hunsaved, hids⟩ | ⟨hinit, hids⟩
  · -- a new procedure has nothing saved, and no Msg3
    have hsaved : ra.transmittedContentionId = 0 := congrArg (·.2.2) hids
    refine ⟨fun hne => absurd hsaved hne, fun hsent => ?_⟩
    rw [Contention.afterStep] at hsent
    dsimp only at hsent
    rw [if_pos hflush] at hsent
    cases hsent
  · have hsaved : ra.transmittedContentionId = s.ra.rntis.contentionId := congrArg (·.2.2) hids
    have hcontention : ra.rntis.contentionId = 0 := congrArg (·.2.1) hids
    have hsame : (s.afterStep ra).sentIds = s.sentIds := if_neg hinit
    refine ⟨fun hne => ?_, fun _ _ hne => absurd hcontention hne⟩
    rw [hsame]
    change ra.transmittedContentionId ∈ _
    rw [hsaved]
    exact h.registered hflag hunsaved (hsaved ▸ hne)
  · exact h.of_eq (congrArg (·.2.1) hids) (congrArg (·.2.2) hids) hflushed (if_neg hinit)

/-- A reception on the temporary C-RNTI leaves the two identities. -/
theorem IdInv.receive_temp {r : Reception} (h : IdInv s) (hr : r.search = .temp)
    (hs : Numbered s.procs) (hstep : s.receive ttiInterval codes r = some s') : IdInv s' := by
  cases Mac.receive_temp hr (hs r.harqPid) hstep with
  | again | undecoded => exact ⟨h.saved, h.registered⟩
  | decoded procs lastTemporalCrnti blocks s₁ hholds hdecoded hpush =>
    obtain ⟨hcontention, hsaved, hmsg3, hsent⟩ := pushPduTempCrnti_identities hpush
    exact h.of_eq hcontention hsaved (fun hflag => hmsg3 ▸ hflag) hsent

/-- Every event that keeps the identities in order keeps the invariant. -/
theorem IdInv.step (h : IdInv s) {e : ContentionEvent} (hs : Numbered s.procs)
    (hord : InOrder ttiInterval codes s e)
    (hstep : s.step ttiInterval codes L e = some s') : IdInv s' := by
  -- Only four events concern the identities: the others leave them as they are.
  cases e with
  | step cfg env =>
    obtain rfl := Option.some.inj hstep
    exact h.afterStep cfg env
  | newGrantDl nBytes tti =>
    obtain rfl := Option.some.inj hstep
    exact h.of_identities (identities_newGrantDl s.ra nBytes tti)
  | tbDecodedOk bytes running =>
    obtain ⟨ra, hra, rfl⟩ := Option.map_eq_some_iff.mp hstep
    exact h.of_identities (identities_tbDecodedOk hra)
  | pdcchToCrnti ul =>
    obtain rfl := Option.some.inj hstep
    exact h.of_identities (identities_pdcchToCrnti s.ra ul)
  | timerExpired =>
    obtain rfl := Option.some.inj hstep
    have hsame : identities s.ra.timerExpired = identities s.ra := rfl
    exact h.of_identities hsame
  | startMacOrder len =>
    obtain rfl := Option.some.inj hstep
    exact h.of_identities (identities_startMacOrder s.ra len)
  | startPdcchOrder =>
    obtain rfl := Option.some.inj hstep
    exact h.of_identities (identities_startPdcchOrder s.ra)
  | msg3Get pduGet =>
    obtain rfl := Option.some.inj hstep
    exact h.msg3Get hord
  | setContentionId id =>
    obtain rfl := Option.some.inj hstep
    exact ⟨h.saved, fun hflag hunsaved => absurd hunsaved (hord hflag)⟩
  | dlReception r =>
    by_cases hr : r.search = .temp
    · exact h.receive_temp hr hs hstep
    · have hids := congrArg Prod.snd (identities_receive_other hr hstep)
      obtain ⟨-, hmsg3, hsent⟩ := receive_other hr hstep
      exact h.of_eq (congrArg Prod.fst hids) (congrArg Prod.snd hids) (fun hflag => hmsg3 ▸ hflag)
        hsent
  | processPdus =>
    obtain rfl := Option.some.inj hstep
    exact ⟨h.saved, h.registered⟩
  | macReset =>
    obtain rfl := Option.some.inj hstep
    exact ⟨h.saved, fun hflag => by cases hflag⟩

/-- In order, the saved identity is not in a Msg4 that is not genuine. -/
theorem IdInv.harmless (h : IdInv s) {e : ContentionEvent} (hord : InOrder ttiInterval codes s e) :
    Harmless ttiInterval codes s e := by
  cases e with
  | dlReception r =>
    intro hr hfalse
    have hbenign := hord hr hfalse
    cases hholds : holds ttiInterval codes s r with
    | true =>
      rw [benign_of_holds hholds] at hbenign ⊢
      exact hbenign
    | false =>
      by_cases hdecoded : (r.buffer.isSome && r.decodePdsch) = true ∧ 0 < r.grant.nBytes
      · rw [benign_of_decoded hholds hdecoded] at hbenign ⊢
        refine ⟨Or.inl fun hmem => ?_, hbenign.2⟩
        by_cases hunsaved : s.ra.transmittedContentionId = 0
        · exact hbenign.1 hunsaved (hunsaved ▸ hmem)
        · rw [genuine, blockOf, hholds, if_neg Bool.false_ne_true, if_pos hdecoded.1,
            Option.any_some, decide_eq_true (show 0 < r.pdu.nofBytes from hdecoded.2),
            Bool.true_and, List.any_eq_false] at hfalse
          exact hfalse _ hmem (decide_eq_true (h.saved hunsaved))
      · rw [benign_of_not_decoded hholds hdecoded] at hbenign ⊢
        exact hbenign
  | _ => trivial

end

section
variable (ttiInterval : Nat → Nat → Nat) (codes : DlRntiCodes) (L : SrslteBit)

/-- A run is sound exactly when no Msg4 does harm, and it is sound if its identities are in
order. -/
theorem contention_run (isUecridSuccessful : Bool) (lastTemporalCrnti : Nat)
    (unset : Nat → Bool × Nat) (es : List ContentionEvent) :
    (Along (Contention.step ttiInterval codes L) (Sound ttiInterval codes)
        (.initial isUecridSuccessful lastTemporalCrnti unset) es ↔
      Along (Contention.step ttiInterval codes L) (fun s e _ => Harmless ttiInterval codes s e)
        (.initial isUecridSuccessful lastTemporalCrnti unset) es) ∧
    (Along (Contention.step ttiInterval codes L) (fun s e _ => InOrder ttiInterval codes s e)
        (.initial isUecridSuccessful lastTemporalCrnti unset) es →
      Along (Contention.step ttiInterval codes L) (Sound ttiInterval codes)
        (.initial isUecridSuccessful lastTemporalCrnti unset) es) := by
  have hnumbered := numbered_initial isUecridSuccessful lastTemporalCrnti unset
  constructor
  · refine along_iff (I := fun s => Numbered s.procs) (K := fun _ => True) ?_ ?_
      (fun _ _ => trivial) hnumbered
    · exact fun s e s' hs _ hstep => sound_iff hs hstep
    · exact fun s e s' hs _ hstep _ => Numbered.step hs hstep
  · refine Along.of_inv (I := fun s => Numbered s.procs ∧ IdInv s) ?_
      ⟨hnumbered, idInv_initial isUecridSuccessful lastTemporalCrnti unset⟩
    rintro s e s' ⟨hs, hinv⟩ hstep hord
    exact ⟨(sound_iff hs hstep).mpr (hinv.harmless hord), Numbered.step hs hstep,
      hinv.step hs hord hstep⟩

end

section
variable (ttiInterval : Nat → Nat → Nat) (codes : DlRntiCodes)

instance (s : Contention) (r : Reception) (refused : Prop) [Decidable refused] :
    Decidable (Benign ttiInterval codes s r refused) := by
  unfold Benign
  infer_instance

instance (s : Contention) (e : ContentionEvent) (s' : Contention) :
    Decidable (Sound ttiInterval codes s e s') :=
  match e with
  | .dlReception r => by
    unfold Sound
    exact inferInstanceAs (Decidable (if r.search = .temp then (_ → _ ∧ _ ∧ _) else _))
  | .macReset => inferInstanceAs (Decidable (_ ∧ _))
  | .step .. | .newGrantDl .. | .tbDecodedOk .. | .pdcchToCrnti .. | .timerExpired |
      .startMacOrder ..
  | .startPdcchOrder | .msg3Get .. | .setContentionId .. | .processPdus =>
    inferInstanceAs (Decidable (_ ∧ _))

instance (s : Contention) (e : ContentionEvent) : Decidable (InOrder ttiInterval codes s e) :=
  match e with
  | .msg3Get pduGet => inferInstanceAs (Decidable (_ → _ → ∀ msg3 ∈ (s.msg3.msg3Get pduGet).2, _))
  | .setContentionId _ => inferInstanceAs (Decidable (_ → _))
  | .dlReception _ => by
    unfold InOrder
    infer_instance
  | .step .. | .newGrantDl .. | .tbDecodedOk .. | .pdcchToCrnti .. | .timerExpired |
      .startMacOrder ..
  | .startPdcchOrder | .processPdus | .macReset => isTrue trivial

end

/-- A random access up to the RAR with the temporary C-RNTI 70, after RRC has registered an
identity. -/
def accessUpToRar : List ContentionEvent :=
  [.setContentionId 0x010203040506, .startMacOrder 56, .step fourPreambles {},
    .step fourPreambles {},
    .step fourPreambles {}, .step fourPreambles { prachTxTti := 1 }, .newGrantDl 7 5,
    .tbDecodedOk [0x41, 0, 0, 0, 0, 0, 70] false]

/-- A Msg4 for the temporary C-RNTI 70 in the HARQ process 1. -/
def msg4Reception (tti : Nat) (decodePdsch : Bool) (buff : Bytes) : Reception where
  search := .temp
  grant := { pid := 1, tti := tti, ndi := true, nBytes := buff.length, rnti := 70, phyGrant := () }
  decodePdsch := decodePdsch
  buff := buff

/-- The state after the constructors. -/
def freshContention : Contention := .initial false 0 fun _ => (false, 0)

/-- Msg3 is sent and its identity saved, and Msg4 has this identity and a SDU. -/
theorem contention_run_msg4 :
    Along (Contention.step srslteTtiInterval DlRun.dlRntiCodes Rlc.msbFirst)
      (Sound srslteTtiInterval DlRun.dlRntiCodes) freshContention
      (accessUpToRar ++ [.msg3Get (some ⟨some 0x010203040506⟩), .step fourPreambles {},
        .dlReception (msg4Reception 100 true [0x3c, 0x00, 1, 2, 3, 4, 5, 6, 9, 9]),
        .processPdus]) :=
  (contention_run srslteTtiInterval DlRun.dlRntiCodes Rlc.msbFirst false 0 (fun _ => (false, 0))
    _).2
    (by decide +kernel)

/-- Msg4 has the identity 0, and comes before the step that saves the identity of Msg3. A Msg4 that
is not decoded comes after one that was accepted. A Msg4 with another identity is sent again. -/
theorem not_sound_zero :
    ¬Along (Contention.step srslteTtiInterval DlRun.dlRntiCodes Rlc.msbFirst)
      (Sound srslteTtiInterval DlRun.dlRntiCodes) freshContention
      (accessUpToRar ++ [.msg3Get (some ⟨some 0x010203040506⟩),
        .dlReception (msg4Reception 100 true [0x3c, 0x00, 0, 0, 0, 0, 0, 0, 9, 9])]) ∧
    ¬Along (Contention.step srslteTtiInterval DlRun.dlRntiCodes Rlc.msbFirst)
      (Sound srslteTtiInterval DlRun.dlRntiCodes) freshContention
      (accessUpToRar ++ [.msg3Get (some ⟨some 0x010203040506⟩), .step fourPreambles {},
        .dlReception (msg4Reception 100 true [0x3c, 0x00, 1, 2, 3, 4, 5, 6, 9, 9]),
        .dlReception (msg4Reception 120 false [])]) ∧
    ¬Along (Contention.step srslteTtiInterval DlRun.dlRntiCodes Rlc.msbFirst)
      (Sound srslteTtiInterval DlRun.dlRntiCodes) freshContention
      (accessUpToRar ++ [.msg3Get (some ⟨some 0x010203040506⟩), .step fourPreambles {},
        .dlReception (msg4Reception 100 true [0x1c, 6, 6, 6, 6, 6, 6]),
        .dlReception (msg4Reception 108 true [0x1c, 6, 6, 6, 6, 6, 6])]) := by
  refine ⟨?_, ?_, ?_⟩
  · decide +kernel
  · decide +kernel
  · decide +kernel

end SrsUE.Proofs.Mac
