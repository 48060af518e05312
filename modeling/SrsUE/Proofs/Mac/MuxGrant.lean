import SrsUE.Proofs.Mac.MuxLoss

/-!
# `SrsUE.Proofs.Mac.MuxGrant`: the grants for which `pdu_get` loses no data

The condition for `Lossless` in the bytes of the grant, of the control elements that are pending and
of what RLC returns. `Staged` follows these bytes through `pdu_get`, up to the first control element
that does not fit.

* `lossless_iff`: a call of `pdu_get` loses nothing exactly when `GrantHolds`.
* `not_lossless_crnti`: a grant that is too small for the control element with the C-RNTI.
-/

set_option autoImplicit false

namespace SrsUE.Proofs.Mac

open SrsUE.Mac
open SrsUE.Rlc (Bytes sub32 sub32_of_le)

variable {ρ : Type}

/-! ### Statements -/

/-- The bytes of a control element with its subheader, if there is one to insert. -/
def ceSize : Option SetCall → Nat
  | some c => (callElement c).2.length + 1
  | none => 0

/-- The bytes of SDUs of these lengths with their subheaders. -/
def dataBytes (lens : List Nat) : Nat := lens.sum + sduHeaders lens

/-- The length of the SDU that RLC returns for channel 0 at the start of `pdu_get`, if it returns
one. -/
def ccchLen (itf : RlcItf ρ) (rlc : ρ) (pduSz : Nat) : Option Nat :=
  let (bufferState, rlc) := itf.getBufferState rlc 0
  let sduLen := min (toInt32 (bufferState % 2 ^ 32)) (toInt32 (sub32 pduSz 1))
  if 0 < sduLen then
    let ((sduSz, _), _) := itf.readPdu rlc 0 sduLen.toNat
    if 0 < sduSz then some sduSz.toNat else none
  else none

/-- The control element with the C-RNTI, which is for a grant without data of channel 0. -/
def crntiCall (pendingCrntiCe : Nat) (ccch : Option Nat) : Option SetCall :=
  if ccch.isNone && pendingCrntiCe ≠ 0 then some (.cRnti pendingCrntiCe) else none

/-- The bytes that are left for a regular BSR. -/
def bytesForBsr (pendingCrntiCe pduSz : Nat) (ccch : Option Nat) : Nat :=
  pduSz - (dataBytes ccch.toList + ceSize (crntiCall pendingCrntiCe ccch))

/-- The regular BSR for these bytes. -/
def regularBsrCall (req : CeRequests) (bytes : Nat) : Option SetCall :=
  (req.regularBsr bytes).map Mux.setBsrCall

/-- The control elements that come before the SDUs of the other channels. -/
def firstCes (req : CeRequests) (pendingCrntiCe pduSz : Nat) (ccch : Option Nat) :
    List (Option SetCall) :=
  [crntiCall pendingCrntiCe ccch, regularBsrCall req (bytesForBsr pendingCrntiCe pduSz ccch),
    req.phr.map .phr]

/-- The bytes of these control elements. -/
def firstCeBytes (req : CeRequests) (pendingCrntiCe pduSz : Nat) (ccch : Option Nat) : Nat :=
  ((firstCes req pendingCrntiCe pduSz ccch).map ceSize).sum

/-- The bytes that the control elements and the SDUs leave. -/
def bytesLeft (req : CeRequests) (pendingCrntiCe pduSz : Nat) (ccch : Option Nat)
    (lens : List Nat) : Nat :=
  pduSz - (firstCeBytes req pendingCrntiCe pduSz ccch + dataBytes lens)

/-- The padding BSR for these bytes, if there is no regular one and a subheader is free. -/
def paddingBsrCall (req : CeRequests) (pendingCrntiCe pduSz : Nat) (ccch : Option Nat)
    (lens : List Nat) : Option SetCall :=
  if (req.regularBsr (bytesForBsr pendingCrntiCe pduSz ccch)).isNone ∧
      ((firstCes req pendingCrntiCe pduSz ccch).filter Option.isSome).length + lens.length + 1
        < maxNofSubheaders then
    (req.paddingBsr (bytesLeft req pendingCrntiCe pduSz ccch lens)).map Mux.setBsrCall
  else none

/-- The grant holds an SDU of channel 0 with the control elements that come before the other SDUs,
what the SDUs leave holds a padding BSR, and everything but the SDUs fits in front of them. RLC
returned an SDU for channel 0 of length `ccch`, and in all SDUs of the lengths `lens`. -/
structure GrantHolds (req : CeRequests) (pendingCrntiCe pduSz : Nat) (ccch : Option Nat)
    (lens : List Nat) : Prop where
  first : dataBytes ccch.toList + firstCeBytes req pendingCrntiCe pduSz ccch ≤ pduSz
  padding : ceSize (paddingBsrCall req pendingCrntiCe pduSz ccch lens)
    ≤ bytesLeft req pendingCrntiCe pduSz ccch lens
  front : FrontRoom 53
    (firstCeBytes req pendingCrntiCe pduSz ccch
      + ceSize (paddingBsrCall req pendingCrntiCe pduSz ccch lens)) lens
    (bytesLeft req pendingCrntiCe pduSz ccch lens
      - ceSize (paddingBsrCall req pendingCrntiCe pduSz ccch lens))

instance (req : CeRequests) (pendingCrntiCe pduSz : Nat) (ccch : Option Nat) (lens : List Nat) :
    Decidable (GrantHolds req pendingCrntiCe pduSz ccch lens) :=
  decidable_of_iff (_ ∧ _ ∧ _)
    ⟨fun h => ⟨h.1, h.2.1, h.2.2⟩, fun h => ⟨h.first, h.padding, h.front⟩⟩

/-! ### The bytes at each time -/

/-- The lengths of the SDUs that RLC returned. -/
def readLens (a : Assembly ρ) : List Nat := a.reads.map (·.2.length)

/-- The control elements take `ces` bytes and `count` subheaders, and the SDUs are what RLC
returned. -/
structure Sized (ces count : Nat) (a : Assembly ρ) : Prop where
  ces : ceSpace (inUse a.pdu) = ces
  lens : dataSizes (inUse a.pdu) = readLens a
  count : a.pdu.nofSubheaders = count + (readLens a).length

/-- `P` says that all control elements fitted so far, and then the bytes are these. -/
structure Staged (pduSz : Nat) (P : Prop) (ces count : Nat) (a : Assembly ρ) : Prop
    extends LossInv pduSz a where
  fits_iff : (∀ t ∈ a.ceAttempts, CeFits t) ↔ P
  sized : P → Sized ces count a

section
variable {pduSz ces count : Nat} {P : Prop} {a : Assembly ρ} {itf : RlcItf ρ}

/-- At the start nothing takes bytes. -/
theorem sized_start (pduSz : Nat) (rlc : ρ) : Sized 0 0 (.start pduSz rlc) where
  ces := rfl
  lens := rfl
  count := rfl

/-- What is left is what the control elements and the SDUs leave. -/
theorem Sized.remLen_eq (h : Sized ces count a) (hinv : AssemblyInv pduSz a) :
    a.pdu.remLen = pduSz - (ces + dataBytes (readLens a)) := by
  have hspace := hinv.accounted.space
  rw [spaceUsed, h.ces, h.lens, hinv.len] at hspace
  rw [dataBytes]
  omega

/-- What was inserted has room in the PDU. -/
theorem Sized.dataBytes_le (h : Sized ces count a) (hinv : AssemblyInv pduSz a) :
    ces + dataBytes (readLens a) ≤ pduSz := by
  have hspace := hinv.accounted.space
  rw [spaceUsed, h.ces, h.lens, hinv.len] at hspace
  rw [dataBytes]
  omega

/-- An SDU takes no bytes of the control elements. -/
theorem Sized.allocateSdu (hitf : Obliging itf) (h : Sized ces count a)
    (hinv : AssemblyInv pduSz a) {lcid : Nat} (hlcid : lcid < lcidPhrReport)
    {x : Assembly ρ × Option Nat} (hcase : AllocCase itf a lcid x) : Sized ces count x.1 := by
  cases hcase with
  | skipped rlc => exact ⟨h.ces, h.lens, h.count⟩
  -- Nothing was read, and `del_subh` takes the subheader away again.
  | failed s s' rlc reads hroom hs hs' hreads =>
    obtain rfl := hreads hitf
    have huse : inUse (push a.pdu s').delSubh = inUse a.pdu :=
      ((hinv.accounted.push_unfilled hroom hs').delSubh (hinv.accounted.inUse_push s') hs').2
    refine ⟨?_, ?_, h.count⟩
    · exact (congrArg ceSpace huse).trans h.ces
    · exact (congrArg dataSizes huse).trans h.lens
  -- The new subheader has the length of the SDU that was read.
  | allocated s payload rlc hroom hs hpos hfits =>
    obtain ⟨hces, hlens⟩ := hinv.accounted.toTracked.sizes_pushSdu (s := s) hlcid hpos
    have hreads : readLens { a with
        pdu := pushSdu a.pdu s lcid payload
        rlc := rlc
        reads := a.reads ++ [(lcid, payload)]
        states := a.states ++ [push a.pdu s, pushSdu a.pdu s lcid payload] }
        = readLens a ++ [payload.length] := List.map_append
    refine ⟨hces.trans h.ces, ?_, ?_⟩
    · rw [hreads, ← h.lens]
      exact hlens
    · have hcount := h.count
      rw [hreads, List.length_append, List.length_singleton]
      show a.pdu.nofSubheaders + 1 = _
      omega

/-- It leaves open whether the control elements fitted. -/
theorem Staged.allocateSdu (hitf : Obliging itf) (h : Staged pduSz P ces count a) {lcid : Nat}
    (hlcid : lcid < lcidPhrReport) {x : Assembly ρ × Option Nat} (hcase : AllocCase itf a lcid x) :
    Staged pduSz P ces count x.1 where
  toLossInv := h.toLossInv.allocateSdu hitf hlcid hcase
  fits_iff := by
    cases hcase with
    | skipped | failed | allocated => exact h.fits_iff
  sized hP := (h.sized hP).allocateSdu hitf h.toAssemblyInv hlcid hcase

/-- So both passes over the channels keep the stage. -/
theorem keptByAllocate_staged (hitf : Obliging itf) (pduSz : Nat) (P : Prop) (ces count : Nat) :
    KeptByAllocate itf (Staged pduSz P ces count) := fun _ _ maxSduSz hlcid h =>
  h.allocateSdu hitf hlcid (allocateSdu_cases h.accounted.toTracked hlcid maxSduSz)

/-- A control element for which there is a subheader. -/
theorem Staged.insertCe (h : Staged pduSz P ces count a) {c : SetCall}
    (hc : isSduCall c = false) (hvalid : ValidCall true c)
    (hroom : a.pdu.nofSubheaders + 1 < a.pdu.maxSubheaders) {a' : Assembly ρ}
    (hcase : CeCase a c a') :
    Staged pduSz (P ∧ (callElement c).2.length + 1 ≤ a.pdu.remLen)
      (ces + ((callElement c).2.length + 1)) (count + 1) a' := by
  have hlossy := h.toLossInv.insertCe hc hvalid hcase
  have hattempts : ∀ {t : CeAttempt}, (∀ u ∈ a.ceAttempts ++ [t], CeFits u) ↔ P ∧ CeFits t := by
    intro t
    rw [List.forall_mem_append, List.forall_mem_singleton, h.fits_iff]
  -- The attempt is one more that the condition has to cover, whether it succeeds or not.
  cases hcase with
  | full hfull => exact absurd hroom hfull
  -- The subheader stays open: the condition fails from here on.
  | leftOpen s _ hs hfits =>
    refine ⟨hlossy, hattempts.trans (and_congr_right fun _ => ?_), fun hP => absurd hP.2 hfits⟩
    exact iff_of_false (fun hfit => hfits (hfit hroom)) hfits
  | inserted s _ hs hfits =>
    refine ⟨hlossy, hattempts.trans (and_congr_right fun _ => ?_), fun hP => ?_⟩
    · exact iff_of_true (fun _ => hfits) hfits
    · obtain ⟨hces, hlens⟩ := h.accounted.toTracked.sizes_pushCe (s := s)
        (lcid_ce hc) (callElement c).2
      have hsized := h.sized hP.1
      have hcount := hsized.count
      refine ⟨?_, hlens.trans hsized.lens, ?_⟩
      · rw [← hsized.ces]
        exact hces
      · show a.pdu.nofSubheaders + 1 = count + 1 + (readLens a).length
        omega

/-- Without a subheader nothing is inserted. -/
theorem Staged.insertCe_full (h : Staged pduSz P ces count a) {c : SetCall}
    (hc : isSduCall c = false) (hvalid : ValidCall true c)
    (hroom : ¬a.pdu.nofSubheaders + 1 < a.pdu.maxSubheaders) {a' : Assembly ρ}
    (hcase : CeCase a c a') : Staged pduSz P ces count a' := by
  have hlossy := h.toLossInv.insertCe hc hvalid hcase
  cases hcase with
  | full hfull =>
    refine ⟨hlossy, ?_, fun hP => ⟨(h.sized hP).ces, (h.sized hP).lens, (h.sized hP).count⟩⟩
    rw [List.forall_mem_append, List.forall_mem_singleton, h.fits_iff]
    exact and_iff_left fun hlt => absurd hlt hroom
  | leftOpen s hlt | inserted s hlt => exact absurd hlt hroom

/-- The condition and the numbers can be restated. -/
theorem Staged.of_eq (h : Staged pduSz P ces count a) {Q : Prop} {ces' count' : Nat} (hP : P ↔ Q)
    (hces : ces = ces') (hcount : count = count') : Staged pduSz Q ces' count' a := by
  rw [← propext hP, ← hces, ← hcount]
  exact h

/-- Once a control element did not fit, it does not matter what comes. -/
theorem Staged.of_not (h : Staged pduSz P ces count a) (hP : ¬P) {Q : Prop} (hQ : ¬Q)
    (ces' count' : Nat) : Staged pduSz Q ces' count' a :=
  ⟨h.toLossInv, h.fits_iff.trans (iff_of_false hP hQ), fun hq => absurd hq hQ⟩

/-- A report reads no SDU. -/
theorem readLens_insertReport (a : Assembly ρ) (report : Option SetCall) :
    readLens (a.insertReport report) = readLens a := by
  cases report with
  | none => rfl
  | some c =>
    rw [Assembly.insertReport, Assembly.insertCe]
    cases a.pdu.newSubh with
    | none | some => rfl

/-- A report, whatever was asked for before. -/
theorem Staged.insertReport_of_not (h : Staged pduSz P ces count a) {report : Option SetCall}
    (hreport : ∀ c ∈ report, UplinkCe c) (hP : ¬P) {Q : Prop} (hQ : ¬Q) (ces' count' : Nat) :
    Staged pduSz Q ces' count' (a.insertReport report) := by
  cases report with
  | none => exact h.of_not hP hQ ces' count'
  | some c =>
    obtain ⟨hc, hvalid⟩ := hreport c rfl
    have hcase := insertCe_cases h.accounted.toTracked hc
    by_cases hroom : a.pdu.nofSubheaders + 1 < a.pdu.maxSubheaders
    · exact (h.insertCe hc hvalid hroom hcase).of_not (fun hboth => hP hboth.1) hQ ces' count'
    · exact (h.insertCe_full hc hvalid hroom hcase).of_not hP hQ ces' count'

/-- A report on the bytes that are left, where a subheader is free. -/
theorem Staged.insertReport (h : Staged pduSz P ces count a) (report : Nat → Option SetCall)
    (hreport : ∀ n, ∀ c ∈ report n, UplinkCe c) {bytes : Nat} (hrem : P → a.pdu.remLen = bytes)
    (hroom : P → a.pdu.nofSubheaders + 1 < a.pdu.maxSubheaders) :
    Staged pduSz (P ∧ ceSize (report bytes) ≤ bytes) (ces + ceSize (report bytes))
      (count + (report bytes).toList.length) (a.insertReport (report a.pdu.remLen)) := by
  by_cases hP : P
  · rw [hrem hP]
    cases hcall : report bytes with
    | none =>
      have hsame : (P ∧ ceSize none ≤ bytes) = P :=
        propext (and_iff_left (Nat.zero_le bytes))
      rw [hsame]
      exact h
    | some c =>
      obtain ⟨hc, hvalid⟩ := hreport bytes c hcall
      have hcase := insertCe_cases h.accounted.toTracked hc
      have hnext := h.insertCe hc hvalid (hroom hP) hcase
      rw [hrem hP] at hnext
      exact hnext
  · exact h.insertReport_of_not (hreport a.pdu.remLen) hP (fun hboth => hP hboth.1) _ _

/-- A report where no subheader is free. -/
theorem Staged.insertReport_full (h : Staged pduSz P ces count a) {report : Option SetCall}
    (hreport : ∀ c ∈ report, UplinkCe c)
    (hroom : P → ¬a.pdu.nofSubheaders + 1 < a.pdu.maxSubheaders) :
    Staged pduSz P ces count (a.insertReport report) := by
  by_cases hP : P
  · cases report with
    | none => exact h
    | some c =>
      obtain ⟨hc, hvalid⟩ := hreport c rfl
      exact h.insertCe_full hc hvalid (hroom hP) (insertCe_cases h.accounted.toTracked hc)
  · exact h.insertReport_of_not hreport hP hP ces count

end

/-! ### The parts of `pdu_get` -/

section
variable {pduSz : Nat} {itf : RlcItf ρ}

/-- What RLC is asked for at the start. -/
theorem requestLen_start (pduSz bufferState : Nat) :
    Assembly.requestLen (initTx maxNofSubheaders pduSz true) bufferState (-1)
      = min (toInt32 (bufferState % 2 ^ 32)) (toInt32 (sub32 pduSz 1)) := by
  have hspace : (initTx maxNofSubheaders pduSz true).getSduSpace = toInt32 (sub32 pduSz 1) := by
    rw [SchPdu.getSduSpace]
    show toInt32 (sub32 (sub32 pduSz 0) 1) = _
    rw [sub32_of_le (Nat.zero_le pduSz), Nat.sub_zero]
  have hany : (toInt32 (bufferState % 2 ^ 32) > -1 && (-1 : Int) ≥ 0) = false := by simp
  rw [Assembly.requestLen, hspace, hany, if_neg Bool.false_ne_true]
  split <;> omega

/-- `allocate_sdu` returns what RLC returns, where there is space for it. -/
theorem readSdu_snd (hitf : Obliging itf) {a : Assembly ρ} (h : Tracked a.pdu) (s : SchSubh)
    (lcid : Nat) {n : Nat} (hspace : n ≤ sduSpace a.pdu) :
    (a.readSdu itf (push a.pdu s) lcid n).2
      = if 0 < (itf.readPdu a.rlc lcid n).1.1 then some (itf.readPdu a.rlc lcid n).1.1.toNat
        else none := by
  have hlegal := hitf a.rlc lcid n
  rw [Assembly.readSdu, h.hasSpaceSdu_push, if_pos (decide_eq_true hspace)]
  generalize itf.readPdu a.rlc lcid n = answer at hlegal
  obtain ⟨⟨sduSz, payload⟩, rlc⟩ := answer
  dsimp only at hlegal ⊢
  have hrange : ¬(sduSz < 0 ∨ (n : Int) < sduSz) := by omega
  rw [setSduFrom_push h, if_pos hspace, if_neg hrange]
  by_cases hzero : sduSz = 0
  · subst hzero
    rfl
  · have hpos : 0 < sduSz := by omega
    rw [if_neg hzero]
    dsimp only
    rw [if_pos hpos, if_pos hpos, if_pos hpos]

/-- The call at the start of `pdu_get` for channel 0. -/
theorem allocateSdu_ccch (hitf : Obliging itf) (hsz : pduSz < 2 ^ 32) (rlc : ρ) :
    ((Assembly.start pduSz rlc).allocateSdu itf 0 (-1)).2 = ccchLen itf rlc pduSz := by
  have htracked : Tracked (initTx maxNofSubheaders pduSz true) :=
    (accounted_initTx (by decide) hsz true).toTracked
  have hnew : (Assembly.start pduSz rlc).pdu.newSubh
      = some (push (initTx maxNofSubheaders pduSz true) {}) := htracked.newSubh_eq
  have hrlc : (Assembly.start pduSz rlc).rlc = rlc := rfl
  rw [Assembly.allocateSdu, ccchLen, hrlc]
  -- Both sides ask RLC once, and from its answer on they take the same branches.
  generalize itf.getBufferState rlc 0 = answer
  obtain ⟨bufferState, rlc'⟩ := answer
  have hrequest : Assembly.requestLen (Assembly.start pduSz rlc).pdu bufferState (-1)
      = min (toInt32 (bufferState % 2 ^ 32)) (toInt32 (sub32 pduSz 1)) :=
    requestLen_start pduSz bufferState
  dsimp only
  rw [hnew, hrequest]
  by_cases hpos : 0 < min (toInt32 (bufferState % 2 ^ 32)) (toInt32 (sub32 pduSz 1))
  · have hfits := fits_of_le_getSduSpace htracked hpos
      (hrequest ▸ requestLen_le (Assembly.start pduSz rlc).pdu bufferState (-1))
    have hlast : lastLength (inUse (initTx maxNofSubheaders pduSz true)) + 1
        ≤ (initTx maxNofSubheaders pduSz true).remLen := by omega
    have hread := readSdu_snd hitf (a := { Assembly.start pduSz rlc with rlc := rlc' }) htracked {}
      0 ((le_sduSpace_iff hlast).mpr hfits)
    rw [if_pos (Int.lt_of_lt_of_le hpos (Int.min_le_left _ _)), if_pos hpos,
      if_pos hpos]
    exact hread
  · rw [if_neg hpos, if_neg hpos]
    split
    · rfl
    · rfl

/-- What RLC returns for channel 0 is the one SDU so far. -/
theorem readLens_ccch (hitf : Obliging itf) {lcid : Nat} {rlc : ρ} {x : Assembly ρ × Option Nat}
    (hcase : AllocCase itf (.start pduSz rlc) lcid x) : readLens x.1 = x.2.toList := by
  cases hcase with
  | skipped => rfl
  | failed s s' rlc' reads hroom hs hs' hreads =>
    obtain rfl := hreads hitf
    rfl
  | allocated => rfl

/-- The C-RNTI is a report that depends on what CCCH had. -/
theorem insertCrnti_eq (m : Mux) (a : Assembly ρ) :
    m.insertCrnti itf a = (a.allocateSdu itf 0 (-1)).1.insertReport
      (crntiCall m.pendingCrntiCe (a.allocateSdu itf 0 (-1)).2) := by
  rw [Mux.insertCrnti, crntiCall]
  generalize a.allocateSdu itf 0 (-1) = answer
  obtain ⟨a₁, ccch⟩ := answer
  dsimp only
  split <;> rfl

/-- It is a control element for the uplink. -/
theorem uplinkCe_crnti (pendingCrntiCe : Nat) (ccch : Option Nat) :
    ∀ c ∈ crntiCall pendingCrntiCe ccch, UplinkCe c := by
  intro c hc
  rw [crntiCall] at hc
  split at hc
  · obtain rfl := Option.mem_some_iff.mp hc
    exact ⟨rfl, rfl⟩
  · cases hc

/-- So is a buffer status report. -/
theorem uplinkCe_bsr (report : Option (Vector Nat 4 × BsrFormat)) :
    ∀ c ∈ report.map Mux.setBsrCall, UplinkCe c := by
  intro c hc
  obtain ⟨bsr, -, rfl⟩ := Option.map_eq_some_iff.mp hc
  exact ⟨rfl, rfl⟩

/-- With few elements a subheader is free. -/
theorem Sized.free {ces count : Nat} {a : Assembly ρ} (h : Sized ces count a)
    (hinv : AssemblyInv pduSz a) :
    a.pdu.nofSubheaders + 1 < a.pdu.maxSubheaders ↔
      count + (readLens a).length + 1 < maxNofSubheaders := by
  rw [h.count, hinv.max]

/-- An option is at most one element. -/
theorem length_toList_le {α : Type} (x : Option α) : x.toList.length ≤ 1 := by
  cases x with
  | none => exact Nat.zero_le 1
  | some => exact Nat.le_refl 1

/-- `pdu_msg` before the reports. -/
theorem staged_insertCrnti (hitf : Obliging itf) (hsz : pduSz < 2 ^ 32) (m : Mux) (rlc : ρ) :
    Staged pduSz
        (ceSize (crntiCall m.pendingCrntiCe (ccchLen itf rlc pduSz))
          ≤ pduSz - dataBytes (ccchLen itf rlc pduSz).toList)
        (ceSize (crntiCall m.pendingCrntiCe (ccchLen itf rlc pduSz)))
        (crntiCall m.pendingCrntiCe (ccchLen itf rlc pduSz)).toList.length
        (m.insertCrnti itf (.start pduSz rlc)) ∧
      readLens (m.insertCrnti itf (.start pduSz rlc)) = (ccchLen itf rlc pduSz).toList ∧
      dataBytes (ccchLen itf rlc pduSz).toList ≤ pduSz := by
  have hstart : Staged pduSz True 0 0 (Assembly.start pduSz rlc) :=
    ⟨lossInv_start hsz rlc, iff_of_true (List.forall_mem_nil _) trivial,
      fun _ => sized_start pduSz rlc⟩
  have hcase : AllocCase itf (.start pduSz rlc) 0
      ((Assembly.start pduSz rlc).allocateSdu itf 0 (-1)) :=
    allocateSdu_cases hstart.accounted.toTracked (by decide) (-1)
  have hlens := readLens_ccch hitf hcase
  have hccch := allocateSdu_ccch hitf hsz rlc
  have ha := hstart.allocateSdu hitf (by decide) hcase
  have hsized := ha.sized trivial
  rw [hccch] at hlens
  rw [insertCrnti_eq, hccch]
  have hbytes := hsized.dataBytes_le ha.toAssemblyInv
  rw [hlens, Nat.zero_add] at hbytes
  -- What the first SDU leaves is known, so the room for the C-RNTI is, too.
  refine ⟨?_, (readLens_insertReport _ _).trans hlens, hbytes⟩
  have hrem := hsized.remLen_eq ha.toAssemblyInv
  rw [hlens, Nat.zero_add] at hrem
  have hshort := length_toList_le (ccchLen itf rlc pduSz)
  have hroom := (hsized.free ha.toAssemblyInv).mpr (by rw [hlens, maxNofSubheaders]; omega)
  have hnext := ha.insertReport (fun _ => crntiCall m.pendingCrntiCe (ccchLen itf rlc pduSz))
    (fun _ => uplinkCe_crnti _ _) (fun _ => hrem) (fun _ => hroom)
  rw [true_and, Nat.zero_add, Nat.zero_add] at hnext
  exact hnext

/-- Of three options those are counted that are there. -/
theorem length_filter_isSome {α : Type} (x y z : Option α) :
    ([x, y, z].filter Option.isSome).length
      = x.toList.length + y.toList.length + z.toList.length := by
  cases x <;> cases y <;> cases z <;> rfl

/-- `pdu_msg` before the SDUs of the other channels. -/
theorem staged_insertReports (hitf : Obliging itf) (hsz : pduSz < 2 ^ 32) (m : Mux)
    (req : CeRequests) (rlc : ρ) :
    Staged pduSz
      (dataBytes (ccchLen itf rlc pduSz).toList
        + firstCeBytes req m.pendingCrntiCe pduSz (ccchLen itf rlc pduSz) ≤ pduSz)
      (firstCeBytes req m.pendingCrntiCe pduSz (ccchLen itf rlc pduSz))
      ((firstCes req m.pendingCrntiCe pduSz (ccchLen itf rlc pduSz)).filter Option.isSome).length
      (Mux.insertReports req (m.insertCrnti itf (.start pduSz rlc))) := by
  obtain ⟨ha, hlens, hccch⟩ := staged_insertCrnti hitf hsz m rlc
  rw [Mux.insertReports, firstCeBytes, firstCes, length_filter_isSome, bytesForBsr]
  simp only [List.map_cons, List.map_nil, List.sum_cons, List.sum_nil]
  -- From here on only the lengths count, not how they came about.
  generalize ccchLen itf rlc pduSz = ccch at ha hlens hccch ⊢
  generalize m.insertCrnti itf (.start pduSz rlc) = a at ha hlens ⊢
  generalize crntiCall m.pendingCrntiCe ccch = crnti at ha ⊢
  have hshort := length_toList_le ccch
  have hcrnti := length_toList_le crnti
  have hbytes : ceSize crnti ≤ pduSz - dataBytes ccch.toList →
      a.pdu.remLen = pduSz - (dataBytes ccch.toList + ceSize crnti) := fun hP => by
    rw [(ha.sized hP).remLen_eq ha.toAssemblyInv, hlens, Nat.add_comm]
  -- The regular BSR is asked for with what the C-RNTI leaves, the PHR comes behind it.
  have hb := ha.insertReport (regularBsrCall req) (fun n => uplinkCe_bsr (req.regularBsr n)) hbytes
    fun hP => ((ha.sized hP).free ha.toAssemblyInv).mpr (by
      rw [hlens, maxNofSubheaders]
      omega)
  rw [show (req.regularBsr a.pdu.remLen).map Mux.setBsrCall = regularBsrCall req a.pdu.remLen
    from rfl]
  have hlens' := (readLens_insertReport a (regularBsrCall req a.pdu.remLen)).trans hlens
  generalize a.insertReport (regularBsrCall req a.pdu.remLen) = a' at hb hlens' ⊢
  generalize regularBsrCall req (pduSz - (dataBytes ccch.toList + ceSize crnti)) = bsr at hb ⊢
  have hbsr := length_toList_le bsr
  have hp := hb.insertReport (fun _ => req.phr.map .phr)
    (fun _ c hc => by
      obtain ⟨phr, -, rfl⟩ := Option.map_eq_some_iff.mp hc
      exact ⟨rfl, rfl⟩)
    (fun hP => (hb.sized hP).remLen_eq hb.toAssemblyInv)
    fun hP => ((hb.sized hP).free hb.toAssemblyInv).mpr (by
      rw [hlens', maxNofSubheaders]
      omega)
  rw [hlens'] at hp
  refine hp.of_eq ⟨?_, ?_⟩ (by omega) rfl
  · rintro ⟨⟨hfirst, hsecond⟩, hthird⟩
    omega
  · intro hall
    refine ⟨⟨?_, ?_⟩, ?_⟩ <;> omega

/-- The padding report is a report when there was no regular one. -/
theorem insertPaddingBsr_eq (req : CeRequests) (regular : Bool) (a : Assembly ρ) :
    (Mux.insertPaddingBsr req regular a).1 = a.insertReport
      (if regular then none else (req.paddingBsr a.pdu.remLen).map Mux.setBsrCall) := by
  cases regular with
  | true | false => rfl

/-- The padding BSR, after the SDUs of all channels. -/
theorem staged_insertPaddingBsr {req : CeRequests} {pendingCrntiCe : Nat} {ccch : Option Nat}
    {a : Assembly ρ} {P : Prop}
    (h : Staged pduSz P (firstCeBytes req pendingCrntiCe pduSz ccch)
      ((firstCes req pendingCrntiCe pduSz ccch).filter Option.isSome).length a)
    {regular : Bool}
    (hregular : P → regular = (req.regularBsr (bytesForBsr pendingCrntiCe pduSz ccch)).isSome) :
    ∃ count, Staged pduSz
      (P ∧ ceSize (paddingBsrCall req pendingCrntiCe pduSz ccch (readLens a))
        ≤ bytesLeft req pendingCrntiCe pduSz ccch (readLens a))
      (firstCeBytes req pendingCrntiCe pduSz ccch
        + ceSize (paddingBsrCall req pendingCrntiCe pduSz ccch (readLens a))) count
      (Mux.insertPaddingBsr req regular a).1 := by
  rw [insertPaddingBsr_eq, paddingBsrCall]
  by_cases hP : P
  · rw [hregular hP]
    cases hbsr : req.regularBsr (bytesForBsr pendingCrntiCe pduSz ccch) with
    | some bsr =>
      rw [if_neg (fun hnone => by cases hnone.1)]
      exact ⟨_, h.of_eq (and_iff_left (Nat.zero_le _)).symm rfl rfl⟩
    | none =>
      rw [Option.isSome_none, if_neg Bool.false_ne_true]
      have hfree := fun hP => (h.sized hP).free h.toAssemblyInv
      by_cases hroom : ((firstCes req pendingCrntiCe pduSz ccch).filter Option.isSome).length
          + (readLens a).length + 1 < maxNofSubheaders
      · rw [if_pos ⟨rfl, hroom⟩]
        exact ⟨_, h.insertReport (fun n => (req.paddingBsr n).map Mux.setBsrCall)
          (fun n => uplinkCe_bsr (req.paddingBsr n))
          (fun hP => (h.sized hP).remLen_eq h.toAssemblyInv) (fun hP => (hfree hP).mpr hroom)⟩
      · rw [if_neg (fun hboth => hroom hboth.2)]
        have hfull := h.insertReport_full (uplinkCe_bsr (req.paddingBsr a.pdu.remLen))
          fun hP hlt => hroom ((hfree hP).mp hlt)
        exact ⟨_, hfull.of_eq (and_iff_left (Nat.zero_le _)).symm rfl rfl⟩
  -- The condition has failed before, and no later element can make it hold again.
  · refine ⟨0, h.insertReport_of_not ?_ hP (fun hboth => hP hboth.1) _ _⟩
    split
    · exact fun c hc => by cases hc
    · exact uplinkCe_bsr _

/-- The bytes that are left for a regular BSR, if the grant holds what comes first. -/
theorem remLen_insertCrnti (hitf : Obliging itf) (hsz : pduSz < 2 ^ 32) (m : Mux)
    (req : CeRequests) (rlc : ρ)
    (hfirst : dataBytes (ccchLen itf rlc pduSz).toList
      + firstCeBytes req m.pendingCrntiCe pduSz (ccchLen itf rlc pduSz) ≤ pduSz) :
    (m.insertCrnti itf (.start pduSz rlc)).pdu.remLen
      = bytesForBsr m.pendingCrntiCe pduSz (ccchLen itf rlc pduSz) := by
  obtain ⟨ha, hlens, -⟩ := staged_insertCrnti hitf hsz m rlc
  rw [firstCeBytes, firstCes] at hfirst
  simp only [List.map_cons, List.map_nil, List.sum_cons, List.sum_nil] at hfirst
  rw [(ha.sized (by omega)).remLen_eq ha.toAssemblyInv, hlens, bytesForBsr, Nat.add_comm]

/-- What `pdu_get` ends with. -/
theorem staged_pduGet (hitf : Obliging itf) (hsz : pduSz < 2 ^ 32) {m : Mux}
    (hlcids : ∀ l ∈ m.lchidSorted, l < lcidPhrReport) {fuel : Nat} {req : CeRequests} {rlc : ρ}
    {out : PduGetOutcome ρ} (h : m.pduGet fuel itf req rlc pduSz = some out) :
    ∃ count, Staged pduSz
      (dataBytes (ccchLen itf rlc pduSz).toList
          + firstCeBytes req m.pendingCrntiCe pduSz (ccchLen itf rlc pduSz) ≤ pduSz ∧
        ceSize (paddingBsrCall req m.pendingCrntiCe pduSz (ccchLen itf rlc pduSz)
            (readLens out.assembly))
          ≤ bytesLeft req m.pendingCrntiCe pduSz (ccchLen itf rlc pduSz) (readLens out.assembly))
      (firstCeBytes req m.pendingCrntiCe pduSz (ccchLen itf rlc pduSz)
        + ceSize (paddingBsrCall req m.pendingCrntiCe pduSz (ccchLen itf rlc pduSz)
          (readLens out.assembly))) count out.assembly := by
  have htail : ∀ l ∈ m.lchidSorted.tail, l < lcidPhrReport :=
    fun l hl => hlcids l (List.mem_of_mem_tail hl)
  obtain ⟨⟨a₁, bj⟩, hfirst, hrest⟩ := Option.bind_eq_some_iff.mp h
  obtain ⟨a₂, hsecond, rfl⟩ := Option.map_eq_some_iff.mp hrest
  have hkept := keptByAllocate_staged hitf pduSz
  -- Both passes over the channels keep what holds after the reports.
  have ha₁ := firstPass_inv (hkept _ _ _) htail hfirst (staged_insertReports hitf hsz m req rlc)
  have ha₂ := secondPass_inv (hkept _ _ _) htail hsecond ha₁
  have hlens : ∀ regular, readLens (Mux.insertPaddingBsr req regular a₂).1 = readLens a₂ := by
    intro regular
    rw [insertPaddingBsr_eq]
    exact readLens_insertReport _ _
  dsimp only
  rw [hlens]
  exact staged_insertPaddingBsr ha₂ fun hP =>
    congrArg (fun n => (req.regularBsr n).isSome) (remLen_insertCrnti hitf hsz m req rlc hP)

/-- Whether the PDU can be written, by the bytes that are left before the last control element. -/
theorem Staged.writable_iff {P : Prop} {ces padding count : Nat} {a : Assembly ρ}
    (h : Staged pduSz P (ces + padding) count a) (hP : P) :
    Writable a.pdu ↔
      FrontRoom 53 (ces + padding) (readLens a)
        (pduSz - (ces + dataBytes (readLens a)) - padding) := by
  have hsized := h.sized hP
  have hrem : pduSz - (ces + padding + dataBytes (readLens a))
      = pduSz - (ces + dataBytes (readLens a)) - padding := by omega
  rw [Writable, sduOffsetStart_of_max h.max, hsized.ces, hsized.lens, hsized.remLen_eq
    h.toAssemblyInv, hrem]

end

/-! ### Results -/

/-- `pdu_get` loses nothing exactly when the grant holds the control elements, what RLC returned and
what padding adds. -/
theorem lossless_iff {itf : RlcItf ρ} (hitf : Obliging itf) (req : CeRequests)
    (calls : List SetupLcid) (bj : List Int) (pendingCrntiCe : Nat) (rlc : ρ) (pduSz : UInt32) :
    ∃ out : PduGetOutcome ρ,
      (∀ fuel, maxNofSubheaders ≤ fuel →
        (muxAfter calls bj pendingCrntiCe).pduGet fuel itf req rlc pduSz.toNat = some out) ∧
      (Lossless pduSz.toNat out ↔
        GrantHolds req pendingCrntiCe pduSz.toNat (ccchLen itf rlc pduSz.toNat)
          (out.assembly.reads.map fun sdu => sdu.2.length)) := by
  have hlcids := lchidSorted_muxAfter calls bj pendingCrntiCe
  have hsz : pduSz.toNat < 2 ^ 32 := pduSz.toNat_lt
  obtain ⟨out, hout⟩ := pduGet_returns itf req hlcids rlc hsz
  obtain ⟨count, hstaged⟩ := staged_pduGet hitf hsz hlcids hout
  refine ⟨out, fun fuel hfuel => pduGet_mono hfuel hout, ?_⟩
  rw [lossless_iff_of_inv hstaged.toLossInv (ret_pduGet hout), hstaged.fits_iff]
  constructor
  · rintro ⟨hP, hwritable⟩
    exact ⟨hP.1, hP.2, (hstaged.writable_iff hP).mp hwritable⟩
  · rintro ⟨hfirst, hpadding, hfront⟩
    exact ⟨⟨hfirst, hpadding⟩, (hstaged.writable_iff ⟨hfirst, hpadding⟩).mpr hfront⟩

/-- A grant of 6 bytes for the C-RNTI and two bytes of data. -/
theorem lossless_iff_crnti :
    ∃ out, (muxAfter [] [] 70).pduGet maxNofSubheaders oneChannel {} [8, 9] 6 = some out ∧
      Lossless 6 out := by
  obtain ⟨out, hrun, hiff⟩ := lossless_iff obliging_oneChannel {} [] [] 70 [8, 9] 6
  have hout := hrun maxNofSubheaders (Nat.le_refl _)
  have hfits : ((muxAfter [] [] 70).pduGet maxNofSubheaders oneChannel {} [8, 9] 6).all (fun out =>
      decide (GrantHolds {} 70 6 (ccchLen oneChannel [8, 9] 6)
        (out.assembly.reads.map fun sdu => sdu.2.length))) = true := by
    decide +kernel
  exact ⟨out, hout, hiff.mpr (of_decide_eq_true ((Option.all_eq_true _ _).mp hfits out hout))⟩

/-- A grant of 2 bytes is too small for the C-RNTI. The byte that is read from RLC is lost. -/
theorem not_lossless_crnti :
    ∃ out, (muxAfter [] [] 70).pduGet maxNofSubheaders oneChannel {} [8] 2 = some out ∧
      out.assembly.reads = [(1, [8])] ∧ out.ret = none ∧ ¬Lossless 2 out := by
  have hrun : ((muxAfter [] [] 70).pduGet maxNofSubheaders oneChannel {} [8] 2).map
      (fun out => (out.assembly.reads, out.ret)) = some ([(1, [8])], none) := by decide +kernel
  obtain ⟨out, hout, hresult⟩ := Option.map_eq_some_iff.mp hrun
  have hreads : out.assembly.reads = [(1, [8])] := congrArg Prod.fst hresult
  have hret : out.ret = none := congrArg Prod.snd hresult
  refine ⟨out, hout, hreads, hret, fun hlossless => ?_⟩
  obtain ⟨bytes, hbytes, -⟩ := hlossless.returned
  rw [hret] at hbytes
  cases hbytes

end SrsUE.Proofs.Mac
