import SrsUE.Lib.Run
import SrsUE.Proofs.Mac.SchRoundTrip

/-!
# `SrsUE.Proofs.Mac.SchAssembly`: what the setters accept can be written

A run is any sequence of calls of `new_subh` and a setter, where a failed setter is followed by
`del_subh`. `assembly_run` says what holds after each call of a run whose calls meet `CallFits`: the
call succeeds only if its element fits, `rem_len` is what the elements leave, and `write_packet`
returns a PDU. A call that `new_subh` or the setter refuses always meets it.

`CallFits` excludes an SDU where not even its subheader and the length field of the SDU before fit.
The comparison of `has_space_sdu` is unsigned, so such an SDU is accepted
(`not_soundAttempt_wrapped`). It also excludes elements that leave no room in front of the SDUs,
where `write_packet` fails (`writePacket_iff`).
-/

set_option autoImplicit false

namespace SrsUE.Proofs.Mac

open SrsUE.Mac SrsUE.Lib
open SrsUE.Rlc (Bytes sub32 sub32_of_le)

/-! ### Statements -/

/-- The bytes that an element needs: payload and subheader, and for an SDU the length field of the
one before. -/
def neededSpace (pdu : SchPdu) (c : SetCall) : Nat :=
  (callElement c).2.length + 1 + (if isSduCall c then lastLength (inUse pdu) else 0)

/-- The subheaders, the control elements and `rem_len` are such that the PDU can be written. -/
def Writable (pdu : SchPdu) : Prop :=
  FrontRoom pdu.sduOffsetStart (ceSpace (inUse pdu)) (dataSizes (inUse pdu)) pdu.remLen

instance (pdu : SchPdu) : Decidable (Writable pdu) := by
  unfold Writable
  infer_instance

/-- The call `c` took the PDU to `pdu'`: it succeeded only if its element fits, and the elements and
`rem_len` add up to the length of the PDU. -/
structure SoundAttempt (pdu : SchPdu) (c : SetCall) (pdu' : SchPdu) : Prop where
  fits : (pdu.attempt c).2 = true → neededSpace pdu c ≤ pdu.remLen
  space : pdu'.remLen + spaceUsed (inUse pdu') = pdu'.pduLen
  written : inUse pdu' ≠ [] → pdu'.writePacket ≠ none

/-- An SDU that is offered where there is space has a channel, data, room for its subheader and the
length field of the SDU before, and leaves room in front of the SDUs. -/
def SduFits (pdu : SchPdu) (c : SetCall) : Prop :=
  requestedLen c ≤ sduSpace pdu → (callElement c).1 < lcidPhrReport ∧ (offersData c = true →
    0 < (callElement c).2.length ∧ lastLength (inUse pdu) + 1 ≤ pdu.remLen ∧
      FrontRoom pdu.sduOffsetStart (ceSpace (inUse pdu))
        (dataSizes (inUse pdu) ++ [(callElement c).2.length])
        (pdu.remLen - ((callElement c).2.length + 1 + lastLength (inUse pdu))))

/-- A control element for which there is space is one of the direction, and leaves room in front of
the SDUs. -/
def CeFitsFront (pdu : SchPdu) (c : SetCall) : Prop :=
  (callElement c).2.length + 1 ≤ pdu.remLen →
    sizeofCe (callElement c).1 pdu.pduIsUl = (callElement c).2.length ∧
      FrontRoom pdu.sduOffsetStart (ceSpace (inUse pdu) + ((callElement c).2.length + 1))
        (dataSizes (inUse pdu)) (pdu.remLen - ((callElement c).2.length + 1))

/-- What a call needs of the PDU before it. Nothing is needed if no subheader is free. -/
def CallFits (pdu : SchPdu) (c : SetCall) : Prop :=
  pdu.nofSubheaders + 1 < pdu.maxSubheaders →
    if isSduCall c then SduFits pdu c else CeFitsFront pdu c

instance (pdu : SchPdu) (c : SetCall) : Decidable (CallFits pdu c) := by
  unfold CallFits SduFits CeFitsFront
  infer_instance

/-- A call of a run. -/
def attemptStep (pdu : SchPdu) (c : SetCall) : Option SchPdu := some (pdu.attempt c).1

/-! ### One call -/

/-- The PDU between two calls. -/
structure Assembling (pdu : SchPdu) : Prop extends Accounted pdu where
  fill : ∀ s ∈ inUse pdu, isUnfilled s = false
  dir : ∀ s ∈ inUse pdu, OfDirection pdu.pduIsUl s

section
variable {pdu pdu' : SchPdu} {c : SetCall}

/-- A control element has a payload. -/
theorem length_ce (hc : isSduCall c = false) : 0 < (callElement c).2.length := by
  cases c with
  | sdu | sduFrom => cases hc
  | bsr buffSize format => cases format <;> exact Nat.le_of_ble_eq_true rfl
  | cRnti | conResId | taCmd | phr => exact Nat.le_of_ble_eq_true rfl

/-- A control element of its size keeps the PDU as it should be. -/
theorem Assembling.pushCe (h : Assembling pdu) {s : SchSubh}
    (hroom : pdu.nofSubheaders + 1 < pdu.maxSubheaders) {lcid : Nat} {payload : Bytes}
    (hlcid : lcidPhrReport ≤ lcid) (hpos : 0 < payload.length)
    (hsize : sizeofCe lcid pdu.pduIsUl = payload.length) (hfits : payload.length + 1 ≤ pdu.remLen) :
    Assembling (pushCe pdu s lcid payload) where
  toAccounted := h.toAccounted.pushCe hroom hlcid hfits
  fill := forall_inUse_push h.toTracked h.fill (not_isUnfilled_of_isCe (isCe_withCe hlcid payload))
  dir := by
    refine forall_inUse_push h.toTracked h.dir fun _ => ⟨hpos, hsize, ?_⟩
    show payload.length ≤ (payload ++ _).length
    rw [List.length_append]
    omega

/-- So does an SDU that fits. -/
theorem Assembling.pushSdu (h : Assembling pdu) {s : SchSubh}
    (hroom : pdu.nofSubheaders + 1 < pdu.maxSubheaders) {lcid : Nat} {payload : Bytes}
    (hlcid : lcid < lcidPhrReport) (hpos : 0 < payload.length)
    (hfits : payload.length + 1 + lastLength (inUse pdu) ≤ pdu.remLen) :
    Assembling (pushSdu pdu s lcid payload) where
  toAccounted := h.toAccounted.pushSdu hroom hlcid hpos hfits
  fill := forall_inUse_push h.toTracked h.fill
    (not_isUnfilled_of_isData (isData_withSdu hlcid hpos))
  dir := by
    refine forall_inUse_push h.toTracked h.dir fun hce => ?_
    rw [isCe_of_isData (isData_withSdu hlcid hpos)] at hce
    cases hce

/-- A call that fails leaves the PDU as it was. -/
theorem Assembling.delSubh_push (h : Assembling pdu)
    (hroom : pdu.nofSubheaders + 1 < pdu.maxSubheaders) {s : SchSubh} (hs : isUnfilled s = true) :
    Assembling (push pdu s).delSubh ∧ inUse (push pdu s).delSubh = inUse pdu := by
  obtain ⟨hacc, huse⟩ := (h.toAccounted.push_unfilled hroom hs).delSubh (h.inUse_push s) hs
  refine ⟨⟨hacc, ?_, ?_⟩, huse⟩
  · rw [huse]
    exact h.fill
  · rw [huse]
    exact h.dir

/-- The PDU between two calls can be written, unless it is empty. -/
structure Ready (pdu : SchPdu) : Prop extends Assembling pdu where
  writable : inUse pdu ≠ [] → Writable pdu

/-- A control element for which there is space leaves a PDU that can be written, when it has room in
front of the SDUs. -/
theorem Ready.attempt_ce (h : Ready pdu) (hkind : isSduCall c = false)
    (hroom : pdu.nofSubheaders + 1 < pdu.maxSubheaders) (hc : CallFits pdu c)
    (hfits : (callElement c).2.length + 1 ≤ pdu.remLen) {s : SchSubh} :
    Ready (Mac.pushCe pdu s (callElement c).1 (callElement c).2) := by
  have hfront := hc hroom
  rw [if_neg (by rw [hkind]; exact Bool.false_ne_true)] at hfront
  obtain ⟨hsize, hfront⟩ := hfront hfits
  have hlcid := lcid_ce hkind
  refine ⟨h.toAssembling.pushCe hroom hlcid (length_ce hkind) hsize hfits, fun _ => ?_⟩
  obtain ⟨hces, hlens⟩ := h.toTracked.sizes_pushCe (s := s) hlcid (callElement c).2
  rw [Writable, hces, hlens]
  exact hfront

/-- So does an SDU with room for its subheader. -/
theorem Ready.attempt_sdu (h : Ready pdu) (hkind : isSduCall c = true)
    (hroom : pdu.nofSubheaders + 1 < pdu.maxSubheaders) (hc : CallFits pdu c)
    (hoffer : offersData c = true) (hspace : requestedLen c ≤ sduSpace pdu) {s : SchSubh} :
    Ready (Mac.pushSdu pdu s (callElement c).1 (callElement c).2) ∧
      (callElement c).2.length + 1 + lastLength (inUse pdu) ≤ pdu.remLen := by
  have hsdu := hc hroom
  rw [if_pos hkind] at hsdu
  obtain ⟨hlcid, hdata⟩ := hsdu hspace
  obtain ⟨hpos, hlast, hfront⟩ := hdata hoffer
  have hfits : (callElement c).2.length + 1 + lastLength (inUse pdu) ≤ pdu.remLen :=
    (le_sduSpace_iff hlast).mp (Nat.le_trans (length_le_requestedLen hkind hoffer) hspace)
  refine ⟨⟨h.toAssembling.pushSdu hroom hlcid hpos hfits, fun _ => ?_⟩, hfits⟩
  obtain ⟨hces, hlens⟩ := h.toTracked.sizes_pushSdu (s := s) hlcid hpos
  have hrem : (Mac.pushSdu pdu s (callElement c).1 (callElement c).2).remLen
      = pdu.remLen - ((callElement c).2.length + 1 + lastLength (inUse pdu)) := sub32_of_le hfits
  rw [Writable, hces, hlens, hrem]
  exact hfront

/-- What `CallFits` says of the channel. -/
theorem CallFits.channel (hc : CallFits pdu c) (hroom : pdu.nofSubheaders + 1 < pdu.maxSubheaders)
    (hkind : isSduCall c = true) (hspace : requestedLen c ≤ sduSpace pdu) :
    (callElement c).1 < lcidPhrReport := by
  have hsdu := hc hroom
  rw [if_pos hkind] at hsdu
  exact (hsdu hspace).1

/-- So does any call that the PDU has room for, or that it refuses. -/
theorem Ready.attempt (h : Ready pdu) (hc : CallFits pdu c) :
    Ready (pdu.attempt c).1 ∧
      ((pdu.attempt c).2 = true → neededSpace pdu c ≤ pdu.remLen) := by
  rcases h.toTracked.attempt_cases c hc.channel with
    heq | ⟨hroom, s, ⟨hs, heq⟩ | ⟨hkind, hfits, heq⟩ | ⟨hkind, hoffer, hspace, heq⟩⟩
  · rw [heq]
    exact ⟨h, fun hfalse => absurd hfalse Bool.false_ne_true⟩
  · obtain ⟨hasm, huse⟩ := h.toAssembling.delSubh_push hroom hs
    rw [heq]
    refine ⟨⟨hasm, fun hne => ?_⟩, fun hfalse => absurd hfalse Bool.false_ne_true⟩
    rw [Writable, huse]
    exact h.writable (huse ▸ hne)
  · rw [heq, neededSpace, if_neg (by rw [hkind]; exact Bool.false_ne_true)]
    exact ⟨h.attempt_ce hkind hroom hc hfits, fun _ => hfits⟩
  · obtain ⟨hready, hfits⟩ := h.attempt_sdu hkind hroom hc hoffer hspace (s := s)
    rw [heq, neededSpace, if_pos hkind]
    exact ⟨hready, fun _ => hfits⟩

/-! ### `write_packet` -/

/-- Subheaders and control elements are what stands in front of the SDUs. -/
theorem Assembling.frontSpace_eq (h : Assembling pdu) :
    pdu.cePayloadSz + pdu.headerSz
      = frontSpace (ceSpace (inUse pdu)) (dataSizes (inUse pdu)) pdu.remLen := by
  have hsize := h.writeSize_eq
  have hsdus := h.sdus
  rw [unfilledCount_eq_zero h.fill, spaceUsed] at hsize
  rw [frontSpace]
  by_cases htwo : 2 < pdu.remLen
  · have hpad := h.paddingLen_add (decide_eq_true htwo)
    rw [lastLength] at hpad
    rw [if_pos htwo]
    omega
  · have hpad : pdu.paddingLen = 0 := if_neg htwo
    rw [if_neg htwo]
    omega

/-- `write_packet` returns the PDU exactly when the front has room for the subheaders and control
elements. -/
theorem Assembling.writePacket_iff (h : Assembling pdu) :
    pdu.writePacket ≠ none ↔ Writable pdu := by
  have hlast : ∀ ss s, inUse pdu = ss ++ [s] → isUnfilled s = false := fun ss s huse =>
    h.fill s (by rw [huse]; exact List.mem_append_right _ (List.mem_singleton_self s))
  have hrem := h.rem
  rw [SchPdu.writePacket, h.removeEmptyLast_filled hlast h.dir,
    h.toAccounted.writeChecked_eq h.fill h.dir, h.frontSpace_eq, Writable, FrontRoom,
    toInt32]
  generalize frontSpace (ceSpace (inUse pdu)) (dataSizes (inUse pdu)) pdu.remLen = front
  by_cases hneg : pdu.remLen < 2 ^ 31
  · rw [if_pos hneg, if_neg (by omega)]
    by_cases hfront : pdu.sduOffsetStart ≤ front
    · rw [if_pos hfront]
      exact iff_of_false (fun hne => hne rfl) fun hw => by omega
    · rw [if_neg hfront]
      exact iff_of_true (Option.some_ne_none _) ⟨by omega, hneg⟩
  · rw [if_neg hneg, if_pos (by omega)]
    exact iff_of_false (fun hne => hne rfl) fun hw => hneg hw.2

end

/-! ### Runs -/

/-- A new PDU is as it should be. -/
theorem assembling_initTx {maxSubheaders pduLen : Nat} (hmax : 0 < maxSubheaders)
    (hlen : pduLen < 2 ^ 32) (isUl : Bool) : Assembling (initTx maxSubheaders pduLen isUl) where
  toAccounted := accounted_initTx hmax hlen isUl
  fill := List.forall_mem_nil _
  dir := List.forall_mem_nil _

/-- It is empty. -/
theorem ready_initTx {maxSubheaders pduLen : Nat} (hmax : 0 < maxSubheaders)
    (hlen : pduLen < 2 ^ 32) (isUl : Bool) : Ready (initTx maxSubheaders pduLen isUl) where
  toAssembling := assembling_initTx hmax hlen isUl
  writable hne := absurd rfl hne

/-- In a run whose calls fit the state they meet, no call is accepted that does not fit, `rem_len`
never wraps around, and what was accepted can be written. -/
theorem assembly_run {maxSubheaders pduLen : Nat} (hmax : 0 < maxSubheaders)
    (hlen : pduLen < 2 ^ 32) (isUl : Bool) {calls : List SetCall}
    (hcalls : Along attemptStep (fun pdu c _ => CallFits pdu c)
      (initTx maxSubheaders pduLen isUl) calls) :
    Along attemptStep SoundAttempt (initTx maxSubheaders pduLen isUl) calls := by
  refine Along.of_inv (I := Ready) ?_ (ready_initTx hmax hlen isUl) hcalls
  intro pdu c pdu' h hstep hc
  obtain rfl := Option.some.inj hstep
  obtain ⟨hnext, hfits⟩ := h.attempt hc
  have hwritten : inUse (pdu.attempt c).1 ≠ [] → (pdu.attempt c).1.writePacket ≠ none :=
    fun hne => hnext.toAssembling.writePacket_iff.mpr (hnext.writable hne)
  exact ⟨⟨hfits, hnext.space, hwritten⟩, hnext⟩

/-- A power headroom report, an SDU and two elements that do not fit. One of them is not for the
uplink. -/
def tightCalls : List SetCall := [.phr 0, .sdu 3 [7, 8, 9], .sdu 4 [9, 9, 9], .conResId 5]

/-- Two elements that do not fit are refused, and nothing is lost. -/
theorem assembly_run_tight :
    Along attemptStep (fun pdu c _ => CallFits pdu c) (initTx 20 9 true) tightCalls ∧
      Along attemptStep SoundAttempt (initTx 20 9 true) tightCalls :=
  have hcalls : Along attemptStep (fun pdu c _ => CallFits pdu c) (initTx 20 9 true)
      tightCalls := by
    decide +kernel
  ⟨hcalls, assembly_run (by decide) (by decide) true hcalls⟩

/-- With nine of ten bytes used there is no room for another subheader, but an SDU is accepted, and
then there is nothing to write. -/
theorem not_soundAttempt_wrapped :
    ¬Along attemptStep SoundAttempt (initTx 20 10 true)
        [.sdu 3 [1, 2, 3, 4, 5, 6, 7, 8], .sdu 3 [1, 2]] ∧
      ((initTx 20 10 true).attempt (.sdu 3 [1, 2, 3, 4, 5, 6, 7, 8])).1.attempt (.sdu 3 [1, 2]) =
        ((((initTx 20 10 true).attempt (.sdu 3 [1, 2, 3, 4, 5, 6, 7, 8])).1.attempt
          (.sdu 3 [1, 2])).1, true) ∧
      (((initTx 20 10 true).attempt (.sdu 3 [1, 2, 3, 4, 5, 6, 7, 8])).1.attempt
        (.sdu 3 [1, 2])).1.writePacket = none := by
  refine ⟨fun h => ?_, by decide +kernel, by decide +kernel⟩
  have hfits := ((h _ rfl).2 _ rfl).1.fits (by decide +kernel)
  exact absurd hfits (by decide +kernel)

end SrsUE.Proofs.Mac
