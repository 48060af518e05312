import SrsUE.Rrc.Messages
import SrsUE.Proofs.Mac.CeValues
import SrsUE.Proofs.Rrc.RadioResourceCodec

/-!
# `SrsUE.Proofs.Rrc.ContentionIdentity`: a request on the common control channel is its own identity

`rrc.cc` takes the contention resolution identity from the first six bytes of the request that it
sends. Both requests have exactly six bytes, and no two requests have the same ones. So an identity
that MAC receives is the own one exactly when the base station answers this very request.
-/

set_option autoImplicit false

namespace SrsUE.Rrc

open SrsUE.Lib SrsUE.Rlc SrsUE.Mac SrsUE.Proofs.Mac

/-! ### The bits of a request -/

/-- Bits of one width in front decide the field and the rest. -/
theorem putBits_append_inj {k : Nat} {v v' : BitVec k} {x y : List Bool}
    (h : putBits v ++ x = putBits v' ++ y) : v = v' ∧ x = y := by
  have hread := getBits_putBits v x
  rw [h, getBits_putBits] at hread
  exact ⟨(congrArg Prod.fst hread).symm, (congrArg Prod.snd hread).symm⟩

/-- An identity takes 41 bits. -/
theorem length_packConReqUeId (u : ConReqUeId) : (packConReqUeId u).length = 41 := by
  cases u with
  | sTmsi s => simp [packConReqUeId, packSTmsi]
  | random v => simp [packConReqUeId]

/-- A request takes 46 bits. -/
theorem length_packConnectionRequest (m : ConnectionRequest) :
    (packConnectionRequest m).length = 46 := by
  simp [packConnectionRequest, length_packConReqUeId]

/-- So does a reestablishment request. -/
theorem length_packConnectionReestablishmentRequest (m : ConnectionReestablishmentRequest) :
    (packConnectionReestablishmentRequest m).length = 46 := by
  simp [packConnectionReestablishmentRequest]

/-- The bits of a request. -/
def UlCcchMsg.bits : UlCcchMsg → List Bool
  | .rrcConReestReq m => false :: false :: packConnectionReestablishmentRequest m
  | .rrcConReq m => false :: true :: packConnectionRequest m

/-- Every request has 48 bits. -/
theorem UlCcchMsg.length_bits (m : UlCcchMsg) : m.bits.length = 48 := by
  cases m with
  | rrcConReestReq m =>
    rw [bits, List.length_cons, List.length_cons, length_packConnectionReestablishmentRequest]
  | rrcConReq m => rw [bits, List.length_cons, List.length_cons, length_packConnectionRequest]

/-- A request has room in the bit buffers. -/
theorem packUlCcchMsg_eq (m : UlCcchMsg) : packUlCcchMsg m = some m.bits := by
  have hlen : m.bits.length ≤ msgRoomBits := by
    rw [m.length_bits]
    decide
  cases m with
  | rrcConReestReq m => exact (withHeader_eq_some_iff (by decide)).mpr ⟨hlen, rfl⟩
  | rrcConReq m => exact (withHeader_eq_some_iff (by decide)).mpr ⟨hlen, rfl⟩

/-- An S-TMSI is read back. -/
@[simp] theorem unpackSTmsi_pack (s : STmsi) (rest : List Bool) :
    unpackSTmsi.run (packSTmsi s ++ rest) = (s, rest) := by
  simp [unpackSTmsi, packSTmsi]

/-- An identity of either kind is read back. -/
@[simp] theorem unpackConReqUeId_pack (u : ConReqUeId) (rest : List Bool) :
    unpackConReqUeId.run (packConReqUeId u ++ rest) = (u, rest) := by
  cases u with
  | sTmsi s => simp [unpackConReqUeId, packConReqUeId]
  | random v =>
    have hhigh : (v.toNat >>> 32) % 2 ^ 8 = v.toNat >>> 32 := by
      rw [Nat.shiftRight_eq_div_pow]
      exact Nat.mod_eq_of_lt (Nat.div_lt_of_lt_mul v.isLt)
    have hvalue : BitVec.ofNat 40 (((v.toNat >>> 32) % 2 ^ 8) <<< 32 ||| v.toNat % 2 ^ 32) = v := by
      rw [hhigh, high_or_low, BitVec.ofNat_toNat, BitVec.setWidth_eq]
    simp only [unpackConReqUeId, packConReqUeId, List.append_assoc, BitReader.run_bind,
      getFlag_putFlag, if_true, getNat_putNat, BitReader.run_pure, hvalue]

/-- A request is read back, up to its spare bit. -/
@[simp] theorem unpackConnectionRequest_pack (m : ConnectionRequest) (rest : List Bool) :
    unpackConnectionRequest.run (packConnectionRequest m ++ rest) = (m, putNat 1 0 ++ rest) := by
  simp [unpackConnectionRequest, packConnectionRequest]

/-- So different requests are different bits. -/
theorem packConnectionRequest_injective {m m' : ConnectionRequest}
    (h : packConnectionRequest m = packConnectionRequest m') : m = m' := by
  have hread := unpackConnectionRequest_pack m []
  rw [h, unpackConnectionRequest_pack] at hread
  exact (congrArg Prod.fst hread).symm

/-- The reader of this request loses most of it, so the fields are told apart by their places. -/
theorem packConnectionReestablishmentRequest_injective {m m' : ConnectionReestablishmentRequest}
    (h : packConnectionReestablishmentRequest m = packConnectionReestablishmentRequest m') :
    m = m' := by
  obtain ⟨⟨cRnti, physCellId, shortMacI⟩, cause⟩ := m
  obtain ⟨⟨cRnti', physCellId', shortMacI'⟩, cause'⟩ := m'
  simp only [packConnectionReestablishmentRequest, List.append_assoc,
    List.append_cancel_left_eq] at h
  obtain ⟨hcRnti, h1⟩ := putBits_append_inj h
  obtain ⟨hphysCellId, h2⟩ := putBits_append_inj h1
  obtain ⟨hshortMacI, h3⟩ := putBits_append_inj h2
  obtain ⟨hcause, -⟩ := putBits_append_inj h3
  rw [hcRnti, hphysCellId, hshortMacI, hcause]

/-- So are different messages. -/
theorem UlCcchMsg.bits_injective {m m' : UlCcchMsg} (h : m.bits = m'.bits) : m = m' := by
  cases m with
  | rrcConReestReq m =>
    cases m' with
    | rrcConReestReq m' =>
      simp only [bits, List.cons.injEq, true_and] at h
      rw [packConnectionReestablishmentRequest_injective h]
    | rrcConReq m' => simp [bits] at h
  | rrcConReq m =>
    cases m' with
    | rrcConReestReq m' => simp [bits] at h
    | rrcConReq m' =>
      simp only [bits, List.cons.injEq, true_and] at h
      rw [packConnectionRequest_injective h]

/-! ### Its bytes, and the identity -/

variable (L : SrslteBit)

/-- The bytes of a request are those of its bits, without padding. -/
theorem UlCcchMsg.toPdu_bits (m : UlCcchMsg) : toPdu L m.bits = some (L.packVector m.bits) := by
  have halign : byteAlign m.bits = m.bits := if_neg (by rw [m.length_bits]; decide)
  have hlen : (L.packVector m.bits).length ≤ msgRoom := by
    rw [L.length_packVector _ (by rw [m.length_bits]), m.length_bits]
    decide
  rw [toPdu, halign, if_pos hlen]

/-- Every request has six bytes. -/
theorem UlCcchMsg.length_packVector_bits (m : UlCcchMsg) : (L.packVector m.bits).length = 6 := by
  rw [L.length_packVector _ (by rw [m.length_bits]), m.length_bits]

/-- They are different bytes as well: their length is a multiple of eight. -/
theorem UlCcchMsg.packVector_bits_injective {m m' : UlCcchMsg}
    (h : L.packVector m.bits = L.packVector m'.bits) : m = m' := by
  refine bits_injective ?_
  rw [← L.unpackVector_packVector m.bits (by rw [m.length_bits]), h,
    L.unpackVector_packVector m'.bits (by rw [m'.length_bits])]

/-- The reader of the control element takes the same six bytes in the same order. -/
theorem getConResId_eq_contentionId {pdu : Bytes} (h : pdu.length = 6) (behind : Bytes) :
    getConResId (pdu ++ behind) = contentionId pdu := by
  obtain ⟨b0, b1, b2, b3, b4, b5, rfl⟩ : ∃ b0 b1 b2 b3 b4 b5, pdu = [b0, b1, b2, b3, b4, b5] := by
    match pdu, h with
    | [b0, b1, b2, b3, b4, b5], _ => exact ⟨b0, b1, b2, b3, b4, b5, rfl⟩
  rw [List.cons_append, List.cons_append, List.cons_append, List.cons_append, List.cons_append,
    List.cons_append, getConResId_eq]
  simp only [contentionId, List.take_succ_cons, List.take_nil, List.foldl_cons, List.foldl_nil]
  omega

/-- The identity holds all six bytes. -/
theorem contentionId_injective {p q : Bytes} (hp : p.length = 6) (hq : q.length = 6)
    (h : contentionId p = contentionId q) : p = q := by
  match p, hp, q, hq with
  | [a0, a1, a2, a3, a4, a5], _, [b0, b1, b2, b3, b4, b5], _ =>
    simp only [contentionId, List.take_succ_cons, List.take_nil, List.foldl_cons,
      List.foldl_nil] at h
    have ha1 := a1.toNat_lt
    have ha2 := a2.toNat_lt
    have ha3 := a3.toNat_lt
    have ha4 := a4.toNat_lt
    have ha5 := a5.toNat_lt
    have hb1 := b1.toNat_lt
    have hb2 := b2.toNat_lt
    have hb3 := b3.toNat_lt
    have hb4 := b4.toNat_lt
    have hb5 := b5.toNat_lt
    have h5 : a5 = b5 := UInt8.toNat_inj.mp (by omega)
    have h4 : a4 = b4 := UInt8.toNat_inj.mp (by omega)
    have h3 : a3 = b3 := UInt8.toNat_inj.mp (by omega)
    have h2 : a2 = b2 := UInt8.toNat_inj.mp (by omega)
    have h1 : a1 = b1 := UInt8.toNat_inj.mp (by omega)
    have h0 : a0 = b0 := UInt8.toNat_inj.mp (by omega)
    rw [h0, h1, h2, h3, h4, h5]

/-- The request of a device says whether it has an S-TMSI, and which. -/
theorem conRequest_injective {sTmsi sTmsi' : Option STmsi}
    (h : conRequest sTmsi' = conRequest sTmsi) :
    sTmsi' = sTmsi := by
  cases sTmsi <;> cases sTmsi' <;> simp_all [conRequest]

/-- The base station puts the six bytes of a request into the control element that answers it. Two
devices without an S-TMSI send the same request, so one takes the answer to the other for its
own. -/
theorem contentionId_iff (r r' : UlCcchMsg) (behind : Bytes) (sTmsi sTmsi' : Option STmsi) :
    (∃ pdu pdu', (packUlCcchMsg r).bind (toPdu L) = some pdu ∧
        (packUlCcchMsg r').bind (toPdu L) = some pdu' ∧
      pdu.length = 6 ∧ pdu'.length = 6 ∧
      (getConResId (pdu' ++ behind) = contentionId pdu ↔ r' = r)) ∧
    (conRequest sTmsi' = conRequest sTmsi ↔ sTmsi' = sTmsi) := by
  have hpdu : ∀ m, (packUlCcchMsg m).bind (toPdu L) = some (L.packVector m.bits) := fun m => by
    rw [packUlCcchMsg_eq, Option.bind_some, UlCcchMsg.toPdu_bits]
  have hlen := r.length_packVector_bits L
  have hlen' := r'.length_packVector_bits L
  refine ⟨⟨_, _, hpdu r, hpdu r', hlen, hlen', ?_⟩, conRequest_injective, fun h => by rw [h]⟩
  rw [getConResId_eq_contentionId hlen']
  constructor
  · intro h
    exact UlCcchMsg.packVector_bits_injective L (contentionId_injective hlen' hlen h)
  · intro h
    rw [h]

end SrsUE.Rrc
