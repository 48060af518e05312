import SrsUE.Proofs.Rlc.AmFill
import SrsUE.Proofs.Rlc.AmStatusPdu

/-!
# `SrsUE.Proofs.Rlc.AmCodec`: AMD headers and status PDUs as codecs

The readers and the writers of `rlc_am.cc` invert each other, in the lengths that
`rlc_am_packed_length` gives.

* `amHeader_codec`: a header is read back from its bytes, and the bytes of a header are written
  again from what was read, if the nibble behind an odd number of length indicators is zero.
* `status_codec`: a status PDU is read back from its bytes.

`AmDataHeader` and `AmStatusPdu` have the direction from the writer to the reader for fields of any
size. What is new here is the way back, which follows the loop of the reader.
-/

set_option autoImplicit false

namespace SrsUE.Proofs.Rlc

open SrsUE.Rlc

/-! ### The extension part -/

/-- The four bits behind the last of an odd number of length indicators are zero. -/
def PaddingZero (bytes : Bytes) (lis : List Nat) : Prop :=
  lis.length % 2 = 1 → ∀ b, bytes[(3 * lis.length + 1) / 2 - 1]? = some b → b.toNat &&& 0x0F = 0

/-- A first byte of a pair is written again from its extension bit and the length indicator that
begins in it. -/
theorem liByte_eq (b0 b1 : UInt8) {ext : Nat} (hext : (b0.toNat >>> 7) &&& 0x01 = ext) :
    UInt8.ofNat ((ext &&& 0x01) <<< 7
      ||| (((b0.toNat &&& 0x7F) <<< 4 ||| (b1.toNat &&& 0xF0) >>> 4) &&& 0x7F0) >>> 4) = b0 := by
  have h0 := b0.toNat_lt
  have h1 := b1.toNat_lt
  rw [shiftRight_and_0x01] at hext
  apply UInt8.toNat_inj.mp
  rw [toNat_liByte, readLi_even _ _ h1]
  omega

/-- The same for the byte that a pair shares. -/
theorem liSharedByte_eq (b0 b1 b2 : UInt8) {ext : Nat} (hext : (b1.toNat >>> 3) &&& 0x01 = ext) :
    UInt8.ofNat ((((b0.toNat &&& 0x7F) <<< 4 ||| (b1.toNat &&& 0xF0) >>> 4) &&& 0x00F) <<< 4
      ||| (ext &&& 0x01) <<< 3
      ||| (((b1.toNat &&& 0x07) <<< 8 ||| (b2.toNat &&& 0xFF)) &&& 0x700) >>> 8) = b1 := by
  have h1 := b1.toNat_lt
  have h2 := b2.toNat_lt
  rw [shiftRight_and_0x01] at hext
  apply UInt8.toNat_inj.mp
  rw [toNat_liSharedByte, readLi_even _ _ h1, readLi_odd _ _ h2]
  omega

/-- The low byte of a length indicator is its second byte. -/
theorem liLowByte_eq (b1 b2 : UInt8) :
    UInt8.ofNat (((b1.toNat &&& 0x07) <<< 8 ||| (b2.toNat &&& 0xFF)) &&& 0x0FF) = b2 := by
  have h2 := b2.toNat_lt
  apply UInt8.toNat_inj.mp
  rw [toNat_lowByte, readLi_odd _ _ h2]
  omega

/-- The last byte of an odd number of length indicators, with zeros behind the indicator. -/
theorem liLastByte_eq (b0 b1 : UInt8) (hpad : b1.toNat &&& 0x0F = 0) :
    UInt8.ofNat ((((b0.toNat &&& 0x7F) <<< 4 ||| (b1.toNat &&& 0xF0) >>> 4) &&& 0x00F) <<< 4)
      = b1 := by
  have h1 := b1.toNat_lt
  rw [and_0x0F] at hpad
  apply UInt8.toNat_inj.mp
  rw [toNat_liLastByte, readLi_even _ _ h1]
  omega

/-- A single byte holds no length indicator. -/
theorem readLis_short {l : Bytes} (hshort : ∀ b0 b1 tail, l = b0 :: b1 :: tail → False) :
    readLis l = none := by
  rcases l with _ | ⟨b0, _ | ⟨b1, tail⟩⟩
  · rfl
  · rfl
  · exact absurd rfl (hshort b0 b1 tail)

/-- At least one length indicator is read. -/
theorem readLis_ne_nil {bytes rest : Bytes} {lis : List Nat}
    (h : readLis bytes = some (lis, rest)) :
    lis ≠ [] := by
  rintro rfl
  induction bytes using readLis.induct with
  | case1 b0 b1 tail h0 =>
    rw [readLis_one tail h0] at h
    cases h
  | case2 b0 b1 h0 b2 tail h1 =>
    rw [readLis_two tail h0, if_pos h1] at h
    cases h
  | case3 b0 b1 h0 b2 tail h1 =>
    rw [readLis_two tail h0, if_neg h1] at h
    obtain ⟨r, -, hr⟩ := Option.map_eq_some_iff.mp h
    cases hr
  | case4 b0 b1 h0 =>
    simp only [readLis, if_neg h0] at h
    cases h
  | case5 l hshort =>
    rw [readLis_short hshort] at h
    cases h

/-- A bit that is not clear is set. -/
theorem bit_eq_one {x s : Nat} (h : ¬(x >>> s) &&& 0x01 = 0) : (x >>> s) &&& 0x01 = 1 := by
  rw [and_0x01] at h ⊢
  omega

/-- The writer's loop inverts the reader's. -/
theorem writeLis_readLis {bytes rest : Bytes} {lis : List Nat}
    (h : readLis bytes = some (lis, rest)) (hpad : PaddingZero bytes lis) :
    writeLis lis ++ rest = bytes := by
  induction bytes using readLis.induct generalizing lis with
  | case1 b0 b1 tail h0 =>
    rw [readLis_one tail h0] at h
    obtain ⟨rfl, rfl⟩ := Prod.mk.inj (Option.some.inj h)
    have hzero : b1.toNat &&& 0x0F = 0 := by
      refine hpad rfl b1 ?_
      simp only [List.length_singleton]
      rfl
    rw [writeLis, liByte_eq b0 b1 h0, liLastByte_eq b0 b1 hzero]
    rfl
  | case2 b0 b1 h0 b2 tail h1 =>
    rw [readLis_two tail h0, if_pos h1] at h
    obtain ⟨rfl, rfl⟩ := Prod.mk.inj (Option.some.inj h)
    rw [writeLis]
    simp only [List.isEmpty_nil, if_true]
    rw [liByte_eq b0 b1 (bit_eq_one h0), liSharedByte_eq b0 b1 b2 h1, liLowByte_eq]
    rfl
  | case3 b0 b1 h0 b2 tail h1 ih =>
    rw [readLis_two tail h0, if_neg h1] at h
    obtain ⟨⟨lis', rest'⟩, hread, heq⟩ := Option.map_eq_some_iff.mp h
    obtain ⟨rfl, rfl⟩ := Prod.mk.inj heq
    have hmore : lis'.isEmpty = false := by
      rw [List.isEmpty_eq_false_iff]
      exact readLis_ne_nil hread
    -- The padding is three bytes further back here.
    have hpad' : PaddingZero tail lis' := by
      intro hodd b hb
      have hpos : 0 < lis'.length := by omega
      refine hpad (by simp only [List.length_cons]; omega) b ?_
      rw [← hb]
      have hidx : (3 * (lis'.length + 1 + 1) + 1) / 2 - 1 = (3 * lis'.length + 1) / 2 - 1 + 3 := by
        omega
      simp only [List.length_cons]
      rw [hidx]
      rfl
    rw [writeLis]
    simp only [hmore]
    rw [liByte_eq b0 b1 (bit_eq_one h0), if_neg Bool.false_ne_true,
      liSharedByte_eq b0 b1 b2 (bit_eq_one h1), liLowByte_eq, List.append_assoc,
      ih hread hpad']
    rfl
  | case4 b0 b1 h0 =>
    simp only [readLis, if_neg h0] at h
    cases h
  | case5 l hshort =>
    rw [readLis_short hshort] at h
    cases h

/-! ### The whole header -/

/-- The first byte of a data header is written again from its fields. -/
theorem firstByte_eq : ∀ b : Fin 256, ¬(b.val >>> 7) &&& 0x01 = 0 →
    (1 &&& 0x01) <<< 7 ||| (((b.val >>> 6) &&& 0x01 != 0).toNat &&& 0x01) <<< 6
      ||| (((b.val >>> 5) &&& 0x01 != 0).toNat &&& 0x01) <<< 5
      ||| ((BitVec.ofNat 2 ((b.val >>> 3) &&& 0x03)).toNat &&& 0x03) <<< 3
      ||| (((b.val >>> 2) &&& 0x01) &&& 0x01) <<< 2 ||| b.val &&& 0x03 = b.val := by
  decide +kernel

/-- The part of both readers behind the fixed part. The extension bit says if there are length
indicators; `withLi` puts them into the header that was read so far. -/
theorem extensionPart_inv {H : Type} (withLi : List Nat → H) {ext : Nat} {header : H}
    {pl data : Bytes} (hext : ext = 0 ∨ ext = 1)
    (h : (if ext = 0 then some (withLi [], pl)
      else (readLis pl).bind fun r =>
        if r.1.length ≤ 512 then some (withLi r.1, r.2) else none) = some (header, data)) :
    ∃ lis, header = withLi lis ∧ (if lis.isEmpty then 0 else 1) = ext ∧
      (PaddingZero pl lis → writeLis lis ++ data = pl) := by
  split at h
  · rename_i h0
    obtain ⟨rfl, rfl⟩ := Prod.mk.inj (Option.some.inj h)
    exact ⟨[], rfl, h0.symm, fun _ => rfl⟩
  · rename_i h1
    obtain ⟨⟨lis, rest⟩, hread, hr⟩ := Option.bind_eq_some_iff.mp h
    split at hr
    · obtain ⟨rfl, rfl⟩ := Prod.mk.inj (Option.some.inj hr)
      have hne : lis.isEmpty = false := List.isEmpty_eq_false_iff.mpr (readLis_ne_nil hread)
      refine ⟨lis, rfl, ?_, writeLis_readLis hread⟩
      rw [hne, if_neg Bool.false_ne_true]
      omega
    · cases hr

/-- The mask leaves two bits. -/
theorem and_0x03 (x : Nat) : x &&& 0x03 = x % 4 := Nat.and_two_pow_sub_one_eq_mod x 2

/-- The sequence number is written again in the first two bytes. -/
theorem snBytes_eq (b0 b1 : UInt8) :
    (((b0.toNat &&& 0x03) <<< 8 ||| (b1.toNat &&& 0xFF)) &&& 0x300) >>> 8 = b0.toNat &&& 0x03 ∧
      UInt8.ofNat (((b0.toNat &&& 0x03) <<< 8 ||| (b1.toNat &&& 0xFF)) &&& 0xFF) = b1 := by
  have h1 := b1.toNat_lt
  rw [and_0x03, and_0xFF, shiftLeft_or (by omega)]
  refine ⟨?_, UInt8.toNat_inj.mp ?_⟩
  · rw [and_0x300]
    omega
  · rw [toNat_lowByte]
    omega

/-- The two bytes of a segment header are written as they were read. -/
theorem segmentBytes_eq (b2 b3 : UInt8) :
    UInt8.ofNat ((((b2.toNat >>> 7) &&& 0x01 != 0).toNat &&& 0x01) <<< 7
        ||| (((b2.toNat &&& 0x7F) <<< 8 ||| (b3.toNat &&& 0xFF)) &&& 0x7F00) >>> 8) = b2 ∧
      UInt8.ofNat (((b2.toNat &&& 0x7F) <<< 8 ||| (b3.toNat &&& 0xFF)) &&& 0x00FF) = b3 := by
  have h2 := b2.toNat_lt
  have h3 := b3.toNat_lt
  have hbit : ((b2.toNat >>> 7) &&& 0x01 != 0).toNat = b2.toNat / 128 % 2 := by
    rw [shiftRight_and_0x01]
    rcases Nat.mod_two_eq_zero_or_one (b2.toNat / 2 ^ 7) with h | h
    · rw [h]
      exact h.symm
    · rw [h]
      exact h.symm
  rw [hbit, and_0x7F, and_0xFF, and_0x01, shiftLeft_or (show b3.toNat % 256 < 2 ^ 8 by omega)]
  refine ⟨UInt8.toNat_inj.mp ?_, UInt8.toNat_inj.mp ?_⟩
  · rw [and_0x7F00, shiftLeft_or (by omega), UInt8.toNat_ofNat']
    omega
  · rw [toNat_lowByte]
    omega

/-- The nibble behind an odd number of length indicators is zero, in a whole PDU. -/
def HeaderPaddingZero (payload : Bytes) (header : AmdPduHeader) : Prop :=
  header.li.length % 2 = 1 →
    ∀ b, payload[amPackedLength header - 1]? = some b → b.toNat &&& 0x0F = 0

/-- The padding is behind the fixed part. -/
theorem HeaderPaddingZero.extensionPart (front : Bytes) {pl : Bytes} {header : AmdPduHeader}
    (h : HeaderPaddingZero (front ++ pl) header)
    (hfront : front.length = 2 + if header.rf then 2 else 0) : PaddingZero pl header.li := by
  intro hodd b hb
  refine h hodd b ?_
  rw [amPackedLength, ← hfront, List.getElem?_append_right (by omega), ← hb]
  congr 1
  omega

/-- The header that is read from a PDU is written with the bytes it came from. -/
theorem writeDataPduHeader_read {payload data : Bytes} {header : AmdPduHeader}
    (h : readDataPduHeader payload = some (header, data)) (hdc : header.dc = .dataPdu)
    (hpad : HeaderPaddingZero payload header) : writeDataPduHeader header ++ data = payload := by
  cases payload with
  | nil => cases h
  | cons b0 rest =>
    rw [readDataPduHeader_cons] at h
    by_cases h7 : (b0.toNat >>> 7) &&& 0x01 = 0
    · rw [if_pos h7] at h
      obtain ⟨rfl, -⟩ := Prod.mk.inj (Option.some.inj h)
      cases hdc
    rw [if_neg h7] at h
    have hbit : (b0.toNat >>> 2) &&& 0x01 = 0 ∨ (b0.toNat >>> 2) &&& 0x01 = 1 := by
      rw [and_0x01]
      omega
    have hfirst := firstByte_eq ⟨b0.toNat, b0.toNat_lt⟩ h7
    cases rest with
    | nil => cases h
    | cons b1 tail =>
      obtain ⟨hhigh, hlow⟩ := snBytes_eq b0 b1
      simp only at h
      -- A segment has two more bytes in front of the extension part.
      by_cases hrf : ((b0.toNat >>> 6) &&& 0x01 != 0) = true
      · rw [if_pos hrf] at h
        obtain ⟨⟨hdr, pl⟩, hseg, hext⟩ := Option.bind_eq_some_iff.mp h
        cases tail with
        | nil => cases hseg
        | cons b2 tail =>
          cases tail with
          | nil => cases hseg
          | cons b3 tail =>
            obtain ⟨rfl, rfl⟩ := Prod.mk.inj (Option.some.inj hseg)
            obtain ⟨lis, rfl, hli, hlis⟩ :=
              extensionPart_inv (AmdPduHeader.mk .dataPdu _ _ _ _ _ _) hbit hext
            obtain ⟨hlsf, hso⟩ := segmentBytes_eq b2 b3
            have hbytes := hlis (HeaderPaddingZero.extensionPart [b0, b1, b2, b3] hpad
              (by simp only [hrf]; rfl))
            simp only [writeDataPduHeader, DcField.toNat, hli, hhigh, hlow, hlsf, hso]
            rw [hfirst, if_pos hrf, UInt8.ofNat_toNat, List.append_assoc, hbytes]
            rfl
      · rw [if_neg hrf] at h
        obtain ⟨lis, rfl, hli, hlis⟩ :=
          extensionPart_inv (AmdPduHeader.mk .dataPdu _ _ _ _ _ _) hbit h
        have hbytes := hlis (HeaderPaddingZero.extensionPart [b0, b1] hpad
          (by simp only [if_neg hrf]; rfl))
        simp only [writeDataPduHeader, DcField.toNat, hli, hhigh, hlow]
        rw [hfirst, if_neg hrf, UInt8.ofNat_toNat, List.append_assoc, hbytes]
        rfl

/-- The header without the fields that are only sent with a segment. -/
def significantHeader (header : AmdPduHeader) : AmdPduHeader :=
  { header with lsf := header.rf && header.lsf, so := if header.rf then header.so else 0 }

/-- Fields within their widths come through the wire. -/
theorem wireHeader_eq {header : AmdPduHeader} (hsn : header.sn < 1024) (hso : header.so < 32768)
    (hli : ∀ l ∈ header.li, l < 2048) : wireHeader header = significantHeader header := by
  have hlis : header.li.map (· % 2048) = header.li := by
    rw [List.map_congr_left fun l hl => Nat.mod_eq_of_lt (hli l hl), List.map_id']
  rw [wireHeader, significantHeader, hlis, Nat.mod_eq_of_lt hsn, Nat.mod_eq_of_lt hso]

/-- A data header is read back from its bytes, which are as many as `rlc_am_packed_length` says, and
the header that is read from a PDU is written with the bytes that were in front of the payload. -/
theorem amHeader_codec :
    (∀ (header : AmdPduHeader) (data : Bytes), header.dc = .dataPdu → header.sn < 1024 →
      header.so < 32768 → header.li.length ≤ 512 → (∀ l ∈ header.li, l < 2048) →
      readDataPduHeader (writeDataPduHeader header ++ data)
        = some (significantHeader header, data) ∧
        (writeDataPduHeader header).length = amPackedLength header) ∧
    ∀ (payload : Bytes) (header : AmdPduHeader) (data : Bytes),
      readDataPduHeader payload = some (header, data) → header.dc = .dataPdu →
      HeaderPaddingZero payload header → writeDataPduHeader header ++ data = payload := by
  refine ⟨fun header data hdc hsn hso hlen hli => ⟨?_, length_writeDataPduHeader header⟩,
    fun payload header data => writeDataPduHeader_read⟩
  rw [readDataPduHeader_write header hdc hlen, wireHeader_eq hsn hso hli]

/-- A segment with three length indicators and one byte of payload. -/
def threeLis : AmdPduHeader :=
  { dc := .dataPdu, rf := true, p := true, fi := 2#2, sn := 1023, lsf := true, so := 32767
    li := [1500, 0, 2047] }

/-- A segment with three length indicators, and its bytes. -/
theorem amHeader_codec_threeLis :
    readDataPduHeader (writeDataPduHeader threeLis ++ [0xaa]) = some (threeLis, [0xaa]) ∧
      writeDataPduHeader threeLis ++ [0xaa]
        = [0xf7, 0xff, 0xff, 0xff, 0xdd, 0xc8, 0x00, 0x7f, 0xf0, 0xaa] := by
  have hread := (amHeader_codec.1 threeLis [0xaa] rfl (by decide) (by decide) (by decide)
    (by decide)).1
  refine ⟨hread, amHeader_codec.2 [0xf7, 0xff, 0xff, 0xff, 0xdd, 0xc8, 0x00, 0x7f, 0xf0, 0xaa]
    threeLis [0xaa] (by decide) rfl ?_⟩
  intro _ b hb
  obtain rfl : 0xf0 = b := by simpa [threeLis, amPackedLength] using hb
  decide

/-! ### Status PDUs -/

/-- The status PDU without the offsets of NACKs for whole PDUs, which are not sent. -/
def significantStatus (status : StatusPdu) : StatusPdu :=
  { status with
    nacks := status.nacks.map fun n => if n.hasSo then n else { n with soStart := 0, soEnd := 0 } }

/-- The fields of a NACK fit their widths. -/
def NackInRange (n : StatusNack) : Prop :=
  n.nackSn < 1024 ∧ (n.hasSo = true → n.soStart < 32768 ∧ n.soEnd < 32768)

/-- Offsets come through the wire with the NACK of a segment only. -/
theorem wireNack_eq {n : StatusNack} (h : NackInRange n) :
    wireNack n = if n.hasSo then n else { n with soStart := 0, soEnd := 0 } := by
  obtain ⟨hsn, hso⟩ := h
  obtain ⟨sn, hasSo, soStart, soEnd⟩ := n
  cases hasSo with
  | false => simp only [wireNack, Nat.mod_eq_of_lt hsn, Bool.false_eq_true, if_false]
  | true =>
    obtain ⟨hstart, hend⟩ := hso rfl
    simp only [wireNack, Nat.mod_eq_of_lt hsn, if_true, Nat.mod_eq_of_lt hstart,
      Nat.mod_eq_of_lt hend]

/-- A status PDU is read back from its bytes, which are as many as `rlc_am_packed_length` says. -/
theorem status_codec (L : SrslteBit) (status : StatusPdu) (hack : status.ackSn < 1024)
    (hlen : status.nacks.length ≤ 512) (hnacks : ∀ n ∈ status.nacks, NackInRange n) :
    readStatusPdu L (writeStatusPdu L status) = some (significantStatus status) ∧
      (writeStatusPdu L status).length = statusPackedLength status := by
  refine ⟨?_, length_writeStatusPdu L status⟩
  rw [readStatusPdu_write L status hlen, wireStatus, significantStatus, Nat.mod_eq_of_lt hack,
    List.map_congr_left fun n hn => wireNack_eq (hnacks n hn)]

/-- One NACK for a whole PDU and one for a part. -/
def twoNacks : StatusPdu :=
  { ackSn := 1023
    nacks := [{ nackSn := 5 }, { nackSn := 1022, hasSo := true, soStart := 0, soEnd := 32767 }] }

/-- A NACK for a PDU and one for a segment, in nine bytes. -/
theorem status_codec_twoNacks :
    readStatusPdu msbFirst (writeStatusPdu msbFirst twoNacks) = some twoNacks ∧
      (writeStatusPdu msbFirst twoNacks).length = 9 :=
  status_codec msbFirst twoNacks (by decide) (by decide) fun n hn => by
    simp only [twoNacks, List.mem_cons, List.not_mem_nil, or_false] at hn
    rcases hn with rfl | rfl
    · exact ⟨by decide, fun h => by cases h⟩
    · exact ⟨by decide, fun _ => ⟨by decide, by decide⟩⟩

end SrsUE.Proofs.Rlc
