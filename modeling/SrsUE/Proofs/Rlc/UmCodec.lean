import SrsUE.Proofs.Rlc.AmCodec
import SrsUE.Proofs.Rlc.UmPdus

/-!
# `SrsUE.Proofs.Rlc.UmCodec`: UMD headers as a codec

`umReadDataPduHeader_write` of `UmPdus` reads a written header back. This module has the other
direction, and ties both to `rlc_um_packed_length`, by which `handle_data_pdu` strips the header:
the reader itself does not say how many bytes it took.

* `writeDataPduHeader_umRead`: what was read from a PDU is written again with the same bytes. The
  writer clears the three reserved bits of the long format and the nibble behind an odd number of
  length indicators, so these must be zero.
* `umHeader_codec`: both directions, for both formats, and the header fits in front of `msg`.
-/

set_option autoImplicit false

namespace SrsUE.Proofs.Rlc

open SrsUE.Rlc

/-! ### The fixed part -/

/-- The three bits in front of the FI in the format with a 10-bit SN are zero. -/
def UmReservedZero : UmdSnSize → Bytes → Prop
  | .size10Bits, b0 :: _ => b0.toNat &&& 0xE0 = 0
  | _, _ => True

/-- The fields of the first byte, with an SN of five bits. -/
theorem umFirstByte5_eq : ∀ b : Fin 256,
    ((BitVec.ofNat 2 ((b.val >>> 6) &&& 0x03)).toNat &&& 0x03) <<< 6
      ||| (((b.val >>> 5) &&& 0x01) &&& 0x01) <<< 5 ||| ((b.val &&& 0x1F) &&& 0x1F) = b.val := by
  decide +kernel

/-- The fields of the first byte, with an SN of ten bits and the reserved bits clear. -/
theorem umFirstByte10_eq : ∀ b : Fin 256, b.val &&& 0xE0 = 0 →
    ((BitVec.ofNat 2 ((b.val >>> 3) &&& 0x03)).toNat &&& 0x03) <<< 3
      ||| (((b.val >>> 2) &&& 0x01) &&& 0x01) <<< 2 ||| b.val &&& 0x03 = b.val := by
  decide +kernel

/-- What is read of the fixed part says how long it was. -/
theorem umReadFixedPart_spec {snSize : UmdSnSize} {payload rest : Bytes} {ext : Nat}
    {header : UmdPduHeader} (h : Um.readFixedPart snSize payload = some (ext, header, rest)) :
    (ext = 0 ∨ ext = 1) ∧ header.li = [] ∧ header.snSize = snSize ∧
      rest = payload.drop (Um.fixedLength snSize) ∧ Um.fixedLength snSize ≤ payload.length := by
  have hbit : ∀ x, x &&& 0x01 = 0 ∨ x &&& 0x01 = 1 := by
    intro x
    rw [and_0x01]
    omega
  cases snSize with
  | size5Bits =>
    rcases payload with _ | ⟨b0, tail⟩
    · cases h
    · cases h
      exact ⟨hbit _, rfl, rfl, rfl, Nat.le_add_left _ _⟩
  | size10Bits =>
    rcases payload with _ | ⟨b0, _ | ⟨b1, tail⟩⟩
    · cases h
    · cases h
    · cases h
      exact ⟨hbit _, rfl, rfl, rfl, Nat.le_add_left _ _⟩

/-- The bytes of the fixed part are written again in front of any length indicators, if the
extension bit says whether there are some. -/
theorem umWriteFixedPart_read {snSize : UmdSnSize} {payload rest : Bytes} {ext : Nat}
    {header : UmdPduHeader} (h : Um.readFixedPart snSize payload = some (ext, header, rest))
    (hres : UmReservedZero snSize payload) {lis : List Nat}
    (hext : (if lis.isEmpty then 0 else 1) = ext) :
    Um.writeDataPduHeader { header with li := lis }
      = payload.take (Um.fixedLength snSize) ++ writeLis lis := by
  cases snSize with
  | size5Bits =>
    rcases payload with _ | ⟨b0, tail⟩
    · cases h
    · cases h
      have hb0 := umFirstByte5_eq ⟨b0.toNat, b0.toNat_lt⟩
      simp only [Um.writeDataPduHeader, hext]
      rw [hb0, UInt8.ofNat_toNat]
      rfl
  | size10Bits =>
    rcases payload with _ | ⟨b0, _ | ⟨b1, tail⟩⟩
    · cases h
    · cases h
    · cases h
      have hb0 := umFirstByte10_eq ⟨b0.toNat, b0.toNat_lt⟩ hres
      -- The two high bits of the SN share the first byte with the FI and the extension bit.
      obtain ⟨hhigh, hlow⟩ := snBytes_eq b0 b1
      simp only [Um.writeDataPduHeader, hext, hhigh, hlow]
      rw [hb0, UInt8.ofNat_toNat]
      rfl

/-! ### The whole header -/

/-- The nibble behind an odd number of length indicators is zero. -/
def UmPaddingZero (payload : Bytes) (header : UmdPduHeader) : Prop :=
  header.li.length % 2 = 1 →
    ∀ b, payload[Um.packedLength header - 1]? = some b → b.toNat &&& 0x0F = 0

/-- The padding is behind the fixed part. -/
theorem UmPaddingZero.extensionPart {payload : Bytes} {header : UmdPduHeader}
    (h : UmPaddingZero payload header) :
    PaddingZero (payload.drop (Um.fixedLength header.snSize)) header.li := by
  intro hodd b hb
  refine h hodd b ?_
  rw [List.getElem?_drop] at hb
  rw [← hb, Um.packedLength]
  congr 1
  omega

/-- A header is as long as `packed_length` says. -/
theorem length_umWriteDataPduHeader_packed (header : UmdPduHeader) :
    (Um.writeDataPduHeader header).length = Um.packedLength header := by
  rw [length_umWriteDataPduHeader]
  rfl

/-- The header that is read from a PDU is written with the bytes it came from. -/
theorem writeDataPduHeader_umRead {snSize : UmdSnSize} {payload data : Bytes}
    {header : UmdPduHeader} (h : Um.readDataPduHeader snSize payload = some (header, data))
    (hres : UmReservedZero snSize payload) (hpad : UmPaddingZero payload header) :
    Um.writeDataPduHeader header ++ data = payload := by
  rw [umReadDataPduHeader_eq] at h
  obtain ⟨⟨ext, fixed, rest⟩, hfixed, hrest⟩ := Option.bind_eq_some_iff.mp h
  obtain ⟨hext, hnil, hsize, rfl, -⟩ := umReadFixedPart_spec hfixed
  have hfixed' : fixed = { fixed with li := [] } := by rw [← hnil]
  obtain ⟨lis, rfl, hli, hlis⟩ : ∃ lis, header = { fixed with li := lis } ∧
      (if lis.isEmpty then 0 else 1) = ext ∧
      (PaddingZero (payload.drop (Um.fixedLength snSize)) lis →
        writeLis lis ++ data = payload.drop (Um.fixedLength snSize)) := by
    refine extensionPart_inv (fun lis => { fixed with li := lis }) hext ?_
    rw [← hfixed']
    exact hrest
  have hbytes := hlis (by rw [← hsize]; exact hpad.extensionPart)
  rw [umWriteFixedPart_read hfixed hres hli, List.append_assoc, hbytes, List.take_append_drop]

/-- A header whose fields fit is read back from its bytes, and the data begins where
`rlc_um_packed_length` says; the header that is read from a PDU is written with the bytes in front
of the data. -/
theorem umHeader_codec :
    (∀ (header : UmdPduHeader) (data : Bytes),
      header.sn < (Um.configure header.snSize).txMod → header.li.length ≤ 512 →
      (∀ l ∈ header.li, l < 2048) →
      let pdu := Um.writeDataPduHeader header ++ data
      Um.packedLength header ≤ bufferHeaderOffset ∧
        Um.readDataPduHeader header.snSize pdu
          = some (header, pdu.drop (Um.packedLength header)) ∧
        pdu.drop (Um.packedLength header) = data) ∧
    ∀ (snSize : UmdSnSize) (payload : Bytes) (header : UmdPduHeader) (rest : Bytes),
      Um.readDataPduHeader snSize payload = some (header, rest) →
      UmReservedZero snSize payload → UmPaddingZero payload header →
      Um.writeDataPduHeader header = payload.take (Um.packedLength header) ∧
        rest = payload.drop (Um.packedLength header) := by
  refine ⟨fun header data hsn hlen hli => ?_, fun snSize payload header rest h hres hpad => ?_⟩
  · have hfixed : Um.fixedLength header.snSize ≤ 2 := by
      cases header.snSize <;> decide
    have hwidth : (Um.configure header.snSize).txMod = 2 * umWidth header.snSize := by
      cases header.snSize <;> rfl
    have hdrop : (Um.writeDataPduHeader header ++ data).drop (Um.packedLength header) = data := by
      rw [← length_umWriteDataPduHeader_packed, List.drop_left]
    refine ⟨?_, ?_, hdrop⟩
    · rw [Um.packedLength, bufferHeaderOffset]
      omega
    · rw [hdrop]
      exact umReadDataPduHeader_write (hwidth ▸ hsn) hli hlen data
  · have hpdu := writeDataPduHeader_umRead h hres hpad
    rw [← length_umWriteDataPduHeader_packed, ← hpdu]
    exact ⟨List.take_left.symm, List.drop_left.symm⟩

/-- Three length indicators in the long format, and two bytes of payload. -/
def umThreeLis : UmdPduHeader :=
  { fi := 2#2, snSize := .size10Bits, sn := 770, li := [1500, 0, 2047] }

/-- A header with three length indicators, and its bytes. -/
theorem umHeader_codec_threeLis :
    Um.readDataPduHeader .size10Bits (Um.writeDataPduHeader umThreeLis ++ [0xaa, 0xbb])
        = some (umThreeLis, [0xaa, 0xbb]) ∧
      Um.writeDataPduHeader umThreeLis = [0x17, 0x02, 0xdd, 0xc8, 0x00, 0x7f, 0xf0] := by
  refine ⟨(umHeader_codec.1 umThreeLis [0xaa, 0xbb] (by decide) (by decide) (by decide)).2.1,
    (umHeader_codec.2 .size10Bits [0x17, 0x02, 0xdd, 0xc8, 0x00, 0x7f, 0xf0, 0xaa, 0xbb] umThreeLis
      [0xaa, 0xbb] (by decide) rfl ?_).1⟩
  intro _ b hb
  obtain rfl : 0xf0 = b := by simpa [umThreeLis, Um.packedLength, Um.fixedLength] using hb
  decide

end SrsUE.Proofs.Rlc
