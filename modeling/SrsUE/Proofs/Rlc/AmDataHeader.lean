import SrsUE.Rlc.AmPdu

/-!
# `SrsUE.Proofs.Rlc.AmDataHeader`: packing and unpacking a data header

`readDataPduHeader_write` says what `rlc_am_read_data_pdu_header` reads from the bytes of
`rlc_am_write_data_pdu_header`: the same header, each field cut down to its width on the
wire (`wireHeader`), and the payload behind it untouched. A header whose fields fit their
widths is therefore read back unchanged.
-/

set_option autoImplicit false

namespace SrsUE.Proofs.Rlc

open SrsUE.Rlc

/-! ### Shifts and masks -/

/-- A field of `k` bits at bit `s` of a value. -/
theorem mask_shiftRight (x s k : Nat) : (x &&& (2 ^ k - 1) <<< s) >>> s = x / 2 ^ s % 2 ^ k := by
  rw [Nat.shiftRight_and_distrib, Nat.shiftLeft_shiftRight, Nat.and_two_pow_sub_one_eq_mod,
    Nat.shiftRight_eq_div_pow]

/-- Joining a shifted value with one that fits below it. -/
theorem shiftLeft_or {a b s : Nat} (h : b < 2 ^ s) : a <<< s ||| b = a * 2 ^ s + b := by
  rw [← Nat.shiftLeft_add_eq_or_of_lt h, Nat.shiftLeft_eq]

/-- The mask leaves one bit. -/
theorem and_0x01 (x : Nat) : x &&& 0x01 = x % 2 := Nat.and_two_pow_sub_one_eq_mod x 1

/-- The mask leaves three bits. -/
theorem and_0x07 (x : Nat) : x &&& 0x07 = x % 8 := Nat.and_two_pow_sub_one_eq_mod x 3

/-- The mask leaves four bits. -/
theorem and_0x0F (x : Nat) : x &&& 0x00F = x % 16 := Nat.and_two_pow_sub_one_eq_mod x 4

/-- The mask leaves seven bits. -/
theorem and_0x7F (x : Nat) : x &&& 0x7F = x % 128 := Nat.and_two_pow_sub_one_eq_mod x 7

/-- The mask leaves a byte. -/
theorem and_0xFF (x : Nat) : x &&& 0xFF = x % 256 := Nat.and_two_pow_sub_one_eq_mod x 8

/-- The mask leaves the upper half of a byte. -/
theorem and_0xF0 (x : Nat) : (x &&& 0xF0) >>> 4 = x / 16 % 16 := mask_shiftRight x 4 4

/-- The mask leaves the seven upper bits of a length indicator. -/
theorem and_0x7F0 (x : Nat) : (x &&& 0x7F0) >>> 4 = x / 16 % 128 := mask_shiftRight x 4 7

/-- The mask leaves the two upper bits of a sequence number. -/
theorem and_0x300 (x : Nat) : (x &&& 0x300) >>> 8 = x / 256 % 4 := mask_shiftRight x 8 2

/-- The mask leaves the three upper bits of a length indicator. -/
theorem and_0x700 (x : Nat) : (x &&& 0x700) >>> 8 = x / 256 % 8 := mask_shiftRight x 8 3

/-- The mask leaves the seven upper bits of an offset. -/
theorem and_0x7F00 (x : Nat) : (x &&& 0x7F00) >>> 8 = x / 256 % 128 := mask_shiftRight x 8 7

/-- One bit of a number. -/
theorem shiftRight_and_0x01 (x s : Nat) : (x >>> s) &&& 0x01 = x / 2 ^ s % 2 := by
  rw [and_0x01, Nat.shiftRight_eq_div_pow]

/-! ### The extension part -/

/-- The first byte of a pair of length indicators: the extension bit and seven bits. -/
theorem toNat_liByte (ext li : Nat) :
    (UInt8.ofNat ((ext &&& 0x01) <<< 7 ||| (li &&& 0x7F0) >>> 4)).toNat
      = ext % 2 * 128 + li / 16 % 128 := by
  rw [and_0x01, and_0x7F0, shiftLeft_or (by omega), UInt8.toNat_ofNat']
  omega

/-- The shared byte of a pair: four bits, the extension bit and three bits. -/
theorem toNat_liSharedByte (ext li li' : Nat) :
    (UInt8.ofNat ((li &&& 0x00F) <<< 4 ||| (ext &&& 0x01) <<< 3 ||| (li' &&& 0x700) >>> 8)).toNat
      = li % 16 * 16 + ext % 2 * 8 + li' / 256 % 8 := by
  have hlow : (ext % 2) <<< 3 ||| li' / 256 % 8 = ext % 2 * 8 + li' / 256 % 8 :=
    shiftLeft_or (by omega)
  rw [and_0x01, and_0x0F, and_0x700, Nat.or_assoc, hlow, shiftLeft_or (by omega),
    UInt8.toNat_ofNat']
  omega

/-- The last byte of an odd number of length indicators, with the padding. -/
theorem toNat_liLastByte (li : Nat) :
    (UInt8.ofNat ((li &&& 0x00F) <<< 4)).toNat = li % 16 * 16 := by
  rw [and_0x0F, Nat.shiftLeft_eq, UInt8.toNat_ofNat']
  omega

/-- The low byte of a number. -/
theorem toNat_lowByte (x : Nat) : (UInt8.ofNat (x &&& 0xFF)).toNat = x % 256 := by
  rw [and_0xFF, UInt8.toNat_ofNat']
  omega

/-- The first length indicator of a pair, read back from its two bytes. -/
theorem readLi_even (b0 b1 : Nat) (h1 : b1 < 256) :
    (b0 &&& 0x7F) <<< 4 ||| (b1 &&& 0xF0) >>> 4 = b0 % 128 * 16 + b1 / 16 := by
  rw [and_0x7F, and_0xF0, shiftLeft_or (by omega)]
  omega

/-- The second length indicator of a pair. -/
theorem readLi_odd (b1 b2 : Nat) (h2 : b2 < 256) :
    (b1 &&& 0x07) <<< 8 ||| (b2 &&& 0xFF) = b1 % 8 * 256 + b2 := by
  rw [and_0x07, and_0xFF, shiftLeft_or (by omega)]
  omega

/-- One round of the reader's loop ends after the first length indicator of a pair. -/
theorem readLis_one {b0 b1 : UInt8} (rest : Bytes) (h : (b0.toNat >>> 7) &&& 0x01 = 0) :
    readLis (b0 :: b1 :: rest)
      = some ([(b0.toNat &&& 0x7F) <<< 4 ||| (b1.toNat &&& 0xF0) >>> 4], rest) := by
  rw [readLis.eq_def]
  exact if_pos h

/-- One round of the reader's loop reads a pair. -/
theorem readLis_two {b0 b1 b2 : UInt8} (rest : Bytes) (h : ¬ (b0.toNat >>> 7) &&& 0x01 = 0) :
    readLis (b0 :: b1 :: b2 :: rest)
      = if (b1.toNat >>> 3) &&& 0x01 = 0 then
          some ([(b0.toNat &&& 0x7F) <<< 4 ||| (b1.toNat &&& 0xF0) >>> 4,
            (b1.toNat &&& 0x07) <<< 8 ||| (b2.toNat &&& 0xFF)], rest)
        else (readLis rest).map fun r =>
          (((b0.toNat &&& 0x7F) <<< 4 ||| (b1.toNat &&& 0xF0) >>> 4)
            :: ((b1.toNat &&& 0x07) <<< 8 ||| (b2.toNat &&& 0xFF)) :: r.1, r.2) := by
  rw [readLis.eq_def]
  exact if_neg h

/-- The reader's loop inverts the writer's, up to the eleven bits of a length
indicator. -/
theorem readLis_writeLis (lis : List Nat) (hne : lis ≠ []) (data : Bytes) :
    readLis (writeLis lis ++ data) = some (lis.map (· % 2048), data) := by
  induction lis using writeLis.induct with
  | case1 => exact absurd rfl hne
  | case2 li =>
    rw [writeLis, List.cons_append, List.cons_append, List.nil_append, readLis_one]
    · rw [readLi_even _ _ (UInt8.toNat_lt _), toNat_liByte, toNat_liLastByte]
      simp only [List.map_cons, List.map_nil, Option.some.injEq, Prod.mk.injEq, and_true,
        List.cons.injEq]
      omega
    · rw [shiftRight_and_0x01, toNat_liByte]
      omega
  | case3 li li' lis ih =>
    -- Two length indicators share three bytes, and the extension bit of the second says whether
    -- more follow.
    generalize hext' : (if lis.isEmpty then 0 else 1) = ext
    have hfirst : (UInt8.ofNat ((1 &&& 0x01) <<< 7 ||| (li &&& 0x7F0) >>> 4)).toNat % 128 * 16
        + (UInt8.ofNat ((li &&& 0x00F) <<< 4 ||| (ext &&& 0x01) <<< 3
            ||| (li' &&& 0x700) >>> 8)).toNat / 16 = li % 2048 := by
      rw [toNat_liByte, toNat_liSharedByte]
      omega
    have hsecond : (UInt8.ofNat ((li &&& 0x00F) <<< 4 ||| (ext &&& 0x01) <<< 3
        ||| (li' &&& 0x700) >>> 8)).toNat % 8 * 256 + (UInt8.ofNat (li' &&& 0x0FF)).toNat
        = li' % 2048 := by
      rw [toNat_liSharedByte, toNat_lowByte]
      omega
    have hext : ((UInt8.ofNat ((li &&& 0x00F) <<< 4 ||| (ext &&& 0x01) <<< 3
        ||| (li' &&& 0x700) >>> 8)).toNat >>> 3) &&& 0x01 = ext % 2 := by
      rw [shiftRight_and_0x01, toNat_liSharedByte]
      omega
    rw [writeLis]
    simp only [hext', List.cons_append, List.nil_append]
    rw [readLis_two]
    · rw [readLi_even _ _ (UInt8.toNat_lt _), readLi_odd _ _ (UInt8.toNat_lt _), hfirst, hsecond,
        hext]
      cases lis with
      | nil => simp [← hext', writeLis]
      | cons l ls =>
        rw [if_neg (by simp [← hext']), ih (by simp)]
        simp
    · rw [shiftRight_and_0x01, toNat_liByte]
      omega

/-! ### What is read -/

/-- In front of the extension part a header has no length indicators, so the test for the room of
the `li` array may stand where they are stored. `withLi` puts length indicators into the header. -/
theorem extensionPart_room {τ : Type} {li : τ → List Nat} {header : τ} {withLi : List Nat → τ}
    (hnone : li header = []) (hli : ∀ lis, li (withLi lis) = lis) (ext : Nat) (payload : Bytes) :
    ((if ext = 0 then some (header, payload)
      else (readLis payload).bind fun r => some (withLi r.1, r.2)).bind fun r =>
        if (li r.1).length ≤ 512 then some (r.1, r.2) else none)
    = if ext = 0 then some (header, payload)
      else (readLis payload).bind fun r =>
        if r.1.length ≤ 512 then some (withLi r.1, r.2) else none := by
  split
  · rw [Option.bind_some, hnone]
    rfl
  · rw [Option.bind_assoc]
    simp only [Option.bind_some, hli]

/-- The reader, with the test for the room of the `li` array where the length indicators are
stored. -/
theorem readDataPduHeader_cons (b0 : UInt8) (rest : Bytes) :
    readDataPduHeader (b0 :: rest) =
      if (b0.toNat >>> 7) &&& 0x01 = 0 then some ({ dc := .controlPdu }, b0 :: rest)
      else
        match rest with
        | b1 :: rest' => do
          let header : AmdPduHeader :=
            { dc := .dataPdu
              rf := (b0.toNat >>> 6) &&& 0x01 != 0
              p := (b0.toNat >>> 5) &&& 0x01 != 0
              fi := .ofNat 2 ((b0.toNat >>> 3) &&& 0x03)
              sn := (b0.toNat &&& 0x03) <<< 8 ||| (b1.toNat &&& 0xFF) }
          let (header, payload) ←
            if header.rf then readSegmentPart header rest' else some (header, rest')
          if (b0.toNat >>> 2) &&& 0x01 = 0 then some (header, payload)
          else do
            let (li, payload) ← readLis payload
            if li.length ≤ 512 then some ({ header with li := li }, payload) else none
        | [] => none := by
  rw [readDataPduHeader, parseDataPduHeader.eq_def]
  simp only
  split
  · rfl
  · cases rest with
    | nil => rfl
    | cons b1 rest =>
      simp only [Option.bind_eq_bind]
      split
      · rcases rest with _ | ⟨b2, _ | ⟨b3, rest⟩⟩
        · rfl
        · rfl
        · exact extensionPart_room rfl (fun _ => rfl) _ _
      · exact extensionPart_room rfl (fun _ => rfl) _ _

/-- The two kinds of header that are read: the bare header of a control PDU, and the header
of a data PDU, whose sequence number has ten bits. -/
theorem readDataPduHeader_cases {b0 : UInt8} {rest : Bytes} {header : AmdPduHeader} {data : Bytes}
    (h : readDataPduHeader (b0 :: rest) = some (header, data)) :
    ((b0.toNat >>> 7) &&& 0x01 = 0 ∧ header = { dc := .controlPdu }) ∨
    (¬ (b0.toNat >>> 7) &&& 0x01 = 0 ∧ header.dc = .dataPdu ∧ header.sn < 1024) := by
  have hbits : ∀ b1 : Nat, (b0.toNat &&& 0x03) <<< 8 ||| (b1 &&& 0xFF) < 1024 := by
    intro b1
    have h0 : b0.toNat &&& 0x03 = b0.toNat % 4 := Nat.and_two_pow_sub_one_eq_mod _ 2
    rw [h0, and_0xFF, shiftLeft_or (by omega)]
    omega
  -- The length indicators change neither field.
  have htail : ∀ (ext : Nat) (hdr : AmdPduHeader) (pl : Bytes), hdr.dc = .dataPdu →
      hdr.sn < 1024 →
      (if ext = 0 then some (hdr, pl)
        else (readLis pl).bind fun r =>
          if r.1.length ≤ 512 then some ({ hdr with li := r.1 }, r.2) else none)
        = some (header, data) → header.dc = .dataPdu ∧ header.sn < 1024 := by
    intro ext hdr pl hdc hsn heq
    split at heq
    · obtain ⟨rfl, -⟩ := Prod.mk.inj (Option.some.inj heq)
      exact ⟨hdc, hsn⟩
    · obtain ⟨r, -, heq⟩ := Option.bind_eq_some_iff.mp heq
      split at heq
      · obtain ⟨rfl, -⟩ := Prod.mk.inj (Option.some.inj heq)
        exact ⟨hdc, hsn⟩
      · cases heq
  rw [readDataPduHeader_cons] at h
  simp only at h
  split at h
  · rename_i h0
    obtain ⟨rfl, -⟩ := Prod.mk.inj (Option.some.inj h)
    exact .inl ⟨h0, rfl⟩
  · rename_i h0
    refine .inr ⟨h0, ?_⟩
    split at h
    · split at h
      · obtain ⟨⟨hdr, pl⟩, hseg, h⟩ := Option.bind_eq_some_iff.mp h
        unfold readSegmentPart at hseg
        split at hseg
        · obtain ⟨rfl, rfl⟩ := Prod.mk.inj (Option.some.inj hseg)
          exact htail _ _ _ rfl (hbits _) h
        · cases hseg
      · exact htail _ _ _ rfl (hbits _) h
    · cases h

/-! ### The whole header -/

/-- The header as it comes through the wire: every field cut down to its width. `lsf` and
`so` are sent with a segment only. -/
def wireHeader (header : AmdPduHeader) : AmdPduHeader :=
  { header with
    sn := header.sn % 1024
    lsf := header.rf && header.lsf
    so := if header.rf then header.so % 32768 else 0
    li := header.li.map (· % 2048) }

/-- The first byte of a data header, read back field by field. -/
theorem firstByte_fields : ∀ (rf p ext : Bool) (fi : FiField) (hi : Fin 4),
    let b := (UInt8.ofNat ((1 &&& 0x01) <<< 7 ||| (rf.toNat &&& 0x01) <<< 6
      ||| (p.toNat &&& 0x01) <<< 5 ||| (fi.toNat &&& 0x03) <<< 3
      ||| (ext.toNat &&& 0x01) <<< 2 ||| hi.val)).toNat
    (b >>> 7) &&& 0x01 = 1 ∧ ((b >>> 6) &&& 0x01 != 0) = rf ∧ ((b >>> 5) &&& 0x01 != 0) = p ∧
      BitVec.ofNat 2 ((b >>> 3) &&& 0x03) = fi ∧ (b >>> 2) &&& 0x01 = ext.toNat ∧
      b &&& 0x03 = hi.val := by
  decide

/-- The two bytes of the segment part, read back. -/
theorem segmentPart_fields (lsf : Bool) (so : Nat) :
    let b := (UInt8.ofNat ((lsf.toNat &&& 0x01) <<< 7 ||| (so &&& 0x7F00) >>> 8)).toNat
    ((b >>> 7) &&& 0x01 != 0) = lsf ∧
      (b &&& 0x7F) <<< 8 ||| ((UInt8.ofNat (so &&& 0x00FF)).toNat &&& 0xFF) = so % 32768 := by
  have hb : (UInt8.ofNat ((lsf.toNat &&& 0x01) <<< 7 ||| (so &&& 0x7F00) >>> 8)).toNat
      = lsf.toNat % 2 * 128 + so / 256 % 128 := by
    rw [and_0x01, and_0x7F00, shiftLeft_or (by omega), UInt8.toNat_ofNat']
    omega
  simp only [hb]
  constructor
  · rw [shiftRight_and_0x01]
    cases lsf <;> simp
  · have hlow := toNat_lowByte so
    rw [and_0x7F, and_0xFF, shiftLeft_or (by omega)]
    rw [hlow]
    omega

/-- What is read from a written data header: the header as it comes through the wire, and
the payload. -/
theorem parseDataPduHeader_write (header : AmdPduHeader) (hdc : header.dc = .dataPdu)
    (data : Bytes) :
    parseDataPduHeader (writeDataPduHeader header ++ data) = some (wireHeader header, data) := by
  obtain ⟨dc, rf, p, fi, sn, lsf, so, li⟩ := header
  simp only at hdc
  subst hdc
  have hi : sn / 256 % 4 < 4 := by omega
  obtain ⟨h7, h6, h5, h3, h2, h0⟩ := firstByte_fields rf p (!li.isEmpty) fi ⟨sn / 256 % 4, hi⟩
  have hext : (!li.isEmpty).toNat = if li.isEmpty then 0 else 1 := by
    cases li <;> rfl
  obtain ⟨hlsf, hso⟩ := segmentPart_fields lsf so
  rw [hext] at h7 h6 h5 h3 h2 h0
  have hsn : (sn / 256 % 4) <<< 8 ||| ((UInt8.ofNat (sn &&& 0xFF)).toNat &&& 0xFF) = sn % 1024 := by
    rw [toNat_lowByte, and_0xFF, shiftLeft_or (by omega)]
    omega
  unfold writeDataPduHeader
  simp only [DcField.toNat, and_0x300, List.cons_append, List.nil_append, parseDataPduHeader]
  rw [if_neg (by rw [h7]; omega)]
  simp only [h6, h5, h3, h0, h2, hsn]
  cases rf <;> cases li <;>
    simp_all [readSegmentPart, wireHeader, writeLis, readLis_writeLis]

/-- The reader gets a written header when its array has the room. -/
theorem readDataPduHeader_write (header : AmdPduHeader) (hdc : header.dc = .dataPdu)
    (hli : header.li.length ≤ 512) (data : Bytes) :
    readDataPduHeader (writeDataPduHeader header ++ data) = some (wireHeader header, data) := by
  rw [readDataPduHeader, parseDataPduHeader_write header hdc]
  exact if_pos (by simpa [wireHeader] using hli)

end SrsUE.Proofs.Rlc
