import SrsUE.Proofs.Mac.SchWrite

/-!
# `SrsUE.Proofs.Mac.SchFrame`: reading back a MAC PDU

Nothing here depends on `SchPdu`. A PDU is a list of elements, each with its type or channel and its
payload: all subheaders come first and then all payloads (`frame`). `parse_packet` finds every
element again, the last one by subtraction (`received_parsePacket`), as long as the receiver has a
slot for each of them (`parsePacket_overrun`).
-/

set_option autoImplicit false

namespace SrsUE.Proofs.Mac

open SrsUE.Mac
open SrsUE.Rlc (Bytes sub32 sub32_of_le)

/-! ### Subheaders as bytes -/

/-- The subheader of an element. -/
def subhOf (x : Nat × Bytes) : SchSubh := { lcid := x.1, nofBytes := x.2.length }

/-- An element that can stand in front of others: the length of an SDU fits its field, and that of
a control element is the one the receiver knows. -/
def Framed (isUl : Bool) (x : Nat × Bytes) : Prop :=
  x.1 < 32 ∧ if x.1 < lcidPhrReport then x.2.length < 2 ^ 15 else sizeofCe x.1 isUl = x.2.length

/-- An element as the receiver sees it from its subheader. -/
def rxOf (x : Nat × Bytes) : RxSubh :=
  { lcid := x.1, nofBytes := x.2.length
    fBit := decide (x.1 < lcidPhrReport ∧ 128 ≤ x.2.length) }

/-- The last element, whose length is not in its subheader. -/
def rxLast (isUl : Bool) (x : Nat × Bytes) : RxSubh :=
  { lcid := x.1, nofBytes := if x.1 < lcidPhrReport then 0 else sizeofCe x.1 isUl }

/-- The first byte of a subheader that another one follows: the E bit and the type. -/
theorem eBit_lcid {lcid : Nat} (h : lcid < 32) :
    (UInt8.ofNat (1 <<< 5 ||| (lcid &&& 0x1f))).toNat &&& 0x20 ≠ 0 ∧
      (UInt8.ofNat (1 <<< 5 ||| (lcid &&& 0x1f))).toNat &&& 0x1f = lcid := by
  revert lcid
  decide

/-- The first byte of the last subheader. -/
theorem noEBit_lcid {lcid : Nat} (h : lcid < 32) :
    (UInt8.ofNat (0 ||| (lcid &&& 0x1f))).toNat &&& 0x20 = 0 ∧
      (UInt8.ofNat (0 ||| (lcid &&& 0x1f))).toNat &&& 0x1f = lcid := by
  revert lcid
  decide

/-- A length of seven bits, with the F bit clear. -/
theorem shortLength {n : Nat} (h : n < 128) :
    (UInt8.ofNat (n &&& 0x7f)).toNat &&& 0x80 = 0 ∧
      (UInt8.ofNat (n &&& 0x7f)).toNat &&& 0x7f = n := by
  revert n
  decide

/-- The upper half of a length of 15 bits, with the F bit set. -/
theorem highLength {a : Nat} (h : a < 128) :
    (UInt8.ofNat (1 <<< 7 ||| a)).toNat &&& 0x80 ≠ 0 ∧
      (UInt8.ofNat (1 <<< 7 ||| a)).toNat &&& 0x7f = a := by
  revert a
  decide

/-- The two halves of such a length. -/
theorem longLength {n : Nat} (h : n < 2 ^ 15) :
    (n &&& 0x7f00) >>> 8 = n / 256 ∧
      (n / 256) <<< 8 ||| ((UInt8.ofNat (n &&& 0xff)).toNat &&& 0xff) = n := by
  have hlow : n &&& 0xff = n % 256 := Nat.and_two_pow_sub_one_eq_mod n 8
  refine ⟨?_, ?_⟩
  · rw [Nat.shiftRight_and_distrib, Nat.shiftRight_eq_div_pow,
      show (0x7f00 >>> 8 : Nat) = 2 ^ 7 - 1 from rfl, Nat.and_two_pow_sub_one_eq_mod]
    omega
  · have hbyte : (UInt8.ofNat (n % 256)).toNat = n % 256 := by
      rw [UInt8.toNat_ofNat']
      omega
    have hmod : n % 256 &&& 0xff = n % 256 := by
      rw [show (0xff : Nat) = 2 ^ 8 - 1 from rfl, Nat.and_two_pow_sub_one_eq_mod, Nat.mod_mod]
    rw [hlow, hbyte, hmod, Nat.shiftLeft_eq, Nat.mul_comm,
      ← Nat.two_pow_add_eq_or_of_lt (show n % 256 < 2 ^ 8 by omega)]
    omega

section
variable {isUl : Bool} {b0 b1 b2 : UInt8} {lcid : Nat} {rest : Bytes}

/-- The subheader of a control element is its first byte. Its length is known. -/
theorem readSubheader_ce (hl : b0.toNat &&& 0x1f = lcid) (hkind : ¬lcid < lcidPhrReport) :
    readSubheader isUl (b0 :: rest) =
      some (b0.toNat &&& 0x20 != 0, { lcid := lcid, nofBytes := sizeofCe lcid isUl }, rest) := by
  simp only [readSubheader.eq_def, hl]
  rw [if_neg hkind]

/-- The subheader of the last SDU is its first byte, too. -/
theorem readSubheader_noLength (hl : b0.toNat &&& 0x1f = lcid) (hkind : lcid < lcidPhrReport)
    (he : b0.toNat &&& 0x20 = 0) :
    readSubheader isUl (b0 :: rest) = some (false, { lcid := lcid, nofBytes := 0 }, rest) := by
  have he : (b0.toNat &&& 0x20 != 0) = false := by rw [he]; rfl
  simp only [readSubheader.eq_def, hl, he]
  rw [if_pos hkind, if_neg Bool.false_ne_true]

/-- An SDU with a length of seven bits. -/
theorem readSubheader_short (hl : b0.toNat &&& 0x1f = lcid) (hkind : lcid < lcidPhrReport)
    (he : b0.toNat &&& 0x20 ≠ 0) (hf : b1.toNat &&& 0x80 = 0) :
    readSubheader isUl (b0 :: b1 :: rest) =
      some (true, { lcid := lcid, nofBytes := b1.toNat &&& 0x7f }, rest) := by
  have he : (b0.toNat &&& 0x20 != 0) = true := bne_iff_ne.mpr he
  have hf : (b1.toNat &&& 0x80 != 0) = false := by rw [hf]; rfl
  simp only [readSubheader.eq_def, hl, he, hf]
  rw [if_pos hkind, if_pos trivial, if_neg Bool.false_ne_true]

/-- An SDU with a length of 15 bits. -/
theorem readSubheader_long (hl : b0.toNat &&& 0x1f = lcid) (hkind : lcid < lcidPhrReport)
    (he : b0.toNat &&& 0x20 ≠ 0) (hf : b1.toNat &&& 0x80 ≠ 0) :
    readSubheader isUl (b0 :: b1 :: b2 :: rest) =
      some (true, { lcid := lcid, fBit := true
                    nofBytes := (b1.toNat &&& 0x7f) <<< 8 ||| (b2.toNat &&& 0xff) }, rest) := by
  have he : (b0.toNat &&& 0x20 != 0) = true := bne_iff_ne.mpr he
  have hf : (b1.toNat &&& 0x80 != 0) = true := bne_iff_ne.mpr hf
  simp only [readSubheader.eq_def, hl, he, hf]
  rw [if_pos hkind, if_pos trivial, if_pos trivial]

end

/-- The subheader of an SDU that others follow. -/
theorem writeSubheader_sdu {s : SchSubh} (hs : s.isSdu = true) :
    s.writeSubheader false = .ofNat (1 <<< 5 ||| (s.lcid &&& 0x1f)) ::
      if 128 ≤ s.nofBytes then
        [.ofNat (1 <<< 7 ||| (s.nofBytes &&& 0x7f00) >>> 8), .ofNat (s.nofBytes &&& 0xff)]
      else [.ofNat (s.nofBytes &&& 0x7f)] := by
  rw [SchSubh.writeSubheader, hs]
  rfl

/-- The subheader of a control element that others follow. -/
theorem writeSubheader_ce {s : SchSubh} (hs : s.isSdu = false) :
    s.writeSubheader false = [.ofNat (1 <<< 5 ||| (s.lcid &&& 0x1f))] := by
  rw [SchSubh.writeSubheader, hs]
  rfl

/-- The last subheader. -/
theorem writeSubheader_last (s : SchSubh) :
    s.writeSubheader true = [.ofNat (0 ||| (s.lcid &&& 0x1f))] := by
  rw [SchSubh.writeSubheader, Bool.not_true, Bool.and_false]
  rfl

/-- The receiver reads the subheader of an element that has others behind it. -/
theorem readSubheader_framed {isUl : Bool} {x : Nat × Bytes} (hx : Framed isUl x) (rest : Bytes) :
    readSubheader isUl ((subhOf x).writeSubheader false ++ rest) = some (true, rxOf x, rest) := by
  obtain ⟨hlcid, hlen⟩ := hx
  obtain ⟨he, hl⟩ := eBit_lcid hlcid
  -- An SDU with a length of one or of two octets, or a control element without one.
  by_cases hkind : x.1 < lcidPhrReport
  · rw [if_pos hkind] at hlen
    rw [writeSubheader_sdu (decide_eq_true hkind)]
    by_cases hlong : 128 ≤ x.2.length
    · obtain ⟨hhigh, hjoin⟩ := longLength hlen
      obtain ⟨hf, ha⟩ := highLength (show x.2.length / 256 < 128 by omega)
      rw [if_pos (show 128 ≤ (subhOf x).nofBytes from hlong)]
      show readSubheader isUl (.ofNat (1 <<< 5 ||| (x.1 &&& 0x1f)) ::
        .ofNat (1 <<< 7 ||| (x.2.length &&& 0x7f00) >>> 8) :: .ofNat (x.2.length &&& 0xff) ::
        rest) = _
      rw [hhigh, readSubheader_long hl hkind he hf, ha]
      rw [hjoin, rxOf, decide_eq_true ⟨hkind, hlong⟩]
    · obtain ⟨hf, hn⟩ := shortLength (show x.2.length < 128 by omega)
      rw [if_neg (show ¬128 ≤ (subhOf x).nofBytes from hlong)]
      show readSubheader isUl (.ofNat (1 <<< 5 ||| (x.1 &&& 0x1f)) ::
        .ofNat (x.2.length &&& 0x7f) :: rest) = _
      rw [readSubheader_short hl hkind he hf, hn, rxOf, decide_eq_false fun h => hlong h.2]
  · rw [if_neg hkind] at hlen
    have hbit : ((UInt8.ofNat (1 <<< 5 ||| (x.1 &&& 0x1f))).toNat &&& 0x20 != 0) = true :=
      bne_iff_ne.mpr he
    rw [writeSubheader_ce (decide_eq_false hkind)]
    show readSubheader isUl (UInt8.ofNat (1 <<< 5 ||| (x.1 &&& 0x1f)) :: rest) = _
    rw [readSubheader_ce hl hkind, hbit, hlen, rxOf, decide_eq_false fun h => hkind h.1]

/-- The last subheader has no length. -/
theorem readSubheader_last {x : Nat × Bytes} (hlcid : x.1 < 32) (isUl : Bool) (rest : Bytes) :
    readSubheader isUl ((subhOf x).writeSubheader true ++ rest)
      = some (false, rxLast isUl x, rest) := by
  obtain ⟨he, hl⟩ := noEBit_lcid hlcid
  rw [writeSubheader_last]
  show readSubheader isUl (UInt8.ofNat (0 ||| (x.1 &&& 0x1f)) :: rest) = _
  rw [rxLast]
  by_cases hkind : x.1 < lcidPhrReport
  · rw [readSubheader_noLength hl hkind he, if_pos hkind]
  · rw [readSubheader_ce hl hkind, he, if_neg hkind]
    rfl

/-! ### A frame -/

/-- All subheaders and then all payloads. -/
def frame (xs : List (Nat × Bytes)) : Bytes := headersOf (xs.map subhOf) ++ xs.flatMap (·.2)

/-- The elements that a receiver takes out of a PDU: type or channel, length and payload. -/
def received (bytes : Bytes) (ss : List RxSubh) : List (Nat × Nat × Bytes) :=
  ss.map fun s => (s.lcid, s.nofBytes, (bytes.drop s.payload).take s.nofBytes)

/-- An element as it should be received. -/
def sent (x : Nat × Bytes) : Nat × Nat × Bytes := (x.1, x.2.length, x.2)

section
variable {isUl : Bool} {front : List (Nat × Bytes)} {last : Nat × Bytes}

/-- The header of some elements, with the last one split off. -/
theorem headersOf_frame (front : List (Nat × Bytes)) (last : Nat × Bytes) :
    headersOf ((front ++ [last]).map subhOf)
      = front.flatMap (fun x => (subhOf x).writeSubheader false)
        ++ (subhOf last).writeSubheader true := by
  rw [List.map_append, List.map_singleton, headersOf_concat, List.flatMap_map]

/-- The loop over the subheaders ends at the last one, if there are slots for all of them. -/
theorem readSubheaders_frame (hfront : ∀ x ∈ front, Framed isUl x) (hlast : last.1 < 32)
    (slots : Nat) (rest : Bytes) :
    readSubheaders isUl slots (front.flatMap (fun x => (subhOf x).writeSubheader false)
        ++ ((subhOf last).writeSubheader true ++ rest))
      = if front.length < slots then some (front.map rxOf ++ [rxLast isUl last], rest)
        else none := by
  -- Induction on the subheaders before the last one, each of which takes a slot.
  induction front generalizing slots with
  | nil =>
    cases slots with
    | zero => rfl
    | succ slots =>
      rw [List.flatMap_nil, List.nil_append, readSubheaders, readSubheader_last hlast]
      rfl
  | cons x front ih =>
    cases slots with
    | zero => rfl
    | succ slots =>
      have ih := ih (fun y hy => hfront y (List.mem_cons_of_mem _ hy)) slots
      rw [List.flatMap_cons, List.append_assoc, readSubheaders,
        readSubheader_framed (hfront x (List.mem_cons_self ..))]
      show ((readSubheaders isUl slots _).map fun r => (rxOf x :: r.1, r.2)) = _
      rw [ih, List.length_cons]
      by_cases hlt : front.length < slots
      · rw [if_pos hlt, if_pos (by omega)]
        rfl
      · rw [if_neg hlt, if_neg (by omega)]
        rfl

/-- Payloads are read one behind the other. -/
theorem readPayloads_append (ptr : Nat) (ss ts : List RxSubh) :
    readPayloads ptr (ss ++ ts)
      = readPayloads ptr ss ++ readPayloads (ptr + (ss.map (·.nofBytes)).sum) ts := by
  induction ss generalizing ptr with
  | nil => rfl
  | cons s ss ih =>
    rw [List.cons_append, readPayloads, readPayloads, ih, List.map_cons, List.sum_cons,
      List.cons_append, Nat.add_assoc]

/-- The payload pointers do not change what `size_plus_header` adds up. -/
theorem map_readPayloads {τ : Type} (f : RxSubh → τ)
    (hf : ∀ s ptr, f { s with payload := ptr } = f s)
    (ptr : Nat) (ss : List RxSubh) : (readPayloads ptr ss).map f = ss.map f := by
  induction ss generalizing ptr with
  | nil => rfl
  | cons s ss ih => rw [readPayloads, List.map_cons, List.map_cons, hf, ih]

/-- The elements in front of the last one are found where they are. -/
theorem received_readPayloads {bytes tail : Bytes} {ptr : Nat} (front : List (Nat × Bytes))
    (hbytes : bytes.drop ptr = front.flatMap (·.2) ++ tail) :
    received bytes (readPayloads ptr (front.map rxOf)) = front.map sent := by
  induction front generalizing ptr with
  | nil => rfl
  | cons x front ih =>
    have hnext : bytes.drop (ptr + x.2.length) = front.flatMap (·.2) ++ tail := by
      rw [← List.drop_drop, hbytes, List.flatMap_cons, List.append_assoc, List.drop_left]
    have hhere : (bytes.drop ptr).take x.2.length = x.2 := by
      rw [hbytes, List.flatMap_cons, List.append_assoc, List.take_left]
    show (x.1, x.2.length, (bytes.drop ptr).take x.2.length) :: received bytes _ = _
    rw [hhere, show received bytes (readPayloads (ptr + (rxOf x).nofBytes) (front.map rxOf))
      = front.map sent from ih hnext]
    rfl

/-- The receiver counts an element as the sender does. -/
theorem sizePlusHeader_rxOf (x : Nat × Bytes) :
    (rxOf x).sizePlusHeader = (subhOf x).getHeaderSize false + x.2.length := by
  have hrx : (rxOf x).isSdu = decide (x.1 < lcidPhrReport) := rfl
  have hsubh : (subhOf x).isSdu = decide (x.1 < lcidPhrReport) := rfl
  rw [RxSubh.sizePlusHeader, SchSubh.getHeaderSize, hrx, hsubh, if_neg Bool.false_ne_true]
  by_cases hkind : x.1 < lcidPhrReport
  · rw [if_pos (decide_eq_true hkind), if_pos (decide_eq_true hkind)]
    rfl
  · rw [if_neg (by simpa using hkind), if_neg (by simpa using hkind)]
    exact Nat.add_comm _ _

/-- The bytes of the elements in front of the last one. -/
theorem length_frame (front : List (Nat × Bytes)) (last : Nat × Bytes) :
    (frame (front ++ [last])).length
      = ((front.map rxOf).map RxSubh.sizePlusHeader).sum + 1 + last.2.length := by
  have hsum : ((front.map rxOf).map RxSubh.sizePlusHeader).sum
      = (front.flatMap fun x => (subhOf x).writeSubheader false).length
        + (front.flatMap (·.2)).length := by
    induction front with
    | nil => rfl
    | cons x front ih =>
      rw [List.map_cons, List.map_cons, List.sum_cons, ih, sizePlusHeader_rxOf, List.flatMap_cons,
        List.flatMap_cons, List.length_append, List.length_append, length_writeSubheader]
      omega
  have hlast : ((subhOf last).writeSubheader true).length = 1 := by rw [writeSubheader_last]; rfl
  rw [frame, headersOf_frame, hsum, List.flatMap_append, List.length_append, List.length_append,
    List.length_append, hlast, List.flatMap_singleton]
  omega

/-- The last element gets what is left of the PDU. -/
theorem correctLast_concat (pduLen : Nat) (ss : List RxSubh) (s : RxSubh) :
    correctLast pduLen (ss ++ [s]) = ss ++ [{ s with
      nofBytes := sub32 (sub32 pduLen ((ss.map RxSubh.sizePlusHeader).sum % 2 ^ 32)) 1 }] := by
  rw [correctLast, List.getLast?_concat, List.dropLast_concat]

/-- With too few slots `parse_packet` writes behind the end of `subheaders`. -/
theorem parsePacket_overrun (hfront : ∀ x ∈ front, Framed isUl x) (hlast : last.1 < 32)
    {slots : Nat} (hslots : slots ≤ front.length) :
    parsePacket slots isUl (frame (front ++ [last])) = none := by
  rw [parsePacket, frame, headersOf_frame, List.append_assoc, readSubheaders_frame hfront hlast,
    if_neg (by omega)]
  rfl

/-- With enough slots it reports every element, the last one with what the others leave. -/
theorem parsePacket_frame (hfront : ∀ x ∈ front, Framed isUl x) (hlast : last.1 < 32)
    (hsmall : (frame (front ++ [last])).length < 2 ^ 32) {slots : Nat}
    (hslots : front.length < slots) :
    parsePacket slots isUl (frame (front ++ [last])) =
      some (readPayloads (headersOf ((front ++ [last]).map subhOf)).length (front.map rxOf) ++
        [{ lcid := last.1, nofBytes := last.2.length
           payload := (headersOf ((front ++ [last]).map subhOf)).length
             + (front.flatMap (·.2)).length }]) := by
  -- The subheaders are read back, and the last element gets what is left.
  have hread : readSubheaders isUl slots (frame (front ++ [last]))
      = some (front.map rxOf ++ [rxLast isUl last], (front ++ [last]).flatMap (·.2)) := by
    rw [frame, headersOf_frame, List.append_assoc, readSubheaders_frame hfront hlast,
      if_pos hslots]
  have hlen := length_frame front last
  have hptr : (frame (front ++ [last])).length - ((front ++ [last]).flatMap (·.2)).length
      = (headersOf ((front ++ [last]).map subhOf)).length := by
    rw [frame, List.length_append]
    omega
  have hsizes : ((front.map rxOf).map (·.nofBytes)).sum = (front.flatMap (·.2)).length := by
    rw [List.map_map, List.length_flatMap]
    rfl
  rw [parsePacket, hread, Option.map_some]
  simp only [hptr]
  rw [readPayloads_append, readPayloads, readPayloads, correctLast_concat,
    map_readPayloads RxSubh.sizePlusHeader fun _ _ => rfl, hsizes, hlen]
  rw [hlen] at hsmall
  generalize ((front.map rxOf).map RxSubh.sizePlusHeader).sum = readLen at hsmall ⊢
  rw [Nat.mod_eq_of_lt (by omega),
    sub32_of_le (show readLen ≤ readLen + 1 + last.2.length by omega), Nat.add_assoc,
    Nat.add_sub_cancel_left, sub32_of_le (by omega), Nat.add_sub_cancel_left]
  rfl

/-- `parse_packet` finds the elements of a frame. -/
theorem received_parsePacket (hfront : ∀ x ∈ front, Framed isUl x) (hlast : last.1 < 32)
    (hsmall : (frame (front ++ [last])).length < 2 ^ 32) {slots : Nat}
    (hslots : front.length < slots) :
    ∃ ss, parsePacket slots isUl (frame (front ++ [last])) = some ss ∧
      received (frame (front ++ [last])) ss = (front ++ [last]).map sent := by
  refine ⟨_, parsePacket_frame hfront hlast hsmall hslots, ?_⟩
  have hdrop : (frame (front ++ [last])).drop (headersOf ((front ++ [last]).map subhOf)).length
      = front.flatMap (·.2) ++ last.2 := by
    rw [frame, List.drop_left, List.flatMap_append, List.flatMap_singleton]
  rw [received, List.map_append, List.map_append (f := sent)]
  refine congrArg₂ (· ++ ·) (received_readPayloads front hdrop) (List.singleton_inj.mpr ?_)
  refine Prod.ext rfl (Prod.ext rfl ?_)
  show ((frame (front ++ [last])).drop (_ + _)).take last.2.length = last.2
  rw [← List.drop_drop, hdrop, List.drop_left, List.take_length]

end

end SrsUE.Proofs.Mac
