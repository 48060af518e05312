import SrsUE.Mac.Rar
import SrsUE.Proofs.Rlc.AmStatusPdu

/-!
# `SrsUE.Proofs.Mac.RarDecode`: which random access responses are decoded

`RarContent` is what the eNodeB puts into a response, and `RarContent.bytes` the PDU it sends. The
UE decodes it with an object that has parsed any sequence of PDUs before (`rarDecodes_iff`).

A backoff indicator spoils the decoding in two ways. Its subheader takes part in the second loop of
`parse_packet`, so that it reads the body of the first response. And nothing takes the flag
`has_backoff_indicator` back, so that it is reported with every later response.
-/

set_option autoImplicit false

namespace SrsUE.Proofs.Mac

open SrsUE.Mac
open SrsUE.Rlc (Bytes SrslteBit)
open SrsUE.Proofs.Rlc (bitsOf bitsOf_succ msbFirst)

/-! ### The PDU -/

/-- One response: preamble, timing advance, 20 bits of grant, and temporary C-RNTI. -/
structure RarResponse where
  rapid : Nat
  ta : Nat
  grant : Nat
  tempRnti : Nat
  rapid_lt : rapid < 2 ^ 6
  ta_lt : ta < 2 ^ 11
  grant_lt : grant < 2 ^ 20
  tempRnti_lt : tempRnti < 2 ^ 16

/-- The six bytes of a body: a reserved bit, 11 bits of timing advance, the grant and the temporary
C-RNTI. -/
def RarResponse.body (r : RarResponse) : Bytes :=
  [.ofNat (r.ta / 16), .ofNat (r.ta % 16 * 16 + r.grant / 2 ^ 16), .ofNat (r.grant / 2 ^ 8 % 2 ^ 8),
    .ofNat (r.grant % 2 ^ 8), .ofNat (r.tempRnti / 2 ^ 8), .ofNat (r.tempRnti % 2 ^ 8)]

/-- A response as the UE should see it. -/
def RarResponse.subh (r : RarResponse) : RarSubh :=
  { preamble := r.rapid, ta := r.ta, tempRnti := r.tempRnti, grant := bitsOf r.grant 20 }

/-- The content of a PDU. At most 15 responses, and a backoff indicator of four bits. -/
structure RarContent where
  backoff : Option Nat
  responses : List RarResponse
  padding : Bytes
  backoff_lt : ∀ b ∈ backoff, b < 2 ^ 4
  length_le : responses.length ≤ 15

/-- The subheaders without their E bits. -/
def RarContent.headers (c : RarContent) : List Nat :=
  c.backoff.toList ++ c.responses.map fun r => 0x40 + r.rapid

/-- Subheaders with the E bit on all but the last. -/
def rarHeaderBytes : List Nat → Bytes
  | [] => []
  | [h] => [.ofNat h]
  | h :: h' :: hs => .ofNat (0x80 + h) :: rarHeaderBytes (h' :: hs)

/-- The PDU. -/
def RarContent.bytes (c : RarContent) : Bytes :=
  rarHeaderBytes c.headers ++ c.responses.flatMap RarResponse.body ++ c.padding

/-- `parse_packet` reports the responses of this PDU, and the backoff indicator if it has one. The
buffer may hold more bytes behind the PDU. -/
def RarDecodes (L : SrslteBit) (pdu : RarPdu) (c : RarContent) (behind : Bytes) : Prop :=
  ∃ pdu', pdu.receive L (c.bytes ++ behind) = some pdu' ∧
    pdu'.responses = c.responses.map RarResponse.subh ∧
    pdu'.hasBackoffIndicator = c.backoff.isSome ∧ ∀ b ∈ c.backoff, pdu'.backoffIndicator = b

/-- The subheaders at the start of some bytes: up to the first without an E bit. -/
def rarChain : Bytes → Bytes
  | [] => []
  | b :: rest => b :: (if rarEBit b then rarChain rest else [])

/-- The object after a sequence of PDUs, each with what is behind it in the buffer. -/
def rarHistory (L : SrslteBit) (pdu : RarPdu) : List Bytes → Option RarPdu
  | [] => some pdu
  | bytes :: history => (pdu.receive L bytes).bind fun pdu' => rarHistory L pdu' history

/-! ### Bytes -/

/-- A number below 256 is a byte. -/
theorem toNat_ofNat_of_lt {n : Nat} (h : n < 256) : (UInt8.ofNat n).toNat = n := by
  rw [UInt8.toNat_ofNat']
  omega

/-- The E bit is the top bit of a subheader. -/
theorem rarEBit_of_lt {h : Nat} (hlt : h < 128) :
    rarEBit (.ofNat h) = false ∧ rarEBit (.ofNat (0x80 + h)) = true := by
  revert h
  decide

/-- A subheader with the type bit set has a preamble. -/
theorem rarType_preamble {r : Nat} (hlt : r < 64) :
    rarType (.ofNat (0x40 + r)) = true ∧ rarType (.ofNat (0x80 + (0x40 + r))) = true ∧
      (UInt8.ofNat (0x40 + r)).toNat &&& 0x3f = r ∧
      (UInt8.ofNat (0x80 + (0x40 + r))).toNat &&& 0x3f = r := by
  revert r
  decide

/-- The two halves of a byte. -/
theorem nibbles {b : Nat} (hlt : b < 256) :
    [b &&& 0x8 != 0, b &&& 0x4 != 0, b &&& 0x2 != 0, b &&& 0x1 != 0] = bitsOf b 4 ∧
      (b &&& 0xf0) >>> 4 = b / 16 := by
  revert b
  decide +kernel

/-- Fields that do not overlap add up. -/
theorem shiftLeft_or_eq {a b i : Nat} (h : b < 2 ^ i) : a <<< i ||| b = a * 2 ^ i + b := by
  rw [Nat.shiftLeft_eq, Nat.mul_comm, ← Nat.two_pow_add_eq_or_of_lt h]

/-- The bits of a number are those of its remainder. -/
theorem bitsOf_mod (v n : Nat) : bitsOf (v % 2 ^ n) n = bitsOf v n := by
  refine List.map_congr_left fun i hi => ?_
  have hlt : i < n := List.mem_range.mp (List.mem_reverse.mp hi)
  rw [Nat.testBit_mod_two_pow, decide_eq_true hlt, Bool.true_and]

/-- The bits of a number, in two parts. -/
theorem bitsOf_add (v m n : Nat) : bitsOf v (m + n) = bitsOf (v / 2 ^ n) m ++ bitsOf v n := by
  induction n generalizing v with
  | zero => rw [Nat.pow_zero, Nat.div_one, Nat.add_zero, bitsOf, bitsOf, List.range_zero]; simp
  | succ n ih =>
    rw [← Nat.add_assoc, bitsOf_succ, ih, bitsOf_succ v n, Nat.div_div_eq_div_mul,
      ← Nat.pow_succ', List.append_assoc]

/-- The bits of a grant, which lie in three bytes. -/
theorem bitsOf_grant (g t : Nat) :
    bitsOf (t * 16 + g / 2 ^ 16 % 16) 4 ++ bitsOf (g / 2 ^ 8 % 2 ^ 8) 8 ++ bitsOf (g % 2 ^ 8) 8
      = bitsOf g 20 := by
  have htop : (t * 16 + g / 2 ^ 16 % 16) % 2 ^ 4 = g / 2 ^ 16 % 2 ^ 4 := by omega
  rw [← bitsOf_mod (t * 16 + g / 2 ^ 16 % 16) 4, htop, bitsOf_mod, bitsOf_mod, bitsOf_mod,
    List.append_assoc, ← bitsOf_add g 8 8, ← bitsOf_add g 4 16]

/-- A body is read back, with the grant, the timing advance and the C-RNTI. -/
theorem readPayload_body (L : SrslteBit) (s : RarSubh) (r : RarResponse) (ss : List RarSubh)
    (rest : Bytes) :
    readRarPayloads L (s :: ss) (r.body ++ rest)
      = (readRarPayloads L ss rest).map ({ r.subh with preamble := s.preamble } :: ·) := by
  have hta := r.ta_lt
  have hgrant := r.grant_lt
  have htemp := r.tempRnti_lt
  have h0 := toNat_ofNat_of_lt (show r.ta / 16 < 256 by omega)
  have h1 := toNat_ofNat_of_lt (show r.ta % 16 * 16 + r.grant / 2 ^ 16 < 256 by omega)
  have h2 := toNat_ofNat_of_lt (show r.grant / 2 ^ 8 % 2 ^ 8 < 256 by omega)
  have h3 := toNat_ofNat_of_lt (show r.grant % 2 ^ 8 < 256 by omega)
  have h4 := toNat_ofNat_of_lt (show r.tempRnti / 2 ^ 8 < 256 by omega)
  have h5 := toNat_ofNat_of_lt (show r.tempRnti % 2 ^ 8 < 256 by omega)
  obtain ⟨hbits, hhigh⟩ := nibbles (show r.ta % 16 * 16 + r.grant / 2 ^ 16 < 256 by omega)
  have hunpack : ∀ v n, L.unpack v n = bitsOf v n := L.unpack_eq
  -- The three fields share octets: each is put together again from its parts.
  have hread : s.readPayload L (.ofNat (r.ta / 16)) (.ofNat (r.ta % 16 * 16 + r.grant / 2 ^ 16))
      (.ofNat (r.grant / 2 ^ 8 % 2 ^ 8)) (.ofNat (r.grant % 2 ^ 8)) (.ofNat (r.tempRnti / 2 ^ 8))
      (.ofNat (r.tempRnti % 2 ^ 8)) = { r.subh with preamble := s.preamble } := by
    rw [RarSubh.readPayload, h0, h1, h2, h3, h4, h5, hbits, hhigh, hunpack, hunpack]
    have htaEq : (r.ta / 16 &&& 0x7f) <<< 4 ||| (r.ta % 16 * 16 + r.grant / 2 ^ 16) / 16
        = r.ta := by
      rw [show (0x7f : Nat) = 2 ^ 7 - 1 from rfl, Nat.and_two_pow_sub_one_eq_mod,
        shiftLeft_or_eq (by omega)]
      omega
    have htempEq : (r.tempRnti / 2 ^ 8) <<< 8 ||| r.tempRnti % 2 ^ 8 = r.tempRnti := by
      rw [shiftLeft_or_eq (by omega)]
      omega
    have hgrantEq := bitsOf_grant r.grant (r.ta % 16)
    rw [Nat.mod_eq_of_lt (show r.grant / 2 ^ 16 < 16 by omega)] at hgrantEq
    rw [htaEq, htempEq, hgrantEq]
    rfl
  rw [← hread]
  rfl

/-! ### The loops -/

section
variable {L : SrslteBit} {pdu pdu' : RarPdu} {bytes : Bytes}

/-- The first loop uses as many slots as there are subheaders. -/
theorem readRarSubheaders_chain {slots used : List RarSubh} {backoff : Option Nat} {rest : Bytes}
    (h : readRarSubheaders slots bytes = some (used, backoff, rest)) :
    used.length = (rarChain bytes).length ∧ 0 < used.length ∧ used.length ≤ slots.length ∧
      backoff.isSome = (rarChain bytes).any fun b => !rarType b := by
  -- The chain goes on while the E bit is set, and each subheader takes a slot.
  induction slots generalizing bytes used backoff with
  | nil => cases h
  | cons s slots ih =>
    cases bytes with
    | nil => cases h
    | cons b bytes =>
      have hbackoff : (readBackoff b).isSome = !rarType b := by
        unfold readBackoff
        cases rarType b <;> rfl
      rw [readRarSubheaders] at h
      cases he : rarEBit b with
      | false =>
        rw [he, if_neg Bool.false_ne_true] at h
        obtain ⟨rfl, rfl, rfl⟩ :
            [s.readSubheader b] = used ∧ readBackoff b = backoff ∧ bytes = rest := by
          simpa using h
        rw [rarChain, he, if_neg Bool.false_ne_true]
        refine ⟨rfl, Nat.one_pos, Nat.succ_le_succ (Nat.zero_le _), ?_⟩
        rw [hbackoff, List.any_cons, List.any_nil, Bool.or_false]
      | true =>
        rw [he, if_pos rfl] at h
        obtain ⟨⟨used', backoff', rest'⟩, hread, heq⟩ := Option.map_eq_some_iff.mp h
        obtain ⟨rfl, rfl, rfl⟩ : s.readSubheader b :: used' = used ∧
            backoff'.or (readBackoff b) = backoff ∧ rest' = rest := by simpa using heq
        obtain ⟨hlen, -, hle, hany⟩ := ih hread
        rw [rarChain, he, if_pos rfl, List.length_cons, List.length_cons, List.length_cons,
          List.any_cons, ← hany, ← hbackoff]
        refine ⟨by omega, by omega, by omega, ?_⟩
        cases backoff' with
        | none => rw [Option.none_or, Option.isSome_none, Bool.or_false]
        | some b' => rw [Option.some_or, Option.isSome_some, Bool.or_true]

/-- Each subheader gets a body. -/
theorem length_readRarPayloads {ss read : List RarSubh}
    (h : readRarPayloads L ss bytes = some read) : read.length = ss.length := by
  induction ss generalizing bytes read with
  | nil =>
    obtain rfl := Option.some.inj h
    rfl
  | cons s ss ih =>
    rcases bytes with _ | ⟨b0, _ | ⟨b1, _ | ⟨b2, _ | ⟨b3, _ | ⟨b4, _ | ⟨b5, rest⟩⟩⟩⟩⟩⟩
    case cons.cons.cons.cons.cons.cons =>
      obtain ⟨read', hread, rfl⟩ := Option.map_eq_some_iff.mp h
      rw [List.length_cons, List.length_cons, ih hread]
    all_goals cases h

/-- What every PDU leaves in the object. -/
theorem receive_spec (h : pdu.receive L bytes = some pdu') :
    pdu'.responses.length = (rarChain bytes).length ∧ 0 < pdu'.responses.length ∧
      pdu'.subheaders.length = pdu.subheaders.length ∧
      pdu'.hasBackoffIndicator
        = (((rarChain bytes).any fun b => !rarType b) || pdu.hasBackoffIndicator) := by
  rw [RarPdu.receive, RarPdu.parsePacket] at h
  obtain ⟨⟨used, backoff, rest⟩, hread, h⟩ := Option.bind_eq_some_iff.mp h
  obtain ⟨read, hpayloads, h⟩ := Option.bind_eq_some_iff.mp h
  obtain rfl := Option.some.inj h
  obtain ⟨hlen, hpos, hle, hany⟩ := readRarSubheaders_chain hread
  have hinit : pdu.initRx.subheaders.length = pdu.subheaders.length := List.length_map ..
  have hused := length_readRarPayloads hpayloads
  -- Only the subheaders that were read are taken for responses.
  have hresponses : (read ++ pdu.initRx.subheaders.drop used.length).take used.length = read := by
    rw [← hused, List.take_left]
  refine ⟨?_, ?_, ?_, ?_⟩
  · show ((read ++ pdu.initRx.subheaders.drop used.length).take used.length).length = _
    rw [hresponses, hused, hlen]
  · show 0 < ((read ++ pdu.initRx.subheaders.drop used.length).take used.length).length
    rw [hresponses, hused]
    exact hpos
  · show (read ++ pdu.initRx.subheaders.drop used.length).length = _
    rw [List.length_append, List.length_drop]
    omega
  · show (backoff.isSome || pdu.hasBackoffIndicator) = _
    rw [hany]

/-- The flag is set exactly when some subheader so far was a backoff indicator. -/
theorem rarHistory_spec {history : List Bytes} (h : rarHistory L pdu history = some pdu') :
    pdu'.subheaders.length = pdu.subheaders.length ∧
      (pdu'.hasBackoffIndicator = false ↔ pdu.hasBackoffIndicator = false ∧
        ∀ bytes ∈ history, ∀ b ∈ rarChain bytes, rarType b = true) := by
  induction history generalizing pdu with
  | nil =>
    obtain rfl := Option.some.inj h
    exact ⟨rfl, ⟨fun hfalse => ⟨hfalse, List.forall_mem_nil _⟩, And.left⟩⟩
  | cons bytes history ih =>
    obtain ⟨pdu₁, hreceive, hrest⟩ := Option.bind_eq_some_iff.mp h
    obtain ⟨-, -, hlen, hflag⟩ := receive_spec hreceive
    obtain ⟨hlen', hiff⟩ := ih hrest
    refine ⟨hlen'.trans hlen, ?_⟩
    rw [hiff, hflag, Bool.or_eq_false_iff, List.any_eq_false]
    simp only [Bool.not_eq_true', Bool.not_eq_false, List.forall_mem_cons]
    exact ⟨fun h => ⟨h.1.2, h.1.1, h.2⟩, fun h => ⟨⟨h.2.1, h.1⟩, h.2.2⟩⟩

end

/-! ### A PDU with its subheaders -/

section
variable {hs : List Nat} {rest : Bytes}

/-- A subheader is one byte. -/
theorem length_rarHeaderBytes (hs : List Nat) : (rarHeaderBytes hs).length = hs.length := by
  induction hs with
  | nil => rfl
  | cons h hs ih =>
    cases hs with
    | nil => rfl
    | cons h' hs => rw [rarHeaderBytes, List.length_cons, ih, List.length_cons (a := h)]

/-- The chain ends at the first subheader without an E bit. -/
theorem rarChain_headers (hne : hs ≠ []) (hlt : ∀ h ∈ hs, h < 128) :
    rarChain (rarHeaderBytes hs ++ rest) = rarHeaderBytes hs := by
  induction hs with
  | nil => exact absurd rfl hne
  | cons h hs ih =>
    obtain ⟨hlast, hmore⟩ := rarEBit_of_lt (hlt h (List.mem_cons_self ..))
    cases hs with
    | nil =>
      show (UInt8.ofNat h :: if rarEBit (.ofNat h) then _ else []) = [UInt8.ofNat h]
      rw [hlast, if_neg Bool.false_ne_true]
    | cons h' hs =>
      show (UInt8.ofNat (0x80 + h) :: if rarEBit (.ofNat (0x80 + h)) then
        rarChain (rarHeaderBytes (h' :: hs) ++ rest) else []) = _
      rw [hmore, if_pos rfl,
        ih (List.cons_ne_nil _ _) fun x hx => hlt x (List.mem_cons_of_mem _ hx)]
      rfl

/-- A subheader without its E bit has seven bits. -/
theorem RarContent.headers_lt (c : RarContent) : ∀ h ∈ c.headers, h < 128 := by
  intro h hh
  rcases List.mem_append.mp hh with hh | hh
  · have hlt := c.backoff_lt h (by simpa using hh)
    omega
  · obtain ⟨r, -, rfl⟩ := List.mem_map.mp hh
    have hlt := r.rapid_lt
    omega

/-- There is a subheader for the backoff indicator and one for each response. -/
theorem RarContent.length_headers (c : RarContent) :
    c.headers.length = (if c.backoff.isSome then 1 else 0) + c.responses.length := by
  rw [headers, List.length_append, List.length_map]
  cases c.backoff <;> rfl

/-- The subheaders of responses fill the slots in their order. -/
theorem readRarSubheaders_preambles (rs : List RarResponse) (hne : rs ≠ [])
    (slots : List RarSubh) (hslots : rs.length ≤ slots.length) (rest : Bytes) :
    readRarSubheaders slots (rarHeaderBytes (rs.map fun r => 0x40 + r.rapid) ++ rest)
      = some (slots.zipWith (fun s r => { s with preamble := r.rapid }) rs, none, rest) := by
  induction rs generalizing slots with
  | nil => exact absurd rfl hne
  | cons r rs ih =>
    cases slots with
    | nil => exact absurd hslots (by simp)
    | cons s slots =>
      have hr := r.rapid_lt
      obtain ⟨htype, htype', hpre, hpre'⟩ := rarType_preamble (show r.rapid < 64 by omega)
      obtain ⟨hlast, hmore⟩ := rarEBit_of_lt (show 0x40 + r.rapid < 128 by omega)
      -- The E bit is set in all headers but the last.
      cases rs with
      | nil =>
        show readRarSubheaders (s :: slots) (.ofNat (0x40 + r.rapid) :: rest) = _
        rw [readRarSubheaders, hlast, if_neg Bool.false_ne_true, RarSubh.readSubheader, htype,
          if_pos rfl, readBackoff, htype, if_pos rfl, hpre]
        cases slots <;> rfl
      | cons r' rs =>
        have hrest := ih (List.cons_ne_nil _ _) slots (Nat.le_of_succ_le_succ hslots)
        show readRarSubheaders (s :: slots) (.ofNat (0x80 + (0x40 + r.rapid)) ::
          (rarHeaderBytes ((r' :: rs).map fun r => 0x40 + r.rapid) ++ rest)) = _
        rw [readRarSubheaders, hmore, if_pos rfl, hrest, RarSubh.readSubheader, htype', if_pos rfl,
          readBackoff, htype', if_pos rfl, hpre']
        rfl

/-- Every response reads its own body. -/
theorem readRarPayloads_bodies (L : SrslteBit) (rs : List RarResponse) (slots : List RarSubh)
    (hslots : rs.length ≤ slots.length) (rest : Bytes) :
    readRarPayloads L (slots.zipWith (fun s r => { s with preamble := r.rapid }) rs)
        (rs.flatMap RarResponse.body ++ rest) = some (rs.map RarResponse.subh) := by
  induction rs generalizing slots with
  | nil =>
    rw [List.zipWith_nil_right]
    rfl
  | cons r rs ih =>
    cases slots with
    | nil => exact absurd hslots (by simp)
    | cons s slots =>
      rw [List.zipWith_cons_cons, List.flatMap_cons, List.append_assoc, readPayload_body,
        ih slots (Nat.le_of_succ_le_succ hslots)]
      rfl

end

/-! ### Decoding -/

section
variable {L : SrslteBit} {pdu : RarPdu} {c : RarContent}

/-- Without a backoff indicator, now and before, the responses are decoded. -/
theorem rarDecodes_of_plain (hslots : c.responses.length ≤ pdu.subheaders.length)
    (hflag : pdu.hasBackoffIndicator = false) (hbackoff : c.backoff = none)
    (hne : c.responses ≠ []) (behind : Bytes) : RarDecodes L pdu c behind := by
  have hinit : pdu.initRx.subheaders.length = pdu.subheaders.length := List.length_map ..
  have hbytes : c.bytes ++ behind = rarHeaderBytes (c.responses.map fun r => 0x40 + r.rapid)
      ++ (c.responses.flatMap RarResponse.body ++ (c.padding ++ behind)) := by
    rw [RarContent.bytes, RarContent.headers, hbackoff, Option.toList_none, List.nil_append,
      List.append_assoc, List.append_assoc]
  have hread := readRarSubheaders_preambles c.responses hne pdu.initRx.subheaders (by omega)
    (c.responses.flatMap RarResponse.body ++ (c.padding ++ behind))
  have hpayloads := readRarPayloads_bodies L c.responses pdu.initRx.subheaders (by omega)
    (c.padding ++ behind)
  have hused : (pdu.initRx.subheaders.zipWith (fun s r => { s with preamble := r.rapid })
      c.responses).length = c.responses.length := by
    rw [List.length_zipWith]
    omega
  -- Without a backoff indicator the headers are the preambles only.
  have hreceive : pdu.receive L (c.bytes ++ behind) = some
      { subheaders := c.responses.map RarResponse.subh
          ++ pdu.initRx.subheaders.drop c.responses.length
        nofSubheaders := c.responses.length
        backoffIndicator := pdu.backoffIndicator
        hasBackoffIndicator := pdu.hasBackoffIndicator } := by
    rw [RarPdu.receive, RarPdu.parsePacket, hbytes, hread]
    show (readRarPayloads L _ _).bind _ = _
    rw [hpayloads, hused]
    rfl
  refine ⟨_, hreceive, ?_, ?_, ?_⟩
  · show (c.responses.map RarResponse.subh ++ _).take c.responses.length = _
    rw [← List.length_map (f := RarResponse.subh), List.take_left]
  · show pdu.hasBackoffIndicator = _
    rw [hflag, hbackoff]
    rfl
  · rw [hbackoff]
    exact fun b hb => by cases hb

/-- A response is decoded exactly when neither it nor an earlier one has a backoff indicator, and it
has a response at all. -/
theorem rarDecodes_iff {maxRars : Nat} (hmax : 15 ≤ maxRars) {history : List Bytes}
    (hhistory : rarHistory L (rarPdu maxRars) history = some pdu) (c : RarContent)
    (behind : Bytes) :
    RarDecodes L pdu c behind ↔
      (∀ bytes ∈ history, ∀ b ∈ rarChain bytes, rarType b = true) ∧ c.backoff = none ∧
        c.responses ≠ [] := by
  obtain ⟨hlen, hflag⟩ := rarHistory_spec hhistory
  have hslots : pdu.subheaders.length = maxRars := hlen.trans List.length_replicate
  have hle := c.length_le
  constructor
  · rintro ⟨pdu', hreceive, hresponses, hhas, -⟩
    obtain ⟨hcount, hpos, -, hflag'⟩ := receive_spec hreceive
    have hlen' : pdu'.responses.length = c.responses.length := by
      rw [hresponses, List.length_map]
    have hbackoff : c.backoff = none := by
      cases hb : c.backoff with
      | none => rfl
      | some b =>
        -- The subheader with the indicator is counted as a response.
        have hheaders := c.length_headers
        rw [hb, Option.isSome_some, if_pos rfl] at hheaders
        have hne : c.headers ≠ [] := by
          intro hnil
          rw [hnil, List.length_nil] at hheaders
          omega
        rw [RarContent.bytes, List.append_assoc, List.append_assoc,
          rarChain_headers hne c.headers_lt, length_rarHeaderBytes] at hcount
        omega
    have hne : c.responses ≠ [] := by
      intro hnil
      rw [hnil, List.length_nil] at hlen'
      omega
    refine ⟨(hflag.mp ?_).2, hbackoff, hne⟩
    rw [hflag', hbackoff, Option.isSome_none, Bool.or_eq_false_iff] at hhas
    exact hhas.2
  · rintro ⟨hhist, hbackoff, hne⟩
    exact rarDecodes_of_plain (by omega) (hflag.mpr ⟨rfl, hhist⟩) hbackoff hne behind

end

/-- A response to one preamble. -/
def oneResponse (rapid : Nat) (h : rapid < 2 ^ 6) : RarResponse :=
  { rapid := rapid, ta := 0x123, grant := 0xabcde, tempRnti := 0x4601, rapid_lt := h
    ta_lt := by decide, grant_lt := by decide, tempRnti_lt := by decide }

/-- A PDU with responses to two preambles. -/
def plainRar : RarContent :=
  { backoff := none, responses := [oneResponse 5 (by decide), oneResponse 9 (by decide)]
    padding := [], backoff_lt := fun b hb => (by cases hb), length_le := by decide }

/-- A PDU with a backoff indicator and a response. -/
def backoffRar : RarContent :=
  { backoff := some 3, responses := [oneResponse 5 (by decide)], padding := List.replicate 6 0
    backoff_lt := fun b hb => (by rw [← Option.some.inj hb]; decide), length_le := by decide }

/-- Responses are decoded also after those of an earlier PDU. -/
theorem rarDecodes_iff_plain :
    ∃ pdu, rarHistory msbFirst (rarPdu 20) [plainRar.bytes] = some pdu ∧
      RarDecodes msbFirst pdu plainRar [] := by
  have hsome : (rarHistory msbFirst (rarPdu 20) [plainRar.bytes]).isSome = true := by
    decide +kernel
  obtain ⟨pdu, hpdu⟩ := Option.isSome_iff_exists.mp hsome
  refine ⟨pdu, hpdu, (rarDecodes_iff (by decide) hpdu plainRar []).mpr ⟨?_, rfl,
    List.cons_ne_nil _ _⟩⟩
  decide +kernel

/-- Two responses are reported instead of one. -/
theorem not_rarDecodes_backoff : ¬RarDecodes msbFirst (rarPdu 20) backoffRar [] := by
  rintro ⟨pdu', hreceive, hresponses, -⟩
  have hcount := (receive_spec hreceive).1
  rw [hresponses] at hcount
  exact absurd hcount (by decide +kernel)

end SrsUE.Proofs.Mac
