import SrsUE.Mac.PduRead
import SrsUE.Proofs.Mac.BufferLevels
import SrsUE.Proofs.Mac.SchRoundTrip
import SrsUE.Proofs.Rlc.AmDataHeader

/-!
# `SrsUE.Proofs.Mac.CeValues`: the values of control elements

`SchRoundTrip` says that the bytes of an element survive `write_packet` and `parse_packet`. Here the
setters and the getters are put around it.

* `WrittenPdu.readsCe_iff`: on a PDU that can be parsed, a statement about what a getter returns is
  one about the payload that the setter wrote.
* `longBsr_iff`, `shortBsr_iff`: what `get_bsr` makes of the levels that `set_bsr` packs.
* `identities_iff`: C-RNTI and contention resolution identity, on the subheader and on the PDU, and
  the identity that RRC registers.
-/

set_option autoImplicit false

namespace SrsUE.Proofs.Mac

open SrsUE.Mac
open SrsUE.Proofs.Rlc (mask_shiftRight shiftLeft_or and_0xFF and_0x0F)
open SrsUE.Rlc (Bytes)

/-! ### Control elements of a PDU -/

/-- A PDU that was assembled by the calls and written, and whose elements and subheaders the parser
has room for (`roundTrip_iff`). -/
structure WrittenPdu (maxSubheaders pduLen : Nat) (isUl : Bool) (calls : List SetCall)
    (bytes : Bytes) : Prop where
  max : 0 < maxSubheaders
  len : pduLen < 2 ^ 32
  valid : ∀ c ∈ calls, ValidCall isUl c
  written : ∃ pdu, assemble (initTx maxSubheaders pduLen isUl) calls = some pdu ∧
    pdu.writePacket = some bytes
  fits : callsSpace calls ≤ pduLen
  slots : ¬(calls.length + 1 = maxSubheaders ∧ callsSpace calls + 2 = pduLen)

/-- After `parse_packet`, the subheader for the control element that was set behind the elements
`pre` satisfies `P`. Control elements keep their order. -/
def ReadsCe (maxSubheaders : Nat) (isUl : Bool) (bytes : Bytes) (pre : List SetCall)
    (P : RxSubh → Prop) : Prop :=
  ∃ ss s, parsePacket maxSubheaders isUl bytes = some ss ∧
    (ss.filter fun s => s.lcid != lcidPadding)[(pre.filter fun c => !isSduCall c).length]?
      = some s ∧
    P s

section
variable {maxSubheaders pduLen : Nat} {isUl : Bool} {pre post : List SetCall} {c : SetCall}
  {bytes : Bytes}

/-- The control element is found, with the payload that its setter wrote. -/
theorem WrittenPdu.parsed_ce (h : WrittenPdu maxSubheaders pduLen isUl (pre ++ c :: post) bytes)
    (hce : isSduCall c = false) :
    ReadsCe maxSubheaders isUl bytes pre fun s => s.lcid = (callElement c).1 ∧
      (bytes.drop s.payload).take (callElement c).2.length = (callElement c).2 := by
  obtain ⟨pdu, hrun, hwrite⟩ := h.written
  have hne : pre ++ c :: post ≠ [] := by simp
  obtain ⟨-, ss, hparse, hreceived⟩ := (roundTrip_iff h.max h.len h.valid hrun hwrite).mpr
    ⟨h.fits, .inl hne, h.slots⟩
  have hat := congrArg (·[(pre.filter fun c => !isSduCall c).length]?) hreceived
  have hsent : (sentElements (pre ++ c :: post))[(pre.filter fun c => !isSduCall c).length]?
      = some (sent (callElement c)) := by
    rw [sentElements, List.filter_append, List.filter_cons_of_pos (by simp [hce]),
      List.append_assoc, List.map_append, List.getElem?_append_right (by simp)]
    simp
  rw [hsent, received, List.getElem?_map] at hat
  obtain ⟨s, hs, heq⟩ := Option.map_eq_some_iff.mp hat
  obtain ⟨hlcid, hrest⟩ := Prod.mk.inj heq
  obtain ⟨hlen, hpayload⟩ := Prod.mk.inj hrest
  rw [hlen] at hpayload
  exact ⟨ss, s, hparse, hs, hlcid, hpayload⟩

/-- What holds of the subheader with the payload of the setter. -/
theorem WrittenPdu.readsCe_iff (h : WrittenPdu maxSubheaders pduLen isUl (pre ++ c :: post) bytes)
    (hce : isSduCall c = false) {P : RxSubh → Prop} {Q : Prop}
    (hiff : ∀ s, s.lcid = (callElement c).1 →
      (bytes.drop s.payload).take (callElement c).2.length = (callElement c).2 → (P s ↔ Q)) :
    ReadsCe maxSubheaders isUl bytes pre P ↔ Q := by
  obtain ⟨ss, s, hparse, hs, hlcid, hpayload⟩ := h.parsed_ce hce
  constructor
  · rintro ⟨ss', s', hparse', hs', hp⟩
    obtain rfl := Option.some.inj (hparse.symm.trans hparse')
    obtain rfl := Option.some.inj (hs.symm.trans hs')
    exact (hiff s hlcid hpayload).mp hp
  · intro hq
    exact ⟨ss, s, hparse, hs, (hiff s hlcid hpayload).mpr hq⟩

end

/-! ### Buffer status reports -/

/-- The level of each of the four groups. -/
def levels (buffSize : Vector Nat 4) : Vector Nat 4 := buffSize.map buffSizeTable

/-- Four levels of six bits each, one behind the other, in three bytes. -/
def packedLevels (l : Vector Nat 4) : Bytes :=
  let n := l.toList.foldl (fun n l => n * 64 + l) 0
  [.ofNat (n / 65536 % 256), .ofNat (n / 256 % 256), .ofNat (n % 256)]

/-- No value stands twice in the table. -/
theorem btable_inj : ∀ i j : Fin 64, btable.getD i.val 0 = btable.getD j.val 0 → i = j := by
  decide +kernel

/-- A level below 64 stands for the value at its place. -/
theorem bsrTableValue_level {l : Nat} (h : l < 64) : bsrTableValue l = btable.getD l 0 := by
  unfold bsrTableValue
  split
  · rw [Nat.mod_eq_of_lt h]
  · rename_i hz
    rw [not_not.mp hz]
    rfl

/-- So two levels with one value are equal. -/
theorem bsrTableValue_inj {l l' : Nat} (h : l < 64) (h' : l' < 64) :
    bsrTableValue l = btable.getD l' 0 ↔ l = l' := by
  rw [bsrTableValue_level h]
  refine ⟨fun heq => ?_, fun heq => by rw [heq]⟩
  exact congrArg Fin.val (btable_inj ⟨l, h⟩ ⟨l', h'⟩ heq)

/-- Four levels are equal when each is. -/
theorem vec_congr {a b c d a' b' c' d' : Nat} (ha : a = a') (hb : b = b') (hc : c = c')
    (hd : d = d') : #v[a, b, c, d] = #v[a', b', c', d'] := by
  rw [ha, hb, hc, hd]

/-- The mask takes the remainder modulo 64. -/
theorem and_0x3f (x : Nat) : x &&& 0x3f = x % 64 := Nat.and_two_pow_sub_one_eq_mod x 6

/-- The mask takes the two upper bits of a byte. -/
theorem and_0xc0 (x : Nat) : (x &&& 0xc0) >>> 6 = x / 64 % 4 := mask_shiftRight x 6 2

/-- The mask takes the upper half of a byte. -/
theorem and_0xf0 (x : Nat) : (x &&& 0xf0) >>> 4 = x / 16 % 16 := mask_shiftRight x 4 4

/-- The mask takes the six upper bits of a byte. -/
theorem and_0xFC (x : Nat) : (x &&& 0xFC) >>> 2 = x / 4 % 64 := mask_shiftRight x 2 6

/-- The mask takes the remainder modulo 4. -/
theorem and_0x3 (x : Nat) : x &&& 0x3 = x % 4 := Nat.and_two_pow_sub_one_eq_mod x 2

section
variable {s0 s1 s2 s3 : Nat}

/-- The bytes of a long report: the upper bits of the second level are lost, and the third is not
moved far enough. -/
theorem longBsr_payload (s0 s1 s2 s3 : Nat) :
    bsrPayload #v[s0, s1, s2, s3] .longBsr
      = [.ofNat (buffSizeTable s0 * 4),
        .ofNat (buffSizeTable s1 % 16 * 16 + buffSizeTable s2 / 16),
        .ofNat (buffSizeTable s2 % 4 * 64 + buffSizeTable s3)] := by
  have h0 := buffSizeTable_lt s0
  have h1 := buffSizeTable_lt s1
  have h2 := buffSizeTable_lt s2
  have h3 := buffSizeTable_lt s3
  show [UInt8.ofNat ((buffSizeTable s0 &&& 0x3f) <<< 2 ||| (buffSizeTable s1 &&& 0xc0) >>> 6),
    UInt8.ofNat ((buffSizeTable s1 &&& 0xf) <<< 4 ||| (buffSizeTable s2 &&& 0xf0) >>> 4),
    UInt8.ofNat ((buffSizeTable s2 &&& 0x3) <<< 6 ||| (buffSizeTable s3 &&& 0x3f))] = _
  rw [and_0x3f, and_0xc0, and_0x0F, and_0xf0, and_0x3, and_0x3f,
    shiftLeft_or (show buffSizeTable s1 / 64 % 4 < 2 ^ 2 by omega),
    shiftLeft_or (show buffSizeTable s2 / 16 % 16 < 2 ^ 4 by omega),
    shiftLeft_or (show buffSizeTable s3 % 64 < 2 ^ 6 by omega)]
  refine List.cons_eq_cons.mpr ⟨congrArg _ (by omega), List.cons_eq_cons.mpr ⟨congrArg _ (by omega),
    List.cons_eq_cons.mpr ⟨congrArg _ (by omega), rfl⟩⟩⟩

/-- Four levels in three bytes, byte by byte. -/
theorem packedLevels_eq {l0 l1 l2 l3 : Nat} (h0 : l0 < 64) (h1 : l1 < 64) (h2 : l2 < 64)
    (h3 : l3 < 64) :
    packedLevels #v[l0, l1, l2, l3]
      = [.ofNat (l0 * 4 + l1 / 16), .ofNat (l1 % 16 * 16 + l2 / 4), .ofNat (l2 % 4 * 64 + l3)] := by
  have hfold : #v[l0, l1, l2, l3].toList.foldl (fun n l => n * 64 + l) 0
      = ((l0 * 64 + l1) * 64 + l2) * 64 + l3 := by
    simp
  rw [packedLevels, hfold]
  refine List.cons_eq_cons.mpr ⟨congrArg _ (by omega), List.cons_eq_cons.mpr ⟨congrArg _ (by omega),
    List.cons_eq_cons.mpr ⟨congrArg _ (by omega), rfl⟩⟩⟩

/-- Numbers below 256 are bytes of their own. -/
theorem ofNat_inj {x y : Nat} (hx : x < 256) (hy : y < 256) :
    UInt8.ofNat x = UInt8.ofNat y ↔ x = y := by
  rw [← UInt8.toNat_inj, UInt8.toNat_ofNat', UInt8.toNat_ofNat']
  omega

/-- The levels are contiguous exactly when the second fits four bits and the third two. -/
theorem longBsr_packed_iff :
    bsrPayload #v[s0, s1, s2, s3] .longBsr = packedLevels (levels #v[s0, s1, s2, s3]) ↔
      buffSizeTable s1 < 16 ∧ buffSizeTable s2 < 4 := by
  have h0 := buffSizeTable_lt s0
  have h1 := buffSizeTable_lt s1
  have h2 := buffSizeTable_lt s2
  have h3 := buffSizeTable_lt s3
  have hlevels : levels #v[s0, s1, s2, s3]
      = #v[buffSizeTable s0, buffSizeTable s1, buffSizeTable s2, buffSizeTable s3] := by
    simp [levels]
  rw [longBsr_payload, hlevels, packedLevels_eq h0 h1 h2 h3]
  simp only [List.cons.injEq, and_true]
  rw [ofNat_inj (by omega) (by omega), ofNat_inj (by omega) (by omega)]
  omega

/-- What `get_bsr` takes out of a long report. -/
theorem getBsr_long {payload : Bytes} (arr : Vector Nat 4)
    (h : payload.take 3 = bsrPayload #v[s0, s1, s2, s3] .longBsr) :
    (getBsr lcidLongBsr (some payload) arr).2
      = #v[bsrTableValue (buffSizeTable s0), bsrTableValue (buffSizeTable s1 % 16),
        bsrTableValue (buffSizeTable s2 / 16 * 16 + buffSizeTable s1 % 16 / 4),
        bsrTableValue (buffSizeTable s3)] := by
  have h0 := buffSizeTable_lt s0
  have h1 := buffSizeTable_lt s1
  have h2 := buffSizeTable_lt s2
  have h3 := buffSizeTable_lt s3
  rw [longBsr_payload] at h
  have hpayload := List.take_append_drop 3 payload
  rw [h] at hpayload
  rw [← hpayload]
  simp only [getBsr, if_true, List.cons_append, List.getD_cons_zero, List.getD_cons_succ,
    and_0xFC, and_0x3, and_0xf0, and_0x0F, and_0xc0, and_0x3f, UInt8.toNat_ofNat']
  -- Each of the four fields is put together from two of the three octets.
  refine (congrArg (Vector.map bsrTableValue) (@vec_congr _ _ _ _ (buffSizeTable s0)
    (buffSizeTable s1 % 16) (buffSizeTable s2 / 16 * 16 + buffSizeTable s1 % 16 / 4)
    (buffSizeTable s3) ?_ ?_ ?_ ?_)).trans (by simp)
  · omega
  · rw [shiftLeft_or (by omega)]
    omega
  · rw [shiftLeft_or (by omega)]
    omega
  · omega

/-- The levels are read back exactly when the second fits four bits, and the third has the upper
half of the second one where it should have its own lower bits. -/
theorem getBsr_long_iff {payload : Bytes} (arr : Vector Nat 4)
    (h : payload.take 3 = bsrPayload #v[s0, s1, s2, s3] .longBsr) :
    (getBsr lcidLongBsr (some payload) arr).2
        = (levels #v[s0, s1, s2, s3]).map (fun l => btable.getD l 0) ↔
      buffSizeTable s1 < 16 ∧ buffSizeTable s2 % 16 = buffSizeTable s1 / 4 := by
  have h0 := buffSizeTable_lt s0
  have h1 := buffSizeTable_lt s1
  have h2 := buffSizeTable_lt s2
  have h3 := buffSizeTable_lt s3
  have hvec : (levels #v[s0, s1, s2, s3]).map (fun l => btable.getD l 0)
      = #v[btable.getD (buffSizeTable s0) 0, btable.getD (buffSizeTable s1) 0,
        btable.getD (buffSizeTable s2) 0, btable.getD (buffSizeTable s3) 0] := by
    simp [levels]
  have hiff : ∀ {a b c d a' b' c' d' : Nat}, #v[a, b, c, d] = #v[a', b', c', d'] ↔
      a = a' ∧ b = b' ∧ c = c' ∧ d = d' := by
    intro a b c d a' b' c' d'
    simp
  rw [getBsr_long arr h, hvec, hiff, bsrTableValue_inj h0 h0, bsrTableValue_inj (by omega) h1,
    bsrTableValue_inj (by omega) h2, bsrTableValue_inj h3 h3]
  omega

/-! ### Short and truncated reports -/

/-- The only group with data. -/
def OnlyGroup (buffSize : Vector Nat 4) (lcg : Nat) : Prop :=
  lcg < 4 ∧ ∀ i, i < 4 → (buffSize.toList.getD i 0 ≠ 0 ↔ i = lcg)

/-- The byte of a short report: the group, and its level. -/
theorem shortBsr_payload {buffSize : Vector Nat 4} {lcg : Nat} (h : OnlyGroup buffSize lcg)
    {format : BsrFormat} (hformat : format ≠ .longBsr) :
    bsrPayload buffSize format
      = [.ofNat (lcg * 64 + buffSizeTable (buffSize.toList.getD lcg 0))] := by
  obtain ⟨hlt, hone⟩ := h
  have hlevel := buffSizeTable_lt (buffSize.toList.getD lcg 0)
  -- The loop keeps the last group with data, and there is only one.
  have hfold : (List.range 4).foldl (fun n i => if buffSize.toList.getD i 0 ≠ 0 then i else n) 0
      = lcg := by
    have h0 := hone 0 (by omega)
    have h1 := hone 1 (by omega)
    have h2 := hone 2 (by omega)
    have h3 := hone 3 (by omega)
    show (if buffSize.toList.getD 3 0 ≠ 0 then 3 else if buffSize.toList.getD 2 0 ≠ 0 then 2
      else if buffSize.toList.getD 1 0 ≠ 0 then 1 else if buffSize.toList.getD 0 0 ≠ 0 then 0
      else 0) = lcg
    simp only [h0, h1, h2, h3]
    split
    · omega
    · split
      · omega
      · split
        · omega
        · split <;> omega
  have hbytes : bsrPayload buffSize format
      = [.ofNat ((lcg &&& 0x3) <<< 6 |||
        (buffSizeTable (buffSize.toList.getD lcg 0) &&& 0x3f))] := by
    cases format with
    | longBsr => exact absurd rfl hformat
    | shortBsr =>
      simp only [bsrPayload]
      rw [hfold]
    | truncBsr =>
      simp only [bsrPayload]
      rw [hfold]
  rw [hbytes, and_0x3, and_0x3f, shiftLeft_or (by omega)]
  refine congrArg (fun n => [UInt8.ofNat n]) ?_
  omega

/-- A level stands for itself only at 0, or where the table has it at its place. -/
theorem bsrTableValue_eq_self {a : Nat} :
    bsrTableValue a = a ↔ a = 0 ∨ btable.getD (a % 64) 0 = a := by
  unfold bsrTableValue
  by_cases h : a = 0
  · rw [if_neg (not_not.mpr h)]
    exact iff_of_true rfl (.inl h)
  · rw [if_pos h]
    exact ⟨.inr, fun hor => hor.resolve_left h⟩

/-- The level of the group is read back, but the group is returned as zero, and the entries of the
other groups go through the table as well. -/
theorem getBsr_short_iff {payload : Bytes} {buffSize : Vector Nat 4} {lcg : Nat}
    (h : OnlyGroup buffSize lcg) {format : BsrFormat} (hformat : format ≠ .longBsr)
    (hp : payload.take 1 = bsrPayload buffSize format) (a0 a1 a2 a3 : Nat) :
    getBsr format.lcid (some payload) #v[a0, a1, a2, a3]
        = ((lcg : Int), #v[a0, a1, a2, a3].setIfInBounds lcg
            (btable.getD (buffSizeTable (buffSize.toList.getD lcg 0)) 0)) ↔
      lcg = 0 ∧ ∀ a ∈ [a1, a2, a3], a = 0 ∨ btable.getD (a % 64) 0 = a := by
  have hlevel := buffSizeTable_lt (buffSize.toList.getD lcg 0)
  have hlcg := h.1
  have hlcid : format.lcid ≠ lcidLongBsr := by
    cases format with
    | longBsr => exact absurd rfl hformat
    | shortBsr => decide
    | truncBsr => decide
  rw [shortBsr_payload h hformat] at hp
  have hpayload := List.take_append_drop 1 payload
  rw [hp] at hpayload
  generalize buffSizeTable (buffSize.toList.getD lcg 0) = level at hlevel hpayload ⊢
  have hgroup : (lcg * 64 + level) % 2 ^ 8 / 64 % 4 % 4 = lcg := by omega
  have hvalue : (lcg * 64 + level) % 2 ^ 8 % 64 = level := by omega
  rw [← hpayload]
  simp only [getBsr, if_neg hlcid, List.cons_append, List.getD_cons_zero, and_0xc0, and_0x3f,
    UInt8.toNat_ofNat', hgroup, hvalue, Prod.mk.injEq]
  constructor
  -- The returned group is masked twice, so only group 0 comes back; the other entries pass through
  -- the table.
  · rintro ⟨hzero, hvec⟩
    obtain rfl : lcg = 0 := by omega
    have hentries : bsrTableValue a1 = a1 ∧ bsrTableValue a2 = a2 ∧ bsrTableValue a3 = a3 := by
      simpa using And.right (by simpa using hvec :
        bsrTableValue level = btable.getD level 0 ∧ bsrTableValue a1 = a1 ∧ bsrTableValue a2 = a2
          ∧ bsrTableValue a3 = a3)
    refine ⟨rfl, fun a ha => bsrTableValue_eq_self.mp ?_⟩
    simp only [List.mem_cons, List.not_mem_nil, or_false] at ha
    rcases ha with rfl | rfl | rfl
    · exact hentries.1
    · exact hentries.2.1
    · exact hentries.2.2
  · rintro ⟨rfl, hentries⟩
    have h1 := bsrTableValue_eq_self.mpr (hentries a1 (by simp))
    have h2 := bsrTableValue_eq_self.mpr (hentries a2 (by simp))
    have h3 := bsrTableValue_eq_self.mpr (hentries a3 (by simp))
    have h0 := bsrTableValue_level hlevel
    refine ⟨rfl, ?_⟩
    simp [h0, h1, h2, h3]

end

/-! ### The round trip of buffer status reports -/

/-- The value of the table for the level of each group. -/
def tableValues (buffSize : Vector Nat 4) : Vector Nat 4 :=
  (levels buffSize).map fun l => btable.getD l 0

/-- What `get_bsr` does with a report in a PDU that was parsed. -/
def readBsr (bytes : Bytes) (s : RxSubh) (buffSize : Vector Nat 4) : Int × Vector Nat 4 :=
  getBsr s.lcid (some (bytes.drop s.payload)) buffSize

/-- A long report is packed without gaps and read back exactly when the level of the second group
fits four bits and that of the third is a quarter of it. A short or truncated report is read back
exactly when it is for the first group, and the entries of the others are zero or values that the
table leaves as they are. -/
theorem bsr_roundTrip_iff (maxSubheaders pduLen : Nat) (pre post : List SetCall) (bytes : Bytes) :
    (∀ s0 s1 s2 s3 : Nat,
      WrittenPdu maxSubheaders pduLen true (pre ++ .bsr #v[s0, s1, s2, s3] .longBsr :: post) bytes →
      (bsrPayload #v[s0, s1, s2, s3] .longBsr = packedLevels (levels #v[s0, s1, s2, s3]) ∧
        (∀ buffSize, ReadsCe maxSubheaders true bytes pre fun s =>
          (readBsr bytes s buffSize).2 = tableValues #v[s0, s1, s2, s3]) ↔
        buffSizeTable s1 < 16 ∧ buffSizeTable s2 = buffSizeTable s1 / 4)) ∧
    ∀ (sizes : Vector Nat 4) (format : BsrFormat) (lcg a0 a1 a2 a3 : Nat),
      WrittenPdu maxSubheaders pduLen true (pre ++ .bsr sizes format :: post) bytes →
      format ≠ .longBsr → OnlyGroup sizes lcg →
      ((ReadsCe maxSubheaders true bytes pre fun s =>
          readBsr bytes s #v[a0, a1, a2, a3]
            = ((lcg : Int), #v[a0, a1, a2, a3].setIfInBounds lcg
                (btable.getD (buffSizeTable (sizes.toList.getD lcg 0)) 0))) ↔
        lcg = 0 ∧ ∀ a ∈ [a1, a2, a3], a = 0 ∨ btable.getD (a % 64) 0 = a) := by
  constructor
  · intro s0 s1 s2 s3 h
    have hread : ∀ buffSize, (ReadsCe maxSubheaders true bytes pre fun s =>
        (readBsr bytes s buffSize).2 = tableValues #v[s0, s1, s2, s3]) ↔
        buffSizeTable s1 < 16 ∧ buffSizeTable s2 % 16 = buffSizeTable s1 / 4 := by
      intro buffSize
      refine h.readsCe_iff rfl fun s hlcid hpayload => ?_
      rw [readBsr, hlcid]
      exact getBsr_long_iff buffSize hpayload
    rw [longBsr_packed_iff, forall_congr' hread]
    constructor
    · rintro ⟨⟨h1, h2⟩, hall⟩
      have := (hall #v[0, 0, 0, 0]).2
      omega
    · rintro ⟨h1, h2⟩
      exact ⟨⟨h1, by omega⟩, fun _ => ⟨h1, by omega⟩⟩
  · intro sizes format lcg a0 a1 a2 a3 h hformat hone
    -- A short report is one octet, so the reader sees its payload whole.
    refine h.readsCe_iff rfl fun s hlcid hpayload => ?_
    have hlen : (callElement (.bsr sizes format)).2.length = 1 := by
      show (bsrPayload sizes format).length = 1
      rw [shortBsr_payload hone hformat]
      rfl
    rw [hlen] at hpayload
    rw [readBsr, hlcid]
    exact getBsr_short_iff hone hformat hpayload a0 a1 a2 a3

/-- A single valid call is a list of valid calls. -/
theorem validCall_singleton {isUl : Bool} {c : SetCall} (h : ValidCall isUl c) :
    ∀ c' ∈ [c], ValidCall isUl c' := by
  intro c' hc'
  rw [List.mem_singleton.mp hc']
  exact h

/-- A PDU with the control element alone, which is the first subheader. -/
theorem writtenPdu_one {isUl : Bool} {c : SetCall} {bytes : Bytes} (hv : ValidCall isUl c)
    (hrun : ∃ pdu, assemble (initTx 20 10 isUl) [c] = some pdu ∧ pdu.writePacket = some bytes)
    (hfits : callsSpace [c] ≤ 10) : WrittenPdu 20 10 isUl ([] ++ c :: []) bytes where
  max := by decide
  len := by decide
  valid := validCall_singleton hv
  written := hrun
  fits := hfits
  slots := fun h => absurd h.1 (by simp)

/-- A long report with data in the first and the last group, and a short one for the first. -/
theorem bsr_roundTrip_iff_reports :
    (∀ buffSize, ReadsCe 20 true [62, 31, 64, 0, 21, 0, 0, 0, 0, 0] [] fun s =>
      (readBsr [62, 31, 64, 0, 21, 0, 0, 0, 0, 0] s buffSize).2 = tableValues #v[100, 0, 0, 200]) ∧
    ReadsCe 20 true [61, 31, 16, 0, 0, 0, 0, 0, 0, 0] [] fun s =>
      readBsr [61, 31, 16, 0, 0, 0, 0, 0, 0, 0] s #v[7, 0, 0, 0]
        = (((0 : Nat) : Int), #v[7, 0, 0, 0].setIfInBounds 0
          (btable.getD (buffSizeTable 100) 0)) := by
  constructor
  · exact (((bsr_roundTrip_iff 20 10 [] [] _).1 100 0 0 200
      (writtenPdu_one rfl ⟨_, rfl, rfl⟩ (by decide))).mpr (by decide)).2
  · refine ((bsr_roundTrip_iff 20 10 [] [] _).2 #v[100, 0, 0, 0] .shortBsr 0 7 0 0 0
      (writtenPdu_one rfl ⟨_, rfl, rfl⟩ (by decide)) (by decide) ?_).mpr (by decide)
    unfold OnlyGroup
    decide

/-- A long report with data in the third group only, and a short report for the second group. -/
theorem not_bsr_roundTrip :
    (WrittenPdu 20 10 true ([] ++ .bsr #v[0, 0, 1000, 0] .longBsr :: [])
        [62, 31, 0, 1, 192, 0, 0, 0, 0, 0] ∧
      bsrPayload #v[0, 0, 1000, 0] .longBsr ≠ packedLevels (levels #v[0, 0, 1000, 0])) ∧
    WrittenPdu 20 10 true ([] ++ .bsr #v[0, 100, 0, 0] .shortBsr :: [])
        [61, 31, 80, 0, 0, 0, 0, 0, 0, 0] ∧
      ¬ReadsCe 20 true [61, 31, 80, 0, 0, 0, 0, 0, 0, 0] [] fun s =>
        (readBsr [61, 31, 80, 0, 0, 0, 0, 0, 0, 0] s #v[0, 0, 0, 0]).1 = 1 := by
  refine ⟨⟨writtenPdu_one rfl ⟨_, rfl, rfl⟩ (by decide), ?_⟩,
    writtenPdu_one rfl ⟨_, rfl, rfl⟩ (by decide), ?_⟩
  · exact fun h => absurd (longBsr_packed_iff.mp h) (by decide)
  · rintro ⟨ss, s, -, -, hone⟩
    cases hone

/-! ### Identities -/

/-- The subheader that `get` returns. -/
def SchPdu.cur? (pdu : SchPdu) : Option SchSubh := pdu.curIdx.bind fun i => pdu.subheaders[i]?

/-- A setter of a control element that succeeds leaves its payload in front of `w_payload_ce`. -/
theorem setCe_cur {pdu pdu' : SchPdu} {lcid : Nat} {payload : Bytes} {s : SchSubh}
    (h : pdu.setCe lcid payload = (pdu', true)) (hs : SchPdu.cur? pdu' = some s) :
    ∃ rest, s.wPayloadCe = payload ++ rest := by
  unfold SchPdu.setCe at h
  split at h
  · obtain rfl := (Prod.mk.inj h).1
    obtain ⟨i, hi, hat⟩ := Option.bind_eq_some_iff.mp hs
    have hcur : pdu.curIdx = some i := by
      rw [← hi]
      unfold SchPdu.modifyCur
      split <;> rfl
    have hmod : pdu.modifyCur (fun s => { s with
        lcid := lcid, nofBytes := payload.length
        wPayloadCe := payload ++ s.wPayloadCe.drop payload.length })
        = { pdu with subheaders := pdu.subheaders.modify i fun s => { s with
            lcid := lcid, nofBytes := payload.length
            wPayloadCe := payload ++ s.wPayloadCe.drop payload.length } } := by
      rw [SchPdu.modifyCur, hcur]
    rw [hmod] at hat
    simp only [List.getElem?_modify_eq] at hat
    obtain ⟨s0, -, rfl⟩ := Option.map_eq_some_iff.mp hat
    exact ⟨_, rfl⟩
  · cases (Prod.mk.inj h).2

/-- Fields that do not overlap add up. -/
theorem or_shiftLeft {a b k : Nat} (h : b < 2 ^ k) : b ||| a <<< k = a * 2 ^ k + b := by
  rw [Nat.or_comm, shiftLeft_or h]

/-- `get_c_rnti` reads the lower byte first. -/
theorem getCRnti_eq (b0 b1 : UInt8) (rest : Bytes) :
    getCRnti (b0 :: b1 :: rest) = b1.toNat * 256 + b0.toNat :=
  or_shiftLeft b0.toNat_lt

/-- `set_c_rnti` drops the upper byte and puts the lower one where `get_c_rnti` reads the upper
one. -/
theorem getCRnti_cRntiPayload_iff (crnti : Nat) (rest : Bytes) :
    getCRnti (cRntiPayload crnti ++ rest) = crnti ↔ crnti = 0 := by
  have hhigh : (UInt8.ofNat ((crnti &&& 0xff00) % 256 >>> 8)).toNat = 0 := by
    have hzero : (crnti &&& 0xff00) % 256 >>> 8 = 0 := by
      rw [Nat.shiftRight_eq_div_pow]
      omega
    rw [hzero]
    rfl
  have hlow : (UInt8.ofNat (crnti &&& 0x00ff)).toNat = crnti % 256 := by
    rw [and_0xFF, UInt8.toNat_ofNat']
    omega
  show getCRnti (_ :: _ :: rest) = _ ↔ _
  rw [getCRnti_eq, hhigh, hlow]
  omega

/-- `get_con_res_id` reads the highest byte first. -/
theorem getConResId_eq (b0 b1 b2 b3 b4 b5 : UInt8) (rest : Bytes) :
    getConResId (b0 :: b1 :: b2 :: b3 :: b4 :: b5 :: rest)
      = b0.toNat * 2 ^ 40 + (b1.toNat * 2 ^ 32 + (b2.toNat * 2 ^ 24 + (b3.toNat * 2 ^ 16
        + (b4.toNat * 2 ^ 8 + b5.toNat)))) := by
  have h1 := b1.toNat_lt
  have h2 := b2.toNat_lt
  have h3 := b3.toNat_lt
  have h4 := b4.toNat_lt
  have h5 := b5.toNat_lt
  show b5.toNat ||| b4.toNat <<< 8 ||| b3.toNat <<< 16 ||| b2.toNat <<< 24 ||| b1.toNat <<< 32
    ||| b0.toNat <<< 40 = _
  rw [or_shiftLeft h5, @or_shiftLeft b3.toNat _ 16 (by omega),
    @or_shiftLeft b2.toNat _ 24 (by omega), @or_shiftLeft b1.toNat _ 32 (by omega),
    @or_shiftLeft b0.toNat _ 40 (by omega)]

/-- A byte of a number, cut out by a mask and a shift. -/
theorem toNat_byteAt (x k : Nat) :
    (UInt8.ofNat ((x &&& (2 ^ 8 - 1) <<< k) >>> k)).toNat = x / 2 ^ k % 256 := by
  rw [mask_shiftRight, UInt8.toNat_ofNat']
  omega

/-- The bytes of an identity, as numbers. -/
theorem conResIdPayload_bytes (id : Nat) : ∃ c0 c1 c2 c3 c4 c5,
    conResIdPayload id = [c0, c1, c2, c3, c4, c5] ∧ c0.toNat = id / 2 ^ 40 % 256 ∧
      c1.toNat = id / 2 ^ 32 % 256 ∧ c2.toNat = id / 2 ^ 24 % 256 ∧ c3.toNat = id / 2 ^ 16 % 256 ∧
      c4.toNat = id / 2 ^ 8 % 256 ∧ c5.toNat = id % 256 := by
  refine ⟨_, _, _, _, _, _, rfl, toNat_byteAt id 40, toNat_byteAt id 32, toNat_byteAt id 24,
    toNat_byteAt id 16, toNat_byteAt id 8, ?_⟩
  rw [and_0xFF, UInt8.toNat_ofNat']
  omega

/-- A byte in front of a number of `k` bits. -/
theorem mul_add_eq_iff {k b n x : Nat} (hn : n < 2 ^ k) :
    b * 2 ^ k + n = x ↔ b = x / 2 ^ k ∧ n = x % 2 ^ k := by
  constructor
  · rintro rfl
    rw [Nat.mul_comm, Nat.mul_add_div (Nat.two_pow_pos k), Nat.mul_add_mod, Nat.div_eq_of_lt hn,
      Nat.mod_eq_of_lt hn]
    exact ⟨rfl, rfl⟩
  · rintro ⟨rfl, rfl⟩
    exact Nat.div_add_mod' x (2 ^ k)

/-- A contention resolution identity has six bytes. -/
theorem length_conResIdPayload (id : Nat) : (conResIdPayload id).length = 6 := rfl

/-- Six bytes, and the rest. -/
theorem six_bytes {bytes : Bytes} (h : 6 ≤ bytes.length) : ∃ b0 b1 b2 b3 b4 b5 rest,
    bytes = b0 :: b1 :: b2 :: b3 :: b4 :: b5 :: rest := by
  rcases bytes with _ | ⟨b0, _ | ⟨b1, _ | ⟨b2, _ | ⟨b3, _ | ⟨b4, _ | ⟨b5, rest⟩⟩⟩⟩⟩⟩
  all_goals first | exact ⟨_, _, _, _, _, _, _, rfl⟩ | simp at h

/-- `get_con_res_id` returns an identity exactly when it reads the bytes that `set_con_res_id`
writes for it. -/
theorem getConResId_eq_iff {id : Nat} (h : id < 2 ^ 48) {bytes : Bytes} (hlen : 6 ≤ bytes.length) :
    getConResId bytes = id ↔ bytes.take 6 = conResIdPayload id := by
  obtain ⟨b0, b1, b2, b3, b4, b5, rest, rfl⟩ := six_bytes hlen
  obtain ⟨c0, c1, c2, c3, c4, c5, hpayload, h0, h1, h2, h3, h4, h5⟩ := conResIdPayload_bytes id
  have hb1 := b1.toNat_lt
  have hb2 := b2.toNat_lt
  have hb3 := b3.toNat_lt
  have hb4 := b4.toNat_lt
  have hb5 := b5.toNat_lt
  rw [getConResId_eq, hpayload, mul_add_eq_iff (by omega), mul_add_eq_iff (by omega),
    mul_add_eq_iff (by omega), mul_add_eq_iff (by omega), mul_add_eq_iff (by omega)]
  show _ ↔ [b0, b1, b2, b3, b4, b5] = [c0, c1, c2, c3, c4, c5]
  simp only [List.cons.injEq, and_true, ← UInt8.toNat_inj, h0, h1, h2, h3, h4, h5]
  -- Both sides say what each byte is.
  rw [show id / 2 ^ 40 % 256 = id / 2 ^ 40 by omega,
    show id % 2 ^ 40 / 2 ^ 32 = id / 2 ^ 32 % 256 by omega,
    show id % 2 ^ 40 % 2 ^ 32 = id % 2 ^ 32 by omega,
    show id % 2 ^ 32 / 2 ^ 24 = id / 2 ^ 24 % 256 by omega,
    show id % 2 ^ 32 % 2 ^ 24 = id % 2 ^ 24 by omega,
    show id % 2 ^ 24 / 2 ^ 16 = id / 2 ^ 16 % 256 by omega,
    show id % 2 ^ 24 % 2 ^ 16 = id % 2 ^ 16 by omega,
    show id % 2 ^ 16 / 2 ^ 8 = id / 2 ^ 8 % 256 by omega,
    show id % 2 ^ 16 % 2 ^ 8 = id % 256 by omega]

/-- The identity of RRC is the value that `get_con_res_id` reads from the same bytes. -/
theorem uecri_eq {msg payload : Bytes} (hlen : 6 ≤ msg.length)
    (hecho : payload.take 6 = msg.take 6) : uecri msg = getConResId payload := by
  obtain ⟨b0, b1, b2, b3, b4, b5, rest, rfl⟩ := six_bytes hlen
  have hpayload := List.take_append_drop 6 payload
  rw [hecho] at hpayload
  rw [← hpayload]
  show littleEndian [b5, b4, b3, b2, b1, b0, 0, 0]
    = getConResId (b0 :: b1 :: b2 :: b3 :: b4 :: b5 :: _)
  rw [getConResId_eq]
  simp only [littleEndian, UInt8.toNat_zero]
  omega

/-- The two bytes that `get_c_rnti` reads for a C-RNTI. -/
def cRntiRead (crnti : Nat) : Bytes := [.ofNat crnti, .ofNat (crnti / 256)]

/-- The C-RNTI is read back when the two bytes stand in the order of the reader. -/
theorem getCRnti_eq_iff {crnti : Nat} (h : crnti < 2 ^ 16) {bytes : Bytes}
    (hlen : 2 ≤ bytes.length) :
    getCRnti bytes = crnti ↔ bytes.take 2 = cRntiRead crnti := by
  obtain ⟨b0, b1, rest, rfl⟩ : ∃ b0 b1 rest, bytes = b0 :: b1 :: rest := by
    rcases bytes with _ | ⟨b0, _ | ⟨b1, rest⟩⟩
    · simp at hlen
    · simp at hlen
    · exact ⟨b0, b1, rest, rfl⟩
  have hb0 := b0.toNat_lt
  have hb1 := b1.toNat_lt
  rw [getCRnti_eq]
  show _ ↔ [b0, b1] = [UInt8.ofNat crnti, UInt8.ofNat (crnti / 256)]
  simp only [List.cons.injEq, and_true, ← UInt8.toNat_inj, UInt8.toNat_ofNat']
  omega

/-- C-RNTI and contention resolution identity. On the subheader, the getters return what was set
when `payload` is `NULL`, but for C-RNTIs other than zero; a subheader with a `payload` from a
failed SDU is read there. On the PDU, the identity is read back, and of the C-RNTIs only zero is.
RRC registers what `get_con_res_id` makes of the same bytes. -/
theorem identities_iff {crnti conResId : Nat} (hcrnti : crnti < 2 ^ 16) (hid : conResId < 2 ^ 48) :
    (∀ (pdu pdu' : SchPdu) (s : SchSubh) (payload : Option Bytes),
      (∀ bytes, payload = some bytes → 6 ≤ bytes.length) → SchPdu.cur? pdu' = some s →
      (pdu.setCRnti crnti = (pdu', true) →
        (getCRnti (s.readFrom payload) = crnti ↔
          (payload = none ∧ crnti = 0 ∨
            ∃ bytes, payload = some bytes ∧ bytes.take 2 = cRntiRead crnti))) ∧
      (pdu.setConResId conResId = (pdu', true) →
        (getConResId (s.readFrom payload) = conResId ↔
          (payload = none ∨
            ∃ bytes, payload = some bytes ∧ bytes.take 6 = conResIdPayload conResId)))) ∧
    (∀ (maxSubheaders pduLen : Nat) (pre post : List SetCall) (bytes : Bytes),
      (WrittenPdu maxSubheaders pduLen true (pre ++ .cRnti crnti :: post) bytes →
        ((ReadsCe maxSubheaders true bytes pre fun s => getCRnti (bytes.drop s.payload) = crnti) ↔
          crnti = 0)) ∧
      (WrittenPdu maxSubheaders pduLen false (pre ++ .conResId conResId :: post) bytes →
        ReadsCe maxSubheaders false bytes pre fun s =>
          getConResId (bytes.drop s.payload) = conResId)) ∧
    ∀ msg payload : Bytes, 6 ≤ msg.length → payload.take 6 = msg.take 6 →
      uecri msg = getConResId payload := by
  refine ⟨fun pdu pdu' s payload hlen hs => ⟨fun hset => ?_, fun hset => ?_⟩,
    fun maxSubheaders pduLen pre post bytes => ⟨fun h => ?_, fun h => ?_⟩,
    fun msg payload => uecri_eq⟩
  · obtain ⟨rest, hce⟩ := setCe_cur hset hs
    cases payload with
    | none =>
      show getCRnti s.wPayloadCe = crnti ↔ _
      rw [hce, getCRnti_cRntiPayload_iff]
      simp
    | some bytes =>
      show getCRnti bytes = crnti ↔ _
      rw [getCRnti_eq_iff hcrnti (Nat.le_trans (by decide) (hlen bytes rfl))]
      simp
  · obtain ⟨rest, hce⟩ := setCe_cur hset hs
    cases payload with
    | none =>
      show getConResId s.wPayloadCe = conResId ↔ _
      rw [hce, getConResId_eq_iff hid (by simp [length_conResIdPayload]),
        List.take_left' (length_conResIdPayload conResId)]
      simp
    | some bytes =>
      show getConResId bytes = conResId ↔ _
      rw [getConResId_eq_iff hid (hlen bytes rfl)]
      simp
  · refine h.readsCe_iff rfl fun s _ hpayload => ?_
    rw [← List.take_append_drop 2 (bytes.drop s.payload)]
    change (bytes.drop s.payload).take 2 = cRntiPayload crnti at hpayload
    rw [hpayload]
    exact getCRnti_cRntiPayload_iff crnti _
  · refine (h.readsCe_iff rfl (Q := True) fun s _ hpayload => ?_).mpr trivial
    refine iff_of_true ((getConResId_eq_iff hid ?_).mpr hpayload) trivial
    have hlen6 := congrArg List.length hpayload
    change ((bytes.drop s.payload).take 6).length = 6 at hlen6
    rw [List.length_take] at hlen6
    omega

/-- The C-RNTI zero, an identity in a PDU, and the same identity registered by RRC. -/
theorem identities_iff_examples :
    (ReadsCe 20 true [59, 31, 0, 0, 0, 0, 0, 0, 0, 0] [] fun s =>
      getCRnti (([59, 31, 0, 0, 0, 0, 0, 0, 0, 0] : Bytes).drop s.payload) = 0) ∧
    (ReadsCe 20 false [60, 31, 18, 52, 86, 120, 154, 188, 0, 0] [] fun s =>
      getConResId (([60, 31, 18, 52, 86, 120, 154, 188, 0, 0] : Bytes).drop s.payload)
        = 0x123456789abc) ∧
    uecri [18, 52, 86, 120, 154, 188] = getConResId [18, 52, 86, 120, 154, 188] :=
  have hiff := identities_iff (by decide : 0 < 2 ^ 16) (by decide : 0x123456789abc < 2 ^ 48)
  ⟨((hiff.2.1 20 10 [] [] _).1 (writtenPdu_one rfl ⟨_, rfl, rfl⟩ (by decide))).mpr rfl,
    (hiff.2.1 20 10 [] [] _).2 (writtenPdu_one rfl ⟨_, rfl, rfl⟩ (by decide)),
    hiff.2.2 _ _ (by decide) rfl⟩

/-- A C-RNTI that the parser does not read back. -/
theorem not_identities :
    WrittenPdu 20 10 true ([] ++ .cRnti 0x4601 :: []) [59, 31, 0, 1, 0, 0, 0, 0, 0, 0] ∧
    ¬ReadsCe 20 true [59, 31, 0, 1, 0, 0, 0, 0, 0, 0] [] fun s =>
      getCRnti (([59, 31, 0, 1, 0, 0, 0, 0, 0, 0] : Bytes).drop s.payload) = 0x4601 := by
  refine ⟨writtenPdu_one rfl ⟨_, rfl, rfl⟩ (by decide), ?_⟩
  rintro ⟨ss, s, hparse, hs, hread⟩
  obtain rfl := Option.some.inj ((show parsePacket 20 true [59, 31, 0, 1, 0, 0, 0, 0, 0, 0]
    = some [{ lcid := 27, nofBytes := 2, payload := 2 },
      { lcid := 31, nofBytes := 6, payload := 4 }] from rfl).symm.trans hparse)
  obtain rfl := Option.some.inj hs
  exact absurd hread (by decide)

end SrsUE.Proofs.Mac
