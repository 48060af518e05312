import SrsUE.Proofs.Rlc.AmDataHeader
import SrsUE.Proofs.Rlc.UmAssembly
import SrsUE.Proofs.Rlc.UmTransmit

/-!
# `SrsUE.Proofs.Rlc.UmPdus`: what the PDUs of `rlc_um` carry

When each grant leaves room for a byte behind every length indicator (`UmRoomy`), a PDU carries
whole SDUs, each with a length indicator, and then a last piece that is not empty
(`UmFilled`). Its stream followed by that of the SDUs left behind is the stream of the SDUs
there were (`UmFilled.tokens`), and the receiver reads the header back as it was written
(`umReadDataPduHeader_write`).
-/

set_option autoImplicit false

namespace SrsUE.Proofs.Rlc

open SrsUE.Lib
open SrsUE.Rlc

/-! ### The header -/

/-- The first byte of a header with a 5-bit SN, read back field by field. -/
theorem umFirstByte5_fields : ∀ (ext : Bool) (fi : FiField) (sn : Fin 32),
    let b := (UInt8.ofNat ((fi.toNat &&& 0x03) <<< 6 ||| (ext.toNat &&& 0x01) <<< 5
      ||| (sn.val &&& 0x1F))).toNat
    (b >>> 5) &&& 0x01 = ext.toNat ∧ BitVec.ofNat 2 ((b >>> 6) &&& 0x03) = fi ∧
      b &&& 0x1F = sn.val := by
  decide

/-- The first byte of a header with a 10-bit SN. -/
theorem umFirstByte10_fields : ∀ (ext : Bool) (fi : FiField) (hi : Fin 4),
    let b := (UInt8.ofNat ((fi.toNat &&& 0x03) <<< 3 ||| (ext.toNat &&& 0x01) <<< 2
      ||| hi.val)).toNat
    (b >>> 2) &&& 0x01 = ext.toNat ∧ BitVec.ofNat 2 ((b >>> 3) &&& 0x03) = fi ∧
      b &&& 0x03 = hi.val := by
  decide

/-- The fixed part of a written header is read back. -/
theorem umReadFixedPart_write {header : UmdPduHeader} (hsn : header.sn < 2 * umWidth header.snSize)
    (data : Bytes) :
    Um.readFixedPart header.snSize (Um.writeDataPduHeader header ++ data)
      = some (if header.li.isEmpty then 0 else 1, { header with li := [] },
          writeLis header.li ++ data) := by
  obtain ⟨fi, snSize, sn, li⟩ := header
  have hext : (!li.isEmpty).toNat = if li.isEmpty then 0 else 1 := by
    cases li <;> rfl
  unfold Um.writeDataPduHeader
  cases snSize with
  | size5Bits =>
    obtain ⟨h5, h6, h0⟩ := umFirstByte5_fields (!li.isEmpty) fi ⟨sn, hsn⟩
    rw [hext] at h5 h6 h0
    simp only [List.cons_append, List.nil_append, Um.readFixedPart, h5, h6, h0]
  | size10Bits =>
    have hlt : sn < 1024 := hsn
    obtain ⟨h2, h3, h0⟩ := umFirstByte10_fields (!li.isEmpty) fi ⟨sn / 256 % 4, by omega⟩
    rw [hext] at h2 h3 h0
    -- The two high bits of the SN go to the first byte, the other eight have one of their own.
    have hsn' : (sn / 256 % 4) <<< 8 ||| ((UInt8.ofNat (sn &&& 0xFF)).toNat &&& 0xFF) = sn := by
      rw [toNat_lowByte, and_0xFF, shiftLeft_or (by omega)]
      omega
    simp only [and_0x300, List.cons_append, List.nil_append, Um.readFixedPart, h2, h3, h0, hsn']

/-- The reader, with the test for the room of the `li` array where the length indicators are
stored. -/
theorem umReadDataPduHeader_eq (snSize : UmdSnSize) (payload : Bytes) :
    Um.readDataPduHeader snSize payload =
      (Um.readFixedPart snSize payload).bind fun (ext, header, rest) =>
        if ext = 0 then some (header, rest)
        else (readLis rest).bind fun (li, rest) =>
          if li.length ≤ 512 then some ({ header with li := li }, rest) else none := by
  unfold Um.readDataPduHeader Um.parseDataPduHeader
  simp only [Option.bind_eq_bind]
  cases snSize with
  | size5Bits =>
    cases payload with
    | nil => rfl
    | cons b0 rest => exact extensionPart_room rfl (fun _ => rfl) _ _
  | size10Bits =>
    rcases payload with _ | ⟨b0, _ | ⟨b1, rest⟩⟩
    · rfl
    · rfl
    · exact extensionPart_room rfl (fun _ => rfl) _ _

/-- A header is read back with eleven bits of each length indicator, and the data behind it. -/
theorem umReadDataPduHeader_wire {header : UmdPduHeader}
    (hsn : header.sn < 2 * umWidth header.snSize) (hlen : header.li.length ≤ 512) (data : Bytes) :
    Um.readDataPduHeader header.snSize (Um.writeDataPduHeader header ++ data)
      = some ({ header with li := header.li.map (· % 2048) }, data) := by
  rw [umReadDataPduHeader_eq, umReadFixedPart_write hsn]
  obtain ⟨fi, snSize, sn, li⟩ := header
  cases li with
  | nil => simp [writeLis]
  | cons l ls =>
    have hread := readLis_writeLis (l :: ls) (List.cons_ne_nil l ls) data
    have hlen' : ((l :: ls).map (· % 2048)).length ≤ 512 := by
      rw [List.length_map]
      exact hlen
    simp only [List.isEmpty_cons, Bool.false_eq_true, if_false, Nat.one_ne_zero, hread,
      Option.bind_some, if_pos hlen']

/-- A header whose fields fit is read back as it was written, with the data behind it. -/
theorem umReadDataPduHeader_write {header : UmdPduHeader}
    (hsn : header.sn < 2 * umWidth header.snSize) (hli : ∀ l ∈ header.li, l < 2048)
    (hlen : header.li.length ≤ 512) (data : Bytes) :
    Um.readDataPduHeader header.snSize (Um.writeDataPduHeader header ++ data)
      = some (header, data) := by
  have hmap : header.li.map (· % 2048) = header.li := by
    conv_rhs => rw [← List.map_id header.li]
    exact List.map_congr_left fun k hk => Nat.mod_eq_of_lt (hli k hk)
  rw [umReadDataPduHeader_wire hsn hlen, hmap]

/-! ### Filled PDUs -/

/-- Whenever a length indicator is added for the SDUs `xs`, a byte of the next SDU fits behind the
longer header. `hb` is the length of the fixed header. -/
def UmRoomy (hb n : Nat) (sdus : List Bytes) : Prop :=
  ∀ xs y ys, sdus = xs ++ y :: ys → xs ≠ [] →
    hb + xs.flatten.length + liBytes (xs.length - 1) < n →
    hb + xs.flatten.length + liBytes xs.length < n

/-- The condition, for each number of SDUs that the PDU could hold. -/
theorem umRoomy_iff {hb n : Nat} {sdus : List Bytes} :
    UmRoomy hb n sdus ↔ ∀ k < sdus.length, 0 < k →
      hb + (sdus.take k).flatten.length + liBytes (k - 1) < n →
      hb + (sdus.take k).flatten.length + liBytes k < n := by
  constructor
  · intro h k hk hpos
    have hsplit : sdus = sdus.take k ++ sdus.get ⟨k, hk⟩ :: sdus.drop (k + 1) := by
      rw [List.get_eq_getElem, ← List.drop_eq_getElem_cons hk, List.take_append_drop]
    have hlen : (sdus.take k).length = k := List.length_take_of_le (Nat.le_of_lt hk)
    have := h _ _ _ hsplit (by rw [← List.length_pos_iff, hlen]; exact hpos)
    rwa [hlen] at this
  · rintro h xs y ys rfl hne
    have := h xs.length (by simp) (List.length_pos_iff.mpr hne)
    rwa [List.take_left] at this

instance (hb n : Nat) (sdus : List Bytes) : Decidable (UmRoomy hb n sdus) :=
  decidable_of_iff _ umRoomy_iff.symm

/-- Such a grant is not overrun. -/
theorem UmRoomy.not_umOverruns {hb n : Nat} {sdus : List Bytes} (h : UmRoomy hb n sdus) :
    ¬UmOverruns hb n sdus := by
  rintro ⟨xs, y, ys, hsplit, hodd, heq⟩
  have hne : xs ≠ [] := by
    rintro rfl
    exact absurd hodd (by decide)
  have hroom := h xs y ys hsplit hne (by omega)
  unfold liBytes at *
  omega

/-- Nothing is left behind the PDU, or it uses up the grant. -/
def UmFull (hb n : Nat) (b : Um.PduBuild) : Prop :=
  b.txSdu.toList ++ b.queue = [] ∨ n ≤ hb + liBytes b.li.length + b.pdu.length

/-- The PDU carries the SDUs `xs` whole and then the piece `d`, out of these SDUs. -/
structure UmFilled (sdus xs : List Bytes) (d : Bytes) (b : Um.PduBuild) : Prop where
  li : b.li = xs.map List.length
  pdu : b.pdu = xs.flatten ++ d
  piece : d ≠ []
  rest : ∀ r, b.txSdu = some r → r ≠ []
  split : sdus = xs ++ (d ++ b.txSdu.getD []) :: b.queue

section
variable {hb n : Nat} {xs : List Bytes} {b : Um.PduBuild} {sdus : List Bytes} {d : Bytes}

/-- The stream of a filled PDU, and the SDUs behind it. -/
theorem UmFilled.tokens (h : UmFilled sdus xs d b) {header : UmdPduHeader} (hli : header.li = b.li)
    (hfi : Um.endAligned header.fi = b.txSdu.isNone) :
    umTokens { header := header, buf := b.pdu } ++ marked (b.txSdu.toList ++ b.queue)
      = marked sdus := by
  unfold umTokens
  simp only [hli, hfi, h.li, h.pdu, frame_flatten]
  rw [h.split]
  cases b.txSdu with
  | none => simp [marked_append, marked_cons]
  | some r => simp [marked_append, marked_cons]

/-- The bytes of a PDU in its grant are within a bound when the grant is, or when all that is
pending is. -/
theorem UmFilled.length_le_iff {ys : List Bytes} (h : UmFilled sdus ys d b) (hfull : UmFull hb n b)
    (hfits : UmFits hb n b) (bound : Nat) :
    hb + liBytes b.li.length + b.pdu.length ≤ bound
      ↔ n ≤ bound ∨ umHead hb (sdus.length - 1) + sdus.flatten.length ≤ bound := by
  have hsize := hfits.size
  have hli : b.li.length = ys.length := by rw [h.li, List.length_map]
  have hpdu : b.pdu.length = ys.flatten.length + d.length := by rw [h.pdu, List.length_append]
  have hcount : sdus.length = ys.length + 1 + b.queue.length := by
    rw [h.split, List.length_append, List.length_cons]
    omega
  have hbytes : sdus.flatten.length
      = ys.flatten.length + (d.length + (b.txSdu.getD []).length) + b.queue.flatten.length := by
    rw [h.split, List.flatten_append, List.flatten_cons, List.length_append, List.length_append,
      List.length_append]
    omega
  have hgrow := liBytes_le (show b.li.length ≤ sdus.length - 1 by omega)
  unfold umHead
  rcases hfull with hnil | hfull
  · -- The PDU carries all that is pending.
    obtain ⟨htx, hqueue⟩ := List.append_eq_nil_iff.mp hnil
    have htx' : b.txSdu = none := Option.toList_eq_nil_iff.mp htx
    rw [htx', hqueue] at hbytes
    rw [hqueue] at hcount
    simp only [Option.getD_none, List.flatten_nil, List.length_nil] at hbytes hcount
    have hsame : sdus.length - 1 = b.li.length := by omega
    rw [hsame]
    omega
  · omega

/-- A PDU with the SDUs `xs ++ [x]`, from which nothing more is pulled. -/
theorem Moved.filled {x : Bytes} (h : Moved hb n (xs ++ [x]) b) (hli : b.li = xs.map List.length)
    (queue : List Bytes) : UmFilled (xs ++ [x] ++ queue) xs x { b with queue := queue } where
  li := hli
  pdu := by
    show b.pdu = _
    rw [h.pdu]
    simp
  piece := h.nonempty x (by simp)
  rest r hr := by
    have hr' : b.txSdu = some r := hr
    rw [h.txSdu] at hr'
    cases hr'
  split := by
    show _ = xs ++ (x ++ b.txSdu.getD []) :: queue
    rw [h.txSdu]
    simp

/-- The SDU fits in part: its first bytes fill the grant, and the rest waits in `tx_sdu`. -/
theorem Ready.filled_part (h : Ready hb n xs b) (hli : b.li = xs.map List.length)
    {snSize : UmdSnSize} {sdu : Bytes} (queue : List Bytes) (hsdu : IsUmSdu sdu) (hn : n < 2 ^ 31)
    (hroom : 0 < b.pduSpace - b.headLen) (hlt : b.pduSpace - b.headLen < sdu.length) :
    UmFilled (xs ++ sdu :: queue) xs (sdu.take (b.pduSpace - b.headLen).toNat)
      (Um.pullSdus snSize queue (b.addSdu sdu)) := by
  have hhead := h.headLen
  have hspace := h.pduSpace
  rw [umAddSdu_part (by omega) hlt hsdu (by omega) (by omega), umPullSdus_stop _ (Int.le_refl _)]
  refine { li := hli, pdu := ?_, piece := ?_, rest := ?_, split := ?_ }
  · show b.pdu ++ _ = _
    rw [h.pdu]
  · rw [← List.length_pos_iff, List.length_take]
    omega
  · intro r hr
    obtain rfl := Option.some.inj hr
    rw [← List.length_pos_iff, List.length_drop]
    omega
  · show _ = _ ++ (_ ++ List.drop _ sdu) :: queue
    rw [List.take_append_drop]

/-- The loop from a PDU with the SDUs `xs ++ [x]` on. A length indicator for `x` is added unless
the loop stops at once. -/
theorem umPullSdus_filled {snSize : UmdSnSize} (hhb : hb = Um.fixedLength snSize) (hn : n < 2 ^ 31)
    (queue : List Bytes) : ∀ {xs : List Bytes} {x : Bytes} {b : Um.PduBuild},
      Moved hb n (xs ++ [x]) b → b.li = xs.map List.length → b.lastLi = x.length →
      (∀ sdu ∈ queue, IsUmSdu sdu) → UmRoomy hb n (xs ++ [x] ++ queue) →
      ∃ ys d, UmFilled (xs ++ [x] ++ queue) ys d (Um.pullSdus snSize queue b) ∧ xs <+: ys ∧
        (ys = xs ↔ queue = [] ∨ b.pduSpace ≤ b.headLen) := by
  induction queue with
  | nil =>
    intro xs x b h hli hlast hq hroom
    exact ⟨xs, x, h.filled hli [], List.prefix_refl xs, by simp⟩
  | cons sdu queue ih =>
    intro xs x b h hli hlast hq hroom
    have hsdu := hq sdu (List.mem_cons_self ..)
    have hq' : ∀ s ∈ queue, IsUmSdu s := fun s hs => hq s (List.mem_cons_of_mem _ hs)
    have hhead := h.headLen
    have hspace := h.pduSpace
    have hlis := h.lis
    by_cases hlt : b.headLen < b.pduSpace
    -- The length indicator of `x` is pushed, and the header grows by it.
    · have hready := h.ready hlt snSize hhb
      rw [Um.pullSdus, if_pos hlt]
      simp only [if_pos h.lastLi]
      generalize hb' : ({ b with
        li := b.li ++ [b.lastLi]
        headLen := Um.packedLength { snSize := snSize, li := b.li ++ [b.lastLi] } }
        : Um.PduBuild) = b' at hready ⊢
      have hli' : b'.li = (xs ++ [x]).map List.length := by
        rw [← hb']
        show b.li ++ [b.lastLi] = _
        rw [hli, hlast, List.map_append]
        rfl
      have hhead' := hready.headLen
      have hspace' := hready.pduSpace
      -- The grant leaves room for a byte of the SDU.
      have hroomy := hroom (xs ++ [x]) sdu queue rfl (by simp) (by
        rw [← hlis, Nat.add_sub_cancel]
        omega)
      rw [hready.lis] at hhead'
      by_cases hfit : (sdu.length : Int) ≤ b'.pduSpace - b'.headLen
      -- The SDU fits whole and takes the place of `x`; the loop goes on behind it.
      · have hmoved := hready.moved hsdu hn hfit
        have hadd := umAddSdu_whole hsdu.2 (b := b') (by omega) (by omega) (.inr ⟨hfit, by omega⟩)
        have hrest := ih hmoved (by rw [hadd]; exact hli') (by rw [hadd]) hq'
          (by rw [List.append_assoc]; exact hroom)
        obtain ⟨ys, d, hfilled, hpre, -⟩ := hrest
        rw [List.append_assoc _ [sdu]] at hfilled
        have hpre' := (List.prefix_append xs [x]).trans hpre
        refine ⟨ys, d, hfilled, hpre', ?_⟩
        have hlen := hpre.length_le
        rw [List.length_append, List.length_singleton] at hlen
        constructor
        · rintro rfl
          omega
        · rintro (hnil | hle)
          · cases hnil
          · omega
      · exact ⟨xs ++ [x], sdu.take (b'.pduSpace - b'.headLen).toNat,
          hready.filled_part hli' queue hsdu hn (by omega) (by omega), List.prefix_append _ _,
          by simp [Int.not_le.mpr hlt]⟩
    · rw [umPullSdus_stop _ (Int.not_lt.mp hlt)]
      exact ⟨xs, x, h.filled hli (sdu :: queue), List.prefix_refl xs, by simp [Int.not_lt.mp hlt]⟩

/-- The first SDU of a PDU, and the loop after it. -/
theorem Ready.filled_first {snSize : UmdSnSize} (h : Ready hb n [] b)
    (hhb : hb = Um.fixedLength snSize) (hn : n < 2 ^ 31) (hgt : hb < n) {sdu : Bytes}
    {queue : List Bytes} (hsdu : IsUmSdu sdu) (hq : ∀ s ∈ queue, IsUmSdu s)
    (hroom : UmRoomy hb n (sdu :: queue)) :
    ∃ ys d, UmFilled (sdu :: queue) ys d (Um.pullSdus snSize queue (b.addSdu sdu)) ∧
      (ys = [] ↔ queue = [] ∨ n ≤ hb + sdu.length) := by
  have hhead := h.headLen
  have hspace := h.pduSpace
  have hnil : b.li = [] := List.eq_nil_of_length_eq_zero h.lis
  rw [h.lis] at hhead
  simp only [List.length_nil, liBytes, List.flatten_nil] at hhead hspace
  by_cases hfit : (sdu.length : Int) ≤ b.pduSpace - b.headLen
  · have hmoved := h.moved hsdu hn hfit
    have hadd := umAddSdu_whole hsdu.2 (b := b) (by omega) (by omega) (.inr ⟨hfit, by omega⟩)
    obtain ⟨ys, d, hfilled, -, hiff⟩ := @umPullSdus_filled hb n snSize hhb hn queue [] sdu
      (b.addSdu sdu) hmoved (by rw [hadd]; exact hnil) (by rw [hadd]) hq hroom
    refine ⟨ys, d, hfilled, hiff.trans ?_⟩
    rw [hadd]
    show queue = [] ∨ b.pduSpace - sdu.length ≤ b.headLen ↔ _
    rw [show b.pduSpace - sdu.length ≤ b.headLen ↔ n ≤ hb + sdu.length by omega]
  · have hshort : n ≤ hb + sdu.length := by omega
    exact ⟨[], sdu.take (b.pduSpace - b.headLen).toNat,
      h.filled_part hnil queue hsdu hn (by omega) (by omega), by simp [hshort]⟩

/-- The SDU fits in part only, and uses up the grant with it. -/
theorem Ready.full_part (h : Ready hb n xs b) {snSize : UmdSnSize} {sdu : Bytes}
    (queue : List Bytes) (hsdu : IsUmSdu sdu) (hn : n < 2 ^ 31)
    (hlt : b.pduSpace - b.headLen < sdu.length) :
    UmFull hb n (Um.pullSdus snSize queue (b.addSdu sdu)) := by
  have hhead := h.headLen
  have hspace := h.pduSpace
  have hshort := h.short
  have hlen := hsdu.2
  have hpos := List.length_pos_iff.mpr hsdu.1
  by_cases hroom : 0 ≤ b.pduSpace - b.headLen
  · rw [umAddSdu_part hroom hlt hsdu (by omega) (by omega), umPullSdus_stop _ (Int.le_refl _)]
    refine .inr ?_
    show n ≤ hb + liBytes b.li.length + (b.pdu ++ sdu.take _).length
    rw [List.length_append, List.length_take, h.pdu]
    omega
  · -- The SDU is moved whole where the space is one byte short.
    rw [umAddSdu_whole hsdu.2 (by omega) (by omega) (.inl (by omega)), umPullSdus_stop]
    · refine .inr ?_
      show n ≤ hb + liBytes b.li.length + (b.pdu ++ sdu).length
      rw [List.length_append, h.pdu]
      omega
    · show b.pduSpace - sdu.length ≤ b.headLen
      omega

/-- The loop stops at the end of the queue or of the grant. -/
theorem umPullSdus_full {snSize : UmdSnSize} (hhb : hb = Um.fixedLength snSize) (hn : n < 2 ^ 31)
    (queue : List Bytes) : ∀ {xs : List Bytes} {b : Um.PduBuild}, Moved hb n xs b →
      (∀ sdu ∈ queue, IsUmSdu sdu) → UmFull hb n (Um.pullSdus snSize queue b) := by
  induction queue with
  | nil =>
    intro xs b h _
    refine .inl ?_
    show b.txSdu.toList ++ [] = []
    rw [h.txSdu]
    rfl
  | cons sdu queue ih =>
    intro xs b h hq
    have hsdu := hq sdu (List.mem_cons_self ..)
    by_cases hlt : b.headLen < b.pduSpace
    · have hready := h.ready hlt snSize hhb
      rw [Um.pullSdus, if_pos hlt]
      simp only [if_pos h.lastLi]
      generalize ({ b with
        li := b.li ++ [b.lastLi]
        headLen := Um.packedLength { snSize := snSize, li := b.li ++ [b.lastLi] } }
        : Um.PduBuild) = b' at hready ⊢
      by_cases hfit : (sdu.length : Int) ≤ b'.pduSpace - b'.headLen
      · exact ih (hready.moved hsdu hn hfit) fun s hs => hq s (List.mem_cons_of_mem _ hs)
      · exact hready.full_part queue hsdu hn (by omega)
    · have hhead := h.headLen
      have hspace := h.pduSpace
      rw [umPullSdus_stop _ (Int.not_lt.mp hlt)]
      refine .inr ?_
      show n ≤ hb + liBytes b.li.length + b.pdu.length
      rw [h.pdu]
      omega

/-- The first SDU of a PDU, and the loop after it. -/
theorem Ready.full_first {snSize : UmdSnSize} (h : Ready hb n [] b)
    (hhb : hb = Um.fixedLength snSize) (hn : n < 2 ^ 31) {sdu : Bytes} {queue : List Bytes}
    (hsdu : IsUmSdu sdu) (hq : ∀ s ∈ queue, IsUmSdu s) :
    UmFull hb n (Um.pullSdus snSize queue (b.addSdu sdu)) := by
  by_cases hfit : (sdu.length : Int) ≤ b.pduSpace - b.headLen
  · exact umPullSdus_full hhb hn queue (h.moved hsdu hn hfit) hq
  · exact h.full_part queue hsdu hn (by omega)

/-- The PDU that `build_data_pdu` fills. It has a length indicator unless the first SDU is the
only one or fills the grant. -/
theorem umFillPdu_filled {snSize : UmdSnSize} {txSdu : Option Bytes} {queue : List Bytes}
    {sdu : Bytes} {sdus : List Bytes} (hcons : txSdu.toList ++ queue = sdu :: sdus)
    (hsdus : ∀ s ∈ txSdu.toList ++ queue, IsUmSdu s) (hn : n < 2 ^ 31)
    (hgt : Um.fixedLength snSize < n)
    (hroom : UmRoomy (Um.fixedLength snSize) n (txSdu.toList ++ queue)) :
    UmFull (Um.fixedLength snSize) n (Um.fillPdu snSize txSdu queue n) ∧
      ∃ ys d, UmFilled (txSdu.toList ++ queue) ys d (Um.fillPdu snSize txSdu queue n) ∧
        (ys = [] ↔ sdus = [] ∨ n ≤ Um.fixedLength snSize + sdu.length) := by
  have hready := fun q => ready_umEmptyPdu (n := n) snSize txSdu q hn hgt
  rw [hcons] at hsdus hroom ⊢
  have hsdu := hsdus sdu (List.mem_cons_self ..)
  have hq : ∀ s ∈ sdus, IsUmSdu s := fun s hs => hsdus s (List.mem_cons_of_mem _ hs)
  cases txSdu with
  | some s =>
    obtain ⟨rfl, rfl⟩ := List.cons.inj hcons
    rw [umFillPdu_some]
    exact ⟨(hready _).full_first rfl hn hsdu hq, (hready _).filled_first rfl hn hgt hsdu hq hroom⟩
  | none =>
    cases queue with
    | nil => cases hcons
    | cons s queue =>
      obtain ⟨rfl, rfl⟩ := List.cons.inj hcons
      -- The first SDU comes from the queue: the guard of that branch is that the grant exceeds the
      -- fixed header.
      have hlt : (Um.packedLength { snSize := snSize } : Int) < toI32 n := by
        rw [toI32_of_mem (by omega) (by omega)]
        simp only [Um.packedLength, List.length_nil]
        omega
      rw [umFillPdu_none _ _ hlt]
      exact ⟨(hready _).full_first rfl hn hsdu hq,
        (hready _).filled_first rfl hn hgt hsdu hq hroom⟩

/-- The framing bits of a PDU, from whether an SDU was unfinished before and after it. -/
def umFi (before after : Bool) : FiField :=
  let fi := if before then fiStartAndEndAligned ||| fiNotStartAligned else fiStartAndEndAligned
  if after then fi ||| fiNotEndAligned else fi

/-- The framing says whether the PDU ends with an SDU. -/
theorem endAligned_umFi (before after : Bool) : Um.endAligned (umFi before after) = !after := by
  cases before <;> cases after <;> rfl

/-- The PDU that `build_data_pdu` builds, its header, and the entity behind it. -/
theorem umBuildDataPdu_filled {st : Um.RlcUm} {sdu : Bytes} {sdus : List Bytes}
    (hcons : umPending st = sdu :: sdus) (hsdus : ∀ s ∈ umPending st, IsUmSdu s)
    (hn : n < 2 ^ 31) (hgt : Um.fixedLength st.txSnFieldLength < n)
    (hroom : UmRoomy (Um.fixedLength st.txSnFieldLength) n (umPending st)) :
    ∃ header b ys d, Um.buildDataPdu st n = ({ st with
        txSdu := b.txSdu, txSduQueue := b.queue, vtUs := (st.vtUs + 1) % st.txMod },
        some (header, b)) ∧
      header.li = b.li ∧ header.snSize = st.txSnFieldLength ∧ header.sn = st.vtUs ∧
      Um.endAligned header.fi = b.txSdu.isNone ∧ UmFilled (umPending st) ys d b ∧
      UmFull (Um.fixedLength st.txSnFieldLength) n b ∧
      UmFits (Um.fixedLength st.txSnFieldLength) n b ∧
      (ys = [] ↔ sdus = [] ∨ n ≤ Um.fixedLength st.txSnFieldLength + sdu.length) := by
  have hfixed : Um.packedLength { snSize := st.txSnFieldLength }
      = Um.fixedLength st.txSnFieldLength := by
    simp [Um.packedLength]
  -- Neither of the two early returns is taken.
  have hempty : ¬(st.txSdu.isNone ∧ st.txSduQueue.length = 0) := by
    rintro ⟨h1, h2⟩
    rw [umPending, Option.isNone_iff_eq_none.mp h1, List.eq_nil_of_length_eq_zero h2] at hcons
    cases hcons
  have hspace : ¬toI32 n ≤ Um.packedLength { snSize := st.txSnFieldLength } := by
    rw [hfixed, toI32_of_mem (by omega) (by omega)]
    omega
  obtain ⟨hfull, ys, d, hfilled, hiff⟩ := umFillPdu_filled hcons hsdus hn hgt hroom
  have hne : st.txSdu.toList ++ st.txSduQueue ≠ [] := by
    show umPending st ≠ []
    rw [hcons]
    exact List.cons_ne_nil sdu sdus
  have hfits := (umFillPdu_filling hne hsdus hn hgt).fits.mpr hroom.not_umOverruns
  refine ⟨{ fi := umFi st.txSdu.isSome
              (Um.fillPdu st.txSnFieldLength st.txSdu st.txSduQueue n).txSdu.isSome
            snSize := st.txSnFieldLength, sn := st.vtUs
            li := (Um.fillPdu st.txSnFieldLength st.txSdu st.txSduQueue n).li },
    Um.fillPdu st.txSnFieldLength st.txSdu st.txSduQueue n, ys, d, ?_, rfl, rfl, rfl, ?_, hfilled,
    hfull, hfits, hiff⟩
  · unfold Um.buildDataPdu
    rw [if_neg hempty, if_neg hspace]
    rfl
  · rw [endAligned_umFi, Option.not_isSome]

end

end SrsUE.Proofs.Rlc
