import SrsUE.Lib.Run
import SrsUE.Proofs.Rlc.AmFill
import SrsUE.Rlc.Um

/-!
# `SrsUE.Proofs.Rlc.UmTransmit`: the PDUs that `rlc_um` builds

`build_data_pdu` of the unacknowledged mode entity has no check that the header still fits
after a length indicator is added. When exactly one byte is left behind the header and the
new indicator takes two, `pdu_space-head_len` is `-1`, compares as the largest `uint32_t`, and
the whole next SDU is copied. Nor is there a check that the buffer of the PDU has the room for what
the grant admits.

* `umFillPdu_filling`: the first is the only way to exceed the grant or to copy with a wrapped
  length. Otherwise the SDUs are packed, which says when they stay in the buffer. No SDU byte is
  left out in any case.
* `umTransmit_iff`: the same for whole runs.
-/

set_option autoImplicit false

namespace SrsUE.Proofs.Rlc

open SrsUE.Lib
open SrsUE.Rlc

/-! ### Conversions -/

/-- A number that is not negative is kept as a `uint32_t`. -/
theorem toU32_of_nonneg {x : Int} (h0 : 0 ≤ x) (h : x < 2 ^ 32) : toU32 x = x.toNat := by
  unfold toU32
  rw [Int.emod_eq_of_lt h0 h]

/-- A negative one wraps. -/
theorem toU32_neg_one : toU32 (-1) = 2 ^ 32 - 1 := rfl

/-- An `int` is kept as such. -/
theorem toI32_of_mem {x : Int} (h0 : -2 ^ 31 ≤ x) (h : x < 2 ^ 31) : toI32 x = x := by
  unfold toI32
  rw [Int.bmod_def]
  omega

/-- A grant from `2 ^ 31` on is negative as an `int`. -/
theorem toI32_grant {n : Nat} (h : n < 2 ^ 32) :
    toI32 n = if n < 2 ^ 31 then (n : Int) else n - 2 ^ 32 := by
  unfold toI32
  rw [Int.bmod_def]
  split <;> omega

/-- A header is its fixed part and the length indicators. -/
theorem length_umWriteDataPduHeader (header : UmdPduHeader) :
    (Um.writeDataPduHeader header).length
      = Um.fixedLength header.snSize + liBytes header.li.length := by
  unfold Um.writeDataPduHeader Um.fixedLength liBytes
  cases header.snSize <;> simp [length_writeLis] <;> omega

/-! ### Moving one SDU -/

/-- An SDU that `write_sdu` takes, or the rest of one. -/
def IsUmSdu (sdu : Bytes) : Prop := sdu ≠ [] ∧ sdu.length < 2 ^ 31

section
variable {b : Um.PduBuild} {sdu : Bytes}

/-- The SDU is moved whole when it fits, and also when the space is one byte short of the
header. -/
theorem umAddSdu_whole (hlen : sdu.length < 2 ^ 31) (hspace : -2 ^ 31 ≤ b.pduSpace - sdu.length)
    (hspace' : b.pduSpace < 2 ^ 31)
    (hroom : b.pduSpace - b.headLen = -1 ∨
      (sdu.length : Int) ≤ b.pduSpace - b.headLen ∧ b.pduSpace - b.headLen < 2 ^ 32) :
    b.addSdu sdu = { b with
      lastLi := sdu.length
      pdu := b.pdu ++ sdu
      txSdu := none
      pduSpace := b.pduSpace - sdu.length
      copies := b.copies ++ [(b.pduSpace - b.headLen, sdu.length)] } := by
  -- A space of -1 is `2 ^ 32 - 1` as `uint32_t`, and so larger than any SDU.
  have hle : sdu.length ≤ toU32 (b.pduSpace - b.headLen) := by
    rcases hroom with h | ⟨h, h'⟩
    · rw [h, toU32_neg_one]
      omega
    · rw [toU32_of_nonneg (by omega) h']
      omega
  simp only [Um.PduBuild.addSdu, if_pos hle, Nat.sub_self, if_true, List.take_length]
  rw [toI32_of_mem hspace (by omega)]

/-- The SDU is moved in part when it does not fit. -/
theorem umAddSdu_part (hroom : 0 ≤ b.pduSpace - b.headLen)
    (hlt : b.pduSpace - b.headLen < sdu.length) (hsdu : IsUmSdu sdu)
    (hhead : 0 ≤ b.headLen) (hhead' : b.headLen < 2 ^ 31) :
    b.addSdu sdu = { b with
      lastLi := (b.pduSpace - b.headLen).toNat
      pdu := b.pdu ++ sdu.take (b.pduSpace - b.headLen).toNat
      txSdu := some (sdu.drop (b.pduSpace - b.headLen).toNat)
      pduSpace := b.headLen
      copies := b.copies ++ [(b.pduSpace - b.headLen, (b.pduSpace - b.headLen).toNat)] } := by
  have hlen := hsdu.2
  -- The space is not negative here, so the conversion keeps it.
  have hu : toU32 (b.pduSpace - b.headLen) = (b.pduSpace - b.headLen).toNat :=
    toU32_of_nonneg hroom (by omega)
  have hnot : ¬sdu.length ≤ (b.pduSpace - b.headLen).toNat := by omega
  have hrest : ¬sdu.length - (b.pduSpace - b.headLen).toNat = 0 := by omega
  have hspace : b.pduSpace - ((b.pduSpace - b.headLen).toNat : Int) = b.headLen := by omega
  simp only [Um.PduBuild.addSdu, hu, if_neg hnot, if_neg hrest, hspace]
  rw [toI32_of_mem (by omega) hhead']

end

/-! ### Filling a PDU -/

/-- One byte is left behind the header after the SDUs `xs`, another SDU follows, and its length
indicator would take two. `hb` is the length of the fixed header. -/
def UmOverruns (hb n : Nat) (sdus : List Bytes) : Prop :=
  ∃ xs y ys, sdus = xs ++ y :: ys ∧ xs.length % 2 = 1 ∧
    n = hb + xs.flatten.length + liBytes (xs.length - 1) + 1

/-- The PDU fits the grant, and no copy was made with a negative space. -/
structure UmFits (hb n : Nat) (b : Um.PduBuild) : Prop where
  size : hb + liBytes b.li.length + b.pdu.length ≤ n
  copies : ∀ c ∈ b.copies, 0 ≤ c.1

/-- The SDUs `xs` are in the PDU, each but the last with a length indicator, and fit the
grant. -/
structure Moved (hb n : Nat) (xs : List Bytes) (b : Um.PduBuild) : Prop where
  nonempty : ∀ x ∈ xs, x ≠ []
  lis : b.li.length + 1 = xs.length
  headLen : b.headLen = (hb + liBytes b.li.length : Nat)
  pdu : b.pdu = xs.flatten
  pduSpace : b.pduSpace = (n : Int) - xs.flatten.length
  fits : b.headLen ≤ b.pduSpace
  lastLi : 0 < b.lastLi
  txSdu : b.txSdu = none
  copies : ∀ c ∈ b.copies, 0 ≤ c.1

section
variable {hb n : Nat} {xs : List Bytes} {b : Um.PduBuild}

/-- SDUs that were moved without an overrun fit the grant. -/
theorem Moved.umFits (h : Moved hb n xs b) : UmFits hb n b where
  size := by
    have h1 := h.headLen
    have h2 := h.pduSpace
    have h3 := h.fits
    rw [h.pdu]
    omega
  copies := h.copies

/-- The SDUs moved so far did not overrun the grant. -/
theorem Moved.not_overruns (h : Moved hb n xs b) {ps zs : List Bytes} {y : Bytes}
    (hsplit : xs = ps ++ y :: zs) (hodd : ps.length % 2 = 1) :
    n ≠ hb + ps.flatten.length + liBytes (ps.length - 1) + 1 := by
  -- At the SDU `y` the grant would have been short by a byte, but everything moved fits.
  have hsize := h.umFits.size
  have hlis := h.lis
  have hlen : xs.flatten.length = ps.flatten.length + y.length + zs.flatten.length := by
    rw [hsplit, List.flatten_append, List.flatten_cons, List.length_append, List.length_append]
    omega
  have hcount : xs.length = ps.length + 1 + zs.length := by
    rw [hsplit, List.length_append, List.length_cons]
    omega
  have hy := List.length_pos_iff.mpr (h.nonempty y (by rw [hsplit]; simp))
  rw [h.pdu] at hsize
  unfold liBytes at *
  omega

/-- No overrun is possible when the SDU behind `xs` does not fit any more. -/
theorem Moved.not_umOverruns (h : Moved hb n xs b) {sdu : Bytes} {queue : List Bytes}
    (hat : xs.length % 2 = 1 → n ≠ hb + xs.flatten.length + liBytes (xs.length - 1) + 1)
    (hlt : n ≤ hb + xs.flatten.length + sdu.length + liBytes xs.length) :
    ¬UmOverruns hb n (xs ++ sdu :: queue) := by
  rintro ⟨ps, y, zs, hsplit, hodd, heq⟩
  -- The overrun would be behind `xs`, where the space is used up, or inside of `xs`, or just at its
  -- end.
  rcases List.append_eq_append_iff.mp hsplit with ⟨as, hps, hrest⟩ | ⟨as, hxs, hrest⟩
  · cases as with
    | nil =>
      rw [List.append_nil] at hps
      rw [hps] at hodd heq
      exact hat hodd heq
    | cons a as =>
      obtain ⟨rfl, -⟩ := List.cons.inj hrest
      have hlen : ps.flatten.length = xs.flatten.length + sdu.length + as.flatten.length := by
        rw [hps, List.flatten_append, List.flatten_cons, List.length_append, List.length_append]
        omega
      have hcount : ps.length = xs.length + 1 + as.length := by
        rw [hps, List.length_append, List.length_cons]
        omega
      unfold liBytes at *
      omega
  · cases as with
    | nil =>
      rw [List.append_nil] at hxs
      rw [← hxs] at hodd heq
      exact hat hodd heq
    | cons a as =>
      obtain ⟨rfl, -⟩ := List.cons.inj hrest
      exact h.not_overruns hxs hodd heq

/-- The SDU bytes in the PDU and behind it. -/
def umBytes (b : Um.PduBuild) : Bytes := b.pdu ++ (b.txSdu.toList ++ b.queue).flatten

/-- The header of a PDU in front of the last of its SDUs, when there are `m` others. -/
def umHead (hb m : Nat) : Nat := hb + liBytes m

/-- More SDUs have no shorter header. -/
theorem umHead_monotone (hb : Nat) : Monotone (umHead hb) := fun _ _ h =>
  Nat.add_le_add_left (liBytes_le h) hb

/-- What filling a PDU from the SDUs comes to: it fits exactly when the SDUs do not overrun the
grant, and then the SDUs are packed. Every byte is in the PDU or left behind. -/
structure Filling (hb n : Nat) (sdus : List Bytes) (b : Um.PduBuild) : Prop where
  fits : UmFits hb n b ↔ ¬UmOverruns hb n sdus
  packs : ¬UmOverruns hb n sdus → b.pdu.length = packed (umHead hb) n 0 0 sdus
  bytes : umBytes b = sdus.flatten
  rest : ∀ sdu ∈ b.txSdu.toList ++ b.queue, IsUmSdu sdu

/-- The loop ends when there is no space behind the header. -/
theorem umPullSdus_stop {snSize : UmdSnSize} (queue : List Bytes) (h : b.pduSpace ≤ b.headLen) :
    Um.pullSdus snSize queue b = { b with queue := queue } := by
  cases queue with
  | nil => rfl
  | cons sdu queue => rw [Um.pullSdus, if_neg (Int.not_lt.mpr h)]

/-- The SDUs `xs` are packed whole. -/
theorem Moved.packed_append (h : Moved hb n xs b) (queue : List Bytes) :
    packed (umHead hb) n 0 0 (xs ++ queue)
      = packed (umHead hb) n xs.length xs.flatten.length queue := by
  have hsize := h.umFits.size
  have hlis := h.lis
  rw [h.pdu] at hsize
  have hcount : 0 + xs.length - 1 = b.li.length := by omega
  rw [SrsUE.Lib.packed_append (umHead_monotone hb) xs queue h.nonempty, Nat.zero_add, Nat.zero_add]
  rw [hcount, umHead]
  omega

/-- A PDU with the SDUs `xs`, from which nothing more is pulled. -/
theorem Moved.filling (h : Moved hb n xs b) {queue : List Bytes}
    (hq : ∀ sdu ∈ queue, IsUmSdu sdu)
    (hstop : queue = [] ∨ n ≤ hb + xs.flatten.length + liBytes xs.length)
    (hno : ¬UmOverruns hb n (xs ++ queue)) :
    Filling hb n (xs ++ queue) { b with queue := queue } where
  fits := ⟨fun _ => hno, fun _ => { size := h.umFits.size, copies := h.copies }⟩
  packs := fun _ => by
    rw [h.packed_append]
    show b.pdu.length = _
    rw [h.pdu]
    rcases hstop with rfl | hfull
    · rfl
    · rw [packed_of_full]
      rw [umHead]
      omega
  bytes := by
    unfold umBytes
    rw [h.pdu, h.txSdu, Option.toList_none, List.nil_append, List.flatten_append]
  rest := by
    rw [h.txSdu]
    exact hq

/-- The next SDU is moved into a PDU that holds `xs`, after its header has grown. -/
structure Ready (hb n : Nat) (xs : List Bytes) (b : Um.PduBuild) : Prop where
  nonempty : ∀ x ∈ xs, x ≠ []
  packs : ∀ queue, packed (umHead hb) n 0 0 (xs ++ queue)
    = packed (umHead hb) n xs.length xs.flatten.length queue
  lis : b.li.length = xs.length
  headLen : b.headLen = (hb + liBytes b.li.length : Nat)
  pdu : b.pdu = xs.flatten
  pduSpace : b.pduSpace = (n : Int) - xs.flatten.length
  short : -1 ≤ b.pduSpace - b.headLen
  copies : ∀ c ∈ b.copies, 0 ≤ c.1

/-- The SDU fits. -/
theorem Ready.moved (h : Ready hb n xs b) {sdu : Bytes} (hsdu : IsUmSdu sdu) (hn : n < 2 ^ 31)
    (hfit : (sdu.length : Int) ≤ b.pduSpace - b.headLen) :
    Moved hb n (xs ++ [sdu]) (b.addSdu sdu) := by
  have hspace := h.pduSpace
  have hhead := h.headLen
  -- The space covers the SDU, so the copy is of all of it.
  rw [umAddSdu_whole hsdu.2 (by omega) (by omega) (.inr ⟨hfit, by omega⟩)]
  have hlen : (xs ++ [sdu]).flatten.length = xs.flatten.length + sdu.length := by
    rw [List.flatten_append, List.length_append]
    simp
  refine { nonempty := ?_, lis := by rw [h.lis]; simp, headLen := hhead, pdu := ?_,
           pduSpace := ?_, fits := ?_, lastLi := List.length_pos_iff.mpr hsdu.1, txSdu := rfl,
           copies := ?_ }
  · intro x hx
    rcases List.mem_append.mp hx with hx | hx
    · exact h.nonempty x hx
    · rw [List.mem_singleton.mp hx]
      exact hsdu.1
  · show b.pdu ++ sdu = _
    rw [h.pdu, List.flatten_append]
    simp
  · show b.pduSpace - sdu.length = _
    rw [hlen]
    omega
  · show b.headLen ≤ b.pduSpace - sdu.length
    omega
  · intro c hc
    rcases List.mem_append.mp hc with hc | hc
    · exact h.copies c hc
    · rw [List.mem_singleton.mp hc]
      show 0 ≤ b.pduSpace - b.headLen
      omega

/-- The SDU fits in part, or not at all: the PDU is full. -/
theorem Ready.filling_part (h : Ready hb n xs b) {snSize : UmdSnSize} {sdu : Bytes}
    {queue : List Bytes} (hsdu : IsUmSdu sdu) (hq : ∀ sdu ∈ queue, IsUmSdu sdu) (hn : n < 2 ^ 31)
    (hroom : 0 ≤ b.pduSpace - b.headLen) (hlt : b.pduSpace - b.headLen < sdu.length)
    (hno : ¬UmOverruns hb n (xs ++ sdu :: queue)) :
    Filling hb n (xs ++ sdu :: queue) (Um.pullSdus snSize queue (b.addSdu sdu)) := by
  have hspace := h.pduSpace
  have hhead := h.headLen
  have hlen := hsdu.2
  -- The copy leaves exactly the header, which ends the loop.
  rw [umAddSdu_part hroom hlt hsdu (by omega) (by omega), umPullSdus_stop _ (Int.le_refl _)]
  refine { fits := ⟨fun _ => hno, fun _ => { size := ?_, copies := ?_ }⟩, packs := fun _ => ?_
           bytes := ?_, rest := ?_ }
  · show hb + liBytes b.li.length + (b.pdu ++ sdu.take _).length ≤ n
    rw [List.length_append, List.length_take, h.pdu]
    omega
  · intro c hc
    rcases List.mem_append.mp hc with hc | hc
    · exact h.copies c hc
    · rw [List.mem_singleton.mp hc]
      exact hroom
  · show (b.pdu ++ sdu.take _).length = _
    rw [h.packs, List.length_append, List.length_take, h.pdu, packed, umHead, ← h.lis]
    split_ifs
    · omega
    · omega
    · omega
  · simp only [umBytes, Option.toList_some, List.singleton_append, List.flatten_cons,
      List.flatten_append, h.pdu]
    rw [List.append_assoc, ← List.append_assoc (List.take _ sdu), List.take_append_drop]
  · intro x hx
    rcases List.mem_cons.mp hx with rfl | hx
    · refine ⟨?_, ?_⟩
      · rw [← List.length_pos_iff, List.length_drop]
        omega
      · rw [List.length_drop]
        omega
    · exact hq x hx

/-- The space is one byte short of the header: the SDU is moved whole and overruns the grant. -/
theorem Ready.filling_over (h : Ready hb n xs b) {snSize : UmdSnSize} {sdu : Bytes}
    {queue : List Bytes} (hsdu : IsUmSdu sdu) (hq : ∀ sdu ∈ queue, IsUmSdu sdu) (hn : n < 2 ^ 31)
    (hroom : b.pduSpace - b.headLen = -1) (hover : UmOverruns hb n (xs ++ sdu :: queue)) :
    Filling hb n (xs ++ sdu :: queue) (Um.pullSdus snSize queue (b.addSdu sdu)) := by
  have hspace := h.pduSpace
  have hhead := h.headLen
  have hlen := hsdu.2
  have hpos := List.length_pos_iff.mpr hsdu.1
  -- The unsigned comparison takes the SDU, and the space falls below the header by its length.
  rw [umAddSdu_whole hsdu.2 (by omega) (by omega) (.inl hroom), umPullSdus_stop]
  · refine { fits := ⟨fun hf => ?_, fun hno => absurd hover hno⟩
             packs := fun hno => absurd hover hno, bytes := ?_, rest := hq }
    · have hsize := hf.size
      change hb + liBytes b.li.length + (b.pdu ++ sdu).length ≤ n at hsize
      rw [List.length_append, h.pdu] at hsize
      omega
    · simp [umBytes, h.pdu]
  · show b.pduSpace - sdu.length ≤ b.headLen
    omega

/-- The header grows by a length indicator for the last SDU. -/
theorem Moved.ready (h : Moved hb n xs b) (hlt : b.headLen < b.pduSpace) (snSize : UmdSnSize)
    (hhb : hb = Um.fixedLength snSize) :
    Ready hb n xs { b with
      li := b.li ++ [b.lastLi]
      headLen := Um.packedLength { snSize := snSize, li := b.li ++ [b.lastLi] } } := by
  have hhead := h.headLen
  have hspace := h.pduSpace
  have hlis := h.lis
  have hnew : Um.packedLength { snSize := snSize, li := b.li ++ [b.lastLi] }
      = hb + liBytes (b.li.length + 1) := by
    simp [Um.packedLength, hhb, liBytes]
  refine { nonempty := h.nonempty, packs := h.packed_append, lis := ?_, headLen := ?_, pdu := h.pdu
           pduSpace := hspace, short := ?_, copies := h.copies }
  · show (b.li ++ [b.lastLi]).length = xs.length
    rw [List.length_append, List.length_singleton, hlis]
  · show ((Um.packedLength _ : Nat) : Int) = _
    rw [hnew, List.length_append, List.length_singleton]
  · show -1 ≤ b.pduSpace - ((Um.packedLength _ : Nat) : Int)
    rw [hnew]
    -- A length indicator takes at most two bytes, and one was free.
    unfold liBytes at *
    omega

/-- The loop from a PDU with the SDUs `xs` on. -/
theorem umPullSdus_filling {snSize : UmdSnSize} (hhb : hb = Um.fixedLength snSize)
    (hn : n < 2 ^ 31) (queue : List Bytes) {xs : List Bytes} {b : Um.PduBuild}
    (h : Moved hb n xs b) (hq : ∀ sdu ∈ queue, IsUmSdu sdu) :
    Filling hb n (xs ++ queue) (Um.pullSdus snSize queue b) := by
  induction queue generalizing xs b with
  | nil =>
    refine Moved.filling h hq (.inl rfl) ?_
    rintro ⟨ps, y, zs, hsplit, hodd, heq⟩
    rw [List.append_nil] at hsplit
    exact h.not_overruns hsplit hodd heq
  | cons sdu queue ih =>
    have hsdu := hq sdu (List.mem_cons_self ..)
    have hq' : ∀ s ∈ queue, IsUmSdu s := fun s hs => hq s (List.mem_cons_of_mem _ hs)
    -- The loop invariant is `Moved`: each round adds one SDU to `xs`.
    have hpos := List.length_pos_iff.mpr hsdu.1
    have hsize := h.umFits.size
    rw [h.pdu] at hsize
    have hhead := h.headLen
    have hspace := h.pduSpace
    have hlis := h.lis
    by_cases hlt : b.headLen < b.pduSpace
    · have hready := h.ready hlt snSize hhb
      rw [Um.pullSdus, if_pos hlt]
      simp only [if_pos h.lastLi]
      generalize hb' : ({ b with
        li := b.li ++ [b.lastLi]
        headLen := Um.packedLength { snSize := snSize, li := b.li ++ [b.lastLi] } }
        : Um.PduBuild) = b' at hready ⊢
      have hhead' := hready.headLen
      have hspace' := hready.pduSpace
      have hlis' := hready.lis
      have hshort := hready.short
      by_cases hfit : (sdu.length : Int) ≤ b'.pduSpace - b'.headLen
      · -- The SDU fits, and the loop goes on with one more.
        have hrest := ih (hready.moved hsdu hn hfit) hq'
        rw [List.append_assoc, List.singleton_append] at hrest
        exact hrest
      · by_cases hroom : 0 ≤ b'.pduSpace - b'.headLen
        · refine hready.filling_part hsdu hq' hn hroom (by omega) (h.not_umOverruns ?_ ?_)
          · unfold liBytes at *
            omega
          · rw [hlis'] at hhead'
            omega
        · refine hready.filling_over hsdu hq' hn (by omega) ⟨xs, sdu, queue, rfl, ?_, ?_⟩
          · unfold liBytes at *
            omega
          · unfold liBytes at *
            omega
    · rw [umPullSdus_stop _ (Int.not_lt.mp hlt)]
      refine h.filling hq (.inr ?_) (h.not_umOverruns ?_ ?_)
      · have hgrow := liBytes_le (show b.li.length ≤ xs.length by omega)
        omega
      · intro _
        rw [← hlis, Nat.add_sub_cancel]
        omega
      · unfold liBytes at *
        omega

/-- The first SDU of a PDU, and the loop after it. -/
theorem Ready.filling_first {snSize : UmdSnSize} (h : Ready hb n [] b)
    (hhb : hb = Um.fixedLength snSize) (hn : n < 2 ^ 31) (hgt : hb < n) {sdu : Bytes}
    {queue : List Bytes} (hsdu : IsUmSdu sdu) (hq : ∀ s ∈ queue, IsUmSdu s) :
    Filling hb n (sdu :: queue) (Um.pullSdus snSize queue (b.addSdu sdu)) := by
  have hhead := h.headLen
  have hspace := h.pduSpace
  rw [h.lis] at hhead
  simp only [List.length_nil, liBytes, List.flatten_nil] at hhead hspace
  by_cases hfit : (sdu.length : Int) ≤ b.pduSpace - b.headLen
  · exact umPullSdus_filling hhb hn queue (h.moved hsdu hn hfit) hq
  · refine h.filling_part hsdu hq hn (by omega) (by omega) ?_
    -- The first SDU alone fills the grant, so nothing behind it can overrun.
    rintro ⟨ps, y, zs, hsplit, hodd, heq⟩
    cases ps with
    | nil => exact absurd hodd (by simp)
    | cons p ps =>
      obtain ⟨rfl, -⟩ := List.cons.inj hsplit
      rw [List.flatten_cons, List.length_append] at heq
      omega

/-- The PDU before the first SDU is moved. -/
def umEmptyPdu (snSize : UmdSnSize) (txSdu : Option Bytes) (queue : List Bytes) (n : Nat) :
    Um.PduBuild :=
  { headLen := Um.packedLength { snSize := snSize }, pduSpace := toI32 n, txSdu := txSdu
    queue := queue }

/-- With an SDU partly sent, the rest of it comes first. -/
theorem umFillPdu_some (snSize : UmdSnSize) (sdu : Bytes) (queue : List Bytes) (n : Nat) :
    Um.fillPdu snSize (some sdu) queue n
      = Um.pullSdus snSize queue ((umEmptyPdu snSize (some sdu) queue n).addSdu sdu) := rfl

/-- Otherwise the queue is where SDUs come from. -/
theorem umFillPdu_none {snSize : UmdSnSize} (sdu : Bytes) (queue : List Bytes)
    (hlt : (Um.packedLength { snSize := snSize } : Int) < toI32 n) :
    Um.fillPdu snSize none (sdu :: queue) n
      = Um.pullSdus snSize queue ((umEmptyPdu snSize none (sdu :: queue) n).addSdu sdu) := by
  simp only [Um.fillPdu]
  rw [Um.pullSdus, if_pos hlt]
  simp only [Nat.lt_irrefl, if_false]
  rfl

/-- The empty PDU is ready for its first SDU. -/
theorem ready_umEmptyPdu (snSize : UmdSnSize) (txSdu : Option Bytes) (queue : List Bytes)
    (hn : n < 2 ^ 31) (hgt : Um.fixedLength snSize < n) :
    Ready (Um.fixedLength snSize) n [] (umEmptyPdu snSize txSdu queue n) := by
  have hgrant : toI32 n = n := toI32_of_mem (by omega) (by omega)
  have hspace : (umEmptyPdu snSize txSdu queue n).pduSpace = n := by
    simp only [umEmptyPdu, hgrant]
  have hhead : (umEmptyPdu snSize txSdu queue n).headLen = Um.fixedLength snSize := by
    simp [umEmptyPdu, Um.packedLength]
  refine { nonempty := by simp, packs := fun _ => rfl, lis := rfl, headLen := ?_, pdu := rfl
           pduSpace := ?_, short := by omega, copies := by simp [umEmptyPdu] }
  · rw [hhead]
    simp [umEmptyPdu, liBytes]
  · rw [hspace]
    simp

/-- The PDU that `build_data_pdu` fills. -/
theorem umFillPdu_filling {snSize : UmdSnSize} {txSdu : Option Bytes} {queue : List Bytes}
    (hne : txSdu.toList ++ queue ≠ []) (hsdus : ∀ sdu ∈ txSdu.toList ++ queue, IsUmSdu sdu)
    (hn : n < 2 ^ 31) (hgt : Um.fixedLength snSize < n) :
    Filling (Um.fixedLength snSize) n (txSdu.toList ++ queue)
      (Um.fillPdu snSize txSdu queue n) := by
  have hready := fun q => ready_umEmptyPdu (n := n) snSize txSdu q hn hgt
  cases txSdu with
  | some sdu =>
    rw [umFillPdu_some]
    refine (hready queue).filling_first rfl hn hgt (hsdus sdu (by simp)) fun s hs => ?_
    exact hsdus s (List.mem_append_right _ hs)
  | none =>
    cases queue with
    | nil => exact absurd rfl hne
    | cons sdu queue =>
      have hlt : (Um.packedLength { snSize := snSize } : Int) < toI32 n := by
        rw [toI32_of_mem (by omega) (by omega)]
        simp only [Um.packedLength, List.length_nil]
        omega
      rw [umFillPdu_none sdu queue hlt]
      refine (hready (sdu :: queue)).filling_first rfl hn hgt (hsdus sdu (by simp)) fun s hs => ?_
      exact hsdus s (List.mem_cons_of_mem _ hs)

end

/-! ### One call -/

/-- The SDUs that are not sent yet. -/
def umPending (st : Um.RlcUm) : List Bytes := st.txSdu.toList ++ st.txSduQueue

/-- `read_pdu` returns at most `n` bytes, copies no SDU bytes with a negative space, and none over
the end of the buffer. -/
def UmKeepsGrant (st : Um.RlcUm) (n : Nat) : Prop :=
  (Um.readPdu st n).2.length ≤ n ∧
    (∀ pdu, (Um.buildDataPdu st n).2 = some pdu → ∀ c ∈ pdu.2.copies, 0 ≤ c.1) ∧
    InRoom (Um.buildDataPduCopies st n)

/-- The grants that hold what `build_data_pdu` puts in the PDU: no length indicator of two bytes
is added when one byte is left, and the SDUs that get in stay in the buffer. A grant from `2 ^ 31`
on is not used at all. -/
def UmFitsGrant (st : Um.RlcUm) (n : Nat) : Prop :=
  n < 2 ^ 31 → ¬UmOverruns (Um.fixedLength st.txSnFieldLength) n (umPending st) ∧
    FitsBuffer (umHead (Um.fixedLength st.txSnFieldLength)) (umPending st) n

/-- The SDU bytes of the PDU that `build_data_pdu` builds. -/
def umPayload (st : Um.RlcUm) (n : Nat) : Bytes :=
  (((Um.buildDataPdu st n).2).map fun pdu => pdu.2.pdu).getD []

section
variable {st : Um.RlcUm} {n : Nat}

/-- No PDU is built without an SDU, or in a grant that holds no data. -/
theorem umBuildDataPdu_none (hn : n < 2 ^ 32)
    (h : umPending st = [] ∨ 2 ^ 31 ≤ n ∨ n ≤ Um.fixedLength st.txSnFieldLength) :
    Um.buildDataPdu st n = (st, none) ∧ UmFitsGrant st n := by
  have hfixed : Um.packedLength { snSize := st.txSnFieldLength }
      = Um.fixedLength st.txSnFieldLength := by
    simp [Um.packedLength]
  have hgrant := toI32_grant hn
  -- Nothing to send, a grant that is no positive `int`, or one that the fixed header uses up.
  constructor
  · unfold Um.buildDataPdu
    by_cases hempty : st.txSdu.isNone ∧ st.txSduQueue.length = 0
    · rw [if_pos hempty]
    · rw [if_neg hempty, if_pos]
      rw [hfixed, hgrant]
      rcases h with h | h | h
      · exact absurd ⟨by simpa [umPending] using (List.append_eq_nil_iff.mp h).1,
          by rw [(List.append_eq_nil_iff.mp h).2]; rfl⟩ hempty
      · rw [if_neg (by omega)]
        omega
      · split <;> omega
  · intro hlt
    rcases h with h | h | h
    · rw [h]
      exact ⟨fun ⟨xs, y, ys, hsplit, _⟩ => absurd hsplit (by simp), .inl (Nat.zero_le _)⟩
    · omega
    · exact ⟨fun ⟨xs, y, ys, _, _, heq⟩ => by omega, .inr (by rw [umHead]; omega)⟩

/-- `build_data_pdu` gets past its checks when there is an SDU, and a grant that holds a byte of
it. -/
theorem umBuildDataPdu_guards (hne : umPending st ≠ []) (hn : n < 2 ^ 31)
    (hgt : Um.fixedLength st.txSnFieldLength < n) :
    ¬(st.txSdu.isNone ∧ st.txSduQueue.length = 0) ∧
      ¬toI32 n ≤ Um.packedLength { snSize := st.txSnFieldLength } := by
  have hfixed : Um.packedLength { snSize := st.txSnFieldLength }
      = Um.fixedLength st.txSnFieldLength := by
    simp [Um.packedLength]
  refine ⟨?_, ?_⟩
  · rintro ⟨h1, h2⟩
    refine hne ?_
    rw [umPending, Option.isNone_iff_eq_none.mp h1, List.eq_nil_of_length_eq_zero h2]
    rfl
  · rw [hfixed, toI32_of_mem (by omega) (by omega)]
    omega

/-- The PDU that is built, and the SDUs behind it. -/
theorem umBuildDataPdu_some (hsdus : ∀ sdu ∈ umPending st, IsUmSdu sdu) (hne : umPending st ≠ [])
    (hn : n < 2 ^ 31) (hgt : Um.fixedLength st.txSnFieldLength < n) :
    ∃ header b st', Um.buildDataPdu st n = (st', some (header, b)) ∧ header.li = b.li ∧
      header.snSize = st.txSnFieldLength ∧ umPending st' = b.txSdu.toList ++ b.queue ∧
      st'.txSnFieldLength = st.txSnFieldLength ∧
      Filling (Um.fixedLength st.txSnFieldLength) n (umPending st) b := by
  obtain ⟨hempty, hspace⟩ := umBuildDataPdu_guards hne hn hgt
  have hfill : Filling (Um.fixedLength st.txSnFieldLength) n (umPending st)
      (Um.fillPdu st.txSnFieldLength st.txSdu st.txSduQueue n) :=
    umFillPdu_filling hne hsdus hn hgt
  unfold Um.buildDataPdu
  rw [if_neg hempty, if_neg hspace]
  exact ⟨_, _, _, rfl, rfl, rfl, rfl, rfl, hfill⟩

/-- One call of `read_pdu` keeps to the grant exactly when the grant fits, and loses no
byte. -/
theorem umReadPdu_iff (hsdus : ∀ sdu ∈ umPending st, IsUmSdu sdu) (hn : n < 2 ^ 32) :
    (UmKeepsGrant st n ↔ UmFitsGrant st n) ∧
      umPayload st n ++ (umPending (Um.readPdu st n).1).flatten = (umPending st).flatten ∧
      ∀ sdu ∈ umPending (Um.readPdu st n).1, IsUmSdu sdu := by
  by_cases hnone : umPending st = [] ∨ 2 ^ 31 ≤ n ∨ n ≤ Um.fixedLength st.txSnFieldLength
  · obtain ⟨hbuild, hfits⟩ := umBuildDataPdu_none hn hnone
    refine ⟨⟨fun _ => hfits, fun _ => ⟨?_, ?_, ?_⟩⟩, ?_, ?_⟩
    · simp [Um.readPdu, hbuild, Um.pduBytes]
    · intro pdu hpdu
      rw [hbuild] at hpdu
      cases hpdu
    · rw [Um.buildDataPduCopies, hbuild]
      exact nofun
    · simp [umPayload, Um.readPdu, hbuild]
    · simpa [Um.readPdu, hbuild] using hsdus
  · simp only [not_or, Nat.not_le] at hnone
    obtain ⟨header, b, st', hbuild, hli, hsize, hpending, -, hfill⟩ :=
      umBuildDataPdu_some hsdus hnone.1 hnone.2.1 hnone.2.2
    have hread : Um.readPdu st n = (st', Um.writeDataPduHeader header ++ b.pdu) := by
      rw [Um.readPdu, hbuild]
      rfl
    have hlen : (Um.readPdu st n).2.length
        = Um.fixedLength st.txSnFieldLength + liBytes b.li.length + b.pdu.length := by
      rw [hread]
      simp only [List.length_append, length_umWriteDataPduHeader, hli, hsize]
    refine ⟨?_, ?_, ?_⟩
    · have hcopies : InRoom (Um.buildDataPduCopies st n) ↔ b.pdu.length ≤ msgRoom := by
        rw [Um.buildDataPduCopies, hbuild]
        simp [InRoom]
      have hkeeps : UmKeepsGrant st n
          ↔ UmFits (Um.fixedLength st.txSnFieldLength) n b ∧ b.pdu.length ≤ msgRoom := by
        unfold UmKeepsGrant
        rw [hlen, hcopies, hbuild]
        constructor
        · exact fun h => ⟨{ size := h.1, copies := h.2.1 _ rfl }, h.2.2⟩
        · rintro ⟨h, hroom⟩
          refine ⟨h.size, fun pdu hpdu => ?_, hroom⟩
          obtain rfl := Option.some.inj hpdu
          exact h.copies
      rw [hkeeps, hfill.fits, UmFitsGrant, forall_prop_of_true hnone.2.1]
      -- Without an overrun the SDUs are packed.
      refine and_congr_right fun hno => ?_
      rw [hfill.packs hno, packed_le_msgRoom_iff (umHead_monotone _)]
    · rw [hread, hpending, umPayload, hbuild]
      exact hfill.bytes
    · rw [hread, hpending]
      exact hfill.rest

end

/-! ### Runs -/

/-- An entity with the SDUs submitted to it and the SDU bytes of the PDUs it has emitted. -/
structure UmLog where
  st : Um.RlcUm
  submitted : List Bytes := []
  payloads : List Bytes := []

/-- The calls PDCP and MAC make on the transmit side. -/
inductive UmCall where
  | writeSdu (sdu : Bytes)
  | readPdu (nofBytes : Nat)
deriving DecidableEq, Repr

/-- The entity and the log after a call that returns. -/
def umStep (s : UmLog) : UmCall → Option UmLog
  | .writeSdu sdu =>
    (Um.writeSdu s.st sdu).map fun st => { s with st := st, submitted := s.submitted ++ [sdu] }
  | .readPdu n =>
    some { s with st := (Um.readPdu s.st n).1, payloads := s.payloads ++ [umPayload s.st n] }

/-- The calls that can be made: SDUs are not empty, and a grant is a `uint32_t`. -/
def UmCallOk : UmCall → Prop
  | .writeSdu sdu => IsUmSdu sdu
  | .readPdu n => n < 2 ^ 32

/-- The bytes sent so far, followed by those not sent yet, are the bytes submitted. -/
def UmConserves (s : UmLog) : Prop :=
  s.payloads.flatten ++ (umPending s.st).flatten = s.submitted.flatten

/-- What a call is to do: `read_pdu` keeps to its grant and its buffer, and no byte is lost. -/
def UmStepOk (s : UmLog) (c : UmCall) (s' : UmLog) : Prop :=
  (∀ n, c = .readPdu n → UmKeepsGrant s.st n) ∧ UmConserves s'

/-- The condition on a call in the state before it. -/
def UmGrantOk (s : UmLog) (c : UmCall) : Prop := ∀ n, c = .readPdu n → UmFitsGrant s.st n

/-- The SDUs of a state are those that were submitted. -/
structure UmInv (s : UmLog) : Prop where
  sdus : ∀ sdu ∈ umPending s.st, IsUmSdu sdu
  conserves : UmConserves s

/-- A call keeps the SDUs that were submitted, and does what it should exactly when its grant is
good. -/
theorem umStep_inv {s s' : UmLog} {c : UmCall} (h : UmInv s) (hc : UmCallOk c)
    (hstep : umStep s c = some s') : UmInv s' ∧ (UmStepOk s c s' ↔ UmGrantOk s c) := by
  have hconserves := h.conserves
  unfold UmConserves at hconserves
  cases c with
  | writeSdu sdu =>
    obtain ⟨st, hwrite, rfl⟩ := Option.map_eq_some_iff.mp hstep
    unfold Um.writeSdu at hwrite
    split at hwrite
    · obtain rfl := Option.some.inj hwrite
      have hpending : umPending { s.st with txSduQueue := s.st.txSduQueue ++ [sdu] }
          = umPending s.st ++ [sdu] := by
        simp [umPending]
      have hinv : UmInv { s with
          st := { s.st with txSduQueue := s.st.txSduQueue ++ [sdu] }
          submitted := s.submitted ++ [sdu] } := by
        refine { sdus := ?_, conserves := ?_ }
        · rw [hpending]
          intro x hx
          rcases List.mem_append.mp hx with hx | hx
          · exact h.sdus x hx
          · rw [List.mem_singleton.mp hx]
            exact hc
        · unfold UmConserves
          simp only [hpending, List.flatten_append, ← hconserves, List.append_assoc]
      refine ⟨hinv, fun _ n hn => ?_, fun _ => ⟨fun n hn => ?_, hinv.conserves⟩⟩
      · cases hn
      · cases hn
    · cases hwrite
  | readPdu n =>
    obtain rfl := Option.some.inj hstep
    obtain ⟨hiff, hbytes, hsdus⟩ := umReadPdu_iff h.sdus hc
    have hinv : UmInv { s with
        st := (Um.readPdu s.st n).1
        payloads := s.payloads ++ [umPayload s.st n] } := by
      -- What is put into PDUs is what is no longer pending.
      refine { sdus := hsdus, conserves := ?_ }
      unfold UmConserves
      simp only [List.flatten_append, List.flatten_cons, List.flatten_nil, List.append_nil,
        List.append_assoc, hbytes]
      exact hconserves
    refine ⟨hinv, fun hok m hm => ?_, fun hok => ⟨fun m hm => ?_, hinv.conserves⟩⟩
    · cases hm
      exact hiff.mp (hok.1 n rfl)
    · cases hm
      exact hiff.mpr (hok n rfl)

/-- A fresh entity. -/
def umStart (snSize : UmdSnSize) : UmLog := { st := Um.configure snSize }

/-- For both sequence number sizes and any calls, every PDU keeps to its grant and its buffer and no
byte is lost exactly when every grant fits. -/
theorem umTransmit_iff (snSize : UmdSnSize) (calls : List UmCall)
    (hcalls : ∀ c ∈ calls, UmCallOk c) :
    Along umStep UmStepOk (umStart snSize) calls
      ↔ Along umStep (fun s c _ => UmGrantOk s c) (umStart snSize) calls := by
  have hinit : UmInv (umStart snSize) :=
    { sdus := by simp [umPending, umStart, Um.configure]
      conserves := by simp [UmConserves, umPending, umStart, Um.configure] }
  exact along_iff (I := UmInv) (fun _ _ _ h hc hstep => (umStep_inv h hc hstep).2)
    (fun _ _ _ h hc hstep _ => (umStep_inv h hc hstep).1) hcalls hinit

/-- Two SDUs, and a grant that holds the first one and a part of the second. -/
theorem umTransmit_two :
    Along umStep UmStepOk (umStart .size10Bits)
      [.writeSdu [1, 2, 3], .writeSdu [4, 5], .readPdu 8] := by
  refine (umTransmit_iff .size10Bits [.writeSdu [1, 2, 3], .writeSdu [4, 5], .readPdu 8]
    (by simp [UmCallOk, IsUmSdu])).mpr ?_
  intro s₁ h₁
  obtain rfl := Option.some.inj h₁
  refine ⟨fun n hn => (by cases hn), ?_⟩
  intro s₂ h₂
  obtain rfl := Option.some.inj h₂
  refine ⟨fun n hn => (by cases hn), ?_⟩
  intro s₃ _
  refine ⟨fun n hn _ => ?_, trivial⟩
  cases hn
  refine ⟨?_, .inl (by decide)⟩
  -- Only one SDU can stand before another one, and its length does not meet the equation.
  rintro ⟨xs, y, ys, hsplit, hodd, heq⟩
  change [[1, 2, 3], [4, 5]] = xs ++ y :: ys at hsplit
  match xs, hsplit with
  | [], _ => exact absurd hodd (by decide)
  | [x], hsplit =>
    obtain ⟨rfl, -⟩ := List.cons.inj hsplit
    exact absurd heq (by decide)
  | x :: x' :: xs, hsplit =>
    have := congrArg List.length hsplit
    simp at this

/-- With one byte less than the length indicator takes, the second SDU is sent whole, in 9
bytes instead of 6. -/
theorem umTransmit_overrun :
    ¬Along umStep UmStepOk (umStart .size10Bits)
      [.writeSdu [1, 2, 3], .writeSdu [4, 5], .readPdu 6] := by
  intro h
  have hread := ((h _ rfl).2 _ rfl).2 _ rfl
  have hlen := (hread.1.1 6 rfl).1
  exact absurd hlen (by decide)

end SrsUE.Proofs.Rlc
