import SrsUE.Lib.Framing
import SrsUE.Lib.Packing
import SrsUE.Proofs.Rlc.AmDataHeader
import SrsUE.Rlc.BufferRoom

/-!
# `SrsUE.Proofs.Rlc.AmFill`: filling a data PDU with SDUs

`build_data_pdu` moves SDUs into a PDU until the grant is used up. Each further SDU costs a
length indicator, so the header grows while the space shrinks, and the last indicator is
taken back when nothing fits behind it.

* `fillPdu_fits`: whatever the SDUs are, header and data together fit the grant, and the
  length indicators are positive and cover no more than the data.
* `fillPdu_stream`: for non-empty SDUs, the stream of bytes and SDU ends in the PDU,
  followed by what is left in `tx_sdu` and the queue, is the stream there was before.
-/

set_option autoImplicit false

namespace SrsUE.Proofs.Rlc

open SrsUE.Lib
open SrsUE.Rlc

/-- The bytes of `m` length indicators. -/
def liBytes (m : Nat) : Nat := (3 * m + 1) / 2

/-- More length indicators take more bytes. -/
theorem liBytes_lt {m k : Nat} (h : m < k) : liBytes m < liBytes k := by
  unfold liBytes
  omega

/-- No fewer length indicators take no fewer bytes. -/
theorem liBytes_le {m k : Nat} (h : m ≤ k) : liBytes m ≤ liBytes k := by
  unfold liBytes
  omega

/-- One more takes at most two bytes. -/
theorem liBytes_succ_le (m : Nat) : liBytes (m + 1) ≤ liBytes m + 2 := by
  unfold liBytes
  omega

/-- The header of a data PDU is two bytes and the length indicators. -/
theorem amPackedLength_data (li : List Nat) :
    amPackedLength { li := li } = 2 + (3 * li.length + 1) / 2 := by
  simp [amPackedLength]

/-- The length indicators are written in their bytes. -/
theorem length_writeLis (lis : List Nat) : (writeLis lis).length = (3 * lis.length + 1) / 2 := by
  induction lis using writeLis.induct with
  | case1 => rfl
  | case2 li => simp [writeLis]
  | case3 li li' lis ih =>
    rw [writeLis]
    simp only [List.length_append, List.length_cons, List.length_nil, ih]
    omega

/-- The bytes of a written data header are exactly `rlc_am_packed_length`. -/
theorem length_writeDataPduHeader (header : AmdPduHeader) :
    (writeDataPduHeader header).length = amPackedLength header := by
  unfold writeDataPduHeader amPackedLength
  cases header.rf <;> simp [length_writeLis] <;> omega

/-! ### The grant -/

/-- The PDU under construction fits the grant: `head_len` is the length of the header, the
space left holds it, and nothing of the grant is lost. -/
structure Fits (n : Nat) (b : PduBuild) : Prop where
  headLen : b.headLen = amPackedLength { li := b.li }
  room : b.headLen ≤ b.pduSpace
  space : b.pdu.length + b.pduSpace = n
  pos : ∀ l ∈ b.li, 0 < l
  sum : b.li.sum + b.lastLi ≤ b.pdu.length

/-- The number of bytes that `addSdu` moves. -/
theorem addSdu_lastLi (b : PduBuild) (sdu : Bytes) :
    (b.addSdu sdu).lastLi = min sdu.length (b.pduSpace - b.headLen) := by
  simp only [PduBuild.addSdu]
  split <;> omega

/-- An SDU adds what the space allows of it. -/
theorem addSdu_pdu (b : PduBuild) (sdu : Bytes) :
    (b.addSdu sdu).pdu = b.pdu ++ sdu.take (b.addSdu sdu).lastLi := rfl

/-- What is left of it stays in `tx_sdu`, if anything is. -/
theorem addSdu_txSdu (b : PduBuild) (sdu : Bytes) :
    (b.addSdu sdu).txSdu = if sdu.length - (b.addSdu sdu).lastLi = 0 then none
      else some (sdu.drop (b.addSdu sdu).lastLi) := rfl

/-- The PDU grows by what was moved. -/
theorem length_addSdu_pdu (b : PduBuild) (sdu : Bytes) :
    (b.addSdu sdu).pdu.length = b.pdu.length + (b.addSdu sdu).lastLi := by
  have := addSdu_lastLi b sdu
  rw [addSdu_pdu, List.length_append, List.length_take]
  omega

/-- The space shrinks by it. -/
theorem addSdu_pduSpace (b : PduBuild) (sdu : Bytes) :
    (b.addSdu sdu).pduSpace = b.pduSpace - (b.addSdu sdu).lastLi := by
  have hlast := addSdu_lastLi b sdu
  have hdef : (b.addSdu sdu).pduSpace
      = if (b.addSdu sdu).lastLi < b.pduSpace then b.pduSpace - (b.addSdu sdu).lastLi else 0 :=
    rfl
  rw [hdef]
  split <;> omega

/-- Moving an SDU into a PDU whose earlier data is all behind length indicators. -/
theorem Fits.addSdu {n : Nat} {b : PduBuild} (hf : Fits n b) (sdu : Bytes)
    (hsum : b.li.sum ≤ b.pdu.length) : Fits n (b.addSdu sdu) := by
  have h0 : 0 < b.headLen := by rw [hf.headLen, amPackedLength_data]; omega
  have hroom := hf.room
  have hspace := hf.space
  have hlast := addSdu_lastLi b sdu
  have hlen := length_addSdu_pdu b sdu
  have hsp := addSdu_pduSpace b sdu
  refine { headLen := hf.headLen, room := ?_, space := ?_, pos := hf.pos, sum := ?_ }
  · show b.headLen ≤ _
    omega
  · omega
  · show b.li.sum + _ ≤ _
    omega

/-- A finished PDU: header and data fit the grant. `room` is the number of length indicators
the SDUs can need. -/
structure Filled (n room : Nat) (b : PduBuild) : Prop where
  fits : amPackedLength { li := b.li } + b.pdu.length ≤ n
  pos : ∀ l ∈ b.li, 0 < l
  sum : b.li.sum ≤ b.pdu.length
  lis : b.li.length ≤ room

/-- A PDU that fits its grant is finished as it is. -/
theorem Fits.filled {n room : Nat} {b : PduBuild} (hf : Fits n b) (h : b.li.length ≤ room)
    {b' : PduBuild} (hli : b'.li = b.li) (hpdu : b'.pdu = b.pdu) : Filled n room b' := by
  have hh := hf.headLen
  have hroom := hf.room
  have hspace := hf.space
  have hsum := hf.sum
  refine { fits := ?_, pos := by rw [hli]; exact hf.pos, sum := ?_, lis := by rw [hli]; exact h }
  · rw [hli, hpdu]
    omega
  · rw [hli, hpdu]
    omega

/-- The state at the next round of the loop, when the next SDU is taken from the queue: the
last SDU gets a length indicator, unless nothing was moved before. -/
def pushLi (b : PduBuild) : PduBuild :=
  let li := if 0 < b.lastLi then b.li ++ [b.lastLi] else b.li
  { b with li := li, headLen := amPackedLength { li := li } }

/-- One round of the loop of `build_data_pdu`. -/
theorem pullSdus_cons (sdu : Bytes) (queue : List Bytes) (b : PduBuild) :
    pullSdus (sdu :: queue) b
      = if b.headLen < b.pduSpace then
          if b.pduSpace ≤ (pushLi b).headLen then
            { pushLi b with li := (pushLi b).li.dropLast, queue := sdu :: queue }
          else pullSdus queue ((pushLi b).addSdu sdu)
        else { b with queue := sdu :: queue } := rfl

/-- The round that takes the last length indicator back: it was added in this round. -/
theorem pushLi_dropLast {n : Nat} {b : PduBuild} (hf : Fits n b) (hlt : b.headLen < b.pduSpace)
    (hle : b.pduSpace ≤ (pushLi b).headLen) : (pushLi b).li.dropLast = b.li := by
  have hh := hf.headLen
  unfold pushLi at hle ⊢
  simp only at hle ⊢
  split
  · rw [List.dropLast_concat]
  · rename_i hz
    rw [if_neg hz] at hle
    omega

/-- A length indicator keeps the PDU in the grant, when there is space behind it. -/
theorem fits_pushLi {n : Nat} {b : PduBuild} (hf : Fits n b)
    (hlt : ¬ b.pduSpace ≤ (pushLi b).headLen) :
    Fits n { pushLi b with lastLi := 0 } ∧ (pushLi b).li.sum ≤ b.pdu.length := by
  have hsum := hf.sum
  have hli : (pushLi b).li.sum ≤ b.pdu.length := by
    unfold pushLi
    simp only
    split
    · rw [List.sum_append, List.sum_singleton]
      exact hsum
    · omega
  refine ⟨{ headLen := rfl, room := Nat.le_of_not_le hlt, space := hf.space, pos := ?_,
            sum := hli }, hli⟩
  intro l hl
  unfold pushLi at hl
  simp only at hl
  split at hl
  · rename_i hpos
    rcases List.mem_append.mp hl with h | h
    · exact hf.pos l h
    · rw [List.mem_singleton.mp h]
      exact hpos
  · exact hf.pos l hl

/-- A round adds at most one length indicator. -/
theorem length_pushLi (b : PduBuild) : (pushLi b).li.length ≤ b.li.length + 1 := by
  unfold pushLi
  simp only
  split
  · simp
  · omega

/-- The loop keeps the PDU inside the grant, for any queue. -/
theorem pullSdus_filled {n : Nat} (queue : List Bytes) (b : PduBuild) (hf : Fits n b) :
    Filled n (b.li.length + queue.length) (pullSdus queue b) := by
  induction queue generalizing b with
  | nil => exact hf.filled (by simp) rfl rfl
  | cons sdu queue ih =>
    rw [pullSdus_cons]
    split
    · rename_i hlt
      split
      · rename_i hle
        exact hf.filled (by omega) (pushLi_dropLast hf hlt hle) rfl
      · rename_i hgt
        obtain ⟨hw, hsum⟩ := fits_pushLi hf hgt
        have hrest := ih ((pushLi b).addSdu sdu) (hw.addSdu sdu hsum)
        have hlen := length_pushLi b
        exact { fits := hrest.fits, pos := hrest.pos, sum := hrest.sum
                lis := by
                  have hlis : _ ≤ (pushLi b).li.length + queue.length := hrest.lis
                  rw [List.length_cons]
                  omega }
    · exact hf.filled (by omega) rfl rfl

/-- The loop takes SDUs from the front of the queue. -/
theorem pullSdus_queue_suffix (queue : List Bytes) (b : PduBuild) :
    (pullSdus queue b).queue <:+ queue := by
  induction queue generalizing b with
  | nil => exact List.suffix_refl []
  | cons sdu queue ih =>
    rw [pullSdus_cons]
    split
    · split
      · exact List.suffix_refl _
      · exact (ih _).trans (List.suffix_cons sdu queue)
    · exact List.suffix_refl _

/-- The PDU before the first SDU is moved. -/
def emptyPdu (txSdu : Option Bytes) (queue : List Bytes) (n : Nat) : PduBuild :=
  { headLen := amPackedLength {}, pduSpace := n, txSdu := txSdu, queue := queue }

/-- The empty PDU fits any grant above the header. -/
theorem fits_emptyPdu (txSdu : Option Bytes) (queue : List Bytes) {n : Nat} (hn : 2 < n) :
    Fits n (emptyPdu txSdu queue n) where
  headLen := rfl
  room := by
    show amPackedLength { li := [] } ≤ n
    rw [amPackedLength_data]
    simp
    omega
  space := by simp [emptyPdu]
  pos := by simp [emptyPdu]
  sum := by simp [emptyPdu]

/-- With an SDU partly sent, the rest of it comes first. -/
theorem fillPdu_some (sdu : Bytes) (queue : List Bytes) (n : Nat) :
    fillPdu (some sdu) queue n = pullSdus queue ((emptyPdu (some sdu) queue n).addSdu sdu) := rfl

/-- Otherwise the queue is where SDUs come from. -/
theorem fillPdu_none (queue : List Bytes) (n : Nat) :
    fillPdu none queue n = pullSdus queue (emptyPdu none queue n) := rfl

/-- Header and data of a new PDU fit the grant, for any SDUs. -/
theorem fillPdu_fits (txSdu : Option Bytes) (queue : List Bytes) {n : Nat} (hn : 2 < n) :
    Filled n queue.length (fillPdu txSdu queue n) := by
  cases txSdu with
  | some sdu =>
    have h := pullSdus_filled queue _
      ((fits_emptyPdu (some sdu) queue hn).addSdu sdu (by simp [emptyPdu]))
    rw [fillPdu_some]
    simpa [emptyPdu, PduBuild.addSdu] using h
  | none =>
    have h := pullSdus_filled queue _ (fits_emptyPdu none queue hn)
    rw [fillPdu_none]
    simpa [emptyPdu] using h

/-! ### How much gets in -/

/-- The header of a data PDU in front of the last of its SDUs, when there are `m` others. -/
def dataHead (m : Nat) : Nat := 2 + liBytes m

/-- More SDUs have no shorter header. -/
theorem dataHead_monotone : Monotone dataHead := fun _ _ h => Nat.add_le_add_left (liBytes_le h) 2

/-- The length indicators once another SDU is taken. -/
theorem length_pushLi_eq (b : PduBuild) :
    (pushLi b).li.length = b.li.length + if 0 < b.lastLi then 1 else 0 := by
  unfold pushLi
  simp only
  split_ifs
  · rw [List.length_append, List.length_singleton]
  · rfl

/-- From a PDU with `m` SDUs on, the loop packs the SDUs of the queue. -/
theorem length_pullSdus {n m : Nat} (queue : List Bytes) (b : PduBuild) (hf : Fits n b)
    (hq : ∀ sdu ∈ queue, sdu ≠ []) (hm : m = b.li.length + if 0 < b.lastLi then 1 else 0) :
    (pullSdus queue b).pdu.length = packed dataHead n m b.pdu.length queue := by
  induction queue generalizing b m with
  | nil => rfl
  | cons sdu queue ih =>
    have hsdu : 0 < sdu.length := List.length_pos_iff.mpr (hq sdu (List.mem_cons_self ..))
    have hspace := hf.space
    have hhead : b.headLen = 2 + liBytes b.li.length := hf.headLen.trans (amPackedLength_data _)
    have hli : (pushLi b).li.length = m := (length_pushLi_eq b).trans hm.symm
    have hpush : (pushLi b).headLen = 2 + liBytes m := by
      rw [← hli]
      exact amPackedLength_data _
    have hgrow : liBytes b.li.length ≤ liBytes m := liBytes_le (by omega)
    rw [pullSdus_cons, packed, hpush]
    unfold dataHead at ih ⊢
    by_cases hfull : n ≤ b.pdu.length + (2 + liBytes m)
    · -- The loop ends at once, or takes the length indicator back.
      rw [if_pos hfull]
      split_ifs
      · rfl
      · omega
      · rfl
    · obtain ⟨hw, hsum⟩ := fits_pushLi hf (by rw [hpush]; omega)
      have hnext := hw.addSdu sdu hsum
      have hlast : ((pushLi b).addSdu sdu).lastLi
          = min sdu.length (b.pduSpace - (2 + liBytes m)) := by
        rw [addSdu_lastLi, hpush]
        rfl
      have hlen : ((pushLi b).addSdu sdu).pdu.length = b.pdu.length
          + ((pushLi b).addSdu sdu).lastLi := length_addSdu_pdu (pushLi b) sdu
      have hrest := ih ((pushLi b).addSdu sdu) hnext (fun s hs => hq s (List.mem_cons_of_mem _ hs))
        (m := m + 1) (by
          show m + 1 = (pushLi b).li.length + _
          rw [if_pos (by omega), hli])
      rw [if_neg hfull, if_pos (by omega), if_neg (by omega), hrest, hlen]
      by_cases hfit : b.pdu.length + sdu.length + (2 + liBytes m) ≤ n
      · rw [if_pos hfit, hlast, Nat.min_eq_left (by omega)]
      · rw [if_neg hfit, hlast, Nat.min_eq_right (by omega), packed_of_full]
        · omega
        · have hnext : liBytes m ≤ liBytes (m + 1) := liBytes_le (Nat.le_succ m)
          omega

/-- The data of a new PDU are the SDUs as far as they can be packed. -/
theorem length_fillPdu {txSdu : Option Bytes} {queue : List Bytes} {n : Nat} (hn : 2 < n)
    (hsdus : ∀ sdu ∈ txSdu.toList ++ queue, sdu ≠ []) :
    (fillPdu txSdu queue n).pdu.length = packed dataHead n 0 0 (txSdu.toList ++ queue) := by
  cases txSdu with
  | none =>
    rw [fillPdu_none, length_pullSdus queue _ (fits_emptyPdu none queue hn) hsdus rfl]
    rfl
  | some sdu =>
    have hsdu : 0 < sdu.length := List.length_pos_iff.mpr (hsdus sdu (by simp))
    have hlast : ((emptyPdu (some sdu) queue n).addSdu sdu).lastLi = min sdu.length (n - 2) :=
      addSdu_lastLi _ sdu
    have hlen : ((emptyPdu (some sdu) queue n).addSdu sdu).pdu.length = min sdu.length (n - 2) :=
      (length_addSdu_pdu (emptyPdu (some sdu) queue n) sdu).trans (by
        rw [hlast]
        exact Nat.zero_add _)
    rw [fillPdu_some, length_pullSdus queue _
      ((fits_emptyPdu (some sdu) queue hn).addSdu sdu (by simp [emptyPdu]))
      (fun s hs => hsdus s (List.mem_append_right _ hs)) rfl, hlast, hlen, if_pos (by omega)]
    show packed dataHead n 1 _ queue = packed dataHead n 0 0 (sdu :: queue)
    rw [packed, dataHead, liBytes, if_neg (by omega)]
    -- The partly sent SDU goes in whole, or it uses up the grant.
    by_cases hfit : 0 + sdu.length + (2 + (3 * 0 + 1) / 2) ≤ n
    · rw [if_pos hfit, Nat.min_eq_left (by omega), Nat.zero_add, Nat.zero_add]
    · rw [if_neg hfit, Nat.min_eq_right (by omega), packed_of_full]
      have := liBytes_le (Nat.zero_le 1)
      unfold dataHead
      omega

/-- The grants with which the SDUs that are packed stay in a buffer: there are not more of them, or
the grant ends before the first byte that the buffer does not hold. -/
def FitsBuffer (head : Nat → Nat) (sdus : List Bytes) (n : Nat) : Prop :=
  sdus.flatten.length ≤ msgRoom ∨ n ≤ msgRoom + head (wholeWithin msgRoom sdus)

instance (head : Nat → Nat) (sdus : List Bytes) (n : Nat) : Decidable (FitsBuffer head sdus n) :=
  inferInstanceAs (Decidable (_ ∨ _))

/-- What is packed stays in the buffer exactly for the grants listed. -/
theorem packed_le_msgRoom_iff {head : Nat → Nat} (hmono : Monotone head) (sdus : List Bytes)
    (n : Nat) :
    packed head n 0 0 sdus ≤ msgRoom ↔ FitsBuffer head sdus n := by
  have hlt := lt_packed_iff hmono (n := n) sdus (m := 0) (Nat.zero_le msgRoom)
  rw [Nat.zero_add, Nat.zero_add, Nat.sub_zero] at hlt
  rw [FitsBuffer, ← Nat.not_lt, hlt, not_and_or, Nat.not_lt, Nat.not_lt]

/-! ### The stream -/

/-- An SDU that `write_sdu` takes, or the rest of one: not empty and at most `B` bytes
long. -/
def IsSdu (B : Nat) (sdu : Bytes) : Prop := sdu ≠ [] ∧ sdu.length ≤ B

/-- The last SDU is in the PDU at least in part. Its bytes are those behind the length
indicators, and if a rest stays in `tx_sdu` then the space is used up. -/
structure Open (B : Nat) (b : PduBuild) : Prop where
  last_pos : 0 < b.lastLi
  last_le : b.lastLi ≤ B
  last : b.pdu.length = b.li.sum + b.lastLi
  le : ∀ l ∈ b.li, l ≤ B
  rest : ∀ r, b.txSdu = some r → IsSdu B r ∧ b.pduSpace = b.headLen

/-- The end mark of a PDU whose last SDU is complete. -/
def endMark (txSdu : Option Bytes) : List (Token UInt8) := if txSdu.isNone then [none] else []

/-- The stream of a PDU under construction. -/
def buildTokens (b : PduBuild) : List (Token UInt8) := frame b.li b.pdu ++ endMark b.txSdu

/-- Moving an SDU into a PDU whose earlier SDUs all have length indicators. -/
theorem addSdu_open {B : Nat} {b : PduBuild} {sdu : Bytes}
    (hlt : b.headLen < b.pduSpace) (hsdu : IsSdu B sdu) (hle : ∀ l ∈ b.li, l ≤ B)
    (hsum : b.li.sum = b.pdu.length) :
    Open B (b.addSdu sdu) ∧
      buildTokens (b.addSdu sdu) ++ marked (b.addSdu sdu).txSdu.toList
        = frame b.li b.pdu ++ marked [sdu] := by
  have hpos : 0 < sdu.length := List.length_pos_iff.mpr hsdu.1
  have hB := hsdu.2
  have hlast := addSdu_lastLi b sdu
  have hlen := length_addSdu_pdu b sdu
  have hsp := addSdu_pduSpace b sdu
  have htx := addSdu_txSdu b sdu
  have hframe : frame (b.addSdu sdu).li (b.addSdu sdu).pdu
      = frame b.li b.pdu ++ (sdu.take (b.addSdu sdu).lastLi).map some := by
    rw [addSdu_pdu]
    exact frame_append b.li b.pdu _ (Nat.le_of_eq hsum)
  constructor
  · refine { last_pos := by omega, last_le := by omega, last := ?_, le := hle, rest := ?_ }
    · show _ = b.li.sum + _
      omega
    · intro r hr
      rw [htx] at hr
      split at hr
      · cases hr
      · rename_i hne
        obtain rfl := Option.some.inj hr
        refine ⟨⟨?_, ?_⟩, ?_⟩
        · rw [← List.length_pos_iff, List.length_drop]
          omega
        · rw [List.length_drop]
          omega
        · show _ = b.headLen
          omega
  · unfold buildTokens endMark
    rw [hframe, htx]
    split
    · -- The SDU is moved whole.
      rw [List.take_of_length_le (by omega)]
      simp [marked]
    · rw [List.append_assoc, List.append_assoc]
      simp only [Option.isNone_some, Bool.false_eq_true, if_false, List.nil_append,
        Option.toList_some]
      rw [marked_cons, marked_cons, ← List.append_assoc (List.map some _), ← List.map_append,
        List.take_append_drop]

/-- The PDU `b'` that results from `b` when SDUs are pulled from `queue`: it holds data
behind its last length indicator, and its stream followed by what is left is the stream
there was. -/
structure Pulled (B : Nat) (toks : List (Token UInt8)) (queue : List Bytes) (b' : PduBuild) :
    Prop where
  sum_lt : b'.li.sum < b'.pdu.length
  le : ∀ l ∈ b'.li, l ≤ B
  rest : ∀ r, b'.txSdu = some r → IsSdu B r
  taken : ∃ taken, queue = taken ++ b'.queue
  tokens : buildTokens b' ++ marked (b'.txSdu.toList ++ b'.queue) = toks ++ marked queue

/-- The loop stops: nothing more is pulled. -/
theorem Open.pulled {B : Nat} {b b' : PduBuild} {queue : List Bytes} (ho : Open B b)
    (hli : b'.li = b.li) (hpdu : b'.pdu = b.pdu) (htx : b'.txSdu = b.txSdu)
    (hqueue : b'.queue = queue) :
    Pulled B (buildTokens b ++ marked b.txSdu.toList) queue b' where
  sum_lt := by
    have := ho.last
    have := ho.last_pos
    rw [hli, hpdu]
    omega
  le := by rw [hli]; exact ho.le
  rest r hr := (ho.rest r (htx ▸ hr)).1
  taken := ⟨[], hqueue.symm⟩
  tokens := by
    unfold buildTokens
    rw [hli, hpdu, htx, hqueue, marked_append, List.append_assoc _ (marked b.txSdu.toList)]

/-- The loop moves whole SDUs, then perhaps a part of one. -/
theorem pullSdus_open {n B : Nat} (queue : List Bytes) (b : PduBuild) (hf : Fits n b)
    (ho : Open B b) (hq : ∀ sdu ∈ queue, IsSdu B sdu) :
    Pulled B (buildTokens b ++ marked b.txSdu.toList) queue (pullSdus queue b) := by
  induction queue generalizing b with
  | nil => exact ho.pulled rfl rfl rfl rfl
  | cons sdu queue ih =>
    rw [pullSdus_cons]
    split
    · rename_i hlt
      split
      · rename_i hle
        exact ho.pulled (pushLi_dropLast hf hlt hle) rfl rfl rfl
      · rename_i hgt
        have hlast := ho.last
        -- The space is not used up, so the last SDU is complete.
        have htx : b.txSdu = none := by
          cases htx : b.txSdu with
          | none => rfl
          | some r => have := (ho.rest r htx).2; omega
        have hli : (pushLi b).li = b.li ++ [b.lastLi] := if_pos ho.last_pos
        obtain ⟨hw, -⟩ := fits_pushLi hf hgt
        have hle : ∀ l ∈ (pushLi b).li, l ≤ B := by
          rw [hli]
          intro l hl
          rcases List.mem_append.mp hl with h | h
          · exact ho.le l h
          · rw [List.mem_singleton.mp h]
            exact ho.last_le
        have hsum : (pushLi b).li.sum = (pushLi b).pdu.length := by
          rw [hli, List.sum_append, List.sum_singleton]
          exact hlast.symm
        obtain ⟨ho', htok⟩ := addSdu_open (b := pushLi b)
          (Nat.lt_of_not_le hgt) (hq sdu (List.mem_cons_self ..)) hle hsum
        have hclose : frame (pushLi b).li (pushLi b).pdu
            = buildTokens b ++ marked b.txSdu.toList := by
          have h := frame_append_length b.li b.pdu [] (by omega)
          rw [List.append_nil, show b.pdu.length - b.li.sum = b.lastLi by omega] at h
          rw [hli, buildTokens, htx]
          show frame (b.li ++ [b.lastLi]) b.pdu = _
          simpa [endMark] using h
        have hrest := ih ((pushLi b).addSdu sdu) (hw.addSdu sdu (Nat.le_of_eq hsum)) ho'
          fun s hs => hq s (List.mem_cons_of_mem _ hs)
        rw [htok, hclose] at hrest
        obtain ⟨taken, htaken⟩ := hrest.taken
        refine { sum_lt := hrest.sum_lt, le := hrest.le, rest := hrest.rest,
                 taken := ⟨sdu :: taken, by rw [List.cons_append, ← htaken]⟩, tokens := ?_ }
        rw [hrest.tokens, List.append_assoc _ (marked [sdu]), ← marked_append,
          List.singleton_append]
    · exact ho.pulled rfl rfl rfl rfl

/-- The PDU that `build_data_pdu` fills from non-empty SDUs. -/
theorem fillPdu_stream {n B : Nat} {txSdu : Option Bytes} {queue : List Bytes} (hn : 2 < n)
    (htx : ∀ r, txSdu = some r → IsSdu B r) (hq : ∀ sdu ∈ queue, IsSdu B sdu)
    (hne : ¬ (txSdu.isNone ∧ queue.length = 0)) :
    Pulled B (marked txSdu.toList) queue (fillPdu txSdu queue n) := by
  have hhead : amPackedLength {} < n := by
    simpa [amPackedLength] using hn
  cases txSdu with
  | some sdu =>
    have hf := fits_emptyPdu (some sdu) queue hn
    obtain ⟨ho, htok⟩ := addSdu_open (b := emptyPdu (some sdu) queue n) hhead (htx sdu rfl)
      (by simp [emptyPdu]) rfl
    have h := pullSdus_open queue _ (hf.addSdu sdu (Nat.le_refl _)) ho hq
    rw [htok] at h
    exact h
  | none =>
    cases queue with
    | nil => exact absurd ⟨rfl, rfl⟩ hne
    | cons sdu queue =>
      have hf := fits_emptyPdu none (sdu :: queue) hn
      -- The first round of the loop takes the SDU without a length indicator, as nothing is in the
      -- PDU.
      have hround : fillPdu none (sdu :: queue) n
          = pullSdus queue ((emptyPdu none (sdu :: queue) n).addSdu sdu) := by
        rw [fillPdu_none, pullSdus_cons, if_pos (by exact hhead),
          if_neg (by exact Nat.not_le.mpr hhead)]
        rfl
      obtain ⟨ho, htok⟩ := addSdu_open (b := emptyPdu none (sdu :: queue) n) hhead
        (hq sdu (List.mem_cons_self ..)) (by simp [emptyPdu]) rfl
      have h := pullSdus_open queue _ (hf.addSdu sdu (Nat.le_refl _)) ho
        fun s hs => hq s (List.mem_cons_of_mem _ hs)
      rw [htok] at h
      obtain ⟨taken, htaken⟩ := h.taken
      rw [hround]
      refine { sum_lt := h.sum_lt, le := h.le, rest := h.rest,
               taken := ⟨sdu :: taken, by rw [List.cons_append, ← htaken]⟩, tokens := ?_ }
      rw [h.tokens]
      simp [emptyPdu, marked]

end SrsUE.Proofs.Rlc
