import SrsUE.Lib.Run
import SrsUE.Proofs.Rlc.AmCutSegment
import SrsUE.Proofs.Rlc.AmFill
import SrsUE.Proofs.Rlc.AmStatusPdu
import SrsUE.Proofs.Rlc.AmSteps

/-!
# `SrsUE.Proofs.Rlc.AmGrant`: the size of the PDUs `read_pdu` writes

A status PDU, a whole retransmission and a new data PDU never exceed the grant, and neither
does a segment of an entry that was NACKed whole. A segment of an entry that is already
partial can: `build_segment` sizes it for a header without its last length indicator, and
keeps this indicator when the segment ends the range or the PDU.

`FitsGrant` is the condition on the front of `retx_queue` and the grant that excludes it, and
`readPdu_fits_iff` says that it is exact in every reachable state.
-/

set_option autoImplicit false

namespace SrsUE.Proofs.Rlc

open SrsUE.Lib
open SrsUE.Rlc

/-! ### Counting length indicators -/

/-- The positions behind byte `s` at which SDU pieces end. -/
def endsBehind (s : Nat) (lis : List Nat) : List Nat := (pieceEnds 0 lis).filter (s < ·)

/-- The length indicators that `required_buffer_size` counts for a range that is not empty:
one for each SDU that ends in the range, and one for the SDU that the range ends in. -/
theorem neededLis_eq {s f : Nat} (hsf : s < f) (lis : List Nat) (lower : Nat)
    (hpos : ∀ l ∈ lis, 0 < l) (hlower : lower < f) :
    neededLis s f lower lis
      = min ((pieceEnds lower lis).filter (s < ·)).length
          (((pieceEnds lower lis).filter (s < ·)).filter (· < f)).length.succ := by
  induction lis generalizing lower with
  | nil => simp [neededLis, pieceEnds]
  | cons l lis ih =>
    have hpos' : ∀ k ∈ lis, 0 < k := fun k hk => hpos k (List.mem_cons_of_mem _ hk)
    rw [neededLis, if_neg (Nat.not_le.mpr hlower), pieceEnds]
    by_cases hs : s < lower + l
    · rw [if_pos ⟨hs, hlower⟩, List.filter_cons_of_pos (by simpa using hs)]
      by_cases hf : lower + l < f
      · rw [ih _ hpos' hf, List.filter_cons_of_pos (by simpa using hf), List.length_cons,
          List.length_cons]
        omega
      · -- The range ends in this SDU, so the others are not needed.
        have hstop : neededLis s f (lower + l) lis = 0 := by
          cases lis with
          | nil => rfl
          | cons k lis => rw [neededLis, if_pos (Nat.le_of_not_lt hf)]
        have hnone : ((pieceEnds (lower + l) lis).filter (s < ·)).filter (· < f) = [] := by
          rw [List.filter_eq_nil_iff]
          intro b hb
          have := lt_of_mem_pieceEnds hpos' (List.mem_filter.mp hb).1
          simp only [decide_eq_true_eq]
          omega
        rw [hstop, List.filter_cons_of_neg (by simpa using hf), hnone, List.length_cons,
          List.length_nil]
        omega
    · rw [if_neg fun h => hs h.1, List.filter_cons_of_neg (by simpa using hs),
        ih _ hpos' (by omega), Nat.zero_add]

/-- No length indicator is needed behind the last SDU. -/
theorem neededLis_eq_zero {s f : Nat} (lis : List Nat) (lower : Nat)
    (h : ∀ b ∈ pieceEnds lower lis, b ≤ s) : neededLis s f lower lis = 0 := by
  induction lis generalizing lower with
  | nil => rfl
  | cons l lis ih =>
    have hl := h (lower + l) (List.mem_cons_self ..)
    rw [neededLis]
    split
    · rfl
    · rw [if_neg fun hc => absurd hc.1 (Nat.not_lt.mpr hl),
        ih (lower + l) fun b hb => h b (List.mem_cons_of_mem _ hb)]

/-- A range that ends at its start or before needs at most one. -/
theorem neededLis_le_one {s f : Nat} (hf : f ≤ s) (lis : List Nat) (lower : Nat) :
    neededLis s f lower lis ≤ 1 := by
  induction lis generalizing lower with
  | nil => exact Nat.zero_le _
  | cons l lis ih =>
    rw [neededLis]
    split
    · exact Nat.zero_le _
    · by_cases hneed : s < lower + l
      · have hzero : neededLis s f (lower + l) lis = 0 := by
          cases lis with
          | nil => rfl
          | cons k lis => rw [neededLis, if_pos (by omega)]
        rw [hzero]
        split <;> omega
      · rw [if_neg fun hc => hneed hc.1, Nat.zero_add]
        exact ih (lower + l)

/-- The loop of `build_segment` for a range that ends at its start or before, in a grant that
does not shrink it: at most one length indicator is added. -/
theorem buildSegmentLoop_behind {n s c : Nat} (hc : c ≤ s) (hn : 4 ≤ n)
    (hfit : sub32 c s ≤ n - 4) (lis : List Nat) (lower : Nat) (fi : FiField) :
    (buildSegmentLoop n s lis { lower := lower, soEnd := c, fi := fi }).soEnd = c ∧
      (buildSegmentLoop n s lis { lower := lower, soEnd := c, fi := fi }).li.length
        = neededLis s c lower lis := by
  -- Before the first length indicator the end is not moved, and behind it the loop has stopped.
  have hshrink : shrinkSoEnd n s [] c = c := by
    have hspace : sub32 n (amPackedLength { rf := true, li := [] }) = n - 4 := by
      rw [amPackedLength_segment]
      exact sub32_of_le hn
    simp only [shrinkSoEnd]
    rw [hspace, if_neg (Nat.not_lt.mpr hfit)]
  induction lis generalizing lower with
  | nil => exact ⟨rfl, rfl⟩
  | cons l lis ih =>
    rw [buildSegmentLoop, neededLis]
    by_cases hstop : c ≤ lower
    · rw [if_pos hstop, if_pos hstop]
      exact ⟨rfl, rfl⟩
    · rw [if_neg hstop, if_neg hstop]
      simp only [hshrink]
      by_cases hneed : s < lower + l
      · have hboth : s < lower + l ∧ lower < c := ⟨hneed, by omega⟩
        have hafter : c ≤ lower + l := by omega
        have hzero : neededLis s c (lower + l) lis = 0 := by
          cases lis with
          | nil => rfl
          | cons k lis => rw [neededLis, if_pos hafter]
        simp only [if_pos hboth, hzero]
        rw [buildSegmentLoop_stop _ (by exact hafter)]
        exact ⟨rfl, rfl⟩
      · have hnot : ¬(s < lower + l ∧ lower < c) := fun h => hneed h.1
        simp only [if_neg hnot, Nat.zero_add]
        exact ih (lower + l)

/-! ### The length of a segment -/

section
variable {n s c f N : Nat} {bs : List Nat} {fi : FiField} {r : SegmentLoop}

/-- Without its last length indicator the segment fits the grant. -/
theorem CutShape.room (h : CutShape n s c bs fi r) (hbs : ∀ b ∈ bs, s < b) :
    4 + liBytes (r.li.length - 1) + (r.soEnd - s) ≤ n := by
  cases h with
  | whole stop lt last li hfi =>
    rw [li, length_gaps]
    unfold segEnd at stop
    omega
  | clipped xs z zs d split stop lt last le li hfi =>
    rw [li, List.length_append, length_gaps, List.length_singleton, Nat.add_sub_cancel]
    unfold segEnd at stop
    omega
  | shrunk xs x z zs split stop last le li hfi =>
    have hx : s < x := hbs x (by rw [split]; simp)
    have hanti := segEnd_anti (n := n) (s := s) (c := c) (Nat.le_add_right xs.length 1)
    rw [li, length_gaps, List.length_append, List.length_singleton, Nat.add_sub_cancel]
    rw [stop]
    unfold segEnd at last hanti ⊢
    omega

/-- The length indicators kept are one too many for the grant: the segment ends the range that
ends at `f`, or the PDU with `N` bytes. -/
def Overruns (n s f N : Nat) (r : SegmentLoop) : Prop :=
  (r.soEnd = N ∨ r.soEnd = f) ∧ 0 < r.li.length ∧
    n < 4 + liBytes r.li.length + (r.soEnd - s)

/-- A segment that ends its range, which needs `m` length indicators. -/
def OverrunsRange (n m len : Nat) : Prop :=
  0 < m ∧ 4 + liBytes (m - 1) + len ≤ n ∧ n < 4 + liBytes m + len

/-- The grant makes the segment end with the PDU, all of whose `p` length indicators it
needs, although the range reaches further. -/
def OverrunsPdu (n s N p : Nat) : Prop := s < N ∧ 0 < p ∧ n = 4 + liBytes (p - 1) + (N - s)

/-- The length indicators that the range `[s, f)` needs. -/
def rangeLis (f : Nat) (bs : List Nat) : Nat := min bs.length ((bs.filter (· < f)).length + 1)

/-- A range that ends behind all SDUs needs all length indicators. -/
theorem rangeLis_of_forall (h : ∀ b ∈ bs, b < f) : rangeLis f bs = bs.length := by
  have hall : bs.filter (· < f) = bs := by
    rw [List.filter_eq_self]
    intro b hb
    simpa using h b hb
  rw [rangeLis, hall]
  omega

/-- The SDUs that end before the range does are fewer than the length indicators it needs. -/
theorem lt_rangeLis {xs zs : List Nat} {z : Nat} (hsplit : bs = xs ++ z :: zs)
    (h : ∀ b ∈ xs, b < f) : xs.length < rangeLis f bs := by
  have hall : xs.filter (· < f) = xs := by
    rw [List.filter_eq_self]
    intro b hb
    simpa using h b hb
  rw [rangeLis, hsplit, List.filter_append, hall, List.length_append, List.length_append,
    List.length_cons]
  omega

/-- The range needs one for each SDU that ends in it, and one for the SDU it cuts. -/
theorem rangeLis_of_split {xs zs : List Nat} {z : Nat} (hsplit : bs = xs ++ z :: zs)
    (hsorted : bs.Pairwise (· < ·)) (h : ∀ b ∈ xs, b < f) (hz : f ≤ z) :
    rangeLis f bs = xs.length + 1 := by
  rw [hsplit] at hsorted ⊢
  rw [rangeLis, filter_lt_split hsorted h hz, List.length_append, List.length_cons]
  omega

/-- A segment that keeps `m + 1` length indicators, where its range needs `k` and the PDU has
`p` behind `s`. -/
theorem overruns_iff_of_kept {m k p : Nat} (hc : f = c ∨ f < s ∧ c = s + (n - 4))
    (hli : r.li.length = m + 1) (hstop : r.soEnd = segEnd n s c m) (hlt : s < r.soEnd)
    (hsN : s < N) (hk : m < k) (hkc : r.soEnd = c → k = m + 1) (hp : m < p)
    (hpN : r.soEnd = N → p = m + 1) (hN : r.soEnd ≤ N ∨ p = m + 1) :
    Overruns n s f N r
      ↔ f = c ∧ OverrunsRange n k (c - s) ∨ (N < f ∨ f < s) ∧ OverrunsPdu n s N p := by
  have hends := segEnd_cases n s c m
  rw [← hstop] at hends
  constructor
  · rintro ⟨hend, -, hover⟩
    rw [hli] at hover
    by_cases hfc : f = c ∧ r.soEnd = c
    · -- The segment ends its range.
      obtain ⟨rfl, he⟩ := hfc
      rw [he] at hover
      refine .inl ⟨rfl, ?_⟩
      rw [hkc he]
      exact ⟨Nat.succ_pos m, by rw [Nat.add_sub_cancel]; omega, hover⟩
    · -- It ends the PDU, and the grant is what bounds it.
      have he : r.soEnd = N := by omega
      refine .inr ⟨by omega, hsN, by omega, ?_⟩
      rw [hpN he, Nat.add_sub_cancel]
      omega
  · rintro (⟨rfl, -, hfit, hover⟩ | ⟨hNf, -, -, hn⟩)
    · have hle := liBytes_le (show m ≤ k - 1 by omega)
      have he : r.soEnd = f := by omega
      rw [hkc he] at hover
      exact ⟨.inr he, by omega, by rw [hli, he]; exact hover⟩
    · have hle := liBytes_le (show m ≤ p - 1 by omega)
      have he : r.soEnd = N := by
        rcases hN with hN | hN
        · omega
        · rw [hN, Nat.add_sub_cancel] at hn
          omega
      rw [hpN he, Nat.add_sub_cancel] at hn
      have hlt := liBytes_lt (Nat.lt_add_one m)
      exact ⟨.inl he, by omega, by rw [hli, he]; omega⟩

/-- A segment of a range that ends at `f`. The range bounds the segment, unless it ends before
its start: then the grant does. -/
theorem overruns_iff (h : CutShape n s c bs fi r) (hc : f = c ∨ f < s ∧ c = s + (n - 4))
    (hsorted : bs.Pairwise (· < ·)) (hbs : ∀ b ∈ bs, s < b ∧ b ≤ N) :
    Overruns n s f N r
      ↔ f = c ∧ OverrunsRange n (rangeLis c bs) (c - s) ∨
        (N < f ∨ f < s) ∧ OverrunsPdu n s N bs.length := by
  cases h with
  | whole stop lt last li hfi =>
    have hle : r.soEnd ≤ c := by rw [stop]; exact Nat.min_le_left ..
    have hall := rangeLis_of_forall fun b hb => Nat.lt_of_lt_of_le (last b hb) hle
    cases bs with
    | nil => simp [Overruns, OverrunsRange, OverrunsPdu, li, hall, gaps]
    | cons b bs =>
      have hb := hbs b (List.mem_cons_self ..)
      rw [hall, List.length_cons]
      rw [List.length_cons, Nat.add_sub_cancel] at stop
      exact overruns_iff_of_kept hc (by rw [li, length_gaps, List.length_cons]) stop lt (by omega)
        (Nat.lt_add_one _) (fun _ => rfl) (Nat.lt_add_one _) (fun _ => rfl) (.inr rfl)
  | clipped xs z zs d split stop lt last le li hfi =>
    have hle : r.soEnd ≤ c := by rw [stop]; exact Nat.min_le_left ..
    have hbelow : ∀ b ∈ xs, b < c := fun b hb => Nat.lt_of_lt_of_le (last b hb) hle
    have hz := hbs z (by rw [split]; simp)
    have hlen : bs.length = xs.length + 1 + zs.length := by
      rw [split, List.length_append, List.length_cons]
      omega
    -- A segment that ends with the PDU ends with its last SDU.
    have hzs : r.soEnd = N → zs.length = 0 := by
      intro he
      rw [split] at hsorted hbs
      cases zs with
      | nil => rfl
      | cons y ys =>
        have hzy := (List.pairwise_cons.mp (List.pairwise_append.mp hsorted).2.1).1 y (by simp)
        have := hbs y (by simp)
        omega
    refine overruns_iff_of_kept hc ?_ stop lt (by omega) (lt_rangeLis split hbelow) ?_ (by omega)
      (fun he => by rw [hlen, hzs he]) (.inl (by omega))
    · rw [li, List.length_append, length_gaps, List.length_singleton]
    · exact fun he => rangeLis_of_split split hsorted hbelow (he ▸ le)
  | shrunk xs x z zs split stop last le li hfi =>
    have hx := hbs x (by rw [split]; simp)
    have hz := hbs z (by rw [split]; simp)
    have hsorted' := hsorted
    rw [split] at hsorted'
    have hxz : x < z :=
      (List.pairwise_cons.mp (List.pairwise_append.mp hsorted').2.1).1 z (by simp)
    have hlen : bs.length = xs.length + 2 + zs.length := by
      rw [split, List.length_append, List.length_cons, List.length_cons]
      omega
    have hxf : x < c := Nat.lt_of_lt_of_le last (Nat.min_le_left ..)
    have hlt : xs.length + 1 < rangeLis c bs := by
      have hsplit : bs = (xs ++ [x]) ++ z :: zs := by
        rw [split, List.append_assoc, List.singleton_append]
      have hbelow : ∀ b ∈ xs ++ [x], b < c := by
        intro b hb
        rcases List.mem_append.mp hb with hb | hb
        · have := (List.pairwise_append.mp hsorted').2.2 b hb x (by simp)
          omega
        · rw [List.mem_singleton.mp hb]
          exact hxf
      simpa using lt_rangeLis hsplit hbelow
    -- The room for the last length indicator was there, but not for the bytes up to `x`.
    have hroom := segEnd_cases n s c (xs.length + 1)
    have hprev := segEnd_cases n s c xs.length
    rw [← stop] at hroom
    have hk := liBytes_le (show xs.length + 1 ≤ rangeLis c bs - 1 by omega)
    have hp := liBytes_le (show xs.length + 1 ≤ bs.length - 1 by omega)
    constructor
    · rintro ⟨-, -, hover⟩
      have hsucc := liBytes_succ_le xs.length
      rw [li, length_gaps, List.length_append, List.length_singleton] at hover
      omega
    · rintro (⟨rfl, -, hfit, -⟩ | ⟨-, -, -, hn⟩)
      · omega
      · omega

/-- The grants in which a segment of the range `[s, f)` of a PDU with the length indicators
`lis` and `N` bytes fits. -/
def SegmentFits (lis : List Nat) (N s f n : Nat) : Prop :=
  ¬OverrunsRange n (neededLis s f 0 lis) (sub32 f s) ∧
    ¬((N < f ∨ f < s) ∧ OverrunsPdu n s N (endsBehind s lis).length)

/-- The number of bytes that `build_segment` writes. -/
theorem length_buildSegment {st : RlcAm} {tx : AmdTxPdu} {retx : AmdRetx} {rest : List AmdRetx}
    (hn : 4 < n) (hstart : (if retx.isSegment then retx.soStart else 0) = s)
    (hend : (if retx.isSegment then retx.soEnd else tx.buf.length) = f)
    (hr : cutSegment tx.header n s f = r) :
    (pduBytes (buildSegment st n tx retx rest).2).length
      = 4 + liBytes (if r.soEnd = tx.buf.length ∨ r.soEnd = retx.soEnd then r.li.length
          else r.li.length - 1) + sub32 r.soEnd s := by
  have hlen : ¬n ≤ amPackedLength { rf := true } := by
    simp [amPackedLength]
    omega
  have hsize : ∀ (header : AmdPduHeader) (data : Bytes), header.rf = true →
      (pduBytes (some (header, data))).length = 4 + liBytes header.li.length + data.length := by
    intro header data hrf
    rw [pduBytes, List.length_append, length_writeDataPduHeader, amPackedLength, hrf]
    rfl
  unfold buildSegment
  simp only [hstart, hend, if_neg hlen, hr]
  -- The three ways out: the segment ends the PDU, it ends its range, or it drops the last length
  -- indicator.
  by_cases hN : tx.buf.length = r.soEnd
  · have hkeep : r.soEnd = tx.buf.length ∨ r.soEnd = retx.soEnd := .inl hN.symm
    rw [if_pos hN, if_pos hkeep, hsize _ _ rfl, length_copyBytes]
  · by_cases hg : retx.soEnd = r.soEnd
    · have hkeep : r.soEnd = tx.buf.length ∨ r.soEnd = retx.soEnd := .inr hg.symm
      rw [if_neg hN, if_pos hg, if_pos hkeep, hsize _ _ rfl, length_copyBytes]
    · have hdrop : ¬(r.soEnd = tx.buf.length ∨ r.soEnd = retx.soEnd) := by omega
      rw [if_neg hN, if_neg hg, if_neg hdrop, hsize _ _ rfl, length_copyBytes,
        List.length_dropLast]

/-- The PDUs that `build_data_pdu` puts in `tx_window`. -/
structure TxPduOk (tx : AmdTxPdu) : Prop where
  pos : ∀ l ∈ tx.header.li, 0 < l
  sum : tx.header.li.sum ≤ tx.buf.length
  size : liBytes tx.header.li.length + tx.buf.length < 2 ^ 32

/-- The ends of SDUs behind a position are in order, inside of the PDU, and few enough for 32 bits.
-/
theorem TxPduOk.endsBehind_bounds {tx : AmdTxPdu} (h : TxPduOk tx) (s : Nat) :
    (endsBehind s tx.header.li).Pairwise (· < ·) ∧
      (∀ b ∈ endsBehind s tx.header.li, s < b ∧ b ≤ tx.buf.length) ∧
      liBytes (endsBehind s tx.header.li).length + tx.buf.length < 2 ^ 32 := by
  refine ⟨(pairwise_pieceEnds h.pos).filter _, ?_, ?_⟩
  · intro b hb
    have hle := le_of_mem_pieceEnds (List.mem_filter.mp hb).1
    have hsum := h.sum
    exact ⟨by simpa using (List.mem_filter.mp hb).2, by omega⟩
  · have hlen : (endsBehind s tx.header.li).length ≤ tx.header.li.length := by
      rw [← length_pieceEnds 0 tx.header.li]
      exact List.length_filter_le ..
    have hsize := h.size
    unfold liBytes at hsize ⊢
    omega

/-- A segment with the length indicators it keeps fits exactly when it does not overrun. -/
theorem length_le_iff (hroom : 4 + liBytes (r.li.length - 1) + (r.soEnd - s) ≤ n) :
    4 + liBytes (if r.soEnd = N ∨ r.soEnd = f then r.li.length else r.li.length - 1)
        + (r.soEnd - s) ≤ n ↔ ¬Overruns n s f N r := by
  unfold Overruns
  split
  · rename_i hkeep
    simp only [hkeep, true_and]
    unfold liBytes at *
    omega
  · rename_i hkeep
    simp only [hkeep, false_and, not_false_eq_true, iff_true]
    exact hroom

/-- A segment with at most one length indicator. -/
theorem le_iff_not_overrunsRange {m len : Nat} (hm : m ≤ 1) (hlen : 4 + len ≤ n) :
    4 + liBytes m + len ≤ n ↔ ¬OverrunsRange n m len := by
  unfold OverrunsRange
  rcases Nat.le_one_iff_eq_zero_or_eq_one.mp hm with rfl | rfl
  · simpa [liBytes] using hlen
  · simp only [Nat.sub_self, Nat.lt_one_iff, true_and, show liBytes 0 = 0 from rfl]
    omega

/-- The segment `r` is cut from the range `[s, f)` of a PDU with `N` bytes in such a way that the
grant is kept. -/
def CutFits (n s f N : Nat) (r : SegmentLoop) : Prop :=
  4 + liBytes (if r.soEnd = N ∨ r.soEnd = f then r.li.length else r.li.length - 1)
    + sub32 r.soEnd s ≤ n

/-- What the grant leaves for data behind the header of a segment. -/
theorem segmentRoom_eq (hn : 4 < n) :
    sub32 n (amPackedLength { rf := true, li := [] }) = n - 4 := by
  rw [amPackedLength_segment]
  exact sub32_of_le (Nat.le_of_lt hn)

section
variable {tx : AmdTxPdu} (header : AmdPduHeader)

/-- A grant with room for the range does not move its end before the loop. -/
theorem cutSegment_of_room (hn : 4 < n) (hfit : sub32 f s ≤ n - 4) :
    cutSegment header n s f
      = buildSegmentLoop n s header.li { soEnd := f, fi := headFi header s } := by
  unfold cutSegment shrinkSoEnd
  simp only [segmentRoom_eq hn, if_neg (Nat.not_lt.mpr hfit)]
  rfl

/-- Without this room the segment starts out as large as the grant. -/
theorem cutSegment_of_noRoom (hn : 4 < n) (hfit : n - 4 < sub32 f s) :
    cutSegment header n s f
      = buildSegmentLoop n s header.li { soEnd := add32 s (n - 4), fi := headFi header s } := by
  unfold cutSegment shrinkSoEnd
  simp only [segmentRoom_eq hn, if_pos hfit]
  rfl

/-- The range is not empty. -/
theorem cutFits_of_lt (htx : TxPduOk tx) (hn : 4 < n) (hf32 : f < 2 ^ 32) (hsf : s < f) :
    CutFits n s f tx.buf.length (cutSegment tx.header n s f)
      ↔ SegmentFits tx.header.li tx.buf.length s f n := by
  obtain ⟨hsorted, hbs, -⟩ := htx.endsBehind_bounds s
  have hshape := cutSegment_shape htx.pos hsf hf32 hn
  have hneed : neededLis s f 0 tx.header.li = rangeLis f (endsBehind s tx.header.li) :=
    neededLis_eq hsf tx.header.li 0 htx.pos (by omega)
  have hge := (hshape.soEnd_bounds (Nat.le_of_lt hsf)).1
  unfold CutFits SegmentFits
  rw [sub32_of_le hge, sub32_of_le (Nat.le_of_lt hsf), hneed,
    length_le_iff (hshape.room fun b hb => (hbs b hb).1),
    overruns_iff hshape (.inl rfl) hsorted hbs]
  simp only [true_and, not_or]
  rfl

/-- A range that ends before its start is cut by the PDU only where `s` plus the room in the grant
stays below the wrap. -/
theorem TxPduOk.not_overrunsPdu (htx : TxPduOk tx) (hwrap : 2 ^ 32 ≤ s + (n - 4)) :
    ¬OverrunsPdu n s tx.buf.length (endsBehind s tx.header.li).length := by
  obtain ⟨-, -, hsize⟩ := htx.endsBehind_bounds s
  rintro ⟨hsN, -, hlen⟩
  have hle := liBytes_le (Nat.sub_le (endsBehind s tx.header.li).length 1)
  omega

/-- The range ends at its start or before, and the grant does not bound it. -/
theorem cutFits_of_room (htx : TxPduOk tx) (hn : 4 < n) (hn32 : n < 2 ^ 32) (hs32 : s < 2 ^ 32)
    (hf32 : f < 2 ^ 32) (hfs : f ≤ s) (hfit : sub32 f s ≤ n - 4) :
    CutFits n s f tx.buf.length (cutSegment tx.header n s f)
      ↔ SegmentFits tx.header.li tx.buf.length s f n := by
  obtain ⟨hend, hlen⟩ := buildSegmentLoop_behind hfs (Nat.le_of_lt hn) hfit
    tx.header.li 0 (headFi tx.header s)
  have hsub : s = f ∨ f < s ∧ sub32 f s = f + 2 ^ 32 - s := by
    unfold sub32
    split <;> omega
  have hcutPdu : ¬((tx.buf.length < f ∨ f < s) ∧
      OverrunsPdu n s tx.buf.length (endsBehind s tx.header.li).length) := by
    rintro ⟨hNf, hover⟩
    rcases hsub with rfl | ⟨hlt, hsub⟩
    · exact absurd hover.1 (by omega)
    · exact htx.not_overrunsPdu (by omega) hover
  unfold CutFits SegmentFits
  rw [cutSegment_of_room tx.header hn hfit, hend, hlen, if_pos (.inr rfl), and_iff_left hcutPdu]
  exact le_iff_not_overrunsRange (neededLis_le_one hfs tx.header.li 0) (by omega)

/-- The range ends before its start, and the grant bounds the segment, from `s` on upwards. -/
theorem cutFits_of_bounded (htx : TxPduOk tx) (hn : 4 < n) (hfs : f < s)
    (hfit : n - 4 < sub32 f s) (hwrap : s + (n - 4) < 2 ^ 32) :
    CutFits n s f tx.buf.length (cutSegment tx.header n s f)
      ↔ SegmentFits tx.header.li tx.buf.length s f n := by
  obtain ⟨hsorted, hbs, -⟩ := htx.endsBehind_bounds s
  -- It is cut as a segment of the range that the grant has room for.
  have hcut : cutSegment tx.header n s f = cutSegment tx.header n s (s + (n - 4)) := by
    have hself : sub32 (s + (n - 4)) s ≤ n - 4 := by
      rw [sub32_of_le (Nat.le_add_right ..)]
      omega
    rw [cutSegment_of_noRoom tx.header hn hfit, cutSegment_of_room tx.header hn hself,
      add32_of_lt hwrap]
  have hshape := cutSegment_shape htx.pos (show s < s + (n - 4) by omega) hwrap hn
  have hge := (hshape.soEnd_bounds (Nat.le_add_right ..)).1
  have hne : f ≠ s + (n - 4) := by omega
  have hrange : ¬OverrunsRange n (neededLis s f 0 tx.header.li) (sub32 f s) := by
    unfold OverrunsRange
    omega
  unfold CutFits SegmentFits
  rw [hcut, sub32_of_le hge, length_le_iff (hshape.room fun b hb => (hbs b hb).1),
    overruns_iff hshape (.inr ⟨hfs, rfl⟩) hsorted hbs]
  simp only [hne, false_and, false_or, hrange, not_false_eq_true, true_and]
  rfl

/-- The end that the grant gives wraps around, and lies before the start again: no length indicator
is kept. -/
theorem cutFits_of_wrap (htx : TxPduOk tx) (hn : 4 < n) (hn32 : n < 2 ^ 32) (hs32 : s < 2 ^ 32)
    (hf32 : f < 2 ^ 32) (hfit : n - 4 < sub32 f s) (hwrap : 2 ^ 32 ≤ s + (n - 4)) (hfs : f ≤ s) :
    CutFits n s f tx.buf.length (cutSegment tx.header n s f) ∧
      SegmentFits tx.header.li tx.buf.length s f n := by
  have hc : add32 s (n - 4) = s + (n - 4) - 2 ^ 32 := by
    unfold add32
    omega
  have hcf : add32 s (n - 4) < f := by
    unfold sub32 at hfit
    split at hfit <;> omega
  have hsub : sub32 (add32 s (n - 4)) s = n - 4 := by
    unfold sub32
    split <;> omega
  obtain ⟨hend, hlen⟩ := buildSegmentLoop_behind (c := add32 s (n - 4)) (by omega)
    (Nat.le_of_lt hn) (Nat.le_of_eq hsub) tx.header.li 0 (headFi tx.header s)
  have hone := neededLis_le_one (show add32 s (n - 4) ≤ s by omega) tx.header.li 0
  have hnone : add32 s (n - 4) = tx.buf.length →
      neededLis s (add32 s (n - 4)) 0 tx.header.li = 0 := by
    intro heq
    refine neededLis_eq_zero tx.header.li 0 fun b hb => ?_
    have := le_of_mem_pieceEnds hb
    have := htx.sum
    omega
  have hlast : (if add32 s (n - 4) = tx.buf.length ∨ add32 s (n - 4) = f then
      neededLis s (add32 s (n - 4)) 0 tx.header.li
      else neededLis s (add32 s (n - 4)) 0 tx.header.li - 1) = 0 := by
    split
    · rename_i hkeep
      exact hnone (hkeep.elim id fun h => by omega)
    · omega
  refine ⟨?_, ?_, fun hc => htx.not_overrunsPdu hwrap hc.2⟩
  · unfold CutFits
    rw [cutSegment_of_noRoom tx.header hn hfit, hend, hlen, hsub, hlast]
    show 4 + 0 + (n - 4) ≤ n
    omega
  · unfold OverrunsRange
    omega

end

/-- The size of the segment that `build_segment` writes for the range `[s, f)`. -/
theorem buildSegment_fits_iff {st : RlcAm} {tx : AmdTxPdu} {retx : AmdRetx}
    {rest : List AmdRetx} (htx : TxPduOk tx) (hn : 4 < n) (hn32 : n < 2 ^ 32)
    (hs32 : s < 2 ^ 32) (hf32 : f < 2 ^ 32)
    (hstart : (if retx.isSegment then retx.soStart else 0) = s)
    (hend : (if retx.isSegment then retx.soEnd else tx.buf.length) = f) (hg : retx.soEnd = f) :
    (pduBytes (buildSegment st n tx retx rest).2).length ≤ n
      ↔ SegmentFits tx.header.li tx.buf.length s f n := by
  rw [length_buildSegment hn hstart hend rfl, hg]
  by_cases hsf : s < f
  · exact cutFits_of_lt htx hn hf32 hsf
  have hfs : f ≤ s := Nat.le_of_not_lt hsf
  by_cases hfit : sub32 f s ≤ n - 4
  · exact cutFits_of_room htx hn hn32 hs32 hf32 hfs hfit
  have hfit : n - 4 < sub32 f s := Nat.lt_of_not_le hfit
  by_cases hwrap : s + (n - 4) < 2 ^ 32
  · have hlt : f < s := by
      unfold sub32 at hfit
      split at hfit <;> omega
    exact cutFits_of_bounded htx hn hlt hfit hwrap
  · obtain ⟨hcut, hsegment⟩ :=
      cutFits_of_wrap htx hn hn32 hs32 hf32 hfit (Nat.le_of_not_lt hwrap) hfs
    exact iff_of_true hcut hsegment

/-- A segment of an entry that is still whole fits. -/
theorem segmentFits_whole {tx : AmdTxPdu} (htx : TxPduOk tx)
    (hn : n < 2 + liBytes tx.header.li.length + tx.buf.length) (hN : 0 < tx.buf.length) :
    SegmentFits tx.header.li tx.buf.length 0 tx.buf.length n := by
  obtain ⟨hsorted, hbs, -⟩ := htx.endsBehind_bounds 0
  have hneed : neededLis 0 tx.buf.length 0 tx.header.li
      = rangeLis tx.buf.length (endsBehind 0 tx.header.li) :=
    neededLis_eq hN tx.header.li 0 htx.pos hN
  have hall : (endsBehind 0 tx.header.li).length = tx.header.li.length := by
    have hself : endsBehind 0 tx.header.li = pieceEnds 0 tx.header.li := by
      rw [endsBehind, List.filter_eq_self]
      intro b hb
      simpa using lt_of_mem_pieceEnds htx.pos hb
    rw [hself, length_pieceEnds]
  -- The range is the whole PDU, so it needs all length indicators.
  have hcount : tx.header.li.length ≤ rangeLis tx.buf.length (endsBehind 0 tx.header.li) := by
    rcases List.eq_nil_or_concat (endsBehind 0 tx.header.li) with hnil | ⟨xs, x, hxs⟩
    · rw [hnil, List.length_nil] at hall
      omega
    · rw [List.concat_eq_append] at hxs
      rw [hxs] at hsorted hbs
      have hlt := lt_rangeLis (f := tx.buf.length) hxs fun b hb => by
        have := (List.pairwise_append.mp hsorted).2.2 b hb x (by simp)
        have := hbs x (by simp)
        omega
      rw [hxs] at hlt hall
      rw [List.length_append, List.length_singleton] at hall
      rw [hxs]
      omega
  refine ⟨?_, fun h => by omega⟩
  rw [hneed, sub32_of_le (Nat.zero_le _)]
  unfold OverrunsRange
  unfold liBytes at *
  omega

end

/-! ### The PDUs and entries of reachable states -/

/-- The end offset stays a 32-bit value. -/
theorem shrinkSoEnd_lt (n s : Nat) (li : List Nat) {c : Nat} (hc : c < 2 ^ 32) :
    shrinkSoEnd n s li c < 2 ^ 32 := by
  unfold shrinkSoEnd add32
  simp only
  split
  · exact Nat.mod_lt _ (Nat.two_pow_pos 32)
  · exact hc

/-- The end of a segment is a `uint32_t`. -/
theorem soEnd_buildSegmentLoop_lt {n s : Nat} (lis : List Nat) (st : SegmentLoop)
    (h : st.soEnd < 2 ^ 32) : (buildSegmentLoop n s lis st).soEnd < 2 ^ 32 := by
  induction lis generalizing st with
  | nil => exact h
  | cons l lis ih =>
    rw [buildSegmentLoop]
    split
    · exact h
    · simp only
      split
      · exact ih _ (shrinkSoEnd_lt n s _ h)
      · exact ih _ (shrinkSoEnd_lt n s _ h)

/-- An entry of `retx_queue` for the PDUs in `w`. -/
structure RetxOk (w : Dict Nat AmdTxPdu) (retx : AmdRetx) : Prop where
  soStart : retx.soStart < 2 ^ 32
  soEnd : retx.soEnd < 2 ^ 32
  whole : ∀ tx, w retx.sn = some tx → retx.isSegment = false → retx.soEnd = tx.buf.length

/-- What the size of a PDU depends on: the PDUs in `tx_window` are as `build_data_pdu` built
them, and an entry that is still whole ends where its PDU ends. -/
structure RetxInv (st : RlcAm) : Prop where
  pdus : ∀ sn tx, st.txWindow sn = some tx → TxPduOk tx ∧ tx.header.rf = false
  entries : ∀ retx ∈ st.retxQueue, RetxOk st.txWindow retx

section
variable {L : SrslteBit} {st st' : RlcAm} {w w' : Dict Nat AmdTxPdu}

/-- An entry is good for more PDUs when it is good for fewer. -/
theorem RetxOk.of_subWindow {retx : AmdRetx} (h : RetxOk w retx) (hw : SubWindow w w') :
    RetxOk w' retx where
  soStart := h.soStart
  soEnd := h.soEnd
  whole tx' htx' hseg := by
    obtain ⟨tx, htx, -, hbuf⟩ := hw retx.sn tx' htx'
    rw [hbuf]
    exact h.whole tx htx hseg

/-- A step that adds no PDU to the window keeps the invariant, when the entries it adds are
right. -/
theorem RetxInv.of_subWindow (h : RetxInv st) (hw : SubWindow st.txWindow st'.txWindow)
    (hq : ∀ retx ∈ st'.retxQueue, retx ∈ st.retxQueue ∨ RetxOk st.txWindow retx) :
    RetxInv st' where
  pdus sn tx' htx' := by
    obtain ⟨tx, htx, hheader, hbuf⟩ := hw sn tx' htx'
    obtain ⟨hok, hrf⟩ := h.pdus sn tx htx
    refine ⟨{ pos := ?_, sum := ?_, size := ?_ }, ?_⟩
    · rw [hheader]; exact hok.pos
    · rw [hheader, hbuf]; exact hok.sum
    · rw [hheader, hbuf]; exact hok.size
    · rw [hheader]; exact hrf
  entries retx hretx := by
    rcases hq retx hretx with hmem | hok
    · exact (h.entries retx hmem).of_subWindow hw
    · exact hok.of_subWindow hw

/-- The invariant holds of an entity with no PDU and no entry. -/
theorem retxInv_empty (hw : st.txWindow = Dict.empty) (hq : st.retxQueue = []) : RetxInv st where
  pdus sn tx htx := by
    rw [hw] at htx
    cases htx
  entries retx hretx := by
    rw [hq] at hretx
    cases hretx

/-- It depends on the transmit half only. -/
theorem RetxInv.of_txSame (h : RetxInv st) (hs : TxSame st st') : RetxInv st' := by
  refine h.of_subWindow ?_ ?_
  · rw [hs.txWindow]
    exact .refl _
  · rw [hs.retxQueue]
    exact fun _ => .inl

/-! ### Status PDUs -/

/-- A NACK whose offsets were read keeps it. -/
theorem queueNack_retxInv (i : Nat) {nack : StatusNack} (hoff : OffsetsRead nack)
    (h : RetxInv st) : RetxInv (queueNack i st nack) := by
  unfold queueNack
  split
  · split
    · rename_i tx htx
      split
      · exact h
      · have hbuf : tx.buf.length < 2 ^ 32 := by
          have := (h.pdus i tx htx).1.size
          omega
        -- A NACK of a segment gives the offsets that were read, any other one the whole PDU.
        have hok : RetxOk st.txWindow (retxOfNack i tx nack) := by
          obtain ⟨hstart, hend⟩ := hoff
          unfold retxOfNack
          split
          · refine { soStart := ?_, soEnd := ?_, whole := fun _ _ hseg => by cases hseg }
            · show nack.soStart < 2 ^ 32
              omega
            · show (if nack.soEnd = 0x7FFF then tx.buf.length else nack.soEnd + 1) < 2 ^ 32
              split <;> omega
          · refine { soStart := Nat.two_pow_pos 32, soEnd := hbuf, whole := ?_ }
            intro tx' htx' _
            rw [Option.some.inj (htx.symm.trans htx')]
        refine h.of_subWindow (.refl _) fun retx hretx => ?_
        rcases List.mem_append.mp hretx with hmem | hmem
        · exact .inl hmem
        · rw [List.mem_singleton.mp hmem]
          exact .inr hok
    · exact h
  · exact h

/-- An ACK keeps it. -/
theorem ackPdu_retxInv (i : Nat) (updateVtA : Bool) (h : RetxInv st) :
    RetxInv (ackPdu i updateVtA st) := by
  obtain ⟨_, _, _, hf⟩ := ackPdu_frame i updateVtA st
  refine h.of_subWindow (ackPdu_subWindow i updateVtA st) ?_
  rw [hf]
  exact fun _ => .inl

/-- So does a status report. -/
theorem handleStatus_retxInv {status : StatusPdu} (hoff : ∀ n ∈ status.nacks, OffsetsRead n)
    (h : RetxInv st) : RetxInv (handleStatus st status) := by
  refine handleAcks_inv (fun i _ n hn h => queueNack_retxInv i (hoff n hn) h)
    (fun i upd _ h => ackPdu_retxInv i upd h) 1024 st.vtA true ?_
  exact h.of_subWindow (.refl _) fun _ => .inl

/-! ### Transmissions -/

/-- `build_segment` pops the front entry, keeps it, or moves its start. -/
theorem buildSegment_queue {n : Nat} {tx : AmdTxPdu} {retx : AmdRetx} {rest : List AmdRetx}
    (hend : retx.soEnd < 2 ^ 32) (hbuf : tx.buf.length < 2 ^ 32)
    (hst : st.retxQueue = retx :: rest) :
    ∀ r ∈ (buildSegment st n tx retx rest).1.retxQueue, r ∈ retx :: rest ∨
      ∃ e, e < 2 ^ 32 ∧ r = { retx with isSegment := true, soStart := e } := by
  have hlt : ∀ s c, c < 2 ^ 32 → (cutSegment tx.header n s c).soEnd < 2 ^ 32 :=
    fun s c hc => soEnd_buildSegmentLoop_lt _ _ (shrinkSoEnd_lt n s [] hc)
  have hrange : (if retx.isSegment then retx.soEnd else tx.buf.length) < 2 ^ 32 := by
    split
    · exact hend
    · exact hbuf
  intro r hr
  unfold buildSegment at hr
  simp only at hr
  -- Only the bound on the end of the range matters for the cut.
  generalize (if retx.isSegment then retx.soStart else 0) = s at hr
  generalize (if retx.isSegment then retx.soEnd else tx.buf.length) = c at hr hrange
  split at hr
  · rw [hst] at hr
    exact .inl hr
  · split at hr
    · exact .inl (List.mem_cons_of_mem _ hr)
    · split at hr
      · exact .inl (List.mem_cons_of_mem _ hr)
      · rcases List.mem_cons.mp hr with rfl | hr
        · exact .inr ⟨_, hlt _ _ hrange, rfl⟩
        · exact .inl (List.mem_cons_of_mem _ hr)

/-- So does `read_pdu`: a segment leaves an entry that is partial. -/
theorem readPdu_retxInv {now n : Nat} {out : Bytes} (h : RetxInv st) (hn : n < 2 ^ 32)
    (hread : readPdu L st now n = some (st', out)) : RetxInv st' := by
  rcases readPdu_cases hread with
    ⟨-, rfl, -⟩ | ⟨-, -, retx, tx, rest, ⟨hlive, htx⟩, hst⟩ | ⟨-, hq, rfl, -⟩
  · exact h.of_txSame (buildStatusPdu_txSame L st now n)
  · have hmem := mem_of_liveRetx hlive
    have hentry := h.entries retx (hmem retx (List.mem_cons_self ..))
    rcases hst with ⟨-, rfl, -⟩ | ⟨-, -, rfl, -⟩
    -- A segment moves the start of its own entry.
    · have hbuf : tx.buf.length < 2 ^ 32 := by
        have := (h.pdus retx.sn tx htx).1.size
        omega
      have hqueue := @buildSegment_queue { st with retxQueue := retx :: rest } n tx retx rest
        hentry.soEnd hbuf rfl
      obtain ⟨q, hf⟩ := buildSegment_frame { st with retxQueue := retx :: rest } n tx retx rest
      refine h.of_subWindow ?_ fun r hr => ?_
      · rw [hf]
        exact .refl _
      · rcases hqueue r hr with hr | ⟨e, he, rfl⟩
        · exact .inl (hmem r hr)
        · exact .inr { soStart := he, soEnd := hentry.soEnd, whole := fun _ _ hs => by cases hs }
    · obtain ⟨_, _, _, _, _, hf⟩ :=
        retransmitPdu_frame { st with retxQueue := retx :: rest } now tx retx rest
      rw [hf]
      exact h.of_subWindow (.insert htx rfl rfl)
        fun r hr => .inl (hmem r (List.mem_cons_of_mem _ hr))
  · cases hpdu : (buildDataPdu st now n).2 with
    | none =>
      rw [buildDataPdu_none hpdu]
      exact h
    | some pdu =>
      obtain ⟨_, _, _, _, hf⟩ := buildDataPdu_frame hpdu
      obtain ⟨-, hn2, -, hrf, -, -, -, -, hli, hdata⟩ :=
        buildDataPdu_pdu hpdu
      -- A new PDU joins the window with the header and the data that `fillPdu` makes.
      have hfits := fillPdu_fits st.txSdu st.txSduQueue hn2
      have hsize := hfits.fits
      rw [hf]
      refine { pdus := ?_, entries := ?_ }
      · intro sn tx' htx'
        change st.txWindow.insert st.vtS { header := pdu.1, buf := pdu.2 } sn = some tx' at htx'
        rw [Dict.insert_apply] at htx'
        split at htx'
        · obtain rfl := Option.some.inj htx'
          refine ⟨{ pos := ?_, sum := ?_, size := ?_ }, hrf⟩
          · show ∀ l ∈ pdu.1.li, 0 < l
            rw [hli]
            exact hfits.pos
          · show pdu.1.li.sum ≤ pdu.2.length
            rw [hli, hdata]
            exact hfits.sum
          · show liBytes pdu.1.li.length + pdu.2.length < 2 ^ 32
            rw [hli, hdata]
            rw [amPackedLength_data] at hsize
            unfold liBytes
            omega
        · exact h.pdus sn tx' htx'
      · intro r hr
        change r ∈ st.retxQueue at hr
        rw [hq] at hr
        cases hr

/-- A call whose grant is a `uint32_t`. -/
def GrantInRange : AmCall → Prop
  | .readPdu _ n => n < 2 ^ 32
  | _ => True

/-- So does every call. -/
theorem amStep_retxInv {c : AmCall} (h : RetxInv st) (hc : GrantInRange c)
    (hstep : amStep L st c = some st') : RetxInv st' := by
  cases amStep_txStep hstep with
  | writeSdu => exact h.of_subWindow (.refl _) fun _ => .inl
  | readPdu hread => exact readPdu_retxInv h hc hread
  | status _ hread => exact handleStatus_retxInv (readStatusPdu_offsets L hread) h
  | receive _ _ hsame => exact h.of_txSame hsame
  | reset => exact retxInv_empty rfl rfl

/-- It holds in every run. Induction on the calls. -/
theorem runTo_retxInv (cnfg : AmConfig) {calls : List AmCall} (hc : ∀ c ∈ calls, GrantInRange c)
    (hrun : runTo (amStep L) (configure {} cnfg) calls = some st) : RetxInv st := by
  exact runTo_inv (I := RetxInv) (fun _ _ _ h hc hstep => amStep_retxInv h hc hstep) hc
    (retxInv_empty rfl rfl) hrun

/-! ### The grant -/

/-- The states and grants in which `read_pdu` keeps to its grant: a status PDU is due, nothing
is to be retransmitted, or the first entry whose PDU is still in `tx_window` exists and, if it
is partial, its next segment fits. -/
def FitsGrant (st : RlcAm) (now n : Nat) : Prop :=
  (st.doStatus && !statusProhibited st now) = true ∨ st.retxQueue = [] ∨
    ∃ retx tx rest, LiveEntry st retx tx rest ∧
      (retx.isSegment = true → 4 < n →
        SegmentFits tx.header.li tx.buf.length retx.soStart retx.soEnd n)

/-- `read_pdu` returns, and writes at most the bytes granted. -/
def KeepsGrant (L : SrslteBit) (st : RlcAm) (now n : Nat) : Prop :=
  ∃ st' out, readPdu L st now n = some (st', out) ∧ out.length ≤ n

/-- A status PDU is kept when it fits the grant only. -/
theorem length_buildStatusPdu_le (L : SrslteBit) (st : RlcAm) (now n : Nat) :
    (buildStatusPdu L st now n).2.length ≤ n := by
  unfold buildStatusPdu
  split
  · rename_i hle
    show (writeStatusPdu L st.status).length ≤ n
    rw [length_writeStatusPdu]
    exact hle
  · exact Nat.zero_le n

/-- A new PDU fits the grant. -/
theorem length_buildDataPdu_le (st : RlcAm) (now n : Nat) :
    (pduBytes (buildDataPdu st now n).2).length ≤ n := by
  cases hpdu : (buildDataPdu st now n).2 with
  | none => exact Nat.zero_le n
  | some pdu =>
    obtain ⟨-, hn, -, hrf, -, -, -, -, hli, hdata⟩ :=
      buildDataPdu_pdu hpdu
    have hfits := (fillPdu_fits st.txSdu st.txSduQueue hn).fits
    rw [amPackedLength_data] at hfits
    rw [pduBytes, List.length_append, length_writeDataPduHeader, amPackedLength, hrf, hli, hdata]
    simp only [Bool.false_eq_true, if_false]
    omega

/-- A retransmission in one piece has the header and all of the data. -/
theorem length_retransmitPdu (st : RlcAm) (now : Nat) (tx : AmdTxPdu) (retx : AmdRetx)
    (rest : List AmdRetx) :
    (retransmitPdu st now tx retx rest).2.length = amPackedLength tx.header + tx.buf.length := by
  simp only [retransmitPdu, List.length_append, length_writeDataPduHeader]
  rfl

/-- The segment of an entry of a reachable state fits exactly under the condition on partial
entries. -/
theorem length_buildSegment_le_iff {n : Nat} {tx : AmdTxPdu} {retx : AmdRetx}
    {rest : List AmdRetx} (htx : TxPduOk tx) (hrf : tx.header.rf = false) (hn : n < 2 ^ 32)
    (hretx : RetxOk st.txWindow retx) (hsn : st.txWindow retx.sn = some tx)
    (hseg : retx.isSegment = true ∨ n < requiredBufferSize tx retx) (st₀ : RlcAm) :
    (pduBytes (buildSegment st₀ n tx retx rest).2).length ≤ n
      ↔ (retx.isSegment = true → 4 < n →
        SegmentFits tx.header.li tx.buf.length retx.soStart retx.soEnd n) := by
  by_cases h4 : 4 < n
  · cases hs : retx.isSegment with
    | true =>
      rw [buildSegment_fits_iff htx h4 hn hretx.soStart hretx.soEnd (by rw [hs]; rfl)
        (by rw [hs]; rfl) rfl]
      exact ⟨fun h _ _ => h, fun h => h rfl h4⟩
    | false =>
      have hend := hretx.whole tx hsn hs
      have hbuf := htx.size
      have hlt : n < 2 + liBytes tx.header.li.length + tx.buf.length := by
        rcases hseg with h | h
        · rw [hs] at h
          cases h
        · rw [requiredBufferSize, hs] at h
          simp only [Bool.not_false, if_true, amPackedLength, hrf, Bool.false_eq_true,
            if_false] at h
          exact h
      have hpos : 0 < tx.buf.length := by
        -- Without data there are no length indicators either.
        by_contra h0
        have hsum := htx.sum
        have hnil : tx.header.li = [] := by
          cases hli : tx.header.li with
          | nil => rfl
          | cons l lis =>
            have := htx.pos l (by rw [hli]; simp)
            rw [hli, List.sum_cons] at hsum
            omega
        rw [hnil] at hlt
        simp only [liBytes, List.length_nil] at hlt
        omega
      refine ⟨fun _ h => absurd h Bool.false_ne_true, fun _ => ?_⟩
      rw [buildSegment_fits_iff htx h4 hn (Nat.two_pow_pos 32) (by omega) (by rw [hs]; rfl)
        (by rw [hs]; rfl) hend]
      exact segmentFits_whole htx hlt hpos
  · have hnone : (buildSegment st₀ n tx retx rest).2 = none := by
      have hle : n ≤ amPackedLength { rf := true } := by
        simp [amPackedLength]
        omega
      unfold buildSegment
      simp only [if_pos hle]
    rw [hnone]
    exact ⟨fun _ _ h => absurd h h4, fun _ => Nat.zero_le n⟩

/-- When `read_pdu` returns, the bytes it writes decide. -/
theorem keepsGrant_iff {now n : Nat} {out : RlcAm × Bytes}
    (hread : readPdu L st now n = some out) : KeepsGrant L st now n ↔ out.2.length ≤ n := by
  constructor
  · rintro ⟨st', out', hread', hle⟩
    obtain rfl := Option.some.inj (hread.symm.trans hread')
    exact hle
  · exact fun hle => ⟨out.1, out.2, hread, hle⟩

/-- When it does not return, the grant is not kept. -/
theorem not_keepsGrant {now n : Nat} (hread : readPdu L st now n = none) :
    ¬KeepsGrant L st now n := by
  rintro ⟨st', out, h, -⟩
  rw [hread] at h
  cases h

/-- `build_retx_pdu` keeps to the grant on a whole entry. A partial one is cut into a segment. -/
theorem RetxInv.buildRetxPdu_fits_iff {retx : AmdRetx} {tx : AmdTxPdu} {rest : List AmdRetx}
    (hinv : RetxInv st) (hlive : LiveEntry st retx tx rest) (now : Nat) {n : Nat}
    (hn : n < 2 ^ 32) :
    ∃ out, buildRetxPdu st now n = some out ∧
      (out.2.length ≤ n ↔ (retx.isSegment = true → 4 < n →
        SegmentFits tx.header.li tx.buf.length retx.soStart retx.soEnd n)) := by
  obtain ⟨hok, hrf⟩ := hinv.pdus retx.sn tx hlive.2
  have hretx := hinv.entries retx (mem_of_liveRetx hlive.1 retx (List.mem_cons_self ..))
  refine ⟨_, buildRetxPdu_live hlive now n, ?_⟩
  by_cases hseg : (retx.isSegment || decide (n < requiredBufferSize tx retx)) = true
  · rw [if_pos hseg]
    refine length_buildSegment_le_iff hok hrf hn hretx hlive.2 ?_ _
    simpa using hseg
  · rw [if_neg hseg, length_retransmitPdu]
    simp only [Bool.or_eq_true, decide_eq_true_eq, not_or, Bool.not_eq_true,
      Nat.not_lt] at hseg
    obtain ⟨hwhole, hle⟩ := hseg
    rw [requiredBufferSize, hwhole] at hle
    exact iff_of_true hle fun h => absurd (hwhole.symm.trans h) Bool.false_ne_true

/-- In every reachable state and for every grant, `read_pdu` keeps to the grant exactly under
`FitsGrant`. -/
theorem readPdu_fits_iff (L : SrslteBit) (cnfg : AmConfig) (calls : List AmCall)
    (hc : ∀ c ∈ calls, GrantInRange c) (st : RlcAm)
    (hrun : runTo (amStep L) (configure {} cnfg) calls = some st) (now n : Nat)
    (hn : n < 2 ^ 32) : KeepsGrant L st now n ↔ FitsGrant st now n := by
  have hinv := runTo_retxInv cnfg hc hrun
  by_cases hdue : (st.doStatus && !statusProhibited st now) = true
  · rw [keepsGrant_iff (by rw [readPdu, if_pos hdue])]
    exact ⟨fun _ => .inl hdue, fun _ => length_buildStatusPdu_le L st now n⟩
  by_cases hq : st.retxQueue = []
  · rw [keepsGrant_iff (by rw [readPdu, if_neg hdue, hq, if_neg (by simp)])]
    exact ⟨fun _ => .inr (.inl hq), fun _ => length_buildDataPdu_le st now n⟩
  have hread : readPdu L st now n = buildRetxPdu st now n := by
    rw [readPdu, if_neg hdue, if_pos (List.length_pos_iff.mpr hq)]
  rw [FitsGrant, or_iff_right hdue, or_iff_right hq]
  by_cases hlive : ∃ retx tx rest, LiveEntry st retx tx rest
  · obtain ⟨retx, tx, rest, hlive⟩ := hlive
    obtain ⟨out, hout, hfits⟩ := hinv.buildRetxPdu_fits_iff hlive now hn
    rw [keepsGrant_iff (hread.trans hout), hfits]
    constructor
    · exact fun h => ⟨retx, tx, rest, hlive, h⟩
    · rintro ⟨retx', tx', rest', hlive', h⟩
      obtain ⟨rfl, rfl, rfl⟩ := hlive.unique hlive'
      exact h
  · -- Without a live entry the source takes the front of an empty queue.
    have hno := fun retx tx rest h => hlive ⟨retx, tx, rest, h⟩
    refine iff_of_false (not_keepsGrant (hread.trans (buildRetxPdu_eq_none hno now n))) ?_
    rintro ⟨retx, tx, rest, h, -⟩
    exact hno retx tx rest h

end

/-! ### A PDU with two SDUs of which one byte was sent again -/

/-- Two SDUs are sent in one PDU, the PDU is NACKed, and its first byte is sent again. -/
def oneByteResent : List AmCall :=
  [.writeSdu [1, 2], .writeSdu [3, 4], .readPdu 0 8, .writePdu 0 [0, 6, 0, 0], .readPdu 0 5]

/-- A grant of 9 bytes holds the rest of the PDU and its header. -/
theorem readPdu_fits_rest :
    ∃ st, runTo (amStep msbFirst) (configure {} {}) oneByteResent = some st ∧
      KeepsGrant msbFirst st 0 9 := by
  have hrun : (runTo (amStep msbFirst) (configure {} {}) oneByteResent).map
        (fun st => (liveRetx st, st.txWindow 0))
      = some ([{ sn := 0, isSegment := true, soStart := 1, soEnd := 4 }],
          some { header := { dc := .dataPdu, li := [2] }, buf := [1, 2, 3, 4] }) := by
    decide +kernel
  obtain ⟨st, hst, heq⟩ := Option.map_eq_some_iff.mp hrun
  obtain ⟨hlive, htx⟩ := Prod.mk.inj heq
  have hc : ∀ c ∈ oneByteResent, GrantInRange c := by
    simp [oneByteResent, GrantInRange]
  refine ⟨st, hst, (readPdu_fits_iff msbFirst {} oneByteResent hc st hst 0 9 (by decide)).mpr ?_⟩
  refine .inr (.inr ⟨_, _, _, ⟨hlive, htx⟩, fun _ _ => ⟨?_, ?_⟩⟩)
  · rintro ⟨-, -, h⟩
    exact absurd h (by decide)
  · rintro ⟨h, -⟩
    exact absurd h (by decide)

/-- In a grant of 7 bytes the rest of the PDU goes out with 9 bytes. -/
theorem readPdu_overrun :
    ∃ st, runTo (amStep msbFirst) (configure {} {}) oneByteResent = some st ∧
      ¬KeepsGrant msbFirst st 0 7 := by
  have hrun : (runTo (amStep msbFirst) (configure {} {}) oneByteResent).map
        (fun st => (readPdu msbFirst st 0 7).map (·.2.length)) = some (some 9) := by
    decide +kernel
  obtain ⟨st, hst, heq⟩ := Option.map_eq_some_iff.mp hrun
  refine ⟨st, hst, ?_⟩
  rintro ⟨st', out, hread, hle⟩
  rw [hread] at heq
  have hlen : out.length = 9 := Option.some.inj heq
  omega

end SrsUE.Proofs.Rlc
