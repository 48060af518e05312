import SrsUE.Lib.Run
import SrsUE.Proofs.Rlc.AmCutSegment
import SrsUE.Proofs.Rlc.AmFill
import SrsUE.Proofs.Rlc.AmSegmentSpec
import SrsUE.Proofs.Rlc.AmStatusPdu
import SrsUE.Proofs.Rlc.AmSteps

/-!
# `SrsUE.Proofs.Rlc.AmResegment`: the segments `build_segment` sends

A PDU whose entry heads `retx_queue` is sent in segments when a grant does not hold it. The
segments are compared with those of `AmSegmentSpec`.

`build_segment` does not always send the right ones. It takes the last length indicator of a
segment back unless the segment ends the PDU, whether or not the piece is cut there, it misses
that a segment starts with the last SDU of the PDU, and it misses an SDU end that it moves the
end of the segment to. `GoodCut` is the condition on the grant that keeps clear of these.

* `cutRight_iff`: one segment is right exactly when the grant is a `GoodCut`.
* `resegment_iff`: the segments for a sequence of grants cover the PDU one after the other,
  each under the right header, exactly when every grant is a `GoodCut` at its time.
-/

set_option autoImplicit false

namespace SrsUE.Proofs.Rlc

open SrsUE.Lib
open SrsUE.Rlc

/-! ### One segment -/

/-- The positions behind byte `s` at which SDU pieces end. -/
def AmdPdu.endsAfter (P : AmdPdu) (s : Nat) : List Nat := P.ends.filter (s < ·)

section
variable {P : AmdPdu} {s n : Nat}

/-- The length indicators `build_segment` leaves in the header. -/
def sentLi (P : AmdPdu) (r : SegmentLoop) : List Nat :=
  if P.data.length = r.soEnd then r.li else r.li.dropLast

/-- The framing bits `build_segment` leaves in the header. -/
def sentFi (P : AmdPdu) (r : SegmentLoop) : FiField :=
  if P.data.length = r.soEnd ∧ endAligned P.header.fi then r.fi &&& fiNotStartAligned else r.fi

/-- The grant in which the length indicator for the SDU that ends at `x` moves the end of the
segment back to `x`, or, if that SDU has only one byte here, to its start. The ends of the SDUs
before are `xs`. -/
def BadShrink (s n : Nat) (xs : List Nat) (x : Nat) : Prop :=
  n = 4 + liBytes (xs.length + 1) + (x - s) ∨
    x = xs.getLastD s + 1 ∧ xs.length % 2 = 0 ∧
      n = 4 + liBytes (xs.length + 1) + (xs.getLastD s - s)

/-- The grants in which `build_segment` cuts the right segment from byte `s` on:

* byte `s` is not the first one of the last SDU, when this is not the first SDU of the PDU;
* the grant does not end the segment inside the last SDU, behind a header with the length
  indicators of all the SDUs before;
* no length indicator moves the end of the segment back to an SDU end. -/
structure GoodCut (P : AmdPdu) (s n : Nat) : Prop where
  start : ¬(s ∈ P.ends ∧ P.endsAfter s = [])
  inLast : ∀ xs x, P.endsAfter s = xs ++ [x] →
    ¬(4 + liBytes xs.length + (x - s) < n ∧ n < 4 + liBytes xs.length + (P.data.length - s))
  shrunk : ∀ xs x z zs, P.endsAfter s = xs ++ x :: z :: zs → ¬BadShrink s n xs x

/-- How the segment from byte `s` on is cut. -/
theorem AmdPdu.cutShape (P : AmdPdu) (hs : s < P.data.length) (hn : 4 < n) :
    CutShape n s P.data.length (P.endsAfter s) (pieceFi s 0 P.ends (headFi P.header s))
      (cutSegment P.header n s P.data.length) :=
  cutSegment_shape P.pos hs (Nat.lt_trans P.size (by decide)) hn

end

/-! ### A run of grants -/

/-- The entry at the front of a `retx_queue` with `k` entries is for the PDU `P`, and the
bytes of `P` from `s` on are still to send. -/
structure EntryAt (P : AmdPdu) (k : Nat) (st : RlcAm) (s : Nat) : Prop where
  length : st.retxQueue.length = k
  lt : s < P.data.length
  entry : ∃ retx rest tx, st.retxQueue = retx :: rest ∧ st.txWindow retx.sn = some tx ∧
    tx.header = P.header ∧ tx.buf = P.data ∧ retx.soEnd = P.data.length ∧
    (retx.isSegment = false ∧ s = 0 ∨ retx.isSegment = true ∧ retx.soStart = s)

/-- The segment that `read_pdu` sends for the front of `retx_queue`. There is none when a
status PDU is due or the grant holds the whole PDU. -/
def sentSegment (st : RlcAm) (now n : Nat) : Option AmdRxPdu :=
  if st.doStatus && !statusProhibited st now then none
  else
    match st.retxQueue with
    | [] => none
    | retx :: rest =>
      match st.txWindow retx.sn with
      | none => none
      | some tx =>
        if retx.isSegment || decide (n < requiredBufferSize tx retx) then
          (buildSegment st n tx retx rest).2.map fun pdu => { header := pdu.1, buf := pdu.2 }
        else none

section
variable (L : SrslteBit)

end

/-- The condition on one grant, in the state before it: a status PDU is due, the whole PDU
fits, or the grant is good for the bytes still to send. -/
def GrantGood (P : AmdPdu) (st : RlcAm) (g : Nat × Nat) : Prop :=
  (st.doStatus && !statusProhibited st g.1) = true ∨
    ∃ retx rest, st.retxQueue = retx :: rest ∧
      (retx.isSegment = false ∧ amPackedLength P.header + P.data.length ≤ g.2 ∨
        GoodCut P (if retx.isSegment then retx.soStart else 0) g.2)

section
variable {L : SrslteBit} {P : AmdPdu} {k : Nat} {st : RlcAm} {s now n : Nat}

/-- The segment that `build_segment` sends from byte `s` on. -/
def cutPdu (P : AmdPdu) (s n : Nat) : AmdRxPdu :=
  let r := cutSegment P.header n s P.data.length
  { header :=
      { dc := .dataPdu, rf := true, fi := sentFi P r, sn := P.header.sn
        lsf := decide (r.soEnd = P.data.length), so := s, li := sentLi P r }
    buf := copyBytes P.data s (r.soEnd - s) }

/-- `build_segment` on the front entry. -/
theorem buildSegment_entry {tx : AmdTxPdu} {retx : AmdRetx} (st : RlcAm) (rest : List AmdRetx)
    (hs : s < P.data.length) (hn : 4 < n)
    (hheader : tx.header = P.header) (hbuf : tx.buf = P.data)
    (hend : retx.soEnd = P.data.length)
    (hstart : (if retx.isSegment then retx.soStart else 0) = s) :
    buildSegment st n tx retx rest
      = ({ st with
            retxQueue :=
              if (cutSegment P.header n s P.data.length).soEnd = P.data.length then rest
              else { retx with
                isSegment := true
                soStart := (cutSegment P.header n s P.data.length).soEnd } :: rest },
          some ((cutPdu P s n).header, (cutPdu P s n).buf)) := by
  have hsoEnd : (if retx.isSegment then retx.soEnd else P.data.length) = P.data.length := by
    rw [hend, ite_self]
  have hlen : ¬n ≤ amPackedLength { rf := true } := by
    simp [amPackedLength]
    omega
  obtain ⟨hge, hle⟩ := (P.cutShape hs hn).soEnd_bounds (Nat.le_of_lt hs)
  unfold buildSegment cutPdu sentLi sentFi
  simp only [hstart, hsoEnd, hlen, if_false, hheader, hbuf, sub32_of_le hge]
  generalize cutSegment P.header n s P.data.length = r at hge hle
  -- The entry reaches to the end of the PDU, so ending the range and ending the PDU are one.
  by_cases he : P.data.length = r.soEnd
  · simp [he.symm]
  · have he' : ¬r.soEnd = P.data.length := Ne.symm he
    simp only [he, he', hend, if_false, false_and, decide_false]

/-- What a grant does while the entry is at the front: a status PDU goes first, the PDU is
sent whole, or a segment is sent and the entry moves on. -/
inductive GrantOutcome (P : AmdPdu) (k : Nat) (st : RlcAm) (s now n : Nat) (st' : RlcAm)
    (out : Bytes) : Prop where
  | status (due : (st.doStatus && !statusProhibited st now) = true)
      (sent : sentSegment st now n = none) (entry : EntryAt P k st' s)
  | whole (sent : sentSegment st now n = none) (start : s = 0)
      (popped : st'.retxQueue.length + 1 = k) (good : GrantGood P st (now, n))
  | segment (sent : sentSegment st now n = some (cutPdu P s n))
      (out : out = pduBytes (some ((cutPdu P s n).header, (cutPdu P s n).buf)))
      (good : GrantGood P st (now, n) ↔ GoodCut P s n)
      (entry : (cutSegment P.header n s P.data.length).soEnd = P.data.length ∧
          st'.retxQueue.length + 1 = k ∨
        (cutSegment P.header n s P.data.length).soEnd < P.data.length ∧
          EntryAt P k st' (cutSegment P.header n s P.data.length).soEnd)

/-- What `read_pdu` does with the front entry when no status PDU is due. -/
theorem readPdu_front (L : SrslteBit) {retx : AmdRetx} {tx : AmdTxPdu} {rest : List AmdRetx}
    (hq : st.retxQueue = retx :: rest) (htx : st.txWindow retx.sn = some tx) {now : Nat}
    (hdue : ¬(st.doStatus && !statusProhibited st now) = true) (n : Nat) :
    readPdu L st now n = some
      (if retx.isSegment || decide (n < requiredBufferSize tx retx) then
        ((buildSegment st n tx retx rest).1, pduBytes (buildSegment st n tx retx rest).2)
      else retransmitPdu st now tx retx rest) ∧
    sentSegment st now n =
      if retx.isSegment || decide (n < requiredBufferSize tx retx) then
        (buildSegment st n tx retx rest).2.map fun pdu => { header := pdu.1, buf := pdu.2 }
      else none := by
  have hpos : 0 < st.retxQueue.length := by rw [hq]; simp
  have hself : { st with retxQueue := retx :: rest } = st := by rw [← hq]
  constructor
  · rw [readPdu, if_neg hdue, if_pos hpos, buildRetxPdu_live (liveEntry_front hq htx), hself]
  · rw [sentSegment, if_neg hdue, hq]
    simp only [htx]

namespace EntryAt

/-- A status PDU goes first, and leaves the entry as it is. -/
theorem readPdu_status (L : SrslteBit) (h : EntryAt P k st s) {now : Nat}
    (hdue : (st.doStatus && !statusProhibited st now) = true) (n : Nat) :
    ∃ st' out, Rlc.readPdu L st now n = some (st', out) ∧
      GrantOutcome P k st s now n st' out := by
  refine ⟨_, _, by rw [Rlc.readPdu, if_pos hdue], .status hdue ?_ ?_⟩
  · rw [sentSegment, if_pos hdue]
  · have htxSame := buildStatusPdu_txSame L st now n
    exact { length := by rw [htxSame.retxQueue]; exact h.length, lt := h.lt
            entry := by rw [htxSame.retxQueue, htxSame.txWindow]; exact h.entry }

/-- What `read_pdu` does for the entry at the front, in each of the three cases. -/
theorem readPdu (L : SrslteBit) (h : EntryAt P k st s)
    (hn : 4 < n) (now : Nat) :
    ∃ st' out, SrsUE.Rlc.readPdu L st now n = some (st', out) ∧
      GrantOutcome P k st s now n st' out := by
  -- A status report that is due goes first.
  by_cases hdue : (st.doStatus && !statusProhibited st now) = true
  · exact h.readPdu_status L hdue n
  obtain ⟨retx, rest, tx, hq, htx, hheader, hbuf, hend, hstart⟩ := h.entry
  obtain ⟨hread, hsent⟩ := readPdu_front L hq htx hdue n
  have hk : rest.length + 1 = k := by
    rw [← h.length, hq, List.length_cons]
  have hwhole : retx.isSegment = false →
      requiredBufferSize tx retx = amPackedLength P.header + P.data.length := by
    intro hseg
    simp [requiredBufferSize, hseg, hheader, hbuf]
  have hs : (if retx.isSegment then retx.soStart else 0) = s := by
    rcases hstart with ⟨h1, h2⟩ | ⟨h1, h2⟩
    · rw [h1, h2]
      rfl
    · rw [h1, h2]
      rfl
  -- A segment, or a PDU the grant does not hold, is cut; anything else is sent whole.
  by_cases hfit : (retx.isSegment || decide (n < requiredBufferSize tx retx)) = true
  · rw [if_pos hfit, buildSegment_entry st rest h.lt hn hheader hbuf hend hs] at hread hsent
    refine ⟨_, _, hread, .segment hsent rfl ?_ ?_⟩
    · constructor
      · rintro (hc | ⟨retx', rest', hq', hc⟩)
        · exact absurd hc hdue
        · obtain ⟨rfl, rfl⟩ := List.cons.inj (hq.symm.trans hq')
          rcases hc with ⟨hseg, hle⟩ | hc
          · rw [hseg, hwhole hseg] at hfit
            simp only [Bool.false_or, decide_eq_true_eq] at hfit
            exact absurd hfit (Nat.not_lt.mpr hle)
          · rw [hs] at hc
            exact hc
      · intro hc
        exact .inr ⟨retx, rest, hq, .inr (by rw [hs]; exact hc)⟩
    · obtain ⟨-, hle⟩ := (P.cutShape h.lt hn).soEnd_bounds (Nat.le_of_lt h.lt)
      -- The cut reaches the end and the entry leaves the queue, or the entry waits for the rest.
      by_cases he : (cutSegment P.header n s P.data.length).soEnd = P.data.length
      · refine .inl ⟨he, ?_⟩
        simp only [if_pos he]
        exact hk
      · refine .inr ⟨by omega, ?_⟩
        simp only [if_neg he]
        exact { length := hk, lt := by omega
                entry := ⟨_, rest, tx, rfl, htx, hheader, hbuf, hend, .inr ⟨rfl, rfl⟩⟩ }
  · rw [if_neg hfit] at hread hsent
    simp only [Bool.or_eq_true, decide_eq_true_eq, not_or, Bool.not_eq_true, Nat.not_lt] at hfit
    have hs0 : s = 0 := by
      rw [← hs, hfit.1]
      rfl
    refine ⟨_, _, hread, .whole hsent hs0 hk ?_⟩
    refine .inr ⟨retx, rest, hq, .inl ⟨hfit.1, ?_⟩⟩
    rw [← hwhole hfit.1]
    exact hfit.2

end EntryAt

end

/-- Every PDU that `build_data_pdu` builds from non-empty SDUs is one that the results above
are about. -/
theorem buildDataPdu_amdPdu {B : Nat} {st : RlcAm} {now n : Nat} {header : AmdPduHeader}
    {data : Bytes} (htx : ∀ r, st.txSdu = some r → IsSdu B r)
    (hq : ∀ sdu ∈ st.txSduQueue, IsSdu B sdu) (hmax : n ≤ 2 ^ 16)
    (h : (buildDataPdu st now n).2 = some (header, data)) :
    ∃ P : AmdPdu, P.header = header ∧ P.data = data := by
  obtain ⟨hne, hn, -, -, -, -, -, -, hli, rfl⟩ := buildDataPdu_pdu h
  have hfits := fillPdu_fits st.txSdu st.txSduQueue hn
  have hstream := fillPdu_stream hn htx hq hne
  have hlen := hfits.fits
  rw [amPackedLength_data] at hlen
  exact ⟨{ header := header, data := _, pos := by rw [hli]; exact hfits.pos
           sum_lt := by rw [hli]; exact hstream.sum_lt
           size := by
             show (fillPdu st.txSdu st.txSduQueue n).pdu.length < _
             omega }, rfl, rfl⟩

/-! ### A PDU with two SDUs -/

end SrsUE.Proofs.Rlc
