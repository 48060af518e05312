import SrsUE.Proofs.Rlc.AmSteps
import SrsUE.Proofs.Rlc.UmPdus

/-!
# `SrsUE.Proofs.Rlc.DescribedSdus`: the SDUs that get a length indicator

* `Described`: which SDUs have a length indicator in a finished PDU, in terms of the grant and of
  the SDUs there were. `amFillPdu_described` and `umFillPdu_described` establish it by the loop of
  `build_data_pdu`; the entities differ in the header that has to fit (`c`).
* `Described.kept`: each indicator is the length of the piece it stands for.
* `Described.short_iff`: the indicators of a PDU fit eleven bits exactly when each SDU of 2048
  bytes or more ends the PDU.
-/

set_option autoImplicit false

namespace SrsUE.Proofs.Rlc

open SrsUE.Lib
open SrsUE.Rlc

/-! ### Pieces of SDUs -/

/-- SDUs that are not empty. An empty one is moved without a trace. -/
def nonEmpty (sdus : List Bytes) : List Bytes := sdus.filter (!·.isEmpty)

/-- What each of the SDUs contributes to `n` bytes of data. -/
def sduCuts : List Bytes → Nat → List Bytes
  | [], _ => []
  | sdu :: sdus, n => sdu.take n :: sduCuts sdus (n - sdu.length)

/-- The pieces of SDUs in `n` bytes of data. -/
def sduPieces (sdus : List Bytes) (n : Nat) : List Bytes := nonEmpty (sduCuts sdus n)

/-- The data of a PDU consists of pieces of the SDUs, and the length indicators are the lengths of
the first of these pieces. -/
structure LisKept (sdus : List Bytes) (lis : List Nat) (data : Bytes) : Prop where
  pieces : (sduPieces sdus data.length).flatten = data
  lis : lis = ((sduPieces sdus data.length).take lis.length).map List.length

/-- A cut behind some SDUs leaves these whole. -/
theorem sduCuts_append (p rest : List Bytes) (k : Nat) :
    sduCuts (p ++ rest) (p.flatten.length + k) = p ++ sduCuts rest k := by
  induction p with
  | nil => simp
  | cons sdu p ih =>
    have hlen : (sdu :: p).flatten.length + k = sdu.length + (p.flatten.length + k) := by
      rw [List.flatten_cons, List.length_append]
      omega
    rw [List.cons_append, sduCuts, hlen, Nat.add_sub_cancel_left, ih,
      List.take_of_length_le (by omega), List.cons_append]

/-- The cuts are the bytes up to the position. -/
theorem flatten_sduCuts (sdus : List Bytes) (n : Nat) :
    (sduCuts sdus n).flatten = sdus.flatten.take n := by
  induction sdus generalizing n with
  | nil => simp [sduCuts]
  | cons sdu sdus ih => rw [sduCuts, List.flatten_cons, List.flatten_cons, ih, List.take_append]

/-- So are the pieces. -/
theorem flatten_sduPieces (sdus : List Bytes) (n : Nat) :
    (sduPieces sdus n).flatten = sdus.flatten.take n := by
  rw [← flatten_sduCuts]
  exact List.flatten_filter_not_isEmpty

/-- The pieces with bytes of two lists. -/
theorem nonEmpty_append (xs ys : List Bytes) : nonEmpty (xs ++ ys) = nonEmpty xs ++ nonEmpty ys :=
  List.filter_append ..

/-- A piece without bytes is left out. -/
theorem nonEmpty_singleton {x : Bytes} : nonEmpty [x] = if x.length = 0 then [] else [x] := by
  cases x <;> rfl

/-- The others are kept. -/
theorem mem_nonEmpty {x : Bytes} {xs : List Bytes} : x ∈ nonEmpty xs ↔ x ∈ xs ∧ x ≠ [] := by
  simp [nonEmpty]

/-- One more piece counts when it has bytes. -/
theorem length_nonEmpty_concat (p : List Bytes) (x : Bytes) :
    (nonEmpty (p ++ [x])).length = (nonEmpty p).length + if x.length = 0 then 0 else 1 := by
  rw [nonEmpty_append, List.length_append, nonEmpty_singleton]
  split <;> rfl

/-- It adds its bytes. -/
theorem length_flatten_concat (p : List Bytes) (x : Bytes) :
    (p ++ [x]).flatten.length = p.flatten.length + x.length := by
  rw [List.flatten_append, List.length_append]
  simp

/-- The length indicator of one more SDU. An empty one gets none. -/
theorem li_concat {p : List Bytes} {li : List Nat} (hli : li = (nonEmpty p).map List.length)
    (x : Bytes) :
    (if 0 < x.length then li ++ [x.length] else li) = (nonEmpty (p ++ [x])).map List.length := by
  rw [nonEmpty_append, nonEmpty_singleton, List.map_append, ← hli]
  rcases Nat.eq_zero_or_pos x.length with hz | hpos
  · rw [if_neg (by omega), if_pos hz]
    simp
  · rw [if_pos hpos, if_neg (by omega)]
    rfl

/-- SDUs, and the first bytes of the next one. -/
theorem prefix_flatten (p : List Bytes) {x y : Bytes} (hy : y <+: x) (queue : List Bytes) :
    p.flatten ++ y <+: (p ++ x :: queue).flatten := by
  rw [List.flatten_append, List.flatten_cons]
  exact (List.prefix_append_right_inj _).mpr (hy.trans (List.prefix_append ..))

/-! ### The SDUs with a length indicator -/

/-- An SDU that is too long for a length indicator and has another one behind it does not leave room
for that one: a grant of `n` bytes ends with it at the latest. `hb` is the length of the fixed
header, and `c` is 1 where the indicator of the SDU itself has to fit. -/
def LongSdusLast (hb c : Nat) (n : Int) (sdus : List Bytes) : Prop :=
  ∀ xs x y ys, sdus = xs ++ x :: y :: ys → 2048 ≤ x.length →
    n ≤ (hb + liBytes ((nonEmpty xs).length + c) + (xs ++ [x]).flatten.length : Nat)

/-- A PDU with the SDUs `p` behind length indicators, out of these SDUs. The last indicator was
added with room for more, and there is none left for another. -/
structure Described (hb c : Nat) (n : Int) (sdus p : List Bytes) (li : List Nat) (data : Bytes) :
    Prop where
  split : ∃ x rest, sdus = p ++ x :: rest
  li : li = (nonEmpty p).map List.length
  whole : p.flatten <+: data
  data : data <+: sdus.flatten
  below : nonEmpty p ≠ [] →
    (hb + liBytes ((nonEmpty p).length - 1 + c) + p.flatten.length : Nat) < n
  full : ∀ x y ys, sdus = p ++ x :: y :: ys →
    n ≤ (hb + liBytes ((nonEmpty p).length + c) + (p ++ [x]).flatten.length : Nat)

section
variable {hb c : Nat} {n : Int} {sdus p : List Bytes} {li : List Nat} {data : Bytes}

/-- The indicators are the lengths of the pieces they describe. -/
theorem Described.kept (h : Described hb c n sdus p li data) : LisKept sdus li data := by
  obtain ⟨x, rest, hsplit⟩ := h.split
  obtain ⟨tail, htail⟩ := h.whole
  refine { pieces := ?_, lis := ?_ }
  · rw [flatten_sduPieces]
    exact (List.prefix_iff_eq_take.mp h.data).symm
  · have hlen : data.length = p.flatten.length + tail.length := by
      rw [← htail, List.length_append]
    have hcount : li.length = (nonEmpty p).length := by
      rw [h.li, List.length_map]
    rw [hcount, hlen, hsplit, sduPieces, sduCuts_append, nonEmpty_append, List.take_left]
    exact h.li

/-- More SDUs take more indicators and more bytes. -/
theorem cost_le {xs ys : List Bytes} (h : xs <+: ys) :
    (nonEmpty xs).length ≤ (nonEmpty ys).length ∧ xs.flatten.length ≤ ys.flatten.length := by
  obtain ⟨zs, rfl⟩ := h
  rw [nonEmpty_append, List.flatten_append, List.length_append, List.length_append]
  omega

/-- Behind the last indicator there is no room for another one, whatever SDUs follow. -/
theorem Described.full_from (h : Described hb c n sdus p li data) {xs ys : List Bytes} {x y : Bytes}
    (hsdus : sdus = xs ++ x :: y :: ys) (hlen : p.length ≤ xs.length) :
    n ≤ (hb + liBytes ((nonEmpty xs).length + c) + (xs ++ [x]).flatten.length : Nat) := by
  obtain ⟨z, rest, hsplit⟩ := h.split
  have hcount : (p ++ z :: rest).length = (xs ++ x :: y :: ys).length := by
    rw [← hsplit, hsdus]
  simp only [List.length_append, List.length_cons] at hcount
  -- `z` is the SDU the PDU stops in; with nothing behind it, `p` is already longer than `xs`.
  cases rest with
  | nil =>
    simp only [List.length_nil] at hcount
    omega
  | cons z' rest =>
    have hfull := h.full z z' rest hsplit
    have hp : p <+: xs := List.prefix_of_prefix_length_le ⟨z :: z' :: rest, hsplit.symm⟩
      ⟨x :: y :: ys, hsdus.symm⟩ hlen
    have hz : p ++ [z] <+: sdus := ⟨z' :: rest, by rw [hsplit]; exact (List.append_cons ..).symm⟩
    have hx : xs ++ [x] <+: sdus := ⟨y :: ys, by rw [hsdus]; exact (List.append_cons ..).symm⟩
    have hpz : p ++ [z] <+: xs ++ [x] := by
      refine List.prefix_of_prefix_length_le hz hx ?_
      simp only [List.length_append, List.length_singleton]
      omega
    have hmono := liBytes_le (Nat.add_le_add_right (cost_le hp).1 c)
    have hsize := (cost_le hpz).2
    omega

/-- All indicators fit eleven bits exactly when no SDU that needs more has room behind it. -/
theorem Described.short_iff (h : Described hb c n sdus p li data) :
    (∀ l ∈ li, l < 2048) ↔ LongSdusLast hb c n sdus := by
  obtain ⟨z, rest, hsplit⟩ := h.split
  constructor
  · intro hli xs x y ys hsdus hlong
    rcases Nat.lt_or_ge xs.length p.length with hlt | hge
    · -- `x` is one of the SDUs with an indicator.
      have hxs : xs ++ [x] <+: sdus := ⟨y :: ys, by rw [hsdus]; exact (List.append_cons ..).symm⟩
      have hpre : xs ++ [x] <+: p := by
        refine List.prefix_of_prefix_length_le hxs ⟨z :: rest, hsplit.symm⟩ ?_
        rw [List.length_append, List.length_singleton]
        exact hlt
      have hne : x ≠ [] := by
        rintro rfl
        exact absurd hlong (by decide)
      have hx : x ∈ nonEmpty p := mem_nonEmpty.mpr ⟨hpre.subset (by simp), hne⟩
      have := hli x.length (by rw [h.li]; exact List.mem_map_of_mem hx)
      omega
    · exact h.full_from hsdus hge
  · intro hlong l hl
    rw [h.li] at hl
    obtain ⟨x, hx, rfl⟩ := List.mem_map.mp hl
    obtain ⟨hxp, hne⟩ := mem_nonEmpty.mp hx
    obtain ⟨xs, q, rfl⟩ := List.append_of_mem hxp
    by_contra hge
    -- There is an SDU behind `x`: one with an indicator, or the first one without.
    obtain ⟨y, ys, hy⟩ : ∃ y ys, sdus = xs ++ x :: y :: ys := by
      rw [hsplit]
      cases q with
      | nil => exact ⟨z, rest, by simp⟩
      | cons a q => exact ⟨a, q ++ z :: rest, by simp⟩
    have hle := hlong xs x y ys hy (Nat.le_of_not_lt hge)
    have hlt := h.below (List.ne_nil_of_mem hx)
    obtain ⟨hcount, hsize⟩ := cost_le (show xs ++ [x] <+: xs ++ x :: q from ⟨q, by simp⟩)
    rw [length_nonEmpty_concat, if_neg (by omega)] at hcount
    have hmono := liBytes_le
      (show (nonEmpty xs).length + c ≤ (nonEmpty (xs ++ x :: q)).length - 1 + c by omega)
    omega

end

/-! ### Acknowledged mode -/

section
variable {n : Nat} {p : List Bytes} {x : Bytes} {b : PduBuild}

/-- The SDUs `p` are in the PDU behind length indicators, and there is room for data. -/
structure AmReady (n : Nat) (p : List Bytes) (b : PduBuild) : Prop where
  li : b.li = (nonEmpty p).map List.length
  headLen : b.headLen = 2 + liBytes (nonEmpty p).length
  pdu : b.pdu = p.flatten
  space : b.pduSpace + b.pdu.length = n
  room : b.headLen < b.pduSpace

/-- The SDUs `p` are in the PDU behind length indicators, and the SDU `x` has none yet. -/
structure AmMoved (n : Nat) (p : List Bytes) (x : Bytes) (b : PduBuild) : Prop where
  li : b.li = (nonEmpty p).map List.length
  headLen : b.headLen = 2 + liBytes (nonEmpty p).length
  pdu : b.pdu = p.flatten ++ x
  space : b.pduSpace + b.pdu.length = n
  lastLi : b.lastLi = x.length
  below : 2 + liBytes (nonEmpty p).length + p.flatten.length < n

/-- There is space left behind the header and the data. -/
theorem AmReady.below (h : AmReady n p b) :
    2 + liBytes (nonEmpty p).length + p.flatten.length < n := by
  have hhead := h.headLen
  have hspace := h.space
  have hroom := h.room
  rw [h.pdu] at hspace
  omega

/-- `below` in the form of `Described`. -/
theorem amBelow (h : 2 + liBytes (nonEmpty p).length + p.flatten.length < n)
    (hne : nonEmpty p ≠ []) :
    ((2 + liBytes ((nonEmpty p).length - 1 + 1) + p.flatten.length : Nat) : Int) < n := by
  rw [Nat.sub_add_cancel (List.length_pos_iff.mpr hne)]
  omega

/-- The next SDU is moved whole, or the PDU is full. -/
theorem AmReady.addSdu (h : AmReady n p b) (sdu : Bytes) (queue : List Bytes) :
    AmMoved n p sdu (b.addSdu sdu) ∨
      Described 2 1 n (p ++ sdu :: queue) p (pullSdus queue (b.addSdu sdu)).li
        (pullSdus queue (b.addSdu sdu)).pdu := by
  have hlast := addSdu_lastLi b sdu
  have hlen := length_addSdu_pdu b sdu
  have hsp := addSdu_pduSpace b sdu
  have hspace := h.space
  have hroom := h.room
  -- A whole SDU keeps the build going; a cut one fills the PDU and ends it.
  rcases (Nat.lt_or_ge (b.pduSpace - b.headLen) sdu.length).symm with hfit | hlt
  · left
    rw [Nat.min_eq_left hfit] at hlast
    refine { li := h.li, headLen := h.headLen, pdu := ?_, space := by omega, lastLi := hlast
             below := h.below }
    rw [addSdu_pdu, hlast, List.take_length, h.pdu]
  · right
    have hstop : pullSdus queue (b.addSdu sdu) = { b.addSdu sdu with queue := queue } := by
      have hhead : (b.addSdu sdu).headLen = b.headLen := rfl
      cases queue with
      | nil => rfl
      | cons y queue => rw [pullSdus_cons, if_neg (by omega)]
    rw [hstop]
    refine { split := ⟨sdu, queue, rfl⟩, li := h.li, whole := ?_, data := ?_
             below := amBelow h.below, full := ?_ }
    · show p.flatten <+: (b.addSdu sdu).pdu
      rw [addSdu_pdu, h.pdu]
      exact List.prefix_append ..
    · show (b.addSdu sdu).pdu <+: _
      rw [addSdu_pdu, h.pdu]
      exact prefix_flatten p (List.take_prefix ..) queue
    · intro z y ys hsdus
      obtain ⟨rfl, -⟩ := List.cons.inj (List.append_cancel_left hsdus)
      have hhead := h.headLen
      have hmono := liBytes_le (Nat.le_add_right (nonEmpty p).length 1)
      rw [length_flatten_concat]
      rw [h.pdu] at hspace
      omega

/-- The next round of the loop finds the length indicator of the last SDU in the header. -/
theorem AmMoved.pushed (h : AmMoved n p x b) :
    (pushLi b).li = (nonEmpty (p ++ [x])).map List.length ∧
      (pushLi b).headLen = 2 + liBytes (nonEmpty (p ++ [x])).length := by
  have hli : (pushLi b).li = (nonEmpty (p ++ [x])).map List.length := by
    show (if 0 < b.lastLi then b.li ++ [b.lastLi] else b.li) = _
    rw [h.lastLi]
    exact li_concat h.li x
  refine ⟨hli, ?_⟩
  have hcount := congrArg List.length hli
  rw [List.length_map] at hcount
  rw [← hcount]
  exact amPackedLength_data _

/-- No further SDU is pulled. -/
theorem AmMoved.described_stop (h : AmMoved n p x b) (queue : List Bytes)
    (hfull : queue ≠ [] → b.pduSpace ≤ 2 + liBytes ((nonEmpty p).length + 1)) :
    Described 2 1 n (p ++ x :: queue) p b.li b.pdu := by
  refine { split := ⟨x, queue, rfl⟩, li := h.li, whole := ?_, data := ?_, below := amBelow h.below
           full := ?_ }
  · rw [h.pdu]
    exact List.prefix_append ..
  · rw [h.pdu]
    exact prefix_flatten p List.prefix_rfl queue
  · intro z y ys hsdus
    obtain ⟨rfl, hqueue⟩ := List.cons.inj (List.append_cancel_left hsdus)
    have hle := hfull (by rw [hqueue]; exact List.cons_ne_nil y ys)
    have hspace := h.space
    rw [h.pdu, List.length_append] at hspace
    rw [length_flatten_concat]
    omega

/-- The loop of `build_data_pdu`. -/
theorem AmMoved.described (h : AmMoved n p x b) (queue : List Bytes) :
    ∃ p', Described 2 1 n (p ++ x :: queue) p' (pullSdus queue b).li (pullSdus queue b).pdu := by
  induction queue generalizing p x b with
  | nil => exact ⟨p, h.described_stop [] fun hne => absurd rfl hne⟩
  | cons sdu queue ih =>
    obtain ⟨hli, hhead'⟩ := h.pushed
    have hhead := h.headLen
    rw [pullSdus_cons]
    by_cases hlt : b.headLen < b.pduSpace
    · rw [if_pos hlt]
      by_cases hle : b.pduSpace ≤ (pushLi b).headLen
      · -- The indicator is taken back. It was there, since the header has grown.
        rw [if_pos hle]
        have hcount := length_nonEmpty_concat p x
        have hpos : ¬x.length = 0 := by
          intro hz
          rw [if_pos hz, Nat.add_zero] at hcount
          rw [hhead', hcount] at hle
          omega
        rw [if_neg hpos] at hcount
        have hback : (pushLi b).li.dropLast = b.li := by
          rw [hli, h.li, nonEmpty_append, nonEmpty_singleton, if_neg hpos, List.map_append]
          exact List.dropLast_concat
        rw [hback]
        refine ⟨p, h.described_stop (sdu :: queue) fun _ => ?_⟩
        rw [← hcount, ← hhead']
        exact hle
      · rw [if_neg hle]
        have hready : AmReady n (p ++ [x]) (pushLi b) := by
          refine { li := hli, headLen := hhead', pdu := ?_, space := h.space
                   room := Nat.lt_of_not_le hle }
          show b.pdu = _
          rw [h.pdu, List.flatten_append]
          simp
        rw [List.append_cons]
        rcases hready.addSdu sdu queue with hmoved | hdone
        · exact ih hmoved
        · exact ⟨p ++ [x], hdone⟩
    · rw [if_neg hlt]
      refine ⟨p, h.described_stop (sdu :: queue) fun _ => ?_⟩
      have hmono := liBytes_le (Nat.le_add_right (nonEmpty p).length 1)
      omega

/-- A PDU of `rlc_am`, for any SDUs. -/
theorem amFillPdu_described {txSdu : Option Bytes} {queue : List Bytes}
    (hne : txSdu.toList ++ queue ≠ []) (hn : 2 < n) :
    ∃ p, Described 2 1 n (txSdu.toList ++ queue) p (fillPdu txSdu queue n).li
      (fillPdu txSdu queue n).pdu := by
  have hempty : ∀ tx q, AmReady n [] (emptyPdu tx q n) := fun _ _ =>
    { li := rfl, headLen := rfl, pdu := rfl, space := rfl, room := hn }
  have hfirst : ∀ (b : PduBuild) (sdu : Bytes) (q : List Bytes), AmReady n [] b →
      ∃ p, Described 2 1 n (sdu :: q) p (pullSdus q (b.addSdu sdu)).li
        (pullSdus q (b.addSdu sdu)).pdu := by
    intro b sdu q hb
    rcases hb.addSdu sdu q with hmoved | hdone
    · exact hmoved.described q
    · exact ⟨[], hdone⟩
  cases txSdu with
  | some sdu =>
    rw [fillPdu_some]
    exact hfirst _ sdu queue (hempty (some sdu) queue)
  | none =>
    cases queue with
    | nil => exact absurd rfl hne
    | cons sdu queue =>
      -- Nothing was moved before, so the first round adds no indicator.
      have hpush : pushLi (emptyPdu none (sdu :: queue) n) = emptyPdu none (sdu :: queue) n := rfl
      have hroom := (hempty none (sdu :: queue)).room
      rw [fillPdu_none, pullSdus_cons, if_pos hroom, hpush, if_neg (Nat.not_le.mpr hroom)]
      exact hfirst _ sdu queue (hempty none (sdu :: queue))

end

/-! ### Unacknowledged mode -/

section
variable {hb n : Nat} {p : List Bytes} {x : Bytes} {b : Um.PduBuild} {snSize : UmdSnSize}

/-- The SDUs `p` are in the PDU behind length indicators. The header may be longer than the space by
one byte. -/
structure UmReady (hb n : Nat) (p : List Bytes) (b : Um.PduBuild) : Prop where
  li : b.li = (nonEmpty p).map List.length
  headLen : b.headLen = (hb + liBytes (nonEmpty p).length : Nat)
  pdu : b.pdu = p.flatten
  space : b.pduSpace = (n : Int) - p.flatten.length
  short : -1 ≤ b.pduSpace - b.headLen
  below : nonEmpty p ≠ [] → hb + liBytes ((nonEmpty p).length - 1) + p.flatten.length < n

/-- The SDUs `p` are in the PDU behind length indicators, and the SDU `x` has none yet. -/
structure UmMoved (hb n : Nat) (p : List Bytes) (x : Bytes) (b : Um.PduBuild) : Prop where
  li : b.li = (nonEmpty p).map List.length
  headLen : b.headLen = (hb + liBytes (nonEmpty p).length : Nat)
  pdu : b.pdu = p.flatten ++ x
  space : b.pduSpace = (n : Int) - p.flatten.length - x.length
  lastLi : b.lastLi = x.length
  below : nonEmpty p ≠ [] → hb + liBytes ((nonEmpty p).length - 1) + p.flatten.length < n

/-- The next SDU is moved whole, or the PDU is full. -/
theorem UmReady.addSdu (h : UmReady hb n p b) {sdu : Bytes} (hsdu : sdu.length < 2 ^ 31)
    (hn : n < 2 ^ 31) (queue : List Bytes) :
    UmMoved hb n p sdu (b.addSdu sdu) ∨
      Described hb 0 n (p ++ sdu :: queue) p (Um.pullSdus snSize queue (b.addSdu sdu)).li
        (Um.pullSdus snSize queue (b.addSdu sdu)).pdu := by
  have hspace := h.space
  have hhead := h.headLen
  have hshort := h.short
  have hwhole : (b.pduSpace - b.headLen = -1 ∨
      (sdu.length : Int) ≤ b.pduSpace - b.headLen ∧ b.pduSpace - b.headLen < 2 ^ 32) →
      UmMoved hb n p sdu (b.addSdu sdu) := by
    intro hroom
    rw [umAddSdu_whole hsdu (by omega) (by omega) hroom]
    refine { li := h.li, headLen := hhead, pdu := ?_, space := ?_, lastLi := rfl
             below := h.below }
    · show b.pdu ++ sdu = _
      rw [h.pdu]
    · show b.pduSpace - sdu.length = _
      rw [hspace]
  by_cases hneg : b.pduSpace - b.headLen = -1
  · exact .inl (hwhole (.inl hneg))
  by_cases hfit : (sdu.length : Int) ≤ b.pduSpace - b.headLen
  · exact .inl (hwhole (.inr ⟨hfit, by omega⟩))
  right
  -- The copy leaves exactly the header, which ends the loop.
  have hne : sdu ≠ [] := by
    rintro rfl
    rw [List.length_nil] at hfit
    omega
  rw [umAddSdu_part (by omega) (by omega) ⟨hne, hsdu⟩ (by omega) (by omega),
    umPullSdus_stop _ (Int.le_refl _)]
  refine { split := ⟨sdu, queue, rfl⟩, li := h.li, whole := ?_, data := ?_, below := ?_
           full := ?_ }
  · show p.flatten <+: b.pdu ++ _
    rw [h.pdu]
    exact List.prefix_append ..
  · show b.pdu ++ _ <+: _
    rw [h.pdu]
    exact prefix_flatten p (List.take_prefix ..) queue
  · intro hp
    have := h.below hp
    rw [Nat.add_zero]
    omega
  · intro z y ys hsdus
    obtain ⟨rfl, -⟩ := List.cons.inj (List.append_cancel_left hsdus)
    rw [length_flatten_concat, Nat.add_zero]
    omega

/-- No further SDU is pulled. -/
theorem UmMoved.described_stop (h : UmMoved hb n p x b) (queue : List Bytes)
    (hfull : queue ≠ [] → b.pduSpace ≤ b.headLen) :
    Described hb 0 n (p ++ x :: queue) p b.li b.pdu := by
  refine { split := ⟨x, queue, rfl⟩, li := h.li, whole := ?_, data := ?_, below := ?_, full := ?_ }
  · rw [h.pdu]
    exact List.prefix_append ..
  · rw [h.pdu]
    exact prefix_flatten p List.prefix_rfl queue
  · intro hp
    have := h.below hp
    rw [Nat.add_zero]
    omega
  · intro z y ys hsdus
    obtain ⟨rfl, hqueue⟩ := List.cons.inj (List.append_cancel_left hsdus)
    have hle := hfull (by rw [hqueue]; exact List.cons_ne_nil y ys)
    have hspace := h.space
    have hhead := h.headLen
    rw [length_flatten_concat, Nat.add_zero]
    omega

/-- The next round finds the length indicator of the last SDU in the header. -/
theorem UmMoved.ready (h : UmMoved hb n p x b) (hlt : b.headLen < b.pduSpace)
    (hhb : hb = Um.fixedLength snSize) :
    UmReady hb n (p ++ [x]) { b with
      li := if 0 < b.lastLi then b.li ++ [b.lastLi] else b.li
      headLen := Um.packedLength { snSize := snSize
                                   li := if 0 < b.lastLi then b.li ++ [b.lastLi] else b.li } } := by
  have hhead := h.headLen
  have hspace := h.space
  have hcount := length_nonEmpty_concat p x
  have hsize := length_flatten_concat p x
  have hmono := liBytes_succ_le (nonEmpty p).length
  -- The LI of the last SDU is appended only now, and not at all for an empty one.
  have hli : (if 0 < b.lastLi then b.li ++ [b.lastLi] else b.li)
      = (nonEmpty (p ++ [x])).map List.length := by
    rw [h.lastLi]
    exact li_concat h.li x
  have hpacked : Um.packedLength { snSize := snSize, li := (nonEmpty (p ++ [x])).map List.length }
      = hb + liBytes (nonEmpty (p ++ [x])).length := by
    simp only [Um.packedLength, List.length_map, hhb, liBytes]
  rw [hli, hpacked]
  refine { li := rfl, headLen := rfl, pdu := ?_, space := ?_, short := ?_, below := fun _ => ?_ }
  · show b.pdu = _
    rw [h.pdu, List.flatten_append]
    simp
  · show b.pduSpace = _
    omega
  · show -1 ≤ b.pduSpace - ((hb + liBytes (nonEmpty (p ++ [x])).length : Nat) : Int)
    split at hcount
    · rw [hcount, Nat.add_zero]
      omega
    · rw [hcount]
      omega
  · have hle : liBytes ((nonEmpty (p ++ [x])).length - 1) ≤ liBytes (nonEmpty p).length := by
      refine liBytes_le ?_
      split at hcount <;> omega
    omega

/-- The loop of `build_data_pdu`. -/
theorem UmMoved.described (h : UmMoved hb n p x b) (hn : n < 2 ^ 31)
    (hhb : hb = Um.fixedLength snSize) {queue : List Bytes}
    (hqueue : ∀ sdu ∈ queue, sdu.length < 2 ^ 31) :
    ∃ p', Described hb 0 n (p ++ x :: queue) p' (Um.pullSdus snSize queue b).li
      (Um.pullSdus snSize queue b).pdu := by
  induction queue generalizing p x b with
  | nil => exact ⟨p, h.described_stop [] fun hne => absurd rfl hne⟩
  | cons sdu queue ih =>
    obtain ⟨hsdu, hrest⟩ := List.forall_mem_cons.mp hqueue
    rw [Um.pullSdus]
    by_cases hlt : b.headLen < b.pduSpace
    · rw [if_pos hlt, List.append_cons]
      rcases (h.ready hlt hhb).addSdu hsdu hn queue with hmoved | hdone
      · exact ih hmoved hrest
      · exact ⟨p ++ [x], hdone⟩
    · rw [if_neg hlt]
      exact ⟨p, h.described_stop (sdu :: queue) fun _ => Int.not_lt.mp hlt⟩

/-- A PDU of `rlc_um`, for any SDUs. -/
theorem umFillPdu_described {txSdu : Option Bytes} {queue : List Bytes}
    (hne : txSdu.toList ++ queue ≠ []) (hsdus : ∀ sdu ∈ txSdu.toList ++ queue, sdu.length < 2 ^ 31)
    (hn : n < 2 ^ 31) (hgt : Um.fixedLength snSize < n) :
    ∃ p, Described (Um.fixedLength snSize) 0 n (txSdu.toList ++ queue) p
      (Um.fillPdu snSize txSdu queue n).li (Um.fillPdu snSize txSdu queue n).pdu := by
  -- Whichever SDU comes first, the rest is pulled from the queue in the same way.
  have hfirst : ∀ (b : Um.PduBuild) (sdu : Bytes) (q : List Bytes),
      UmReady (Um.fixedLength snSize) n [] b → sdu.length < 2 ^ 31 →
      (∀ s ∈ q, s.length < 2 ^ 31) →
      ∃ p, Described (Um.fixedLength snSize) 0 n (sdu :: q) p
        (Um.pullSdus snSize q (b.addSdu sdu)).li (Um.pullSdus snSize q (b.addSdu sdu)).pdu := by
    intro b sdu q hb hsdu hq
    rcases hb.addSdu hsdu hn q with hmoved | hdone
    · exact hmoved.described hn rfl hq
    · exact ⟨[], hdone⟩
  have hempty : ∀ tx q, UmReady (Um.fixedLength snSize) n []
      { headLen := Um.packedLength { snSize := snSize }, pduSpace := toI32 n, txSdu := tx
        queue := q } := by
    intro tx q
    have hpacked : Um.packedLength { snSize := snSize } = Um.fixedLength snSize := by
      simp [Um.packedLength]
    have hgrant : toI32 n = n := by
      rw [toI32_of_mem (by omega) (by omega)]
    rw [hgrant, hpacked]
    exact { li := rfl, headLen := rfl, pdu := rfl, space := by simp, short := by simp only; omega
            below := fun hp => absurd rfl hp }
  -- A partly sent SDU goes first; without one the head of the queue does.
  cases txSdu with
  | some sdu =>
    obtain ⟨hsdu, hq⟩ := List.forall_mem_cons.mp hsdus
    exact hfirst _ sdu queue (hempty (some sdu) queue) hsdu hq
  | none =>
    cases queue with
    | nil => exact absurd rfl hne
    | cons sdu queue =>
      obtain ⟨hsdu, hq⟩ := List.forall_mem_cons.mp hsdus
      have hlt : (Um.packedLength { snSize := snSize } : Int) < toI32 n := by
        rw [toI32_of_mem (by omega) (by omega)]
        simp only [Um.packedLength, List.length_nil]
        omega
      rw [umFillPdu_none sdu queue hlt]
      exact hfirst _ sdu queue (hempty none (sdu :: queue)) hsdu hq

end

end SrsUE.Proofs.Rlc
