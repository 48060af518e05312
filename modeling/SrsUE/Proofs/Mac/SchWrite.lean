import SrsUE.Proofs.Mac.SchSpace

/-!
# `SrsUE.Proofs.Mac.SchWrite`: what `write_packet` writes

The subheaders of a PDU in the order in which they go out are `outline`: padding of one or two
bytes, the control elements, the SDUs, and the subheader of longer padding. When no subheader was
left unfilled, `write_packet` writes this outline and the payloads, and it returns `NULL` only when
subheaders and control elements do not fit in front of the SDUs (`writeChecked_eq`). Every
subheader that was left unfilled makes the result two bytes too long (`writeSize_eq`).
-/

set_option autoImplicit false

namespace SrsUE.Proofs.Mac

open SrsUE.Mac
open SrsUE.Rlc (Bytes sub32 sub32_of_le)

/-! ### Flags by index -/

section
variable {τ γ : Type}

/-- Where a mark holds of no index, marked elements are as unmarked ones. -/
theorem zipIdx_map_const (g : τ → Bool → γ) {f : Nat → Bool} (l : List τ) {k : Nat}
    (hf : ∀ i, k ≤ i → i < k + l.length → f i = false) :
    ((l.zipIdx k).map fun p => g p.1 (f p.2)) = l.map (g · false) := by
  induction l generalizing k with
  | nil => rfl
  | cons x l ih =>
    rw [List.zipIdx_cons, List.map_cons, List.map_cons, hf k (Nat.le_refl _) (by simp)]
    rw [ih fun i hi hlt => hf i (by omega) (by rw [List.length_cons]; omega)]

/-- A flag that marks the element behind `front`. -/
theorem zipIdx_map_flag (g : τ → Bool → γ) {f : Nat → Bool} (front back : List τ) (x : τ)
    (hf : ∀ i, f i = decide (i = front.length)) :
    ((front ++ x :: back).zipIdx.map fun p => g p.1 (f p.2))
      = front.map (g · false) ++ g x true :: back.map (g · false) := by
  rw [List.zipIdx_append, List.map_append, List.zipIdx_cons, List.map_cons, Nat.zero_add]
  rw [zipIdx_map_const g front fun i _ hi => by rw [hf]; exact decide_eq_false (by omega)]
  rw [zipIdx_map_const g back fun i hi _ => by rw [hf]; exact decide_eq_false (by omega)]
  simp only [hf, decide_true]

end

/-! ### Sizes -/

/-- The bytes for the subheaders, all with their length fields. -/
def fullHeaders (ss : List SchSubh) : Nat := (ss.map (·.getHeaderSize false)).sum

/-- The bytes of the control elements. -/
def cePayload (ss : List SchSubh) : Nat := ((ss.filter isCe).map (·.nofBytes)).sum

/-- The number of subheaders that were opened and not filled. -/
def unfilledCount (ss : List SchSubh) : Nat := (ss.filter isUnfilled).length

/-- The lengths of all subheaders and control elements, with two bytes for each that was left
unfilled. -/
theorem fullHeaders_add (ss : List SchSubh) :
    fullHeaders ss + cePayload ss
      = ceSpace ss + ((dataSizes ss).map sizeHeaderSdu).sum + 2 * unfilledCount ss := by
  induction ss with
  | nil => rfl
  | cons s ss ih =>
    have hcons : ∀ p : SchSubh → Bool, (s :: ss).filter p = [s].filter p ++ ss.filter p :=
      fun p => List.filter_append [s] ss
    simp only [fullHeaders, cePayload, ceSpace, dataSizes, unfilledCount, hcons, List.map_cons,
      List.map_append, List.sum_cons, List.sum_append, List.length_append] at ih ⊢
    cases hs : s.isSdu with
    | false =>
      simp [isCe, isData, isUnfilled, SchSubh.getHeaderSize, hs] at ih ⊢
      omega
    | true =>
      by_cases hn : s.nofBytes = 0
      · simp [isCe, isData, isUnfilled, SchSubh.getHeaderSize, sizeHeaderSdu, hs, hn] at ih ⊢
        omega
      · have hpos : 0 < s.nofBytes := by omega
        simp [isCe, isData, isUnfilled, SchSubh.getHeaderSize, hs, hn, hpos] at ih ⊢
        omega

/-- The subheaders of SDUs, with the length field that the last one lacks. -/
theorem sduHeaders_add_lastLength (ss : List SchSubh) :
    sduHeaders (dataSizes ss) + lastLength ss = ((dataSizes ss).map sizeHeaderSdu).sum := by
  rw [lastLength, lastField]
  rcases List.eq_nil_or_concat (dataSizes ss) with hnil | ⟨ns, n, hns⟩
  · rw [hnil]
    rfl
  · have := two_le_sizeHeaderSdu n
    rw [hns, List.concat_eq_append, sduHeaders_concat, List.map_append, List.sum_append,
      List.getLast?_concat]
    simp only [List.map_cons, List.map_nil, List.sum_cons, List.sum_nil]
    omega

section
variable {pdu : SchPdu}

/-- Where `last_sdu_idx` points. -/
theorem Tracked.lastSdu_cases (h : Tracked pdu) :
    (pdu.lastSduIdx = none ∧ ∀ s ∈ inUse pdu, isData s = false) ∨
    ∃ front s back, inUse pdu = front ++ s :: back ∧ pdu.lastSduIdx = some front.length ∧
      isData s = true ∧ (∀ t ∈ back, isData t = false) ∧ pdu.subh front.length = s := by
  have hlast := h.last
  generalize hi : pdu.lastSduIdx = i at hlast
  generalize huse : inUse pdu = ss at hlast
  cases hlast with
  | none hnone => exact .inl ⟨rfl, hnone⟩
  | @some front back s hs hback =>
    refine .inr ⟨front, s, back, rfl, rfl, hs, hback, ?_⟩
    rw [SchPdu.subh, ← inUse_append_spare, huse, List.append_assoc, List.getD_eq_getElem?_getD,
      List.getElem?_append_right (Nat.le_refl _), Nat.sub_self]
    rfl

/-- The length field that the last SDU would get, found at its place. -/
theorem lastLength_of_back {front back : List SchSubh} {s : SchSubh} (hs : isData s = true)
    (hback : ∀ t ∈ back, isData t = false) :
    lastLength (front ++ s :: back) = sizeHeaderSdu s.nofBytes - 1 := by
  rw [lastLength, lastField, dataSizes_append, ← List.singleton_append, dataSizes_append,
    dataSizes_singleton hs, dataSizes_eq_nil hback, List.append_nil, List.getLast?_concat]

/-- Without SDUs there is no such field. -/
theorem lastLength_of_none {ss : List SchSubh} (h : ∀ s ∈ ss, isData s = false) :
    lastLength ss = 0 := by
  rw [lastLength, lastField, dataSizes_eq_nil h]
  rfl

/-- A subheader that is not the last has its length field. -/
theorem getHeaderSize_data {s : SchSubh} (hs : isData s = true) :
    s.getHeaderSize false = sizeHeaderSdu s.nofBytes := by
  have hsdu : s.isSdu = true := (Bool.and_eq_true_iff.mp hs).1
  rw [SchSubh.getHeaderSize, if_neg Bool.false_ne_true, if_pos hsdu]

/-- The subheaders in use, with the mark of the last SDU. -/
def flagged (pdu : SchPdu) : List (SchSubh × Bool) :=
  pdu.indexed.map fun p => (p.1, pdu.isLastSdu p.2)

/-- With padding behind the SDUs, or without SDUs, no subheader is marked. -/
theorem flagged_plain (h : pdu.multibytePadding = true ∨ pdu.lastSduIdx = none) :
    flagged pdu = (inUse pdu).map fun s => (s, false) := by
  refine zipIdx_map_const Prod.mk (inUse pdu) fun i _ _ => ?_
  rw [SchPdu.isLastSdu]
  rcases h with h | h
  · rw [h]
    rfl
  · rw [h, Bool.and_eq_false_iff]
    exact .inr rfl

/-- Otherwise the last SDU is marked, and no other one. -/
theorem flagged_last {front back : List SchSubh} {s : SchSubh} (hm : pdu.multibytePadding = false)
    (huse : inUse pdu = front ++ s :: back) (hlast : pdu.lastSduIdx = some front.length) :
    flagged pdu = front.map (fun s => (s, false)) ++ (s, true) :: back.map fun s => (s, false) := by
  have hflag : ∀ i, pdu.isLastSdu i = decide (i = front.length) := by
    intro i
    rw [SchPdu.isLastSdu, hm, hlast, Bool.eq_iff_iff]
    simp only [Bool.not_false, Bool.true_and, beq_iff_eq, Option.some.injEq, decide_eq_true_eq]
    exact eq_comm
  have h := zipIdx_map_flag Prod.mk front back s hflag
  rw [← huse] at h
  exact h

/-- `header_sz` sums up the subheaders, with the padding ones. -/
theorem headerSz_eq (pdu : SchPdu) :
    pdu.headerSz = ((flagged pdu).map fun p => p.1.getHeaderSize p.2).sum
      + (if pdu.multibytePadding then 1 else pdu.onetwoPadding) := by
  rw [flagged, List.map_map]
  rfl

/-- `ce_payload_sz` sums up the control elements. -/
theorem cePayloadSz_eq (pdu : SchPdu) : pdu.cePayloadSz = cePayload (inUse pdu) := by
  have hfst : (inUse pdu).zipIdx.map Prod.fst = inUse pdu := List.zipIdx_map_fst 0 _
  rw [cePayload, ← hfst, List.filter_map, List.map_map]
  rfl

/-- With a padding subheader every SDU has a length field. -/
theorem headerSz_multibyte (hm : pdu.multibytePadding = true) :
    pdu.headerSz = fullHeaders (inUse pdu) + 1 := by
  rw [headerSz_eq, flagged_plain (.inl hm), List.map_map, if_pos hm]
  rfl

/-- Otherwise the last SDU has none. -/
theorem Tracked.headerSz_add (h : Tracked pdu) (hm : pdu.multibytePadding = false) :
    pdu.headerSz + lastLength (inUse pdu) = fullHeaders (inUse pdu) + pdu.onetwoPadding := by
  rw [headerSz_eq, if_neg (by simp [hm])]
  rcases h.lastSdu_cases with ⟨hnone, hall⟩ | ⟨front, s, back, huse, hlast, hs, hback, -⟩
  · rw [flagged_plain (.inr hnone), List.map_map, lastLength_of_none hall]
    rfl
  · have := two_le_sizeHeaderSdu s.nofBytes
    have hfull := getHeaderSize_data hs
    have hone : s.getHeaderSize true = 1 := rfl
    rw [flagged_last hm huse hlast, huse, lastLength_of_back hs hback, fullHeaders]
    simp only [List.map_append, List.map_cons, List.map_map, List.sum_append, List.sum_cons, hone,
      hfull, Function.comp_def]
    omega

/-- The padding, its subheader and the length field of the last SDU are what is left. -/
theorem Tracked.paddingLen_add (h : Tracked pdu) (hm : pdu.multibytePadding = true) :
    pdu.paddingLen + 1 + lastLength (inUse pdu) = pdu.remLen := by
  have hrem : 2 < pdu.remLen := of_decide_eq_true hm
  rw [SchPdu.paddingLen, if_pos hrem, sub32_of_le (show 1 ≤ pdu.remLen by omega)]
  rcases h.lastSdu_cases with ⟨hnone, hall⟩ | ⟨front, s, back, huse, hlast, hs, hback, hsubh⟩
  · rw [hnone, lastLength_of_none hall]
    simp only
    rw [sub32_of_le (Nat.zero_le _)]
    omega
  · have hsize : sizeHeaderSdu s.nofBytes ≤ 3 := by
      unfold sizeHeaderSdu
      split <;> omega
    have := two_le_sizeHeaderSdu s.nofBytes
    rw [hlast, huse, lastLength_of_back hs hback]
    simp only [hsubh, getHeaderSize_data hs]
    rw [sub32_of_le (by omega)]
    omega

/-- The sum that `write_packet` compares with the length of the PDU. -/
theorem Tracked.writeSize_eq (h : Tracked pdu) :
    pdu.paddingLen + pdu.headerSz + pdu.cePayloadSz + pdu.sdus.length
      = pdu.remLen + spaceUsed (inUse pdu) + 2 * unfilledCount (inUse pdu) := by
  have hfull := fullHeaders_add (inUse pdu)
  have hlast := sduHeaders_add_lastLength (inUse pdu)
  rw [cePayloadSz_eq, h.sdus, spaceUsed]
  cases hm : pdu.multibytePadding with
  | true =>
    have hpad := h.paddingLen_add hm
    rw [headerSz_multibyte hm]
    omega
  | false =>
    have hrem : ¬2 < pdu.remLen := of_decide_eq_false hm
    have hheader := h.headerSz_add hm
    have hpad : pdu.paddingLen = 0 := if_neg hrem
    have honetwo : pdu.onetwoPadding = pdu.remLen := if_neg hrem
    rw [hpad]
    omega

end

/-! ### Bytes -/

/-- Subheaders one after the other. All but the last have the E bit. -/
def headersOf : List SchSubh → Bytes
  | [] => []
  | [s] => s.writeSubheader true
  | s :: t :: ss => s.writeSubheader false ++ headersOf (t :: ss)

/-- Subheaders one after the other, with the last one split off. -/
theorem headersOf_concat (ss : List SchSubh) (s : SchSubh) :
    headersOf (ss ++ [s]) = ss.flatMap (·.writeSubheader false) ++ s.writeSubheader true := by
  induction ss with
  | nil => rfl
  | cons t ss ih =>
    have hcons : headersOf (t :: (ss ++ [s])) = t.writeSubheader false ++
        headersOf (ss ++ [s]) := by
      cases ss with
      | nil => rfl
      | cons u ss => rfl
    rw [List.cons_append, hcons, ih, List.flatMap_cons, List.append_assoc]

/-- The control elements of a PDU. -/
def ces (pdu : SchPdu) : List SchSubh := (inUse pdu).filter isCe

/-- The SDUs of a PDU. -/
def datas (pdu : SchPdu) : List SchSubh := (inUse pdu).filter isData

/-- The subheaders that go out, in their order. -/
def outline (pdu : SchPdu) : List SchSubh :=
  List.replicate pdu.onetwoPadding (paddingSubh 0) ++ ces pdu ++ datas pdu
    ++ (if pdu.multibytePadding then [paddingSubh pdu.paddingLen] else [])

section
variable {pdu : SchPdu}

/-- Without an unfilled subheader the SDUs all have data. -/
theorem isSdu_eq_isData {s : SchSubh} (h : isUnfilled s = false) : s.isSdu = isData s := by
  cases hs : s.isSdu with
  | false => rw [isData, hs]; rfl
  | true =>
    rw [isUnfilled, hs] at h
    have hne : s.nofBytes ≠ 0 := by simpa using h
    rw [isData, hs, Bool.true_and, decide_eq_true (Nat.pos_of_ne_zero hne)]

/-- The subheaders that `write_packet` goes through are those in use. -/
theorem mem_indexed {p : SchSubh × Nat} (h : p ∈ pdu.indexed) : p.1 ∈ inUse pdu :=
  List.fst_mem_of_mem_zipIdx h

/-- The subheaders of the control elements, as `write_packet` writes them. -/
def ceHeaders (pdu : SchPdu) : Bytes :=
  (pdu.indexed.filter fun p => !p.1.isSdu).flatMap fun p => p.1.writeSubheader
    (pdu.lastSduIdx.isNone && !pdu.multibytePadding && p.2 + 1 == pdu.nofSubheaders)

/-- The header that `write_packet` writes, part by part: padding in front, control elements, SDUs,
padding behind. -/
theorem headerBytes_parts (pdu : SchPdu) :
    pdu.headerBytes =
      (List.replicate pdu.onetwoPadding (paddingSubh 0)).flatMap (·.writeSubheader false)
        ++ ceHeaders pdu
        ++ (if pdu.lastSduIdx.isNone then [] else
          ((flagged pdu).filter fun p => p.1.isSdu).flatMap fun p => p.1.writeSubheader p.2)
        ++ (if pdu.multibytePadding then (paddingSubh pdu.paddingLen).writeSubheader true
          else []) := by
  rw [flagged, List.filter_map, List.flatMap_map, List.flatMap_def, List.map_replicate]
  rfl

/-- The E bit is set in all subheaders of control elements when something comes behind them. -/
theorem ceHeaders_eq (h : pdu.lastSduIdx.isNone = false ∨ pdu.multibytePadding = true) :
    ceHeaders pdu = (ces pdu).flatMap (·.writeSubheader false) := by
  have hflag : (pdu.lastSduIdx.isNone && !pdu.multibytePadding) = false := by
    rcases h with h | h
    · rw [h]
      rfl
    · rw [h]
      exact Bool.and_false _
  have hfst : (inUse pdu).zipIdx.map Prod.fst = inUse pdu := List.zipIdx_map_fst 0 _
  rw [ceHeaders]
  simp only [hflag, Bool.false_and]
  rw [ces, ← hfst, List.filter_map, List.flatMap_map]
  rfl

/-- Otherwise the last of them has none. -/
theorem ceHeaders_last {front : List SchSubh} {s : SchSubh} (hlast : pdu.lastSduIdx = none)
    (hm : pdu.multibytePadding = false) (huse : inUse pdu = front ++ [s])
    (hcount : pdu.nofSubheaders = front.length + 1) (hall : ∀ t ∈ inUse pdu, isCe t = true) :
    ceHeaders pdu = headersOf (inUse pdu) := by
  have hindexed : pdu.indexed = (front ++ [s]).zipIdx := by rw [← huse]; rfl
  have hfilter : (pdu.indexed.filter fun p => !p.1.isSdu) = pdu.indexed :=
    List.filter_eq_self.mpr fun p hp => hall p.1 (mem_indexed hp)
  have hflag : ∀ i, (i + 1 == pdu.nofSubheaders) = decide (i = front.length) := by
    intro i
    rw [hcount, Bool.eq_iff_iff]
    simp only [beq_iff_eq, Nat.add_right_cancel_iff, decide_eq_true_eq]
  rw [ceHeaders, hfilter, hlast, hm, hindexed, huse, headersOf_concat, List.flatMap_def]
  have hmap := zipIdx_map_flag SchSubh.writeSubheader front [] s hflag
  simp only [Option.isNone_none, Bool.not_false, Bool.and_self, Bool.true_and]
  rw [hmap, List.flatten_append, List.flatMap_def]
  simp

/-- Without SDUs with data there are none to write. -/
theorem filter_isData_eq_nil {ss : List SchSubh} (h : ∀ s ∈ ss, isData s = false) :
    ss.filter isData = [] := List.filter_eq_nil_iff.mpr fun s hs => by simp [h s hs]

/-- When all subheaders are filled, those of SDUs have data. -/
theorem filter_isSdu {ss : List SchSubh} (h : ∀ s ∈ ss, isUnfilled s = false) :
    ss.filter (·.isSdu) = ss.filter isData :=
  List.filter_congr fun s hs => isSdu_eq_isData (h s hs)

/-- With one mark for all, the subheaders of SDUs are written one way. -/
theorem filter_flagged {ss : List SchSubh} (h : ∀ s ∈ ss, isUnfilled s = false) (b : Bool) :
    (((ss.map fun s => (s, b)).filter fun p => p.1.isSdu).flatMap fun p =>
      p.1.writeSubheader p.2) = (ss.filter isData).flatMap (·.writeSubheader b) := by
  rw [List.filter_map, List.flatMap_map, ← filter_isSdu h]
  rfl

/-- With longer padding its subheader comes last. -/
theorem Tracked.headerBytes_multibyte (h : Tracked pdu)
    (hfill : ∀ s ∈ inUse pdu, isUnfilled s = false) (hm : pdu.multibytePadding = true) :
    pdu.headerBytes = headersOf (outline pdu) := by
  have hsdus : (if pdu.lastSduIdx.isNone then [] else
      ((flagged pdu).filter fun p => p.1.isSdu).flatMap fun p => p.1.writeSubheader p.2)
      = (datas pdu).flatMap (·.writeSubheader false) := by
    rcases h.lastSdu_cases with ⟨hnone, hall⟩ | ⟨front, s, back, -, hlast, -⟩
    · rw [hnone, datas, filter_isData_eq_nil hall]
      rfl
    · rw [hlast, flagged_plain (.inl hm), filter_flagged hfill]
      rfl
  rw [headerBytes_parts, ceHeaders_eq (.inr hm), hsdus, if_pos hm, outline, if_pos hm,
    headersOf_concat, List.flatMap_append, List.flatMap_append]

/-- Without longer padding the last SDU comes last. -/
theorem headerBytes_data {front back : List SchSubh} {s : SchSubh}
    (hfill : ∀ s ∈ inUse pdu, isUnfilled s = false) (hm : pdu.multibytePadding = false)
    (huse : inUse pdu = front ++ s :: back) (hlast : pdu.lastSduIdx = some front.length)
    (hs : isData s = true) (hback : ∀ t ∈ back, isData t = false) :
    pdu.headerBytes = headersOf (outline pdu) := by
  have hdatas : datas pdu = front.filter isData ++ [s] := by
    rw [datas, huse, List.filter_append, List.filter_cons_of_pos hs, filter_isData_eq_nil hback]
  have hfront : ∀ t ∈ front, isUnfilled t = false := fun t ht =>
    hfill t (by rw [huse]; exact List.mem_append_left _ ht)
  have hbackFill : ∀ t ∈ back, isUnfilled t = false := fun t ht =>
    hfill t (by rw [huse]; exact List.mem_append_right _ (List.mem_cons_of_mem _ ht))
  have hsdu : s.isSdu = true := (Bool.and_eq_true_iff.mp hs).1
  have hsdus : (if pdu.lastSduIdx.isNone then [] else
      ((flagged pdu).filter fun p => p.1.isSdu).flatMap fun p => p.1.writeSubheader p.2)
      = (front.filter isData).flatMap (·.writeSubheader false) ++ s.writeSubheader true := by
    rw [hlast, flagged_last hm huse hlast, List.filter_append,
      List.filter_cons_of_pos (p := fun p : SchSubh × Bool => p.1.isSdu) hsdu, List.flatMap_append,
      List.flatMap_cons, filter_flagged hfront, filter_flagged hbackFill,
      filter_isData_eq_nil hback]
    simp
  have hne : ¬pdu.multibytePadding = true := by simp [hm]
  rw [headerBytes_parts, ceHeaders_eq (.inl (by rw [hlast]; rfl)), hsdus, if_neg hne, outline,
    if_neg hne, List.append_nil, List.append_nil, hdatas, ← List.append_assoc, ← List.append_assoc,
    headersOf_concat, List.flatMap_append, List.flatMap_append]

/-- `write_packet` writes the outline of a PDU, when no subheader was left unfilled and something
comes behind padding of one or two bytes. -/
theorem Tracked.headerBytes_eq (h : Tracked pdu) (hfill : ∀ s ∈ inUse pdu, isUnfilled s = false)
    (hne : inUse pdu ≠ [] ∨ pdu.multibytePadding = true) :
    pdu.headerBytes = headersOf (outline pdu) := by
  cases hm : pdu.multibytePadding with
  | true => exact h.headerBytes_multibyte hfill hm
  | false =>
    rcases h.lastSdu_cases with ⟨hnone, hall⟩ | ⟨front, s, back, huse, hlast, hs, hback, -⟩
    · -- Control elements only, and the last one has no E bit.
      have hce : ∀ s ∈ inUse pdu, isCe s = true := by
        intro s hs
        by_contra hce
        have hunfilled := isUnfilled_iff.mpr ⟨by simpa using hce, hall s hs⟩
        rw [hfill s hs] at hunfilled
        cases hunfilled
      obtain ⟨front, s, huse⟩ : ∃ front s, inUse pdu = front ++ [s] := by
        have hne := hne.resolve_right (by simp [hm])
        rcases List.eq_nil_or_concat (inUse pdu) with hnil | ⟨front, s, hconcat⟩
        · exact absurd hnil hne
        · exact ⟨front, s, by rw [hconcat, List.concat_eq_append]⟩
      have hcount : pdu.nofSubheaders = front.length + 1 := by
        rw [← h.length_inUse, huse, List.length_append, List.length_singleton]
      have hces : ces pdu = front ++ [s] := by
        rw [ces, List.filter_eq_self.mpr hce, huse]
      have hne : ¬pdu.multibytePadding = true := by simp [hm]
      rw [headerBytes_parts, ceHeaders_last hnone hm huse hcount hce, outline, if_neg hne, hnone,
        if_neg hne, hces, huse, datas, filter_isData_eq_nil hall, Option.isNone_none, if_pos rfl,
        List.append_nil, List.append_nil, List.append_nil, List.append_nil, ← List.append_assoc,
        headersOf_concat, headersOf_concat, List.flatMap_append, List.append_assoc]
    · exact headerBytes_data hfill hm huse hlast hs hback

end

/-! ### Lengths -/

/-- A subheader is as long as `get_header_size` says. -/
theorem length_writeSubheader (s : SchSubh) (isLast : Bool) :
    (s.writeSubheader isLast).length = s.getHeaderSize isLast := by
  unfold SchSubh.writeSubheader SchSubh.getHeaderSize sizeHeaderSdu
  cases isLast with
  | true => simp
  | false =>
    cases s.isSdu with
    | false => rfl
    | true =>
      by_cases hn : s.nofBytes < 128
      · simp [hn, Nat.not_le_of_lt hn]
      · simp [hn, Nat.le_of_not_lt hn]

/-- The subheader of a control element has one byte. -/
theorem getHeaderSize_ce {s : SchSubh} (hs : s.isSdu = false) (isLast : Bool) :
    s.getHeaderSize isLast = 1 := by
  rw [SchSubh.getHeaderSize, hs]
  cases isLast <;> rfl

/-- Subheaders of control elements have one byte each. -/
theorem sum_getHeaderSize_ce {τ : Type} {l : List τ} {s : τ → SchSubh}
    (h : ∀ x ∈ l, (s x).isSdu = false) (isLast : τ → Bool) :
    (l.map fun x => (s x).getHeaderSize (isLast x)).sum = l.length := by
  induction l with
  | nil => rfl
  | cons x l ih =>
    rw [List.map_cons, List.sum_cons, getHeaderSize_ce (h x (List.mem_cons_self ..)),
      ih fun y hy => h y (List.mem_cons_of_mem _ hy), List.length_cons]
    omega

/-- A sum over a list is one over two halves of it. -/
theorem sum_map_filter_not {τ : Type} (p : τ → Bool) (f : τ → Nat) (l : List τ) :
    ((l.filter fun x => !p x).map f).sum + ((l.filter p).map f).sum = (l.map f).sum := by
  rw [← List.sum_append, ← List.map_append]
  exact (((List.perm_append_comm).trans (List.filter_append_perm p l)).map f).sum_nat

section
variable {pdu : SchPdu}

/-- The subheaders of SDUs, as `write_packet` writes them. -/
def sduHeaderBytes (pdu : SchPdu) : Bytes :=
  if pdu.lastSduIdx.isNone then [] else
    ((flagged pdu).filter fun p => p.1.isSdu).flatMap fun p => p.1.writeSubheader p.2

/-- The part of `header_sz` for SDUs. -/
def sduHeaderSz (pdu : SchPdu) : Nat :=
  (((flagged pdu).filter fun p => p.1.isSdu).map fun p => p.1.getHeaderSize p.2).sum

/-- What `write_packet` writes in front of the payloads differs from `header_sz` only in the
subheaders of SDUs. -/
theorem length_headerBytes_add (pdu : SchPdu) :
    pdu.headerBytes.length + sduHeaderSz pdu = pdu.headerSz + (sduHeaderBytes pdu).length := by
  have hces : (ceHeaders pdu).length = (pdu.indexed.filter fun p => !p.1.isSdu).length := by
    rw [ceHeaders, List.length_flatMap]
    simp only [length_writeSubheader]
    exact sum_getHeaderSize_ce (fun p hp => by simpa using (List.mem_filter.mp hp).2) _
  have hsplit := sum_map_filter_not (fun p : SchSubh × Bool => p.1.isSdu)
    (fun p => p.1.getHeaderSize p.2) (flagged pdu)
  have hceLen : (((flagged pdu).filter fun p => !p.1.isSdu).map fun p =>
      p.1.getHeaderSize p.2).sum = (pdu.indexed.filter fun p => !p.1.isSdu).length := by
    rw [sum_getHeaderSize_ce (fun p hp => by simpa using (List.mem_filter.mp hp).2), flagged,
      List.filter_map, List.length_map]
    rfl
  -- Both are sums over the subheaders. The writer puts control elements first, the size does not.
  rw [headerSz_eq, headerBytes_parts, ← sduHeaderBytes]
  simp only [List.length_append, hces, List.length_flatMap, length_writeSubheader,
    List.map_replicate, List.sum_replicate_nat, sduHeaderSz]
  cases hm : pdu.multibytePadding with
  | true =>
    have hzero : pdu.onetwoPadding = 0 := if_pos (of_decide_eq_true hm)
    have hone : ((paddingSubh pdu.paddingLen).writeSubheader true).length = 1 := rfl
    simp only [if_true, hzero, hone]
    omega
  | false =>
    have hone : (paddingSubh 0).getHeaderSize false = 1 := rfl
    simp only [hone, List.length_nil, Bool.false_eq_true, if_false]
    omega

/-- The subheaders of SDUs take the bytes counted for them. -/
theorem length_sduHeaderBytes (hsome : pdu.lastSduIdx.isNone = false) :
    (sduHeaderBytes pdu).length = sduHeaderSz pdu := by
  rw [sduHeaderBytes, sduHeaderSz, hsome, if_neg Bool.false_ne_true, List.length_flatMap]
  simp only [length_writeSubheader]

/-- `header_sz` is the length of what `write_packet` writes in front of the payloads. -/
theorem Tracked.length_headerBytes (h : Tracked pdu)
    (hfill : ∀ s ∈ inUse pdu, isUnfilled s = false) : pdu.headerBytes.length = pdu.headerSz := by
  have hsdus : (sduHeaderBytes pdu).length = sduHeaderSz pdu := by
    rcases h.lastSdu_cases with ⟨hnone, hall⟩ | ⟨front, s, back, -, hlast, -⟩
    · have hnil : ((flagged pdu).filter fun p => p.1.isSdu) = [] := by
        rw [flagged_plain (.inr hnone), List.filter_map, List.map_eq_nil_iff]
        exact (filter_isSdu hfill).trans (filter_isData_eq_nil hall)
      rw [sduHeaderBytes, sduHeaderSz, hnone, hnil]
      rfl
    · exact length_sduHeaderBytes (by rw [hlast]; rfl)
  have hadd := length_headerBytes_add pdu
  omega

/-- Without an SDU a subheader that was left open is not written. -/
theorem length_headerBytes_le (pdu : SchPdu) : pdu.headerBytes.length ≤ pdu.headerSz := by
  have hadd := length_headerBytes_add pdu
  cases hnone : pdu.lastSduIdx.isNone with
  | false =>
    have hsdus := length_sduHeaderBytes hnone
    omega
  | true =>
    have hempty : sduHeaderBytes pdu = [] := by rw [sduHeaderBytes, hnone, if_pos rfl]
    rw [hempty, List.length_nil] at hadd
    omega

end

section
variable {pdu : SchPdu}

/-- A control element as a setter for this direction leaves it. -/
def OfDirection (isUl : Bool) (s : SchSubh) : Prop :=
  isCe s = true →
    0 < s.nofBytes ∧ sizeofCe s.lcid isUl = s.nofBytes ∧ s.nofBytes ≤ s.wPayloadCe.length

/-- The control elements of a PDU, with their types. -/
def ceElements (pdu : SchPdu) : List (Nat × Bytes) :=
  (ces pdu).map fun s => (s.lcid, s.wPayloadCe.take s.nofBytes)

/-- The control elements are written as the setters left them. -/
theorem ceBytes_eq (hdir : ∀ s ∈ inUse pdu, OfDirection pdu.pduIsUl s) :
    pdu.ceBytes = (ceElements pdu).flatMap (·.2) := by
  have hfst : (inUse pdu).zipIdx.map Prod.fst = inUse pdu := List.zipIdx_map_fst 0 _
  have hces : pdu.ceBytes = (ces pdu).flatMap (·.writePayload pdu.pduIsUl) := by
    rw [ces, ← hfst, List.filter_map, List.flatMap_map]
    rfl
  rw [hces, ceElements, List.flatMap_map, List.flatMap_def, List.flatMap_def]
  refine congrArg List.flatten (List.map_congr_left fun s hs => ?_)
  obtain ⟨hmem, hce⟩ := List.mem_filter.mp hs
  rw [SchSubh.writePayload, (hdir s hmem hce).2.1]

/-- They take the bytes counted for them. -/
theorem length_ceBytes (hdir : ∀ s ∈ inUse pdu, OfDirection pdu.pduIsUl s) :
    pdu.ceBytes.length = pdu.cePayloadSz := by
  rw [ceBytes_eq hdir, cePayloadSz_eq, cePayload, ceElements, List.length_flatMap, List.map_map]
  refine congrArg List.sum (List.map_congr_left fun s hs => ?_)
  obtain ⟨hmem, hce⟩ := List.mem_filter.mp hs
  show (s.wPayloadCe.take s.nofBytes).length = s.nofBytes
  rw [List.length_take, Nat.min_eq_left (hdir s hmem hce).2.2]

/-- Subheaders, control elements, SDUs and padding, one after the other. -/
def packet (pdu : SchPdu) : Bytes :=
  pdu.headerBytes ++ pdu.ceBytes ++ pdu.sdus ++ List.replicate pdu.paddingLen 0

/-- What `write_packet` returns is subheaders, control elements, SDUs and padding. -/
theorem eq_packet_of_writeChecked {bytes : Bytes} (h : pdu.writeChecked = some bytes) :
    bytes = packet pdu := by
  rw [SchPdu.writeChecked] at h
  split at h
  · cases h
  split at h
  · cases h
  split at h
  · cases h
  exact (Option.some.inj h).symm

/-- When all subheaders are filled, none is counted as unfilled. -/
theorem unfilledCount_eq_zero (hfill : ∀ s ∈ inUse pdu, isUnfilled s = false) :
    unfilledCount (inUse pdu) = 0 := by
  rw [unfilledCount, List.filter_eq_nil_iff.mpr fun s hs => by simp [hfill s hs]]
  rfl

/-- The length of what `write_packet` returns, also when `rem_len` is wrong. -/
theorem Tracked.length_packet (h : Tracked pdu) (hfill : ∀ s ∈ inUse pdu, isUnfilled s = false)
    (hdir : ∀ s ∈ inUse pdu, OfDirection pdu.pduIsUl s) :
    (packet pdu).length = pdu.remLen + spaceUsed (inUse pdu) := by
  have hsize := h.writeSize_eq
  rw [unfilledCount_eq_zero hfill] at hsize
  rw [packet, List.length_append, List.length_append, List.length_append, List.length_replicate,
    h.length_headerBytes hfill, length_ceBytes hdir]
  omega

/-- Without an unfilled subheader `write_packet` gives up only when subheaders and control elements
do not fit in front of the SDUs. -/
theorem Accounted.writeChecked_eq (h : Accounted pdu)
    (hfill : ∀ s ∈ inUse pdu, isUnfilled s = false)
    (hdir : ∀ s ∈ inUse pdu, OfDirection pdu.pduIsUl s) :
    pdu.writeChecked = if pdu.sduOffsetStart ≤ pdu.cePayloadSz + pdu.headerSz then none
      else some (packet pdu) := by
  have hsmall := h.small
  have hspace := h.space
  have hsize := h.writeSize_eq
  rw [unfilledCount_eq_zero hfill] at hsize
  have hlen : (pdu.headerBytes ++ pdu.ceBytes).length = pdu.headerSz + pdu.cePayloadSz := by
    rw [List.length_append, h.length_headerBytes hfill, length_ceBytes hdir]
  rw [SchPdu.writeChecked, hlen]
  rw [Nat.mod_eq_of_lt (show pdu.cePayloadSz + pdu.headerSz < 2 ^ 32 by omega),
    Nat.mod_eq_of_lt (show pdu.headerSz + pdu.cePayloadSz < 2 ^ 32 by omega)]
  refine if_congr Iff.rfl rfl ?_
  rw [if_neg, if_neg (fun hne => hne rfl)]
  · rfl
  · rw [not_not, Nat.mod_eq_of_lt (by omega)]
    omega

/-- With an unfilled subheader it always does. -/
theorem Accounted.writeChecked_unfilled (h : Accounted pdu) (hpos : 0 < unfilledCount (inUse pdu))
    (hlt : 2 * unfilledCount (inUse pdu) < 2 ^ 32) : pdu.writeChecked = none := by
  have hsmall := h.small
  have hspace := h.space
  have hsize := h.writeSize_eq
  have hne : (pdu.paddingLen + pdu.headerSz + pdu.cePayloadSz + pdu.sdus.length) % 2 ^ 32
      ≠ pdu.pduLen := by
    rw [hsize]
    omega
  rw [SchPdu.writeChecked, if_pos hne]
  exact ite_self _

/-! ### The empty last subheader -/

/-- The last subheader in use is at the index below the count. -/
theorem Tracked.subh_last (h : Tracked pdu) {ss : List SchSubh} {s : SchSubh}
    (huse : inUse pdu = ss ++ [s]) :
    pdu.nofSubheaders = ss.length + 1 ∧ pdu.subh ss.length = s := by
  refine ⟨?_, ?_⟩
  · rw [← h.length_inUse, huse, List.length_append, List.length_singleton]
  · rw [SchPdu.subh, ← inUse_append_spare, huse, List.append_assoc, List.getD_eq_getElem?_getD,
      List.getElem?_append_right (Nat.le_refl _), Nat.sub_self]
    rfl

/-- Any other last subheader stays. -/
theorem Tracked.removeEmptyLast_filled (h : Tracked pdu)
    (hlast : ∀ ss s, inUse pdu = ss ++ [s] → isUnfilled s = false)
    (hdir : ∀ s ∈ inUse pdu, OfDirection pdu.pduIsUl s) : pdu.removeEmptyLast = pdu := by
  rw [SchPdu.removeEmptyLast, if_neg]
  rintro ⟨hpos, hzero⟩
  have hne : inUse pdu ≠ [] := by
    intro hnil
    rw [← h.length_inUse, hnil] at hpos
    exact absurd hpos (Nat.lt_irrefl 0)
  obtain ⟨ss, s, huse⟩ := (List.eq_nil_or_concat (inUse pdu)).resolve_left hne
  rw [List.concat_eq_append] at huse
  obtain ⟨hcount, hsubh⟩ := h.subh_last huse
  rw [hcount, Nat.add_sub_cancel, hsubh] at hzero
  -- Neither a control element nor an SDU has length zero.
  cases hsdu : s.isSdu with
  | false =>
    have hmem : s ∈ inUse pdu := by
      rw [huse]; exact List.mem_append_right _ (List.mem_singleton_self s)
    have hce : isCe s = true := by rw [isCe, hsdu]; rfl
    have hsize := (hdir s hmem hce).1
    omega
  | true =>
    have hunfilled : isUnfilled s = true := by rw [isUnfilled, hsdu, hzero]; rfl
    rw [hlast ss s huse] at hunfilled
    cases hunfilled

end

end SrsUE.Proofs.Mac
