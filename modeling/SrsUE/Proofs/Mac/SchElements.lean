import SrsUE.Proofs.Mac.SchFrame

/-!
# `SrsUE.Proofs.Mac.SchElements`: the elements in a MAC PDU

`Carries` says which elements a PDU under assembly holds, in the order of insertion. Subheaders that
were opened and not filled hold none. When there are none of these, `write_packet` writes the frame
of `elements`: padding of one or two bytes, the control elements, the SDUs, longer padding
(`packet_eq_frame`). `parse_packet` on the result finds the control elements and then the SDUs
(`Carries.received_packet`).
-/

set_option autoImplicit false

namespace SrsUE.Proofs.Mac

open SrsUE.Mac
open SrsUE.Rlc (Bytes sub32 sub32_of_le)

/-! ### What a PDU holds -/

/-- A subheader without the payload of a control element. -/
def bare (s : SchSubh) : SchSubh := { lcid := s.lcid, nofBytes := s.nofBytes }

/-- An SDU, in contrast to a control element or padding. -/
def isSduElement (x : Nat × Bytes) : Bool := decide (x.1 < lcidPhrReport)

/-- The subheaders that were filled. -/
def filled (pdu : SchPdu) : List SchSubh := (inUse pdu).filter fun s => !isUnfilled s

/-- The PDU holds the elements `xs`, inserted in this order. -/
structure Carries (pdu : SchPdu) (xs : List (Nat × Bytes)) : Prop where
  subhs : (filled pdu).map bare = xs.map subhOf
  ces : ceElements pdu = xs.filter fun x => !isSduElement x
  sdus : pdu.sdus = (xs.filter isSduElement).flatMap (·.2)

/-- A new PDU carries nothing. -/
theorem carries_initTx (maxSubheaders pduLen : Nat) (isUl : Bool) :
    Carries (initTx maxSubheaders pduLen isUl) [] := ⟨rfl, rfl, rfl⟩

section
variable {pdu : SchPdu} {s : SchSubh} {xs : List (Nat × Bytes)}

/-- What a PDU carries is in its subheaders and its SDUs. -/
theorem Carries.congr {pdu' : SchPdu} (hc : Carries pdu xs) (hfilled : filled pdu' = filled pdu)
    (hces : Mac.ces pdu' = Mac.ces pdu) (hsdus : pdu'.sdus = pdu.sdus) : Carries pdu' xs where
  subhs := by rw [hfilled]; exact hc.subhs
  ces := by rw [ceElements, hces]; exact hc.ces
  sdus := by rw [hsdus]; exact hc.sdus

/-- A control element is filled. -/
theorem not_isUnfilled_of_isCe (h : isCe s = true) : isUnfilled s = false := by
  rw [Bool.eq_false_iff]
  intro hs
  rw [(isUnfilled_iff.mp hs).1] at h
  cases h

/-- So is an SDU with data. -/
theorem not_isUnfilled_of_isData (h : isData s = true) : isUnfilled s = false := by
  rw [Bool.eq_false_iff]
  intro hs
  rw [(isUnfilled_iff.mp hs).2] at h
  cases h

/-- A control element is carried behind the others. -/
theorem Carries.pushCe (h : Tracked pdu) (hc : Carries pdu xs) {lcid : Nat}
    (hlcid : lcidPhrReport ≤ lcid) (payload : Bytes) :
    Carries (pushCe pdu s lcid payload) (xs ++ [(lcid, payload)]) := by
  have hce := isCe_withCe hlcid payload (s := s)
  have huse : inUse (Mac.pushCe pdu s lcid payload) = inUse pdu ++ [withCe s lcid payload] :=
    h.inUse_push _
  have hkind : isSduElement (lcid, payload) = false := decide_eq_false (by omega)
  refine ⟨?_, ?_, ?_⟩
  · rw [filled, huse, List.filter_append, List.map_append, List.map_append]
    rw [List.filter_cons_of_pos (by rw [not_isUnfilled_of_isCe hce]; rfl)]
    exact congrArg (· ++ _) hc.subhs
  · have htake : (withCe s lcid payload).wPayloadCe.take payload.length = payload := List.take_left
    rw [ceElements, Mac.ces, huse, List.filter_append, List.filter_cons_of_pos hce, List.map_append,
      List.filter_append, List.filter_cons_of_pos (by rw [hkind]; rfl)]
    refine congrArg₂ (· ++ ·) hc.ces ?_
    show [(lcid, (withCe s lcid payload).wPayloadCe.take payload.length)] = _
    rw [htake]
    rfl
  · rw [List.filter_append, List.filter_cons_of_neg (by rw [hkind]; exact Bool.false_ne_true)]
    show pdu.sdus = _
    rw [List.filter_nil, List.append_nil]
    exact hc.sdus

/-- So is an SDU. -/
theorem Carries.pushSdu (h : Tracked pdu) (hc : Carries pdu xs) {lcid : Nat}
    (hlcid : lcid < lcidPhrReport) {payload : Bytes} (hne : 0 < payload.length) :
    Carries (pushSdu pdu s lcid payload) (xs ++ [(lcid, payload)]) := by
  have hdata : isData (withSdu s lcid payload.length) = true := isData_withSdu hlcid hne
  have huse : inUse (Mac.pushSdu pdu s lcid payload)
      = inUse pdu ++ [withSdu s lcid payload.length] := h.inUse_push _
  have hkind : isSduElement (lcid, payload) = true := decide_eq_true hlcid
  refine ⟨?_, ?_, ?_⟩
  · rw [filled, huse, List.filter_append, List.map_append, List.map_append]
    rw [List.filter_cons_of_pos (by rw [not_isUnfilled_of_isData hdata]; rfl)]
    exact congrArg (· ++ _) hc.subhs
  · rw [ceElements, Mac.ces, huse, List.filter_append,
      List.filter_cons_of_neg (by rw [isCe_of_isData hdata]; exact Bool.false_ne_true),
      List.filter_append, List.filter_cons_of_neg (by rw [hkind]; exact Bool.false_ne_true)]
    simp only [List.filter_nil, List.append_nil]
    exact hc.ces
  · rw [List.filter_append, List.filter_cons_of_pos hkind, List.flatMap_append, ← hc.sdus]
    exact congrArg (pdu.sdus ++ ·) (List.append_nil payload).symm

end

/-! ### The frame that goes out -/

/-- The elements of the PDU in the order in which they go out. -/
def elements (pdu : SchPdu) (xs : List (Nat × Bytes)) : List (Nat × Bytes) :=
  List.replicate pdu.onetwoPadding (lcidPadding, []) ++ xs.filter (fun x => !isSduElement x)
    ++ xs.filter isSduElement
    ++ (if pdu.multibytePadding then [(lcidPadding, List.replicate pdu.paddingLen 0)] else [])

/-- The lengths that the setters accept: those of the control elements of the direction, and for
SDUs what fits a length field. -/
def ValidElement (isUl : Bool) (x : Nat × Bytes) : Prop :=
  0 < x.2.length ∧ Framed isUl x

section
variable {pdu : SchPdu} {xs : List (Nat × Bytes)}

/-- A subheader is written without the payload. -/
theorem writeSubheader_bare (s : SchSubh) (isLast : Bool) :
    (bare s).writeSubheader isLast = s.writeSubheader isLast := rfl

/-- So is a header. -/
theorem headersOf_bare (ss : List SchSubh) : headersOf (ss.map bare) = headersOf ss := by
  induction ss with
  | nil => rfl
  | cons s ss ih =>
    cases ss with
    | nil => rfl
    | cons t ss =>
      rw [List.map_cons, List.map_cons, headersOf, headersOf, writeSubheader_bare, ← ih]
      rfl

/-- When all subheaders are filled, they are those in use. -/
theorem filled_eq (hfill : ∀ s ∈ inUse pdu, isUnfilled s = false) : filled pdu = inUse pdu :=
  List.filter_eq_self.mpr fun s hs => by rw [hfill s hs]; rfl

/-- The subheaders of a kind are those of the elements of that kind. -/
theorem Carries.filter_subhs (hc : Carries pdu xs)
    (hfill : ∀ s ∈ inUse pdu, isUnfilled s = false) {p : SchSubh → Bool} {q : Nat × Bytes → Bool}
    (hp : ∀ s, p (bare s) = p s) (hq : ∀ x ∈ xs, p (subhOf x) = q x) :
    ((inUse pdu).filter p).map bare = (xs.filter q).map subhOf := by
  have hsubhs := hc.subhs
  rw [filled_eq hfill] at hsubhs
  have hleft : ((inUse pdu).filter p).map bare = ((inUse pdu).map bare).filter p := by
    rw [List.filter_map]
    exact congrArg (List.map bare) (List.filter_congr fun s _ => (hp s).symm)
  have hright : (xs.filter q).map subhOf = (xs.map subhOf).filter p := by
    rw [List.filter_map]
    exact congrArg (List.map subhOf) (List.filter_congr fun x hx => (hq x hx).symm)
  rw [hleft, hright, hsubhs]

/-- An element that is no SDU has the subheader of a control element. -/
theorem isCe_subhOf (x : Nat × Bytes) : isCe (subhOf x) = !isSduElement x := rfl

/-- An SDU has the subheader of one. -/
theorem isData_subhOf {x : Nat × Bytes} (hx : 0 < x.2.length) :
    isData (subhOf x) = isSduElement x := by
  have hpos : decide (0 < (subhOf x).nofBytes) = true := decide_eq_true hx
  rw [isData, hpos, Bool.and_true]
  rfl

/-- `write_packet` writes the frame of the elements. -/
theorem Tracked.packet_eq_frame (h : Tracked pdu) (hc : Carries pdu xs)
    (hfill : ∀ s ∈ inUse pdu, isUnfilled s = false)
    (hdir : ∀ s ∈ inUse pdu, OfDirection pdu.pduIsUl s) (hpos : ∀ x ∈ xs, 0 < x.2.length)
    (hne : inUse pdu ≠ [] ∨ pdu.multibytePadding = true) :
    packet pdu = frame (elements pdu xs) := by
  have hces := hc.filter_subhs hfill (fun _ => rfl) fun x _ => isCe_subhOf x
  have hdatas := hc.filter_subhs hfill (fun _ => rfl) fun x hx => isData_subhOf (hpos x hx)
  -- The subheaders are those of the elements, in the order that `write_packet` gives them.
  have houtline : (outline pdu).map bare = (elements pdu xs).map subhOf := by
    rw [outline, elements, List.map_append, List.map_append, List.map_append, List.map_append,
      List.map_append, List.map_append]
    refine congrArg₂ _ (congrArg₂ _ (congrArg₂ _ ?_ hces) hdatas) ?_
    · rw [List.map_replicate, List.map_replicate]
      rfl
    · cases pdu.multibytePadding with
      | false => rfl
      | true =>
        show [paddingSubh pdu.paddingLen] = [subhOf (lcidPadding, List.replicate pdu.paddingLen 0)]
        rw [subhOf, List.length_replicate]
        rfl
  have hpad : (if pdu.multibytePadding then
      [(lcidPadding, List.replicate pdu.paddingLen (0 : UInt8))] else []).flatMap (·.2)
      = List.replicate pdu.paddingLen 0 := by
    cases hm : pdu.multibytePadding with
    | false =>
      have hzero : pdu.paddingLen = 0 := if_neg (of_decide_eq_false hm)
      rw [hzero]
      rfl
    | true => exact List.append_nil _
  have hzeros : (List.replicate pdu.onetwoPadding
      ((lcidPadding, []) : Nat × Bytes)).flatMap (·.2) = [] := by
    simp
  rw [packet, frame, ← houtline, headersOf_bare, h.headerBytes_eq hfill hne, ceBytes_eq hdir,
    hc.ces, hc.sdus, elements, List.flatMap_append, List.flatMap_append, List.flatMap_append, hpad,
    hzeros, List.nil_append]
  simp only [List.append_assoc]

/-- Padding can stand in front of other elements. -/
theorem framed_padding (isUl : Bool) : Framed isUl (lcidPadding, []) := by
  refine ⟨by decide, ?_⟩
  cases isUl <;> decide

/-- No element has the type of padding. -/
theorem lcid_ne_padding {isUl : Bool} {x : Nat × Bytes} (hx : ValidElement isUl x) :
    x.1 ≠ lcidPadding := by
  intro hlcid
  obtain ⟨hpos, -, hlen⟩ := hx
  rw [hlcid, if_neg (by decide)] at hlen
  have hzero : sizeofCe lcidPadding isUl = 0 := by cases isUl <;> rfl
  omega

/-- The elements that go out are those inserted and the padding. -/
theorem length_elements (pdu : SchPdu) (xs : List (Nat × Bytes)) :
    (elements pdu xs).length
      = pdu.onetwoPadding + xs.length + (if pdu.multibytePadding then 1 else 0) := by
  have hsplit := (List.filter_append_perm isSduElement xs).length_eq
  rw [List.length_append] at hsplit
  have hpad : (if pdu.multibytePadding then
      [(lcidPadding, List.replicate pdu.paddingLen (0 : UInt8))] else []).length
      = if pdu.multibytePadding then 1 else 0 := by
    split <;> rfl
  rw [elements, List.length_append, List.length_append, List.length_append, List.length_replicate,
    hpad]
  omega

/-- Every element but a padding of several bytes can stand anywhere. -/
theorem elements_split (hvalid : ∀ x ∈ xs, ValidElement pdu.pduIsUl x)
    (hne : xs ≠ [] ∨ pdu.multibytePadding = true) :
    ∃ front last, elements pdu xs = front ++ [last] ∧
      (∀ x ∈ front, Framed pdu.pduIsUl x) ∧ last.1 < 32 := by
  have hframed : ∀ x ∈ List.replicate pdu.onetwoPadding (lcidPadding, [])
      ++ xs.filter (fun x => !isSduElement x) ++ xs.filter isSduElement, Framed pdu.pduIsUl x := by
    intro x hx
    rcases List.mem_append.mp hx with hx | hx
    · rcases List.mem_append.mp hx with hx | hx
      · rw [List.eq_of_mem_replicate hx]
        exact framed_padding _
      · exact (hvalid x (List.mem_filter.mp hx).1).2
    · exact (hvalid x (List.mem_filter.mp hx).1).2
  -- Padding is the last element if there is any, and otherwise the last one that was put in.
  cases hm : pdu.multibytePadding with
  | true =>
    refine ⟨_, (lcidPadding, List.replicate pdu.paddingLen 0), ?_, hframed, ?_⟩
    · rw [elements, if_pos hm]
    · show lcidPadding < 32
      decide
  | false =>
    have hne := hne.resolve_right (by rw [hm]; exact Bool.false_ne_true)
    have hlen := length_elements pdu xs
    have hpos : 0 < xs.length := List.length_pos_iff.mpr hne
    have heq : elements pdu xs = List.replicate pdu.onetwoPadding (lcidPadding, [])
        ++ xs.filter (fun x => !isSduElement x) ++ xs.filter isSduElement := by
      rw [elements, if_neg (by rw [hm]; exact Bool.false_ne_true), List.append_nil]
    rcases List.eq_nil_or_concat (elements pdu xs) with hnil | ⟨front, last, hconcat⟩
    · rw [hnil, List.length_nil] at hlen
      omega
    · rw [List.concat_eq_append] at hconcat
      rw [← heq, hconcat] at hframed
      refine ⟨front, last, hconcat, fun x hx => hframed x (List.mem_append_left _ hx), ?_⟩
      exact (hframed last (List.mem_append_right _ (List.mem_singleton_self last))).1

/-- Without the padding, the control elements come first and then the SDUs. -/
theorem filter_elements (hvalid : ∀ x ∈ xs, ValidElement pdu.pduIsUl x) :
    (elements pdu xs).filter (fun x => x.1 != lcidPadding)
      = xs.filter (fun x => !isSduElement x) ++ xs.filter isSduElement := by
  have hkeep : ∀ p : Nat × Bytes → Bool,
      (xs.filter p).filter (fun x => x.1 != lcidPadding) = xs.filter p := by
    intro p
    refine List.filter_eq_self.mpr fun x hx => bne_iff_ne.mpr ?_
    exact lcid_ne_padding (hvalid x (List.mem_filter.mp hx).1)
  have hpad : (if pdu.multibytePadding then
      [(lcidPadding, List.replicate pdu.paddingLen (0 : UInt8))] else []).filter
        (fun x => x.1 != lcidPadding) = [] := by
    split <;> rfl
  have hzeros : (List.replicate pdu.onetwoPadding ((lcidPadding, []) : Nat × Bytes)).filter
      (fun x => x.1 != lcidPadding) = [] :=
    List.filter_eq_nil_iff.mpr fun x hx => by rw [List.eq_of_mem_replicate hx]; decide
  rw [elements, List.filter_append, List.filter_append, List.filter_append, hkeep, hkeep, hpad,
    hzeros, List.nil_append, List.append_nil]

/-- `parse_packet` on the PDU finds its elements when there is a slot for every subheader, and
writes behind the end of its slots otherwise. -/
theorem Tracked.parsePacket_packet (h : Tracked pdu) (hc : Carries pdu xs)
    (hfill : ∀ s ∈ inUse pdu, isUnfilled s = false)
    (hdir : ∀ s ∈ inUse pdu, OfDirection pdu.pduIsUl s)
    (hvalid : ∀ x ∈ xs, ValidElement pdu.pduIsUl x) (hne : xs ≠ [] ∨ pdu.multibytePadding = true)
    (hsmall : (packet pdu).length < 2 ^ 32) (slots : Nat) :
    if (elements pdu xs).length ≤ slots then
      ∃ ss, parsePacket slots pdu.pduIsUl (packet pdu) = some ss ∧
        received (packet pdu) (ss.filter fun s => s.lcid != lcidPadding)
          = (xs.filter (fun x => !isSduElement x) ++ xs.filter isSduElement).map sent
    else parsePacket slots pdu.pduIsUl (packet pdu) = none := by
  have huse : inUse pdu ≠ [] ∨ pdu.multibytePadding = true := by
    refine hne.imp_left fun hxs hnil => hxs ?_
    have hsubhs := hc.subhs
    rw [filled_eq hfill, hnil] at hsubhs
    exact List.map_eq_nil_iff.mp hsubhs.symm
  obtain ⟨front, last, hsplit, hfront, hlast⟩ := elements_split hvalid hne
  have hpacket := h.packet_eq_frame hc hfill hdir (fun x hx => (hvalid x hx).1) huse
  rw [hpacket, hsplit] at hsmall ⊢
  rw [List.length_append, List.length_singleton]
  -- The receiver has as many subheaders as it was made with, and padding takes them, too.
  by_cases hslots : front.length + 1 ≤ slots
  · rw [if_pos hslots]
    obtain ⟨ss, hparse, hreceived⟩ := received_parsePacket hfront hlast hsmall hslots
    refine ⟨ss, hparse, ?_⟩
    have hfilter : received (frame (front ++ [last])) (ss.filter fun s => s.lcid != lcidPadding)
        = (received (frame (front ++ [last])) ss).filter fun e => e.1 != lcidPadding := by
      rw [received, received, List.filter_map]
      rfl
    rw [hfilter, hreceived, List.filter_map, ← filter_elements hvalid, hsplit]
    rfl
  · rw [if_neg hslots]
    exact parsePacket_overrun hfront hlast (by omega)

end

end SrsUE.Proofs.Mac
