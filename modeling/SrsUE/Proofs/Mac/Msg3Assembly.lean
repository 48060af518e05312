import SrsUE.Mac.Msg3
import SrsUE.Proofs.Mac.MuxLoss

/-!
# `SrsUE.Proofs.Mac.Msg3Assembly`: Msg3 in its buffer

`sdu_offset_start` is 53, so a PDU of `n` bytes reaches up to index `52 + n` of the buffer it is
assembled in, and the Msg3 buffer has 128 bytes.

* `InsertedInv`: what `pdu_msg` holds during `pdu_get`, also with subheaders that were left open.
* `InsertedInv.inside_writes`: with at most 76 bytes everything is written inside the buffer.
* `ToWrite.at_packet`: the writes of the SDUs and of `write_packet` leave the packet in one piece.
* `ToWrite.isPduOf`: this packet is a MAC PDU of what was inserted.
* `InsertedInv.pduMoveToMsg3`: the two together, behind the `memmove`.
-/

set_option autoImplicit false

namespace SrsUE.Proofs.Mac

open SrsUE.Mac SrsUE.Lib
open SrsUE.Rlc (Bytes sub32 sub32_of_le)

variable {ρ : Type}

/-! ### What `pdu_get` has inserted -/

/-- The control elements that were inserted. -/
def insertedCes (a : Assembly ρ) : List (Nat × Bytes) :=
  (a.ceAttempts.filter (·.inserted)).map fun t => callElement t.call

/-- `pdu_msg` holds the control elements that were inserted and what was read, and perhaps
subheaders that were left open. -/
structure InsertedInv (pduSz : Nat) (a : Assembly ρ) : Prop extends AssemblyInv pduSz a where
  dir : ∀ s ∈ inUse a.pdu, OfDirection a.pdu.pduIsUl s
  held : ∃ xs, Carries a.pdu xs ∧ xs.filter isSduElement = a.reads ∧
    xs.filter (fun x => !isSduElement x) = insertedCes a ∧
    ∀ x ∈ xs, 0 < x.2.length ∧ (isSduElement x = false → Framed true x)

/-- A subheader that is not filled is of any direction. -/
theorem ofDirection_unfilled {s : SchSubh} (hs : isUnfilled s = true) (isUl : Bool) :
    OfDirection isUl s := by
  intro hce
  rw [(isUnfilled_iff.mp hs).1] at hce
  cases hce

/-- So is one with an SDU. -/
theorem ofDirection_data {s : SchSubh} (hs : isData s = true) (isUl : Bool) :
    OfDirection isUl s := by
  intro hce
  rw [isCe_of_isData hs] at hce
  cases hce

/-- An open subheader holds nothing. -/
theorem carries_push_unfilled {pdu : SchPdu} (h : Tracked pdu) {xs : List (Nat × Bytes)}
    (hcarries : Carries pdu xs) {s : SchSubh} (hs : isUnfilled s = true) :
    Carries (push pdu s) xs := by
  have hce : isCe s = false := (isUnfilled_iff.mp hs).1
  refine hcarries.congr ?_ ?_ rfl
  · simp only [filled, h.inUse_push, List.filter_append, List.filter_cons, hs, List.filter_nil,
      Bool.not_true, Bool.false_eq_true, if_false, List.append_nil]
  · simp only [ces, h.inUse_push, List.filter_append, List.filter_cons, hce, List.filter_nil,
      Bool.false_eq_true, if_false, List.append_nil]

section
variable {pduSz : Nat} {a : Assembly ρ} {itf : RlcItf ρ}

/-- At the start nothing is inserted. -/
theorem insertedInv_start (hsz : pduSz < 2 ^ 32) (rlc : ρ) : InsertedInv pduSz
    (.start pduSz rlc) where
  toAssemblyInv := assemblyInv_start hsz rlc
  dir := List.forall_mem_nil _
  held := ⟨[], carries_initTx .., rfl, rfl, List.forall_mem_nil _⟩

/-- One more attempt adds its control element when it succeeds. -/
theorem insertedCes_concat (a : Assembly ρ) (t : CeAttempt) :
    ((a.ceAttempts ++ [t]).filter (·.inserted)).map (fun t => callElement t.call) =
      insertedCes a ++ if t.inserted then [callElement t.call] else [] := by
  rw [List.filter_append, List.map_append, insertedCes]
  cases hins : t.inserted with
  | true => simp [hins]
  | false => simp [hins]

/-- `allocate_sdu` adds the SDU that it reads. -/
theorem InsertedInv.allocateSdu (hitf : Obliging itf) (h : InsertedInv pduSz a) {lcid : Nat}
    (hlcid : lcid < lcidPhrReport) {x : Assembly ρ × Option Nat} (hcase : AllocCase itf a lcid x) :
    InsertedInv pduSz x.1 := by
  have hinv := (h.toAssemblyInv.allocateSdu hlcid hcase).1
  obtain ⟨xs, hcarries, hreads, hces, hlen⟩ := h.held
  cases hcase with
  | skipped rlc => exact ⟨hinv, h.dir, xs, hcarries, hreads, hces, hlen⟩
  | failed s s' rlc reads hroom hs hs' hkept =>
    obtain ⟨huse, hcarries'⟩ := h.accounted.carries_delSubh_push hroom hs' hcarries
    refine ⟨hinv, ?_, xs, hcarries', hreads.trans (hkept hitf).symm, hces, hlen⟩
    show ∀ s ∈ inUse (push a.pdu s').delSubh, OfDirection a.pdu.pduIsUl s
    rw [huse]
    exact h.dir
  | allocated s payload rlc hroom hs hpos hfits =>
    have hsdu : isSduElement (lcid, payload) = true := decide_eq_true hlcid
    refine ⟨hinv, ?_, xs ++ [(lcid, payload)], hcarries.pushSdu h.accounted.toTracked hlcid hpos,
      ?_, ?_, ?_⟩
    · exact forall_inUse_push h.accounted.toTracked h.dir
        (ofDirection_data (isData_withSdu hlcid hpos) _)
    · rw [filter_concat_of_pos hsdu, hreads]
    · exact (filter_concat_of_neg (by rw [hsdu]; rfl)).trans hces
    · exact forall_mem_concat hlen ⟨hpos, fun hce => by rw [hsdu] at hce; cases hce⟩

/-- An attempt adds its control element when it succeeds. -/
theorem InsertedInv.insertCe (h : InsertedInv pduSz a) {c : SetCall} (hc : isSduCall c = false)
    (hvalid : ValidCall true c) {a' : Assembly ρ} (hcase : CeCase a c a') :
    InsertedInv pduSz a' := by
  have hinv := h.toAssemblyInv.insertCe hc hcase
  obtain ⟨xs, hcarries, hreads, hces, hlen⟩ := h.held
  have hconcat : ∀ t : CeAttempt, t.inserted = false →
      insertedCes a = ((a.ceAttempts ++ [t]).filter (·.inserted)).map fun t =>
        callElement t.call := by
    intro t ht
    rw [insertedCes_concat, ht]
    exact (List.append_nil _).symm
  cases hcase with
  | full hroom => exact ⟨hinv, h.dir, xs, hcarries, hreads, hces.trans (hconcat _ rfl), hlen⟩
  | leftOpen s hroom hs hfits =>
    refine ⟨hinv, ?_, xs, ?_, hreads, hces.trans (hconcat _ rfl), hlen⟩
    · exact forall_inUse_push h.accounted.toTracked h.dir (ofDirection_unfilled hs _)
    · exact carries_push_unfilled h.accounted.toTracked hcarries hs
  | inserted s hroom hs hfits =>
    obtain ⟨⟨hpos, hframed⟩, hkind⟩ := validElement_of_call hvalid
    have hlcid := lcid_ce hc
    have hsize := hframed.2
    rw [if_neg (Nat.not_lt.mpr hlcid), ← h.isUl] at hsize
    rw [hc] at hkind
    refine ⟨hinv, ?_, xs ++ [callElement c], hcarries.pushCe h.accounted.toTracked hlcid _, ?_,
      ?_, ?_⟩
    · refine forall_inUse_push h.accounted.toTracked h.dir fun _ => ⟨hpos, hsize, ?_⟩
      show (callElement c).2.length ≤ ((callElement c).2 ++ _).length
      rw [List.length_append]
      omega
    · rw [filter_concat_of_neg hkind, hreads]
    · rw [insertedCes, insertedCes_concat, filter_concat_of_pos (by rw [hkind]; rfl), hces]
      rfl
    · exact forall_mem_concat hlen ⟨hpos, fun _ => hframed⟩

end

/-! ### What `write_packet` writes -/

/-- `pdu_msg` without an empty last subheader, and the elements that it holds. -/
structure ToWrite (pduSz : Nat) (xs : List (Nat × Bytes)) (pdu : SchPdu) :
    Prop extends Accounted pdu where
  dir : ∀ s ∈ inUse pdu, OfDirection pdu.pduIsUl s
  max : pdu.maxSubheaders = maxNofSubheaders
  len : pdu.pduLen = pduSz
  carries : Carries pdu xs
  valid : ∀ x ∈ xs, 0 < x.2.length ∧ (isSduElement x = false → Framed true x)

/-- `write_packet` removes the last subheader exactly if it was left open. -/
theorem removeEmptyLast_cases {pdu : SchPdu} (h : Tracked pdu)
    (hdir : ∀ s ∈ inUse pdu, OfDirection pdu.pduIsUl s) :
    pdu.removeEmptyLast = pdu ∨ ∃ ss s, inUse pdu = ss ++ [s] ∧ isUnfilled s = true ∧
      pdu.removeEmptyLast = pdu.delSubh := by
  by_cases hlast : ∀ ss s, inUse pdu = ss ++ [s] → isUnfilled s = false
  · exact .inl (h.removeEmptyLast_filled hlast hdir)
  · push Not at hlast
    obtain ⟨ss, s, huse, hs⟩ := hlast
    have hunfilled : isUnfilled s = true := by
      cases hval : isUnfilled s with
      | true => rfl
      | false => exact absurd hval hs
    obtain ⟨hcount, hsubh⟩ := h.subh_last huse
    have hzero : s.nofBytes = 0 := of_decide_eq_true (Bool.and_eq_true_iff.mp hunfilled).2
    refine .inr ⟨ss, s, huse, hunfilled, ?_⟩
    rw [SchPdu.removeEmptyLast, if_pos]
    rw [hcount, Nat.add_sub_cancel, hsubh]
    exact ⟨Nat.succ_pos _, hzero⟩

section
variable {pduSz : Nat} {a : Assembly ρ}

/-- What is written holds the SDUs that were read and the control elements that were inserted. -/
theorem InsertedInv.toWrite (h : InsertedInv pduSz a) :
    ∃ xs, ToWrite pduSz xs a.pdu.removeEmptyLast ∧ xs.filter isSduElement = a.reads ∧
      xs.filter (fun x => !isSduElement x) = insertedCes a := by
  obtain ⟨xs, hcarries, hreads, hces, hpos⟩ := h.held
  refine ⟨xs, ?_, hreads, hces⟩
  rcases removeEmptyLast_cases h.accounted.toTracked h.dir with heq | ⟨ss, s, huse, hs, heq⟩
  · rw [heq]
    exact ⟨h.accounted, h.dir, h.max, h.len, hcarries, hpos⟩
  · obtain ⟨hacc, huse'⟩ := h.accounted.delSubh huse hs
    have hce : isCe s = false := (isUnfilled_iff.mp hs).1
    rw [heq]
    refine ⟨hacc, ?_, h.max, h.len, hcarries.congr ?_ ?_ rfl, hpos⟩
    · rw [huse']
      exact fun t ht => h.dir t (by rw [huse]; exact List.mem_append_left _ ht)
    · simp only [filled, huse, huse', List.filter_append, List.filter_cons, hs, List.filter_nil,
        Bool.not_true, Bool.false_eq_true, if_false, List.append_nil]
    · simp only [ces, huse, huse', List.filter_append, List.filter_cons, hce, List.filter_nil,
        Bool.false_eq_true, if_false, List.append_nil]

end

section
variable {pduSz : Nat} {xs : List (Nat × Bytes)} {pdu : SchPdu}

/-- There are 53 bytes in front of the SDUs. -/
theorem ToWrite.sduOffsetStart_eq (h : ToWrite pduSz xs pdu) : pdu.sduOffsetStart = 53 :=
  sduOffsetStart_of_max h.max

/-- The SDUs leave a byte for the last subheader. -/
theorem ToWrite.sdus_lt (h : ToWrite pduSz xs pdu) :
    pdu.sdus = [] ∨ pdu.sdus.length + 1 ≤ pduSz := by
  have hspace := h.space
  have hsdus := h.sdus
  rw [h.len, spaceUsed] at hspace
  cases hsizes : dataSizes (inUse pdu) with
  | nil =>
    rw [hsizes] at hsdus
    exact .inl (List.length_eq_zero_iff.mp hsdus)
  | cons n ns =>
    have hheaders : 1 ≤ sduHeaders (n :: ns) := by
      cases ns with
      | nil => exact Nat.le_refl 1
      | cons m ns =>
        have := two_le_sizeHeaderSdu n
        rw [sduHeaders]
        omega
    rw [hsizes] at hsdus hspace
    exact .inr (by omega)

/-- Not all subheaders are unfilled. -/
theorem ToWrite.unfilledCount_lt (h : ToWrite pduSz xs pdu) :
    unfilledCount (inUse pdu) < maxNofSubheaders := by
  have hle : unfilledCount (inUse pdu) ≤ (inUse pdu).length := List.length_filter_le ..
  have hcount := h.count
  rw [h.length_inUse] at hle
  rw [h.max] at hcount
  omega

/-- Nothing wraps around in the size of subheaders and control elements. -/
theorem ToWrite.frontSize_mod (h : ToWrite pduSz xs pdu) (hsz : pduSz < 2 ^ 31) :
    (pdu.cePayloadSz + pdu.headerSz) % 2 ^ 32 = pdu.cePayloadSz + pdu.headerSz := by
  have hsize := h.writeSize_eq
  have hspace := h.space
  have hunfilled := h.unfilledCount_lt
  rw [h.len] at hspace
  rw [maxNofSubheaders] at hunfilled
  exact Nat.mod_eq_of_lt (by omega)

/-- Longer padding ends where the PDU does. -/
theorem ToWrite.padding_cases (h : ToWrite pduSz xs pdu) (hpos : 0 < pdu.paddingLen) :
    sub32 pdu.pduLen pdu.paddingLen + pdu.paddingLen = pduSz ∧ 1 ≤ pdu.headerSz := by
  have hmulti : pdu.multibytePadding = true := by
    by_contra hnot
    have hrem : ¬2 < pdu.remLen := fun hrem => hnot (decide_eq_true hrem)
    rw [SchPdu.paddingLen, if_neg hrem] at hpos
    exact Nat.lt_irrefl 0 hpos
  have hpadding := h.paddingLen_add hmulti
  have hspace := h.space
  have hlen := h.len
  rw [headerSz_multibyte hmulti, sub32_of_le (by omega)]
  omega

/-- With at most 76 bytes `write_packet` stays inside. -/
theorem ToWrite.inside_checkedWrites (h : ToWrite pduSz xs pdu) (hsz : pduSz ≤ 76) :
    ∀ w ∈ pdu.checkedWrites, Inside msg3BuffSz w := by
  have hmod := h.frontSize_mod (by omega)
  have hheader := length_headerBytes_le pdu
  have hce := length_ceBytes h.dir
  rw [SchPdu.checkedWrites, SchPdu.pduStart, h.sduOffsetStart_eq, hmod]
  unfold Inside msg3BuffSz
  split
  · exact List.forall_mem_nil _
  · rw [List.forall_mem_cons]
    refine ⟨?_, ?_⟩
    · rw [List.length_append]
      omega
    · split
      · rename_i hpos
        have hpadding := h.padding_cases hpos
        rw [List.forall_mem_singleton, List.length_replicate]
        omega
      · exact List.forall_mem_nil _

/-- A packet is returned only if no subheader was left open. -/
theorem ToWrite.fill (h : ToWrite pduSz xs pdu) {bytes : Bytes}
    (hwrite : pdu.writeChecked = some bytes) :
    ∀ s ∈ inUse pdu, isUnfilled s = false := by
  have hunfilled := h.unfilledCount_lt
  rw [maxNofSubheaders] at hunfilled
  have hzero : unfilledCount (inUse pdu) = 0 := by
    by_contra hne
    rw [h.writeChecked_unfilled (Nat.pos_of_ne_zero hne) (by omega)] at hwrite
    cases hwrite
  intro s hs
  exact Bool.eq_false_iff.mpr (List.filter_eq_nil_iff.mp (List.length_eq_zero_iff.mp hzero) s hs)

/-- What `write_packet` returns is as long as the grant. -/
theorem ToWrite.length_bytes (h : ToWrite pduSz xs pdu) {bytes : Bytes}
    (hwrite : pdu.writeChecked = some bytes) : bytes.length = pduSz := by
  rw [eq_packet_of_writeChecked hwrite, h.length_packet (h.fill hwrite) h.dir, h.space, h.len]

/-- The packet is inside too. -/
theorem ToWrite.pduStart_add_le (h : ToWrite pduSz xs pdu) {bytes : Bytes}
    (hwrite : pdu.writeChecked = some bytes) (hsz : pduSz ≤ 76) :
    pdu.pduStart + pduSz ≤ msg3BuffSz ∧ pdu.pduStart + (pdu.headerBytes ++ pdu.ceBytes).length
      = 53 := by
  have hlen := h.length_bytes hwrite
  have hbytes := eq_packet_of_writeChecked hwrite
  have hheader := h.length_headerBytes (h.fill hwrite)
  have hce := length_ceBytes h.dir
  have hmod := h.frontSize_mod (by omega)
  have hroom : pdu.cePayloadSz + pdu.headerSz < 53 := by
    rw [SchPdu.writeChecked, h.sduOffsetStart_eq, hmod] at hwrite
    split at hwrite
    · cases hwrite
    · omega
  rw [hbytes, packet, List.length_append, List.length_append, List.length_append,
    List.length_replicate] at hlen
  rw [SchPdu.pduStart, h.sduOffsetStart_eq, hmod, List.length_append, msg3BuffSz]
  refine ⟨?_, by omega⟩
  -- Something stands in front of the SDUs unless the PDU is empty.
  rcases Nat.eq_zero_or_pos pdu.paddingLen with hzero | hpos
  · rcases h.sdus_lt with hnil | hlt
    · rw [hnil, List.length_nil] at hlen
      omega
    · omega
  · have hpadding := h.padding_cases hpos
    omega

/-- Behind the writes of the SDUs and those of `write_packet` the message holds the packet. -/
theorem ToWrite.at_packet (h : ToWrite pduSz xs pdu) {bytes : Bytes}
    (hwrite : pdu.writeChecked = some bytes) (hsz : pduSz ≤ 76) {buf buf' : Bytes}
    (hsdus : At buf 53 pdu.sdus) (hbuf : writeAll buf pdu.checkedWrites = some buf') :
    At buf' pdu.pduStart bytes := by
  obtain ⟨-, hstart⟩ := h.pduStart_add_le hwrite hsz
  have hmod := h.frontSize_mod (by omega)
  have hlen := h.length_bytes hwrite
  have hbytes := eq_packet_of_writeChecked hwrite
  have hroom : ¬pdu.sduOffsetStart ≤ (pdu.cePayloadSz + pdu.headerSz) % 2 ^ 32 := by
    intro hfull
    rw [SchPdu.writeChecked, if_pos hfull] at hwrite
    cases hwrite
  rw [SchPdu.checkedWrites, if_neg hroom] at hbuf
  obtain ⟨buf₁, hfront, hrest⟩ := Option.bind_eq_some_iff.mp hbuf
  have hfront₁ := At.writeAt_self hfront
  have hsdus₁ := hsdus.writeAt_other hfront (Or.inr (Nat.le_of_eq hstart))
  have hboth : At buf₁ pdu.pduStart (pdu.headerBytes ++ pdu.ceBytes ++ pdu.sdus) :=
    hfront₁.append (by rw [hstart]; exact hsdus₁)
  rw [hbytes, packet] at hlen ⊢
  rw [List.length_append, List.length_replicate] at hlen
  split at hrest
  · rename_i hpos
    have hpadding := h.padding_cases hpos
    obtain ⟨buf₂, hpad, hnil⟩ := Option.bind_eq_some_iff.mp hrest
    obtain rfl := Option.some.inj hnil
    have hoff : pdu.pduStart + sub32 pdu.pduLen pdu.paddingLen =
        pdu.pduStart + (pdu.headerBytes ++ pdu.ceBytes ++ pdu.sdus).length := by omega
    rw [hoff] at hpad
    exact (hboth.writeAt_other hpad (Or.inl (Nat.le_refl _))).append (At.writeAt_self hpad)
  · rename_i hzero
    obtain rfl := Option.some.inj hrest
    rw [Nat.eq_zero_of_not_pos hzero, List.replicate_zero, List.append_nil]
    exact hboth

/-- `bytes` is a MAC PDU of the elements `xs`: subheaders of one byte for short padding in front of
them, or longer padding behind them. -/
def IsPduOf (bytes : Bytes) (xs : List (Nat × Bytes)) : Prop :=
  ∃ short long, (∀ x ∈ short, x = (lcidPadding, [])) ∧ (∀ x ∈ long, x.1 = lcidPadding) ∧ long.length
    ≤ 1 ∧
    (∀ x ∈ xs, Framed true x) ∧ bytes = frame (short ++ xs ++ long)

/-- In a PDU that the Msg3 buffer holds, every length fits its field. -/
theorem ToWrite.framed (h : ToWrite pduSz xs pdu) (hsz : pduSz ≤ 76) : ∀ x ∈ xs, Framed true x := by
  intro x hx
  cases hkind : isSduElement x with
  | false => exact (h.valid x hx).2 hkind
  | true =>
    have hlcid : x.1 < lcidPhrReport := of_decide_eq_true hkind
    have hle : x.2.length ≤ pdu.sdus.length := by
      rw [h.carries.sdus, List.flatMap_def]
      exact (List.sublist_flatten_of_mem
        (List.mem_map_of_mem (List.mem_filter.mpr ⟨hx, hkind⟩))).length_le
    have hlt : pdu.sdus.length ≤ pduSz := by
      rcases h.sdus_lt with hnil | hlt
      · rw [hnil]
        exact Nat.zero_le _
      · omega
    rw [Framed, if_pos hlcid]
    refine ⟨Nat.lt_trans hlcid (by decide), by omega⟩

/-- The packet is a PDU of the elements, if it is long enough for a padding subheader where there is
nothing else. -/
theorem ToWrite.isPduOf (h : ToWrite pduSz xs pdu) {bytes : Bytes}
    (hwrite : pdu.writeChecked = some bytes) (hsz : pduSz = 0 ∨ 3 ≤ pduSz ∧ pduSz ≤ 76) :
    IsPduOf bytes (xs.filter (fun x => !isSduElement x) ++ xs.filter isSduElement) := by
  have hfill := h.fill hwrite
  have hframed : ∀ x ∈ xs.filter (fun x => !isSduElement x) ++ xs.filter isSduElement,
      Framed true x := by
    intro x hx
    refine h.framed (by omega) x ?_
    rcases List.mem_append.mp hx with hce | hsdu
    · exact (List.mem_filter.mp hce).1
    · exact (List.mem_filter.mp hsdu).1
  by_cases hne : inUse pdu ≠ [] ∨ pdu.multibytePadding = true
  · have hpacket := h.packet_eq_frame h.carries hfill h.dir (fun x hx => (h.valid x hx).1) hne
    refine ⟨List.replicate pdu.onetwoPadding (lcidPadding, []), if pdu.multibytePadding then
      [(lcidPadding, List.replicate pdu.paddingLen 0)] else [], ?_, ?_, ?_, hframed, ?_⟩
    · exact fun x hx => List.eq_of_mem_replicate hx
    · intro x hx
      split at hx
      · rw [List.mem_singleton.mp hx]
      · cases hx
    · split
      · exact Nat.le_refl 1
      · exact Nat.zero_le 1
    · rw [eq_packet_of_writeChecked hwrite, hpacket, elements]
      simp only [List.append_assoc]
  · -- Nothing was inserted, and there is no room for padding with a subheader.
    rw [not_or, not_not] at hne
    obtain ⟨hempty, hshort⟩ := hne
    have hrem : ¬2 < pdu.remLen := fun hrem => hshort (decide_eq_true hrem)
    have hspace := h.space
    have hused : spaceUsed (inUse pdu) = 0 := by
      rw [hempty]
      rfl
    rw [hused, h.len] at hspace
    have hlen := h.length_bytes hwrite
    have hxs : xs = [] := by
      have hsubhs := h.carries.subhs
      rw [filled_eq hfill, hempty] at hsubhs
      exact List.map_eq_nil_iff.mp hsubhs.symm
    refine ⟨[], [], List.forall_mem_nil _, List.forall_mem_nil _, Nat.zero_le 1, hframed, ?_⟩
    rw [hxs]
    exact List.length_eq_zero_iff.mp (by omega)

end

/-! ### Moving and copying -/

section
variable {pduSz : Nat} {out : PduGetOutcome ρ} {b : Msg3Buff}

/-- The assembly writes inside of the Msg3 buffer. -/
theorem InsertedInv.inside_writes (h : InsertedInv pduSz out.assembly) (hsz : pduSz ≤ 76) :
    ∀ w ∈ out.writes, Inside msg3BuffSz w := by
  obtain ⟨xs, hxs, hreads, -⟩ := h.toWrite
  have hflat : (out.assembly.reads.map (·.2)).flatten = out.assembly.pdu.removeEmptyLast.sdus := by
    rw [hxs.carries.sdus, hreads, List.flatMap_def]
  have hoffset := sduOffsetStart_of_max h.max
  intro w hw
  rcases List.mem_append.mp hw with hsdu | hpacket
  · have hend := (le_of_mem_layOut hsdu).2
    rw [hflat, hoffset] at hend
    refine Nat.le_trans hend ?_
    rw [msg3BuffSz]
    rcases hxs.sdus_lt with hnil | hlt
    · rw [hnil, List.length_nil]
      omega
    · omega
  · rw [SchPdu.packetWrites] at hpacket
    split at hpacket
    · cases hpacket
    · exact hxs.inside_checkedWrites hsz w hpacket

/-- With at most 76 bytes the PDU that `pdu_get` returns is at the start of the message
afterwards. -/
theorem InsertedInv.pduMoveToMsg3 (h : InsertedInv pduSz out.assembly)
    (hret : out.ret = out.assembly.pdu.writePacket) (hsz : pduSz ≤ 76)
    (hsize : b.bytes.length = msg3BuffSz) (hb : b.valid = false) :
    ∃ bytes, bytes.length = msg3BuffSz ∧
      ((out.ret = none ∧ b.pduMoveToMsg3 out pduSz = some ({ b with bytes := bytes }, false)) ∨
      ∃ pdu, out.ret = some pdu ∧ At bytes 0 pdu ∧
        b.pduMoveToMsg3 out pduSz
          = some ({ bytes := bytes, valid := true, len := pduSz }, true)) := by
  obtain ⟨xs, hxs, hreads, -⟩ := h.toWrite
  have hinside := h.inside_writes hsz
  rw [← hsize] at hinside
  obtain ⟨bytes₁, hwrites⟩ := writeAll_eq_some_iff.mpr hinside
  have hsize₁ := (length_writeAll hwrites).trans hsize
  rw [Msg3Buff.pduMoveToMsg3, if_neg (by rw [hb]; exact Bool.false_ne_true), hwrites,
    Option.bind_some]
  cases hpdu : out.ret with
  | none => exact ⟨bytes₁, hsize₁, .inl ⟨rfl, rfl⟩⟩
  | some pdu =>
    have hpositive : ¬toInt32 out.assembly.pdu.remLen < 0 := by
      intro hneg
      rw [hret, SchPdu.writePacket, if_pos hneg] at hpdu
      cases hpdu
    have hchecked : out.assembly.pdu.removeEmptyLast.writeChecked = some pdu := by
      rw [hret, SchPdu.writePacket, if_neg hpositive] at hpdu
      exact hpdu
    have hlen := hxs.length_bytes hchecked
    have hin := (hxs.pduStart_add_le hchecked hsz).1
    -- The SDUs were written first, then the rest around them.
    rw [PduGetOutcome.writes, SchPdu.packetWrites, if_neg hpositive, writeAll_append] at hwrites
    obtain ⟨bytes₀, hsdus, hpacket⟩ := Option.bind_eq_some_iff.mp hwrites
    have hat₀ : At bytes₀ 53 out.assembly.pdu.removeEmptyLast.sdus := by
      have hat := At.layOut hsdus
      rw [sduOffsetStart_of_max h.max, ← List.flatMap_def, ← hreads, ← hxs.carries.sdus] at hat
      exact hat
    have hat := hxs.at_packet hchecked hsz hat₀ hpacket
    have hread := hat.readAt (by rw [hlen, hsize₁]; exact hin)
    have hstore : Inside bytes₁.length (0, pdu) := by
      show 0 + pdu.length ≤ bytes₁.length
      rw [hsize₁, hlen, msg3BuffSz]
      omega
    rw [hlen] at hread
    have hmove := writeAt_of_inside hstore
    refine ⟨_, (length_writeAt hmove).trans hsize₁, .inr ⟨pdu, rfl, At.writeAt_self hmove, ?_⟩⟩
    rw [Option.isSome_some, if_pos rfl, hread, Option.bind_some, hmove, Option.map_some]

end

end SrsUE.Proofs.Mac
