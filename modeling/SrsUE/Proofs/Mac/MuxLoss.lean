import SrsUE.Proofs.Mac.MuxAssembly

/-!
# `SrsUE.Proofs.Mac.MuxLoss`: what `pdu_get` keeps of the SDUs

What `read_pdu` returned is gone from RLC, so `pdu_get` has to return a PDU with it. `pdu_get` does
not look at the result of the setters of control elements. A subheader that was opened for one that
does not fit stays in the PDU, and `write_packet` then returns `NULL`. It does so, too, if the
subheaders and control elements do not fit in front of the SDUs.

`lossless_iff_of_inv` says what `Lossless` comes to, by the attempts to insert control elements and
`pdu_msg` at the end. It follows from `LossInv`, which all parts of `pdu_get` keep.
-/

set_option autoImplicit false

namespace SrsUE.Proofs.Mac

open SrsUE.Mac
open SrsUE.Rlc (Bytes)

variable {ρ : Type}

/-! ### Statements -/

/-- The PDU is a frame whose SDUs are these, in their order. -/
def HoldsSdus (bytes : Bytes) (sdus : List (Nat × Bytes)) : Prop :=
  sdus ≠ [] → ∃ front back, (∀ x ∈ front ++ back, isSduElement x = false) ∧
    bytes = frame (front ++ sdus ++ back)

/-- `pdu_get` returns a PDU of the size of the grant with everything that was read, and a control
element that could not be inserted has left `pdu_msg` as it was. -/
structure Lossless (pduSz : Nat) (out : PduGetOutcome ρ) : Prop where
  undone : ∀ t ∈ out.assembly.ceAttempts, t.inserted = false → t.after = t.before
  returned : ∃ bytes, out.ret = some bytes ∧ bytes.length = pduSz ∧
    HoldsSdus bytes out.assembly.reads

/-- The control element fits into what is left, if there is a subheader for it. -/
def CeFits (t : CeAttempt) : Prop :=
  t.before.nofSubheaders + 1 < t.before.maxSubheaders →
    (callElement t.call).2.length + 1 ≤ t.before.remLen

/-- The calls for the uplink that insert a control element. -/
def UplinkCe (c : SetCall) : Prop := isSduCall c = false ∧ ValidCall true c

/-! ### One more element -/

section
variable {xs : List (Nat × Bytes)} {x : Nat × Bytes}

/-- An element at the end that is kept. -/
theorem filter_concat_of_pos {p : Nat × Bytes → Bool} (hx : p x = true) :
    (xs ++ [x]).filter p = xs.filter p ++ [x] := by
  rw [List.filter_append, List.filter_cons_of_pos hx, List.filter_nil]

/-- An element at the end that is not. -/
theorem filter_concat_of_neg {p : Nat × Bytes → Bool} (hx : p x = false) :
    (xs ++ [x]).filter p = xs.filter p := by
  rw [List.filter_append, List.filter_cons_of_neg (by rw [hx]; exact Bool.false_ne_true),
    List.filter_nil, List.append_nil]

/-- What holds of a list and of one more element holds of both. -/
theorem forall_mem_concat {α : Type} {P : α → Prop} {ys : List α} {y : α} (hys : ∀ z ∈ ys, P z)
    (hy : P y) :
    ∀ z ∈ ys ++ [y], P z :=
  List.forall_mem_append.mpr ⟨hys, List.forall_mem_singleton.mpr hy⟩

/-- A subheader that was added for an SDU and removed again holds nothing. -/
theorem Accounted.carries_delSubh_push {pdu : SchPdu} (h : Accounted pdu)
    (hroom : pdu.nofSubheaders + 1 < pdu.maxSubheaders) {s : SchSubh} (hs : isUnfilled s = true)
    (hcarries : Carries pdu xs) :
    inUse (push pdu s).delSubh = inUse pdu ∧ Carries (push pdu s).delSubh xs := by
  have huse := ((h.push_unfilled hroom hs).delSubh (h.inUse_push s) hs).2
  exact ⟨huse, hcarries.congr (congrArg (List.filter fun s => !isUnfilled s) huse)
    (congrArg (List.filter isCe) huse) rfl⟩

end

/-! ### The invariant -/

/-- An attempt is undone exactly when its control element fits. While all have fitted, `pdu_msg`
holds the control elements and what was read. -/
structure LossInv (pduSz : Nat) (a : Assembly ρ) : Prop extends AssemblyInv pduSz a where
  undone_iff : ∀ t ∈ a.ceAttempts, (t.inserted = false → t.after = t.before) ↔ CeFits t
  held : (∀ t ∈ a.ceAttempts, CeFits t) → Assembling a.pdu ∧ ∃ xs, Carries a.pdu xs ∧
    xs.filter isSduElement = a.reads ∧ ∀ x ∈ xs, 0 < x.2.length

section
variable {pduSz : Nat} {a : Assembly ρ} {itf : RlcItf ρ}

/-- At the start nothing was attempted. -/
theorem lossInv_start (hsz : pduSz < 2 ^ 32) (rlc : ρ) : LossInv pduSz (.start pduSz rlc) where
  toAssemblyInv := assemblyInv_start hsz rlc
  undone_iff := List.forall_mem_nil _
  held _ :=
    ⟨assembling_initTx (by decide) hsz true, [], carries_initTx .., rfl, List.forall_mem_nil _⟩

/-- `allocate_sdu` keeps the SDUs that were read in `pdu_msg`. -/
theorem LossInv.allocateSdu (hitf : Obliging itf) (h : LossInv pduSz a) {lcid : Nat}
    (hlcid : lcid < lcidPhrReport) {x : Assembly ρ × Option Nat} (hcase : AllocCase itf a lcid x) :
    LossInv pduSz x.1 := by
  have hinv := (h.toAssemblyInv.allocateSdu hlcid hcase).1
  cases hcase with
  | skipped rlc => exact ⟨hinv, h.undone_iff, h.held⟩
  | failed s s' rlc reads hroom hs hs' hreads =>
    refine ⟨hinv, h.undone_iff, fun hfit => ?_⟩
    obtain ⟨hasm, xs, hcarries, hfilter, hpos⟩ := h.held hfit
    obtain ⟨-, hcarries'⟩ := h.accounted.carries_delSubh_push hroom hs' hcarries
    exact ⟨(hasm.delSubh_push hroom hs').1, xs, hcarries', hfilter.trans (hreads hitf).symm, hpos⟩
  | allocated s payload rlc hroom hs hpos hfits =>
    refine ⟨hinv, h.undone_iff, fun hfit => ?_⟩
    obtain ⟨hasm, xs, hcarries, hfilter, hlen⟩ := h.held hfit
    have hsdu : isSduElement (lcid, payload) = true := decide_eq_true hlcid
    refine ⟨hasm.pushSdu hroom hlcid hpos hfits, xs ++ [(lcid, payload)],
      hcarries.pushSdu hasm.toTracked hlcid hpos, ?_, forall_mem_concat hlen hpos⟩
    rw [filter_concat_of_pos hsdu, hfilter]

/-- A subheader more is another PDU. -/
theorem push_ne (pdu : SchPdu) (s : SchSubh) : push pdu s ≠ pdu := by
  intro heq
  have hcount : pdu.nofSubheaders + 1 = pdu.nofSubheaders := congrArg SchPdu.nofSubheaders heq
  omega

/-- One more attempt. -/
theorem LossInv.attempted (h : LossInv pduSz a) {t : CeAttempt}
    (ht : (t.inserted = false → t.after = t.before) ↔ CeFits t) :
    ∀ u ∈ a.ceAttempts ++ [t], (u.inserted = false → u.after = u.before) ↔ CeFits u :=
  forall_mem_concat h.undone_iff ht

/-- A control element that does not fit leaves its subheader open. -/
theorem LossInv.insertCe (h : LossInv pduSz a) {c : SetCall} (hc : isSduCall c = false)
    (hvalid : ValidCall true c) {a' : Assembly ρ} (hcase : CeCase a c a') : LossInv pduSz a' := by
  have hinv := h.toAssemblyInv.insertCe hc hcase
  cases hcase with
  | full hroom =>
    refine ⟨hinv, h.attempted ?_, fun hfit => ?_⟩
    · exact iff_of_true (fun _ => rfl) fun hlt => absurd hlt hroom
    · exact h.held fun t ht => hfit t (List.mem_append_left _ ht)
  | leftOpen s hroom hs hfits =>
    have hnot : ¬CeFits ⟨a.pdu, c, push a.pdu s, false⟩ := fun hfit => hfits (hfit hroom)
    refine ⟨hinv, h.attempted ?_, fun hfit => ?_⟩
    · exact iff_of_false (fun hsame => push_ne a.pdu s (hsame rfl)) hnot
    · exact absurd (hfit _ (List.mem_append_right _ (List.mem_singleton.mpr rfl))) hnot
  | inserted s hroom hs hfits =>
    refine ⟨hinv, h.attempted ?_, fun hfit => ?_⟩
    · exact iff_of_true (fun hfalse => by cases hfalse) fun _ => hfits
    · obtain ⟨hasm, xs, hcarries, hfilter, hlen⟩ :=
        h.held fun t ht => hfit t (List.mem_append_left _ ht)
      obtain ⟨⟨hpos, -, hframed⟩, hkind⟩ := validElement_of_call hvalid
      have hlcid := lcid_ce hc
      rw [if_neg (Nat.not_lt.mpr hlcid), ← h.isUl] at hframed
      rw [hc] at hkind
      refine ⟨hasm.pushCe hroom hlcid hpos hframed hfits, xs ++ [callElement c],
        hcarries.pushCe hasm.toTracked hlcid _, ?_, forall_mem_concat hlen hpos⟩
      rw [filter_concat_of_neg hkind, hfilter]

/-! ### What is returned -/

/-- What `write_packet` returns is subheaders, control elements, SDUs and padding. -/
theorem writePacket_eq {pdu : SchPdu} (h : Assembling pdu) {bytes : Bytes}
    (hwrite : pdu.writePacket = some bytes) : bytes = packet pdu := by
  have hlast : ∀ ss s, inUse pdu = ss ++ [s] → isUnfilled s = false := fun ss s huse =>
    h.fill s (by rw [huse]; exact List.mem_append_right _ (List.mem_singleton_self s))
  rw [SchPdu.writePacket, h.removeEmptyLast_filled hlast h.dir] at hwrite
  split at hwrite
  · cases hwrite
  · exact eq_packet_of_writeChecked hwrite

/-- The frame that `write_packet` returns has the SDUs of the PDU. -/
theorem holdsSdus_packet {pdu : SchPdu} (h : Assembling pdu) {xs : List (Nat × Bytes)}
    (hcarries : Carries pdu xs) (hlen : ∀ x ∈ xs, 0 < x.2.length) :
    HoldsSdus (packet pdu) (xs.filter isSduElement) := by
  intro hne
  have huse : inUse pdu ≠ [] := by
    intro hnil
    have hsubhs := hcarries.subhs
    rw [filled_eq h.fill, hnil] at hsubhs
    rw [List.map_eq_nil_iff.mp hsubhs.symm] at hne
    exact hne rfl
  refine ⟨_, _, ?_, h.toTracked.packet_eq_frame hcarries h.fill h.dir hlen (Or.inl huse)⟩
  have hpadding : ∀ n payload, ∀ x ∈ List.replicate n (lcidPadding, payload), isSduElement x
      = false := by
    intro n payload x hx
    rw [List.eq_of_mem_replicate hx]
    rfl
  intro x hx
  rcases List.mem_append.mp hx with hfront | hback
  · rcases List.mem_append.mp hfront with hshort | hce
    · exact hpadding _ _ x hshort
    · exact Bool.eq_false_of_not_eq_true' (List.mem_filter.mp hce).2
  · split at hback
    · exact hpadding 1 _ x hback
    · cases hback

/-- Nothing is lost exactly when all control elements fit and the PDU can be written. -/
theorem lossless_iff_of_inv {out : PduGetOutcome ρ} (h : LossInv pduSz out.assembly)
    (hret : out.ret = out.assembly.pdu.writePacket) :
    Lossless pduSz out ↔
      (∀ t ∈ out.assembly.ceAttempts, CeFits t) ∧ Writable out.assembly.pdu := by
  constructor
  · rintro ⟨hundone, bytes, hbytes, -, -⟩
    have hfit : ∀ t ∈ out.assembly.ceAttempts, CeFits t := fun t ht =>
      (h.undone_iff t ht).mp (hundone t ht)
    obtain ⟨hasm, -⟩ := h.held hfit
    refine ⟨hfit, hasm.writePacket_iff.mp ?_⟩
    rw [← hret, hbytes]
    exact Option.some_ne_none bytes
  · rintro ⟨hfit, hwritable⟩
    obtain ⟨hasm, xs, hcarries, hfilter, hlen⟩ := h.held hfit
    obtain ⟨bytes, hbytes⟩ := Option.ne_none_iff_exists'.mp (hasm.writePacket_iff.mpr hwritable)
    refine ⟨fun t ht => (h.undone_iff t ht).mpr (hfit t ht), bytes, hret.trans hbytes, ?_, ?_⟩
    · rw [writePacket_eq hasm hbytes, hasm.length_packet hasm.fill hasm.dir, hasm.space, h.len]
    · rw [writePacket_eq hasm hbytes, ← hfilter]
      exact holdsSdus_packet hasm hcarries hlen

end

/-- `pdu_get` returns what `write_packet` does. -/
theorem ret_pduGet {fuel pduSz : Nat} {itf : RlcItf ρ} {req : CeRequests} {m : Mux} {rlc : ρ}
    {out : PduGetOutcome ρ} (h : m.pduGet fuel itf req rlc pduSz = some out) :
    out.ret = out.assembly.pdu.writePacket := by
  obtain ⟨⟨a₁, bj⟩, -, hrest⟩ := Option.bind_eq_some_iff.mp h
  obtain ⟨a₂, -, rfl⟩ := Option.map_eq_some_iff.mp hrest
  rfl

/-- RLC with bytes for channel 1. -/
def oneChannel : RlcItf Bytes where
  getBufferState bytes lcid := (if lcid = 1 then bytes.length else 0, bytes)
  readPdu bytes lcid n :=
    if lcid = 1 then ((((bytes.take n).length : Nat), bytes.take n), bytes.drop n)
    else ((0, []), bytes)

/-- The RLC layer of the example keeps to its requests. -/
theorem obliging_oneChannel : Obliging oneChannel := by
  intro bytes lcid n
  simp only [oneChannel]
  split
  · simp
  · simp

end SrsUE.Proofs.Mac
