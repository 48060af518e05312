import SrsUE.Lib.Run
import SrsUE.Proofs.Mac.Msg3Assembly

/-!
# `SrsUE.Proofs.Mac.Msg3Grants`: Msg3 for one grant after the other

`msg3_get` assembles a PDU for the first grant after a flush, and copies from the buffer for every
grant. It compares the size of a grant neither with the buffer nor with the PDU in it, which `send`
and `recv` of `qbuff` do. A run here is a list of grants, each with whatever the mux, RLC and the
procedures have at its time.

* `Msg3Inv.step`: what a grant does if it has the size of the PDU in the buffer, and this size is
  safe.
* `not_msg3Right_long`, `not_msg3Right_short`, `nBytes_of_msg3Right`: what can go wrong with other
  sizes.
* `safeGrants_iff`: grants are safe exactly when they have one safe size.
-/

set_option autoImplicit false

namespace SrsUE.Proofs.Mac

open SrsUE.Mac SrsUE.Lib
open SrsUE.Rlc (Bytes sub32 sub32_of_le)

variable {ρ : Type}

/-! ### Grants -/

/-- A grant of a random access response, and what the mux, RLC and the procedures have at its
time. -/
structure Msg3Grant (ρ : Type) where
  tbs : UInt32
  calls : List SetupLcid := []
  bj : List Int := []
  pendingCrntiCe : Nat := 0
  req : CeRequests := {}
  rlc : ρ

namespace Msg3Grant

variable (g : Msg3Grant ρ)

/-- `n_bytes`, as `decode_pdcch_ul` sets it. -/
def nBytes : Nat := g.tbs.toNat / 8

/-- `pdu_get` for the grant, if it is called. -/
def pduGet (itf : RlcItf ρ) : Option (PduGetOutcome ρ) :=
  (muxAfter g.calls g.bj g.pendingCrntiCe).pduGet maxNofSubheaders itf g.req g.rlc g.nBytes

/-- The size of a grant is an `int`. -/
theorem nBytes_lt : g.nBytes < 2 ^ 31 := by
  have hlt : g.tbs.toNat < 2 ^ 32 := g.tbs.toNat_lt
  rw [nBytes]
  omega

/-- `pdu_get` ends, with the account of what it inserted, for any RLC that keeps to its requests. -/
theorem pduGet_inserted {itf : RlcItf ρ} (hitf : Obliging itf) :
    ∃ out, g.pduGet itf = some out ∧ InsertedInv g.nBytes out.assembly ∧
      out.ret = out.assembly.pdu.writePacket := by
  have hlcids := lchidSorted_muxAfter g.calls g.bj g.pendingCrntiCe
  have hsz : g.nBytes < 2 ^ 32 := Nat.lt_trans g.nBytes_lt (by decide)
  obtain ⟨out, hout⟩ := pduGet_returns itf g.req hlcids g.rlc hsz
  have hinv := pduGet_inv (I := InsertedInv g.nBytes)
    (fun a lcid maxSduSz hlcid h =>
      h.allocateSdu hitf hlcid (allocateSdu_cases h.accounted.toTracked hlcid maxSduSz))
    (fun a c hc hvalid h => h.insertCe hc hvalid (insertCe_cases h.accounted.toTracked hc))
    hlcids (insertedInv_start hsz g.rlc) hout
  exact ⟨out, hout, hinv, ret_pduGet hout⟩

end Msg3Grant

/-- The Msg3 buffer, and the control elements and SDUs of the PDU that was assembled in it. -/
structure Msg3Run where
  buff : Msg3Buff
  original : List (Nat × Bytes) := []

/-- The control elements and SDUs that `pdu_get` has put into a PDU. -/
def assembled (out : PduGetOutcome ρ) : List (Nat × Bytes) :=
  insertedCes out.assembly ++ out.assembly.reads

/-- What the PDU in the buffer was assembled from, if `pdu_get` is called when there is none. -/
def Msg3Run.source (s : Msg3Run) (out : PduGetOutcome ρ) : List (Nat × Bytes) :=
  if s.buff.valid then s.original else assembled out

/-- A grant. -/
def msg3Step (itf : RlcItf ρ) (s : Msg3Run) (g : Msg3Grant ρ) : Option Msg3Run :=
  (g.pduGet itf).bind fun out => (s.buff.msg3Get out g.nBytes).map fun (b, _) =>
    { buff := b, original := s.source out }

/-- The assembly writes only inside the message, or fails with RLC as it was. What `msg3_get` puts
into `payload` is a PDU of the size of the grant with what was assembled. -/
def Msg3Right (itf : RlcItf ρ) (s : Msg3Run) (g : Msg3Grant ρ) : Prop :=
  ∃ out, g.pduGet itf = some out ∧
    (s.buff.valid = false → (∀ w ∈ out.writes, Inside msg3BuffSz w) ∨
      out.ret = none ∧ out.assembly.reads = []) ∧
    ∃ b ret, s.buff.msg3Get out g.nBytes = some (b, ret) ∧
      ∀ payload, ret = some payload → payload.length = g.nBytes ∧ IsPduOf payload (s.source out)

/-! ### Grants of one size -/

/-- The sizes that are safe. One or two bytes are not enough for padding alone. -/
def SafeSize (n : Nat) : Prop := n = 0 ∨ 3 ≤ n ∧ n ≤ 76

/-- The safe sizes are those that the buffer of Msg3 holds. -/
theorem SafeSize.le {n : Nat} (hn : SafeSize n) : n ≤ 76 := by
  rcases hn with rfl | hn
  · exact Nat.zero_le _
  · exact hn.2

/-- A PDU in the buffer has the size of the grants. -/
structure Msg3Inv (n : Nat) (s : Msg3Run) : Prop where
  size : s.buff.bytes.length = msg3BuffSz
  stored : s.buff.valid → ∃ pdu, pdu.length = n ∧ At s.buff.bytes 0 pdu ∧ IsPduOf pdu s.original

section
variable {n : Nat} {s : Msg3Run} {itf : RlcItf ρ} {g : Msg3Grant ρ}

/-- A grant of the size of the PDU in the buffer gets this PDU. -/
theorem Msg3Inv.msg3Get_stored (h : Msg3Inv n s) (hn : SafeSize n) (hvalid : s.buff.valid = true)
    (out : PduGetOutcome ρ) :
    ∃ pdu, s.buff.msg3Get out n = some (s.buff, some pdu) ∧ pdu.length = n ∧
      IsPduOf pdu s.original := by
  obtain ⟨pdu, hlen, hat, hpdu⟩ := h.stored hvalid
  refine ⟨pdu, ?_, hlen, hpdu⟩
  have hread : readAt s.buff.bytes 0 n = some pdu := by
    rw [← hlen]
    refine hat.readAt ?_
    rw [hlen, h.size, Nat.zero_add]
    exact Nat.le_trans hn.le (by decide)
  rw [Msg3Buff.msg3Get, if_pos hvalid, Option.bind_some]
  dsimp only
  rw [if_pos rfl, hread, Option.map_some]

/-- The first grant puts the PDU that it gets into the buffer. -/
theorem Msg3Inv.msg3Get_empty (h : Msg3Inv n s) (hn : SafeSize n) (hvalid : s.buff.valid = false)
    {out : PduGetOutcome ρ} (hins : InsertedInv n out.assembly)
    (hret : out.ret = out.assembly.pdu.writePacket) :
    ∃ b ret, s.buff.msg3Get out n = some (b, ret) ∧
      Msg3Inv n { buff := b, original := assembled out } ∧
      ∀ payload, ret = some payload → payload.length = n ∧ IsPduOf payload (assembled out) := by
  have hsz := hn.le
  obtain ⟨bytes, hsize, ⟨-, hmove⟩ | ⟨pdu, hpdu, hat, hmove⟩⟩ :=
    hins.pduMoveToMsg3 hret hsz h.size hvalid
  · refine ⟨{ s.buff with bytes := bytes }, none, ?_, ⟨hsize, ?_⟩,
      fun payload hpayload => by cases hpayload⟩
    · rw [Msg3Buff.msg3Get, if_neg (by rw [hvalid]; exact Bool.false_ne_true), hmove,
        Option.bind_some]
      rfl
    · exact fun hvalid' => absurd (hvalid.symm.trans hvalid') Bool.false_ne_true
  · obtain ⟨xs, hxs, hreads, hces⟩ := hins.toWrite
    have hchecked : out.assembly.pdu.removeEmptyLast.writeChecked = some pdu := by
      rw [hret, SchPdu.writePacket] at hpdu
      split at hpdu
      · cases hpdu
      · exact hpdu
    have hlen := hxs.length_bytes hchecked
    have hof := hxs.isPduOf hchecked hn
    rw [hces, hreads] at hof
    have hread : readAt bytes 0 n = some pdu := by
      rw [← hlen]
      refine hat.readAt ?_
      rw [hlen, hsize, msg3BuffSz]
      omega
    refine ⟨{ bytes := bytes, valid := true, len := n }, some pdu, ?_,
      ⟨hsize, fun _ => ⟨pdu, hlen, hat, hof⟩⟩, fun payload hpayload => ?_⟩
    · rw [Msg3Buff.msg3Get, if_neg (by rw [hvalid]; exact Bool.false_ne_true), hmove,
        Option.bind_some]
      dsimp only
      rw [if_pos rfl, hread, Option.map_some]
    · obtain rfl := Option.some.inj hpayload
      exact ⟨hlen, hof⟩

/-- What a grant of this size does. -/
theorem Msg3Inv.step (h : Msg3Inv n s) (hn : SafeSize n) (hitf : Obliging itf) (hg : g.nBytes = n) :
    Msg3Right itf s g ∧ ∀ s', msg3Step itf s g = some s' → Msg3Inv n s' := by
  subst hg
  obtain ⟨out, hout, hins, hret⟩ := g.pduGet_inserted hitf
  have hinside := hins.inside_writes hn.le
  rw [msg3Step, hout, Option.bind_some]
  cases hvalid : s.buff.valid with
  | true =>
    obtain ⟨pdu, hget, hpdu⟩ := h.msg3Get_stored hn hvalid out
    refine ⟨⟨out, hout, fun _ => .inl hinside, _, _, hget, fun payload hpayload => ?_⟩,
      fun s' hs' => ?_⟩
    · obtain rfl := Option.some.inj hpayload
      rw [Msg3Run.source, if_pos hvalid]
      exact hpdu
    · rw [hget, Option.map_some, Msg3Run.source, if_pos hvalid] at hs'
      obtain rfl := Option.some.inj hs'
      exact h
  | false =>
    obtain ⟨b, ret, hget, hinv, hpayload⟩ := h.msg3Get_empty hn hvalid hins hret
    have hsource : s.source out = assembled out := by
      rw [Msg3Run.source, if_neg (by rw [hvalid]; exact Bool.false_ne_true)]
    refine ⟨⟨out, hout, fun _ => .inl hinside, b, ret, hget, ?_⟩, fun s' hs' => ?_⟩
    · rw [hsource]
      exact hpayload
    · rw [hget, Option.map_some, hsource] at hs'
      obtain rfl := Option.some.inj hs'
      exact hinv

end

/-! ### Other sizes -/

/-- RLC with nothing but a message for CCCH, if there is one, which is as long as requested. -/
def ccchOnly : RlcItf Bool where
  getBufferState hasData lcid := (if hasData && lcid = 0 then 2 ^ 31 - 1 else 0, hasData)
  readPdu hasData _ n := ((n, List.replicate n 0), hasData)

/-- The RLC layer of the example keeps to its requests. -/
theorem obliging_ccchOnly : Obliging ccchOnly := fun _ _ n => ⟨Int.natCast_nonneg n, Int.le_refl _⟩

section
variable {itf : RlcItf ρ}

/-- The SDU that RLC answers with is recorded, if there is one. -/
theorem reads_readSdu {a : Assembly ρ} {opened : SchPdu} {lcid k : Nat} {sduSz : Int}
    {payload : Bytes}
    {rlc : ρ} (hspace : opened.hasSpaceSdu k = true)
    (hread : itf.readPdu a.rlc lcid k = ((sduSz, payload), rlc)) :
    (a.readSdu itf opened lcid k).1.reads =
      if 0 < sduSz then a.reads ++ [(lcid, payload.takeD sduSz.toNat 0)] else a.reads := by
  rw [Assembly.readSdu, hspace, if_pos rfl, hread]
  dsimp only
  split <;> rfl

/-- What was read stays recorded. -/
theorem prefix_readSdu (itf : RlcItf ρ) (a : Assembly ρ) (opened : SchPdu) (lcid k : Nat) :
    a.reads <+: (a.readSdu itf opened lcid k).1.reads := by
  cases hspace : opened.hasSpaceSdu k with
  | true =>
    rw [reads_readSdu hspace rfl]
    split
    · exact List.prefix_append ..
    · exact List.prefix_rfl
  | false =>
    have hkept : (a.readSdu itf opened lcid k).1.reads = a.reads := by
      rw [Assembly.readSdu, hspace, if_neg Bool.false_ne_true]
      dsimp only
      split <;> rfl
    exact ⟨[], by rw [List.append_nil, hkept]⟩

/-- `allocate_sdu` adds to the record. -/
theorem prefix_allocateSdu (itf : RlcItf ρ) (a : Assembly ρ) (lcid : Nat) (maxSduSz : Int) :
    a.reads <+: (a.allocateSdu itf lcid maxSduSz).1.reads := by
  rw [Assembly.allocateSdu]
  generalize itf.getBufferState a.rlc lcid = answer
  obtain ⟨bufferState, rlc⟩ := answer
  dsimp only
  split
  · split
    · split
      · exact prefix_readSdu itf { a with rlc := rlc } _ _ _
      · exact List.prefix_rfl
    · exact List.prefix_rfl
  · exact List.prefix_rfl

/-- Control elements do not. -/
theorem reads_insertCe (a : Assembly ρ) (c : SetCall) : (a.insertCe c).reads = a.reads := by
  rw [Assembly.insertCe]
  split <;> rfl

end

/-- The C-RNTI is inserted where there is no SDU on CCCH. -/
theorem reads_insertCrnti (itf : RlcItf ρ) (m : Mux) (a : Assembly ρ) :
    (m.insertCrnti itf a).reads = (a.allocateSdu itf 0 (-1)).1.reads := by
  rw [Mux.insertCrnti]
  dsimp only
  split
  · exact reads_insertCe ..
  · rfl

/-- The message for CCCH takes all but a byte of the PDU. -/
theorem reads_ccch {n : Nat} (hpos : 2 ≤ n) (hlt : n < 2 ^ 31) :
    ((Assembly.start n true).allocateSdu ccchOnly 0 (-1)).1.reads
      = [(0, List.replicate (n - 1) 0)] := by
  have hacc : Accounted (initTx maxNofSubheaders n true) :=
    accounted_initTx (by decide) (by omega) true
  have hspace : (initTx maxNofSubheaders n true).getSduSpace = (n - 1 : Nat) := by
    show toInt32 (sub32 (sub32 n 0) 1) = _
    rw [sub32_of_le (Nat.zero_le n), sub32_of_le (by omega), toInt32, if_pos (by omega),
      Nat.sub_zero]
  have hrequest : Assembly.requestLen (initTx maxNofSubheaders n true) (2 ^ 31 - 1) (-1)
      = (n - 1 : Nat) := by
    have hbuffer : toInt32 ((2 ^ 31 - 1) % 2 ^ 32) = 2 ^ 31 - 1 := by decide
    have hmax : (decide ((2 ^ 31 - 1 : Int) > -1) && decide ((-1 : Int) ≥ 0)) = false := by decide
    rw [Assembly.requestLen, hspace, hbuffer, hmax, if_neg Bool.false_ne_true]
    split <;> omega
  have hroom : ∀ s, (push (initTx maxNofSubheaders n true) s).hasSpaceSdu (n - 1) = true := by
    intro s
    rw [hacc.hasSpaceSdu_push]
    have hfirst : lastLength (inUse (initTx maxNofSubheaders n true)) = 0 := rfl
    have hrem : (initTx maxNofSubheaders n true).remLen = n := rfl
    rw [decide_eq_true_iff, le_sduSpace_iff (by omega)]
    omega
  have hbuffer : ccchOnly.getBufferState (Assembly.start n true).rlc 0 = (2 ^ 31 - 1, true) := rfl
  have hstart : (Assembly.start n true).pdu = initTx maxNofSubheaders n true := rfl
  have hopened : (initTx maxNofSubheaders n true).newSubh =
      some (push (initTx maxNofSubheaders n true)
        ((spare (initTx maxNofSubheaders n true)).headD {})) := by
    rw [hacc.newSubh_eq]
    exact if_pos (show 0 + 1 < 20 by decide)
  rw [Assembly.allocateSdu, hbuffer]
  dsimp only
  rw [hstart, if_pos (by decide), hrequest, if_pos (by omega), hopened]
  dsimp only
  have hanswer : ∀ a : Assembly Bool, a.rlc = true →
      ccchOnly.readPdu a.rlc 0 (n - 1)
        = ((((n - 1 : Nat) : Int), List.replicate (n - 1) 0), true) := by
    intro a ha
    rw [ha]
    rfl
  have htake : (List.replicate (n - 1) (0 : UInt8)).takeD (n - 1) 0 = List.replicate (n - 1) 0 := by
    have hlen : n - 1 ≤ (List.replicate (n - 1) (0 : UInt8)).length := by rw [List.length_replicate]
    rw [List.takeD_eq_take (0 : UInt8) hlen, List.take_replicate, Nat.min_self]
  rw [Int.toNat_natCast, reads_readSdu (hroom _) (hanswer _ rfl), if_pos (by omega),
    Int.toNat_natCast, htake]
  rfl

/-- A grant with a C-RNTI pending. -/
def ccchGrant (hasData : Bool) (tbs : UInt32) : Msg3Grant Bool :=
  { tbs := tbs, pendingCrntiCe := 70, rlc := hasData }

/-- The Msg3 buffer at first. -/
def noMsg3 : Msg3Run := { buff := {} }

/-- From 77 bytes on a message for CCCH is written behind the buffer. -/
theorem not_msg3Right_long {tbs : UInt32} (hlong : 77 ≤ tbs.toNat / 8) :
    ¬Msg3Right ccchOnly noMsg3 (ccchGrant true tbs) := by
  rintro ⟨out, hout, hinside, -⟩
  have hlt : tbs.toNat / 8 < 2 ^ 31 := (ccchGrant true tbs).nBytes_lt
  -- The SDU alone takes all but one byte of the grant.
  have hreads : [(0, List.replicate (tbs.toNat / 8 - 1) 0)] <+: out.assembly.reads := by
    refine pduGet_inv_of_insertCrnti
      (I := fun a => [(0, List.replicate (tbs.toNat / 8 - 1) 0)] <+: a.reads)
      (fun a lcid maxSduSz _ h => h.trans (prefix_allocateSdu ccchOnly a lcid maxSduSz))
      (fun a c _ _ h => h.trans ⟨[], by rw [List.append_nil, reads_insertCe]⟩)
      (lchidSorted_muxAfter _ _ _) ?_ hout
    show _ <+: (Mux.insertCrnti ccchOnly _ (.start (tbs.toNat / 8) true)).reads
    exact ⟨[], by rw [List.append_nil, reads_insertCrnti, reads_ccch (by omega) hlt]⟩
  rcases hinside rfl with hin | ⟨-, hempty⟩
  · obtain ⟨out', hout', hins, -⟩ := (ccchGrant true tbs).pduGet_inserted obliging_ccchOnly
    obtain rfl := Option.some.inj (hout.symm.trans hout')
    obtain ⟨rest, hrest⟩ := hreads
    have hoffset := sduOffsetStart_of_max hins.max
    -- It is written from offset 53 of the buffer, past whose end it runs.
    have hwrite : (53, List.replicate (tbs.toNat / 8 - 1) 0) ∈ out.writes := by
      rw [PduGetOutcome.writes, ← hrest, hoffset]
      exact List.mem_append_left _ (List.mem_cons_self ..)
    have hend := hin _ hwrite
    rw [Inside, List.length_replicate, msg3BuffSz] at hend
    omega
  · rw [hempty] at hreads
    simp at hreads

/-! ### Padding in a frame -/

/-- A padding subheader is one byte. -/
theorem writeSubheader_padding {s : SchSubh} (hs : s.lcid = lcidPadding) (isLast : Bool) :
    s.writeSubheader isLast = [if isLast then 0x1f else 0x3f] := by
  rw [SchSubh.writeSubheader, SchSubh.isSdu, hs]
  cases isLast <;> rfl

/-- Padding shows in the subheaders. -/
theorem mem_headersOf_padding {ss : List SchSubh} {s : SchSubh} (hs : s ∈ ss)
    (hpad : s.lcid = lcidPadding) :
    0x1f ∈ headersOf ss ∨ 0x3f ∈ headersOf ss := by
  induction ss with
  | nil => cases hs
  | cons t ss ih =>
    cases ss with
    | nil =>
      rw [List.mem_singleton.mp hs] at hpad
      rw [headersOf, writeSubheader_padding hpad]
      exact .inl (List.mem_singleton.mpr rfl)
    | cons u ss =>
      rw [headersOf]
      rcases List.mem_cons.mp hs with rfl | hrest
      · rw [writeSubheader_padding hpad]
        exact .inr (List.mem_append_left _ (List.mem_singleton.mpr rfl))
      · exact (ih hrest).imp (List.mem_append_right _) (List.mem_append_right _)

/-- Without an element only padding is left, and the last subheader has no E bit. -/
theorem mem_of_isPduOf_nil {bytes : Bytes} (h : IsPduOf bytes []) : bytes = [] ∨ 0x1f ∈ bytes := by
  obtain ⟨short, long, hshort, hlong, -, -, rfl⟩ := h
  have hpad : ∀ x ∈ short ++ [] ++ long, x.1 = lcidPadding := by
    intro x hx
    rw [List.append_nil] at hx
    rcases List.mem_append.mp hx with hx | hx
    · rw [hshort x hx]
    · exact hlong x hx
  rcases List.eq_nil_or_concat (short ++ [] ++ long) with hnil | ⟨front, last, hconcat⟩
  · rw [hnil]
    exact .inl rfl
  · rw [List.concat_eq_append] at hconcat
    rw [hconcat] at hpad ⊢
    have hlast : (subhOf last).lcid = lcidPadding :=
      hpad last (List.mem_append_right _ (List.mem_singleton.mpr rfl))
    rw [frame, headersOf_frame, writeSubheader_padding hlast]
    exact .inr (List.mem_append_left _ (List.mem_append_right _ (List.mem_singleton.mpr rfl)))

/-- Zeros have no padding in them. -/
theorem isPduOf_zeros {k : Nat} {xs : List (Nat × Bytes)} (h : IsPduOf (List.replicate k 0) xs) :
    List.replicate k 0 = frame xs := by
  obtain ⟨short, long, hshort, hlong, -, -, heq⟩ := h
  have hnone : ∀ x ∈ short ++ xs ++ long, x.1 ≠ lcidPadding := by
    intro x hx hpad
    have hmem := mem_headersOf_padding (List.mem_map_of_mem hx (f := subhOf)) hpad
    have hzero : ∀ b ∈ headersOf ((short ++ xs ++ long).map subhOf), b = 0 := by
      intro b hb
      have hb' : b ∈ frame (short ++ xs ++ long) := List.mem_append_left _ hb
      rw [← heq] at hb'
      exact List.eq_of_mem_replicate hb'
    rcases hmem with hmem | hmem
    · exact absurd (hzero _ hmem) (by decide)
    · exact absurd (hzero _ hmem) (by decide)
  have hshort' : short = [] := by
    refine List.eq_nil_iff_forall_not_mem.mpr fun x hx => ?_
    exact hnone x (by simp [hx]) (by rw [hshort x hx])
  have hlong' : long = [] := by
    refine List.eq_nil_iff_forall_not_mem.mpr fun x hx => ?_
    exact hnone x (by simp [hx]) (hlong x hx)
  rw [heq, hshort', hlong', List.nil_append, List.append_nil]

/-! ### The first grant -/

/-- `msg3_get` for a first grant: the buffer, the payload, and what the PDU was assembled from. -/
def firstMsg3 (hasData : Bool) (n : Nat) : Option (Msg3Buff × Option Bytes × List (Nat × Bytes)) :=
  ((muxAfter [] [] 70).pduGet maxNofSubheaders ccchOnly {} hasData n).bind fun out =>
    (({} : Msg3Buff).msg3Get out n).map fun (b, ret) => (b, ret, assembled out)

/-- The first grant of a run, from `pdu_get` and `msg3_get`. -/
theorem firstMsg3_eq {hasData : Bool} {tbs : UInt32} {out : PduGetOutcome Bool} {b : Msg3Buff}
    {ret : Option Bytes} (hout : (ccchGrant hasData tbs).pduGet ccchOnly = some out)
    (hget : noMsg3.buff.msg3Get out (tbs.toNat / 8) = some (b, ret)) :
    firstMsg3 hasData (tbs.toNat / 8) = some (b, ret, assembled out) := by
  have hout' : (muxAfter [] [] 70).pduGet maxNofSubheaders ccchOnly {} hasData (tbs.toNat / 8)
      = some out :=
    hout
  have hget' : ({} : Msg3Buff).msg3Get out (tbs.toNat / 8) = some (b, ret) := hget
  rw [firstMsg3, hout', Option.bind_some, hget', Option.map_some]

/-- One or two bytes of padding come out as subheaders that another one should follow. -/
theorem firstMsg3_padding : ∀ n ∈ [1, 2],
    (firstMsg3 false n).map Prod.snd = some (some (List.replicate n 0x3f), []) := by
  decide +kernel

/-- One or two bytes of nothing but padding are no PDU. -/
theorem not_msg3Right_short {tbs : UInt32} (hshort : tbs.toNat / 8 ∈ [1, 2]) :
    ¬Msg3Right ccchOnly noMsg3 (ccchGrant false tbs) := by
  rintro ⟨out, hout, -, b, ret, hget, hright⟩
  have hfirst := firstMsg3_padding _ hshort
  rw [firstMsg3_eq hout hget] at hfirst
  have hret : ret = some (List.replicate (tbs.toNat / 8) 0x3f) :=
    (Prod.mk.inj (Option.some.inj hfirst)).1
  have hsource : noMsg3.source out = [] := (Prod.mk.inj (Option.some.inj hfirst)).2
  obtain ⟨hlen, hpdu⟩ := hright _ hret
  rw [hsource] at hpdu
  rcases mem_of_isPduOf_nil hpdu with hnil | hmem
  · rw [hnil] at hlen
    have hzero : tbs.toNat / 8 = 0 := hlen.symm
    rw [hzero] at hshort
    exact absurd hshort (by decide)
  · exact absurd (List.eq_of_mem_replicate hmem) (by decide)

/-- The buffer behind a first grant of a safe size, and what is in it. The subheader of CCCH is
zero, and so is the data. -/
def zeroMsg3 (n : Nat) : Msg3Run :=
  { buff := { bytes := List.replicate msg3BuffSz 0, valid := true, len := n }
    original := if n = 0 then [] else [(0, List.replicate (n - 1) 0)] }

/-- The first grants of all the safe sizes. -/
theorem firstMsg3_safe : ∀ n ∈ 0 :: (List.range 74).map (· + 3),
    (firstMsg3 true n).map (fun x => (x.1, x.2.2))
      = some ((zeroMsg3 n).buff, (zeroMsg3 n).original) := by
  decide +kernel

/-- So the first grant of a safe size leaves the buffer listed. -/
theorem msg3Step_first {tbs : UInt32} (hsafe : SafeSize (tbs.toNat / 8)) :
    msg3Step ccchOnly noMsg3 (ccchGrant true tbs) = some (zeroMsg3 (tbs.toNat / 8)) := by
  have hmem : tbs.toNat / 8 ∈ 0 :: (List.range 74).map (· + 3) := by
    rcases hsafe with hzero | hsize
    · rw [hzero]
      exact List.mem_cons_self ..
    · refine List.mem_cons_of_mem _ (List.mem_map.mpr ⟨tbs.toNat / 8 - 3, List.mem_range.mpr ?_,
        ?_⟩)
      · omega
      · omega
  obtain ⟨⟨b, ret, xs⟩, hfirst, hresult⟩ := Option.map_eq_some_iff.mp (firstMsg3_safe _ hmem)
  obtain ⟨out, hout, hget⟩ := Option.bind_eq_some_iff.mp hfirst
  obtain ⟨⟨b', ret'⟩, hget', heq⟩ := Option.map_eq_some_iff.mp hget
  have hout' : (ccchGrant true tbs).pduGet ccchOnly = some out := hout
  have hget'' : noMsg3.buff.msg3Get out (ccchGrant true tbs).nBytes = some (b', ret') := hget'
  obtain ⟨rfl, hrest⟩ := Prod.mk.inj heq
  obtain ⟨-, rfl⟩ := Prod.mk.inj hrest
  obtain ⟨hbuff, horiginal⟩ := Prod.mk.inj hresult
  have hsource : noMsg3.source out = (zeroMsg3 (tbs.toNat / 8)).original := horiginal
  rw [msg3Step, hout', Option.bind_some, hget'', Option.map_some]
  dsimp only
  rw [hsource, show b' = (zeroMsg3 (tbs.toNat / 8)).buff from hbuff]

/-! ### The grants behind it -/

/-- Later grants get the PDU in the buffer, cut to their size. -/
theorem msg3Get_zeroMsg3 (n k : Nat) (out : PduGetOutcome ρ) :
    (zeroMsg3 n).buff.msg3Get out k =
      if k ≤ msg3BuffSz then some ((zeroMsg3 n).buff, some (List.replicate k 0)) else none := by
  have hread : readAt (zeroMsg3 n).buff.bytes 0 k =
      if k ≤ msg3BuffSz then some (List.replicate k 0) else none := by
    show readAt (List.replicate msg3BuffSz 0) 0 k = _
    rw [readAt, List.length_replicate, Nat.zero_add, List.drop_zero, List.take_replicate]
    split
    · rw [Nat.min_eq_left ‹_›]
    · rfl
  have hvalid : (zeroMsg3 n).buff.valid = true := rfl
  rw [Msg3Buff.msg3Get, if_pos hvalid, Option.bind_some]
  dsimp only
  rw [if_pos rfl, hread, apply_ite (Option.map _), Option.map_some, Option.map_none]

/-- Only a grant of the same size gets the PDU that was assembled. -/
theorem nBytes_of_msg3Right {n : Nat} {g : Msg3Grant Bool}
    (hright : Msg3Right ccchOnly (zeroMsg3 n) g) :
    g.nBytes = n := by
  obtain ⟨out, -, -, b, ret, hget, hpayload⟩ := hright
  rw [msg3Get_zeroMsg3] at hget
  split at hget
  · obtain ⟨rfl, rfl⟩ := Prod.mk.inj (Option.some.inj hget)
    have hframe := isPduOf_zeros (hpayload _ rfl).2
    have hlen := congrArg List.length hframe
    have hsource : (zeroMsg3 n).source out = if n = 0 then []
        else [(0, List.replicate (n - 1) 0)] :=
      rfl
    rw [List.length_replicate, hsource] at hlen
    split at hlen
    · rename_i hzero
      rw [hzero]
      exact hlen
    · have hone : (frame [(0, List.replicate (n - 1) (0 : UInt8))]).length = 1 + (n - 1) := by
        rw [frame, List.flatMap_singleton, List.length_append, List.length_replicate]
        rfl
      omega
  · cases hget

/-- A later grant of the same size changes nothing. -/
theorem msg3Step_zeroMsg3 {n : Nat} {g : Msg3Grant Bool} (hn : n ≤ msg3BuffSz) (hg : g.nBytes = n) :
    msg3Step ccchOnly (zeroMsg3 n) g = some (zeroMsg3 n) := by
  obtain ⟨out, hout, -⟩ := g.pduGet_inserted obliging_ccchOnly
  rw [msg3Step, hout, Option.bind_some, msg3Get_zeroMsg3, hg, if_pos hn, Option.map_some]
  rfl

/-- If every grant gets the PDU, they all have its size. -/
theorem all_nBytes {n : Nat} (hn : n ≤ msg3BuffSz) {grants : List (Msg3Grant Bool)}
    (h : Throughout (msg3Step ccchOnly) (Msg3Right ccchOnly) (zeroMsg3 n) grants) :
    ∀ g ∈ grants, g.nBytes = n := by
  induction grants with
  | nil => exact List.forall_mem_nil _
  | cons g grants ih =>
    have hg := nBytes_of_msg3Right h.1
    exact List.forall_mem_cons.mpr ⟨hg, ih (h.2 _ (msg3Step_zeroMsg3 hn hg))⟩

/-! ### Results -/

/-- Whatever RLC, the mux and the procedures do, the grants of these sizes get a PDU of their size
with what was assembled, or nothing, and nothing is written outside the message. -/
def SafeGrants (tbss : List UInt32) : Prop :=
  ∀ (ρ : Type) (itf : RlcItf ρ) (memory : Vector UInt8 msg3BuffSz) (grants : List (Msg3Grant ρ)),
    Obliging itf → grants.map (·.tbs) = tbss →
      Throughout (msg3Step itf) (Msg3Right itf) { buff := { bytes := memory.toList } } grants

/-- **The safety of Msg3.** Msg3 is safe for grants that follow each other without a flush exactly
when they all have the same size, of at most 76 bytes, and not of one or two. -/
theorem safeGrants_iff (tbss : List UInt32) :
    SafeGrants tbss ↔ ∃ n, SafeSize n ∧ ∀ tbs ∈ tbss, tbs.toNat / 8 = n := by
  constructor
  · intro h
    cases tbss with
    | nil => exact ⟨0, .inl rfl, List.forall_mem_nil _⟩
    | cons tbs tbss =>
      have hrun : ∀ hasData, Throughout (msg3Step ccchOnly) (Msg3Right ccchOnly) noMsg3
          ((tbs :: tbss).map (ccchGrant hasData)) := by
        intro hasData
        refine h Bool ccchOnly (Vector.replicate msg3BuffSz 0) _ obliging_ccchOnly ?_
        rw [List.map_map]
        exact List.map_id _
      -- An unsafe first size is refuted on a single grant, by a short or by a long Msg3.
      have hsafe : SafeSize (tbs.toNat / 8) := by
        by_contra hunsafe
        rw [SafeSize, not_or, not_and_or] at hunsafe
        rcases Nat.lt_or_ge (tbs.toNat / 8) 77 with hlt | hlong
        · have hshort : tbs.toNat / 8 ∈ [1, 2] := by
            simp only [List.mem_cons, List.not_mem_nil, or_false]
            omega
          exact not_msg3Right_short hshort (hrun false).1
        · exact not_msg3Right_long hlong (hrun true).1
      -- After a safe first Msg3 every later grant has to be of its size.
      have hrest :=
        all_nBytes (Nat.le_trans hsafe.le (by decide)) ((hrun true).2 _ (msg3Step_first hsafe))
      refine ⟨tbs.toNat / 8, hsafe, List.forall_mem_cons.mpr ⟨rfl, fun tbs' htbs' => ?_⟩⟩
      exact hrest _ (List.mem_map_of_mem htbs')
  · rintro ⟨n, hsafe, hsizes⟩ ρ itf memory grants hitf rfl
    refine Throughout.of_kind (I := Msg3Inv n) (K := fun g => g.nBytes = n)
      (fun s g hinv hg => (hinv.step hsafe hitf hg).1)
      (fun s g s' hinv hg hs' => (hinv.step hsafe hitf hg).2 s' hs') ?_ ⟨Vector.length_toList, ?_⟩
    · exact fun g hg => hsizes g.tbs (List.mem_map_of_mem hg)
    · exact fun hvalid => absurd hvalid Bool.false_ne_true

/-- A grant of 125 bytes for the C-RNTI and 200 bytes of data. -/
def crntiGrant : Msg3Grant Bytes :=
  { tbs := 1000, pendingCrntiCe := 70, rlc := List.replicate 200 1 }

/-- The last bytes of data are written behind the message. -/
theorem not_msg3Right_crnti : ¬Msg3Right oneChannel noMsg3 crntiGrant := by
  rintro ⟨out, hout, hinside, -⟩
  have hrun : (crntiGrant.pduGet oneChannel).map
      (fun out => (decide (∀ w ∈ out.writes, Inside msg3BuffSz w), out.assembly.reads.length)) =
        some (false, 1) := by
    decide +kernel
  rw [hout, Option.map_some] at hrun
  obtain ⟨houtside, hreads⟩ := Prod.mk.inj (Option.some.inj hrun)
  rcases hinside rfl with hin | ⟨-, hempty⟩
  · exact of_decide_eq_false houtside hin
  · rw [hempty] at hreads
    cases hreads

/-- Besides, the second of two grants, of 7 and of 9 bytes, gets a longer SDU than the one that was
assembled. -/
theorem not_safeGrants :
    ¬Throughout (msg3Step oneChannel) (Msg3Right oneChannel) noMsg3 [crntiGrant] ∧
    ¬Throughout (msg3Step ccchOnly) (Msg3Right ccchOnly) noMsg3 [ccchGrant true 56,
      ccchGrant true 72] := by
  constructor
  · rintro ⟨hright, -⟩
    exact not_msg3Right_crnti hright
  · rintro ⟨-, hrest⟩
    have hnext := hrest _ (msg3Step_first (.inr (by decide)))
    exact absurd (nBytes_of_msg3Right hnext.1) (by decide)

end SrsUE.Proofs.Mac
