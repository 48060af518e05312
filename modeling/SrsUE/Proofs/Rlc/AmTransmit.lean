import SrsUE.Proofs.Rlc.AmFill
import SrsUE.Proofs.Rlc.AmReceive
import SrsUE.Proofs.Rlc.AmStatusPdu
import SrsUE.Proofs.Rlc.AmTxWindow

/-!
# `SrsUE.Proofs.Rlc.AmTransmit`: segmentation and concatenation

A fresh entity is given SDUs and granted transmissions in any order, with nothing to retransmit and
no status to send. The trace keeps the SDUs that were submitted and the PDUs that were emitted, each
with its grant.

`LosesNothing` is what is to hold after every call: the emitted PDUs fit their grants, and reading
and reassembling them gives back the SDUs up to the point where `tx_sdu` and the queue continue. The
framing bits of each PDU say whether it starts and ends at an SDU boundary. `amTransmit_iff` is the
result: this holds along a run, with every PDU in its buffer, exactly when no grant packs more bytes
than the buffer of a PDU has.
-/

set_option autoImplicit false

namespace SrsUE.Proofs.Rlc

open SrsUE.Lib
open SrsUE.Rlc

/-! ### SDU boundaries -/

/-- The byte offset `pos` of the concatenated SDUs is a boundary between two of them, or an
end. -/
def SduBoundary (sdus : List Bytes) (pos : Nat) : Prop :=
  ∃ k, (sdus.take k).flatten.length = pos

/-- The SDUs are cut at offset `pos`: between two of them when `aligned`, else inside one. -/
def CutAt (sdus : List Bytes) (pos : Nat) (aligned : Bool) : Prop :=
  ∃ done rest, (aligned = true ∧ sdus = done ++ rest ∧ pos = done.flatten.length) ∨
    ∃ front back, aligned = false ∧ front ≠ [] ∧ back ≠ [] ∧
      sdus = done ++ (front ++ back) :: rest ∧ pos = done.flatten.length + front.length

/-- Further SDUs move no cut. -/
theorem CutAt.append {sdus : List Bytes} {pos : Nat} {aligned : Bool}
    (h : CutAt sdus pos aligned) (more : List Bytes) : CutAt (sdus ++ more) pos aligned := by
  obtain ⟨done, rest, ⟨ha, rfl, hp⟩ | ⟨front, back, ha, hf, hb, rfl, hp⟩⟩ := h
  · exact ⟨done, rest ++ more, .inl ⟨ha, by simp, hp⟩⟩
  · exact ⟨done, rest ++ more, .inr ⟨front, back, ha, hf, hb, by simp, hp⟩⟩

/-- A cut is at a boundary exactly when it is aligned. -/
theorem CutAt.iff_boundary {sdus : List Bytes} {pos : Nat} {aligned : Bool}
    (h : CutAt sdus pos aligned) : aligned = true ↔ SduBoundary sdus pos := by
  obtain ⟨done, rest, ⟨ha, rfl, hp⟩ | ⟨front, back, ha, hf, hb, rfl, hp⟩⟩ := h
  · refine ⟨fun _ => ⟨done.length, ?_⟩, fun _ => ha⟩
    rw [List.take_left, hp]
  · constructor
    · rw [ha]
      intro h
      cases h
    rintro ⟨k, hk⟩
    have hf' := List.length_pos_iff.mpr hf
    have hb' := List.length_pos_iff.mpr hb
    rcases Nat.lt_or_ge done.length k with hlt | hle
    · -- The SDU that is cut lies whole before offset `k`.
      obtain ⟨j, rfl⟩ := Nat.exists_eq_add_of_lt hlt
      have htake : (done ++ (front ++ back) :: rest).take (done.length + j + 1)
          = done ++ (front ++ back) :: rest.take j := by
        rw [Nat.add_assoc, List.take_length_add_append, List.take_succ_cons]
      rw [htake, List.flatten_append, List.flatten_cons] at hk
      simp only [List.length_append] at hk
      omega
    · have hsub : ((done ++ (front ++ back) :: rest).take k).flatten.length
          ≤ done.flatten.length := by
        rw [List.take_append_of_le_length hle]
        have hsplit := congrArg (fun l => l.flatten.length) (List.take_append_drop k done)
        simp only [List.flatten_append, List.length_append] at hsplit
        omega
      omega

/-! ### The trace -/

/-- An entity with the SDUs submitted to it and the PDUs it emitted, each with its grant. -/
structure TxTrace where
  st : RlcAm
  submitted : List Bytes
  emitted : List (Nat × Bytes)

/-- The calls of PDCP and MAC on the transmit side. `read_pdu` reads the clock. -/
inductive TxCall where
  | writeSdu (sdu : Bytes)
  | readPdu (now nofBytes : Nat)
deriving DecidableEq, Repr

/-- The trace after a call that returns. -/
def txStep (L : SrslteBit) (t : TxTrace) : TxCall → Option TxTrace
  | .writeSdu sdu =>
    (writeSdu t.st sdu).map fun st => { t with st := st, submitted := t.submitted ++ [sdu] }
  | .readPdu now n =>
    (readPdu L t.st now n).map fun r =>
      { t with
        st := r.1, emitted := if r.2 = [] then t.emitted else t.emitted ++ [(n, r.2)] }

/-- The calls that can be made: an SDU has 1 to 2047 bytes. -/
def TxCallOk : TxCall → Prop
  | .writeSdu sdu => 1 ≤ sdu.length ∧ sdu.length ≤ 2047
  | .readPdu _ _ => True

/-- A fresh entity. -/
def txStart (cnfg : AmConfig) : TxTrace :=
  { st := configure {} cnfg, submitted := [], emitted := [] }

/-! ### The stream of the emitted PDUs -/

/-- The number of data bytes in some PDUs. -/
def dataLength (pdus : List AmdRxPdu) : Nat := (pdus.flatMap (·.buf)).length

/-- The PDUs `pdus` and then `tx_sdu` and the queue carry the stream of the SDUs. An SDU is
open after the PDUs exactly when its rest is in `tx_sdu`. -/
structure TxStream (sdus : List Bytes) (pdus : List AmdRxPdu) (txSdu : Option Bytes)
    (queue : List Bytes) : Prop where
  rest : ∀ r, txSdu = some r → r ≠ []
  aligned : (deframe [] (pdus.flatMap pduTokens)).2 = [] ↔ txSdu = none
  stream : pdus.flatMap pduTokens ++ marked (txSdu.toList ++ queue) = marked sdus

/-- The bytes in the stream of a PDU are its data. -/
theorem units_pduTokens (pdu : AmdRxPdu) : units (pduTokens pdu) = pdu.buf := by
  unfold pduTokens
  rw [units_append, units_frame]
  split <;> simp

/-- The bytes in the stream of some PDUs are their data. -/
theorem units_flatMap_pduTokens (pdus : List AmdRxPdu) :
    units (pdus.flatMap pduTokens) = pdus.flatMap (·.buf) := by
  induction pdus with
  | nil => rfl
  | cons p ps ih => rw [List.flatMap_cons, units_append, units_pduTokens, ih, List.flatMap_cons]

section
variable {sdus queue : List Bytes} {pdus : List AmdRxPdu} {txSdu : Option Bytes}

/-- The reassembly of the PDUs, with the rest in `tx_sdu` and the queue, is the list of the
SDUs. -/
theorem TxStream.sdus_eq (h : TxStream sdus pdus txSdu queue) :
    (txSdu = none ∧ (deframe [] (pdus.flatMap pduTokens)).2 = [] ∧
      sdus = (deframe [] (pdus.flatMap pduTokens)).1 ++ queue) ∨
    (∃ r, txSdu = some r ∧ (deframe [] (pdus.flatMap pduTokens)).2 ≠ [] ∧
      sdus = (deframe [] (pdus.flatMap pduTokens)).1
        ++ ((deframe [] (pdus.flatMap pduTokens)).2 ++ r) :: queue) := by
  have hdef := congrArg (deframe []) h.stream
  rw [deframe_marked, deframe_append] at hdef
  cases txSdu with
  | none =>
    have hopen := h.aligned.mpr rfl
    rw [hopen, Option.toList_none, List.nil_append, deframe_marked] at hdef
    exact .inl ⟨rfl, hopen, (Prod.mk.inj hdef).1.symm⟩
  | some r =>
    have hopen : (deframe [] (pdus.flatMap pduTokens)).2 ≠ [] := fun hnil => by
      have := h.aligned.mp hnil
      cases this
    rw [Option.toList_some, List.singleton_append, deframe_marked_cons] at hdef
    exact .inr ⟨r, rfl, hopen, (Prod.mk.inj hdef).1.symm⟩

/-- The PDUs end where `tx_sdu` starts. -/
theorem TxStream.cutAt (h : TxStream sdus pdus txSdu queue) :
    CutAt sdus (dataLength pdus) txSdu.isNone := by
  have hlen : dataLength pdus = (deframe [] (pdus.flatMap pduTokens)).1.flatten.length
      + (deframe [] (pdus.flatMap pduTokens)).2.length := by
    have h := congrArg List.length (flatten_deframe [] (pdus.flatMap pduTokens))
    rw [units_flatMap_pduTokens, List.nil_append, List.length_append] at h
    exact h.symm
  rcases h.sdus_eq with ⟨htx, hopen, hsub⟩ | ⟨r, htx, hopen, hsub⟩
  · refine ⟨_, _, .inl ⟨by rw [htx]; rfl, hsub, ?_⟩⟩
    rw [hlen, hopen]
    rfl
  · exact ⟨_, _, .inr ⟨_, r, by rw [htx]; rfl, hopen, h.rest r htx, hsub, hlen⟩⟩

/-- One more PDU, filled from `tx_sdu` and the queue. -/
theorem TxStream.emit (h : TxStream sdus pdus txSdu queue) {B : Nat} {b : PduBuild}
    (hpull : Pulled B (marked txSdu.toList) queue b) {pdu : AmdRxPdu} (hli : pdu.header.li = b.li)
    (hbuf : pdu.buf = b.pdu) (hfi : endAligned pdu.header.fi = b.txSdu.isNone) :
    TxStream sdus (pdus ++ [pdu]) b.txSdu b.queue := by
  have htoks : pduTokens pdu = buildTokens b := by
    unfold pduTokens buildTokens endMark
    rw [hfi, hli, hbuf]
  have hflat : (pdus ++ [pdu]).flatMap pduTokens = pdus.flatMap pduTokens ++ buildTokens b := by
    rw [List.flatMap_append, List.flatMap_singleton, htoks]
  refine { rest := fun r hr => (hpull.rest r hr).1, aligned := ?_, stream := ?_ }
  · rw [hflat, deframe_append]
    unfold buildTokens endMark
    cases b.txSdu with
    | none => simp [deframe_append, deframe]
    | some r =>
      simp only [Option.isNone_some, Bool.false_eq_true, if_false, List.append_nil, iff_false,
        reduceCtorEq]
      exact deframe_frame_ne_nil _ _ _ hpull.sum_lt
  · rw [hflat, List.append_assoc, hpull.tokens, ← marked_append]
    exact h.stream

/-- One more SDU in the queue. -/
theorem TxStream.write (h : TxStream sdus pdus txSdu queue) (sdu : Bytes) :
    TxStream (sdus ++ [sdu]) pdus txSdu (queue ++ [sdu]) := by
  refine { rest := h.rest, aligned := h.aligned, stream := ?_ }
  rw [← List.append_assoc txSdu.toList, marked_append _ [sdu], ← List.append_assoc, h.stream,
    ← marked_append]

end

/-! ### The invariant of the trace -/

/-- One emitted PDU, `pos` bytes into the SDUs. -/
structure PduFramed (sdus : List Bytes) (pos : Nat) (pdu : AmdRxPdu) : Prop where
  data : pdu.buf ≠ []
  start : CutAt sdus pos (startAligned pdu.header.fi)
  stop : CutAt sdus (pos + pdu.buf.length) (endAligned pdu.header.fi)

/-- What holds after every step, for the PDUs that a peer reads from the emitted bytes. -/
structure TxTraceInv (t : TxTrace) (pdus : List AmdRxPdu) : Prop where
  noStatus : t.st.doStatus = false
  noRetx : t.st.retxQueue = []
  parsed : t.emitted.map (fun e => readDataPduHeader e.2)
    = pdus.map fun p => some (p.header, p.buf)
  grant : ∀ e ∈ t.emitted, e.2.length ≤ e.1
  vtS : t.st.vtS = pdus.length % 1024
  sn : ∀ k (hk : k < pdus.length), pdus[k].header.sn = k % 1024
  framed : ∀ k (hk : k < pdus.length),
    PduFramed t.submitted (dataLength (pdus.take k)) pdus[k]
  txSdu : ∀ r, t.st.txSdu = some r → IsSdu 2047 r
  queue : ∀ sdu ∈ t.st.txSduQueue, IsSdu 2047 sdu
  capacity : t.st.txSduQueue.length ≤ 16
  stream : TxStream t.submitted pdus t.st.txSdu t.st.txSduQueue

section
variable {t : TxTrace} {pdus : List AmdRxPdu}

/-- Nothing has been submitted to a fresh entity. -/
theorem txTraceInv_init (cnfg : AmConfig) : TxTraceInv (txStart cnfg) [] where
  noStatus := rfl
  noRetx := rfl
  parsed := rfl
  grant := by simp [txStart]
  vtS := by simp [txStart, configure]
  sn := by simp
  framed := by simp
  txSdu := by simp [txStart, configure]
  queue := by simp [txStart, configure]
  capacity := by simp [txStart, configure]
  stream := { rest := by simp [txStart, configure], aligned := by simp [txStart, configure]
              stream := by simp [txStart, configure] }

/-- A submitted SDU goes to the end of the queue. -/
theorem TxTraceInv.write (inv : TxTraceInv t pdus) {st' : RlcAm} {sdu : Bytes}
    (hpos : 1 ≤ sdu.length) (hle : sdu.length ≤ 2047) (h : writeSdu t.st sdu = some st') :
    TxTraceInv { t with st := st', submitted := t.submitted ++ [sdu] } pdus := by
  obtain ⟨hcap, rfl⟩ := writeSdu_cases h
  refine { noStatus := inv.noStatus, noRetx := inv.noRetx, parsed := inv.parsed,
           grant := inv.grant, vtS := inv.vtS, sn := inv.sn, framed := ?_, txSdu := inv.txSdu,
           queue := ?_, capacity := ?_, stream := inv.stream.write sdu }
  · intro k hk
    have hf := inv.framed k hk
    exact { data := hf.data, start := hf.start.append _, stop := hf.stop.append _ }
  · intro s hs
    rcases List.mem_append.mp hs with h | h
    · exact inv.queue s h
    · rw [List.mem_singleton.mp h]
      exact ⟨List.length_pos_iff.mp hpos, hle⟩
  · show (t.st.txSduQueue ++ [sdu]).length ≤ 16
    rw [List.length_append, List.length_singleton]
    omega

/-- The start bit of a new PDU says whether an SDU was under way before it. -/
theorem startAligned_dataPduFi (before after : Option Bytes) :
    startAligned (dataPduFi before after) = before.isNone := by
  rw [← Option.not_isSome, dataPduFi]
  cases before.isSome <;> cases after.isSome <;> decide

/-- The end bit of a new PDU says whether an SDU is under way after it. -/
theorem endAligned_dataPduFi (before after : Option Bytes) :
    endAligned (dataPduFi before after) = after.isNone := by
  rw [← Option.not_isSome, dataPduFi]
  cases before.isSome <;> cases after.isSome <;> decide

/-- A PDU that `build_data_pdu` built is read back as it was. -/
theorem readDataPduHeader_built {header : AmdPduHeader} {data : Bytes}
    (hdc : header.dc = .dataPdu) (hrf : header.rf = false) (hsn : header.sn < 1024)
    (hlsf : header.lsf = false) (hso : header.so = 0) (hlen : header.li.length ≤ 512)
    (hli : ∀ l ∈ header.li, l ≤ 2047) :
    readDataPduHeader (writeDataPduHeader header ++ data) = some (header, data) := by
  have hmap : header.li.map (· % 2048) = header.li := by
    refine (List.map_congr_left fun l hl => ?_).trans (List.map_id _)
    exact Nat.mod_eq_of_lt (Nat.lt_succ_of_le (hli l hl))
  rw [readDataPduHeader_write header hdc hlen, wireHeader, hmap, Nat.mod_eq_of_lt hsn]
  obtain ⟨dc, rf, p, fi, sn, lsf, so, li⟩ := header
  simp only at hrf hlsf hso
  subst hrf hlsf hso
  rfl

/-- The data bytes of two lists of PDUs. -/
theorem dataLength_append (ps qs : List AmdRxPdu) :
    dataLength (ps ++ qs) = dataLength ps + dataLength qs := by
  simp [dataLength]

/-- A new data PDU continues the stream where the emitted PDUs end. -/
theorem TxTraceInv.emit (inv : TxTraceInv t pdus) {now n : Nat} {header : AmdPduHeader}
    {data : Bytes} (h : (buildDataPdu t.st now n).2 = some (header, data)) :
    TxTraceInv { t with
      st := (buildDataPdu t.st now n).1
      emitted := t.emitted ++ [(n, writeDataPduHeader header ++ data)] }
      (pdus ++ [{ header := header, buf := data }]) := by
  obtain ⟨hne, hn, hdc, hrf, hsn, hlsf, hso, hfi, hli, hdata⟩ := buildDataPdu_pdu h
  obtain ⟨_, _, _, _, hst⟩ := buildDataPdu_frame h
  have hfill := fillPdu_fits t.st.txSdu t.st.txSduQueue hn
  have hpull := fillPdu_stream hn inv.txSdu inv.queue hne
  generalize fillPdu t.st.txSdu t.st.txSduQueue n = b at *
  have hcap := inv.capacity
  have hlis := hfill.lis
  have hsn' : header.sn = pdus.length % 1024 := hsn.trans inv.vtS
  have hend : endAligned header.fi = b.txSdu.isNone := by rw [hfi, endAligned_dataPduFi]
  have hstart : startAligned header.fi = t.st.txSdu.isNone := by
    rw [hfi, startAligned_dataPduFi]
  have hstream :
      TxStream t.submitted (pdus ++ [{ header := header, buf := data }]) b.txSdu b.queue :=
    inv.stream.emit hpull hli hdata hend
  obtain ⟨taken, htaken⟩ := hpull.taken
  have hframed : PduFramed t.submitted (dataLength pdus) { header := header, buf := data } := by
    refine { data := ?_, start := ?_, stop := ?_ }
    · show data ≠ []
      have := hpull.sum_lt
      rw [hdata, ← List.length_pos_iff]
      omega
    · show CutAt _ _ (startAligned header.fi)
      rw [hstart]
      exact inv.stream.cutAt
    · show CutAt _ _ (endAligned header.fi)
      have hcut := hstream.cutAt
      rw [dataLength_append] at hcut
      rw [hend]
      simpa [dataLength] using hcut
  -- An index of the longer list is an old one or the new PDU's.
  have hold : ∀ k, k < (pdus ++ [({ header := header, buf := data } : AmdRxPdu)]).length →
      k < pdus.length ∨ k = pdus.length := by
    intro k hk
    rw [List.length_append, List.length_singleton] at hk
    omega
  rw [hst]
  refine { noStatus := inv.noStatus, noRetx := inv.noRetx, parsed := ?_, grant := ?_, vtS := ?_,
           sn := ?_, framed := ?_, txSdu := hpull.rest, queue := ?_, capacity := ?_,
           stream := hstream }
  · have hread : readDataPduHeader (writeDataPduHeader header ++ data) = some (header, data) :=
      readDataPduHeader_built hdc hrf (by rw [hsn']; exact Nat.mod_lt _ (by decide)) hlsf hso
        (by rw [hli]; omega) (by rw [hli]; exact hpull.le)
    rw [List.map_append, List.map_append, inv.parsed]
    simp [hread]
  · intro e he
    rcases List.mem_append.mp he with he | he
    · exact inv.grant e he
    · have hfits := hfill.fits
      rw [List.mem_singleton.mp he]
      show (writeDataPduHeader header ++ data).length ≤ n
      rw [List.length_append, length_writeDataPduHeader, amPackedLength, hrf, hli, hdata]
      rw [amPackedLength_data] at hfits
      simpa using hfits
  · show (t.st.vtS + 1) % 1024 = _
    rw [inv.vtS, Nat.mod_add_mod, List.length_append, List.length_singleton]
  · intro k hk
    rcases hold k hk with h | rfl
    · rw [List.getElem_append_left h]
      exact inv.sn k h
    · rw [List.getElem_concat_length rfl]
      exact hsn'
  · intro k hk
    rcases hold k hk with h | rfl
    · rw [List.getElem_append_left h, List.take_append_of_le_length (Nat.le_of_lt h)]
      exact inv.framed k h
    · rw [List.getElem_concat_length rfl, List.take_left]
      exact hframed
  · intro s hs
    exact inv.queue s (htaken ▸ List.mem_append_right taken hs)
  · show b.queue.length ≤ 16
    have := congrArg List.length htaken
    rw [List.length_append] at this
    omega

/-- `read_pdu` emits the next data PDU, or nothing and leaves the state alone. -/
theorem TxTraceInv.read (inv : TxTraceInv t pdus) {L : SrslteBit} {st' : RlcAm} {out : Bytes}
    {now n : Nat} (h : readPdu L t.st now n = some (st', out)) :
    ∃ pdus', TxTraceInv { t with
      st := st', emitted := if out = [] then t.emitted else t.emitted ++ [(n, out)] } pdus' := by
  have hno : (t.st.doStatus && !statusProhibited t.st now) = false := by simp [inv.noStatus]
  -- Nothing is acknowledged in these runs, so neither a status PDU nor a retransmission is due.
  rcases readPdu_cases h with ⟨hs, -⟩ | ⟨-, hq, -⟩ | ⟨-, -, rfl, rfl⟩
  · rw [hno] at hs
    cases hs
  · exact absurd inv.noRetx hq
  · cases hpdu : (buildDataPdu t.st now n).2 with
    | none =>
      refine ⟨pdus, ?_⟩
      rw [buildDataPdu_none hpdu]
      exact inv
    | some pdu =>
      obtain ⟨header, data⟩ := pdu
      refine ⟨pdus ++ [{ header := header, buf := data }], ?_⟩
      have hne : pduBytes (some (header, data)) ≠ [] := by
        intro hnil
        have hlen := congrArg List.length hnil
        rw [pduBytes, List.length_append, length_writeDataPduHeader, amPackedLength] at hlen
        simp at hlen
      rw [if_neg hne]
      exact inv.emit hpdu

/-- The SDUs that are not in PDUs yet are not empty. -/
theorem TxTraceInv.sdus_ne_nil (inv : TxTraceInv t pdus) :
    ∀ sdu ∈ t.st.txSdu.toList ++ t.st.txSduQueue, sdu ≠ [] := by
  intro sdu hsdu
  rcases List.mem_append.mp hsdu with h | h
  · exact (inv.txSdu sdu (Option.mem_toList.mp h)).1
  · exact (inv.queue sdu h).1

end

/-! ### The buffer of a PDU -/

/-- `build_data_pdu` stays in the buffer of the PDU exactly when the SDUs that the grant packs fit
there. -/
theorem buildDataPduCopies_inRoom_iff {st : RlcAm} (now : Nat) {n : Nat}
    (hsdus : ∀ sdu ∈ st.txSdu.toList ++ st.txSduQueue, sdu ≠ []) :
    InRoom (buildDataPduCopies st now n)
      ↔ FitsBuffer dataHead (st.txSdu.toList ++ st.txSduQueue) n := by
  unfold buildDataPduCopies
  cases hpdu : (buildDataPdu st now n).2 with
  | none =>
    refine ⟨fun _ => ?_, fun _ => nofun⟩
    -- There is nothing to send, or the grant is too small for a byte.
    have hsome := buildDataPdu_isSome st now n
    rw [hpdu, Option.isSome_none] at hsome
    rcases Bool.and_eq_false_iff.mp hsome.symm with h | h
    · obtain ⟨htx, hqueue⟩ := Bool.or_eq_false_iff.mp h
      have hqueue' : st.txSduQueue = [] := by simpa using hqueue
      left
      rw [Option.isNone_iff_eq_none.mp (Option.isSome_eq_false_iff.mp htx), hqueue']
      exact Nat.zero_le _
    · right
      have := of_decide_eq_false h
      unfold dataHead msgRoom
      omega
  | some pdu =>
    obtain ⟨-, hn, -, -, -, -, -, -, -, hdata⟩ := buildDataPdu_pdu hpdu
    rw [← packed_le_msgRoom_iff dataHead_monotone, ← length_fillPdu hn hsdus, ← hdata]
    simp [InRoom]

/-! ### Runs -/

/-- Segmentation and concatenation have lost nothing so far. The emitted PDUs fit their grants, and
a peer reads PDUs `pdus` from them, in the order of their sequence numbers, whose framing bits say
whether they start and end at an SDU boundary. Their reassembly is the submitted SDUs up to the
point where `tx_sdu` and the queue continue: a rest in `tx_sdu` completes the SDU that is open.
Every grant is answered. -/
def LosesNothing (L : SrslteBit) (t : TxTrace) : Prop :=
  ∃ pdus : List AmdRxPdu,
    t.emitted.map (fun e => readDataPduHeader e.2)
      = pdus.map (fun p => some (p.header, p.buf)) ∧
    (∀ e ∈ t.emitted, e.2.length ≤ e.1) ∧
    (∀ k (hk : k < pdus.length), pdus[k].header.sn = k % 1024 ∧ pdus[k].buf ≠ [] ∧
      (startAligned pdus[k].header.fi = true
        ↔ SduBoundary t.submitted (dataLength (pdus.take k))) ∧
      (endAligned pdus[k].header.fi = true
        ↔ SduBoundary t.submitted (dataLength (pdus.take (k + 1))))) ∧
    (t.st.txSdu = none → (deframe [] (pdus.flatMap pduTokens)).2 = [] ∧
      t.submitted = (deframe [] (pdus.flatMap pduTokens)).1 ++ t.st.txSduQueue) ∧
    (∀ rest, t.st.txSdu = some rest → t.submitted = (deframe [] (pdus.flatMap pduTokens)).1
      ++ ((deframe [] (pdus.flatMap pduTokens)).2 ++ rest) :: t.st.txSduQueue) ∧
    ∀ now n, (readPdu L t.st now n).isSome

/-- What a call is to do: `read_pdu` stays in the buffer of the PDU, and nothing is lost. -/
def TxStepOk (L : SrslteBit) (t : TxTrace) (c : TxCall) (t' : TxTrace) : Prop :=
  (∀ now n, c = .readPdu now n → InRoom (readPduCopies t.st now n)) ∧ LosesNothing L t'

/-- The condition on a call in the state before it. -/
def TxGrantOk (t : TxTrace) (c : TxCall) : Prop :=
  ∀ now n, c = .readPdu now n →
    FitsBuffer dataHead (t.st.txSdu.toList ++ t.st.txSduQueue) n

/-- The invariant says that nothing was lost. -/
theorem TxTraceInv.losesNothing {L : SrslteBit} {t : TxTrace} {pdus : List AmdRxPdu}
    (inv : TxTraceInv t pdus) : LosesNothing L t := by
  refine ⟨pdus, inv.parsed, inv.grant, ?_, ?_, ?_, ?_⟩
  · intro k hk
    have hf := inv.framed k hk
    -- The end of PDU `k` is the start of the next one.
    have hnext : dataLength (pdus.take (k + 1))
        = dataLength (pdus.take k) + pdus[k].buf.length := by
      rw [List.take_succ_eq_append_getElem hk, dataLength_append]
      simp [dataLength]
    rw [hnext]
    exact ⟨inv.sn k hk, hf.data, hf.start.iff_boundary, hf.stop.iff_boundary⟩
  · intro htx
    rcases inv.stream.sdus_eq with ⟨-, hopen, hsub⟩ | ⟨r, hr, -⟩
    · exact ⟨hopen, hsub⟩
    · rw [htx] at hr
      cases hr
  · intro rest htx
    rcases inv.stream.sdus_eq with ⟨hr, -⟩ | ⟨r, hr, -, hsub⟩
    · rw [htx] at hr
      cases hr
    · obtain rfl := Option.some.inj (htx.symm.trans hr)
      exact hsub
  · intro now n
    simp [readPdu, inv.noStatus, inv.noRetx]

/-- One call keeps the invariant, and does what it is to do exactly when its grant is good. -/
theorem txStep_inv {L : SrslteBit} {t t' : TxTrace} {c : TxCall}
    (hinv : ∃ pdus, TxTraceInv t pdus) (hc : TxCallOk c) (hstep : txStep L t c = some t') :
    (∃ pdus, TxTraceInv t' pdus) ∧ (TxStepOk L t c t' ↔ TxGrantOk t c) := by
  obtain ⟨pdus, inv⟩ := hinv
  cases c with
  | writeSdu sdu =>
    obtain ⟨st, hwrite, rfl⟩ := Option.map_eq_some_iff.mp hstep
    have hnext := inv.write hc.1 hc.2 hwrite
    exact ⟨⟨pdus, hnext⟩, fun _ => nofun, fun _ => ⟨nofun, hnext.losesNothing⟩⟩
  | readPdu now n =>
    obtain ⟨⟨st, out⟩, hread, rfl⟩ := Option.map_eq_some_iff.mp hstep
    have hcopies : readPduCopies t.st now n = buildDataPduCopies t.st now n := by
      simp [readPduCopies, inv.noStatus, inv.noRetx]
    have hroom := buildDataPduCopies_inRoom_iff now (n := n) inv.sdus_ne_nil
    obtain ⟨pdus', hnext⟩ := inv.read hread
    refine ⟨⟨pdus', hnext⟩, fun hok now' n' heq => ?_, fun hok => ⟨fun now' n' heq => ?_, ?_⟩⟩
    · cases heq
      exact hroom.mp (hcopies ▸ hok.1 now n rfl)
    · cases heq
      exact hcopies ▸ hroom.mpr (hok now n rfl)
    · exact hnext.losesNothing

/-- For any SDUs and grants in any order, segmentation and concatenation lose nothing and stay in
the buffers of the PDUs exactly when the SDUs that each grant packs fit there. -/
theorem amTransmit_iff (L : SrslteBit) (cnfg : AmConfig) (calls : List TxCall)
    (hcalls : ∀ c ∈ calls, TxCallOk c) :
    Along (txStep L) (TxStepOk L) (txStart cnfg) calls
      ↔ Along (txStep L) (fun t c _ => TxGrantOk t c) (txStart cnfg) calls :=
  along_iff (I := fun t => ∃ pdus, TxTraceInv t pdus)
    (fun _ _ _ h hc hstep => (txStep_inv h hc hstep).2)
    (fun _ _ _ h hc hstep _ => (txStep_inv h hc hstep).1) hcalls ⟨[], txTraceInv_init cnfg⟩

/-- A grant of eight bytes for two SDUs: the PDU holds the first one, a length indicator and
one byte of the second. -/
theorem amTransmit_two :
    Along (txStep msbFirst) (TxStepOk msbFirst) (txStart {})
      [.writeSdu [1, 2, 3], .writeSdu [4, 5], .readPdu 0 8] := by
  refine (amTransmit_iff msbFirst {} [.writeSdu [1, 2, 3], .writeSdu [4, 5], .readPdu 0 8]
    (by simp [TxCallOk])).mpr ?_
  intro t₁ h₁
  obtain rfl := Option.some.inj h₁
  refine ⟨nofun, ?_⟩
  intro t₂ h₂
  obtain rfl := Option.some.inj h₂
  refine ⟨nofun, ?_⟩
  intro t₃ _
  refine ⟨fun now n hn => ?_, trivial⟩
  cases hn
  exact .inl (by decide)

/-- Six SDUs of 2047 bytes and a grant of 13000 bytes: the PDU takes 12282 bytes, and its buffer
ends after 11732. -/
theorem amTransmit_overrun :
    ¬Along (txStep msbFirst) (TxStepOk msbFirst) (txStart {})
      (List.replicate 6 (.writeSdu (List.replicate 2047 0)) ++ [.readPdu 0 13000]) := by
  generalize hsdu : (List.replicate 2047 0 : Bytes) = sdu
  have hlen : sdu.length = 2047 := by rw [← hsdu, List.length_replicate]
  intro h
  let st : RlcAm := { configure {} {} with txSduQueue := List.replicate 6 sdu }
  have hqueued : Along (txStep msbFirst) (TxStepOk msbFirst)
      { st := st, submitted := List.replicate 6 sdu, emitted := [] } [.readPdu 0 13000] :=
    ((((((h _ rfl).2 _ rfl).2 _ rfl).2 _ rfl).2 _ rfl).2 _ rfl).2
  have hroom : InRoom (buildDataPduCopies st 0 13000) := (hqueued _ rfl).1.1 0 13000 rfl
  have hsdus : ∀ s ∈ st.txSdu.toList ++ st.txSduQueue, s ≠ [] := by
    intro s hs
    rw [List.eq_of_mem_replicate (show s ∈ List.replicate 6 sdu from hs), ← List.length_pos_iff,
      hlen]
    decide
  have hfits : FitsBuffer dataHead (List.replicate 6 sdu) 13000 :=
    (buildDataPduCopies_inRoom_iff 0 hsdus).mp hroom
  -- Five of the SDUs lie whole in the buffer.
  have hwhole : wholeWithin msgRoom (List.replicate 6 sdu) = 5 := by
    simp [List.replicate, wholeWithin, hlen, msgRoom, maxBufferSizeBytes, bufferHeaderOffset]
  rcases hfits with hbytes | hgrant
  · simp only [List.length_flatten, List.map_replicate, List.sum_replicate_nat, hlen] at hbytes
    exact absurd hbytes (by decide)
  · rw [hwhole] at hgrant
    exact absurd hgrant (by decide)

end SrsUE.Proofs.Rlc
