import SrsUE.Proofs.Rlc.AmDataHeader
import SrsUE.Rlc.Am

/-!
# `SrsUE.Proofs.Rlc.AmSteps`: what one call can do

`readPdu_cases` lists the four kinds of PDU that `read_pdu` can emit, each with its guard,
and `writePdu_cases` the three kinds of PDU that `write_pdu` can take. Every invariant of an
entity is proved from these.

An entity sends and receives with separate variables. `RxSame` and `TxSame` say that a
step leaves the one or the other half alone:

* `readPdu`, `writeSdu` and `handleStatus` keep the receive half;
* `handleDataPdu`, `handleDataPduSegment` and the buffer state queries keep the transmit
  half.

`amStep_txStep` and `amStep_rxStep` put this together: what each call does to the one half and
to the other.
-/

set_option autoImplicit false

namespace SrsUE.Proofs.Rlc

open SrsUE.Lib
open SrsUE.Rlc

/-! ### The two halves of an entity -/

/-- `st'` has the receive half of `st`: the receive window and its variables, the segments,
the reordering timer, and what was delivered. -/
structure RxSame (st st' : RlcAm) : Prop where
  vrR : st'.vrR = st.vrR
  vrMr : st'.vrMr = st.vrMr
  vrX : st'.vrX = st.vrX
  vrMs : st'.vrMs = st.vrMs
  vrH : st'.vrH = st.vrH
  rxWindow : st'.rxWindow = st.rxWindow
  rxSegments : st'.rxSegments = st.rxSegments
  rxSdu : st'.rxSdu = st.rxSdu
  reorderingTimeout : st'.reorderingTimeout = st.reorderingTimeout
  pdcp : st'.pdcp = st.pdcp

/-- `st'` has the transmit half of `st`: the SDUs not yet sent, the transmit window and its
variables, and the retransmission queue. -/
structure TxSame (st st' : RlcAm) : Prop where
  txSdu : st'.txSdu = st.txSdu
  txSduQueue : st'.txSduQueue = st.txSduQueue
  txWindow : st'.txWindow = st.txWindow
  retxQueue : st'.retxQueue = st.retxQueue
  vtA : st'.vtA = st.vtA
  vtMs : st'.vtMs = st.vtMs
  vtS : st'.vtS = st.vtS

/-- `st'` has the configuration and the stored status PDU of `st`. -/
structure SetupSame (st st' : RlcAm) : Prop where
  cfg : st'.cfg = st.cfg
  status : st'.status = st.status

/-- A state has its own receive half. -/
theorem RxSame.refl (st : RlcAm) : RxSame st st := by constructor <;> rfl

/-- A state has its own transmit half. -/
theorem TxSame.refl (st : RlcAm) : TxSame st st := by constructor <;> rfl

/-- The receive half is kept by two steps when each keeps it. -/
theorem RxSame.trans {st₁ st₂ st₃ : RlcAm} (h₁ : RxSame st₁ st₂) (h₂ : RxSame st₂ st₃) :
    RxSame st₁ st₃ where
  vrR := h₂.vrR.trans h₁.vrR
  vrMr := h₂.vrMr.trans h₁.vrMr
  vrX := h₂.vrX.trans h₁.vrX
  vrMs := h₂.vrMs.trans h₁.vrMs
  vrH := h₂.vrH.trans h₁.vrH
  rxWindow := h₂.rxWindow.trans h₁.rxWindow
  rxSegments := h₂.rxSegments.trans h₁.rxSegments
  rxSdu := h₂.rxSdu.trans h₁.rxSdu
  reorderingTimeout := h₂.reorderingTimeout.trans h₁.reorderingTimeout
  pdcp := h₂.pdcp.trans h₁.pdcp

/-- The transmit half is kept by two steps when each keeps it. -/
theorem TxSame.trans {st₁ st₂ st₃ : RlcAm} (h₁ : TxSame st₁ st₂) (h₂ : TxSame st₂ st₃) :
    TxSame st₁ st₃ where
  txSdu := h₂.txSdu.trans h₁.txSdu
  txSduQueue := h₂.txSduQueue.trans h₁.txSduQueue
  txWindow := h₂.txWindow.trans h₁.txWindow
  retxQueue := h₂.retxQueue.trans h₁.retxQueue
  vtA := h₂.vtA.trans h₁.vtA
  vtMs := h₂.vtMs.trans h₁.vtMs
  vtS := h₂.vtS.trans h₁.vtS

/-! ### `read_pdu` -/

section
variable {L : SrslteBit} {st st' : RlcAm} {now n : Nat} {out : Bytes}

/-- The entry of `retx_queue` that `build_retx_pdu` works on: the first one whose PDU is
still in `tx_window`, that PDU, and the entries behind it. -/
def LiveEntry (st : RlcAm) (retx : AmdRetx) (tx : AmdTxPdu) (rest : List AmdRetx) : Prop :=
  liveRetx st = retx :: rest ∧ st.txWindow retx.sn = some tx

/-- The entries left after the dead ones are dropped are entries of the queue. -/
theorem mem_of_liveRetx {retx : AmdRetx} {rest : List AmdRetx} (h : liveRetx st = retx :: rest) :
    ∀ r ∈ retx :: rest, r ∈ st.retxQueue := by
  intro r hr
  rw [← h] at hr
  exact (List.dropWhile_suffix _).subset hr

/-- The front of `retx_queue` is the live entry when its PDU is in `tx_window`. -/
theorem liveEntry_front {retx : AmdRetx} {tx : AmdTxPdu} {rest : List AmdRetx}
    (hq : st.retxQueue = retx :: rest) (htx : st.txWindow retx.sn = some tx) :
    LiveEntry st retx tx rest := by
  refine ⟨?_, htx⟩
  rw [liveRetx, hq, List.dropWhile_cons_of_neg]
  simp [htx]

/-- `build_retx_pdu` on the live entry. -/
theorem buildRetxPdu_live {retx : AmdRetx} {tx : AmdTxPdu} {rest : List AmdRetx}
    (h : LiveEntry st retx tx rest) (now n : Nat) :
    buildRetxPdu st now n = some
      (if retx.isSegment || decide (n < requiredBufferSize tx retx) then
        ((buildSegment { st with retxQueue := retx :: rest } n tx retx rest).1,
          pduBytes (buildSegment { st with retxQueue := retx :: rest } n tx retx rest).2)
      else retransmitPdu { st with retxQueue := retx :: rest } now tx retx rest) := by
  rw [buildRetxPdu, h.1]
  simp only [h.2]
  exact (apply_ite some _ _ _).symm

/-- There is at most one entry that `build_retx_pdu` works on. -/
theorem LiveEntry.unique {retx retx' : AmdRetx} {tx tx' : AmdTxPdu} {rest rest' : List AmdRetx}
    (h : LiveEntry st retx tx rest) (h' : LiveEntry st retx' tx' rest') :
    retx = retx' ∧ tx = tx' ∧ rest = rest' := by
  obtain ⟨rfl, rfl⟩ := List.cons.inj (h.1.symm.trans h'.1)
  exact ⟨rfl, Option.some.inj (h.2.symm.trans h'.2), rfl⟩

/-- Without such an entry `build_retx_pdu` comes to the front of an empty deque. -/
theorem buildRetxPdu_eq_none (h : ∀ retx tx rest, ¬LiveEntry st retx tx rest) (now n : Nat) :
    buildRetxPdu st now n = none := by
  cases hlive : liveRetx st with
  | nil => rw [buildRetxPdu, hlive]
  | cons retx rest =>
    cases htx : st.txWindow retx.sn with
    | none =>
      rw [buildRetxPdu, hlive]
      simp only [htx]
    | some tx => exact absurd ⟨hlive, htx⟩ (h retx tx rest)

/-- `read_pdu` emits the stored status PDU, a segment of the live retransmission, the whole
of it, or new data. -/
theorem readPdu_cases (h : readPdu L st now n = some (st', out)) :
    ((st.doStatus && !statusProhibited st now) = true ∧
      st' = (buildStatusPdu L st now n).1 ∧ out = (buildStatusPdu L st now n).2) ∨
    ((st.doStatus && !statusProhibited st now) = false ∧ st.retxQueue ≠ [] ∧
      ∃ retx tx rest, LiveEntry st retx tx rest ∧
        ((retx.isSegment = true ∨ n < requiredBufferSize tx retx) ∧
            st' = (buildSegment { st with retxQueue := retx :: rest } n tx retx rest).1 ∧
            out = pduBytes
              (buildSegment { st with retxQueue := retx :: rest } n tx retx rest).2 ∨
          retx.isSegment = false ∧ requiredBufferSize tx retx ≤ n ∧
            st' = (retransmitPdu { st with retxQueue := retx :: rest } now tx retx rest).1 ∧
            out = (retransmitPdu { st with retxQueue := retx :: rest } now tx retx rest).2)) ∨
    ((st.doStatus && !statusProhibited st now) = false ∧ st.retxQueue = [] ∧
      st' = (buildDataPdu st now n).1 ∧ out = pduBytes (buildDataPdu st now n).2) := by
  unfold readPdu at h
  split at h
  · rename_i hs
    rw [Option.some.inj h]
    exact .inl ⟨hs, rfl, rfl⟩
  · rename_i hs
    replace hs : (st.doStatus && !statusProhibited st now) = false := by simpa using hs
    split at h
    · rename_i hq
      refine .inr (.inl ⟨hs, List.length_pos_iff.mp hq, ?_⟩)
      -- Retransmissions come before new data. A queue without a live entry would not return.
      unfold buildRetxPdu at h
      split at h
      · cases h
      · rename_i retx rest hlive
        split at h
        · cases h
        · rename_i tx htx
          refine ⟨retx, tx, rest, ⟨hlive, htx⟩, ?_⟩
          simp only at h
          split at h
          · rename_i hseg
            have hpair := Prod.mk.inj (Option.some.inj h)
            refine .inl ⟨?_, hpair.1.symm, hpair.2.symm⟩
            simpa using hseg
          · rename_i hseg
            simp only [Bool.or_eq_true, decide_eq_true_eq, not_or, Bool.not_eq_true,
              Nat.not_lt] at hseg
            rw [Option.some.inj h]
            exact .inr ⟨hseg.1, hseg.2, rfl, rfl⟩
    · rename_i hq
      have hpair := Prod.mk.inj (Option.some.inj h)
      refine .inr (.inr ⟨hs, List.eq_nil_of_length_eq_zero (by omega), ?_, ?_⟩)
      · exact hpair.1.symm
      · exact hpair.2.symm

/-- A status PDU reads the receive half only. -/
theorem buildStatusPdu_rxSame (L : SrslteBit) (st : RlcAm) (now n : Nat) :
    RxSame st (buildStatusPdu L st now n).1 := by
  unfold buildStatusPdu
  split <;> constructor <;> rfl

/-- It does not touch the transmit half. -/
theorem buildStatusPdu_txSame (L : SrslteBit) (st : RlcAm) (now n : Nat) :
    TxSame st (buildStatusPdu L st now n).1 := by
  unfold buildStatusPdu
  split <;> constructor <;> rfl

/-- `build_segment` writes the front of `retx_queue` and nothing else. -/
theorem buildSegment_frame (st : RlcAm) (n : Nat) (tx : AmdTxPdu) (retx : AmdRetx)
    (rest : List AmdRetx) :
    ∃ q, (buildSegment st n tx retx rest).1 = { st with retxQueue := q } := by
  unfold buildSegment
  simp only
  generalize (if retx.isSegment then retx.soStart else 0) = soStart
  generalize (if retx.isSegment then retx.soEnd else tx.buf.length) = soEnd
  split
  · exact ⟨_, rfl⟩
  · split
    · exact ⟨_, rfl⟩
    · split <;> exact ⟨_, rfl⟩

/-- A poll changes the poll variables only. -/
theorem setPoll_frame (st : RlcAm) (now : Nat) (poll : Bool) :
    ∃ pollSn timer pdus bytes, (if poll then setPoll st now else st)
      = { st with
          pollSn := pollSn, pollRetxTimeout := timer, pduWithoutPoll := pdus,
          byteWithoutPoll := bytes } := by
  cases poll <;> exact ⟨_, _, _, _, rfl⟩

/-- A whole retransmission writes `tx_window` at its own sequence number, the front of
`retx_queue` and the poll variables. -/
theorem retransmitPdu_frame (st : RlcAm) (now : Nat) (tx : AmdTxPdu) (retx : AmdRetx)
    (rest : List AmdRetx) :
    ∃ pollSn timer pdus bytes attempted, (retransmitPdu st now tx retx rest).1
      = { st with
          retxQueue := rest
          txWindow := st.txWindow.insert retx.sn { tx with retxCount := tx.retxCount + 1 }
          pollSn := pollSn, pollRetxTimeout := timer, pduWithoutPoll := pdus
          byteWithoutPoll := bytes, maxRetxAttempted := attempted } := by
  obtain ⟨_, _, _, _, h⟩ := setPoll_frame st now (pollRequired st now)
  simp only [retransmitPdu, h]
  exact ⟨_, _, _, _, _, rfl⟩

/-- A new data PDU: what is left of the SDUs, and the PDU in `tx_window` at `vt_s`. The poll
variables change with it. -/
theorem buildDataPdu_frame {hdr : AmdPduHeader} {data : Bytes}
    (h : (buildDataPdu st now n).2 = some (hdr, data)) :
    ∃ pollSn timer pdus bytes, (buildDataPdu st now n).1
      = { st with
          txSdu := (fillPdu st.txSdu st.txSduQueue n).txSdu
          txSduQueue := (fillPdu st.txSdu st.txSduQueue n).queue
          vtS := (st.vtS + 1) % 1024
          txWindow := st.txWindow.insert st.vtS { header := hdr, buf := data }
          pollSn := pollSn, pollRetxTimeout := timer, pduWithoutPoll := pdus
          byteWithoutPoll := bytes } := by
  revert h
  unfold buildDataPdu
  split
  · intro h; cases h
  · split
    · intro h; cases h
    · simp only
      intro h
      obtain ⟨rfl, rfl⟩ := Prod.mk.inj (Option.some.inj h)
      -- The poll decision does not matter for what else changes.
      generalize hp : pollRequired _ now = poll
      obtain ⟨_, _, _, _, hf⟩ := setPoll_frame { st with
        txSdu := (fillPdu st.txSdu st.txSduQueue n).txSdu
        txSduQueue := (fillPdu st.txSdu st.txSduQueue n).queue
        pduWithoutPoll := st.pduWithoutPoll + 1
        byteWithoutPoll := st.byteWithoutPoll + ((fillPdu st.txSdu st.txSduQueue n).pdu.length
          + (fillPdu st.txSdu st.txSduQueue n).headLen) } now poll
      simp only [hf]
      exact ⟨_, _, _, _, rfl⟩

/-- The header and data of a new data PDU. -/
theorem buildDataPdu_pdu {hdr : AmdPduHeader} {data : Bytes}
    (h : (buildDataPdu st now n).2 = some (hdr, data)) :
    ¬ (st.txSdu.isNone ∧ st.txSduQueue.length = 0) ∧ 2 < n ∧
      hdr.dc = .dataPdu ∧ hdr.rf = false ∧ hdr.sn = st.vtS ∧ hdr.lsf = false ∧ hdr.so = 0 ∧
      hdr.fi = dataPduFi st.txSdu (fillPdu st.txSdu st.txSduQueue n).txSdu ∧
      hdr.li = (fillPdu st.txSdu st.txSduQueue n).li ∧
      data = (fillPdu st.txSdu st.txSduQueue n).pdu := by
  revert h
  unfold buildDataPdu
  split
  · intro h; cases h
  · rename_i hne
    split
    · intro h; cases h
    · rename_i hn
      have hn' : 2 < n := by simpa [amPackedLength] using hn
      simp only
      intro h
      obtain ⟨rfl, rfl⟩ := Prod.mk.inj (Option.some.inj h)
      refine ⟨hne, hn', rfl, rfl, ?_, rfl, rfl, rfl, rfl, rfl⟩
      generalize hp : pollRequired _ now = poll
      cases poll <;> rfl

/-- Without SDUs, or with a grant that holds no data, no PDU is built and nothing
changes. -/
theorem buildDataPdu_none (h : (buildDataPdu st now n).2 = none) :
    (buildDataPdu st now n).1 = st := by
  revert h
  unfold buildDataPdu
  split
  · exact fun _ => rfl
  · split
    · exact fun _ => rfl
    · intro h; cases h

/-- A new data PDU leaves the receive half alone. -/
theorem buildDataPdu_rxSame (st : RlcAm) (now n : Nat) :
    RxSame st (buildDataPdu st now n).1 := by
  cases h : (buildDataPdu st now n).2 with
  | none => rw [buildDataPdu_none h]; exact .refl st
  | some pdu =>
    obtain ⟨_, _, _, _, hf⟩ := buildDataPdu_frame h
    rw [hf]
    constructor <;> rfl

/-- `read_pdu` keeps the receive half. -/
theorem readPdu_rxSame (h : readPdu L st now n = some (st', out)) : RxSame st st' := by
  rcases readPdu_cases h with ⟨-, rfl, -⟩ | ⟨-, -, retx, tx, rest, -, hst⟩ | ⟨-, -, rfl, -⟩
  · exact buildStatusPdu_rxSame L st now n
  · rcases hst with ⟨-, rfl, -⟩ | ⟨-, -, rfl, -⟩
    · obtain ⟨_, hf⟩ := buildSegment_frame { st with retxQueue := retx :: rest } n tx retx rest
      rw [hf]
      constructor <;> rfl
    · obtain ⟨_, _, _, _, _, hf⟩ :=
        retransmitPdu_frame { st with retxQueue := retx :: rest } now tx retx rest
      rw [hf]
      constructor <;> rfl
  · exact buildDataPdu_rxSame st now n

/-- `read_pdu` sends the stored status PDU and leaves it where it is. -/
theorem readPdu_setupSame (h : readPdu L st now n = some (st', out)) : SetupSame st st' := by
  rcases readPdu_cases h with ⟨-, rfl, -⟩ | ⟨-, -, retx, tx, rest, -, hst⟩ | ⟨-, -, rfl, -⟩
  · unfold buildStatusPdu
    split
    · exact ⟨rfl, rfl⟩
    · exact ⟨rfl, rfl⟩
  · rcases hst with ⟨-, rfl, -⟩ | ⟨-, -, rfl, -⟩
    · obtain ⟨_, hf⟩ := buildSegment_frame { st with retxQueue := retx :: rest } n tx retx rest
      rw [hf]
      exact ⟨rfl, rfl⟩
    · obtain ⟨_, _, _, _, _, hf⟩ :=
        retransmitPdu_frame { st with retxQueue := retx :: rest } now tx retx rest
      rw [hf]
      exact ⟨rfl, rfl⟩
  · cases hpdu : (buildDataPdu st now n).2 with
    | none =>
      rw [buildDataPdu_none hpdu]
      exact ⟨rfl, rfl⟩
    | some pdu =>
      obtain ⟨_, _, _, _, hf⟩ := buildDataPdu_frame hpdu
      rw [hf]
      exact ⟨rfl, rfl⟩

end

/-! ### `write_sdu` -/

/-- `write_sdu` returns when there is room in the queue, and appends to it. -/
theorem writeSdu_cases {st st' : RlcAm} {sdu : Bytes} (h : writeSdu st sdu = some st') :
    st.txSduQueue.length < 16 ∧ st' = { st with txSduQueue := st.txSduQueue ++ [sdu] } := by
  unfold writeSdu at h
  split at h
  · rename_i hlt
    exact ⟨hlt, (Option.some.inj h).symm⟩
  · cases h

/-- `write_sdu` leaves the receive half alone. -/
theorem writeSdu_rxSame {st st' : RlcAm} {sdu : Bytes} (h : writeSdu st sdu = some st') :
    RxSame st st' := by
  obtain ⟨-, rfl⟩ := writeSdu_cases h
  constructor <;> rfl

/-! ### `write_pdu` -/

/-- `write_pdu` ignores an empty PDU, and passes any other to one of three handlers. -/
theorem writePdu_cases {L : SrslteBit} {st st' : RlcAm} {now : Nat} {payload : Bytes}
    (h : writePdu L st now payload = some st') :
    (payload = [] ∧ st' = st) ∨
    (∃ status, readStatusPdu L payload = some status ∧ st' = handleStatus st status) ∨
    (∃ header data, readDataPduHeader payload = some (header, data) ∧
      (header.rf = true ∧ st' = handleDataPduSegment st now data header ∨
        header.rf = false ∧ st' = handleDataPdu st now data header)) := by
  unfold writePdu at h
  split at h
  · exact .inl ⟨rfl, (Option.some.inj h).symm⟩
  · split at h
    · unfold handleControlPdu at h
      obtain ⟨status, hread, heq⟩ := Option.map_eq_some_iff.mp h
      exact .inr (.inl ⟨status, hread, heq.symm⟩)
    · obtain ⟨⟨header, data⟩, hread, heq⟩ := Option.bind_eq_some_iff.mp h
      refine .inr (.inr ⟨header, data, hread, ?_⟩)
      simp only at heq
      split at heq
      · rename_i hrf
        exact .inl ⟨hrf, (Option.some.inj heq).symm⟩
      · rename_i hrf
        exact .inr ⟨by simpa using hrf, (Option.some.inj heq).symm⟩

/-- `write_pdu` takes a PDU for a control PDU exactly when it is not read as a data PDU. -/
theorem isControlPdu_of_read {b0 : UInt8} {rest : Bytes} {header : AmdPduHeader} {data : Bytes}
    (hread : readDataPduHeader (b0 :: rest) = some (header, data)) :
    isControlPdu b0 = false ↔ header.dc = .dataPdu := by
  have hctl : isControlPdu b0 = false ↔ ¬ (b0.toNat >>> 7) &&& 0x01 = 0 := by
    simp [isControlPdu, DcField.toNat]
  rw [hctl]
  rcases readDataPduHeader_cases hread with ⟨h0, rfl⟩ | ⟨h0, hdc, -⟩
  · simp [h0]
  · exact ⟨fun _ => hdc, fun _ => h0⟩

/-- The sequence number of a header that is read has ten bits. -/
theorem readDataPduHeader_sn_lt {payload : Bytes} {header : AmdPduHeader} {data : Bytes}
    (hread : readDataPduHeader payload = some (header, data)) : header.sn < 1024 := by
  cases payload with
  | nil => cases hread
  | cons b0 rest =>
    rcases readDataPduHeader_cases hread with ⟨-, rfl⟩ | ⟨-, -, hsn⟩
    · decide
    · exact hsn

/-- `write_pdu` on a whole data PDU is `handle_data_pdu`. -/
theorem writePdu_of_read {payload : Bytes} {header : AmdPduHeader} {data : Bytes}
    (hread : readDataPduHeader payload = some (header, data)) (hdc : header.dc = .dataPdu)
    (hrf : header.rf = false) (L : SrslteBit) (st : RlcAm) (now : Nat) :
    writePdu L st now payload = some (handleDataPdu st now data header) := by
  cases payload with
  | nil => cases hread
  | cons b0 rest =>
    rw [writePdu, (isControlPdu_of_read hread).mpr hdc, hread]
    simp [hrf]

/-- The loop of `reassemble_rx_sdus` writes the SDU buffer, the SDUs handed to PDCP, the
window and its two edges, and nothing else. -/
theorem reassembleLoop_frame (rounds : Nat) (st : RlcAm) :
    ∃ rxSdu pdcp rxWindow vrR vrMr, reassembleLoop rounds st
      = { st with
          rxSdu := rxSdu, pdcp := pdcp, rxWindow := rxWindow, vrR := vrR, vrMr := vrMr } := by
  induction rounds generalizing st with
  | zero => exact ⟨_, _, _, _, _, rfl⟩
  | succ rounds ih =>
    rw [reassembleLoop]
    split
    · rename_i pdu _
      obtain ⟨_, _, _, _, _, heq⟩ := ih (reassemblePdu st pdu)
      exact ⟨_, _, _, _, _, heq⟩
    · exact ⟨_, _, _, _, _, rfl⟩

/-- Only `vr_h` changes. -/
theorem updateVrH_frame (st : RlcAm) (sn : Nat) :
    ∃ vrH, updateVrH st sn = { st with vrH := vrH } := by
  unfold updateVrH
  split <;> exact ⟨_, rfl⟩

/-- Only the two flags that ask for a status report change. -/
theorem checkPollBit_frame (st : RlcAm) (header : AmdPduHeader) :
    ∃ pollReceived doStatus, checkPollBit st header
      = { st with pollReceived := pollReceived, doStatus := doStatus } := by
  unfold checkPollBit
  split <;> exact ⟨_, _, rfl⟩

/-- `updateReordering` writes the reordering timer and `vr_x` only. -/
theorem updateReordering_frame (st : RlcAm) (now : Nat) :
    ∃ timer vrX, updateReordering st now
      = { st with reorderingTimeout := timer, vrX := vrX } := by
  unfold updateReordering
  simp only
  split <;> split <;> exact ⟨_, _, rfl⟩

/-- Storing a PDU writes `rx_window` at its sequence number, `vr_h`, `vr_ms` and the poll
state. -/
theorem storeDataPdu_frame (st : RlcAm) (payload : Bytes) (header : AmdPduHeader) :
    ∃ vrMs vrH pollReceived doStatus, storeDataPdu st payload header
      = { st with
          rxWindow := st.rxWindow.insert header.sn { header := header, buf := payload }
          vrMs := vrMs, vrH := vrH, pollReceived := pollReceived, doStatus := doStatus } := by
  obtain ⟨vrH, hv⟩ := updateVrH_frame { st with
    rxWindow := st.rxWindow.insert header.sn { header := header, buf := payload } } header.sn
  rw [storeDataPdu, hv]
  simp only
  obtain ⟨_, _, hp⟩ := checkPollBit_frame _ header
  rw [hp]
  exact ⟨_, _, _, _, rfl⟩

/-- A PDU that is kept writes the receive variables, and leaves the segments alone. -/
theorem keepDataPdu_frame (st : RlcAm) (now : Nat) (payload : Bytes) (header : AmdPduHeader) :
    ∃ rxSdu pdcp rxWindow vrR vrMr vrH vrMs vrX timer pollReceived doStatus,
      updateReordering (reassembleRxSdus (storeDataPdu st payload header)) now
        = { st with
            rxSdu := rxSdu, pdcp := pdcp, rxWindow := rxWindow, vrR := vrR, vrMr := vrMr
            vrH := vrH, vrMs := vrMs, vrX := vrX, reorderingTimeout := timer
            pollReceived := pollReceived, doStatus := doStatus } := by
  obtain ⟨_, _, hr⟩ :=
    updateReordering_frame (reassembleRxSdus (storeDataPdu st payload header)) now
  obtain ⟨_, _, _, _, _, hl⟩ := reassembleLoop_frame 1024
    { storeDataPdu st payload header with
      rxSdu := some ((storeDataPdu st payload header).rxSdu.getD []) }
  obtain ⟨_, _, _, _, hs⟩ := storeDataPdu_frame st payload header
  rw [hr, reassembleRxSdus, hl, hs]
  exact ⟨_, _, _, _, _, _, _, _, _, _, _, rfl⟩

/-- `handle_data_pdu` keeps the transmit half. -/
theorem handleDataPdu_txSame (st : RlcAm) (now : Nat) (payload : Bytes) (header : AmdPduHeader) :
    TxSame st (handleDataPdu st now payload header) := by
  unfold handleDataPdu
  split
  · constructor <;> rfl
  · split
    · constructor <;> rfl
    · obtain ⟨_, _, _, _, _, _, _, _, _, _, _, hf⟩ := keepDataPdu_frame st now payload header
      rw [hf]
      constructor <;> rfl

/-- A data PDU leaves the configuration and the stored report alone. -/
theorem handleDataPdu_setupSame (st : RlcAm) (now : Nat) (payload : Bytes)
    (header : AmdPduHeader) : SetupSame st (handleDataPdu st now payload header) := by
  unfold handleDataPdu
  split
  · exact ⟨rfl, rfl⟩
  · split
    · exact ⟨rfl, rfl⟩
    · obtain ⟨_, _, _, _, _, _, _, _, _, _, _, hf⟩ := keepDataPdu_frame st now payload header
      rw [hf]
      exact ⟨rfl, rfl⟩

/-- A segment outside the window is discarded. -/
theorem storeSegment_outside {st : RlcAm} {header : AmdPduHeader}
    (h : insideRxWindow st header.sn = false) (payload : Bytes) :
    storeSegment st payload header = (pollDiscarded st header, none) := by
  simp [storeSegment, h]

/-- The first segment of a PDU is stored. -/
theorem storeSegment_first {st : RlcAm} {header : AmdPduHeader}
    (h : insideRxWindow st header.sn = true) (hnone : st.rxSegments header.sn = none)
    (payload : Bytes) :
    ∃ vrH pollReceived doStatus, storeSegment st payload header
      = ({ st with
            rxSegments := st.rxSegments.insert header.sn [{ header := header, buf := payload }]
            vrH := vrH, pollReceived := pollReceived, doStatus := doStatus }, none) := by
  obtain ⟨vrH, hv⟩ := updateVrH_frame { st with
    rxSegments := st.rxSegments.insert header.sn [{ header := header, buf := payload }] }
    header.sn
  obtain ⟨p, d, hp⟩ := checkPollBit_frame { st with
    rxSegments := st.rxSegments.insert header.sn [{ header := header, buf := payload }]
    vrH := vrH } header
  refine ⟨vrH, p, d, ?_⟩
  simp only [storeSegment, h, hnone, hv, hp, Bool.not_true, Bool.false_eq_true, if_false]

/-- The ordered insert adds one segment. -/
theorem length_insertSegment (segment : AmdRxPdu) (segments : List AmdRxPdu) :
    (insertSegment segment segments).length = segments.length + 1 := by
  induction segments with
  | nil => rfl
  | cons s segments ih =>
    rw [insertSegment]
    split
    · rw [List.length_cons, List.length_cons, ih]
    · rfl

/-- The call of `handle_data_pdu` that `add_segment_and_check` makes. -/
theorem addSegmentAndCheck_call (segments : List AmdRxPdu) (segment : AmdRxPdu) :
    (addSegmentAndCheck segments segment).2
      = if segmentsComplete 0 (insertSegment segment segments) then
          some ((insertSegment segment segments).flatMap (·.buf),
            rebuildHeader (insertSegment segment segments))
        else none := by
  simp only [addSegmentAndCheck]
  split <;> rfl

/-- A further segment is put in its place, and then the PDU may be complete. -/
theorem storeSegment_next {st : RlcAm} {header : AmdPduHeader} {segments : List AmdRxPdu}
    (h : insideRxWindow st header.sn = true) (hsome : st.rxSegments header.sn = some segments)
    (payload : Bytes) :
    storeSegment st payload header
      = ({ st with
            rxSegments := st.rxSegments.insert header.sn
              (insertSegment { header := header, buf := payload } segments)
            doStatus := st.doStatus || header.p },
          (addSegmentAndCheck segments { header := header, buf := payload }).2) := by
  have hfst : (addSegmentAndCheck segments { header := header, buf := payload }).1
      = insertSegment { header := header, buf := payload } segments := by
    simp only [addSegmentAndCheck]
    split <;> rfl
  simp [storeSegment, h, hsome, pollDiscarded, hfst]

/-- A segment is stored without the transmit half. -/
theorem storeSegment_txSame (st : RlcAm) (payload : Bytes) (header : AmdPduHeader) :
    TxSame st (storeSegment st payload header).1 := by
  cases hin : insideRxWindow st header.sn with
  | false =>
    rw [storeSegment_outside hin]
    constructor <;> rfl
  | true =>
    cases hseg : st.rxSegments header.sn with
    | none =>
      obtain ⟨_, _, _, h⟩ := storeSegment_first hin hseg payload
      rw [h]
      constructor <;> rfl
    | some segments =>
      rw [storeSegment_next hin hseg]
      constructor <;> rfl

/-- `handle_data_pdu_segment` keeps the transmit half. -/
theorem handleDataPduSegment_txSame (st : RlcAm) (now : Nat) (payload : Bytes)
    (header : AmdPduHeader) : TxSame st (handleDataPduSegment st now payload header) := by
  have hs := storeSegment_txSame st payload header
  unfold handleDataPduSegment
  split
  · rename_i heq
    rw [heq] at hs
    exact hs
  · rename_i st₁ payload' full heq
    rw [heq] at hs
    have hd := hs.trans (handleDataPdu_txSame st₁ now payload' full)
    exact ⟨hd.txSdu, hd.txSduQueue, hd.txWindow, hd.retxQueue, hd.vtA, hd.vtMs, hd.vtS⟩

/-- What `handle_data_pdu_segment` can do: discard the segment, store the first segment of a
PDU and move `vr_h`, store a further one, or hand the complete PDU over. -/
theorem handleDataPduSegment_cases (st : RlcAm) (now : Nat) (payload : Bytes)
    (header : AmdPduHeader) :
    (insideRxWindow st header.sn = false ∧
      handleDataPduSegment st now payload header = pollDiscarded st header) ∨
    (insideRxWindow st header.sn = true ∧ st.rxSegments header.sn = none ∧
      handleDataPduSegment st now payload header
        = checkPollBit (updateVrH { st with
            rxSegments := st.rxSegments.insert header.sn [{ header := header, buf := payload }] }
          header.sn) header) ∨
    (insideRxWindow st header.sn = true ∧ ∃ segments st₁, st.rxSegments header.sn = some segments ∧
      st₁ = { st with
        rxSegments := st.rxSegments.insert header.sn
          (insertSegment { header := header, buf := payload } segments)
        doStatus := st.doStatus || header.p } ∧
      (handleDataPduSegment st now payload header = st₁ ∨
        ∃ data, handleDataPduSegment st now payload header
          = { handleDataPdu st₁ now data
                (rebuildHeader (insertSegment { header := header, buf := payload } segments)) with
              rxSegments := (handleDataPdu st₁ now data (rebuildHeader
                (insertSegment { header := header, buf := payload } segments))).rxSegments.erase
                  header.sn })) := by
  cases hin : insideRxWindow st header.sn with
  | false =>
    refine .inl ⟨rfl, ?_⟩
    rw [handleDataPduSegment, storeSegment_outside hin]
  | true =>
    cases hseg : st.rxSegments header.sn with
    | none =>
      refine .inr (.inl ⟨rfl, rfl, ?_⟩)
      simp [handleDataPduSegment, storeSegment, hin, hseg]
    | some segments =>
      refine .inr (.inr ⟨rfl, segments, _, rfl, rfl, ?_⟩)
      rw [handleDataPduSegment, storeSegment_next hin hseg, addSegmentAndCheck_call]
      -- A further segment: the PDU goes on when this one completes it.
      by_cases hcomplete : segmentsComplete 0
          (insertSegment { header := header, buf := payload } segments) = true
      · rw [if_pos hcomplete]
        exact .inr ⟨_, rfl⟩
      · rw [if_neg hcomplete]
        exact .inl rfl

/-- A segment leaves the configuration and the stored report alone. -/
theorem handleDataPduSegment_setupSame (st : RlcAm) (now : Nat) (payload : Bytes)
    (header : AmdPduHeader) : SetupSame st (handleDataPduSegment st now payload header) := by
  rcases handleDataPduSegment_cases st now payload header with
    ⟨-, heq⟩ | ⟨-, -, heq⟩ | ⟨-, segments, st₁, -, rfl, heq | ⟨data, heq⟩⟩
  · rw [heq]
    exact ⟨rfl, rfl⟩
  · obtain ⟨_, hv⟩ := updateVrH_frame { st with
      rxSegments := st.rxSegments.insert header.sn [{ header := header, buf := payload }] }
      header.sn
    rw [heq, hv]
    obtain ⟨_, _, hp⟩ := checkPollBit_frame _ header
    rw [hp]
    exact ⟨rfl, rfl⟩
  · rw [heq]
    exact ⟨rfl, rfl⟩
  · rw [heq]
    have hpdu := handleDataPdu_setupSame { st with
      rxSegments := st.rxSegments.insert header.sn
        (insertSegment { header := header, buf := payload } segments)
      doStatus := st.doStatus || header.p } now data
      (rebuildHeader (insertSegment { header := header, buf := payload } segments))
    exact ⟨hpdu.cfg, hpdu.status⟩

/-- A NACK changes `retx_queue` only. -/
theorem queueNack_frame (i : Nat) (st : RlcAm) (nack : StatusNack) :
    ∃ q, queueNack i st nack = { st with retxQueue := q } := by
  unfold queueNack
  split
  · split
    · split
      · exact ⟨_, rfl⟩
      · exact ⟨_, rfl⟩
    · exact ⟨_, rfl⟩
  · exact ⟨_, rfl⟩

/-- A NACK leaves the receive half alone. -/
theorem queueNack_rxSame (i : Nat) (st : RlcAm) (nack : StatusNack) :
    RxSame st (queueNack i st nack) := by
  unfold queueNack
  split
  · split
    · split <;> constructor <;> rfl
    · exact .refl st
  · exact .refl st

/-- An ACK writes `tx_window` and the edges of the window. -/
theorem ackPdu_frame (i : Nat) (updateVtA : Bool) (st : RlcAm) :
    ∃ txWindow vtA vtMs, ackPdu i updateVtA st
      = { st with txWindow := txWindow, vtA := vtA, vtMs := vtMs } := by
  unfold ackPdu
  split
  · split <;> exact ⟨_, _, _, rfl⟩
  · exact ⟨_, _, _, rfl⟩

/-- An ACK leaves the receive half alone. -/
theorem ackPdu_rxSame (i : Nat) (updateVtA : Bool) (st : RlcAm) :
    RxSame st (ackPdu i updateVtA st) := by
  obtain ⟨_, _, _, hf⟩ := ackPdu_frame i updateVtA st
  rw [hf]
  constructor <;> rfl

/-- What every ACK and every NACK of a status PDU preserves holds after its loop. -/
theorem handleAcks_inv {P : RlcAm → Prop} {status : StatusPdu}
    (hnack : ∀ i st, ∀ n ∈ status.nacks, P st → P (queueNack i st n))
    (hack : ∀ i updateVtA st, P st → P (ackPdu i updateVtA st)) :
    ∀ (rounds i : Nat) (updateVtA : Bool) {st : RlcAm}, P st →
      P (handleAcks status rounds i updateVtA st) := by
  -- The inner loop over the NACKs.
  have hfold : ∀ (i : Nat) (nacks : List StatusNack), (∀ n ∈ nacks, n ∈ status.nacks) →
      ∀ {st : RlcAm}, P st → P (nacks.foldl (queueNack i) st) := by
    intro i nacks
    induction nacks with
    | nil => exact fun _ _ h => h
    | cons n ns ih =>
      intro hmem st h
      exact ih (fun m hm => hmem m (List.mem_cons_of_mem _ hm))
        (hnack i st n (hmem n (List.mem_cons_self ..)) h)
  intro rounds
  induction rounds with
  | zero => exact fun _ _ _ h => h
  | succ rounds ih =>
    intro i updateVtA st h
    rw [handleAcks]
    split
    · refine ih _ _ ?_
      split
      · exact hfold i status.nacks (fun _ hn => hn) h
      · exact hack i _ st h
    · exact h

/-- A status report of the peer leaves the configuration and the entity's own report alone. -/
theorem handleStatus_setupSame (st : RlcAm) (status : StatusPdu) :
    SetupSame st (handleStatus st status) := by
  refine handleAcks_inv (P := SetupSame st) ?_ ?_ 1024 st.vtA true ⟨rfl, rfl⟩
  · intro i st' n _ h
    obtain ⟨q, hq⟩ := queueNack_frame i st' n
    rw [hq]
    exact ⟨h.cfg, h.status⟩
  · intro i upd st' h
    obtain ⟨_, _, _, hf⟩ := ackPdu_frame i upd st'
    rw [hf]
    exact ⟨h.cfg, h.status⟩

/-- `handle_control_pdu` keeps the receive half. -/
theorem handleStatus_rxSame (st : RlcAm) (status : StatusPdu) :
    RxSame st (handleStatus st status) := by
  refine handleAcks_inv (P := RxSame st) (fun i _ n _ h => h.trans (queueNack_rxSame i _ n))
    (fun i upd _ h => h.trans (ackPdu_rxSame i upd _)) 1024 st.vtA true ?_
  constructor <;> rfl

/-- The receive side of `write_pdu`: nothing, unless it is given a data PDU. -/
theorem writePdu_kinds {L : SrslteBit} {st st' : RlcAm} {now : Nat} {payload : Bytes}
    (h : writePdu L st now payload = some st') :
    ((∀ header data, readDataPduHeader payload = some (header, data) → header.dc ≠ .dataPdu) ∧
      RxSame st st') ∨
    (∃ header data, readDataPduHeader payload = some (header, data) ∧ header.dc = .dataPdu ∧
      (header.rf = true ∧ st' = handleDataPduSegment st now data header ∨
        header.rf = false ∧ st' = handleDataPdu st now data header)) := by
  cases payload with
  | nil =>
    obtain rfl := Option.some.inj h
    refine .inl ⟨fun header data hread => ?_, .refl _⟩
    cases hread
  | cons b0 rest =>
    -- Control PDUs are status reports; only a data PDU has its header read.
    cases hctrl : isControlPdu b0 with
    | true =>
      rw [writePdu, if_pos hctrl] at h
      obtain ⟨status, -, rfl⟩ := Option.map_eq_some_iff.mp h
      refine .inl ⟨fun header data hread hdc => ?_, handleStatus_rxSame st status⟩
      rw [(isControlPdu_of_read hread).mpr hdc] at hctrl
      cases hctrl
    | false =>
      rw [writePdu, if_neg (by simp [hctrl])] at h
      obtain ⟨⟨header, data⟩, hread, hpdu⟩ := Option.bind_eq_some_iff.mp h
      refine .inr ⟨header, data, hread, (isControlPdu_of_read hread).mp hctrl, ?_⟩
      cases hrf : header.rf with
      | true =>
        simp only [hrf, if_true] at hpdu
        exact .inl ⟨rfl, (Option.some.inj hpdu).symm⟩
      | false =>
        simp only [hrf, Bool.false_eq_true, if_false] at hpdu
        exact .inr ⟨rfl, (Option.some.inj hpdu).symm⟩

/-- `w'` has no PDU that `w` does not have. -/
def SubWindow (w w' : Dict Nat AmdTxPdu) : Prop :=
  ∀ sn tx', w' sn = some tx' → ∃ tx, w sn = some tx ∧ tx'.header = tx.header ∧ tx'.buf = tx.buf

section
variable {w w' w'' : Dict Nat AmdTxPdu}

/-- A window has no PDU that it does not have. -/
theorem SubWindow.refl (w : Dict Nat AmdTxPdu) : SubWindow w w :=
  fun _ tx h => ⟨tx, h, rfl, rfl⟩

/-- Windows that lose PDUs twice have lost them once. -/
theorem SubWindow.trans (h : SubWindow w w') (h' : SubWindow w' w'') : SubWindow w w'' := by
  intro sn tx'' htx''
  obtain ⟨tx', htx', hheader', hbuf'⟩ := h' sn tx'' htx''
  obtain ⟨tx, htx, hheader, hbuf⟩ := h sn tx' htx'
  exact ⟨tx, htx, hheader'.trans hheader, hbuf'.trans hbuf⟩

/-- An erased PDU is one less. -/
theorem SubWindow.erase (w : Dict Nat AmdTxPdu) (sn : Nat) : SubWindow w (w.erase sn) := by
  intro sn' tx h
  rw [Dict.erase_apply] at h
  split at h
  · cases h
  · exact ⟨tx, h, rfl, rfl⟩

/-- A PDU of the window is written back with other counters. -/
theorem SubWindow.insert {sn : Nat} {tx tx' : AmdTxPdu} (h : w sn = some tx)
    (hheader : tx'.header = tx.header) (hbuf : tx'.buf = tx.buf) :
    SubWindow w (w.insert sn tx') := by
  intro sn' tx'' h'
  rw [Dict.insert_apply] at h'
  split at h'
  · rename_i hsn
    obtain rfl := Option.some.inj h'
    exact ⟨tx, by rw [hsn]; exact h, hheader, hbuf⟩
  · exact ⟨tx'', h', rfl, rfl⟩

end

/-- An ACK adds no PDU to the window. -/
theorem ackPdu_subWindow (i : Nat) (updateVtA : Bool) (st : RlcAm) :
    SubWindow st.txWindow (ackPdu i updateVtA st).txWindow := by
  unfold ackPdu
  split
  · rename_i tx htx
    split
    · exact .erase _ i
    · exact .insert htx rfl rfl
  · exact .refl _

/-! ### The buffer state queries -/

/-- `check_reordering_timeout` writes the reordering timer, `vr_ms`, `vr_x` and
`do_status`. -/
theorem checkReorderingTimeout_frame (st : RlcAm) (now : Nat) :
    ∃ timer vrMs vrX doStatus, checkReorderingTimeout st now
      = { st with
          reorderingTimeout := timer, vrMs := vrMs, vrX := vrX, doStatus := doStatus } := by
  unfold checkReorderingTimeout
  split
  · simp only
    split <;> exact ⟨_, _, _, _, rfl⟩
  · exact ⟨_, _, _, _, rfl⟩

/-- Both queries check the reordering timer. Then they compute a new status PDU when one is
due. -/
theorem getBufferState_cases (st : RlcAm) (now : Nat) :
    (getBufferState st now).1 = checkReorderingTimeout st now ∨
    ((checkReorderingTimeout st now).doStatus = true ∧
      (getBufferState st now).1 = prepareStatus (checkReorderingTimeout st now)) := by
  unfold getBufferState
  simp only
  split
  · rename_i h
    simp only [Bool.and_eq_true] at h
    exact .inr ⟨h.1, rfl⟩
  · split <;> exact .inl rfl

/-- `get_total_buffer_state` checks the reordering timer and then computes the report if one is due.
-/
theorem getTotalBufferState_cases (st : RlcAm) (now : Nat) :
    (getTotalBufferState st now).1 = checkReorderingTimeout st now ∨
    ((checkReorderingTimeout st now).doStatus = true ∧
      (getTotalBufferState st now).1 = prepareStatus (checkReorderingTimeout st now)) := by
  unfold getTotalBufferState
  simp only
  split
  · rename_i h
    simp only [Bool.and_eq_true] at h
    exact .inr ⟨h.1, rfl⟩
  · exact .inl rfl

/-- The report is stored outside the receive half. -/
theorem prepareStatus_rxSame (st : RlcAm) : RxSame st (prepareStatus st) := by
  constructor <;> rfl

/-- Both queries write the reordering timer, `vr_ms`, `vr_x`, `do_status` and the status
PDU. -/
theorem getBufferState_frame (st : RlcAm) (now : Nat) :
    ∃ timer vrMs vrX doStatus status, (getBufferState st now).1
      = { st with
          reorderingTimeout := timer, vrMs := vrMs, vrX := vrX, doStatus := doStatus
          status := status } := by
  obtain ⟨_, _, _, _, hf⟩ := checkReorderingTimeout_frame st now
  rcases getBufferState_cases st now with h | ⟨-, h⟩
  · rw [h, hf]
    exact ⟨_, _, _, _, _, rfl⟩
  · rw [h, hf]
    exact ⟨_, _, _, _, _, rfl⟩

/-- What the buffer state query can change: the reordering timer, its variables, and the report. -/
theorem getTotalBufferState_frame (st : RlcAm) (now : Nat) :
    ∃ timer vrMs vrX doStatus status, (getTotalBufferState st now).1
      = { st with
          reorderingTimeout := timer, vrMs := vrMs, vrX := vrX, doStatus := doStatus
          status := status } := by
  obtain ⟨_, _, _, _, hf⟩ := checkReorderingTimeout_frame st now
  rcases getTotalBufferState_cases st now with h | ⟨-, h⟩
  · rw [h, hf]
    exact ⟨_, _, _, _, _, rfl⟩
  · rw [h, hf]
    exact ⟨_, _, _, _, _, rfl⟩

/-- The buffer state query leaves the transmit half alone. -/
theorem getBufferState_txSame (st : RlcAm) (now : Nat) :
    TxSame st (getBufferState st now).1 := by
  obtain ⟨_, _, _, _, _, hf⟩ := getBufferState_frame st now
  rw [hf]
  constructor <;> rfl

/-- So does the query of the total. -/
theorem getTotalBufferState_txSame (st : RlcAm) (now : Nat) :
    TxSame st (getTotalBufferState st now).1 := by
  obtain ⟨_, _, _, _, _, hf⟩ := getTotalBufferState_frame st now
  rw [hf]
  constructor <;> rfl

/-! ### The transmit half over all calls -/

/-- What a call that returns does to the transmit half. Data PDUs and the buffer state queries
leave it alone. -/
inductive TxStep (L : SrslteBit) (st : RlcAm) : AmCall → RlcAm → Prop where
  | writeSdu {sdu : Bytes} :
      TxStep L st (.writeSdu sdu) { st with txSduQueue := st.txSduQueue ++ [sdu] }
  | readPdu {now n : Nat} {st' : RlcAm} {out : Bytes}
      (read : readPdu L st now n = some (st', out)) : TxStep L st (.readPdu now n) st'
  | status {now : Nat} {b0 : UInt8} {rest : Bytes} {status : StatusPdu}
      (control : isControlPdu b0 = true) (read : readStatusPdu L (b0 :: rest) = some status) :
      TxStep L st (.writePdu now (b0 :: rest)) (handleStatus st status)
  | receive {c : AmCall} {st' : RlcAm} (noGrant : ∀ now n, c ≠ .readPdu now n)
      (data : ∀ now b0 rest, c = .writePdu now (b0 :: rest) → isControlPdu b0 = false)
      (same : TxSame st st') : TxStep L st c st'
  | reset : TxStep L st .reset (reset st)

/-- Every call that returns does one of the listed things to the transmit half. -/
theorem amStep_txStep {L : SrslteBit} {st st' : RlcAm} {c : AmCall}
    (hstep : amStep L st c = some st') : TxStep L st c st' := by
  cases c with
  | writeSdu sdu =>
    obtain ⟨-, rfl⟩ := writeSdu_cases hstep
    exact .writeSdu
  | readPdu now n =>
    obtain ⟨⟨st₁, out⟩, hread, rfl⟩ := Option.map_eq_some_iff.mp hstep
    exact .readPdu hread
  | writePdu now payload =>
    cases payload with
    | nil =>
      obtain rfl := Option.some.inj hstep
      exact .receive nofun nofun (.refl st)
    | cons b0 rest =>
      -- Of the received PDUs only a status report touches the transmitter.
      cases hctrl : isControlPdu b0 with
      | true =>
        have hstep' : handleControlPdu L st (b0 :: rest) = some st' := by
          rw [← hstep]
          simp [amStep, writePdu, hctrl]
        obtain ⟨status, hread, rfl⟩ := Option.map_eq_some_iff.mp hstep'
        exact .status hctrl hread
      | false =>
        refine .receive nofun ?_ ?_
        · intro now' b0' rest' heq
          cases heq
          exact hctrl
        · simp only [amStep, writePdu, hctrl, Bool.false_eq_true, if_false,
            Option.bind_eq_bind] at hstep
          obtain ⟨⟨header, data⟩, -, hpdu⟩ := Option.bind_eq_some_iff.mp hstep
          split at hpdu
          · obtain rfl := Option.some.inj hpdu
            exact handleDataPduSegment_txSame st now data header
          · obtain rfl := Option.some.inj hpdu
            exact handleDataPdu_txSame st now data header
  | getBufferState now =>
    obtain rfl := Option.some.inj hstep
    exact .receive nofun nofun (getBufferState_txSame st now)
  | getTotalBufferState now =>
    obtain rfl := Option.some.inj hstep
    exact .receive nofun nofun (getTotalBufferState_txSame st now)
  | reset =>
    obtain rfl := Option.some.inj hstep
    exact .reset

/-! ### The receive half over all calls -/

/-- What a call that returns does to the receive half. A status PDU and the calls of the transmit
side leave it alone, and the buffer state queries check the reordering timer. -/
inductive RxStep (st : RlcAm) : AmCall → RlcAm → Prop where
  | transmit {c : AmCall} {st' : RlcAm} (noReset : c ≠ .reset)
      (noData : ∀ now payload header data, c = .writePdu now payload →
        readDataPduHeader payload = some (header, data) → header.dc ≠ .dataPdu)
      (same : RxSame st st') : RxStep st c st'
  | pdu {now : Nat} {payload data : Bytes} {header : AmdPduHeader}
      (read : readDataPduHeader payload = some (header, data)) (dc : header.dc = .dataPdu)
      (rf : header.rf = false) :
      RxStep st (.writePdu now payload) (handleDataPdu st now data header)
  | segment {now : Nat} {payload data : Bytes} {header : AmdPduHeader}
      (read : readDataPduHeader payload = some (header, data)) (dc : header.dc = .dataPdu)
      (rf : header.rf = true) :
      RxStep st (.writePdu now payload) (handleDataPduSegment st now data header)
  | query {now : Nat} {c : AmCall} {st' : RlcAm}
      (call : c = .getBufferState now ∨ c = .getTotalBufferState now)
      (same : RxSame (checkReorderingTimeout st now) st') : RxStep st c st'
  | reset : RxStep st .reset (reset st)

/-- Every call that returns does one of the listed things to the receive half. -/
theorem amStep_rxStep {L : SrslteBit} {st st' : RlcAm} {c : AmCall}
    (hstep : amStep L st c = some st') : RxStep st c st' := by
  cases c with
  | writeSdu sdu => exact .transmit nofun nofun (writeSdu_rxSame hstep)
  | readPdu now n =>
    obtain ⟨⟨st₁, out⟩, hread, rfl⟩ := Option.map_eq_some_iff.mp hstep
    exact .transmit nofun nofun (readPdu_rxSame hread)
  | writePdu now payload =>
    rcases writePdu_kinds hstep with ⟨hno, hrx⟩ | ⟨header, data, hread, hdc,
      ⟨hrf, rfl⟩ | ⟨hrf, rfl⟩⟩
    · refine .transmit nofun ?_ hrx
      intro now' payload' header data heq
      cases heq
      exact hno header data
    · exact .segment hread hdc hrf
    · exact .pdu hread hdc hrf
  | getBufferState now =>
    obtain rfl := Option.some.inj hstep
    refine .query (.inl rfl) ?_
    -- A query prepares the status report when one is due, and does nothing else.
    rcases getBufferState_cases st now with heq | ⟨-, heq⟩
    · rw [heq]
      exact .refl _
    · rw [heq]
      exact prepareStatus_rxSame _
  | getTotalBufferState now =>
    obtain rfl := Option.some.inj hstep
    refine .query (.inr rfl) ?_
    rcases getTotalBufferState_cases st now with heq | ⟨-, heq⟩
    · rw [heq]
      exact .refl _
    · rw [heq]
      exact prepareStatus_rxSame _
  | reset =>
    obtain rfl := Option.some.inj hstep
    exact .reset

end SrsUE.Proofs.Rlc
