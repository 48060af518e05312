import SrsUE.Lib.Fifo
import SrsUE.Lib.Run
import SrsUE.Proofs.Rlc.AmDataHeader
import SrsUE.Proofs.Rlc.AmFill
import SrsUE.Proofs.Rlc.AmStatusExchange

/-!
# `SrsUE.Proofs.Rlc.AmAgreement`: a sender and a receiver

`AmLink` is a pair of `rlc_am` entities with the PDUs between them. The data PDUs that were
sent may arrive any number of times, in any order or never. The status PDUs may be lost, and
arrive in order. `linkStep` is one step of either entity or of the channels, and `LinkReach`
is every state that is reached while at most 512 PDUs are outstanding, no PDU is resegmented,
and no data PDU arrives that is more than 512 behind `vr_r`.

`linkReach_agrees` is the result: `vt_a` of the sender never passes `vr_r` of the receiver,
and `vr_r` never passes `vt_s`. The sender erases a PDU only after the receiver has it, and
holds every PDU that the receiver is still missing.

The receiver may be asked for its buffer state and granted transmissions in any order. A
status PDU that is sent long after `prepare_status` computed it is only less up to date.
-/

set_option autoImplicit false

namespace SrsUE.Proofs.Rlc

open SrsUE.Lib
open SrsUE.Rlc

/-! ### The system -/

/-- A sender and a receiver. `vtA`, `vtS` and `vrR` are the absolute indices of `vt_a` and
`vt_s` of the sender and of `vr_r` of the receiver. -/
structure AmLink where
  sender : RlcAm
  receiver : RlcAm
  vtA : Nat := 0
  vtS : Nat := 0
  vrR : Nat := 0
  /-- The data PDUs that were sent, with their indices. -/
  sent : List (Nat × Bytes) := []
  /-- The indices of the data PDUs that have arrived. -/
  received : List Nat := []
  /-- The status PDUs in flight, the oldest first. -/
  statuses : List Bytes := []

/-- The steps of the two entities and of the channels. -/
inductive LinkAction where
  /-- `write_sdu` of the sender. -/
  | writeSdu (sdu : Bytes)
  /-- `read_pdu` of the sender. -/
  | send (now nofBytes : Nat)
  /-- `write_pdu` of the receiver, for a copy of the data PDU at position `k` of `sent`. -/
  | arrive (now k : Nat)
  /-- `get_buffer_state` of the receiver, which checks the reordering timer. -/
  | query (now : Nat)
  /-- `get_total_buffer_state` of the receiver, which does so too. -/
  | queryTotal (now : Nat)
  /-- `read_pdu` of the receiver. -/
  | report (now nofBytes : Nat)
  /-- The loss of the status PDU at position `k` of `statuses`. -/
  | lose (k : Nat)
  /-- `write_pdu` of the sender, for the oldest status PDU. -/
  | ack (now : Nat)
deriving DecidableEq, Repr

/-- The link with new states of the entities. Each index moves as far as its variable
does. -/
def AmLink.moveTo (t : AmLink) (sender receiver : RlcAm) : AmLink :=
  { t with
    sender := sender
    receiver := receiver
    vtA := t.vtA + modDist 1024 sender.vtA t.sender.vtA
    vtS := t.vtS + modDist 1024 sender.vtS t.sender.vtS
    vrR := t.vrR + modDist 1024 receiver.vrR t.receiver.vrR }

/-- The data PDU `out` of the sender `st` with its index, when there is one. The index is as
far above the one of `vt_a` as the sequence number is above `vt_a`. -/
def sentPdu (st : RlcAm) (vtA : Nat) (out : Bytes) : List (Nat × Bytes) :=
  match readDataPduHeader out with
  | some (header, _) => [(vtA + st.txModBase header.sn, out)]
  | none => []

section
variable (L : SrslteBit)

/-- One step of the link, when the function that it calls returns. -/
def linkStep (t : AmLink) : LinkAction → Option AmLink
  | .writeSdu sdu => (writeSdu t.sender sdu).map fun st => t.moveTo st t.receiver
  | .send now nofBytes => (readPdu L t.sender now nofBytes).map fun (st, out) =>
      { t.moveTo st t.receiver with sent := sentPdu t.sender t.vtA out ++ t.sent }
  | .arrive now k => do
      let (i, bytes) ← t.sent[k]?
      let st ← writePdu L t.receiver now bytes
      some { t.moveTo t.sender st with received := i :: t.received }
  | .query now => some (t.moveTo t.sender (getBufferState t.receiver now).1)
  | .queryTotal now => some (t.moveTo t.sender (getTotalBufferState t.receiver now).1)
  | .report now nofBytes => (readPdu L t.receiver now nofBytes).map fun (st, out) =>
      { t.moveTo t.sender st with
        statuses := t.statuses ++ (if out.isEmpty then [] else [out]) }
  | .lose k => some { t with statuses := t.statuses.eraseIdx k }
  | .ack now =>
      match t.statuses with
      | [] => none
      | bytes :: rest => (writePdu L t.sender now bytes).map fun st =>
          { t.moveTo st t.receiver with statuses := rest }

end

/-- The grant holds the whole of the next retransmission. -/
def holdsRetx (st : RlcAm) (nofBytes : Nat) : Bool :=
  match liveRetx st with
  | [] => true
  | retx :: _ => (st.txWindow retx.sn).all fun tx => decide (requiredBufferSize tx retx ≤ nofBytes)

/-- The steps of the runs considered here. The sender resegments nothing and keeps at most
512 PDUs outstanding, and no data PDU arrives more than 512 behind `vr_r`. -/
def linkAllowed (t : AmLink) : LinkAction → AmLink → Bool
  | .send _ nofBytes, t' => holdsRetx t.sender nofBytes && decide (outstanding t'.sender ≤ 512)
  | .arrive _ k, _ => t.sent[k]?.all fun pdu => decide (t.vrR ≤ pdu.1 + 512)
  | _, _ => true

/-- One step of such a run. -/
def runStep (L : SrslteBit) (t : AmLink) (act : LinkAction) : Option AmLink :=
  (linkStep L t act).filter (linkAllowed t act)

/-- Two fresh entities. -/
def freshLink (cnfg cnfg' : AmConfig) : AmLink :=
  { sender := configure {} cnfg, receiver := configure {} cnfg' }

/-- The states of a link that starts with two fresh entities. -/
def LinkReach (L : SrslteBit) (t : AmLink) : Prop :=
  ∃ cnfg cnfg' acts, runTo (runStep L) (freshLink cnfg cnfg') acts = some t

/-! ### The sender -/

/-- The header of a whole data PDU with the sequence number `sn`. -/
structure WholeHeader (sn : Nat) (header : AmdPduHeader) : Prop where
  dc : header.dc = .dataPdu
  rf : header.rf = false
  sn : header.sn = sn
  li : header.li.length ≤ 512

/-- `bytes` is a transmission of the PDU `tx`. Each has its own poll bit. -/
def CopyOf (tx : AmdTxPdu) (bytes : Bytes) : Prop :=
  ∃ p, bytes = writeDataPduHeader { tx.header with p := p } ++ tx.buf

/-- The bytes of a whole data PDU with index `i`. -/
def ReadsAs (i : Nat) (bytes : Bytes) : Prop :=
  ∃ header data, readDataPduHeader bytes = some (header, data) ∧ header.dc = .dataPdu ∧
    header.rf = false ∧ header.sn = i % 1024

/-- Every transmission of a whole PDU is read as that PDU. -/
theorem CopyOf.readsAs {i : Nat} {tx : AmdTxPdu} {bytes : Bytes} (h : CopyOf tx bytes)
    (hw : WholeHeader (i % 1024) tx.header) : ReadsAs i bytes := by
  obtain ⟨p, rfl⟩ := h
  refine ⟨_, _, readDataPduHeader_write { tx.header with p := p } hw.dc hw.li tx.buf, hw.dc,
    hw.rf, ?_⟩
  show tx.header.sn % 1024 = _
  rw [hw.sn, Nat.mod_mod]

/-- The sender, whose window holds the indices from `a` up to `s`. `sent` are all its data
PDUs so far: those not below `a` are copies of what `tx_window` holds. -/
structure SenderInv (st : RlcAm) (a s : Nat) (sent : List (Nat × Bytes)) : Prop
    extends TxIndexed st a s where
  noStatus : st.doStatus = false
  capacity : st.txSduQueue.length ≤ 16
  wholeRetx : ∀ retx ∈ st.retxQueue, retx.isSegment = false
  wholePdu : ∀ sn tx, st.txWindow sn = some tx → WholeHeader sn tx.header
  sentAll : ∀ i, i < s → ∃ bytes, (i, bytes) ∈ sent
  sentRead : ∀ i bytes, (i, bytes) ∈ sent → i < s ∧ ReadsAs i bytes
  sentHeld : ∀ i bytes, (i, bytes) ∈ sent → a ≤ i →
    ∃ tx, st.txWindow (i % 1024) = some tx ∧ CopyOf tx bytes

section
variable {L : SrslteBit} {st st' : RlcAm} {a s : Nat} {sent : List (Nat × Bytes)}

/-- A sender that has sent nothing. -/
theorem senderInv_init (cnfg : AmConfig) : SenderInv (configure {} cnfg) 0 0 [] where
  ok := txWindowOk_init cnfg
  vtA := rfl
  vtS := rfl
  a_le_s := Nat.le_refl 0
  s_le := by omega
  noStatus := rfl
  capacity := by simp [configure]
  wholeRetx := by simp [configure]
  wholePdu := fun _ _ h => by cases h
  sentAll := by simp
  sentRead := by simp
  sentHeld := by simp

/-- An SDU in the queue changes nothing of what was sent. -/
theorem senderInv_writeSdu (inv : SenderInv st a s sent) {sdu : Bytes}
    (h : writeSdu st sdu = some st') : SenderInv st' a s sent := by
  obtain ⟨hcap, rfl⟩ := writeSdu_cases h
  refine { inv with ok := inv.ok.of_keys rfl rfl rfl fun _ => rfl, capacity := ?_ }
  show (st.txSduQueue ++ [sdu]).length ≤ 16
  rw [List.length_append, List.length_singleton]
  omega

/-- The index of a data PDU is recovered from its sequence number. -/
theorem sentPdu_of_readsAs (h : TxIndexed st a s) {i : Nat} {out : Bytes} (hai : a ≤ i)
    (hi : i < a + 1024) (hread : ReadsAs i out) : sentPdu st a out = [(i, out)] := by
  obtain ⟨header, data, hread, -, -, hsn⟩ := hread
  rw [sentPdu, hread]
  show [(a + st.txModBase header.sn, out)] = _
  rw [hsn, h.txModBase hai hi, Nat.add_sub_cancel' hai]

/-- The sender transmits the PDU `tx` with index `i`, which is then in `tx_window`. It is a
new one, or one of which every earlier transmission is a copy too. -/
theorem SenderInv.transmit (inv : SenderInv st a s sent) {s' i : Nat} (tx : AmdTxPdu)
    {out : Bytes} (hidx : TxIndexed st' a s') (hnoStatus : st'.doStatus = false)
    (hcap : st'.txSduQueue.length ≤ 16) (hretx : ∀ retx ∈ st'.retxQueue, retx ∈ st.retxQueue)
    (hw : st'.txWindow = st.txWindow.insert (i % 1024) tx) (hai : a ≤ i) (his : i < s')
    (hss : s ≤ s') (hcover : ∀ j, j < s' → j < s ∨ j = i)
    (hold : ∀ bytes, (i, bytes) ∈ sent → CopyOf tx bytes)
    (hwhole : WholeHeader (i % 1024) tx.header) (hcopy : CopyOf tx out) :
    SenderInv st' a s' (sentPdu st a out ++ sent) := by
  have hsle := hidx.s_le
  have hread := hcopy.readsAs hwhole
  rw [sentPdu_of_readsAs inv.toTxIndexed hai (by omega) hread, List.singleton_append]
  -- The new PDU is the one at index `i`; all others are as they were.
  refine { toTxIndexed := hidx, noStatus := hnoStatus, capacity := hcap, wholeRetx := ?_,
           wholePdu := ?_, sentAll := ?_, sentRead := ?_, sentHeld := ?_ }
  · exact fun retx h => inv.wholeRetx retx (hretx retx h)
  · intro sn tx' htx'
    rw [hw, Dict.insert_apply] at htx'
    split at htx'
    · rename_i hsn
      obtain rfl := Option.some.inj htx'
      rw [hsn]
      exact hwhole
    · exact inv.wholePdu sn tx' htx'
  · intro j hj
    rcases hcover j hj with hj | rfl
    · obtain ⟨bytes, hmem⟩ := inv.sentAll j hj
      exact ⟨bytes, List.mem_cons_of_mem _ hmem⟩
    · exact ⟨out, List.mem_cons_self ..⟩
  · intro j bytes hmem
    rcases List.mem_cons.mp hmem with heq | hmem
    · obtain ⟨rfl, rfl⟩ := Prod.mk.inj heq
      exact ⟨his, hread⟩
    · obtain ⟨hj, hread⟩ := inv.sentRead j bytes hmem
      exact ⟨by omega, hread⟩
  · intro j bytes hmem haj
    rw [hw, Dict.insert_apply]
    rcases List.mem_cons.mp hmem with heq | hmem'
    · obtain ⟨rfl, rfl⟩ := Prod.mk.inj heq
      exact ⟨tx, if_pos rfl, hcopy⟩
    · by_cases hji : j % 1024 = i % 1024
      · -- Two outstanding indices with one sequence number are one index.
        have hj := (inv.sentRead j bytes hmem').1
        obtain rfl : j = i := eq_of_mod_eq hji (by omega) (by omega)
        exact ⟨tx, if_pos rfl, hold bytes hmem'⟩
      · rw [if_neg hji]
        exact inv.sentHeld j bytes hmem' haj

/-- A retransmission. The PDU in `tx_window` is the one that was sent before. -/
theorem SenderInv.retransmit (inv : SenderInv st a s sent) {retx : AmdRetx} {tx : AmdTxPdu}
    {rest : List AmdRetx} (hlive : LiveEntry st retx tx rest) (now : Nat) :
    SenderInv (retransmitPdu { st with retxQueue := retx :: rest } now tx retx rest).1 a s
      (sentPdu st a (retransmitPdu { st with retxQueue := retx :: rest } now tx retx rest).2
        ++ sent) := by
  obtain ⟨hlive, htx⟩ := hlive
  have hsome : (st.txWindow retx.sn).isSome := by
    rw [htx]
    rfl
  obtain ⟨i, hai, his, hsn⟩ := inv.exists_index hsome
  have hwhole := inv.wholePdu retx.sn tx htx
  obtain ⟨_, _, _, _, _, hf⟩ :=
    retransmitPdu_frame { st with retxQueue := retx :: rest } now tx retx rest
  -- A retransmission only counts up in the entry of its PDU.
  have hkeys : ∀ sn,
      (st.txWindow.insert retx.sn { tx with retxCount := tx.retxCount + 1 } sn).isSome
      = (st.txWindow sn).isSome := by
    intro sn
    rw [Dict.insert_apply]
    split
    · rename_i heq
      rw [heq, htx]
      rfl
    · rfl
  have hidx : TxIndexed
      (retransmitPdu { st with retxQueue := retx :: rest } now tx retx rest).1 a s := by
    rw [hf]
    exact { ok := inv.ok.of_keys rfl rfl rfl hkeys, vtA := inv.vtA, vtS := inv.vtS
            a_le_s := inv.a_le_s, s_le := inv.s_le }
  refine inv.transmit (i := i) { tx with retxCount := tx.retxCount + 1 } hidx ?_ ?_ ?_ ?_
    hai his (Nat.le_refl s) (fun _ => .inl) ?_ (hsn ▸ hwhole) ⟨_, rfl⟩
  · rw [hf]
    exact inv.noStatus
  · rw [hf]
    exact inv.capacity
  · rw [hf]
    exact fun r hr => mem_of_liveRetx hlive r (List.mem_cons_of_mem _ hr)
  · rw [hf, hsn]
  · intro bytes hmem
    -- Every copy sent before was one of the PDU that is still in the window.
    obtain ⟨tx', htx', hcopy⟩ := inv.sentHeld i bytes hmem hai
    rw [hsn, htx] at htx'
    obtain rfl := Option.some.inj htx'
    exact hcopy

/-- A new data PDU takes the index `s`. -/
theorem SenderInv.newPdu (inv : SenderInv st a s sent) {now n : Nat} {header : AmdPduHeader}
    {data : Bytes} (hpdu : (buildDataPdu st now n).2 = some (header, data))
    (hout : outstanding (buildDataPdu st now n).1 ≤ 512) :
    SenderInv (buildDataPdu st now n).1 a (s + 1)
      (sentPdu st a (writeDataPduHeader header ++ data) ++ sent) := by
  have has := inv.a_le_s
  have hsle := inv.s_le
  have hcap := inv.capacity
  obtain ⟨-, hn, hdc, hrf, hsn, -, -, -, hli, -⟩ := buildDataPdu_pdu hpdu
  have hlis := (fillPdu_fits st.txSdu st.txSduQueue hn).lis
  obtain ⟨_, _, _, _, hf⟩ := buildDataPdu_frame hpdu
  have hnext : (st.vtS + 1) % 1024 = (s + 1) % 1024 := by rw [inv.vtS, Nat.mod_add_mod]
  -- The window had room before the PDU, as it has none too many after it.
  have hle : s + 1 - a ≤ 512 := by
    rw [hf] at hout
    change st.txModBase ((st.vtS + 1) % 1024) ≤ 512 at hout
    rw [hnext, inv.txModBase (by omega) (by omega)] at hout
    exact hout
  have hok : TxWindowOk (buildDataPdu st now n).1 := by
    rw [buildDataPdu_ok_iff inv.ok hpdu, inv.outstanding]
    omega
  refine inv.transmit (i := s) { header := header, buf := data } ?_ ?_ ?_ ?_ ?_
    has (Nat.lt_succ_self s) (Nat.le_succ s) (fun j hj => by omega) ?_ ?_ ⟨header.p, rfl⟩
  · refine { ok := hok, vtA := ?_, vtS := ?_, a_le_s := by omega, s_le := by omega }
    · rw [hf]
      exact inv.vtA
    · rw [hf]
      exact hnext
  · rw [hf]
    exact inv.noStatus
  · rw [hf]
    have hlen : (fillPdu st.txSdu st.txSduQueue n).queue.length ≤ st.txSduQueue.length :=
      (pullSdus_queue_suffix st.txSduQueue _).length_le
    exact Nat.le_trans hlen hcap
  · rw [hf]
    exact fun _ h => h
  · rw [hf, ← inv.vtS]
  · intro bytes hmem
    exact absurd (inv.sentRead s bytes hmem).1 (Nat.lt_irrefl s)
  · refine { dc := hdc, rf := hrf, sn := hsn.trans inv.vtS, li := ?_ }
    show header.li.length ≤ 512
    rw [hli]
    omega

/-- `read_pdu` of a sender that has room for the next retransmission. -/
theorem SenderInv.readPdu (inv : SenderInv st a s sent) {now n : Nat} {out : Bytes}
    (hread : readPdu L st now n = some (st', out)) (hroom : holdsRetx st n = true)
    (hout : outstanding st' ≤ 512) :
    ∃ s', SenderInv st' a s' (sentPdu st a out ++ sent) ∧ s ≤ s' ∧ s' ≤ s + 1 := by
  rcases readPdu_cases hread with
    ⟨hs, -, -⟩ | ⟨-, -, retx, tx, rest, hlive, hst⟩ | ⟨-, -, rfl, rfl⟩
  · rw [inv.noStatus] at hs
    cases hs
  · have hwhole := inv.wholeRetx retx (mem_of_liveRetx hlive.1 retx (List.mem_cons_self ..))
    have hfit : requiredBufferSize tx retx ≤ n := by
      rw [holdsRetx, hlive.1] at hroom
      simpa [hlive.2] using hroom
    rcases hst with ⟨hseg | hsmall, -⟩ | ⟨-, -, rfl, rfl⟩
    · rw [hwhole] at hseg
      cases hseg
    · omega
    · exact ⟨s, inv.retransmit hlive now, Nat.le_refl s, Nat.le_succ s⟩
  · cases hpdu : (buildDataPdu st now n).2 with
    | none =>
      rw [buildDataPdu_none hpdu]
      exact ⟨s, inv, Nat.le_refl s, Nat.le_succ s⟩
    | some pdu => exact ⟨s + 1, inv.newPdu hpdu hout, Nat.le_succ s, Nat.le_refl _⟩

/-- A NACK without segment offsets queues a whole PDU. -/
theorem queueNack_wholeRetx {i : Nat} {nack : StatusNack} (hso : nack.hasSo = false)
    (h : ∀ retx ∈ st.retxQueue, retx.isSegment = false) :
    ∀ retx ∈ (queueNack i st nack).retxQueue, retx.isSegment = false := by
  unfold queueNack
  split
  · split
    · split
      · exact h
      · intro retx hretx
        rcases List.mem_append.mp hretx with hretx | hretx
        · exact h retx hretx
        · rw [List.mem_singleton.mp hretx]
          simp [retxOfNack, hso]
    · exact h
  · exact h

/-- A status PDU from the time when `vr_r` had the index `r` moves the window to `r`. -/
theorem senderInv_handleStatus (inv : SenderInv st a s sent) {status : StatusPdu} {r ms : Nat}
    (hat : StatusAt status r ms) (har : a ≤ r) (hms : ms ≤ s) :
    SenderInv (handleStatus st status) r s sent := by
  have hidx := handleStatus_txIndexed inv.toTxIndexed hat har hms
  have hsle := hidx.s_le
  -- What ACKs and NACKs keep of the sender's state.
  obtain ⟨hnoStatus, hqueue, hretx, hsub⟩ :
      (handleStatus st status).doStatus = false ∧
      (handleStatus st status).txSduQueue = st.txSduQueue ∧
      (∀ retx ∈ (handleStatus st status).retxQueue, retx.isSegment = false) ∧
      SubWindow st.txWindow (handleStatus st status).txWindow := by
    refine handleAcks_inv (P := fun st' => st'.doStatus = false ∧
      st'.txSduQueue = st.txSduQueue ∧ (∀ retx ∈ st'.retxQueue, retx.isSegment = false) ∧
      SubWindow st.txWindow st'.txWindow) ?_ ?_ 1024 st.vtA true
      ⟨inv.noStatus, rfl, inv.wholeRetx, .refl _⟩
    · rintro i st₁ n hn ⟨h1, h2, h3, h4⟩
      obtain ⟨q, hq⟩ := queueNack_frame i st₁ n
      refine ⟨?_, ?_, queueNack_wholeRetx (hat.nacks n hn).1 h3, ?_⟩
      · rw [hq]; exact h1
      · rw [hq]; exact h2
      · rw [hq]; exact h4
    · rintro i upd st₁ ⟨h1, h2, h3, h4⟩
      obtain ⟨w, vtA, vtMs, hf⟩ := ackPdu_frame i upd st₁
      refine ⟨?_, ?_, ?_, h4.trans (ackPdu_subWindow i upd st₁)⟩
      · rw [hf]; exact h1
      · rw [hf]; exact h2
      · rw [hf]; exact h3
  refine { toTxIndexed := hidx, noStatus := hnoStatus, capacity := ?_, wholeRetx := hretx,
           wholePdu := ?_, sentAll := inv.sentAll, sentRead := inv.sentRead, sentHeld := ?_ }
  · exact Nat.le_trans (Nat.le_of_eq (congrArg _ hqueue)) inv.capacity
  · intro sn tx' htx'
    obtain ⟨tx, htx, hheader, -⟩ := hsub sn tx' htx'
    rw [hheader]
    exact inv.wholePdu sn tx htx
  · intro i bytes hmem hri
    have his := (inv.sentRead i bytes hmem).1
    obtain ⟨tx', htx'⟩ := Option.isSome_iff_exists.mp ((hidx.isSome_iff hri (by omega)).mpr his)
    obtain ⟨tx, htx, hheader, hbuf⟩ := hsub _ tx' htx'
    obtain ⟨tx₀, htx₀, p, hcopy⟩ := inv.sentHeld i bytes hmem (by omega)
    obtain rfl := Option.some.inj (htx.symm.trans htx₀)
    exact ⟨tx', htx', p, by rw [hheader, hbuf]; exact hcopy⟩

/-- `write_pdu` of a status PDU. -/
theorem writePdu_status (L : SrslteBit) (st : RlcAm) (now : Nat) {status : StatusPdu}
    (hn : status.nacks.length ≤ 512) :
    writePdu L st now (writeStatusPdu L status) = some (handleStatus st (wireStatus status)) := by
  obtain ⟨b0, rest, hw, hctl⟩ := writeStatusPdu_control L status
  have hread := readStatusPdu_write L status hn
  rw [hw] at hread ⊢
  simp [writePdu, hctl, handleControlPdu, hread]

end

/-! ### The receiver -/

/-- The receiver, which has no data to send. `s` bounds what it can know of. -/
structure ReceiverInv (st : RlcAm) (r s : Nat) (received : List Nat) : Prop where
  window : ∃ ms h, RxInv st r ms h (· ∈ received) (fun _ _ => True) ∧ h ≤ s
  noSdu : st.txSdu = none
  noSdus : st.txSduQueue = []
  noRetx : st.retxQueue = []

section
variable {L : SrslteBit} {st st' : RlcAm} {r s : Nat} {received : List Nat}

/-- A receiver that has received nothing. -/
theorem receiverInv_init (cnfg : AmConfig) : ReceiverInv (configure {} cnfg) 0 0 [] where
  window := ⟨0, 0, rxInv_init cnfg _, Nat.le_refl 0⟩
  noSdu := rfl
  noSdus := rfl
  noRetx := rfl

/-- `vr_r` never passes `vt_s`. -/
theorem ReceiverInv.r_le_s (inv : ReceiverInv st r s received) : r ≤ s := by
  obtain ⟨ms, h, hwin, hhs⟩ := inv.window
  exact Nat.le_trans hwin.r_le_ms (Nat.le_trans hwin.ms_le_h hhs)

/-- More may be sent than the receiver knows. -/
theorem ReceiverInv.mono (inv : ReceiverInv st r s received) {s' : Nat} (hs : s ≤ s') :
    ReceiverInv st r s' received := by
  obtain ⟨ms, h, hwin, hhs⟩ := inv.window
  exact { inv with window := ⟨ms, h, hwin, Nat.le_trans hhs hs⟩ }

/-- A data PDU of the sender arrives. -/
theorem ReceiverInv.arrive (inv : ReceiverInv st r s received) {i now : Nat} {bytes : Bytes}
    (hread : ReadsAs i bytes) (hlo : r ≤ i + 512) (hhi : i < r + 512) (his : i < s)
    (hstep : writePdu L st now bytes = some st') :
    ∃ r', ReceiverInv st' r' s (i :: received) ∧ r ≤ r' ∧ r' ≤ r + 512 ∧
      st'.status = st.status := by
  obtain ⟨ms, h, hwin, hhs⟩ := inv.window
  obtain ⟨header, data, hread, hdc, hrf, hsn⟩ := hread
  obtain rfl := Option.some.inj ((writePdu_of_read hread hdc hrf L st now).symm.trans hstep)
  obtain ⟨r', ms', h', hwin', hrr', hr'le, -, -, hh', -⟩ :=
    handleDataPdu_spec hwin hlo hhi hsn trivial now
  have hsame := handleDataPdu_txSame st now data header
  have hrecv : (fun j => j ∈ received ∨ j = i) = (· ∈ i :: received) := by
    funext j
    rw [List.mem_cons, or_comm]
  rw [hrecv] at hwin'
  refine ⟨r', { window := ⟨ms', h', hwin', by omega⟩, noSdu := ?_, noSdus := ?_, noRetx := ?_ },
    hrr', hr'le, (handleDataPdu_setupSame st now data header).status⟩
  · rw [hsame.txSdu]; exact inv.noSdu
  · rw [hsame.txSduQueue]; exact inv.noSdus
  · rw [hsame.retxQueue]; exact inv.noRetx

/-- The receiver is asked for its buffer state. The stored status PDU stays, or is computed
for the present `r`. -/
theorem ReceiverInv.query (inv : ReceiverInv st r s received) {now : Nat} (hsame : TxSame st st')
    (hcases : st' = checkReorderingTimeout st now ∨
      st' = prepareStatus (checkReorderingTimeout st now)) :
    ReceiverInv st' r s received ∧
      (st'.status = st.status ∨ ∃ ms, StatusAt st'.status r ms ∧ ms ≤ s) := by
  obtain ⟨ms, h, hwin, hhs⟩ := inv.window
  obtain ⟨ms', hwin', -⟩ := checkReorderingTimeout_spec hwin now
  obtain ⟨_, _, _, _, hf⟩ := checkReorderingTimeout_frame st now
  have hkeep : RxInv st' r ms' h (· ∈ received) (fun _ _ => True) →
      ReceiverInv st' r s received := fun hw =>
    { window := ⟨ms', h, hw, hhs⟩
      noSdu := by rw [hsame.txSdu]; exact inv.noSdu
      noSdus := by rw [hsame.txSduQueue]; exact inv.noSdus
      noRetx := by rw [hsame.retxQueue]; exact inv.noRetx }
  rcases hcases with rfl | rfl
  · refine ⟨hkeep hwin', .inl ?_⟩
    rw [hf]
  · have hprep := prepareStatus_rxSame (checkReorderingTimeout st now)
    refine ⟨hkeep (hwin'.of_eq hprep.vrR hprep.vrMr hprep.rxWindow hprep.vrMs hprep.vrH
      hprep.vrX hprep.reorderingTimeout), .inr ⟨ms', prepareStatus_statusAt hwin', ?_⟩⟩
    exact Nat.le_trans hwin'.ms_le_h hhs

/-- The receiver is granted a transmission. It emits the stored status PDU, or nothing. -/
theorem ReceiverInv.report (inv : ReceiverInv st r s received) {now n : Nat} {out : Bytes}
    (hread : readPdu L st now n = some (st', out)) :
    ReceiverInv st' r s received ∧ st'.status = st.status ∧
      (out = [] ∨ out = writeStatusPdu L st.status) := by
  rcases readPdu_cases hread with ⟨-, rfl, rfl⟩ | ⟨-, hq, -⟩ | ⟨-, -, rfl, rfl⟩
  · obtain ⟨ms, h, hwin, hhs⟩ := inv.window
    have hrx := buildStatusPdu_rxSame L st now n
    have htx := buildStatusPdu_txSame L st now n
    refine ⟨{ window := ⟨ms, h, ?_, hhs⟩, noSdu := ?_, noSdus := ?_, noRetx := ?_ }, ?_⟩
    · exact hwin.of_eq hrx.vrR hrx.vrMr hrx.rxWindow hrx.vrMs hrx.vrH hrx.vrX
        hrx.reorderingTimeout
    · rw [htx.txSdu]; exact inv.noSdu
    · rw [htx.txSduQueue]; exact inv.noSdus
    · rw [htx.retxQueue]; exact inv.noRetx
    · unfold buildStatusPdu
      split
      · exact ⟨rfl, .inr rfl⟩
      · exact ⟨rfl, .inl rfl⟩
  · exact absurd inv.noRetx hq
  -- Without SDUs the grant is not used.
  · have hnone : (buildDataPdu st now n).2 = none := by
      rw [← Option.isNone_iff_eq_none, ← Option.not_isSome, buildDataPdu_isSome, inv.noSdu,
        inv.noSdus]
      rfl
    rw [buildDataPdu_none hnone, hnone]
    exact ⟨inv, rfl, .inl rfl⟩

end

/-! ### Both ends -/

/-- A status PDU in flight that was computed when `vr_r` had the index `r`. It reports nothing
that was not sent. -/
def InFlight (L : SrslteBit) (s : Nat) (bytes : Bytes) (r : Nat) : Prop :=
  ∃ status ms, bytes = writeStatusPdu L status ∧ StatusAt status r ms ∧ ms ≤ s

/-- What holds after every step. The status PDUs in flight report indices of `vr_r` between
`vt_a` and the one that the stored status PDU reports. -/
structure LinkInv (L : SrslteBit) (t : AmLink) : Prop where
  sender : SenderInv t.sender t.vtA t.vtS t.sent
  receiver : ReceiverInv t.receiver t.vrR t.vtS t.received
  flight : ∃ r ms, StatusAt t.receiver.status r ms ∧ r ≤ t.vrR ∧ ms ≤ t.vtS ∧
    Marked (InFlight L t.vtS) t.vtA t.statuses r

section
variable {L : SrslteBit} {t t' : AmLink}

/-- The sender takes the oldest status PDU off the channel. -/
theorem linkStep_ack {now : Nat} (h : linkStep L t (.ack now) = some t') :
    ∃ bytes rest st, t.statuses = bytes :: rest ∧ writePdu L t.sender now bytes = some st ∧
      t' = { t.moveTo st t.receiver with statuses := rest } := by
  cases hs : t.statuses with
  | nil =>
    rw [linkStep, hs] at h
    cases h
  | cons bytes rest =>
    rw [linkStep, hs] at h
    obtain ⟨st, hwrite, rfl⟩ := Option.map_eq_some_iff.mp h
    exact ⟨bytes, rest, st, rfl, hwrite, rfl⟩

/-- A variable that moves from the index `i` to `i'` takes its index along. -/
theorem add_modDist_index {v v' i i' : Nat} (h : v = i % 1024) (h' : v' = i' % 1024)
    (hle : i ≤ i') (hlt : i' < i + 1024) : i + modDist 1024 v' v = i' := by
  rw [h, h', modDist_of_le hle hlt, Nat.add_sub_cancel' hle]

/-- A step of the sender. -/
theorem LinkInv.moveTo_sender (inv : LinkInv L t) {st : RlcAm} {a s : Nat}
    (h : TxIndexed st a s) (ha : t.vtA ≤ a) (hs : t.vtS ≤ s) (hs' : s ≤ t.vtS + 1) :
    t.moveTo st t.receiver = { t with sender := st, vtA := a, vtS := s } := by
  have hbound := inv.sender.s_le
  have has := h.a_le_s
  unfold AmLink.moveTo
  rw [add_modDist_index inv.sender.vtA h.vtA ha (by omega),
    add_modDist_index inv.sender.vtS h.vtS hs (by omega), modDist_self (by decide), Nat.add_zero]

/-- A step of the receiver. -/
theorem LinkInv.moveTo_receiver (inv : LinkInv L t) {st : RlcAm} {r : Nat} {received : List Nat}
    (h : ReceiverInv st r t.vtS received) (hr : t.vrR ≤ r) (hr' : r ≤ t.vrR + 512) :
    t.moveTo t.sender st = { t with receiver := st, vrR := r } := by
  obtain ⟨_, _, hwin, -⟩ := inv.receiver.window
  obtain ⟨_, _, hwin', -⟩ := h.window
  unfold AmLink.moveTo
  rw [add_modDist_index hwin.vrR hwin'.vrR hr (by omega), modDist_self (by decide),
    modDist_self (by decide), Nat.add_zero, Nat.add_zero]

/-- Two fresh entities with nothing between them. -/
theorem linkInv_init (L : SrslteBit) (cnfg cnfg' : AmConfig) :
    LinkInv L (freshLink cnfg cnfg') where
  sender := senderInv_init cnfg
  receiver := receiverInv_init cnfg'
  flight := ⟨0, 0, statusAt_init, Nat.le_refl 0, Nat.le_refl 0, Nat.le_refl 0⟩

/-- The sender is not ahead of the receiver. -/
theorem LinkInv.vtA_le_vrR (inv : LinkInv L t) : t.vtA ≤ t.vrR := by
  obtain ⟨r, ms, -, hr, -, hflight⟩ := inv.flight
  exact Nat.le_trans hflight.le hr

/-- The sender sends a data PDU, new or again. -/
theorem linkInv_send (inv : LinkInv L t) {now n : Nat} {st : RlcAm} {out : Bytes}
    (hread : readPdu L t.sender now n = some (st, out)) (hroom : holdsRetx t.sender n = true)
    (hout : outstanding st ≤ 512) :
    LinkInv L { t.moveTo st t.receiver with sent := sentPdu t.sender t.vtA out ++ t.sent } := by
  obtain ⟨s, hsender, hs, hs'⟩ := inv.sender.readPdu hread hroom hout
  obtain ⟨r, ms, hat, hr, hms, hflight⟩ := inv.flight
  rw [inv.moveTo_sender hsender.toTxIndexed (Nat.le_refl _) hs hs']
  refine { sender := hsender, receiver := inv.receiver.mono hs,
           flight := ⟨r, ms, hat, hr, Nat.le_trans hms hs, ?_⟩ }
  refine hflight.mono (Nat.le_refl _) (Nat.le_refl r) ?_
  rintro bytes m ⟨status, ms', hbytes, hat', hms'⟩
  exact ⟨status, ms', hbytes, hat', Nat.le_trans hms' hs⟩

/-- A data PDU arrives, in whatever order. -/
theorem linkInv_arrive (inv : LinkInv L t) {now i : Nat} {st : RlcAm} {bytes : Bytes}
    (hmem : (i, bytes) ∈ t.sent) (hlo : t.vrR ≤ i + 512)
    (hstep : writePdu L t.receiver now bytes = some st) :
    LinkInv L { t.moveTo t.sender st with received := i :: t.received } := by
  obtain ⟨his, hread⟩ := inv.sender.sentRead i bytes hmem
  have hsle := inv.sender.s_le
  have har := inv.vtA_le_vrR
  obtain ⟨r', hrec, hr, hr', hstatus⟩ :=
    inv.receiver.arrive hread hlo (by omega) his hstep
  obtain ⟨r, ms, hat, hrr, hms, hflight⟩ := inv.flight
  rw [inv.moveTo_receiver hrec hr hr']
  refine { sender := inv.sender, receiver := hrec, flight := ⟨r, ms, ?_, ?_, hms, hflight⟩ }
  · show StatusAt st.status r ms
    rw [hstatus]
    exact hat
  · exact Nat.le_trans hrr hr

/-- The receiver checks its timer and computes a report. -/
theorem linkInv_query (inv : LinkInv L t) {now : Nat} {st : RlcAm}
    (hsame : TxSame t.receiver st)
    (hcases : st = checkReorderingTimeout t.receiver now ∨
      st = prepareStatus (checkReorderingTimeout t.receiver now)) :
    LinkInv L (t.moveTo t.sender st) := by
  obtain ⟨hrec, hstatus⟩ := inv.receiver.query hsame hcases
  obtain ⟨r, ms, hat, hr, hms, hflight⟩ := inv.flight
  rw [inv.moveTo_receiver hrec (Nat.le_refl _) (by omega)]
  refine { sender := inv.sender, receiver := hrec, flight := ?_ }
  rcases hstatus with hkept | ⟨ms', hat', hms'⟩
  · refine ⟨r, ms, ?_, hr, hms, hflight⟩
    show StatusAt st.status r ms
    rw [hkept]
    exact hat
  · -- The new status PDU reports the present `vr_r`, which no earlier one exceeds.
    exact ⟨t.vrR, ms', hat', Nat.le_refl _, hms',
      hflight.mono (Nat.le_refl _) hr fun _ _ => id⟩

/-- The receiver sends its report. -/
theorem linkInv_report (inv : LinkInv L t) {now n : Nat} {st : RlcAm} {out : Bytes}
    (hread : readPdu L t.receiver now n = some (st, out)) :
    LinkInv L { t.moveTo t.sender st with
      statuses := t.statuses ++ (if out.isEmpty then [] else [out]) } := by
  obtain ⟨hrec, hstatus, hout⟩ := inv.receiver.report hread
  obtain ⟨r, ms, hat, hr, hms, hflight⟩ := inv.flight
  rw [inv.moveTo_receiver hrec (Nat.le_refl _) (by omega)]
  refine { sender := inv.sender, receiver := hrec, flight := ⟨r, ms, ?_, hr, hms, ?_⟩ }
  · show StatusAt st.status r ms
    rw [hstatus]
    exact hat
  · show Marked _ t.vtA (t.statuses ++ (if out.isEmpty then [] else [out])) r
    split
    · rw [List.append_nil]
      exact hflight
    · rename_i hne
      have hout' : out = writeStatusPdu L t.receiver.status := by
        rcases hout with rfl | hout
        · exact absurd rfl hne
        · exact hout
      exact hflight.snoc ⟨t.receiver.status, ms, hout', hat, hms⟩

/-- The oldest status PDU reaches the sender. `vt_a` moves to the index of `vr_r` that it
reports. -/
theorem LinkInv.ack (inv : LinkInv L t) {now : Nat} {st : RlcAm} {bytes : Bytes}
    {rest : List Bytes} (hhead : t.statuses = bytes :: rest)
    (hstep : writePdu L t.sender now bytes = some st) :
    ∃ a, SenderInv st a t.vtS t.sent ∧ t.vtA ≤ a ∧ a ≤ t.vrR ∧
      LinkInv L { t.moveTo st t.receiver with statuses := rest } := by
  obtain ⟨r, ms, hat, hr, hms, hflight⟩ := inv.flight
  rw [hhead] at hflight
  obtain ⟨a, har, ⟨status, ms', rfl, hat', hms'⟩, hrest⟩ := hflight
  have hst := writePdu_status L t.sender now hat'.length_le
  obtain rfl := Option.some.inj (hst.symm.trans hstep)
  have hsender := senderInv_handleStatus inv.sender hat'.wire har hms'
  refine ⟨a, hsender, har, Nat.le_trans hrest.le hr, ?_⟩
  rw [inv.moveTo_sender hsender.toTxIndexed har (Nat.le_refl _) (Nat.le_succ _)]
  exact { sender := hsender, receiver := inv.receiver, flight := ⟨r, ms, hat, hr, hms, hrest⟩ }

/-- Every step of the two entities and of the channels keeps the invariant. -/
theorem linkInv_step (inv : LinkInv L t) {act : LinkAction} (hstep : linkStep L t act = some t')
    (hallowed : linkAllowed t act t' = true) : LinkInv L t' := by
  cases act with
  | writeSdu sdu =>
    obtain ⟨st, hwrite, rfl⟩ := Option.map_eq_some_iff.mp hstep
    have hsender := senderInv_writeSdu inv.sender hwrite
    rw [inv.moveTo_sender hsender.toTxIndexed (Nat.le_refl _) (Nat.le_refl _) (Nat.le_succ _)]
    exact { sender := hsender, receiver := inv.receiver, flight := inv.flight }
  | send now n =>
    obtain ⟨⟨st, out⟩, hread, rfl⟩ := Option.map_eq_some_iff.mp hstep
    simp only [linkAllowed, Bool.and_eq_true, decide_eq_true_eq] at hallowed
    exact linkInv_send inv hread hallowed.1 hallowed.2
  | arrive now k =>
    obtain ⟨⟨i, bytes⟩, hk, hstep⟩ := Option.bind_eq_some_iff.mp hstep
    obtain ⟨st, hwrite, hst⟩ := Option.bind_eq_some_iff.mp hstep
    obtain rfl := Option.some.inj hst
    rw [linkAllowed, hk, Option.all_some, decide_eq_true_eq] at hallowed
    exact linkInv_arrive inv (List.mem_of_getElem? hk) hallowed hwrite
  | query now =>
    obtain rfl := Option.some.inj hstep
    exact linkInv_query inv (getBufferState_txSame t.receiver now)
      ((getBufferState_cases t.receiver now).imp_right And.right)
  | queryTotal now =>
    obtain rfl := Option.some.inj hstep
    exact linkInv_query inv (getTotalBufferState_txSame t.receiver now)
      ((getTotalBufferState_cases t.receiver now).imp_right And.right)
  | report now n =>
    obtain ⟨⟨st, out⟩, hread, rfl⟩ := Option.map_eq_some_iff.mp hstep
    exact linkInv_report inv hread
  | lose k =>
    obtain rfl := Option.some.inj hstep
    obtain ⟨r, ms, hat, hr, hms, hflight⟩ := inv.flight
    exact { sender := inv.sender, receiver := inv.receiver
            flight := ⟨r, ms, hat, hr, hms, hflight.eraseIdx k⟩ }
  | ack now =>
    obtain ⟨bytes, rest, st, hhead, hwrite, rfl⟩ := linkStep_ack hstep
    obtain ⟨-, -, -, -, hinv⟩ := inv.ack hhead hwrite
    exact hinv

/-- It holds of every state of a link. Induction on the steps. -/
theorem linkReach_inv (h : LinkReach L t) : LinkInv L t := by
  obtain ⟨cnfg, cnfg', acts, hrun⟩ := h
  refine runTo_inv (K := fun _ => True) ?_ (fun _ _ => trivial) (linkInv_init L cnfg cnfg') hrun
  intro t₁ act t₂ inv _ hstep
  obtain ⟨hstep, hallowed⟩ := Option.filter_eq_some_iff.mp hstep
  exact linkInv_step inv hstep hallowed

/-- A PDU that a status PDU erases from `tx_window` has been delivered by the receiver. -/
theorem LinkInv.erased (inv : LinkInv L t) {now sn : Nat}
    (hstep : linkStep L t (.ack now) = some t')
    (hold : (t.sender.txWindow sn).isSome) (hnew : t'.sender.txWindow sn = none) :
    ∃ i, i % 1024 = sn ∧ t.vtA ≤ i ∧ i < t.vtS ∧ i < t.vrR ∧ i ∈ t.received := by
  obtain ⟨bytes, rest, st, hhead, hwrite, rfl⟩ := linkStep_ack hstep
  obtain ⟨a, hsender, -, har, -⟩ := inv.ack hhead hwrite
  obtain ⟨_, _, hwin, -⟩ := inv.receiver.window
  obtain ⟨i, hai, his, rfl⟩ := inv.sender.exists_index hold
  have hsle := hsender.s_le
  have hia : i < a := by
    by_contra hge
    have hsome := (hsender.isSome_iff (by omega) (by omega)).mpr his
    rw [show st.txWindow (i % 1024) = none from hnew] at hsome
    cases hsome
  exact ⟨i, rfl, hai, his, by omega, hwin.below i (by omega)⟩

end

/-- The sender and the receiver agree. In every state `vt_a` is not ahead of `vr_r`, nor
`vr_r` of `vt_s`. Every index below `vt_s` was sent, and a PDU that has not arrived is still
in `tx_window`. Whatever a status PDU erases from `tx_window` has arrived and was
delivered. -/
theorem linkReach_agrees {L : SrslteBit} {t : AmLink} (h : LinkReach L t) :
    (t.sender.vtA = t.vtA % 1024 ∧ t.sender.vtS = t.vtS % 1024 ∧
      t.receiver.vrR = t.vrR % 1024) ∧
    (t.vtA ≤ t.vrR ∧ t.vrR ≤ t.vtS) ∧
    (∀ i, i < t.vtS ↔ ∃ bytes, (i, bytes) ∈ t.sent) ∧
    (∀ i bytes, (i, bytes) ∈ t.sent → i ∉ t.received →
      ∃ tx, t.sender.txWindow (i % 1024) = some tx ∧ CopyOf tx bytes) ∧
    ∀ now t' sn, linkStep L t (.ack now) = some t' → (t.sender.txWindow sn).isSome →
      t'.sender.txWindow sn = none →
      ∃ i, i % 1024 = sn ∧ t.vtA ≤ i ∧ i < t.vtS ∧ i < t.vrR ∧ i ∈ t.received := by
  have inv := linkReach_inv h
  obtain ⟨_, _, hwin, -⟩ := inv.receiver.window
  have har := inv.vtA_le_vrR
  refine ⟨⟨inv.sender.vtA, inv.sender.vtS, hwin.vrR⟩, ⟨har, inv.receiver.r_le_s⟩, ?_, ?_, ?_⟩
  · exact fun i => ⟨inv.sender.sentAll i, fun ⟨bytes, hmem⟩ => (inv.sender.sentRead i bytes hmem).1⟩
  · intro i bytes hmem hmiss
    refine inv.sender.sentHeld i bytes hmem ?_
    by_contra hlt
    exact hmiss (hwin.below i (by omega))
  · exact fun now t' sn hstep hold hnew => inv.erased hstep hold hnew

/-- Three PDUs are sent, the last with the poll bit. The second is lost, and the receiver
reports it missing when its reordering timer expires. -/
def secondLost : List LinkAction :=
  [.writeSdu [1], .writeSdu [2], .writeSdu [3], .send 0 3, .send 0 3, .send 0 3,
    .arrive 1 2, .arrive 1 0, .query 7000, .report 7000 10]

/-- The sender holds the second PDU, and the status PDU erases the first, which has
arrived. -/
theorem linkReach_agrees_secondLost :
    ∃ t t', LinkReach msbFirst t ∧ linkStep msbFirst t (.ack 8000) = some t' ∧
      (t'.vtA = 1 ∧ t'.vrR = 1 ∧ t'.vtS = 3) ∧
      (∃ tx, t.sender.txWindow 1 = some tx ∧ CopyOf tx [128, 1, 2]) ∧
      (t.sender.txWindow 0).isSome ∧ t'.sender.txWindow 0 = none ∧
      ∃ i, i % 1024 = 0 ∧ i < t.vrR ∧ i ∈ t.received := by
  have hrun : (runTo (runStep msbFirst) (freshLink { pollPdu := 2 } { tReordering := 5 })
        secondLost).map (fun t => (t.sent, t.received))
      = some ([(2, [160, 2, 3]), (1, [128, 1, 2]), (0, [128, 0, 1])], [2, 0]) := by
    decide +kernel
  have hack : (runTo (runStep msbFirst) (freshLink { pollPdu := 2 } { tReordering := 5 })
        secondLost).map (fun t => ((t.sender.txWindow 0).isSome,
          (linkStep msbFirst t (.ack 8000)).map fun t' =>
            ((t'.sender.txWindow 0).isNone, t'.vtA, t'.vrR, t'.vtS)))
      = some (true, some (true, 1, 1, 3)) := by
    decide +kernel
  -- Both evaluations are of the same run, so they speak of one state.
  obtain ⟨t, ht, heq⟩ := Option.map_eq_some_iff.mp hrun
  obtain ⟨hsent, hreceived⟩ := Prod.mk.inj heq
  rw [ht, Option.map_some, Option.some.injEq, Prod.mk.injEq] at hack
  obtain ⟨hold, hack⟩ := hack
  obtain ⟨t', ht', heq'⟩ := Option.map_eq_some_iff.mp hack
  simp only [Prod.mk.injEq] at heq'
  obtain ⟨hnew, hA, hR, hS⟩ := heq'
  have hreach : LinkReach msbFirst t := ⟨_, _, _, ht⟩
  obtain ⟨-, -, -, hheld, herased⟩ := linkReach_agrees hreach
  have hnone := Option.isNone_iff_eq_none.mp hnew
  obtain ⟨i, hi, -, -, hir, hrecv⟩ := herased 8000 t' 0 ht' hold hnone
  refine ⟨t, t', hreach, ht', ⟨hA, hR, hS⟩, ?_, hold, hnone, i, hi, hir, hrecv⟩
  exact hheld 1 [128, 1, 2] (by rw [hsent]; simp) (by rw [hreceived]; simp)

end SrsUE.Proofs.Rlc
