import SrsUE.Proofs.Rlc.AmGrant
import SrsUE.Proofs.Rlc.AmStatusEffect

/-!
# `SrsUE.Proofs.Rlc.AmRetxQueue`: the entries of `retx_queue`

An entry of `retx_queue` is meant to name a PDU of `tx_window` and some of its bytes
(`LiveRange`). Then `build_retx_pdu` finds an entry to send, and its clean-up loop never
takes the front of an empty queue (`buildRetxPdu_isSome`).

Everything that an entity does on its own keeps the entries live: a segment moves the start
of its entry up, but not to the end, and a new PDU is built only when the queue is empty. A
received report can break them in two ways. It releases a PDU that is still queued, because
an earlier report NACKed it. Or it NACKs a range that the PDU does not have, since nothing
checks the offsets of the peer. `ReportKeepsLive` excludes both, and `retxQueue_run_iff` says
that nothing else is needed.
-/

set_option autoImplicit false

namespace SrsUE.Proofs.Rlc

open SrsUE.Lib
open SrsUE.Rlc

/-- The entry names a PDU of `tx_window` and a part of its bytes that is not empty. -/
def LiveRange (st : RlcAm) (retx : AmdRetx) : Prop :=
  ∃ tx, st.txWindow retx.sn = some tx ∧ retx.soStart < retx.soEnd ∧ retx.soEnd ≤ tx.buf.length

/-- Every entry of `retx_queue` is live, and `build_retx_pdu` finds one. -/
structure RetxQueueLive (st : RlcAm) : Prop where
  entries : ∀ retx ∈ st.retxQueue, LiveRange st retx
  finds : st.retxQueue ≠ [] → ∀ now n, (buildRetxPdu st now n).isSome

/-- The NACK names bytes that the PDU has. -/
def NackInPdu (nack : StatusNack) (tx : AmdTxPdu) : Prop :=
  if nack.hasSo then
    nack.soStart < tx.buf.length ∧
      (nack.soEnd = 0x7FFF ∨ nack.soStart ≤ nack.soEnd ∧ nack.soEnd < tx.buf.length)
  else 0 < tx.buf.length

/-- The report releases no PDU that is queued, and the NACKs that it queues, the first one of
each sequence number, name bytes of their PDUs. -/
structure ReportKeepsLive (st : RlcAm) (status : StatusPdu) : Prop where
  old : ∀ retx ∈ st.retxQueue, ∀ j, j < ackRun st status → retx.sn ≠ txSn st j
  new : ∀ j nack tx, j < reported st status →
    (status.nacks.find? fun n => n.nackSn == txSn st j) = some nack →
    retxQueueHasSn st (txSn st j) = false → st.txWindow (txSn st j) = some tx → NackInPdu nack tx

/-- The call is no report that breaks an entry. -/
def KeepsEntries (L : SrslteBit) (st : RlcAm) : AmCall → Prop
  | .writePdu _ payload => ∀ b0 rest status, payload = b0 :: rest → isControlPdu b0 = true →
      readStatusPdu L payload = some status → ReportKeepsLive st status
  | _ => True

section
variable {L : SrslteBit} {st st' : RlcAm}

/-- When all entries are live, the clean-up loop of `build_retx_pdu` stops at the first. -/
theorem buildRetxPdu_isSome (h : ∀ retx ∈ st.retxQueue, LiveRange st retx)
    (hne : st.retxQueue ≠ []) (now n : Nat) : (buildRetxPdu st now n).isSome := by
  cases hq : st.retxQueue with
  | nil => exact absurd hq hne
  | cons retx rest =>
    obtain ⟨tx, htx, -⟩ := h retx (by rw [hq]; exact List.mem_cons_self ..)
    rw [buildRetxPdu_live (liveEntry_front hq htx)]
    rfl

/-- The queue is live when each of its entries is. -/
theorem retxQueueLive_iff :
    RetxQueueLive st ↔ ∀ retx ∈ st.retxQueue, LiveRange st retx :=
  ⟨fun h => h.entries, fun h => { entries := h, finds := buildRetxPdu_isSome h }⟩

/-! ### The range of a new entry -/

/-- The entry for a NACK has bytes to send exactly when the NACK names bytes of the PDU. -/
theorem retxOfNack_range (sn : Nat) (tx : AmdTxPdu) (nack : StatusNack) :
    ((retxOfNack sn tx nack).soStart < (retxOfNack sn tx nack).soEnd ∧
      (retxOfNack sn tx nack).soEnd ≤ tx.buf.length) ↔ NackInPdu nack tx := by
  unfold retxOfNack NackInPdu
  split
  · simp only
    split
    · omega
    · omega
  · simp

/-- The entries that a report adds. -/
theorem mem_newEntries {status : StatusPdu} {j : Nat} {retx : AmdRetx} :
    retx ∈ newEntries st status j ↔ ∃ i nack tx, i < j ∧
      (status.nacks.find? fun n => n.nackSn == txSn st i) = some nack ∧
      retxQueueHasSn st (txSn st i) = false ∧ st.txWindow (txSn st i) = some tx ∧
      retx = retxOfNack (txSn st i) tx nack := by
  rw [newEntries, List.mem_filterMap]
  constructor
  · rintro ⟨i, hi, hentry⟩
    unfold nackEntry at hentry
    split at hentry
    · cases hentry
    · rename_i hq
      obtain ⟨nack, hfind, hentry⟩ := Option.bind_eq_some_iff.mp hentry
      obtain ⟨tx, htx, rfl⟩ := Option.map_eq_some_iff.mp hentry
      exact ⟨i, nack, tx, List.mem_range.mp hi, hfind, Bool.eq_false_iff.mpr hq, htx, rfl⟩
  · rintro ⟨i, nack, tx, hi, hfind, hq, htx, rfl⟩
    refine ⟨i, List.mem_range.mpr hi, ?_⟩
    simp [nackEntry, hq, hfind, htx]

/-! ### Reports -/

/-- An entry is live after a report when it was live before and its PDU is not released. -/
theorem liveRange_afterReport_iff (h : TxCovers st) {status : StatusPdu} {k j : Nat}
    {retx : AmdRetx} (hk : k ≤ 1024) :
    LiveRange (afterReport st status k j) retx ↔
      LiveRange st retx ∧ ∀ i, i < k → retx.sn ≠ txSn st i := by
  have hA := h.vtA_lt
  have hsub := reportWindow_subWindow st status k j
  constructor
  · rintro ⟨tx', htx', hlt, hle⟩
    obtain ⟨tx, htx, -, hbuf⟩ := hsub retx.sn tx' htx'
    refine ⟨⟨tx, htx, hlt, hbuf ▸ hle⟩, ?_⟩
    intro i hi heq
    have hsome : (reportWindow st status k j retx.sn).isSome :=
      Option.isSome_iff_exists.mpr ⟨tx', htx'⟩
    refine ((reportWindow_isSome retx.sn).mp hsome).2 ⟨heq ▸ txSn_lt st i, ?_⟩
    rw [heq, txModBase_txSn hA (by omega)]
    exact hi
  · rintro ⟨⟨tx, htx, hlt, hle⟩, hne⟩
    have hsn := h.keys_lt retx.sn (Option.isSome_iff_exists.mpr ⟨tx, htx⟩)
    -- The PDU has an offset from `k` on, so the report does not release it.
    have hsome : (reportWindow st status k j retx.sn).isSome := by
      refine (reportWindow_isSome retx.sn).mpr
        ⟨Option.isSome_iff_exists.mpr ⟨tx, htx⟩, ?_⟩
      rintro ⟨-, hlt'⟩
      exact hne _ hlt' (txSn_txModBase hA hsn).symm
    obtain ⟨tx', htx'⟩ := Option.isSome_iff_exists.mp hsome
    obtain ⟨tx₁, htx₁, -, hbuf⟩ := hsub retx.sn tx' htx'
    obtain rfl := Option.some.inj (htx.symm.trans htx₁)
    exact ⟨tx', htx', hlt, hbuf ▸ hle⟩

/-- A report keeps the entries live exactly when it releases none of them and queues NACKs of
existing bytes. -/
theorem handleStatus_live_iff (h : TxCovers st) (hlive : ∀ retx ∈ st.retxQueue, LiveRange st retx)
    (status : StatusPdu) :
    (∀ retx ∈ (handleStatus st status).retxQueue, LiveRange (handleStatus st status) retx) ↔
      ReportKeepsLive st status := by
  have hlt := reported_lt st status
  have hrun := ackRun_le st status
  have hiff : ∀ {retx : AmdRetx}, LiveRange (handleStatus st status) retx ↔
      LiveRange st retx ∧ ∀ i, i < ackRun st status → retx.sn ≠ txSn st i := by
    intro retx
    rw [handleStatus_eq h]
    exact liveRange_afterReport_iff h (by omega)
  have hqueue : (handleStatus st status).retxQueue
      = st.retxQueue ++ newEntries st status (reported st status) := by
    rw [handleStatus_eq h]
    rfl
  -- The old entries have to survive the run of ACKs, and the new ones to name bytes of their PDU.
  rw [hqueue]
  constructor
  · intro hall
    refine { old := ?_, new := ?_ }
    · intro retx hretx
      exact (hiff.mp (hall retx (List.mem_append_left _ hretx))).2
    · intro j nack tx hj hfind hq htx
      have hmem : retxOfNack (txSn st j) tx nack ∈ newEntries st status (reported st status) :=
        mem_newEntries.mpr ⟨j, nack, tx, hj, hfind, hq, htx, rfl⟩
      obtain ⟨⟨tx', htx', hrange⟩, -⟩ := hiff.mp (hall _ (List.mem_append_right _ hmem))
      rw [retxOfNack_sn, htx] at htx'
      obtain rfl := Option.some.inj htx'
      exact (retxOfNack_range _ _ _).mp hrange
  · intro hkeep retx hretx
    rcases List.mem_append.mp hretx with hold | hnew
    · exact hiff.mpr ⟨hlive retx hold, hkeep.old retx hold⟩
    · obtain ⟨j, nack, tx, hj, hfind, hq, htx, rfl⟩ := mem_newEntries.mp hnew
      refine hiff.mpr ⟨⟨tx, ?_, (retxOfNack_range _ _ _).mpr (hkeep.new j nack tx hj hfind hq htx)⟩,
        ?_⟩
      · rw [retxOfNack_sn]
        exact htx
      · -- A NACKed sequence number is not in the run.
        intro i hi heq
        have hnack : nacked status (txSn st j) = true :=
          List.any_eq_true.mpr ⟨nack, List.mem_of_find?_eq_some hfind,
            List.find?_some (p := fun n : StatusNack => n.nackSn == txSn st j) hfind⟩
        rw [retxOfNack_sn] at heq
        rw [heq, ackRun_acked hi] at hnack
        cases hnack

/-! ### Transmissions -/

/-- What keeps the PDUs and their bytes keeps a live entry. -/
theorem LiveRange.of_window {retx : AmdRetx} (h : LiveRange st retx)
    (hw : ∀ tx, st.txWindow retx.sn = some tx → ∃ tx', st'.txWindow retx.sn = some tx' ∧
      tx'.buf = tx.buf) : LiveRange st' retx := by
  obtain ⟨tx, htx, hlt, hle⟩ := h
  obtain ⟨tx', htx', hbuf⟩ := hw tx htx
  exact ⟨tx', htx', hlt, hbuf ▸ hle⟩

/-- `build_segment` pops the front entry, keeps it, or moves its start to a byte before its
end. -/
theorem buildSegment_range {n : Nat} {tx : AmdTxPdu} {retx : AmdRetx} {rest : List AmdRetx}
    (hok : TxPduOk tx) (hlt : retx.soStart < retx.soEnd) (hle : retx.soEnd ≤ tx.buf.length)
    (hwhole : retx.isSegment = false → retx.soEnd = tx.buf.length)
    (hst : st.retxQueue = retx :: rest) :
    ∀ r ∈ (buildSegment st n tx retx rest).1.retxQueue, r ∈ retx :: rest ∨
      ∃ e, e < retx.soEnd ∧ r = { retx with isSegment := true, soStart := e } := by
  have hsize := hok.size
  have hend : (if retx.isSegment then retx.soEnd else tx.buf.length) = retx.soEnd := by
    split
    · rfl
    · rename_i hseg
      exact (hwhole (Bool.eq_false_iff.mpr hseg)).symm
  -- A whole entry is cut like a segment from byte 0 on.
  have hstart : (if retx.isSegment then retx.soStart else 0) < retx.soEnd := by
    split <;> omega
  have hhead : amPackedLength { rf := true } = 4 := rfl
  intro r hr
  unfold buildSegment at hr
  simp only [hend, hhead] at hr
  generalize (if retx.isSegment then retx.soStart else 0) = s at hr hstart
  split at hr
  · rw [hst] at hr
    exact .inl hr
  · rename_i hn
    -- What is sent ends before the entry does, unless the entry is popped.
    have hshape := cutSegment_shape (n := n) hok.pos hstart (by omega) (by omega)
    have hbounds := hshape.soEnd_bounds (Nat.le_of_lt hstart)
    split at hr
    · exact .inl (List.mem_cons_of_mem _ hr)
    · split at hr
      · exact .inl (List.mem_cons_of_mem _ hr)
      · rename_i hne
        rcases List.mem_cons.mp hr with rfl | hr
        · exact .inr ⟨_, by omega, rfl⟩
        · exact .inl (List.mem_cons_of_mem _ hr)

/-- `read_pdu` keeps the entries live. -/
theorem readPdu_live {now n : Nat} {out : Bytes} (hinv : RetxInv st)
    (hlive : ∀ retx ∈ st.retxQueue, LiveRange st retx)
    (hread : readPdu L st now n = some (st', out)) :
    ∀ retx ∈ st'.retxQueue, LiveRange st' retx := by
  rcases readPdu_cases hread with
    ⟨-, rfl, -⟩ | ⟨-, -, retx, tx, rest, ⟨hfront, htx⟩, hst⟩ | ⟨-, hq, rfl, -⟩
  · have hsame := buildStatusPdu_txSame L st now n
    rw [hsame.retxQueue]
    intro r hr
    refine (hlive r hr).of_window fun tx htx => ⟨tx, ?_, rfl⟩
    rw [hsame.txWindow]
    exact htx
  · have hmem := mem_of_liveRetx hfront
    have hentry := hinv.entries retx (hmem retx (List.mem_cons_self ..))
    obtain ⟨tx', htx', hlt, hle⟩ := hlive retx (hmem retx (List.mem_cons_self ..))
    obtain rfl := Option.some.inj (htx'.symm.trans htx)
    rcases hst with ⟨-, rfl, -⟩ | ⟨-, -, rfl, -⟩
    · have hqueue := @buildSegment_range { st with retxQueue := retx :: rest } n tx' retx rest
        (hinv.pdus retx.sn tx' htx').1 hlt hle (hentry.whole tx' htx') rfl
      obtain ⟨q, hf⟩ := buildSegment_frame { st with retxQueue := retx :: rest } n tx' retx rest
      rw [hf] at hqueue ⊢
      intro r hr
      rcases hqueue r hr with hr | ⟨e, he, rfl⟩
      · exact (hlive r (hmem r hr)).of_window fun tx htx => ⟨tx, htx, rfl⟩
      · exact ⟨tx', htx', he, hle⟩
    · obtain ⟨_, _, _, _, _, hf⟩ :=
        retransmitPdu_frame { st with retxQueue := retx :: rest } now tx' retx rest
      rw [hf]
      intro r hr
      refine (hlive r (hmem r (List.mem_cons_of_mem _ hr))).of_window fun tx htx => ?_
      show ∃ tx'', st.txWindow.insert retx.sn _ r.sn = some tx'' ∧ _
      rw [Dict.insert_apply]
      split
      · -- The PDU that is sent again keeps its bytes.
        rename_i hsn
        rw [hsn, htx'] at htx
        obtain rfl := Option.some.inj htx
        exact ⟨_, rfl, rfl⟩
      · exact ⟨tx, htx, rfl⟩
  · -- New data is sent only when nothing is queued.
    have hempty : (buildDataPdu st now n).1.retxQueue = [] := by
      cases hpdu : (buildDataPdu st now n).2 with
      | none => rw [buildDataPdu_none hpdu, hq]
      | some pdu =>
        obtain ⟨_, _, _, _, hf⟩ := buildDataPdu_frame hpdu
        rw [hf]
        exact hq
    rw [hempty]
    intro r hr
    cases hr

/-! ### Runs -/

/-- What the entries are proved from. -/
structure RetxQueueInv (st : RlcAm) : Prop where
  retx : RetxInv st
  covers : TxCovers st
  live : ∀ retx ∈ st.retxQueue, LiveRange st retx

/-- A call keeps the entries live exactly when it is no report that breaks one. -/
theorem amStep_live_iff {c : AmCall} (h : RetxQueueInv st)
    (hstep : amStep L st c = some st') :
    (∀ retx ∈ st'.retxQueue, LiveRange st' retx) ↔ KeepsEntries L st c := by
  have hkeep : ∀ {P : Prop}, P → (∀ retx ∈ st'.retxQueue, LiveRange st' retx) →
      ((∀ retx ∈ st'.retxQueue, LiveRange st' retx) ↔ P) :=
    fun hp hl => ⟨fun _ => hp, fun _ => hl⟩
  cases amStep_txStep hstep with
  | writeSdu =>
    exact hkeep trivial fun r hr => (h.live r hr).of_window fun tx htx => ⟨tx, htx, rfl⟩
  | readPdu hread => exact hkeep trivial (readPdu_live h.retx h.live hread)
  | status hctrl hread =>
    -- The only call that can break an entry.
    rw [handleStatus_live_iff h.covers h.live]
    constructor
    · intro hrep b0' rest' status' heq hctrl' hread'
      rw [hread] at hread'
      obtain rfl := Option.some.inj hread'
      exact hrep
    · exact fun hcall => hcall _ _ _ rfl hctrl hread
  | receive _ data hsame =>
    refine hkeep ?_ ?_
    · cases c with
      | writePdu now payload =>
        rintro b0 rest status rfl hctrl
        rw [data now b0 rest rfl] at hctrl
        cases hctrl
      | _ => trivial
    · intro retx hretx
      rw [hsame.retxQueue] at hretx
      refine (h.live retx hretx).of_window fun tx htx => ⟨tx, ?_, rfl⟩
      rw [hsame.txWindow]
      exact htx
  | reset => exact hkeep trivial fun r hr => by cases hr

end

/-- The entries of `retx_queue` are live in every state of a run. -/
def RetxLiveRun (L : SrslteBit) (st : RlcAm) (calls : List AmCall) : Prop :=
  RetxQueueLive st ∧ Along (amStep L) (fun _ _ st' => RetxQueueLive st') st calls

/-- A run of a fresh entity, with any calls in any order, has only live entries in
`retx_queue` exactly when no received report releases a queued PDU or queues a NACK of bytes
that its PDU does not have. -/
theorem retxQueue_run_iff (L : SrslteBit) (cnfg : AmConfig) (calls : List AmCall)
    (hcalls : ∀ c ∈ calls, GrantInRange c) :
    RetxLiveRun L (configure {} cnfg) calls
      ↔ Along (amStep L) (fun st c _ => KeepsEntries L st c) (configure {} cnfg) calls := by
  have hinit : RetxQueueInv (configure {} cnfg) :=
    { retx := retxInv_empty rfl rfl, covers := txCovers_init cnfg
      live := fun r hr => by cases hr }
  have hiff : Along (amStep L) (fun _ _ st' => RetxQueueLive st') (configure {} cnfg) calls
      ↔ Along (amStep L) (fun st c _ => KeepsEntries L st c) (configure {} cnfg) calls := by
    refine along_iff (I := RetxQueueInv) (K := GrantInRange) ?_ ?_ hcalls hinit
    · intro st c st' h _ hstep
      rw [retxQueueLive_iff]
      exact amStep_live_iff h hstep
    · intro st c st' h hc hstep hkeep
      exact { retx := amStep_retxInv h.retx hc hstep, covers := txCovers_step h.covers hstep
              live := (amStep_live_iff h hstep).mpr hkeep }
  exact ⟨fun h => hiff.mp h.2, fun h => ⟨retxQueueLive_iff.mpr hinit.live, hiff.mpr h⟩⟩

/-- One PDU is NACKed and sent again. -/
def nackThenResend : List AmCall :=
  [.writeSdu [7], .readPdu 0 3, .writePdu 0 [0x00, 0x06, 0x00, 0x00], .readPdu 0 3]

/-- The entry of a NACKed PDU is live until the PDU is sent again. -/
theorem retxQueue_run_nackThenResend :
    RetxLiveRun msbFirst (configure {} {}) nackThenResend := by
  refine (retxQueue_run_iff msbFirst {} nackThenResend
    (by simp [nackThenResend, GrantInRange])).mpr ?_
  intro st₁ h₁
  obtain rfl := Option.some.inj h₁
  refine ⟨trivial, fun st₂ h₂ => ?_⟩
  obtain rfl := Option.some.inj h₂
  refine ⟨trivial, fun st₃ _ => ⟨?_, fun _ _ => ⟨trivial, trivial⟩⟩⟩
  -- The NACK names the one byte of the PDU.
  intro b0 rest status _ _ hread
  obtain rfl := Option.some.inj (hread.symm.trans (by decide +kernel :
    readStatusPdu msbFirst [0x00, 0x06, 0x00, 0x00] =
      some { ackSn := 1, nacks := [{ nackSn := 0 }] }))
  refine ⟨fun _ hretx => absurd hretx List.not_mem_nil, fun j nack tx hj hnack _ htx => ?_⟩
  obtain rfl : j = 0 := Nat.lt_one_iff.mp hj
  obtain rfl := List.mem_singleton.mp (List.mem_of_find?_eq_some hnack)
  obtain rfl := Option.some.inj htx
  exact Nat.zero_lt_one

/-- One PDU is NACKed, and then acknowledged before it is sent again. -/
def nackThenAck : List AmCall :=
  [.writeSdu [7], .readPdu 0 3, .writePdu 0 [0x00, 0x06, 0x00, 0x00], .writePdu 0 [0x00, 0x04]]

/-- The entry of the acknowledged PDU stays in the queue, and the next `read_pdu` takes the
front of an empty one. -/
theorem retxQueue_run_stale :
    ¬ RetxLiveRun msbFirst (configure {} {}) nackThenAck := by
  rintro ⟨hinit, halong⟩
  have hrun : ((runTo (amStep msbFirst) (configure {} {}) nackThenAck).map fun st =>
      (st.retxQueue.map (·.sn), (buildRetxPdu st 0 3).isSome)) = some ([0], false) := by
    decide +kernel
  obtain ⟨st, hst, heq⟩ := Option.map_eq_some_iff.mp hrun
  obtain ⟨hqueue, hnone⟩ := Prod.mk.inj heq
  have hlive : RetxQueueLive st := halong.last hinit hst
  have hne : st.retxQueue ≠ [] := by
    intro hnil
    rw [hnil] at hqueue
    cases hqueue
  rw [hlive.finds hne 0 3] at hnone
  cases hnone

end SrsUE.Proofs.Rlc
