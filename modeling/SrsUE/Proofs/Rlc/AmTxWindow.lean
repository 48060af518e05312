import SrsUE.Lib.Run
import SrsUE.Proofs.Rlc.AmSteps
import SrsUE.Proofs.Rlc.AmStatusPdu

/-!
# `SrsUE.Proofs.Rlc.AmTxWindow`: the transmit window

`TxWindowOk` is what the transmit variables are meant to satisfy: `vt_ms` is the high edge of
a window of 512 sequence numbers from `vt_a` on, the sequence numbers from `vt_a` up to `vt_s`
are inside it, and `tx_window` has exactly these as keys, so that the next sequence number
is free.

Acknowledgements keep it (`handleStatus_ok`), and so does every call but one: `build_data_pdu`
never looks at the window, and a PDU built when 512 are outstanding leaves it.
`amStep_txWindowOk_iff` says that this is the only way to break it, and `txWindow_run_iff`
carries this to whole runs.
-/

set_option autoImplicit false

namespace SrsUE.Proofs.Rlc

open SrsUE.Lib
open SrsUE.Rlc

/-- The number of sequence numbers from `vt_a` up to `vt_s`. -/
def outstanding (st : RlcAm) : Nat := st.txModBase st.vtS

/-- The transmit variables describe a window of at most 512 outstanding PDUs. -/
structure TxWindowOk (st : RlcAm) : Prop where
  vtA_lt : st.vtA < 1024
  vtS_lt : st.vtS < 1024
  vtMs : st.vtMs = (st.vtA + 512) % 1024
  bound : outstanding st ≤ 512
  keys : ∀ sn, (st.txWindow sn).isSome ↔ sn < 1024 ∧ st.txModBase sn < outstanding st
  fresh : st.txWindow st.vtS = none

/-- `read_pdu` goes to `build_data_pdu`, which has an SDU and a grant to build a PDU. -/
def buildsDataPdu (st : RlcAm) (now n : Nat) : Bool :=
  !(st.doStatus && !statusProhibited st now) && st.retxQueue.isEmpty
    && (st.txSdu.isSome || !st.txSduQueue.isEmpty) && decide (2 < n)

/-- The call does not send a new PDU into a full window. -/
def RespectsTxWindow (st : RlcAm) : AmCall → Prop
  | .readPdu now n => buildsDataPdu st now n = true → outstanding st < 512
  | _ => True

section
variable {st st' : RlcAm}

/-- Nothing is outstanding in a configured entity. -/
theorem txWindowOk_init (cnfg : AmConfig) : TxWindowOk (configure {} cnfg) where
  vtA_lt := by simp [configure]
  vtS_lt := by simp [configure]
  vtMs := by simp [configure]
  bound := by simp [outstanding, RlcAm.txModBase, configure]
  keys sn := by simp [outstanding, RlcAm.txModBase, configure]
  fresh := rfl

/-- Only the keys of `tx_window` matter. -/
theorem TxWindowOk.of_keys (h : TxWindowOk st) (hA : st'.vtA = st.vtA) (hMs : st'.vtMs = st.vtMs)
    (hS : st'.vtS = st.vtS) (hw : ∀ sn, (st'.txWindow sn).isSome = (st.txWindow sn).isSome) :
    TxWindowOk st' := by
  refine { vtA_lt := ?_, vtS_lt := ?_, vtMs := ?_, bound := ?_, keys := ?_, fresh := ?_ }
  · rw [hA]; exact h.vtA_lt
  · rw [hS]; exact h.vtS_lt
  · rw [hMs, hA]; exact h.vtMs
  · unfold outstanding RlcAm.txModBase
    rw [hS, hA]
    exact h.bound
  · intro sn
    unfold outstanding RlcAm.txModBase
    rw [hw, hS, hA]
    exact h.keys sn
  · rw [← Option.isNone_iff_eq_none, hS, ← Option.not_isSome, hw, h.fresh]
    rfl

/-- The window depends on the transmit half only. -/
theorem TxWindowOk.of_txSame (h : TxWindowOk st) (hs : TxSame st st') : TxWindowOk st' :=
  h.of_keys hs.vtA hs.vtMs hs.vtS fun sn => by rw [hs.txWindow]

/-! ### Acknowledgements -/

/-- The NACKs of one sequence number write `retx_queue` only. -/
theorem queueNacks_frame (i : Nat) (nacks : List StatusNack) (st : RlcAm) :
    ∃ q, nacks.foldl (queueNack i) st = { st with retxQueue := q } := by
  induction nacks generalizing st with
  | nil => exact ⟨_, rfl⟩
  | cons n ns ih =>
    obtain ⟨q, hq⟩ := queueNack_frame i st n
    obtain ⟨q', hq'⟩ := ih (queueNack i st n)
    refine ⟨q', ?_⟩
    rw [List.foldl_cons, hq', hq]

/-- An ACK of the lowest outstanding PDU moves the window up by one. -/
theorem ackPdu_vtA_ok (h : TxWindowOk st) (hlt : 0 < outstanding st) :
    TxWindowOk (ackPdu st.vtA true st) ∧
      (ackPdu st.vtA true st).vtA = (st.vtA + 1) % 1024 := by
  have hA := h.vtA_lt
  have hS := h.vtS_lt
  have hbound := h.bound
  -- Something is outstanding, so the lowest key is there.
  have hsome : (st.txWindow st.vtA).isSome := by
    refine (h.keys st.vtA).mpr ⟨hA, ?_⟩
    rw [RlcAm.txModBase, modDist_self (by omega)]
    exact hlt
  obtain ⟨tx, htx⟩ := Option.isSome_iff_exists.mp hsome
  have heq : ackPdu st.vtA true st = { st with
      txWindow := st.txWindow.erase st.vtA
      vtA := (st.vtA + 1) % 1024
      vtMs := (st.vtMs + 1) % 1024 } := by
    simp [ackPdu, htx]
  rw [heq]
  unfold outstanding RlcAm.txModBase at hlt hbound
  refine ⟨{ vtA_lt := Nat.mod_lt _ (by decide), vtS_lt := hS, vtMs := ?_, bound := ?_,
            keys := ?_, fresh := ?_ }, rfl⟩
  · show (st.vtMs + 1) % 1024 = ((st.vtA + 1) % 1024 + 512) % 1024
    rw [h.vtMs]
    omega
  · show modDist 1024 st.vtS ((st.vtA + 1) % 1024) ≤ 512
    unfold modDist at hlt hbound ⊢
    omega
  · intro sn
    have hk := h.keys sn
    unfold outstanding RlcAm.txModBase at hk
    show (st.txWindow.erase st.vtA sn).isSome ↔ sn < 1024 ∧
      modDist 1024 sn ((st.vtA + 1) % 1024) < modDist 1024 st.vtS ((st.vtA + 1) % 1024)
    rw [Dict.erase_apply]
    unfold modDist at hk hlt ⊢
    split
    · rename_i hsn
      subst hsn
      simp only [Option.isSome_none, Bool.false_eq_true, false_iff]
      omega
    · rw [hk]
      omega
  · show st.txWindow.erase st.vtA st.vtS = none
    rw [Dict.erase_apply]
    split
    · rfl
    · exact h.fresh

/-- An ACK above a NACK only marks its PDU. -/
theorem ackPdu_false_ok (h : TxWindowOk st) (i : Nat) : TxWindowOk (ackPdu i false st) := by
  unfold ackPdu
  split
  · rename_i tx htx
    exact h.of_keys rfl rfl rfl (Dict.isSome_insert (by rw [htx]; rfl) _)
  · exact h

/-- The loop over the acknowledged sequence numbers. As long as no NACK was seen, `i` is the
low edge of the window. -/
theorem handleAcks_ok (status : StatusPdu) :
    ∀ (rounds i : Nat) (updateVtA : Bool) {st : RlcAm}, TxWindowOk st →
      (updateVtA = true → i = st.vtA) → TxWindowOk (handleAcks status rounds i updateVtA st) := by
  intro rounds
  induction rounds with
  | zero => exact fun _ _ _ h _ => h
  | succ rounds ih =>
    intro i updateVtA st h hi
    rw [handleAcks]
    split
    · rename_i hguard
      simp only
      cases hnack : status.nacks.any fun n => n.nackSn == i with
      | true =>
        -- A NACK only adds to the retransmission queue, and ends the updates of `vt_a`.
        obtain ⟨q, hq⟩ := queueNacks_frame i status.nacks st
        simp only [if_true, hq, Bool.not_true, Bool.and_false]
        exact ih _ _ (h.of_keys rfl rfl rfl fun _ => rfl) (fun hf => by cases hf)
      | false =>
        simp only [Bool.false_eq_true, if_false, Bool.not_false, Bool.and_true]
        cases updateVtA with
        | true =>
          obtain rfl := hi rfl
          have hlt : 0 < outstanding st := Nat.lt_of_le_of_lt (Nat.zero_le _) hguard.2
          obtain ⟨hok, hA⟩ := ackPdu_vtA_ok h hlt
          exact ih _ _ hok fun _ => hA.symm
        | false => exact ih _ _ (ackPdu_false_ok h i) (fun hf => by cases hf)
    · exact h

/-- Every status PDU keeps the window. -/
theorem handleStatus_ok (h : TxWindowOk st) (status : StatusPdu) :
    TxWindowOk (handleStatus st status) := by
  refine handleAcks_ok status 1024 st.vtA true (h.of_keys rfl rfl rfl fun _ => rfl) ?_
  exact fun _ => rfl

/-! ### New data PDUs -/

/-- A new PDU takes the next sequence number. It keeps the window exactly when fewer than 512
were outstanding. -/
theorem buildDataPdu_ok_iff (h : TxWindowOk st) {now n : Nat} {hdr : AmdPduHeader} {data : Bytes}
    (hpdu : (buildDataPdu st now n).2 = some (hdr, data)) :
    TxWindowOk (buildDataPdu st now n).1 ↔ outstanding st < 512 := by
  have hA := h.vtA_lt
  have hS := h.vtS_lt
  have hbound := h.bound
  obtain ⟨_, _, _, _, hst⟩ := buildDataPdu_frame hpdu
  unfold outstanding RlcAm.txModBase at hbound ⊢
  constructor
  -- A window that was full is one too large with the new PDU.
  · intro h'
    have hbound' := h'.bound
    rw [hst] at hbound'
    unfold outstanding RlcAm.txModBase at hbound'
    simp only at hbound'
    unfold modDist at hbound hbound' ⊢
    omega
  · intro hlt
    rw [hst]
    refine { vtA_lt := hA, vtS_lt := Nat.mod_lt _ (by decide), vtMs := h.vtMs, bound := ?_,
             keys := ?_, fresh := ?_ }
    · show modDist 1024 ((st.vtS + 1) % 1024) st.vtA ≤ 512
      unfold modDist at hlt ⊢
      omega
    · intro sn
      have hk := h.keys sn
      unfold outstanding RlcAm.txModBase at hk
      show (st.txWindow.insert st.vtS _ sn).isSome ↔ sn < 1024 ∧
        modDist 1024 sn st.vtA < modDist 1024 ((st.vtS + 1) % 1024) st.vtA
      rw [Dict.insert_apply]
      unfold modDist at hk hlt ⊢
      split
      · rename_i hsn
        subst hsn
        simp only [Option.isSome_some, true_iff]
        omega
      · rw [hk]
        omega
    · -- The sequence number after the new one is outside the window as well.
      have hk := h.keys ((st.vtS + 1) % 1024)
      unfold outstanding RlcAm.txModBase at hk
      show st.txWindow.insert st.vtS _ ((st.vtS + 1) % 1024) = none
      rw [Dict.insert_of_ne _ _ (by omega), ← Option.not_isSome_iff_eq_none, hk]
      unfold modDist at hlt ⊢
      omega

/-- `build_data_pdu` builds a PDU when it has an SDU and a grant for more than the header. -/
theorem buildDataPdu_isSome (st : RlcAm) (now n : Nat) :
    (buildDataPdu st now n).2.isSome
      = ((st.txSdu.isSome || !st.txSduQueue.isEmpty) && decide (2 < n)) := by
  have hhead : amPackedLength {} = 2 := by simp [amPackedLength]
  unfold buildDataPdu
  rw [hhead]
  split
  · rename_i hnone
    simp [Option.isNone_iff_eq_none.mp hnone.1, List.eq_nil_of_length_eq_zero hnone.2]
  · rename_i hne
    have hsdu : (st.txSdu.isSome || !st.txSduQueue.isEmpty) = true := by
      cases hs : st.txSdu with
      | some s => rfl
      | none =>
        rw [hs] at hne
        simpa [List.isEmpty_iff] using hne
    rw [hsdu]
    split
    · rename_i hle
      simp
      omega
    · rename_i hgt
      simp
      omega

/-- The edges of the transmit window and the sequence numbers in it are the same. -/
structure TxKeysSame (st st' : RlcAm) : Prop where
  vtA : st'.vtA = st.vtA
  vtMs : st'.vtMs = st.vtMs
  vtS : st'.vtS = st.vtS
  keys : ∀ sn, (st'.txWindow sn).isSome = (st.txWindow sn).isSome

/-- A segment or a whole PDU that is sent again is in the window already. -/
theorem txKeysSame_retx {retx : AmdRetx} {tx : AmdTxPdu} {rest : List AmdRetx} {now n : Nat}
    (htx : st.txWindow retx.sn = some tx)
    (hst : st' = (buildSegment { st with retxQueue := retx :: rest } n tx retx rest).1 ∨
      st' = (retransmitPdu { st with retxQueue := retx :: rest } now tx retx rest).1) :
    TxKeysSame st st' := by
  rcases hst with rfl | rfl
  · obtain ⟨_, hf⟩ := buildSegment_frame { st with retxQueue := retx :: rest } n tx retx rest
    rw [hf]
    exact ⟨rfl, rfl, rfl, fun _ => rfl⟩
  · obtain ⟨_, _, _, _, _, hf⟩ :=
      retransmitPdu_frame { st with retxQueue := retx :: rest } now tx retx rest
    rw [hf]
    exact ⟨rfl, rfl, rfl, Dict.isSome_insert (by rw [htx]; rfl) _⟩

/-- Every transmission but a new PDU keeps the window. -/
theorem readPdu_ok_iff {L : SrslteBit} {now n : Nat} {out : Bytes} (h : TxWindowOk st)
    (hread : readPdu L st now n = some (st', out)) :
    TxWindowOk st' ↔ RespectsTxWindow st (.readPdu now n) := by
  have hkeep : TxWindowOk st' → buildsDataPdu st now n = false →
      (TxWindowOk st' ↔ RespectsTxWindow st (.readPdu now n)) := by
    intro hok hno
    refine ⟨fun _ hb => ?_, fun _ => hok⟩
    rw [hno] at hb
    cases hb
  rcases readPdu_cases hread with
    ⟨hs, rfl, -⟩ | ⟨hs, hq, retx, tx, rest, ⟨-, htx⟩, hst⟩ | ⟨hs, hq, rfl, -⟩
  · refine hkeep (h.of_txSame (buildStatusPdu_txSame L st now n)) ?_
    rw [buildsDataPdu, hs]
    rfl
  · refine hkeep ?_ ?_
    · have hkeys := txKeysSame_retx htx (hst.imp (·.2.1) (·.2.2.1))
      exact h.of_keys hkeys.vtA hkeys.vtMs hkeys.vtS hkeys.keys
    · have hq' : st.retxQueue.isEmpty = false := by simpa [List.isEmpty_iff] using hq
      rw [buildsDataPdu, hq']
      simp
  · have hbuilds : buildsDataPdu st now n = (buildDataPdu st now n).2.isSome := by
      rw [buildDataPdu_isSome, buildsDataPdu, hs, hq]
      rfl
    cases hpdu : (buildDataPdu st now n).2 with
    | none =>
      refine hkeep ?_ ?_
      · rw [buildDataPdu_none hpdu]
        exact h
      · rw [hbuilds, hpdu]
        rfl
    | some pdu =>
      rw [buildDataPdu_ok_iff h hpdu]
      show _ ↔ (buildsDataPdu st now n = true → outstanding st < 512)
      rw [hbuilds, hpdu]
      simp

/-! ### Runs -/

/-- A call keeps the window exactly when it sends no new PDU into a full one. -/
theorem amStep_txWindowOk_iff {L : SrslteBit} {c : AmCall} (h : TxWindowOk st)
    (hstep : amStep L st c = some st') : TxWindowOk st' ↔ RespectsTxWindow st c := by
  -- Of all calls only `read_pdu` can break the window, so the others are `hkeep`.
  have hkeep : ∀ {P : Prop}, P → TxWindowOk st' → (TxWindowOk st' ↔ P) :=
    fun hp hok => ⟨fun _ => hp, fun _ => hok⟩
  cases amStep_txStep hstep with
  | writeSdu => exact hkeep trivial (h.of_keys rfl rfl rfl fun _ => rfl)
  | readPdu hread => exact readPdu_ok_iff h hread
  | status _ _ => exact hkeep trivial (handleStatus_ok h _)
  | receive noGrant _ hsame =>
    refine hkeep ?_ (h.of_txSame hsame)
    cases c with
    | readPdu now n => exact absurd rfl (noGrant now n)
    | _ => trivial
  | reset =>
    exact hkeep trivial
      { vtA_lt := by simp [reset], vtS_lt := by simp [reset], vtMs := by simp [reset]
        bound := by simp [outstanding, RlcAm.txModBase, reset]
        keys := fun sn => by simp [outstanding, RlcAm.txModBase, reset], fresh := rfl }

end

/-- The window is right in every state of a run. -/
def TxWindowRun (L : SrslteBit) (st : RlcAm) (calls : List AmCall) : Prop :=
  TxWindowOk st ∧ Along (amStep L) (fun _ _ st' => TxWindowOk st') st calls

/-- A run of a fresh entity, with any calls in any order, has the right window in every
state exactly when none of its steps builds a new PDU with 512 PDUs outstanding. -/
theorem txWindow_run_iff (L : SrslteBit) (cnfg : AmConfig) (calls : List AmCall) :
    TxWindowRun L (configure {} cnfg) calls
      ↔ Along (amStep L) (fun st c _ => RespectsTxWindow st c) (configure {} cnfg) calls := by
  have hinit := txWindowOk_init cnfg
  have hiff : Along (amStep L) (fun _ _ st' => TxWindowOk st') (configure {} cnfg) calls
      ↔ Along (amStep L) (fun st c _ => RespectsTxWindow st c) (configure {} cnfg) calls := by
    refine along_iff (I := TxWindowOk) (K := fun _ => True) ?_ ?_ (fun _ _ => trivial) hinit
    · exact fun _ _ _ h _ hstep => amStep_txWindowOk_iff h hstep
    · exact fun _ _ _ h _ hstep hc => (amStep_txWindowOk_iff h hstep).mpr hc
  exact ⟨fun h => hiff.mp h.2, fun h => ⟨hinit, hiff.mpr h⟩⟩

/-! ### 513 PDUs without an acknowledgement -/

/-- The state of an entity that has sent `k` one-byte SDUs, one in each PDU. -/
structure HasSent (k : Nat) (st : RlcAm) : Prop where
  vtA : st.vtA = 0
  vtS : st.vtS = k % 1024
  txSdu : st.txSdu = none
  queue : st.txSduQueue = []
  noRetx : st.retxQueue = []
  noStatus : st.doStatus = false

/-- One SDU and a grant for it. -/
theorem hasSent_succ {k : Nat} {st : RlcAm} (L : SrslteBit) (h : HasSent k st) :
    ∃ st', runTo (amStep L) st [.writeSdu [7], .readPdu 0 3] = some st' ∧
      HasSent (k + 1) st' := by
  have hw : writeSdu st [7] = some { st with txSduQueue := [[7]] } := by
    simp [writeSdu, h.queue]
  -- No report and no retransmission is due, so `read_pdu` builds a new PDU.
  have hr : readPdu L { st with txSduQueue := [[7]] } 0 3
      = some ((buildDataPdu { st with txSduQueue := [[7]] } 0 3).1,
          pduBytes (buildDataPdu { st with txSduQueue := [[7]] } 0 3).2) := by
    simp [readPdu, h.noStatus, h.noRetx]
  refine ⟨(buildDataPdu { st with txSduQueue := [[7]] } 0 3).1, ?_, ?_⟩
  · simp only [runTo, amStep, hw, hr, Option.bind_some, Option.map_some]
  · have hsome : (buildDataPdu { st with txSduQueue := [[7]] } 0 3).2.isSome := by
      rw [buildDataPdu_isSome]
      simp
    obtain ⟨⟨hdr, data⟩, hpdu⟩ := Option.isSome_iff_exists.mp hsome
    obtain ⟨_, _, _, _, hst⟩ := buildDataPdu_frame hpdu
    rw [hst]
    refine { vtA := h.vtA, vtS := ?_, txSdu := ?_, queue := ?_, noRetx := h.noRetx,
             noStatus := h.noStatus }
    · show (st.vtS + 1) % 1024 = _
      rw [h.vtS, Nat.mod_add_mod]
    · simp only [h.txSdu]
      decide +kernel
    · simp only [h.txSdu]
      decide +kernel

/-- An entity can send any number of PDUs without an answer. Induction on their number. -/
theorem hasSent_run (L : SrslteBit) (k : Nat) :
    ∃ st, runTo (amStep L) (configure {} {})
      (List.replicate k [AmCall.writeSdu [7], .readPdu 0 3]).flatten = some st ∧
      HasSent k st := by
  induction k with
  | zero => exact ⟨_, rfl, { vtA := rfl, vtS := rfl, txSdu := rfl, queue := rfl, noRetx := rfl
                             noStatus := rfl }⟩
  | succ k ih =>
    obtain ⟨st, hrun, hsent⟩ := ih
    obtain ⟨st', hrun', hsent'⟩ := hasSent_succ L hsent
    refine ⟨st', ?_, hsent'⟩
    rw [List.replicate_succ', List.flatten_append, runTo_append, hrun]
    simpa using hrun'

/-- After 513 one-byte SDUs, each sent in its own PDU and none acknowledged, more than 512
sequence numbers are outstanding. -/
theorem txWindow_run_overflow :
    ¬ TxWindowRun msbFirst (configure {} {})
      (List.replicate 513 [AmCall.writeSdu [7], .readPdu 0 3]).flatten := by
  rintro ⟨hinit, halong⟩
  obtain ⟨st, hrun, hsent⟩ := hasSent_run msbFirst 513
  have hok : TxWindowOk st := halong.last hinit hrun
  have hbound := hok.bound
  rw [outstanding, RlcAm.txModBase, hsent.vtA, hsent.vtS] at hbound
  exact absurd hbound (by decide)

end SrsUE.Proofs.Rlc
