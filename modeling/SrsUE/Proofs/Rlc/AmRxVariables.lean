import SrsUE.Lib.Run
import SrsUE.Proofs.Rlc.AmReceive
import SrsUE.Proofs.Rlc.AmSegmentKeys

/-!
# `SrsUE.Proofs.Rlc.AmRxVariables`: the receive variables under any input

The receive invariant `RxInv` is about absolute indices, and a sender that numbers its PDUs.
Here the peer sends what it likes: whole PDUs and segments with any header. A sequence number
inside the window still has an index, the one that `vr_r` and its distance from it give, and
one outside the window changes nothing. So every call keeps the invariant for some set of
indices and moves none of them back (`rxVarsInv_step`).

* `rxVariables_run` reads this back on the variables: their order, the free places of the
  window, and that no variable moves backwards. It also says that the loops over `rx_window`
  end, that is, they give the same result under every larger bound on their rounds.
* `gapTimer_run_iff` is about the reordering timer. A gap between `vr_ms` and `vr_h` should
  have the timer running, so that it is reported one day. Only the first segment of a PDU can
  open a gap without the timer: `handle_data_pdu_segment` moves `vr_h` and never starts it.
-/

set_option autoImplicit false

namespace SrsUE.Proofs.Rlc

open SrsUE.Lib
open SrsUE.Rlc

/-! ### What is to hold -/

/-- The receive variables, measured from `vr_r`. -/
structure RxVariables (st : RlcAm) : Prop where
  vrMr : st.vrMr = (st.vrR + 512) % 1024
  ms_le_h : st.rxModBase st.vrMs ≤ st.rxModBase st.vrH
  h_le : st.rxModBase st.vrH ≤ 512
  vrR_free : st.rxWindow st.vrR = none
  vrMs_free : st.rxWindow st.vrMs = none
  keys : ∀ sn, (st.rxWindow sn).isSome →
    sn < 1024 ∧ 0 < st.rxModBase sn ∧ st.rxModBase sn < st.rxModBase st.vrH
  timer : st.reorderingTimeout.running = true →
    0 < st.rxModBase st.vrX ∧ st.rxModBase st.vrX ≤ st.rxModBase st.vrH

/-- From `st` to `st'` no receive variable moves backwards: `vr_r` moves up by at most 512,
and seen from the old `vr_r` neither `vr_ms` nor `vr_h` is below its old place. -/
structure RxForward (st st' : RlcAm) : Prop where
  vrR : st.rxModBase st'.vrR ≤ 512
  vrMs : st.rxModBase st.vrMs ≤ st.rxModBase st'.vrR + st'.rxModBase st'.vrMs
  vrH : st.rxModBase st.vrH ≤ st.rxModBase st'.vrR + st'.rxModBase st'.vrH

/-- The loops over `rx_window` end: at an expiry of the reordering timer, and for any PDU that
may arrive next, they give the same result under every bound from 1024 rounds on. -/
structure RxLoopsEnd (st : RlcAm) : Prop where
  expiry : st.reorderingTimeout.running = true → ∀ rounds, 1024 ≤ rounds →
    skipReceived st.rxWindow rounds st.vrX = skipReceived st.rxWindow 1024 st.vrX
  arrival : ∀ (payload : Bytes) (header : AmdPduHeader), header.sn < 1024 →
    insideRxWindow st header.sn = true → st.rxWindow header.sn = none →
    ∀ rounds, 1024 ≤ rounds →
      skipReceived (st.rxWindow.insert header.sn { header := header, buf := payload }) rounds
        st.vrMs
        = skipReceived (st.rxWindow.insert header.sn { header := header, buf := payload }) 1024
            st.vrMs ∧
      reassembleLoop rounds { storeDataPdu st payload header with
          rxSdu := some ((storeDataPdu st payload header).rxSdu.getD []) }
        = reassembleRxSdus (storeDataPdu st payload header)

/-! ### The invariant -/

/-- The receive state at the indices `r`, `ms` and `h`, for some history of reception, and
pending segments under their own sequence numbers. -/
structure RxVarsInv (st : RlcAm) (r ms h : Nat) : Prop where
  window : ∃ recv, RxInv st r ms h recv fun _ _ => True
  keys : RxKeys 512 st
  segments : ∀ sn segments, st.rxSegments sn = some segments →
    sn < 1024 ∧ segments ≠ [] ∧ ∀ s ∈ segments, s.header.sn = sn

section
variable {st st' : RlcAm} {r ms h : Nat}

/-- A configured entity is at the indices 0. -/
theorem rxVarsInv_init (cnfg : AmConfig) : RxVarsInv (configure {} cnfg) 0 0 0 where
  window := ⟨_, rxInv_init cnfg _⟩
  keys := { vrR_lt := by simp [configure], vrMr := by simp [configure], bound := Nat.le_refl _
            keys := fun sn hs => by cases hs }
  segments _ _ hs := by cases hs

/-- The receive window, its variables, the timer and the segments decide the invariant. -/
theorem RxVarsInv.of_rxSame (inv : RxVarsInv st r ms h) (hs : RxSame st st') :
    RxVarsInv st' r ms h where
  window := by
    obtain ⟨recv, hinv⟩ := inv.window
    exact ⟨recv, hinv.of_eq hs.vrR hs.vrMr hs.rxWindow hs.vrMs hs.vrH hs.vrX
      hs.reorderingTimeout⟩
  keys := inv.keys.of_eq hs.vrR hs.vrMr hs.rxWindow
  segments := by rw [hs.rxSegments]; exact inv.segments

/-- A sequence number inside the window is that of an index. -/
theorem index_of_inside {recv : Nat → Prop} {Q : Nat → AmdRxPdu → Prop}
    (w : RxWindow st r recv Q) (hk : RxKeys 512 st) {sn : Nat} (hsn : sn < 1024)
    (hin : insideRxWindow st sn = true) :
    ∃ i, r ≤ i ∧ i < r + 512 ∧ sn = i % 1024 := by
  have hlt := (insideRxWindow_of_keys hk sn).mp hin
  have hmod := add_modDist_mod (m := 1024) (by decide) sn r
  rw [RlcAm.rxModBase, w.vrR] at hlt
  refine ⟨r + modDist 1024 sn (r % 1024), by omega, by omega, ?_⟩
  rw [hmod, Nat.mod_eq_of_lt hsn]

/-! ### One call -/

/-- A whole PDU with any sequence number. -/
theorem rxVarsInv_handleDataPdu (inv : RxVarsInv st r ms h) (now : Nat) (payload : Bytes)
    {header : AmdPduHeader} (hsn : header.sn < 1024) :
    ∃ r' ms' h', RxVarsInv (handleDataPdu st now payload header) r' ms' h' ∧
      r ≤ r' ∧ r' ≤ r + 512 ∧ ms ≤ ms' ∧ h ≤ h' := by
  obtain ⟨recv, hinv⟩ := inv.window
  obtain ⟨B, hk, hseg, -⟩ := handleDataPdu_waiting inv.keys now payload hsn
  have hkeys := hk.mono hk.bound (Nat.le_refl 512)
  -- A whole PDU does not touch `rx_segments`.
  have hsegments : ∀ sn segments, (handleDataPdu st now payload header).rxSegments sn
      = some segments → sn < 1024 ∧ segments ≠ [] ∧ ∀ s ∈ segments, s.header.sn = sn := by
    rw [hseg]
    exact inv.segments
  cases hin : insideRxWindow st header.sn with
  | false =>
    -- Outside of the window only the poll bit is looked at.
    have heq : handleDataPdu st now payload header = pollDiscarded st header := by
      simp [handleDataPdu, hin]
    refine ⟨r, ms, h, { window := ⟨recv, ?_⟩, keys := hkeys, segments := hsegments },
      Nat.le_refl r, by omega, Nat.le_refl ms, Nat.le_refl h⟩
    rw [heq]
    exact hinv.of_eq rfl rfl rfl rfl rfl rfl rfl
  | true =>
    obtain ⟨i, hri, hi, hsni⟩ := index_of_inside hinv.toRxWindow inv.keys hsn hin
    obtain ⟨r', ms', h', hinv', hrr', hr'le, hms, hh, -⟩ :=
      handleDataPdu_spec hinv (show r ≤ i + 512 by omega) hi hsni trivial now
    exact ⟨r', ms', h', { window := ⟨_, hinv'⟩, keys := hkeys, segments := hsegments },
      hrr', hr'le, hms, hh⟩

/-- Other segments under the same kind of keys. -/
theorem RxVarsInv.with_segments (inv : RxVarsInv st r ms h) {segments : Dict Nat (List AmdRxPdu)}
    (doStatus : Bool) (hseg : ∀ sn segs, segments sn = some segs →
      sn < 1024 ∧ segs ≠ [] ∧ ∀ s ∈ segs, s.header.sn = sn) :
    RxVarsInv { st with rxSegments := segments, doStatus := doStatus } r ms h where
  window := by
    obtain ⟨recv, hinv⟩ := inv.window
    exact ⟨recv, hinv.of_eq rfl rfl rfl rfl rfl rfl rfl⟩
  keys := inv.keys.of_eq rfl rfl rfl
  segments := hseg

/-- The first segment of a PDU raises `vr_h` only. -/
theorem rxVarsInv_firstSegment (inv : RxVarsInv st r ms h) (payload : Bytes)
    {header : AmdPduHeader} (hsn : header.sn < 1024) (hin : insideRxWindow st header.sn = true) :
    ∃ i pollReceived doStatus, r ≤ i ∧ i < r + 512 ∧ header.sn = i % 1024 ∧
      checkPollBit (updateVrH { st with
          rxSegments := st.rxSegments.insert header.sn [{ header := header, buf := payload }] }
        header.sn) header = { st with
          rxSegments := st.rxSegments.insert header.sn [{ header := header, buf := payload }]
          vrH := max h (i + 1) % 1024, pollReceived := pollReceived, doStatus := doStatus } ∧
      RxVarsInv (checkPollBit (updateVrH { st with
          rxSegments := st.rxSegments.insert header.sn [{ header := header, buf := payload }] }
        header.sn) header) r ms (max h (i + 1)) := by
  obtain ⟨recv, hinv⟩ := inv.window
  have hrms := hinv.r_le_ms
  have hmsh := hinv.ms_le_h
  have hhle := hinv.h_le
  obtain ⟨i, hri, hi, hsni⟩ := index_of_inside hinv.toRxWindow inv.keys hsn hin
  -- `vr_h` moves behind the SN of the segment, and the poll bit is all else that is noted.
  have hH := @updateVrH_spec { st with
    rxSegments := st.rxSegments.insert header.sn [{ header := header, buf := payload }] } r h
    hinv.vrR hinv.vrH (by omega) hhle i hri hi
  rw [← hsni] at hH
  obtain ⟨p, d, hpoll⟩ := checkPollBit_frame { st with
    rxSegments := st.rxSegments.insert header.sn [{ header := header, buf := payload }]
    vrH := max h (i + 1) % 1024 } header
  have heq := (congrArg (checkPollBit · header) hH).trans hpoll
  simp only at heq
  refine ⟨i, p, d, hri, hi, hsni, heq, ?_⟩
  rw [heq]
  refine { window := ⟨recv, ?_⟩, keys := inv.keys.of_eq rfl rfl rfl, segments := ?_ }
  · refine { toRxWindow := hinv.toRxWindow.of_eq rfl rfl rfl, vrMs := hinv.vrMs, vrH := rfl,
             r_le_ms := hrms, ms_le_h := by omega, h_le := by omega
             missing_r := hinv.missing_r, missing_ms := hinv.missing_ms, recv_lt := ?_
             timer := ?_ }
    · intro j hj
      have := hinv.recv_lt j hj
      omega
    · intro hrun
      obtain ⟨x, hx, hrx, hxh, hxms⟩ := hinv.timer hrun
      exact ⟨x, hx, hrx, by omega, hxms⟩
  · intro sn segs hs
    have hs' : st.rxSegments.insert header.sn _ sn = some segs := hs
    rw [Dict.insert_apply] at hs'
    split at hs'
    · rename_i hsn'
      obtain rfl := Option.some.inj hs'
      rw [hsn']
      exact ⟨hsn, by simp, by simp⟩
    · exact inv.segments sn segs hs'

/-- A further segment is kept under its sequence number. -/
theorem insertSegment_segments (inv : RxVarsInv st r ms h) (payload : Bytes)
    {header : AmdPduHeader} {segments : List AmdRxPdu}
    (hseg : st.rxSegments header.sn = some segments) :
    (rebuildHeader (insertSegment { header := header, buf := payload } segments)).sn = header.sn ∧
    ∀ sn segs, st.rxSegments.insert header.sn
        (insertSegment { header := header, buf := payload } segments) sn = some segs →
      sn < 1024 ∧ segs ≠ [] ∧ ∀ s ∈ segs, s.header.sn = sn := by
  obtain ⟨hlt, -, hall⟩ := inv.segments header.sn segments hseg
  have hsn : ∀ s ∈ insertSegment { header := header, buf := payload } segments,
      s.header.sn = header.sn := by
    intro s hs
    -- Inserting keeps the segments that were there and adds the one that arrived.
    rcases insertSegment_mem _ _ s hs with rfl | hs
    · rfl
    · exact hall s hs
  refine ⟨rebuildHeader_sn (insertSegment_ne_nil _ _) hsn, ?_⟩
  intro sn segs hs
  rw [Dict.insert_apply] at hs
  split at hs
  · rename_i hsn'
    obtain rfl := Option.some.inj hs
    rw [hsn']
    exact ⟨hlt, insertSegment_ne_nil _ _, hsn⟩
  · exact inv.segments sn segs hs

/-- A segment with any header. -/
theorem rxVarsInv_handleDataPduSegment (inv : RxVarsInv st r ms h) (now : Nat) (payload : Bytes)
    {header : AmdPduHeader} (hsn : header.sn < 1024) :
    ∃ r' ms' h', RxVarsInv (handleDataPduSegment st now payload header) r' ms' h' ∧
      r ≤ r' ∧ r' ≤ r + 512 ∧ ms ≤ ms' ∧ h ≤ h' := by
  rcases handleDataPduSegment_cases st now payload header with
    ⟨-, heq⟩ | ⟨hin, -, heq⟩ | ⟨-, segments, st₁, hseg, rfl, heq | ⟨data, heq⟩⟩
  · rw [heq]
    exact ⟨r, ms, h, inv.with_segments _ inv.segments, Nat.le_refl r, by omega,
      Nat.le_refl ms, Nat.le_refl h⟩
  · obtain ⟨i, _, _, -, -, -, -, hinv'⟩ := rxVarsInv_firstSegment inv payload hsn hin
    rw [heq]
    exact ⟨r, ms, max h (i + 1), hinv', Nat.le_refl r, by omega, Nat.le_refl ms, by omega⟩
  · obtain ⟨-, hsegs⟩ := insertSegment_segments inv payload hseg
    rw [heq]
    exact ⟨r, ms, h, inv.with_segments _ hsegs, Nat.le_refl r, by omega, Nat.le_refl ms,
      Nat.le_refl h⟩
  -- The PDU is complete: it goes through `handle_data_pdu` with the rebuilt header, and its
  -- segments are erased.
  · obtain ⟨hfull, hsegs⟩ := insertSegment_segments inv payload hseg
    obtain ⟨r', ms', h', hinv', hle⟩ := rxVarsInv_handleDataPdu
      (inv.with_segments (st.doStatus || header.p) hsegs) now data (hfull ▸ hsn)
    rw [heq]
    refine ⟨r', ms', h', hinv'.with_segments _ ?_, hle⟩
    intro sn segs hs
    rw [Dict.erase_apply] at hs
    split at hs
    · cases hs
    · exact hinv'.segments sn segs hs

/-- Every call but `reset` keeps the invariant, and no index moves back. -/
theorem rxVarsInv_step {L : SrslteBit} {c : AmCall} (inv : RxVarsInv st r ms h)
    (hc : c ≠ .reset) (hstep : amStep L st c = some st') :
    ∃ r' ms' h', RxVarsInv st' r' ms' h' ∧ r ≤ r' ∧ r' ≤ r + 512 ∧ ms ≤ ms' ∧ h ≤ h' := by
  cases amStep_rxStep hstep with
  | transmit _ _ hsame =>
    exact ⟨r, ms, h, inv.of_rxSame hsame, Nat.le_refl r, by omega, Nat.le_refl ms, Nat.le_refl h⟩
  | pdu hread _ _ => exact rxVarsInv_handleDataPdu inv _ _ (readDataPduHeader_sn_lt hread)
  | segment hread _ _ =>
    exact rxVarsInv_handleDataPduSegment inv _ _ (readDataPduHeader_sn_lt hread)
  | @query now _ _ _ hsame =>
    -- The reordering timeout moves `vr_ms` only.
    obtain ⟨recv, hinv⟩ := inv.window
    obtain ⟨ms', hinv', hms⟩ := checkReorderingTimeout_spec hinv now
    obtain ⟨_, _, _, _, hf⟩ := checkReorderingTimeout_frame st now
    have hcheck : RxVarsInv (checkReorderingTimeout st now) r ms' h := by
      refine { window := ⟨recv, hinv'⟩, keys := ?_, segments := ?_ }
      · rw [hf]
        exact inv.keys.of_eq rfl rfl rfl
      · rw [hf]
        exact inv.segments
    exact ⟨r, ms', h, hcheck.of_rxSame hsame, Nat.le_refl r, by omega, hms, Nat.le_refl h⟩
  | reset => exact absurd rfl hc

/-! ### The invariant, read on the variables -/

/-- The indices put the variables in order. -/
theorem RxVarsInv.rxVariables (inv : RxVarsInv st r ms h) : RxVariables st := by
  obtain ⟨recv, hinv⟩ := inv.window
  have hrms := hinv.r_le_ms
  have hmsh := hinv.ms_le_h
  have hhle := hinv.h_le
  have hMs := hinv.rxModBase_vrMs
  have hH := hinv.rxModBase_vrH
  refine { vrMr := inv.keys.vrMr, ms_le_h := by omega, h_le := by omega, vrR_free := ?_
           vrMs_free := ?_, keys := ?_, timer := ?_ }
  · rw [hinv.vrR]
    exact hinv.absent r (Nat.le_refl r) (by omega) hinv.missing_r
  · rw [hinv.vrMs]
    exact hinv.absent ms hrms (by omega) hinv.missing_ms
  · intro sn hsome
    obtain ⟨hsn, hlt⟩ := inv.keys.keys sn hsome
    obtain ⟨i, hri, hi, rfl⟩ := index_of_inside hinv.toRxWindow inv.keys hsn
      ((insideRxWindow_of_keys inv.keys sn).mpr hlt)
    -- What is in the window was received, so it is below `h` and is not `r`.
    have hrecv := (hinv.isSome_iff hri (by omega)).mp hsome
    have hih := hinv.recv_lt i hrecv
    have hne : i ≠ r := fun heq => hinv.missing_r (heq ▸ hrecv)
    rw [rxModBase_of_le hinv.vrR hri (by omega)]
    exact ⟨hsn, by omega, by omega⟩
  · intro hrun
    obtain ⟨x, hx, hrx, hxh, -⟩ := hinv.timer hrun
    rw [hx, rxModBase_of_le hinv.vrR (by omega) (by omega)]
    exact ⟨by omega, by omega⟩

/-- Indices that do not decrease move no variable backwards. -/
theorem RxVarsInv.rxForward {r' ms' h' : Nat} (inv : RxVarsInv st r ms h)
    (inv' : RxVarsInv st' r' ms' h') (hr : r ≤ r') (hr' : r' ≤ r + 512) (hms : ms ≤ ms')
    (hh : h ≤ h') : RxForward st st' := by
  obtain ⟨recv, hinv⟩ := inv.window
  obtain ⟨recv', hinv'⟩ := inv'.window
  have hle := hinv.h_le
  have hle' := hinv'.h_le
  have hmsh := hinv.ms_le_h
  have hmsh' := hinv'.ms_le_h
  have hrms := hinv.r_le_ms
  have hrms' := hinv'.r_le_ms
  -- Each variable at its offset from its own `vr_r`: the rest is arithmetic on the indices.
  have hR : st.rxModBase st'.vrR = r' - r := by
    rw [hinv'.vrR]
    exact rxModBase_of_le hinv.vrR hr (by omega)
  have hMs := hinv.rxModBase_vrMs
  have hMs' := hinv'.rxModBase_vrMs
  have hH := hinv.rxModBase_vrH
  have hH' := hinv'.rxModBase_vrH
  exact { vrR := by omega, vrMs := by omega, vrH := by omega }

/-! ### The loops end -/

/-- A loop that stopped at a free place stops there under every larger bound. -/
theorem skipReceived_stable {w : Dict Nat AmdRxPdu} :
    ∀ {n sn m : Nat}, w (skipReceived w n sn) = none → n ≤ m →
      skipReceived w m sn = skipReceived w n sn := by
  intro n
  induction n with
  | zero =>
    intro sn m hnone _
    have hsn : w sn = none := hnone
    cases m with
    | zero => rfl
    | succ m => simp [skipReceived, hsn]
  | succ n ih =>
    intro sn m hnone hm
    obtain ⟨m, rfl⟩ : ∃ k, m = k + 1 := ⟨m - 1, by omega⟩
    rw [skipReceived] at hnone
    rw [skipReceived, skipReceived]
    split
    · rename_i hsome
      rw [if_pos hsome] at hnone
      exact ih hnone (by omega)
    · rfl

/-- More rounds change nothing once the loop has ended. -/
theorem reassembleLoop_stable :
    ∀ {n m : Nat} {st : RlcAm}, (reassembleLoop n st).rxWindow (reassembleLoop n st).vrR = none →
      n ≤ m → reassembleLoop m st = reassembleLoop n st := by
  intro n
  induction n with
  | zero =>
    intro m st hnone _
    have hst : st.rxWindow st.vrR = none := hnone
    cases m with
    | zero => rfl
    | succ m => simp [reassembleLoop, hst]
  | succ n ih =>
    intro m st hnone hm
    obtain ⟨m, rfl⟩ : ∃ k, m = k + 1 := ⟨m - 1, by omega⟩
    cases hpdu : st.rxWindow st.vrR with
    | none => simp only [reassembleLoop, hpdu]
    | some pdu =>
      simp only [reassembleLoop, hpdu] at hnone ⊢
      exact ih hnone (by omega)

/-- The loops end, as no PDU waits at `vr_ms` or behind the window. -/
theorem RxVarsInv.rxLoopsEnd (inv : RxVarsInv st r ms h) : RxLoopsEnd st := by
  obtain ⟨recv, hinv⟩ := inv.window
  have hrms := hinv.r_le_ms
  have hmsh := hinv.ms_le_h
  have hhle := hinv.h_le
  refine { expiry := ?_, arrival := ?_ }
  · intro hrun rounds hrounds
    -- A loop that has stopped at a missing SN stays there with any larger bound.
    obtain ⟨x, hx, hrx, hxh, -⟩ := hinv.timer hrun
    obtain ⟨m, hskip, hxm, hmh, hmiss, -⟩ :=
      skipReceived_spec hinv.toRxWindow hinv.recv_lt hhle 1024 x (by omega) hxh (by omega)
    rw [hx]
    refine skipReceived_stable ?_ hrounds
    rw [hskip]
    exact hinv.absent m (by omega) (by omega) hmiss
  · intro payload header hsn hin hnone rounds hrounds
    obtain ⟨i, hri, hi, hsni⟩ := index_of_inside hinv.toRxWindow inv.keys hsn hin
    -- With the PDU that has arrived, everything received is below the new `vr_h`.
    have hlt : ∀ j, recv j ∨ j = i → j < max h (i + 1) := by
      rintro j (hj | rfl)
      · have := hinv.recv_lt j hj
        omega
      · omega
    constructor
    · have w := @RxWindow.insert st r recv _ hinv.toRxWindow i hri hi
        { header := header, buf := payload } trivial
      rw [← hsni] at w
      obtain ⟨m, hskip, hge, hle, hmiss, -⟩ :=
        skipReceived_spec w hlt (by omega) 1024 ms hrms (by omega) (by omega)
      rw [hinv.vrMs]
      refine skipReceived_stable ?_ hrounds
      rw [hskip]
      exact w.absent m (by omega) (by omega) hmiss
    · obtain ⟨_, _, _, -, w, -⟩ :=
        @storeDataPdu_spec st r ms h recv _ hinv i hri hi payload header hsni trivial
      have w' : RxWindow { storeDataPdu st payload header with
          rxSdu := some ((storeDataPdu st payload header).rxSdu.getD []) } r
          (fun j => recv j ∨ j = i) fun _ _ => True := w.of_eq rfl rfl rfl
      obtain ⟨r', -, -, hmiss, -, hw⟩ :=
        reassembleLoop_window hlt 1024 w' (by omega) (by omega)
      refine reassembleLoop_stable ?_ hrounds
      rw [hw.vrR]
      exact hw.absent r' (Nat.le_refl r') (by omega) hmiss

end

/-- The calls that `reset` is not one of. -/
def NoReset (calls : List AmCall) : Prop := ∀ c ∈ calls, c ≠ .reset

/-- In every state that an entity reaches with any PDUs, segments and expiries of the
reordering timer, the receive variables are in order, the loops over `rx_window` end, and no
call moves `vr_r`, `vr_ms` or `vr_h` backwards. -/
theorem rxVariables_run {L : SrslteBit} {cnfg : AmConfig} {calls : List AmCall} {st : RlcAm}
    (hcalls : NoReset calls) (hrun : runTo (amStep L) (configure {} cnfg) calls = some st) :
    RxVariables st ∧ RxLoopsEnd st ∧
    ∀ c st', c ≠ .reset → amStep L st c = some st' → RxForward st st' := by
  have hinv : ∃ r ms h, RxVarsInv st r ms h := by
    refine runTo_inv (I := fun st => ∃ r ms h, RxVarsInv st r ms h)
      (K := fun c : AmCall => c ≠ .reset) ?_ hcalls ⟨0, 0, 0, rxVarsInv_init cnfg⟩ hrun
    rintro st c st' ⟨r, ms, h, inv⟩ hc hstep
    obtain ⟨r', ms', h', inv', -⟩ := rxVarsInv_step inv hc hstep
    exact ⟨r', ms', h', inv'⟩
  obtain ⟨r, ms, h, inv⟩ := hinv
  refine ⟨inv.rxVariables, inv.rxLoopsEnd, ?_⟩
  intro c st' hc hstep
  obtain ⟨r', ms', h', inv', hr, hr', hms, hh⟩ := rxVarsInv_step inv hc hstep
  exact inv.rxForward inv' hr hr' hms hh

/-- The PDU with sequence number 2 arrives, then a segment of number 1, and the reordering
timer expires. -/
def gapAndSegment : List AmCall :=
  [.writePdu 0 [0x80, 0x02, 7], .writePdu 0 [0xC0, 0x01, 0x00, 0x00, 7], .getBufferState 1]

/-- The variables after a gap, a segment and an expiry. -/
theorem rxVariables_run_gapAndSegment :
    ∃ st, runTo (amStep msbFirst) (configure {} {}) gapAndSegment = some st ∧
      (st.vrR, st.vrMs, st.vrH) = (0, 3, 3) ∧ RxVariables st ∧ RxLoopsEnd st := by
  have hrun : ((runTo (amStep msbFirst) (configure {} {}) gapAndSegment).map fun st =>
      (st.vrR, st.vrMs, st.vrH)) = some (0, 3, 3) := by
    decide +kernel
  obtain ⟨st, hst, heq⟩ := Option.map_eq_some_iff.mp hrun
  have hcalls : NoReset gapAndSegment := by
    simp [NoReset, gapAndSegment]
  obtain ⟨hvars, hloops, -⟩ := rxVariables_run hcalls hst
  exact ⟨st, hst, heq, hvars, hloops⟩

/-! ### The reordering timer -/

/-- A gap below `vr_h` has the reordering timer running. -/
def GapTimer (st : RlcAm) : Prop :=
  st.rxModBase st.vrMs < st.rxModBase st.vrH → st.reorderingTimeout.running = true

/-- The call brings no first segment of a PDU at `vr_h` or above while the timer is off. -/
def RespectsTimer (st : RlcAm) : AmCall → Prop
  | .writePdu _ payload => ∀ header data, readDataPduHeader payload = some (header, data) →
      header.dc = .dataPdu → header.rf = true → insideRxWindow st header.sn = true →
      st.rxSegments header.sn = none → st.rxModBase st.vrH ≤ st.rxModBase header.sn →
      st.reorderingTimeout.running = true
  | _ => True

section
variable {L : SrslteBit} {st st' : RlcAm}

/-- A timeout that is started runs, unless its duration is negative. -/
theorem Timeout.running_start {t : Timeout} {now : Nat} {d : Int} (hd : 0 ≤ d) :
    (t.start now d).running = true := by
  rw [Timeout.start, if_neg (by omega)]

/-- `handle_data_pdu` starts the timer when there is a gap. -/
theorem gapTimer_updateReordering (hcfg : 0 ≤ st.cfg.tReordering) (now : Nat) :
    GapTimer (updateReordering st now) := by
  obtain ⟨timer, vrX, hf⟩ := updateReordering_frame st now
  have h0 : st.rxModBase st.vrR = 0 := by
    rw [RlcAm.rxModBase, modDist_self (by omega)]
  intro hgap
  rw [hf] at hgap
  have hgap' : st.rxModBase st.vrR < st.rxModBase st.vrH := by
    rw [h0]
    exact Nat.lt_of_le_of_lt (Nat.zero_le _) hgap
  unfold updateReordering
  simp only
  -- Whether the timer was stopped first or not, the gap is still there.
  split
  · split
    · exact Timeout.running_start hcfg
    · rename_i hoff
      refine absurd ?_ hoff
      simp only [Timeout.running_reset, Bool.not_false, Bool.true_and, decide_eq_true_eq]
      exact hgap'
  · split
    · exact Timeout.running_start hcfg
    · rename_i hoff
      simpa [hgap'] using hoff

/-- A data PDU starts the timer for the gap that it leaves. -/
theorem gapTimer_handleDataPdu (hcfg : 0 ≤ st.cfg.tReordering) (hgap : GapTimer st) (now : Nat)
    (payload : Bytes) (header : AmdPduHeader) :
    GapTimer (handleDataPdu st now payload header) := by
  have hcfg' : (reassembleRxSdus (storeDataPdu st payload header)).cfg = st.cfg := by
    obtain ⟨_, _, _, _, _, hl⟩ := reassembleLoop_frame 1024
      { storeDataPdu st payload header with
        rxSdu := some ((storeDataPdu st payload header).rxSdu.getD []) }
    obtain ⟨_, _, _, _, hs⟩ := storeDataPdu_frame st payload header
    rw [reassembleRxSdus, hl, hs]
  unfold handleDataPdu
  split
  · exact hgap
  · split
    · exact hgap
    · exact gapTimer_updateReordering (hcfg' ▸ hcfg) now

/-- The timer starts again when it expires with a gap left. -/
theorem gapTimer_checkReorderingTimeout (hcfg : 0 ≤ st.cfg.tReordering) (hgap : GapTimer st)
    (now : Nat) : GapTimer (checkReorderingTimeout st now) := by
  unfold checkReorderingTimeout
  split
  · simp only
    split
    · exact fun _ => Timeout.running_start hcfg
    · rename_i hle
      exact fun hlt => absurd hlt hle
  · exact hgap

/-- A segment keeps a gap timed exactly when it is no first segment that opens one untimed. -/
theorem gapTimer_handleDataPduSegment {r ms h : Nat} (inv : RxVarsInv st r ms h)
    (hcfg : 0 ≤ st.cfg.tReordering) (hgap : GapTimer st) (now : Nat) (payload : Bytes)
    {header : AmdPduHeader} (hsn : header.sn < 1024) :
    GapTimer (handleDataPduSegment st now payload header) ↔
      (insideRxWindow st header.sn = true → st.rxSegments header.sn = none →
        st.rxModBase st.vrH ≤ st.rxModBase header.sn → st.reorderingTimeout.running = true) := by
  rcases handleDataPduSegment_cases st now payload header with
    ⟨hin, heq⟩ | ⟨hin, hnone, heq⟩ | ⟨-, segments, st₁, hseg, rfl, hnext⟩
  · rw [heq, hin]
    exact ⟨fun _ hc => (by cases hc), fun _ => hgap⟩
  · obtain ⟨recv, hinv⟩ := inv.window
    obtain ⟨i, p, d, hri, hi, hsni, hst, -⟩ := rxVarsInv_firstSegment inv payload hsn hin
    have hrms := hinv.r_le_ms
    have hmsh := hinv.ms_le_h
    have hhle := hinv.h_le
    have hMs := hinv.rxModBase_vrMs
    have hH := hinv.rxModBase_vrH
    have hH' : st.rxModBase (max h (i + 1) % 1024) = max h (i + 1) - r :=
      rxModBase_of_le hinv.vrR (by omega) (by omega)
    have hI : st.rxModBase header.sn = i - r := by
      rw [hsni]
      exact rxModBase_of_le hinv.vrR hri (by omega)
    -- A first segment moves `vr_h` and starts no timer.
    have hgap' : GapTimer (handleDataPduSegment st now payload header) ↔
        (ms - r < max h (i + 1) - r → st.reorderingTimeout.running = true) := by
      rw [heq, hst, ← hMs, ← hH']
      exact Iff.rfl
    have hold : ms - r < h - r → st.reorderingTimeout.running = true := by
      rw [← hMs, ← hH]
      exact hgap
    rw [hgap', hH, hI]
    constructor
    · exact fun hnew _ _ hle => hnew (by omega)
    · intro hcond hlt
      by_cases hle : h - r ≤ i - r
      · exact hcond hin hnone hle
      · exact hold (by omega)
  -- A later segment either waits or completes a PDU, which goes through `handle_data_pdu`.
  · have hkeep : GapTimer (handleDataPduSegment st now payload header) := by
      rcases hnext with heq | ⟨data, heq⟩
      · rw [heq]
        exact hgap
      · rw [heq]
        exact @gapTimer_handleDataPdu { st with
          rxSegments := st.rxSegments.insert header.sn
            (insertSegment { header := header, buf := payload } segments)
          doStatus := st.doStatus || header.p } hcfg hgap now data _
    refine ⟨fun _ _ hnone => ?_, fun _ => hkeep⟩
    rw [hseg] at hnone
    cases hnone

/-- A call never changes the configuration. -/
theorem amStep_cfg {c : AmCall} (hstep : amStep L st c = some st') : st'.cfg = st.cfg := by
  cases c with
  | writeSdu sdu =>
    obtain ⟨-, rfl⟩ := writeSdu_cases hstep
    rfl
  | readPdu now n =>
    obtain ⟨⟨st₁, out⟩, hread, rfl⟩ := Option.map_eq_some_iff.mp hstep
    exact (readPdu_setupSame hread).cfg
  | writePdu now payload =>
    rcases writePdu_cases hstep with
      ⟨-, rfl⟩ | ⟨status, -, rfl⟩ | ⟨hdr, data, -, ⟨-, rfl⟩ | ⟨-, rfl⟩⟩
    · rfl
    · exact (handleStatus_setupSame st status).cfg
    · exact (handleDataPduSegment_setupSame st now data hdr).cfg
    · exact (handleDataPdu_setupSame st now data hdr).cfg
  | getBufferState now =>
    obtain rfl := Option.some.inj hstep
    obtain ⟨_, _, _, _, _, hf⟩ := getBufferState_frame st now
    rw [hf]
  | getTotalBufferState now =>
    obtain rfl := Option.some.inj hstep
    obtain ⟨_, _, _, _, _, hf⟩ := getTotalBufferState_frame st now
    rw [hf]
  | reset =>
    obtain rfl := Option.some.inj hstep
    rfl

/-- What the reordering timer depends on. -/
structure GapInv (st : RlcAm) : Prop where
  vars : ∃ r ms h, RxVarsInv st r ms h
  cfg : 0 ≤ st.cfg.tReordering
  gap : GapTimer st

/-- A reset entity is at the indices 0 again. -/
theorem rxVarsInv_reset (st : RlcAm) : RxVarsInv (reset st) 0 0 0 where
  window := by
    refine ⟨fun _ => False, ?_⟩
    exact
      { vrR := rfl, vrMr := rfl, below := fun i hi => by omega, bound := fun i hi => hi.elim
        absent := fun _ _ _ _ => rfl, present := fun i _ hi => hi.elim, vrMs := rfl, vrH := rfl
        r_le_ms := Nat.le_refl 0, ms_le_h := Nat.le_refl 0, h_le := by omega
        missing_r := id, missing_ms := id, recv_lt := fun i hi => hi.elim
        timer := fun hrun => by cases hrun }
  keys := { vrR_lt := by simp [reset], vrMr := by simp [reset], bound := Nat.le_refl _
            keys := fun sn hs => by cases hs }
  segments _ _ hs := by cases hs

/-- A call keeps every gap timed exactly when it brings no first segment that opens one while
the timer is off. -/
theorem amStep_gapTimer_iff {c : AmCall} (inv : GapInv st)
    (hstep : amStep L st c = some st') : GapTimer st' ↔ RespectsTimer st c := by
  have hkeep : ∀ {P : Prop}, P → GapTimer st' → (GapTimer st' ↔ P) :=
    fun hp hg => ⟨fun _ => hp, fun _ => hg⟩
  have hsame : ∀ {st₁ : RlcAm}, GapTimer st₁ → RxSame st₁ st' → GapTimer st' := by
    intro st₁ hgap hs
    unfold GapTimer RlcAm.rxModBase
    rw [hs.vrR, hs.vrMs, hs.vrH, hs.reorderingTimeout]
    exact hgap
  cases amStep_rxStep hstep with
  | transmit _ noData hs =>
    refine hkeep ?_ (hsame inv.gap hs)
    cases c with
    | writePdu now payload =>
      exact fun hdr data hread hdc => absurd hdc (noData now payload hdr data rfl hread)
    | _ => trivial
  | pdu hread hdc hrf =>
    refine hkeep ?_ (gapTimer_handleDataPdu inv.cfg inv.gap _ _ _)
    intro hdr' data' hread' _ hrf'
    obtain ⟨rfl, -⟩ := Prod.mk.inj (Option.some.inj (hread.symm.trans hread'))
    rw [hrf] at hrf'
    cases hrf'
  | segment hread hdc hrf =>
    obtain ⟨r, ms, h, hvars⟩ := inv.vars
    rw [gapTimer_handleDataPduSegment hvars inv.cfg inv.gap _ _ (readDataPduHeader_sn_lt hread)]
    -- The condition speaks of this one header.
    constructor
    · intro hc hdr' data' hread' _ _
      obtain ⟨rfl, -⟩ := Prod.mk.inj (Option.some.inj (hread.symm.trans hread'))
      exact hc
    · exact fun hc => hc _ _ hread hdc hrf
  | @query now _ _ call hs =>
    refine hkeep ?_ (hsame (gapTimer_checkReorderingTimeout inv.cfg inv.gap now) hs)
    rcases call with rfl | rfl
    · trivial
    · trivial
  | reset => exact hkeep trivial fun hlt => absurd hlt (Nat.lt_irrefl _)

/-- A call that keeps every gap timed keeps what this depends on. -/
theorem gapInv_step {c : AmCall} (inv : GapInv st) (hstep : amStep L st c = some st')
    (hgap : GapTimer st') : GapInv st' := by
  refine { vars := ?_, cfg := ?_, gap := hgap }
  · by_cases hc : c = .reset
    · subst hc
      obtain rfl := Option.some.inj hstep
      exact ⟨0, 0, 0, rxVarsInv_reset st⟩
    · obtain ⟨r, ms, h, hvars⟩ := inv.vars
      obtain ⟨r', ms', h', hvars', -⟩ := rxVarsInv_step hvars hc hstep
      exact ⟨r', ms', h', hvars'⟩
  · rw [amStep_cfg hstep]
    exact inv.cfg

end

/-- Every gap has the timer running in every state of a run. -/
def GapTimerRun (L : SrslteBit) (st : RlcAm) (calls : List AmCall) : Prop :=
  GapTimer st ∧ Along (amStep L) (fun _ _ st' => GapTimer st') st calls

/-- A run of a fresh entity with a reordering timer, with any calls in any order, has the
timer running for every gap exactly when each first segment of a PDU at `vr_h` or above
arrives while the timer runs. -/
theorem gapTimer_run_iff (L : SrslteBit) (cnfg : AmConfig) (hcfg : 0 ≤ cnfg.tReordering)
    (calls : List AmCall) :
    GapTimerRun L (configure {} cnfg) calls
      ↔ Along (amStep L) (fun st c _ => RespectsTimer st c) (configure {} cnfg) calls := by
  have hgap : GapTimer (configure {} cnfg) := fun hlt => absurd hlt (Nat.lt_irrefl _)
  have hinit : GapInv (configure {} cnfg) :=
    { vars := ⟨0, 0, 0, rxVarsInv_init cnfg⟩, cfg := hcfg, gap := hgap }
  have hiff : Along (amStep L) (fun _ _ st' => GapTimer st') (configure {} cnfg) calls
      ↔ Along (amStep L) (fun st c _ => RespectsTimer st c) (configure {} cnfg) calls := by
    refine along_iff (I := GapInv) (K := fun _ => True) ?_ ?_ (fun _ _ => trivial) hinit
    · exact fun _ _ _ inv _ hstep => amStep_gapTimer_iff inv hstep
    · exact fun _ _ _ inv _ hstep hc =>
        gapInv_step inv hstep ((amStep_gapTimer_iff inv hstep).mpr hc)
  exact ⟨fun h => hiff.mp h.2, fun h => ⟨hgap, hiff.mpr h⟩⟩

/-- The PDU with sequence number 1 arrives first, and then a segment of the one behind it. -/
def wholeFirst : List AmCall :=
  [.writePdu 0 [0x80, 0x01, 7], .writePdu 0 [0xC0, 0x02, 0x00, 0x00, 7]]

/-- A whole PDU that arrives first starts the timer for the gap in front of it, and the segment
behind it finds the timer running. -/
theorem gapTimer_run_wholeFirst :
    GapTimerRun msbFirst (configure {} { tReordering := 5 }) wholeFirst := by
  refine (gapTimer_run_iff msbFirst { tReordering := 5 } (by decide) wholeFirst).mpr ?_
  intro st₁ h₁
  refine ⟨?_, fun st₂ _ => ⟨?_, trivial⟩⟩
  · intro header data hread _ hrf
    have hwhole : (readDataPduHeader [0x80, 0x01, 7]).map (·.1.rf) = some false := by
      decide +kernel
    rw [hread, Option.map_some, hrf] at hwhole
    cases hwhole
  · intro header data _ _ _ _ _ _
    have hon : (amStep msbFirst (configure {} { tReordering := 5 })
        (.writePdu 0 [0x80, 0x01, 7])).map (·.reorderingTimeout.running) = some true := by
      decide +kernel
    rw [h₁] at hon
    exact Option.some.inj hon

/-- A segment of the PDU with sequence number 1 is the first thing that arrives. -/
def segmentFirst : List AmCall := [.writePdu 0 [0xC0, 0x01, 0x00, 0x00, 7]]

/-- The segment moves `vr_h` to 2 while `vr_ms` stays at 0, and the timer is off. -/
theorem gapTimer_run_untimed :
    ¬ GapTimerRun msbFirst (configure {} { tReordering := 5 }) segmentFirst := by
  rintro ⟨hinit, halong⟩
  have hrun : ((runTo (amStep msbFirst) (configure {} { tReordering := 5 }) segmentFirst).map
      fun st => (st.vrR, st.vrMs, st.vrH, st.reorderingTimeout.running))
      = some (0, 0, 2, false) := by
    decide +kernel
  obtain ⟨st, hst, heq⟩ := Option.map_eq_some_iff.mp hrun
  simp only [Prod.mk.injEq] at heq
  obtain ⟨hR, hMs, hH, hoff⟩ := heq
  have hgap : GapTimer st := halong.last hinit hst
  have hon := hgap (by rw [RlcAm.rxModBase, RlcAm.rxModBase, hR, hMs, hH]; decide)
  rw [hoff] at hon
  cases hon

end SrsUE.Proofs.Rlc
