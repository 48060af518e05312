import SrsUE.Lib.Run
import SrsUE.Proofs.Rlc.AmDataHeader
import SrsUE.Proofs.Rlc.AmSteps
import SrsUE.Proofs.Rlc.AmStatusPdu

/-!
# `SrsUE.Proofs.Rlc.AmSegmentKeys`: which PDUs have pending segments

Segments of a PDU are kept in `rx_segments` until the PDU is complete. `NoStaleSegments` is
what the keys of `rx_segments` are meant to satisfy: each lies in the receive window and is
not complete in `rx_window`. Otherwise its segments would wait for the PDU that carries the
same sequence number 1024 PDUs later.

Nothing drops the segments of a PDU that arrives whole, and a segment of a PDU that is
complete is stored. `amStep_noStale_iff` says that these are the only two ways to a stale
segment, and `noStale_run_iff` carries this to whole runs.
-/

set_option autoImplicit false

namespace SrsUE.Proofs.Rlc

open SrsUE.Lib
open SrsUE.Rlc

/-- Every key of `rx_segments` lies in the receive window `[vr_r, vr_mr)` and is not
complete in `rx_window`. -/
def NoStaleSegments (st : RlcAm) : Prop :=
  ∀ sn, (st.rxSegments sn).isSome → insideRxWindow st sn = true ∧ st.rxWindow sn = none

/-- The PDU that a call brings does not leave a stale segment behind: a whole PDU has no
segments pending, and a segment inside the window is not of a complete PDU. -/
def RespectsSegments (st : RlcAm) : AmCall → Prop
  | .writePdu _ payload => ∀ header data, readDataPduHeader payload = some (header, data) →
      header.dc = .dataPdu →
      if header.rf then insideRxWindow st header.sn = true → st.rxWindow header.sn = none
      else st.rxSegments header.sn = none
  | _ => True

/-! ### The window while it moves -/

/-- The receive window with all its entries less than `B` above `vr_r`. -/
structure RxKeys (B : Nat) (st : RlcAm) : Prop where
  vrR_lt : st.vrR < 1024
  vrMr : st.vrMr = (st.vrR + 512) % 1024
  bound : B ≤ 512
  keys : ∀ sn, (st.rxWindow sn).isSome → sn < 1024 ∧ st.rxModBase sn < B

section
variable {st : RlcAm} {B : Nat}

/-- The receive window are the 512 sequence numbers from `vr_r` on. -/
theorem insideRxWindow_of_keys (h : RxKeys B st) (sn : Nat) :
    insideRxWindow st sn = true ↔ st.rxModBase sn < 512 := by
  have hlt := h.vrR_lt
  have h0 : st.rxModBase st.vrR = 0 := by rw [RlcAm.rxModBase, modDist_self (by omega)]
  have hmr : st.rxModBase st.vrMr = 512 := by
    rw [RlcAm.rxModBase, h.vrMr, modDist]
    omega
  simp [insideRxWindow, h0, hmr]

/-- One delivered PDU moves the window by one. -/
theorem reassemblePdu_rxKeys (h : RxKeys B st) (pdu : AmdRxPdu) :
    RxKeys (B - 1) (reassemblePdu st pdu) := by
  have hlt := h.vrR_lt
  have hb := h.bound
  refine { vrR_lt := Nat.mod_lt _ (by decide), vrMr := ?_, bound := by omega, keys := ?_ }
  · show (st.vrMr + 1) % 1024 = ((st.vrR + 1) % 1024 + 512) % 1024
    rw [h.vrMr]
    omega
  · intro sn hsn
    have herase : (reassemblePdu st pdu).rxWindow sn = st.rxWindow.erase st.vrR sn := rfl
    rw [herase, Dict.erase_apply] at hsn
    split at hsn
    · cases hsn
    · rename_i hne
      obtain ⟨hsn', hd⟩ := h.keys sn hsn
      refine ⟨hsn', ?_⟩
      show modDist 1024 sn ((st.vrR + 1) % 1024) < B - 1
      unfold RlcAm.rxModBase modDist at hd
      unfold modDist
      omega

/-- A sequence number in the window that has not arrived. -/
def Waiting (st : RlcAm) (sn : Nat) : Prop :=
  sn < 1024 ∧ st.rxModBase sn < 512 ∧ st.rxWindow sn = none

/-- A sequence number that is in `rx_window`, or that the window has passed by a distance
which leaves it out of the window whatever else is delivered. -/
def Settled (B : Nat) (st : RlcAm) (sn : Nat) : Prop :=
  (st.rxWindow sn).isSome ∨
    (sn < 1024 ∧ 1 ≤ modDist 1024 st.vrR sn ∧ modDist 1024 st.vrR sn + B ≤ 512)

/-- A sequence number that waits goes on waiting. -/
theorem reassemblePdu_waiting {sn : Nat} (hw : Waiting st sn) (h : RxKeys B st) {pdu : AmdRxPdu}
    (hpdu : st.rxWindow st.vrR = some pdu) : Waiting (reassemblePdu st pdu) sn := by
  have hlt := h.vrR_lt
  obtain ⟨hsn, hd, hnone⟩ := hw
  have hne : sn ≠ st.vrR := by
    rintro rfl
    rw [hpdu] at hnone
    cases hnone
  refine ⟨hsn, ?_, ?_⟩
  · show modDist 1024 sn ((st.vrR + 1) % 1024) < 512
    unfold RlcAm.rxModBase modDist at hd
    unfold modDist
    omega
  · show st.rxWindow.erase st.vrR sn = none
    rw [Dict.erase_of_ne _ hne]
    exact hnone

/-- One that is settled comes one nearer to the end of the window. -/
theorem reassemblePdu_settled {sn : Nat} (hs : Settled B st sn) (h : RxKeys B st)
    {pdu : AmdRxPdu} (hpdu : st.rxWindow st.vrR = some pdu) :
    Settled (B - 1) (reassemblePdu st pdu) sn := by
  have hlt := h.vrR_lt
  have hb := h.bound
  -- `vr_r` itself is an entry, so `B` is positive.
  have hpos : 0 < B := Nat.lt_of_le_of_lt (Nat.zero_le _) (h.keys st.vrR (by rw [hpdu]; rfl)).2
  by_cases hsn : sn = st.vrR
  · refine .inr ⟨hsn ▸ hlt, ?_⟩
    show 1 ≤ modDist 1024 ((st.vrR + 1) % 1024) sn ∧
      modDist 1024 ((st.vrR + 1) % 1024) sn + (B - 1) ≤ 512
    rw [hsn]
    unfold modDist
    omega
  · rcases hs with hs | ⟨hsn', h1, h2⟩
    · refine .inl ?_
      show (st.rxWindow.erase st.vrR sn).isSome
      rw [Dict.erase_of_ne _ hsn]
      exact hs
    · refine .inr ⟨hsn', ?_⟩
      show 1 ≤ modDist 1024 ((st.vrR + 1) % 1024) sn ∧
        modDist 1024 ((st.vrR + 1) % 1024) sn + (B - 1) ≤ 512
      unfold modDist at h1 h2 ⊢
      omega

/-- Delivery keeps the window, what waits in it, and what is settled. -/
theorem reassembleLoop_keys : ∀ (rounds : Nat) {B : Nat} {st : RlcAm}, RxKeys B st →
    ∃ B', RxKeys B' (reassembleLoop rounds st) ∧
      (∀ sn, Waiting st sn → Waiting (reassembleLoop rounds st) sn) ∧
      (∀ sn, Settled B st sn → Settled B' (reassembleLoop rounds st) sn) := by
  intro rounds
  induction rounds with
  | zero => exact fun h => ⟨_, h, fun _ hw => hw, fun _ hs => hs⟩
  | succ rounds ih =>
    intro B st h
    rw [reassembleLoop]
    split
    · rename_i pdu hpdu
      obtain ⟨B', h1, h2, h3⟩ := ih (reassemblePdu_rxKeys h pdu)
      exact ⟨B', h1, fun sn hw => h2 sn (reassemblePdu_waiting hw h hpdu),
        fun sn hs => h3 sn (reassemblePdu_settled hs h hpdu)⟩
    · exact ⟨_, h, fun _ hw => hw, fun _ hs => hs⟩

/-- A settled sequence number is not waiting. -/
theorem Settled.not_waiting {sn : Nat} (hs : Settled B st sn) : ¬ Waiting st sn := by
  rintro ⟨hsn, hd, hnone⟩
  rcases hs with hs | ⟨-, h1, h2⟩
  · rw [hnone] at hs
    cases hs
  · unfold RlcAm.rxModBase modDist at hd
    unfold modDist at h1 h2
    omega

/-! ### One received PDU -/

/-- The window depends on its variables and entries only. -/
theorem RxKeys.of_eq {st' : RlcAm} (h : RxKeys B st) (hr : st'.vrR = st.vrR)
    (hmr : st'.vrMr = st.vrMr) (hw : st'.rxWindow = st.rxWindow) : RxKeys B st' where
  vrR_lt := by rw [hr]; exact h.vrR_lt
  vrMr := by rw [hmr, hr]; exact h.vrMr
  bound := h.bound
  keys := by
    unfold RlcAm.rxModBase
    rw [hw, hr]
    exact h.keys

/-- What a whole PDU does to the sequence numbers that wait: its own is settled, and the
others go on waiting. A PDU that is discarded changes nothing. -/
theorem handleDataPdu_waiting (h : RxKeys 512 st) (now : Nat) (payload : Bytes)
    {header : AmdPduHeader} (hsn : header.sn < 1024) :
    ∃ B, RxKeys B (handleDataPdu st now payload header) ∧
      (handleDataPdu st now payload header).rxSegments = st.rxSegments ∧
      (∀ sn, sn ≠ header.sn → Waiting st sn →
        Waiting (handleDataPdu st now payload header) sn) ∧
      ¬ Waiting (handleDataPdu st now payload header) header.sn := by
  unfold handleDataPdu
  split
  · rename_i hout
    refine ⟨512, h.of_eq rfl rfl rfl, rfl, fun sn _ hw => hw, ?_⟩
    rintro ⟨-, hd, -⟩
    have hd' : st.rxModBase header.sn < 512 := hd
    rw [← insideRxWindow_of_keys h] at hd'
    simp [hd'] at hout
  · rename_i hin
    split
    · rename_i hsome
      refine ⟨512, h.of_eq rfl rfl rfl, rfl, fun sn _ hw => hw, ?_⟩
      rintro ⟨-, -, hnone⟩
      have hnone' : st.rxWindow header.sn = none := hnone
      rw [hnone'] at hsome
      cases hsome
    · have hd : st.rxModBase header.sn < 512 := by
        rw [← insideRxWindow_of_keys h]
        simpa using hin
      -- The state in which the delivery loop starts.
      obtain ⟨ms, vh, p, d, hstore⟩ := storeDataPdu_frame st payload header
      have hkeys : RxKeys 512 { storeDataPdu st payload header with
          rxSdu := some ((storeDataPdu st payload header).rxSdu.getD []) } := by
        rw [hstore]
        refine { vrR_lt := h.vrR_lt, vrMr := h.vrMr, bound := Nat.le_refl _, keys := ?_ }
        intro sn hs
        have hs' : (st.rxWindow.insert header.sn _ sn).isSome := hs
        rw [Dict.insert_apply] at hs'
        split at hs'
        · rename_i heq
          rw [heq]
          exact ⟨hsn, hd⟩
        · exact h.keys sn hs'
      obtain ⟨B', hk, hwait, hset⟩ := reassembleLoop_keys 1024 hkeys
      obtain ⟨timer, vrX, hre⟩ :=
        updateReordering_frame (reassembleRxSdus (storeDataPdu st payload header)) now
      obtain ⟨_, _, _, _, _, hl⟩ := reassembleLoop_frame 1024
        { storeDataPdu st payload header with
          rxSdu := some ((storeDataPdu st payload header).rxSdu.getD []) }
      have hseg : (updateReordering (reassembleRxSdus (storeDataPdu st payload header))
          now).rxSegments = st.rxSegments := by
        rw [hre, reassembleRxSdus, hl, hstore]
      rw [hre] at hseg ⊢
      refine ⟨B', hk.of_eq rfl rfl rfl, hseg, ?_, ?_⟩
      · intro sn hne hw
        refine hwait sn ?_
        rw [hstore]
        refine ⟨hw.1, hw.2.1, ?_⟩
        show st.rxWindow.insert header.sn _ sn = none
        rw [Dict.insert_of_ne _ _ hne]
        exact hw.2.2
      · refine (hset header.sn (.inl ?_)).not_waiting
        rw [hstore]
        show (st.rxWindow.insert header.sn _ header.sn).isSome
        rw [Dict.insert_self]
        rfl

/-! ### Runs -/

/-- What the run of an entity keeps: the window, no stale segments, and under each key
segments with that sequence number only. -/
structure SegmentInv (st : RlcAm) : Prop where
  keys : RxKeys 512 st
  noStale : NoStaleSegments st
  sn : ∀ sn segments, st.rxSegments sn = some segments →
    sn < 1024 ∧ segments ≠ [] ∧ ∀ s ∈ segments, s.header.sn = sn

/-- A wider bound holds as well. -/
theorem RxKeys.mono (h : RxKeys B st) {B' : Nat} (hle : B ≤ B') (hb : B' ≤ 512) : RxKeys B' st where
  vrR_lt := h.vrR_lt
  vrMr := h.vrMr
  bound := hb
  keys sn hsn := ⟨(h.keys sn hsn).1, Nat.lt_of_lt_of_le (h.keys sn hsn).2 hle⟩

/-- Keys below 1024 are not stale exactly when they wait in the window. -/
theorem noStale_iff_waiting (h : RxKeys B st)
    (hsn : ∀ sn, (st.rxSegments sn).isSome → sn < 1024) :
    NoStaleSegments st ↔ ∀ sn, (st.rxSegments sn).isSome → Waiting st sn := by
  constructor
  · intro hns sn hs
    obtain ⟨hin, hnone⟩ := hns sn hs
    exact ⟨hsn sn hs, (insideRxWindow_of_keys h sn).mp hin, hnone⟩
  · intro hw sn hs
    obtain ⟨-, hd, hnone⟩ := hw sn hs
    exact ⟨(insideRxWindow_of_keys h sn).mpr hd, hnone⟩

/-- Segments are kept under sequence numbers. -/
theorem SegmentInv.lt (h : SegmentInv st) : ∀ sn, (st.rxSegments sn).isSome → sn < 1024 := by
  intro sn hs
  obtain ⟨segments, hseg⟩ := Option.isSome_iff_exists.mp hs
  exact (h.sn sn segments hseg).1

/-- Each of these waits for its PDU. -/
theorem SegmentInv.waiting (h : SegmentInv st) {sn : Nat} (hs : (st.rxSegments sn).isSome) :
    Waiting st sn :=
  (noStale_iff_waiting h.keys h.lt).mp h.noStale sn hs

/-- The receive half decides the invariant. -/
theorem SegmentInv.of_eq {st' : RlcAm} (h : SegmentInv st) (hr : st'.vrR = st.vrR)
    (hmr : st'.vrMr = st.vrMr) (hw : st'.rxWindow = st.rxWindow)
    (hs : st'.rxSegments = st.rxSegments) : SegmentInv st' where
  keys := h.keys.of_eq hr hmr hw
  noStale := by
    unfold NoStaleSegments insideRxWindow RlcAm.rxModBase
    rw [hs, hw, hr, hmr]
    exact h.noStale
  sn := by rw [hs]; exact h.sn

/-- A whole PDU leaves no stale segments exactly when none of its own are pending. -/
theorem handleDataPdu_noStale_iff (h : SegmentInv st) (now : Nat) (payload : Bytes)
    {header : AmdPduHeader} (hsn : header.sn < 1024) :
    (NoStaleSegments (handleDataPdu st now payload header) ↔ st.rxSegments header.sn = none) ∧
    (st.rxSegments header.sn = none → SegmentInv (handleDataPdu st now payload header)) := by
  obtain ⟨B, hk, hseg, hwait, hown⟩ := handleDataPdu_waiting h.keys now payload hsn
  have hlt : ∀ sn, ((handleDataPdu st now payload header).rxSegments sn).isSome → sn < 1024 := by
    rw [hseg]
    exact h.lt
  -- Only the SN of the PDU itself can stop waiting, so only its segments can become stale.
  have hiff : NoStaleSegments (handleDataPdu st now payload header)
      ↔ st.rxSegments header.sn = none := by
    rw [noStale_iff_waiting hk hlt, hseg]
    constructor
    · intro hall
      rw [← Option.not_isSome_iff_eq_none]
      exact fun hs => hown (hall header.sn hs)
    · intro hnone sn hs
      refine hwait sn ?_ (h.waiting hs)
      rintro rfl
      rw [hnone] at hs
      cases hs
  refine ⟨hiff, fun hnone => { keys := hk.mono hk.bound (Nat.le_refl _)
                               noStale := hiff.mpr hnone, sn := by rw [hseg]; exact h.sn }⟩

/-- The ordered insert adds the segment and keeps the others. -/
theorem insertSegment_mem (seg : AmdRxPdu) (segments : List AmdRxPdu) :
    ∀ s ∈ insertSegment seg segments, s = seg ∨ s ∈ segments := by
  induction segments with
  | nil => simp [insertSegment]
  | cons x xs ih =>
    intro s hs
    rw [insertSegment] at hs
    split at hs
    · rcases List.mem_cons.mp hs with rfl | hs
      · exact .inr (List.mem_cons_self ..)
      · rcases ih s hs with h | h
        · exact .inl h
        · exact .inr (List.mem_cons_of_mem _ h)
    · rcases List.mem_cons.mp hs with h | h
      · exact .inl h
      · exact .inr h

/-- It leaves at least one. -/
theorem insertSegment_ne_nil (seg : AmdRxPdu) (segments : List AmdRxPdu) :
    insertSegment seg segments ≠ [] := by
  cases segments with
  | nil => simp [insertSegment]
  | cons x xs =>
    rw [insertSegment]
    split <;> simp

/-- The header of a complete PDU has the sequence number of its segments. -/
theorem rebuildHeader_sn {sn : Nat} {segments : List AmdRxPdu} (hne : segments ≠ [])
    (hsn : ∀ s ∈ segments, s.header.sn = sn) : (rebuildHeader segments).sn = sn := by
  cases segments with
  | nil => exact absurd rfl hne
  | cons x xs => exact hsn x (List.mem_cons_self ..)

/-- Other segments of the same PDU under a key that is there already. -/
theorem SegmentInv.stored (h : SegmentInv st) {sn : Nat} {segments new : List AmdRxPdu}
    (hseg : st.rxSegments sn = some segments) (hne : new ≠ [])
    (hnew : ∀ s ∈ new, s.header.sn = sn) (doStatus : Bool) :
    SegmentInv { st with
      rxSegments := st.rxSegments.insert sn new
      doStatus := doStatus } := by
  -- Only the entry of `sn` changes, which was there before.
  refine { keys := h.keys.of_eq rfl rfl rfl, noStale := ?_, sn := ?_ }
  · intro k hs
    refine h.noStale k ?_
    have hs' : (st.rxSegments.insert sn new k).isSome := hs
    rw [Dict.insert_apply] at hs'
    split at hs'
    · rename_i heq
      rw [heq, hseg]
      rfl
    · exact hs'
  · intro k segs hs
    have hs' : st.rxSegments.insert sn new k = some segs := hs
    rw [Dict.insert_apply] at hs'
    split at hs'
    · rename_i heq
      obtain rfl := Option.some.inj hs'
      rw [heq]
      exact ⟨(h.sn sn segments hseg).1, hne, hnew⟩
    · exact h.sn k segs hs'

/-- A PDU that its segments complete is received, and its key goes. -/
theorem SegmentInv.completed (h : SegmentInv st) (now : Nat) (data : Bytes)
    {full : AmdPduHeader} (hsn : full.sn < 1024) :
    SegmentInv { handleDataPdu st now data full with
      rxSegments := (handleDataPdu st now data full).rxSegments.erase full.sn } := by
  obtain ⟨B, hk, hseg', hwait, -⟩ := handleDataPdu_waiting h.keys now data hsn
  -- The entry of the completed PDU is gone, and the others are as they were.
  have herase : ∀ {sn segs}, ((handleDataPdu st now data full).rxSegments.erase full.sn) sn
      = some segs → sn ≠ full.sn ∧ st.rxSegments sn = some segs := by
    intro sn segs hs
    rw [hseg', Dict.erase_apply] at hs
    split at hs
    · cases hs
    · exact ⟨by assumption, hs⟩
  have hk' : RxKeys 512 { handleDataPdu st now data full with
      rxSegments := (handleDataPdu st now data full).rxSegments.erase full.sn } :=
    (hk.mono hk.bound (Nat.le_refl _)).of_eq rfl rfl rfl
  refine { keys := hk', noStale := ?_, sn := fun sn segs hs => h.sn sn segs (herase hs).2 }
  refine (noStale_iff_waiting hk' ?_).mpr ?_
  · intro sn hs
    obtain ⟨segs, hsegs⟩ := Option.isSome_iff_exists.mp hs
    exact (h.sn sn segs (herase hsegs).2).1
  · intro sn hs
    obtain ⟨segs, hsegs⟩ := Option.isSome_iff_exists.mp hs
    obtain ⟨hne, hold⟩ := herase hsegs
    exact hwait sn hne (h.waiting (by rw [hold]; rfl))

/-- A segment under a key that is there already: the keys stay the same, unless the PDU is
complete and its key goes. -/
theorem handleDataPduSegment_next (h : SegmentInv st) (now : Nat) (payload : Bytes)
    {header : AmdPduHeader} (hsn : header.sn < 1024) {segments : List AmdRxPdu}
    (hin : insideRxWindow st header.sn = true)
    (hseg : st.rxSegments header.sn = some segments) :
    SegmentInv (handleDataPduSegment st now payload header) := by
  have hsegs := (h.sn header.sn segments hseg).2.2
  have hnew : ∀ s ∈ insertSegment { header := header, buf := payload } segments,
      s.header.sn = header.sn := by
    intro s hs
    rcases insertSegment_mem _ _ s hs with rfl | hs
    · rfl
    · exact hsegs s hs
  have hne := insertSegment_ne_nil { header := header, buf := payload } segments
  have hinv := h.stored hseg hne hnew (st.doStatus || header.p)
  unfold handleDataPduSegment
  rw [storeSegment_next hin hseg, addSegmentAndCheck_call]
  -- The segment completes its PDU, or it is kept.
  cases segmentsComplete 0 (insertSegment { header := header, buf := payload } segments) with
  | false => exact hinv
  | true =>
    have hfull := rebuildHeader_sn hne hnew
    rw [← hfull] at hsn
    have hdone := hinv.completed now
      ((insertSegment { header := header, buf := payload } segments).flatMap (·.buf)) hsn
    rw [hfull] at hdone
    simp only [if_true]
    exact hdone

/-- A segment leaves no stale segments exactly when it is not one of a complete PDU. -/
theorem handleDataPduSegment_noStale_iff (h : SegmentInv st) (now : Nat) (payload : Bytes)
    {header : AmdPduHeader} (hsn : header.sn < 1024) :
    (NoStaleSegments (handleDataPduSegment st now payload header)
      ↔ (insideRxWindow st header.sn = true → st.rxWindow header.sn = none)) ∧
    ((insideRxWindow st header.sn = true → st.rxWindow header.sn = none) →
      SegmentInv (handleDataPduSegment st now payload header)) := by
  cases hin : insideRxWindow st header.sn with
  | false =>
    have hinv : SegmentInv (handleDataPduSegment st now payload header) := by
      rw [handleDataPduSegment, storeSegment_outside hin]
      exact h.of_eq rfl rfl rfl rfl
    simp [hinv, hinv.noStale]
  | true =>
    cases hseg : st.rxSegments header.sn with
    | some segments =>
      have hinv := handleDataPduSegment_next h now payload hsn hin hseg
      have hsome : (st.rxSegments header.sn).isSome := by
        rw [hseg]
        rfl
      have hnone := (h.waiting hsome).2.2
      simp [hinv, hinv.noStale, hnone]
    | none =>
      -- The first segment of its SN: it is stored without a look at `rx_window`.
      obtain ⟨vrH, p, d, hst⟩ := storeSegment_first hin hseg payload
      have heq : handleDataPduSegment st now payload header = { st with
          rxSegments := st.rxSegments.insert header.sn [{ header := header, buf := payload }]
          vrH := vrH, pollReceived := p, doStatus := d } := by
        rw [handleDataPduSegment, hst]
      have hiff : NoStaleSegments (handleDataPduSegment st now payload header)
          ↔ st.rxWindow header.sn = none := by
        rw [heq]
        constructor
        · intro hns
          refine (hns header.sn ?_).2
          show (st.rxSegments.insert header.sn _ header.sn).isSome
          rw [Dict.insert_self]
          rfl
        · intro hnone sn hs
          have hs' : (st.rxSegments.insert header.sn _ sn).isSome := hs
          rw [Dict.insert_apply] at hs'
          split at hs'
          · rename_i hsn'
            rw [hsn']
            exact ⟨hin, hnone⟩
          · exact h.noStale sn hs'
      refine ⟨by rw [hiff]; simp, fun hc => ?_⟩
      have hns := hiff.mpr (hc rfl)
      rw [heq] at hns ⊢
      refine { keys := h.keys.of_eq rfl rfl rfl, noStale := hns, sn := ?_ }
      intro sn segs hs
      have hs' : st.rxSegments.insert header.sn _ sn = some segs := hs
      rw [Dict.insert_apply] at hs'
      split at hs'
      · rename_i hsn'
        obtain rfl := Option.some.inj hs'
        rw [hsn']
        exact ⟨hsn, by simp, by simp⟩
      · exact h.sn sn segs hs'

/-- The condition on a data PDU speaks of the one header that is read from it. -/
theorem respectsSegments_iff {now : Nat} {payload data : Bytes} {header : AmdPduHeader}
    (hread : readDataPduHeader payload = some (header, data)) (hdc : header.dc = .dataPdu) :
    RespectsSegments st (.writePdu now payload) ↔
      if header.rf then insideRxWindow st header.sn = true → st.rxWindow header.sn = none
      else st.rxSegments header.sn = none := by
  constructor
  · exact fun hc => hc header data hread hdc
  · intro hc hdr' data' hread' _
    obtain ⟨rfl, -⟩ := Prod.mk.inj (Option.some.inj (hread.symm.trans hread'))
    exact hc

/-- A call leaves no stale segments exactly when the PDU it brings, if any, respects the
segments that are pending and the PDUs that are complete. -/
theorem amStep_noStale_iff {L : SrslteBit} {c : AmCall} {st' : RlcAm} (h : SegmentInv st)
    (hstep : amStep L st c = some st') :
    (NoStaleSegments st' ↔ RespectsSegments st c) ∧
    (RespectsSegments st c → SegmentInv st') := by
  have hkeep : RespectsSegments st c → SegmentInv st' →
      (NoStaleSegments st' ↔ RespectsSegments st c) ∧ (RespectsSegments st c → SegmentInv st') :=
    fun hc hinv => ⟨⟨fun _ => hc, fun _ => hinv.noStale⟩, fun _ => hinv⟩
  cases amStep_rxStep hstep with
  | transmit _ noData hs =>
    refine hkeep ?_ (h.of_eq hs.vrR hs.vrMr hs.rxWindow hs.rxSegments)
    cases c with
    | writePdu now payload =>
      exact fun hdr data hread hdc => absurd hdc (noData now payload hdr data rfl hread)
    | _ => trivial
  | pdu hread hdc hrf =>
    rw [respectsSegments_iff hread hdc, hrf]
    exact handleDataPdu_noStale_iff h _ _ (readDataPduHeader_sn_lt hread)
  | segment hread hdc hrf =>
    rw [respectsSegments_iff hread hdc, hrf]
    exact handleDataPduSegment_noStale_iff h _ _ (readDataPduHeader_sn_lt hread)
  | @query now _ _ call hs =>
    obtain ⟨_, _, _, _, hf⟩ := checkReorderingTimeout_frame st now
    refine hkeep ?_ (h.of_eq (hs.vrR.trans (by rw [hf])) (hs.vrMr.trans (by rw [hf]))
      (hs.rxWindow.trans (by rw [hf])) (hs.rxSegments.trans (by rw [hf])))
    rcases call with rfl | rfl
    · trivial
    · trivial
  | reset =>
    refine hkeep trivial { keys := ?_, noStale := ?_, sn := ?_ }
    · exact { vrR_lt := by simp [reset], vrMr := by simp [reset], bound := Nat.le_refl _
              keys := fun sn hs => by cases hs }
    · intro sn hs
      cases hs
    · intro sn segs hs
      cases hs

end

/-- No state of a run has a stale segment. -/
def NoStaleRun (L : SrslteBit) (st : RlcAm) (calls : List AmCall) : Prop :=
  NoStaleSegments st ∧ Along (amStep L) (fun _ _ st' => NoStaleSegments st') st calls

/-- There are no segments at first. -/
theorem segmentInv_init (cnfg : AmConfig) : SegmentInv (configure {} cnfg) where
  keys := { vrR_lt := by simp [configure], vrMr := by simp [configure], bound := Nat.le_refl _
            keys := fun sn hs => by cases hs }
  noStale sn hs := by cases hs
  sn sn segs hs := by cases hs

/-- A run of a fresh entity, with any calls in any order, has no stale segment in any state
exactly when every whole PDU that arrives finds none of its segments pending, and every
segment that arrives inside the window finds its PDU incomplete. -/
theorem noStale_run_iff (L : SrslteBit) (cnfg : AmConfig) (calls : List AmCall) :
    NoStaleRun L (configure {} cnfg) calls
      ↔ Along (amStep L) (fun st c _ => RespectsSegments st c) (configure {} cnfg) calls := by
  have hinit := segmentInv_init cnfg
  have hiff : Along (amStep L) (fun _ _ st' => NoStaleSegments st') (configure {} cnfg) calls
      ↔ Along (amStep L) (fun st c _ => RespectsSegments st c) (configure {} cnfg) calls := by
    refine along_iff (I := SegmentInv) (K := fun _ => True) ?_ ?_ (fun _ _ => trivial) hinit
    · exact fun _ _ _ h _ hstep => (amStep_noStale_iff h hstep).1
    · exact fun _ _ _ h _ hstep hc => (amStep_noStale_iff h hstep).2 hc
  exact ⟨fun h => hiff.mp h.2, fun h => ⟨hinit.noStale, hiff.mpr h⟩⟩

/-- The first two bytes of the first PDU arrive as a segment, and then the PDU arrives
whole. The window moves past it, and its segment stays. -/
theorem noStale_run_whole_after_segment :
    ¬ NoStaleRun msbFirst (configure {} {})
      [.writePdu 0 [0xC0, 0, 0, 0, 1, 2], .writePdu 0 [0x80, 0, 1, 2, 3]] := by
  intro h
  have hrun : ∃ st, runTo (amStep msbFirst) (configure {} {})
      [.writePdu 0 [0xC0, 0, 0, 0, 1, 2], .writePdu 0 [0x80, 0, 1, 2, 3]] = some st ∧
      (st.rxSegments 0).isSome = true ∧ insideRxWindow st 0 = false :=
    ⟨_, rfl, by decide +kernel, by decide +kernel⟩
  obtain ⟨st, hrun, hkey, hout⟩ := hrun
  have hin := (h.2.last h.1 hrun 0 hkey).1
  rw [hout] at hin
  cases hin

end SrsUE.Proofs.Rlc
