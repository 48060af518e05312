import SrsUE.Lib.Run
import SrsUE.Proofs.Rlc.UmWindow

/-!
# `SrsUE.Proofs.Rlc.UmVariables`: the receive variables of `rlc_um` along a run

A run is any sequence of PDUs, with arbitrary SNs, and expiries of the running reordering
timer. `umVariables_run` says that in every state of a run `vr_ur`, `vr_ux`, `vr_uh` and the keys
of `rx_window` are in their order, that no variable moves backwards, and that the loops end
without passing `vr_uh`.

`inside_reordering_window` is false at `vr_uh`, so `reassemble_rx_sdus` must not be called once
`vr_ur` has caught up with it. It is not: the PDU in front of `vr_uh` has always been received.
The two numbers can be equal in another way. A PDU may move `vr_uh` on by a whole window from a
window ahead of `vr_ur`, and `vr_uh` is then `rx_mod` ahead (`catchUp_at_vrUh`).
-/

set_option autoImplicit false

namespace SrsUE.Proofs.Rlc

open SrsUE.Lib
open SrsUE.Rlc (Bytes FiField Timer UmdSnSize UmdPduHeader sub32)
open SrsUE.Rlc.Um

/-! ### The calls of `reassemble_rx_sdus` -/

/-- The states in which the loop of `timer_expired` calls `reassemble_rx_sdus`. -/
def umExpiryStates : Nat → RlcUmRx → List RlcUmRx
  | 0, _ => []
  | rounds + 1, st =>
    if st.rxModBase st.vrUr < st.rxModBase st.vrUx then
      st.advance :: umExpiryStates rounds (reassembleRxSdus st.advance)
    else []

/-- The states in which `reassemble_rx_sdus` is called in an event. -/
def umReassembleCalls (st : RlcUmRx) : RxEvent → List RlcUmRx
  | .writePdu payload =>
    match readDataPduHeader st.rxSnFieldLength payload with
    | some (header, buf) =>
      if UmAccepts st header.sn then [storeDataPdu st header buf] else []
    | none => []
  | .timerExpired =>
    if st.reorderingTimer.isRunning then
      umExpiryStates st.rxMod
        { st with reorderingTimer := st.reorderingTimer.expire, pduLost := true, rxSdu := [] }
    else []

/-- A call of `reassemble_rx_sdus` in this state ends. The first loop leaves `vr_ur` inside the
window and the second one at a missing PDU, each after at most a window of rounds, and `vr_ur`
is not past `vr_uh` then. -/
structure UmReassembleEnds (st : RlcUmRx) : Prop where
  inside : (catchUp st.rxWindowSize st).insideReorderingWindow (catchUp st.rxWindowSize st).vrUr
    = true
  rounds : reassembleRxSdus st = updateVrUr st.rxWindowSize (catchUp st.rxWindowSize st)
  missing : (reassembleRxSdus st).rxWindow (reassembleRxSdus st).vrUr = none
  notPast : (reassembleRxSdus st).rxModBase (reassembleRxSdus st).vrUr
    ≤ (reassembleRxSdus st).rxModBase (reassembleRxSdus st).vrUh

section
variable {W r h : Nat} {st : RlcUmRx} {Q : Nat → UmdPdu → Prop}

/-- The bound on the rounds of the second loop does not matter. -/
theorem umUpdateVrUr_rounds (w : UmWindow W st r h Q) (hedge : h ≤ r + W) {a b : Nat}
    (ha : h ≤ r + a) (hb : h ≤ r + b) : updateVrUr a st = updateVrUr b st := by
  obtain ⟨n, heq, -, hall, hmiss⟩ := umUpdateVrUr_eq a w hedge ha
  obtain ⟨m, heq', -, hall', hmiss'⟩ := umUpdateVrUr_eq b w hedge hb
  -- Both stop at the first index that does not wait, so they stop at the same one.
  have hnm : n = m := by
    rcases Nat.lt_trichotomy n m with hlt | heq | hgt
    · exact absurd (hall' (r + n) (by omega) (by omega)) hmiss
    · exact heq
    · exact absurd (hall (r + m) (by omega) (by omega)) hmiss'
  rw [heq true, heq' true, hnm]

/-- The loops of reassembly end before `vr_uh`. -/
theorem UmWindow.reassembleEnds (w : UmWindow W st r h Q) (hlt : r < h) : UmReassembleEnds st := by
  have hW := w.cases
  have hle := w.h_le
  -- The first loop makes the same rounds with the window size as its bound as with the modulus.
  have hcatch := umCatchUp_eq st.rxWindowSize w hlt (by rw [w.rxWindowSize]; omega)
  have hcatch' := umCatchUp_eq st.rxMod w hlt (by rw [w.rxMod]; omega)
  have wc := w.iterate true (show r + (h - W - r) ≤ h by omega)
  obtain ⟨n, hre, hn, hn', -, hmiss⟩ := umReassemble_eq w hlt
  have w' := w.iterate true hn'
  rw [← hre] at w'
  refine { inside := ?_, rounds := ?_, missing := ?_, notPast := ?_ }
  · rw [hcatch, wc.vrUr, umInside_index wc.toUmScale wc.r_le wc.h_le]
    omega
  · rw [reassembleRxSdus, hcatch, hcatch']
    exact umUpdateVrUr_rounds wc (by omega) (by rw [w.rxMod]; omega) (by rw [w.rxWindowSize]; omega)
  · rw [w'.waiting_iff, ← w'.vrUr] at hmiss
    simpa using hmiss
  · rw [w'.rxModBase_vrUr (by omega), umRxModBase_vrUh w'.toUmScale]
    omega

/-- In an expiry of the timer `reassemble_rx_sdus` is called below `vr_uh`, and less than a
window away. -/
theorem umExpiryCalls {x : Nat} (rounds : Nat) : ∀ {r : Nat} {st : RlcUmRx},
    UmExpiring W st r h x Q → ∀ c ∈ umExpiryStates rounds st, UmReassembleEnds c ∧ c.vrUr
      ≠ c.vrUh := by
  induction rounds with
  | zero =>
    intro r st e c hc
    cases hc
  | succ rounds ih =>
    intro r st e c hc
    have hW := e.cases
    have hedge := e.edge
    rw [umExpiryStates] at hc
    split at hc
    · rename_i hguard
      obtain ⟨w, hlt, n, e', -⟩ := e.round (e.guard_iff.mp hguard)
      rcases List.mem_cons.mp hc with rfl | hc
      · refine ⟨w.reassembleEnds hlt, ?_⟩
        -- The call is made less than a window below `vr_uh`, so the two SNs differ.
        rw [w.vrUr, w.vrUh]
        intro hmod
        have := eq_of_mod_eq hmod (by omega) (by omega)
        omega
      · exact ih e' c hc
    · cases hc

end

/-! ### Runs -/

/-- An entity with the SNs of the PDUs it has kept. -/
structure UmRxLog where
  st : RlcUmRx
  received : List Nat := []

/-- The SN of the PDU that an event makes the entity keep. -/
def umKeptSns (st : RlcUmRx) : RxEvent → List Nat
  | .writePdu payload =>
    match readDataPduHeader st.rxSnFieldLength payload with
    | some (header, _) => if UmAccepts st header.sn then [header.sn] else []
    | none => []
  | .timerExpired => []

/-- The entity and the log after an event. -/
def umRxStep (s : UmRxLog) (e : RxEvent) : Option UmRxLog :=
  (rxStep s.st e).map fun st => { st := st, received := s.received ++ umKeptSns s.st e }

/-- The receive variables in their order: `vr_ur` at most a window behind `vr_uh` and not in
`rx_window`, the keys strictly between the two, the SN in front of `vr_uh` received, and `vr_ux`
between them while the timer runs. -/
structure UmRxVariables (s : UmRxLog) : Prop where
  vrUr : s.st.rxModBase s.st.vrUr ≤ s.st.rxWindowSize
  missing : s.st.rxWindow s.st.vrUr = none
  keys : ∀ sn, (s.st.rxWindow sn).isSome = true → sn < s.st.rxMod ∧
    s.st.rxModBase s.st.vrUr < s.st.rxModBase sn ∧ s.st.rxModBase sn < s.st.rxModBase s.st.vrUh
  highest : s.received ≠ [] → (s.st.vrUh + s.st.rxMod - 1) % s.st.rxMod ∈ s.received
  timer : s.st.reorderingTimer.isRunning = true →
    s.st.rxModBase s.st.vrUr < s.st.rxModBase s.st.vrUx ∧
      s.st.rxModBase s.st.vrUx ≤ s.st.rxModBase s.st.vrUh

/-- How far `vr_ur` is behind `vr_uh`. -/
def umBehind (st : RlcUmRx) : Nat := st.rxModBase st.vrUh - st.rxModBase st.vrUr

/-- From `st` to `st'` no variable moves backwards: `vr_uh` moves on by at most a window, and
`vr_ur` falls behind it by no more than that. -/
structure UmRxForward (st st' : RlcUmRx) : Prop where
  vrUh : modDist st.rxMod st'.vrUh st.vrUh ≤ st.rxWindowSize
  vrUr : umBehind st' ≤ umBehind st + modDist st.rxMod st'.vrUh st.vrUh

/-- The loops end in an event. `reassemble_rx_sdus` is called with `vr_ur` at `vr_uh` only if a
PDU has moved `vr_uh` on by a whole window from a window ahead of `vr_ur`, and its first loop then
leaves `vr_ur` at the lower edge of the window. The loop of `timer_expired` ends at `vr_ux` or
above, and not past `vr_uh`. -/
structure UmRxLoopsEnd (st : RlcUmRx) (e : RxEvent) : Prop where
  calls : ∀ c ∈ umReassembleCalls st e, UmReassembleEnds c
  full : ∀ c ∈ umReassembleCalls st e, c.vrUr = c.vrUh → e ≠ .timerExpired ∧
    st.rxModBase st.vrUr = 0 ∧
    (catchUp c.rxWindowSize c).rxModBase (catchUp c.rxWindowSize c).vrUr = 0
  expiry : e = .timerExpired → st.reorderingTimer.isRunning = true →
    ∃ s, s = skipMissing st.rxMod { st with
        reorderingTimer := st.reorderingTimer.expire, pduLost := true, rxSdu := [] } ∧
      s.rxModBase s.vrUx ≤ s.rxModBase s.vrUr ∧ s.rxModBase s.vrUr ≤ s.rxModBase s.vrUh

/-- The invariant of a run. -/
structure UmLogInv (W : Nat) (s : UmRxLog) (r h : Nat) : Prop
    extends UmRxInv W s.st r h fun _ _ => True where
  highest : 0 < h → (h - 1) % (2 * W) ∈ s.received
  fresh : h = 0 → s.received = []

section
variable {W r h : Nat} {s s' : UmRxLog} {e : RxEvent}

/-- The index of an SN that is kept. -/
theorem UmRxInv.index_of_accepts {st : RlcUmRx} {Q : Nat → UmdPdu → Prop}
    (inv : UmRxInv W st r h Q) {sn : Nat} (hsn : sn < 2 * W) (ha : UmAccepts st sn) :
    ∃ i, r ≤ i ∧ i < h + W ∧ sn = i % (2 * W) ∧ ¬UmWaiting st i := by
  have hedge := inv.edge
  have hbase := inv.rxModBase_vrUr hedge
  obtain ⟨i, hri, hi, rfl⟩ := umIndex_of_sn inv.toUmScale hedge hsn (hbase ▸ ha.1)
  exact ⟨i, hri, hi, rfl, ((inv.accepts_iff (by omega) hi).mp ha).2⟩

/-- Every event keeps the invariant and moves no index backwards. -/
theorem umLogInv_step (inv : UmLogInv W s r h) (hstep : umRxStep s e = some s') :
    ∃ r' h', UmLogInv W s' r' h' ∧ r ≤ r' ∧ h ≤ h' ∧ h' ≤ h + W := by
  obtain ⟨st', hst, rfl⟩ := Option.map_eq_some_iff.mp hstep
  cases e with
  | writePdu payload =>
    obtain ⟨⟨header, buf⟩, hread, hpdu⟩ := Option.bind_eq_some_iff.mp hst
    obtain rfl := Option.some.inj hpdu
    -- The log grows by the SN exactly when the PDU is kept.
    have hkept : umKeptSns s.st (.writePdu payload)
        = if UmAccepts s.st header.sn then [header.sn] else [] := by
      simp only [umKeptSns, hread]
    rw [hkept]
    by_cases ha : UmAccepts s.st header.sn
    · have hsn := umReadDataPduHeader_sn_lt hread
      rw [← inv.width] at hsn
      obtain ⟨i, hri, hi, hsni, hnew⟩ := inv.index_of_accepts hsn ha
      obtain ⟨n, timer, ux, inv', -⟩ := @UmRxInv.after_receivePdu W r h s.st _ i header buf
        inv.toUmRxInv hri hi hsni hnew trivial
      refine ⟨r + n, max h (i + 1), { toUmRxInv := inv', highest := ?_, fresh := by omega },
        by omega, by omega, by omega⟩
      intro _
      rw [if_pos ha, List.mem_append]
      -- Below `vr_uh` the highest SN stays what it was, above it is this one.
      rcases Nat.lt_or_ge i h with hlt | hge
      · rw [Nat.max_eq_left hlt]
        exact .inl (inv.highest (by omega))
      · rw [Nat.max_eq_right (by omega), Nat.add_sub_cancel, hsni]
        exact .inr (List.mem_singleton.mpr rfl)
    -- A PDU that is not kept changes nothing.
    · have heq : receivePdu s.st header buf = s.st :=
        umReceivePdu_of_not_accepts inv.toUmScale ha
      refine ⟨r, h, ?_, Nat.le_refl r, Nat.le_refl h, by omega⟩
      simp only [heq, if_neg ha, List.append_nil]
      exact inv
  | timerExpired =>
    rw [rxStep] at hst
    split at hst
    · rename_i hrun
      obtain rfl := Option.some.inj hst
      obtain ⟨x, hux, hrx, hxh, hwx⟩ := inv.timer hrun
      obtain ⟨n, _, _, inv', -⟩ :=
        inv.after_timerExpired hux hrx hxh hwx s.st.reorderingTimer.expire
      refine ⟨r + n, h, { toUmRxInv := inv', highest := ?_, fresh := ?_ }, by omega,
        Nat.le_refl h, by omega⟩
      · simpa [umKeptSns] using inv.highest
      · simpa [umKeptSns] using inv.fresh
    · cases hst

/-! ### The invariant, read on the variables -/

/-- The indices put the variables in order. -/
theorem UmLogInv.umRxVariables (inv : UmLogInv W s r h) : UmRxVariables s := by
  have hW := inv.cases
  have hr := inv.r_le
  have hedge := inv.edge
  have hbase := inv.rxModBase_vrUr hedge
  have hbaseH := umRxModBase_vrUh inv.toUmScale
  refine { vrUr := ?_, missing := ?_, keys := ?_, highest := ?_, timer := ?_ }
  · rw [hbase, inv.rxWindowSize]
    omega
  · have hmiss := inv.missing
    rw [inv.waiting_iff, ← inv.vrUr] at hmiss
    simpa using hmiss
  · intro sn hsome
    obtain ⟨pdu, hpdu⟩ := Option.isSome_iff_exists.mp hsome
    obtain ⟨i, hri, hih, rfl, -⟩ := inv.keys sn pdu hpdu
    -- Keys are at `vr_ur` or above by the window, and `vr_ur` itself does not wait.
    have hne : i ≠ r := by
      rintro rfl
      exact inv.missing ((inv.waiting_iff i).mpr hsome)
    rw [hbase, hbaseH, umRxModBase_of_index inv.toUmScale (by omega) (by omega), inv.rxMod]
    exact ⟨Nat.mod_lt _ (by omega), by omega, by omega⟩
  · intro hne
    have hpos : 0 < h := Nat.pos_of_ne_zero fun h0 => hne (inv.fresh h0)
    -- The SN in front of `vr_uh`, with `rx_mod` added so that it does not wrap.
    have hmod : (s.st.vrUh + s.st.rxMod - 1) % s.st.rxMod = (h - 1) % (2 * W) := by
      rw [inv.vrUh, inv.rxMod, Nat.add_sub_assoc (by omega), Nat.mod_add_mod,
        ← Nat.add_sub_assoc (by omega), show h + 2 * W - 1 = h - 1 + 2 * W by omega,
        Nat.add_mod_right]
    rw [hmod]
    exact inv.highest hpos
  · intro hrun
    obtain ⟨x, hux, hrx, hxh, -⟩ := inv.timer hrun
    rw [hbase, hbaseH, hux, umRxModBase_of_index inv.toUmScale (by omega) (by omega)]
    omega

/-- Indices that do not decrease move no variable backwards. -/
theorem UmLogInv.umRxForward {r' h' : Nat} (inv : UmLogInv W s r h) (inv' : UmLogInv W s' r' h')
    (hr : r ≤ r') (hh : h ≤ h') (hh' : h' ≤ h + W) : UmRxForward s.st s'.st := by
  have hW := inv.cases
  have hle := inv.r_le
  have hle' := inv'.r_le
  have hedge := inv.edge
  have hedge' := inv'.edge
  -- Indices only grow, and `h` by at most a window, so the distance of the SNs is exact.
  have hmove : modDist s.st.rxMod s'.st.vrUh s.st.vrUh = h' - h := by
    rw [inv.rxMod, inv.vrUh, inv'.vrUh, modDist_of_le hh (by omega)]
  refine { vrUh := ?_, vrUr := ?_ }
  · rw [hmove, inv.rxWindowSize]
    omega
  · rw [hmove, umBehind, umBehind, inv.rxModBase_vrUr hedge, inv'.rxModBase_vrUr hedge',
      umRxModBase_vrUh inv.toUmScale, umRxModBase_vrUh inv'.toUmScale]
    omega

/-- The state in which a PDU that is kept is reassembled. -/
theorem mem_umReassembleCalls {st c : RlcUmRx} {payload : Bytes}
    (hc : c ∈ umReassembleCalls st (.writePdu payload)) :
    ∃ header buf, readDataPduHeader st.rxSnFieldLength payload = some (header, buf) ∧
      UmAccepts st header.sn ∧ c = storeDataPdu st header buf := by
  simp only [umReassembleCalls] at hc
  split at hc
  · rename_i header buf hread
    split at hc
    · rename_i ha
      exact ⟨header, buf, hread, ha, List.mem_singleton.mp hc⟩
    · cases hc
  · cases hc

/-- All loops end. -/
theorem UmLogInv.umRxLoopsEnd (inv : UmLogInv W s r h) (e : RxEvent) : UmRxLoopsEnd s.st e := by
  have hW := inv.cases
  have hr := inv.r_le
  have hedge := inv.edge
  cases e with
  | writePdu payload =>
    -- The window of the one call, with `vr_uh` behind the new PDU.
    have hwindow : ∀ c ∈ umReassembleCalls s.st (.writePdu payload),
        ∃ h', UmWindow W c r h' (fun _ _ => True) ∧ r < h' ∧ h' ≤ h + W := by
      intro c hc
      obtain ⟨header, buf, hread, ha, rfl⟩ := mem_umReassembleCalls hc
      have hsn := umReadDataPduHeader_sn_lt hread
      rw [← inv.width] at hsn
      obtain ⟨i, hri, hi, hsni, -⟩ := inv.index_of_accepts hsn ha
      exact ⟨max h (i + 1), inv.storeDataPdu_window hri hi hsni trivial, by omega, by omega⟩
    refine { calls := ?_, full := ?_, expiry := ?_ }
    · intro c hc
      obtain ⟨h', w, hlt, -⟩ := hwindow c hc
      exact w.reassembleEnds hlt
    · intro c hc heq
      obtain ⟨h', w, hlt, hle⟩ := hwindow c hc
      -- `vr_ur = vr_uh` as SNs with `r < h'` means a whole modulus between the indices.
      have hfull : h' = r + 2 * W := by
        rw [w.vrUr, w.vrUh, ← Nat.add_mod_right r (2 * W)] at heq
        exact eq_of_mod_eq heq.symm (by omega) (by omega)
      have hcatch := umCatchUp_eq c.rxWindowSize w hlt (by rw [w.rxWindowSize]; omega)
      have wc := w.iterate true (show r + (h' - W - r) ≤ h' by omega)
      refine ⟨nofun, ?_, ?_⟩
      · rw [inv.rxModBase_vrUr hedge]
        omega
      · rw [hcatch, wc.rxModBase_vrUr (by omega)]
        omega
    · intro he
      cases he
  | timerExpired =>
    cases hrun : s.st.reorderingTimer.isRunning with
    | false =>
      have hnone : umReassembleCalls s.st .timerExpired = [] := by
        simp [umReassembleCalls, hrun]
      refine { calls := ?_, full := ?_, expiry := ?_ }
      · intro c hc
        rw [hnone] at hc
        cases hc
      · intro c hc
        rw [hnone] at hc
        cases hc
      · intro _ hon
        rw [hrun] at hon
        cases hon
    | true =>
      obtain ⟨x, hux, hrx, hxh, hwx⟩ := inv.timer hrun
      -- The loop of `timer_expired` starts behind the reset of `rx_sdu`.
      have hexp := inv.expiring hux hrx hxh hwx s.st.reorderingTimer.expire
      have hcalls := umExpiryCalls s.st.rxMod hexp
      have heq : umReassembleCalls s.st .timerExpired = umExpiryStates s.st.rxMod { s.st with
          reorderingTimer := s.st.reorderingTimer.expire, pduLost := true, rxSdu := [] } := by
        simp [umReassembleCalls, hrun]
      obtain ⟨n, -, hxn, hend, -⟩ := umSkipMissing_eq s.st.rxMod hexp (by rw [inv.rxMod]; omega)
      refine { calls := ?_, full := ?_, expiry := ?_ }
      · intro c hc
        rw [heq] at hc
        exact (hcalls c hc).1
      · intro c hc hat
        rw [heq] at hc
        exact absurd hat (hcalls c hc).2
      · refine fun _ _ => ⟨_, rfl, ?_, ?_⟩
        · exact Nat.le_of_not_lt fun hlt => absurd (hend.guard_iff.mp hlt) (by omega)
        · rw [hend.rxModBase_vrUr hend.edge, umRxModBase_vrUh hend.toUmScale]
          have := hend.r_le
          omega

end

/-- A fresh receiver. -/
def umRxStart (snSize : UmdSnSize) (tReordering : Nat) : UmRxLog :=
  { st := configureRx snSize tReordering }

/-- Nothing has arrived at first. -/
theorem umLogInv_init (snSize : UmdSnSize) (tReordering : Nat) :
    UmLogInv (umWidth snSize) (umRxStart snSize tReordering) 0 0 where
  toUmRxInv := umRxInv_init snSize tReordering _
  highest h0 := absurd h0 (Nat.lt_irrefl 0)
  fresh _ := rfl

/-- In every state that a fresh entity reaches with any PDUs and expiries of the running
reordering timer, the receive variables are in their order, every event that may come next leaves
its loops, and none moves a variable backwards. -/
theorem umVariables_run {snSize : UmdSnSize} {tReordering : Nat} {events : List RxEvent}
    {s : UmRxLog} (hrun : runTo umRxStep (umRxStart snSize tReordering) events = some s) :
    UmRxVariables s ∧ (∀ e, UmRxLoopsEnd s.st e) ∧
      ∀ e s', umRxStep s e = some s' → UmRxForward s.st s'.st := by
  have hinv : ∃ r h, UmLogInv (umWidth snSize) s r h := by
    refine runTo_inv (I := fun s => ∃ r h, UmLogInv (umWidth snSize) s r h) (K := fun _ => True)
      ?_ (fun _ _ => trivial) ⟨0, 0, umLogInv_init snSize tReordering⟩ hrun
    rintro s e s' ⟨r, h, inv⟩ - hstep
    obtain ⟨r', h', inv', -⟩ := umLogInv_step inv hstep
    exact ⟨r', h', inv'⟩
  obtain ⟨r, h, inv⟩ := hinv
  refine ⟨inv.umRxVariables, inv.umRxLoopsEnd, ?_⟩
  intro e s' hstep
  obtain ⟨r', h', inv', hr, hh, hh'⟩ := umLogInv_step inv hstep
  exact inv.umRxForward inv' hr hh hh'

/-- PDU 2 arrives before PDUs 0 and 1, and the reordering timer expires. -/
def gapThenExpiry : List RxEvent := [.writePdu [0x02, 7], .timerExpired, .writePdu [0x04, 9]]

/-- The variables after a gap and an expiry. -/
theorem umVariables_run_gapThenExpiry :
    ∃ s, runTo umRxStep (umRxStart .size5Bits 5) gapThenExpiry = some s ∧
      (s.st.vrUr, s.st.vrUx, s.st.vrUh, s.received) = (3, 5, 5, [2, 4]) ∧ UmRxVariables s := by
  have hrun : ((runTo umRxStep (umRxStart .size5Bits 5) gapThenExpiry).map fun s =>
      (s.st.vrUr, s.st.vrUx, s.st.vrUh, s.received)) = some (3, 5, 5, [2, 4]) := by
    decide +kernel
  obtain ⟨s, hs, heq⟩ := Option.map_eq_some_iff.mp hrun
  exact ⟨s, hs, heq, (umVariables_run hs).1⟩

/-- `reassemble_rx_sdus` is called with `vr_ur = vr_uh`: PDU 15 puts `vr_uh` a window ahead, and
the PDU with SN 31 moves it on by another window, to 0. -/
theorem catchUp_at_vrUh :
    ∃ s, runTo umRxStep (umRxStart .size5Bits 5) [.writePdu [0x0F, 7]] = some s ∧
      ∃ c ∈ umReassembleCalls s.st (.writePdu [0x1F, 7]),
        c.vrUr = c.vrUh ∧ c.insideReorderingWindow c.vrUr = false := by
  have hrun : ((runTo umRxStep (umRxStart .size5Bits 5) [.writePdu [0x0F, 7]]).map fun s =>
      (umReassembleCalls s.st (.writePdu [0x1F, 7])).map fun c =>
        (decide (c.vrUr = c.vrUh), c.insideReorderingWindow c.vrUr)) = some [(true, false)] := by
    decide +kernel
  obtain ⟨s, hs, heq⟩ := Option.map_eq_some_iff.mp hrun
  obtain ⟨c, hc, hceq⟩ := List.map_eq_singleton_iff.mp heq
  rw [Prod.mk.injEq, decide_eq_true_eq] at hceq
  exact ⟨s, hs, c, by rw [hc]; exact List.mem_singleton.mpr rfl, hceq⟩

end SrsUE.Proofs.Rlc
