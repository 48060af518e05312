import Mathlib.Logic.Function.Iterate
import SrsUE.Lib.SeqNum
import SrsUE.Rlc.UmRx

/-!
# `SrsUE.Proofs.Rlc.UmWindow`: the reordering window of `rlc_um`

Every PDU that is kept has an absolute index, of which its SN is the remainder modulo
`rx_mod = 2 * W`. `UmWindow W st r h Q` says that `vr_ur` and `vr_uh` are the numbers of the
indices `r` and `h`, and that what waits in `rx_window` has its index between them.
`RX_MOD_BASE` is then the position of an index relative to `h - W` (`umRxModBase_of_index`).

All three loops of the receive side do the same thing: `vr_ur` passes one SN after the other,
and a PDU that waits there is reassembled. `passRound` is such a round, and
`umReassemble_eq` and `umSkipMissing_eq` say how many of them the loops make.

* `UmRxInv.after_receivePdu` and `UmRxInv.after_timerExpired`: what an event does to the
  window, and the rounds that it makes.
-/

set_option autoImplicit false

namespace SrsUE.Proofs.Rlc

open SrsUE.Lib
open SrsUE.Rlc (Bytes FiField Timer UmdSnSize UmdPduHeader sub32)
open SrsUE.Rlc.Um

/-! ### Positions in the window -/

/-- The size of the reordering window. -/
def umWidth : UmdSnSize → Nat
  | .size5Bits => 16
  | .size10Bits => 512

/-- The window has the size 16 or 512. -/
theorem umWidth_cases (snSize : UmdSnSize) : umWidth snSize = 16 ∨ umWidth snSize = 512 := by
  cases snSize
  · exact .inl rfl
  · exact .inr rfl

/-- The size of the window tells the length of the SN. -/
theorem umWidth_injective {a b : UmdSnSize} (hab : umWidth a = umWidth b) : a = b := by
  cases a <;> cases b
  · rfl
  · cases hab
  · cases hab
  · rfl

/-- The window size and the modulus of an entity, and the index of its `vr_uh`. -/
structure UmScale (W : Nat) (st : RlcUmRx) (h : Nat) : Prop where
  width : W = umWidth st.rxSnFieldLength
  rxWindowSize : st.rxWindowSize = W
  rxMod : st.rxMod = 2 * W
  vrUh : st.vrUh = h % (2 * W)

section
variable {W h : Nat} {st : RlcUmRx}

/-- So does the window of an entity. -/
theorem UmScale.cases (s : UmScale W st h) : W = 16 ∨ W = 512 := by
  rw [s.width]
  exact umWidth_cases _

/-- The wrapping differences of `RX_MOD_BASE` are a distance modulo `rx_mod`. -/
theorem umRxModBase_eq (s : UmScale W st h) {x : Nat} (hx : x < 2 ^ 32) :
    st.rxModBase x = modDist (2 * W) x ((h + W) % (2 * W)) := by
  unfold RlcUmRx.rxModBase modDist sub32
  rw [s.rxWindowSize, s.rxMod, s.vrUh]
  -- With `W` a literal the two wraps, of 32 bits and of `rx_mod`, are arithmetic for `omega`.
  rcases s.cases with rfl | rfl
  · split <;> split <;> omega
  · split <;> split <;> omega

/-- The position of an index less than a window away from `h`. -/
theorem umRxModBase_of_index (s : UmScale W st h) {i : Nat} (hlo : h ≤ i + W) (hhi : i < h + W) :
    st.rxModBase (i % (2 * W)) = i + W - h := by
  have hW := s.cases
  have hlt : i % (2 * W) < 2 * W := Nat.mod_lt _ (by omega)
  have hdist := @modDist_of_le (2 * W) (i + 2 * W) (h + W) (by omega) (by omega)
  rw [umRxModBase_eq s (by omega), ← Nat.add_mod_right i (2 * W), hdist]
  omega

/-- An index below the window has the position of the one that is `2 * W` further on. -/
theorem umRxModBase_below (s : UmScale W st h) {i : Nat} (hlo : i + W < h) (hhi : h ≤ i + 2 * W) :
    st.rxModBase (i % (2 * W)) = i + 3 * W - h := by
  rw [← Nat.add_mod_right i (2 * W), umRxModBase_of_index s (by omega) (by omega)]
  omega

/-- `vr_uh` is the window size away from the base. -/
theorem umRxModBase_vrUh (s : UmScale W st h) : st.rxModBase st.vrUh = W := by
  have hW := s.cases
  rw [s.vrUh, umRxModBase_of_index s (by omega) (by omega)]
  omega

/-- The lower edge of the window is the base. -/
theorem umRxModBase_edge (s : UmScale W st h) :
    st.rxModBase (sub32 st.vrUh st.rxWindowSize) = 0 := by
  unfold RlcUmRx.rxModBase sub32
  rw [s.rxWindowSize, s.rxMod, s.vrUh]
  rcases s.cases with rfl | rfl
  · split <;> split <;> split <;> omega
  · split <;> split <;> split <;> omega

/-- The lower half of the positions is inside the window. -/
theorem umInside_iff (s : UmScale W st h) (sn : Nat) :
    st.insideReorderingWindow sn = true ↔ st.rxModBase sn < W := by
  unfold RlcUmRx.insideReorderingWindow
  rw [umRxModBase_edge s, umRxModBase_vrUh s]
  simp

/-- `vr_ur` is inside the window unless it is at `vr_uh` or more than a window behind. -/
theorem umInside_index (s : UmScale W st h) {r : Nat} (hr : r ≤ h) (hh : h ≤ r + 2 * W) :
    st.insideReorderingWindow (r % (2 * W)) = true ↔ r < h ∧ h ≤ r + W := by
  have hW := s.cases
  rw [umInside_iff s]
  rcases Nat.lt_or_ge (r + W) h with hlt | hge
  · rw [umRxModBase_below s hlt hh]
    omega
  · rw [umRxModBase_of_index s hge (by omega)]
    omega

/-- The index of an SN that is not below `vr_ur`. -/
theorem umIndex_of_sn (s : UmScale W st h) {r sn : Nat} (hr : h ≤ r + W) (hsn : sn < 2 * W)
    (hge : r + W - h ≤ st.rxModBase sn) :
    ∃ i, r ≤ i ∧ i < h + W ∧ sn = i % (2 * W) := by
  have hW := s.cases
  have hpos : 0 < 2 * W := by omega
  have heq := umRxModBase_eq s (show sn < 2 ^ 32 by omega)
  have hlt := modDist_lt hpos sn ((h + W) % (2 * W))
  have hmod := add_modDist_mod hpos sn (h + W)
  rw [← heq] at hlt hmod
  -- The index that is as far from the lower edge `h - W` as the position says.
  refine ⟨h + st.rxModBase sn - W, by omega, by omega, ?_⟩
  rw [← Nat.add_mod_right, show h + st.rxModBase sn - W + 2 * W = h + W + st.rxModBase sn by omega,
    hmod, Nat.mod_eq_of_lt hsn]

end

/-! ### The window -/

/-- The indices of `vr_ur` and `vr_uh`, and the PDUs that wait between them. -/
structure UmWindow (W : Nat) (st : RlcUmRx) (r h : Nat) (Q : Nat → UmdPdu → Prop) : Prop
    extends UmScale W st h where
  vrUr : st.vrUr = r % (2 * W)
  r_le : r ≤ h
  h_le : h ≤ r + 2 * W
  keys : ∀ sn pdu, st.rxWindow sn = some pdu →
    ∃ i, r ≤ i ∧ i < h ∧ sn = i % (2 * W) ∧ Q i pdu

/-- A PDU with this index waits in `rx_window`. -/
def UmWaiting (st : RlcUmRx) (i : Nat) : Prop := (st.rxWindow (i % st.rxMod)).isSome = true

/-- `vr_ur` passes one SN. A PDU that waits there is reassembled, and for a missing one `rx_sdu`
is emptied if `reset` says so. -/
def passRound (reset : Bool) (st : RlcUmRx) : RlcUmRx :=
  (match st.rxWindow st.vrUr with
    | none => if reset then { st with rxSdu := [] } else st
    | some pdu => reassemblePdu st pdu).advance

section
variable {W r h : Nat} {st : RlcUmRx} {Q : Nat → UmdPdu → Prop}

/-- A PDU waits where `rx_window` has one. -/
theorem UmWindow.waiting_iff (w : UmWindow W st r h Q) (i : Nat) :
    UmWaiting st i ↔ (st.rxWindow (i % (2 * W))).isSome = true := by
  rw [UmWaiting, w.rxMod]

/-- The PDU that waits at an index. -/
theorem UmWindow.pdu_at (w : UmWindow W st r h Q) {i : Nat} (hri : r ≤ i) (hi : i < r + 2 * W)
    {pdu : UmdPdu} (hpdu : st.rxWindow (i % (2 * W)) = some pdu) : i < h ∧ Q i pdu := by
  obtain ⟨j, hrj, hjh, heq, hq⟩ := w.keys _ _ hpdu
  have hle := w.h_le
  obtain rfl : i = j := eq_of_mod_eq heq (by omega) (by omega)
  exact ⟨hjh, hq⟩

/-- Within two windows of `vr_ur`, PDUs wait below `vr_uh` only. -/
theorem UmWindow.lt_of_waiting (w : UmWindow W st r h Q) {i : Nat} (hri : r ≤ i)
    (hi : i < r + 2 * W) (hw : UmWaiting st i) : i < h := by
  obtain ⟨pdu, hpdu⟩ := Option.isSome_iff_exists.mp ((w.waiting_iff i).mp hw)
  exact (w.pdu_at hri hi hpdu).1

/-- The distance of `vr_ur` from the base, while it is not below the window. -/
theorem UmWindow.rxModBase_vrUr (w : UmWindow W st r h Q) (hedge : h ≤ r + W) :
    st.rxModBase st.vrUr = r + W - h := by
  have hW := w.cases
  have hr := w.r_le
  rw [w.vrUr, umRxModBase_of_index w.toUmScale hedge (by omega)]

/-- The variables that `UmWindow` speaks of. -/
theorem UmWindow.of_eq {st' : RlcUmRx} (w : UmWindow W st r h Q)
    (hcfg : (st'.rxSnFieldLength, st'.rxWindowSize, st'.rxMod)
      = (st.rxSnFieldLength, st.rxWindowSize, st.rxMod))
    (hvars : (st'.rxWindow, st'.vrUr, st'.vrUh) = (st.rxWindow, st.vrUr, st.vrUh)) :
    UmWindow W st' r h Q := by
  simp only [Prod.mk.injEq] at hcfg hvars
  obtain ⟨hsn, hsize, hmod⟩ := hcfg
  obtain ⟨hwindow, hur, huh⟩ := hvars
  exact { width := by rw [hsn]; exact w.width
          rxWindowSize := by rw [hsize]; exact w.rxWindowSize
          rxMod := by rw [hmod]; exact w.rxMod
          vrUh := by rw [huh]; exact w.vrUh
          vrUr := by rw [hur]; exact w.vrUr
          r_le := w.r_le
          h_le := w.h_le
          keys := by rw [hwindow]; exact w.keys }

/-! ### One round -/

/-- The pieces of a PDU change what reassembly holds and hands over, and nothing else. -/
theorem umReassembleLis_frame (fi : FiField) (lis : List Nat) (buf : Bytes) (st : RlcUmRx) :
    ∃ rxSdu lost pdcp, (reassembleLis fi lis buf st).1
      = { st with rxSdu := rxSdu, pduLost := lost, pdcp := pdcp } := by
  induction lis generalizing buf st with
  | nil => exact ⟨_, _, _, rfl⟩
  | cons len lis ih =>
    obtain ⟨a, b, c, heq⟩ := ih (buf.drop len)
      ({ st with rxSdu := st.rxSdu ++ buf.take len }.finishSdu (st.pduLost && !startAligned fi
        || decide (st.vrUr ≠ (st.vrUrInRxSdu + 1) % st.rxMod)))
    exact ⟨a, b, c, heq⟩

/-- A PDU is reassembled without a change to the window but that the PDU leaves it. -/
theorem umReassemblePdu_frame (st : RlcUmRx) (pdu : UmdPdu) :
    ∃ rxSdu last lost pdcp, reassemblePdu st pdu
      = { st with rxSdu := rxSdu, vrUrInRxSdu := last, pduLost := lost, pdcp := pdcp
                  rxWindow := st.rxWindow.erase st.vrUr } := by
  obtain ⟨a, b, c, heq⟩ := umReassembleLis_frame pdu.header.fi pdu.header.li pdu.buf st
  unfold reassemblePdu reassembleLast
  simp only [heq]
  split
  · exact ⟨_, _, _, _, rfl⟩
  · exact ⟨_, _, _, _, rfl⟩

/-- What a round does to the window: the place at `vr_ur` is free, and `vr_ur` moves on. -/
theorem passRound_frame (reset : Bool) (st : RlcUmRx) :
    ∃ rxSdu last lost pdcp, passRound reset st
      = { st with rxSdu := rxSdu, vrUrInRxSdu := last, pduLost := lost, pdcp := pdcp
                  rxWindow := st.rxWindow.erase st.vrUr
                  vrUr := (st.vrUr + 1) % st.rxMod } := by
  unfold passRound
  cases hpdu : st.rxWindow st.vrUr with
  | none =>
    -- Nothing waits at `vr_ur`, so to erase there changes nothing.
    have herase : st.rxWindow.erase st.vrUr = st.rxWindow := by
      funext sn
      rw [Dict.erase_apply]
      split
      · rename_i heq
        rw [heq, hpdu]
      · rfl
    rw [herase]
    cases reset
    · exact ⟨st.rxSdu, _, _, _, rfl⟩
    · exact ⟨[], _, _, _, rfl⟩
  | some pdu =>
    obtain ⟨a, b, c, d, heq⟩ := umReassemblePdu_frame st pdu
    simp only [heq]
    exact ⟨a, b, c, d, rfl⟩

/-- `vr_ur` can pass every SN below `vr_uh`. -/
theorem UmWindow.pass (w : UmWindow W st r h Q) (hlt : r < h) (reset : Bool) :
    UmWindow W (passRound reset st) (r + 1) h Q := by
  obtain ⟨a, b, c, d, heq⟩ := passRound_frame reset st
  have hle := w.h_le
  rw [heq]
  refine { width := w.width, rxWindowSize := w.rxWindowSize, rxMod := w.rxMod, vrUh := w.vrUh,
           vrUr := ?_, r_le := hlt, h_le := by omega, keys := ?_ }
  · show (st.vrUr + 1) % st.rxMod = (r + 1) % (2 * W)
    rw [w.vrUr, w.rxMod, Nat.mod_add_mod]
  · intro sn pdu hpdu
    change st.rxWindow.erase st.vrUr sn = some pdu at hpdu
    -- What waited at `r` has left, so the indices start at `r + 1` from here on.
    have hne : sn ≠ st.vrUr := by
      rintro rfl
      rw [Dict.erase_self] at hpdu
      cases hpdu
    rw [Dict.erase_of_ne _ hne] at hpdu
    obtain ⟨i, hri, hih, rfl, hq⟩ := w.keys sn pdu hpdu
    have hir : i ≠ r := by
      rintro rfl
      exact hne w.vrUr.symm
    exact ⟨i, by omega, hih, rfl, hq⟩

/-- The other places of the window stay as they are. -/
theorem UmWindow.waiting_passRound (w : UmWindow W st r h Q) (reset : Bool) {j : Nat}
    (hrj : r < j) (hj : j < r + 2 * W) :
    UmWaiting (passRound reset st) j ↔ UmWaiting st j := by
  obtain ⟨a, b, c, d, heq⟩ := passRound_frame reset st
  -- Two indices less than `rx_mod` apart do not share a place.
  have hne : j % (2 * W) ≠ r % (2 * W) := by
    intro hmod
    have := eq_of_mod_eq hmod (by omega) (by omega)
    omega
  rw [heq, UmWaiting, UmWaiting]
  simp only [w.rxMod, w.vrUr]
  rw [Dict.erase_of_ne _ hne]

/-- With a PDU at `vr_ur` it does not matter what a missing one does. -/
theorem passRound_of_some {pdu : UmdPdu} (hpdu : st.rxWindow st.vrUr = some pdu) (reset : Bool) :
    passRound reset st = (reassemblePdu st pdu).advance := by
  rw [passRound, hpdu]

/-- Passing a missing SN without a reset is only a move of `vr_ur`. -/
theorem passRound_of_none (hnone : st.rxWindow st.vrUr = none) :
    passRound false st = st.advance := by
  rw [passRound, hnone]
  rfl

/-! ### Rounds -/

/-- Several rounds, up to `vr_uh`. Induction on their number. -/
theorem UmWindow.iterate (w : UmWindow W st r h Q) (reset : Bool) {n : Nat} (hn : r + n ≤ h) :
    UmWindow W ((passRound reset)^[n] st) (r + n) h Q := by
  induction n with
  | zero => exact w
  | succ n ih =>
    rw [Function.iterate_succ_apply']
    exact (ih (by omega)).pass (by omega) reset

/-- What waits above is still there after some rounds. -/
theorem UmWindow.waiting_iterate (w : UmWindow W st r h Q) (reset : Bool) {n j : Nat}
    (hn : r + n ≤ h) (hj : r + n ≤ j) (hj' : j < r + 2 * W) :
    UmWaiting ((passRound reset)^[n] st) j ↔ UmWaiting st j := by
  induction n with
  | zero => exact Iff.rfl
  | succ n ih =>
    rw [Function.iterate_succ_apply']
    have hw := w.iterate reset (show r + n ≤ h by omega)
    rw [hw.waiting_passRound reset (by omega) (by omega)]
    exact ih (by omega) (by omega)

/-- The first loop of `reassemble_rx_sdus` makes the rounds up to the lower edge of the window,
and stops there. -/
theorem umCatchUp_eq (rounds : Nat) : ∀ {r : Nat} {st : RlcUmRx}, UmWindow W st r h Q → r < h →
    h ≤ r + W + rounds → catchUp rounds st = (passRound true)^[h - W - r] st := by
  induction rounds with
  | zero =>
    intro r st w hlt hle
    rw [show h - W - r = 0 by omega]
    rfl
  | succ rounds ih =>
    intro r st w hlt hle
    have hW := w.cases
    have hin := umInside_index w.toUmScale w.r_le w.h_le
    rw [← w.vrUr] at hin
    rw [catchUp]
    -- The guard `!inside_reordering_window(vr_ur)` is the comparison with the lower edge.
    by_cases hedge : h ≤ r + W
    · rw [if_pos (hin.mpr ⟨hlt, hedge⟩), show h - W - r = 0 by omega]
      rfl
    · have hout : ¬st.insideReorderingWindow st.vrUr = true := fun hi => hedge (hin.mp hi).2
      rw [if_neg hout, show h - W - r = h - W - (r + 1) + 1 by omega, Function.iterate_succ_apply]
      exact ih (w.pass hlt true) (by omega) (by omega)

/-- The second loop makes the rounds over the PDUs that wait from `vr_ur` on, and stops at the
first one that is missing. -/
theorem umUpdateVrUr_eq (rounds : Nat) : ∀ {r : Nat} {st : RlcUmRx}, UmWindow W st r h Q →
    h ≤ r + W → h ≤ r + rounds → ∃ n, (∀ reset, updateVrUr rounds st = (passRound reset)^[n] st) ∧
      r + n ≤ h ∧ (∀ j, r ≤ j → j < r + n → UmWaiting st j) ∧ ¬UmWaiting st (r + n) := by
  induction rounds with
  | zero =>
    intro r st w hedge hle
    have hW := w.cases
    refine ⟨0, fun _ => rfl, w.r_le, fun j hj hj' => by omega, fun hw => ?_⟩
    have := w.lt_of_waiting (Nat.le_refl r) (by omega) hw
    omega
  | succ rounds ih =>
    intro r st w hedge hle
    have hW := w.cases
    cases hpdu : st.rxWindow st.vrUr with
    | none =>
      refine ⟨0, fun _ => by simp only [updateVrUr, hpdu]; rfl, w.r_le,
        fun j hj hj' => by omega, ?_⟩
      rw [Nat.add_zero, w.waiting_iff, ← w.vrUr, hpdu]
      exact Bool.false_ne_true
    | some pdu =>
      have hwait : UmWaiting st r := by
        rw [w.waiting_iff, ← w.vrUr, hpdu]
        rfl
      have hlt := w.lt_of_waiting (Nat.le_refl r) (by omega) hwait
      -- Something waits at `r`: one round, and the rest by induction on the bound.
      have hround := fun reset => passRound_of_some hpdu reset
      have w' := w.pass hlt false
      obtain ⟨n, heq, hn, hall, hmiss⟩ := ih w' (by omega) (by omega)
      have hother : ∀ j, r < j → j ≤ h → (UmWaiting (passRound false st) j ↔ UmWaiting st j) :=
        fun j hj hjh => w.waiting_passRound false hj (by omega)
      refine ⟨n + 1, ?_, by omega, ?_, ?_⟩
      · intro reset
        rw [Function.iterate_succ_apply, updateVrUr, hpdu, hround reset]
        simp only
        rw [← hround false]
        exact heq reset
      · intro j hj hj'
        rcases Nat.eq_or_lt_of_le hj with rfl | hlt'
        · exact hwait
        · exact (hother j hlt' (by omega)).mp (hall j hlt' (by omega))
      · rw [show r + (n + 1) = r + 1 + n by omega]
        exact fun hw => hmiss ((hother _ (by omega) (by omega)).mpr hw)

/-- `reassemble_rx_sdus` passes everything below the lower edge of the window, then the PDUs
that wait, and stops at the first missing one. -/
theorem umReassemble_eq (w : UmWindow W st r h Q) (hlt : r < h) :
    ∃ n, reassembleRxSdus st = (passRound true)^[n] st ∧ h ≤ r + n + W ∧ r + n ≤ h ∧
      (∀ j, r ≤ j → h ≤ j + W → j < r + n → UmWaiting st j) ∧
      ¬UmWaiting (reassembleRxSdus st) (r + n) := by
  have hW := w.cases
  have hle := w.h_le
  -- First the rounds up to the lower edge, whatever waits there.
  have hcatch := umCatchUp_eq st.rxMod w hlt (by rw [w.rxMod]; omega)
  have wc := w.iterate true (show r + (h - W - r) ≤ h by omega)
  -- Then the ones over PDUs that wait. The modulus bounds both loops.
  obtain ⟨n, heq, hn, hall, hmiss⟩ := umUpdateVrUr_eq st.rxMod wc (by omega)
    (by rw [w.rxMod]; omega)
  have hre : reassembleRxSdus st = (passRound true)^[n + (h - W - r)] st := by
    rw [reassembleRxSdus, hcatch, heq true, Function.iterate_add_apply]
  refine ⟨n + (h - W - r), hre, by omega, by omega, ?_, ?_⟩
  · intro j hj hjW hj'
    exact (w.waiting_iterate true (by omega) (by omega) (by omega)).mp
      (hall j (by omega) (by omega))
  · rw [hre, Function.iterate_add_apply,
      show r + (n + (h - W - r)) = r + (h - W - r) + n by omega]
    exact fun hw => hmiss ((wc.waiting_iterate true hn (Nat.le_refl _) (by omega)).mp hw)

/-- The variables that no round changes. -/
theorem passRound_iterate_same (reset : Bool) (n : Nat) (st : RlcUmRx) :
    ((passRound reset)^[n] st).vrUx = st.vrUx ∧
      ((passRound reset)^[n] st).reorderingTimer = st.reorderingTimer ∧
      ((passRound reset)^[n] st).tReordering = st.tReordering := by
  induction n with
  | zero => exact ⟨rfl, rfl, rfl⟩
  | succ n ih =>
    rw [Function.iterate_succ_apply']
    obtain ⟨a, b, c, d, heq⟩ := passRound_frame reset ((passRound reset)^[n] st)
    rw [heq]
    exact ih

/-- Over PDUs that all wait it does not matter what a missing one does. -/
theorem UmWindow.iterate_of_waiting (w : UmWindow W st r h Q) (reset reset' : Bool) {n : Nat}
    (hn : r + n ≤ h) (hall : ∀ j, r ≤ j → j < r + n → UmWaiting st j) :
    (passRound reset)^[n] st = (passRound reset')^[n] st := by
  have hle := w.h_le
  induction n with
  | zero => rfl
  | succ n ih =>
    have hn' : r + n ≤ h := by omega
    have heq := ih hn' fun j hj hj' => hall j hj (by omega)
    -- The rounds before this one leave the PDU at `r + n` where it is.
    have hwait := (w.waiting_iterate reset hn' (Nat.le_refl _) (by omega)).mpr
      (hall (r + n) (by omega) (by omega))
    have w' := w.iterate reset hn'
    rw [w'.waiting_iff, ← w'.vrUr] at hwait
    obtain ⟨pdu, hpdu⟩ := Option.isSome_iff_exists.mp hwait
    rw [Function.iterate_succ_apply', Function.iterate_succ_apply', ← heq,
      passRound_of_some hpdu, passRound_of_some hpdu]

/-- The state in front of a round of the loop of `timer_expired`. `x` is the index of
`vr_ux`. -/
structure UmExpiring (W : Nat) (st : RlcUmRx) (r h x : Nat) (Q : Nat → UmdPdu → Prop) : Prop
    extends UmWindow W st r h Q where
  edge : h ≤ r + W
  missing : ¬UmWaiting st r
  vrUx : st.vrUx = x % (2 * W)
  x_le : x ≤ h
  le_x : h ≤ x + W
  top : r < x → UmWaiting st (x - 1)

/-- The loop of `timer_expired` goes on below `vr_ux`. -/
theorem UmExpiring.guard_iff {x : Nat} (e : UmExpiring W st r h x Q) :
    st.rxModBase st.vrUr < st.rxModBase st.vrUx ↔ r < x := by
  have hW := e.cases
  have hx := e.x_le
  have hedge := e.edge
  rw [e.rxModBase_vrUr hedge, e.vrUx, umRxModBase_of_index e.toUmScale e.le_x (by omega)]
  omega

/-- One round: the missing PDU is passed, then those that wait behind it. The PDU in front of
`vr_ux` has been received, so there is one behind the gap. -/
theorem UmExpiring.round {x : Nat} (e : UmExpiring W st r h x Q) (hlt : r < x) :
    UmWindow W st.advance (r + 1) h Q ∧ r + 1 < h ∧
      ∃ n, UmExpiring W (reassembleRxSdus st.advance) (r + 1 + n) h x Q ∧
        reassembleRxSdus st.advance = (passRound false)^[n + 1] st ∧
        (∀ j, r < j → j < r + 1 + n → UmWaiting st j) ∧
        ∀ j, r + 1 + n ≤ j → j ≤ h →
          (UmWaiting (reassembleRxSdus st.advance) j ↔ UmWaiting st j) := by
  have hW := e.cases
  have hx := e.x_le
  have hedge := e.edge
  have hwx := e.top hlt
  -- `x - 1` waits and `r` does not, so `r + 1 < x`: there is a PDU to find behind the gap.
  have hne : x - 1 ≠ r := fun heq => e.missing (heq ▸ hwx)
  have hnone : st.rxWindow st.vrUr = none := by
    have hmiss := e.missing
    rw [e.waiting_iff, ← e.vrUr] at hmiss
    simpa using hmiss
  have w := e.toUmWindow.pass (show r < h by omega) false
  rw [← passRound_of_none hnone]
  obtain ⟨n, hre, -, hn, hall, hmiss⟩ := umReassemble_eq w (show r + 1 < h by omega)
  -- The window starts at `r + 1` within its edge, so no round meets a missing PDU.
  have hre' : reassembleRxSdus (passRound false st)
      = (passRound false)^[n] (passRound false st) := by
    rw [hre]
    exact w.iterate_of_waiting true false hn fun j hj hj' => hall j hj (by omega) hj'
  have hother : ∀ j, r + 1 + n ≤ j → j ≤ h →
      (UmWaiting (reassembleRxSdus (passRound false st)) j ↔ UmWaiting st j) := by
    intro j hj hjh
    rw [hre', w.waiting_iterate false hn hj (by omega)]
    exact e.waiting_passRound false (by omega) (by omega)
  have w' := w.iterate false hn
  rw [← hre'] at w'
  refine ⟨w, by omega, n, ?_, by rw [hre', Function.iterate_succ_apply], ?_, hother⟩
  · refine { toUmWindow := w', edge := by omega, missing := hmiss, vrUx := ?_, x_le := hx,
             le_x := e.le_x, top := fun hlt' => (hother _ (by omega) (by omega)).mpr hwx }
    rw [hre', ← Function.iterate_succ_apply, (passRound_iterate_same _ _ _).1, e.vrUx]
  · intro j hj hj'
    exact (e.waiting_passRound false hj (by omega)).mp (hall j hj (by omega) hj')

/-- The loop of `timer_expired` passes everything below `vr_ux`, then the PDUs that wait, and
stops at the first missing one. A missing PDU leaves `rx_sdu` alone here. -/
theorem umSkipMissing_eq {x : Nat} (rounds : Nat) :
    ∀ {r : Nat} {st : RlcUmRx}, UmExpiring W st r h x Q → x ≤ r + rounds →
      ∃ n, skipMissing rounds st = (passRound false)^[n] st ∧ x ≤ r + n ∧
        UmExpiring W (skipMissing rounds st) (r + n) h x Q ∧
        ∀ j, x ≤ j → r ≤ j → j < r + n → UmWaiting st j := by
  induction rounds with
  | zero =>
    intro r st e hx
    exact ⟨0, rfl, hx, e, fun j _ hj hj' => by omega⟩
  | succ rounds ih =>
    intro r st e hx
    by_cases hlt : r < x
    · obtain ⟨-, -, n, e', hre, hall, hother⟩ := e.round hlt
      obtain ⟨m, heq, hxm, e'', hall'⟩ := ih e' (by omega)
      have hm := e''.r_le
      have hskip : skipMissing (rounds + 1) st = skipMissing rounds
          (reassembleRxSdus st.advance) := by
        rw [skipMissing, if_pos (e.guard_iff.mpr hlt)]
      -- The round for the gap, `n` behind it, and those that the rest of the loop makes.
      refine ⟨m + (n + 1), ?_, by omega, ?_, ?_⟩
      · rw [hskip, heq, hre, ← Function.iterate_add_apply]
      · rw [hskip, show r + (m + (n + 1)) = r + 1 + n + m by omega]
        exact e''
      · intro j hxj hrj hj
        rcases Nat.lt_or_ge j (r + 1 + n) with hlow | hhigh
        · exact hall j (by omega) hlow
        · exact (hother j hhigh (by omega)).mp (hall' j hxj hhigh (by omega))
    · rw [skipMissing, if_neg (fun hc => hlt (e.guard_iff.mp hc))]
      exact ⟨0, rfl, by omega, e, fun j _ hj hj' => by omega⟩

end

/-! ### The invariant -/

/-- What holds between two events, with the indices of `vr_ur` and `vr_uh`. -/
structure UmRxInv (W : Nat) (st : RlcUmRx) (r h : Nat) (Q : Nat → UmdPdu → Prop) : Prop
    extends UmWindow W st r h Q where
  edge : h ≤ r + W
  missing : ¬UmWaiting st r
  top : r < h → UmWaiting st (h - 1)
  timer : st.reorderingTimer.isRunning = true →
    ∃ x, st.vrUx = x % (2 * W) ∧ r < x ∧ x ≤ h ∧ UmWaiting st (x - 1)

section
variable {W r h : Nat} {st : RlcUmRx} {Q : Nat → UmdPdu → Prop}

/-- The invariant holds of a configured receiver. -/
theorem umRxInv_init (snSize : UmdSnSize) (tReordering : Nat) (Q : Nat → UmdPdu → Prop) :
    UmRxInv (umWidth snSize) (configureRx snSize tReordering) 0 0 Q where
  width := rfl
  rxWindowSize := by cases snSize <;> rfl
  rxMod := by cases snSize <;> rfl
  vrUh := rfl
  vrUr := rfl
  r_le := Nat.le_refl 0
  h_le := Nat.zero_le _
  keys _ _ hpdu := by cases hpdu
  edge := Nat.zero_le _
  missing hw := by cases hw
  top h0 := absurd h0 (Nat.lt_irrefl 0)
  timer hrun := by cases hrun

/-! ### The reordering timer -/

/-- The start of the timer changes the timer and `vr_ux` only. -/
theorem umStartReordering_frame (st : RlcUmRx) :
    ∃ timer ux, startReordering st = { st with reorderingTimer := timer, vrUx := ux } := by
  unfold startReordering
  split
  · exact ⟨_, _, rfl⟩
  · exact ⟨_, _, rfl⟩

/-- So does what `handle_data_pdu` does to the timer. -/
theorem umUpdateReordering_frame (st : RlcUmRx) :
    ∃ timer ux, updateReordering st = { st with reorderingTimer := timer, vrUx := ux } := by
  unfold updateReordering
  simp only
  split
  · split
    · exact ⟨_, _, rfl⟩
    · obtain ⟨timer, ux, heq⟩ :=
        umStartReordering_frame { st with reorderingTimer := st.reorderingTimer.stop }
      exact ⟨timer, ux, heq⟩
  · split
    · exact ⟨_, _, rfl⟩
    · exact umStartReordering_frame st

/-- A timer that is stopped does not run. -/
theorem Timer.isRunning_stop (t : Timer) : t.stop.isRunning = false := by
  simp [Timer.isRunning, Timer.stop]

/-- A timer that is started while PDUs are missing has `vr_ux` at `vr_uh`. -/
theorem UmWindow.inv_startReordering (w : UmWindow W st r h Q) (hedge : h ≤ r + W)
    (hmiss : ¬UmWaiting st r) (htop : r < h → UmWaiting st (h - 1))
    (hoff : st.reorderingTimer.isRunning = false) :
    UmRxInv W (startReordering st) r h Q := by
  unfold startReordering
  rw [w.rxModBase_vrUr hedge, umRxModBase_vrUh w.toUmScale]
  split
  · refine { toUmWindow := w.of_eq rfl rfl, edge := hedge, missing := hmiss, top := htop,
             timer := fun _ => ⟨h, w.vrUh, by omega, Nat.le_refl h, htop (by omega)⟩ }
  · refine { toUmWindow := w, edge := hedge, missing := hmiss, top := htop, timer := ?_ }
    intro hrun
    rw [hoff] at hrun
    cases hrun

/-- With the timer off, `handle_data_pdu` can only start it. -/
theorem umUpdateReordering_of_off (hoff : st.reorderingTimer.isRunning = false) :
    updateReordering st = startReordering st := by
  unfold updateReordering
  simp only [hoff, Bool.false_and, Bool.false_eq_true, if_false]

/-- While `vr_ux` is ahead of `vr_ur`, the end of `handle_data_pdu` leaves a running timer
alone. -/
theorem UmWindow.updateReordering_of_lt (w : UmWindow W st r h Q) (hedge : h ≤ r + W)
    (hrun : st.reorderingTimer.isRunning = true) {x : Nat} (hux : st.vrUx = x % (2 * W))
    (hhi : x ≤ h) (hlt : r < x) : updateReordering st = st := by
  have hW := w.cases
  have hin := umInside_index w.toUmScale hhi (by omega)
  rw [← hux] at hin
  have hkeep : (decide (st.rxModBase st.vrUx ≤ st.rxModBase st.vrUr)
      || !st.insideReorderingWindow st.vrUx && decide (st.vrUx ≠ st.vrUh)) = false := by
    have hX : st.rxModBase st.vrUx = x + W - h := by
      rw [hux, umRxModBase_of_index w.toUmScale (by omega) (by omega)]
    rw [w.rxModBase_vrUr hedge, hX, decide_eq_false (by omega), Bool.false_or]
    rcases Nat.eq_or_lt_of_le hhi with rfl | hxh
    · simp [hux, w.vrUh]
    · rw [hin.mpr ⟨hxh, by omega⟩]
      rfl
  unfold updateReordering
  simp only [hkeep, Bool.and_false, Bool.false_eq_true, if_false, hrun, if_true]

/-- A running timer is stopped once `vr_ux` has been passed, or is below the window altogether. -/
theorem UmWindow.updateReordering_of_ge (w : UmWindow W st r h Q) (hedge : h ≤ r + W)
    (hrun : st.reorderingTimer.isRunning = true) {x : Nat} (hux : st.vrUx = x % (2 * W))
    (hlo : h < x + 2 * W) (hhi : x ≤ h) (hge : x ≤ r) :
    updateReordering st
      = startReordering { st with reorderingTimer := st.reorderingTimer.stop } := by
  have hW := w.cases
  have hin := umInside_index w.toUmScale hhi (Nat.le_of_lt hlo)
  rw [← hux] at hin
  have hstop : (decide (st.rxModBase st.vrUx ≤ st.rxModBase st.vrUr)
      || !st.insideReorderingWindow st.vrUx && decide (st.vrUx ≠ st.vrUh)) = true := by
    rw [w.rxModBase_vrUr hedge]
    rcases Nat.lt_or_ge (x + W) h with hbelow | hwin
    · have hout : st.insideReorderingWindow st.vrUx = false := by
        rw [← Bool.not_eq_true, hin]
        omega
      have hne : st.vrUx ≠ st.vrUh := by
        rw [hux, w.vrUh]
        intro hmod
        have := eq_of_mod_eq hmod (by omega) (by omega)
        omega
      simp [hout, hne]
    · have hr := w.r_le
      rw [hux, umRxModBase_of_index w.toUmScale hwin (by omega), decide_eq_true (by omega)]
      rfl
  unfold updateReordering
  simp only [hrun, hstop, Bool.and_true, if_true, Timer.isRunning_stop, Bool.false_eq_true,
    if_false]

/-- The end of `handle_data_pdu`: a timer whose `vr_ux` has been passed is stopped, and one is
started when PDUs are missing. -/
theorem UmWindow.inv_updateReordering (w : UmWindow W st r h Q) (hedge : h ≤ r + W)
    (hmiss : ¬UmWaiting st r) (htop : r < h → UmWaiting st (h - 1))
    (htimer : st.reorderingTimer.isRunning = true → ∃ x, st.vrUx = x % (2 * W) ∧
      h < x + 2 * W ∧ x ≤ h ∧ (r < x → UmWaiting st (x - 1))) :
    UmRxInv W (updateReordering st) r h Q := by
  cases hrun : st.reorderingTimer.isRunning with
  | false =>
    rw [umUpdateReordering_of_off hrun]
    exact w.inv_startReordering hedge hmiss htop hrun
  | true =>
    obtain ⟨x, hux, hlo, hhi, hwx⟩ := htimer hrun
    rcases Nat.lt_or_ge r x with hlt | hge
    · rw [w.updateReordering_of_lt hedge hrun hux hhi hlt]
      exact { toUmWindow := w, edge := hedge, missing := hmiss, top := htop,
              timer := fun _ => ⟨x, hux, hlt, hhi, hwx hlt⟩ }
    · rw [w.updateReordering_of_ge hedge hrun hux hlo hhi hge]
      exact @UmWindow.inv_startReordering W r h
        { st with reorderingTimer := st.reorderingTimer.stop } Q
        (w.of_eq rfl rfl) hedge hmiss htop (Timer.isRunning_stop _)

/-! ### One event -/

/-- `handle_data_pdu` keeps a PDU with this SN: it is not below `vr_ur`, and no PDU waits at its
place. -/
def UmAccepts (st : RlcUmRx) (sn : Nat) : Prop :=
  st.rxModBase st.vrUr ≤ st.rxModBase sn ∧ st.rxWindow sn = none

instance (st : RlcUmRx) (sn : Nat) : Decidable (UmAccepts st sn) :=
  inferInstanceAs (Decidable (_ ∧ _))

/-- A PDU that is kept is stored, reassembled, and the timer is looked at. -/
theorem umReceivePdu_of_accepts {header : UmdPduHeader} {buf : Bytes}
    (ha : UmAccepts st header.sn) :
    receivePdu st header buf
      = updateReordering (reassembleRxSdus (storeDataPdu st header buf)) := by
  obtain ⟨hge, hnone⟩ := ha
  unfold receivePdu
  rw [if_neg (by omega), if_neg (by simp [hnone])]

/-- Any other PDU changes nothing. -/
theorem umReceivePdu_of_not_accepts (s : UmScale W st h) {header : UmdPduHeader} {buf : Bytes}
    (ha : ¬UmAccepts st header.sn) : receivePdu st header buf = st := by
  unfold receivePdu
  rw [umRxModBase_edge s]
  split
  · rfl
  · rename_i hlow
    rw [if_pos]
    by_contra hnone
    exact ha ⟨by omega, by simpa using hnone⟩

/-- The SN of an index is kept exactly when the index is not below `r` and does not wait. -/
theorem UmRxInv.accepts_iff (inv : UmRxInv W st r h Q) {i : Nat} (hlo : h ≤ i + W)
    (hhi : i < h + W) : UmAccepts st (i % (2 * W)) ↔ r ≤ i ∧ ¬UmWaiting st i := by
  have hedge := inv.edge
  unfold UmAccepts
  rw [inv.rxModBase_vrUr hedge, umRxModBase_of_index inv.toUmScale hlo hhi, inv.waiting_iff]
  simp only [Bool.not_eq_true, Option.isSome_eq_false_iff, Option.isNone_iff_eq_none]
  constructor
  · rintro ⟨h1, h2⟩
    exact ⟨by omega, h2⟩
  · rintro ⟨h1, h2⟩
    exact ⟨by omega, h2⟩

section
variable {i : Nat} {header : UmdPduHeader} {buf : Bytes}

/-- The PDU is written to its place, and `vr_uh` moves behind it if it was ahead. -/
theorem UmRxInv.storeDataPdu_eq (inv : UmRxInv W st r h Q) (hri : r ≤ i) (hi : i < h + W)
    (hsn : header.sn = i % (2 * W)) :
    storeDataPdu st header buf = { st with
      rxWindow := st.rxWindow.insert (i % (2 * W)) { header := header, buf := buf }
      vrUh := max h (i + 1) % (2 * W) } := by
  have hedge := inv.edge
  -- A PDU ahead of `vr_uh` is outside of the reordering window, which ends there.
  have hin : st.insideReorderingWindow (i % (2 * W)) = true ↔ i < h := by
    rw [umInside_iff inv.toUmScale, umRxModBase_of_index inv.toUmScale (by omega) hi]
    omega
  have hin' : ({ st with rxWindow := st.rxWindow.insert (i % (2 * W)) ⟨header, buf⟩ }
      : RlcUmRx).insideReorderingWindow (i % (2 * W))
      = st.insideReorderingWindow (i % (2 * W)) := rfl
  unfold storeDataPdu
  simp only [hsn, hin']
  by_cases hlt : i < h
  · rw [if_pos (hin.mpr hlt), Nat.max_eq_left hlt, ← inv.vrUh]
  · rw [if_neg (fun hc => hlt (hin.mp hc)), Nat.max_eq_right (by omega), inv.rxMod,
      Nat.mod_add_mod]

/-- A PDU that is stored keeps the window in order. -/
theorem UmRxInv.storeDataPdu_window (inv : UmRxInv W st r h Q) (hri : r ≤ i) (hi : i < h + W)
    (hsn : header.sn = i % (2 * W)) (hq : Q i { header := header, buf := buf }) :
    UmWindow W (storeDataPdu st header buf) r (max h (i + 1)) Q := by
  have hedge := inv.edge
  have hr := inv.r_le
  rw [inv.storeDataPdu_eq hri hi hsn]
  refine { width := inv.width, rxWindowSize := inv.rxWindowSize, rxMod := inv.rxMod, vrUh := rfl,
           vrUr := inv.vrUr, r_le := by omega, h_le := by omega, keys := ?_ }
  intro sn pdu hpdu
  simp only [Dict.insert_apply] at hpdu
  split at hpdu
  · rename_i heq
    obtain rfl := Option.some.inj hpdu
    exact ⟨i, hri, by omega, heq, hq⟩
  · obtain ⟨j, hrj, hjh, hsnj, hqj⟩ := inv.keys sn pdu hpdu
    exact ⟨j, hrj, by omega, hsnj, hqj⟩

/-- It waits, and so do the PDUs that waited before. -/
theorem UmRxInv.waiting_storeDataPdu (inv : UmRxInv W st r h Q) (hri : r ≤ i) (hi : i < h + W)
    (hsn : header.sn = i % (2 * W)) (j : Nat) :
    UmWaiting (storeDataPdu st header buf) j ↔ j % (2 * W) = i % (2 * W) ∨ UmWaiting st j := by
  rw [inv.storeDataPdu_eq hri hi hsn, UmWaiting, UmWaiting]
  simp only [inv.rxMod, Dict.insert_apply]
  split
  · rename_i heq
    simp [heq]
  · rename_i hne
    simp [hne]

/-- `handle_data_pdu` with a PDU of index `i` that is kept, after `n` rounds of `vr_ur` and before
the timer is looked at. -/
structure UmReassembled (W : Nat) (st : RlcUmRx) (header : UmdPduHeader) (buf : Bytes)
    (r h i n : Nat) (Q : Nat → UmdPdu → Prop) : Prop extends
    UmWindow W ((passRound true)^[n] (storeDataPdu st header buf)) (r + n) (max h (i + 1)) Q where
  eq : receivePdu st header buf
    = updateReordering ((passRound true)^[n] (storeDataPdu st header buf))
  timer : ((passRound true)^[n] (storeDataPdu st header buf)).reorderingTimer = st.reorderingTimer
  vrUx : ((passRound true)^[n] (storeDataPdu st header buf)).vrUx = st.vrUx
  edge : max h (i + 1) ≤ r + n + W
  passed : ∀ j, r ≤ j → max h (i + 1) ≤ j + W → j < r + n →
    UmWaiting (storeDataPdu st header buf) j
  missing : ¬UmWaiting ((passRound true)^[n] (storeDataPdu st header buf)) (r + n)
  later : ∀ j, r + n ≤ j → j < max h (i + 1) →
    (UmWaiting ((passRound true)^[n] (storeDataPdu st header buf)) j
      ↔ j % (2 * W) = i % (2 * W) ∨ UmWaiting st j)

/-- The state after a PDU that is kept: how far `vr_ur` moves, and what waits then. -/
theorem UmRxInv.reassembled (inv : UmRxInv W st r h Q) (hri : r ≤ i) (hi : i < h + W)
    (hsn : header.sn = i % (2 * W)) (hnew : ¬UmWaiting st i)
    (hq : Q i { header := header, buf := buf }) : ∃ n, UmReassembled W st header buf r h i n Q := by
  have hr := inv.r_le
  have hedge := inv.edge
  have w := inv.storeDataPdu_window hri hi hsn hq
  obtain ⟨n, hre, hn, hn', hall, hmiss⟩ := umReassemble_eq w (by omega)
  have hsame := passRound_iterate_same true n (storeDataPdu st header buf)
  refine ⟨n, { toUmWindow := w.iterate true hn', eq := ?_, timer := ?_, vrUx := ?_, edge := hn,
               passed := hall, missing := hre ▸ hmiss, later := ?_ }⟩
  · rw [umReceivePdu_of_accepts, hre]
    rw [hsn, inv.accepts_iff (by omega) hi]
    exact ⟨hri, hnew⟩
  · rw [hsame.2.1, inv.storeDataPdu_eq hri hi hsn]
  · rw [hsame.1, inv.storeDataPdu_eq hri hi hsn]
  · intro j hj hj'
    rw [w.waiting_iterate true hn' hj (by omega)]
    exact inv.waiting_storeDataPdu hri hi hsn j

/-- The timer part closes the event: the invariant holds with `vr_ur` at its new index. -/
theorem UmRxInv.inv_reassembled {n : Nat} (inv : UmRxInv W st r h Q) (hri : r ≤ i)
    (hi : i < h + W) (w : UmReassembled W st header buf r h i n Q) :
    UmRxInv W (updateReordering ((passRound true)^[n] (storeDataPdu st header buf))) (r + n)
      (max h (i + 1)) Q := by
  have hW := inv.cases
  have hr := inv.r_le
  have hedge := inv.edge
  refine w.inv_updateReordering w.edge w.missing ?_ ?_
  · intro hlt
    rw [w.later _ (by omega) (by omega)]
    -- The highest index has been received: the old one, or this PDU.
    rcases Nat.lt_or_ge i h with hlt | hge
    · rw [Nat.max_eq_left hlt]
      exact .inr (inv.top (by omega))
    · rw [Nat.max_eq_right (by omega), Nat.add_sub_cancel]
      exact .inl rfl
  · intro hrun
    rw [w.timer] at hrun
    -- A timer that runs was running before, with its `vr_ux` at an index that waited.
    obtain ⟨x, hux, hrx, hxh, hwx⟩ := inv.timer hrun
    refine ⟨x, w.vrUx.trans hux, by omega, by omega, fun hlt => ?_⟩
    exact (w.later _ (by omega) (by omega)).mpr (.inr hwx)

/-- A PDU that is kept: the window after it, and the rounds that `vr_ur` made. -/
theorem UmRxInv.after_receivePdu (inv : UmRxInv W st r h Q) (hri : r ≤ i) (hi : i < h + W)
    (hsn : header.sn = i % (2 * W)) (hnew : ¬UmWaiting st i)
    (hq : Q i { header := header, buf := buf }) :
    ∃ n timer ux, UmRxInv W (receivePdu st header buf) (r + n) (max h (i + 1)) Q ∧
      receivePdu st header buf = { (passRound true)^[n] (storeDataPdu st header buf) with
        reorderingTimer := timer, vrUx := ux } ∧
      max h (i + 1) ≤ r + n + W ∧
      (∀ j, r ≤ j → max h (i + 1) ≤ j + W → j < r + n →
        UmWaiting (storeDataPdu st header buf) j) ∧
      (r + n < max h (i + 1) → ¬UmWaiting (storeDataPdu st header buf) (r + n)) := by
  obtain ⟨n, w⟩ := inv.reassembled hri hi hsn hnew hq
  -- The timer part moves neither the window nor `vr_ur`.
  obtain ⟨timer, ux, hf⟩ :=
    umUpdateReordering_frame ((passRound true)^[n] (storeDataPdu st header buf))
  refine ⟨n, timer, ux, w.eq ▸ inv.inv_reassembled hri hi w, w.eq.trans hf, w.edge, w.passed, ?_⟩
  intro hlt hw
  refine w.missing ((w.later _ (Nat.le_refl _) hlt).mpr ?_)
  exact (inv.waiting_storeDataPdu hri hi hsn _).mp hw

end

/-- The state in which `timer_expired` enters its loop. -/
theorem UmRxInv.expiring (inv : UmRxInv W st r h Q) {x : Nat} (hux : st.vrUx = x % (2 * W))
    (hrx : r < x) (hxh : x ≤ h) (hwx : UmWaiting st (x - 1)) (timer : Timer) :
    UmExpiring W { st with reorderingTimer := timer, pduLost := true, rxSdu := [] } r h x Q := by
  have hedge := inv.edge
  exact { toUmWindow := inv.toUmWindow.of_eq rfl rfl, edge := hedge, missing := inv.missing,
          vrUx := hux, x_le := hxh, le_x := by omega, top := fun _ => hwx }

/-- An expiry of the timer: the window after it, and the rounds that `vr_ur` made. -/
theorem UmRxInv.after_timerExpired (inv : UmRxInv W st r h Q) {x : Nat}
    (hux : st.vrUx = x % (2 * W)) (hrx : r < x) (hxh : x ≤ h) (hwx : UmWaiting st (x - 1))
    (timer : Timer) :
    ∃ n timer' ux, UmRxInv W (timerExpired { st with reorderingTimer := timer }) (r + n) h Q ∧
      timerExpired { st with reorderingTimer := timer }
        = { (passRound false)^[n]
              { st with reorderingTimer := timer, pduLost := true, rxSdu := [] } with
            reorderingTimer := timer', vrUx := ux } ∧
      x ≤ r + n ∧ (∀ j, x ≤ j → j < r + n → UmWaiting st j) ∧ ¬UmWaiting st (r + n) := by
  have hW := inv.cases
  have hedge := inv.edge
  have hr := inv.r_le
  have hexp := inv.expiring hux hrx hxh hwx timer
  have hall₀ : ∀ j, UmWaiting { st with reorderingTimer := timer, pduLost := true, rxSdu := [] } j
      ↔ UmWaiting st j := fun j => Iff.rfl
  have htop : r < h →
      UmWaiting { st with reorderingTimer := timer, pduLost := true, rxSdu := [] } (h - 1) :=
        inv.top
  have heq₀ : timerExpired { st with reorderingTimer := timer }
      = startReordering { skipMissing st.rxMod
          { st with reorderingTimer := timer, pduLost := true, rxSdu := [] } with
          reorderingTimer := (skipMissing st.rxMod { st with
            reorderingTimer := timer, pduLost := true, rxSdu := [] }).reorderingTimer.stop } := rfl
  -- From here on only the state behind the reset of `rx_sdu` matters.
  generalize { st with reorderingTimer := timer, pduLost := true, rxSdu := [] } = s at *
  obtain ⟨n, hskip, hxn, hend, hall⟩ := umSkipMissing_eq st.rxMod hexp (by rw [inv.rxMod]; omega)
  obtain ⟨timer', ux, hf⟩ := umStartReordering_frame { skipMissing st.rxMod s with
    reorderingTimer := (skipMissing st.rxMod s).reorderingTimer.stop }
  have hmiss := hend.missing
  have hn := hend.r_le
  rw [hskip, hexp.waiting_iterate false hn (Nat.le_refl _) (by omega)] at hmiss
  refine ⟨n, timer', ux, ?_, by rw [heq₀, hf, hskip], hxn, ?_,
    fun hw => hmiss ((hall₀ _).mpr hw)⟩
  · rw [heq₀]
    refine @UmWindow.inv_startReordering W (r + n) h _ Q (hend.toUmWindow.of_eq rfl rfl) (by omega)
      hend.missing ?_ (Timer.isRunning_stop _)
    intro hlt
    show UmWaiting (skipMissing st.rxMod s) (h - 1)
    rw [hskip]
    exact (hexp.waiting_iterate false hn (by omega) (by omega)).mpr (htop (by omega))
  · intro j hxj hj
    exact (hall₀ j).mp (hall j hxj (by omega) hj)

/-- The SN of a header that is read is below the modulus. -/
theorem umReadDataPduHeader_sn_lt {snSize : UmdSnSize} {payload buf : Bytes}
    {header : UmdPduHeader} (hread : readDataPduHeader snSize payload = some (header, buf)) :
    header.sn < 2 * umWidth snSize := by
  obtain ⟨⟨ext, fixed, rest⟩, hfixed, hrest⟩ :=
    Option.bind_eq_some_iff.mp (readDataPduHeader_eq_some_iff.mp hread).1
  -- The length indicators do not touch the SN of the fixed part.
  have hsn : header.sn = fixed.sn := by
    simp only at hrest
    split at hrest
    · obtain ⟨rfl, -⟩ := Prod.mk.inj (Option.some.inj hrest)
      rfl
    · obtain ⟨⟨li, rest'⟩, -, hli⟩ := Option.bind_eq_some_iff.mp hrest
      obtain ⟨rfl, -⟩ := Prod.mk.inj (Option.some.inj hli)
      rfl
  rw [hsn]
  match snSize, payload, hfixed with
  | .size5Bits, b0 :: _, hfixed =>
    obtain ⟨-, rfl, -⟩ := by simpa [readFixedPart] using hfixed
    exact Nat.and_lt_two_pow b0.toNat (show 0x1F < 2 ^ 5 by decide)
  | .size10Bits, b0 :: b1 :: _, hfixed =>
    obtain ⟨-, rfl, -⟩ := by simpa [readFixedPart] using hfixed
    refine Nat.or_lt_two_pow (n := 10) ?_ ?_
    · have := Nat.and_lt_two_pow b0.toNat (show 0x03 < 2 ^ 2 by decide)
      rw [Nat.shiftLeft_eq]
      omega
    · have := Nat.and_lt_two_pow b1.toNat (show 0xFF < 2 ^ 8 by decide)
      omega

end

end SrsUE.Proofs.Rlc
