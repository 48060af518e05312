import SrsUE.Mac.RaProc

/-!
# `SrsUE.Proofs.Phy.RntiWindow`: RNTI searches across the wrap of the TTI

TTIs are counted modulo 10240. A search that the MAC asks for from a TTI on and for a number of
subframes should be open in exactly the subframes whose distance from the start, modulo 10240, is
smaller than this number. `inDlWindow` compares linearly, with bounds that are not reduced.

* `window_iff`: when a search from a start to an end is open in the right subframes.
* `rntiWindows_iff`: the same for the search of `step_pdcch_setup` and that of `bcch_start_rx`.
* `not_searchExact_wrap`: windows that begin before the wrap and end behind it.
-/

set_option autoImplicit false

namespace SrsUE.Proofs.Phy

open SrsUE.Phy SrsUE.Mac

/-- The subframes of a search for `len` subframes from `start` on. -/
def InWindow (start len : Int) (t : Nat) : Prop := ((t : Int) - start) % 10240 < len

/-- A window that does not go beyond the last TTI before the wrap, or begins with TTI 0. -/
def Unwrapped (start len : Int) : Prop := len = 0 ∨ start = 0 ∨ start + len ≤ 10240

/-! ### The comparison -/

/-- A TTI is in the window when it is between the two ends that are set. -/
theorem inDlWindow_iff (p : PhchCommon) (t : Nat) :
    p.inDlWindow t = true ↔
      (p.dlRntiStart < 0 ∨ p.dlRntiStart ≤ t) ∧ (p.dlRntiEnd < 0 ∨ (t : Int) < p.dlRntiEnd) := by
  simp only [PhchCommon.inDlWindow, Bool.and_eq_true, Bool.or_eq_true, decide_eq_true_eq]
  omega

/-- A search with both bounds set is open in the right subframes exactly when its window does not
wrap. -/
theorem window_iff {start len : Int} (hstart : 0 ≤ start) (hlen : 0 ≤ len) :
    (∀ t : Nat, t < 10240 → ((start ≤ t ∧ (t : Int) < start + len) ↔ InWindow start len t)) ↔
      Unwrapped start len := by
  constructor
  · intro h
    by_contra hwrap
    simp only [Unwrapped, not_or, not_le] at hwrap
    obtain ⟨hlen0, hstart0, hend⟩ := hwrap
    by_cases hfull : 10240 ≤ len
    · -- Every subframe is in the window, and the search is not open in the first one.
      have h0 := h 0 (by omega)
      simp only [InWindow] at h0
      omega
    · -- The last subframe of the window lies behind the wrap, before the start.
      have hlast := h ((start + len - 1) % 10240).toNat (by omega)
      simp only [InWindow] at hlast
      omega
  · intro h t ht
    simp only [Unwrapped, InWindow] at h ⊢
    omega

/-! ### The response window -/

/-- What the PHY does at a call of the random access procedure. -/
def obey (phy : PhchCommon) : RaCall → PhchCommon
  | .pdcchDlSearch type rnti ttiStart ttiEnd => phy.setDlRnti type rnti ttiStart ttiEnd
  | .pdcchDlSearchReset => phy.dlSearchReset
  | _ => phy

/-- After `step_pdcch_setup`, whatever the PHY looked for before, it looks for the RA-RNTI in the
subframes of the response window. -/
def RaSearchExact (raTti w : Nat) : Prop :=
  ∀ (r : RaProc) (phy : PhchCommon) (t : Nat), r.responseWindowSize = w → t < 10240 →
    (((r.stepPdcchSetup raTti).calls.foldl obey phy).getDlRnti t = 1 + raTti % 10 ↔
      InWindow (raTti + 3) w t)

/-- The search that `step_pdcch_setup` leaves. -/
theorem foldl_obey_stepPdcchSetup (r : RaProc) (phy : PhchCommon) {raTti : Nat} (hra : 0 < raTti) :
    (r.stepPdcchSetup raTti).calls.foldl obey phy =
      ⟨1 + raTti % 10, .rar, raTti + 3, raTti + 3 + r.responseWindowSize⟩ := by
  have hpos : (raTti : Int) > 0 := by omega
  have hmod : ((raTti : Int) % 10).toNat = raTti % 10 := by omega
  simp only [RaProc.stepPdcchSetup, if_pos hpos, RaProc.call, List.foldl_append, List.foldl_cons,
    List.foldl_nil, obey, PhchCommon.setDlRnti, hmod]

/-- The RNTI is given inside of its window only. -/
theorem getDlRnti_rar (rnti : Nat) (start stop : Int) (t : Nat) (hrnti : rnti ≠ 0) :
    (PhchCommon.mk rnti .rar start stop).getDlRnti t = rnti ↔
      (PhchCommon.mk rnti .rar start stop).inDlWindow t = true := by
  have hskip : (PhchCommon.mk rnti .rar start stop).skipsSubframe5 t = false := rfl
  rw [PhchCommon.getDlRnti, PhchCommon.dlRntiActive, hskip]
  split <;> split <;> simp_all
  exact fun h => hrnti h.symm

/-- The search for a RAR is exact when its window does not wrap. -/
theorem raSearchExact_iff {raTti w : Nat} :
    RaSearchExact raTti w ↔ 0 < raTti ∧ Unwrapped (raTti + 3) w := by
  rcases Nat.eq_zero_or_pos raTti with rfl | hra
  · -- Nothing is set, and what was searched before stays.
    refine iff_of_false (fun h => ?_) (fun h => absurd h.1 (Nat.lt_irrefl 0))
    have hidle := h { responseWindowSize := w } ⟨0, .user, -1, -1⟩
    have hopen := h { responseWindowSize := w } ⟨1, .user, -1, -1⟩
    have h3 := (hidle 3 rfl (by omega)).not.mp (fun hrnti => absurd hrnti.symm Nat.one_ne_zero)
    have h2 := (hopen 2 rfl (by omega)).mp rfl
    simp only [InWindow] at h2 h3
    omega
  · have hwin := @window_iff ((raTti : Int) + 3) w (by omega) (by omega)
    rw [and_iff_right hra, ← hwin]
    have hopen : ∀ (r : RaProc) phy t, r.responseWindowSize = w →
        (((r.stepPdcchSetup raTti).calls.foldl obey phy).getDlRnti t = 1 + raTti % 10 ↔
          (raTti : Int) + 3 ≤ t ∧ (t : Int) < raTti + 3 + w) := by
      intro r phy t hw
      rw [foldl_obey_stepPdcchSetup r phy hra, getDlRnti_rar _ _ _ _ (by omega), inDlWindow_iff, hw]
      simp only
      omega
    constructor
    · intro h t ht
      rw [← hopen { responseWindowSize := w } ⟨0, .user, -1, -1⟩ t rfl]
      exact h { responseWindowSize := w } ⟨0, .user, -1, -1⟩ t rfl ht
    · intro h r phy t hw ht
      rw [hopen r phy t hw]
      exact h t ht

/-! ### System information -/

/-- After `bcch_start_rx`, the search is open in the subframes of the given window. The subframes
that are left out for system information are not looked at. -/
def BcchSearchExact (start len : Int) : Prop :=
  ∀ (phy : PhchCommon) (sirnti t : Nat), t < 10240 →
    ((phy.bcchStartRx sirnti start len).inDlWindow t = true ↔ InWindow start len t)

/-- When the search that `bcch_start_rx` sets is open in the right subframes. A negative start or
length leaves the search without an end. -/
def BcchFits (start len : Int) : Prop :=
  (0 ≤ start ∧ 0 ≤ len ∧ Unwrapped start len) ∨ (start < 0 ∧ 10240 ≤ len) ∨
    (len < 0 ∧ 10240 ≤ start)

/-- The search for system information is exact when its window fits. -/
theorem bcchSearchExact_iff (start len : Int) : BcchSearchExact start len ↔ BcchFits start len := by
  by_cases hset : len ≥ 0 ∧ start ≥ 0
  · obtain ⟨hlen, hstart⟩ := hset
    have hwin := window_iff hstart hlen
    have hopen : ∀ (phy : PhchCommon) sirnti t,
        ((phy.bcchStartRx sirnti start len).inDlWindow t = true ↔
          start ≤ t ∧ (t : Int) < start + len) := by
      intro phy sirnti t
      rw [inDlWindow_iff, PhchCommon.bcchStartRx, if_pos ⟨hlen, hstart⟩]
      simp only [PhchCommon.setDlRnti]
      omega
    have hfits : BcchFits start len ↔ Unwrapped start len := by
      simp only [BcchFits, Unwrapped]
      omega
    rw [hfits, ← hwin]
    constructor
    · intro h t ht
      rw [← hopen ⟨0, .user, -1, -1⟩ 0 t]
      exact h ⟨0, .user, -1, -1⟩ 0 t ht
    · intro h phy sirnti t ht
      rw [hopen phy sirnti t]
      exact h t ht
  · have hopen : ∀ (phy : PhchCommon) sirnti t,
        ((phy.bcchStartRx sirnti start len).inDlWindow t = true ↔ start < 0 ∨ start ≤ t) := by
      intro phy sirnti t
      rw [inDlWindow_iff, PhchCommon.bcchStartRx, if_neg hset]
      simp only [PhchCommon.setDlRnti]
      omega
    constructor
    · intro h
      -- The first and the last TTI, and the one before the start.
      have hfirst := h ⟨0, .user, -1, -1⟩ 0 0 (by omega)
      have hlast := h ⟨0, .user, -1, -1⟩ 0 10239 (by omega)
      have hbefore := h ⟨0, .user, -1, -1⟩ 0 ((start - 1) % 10240).toNat (by omega)
      rw [hopen] at hfirst hlast hbefore
      simp only [InWindow, BcchFits] at hfirst hlast hbefore ⊢
      omega
    · intro h phy sirnti t ht
      rw [hopen]
      simp only [InWindow, BcchFits, Unwrapped] at h ⊢
      omega

/-! ### Results -/

/-- Both searches are open in the right subframes exactly when their windows do not wrap. The
response window needs a positive TTI besides, since `step_pdcch_setup` takes TTI 0 for a PRACH that
has not been sent. -/
theorem rntiWindows_iff (raTti w : Nat) (start len : Int) :
    (RaSearchExact raTti w ↔ 0 < raTti ∧ (w = 0 ∨ raTti + 3 + w ≤ 10240)) ∧
      (BcchSearchExact start len ↔ BcchFits start len) := by
  refine ⟨?_, bcchSearchExact_iff start len⟩
  rw [raSearchExact_iff]
  simp only [Unwrapped]
  omega

/-- A PRACH at TTI 10236 with a response window of 10 subframes, and system information from TTI
10239 on for as many: the last nine subframes come after the wrap. -/
theorem not_searchExact_wrap : ¬RaSearchExact 10236 10 ∧ ¬BcchSearchExact 10239 10 := by
  constructor
  · intro h
    have h0 := (h { responseWindowSize := 10 } ⟨0, .user, -1, -1⟩ 0 rfl (by omega)).mpr
    exact absurd (h0 (by simp [InWindow])) (by decide)
  · intro h
    have h0 := (h ⟨0, .user, -1, -1⟩ 0 0 (by omega)).mpr
    exact absurd (h0 (by simp [InWindow])) (by decide)

end SrsUE.Proofs.Phy
