import Mathlib.Tactic.Common

/-!
# `SrsUE.Phy.RntiSearch`: the RNTI the downlink workers look for

The part of `phch_common` (`phch_common.cc`) that holds the downlink RNTI search: the RNTI, its
type, and the first and the last subframe of the search, as the MAC sets them through
`phy::pdcch_dl_search`. In the comment of `phch_common.h`, -1 means now or forever.
-/

set_option autoImplicit false

namespace SrsUE.Phy

/-- The RNTI types of `srslte_rnti_type_t` that the repository names. -/
inductive RntiType
  | user
  | temp
  | rar
  | si
  | pch
deriving DecidableEq, Repr

/-- The downlink search of `phch_common`. -/
structure PhchCommon where
  dlRnti : Nat
  dlRntiType : RntiType
  dlRntiStart : Int
  dlRntiEnd : Int
deriving DecidableEq, Repr

namespace PhchCommon

/-- `set_dl_rnti`, which `phy::pdcch_dl_search` calls with the arguments it gets. -/
def setDlRnti (_ : PhchCommon) (type : RntiType) (rntiValue : Nat) (ttiStart ttiEnd : Int) :
    PhchCommon :=
  { dlRnti := rntiValue, dlRntiType := type, dlRntiStart := ttiStart, dlRntiEnd := ttiEnd }

/-- `phy::pdcch_dl_search_reset` -/
def dlSearchReset (p : PhchCommon) : PhchCommon := p.setDlRnti .user 0 (-1) (-1)

/-- `mac::bcch_start_rx`, with the value of `SRSLTE_SIRNTI`. `pdcch_dl_search` has -1 as its default
for the end. -/
def bcchStartRx (p : PhchCommon) (sirnti : Nat) (siWindowStart siWindowLength : Int) : PhchCommon :=
  if siWindowLength ≥ 0 ∧ siWindowStart ≥ 0 then
    p.setDlRnti .si sirnti siWindowStart (siWindowStart + siWindowLength)
  else p.setDlRnti .si sirnti siWindowStart (-1)

/-- The outer condition of `dl_rnti_active`. -/
def inDlWindow (p : PhchCommon) (tti : Nat) : Bool :=
  ((tti : Int) ≥ p.dlRntiStart && p.dlRntiStart ≥ 0 || p.dlRntiStart < 0) &&
    ((tti : Int) < p.dlRntiEnd && p.dlRntiEnd ≥ 0 || p.dlRntiEnd < 0)

/-- The subframes that `dl_rnti_active` leaves out for system information other than SIB1. -/
def skipsSubframe5 (p : PhchCommon) (tti : Nat) : Bool :=
  p.dlRntiType = .si && p.dlRntiEnd - p.dlRntiStart > 1 && (tti / 10) % 2 = 0 && tti % 10 = 5

/-- `dl_rnti_active` -/
def dlRntiActive (p : PhchCommon) (tti : Nat) : Bool :=
  if p.inDlWindow tti then !p.skipsSubframe5 tti else false

/-- `get_dl_rnti` -/
def getDlRnti (p : PhchCommon) (tti : Nat) : Nat := if p.dlRntiActive tti then p.dlRnti else 0

end PhchCommon

end SrsUE.Phy
