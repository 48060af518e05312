import Mathlib.Tactic.Common

/-!
# `SrsUE.Phy.RarGrant`: the uplink grant of a random access response

The part of `phch_common` (`phch_common.cc`) that keeps the grant of a random access response until
the subframe it is for. The layout of the grant belongs to the srslte library, which is not part of
the repository: a grant is of any type, with the one field that is looked at here.
-/

set_option autoImplicit false

namespace SrsUE.Phy

/-- `srslte_dci_rar_grant_unpack`, and the field `ul_delay` of a `srslte_dci_rar_grant_t`. -/
structure SrslteDci (Γ : Type) where
  rarGrantUnpack : List UInt8 → Γ
  ulDelay : Γ → Bool

variable {Γ : Type}

/-- The grant that `phch_common` keeps. -/
structure PendingRar (Γ : Type) where
  rarGrant : Γ
  rarGrantPending : Bool := false
  rarGrantTti : Nat := 0
deriving DecidableEq, Repr

namespace PendingRar

/-- The subframes from the response to the one that `phch_worker` takes the grant in. The PUSCH is
four subframes later. -/
def grantDelay (ulDelay : Bool) : Nat := if ulDelay then 3 else 2

/-- `set_rar_grant` -/
def setRarGrant (L : SrslteDci Γ) (_ : PendingRar Γ) (tti : Nat) (grantPayload : List UInt8) :
    PendingRar Γ :=
  let grant := L.rarGrantUnpack grantPayload
  { rarGrant := grant, rarGrantPending := true
    rarGrantTti := (tti + grantDelay (L.ulDelay grant)) % 10240 }

/-- The condition of `get_pending_rar`. The last comparison is with the flag, not with the TTI. -/
def rarDue (s : PendingRar Γ) (tti : Nat) : Bool :=
  s.rarGrantPending &&
    (decide (s.rarGrantTti ≤ tti) ||
      (decide (tti < 10) && decide (10235 < s.rarGrantPending.toNat)))

/-- `get_pending_rar` with a place for the grant: what it copies there when it returns true. Without
one it returns `rarDue`, and the grant stays. -/
def getPendingRar (s : PendingRar Γ) (tti : Nat) : PendingRar Γ × Option Γ :=
  if s.rarDue tti then ({ s with rarGrantPending := false }, some s.rarGrant) else (s, none)

end PendingRar

end SrsUE.Phy
