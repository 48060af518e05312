import SrsUE.Phy.RarGrant

/-!
# `SrsUE.Proofs.Phy.RarGrantUse`: the subframe that takes a random access grant

The workers ask for the grant in consecutive subframes, of which some may be left out. The subframe
that should take it is the first one that asks from `rar_grant_tti` on, in the cyclic order of the
TTIs. `get_pending_rar` gives it to the first one whose TTI is not below `rar_grant_tti` as a
number.

* `takenOnTime_iff`: when the two are the same.

Subframes are counted from the response on: the one with the number `i` has TTI `t0 + i`, modulo
10240.
-/

set_option autoImplicit false

namespace SrsUE.Proofs.Phy

open SrsUE.Phy

/-! ### The first of some numbers -/

/-- `i` is the first positive number with `P`. -/
def IsFirst (P : Nat → Prop) (i : Nat) : Prop := 1 ≤ i ∧ P i ∧ ∀ j, 1 ≤ j → j < i → ¬P j

/-- What holds at some time holds at a first one. -/
theorem exists_isFirst {P : Nat → Prop} {i : Nat} (hi : 1 ≤ i) (h : P i) :
    ∃ k, k ≤ i ∧ IsFirst P k := by
  induction i using Nat.strongRecOn with
  | ind i ih =>
    by_cases hearlier : ∃ j, 1 ≤ j ∧ j < i ∧ P j
    · obtain ⟨j, hj, hlt, hp⟩ := hearlier
      obtain ⟨k, hle, hk⟩ := ih j hlt hj hp
      exact ⟨k, by omega, hk⟩
    · exact ⟨i, Nat.le_refl i, hi, h, fun j hj hlt hp => hearlier ⟨j, hj, hlt, hp⟩⟩

/-- Properties that agree up to a number with one of them have the same first number. -/
theorem isFirst_congr {P Q : Nat → Prop} {n : Nat} (hpos : 1 ≤ n) (hn : Q n)
    (h : ∀ j, 1 ≤ j → j ≤ n → (P j ↔ Q j)) (i : Nat) : IsFirst P i ↔ IsFirst Q i := by
  by_cases hi : i ≤ n
  · refine and_congr_right fun h1 => and_congr (h i h1 hi) ?_
    refine forall_congr' fun j => imp_congr_right fun hj => imp_congr_right fun hlt => ?_
    exact not_congr (h j hj (by omega))
  · refine iff_of_false (fun hp => ?_) (fun hq => ?_)
    · exact hp.2.2 n hpos (by omega) ((h n hpos (Nat.le_refl n)).mpr hn)
    · exact hq.2.2 n hpos (by omega) hn

/-! ### The calls -/

section
variable {Γ : Type}

/-- `phch_common` after the subframe with the number `i`, in which `get_pending_rar` is called if
`polled i`. -/
def afterPolls (t0 : Nat) (polled : Nat → Bool) (s : PendingRar Γ) : Nat → PendingRar Γ
  | 0 => s
  | i + 1 =>
    if polled (i + 1) then
      ((afterPolls t0 polled s i).getPendingRar ((t0 + (i + 1)) % 10240)).1
    else afterPolls t0 polled s i

/-- What the subframe with the number `i` gets. -/
def taken (t0 : Nat) (polled : Nat → Bool) (s : PendingRar Γ) (i : Nat) : Option Γ :=
  if polled i then ((afterPolls t0 polled s (i - 1)).getPendingRar ((t0 + i) % 10240)).2 else none

/-- The calls find the grant that `set_rar_grant` has left. -/
def Finds (t0 : Nat) (polled : Nat → Bool) (s : PendingRar Γ) (i : Nat) : Prop :=
  polled i = true ∧ s.rarGrantTti ≤ (t0 + i) % 10240

variable {t0 : Nat} {polled : Nat → Bool} {s : PendingRar Γ}

/-- A grant is due when it is pending and its TTI has come. -/
theorem rarDue_eq (s : PendingRar Γ) (tti : Nat) :
    s.rarDue tti = (s.rarGrantPending && decide (s.rarGrantTti ≤ tti)) := by
  have hflag : ¬10235 < s.rarGrantPending.toNat := by cases s.rarGrantPending <;> decide
  rw [PendingRar.rarDue, decide_eq_false hflag, Bool.and_false, Bool.or_false]

/-- The grant is there until the first call that finds it. -/
theorem afterPolls_eq (t0 : Nat) (polled : Nat → Bool) (hs : s.rarGrantPending = true) (i : Nat) :
    ((∀ j, 1 ≤ j → j ≤ i → ¬Finds t0 polled s j) ∧ afterPolls t0 polled s i = s) ∨
      ((∃ j, 1 ≤ j ∧ j ≤ i ∧ Finds t0 polled s j) ∧
        (afterPolls t0 polled s i).rarGrantPending = false) := by
  induction i with
  | zero => exact .inl ⟨fun j hj hle => by omega, rfl⟩
  | succ i ih =>
    rw [afterPolls]
    obtain ⟨hnone, hsame⟩ | ⟨⟨j, hj, hle, hfinds⟩, hgone⟩ := ih
    · rw [hsame]
      by_cases hfinds : Finds t0 polled s (i + 1)
      · refine .inr ⟨⟨i + 1, by omega, Nat.le_refl _, hfinds⟩, ?_⟩
        obtain ⟨hpoll, htti⟩ := hfinds
        rw [if_pos hpoll, PendingRar.getPendingRar, rarDue_eq, hs, Bool.true_and,
          if_pos (decide_eq_true htti)]
      · refine .inl ⟨fun j hj hle => ?_, ?_⟩
        · rcases Nat.lt_or_ge j (i + 1) with hlt | hge
          · exact hnone j hj (by omega)
          · rwa [show j = i + 1 by omega]
        · by_cases hpoll : polled (i + 1) = true
          · have htti : ¬s.rarGrantTti ≤ (t0 + (i + 1)) % 10240 := fun h => hfinds ⟨hpoll, h⟩
            rw [if_pos hpoll, PendingRar.getPendingRar, rarDue_eq, hs, Bool.true_and,
              if_neg (by rwa [decide_eq_true_eq])]
          · rw [if_neg hpoll]
    · refine .inr ⟨⟨j, hj, by omega, hfinds⟩, ?_⟩
      split
      · rw [PendingRar.getPendingRar, rarDue_eq, hgone, Bool.false_and,
          if_neg Bool.false_ne_true]
        exact hgone
      · exact hgone

/-- The first call that finds the grant gets it, and no other call gets anything. -/
theorem taken_eq (hs : s.rarGrantPending = true) {i : Nat} (hi : 1 ≤ i) (g : Γ) :
    taken t0 polled s i = some g ↔ IsFirst (Finds t0 polled s) i ∧ g = s.rarGrant := by
  obtain ⟨i, rfl⟩ : ∃ k, i = k + 1 := ⟨i - 1, by omega⟩
  rw [taken, Nat.add_sub_cancel]
  by_cases hpoll : polled (i + 1) = true
  · rw [if_pos hpoll, PendingRar.getPendingRar, rarDue_eq]
    obtain ⟨hnone, hsame⟩ | ⟨⟨j, hj, hle, hfinds⟩, hgone⟩ := afterPolls_eq t0 polled hs i
    · rw [hsame, hs, Bool.true_and]
      by_cases htti : s.rarGrantTti ≤ (t0 + (i + 1)) % 10240
      · rw [if_pos (decide_eq_true htti)]
        have hfirst : IsFirst (Finds t0 polled s) (i + 1) :=
          ⟨hi, ⟨hpoll, htti⟩, fun j hj hlt => hnone j hj (by omega)⟩
        rw [and_iff_right hfirst, Option.some.injEq, eq_comm]
      · rw [if_neg (by rwa [decide_eq_true_eq])]
        exact iff_of_false (fun h => by cases h) fun h => htti h.1.2.1.2
    · rw [hgone, Bool.false_and, if_neg Bool.false_ne_true]
      refine iff_of_false (fun h => by cases h) (fun h => ?_)
      exact h.1.2.2 j hj (by omega) hfinds
  · rw [if_neg hpoll]
    exact iff_of_false (fun h => by cases h) fun h => hpoll h.1.2.1.1

end

/-! ### The subframe that should take it -/

/-- No more than four subframes in a row are left out. -/
def PollsOften (polled : Nat → Bool) : Prop := ∀ i, 1 ≤ i → ∃ j, i ≤ j ∧ j ≤ i + 4 ∧ polled j = true

section
variable {Γ : Type}

/-- After `set_rar_grant` at `t0` the grant is taken once, in the first subframe that asks from
`rar_grant_tti` on. This one comes `grantDelay` subframes after the response. -/
def TakenOnTime (L : SrslteDci Γ) (s : PendingRar Γ) (payload : List UInt8) (t0 : Nat)
    (polled : Nat → Bool) : Prop :=
  ∀ i g, 1 ≤ i →
    (taken t0 polled (s.setRarGrant L t0 payload) i = some g ↔
      IsFirst
          (fun j => polled j = true ∧
            PendingRar.grantDelay (L.ulDelay (L.rarGrantUnpack payload)) ≤ j) i ∧
        g = L.rarGrantUnpack payload)

/-- A subframe asks between `rar_grant_tti` and the wrap of the TTI; or `rar_grant_tti` is behind
the wrap, and no subframe in front of the wrap asks. -/
def AsksBeforeWrap (delay t0 : Nat) (polled : Nat → Bool) : Prop :=
  if t0 + delay < 10240 then ∃ i, delay ≤ i ∧ t0 + i < 10240 ∧ polled i = true
  else ∀ i, 1 ≤ i → t0 + i < 10240 → polled i = false

/-- The two subframes agree exactly when the wrap does not come between. -/
theorem isFirst_iff {delay t0 : Nat} {polled : Nat → Bool} (hdelay : delay = 2 ∨ delay = 3)
    (ht0 : t0 < 10240) (hoften : PollsOften polled) :
    (∀ i, IsFirst (fun j => polled j = true ∧ (t0 + delay) % 10240 ≤ (t0 + j) % 10240) i ↔
        IsFirst (fun j => polled j = true ∧ delay ≤ j) i) ↔ AsksBeforeWrap delay t0 polled := by
  -- The first subframe that asks from `rar_grant_tti` on comes within four subframes.
  obtain ⟨n, hn, hnear, hpoll⟩ := hoften delay (by omega)
  rw [AsksBeforeWrap]
  constructor
  · intro h
    split
    · rename_i hwrap
      obtain ⟨k, hk, hfirst⟩ := exists_isFirst
        (P := fun j => polled j = true ∧ delay ≤ j) (show 1 ≤ n by omega) ⟨hpoll, hn⟩
      obtain ⟨-, ⟨hpollk, hle⟩, -⟩ := (h k).mpr hfirst
      have hdelayk := hfirst.2.1.2
      exact ⟨k, hdelayk, by omega, hpollk⟩
    · rename_i hwrap
      intro i hi hlt
      by_contra hpolli
      -- In front of the wrap every TTI is larger than `rar_grant_tti`.
      obtain ⟨k, hk, hfirst⟩ := exists_isFirst
        (P := fun j => polled j = true ∧ (t0 + delay) % 10240 ≤ (t0 + j) % 10240) hi
        ⟨by simpa using hpolli, by omega⟩
      have hdelayk := ((h k).mp hfirst).2.1.2
      omega
  · intro h
    split at h
    · obtain ⟨m, hm, hlt, hpollm⟩ := h
      refine isFirst_congr (show 1 ≤ m by omega) ⟨hpollm, hm⟩ fun j hj hle => ?_
      refine and_congr_right fun _ => ?_
      omega
    · refine isFirst_congr (show 1 ≤ n by omega) ⟨hpoll, hn⟩ fun j hj hle => ?_
      by_cases hlt : t0 + j < 10240
      · rw [h j hj hlt]
        exact iff_of_false (fun hp => Bool.false_ne_true hp.1) fun hq => Bool.false_ne_true hq.1
      · refine and_congr_right fun _ => ?_
        omega

/-- It is taken on time exactly when PHY asks before the TTI wraps. -/
theorem takenOnTime_iff (L : SrslteDci Γ) (s : PendingRar Γ) (payload : List UInt8) {t0 : Nat}
    {polled : Nat → Bool} (ht0 : t0 < 10240) (hoften : PollsOften polled) :
    TakenOnTime L s payload t0 polled ↔
      AsksBeforeWrap (PendingRar.grantDelay (L.ulDelay (L.rarGrantUnpack payload))) t0 polled := by
  have hdelay : PendingRar.grantDelay (L.ulDelay (L.rarGrantUnpack payload)) = 2 ∨
      PendingRar.grantDelay (L.ulDelay (L.rarGrantUnpack payload)) = 3 := by
    cases L.ulDelay (L.rarGrantUnpack payload)
    · exact .inl rfl
    · exact .inr rfl
  rw [← isFirst_iff hdelay ht0 hoften]
  constructor
  · intro h i
    by_cases hi : 1 ≤ i
    · have htaken := h i (L.rarGrantUnpack payload) hi
      rw [taken_eq rfl hi] at htaken
      exact (and_iff_left rfl).symm.trans (htaken.trans (and_iff_left rfl))
    · exact iff_of_false (fun hp => hi hp.1) fun hq => hi hq.1
  · intro h i g hi
    rw [taken_eq rfl hi]
    exact and_congr_left fun _ => h i

end

/-- Grants with a delay, of one kind. -/
def delayedGrants : SrslteDci Unit := { rarGrantUnpack := fun _ => (), ulDelay := fun _ => true }

/-- A response in TTI 100, and a call in every subframe. -/
theorem takenOnTime_iff_noWrap :
    TakenOnTime delayedGrants { rarGrant := () } [] 100 fun _ => true := by
  refine (takenOnTime_iff delayedGrants { rarGrant := () } [] (by decide) fun i _ =>
    ⟨i, Nat.le_refl i, Nat.le_add_right i 4, rfl⟩).mpr ?_
  exact ⟨3, Nat.le_refl 3, by decide, rfl⟩

/-- A response in TTI 10238: the grant is for TTI 1, and TTI 10239 takes it. -/
theorem not_takenOnTime_wrap :
    ¬TakenOnTime delayedGrants { rarGrant := () } [] 10238 fun _ => true := by
  intro h
  obtain ⟨⟨-, ⟨-, hdelay⟩, -⟩, -⟩ := (h 1 () (Nat.le_refl 1)).mp (by decide)
  exact absurd hdelay (by decide)

end SrsUE.Proofs.Phy
