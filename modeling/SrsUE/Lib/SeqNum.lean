import Mathlib.Tactic.Common

/-!
# `SrsUE.Lib.SeqNum`: sequence numbers as truncated indices

A protocol numbers its units with absolute indices `0, 1, 2, …` and sends only the index
modulo `m`. `modDist m a b` is the difference `a - b` of two such numbers, taken modulo
`m`: the distance one walks upwards from `b` to reach `a`. The theorems say when this
distance recovers the difference of the absolute indices:

* `modDist_of_le`: `a` at most `m - 1` above `b`;
* `modDist_of_lt`: `a` below `b`, by less than `m`;
* `eq_of_mod_eq`: two indices less than `m` apart with equal truncations are equal;
* `add_modDist_mod`: the distance added to `b` gives back `a`.

Nothing here mentions a window size. A window of size `w` is the condition
`modDist m a b < w`, and `modDist_lt_iff` reads it back on the absolute indices.
-/

set_option autoImplicit false

namespace SrsUE.Lib

/-- The difference `a - b` modulo `m`. -/
def modDist (m a b : Nat) : Nat := (a + (m - b % m)) % m

/-- A distance is below the modulus. -/
theorem modDist_lt {m : Nat} (hm : 0 < m) (a b : Nat) : modDist m a b < m :=
  Nat.mod_lt _ hm

/-- `a` is not below `b` and less than `m` above it: the distance is the difference. -/
theorem modDist_of_le {m a b : Nat} (hba : b ≤ a) (hab : a < b + m) :
    modDist m (a % m) (b % m) = a - b := by
  have hm : 0 < m := by omega
  obtain ⟨d, rfl⟩ := Nat.exists_eq_add_of_le hba
  have hd : d < m := by omega
  have hbm : b % m < m := Nat.mod_lt _ hm
  unfold modDist
  rw [Nat.mod_mod, Nat.mod_add_mod]
  have hsum : b + d + (m - b % m) = d + m * (b / m + 1) := by
    have hdiv := Nat.div_add_mod b m
    rw [Nat.mul_add, Nat.mul_one]
    omega
  rw [hsum, Nat.add_mul_mod_self_left, Nat.mod_eq_of_lt hd]
  omega

/-- `a` is below `b` by less than `m`: the distance wraps around. -/
theorem modDist_of_lt {m a b : Nat} (hab : a < b) (hba : b < a + m) :
    modDist m (a % m) (b % m) = m - (b - a) := by
  have h := modDist_of_le (m := m) (a := a + m) (b := b) (by omega) (by omega)
  rw [Nat.add_mod_right] at h
  rw [h]
  omega

/-- The distance to itself is zero. -/
@[simp] theorem modDist_self {m : Nat} (hm : 0 < m) (a : Nat) : modDist m a a = 0 := by
  have hsum : a + (m - a % m) = m * (a / m + 1) := by
    have hdiv := Nat.div_add_mod a m
    have hlt : a % m < m := Nat.mod_lt _ hm
    rw [Nat.mul_add, Nat.mul_one]
    omega
  rw [modDist, hsum, Nat.mul_mod_right]

/-- The window test on truncated indices, read on the absolute ones: an index within `m`
of `b` on either side is inside the window `[b, b + w)` exactly when its distance is
below `w`. -/
theorem modDist_lt_iff {m w a b : Nat} (hw : 2 * w ≤ m) (hlo : b ≤ a + w) (hhi : a < b + w) :
    modDist m (a % m) (b % m) < w ↔ b ≤ a := by
  rcases Nat.lt_or_ge a b with hlt | hge
  · rw [modDist_of_lt hlt (by omega)]
    omega
  · rw [modDist_of_le hge (by omega)]
    omega

/-- Two indices less than `m` apart are equal when their truncations are. -/
theorem eq_of_mod_eq {m a b : Nat} (h : a % m = b % m) (hab : a < b + m) (hba : b < a + m) :
    a = b := by
  rcases Nat.lt_or_ge a b with hlt | hge
  · have hd := modDist_of_lt hlt hba
    rw [h, modDist_self (by omega)] at hd
    omega
  · have hd := modDist_of_le hge hab
    rw [h, modDist_self (by omega)] at hd
    omega

/-- Walking the distance from `b` up leads to `a`. -/
theorem add_modDist_mod {m : Nat} (hm : 0 < m) (a b : Nat) :
    (b + modDist m a (b % m)) % m = a % m := by
  have hlt : b % m < m := Nat.mod_lt _ hm
  have hsum : b + (a + (m - b % m)) = a + m * (b / m + 1) := by
    have hdiv := Nat.div_add_mod b m
    rw [Nat.mul_add, Nat.mul_one]
    omega
  rw [modDist, Nat.mod_mod, Nat.add_mod_mod, hsum, Nat.add_mul_mod_self_left]

end SrsUE.Lib
