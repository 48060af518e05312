import SrsUE.Mac.Pdu

/-!
# `SrsUE.Proofs.Mac.BufferLevels`: the levels of a buffer status report

Table 6.1.3.1-1 of 36.321 gives each level its greatest buffer size: level `k` stands for the sizes
above `greatest (k - 1)`, up to `greatest k`. `btable` holds the same sizes one place further on,
with 5 in front and with 4667 in the place of 4677. `buff_size_table` compares with `<` where the
table asks for `≤`, so a size that is the greatest of its level gets the next one.

* `buffSizeTable_spec`: where the search in the table ends.
* `isLevel_iff`: the result is the level of the table exactly for a size that is not the greatest of
  its level and not between the two values of the wrong entry. It is monotone in any case, and takes
  every value.
-/

set_option autoImplicit false

namespace SrsUE.Proofs.Mac

open SrsUE.Mac

/-! ### Statements -/

/-- Table 6.1.3.1-1 of 36.321: the greatest buffer size of the levels 0 to 62. -/
def levelTable : List Nat :=
  [0, 10, 12, 14, 17, 19, 22, 26, 31, 36, 42, 49, 57, 67, 78, 91, 107, 125, 146, 171, 200, 234,
    274, 321, 376, 440, 515, 603, 706, 826, 967, 1132, 1326, 1552, 1817, 2127, 2490, 2915, 3413,
    3995, 4677, 5476, 6411, 7505, 8787, 10287, 12043, 14099, 16507, 19325, 22624, 26487, 31009,
    36304, 42502, 49759, 58255, 68201, 79846, 93479, 109439, 128125, 150000]

/-- The greatest size of a level. -/
def greatest (k : Nat) : Nat := levelTable.getD k 0

/-- `k` is the level of `b` in the table of the levels. -/
structure IsLevel (b k : Nat) : Prop where
  zero : k = 0 ↔ b = 0
  last : k = 63 ↔ 150000 < b
  between : 0 < b → b ≤ 150000 → greatest (k - 1) < b ∧ b ≤ greatest k

/-! ### The table -/

/-- The bounds of the source grow. -/
theorem btable_lt {i j : Nat} (hij : i < j) (hj : j < 64) : btable.getD i 0 < btable.getD j 0 := by
  have hsorted : btable.Pairwise (· < ·) := by decide +kernel
  have hlen : btable.length = 64 := rfl
  have hget := List.pairwise_iff_getElem.mp hsorted i j (by omega) (by omega) hij
  simpa only [List.getD_eq_getElem?_getD,
    List.getElem?_eq_getElem (show i < btable.length by omega),
    List.getElem?_eq_getElem (show j < btable.length by omega),
    Option.getD_some] using hget

/-- The order of two bounds is that of their places. -/
theorem lt_of_btable_lt {i j : Nat} (hi : i < 64) (hij : btable.getD i 0 < btable.getD j 0) :
    i < j := by
  by_contra hge
  rcases Nat.eq_or_lt_of_le (Nat.le_of_not_lt hge) with rfl | hlt
  · exact Nat.lt_irrefl _ hij
  · exact Nat.lt_asymm hij (btable_lt hlt hi)

/-- All entries but one are those of the standard. -/
theorem btable_eq_greatest {k : Nat} (hpos : 1 ≤ k) (hk : k ≤ 62) (hne : k ≠ 40) :
    btable.getD (k + 1) 0 = greatest k := by
  have hall : ∀ k : Fin 63, 1 ≤ k.val → k.val ≠ 40 → btable.getD (k + 1) 0 = greatest k := by
    decide +kernel
  exact hall ⟨k, by omega⟩ hpos hne

/-- The wrong entry is too small. -/
theorem btable_le_greatest {k : Nat} (hpos : 1 ≤ k) (hk : k ≤ 62) :
    btable.getD (k + 1) 0 ≤ greatest k := by
  by_cases hne : k = 40
  · subst hne
    decide
  · exact Nat.le_of_eq (btable_eq_greatest hpos hk hne)

/-- The order of two levels is that of their greatest sizes. -/
theorem lt_of_greatest_lt {i j : Nat} (hi : i < 63) (hij : greatest i < greatest j) : i < j := by
  have hsorted : levelTable.Pairwise (· < ·) := by decide +kernel
  have hlen : levelTable.length = 63 := rfl
  by_contra hge
  rcases Nat.eq_or_lt_of_le (Nat.le_of_not_lt hge) with rfl | hlt
  · exact Nat.lt_irrefl _ hij
  · have hget := List.pairwise_iff_getElem.mp hsorted j i (by omega) (by omega) hlt
    simp only [greatest, List.getD_eq_getElem?_getD,
      List.getElem?_eq_getElem (show i < levelTable.length by omega),
      List.getElem?_eq_getElem (show j < levelTable.length by omega), Option.getD_some] at hij
    omega

/-! ### The search -/

/-- The levels are numbered from 0 to 63. -/
theorem buffSizeTable_lt (n : Nat) : buffSizeTable n < 64 := by
  unfold buffSizeTable
  split
  · omega
  · split
    · omega
    · split
      · rename_i i hfind
        have hmem := List.mem_range.mp (List.mem_of_find?_eq_some hfind)
        omega
      · omega

/-- The search ends at the first bound that is greater than the size. -/
theorem buffSizeTable_spec {b : Nat} (hpos : 0 < b) (hle : b ≤ 150000) :
    1 ≤ buffSizeTable b ∧ buffSizeTable b ≤ 62 ∧
      (buffSizeTable b ≠ 1 → btable.getD (buffSizeTable b) 0 ≤ b) ∧
      (buffSizeTable b ≠ 62 → b < btable.getD (buffSizeTable b + 1) 0) := by
  rw [buffSizeTable, if_neg (Nat.ne_of_gt hpos), if_neg (Nat.not_lt.mpr hle)]
  split
  · rename_i i hfind
    obtain ⟨hlt, hmem, hbefore⟩ := List.find?_range_eq_some.mp hfind
    have hi := List.mem_range.mp hmem
    refine ⟨Nat.le_add_right 1 i, by omega, fun hne => ?_, fun _ => ?_⟩
    · obtain ⟨j, rfl⟩ : ∃ j, i = j + 1 := ⟨i - 1, by omega⟩
      have hprev := hbefore j (Nat.lt_succ_self j)
      rw [Bool.not_eq_true', decide_eq_false_iff_not, Nat.not_lt] at hprev
      rw [show 1 + (j + 1) = j + 2 by omega]
      exact hprev
    · rw [show 1 + i + 1 = i + 2 by omega]
      exact of_decide_eq_true hlt
  · -- No bound was greater, not even the last one.
    rename_i hfind
    have hlast := List.find?_range_eq_none.mp hfind 60 (by decide)
    rw [Bool.not_eq_true', decide_eq_false_iff_not, Nat.not_lt] at hlast
    exact ⟨by decide, Nat.le_refl 62, fun _ => hlast, fun hne => absurd rfl hne⟩

/-- Only an empty buffer has level 0. -/
theorem buffSizeTable_eq_zero {b : Nat} : buffSizeTable b = 0 ↔ b = 0 := by
  constructor
  · intro h
    by_contra hne
    rcases Nat.lt_or_ge 150000 b with hgt | hle
    · rw [buffSizeTable, if_neg hne, if_pos hgt] at h
      cases h
    · have hspec := (buffSizeTable_spec (Nat.pos_of_ne_zero hne) hle).1
      omega
  · rintro rfl
    rfl

/-- The last level is for sizes above 150000. -/
theorem buffSizeTable_eq_last {b : Nat} : buffSizeTable b = 63 ↔ 150000 < b := by
  constructor
  · intro h
    by_contra hle
    have hpos : 0 < b := by
      rw [Nat.pos_iff_ne_zero]
      rintro rfl
      cases h
    have hspec := (buffSizeTable_spec hpos (Nat.le_of_not_lt hle)).2.1
    omega
  · intro hgt
    rw [buffSizeTable, if_neg (by omega), if_pos hgt]

/-- A greater size has no smaller level. -/
theorem buffSizeTable_mono {b b' : Nat} (h : b ≤ b') : buffSizeTable b ≤ buffSizeTable b' := by
  rcases Nat.eq_zero_or_pos b with rfl | hpos
  · exact Nat.zero_le _
  rcases Nat.lt_or_ge 150000 b' with hgt | hle
  · rw [buffSizeTable_eq_last.mpr hgt]
    exact Nat.le_of_lt_succ (buffSizeTable_lt b)
  obtain ⟨-, hle62, hlower, -⟩ := buffSizeTable_spec hpos (Nat.le_trans h hle)
  obtain ⟨hone, -, -, hupper⟩ := buffSizeTable_spec (Nat.lt_of_lt_of_le hpos h) hle
  by_contra hlt
  -- The greater size would be below the bound that the smaller one has reached.
  have hreached := hlower (by omega)
  have hbelow := hupper (by omega)
  have hindex := lt_of_btable_lt (by omega)
    (Nat.lt_of_le_of_lt (Nat.le_trans hreached h) hbelow)
  omega

/-- A size of each level. -/
def sizeAt (k : Nat) : Nat := if k = 1 then 1 else if k = 63 then 150001 else btable.getD k 0

/-- Every level is that of some size. -/
theorem buffSizeTable_sizeAt : ∀ k : Fin 64, sizeAt k < 2 ^ 32 ∧ buffSizeTable (sizeAt k) = k := by
  decide +kernel

/-! ### Results -/

/-- The level is the one of the table exactly for sizes that are not the greatest of a level, and
not from 4667 to 4676, where `btable` has 4667 for 4677. It never falls, and each of the 64 levels
is taken. -/
theorem isLevel_iff (b : Nat) :
    (IsLevel b (buffSizeTable b) ↔
        (∀ k, 1 ≤ k → k ≤ 61 → b ≠ greatest k) ∧ ¬(4667 ≤ b ∧ b < 4677)) ∧
      (∀ b', b ≤ b' → buffSizeTable b ≤ buffSizeTable b') ∧
      ∀ k, k < 64 → ∃ b', b' < 2 ^ 32 ∧ buffSizeTable b' = k := by
  refine ⟨?_, fun b' => buffSizeTable_mono, fun k hk => ⟨_, buffSizeTable_sizeAt ⟨k, hk⟩⟩⟩
  constructor
  · intro h
    constructor
    · rintro k hone hle rfl
      have hpos : 0 < greatest k := by
        have hfirst := btable_le_greatest hone (by omega)
        have hzero := btable_lt (i := 0) (j := k + 1) (by omega) (by omega)
        omega
      have hmax : greatest k ≤ 150000 := by
        by_contra hgt
        have hlast : greatest 62 < greatest k := by
          rw [show greatest 62 = 150000 from rfl]
          omega
        have := lt_of_greatest_lt (by decide) hlast
        omega
      obtain ⟨hcone, hcle, -, hupper⟩ := buffSizeTable_spec hpos hmax
      obtain ⟨hlow, hhigh⟩ := h.between hpos hmax
      generalize buffSizeTable (greatest k) = c at *
      have hbelow := lt_of_greatest_lt (by omega) hlow
      -- The search ends at the next level.
      have hnext : greatest k < greatest c := by
        by_cases hc : c = 62
        · by_contra hge
          have heq : greatest k = greatest c := by omega
          rw [hc, show greatest 62 = 150000 from rfl] at heq
          have hlast : greatest 61 < greatest k := by
            rw [heq]
            decide
          have := lt_of_greatest_lt (by decide) hlast
          omega
        · exact Nat.lt_of_lt_of_le (hupper hc) (btable_le_greatest hcone hcle)
      have habove := lt_of_greatest_lt (by omega) hnext
      omega
    · rintro ⟨hge, hlt⟩
      obtain ⟨hcone, hcle, hlower, hupper⟩ := buffSizeTable_spec (b := b) (by omega) (by omega)
      have hlow := (h.between (by omega) (by omega)).1
      generalize buffSizeTable b = c at *
      have habove : c ≠ 62 → 41 < c + 1 := fun hne =>
        lt_of_btable_lt (by decide) (Nat.lt_of_le_of_lt hge (hupper hne))
      have hbelow : c ≠ 1 → c < 42 := fun hne =>
        lt_of_btable_lt (by omega) (Nat.lt_of_le_of_lt (hlower hne) (by
          show b < 5476
          omega))
      have hc : c = 41 := by omega
      subst hc
      have hbound : greatest 40 = 4677 := rfl
      rw [show 41 - 1 = 40 from rfl, hbound] at hlow
      omega
  · rintro ⟨hnot, hwrong⟩
    refine ⟨buffSizeTable_eq_zero, buffSizeTable_eq_last, fun hpos hmax => ?_⟩
    obtain ⟨hone, hle62, hlower, hupper⟩ := buffSizeTable_spec hpos hmax
    generalize buffSizeTable b = c at *
    constructor
    · by_cases hfirst : c = 1
      · subst hfirst
        exact hpos
      · have hle := hlower hfirst
        have hne := hnot (c - 1) (by omega) (by omega)
        by_cases hentry : c = 41
        · subst hentry
          have hbound : btable.getD 41 0 = 4667 := rfl
          have hgreatest : greatest (41 - 1) = 4677 := rfl
          omega
        · have heq := btable_eq_greatest (k := c - 1) (by omega) (by omega) (by omega)
          rw [show c - 1 + 1 = c by omega] at heq
          omega
    · by_cases hlast : c = 62
      · subst hlast
        exact hmax
      · exact Nat.le_trans (Nat.le_of_lt (hupper hlast)) (btable_le_greatest hone hle62)

/-- Ten bytes are level 1 of the table, and get level 2. -/
theorem not_isLevel : buffSizeTable 10 = 2 ∧ IsLevel 10 1 ∧ ¬IsLevel 10 (buffSizeTable 10) := by
  have htwo : buffSizeTable 10 = 2 := by decide +kernel
  refine ⟨htwo, ⟨by decide, by decide, by decide⟩, fun h => ?_⟩
  have hlower := (h.between (by decide) (by decide)).1
  rw [htwo] at hlower
  exact absurd hlower (by decide)

end SrsUE.Proofs.Mac
