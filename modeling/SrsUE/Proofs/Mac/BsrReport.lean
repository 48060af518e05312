import SrsUE.Proofs.Mac.BsrGrant
import SrsUE.Proofs.Mac.Priorities

/-!
# `SrsUE.Proofs.Mac.BsrReport`: the format and the content of a buffer status report

A report is compared with `ChannelTable`, which has the group and the priority of every channel that
the mux has. `generate_bsr` knows six of them, counts channels where the formats depend on groups,
and `find_max_priority_lcid` reads the priority -1 of a channel that was not configured as the
largest one.

* `one_lt_nofLcg_iff`: when `nof_lcg` is larger than one.
* `buffSizes_eq_iff`: when the size of a group is the sum of the buffers of its channels.
* `report_iff`: the reports that are right, for any configuration and any buffers.
-/

set_option autoImplicit false

namespace SrsUE.Proofs.Mac

open SrsUE.Mac

/-! ### The channels -/

/-- The group and the priority of every channel, after `reset`. The smaller number is the higher
priority, and a channel begins with its own number, as in the mux. What `priorities` of the
procedure would hold for each channel is `stored`. -/
structure ChannelTable where
  group : Nat → Option Nat := fun l => if l = 0 then some 0 else none
  priority : Nat → Nat := id
  stored : Nat → Int := fun l => if l = 0 then 99 else -1

namespace ChannelTable

/-- A call for any channel. -/
def call (t : ChannelTable) : BsrProc.Call → ChannelTable
  | .setupLcg l g => if g < 4 then { t with group := Function.update t.group l (some g) } else t
  | .setPriority l p =>
    { t with
      priority := Function.update t.priority l p
      stored := Function.update t.stored l (toInt32 (p % 2 ^ 32)) }
  | .reset => {}

variable (t : ChannelTable) (rlc : Nat → Nat)

/-- The sum of the buffers of some channels that are in a group. -/
def sizeIn (lcids : List Nat) (g : Nat) : Nat :=
  ((lcids.filter fun l => t.group l = some g).map rlc).sum

/-- The size of a group. -/
def size (g : Nat) : Nat := t.sizeIn rlc (List.range nofUlLch) g

/-- The channel is in a group and has data. -/
def HasData (l : Nat) : Prop := l < nofUlLch ∧ (t.group l).isSome ∧ 0 < rlc l

/-- The number of groups that have data. -/
def nofGroups : Nat := ((List.range 4).filter fun g => 0 < t.size rlc g).length

/-- No channel with data has a higher priority, which is a smaller number. -/
def IsHighest (l : Nat) : Prop :=
  t.HasData rlc l ∧ ∀ l', t.HasData rlc l' → t.priority l ≤ t.priority l'

end ChannelTable

/-- The procedure after some calls. -/
def procAfter (calls : List BsrProc.Call) : BsrProc := calls.foldl BsrProc.call {}

/-- The table after some calls. -/
def tableAfter (calls : List BsrProc.Call) : ChannelTable := calls.foldl ChannelTable.call {}

/-- The arrays of the procedure are the first six entries of the table. -/
structure Restricts (b : BsrProc) (t : ChannelTable) : Prop where
  length_lcg : b.lcg.length = maxLcid
  length_priorities : b.priorities.length = maxLcid
  group : ∀ l < maxLcid, b.lcgOf l = match t.group l with
    | some g => (g : Int)
    | none => -1
  priority : ∀ l < maxLcid, b.priorityOf l = t.stored l
  valid : ∀ l g, t.group l = some g → g < 4

/-- The arrays and the table begin alike. -/
theorem restricts_reset : Restricts {} {} where
  length_lcg := rfl
  length_priorities := rfl
  group := by decide
  priority := by decide
  valid := by
    intro l g hg
    dsimp only at hg
    split at hg
    · obtain rfl := Option.some.inj hg
      decide
    · cases hg

/-- A call changes both alike, or the table only. -/
theorem Restricts.call {b : BsrProc} {t : ChannelTable} (h : Restricts b t) (c : BsrProc.Call) :
    Restricts (b.call c) (t.call c) := by
  -- The procedure ignores channels from 6 on, where the table goes on.
  obtain ⟨hlcg, hprios, hgroup, hprio, hvalid⟩ := h
  cases c with
  | setupLcg l g =>
    have htable : (t.call (.setupLcg l g)).stored = t.stored := by
      rw [ChannelTable.call]
      split <;> rfl
    have hgroup' : ∀ i, (t.call (.setupLcg l g)).group i
        = if l = i ∧ g < 4 then some g else t.group i := by
      intro i
      rw [ChannelTable.call]
      by_cases hg : g < 4
      · simp [hg, Function.update_apply, eq_comm]
      · simp [hg]
    refine ⟨(length_lcg_setupLcg b l g).trans hlcg,
      (congrArg _ (priorities_setupLcg b l g)).trans hprios, fun i hi => ?_, fun i hi => ?_,
      fun i g' hg' => ?_⟩
    · rw [hgroup', BsrProc.call, lcgOf_setupLcg hlcg l g hi]
      split
      · rfl
      · exact hgroup i hi
    · rw [htable, ← hprio i hi]
      exact congrArg (List.getD · i (-1)) (priorities_setupLcg b l g)
    · rw [hgroup'] at hg'
      split at hg'
      · rename_i hset
        exact Option.some.inj hg' ▸ hset.2
      · exact hvalid i g' hg'
  | setPriority l p =>
    refine ⟨(congrArg _ (lcg_setPriority b l p)).trans hlcg,
      (length_priorities_setPriority b l p).trans hprios, fun i hi => ?_, fun i hi => ?_, hvalid⟩
    · refine Eq.trans ?_ (hgroup i hi)
      exact congrArg (List.getD · i (-1)) (lcg_setPriority b l p)
    · rw [BsrProc.call, priorityOf_setPriority hprios l p hi, hprio i hi]
      show _ = Function.update t.stored l (toInt32 (p % 2 ^ 32)) i
      rw [Function.update_apply]
      simp only [eq_comm]
  | reset => exact restricts_reset

/-- They are alike after any calls. Induction on the calls. -/
theorem restricts_after (calls : List BsrProc.Call) :
    Restricts (procAfter calls) (tableAfter calls) := by
  induction calls using List.reverseRecOn with
  | nil => exact restricts_reset
  | append_singleton calls c ih =>
    rw [procAfter, tableAfter, List.foldl_append, List.foldl_append]
    exact ih.call c

section
variable {b : BsrProc} {t : ChannelTable} {rlc : Nat → Nat}

/-- The group of a channel that the procedure knows. -/
theorem Restricts.lcgOf_eq_iff (h : Restricts b t) {l g : Nat} (hl : l < maxLcid) :
    b.lcgOf l = (g : Int) ↔ t.group l = some g := by
  rw [h.group l hl]
  cases t.group l with
  | none => simp
  | some g' => simp only [Option.some.injEq]; omega

/-- Such a channel has a group in both or in neither. -/
theorem Restricts.lcgOf_nonneg_iff (h : Restricts b t) {l : Nat} (hl : l < maxLcid) :
    0 ≤ b.lcgOf l ↔ (t.group l).isSome := by
  rw [h.group l hl]
  cases t.group l with
  | none => simp
  | some g' => simp

/-! ### Sizes and numbers -/

/-- A group has data when a channel in it has. -/
theorem sizeIn_pos_iff {lcids : List Nat} {g : Nat} :
    0 < t.sizeIn rlc lcids g ↔ ∃ l ∈ lcids, t.group l = some g ∧ 0 < rlc l := by
  rw [ChannelTable.sizeIn, List.sum_pos_iff_exists_pos_nat]
  simp [and_assoc]

/-- A group has data when one of its channels has. -/
theorem size_pos_iff {g : Nat} :
    0 < t.size rlc g ↔ ∃ l, t.HasData rlc l ∧ t.group l = some g := by
  rw [ChannelTable.size, sizeIn_pos_iff]
  constructor
  · rintro ⟨l, hl, hg, hpos⟩
    exact ⟨l, ⟨List.mem_range.mp hl, by rw [hg]; rfl, hpos⟩, hg⟩
  · rintro ⟨l, ⟨hl, -, hpos⟩, hg⟩
    exact ⟨l, List.mem_range.mpr hl, hg, hpos⟩

/-- More than one group has data when two channels in different groups have. -/
theorem one_lt_nofGroups_iff (hvalid : ∀ l g, t.group l = some g → g < 4) :
    1 < t.nofGroups rlc ↔
      ∃ x y, t.HasData rlc x ∧ t.HasData rlc y ∧ t.group x ≠ t.group y := by
  rw [ChannelTable.nofGroups, one_lt_length_filter List.nodup_range]
  simp only [decide_eq_true_eq, size_pos_iff]
  constructor
  · rintro ⟨g, -, g', -, hne, ⟨x, hx, hgx⟩, ⟨y, hy, hgy⟩⟩
    exact ⟨x, y, hx, hy, by rw [hgx, hgy]; exact fun heq => hne (Option.some.inj heq)⟩
  · rintro ⟨x, y, hx, hy, hne⟩
    obtain ⟨g, hgx⟩ := Option.isSome_iff_exists.mp hx.2.1
    obtain ⟨g', hgy⟩ := Option.isSome_iff_exists.mp hy.2.1
    rw [hgx, hgy] at hne
    exact ⟨g, List.mem_range.mpr (hvalid x g hgx), g', List.mem_range.mpr (hvalid y g' hgy),
      fun heq => hne (congrArg some heq), ⟨x, hx, hgx⟩, ⟨y, hy, hgy⟩⟩

/-- Two channels that the procedure knows have data. -/
def TwoKnown (t : ChannelTable) (rlc : Nat → Nat) : Prop :=
  ∃ x < maxLcid, ∃ y < maxLcid, x ≠ y ∧ t.HasData rlc x ∧ t.HasData rlc y

/-- The procedure counts the channels with data that it knows. -/
theorem Restricts.one_lt_nofLcg_iff (h : Restricts b t) : 1 < b.nofLcg rlc ↔ TwoKnown t rlc := by
  have hdata : ∀ l < maxLcid, (b.lcgOf l ≥ 0 && rlc l > 0) = true ↔ t.HasData rlc l := by
    intro l hl
    rw [Bool.and_eq_true, decide_eq_true_eq, decide_eq_true_eq, ge_iff_le, h.lcgOf_nonneg_iff hl]
    exact ⟨fun hd => ⟨Nat.lt_trans hl (by decide), hd⟩, fun hd => hd.2⟩
  rw [BsrProc.nofLcg, one_lt_length_filter List.nodup_range]
  constructor
  · rintro ⟨x, hx, y, hy, hne, hpx, hpy⟩
    exact ⟨x, List.mem_range.mp hx, y, List.mem_range.mp hy, hne,
      (hdata x (List.mem_range.mp hx)).mp hpx, (hdata y (List.mem_range.mp hy)).mp hpy⟩
  · rintro ⟨x, hx, y, hy, hne, hdx, hdy⟩
    exact ⟨x, List.mem_range.mpr hx, y, List.mem_range.mpr hy, hne, (hdata x hx).mpr hdx,
      (hdata y hy).mpr hdy⟩

/-- The procedure knows every channel of the group that has data, and their sum is below 2^32. -/
def FullyKnown (t : ChannelTable) (rlc : Nat → Nat) (g : Nat) : Prop :=
  (∀ l, t.HasData rlc l → t.group l = some g → l < maxLcid) ∧ t.size rlc g < 2 ^ 32

/-- It reports the sum over the channels that it knows, modulo `2 ^ 32`. -/
theorem Restricts.buffSizes (h : Restricts b t) {g : Nat} (hg : g < 4) :
    (b.buffSizes rlc).toList.getD g 0 = t.sizeIn rlc (List.range maxLcid) g % 2 ^ 32 := by
  have hfilter : ((List.range maxLcid).filter fun i => b.lcgOf i = (g : Int))
      = (List.range maxLcid).filter fun i => t.group i = some g := by
    refine List.filter_congr fun l hl => ?_
    rw [decide_eq_decide]
    exact h.lcgOf_eq_iff (List.mem_range.mp hl)
  rw [ChannelTable.sizeIn, ← hfilter, List.getD_eq_getElem?_getD, BsrProc.buffSizes,
    Vector.getElem?_toList, Vector.getElem?_eq_getElem hg, Option.getD_some, Vector.getElem_ofFn]

/-- The size in a report is right when the procedure knows the channels. -/
theorem Restricts.buffSizes_eq_iff (h : Restricts b t) {g : Nat} (hg : g < 4) :
    (b.buffSizes rlc).toList.getD g 0 = t.size rlc g ↔ FullyKnown t rlc g := by
  -- The procedure sums the channels that it knows. The others must have nothing in this group, and
  -- the sum must not wrap.
  have hsplit : t.size rlc g = t.sizeIn rlc (List.range maxLcid) g
      + t.sizeIn rlc (List.range' maxLcid (nofUlLch - maxLcid)) g := by
    rw [ChannelTable.size, show List.range nofUlLch
      = List.range maxLcid ++ List.range' maxLcid (nofUlLch - maxLcid) from by decide]
    simp [ChannelTable.sizeIn]
  have hrest : t.sizeIn rlc (List.range' maxLcid (nofUlLch - maxLcid)) g = 0 ↔
      ∀ l, t.HasData rlc l → t.group l = some g → l < maxLcid := by
    rw [← Nat.le_zero, ← Nat.not_lt, sizeIn_pos_iff]
    constructor
    · intro hnone l hdata hgroup
      by_contra hge
      refine hnone ⟨l, List.mem_range'_1.mpr ⟨Nat.le_of_not_lt hge, ?_⟩, hgroup, hdata.2.2⟩
      have := hdata.1
      rw [Nat.add_sub_cancel' (by decide)]
      exact this
    · rintro hall ⟨l, hl, hgroup, hpos⟩
      obtain ⟨hge, hlt⟩ := List.mem_range'_1.mp hl
      rw [Nat.add_sub_cancel' (by decide)] at hlt
      have := hall l ⟨hlt, by rw [hgroup]; rfl, hpos⟩ hgroup
      omega
  rw [h.buffSizes hg, FullyKnown, ← hrest, hsplit]
  omega

/-! ### Reports -/

/-- The format and the content of a report of a type, for some bytes of padding. -/
structure ReportRight (t : ChannelTable) (rlc : Nat → Nat) (type : TriggeredBsrType) (n : Nat)
    (r : Bsr) :
    Prop where
  sums : r.format ≠ .truncBsr → ∀ g < 4, r.buffSize.toList.getD g 0 = t.size rlc g
  long : type = .regular ∨ type = .periodic → (r.format = .longBsr ↔ 1 < t.nofGroups rlc)
  truncated : type = .padding → n < 4 → (r.format = .truncBsr ↔ 1 < t.nofGroups rlc)
  highest : type = .padding → n < 4 → r.format = .truncBsr →
    ∃ l g, t.IsHighest rlc l ∧ t.group l = some g ∧ 0 < r.buffSize.toList.getD g 0 ∧
      ∀ g' < 4, r.buffSize.toList.getD g' 0 = if g' = g then t.size rlc g else 0

/-- A padding report gets the truncated format. -/
def Truncates (t : ChannelTable) (rlc : Nat → Nat) (type : TriggeredBsrType) (n : Nat) : Prop :=
  type = .padding ∧ n < 4 ∧ TwoKnown t rlc

/-- Two channels with data are in different groups. -/
def TwoGroups (t : ChannelTable) (rlc : Nat → Nat) : Prop :=
  ∃ x y, t.HasData rlc x ∧ t.HasData rlc y ∧ t.group x ≠ t.group y

/-- The condition under which a report is right. -/
structure ReportCondition (t : ChannelTable) (rlc : Nat → Nat) (type : TriggeredBsrType) (n : Nat) :
    Prop where
  groups : TwoKnown t rlc → type ≠ .none → (type = .padding → n < 4) → TwoGroups t rlc
  known : ¬Truncates t rlc type n → ∀ g < 4, FullyKnown t rlc g
  top : Truncates t rlc type n → ∃ m g l, IsTop t.stored m ∧ t.group m = some g ∧
    t.IsHighest rlc l ∧ t.group l = some g ∧ FullyKnown t rlc g

/-- The first channel with the largest priority depends on the priorities it compares. -/
theorem IsTop.congr {p q : Nat → Int} (h : ∀ l < maxLcid, p l = q l) {m : Nat} (hm : IsTop p m) :
    IsTop q m := by
  obtain ⟨hlt, hmax, hfirst⟩ := hm
  refine ⟨hlt, fun j hj => ?_, fun j hj => ?_⟩
  · rw [← h j hj, ← h m hlt]
    exact hmax j hj
  · rw [← h j (Nat.lt_trans hj hlt), ← h m hlt]
    exact hfirst j hj

/-- `find_max_priority_lcid` finds it in the arrays. -/
theorem Restricts.isTop (h : Restricts b t) : IsTop t.stored b.findMaxPriorityLcid :=
  (isTop_findMaxPriorityLcid b).congr h.priority

/-- The sizes in a truncated report. -/
theorem Restricts.truncated_size (h : Restricts b t) {g : Nat} (hg : g < 4) :
    (Vector.ofFn fun i : Fin 4 =>
        if b.lcgOf b.findMaxPriorityLcid ≠ (i.val : Int) then 0
        else (b.buffSizes rlc)[i.val]).toList.getD g 0
      = if t.group b.findMaxPriorityLcid = some g then (b.buffSizes rlc).toList.getD g 0
        else 0 := by
  rw [List.getD_eq_getElem?_getD, Vector.getElem?_toList, Vector.getElem?_eq_getElem hg,
    Option.getD_some, Vector.getElem_ofFn, List.getD_eq_getElem?_getD, Vector.getElem?_toList,
    Vector.getElem?_eq_getElem hg, Option.getD_some]
  simp only [ne_eq, ite_not, h.lcgOf_eq_iff h.isTop.1]

/-- The group of the channel with the highest priority has data. -/
theorem IsHighest.size_pos {l g : Nat} (h : t.IsHighest rlc l) (hg : t.group l = some g) :
    0 < t.size rlc g := size_pos_iff.mpr ⟨l, h.1, hg⟩

/-- When the procedure knows every channel with data, more than one group with data means two known
channels with data. -/
theorem twoKnown_of_twoGroups (hvalid : ∀ l g, t.group l = some g → g < 4)
    (hknown : ∀ g < 4, FullyKnown t rlc g) (h : TwoGroups t rlc) : TwoKnown t rlc := by
  obtain ⟨x, y, hx, hy, hne⟩ := h
  have hlt : ∀ l, t.HasData rlc l → l < maxLcid := by
    intro l hl
    obtain ⟨g, hg⟩ := Option.isSome_iff_exists.mp hl.2.1
    exact (hknown g (hvalid l g hg)).1 l hl hg
  exact ⟨x, hlt x hx, y, hlt y hy, fun heq => hne (congrArg t.group heq), hx, hy⟩

/-- A truncated report. -/
theorem Restricts.truncated_iff (h : Restricts b t) {n : Nat} {r : Bsr}
    (ht : Truncates t rlc .padding n) (hformat : r.format = .truncBsr)
    (hsize : ∀ g < 4, r.buffSize.toList.getD g 0
      = if t.group b.findMaxPriorityLcid = some g then (b.buffSizes rlc).toList.getD g 0 else 0) :
    ReportRight t rlc .padding n r ↔ ReportCondition t rlc .padding n := by
  obtain ⟨-, hn, htwo⟩ := ht
  have hgroups : 1 < t.nofGroups rlc ↔ TwoGroups t rlc := one_lt_nofGroups_iff h.valid
  constructor
  · rintro ⟨-, -, htrunc, hhighest⟩
    refine ⟨fun _ _ _ => hgroups.mp ((htrunc rfl hn).mp hformat), fun hnot =>
      absurd ⟨rfl, hn, htwo⟩ hnot,
      fun _ => ?_⟩
    obtain ⟨l, g, hl, hlg, hpos, hall⟩ := hhighest rfl hn hformat
    have hg := h.valid l g hlg
    rw [hsize g hg] at hpos
    -- A size that is not zero is that of the group of the chosen channel.
    have htop : t.group b.findMaxPriorityLcid = some g := by
      by_contra hne
      rw [if_neg hne] at hpos
      exact Nat.lt_irrefl 0 hpos
    have hsum := hall g hg
    rw [hsize g hg, if_pos htop, if_pos rfl] at hsum
    exact ⟨_, g, l, h.isTop, htop, hl, hlg, (h.buffSizes_eq_iff hg).mp hsum⟩
  · rintro ⟨htwoGroups, -, htop⟩
    obtain ⟨m, g, l, hm, hmg, hl, hlg, hfull⟩ := htop ⟨rfl, hn, htwo⟩
    obtain rfl := hm.unique h.isTop
    have hg := h.valid l g hlg
    have hsum := (h.buffSizes_eq_iff hg).mpr hfull
    refine ⟨fun hne => absurd hformat hne, fun htype => ?_, fun _ _ => ?_, fun _ _ _ => ?_⟩
    · rcases htype with htype | htype <;> cases htype
    · exact iff_of_true hformat (hgroups.mpr (htwoGroups htwo (by decide) fun _ => hn))
    · refine ⟨l, g, hl, hlg, ?_, fun g' hg' => ?_⟩
      · rw [hsize g hg, if_pos hmg, hsum]
        exact IsHighest.size_pos hl hlg
      · rw [hsize g' hg', hmg]
        by_cases heq : g' = g
        · subst heq
          rw [if_pos rfl, if_pos rfl, hsum]
        · rw [if_neg heq, if_neg (fun h' => heq (Option.some.inj h').symm)]

/-- A report that is not truncated. -/
theorem Restricts.full_iff (h : Restricts b t) {type : TriggeredBsrType} {n : Nat} {r : Bsr}
    (ht : ¬Truncates t rlc type n) (hformat : r.format ≠ .truncBsr)
    (hlong : type = .regular ∨ type = .periodic → (r.format = .longBsr ↔ TwoKnown t rlc))
    (hsize : r.buffSize = b.buffSizes rlc) :
    ReportRight t rlc type n r ↔ ReportCondition t rlc type n := by
  have hgroups : 1 < t.nofGroups rlc ↔ TwoGroups t rlc := one_lt_nofGroups_iff h.valid
  constructor
  · rintro ⟨hsums, hlong', -, -⟩
    have hknown : ∀ g < 4, FullyKnown t rlc g := fun g hg => (h.buffSizes_eq_iff hg).mp (by
      rw [← hsize]
      exact hsums hformat g hg)
    refine ⟨fun htwo hnone hpadding => ?_, fun _ => hknown, fun ht' => absurd ht' ht⟩
    -- Two known channels with data make a long report, whichever groups they are in.
    cases type with
    | none => exact absurd rfl hnone
    | padding => exact absurd ⟨rfl, hpadding rfl, htwo⟩ ht
    | regular => exact hgroups.mp ((hlong' (Or.inl rfl)).mp ((hlong (Or.inl rfl)).mpr htwo))
    | periodic => exact hgroups.mp ((hlong' (Or.inr rfl)).mp ((hlong (Or.inr rfl)).mpr htwo))
  · rintro ⟨htwoGroups, hknown, -⟩
    have hback : TwoGroups t rlc → TwoKnown t rlc := twoKnown_of_twoGroups h.valid (hknown ht)
    refine ⟨fun _ g hg => ?_, fun htype => ?_, fun htype hn => ?_, fun _ _ htrunc => ?_⟩
    · rw [hsize]
      exact (h.buffSizes_eq_iff hg).mpr (hknown ht g hg)
    · rw [hlong htype, hgroups]
      refine ⟨fun htwo => htwoGroups htwo ?_ ?_, hback⟩
      · rintro rfl
        rcases htype with htype | htype <;> cases htype
      · rintro rfl
        rcases htype with htype | htype <;> cases htype
    · refine iff_of_false hformat fun hmany => ht ⟨htype, hn, hback (hgroups.mp hmany)⟩
    · exact absurd htrunc hformat

/-- Which reports of `generate_bsr` are right. -/
theorem Restricts.right_iff (h : Restricts b t) (n : Nat) :
    ReportRight t rlc b.triggeredBsrType n (b.generateBsr rlc n) ↔
      ReportCondition t rlc b.triggeredBsrType n := by
  have hmany : b.nofLcg rlc > 1 ↔ TwoKnown t rlc := h.one_lt_nofLcg_iff
  -- The branches of `generate_bsr`. Only the truncated one needs a lemma of its own.
  by_cases hpadding : b.triggeredBsrType = .padding
  · by_cases hn : n < 4
    · by_cases htwo : TwoKnown t rlc
      · rw [hpadding, BsrProc.generateBsr, if_pos hpadding, if_pos hn, if_pos (hmany.mpr htwo)]
        exact h.truncated_iff ⟨rfl, hn, htwo⟩ rfl fun g hg => h.truncated_size hg
      · rw [BsrProc.generateBsr, if_pos hpadding, if_pos hn, if_neg (fun h' => htwo (hmany.mp h'))]
        refine h.full_iff (fun ht => htwo ht.2.2) (by simp) (fun htype => ?_) rfl
        rw [hpadding] at htype
        rcases htype with htype | htype <;> cases htype
    · rw [BsrProc.generateBsr, if_pos hpadding, if_neg hn]
      refine h.full_iff (fun ht => hn ht.2.1) (by simp) (fun htype => ?_) rfl
      rw [hpadding] at htype
      rcases htype with htype | htype <;> cases htype
  · rw [BsrProc.generateBsr, if_neg hpadding]
    refine h.full_iff (fun ht => hpadding ht.1) ?_ (fun _ => ?_) rfl
    · dsimp only
      split <;> simp
    · dsimp only
      rw [← hmany]
      split
      · rename_i hgt
        exact iff_of_true rfl hgt
      · rename_i hle
        exact iff_of_false (by simp) hle

end

/-- After any calls that configure channels, and for any buffers: a report of any type, what a grant
gets for a Regular or Periodic BSR, and a padding BSR are right exactly when the condition holds. -/
theorem report_iff (calls : List BsrProc.Call) (rlc : Nat → Nat) (n : Nat) :
    (∀ type, ReportRight (tableAfter calls) rlc type n
        ({ procAfter calls with triggeredBsrType := type }.generateBsr rlc n) ↔
      ReportCondition (tableAfter calls) rlc type n) ∧
    (∀ type, type = .regular ∨ type = .periodic →
      ∃ r, ({ procAfter calls with triggeredBsrType := type }.needToSendBsrOnUlGrant rlc n).2.1
          = some r ∧
        (ReportRight (tableAfter calls) rlc type 0 r ↔
          ReportCondition (tableAfter calls) rlc type 0)) ∧
    (2 ≤ n → ∃ r, ({ procAfter calls with triggeredBsrType := .none }.generatePaddingBsr rlc n).2
        = some r ∧
      (ReportRight (tableAfter calls) rlc .padding n r ↔
        ReportCondition (tableAfter calls) rlc .padding n)) := by
  have hall : ∀ type n, ReportRight (tableAfter calls) rlc type n
      ({ procAfter calls with triggeredBsrType := type }.generateBsr rlc n) ↔
        ReportCondition (tableAfter calls) rlc type n := by
    intro type n
    have hrestricts : Restricts { procAfter calls with triggeredBsrType := type }
        (tableAfter calls) :=
      { restricts_after calls with }
    exact hrestricts.right_iff n
  -- Both callers return what `generate_bsr` returns.
  refine ⟨fun type => hall type n, fun type htype => ?_, fun hn => ?_⟩
  · refine ⟨_, ?_, hall type 0⟩
    rw [BsrProc.needToSendBsrOnUlGrant, if_pos htype.symm]
  · refine ⟨_, ?_, hall .padding n⟩
    rw [BsrProc.generatePaddingBsr, if_pos (Or.inr hn)]
    rfl

/-- Both signalling channels are in group 0. With data in both, the Regular report is a long one.
With channel 3 in group 1 and data in channels 1 and 3, the padding report reports nothing. -/
theorem not_reportRight :
    ¬ReportRight (tableAfter [.setupLcg 1 0, .setPriority 1 1, .setupLcg 2 0, .setPriority 2 3])
      (dataIn 1 2) .regular 0
      ({ procAfter [.setupLcg 1 0, .setPriority 1 1, .setupLcg 2 0, .setPriority 2 3] with
        triggeredBsrType := .regular }.generateBsr (dataIn 1 2) 0) ∧
    ¬ReportRight (tableAfter [.setupLcg 1 0, .setPriority 1 1, .setupLcg 3 1, .setPriority 3 9])
      (dataIn 1 3) .padding 2
      ({ procAfter [.setupLcg 1 0, .setPriority 1 1, .setupLcg 3 1, .setPriority 3 9] with
        triggeredBsrType := .padding }.generateBsr (dataIn 1 3) 2) := by
  constructor
  · intro h
    exact absurd ((h.long (Or.inl rfl)).mp (by decide)) (by decide)
  · intro h
    obtain ⟨l, g, -, -, hpos, -⟩ := h.highest rfl (by decide) (by decide)
    rw [show BsrProc.generateBsr _ _ _ = ⟨.truncBsr, #v[0, 0, 0, 0]⟩ from by decide] at hpos
    rcases g with _ | _ | _ | _ | g <;> simp at hpos

end SrsUE.Proofs.Mac
