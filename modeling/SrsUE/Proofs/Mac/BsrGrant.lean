import SrsUE.Mac.Bsr
import Mathlib.Algebra.BigOperators.Group.List.Basic
import Mathlib.Data.Finset.Card

/-!
# `SrsUE.Proofs.Mac.BsrGrant`: when a triggered report is cancelled

A report that is triggered may be cancelled on a grant that holds all pending data, but not the
report besides. `need_to_send_bsr_on_ul_grant` decides this by an estimate: it adds up the channels
with their subheaders until it is at the size of the grant, and subtracts one byte.

The estimate counts two bytes for each empty channel, and all of the subheader of the last SDU but
one byte. It leaves out the channels behind the one where it stops, those above `MAX_LCID`, and what
is lost when the sum wraps.

* `counted_add`: how far the sum is from the size of the pending data.
* `needToSend_eq_false_iff`: a triggered report is cancelled when the first channels fill the grant.
* `bsrCancel_iff`: for which buffers and grants this is right. Either nothing is left out, and at
  most one empty channel is counted; or what is left out is made up for by empty channels.
-/

set_option autoImplicit false

namespace SrsUE.Proofs.Mac

open SrsUE.Mac

/-! ### The pending data -/

/-- The number of logical channels of the mux, `NOF_UL_LCH`. -/
abbrev nofChannels : Nat := 17

/-- The bytes that SDUs of these sizes take with their subheaders. The last one has no length
field. -/
def sduBytes : List Nat → Nat
  | [] => 0
  | [n] => n + 1
  | n :: n' :: ns => sizeHeaderSdu n + n + sduBytes (n' :: ns)

section
variable (rlc : Nat → Nat)

/-- The data that is pending in these channels, without the empty ones. -/
def pending (channels : List Nat) : List Nat := (channels.map rlc).filter (0 < ·)

/-- The bytes that all pending data takes in a PDU. -/
def pendingSize : Nat := sduBytes (pending rlc (List.range nofChannels))

/-- The channels with their subheaders, and two bytes for an empty one. -/
def channelBytes (channels : List Nat) : Nat :=
  (channels.map fun i => sizeHeaderSdu (rlc i) + rlc i).sum

/-- The empty channels among the first `k`. -/
def emptyBefore (k : Nat) : Nat := ((List.range k).filter fun i => rlc i = 0).length

/-- The subheader of the last SDU, all but one byte. -/
def lastLengthField : Nat :=
  ((pending rlc (List.range nofChannels)).getLast?.map fun n => sizeHeaderSdu n - 1).getD 0

/-- The bytes pending in the channels from `k` on. -/
def bytesFrom (k : Nat) : Nat :=
  ((pending rlc ((List.range nofChannels).drop k)).map fun n => sizeHeaderSdu n + n).sum

/-- A subheader has at least one byte. -/
theorem one_le_sizeHeaderSdu (n : Nat) : 1 ≤ sizeHeaderSdu n := by
  rw [sizeHeaderSdu]
  split <;> omega

/-- The bytes of SDUs, with the length field that the last one lacks. -/
theorem sduBytes_add (ns : List Nat) :
    sduBytes ns + (ns.getLast?.map fun n => sizeHeaderSdu n - 1).getD 0 =
      (ns.map fun n => sizeHeaderSdu n + n).sum := by
  induction ns with
  | nil => rfl
  | cons n ns ih =>
    cases ns with
    | nil =>
      have hpos := one_le_sizeHeaderSdu n
      simp only [sduBytes, List.getLast?_singleton, Option.map_some, Option.getD_some,
        List.map_cons, List.map_nil, List.sum_cons, List.sum_nil]
      omega
    | cons n' ns =>
      rw [List.getLast?_cons_cons, List.map_cons, List.sum_cons, ← ih, sduBytes]
      omega

/-- What is counted of some channels is the data with two bytes for each empty one. -/
theorem channelBytes_eq (channels : List Nat) :
    channelBytes rlc channels = 2 * (channels.filter fun i => rlc i = 0).length +
      ((pending rlc channels).map fun n => sizeHeaderSdu n + n).sum := by
  induction channels with
  | nil => rfl
  | cons i is ih =>
    rw [channelBytes] at ih
    rw [channelBytes, List.map_cons, List.sum_cons, ih]
    by_cases hempty : rlc i = 0
    · have hheader : sizeHeaderSdu 0 = 2 := rfl
      simp only [pending, List.map_cons, List.filter_cons, hempty, decide_true, if_true,
        List.length_cons, Nat.lt_irrefl, decide_false, Bool.false_eq_true, if_false, hheader]
      omega
    · have hpos : 0 < rlc i := Nat.pos_of_ne_zero hempty
      simp only [pending, List.map_cons, List.filter_cons, hempty, decide_false, Bool.false_eq_true,
        if_false, hpos, decide_true, if_true, List.sum_cons]
      omega

/-- How far the sum of the first channels is from the size of the pending data. -/
theorem counted_add {k : Nat} (hk : k ≤ nofChannels) :
    channelBytes rlc (List.range k) + bytesFrom rlc k =
      pendingSize rlc + 2 * emptyBefore rlc k + lastLengthField rlc := by
  have hsplit : pending rlc (List.range nofChannels) =
      pending rlc (List.range k) ++ pending rlc ((List.range nofChannels).drop k) := by
    have htake : (List.range nofChannels).take k = List.range k := by
      rw [List.take_range, Nat.min_eq_left hk]
    rw [pending, pending, pending, ← List.filter_append, ← List.map_append, ← htake,
      List.take_append_drop]
  have hall := sduBytes_add (pending rlc (List.range nofChannels))
  have hsum : ((pending rlc (List.range nofChannels)).map fun n => sizeHeaderSdu n + n).sum =
      ((pending rlc (List.range k)).map fun n => sizeHeaderSdu n + n).sum + bytesFrom rlc k := by
    rw [hsplit, List.map_append, List.sum_append]
    rfl
  rw [channelBytes_eq, pendingSize, lastLengthField, emptyBefore]
  omega

end

/-! ### The estimate -/

section
variable (rlc : Nat → Nat)

/-- The sum of the first `k` channels, as the procedure has it. -/
def counted (k : Nat) : Nat := channelBytes rlc (List.range k) % 2 ^ 32

/-- The loop ends before channel `k`. -/
def StopsAt (g k : Nat) : Prop :=
  k ≤ maxLcid ∧ (∀ j < k, counted rlc j < g) ∧ (k = maxLcid ∨ g ≤ counted rlc k)

/-- The loop adds up the channels until the sum reaches the grant. -/
theorem totalData_spec (g : Nat) (is : List Nat) {total : Nat} (htotal : total < 2 ^ 32) :
    ∃ k ≤ is.length,
      BsrProc.totalData rlc g is total = (total + channelBytes rlc (is.take k)) % 2 ^ 32 ∧
      (∀ j < k, (total + channelBytes rlc (is.take j)) % 2 ^ 32 < g) ∧
      (k = is.length ∨ g ≤ (total + channelBytes rlc (is.take k)) % 2 ^ 32) := by
  have hsame : (total + channelBytes rlc []) % 2 ^ 32 = total := Nat.mod_eq_of_lt htotal
  -- Induction on the channels that are left, with the sum so far as the start.
  induction is generalizing total with
  | nil =>
    exact ⟨0, Nat.le_refl 0, hsame.symm, fun j hj => absurd hj (Nat.not_lt_zero j), Or.inl rfl⟩
  | cons i is ih =>
    by_cases hgo : total < g
    · have hlt : (total + (sizeHeaderSdu (rlc i) + rlc i)) % 2 ^ 32 < 2 ^ 32 :=
        Nat.mod_lt _ (by omega)
      obtain ⟨k, hk, hvalue, hbefore, hstop⟩ := ih hlt (Nat.mod_eq_of_lt hlt)
      have hshift : ∀ j, ((total + (sizeHeaderSdu (rlc i) + rlc i)) % 2 ^ 32 +
          channelBytes rlc (is.take j)) % 2 ^ 32 =
            (total + channelBytes rlc ((i :: is).take (j + 1))) % 2 ^ 32 := by
        intro j
        rw [Nat.mod_add_mod, List.take_succ_cons, channelBytes, channelBytes, List.map_cons,
          List.sum_cons, Nat.add_assoc]
      rw [hshift] at hvalue hstop
      refine ⟨k + 1, Nat.succ_le_succ hk, ?_, ?_, ?_⟩
      · rw [BsrProc.totalData, if_pos hgo, hvalue]
      · intro j hj
        cases j with
        | zero => exact hsame.trans_lt hgo
        | succ j =>
          rw [← hshift]
          exact hbefore j (Nat.lt_of_succ_lt_succ hj)
      · rcases hstop with hall | hge
        · exact Or.inl (congrArg Nat.succ hall)
        · exact Or.inr hge
    · refine ⟨0, Nat.zero_le _, ?_, fun j hj => absurd hj (Nat.not_lt_zero j), Or.inr ?_⟩
      · rw [BsrProc.totalData, if_neg hgo]
        exact hsame.symm
      · exact (Nat.not_lt.mp hgo).trans_eq hsame.symm

/-- The loop ends at one place, with the sum of the channels before it. -/
theorem totalData_eq (g : Nat) :
    ∃ k, StopsAt rlc g k ∧ BsrProc.totalData rlc g (List.range maxLcid) 0 = counted rlc k := by
  obtain ⟨k, hk, hvalue, hbefore, hstop⟩ :=
    totalData_spec rlc g (List.range maxLcid) (Nat.two_pow_pos 32)
  rw [List.length_range] at hk hstop
  have htake : ∀ j ≤ maxLcid, (0 + channelBytes rlc ((List.range maxLcid).take j)) % 2 ^ 32 =
      counted rlc j := by
    intro j hj
    rw [Nat.zero_add, List.take_range, Nat.min_eq_left hj, counted]
  refine ⟨k, ⟨hk, fun j hj => ?_, ?_⟩, hvalue.trans (htake k hk)⟩
  · rw [← htake j (by omega)]
    exact hbefore j hj
  · rw [← htake k hk]
    exact hstop

/-- There is one place where it stops. -/
theorem StopsAt.unique {rlc : Nat → Nat} {g k k' : Nat} (h : StopsAt rlc g k)
    (h' : StopsAt rlc g k') :
    k = k' := by
  obtain ⟨hle, hbefore, hstop⟩ := h
  obtain ⟨hle', hbefore', hstop'⟩ := h'
  rcases Nat.lt_trichotomy k k' with hlt | heq | hgt
  · have hk := hbefore' k hlt
    omega
  · exact heq
  · have hk := hbefore k' hgt
    omega

end

/-! ### The size of the report -/

/-- More than one element passes a filter when two different ones do. -/
theorem one_lt_length_filter {l : List Nat} (hnodup : l.Nodup) (p : Nat → Bool) :
    1 < (l.filter p).length ↔ ∃ x ∈ l, ∃ y ∈ l, x ≠ y ∧ p x = true ∧ p y = true := by
  rw [← List.toFinset_card_of_nodup (hnodup.filter p), Finset.one_lt_card]
  simp only [List.mem_toFinset, List.mem_filter]
  constructor
  · rintro ⟨x, ⟨hx, hpx⟩, y, ⟨hy, hpy⟩, hne⟩
    exact ⟨x, hx, y, hy, hne, hpx, hpy⟩
  · rintro ⟨x, hx, y, hy, hne, hpx, hpy⟩
    exact ⟨x, ⟨hx, hpx⟩, y, ⟨hy, hpy⟩, hne⟩

/-- Two of the channels that have a group have data. -/
def TwoGrouped (b : BsrProc) (rlc : Nat → Nat) : Prop :=
  ∃ i < maxLcid, ∃ j < maxLcid, i ≠ j ∧ (0 ≤ b.lcgOf i ∧ 0 < rlc i) ∧ 0 ≤ b.lcgOf j ∧ 0 < rlc j

instance (b : BsrProc) (rlc : Nat → Nat) : Decidable (TwoGrouped b rlc) :=
  inferInstanceAs (Decidable (∃ i, i < maxLcid ∧ ∃ j, j < maxLcid ∧ _))

/-- A report has three bytes when two channels that have a group have data, and one otherwise. -/
def reportBytes (b : BsrProc) (rlc : Nat → Nat) : Nat := if TwoGrouped b rlc then 3 else 1

/-- A report is triggered. -/
def Triggered (b : BsrProc) : Prop := b.triggeredBsrType = .periodic ∨ b.triggeredBsrType = .regular

/-- The size of a triggered report. -/
theorem bsrSz_generateBsr {b : BsrProc} {rlc : Nat → Nat} (htrig : Triggered b) :
    BsrProc.bsrSz (b.generateBsr rlc 0) = reportBytes b rlc := by
  have hnof : b.nofLcg rlc > 1 ↔ TwoGrouped b rlc := by
    rw [BsrProc.nofLcg, gt_iff_lt, one_lt_length_filter List.nodup_range]
    simp only [List.mem_range, Bool.and_eq_true, decide_eq_true_eq, ge_iff_le, gt_iff_lt,
      TwoGrouped]
  have htype : b.triggeredBsrType ≠ .padding := by
    rcases htrig with h | h <;> rw [h] <;> decide
  rw [BsrProc.generateBsr, if_neg htype, BsrProc.bsrSz, reportBytes]
  by_cases htwo : TwoGrouped b rlc
  · rw [if_pos htwo, if_pos (hnof.mpr htwo), if_pos rfl]
  · rw [if_neg htwo, if_neg (mt hnof.mp htwo)]
    rfl

/-- When two channels have data, the last SDU has a length field to lose. -/
theorem one_le_lastLengthField {rlc : Nat → Nat} {i : Nat} (hi : i < nofChannels)
    (hpos : 0 < rlc i) : 1 ≤ lastLengthField rlc := by
  have hmem : rlc i ∈ pending rlc (List.range nofChannels) :=
    List.mem_filter.mpr ⟨List.mem_map_of_mem (List.mem_range.mpr hi), by simpa using hpos⟩
  obtain ⟨n, hn⟩ := Option.ne_none_iff_exists'.mp
    (mt List.getLast?_eq_none_iff.mp (List.ne_nil_of_mem hmem))
  rw [lastLengthField, hn, Option.map_some, Option.getD_some, sizeHeaderSdu]
  split <;> decide

/-! ### Results -/

section
variable (b : BsrProc) (rlc : Nat → Nat) (g : Nat)

/-- A triggered report is cancelled only on a grant that holds all pending data, but not the report
and its subheader besides. -/
def CancelsSoundly : Prop :=
  Triggered b → (b.needToSendBsrOnUlGrant rlc g).2.2 = false →
    pendingSize rlc ≤ g ∧ g < pendingSize rlc + 1 + BsrProc.bsrSz (b.generateBsr rlc 0)

/-- The first `k` channels with their subheaders fill the grant up to its last `d` bytes, one of
which the last subheader gives back. All channels may leave two bytes more, if the report is a long
one. -/
structure Fills (k d : Nat) : Prop where
  known : k ≤ maxLcid
  before : ∀ j < k, counted rlc j < g
  pos : 1 ≤ counted rlc k
  sum : counted rlc k + d = g + 1
  rest : d ≤ 1 ∨ k = maxLcid ∧ d ≤ 3 ∧ TwoGrouped b rlc
  noWrap : counted rlc k + reportBytes b rlc < 2 ^ 32

/-- The bytes that are left out behind the first `k` channels, and by a sum that wraps. -/
def leftOut (k : Nat) : Nat :=
  bytesFrom rlc k + 2 ^ 32 * (channelBytes rlc (List.range k) / 2 ^ 32)

/-- The buffers and grants with which the first `k` channels are enough to cancel a report. When
nothing is left out, no channel may be empty, or one if the grant is otherwise full. When something
is, the empty channels have to make up for it. -/
def EnoughToCancel (k d : Nat) : Prop :=
  (leftOut rlc k = 0 ∧ emptyBefore rlc k = 0 ∧
    d + lastLengthField rlc ≤ if TwoGrouped b rlc then 4 else 2) ∨
  (leftOut rlc k = 0 ∧ emptyBefore rlc k = 1 ∧
    d + lastLengthField rlc ≤ if TwoGrouped b rlc then 2 else 0) ∨
  (0 < leftOut rlc k ∧
    leftOut rlc k + 1 ≤ d + 2 * emptyBefore rlc k + lastLengthField rlc ∧
    d + 2 * emptyBefore rlc k + lastLengthField rlc ≤
      leftOut rlc k + if TwoGrouped b rlc then 4 else 2)

variable {b rlc g}

/-- The loop ends where the channels fill the grant. -/
theorem Fills.stopsAt {k d : Nat} (h : Fills b rlc g k d) : StopsAt rlc g k := by
  refine ⟨h.known, h.before, ?_⟩
  have hsum := h.sum
  rcases h.rest with hd | ⟨hk, -⟩
  · exact .inr (by omega)
  · exact .inl hk

/-- A triggered report is cancelled when the first channels fill the grant. -/
theorem needToSend_eq_false_iff (htrig : Triggered b) :
    (b.needToSendBsrOnUlGrant rlc g).2.2 = false ↔ ∃ k d, Fills b rlc g k d := by
  obtain ⟨k, hk, htotal⟩ := totalData_eq rlc g
  have hlt : counted rlc k < 2 ^ 32 := Nat.mod_lt _ (by omega)
  have hsz : reportBytes b rlc ≤ 3 := by
    rw [reportBytes]
    split <;> omega
  -- `total_data` is decremented as an `int`, and compared as one with the grant.
  have hcancel : (b.needToSendBsrOnUlGrant rlc g).2.2 = false ↔
      1 ≤ counted rlc k ∧ counted rlc k ≤ g + 1 ∧
        g < (counted rlc k + reportBytes b rlc) % 2 ^ 32 := by
    have htrig' := htrig
    rw [Triggered] at htrig'
    rw [BsrProc.needToSendBsrOnUlGrant, if_pos htrig']
    simp only [htotal, Bool.not_eq_false', Bool.and_eq_true, decide_eq_true_eq,
      bsrSz_generateBsr htrig]
    generalize counted rlc k = c at hlt ⊢
    generalize reportBytes b rlc = sz at hsz ⊢
    omega
  rw [hcancel]
  constructor
  · rintro ⟨hpos, hle, hfit⟩
    have hif : reportBytes b rlc = if TwoGrouped b rlc then 3 else 1 := rfl
    refine ⟨k, g + 1 - counted rlc k, hk.1, hk.2.1, hpos, by omega, ?_, by omega⟩
    rcases hk.2.2 with hall | hge
    · by_cases htwo : TwoGrouped b rlc
      · rw [if_pos htwo] at hif
        exact .inr ⟨hall, by omega, htwo⟩
      · rw [if_neg htwo] at hif
        exact .inl (by omega)
    · exact .inl (by omega)
  · rintro ⟨k', d, hfills⟩
    obtain rfl := hk.unique hfills.stopsAt
    have hsum := hfills.sum
    have hwrap := hfills.noWrap
    refine ⟨hfills.pos, by omega, ?_⟩
    rw [Nat.mod_eq_of_lt hwrap]
    rcases hfills.rest with hd | ⟨-, hd, htwo⟩
    · have hone : 1 ≤ reportBytes b rlc := by
        rw [reportBytes]
        split <;> decide
      omega
    · rw [reportBytes, if_pos htwo]
      omega

/-- The first channels are enough when the grant holds the pending data, but not the report
besides. -/
theorem Fills.enough_iff {k d : Nat} (h : Fills b rlc g k d) :
    (pendingSize rlc ≤ g ∧ g < pendingSize rlc + 1 + reportBytes b rlc) ↔
      EnoughToCancel b rlc k d := by
  have hsum := counted_add rlc (h.known.trans (by decide) : k ≤ nofChannels)
  have hdiv := Nat.mod_add_div (channelBytes rlc (List.range k)) (2 ^ 32)
  rw [← counted] at hdiv
  have hfill := h.sum
  have hpos := h.pos
  have htwo : TwoGrouped b rlc → 1 ≤ lastLengthField rlc := by
    rintro ⟨i, hi, -, -, -, ⟨-, hdata⟩, -⟩
    exact one_le_lastLengthField (Nat.lt_trans hi (by decide)) hdata
  -- Without an empty channel, the first one has data.
  have hfirst : emptyBefore rlc k = 0 → 1 ≤ lastLengthField rlc := by
    intro hnone
    have hk : 0 < k := by
      rcases Nat.eq_zero_or_pos k with rfl | hk
      · exact absurd hpos (Nat.lt_irrefl 0)
      · exact hk
    have hnil :=
      List.filter_eq_nil_iff.mp (List.length_eq_zero_iff.mp hnone) 0 (List.mem_range.mpr hk)
    exact one_le_lastLengthField (i := 0) (by decide) (Nat.pos_of_ne_zero (by simpa using hnil))
  rw [EnoughToCancel, reportBytes, leftOut]
  by_cases h2 : TwoGrouped b rlc
  · have hlast := htwo h2
    simp only [if_pos h2]
    omega
  · simp only [if_neg h2]
    omega

variable (b rlc g)

/-- A triggered report is cancelled only where it should be exactly when the first channels that
fill the grant are enough. -/
theorem bsrCancel_iff :
    CancelsSoundly b rlc g ↔
      (Triggered b → ∀ k d, Fills b rlc g k d → EnoughToCancel b rlc k d) := by
  refine imp_congr_right fun htrig => ?_
  rw [needToSend_eq_false_iff htrig, bsrSz_generateBsr htrig]
  constructor
  · intro h k d hfills
    exact hfills.enough_iff.mp (h ⟨k, d, hfills⟩)
  · rintro h ⟨k, d, hfills⟩
    exact hfills.enough_iff.mpr (h k d hfills)

end

/-- Ten bytes are pending in channel 2, and the report is cancelled on a grant of 21 bytes, which
has room for it. A hundred bytes each are pending in channels 1 and 2, and it is cancelled on a
grant of 103 bytes, which holds only one of them. -/
theorem not_cancelsSoundly :
    ¬CancelsSoundly { lcg := [0, 0, 0, -1, -1, -1], triggeredBsrType := .regular }
        (fun i => if i = 2 then 10 else 0) 21 ∧
      ¬CancelsSoundly { lcg := [0, 0, 0, -1, -1, -1], triggeredBsrType := .regular }
        (fun i => if i = 1 ∨ i = 2 then 100 else 0) 103 := by
  constructor
  · intro h
    have hcancel := h (Or.inr rfl) (by decide)
    exact absurd hcancel.2 (by decide)
  · intro h
    have hcancel := h (Or.inr rfl) (by decide)
    exact absurd hcancel.1 (by decide)

end SrsUE.Proofs.Mac
