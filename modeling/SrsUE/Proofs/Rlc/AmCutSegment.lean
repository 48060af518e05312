import SrsUE.Lib.Cuts
import SrsUE.Proofs.Rlc.AmFill

/-!
# `SrsUE.Proofs.Rlc.AmCutSegment`: the loop of `build_segment`

`build_segment` walks over the length indicators of the old header. Each piece that the
segment needs costs a length indicator of the new header, so the end `so_end` of the segment
shrinks while the loop runs. `segEnd` is the end that a header with a given number of length
indicators leaves, and `cutSegment_shape` says how the loop can end:

* `whole`: the loop ran over all pieces, and the last of them ends inside the segment;
* `clipped`: the segment ends inside a piece, or with it;
* `shrunk`: the length indicator of the last piece made the segment end before the next
  piece starts.
-/

set_option autoImplicit false

namespace SrsUE.Proofs.Rlc

open SrsUE.Lib
open SrsUE.Rlc

/-- The header of a segment is four bytes and the length indicators. -/
theorem amPackedLength_segment (li : List Nat) :
    amPackedLength { rf := true, li := li } = 4 + liBytes li.length := by
  simp [amPackedLength, liBytes]

/-- The end of a segment from `s` on behind a header with `m` length indicators, in a grant
of `n` bytes. It is at most `c`. -/
def segEnd (n s c m : Nat) : Nat := min c (s + (n - (4 + liBytes m)))

section
variable {n s c : Nat}

/-- A segment does not end before it starts. -/
theorem le_segEnd (hc : s ≤ c) (m : Nat) : s ≤ segEnd n s c m := by
  unfold segEnd
  omega

/-- A longer header leaves less for the segment. -/
theorem segEnd_anti {m k : Nat} (h : m ≤ k) : segEnd n s c k ≤ segEnd n s c m := by
  unfold segEnd liBytes
  omega

/-- The range bounds a segment, or the grant does. -/
theorem segEnd_cases (n s c m : Nat) :
    segEnd n s c m = c ∧ c ≤ s + (n - (4 + liBytes m)) ∨
      segEnd n s c m = s + (n - (4 + liBytes m)) ∧ s + (n - (4 + liBytes m)) < c := by
  unfold segEnd
  omega

/-- One more length indicator shrinks the segment by one byte or two. -/
theorem shrinkSoEnd_segEnd {li : List Nat} (hc : s ≤ c) (hc32 : c < 2 ^ 32)
    (hn : 4 + liBytes li.length ≤ n) :
    shrinkSoEnd n s li (segEnd n s c (li.length - 1)) = segEnd n s c li.length := by
  have hs := le_segEnd (n := n) hc (li.length - 1)
  unfold shrinkSoEnd
  simp only
  rw [amPackedLength_segment, sub32_of_le hn, sub32_of_le hs]
  split
  · rename_i hlt
    have hle : segEnd n s c (li.length - 1) ≤ c := Nat.min_le_left ..
    rw [add32_of_lt (by omega)]
    unfold segEnd liBytes at *
    omega
  · unfold segEnd liBytes at *
    omega

/-- A segment that has already ended stays as it is. -/
theorem buildSegmentLoop_stop (lis : List Nat) {st : SegmentLoop} (h : st.soEnd ≤ st.lower) :
    buildSegmentLoop n s lis st = st := by
  cases lis with
  | nil => rfl
  | cons l lis => rw [buildSegmentLoop, if_pos h]

/-- How the loop of `build_segment` ends, from a state with the length indicators `acc` at
the start `lower` of a piece, when pieces end at `ys`. -/
inductive CutOutcome (n s c lower : Nat) (acc ys : List Nat) (fi : FiField) (r : SegmentLoop) :
    Prop where
  | whole (stop : r.soEnd = segEnd n s c (acc.length + ys.length - 1))
      (last : ys.getLastD lower < r.soEnd) (li : r.li = acc ++ gaps (max lower s) ys)
      (fi : r.fi = fi)
  | clipped (xs : List Nat) (z : Nat) (zs : List Nat) (split : ys = xs ++ z :: zs)
      (stop : r.soEnd = segEnd n s c (acc.length + xs.length))
      (last : xs.getLastD lower < r.soEnd) (le : r.soEnd ≤ z)
      (li : r.li = acc ++ gaps (max lower s) xs ++ [r.soEnd - max (xs.getLastD lower) s])
      (fi : r.fi = if z = r.soEnd then fi &&& fiNotStartAligned else fi)
  | shrunk (xs : List Nat) (z : Nat) (zs : List Nat) (split : ys = xs ++ z :: zs)
      (pos : 1 ≤ acc.length + xs.length)
      (stop : r.soEnd = segEnd n s c (acc.length + xs.length))
      (last : xs.getLastD lower < segEnd n s c (acc.length + xs.length - 1))
      (le : r.soEnd ≤ xs.getLastD lower) (li : r.li = acc ++ gaps (max lower s) xs)
      (fi : r.fi = fi)

/-- The outcome of a loop that goes on behind one more piece. -/
theorem CutOutcome.cons {lower y : Nat} {acc ys : List Nat} {fi : FiField} {r : SegmentLoop}
    (hy : s < y)
    (h : CutOutcome n s c y (acc ++ [y - max lower s]) ys fi r) :
    CutOutcome n s c lower acc (y :: ys) fi r := by
  have hlen : (acc ++ [y - max lower s]).length = acc.length + 1 := by simp
  -- The piece that ends at `y` is the first gap from `lower` on.
  have hgaps : ∀ xs, acc ++ [y - max lower s] ++ gaps (max y s) xs
      = acc ++ gaps (max lower s) (y :: xs) := by
    intro xs
    rw [gaps, Nat.max_eq_left (Nat.le_of_lt hy), List.append_assoc, List.singleton_append]
  cases h with
  | whole stop last li hfi =>
    refine .whole ?_ ?_ ?_ hfi
    · rw [stop, hlen, List.length_cons]
      congr 1
      omega
    · rw [List.getLastD_cons]
      exact last
    · rw [li, hgaps]
  | clipped xs z zs split stop last le li hfi =>
    refine .clipped (y :: xs) z zs (by rw [split, List.cons_append]) ?_ ?_ le ?_ hfi
    · rw [stop, hlen, List.length_cons]
      congr 1
      omega
    · rw [List.getLastD_cons]
      exact last
    · rw [List.getLastD_cons, ← hgaps]
      exact li
  | shrunk xs z zs split pos stop last le li hfi =>
    refine .shrunk (y :: xs) z zs (by rw [split, List.cons_append]) (by simp; omega) ?_ ?_ ?_ ?_
      hfi
    · rw [stop, hlen, List.length_cons]
      congr 1
      omega
    · rw [List.getLastD_cons, List.length_cons]
      rw [hlen] at last
      convert last using 2
      omega
    · rw [List.getLastD_cons]
      exact le
    · rw [← hgaps]
      exact li

/-- The loop over pieces that all end behind `s`. -/
theorem buildSegmentLoop_outcome (hc : s ≤ c) (hc32 : c < 2 ^ 32) (hn : 4 < n) :
    ∀ (lis : List Nat) (lower : Nat) (acc : List Nat) (fi : FiField), (∀ l ∈ lis, 0 < l) →
    (∀ y ∈ pieceEnds lower lis, s < y) → lower < segEnd n s c (acc.length - 1) →
    (acc ≠ [] → s + acc.length ≤ lower) →
    CutOutcome n s c lower acc (pieceEnds lower lis)
      (if 0 < lower ∧ lower = s ∧ lis ≠ [] then fi &&& fiNotEndAligned else fi)
      (buildSegmentLoop n s lis
        { lower := lower, soEnd := segEnd n s c (acc.length - 1), fi := fi, li := acc }) := by
  intro lis
  induction lis with
  | nil =>
    intro lower acc fi _ _ hlt _
    refine .whole rfl hlt ?_ ?_
    · simp [pieceEnds, gaps, buildSegmentLoop]
    · simp [buildSegmentLoop]
  | cons l lis ih =>
    intro lower acc fi hpos hends hlt hacc
    have hl := hpos l (List.mem_cons_self ..)
    have hupper : s < lower + l := hends _ (List.mem_cons_self ..)
    have hempty : acc.length = 0 ∨ s + acc.length ≤ lower := by
      by_cases h : acc = []
      · exact .inl (by rw [h]; rfl)
      · exact .inr (hacc h)
    -- The header never outgrows the grant: each length indicator stands for a byte.
    have hroom : 4 + liBytes acc.length ≤ n := by
      unfold segEnd liBytes at hlt
      unfold liBytes
      omega
    have hge := le_segEnd (n := n) hc acc.length
    have hlive : ¬segEnd n s c (acc.length - 1) ≤ lower := by omega
    rw [buildSegmentLoop, if_neg hlive]
    simp only [shrinkSoEnd_segEnd hc hc32 hroom, pieceEnds]
    by_cases hle : segEnd n s c acc.length ≤ lower
    · -- The last length indicator left no room for this piece.
      have hskip : ¬(s < lower + l ∧ lower < segEnd n s c acc.length) := by omega
      have hstop : segEnd n s c acc.length ≤ lower + l := by omega
      simp only [if_neg hskip]
      rw [buildSegmentLoop_stop _ hstop]
      have hm : acc.length ≠ 0 := by
        intro h0
        rw [h0] at hle hlt
        exact absurd hlt (Nat.not_lt.mpr hle)
      refine .shrunk [] (lower + l) (pieceEnds (lower + l) lis) rfl (by simp; omega) rfl hlt hle
        (by simp [gaps]) ?_
      rw [if_neg (by omega)]
    · have hneed : s < lower + l ∧ lower < segEnd n s c acc.length := ⟨hupper, by omega⟩
      simp only [if_pos hneed]
      have hfi : (if 0 < lower ∧ lower = s ∧ l :: lis ≠ [] then fi &&& fiNotEndAligned else fi)
          = if 0 < lower ∧ lower = s then fi &&& fiNotEndAligned else fi := by simp
      have hli : sub32 (lower + l - lower - (lower + l - segEnd n s c acc.length)) (s - lower)
          = min (lower + l) (segEnd n s c acc.length) - max lower s := by
        rw [sub32_of_le (by omega)]
        omega
      rw [hfi]
      simp only [addSegmentLi, hli]
      generalize (if 0 < lower ∧ lower = s then fi &&& fiNotEndAligned else fi) = fi'
      by_cases hclip : segEnd n s c acc.length ≤ lower + l
      · rw [buildSegmentLoop_stop _ hclip]
        refine .clipped [] (lower + l) (pieceEnds (lower + l) lis) rfl rfl hneed.2 hclip ?_ rfl
        simp [gaps, Nat.min_eq_right hclip]
      · have hne : ¬lower + l = segEnd n s c acc.length := by omega
        rw [if_neg hne, Nat.min_eq_left (by omega)]
        have hlen : (acc ++ [lower + l - max lower s]).length - 1 = acc.length := by simp
        have hnext := ih (lower + l) (acc ++ [lower + l - max lower s]) fi'
          (fun k hk => hpos k (List.mem_cons_of_mem _ hk))
          (fun y hy => hends y (List.mem_cons_of_mem _ hy)) (by rw [hlen]; omega)
          (fun _ => by simp; omega)
        rw [hlen, if_neg (by omega)] at hnext
        exact hnext.cons hupper

/-- The last of the given ends up to `s`: the start of the piece that holds byte `s`. -/
def pieceStart (s lower : Nat) (ends : List Nat) : Nat := (ends.filter (· ≤ s)).getLastD lower

/-- A piece starts no later than the position. -/
theorem pieceStart_le {lower : Nat} (hs : lower ≤ s) (ends : List Nat) :
    pieceStart s lower ends ≤ s := by
  unfold pieceStart
  rcases getLastD_mem_or (p := lower) (ends.filter (· ≤ s)) with ⟨-, h⟩ | h
  · rw [h]
    exact hs
  · simpa using (List.mem_filter.mp h).2

/-- It starts no earlier than the pieces do. -/
theorem le_pieceStart {lower : Nat} {ends : List Nat} (h : ∀ b ∈ ends, lower ≤ b) :
    lower ≤ pieceStart s lower ends := by
  unfold pieceStart
  rcases getLastD_mem_or (p := lower) (ends.filter (· ≤ s)) with ⟨-, h'⟩ | h'
  · exact Nat.le_of_eq h'.symm
  · exact h _ (List.mem_filter.mp h').1

/-- The framing bits after the loop has come to the piece that holds byte `s`. -/
def pieceFi (s lower : Nat) (ends : List Nat) (fi : FiField) : FiField :=
  if 0 < pieceStart s lower ends ∧ pieceStart s lower ends = s ∧ ends.filter (s < ·) ≠ [] then
    fi &&& fiNotEndAligned
  else fi

/-- The loop passes over the pieces that end at `s` or before, and then runs over the
others. -/
theorem buildSegmentLoop_pieces (hc : s ≤ c) (hc32 : c < 2 ^ 32) (hn : 4 < n) (lis : List Nat)
    (lower : Nat) (fi : FiField) (hpos : ∀ l ∈ lis, 0 < l) (hs : lower ≤ s)
    (hlt : pieceStart s lower (pieceEnds lower lis) < segEnd n s c 0) :
    CutOutcome n s c (pieceStart s lower (pieceEnds lower lis)) []
      ((pieceEnds lower lis).filter (s < ·)) (pieceFi s lower (pieceEnds lower lis) fi)
      (buildSegmentLoop n s lis { lower := lower, soEnd := segEnd n s c 0, fi := fi }) := by
  induction lis generalizing lower with
  | nil =>
    refine .whole rfl hlt (by simp [buildSegmentLoop, pieceEnds, gaps]) ?_
    simp [pieceFi, pieceEnds, buildSegmentLoop]
  | cons l lis ih =>
    have hl := hpos l (List.mem_cons_self ..)
    have hpos' : ∀ k ∈ lis, 0 < k := fun k hk => hpos k (List.mem_cons_of_mem _ hk)
    by_cases hle : lower + l ≤ s
    · have hstart : pieceStart s lower (pieceEnds lower (l :: lis))
          = pieceStart s (lower + l) (pieceEnds (lower + l) lis) := by
        unfold pieceStart
        rw [pieceEnds, List.filter_cons_of_pos (by simpa using hle), List.getLastD_cons]
      have hrest : (pieceEnds lower (l :: lis)).filter (s < ·)
          = (pieceEnds (lower + l) lis).filter (s < ·) := by
        rw [pieceEnds, List.filter_cons_of_neg (by simpa using hle)]
      have hfi : pieceFi s lower (pieceEnds lower (l :: lis)) fi
          = pieceFi s (lower + l) (pieceEnds (lower + l) lis) fi := by
        simp only [pieceFi, hstart, hrest]
      rw [hstart] at hlt
      -- The piece ends at `s` or before: no length indicator is added, and the loop goes on.
      have hge : lower + l ≤ pieceStart s (lower + l) (pieceEnds (lower + l) lis) :=
        le_pieceStart fun b hb => Nat.le_of_lt (lt_of_mem_pieceEnds hpos' hb)
      have hlive : ¬segEnd n s c 0 ≤ lower := by omega
      have hskip : ¬(s < lower + l ∧ lower < segEnd n s c 0) := by omega
      have hroom : 4 + liBytes ([] : List Nat).length ≤ n := by
        simp only [List.length_nil, liBytes]
        omega
      have hshrink : shrinkSoEnd n s [] (segEnd n s c 0) = segEnd n s c 0 :=
        shrinkSoEnd_segEnd hc hc32 hroom
      rw [hstart, hrest, hfi, buildSegmentLoop, if_neg hlive]
      simp only [hshrink, if_neg hskip]
      exact ih (lower + l) hpos' hle hlt
    -- From here on every piece ends behind `s`, and `buildSegmentLoop_outcome` takes over.
    · have hall : ∀ b ∈ pieceEnds lower (l :: lis), s < b := by
        intro b hb
        rcases List.mem_cons.mp hb with rfl | hb
        · omega
        · have := lt_of_mem_pieceEnds hpos' hb
          omega
      have hnone : (pieceEnds lower (l :: lis)).filter (· ≤ s) = [] := by
        rw [List.filter_eq_nil_iff]
        intro b hb
        simpa using hall b hb
      have hself : (pieceEnds lower (l :: lis)).filter (s < ·) = pieceEnds lower (l :: lis) := by
        rw [List.filter_eq_self]
        intro b hb
        simpa using hall b hb
      have hstart : pieceStart s lower (pieceEnds lower (l :: lis)) = lower := by
        rw [pieceStart, hnone, List.getLastD_nil]
      have hfi : pieceFi s lower (pieceEnds lower (l :: lis)) fi
          = if 0 < lower ∧ lower = s ∧ l :: lis ≠ [] then fi &&& fiNotEndAligned else fi := by
        rw [pieceFi, hstart, hself]
        simp [pieceEnds]
      rw [hstart] at hlt
      rw [hstart, hself, hfi]
      exact buildSegmentLoop_outcome hc hc32 hn (l :: lis) lower [] fi hpos hall hlt
        fun h => absurd rfl h

/-- The framing bits of a segment from byte `s` on, before the loop. -/
def headFi (header : AmdPduHeader) (s : Nat) : FiField :=
  if s = 0 ∧ startAligned header.fi then fiNotStartOrEndAligned &&& fiNotEndAligned
  else fiNotStartOrEndAligned

/-- The state in front of the loop. -/
theorem shrinkSoEnd_start (hc : s ≤ c) (hc32 : c < 2 ^ 32) (hn : 4 < n) :
    shrinkSoEnd n s [] c = segEnd n s c 0 := by
  have hroom : 4 + liBytes ([] : List Nat).length ≤ n := by
    simp only [List.length_nil, liBytes]
    omega
  unfold shrinkSoEnd
  simp only
  rw [amPackedLength_segment, sub32_of_le hroom, sub32_of_le hc]
  unfold segEnd
  simp only [List.length_nil]
  split
  · rw [add32_of_lt (by omega)]
    omega
  · omega

/-- The ways in which `build_segment` can cut a segment from byte `s` of a range that ends at
`c`, when SDUs end at `bs` behind `s`. -/
inductive CutShape (n s c : Nat) (bs : List Nat) (fi : FiField) (r : SegmentLoop) : Prop where
  | whole (stop : r.soEnd = segEnd n s c (bs.length - 1)) (lt : s < r.soEnd)
      (last : ∀ b ∈ bs, b < r.soEnd) (li : r.li = gaps s bs) (fi : r.fi = fi)
  | clipped (xs : List Nat) (z : Nat) (zs : List Nat) (d : Nat) (split : bs = xs ++ z :: zs)
      (stop : r.soEnd = segEnd n s c xs.length) (lt : s < r.soEnd)
      (last : ∀ b ∈ xs, b < r.soEnd) (le : r.soEnd ≤ z) (li : r.li = gaps s xs ++ [d])
      (fi : r.fi = if z = r.soEnd then fi &&& fiNotStartAligned else fi)
  | shrunk (xs : List Nat) (x z : Nat) (zs : List Nat) (split : bs = xs ++ x :: z :: zs)
      (stop : r.soEnd = segEnd n s c (xs.length + 1)) (last : x < segEnd n s c xs.length)
      (le : r.soEnd ≤ x) (li : r.li = gaps s (xs ++ [x])) (fi : r.fi = fi)

/-- The end of a segment lies in its range. -/
theorem CutShape.soEnd_bounds {bs : List Nat} {fi : FiField} {r : SegmentLoop}
    (h : CutShape n s c bs fi r) (hs : s ≤ c) : s ≤ r.soEnd ∧ r.soEnd ≤ c := by
  have hbounds : ∀ m, s ≤ segEnd n s c m ∧ segEnd n s c m ≤ c :=
    fun m => ⟨le_segEnd hs m, Nat.min_le_left ..⟩
  cases h with
  | whole stop => rw [stop]; exact hbounds _
  | clipped xs z zs d split stop => rw [stop]; exact hbounds _
  | shrunk xs x z zs split stop => rw [stop]; exact hbounds _

/-- The outcome of the loop behind the pieces that end at `s` or before. -/
theorem CutOutcome.shape {lower : Nat} {bs : List Nat} {fi : FiField} {r : SegmentLoop}
    (h : CutOutcome n s c lower [] bs fi r) (hlower : lower ≤ s) (hs : s < segEnd n s c 0)
    (hbs : ∀ b ∈ bs, s < b) (hsorted : bs.Pairwise (· < ·)) : CutShape n s c bs fi r := by
  have hmax : max lower s = s := Nat.max_eq_right hlower
  have hbelow : ∀ {xs : List Nat} {e : Nat}, xs.Pairwise (· < ·) → xs.getLastD lower < e →
      ∀ b ∈ xs, b < e :=
    fun hxs hlt b hb => Nat.lt_of_le_of_lt (le_getLastD_of_mem hxs hb) hlt
  cases h with
  | whole stop last li hfi =>
    rw [List.length_nil, Nat.zero_add] at stop
    rw [hmax, List.nil_append] at li
    refine .whole stop ?_ (hbelow hsorted last) li hfi
    cases bs with
    | nil =>
      rw [stop]
      exact hs
    | cons b bs =>
      exact Nat.lt_trans (hbs b (List.mem_cons_self ..))
        (hbelow hsorted last b (List.mem_cons_self ..))
  | clipped xs z zs split stop last le li hfi =>
    rw [List.length_nil, Nat.zero_add] at stop
    rw [hmax, List.nil_append] at li
    have hxs : xs.Pairwise (· < ·) := (List.pairwise_append.mp (split ▸ hsorted)).1
    refine .clipped xs z zs _ split stop ?_ (hbelow hxs last) le li hfi
    cases xs with
    | nil =>
      rw [stop]
      exact hs
    | cons x xs =>
      exact Nat.lt_trans (hbs x (by rw [split]; simp))
        (hbelow hxs last x (List.mem_cons_self ..))
  | shrunk ys z zs split pos stop last le li hfi =>
    rw [List.length_nil, Nat.zero_add] at stop pos last
    rw [hmax, List.nil_append] at li
    -- The range shrinks at a piece that has been added already, so there is a last one.
    rcases List.eq_nil_or_concat ys with rfl | ⟨xs, x, rfl⟩
    · exact absurd pos (by simp)
    · rw [List.concat_eq_append] at *
      have hx : (xs ++ [x]).getLastD lower = x := by simp
      rw [hx] at last le
      rw [List.length_append, List.length_singleton] at stop last
      refine .shrunk xs x z zs ?_ stop last le li hfi
      rw [split, List.append_assoc, List.singleton_append]

/-- How `build_segment` cuts a segment from a range `[s, c)` that is not empty. -/
theorem cutSegment_shape {header : AmdPduHeader} (hpos : ∀ l ∈ header.li, 0 < l) (hs : s < c)
    (hc32 : c < 2 ^ 32) (hn : 4 < n) :
    CutShape n s c ((pieceEnds 0 header.li).filter (s < ·))
      (pieceFi s 0 (pieceEnds 0 header.li) (headFi header s)) (cutSegment header n s c) := by
  have hle : pieceStart s 0 (pieceEnds 0 header.li) ≤ s := pieceStart_le (Nat.zero_le s) _
  have hseg : s < segEnd n s c 0 := by
    unfold segEnd liBytes
    omega
  have hout := buildSegmentLoop_pieces (Nat.le_of_lt hs) hc32 hn header.li 0 (headFi header s)
    hpos (Nat.zero_le s) (Nat.lt_of_le_of_lt hle hseg)
  rw [← shrinkSoEnd_start (Nat.le_of_lt hs) hc32 hn] at hout
  refine hout.shape hle hseg ?_ ((pairwise_pieceEnds hpos).filter _)
  intro b hb
  simpa using (List.mem_filter.mp hb).2

end

end SrsUE.Proofs.Rlc
