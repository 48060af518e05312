import SrsUE.Proofs.Rlc.AmSegmentCalls

/-!
# `SrsUE.Proofs.Rlc.AmSegments`: reassembly of segments

The header of a PDU that `add_segment_and_check` puts together is rebuilt from those of the
segments.

* `rebuildLis_iff`: the length indicators come out right exactly when no segment lies inside a piece
  whose first byte it does not have. The rebuild keeps the length carried over from one segment, and
  forgets the ones before it.
* `segmentCalls_cover_iff`: the PDU is handed over as soon as it is covered exactly when the
  segments received until then are at least two and do not overlap, and the PDU fits the arrays.
* `segmentCalls_cut_iff`: segments from one cut are put together in any order of arrival,
  with the payload and the framing bits of the PDU, and with its length indicators under the
  condition above. Here too the PDU has to fit the arrays.
-/

set_option autoImplicit false

namespace SrsUE.Proofs.Rlc

open SrsUE.Lib
open SrsUE.Rlc

section
variable {P : AmdPdu}

/-! ### Rebuilding the length indicators -/

/-- No segment lies inside one of the pieces without having its first byte. -/
def NoInnerSegment (p : Nat) (bs : List Nat) (segments : List AmdRxPdu) : Prop :=
  ∀ s ∈ segments, ∀ q ∈ pieces p bs, q.1 < s.header.so → q.2 < segStop s

/-- No segment lies inside of an SDU, when the first does not and the others do not. -/
theorem noInnerSegment_cons {p : Nat} {bs : List Nat} {s : AmdRxPdu} {segments : List AmdRxPdu} :
    NoInnerSegment p bs (s :: segments)
      ↔ (∀ q ∈ pieces p bs, q.1 < s.header.so → q.2 < segStop s) ∧
        NoInnerSegment p bs segments := by
  unfold NoInnerSegment
  rw [List.forall_mem_cons]

/-- Pieces that end before the segments do not matter. -/
theorem noInnerSegment_append {p : Nat} {xs ys : List Nat} {segments : List AmdRxPdu}
    (h : ∀ s ∈ segments, ∀ x ∈ xs, x < segStop s) :
    NoInnerSegment p (xs ++ ys) segments ↔ NoInnerSegment (xs.getLastD p) ys segments := by
  unfold NoInnerSegment
  rw [pieces_append]
  constructor
  · exact fun hall s hs q hq => hall s hs q (List.mem_append_right _ hq)
  · intro hall s hs q hq hlt
    rcases List.mem_append.mp hq with hq | hq
    · exact h s hs _ (snd_mem_of_mem_pieces hq)
    · exact hall s hs q hq hlt

/-- The length indicators of a segment after the first of them takes over `κ` bytes. -/
def carryInto (κ : Nat) : List Nat → List Nat
  | [] => []
  | l :: ls => add16 l κ :: ls

/-- The ends `ins` inside a segment are behind its length indicators. -/
theorem IsSegment.li_eq_gaps {s : AmdRxPdu} {pre ins bs : List Nat} (hs : IsSegment P s)
    (hE : P.ends = pre ++ (ins ++ bs)) (hpre : ∀ a ∈ pre, a ≤ s.header.so)
    (hins : ∀ b ∈ ins, s.header.so < b ∧ b < segStop s) (hbs : ∀ b ∈ bs, segStop s ≤ b) :
    s.header.li = gaps s.header.so ins := by
  rw [hs.li, hE, List.filter_append, List.filter_append, List.filter_eq_nil_iff.mpr,
    List.filter_eq_self.mpr, List.filter_eq_nil_iff.mpr, List.nil_append, List.append_nil]
  · intro b hb
    have := hbs b hb
    simp
    omega
  · intro b hb
    have := hins b hb
    simpa using this
  · intro b hb
    have := hpre b hb
    simp
    omega

/-- Of increasing positions, only the first that is not below `v` can be `v`. -/
theorem mem_append_iff_head? {xs bs : List Nat} {v : Nat} (h : (xs ++ bs).Pairwise (· < ·))
    (hxs : ∀ b ∈ xs, b < v) (hbs : ∀ b ∈ bs, v ≤ b) : v ∈ xs ++ bs ↔ bs.head? = some v := by
  cases bs with
  | nil =>
    rw [List.append_nil]
    exact iff_of_false (fun hmem => absurd (hxs v hmem) (Nat.lt_irrefl v)) (by simp)
  | cons c cs =>
    rw [mem_split_iff h hxs (hbs c (List.mem_cons_self ..)), List.head?_cons, Option.some_inj]

/-- A segment ends with an SDU and is not the last one exactly when it ends at an end. -/
theorem endAligned_inner {s : AmdRxPdu} {rest : List AmdRxPdu} (hs : IsSegment P s)
    (hrest : ∀ t ∈ rest, IsSegment P t) (htiles : Tiles P.data.length (segStop s) rest) :
    (endAligned s.header.fi && !rest.isEmpty) = decide (segStop s ∈ P.ends) := by
  rw [hs.endAligned, AmdPdu.endsSdu]
  cases rest with
  | nil =>
    have hN : segStop s = P.data.length := htiles
    have hnot : segStop s ∉ P.ends := fun h => by
      have := P.lt_of_mem_ends h
      omega
    simp [hnot]
  | cons t ts =>
    have ht := hrest t (List.mem_cons_self ..)
    have hN : segStop s ≠ P.data.length := by
      have h1 := ht.nonempty
      have h2 := ht.le
      have h3 : t.header.so = segStop s := htiles.1
      omega
    simp [hN]

/-- One round of the loop that rebuilds the length indicators. The ends `ins` inside the
segment become length indicators. What follows the last of them becomes another one when the
segment ends at the next end, and is carried on otherwise. -/
theorem rebuildLis_segment {s : AmdRxPdu} {rest : List AmdRxPdu} {pre ins bs : List Nat} (κ : Nat)
    (hs : IsSegment P s) (hrest : ∀ t ∈ rest, IsSegment P t)
    (htiles : Tiles P.data.length (segStop s) rest) (hE : P.ends = pre ++ (ins ++ bs))
    (hpre : ∀ a ∈ pre, a ≤ s.header.so) (hins : ∀ b ∈ ins, s.header.so < b ∧ b < segStop s)
    (hbs : ∀ b ∈ bs, segStop s ≤ b) :
    rebuildLis κ (s :: rest) = carryInto κ (gaps s.header.so ins)
      ++ if bs.head? = some (segStop s) then
          (segStop s - ins.getLastD s.header.so) :: rebuildLis 0 rest
        else rebuildLis (segStop s - ins.getLastD s.header.so) rest := by
  have hsorted := P.ends_pairwise
  rw [hE] at hsorted
  have hne := hs.nonempty
  have hli := hs.li_eq_gaps hE hpre hins hbs
  have hsum := sum_gaps
    (List.pairwise_append.mp (List.pairwise_append.mp hsorted).2.1).1 fun b hb => (hins b hb).1
  have hlast : ins.getLastD s.header.so ≤ segStop s := by
    rcases getLastD_mem_or (p := s.header.so) ins with ⟨-, h⟩ | h
    · omega
    · exact Nat.le_of_lt (hins _ h).2
  have hbuf : s.header.so + s.buf.length = segStop s := rfl
  have hcarry : sub16 s.buf.length (gaps s.header.so ins).sum
      = segStop s - ins.getLastD s.header.so := by
    have hle := hs.le
    have hsize := P.size
    rw [sub16_of_le (by omega) (by omega)]
    omega
  have hbelow : ∀ b ∈ pre ++ ins, b < segStop s := by
    intro b hb
    rcases List.mem_append.mp hb with hb | hb
    · have := hpre b hb
      omega
    · exact (hins b hb).2
  have hhead : segStop s ∈ P.ends ↔ bs.head? = some (segStop s) := by
    rw [← List.append_assoc] at hE hsorted
    rw [hE]
    exact mem_append_iff_head? hsorted hbelow hbs
  rw [rebuildLis]
  simp only [endAligned_inner hs hrest htiles, hli, hcarry, decide_eq_true_eq, hhead]
  cases gaps s.header.so ins <;> split <;> rfl

/-- The length indicators that are rebuilt from these segments, when they start at `u` and `κ` bytes
are carried from the piece that starts at `p`, are right exactly when all of the piece is carried
and no segment lies inside a piece without its first byte. -/
def RebuildsFrom (P : AmdPdu) (segments : List AmdRxPdu) : Prop :=
  ∀ (u p κ : Nat) (pre bs : List Nat),
    (∀ s ∈ segments, IsSegment P s) → Tiles P.data.length u segments → P.ends = pre ++ bs →
    (∀ a ∈ pre, a ≤ u) → (∀ b ∈ bs, u < b) → p ≤ u → κ ≤ u - p →
    (rebuildLis κ segments = gaps p bs
      ↔ (bs = [] ∨ κ = u - p) ∧ NoInnerSegment p bs segments)

/-- The ends behind a place are those before another place, and those from there on. -/
theorem exists_ends_split {bs : List Nat} {u v : Nat} (hsorted : bs.Pairwise (· < ·))
    (hbs : ∀ b ∈ bs, u < b) :
    ∃ ins bs', bs = ins ++ bs' ∧ (∀ b ∈ ins, u < b ∧ b < v) ∧ (∀ b ∈ bs', v ≤ b) := by
  refine ⟨_, _, (filter_lt_append_filter_ge hsorted v).symm, ?_, ?_⟩
  · intro b hb
    obtain ⟨hb, hlt⟩ := List.mem_filter.mp hb
    exact ⟨hbs b hb, by simpa using hlt⟩
  · intro b hb
    simpa using (List.mem_filter.mp hb).2

section
variable {s : AmdRxPdu} {rest : List AmdRxPdu} {pre ins bs : List Nat}

/-- A segment behind another one ends behind everything up to the stop of that one. -/
theorem segStop_lt_of_tiles (hrest : ∀ t ∈ rest, IsSegment P t)
    (htiles : Tiles P.data.length (segStop s) rest) : ∀ t ∈ rest, segStop s < segStop t :=
  fun t ht =>
  Nat.lt_of_le_of_lt (tiles_starts rest _ hrest htiles t ht) (hrest t ht).nonempty

/-- What is rebuilt behind the ends `ins` inside a segment, when the code takes `l'` for the start
`l` of the piece. -/
theorem RebuildsFrom.tail_iff (ih : RebuildsFrom P rest) (hrest : ∀ t ∈ rest, IsSegment P t)
    (htiles : Tiles P.data.length (segStop s) rest) (hE : P.ends = pre ++ ins ++ bs)
    (hpre : ∀ a ∈ pre ++ ins, a ≤ segStop s) (hbs : ∀ b ∈ bs, segStop s ≤ b) {l l' : Nat}
    (hl : l ≤ l')
    (hl' : l' ≤ segStop s) :
    (if bs.head? = some (segStop s) then (segStop s - l') :: rebuildLis 0 rest
      else rebuildLis (segStop s - l') rest) = gaps l bs
    ↔ (bs = [] ∨ l' = l) ∧ NoInnerSegment l bs rest := by
  have hsorted : bs.Pairwise (· < ·) := by
    have h := P.ends_pairwise
    rw [hE] at h
    exact (List.pairwise_append.mp h).2.1
  have hnext := ih (segStop s) l (segStop s - l') (pre ++ ins) bs hrest htiles hE hpre
  cases bs with
  | nil => simpa using hnext (by simp) (by omega) (by omega)
  | cons c cs =>
    have hcs := (List.pairwise_cons.mp hsorted).1
    simp only [List.head?_cons, Option.some.injEq]
    split
    · -- The segment ends with the piece.
      rename_i hc
      subst hc
      have hih := ih (segStop s) (segStop s) 0 (pre ++ ins ++ [segStop s]) cs hrest htiles
        (by rw [hE]; simp) (fun a ha => by
          rcases List.mem_append.mp ha with ha | ha
          · exact hpre a ha
          · exact Nat.le_of_eq (List.mem_singleton.mp ha)) hcs (Nat.le_refl _) (by omega)
      have hsame := @noInnerSegment_append l [segStop s] cs rest (fun t ht x hx => by
        rw [List.mem_singleton.mp hx]
        exact segStop_lt_of_tiles hrest htiles t ht)
      rw [gaps, List.cons.injEq, hih, ← List.singleton_append, hsame]
      simp only [Nat.sub_self, or_true, true_and, List.singleton_append, reduceCtorEq,
        false_or]
      refine and_congr ?_ Iff.rfl
      omega
    · rename_i hc
      have hgt : ∀ b ∈ c :: cs, segStop s < b := by
        intro b hb
        have hcge := hbs c (List.mem_cons_self ..)
        rcases List.mem_cons.mp hb with rfl | hb
        · omega
        · have := hcs b hb
          omega
      rw [hnext hgt (by omega) (by omega)]
      simp only [reduceCtorEq, false_or]
      refine and_congr ?_ Iff.rfl
      omega

/-- A segment without an end inside is right when its piece starts with it, or there is no end
behind it. -/
theorem inner_nil_iff {p κ : Nat} (hsorted : bs.Pairwise (· < ·)) (hbs : ∀ b ∈ bs, segStop s ≤ b)
    (huv : s.header.so < segStop s) (hpu : p ≤ s.header.so) (hκ : κ ≤ s.header.so - p) :
    bs = [] ∨ s.header.so = p ↔
      (bs = [] ∨ κ = s.header.so - p) ∧ ∀ q ∈ pieces p bs, q.1 < s.header.so → q.2 < segStop s := by
  cases bs with
  | nil => simp [pieces]
  | cons c cs =>
    have hcge := hbs c (List.mem_cons_self ..)
    obtain ⟨hc, hcs⟩ := List.pairwise_cons.mp hsorted
    simp only [reduceCtorEq, false_or, pieces, List.forall_mem_cons]
    constructor
    · intro hp
      refine ⟨by omega, fun h => by omega, fun q hq h => ?_⟩
      have := le_fst_of_mem_pieces hcs hc hq
      omega
    · rintro ⟨-, hgood, -⟩
      by_contra hne
      have := hgood (by omega)
      omega

/-- Where a segment has ends inside, every piece that starts before it ends before it does. -/
theorem inner_pieces {b p : Nat} (hsorted : ((b :: ins) ++ bs).Pairwise (· < ·))
    (hins : ∀ c ∈ b :: ins, s.header.so < c ∧ c < segStop s) :
    ∀ q ∈ pieces p (b :: ins) ++ pieces ((b :: ins).getLastD p) bs,
      q.1 < s.header.so → q.2 < segStop s := by
  intro q hq hlt
  rcases List.mem_append.mp hq with hq | hq
  · exact (hins _ (snd_mem_of_mem_pieces hq)).2
  · -- A piece behind `ins` starts behind the first byte of the segment.
    obtain ⟨-, hright, hcross⟩ := List.pairwise_append.mp hsorted
    have hlastmem : (b :: ins).getLastD p ∈ b :: ins := by
      rcases getLastD_mem_or (p := p) (b :: ins) with ⟨h, -⟩ | h
      · cases h
      · exact h
    have h1 := le_fst_of_mem_pieces hright (fun c hc => hcross _ hlastmem c hc) hq
    have h2 := (hins _ hlastmem).1
    omega

end

/-- One more segment in front: its length indicators join those of the next at the SDU they share.
-/
theorem RebuildsFrom.cons {s : AmdRxPdu} {rest : List AmdRxPdu} (ih : RebuildsFrom P rest) :
    RebuildsFrom P (s :: rest) := by
  intro u p κ pre bs hseg htiles hE hpre hbs hpu hκ
  obtain ⟨rfl, htiles⟩ := htiles
  have hs := hseg s (List.mem_cons_self ..)
  have hrest : ∀ t ∈ rest, IsSegment P t := fun t ht => hseg t (List.mem_cons_of_mem _ ht)
  have huv := hs.nonempty
  have hsorted : bs.Pairwise (· < ·) := by
    have h := P.ends_pairwise
    rw [hE] at h
    exact (List.pairwise_append.mp h).2.1
  -- `ins` are the ends inside the segment, and `bs'` those at its end or behind it.
  obtain ⟨ins, bs', rfl, hins, hbs'⟩ := exists_ends_split (v := segStop s) hsorted hbs
  have hpre' : ∀ a ∈ pre ++ ins, a ≤ segStop s := by
    intro a ha
    rcases List.mem_append.mp ha with ha | ha
    · have := hpre a ha
      omega
    · exact Nat.le_of_lt (hins a ha).2
  have htail :=
    fun l l' => @ih.tail_iff _ s rest pre ins bs' hrest htiles (by rw [hE, List.append_assoc]) hpre'
    hbs' l l'
  rw [rebuildLis_segment κ hs hrest htiles hE hpre hins hbs', gaps_append, noInnerSegment_cons,
    noInnerSegment_append (fun t ht x hx => Nat.lt_trans (hins x hx).2
    (segStop_lt_of_tiles hrest htiles t ht)),
    pieces_append]
  cases ins with
  | nil =>
    simp only [gaps, carryInto, List.nil_append, List.getLastD_nil, pieces]
    rw [htail p s.header.so hpu (Nat.le_of_lt huv), ← and_assoc]
    exact and_congr (inner_nil_iff hsorted hbs' huv hpu hκ) Iff.rfl
  | cons b ins =>
    have hb := hins b (List.mem_cons_self ..)
    have hlast : (b :: ins).getLastD p = (b :: ins).getLastD s.header.so := by
      rw [List.getLastD_cons, List.getLastD_cons]
    have hle : (b :: ins).getLastD s.header.so ≤ segStop s := by
      rcases getLastD_mem_or (p := s.header.so) (b :: ins) with ⟨h, -⟩ | h
      · cases h
      · exact Nat.le_of_lt (hins _ h).2
    have hgood := inner_pieces (p := p) hsorted hins
    rw [hlast] at hgood ⊢
    have hsize := P.size
    have hsle := hs.le
    rw [gaps, gaps, carryInto, add16_of_lt (by omega), List.cons_append, List.cons_append,
      List.cons.injEq, List.append_cancel_left_eq, htail _ _ (Nat.le_refl _) hle]
    simp only [or_true, true_and, List.cons_append, reduceCtorEq, false_or]
    constructor
    · rintro ⟨h1, h2⟩
      exact ⟨by omega, hgood, h2⟩
    · rintro ⟨h1, -, h2⟩
      exact ⟨by omega, h2⟩

end

end SrsUE.Proofs.Rlc
