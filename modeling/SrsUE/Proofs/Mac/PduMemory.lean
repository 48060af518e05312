import SrsUE.Mac.PduMemory
import SrsUE.Proofs.Mac.SchFrame
import SrsUE.Proofs.Rlc.PduMemory

/-!
# `SrsUE.Proofs.Mac.PduMemory`: when parsing a MAC PDU is safe

A PDU is well formed when it starts with a header in the sense of `SubhHeader`, a chain of
subheaders that the first clear E bit ends, when the lengths in it are in their shortest form, and
when the payloads that it announces fit behind it. `parse_packet` checks nothing of this.

* `parseSafe_iff`: on the well-formed PDUs, and on no others, it stays inside the PDU and inside its
  array of subheaders, and reports payloads that make up the PDU.

The list reader of `SrsUE.Mac.Pdu` is in between: it takes exactly the headers that the loop on
memory reads without leaving the PDU (`subheadersInside_iff`), and these are the chains of the
grammar (`readSubheaders_sound`, `readSubheaders_complete`).
-/

set_option autoImplicit false

namespace SrsUE.Proofs.Mac

open SrsUE.Mac
open SrsUE.Rlc (Bytes sub32)
open SrsUE.Proofs.Rlc (Extends)

/-! ### The grammar of a header -/

/-- The bytes of a subheader with others behind it. -/
inductive SubhBytes (isUl : Bool) : Bytes → RxSubh → Prop where
  | ce (b0 : UInt8) : b0.toNat &&& 0x20 ≠ 0 → ¬b0.toNat &&& 0x1f < lcidPhrReport →
      SubhBytes isUl [b0]
        { lcid := b0.toNat &&& 0x1f, nofBytes := sizeofCe (b0.toNat &&& 0x1f) isUl }
  | short (b0 b1 : UInt8) : b0.toNat &&& 0x20 ≠ 0 → b0.toNat &&& 0x1f < lcidPhrReport →
      b1.toNat &&& 0x80 = 0 →
      SubhBytes isUl [b0, b1] { lcid := b0.toNat &&& 0x1f, nofBytes := b1.toNat &&& 0x7f }
  | long (b0 b1 b2 : UInt8) : b0.toNat &&& 0x20 ≠ 0 → b0.toNat &&& 0x1f < lcidPhrReport →
      b1.toNat &&& 0x80 ≠ 0 →
      SubhBytes isUl [b0, b1, b2]
        { lcid := b0.toNat &&& 0x1f, fBit := true
          nofBytes := (b1.toNat &&& 0x7f) <<< 8 ||| (b2.toNat &&& 0xff) }

/-- The bytes of a header, and its subheaders without the last one. The last one is a single
byte. -/
inductive SubhHeader (isUl : Bool) : Bytes → List RxSubh → Prop where
  | last (b0 : UInt8) : b0.toNat &&& 0x20 = 0 → SubhHeader isUl [b0] []
  | more {bytes header : Bytes} {s : RxSubh} {front : List RxSubh} : SubhBytes isUl bytes s →
      SubhHeader isUl header front → SubhHeader isUl (bytes ++ header) (s :: front)

/-- A length field of 15 bits for a length that fits 7. -/
def RxSubh.Overlong (s : RxSubh) : Prop := s.fBit = true ∧ s.nofBytes < 128

instance : DecidablePred RxSubh.Overlong := fun _ => inferInstanceAs (Decidable (_ ∧ _))

/-- The PDUs that `parse_packet` can be given. -/
def WellFormed (isUl : Bool) (maxSubheaders : Nat) (bytes : Bytes) : Prop :=
  ∃ header front rest, bytes = header ++ rest ∧ SubhHeader isUl header front ∧
    front.length < maxSubheaders ∧ (∀ s ∈ front, ¬RxSubh.Overlong s) ∧
    (front.map (·.nofBytes)).sum ≤ rest.length

section
variable {isUl : Bool} {bytes header rest : Bytes} {s : RxSubh} {front : List RxSubh}

/-- The mask leaves seven bits. -/
theorem and_seven_lt (n : Nat) : n &&& 0x7f < 128 := by
  rw [show (0x7f : Nat) = 2 ^ 7 - 1 from rfl, Nat.and_two_pow_sub_one_eq_mod]
  exact Nat.mod_lt _ (by decide)

/-- `size_plus_header` is one short on an overlong length field. -/
theorem SubhBytes.sizePlusHeader (h : SubhBytes isUl bytes s) :
    s.sizePlusHeader + (if RxSubh.Overlong s then 1 else 0) = bytes.length + s.nofBytes := by
  cases h with
  | ce b0 he hkind =>
    rw [RxSubh.sizePlusHeader, RxSubh.isSdu, if_neg (by simpa using hkind),
      if_neg fun h => Bool.false_ne_true h.1, Nat.add_zero]
    exact Nat.add_comm _ _
  | short b0 b1 he hkind hf =>
    rw [RxSubh.sizePlusHeader, RxSubh.isSdu, if_pos (by simpa using hkind),
      if_neg fun h => Bool.false_ne_true h.1, sizeHeaderSdu, if_pos (and_seven_lt _)]
    rfl
  | long b0 b1 b2 he hkind hf =>
    rw [RxSubh.sizePlusHeader, RxSubh.isSdu, if_pos (by simpa using hkind), sizeHeaderSdu]
    generalize hn : (b1.toNat &&& 0x7f) <<< 8 ||| (b2.toNat &&& 0xff) = n
    show (if n < 128 then 2 else 3) + n + _ = 3 + n
    by_cases hlt : n < 128
    · rw [if_pos hlt, if_pos ⟨rfl, hlt⟩]
      omega
    · rw [if_neg hlt, if_neg fun h => hlt h.2]
      omega

/-- A subheader has at least one byte. -/
theorem SubhBytes.length_pos (h : SubhBytes isUl bytes s) : 0 < bytes.length := by
  cases h <;> exact Nat.zero_lt_succ _

/-- A header has more bytes than subheaders in front of the last. -/
theorem SubhHeader.length_lt (h : SubhHeader isUl header front) : front.length < header.length := by
  induction h with
  | last b0 he => exact Nat.one_pos
  | more hs _ ih =>
    have := hs.length_pos
    rw [List.length_cons, List.length_append]
    omega

/-- The sum that `sch_pdu::parse_packet` subtracts, against what it stands for. -/
theorem SubhHeader.sizePlusHeader (h : SubhHeader isUl header front) :
    (front.map RxSubh.sizePlusHeader).sum + front.countP (fun s => RxSubh.Overlong s) + 1
      = header.length + (front.map (·.nofBytes)).sum := by
  induction h with
  | last b0 he => rfl
  | @more bytes header s front hs _ ih =>
    have hs := hs.sizePlusHeader
    rw [List.map_cons, List.map_cons, List.sum_cons, List.sum_cons, List.countP_cons,
      List.length_append]
    simp only [decide_eq_true_eq]
    omega

end

/-! ### The list reader -/

section
variable {isUl : Bool} {bytes header rest : Bytes} {s : RxSubh} {front : List RxSubh}

/-- The list reader takes a subheader from its bytes. -/
theorem SubhBytes.readSubheader (h : SubhBytes isUl bytes s) (rest : Bytes) :
    readSubheader isUl (bytes ++ rest) = some (true, s, rest) := by
  cases h with
  | ce b0 he hkind =>
    rw [List.singleton_append, readSubheader_ce rfl hkind, bne_iff_ne.mpr he]
  | short b0 b1 he hkind hf => exact readSubheader_short rfl hkind he hf
  | long b0 b1 b2 he hkind hf => exact readSubheader_long rfl hkind he hf

/-- A PDU that ends in front of a length field. -/
theorem readSubheader_noFirst {b0 : UInt8} (he : b0.toNat &&& 0x20 ≠ 0)
    (hkind : b0.toNat &&& 0x1f < lcidPhrReport) : readSubheader isUl [b0] = none := by
  simp only [readSubheader, bne_iff_ne.mpr he]
  rw [if_pos hkind, if_pos trivial]

/-- A PDU that ends inside a length field. -/
theorem readSubheader_noSecond {b0 b1 : UInt8} (he : b0.toNat &&& 0x20 ≠ 0)
    (hkind : b0.toNat &&& 0x1f < lcidPhrReport) (hf : b1.toNat &&& 0x80 ≠ 0) :
    readSubheader isUl [b0, b1] = none := by
  simp only [readSubheader, bne_iff_ne.mpr he, bne_iff_ne.mpr hf]
  rw [if_pos hkind, if_pos trivial, if_pos trivial]

/-- What `read_subheader` takes: a subheader with others behind it, or the last one. -/
theorem readSubheader_inv {eBit : Bool} (h : readSubheader isUl bytes = some (eBit, s, rest)) :
    (eBit = true ∧ ∃ used, bytes = used ++ rest ∧ SubhBytes isUl used s) ∨
      (eBit = false ∧ ∃ b0, bytes = b0 :: rest ∧ b0.toNat &&& 0x20 = 0) := by
  cases bytes with
  | nil => cases h
  | cons b0 tail =>
    by_cases he : b0.toNat &&& 0x20 = 0
    · right
      by_cases hkind : b0.toNat &&& 0x1f < lcidPhrReport
      · rw [readSubheader_noLength rfl hkind he] at h
        obtain ⟨rfl, -, rfl⟩ : false = eBit ∧ _ = s ∧ tail = rest := by simpa using h
        exact ⟨rfl, b0, rfl, he⟩
      · rw [readSubheader_ce rfl hkind, he] at h
        obtain ⟨rfl, -, rfl⟩ : false = eBit ∧ _ = s ∧ tail = rest := by simpa using h
        exact ⟨rfl, b0, rfl, he⟩
    left
    have hbit : (b0.toNat &&& 0x20 != 0) = true := bne_iff_ne.mpr he
    by_cases hkind : b0.toNat &&& 0x1f < lcidPhrReport
    · cases tail with
      | nil => rw [readSubheader_noFirst he hkind] at h; cases h
      | cons b1 tail =>
        by_cases hf : b1.toNat &&& 0x80 = 0
        · rw [readSubheader_short rfl hkind he hf] at h
          obtain ⟨rfl, rfl, rfl⟩ : true = eBit ∧ _ = s ∧ tail = rest := by simpa using h
          exact ⟨rfl, [b0, b1], rfl, .short b0 b1 he hkind hf⟩
        cases tail with
        | nil => rw [readSubheader_noSecond he hkind hf] at h; cases h
        | cons b2 tail =>
          rw [readSubheader_long rfl hkind he hf] at h
          obtain ⟨rfl, rfl, rfl⟩ : true = eBit ∧ _ = s ∧ tail = rest := by simpa using h
          exact ⟨rfl, [b0, b1, b2], rfl, .long b0 b1 b2 he hkind hf⟩
    · rw [readSubheader_ce rfl hkind, hbit] at h
      obtain ⟨rfl, rfl, rfl⟩ : true = eBit ∧ _ = s ∧ tail = rest := by simpa using h
      exact ⟨rfl, [b0], rfl, .ce b0 he hkind⟩

/-- The last subheader of a header. -/
theorem readSubheader_clearBit {b0 : UInt8} (he : b0.toNat &&& 0x20 = 0) (rest : Bytes) :
    ∃ s, readSubheader isUl (b0 :: rest) = some (false, s, rest) := by
  by_cases hkind : b0.toNat &&& 0x1f < lcidPhrReport
  · exact ⟨_, readSubheader_noLength rfl hkind he⟩
  · refine ⟨{ lcid := b0.toNat &&& 0x1f, nofBytes := sizeofCe (b0.toNat &&& 0x1f) isUl }, ?_⟩
    rw [readSubheader_ce rfl hkind, he]
    rfl

/-- It takes a header from its bytes. Induction on the subheaders. -/
theorem readSubheaders_complete (h : SubhHeader isUl header front) {slots : Nat}
    (hslots : front.length < slots) (rest : Bytes) :
    ∃ last, readSubheaders isUl slots (header ++ rest) = some (front ++ [last], rest) := by
  induction h generalizing slots with
  | last b0 he =>
    obtain ⟨slots, rfl⟩ : ∃ n, slots = n + 1 := ⟨slots - 1, by omega⟩
    obtain ⟨s, hs⟩ := readSubheader_clearBit he rest
    refine ⟨s, ?_⟩
    rw [List.singleton_append, readSubheaders, hs]
    rfl
  | @more bytes header s front hs _ ih =>
    obtain ⟨slots, rfl⟩ : ∃ n, slots = n + 1 := ⟨slots - 1, by omega⟩
    rw [List.length_cons] at hslots
    obtain ⟨last, ih⟩ := ih (show front.length < slots by omega)
    refine ⟨last, ?_⟩
    rw [List.append_assoc, readSubheaders, hs.readSubheader]
    show (readSubheaders isUl slots (header ++ rest)).map _ = _
    rw [ih]
    rfl

/-- What it takes is the bytes of a header. Induction on the room for subheaders. -/
theorem readSubheaders_sound {slots : Nat} {ss : List RxSubh}
    (h : readSubheaders isUl slots bytes = some (ss, rest)) :
    ∃ header front last, bytes = header ++ rest ∧ SubhHeader isUl header front ∧
      ss = front ++ [last] ∧ front.length < slots := by
  induction slots generalizing bytes ss with
  | zero => cases h
  | succ slots ih =>
    rw [readSubheaders] at h
    obtain ⟨⟨eBit, s, rest'⟩, hread, hloop⟩ := Option.bind_eq_some_iff.mp h
    obtain ⟨rfl, used, rfl, hused⟩ | ⟨rfl, b0, rfl, he⟩ := readSubheader_inv hread
    · obtain ⟨⟨ss', rest''⟩, htail, hss⟩ := Option.map_eq_some_iff.mp hloop
      obtain ⟨rfl, rfl⟩ : s :: ss' = ss ∧ rest'' = rest := by simpa using hss
      obtain ⟨header, front, last, rfl, hheader, rfl, hlt⟩ := ih htail
      exact ⟨used ++ header, s :: front, last, (List.append_assoc ..).symm, .more hused hheader,
        rfl,
        Nat.succ_lt_succ hlt⟩
    · obtain ⟨rfl, rfl⟩ : [s] = ss ∧ rest' = rest := by simpa using hloop
      exact ⟨[b0], [], s, rfl, .last b0 he, rfl, Nat.zero_lt_succ _⟩

end

/-! ### The loop on memory -/

section
variable {isUl : Bool} {mem : Nat → UInt8} {rest : Bytes} {ptr : Nat}

/-- Each subheader moves the pointer on. -/
theorem readSubheaderAt_pos (ptr : Nat) : 0 < (readSubheaderAt isUl mem ptr).2.2 := by
  simp only [readSubheaderAt]
  split <;> (try split) <;> (try split) <;> exact Nat.zero_lt_succ _

/-- `read_subheader` on memory and on a list: where the list reader gives up, a byte behind the list
is read. -/
theorem readSubheaderAt_cases (isUl : Bool) (hmem : Extends mem ptr rest) :
    (∃ eBit s n, readSubheaderAt isUl mem ptr = (eBit, s, n) ∧ n ≤ rest.length ∧
      readSubheader isUl rest = some (eBit, s, rest.drop n)) ∨
    (readSubheader isUl rest = none ∧ rest.length < (readSubheaderAt isUl mem ptr).2.2) := by
  cases rest with
  | nil => exact .inr ⟨rfl, readSubheaderAt_pos ptr⟩
  | cons b0 rest =>
    have h0 := hmem.head
    -- The three formats of an SDU subheader, by the bits that the reader looks at, and the control
    -- elements.
    by_cases hkind : b0.toNat &&& 0x1f < lcidPhrReport
    · by_cases he : b0.toNat &&& 0x20 = 0
      · refine .inl ⟨_, _, 1, ?_, Nat.succ_pos _, readSubheader_noLength rfl hkind he⟩
        simp only [readSubheaderAt, h0]
        rw [if_pos hkind, he]
        rfl
      have hbit : (b0.toNat &&& 0x20 != 0) = true := bne_iff_ne.mpr he
      cases rest with
      | nil =>
        refine .inr ⟨readSubheader_noFirst he hkind, ?_⟩
        simp only [readSubheaderAt, h0]
        rw [if_pos hkind, hbit, if_pos rfl]
        split <;> exact Nat.lt_add_of_pos_left (Nat.succ_pos _)
      | cons b1 rest =>
        have h1 := hmem.tail.head
        by_cases hf : b1.toNat &&& 0x80 = 0
        · refine .inl ⟨_, _, 2, ?_, Nat.le_add_left .., readSubheader_short rfl hkind he hf⟩
          simp only [readSubheaderAt, h0, h1]
          rw [if_pos hkind, hbit, if_pos rfl, hf]
          rfl
        have hfbit : (b1.toNat &&& 0x80 != 0) = true := bne_iff_ne.mpr hf
        cases rest with
        | nil =>
          refine .inr ⟨readSubheader_noSecond he hkind hf, ?_⟩
          simp only [readSubheaderAt, h0, h1]
          rw [if_pos hkind, hbit, if_pos rfl, hfbit, if_pos rfl]
          exact Nat.lt_succ_self 2
        | cons b2 rest =>
          refine .inl ⟨_, _, 3, ?_, Nat.le_add_left .., readSubheader_long rfl hkind he hf⟩
          simp only [readSubheaderAt, h0, h1, hmem.tail.tail.head]
          rw [if_pos hkind, hbit, if_pos rfl, hfbit, if_pos rfl]
    · refine .inl ⟨_, _, 1, ?_, Nat.succ_pos _, readSubheader_ce rfl hkind⟩
      simp only [readSubheaderAt, h0]
      rw [if_neg hkind]

end

section
variable {isUl : Bool} {mem : Nat → UInt8} {rest : Bytes} {s : SubhLoop}

/-- One round of the loop, with the subheader it reads. -/
theorem SubhLoop.round_eq {eBit : Bool} {subh : RxSubh} {n : Nat}
    (h : readSubheaderAt isUl mem s.ptr = (eBit, subh, n)) :
    s.round isUl mem =
      { ptr := s.ptr + n
        eBit := eBit
        subheaders := s.subheaders ++ [subh]
        reads := s.reads ++ List.range' s.ptr n } := by
  rw [SubhLoop.round, h]

/-- The loop ends when the E bit is clear. -/
theorem SubhLoop.run_of_end (h : s.eBit = false) (rounds : Nat) : s.run isUl mem rounds = s := by
  cases rounds with
  | zero => rfl
  | succ rounds => rw [SubhLoop.run, h, if_neg Bool.false_ne_true]

/-- Otherwise it takes a round. -/
theorem SubhLoop.run_succ (h : s.eBit = true) (rounds : Nat) :
    s.run isUl mem (rounds + 1) = (s.round isUl mem).run isUl mem rounds := by
  rw [SubhLoop.run, if_pos h]

/-- The loop stays inside a PDU of `len` bytes and inside the array. -/
def SubheadersInside (isUl : Bool) (mem : Nat → UInt8) (maxSubheaders len : Nat) (s : SubhLoop) :
    Prop :=
  ∀ rounds, (∀ i ∈ (s.run isUl mem rounds).reads, i < len) ∧
    (s.run isUl mem rounds).subheaders.length ≤ maxSubheaders

variable {maxSubheaders len : Nat}

/-- While it is inside, a round decides nothing. -/
theorem subheadersInside_round (he : s.eBit = true) (hreads : ∀ i ∈ s.reads, i < len)
    (hslots : s.subheaders.length ≤ maxSubheaders) :
    SubheadersInside isUl mem maxSubheaders len s ↔
      SubheadersInside isUl mem maxSubheaders len (s.round isUl mem) := by
  constructor
  · intro h rounds
    rw [← SubhLoop.run_succ he]
    exact h (rounds + 1)
  · intro h rounds
    cases rounds with
    | zero => exact ⟨hreads, hslots⟩
    | succ rounds =>
      rw [SubhLoop.run_succ he]
      exact h rounds

/-- The loop against the list reader, with `slots` free elements in the array. -/
theorem subheadersInside_iff {slots : Nat} (he : s.eBit = true) (hreads : ∀ i ∈ s.reads, i < len)
    (hslots : s.subheaders.length + slots = maxSubheaders) (hmem : Extends mem s.ptr rest)
    (hlen : s.ptr + rest.length = len) :
    SubheadersInside isUl mem maxSubheaders len s ↔ (readSubheaders isUl slots rest).isSome := by
  -- The induction is on the subheaders that the reader has room for.
  induction slots generalizing s rest with
  | zero =>
    refine iff_of_false (fun h => ?_) Bool.false_ne_true
    have := (h 1).2
    rw [SubhLoop.run_succ he, SubhLoop.run, SubhLoop.round, List.length_append,
      List.length_singleton] at this
    omega
  | succ slots ih =>
    rw [subheadersInside_round he hreads (by omega), readSubheaders]
    obtain ⟨eBit, subh, n, hat, hn, hread⟩ | ⟨hread, hpast⟩ := readSubheaderAt_cases isUl hmem
    · have hround := SubhLoop.round_eq hat
      have hreads' : ∀ i ∈ (s.round isUl mem).reads, i < len := by
        intro i hi
        rw [hround, List.mem_append, List.mem_range'_1] at hi
        rcases hi with hi | hi
        · exact hreads i hi
        · omega
      have hcount : (s.round isUl mem).subheaders.length = s.subheaders.length + 1 := by
        rw [hround, List.length_append, List.length_singleton]
      rw [hread]
      cases eBit with
      | true =>
        show _ ↔ ((readSubheaders isUl slots (rest.drop n)).map _).isSome
        rw [Option.isSome_map]
        refine ih (by rw [hround]) hreads' (by omega) ?_ ?_
        · rw [hround]
          exact hmem.drop n
        · rw [hround, List.length_drop]
          show s.ptr + n + _ = len
          omega
      | false =>
        refine iff_of_true (fun rounds => ?_) rfl
        rw [SubhLoop.run_of_end (by rw [hround])]
        exact ⟨hreads', by omega⟩
    · -- The first byte behind the PDU is among those that this round reads.
      rw [hread]
      refine iff_of_false (fun h => ?_) Bool.false_ne_true
      have hbehind : len ∈ ((s.round isUl mem).run isUl mem 0).reads := by
        refine List.mem_append_right _ (List.mem_range'_1.mpr ⟨by omega, ?_⟩)
        rw [← hlen]
        exact Nat.add_lt_add_left hpast _
      exact Nat.lt_irrefl _ ((h 0).1 _ hbehind)

/-- Where the list reader takes the header the loop ends, with the same subheaders and at the same
place. -/
theorem SubhLoop.run_of_readSubheaders {slots : Nat} {ss : List RxSubh} {rest' : Bytes}
    (he : s.eBit = true) (hmem : Extends mem s.ptr rest)
    (hread : readSubheaders isUl slots rest = some (ss, rest')) :
    (∃ rounds, (s.run isUl mem rounds).eBit = false) ∧
      ∀ rounds, (s.run isUl mem rounds).eBit = false →
        (s.run isUl mem rounds).subheaders = s.subheaders ++ ss ∧
          (s.run isUl mem rounds).ptr + rest'.length = s.ptr + rest.length := by
  induction slots generalizing s rest ss with
  | zero => cases hread
  | succ slots ih =>
    rw [readSubheaders] at hread
    obtain ⟨eBit, subh, n, hat, hn, hfirst⟩ | ⟨hnone, -⟩ := readSubheaderAt_cases isUl hmem
    swap
    · rw [hnone] at hread
      cases hread
    rw [hfirst] at hread
    have hround := SubhLoop.round_eq hat
    have hlen : (s.round isUl mem).ptr + (rest.drop n).length = s.ptr + rest.length := by
      rw [hround, List.length_drop]
      show s.ptr + n + _ = _
      omega
    have hsubh : (s.round isUl mem).subheaders = s.subheaders ++ [subh] := by rw [hround]
    -- It is enough to look at the rounds behind the first one.
    suffices hnext : (∃ rounds, ((s.round isUl mem).run isUl mem rounds).eBit = false) ∧
        ∀ rounds, ((s.round isUl mem).run isUl mem rounds).eBit = false →
          ((s.round isUl mem).run isUl mem rounds).subheaders = s.subheaders ++ ss ∧
            ((s.round isUl mem).run isUl mem rounds).ptr + rest'.length = s.ptr + rest.length by
      obtain ⟨⟨rounds, hend⟩, hall⟩ := hnext
      refine ⟨⟨rounds + 1, by rw [SubhLoop.run_succ he, hend]⟩, fun rounds hend => ?_⟩
      cases rounds with
      | zero => exact absurd (he.symm.trans hend) (by decide)
      | succ rounds =>
        rw [SubhLoop.run_succ he] at hend ⊢
        exact hall rounds hend
    cases eBit with
    | true =>
      obtain ⟨⟨tail, rest''⟩, htail, hss⟩ := Option.map_eq_some_iff.mp hread
      obtain ⟨rfl, rfl⟩ : subh :: tail = ss ∧ rest'' = rest' := by simpa using hss
      have hbit : (s.round isUl mem).eBit = true := by rw [hround]
      have hmem' : Extends mem (s.round isUl mem).ptr (rest.drop n) := by
        rw [hround]
        exact hmem.drop n
      have ih := ih hbit hmem' htail
      rwa [hlen, hsubh, List.append_assoc] at ih
    | false =>
      obtain ⟨rfl, rfl⟩ : [subh] = ss ∧ rest.drop n = rest' := by simpa using hread
      have hend : (s.round isUl mem).eBit = false := by rw [hround]
      refine ⟨⟨0, hend⟩, fun rounds _ => ?_⟩
      rw [SubhLoop.run_of_end hend]
      exact ⟨hsubh, hlen⟩

end

/-! ### The payloads -/

section
variable {isUl : Bool} {header rest : Bytes} {front : List RxSubh}

/-- The payloads are laid out one behind the other. -/
theorem payload_le_of_mem_readPayloads {ptr : Nat} {ss : List RxSubh} {s : RxSubh}
    (h : s ∈ readPayloads ptr ss) : s.payload + s.nofBytes ≤ ptr + (ss.map (·.nofBytes)).sum := by
  induction ss generalizing ptr with
  | nil => cases h
  | cons t ss ih =>
    rw [List.map_cons, List.sum_cons]
    rcases List.mem_cons.mp h with rfl | h
    · show ptr + t.nofBytes ≤ _
      omega
    · have := ih h
      omega

/-- The reported payloads make up a PDU of `len` bytes, together with a header of `ptr`. -/
def Reported (ptr len : Nat) (ss : List RxSubh) : Prop :=
  (∀ s ∈ ss, s.payload + s.nofBytes ≤ len) ∧ ptr + (ss.map (·.nofBytes)).sum = len

/-- What is left of `len` behind `readLen` and one more byte, as the source computes it. -/
theorem lastSize_mod {len : Nat} (hlen : len < 2 ^ 32) (readLen : Nat) :
    sub32 (sub32 len (readLen % 2 ^ 32)) 1 < 2 ^ 32 ∧
      (sub32 (sub32 len (readLen % 2 ^ 32)) 1 + readLen + 1) % 2 ^ 32 = len := by
  have hmod : readLen % 2 ^ 32 < 2 ^ 32 := Nat.mod_lt _ (by decide)
  unfold sub32
  split <;> split <;> omega

/-- The size that the last payload is given is right unless a length field is overlong or the
payloads in front of it are too large: the difference is taken modulo `2 ^ 32`. -/
theorem reported_iff (h : SubhHeader isUl header front) (last : RxSubh)
    (hlen : header.length + rest.length < 2 ^ 32) :
    Reported header.length (header.length + rest.length)
        (correctLast (header.length + rest.length)
          (readPayloads header.length (front ++ [last]))) ↔
      (∀ s ∈ front, ¬RxSubh.Overlong s) ∧ (front.map (·.nofBytes)).sum ≤ rest.length := by
  have hsizes := h.sizePlusHeader
  have hcount : front.countP (fun s => RxSubh.Overlong s) < header.length :=
    Nat.lt_of_le_of_lt List.countP_le_length h.length_lt
  have hoverlong : (∀ s ∈ front, ¬RxSubh.Overlong s) ↔
      front.countP (fun s => RxSubh.Overlong s) = 0 := by
    rw [List.countP_eq_zero]
    simp only [decide_eq_true_eq]
  rw [readPayloads_append, readPayloads, readPayloads, correctLast_concat,
    map_readPayloads RxSubh.sizePlusHeader fun _ _ => rfl, hoverlong, Reported, List.map_append,
    map_readPayloads (·.nofBytes) fun _ _ => rfl, List.sum_append, List.map_singleton,
    List.sum_singleton]
  have hfront : ∀ s ∈ readPayloads header.length front,
      s.payload + s.nofBytes ≤ header.length + (front.map (·.nofBytes)).sum :=
    fun s hs => payload_le_of_mem_readPayloads hs
  -- The sizes are numbers from here on: only the size of the last SDU depends on the wrap.
  generalize front.countP (fun s => RxSubh.Overlong s) = overlong at *
  generalize (front.map (·.nofBytes)).sum = announced at *
  generalize (front.map RxSubh.sizePlusHeader).sum = readLen at *
  obtain ⟨hsmall, hmod⟩ := lastSize_mod hlen readLen
  generalize sub32 (sub32 (header.length + rest.length) (readLen % 2 ^ 32)) 1 = size at *
  constructor
  · rintro ⟨-, hsum⟩
    have hsum : header.length + (announced + size) = header.length + rest.length := hsum
    omega
  · rintro ⟨hnone, hfits⟩
    have hsum : header.length + (announced + size) = header.length + rest.length := by omega
    refine ⟨fun s hs => ?_, hsum⟩
    rcases List.mem_append.mp hs with hs | hs
    · have := hfront s hs
      omega
    · rw [List.mem_singleton.mp hs]
      show header.length + announced + size ≤ _
      omega

end

/-! ### Safety -/

/-- `parse_packet` on a PDU of `pduLen` bytes at the start of `mem`: it ends, stays inside the PDU
and its array, and reports payloads that make up the PDU. It has no way to reject one. -/
structure ParseSafe (isUl : Bool) (maxSubheaders : Nat) (mem : Nat → UInt8) (pduLen : Nat) :
    Prop where
  inside : SubheadersInside isUl mem maxSubheaders pduLen {}
  ends : ∃ rounds, (SubhLoop.run isUl mem rounds {}).eBit = false
  reported : ∀ rounds, (SubhLoop.run isUl mem rounds {}).eBit = false →
    Reported (SubhLoop.run isUl mem rounds {}).ptr pduLen
      ((SubhLoop.run isUl mem rounds {}).parsed pduLen)

section
variable {isUl : Bool} {maxSubheaders : Nat} {mem : Nat → UInt8}

/-- The end of the loop on a PDU whose header the list reader takes. -/
theorem reported_run_iff {header rest : Bytes} {front : List RxSubh} {last : RxSubh}
    (hheader : SubhHeader isUl header front) (hmem : Extends mem 0 (header ++ rest))
    (hlen : (header ++ rest).length < 2 ^ 32)
    (hread : readSubheaders isUl maxSubheaders (header ++ rest) = some (front ++ [last], rest))
    {rounds : Nat} (hend : (SubhLoop.run isUl mem rounds {}).eBit = false) :
    Reported (SubhLoop.run isUl mem rounds {}).ptr (header ++ rest).length
        ((SubhLoop.run isUl mem rounds {}).parsed (header ++ rest).length) ↔
      (∀ s ∈ front, ¬RxSubh.Overlong s) ∧ (front.map (·.nofBytes)).sum ≤ rest.length := by
  obtain ⟨-, hstate⟩ := SubhLoop.run_of_readSubheaders (s := {}) rfl hmem hread
  obtain ⟨hss, hptr⟩ := hstate rounds hend
  rw [List.length_append] at hlen hptr
  have hptr : (SubhLoop.run isUl mem rounds {}).ptr = header.length := by
    have : _ = 0 + (header.length + rest.length) := hptr
    omega
  rw [SubhLoop.parsed, hss, hptr, List.nil_append, List.length_append]
  exact reported_iff hheader last hlen

/-- `parse_packet` is safe for exactly the well-formed PDUs, whatever is behind them in memory. -/
theorem parseSafe_iff {bytes : Bytes} (hmem : Extends mem 0 bytes) (hlen : bytes.length < 2 ^ 32) :
    ParseSafe isUl maxSubheaders mem bytes.length ↔ WellFormed isUl maxSubheaders bytes := by
  have hinside : SubheadersInside isUl mem maxSubheaders bytes.length {} ↔
      (readSubheaders isUl maxSubheaders bytes).isSome :=
    subheadersInside_iff rfl (List.forall_mem_nil _) (Nat.zero_add _) hmem (Nat.zero_add _)
  constructor
  · intro h
    obtain ⟨⟨ss, rest⟩, hread⟩ := Option.isSome_iff_exists.mp (hinside.mp h.inside)
    obtain ⟨header, front, last, rfl, hheader, rfl, hslots⟩ := readSubheaders_sound hread
    obtain ⟨rounds, hend⟩ := h.ends
    obtain ⟨hshort, hfits⟩ :=
      (reported_run_iff hheader hmem hlen hread hend).mp (h.reported rounds hend)
    exact ⟨header, front, rest, rfl, hheader, hslots, hshort, hfits⟩
  · rintro ⟨header, front, rest, rfl, hheader, hslots, hshort, hfits⟩
    obtain ⟨last, hread⟩ := readSubheaders_complete hheader hslots rest
    refine ⟨hinside.mpr (by rw [hread]; rfl), ?_, fun rounds hend => ?_⟩
    · exact (SubhLoop.run_of_readSubheaders (s := {}) rfl hmem hread).1
    · exact (reported_run_iff hheader hmem hlen hread hend).mpr ⟨hshort, hfits⟩

end

/-- An SDU of two bytes on channel 1, and padding. -/
def shortPdu : Bytes := [0x21, 0x02, 0x1f, 0xaa, 0xbb, 0x00]

/-- An SDU of five bytes on channel 1, of which there are none, and padding. -/
def cutOffPdu : Bytes := [0x21, 0x05, 0x1f]

/-- The memory behind a PDU is zero. -/
def zeroBehind (bytes : Bytes) (i : Nat) : UInt8 := bytes.getD i 0

/-- The memory holds the PDU at its start. -/
theorem extends_zeroBehind (bytes : Bytes) : Extends (zeroBehind bytes) 0 bytes := by
  intro i x hx
  rw [zeroBehind, Nat.zero_add, List.getD_eq_getElem?_getD, hx]
  rfl

/-- It is safe for a PDU with an SDU and padding. -/
theorem parseSafe_iff_shortPdu : ParseSafe false 20 (zeroBehind shortPdu) 6 := by
  refine (parseSafe_iff (extends_zeroBehind shortPdu) (by decide)).mpr
    ⟨[0x21, 0x02, 0x1f], [{ lcid := 1, nofBytes := 2 }], [0xaa, 0xbb, 0x00], rfl, ?_, by decide,
      by decide, by decide⟩
  have hsdu : SubhBytes false [0x21, 0x02] { lcid := 1, nofBytes := 2 } :=
    .short 0x21 0x02 (by decide) (by decide) (by decide)
  exact .more hsdu (.last 0x1f (by decide))

/-- The SDU is reported from the end of the PDU on. -/
theorem not_parseSafe_cutOff : ¬ParseSafe false 20 (zeroBehind cutOffPdu) 3 := by
  intro h
  have hend : (SubhLoop.run false (zeroBehind cutOffPdu) 2 {}).eBit = false := by decide
  have hsdu := (h.reported 2 hend).1 { lcid := 1, nofBytes := 5, payload := 3 } (by decide)
  exact absurd hsdu (by decide)

end SrsUE.Proofs.Mac
