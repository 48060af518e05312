import SrsUE.Rlc.PduMemory
import SrsUE.Proofs.Rlc.AmCodec
import SrsUE.Proofs.Rlc.UmPdus

/-!
# `SrsUE.Proofs.Rlc.PduMemory`: the header readers stay inside a PDU

The readers on memory and those on lists agree. On a PDU that the list reader takes, the source
reads bytes of the PDU only, and stores at most 512 entries. On any other PDU it does not.

* `amHeaderInside_iff`, `umHeaderInside_iff`: headers of data PDUs.
* `statusInside_iff`: status PDUs.
-/

set_option autoImplicit false

namespace SrsUE.Proofs.Rlc

open SrsUE.Rlc

/-- The memory holds the list from the offset `off` on. What is behind it may be anything. -/
def Extends {τ : Type} (mem : Nat → τ) (off : Nat) (l : List τ) : Prop :=
  ∀ i x, l[i]? = some x → mem (off + i) = x

section
variable {τ : Type} {mem : Nat → τ} {off : Nat} {l : List τ} {x : τ}

/-- The memory has the first element at the offset. -/
theorem Extends.head (h : Extends mem off (x :: l)) : mem off = x := h 0 x rfl

/-- Behind it the memory has the others. -/
theorem Extends.tail (h : Extends mem off (x :: l)) : Extends mem (off + 1) l := by
  intro i y hy
  rw [Nat.add_assoc, Nat.add_comm 1 i]
  exact h (i + 1) y hy

/-- Further on it has what is left of the list. -/
theorem Extends.drop (h : Extends mem off l) (n : Nat) : Extends mem (off + n) (l.drop n) := by
  intro i y hy
  rw [List.getElem?_drop] at hy
  rw [Nat.add_assoc]
  exact h (n + i) y hy

/-- Reading from the offset on gives the front of the list. -/
theorem Extends.map_range (h : Extends mem off l) {n : Nat} (hn : n ≤ l.length) :
    ((List.range n).map fun i => mem (off + i)) = l.take n := by
  refine List.ext_getElem? fun i => ?_
  rw [List.getElem?_map]
  by_cases hi : i < n
  · rw [List.getElem?_range hi, List.getElem?_take_of_lt hi,
      List.getElem?_eq_getElem (show i < l.length by omega)]
    exact congrArg some (h i _ (List.getElem?_eq_getElem (by omega)))
  · rw [List.getElem?_eq_none (by rw [List.length_range]; omega),
      List.getElem?_eq_none (by rw [List.length_take]; omega)]
    rfl

/-- Some memory holds any list. -/
theorem exists_extends [Inhabited τ] (l : List τ) : ∃ mem : Nat → τ, Extends mem 0 l := by
  refine ⟨fun i => (l[i]?).getD default, fun i x hx => ?_⟩
  show (l[0 + i]?).getD default = x
  rw [Nat.zero_add, hx]
  rfl

end

/-! ### The loop over the length indicators -/

section
variable {mem : Nat → UInt8} {s : LiLoop} {rest : Bytes}

/-- The loop ends when the E bit is clear. -/
theorem LiLoop.run_of_ext_zero (h : s.ext = 0) (rounds : Nat) : s.run mem rounds = s := by
  cases rounds with
  | zero => rfl
  | succ rounds => rw [LiLoop.run, if_pos h]

/-- Otherwise it takes a round. -/
theorem LiLoop.run_succ (h : s.ext ≠ 0) (rounds : Nat) :
    s.run mem (rounds + 1) = (s.round mem).run mem rounds := by
  rw [LiLoop.run, if_neg h]

/-- A round at the first half of a pair of length indicators, which leaves the pointer where it is
up to one byte. -/
theorem LiLoop.round_even (heven : s.li.length % 2 = 0) {b0 b1 : UInt8}
    (h0 : mem s.ptr = b0) (h1 : mem (s.ptr + 1) = b1) :
    s.round mem =
      { ptr := s.ptr + 1
        ext := (b0.toNat >>> 7) &&& 0x01
        li := s.li ++ [(b0.toNat &&& 0x7F) <<< 4 ||| (b1.toNat &&& 0xF0) >>> 4]
        reads := s.reads ++ [s.ptr, s.ptr + 1] } := by
  rw [LiLoop.round, if_pos heven, h0, h1]

/-- A round at the second half of a pair. -/
theorem LiLoop.round_odd (hodd : s.li.length % 2 = 1) {b0 b1 : UInt8}
    (h0 : mem s.ptr = b0) (h1 : mem (s.ptr + 1) = b1) :
    s.round mem =
      { ptr := s.ptr + 2
        ext := (b0.toNat >>> 3) &&& 0x01
        li := s.li ++ [(b0.toNat &&& 0x07) <<< 8 ||| (b1.toNat &&& 0xFF)]
        reads := s.reads ++ [s.ptr, s.ptr + 1] } := by
  rw [LiLoop.round, if_neg (by omega), h0, h1]

/-- A round reads two bytes, whichever it is. -/
theorem LiLoop.reads_round (s : LiLoop) :
    (s.round mem).reads = s.reads ++ [s.ptr, s.ptr + 1] := by
  unfold LiLoop.round
  split <;> rfl

/-- Each round reads the byte behind the pointer. -/
theorem LiLoop.mem_reads_round (s : LiLoop) : s.ptr + 1 ∈ (s.round mem).reads := by
  rw [LiLoop.reads_round]
  simp

/-- What the loop does with the bytes `rest` when the list reader takes them. -/
structure LisInside (mem : Nat → UInt8) (s : LiLoop) (rest : Bytes) (lis : List Nat)
    (rest' : Bytes) :
    Prop where
  bounds : ∀ rounds, (s.run mem rounds).li.length ≤ s.li.length + lis.length ∧
    ((s.run mem rounds).ext = 0 →
      (s.run mem rounds).headerLength + rest'.length = s.ptr + rest.length) ∧
    ∀ i ∈ (s.run mem rounds).reads, i ∈ s.reads ∨ i < s.ptr + rest.length
  ends : ∃ rounds, (s.run mem rounds).ext = 0 ∧ (s.run mem rounds).li = s.li ++ lis

/-- A loop that is about to take a round, with two bytes left for it. -/
theorem LisInside.of_round {rest' : Bytes} {l : Nat} {lis : List Nat} (hext : s.ext ≠ 0)
    {rest₁ : Bytes} (hli : (s.round mem).li = s.li ++ [l])
    (hlen : (s.round mem).ptr + rest₁.length = s.ptr + rest.length) (htwo : 2 ≤ rest.length)
    (h : LisInside mem (s.round mem) rest₁ lis rest') : LisInside mem s rest (l :: lis) rest' where
  bounds rounds := by
    cases rounds with
    -- No round has been made, so nothing has been read and no LI stored.
    | zero =>
      refine ⟨Nat.le_add_right _ _, fun h0 => absurd h0 hext, fun i hi => .inl hi⟩
    -- The first round is the one split off; the rounds after it are those of the rest.
    | succ rounds =>
      rw [LiLoop.run_succ hext]
      obtain ⟨hle, hend, hr⟩ := h.bounds rounds
      rw [hli, List.length_append, List.length_singleton] at hle
      refine ⟨by rw [List.length_cons]; omega, fun h0 => by rw [hend h0, hlen], fun i hi => ?_⟩
      rcases hr i hi with hi | hi
      · rw [LiLoop.reads_round] at hi
        simp only [List.mem_append, List.mem_cons, List.not_mem_nil, or_false] at hi
        rcases hi with hi | hi | hi
        · exact .inl hi
        · exact .inr (by omega)
        · exact .inr (by omega)
      · exact .inr (by omega)
  ends := by
    obtain ⟨rounds, h0, hlis⟩ := h.ends
    refine ⟨rounds + 1, ?_, ?_⟩
    · rw [LiLoop.run_succ hext, h0]
    · rw [LiLoop.run_succ hext, hlis, hli, List.append_assoc]
      rfl

/-- A loop at its end. -/
theorem LisInside.of_end (h0 : s.ext = 0) {rest' : Bytes}
    (hlen : s.headerLength + rest'.length = s.ptr + rest.length) :
    LisInside mem s rest [] rest' where
  bounds rounds := by
    rw [LiLoop.run_of_ext_zero h0]
    exact ⟨Nat.le_refl _, fun _ => hlen, fun i hi => .inl hi⟩
  ends := ⟨0, h0, (List.append_nil _).symm⟩

/-- The first byte of a pair of length indicators: one round of the loop, and the byte in the
middle is read again. -/
theorem lisInside_first {b0 b1 : UInt8} {tail rest' : Bytes} {lis : List Nat}
    (heven : s.li.length % 2 = 0) (hext : s.ext ≠ 0) (hmem : Extends mem s.ptr (b0 :: b1 :: tail))
    (h : LisInside mem (s.round mem) (b1 :: tail) lis rest') :
    LisInside mem s (b0 :: b1 :: tail)
      (((b0.toNat &&& 0x7F) <<< 4 ||| (b1.toNat &&& 0xF0) >>> 4) :: lis) rest' := by
  have hround := LiLoop.round_even heven hmem.head hmem.tail.head
  refine h.of_round hext (by rw [hround]) ?_ (Nat.le_add_left 2 tail.length)
  rw [hround]
  simp only [List.length_cons]
  omega

/-- The rest of a pair of length indicators. -/
theorem lisInside_second {b1 b2 : UInt8} {tail rest' : Bytes} {lis : List Nat}
    (hodd : s.li.length % 2 = 1) (hext : s.ext ≠ 0) (hmem : Extends mem s.ptr (b1 :: b2 :: tail))
    (h : LisInside mem (s.round mem) tail lis rest') :
    LisInside mem s (b1 :: b2 :: tail)
      (((b1.toNat &&& 0x07) <<< 8 ||| (b2.toNat &&& 0xFF)) :: lis) rest' := by
  have hround := LiLoop.round_odd hodd hmem.head hmem.tail.head
  refine h.of_round hext (by rw [hround]) ?_ (Nat.le_add_left 2 tail.length)
  rw [hround]
  simp only [List.length_cons]
  omega

/-- Between the two rounds of a pair. -/
theorem LiLoop.round_first {b0 b1 : UInt8} {tail : Bytes} (heven : s.li.length % 2 = 0)
    (hmem : Extends mem s.ptr (b0 :: b1 :: tail)) :
    (s.round mem).ptr = s.ptr + 1 ∧ (s.round mem).ext = (b0.toNat >>> 7) &&& 0x01 ∧
      (s.round mem).li.length % 2 = 1 ∧ Extends mem (s.round mem).ptr (b1 :: tail) := by
  have hround := LiLoop.round_even heven hmem.head hmem.tail.head
  refine ⟨by rw [hround], by rw [hround], ?_, ?_⟩
  · rw [hround, List.length_append, List.length_singleton]
    omega
  · rw [hround]
    exact hmem.tail

/-- Behind the two rounds of a pair. -/
theorem LiLoop.round_second {b1 b2 : UInt8} {tail : Bytes} (hodd : s.li.length % 2 = 1)
    (hmem : Extends mem s.ptr (b1 :: b2 :: tail)) :
    (s.round mem).ptr = s.ptr + 2 ∧ (s.round mem).ext = (b1.toNat >>> 3) &&& 0x01 ∧
      (s.round mem).li.length % 2 = 0 ∧ Extends mem (s.round mem).ptr tail := by
  have hround := LiLoop.round_odd hodd hmem.head hmem.tail.head
  refine ⟨by rw [hround], by rw [hround], ?_, ?_⟩
  · rw [hround, List.length_append, List.length_singleton]
    omega
  · rw [hround]
    exact hmem.tail.tail

/-- Where the list reader succeeds the loop stays inside and ends at the same place. Induction on
the length indicators, two at a time. -/
theorem lisInside_of_readLis {lis : List Nat} {rest' : Bytes} (heven : s.li.length % 2 = 0)
    (hext : s.ext ≠ 0) (hmem : Extends mem s.ptr rest) (hread : readLis rest = some (lis, rest')) :
    LisInside mem s rest lis rest' := by
  induction rest using readLis.induct generalizing s lis with
  | case1 b0 b1 tail h0 =>
    -- The last length indicator, with a nibble of padding.
    rw [readLis_one _ h0] at hread
    obtain ⟨rfl, rfl⟩ := Prod.mk.inj (Option.some.inj hread)
    have hround := LiLoop.round_even heven hmem.head hmem.tail.head
    refine lisInside_first heven hext hmem (.of_end (by rw [hround]; exact h0) ?_)
    rw [hround]
    simp only [LiLoop.headerLength, List.length_append, List.length_cons, List.length_nil]
    omega
  | case2 b0 b1 h0 b2 tail h1 =>
    simp only [readLis, if_neg h0, if_pos h1] at hread
    obtain ⟨rfl, rfl⟩ := Prod.mk.inj (Option.some.inj hread)
    obtain ⟨-, hext₁, hodd, hmem₁⟩ := LiLoop.round_first heven hmem
    obtain ⟨hptr, hext₂, heven₂, -⟩ := LiLoop.round_second hodd hmem₁
    refine lisInside_first heven hext hmem (lisInside_second hodd (hext₁ ▸ h0) hmem₁
      (.of_end (hext₂.trans h1) ?_))
    rw [LiLoop.headerLength, heven₂, hptr]
  | case3 b0 b1 h0 b2 tail h1 ih =>
    simp only [readLis, if_neg h0, if_neg h1] at hread
    obtain ⟨⟨lis₁, rest₁⟩, hread₁, heq⟩ := Option.map_eq_some_iff.mp hread
    obtain ⟨rfl, rfl⟩ := Prod.mk.inj heq
    obtain ⟨-, hext₁, hodd, hmem₁⟩ := LiLoop.round_first heven hmem
    obtain ⟨-, hext₂, heven₂, hmem₂⟩ := LiLoop.round_second hodd hmem₁
    exact lisInside_first heven hext hmem (lisInside_second hodd (hext₁ ▸ h0) hmem₁
      (ih heven₂ (hext₂ ▸ h1) hmem₂ hread₁))
  | case4 b0 b1 h0 =>
    simp only [readLis, if_neg h0] at hread
    cases hread
  | case5 l hshort =>
    rw [readLis_short hshort] at hread
    cases hread

/-- On bytes that the list reader does not take, the loop reads past them. -/
theorem reads_past_of_readLis (heven : s.li.length % 2 = 0) (hext : s.ext ≠ 0)
    (hmem : Extends mem s.ptr rest) (hread : readLis rest = none) :
    ∃ rounds, ∃ i ∈ (s.run mem rounds).reads, s.ptr + rest.length ≤ i := by
  induction rest using readLis.induct generalizing s with
  | case1 b0 b1 tail h0 =>
    rw [readLis_one _ h0] at hread
    cases hread
  | case2 b0 b1 h0 b2 tail h1 =>
    simp only [readLis, if_neg h0, if_pos h1] at hread
    cases hread
  -- Two LIs in three bytes, both with another one behind them: two rounds of the loop.
  | case3 b0 b1 h0 b2 tail h1 ih =>
    simp only [readLis, if_neg h0, if_neg h1] at hread
    obtain ⟨hptr₁, hext₁, hodd, hmem₁⟩ := LiLoop.round_first heven hmem
    obtain ⟨hptr₂, hext₂, heven₂, hmem₂⟩ := LiLoop.round_second hodd hmem₁
    obtain ⟨rounds, i, hi, hle⟩ := ih heven₂ (hext₂ ▸ h1) hmem₂ (Option.map_eq_none_iff.mp hread)
    refine ⟨rounds + 1 + 1, i, ?_, ?_⟩
    · rw [LiLoop.run_succ hext, LiLoop.run_succ (hext₁ ▸ h0)]
      exact hi
    · rw [hptr₂, hptr₁] at hle
      simp only [List.length_cons] at hle ⊢
      omega
  | case4 b0 b1 h0 =>
    obtain ⟨hptr, hext₁, -, -⟩ := LiLoop.round_first heven hmem
    refine ⟨1 + 1, (s.round mem).ptr + 1, ?_, ?_⟩
    · rw [LiLoop.run_succ hext, LiLoop.run_succ (hext₁ ▸ h0)]
      exact LiLoop.mem_reads_round _
    · rw [hptr]
      exact Nat.le_refl _
  -- Fewer than two bytes are left, and the first round already reads two.
  | case5 l hshort =>
    refine ⟨1, s.ptr + 1, ?_, ?_⟩
    · rw [LiLoop.run_succ hext]
      exact LiLoop.mem_reads_round _
    · have hlen : l.length ≤ 1 := by
        rcases l with _ | ⟨b0, _ | ⟨b1, tail⟩⟩
        · exact Nat.zero_le 1
        · exact Nat.le_refl 1
        · exact absurd rfl (hshort b0 b1 tail)
      omega

/-! ### Headers of data PDUs -/

/-- The reader stays inside a PDU of `len` bytes and inside the `li` array, and the header is not
longer than the PDU. -/
def HeaderInside (mem : Nat → UInt8) (len : Nat) (s : LiLoop) : Prop :=
  ∀ rounds, (∀ i ∈ (s.run mem rounds).reads, i < len) ∧ (s.run mem rounds).li.length ≤ 512
    ∧ ((s.run mem rounds).ext = 0 → (s.run mem rounds).headerLength ≤ len)

/-- A fixed part inside the PDU leaves the question to the extension part. -/
theorem headerInside_iff {len : Nat} (hli : s.li = []) (hreads : ∀ i ∈ s.reads, i < len)
    (hmem : Extends mem s.ptr rest) (hlen : s.ptr + rest.length = len) :
    HeaderInside mem len s ↔ s.ext = 0 ∨ ∃ r, readLis rest = some r ∧ r.1.length ≤ 512 := by
  have heven : s.li.length % 2 = 0 := by rw [hli]; rfl
  by_cases hext : s.ext = 0
  · refine iff_of_true (fun rounds => ?_) (.inl hext)
    rw [LiLoop.run_of_ext_zero hext]
    refine ⟨hreads, by rw [hli]; exact Nat.zero_le _, fun _ => ?_⟩
    rw [LiLoop.headerLength, heven]
    omega
  rw [or_iff_right hext]
  cases hread : readLis rest with
  | none =>
    refine iff_of_false (fun h => ?_) (by rintro ⟨r, hr, -⟩; cases hr)
    obtain ⟨rounds, i, hi, hle⟩ := reads_past_of_readLis heven hext hmem hread
    have := (h rounds).1 i hi
    omega
  | some r =>
    obtain ⟨lis, rest'⟩ := r
    have hin := lisInside_of_readLis heven hext hmem hread
    -- The list reader takes the extension part: what is left is the size of the array.
    constructor
    · intro h
      obtain ⟨rounds, -, hlis⟩ := hin.ends
      refine ⟨_, rfl, ?_⟩
      have := (h rounds).2.1
      rwa [hlis, hli] at this
    · rintro ⟨r, hr, hle⟩ rounds
      obtain rfl := Option.some.inj hr
      obtain ⟨hb, hend, hr⟩ := hin.bounds rounds
      rw [hli, List.length_nil, Nat.zero_add] at hb
      refine ⟨fun i hi => ?_, hb.trans hle, fun h0 => ?_⟩
      · rcases hr i hi with hi | hi
        · exact hreads i hi
        · omega
      · have := hend h0
        omega

/-- A fixed part that is not inside the PDU. -/
theorem not_headerInside {len i : Nat} (hi : i ∈ s.reads) (hle : len ≤ i) :
    ¬HeaderInside mem len s := fun h => absurd ((h 0).1 i hi) (by omega)

end

/-- What the two list readers of data headers ask of the extension part. -/
theorem isSome_extensionPart {τ : Type} (ext : Nat) (rest : Bytes) (x : τ)
    (f : List Nat × Bytes → τ) :
    (if ext = 0 then some x
      else (readLis rest).bind fun r => if r.1.length ≤ 512 then some (f r) else none).isSome
      ↔ ext = 0 ∨ ∃ r, readLis rest = some r ∧ r.1.length ≤ 512 := by
  by_cases hext : ext = 0
  · rw [if_pos hext]
    exact iff_of_true rfl (.inl hext)
  rw [if_neg hext, or_iff_right hext]
  cases readLis rest with
  | none => simp
  | some r =>
    rw [Option.bind_some]
    by_cases hr : r.1.length ≤ 512
    · rw [if_pos hr]
      exact iff_of_true rfl ⟨r, rfl, hr⟩
    · rw [if_neg hr]
      refine iff_of_false Bool.false_ne_true ?_
      rintro ⟨r', hr', hle⟩
      exact hr (Option.some.inj hr' ▸ hle)

section
variable {mem : Nat → UInt8} {payload : Bytes}

/-- The UM header reader stays inside exactly when the bytes hold a whole header. -/
theorem umHeaderInside_iff (snSize : UmdSnSize) (hne : payload ≠ [])
    (hmem : Extends mem 0 payload) :
    HeaderInside mem payload.length (umReadFixedPart mem snSize) ↔
      (Um.readDataPduHeader snSize payload).isSome := by
  obtain ⟨b0, rest, rfl⟩ := List.exists_cons_of_ne_nil hne
  rw [umReadDataPduHeader_eq]
  cases snSize with
  | size5Bits =>
    rw [headerInside_iff rfl (by simp [umReadFixedPart]) hmem.tail (Nat.add_comm 1 _)]
    show ((mem 0).toNat >>> 5) &&& 0x01 = 0 ∨ _ ↔ _
    rw [hmem.head]
    exact (isSome_extensionPart ..).symm
  | size10Bits =>
    cases rest with
    | nil =>
      refine iff_of_false (not_headerInside (i := 1) ?_ (Nat.le_refl 1)) Bool.false_ne_true
      exact List.mem_cons_of_mem 0 (List.mem_singleton_self 1)
    | cons b1 rest =>
      rw [headerInside_iff rfl (by simp [umReadFixedPart]) hmem.tail.tail (Nat.add_comm 2 _)]
      show ((mem 0).toNat >>> 2) &&& 0x01 = 0 ∨ _ ↔ _
      rw [hmem.head]
      exact (isSome_extensionPart ..).symm

/-- The AM header reader does as well. -/
theorem amHeaderInside_iff (hne : payload ≠ []) (hmem : Extends mem 0 payload) :
    HeaderInside mem payload.length (amReadFixedPart mem) ↔ (readDataPduHeader payload).isSome := by
  obtain ⟨b0, rest, rfl⟩ := List.exists_cons_of_ne_nil hne
  rw [amReadFixedPart, hmem.head]
  -- A control PDU has no LI, so its header ends with the fixed part.
  by_cases hdc : (b0.toNat >>> 7) &&& 0x01 = 0
  · rw [if_pos hdc, readDataPduHeader_cons, if_pos hdc]
    refine iff_of_true (fun rounds => ?_) rfl
    rw [LiLoop.run_of_ext_zero rfl]
    exact ⟨by simp, by simp, fun _ => Nat.zero_le _⟩
  rw [if_neg hdc]
  cases rest with
  | nil =>
    refine iff_of_false (not_headerInside (i := 1) ?_ (Nat.le_refl 1)) ?_
    · split <;> simp
    · rw [readDataPduHeader_cons, if_neg hdc]
      exact Bool.false_ne_true
  | cons b1 rest =>
    simp only [readDataPduHeader_cons, if_neg hdc]
    -- A segment's header is two bytes longer; otherwise the two cases are alike.
    by_cases hrf : (b0.toNat >>> 6) &&& 0x01 = 0
    · rw [if_pos hrf]
      rw [headerInside_iff rfl (by simp) hmem.tail.tail (Nat.add_comm 2 _)]
      simp only [hrf]
      exact (isSome_extensionPart ..).symm
    · rw [if_neg hrf, if_pos (bne_iff_ne.mpr hrf)]
      rcases rest with _ | ⟨b2, _ | ⟨b3, rest⟩⟩
      · exact iff_of_false (not_headerInside (i := 3) (by simp) (by simp)) Bool.false_ne_true
      · exact iff_of_false (not_headerInside (i := 3) (by simp) (by simp)) Bool.false_ne_true
      · rw [headerInside_iff rfl (by simp) hmem.tail.tail.tail.tail (Nat.add_comm 4 _)]
        exact (isSome_extensionPart ..).symm

end

/-! ### Status PDUs -/

section
variable {L : SrslteBit} {bits : Nat → Bool} {s : NackLoop} {rest : List Bool}

/-- The loop ends when there is no further NACK. -/
theorem NackLoop.run_of_ext_zero (h : s.ext1 = 0) (rounds : Nat) : s.run L bits rounds = s := by
  cases rounds with
  | zero => rfl
  | succ rounds => rw [NackLoop.run, if_pos h]

/-- Otherwise it takes a round. -/
theorem NackLoop.run_succ (h : s.ext1 ≠ 0) (rounds : Nat) :
    s.run L bits (rounds + 1) = (s.round L bits).run L bits rounds := by
  rw [NackLoop.run, if_neg h]

/-- A field that ends inside the bits is read the same from memory. -/
theorem readField_drop {cur k n : Nat} (hmem : Extends bits cur rest) (h : k + n ≤ rest.length) :
    readField L n (rest.drop k) = some (fieldAt L bits (cur + k) n, rest.drop (k + n)) := by
  have hn : n ≤ (rest.drop k).length := by
    rw [List.length_drop]
    omega
  rw [readField, if_pos hn, fieldAt, (hmem.drop k).map_range hn, List.drop_drop]

/-- A field behind the end of the bits is not there. -/
theorem readField_past {k n : Nat} (h : rest.length < k + n) (hn : 0 < n) :
    readField L n (rest.drop k) = none := by
  rw [readField, List.length_drop, if_neg (by omega)]

/-- One NACK is read the same from memory, when it ends inside the bits. -/
theorem readNack_eq {cur : Nat} (hmem : Extends bits cur rest) :
    readNack L rest =
      if fieldAt L bits (cur + 11) 1 = 0 then
        if 12 ≤ rest.length then
          some ({ nackSn := fieldAt L bits cur 10 }, fieldAt L bits (cur + 10) 1, rest.drop 12)
        else none
      else if 42 ≤ rest.length then
        some ({ nackSn := fieldAt L bits cur 10, hasSo := true
                soStart := fieldAt L bits (cur + 12) 15, soEnd := fieldAt L bits (cur + 27) 15 },
          fieldAt L bits (cur + 10) 1, rest.drop 42)
      else none := by
  -- The ten bits of the SN and the two E bits come first, then the offsets of a segment.
  by_cases h12 : 12 ≤ rest.length
  · have hsn : readField L 10 rest = _ := readField_drop hmem (k := 0) (by omega)
    have he1 : readField L 1 (rest.drop 10) = _ := readField_drop hmem (by omega)
    have he2 : readField L 1 (rest.drop 11) = _ := readField_drop hmem (by omega)
    simp only [readNack, hsn, he1, he2, Option.bind_eq_bind, Option.bind_some, Nat.zero_add,
      if_pos h12]
    refine if_congr Iff.rfl rfl ?_
    by_cases h42 : 42 ≤ rest.length
    · have hstart : readField L 15 (rest.drop 12) = _ := readField_drop hmem (by omega)
      have hend : readField L 15 (rest.drop 27) = _ := readField_drop hmem (by omega)
      simp only [hstart, hend, Option.bind_some, if_pos h42, Nat.add_zero]
    · rw [if_neg h42]
      by_cases h27 : 27 ≤ rest.length
      · have hstart : readField L 15 (rest.drop 12) = _ := readField_drop hmem (by omega)
        have hend : readField L 15 (rest.drop 27) = none := readField_past (by omega) (by decide)
        simp only [hstart, hend, Option.bind_some, Option.bind_none]
      · have hstart : readField L 15 (rest.drop 12) = none := readField_past (by omega) (by decide)
        simp only [hstart, Option.bind_none]
  · rw [if_neg h12, if_neg (show ¬42 ≤ rest.length by omega), ite_self, readNack]
    -- The list ends inside the NACK: the first field past its end is the one that fails.
    by_cases h10 : 10 ≤ rest.length
    · have hsn : readField L 10 rest = _ := readField_drop hmem (k := 0) (by omega)
      simp only [hsn, Option.bind_eq_bind, Option.bind_some, Nat.zero_add]
      by_cases h11 : 11 ≤ rest.length
      · have he1 : readField L 1 (rest.drop 10) = _ := readField_drop hmem (by omega)
        have he2 : readField L 1 (rest.drop 11) = none := readField_past (by omega) (by decide)
        simp only [he1, he2, Option.bind_some, Option.bind_none]
      · have he1 : readField L 1 (rest.drop 10) = none := readField_past (by omega) (by decide)
        simp only [he1, Option.bind_none]
    · have hsn : readField L 10 rest = none := readField_past (k := 0) (by omega) (by decide)
      rw [hsn]
      rfl

/-- A round of the loop against one NACK of the list reader. -/
theorem readNack_cases (hmem : Extends bits s.cur rest) :
    (∃ nack rest', readNack L rest = some (nack, (s.round L bits).ext1, rest')
      ∧ Extends bits (s.round L bits).cur rest'
      ∧ (s.round L bits).cur + rest'.length = s.cur + rest.length)
    ∨ readNack L rest = none ∧ s.cur + rest.length < (s.round L bits).cur := by
  rw [readNack_eq hmem, NackLoop.round]
  by_cases hext2 : fieldAt L bits (s.cur + 11) 1 = 0
  · simp only [if_pos hext2]
    by_cases h12 : 12 ≤ rest.length
    · rw [if_pos h12]
      refine .inl ⟨_, _, rfl, hmem.drop 12, ?_⟩
      rw [List.length_drop]
      omega
    · rw [if_neg h12]
      exact .inr ⟨rfl, by omega⟩
  · simp only [if_neg hext2]
    by_cases h42 : 42 ≤ rest.length
    · rw [if_pos h42]
      refine .inl ⟨_, _, rfl, hmem.drop 42, ?_⟩
      rw [List.length_drop]
      omega
    · rw [if_neg h42]
      exact .inr ⟨rfl, by omega⟩

/-- Each round adds one NACK. -/
theorem NackLoop.length_nacks_round (s : NackLoop) :
    (s.round L bits).nacks.length = s.nacks.length + 1 := by
  rw [NackLoop.round]
  split <;> simp

/-- The reader stays inside the `len` bits of a PDU and inside the `nacks` array. -/
def StatusInside (L : SrslteBit) (bits : Nat → Bool) (len : Nat) (s : NackLoop) : Prop :=
  ∀ rounds, (s.run L bits rounds).cur ≤ len ∧ (s.run L bits rounds).nacks.length ≤ 512

/-- At the end the reader was inside when it is not past the bits and has at most 512 NACKs. -/
theorem statusInside_of_end {len : Nat} (h0 : s.ext1 = 0) :
    StatusInside L bits len s ↔ s.cur ≤ len ∧ s.nacks.length ≤ 512 := by
  constructor
  · intro h
    exact h 0
  · intro h rounds
    rwa [NackLoop.run_of_ext_zero h0]

/-- While it is inside, a round decides nothing. -/
theorem statusInside_round {len : Nat} (h1 : s.ext1 ≠ 0) (hcur : s.cur ≤ len)
    (hlen : s.nacks.length ≤ 512) :
    StatusInside L bits len s ↔ StatusInside L bits len (s.round L bits) := by
  constructor
  · intro h rounds
    rw [← NackLoop.run_succ h1]
    exact h (rounds + 1)
  · intro h rounds
    cases rounds with
    | zero => exact ⟨hcur, hlen⟩
    | succ rounds =>
      rw [NackLoop.run_succ h1]
      exact h rounds

/-- The loop against the list reader, with `slots` free slots in the array. -/
theorem nacksInside_iff {len slots : Nat} (h1 : s.ext1 ≠ 0) (hslots : s.nacks.length + slots = 512)
    (hmem : Extends bits s.cur rest) (hlen : s.cur + rest.length = len) :
    StatusInside L bits len s ↔ (readNacks L slots rest).isSome := by
  induction slots generalizing s rest with
  -- All 512 slots are taken, and the next round would store one more.
  | zero =>
    refine iff_of_false (fun h => ?_) Bool.false_ne_true
    have := ((statusInside_round h1 (by omega) (by omega)).mp h 0).2
    rw [NackLoop.run, NackLoop.length_nacks_round] at this
    omega
  | succ slots ih =>
    rw [statusInside_round h1 (by omega) (by omega), readNacks]
    have hcount : (s.round L bits).nacks.length = s.nacks.length + 1 :=
      NackLoop.length_nacks_round s
    -- Either the NACK is read whole, or the read leaves the PDU.
    obtain ⟨nack, rest', hread, hmem', hlen'⟩ | ⟨hread, hpast⟩ := readNack_cases (L := L) hmem
    · rw [hread]
      by_cases hend : (s.round L bits).ext1 = 0
      · rw [statusInside_of_end hend]
        refine iff_of_true ⟨by omega, by omega⟩ ?_
        simp [hend]
      · rw [ih hend (by omega) hmem' (by omega)]
        simp [hend]
    · rw [hread]
      refine iff_of_false (fun h => ?_) Bool.false_ne_true
      have := (h 0).1
      rw [NackLoop.run] at this
      omega

/-- A reader past the bits was not inside. -/
theorem not_statusInside {len : Nat} (h : len < s.cur) : ¬StatusInside L bits len s :=
  fun hin => absurd (hin 0).1 (by rw [NackLoop.run]; omega)

/-- The reader of a status PDU stays inside exactly when the bytes hold a whole one. -/
theorem statusInside_iff {payload : Bytes} (hne : payload ≠ [])
    (hmem : Extends bits 0 (L.unpackVector payload)) :
    StatusInside L bits (8 * payload.length) (readStatusFixedPart L bits) ↔
      (readStatusPdu L payload).isSome := by
  have hpos : 0 < payload.length := List.length_pos_iff.mpr hne
  have hbits := L.length_unpackVector payload
  rw [readStatusPdu, readStatusFixedPart, ← hbits]
  generalize L.unpackVector payload = rest at hmem hbits
  -- One byte is enough for the D/C field and the type, and two are needed behind these.
  have hdc : readField L 1 rest = _ := readField_drop hmem (k := 0) (by omega)
  have hcpt : readField L 3 (rest.drop 1) = _ := readField_drop hmem (by omega)
  simp only [hdc, hcpt, Option.bind_eq_bind, Option.bind_some, Nat.zero_add]
  by_cases hctl : fieldAt L bits 0 1 ≠ DcField.controlPdu.toNat
  · rw [if_pos hctl, if_pos hctl, statusInside_of_end rfl]
    exact iff_of_true ⟨by show 1 ≤ rest.length; omega, Nat.zero_le _⟩ rfl
  rw [if_neg hctl, if_neg hctl]
  by_cases hstatus : fieldAt L bits 1 3 ≠ 0
  · rw [if_pos hstatus, if_pos hstatus, statusInside_of_end rfl]
    exact iff_of_true ⟨by show 4 ≤ rest.length; omega, Nat.zero_le _⟩ rfl
  rw [if_neg hstatus, if_neg hstatus]
  by_cases h2 : 15 ≤ rest.length
  · have hack : readField L 10 (rest.drop 4) = _ := readField_drop hmem (by omega)
    have hext : readField L 1 (rest.drop 14) = _ := readField_drop hmem (by omega)
    simp only [hack, hext, Option.bind_some, Nat.zero_add]
    by_cases h0 : fieldAt L bits 14 1 = 0
    · rw [if_pos h0, statusInside_of_end h0]
      exact iff_of_true ⟨h2, Nat.zero_le _⟩ rfl
    · rw [if_neg h0, Option.isSome_map]
      refine nacksInside_iff h0 rfl ?_ ?_
      · show Extends bits (0 + 15) _
        exact hmem.drop 15
      · show 15 + (rest.drop 15).length = _
        rw [List.length_drop]
        omega
  · refine iff_of_false (not_statusInside (by show rest.length < 15; omega)) ?_
    have hack : readField L 10 (rest.drop 4) = none := readField_past (by omega) (by decide)
    simp only [hack, Option.bind_none]
    exact Bool.false_ne_true

end

end SrsUE.Proofs.Rlc
