import SrsUE.Mac.Pdu

/-!
# `SrsUE.Proofs.Mac.SchSpace`: the space in a MAC PDU

`Accounted` says where the bytes of a PDU under assembly are: each control element takes a byte
more than its payload, each SDU but the last its payload and a subheader with a length field, and
the last SDU a byte more than its payload. What is left is `rem_len`. A subheader that was opened
and not filled takes nothing.

`push` is a PDU with one more subheader. `new_subh` pushes a free one, and every setter replaces
what was pushed last.
-/

set_option autoImplicit false

namespace SrsUE.Proofs.Mac

open SrsUE.Mac
open SrsUE.Rlc (Bytes sub32 sub32_of_le)

/-! ### Kinds of subheaders -/

/-- A control element. -/
def isCe (s : SchSubh) : Bool := !s.isSdu

/-- An SDU with data. -/
def isData (s : SchSubh) : Bool := s.isSdu && decide (0 < s.nofBytes)

/-- A subheader as `init` leaves it, but for the channel. -/
def isUnfilled (s : SchSubh) : Bool := s.isSdu && decide (s.nofBytes = 0)

/-- The lengths of the SDUs. -/
def dataSizes (ss : List SchSubh) : List Nat := (ss.filter isData).map (·.nofBytes)

/-- The bytes for the control elements with their subheaders. -/
def ceSpace (ss : List SchSubh) : Nat := ((ss.filter isCe).map (·.nofBytes + 1)).sum

/-- The bytes for the subheaders of SDUs of these lengths. The last one has no length field. -/
def sduHeaders : List Nat → Nat
  | [] => 0
  | [_] => 1
  | n :: m :: ns => sizeHeaderSdu n + sduHeaders (m :: ns)

/-- The bytes for all subheaders and payloads. -/
def spaceUsed (ss : List SchSubh) : Nat :=
  ceSpace ss + (dataSizes ss).sum + sduHeaders (dataSizes ss)

section
variable {ss : List SchSubh} {s : SchSubh}

/-- A subheader with a length field has at least two bytes. -/
theorem two_le_sizeHeaderSdu (n : Nat) : 2 ≤ sizeHeaderSdu n := by
  unfold sizeHeaderSdu
  split <;> omega

/-- The lengths of the SDUs of two lists, one after the other. -/
theorem dataSizes_append (ss ts : List SchSubh) :
    dataSizes (ss ++ ts) = dataSizes ss ++ dataSizes ts := by
  rw [dataSizes, List.filter_append, List.map_append]
  rfl

/-- Without SDUs with data there are no lengths. -/
theorem dataSizes_eq_nil (h : ∀ s ∈ ss, isData s = false) : dataSizes ss = [] := by
  rw [dataSizes, List.filter_eq_nil_iff.mpr fun s hs => by simp [h s hs]]
  rfl

/-- A subheader without data adds no length. -/
theorem dataSizes_other (h : isData s = false) : dataSizes [s] = [] :=
  dataSizes_eq_nil fun t ht => by rwa [List.mem_singleton.mp ht]

/-- An SDU adds its length. -/
theorem dataSizes_singleton (h : isData s = true) : dataSizes [s] = [s.nofBytes] := by
  rw [dataSizes, List.filter_cons_of_pos h]
  rfl

/-- A control element is no SDU. -/
theorem isData_of_isCe (h : isCe s = true) : isData s = false := by
  have hs : s.isSdu = false := by simpa [isCe] using h
  rw [isData, hs, Bool.false_and]

/-- An SDU is no control element. -/
theorem isCe_of_isData (h : isData s = true) : isCe s = false := by
  have hs : s.isSdu = true := (Bool.and_eq_true_iff.mp h).1
  rw [isCe, hs]
  rfl

/-- A subheader is unfilled when it is neither a control element nor an SDU with data. -/
theorem isUnfilled_iff : isUnfilled s = true ↔ isCe s = false ∧ isData s = false := by
  cases hs : s.isSdu with
  | false => simp [isUnfilled, isCe, isData, hs]
  | true => simp [isUnfilled, isCe, isData, hs]

/-- The bytes of the control elements of two lists add up. -/
theorem ceSpace_append (ss ts : List SchSubh) : ceSpace (ss ++ ts) = ceSpace ss + ceSpace ts := by
  rw [ceSpace, List.filter_append, List.map_append, List.sum_append]
  rfl

/-- With one more SDU every earlier subheader has its length field. -/
theorem sduHeaders_concat (ns : List Nat) (n : Nat) :
    sduHeaders (ns ++ [n]) = (ns.map sizeHeaderSdu).sum + 1 := by
  induction ns with
  | nil => rfl
  | cons m ns ih =>
    have hcons : sduHeaders (m :: (ns ++ [n])) = sizeHeaderSdu m + sduHeaders (ns ++ [n]) := by
      cases ns with
      | nil => rfl
      | cons k ns => rfl
    rw [List.cons_append, hcons, ih, List.map_cons, List.sum_cons]
    omega

/-- A control element takes its payload and a byte. -/
theorem spaceUsed_ce (h : isCe s = true) : spaceUsed (ss ++ [s]) = spaceUsed ss + s.nofBytes +
    1 := by
  have hdata : dataSizes [s] = [] := dataSizes_other (isData_of_isCe h)
  have hce : ceSpace [s] = s.nofBytes + 1 := by
    rw [ceSpace, List.filter_cons_of_pos h]
    rfl
  rw [spaceUsed, spaceUsed, dataSizes_append, hdata, List.append_nil, ceSpace_append, hce]
  omega

/-- A subheader that is not filled takes nothing. -/
theorem spaceUsed_unfilled (h : isUnfilled s = true) : spaceUsed (ss ++ [s]) = spaceUsed ss := by
  obtain ⟨hce, hdata⟩ := isUnfilled_iff.mp h
  have hzero : ceSpace [s] = 0 := by
    rw [ceSpace, List.filter_cons_of_neg (by simp [hce])]
    rfl
  rw [spaceUsed, spaceUsed, dataSizes_append, dataSizes_other hdata, List.append_nil,
    ceSpace_append, hzero]
  rfl

end

/-! ### The last SDU -/

/-- The index is that of the last SDU with data. -/
inductive LastSdu : List SchSubh → Option Nat → Prop where
  | none {ss : List SchSubh} (h : ∀ s ∈ ss, isData s = false) : LastSdu ss none
  | some {front back : List SchSubh} {s : SchSubh} (hs : isData s = true)
      (hback : ∀ t ∈ back, isData t = false) : LastSdu (front ++ s :: back) (some front.length)

/-- A subheader without data leaves the last SDU where it was. -/
theorem LastSdu.append_other {ss : List SchSubh} {s : SchSubh} {i : Option Nat} (h : LastSdu ss i)
    (hs : isData s = false) : LastSdu (ss ++ [s]) i := by
  have hall : ∀ {ts : List SchSubh}, (∀ t ∈ ts, isData t = false) →
      ∀ t ∈ ts ++ [s], isData t = false := by
    intro ts hts t ht
    rcases List.mem_append.mp ht with ht | ht
    · exact hts t ht
    · rw [List.mem_singleton.mp ht]
      exact hs
  cases h with
  | none h => exact .none (hall h)
  | some hd hback =>
    rw [List.append_assoc, List.cons_append]
    exact .some hd (hall hback)

/-- Without the subheader behind it the last SDU was the same. -/
theorem LastSdu.of_append_other {ss : List SchSubh} {s : SchSubh} {i : Option Nat}
    (h : LastSdu (ss ++ [s]) i) (hs : isData s = false) : LastSdu ss i := by
  generalize hss : ss ++ [s] = l at h
  cases h with
  | none h => exact .none fun t ht => h t (by rw [← hss]; exact List.mem_append_left _ ht)
  | @some front back t ht hback =>
    rcases List.eq_nil_or_concat back with rfl | ⟨back', u, rfl⟩
    · -- The last subheader would be the last SDU.
      have hst := List.singleton_inj.mp (List.append_inj' hss rfl).2
      rw [hst, ht] at hs
      cases hs
    · have hconcat : ss ++ [s] = (front ++ t :: back') ++ [u] := by
        rw [hss, List.concat_eq_append, List.append_assoc]
        rfl
      obtain ⟨rfl, -⟩ := List.append_inj' hconcat rfl
      refine .some ht fun v hv => hback v ?_
      rw [List.concat_eq_append]
      exact List.mem_append_left _ hv

/-- An SDU added at the end is the last one. -/
theorem LastSdu.append_data (ss : List SchSubh) {s : SchSubh} (hs : isData s = true) :
    LastSdu (ss ++ [s]) (Option.some ss.length) := .some hs nofun

/-- The last SDU is among the subheaders. -/
theorem LastSdu.lt {ss : List SchSubh} {i : Nat} (h : LastSdu ss (Option.some i)) :
    i < ss.length := by
  cases h with
  | some hs hback =>
    rw [List.length_append, List.length_cons]
    omega

/-- The length field that the last of SDUs of these lengths gets when another one follows. -/
def lastField (lens : List Nat) : Nat :=
  match lens.getLast? with
  | some n => sizeHeaderSdu n - 1
  | none => 0

/-- The length field that the last SDU gets when another one follows. -/
def lastLength (ss : List SchSubh) : Nat := lastField (dataSizes ss)

/-- The bytes in front of the SDUs: control elements, subheaders of SDUs of these lengths, and what
padding adds to the subheaders when `remLen` bytes are left. -/
def frontSpace (ces : Nat) (lens : List Nat) (remLen : Nat) : Nat :=
  ces + sduHeaders lens + (if 2 < remLen then 1 + lastField lens else remLen)

/-- What is in front of the SDUs fits there, and what is left is positive as an `int`. -/
def FrontRoom (sduOffsetStart ces : Nat) (lens : List Nat) (remLen : Nat) : Prop :=
  frontSpace ces lens remLen < sduOffsetStart ∧ remLen < 2 ^ 31

instance (sduOffsetStart ces : Nat) (lens : List Nat) (remLen : Nat) :
    Decidable (FrontRoom sduOffsetStart ces lens remLen) := by
  unfold FrontRoom
  infer_instance

/-- An SDU takes its payload, a byte, and the length field of the one before. -/
theorem spaceUsed_data {ss : List SchSubh} {s : SchSubh} (h : isData s = true) :
    spaceUsed (ss ++ [s]) = spaceUsed ss + s.nofBytes + 1 + lastLength ss := by
  have hce : ceSpace [s] = 0 := by
    rw [ceSpace, List.filter_cons_of_neg (by simp [isCe_of_isData h])]
    rfl
  have hheaders : sduHeaders (dataSizes ss ++ [s.nofBytes])
      = sduHeaders (dataSizes ss) + 1 + lastLength ss := by
    rw [lastLength, lastField]
    rcases List.eq_nil_or_concat (dataSizes ss) with hnil | ⟨ns, n, hns⟩
    · rw [hnil]
      rfl
    · have := two_le_sizeHeaderSdu n
      rw [hns, List.concat_eq_append, sduHeaders_concat, sduHeaders_concat, List.map_append,
        List.sum_append, List.getLast?_concat]
      simp only [List.map_cons, List.map_nil, List.sum_cons, List.sum_nil]
      omega
  rw [spaceUsed, spaceUsed, dataSizes_append, dataSizes_singleton h, hheaders, ceSpace_append, hce,
    List.sum_append]
  simp only [List.sum_cons, List.sum_nil]
  omega

/-! ### The invariant -/

/-- The subheaders in use. -/
def inUse (pdu : SchPdu) : List SchSubh := pdu.subheaders.take pdu.nofSubheaders

/-- The subheaders that are not in use. -/
def spare (pdu : SchPdu) : List SchSubh := pdu.subheaders.drop pdu.nofSubheaders

/-- The subheaders and the SDUs of a PDU are in step with its indices. -/
structure Tracked (pdu : SchPdu) : Prop where
  slots : pdu.subheaders.length = pdu.maxSubheaders
  count : pdu.nofSubheaders + 1 ≤ pdu.maxSubheaders
  cur : pdu.curIdx = some (pdu.nofSubheaders - 1) ∨ pdu.nofSubheaders = 0 ∧ pdu.curIdx = none
  unfilled : ∀ s ∈ spare pdu, isUnfilled s = true
  last : LastSdu (inUse pdu) pdu.lastSduIdx
  sdus : pdu.sdus.length = (dataSizes (inUse pdu)).sum
  rem : pdu.remLen < 2 ^ 32

/-- Every byte of the PDU is accounted for. -/
structure Accounted (pdu : SchPdu) : Prop extends Tracked pdu where
  space : pdu.remLen + spaceUsed (inUse pdu) = pdu.pduLen
  small : pdu.pduLen < 2 ^ 32

/-- The PDU with one more subheader. -/
def push (pdu : SchPdu) (s : SchSubh) : SchPdu :=
  { pdu with
    subheaders := inUse pdu ++ s :: (spare pdu).tail
    nofSubheaders := pdu.nofSubheaders + 1
    curIdx := some pdu.nofSubheaders }

/-- A new PDU has all its bytes left. -/
theorem accounted_initTx {maxSubheaders pduLen : Nat} (hmax : 0 < maxSubheaders)
    (hlen : pduLen < 2 ^ 32) (isUl : Bool) : Accounted (initTx maxSubheaders pduLen isUl) where
  slots := List.length_replicate
  count := by
    show 0 + 1 ≤ maxSubheaders
    omega
  cur := .inr ⟨rfl, rfl⟩
  unfilled s hs := by
    rw [List.eq_of_mem_replicate (List.mem_of_mem_drop hs)]
    rfl
  last := .none nofun
  sdus := rfl
  rem := hlen
  space := rfl
  small := hlen

section
variable {pdu : SchPdu}

/-- There are as many subheaders in use as the index says. -/
theorem Tracked.length_inUse (h : Tracked pdu) : (inUse pdu).length = pdu.nofSubheaders := by
  have hs := h.slots
  have hc := h.count
  rw [inUse, List.length_take]
  omega

/-- The others are not in use. -/
theorem Tracked.length_spare (h : Tracked pdu) :
    (spare pdu).length = pdu.maxSubheaders - pdu.nofSubheaders := by
  rw [spare, List.length_drop, h.slots]

/-- There is always one more, since `new_subh` leaves the last one alone. -/
theorem Tracked.spare_cons (h : Tracked pdu) : ∃ s rest, spare pdu = s :: rest := by
  have hlen := h.length_spare
  have hc := h.count
  exact List.exists_cons_of_length_pos (by omega)

/-- The subheaders in use and the others are all of them. -/
theorem inUse_append_spare (pdu : SchPdu) : inUse pdu ++ spare pdu = pdu.subheaders :=
  List.take_append_drop _ _

/-- `new_subh` puts one more subheader in use. -/
theorem Tracked.inUse_push (h : Tracked pdu) (s : SchSubh) :
    inUse (push pdu s) = inUse pdu ++ [s] := by
  have htake : (inUse pdu ++ s :: (spare pdu).tail).take ((inUse pdu).length + 1) = _ :=
    List.take_length_add_append 1
  rw [h.length_inUse] at htake
  exact htake

/-- It takes it from those that were not. -/
theorem Tracked.spare_push (h : Tracked pdu) (s : SchSubh) :
    spare (push pdu s) = (spare pdu).tail := by
  have hdrop : (inUse pdu ++ s :: (spare pdu).tail).drop ((inUse pdu).length + 1) = _ :=
    List.drop_length_add_append 1
  rw [h.length_inUse] at hdrop
  exact hdrop

/-- `new_subh` pushes the first subheader that is not in use. -/
theorem Tracked.newSubh_eq (h : Tracked pdu) :
    pdu.newSubh = if pdu.nofSubheaders + 1 < pdu.maxSubheaders then
      some (push pdu ((spare pdu).headD {})) else none := by
  have hc := h.count
  rw [SchPdu.newSubh, sub32_of_le (by omega)]
  refine if_congr (by omega) (congrArg some ?_) rfl
  have hsub : pdu.subheaders = inUse pdu ++ (spare pdu).headD {} :: (spare pdu).tail := by
    obtain ⟨s, rest, hspare⟩ := h.spare_cons
    rw [hspare]
    show pdu.subheaders = inUse pdu ++ s :: rest
    rw [← hspare, inUse_append_spare]
  have hcur : ({ pdu with nofSubheaders := pdu.nofSubheaders + 1 } : SchPdu).next
      = { pdu with nofSubheaders := pdu.nofSubheaders + 1, curIdx := some pdu.nofSubheaders } := by
    rw [SchPdu.next]
    -- At index 0 there may be a subheader that was deleted, and then the index stays.
    rcases h.cur with hcur | ⟨hzero, hcur⟩
    · simp only [hcur]
      split
      · rename_i hlt
        rw [show pdu.nofSubheaders - 1 + 1 = pdu.nofSubheaders by omega]
      · rename_i hge
        rw [← hcur, show pdu.nofSubheaders = pdu.nofSubheaders - 1 by omega, ← hcur]
    · simp only [hcur]
      rw [if_pos (by omega), hzero]
  rw [hcur, push, ← hsub]

/-- The subheader that `new_subh` pushes. -/
theorem Tracked.headD_unfilled (h : Tracked pdu) :
    isUnfilled ((spare pdu).headD {}) = true := by
  obtain ⟨s, rest, hspare⟩ := h.spare_cons
  have hs := h.unfilled s (by rw [hspare]; exact List.mem_cons_self ..)
  rw [hspare]
  exact hs

/-- What `push` and a setter leave of the invariant, but for the space. -/
theorem Tracked.pushed (h : Tracked pdu) (hroom : pdu.nofSubheaders + 1 < pdu.maxSubheaders)
    {s : SchSubh} {remLen : Nat} {lastSduIdx : Option Nat} {sdus : Bytes}
    (hlast : LastSdu (inUse pdu ++ [s]) lastSduIdx)
    (hsdus : sdus.length = (dataSizes (inUse pdu ++ [s])).sum) (hrem : remLen < 2 ^ 32) :
    Tracked { push pdu s with remLen := remLen, lastSduIdx := lastSduIdx, sdus := sdus } where
  slots := by
    have hs := h.length_spare
    show (inUse pdu ++ s :: (spare pdu).tail).length = pdu.maxSubheaders
    rw [List.length_append, List.length_cons, List.length_tail, h.length_inUse]
    omega
  count := hroom
  cur := .inl rfl
  unfilled t ht := by
    have ht : t ∈ spare (push pdu s) := ht
    rw [h.spare_push] at ht
    exact h.unfilled t (List.mem_of_mem_tail ht)
  last := by
    show LastSdu (inUse (push pdu s)) lastSduIdx
    rw [h.inUse_push]
    exact hlast
  sdus := by
    show sdus.length = (dataSizes (inUse (push pdu s))).sum
    rw [h.inUse_push]
    exact hsdus
  rem := hrem

/-- A setter keeps the invariant when what it takes of the space is right. -/
theorem Accounted.pushed (h : Accounted pdu) {s : SchSubh} {remLen : Nat}
    {lastSduIdx : Option Nat} {sdus : Bytes}
    (htracked : Tracked
      { push pdu s with remLen := remLen, lastSduIdx := lastSduIdx, sdus := sdus })
    (hspace : remLen + spaceUsed (inUse pdu ++ [s]) = pdu.pduLen) :
    Accounted { push pdu s with remLen := remLen, lastSduIdx := lastSduIdx, sdus := sdus } where
  toTracked := htracked
  space := by
    show remLen + spaceUsed (inUse (push pdu s)) = pdu.pduLen
    rw [h.inUse_push]
    exact hspace
  small := h.small

/-- An open subheader keeps the invariant. -/
theorem Accounted.push_unfilled (h : Accounted pdu)
    (hroom : pdu.nofSubheaders + 1 < pdu.maxSubheaders) {s : SchSubh} (hs : isUnfilled s = true) :
    Accounted (push pdu s) := by
  have hdata := (isUnfilled_iff.mp hs).2
  refine h.pushed (h.toTracked.pushed hroom (h.last.append_other hdata) ?_ h.rem) ?_
  · rw [dataSizes_append, dataSizes_other hdata, List.append_nil]
    exact h.sdus
  · rw [spaceUsed_unfilled hs]
    exact h.space

/-- `del_subh` takes an unfilled subheader out of use. -/
theorem Accounted.delSubh (h : Accounted pdu) {ss : List SchSubh} {s : SchSubh}
    (huse : inUse pdu = ss ++ [s]) (hs : isUnfilled s = true) :
    Accounted pdu.delSubh ∧ inUse pdu.delSubh = ss := by
  have hdata := (isUnfilled_iff.mp hs).2
  have hcount : pdu.nofSubheaders = ss.length + 1 := by
    rw [← h.length_inUse, huse, List.length_append, List.length_singleton]
  have hsub : pdu.subheaders = ss ++ s :: spare pdu := by
    rw [← inUse_append_spare pdu, huse, List.append_assoc]
    rfl
  have huse' : inUse pdu.delSubh = ss := by
    show pdu.subheaders.take (pdu.nofSubheaders - 1) = ss
    rw [hsub, hcount, Nat.add_sub_cancel, List.take_left]
  have hspare : spare pdu.delSubh = s :: spare pdu := by
    show pdu.subheaders.drop (pdu.nofSubheaders - 1) = _
    rw [hcount, Nat.add_sub_cancel]
    exact hsub ▸ List.drop_left
  have hcur : pdu.delSubh.curIdx = some (pdu.nofSubheaders - 1 - 1) := by
    rcases h.cur with hcur | ⟨hzero, -⟩
    · simp only [SchPdu.delSubh, hcur, hcount, Nat.add_sub_cancel]
      cases ss.length with
      | zero => rfl
      | succ n => rfl
    · omega
  -- An open subheader takes no space, so all the accounts stay as they are.
  refine ⟨⟨⟨h.slots, ?_, .inl hcur, ?_, ?_, ?_, h.rem⟩, ?_, h.small⟩, huse'⟩
  · have hc := h.count
    show pdu.nofSubheaders - 1 + 1 ≤ pdu.maxSubheaders
    omega
  · intro t ht
    rw [hspare] at ht
    rcases List.mem_cons.mp ht with rfl | ht
    · exact hs
    · exact h.unfilled t ht
  · have hlast := h.last
    rw [huse] at hlast
    rw [huse']
    exact hlast.of_append_other hdata
  · have hsdus := h.sdus
    rw [huse, dataSizes_append, dataSizes_other hdata, List.append_nil] at hsdus
    rw [huse']
    exact hsdus
  · have hspace := h.space
    rw [huse, spaceUsed_unfilled hs] at hspace
    rw [huse']
    exact hspace

end

/-! ### The setters -/

section
variable {pdu : SchPdu} {s : SchSubh}

/-- An unsigned value survives the way through an `int`. -/
theorem toUint32_toInt32 {n : Nat} (h : n < 2 ^ 32) : toUint32 (toInt32 n) = n := by
  unfold toUint32 toInt32
  split <;> omega

/-- A change at the first index behind a list changes the element there. -/
theorem modify_append_cons {τ : Type} (front back : List τ) (x : τ) (f : τ → τ) :
    (front ++ x :: back).modify front.length f = front ++ f x :: back := by
  induction front with
  | nil => rfl
  | cons y front ih => exact congrArg (y :: ·) ih

/-- The setters change what was pushed. -/
theorem modifyCur_push (h : Tracked pdu) (f : SchSubh → SchSubh) (remLen : Nat)
    (lastSduIdx : Option Nat) (sdus : Bytes) :
    ({ push pdu s with
        remLen := remLen, lastSduIdx := lastSduIdx, sdus := sdus } : SchPdu).modifyCur f
      = { push pdu (f s) with remLen := remLen, lastSduIdx := lastSduIdx, sdus := sdus } := by
  have hmodify : (inUse pdu ++ s :: (spare pdu).tail).modify pdu.nofSubheaders f
      = inUse pdu ++ f s :: (spare pdu).tail := by
    rw [← h.length_inUse, modify_append_cons]
  show { push pdu s with
    subheaders := (inUse pdu ++ s :: (spare pdu).tail).modify pdu.nofSubheaders f
    remLen := remLen, lastSduIdx := lastSduIdx, sdus := sdus } = _
  rw [hmodify]
  rfl

/-- The length field of the last SDU is found behind the new subheader as well. -/
theorem Tracked.lastSduLength_push (h : Tracked pdu) (s : SchSubh) :
    (push pdu s).lastSduLength = lastLength (inUse pdu) := by
  have hlast := h.last
  rw [SchPdu.lastSduLength]
  show (match pdu.lastSduIdx with
    | some i => sizeHeaderSdu ((push pdu s).subh i).nofBytes - 1
    | none => 0) = _
  generalize hi : pdu.lastSduIdx = i at hlast
  generalize huse : inUse pdu = ss at hlast
  rw [lastLength, lastField]
  cases hlast with
  | none hnone => rw [dataSizes_eq_nil hnone]; rfl
  | @some front back t ht hback =>
    have hsubh : (push pdu s).subh front.length = t := by
      show (inUse pdu ++ s :: (spare pdu).tail).getD front.length {} = t
      rw [huse, List.append_assoc, List.getD_eq_getElem?_getD,
        List.getElem?_append_right (Nat.le_refl _), Nat.sub_self]
      rfl
    simp only [hsubh]
    rw [dataSizes_append, ← List.singleton_append, dataSizes_append, dataSizes_singleton ht,
      dataSizes_eq_nil hback, List.append_nil, List.getLast?_concat]

/-- The subheader with a control element. -/
def withCe (s : SchSubh) (lcid : Nat) (payload : Bytes) : SchSubh :=
  { lcid := lcid, nofBytes := payload.length
    wPayloadCe := payload ++ s.wPayloadCe.drop payload.length }

/-- The subheader with an SDU. -/
def withSdu (s : SchSubh) (lcid nofBytes : Nat) : SchSubh :=
  { s with lcid := lcid, nofBytes := nofBytes }

/-- The PDU with a control element. -/
def pushCe (pdu : SchPdu) (s : SchSubh) (lcid : Nat) (payload : Bytes) : SchPdu :=
  { push pdu (withCe s lcid payload) with remLen := pdu.remLen - (payload.length + 1) }

/-- The PDU with an SDU. -/
def pushSdu (pdu : SchPdu) (s : SchSubh) (lcid : Nat) (payload : Bytes) : SchPdu :=
  { push pdu (withSdu s lcid payload.length) with
    remLen := sub32 pdu.remLen (payload.length + 1 + lastLength (inUse pdu))
    lastSduIdx := some pdu.nofSubheaders
    sdus := pdu.sdus ++ payload }

/-- A control element in the subheader just opened: it is written when its bytes are left, and
otherwise nothing changes. -/
theorem setCe_push (h : Tracked pdu) (lcid : Nat) (payload : Bytes) :
    (push pdu s).setCe lcid payload =
      if payload.length + 1 ≤ pdu.remLen then (pushCe pdu s lcid payload, true)
      else (push pdu s, false) := by
  have hmodify : (push pdu s).modifyCur (withCe · lcid payload)
      = push pdu (withCe s lcid payload) :=
    modifyCur_push h _ pdu.remLen pdu.lastSduIdx pdu.sdus
  show (if (push pdu s).hasSpaceCe payload.length = true then
    ({ (push pdu s).modifyCur (withCe · lcid payload) with
        remLen := (push pdu s).remLen - (payload.length + 1) }, true)
    else (push pdu s, false)) = _
  rw [hmodify]
  show (if decide (payload.length + 1 ≤ pdu.remLen) = true then _ else _) = _
  exact if_congr decide_eq_true_iff rfl rfl

/-- The subheader is then that of a control element. -/
theorem isCe_withCe {lcid : Nat} (hlcid : lcidPhrReport ≤ lcid) (payload : Bytes) :
    isCe (withCe s lcid payload) = true := by
  show (!decide (lcid < lcidPhrReport)) = true
  simp only [Bool.not_eq_true', decide_eq_false_iff_not]
  omega

/-- A control element keeps the subheaders in step with the indices. -/
theorem Tracked.pushCe (h : Tracked pdu) (hroom : pdu.nofSubheaders + 1 < pdu.maxSubheaders)
    {lcid : Nat} {payload : Bytes} (hlcid : lcidPhrReport ≤ lcid) :
    Tracked (pushCe pdu s lcid payload) := by
  have hdata := isData_of_isCe (isCe_withCe hlcid payload (s := s))
  refine h.pushed hroom (h.last.append_other hdata) ?_ ?_
  · rw [dataSizes_append, dataSizes_other hdata, List.append_nil]
    exact h.sdus
  · have hrem := h.rem
    omega

/-- A control element that fits keeps the account: its bytes are taken from `rem_len`. -/
theorem Accounted.pushCe (h : Accounted pdu) (hroom : pdu.nofSubheaders + 1 < pdu.maxSubheaders)
    {lcid : Nat} {payload : Bytes} (hlcid : lcidPhrReport ≤ lcid)
    (hfits : payload.length + 1 ≤ pdu.remLen) : Accounted (pushCe pdu s lcid payload) := by
  refine h.pushed (h.toTracked.pushCe hroom hlcid) ?_
  have hspace := h.space
  rw [spaceUsed_ce (isCe_withCe hlcid payload)]
  show pdu.remLen - (payload.length + 1) + (_ + payload.length + 1) = _
  omega

/-- A control element adds to the control elements only. -/
theorem Tracked.sizes_pushCe (h : Tracked pdu) {lcid : Nat} (hlcid : lcidPhrReport ≤ lcid)
    (payload : Bytes) :
    ceSpace (inUse (Mac.pushCe pdu s lcid payload)) = ceSpace (inUse pdu) + (payload.length + 1) ∧
      dataSizes (inUse (Mac.pushCe pdu s lcid payload)) = dataSizes (inUse pdu) := by
  have hce := isCe_withCe hlcid payload (s := s)
  have huse : inUse (Mac.pushCe pdu s lcid payload) = inUse pdu ++ [withCe s lcid payload] :=
    h.inUse_push _
  have hone : ceSpace [withCe s lcid payload] = payload.length + 1 := by
    rw [ceSpace, List.filter_cons_of_pos hce]
    rfl
  rw [huse, ceSpace_append, hone, dataSizes_append, dataSizes_other (isData_of_isCe hce),
    List.append_nil]
  exact ⟨rfl, rfl⟩

/-- What `get_sdu_space` computes, as a `uint32_t`. -/
def sduSpace (pdu : SchPdu) : Nat := sub32 (sub32 pdu.remLen (lastLength (inUse pdu))) 1

/-- A length field has at most two bytes. -/
theorem lastLength_le (ss : List SchSubh) : lastLength ss ≤ 2 := by
  rw [lastLength, lastField]
  split
  · rename_i n _
    unfold sizeHeaderSdu
    split <;> omega
  · omega

/-- `get_sdu_space` on the open subheader, as the `int` that the code returns. -/
theorem Tracked.getSduSpace_push (h : Tracked pdu) :
    (push pdu s).getSduSpace = toInt32 (sduSpace pdu) := by
  rw [SchPdu.getSduSpace, h.lastSduLength_push]
  rfl

/-- The space for an SDU is an unsigned 32-bit value. -/
theorem Tracked.sduSpace_lt (h : Tracked pdu) : sduSpace pdu < 2 ^ 32 := by
  have hrem := h.rem
  have hlast := lastLength_le (inUse pdu)
  unfold sduSpace sub32
  split <;> split <;> omega

/-- The comparison of `has_space_sdu` is with the unsigned space. -/
theorem Tracked.hasSpaceSdu_push (h : Tracked pdu) (n : Nat) :
    (push pdu s).hasSpaceSdu n = decide (n ≤ sduSpace pdu) := by
  rw [SchPdu.hasSpaceSdu, h.getSduSpace_push, toUint32_toInt32 h.sduSpace_lt]

/-- There is space for an SDU exactly when it fits with its subheader and the length field of the
one before, provided that this length field fits. -/
theorem le_sduSpace_iff (hpos : lastLength (inUse pdu) + 1 ≤ pdu.remLen) {n : Nat} :
    n ≤ sduSpace pdu ↔ n + 1 + lastLength (inUse pdu) ≤ pdu.remLen := by
  rw [sduSpace, sub32_of_le (show lastLength (inUse pdu) ≤ pdu.remLen by omega),
    sub32_of_le (by omega)]
  omega

/-- `update_space_sdu` takes the SDU, its subheader and the length field of the one before from
`rem_len`. -/
theorem Tracked.updateSpaceSdu_push (h : Tracked pdu) (n : Nat) (sdus : Bytes) :
    ({ push pdu s with sdus := sdus } : SchPdu).updateSpaceSdu n =
      { push pdu s with
        remLen := sub32 pdu.remLen (n + 1 + lastLength (inUse pdu))
        lastSduIdx := some pdu.nofSubheaders
        sdus := sdus } := by
  have hlast : ({ push pdu s with sdus := sdus } : SchPdu).lastSduLength = lastLength (inUse pdu) :=
    h.lastSduLength_push s
  rw [SchPdu.updateSpaceSdu, hlast]
  rfl

/-- An SDU in the subheader just opened: it is written when there is space, and otherwise nothing
changes. -/
theorem setSdu_push (h : Tracked pdu) (lcid : Nat) (payload : Bytes) :
    (push pdu s).setSdu lcid payload =
      if payload.length ≤ sduSpace pdu then (pushSdu pdu s lcid payload, true)
      else (push pdu s, false) := by
  rw [SchPdu.setSdu, h.hasSpaceSdu_push]
  refine if_congr decide_eq_true_iff (Prod.ext ?_ rfl) rfl
  show (({ push pdu s with sdus := pdu.sdus ++ payload } : SchPdu).updateSpaceSdu
    payload.length).modifyCur (withSdu · lcid payload.length) = _
  rw [h.updateSpaceSdu_push]
  exact modifyCur_push h _ _ _ _

/-- The subheader is then that of an SDU. -/
theorem isData_withSdu {lcid n : Nat} (hlcid : lcid < lcidPhrReport) (hn : 0 < n) :
    isData (withSdu s lcid n) = true := by
  show (decide (lcid < lcidPhrReport) && decide (0 < n)) = true
  simp [hlcid, hn]

/-- An SDU keeps the subheaders in step with the indices. -/
theorem Tracked.pushSdu (h : Tracked pdu) (hroom : pdu.nofSubheaders + 1 < pdu.maxSubheaders)
    {lcid : Nat} {payload : Bytes} (hlcid : lcid < lcidPhrReport) (hne : 0 < payload.length) :
    Tracked (pushSdu pdu s lcid payload) := by
  have hdata : isData (withSdu s lcid payload.length) = true := isData_withSdu hlcid hne
  refine h.pushed hroom ?_ ?_ ?_
  · rw [← h.length_inUse]
    exact .append_data _ hdata
  · rw [dataSizes_append, dataSizes_singleton hdata, List.sum_append, List.length_append, h.sdus]
    rfl
  · have hrem := h.rem
    unfold sub32
    split <;> omega

/-- An SDU that fits with its subheader, and with the length field of the one before, keeps the
account. -/
theorem Accounted.pushSdu (h : Accounted pdu) (hroom : pdu.nofSubheaders + 1 < pdu.maxSubheaders)
    {lcid : Nat} {payload : Bytes} (hlcid : lcid < lcidPhrReport) (hne : 0 < payload.length)
    (hfits : payload.length + 1 + lastLength (inUse pdu) ≤ pdu.remLen) :
    Accounted (pushSdu pdu s lcid payload) := by
  refine h.pushed (h.toTracked.pushSdu hroom hlcid hne) ?_
  have hspace := h.space
  rw [spaceUsed_data (isData_withSdu hlcid hne), sub32_of_le hfits]
  show pdu.remLen - (payload.length + 1 + lastLength (inUse pdu))
    + (_ + payload.length + 1 + lastLength (inUse pdu)) = _
  omega

/-- An SDU adds to the SDUs only. -/
theorem Tracked.sizes_pushSdu (h : Tracked pdu) {lcid : Nat} {payload : Bytes}
    (hlcid : lcid < lcidPhrReport) (hne : 0 < payload.length) :
    ceSpace (inUse (Mac.pushSdu pdu s lcid payload)) = ceSpace (inUse pdu) ∧
      dataSizes (inUse (Mac.pushSdu pdu s lcid payload))
        = dataSizes (inUse pdu) ++ [payload.length] := by
  have hdata : isData (withSdu s lcid payload.length) = true := isData_withSdu hlcid hne
  have huse : inUse (Mac.pushSdu pdu s lcid payload)
      = inUse pdu ++ [withSdu s lcid payload.length] := h.inUse_push _
  have hone : ceSpace [withSdu s lcid payload.length] = 0 := by
    rw [ceSpace, List.filter_cons_of_neg (by simp [isCe_of_isData hdata])]
    rfl
  rw [huse, ceSpace_append, hone, dataSizes_append, dataSizes_singleton hdata]
  exact ⟨rfl, rfl⟩

/-- `set_sdu` with an interface: what is read goes into the PDU if it has between one byte and as
many as requested. -/
theorem setSduFrom_push (h : Tracked pdu) (lcid requested : Nat) (sduSz : Int) (payload : Bytes) :
    (push pdu s).setSduFrom lcid requested sduSz payload =
      if requested ≤ sduSpace pdu then
        if sduSz < 0 ∨ (requested : Int) < sduSz then (push pdu { s with lcid := lcid }, -1)
        else if sduSz = 0 then (push pdu { s with lcid := lcid }, 0)
        else (pushSdu pdu s lcid (payload.takeD sduSz.toNat 0), sduSz)
      else (push pdu s, -1) := by
  rw [SchPdu.setSduFrom, h.hasSpaceSdu_push]
  have hmodify : ∀ {t : SchSubh} (f : SchSubh → SchSubh), (push pdu t).modifyCur f
      = push pdu (f t) :=
    fun f => modifyCur_push h f pdu.remLen pdu.lastSduIdx pdu.sdus
  simp only [hmodify]
  refine if_congr decide_eq_true_iff (if_congr Iff.rfl rfl (if_congr Iff.rfl rfl ?_)) rfl
  have hlen : (payload.takeD sduSz.toNat 0).length = sduSz.toNat := List.takeD_length ..
  rw [pushSdu, hlen]
  refine Prod.ext ?_ rfl
  exact h.updateSpaceSdu_push (s := withSdu s lcid sduSz.toNat) _ _

end

end SrsUE.Proofs.Mac
