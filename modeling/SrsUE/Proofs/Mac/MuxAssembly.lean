import SrsUE.Proofs.Mac.Priorities
import SrsUE.Proofs.Mac.SchAssembly

/-!
# `SrsUE.Proofs.Mac.MuxAssembly`: how `pdu_get` fills a MAC PDU

`allocate_sdu` and the attempts to insert a control element each have one lemma that says what they
can do to `pdu_msg`, whatever RLC answers.

* `pduGet_inv`: what both preserve holds of `pdu_msg` at the end of `pdu_get`.
* `pduGet_terminates`: the loops end with fuel for one round more than there are subheaders, since
  every round but the last opens one. At every time the elements that were inserted and `rem_len`
  add up to the length of the PDU.
-/

set_option autoImplicit false

namespace SrsUE.Proofs.Mac

open SrsUE.Mac SrsUE.Lib
open SrsUE.Rlc (Bytes sub32 sub32_of_le)

variable {ρ : Type}

/-! ### What the parts do -/

/-- `read_pdu` returns at most as many bytes as requested. -/
def Obliging (itf : RlcItf ρ) : Prop :=
  ∀ rlc lcid n, 0 ≤ (itf.readPdu rlc lcid n).1.1 ∧ (itf.readPdu rlc lcid n).1.1 ≤ n

/-- What `allocate_sdu` can do: nothing, open a subheader and delete it again, or insert an SDU that
fits. -/
inductive AllocCase (itf : RlcItf ρ) (a : Assembly ρ) (lcid : Nat) : Assembly ρ × Option Nat → Prop
  | skipped (rlc : ρ) : AllocCase itf a lcid ({ a with rlc := rlc }, none)
  | failed (s s' : SchSubh) (rlc : ρ) (reads : List (Nat × Bytes))
      (hroom : a.pdu.nofSubheaders + 1 < a.pdu.maxSubheaders)
      (hs : isUnfilled s = true) (hs' : isUnfilled s' = true)
      (hreads : Obliging itf → reads = a.reads) :
      AllocCase itf a lcid
        ({ a with
            pdu := (push a.pdu s').delSubh
            rlc := rlc
            reads := reads
            states := a.states ++ [push a.pdu s, push a.pdu s', (push a.pdu s').delSubh] }, none)
  | allocated (s : SchSubh) (payload : Bytes) (rlc : ρ)
      (hroom : a.pdu.nofSubheaders + 1 < a.pdu.maxSubheaders) (hs : isUnfilled s = true)
      (hpos : 0 < payload.length)
      (hfits : payload.length + 1 + lastLength (inUse a.pdu) ≤ a.pdu.remLen) :
      AllocCase itf a lcid
        ({ a with
            pdu := pushSdu a.pdu s lcid payload
            rlc := rlc
            reads := a.reads ++ [(lcid, payload)]
            states := a.states ++ [push a.pdu s, pushSdu a.pdu s lcid payload] },
          some payload.length)

/-- What an attempt to insert a control element can do: there is no subheader left, the element does
not fit and the subheader stays open, or it is inserted. -/
inductive CeCase (a : Assembly ρ) (c : SetCall) : Assembly ρ → Prop
  | full (hroom : ¬a.pdu.nofSubheaders + 1 < a.pdu.maxSubheaders) :
      CeCase a c { a with ceAttempts := a.ceAttempts ++ [⟨a.pdu, c, a.pdu, false⟩] }
  | leftOpen (s : SchSubh) (hroom : a.pdu.nofSubheaders + 1 < a.pdu.maxSubheaders)
      (hs : isUnfilled s = true) (hfits : ¬(callElement c).2.length + 1 ≤ a.pdu.remLen) :
      CeCase a c
        { a with
          pdu := push a.pdu s
          states := a.states ++ [push a.pdu s, push a.pdu s]
          ceAttempts := a.ceAttempts ++ [⟨a.pdu, c, push a.pdu s, false⟩] }
  | inserted (s : SchSubh) (hroom : a.pdu.nofSubheaders + 1 < a.pdu.maxSubheaders)
      (hs : isUnfilled s = true) (hfits : (callElement c).2.length + 1 ≤ a.pdu.remLen) :
      CeCase a c
        { a with
          pdu := pushCe a.pdu s (callElement c).1 (callElement c).2
          states := a.states ++ [push a.pdu s, pushCe a.pdu s (callElement c).1 (callElement c).2]
          ceAttempts := a.ceAttempts ++
            [⟨a.pdu, c, pushCe a.pdu s (callElement c).1 (callElement c).2, true⟩] }

section
variable {a : Assembly ρ} {itf : RlcItf ρ}

/-- An attempt to insert a control element, by what `new_subh` and `set_*` answer. -/
theorem insertCe_cases (h : Tracked a.pdu) {c : SetCall} (hc : isSduCall c = false) :
    CeCase a c (a.insertCe c) := by
  rw [Assembly.insertCe, h.newSubh_eq]
  by_cases hroom : a.pdu.nofSubheaders + 1 < a.pdu.maxSubheaders
  · rw [if_pos hroom]
    dsimp only
    rw [set_ce hc, setCe_push h]
    by_cases hfits : (callElement c).2.length + 1 ≤ a.pdu.remLen
    · rw [if_pos hfits]
      exact .inserted _ hroom h.headD_unfilled hfits
    · rw [if_neg hfits]
      exact .leftOpen _ hroom h.headD_unfilled hfits
  · rw [if_neg hroom]
    exact .full hroom

/-- The last SDU gets a length field of the length that the elements say. -/
theorem lastSduLength_eq {pdu : SchPdu} (h : Tracked pdu) :
    pdu.lastSduLength = lastLength (inUse pdu) := by
  rw [SchPdu.lastSduLength]
  rcases h.lastSdu_cases with ⟨hnone, hall⟩ | ⟨front, s, back, huse, hlast, hs, hback, hsubh⟩
  · rw [hnone, lastLength_of_none hall]
  · rw [hlast, huse, lastLength_of_back hs hback]
    dsimp only
    rw [hsubh]

/-- The signed space is positive only where nothing wraps around. -/
theorem fits_of_le_getSduSpace {pdu : SchPdu} (h : Tracked pdu) {n : Int} (hpos : 0 < n)
    (hle : n ≤ pdu.getSduSpace) : n.toNat + 1 + lastLength (inUse pdu) ≤ pdu.remLen := by
  have hrem := h.rem
  have hlast := lastLength_le (inUse pdu)
  rw [SchPdu.getSduSpace, lastSduLength_eq h] at hle
  unfold sub32 toInt32 at hle
  split at hle <;> split at hle <;> split at hle <;> omega

/-- `read_pdu` is asked for no more than `get_sdu_space` allows. -/
theorem requestLen_le (pdu : SchPdu) (bufferState : Nat) (maxSduSz : Int) :
    Assembly.requestLen pdu bufferState maxSduSz ≤ pdu.getSduSpace := by
  have hmin : ∀ sduLen space : Int, (if sduLen > space then space else sduLen) ≤ space := by
    intro sduLen space
    split
    · exact Int.le_refl space
    · omega
  exact hmin _ _

/-- A subheader that is unfilled stays so when only its channel is set. -/
theorem isUnfilled_lcid {s : SchSubh} (hs : isUnfilled s = true) {lcid : Nat}
    (hlcid : lcid < lcidPhrReport) : isUnfilled { s with lcid := lcid } = true := by
  have hzero : s.nofBytes = 0 := of_decide_eq_true (Bool.and_eq_true_iff.mp hs).2
  simp [isUnfilled, SchSubh.isSdu, hlcid, hzero]

/-- What `read_pdu` answers decides: an empty answer deletes the subheader, any other one is
inserted. -/
theorem readSdu_cases (h : Tracked a.pdu) (hroom : a.pdu.nofSubheaders + 1 < a.pdu.maxSubheaders)
    {s : SchSubh} (hs : isUnfilled s = true) {lcid n : Nat} (hlcid : lcid < lcidPhrReport)
    (hn : n + 1 + lastLength (inUse a.pdu) ≤ a.pdu.remLen) :
    AllocCase itf a lcid (a.readSdu itf (push a.pdu s) lcid n) := by
  have hspace : n ≤ sduSpace a.pdu := (le_sduSpace_iff (by omega)).mpr hn
  have hs' := isUnfilled_lcid hs hlcid
  have hoblige : Obliging itf → _ := fun hitf => hitf a.rlc lcid n
  rw [Assembly.readSdu, h.hasSpaceSdu_push, if_pos (decide_eq_true hspace)]
  generalize itf.readPdu a.rlc lcid n = answer at hoblige
  obtain ⟨⟨sduSz, payload⟩, rlc⟩ := answer
  dsimp only at hoblige ⊢
  rw [setSduFrom_push h, if_pos hspace]
  by_cases hbad : sduSz < 0 ∨ (n : Int) < sduSz
  · rw [if_pos hbad]
    refine .failed s _ rlc _ hroom hs hs' fun hitf => ?_
    have hlegal := hoblige hitf
    omega
  · rw [if_neg hbad]
    by_cases hzero : sduSz = 0
    · subst hzero
      exact .failed s _ rlc _ hroom hs hs' fun _ => rfl
    · have hlen : (payload.takeD sduSz.toNat 0).length = sduSz.toNat := List.takeD_length ..
      have hpos : 0 < sduSz := by omega
      rw [if_neg hzero]
      dsimp only
      rw [if_pos hpos, if_pos hpos]
      have hcase : AllocCase itf a lcid _ :=
        .allocated s (payload.takeD sduSz.toNat 0) rlc hroom hs (by omega) (by omega)
      rw [hlen] at hcase
      exact hcase

/-- The state that RLC begins with does not matter. -/
theorem AllocCase.of_rlc {rlc : ρ} {lcid : Nat} {x : Assembly ρ × Option Nat}
    (hcase : AllocCase itf { a with rlc := rlc } lcid x) : AllocCase itf a lcid x := by
  cases hcase with
  | skipped rlc' => exact .skipped rlc'
  | failed s s' rlc' reads hroom hs hs' hreads => exact .failed s s' rlc' reads hroom hs hs' hreads
  | allocated s payload rlc' hroom hs hpos hfits =>
    exact .allocated s payload rlc' hroom hs hpos hfits

/-- Every call of `allocate_sdu` is one of the listed cases, for any answers of the RLC layer. -/
theorem allocateSdu_cases (h : Tracked a.pdu) {lcid : Nat} (hlcid : lcid < lcidPhrReport)
    (maxSduSz : Int) : AllocCase itf a lcid (a.allocateSdu itf lcid maxSduSz) := by
  rw [Assembly.allocateSdu]
  generalize itf.getBufferState a.rlc lcid = answer
  obtain ⟨bufferState, rlc⟩ := answer
  dsimp only
  have hskip : AllocCase itf a lcid ({ a with rlc := rlc }, none) := .skipped rlc
  split
  · split
    · rename_i hpos
      rw [h.newSubh_eq]
      by_cases hroom : a.pdu.nofSubheaders + 1 < a.pdu.maxSubheaders
      · rw [if_pos hroom]
        have hfits := fits_of_le_getSduSpace h hpos (requestLen_le a.pdu bufferState maxSduSz)
        have hcase : AllocCase itf { a with rlc := rlc } lcid _ :=
          readSdu_cases (a := { a with rlc := rlc }) h hroom h.headD_unfilled hlcid hfits
        exact hcase.of_rlc
      · rw [if_neg hroom]
        exact hskip
    · exact hskip
  · exact hskip

end

/-! ### The loops -/

section
variable {itf : RlcItf ρ} {I : Assembly ρ → Prop}

/-- `allocate_sdu` preserves `I`, for every channel. -/
def KeptByAllocate (itf : RlcItf ρ) (I : Assembly ρ → Prop) : Prop :=
  ∀ a lcid maxSduSz, lcid < lcidPhrReport → I a → I (a.allocateSdu itf lcid maxSduSz).1

/-- An attempt to insert a control element for the uplink preserves `I`. -/
def KeptByInsertCe (I : Assembly ρ → Prop) : Prop :=
  ∀ a c, isSduCall c = false → ValidCall true c → I a → I (a.insertCe c)

/-- The loop of the first pass preserves what `allocate_sdu` preserves. Induction on the fuel. -/
theorem whilePositive_inv (halloc : KeptByAllocate itf I) {lcid : Nat}
    (hlcid : lcid < lcidPhrReport)
    {pbr : Int} {fuel : Nat} {a : Assembly ρ} {bj : Int} {r : Assembly ρ × Int}
    (h : Assembly.whilePositive itf lcid pbr fuel a bj = some r) (ha : I a) : I r.1 := by
  induction fuel generalizing a bj with
  | zero => cases h
  | succ fuel ih =>
    rw [Assembly.whilePositive] at h
    split at h
    · have hnext := halloc a lcid (if pbr < 0 then -1 else toInt32 (toUint32 bj)) hlcid ha
      split at h
      · rename_i a' sduSz heq
        rw [heq] at hnext
        exact ih h hnext
      · rename_i a' heq
        rw [heq] at hnext
        obtain rfl := Option.some.inj h
        exact hnext
    · obtain rfl := Option.some.inj h
      exact ha

/-- The loop of the second pass does as well. -/
theorem whileAllocated_inv (halloc : KeptByAllocate itf I) {lcid : Nat}
    (hlcid : lcid < lcidPhrReport)
    {fuel : Nat} {a a' : Assembly ρ} (h : Assembly.whileAllocated itf lcid fuel a = some a')
    (ha : I a) :
    I a' := by
  induction fuel generalizing a with
  | zero => cases h
  | succ fuel ih =>
    rw [Assembly.whileAllocated] at h
    have hnext := halloc a lcid (-1) hlcid ha
    split at h
    · rename_i a₁ sduSz heq
      rw [heq] at hnext
      exact ih h hnext
    · rename_i a₁ heq
      rw [heq] at hnext
      obtain rfl := Option.some.inj h
      exact hnext

/-- So does the first pass over the channels. -/
theorem firstPass_inv (halloc : KeptByAllocate itf I) {fuel : Nat} {pbr : List Int}
    {lcids : List Nat}
    (hlcids : ∀ l ∈ lcids, l < lcidPhrReport) {a : Assembly ρ} {bj : List Int}
    {r : Assembly ρ × List Int} (h : Assembly.firstPass itf fuel pbr lcids a bj = some r)
    (ha : I a) :
    I r.1 := by
  induction lcids generalizing a bj with
  | nil =>
    obtain rfl := Option.some.inj h
    exact ha
  | cons lcid lcids ih =>
    have hrest : ∀ l ∈ lcids, l < lcidPhrReport := fun l hl => hlcids l (List.mem_cons_of_mem _ hl)
    rw [Assembly.firstPass] at h
    split at h
    · obtain ⟨⟨a₁, b⟩, hwhile, hpass⟩ := Option.bind_eq_some_iff.mp h
      exact ih hrest hpass (whilePositive_inv halloc (hlcids lcid (List.mem_cons_self ..))
        hwhile ha)
    · exact ih hrest h ha

/-- So does the second pass. -/
theorem secondPass_inv (halloc : KeptByAllocate itf I) {fuel : Nat} {lcids : List Nat}
    (hlcids : ∀ l ∈ lcids, l < lcidPhrReport) {a a' : Assembly ρ}
    (h : Assembly.secondPass itf fuel lcids a = some a') (ha : I a) : I a' := by
  induction lcids generalizing a with
  | nil =>
    obtain rfl := Option.some.inj h
    exact ha
  | cons lcid lcids ih =>
    have hrest : ∀ l ∈ lcids, l < lcidPhrReport := fun l hl => hlcids l (List.mem_cons_of_mem _ hl)
    obtain ⟨a₁, hwhile, hpass⟩ := Option.bind_eq_some_iff.mp h
    exact ih hrest hpass (whileAllocated_inv halloc (hlcids lcid (List.mem_cons_self ..)) hwhile ha)

/-- The C-RNTI element and the CCCH come in front of everything else. -/
theorem insertCrnti_inv (halloc : KeptByAllocate itf I) (hce : KeptByInsertCe I) (m : Mux)
    {a : Assembly ρ} (ha : I a) : I (m.insertCrnti itf a) := by
  have hccch := halloc a 0 (-1) (by decide) ha
  rw [Mux.insertCrnti]
  generalize a.allocateSdu itf 0 (-1) = answer at hccch ⊢
  obtain ⟨a₁, ccch⟩ := answer
  dsimp only
  split
  · exact hce a₁ (.cRnti m.pendingCrntiCe) rfl rfl hccch
  · exact hccch

/-- A buffer status report is one attempt, when there is one. -/
theorem insertBsr_inv (hce : KeptByInsertCe I) (bsr : Option (Vector Nat 4 × BsrFormat))
    {a : Assembly ρ} (ha : I a) : I (a.insertReport (bsr.map Mux.setBsrCall)) := by
  cases bsr with
  | none => exact ha
  | some bsr => exact hce a (.bsr bsr.1 bsr.2) rfl rfl ha

/-- The reports are two attempts, one after the other. -/
theorem insertReports_inv (hce : KeptByInsertCe I) (req : CeRequests) {a : Assembly ρ} (ha : I a) :
    I (Mux.insertReports req a) := by
  have hbsr := insertBsr_inv hce (req.regularBsr a.pdu.remLen) ha
  rw [Mux.insertReports]
  cases req.phr with
  | none => exact hbsr
  | some phr => exact hce _ (.phr phr) rfl rfl hbsr

/-- The padding report is an attempt at the end, in one of the sizes that fit. -/
theorem insertPaddingBsr_inv (hce : KeptByInsertCe I) (req : CeRequests) (regular : Bool)
    {a : Assembly ρ} (ha : I a) : I (Mux.insertPaddingBsr req regular a).1 := by
  cases regular with
  | false => exact insertBsr_inv hce (req.paddingBsr a.pdu.remLen) ha
  | true => exact ha

/-- What `allocate_sdu` and the attempts to insert control elements preserve holds at the end, if it
holds before the SDUs of the other channels. -/
theorem pduGet_inv_of_insertCrnti (halloc : KeptByAllocate itf I) (hce : KeptByInsertCe I)
    {fuel : Nat}
    {req : CeRequests} {m : Mux} (hlcids : ∀ l ∈ m.lchidSorted, l < lcidPhrReport) {rlc : ρ}
    {pduSz : Nat} (hcrnti : I (m.insertCrnti itf (.start pduSz rlc))) {out : PduGetOutcome ρ}
    (h : m.pduGet fuel itf req rlc pduSz = some out) : I out.assembly := by
  have htail : ∀ l ∈ m.lchidSorted.tail, l < lcidPhrReport :=
    fun l hl => hlcids l (List.mem_of_mem_tail hl)
  obtain ⟨⟨a₁, bj⟩, hfirst, hrest⟩ := Option.bind_eq_some_iff.mp h
  obtain ⟨a₂, hsecond, rfl⟩ := Option.map_eq_some_iff.mp hrest
  have ha₁ := firstPass_inv halloc htail hfirst (insertReports_inv hce req hcrnti)
  exact insertPaddingBsr_inv hce req _ (secondPass_inv halloc htail hsecond ha₁)

/-- What both preserve holds at the end. -/
theorem pduGet_inv (halloc : KeptByAllocate itf I) (hce : KeptByInsertCe I) {fuel : Nat}
    {req : CeRequests} {m : Mux} (hlcids : ∀ l ∈ m.lchidSorted, l < lcidPhrReport) {rlc : ρ}
    {pduSz : Nat} (hstart : I (.start pduSz rlc)) {out : PduGetOutcome ρ}
    (h : m.pduGet fuel itf req rlc pduSz = some out) : I out.assembly :=
  pduGet_inv_of_insertCrnti halloc hce hlcids (insertCrnti_inv halloc hce m hstart) h

end

/-! ### The invariant -/

/-- With 20 subheaders there are 53 bytes in front of the SDUs. -/
theorem sduOffsetStart_of_max {pdu : SchPdu} (hmax : pdu.maxSubheaders = maxNofSubheaders) :
    pdu.sduOffsetStart = 53 := by
  rw [SchPdu.sduOffsetStart, hmax]
  rfl

/-- The elements in `pdu_msg` and `rem_len` have added up to the length of the PDU at every time,
with no more subheaders than `new_subh` allows. -/
structure AssemblyInv (pduSz : Nat) (a : Assembly ρ) : Prop where
  accounted : Accounted a.pdu
  max : a.pdu.maxSubheaders = maxNofSubheaders
  len : a.pdu.pduLen = pduSz
  isUl : a.pdu.pduIsUl = true
  states : ∀ p ∈ a.states, Accounted p ∧ p.maxSubheaders = maxNofSubheaders ∧ p.pduLen = pduSz

section
variable {pduSz : Nat} {a : Assembly ρ} {itf : RlcItf ρ}

/-- `pdu_get` starts from an empty PDU. -/
theorem assemblyInv_start (hsz : pduSz < 2 ^ 32) (rlc : ρ) : AssemblyInv pduSz
    (.start pduSz rlc) where
  accounted := accounted_initTx (by decide) hsz true
  max := rfl
  len := rfl
  isUl := rfl
  states := by
    intro p hp
    rw [List.mem_singleton.mp hp]
    exact ⟨accounted_initTx (by decide) hsz true, rfl, rfl⟩

/-- Further states of the PDU that keep the account join the earlier ones. -/
theorem AssemblyInv.concat (h : AssemblyInv pduSz a) {ps : List SchPdu}
    (hps : ∀ p ∈ ps, Accounted p ∧ p.maxSubheaders = a.pdu.maxSubheaders ∧
      p.pduLen = a.pdu.pduLen) :
    ∀ p ∈ a.states ++ ps, Accounted p ∧ p.maxSubheaders = maxNofSubheaders ∧ p.pduLen = pduSz := by
  intro p hp
  rcases List.mem_append.mp hp with hold | hnew
  · exact h.states p hold
  · obtain ⟨hacc, hmax, hlen⟩ := hps p hnew
    exact ⟨hacc, hmax.trans h.max, hlen.trans h.len⟩

/-- `allocate_sdu` keeps the invariant, and uses up a subheader when it returns a length. -/
theorem AssemblyInv.allocateSdu (h : AssemblyInv pduSz a) {lcid : Nat}
    (hlcid : lcid < lcidPhrReport)
    {x : Assembly ρ × Option Nat} (hcase : AllocCase itf a lcid x) :
    AssemblyInv pduSz x.1 ∧
      (x.2.isSome = true → x.1.pdu.nofSubheaders = a.pdu.nofSubheaders + 1) := by
  cases hcase with
  | skipped rlc =>
    exact ⟨⟨h.accounted, h.max, h.len, h.isUl, h.states⟩, fun hsome => by cases hsome⟩
  | failed s s' rlc reads hroom hs hs' hreads =>
    have hopen := h.accounted.push_unfilled hroom hs
    have hopen' := h.accounted.push_unfilled hroom hs'
    have hdel := (hopen'.delSubh (h.accounted.inUse_push s') hs').1
    refine ⟨⟨hdel, h.max, h.len, h.isUl, h.concat fun p hp => ?_⟩, fun hsome => by cases hsome⟩
    simp only [List.mem_cons, List.not_mem_nil, or_false] at hp
    rcases hp with rfl | rfl | rfl
    · exact ⟨hopen, rfl, rfl⟩
    · exact ⟨hopen', rfl, rfl⟩
    · exact ⟨hdel, rfl, rfl⟩
  | allocated s payload rlc hroom hs hpos hfits =>
    have hopen := h.accounted.push_unfilled hroom hs
    have hsdu : Accounted (pushSdu a.pdu s lcid payload) :=
      h.accounted.pushSdu hroom hlcid hpos hfits
    refine ⟨⟨hsdu, h.max, h.len, h.isUl, h.concat fun p hp => ?_⟩, fun _ => rfl⟩
    simp only [List.mem_cons, List.not_mem_nil, or_false] at hp
    rcases hp with rfl | rfl
    · exact ⟨hopen, rfl, rfl⟩
    · exact ⟨hsdu, rfl, rfl⟩

/-- An attempt to insert a control element keeps the invariant. -/
theorem AssemblyInv.insertCe (h : AssemblyInv pduSz a) {c : SetCall} (hc : isSduCall c = false)
    {a' : Assembly ρ} (hcase : CeCase a c a') : AssemblyInv pduSz a' := by
  cases hcase with
  | full hroom => exact ⟨h.accounted, h.max, h.len, h.isUl, h.states⟩
  | leftOpen s hroom hs hfits =>
    have hopen := h.accounted.push_unfilled hroom hs
    refine ⟨hopen, h.max, h.len, h.isUl, h.concat fun p hp => ?_⟩
    simp only [List.mem_cons, List.not_mem_nil, or_false, or_self] at hp
    rw [hp]
    exact ⟨hopen, rfl, rfl⟩
  | inserted s hroom hs hfits =>
    have hopen := h.accounted.push_unfilled hroom hs
    have hce : Accounted (pushCe a.pdu s (callElement c).1 (callElement c).2) :=
      h.accounted.pushCe hroom (lcid_ce hc) hfits
    refine ⟨hce, h.max, h.len, h.isUl, h.concat fun p hp => ?_⟩
    simp only [List.mem_cons, List.not_mem_nil, or_false] at hp
    rcases hp with rfl | rfl
    · exact ⟨hopen, rfl, rfl⟩
    · exact ⟨hce, rfl, rfl⟩

/-- The invariant is one that `allocate_sdu` preserves. -/
theorem keptByAllocate_assemblyInv (itf : RlcItf ρ) (pduSz : Nat) :
    KeptByAllocate itf (AssemblyInv pduSz) := fun _ _ maxSduSz hlcid h =>
  (h.allocateSdu hlcid (allocateSdu_cases h.accounted.toTracked hlcid maxSduSz)).1

/-- The invariant is one that a control element preserves. -/
theorem keptByInsertCe_assemblyInv (pduSz : Nat) :
    KeptByInsertCe (fun a : Assembly ρ => AssemblyInv pduSz a) := fun _ _ hc _ h =>
  h.insertCe hc (insertCe_cases h.accounted.toTracked hc)

/-! ### Termination -/

/-- One subheader is always left over. -/
theorem AssemblyInv.count (h : AssemblyInv pduSz a) : a.pdu.nofSubheaders + 1 ≤ maxNofSubheaders :=
  h.max ▸ h.accounted.count

/-- The loop of the first pass ends: every round uses up a subheader, and there are 20. -/
theorem whilePositive_terminates (itf : RlcItf ρ) (h : AssemblyInv pduSz a) {lcid : Nat}
    (hlcid : lcid < lcidPhrReport)
    (pbr bj : Int) {fuel : Nat} (hfuel : maxNofSubheaders ≤ fuel + a.pdu.nofSubheaders) :
    ∃ r, Assembly.whilePositive itf lcid pbr fuel a bj = some r := by
  induction fuel generalizing a bj with
  | zero =>
    have hcount := h.count
    omega
  | succ fuel ih =>
    rw [Assembly.whilePositive]
    split
    · have hcase : AllocCase itf a lcid _ := allocateSdu_cases h.accounted.toTracked hlcid
        (if pbr < 0 then -1 else toInt32 (toUint32 bj))
      obtain ⟨hinv, hopened⟩ := h.allocateSdu hlcid hcase
      split
      · rename_i a' sduSz heq
        rw [heq] at hinv hopened
        have hcount : a'.pdu.nofSubheaders = a.pdu.nofSubheaders + 1 := hopened rfl
        exact ih (a := a') hinv _ (by omega)
      · exact ⟨_, rfl⟩
    · exact ⟨_, rfl⟩

/-- The loop of the second pass ends for the same reason. -/
theorem whileAllocated_terminates (itf : RlcItf ρ) (h : AssemblyInv pduSz a) {lcid : Nat}
    (hlcid : lcid < lcidPhrReport)
    {fuel : Nat} (hfuel : maxNofSubheaders ≤ fuel + a.pdu.nofSubheaders) :
    ∃ a', Assembly.whileAllocated itf lcid fuel a = some a' := by
  induction fuel generalizing a with
  | zero =>
    have hcount := h.count
    omega
  | succ fuel ih =>
    have hcase : AllocCase itf a lcid _ := allocateSdu_cases h.accounted.toTracked hlcid (-1)
    obtain ⟨hinv, hopened⟩ := h.allocateSdu hlcid hcase
    rw [Assembly.whileAllocated]
    split
    · rename_i a' sduSz heq
      rw [heq] at hinv hopened
      have hcount : a'.pdu.nofSubheaders = a.pdu.nofSubheaders + 1 := hopened rfl
      exact ih (a := a') hinv (by omega)
    · exact ⟨_, rfl⟩

/-- The first pass ends for any list of channels. -/
theorem firstPass_terminates (itf : RlcItf ρ) (h : AssemblyInv pduSz a) {fuel : Nat}
    (hfuel : maxNofSubheaders ≤ fuel)
    (pbr : List Int) {lcids : List Nat} (hlcids : ∀ l ∈ lcids, l < lcidPhrReport) (bj : List Int) :
    ∃ r, Assembly.firstPass itf fuel pbr lcids a bj = some r := by
  induction lcids generalizing a bj with
  | nil => exact ⟨_, rfl⟩
  | cons lcid lcids ih =>
    have hlcid := hlcids lcid (List.mem_cons_self ..)
    have hrest : ∀ l ∈ lcids, l < lcidPhrReport := fun l hl => hlcids l (List.mem_cons_of_mem _ hl)
    rw [Assembly.firstPass]
    split
    · obtain ⟨r, hr⟩ := whilePositive_terminates itf h hlcid (pbr.getD lcid 0) (bj.getD lcid 0)
        (Nat.le_add_right_of_le hfuel)
      rw [hr]
      exact ih (whilePositive_inv (keptByAllocate_assemblyInv itf pduSz) hlcid hr h) hrest _
    · exact ih h hrest bj

/-- So does the second pass. -/
theorem secondPass_terminates (itf : RlcItf ρ) (h : AssemblyInv pduSz a) {fuel : Nat}
    (hfuel : maxNofSubheaders ≤ fuel)
    {lcids : List Nat} (hlcids : ∀ l ∈ lcids, l < lcidPhrReport) :
    ∃ a', Assembly.secondPass itf fuel lcids a = some a' := by
  induction lcids generalizing a with
  | nil => exact ⟨_, rfl⟩
  | cons lcid lcids ih =>
    have hlcid := hlcids lcid (List.mem_cons_self ..)
    have hrest : ∀ l ∈ lcids, l < lcidPhrReport := fun l hl => hlcids l (List.mem_cons_of_mem _ hl)
    obtain ⟨a', ha'⟩ := whileAllocated_terminates itf h hlcid (Nat.le_add_right_of_le hfuel)
    rw [Assembly.secondPass, ha']
    exact ih (whileAllocated_inv (keptByAllocate_assemblyInv itf pduSz) hlcid ha' h) hrest

/-! ### More fuel -/

/-- With more fuel the first loop gives the same result. -/
theorem whilePositive_mono {lcid : Nat} {pbr bj : Int} {fuel more : Nat} (hmore : fuel ≤ more)
    {r : Assembly ρ × Int} (h : Assembly.whilePositive itf lcid pbr fuel a bj = some r) :
    Assembly.whilePositive itf lcid pbr more a bj = some r := by
  induction fuel generalizing a bj more with
  | zero => cases h
  | succ fuel ih =>
    obtain ⟨more, rfl⟩ : ∃ k, more = k + 1 := ⟨more - 1, by omega⟩
    rw [Assembly.whilePositive] at h ⊢
    split at h
    · rename_i hcond
      rw [if_pos hcond]
      split at h
      · exact ih (by omega) h
      · exact h
    · rename_i hcond
      rw [if_neg hcond]
      exact h

/-- With more fuel the second loop gives the same result. -/
theorem whileAllocated_mono {lcid fuel more : Nat} (hmore : fuel ≤ more) {a' : Assembly ρ}
    (h : Assembly.whileAllocated itf lcid fuel a = some a') :
    Assembly.whileAllocated itf lcid more a = some a' := by
  induction fuel generalizing a more with
  | zero => cases h
  | succ fuel ih =>
    obtain ⟨more, rfl⟩ : ∃ k, more = k + 1 := ⟨more - 1, by omega⟩
    rw [Assembly.whileAllocated] at h ⊢
    split at h
    · exact ih (by omega) h
    · exact h

/-- With more fuel the first pass gives the same result. -/
theorem firstPass_mono {fuel more : Nat} (hmore : fuel ≤ more) {pbr : List Int} {lcids : List Nat}
    {bj : List Int} {r : Assembly ρ × List Int}
    (h : Assembly.firstPass itf fuel pbr lcids a bj = some r) :
    Assembly.firstPass itf more pbr lcids a bj = some r := by
  induction lcids generalizing a bj with
  | nil => exact h
  | cons lcid lcids ih =>
    rw [Assembly.firstPass] at h ⊢
    split at h
    · rename_i hne
      obtain ⟨⟨a₁, b⟩, hwhile, hpass⟩ := Option.bind_eq_some_iff.mp h
      rw [if_pos hne, whilePositive_mono hmore hwhile]
      exact ih hpass
    · rename_i hzero
      rw [if_neg hzero]
      exact ih h

/-- With more fuel the second pass gives the same result. -/
theorem secondPass_mono {fuel more : Nat} (hmore : fuel ≤ more) {lcids : List Nat} {a' : Assembly ρ}
    (h : Assembly.secondPass itf fuel lcids a = some a') :
    Assembly.secondPass itf more lcids a = some a' := by
  induction lcids generalizing a with
  | nil => exact h
  | cons lcid lcids ih =>
    obtain ⟨a₁, hwhile, hpass⟩ := Option.bind_eq_some_iff.mp h
    rw [Assembly.secondPass, whileAllocated_mono hmore hwhile]
    exact ih hpass

/-- With more fuel `pdu_get` gives the same result. -/
theorem pduGet_mono {fuel more : Nat} (hmore : fuel ≤ more) {req : CeRequests} {m : Mux} {rlc : ρ}
    {out : PduGetOutcome ρ} (h : m.pduGet fuel itf req rlc pduSz = some out) :
    m.pduGet more itf req rlc pduSz = some out := by
  obtain ⟨⟨a₁, bj⟩, hfirst, hrest⟩ := Option.bind_eq_some_iff.mp h
  obtain ⟨a₂, hsecond, rfl⟩ := Option.map_eq_some_iff.mp hrest
  rw [Mux.pduGet]
  dsimp only
  rw [firstPass_mono hmore hfirst, Option.bind_some]
  dsimp only
  rw [secondPass_mono hmore hsecond]
  rfl

/-- With fuel for one round more than there are subheaders, `pdu_get` returns. -/
theorem pduGet_returns (itf : RlcItf ρ) (req : CeRequests) {m : Mux}
    (hlcids : ∀ l ∈ m.lchidSorted, l < lcidPhrReport) (rlc : ρ) (hsz : pduSz < 2 ^ 32) :
    ∃ out, m.pduGet maxNofSubheaders itf req rlc pduSz = some out := by
  have halloc := keptByAllocate_assemblyInv itf pduSz
  have hce : KeptByInsertCe (fun a : Assembly ρ => AssemblyInv pduSz a) :=
    keptByInsertCe_assemblyInv pduSz
  have htail : ∀ l ∈ m.lchidSorted.tail, l < lcidPhrReport :=
    fun l hl => hlcids l (List.mem_of_mem_tail hl)
  have hreports := insertReports_inv hce req
    (insertCrnti_inv halloc hce m (assemblyInv_start hsz rlc))
  obtain ⟨⟨a₁, bj⟩, hfirst⟩ :=
    firstPass_terminates itf hreports (Nat.le_refl _) m.pbr htail m.updateBj
  have ha₁ := firstPass_inv halloc htail hfirst hreports
  obtain ⟨a₂, hsecond⟩ := secondPass_terminates itf ha₁ (Nat.le_refl _) htail
  rw [Mux.pduGet]
  dsimp only
  rw [hfirst, Option.bind_some]
  dsimp only
  rw [hsecond]
  exact ⟨_, rfl⟩

end

/-! ### Results -/

/-- The mux after calls of `setup_lcid`, with any `Bj` and pending C-RNTI. -/
def muxAfter (calls : List SetupLcid) (bj : List Int) (pendingCrntiCe : Nat) : Mux :=
  { (setups calls).mux with bj := bj, pendingCrntiCe := pendingCrntiCe }

/-- `set_priority` moves entries of its table and adds none. -/
theorem lchidSorted_setPriority {m : Mux} (h : ∀ l ∈ m.lchidSorted, l < nofUlLch)
    (lchId newPriority : Nat) (pbr : Int) (bsd : Nat) :
    ∀ l ∈ (m.setPriority lchId newPriority pbr bsd).lchidSorted, l < nofUlLch := by
  rw [Mux.setPriority]
  split
  · rename_i hlch
    split
    · dsimp only
      split
      · exact h
      · intro l hl
        rcases List.eq_or_mem_of_mem_insertIdx hl with rfl | hold
        · exact hlch
        · exact h l (List.mem_of_mem_eraseIdx hold)
    · exact h
  · exact h

/-- The sorted channels are uplink channels after any calls of `setup_lcid`. -/
theorem lchidSorted_muxAfter (calls : List SetupLcid) (bj : List Int) (pendingCrntiCe : Nat) :
    ∀ l ∈ (muxAfter calls bj pendingCrntiCe).lchidSorted, l < lcidPhrReport := by
  have hcalls : ∀ (cs : List SetupLcid) (t : LchTables), (∀ l ∈ t.mux.lchidSorted, l < nofUlLch) →
      ∀ l ∈ (cs.foldl LchTables.setupLcid t).mux.lchidSorted, l < nofUlLch := by
    intro cs
    induction cs with
    | nil => exact fun t ht => ht
    | cons c cs ih =>
      exact fun t ht => ih _ (lchidSorted_setPriority ht c.lcid c.priority c.pbrXTti c.bsd)
  intro l hl
  have hlt := hcalls calls {} (fun l hl => List.mem_range.mp hl) l hl
  exact Nat.lt_trans hlt (by decide)

/-- Whatever RLC and the reports answer, the loops of `pdu_get` end. At every time `pdu_msg` has at
most 19 subheaders, and `rem_len` is the length of the PDU without the control elements, the SDUs
and their subheaders. -/
theorem pduGet_terminates (itf : RlcItf ρ) (req : CeRequests) (calls : List SetupLcid)
    (bj : List Int)
    (pendingCrntiCe : Nat) (rlc : ρ) (pduSz : UInt32) :
    ∃ out : PduGetOutcome ρ,
      (∀ fuel, maxNofSubheaders ≤ fuel →
        (muxAfter calls bj pendingCrntiCe).pduGet fuel itf req rlc pduSz.toNat = some out) ∧
      ∀ pdu ∈ out.assembly.states, pdu.nofSubheaders ≤ maxNofSubheaders - 1 ∧
        pdu.remLen + (ceSpace (inUse pdu) + (dataSizes (inUse pdu)).sum
          + sduHeaders (dataSizes (inUse pdu))) = pduSz.toNat := by
  have hlcids := lchidSorted_muxAfter calls bj pendingCrntiCe
  have hsz : pduSz.toNat < 2 ^ 32 := pduSz.toNat_lt
  obtain ⟨out, hout⟩ := pduGet_returns itf req hlcids rlc hsz
  have hinv := pduGet_inv (keptByAllocate_assemblyInv itf _) (keptByInsertCe_assemblyInv _) hlcids
    (assemblyInv_start hsz rlc) hout
  refine ⟨out, fun fuel hfuel => pduGet_mono hfuel hout, fun pdu hpdu => ?_⟩
  obtain ⟨hacc, hmax, hlen⟩ := hinv.states pdu hpdu
  have hcount := hacc.count
  have hspace := hacc.space
  rw [hmax] at hcount
  rw [hlen] at hspace
  exact ⟨Nat.le_sub_of_add_le hcount, hspace⟩

end SrsUE.Proofs.Mac
