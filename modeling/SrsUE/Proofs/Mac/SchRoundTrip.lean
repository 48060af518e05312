import SrsUE.Proofs.Mac.SchElements

/-!
# `SrsUE.Proofs.Mac.SchRoundTrip`: the elements of a MAC PDU survive a round trip

`assemble` is a sequence of calls of `new_subh` and a setter that all succeed. What `parse_packet`
finds in the PDU that `write_packet` returns is compared with what the setters were given
(`roundTrip_iff`). The round trip fails when the parser runs out of subheaders: `new_subh` leaves
one slot of `max_subheaders` free for padding, but padding of two bytes takes two.
-/

set_option autoImplicit false

namespace SrsUE.Proofs.Mac

open SrsUE.Mac
open SrsUE.Rlc (Bytes sub32 sub32_of_le)

/-! ### Calls of the setters -/

/-- The element that a call puts into the PDU. -/
def callElement : SetCall → Nat × Bytes
  | .sdu lcid payload => (lcid, payload)
  | .sduFrom lcid _ sduSz payload => (lcid, payload.takeD sduSz.toNat 0)
  | .cRnti crnti => (lcidCrnti, cRntiPayload crnti)
  | .bsr buffSize format => (format.lcid, bsrPayload buffSize format)
  | .conResId conResId => (lcidConResId, conResIdPayload conResId)
  | .taCmd taCmd => (lcidTaCmd, taCmdPayload taCmd)
  | .phr phr => (lcidPhrReport, phrPayload phr)

/-- The call inserts an SDU. -/
def isSduCall : SetCall → Bool
  | .sdu .. | .sduFrom .. => true
  | _ => false

/-- An interface returns between one byte and as many as requested. -/
def offersData : SetCall → Bool
  | .sduFrom _ requestedBytes sduSz _ => decide (0 < sduSz ∧ sduSz ≤ requestedBytes)
  | _ => true

/-- The bytes that a call asks space for. An interface is asked to fill them. -/
def requestedLen : SetCall → Nat
  | .sduFrom _ requestedBytes _ _ => requestedBytes
  | c => (callElement c).2.length

/-- A control element of this direction, or an SDU with a channel and a length that a subheader can
hold. -/
def ValidCall (isUl : Bool) : SetCall → Prop
  | .sdu lcid payload => lcid < lcidPhrReport ∧ 0 < payload.length ∧ payload.length < 2 ^ 15
  | .sduFrom lcid _ sduSz _ => lcid < lcidPhrReport ∧ 0 < sduSz ∧ sduSz < 2 ^ 15
  | .cRnti _ | .bsr .. | .phr _ => isUl = true
  | .conResId _ | .taCmd _ => isUl = false

section
variable {pdu pdu' : SchPdu} {c : SetCall}

/-- A setter for a control element is `setCe` with its type and payload. -/
theorem set_ce (hc : isSduCall c = false) (pdu : SchPdu) :
    pdu.set c = pdu.setCe (callElement c).1 (callElement c).2 := by
  cases c with
  | sdu | sduFrom => cases hc
  | cRnti | bsr | conResId | taCmd | phr => rfl

/-- The type of a control element is above the channels. -/
theorem lcid_ce (hc : isSduCall c = false) : lcidPhrReport ≤ (callElement c).1 := by
  cases c with
  | sdu | sduFrom => cases hc
  | bsr buffSize format => cases format <;> exact Nat.le_of_ble_eq_true rfl
  | cRnti | conResId | taCmd | phr => exact Nat.le_of_ble_eq_true rfl

/-- A payload of the size that the receiver knows makes a valid control element. -/
theorem validElement_ce {isUl : Bool} {x : Nat × Bytes} (hce : lcidPhrReport ≤ x.1)
    (hlcid : x.1 < 32) (hpos : 0 < x.2.length) (hsize : sizeofCe x.1 isUl = x.2.length) :
    ValidElement isUl x ∧ isSduElement x = false := by
  refine ⟨⟨hpos, hlcid, ?_⟩, decide_eq_false (by omega)⟩
  rw [if_neg (by omega)]
  exact hsize

/-- A valid call makes a valid element of its kind. -/
theorem validElement_of_call {isUl : Bool} (hv : ValidCall isUl c) :
    ValidElement isUl (callElement c) ∧ isSduElement (callElement c) = isSduCall c := by
  cases c with
  | sdu lcid payload =>
    obtain ⟨hlcid, hpos, hlen⟩ := hv
    refine ⟨⟨hpos, ?_, ?_⟩, decide_eq_true hlcid⟩
    · exact Nat.lt_trans hlcid (by decide)
    · rw [if_pos (show (callElement (.sdu lcid payload)).1 < lcidPhrReport from hlcid)]
      exact hlen
  | sduFrom lcid requested sduSz payload =>
    obtain ⟨hlcid, hpos, hlt⟩ := hv
    have hlen : (payload.takeD sduSz.toNat 0).length = sduSz.toNat := List.takeD_length ..
    refine ⟨⟨?_, ?_, ?_⟩, decide_eq_true hlcid⟩
    · show 0 < (payload.takeD sduSz.toNat 0).length
      omega
    · exact Nat.lt_trans hlcid (by decide)
    · rw [if_pos (show (callElement (.sduFrom lcid requested sduSz payload)).1 < lcidPhrReport
        from hlcid)]
      show (payload.takeD sduSz.toNat 0).length < 2 ^ 15
      omega
  -- A control element is valid because its size is the one of its identifier.
  | bsr buffSize format =>
    cases hv
    cases format <;>
      exact validElement_ce (Nat.le_of_ble_eq_true rfl) (Nat.le_of_ble_eq_true rfl)
        (Nat.le_of_ble_eq_true rfl) rfl
  | cRnti | phr | conResId | taCmd =>
    cases hv
    exact validElement_ce (Nat.le_of_ble_eq_true rfl) (Nat.le_of_ble_eq_true rfl)
      (Nat.le_of_ble_eq_true rfl) rfl

/-- What an interface returns is no more than what it was asked for. -/
theorem length_le_requestedLen (hkind : isSduCall c = true) (hoffer : offersData c = true) :
    (callElement c).2.length ≤ requestedLen c := by
  cases c with
  | sdu lcid payload => exact Nat.le_refl _
  | sduFrom lcid requested sduSz payload =>
    have hlegal := of_decide_eq_true hoffer
    have hlen : (payload.takeD sduSz.toNat 0).length = sduSz.toNat := List.takeD_length ..
    show (payload.takeD sduSz.toNat 0).length ≤ requested
    omega
  | cRnti | bsr | conResId | taCmd | phr => cases hkind

/-- A failed setter leaves the subheader unfilled. -/
theorem Tracked.set_cases (h : Tracked pdu) {s : SchSubh} (hs : isUnfilled s = true) (c : SetCall)
    (hchannel : isSduCall c = true → requestedLen c ≤ sduSpace pdu →
      (callElement c).1 < lcidPhrReport) :
    (∃ s', isUnfilled s' = true ∧ (push pdu s).set c = (push pdu s', false)) ∨
    (isSduCall c = false ∧ (callElement c).2.length + 1 ≤ pdu.remLen ∧
      (push pdu s).set c = (Mac.pushCe pdu s (callElement c).1 (callElement c).2, true)) ∨
    (isSduCall c = true ∧ offersData c = true ∧ requestedLen c ≤ sduSpace pdu ∧
      (push pdu s).set c = (Mac.pushSdu pdu s (callElement c).1 (callElement c).2, true)) := by
  cases hkind : isSduCall c with
  | false =>
    rw [set_ce hkind, setCe_push h]
    split
    · rename_i hfits
      exact .inr (.inl ⟨rfl, hfits, rfl⟩)
    · exact .inl ⟨s, hs, rfl⟩
  | true =>
    cases c with
    | sdu lcid payload =>
      show (∃ s', _ ∧ (push pdu s).setSdu lcid payload = _) ∨ (_ ∧ _ ∧ _) ∨ _ ∧ _ ∧ _ ∧
        (push pdu s).setSdu lcid payload = _
      rw [setSdu_push h]
      split
      · rename_i hfits
        exact .inr (.inr ⟨rfl, rfl, hfits, rfl⟩)
      · exact .inl ⟨s, hs, rfl⟩
    | sduFrom lcid requested sduSz payload =>
      have hset : (push pdu s).set (.sduFrom lcid requested sduSz payload)
          = (((push pdu s).setSduFrom lcid requested sduSz payload).1,
            decide (0 < ((push pdu s).setSduFrom lcid requested sduSz payload).2)) := rfl
      rw [hset, setSduFrom_push h]
      -- `set_sdu` asks RLC for an SDU only when the requested size fits, and takes what RLC gives.
      by_cases hspace : requested ≤ sduSpace pdu
      · have hopen : isUnfilled { s with lcid := lcid } = true := by
          have hzero : s.nofBytes = 0 := of_decide_eq_true (Bool.and_eq_true_iff.mp hs).2
          exact Bool.and_eq_true_iff.mpr
            ⟨decide_eq_true (hchannel hkind hspace), decide_eq_true hzero⟩
        rw [if_pos hspace]
        by_cases hrange : sduSz < 0 ∨ (requested : Int) < sduSz
        · rw [if_pos hrange]
          exact .inl ⟨_, hopen, rfl⟩
        by_cases hzero : sduSz = 0
        · rw [if_neg hrange, if_pos hzero]
          exact .inl ⟨_, hopen, rfl⟩
        · rw [if_neg hrange, if_neg hzero]
          refine .inr (.inr ⟨rfl, decide_eq_true (by omega), hspace,
            Prod.ext rfl (decide_eq_true ?_)⟩)
          show 0 < sduSz
          omega
      · rw [if_neg hspace]
        exact .inl ⟨s, hs, rfl⟩
    | cRnti | bsr | conResId | taCmd | phr => cases hkind

/-- What `new_subh` and a setter can do. -/
theorem Tracked.attempt_cases (h : Tracked pdu) (c : SetCall)
    (hchannel : pdu.nofSubheaders + 1 < pdu.maxSubheaders → isSduCall c = true →
      requestedLen c ≤ sduSpace pdu → (callElement c).1 < lcidPhrReport) :
    pdu.attempt c = (pdu, false) ∨ pdu.nofSubheaders + 1 < pdu.maxSubheaders ∧ ∃ s,
      (isUnfilled s = true ∧ pdu.attempt c = ((push pdu s).delSubh, false)) ∨
      (isSduCall c = false ∧ (callElement c).2.length + 1 ≤ pdu.remLen ∧
        pdu.attempt c = (Mac.pushCe pdu s (callElement c).1 (callElement c).2, true)) ∨
      (isSduCall c = true ∧ offersData c = true ∧ requestedLen c ≤ sduSpace pdu ∧
        pdu.attempt c = (Mac.pushSdu pdu s (callElement c).1 (callElement c).2, true)) := by
  by_cases hroom : pdu.nofSubheaders + 1 < pdu.maxSubheaders
  · have hnew := h.newSubh_eq
    rw [if_pos hroom] at hnew
    refine .inr ⟨hroom, ?_⟩
    -- The set call fails and is undone, or it fills the subheader.
    rcases h.set_cases h.headD_unfilled c (hchannel hroom) with ⟨s', hs', hset⟩ | hset | hset
    · exact ⟨s', .inl ⟨hs', by rw [SchPdu.attempt, hnew]; simp only [hset]; rfl⟩⟩
    · refine ⟨(spare pdu).headD {}, .inr (.inl ⟨hset.1, hset.2.1, ?_⟩)⟩
      rw [SchPdu.attempt, hnew]
      simp only [hset.2.2]
      rfl
    · refine ⟨(spare pdu).headD {}, .inr (.inr ⟨hset.1, hset.2.1, hset.2.2.1, ?_⟩)⟩
      rw [SchPdu.attempt, hnew]
      simp only [hset.2.2.2]
      rfl
  · refine .inl ?_
    rw [SchPdu.attempt, h.newSubh_eq, if_neg hroom]

/-- The element of an SDU has its channel. -/
theorem ValidCall.channel {isUl : Bool} (hv : ValidCall isUl c) (hkind : isSduCall c = true) :
    (callElement c).1 < lcidPhrReport := by
  have hsdu := (validElement_of_call hv).2
  rw [hkind] at hsdu
  exact of_decide_eq_true hsdu

/-- What a call that succeeds does. -/
theorem Tracked.attempt_ok (h : Tracked pdu) (hv : ValidCall pdu.pduIsUl c)
    (hok : pdu.attempt c = (pdu', true)) :
    pdu.nofSubheaders + 1 < pdu.maxSubheaders ∧ ∃ s,
      (isSduCall c = false ∧ (callElement c).2.length + 1 ≤ pdu.remLen ∧
        pdu' = Mac.pushCe pdu s (callElement c).1 (callElement c).2) ∨
      (isSduCall c = true ∧ (callElement c).1 < lcidPhrReport ∧
        pdu' = Mac.pushSdu pdu s (callElement c).1 (callElement c).2) := by
  rcases h.attempt_cases c (fun _ hkind _ => hv.channel hkind) with
    heq | ⟨hroom, s, ⟨-, heq⟩ | ⟨hkind, hfits, heq⟩ | ⟨hkind, -, -, heq⟩⟩
  · rw [heq] at hok
    cases hok
  · rw [heq] at hok
    cases hok
  · rw [heq] at hok
    exact ⟨hroom, s, .inl ⟨hkind, hfits, (congrArg Prod.fst hok).symm⟩⟩
  · rw [heq] at hok
    exact ⟨hroom, s, .inr ⟨hkind, hv.channel hkind, (congrArg Prod.fst hok).symm⟩⟩

end

/-! ### Sequences of calls -/

/-- `new_subh` and then a setter for each of the calls, all of which succeed. -/
def assemble (pdu : SchPdu) : List SetCall → Option SchPdu
  | [] => some pdu
  | c :: calls =>
    match pdu.attempt c with
    | (pdu', true) => assemble pdu' calls
    | (_, false) => none

/-- The bytes that the elements take, with their subheaders. -/
def callsSpace (calls : List SetCall) : Nat :=
  spaceUsed (calls.map fun c => subhOf (callElement c))

/-- The PDU after the calls, all of which succeeded. -/
structure Assembled (maxSubheaders pduLen : Nat) (isUl : Bool) (pdu : SchPdu)
    (calls : List SetCall) : Prop where
  tracked : Tracked pdu
  carries : Carries pdu (calls.map callElement)
  fill : ∀ s ∈ inUse pdu, isUnfilled s = false
  dir : ∀ s ∈ inUse pdu, OfDirection pdu.pduIsUl s
  max : pdu.maxSubheaders = maxSubheaders
  len : pdu.pduLen = pduLen
  isUl : pdu.pduIsUl = isUl
  space : callsSpace calls ≤ pduLen → Accounted pdu

/-- The space does not depend on the payloads of control elements. -/
theorem spaceUsed_bare (ss : List SchSubh) : spaceUsed (ss.map bare) = spaceUsed ss := by
  have hdata : dataSizes (ss.map bare) = dataSizes ss := by
    rw [dataSizes, List.filter_map, List.map_map]
    rfl
  have hce : ceSpace (ss.map bare) = ceSpace ss := by
    rw [ceSpace, List.filter_map, List.map_map]
    rfl
  rw [spaceUsed, hdata, hce, spaceUsed]

/-- The space that the calls need is what the PDU uses. -/
theorem callsSpace_eq {pdu : SchPdu} {calls : List SetCall}
    (hc : Carries pdu (calls.map callElement))
    (hfill : ∀ s ∈ inUse pdu, isUnfilled s = false) :
    callsSpace calls = spaceUsed (inUse pdu) := by
  have hsubhs := hc.subhs
  rw [filled_eq hfill, List.map_map] at hsubhs
  rw [callsSpace, ← spaceUsed_bare (inUse pdu), hsubhs]
  rfl

/-- A further call needs no less space. -/
theorem callsSpace_le (calls : List SetCall) (c : SetCall) :
    callsSpace calls ≤ callsSpace (calls ++ [c]) := by
  rw [callsSpace, callsSpace, List.map_append, List.map_singleton]
  generalize subhOf (callElement c) = s
  by_cases hce : isCe s = true
  · rw [spaceUsed_ce hce]
    omega
  by_cases hdata : isData s = true
  · rw [spaceUsed_data hdata]
    omega
  · rw [spaceUsed_unfilled (isUnfilled_iff.mpr ⟨by simpa using hce, by simpa using hdata⟩)]

section
variable {maxSubheaders pduLen : Nat} {isUl : Bool} {pdu pdu' : SchPdu} {calls : List SetCall}

/-- A new PDU is what no calls make. -/
theorem assembled_initTx (hmax : 0 < maxSubheaders) (hlen : pduLen < 2 ^ 32) (isUl : Bool) :
    Assembled maxSubheaders pduLen isUl (initTx maxSubheaders pduLen isUl) [] where
  tracked := (accounted_initTx hmax hlen isUl).toTracked
  carries := carries_initTx ..
  fill := nofun
  dir := nofun
  max := rfl
  len := rfl
  isUl := rfl
  space _ := accounted_initTx hmax hlen isUl

/-- The subheader that a setter leaves behind. -/
theorem forall_inUse_push (h : Tracked pdu) {P : SchSubh → Prop} (hall : ∀ s ∈ inUse pdu, P s)
    {s : SchSubh} (hs : P s) : ∀ t ∈ inUse (push pdu s), P t := by
  intro t ht
  rw [h.inUse_push] at ht
  rcases List.mem_append.mp ht with ht | ht
  · exact hall t ht
  · rw [List.mem_singleton.mp ht]
    exact hs

/-- A control element is put behind the others. -/
theorem Assembled.pushCe {c : SetCall} {s : SchSubh}
    (h : Assembled maxSubheaders pduLen isUl pdu calls) (hv : ValidCall pdu.pduIsUl c)
    (hroom : pdu.nofSubheaders + 1 < pdu.maxSubheaders) (hkind : isSduCall c = false)
    (hfits : (callElement c).2.length + 1 ≤ pdu.remLen) :
    Assembled maxSubheaders pduLen isUl (pushCe pdu s (callElement c).1 (callElement c).2)
      (calls ++ [c]) := by
  obtain ⟨⟨hpos, hframed⟩, -⟩ := validElement_of_call hv
  have hlcid := lcid_ce hkind
  have hce := isCe_withCe hlcid (callElement c).2 (s := s)
  have hcarries : Carries (Mac.pushCe pdu s (callElement c).1 (callElement c).2)
      ((calls ++ [c]).map callElement) := by
    rw [List.map_append]
    exact h.carries.pushCe h.tracked hlcid _
  -- The element has the size that the direction gives it, so `write_packet` writes all of it.
  have hdirection : OfDirection pdu.pduIsUl (withCe s (callElement c).1 (callElement c).2) := by
    intro _
    have hsize := hframed.2
    rw [if_neg (by omega)] at hsize
    refine ⟨hpos, hsize, ?_⟩
    show (callElement c).2.length ≤ ((callElement c).2 ++ _).length
    rw [List.length_append]
    omega
  refine ⟨h.tracked.pushCe hroom hlcid, hcarries, ?_, ?_, h.max, h.len, h.isUl, ?_⟩
  · exact forall_inUse_push h.tracked h.fill (not_isUnfilled_of_isCe hce)
  · exact forall_inUse_push h.tracked h.dir hdirection
  · intro hspace
    have hle := callsSpace_le calls c
    exact (h.space (by omega)).pushCe hroom hlcid hfits

/-- An SDU is put behind the others. -/
theorem Assembled.pushSdu {c : SetCall} {s : SchSubh}
    (h : Assembled maxSubheaders pduLen isUl pdu calls) (hv : ValidCall pdu.pduIsUl c)
    (hroom : pdu.nofSubheaders + 1 < pdu.maxSubheaders)
    (hlcid : (callElement c).1 < lcidPhrReport) :
    Assembled maxSubheaders pduLen isUl (pushSdu pdu s (callElement c).1 (callElement c).2)
      (calls ++ [c]) := by
  obtain ⟨⟨hpos, -⟩, -⟩ := validElement_of_call hv
  have hdata : isData (withSdu s (callElement c).1 (callElement c).2.length) = true :=
    isData_withSdu hlcid hpos
  have hcarries : Carries (Mac.pushSdu pdu s (callElement c).1 (callElement c).2)
      ((calls ++ [c]).map callElement) := by
    rw [List.map_append]
    exact h.carries.pushSdu h.tracked hlcid hpos
  have hdirection : OfDirection pdu.pduIsUl
      (withSdu s (callElement c).1 (callElement c).2.length) := by
    intro hce
    rw [isCe_of_isData hdata] at hce
    cases hce
  have hfill : ∀ t ∈ inUse (Mac.pushSdu pdu s (callElement c).1 (callElement c).2),
      isUnfilled t = false :=
    forall_inUse_push h.tracked h.fill (not_isUnfilled_of_isData hdata)
  refine ⟨h.tracked.pushSdu hroom hlcid hpos, hcarries, hfill, ?_, h.max, h.len, h.isUl, ?_⟩
  · exact forall_inUse_push h.tracked h.dir hdirection
  -- The space that all calls need together bounds what this one takes.
  · intro hspace
    have hle := callsSpace_le calls c
    have hacc := h.space (by omega)
    have hbefore := hacc.space
    rw [callsSpace_eq hcarries hfill] at hspace
    have huse : inUse (Mac.pushSdu pdu s (callElement c).1 (callElement c).2)
        = inUse pdu ++ [withSdu s (callElement c).1 (callElement c).2.length] :=
      h.tracked.inUse_push _
    rw [huse, spaceUsed_data hdata] at hspace
    have hlen := h.len
    refine hacc.pushSdu hroom hlcid hpos ?_
    have hn : (withSdu s (callElement c).1 (callElement c).2.length).nofBytes
      = (callElement c).2.length := rfl
    omega

/-- One more call that succeeds. -/
theorem Assembled.attempt {c : SetCall} (h : Assembled maxSubheaders pduLen isUl pdu calls)
    (hv : ValidCall isUl c) (hok : pdu.attempt c = (pdu', true)) :
    Assembled maxSubheaders pduLen isUl pdu' (calls ++ [c]) := by
  rw [← h.isUl] at hv
  obtain ⟨hroom, s, ⟨hkind, hfits, rfl⟩ | ⟨-, hlcid, rfl⟩⟩ := h.tracked.attempt_ok hv hok
  · exact h.pushCe hv hroom hkind hfits
  · exact h.pushSdu hv hroom hlcid

/-- Any number of them. Induction on the calls. -/
theorem Assembled.assemble {more : List SetCall}
    (h : Assembled maxSubheaders pduLen isUl pdu calls) (hvalid : ∀ c ∈ more, ValidCall isUl c)
    (hrun : assemble pdu more = some pdu') :
    Assembled maxSubheaders pduLen isUl pdu' (calls ++ more) := by
  induction more generalizing pdu calls with
  | nil =>
    rw [List.append_nil, ← Option.some.inj hrun]
    exact h
  | cons c more ih =>
    rw [Mac.assemble] at hrun
    cases hattempt : pdu.attempt c with
    | mk pdu₁ ok =>
      rw [hattempt] at hrun
      cases ok with
      | false => cases hrun
      | true =>
        have hnext := h.attempt (hvalid c (List.mem_cons_self ..)) hattempt
        have hrest := ih hnext (fun c hc => hvalid c (List.mem_cons_of_mem _ hc)) hrun
        rwa [List.append_assoc] at hrest

end

/-! ### The round trip -/

/-- What a receiver should find: the control elements and then the SDUs. -/
def sentElements (calls : List SetCall) : List (Nat × Nat × Bytes) :=
  ((calls.filter fun c => !isSduCall c) ++ calls.filter isSduCall).map fun c => sent (callElement c)

/-- The PDU has its length, and `parse_packet` finds in it what the setters were given. -/
def RoundTrips (maxSubheaders pduLen : Nat) (isUl : Bool) (calls : List SetCall) (bytes : Bytes) :
    Prop :=
  bytes.length = pduLen ∧ ∃ ss, parsePacket maxSubheaders isUl bytes = some ss ∧
    received bytes (ss.filter fun s => s.lcid != lcidPadding) = sentElements calls

/-- Subheaders for padding alone all have the E bit, so the parser reads past the PDU. -/
theorem parsePacket_onlyPadding (slots : Nat) (isUl : Bool) (n : Nat) :
    parsePacket slots isUl (List.replicate n 0x3f) = none := by
  have hread : ∀ n slots, readSubheaders isUl slots (List.replicate n 0x3f) = none := by
    intro n
    induction n with
    | zero => intro slots; cases slots <;> rfl
    | succ n ih =>
      intro slots
      cases slots with
      | zero => rfl
      | succ slots =>
        rw [readSubheaders, List.replicate_succ, readSubheader_ce rfl (by decide)]
        show (readSubheaders isUl slots _).map _ = none
        rw [ih]
        rfl
  rw [parsePacket, hread]
  rfl

/-- An empty PDU of one or two bytes is padding subheaders. -/
theorem packet_initTx (maxSubheaders : Nat) {pduLen : Nat} (hlen : pduLen ≤ 2) (isUl : Bool) :
    packet (initTx maxSubheaders pduLen isUl) = List.replicate pduLen 0x3f := by
  obtain rfl | rfl | rfl : pduLen = 0 ∨ pduLen = 1 ∨ pduLen = 2 := by omega
  all_goals rfl

section
variable {maxSubheaders pduLen : Nat} {isUl : Bool} {pdu : SchPdu} {calls : List SetCall}

/-- The receiver should find the elements in the order in which they go out. -/
theorem sentElements_eq (hvalid : ∀ c ∈ calls, ValidCall isUl c) :
    sentElements calls = ((calls.map callElement).filter (fun x => !isSduElement x)
      ++ (calls.map callElement).filter isSduElement).map sent := by
  have hkind : ∀ c ∈ calls, isSduElement (callElement c) = isSduCall c :=
    fun c hc => (validElement_of_call (hvalid c hc)).2
  rw [sentElements, List.filter_map, List.filter_map, ← List.map_append, List.map_map]
  refine congrArg (List.map _) (congrArg₂ (· ++ ·) ?_ ?_)
  · exact List.filter_congr fun c hc => congrArg (!·) (hkind c hc).symm
  · exact List.filter_congr fun c hc => (hkind c hc).symm

/-- The number of subheaders that go out. -/
theorem Assembled.length_elements_le_iff (h : Assembled maxSubheaders pduLen isUl pdu calls)
    (hspace : callsSpace calls ≤ pduLen) :
    (elements pdu (calls.map callElement)).length ≤ maxSubheaders ↔
      ¬(calls.length + 1 = maxSubheaders ∧ callsSpace calls + 2 = pduLen) := by
  have hacc := h.space hspace
  have hrem := hacc.space
  have hcount := hacc.count
  have hlen := h.len
  have hmax := h.max
  rw [← callsSpace_eq h.carries h.fill] at hrem
  have hcalls : pdu.nofSubheaders = calls.length := by
    have hsubhs := congrArg List.length h.carries.subhs
    rw [filled_eq h.fill] at hsubhs
    simpa [hacc.length_inUse] using hsubhs
  rw [length_elements, List.length_map]
  unfold SchPdu.onetwoPadding SchPdu.multibytePadding
  by_cases htwo : 2 < pdu.remLen
  · rw [if_pos htwo, if_pos (decide_eq_true htwo)]
    omega
  · rw [if_neg htwo, if_neg (by simpa using htwo)]
    omega

/-- The round trip works exactly when the elements fit, there is an element or padding of several
bytes to end the subheaders, and padding of two bytes does not meet a full set of subheaders. -/
theorem roundTrip_iff {bytes : Bytes} (hmax : 0 < maxSubheaders) (hlen : pduLen < 2 ^ 32)
    (hvalid : ∀ c ∈ calls, ValidCall isUl c)
    (hrun : assemble (initTx maxSubheaders pduLen isUl) calls = some pdu)
    (hwrite : pdu.writePacket = some bytes) :
    RoundTrips maxSubheaders pduLen isUl calls bytes ↔
      callsSpace calls ≤ pduLen ∧ (calls ≠ [] ∨ 2 < pduLen) ∧
        ¬(calls.length + 1 = maxSubheaders ∧ callsSpace calls + 2 = pduLen) := by
  have h := (assembled_initTx hmax hlen isUl).assemble hvalid hrun
  rw [List.nil_append] at h
  have hbytes : bytes = packet pdu := by
    have hlast : ∀ ss s, inUse pdu = ss ++ [s] → isUnfilled s = false := fun ss s huse =>
      h.fill s (by rw [huse]; exact List.mem_append_right _ (List.mem_singleton_self s))
    rw [SchPdu.writePacket, h.tracked.removeEmptyLast_filled hlast h.dir] at hwrite
    split at hwrite
    · cases hwrite
    · exact eq_packet_of_writeChecked hwrite
  have hlength := h.tracked.length_packet h.fill h.dir
  have helements : ∀ x ∈ calls.map callElement, ValidElement pdu.pduIsUl x := by
    intro x hx
    obtain ⟨c, hc, rfl⟩ := List.mem_map.mp hx
    rw [h.isUl]
    exact (validElement_of_call (hvalid c hc)).1
  have hparse := h.tracked.parsePacket_packet h.carries h.fill h.dir helements
  rw [← sentElements_eq hvalid, h.isUl] at hparse
  rw [← callsSpace_eq h.carries h.fill] at hlength
  -- The bytes are the packet of the assembled PDU, and what the reader makes of them is known.
  subst hbytes
  constructor
  · rintro ⟨hsize, ss, hsome, hreceived⟩
    have hspace : callsSpace calls ≤ pduLen := by omega
    have hends : calls ≠ [] ∨ 2 < pduLen := by
      by_contra hnot
      obtain ⟨hnil, htwo⟩ := not_or.mp hnot
      rw [not_not] at hnil
      subst hnil
      rw [← Option.some.inj hrun, packet_initTx _ (by omega), parsePacket_onlyPadding] at hsome
      cases hsome
    refine ⟨hspace, hends, (h.length_elements_le_iff hspace).mp ?_⟩
    by_contra hfull
    have hne : calls.map callElement ≠ [] ∨ pdu.multibytePadding = true := by
      rcases hends with hne | htwo
      · exact .inl fun hnil => hne (List.map_eq_nil_iff.mp hnil)
      · by_cases hnil : calls = []
        · subst hnil
          rw [← Option.some.inj hrun]
          exact .inr (decide_eq_true htwo)
        · exact .inl fun hmap => hnil (List.map_eq_nil_iff.mp hmap)
    have hnone := hparse hne (by omega) maxSubheaders
    rw [if_neg hfull, hsome] at hnone
    cases hnone
  · rintro ⟨hspace, hends, hslots⟩
    have hacc := h.space hspace
    have hrem := hacc.space
    have hpduLen := h.len
    rw [← callsSpace_eq h.carries h.fill] at hrem
    refine ⟨by omega, ?_⟩
    have hne : calls.map callElement ≠ [] ∨ pdu.multibytePadding = true := by
      by_cases hnil : calls = []
      · subst hnil
        rw [← Option.some.inj hrun]
        exact .inr (decide_eq_true (hends.resolve_left (fun hne => hne rfl)))
      · exact .inl fun hmap => hnil (List.map_eq_nil_iff.mp hmap)
    have hsome := hparse hne (by omega) maxSubheaders
    rwa [if_pos ((h.length_elements_le_iff hspace).mpr hslots)] at hsome

end

/-- Two SDUs and a C-RNTI between them. -/
def mixedCalls : List SetCall := [.sdu 3 [7, 8], .cRnti 0x1234, .sdu 4 [9]]

/-- The calls of the example are valid. -/
theorem validCall_mixed : ∀ c ∈ mixedCalls, ValidCall true c := by
  intro c hc
  obtain rfl | rfl | rfl : c = .sdu 3 [7, 8] ∨ c = .cRnti 0x1234 ∨ c = .sdu 4 [9] := by
    simpa [mixedCalls] using hc
  · exact ⟨by decide, by decide, by decide⟩
  · rfl
  · exact ⟨by decide, by decide, by decide⟩

/-- Two SDUs and a C-RNTI come back, with the control element in front and a byte of padding. -/
theorem roundTrip_iff_mixed :
    RoundTrips 20 10 true mixedCalls [0x3f, 0x3b, 0x23, 0x02, 0x04, 0x00, 0x34, 7, 8, 9] :=
  (roundTrip_iff (by decide) (by decide) validCall_mixed rfl rfl).mpr (by decide)

/-- As many SDUs as `new_subh` allows, which leave two bytes. -/
def crowdedCalls : List SetCall := List.replicate 19 (.sdu 3 [7])

/-- With 19 SDUs there is no subheader left for the padding of two bytes. -/
theorem not_roundTrips_crowded :
    (∀ c ∈ crowdedCalls, ValidCall true c) ∧ ∃ pdu bytes,
      assemble (initTx 20 58 true) crowdedCalls = some pdu ∧ pdu.writePacket = some bytes ∧
        ¬RoundTrips 20 58 true crowdedCalls bytes := by
  refine ⟨fun c hc => ?_, _, _, rfl, rfl, ?_⟩
  · rw [List.eq_of_mem_replicate hc]
    exact ⟨by decide, by decide, by decide⟩
  · -- The parser needs a twenty-first subheader.
    rintro ⟨-, ss, hsome, -⟩
    have hnone : ∀ bytes, parsePacket 20 true bytes = none → parsePacket 20 true bytes
        ≠ some ss := by
      intro bytes hbytes hss
      rw [hbytes] at hss
      cases hss
    exact hnone _ rfl hsome

end SrsUE.Proofs.Mac
