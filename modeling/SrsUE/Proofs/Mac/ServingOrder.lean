import SrsUE.Proofs.Mac.MuxAssembly

/-!
# `SrsUE.Proofs.Mac.ServingOrder`: the order in which `pdu_get` serves the channels

`set_priority` keeps the channels in `lchid_sorted`, and `pdu_get` goes through them twice, from the
second place on.

* `setPriority_eq_moveEntry`: the loop of `set_priority` takes an entry from one place and puts it
  at another, in both directions.
* `pduGet_rounds`: with any tables, the channels for which `pdu_get` asks RLC, one after the other.
* `channels_run`: with channels and priorities from 1 to 16, no call loses a channel or doubles one.
* `order_iff`: the tables are in order after every call exactly when every call moves its channel
  forward, or to a priority that some channel has.
-/

set_option autoImplicit false

namespace SrsUE.Proofs.Mac

open SrsUE.Mac

/-! ### The loop of `set_priority` -/

/-- The loop from `i` on, over one of the tables. -/
def shiftEntries (newIndex add : Int) : Nat → Int → List Nat → List Nat
  | 0, _, xs => xs
  | fuel + 1, i, xs =>
    if i ≠ newIndex then
      shiftEntries newIndex add fuel (i + add) (xs.set i.toNat (xs.getD (i + add).toNat 0))
    else xs

/-- The loop and the assignment behind it. -/
def moveEntry (xs : List Nat) (oldIndex newIndex entry : Nat) : List Nat :=
  (shiftEntries newIndex (if newIndex > oldIndex then 1 else -1) xs.length oldIndex xs).set newIndex
    entry

/-- A round copies an entry over its neighbour, so the table without the copied entry stays the
same. -/
theorem eraseIdx_set_neighbour {xs : List Nat} {i j : Nat} (hi : i < xs.length) (hj : j < xs.length)
    (hij : j = i + 1 ∨ i = j + 1) : (xs.set i (xs.getD j 0)).eraseIdx j = xs.eraseIdx i := by
  refine List.ext_getElem ?_ fun k hk hk' => ?_
  · rw [List.length_eraseIdx, List.length_eraseIdx, List.length_set, if_pos hi, if_pos hj]
  · simp only [List.length_eraseIdx, List.length_set, if_pos hi, if_pos hj] at hk hk'
    rw [List.getElem_eraseIdx, List.getElem_eraseIdx]
    simp only [List.getElem_set, List.getD_eq_getElem?_getD, List.getElem?_eq_getElem hj,
      Option.getD_some]
    rcases hij with rfl | rfl <;> grind

/-- The table without the entry at `i` stays the same until the end of the loop, where it is the one
at the new index that is missing. -/
theorem shiftEntries_eraseIdx {newIndex : Nat} {add : Int} {fuel n i : Nat} {xs : List Nat}
    (hnew : newIndex < xs.length) (hi : i < xs.length) (hadd : add = 1 ∨ add = -1)
    (hstop : (newIndex : Int) = i + add * n) (hfuel : n ≤ fuel) :
    (shiftEntries newIndex add fuel i xs).eraseIdx newIndex = xs.eraseIdx i ∧
      (shiftEntries newIndex add fuel i xs).length = xs.length := by
  induction fuel generalizing i n xs with
  | zero =>
    obtain rfl : n = 0 := by omega
    obtain rfl : newIndex = i := by omega
    exact ⟨rfl, rfl⟩
  | succ fuel ih =>
    cases n with
    | zero =>
      obtain rfl : newIndex = i := by omega
      rw [shiftEntries, if_neg (fun h => h rfl)]
      exact ⟨rfl, rfl⟩
    | succ n =>
      rw [shiftEntries, if_pos (by rcases hadd with rfl | rfl <;> omega)]
      obtain ⟨j, hj⟩ : ∃ j : Nat, (i : Int) + add = j :=
        ⟨((i : Int) + add).toNat, by rcases hadd with rfl | rfl <;> omega⟩
      have hjlt : j < xs.length := by rcases hadd with rfl | rfl <;> omega
      have hnext : j = i + 1 ∨ i = j + 1 := by rcases hadd with rfl | rfl <;> omega
      rw [hj, Int.toNat_natCast, Int.toNat_natCast]
      have hrest := @ih n j (xs.set i (xs.getD j 0)) (by rwa [List.length_set])
        (by rwa [List.length_set]) (by rcases hadd with rfl | rfl <;> omega) (by omega)
      rw [eraseIdx_set_neighbour hi hjlt hnext, List.length_set] at hrest
      exact hrest

/-- The entry is taken from its old place and put at the new one. -/
theorem moveEntry_eq {xs : List Nat} {oldIndex newIndex : Nat} (hold : oldIndex < xs.length)
    (hnew : newIndex < xs.length) (entry : Nat) :
    moveEntry xs oldIndex newIndex entry = (xs.eraseIdx oldIndex).insertIdx newIndex entry := by
  have hloop : (shiftEntries newIndex (if newIndex > oldIndex then 1 else -1) xs.length oldIndex
        xs).eraseIdx newIndex = xs.eraseIdx oldIndex ∧
      (shiftEntries newIndex (if newIndex > oldIndex then 1 else -1) xs.length oldIndex xs).length
        = xs.length := by
    split
    · exact shiftEntries_eraseIdx (n := newIndex - oldIndex) hnew hold (Or.inl rfl) (by omega)
        (by omega)
    · exact shiftEntries_eraseIdx (n := oldIndex - newIndex) hnew hold (Or.inr rfl) (by omega)
        (by omega)
  rw [moveEntry, ← hloop.1, List.insertIdx_eraseIdx_self (by rw [hloop.2]; omega)]

/-- When both searches succeed, `set_priority` runs the loop on both tables. -/
theorem setPriority_eq_moveEntry {m : Mux} (hlenp : m.prioritySorted.length = nofUlLch)
    (hlenl : m.lchidSorted.length = nofUlLch) {l p old new : Nat} (hl : l < nofUlLch)
    (hp : p < nofUlLch) (hold : m.lchidSorted.findIdx (fun l' => l == l') = old)
    (hnew : m.prioritySorted.findIdx (fun q => !(p > q)) = new) (holdLt : old < nofUlLch)
    (hnewLt : new < nofUlLch) (pbr : Int) (bsd : Nat) :
    (m.setPriority l p pbr bsd).prioritySorted = moveEntry m.prioritySorted old new p ∧
      (m.setPriority l p pbr bsd).lchidSorted = moveEntry m.lchidSorted old new l := by
  rw [Mux.setPriority, if_pos hl, if_pos hp]
  dsimp only
  rw [hnew, hold, if_neg (by omega), moveEntry_eq (by omega) (by omega),
    moveEntry_eq (by omega) (by omega)]
  exact ⟨rfl, rfl⟩

/-! ### The channels that `pdu_get` asks for -/

section
variable {ρ : Type}

/-- RLC with a record of the channels whose buffer state was asked for. -/
def recorded (itf : RlcItf ρ) : RlcItf (ρ × List Nat) where
  getBufferState rlc lcid :=
    ((itf.getBufferState rlc.1 lcid).1, (itf.getBufferState rlc.1 lcid).2, rlc.2 ++ [lcid])
  readPdu rlc lcid n := ((itf.readPdu rlc.1 lcid n).1, (itf.readPdu rlc.1 lcid n).2, rlc.2)

/-- Channels one after the other, each for some rounds. -/
def inRounds (rounds : Nat → Nat) (lcids : List Nat) : List Nat :=
  lcids.flatMap fun l => List.replicate (rounds l) l

variable {itf : RlcItf ρ} {a : Assembly (ρ × List Nat)}

/-- One more channel in front of the others. -/
theorem inRounds_cons {P : Nat → Nat → Prop} {lcid n : Nat} {rounds : Nat → Nat} {lcids : List Nat}
    (hnot : lcid ∉ lcids) (hn : P lcid n) (hrounds : ∀ l ∈ lcids, P l (rounds l)) :
    ∃ rounds', (∀ l ∈ lcid :: lcids, P l (rounds' l)) ∧
      inRounds rounds' (lcid :: lcids) = List.replicate n lcid ++ inRounds rounds lcids := by
  have hother : ∀ l ∈ lcids, Function.update rounds lcid n l = rounds l := fun l hl =>
    Function.update_of_ne (fun heq => hnot (by rwa [← heq])) n rounds
  refine ⟨Function.update rounds lcid n, fun l hl => ?_, ?_⟩
  · rcases List.mem_cons.mp hl with rfl | hl'
    · rwa [Function.update_self]
    · rw [hother l hl']
      exact hrounds l hl'
  · rw [inRounds, List.flatMap_cons, Function.update_self, inRounds,
      List.flatMap_congr fun l hl => by rw [hother l hl]]

/-- Reading an SDU asks for no buffer state. -/
theorem asked_readSdu (itf : RlcItf ρ) (a : Assembly (ρ × List Nat)) (opened : SchPdu)
    (lcid sduLen : Nat) :
    (a.readSdu (recorded itf) opened lcid sduLen).1.rlc.2 = a.rlc.2 := by
  unfold Assembly.readSdu
  dsimp only
  split <;> split <;> rfl

/-- `allocate_sdu` asks for the buffer state of its channel, once. -/
theorem asked_allocateSdu (itf : RlcItf ρ) (a : Assembly (ρ × List Nat)) (lcid : Nat)
    (maxSduSz : Int) :
    (a.allocateSdu (recorded itf) lcid maxSduSz).1.rlc.2 = a.rlc.2 ++ [lcid] := by
  unfold Assembly.allocateSdu
  dsimp only
  split
  · split
    · split
      · exact asked_readSdu ..
      · rfl
    · rfl
  · rfl

/-- A control element asks nothing. -/
theorem asked_insertCe (c : SetCall) : (a.insertCe c).rlc = a.rlc := by
  unfold Assembly.insertCe
  split <;> rfl

/-- Nor does a report. -/
theorem asked_insertReport (c : Option SetCall) : (a.insertReport c).rlc = a.rlc := by
  cases c with
  | none => rfl
  | some c => exact asked_insertCe c

/-- The second loop asks for its channel, at least once. -/
theorem asked_whileAllocated {lcid fuel : Nat} {a' : Assembly (ρ × List Nat)}
    (h : Assembly.whileAllocated (recorded itf) lcid fuel a = some a') :
    ∃ rounds, 1 ≤ rounds ∧ a'.rlc.2 = a.rlc.2 ++ List.replicate rounds lcid := by
  induction fuel generalizing a with
  | zero => cases h
  | succ fuel ih =>
    have hasked := asked_allocateSdu itf a lcid (-1)
    rw [Assembly.whileAllocated] at h
    split at h
    · rename_i a₁ sduSz heq
      obtain ⟨rounds, -, hrest⟩ := ih h
      rw [heq] at hasked
      exact ⟨rounds + 1, Nat.le_add_left .., by
        rw [hrest, hasked, List.append_assoc, List.singleton_append, List.replicate_succ]⟩
    · rename_i a₁ heq
      rw [heq] at hasked
      exact ⟨1, Nat.le_refl 1, by rw [← Option.some.inj h, hasked]; rfl⟩

/-- The first loop asks at all only for a channel with positive `Bj` or infinite `PBR`. -/
theorem asked_whilePositive {lcid fuel : Nat} {pbr bj : Int} {r : Assembly (ρ × List Nat) × Int}
    (h : Assembly.whilePositive (recorded itf) lcid pbr fuel a bj = some r) :
    ∃ rounds, (1 ≤ rounds ↔ 0 < bj ∨ pbr < 0) ∧
      r.1.rlc.2 = a.rlc.2 ++ List.replicate rounds lcid := by
  -- Each round asks for the channel once, whatever it gets.
  induction fuel generalizing a bj with
  | zero => cases h
  | succ fuel ih =>
    rw [Assembly.whilePositive] at h
    split at h
    · rename_i hcond
      have hcond' : 0 < bj ∨ pbr < 0 := by simpa using hcond
      have hasked := asked_allocateSdu itf a lcid
        (if pbr < 0 then -1 else toInt32 (toUint32 bj))
      split at h
      · rename_i a₁ sduSz heq
        obtain ⟨rounds, -, hrest⟩ := ih h
        rw [heq] at hasked
        exact ⟨rounds + 1, by simp [hcond'], by
          rw [hrest, hasked, List.append_assoc, List.singleton_append, List.replicate_succ]⟩
      · rename_i a₁ heq
        rw [heq] at hasked
        exact ⟨1, by simp [hcond'], by rw [← Option.some.inj h, hasked]; rfl⟩
    · rename_i hcond
      have hcond' : ¬(0 < bj ∨ pbr < 0) := by simpa using hcond
      exact ⟨0, by simp [hcond'], by rw [← Option.some.inj h]; simp⟩

/-- The second pass asks for each channel in turn. -/
theorem asked_secondPass {fuel : Nat} {lcids : List Nat} {a' : Assembly (ρ × List Nat)}
    (hnodup : lcids.Nodup) (h : Assembly.secondPass (recorded itf) fuel lcids a = some a') :
    ∃ rounds, (∀ l ∈ lcids, 1 ≤ rounds l) ∧ a'.rlc.2 = a.rlc.2 ++ inRounds rounds lcids := by
  induction lcids generalizing a with
  | nil => exact ⟨fun _ => 0, by simp, by rw [← Option.some.inj h]; simp [inRounds]⟩
  | cons lcid lcids ih =>
    obtain ⟨hnot, hnodup'⟩ := List.nodup_cons.mp hnodup
    obtain ⟨a₁, hwhile, hrest⟩ := Option.bind_eq_some_iff.mp h
    obtain ⟨n, hn, hasked⟩ := asked_whileAllocated hwhile
    obtain ⟨rounds, hrounds, hasked'⟩ := ih hnodup' hrest
    obtain ⟨rounds', hrounds', heq⟩ := inRounds_cons (P := fun _ n => 1 ≤ n) hnot hn hrounds
    exact ⟨rounds', hrounds', by rw [hasked', hasked, heq, List.append_assoc]⟩

/-- The first pass asks for the channels with credit in turn. -/
theorem asked_firstPass {fuel : Nat} {pbr bj : List Int} {lcids : List Nat}
    {r : Assembly (ρ × List Nat) × List Int} (hnodup : lcids.Nodup)
    (h : Assembly.firstPass (recorded itf) fuel pbr lcids a bj = some r) :
    ∃ rounds, (∀ l ∈ lcids, 1 ≤ rounds l ↔ l ≠ 0 ∧ (0 < bj.getD l 0 ∨ pbr.getD l 0 < 0)) ∧
      r.1.rlc.2 = a.rlc.2 ++ inRounds rounds lcids := by
  induction lcids generalizing a bj with
  | nil => exact ⟨fun _ => 0, by simp, by rw [← Option.some.inj h]; simp [inRounds]⟩
  | cons lcid lcids ih =>
    obtain ⟨hnot, hnodup'⟩ := List.nodup_cons.mp hnodup
    -- Both cases give the rounds of the first channel, and leave the `Bj` of the others.
    obtain ⟨n, a₁, bj₁, hn, hasked, hbj, hrest⟩ : ∃ n a₁ bj₁,
        (1 ≤ n ↔ lcid ≠ 0 ∧ (0 < bj.getD lcid 0 ∨ pbr.getD lcid 0 < 0)) ∧
        (a₁ : Assembly (ρ × List Nat)).rlc.2 = a.rlc.2 ++ List.replicate n lcid ∧
        (∀ l ∈ lcids, (bj₁ : List Int).getD l 0 = bj.getD l 0) ∧
        Assembly.firstPass (recorded itf) fuel pbr lcids a₁ bj₁ = some r := by
      rw [Assembly.firstPass] at h
      split at h
      · rename_i hne
        obtain ⟨⟨a₁, b⟩, hwhile, hrest⟩ := Option.bind_eq_some_iff.mp h
        obtain ⟨n, hn, hasked⟩ := asked_whilePositive hwhile
        refine ⟨n, a₁, bj.set lcid b, by rw [hn]; exact (and_iff_right hne).symm, hasked,
          fun l hl => ?_, hrest⟩
        have hne' : lcid ≠ l := fun heq => hnot (by rwa [heq])
        simp [List.getD_eq_getElem?_getD, List.getElem?_set_ne hne']
      · rename_i hzero
        exact ⟨0, a, bj, by simp [not_not.mp hzero], by simp, fun _ _ => rfl, h⟩
    obtain ⟨rounds, hrounds, hasked'⟩ := ih hnodup' hrest
    obtain ⟨rounds', hrounds', heq⟩ := inRounds_cons
      (P := fun l n => 1 ≤ n ↔ l ≠ 0 ∧ (0 < bj.getD l 0 ∨ pbr.getD l 0 < 0)) hnot hn fun l hl => by
        rw [hrounds l hl, hbj l hl]
    exact ⟨rounds', hrounds', by rw [hasked', hasked, heq, List.append_assoc]⟩

/-- `pdu_get` asks for CCCH, and then twice for the channels from the second place of `lchid_sorted`
on: for each of them in rounds that follow each other. In the second pass each gets a round, and in
the first each with positive `Bj` or infinite `PBR`. -/
theorem pduGet_rounds {m : Mux} (hnodup : m.lchidSorted.tail.Nodup) {fuel : Nat} {req : CeRequests}
    {rlc : ρ} {pduSz : Nat} {out : PduGetOutcome (ρ × List Nat)}
    (h : m.pduGet fuel (recorded itf) req (rlc, []) pduSz = some out) :
    ∃ first second : Nat → Nat,
      out.assembly.rlc.2
        = 0 :: (inRounds first m.lchidSorted.tail ++ inRounds second m.lchidSorted.tail) ∧
      (∀ l ∈ m.lchidSorted.tail,
        1 ≤ first l ↔ l ≠ 0 ∧ (0 < m.updateBj.getD l 0 ∨ m.pbr.getD l 0 < 0)) ∧
      ∀ l ∈ m.lchidSorted.tail, 1 ≤ second l := by
  obtain ⟨⟨a₁, bj⟩, hfirst, hrest⟩ := Option.bind_eq_some_iff.mp h
  obtain ⟨a₂, hsecond, rfl⟩ := Option.map_eq_some_iff.mp hrest
  obtain ⟨first, hfirst', hasked⟩ := asked_firstPass hnodup hfirst
  obtain ⟨second, hsecond', hasked'⟩ := asked_secondPass hnodup hsecond
  refine ⟨first, second, ?_, hfirst', hsecond'⟩
  -- The reports ask RLC for nothing.
  have hpadding : ∀ (regular : Bool) (a : Assembly (ρ × List Nat)),
      (Mux.insertPaddingBsr req regular a).1.rlc = a.rlc := by
    intro regular a
    unfold Mux.insertPaddingBsr
    split
    · rfl
    · exact asked_insertReport _
  have hreports : ∀ a : Assembly (ρ × List Nat), (Mux.insertReports req a).rlc = a.rlc := by
    intro a
    rw [Mux.insertReports, asked_insertReport, asked_insertReport]
  have hcrnti : (m.insertCrnti (recorded itf) (.start pduSz (rlc, []))).rlc.2 = [0] := by
    have hccch := asked_allocateSdu itf (.start pduSz (rlc, [])) 0 (-1)
    unfold Mux.insertCrnti
    dsimp only
    split
    · rw [asked_insertCe]
      exact hccch
    · exact hccch
  dsimp only
  rw [hpadding, hasked', hasked, hreports, hcrnti, List.append_assoc]
  rfl

end

/-! ### No channel is lost -/

/-- The mux after calls of `set_priority`, which are made by `setup_lcid`. -/
def prioritized (calls : List SetupLcid) : Mux :=
  calls.foldl (fun m c => m.setPriority c.lcid c.priority c.pbrXTti c.bsd) {}

/-- One more call of `set_priority`. -/
theorem prioritized_concat (calls : List SetupLcid) (c : SetupLcid) :
    prioritized (calls ++ [c])
      = (prioritized calls).setPriority c.lcid c.priority c.pbrXTti c.bsd := by
  rw [prioritized, List.foldl_append]
  rfl

/-- The mux after `setup_lcid` is the one after `set_priority`. -/
theorem mux_setups (calls : List SetupLcid) : (setups calls).mux = prioritized calls := by
  induction calls using List.reverseRecOn with
  | nil => rfl
  | append_singleton calls c ih =>
    rw [setups_concat, prioritized_concat, ← ih]
    rfl

/-- Every channel is in `lchid_sorted`, and CCCH is the first and has the priority 0. -/
structure ChannelsKept (m : Mux) : Prop where
  perm : m.lchidSorted.Perm (List.range nofUlLch)
  length : m.prioritySorted.length = nofUlLch
  channel : m.lchidSorted.head? = some 0
  priority : m.prioritySorted.head? = some 0

/-- The search of `set_priority` finds every channel. -/
theorem ChannelsKept.search {m : Mux} (h : ChannelsKept m) {l : Nat} (hl : l < nofUlLch) :
    m.lchidSorted.findIdx (fun l' => l == l') < nofUlLch := by
  rw [← List.length_range (n := nofUlLch), ← h.perm.length_eq]
  exact List.findIdx_lt_length.mpr
    ⟨l, h.perm.mem_iff.mpr (List.mem_range.mpr hl), beq_self_eq_true l⟩

/-- A channel other than CCCH with a priority other than 0 never gets to the first place. -/
theorem ChannelsKept.setPriority {m : Mux} (h : ChannelsKept m) {l p : Nat}
    (hl : 1 ≤ l ∧ l < nofUlLch)
    (hp : 1 ≤ p ∧ p < nofUlLch) (pbr : Int) (bsd : Nat) :
    ChannelsKept (m.setPriority l p pbr bsd) := by
  obtain ⟨hperm, hlen, hchannel, hpriority⟩ := h
  obtain ⟨hperm', hlen'⟩ := perm_setPriority hperm hlen (p := p) hl.2 pbr bsd
  suffices hfirst : (m.setPriority l p pbr bsd).lchidSorted.head? = some 0 ∧
      (m.setPriority l p pbr bsd).prioritySorted.head? = some 0 from
    ⟨hperm', hlen', hfirst.1, hfirst.2⟩
  rw [Mux.setPriority, if_pos hl.2, if_pos hp.2]
  dsimp only
  split
  · exact ⟨hchannel, hpriority⟩
  · -- Neither search stops at the first place.
    obtain ⟨ls, hls⟩ : ∃ ls, m.lchidSorted = 0 :: ls := List.head?_eq_some_iff.mp hchannel
    obtain ⟨ps, hps⟩ : ∃ ps, m.prioritySorted = 0 :: ps := List.head?_eq_some_iff.mp hpriority
    have hold : m.lchidSorted.findIdx (fun l' => l == l') = ls.findIdx (fun l' => l == l') + 1 := by
      rw [hls, List.findIdx_cons, beq_eq_false_iff_ne.mpr (by omega)]
      rfl
    have hnext : m.prioritySorted.findIdx (fun q => !(p > q)) =
        ps.findIdx (fun q => !(p > q)) + 1 := by
      rw [hps, List.findIdx_cons, decide_eq_true (show p > 0 by omega)]
      rfl
    dsimp only
    constructor
    · rw [hold, hnext, hls]
      rfl
    · rw [hold, hnext, hps]
      rfl

/-- Every channel stays in the table, with CCCH in front. Induction on the calls. -/
theorem channelsKept_prioritized {calls : List SetupLcid} (hvalid : ∀ c ∈ calls, ValidSetup c) :
    ChannelsKept (prioritized calls) := by
  induction calls using List.reverseRecOn with
  | nil => exact ⟨List.Perm.refl _, rfl, rfl, rfl⟩
  | append_singleton calls c ih =>
    obtain ⟨hl, hl', hp, hp'⟩ := hvalid c (List.mem_append_right _ (List.mem_singleton.mpr rfl))
    rw [prioritized_concat]
    exact (ih fun c' hc' => hvalid c' (List.mem_append_left _ hc')).setPriority
      ⟨hl, Nat.lt_succ_of_le hl'⟩ ⟨hp, Nat.lt_succ_of_le hp'⟩ _ _

/-- The channels of the two passes are those from 1 to 16, each once. -/
theorem ChannelsKept.passes {m : Mux} (h : ChannelsKept m) :
    m.lchidSorted.tail.Perm (List.range' 1 16) := by
  obtain ⟨ls, hls⟩ : ∃ ls, m.lchidSorted = 0 :: ls := List.head?_eq_some_iff.mp h.channel
  have hperm := h.perm
  rw [hls, (by decide : List.range nofUlLch = 0 :: List.range' 1 16)] at hperm
  rw [hls]
  exact hperm.cons_inv

/-- After any calls of `set_priority` for channels from 1 to 16 with priorities from 1 to 16,
accepted or not, `lchid_sorted` has every channel once and CCCH in the first place, and the next
call finds its channel. In `pdu_get` the first pass goes through the channels from 1 to 16 once and
asks for those with positive `Bj` or infinite `PBR`, and the second pass goes through them once and
asks for all. -/
theorem channels_run (calls : List SetupLcid) (hvalid : ∀ c ∈ calls, ValidSetup c) :
    ((prioritized calls).lchidSorted.Perm (List.range 17) ∧
      (prioritized calls).lchidSorted.head? = some 0) ∧
    (∀ c, ValidSetup c →
      (prioritized calls).lchidSorted.findIdx (fun l => c.lcid == l) < nofUlLch) ∧
    ∀ {ρ : Type} (itf : RlcItf ρ) (req : CeRequests) (bj : List Int) (pendingCrntiCe : Nat)
      (rlc : ρ)
      (pduSz : UInt32) (m : Mux),
      m = { prioritized calls with bj := bj, pendingCrntiCe := pendingCrntiCe } →
      ∃ (out : PduGetOutcome (ρ × List Nat)) (passed : List Nat) (first second : Nat → Nat),
        (∀ fuel, maxNofSubheaders ≤ fuel →
          m.pduGet fuel (recorded itf) req (rlc, []) pduSz.toNat = some out) ∧
        out.assembly.rlc.2 = 0 :: (inRounds first passed ++ inRounds second passed) ∧
        passed.Perm (List.range' 1 16) ∧
        (∀ l ∈ passed, 1 ≤ first l ↔ 0 < m.updateBj.getD l 0 ∨ m.pbr.getD l 0 < 0) ∧
        ∀ l ∈ passed, 1 ≤ second l := by
  have hkept := channelsKept_prioritized hvalid
  refine ⟨⟨hkept.perm, hkept.channel⟩, fun c hc => hkept.search hc.inRange.1, ?_⟩
  intro ρ itf req bj pendingCrntiCe rlc pduSz m hm
  have hsorted : m.lchidSorted = (prioritized calls).lchidSorted := by rw [hm]
  have hlcids : ∀ l ∈ m.lchidSorted, l < lcidPhrReport := fun l hl => by
    rw [hsorted] at hl
    exact Nat.lt_trans (List.mem_range.mp (hkept.perm.mem_iff.mp hl)) (by decide)
  have hpasses : m.lchidSorted.tail.Perm (List.range' 1 16) := by
    rw [hsorted]
    exact hkept.passes
  -- The call returns, and its passes are those over the sorted channels.
  obtain ⟨out, hout⟩ := pduGet_returns (recorded itf) req hlcids (rlc, []) pduSz.toNat_lt
  obtain ⟨first, second, hasked, hfirst, hsecond⟩ := pduGet_rounds
    (hpasses.nodup_iff.mpr List.nodup_range') hout
  refine ⟨out, m.lchidSorted.tail, first, second, fun fuel hfuel => pduGet_mono hfuel hout, hasked,
    hpasses, fun l hl => ?_, hsecond⟩
  have hpos : l ≠ 0 := by
    have := List.mem_range'_1.mp (hpasses.mem_iff.mp hl)
    omega
  rw [hfirst l hl]
  exact and_iff_right hpos

/-- Channel 16 gets the priority 1, and then there is no place for one with the priority 16. -/
def rejectedCalls : List SetupLcid := [⟨16, 0, 1, -1, 10⟩, ⟨2, 0, 16, -1, 10⟩]

/-- The table after a call that finds no place for its channel. -/
theorem channels_run_rejected :
    (prioritized rejectedCalls).lchidSorted.Perm (List.range 17) ∧
      (prioritized rejectedCalls).lchidSorted.head? = some 0 := by
  refine (channels_run rejectedCalls fun c hc => ?_).1
  simp only [rejectedCalls, List.mem_cons, List.not_mem_nil, or_false] at hc
  rcases hc with rfl | rfl <;> simp [ValidSetup]

/-! ### The order of the priorities -/

/-- In each pass `pdu_get` asks for channels with smaller numbers first, whatever the other
tables. -/
def ServesInOrder (m : Mux) (prio : Nat → Nat) : Prop :=
  ∀ {ρ : Type} (itf : RlcItf ρ) (fuel : Nat) (req : CeRequests) (m' : Mux) (rlc : ρ) (pduSz : Nat)
    (out : PduGetOutcome (ρ × List Nat)), m'.lchidSorted = m.lchidSorted →
    m'.pduGet fuel (recorded itf) req (rlc, []) pduSz = some out →
    ∃ first second : List Nat, out.assembly.rlc.2 = 0 :: (first ++ second) ∧
      first.Pairwise (fun x y => prio x ≤ prio y) ∧ second.Pairwise fun x y => prio x ≤ prio y

/-- The tables are in order, with the priorities that were configured last. -/
structure PrioritiesInOrder (m : Mux) (prio : Nat → Nat) : Prop where
  priority : ∀ l < nofUlLch, m.priority.getD l 0 = prio l
  sorted_eq : m.prioritySorted = m.lchidSorted.map fun l => m.priority.getD l 0
  sorted : m.prioritySorted.Pairwise (· ≤ ·)
  serves : ServesInOrder m prio

/-- Rounds keep channels in the order they had. -/
theorem pairwise_inRounds {prio rounds : Nat → Nat} {lcids : List Nat}
    (h : lcids.Pairwise fun x y => prio x ≤ prio y) :
    (inRounds rounds lcids).Pairwise fun x y => prio x ≤ prio y := by
  refine List.pairwise_flatMap.mpr ⟨fun l _ => ?_, h.imp fun hxy a ha b hb => ?_⟩
  · exact List.pairwise_replicate.mpr (Or.inr (Nat.le_refl _))
  · rw [List.eq_of_mem_replicate ha, List.eq_of_mem_replicate hb]
    exact hxy

/-- Where the table is in order, the channels are served in order. -/
theorem TableInOrder.serves {m : Mux} {prio : Nat → Nat} (h : TableInOrder m prio) :
    ServesInOrder m prio := by
  intro ρ itf fuel req m' rlc pduSz out hm' hout
  have hnodup : m'.lchidSorted.Nodup := by
    rw [hm']
    exact h.perm.nodup_iff.mpr List.nodup_range
  have hpair : m'.lchidSorted.tail.Pairwise fun x y => prio x ≤ prio y := by
    have hsorted := h.sorted
    rw [h.sorted_eq] at hsorted
    rw [hm']
    exact (List.pairwise_map.mp hsorted).tail
  obtain ⟨first, second, hasked, -, -⟩ := pduGet_rounds hnodup.tail hout
  exact ⟨_, _, hasked, pairwise_inRounds hpair, pairwise_inRounds hpair⟩

/-- With the priorities that were configured, all tables are in order. -/
theorem TableInOrder.inOrder {m : Mux} {prio : Nat → Nat} (h : TableInOrder m prio)
    (hprio : ∀ l < nofUlLch, m.priority.getD l 0 = prio l) : PrioritiesInOrder m prio where
  priority := hprio
  sorted_eq := by
    rw [h.sorted_eq]
    refine List.map_congr_left fun l hl => ?_
    rw [hprio l (List.mem_range.mp (h.perm.mem_iff.mp hl))]
  sorted := h.sorted
  serves := h.serves

/-- Every call writes the priority of its channel, also one that finds no place in the tables. -/
theorem priority_prioritized {calls : List SetupLcid}
    (hvalid : ∀ c ∈ calls, c.lcid < nofUlLch ∧ c.priority < nofUlLch) :
    (prioritized calls).priority.length = nofUlLch ∧
      ∀ l < nofUlLch, (prioritized calls).priority.getD l 0 = effective calls l := by
  -- Induction on the calls from the last one, which sets one entry.
  induction calls using List.reverseRecOn with
  | nil =>
    refine ⟨rfl, fun l hl => ?_⟩
    show (List.range nofUlLch).getD l 0 = l
    rw [List.getD_eq_getElem?_getD, List.getElem?_range hl, Option.getD_some]
  | append_singleton calls c ih =>
    obtain ⟨hl, hp⟩ := hvalid c (List.mem_append_right _ (List.mem_singleton.mpr rfl))
    obtain ⟨hlen, hprio⟩ := ih fun c' hc' => hvalid c' (List.mem_append_left _ hc')
    have hset : (prioritized (calls ++ [c])).priority
        = (prioritized calls).priority.set c.lcid c.priority := by
      rw [prioritized_concat, Mux.setPriority, if_pos hl, if_pos hp]
      dsimp only
      split <;> rfl
    rw [hset, effective_concat]
    refine ⟨List.length_set.trans hlen, fun l hl' => ?_⟩
    by_cases hlc : c.lcid = l
    · subst hlc
      simp [List.getD_eq_getElem?_getD, hlen, hl]
    · rw [Function.update_of_ne (Ne.symm hlc), ← hprio l hl', List.getD_eq_getElem?_getD,
        List.getD_eq_getElem?_getD, List.getElem?_set_ne hlc]

/-- From a table in order, a call that moves its channel back leaves the table in order only if some
channel has the new priority. -/
theorem TableInOrder.of_inOrder {m : Mux} {prio : Nat → Nat} (h : TableInOrder m prio)
    (hlen : m.priority.length = nofUlLch) {l p : Nat} (hl : l < nofUlLch) (hp : p < nofUlLch)
    {pbr : Int}
    {bsd : Nat} {prio' : Nat → Nat} (hin : PrioritiesInOrder (m.setPriority l p pbr bsd) prio') :
    p ≤ prio l ∨ ∃ c < nofUlLch, prio c = p := by
  by_contra hord
  obtain ⟨hback, hnone⟩ := not_or.mp hord
  have hmem : l ∈ m.lchidSorted := h.perm.mem_iff.mpr (List.mem_range.mpr hl)
  have hlenl : m.lchidSorted.length = nofUlLch := h.perm.length_eq.trans List.length_range
  have hlenp : m.prioritySorted.length = nofUlLch := by rw [h.sorted_eq, List.length_map, hlenl]
  have hold : (m.lchidSorted.findIdx fun l' => l == l') < m.lchidSorted.length :=
    List.findIdx_lt_length.mpr ⟨l, hmem, beq_self_eq_true l⟩
  have hat : m.lchidSorted[m.lchidSorted.findIdx fun l' => l == l'] = l :=
    (eq_of_beq (List.findIdx_getElem (w := hold))).symm
  obtain ⟨-, heq, hsorted, -⟩ := hin
  rw [Mux.setPriority, if_pos hl, if_pos hp] at heq hsorted
  dsimp only at heq hsorted
  generalize m.lchidSorted.findIdx (fun l' => l == l') = old at hold hat heq hsorted
  have hlenOld : old < m.prioritySorted.length := by omega
  have holdPrio : m.prioritySorted[old] = prio l := by
    simp only [h.sorted_eq, List.getElem_map, hat]
  by_cases hfull : m.prioritySorted.findIdx (fun q => !(p > q)) = nofUlLch
  · -- The priority was written, but its channel keeps the entry with the old one.
    rw [if_pos hfull] at heq
    dsimp only at heq
    have hentry : m.prioritySorted[old]? = some p := by
      rw [heq, List.getElem?_map, List.getElem?_eq_getElem hold, hat]
      simp [List.getD_eq_getElem?_getD, hlen, hl]
    rw [List.getElem?_eq_getElem hlenOld, holdPrio] at hentry
    exact hback (Option.some.inj hentry).ge
  · rw [if_neg hfull] at hsorted
    dsimp only at hsorted
    have hnew : m.prioritySorted.findIdx (fun q => !(p > q)) < m.prioritySorted.length := by
      have hle : m.prioritySorted.findIdx (fun q => !(p > q)) ≤ _ := List.findIdx_le_length
      omega
    have hfound : p ≤ m.prioritySorted[m.prioritySorted.findIdx fun q => !(p > q)] :=
      Nat.le_of_not_lt (of_decide_eq_false ((Bool.not_eq_true' _).mp
        (List.findIdx_getElem (w := hnew))))
    have hless : old < m.prioritySorted.findIdx fun q => !(p > q) := by
      by_contra hge
      have hle : m.prioritySorted[m.prioritySorted.findIdx fun q => !(p > q)]
          ≤ m.prioritySorted[old] := by
        rcases Nat.eq_or_lt_of_le (Nat.le_of_not_lt hge) with heq' | hlt
        · simp only [heq', Nat.le_refl]
        · exact List.pairwise_iff_getElem.mp h.sorted _ _ hnew hlenOld hlt
      omega
    generalize m.prioritySorted.findIdx (fun q => !(p > q)) = n at hnew hfound hless hsorted
    have hother : m.prioritySorted[n] ≠ p := by
      intro hp'
      have hlch : n < m.lchidSorted.length := by omega
      refine hnone ⟨m.lchidSorted[n], ?_, ?_⟩
      · exact List.mem_range.mp (h.perm.mem_iff.mp (List.getElem_mem _))
      · simpa only [h.sorted_eq, List.getElem_map] using hp'
    -- The entry in front of the new one is the larger entry where the search stopped.
    have herase : (m.prioritySorted.eraseIdx old).length = nofUlLch - 1 := by
      rw [List.length_eraseIdx_of_lt hlenOld, hlenp]
    have hlen' : ((m.prioritySorted.eraseIdx old).insertIdx n p).length = nofUlLch - 1 + 1 := by
      rw [List.length_insertIdx, herase, if_pos (by omega)]
    have hpair := List.pairwise_iff_getElem.mp hsorted (n - 1) n (by omega) (by omega) (by omega)
    rw [List.getElem_insertIdx_self, List.getElem_insertIdx_of_lt (by omega),
      List.getElem_eraseIdx_of_ge (by omega) (by omega)] at hpair
    simp only [Nat.sub_add_cancel (by omega : 1 ≤ n)] at hpair
    omega

/-- After every call the tables are in order and `pdu_get` serves the channels in the order of their
last configured priorities, exactly when every call moves its channel forward, or gives it a
priority that some channel has. -/
theorem order_iff (calls : List SetupLcid)
    (hvalid : ∀ c ∈ calls, c.lcid < nofUlLch ∧ c.priority < nofUlLch) :
    (∀ before, before <+: calls → PrioritiesInOrder (prioritized before) (effective before)) ↔
      Orderly calls := by
  induction calls using List.reverseRecOn with
  | nil =>
    have hempty : PrioritiesInOrder (prioritized []) (effective []) :=
      TableInOrder.inOrder ⟨List.Perm.refl _, (by decide), (by decide)⟩
        (priority_prioritized hvalid).2
    refine iff_of_true (fun before hbefore => ?_) fun before c after heq => ?_
    · rwa [List.prefix_nil.mp hbefore]
    · simp at heq
  | append_singleton calls c ih =>
    have hvalid' := fun c' hc' => hvalid c' (List.mem_append_left [c] hc')
    obtain ⟨hl, hp⟩ := hvalid c (List.mem_append_right _ (List.mem_singleton.mpr rfl))
    -- The last call is the only one that is new, and the tables are in order before it.
    have hlast : Orderly calls →
        (PrioritiesInOrder (prioritized (calls ++ [c])) (effective (calls ++ [c])) ↔
        (c.priority ≤ effective calls c.lcid ∨
          ∃ l < nofUlLch, effective calls l = c.priority)) := by
      intro hord
      have htable := tableInOrder_setups hvalid' hord
      rw [mux_setups] at htable
      have hprio := (priority_prioritized hvalid).2
      rw [prioritized_concat, effective_concat] at hprio ⊢
      constructor
      · exact htable.of_inOrder (priority_prioritized hvalid').1 hl hp
      · exact fun h => (htable.setPriority hl hp h _ _).inOrder hprio
    rw [orderly_concat, ← ih hvalid']
    constructor
    · intro h
      have hbefore :=
        fun before hb => h before (List.IsPrefix.trans hb (List.prefix_append calls [c]))
      exact ⟨hbefore, (hlast ((ih hvalid').mp hbefore)).mp (h _ (List.prefix_refl _))⟩
    · rintro ⟨hbefore, hcall⟩ before hb
      rcases List.prefix_concat_iff.mp hb with rfl | hb'
      · exact (hlast ((ih hvalid').mp hbefore)).mpr hcall
      · exact hbefore before hb'

/-- Channel 5 gets the priority that channel 3 has, and then moves in front of it. -/
theorem order_iff_orderly :
    PrioritiesInOrder (prioritized [⟨5, 0, 3, -1, 10⟩, ⟨5, 0, 2, -1, 10⟩])
      (effective [⟨5, 0, 3, -1, 10⟩, ⟨5, 0, 2, -1, 10⟩]) := by
  refine (order_iff _ fun c hc => ?_).mpr ?_ _ (List.prefix_refl _)
  · simp only [List.mem_cons, List.not_mem_nil, or_false] at hc
    rcases hc with rfl | rfl <;> decide
  · refine (orderly_concat [_] _).mpr ⟨(orderly_concat [] _).mpr ⟨?_, Or.inl (by decide)⟩,
      Or.inl (by decide)⟩
    intro before c after heq
    simp at heq

/-- With channel 4 at priority 9 no channel has the priority 4. Channel 1 gets it, and stands behind
channel 5 with the priority 5. -/
theorem not_inOrder_gap : ¬PrioritiesInOrder (prioritized [⟨4, 0, 9, -1, 10⟩, ⟨1, 0, 4, -1, 10⟩])
    (effective [⟨4, 0, 9, -1, 10⟩, ⟨1, 0, 4, -1, 10⟩]) := fun h => absurd h.sorted (by decide)

end SrsUE.Proofs.Mac
