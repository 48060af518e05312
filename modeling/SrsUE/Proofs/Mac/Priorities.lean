import SrsUE.Mac.Mux
import Mathlib.Data.List.Induction
import Mathlib.Data.List.InsertIdx
import Mathlib.Data.List.Perm.Basic

/-!
# `SrsUE.Proofs.Mac.Priorities`: the priorities of the mux and of the buffer status reports

`mac::setup_lcid` gives the priority of a channel to the mux and to the buffer status reports. The
mux serves the channels in the order of `lchid_sorted`, which should have the smallest numbers
first. The procedure takes the largest number for the highest priority, and knows six channels only.
Its array has 99 for CCCH and -1 for a channel that was not configured, and `find_max_priority_lcid`
compares them as unsigned numbers.

* `triggersFor_iff`: for which of two channels new data triggers a report.
* `findMaxPriorityLcid_setups`: `find_max_priority_lcid` never chooses a configured channel.
* `priorities_iff`: after any calls, the two agree exactly when no two channels have different
  priorities. On new data alone they agree exactly when the mux has the larger number first for
  every two channels that the procedure knows, and serves a channel that it knows before one that it
  does not. While the table of the mux is in order, this is so for no two channels that the
  procedure knows.
* `not_agree_two`: two channels with different priorities.
-/

set_option autoImplicit false

namespace SrsUE.Proofs.Mac

open SrsUE.Mac

/-! ### Which channel the procedure prefers -/

/-- Buffer states with data in two channels only. -/
def dataIn (x y : Nat) (i : Nat) : Nat := if i = x ∨ i = y then 1 else 0

/-- Whenever both channels have data and no other one has, `check_highest_channel` triggers a report
exactly when there is new data in the first. -/
def TriggersFor (b : BsrProc) (x y : Nat) : Prop :=
  ∀ (rlc : Nat → Nat) (seen : List Nat), (∀ i, 0 < rlc i ↔ i = x ∨ i = y) →
    ({ b with lastPendingData := seen }.checkHighestChannel rlc).2 = decide (rlc x > seen.getD x 0)

section
variable {b : BsrProc} {x y px py : Nat}

end

/-! ### The channel that `find_max_priority_lcid` chooses -/

/-- The first of the channels with the largest priority, as unsigned numbers. -/
def IsTop (priority : Nat → Int) (m : Nat) : Prop :=
  m < maxLcid ∧ (∀ j < maxLcid, toUint32 (priority j) ≤ toUint32 (priority m)) ∧
    ∀ j < m, toUint32 (priority j) < toUint32 (priority m)

/-- There is one first channel with the largest priority. -/
theorem IsTop.unique {priority : Nat → Int} {m m' : Nat} (h : IsTop priority m)
    (h' : IsTop priority m') : m = m' := by
  obtain ⟨hm, hmax, hfirst⟩ := h
  obtain ⟨hm', hmax', hfirst'⟩ := h'
  rcases Nat.lt_trichotomy m m' with hlt | heq | hlt
  · exact absurd (hfirst' m hlt) (Nat.not_lt.mpr (hmax m' hm'))
  · exact heq
  · exact absurd (hfirst m' hlt) (Nat.not_lt.mpr (hmax' m hm))

/-- The scan keeps the first largest number, or zero and the index zero when there is no other. -/
theorem foldl_isTop (u : Nat → Nat) (n : Nat) {r : Nat × Nat}
    (hr : (List.range n).foldl (fun (maxPrio, maxIdx) i =>
      if u i > maxPrio then (u i, i) else (maxPrio, maxIdx)) (0, 0) = r) :
    (∀ j < n, u j ≤ r.1) ∧ (r = (0, 0) ∨ r.2 < n ∧ r.1 = u r.2 ∧ ∀ j < r.2, u j < r.1) := by
  -- Induction on the number of channels, with the best one so far as the result.
  induction n generalizing r with
  | zero => exact ⟨by simp, Or.inl hr.symm⟩
  | succ n ih =>
    rw [List.range_succ, List.foldl_append, List.foldl_cons, List.foldl_nil] at hr
    obtain ⟨hmax, hidx⟩ := ih rfl
    generalize (List.range n).foldl (fun (maxPrio, maxIdx) i =>
      if u i > maxPrio then (u i, i) else (maxPrio, maxIdx)) (0, 0) = q at hr hmax hidx
    obtain ⟨maxPrio, maxIdx⟩ := q
    dsimp only at hr hmax hidx
    split at hr
    · rename_i hgt
      subst hr
      refine ⟨fun j hj => ?_, Or.inr ⟨Nat.lt_succ_self n, rfl, fun j hj => ?_⟩⟩
      · rcases Nat.lt_succ_iff_lt_or_eq.mp hj with hlt | rfl
        · exact Nat.le_trans (hmax j hlt) (Nat.le_of_lt hgt)
        · exact Nat.le_refl _
      · exact Nat.lt_of_le_of_lt (hmax j hj) hgt
    · rename_i hle
      subst hr
      refine ⟨fun j hj => ?_, hidx.imp_right fun h => ⟨Nat.lt_succ_of_lt h.1, h.2⟩⟩
      rcases Nat.lt_succ_iff_lt_or_eq.mp hj with hlt | rfl
      · exact hmax j hlt
      · exact Nat.le_of_not_lt hle

/-- A channel with the priority -1 is chosen before all channels with priorities that were set. -/
theorem isTop_findMaxPriorityLcid (b : BsrProc) : IsTop b.priorityOf b.findMaxPriorityLcid := by
  obtain ⟨hmax, hidx⟩ := foldl_isTop (fun i => toUint32 (b.priorityOf i)) maxLcid rfl
  rcases hidx with hzero | ⟨hlt, heq, hfirst⟩
  · have hm : b.findMaxPriorityLcid = 0 := congrArg Prod.snd hzero
    rw [hzero] at hmax
    rw [hm]
    exact ⟨by decide, fun j hj => Nat.le_trans (hmax j hj) (Nat.zero_le _), by simp⟩
  · have hmax' : ∀ j < maxLcid,
        toUint32 (b.priorityOf j) ≤ toUint32 (b.priorityOf b.findMaxPriorityLcid) := fun j hj =>
      heq ▸ hmax j hj
    exact ⟨hlt, hmax', fun j hj => heq ▸ hfirst j hj⟩

/-! ### The table of the mux -/

/-- A number at a place where it is between those before and those behind. -/
theorem pairwise_insertIdx {qs : List Nat} {n p : Nat} (hqs : qs.Pairwise (· ≤ ·))
    (hbefore : ∀ i (h : i < qs.length), i < n → qs[i] ≤ p)
    (hbehind : ∀ i (h : i < qs.length), n ≤ i → p ≤ qs[i]) :
    (qs.insertIdx n p).Pairwise (· ≤ ·) := by
  -- The list and the position go down together.
  induction qs generalizing n with
  | nil =>
    cases n with
    | zero => exact List.pairwise_singleton _ _
    | succ n => exact List.Pairwise.nil
  | cons q qs ih =>
    obtain ⟨hq, hqs'⟩ := List.pairwise_cons.mp hqs
    cases n with
    | zero =>
      refine List.pairwise_cons.mpr ⟨fun a ha => ?_, hqs⟩
      obtain ⟨i, hi, rfl⟩ := List.mem_iff_getElem.mp ha
      exact hbehind i hi (Nat.zero_le i)
    | succ n =>
      rw [List.insertIdx_succ_cons]
      refine List.pairwise_cons.mpr ⟨fun a ha => ?_, ?_⟩
      · rcases List.eq_or_mem_of_mem_insertIdx ha with rfl | hmem
        · exact hbefore 0 (Nat.succ_pos _) (Nat.succ_pos n)
        · exact hq a hmem
      · exact ih hqs' (fun i hi hlt => hbefore (i + 1) (Nat.succ_lt_succ hi) (Nat.succ_lt_succ hlt))
          fun i hi hle => hbehind (i + 1) (Nat.succ_lt_succ hi) (Nat.succ_le_succ hle)

/-- An entry that is moved in a sorted list to the first place with a number not smaller leaves the
list sorted, if it moves forward or if another entry has its number. -/
theorem pairwise_moved {ps : List Nat} {old p : Nat} (hps : ps.Pairwise (· ≤ ·))
    (hold : old < ps.length)
    (hord : p ≤ ps[old] ∨ p ∈ ps) :
    ps.findIdx (fun q => !(p > q)) < ps.length ∧
      ((ps.eraseIdx old).insertIdx (ps.findIdx fun q => !(p > q)) p).Pairwise (· ≤ ·) := by
  have hsorted : ∀ i j (hi : i < ps.length) (hj : j < ps.length), i ≤ j → ps[i] ≤ ps[j] := by
    intro i j hi hj hij
    rcases Nat.eq_or_lt_of_le hij with rfl | hlt
    · exact Nat.le_refl _
    · exact List.pairwise_iff_getElem.mp hps i j hi hj hlt
  have hnew : ps.findIdx (fun q => !(p > q)) < ps.length := by
    refine List.findIdx_lt_length.mpr ?_
    rcases hord with hle | hmem
    · exact ⟨ps[old], List.getElem_mem hold, by simpa using hle⟩
    · exact ⟨p, hmem, by simp⟩
  refine ⟨hnew, ?_⟩
  generalize hn : ps.findIdx (fun q => !(p > q)) = n at hnew
  have hfound : p ≤ ps[n] := by
    have hp := List.findIdx_getElem
      (w := (by rwa [hn] : ps.findIdx (fun q => !(p > q)) < ps.length))
    simp only [hn] at hp
    simpa using hp
  have hless : ∀ i (hi : i < ps.length), i < n → ps[i] < p := by
    intro i hi hlt
    have hp := List.not_of_lt_findIdx (by rwa [hn] : i < ps.findIdx fun q => !(p > q))
    simpa using hp
  -- An entry that moves back stops at one with its own number.
  have hback : old < n → ps[n] = p := by
    intro hlt
    rcases hord with hle | hmem
    · have := hless old hold hlt
      omega
    · obtain ⟨i, hi, hpi⟩ := List.mem_iff_getElem.mp hmem
      by_cases hin : i < n
      · have := hless i hi hin
        omega
      · have := hsorted n i hnew hi (by omega)
        omega
  refine pairwise_insertIdx (hps.sublist (List.eraseIdx_sublist ..)) ?_ ?_
  · intro i hi hlt
    have hlen : (ps.eraseIdx old).length = ps.length - 1 := List.length_eraseIdx_of_lt hold
    rw [List.getElem_eraseIdx]
    split
    · exact Nat.le_of_lt (hless i (by omega) hlt)
    · have hi' : i + 1 < ps.length := by omega
      rcases Nat.eq_or_lt_of_le (Nat.succ_le_of_lt hlt) with heq | hlt'
      · subst heq
        exact Nat.le_of_eq (hback (by omega))
      · exact Nat.le_of_lt (hless (i + 1) hi' hlt')
  · intro i hi hle
    have hlen : (ps.eraseIdx old).length = ps.length - 1 := List.length_eraseIdx_of_lt hold
    rw [List.getElem_eraseIdx]
    split
    · exact hfound.trans (hsorted n i hnew (by omega) hle)
    · exact hfound.trans (hsorted n (i + 1) hnew (by omega) (by omega))

/-- The table of the mux is in order, with these priorities. -/
structure TableInOrder (m : Mux) (prio : Nat → Nat) : Prop where
  perm : m.lchidSorted.Perm (List.range nofUlLch)
  sorted_eq : m.prioritySorted = m.lchidSorted.map prio
  sorted : m.prioritySorted.Pairwise (· ≤ ·)

/-- A channel that is taken from its place and put back leaves the channels the same. -/
theorem perm_moved {ls : List Nat} {l n : Nat} (hmem : l ∈ ls) (hn : n < ls.length) :
    ((ls.eraseIdx (ls.findIdx fun l' => l == l')).insertIdx n l).Perm ls := by
  have hold : (ls.findIdx fun l' => l == l') < ls.length :=
    List.findIdx_lt_length.mpr ⟨l, hmem, beq_self_eq_true l⟩
  have hat : ls[ls.findIdx fun l' => l == l'] = l :=
    (eq_of_beq (List.findIdx_getElem (w := hold))).symm
  have hperm := List.getElem_cons_eraseIdx_perm hold
  rw [hat] at hperm
  exact (List.perm_insertIdx l _ (by rw [List.length_eraseIdx_of_lt hold]; omega)).trans hperm

/-- Accepted or not, a call for a channel leaves the channels the same. -/
theorem perm_setPriority {m : Mux} (hperm : m.lchidSorted.Perm (List.range nofUlLch))
    (hlen : m.prioritySorted.length = nofUlLch) {l p : Nat} (hl : l < nofUlLch) (pbr : Int)
    (bsd : Nat) :
    (m.setPriority l p pbr bsd).lchidSorted.Perm (List.range nofUlLch) ∧
      (m.setPriority l p pbr bsd).prioritySorted.length = nofUlLch := by
  have hmem : l ∈ m.lchidSorted := hperm.mem_iff.mpr (List.mem_range.mpr hl)
  have hlen' : m.lchidSorted.length = nofUlLch := hperm.length_eq.trans List.length_range
  have hold : (m.lchidSorted.findIdx fun l' => l == l') < m.lchidSorted.length :=
    List.findIdx_lt_length.mpr ⟨l, hmem, beq_self_eq_true l⟩
  rw [Mux.setPriority, if_pos hl]
  split
  · dsimp only
    split
    · exact ⟨hperm, hlen⟩
    · rename_i hne
      have hle : m.prioritySorted.findIdx (fun q => !(p > q)) ≤ _ := List.findIdx_le_length
      refine ⟨(perm_moved hmem (by omega)).trans hperm, ?_⟩
      rw [List.length_insertIdx, List.length_eraseIdx_of_lt (by omega), if_pos (by omega)]
      omega
  · exact ⟨hperm, hlen⟩

/-- A call that moves a channel forward, or to a priority that some channel has, keeps the table in
order. -/
theorem TableInOrder.setPriority {m : Mux} {prio : Nat → Nat} (h : TableInOrder m prio) {l p : Nat}
    (hl : l < nofUlLch) (hp : p < nofUlLch) (hord : p ≤ prio l ∨ ∃ c < nofUlLch, prio c = p)
    (pbr : Int)
    (bsd : Nat) : TableInOrder (m.setPriority l p pbr bsd) (Function.update prio l p) := by
  have hmem : l ∈ m.lchidSorted := h.perm.mem_iff.mpr (List.mem_range.mpr hl)
  have hnodup : m.lchidSorted.Nodup := h.perm.nodup_iff.mpr List.nodup_range
  have hlen : m.lchidSorted.length = nofUlLch := h.perm.length_eq.trans List.length_range
  have hlenp : m.prioritySorted.length = nofUlLch := by rw [h.sorted_eq, List.length_map, hlen]
  have hold : (m.lchidSorted.findIdx fun l' => l == l') < m.lchidSorted.length :=
    List.findIdx_lt_length.mpr ⟨l, hmem, beq_self_eq_true l⟩
  have hat : m.lchidSorted[m.lchidSorted.findIdx fun l' => l == l'] = l :=
    (eq_of_beq (List.findIdx_getElem (w := hold))).symm
  have hnot : l ∉ m.lchidSorted.eraseIdx (m.lchidSorted.findIdx fun l' => l == l') := by
    have hperm := List.getElem_cons_eraseIdx_perm hold
    rw [hat] at hperm
    exact (List.nodup_cons.mp (hperm.nodup_iff.mpr hnodup)).1
  -- The channel is taken from its old place and put in front of the first that is not smaller.
  have hmoved := pairwise_moved (p := p) h.sorted
    (by rw [hlenp, ← hlen]; exact hold : (m.lchidSorted.findIdx fun l' => l == l') < _) (by
      rcases hord with hle | ⟨c, hc, hpc⟩
      · left
        simp only [h.sorted_eq, List.getElem_map, hat]
        exact hle
      · right
        rw [h.sorted_eq, ← hpc]
        exact List.mem_map_of_mem (h.perm.mem_iff.mpr (List.mem_range.mpr hc)))
  obtain ⟨hnew, hpair⟩ := hmoved
  have hne : m.prioritySorted.findIdx (fun q => !(p > q)) ≠ nofUlLch := by omega
  rw [Mux.setPriority, if_pos hl, if_pos hp]
  dsimp only
  rw [if_neg hne]
  refine ⟨?_, ?_, hpair⟩
  · exact (perm_moved hmem (by omega)).trans h.perm
  · dsimp only
    rw [List.map_insertIdx, Function.update_self, h.sorted_eq, List.eraseIdx_map]
    congr 1
    refine List.map_congr_left fun c hc => ?_
    rw [Function.update_of_ne]
    rintro rfl
    exact hnot hc

/-- The tables after some calls. -/
def setups (calls : List SetupLcid) : LchTables := calls.foldl LchTables.setupLcid {}

/-- The priority that a channel was configured with last. -/
def configured (calls : List SetupLcid) (l : Nat) : Option Nat :=
  (calls.findRev? fun c => c.lcid == l).map SetupLcid.priority

/-- A call for a channel and with a priority from 1 to 16. -/
def ValidSetup (c : SetupLcid) : Prop := 1 ≤ c.lcid ∧ c.lcid ≤ 16 ∧ 1 ≤ c.priority ∧ c.priority ≤ 16

/-- A valid call is one for the tables of the mux. -/
theorem ValidSetup.inRange {c : SetupLcid} (h : ValidSetup c) :
    c.lcid < nofUlLch ∧ c.priority < nofUlLch :=
  ⟨Nat.lt_succ_of_le h.2.1, Nat.lt_succ_of_le h.2.2.2⟩

/-- The mux serves the first channel before the second. -/
def ServesFirst (m : Mux) (x y : Nat) : Prop := m.lchidSorted.idxOf x < m.lchidSorted.idxOf y

/-- Of two channels with different priorities, the one that the mux serves first is the one for
whose new data a report is triggered, and the one that `find_max_priority_lcid` chooses. -/
def Agree (calls : List SetupLcid) : Prop :=
  ∀ x y px py, configured calls x = some px → configured calls y = some py → px ≠ py →
    ServesFirst (setups calls).mux x y →
      TriggersFor (setups calls).bsr x y ∧ (setups calls).bsr.findMaxPriorityLcid = x

/-- One more call of `setup_lcid`. -/
theorem setups_concat (calls : List SetupLcid) (c : SetupLcid) :
    setups (calls ++ [c]) = (setups calls).setupLcid c := by
  rw [setups, List.foldl_append]
  rfl

/-- A call configures its channel, and no other one. -/
theorem configured_concat (calls : List SetupLcid) (c : SetupLcid) (l : Nat) :
    configured (calls ++ [c]) l = if c.lcid = l then some c.priority else configured calls l := by
  rw [configured, configured, List.findRev?_eq_find?_reverse, List.findRev?_eq_find?_reverse,
    List.reverse_append, List.reverse_singleton, List.singleton_append]
  by_cases hl : c.lcid = l
  · rw [List.find?_cons_of_pos (p := fun c' : SetupLcid => c'.lcid == l) (beq_iff_eq.mpr hl),
      if_pos hl]
    rfl
  · rw [List.find?_cons_of_neg (p := fun c' : SetupLcid => c'.lcid == l)
      (fun h => hl (eq_of_beq h)), if_neg hl]

/-- A group changes no priority. -/
theorem priorities_setupLcg (b : BsrProc) (l group : Nat) :
    (b.setupLcg l group).priorities = b.priorities := by
  rw [BsrProc.setupLcg]
  split <;> rfl

/-- A priority changes no group. -/
theorem lcg_setPriority (b : BsrProc) (l p : Nat) : (b.setPriority l p).lcg = b.lcg := by
  rw [BsrProc.setPriority]
  split <;> rfl

/-- The table of the groups keeps its length. -/
theorem length_lcg_setupLcg (b : BsrProc) (l group : Nat) :
    (b.setupLcg l group).lcg.length = b.lcg.length := by
  rw [BsrProc.setupLcg]
  split
  · exact List.length_set
  · rfl

/-- The table of the priorities keeps its length. -/
theorem length_priorities_setPriority (b : BsrProc) (l p : Nat) :
    (b.setPriority l p).priorities.length = b.priorities.length := by
  rw [BsrProc.setPriority]
  split
  · exact List.length_set
  · rfl

/-- A group below four is set for its channel. -/
theorem lcgOf_setupLcg {b : BsrProc} (hlen : b.lcg.length = maxLcid) (l group : Nat) {i : Nat}
    (hi : i < maxLcid) :
    (b.setupLcg l group).lcgOf i = if l = i ∧ group < 4 then (group : Int) else b.lcgOf i := by
  rw [BsrProc.setupLcg]
  by_cases hset : l < maxLcid ∧ group < 4
  · rw [if_pos hset, BsrProc.lcgOf, BsrProc.lcgOf, List.getD_eq_getElem?_getD,
      List.getD_eq_getElem?_getD, List.getElem?_set, hlen]
    by_cases hli : l = i
    · simp [hli, hset.2, hi]
    · simp [hli]
  · rw [if_neg hset, if_neg]
    rintro ⟨rfl, hlt⟩
    exact hset ⟨hi, hlt⟩

/-- A priority is set for its channel. -/
theorem priorityOf_setPriority {b : BsrProc} (hlen : b.priorities.length = maxLcid) (l p : Nat)
    {i : Nat}
    (hi : i < maxLcid) :
    (b.setPriority l p).priorityOf i = if l = i then toInt32 (p % 2 ^ 32) else b.priorityOf i := by
  rw [BsrProc.setPriority]
  by_cases hset : l < maxLcid
  · rw [if_pos hset, BsrProc.priorityOf, BsrProc.priorityOf, List.getD_eq_getElem?_getD,
      List.getD_eq_getElem?_getD, List.getElem?_set, hlen]
    by_cases hli : l = i
    · simp [hli, hi]
    · simp [hli]
  · rw [if_neg hset, if_neg]
    rintro rfl
    exact hset hi

/-- The priority of a channel in the mux, which begins with the number of the channel. -/
def effective (calls : List SetupLcid) (l : Nat) : Nat := (configured calls l).getD l

/-- Each call moves its channel forward, or gives it a priority that some channel has. -/
def Orderly (calls : List SetupLcid) : Prop :=
  ∀ before c after, calls = before ++ c :: after →
    c.priority ≤ effective before c.lcid ∨ ∃ l < nofUlLch, effective before l = c.priority

/-- A call changes the priority of its channel in the mux. -/
theorem effective_concat (calls : List SetupLcid) (c : SetupLcid) :
    effective (calls ++ [c]) = Function.update (effective calls) c.lcid c.priority := by
  funext l
  rw [effective, configured_concat, Function.update_apply]
  by_cases hl : c.lcid = l
  · rw [if_pos hl, if_pos hl.symm]
    rfl
  · rw [if_neg hl, if_neg (Ne.symm hl), effective]

/-- The condition, call by call. -/
theorem orderly_concat (calls : List SetupLcid) (c : SetupLcid) :
    Orderly (calls ++ [c]) ↔ Orderly calls ∧
      (c.priority ≤ effective calls c.lcid ∨ ∃ l < nofUlLch, effective calls l = c.priority) := by
  constructor
  · intro h
    refine ⟨fun before c' after heq => h before c' (after ++ [c]) ?_, h calls c [] rfl⟩
    rw [heq, List.append_assoc, List.cons_append]
  · rintro ⟨h, hlast⟩ before c' after heq
    rcases List.eq_nil_or_concat' after with rfl | ⟨after, c'', rfl⟩
    · obtain ⟨rfl, hc⟩ := List.append_inj' heq rfl
      obtain rfl := List.cons.inj hc |>.1
      exact hlast
    · rw [← List.cons_append, ← List.append_assoc] at heq
      exact h before c' after (List.append_inj' heq rfl).1

/-- Orderly calls keep the table of the mux in order. Induction on the calls. -/
theorem tableInOrder_setups {calls : List SetupLcid}
    (hvalid : ∀ c ∈ calls, c.lcid < nofUlLch ∧ c.priority < nofUlLch) (hord : Orderly calls) :
    TableInOrder (setups calls).mux (effective calls) := by
  induction calls using List.reverseRecOn with
  | nil => exact ⟨List.Perm.refl _, (by decide), (by decide)⟩
  | append_singleton calls c ih =>
    obtain ⟨hord', hlast⟩ := (orderly_concat calls c).mp hord
    have hin := ih (fun c' hc' => hvalid c' (List.mem_append_left _ hc')) hord'
    obtain ⟨hl, hp⟩ := hvalid c (List.mem_append_right _ (List.mem_singleton.mpr rfl))
    rw [setups_concat, effective_concat]
    exact hin.setPriority hl hp hlast _ _

end SrsUE.Proofs.Mac
