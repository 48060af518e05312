import SrsUE.Lib.Run
import SrsUE.Proofs.Rlc.UmRoom

/-!
# `SrsUE.Proofs.Rlc.UmReassembly`: which SDUs `rlc_um` delivers under loss

A sender numbers its UMD PDUs `0, 1, 2, …`, and a receiver gets some of them, in any order and
any number of times, while its reordering timer may expire. Whatever is lost, the SDUs at PDCP
ought to be SDUs of the sender, in order.

Three things tell the code that PDUs are missing in front of a PDU `q`: `pdu_lost`, which an
expiry of the timer sets and the next SDU end clears; an emptied `rx_sdu`; and
`vr_ur_in_rx_sdu`, which is looked at only for a segment that has a length indicator. No one of
them covers every gap. `UmdStream.Safe` says when they do for `q`, from how the sender has cut
its SDUs into PDUs and from what `vr_ur` has passed before `q`.

What is held in `rx_sdu` when PDUs are missing need not be the start of one SDU, and nothing looks
for the end of the buffer. `UmdStream.FitsAll` says when the copies stay in it.

* `umReassembly_run`: if every PDU that is reassembled behind a gap is safe, and every piece fits
  behind what is held, every SDU that is delivered is one of the sender's, in order, and no copy
  runs over the end of its buffer.
* `umReassembly_run_fragment`: without this a fragment is delivered.
-/

set_option autoImplicit false

namespace SrsUE.Proofs.Rlc

open SrsUE.Lib
open SrsUE.Rlc (Bytes FiField Timer UmdSnSize UmdPduHeader InRoom msgRoom inRoom_nil
  inRoom_append inRoom_cons)
open SrsUE.Rlc.Um

/-! ### The sender -/

/-- A sender's UMD PDUs: the header and the data of the PDU with each index. -/
structure UmdStream where
  snSize : UmdSnSize
  header : Nat → UmdPduHeader
  data : Nat → Bytes
  sn : ∀ i, (header i).sn = i % (2 * umWidth snSize)
  li : ∀ i, (header i).li.sum ≤ (data i).length

namespace UmdStream

variable (S : UmdStream)

/-- The PDU with index `i`, as it waits in `rx_window`. -/
def pdu (i : Nat) : UmdPdu := { header := S.header i, buf := S.data i }

/-- The reassembly of the first `n` PDUs: the complete SDUs, and the unfinished one. -/
def reassembly (n : Nat) : List Bytes × Bytes :=
  deframe [] ((List.range n).flatMap fun i => umTokens (S.pdu i))

/-- The PDUs are made by segmenting and concatenating these SDUs. A PDU is start aligned when
no SDU is unfinished in front of it. -/
structure Segments (sdus : Nat → Bytes) : Prop where
  start : ∀ i, startAligned (S.header i).fi = true ↔ (S.reassembly i).2 = []
  complete : ∀ n, (S.reassembly n).1 = (List.range (S.reassembly n).1.length).map sdus
  unfinished : ∀ n, (S.reassembly n).2 <+: sdus (S.reassembly n).1.length

/-- An SDU ends in the PDU. -/
def ends (i : Nat) : Bool := !(S.header i).li.isEmpty || endAligned (S.header i).fi

/-- One more PDU of the stream. -/
theorem reassembly_succ (n : Nat) :
    S.reassembly (n + 1)
      = ((S.reassembly n).1 ++ (deframe (S.reassembly n).2 (umTokens (S.pdu n))).1,
          (deframe (S.reassembly n).2 (umTokens (S.pdu n))).2) := by
  unfold reassembly
  rw [List.range_succ, List.flatMap_append, deframe_append]
  simp

/-- A PDU closes no SDU when none ends in it. -/
theorem closed_eq_nil_iff (i : Nat) (cur : Bytes) :
    (deframe cur (umTokens (S.pdu i))).1 = [] ↔ S.ends i = false := by
  have hnil : (deframe cur (frame (S.header i).li (S.data i))).1 = [] ↔ (S.header i).li = [] := by
    rw [← List.length_eq_zero_iff, length_deframe_frame, List.length_eq_zero_iff]
  unfold umTokens pdu ends
  rw [deframe_append]
  cases hend : endAligned (S.header i).fi
  · simp [hnil]
  · simp [deframe]

/-- A PDU that ends with an SDU leaves nothing open. -/
theorem open_eq_nil_of_endAligned {i : Nat} (hend : endAligned (S.header i).fi = true)
    (cur : Bytes) : (deframe cur (umTokens (S.pdu i))).2 = [] := by
  unfold umTokens pdu
  rw [deframe_append, if_pos hend]
  rfl

end UmdStream

/-! ### What `vr_ur` has passed -/

/-- What the PDUs that `vr_ur` has passed leave behind: the last one that was received, whether
the timer has expired and no SDU has ended since (`flagged`), and whether `rx_sdu` holds the
start of an SDU (`held`). -/
structure UmTrack where
  last : Option Nat := none
  flagged : Bool := false
  held : Bool := false
deriving DecidableEq, Repr

/-- The index behind the last PDU that was received. -/
def UmTrack.next (t : UmTrack) : Nat :=
  match t.last with
  | some p => p + 1
  | none => 0

/-- `vr_ur` passes the index `j`. The gap at a missing PDU empties `rx_sdu` if `reset` says
so. -/
def UmTrack.pass (S : UmdStream) (reset : Bool) (received : Nat → Bool) (t : UmTrack) (j : Nat) :
    UmTrack :=
  if received j then
    { last := some j, flagged := t.flagged && !S.ends j, held := !endAligned (S.header j).fi }
  else if reset then { t with held := false }
  else t

/-- The PDU `q` may be reassembled. It follows the last one that was, or there is a gap in front
of it and the code has noticed:
* `q` has a length indicator, and so `vr_ur_in_rx_sdu` is looked at. On a fresh entity that has
  lost PDU 0 it reads as if PDU 0 was there, and then `q = 1` must be noticed otherwise.
* `q` starts with a new SDU, and `rx_sdu` is empty.
* `q` goes on with an SDU, and `pdu_lost` is still set. -/
def UmdStream.Safe (S : UmdStream) (t : UmTrack) (q : Nat) : Prop :=
  t.next = q ∨
    if (S.header q).li = [] then
      if startAligned (S.header q).fi then t.held = false else t.flagged = true
    else t.last.isSome = true ∨ q ≠ 1 ∨ startAligned (S.header q).fi = true ∨ t.flagged = true

instance (S : UmdStream) (t : UmTrack) (q : Nat) : Decidable (S.Safe t q) := by
  unfold UmdStream.Safe
  infer_instance

/-- What is left behind after `n` indices from `c` on. -/
def UmTrack.passAll (S : UmdStream) (reset : Bool) (received : Nat → Bool) :
    Nat → Nat → UmTrack → UmTrack
  | 0, _, t => t
  | n + 1, c, t => passAll S reset received n (c + 1) (t.pass S reset received c)

/-- Each of these indices may be reassembled when `vr_ur` gets there. -/
def UmdStream.SafeAll (S : UmdStream) (reset : Bool) (received : Nat → Bool) :
    Nat → Nat → UmTrack → Prop
  | 0, _, _ => True
  | n + 1, c, t => (received c = true → S.Safe t c) ∧
      SafeAll S reset received n (c + 1) (t.pass S reset received c)

instance (S : UmdStream) (reset : Bool) (received : Nat → Bool) :
    ∀ n c t, Decidable (S.SafeAll reset received n c t)
  | 0, _, _ => inferInstanceAs (Decidable True)
  | n + 1, c, t =>
    have := instDecidableSafeAll S reset received n (c + 1) (t.pass S reset received c)
    inferInstanceAs (Decidable (_ ∧ _))

/-- The number of bytes in `rx_sdu` when the PDU `c` has been reassembled behind `held` bytes. -/
def UmdStream.heldAfter (S : UmdStream) (c held : Nat) : Nat :=
  if endAligned (S.header c).fi then 0
  else if (S.header c).li = [] then held + (S.data c).length
  else (S.data c).length - (S.header c).li.sum

/-- When `vr_ur` passes these indices with `held` bytes in `rx_sdu`, the first piece of each PDU
fits behind what is held. The other pieces start in an empty buffer. -/
def UmdStream.FitsAll (S : UmdStream) (reset : Bool) (received : Nat → Bool) :
    Nat → Nat → Nat → Prop
  | 0, _, _ => True
  | n + 1, c, held =>
    if received c then
      held + (S.header c).li.headD (S.data c).length ≤ msgRoom ∧
        FitsAll S reset received n (c + 1) (S.heldAfter c held)
    else FitsAll S reset received n (c + 1) (if reset then 0 else held)

instance (S : UmdStream) (reset : Bool) (received : Nat → Bool) :
    ∀ n c held, Decidable (S.FitsAll reset received n c held)
  | 0, _, _ => inferInstanceAs (Decidable True)
  | n + 1, c, held =>
    have := instDecidableFitsAll S reset received n (c + 1) (S.heldAfter c held)
    have := instDecidableFitsAll S reset received n (c + 1) (if reset then 0 else held)
    inferInstanceAs (Decidable (if received c then _ ∧ _ else _))

/-! ### One PDU -/

/-- What waits in `rx_window` is what the sender has sent, and was copied there. -/
def UmdStream.Holds (S : UmdStream) (i : Nat) (pdu : UmdPdu) : Prop :=
  pdu = S.pdu i ∧ (S.data i).length ≤ msgRoom

/-- `rx_sdu` holds the unfinished SDU in front of the PDU `c`, or `pdu_lost` is set and will
drop that SDU when it ends. -/
def UmSynced (S : UmdStream) (st : RlcUmRx) (c : Nat) : Prop :=
  st.rxSdu = (S.reassembly c).2 ∨ st.pduLost = true ∧ (S.reassembly c).2 ≠ []

section
variable {S : UmdStream} {sdus : Nat → Bytes} {st : RlcUmRx} {c : Nat}

/-- The PDU `c` is reassembled in a state that fits it, or the code notices the gap by its length
indicator: what is delivered are SDUs that end in it. -/
theorem umSynced_reassemblePdu (hS : S.Segments sdus) (hpdcp : st.pdcp.Sublist (S.reassembly c).1)
    (hready : UmSynced S st c ∨ (S.header c).li ≠ [] ∧ ¬UmFollows st) :
    (reassemblePdu st (S.pdu c)).pdcp.Sublist (S.reassembly (c + 1)).1 ∧
      UmSynced S (reassemblePdu st (S.pdu c)) (c + 1) := by
  obtain ⟨out, heq, hkeep, hlose⟩ := umReassemblePdu_spec st (S.pdu c)
  obtain ⟨htail, hnil, hopen⟩ := deframe_cur st.rxSdu (S.reassembly c).2 (umTokens (S.pdu c))
  rw [heq, S.reassembly_succ]
  unfold UmSynced
  simp only [S.reassembly_succ]
  rcases hready with (hgood | ⟨hlost, hne⟩) | ⟨hli, hf⟩
  · -- The unfinished SDU is there.
    rw [hgood] at hkeep hlose ⊢
    refine ⟨hpdcp.append ?_, .inl rfl⟩
    by_cases hk : UmKeepsFirst st (S.pdu c)
    · simp only [hkeep hk, List.Sublist.refl]
    · exact (hlose hk).trans (List.tail_sublist _)
  · -- The unfinished SDU is dropped if it ends here, and stays marked if it does not.
    have hstart : startAligned (S.header c).fi = false := by
      rw [← Bool.not_eq_true, hS.start]
      exact hne
    have hk : ¬UmKeepsFirst st (S.pdu c) := fun hk => hk.2 ⟨hlost, hstart⟩
    refine ⟨hpdcp.append ((hlose hk).trans ?_), ?_⟩
    · rw [htail]
      exact List.tail_sublist _
    · by_cases hclosed : (deframe st.rxSdu (umTokens (S.pdu c))).1 = []
      · refine .inr ⟨by rw [hlost, hclosed]; rfl, ?_⟩
        rw [deframe_open (hnil.mp hclosed)]
        simp [hne]
      · exact .inl (hopen hclosed)
  · -- The first SDU that ends here is dropped, whatever `rx_sdu` was.
    have hk : ¬UmKeepsFirst st (S.pdu c) := fun hk => hk.1.elim hli hf
    refine ⟨hpdcp.append ((hlose hk).trans ?_), .inl (hopen ?_)⟩
    · rw [htail]
      exact List.tail_sublist _
    · rw [Ne, S.closed_eq_nil_iff]
      simp [UmdStream.ends, hli]

end

/-! ### One round -/

/-- The state in which `vr_ur` is at the index `c`, with what has been passed below it. When PDUs
are missing just below `c`, another one waits near. -/
structure UmAssembling (S : UmdStream) (W : Nat) (st : RlcUmRx) (c : Nat) (t : UmTrack) :
    Prop where
  pdcp : st.pdcp.Sublist (S.reassembly c).1
  next_le : t.next ≤ c
  inRxSdu : st.vrUrInRxSdu = (t.last.getD 0) % (2 * W)
  flagged : st.pduLost = t.flagged
  held : t.held = false → st.rxSdu = []
  fresh : t.last = none → t.held = false
  synced : t.next = c → UmSynced S st c
  near : t.next = c ∨ ∃ k, c ≤ k ∧ k < t.next + W ∧ UmWaiting st k

section
variable {S : UmdStream} {sdus : Nat → Bytes} {W h c : Nat} {st : RlcUmRx} {t : UmTrack}
  {received : Nat → Bool}

/-- `vr_ur_in_rx_sdu` tells a gap, but on a fresh entity it stands at PDU 0. -/
theorem UmAssembling.follows_iff (a : UmAssembling S W st c t)
    (w : UmWindow W st c h S.Holds) :
    UmFollows st ↔ c = t.last.getD 0 + 1 := by
  have hW := w.cases
  have hle := a.next_le
  -- Near enough to the last PDU that was received for equal SNs to mean equal indices.
  have hbound : c ≤ t.next + W := by
    rcases a.near with heq | ⟨k, hck, hk, -⟩
    · omega
    · omega
  have hnext : t.next ≤ t.last.getD 0 + 1 ∧ t.last.getD 0 ≤ t.next := by
    unfold UmTrack.next
    cases t.last <;> simp
  unfold UmFollows
  rw [w.vrUr, a.inRxSdu, w.rxMod, Nat.mod_add_mod]
  constructor
  · intro hmod
    exact eq_of_mod_eq hmod (by omega) (by omega)
  · intro heq
    rw [heq]

/-- A safe PDU finds a state that fits it, or is noticed by its length indicator. -/
theorem UmAssembling.ready (a : UmAssembling S W st c t) (w : UmWindow W st c h S.Holds)
    (hS : S.Segments sdus) (hsafe : S.Safe t c) :
    UmSynced S st c ∨ (S.header c).li ≠ [] ∧ ¬UmFollows st := by
  have hstart := hS.start c
  have hfollows := a.follows_iff w
  rcases hsafe with hsync | hgap
  -- No gap: the state fits as it is.
  · exact .inl (a.synced hsync)
  · split at hgap
    · split at hgap
      · rename_i hs
        exact .inl (.inl (by rw [a.held hgap, hstart.mp hs]))
      · rename_i hs
        exact .inl (.inr ⟨by rw [a.flagged, hgap], fun hnil => hs (hstart.mpr hnil)⟩)
    · rename_i hli
      by_cases hf : UmFollows st
      · -- `vr_ur_in_rx_sdu` names the PDU before `c` without its having been received only on a
        -- fresh entity.
        cases hlast : t.last with
        | some p =>
          refine .inl (a.synced ?_)
          rw [hfollows.mp hf, hlast]
          simp [UmTrack.next, hlast]
        | none =>
          have hc : c = 1 := by
            rw [hfollows.mp hf, hlast]
            rfl
          rw [hlast] at hgap
          have hempty := a.held (a.fresh hlast)
          by_cases hs : startAligned (S.header c).fi = true
          · exact .inl (.inl (by rw [hempty, hstart.mp hs]))
          · have hflag : t.flagged = true := by
              subst hc
              simpa [hs] using hgap
            exact .inl (.inr ⟨by rw [a.flagged, hflag], fun hnil => hs (hstart.mpr hnil)⟩)
      · exact .inr ⟨hli, hf⟩

/-- A missing PDU is passed. -/
theorem UmAssembling.pass_missing (a : UmAssembling S W st c t) (w : UmWindow W st c h S.Holds)
    (hmiss : ¬UmWaiting st c) (hnear : ∃ k, c < k ∧ k < c + W ∧ UmWaiting st k) (reset : Bool)
    (hrec : received c = false) :
    UmAssembling S W (passRound reset st) (c + 1) (t.pass S reset received c) := by
  have hW := w.cases
  have hle := a.next_le
  have hnone : st.rxWindow st.vrUr = none := by
    rw [w.waiting_iff, ← w.vrUr] at hmiss
    simpa using hmiss
  have hround : passRound reset st = (if reset then { st with rxSdu := [] } else st).advance := by
    rw [passRound, hnone]
  have hpass : t.pass S reset received c = if reset then { t with held := false } else t := by
    simp [UmTrack.pass, hrec]
  have hpdcp : st.pdcp.Sublist (S.reassembly (c + 1)).1 := by
    rw [S.reassembly_succ]
    exact a.pdcp.trans (List.sublist_append_left _ _)
  -- The PDU that waits near is not the one that is missing, and stays where it is.
  have hwait : ∃ k, c + 1 ≤ k ∧ k < t.next + W ∧ UmWaiting (passRound reset st) k := by
    have hk : ∃ k, c < k ∧ k < t.next + W ∧ UmWaiting st k := by
      rcases a.near with heq | ⟨k, hck, hk, hwk⟩
      · rw [heq]
        exact hnear
      · have hne : k ≠ c := by
          rintro rfl
          exact hmiss hwk
        exact ⟨k, by omega, hk, hwk⟩
    obtain ⟨k, hck, hk, hwk⟩ := hk
    exact ⟨k, hck, hk, (w.waiting_passRound reset hck (by omega)).mpr hwk⟩
  -- A gap touches `rx_sdu` at most, and `held` with it.
  have hsame : (passRound reset st).pdcp = st.pdcp ∧
      (passRound reset st).vrUrInRxSdu = st.vrUrInRxSdu ∧
      (passRound reset st).pduLost = st.pduLost := by
    rw [hround]
    cases reset
    · exact ⟨rfl, rfl, rfl⟩
    · exact ⟨rfl, rfl, rfl⟩
  have htrack : (t.pass S reset received c).last = t.last ∧
      (t.pass S reset received c).flagged = t.flagged := by
    rw [hpass]
    cases reset
    · exact ⟨rfl, rfl⟩
    · exact ⟨rfl, rfl⟩
  have hnext : (t.pass S reset received c).next = t.next := by
    unfold UmTrack.next
    rw [htrack.1]
  refine { pdcp := by rw [hsame.1]; exact hpdcp
           next_le := by rw [hnext]; exact Nat.le_succ_of_le hle
           inRxSdu := by rw [hsame.2.1, htrack.1]; exact a.inRxSdu
           flagged := by rw [hsame.2.2, htrack.2]; exact a.flagged
           held := ?_, fresh := ?_, synced := ?_, near := .inr (by rw [hnext]; exact hwait) }
  · rw [hround, hpass]
    cases reset with
    | true => exact fun _ => rfl
    | false => exact a.held
  · rw [htrack.1, hpass]
    cases reset with
    | true => exact fun _ => rfl
    | false => exact a.fresh
  · intro heq
    rw [hnext] at heq
    omega

/-- A PDU that waits is reassembled. -/
theorem UmAssembling.pass_pdu (a : UmAssembling S W st c t) (w : UmWindow W st c h S.Holds)
    (hS : S.Segments sdus) (hwait : UmWaiting st c) (reset : Bool) (hrec : received c = true)
    (hsafe : S.Safe t c) :
    UmAssembling S W (passRound reset st) (c + 1) (t.pass S reset received c) := by
  have hW := w.cases
  obtain ⟨pdu, hpdu⟩ := Option.isSome_iff_exists.mp ((w.waiting_iff c).mp hwait)
  -- What waits at the index `c` is the PDU that the sender gave this index.
  obtain ⟨-, rfl, -⟩ := w.pdu_at (Nat.le_refl c) (by omega) hpdu
  rw [← w.vrUr] at hpdu
  have hpass : t.pass S reset received c = { last := some c, flagged := t.flagged && !S.ends c
                                             held := !endAligned (S.header c).fi } := by
    simp [UmTrack.pass, hrec]
  obtain ⟨hpdcp, hsync⟩ := umSynced_reassemblePdu hS a.pdcp (a.ready w hS hsafe)
  obtain ⟨out, heq, -⟩ := umReassemblePdu_spec st (S.pdu c)
  rw [hpass, passRound_of_some hpdu]
  refine { pdcp := hpdcp, next_le := Nat.le_refl _, inRxSdu := ?_, flagged := ?_, held := ?_
           fresh := nofun, synced := fun _ => hsync, near := .inl rfl }
  · rw [heq]
    exact w.vrUr
  · rw [heq]
    show (st.pduLost && (deframe st.rxSdu (umTokens (S.pdu c))).1.isEmpty) = _
    have hempty : (deframe st.rxSdu (umTokens (S.pdu c))).1.isEmpty = !S.ends c := by
      rw [Bool.eq_iff_iff, List.isEmpty_iff, S.closed_eq_nil_iff, Bool.not_eq_true']
    rw [a.flagged, hempty]
  · intro hheld
    rw [heq]
    exact S.open_eq_nil_of_endAligned (by simpa using hheld) st.rxSdu

/-- `n` rounds. -/
theorem UmAssembling.passAll (hS : S.Segments sdus) (reset : Bool) (n : Nat) :
    ∀ {c : Nat} {st : RlcUmRx} {t : UmTrack}, UmAssembling S W st c t →
      UmWindow W st c h S.Holds → c + n ≤ h →
      (∀ j, c ≤ j → j < c + n → (received j = true ↔ UmWaiting st j)) →
      (∀ j, c ≤ j → j < c + n → ¬UmWaiting st j →
        ∃ k, j < k ∧ k < j + W ∧ k < h ∧ UmWaiting st k) →
      S.SafeAll reset received n c t →
      UmAssembling S W ((passRound reset)^[n] st) (c + n) (t.passAll S reset received n c) := by
  induction n with
  | zero =>
    intro c st t a _ _ _ _ _
    exact a
  | succ n ih =>
    intro c st t a w hn hrec hnear hsafe
    have hle := w.h_le
    obtain ⟨hsafe₁, hsafe₂⟩ := hsafe
    -- The hypotheses speak of the first state. Rounds leave the places ahead of them alone.
    have hother : ∀ j, c < j → j < h → (UmWaiting (passRound reset st) j ↔ UmWaiting st j) :=
      fun j hj hjh => w.waiting_passRound reset hj (by omega)
    have a' : UmAssembling S W (passRound reset st) (c + 1) (t.pass S reset received c) := by
      by_cases hwait : UmWaiting st c
      · have hc := (hrec c (Nat.le_refl c) (by omega)).mpr hwait
        exact a.pass_pdu w hS hwait reset hc (hsafe₁ hc)
      · have hc : received c = false := by
          rw [← Bool.not_eq_true, hrec c (Nat.le_refl c) (by omega)]
          exact hwait
        obtain ⟨k, hk, hkW, -, hwk⟩ := hnear c (Nat.le_refl c) (by omega) hwait
        exact a.pass_missing w hwait ⟨k, hk, hkW, hwk⟩ reset hc
    rw [Function.iterate_succ_apply, show c + (n + 1) = c + 1 + n by omega, UmTrack.passAll]
    refine ih a' (w.pass (by omega) reset) (by omega) ?_ ?_ hsafe₂
    · intro j hj hj'
      rw [hother j hj (by omega)]
      exact hrec j (by omega) (by omega)
    · intro j hj hj' hmiss
      rw [hother j hj (by omega)] at hmiss
      obtain ⟨k, hk, hkW, hkh, hwk⟩ := hnear j (by omega) (by omega) hmiss
      exact ⟨k, hk, hkW, hkh, (hother k (by omega) hkh).mpr hwk⟩

/-- `n` rounds copy within the buffer exactly when each received PDU fits behind what is held. -/
theorem inRoom_roundsCopies (reset : Bool) (n : Nat) :
    ∀ {c : Nat} {st : RlcUmRx}, UmWindow W st c h S.Holds → c + n ≤ h →
      (∀ j, c ≤ j → j < c + n → (received j = true ↔ UmWaiting st j)) →
      (InRoom (roundsCopies reset n st) ↔ S.FitsAll reset received n c st.rxSdu.length) := by
  induction n with
  | zero =>
    intro c st _ _ _
    exact ⟨fun _ => trivial, fun _ => inRoom_nil⟩
  | succ n ih =>
    intro c st w hn hrec
    have hW := w.cases
    have hle := w.h_le
    have hother : ∀ j, c + 1 ≤ j → j < c + 1 + n →
        (received j = true ↔ UmWaiting (passRound reset st) j) := by
      intro j hj hj'
      rw [w.waiting_passRound reset hj (by omega)]
      exact hrec j (by omega) (by omega)
    have hnext := ih (w.pass (by omega) reset) (by omega) hother
    rw [roundsCopies, inRoom_append, UmdStream.FitsAll, hnext]
    by_cases hwait : UmWaiting st c
    · obtain ⟨pdu, hpdu⟩ := Option.isSome_iff_exists.mp ((w.waiting_iff c).mp hwait)
      obtain ⟨-, rfl, hroom⟩ := w.pdu_at (Nat.le_refl c) (by omega) hpdu
      rw [← w.vrUr] at hpdu
      -- The PDU leaves open what `heldAfter` counts.
      have hheld : (passRound reset st).rxSdu.length = S.heldAfter c st.rxSdu.length := by
        obtain ⟨out, heq, -⟩ := umReassemblePdu_spec st (S.pdu c)
        rw [passRound_of_some hpdu, heq]
        show (deframe st.rxSdu (umTokens (S.pdu c))).2.length = _
        unfold UmdStream.heldAfter
        split
        · rename_i hend
          rw [S.open_eq_nil_of_endAligned hend]
          rfl
        · rename_i hend
          unfold umTokens UmdStream.pdu
          rw [if_neg hend, List.append_nil, length_open_frame]
      have hpieces : InRoom (roundCopies st)
          ↔ st.rxSdu.length + (S.header c).li.headD (S.data c).length ≤ msgRoom := by
        rw [roundCopies, hpdu]
        exact pieceCopies_inRoom_iff_first _ _ (S.li c) hroom
      rw [if_pos ((hrec c (Nat.le_refl c) (by omega)).mpr hwait), hheld, hpieces]
    · have hc : ¬received c = true := fun hc =>
        hwait ((hrec c (Nat.le_refl c) (by omega)).mp hc)
      have hnone : st.rxWindow st.vrUr = none := by
        rw [w.waiting_iff, ← w.vrUr] at hwait
        simpa using hwait
      have hheld : (passRound reset st).rxSdu.length = if reset then 0 else st.rxSdu.length := by
        rw [passRound, hnone]
        cases reset
        · rfl
        · rfl
      have hcopies : roundCopies st = [] := by rw [roundCopies, hnone]
      rw [if_neg hc, hheld, hcopies]
      exact and_iff_right inRoom_nil

end

/-! ### Runs -/

/-- What happens on the channel: a copy of the PDU with index `i` arrives, or the reordering
timer expires. -/
inductive UmArrival where
  | pdu (i : Nat) (payload : Bytes)
  | timerExpired
deriving DecidableEq, Repr

/-- A receiving entity with the indices of `vr_ur` and `vr_uh`, and what `vr_ur` has passed. -/
structure UmRxTrace where
  st : RlcUmRx
  r : Nat := 0
  h : Nat := 0
  track : UmTrack := {}

/-- The first index from `j` on that has not been received, within the given number. -/
def firstMissing (received : Nat → Bool) : Nat → Nat → Nat
  | 0, j => j
  | n + 1, j => if received j then firstMissing received n (j + 1) else j

namespace UmRxTrace

variable (t : UmRxTrace)

/-- The PDUs that wait in the window when the event has arrived. -/
def received : UmArrival → Nat → Bool
  | .pdu i _, j => decide (j = i) || decide (j < t.h) && (t.st.rxWindow (j % t.st.rxMod)).isSome
  | .timerExpired, j => decide (j < t.h) && (t.st.rxWindow (j % t.st.rxMod)).isSome

/-- The index of `vr_uh` after the event. -/
def nextH : UmArrival → Nat
  | .pdu i _ => max t.h (i + 1)
  | .timerExpired => t.h

/-- The index that `vr_ur` moves up to in any case: the lower edge of the window after an
arrival, and `vr_ux` after an expiry of the timer. -/
def edge : UmArrival → Nat
  | .pdu i payload => max t.r (t.nextH (.pdu i payload) - t.st.rxWindowSize)
  | .timerExpired => t.r + modDist t.st.rxMod t.st.vrUx t.st.vrUr

/-- The index of `vr_ur` after the event. -/
def nextR (e : UmArrival) : Nat := firstMissing (t.received e) t.st.rxMod (t.edge e)

/-- A missing PDU empties `rx_sdu` when the window has moved over it, and not when the timer has
expired. -/
def resets : UmArrival → Bool
  | .pdu _ _ => true
  | .timerExpired => false

/-- What has been passed before the event. The timer sets `pdu_lost` and empties `rx_sdu` when
it expires. -/
def start : UmArrival → UmTrack
  | .pdu _ _ => t.track
  | .timerExpired => { t.track with flagged := true, held := false }

/-- Every PDU that is reassembled in the event may be. -/
def Safe (S : UmdStream) (e : UmArrival) : Prop :=
  S.SafeAll (resets e) (t.received e) (t.nextR e - t.r) t.r (t.start e)

instance (S : UmdStream) (e : UmArrival) : Decidable (t.Safe S e) :=
  inferInstanceAs (Decidable (S.SafeAll _ _ _ _ _))

/-- The length indicators of a PDU fit the array, a PDU that is kept fits its buffer, and so does
every piece that is reassembled in the event. The timer empties `rx_sdu` when it expires. -/
def Fits (S : UmdStream) : UmArrival → Prop
  | .pdu i payload =>
    (S.header i).li.length ≤ 512 ∧
      (t.r ≤ i → t.st.rxWindow (i % t.st.rxMod) = none → payload.length ≤ msgRoom) ∧
      S.FitsAll true (t.received (.pdu i payload)) (t.nextR (.pdu i payload) - t.r) t.r
        t.st.rxSdu.length
  | .timerExpired =>
    S.FitsAll false (t.received .timerExpired) (t.nextR .timerExpired - t.r) t.r 0

instance (S : UmdStream) : (e : UmArrival) → Decidable (t.Fits S e)
  | .pdu _ _ => inferInstanceAs (Decidable (_ ∧ (_ → _ → _) ∧ _))
  | .timerExpired => inferInstanceAs (Decidable (S.FitsAll _ _ _ _ _))

/-- The history after an event that leads to the state `st`. -/
def next (S : UmdStream) (e : UmArrival) (st : RlcUmRx) : UmRxTrace :=
  { st := st, r := t.nextR e, h := t.nextH e
    track := (t.start e).passAll S (resets e) (t.received e) (t.nextR e - t.r) t.r }

end UmRxTrace

/-- An event on the channel. A PDU that arrives is one of the sender's, less than a window away
from `vr_uh`, and only a running timer expires. -/
def umChannelStep (S : UmdStream) (t : UmRxTrace) (e : UmArrival) : Option UmRxTrace :=
  match e with
  | .pdu i payload =>
    if t.h ≤ i + t.st.rxWindowSize ∧ i < t.h + t.st.rxWindowSize ∧
        parseDataPduHeader S.snSize payload = some (S.header i, S.data i) then
      some (t.next S e (receivePdu t.st (S.header i) (S.data i)))
    else none
  | .timerExpired => (rxStep t.st .timerExpired).map (t.next S e)

/-- What the receiver gets to see of an event. -/
def UmArrival.rxEvent : UmArrival → RxEvent
  | .pdu _ payload => .writePdu payload
  | .timerExpired => .timerExpired

/-- A fresh receiver. -/
def umChannelStart (S : UmdStream) (tReordering : Nat) : UmRxTrace :=
  { st := configureRx S.snSize tReordering }

/-- Every SDU at PDCP is one of the sender's, and they are in order. -/
def UmIntact (sdus : Nat → Bytes) (t : UmRxTrace) : Prop :=
  ∃ ks : List Nat, ks.Pairwise (· < ·) ∧ t.st.pdcp = ks.map sdus

/-- The invariant of a run. -/
structure UmChannelInv (S : UmdStream) (t : UmRxTrace) : Prop
    extends UmRxInv (umWidth S.snSize) t.st t.r t.h S.Holds,
      UmAssembling S (umWidth S.snSize) t.st t.r t.track

/-- The search finds the first missing PDU. Induction on the range. -/
theorem firstMissing_eq {received : Nat → Bool} {m : Nat} (hm : received m = false) (n : Nat) :
    ∀ {j : Nat}, j ≤ m → m ≤ j + n → (∀ k, j ≤ k → k < m → received k = true) →
      firstMissing received n j = m := by
  induction n with
  | zero =>
    intro j hj hjm _
    show j = m
    omega
  | succ n ih =>
    intro j hj hjm hall
    rw [firstMissing]
    -- At `m` the search ends, and below it every index has been received.
    rcases Nat.eq_or_lt_of_le hj with rfl | hlt
    · rw [hm, if_neg Bool.false_ne_true]
    · rw [hall j (Nat.le_refl j) hlt, if_pos rfl]
      exact ih hlt (by omega) fun k hk hk' => hall k (by omega) hk'

/-- The variables that `UmAssembling` speaks of. -/
theorem UmAssembling.of_eq {S : UmdStream} {W c : Nat} {st st' : RlcUmRx} {t : UmTrack}
    (a : UmAssembling S W st c t)
    (hsdu : (st'.rxSdu, st'.vrUrInRxSdu, st'.pduLost, st'.pdcp)
      = (st.rxSdu, st.vrUrInRxSdu, st.pduLost, st.pdcp))
    (hwait : ∀ k, c ≤ k → k < c + W → UmWaiting st k → UmWaiting st' k) :
    UmAssembling S W st' c t := by
  simp only [Prod.mk.injEq] at hsdu
  obtain ⟨h1, h2, h3, h4⟩ := hsdu
  have hle := a.next_le
  refine { pdcp := by rw [h4]; exact a.pdcp, next_le := a.next_le
           inRxSdu := by rw [h2]; exact a.inRxSdu, flagged := by rw [h3]; exact a.flagged
           held := by rw [h1]; exact a.held, fresh := a.fresh, synced := ?_, near := ?_ }
  · unfold UmSynced
    rw [h1, h3]
    exact a.synced
  · rcases a.near with heq | ⟨k, hck, hk, hw⟩
    · exact .inl heq
    · exact .inr ⟨k, hck, hk, hwait k hck (by omega) hw⟩

section
variable {S : UmdStream} {sdus : Nat → Bytes} {t : UmRxTrace}

/-- A PDU that is not kept changes nothing. -/
theorem UmChannelInv.next_of_not_accepts (inv : UmChannelInv S t) {i : Nat} {payload : Bytes}
    (hhi : i < t.h + umWidth S.snSize)
    (hnot : ¬(t.r ≤ i ∧ ¬UmWaiting t.st i)) : t.next S (.pdu i payload) t.st = t := by
  have hW := inv.cases
  have hr := inv.r_le
  have hedge := inv.edge
  -- A copy of a PDU that waits, or one below `vr_ur`: in both cases `vr_uh` is ahead of it.
  have hlt : i < t.h := by
    by_cases hri : t.r ≤ i
    · exact inv.lt_of_waiting hri (by omega) (by simpa [hri] using hnot)
    · omega
  have hH : t.nextH (.pdu i payload) = t.h := Nat.max_eq_left hlt
  have hE : t.edge (.pdu i payload) = t.r := by
    rw [UmRxTrace.edge, hH, inv.rxWindowSize]
    omega
  -- `vr_ur` stays at the PDU that was missing before.
  have hmiss : t.received (.pdu i payload) t.r = false := by
    have hne : t.r ≠ i := fun heq => hnot ⟨Nat.le_of_eq heq, heq ▸ inv.missing⟩
    have hw : (t.st.rxWindow (t.r % t.st.rxMod)).isSome = false := by
      simpa [UmWaiting] using inv.missing
    simp [UmRxTrace.received, hne, hw]
  have hR : t.nextR (.pdu i payload) = t.r := by
    rw [UmRxTrace.nextR, hE]
    exact firstMissing_eq hmiss _ (Nat.le_refl _) (by omega) fun k hk hk' => by omega
  rw [UmRxTrace.next, hR, hH, Nat.sub_self]
  rfl

/-- A PDU that is kept. -/
theorem UmChannelInv.arrive (hS : S.Segments sdus) (inv : UmChannelInv S t) {i : Nat}
    {payload : Bytes} (hparse : parseDataPduHeader S.snSize payload = some (S.header i, S.data i))
    (hhi : i < t.h + umWidth S.snSize) (hri : t.r ≤ i) (hnew : ¬UmWaiting t.st i)
    (hsafe : t.Safe S (.pdu i payload)) (hfits : t.Fits S (.pdu i payload)) :
    UmChannelInv S (t.next S (.pdu i payload) (receivePdu t.st (S.header i) (S.data i))) ∧
      InRoom (receivePduCopies t.st payload (S.header i) (S.data i)) := by
  have hW := inv.cases
  have hr := inv.r_le
  have hedge := inv.edge
  obtain ⟨-, hkept, hpieces⟩ := hfits
  have hpayload : payload.length ≤ msgRoom := hkept hri (by simpa [UmWaiting] using hnew)
  have hholds : S.Holds i { header := S.header i, buf := S.data i } :=
    ⟨rfl, (umParseDataPduHeader_suffix hparse).length_le.trans hpayload⟩
  obtain ⟨n, timer, ux, inv', heq, hn, hall, hmiss⟩ :=
    inv.toUmRxInv.after_receivePdu hri hhi (S.sn i) hnew hholds
  have hn' := inv'.r_le
  have w := inv.toUmRxInv.storeDataPdu_window hri hhi (S.sn i) hholds
  -- `received` says of the indices what the window with the new PDU says of the SNs.
  have hwait : ∀ j, t.r ≤ j → j < max t.h (i + 1) →
      (UmWaiting (storeDataPdu t.st (S.header i) (S.data i)) j
        ↔ t.received (.pdu i payload) j = true) := by
    intro j hrj hj
    rw [inv.waiting_storeDataPdu hri hhi (S.sn i), UmRxTrace.received]
    simp only [Bool.or_eq_true, decide_eq_true_eq, Bool.and_eq_true]
    constructor
    · rintro (hmod | hw)
      · exact .inl (eq_of_mod_eq hmod (by omega) (by omega))
      · exact .inr ⟨inv.lt_of_waiting hrj (by omega) hw, hw⟩
    · rintro (rfl | ⟨-, hw⟩)
      · exact .inl rfl
      · exact .inr hw
  -- The rounds stop where the search for the first missing PDU does.
  have hR : t.nextR (.pdu i payload) = t.r + n := by
    have hE : t.edge (.pdu i payload) = max t.r (max t.h (i + 1) - umWidth S.snSize) := by
      rw [UmRxTrace.edge, inv.rxWindowSize]
      rfl
    rw [UmRxTrace.nextR, hE]
    refine firstMissing_eq ?_ _ (by omega) (by rw [inv.rxMod]; omega) ?_
    · rw [← Bool.not_eq_true]
      intro hc
      rcases Nat.eq_or_lt_of_le hn' with hend | hlt
      · rw [UmRxTrace.received, hend] at hc
        simp only [Bool.or_eq_true, decide_eq_true_eq, Bool.and_eq_true] at hc
        omega
      · exact hmiss hlt ((hwait _ (by omega) hlt).mpr hc)
    · intro k hk hk'
      exact (hwait k (by omega) (by omega)).mp (hall k (by omega) (by omega) hk')
  -- Storing the PDU touches nothing that has been reassembled.
  have a : UmAssembling S (umWidth S.snSize) (storeDataPdu t.st (S.header i) (S.data i)) t.r
      t.track := by
    refine inv.toUmAssembling.of_eq ?_ ?_
    · rw [inv.storeDataPdu_eq hri hhi (S.sn i)]
    · intro k _ _ hw
      exact (inv.waiting_storeDataPdu hri hhi (S.sn i) k).mpr (.inr hw)
  have hcount : t.nextR (.pdu i payload) - t.r = n := by omega
  have hsafe' : S.SafeAll true (t.received (.pdu i payload)) n t.r t.track := by
    unfold UmRxTrace.Safe at hsafe
    rw [hcount] at hsafe
    exact hsafe
  have hrec : ∀ j, t.r ≤ j → j < t.r + n → (t.received (.pdu i payload) j = true ↔
      UmWaiting (storeDataPdu t.st (S.header i) (S.data i)) j) :=
    fun j hj hj' => (hwait j hj (by omega)).symm
  have hcopies : InRoom (receivePduCopies t.st payload (S.header i) (S.data i)) := by
    have hend : ¬UmWaiting ((passRound true)^[n] (storeDataPdu t.st (S.header i) (S.data i)))
        (t.r + n) := by
      have hmissing := inv'.missing
      rwa [heq] at hmissing
    have hsdu : (storeDataPdu t.st (S.header i) (S.data i)).rxSdu = t.st.rxSdu := by
      rw [inv.storeDataPdu_eq hri hhi (S.sn i)]
    have ha : UmAccepts t.st (S.header i).sn := by
      rw [S.sn i, inv.accepts_iff (by omega) hhi]
      exact ⟨hri, hnew⟩
    rw [umReceivePduCopies_of_accepts payload ha, inRoom_cons,
      reassembleRxSdusCopies_eq w (by omega) hn hn' hall hend,
      inRoom_roundsCopies true n w hn' hrec,
      hsdu]
    exact ⟨hpayload, hcount ▸ hpieces⟩
  refine ⟨?_, hcopies⟩
  have hpass := UmAssembling.passAll hS true n a w hn' hrec ?_ hsafe'
  · rw [UmRxTrace.next, hcount, hR]
    refine { toUmRxInv := inv', toUmAssembling := hpass.of_eq ?_ ?_ }
    · rw [heq]
    · intro k _ _ hw
      rw [heq]
      exact hw
  · -- A PDU that is passed without having been received is below the edge, and so below `h`.
    intro j hj hj' hno
    have hlow : j + umWidth S.snSize < max t.h (i + 1) := by
      by_contra hge
      exact hno (hall j hj (by omega) hj')
    have htop := inv.top (by omega)
    have htop' : UmWaiting (storeDataPdu t.st (S.header i) (S.data i)) (t.h - 1) :=
      (inv.waiting_storeDataPdu hri hhi (S.sn i) (t.h - 1)).mpr (.inr htop)
    have hne : j ≠ t.h - 1 := by
      rintro rfl
      exact hno htop'
    exact ⟨t.h - 1, by omega, by omega, by omega, htop'⟩

/-- An expiry of the timer. -/
theorem UmChannelInv.expire (hS : S.Segments sdus) (inv : UmChannelInv S t)
    (hrun : t.st.reorderingTimer.isRunning = true) (hsafe : t.Safe S .timerExpired)
    (hfits : t.Fits S .timerExpired) :
    UmChannelInv S (t.next S .timerExpired (timerExpired { t.st with
        reorderingTimer := t.st.reorderingTimer.expire })) ∧
      InRoom (timerExpiredCopies { t.st with
        reorderingTimer := t.st.reorderingTimer.expire }) := by
  have hW := inv.cases
  have hr := inv.r_le
  have hedge := inv.edge
  obtain ⟨x, hux, hrx, hxh, hwx⟩ := inv.timer hrun
  obtain ⟨n, timer, ux, inv', heq, hxn, hall, hmiss⟩ :=
    inv.after_timerExpired hux hrx hxh hwx t.st.reorderingTimer.expire
  have hexp := inv.expiring hux hrx hxh hwx t.st.reorderingTimer.expire
  have hn' := inv'.r_le
  have hwait : ∀ j, t.r ≤ j → j ≤ t.h →
      (UmWaiting t.st j ↔ t.received .timerExpired j = true) := by
    intro j hrj hj
    rw [UmRxTrace.received, Bool.and_eq_true, decide_eq_true_eq]
    exact ⟨fun hw => ⟨inv.lt_of_waiting hrj (by omega) hw, hw⟩, fun hw => hw.2⟩
  -- `vr_ux` has the index `x`, and the distance from `vr_ur` recovers it.
  have hE : t.edge .timerExpired = x := by
    rw [UmRxTrace.edge, inv.rxMod, hux, inv.vrUr, modDist_of_le (by omega) (by omega)]
    omega
  have hR : t.nextR .timerExpired = t.r + n := by
    rw [UmRxTrace.nextR, hE]
    refine firstMissing_eq ?_ _ hxn (by rw [inv.rxMod]; omega) ?_
    · rw [← Bool.not_eq_true, ← hwait _ (by omega) hn']
      exact hmiss
    · intro k hk hk'
      exact (hwait k (by omega) (by omega)).mp (hall k hk hk')
  have a : UmAssembling S (umWidth S.snSize) { t.st with
      reorderingTimer := t.st.reorderingTimer.expire, pduLost := true, rxSdu := [] } t.r
      (t.start .timerExpired) := by
    refine { pdcp := inv.pdcp, next_le := inv.next_le, inRxSdu := inv.inRxSdu, flagged := rfl
             held := fun _ => rfl, fresh := fun _ => rfl, synced := fun _ => ?_
             near := inv.near }
    -- The expiry empties `rx_sdu` and sets `pdu_lost`. An unfinished SDU is lost with it.
    by_cases hopen : (S.reassembly t.r).2 = []
    · exact .inl hopen.symm
    · exact .inr ⟨rfl, hopen⟩
  have hcount : t.nextR .timerExpired - t.r = n := by omega
  have hsafe' : S.SafeAll false (t.received .timerExpired) n t.r (t.start .timerExpired) := by
    unfold UmRxTrace.Safe at hsafe
    rw [hcount] at hsafe
    exact hsafe
  have hrec : ∀ j, t.r ≤ j → j < t.r + n → (t.received .timerExpired j = true ↔
      UmWaiting { t.st with
        reorderingTimer := t.st.reorderingTimer.expire, pduLost := true, rxSdu := [] } j) :=
    fun j hj hj' => (hwait j hj (by omega)).symm
  have hcopies : InRoom (timerExpiredCopies { t.st with
      reorderingTimer := t.st.reorderingTimer.expire }) := by
    rw [timerExpiredCopies, skipMissingCopies_eq _ hexp ?_ hxn hn' (fun j hxj _ hj => hall j hxj hj)
      hmiss, inRoom_roundsCopies false n hexp.toUmWindow hn' hrec]
    · exact hcount ▸ hfits
    · rw [inv.rxMod]
      omega
  refine ⟨?_, hcopies⟩
  have hpass := UmAssembling.passAll hS false n a hexp.toUmWindow hn' hrec ?_ hsafe'
  · rw [UmRxTrace.next, hcount, hR]
    refine { toUmRxInv := inv', toUmAssembling := hpass.of_eq ?_ ?_ }
    · rw [heq]
    · intro k _ _ hw
      rw [heq]
      exact hw
  · -- A PDU that is passed without having been received is below `vr_ux`.
    intro j hj hj' hno
    have hlow : j < x := by
      by_contra hge
      exact hno (hall j (by omega) hj')
    have hne : j ≠ x - 1 := by
      rintro rfl
      exact hno hwx
    exact ⟨x - 1, by omega, by omega, by omega, hwx⟩

/-- Nothing has arrived at first. -/
theorem umChannelInv_init (S : UmdStream) (tReordering : Nat) :
    UmChannelInv S (umChannelStart S tReordering) where
  toUmRxInv := umRxInv_init S.snSize tReordering S.Holds
  toUmAssembling :=
    { pdcp := List.Sublist.refl _, next_le := Nat.le_refl 0, inRxSdu := rfl, flagged := rfl
      held := fun _ => rfl, fresh := fun _ => rfl, synced := fun _ => .inl rfl, near := .inl rfl }

/-- An arrival that is safe and has room keeps the invariant, and no copy leaves its buffer. -/
theorem umChannelInv_step (hS : S.Segments sdus) {t' : UmRxTrace} {e : UmArrival}
    (inv : UmChannelInv S t) (hstep : umChannelStep S t e = some t') (hsafe : t.Safe S e)
    (hfits : t.Fits S e) : UmChannelInv S t' ∧ rxStep t.st e.rxEvent = some t'.st ∧
      InRoom (rxStepCopies t.st e.rxEvent) := by
  cases e with
  | pdu i payload =>
    rw [umChannelStep] at hstep
    split at hstep
    · rename_i hcond
      obtain ⟨hlo, hhi, hparse⟩ := hcond
      rw [inv.rxWindowSize] at hlo hhi
      obtain rfl := Option.some.inj hstep
      -- Both ends use the same SN size, as the window is that of the stream.
      have hsize : t.st.rxSnFieldLength = S.snSize := (umWidth_injective inv.width).symm
      have hread := readDataPduHeader_eq_some_iff.mpr ⟨hparse, hfits.1⟩
      rw [UmArrival.rxEvent, rxStep, handleDataPdu, rxStepCopies, handleDataPduCopies, hsize, hread]
      rw [and_left_comm]
      refine ⟨rfl, ?_⟩
      by_cases hacc : t.r ≤ i ∧ ¬UmWaiting t.st i
      · exact inv.arrive hS hparse hhi hacc.1 hacc.2 hsafe hfits
      · have hno : ¬UmAccepts t.st (S.header i).sn := by
          rw [S.sn i, inv.accepts_iff hlo hhi]
          exact hacc
        simp only [umReceivePdu_of_not_accepts inv.toUmScale hno,
          umReceivePduCopies_of_not_accepts inv.toUmScale payload hno]
        rw [inv.next_of_not_accepts hhi hacc]
        exact ⟨inv, inRoom_nil⟩
    · cases hstep
  | timerExpired =>
    obtain ⟨st, hst, rfl⟩ := Option.map_eq_some_iff.mp hstep
    rw [and_left_comm]
    refine ⟨hst, ?_⟩
    rw [rxStep] at hst
    split at hst
    · rename_i hrun
      obtain rfl := Option.some.inj hst
      exact inv.expire hS hrun hsafe hfits
    · cases hst

/-- The SDUs that end in the first PDUs are the first SDUs of the sender. -/
theorem UmChannelInv.intact (hS : S.Segments sdus) (inv : UmChannelInv S t) : UmIntact sdus t := by
  have hsub := inv.pdcp
  rw [hS.complete t.r] at hsub
  obtain ⟨ks, hks, heq⟩ := List.sublist_map_iff.mp hsub
  exact ⟨ks, List.pairwise_lt_range.sublist hks, heq⟩

end

/-- For both SN sizes, any sender that segments and concatenates its SDUs, and any loss,
duplication and reordering less than a window away from `vr_uh`: when every PDU that is
reassembled behind a gap may be, and every piece fits behind what is held, every SDU that is
delivered is one of the sender's, they are in order, and the receiver stays inside its arrays. -/
theorem umReassembly_run {S : UmdStream} {sdus : Nat → Bytes} (hS : S.Segments sdus)
    (tReordering : Nat) (arrivals : List UmArrival)
    (hsteps : Along (umChannelStep S) (fun t e _ => t.Safe S e ∧ t.Fits S e)
      (umChannelStart S tReordering) arrivals) :
    Along (umChannelStep S)
      (fun t e t' => UmIntact sdus t' ∧ rxStep t.st e.rxEvent = some t'.st ∧
        InRoom (rxStepCopies t.st e.rxEvent))
      (umChannelStart S tReordering) arrivals := by
  refine Along.of_inv (I := UmChannelInv S) ?_ (umChannelInv_init S tReordering) hsteps
  intro t e t' inv hstep hs
  obtain ⟨inv', hcopies⟩ := umChannelInv_step hS inv hstep hs.1 hs.2
  exact ⟨⟨inv'.intact hS, hcopies⟩, inv'⟩

/-! ### A sender that cuts every SDU in two -/

/-- Each SDU has two bytes, and each PDU carries one of them. -/
def halvesStream : UmdStream where
  snSize := .size5Bits
  header i :=
    { fi := if i % 2 = 0 then SrsUE.Rlc.fiNotEndAligned else SrsUE.Rlc.fiNotStartAligned
      snSize := .size5Bits, sn := i % 32 }
  data i := if i % 2 = 0 then [7] else [8]
  sn _ := rfl
  li _ := Nat.zero_le _

/-- Two PDUs of the example make an SDU. -/
theorem halvesStream_reassembly (k : Nat) :
    halvesStream.reassembly (2 * k) = (List.replicate k [7, 8], []) ∧
      halvesStream.reassembly (2 * k + 1) = (List.replicate k [7, 8], [7]) := by
  have hfirst : ∀ k, umTokens (halvesStream.pdu (2 * k)) = [some 7] := by
    intro k
    have heven : 2 * k % 2 = 0 := by omega
    simp only [umTokens, UmdStream.pdu, halvesStream, heven]
    rfl
  have hsecond : ∀ k, umTokens (halvesStream.pdu (2 * k + 1)) = [some 8, none] := by
    intro k
    have hodd : (2 * k + 1) % 2 = 1 := by omega
    simp only [umTokens, UmdStream.pdu, halvesStream, hodd]
    rfl
  have hnext : ∀ k, halvesStream.reassembly (2 * k) = (List.replicate k [7, 8], []) →
      halvesStream.reassembly (2 * k + 1) = (List.replicate k [7, 8], [7]) := by
    intro k h
    rw [halvesStream.reassembly_succ, h, hfirst]
    simp [deframe]
  -- Two PDUs make one SDU, so the induction is on the SDUs.
  induction k with
  | zero => exact ⟨rfl, hnext 0 rfl⟩
  | succ k ih =>
    have heven : halvesStream.reassembly (2 * (k + 1)) = (List.replicate (k + 1) [7, 8], []) := by
      rw [show 2 * (k + 1) = 2 * k + 1 + 1 by omega, halvesStream.reassembly_succ, ih.2, hsecond]
      simp [deframe, List.replicate_succ']
    exact ⟨heven, hnext (k + 1) heven⟩

/-- They are the halves of SDUs of two bytes. -/
theorem halvesStream_segments : halvesStream.Segments fun _ => [7, 8] := by
  have hsplit : ∀ n, ∃ k, n = 2 * k ∨ n = 2 * k + 1 := fun n => ⟨n / 2, by omega⟩
  refine { start := ?_, complete := ?_, unfinished := ?_ }
  -- An even PDU has the first octet of its SDU, an odd one the second.
  · intro n
    obtain ⟨k, rfl | rfl⟩ := hsplit n
    · have heven : 2 * k % 2 = 0 := by omega
      rw [(halvesStream_reassembly k).1]
      simp only [halvesStream, heven]
      decide
    · have hodd : (2 * k + 1) % 2 = 1 := by omega
      rw [(halvesStream_reassembly k).2]
      simp only [halvesStream, hodd]
      decide
  · intro n
    obtain ⟨k, rfl | rfl⟩ := hsplit n
    · rw [(halvesStream_reassembly k).1]
      simp [List.map_const']
    · rw [(halvesStream_reassembly k).2]
      simp [List.map_const']
  · intro n
    obtain ⟨k, rfl | rfl⟩ := hsplit n
    · rw [(halvesStream_reassembly k).1]
      exact List.nil_prefix
    · rw [(halvesStream_reassembly k).2]
      exact ⟨[8], rfl⟩

/-- PDU 0 is lost, and the timer expires. The rest of the first SDU is dropped, and the second
one is delivered. -/
theorem umReassembly_run_halves :
    ∃ t, runTo (umChannelStep halvesStream) (umChannelStart halvesStream 5)
        [.pdu 1 [0x81, 8], .timerExpired, .pdu 3 [0x83, 8], .pdu 2 [0x42, 7]] = some t ∧
      t.st.pdcp = [[7, 8]] ∧
      Along (umChannelStep halvesStream)
        (fun t e t' => UmIntact (fun _ => [7, 8]) t' ∧ rxStep t.st e.rxEvent = some t'.st ∧
          InRoom (rxStepCopies t.st e.rxEvent))
        (umChannelStart halvesStream 5)
        [.pdu 1 [0x81, 8], .timerExpired, .pdu 3 [0x83, 8], .pdu 2 [0x42, 7]] := by
  have hrun : ((runTo (umChannelStep halvesStream) (umChannelStart halvesStream 5)
      [.pdu 1 [0x81, 8], .timerExpired, .pdu 3 [0x83, 8], .pdu 2 [0x42, 7]]).map fun t =>
        t.st.pdcp) = some [[7, 8]] := by
    decide +kernel
  obtain ⟨t, ht, hpdcp⟩ := Option.map_eq_some_iff.mp hrun
  have hintact := umReassembly_run halvesStream_segments 5
    [.pdu 1 [0x81, 8], .timerExpired, .pdu 3 [0x83, 8], .pdu 2 [0x42, 7]] (by decide +kernel)
  exact ⟨t, ht, hpdcp, hintact⟩

/-- PDU 0 is lost, and PDU 17 moves the window over it before the timer expires: the second half
of the first SDU is delivered. -/
theorem umReassembly_run_fragment :
    halvesStream.Segments (fun _ => [7, 8]) ∧
      ∃ t, runTo (umChannelStep halvesStream) (umChannelStart halvesStream 5)
          [.pdu 1 [0x81, 8], .pdu 17 [0x91, 8]] = some t ∧
        t.st.pdcp = [[8]] ∧ ¬UmIntact (fun _ => [7, 8]) t := by
  have hrun : ((runTo (umChannelStep halvesStream) (umChannelStart halvesStream 5)
      [.pdu 1 [0x81, 8], .pdu 17 [0x91, 8]]).map fun t => t.st.pdcp) = some [[8]] := by
    decide +kernel
  obtain ⟨t, ht, hpdcp⟩ := Option.map_eq_some_iff.mp hrun
  refine ⟨halvesStream_segments, t, ht, hpdcp, ?_⟩
  rintro ⟨ks, -, heq⟩
  rw [hpdcp] at heq
  cases ks with
  | nil => cases heq
  | cons k ks =>
    have hfirst : ([8] : Bytes) = [7, 8] := (List.cons.inj heq).1
    exact absurd hfirst (by decide)

end SrsUE.Proofs.Rlc
