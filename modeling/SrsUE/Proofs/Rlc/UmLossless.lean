import SrsUE.Proofs.Rlc.UmPdus
import SrsUE.Proofs.Rlc.UmRoom

/-!
# `SrsUE.Proofs.Rlc.UmLossless`: `rlc_um` over a lossless channel

A fresh sender takes SDUs and grants, and every PDU it emits goes to a fresh receiver in order.
Then `vr_ur` and `vr_uh` move on together, one PDU at a time (`umReceivePdu_inOrder`), and no PDU
is ever found missing. Still not every SDU arrives: `vr_ur_in_rx_sdu` starts at 0, as if PDU 0
had been received, so PDU 0 itself does not follow it, and each SDU that ends inside PDU 0 at a
length indicator is dropped. And neither entity looks for the end of the buffer that it copies to.
The SDUs fit it, but a PDU with many of them need not.

* `umLossless_iff`: the SDUs that were sent completely are delivered inside the buffers exactly when
  the first PDU has no length indicator and every PDU fits its buffer.
-/

set_option autoImplicit false

namespace SrsUE.Proofs.Rlc

open SrsUE.Lib
open SrsUE.Rlc

/-! ### The PDUs and the SDUs that were sent -/

/-- The PDUs that the sender emits, in order. -/
def umEmitted : Um.RlcUm → List UmCall → List Bytes
  | _, [] => []
  | st, .writeSdu sdu :: calls =>
    match Um.writeSdu st sdu with
    | some st => umEmitted st calls
    | none => []
  | st, .readPdu n :: calls =>
    let (st, payload) := Um.readPdu st n
    (if payload = [] then [] else [payload]) ++ umEmitted st calls

/-- The copies of both entities while the sender is called and the receiver gets every PDU. -/
def umLinkCopies : Um.RlcUm → Um.RlcUmRx → List UmCall → List Nat
  | _, _, [] => []
  | st, rx, .writeSdu sdu :: calls =>
    match Um.writeSdu st sdu with
    | some st => umLinkCopies st rx calls
    | none => []
  | st, rx, .readPdu n :: calls =>
    let (st', payload) := Um.readPdu st n
    if payload = [] then umLinkCopies st' rx calls
    else
      Um.buildDataPduCopies st n ++ Um.handleDataPduCopies rx payload ++
        match Um.handleDataPdu rx payload with
        | some rx' => umLinkCopies st' rx' calls
        | none => []

/-- The SDUs that were sent completely: those submitted and not pending any more. -/
def umSent (s : UmLog) : List Bytes :=
  s.submitted.take (s.submitted.length - (umPending s.st).length)

/-- SDUs have 1 to 2047 bytes, and a grant is a `uint32_t`. -/
def UmSduCall : UmCall → Prop
  | .writeSdu sdu => 0 < sdu.length ∧ sdu.length ≤ 2047
  | .readPdu n => n < 2 ^ 32

/-- The grant leaves a byte behind every length indicator that is added. A grant from `2 ^ 31` on
is not used at all. -/
def UmRoomyGrant (s : UmLog) (c : UmCall) : Prop :=
  ∀ n, c = .readPdu n → n < 2 ^ 31 →
    UmRoomy (Um.fixedLength s.st.txSnFieldLength) n (umPending s.st)

instance (s : UmLog) : (c : UmCall) → Decidable (UmRoomyGrant s c)
  | .writeSdu _ => isTrue nofun
  | .readPdu n =>
    decidable_of_iff (n < 2 ^ 31 →
      UmRoomy (Um.fixedLength s.st.txSnFieldLength) n (umPending s.st))
      ⟨fun h m hm => by cases hm; exact h, fun h => h n rfl⟩

/-- The grant is not longer than the buffer, or all that is pending fits one PDU there. -/
def UmRoomGrant (s : UmLog) (c : UmCall) : Prop :=
  ∀ n, c = .readPdu n → n < 2 ^ 31 → n ≤ msgRoom ∨
    umHead (Um.fixedLength s.st.txSnFieldLength) ((umPending s.st).length - 1)
      + (umPending s.st).flatten.length ≤ msgRoom

/-- The condition is about grants only. -/
theorem umRoomGrant_writeSdu (s : UmLog) (sdu : Bytes) : UmRoomGrant s (.writeSdu sdu) := by
  intro n hn
  cases hn

instance (s : UmLog) : (c : UmCall) → Decidable (UmRoomGrant s c)
  | .writeSdu sdu => isTrue (umRoomGrant_writeSdu s sdu)
  | .readPdu n =>
    decidable_of_iff (n < 2 ^ 31 → n ≤ msgRoom ∨
      umHead (Um.fixedLength s.st.txSnFieldLength) ((umPending s.st).length - 1)
        + (umPending s.st).flatten.length ≤ msgRoom)
      ⟨fun h m hm => by cases hm; exact h, fun h => h n rfl⟩

/-- The first PDU has no length indicator: when it is built, a single SDU is pending or the first
one fills the grant. -/
def UmFirstPlain (hb : Nat) : List Bytes → List UmCall → Prop
  | _, [] => True
  | sdus, .writeSdu sdu :: calls => UmFirstPlain hb (sdus ++ [sdu]) calls
  | [], .readPdu _ :: calls => UmFirstPlain hb [] calls
  | sdu :: sdus, .readPdu n :: calls =>
    if n ≤ hb ∨ 2 ^ 31 ≤ n then UmFirstPlain hb (sdu :: sdus) calls
    else sdus = [] ∨ n ≤ hb + sdu.length

/-! ### PDUs in order -/

/-- The next PDU in order is reassembled at once, and `vr_ur` and `vr_uh` are behind it again. -/
theorem umReceivePdu_inOrder {W k : Nat} {st : Um.RlcUmRx} {Q : Nat → Um.UmdPdu → Prop}
    (inv : UmRxInv W st k k Q) {pdu : Um.UmdPdu} (hsn : pdu.header.sn = k % (2 * W))
    (hq : Q k pdu) (payload : Bytes) :
    UmRxInv W (Um.receivePdu st pdu.header pdu.buf) (k + 1) (k + 1) Q ∧
      Um.receivePduCopies st payload pdu.header pdu.buf
        = payload.length :: pieceCopies pdu.header.li pdu.buf.length st.rxSdu.length ∧
      ∃ st₁ timer ux, st₁.rxSdu = st.rxSdu ∧ st₁.pduLost = st.pduLost ∧ st₁.pdcp = st.pdcp ∧
        st₁.vrUrInRxSdu = st.vrUrInRxSdu ∧ st₁.vrUr = st.vrUr ∧ st₁.rxMod = st.rxMod ∧
        Um.receivePdu st pdu.header pdu.buf
          = { (Um.reassemblePdu st₁ pdu).advance with
              reorderingTimer := timer, vrUx := ux } := by
  have hW := inv.cases
  obtain ⟨n, timer, ux, inv', heq, -, -, hmiss⟩ :=
    inv.after_receivePdu (Nat.le_refl k) (by omega) hsn inv.missing hq
  have hstore :=
    @UmRxInv.storeDataPdu_eq W k k st Q k pdu.header pdu.buf inv (Nat.le_refl k) (by omega) hsn
  have hwait := (@UmRxInv.waiting_storeDataPdu W k k st Q k pdu.header pdu.buf inv (Nat.le_refl k)
    (by omega) hsn k).mpr (.inl rfl)
  have hle := inv'.r_le
  -- The PDU waits at `vr_ur`, so there is a round, and `vr_uh` is just behind it, so there is one.
  have hone : n = 1 := by
    have hne : n ≠ 0 := by
      rintro rfl
      exact hmiss (by omega) hwait
    omega
  subst hone
  rw [Nat.max_eq_right (by omega)] at inv'
  have hpdu : (Um.storeDataPdu st pdu.header pdu.buf).rxWindow
      (Um.storeDataPdu st pdu.header pdu.buf).vrUr
      = some pdu := by
    rw [hstore]
    show (st.rxWindow.insert (k % (2 * W)) _) st.vrUr = _
    rw [inv.vrUr, Dict.insert_self]
  have hcopies : Um.receivePduCopies st payload pdu.header pdu.buf
      = payload.length :: pieceCopies pdu.header.li pdu.buf.length st.rxSdu.length := by
    have ha : UmAccepts st pdu.header.sn := by
      rw [hsn, inv.accepts_iff (by omega) (by omega)]
      exact ⟨Nat.le_refl k, inv.missing⟩
    have w := inv.storeDataPdu_window (Nat.le_refl k) (show k < k + W by omega) hsn hq
    rw [Nat.max_eq_right (by omega)] at w
    have hend : ¬UmWaiting ((passRound true)^[1] (Um.storeDataPdu st pdu.header pdu.buf))
        (k + 1) := by
      have hmissing := inv'.missing
      rwa [heq] at hmissing
    have hone : ∀ j, k ≤ j → k + 1 ≤ j + W → j < k + 1 →
        UmWaiting (Um.storeDataPdu st pdu.header pdu.buf) j := by
      intro j hj _ hj'
      obtain rfl : j = k := by omega
      exact hwait
    have hsdu : (Um.storeDataPdu st pdu.header pdu.buf).rxSdu = st.rxSdu := by rw [hstore]
    rw [umReceivePduCopies_of_accepts payload ha,
      reassembleRxSdusCopies_eq w (by omega) (by omega) (by omega) hone hend, roundsCopies,
      Um.roundCopies, hpdu, hsdu, roundsCopies, List.append_nil]
  rw [Function.iterate_one, passRound_of_some hpdu] at heq
  refine ⟨inv', hcopies, Um.storeDataPdu st pdu.header pdu.buf, timer, ux, ?_, ?_, ?_, ?_, ?_, ?_,
    heq⟩
  all_goals rw [hstore]

/-! ### The sender and the receiver together -/

/-- The first of the PDUs has no length indicator. -/
def FirstPlain (pdus : List Um.UmdPdu) : Prop := ∀ p ∈ pdus.head?, p.header.li = []

/-- A sender that has emitted the PDUs, and a receiver that got them. The receiver has all SDUs
that end in them if the first one has no length indicator, and lacks some if it has. -/
structure UmLinkInv (snSize : UmdSnSize) (s : UmLog) (rx : Um.RlcUmRx) (pdus : List Um.UmdPdu) :
    Prop extends UmRxInv (umWidth snSize) rx pdus.length pdus.length fun _ _ => True where
  snFieldLength : s.st.txSnFieldLength = snSize
  txMod : s.st.txMod = 2 * umWidth snSize
  vtUs : s.st.vtUs = pdus.length % (2 * umWidth snSize)
  sdus : ∀ sdu ∈ umPending s.st, 0 < sdu.length ∧ sdu.length ≤ 2047
  queue : s.st.txSduQueue.length ≤ txSduQueueCapacity
  stream : pdus.flatMap umTokens ++ marked (umPending s.st) = marked s.submitted
  submitted : ∀ sdu ∈ s.submitted, sdu.length ≤ msgRoom
  pduLost : rx.pduLost = false
  inRxSdu : rx.vrUrInRxSdu = (pdus.length - 1) % (2 * umWidth snSize)
  rxSdu : rx.rxSdu = (deframe [] (pdus.flatMap umTokens)).2
  all : FirstPlain pdus → rx.pdcp = (deframe [] (pdus.flatMap umTokens)).1
  lacks : ¬FirstPlain pdus → rx.pdcp.length < (deframe [] (pdus.flatMap umTokens)).1.length

section
variable {snSize : UmdSnSize} {s : UmLog} {rx : Um.RlcUmRx} {pdus : List Um.UmdPdu}

/-- The SDUs that end in the PDUs are those sent completely. -/
theorem UmLinkInv.umSent_eq (inv : UmLinkInv snSize s rx pdus) :
    umSent s = (deframe [] (pdus.flatMap umTokens)).1 := by
  have hsub : (deframe [] (pdus.flatMap umTokens)).1
      ++ (deframe (deframe [] (pdus.flatMap umTokens)).2 (marked (umPending s.st))).1
      = s.submitted := by
    have h := congrArg (fun ts => (deframe [] ts).1) inv.stream
    simpa only [deframe_append, deframe_marked] using h
  -- Each SDU that is pending, the unfinished one included, is one of those submitted.
  have hlen := length_deframe_marked (deframe [] (pdus.flatMap umTokens)).2 (umPending s.st)
  rw [umSent, ← hsub, List.length_append, hlen, Nat.add_sub_cancel, List.take_left]

/-- Nothing was sent at first. -/
theorem umLinkInv_init (snSize : UmdSnSize) (tReordering : Nat) :
    UmLinkInv snSize (umStart snSize) (Um.configureRx snSize tReordering) [] where
  toUmRxInv := umRxInv_init snSize tReordering _
  snFieldLength := rfl
  txMod := by cases snSize <;> rfl
  vtUs := rfl
  sdus := by simp [umPending, umStart, Um.configure]
  queue := Nat.zero_le _
  stream := by simp [umPending, umStart, Um.configure]
  submitted := nofun
  pduLost := rfl
  inRxSdu := rfl
  rxSdu := rfl
  all _ := rfl
  lacks hn := absurd (fun p hp => by cases hp) hn

/-- A later PDU does not change which one is the first. -/
theorem firstPlain_concat (pdus : List Um.UmdPdu) (pdu : Um.UmdPdu) :
    FirstPlain (pdus ++ [pdu])
      ↔ if pdus = [] then pdu.header.li = [] else FirstPlain pdus := by
  unfold FirstPlain
  cases pdus with
  | nil => simp
  | cons p pdus => simp

/-- What the receiver does with the next PDU. Of the first one, the SDU that ends at its first
length indicator is dropped. -/
theorem UmLinkInv.receivePdu (inv : UmLinkInv snSize s rx pdus) {pdu : Um.UmdPdu}
    (hsn : pdu.header.sn = pdus.length % (2 * umWidth snSize)) :
    ∃ out, (Um.receivePdu rx pdu.header pdu.buf).pdcp = rx.pdcp ++ out ∧
      (Um.receivePdu rx pdu.header pdu.buf).pduLost = false ∧
      (Um.receivePdu rx pdu.header pdu.buf).vrUrInRxSdu = pdus.length % (2 * umWidth snSize) ∧
      (Um.receivePdu rx pdu.header pdu.buf).rxSdu = (deframe rx.rxSdu (umTokens pdu)).2 ∧
      (pdu.header.li = [] ∨ pdus ≠ [] → out = (deframe rx.rxSdu (umTokens pdu)).1) ∧
      (¬(pdu.header.li = [] ∨ pdus ≠ []) →
        out.Sublist (deframe rx.rxSdu (umTokens pdu)).1.tail) := by
  have hW := inv.cases
  obtain ⟨-, -, rx₁, timer, ux, hrxSdu, hlost, hpdcp, hinRxSdu, hvrUr, hmod, heq⟩ :=
    umReceivePdu_inOrder inv.toUmRxInv hsn trivial []
  obtain ⟨out, hpdu, hkeep, hlose⟩ := umReassemblePdu_spec rx₁ pdu
  rw [hrxSdu, hlost, hpdcp, inv.pduLost, Bool.false_and] at hpdu
  rw [hrxSdu] at hkeep hlose
  -- Every PDU but the first follows the one before.
  have hfollows : UmFollows rx₁ ↔ pdus ≠ [] := by
    rw [UmFollows, hvrUr, hinRxSdu, hmod, inv.vrUr, inv.inRxSdu, inv.rxMod, Nat.mod_add_mod]
    cases pdus with
    | nil =>
      simp only [List.length_nil, Nat.zero_mod, ne_eq, not_true_eq_false, iff_false]
      rw [Nat.mod_eq_of_lt (by omega)]
      omega
    | cons p pdus => simp
  -- `pdu_lost` is never set without an expiry, so only the middle segments of PDU 0 are at stake.
  have hkeeps : UmKeepsFirst rx₁ pdu ↔ pdu.header.li = [] ∨ pdus ≠ [] := by
    unfold UmKeepsFirst
    rw [hlost, inv.pduLost, hfollows]
    simp
  rw [hkeeps] at hkeep hlose
  refine ⟨out, ?_, ?_, ?_, ?_, hkeep, hlose⟩
  · rw [heq, hpdu]
    rfl
  · rw [heq, hpdu]
    rfl
  · rw [heq, hpdu]
    show rx₁.vrUr = _
    rw [hvrUr, inv.vrUr]
  · rw [heq, hpdu]
    rfl

/-- The receiver gets the next PDU. -/
theorem UmLinkInv.receive (inv : UmLinkInv snSize s rx pdus) {pdu : Um.UmdPdu}
    (hsn : pdu.header.sn = pdus.length % (2 * umWidth snSize)) {st : Um.RlcUm}
    (hst : st.txSnFieldLength = snSize ∧ st.txMod = 2 * umWidth snSize ∧
      st.vtUs = (pdus.length + 1) % (2 * umWidth snSize))
    (hsdus : ∀ sdu ∈ umPending st, 0 < sdu.length ∧ sdu.length ≤ 2047)
    (hqueue : st.txSduQueue.length ≤ txSduQueueCapacity)
    (htok : umTokens pdu ++ marked (umPending st)
      = marked (umPending s.st)) (payloads : List Bytes) :
    UmLinkInv snSize { st := st, submitted := s.submitted, payloads := payloads }
      (Um.receivePdu rx pdu.header pdu.buf) (pdus ++ [pdu]) := by
  obtain ⟨inv', -⟩ := umReceivePdu_inOrder inv.toUmRxInv hsn trivial []
  obtain ⟨out, hpdcp, hlost, hinRxSdu, hrxSdu, hkeep, hlose⟩ := inv.receivePdu hsn
  have hflat : (pdus ++ [pdu]).flatMap umTokens
      = pdus.flatMap umTokens ++ umTokens pdu := by
    simp
  have hdef := deframe_append [] (pdus.flatMap umTokens) (umTokens pdu)
  rw [inv.rxSdu] at hrxSdu hkeep hlose
  refine { toUmRxInv := ?_, snFieldLength := hst.1, txMod := hst.2.1, vtUs := ?_, sdus := hsdus,
           queue :=
         hqueue, stream :=
           ?_, submitted := inv.submitted, pduLost := hlost, inRxSdu := ?_, rxSdu := ?_, all := ?_,
           lacks := ?_ }
  · rw [List.length_append]
    exact inv'
  · rw [List.length_append]
    exact hst.2.2
  · rw [hflat, List.append_assoc, htok]
    exact inv.stream
  · rw [hinRxSdu, List.length_append]
    rfl
  · rw [hrxSdu, hflat, hdef]
  · intro hf
    rw [firstPlain_concat] at hf
    rw [hpdcp, hflat, hdef]
    by_cases hnil : pdus = []
    · rw [if_pos hnil] at hf
      rw [inv.all (by rw [hnil]; exact fun p hp => by cases hp), hkeep (.inl hf)]
    · rw [if_neg hnil] at hf
      rw [inv.all hf, hkeep (.inr hnil)]
  · intro hf
    rw [firstPlain_concat] at hf
    rw [hpdcp, hflat, hdef, List.length_append, List.length_append]
    by_cases hnil : pdus = []
    · -- The first PDU: an SDU ends at its length indicator and is dropped.
      rw [if_pos hnil] at hf
      have hle := (hlose fun h => h.elim hf (absurd hnil)).length_le
      have hall := inv.all (by rw [hnil]; exact fun p hp => by cases hp)
      have hne : 0 < (deframe (deframe [] (pdus.flatMap umTokens)).2
          (umTokens pdu)).1.length := by
        unfold umTokens
        rw [deframe_append, List.length_append, length_deframe_frame]
        have := List.length_pos_iff.mpr hf
        omega
      rw [List.length_tail] at hle
      rw [hall]
      omega
    · rw [if_neg hnil] at hf
      rw [hkeep (.inr hnil)]
      have := inv.lacks hf
      omega

/-- The bytes of a PDU that is emitted are read back by the receiver. -/
theorem UmLinkInv.read_pduBytes (inv : UmLinkInv snSize s rx pdus) {header : UmdPduHeader}
    {b : Um.PduBuild} {ys : List Bytes} {d : Bytes} (hli : header.li = b.li)
    (hsize : header.snSize = s.st.txSnFieldLength) (hsn : header.sn = s.st.vtUs)
    (hfilled : UmFilled (umPending s.st) ys d b) :
    Um.readDataPduHeader rx.rxSnFieldLength (Um.pduBytes (some (header, b)))
      = some (header, b.pdu) := by
  have hW := inv.cases
  have hmod : header.sn < 2 * umWidth header.snSize := by
    rw [hsn, hsize, inv.snFieldLength, inv.vtUs]
    exact Nat.mod_lt _ (by omega)
  have hbound : ∀ l ∈ header.li, l < 2048 := by
    rw [hli, hfilled.li]
    intro l hl
    obtain ⟨y, hy, rfl⟩ := List.mem_map.mp hl
    have := inv.sdus y (by rw [hfilled.split]; exact List.mem_append_left _ hy)
    omega
  -- There are at most as many length indicators as SDUs, which the queue bounds.
  have hcount : header.li.length ≤ 512 := by
    have hlen := congrArg List.length hfilled.split
    have htx : s.st.txSdu.toList.length ≤ 1 := by cases s.st.txSdu <;> simp
    have hqueue := inv.queue
    rw [umPending, List.length_append, List.length_append, List.length_cons] at hlen
    rw [hli, hfilled.li, List.length_map]
    unfold txSduQueueCapacity at hqueue
    omega
  have hrx : rx.rxSnFieldLength = header.snSize := by
    rw [hsize, inv.snFieldLength]
    exact umWidth_injective inv.width.symm
  rw [hrx]
  exact umReadDataPduHeader_write hmod hbound hcount b.pdu

/-- The pieces of a PDU are parts of SDUs, and fit the buffer. -/
theorem UmLinkInv.pieces_inRoom (inv : UmLinkInv snSize s rx pdus) {header : UmdPduHeader}
    {b : Um.PduBuild} {ys : List Bytes} {d : Bytes} (hli : header.li = b.li)
    (hfi : Um.endAligned header.fi = b.txSdu.isNone)
    (hfilled : UmFilled (umPending s.st) ys d b) :
    InRoom (pieceCopies header.li b.pdu.length rx.rxSdu.length) := by
  have hsum : header.li.sum ≤ b.pdu.length := by
    rw [hli, hfilled.li, hfilled.pdu, List.length_append, List.length_flatten]
    exact Nat.le_add_right _ _
  -- The stream of the sender is cut into its SDUs, and this PDU is a part of it.
  have hall : PiecesWithin msgRoom [] (marked s.submitted) := by
    unfold PiecesWithin
    rw [deframe_marked]
    exact ⟨inv.submitted, Nat.zero_le _⟩
  rw [← inv.stream, ← hfilled.tokens hli hfi, piecesWithin_append, piecesWithin_append,
    ← inv.rxSdu] at hall
  rw [pieceCopies_inRoom_iff _ _ _ hsum]
  have hpdu := hall.2.1
  unfold umTokens at hpdu
  rw [piecesWithin_append] at hpdu
  exact hpdu.1

/-- The SDUs that are left behind a PDU. -/
theorem UmLinkInv.pending_filled (inv : UmLinkInv snSize s rx pdus) {b : Um.PduBuild}
    {ys : List Bytes} {d : Bytes} (hfilled : UmFilled (umPending s.st) ys d b) :
    (∀ sdu ∈ b.txSdu.toList ++ b.queue, 0 < sdu.length ∧ sdu.length ≤ 2047) ∧
      b.queue.length ≤ txSduQueueCapacity := by
  constructor
  · intro sdu hsdu
    rcases List.mem_append.mp hsdu with hr | hq
    · have htx : b.txSdu = some sdu := Option.mem_toList.mp hr
      -- What is left in `tx_sdu` is the end of an SDU that was pending.
      have hwhole := inv.sdus (d ++ sdu) (by rw [hfilled.split, htx]; simp)
      rw [List.length_append] at hwhole
      exact ⟨List.length_pos_iff.mpr (hfilled.rest sdu htx), by omega⟩
    · exact inv.sdus sdu (by rw [hfilled.split]; simp [hq])
  · have hlen := congrArg List.length hfilled.split
    have htx : s.st.txSdu.toList.length ≤ 1 := by cases s.st.txSdu <;> simp
    have hqueue := inv.queue
    rw [umPending, List.length_append, List.length_append, List.length_cons] at hlen
    omega

/-- PDCP submits an SDU. -/
theorem UmLinkInv.writeSdu (inv : UmLinkInv snSize s rx pdus) {sdu : Bytes}
    (hsdu : 0 < sdu.length ∧ sdu.length ≤ 2047) {st : Um.RlcUm}
    (hwrite : Um.writeSdu s.st sdu = some st) :
    umPending st = umPending s.st ++ [sdu] ∧
      UmLinkInv snSize { s with st := st, submitted := s.submitted ++ [sdu] } rx pdus := by
  unfold Um.writeSdu at hwrite
  split at hwrite
  · rename_i hlt
    obtain rfl := Option.some.inj hwrite
    have hpending : umPending { s.st with txSduQueue := s.st.txSduQueue ++ [sdu] }
        = umPending s.st ++ [sdu] := by
      simp [umPending]
    -- The SDU is appended to what was submitted and to what is pending alike.
    refine ⟨hpending, { inv with
      snFieldLength := inv.snFieldLength, txMod := inv.txMod, vtUs := inv.vtUs, sdus := ?_
      queue := ?_, stream := ?_, submitted := ?_ }⟩
    · intro x hx
      simp only [hpending] at hx
      rcases List.mem_append.mp hx with hx | hx
      · exact inv.sdus x hx
      · rw [List.mem_singleton.mp hx]
        exact hsdu
    · show (s.st.txSduQueue ++ [sdu]).length ≤ _
      rw [List.length_append]
      exact hlt
    · simp only [hpending]
      rw [marked_append, ← List.append_assoc, inv.stream, ← marked_append]
    · have hroom : (2047 : Nat) ≤ msgRoom := by decide
      intro x hx
      rcases List.mem_append.mp hx with hx | hx
      · exact inv.submitted x hx
      · rw [List.mem_singleton.mp hx]
        omega
  · cases hwrite

/-- A grant in which a PDU is built: the receiver gets it. It has a length indicator unless a
single SDU is pending or the first one fills the grant, and it fits its buffers unless the grant and
all that is pending are longer. -/
theorem UmLinkInv.readPdu (inv : UmLinkInv snSize s rx pdus) {n : Nat} {sdu : Bytes}
    {sdus : List Bytes} (hcons : umPending s.st = sdu :: sdus) (hn : n < 2 ^ 31)
    (hgt : Um.fixedLength snSize < n)
    (hroom : UmRoomy (Um.fixedLength s.st.txSnFieldLength) n (umPending s.st))
    (payloads : List Bytes) :
    (Um.readPdu s.st n).2 ≠ [] ∧
      (InRoom (Um.buildDataPduCopies s.st n ++ Um.handleDataPduCopies rx (Um.readPdu s.st n).2) ↔
        n ≤ msgRoom ∨ umHead (Um.fixedLength snSize) ((umPending s.st).length - 1)
          + (umPending s.st).flatten.length ≤ msgRoom) ∧
      ∃ rx' pdu, Um.handleDataPdu rx (Um.readPdu s.st n).2 = some rx' ∧
      UmLinkInv snSize
        { st := (Um.readPdu s.st n).1, submitted := s.submitted, payloads := payloads }
        rx' (pdus ++ [pdu]) ∧
      (pdu.header.li = [] ↔ sdus = [] ∨ n ≤ Um.fixedLength snSize + sdu.length) := by
  have hok : ∀ x ∈ umPending s.st, IsUmSdu x := by
    intro x hx
    have := inv.sdus x hx
    exact ⟨List.length_pos_iff.mp this.1, by omega⟩
  obtain ⟨header, b, ys, d, hbuild, hli, hsize, hsn, hfi, hfilled, hfull, hfits, hys⟩ :=
    umBuildDataPdu_filled hcons hok hn (by rw [inv.snFieldLength]; exact hgt) hroom
  rw [inv.snFieldLength] at hys hfull hfits
  -- `read_pdu` is `build_data_pdu` and the bytes of what it built.
  have hread : Um.readPdu s.st n = ({ s.st with
      txSdu := b.txSdu, txSduQueue := b.queue, vtUs := (s.st.vtUs + 1) % s.st.txMod },
      Um.pduBytes (some (header, b))) := by
    rw [Um.readPdu, hbuild]
  obtain ⟨hsdus, hqueue⟩ := inv.pending_filled hfilled
  have hvtUs : (s.st.vtUs + 1) % s.st.txMod = (pdus.length + 1) % (2 * umWidth snSize) := by
    rw [inv.vtUs, inv.txMod, Nat.mod_add_mod]
  have hback := inv.read_pduBytes hli hsize hsn hfilled
  have hlen : (Um.pduBytes (some (header, b))).length
      = Um.fixedLength snSize + liBytes b.li.length + b.pdu.length := by
    rw [Um.pduBytes, List.length_append, length_umWriteDataPduHeader, hsize, inv.snFieldLength, hli]
  rw [hread]
  refine ⟨?_, ?_, Um.receivePdu rx header b.pdu, { header := header, buf := b.pdu }, ?_, ?_, ?_⟩
  · rw [← List.length_pos_iff, hlen]
    unfold Um.fixedLength
    cases snSize <;> simp only <;> omega
  · -- The receiver copies the PDU with its header, the sender without it.
    obtain ⟨-, hcopies, -⟩ := @umReceivePdu_inOrder _ _ _ _ inv.toUmRxInv
      { header := header, buf := b.pdu } (hsn.trans inv.vtUs) trivial
      (Um.pduBytes (some (header, b)))
    simp only at hcopies
    have hpieces := inv.pieces_inRoom hli hfi hfilled
    rw [← hfilled.length_le_iff hfull hfits, ← hlen, Um.buildDataPduCopies, hbuild,
      Um.handleDataPduCopies, hback, inRoom_append]
    simp only [hcopies, inRoom_cons, and_iff_left hpieces, Option.map_some, Option.toList_some]
    refine and_iff_right_of_imp fun hle => ⟨?_, inRoom_nil⟩
    omega
  · rw [Um.handleDataPdu, hback]
    rfl
  · exact @UmLinkInv.receive snSize s rx pdus inv { header := header, buf := b.pdu }
      (hsn.trans inv.vtUs)
      { s.st with txSdu := b.txSdu, txSduQueue := b.queue, vtUs := (s.st.vtUs + 1) % s.st.txMod }
      ⟨inv.snFieldLength, inv.txMod, hvtUs⟩ hsdus hqueue (hfilled.tokens hli hfi) payloads
  · rw [← hys, hli, hfilled.li, List.map_eq_nil_iff]

/-- Where no PDU is built, the grant or what is pending is short. -/
theorem umRoom_of_none {st : Um.RlcUm} {n : Nat}
    (h : umPending st = [] ∨ 2 ^ 31 ≤ n ∨ n ≤ Um.fixedLength st.txSnFieldLength)
    (hn : n < 2 ^ 31) :
    n ≤ msgRoom ∨ umHead (Um.fixedLength st.txSnFieldLength) ((umPending st).length - 1)
      + (umPending st).flatten.length ≤ msgRoom := by
  have hfixed : Um.fixedLength st.txSnFieldLength ≤ msgRoom := by
    cases st.txSnFieldLength <;> decide
  rcases h with hnil | hge | hle
  · rw [hnil]
    exact .inr hfixed
  · omega
  · exact .inl (hle.trans hfixed)

/-! ### Runs -/

/-- The sender and the receiver along the calls. Until a PDU is emitted, the calls decide whether
the first one has a length indicator. -/
theorem umLink_run (calls : List UmCall) {log : UmLog} :
    ∀ {s : UmLog} {rx : Um.RlcUmRx} {pdus : List Um.UmdPdu}, UmLinkInv snSize s rx pdus →
      (∀ c ∈ calls, UmSduCall c) → Along umStep (fun s c _ => UmRoomyGrant s c) s calls →
      runTo umStep s calls = some log →
      ∃ rx' pdus', runTo Um.rxStep rx ((umEmitted s.st calls).map .writePdu) = some rx' ∧
        UmLinkInv snSize log rx' pdus' ∧
        (InRoom (umLinkCopies s.st rx calls)
          ↔ Along umStep (fun s c _ => UmRoomGrant s c) s calls) ∧
        (FirstPlain pdus' ↔ if pdus = [] then
          UmFirstPlain (Um.fixedLength snSize) (umPending s.st) calls else FirstPlain pdus) := by
  induction calls with
  | nil =>
    intro s rx pdus inv _ _ hrun
    obtain rfl := Option.some.inj hrun
    refine ⟨rx, pdus, rfl, inv, ⟨fun _ => trivial, fun _ => inRoom_nil⟩, ?_⟩
    split
    · rename_i hnil
      simp [hnil, FirstPlain, UmFirstPlain]
    · exact Iff.rfl
  | cons c calls ih =>
    intro s rx pdus inv hcalls hroom hrun
    obtain ⟨s₁, hstep, hrest⟩ := Option.bind_eq_some_iff.mp hrun
    obtain ⟨hgrant, hroom'⟩ := hroom s₁ hstep
    have hc := hcalls c (List.mem_cons_self ..)
    have hcalls' : ∀ c ∈ calls, UmSduCall c := fun c' hc' => hcalls c' (List.mem_cons_of_mem _ hc')
    cases c with
    | writeSdu sdu =>
      obtain ⟨st, hwrite, rfl⟩ := Option.map_eq_some_iff.mp hstep
      -- The receiver sees nothing of an SDU that is submitted.
      obtain ⟨hpending, inv₁⟩ := inv.writeSdu hc hwrite
      obtain ⟨rx', pdus', hrx, inv', hcopies, hiff⟩ := ih inv₁ hcalls' hroom' hrest
      refine ⟨rx', pdus', ?_, inv', ?_, hiff.trans ?_⟩
      · rw [umEmitted, hwrite]
        exact hrx
      · rw [umLinkCopies, hwrite, along_cons_iff hstep]
        exact hcopies.trans (and_iff_right (umRoomGrant_writeSdu s sdu)).symm
      · simp only [hpending, UmFirstPlain]
    | readPdu n =>
      obtain rfl := Option.some.inj hstep
      by_cases hnone : umPending s.st = [] ∨ 2 ^ 31 ≤ n ∨ n ≤ Um.fixedLength s.st.txSnFieldLength
      · -- No PDU is built.
        have hread : Um.readPdu s.st n = (s.st, []) := by
          rw [Um.readPdu, (umBuildDataPdu_none hc hnone).1]
          rfl
        have inv₁ : UmLinkInv snSize { s with
            st :=
          (Um.readPdu s.st n).1, payloads := s.payloads ++ [umPayload s.st n] } rx pdus := by
          rw [hread]
          exact { inv with }
        obtain ⟨rx', pdus', hrx, inv', hcopies, hiff⟩ := ih inv₁ hcalls' hroom' hrest
        refine ⟨rx', pdus', ?_, inv', ?_, hiff.trans ?_⟩
        · rw [umEmitted, hread]
          rw [hread] at hrx
          exact hrx
        · rw [umLinkCopies, along_cons_iff hstep, ← hcopies, hread]
          refine (and_iff_right fun m hm hlt => ?_).symm
          cases hm
          exact umRoom_of_none hnone hlt
        · simp only [hread]
          rw [inv.snFieldLength] at hnone
          cases hpending : umPending s.st with
          | nil => simp only [UmFirstPlain]
          | cons sdu sdus =>
            have hskip : n ≤ Um.fixedLength snSize ∨ 2 ^ 31 ≤ n := by
              rw [hpending] at hnone
              exact (hnone.resolve_left (List.cons_ne_nil sdu sdus)).symm
            simp only [UmFirstPlain, if_pos hskip]
      · -- A PDU is built and received.
        simp only [not_or, Nat.not_le] at hnone
        obtain ⟨hne, hn, hgt⟩ := hnone
        rw [inv.snFieldLength] at hgt
        obtain ⟨sdu, sdus, hcons⟩ := List.exists_cons_of_ne_nil hne
        obtain ⟨hbytes, hcopies₁, rx₁, pdu, hrx₁, inv₁, hli⟩ :=
          inv.readPdu hcons hn hgt (hgrant n rfl hn) (s.payloads ++ [umPayload s.st n])
        obtain ⟨rx', pdus', hrx, inv', hcopies, hiff⟩ := ih inv₁ hcalls' hroom' hrest
        refine ⟨rx', pdus', ?_, inv', ?_, hiff.trans ?_⟩
        · rw [umEmitted]
          simp only [if_neg hbytes, List.singleton_append, List.map_cons]
          rw [runTo, show Um.rxStep rx (.writePdu (Um.readPdu s.st n).2) = some rx₁ from hrx₁]
          exact hrx
        · rw [umLinkCopies, along_cons_iff hstep, ← hcopies]
          simp only [if_neg hbytes, hrx₁]
          rw [inRoom_append, hcopies₁, ← inv.snFieldLength]
          refine and_congr_left fun _ => ⟨fun h m hm _ => ?_, fun h => h n rfl hn⟩
          cases hm
          exact h
        · rw [if_neg (by simp)]
          cases pdus with
          | nil =>
            -- The first PDU is this one, and `UmFirstPlain` is decided here.
            rw [firstPlain_concat, if_pos rfl, hli, if_pos rfl, hcons, UmFirstPlain,
              if_neg (by omega)]
          | cons p ps =>
            have hne := List.cons_ne_nil p ps
            rw [firstPlain_concat, if_neg hne, if_neg hne]

end

/-- For both SN sizes, SDUs of 1 to 2047 bytes and grants that leave a byte behind every length
indicator: the receiver takes every PDU. It delivers exactly the SDUs that were sent completely, and
neither entity copies over the end of a buffer, when and only when the first PDU has no length
indicator and every PDU fits the buffer. -/
theorem umLossless_iff {snSize : UmdSnSize} {calls : List UmCall} {log : UmLog} (tReordering : Nat)
    (hcalls : ∀ c ∈ calls, UmSduCall c)
    (hroom : Along umStep (fun s c _ => UmRoomyGrant s c) (umStart snSize) calls)
    (hrun : runTo umStep (umStart snSize) calls = some log) :
    ∃ rx, runTo Um.rxStep (Um.configureRx snSize tReordering)
        ((umEmitted (Um.configure snSize) calls).map .writePdu) = some rx ∧
      (rx.pdcp = umSent log ∧
          InRoom (umLinkCopies (Um.configure snSize) (Um.configureRx snSize tReordering) calls) ↔
        UmFirstPlain (Um.fixedLength snSize) [] calls ∧
          Along umStep (fun s c _ => UmRoomGrant s c) (umStart snSize) calls) := by
  obtain ⟨rx, pdus, hrx, inv, hcopies, hiff⟩ :=
    umLink_run calls (umLinkInv_init snSize tReordering) hcalls hroom hrun
  rw [if_pos rfl] at hiff
  refine ⟨rx, hrx, and_congr ?_ hcopies⟩
  rw [inv.umSent_eq, show UmFirstPlain (Um.fixedLength snSize) [] calls ↔ FirstPlain pdus from
    hiff.symm]
  constructor
  · intro heq
    by_contra hplain
    have hlt := inv.lacks hplain
    rw [heq] at hlt
    exact Nat.lt_irrefl _ hlt
  · exact inv.all

/-- A fresh sender is given one SDU, in two PDUs, and then two more in a third one. -/
def plainFirst : List UmCall :=
  [.writeSdu [1, 2, 3], .readPdu 4, .writeSdu [4], .writeSdu [5, 6], .readPdu 8]

/-- Two SDUs arrive when the first PDU has no length indicator. -/
theorem umLossless_iff_plainFirst :
    ∃ log rx, runTo umStep (umStart .size10Bits) plainFirst = some log ∧
      runTo Um.rxStep (Um.configureRx .size10Bits 5)
        ((umEmitted (Um.configure .size10Bits) plainFirst).map .writePdu) = some rx ∧
      umSent log = [[1, 2, 3], [4]] ∧ rx.pdcp = umSent log ∧
      InRoom (umLinkCopies (Um.configure .size10Bits) (Um.configureRx .size10Bits 5)
        plainFirst) := by
  have hsent : ((runTo umStep (umStart .size10Bits) plainFirst).map umSent)
      = some [[1, 2, 3], [4]] := by
    decide +kernel
  obtain ⟨log, hrun, hlog⟩ := Option.map_eq_some_iff.mp hsent
  obtain ⟨rx, hrx, hiff⟩ := umLossless_iff 5 (by simp [plainFirst, UmSduCall])
    (by decide +kernel) hrun
  exact ⟨log, rx, hrun, hrx, hlog,
    hiff.mpr ⟨by simp [plainFirst, UmFirstPlain, Um.fixedLength], by decide +kernel⟩⟩

/-- Two SDUs fit the first PDU. -/
def bothFirst : List UmCall := [.writeSdu [1], .writeSdu [2], .readPdu 8]

/-- The first of the two SDUs ends at a length indicator of PDU 0 and is not delivered. -/
theorem umLossless_firstDropped :
    (∀ c ∈ bothFirst, UmSduCall c) ∧
      Along umStep (fun s c _ => UmRoomyGrant s c) (umStart .size10Bits) bothFirst ∧
      ∃ log rx, runTo umStep (umStart .size10Bits) bothFirst = some log ∧
        runTo Um.rxStep (Um.configureRx .size10Bits 5)
          ((umEmitted (Um.configure .size10Bits) bothFirst).map .writePdu) = some rx ∧
        umSent log = [[1], [2]] ∧ rx.pdcp = [[2]] ∧ rx.pdcp ≠ umSent log := by
  refine ⟨by simp [bothFirst, UmSduCall], by decide +kernel, ?_⟩
  have hsent : ((runTo umStep (umStart .size10Bits) bothFirst).map umSent) = some [[1], [2]] := by
    decide +kernel
  have hpdcp : ((runTo Um.rxStep (Um.configureRx .size10Bits 5)
      ((umEmitted (Um.configure .size10Bits) bothFirst).map .writePdu)).map (·.pdcp))
      = some [[2]] := by
    decide +kernel
  obtain ⟨log, hrun, hlog⟩ := Option.map_eq_some_iff.mp hsent
  obtain ⟨rx, hrx, hout⟩ := Option.map_eq_some_iff.mp hpdcp
  exact ⟨log, rx, hrun, hrx, hlog, hout, by rw [hout, hlog]; decide⟩

end SrsUE.Proofs.Rlc
