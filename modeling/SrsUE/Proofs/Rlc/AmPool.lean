import SrsUE.Rlc.AmBuffers
import SrsUE.Proofs.Rlc.AmFill
import SrsUE.Proofs.Rlc.AmStatusEffect
import SrsUE.Proofs.Rlc.AmReset

/-!
# `SrsUE.Proofs.Rlc.AmPool`: the buffers that the entity gives back

An entity conserves the buffers of the pool when each one that it has obtained is in one place:
given back, handed to PDCP, or held. `Balance` is the account of a piece of code: the buffers that
it takes with it in local variables, and those that are left in local variables behind it.

* `Tracks`: the buffers are where the contents are, along every run.
* `amPoolStep_iff`: from a state that conserves buffers, a call conserves them exactly when it gives
  back what it allocates (`GivesBack`).
-/

set_option autoImplicit false

namespace SrsUE.Proofs.Rlc

open SrsUE.Lib
open SrsUE.Rlc

/-! ### The account of a piece of code -/

/-- How often the buffer `id` has been given back, handed to PDCP, or is held. -/
def census (b : AmBuffers) (id : Nat) : Nat :=
  b.deallocated.count id + b.pdcp.count id + b.held.count id

/-- Every buffer that the entity has obtained has been given back or handed to PDCP once, or it is
held in one place. -/
def Conserved (b : AmBuffers) : Prop := ∀ id < b.obtained, census b id = 1

/-- The same, and no other buffer is anywhere. -/
def Accounted (b : AmBuffers) : Prop := ∀ id, census b id = if id < b.obtained then 1 else 0

/-- From `b`, with `locals` in local variables, to `b'`, with `locals'` in local variables, no other
buffer is lost or found. -/
structure Balance (b : AmBuffers) (locals : List Nat) (b' : AmBuffers) (locals' : List Nat) :
    Prop where
  le : b.obtained ≤ b'.obtained
  count : ∀ id, census b' id + locals'.count id
    = census b id + locals.count id + if b.obtained ≤ id ∧ id < b'.obtained then 1 else 0

section
variable {b b' b'' : AmBuffers} {l l' l'' : List Nat} {id : Nat}

/-- A buffer is held as often as the SDU pointers, the queue, the two windows and the segments refer
to it together. -/
theorem count_held (b : AmBuffers) (id : Nat) :
    b.held.count id = b.txSdu.toList.count id + b.rxSdu.toList.count id + b.txSduQueue.count id
      + (b.txWindow.values 1024).count id + (b.rxWindow.values 1024).count id
      + (b.rxSegments.values 1024).flatten.count id := by
  rw [AmBuffers.held]
  simp only [List.count_append]

/-- Nothing is lost or found where nothing happens. -/
theorem Balance.refl (b : AmBuffers) (l : List Nat) : Balance b l b l where
  le := Nat.le_refl _
  count id := by rw [if_neg (by omega), Nat.add_zero]

/-- Two parts of a call, one after the other, lose and find nothing when neither does. -/
theorem Balance.trans (h : Balance b l b' l') (h' : Balance b' l' b'' l'') :
    Balance b l b'' l'' where
  le := Nat.le_trans h.le h'.le
  count id := by
    have hle := h.le
    have hle' := h'.le
    have hc := h.count id
    have hc' := h'.count id
    split_ifs at hc hc' ⊢ <;> omega

/-- Code that moves buffers without `allocate`. -/
theorem Balance.of_count (hobt : b'.obtained = b.obtained)
    (h : ∀ id, census b' id + l'.count id = census b id + l.count id) : Balance b l b' l' where
  le := Nat.le_of_eq hobt.symm
  count id := by rw [hobt, if_neg (by omega), Nat.add_zero, h]

/-- `pool->allocate()` puts a new buffer in a local variable. -/
theorem balance_allocate (b : AmBuffers) (l : List Nat) :
    Balance b l b.allocate (b.obtained :: l) where
  le := Nat.le_succ _
  count id := by
    show census b id + _ = census b id + _ + if b.obtained ≤ id ∧ id < b.obtained + 1 then 1 else 0
    rw [List.count_cons]
    by_cases hid : b.obtained = id
    · rw [if_pos (by simpa using hid), if_pos (by omega)]
      omega
    · rw [if_neg (by simpa using hid), if_neg (by omega)]
      omega

/-- A state that conserves the buffers still does after some code exactly when the code leaves
nothing in local variables. -/
theorem Balance.conserved_iff (h : Balance b [] b' l) (hb : Accounted b) :
    (Conserved b' ↔ l = []) ∧ (l = [] → Accounted b') := by
  have hle := h.le
  have hnew : l = [] → Accounted b' := by
    rintro rfl id
    have hc := h.count id
    rw [hb id, List.count_nil] at hc
    split_ifs at hc ⊢ <;> omega
  refine ⟨⟨fun hcons => ?_, fun hl id hid => by rw [hnew hl, if_pos hid]⟩, hnew⟩
  -- A buffer that is left is one more than there are places for it.
  by_contra hne
  obtain ⟨id, hid⟩ := List.exists_mem_of_ne_nil l hne
  have hpos := List.count_pos_iff.mpr hid
  have hc := h.count id
  rw [hb id, List.count_nil] at hc
  by_cases hlt : id < b'.obtained
  · rw [hcons id hlt] at hc
    split_ifs at hc <;> omega
  · split_ifs at hc <;> omega

/-! ### The transmit side -/

/-- `write_sdu` puts the buffer it got in the queue. -/
theorem balance_writeSdu (b : AmBuffers) : Balance b [] b.writeSdu [] := by
  refine (balance_allocate b []).trans (.of_count rfl fun id => ?_)
  simp only [census, count_held, AmBuffers.writeSdu, AmBuffers.allocate, List.count_append,
    List.count_nil]
  omega

/-- `reset` gives back what the containers hold before it clears them. The two SDU pointers stay. -/
theorem balance_reset (b : AmBuffers) (l : List Nat) : Balance b l b.reset l := by
  refine .of_count rfl fun id => ?_
  simp only [census, count_held, AmBuffers.reset, AmBuffers.deallocate, List.count_append,
    Dict.values_empty, List.flatten_nil, List.count_nil]
  omega

/-- The buffer of an SDU that is sent whole is given back, and one that is not stays in `tx_sdu`. -/
theorem balance_finishSdu (b : AmBuffers) (l : List Nat) (rest : Option Bytes) :
    Balance b l (b.finishSdu rest) l := by
  unfold AmBuffers.finishSdu
  split
  · refine .of_count rfl fun id => ?_
    simp only [census, count_held, AmBuffers.deallocate, List.count_append, Option.toList_none,
      List.count_nil]
    omega
  · exact .refl b l

/-- Reading an SDU from the queue would lose one that is still in `tx_sdu`. -/
theorem balance_readQueue (l : List Nat) (htx : b.txSdu = none) : Balance b l b.readQueue l := by
  refine .of_count rfl fun id => ?_
  simp only [census, count_held, AmBuffers.readQueue, htx]
  cases b.txSduQueue with
  | nil => rfl
  | cons buf queue =>
    simp only [List.head?_cons, List.tail_cons, Option.toList_some, Option.toList_none,
      List.count_cons, List.count_nil]
    omega

/-- A PDU is put in `tx_window`, and the buffer that was at its sequence number is lost. -/
theorem balance_insertTx (b : AmBuffers) (l : List Nat) (pdu : Nat) {sn : Nat} (hsn : sn < 1024) :
    Balance b (pdu :: l) { b with txWindow := b.txWindow.insert sn pdu }
      ((b.txWindow sn).toList ++ l) := by
  refine .of_count rfl fun id => ?_
  have hperm := (Dict.values_insert_perm b.txWindow hsn pdu).count_eq id
  rw [List.count_append, List.count_cons] at hperm
  simp only [census, count_held, List.count_append, List.count_cons]
  omega

/-! ### The receive side -/

/-- The buffer of `rx_sdu` goes to PDCP, and the new one takes its place. -/
theorem balance_deliver (b : AmBuffers) (l : List Nat) : Balance b l b.deliver l := by
  have hhand : Balance b l { b with pdcp := b.rxSdu.toList ++ b.pdcp, rxSdu := none } l := by
    refine .of_count rfl fun id => ?_
    simp only [census, count_held, List.count_append, Option.toList_none, List.count_nil]
    omega
  refine (hhand.trans (balance_allocate _ l)).trans (.of_count rfl fun id => ?_)
  simp only [census, count_held, AmBuffers.deliver, AmBuffers.allocate, Option.toList_some,
    Option.toList_none, List.count_cons, List.count_nil]
  omega

/-- Several deliveries, one for each SDU that a PDU completes. -/
theorem balance_deliver_iterate (n : Nat) (b : AmBuffers) (l : List Nat) :
    Balance b l (AmBuffers.deliver^[n] b) l := by
  induction n generalizing b with
  | zero => exact .refl b l
  | succ n ih => exact (balance_deliver b l).trans (ih b.deliver)

/-- The PDU that is taken out of `rx_window` is given back. -/
theorem balance_eraseRx (b : AmBuffers) (l : List Nat) {sn : Nat} (hsn : sn < 1024) :
    Balance b l { b.deallocate (b.rxWindow sn).toList with rxWindow := b.rxWindow.erase sn } l := by
  refine .of_count rfl fun id => ?_
  have hperm := (Dict.values_erase_perm b.rxWindow hsn).count_eq id
  rw [List.count_append] at hperm
  simp only [census, count_held, AmBuffers.deallocate, List.count_append]
  omega

/-- One round of the reassembly loop delivers SDUs and takes out the PDU at `vr_r`. -/
theorem balance_reassemblePdu (b : AmBuffers) (l : List Nat) {st : RlcAm} (hr : st.vrR < 1024)
    (pdu : AmdRxPdu) : Balance b l (b.reassemblePdu st pdu) l := by
  have hlis := balance_deliver_iterate pdu.header.li.length b l
  unfold AmBuffers.reassemblePdu
  refine hlis.trans (Balance.trans ?_ (balance_eraseRx _ l hr))
  split
  · exact balance_deliver _ l
  · exact .refl _ l

/-- The reassembly loop. Induction on the rounds, with `vr_r` below the modulus in each of them. -/
theorem balance_reassembleLoop (rounds : Nat) (b : AmBuffers) (l : List Nat) {st : RlcAm}
    (hr : st.vrR < 1024) : Balance b l (AmBuffers.reassembleLoop rounds st b) l := by
  induction rounds generalizing b st with
  | zero => exact .refl b l
  | succ rounds ih =>
    rw [AmBuffers.reassembleLoop]
    split
    · rename_i pdu _
      have hr' : (reassemblePdu st pdu).vrR < 1024 := Nat.mod_lt _ (by decide)
      exact (balance_reassemblePdu b l hr pdu).trans (ih _ hr')
    · exact .refl b l

/-- `reassemble_rx_sdus`, which allocates `rx_sdu` when there is none. -/
theorem balance_reassembleRxSdus (b : AmBuffers) (l : List Nat) {st : RlcAm} (hr : st.vrR < 1024) :
    Balance b l (b.reassembleRxSdus st) l := by
  unfold AmBuffers.reassembleRxSdus
  refine Balance.trans ?_ (balance_reassembleLoop 1024 _ l hr)
  split
  · rename_i hnone
    refine (balance_allocate b l).trans (.of_count rfl fun id => ?_)
    simp only [census, count_held, AmBuffers.allocate, Option.isNone_iff_eq_none.mp hnone,
      Option.toList_some, Option.toList_none, List.count_cons, List.count_nil]
    omega
  · exact .refl b l

/-- `handle_data_pdu` keeps the buffer it got only where the window has no PDU yet, so no buffer is
overwritten. -/
theorem balance_handleDataPdu {st : RlcAm} (l : List Nat) (hr : st.vrR < 1024) (payload : Bytes)
    {header : AmdPduHeader} (hsn : header.sn < 1024)
    (hrx : (b.rxWindow header.sn).isSome = (st.rxWindow header.sn).isSome) :
    Balance b l (b.handleDataPdu st payload header) l := by
  unfold AmBuffers.handleDataPdu
  split
  · exact .refl b l
  · split
    · exact .refl b l
    · rename_i hno
      obtain ⟨_, _, _, _, hstore⟩ := storeDataPdu_frame st payload header
      have hr' : (storeDataPdu st payload header).vrR < 1024 := by
        rw [hstore]
        exact hr
      -- Nothing is replaced in `rx_window`.
      have hnone : b.rxWindow header.sn = none := by
        rw [← Option.not_isSome_iff_eq_none, hrx]
        exact hno
      have hkept : Balance b l
          { b.allocate with rxWindow := b.rxWindow.insert header.sn b.obtained } l := by
        refine (balance_allocate b l).trans (.of_count rfl fun id => ?_)
        have hperm := (Dict.values_insert_perm b.rxWindow hsn b.obtained).count_eq id
        rw [hnone, Option.toList_none, List.nil_append, List.count_cons] at hperm
        simp only [census, count_held, AmBuffers.allocate, List.count_cons]
        omega
      exact hkept.trans (balance_reassembleRxSdus _ l hr')

/-- The ordered insert adds the new buffer and keeps the others. -/
theorem insertSegment_perm (segment : AmdRxPdu) (buf : Nat) (segments : List AmdRxPdu)
    (bufs : List Nat) :
    (AmBuffers.insertSegment segment buf segments bufs).Perm (buf :: bufs) := by
  fun_induction AmBuffers.insertSegment segment buf segments bufs with
  | case1 s segments c bufs _ ih => exact (ih.cons c).trans (List.Perm.swap buf c bufs)
  | case2 => exact .refl _
  | case3 => exact .refl _

/-- A segment's buffer moves from the local variable to the segments of its PDU. -/
theorem balance_insertSegment (b : AmBuffers) (l : List Nat) {sn : Nat} (hsn : sn < 1024)
    {bufs : List Nat} {buf : Nat} (hbufs : bufs.Perm (buf :: (b.rxSegments sn).getD [])) :
    Balance b (buf :: l) { b with rxSegments := b.rxSegments.insert sn bufs } l := by
  refine .of_count rfl fun id => ?_
  have hperm := ((Dict.values_insert_perm b.rxSegments hsn bufs).flatten).count_eq id
  have hcount := hbufs.count_eq id
  rw [List.flatten_append, List.count_append, List.flatten_cons, List.count_append] at hperm
  have hold : (b.rxSegments sn).toList.flatten = (b.rxSegments sn).getD [] := by
    cases b.rxSegments sn <;> simp
  rw [hold] at hperm
  rw [List.count_cons] at hcount
  simp only [census, count_held, List.count_cons]
  omega

/-- The segments of a PDU are given back when they are cleared. -/
theorem balance_eraseSegments (b : AmBuffers) (l : List Nat) {sn : Nat} (hsn : sn < 1024) :
    Balance b l { b.deallocate ((b.rxSegments sn).getD []) with
      rxSegments := b.rxSegments.erase sn } l := by
  refine .of_count rfl fun id => ?_
  have hperm := ((Dict.values_erase_perm b.rxSegments hsn).flatten).count_eq id
  have hold : (b.rxSegments sn).toList.flatten = (b.rxSegments sn).getD [] := by
    cases b.rxSegments sn <;> simp
  rw [List.flatten_append, List.count_append, hold] at hperm
  simp only [census, count_held, AmBuffers.deallocate, List.count_append]
  omega

/-- An ACK gives back the PDU that it takes out of `tx_window`. -/
theorem balance_ackPdu (b : AmBuffers) (l : List Nat) (st : RlcAm) {i : Nat} (hi : i < 1024)
    (updateVtA : Bool) : Balance b l (b.ackPdu st i updateVtA) l := by
  unfold AmBuffers.ackPdu
  split
  · refine .of_count rfl fun id => ?_
    have hperm := (Dict.values_erase_perm b.txWindow hi).count_eq id
    rw [List.count_append] at hperm
    simp only [census, count_held, AmBuffers.deallocate, List.count_append]
    omega
  · exact .refl b l

/-- The loop over the acknowledged sequence numbers. Induction on the rounds. -/
theorem balance_handleAcks (status : StatusPdu) (l : List Nat) (rounds : Nat) :
    ∀ {i : Nat}, i < 1024 → ∀ (updateVtA : Bool) (st : RlcAm) (b : AmBuffers),
      Balance b l (AmBuffers.handleAcks status rounds i updateVtA st b) l := by
  induction rounds with
  | zero => exact fun _ _ _ b => .refl b l
  | succ rounds ih =>
    intro i hi updateVtA st b
    rw [AmBuffers.handleAcks]
    split
    · refine Balance.trans ?_ (ih (Nat.mod_lt _ (by decide)) _ _ _)
      split
      · exact .refl b l
      · exact balance_ackPdu b l st hi _
    · exact .refl b l

end

/-! ### The buffers are where the contents are -/

/-- Each pointer and each container holds buffers exactly where the entity has contents. -/
structure Tracks (st : RlcAm) (b : AmBuffers) : Prop where
  txSdu : b.txSdu.isSome = st.txSdu.isSome
  rxSdu : b.rxSdu.isSome = st.rxSdu.isSome
  txSduQueue : b.txSduQueue.length = st.txSduQueue.length
  txWindow : ∀ sn, (b.txWindow sn).isSome = (st.txWindow sn).isSome
  rxWindow : ∀ sn, (b.rxWindow sn).isSome = (st.rxWindow sn).isSome
  rxSegments : ∀ sn, (b.rxSegments sn).map List.length = (st.rxSegments sn).map List.length

/-- An entry made in both dictionaries keeps them occupied at the same keys. -/
theorem isSome_insert {β γ : Type} {d : Dict Nat β} {e : Dict Nat γ} {k : Nat} {v : β} {w : γ}
    (h : ∀ k, (d k).isSome = (e k).isSome) (j : Nat) :
    (d.insert k v j).isSome = (e.insert k w j).isSome := by
  rw [Dict.insert_apply, Dict.insert_apply]
  split
  · rfl
  · exact h j

/-- So does one erased from both. -/
theorem isSome_erase {β γ : Type} {d : Dict Nat β} {e : Dict Nat γ} {k : Nat}
    (h : ∀ k, (d k).isSome = (e k).isSome) (j : Nat) :
    (d.erase k j).isSome = (e.erase k j).isSome := by
  rw [Dict.erase_apply, Dict.erase_apply]
  split
  · rfl
  · exact h j

/-- The transmit half of the tracking, without the window. While there is room in the PDU, no SDU
is left in `tx_sdu`. -/
structure FillTracks (queue : List Bytes) (p : PduBuild) (b : AmBuffers) : Prop where
  txSdu : b.txSdu.isSome = p.txSdu.isSome
  txSduQueue : b.txSduQueue.length = queue.length
  room : p.headLen < p.pduSpace → p.txSdu = none

/-- From `b` to `b'` the SDUs of the PDU `p` are taken. -/
structure Pulls (b b' : AmBuffers) (p : PduBuild) : Prop where
  balance : ∀ l, Balance b l b' l
  txSdu : b'.txSdu.isSome = p.txSdu.isSome
  txSduQueue : b'.txSduQueue.length = p.queue.length
  frame : ∃ freed txSdu queue,
    b' = { b with deallocated := freed ++ b.deallocated, txSdu := txSdu, txSduQueue := queue }

section
variable {b b' : AmBuffers} {st : RlcAm}

/-- An SDU that does not fit fills the PDU. -/
theorem addSdu_room (p : PduBuild) (sdu : Bytes)
    (hroom : (p.addSdu sdu).headLen < (p.addSdu sdu).pduSpace) : (p.addSdu sdu).txSdu = none := by
  have hhead : (p.addSdu sdu).headLen = p.headLen := rfl
  have hlast := addSdu_lastLi p sdu
  rw [addSdu_pduSpace, hhead] at hroom
  rw [addSdu_txSdu, if_pos (by omega)]

/-- After an SDU is worked on, `tx_sdu` has a buffer exactly when some of the SDU is left. -/
theorem finishSdu_isSome (b : AmBuffers) {rest : Option Bytes}
    (h : rest.isSome = true → b.txSdu.isSome = true) :
    (b.finishSdu rest).txSdu.isSome = rest.isSome := by
  unfold AmBuffers.finishSdu
  cases rest with
  | none => rfl
  | some sdu => exact h rfl

/-- Only the buffers given back and the one of `tx_sdu` change. -/
theorem finishSdu_frame (b : AmBuffers) (rest : Option Bytes) :
    ∃ freed txSdu, b.finishSdu rest
      = { b with deallocated := freed ++ b.deallocated, txSdu := txSdu } := by
  unfold AmBuffers.finishSdu
  split
  · exact ⟨_, _, rfl⟩
  · exact ⟨[], _, rfl⟩

/-- One round of the loop that pulls SDUs, with the two ways out of it as cases. -/
theorem bufferPullSdus_cons (sdu : Bytes) (queue : List Bytes) (p : PduBuild) (b : AmBuffers) :
    AmBuffers.pullSdus (sdu :: queue) p b
      = if p.headLen < p.pduSpace then
          if p.pduSpace ≤ (pushLi p).headLen then b
          else AmBuffers.pullSdus queue ((pushLi p).addSdu sdu)
            (b.readQueue.finishSdu ((pushLi p).addSdu sdu).txSdu)
        else b := rfl

/-- The loop of `build_data_pdu` never reads an SDU over another. -/
theorem pullSdus_pulls (queue : List Bytes) (p : PduBuild) (b : AmBuffers)
    (h : FillTracks queue p b) :
    Pulls b (AmBuffers.pullSdus queue p b) (pullSdus queue p) := by
  have hstop : ∀ {p' : PduBuild} {queue' : List Bytes}, p'.txSdu = p.txSdu → p'.queue = queue' →
      b.txSduQueue.length = queue'.length → Pulls b b p' := by
    intro p' queue' htx hq hlen
    exact { balance := fun l => .refl b l, txSdu := by rw [h.txSdu, htx]
            txSduQueue := by rw [hlen, hq], frame := ⟨[], _, _, rfl⟩ }
  induction queue generalizing p b with
  | nil => exact hstop rfl rfl h.txSduQueue
  | cons sdu queue ih =>
    rw [bufferPullSdus_cons, pullSdus_cons]
    split
    · rename_i hroom
      split
      · exact hstop rfl rfl h.txSduQueue
      · -- The SDU before was complete, so `tx_sdu` is free.
        have hnone : b.txSdu = none := by
          have htx := h.txSdu
          rw [h.room hroom] at htx
          exact Option.not_isSome_iff_eq_none.mp (by rw [htx]; exact Bool.false_ne_true)
        obtain ⟨buf, bufs, hbufs⟩ : ∃ buf bufs, b.txSduQueue = buf :: bufs :=
          List.exists_cons_of_length_eq_add_one h.txSduQueue
        have hread : b.readQueue.txSdu = some buf ∧ b.readQueue.txSduQueue = bufs := by
          simp only [AmBuffers.readQueue, hbufs, List.head?_cons, List.tail_cons, and_self]
        obtain ⟨given, _, hfin⟩ := finishSdu_frame b.readQueue ((pushLi p).addSdu sdu).txSdu
        have hnext : FillTracks queue ((pushLi p).addSdu sdu)
            (b.readQueue.finishSdu ((pushLi p).addSdu sdu).txSdu) := by
          refine { txSdu := finishSdu_isSome _ fun _ => by rw [hread.1]; rfl, txSduQueue := ?_
                   room := addSdu_room _ sdu }
          rw [hfin]
          show b.readQueue.txSduQueue.length = queue.length
          have hlen := h.txSduQueue
          rw [hbufs, List.length_cons, List.length_cons] at hlen
          rw [hread.2]
          omega
        have hrest := ih _ _ hnext fun htx hq hlen =>
          { balance := fun l => .refl _ l, txSdu := by rw [hnext.txSdu, htx]
            txSduQueue := by rw [hlen, hq], frame := ⟨[], _, _, rfl⟩ }
        refine { hrest with balance := fun l => ?_, frame := ?_ }
        · exact ((balance_readQueue l hnone).trans (balance_finishSdu _ l _)).trans
            (hrest.balance l)
        · obtain ⟨freed, txSdu, bufs, hframe⟩ := hrest.frame
          refine ⟨freed ++ given, txSdu, bufs, hframe.trans ?_⟩
          rw [hfin, List.append_assoc]
          rfl
    · exact hstop rfl rfl h.txSduQueue

/-- The buffers follow the filling of a PDU: `tx_sdu` first, then the queue. -/
theorem fillPdu_pulls (txSdu : Option Bytes) (queue : List Bytes) (n : Nat)
    (htx : b.txSdu.isSome = txSdu.isSome) (hq : b.txSduQueue.length = queue.length) :
    Pulls b (b.fillPdu txSdu queue n) (fillPdu txSdu queue n) := by
  cases txSdu with
  | none =>
    rw [fillPdu_none]
    exact pullSdus_pulls queue (emptyPdu none queue n) b
      { txSdu := htx, txSduQueue := hq, room := fun _ => rfl }
  | some sdu =>
    obtain ⟨given, _, hfin⟩ := finishSdu_frame b ((emptyPdu (some sdu) queue n).addSdu sdu).txSdu
    have hrest := pullSdus_pulls queue ((emptyPdu (some sdu) queue n).addSdu sdu)
      (b.finishSdu ((emptyPdu (some sdu) queue n).addSdu sdu).txSdu)
      { txSdu := finishSdu_isSome _ fun _ => htx, txSduQueue := by rw [hfin]; exact hq
        room := addSdu_room _ sdu }
    rw [fillPdu_some]
    refine { hrest with balance := fun l => ?_, frame := ?_ }
    · exact (balance_finishSdu b l _).trans (hrest.balance l)
    · obtain ⟨freed, txSdu, bufs, hframe⟩ := hrest.frame
      refine ⟨freed ++ given, txSdu, bufs, hframe.trans ?_⟩
      rw [hfin, List.append_assoc]

end

/-! ### One call -/

/-- The call gives back what it allocates: a new PDU gets a grant above the header and finds no
other PDU at `vt_s`, and a segment does not complete its PDU. -/
def GivesBack (st : RlcAm) : AmCall → Prop
  | .readPdu now n => (st.doStatus && !statusProhibited st now) = false → st.retxQueue = [] →
      st.txSdu.isSome ∨ st.txSduQueue ≠ [] → 2 < n ∧ st.txWindow st.vtS = none
  | .writePdu _ payload => ∀ header data segments,
      readDataPduHeader payload = some (header, data) → header.dc = .dataPdu → header.rf = true →
      insideRxWindow st header.sn = true → st.rxSegments header.sn = some segments →
      segmentsComplete 0 (insertSegment { header := header, buf := data } segments) = false
  | _ => True

/-- What a call does to the buffers: the entity still tracks them, and some are lost, unless a
condition holds. -/
def CallAccount (st' : RlcAm) (b b' : AmBuffers) (C : Prop) : Prop :=
  Tracks st' b' ∧ ∃ lost, Balance b [] b' lost ∧ (lost = [] ↔ C)

section
variable {b : AmBuffers} {st st' : RlcAm}

/-- A call that keeps the balance loses no buffer, whatever its condition is. -/
theorem CallAccount.of_balance {b' : AmBuffers} {C : Prop} (ht : Tracks st' b')
    (h : Balance b [] b' []) (hC : C) : CallAccount st' b b' C :=
  ⟨ht, [], h, iff_of_true rfl hC⟩

/-- Only the shape of the state matters. -/
theorem Tracks.of_same (h : Tracks st b) (htx : TxSame st st') (hrx : RxSame st st') :
    Tracks st' b where
  txSdu := by rw [htx.txSdu, h.txSdu]
  rxSdu := by rw [hrx.rxSdu, h.rxSdu]
  txSduQueue := by rw [htx.txSduQueue, h.txSduQueue]
  txWindow sn := by rw [htx.txWindow, h.txWindow]
  rxWindow sn := by rw [hrx.rxWindow, h.rxWindow]
  rxSegments sn := by rw [hrx.rxSegments, h.rxSegments]

/-- `build_data_pdu` gives back what it allocates exactly when the grant is above the header and no
PDU stands at `vt_s`, if there is an SDU to send. -/
theorem account_buildDataPdu (h : Tracks st b) (hS : st.vtS < 1024) (now n : Nat) :
    CallAccount (buildDataPdu st now n).1 b (b.buildDataPdu st n)
      (st.txSdu.isSome ∨ st.txSduQueue ≠ [] → 2 < n ∧ st.txWindow st.vtS = none) := by
  have hhead : amPackedLength {} = 2 := rfl
  by_cases hempty : st.txSdu.isNone ∧ st.txSduQueue.length = 0
  · have hb : b.buildDataPdu st n = b := by rw [AmBuffers.buildDataPdu, if_pos hempty]
    have hst : (buildDataPdu st now n).1 = st := by rw [buildDataPdu, if_pos hempty]
    rw [hb, hst]
    refine .of_balance h (.refl b []) fun hdata => ?_
    rcases hdata with hsome | hne
    · rw [Option.isNone_iff_eq_none.mp hempty.1] at hsome
      cases hsome
    · exact absurd (List.eq_nil_of_length_eq_zero hempty.2) hne
  have hdata : st.txSdu.isSome ∨ st.txSduQueue ≠ [] := by
    by_contra hno
    rw [not_or, not_ne_iff] at hno
    exact hempty ⟨by simpa using hno.1, by rw [hno.2]; rfl⟩
  by_cases hn : n ≤ 2
  · -- The PDU is allocated before the grant is checked.
    have hb : b.buildDataPdu st n = b.allocate := by
      simp only [AmBuffers.buildDataPdu, if_neg hempty, hhead, if_pos hn]
    have hst : (buildDataPdu st now n).1 = st := by
      rw [buildDataPdu, if_neg hempty, hhead, if_pos hn]
    rw [hb, hst]
    refine ⟨{ h with }, [b.obtained], balance_allocate b [], ?_⟩
    refine iff_of_false (List.cons_ne_nil _ _) fun hC => ?_
    have hlt := (hC hdata).1
    omega
  -- The PDU is built. What lay at its sequence number before is lost, which should be nothing.
  have hpulls := fillPdu_pulls (b := b.allocate) st.txSdu st.txSduQueue n h.txSdu h.txSduQueue
  obtain ⟨_, _, _, hframe⟩ := hpulls.frame
  have hwindow : (b.allocate.fillPdu st.txSdu st.txSduQueue n).txWindow = b.txWindow := by
    rw [hframe]
    rfl
  have hb : b.buildDataPdu st n = { b.allocate.fillPdu st.txSdu st.txSduQueue n with
      txWindow := b.txWindow.insert st.vtS b.obtained } := by
    simp only [AmBuffers.buildDataPdu, if_neg hempty, hhead, if_neg hn, hwindow]
  obtain ⟨pdu, hpdu⟩ : ∃ pdu, (buildDataPdu st now n).2 = some pdu := by
    rw [buildDataPdu, if_neg hempty, hhead, if_neg hn]
    exact ⟨_, rfl⟩
  obtain ⟨_, _, _, _, hst⟩ := buildDataPdu_frame hpdu
  rw [hb, hst]
  refine ⟨?_, (b.txWindow st.vtS).toList, ?_, ?_⟩
  · refine { txSdu := hpulls.txSdu, rxSdu := ?_, txSduQueue := hpulls.txSduQueue
             txWindow := isSome_insert h.txWindow, rxWindow := ?_, rxSegments := ?_ }
    · rw [hframe]
      exact h.rxSdu
    · rw [hframe]
      exact h.rxWindow
    · rw [hframe]
      exact h.rxSegments
  · have hins := balance_insertTx (b.allocate.fillPdu st.txSdu st.txSduQueue n) [] b.obtained hS
    rw [hwindow, List.append_nil] at hins
    exact ((balance_allocate b []).trans (hpulls.balance [b.obtained])).trans hins
  · have hsome := h.txWindow st.vtS
    cases hw : b.txWindow st.vtS with
    | none =>
      rw [hw] at hsome
      exact iff_of_true rfl fun _ =>
        ⟨by omega, Option.not_isSome_iff_eq_none.mp (by rw [← hsome]; exact Bool.false_ne_true)⟩
    | some buf =>
      refine iff_of_false (List.cons_ne_nil _ _) fun hC => ?_
      rw [(hC hdata).2, hw] at hsome
      cases hsome

/-- `read_pdu` loses a buffer only in its last branch, where it builds a new PDU. -/
theorem account_readPdu {L : SrslteBit} {now n : Nat} {out : Bytes} (h : Tracks st b)
    (hS : st.vtS < 1024) (hread : readPdu L st now n = some (st', out)) :
    CallAccount st' b (b.readPdu st now n) (GivesBack st (.readPdu now n)) := by
  have hrx := readPdu_rxSame hread
  rcases readPdu_cases hread with
    ⟨hs, rfl, -⟩ | ⟨hs, hq, retx, tx, rest, hlive, hst⟩ | ⟨hs, hq, rfl, -⟩
  · have hb : b.readPdu st now n = b := by rw [AmBuffers.readPdu, if_pos hs]
    rw [hb]
    refine .of_balance (h.of_same (buildStatusPdu_txSame L st now n) hrx) (.refl b []) ?_
    intro hno
    rw [hs] at hno
    cases hno
  · have hb : b.readPdu st now n = b := by
      rw [AmBuffers.readPdu, if_neg (by rw [hs]; exact Bool.false_ne_true),
        if_pos (List.length_pos_iff.mpr hq)]
    rw [hb]
    refine .of_balance ?_ (.refl b []) fun _ hnil => absurd hnil hq
    rcases hst with ⟨-, rfl, -⟩ | ⟨-, -, rfl, -⟩
    · obtain ⟨_, hf⟩ := buildSegment_frame { st with retxQueue := retx :: rest } n tx retx rest
      rw [hf]
      exact { h with }
    · obtain ⟨_, _, _, _, _, hf⟩ :=
        retransmitPdu_frame { st with retxQueue := retx :: rest } now tx retx rest
      rw [hf]
      -- The count in the entry of `tx_window` goes up. The entry was there.
      refine { h with txWindow := fun sn => ?_ }
      show _ = (st.txWindow.insert retx.sn _ sn).isSome
      rw [Dict.insert_apply, h.txWindow]
      split
      · rename_i hsn
        rw [hsn, hlive.2]
        rfl
      · rfl
  · have hb : b.readPdu st now n = b.buildDataPdu st n := by
      rw [AmBuffers.readPdu, if_neg (by rw [hs]; exact Bool.false_ne_true),
        if_neg (by rw [hq]; exact Nat.lt_irrefl 0)]
    obtain ⟨ht, lost, hbal, hiff⟩ := account_buildDataPdu h hS now n
    rw [hb]
    exact ⟨ht, lost, hbal, hiff.trans ⟨fun hC _ _ => hC, fun hC => hC hs hq⟩⟩

/-! ### Received PDUs -/

/-- Deliveries leave the containers alone. -/
theorem deliver_iterate_rxWindow (n : Nat) (b : AmBuffers) :
    ∃ obtained pdcp rxSdu exhausted, AmBuffers.deliver^[n] b
      = { b with obtained := obtained, pdcp := pdcp, rxSdu := rxSdu, exhausted := exhausted } ∧
        (b.rxSdu.isSome = true → rxSdu.isSome = true) := by
  induction n generalizing b with
  | zero => exact ⟨_, _, _, _, rfl, id⟩
  | succ n ih =>
    obtain ⟨_, _, _, _, heq, hsome⟩ := ih b.deliver
    exact ⟨_, _, _, _, heq, fun _ => hsome rfl⟩

/-- A round of the reassembly loop keeps the buffers at the PDUs. -/
theorem tracks_reassemblePdu (h : Tracks st b) (hrx : st.rxSdu.isSome = true) (pdu : AmdRxPdu) :
    Tracks (reassemblePdu st pdu) (b.reassemblePdu st pdu) := by
  obtain ⟨o, p, r, x, hlis, hsome⟩ := deliver_iterate_rxWindow pdu.header.li.length b
  have hr := hsome (by rw [h.rxSdu, hrx])
  unfold AmBuffers.reassemblePdu
  rw [hlis]
  simp only
  split
  · exact { h with rxSdu := rfl, rxWindow := isSome_erase h.rxWindow }
  · exact { h with rxSdu := hr, rxWindow := isSome_erase h.rxWindow }

/-- So does the loop. Induction on the rounds. -/
theorem tracks_reassembleLoop (rounds : Nat) (h : Tracks st b) (hrx : st.rxSdu.isSome = true) :
    Tracks (reassembleLoop rounds st) (AmBuffers.reassembleLoop rounds st b) := by
  induction rounds generalizing st b with
  | zero => exact h
  | succ rounds ih =>
    rw [reassembleLoop, AmBuffers.reassembleLoop]
    cases st.rxWindow st.vrR with
    | none => exact h
    | some pdu => exact ih (tracks_reassemblePdu h hrx pdu) rfl

/-- So does `reassemble_rx_sdus`, where `rx_sdu` always has a buffer in the end. -/
theorem tracks_reassembleRxSdus (h : Tracks st b) :
    Tracks (reassembleRxSdus st) (b.reassembleRxSdus st) := by
  unfold reassembleRxSdus AmBuffers.reassembleRxSdus
  refine tracks_reassembleLoop 1024 ?_ rfl
  split
  · exact { h with rxSdu := rfl }
  · rename_i hsome
    exact { h with rxSdu := by simpa [Option.isSome_iff_ne_none] using hsome }

/-- `handle_data_pdu` stores a PDU and its buffer under the same sequence number, or neither. -/
theorem tracks_handleDataPdu (h : Tracks st b) (now : Nat) (payload : Bytes)
    (header : AmdPduHeader) :
    Tracks (handleDataPdu st now payload header) (b.handleDataPdu st payload header) := by
  unfold handleDataPdu AmBuffers.handleDataPdu
  split
  · exact { h with }
  · split
    · exact { h with }
    · obtain ⟨_, _, hre⟩ := updateReordering_frame
        (reassembleRxSdus (storeDataPdu st payload header)) now
      have hstore : Tracks (storeDataPdu st payload header)
          { b.allocate with rxWindow := b.rxWindow.insert header.sn b.obtained } := by
        obtain ⟨_, _, _, _, hf⟩ := storeDataPdu_frame st payload header
        rw [hf]
        exact { h with rxWindow := isSome_insert h.rxWindow }
      have hdone := tracks_reassembleRxSdus hstore
      rw [hre]
      exact { hdone with }

/-- Segments and their buffers stay equal in number when both lists are replaced. -/
theorem length_insert {d : Dict Nat (List Nat)} {e : Dict Nat (List AmdRxPdu)} {sn : Nat}
    {bufs : List Nat} {segments : List AmdRxPdu}
    (h : ∀ k, (d k).map List.length = (e k).map List.length)
    (hlen : bufs.length = segments.length) (j : Nat) :
    (d.insert sn bufs j).map List.length = (e.insert sn segments j).map List.length := by
  rw [Dict.insert_apply, Dict.insert_apply]
  split
  · rw [Option.map_some, Option.map_some, hlen]
  · exact h j

/-- They stay equal in number when both lists are erased. -/
theorem length_erase {d : Dict Nat (List Nat)} {e : Dict Nat (List AmdRxPdu)} {sn : Nat}
    (h : ∀ k, (d k).map List.length = (e k).map List.length) (j : Nat) :
    (d.erase sn j).map List.length = (e.erase sn j).map List.length := by
  rw [Dict.erase_apply, Dict.erase_apply]
  split
  · rfl
  · exact h j

/-- The buffers of the segments with a further one. -/
def withSegment (b : AmBuffers) (segment : AmdRxPdu) (segments : List AmdRxPdu) : AmBuffers :=
  { b.allocate with
    rxSegments := b.rxSegments.insert segment.header.sn
      (AmBuffers.insertSegment segment b.obtained segments
        ((b.rxSegments segment.header.sn).getD [])) }

/-- A further segment of a PDU that has some comes with a further buffer. -/
theorem tracks_withSegment (h : Tracks st b) (payload : Bytes) {header : AmdPduHeader}
    {segments : List AmdRxPdu} (hseg : st.rxSegments header.sn = some segments) :
    Tracks { st with
        rxSegments := st.rxSegments.insert header.sn
          (insertSegment { header := header, buf := payload } segments)
        doStatus := st.doStatus || header.p }
      (withSegment b { header := header, buf := payload } segments) := by
  refine { h with rxSegments := length_insert h.rxSegments ?_ }
  have hlen := h.rxSegments header.sn
  rw [hseg] at hlen
  obtain ⟨bufs, hbufs, hl⟩ := Option.map_eq_some_iff.mp hlen
  rw [(insertSegment_perm _ _ _ _).length_eq, length_insertSegment, hbufs]
  simpa using hl

/-- The buffer of that segment is new, and it is held. -/
theorem balance_withSegment (b : AmBuffers) (segment : AmdRxPdu) (segments : List AmdRxPdu)
    (hsn : segment.header.sn < 1024) : Balance b [] (withSegment b segment segments) [] :=
  (balance_allocate b []).trans
    (balance_insertSegment b.allocate [] hsn (insertSegment_perm _ _ _ _))

/-- The PDU that `add_segment_and_check` rebuilds is copied again by `handle_data_pdu`. Its first
buffer is lost. -/
theorem account_fullPdu {b' : AmBuffers} (h : Tracks st b') (hbal : Balance b [] b' [])
    (hr : st.vrR < 1024) (now : Nat) (payload : Bytes) {full : AmdPduHeader} {sn : Nat}
    (hfull : full.sn < 1024) (hsn : sn < 1024) {C : Prop} (hC : ¬C) :
    CallAccount
      { handleDataPdu st now payload full with
        rxSegments := (handleDataPdu st now payload full).rxSegments.erase sn } b
      { (b'.allocate.handleDataPdu st payload full).deallocate
          (((b'.allocate.handleDataPdu st payload full).rxSegments sn).getD []) with
        rxSegments := (b'.allocate.handleDataPdu st payload full).rxSegments.erase sn } C := by
  have halloc : Tracks st b'.allocate := { h with }
  have hdone := tracks_handleDataPdu halloc now payload full
  refine ⟨?_, [b'.obtained], ?_, iff_of_false (List.cons_ne_nil _ _) hC⟩
  · exact { hdone with rxSegments := length_erase hdone.rxSegments }
  · exact ((hbal.trans (balance_allocate b' [])).trans
      (balance_handleDataPdu _ hr payload hfull (halloc.rxWindow full.sn))).trans
      (balance_eraseSegments _ _ hsn)

/-- `handle_data_pdu_segment` loses buffers exactly when the segment completes its PDU: the buffers
of the segments are then forgotten, not given back. -/
theorem account_handleDataPduSegment {r ms hi : Nat} (inv : RxVarsInv st r ms hi) (h : Tracks st b)
    (now : Nat) (payload : Bytes) {header : AmdPduHeader} (hsn : header.sn < 1024) :
    CallAccount (handleDataPduSegment st now payload header) b
      (b.handleDataPduSegment st payload header)
      (insideRxWindow st header.sn = true → ∀ segments, st.rxSegments header.sn = some segments →
        segmentsComplete 0 (insertSegment { header := header, buf := payload } segments)
          = false) := by
  -- Outside the window nothing is kept. Inside, the first segment begins a list, and another is
  -- inserted.
  cases hin : insideRxWindow st header.sn with
  | false =>
    have hb : b.handleDataPduSegment st payload header = b := by
      rw [AmBuffers.handleDataPduSegment, hin]
      rfl
    have hst : handleDataPduSegment st now payload header = pollDiscarded st header := by
      rw [handleDataPduSegment, storeSegment_outside hin]
    rw [hb, hst]
    exact .of_balance { h with } (.refl b []) fun hfalse => absurd hfalse Bool.false_ne_true
  | true =>
    cases hseg : st.rxSegments header.sn with
    | none =>
      have hb : b.handleDataPduSegment st payload header = { b.allocate with
          rxSegments := b.rxSegments.insert header.sn [b.obtained] } := by
        simp only [AmBuffers.handleDataPduSegment, hin, hseg, Bool.not_true, Bool.false_eq_true,
          if_false]
        rfl
      obtain ⟨_, _, _, hstore⟩ := storeSegment_first hin hseg payload
      have hst : handleDataPduSegment st now payload header
          = (storeSegment st payload header).1 := by
        rw [handleDataPduSegment, hstore]
      have hnone : b.rxSegments header.sn = none := by
        have hlen := h.rxSegments header.sn
        rw [hseg] at hlen
        exact Option.map_eq_none_iff.mp hlen
      rw [hb, hst, hstore]
      refine .of_balance { h with rxSegments := length_insert h.rxSegments rfl } ?_
        fun _ _ hsome => by cases hsome
      refine (balance_allocate b []).trans (balance_insertSegment b.allocate [] hsn ?_)
      show [b.obtained].Perm (b.obtained :: (b.rxSegments header.sn).getD [])
      rw [hnone]
      exact .refl _
    | some segments =>
      have ht := tracks_withSegment h payload hseg
      have hbal := balance_withSegment b { header := header, buf := payload } segments hsn
      obtain ⟨-, hne, hsegs⟩ := inv.segments header.sn segments hseg
      rw [handleDataPduSegment, storeSegment_next hin hseg, addSegmentAndCheck_call]
      simp only [AmBuffers.handleDataPduSegment, storeSegment_next hin hseg,
        addSegmentAndCheck_call, hin, hseg, Bool.not_true, Bool.false_eq_true, if_false]
      cases hcomplete : segmentsComplete 0
          (insertSegment { header := header, buf := payload } segments) with
      | false =>
        refine .of_balance ht hbal fun _ segments' hsegments' => ?_
        rw [← Option.some.inj hsegments', hcomplete]
      | true =>
        simp only [if_true]
        have hsn' : (rebuildHeader (insertSegment { header := header, buf := payload } segments)).sn
            < 1024 := by
          rw [rebuildHeader_sn (insertSegment_ne_nil _ _) fun s hs => ?_]
          · exact hsn
          · rcases insertSegment_mem _ _ s hs with rfl | hs
            · rfl
            · exact hsegs s hs
        exact account_fullPdu ht hbal inv.keys.vrR_lt now _ hsn' hsn fun hC => by
          have hfalse := hC trivial segments rfl
          rw [hcomplete] at hfalse
          cases hfalse

/-- An ACK takes the PDU and its buffer out of `tx_window`. -/
theorem tracks_ackPdu (h : Tracks st b) (i : Nat) (updateVtA : Bool) :
    Tracks (ackPdu i updateVtA st) (b.ackPdu st i updateVtA) := by
  unfold ackPdu AmBuffers.ackPdu
  cases hw : st.txWindow i with
  | none => exact h
  | some tx =>
    cases updateVtA with
    | true => exact { h with txWindow := isSome_erase h.txWindow }
    | false =>
      refine { h with txWindow := fun sn => ?_ }
      show (b.txWindow sn).isSome = (st.txWindow.insert i _ sn).isSome
      rw [Dict.insert_apply, h.txWindow]
      split
      · rename_i hsn
        rw [hsn, hw]
        rfl
      · rfl

/-- So does each round of the loop over the acknowledged sequence numbers. -/
theorem tracks_handleAcks (status : StatusPdu) (rounds : Nat) :
    ∀ (i : Nat) (updateVtA : Bool) {st : RlcAm} {b : AmBuffers}, Tracks st b →
      Tracks (handleAcks status rounds i updateVtA st)
        (AmBuffers.handleAcks status rounds i updateVtA st b) := by
  induction rounds with
  | zero => exact fun _ _ _ _ h => h
  | succ rounds ih =>
    intro i updateVtA st b h
    rw [handleAcks, AmBuffers.handleAcks]
    split
    · refine ih _ _ ?_
      split
      · obtain ⟨_, hq⟩ := queueNacks_frame i status.nacks st
        rw [hq]
        exact { h with }
      · exact tracks_ackPdu h i _
    · exact h

/-- `reset` empties the containers and keeps the two SDU pointers, in the entity and in the buffers.
-/
theorem tracks_reset (h : Tracks st b) : Tracks (reset st) b.reset where
  txSdu := by
    show b.txSdu.isSome = (st.txSdu.map fun _ => []).isSome
    rw [Option.isSome_map, h.txSdu]
  rxSdu := by
    show b.rxSdu.isSome = (st.rxSdu.map fun _ => []).isSome
    rw [Option.isSome_map, h.rxSdu]
  txSduQueue := rfl
  txWindow _ := rfl
  rxWindow _ := rfl
  rxSegments _ := rfl

/-- `write_pdu` by the kind of the PDU: control, whole data PDU, or segment. -/
theorem account_writePdu {L : SrslteBit} {now : Nat} {payload : Bytes} {r ms hi : Nat}
    (inv : RxVarsInv st r ms hi) (hA : st.vtA < 1024) (h : Tracks st b)
    (hwrite : writePdu L st now payload = some st') :
    CallAccount st' b (b.writePdu L st payload) (GivesBack st (.writePdu now payload)) := by
  cases payload with
  | nil =>
    obtain rfl := Option.some.inj hwrite
    exact .of_balance h (.refl b []) fun _ _ _ hread => by cases hread
  | cons b0 rest =>
    -- A status PDU, a segment or a whole PDU: the payload decides, and each has its own account.
    cases hctrl : isControlPdu b0 with
    | true =>
      rw [writePdu, if_pos hctrl] at hwrite
      obtain ⟨status, hread, rfl⟩ := Option.map_eq_some_iff.mp hwrite
      have hb : b.writePdu L st (b0 :: rest) = b.handleStatus st status := by
        simp only [AmBuffers.writePdu, if_pos hctrl, hread]
      rw [hb]
      refine .of_balance ?_ ?_ ?_
      · exact tracks_handleAcks status 1024 _ _ { h with }
      · exact balance_handleAcks status [] 1024 hA _ _ b
      · intro header data _ hread' hdc
        rw [(isControlPdu_of_read hread').mpr hdc] at hctrl
        cases hctrl
    | false =>
      rw [writePdu, if_neg (by simp [hctrl])] at hwrite
      obtain ⟨⟨header, data⟩, hread, hpdu⟩ := Option.bind_eq_some_iff.mp hwrite
      have hsn := readDataPduHeader_sn_lt hread
      have hdc := (isControlPdu_of_read hread).mp hctrl
      cases hrf : header.rf with
      | true =>
        have hb : b.writePdu L st (b0 :: rest) = b.handleDataPduSegment st data header := by
          simp only [AmBuffers.writePdu, hctrl, hread, hrf, Bool.false_eq_true, if_false, if_true]
        simp only [hrf, if_true] at hpdu
        obtain rfl := Option.some.inj hpdu
        obtain ⟨ht, lost, hbal, hiff⟩ := account_handleDataPduSegment inv h now data hsn
        rw [hb]
        refine ⟨ht, lost, hbal, hiff.trans ⟨fun hC => ?_, fun hC => ?_⟩⟩
        · intro header' data' segments hread' _ _ hin hseg
          rw [hread] at hread'
          obtain ⟨rfl, rfl⟩ := Prod.mk.inj (Option.some.inj hread')
          exact hC hin segments hseg
        · exact fun hin segments hseg => hC header data segments hread hdc hrf hin hseg
      | false =>
        have hb : b.writePdu L st (b0 :: rest) = b.handleDataPdu st data header := by
          simp only [AmBuffers.writePdu, hctrl, hread, hrf, Bool.false_eq_true, if_false]
        simp only [hrf, Bool.false_eq_true, if_false] at hpdu
        obtain rfl := Option.some.inj hpdu
        rw [hb]
        refine .of_balance (tracks_handleDataPdu h now data header)
          (balance_handleDataPdu [] inv.keys.vrR_lt data hsn (h.rxWindow header.sn)) ?_
        intro header' data' segments hread' _ hrf'
        rw [hread] at hread'
        obtain ⟨rfl, rfl⟩ := Prod.mk.inj (Option.some.inj hread')
        rw [hrf] at hrf'
        cases hrf'

/-- What every call does to the buffers. -/
theorem account_step {L : SrslteBit} {c : AmCall} (life : AmLifeInv st) (covers : TxCovers st)
    (h : Tracks st b) (hstep : amStep L st c = some st') :
    CallAccount st' b (amBuffersStep L st b c) (GivesBack st c) := by
  cases c with
  | writeSdu sdu =>
    obtain ⟨-, rfl⟩ := writeSdu_cases hstep
    refine .of_balance { h with txSduQueue := ?_ } (balance_writeSdu b) trivial
    show (b.txSduQueue ++ [b.obtained]).length = (st.txSduQueue ++ [sdu]).length
    rw [List.length_append, List.length_append, h.txSduQueue]
    rfl
  | readPdu now n =>
    obtain ⟨⟨st₁, out⟩, hread, rfl⟩ := Option.map_eq_some_iff.mp hstep
    exact account_readPdu h covers.vtS_lt hread
  | writePdu now payload =>
    obtain ⟨r, ms, hi, hvars⟩ := life.vars
    exact account_writePdu hvars covers.vtA_lt h hstep
  | getBufferState now =>
    obtain rfl := Option.some.inj hstep
    obtain ⟨_, _, _, _, _, hf⟩ := getBufferState_frame st now
    refine .of_balance ?_ (.refl b []) trivial
    rw [hf]
    exact { h with }
  | getTotalBufferState now =>
    obtain rfl := Option.some.inj hstep
    obtain ⟨_, _, _, _, _, hf⟩ := getTotalBufferState_frame st now
    refine .of_balance ?_ (.refl b []) trivial
    rw [hf]
    exact { h with }
  | reset =>
    obtain rfl := Option.some.inj hstep
    exact .of_balance (tracks_reset h) (balance_reset b []) trivial

/-! ### Runs -/

/-- What a run keeps as long as no buffer is lost. -/
structure AmPoolInv (s : RlcAm × AmBuffers) : Prop where
  life : AmLifeInv s.1
  covers : TxCovers s.1
  tracks : Tracks s.1 s.2
  accounted : Accounted s.2

/-- A configured entity holds no buffer. -/
theorem amPoolInv_init (cnfg : AmConfig) : AmPoolInv (configure {} cnfg, {}) where
  life := { vars := ⟨0, 0, 0, rxVarsInv_init cnfg⟩, status := ⟨0, 0, statusAt_init⟩ }
  covers := txCovers_init cnfg
  tracks := by constructor <;> intros <;> rfl
  accounted id := by simp [census, count_held]

/-- The buffers that are neither given back nor handed to PDCP. -/
def live (b : AmBuffers) : List Nat :=
  (List.range b.obtained).filter fun id => id ∉ b.deallocated ∧ id ∉ b.pdcp

/-- The live buffers are those in the containers, each in one place. -/
theorem Accounted.live_perm (h : Accounted b) : (live b).Perm b.held := by
  have hheld : b.held.Nodup := by
    rw [List.nodup_iff_count_le_one]
    intro id
    have hc := h id
    unfold census at hc
    split_ifs at hc <;> omega
  refine (List.perm_ext_iff_of_nodup (List.nodup_range.filter _) hheld).mpr fun id => ?_
  have hc := h id
  unfold census at hc
  simp only [List.mem_filter, List.mem_range, decide_eq_true_eq]
  rw [← List.count_pos_iff, ← List.count_pos_iff, ← List.count_pos_iff]
  split_ifs at hc <;> omega

end

/-- From a state that conserves the buffers, a call conserves them exactly when it gives back what
it allocates. -/
theorem amPoolStep_iff {L : SrslteBit} {s s' : RlcAm × AmBuffers} {c : AmCall} (inv : AmPoolInv s)
    (hstep : amPoolStep L s c = some s') :
    (Conserved s'.2 ∧ (live s'.2).Perm s'.2.held ↔ GivesBack s.1 c) ∧
      (GivesBack s.1 c → AmPoolInv s') := by
  obtain ⟨st', hst', rfl⟩ := Option.map_eq_some_iff.mp hstep
  obtain ⟨ht, lost, hbal, hiff⟩ := account_step inv.life inv.covers inv.tracks hst'
  obtain ⟨hcons, hacc⟩ := hbal.conserved_iff inv.accounted
  refine ⟨⟨fun hsafe => hiff.mp (hcons.mp hsafe.1), fun hC => ?_⟩, fun hC => ?_⟩
  · have hlost := hiff.mpr hC
    exact ⟨hcons.mpr hlost, (hacc hlost).live_perm⟩
  · exact { life := amLifeInv_step (c := .call c) inv.life hst'
            covers := txCovers_step inv.covers hst', tracks := ht
            accounted := hacc (hiff.mpr hC) }

end SrsUE.Proofs.Rlc
