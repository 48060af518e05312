import SrsUE.Proofs.Rlc.AmPool

/-!
# `SrsUE.Proofs.Rlc.AmPoolRoom`: the buffers that are left in the pool

The pool has a fixed number of buffers, and no caller of `allocate` looks whether it got one.
`Fills` says how many buffers a piece of code takes more than it gives back, at the worst moment.
For a call this is `taken`, which the state before the call decides.

* `exhausted_step`: a call that gives back what it allocates does not exhaust the pool exactly when
  the containers leave room for what it takes.
* `amPool_run_iff`: a run neither loses a buffer nor exhausts the pool exactly when each of its
  calls gives back what it allocates and finds that room.
-/

set_option autoImplicit false

namespace SrsUE.Proofs.Rlc

open SrsUE.Lib
open SrsUE.Common (poolSize)
open SrsUE.Rlc

/-! ### The containers -/

/-- The number of buffers that the containers of the entity refer to. -/
def stored (st : RlcAm) : Nat :=
  st.txSdu.toList.length + st.rxSdu.toList.length + st.txSduQueue.length
    + (st.txWindow.values 1024).length + (st.rxWindow.values 1024).length
    + ((st.rxSegments.values 1024).map List.length).sum

section
variable {b b' b'' : AmBuffers} {st st' : RlcAm} {n : Nat}

/-- Dictionaries that are occupied at the same keys have equally many values. -/
theorem length_values_congr {β γ : Type} {d : Dict Nat β} {e : Dict Nat γ}
    (h : ∀ k, (d k).isSome = (e k).isSome) (n : Nat) :
    (d.values n).length = (e.values n).length := by
  induction n with
  | zero => rfl
  | succ n ih =>
    have hn := h n
    rw [Dict.values_succ, Dict.values_succ, List.length_append, List.length_append, ih]
    cases hd : d n <;> cases he : e n <;> simp_all

/-- Lists of equal lengths have equally many elements altogether. -/
theorem length_flatten_values {d : Dict Nat (List Nat)} {e : Dict Nat (List AmdRxPdu)}
    (h : ∀ k, (d k).map List.length = (e k).map List.length) (n : Nat) :
    (d.values n).flatten.length = ((e.values n).map List.length).sum := by
  rw [List.length_flatten]
  induction n with
  | zero => rfl
  | succ n ih =>
    have hn := h n
    rw [Dict.values_succ, Dict.values_succ, List.map_append, List.map_append, List.sum_append,
      List.sum_append, ih]
    cases hd : d n <;> cases he : e n <;> simp_all

/-- The entity holds a buffer for each of its contents. -/
theorem Tracks.length_held (h : Tracks st b) : b.held.length = stored st := by
  have hsdu : ∀ {β γ : Type} {x : Option β} {y : Option γ}, x.isSome = y.isSome →
      x.toList.length = y.toList.length := by
    intro β γ x y hxy
    cases x <;> cases y <;> simp_all
  rw [AmBuffers.held, stored]
  simp only [List.length_append]
  rw [hsdu h.txSdu, hsdu h.rxSdu, h.txSduQueue, length_values_congr h.txWindow,
    length_values_congr h.rxWindow, length_flatten_values h.rxSegments]

/-- Where every buffer is in one place, the numbers of buffers in the places add up. -/
theorem Accounted.obtained_eq (h : Accounted b) :
    b.obtained = b.deallocated.length + b.pdcp.length + b.held.length := by
  have hperm : (b.deallocated ++ b.pdcp ++ b.held).Perm (List.range b.obtained) := by
    rw [List.perm_iff_count]
    intro id
    rw [List.count_append, List.count_append, List.count_range]
    exact h id
  have hlen := hperm.length_eq
  rw [List.length_append, List.length_append, List.length_range] at hlen
  exact hlen.symm

/-- There is room in the pool when what the entity stores leaves it. -/
theorem hasRoom_iff (ht : Tracks st b) (h : Accounted b) :
    b.HasRoom n ↔ stored st + n ≤ poolSize := by
  have hobt := h.obtained_eq
  rw [AmBuffers.HasRoom, hobt, ht.length_held]
  omega

/-! ### What a piece of code takes -/

/-- From `b` to `b'` the code takes at most `n` buffers more than it has given back, and it does
take so many. -/
structure Fills (b b' : AmBuffers) (n : Nat) : Prop where
  mono : b.exhausted = true → b'.exhausted = true
  iff : b.exhausted = false → b.HasRoom 0 → (b'.exhausted = false ↔ b.HasRoom n)
  room : b.HasRoom 0 → b'.exhausted = false → b'.HasRoom 0

/-- Code that gives back some buffers, or none. -/
theorem Fills.of_le (hexh : b'.exhausted = b.exhausted) (hobt : b'.obtained = b.obtained)
    (hle : b.deallocated.length + b.pdcp.length ≤ b'.deallocated.length + b'.pdcp.length) :
    Fills b b' 0 where
  mono h := hexh.trans h
  iff h hroom := iff_of_true (hexh.trans h) hroom
  room hroom _ := by
    unfold AmBuffers.HasRoom at hroom ⊢
    omega

/-- Code that takes no buffer. -/
theorem Fills.refl (b : AmBuffers) : Fills b b 0 := .of_le rfl rfl (Nat.le_refl _)

/-- Code that takes nothing more may follow. -/
theorem Fills.trans (h : Fills b b' n) (h' : Fills b' b'' 0) : Fills b b'' n where
  mono hexh := h'.mono (h.mono hexh)
  iff hexh hroom := by
    rw [← h.iff hexh hroom]
    cases hexh' : b'.exhausted with
    | true => exact iff_of_false (fun hno => by rw [h'.mono hexh'] at hno; cases hno) nofun
    | false =>
      have hroom' := h.room hroom hexh'
      exact iff_of_true ((h'.iff hexh' hroom').mpr hroom') rfl
  room hroom hexh'' := by
    cases hexh' : b'.exhausted with
    | true => rw [h'.mono hexh'] at hexh''; cases hexh''
    | false => exact h'.room (h.room hroom hexh') hexh''

/-- `allocate` fails when the pool has no room for one more. -/
theorem exhausted_allocate (b : AmBuffers) :
    b.allocate.exhausted = (b.exhausted || !decide (b.HasRoom 1)) := rfl

/-- One `allocate` takes one buffer. -/
theorem fills_allocate (b : AmBuffers) : Fills b b.allocate 1 where
  mono h := by rw [exhausted_allocate, h, Bool.true_or]
  iff h _ := by rw [exhausted_allocate, h, Bool.false_or, Bool.not_eq_false', decide_eq_true_iff]
  room _ h := by
    rw [exhausted_allocate, Bool.or_eq_false_iff, Bool.not_eq_false', decide_eq_true_iff] at h
    exact h.2

/-- Two buffers are taken one after the other. -/
theorem fills_allocate_twice (b : AmBuffers) : Fills b b.allocate.allocate 2 where
  mono h := (fills_allocate _).mono ((fills_allocate b).mono h)
  iff h hroom := by
    have htwo : b.allocate.HasRoom 1 ↔ b.HasRoom 2 := Iff.rfl
    rw [exhausted_allocate, exhausted_allocate, h, Bool.false_or, Bool.or_eq_false_iff,
      Bool.not_eq_false', Bool.not_eq_false', decide_eq_true_iff, decide_eq_true_iff, htwo]
    unfold AmBuffers.HasRoom
    omega
  room _ h := (fills_allocate b.allocate).room ((fills_allocate b).room ‹_› (by
    rw [exhausted_allocate, Bool.or_eq_false_iff] at h
    exact h.1)) h

/-! ### The transmit side -/

/-- There is something to send. -/
def HasData (st : RlcAm) : Prop := st.txSdu.isSome ∨ st.txSduQueue ≠ []

instance : DecidablePred HasData := fun _ => inferInstanceAs (Decidable (_ ∨ _))

/-- There is nothing to send when both places of SDUs are empty. -/
theorem not_hasData_iff (st : RlcAm) :
    ¬HasData st ↔ st.txSdu.isNone = true ∧ st.txSduQueue.length = 0 := by
  rw [HasData, not_or, not_ne_iff, List.length_eq_zero_iff]
  simp

/-- A new PDU takes one buffer. -/
theorem fills_buildDataPdu (htx : b.txSdu.isSome = st.txSdu.isSome)
    (hq : b.txSduQueue.length = st.txSduQueue.length) (nofBytes : Nat) :
    Fills b (b.buildDataPdu st nofBytes) (if HasData st then 1 else 0) := by
  unfold AmBuffers.buildDataPdu
  by_cases hdata : HasData st
  · rw [if_pos hdata, if_neg fun hempty => (not_hasData_iff st).mpr hempty hdata]
    -- The first thing that is done is to take the buffer of the PDU.
    refine (fills_allocate b).trans ?_
    dsimp only
    split
    · exact .refl _
    · obtain ⟨freed, _, _, hframe⟩ :=
        (fillPdu_pulls (b := b.allocate) st.txSdu st.txSduQueue nofBytes htx hq).frame
      rw [hframe]
      refine .of_le rfl rfl ?_
      show b.deallocated.length + b.pdcp.length ≤ (freed ++ b.deallocated).length + b.pdcp.length
      rw [List.length_append]
      omega
  · rw [if_neg hdata, if_pos ((not_hasData_iff st).mp hdata)]
    exact .refl b

/-! ### The receive side -/

/-- Handing over an SDU makes room for the buffer of the next one. -/
theorem fills_deliver (hsdu : b.rxSdu.isSome = true) : Fills b b.deliver 0 := by
  obtain ⟨buf, hbuf⟩ := Option.isSome_iff_exists.mp hsdu
  -- The SDU that is handed over leaves the room that the next `rx_sdu` takes.
  have hand : Fills b { b with pdcp := b.rxSdu.toList ++ b.pdcp, rxSdu := none } 0 := by
    refine .of_le rfl rfl ?_
    show b.deallocated.length + b.pdcp.length
      ≤ b.deallocated.length + (b.rxSdu.toList ++ b.pdcp).length
    rw [List.length_append]
    omega
  have hone : ∀ n, AmBuffers.HasRoom { b with pdcp := b.rxSdu.toList ++ b.pdcp, rxSdu := none }
      (n + 1)
      ↔ b.HasRoom n := fun n => by
    simp only [AmBuffers.HasRoom, hbuf, Option.toList_some, List.length_append,
      List.length_singleton]
    omega
  have htake := fills_allocate { b with pdcp := b.rxSdu.toList ++ b.pdcp, rxSdu := none }
  exact
    { mono := fun h => htake.mono (hand.mono h)
      iff := fun h hroom => by
        rw [← hone 0]
        exact htake.iff h (hand.room hroom h)
      room := fun hroom h => by
        refine htake.room ?_ h
        have hzero := hand.room hroom
        simp only [AmBuffers.HasRoom, List.length_append] at hroom ⊢
        omega }

/-- A delivery gives away a buffer before it takes one. -/
theorem fills_deliver_iterate (n : Nat) (hsdu : b.rxSdu.isSome = true) :
    Fills b (AmBuffers.deliver^[n] b) 0 := by
  induction n generalizing b with
  | zero => exact .refl b
  | succ n ih => exact (fills_deliver hsdu).trans (ih rfl)

/-- A round of reassembly takes no buffer more than it gives away. -/
theorem fills_reassemblePdu (st : RlcAm) (pdu : AmdRxPdu) (hsdu : b.rxSdu.isSome = true) :
    Fills b (b.reassemblePdu st pdu) 0 ∧ (b.reassemblePdu st pdu).rxSdu.isSome = true := by
  have hlis := fills_deliver_iterate pdu.header.li.length hsdu
  obtain ⟨_, _, _, _, hframe, hkept⟩ := deliver_iterate_rxWindow pdu.header.li.length b
  have hsdu' : (AmBuffers.deliver^[pdu.header.li.length] b).rxSdu.isSome = true := by
    rw [hframe]
    exact hkept hsdu
  unfold AmBuffers.reassemblePdu
  have hfree : ∀ c : AmBuffers, Fills c
      { c.deallocate (c.rxWindow st.vrR).toList with rxWindow := c.rxWindow.erase st.vrR } 0 :=
        fun c => by
    refine .of_le rfl rfl ?_
    show c.deallocated.length + c.pdcp.length
      ≤ ((c.rxWindow st.vrR).toList ++ c.deallocated).length + c.pdcp.length
    rw [List.length_append]
    omega
  dsimp only
  split
  · exact ⟨(hlis.trans (fills_deliver hsdu')).trans (hfree _), rfl⟩
  · exact ⟨hlis.trans (hfree _), hsdu'⟩

/-- Nor does the loop. Induction on the rounds. -/
theorem fills_reassembleLoop (rounds : Nat) (st : RlcAm) (hsdu : b.rxSdu.isSome = true) :
    Fills b (AmBuffers.reassembleLoop rounds st b) 0 := by
  induction rounds generalizing st b with
  | zero => exact .refl b
  | succ rounds ih =>
    rw [AmBuffers.reassembleLoop]
    split
    · obtain ⟨hpdu, hsdu'⟩ := fills_reassemblePdu st _ hsdu
      exact hpdu.trans (ih _ hsdu')
    · exact .refl b

/-- A PDU that is kept takes a buffer, and the first one takes a buffer for the SDU as well. -/
theorem fills_handleDataPdu (hrx : b.rxSdu.isSome = st.rxSdu.isSome) (payload : Bytes)
    (header : AmdPduHeader) (hin : insideRxWindow st header.sn = true)
    (hnew : (st.rxWindow header.sn).isSome = false) :
    Fills b (b.handleDataPdu st payload header) (if st.rxSdu.isSome then 1 else 2) := by
  unfold AmBuffers.handleDataPdu AmBuffers.reassembleRxSdus
  simp only [hin, hnew, Bool.not_true, Bool.false_eq_true, if_false]
  -- The first PDU takes a buffer for `rx_sdu`, too.
  cases hsdu : st.rxSdu.isSome with
  | true =>
    have hsome : b.rxSdu.isSome = true := hrx.trans hsdu
    have hnone : b.rxSdu.isNone = false := by
      rw [← Option.not_isSome, hsome]
      rfl
    have hkept : Fills b { b.allocate with rxWindow := b.rxWindow.insert header.sn b.obtained } 1 :=
      { fills_allocate b with }
    rw [if_pos rfl]
    refine hkept.trans ?_
    simp only [AmBuffers.allocate, hnone, Bool.false_eq_true, if_false]
    exact fills_reassembleLoop 1024 _ hsome
  | false =>
    have hnone : b.rxSdu.isNone = true := by
      rw [← Option.not_isSome, hrx, hsdu]
      rfl
    have hkept : Fills b { b.allocate.allocate with
        rxWindow := b.rxWindow.insert header.sn b.obtained, rxSdu := some b.allocate.obtained } 2 :=
      { fills_allocate_twice b with }
    rw [if_neg Bool.false_ne_true]
    refine hkept.trans ?_
    have hloop := fills_reassembleLoop (b := { b.allocate.allocate with
      rxWindow := b.rxWindow.insert header.sn b.obtained, rxSdu := some b.allocate.obtained }) 1024
      { storeDataPdu st payload header with
        rxSdu := some ((storeDataPdu st payload header).rxSdu.getD []) } rfl
    simp only [AmBuffers.allocate, hnone, if_true]
    exact hloop

/-- ACKs take no buffer. Induction on the rounds. -/
theorem fills_handleAcks (status : StatusPdu) (rounds : Nat) :
    ∀ (i : Nat) (updateVtA : Bool) (st : RlcAm) (b : AmBuffers),
      Fills b (AmBuffers.handleAcks status rounds i updateVtA st b) 0 := by
  -- A PDU that is acknowledged only gives buffers back.
  have hack : ∀ (st : RlcAm) (b : AmBuffers) (i : Nat) (u : Bool), Fills b (b.ackPdu st i u) 0 := by
    intro st b i u
    unfold AmBuffers.ackPdu
    split
    · refine .of_le rfl rfl ?_
      show b.deallocated.length + b.pdcp.length
        ≤ ((b.txWindow i).toList ++ b.deallocated).length + b.pdcp.length
      rw [List.length_append]
      omega
    · exact .refl b
  induction rounds with
  | zero => exact fun _ _ _ b => .refl b
  | succ rounds ih =>
    intro i updateVtA st b
    rw [AmBuffers.handleAcks]
    split
    · refine Fills.trans ?_ (ih _ _ _ _)
      split
      · exact .refl b
      · exact hack st b i _
    · exact .refl b

/-- A reset takes no buffer. -/
theorem fills_reset (b : AmBuffers) : Fills b b.reset 0 := by
  refine .of_le rfl rfl ?_
  simp only [AmBuffers.reset, AmBuffers.deallocate, List.length_append]
  omega

end

/-! ### One call -/

/-- The buffers that a data PDU takes. -/
def takenByPdu (st : RlcAm) (header : AmdPduHeader) : Nat :=
  if !insideRxWindow st header.sn then 0
  else if header.rf then 1
  else if (st.rxWindow header.sn).isSome then 0
  else if st.rxSdu.isSome then 1 else 2

/-- The buffers that a call takes from the pool at the worst moment, as long as no segment completes
its PDU. -/
def taken (st : RlcAm) : AmCall → Nat
  | .writeSdu _ => 1
  | .readPdu now _ =>
    if (st.doStatus && !statusProhibited st now) = false ∧ st.retxQueue = [] ∧ HasData st then 1
    else 0
  | .writePdu _ payload =>
    match readDataPduHeader payload with
    | some (header, _) => if header.dc = .controlPdu then 0 else takenByPdu st header
    | none => 0
  | _ => 0

section
variable {b : AmBuffers} {st st' : RlcAm}

/-- `read_pdu` takes a buffer for a new PDU only. -/
theorem fills_readPdu {L : SrslteBit} {now n : Nat} (h : Tracks st b)
    (hread : (readPdu L st now n).isSome) :
    Fills b (b.readPdu st now n) (taken st (.readPdu now n)) := by
  obtain ⟨⟨st₁, out⟩, hread⟩ := Option.isSome_iff_exists.mp hread
  rw [taken]
  rcases readPdu_cases hread with ⟨hs, -, -⟩ | ⟨hs, hq, -⟩ | ⟨hs, hq, -, -⟩
  · rw [AmBuffers.readPdu, if_pos hs, if_neg fun hall => by rw [hs] at hall; cases hall.1]
    exact .refl b
  · rw [AmBuffers.readPdu, if_neg (by rw [hs]; exact Bool.false_ne_true),
      if_pos (List.length_pos_iff.mpr hq), if_neg fun hall => hq hall.2.1]
    exact .refl b
  · have hfills := fills_buildDataPdu h.txSdu h.txSduQueue n
    rw [AmBuffers.readPdu, if_neg (by rw [hs]; exact Bool.false_ne_true),
      if_neg (by rw [hq]; exact Nat.lt_irrefl 0)]
    simpa only [hs, hq, true_and] using hfills

/-- A segment takes one buffer when it does not complete its PDU. -/
theorem fills_handleDataPduSegment (payload : Bytes) {header : AmdPduHeader}
    (hin : insideRxWindow st header.sn = true)
    (hopen : ∀ segments, st.rxSegments header.sn = some segments →
      segmentsComplete 0 (insertSegment { header := header, buf := payload } segments) = false) :
    Fills b (b.handleDataPduSegment st payload header) 1 := by
  cases hseg : st.rxSegments header.sn with
  | none =>
    simp only [AmBuffers.handleDataPduSegment, hin, hseg, Bool.not_true, Bool.false_eq_true,
      if_false]
    exact { fills_allocate b with }
  | some segments =>
    simp only [AmBuffers.handleDataPduSegment, storeSegment_next hin hseg, addSegmentAndCheck_call,
      hin, hseg, hopen segments hseg, Bool.not_true, Bool.false_eq_true, if_false]
    exact { fills_allocate b with }

/-- `write_pdu` takes the buffers that its PDU needs. -/
theorem fills_writePdu {L : SrslteBit} {now : Nat} {payload : Bytes} (h : Tracks st b)
    (hwrite : writePdu L st now payload = some st')
    (hgives : GivesBack st (.writePdu now payload)) :
    Fills b (b.writePdu L st payload) (taken st (.writePdu now payload)) := by
  cases payload with
  | nil => exact .refl b
  | cons b0 rest =>
    rw [taken]
    cases hctrl : isControlPdu b0 with
    | true =>
      rw [writePdu, if_pos hctrl] at hwrite
      obtain ⟨status, hread, -⟩ := Option.map_eq_some_iff.mp hwrite
      have hb : b.writePdu L st (b0 :: rest) = b.handleStatus st status := by
        simp only [AmBuffers.writePdu, if_pos hctrl, hread]
      rw [hb]
      have hacks := fills_handleAcks status 1024 st.vtA true
        { st with pollRetxTimeout := st.pollRetxTimeout.reset } b
      split
      · rename_i header data hread'
        cases hdc : header.dc with
        | controlPdu =>
          rw [if_pos rfl]
          exact hacks
        | dataPdu =>
          rw [(isControlPdu_of_read hread').mpr hdc] at hctrl
          cases hctrl
      · exact hacks
    | false =>
      rw [writePdu, if_neg (by simp [hctrl])] at hwrite
      obtain ⟨⟨header, data⟩, hread, -⟩ := Option.bind_eq_some_iff.mp hwrite
      have hdc := (isControlPdu_of_read hread).mp hctrl
      simp only [AmBuffers.writePdu, hctrl, hread, Bool.false_eq_true, if_false, hdc, reduceCtorEq,
        takenByPdu]
      cases hin : insideRxWindow st header.sn with
      | false =>
        -- Outside the window both kinds of PDUs are discarded.
        simp only [AmBuffers.handleDataPduSegment, AmBuffers.handleDataPdu, hin, Bool.not_false,
          if_true, ite_self]
        exact .refl b
      | true =>
        simp only [Bool.not_true, Bool.false_eq_true, if_false]
        cases hrf : header.rf with
        | true =>
          exact fills_handleDataPduSegment data hin fun segments hseg =>
            hgives header data segments hread hdc hrf hin hseg
        | false =>
          cases hnew : (st.rxWindow header.sn).isSome with
          | true =>
            simp only [AmBuffers.handleDataPdu, hin, hnew, Bool.not_true, Bool.false_eq_true,
              if_false, if_true]
            exact .refl b
          | false => exact fills_handleDataPdu h.rxSdu data header hin hnew

/-- Every call takes the buffers that are listed for it. -/
theorem fills_step {L : SrslteBit} {c : AmCall} (h : Tracks st b) (hstep : amStep L st c = some st')
    (hgives : GivesBack st c) : Fills b (amBuffersStep L st b c) (taken st c) := by
  cases c with
  | writeSdu sdu => exact { fills_allocate b with }
  | readPdu now n =>
    refine fills_readPdu (L := L) h ?_
    obtain ⟨r, hread, -⟩ := Option.map_eq_some_iff.mp hstep
    rw [hread]
    rfl
  | writePdu now payload => exact fills_writePdu h hstep hgives
  | getBufferState now => exact .refl b
  | getTotalBufferState now => exact .refl b
  | reset => exact fills_reset b

/-- A call that gives back what it allocates does not exhaust the pool exactly when the containers
leave room for what it takes. -/
theorem exhausted_step {L : SrslteBit} {c : AmCall} (ht : Tracks st b) (h : Accounted b)
    (hexh : b.exhausted = false) (hroom : b.HasRoom 0) (hstep : amStep L st c = some st')
    (hgives : GivesBack st c) :
    ((amBuffersStep L st b c).exhausted = false ↔ stored st + taken st c ≤ poolSize) ∧
      ((amBuffersStep L st b c).exhausted = false → (amBuffersStep L st b c).HasRoom 0) := by
  have hfills := fills_step ht hstep hgives
  exact ⟨(hfills.iff hexh hroom).trans (hasRoom_iff ht h), hfills.room hroom⟩

end

/-! ### Runs -/

/-- The call gives back what it allocates, and there are buffers for it in the pool. -/
structure Provided (st : RlcAm) (c : AmCall) : Prop where
  gives : GivesBack st c
  room : stored st + taken st c ≤ poolSize

/-- What a run keeps as long as no buffer is lost and the pool is not exhausted. -/
structure AmRoomInv (s : RlcAm × AmBuffers) : Prop extends AmPoolInv s where
  notExhausted : s.2.exhausted = false
  hasRoom : s.2.HasRoom 0

/-- A configured entity has exhausted nothing. -/
theorem amRoomInv_init (cnfg : AmConfig) : AmRoomInv (configure {} cnfg, {}) where
  toAmPoolInv := amPoolInv_init cnfg
  notExhausted := rfl
  hasRoom := Nat.zero_le _

/-- What holds of the buffers after a call: each one is in one place, those that are live are in the
containers, and every `allocate` so far has got one. -/
structure PoolKept (b : AmBuffers) : Prop where
  conserved : Conserved b
  live : (live b).Perm b.held
  notExhausted : b.exhausted = false

/-- A call keeps the pool exactly when it is provided for: it gives back what it allocates, and
there are buffers for it. -/
theorem poolKept_iff {L : SrslteBit} {s s' : RlcAm × AmBuffers} {c : AmCall} (inv : AmRoomInv s)
    (hstep : amPoolStep L s c = some s') :
    (PoolKept s'.2 ↔ Provided s.1 c) ∧ (Provided s.1 c → AmRoomInv s') := by
  obtain ⟨hiff, hkeeps⟩ := amPoolStep_iff inv.toAmPoolInv hstep
  obtain ⟨st', hst', rfl⟩ := Option.map_eq_some_iff.mp hstep
  have hexh := exhausted_step inv.tracks inv.accounted inv.notExhausted inv.hasRoom hst'
  constructor
  · constructor
    · intro hkept
      have hgives := hiff.mp ⟨hkept.conserved, hkept.live⟩
      exact ⟨hgives, (hexh hgives).1.mp hkept.notExhausted⟩
    · intro hprov
      obtain ⟨hcons, hlive⟩ := hiff.mpr hprov.gives
      exact ⟨hcons, hlive, (hexh hprov.gives).1.mpr hprov.room⟩
  · intro hprov
    have hnot := (hexh hprov.gives).1.mpr hprov.room
    exact { toAmPoolInv := hkeeps hprov.gives, notExhausted := hnot
            hasRoom := (hexh hprov.gives).2 hnot }

/-- A run conserves the buffers of the pool, its live buffers are those in the containers, and the
pool is never exhausted, exactly when every call gives back what it allocates and the containers
leave it the buffers that it takes. -/
theorem amPool_run_iff (L : SrslteBit) (cnfg : AmConfig) (calls : List AmCall) :
    Along (amPoolStep L) (fun _ _ s' => PoolKept s'.2) (configure {} cnfg, {}) calls
      ↔ Along (amPoolStep L) (fun s c _ => Provided s.1 c) (configure {} cnfg, {}) calls :=
  along_iff (I := AmRoomInv) (K := fun _ => True)
    (fun _ _ _ inv _ hstep => (poolKept_iff inv hstep).1)
    (fun _ _ _ inv _ hstep hC => (poolKept_iff inv hstep).2 hC) (fun _ _ => trivial)
    (amRoomInv_init cnfg)

/-- A grant of two bytes for a new PDU. The buffer 1 is in no place. -/
theorem amPool_run_smallGrant :
    ∃ s, runTo (amPoolStep msbFirst) (configure {} {}, {}) [.writeSdu [1], .readPdu 0 2] = some s ∧
      1 < s.2.obtained ∧ census s.2 1 = 0 ∧ ¬Conserved s.2 := by
  have hcensus : census (amBuffersStep msbFirst { configure {} {} with txSduQueue := [[1]] }
      (amBuffersStep msbFirst (configure {} {}) {} (.writeSdu [1])) (.readPdu 0 2)) 1 = 0 := by
    decide +kernel
  refine ⟨_, rfl, by decide, hcensus, fun h => ?_⟩
  exact absurd (hcensus.symm.trans (h 1 (by decide))) (by decide)

end SrsUE.Proofs.Rlc
