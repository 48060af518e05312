import SrsUE.Proofs.Rlc.AmStatusPdu
import SrsUE.Proofs.Rlc.DescribedSdus

/-!
# `SrsUE.Proofs.Rlc.LengthIndicators`: the lengths that fit eleven bits

`build_data_pdu` of both entities stores the length of a piece as it is, and the header writer keeps
eleven bits of it. No check stands between the two.

* `amGrant_iff` and `umGrant_iff`: what the peer reads out of the PDU for one grant.
* `lis_kept_iff`: the same for runs of both entities.
-/

set_option autoImplicit false

namespace SrsUE.Proofs.Rlc

open SrsUE.Lib
open SrsUE.Rlc

/-! ### Runs of `rlc_am` -/

/-- The SDUs that are not sent yet. -/
def amPending (st : RlcAm) : List Bytes := st.txSdu.toList ++ st.txSduQueue

/-- `read_pdu` comes to `build_data_pdu`. -/
def AmBuilds (st : RlcAm) (now : Nat) : Prop :=
  (st.doStatus && !statusProhibited st now) = false ∧ st.retxQueue = []

/-- The length indicators that the peer reads are the lengths of the pieces. -/
def AmLisKept (st : RlcAm) : AmCall → Prop
  | .readPdu now n => AmBuilds st now → ∀ pdu, (buildDataPdu st now n).2 = some pdu →
      ∃ header, readDataPduHeader (pduBytes (some pdu)) = some (header, pdu.2) ∧
        LisKept (amPending st) header.li pdu.2
  | _ => True

/-- The condition on a grant and the SDUs that wait for it. -/
def AmLongSdusLast (st : RlcAm) : AmCall → Prop
  | .readPdu now n => AmBuilds st now → LongSdusLast 2 1 n (amPending st)
  | _ => True

/-- An SDU fits its buffer, and a grant is a `uint32_t`. -/
def AmCallFits : AmCall → Prop
  | .writeSdu sdu => sdu.length ≤ msgRoom
  | .readPdu _ n => n < 2 ^ 32
  | _ => True

instance : DecidablePred AmCallFits
  | .writeSdu sdu => inferInstanceAs (Decidable (sdu.length ≤ msgRoom))
  | .readPdu _ n => inferInstanceAs (Decidable (n < 2 ^ 32))
  | .writePdu _ _ => isTrue trivial
  | .getBufferState _ => isTrue trivial
  | .getTotalBufferState _ => isTrue trivial
  | .reset => isTrue trivial

/-- The eleven bits of the length indicators decide. -/
theorem lisKept_wire {sdus p : List Bytes} {hb c : Nat} {n : Int} {li : List Nat} {data : Bytes}
    (h : Described hb c n sdus p li data) :
    LisKept sdus (li.map (· % 2048)) data ↔ LongSdusLast hb c n sdus := by
  rw [← h.short_iff]
  have hkept := h.kept
  constructor
  · intro hwire l hl
    have hsame : li.map (· % 2048) = li := by
      rw [hwire.lis, List.length_map]
      exact hkept.lis.symm
    have hmem := List.map_eq_map_iff.mp (hsame.trans (List.map_id li).symm) l hl
    simp only [id_eq] at hmem
    omega
  · intro hshort
    have hsame : li.map (· % 2048) = li := by
      rw [List.map_congr_left fun l hl => Nat.mod_eq_of_lt (hshort l hl), List.map_id']
    rw [hsame]
    exact hkept

/-- A grant within the header has no SDU. -/
theorem longSdusLast_of_le {sdus : List Bytes} {hb c : Nat} {n : Int} (h : n ≤ hb) :
    LongSdusLast hb c n sdus := by
  intro xs x y ys _ _
  omega

/-- What comes of a grant: the peer reads the indicators of the PDU back, each in eleven bits. -/
theorem amBuildDataPdu_read {st : RlcAm} {now n : Nat}
    (hq : st.txSduQueue.length ≤ txSduQueueCapacity)
    (hne : amPending st ≠ []) (hn : 2 < n) :
    ∃ pdu header, (buildDataPdu st now n).2 = some pdu ∧
      pdu.2 = (fillPdu st.txSdu st.txSduQueue n).pdu ∧
      readDataPduHeader (pduBytes (some pdu)) = some (header, pdu.2) ∧
      header.li = (fillPdu st.txSdu st.txSduQueue n).li.map (· % 2048) := by
  cases hpdu : (buildDataPdu st now n).2 with
  | none =>
    -- There is something to send and the grant is large enough, so a PDU is built.
    exfalso
    revert hpdu
    unfold buildDataPdu
    rw [if_neg, if_neg]
    · exact fun h => by cases h
    · simp only [amPackedLength_data, List.length_nil]
      omega
    · rintro ⟨htx, hlen⟩
      refine hne ?_
      rw [amPending, Option.isNone_iff_eq_none.mp htx, List.eq_nil_of_length_eq_zero hlen]
      rfl
  | some pdu =>
    obtain ⟨header, data⟩ := pdu
    obtain ⟨-, -, hdc, -, -, -, -, -, hli, hdata⟩ := buildDataPdu_pdu hpdu
    have hcount := (fillPdu_fits st.txSdu st.txSduQueue hn).lis
    unfold txSduQueueCapacity at hq
    refine ⟨_, _, rfl, hdata, readDataPduHeader_write header hdc (by rw [hli]; omega) data, ?_⟩
    rw [← hli]
    rfl

/-- One grant. -/
theorem amGrant_iff {st : RlcAm} (hq : st.txSduQueue.length ≤ txSduQueueCapacity) (now n : Nat) :
    (∀ pdu, (buildDataPdu st now n).2 = some pdu →
      ∃ header, readDataPduHeader (pduBytes (some pdu)) = some (header, pdu.2) ∧
        LisKept (amPending st) header.li pdu.2) ↔ LongSdusLast 2 1 n (amPending st) := by
  by_cases hbuilt : amPending st ≠ [] ∧ 2 < n
  · obtain ⟨hne, hn⟩ := hbuilt
    obtain ⟨pdu, header, hpdu, hdata, hread, hli⟩ := amBuildDataPdu_read hq hne hn
    obtain ⟨p, hdesc⟩ := amFillPdu_described hne hn
    have hwire := lisKept_wire hdesc
    rw [← hli, ← hdata] at hwire
    refine Iff.trans ⟨fun h => ?_, fun h pdu' hpdu' => ?_⟩ hwire
    · obtain ⟨header', hread', hkept⟩ := h pdu hpdu
      obtain ⟨rfl, -⟩ := Prod.mk.inj (Option.some.inj (hread.symm.trans hread'))
      exact hkept
    · obtain rfl := Option.some.inj (hpdu.symm.trans hpdu')
      exact ⟨header, hread, h⟩
  · -- No PDU is built.
    have hnone : ∀ pdu, (buildDataPdu st now n).2 ≠ some pdu := by
      intro pdu hpdu
      obtain ⟨hne, hn, -⟩ := buildDataPdu_pdu hpdu
      refine hbuilt ⟨fun hnil => hne ?_, hn⟩
      obtain ⟨htx, hqueue⟩ := List.append_eq_nil_iff.mp hnil
      rw [hqueue]
      exact ⟨by simpa using htx, rfl⟩
    refine ⟨fun _ => ?_, fun _ pdu hpdu => absurd hpdu (hnone pdu)⟩
    by_cases hne : amPending st = []
    · rw [hne]
      intro xs x y ys hnil
      exact absurd hnil (by simp)
    · have hn : ¬2 < n := fun hn => hbuilt ⟨hne, hn⟩
      exact longSdusLast_of_le (by omega)

/-- A call of the AM entity writes the length indicators right exactly when the long SDUs are last.
-/
theorem amLisKept_iff {st : RlcAm} (hq : st.txSduQueue.length ≤ txSduQueueCapacity) (c : AmCall) :
    AmLisKept st c ↔ AmLongSdusLast st c := by
  cases c with
  | readPdu now n => exact imp_congr_right fun _ => amGrant_iff hq now n
  | writeSdu sdu => exact Iff.rfl
  | writePdu now payload => exact Iff.rfl
  | getBufferState now => exact Iff.rfl
  | getTotalBufferState now => exact Iff.rfl
  | reset => exact Iff.rfl

/-- No call puts more into the queue than it holds. -/
theorem amStep_queue {L : SrslteBit} {st st' : RlcAm} {c : AmCall}
    (hq : st.txSduQueue.length ≤ txSduQueueCapacity) (hstep : amStep L st c = some st') :
    st'.txSduQueue.length ≤ txSduQueueCapacity := by
  have htx := amStep_txStep hstep
  -- Only `write_sdu` adds to the queue, and it asks for room.
  cases htx with
  | writeSdu =>
    obtain ⟨hlt, -⟩ := writeSdu_cases hstep
    rw [List.length_append, List.length_singleton]
    exact hlt
  | readPdu hread =>
    rcases readPdu_cases hread with ⟨-, rfl, -⟩ | ⟨-, -, retx, tx, rest, -, hst⟩ | ⟨-, -, rfl, -⟩
    · rw [(buildStatusPdu_txSame L st _ _).txSduQueue]
      exact hq
    · rcases hst with ⟨-, rfl, -⟩ | ⟨-, -, rfl, -⟩
      · obtain ⟨_, hf⟩ := buildSegment_frame { st with retxQueue := retx :: rest } _ tx retx rest
        rw [hf]
        exact hq
      · obtain ⟨_, _, _, _, _, hf⟩ :=
          retransmitPdu_frame { st with retxQueue := retx :: rest } _ tx retx rest
        rw [hf]
        exact hq
    · rename_i now n _
      cases hpdu : (buildDataPdu st now n).2 with
      | none =>
        rw [buildDataPdu_none hpdu]
        exact hq
      | some pdu =>
        obtain ⟨_, _, _, _, hf⟩ := buildDataPdu_frame hpdu
        rw [hf]
        exact Nat.le_trans (pullSdus_queue_suffix st.txSduQueue _).length_le hq
  | status hcontrol hread =>
    refine handleAcks_inv (P := fun s => s.txSduQueue.length ≤ txSduQueueCapacity) ?_ ?_ 1024 st.vtA
      true hq
    · intro i s n _ h
      obtain ⟨_, hf⟩ := queueNack_frame i s n
      rw [hf]
      exact h
    · intro i upd s h
      obtain ⟨_, _, _, hf⟩ := ackPdu_frame i upd s
      rw [hf]
      exact h
  | receive _ _ hsame =>
    rw [hsame.txSduQueue]
    exact hq
  | reset => exact Nat.zero_le _

/-! ### Runs of `rlc_um` -/

/-- The length indicators that the peer reads are the lengths of the pieces. -/
def UmLisKept (s : UmLog) : UmCall → Prop
  | .readPdu n => ∀ pdu, (Um.buildDataPdu s.st n).2 = some pdu →
      ∃ header, Um.readDataPduHeader s.st.txSnFieldLength (Um.pduBytes (some pdu))
          = some (header, pdu.2.pdu) ∧
        LisKept (umPending s.st) header.li pdu.2.pdu
  | .writeSdu _ => True

/-- The condition on a grant and the SDUs that wait for it. The grant is compared as an `int`. -/
def UmLongSdusLast (s : UmLog) : UmCall → Prop
  | .readPdu n => LongSdusLast (Um.fixedLength s.st.txSnFieldLength) 0 (toI32 n) (umPending s.st)
  | .writeSdu _ => True

/-- An SDU fits its buffer, and a grant is a `uint32_t`. -/
def UmCallFits : UmCall → Prop
  | .writeSdu sdu => sdu.length ≤ msgRoom
  | .readPdu n => n < 2 ^ 32

instance : DecidablePred UmCallFits
  | .writeSdu sdu => inferInstanceAs (Decidable (sdu.length ≤ msgRoom))
  | .readPdu n => inferInstanceAs (Decidable (n < 2 ^ 32))

/-- The states that are reached: nothing in them is larger than its type or its queue. -/
structure UmSized (st : Um.RlcUm) : Prop where
  sdus : ∀ sdu ∈ umPending st, sdu.length ≤ msgRoom
  queue : st.txSduQueue.length ≤ txSduQueueCapacity
  sn : st.vtUs < 2 * umWidth st.txSnFieldLength
  txMod : st.txMod = 2 * umWidth st.txSnFieldLength

section
variable {st : Um.RlcUm} {n : Nat}

/-- A PDU is built when there is an SDU, and a grant that holds a byte of it. -/
theorem umBuildDataPdu_eq (hne : umPending st ≠ []) (hn : n < 2 ^ 31)
    (hgt : Um.fixedLength st.txSnFieldLength < n) :
    ∃ fi, (Um.buildDataPdu st n).2
      = some ({ fi := fi, snSize := st.txSnFieldLength, sn := st.vtUs
                li := (Um.fillPdu st.txSnFieldLength st.txSdu st.txSduQueue n).li },
          Um.fillPdu st.txSnFieldLength st.txSdu st.txSduQueue n) := by
  obtain ⟨hempty, hspace⟩ := umBuildDataPdu_guards hne hn hgt
  unfold Um.buildDataPdu
  rw [if_neg hempty, if_neg hspace]
  exact ⟨_, rfl⟩

/-- One grant. -/
theorem umGrant_iff (h : UmSized st) (hn : n < 2 ^ 32) :
    (∀ pdu, (Um.buildDataPdu st n).2 = some pdu →
      ∃ header, Um.readDataPduHeader st.txSnFieldLength (Um.pduBytes (some pdu))
          = some (header, pdu.2.pdu) ∧ LisKept (umPending st) header.li pdu.2.pdu) ↔
      LongSdusLast (Um.fixedLength st.txSnFieldLength) 0 (toI32 n) (umPending st) := by
  by_cases hnone : umPending st = [] ∨ 2 ^ 31 ≤ n ∨ n ≤ Um.fixedLength st.txSnFieldLength
  · obtain ⟨hbuild, -⟩ := umBuildDataPdu_none hn hnone
    rw [hbuild]
    refine ⟨fun _ => ?_, fun _ pdu hpdu => by cases hpdu⟩
    rcases hnone with hne | hlarge
    · rw [hne]
      intro xs x y ys hnil
      exact absurd hnil (by simp)
    · refine longSdusLast_of_le ?_
      rw [toI32_grant hn]
      split <;> omega
  · simp only [not_or, Nat.not_le] at hnone
    obtain ⟨hne, hlt, hgt⟩ := hnone
    obtain ⟨fi, hpdu⟩ := umBuildDataPdu_eq hne hlt hgt
    have hsize : ∀ sdu ∈ umPending st, sdu.length < 2 ^ 31 := by
      intro sdu hsdu
      have := h.sdus sdu hsdu
      unfold msgRoom maxBufferSizeBytes bufferHeaderOffset at this
      omega
    obtain ⟨p, hdesc⟩ := umFillPdu_described hne hsize hlt hgt
    have hgrant : toI32 n = n := by
      rw [toI32_of_mem (by omega) (by omega)]
    rw [hgrant]
    refine Iff.trans ?_ (lisKept_wire hdesc)
    -- Each indicator describes another SDU of the queue or the rest of one.
    have hcount : (Um.fillPdu st.txSnFieldLength st.txSdu st.txSduQueue n).li.length ≤ 512 := by
      obtain ⟨x, rest, hsplit⟩ := hdesc.split
      have hlen := congrArg List.length hsplit
      have hfilter := List.length_filter_le (fun s : Bytes => !s.isEmpty) p
      have htx : st.txSdu.toList.length ≤ 1 := by
        cases st.txSdu <;> simp
      have hq := h.queue
      unfold txSduQueueCapacity at hq
      rw [hdesc.li, List.length_map, nonEmpty]
      simp only [List.length_append, List.length_cons] at hlen
      omega
    have hread := @umReadDataPduHeader_wire
      { fi := fi, snSize := st.txSnFieldLength, sn := st.vtUs
        li := (Um.fillPdu st.txSnFieldLength st.txSdu st.txSduQueue n).li } h.sn hcount
      (Um.fillPdu st.txSnFieldLength st.txSdu st.txSduQueue n).pdu
    constructor
    · intro hkept
      obtain ⟨header, hheader, hlis⟩ := hkept _ hpdu
      obtain ⟨rfl, -⟩ := Prod.mk.inj (Option.some.inj (hread.symm.trans hheader))
      exact hlis
    · intro hlis pdu hpdu'
      obtain rfl := Option.some.inj (hpdu.symm.trans hpdu')
      exact ⟨_, hread, hlis⟩

/-- The rest of an SDU is no longer than the SDU. -/
theorem umAddSdu_rest {B : Nat} (b : Um.PduBuild) {sdu : Bytes} (hsdu : sdu.length ≤ B) :
    ∀ r ∈ (b.addSdu sdu).txSdu.toList, r.length ≤ B := by
  intro r hr
  simp only [Um.PduBuild.addSdu] at hr
  generalize (if sdu.length ≤ toU32 (b.pduSpace - b.headLen) then sdu.length
    else toU32 (b.pduSpace - b.headLen)) = toMove at hr
  split at hr
  · simp at hr
  · rw [Option.toList_some, List.mem_singleton] at hr
    rw [hr, List.length_drop]
    omega

/-- What is left of an SDU is no longer than it was, and the queue only loses SDUs. -/
theorem umPullSdus_rest {B : Nat} (snSize : UmdSnSize) (queue : List Bytes) (b : Um.PduBuild)
    (hq : ∀ sdu ∈ queue, sdu.length ≤ B) (hb : ∀ sdu ∈ b.txSdu.toList, sdu.length ≤ B) :
    (∀ sdu ∈ (Um.pullSdus snSize queue b).txSdu.toList, sdu.length ≤ B) ∧
      (Um.pullSdus snSize queue b).queue <:+ queue := by
  induction queue generalizing b with
  | nil => exact ⟨hb, List.suffix_refl []⟩
  | cons sdu queue ih =>
    rw [Um.pullSdus]
    split
    · obtain ⟨hsdu, hrest⟩ := List.forall_mem_cons.mp hq
      obtain ⟨htx, hsuffix⟩ := ih _ hrest (umAddSdu_rest _ hsdu)
      exact ⟨htx, hsuffix.trans (List.suffix_cons sdu queue)⟩
    · exact ⟨hb, List.suffix_refl _⟩

/-- A new PDU leaves SDUs of the size they had. -/
theorem UmSized.buildDataPdu (h : UmSized st) : UmSized (Um.buildDataPdu st n).1 := by
  have hsdus := h.sdus
  unfold Um.buildDataPdu
  split
  · exact h
  · split
    · exact h
    · have hq : ∀ sdu ∈ st.txSduQueue, sdu.length ≤ msgRoom := fun sdu hsdu =>
        hsdus sdu (List.mem_append_right _ hsdu)
      -- What is left of an SDU is shorter than it was.
      have hrest : (∀ sdu ∈ (Um.fillPdu st.txSnFieldLength st.txSdu st.txSduQueue n).txSdu.toList,
            sdu.length ≤ msgRoom) ∧
          (Um.fillPdu st.txSnFieldLength st.txSdu st.txSduQueue n).queue <:+ st.txSduQueue := by
        unfold Um.fillPdu
        refine umPullSdus_rest _ _ _ hq ?_
        cases htx : st.txSdu with
        | none => exact fun sdu hsdu => by cases hsdu
        | some sdu =>
          exact umAddSdu_rest _ (hsdus sdu (by rw [umPending, htx]; exact List.mem_cons_self ..))
      obtain ⟨htx, hqueue⟩ := hrest
      refine { sdus := ?_, queue := Nat.le_trans hqueue.length_le h.queue, sn := ?_
               txMod := h.txMod }
      · intro sdu hsdu
        rcases List.mem_append.mp hsdu with hsdu | hsdu
        · exact htx sdu hsdu
        · exact hq sdu (hqueue.subset hsdu)
      · show (st.vtUs + 1) % st.txMod < 2 * umWidth st.txSnFieldLength
        rw [h.txMod]
        refine Nat.mod_lt _ ?_
        cases st.txSnFieldLength <;> decide

/-- So does every call. -/
theorem umStep_sized {s s' : UmLog} {c : UmCall} (h : UmSized s.st) (hc : UmCallFits c)
    (hstep : umStep s c = some s') : UmSized s'.st := by
  cases c with
  | writeSdu sdu =>
    obtain ⟨st', hwrite, rfl⟩ := Option.map_eq_some_iff.mp hstep
    unfold Um.writeSdu at hwrite
    split at hwrite
    · rename_i hlt
      obtain rfl := Option.some.inj hwrite
      -- The new SDU is in the queue and has to fit, too.
      refine { sdus := ?_, queue := ?_, sn := h.sn, txMod := h.txMod }
      · intro x hx
        rcases List.mem_append.mp hx with hx | hx
        · exact h.sdus x (List.mem_append_left _ hx)
        · rcases List.mem_append.mp hx with hx | hx
          · exact h.sdus x (List.mem_append_right _ hx)
          · rw [List.mem_singleton.mp hx]
            exact hc
      · show (s.st.txSduQueue ++ [sdu]).length ≤ _
        rw [List.length_append]
        exact hlt
    · cases hwrite
  | readPdu n =>
    obtain rfl := Option.some.inj hstep
    exact h.buildDataPdu

/-- A call of the UM entity writes the length indicators right exactly when the long SDUs are last.
-/
theorem umLisKept_iff {s : UmLog} (h : UmSized s.st) {c : UmCall} (hc : UmCallFits c) :
    UmLisKept s c ↔ UmLongSdusLast s c := by
  cases c with
  | writeSdu sdu => exact Iff.rfl
  | readPdu n => exact umGrant_iff h hc

/-- There are no SDUs at first. -/
theorem umSized_configure (snSize : UmdSnSize) : UmSized (Um.configure snSize) where
  sdus := fun sdu hsdu => by cases hsdu
  queue := Nat.zero_le _
  sn := by cases snSize <;> decide
  txMod := by cases snSize <;> rfl

end

/-! ### Both entities -/

/-- In every run of either entity, the length indicators that the peer reads are those of the pieces
exactly when no grant reaches past an SDU of 2048 bytes or more, or the rest of one, to another
SDU. -/
theorem lis_kept_iff (L : SrslteBit) (cnfg : AmConfig) (snSize : UmdSnSize) {amCalls : List AmCall}
    {umCalls : List UmCall} (ham : ∀ c ∈ amCalls, AmCallFits c)
    (hum : ∀ c ∈ umCalls, UmCallFits c) :
    (Along (amStep L) (fun st c _ => AmLisKept st c) (configure {} cnfg) amCalls ↔
      Along (amStep L) (fun st c _ => AmLongSdusLast st c) (configure {} cnfg) amCalls) ∧
    (Along umStep (fun s c _ => UmLisKept s c) { st := Um.configure snSize } umCalls ↔
      Along umStep (fun s c _ => UmLongSdusLast s c) { st := Um.configure snSize } umCalls) := by
  constructor
  · exact along_iff (I := fun st => st.txSduQueue.length ≤ txSduQueueCapacity)
      (fun st c _ hq _ _ => amLisKept_iff hq c) (fun st c st' hq _ hstep _ => amStep_queue hq hstep)
      ham (Nat.zero_le _)
  · exact along_iff (K := UmCallFits) (I := fun s => UmSized s.st)
      (fun s c _ h hc _ => umLisKept_iff h hc)
      (fun s c s' h hc hstep _ => umStep_sized h hc hstep) hum (umSized_configure snSize)

/-- Short SDUs are no matter. -/
theorem longSdusLast_of_short {hb c : Nat} {n : Int} {sdus : List Bytes}
    (h : ∀ sdu ∈ sdus, sdu.length < 2048) : LongSdusLast hb c n sdus := by
  intro xs x y ys hsdus hlong
  have := h x (by rw [hsdus]; simp)
  omega

/-- Two SDUs in one PDU of each entity. -/
theorem lis_kept_iff_two :
    Along (amStep msbFirst) (fun st c _ => AmLisKept st c) (configure {} {})
      [.writeSdu [1, 2, 3], .writeSdu [4], .readPdu 0 10] ∧
    Along umStep (fun s c _ => UmLisKept s c) { st := Um.configure .size5Bits }
      [.writeSdu [1, 2, 3], .writeSdu [4], .readPdu 10] := by
  have ham : ∀ c ∈ [AmCall.writeSdu [1, 2, 3], .writeSdu [4], .readPdu 0 10], AmCallFits c := by
    intro c hc
    simp only [List.mem_cons, List.not_mem_nil, or_false] at hc
    rcases hc with rfl | rfl | rfl <;> decide
  have hum : ∀ c ∈ [UmCall.writeSdu [1, 2, 3], .writeSdu [4], .readPdu 10], UmCallFits c := by
    intro c hc
    simp only [List.mem_cons, List.not_mem_nil, or_false] at hc
    rcases hc with rfl | rfl | rfl <;> decide
  have hiff := lis_kept_iff msbFirst {} .size5Bits ham hum
  constructor
  · refine hiff.1.mpr fun s hs => ?_
    obtain rfl := Option.some.inj hs
    refine ⟨trivial, fun s hs => ?_⟩
    obtain rfl := Option.some.inj hs
    exact ⟨trivial, fun s _ => ⟨fun _ => longSdusLast_of_short (by decide), trivial⟩⟩
  · refine hiff.2.mpr fun s hs => ?_
    obtain rfl := Option.some.inj hs
    refine ⟨trivial, fun s hs => ?_⟩
    obtain rfl := Option.some.inj hs
    exact ⟨trivial, fun s _ => ⟨longSdusLast_of_short (by decide), trivial⟩⟩

/-- A grant of 3000 bytes for an SDU of 2048 bytes and one of one byte. -/
theorem li_2048_lost :
    ¬Along (amStep msbFirst) (fun st c _ => AmLisKept st c) (configure {} {})
      [.writeSdu (List.replicate 2048 0), .writeSdu [1], .readPdu 0 3000] ∧
    ¬Along umStep (fun s c _ => UmLisKept s c) { st := Um.configure .size10Bits }
      [.writeSdu (List.replicate 2048 0), .writeSdu [1], .readPdu 3000] := by
  -- A second length indicator would be needed for the SDU behind 2048 bytes.
  have hlong : ∀ c, ¬LongSdusLast 2 c 3000 [List.replicate 2048 0, [1]] ∨ 1 < c := by
    intro c
    refine or_iff_not_imp_right.mpr fun hc h => ?_
    have hle := h [] _ [1] [] rfl (by rw [List.length_replicate])
    have hmono := liBytes_le (Nat.le_of_not_lt hc)
    have hone : liBytes 1 = 2 := rfl
    simp only [nonEmpty, List.filter_nil, List.length_nil, List.nil_append, List.flatten_cons,
      List.flatten_nil, List.append_nil, List.length_replicate, Nat.zero_add] at hle
    omega
  constructor
  · intro h
    obtain ⟨-, h⟩ := h _ rfl
    obtain ⟨-, h⟩ := h _ rfl
    obtain ⟨h, -⟩ := h _ rfl
    rcases hlong 1 with hno | hlt
    · exact hno ((amGrant_iff (Nat.le_of_ble_eq_true rfl) 0 3000).mp (h ⟨rfl, rfl⟩))
    · omega
  · intro h
    obtain ⟨-, h⟩ := h _ rfl
    obtain ⟨-, h⟩ := h _ rfl
    obtain ⟨h, -⟩ := h _ rfl
    have h0 : UmSized (UmLog.st { st := Um.configure .size10Bits }) := umSized_configure _
    have h1 := umStep_sized (c := .writeSdu (List.replicate 2048 0)) h0
      (by show _ ≤ _; rw [List.length_replicate]; decide) rfl
    have h2 := umStep_sized (c := .writeSdu [1]) h1 (by decide) rfl
    rcases hlong 0 with hno | hlt
    · exact hno ((umGrant_iff (n := 3000) h2 (by decide)).mp h)
    · omega

end SrsUE.Proofs.Rlc
