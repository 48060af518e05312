import SrsUE.Mac.Contention
import SrsUE.Proofs.Mac.DlHarqRun

/-!
# `SrsUE.Proofs.Mac.ContentionReception`: what a reception leads to

`ReceiveTemp` says what a reception on the temporary C-RNTI can do: the HARQ process holds the block
since an earlier reception and acknowledges it again, the block is not decoded, or the demux gets
it. In the first two cases the answer does not depend on what is in the block.
-/

set_option autoImplicit false

namespace SrsUE.Proofs.Mac

open SrsUE.Mac
open SrsUE.Rlc (Bytes)

/-! ### The queues of the demux -/

/-- A block with no SDUs is the only one that gives nothing to RLC. -/
theorem processQueues_concat {pdus : List (Nat × QueuedPdu)} {pid : Nat} {pdu : QueuedPdu}
    (hpid : pid < nofHarqPid) :
    processQueues (pdus ++ [(pid, pdu)]) = processQueues pdus ↔ pdu.process = [] := by
  -- The queues before and behind this one are as they were.
  obtain ⟨front, back, hsplit⟩ := List.append_of_mem (List.mem_range.mpr hpid)
  have hnodup : (front ++ pid :: back).Nodup := hsplit ▸ List.nodup_range
  obtain ⟨-, hback, hdisjoint⟩ := List.nodup_append.mp hnodup
  have hother : ∀ (l : List Nat), pid ∉ l →
      (l.flatMap fun i => ((pdus ++ [(pid, pdu)]).filter (·.1 = i)).flatMap (·.2.process))
      = l.flatMap fun i => (pdus.filter (·.1 = i)).flatMap (·.2.process) := by
    intro l hl
    refine List.flatMap_congr fun i hi => ?_
    have hne : pid ≠ i := fun heq => hl (heq ▸ hi)
    rw [List.filter_append, List.filter_cons_of_neg (by simpa using hne), List.filter_nil,
      List.append_nil]
  have hfront : pid ∉ front := fun hmem => hdisjoint pid hmem pid (List.mem_cons_self ..) rfl
  have hown : ((pdus ++ [(pid, pdu)]).filter (·.1 = pid)).flatMap (·.2.process)
      = (pdus.filter (·.1 = pid)).flatMap (·.2.process) ++ pdu.process := by
    rw [List.filter_append, List.filter_cons_of_pos (by simp), List.filter_nil, List.flatMap_append,
      List.flatMap_cons, List.flatMap_nil, List.append_nil]
  rw [processQueues, processQueues, hsplit, List.flatMap_append, List.flatMap_append,
    List.flatMap_cons, List.flatMap_cons, hown, hother front hfront,
    hother back (List.nodup_cons.mp hback).1, List.append_cancel_left_eq,
    List.append_cancel_right_eq,
    List.append_right_eq_self]

/-! ### The HARQ process -/

section
variable (ttiInterval : Nat → Nat → Nat) (codes : DlRntiCodes)

/-- The grant that the process gets for the temporary C-RNTI. -/
def tempGrant (s : Contention) (r : Reception) : MacGrant Unit :=
  if s.lastTemporalCrnti ≠ r.grant.rnti then { r.macGrant codes with ndi := true }
  else r.macGrant codes

/-- The process holds the block since an earlier reception. -/
def holds (s : Contention) (r : Reception) : Bool :=
  keepsAck ttiInterval (s.procs.get r.harqPid) (tempGrant codes s r)

/-- A call of the demux for a block on the temporary C-RNTI. -/
def isTempPush : DlCall → Bool
  | .pushPduTempCrnti .. => true
  | _ => false

variable {codes}

/-- No reception is for the SPS C-RNTI. -/
theorem macGrant_rntiType_ne_sps (r : Reception) : (r.macGrant codes).rntiType ≠ codes.sps := by
  have hnodup := codes.nodup
  simp only [List.nodup_cons, List.mem_cons, List.not_mem_nil, or_false, not_or] at hnodup
  obtain ⟨⟨-, -, huser⟩, ⟨-, hsi⟩, htemp, -⟩ := hnodup
  show r.search.rntiType codes ≠ codes.sps
  cases r.search with
  | user => exact huser
  | si => exact hsi
  | temp => exact htemp

/-- The entity passes a grant for the temporary C-RNTI on to the process. -/
theorem entityGrant_temp {s : Contention} {r : Reception} (hr : r.search = .temp) :
    DlHarqProcess.entityGrant codes (r.macGrant codes) (s.dlInput r)
      = some (tempGrant codes s r) := by
  have hrnti : (r.macGrant codes).rntiType = codes.temp := by
    show r.search.rntiType codes = codes.temp
    rw [hr]
    rfl
  rw [DlHarqProcess.entityGrant, if_pos (macGrant_rntiType_ne_sps r)]
  refine congrArg some (if_congr ?_ rfl rfl)
  rw [hrnti, decide_eq_true rfl, Bool.true_and, decide_eq_true_eq]
  rfl

/-- It changes neither the size nor the RNTI. -/
theorem tempGrant_eq (codes : DlRntiCodes) (s : Contention) (r : Reception) :
    (tempGrant codes s r).nBytes = r.grant.nBytes ∧
      (tempGrant codes s r).rntiType = r.search.rntiType codes := by
  rw [tempGrant]
  split
  · exact ⟨rfl, rfl⟩
  · exact ⟨rfl, rfl⟩

/-- What a grant for the temporary C-RNTI leaves of a process other than the broadcast process. -/
structure TempSpec (p : DlHarqProcess Unit) (g : MacGrant Unit) (input : DlInput)
    (o : DlOutcome Unit) : Prop where
  decodeEnabled : o.action.decodeEnabled = (!keepsAck ttiInterval p g && input.buffer.isSome)
  pushed : o.calls.filter isPush =
    if (!keepsAck ttiInterval p g && input.buffer.isSome) && input.decodePdsch then
      [.pushPduTempCrnti p.pid input.buffer g.nBytes] else []
  uciAck : ∀ input', o.action.uciAck input' =
    if keepsAck ttiInterval p g then if input.taExpired then none else some true
    else if input.buffer.isNone then some false
    else if input.taExpired then none else some input'.uecridSuccessful

/-- What such a grant leaves of a process, in all cases of the answers that the process reads. -/
theorem tempSpec {p : DlHarqProcess Unit} (hpid : p.pid ≠ harqBcchPid) {g : MacGrant Unit}
    (hrnti : g.rntiType = codes.temp) {g₀ : MacGrant Unit} {input : DlInput}
    (hgrant : DlHarqProcess.entityGrant codes g₀ input = some g) :
    TempSpec ttiInterval p g input (p.workDl ttiInterval codes g₀ input) := by
  rw [DlHarqProcess.workDl, DlHarqProcess.entityNewGrantDl, hgrant]
  simp only [DlHarqProcess.newGrantDl, DlHarqProcess.startTransmission, hpid, hrnti, decide_false,
    Bool.false_and, Bool.false_eq_true, if_false]
  -- every answer that the entry reads is known in each case, so the entry can be executed
  cases hnew : p.calcIsNewTransmission ttiInterval g <;> cases hack : p.ack <;>
    cases hbuffer : input.buffer <;> cases hdecode : input.decodePdsch <;>
    cases hta : input.taExpired <;> constructor <;>
    simp [keepsAck, hnew, hack, hbuffer, hdecode, hta, isPush, DlHarqProcess.tbDecoded,
      TbActionDl.uciAck, hpid]

/-- A new transmission keeps the number of the process, and pushes nothing. -/
theorem startTransmission_fst (p : DlHarqProcess Unit) (g : MacGrant Unit) :
    (p.startTransmission ttiInterval g).1.pid = p.pid ∧
      ∀ c ∈ (p.startTransmission ttiInterval g).2, isPush c = false := by
  rw [DlHarqProcess.startTransmission]
  split
  · refine ⟨rfl, fun c hc => ?_⟩
    rw [List.mem_singleton.mp hc]
    rfl
  · exact ⟨rfl, List.forall_mem_nil _⟩

/-- `new_grant_dl` saves the grant, and gives nothing to the demux. -/
theorem newGrantDl_spec (codes : DlRntiCodes) (p : DlHarqProcess Unit) (g : MacGrant Unit)
    (input : DlInput) :
    (p.newGrantDl ttiInterval codes g input).proc.pid = p.pid ∧
      (p.newGrantDl ttiInterval codes g input).proc.curGrant.rntiType = g.rntiType ∧
      ∀ c ∈ (p.newGrantDl ttiInterval codes g input).calls, isPush c = false := by
  have hrv : ∀ (b : Bool) (rv : Int), (if b then { g with rv := rv } else g).rntiType
      = g.rntiType := by
    intro b rv
    cases b <;> rfl
  have hcurrent :=
    hrv (p.pid = harqBcchPid && g.rv = -1) (DlHarqProcess.bcchRv g input.siWindowStart)
  rw [DlHarqProcess.newGrantDl]
  -- The redundancy version of a broadcast changes nothing that is asked for here.
  generalize (if (p.pid = harqBcchPid && g.rv = -1) = true then
    { g with rv := DlHarqProcess.bcchRv g input.siWindowStart } else g) = g' at hcurrent ⊢
  obtain ⟨hpid, hcalls⟩ := startTransmission_fst ttiInterval p g'
  generalize p.startTransmission ttiInterval g' = started at hpid hcalls ⊢
  obtain ⟨p', calls⟩ := started
  have hmore : ∀ c ∈ calls ++ [.requestBuffer p'.pid g'.nBytes], isPush c = false :=
    List.forall_mem_append.mpr ⟨hcalls, List.forall_mem_singleton.mpr rfl⟩
  dsimp only at hpid hcalls ⊢
  split
  · split
    · exact ⟨hpid, hcurrent, hmore⟩
    · exact ⟨hpid, hcurrent, hmore⟩
  · exact ⟨hpid, hcurrent, hcalls⟩

/-- A decoded block is pushed to the queue of its RNTI. -/
theorem tbDecoded_spec (codes : DlRntiCodes) (p : DlHarqProcess Unit) (ack : Bool) :
    (p.tbDecoded codes ack).1.pid = p.pid ∧
      (p.curGrant.rntiType ≠ codes.temp →
        ∀ c ∈ (p.tbDecoded codes ack).2, isTempPush c = false) := by
  rw [DlHarqProcess.tbDecoded]
  cases ack with
  | false => exact ⟨rfl, fun _ => List.forall_mem_nil _⟩
  | true =>
    dsimp only
    rw [if_neg (by decide)]
    split
    · refine ⟨rfl, fun _ => ?_⟩
      simp [isTempPush]
    · split
      · rename_i htemp
        exact ⟨rfl, fun hne => absurd htemp hne⟩
      · exact ⟨rfl, fun _ => List.forall_mem_singleton.mpr rfl⟩

/-- A grant for another RNTI does not lead to a block on the temporary C-RNTI. -/
theorem workDl_spec (codes : DlRntiCodes) (p : DlHarqProcess Unit) (g : MacGrant Unit)
    (input : DlInput) :
    (p.workDl ttiInterval codes g input).proc.pid = p.pid ∧
      (g.rntiType ≠ codes.temp →
        ∀ c ∈ (p.workDl ttiInterval codes g input).calls, isTempPush c = false) := by
  have hpush : ∀ {calls : List DlCall}, (∀ c ∈ calls, isPush c = false) →
      ∀ c ∈ calls, isTempPush c = false := fun hcalls c hc => by
    have hc' := hcalls c hc
    cases c with
    | pushPduTempCrnti => cases hc'
    | _ => rfl
  -- The entity changes at most the NDI of a grant.
  have hentity : ∀ g', DlHarqProcess.entityGrant codes g input = some g' →
      g'.rntiType = g.rntiType := by
    intro g' hg'
    rw [DlHarqProcess.entityGrant] at hg'
    split at hg'
    · obtain rfl := Option.some.inj hg'
      split <;> rfl
    · split at hg'
      · obtain rfl := Option.some.inj hg'
        rfl
      · cases hg'
  have hgrant : (p.entityNewGrantDl ttiInterval codes g input).proc.pid = p.pid ∧
      (g.rntiType ≠ codes.temp →
        (p.entityNewGrantDl ttiInterval codes g input).action.decodeEnabled →
        (p.entityNewGrantDl ttiInterval codes g input).proc.curGrant.rntiType ≠ codes.temp) ∧
      ∀ c ∈ (p.entityNewGrantDl ttiInterval codes g input).calls, isPush c = false := by
    rw [DlHarqProcess.entityNewGrantDl]
    cases hg' : DlHarqProcess.entityGrant codes g input with
    | none => exact ⟨rfl, fun _ hfalse => (Bool.false_ne_true hfalse).elim, List.forall_mem_nil _⟩
    | some g' =>
      obtain ⟨hpid, hrnti, hcalls⟩ := newGrantDl_spec ttiInterval codes p g' input
      exact ⟨hpid, fun hne _ => by rw [hrnti, hentity g' hg']; exact hne, hcalls⟩
  rw [DlHarqProcess.workDl]
  generalize p.entityNewGrantDl ttiInterval codes g input = o at hgrant ⊢
  obtain ⟨hpid, hrnti, hcalls⟩ := hgrant
  obtain ⟨hpid', htemp⟩ := tbDecoded_spec codes o.proc input.decodePdsch
  dsimp only
  -- The block is decoded, or there is nothing to decode.
  split
  · rename_i hdecode
    exact ⟨hpid'.trans hpid, fun hne =>
      List.forall_mem_append.mpr ⟨hpush hcalls, htemp (hrnti hne hdecode)⟩⟩
  · exact ⟨hpid, fun _ => hpush hcalls⟩

end

/-! ### What the demux gets -/

section
variable {s s' : Contention} {buff : Bytes} {calls : List DlCall}

/-- The other calls do nothing to the demux. -/
theorem foldlM_demux_filter (buff : Bytes) (calls : List DlCall) (s : Contention) :
    calls.foldlM (Contention.demux buff) s
      = (calls.filter isPush).foldlM (Contention.demux buff) s := by
  induction calls generalizing s with
  | nil => rfl
  | cons c calls ih =>
    cases c with
    | pushPdu | pushPduTempCrnti =>
      rw [List.filter_cons_of_pos rfl, List.foldlM_cons, List.foldlM_cons]
      exact congrArg _ (funext ih)
    | softbufferResetTbs | softbufferReset | requestBuffer =>
      rw [List.filter_cons_of_neg Bool.false_ne_true, List.foldlM_cons]
      exact ih s

/-- Without a block on the temporary C-RNTI only the queues change. -/
theorem foldlM_demux_other (hcalls : ∀ c ∈ calls, isTempPush c = false) :
    ∃ pdus, calls.foldlM (Contention.demux buff) s = some { s with pdus := pdus } := by
  induction calls generalizing s with
  | nil => exact ⟨s.pdus, rfl⟩
  | cons c calls ih =>
    obtain ⟨hc, hrest⟩ := List.forall_mem_cons.mp hcalls
    have hpdus : ∃ pdus, Contention.demux buff s c = some { s with pdus := pdus } := by
      cases c with
      | pushPduTempCrnti => cases hc
      | pushPdu pid buffer nBytes =>
        rw [Contention.demux, Contention.pushPdu]
        split
        · exact ⟨_, rfl⟩
        · exact ⟨s.pdus, rfl⟩
      | softbufferResetTbs | softbufferReset | requestBuffer => exact ⟨s.pdus, rfl⟩
    obtain ⟨pdus, hdemux⟩ := hpdus
    obtain ⟨pdus', hfold⟩ := ih (s := { s with pdus := pdus }) hrest
    refine ⟨pdus', ?_⟩
    rw [List.foldlM_cons, hdemux]
    exact hfold

/-- The demux does not touch the processes. -/
theorem pushPduTempCrnti_procs {pid : Nat} {pdu : QueuedPdu}
    (h : s.pushPduTempCrnti pid pdu = some s') : s'.procs = s.procs := by
  rw [Contention.pushPduTempCrnti] at h
  split at h
  · obtain ⟨ss, -, rfl⟩ := Option.map_eq_some_iff.mp h
    rfl
  · obtain rfl := Option.some.inj h
    rfl

/-- The demux leaves the HARQ processes alone. -/
theorem foldlM_demux_procs (h : calls.foldlM (Contention.demux buff) s = some s') :
    s'.procs = s.procs := by
  induction calls generalizing s with
  | nil =>
    obtain rfl := Option.some.inj h
    rfl
  | cons c calls ih =>
    rw [List.foldlM_cons] at h
    obtain ⟨s₁, hdemux, hrest⟩ := Option.bind_eq_some_iff.mp h
    refine (ih hrest).trans ?_
    cases c with
    | pushPduTempCrnti => exact pushPduTempCrnti_procs hdemux
    | pushPdu =>
      obtain rfl := Option.some.inj hdemux
      rw [Contention.pushPdu]
      split
      · rfl
      · rfl
    | softbufferResetTbs | softbufferReset | requestBuffer =>
      obtain rfl := Option.some.inj hdemux
      rfl

end

/-! ### Receptions -/

section
variable (ttiInterval : Nat → Nat → Nat) (codes : DlRntiCodes)

/-- What a reception on the temporary C-RNTI can do. -/
inductive ReceiveTemp (s : Contention) (r : Reception) : Contention → Prop
  | again (procs : Vector (DlHarqProcess Unit) (nofHarqPid + 1)) (lastTemporalCrnti : Nat)
      (hholds : holds ttiInterval codes s r = true) :
      ReceiveTemp s r
        { s with
          procs := procs
          lastTemporalCrnti := lastTemporalCrnti
          uciAck := if r.taExpired then none else some true }
  | undecoded (procs : Vector (DlHarqProcess Unit) (nofHarqPid + 1)) (lastTemporalCrnti : Nat)
      (hholds : holds ttiInterval codes s r = false)
      (hdecoded : (r.buffer.isSome && r.decodePdsch) = false) :
      ReceiveTemp s r
        { s with
          procs := procs
          lastTemporalCrnti := lastTemporalCrnti
          uciAck :=
            if r.buffer.isNone then some false
            else if r.taExpired then none else some s.isUecridSuccessful }
  | decoded (procs : Vector (DlHarqProcess Unit) (nofHarqPid + 1)) (lastTemporalCrnti : Nat)
      (blocks : Vector (Option QueuedPdu) (nofHarqPid + 1)) (s' : Contention)
      (hholds : holds ttiInterval codes s r = false)
      (hdecoded : (r.buffer.isSome && r.decodePdsch) = true)
      (hpush : { s with
        procs := procs
        lastTemporalCrnti := lastTemporalCrnti
        blocks := blocks }.pushPduTempCrnti r.harqPid r.pdu = some s') :
      ReceiveTemp s r
        { s' with uciAck := if r.taExpired then none else some s'.isUecridSuccessful }

variable {ttiInterval codes} {s s' : Contention} {r : Reception}

/-- A block that is no system information has a process of its own. -/
theorem harqPid_lt (hr : r.search ≠ .si) : (r.harqPid : Nat) < nofHarqPid := by
  rw [Reception.harqPid, if_neg hr]
  exact Nat.mod_lt _ (by decide)

/-- A reception on the temporary C-RNTI is one of the three cases. -/
theorem receive_temp (hr : r.search = .temp) (hpid : (s.procs.get r.harqPid).pid = r.harqPid)
    (h : s.receive ttiInterval codes r = some s') : ReceiveTemp ttiInterval codes s r s' := by
  have hlt := harqPid_lt (r := r) (by rw [hr]; decide)
  obtain ⟨hbytes, htype⟩ := tempGrant_eq codes s r
  have hrnti : (tempGrant codes s r).rntiType = codes.temp := by
    rw [htype, hr]
    rfl
  have hspec := tempSpec ttiInterval (by rw [hpid]; exact Nat.ne_of_lt hlt) hrnti
    (entityGrant_temp (s := s) hr)
  rw [Contention.receive] at h
  generalize (s.procs.get r.harqPid).workDl ttiInterval codes (r.macGrant codes) (s.dlInput r) = o
    at h hspec
  obtain ⟨hdecode, hpushed, hack⟩ := hspec
  have hkeeps : keepsAck ttiInterval (s.procs.get r.harqPid) (tempGrant codes s r)
    = holds ttiInterval codes s r := rfl
  rw [hkeeps] at hdecode hpushed hack
  have hshown : (s.dlInput r).buffer = r.buffer ∧ (s.dlInput r).taExpired = r.taExpired ∧
    (s.dlInput r).decodePdsch = r.decodePdsch := ⟨rfl, rfl, rfl⟩
  have hnotUser : (decide (r.search = .user) && decide (s.ra.state = .contentionResolution))
      = false := by
    rw [hr]
    rfl
  rw [foldlM_demux_filter, hpushed, hdecode, hshown.1, hshown.2.2, hnotUser] at h
  rw [hshown.1, hshown.2.1] at hack
  -- The process holds the block, or a transmission begins that is decoded or not.
  cases hk : holds ttiInterval codes s r with
  | true =>
    rw [hk] at h hack
    obtain rfl := Option.some.inj h
    dsimp only
    rw [hack]
    exact .again _ _ hk
  | false =>
    rw [hk] at h hack
    rw [Bool.not_false, Bool.true_and] at h
    cases hd : r.buffer.isSome && r.decodePdsch with
    | false =>
      rw [hd] at h
      obtain rfl := Option.some.inj h
      dsimp only
      rw [hack]
      exact .undecoded _ _ hk hd
    | true =>
      rw [hd, if_pos rfl] at h
      obtain ⟨s₂, hpush, rfl⟩ := Option.map_eq_some_iff.mp h
      have hbuffer : r.buffer.isNone = false := by
        rw [Option.isNone_eq_false_iff]
        exact (Bool.and_eq_true_iff.mp hd).1
      rw [if_pos rfl, List.foldlM_cons, hpid, hbytes] at hpush
      obtain ⟨s₃, hdemux, hdone⟩ := Option.bind_eq_some_iff.mp hpush
      obtain rfl := Option.some.inj hdone
      rw [hack, hbuffer]
      exact .decoded _ _ _ _ hk hd hdemux

/-- A reception on another RNTI changes the queues and no identity. -/
theorem receive_other (hr : r.search ≠ .temp) (h : s.receive ttiInterval codes r = some s') :
    (s'.ra = s.ra ∨ s'.ra = s.ra.pdcchToCrnti false) ∧ s'.msg3 = s.msg3 ∧
      s'.sentIds = s.sentIds := by
  have hrnti : (r.macGrant codes).rntiType ≠ codes.temp := by
    have hnodup := codes.nodup
    simp only [List.nodup_cons, List.mem_cons, List.not_mem_nil, or_false, not_or] at hnodup
    obtain ⟨⟨-, huser, -⟩, ⟨hsi, -⟩, -⟩ := hnodup
    show r.search.rntiType codes ≠ codes.temp
    cases hsearch : r.search with
    | user => exact huser
    | si => exact hsi
    | temp => exact absurd hsearch hr
  have hcalls := (workDl_spec ttiInterval codes (s.procs.get r.harqPid) (r.macGrant codes)
    (s.dlInput r)).2 hrnti
  rw [Contention.receive] at h
  generalize (s.procs.get r.harqPid).workDl ttiInterval codes (r.macGrant codes) (s.dlInput r) = o
    at h hcalls
  -- No call reaches `push_pdu_temp_crnti`, so the demux only queues.
  obtain ⟨s₁, hfold, rfl⟩ := Option.map_eq_some_iff.mp h
  obtain ⟨pdus, hother⟩ := foldlM_demux_other hcalls
  obtain rfl := Option.some.inj (hfold.symm.trans hother)
  refine ⟨?_, rfl, rfl⟩
  dsimp only
  split
  · exact Or.inr rfl
  · exact Or.inl rfl

/-- The processes are at the places of their numbers. -/
def Numbered (procs : Vector (DlHarqProcess Unit) (nofHarqPid + 1)) : Prop :=
  ∀ i : Fin (nofHarqPid + 1), procs[i].pid = i

/-- A reception keeps the processes at their places. -/
theorem Numbered.receive (hs : Numbered s.procs) (h : s.receive ttiInterval codes r = some s') :
    Numbered s'.procs := by
  have hpid := (workDl_spec ttiInterval codes (s.procs.get r.harqPid) (r.macGrant codes)
    (s.dlInput r)).1
  rw [Contention.receive] at h
  obtain ⟨s₁, hfold, rfl⟩ := Option.map_eq_some_iff.mp h
  intro i
  rw [show s₁.procs = _ from foldlM_demux_procs hfold]
  by_cases hi : r.harqPid = i
  · subst hi
    rw [Fin.getElem_fin, Vector.getElem_set_self]
    exact hpid.trans (hs r.harqPid)
  · rw [Fin.getElem_fin, Vector.getElem_set_ne _ _ fun heq => hi (Fin.ext heq)]
    exact hs i

end

end SrsUE.Proofs.Mac
