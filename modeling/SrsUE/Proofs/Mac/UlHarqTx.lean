import SrsUE.Proofs.Mac.UlHarqRun

/-!
# `SrsUE.Proofs.Mac.UlHarqTx`: what an uplink HARQ process transmits

Three properties of the runs of a process, each with the condition on the entries under which a run
has it.

* `ndi_run`: grants for the C-RNTI start new transmissions and retransmissions as their NDI says.
  `run_tti` never compares the NDI, so this takes grants that repeat the NDI as long as a block is
  held.
* `txLimit_run`: a block is transmitted no more often than the limit allows. `generate_tx` compares
  the limit with a number that begins with 0, so this takes runs in which no block gets to its
  limit.
* `liveTx_run`: a transmission has a live block, and an adaptive retransmission uses the grant that
  orders it.
-/

set_option autoImplicit false

namespace SrsUE.Proofs.Mac

open SrsUE.Mac SrsUE.Lib
open SrsUE.Rlc (Bytes)

variable {Γ : Type} [Inhabited Γ]

/-! ### The transmission limit -/

section
variable (codes : RntiCodes) (limits : UlLimits)

/-- A transmission is one of those that the limit allows, and the last of them flushes the
process. -/
def WithinLimit (r : UlRun Γ) (e : UlEvent Γ) : Prop :=
  let o := r.proc.handle codes limits e
  o.action.txEnabled = true → ∀ k ∈ r.sentAfter o, k ≤ o.proc.maxRetx limits ∧
    (k = o.proc.maxRetx limits → o.action.expectAck = false ∧ o.proc.isGrantConfigured = false)

/-- The entry orders no transmission, or one before the last that the limit allows. -/
def BelowLimit (r : UlRun Γ) (e : UlEvent Γ) : Prop :=
  match order codes (afterFeedback r.proc e) e with
  | .fresh _ _ g _ _ => 1 < if g.isFromRar then limits.maxHarqMsg3Tx else limits.maxHarqTx
  | .adaptive q _ _ _ => ∀ k ∈ r.sent, k + 1 < q.maxRetx limits
  | .nonAdaptive q _ _ => ∀ k ∈ r.sent, k + 1 < q.maxRetx limits
  | _ => True

variable {codes limits}

omit [Inhabited Γ] in
/-- A transmission that is the `k`-th of its block, with a number smaller than `k`, meets the limit
exactly when it is not the last. -/
theorem Transmits.withinLimit_iff {p : UlHarqProcess Γ} {o : UlOutcome Γ}
    (htx : Transmits limits p o.proc o.action) {k : Nat} (hk : p.currentTxNb < k) :
    (k ≤ o.proc.maxRetx limits ∧ (k = o.proc.maxRetx limits →
      o.action.expectAck = false ∧ o.proc.isGrantConfigured = false)) ↔ k < p.maxRetx limits := by
  have hmax : o.proc.maxRetx limits = p.maxRetx limits := by
    rw [UlHarqProcess.maxRetx, UlHarqProcess.maxRetx, htx.isMsg3]
  rw [hmax, htx.expectAck]
  constructor
  · rintro ⟨hle, hlast⟩
    by_contra hge
    have hack := (hlast (by omega)).1
    rw [decide_eq_false_iff_not] at hack
    omega
  · exact fun hlt => ⟨by omega, fun heq => absurd heq (by omega)⟩

/-- A retransmission meets the limit exactly when it comes before the last one. -/
theorem UlRun.Inv.withinLimit_retx {r : UlRun Γ} {e : UlEvent Γ} (h : r.Inv) {p : UlHarqProcess Γ}
    {o : UlOutcome Γ} (htx : Transmits limits p o.proc o.action)
    (hcalls : o.calls.any asksMux = false)
    (hnb : p.currentTxNb = (afterFeedback r.proc e).currentTxNb + 1)
    (hmsg3 : p.isMsg3 = (afterFeedback r.proc e).isMsg3) :
    (o.action.txEnabled = true → ∀ k ∈ r.sentAfter o, k ≤ o.proc.maxRetx limits ∧
      (k = o.proc.maxRetx limits → o.action.expectAck = false ∧ o.proc.isGrantConfigured = false)) ↔
      ∀ k ∈ r.sent, k + 1 < (afterFeedback r.proc e).maxRetx limits := by
  have hmax : (afterFeedback r.proc e).maxRetx limits = p.maxRetx limits := by
    rw [UlHarqProcess.maxRetx, UlHarqProcess.maxRetx, hmsg3]
  -- A retransmission counts one more than what was sent of this PDU.
  have hsent : r.sentAfter o = r.sent.map (· + 1) := by
    rw [UlRun.sentAfter, UlRun.isFresh, hcalls, htx.txEnabled]
    rfl
  have hle := (feedbackSpec r.proc e).txNb
  rw [hsent, hmax, forall_prop_of_true htx.txEnabled]
  constructor
  · intro hall k hk
    have hlt := h.txNb k hk
    exact (htx.withinLimit_iff (k := k + 1) (by omega)).mp
      (hall (k + 1) (Option.mem_map_of_mem (· + 1) hk))
  · intro hall k hk
    obtain ⟨k₀, hk₀, rfl⟩ := Option.map_eq_some_iff.mp hk
    have hlt := h.txNb k₀ hk₀
    exact (htx.withinLimit_iff (by omega)).mpr (hall k₀ hk₀)

/-- An entry keeps to the limit exactly when the transmission it makes does. -/
theorem UlRun.Inv.withinLimit_iff {r : UlRun Γ} {e : UlEvent Γ} (h : r.Inv) :
    WithinLimit codes limits r e ↔ BelowLimit codes limits r e := by
  simp only [WithinLimit, BelowLimit]
  rw [handle_eq]
  generalize hord : order codes (afterFeedback r.proc e) e = ord
  have hcase := orderCase_order codes (afterFeedback r.proc e) e
  rw [hord] at hcase
  -- Five cases of the order: nothing, a grant without a PDU, and three kinds of transmission.
  cases hcase with
  | idle hgrant => exact iff_of_true (fun htx => by cases htx) trivial
  | vain g ttiTx hpdu => exact iff_of_true (fun htx => by cases htx) trivial
  | fresh g ttiTx pdu tempRnti hpdu =>
    have htx := transmits_fresh limits (afterFeedback r.proc e) ttiTx g pdu tempRnti
    have hiff := htx.withinLimit_iff (k := 1) Nat.zero_lt_one
    have hsent : r.sentAfter
        (perform limits (.fresh (afterFeedback r.proc e) ttiTx g pdu tempRnti)) =
        some 1 := by
      rw [UlRun.sentAfter, UlRun.isFresh_fresh]
      rfl
    rw [hsent, forall_prop_of_true htx.txEnabled]
    refine Iff.trans ?_ hiff
    exact ⟨fun hall => hall 1 rfl, fun hone k hk => Option.some.inj hk ▸ hone⟩
  | adaptive g ndi ttiTx tempRnti hgrant hnew =>
    exact h.withinLimit_retx (transmits_adaptive limits _ ttiTx _ tempRnti)
      (UlRun.not_asksMux_generateRetx ttiTx _ tempRnti) rfl rfl
  | nonAdaptive ttiTx tempRnti hconf hgrant =>
    exact h.withinLimit_retx (transmits_nonAdaptive limits (h.feedback_after hconf) ttiTx tempRnti)
      (UlRun.not_asksMux_generateRetx ttiTx _ tempRnti) rfl rfl

variable (codes limits)

/-- A run keeps every block within its limit exactly when no block gets to its limit. -/
theorem txLimit_run (pid : Nat) (harqFeedback isMsg3 : Bool) (buffer : Bytes)
    (es : List (UlEvent Γ)) :
    Along (UlRun.step codes limits) (fun r e _ => WithinLimit codes limits r e)
        (UlRun.start pid harqFeedback isMsg3 buffer) es ↔
      Along (UlRun.step codes limits) (fun r e _ => BelowLimit codes limits r e)
        (UlRun.start pid harqFeedback isMsg3 buffer) es := by
  refine along_iff (I := UlRun.Inv) (K := fun _ => True) (fun r e r' h _ _ => h.withinLimit_iff)
    (fun r e r' h _ hstep _ => ?_) (fun _ _ => trivial) (UlRun.inv_start _ _ _ _)
  obtain rfl := Option.some.inj hstep
  exact h.after

end

/-- Values of the RNTI types. -/
def rntiCodes : RntiCodes where
  temp := 3
  rar := 2
  sps := 4
  one_lt_temp := by omega
  rar_ne_user := by omega
  rar_ne_temp := by omega

/-- A limit of one transmission: the first one expects an acknowledgement, and is made again when
there is none. -/
theorem not_withinLimit_one :
    ¬Along (UlRun.step rntiCodes ⟨1, 1⟩) (fun r e _ => WithinLimit rntiCodes ⟨1, 1⟩ r e)
        (UlRun.start 0 false false [])
        [.newGrantUl { nBytes := 1, phyGrant := 0 } { muxPdu := some [7] }] ∧
      ¬Along (UlRun.step rntiCodes ⟨1, 1⟩)
        (fun r e _ => ∀ k ∈ (r.after e (r.proc.handle rntiCodes ⟨1, 1⟩ e)).sent, k ≤ 1)
        (UlRun.start 0 false false [])
        [.newGrantUl { nBytes := 1, phyGrant := 0 } { muxPdu := some [7] },
        .harqRecv 8 false {}] := by
  constructor
  · intro h
    have hfirst := (h _ rfl).1 rfl 1 rfl
    exact absurd (hfirst.2 rfl).1 (by decide)
  · intro h
    exact absurd (((h _ rfl).2 _ rfl).1 2 rfl) (by decide)

/-! ### Live blocks -/

section
variable (codes : RntiCodes) (limits : UlLimits)

/-- A transmission is a new one, or the block is still held. One that a grant orders without being
new is made with the allocation and the redundancy version of the grant. -/
def LiveTx (r : UlRun Γ) (e : UlEvent Γ) : Prop :=
  let o := r.proc.handle codes limits e
  o.action.txEnabled = true →
    (UlRun.isFresh o = true ∨ (r.heldAfterAck e).isSome = true) ∧
    (UlRun.isFresh o = false → ∀ g ∈ grant? e, o.action.phyGrant = g.phyGrant ∧ o.action.rv = g.rv)

/-- A retransmission is ordered only for a block that is held. A grant that orders one has the
allocation of the grant for the new transmission, and a redundancy version that the process uses. -/
def LiveOrder (r : UlRun Γ) (e : UlEvent Γ) : Prop :=
  match order codes (afterFeedback r.proc e) e with
  | .adaptive q _ g _ =>
    (r.heldAfterAck e).isSome = true ∧ q.curGrant.phyGrant = g.phyGrant ∧
      (if q.curGrant.rv > 0 then q.curGrant.rv else g.rv % 4) = g.rv
  | .nonAdaptive _ _ _ => (r.heldAfterAck e).isSome = true
  | _ => True

variable {codes limits}

omit [Inhabited Γ] in
/-- The redundancy version that the process has for that of a grant. -/
theorem getRv_withRetx (q : UlHarqProcess Γ) (g : MacGrant Γ) :
    ((withRetx q g).getRv : Int) = g.rv % 4 := by
  have htable : ∀ i < 4, UlHarqProcess.rvOfIrv (UlHarqProcess.irvOfRv i % 4) = i := by decide
  have hindex : UlHarqProcess.rvIndex g.rv < 4 := by
    rw [UlHarqProcess.rvIndex]
    omega
  have hrv : (withRetx q g).getRv = UlHarqProcess.rvIndex g.rv := htable _ hindex
  rw [hrv, UlHarqProcess.rvIndex]
  omega

/-- An entry transmits what it should exactly when its order is a live one. -/
theorem UlRun.Inv.liveTx_iff {r : UlRun Γ} {e : UlEvent Γ} (h : r.Inv) :
    LiveTx codes limits r e ↔ LiveOrder codes r e := by
  simp only [LiveTx, LiveOrder]
  rw [handle_eq]
  generalize hord : order codes (afterFeedback r.proc e) e = ord
  have hcase := orderCase_order codes (afterFeedback r.proc e) e
  rw [hord] at hcase
  cases hcase with
  | idle hgrant => exact iff_of_true (fun htx => by cases htx) trivial
  | vain g ttiTx hpdu => exact iff_of_true (fun htx => by cases htx) trivial
  | fresh g ttiTx pdu tempRnti hpdu =>
    have hfresh : UlRun.isFresh
        (perform limits (.fresh (afterFeedback r.proc e) ttiTx g pdu tempRnti)) = true :=
      UlRun.isFresh_fresh ttiTx g pdu tempRnti
    refine iff_of_true (fun _ => ⟨Or.inl hfresh, fun hnot => ?_⟩) trivial
    rw [hfresh] at hnot
    cases hnot
  -- An adaptive retransmission is made with the stored allocation, and with the stored redundancy
  -- version where that is positive.
  | adaptive g ndi ttiTx tempRnti hgrant hnew =>
    have htx :=
      transmits_adaptive limits (afterFeedback r.proc e) ttiTx { g with ndi := ndi } tempRnti
    have hfresh : UlRun.isFresh
        (perform limits (.adaptive (afterFeedback r.proc e) ttiTx { g with ndi := ndi } tempRnti)) =
          false := by
      rw [UlRun.isFresh]
      exact (Bool.and_eq_false_iff ..).mpr (Or.inl (UlRun.not_asksMux_generateRetx ..))
    have haction :=
      generateTx_grant limits (withRetx (afterFeedback r.proc e) { g with ndi := ndi })
      ttiTx tempRnti
    rw [getRv_withRetx] at haction
    rw [forall_prop_of_true htx.txEnabled, hfresh, hgrant]
    have hphy : (perform limits (.adaptive (afterFeedback r.proc e) ttiTx { g with ndi := ndi }
        tempRnti)).action.phyGrant = (afterFeedback r.proc e).curGrant.phyGrant := haction.1
    have hrv : (perform limits (.adaptive (afterFeedback r.proc e) ttiTx { g with ndi := ndi }
        tempRnti)).action.rv = if (afterFeedback r.proc e).curGrant.rv > 0 then
          (afterFeedback r.proc e).curGrant.rv else g.rv % 4 := haction.2
    rw [hphy, hrv]
    simp
  | nonAdaptive ttiTx tempRnti hconf hgrant =>
    have htx := transmits_nonAdaptive limits (h.feedback_after hconf) ttiTx tempRnti
    have hfresh : UlRun.isFresh
        (perform limits (.nonAdaptive (afterFeedback r.proc e) ttiTx tempRnti)) = false := by
      rw [UlRun.isFresh]
      exact (Bool.and_eq_false_iff ..).mpr (Or.inl (UlRun.not_asksMux_generateRetx ..))
    rw [forall_prop_of_true htx.txEnabled, hfresh, hgrant]
    simp

variable (codes limits)

/-- A run transmits only live blocks, with the grants that order them, exactly when its entries
order nothing else. -/
theorem liveTx_run (pid : Nat) (harqFeedback isMsg3 : Bool) (buffer : Bytes)
    (es : List (UlEvent Γ)) :
    Along (UlRun.step codes limits) (fun r e _ => LiveTx codes limits r e)
        (UlRun.start pid harqFeedback isMsg3 buffer) es ↔
      Along (UlRun.step codes limits) (fun r e _ => LiveOrder codes r e)
        (UlRun.start pid harqFeedback isMsg3 buffer) es := by
  refine along_iff (I := UlRun.Inv) (K := fun _ => True) (fun r e r' h _ _ => h.liveTx_iff)
    (fun r e r' h _ hstep _ => ?_) (fun _ _ => trivial) (UlRun.inv_start _ _ _ _)
  obtain rfl := Option.some.inj hstep
  exact h.after

end

/-- A grant for the temporary C-RNTI before any new transmission, a retransmission of a block from
before `mac::reset`, and an adaptive retransmission with another allocation. -/
theorem not_liveTx_stale :
    ¬Along (UlRun.step rntiCodes ⟨4, 4⟩) (fun r e _ => LiveTx rntiCodes ⟨4, 4⟩ r e)
        (UlRun.start 0 false false []) [.newGrantUl { rntiType := 3, phyGrant := 5 } {}] ∧
      ¬Along (UlRun.step rntiCodes ⟨4, 4⟩) (fun r e _ => LiveTx rntiCodes ⟨4, 4⟩ r e)
        (UlRun.start 0 false false [])
        [.newGrantUl { phyGrant := 5 } { muxPdu := some [7] }, .macReset, .harqRecv 8 false {}] ∧
      ¬Along (UlRun.step rntiCodes ⟨4, 4⟩) (fun r e _ => LiveTx rntiCodes ⟨4, 4⟩ r e)
        (UlRun.start 0 false false [])
        [.newGrantUl { phyGrant := 5 } { muxPdu := some [7] },
          .newGrantUl { tti := 8, phyGrant := 6, rv := 2 } {}] := by
  refine ⟨fun h => ?_, fun h => ?_, fun h => ?_⟩
  · have htemp := ((h _ rfl).1 rfl).1
    exact absurd htemp (by decide)
  · have hstale := (((h _ rfl).2 _ rfl).2 _ rfl).1 rfl
    exact absurd hstale.1 (by decide)
  · have hother := ((h _ rfl).2 _ rfl).1 rfl
    exact absurd (hother.2 rfl _ rfl).1 (by decide)

/-! ### The NDI -/

/-- A grant for the C-RNTI. -/
def isCrnti (g : MacGrant Γ) : Bool := g.rntiType = 0 && !g.isFromRar

/-- Grants for the C-RNTI, grants of random access responses, and feedback. -/
def NdiEvent (codes : RntiCodes) : UlEvent Γ → Prop
  | .newGrantUl g _ => isCrnti g = true ∨ g.isFromRar = true ∧ g.rntiType = codes.temp
  | .newGrantUlAck g _ _ => isCrnti g = true ∨ g.isFromRar = true ∧ g.rntiType = codes.temp
  | .harqRecv .. => True
  | .reset => False
  | .macReset => False

section
variable (codes : RntiCodes) (limits : UlLimits)

/-- A grant for the C-RNTI with another NDI than the last grant, or to a process that holds no
block, makes the process ask the mux and transmit the PDU that it gets. One with the same NDI makes
it transmit the block that it holds, and the mux is not asked. -/
def FollowsNdi (r : UlRun Γ) (e : UlEvent Γ) : Prop :=
  let o := r.proc.handle codes limits e
  ∀ g ∈ grant? e, isCrnti g = true →
    (r.heldAfterAck e = none ∨ r.prevNdi ≠ some g.ndi →
      o.calls.any asksMux = true ∧
        ∀ pdu ∈ muxPdu e, o.action.txEnabled = true ∧ o.action.payloadPtr = some pdu) ∧
    (∀ tb ∈ r.heldAfterAck e, r.prevNdi = some g.ndi →
      o.action.txEnabled = true ∧ o.action.payloadPtr = some tb ∧ o.calls.any asksMux = false)

/-- As long as a block is held, grants for the C-RNTI repeat the last NDI, and no Msg3 has been
asked for without success. -/
def RepeatsNdi (r : UlRun Γ) (e : UlEvent Γ) : Prop :=
  ∀ g ∈ grant? e, isCrnti g = true → (r.heldAfterAck e).isSome = true →
    r.prevNdi = some g.ndi ∧ r.proc.pduPtr.isSome = true

end

/-- The process has a grant exactly when it holds a block, and its PDU is the block or NULL. -/
structure UlRun.NdiInv (r : UlRun Γ) : Prop extends r.Inv where
  held_of_configured : r.proc.isGrantConfigured = true → r.held.isSome = true
  pdu_eq : ∀ tb ∈ r.held, ∀ pdu ∈ r.proc.pduPtr, pdu = tb

section
variable {codes : RntiCodes} {limits : UlLimits} {r : UlRun Γ} {e : UlEvent Γ}

omit [Inhabited Γ] in
/-- No entry of the kind flushes the buffers. -/
theorem NdiEvent.not_flushes (h : NdiEvent codes e) : flushes e = false := by
  cases e with
  | newGrantUl g input => rfl
  | newGrantUlAck g ack input => rfl
  | harqRecv tti ack input => rfl
  | reset => cases h
  | macReset => cases h

/-- A process with a grant holds its block, also after the feedback. -/
theorem UlRun.NdiInv.heldAfterAck_of_configured (h : r.NdiInv) (he : NdiEvent codes e)
    (hconf : (afterFeedback r.proc e).isGrantConfigured = true) :
    (r.heldAfterAck e).isSome = true := by
  obtain ⟨hp, hack⟩ := (feedbackSpec r.proc e).configured hconf
  rw [UlRun.heldAfterAck, hack, he.not_flushes]
  exact h.held_of_configured hp

omit [Inhabited Γ] in
/-- What is held after the feedback was held before. -/
theorem UlRun.mem_held_of_heldAfterAck {tb : Bytes} (h : tb ∈ r.heldAfterAck e) : tb ∈ r.held := by
  rw [UlRun.heldAfterAck] at h
  split at h
  · cases h
  · exact h

omit [Inhabited Γ] in
/-- The order of a grant for the C-RNTI is a new transmission exactly when the process has no
grant. -/
theorem isNewTx_crnti {q : UlHarqProcess Γ} {g : MacGrant Γ} (hg : isCrnti g = true) :
    q.isNewTx codes g = !q.isGrantConfigured := by
  have htemp : codes.temp ≠ 1 := Nat.ne_of_gt codes.one_lt_temp
  simp only [isCrnti, Bool.and_eq_true, decide_eq_true_eq, Bool.not_eq_true'] at hg
  simp [UlHarqProcess.isNewTx, hg.1, hg.2, htemp.symm]

omit [Inhabited Γ] in
/-- A grant for the C-RNTI asks the mux if the process has no grant, and retransmits otherwise. -/
theorem order_crnti (codes : RntiCodes) (q : UlHarqProcess Γ) {g : MacGrant Γ}
    (hg : isCrnti g = true)
    (hgrant : grant? e = some g) : ∃ ttiTx tempRnti, order codes q e =
      if q.isGrantConfigured then .adaptive q ttiTx g tempRnti
      else (muxPdu e).elim (.vain q (muxRequest q ttiTx g))
        fun pdu => .fresh q ttiTx g pdu tempRnti := by
  have htype : g.rntiType = 0 := by
    simp only [isCrnti, Bool.and_eq_true, decide_eq_true_eq] at hg
    exact hg.1
  have hany : ∀ input, ∃ ttiTx tempRnti, anyGrantOrder codes q g input =
      if q.isGrantConfigured then .adaptive q ttiTx g tempRnti
      else input.muxPdu.elim (.vain q (muxRequest q ttiTx g))
        fun pdu => .fresh q ttiTx g pdu tempRnti := by
    intro input
    refine ⟨(g.tti + 4) % 10240, input.tempRnti, ?_⟩
    rw [anyGrantOrder, htype, grantOrder, isNewTx_crnti hg]
    cases q.isGrantConfigured with
    | true => rfl
    | false =>
      cases input.muxPdu with
      | none => rfl
      | some pdu => rfl
  -- Both entries end in the same function, and the other events bring no grant.
  cases e with
  | newGrantUl g' input =>
    obtain rfl := Option.some.inj hgrant
    exact hany input
  | newGrantUlAck g' ack input =>
    obtain rfl := Option.some.inj hgrant
    exact hany input
  | harqRecv tti ack input => cases hgrant
  | reset => cases hgrant
  | macReset => cases hgrant

/-- A retransmission keeps the block. -/
theorem UlRun.NdiInv.retx (h : r.NdiInv) (he : NdiEvent codes e) {p : UlHarqProcess Γ}
    {o : UlOutcome Γ} (htx : Transmits limits p o.proc o.action)
    (hcalls : o.calls.any asksMux = false)
    (hconf : p.isGrantConfigured = (afterFeedback r.proc e).isGrantConfigured)
    (hpdu : p.pduPtr = r.proc.pduPtr) (hinv : (r.after e o).Inv) : (r.after e o).NdiInv := by
  refine ⟨hinv, ?_, ?_⟩
  · rw [UlRun.after_retx htx hcalls]
    intro hproc
    rw [htx.configured, Bool.and_eq_true, decide_eq_true_eq, hconf] at hproc
    rw [if_pos hproc.2]
    exact h.heldAfterAck_of_configured he hproc.1
  · rw [UlRun.after_retx htx hcalls]
    dsimp only
    rw [htx.pduPtr, hpdu]
    intro tb htb
    split at htb
    · exact h.pdu_eq tb (UlRun.mem_held_of_heldAfterAck htb)
    · cases htb

/-- Every entry of the kind keeps the invariant. -/
theorem UlRun.NdiInv.after (h : r.NdiInv) (he : NdiEvent codes e) :
    (r.after e (r.proc.handle codes limits e)).NdiInv := by
  have hspec := feedbackSpec r.proc e
  have hinv : (r.after e (r.proc.handle codes limits e)).Inv := h.toInv.after
  rw [handle_eq] at hinv ⊢
  generalize hord : order codes (afterFeedback r.proc e) e = ord at hinv ⊢
  have hcase := orderCase_order codes (afterFeedback r.proc e) e
  rw [hord] at hcase
  -- A block is only held while its PDU is the one in the process.
  cases hcase with
  | idle hgrant =>
    refine ⟨hinv, h.heldAfterAck_of_configured he, fun tb htb => ?_⟩
    rw [UlRun.after_idle] at htb ⊢
    dsimp only at htb ⊢
    rw [hspec.pduPtr]
    exact h.pdu_eq tb (UlRun.mem_held_of_heldAfterAck htb)
  | vain g ttiTx hpdu =>
    refine ⟨hinv, ?_, ?_⟩
    · rw [UlRun.after_vain]
      exact h.heldAfterAck_of_configured he
    · rw [UlRun.after_vain]
      exact fun _ _ _ hnone => by cases hnone
  | fresh g ttiTx pdu tempRnti hpdu =>
    have htx := transmits_fresh limits (afterFeedback r.proc e) ttiTx g pdu tempRnti
    refine ⟨hinv, ?_, ?_⟩
    · rw [UlRun.after_fresh ttiTx g tempRnti hpdu]
      intro hproc
      rw [htx.configured, Bool.and_eq_true, decide_eq_true_eq] at hproc
      have hlt : 0 < (withBlock (afterFeedback r.proc e) g pdu).maxRetx limits := hproc.2
      rw [if_pos hlt]
      rfl
    · rw [UlRun.after_fresh ttiTx g tempRnti hpdu]
      intro tb htb pdu' hpdu'
      dsimp only at htb hpdu'
      rw [htx.pduPtr] at hpdu'
      have hpdu'' : pdu = pdu' := Option.some.inj hpdu'
      split at htb
      · exact hpdu''.symm.trans (Option.some.inj htb)
      · cases htb
  | adaptive g ndi ttiTx tempRnti hgrant hnew =>
    exact h.retx he (transmits_adaptive limits _ ttiTx _ tempRnti)
      (UlRun.not_asksMux_generateRetx ttiTx _ tempRnti) rfl hspec.pduPtr hinv
  | nonAdaptive ttiTx tempRnti hconf hgrant =>
    exact h.retx he (transmits_nonAdaptive limits (h.feedback_after hconf) ttiTx tempRnti)
      (UlRun.not_asksMux_generateRetx ttiTx _ tempRnti) rfl hspec.pduPtr hinv

/-- An entry follows the NDI exactly when it repeats it for the same block. -/
theorem UlRun.NdiInv.followsNdi_iff (h : r.NdiInv) (he : NdiEvent codes e) :
    FollowsNdi codes limits r e ↔ RepeatsNdi r e := by
  have hspec := feedbackSpec r.proc e
  simp only [FollowsNdi, RepeatsNdi]
  refine forall_congr' fun g => imp_congr_right fun hgrant => imp_congr_right fun hg => ?_
  obtain ⟨ttiTx, tempRnti, hord⟩ :=
    order_crnti codes (afterFeedback r.proc e) hg hgrant
  rw [handle_eq, hord]
  cases hconf : (afterFeedback r.proc e).isGrantConfigured with
  | true =>
    -- The block is retransmitted, whatever the NDI says.
    obtain ⟨tb, htb⟩ := Option.isSome_iff_exists.mp (h.heldAfterAck_of_configured he hconf)
    have htx := transmits_adaptive limits (afterFeedback r.proc e) ttiTx g tempRnti
    have hcalls : (perform limits (.adaptive (afterFeedback r.proc e) ttiTx g tempRnti)).calls.any
        asksMux = false := UlRun.not_asksMux_generateRetx ttiTx _ tempRnti
    have hpayload : (perform limits (.adaptive (afterFeedback r.proc e) ttiTx g
        tempRnti)).action.payloadPtr = r.proc.pduPtr := htx.payload.trans hspec.pduPtr
    rw [if_pos rfl, hcalls, hpayload, htx.txEnabled, htb]
    constructor
    · rintro ⟨hnew, hretx⟩ -
      have hndi : r.prevNdi = some g.ndi := by
        by_contra hne
        cases (hnew (Or.inr hne)).1
      rw [(hretx tb rfl hndi).2.1]
      exact ⟨hndi, rfl⟩
    · intro hrep
      obtain ⟨hndi, hsome⟩ := hrep rfl
      obtain ⟨pdu, hpdu⟩ := Option.isSome_iff_exists.mp hsome
      have heq := h.pdu_eq tb (UlRun.mem_held_of_heldAfterAck htb) pdu hpdu
      refine ⟨fun hor => ?_, fun tb' htb' _ => ⟨rfl, ?_, rfl⟩⟩
      · rcases hor with hnone | hne
        · cases hnone
        · exact absurd hndi hne
      · rw [hpdu, heq]
        exact htb'
  | false =>
    -- The mux is asked, and nothing is held.
    have hheld : r.heldAfterAck e = none := by
      rw [← Option.not_isSome_iff_eq_none]
      exact fun hsome => by rw [h.configured_of_heldAfterAck hsome] at hconf; cases hconf
    rw [hheld]
    refine iff_of_true ⟨fun _ => ?_, fun _ htb => by cases htb⟩ (fun hnone => by cases hnone)
    cases hpdu : muxPdu e with
    | none =>
      refine ⟨?_, fun _ hnone => by cases hnone⟩
      simp [perform, UlRun.asksMux_muxRequest]
    | some pdu =>
      have htx := transmits_fresh limits (afterFeedback r.proc e) ttiTx g pdu tempRnti
      have hfresh : UlRun.isFresh
          (perform limits (.fresh (afterFeedback r.proc e) ttiTx g pdu tempRnti)) = true :=
        UlRun.isFresh_fresh ttiTx g pdu tempRnti
      rw [UlRun.isFresh, Bool.and_eq_true] at hfresh
      refine ⟨hfresh.1, fun pdu' hpdu' => ⟨htx.txEnabled, ?_⟩⟩
      rw [← Option.some.inj hpdu']
      exact htx.payload

end

/-- A run of grants for the C-RNTI, grants of random access responses and feedback follows the NDI
exactly when no grant toggles it while a block is held, and no retransmission has lost its PDU. -/
theorem ndi_run (codes : RntiCodes) (limits : UlLimits) (pid : Nat) (harqFeedback isMsg3 : Bool)
    (buffer : Bytes) (es : List (UlEvent Γ)) (hes : ∀ e ∈ es, NdiEvent codes e) :
    Along (UlRun.step codes limits) (fun r e _ => FollowsNdi codes limits r e)
        (UlRun.start pid harqFeedback isMsg3 buffer) es ↔
      Along (UlRun.step codes limits) (fun r e _ => RepeatsNdi r e)
        (UlRun.start pid harqFeedback isMsg3 buffer) es := by
  refine along_iff (I := UlRun.NdiInv) (K := NdiEvent codes)
    (fun r e r' h he _ => h.followsNdi_iff he) (fun r e r' h he hstep _ => ?_) hes
    ⟨UlRun.inv_start _ _ _ _, (fun h => by cases h), (fun _ h => by cases h)⟩
  obtain rfl := Option.some.inj hstep
  exact h.after he

/-- A new block, and a retransmission that is ordered with the same NDI. -/
theorem ndi_run_retx :
    Along (UlRun.step rntiCodes ⟨4, 4⟩) (fun r e _ => FollowsNdi rntiCodes ⟨4, 4⟩ r e)
      (UlRun.start 0 false false [])
      [.newGrantUl { ndi := true, phyGrant := 5 } { muxPdu := some [7] },
        .newGrantUlAck { tti := 8, ndi := true, phyGrant := 5 } false { muxPdu := some [8] }] := by
  refine (ndi_run rntiCodes ⟨4, 4⟩ 0 false false [] _ ?_).mpr ?_
  · intro e he
    rcases List.mem_cons.mp he with rfl | he
    · exact Or.inl rfl
    · rw [List.mem_singleton.mp he]
      exact Or.inl rfl
  · intro r hr
    obtain rfl := Option.some.inj hr
    refine ⟨fun g hg _ hheld => (by cases hheld), fun r' hr' => ⟨fun g hg _ _ => ?_, trivial⟩⟩
    obtain rfl := Option.some.inj hg
    exact ⟨rfl, rfl⟩

/-- The NDI is toggled while a block is held: the block is transmitted again, and the mux is not
asked. -/
theorem not_followsNdi_toggled :
    ¬Along (UlRun.step rntiCodes ⟨4, 4⟩) (fun r e _ => FollowsNdi rntiCodes ⟨4, 4⟩ r e)
      (UlRun.start 0 false false [])
      [.newGrantUl { ndi := true, phyGrant := 5 } { muxPdu := some [7] },
        .newGrantUl { tti := 8, ndi := false, phyGrant := 5 } { muxPdu := some [8] }] := by
  intro h
  have htoggled := (((h _ rfl).2 _ rfl).1 _ rfl rfl).1 (Or.inr (by decide))
  exact absurd htoggled.1 (by decide)

end SrsUE.Proofs.Mac
