import SrsUE.Rlc.Um

/-!
# `SrsUE.Rlc.UmRx`: the receive side of the unacknowledged mode entity

`RlcUmRx` holds the receive variables of an `rlc_um` object, and the functions below are its
methods of the receive side. The transmit variables of `RlcUm` and these are disjoint, so the
two halves of an entity are modelled apart.

`rx_sdu` is `NULL` before the first PDU and points to a buffer from then on. A new buffer has no
bytes, so the empty list stands for both. The two loops of `reassemble_rx_sdus` and the one of
`timer_expired` count their rounds; `rx_mod` rounds are always enough (see
`SrsUE.Proofs.Rlc.UmWindow`). A length indicator that runs past the data of its PDU copies what is
there. How far `rx_sdu` is written is in `SrsUE.Rlc.BufferRoom`, and the buffer pool does not run
empty.
-/

set_option autoImplicit false

namespace SrsUE.Rlc.Um

open SrsUE.Lib

/-! ### UMD PDU header -/

/-- The extension bit, the header without length indicators, and the bytes behind the fixed
part, as `rlc_um_read_data_pdu_header` reads them. -/
def readFixedPart : UmdSnSize → Bytes → Option (Nat × UmdPduHeader × Bytes)
  | .size5Bits, b0 :: rest =>
    some ((b0.toNat >>> 5) &&& 0x01,
      { fi := .ofNat 2 ((b0.toNat >>> 6) &&& 0x03), snSize := .size5Bits
        sn := b0.toNat &&& 0x1F }, rest)
  | .size10Bits, b0 :: b1 :: rest =>
    some ((b0.toNat >>> 2) &&& 0x01,
      { fi := .ofNat 2 ((b0.toNat >>> 3) &&& 0x03), snSize := .size10Bits
        sn := (b0.toNat &&& 0x03) <<< 8 ||| (b1.toNat &&& 0xFF) }, rest)
  | _, _ => none

/-- What `rlc_um_read_data_pdu_header` reads, with any number of length indicators: the header and
the data behind it. The loop over the extension part is that of acknowledged mode. The result is
`none` where the source reads past the PDU. -/
def parseDataPduHeader (snSize : UmdSnSize) (payload : Bytes) : Option (UmdPduHeader × Bytes) := do
  let (ext, header, rest) ← readFixedPart snSize payload
  if ext = 0 then some (header, rest)
  else do
    let (li, rest) ← readLis rest
    some ({ header with li := li }, rest)

/-- `rlc_um_read_data_pdu_header`. The `li` array has 512 elements, and the loop stores behind them
what comes after. -/
def readDataPduHeader (snSize : UmdSnSize) (payload : Bytes) : Option (UmdPduHeader × Bytes) := do
  let (header, data) ← parseDataPduHeader snSize payload
  if header.li.length ≤ 512 then some (header, data) else none

/-- A header is read when its length indicators fit the array. -/
theorem readDataPduHeader_eq_some_iff {snSize : UmdSnSize} {payload data : Bytes}
    {header : UmdPduHeader} : readDataPduHeader snSize payload = some (header, data)
      ↔ parseDataPduHeader snSize payload = some (header, data) ∧ header.li.length ≤ 512 := by
  unfold readDataPduHeader
  constructor
  · intro h
    obtain ⟨⟨header', data'⟩, hparse, hli⟩ := Option.bind_eq_some_iff.mp h
    simp only at hli
    split at hli
    · rename_i hle
      obtain ⟨rfl, rfl⟩ := Prod.mk.inj (Option.some.inj hli)
      exact ⟨hparse, hle⟩
    · cases hli
  · rintro ⟨hparse, hle⟩
    rw [hparse]
    exact if_pos hle

/-- `rlc_um_start_aligned` -/
def startAligned (fi : FiField) : Bool := fi == fiStartAndEndAligned || fi == fiNotEndAligned

/-- `rlc_um_end_aligned` -/
def endAligned (fi : FiField) : Bool := fi == fiStartAndEndAligned || fi == fiNotStartAligned

/-! ### The entity -/

/-- `rlc_umd_pdu_t`: a received PDU, with the header stripped from the buffer. -/
structure UmdPdu where
  header : UmdPduHeader
  buf : Bytes
deriving DecidableEq, Repr

/-- The receive variables of an `rlc_um` object. `pdcp` collects the SDUs handed to
`pdcp->write_pdu`. -/
structure RlcUmRx where
  rxWindow : Dict Nat UmdPdu := .empty
  rxSdu : Bytes := []
  vrUrInRxSdu : Nat := 0
  rxSnFieldLength : UmdSnSize
  rxWindowSize : Nat
  rxMod : Nat
  tReordering : Nat
  vrUr : Nat := 0
  vrUx : Nat := 0
  vrUh : Nat := 0
  reorderingTimer : Timer := {}
  pduLost : Bool := false
  pdcp : List Bytes := []

/-- A newly constructed entity after `configure`, for a bearer that receives. -/
def configureRx (rxSnFieldLength : UmdSnSize) (tReordering : Nat) : RlcUmRx :=
  { rxSnFieldLength := rxSnFieldLength
    rxWindowSize := match rxSnFieldLength with
      | .size5Bits => 16
      | .size10Bits => 512
    rxMod := match rxSnFieldLength with
      | .size5Bits => 32
      | .size10Bits => 1024
    tReordering := tReordering }

/-- `configure` of the members that a bearer needs to receive. -/
def RlcUmRx.reconfigure (st : RlcUmRx) (rxSnFieldLength : UmdSnSize) (tReordering : Nat) :
    RlcUmRx :=
  { st with
    rxSnFieldLength := rxSnFieldLength
    rxWindowSize := (configureRx rxSnFieldLength tReordering).rxWindowSize
    rxMod := (configureRx rxSnFieldLength tReordering).rxMod
    tReordering := tReordering }

/-- `reset` of the receive variables. It does not touch `vr_ur_in_rx_sdu`. -/
def RlcUmRx.reset (st : RlcUmRx) : RlcUmRx :=
  { st with
    vrUr := 0, vrUx := 0, vrUh := 0, pduLost := false, rxSdu := []
    reorderingTimer := st.reorderingTimer.stop, rxWindow := .empty }

namespace RlcUmRx

variable (st : RlcUmRx)

/-- `RX_MOD_BASE`, in `uint32_t` arithmetic. -/
def rxModBase (x : Nat) : Nat := sub32 (sub32 x st.vrUh) st.rxWindowSize % st.rxMod

/-- `inside_reordering_window` -/
def insideReorderingWindow (sn : Nat) : Bool :=
  decide (st.rxModBase (sub32 st.vrUh st.rxWindowSize) ≤ st.rxModBase sn)
    && decide (st.rxModBase sn < st.rxModBase st.vrUh)

/-- `vr_ur` moves on by one. -/
def advance : RlcUmRx := { st with vrUr := (st.vrUr + 1) % st.rxMod }

/-! ### Reassembly -/

/-- Hand `rx_sdu` to PDCP, or reset it. `pdu_lost` is cleared either way. -/
def finishSdu (drop : Bool) : RlcUmRx :=
  { st with
    rxSdu := []
    pdcp := if drop then st.pdcp else st.pdcp ++ [st.rxSdu]
    pduLost := false }

end RlcUmRx

/-- The loop over the length indicators of the PDU at `vr_ur`, and the data it leaves. -/
def reassembleLis (fi : FiField) : List Nat → Bytes → RlcUmRx → RlcUmRx × Bytes
  | [], buf, st => (st, buf)
  | len :: lis, buf, st =>
    -- "Dropping remainder of lost PDU (middle segments)". `&&` binds tighter than `||`.
    let drop := st.pduLost && !startAligned fi
      || decide (st.vrUr ≠ (st.vrUrInRxSdu + 1) % st.rxMod)
    reassembleLis fi lis (buf.drop len)
      ({ st with rxSdu := st.rxSdu ++ buf.take len }.finishSdu drop)

/-- The last segment of the PDU at `vr_ur`. -/
def reassembleLast (fi : FiField) (buf : Bytes) (st : RlcUmRx) : RlcUmRx :=
  let st := { st with rxSdu := st.rxSdu ++ buf, vrUrInRxSdu := st.vrUr }
  -- "Dropping remainder of lost PDU (last segments)", without the test on `vr_ur_in_rx_sdu`.
  if endAligned fi then st.finishSdu (st.pduLost && !startAligned fi) else st

/-- What both loops of `reassemble_rx_sdus` do with the PDU at `vr_ur`. -/
def reassemblePdu (st : RlcUmRx) (pdu : UmdPdu) : RlcUmRx :=
  let (st, buf) := reassembleLis pdu.header.fi pdu.header.li pdu.buf st
  let st := reassembleLast pdu.header.fi buf st
  { st with rxWindow := st.rxWindow.erase st.vrUr }

/-- One round of the first loop of `reassemble_rx_sdus`. -/
def catchUpRound (st : RlcUmRx) : RlcUmRx :=
  (match st.rxWindow st.vrUr with
    -- The PDU is missing, and the SDU that it continues is lost.
    | none => { st with rxSdu := [] }
    | some pdu => reassemblePdu st pdu).advance

/-- The first loop of `reassemble_rx_sdus`: catch up with the lower edge of the reordering
window. -/
def catchUp : Nat → RlcUmRx → RlcUmRx
  | 0, st => st
  | rounds + 1, st =>
    if st.insideReorderingWindow st.vrUr then st else catchUp rounds (catchUpRound st)

/-- The second loop of `reassemble_rx_sdus`: update `vr_ur` until an SN that has not been
received. -/
def updateVrUr : Nat → RlcUmRx → RlcUmRx
  | 0, st => st
  | rounds + 1, st =>
    match st.rxWindow st.vrUr with
    | none => st
    | some pdu => updateVrUr rounds (reassemblePdu st pdu).advance

/-- `reassemble_rx_sdus` -/
def reassembleRxSdus (st : RlcUmRx) : RlcUmRx := updateVrUr st.rxMod (catchUp st.rxMod st)

/-! ### Received PDUs and the reordering timer -/

/-- Start the reordering timer when PDUs are missing below `vr_uh`. -/
def startReordering (st : RlcUmRx) : RlcUmRx :=
  if st.rxModBase st.vrUr < st.rxModBase st.vrUh then
    { st with
      reorderingTimer := (st.reorderingTimer.set st.tReordering).run
      vrUx := st.vrUh }
  else st

/-- The end of `handle_data_pdu`: update the reordering variables and timers. -/
def updateReordering (st : RlcUmRx) : RlcUmRx :=
  let st :=
    -- `vr_ux` is reached, or it is outside of the window.
    if st.reorderingTimer.isRunning
        && (decide (st.rxModBase st.vrUx ≤ st.rxModBase st.vrUr)
          || !st.insideReorderingWindow st.vrUx && decide (st.vrUx ≠ st.vrUh))
    then { st with reorderingTimer := st.reorderingTimer.stop } else st
  if st.reorderingTimer.isRunning then st else startReordering st

/-- The part of `handle_data_pdu` that writes a PDU to `rx_window` and updates `vr_uh`. -/
def storeDataPdu (st : RlcUmRx) (header : UmdPduHeader) (buf : Bytes) : RlcUmRx :=
  let st := { st with
    rxWindow := st.rxWindow.insert header.sn { header := header, buf := buf } }
  -- A PDU in front of the window moves it along.
  if st.insideReorderingWindow header.sn then st
  else { st with vrUh := (header.sn + 1) % st.rxMod }

/-- `handle_data_pdu` behind the header. -/
def receivePdu (st : RlcUmRx) (header : UmdPduHeader) (buf : Bytes) : RlcUmRx :=
  -- "outside rx window - discarding", then "Discarding duplicate SN".
  if st.rxModBase (sub32 st.vrUh st.rxWindowSize) ≤ st.rxModBase header.sn
      ∧ st.rxModBase header.sn < st.rxModBase st.vrUr then st
  else if (st.rxWindow header.sn).isSome then st
  else updateReordering (reassembleRxSdus (storeDataPdu st header buf))

/-- `handle_data_pdu` -/
def handleDataPdu (st : RlcUmRx) (payload : Bytes) : Option RlcUmRx := do
  let (header, buf) ← readDataPduHeader st.rxSnFieldLength payload
  some (receivePdu st header buf)

/-- The loop of `timer_expired`. -/
def skipMissing : Nat → RlcUmRx → RlcUmRx
  | 0, st => st
  | rounds + 1, st =>
    if st.rxModBase st.vrUr < st.rxModBase st.vrUx then
      skipMissing rounds (reassembleRxSdus st.advance)
    else st

/-- `timer_expired` for the reordering timer (36.322 v10 Section 5.1.2.2.4). -/
def timerExpired (st : RlcUmRx) : RlcUmRx :=
  let st := skipMissing st.rxMod { st with pduLost := true, rxSdu := [] }
  startReordering { st with reorderingTimer := st.reorderingTimer.stop }

/-- A `step` of the reordering timer by `step_all`, with its call of `timer_expired`. -/
def stepReorderingTimer (st : RlcUmRx) : RlcUmRx :=
  let (timer, expired) := st.reorderingTimer.step
  let st := { st with reorderingTimer := timer }
  if expired then timerExpired st else st

/-- What happens to the receive side: MAC hands over a PDU, or the reordering timer runs
out. -/
inductive RxEvent where
  | writePdu (payload : Bytes)
  | timerExpired
deriving DecidableEq, Repr

/-- The entity after an event. Only a running timer runs out. -/
def rxStep (st : RlcUmRx) : RxEvent → Option RlcUmRx
  | .writePdu payload => handleDataPdu st payload
  | .timerExpired =>
    if st.reorderingTimer.isRunning then
      some (timerExpired { st with reorderingTimer := st.reorderingTimer.expire })
    else none

/-! ### Both halves -/

/-- An `rlc_um` object. -/
structure UmEntity where
  tx : RlcUm
  rx : RlcUmRx

/-- The fields of `LIBLTE_RRC_RLC_CONFIG_STRUCT` that `configure` reads, by `rlc_mode`. -/
inductive UmConfig where
  | umBi (rxSnFieldLength : UmdSnSize) (tReordering : Nat) (txSnFieldLength : UmdSnSize)
  | umUniUl (txSnFieldLength : UmdSnSize)
  | umUniDl (rxSnFieldLength : UmdSnSize) (tReordering : Nat)
deriving DecidableEq, Repr

namespace UmEntity

/-- `configure` -/
def configure (e : UmEntity) : UmConfig → UmEntity
  | .umBi rxSn t txSn => { tx := e.tx.reconfigure txSn, rx := e.rx.reconfigure rxSn t }
  | .umUniUl txSn => { e with tx := e.tx.reconfigure txSn }
  | .umUniDl rxSn t => { e with rx := e.rx.reconfigure rxSn t }

/-- `reset` -/
def reset (e : UmEntity) : UmEntity := { tx := e.tx.reset, rx := e.rx.reset }

/-- `rlc_entity::reset` and then `rlc_entity::init`, for the `um` member: `empty_queue`, `reset`,
and an `init` that takes another timer. -/
def entityReset (e : UmEntity) : UmEntity :=
  let e : UmEntity := { e with tx := { e.tx with txSduQueue := [] } }
  { e.reset with rx := { e.reset.rx with reorderingTimer := {} } }

end UmEntity

/-- A new entity. The members that only `configure` sets hold anything. -/
def newUm (rxSn : UmdSnSize) (t : Nat) (txSn : UmdSnSize) : UmEntity :=
  { tx := Um.configure txSn, rx := configureRx rxSn t }

end SrsUE.Rlc.Um
