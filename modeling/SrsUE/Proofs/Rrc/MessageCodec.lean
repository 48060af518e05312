import SrsUE.Proofs.Rrc.ContentionIdentity
import SrsUE.Proofs.Rrc.RadioResourceSize

/-!
# `SrsUE.Proofs.Rrc.MessageCodec`: which messages come back from their bytes

`dlCcch_iff`, `ulCcch_iff` and `ulDcch_iff` say which messages the reader gets back from the bytes
that are sent, whatever the buffer holds behind them. On the downlink common channel these are all
messages without RLF timers, but of the reestablishments only those with a next hop chaining count
of zero: the writer of the configuration puts the flag of its extension in front of the count, and
the reader does not take it. On the dedicated channel these are all messages with room for what NAS
sends and with codes of three digits.
-/

set_option autoImplicit false

namespace SrsUE.Rrc

open SrsUE.Lib SrsUE.Rlc

variable (rest : List Bool)

/-! ### Bytes -/

/-- The padding fills up the last octet. -/
theorem length_byteAlign (bits : List Bool) :
    (byteAlign bits).length % 8 = 0 ∧ (byteAlign bits).length / 8 = (bits.length + 7) / 8 := by
  rw [byteAlign]
  split
  · rw [List.length_append, List.length_replicate]
    omega
  · omega

/-- The bytes of a message have room in the byte buffer when its bits are no more than eight for
each. -/
theorem toPdu_eq_some_iff (L : SrslteBit) {bits : List Bool} {pdu : Bytes} :
    toPdu L bits = some pdu ↔ bits.length ≤ 8 * msgRoom ∧ pdu = L.packVector (byteAlign bits) := by
  obtain ⟨halign, hlen⟩ := length_byteAlign bits
  have hiff : (L.packVector (byteAlign bits)).length ≤ msgRoom ↔ bits.length ≤ 8 * msgRoom := by
    rw [L.length_packVector _ halign, hlen]
    omega
  rw [toPdu]
  by_cases hroom : (L.packVector (byteAlign bits)).length ≤ msgRoom
  · rw [if_pos hroom]
    exact ⟨fun h => ⟨hiff.mp hroom, (Option.some.inj h).symm⟩, fun h => congrArg some h.2.symm⟩
  · rw [if_neg hroom]
    exact iff_of_false (Option.some_ne_none _ ·.symm) fun h => hroom (hiff.mpr h.1)

/-- The byte buffer is the smallest of the buffers on the way. -/
theorem pdu_eq_some_iff (L : SrslteBit) {packed : Option (List Bool)} {bits : List Bool}
    {pdu : Bytes}
    (h : ∀ b, packed = some b ↔ bits.length ≤ msgRoomBits ∧ b = bits) :
    packed.bind (toPdu L) = some pdu ↔ bits.length ≤ 8 * msgRoom ∧ pdu
      = L.packVector (byteAlign bits) := by
  have hroom : 8 * msgRoom ≤ msgRoomBits := by decide
  rw [Option.bind_eq_some_iff]
  constructor
  · rintro ⟨b, hb, hpdu⟩
    obtain ⟨-, rfl⟩ := (h b).mp hb
    exact (toPdu_eq_some_iff L).mp hpdu
  · rintro ⟨hlen, hpdu⟩
    exact ⟨bits, (h bits).mpr ⟨Nat.le_trans hlen hroom, rfl⟩,
      (toPdu_eq_some_iff L).mpr ⟨hlen, hpdu⟩⟩

/-- What a receiver gets from the bytes are the bits with some padding. -/
theorem unpackVector_byteAlign (L : SrslteBit) (bits : List Bool) :
    ∃ pad, L.unpackVector (L.packVector (byteAlign bits)) = bits ++ pad := by
  rw [L.unpackVector_packVector _ (length_byteAlign bits).1, byteAlign]
  split
  · exact ⟨_, rfl⟩
  · exact ⟨[], (List.append_nil bits).symm⟩

/-- A reader gets a value back from the bytes of a message when it gets the value back from its
bits. -/
theorem forall_pdu_iff {α : Type} (L : SrslteBit) {r : BitReader α} {bits : List Bool} {a : α}
    {p : Prop}
    (hread : ∀ rest, (r.run (bits ++ rest)).1 = a ↔ p) :
    (∀ rest, (r.run (L.unpackVector (L.packVector (byteAlign bits)) ++ rest)).1 = a) ↔ p := by
  obtain ⟨pad, hpad⟩ := unpackVector_byteAlign L bits
  rw [hpad]
  constructor
  · intro h
    rw [← hread (pad ++ []), ← List.append_assoc]
    exact h []
  · intro hp rest
    rw [List.append_assoc]
    exact (hread (pad ++ rest)).mpr hp

/-! ### The common channel -/

/-- The configuration as it is read into a structure of zeros. -/
def RrConfigDedicated.read (c : RrConfigDedicated) : RrConfigDedicated :=
  { c with rlfTimersAndConstants := none }

/-- The bits that are left when the reader has gone through the configuration. -/
def RrConfigDedicated.behind (c : RrConfigDedicated) (rest : List Bool) : List Bool :=
  ((consumeNoncritExtension c.rlfTimersAndConstants.isSome).run (packRlfExtension c ++ rest)).2

/-- Into a structure of zeros the reader gets all of the configuration but the timers and constants.
-/
@[simp] theorem unpackRrConfigDedicated_zero (c : RrConfigDedicated) :
    (unpackRrConfigDedicated {}).run (packRrConfigDedicated c ++ rest)
      = (c.read, c.behind rest) := by
  rw [unpackRrConfigDedicated_pack]
  obtain ⟨srb, drb, release, mac, sps, phy, rlf⟩ := c
  cases srb <;> cases drb <;> cases release <;> rfl

/-- So a configuration comes back exactly when it has no timers and constants. -/
theorem RrConfigDedicated.read_eq_iff (c : RrConfigDedicated) :
    c.read = c ↔ c.rlfTimersAndConstants = none := by
  constructor
  · intro h
    rw [← h]
    rfl
  · intro h
    rw [read, ← h]

/-- One bit of a number is read as a flag. -/
@[simp] theorem getFlag_putNat_one (v : Nat) :
    getFlag.run (putNat 1 v ++ rest) = (v.testBit 0, rest) := rfl

/-- The connection setup, with its configuration as the reader gets it. -/
theorem unpackConnectionSetup_pack (m : ConnectionSetup) :
    ((unpackConnectionSetup {}).run (packConnectionSetup m ++ rest)).1
      = { m with rrCnfg := m.rrCnfg.read } := by
  simp [unpackConnectionSetup, packConnectionSetup]

/-- The connection reject, a wait time. -/
theorem unpackConnectionReject_pack (m : ConnectionReject) :
    unpackConnectionReject.run (packConnectionReject m ++ rest) = (m, rest) := by
  simp [unpackConnectionReject, packConnectionReject]

/-- Without RLF timers, the flag of the extension comes before the count, and the last bit of the
count is not read. -/
theorem unpackConnectionReestablishment_pack (m : ConnectionReestablishment) :
    ((unpackConnectionReestablishment {}).run (packConnectionReestablishment m ++ rest)).1
      = { m with
          rrCnfg := m.rrCnfg.read
          nextHopChainingCount :=
            ((getBits 3).run (m.rrCnfg.behind (putBits m.nextHopChainingCount ++ rest))).1 } := by
  simp [unpackConnectionReestablishment, packConnectionReestablishment]

/-- The count that is read behind the flag of the extension is the one written only when it is
zero. -/
theorem getBits_behind_iff {c : RrConfigDedicated} (hrlf : c.rlfTimersAndConstants = none)
    (count : BitVec 3) :
    ((getBits 3).run (c.behind (putBits count ++ rest))).1 = count ↔ count = 0 := by
  have hbehind : c.behind (putBits count ++ rest) = false :: (putBits count ++ rest) := by
    rw [RrConfigDedicated.behind, packRlfExtension, hrlf]
    rfl
  have hread : ((getBits 3).run (false :: (putBits count ++ rest))).1
      = BitVec.ofNat 3 ((count.toNat.testBit 2).toNat * 2 + (count.toNat.testBit 1).toNat) := by
    simp [getBits, getNat, getFlag, putBits, putNat]
  rw [hbehind, hread]
  clear hbehind hread
  revert count
  decide

/-- A message that the reader gets back. -/
def DlCcchMsg.Kept : DlCcchMsg → Prop
  | .rrcConReest m => m.rrCnfg.rlfTimersAndConstants = none ∧ m.nextHopChainingCount = 0
  | .rrcConSetup m => m.rrCnfg.rlfTimersAndConstants = none
  | .rrcConReestRej | .rrcConRej _ => True

/-- The bits of a message. -/
def DlCcchMsg.bits : DlCcchMsg → List Bool
  | .rrcConReest m => putFlag false ++ putNat 2 0 ++ packConnectionReestablishment m
  | .rrcConReestRej => putFlag false ++ putNat 2 1 ++ packConnectionReestablishmentReject
  | .rrcConRej m => putFlag false ++ putNat 2 2 ++ packConnectionReject m
  | .rrcConSetup m => putFlag false ++ putNat 2 3 ++ packConnectionSetup m

/-- A message on DL-CCCH is written when its bits have room in the bit buffer. -/
theorem packDlCcchMsg_eq_some_iff (m : DlCcchMsg) (b : List Bool) :
    packDlCcchMsg m = some b ↔ m.bits.length ≤ msgRoomBits ∧ b = m.bits := by
  cases m <;> exact withHeader_eq_some_iff (by decide)

/-- Every message has room in the buffers. -/
theorem DlCcchMsg.length_bits_le (m : DlCcchMsg) : m.bits.length ≤ 8 * msgRoom := by
  have hroom : 8 * msgRoom = 93856 := rfl
  cases m with
  | rrcConReest m =>
    have hcnfg := length_packRrConfigDedicated_le m.rrCnfg
    simp only [bits, packConnectionReestablishment, List.length_append, length_putFlag,
      length_putBits, length_putNat]
    omega
  | rrcConReestRej => decide
  | rrcConRej m =>
    simp only [bits, packConnectionReject, List.length_append, length_putFlag, length_putBits,
      length_putNat]
    omega
  | rrcConSetup m =>
    have hcnfg := length_packRrConfigDedicated_le m.rrCnfg
    simp only [bits, packConnectionSetup, List.length_append, length_putFlag, length_putBits,
      length_putNat]
    omega

/-- A message has at least the bits of its header. -/
theorem DlCcchMsg.bits_ne_nil (m : DlCcchMsg) : m.bits ≠ [] := by
  cases m <;> exact List.cons_ne_nil _ _

/-- It comes back exactly when it is one of those that the reader gets back. -/
theorem unpackDlCcchMsg_bits_iff (m : DlCcchMsg) :
    ((unpackDlCcchMsg {}).run (m.bits ++ rest)).1 = m ↔ m.Kept := by
  cases m with
  | rrcConReest m =>
    have hread := unpackConnectionReestablishment_pack rest m
    obtain ⟨t, c, count⟩ := m
    simp only [DlCcchMsg.bits, unpackDlCcchMsg, List.append_assoc, BitReader.run_bind,
      getFlag_putFlag, getNat_putNat, Nat.reducePow, Nat.zero_mod, BitReader.run_map, hread,
      DlCcchMsg.rrcConReest.injEq, ConnectionReestablishment.mk.injEq, true_and,
      RrConfigDedicated.read_eq_iff, DlCcchMsg.Kept]
    exact and_congr_right fun hrlf => getBits_behind_iff rest hrlf count
  | rrcConReestRej => simp [DlCcchMsg.bits, unpackDlCcchMsg, DlCcchMsg.Kept]
  | rrcConRej m =>
    simp [DlCcchMsg.bits, unpackDlCcchMsg, DlCcchMsg.Kept, unpackConnectionReject_pack]
  | rrcConSetup m =>
    have hread := unpackConnectionSetup_pack rest m
    obtain ⟨t, c⟩ := m
    simp [DlCcchMsg.bits, unpackDlCcchMsg, hread, DlCcchMsg.Kept, RrConfigDedicated.read_eq_iff]

/-- Every message has its bytes, and these are the messages that the device reads as they were
meant. -/
theorem dlCcch_iff (L : SrslteBit) (m : DlCcchMsg) :
    ∃ pdu, (packDlCcchMsg m).bind (toPdu L) = some pdu ∧ pdu ≠ [] ∧
      ((∀ rest, ((unpackDlCcchMsg {}).run (L.unpackVector pdu ++ rest)).1 = m) ↔ m.Kept) := by
  have hpdu := (pdu_eq_some_iff L (packDlCcchMsg_eq_some_iff m)).mpr ⟨m.length_bits_le, rfl⟩
  refine ⟨_, hpdu, fun hnil => ?_, forall_pdu_iff L fun rest => unpackDlCcchMsg_bits_iff rest m⟩
  -- The bits of the message would be none.
  have hzero : (L.packVector (byteAlign m.bits)).length = 0 := by rw [hnil, List.length_nil]
  obtain ⟨halign, hlen⟩ := length_byteAlign m.bits
  have hpos := List.length_pos_iff.mpr m.bits_ne_nil
  rw [L.length_packVector _ halign, hlen] at hzero
  omega

/-- The messages that the base station reads as they were meant, into a structure with the identity
`old`. Of a reestablishment it keeps what `old` has by chance. -/
def UlCcchMsg.Kept (old : ReestUeIdentity) : UlCcchMsg → Prop
  | .rrcConReq _ => True
  | .rrcConReestReq m =>
    m.ueId.cRnti = m.ueId.shortMacI ∧ m.ueId.physCellId = old.physCellId ∧ m.ueId.shortMacI
      = old.shortMacI

/-- The first bit is read as a flag. -/
theorem getFlag_cons (b : Bool) : getFlag.run (b :: rest) = (b, rest) := rfl

/-- A message on UL-CCCH comes back exactly when it is one of those the base station reads as meant.
-/
theorem unpackUlCcchMsg_bits_iff (old : ReestUeIdentity) (m : UlCcchMsg) :
    ((unpackUlCcchMsg old).run (m.bits ++ rest)).1 = m ↔ m.Kept old := by
  cases m with
  | rrcConReq m =>
    rw [UlCcchMsg.Kept, iff_true]
    simp [UlCcchMsg.bits, unpackUlCcchMsg, getFlag_cons]
  | rrcConReestReq m =>
    have hread : ((unpackUlCcchMsg old).run ((UlCcchMsg.rrcConReestReq m).bits ++ rest)).1
        = .rrcConReestReq { m with ueId := { old with cRnti := m.ueId.shortMacI } } := by
      simp [UlCcchMsg.bits, unpackUlCcchMsg, unpackConnectionReestablishmentRequest,
        packConnectionReestablishmentRequest, getFlag_cons]
    rw [hread]
    obtain ⟨⟨cRnti, physCellId, shortMacI⟩, cause⟩ := m
    obtain ⟨_, oldPhysCellId, oldShortMacI⟩ := old
    simp only [UlCcchMsg.rrcConReestReq.injEq, ConnectionReestablishmentRequest.mk.injEq,
      ReestUeIdentity.mk.injEq, and_true, UlCcchMsg.Kept]
    exact and_congr eq_comm (and_congr eq_comm eq_comm)

/-- Every request has its bytes, and these are the ones that come back from them. -/
theorem ulCcch_iff (L : SrslteBit) (old : ReestUeIdentity) (m : UlCcchMsg) :
    ∃ pdu, (packUlCcchMsg m).bind (toPdu L) = some pdu ∧
      ((∀ rest, ((unpackUlCcchMsg old).run (L.unpackVector pdu ++ rest)).1 = m) ↔ m.Kept old) := by
  have hlen := m.length_bits
  have hbits : ∀ b, packUlCcchMsg m = some b ↔ m.bits.length ≤ msgRoomBits ∧ b = m.bits :=
    fun b => by
    rw [packUlCcchMsg_eq, Option.some_inj, hlen]
    exact ⟨fun h => ⟨by decide, h.symm⟩, fun h => h.2.symm⟩
  have hpdu := (pdu_eq_some_iff L hbits).mpr ⟨by rw [hlen]; decide, rfl⟩
  exact ⟨_, hpdu, forall_pdu_iff L fun rest => unpackUlCcchMsg_bits_iff rest old m⟩

/-! ### The dedicated channel -/

/-- An octet comes back. -/
@[simp] theorem getByte_putByte (b : UInt8) : getByte.run (putByte b ++ rest) = (b, rest) := by
  have hmod : b.toNat % 256 = b.toNat := Nat.mod_eq_of_lt b.toNat_lt
  simp [getByte, putByte, hmod]

/-- Octets take eight bits each. -/
theorem length_putBytes (msg : Bytes) : (putList putByte msg).length = 8 * msg.length := by
  induction msg with
  | nil => rfl
  | cons b msg ih =>
    have hrest : (msg.flatMap putByte).length = 8 * msg.length := ih
    simp [putList, putByte, hrest]
    omega

/-- A length below 128 comes back from its octet. -/
theorem unpackLength_short {n : Nat} (h : n < 128) :
    unpackLength.run (putNat 1 0 ++ putNat 7 n ++ rest) = (n, rest) := by
  have hmod : n % 128 = n := Nat.mod_eq_of_lt h
  simp [unpackLength, hmod]

/-- A longer length comes back from its two octets. -/
theorem unpackLength_long {n : Nat} (h : n < 16383) :
    unpackLength.run (putNat 1 1 ++ putNat 1 0 ++ putNat 14 n ++ rest) = (n, rest) := by
  have hmod : n % 16384 = n := Nat.mod_eq_of_lt (by omega)
  simp [unpackLength, hmod]

/-- The octets of NAS come back behind their length. -/
theorem unpackDedicatedInfo_pack {msg : Bytes} (h : msg.length < 16383) :
    unpackDedicatedInfo.run (packDedicatedInfo msg ++ rest) = (msg, rest) := by
  have hlist := getList_putList (fun b rest => getByte_putByte rest b) ⟨msg, rfl⟩ rest
  rw [packDedicatedInfo, unpackDedicatedInfo, List.append_assoc, BitReader.run_bind]
  by_cases hshort : msg.length < 128
  · rw [if_pos hshort, unpackLength_short _ hshort, BitReader.run_bind, hlist]
    rfl
  · rw [if_neg hshort, if_pos h, unpackLength_long _ h, BitReader.run_bind, hlist]
    rfl

/-- The digits of a number are read back when there are no more than three. -/
theorem unpackDigits_pack (v : Nat) :
    unpackDigits.run (packDigits v ++ rest) = (v % 1000, rest) := by
  have h2 : v % 1000 / 100 % 16 = v % 1000 / 100 := Nat.mod_eq_of_lt (by omega)
  have h1 : v % 100 / 10 % 16 = v % 100 / 10 := Nat.mod_eq_of_lt (by omega)
  have h0 : v % 10 % 16 = v % 10 := Nat.mod_eq_of_lt (by omega)
  simp [unpackDigits, packDigits, h2, h1, h0]
  omega

/-- A code as it is read. One with two digits loses its mark, and the digits are those of the number
with the mark. -/
def PlmnIdentity.read (p : PlmnIdentity) : PlmnIdentity where
  mcc := p.mcc % 1000
  mnc := if p.mnc &&& 0xFF00 = 0xFF00 then p.mnc % 100 else p.mnc % 1000

/-- The code of a network, as the reader gets it. -/
theorem unpackPlmnIdentity_pack (p : PlmnIdentity) :
    unpackPlmnIdentity.run (packPlmnIdentity p ++ rest) = (p.read, rest) := by
  have h1 : p.mnc % 100 / 10 % 16 = p.mnc % 100 / 10 := Nat.mod_eq_of_lt (by omega)
  have h0 : p.mnc % 10 % 16 = p.mnc % 10 := Nat.mod_eq_of_lt (by omega)
  have htwo : p.mnc % 100 / 10 * 10 + p.mnc % 10 = p.mnc % 100 := by omega
  rw [unpackPlmnIdentity, packPlmnIdentity, PlmnIdentity.read]
  split
  · simp [unpackDigits_pack, h1, h0, htwo]
  · simp [unpackDigits_pack]

/-- The codes that are written with three digits, and have no more. -/
def PlmnIdentity.Kept (p : PlmnIdentity) : Prop := p.mcc < 1000 ∧ p.mnc < 1000

/-- The reader gets back the codes with three digits. -/
theorem PlmnIdentity.read_eq_iff (p : PlmnIdentity) : p.read = p ↔ p.Kept := by
  obtain ⟨mcc, mnc⟩ := p
  simp only [PlmnIdentity.read, PlmnIdentity.mk.injEq, PlmnIdentity.Kept]
  refine and_congr ?_ ?_
  · omega
  · split
    · rename_i hmark
      have hle : 0xFF00 ≤ mnc := hmark ▸ Nat.and_le_left
      omega
    · omega

/-- The registered MME as it is read. -/
def RegisteredMme.read (m : RegisteredMme) : RegisteredMme :=
  { m with plmnId := m.plmnId.map PlmnIdentity.read }

/-- The registered MME, with its network as the reader gets it. -/
theorem unpackRegisteredMme_pack (m : RegisteredMme) :
    unpackRegisteredMme.run (packRegisteredMme m ++ rest) = (m.read, rest) := by
  obtain ⟨plmnId, mmegi, mmec⟩ := m
  cases plmnId with
  | none =>
    simp [unpackRegisteredMme, packRegisteredMme, RegisteredMme.read, getFlagged, putFlagged,
      getOpt, putOpt]
  | some p =>
    simp [unpackRegisteredMme, packRegisteredMme, RegisteredMme.read, getFlagged, putFlagged,
      getOpt, putOpt, unpackPlmnIdentity_pack]

/-- The network of the registered MME, when the message has one. -/
def ConnectionSetupComplete.plmnId (m : ConnectionSetupComplete) : Option PlmnIdentity :=
  m.registeredMme.bind RegisteredMme.plmnId

/-- The message as it is read. -/
def ConnectionSetupComplete.read (m : ConnectionSetupComplete) : ConnectionSetupComplete :=
  { m with registeredMme := m.registeredMme.map RegisteredMme.read }

/-- The message comes back exactly when the code of its network does. -/
theorem ConnectionSetupComplete.read_eq_iff (m : ConnectionSetupComplete) :
    m.read = m ↔ ∀ p ∈ m.plmnId, p.Kept := by
  obtain ⟨t, selected, registeredMme, info⟩ := m
  cases registeredMme with
  | none => simp [ConnectionSetupComplete.read, ConnectionSetupComplete.plmnId]
  | some mme =>
    obtain ⟨plmnId, mmegi, mmec⟩ := mme
    cases plmnId with
    | none =>
      simp [ConnectionSetupComplete.read, ConnectionSetupComplete.plmnId, RegisteredMme.read]
    | some p =>
      simp [ConnectionSetupComplete.read, ConnectionSetupComplete.plmnId, RegisteredMme.read,
        PlmnIdentity.read_eq_iff]

/-- The reader gets back the codes of the network. -/
def UlDcchMsg.Kept : UlDcchMsg → Prop
  | .rrcConSetupComplete m => ∀ p ∈ m.plmnId, p.Kept
  | .rrcConReconfigComplete _ | .rrcConReestComplete _ | .securityModeComplete _ | .ulInfoTransfer
      _ => True

/-- The messages that have a transaction identifier only. -/
theorem unpackComplete_pack (t : BitVec 2) :
    unpackComplete.run (packComplete t ++ rest) = (t, rest) := by
  simp [unpackComplete, packComplete]

/-- The transfer of octets from NAS. -/
theorem unpackUlInformationTransfer_pack {m : UlInformationTransfer}
    (h : m.dedicatedInfo.length < 16383) :
    unpackUlInformationTransfer.run (packUlInformationTransfer m ++ rest) = (m, rest) := by
  simp [unpackUlInformationTransfer, packUlInformationTransfer, unpackDedicatedInfo_pack _ h]

/-- The setup complete, with the registered MME as the reader gets it. -/
theorem unpackConnectionSetupComplete_pack {m : ConnectionSetupComplete}
    (h : m.dedicatedInfoNas.length < 16383) :
    unpackConnectionSetupComplete.run (packConnectionSetupComplete m ++ rest) = (m.read, rest) := by
  obtain ⟨t, selected, registeredMme, info⟩ := m
  cases registeredMme with
  | none =>
    simp [unpackConnectionSetupComplete, packConnectionSetupComplete, ConnectionSetupComplete.read,
      getOpt, putOpt, unpackDedicatedInfo_pack _ h]
  | some mme =>
    simp [unpackConnectionSetupComplete, packConnectionSetupComplete, ConnectionSetupComplete.read,
      getOpt, putOpt, unpackRegisteredMme_pack, unpackDedicatedInfo_pack _ h]

/-- The octets of NAS take at least their bits. -/
theorem length_packDedicatedInfo (msg : Bytes) :
    8 * msg.length ≤ (packDedicatedInfo msg).length := by
  rw [packDedicatedInfo, List.length_append, length_putBytes]
  exact Nat.le_add_left _ _

/-- When there is room for the long form of the length, there is room for any. -/
theorem length_packDedicatedInfo_le_iff {room : Nat} (msg : Bytes) (hroom : 1040 ≤ room)
    (hmax : room < 131064) :
    (packDedicatedInfo msg).length ≤ room ↔ 16 + 8 * msg.length ≤ room := by
  rw [packDedicatedInfo, List.length_append, length_putBytes]
  split
  · simp only [List.length_append, length_putNat]
    omega
  · split
    · simp only [List.length_append, length_putNat]
    · rw [List.length_nil]
      omega

/-- The bits of a message. -/
def UlDcchMsg.bits : UlDcchMsg → List Bool
  | .rrcConReconfigComplete t => putFlag false ++ putNat 4 2 ++ packComplete t
  | .rrcConReestComplete t => putFlag false ++ putNat 4 3 ++ packComplete t
  | .rrcConSetupComplete m => putFlag false ++ putNat 4 4 ++ packConnectionSetupComplete m
  | .securityModeComplete t => putFlag false ++ putNat 4 5 ++ packComplete t
  | .ulInfoTransfer m => putFlag false ++ putNat 4 9 ++ packUlInformationTransfer m

/-- A message on UL-DCCH is written when its bits have room in the bit buffer. -/
theorem packUlDcchMsg_eq_some_iff (m : UlDcchMsg) (b : List Bool) :
    packUlDcchMsg m = some b ↔ m.bits.length ≤ msgRoomBits ∧ b = m.bits := by
  cases m <;> exact withHeader_eq_some_iff (by decide)

/-- A message that has room has a length that the reader understands. -/
theorem unpackUlDcchMsg_bits_iff {m : UlDcchMsg} (hroom : m.bits.length ≤ 8 * msgRoom) :
    (unpackUlDcchMsg.run (m.bits ++ rest)).1 = some m ↔ m.Kept := by
  have hmax : 8 * msgRoom = 93856 := rfl
  cases m with
  | rrcConReconfigComplete t =>
    simp [UlDcchMsg.bits, unpackUlDcchMsg, UlDcchMsg.Kept, unpackComplete_pack]
  | rrcConReestComplete t =>
    simp [UlDcchMsg.bits, unpackUlDcchMsg, UlDcchMsg.Kept, unpackComplete_pack]
  | securityModeComplete t =>
    simp [UlDcchMsg.bits, unpackUlDcchMsg, UlDcchMsg.Kept, unpackComplete_pack]
  | rrcConSetupComplete m =>
    have hinfo : m.dedicatedInfoNas.length < 16383 := by
      have hle := length_packDedicatedInfo m.dedicatedInfoNas
      simp only [UlDcchMsg.bits, packConnectionSetupComplete, List.length_append] at hroom
      omega
    simp [UlDcchMsg.bits, unpackUlDcchMsg, UlDcchMsg.Kept,
      unpackConnectionSetupComplete_pack _ hinfo, ConnectionSetupComplete.read_eq_iff]
  | ulInfoTransfer m =>
    have hinfo : m.dedicatedInfo.length < 16383 := by
      have hle := length_packDedicatedInfo m.dedicatedInfo
      simp only [UlDcchMsg.bits, packUlInformationTransfer, List.length_append] at hroom
      omega
    simp [UlDcchMsg.bits, unpackUlDcchMsg, UlDcchMsg.Kept, unpackUlInformationTransfer_pack _ hinfo]

/-- The bytes from NAS that a message has room for. -/
def ConnectionSetupComplete.maxNasBytes (m : ConnectionSetupComplete) : Nat :=
  match m.registeredMme with
  | none => 11728
  | some { plmnId := none, .. } => 11725
  | some { plmnId := some _, .. } => 11721

/-- What NAS sends has room in the message. -/
def UlDcchMsg.HasRoom : UlDcchMsg → Prop
  | .rrcConSetupComplete m => m.dedicatedInfoNas.length ≤ m.maxNasBytes
  | .ulInfoTransfer m => m.dedicatedInfo.length ≤ 11728
  | .rrcConReconfigComplete _ | .rrcConReestComplete _ | .securityModeComplete _ => True

/-- A code with three digits takes 26 bits. -/
theorem length_packPlmnIdentity {p : PlmnIdentity} (h : p.Kept) :
    (packPlmnIdentity p).length = 26 := by
  have hunmarked : ¬p.mnc &&& 0xFF00 = 0xFF00 := fun hmark => by
    have hle : 0xFF00 ≤ p.mnc := hmark ▸ Nat.and_le_left
    have hlt := h.2
    omega
  rw [packPlmnIdentity, if_neg hunmarked]
  simp [packDigits]

/-- The setup complete fits the byte buffer exactly when its octets from NAS do, behind its other
fields. -/
theorem length_packConnectionSetupComplete_le_iff {m : ConnectionSetupComplete}
    (h : ∀ p ∈ m.plmnId, p.Kept) :
    (packConnectionSetupComplete m).length ≤ 93851 ↔ m.dedicatedInfoNas.length ≤ m.maxNasBytes := by
  obtain ⟨t, selected, registeredMme, info⟩ := m
  cases registeredMme with
  | none =>
    have hinfo : (packDedicatedInfo info).length ≤ 93841 ↔ _ :=
      length_packDedicatedInfo_le_iff info (by decide) (by decide)
    simp only [packConnectionSetupComplete, ConnectionSetupComplete.maxNasBytes, putOpt,
      List.length_append, length_putBits, length_putNat, length_putFlag, length_putOffset,
      List.length_nil]
    omega
  | some mme =>
    obtain ⟨plmnId, mmegi, mmec⟩ := mme
    cases plmnId with
    | none =>
      have hinfo : (packDedicatedInfo info).length ≤ 93816 ↔ _ :=
        length_packDedicatedInfo_le_iff info (by decide) (by decide)
      simp only [packConnectionSetupComplete, packRegisteredMme,
        ConnectionSetupComplete.maxNasBytes, putOpt, putFlagged, List.length_append, length_putBits,
        length_putNat, length_putFlag, length_putOffset, List.length_nil, Option.isSome_none]
      omega
    | some p =>
      have hplmn := length_packPlmnIdentity (h p rfl)
      have hinfo : (packDedicatedInfo info).length ≤ 93790 ↔ _ :=
        length_packDedicatedInfo_le_iff info (by decide) (by decide)
      simp only [packConnectionSetupComplete, packRegisteredMme,
        ConnectionSetupComplete.maxNasBytes, putOpt, putFlagged, List.length_append, length_putBits,
        length_putNat, length_putFlag, length_putOffset, hplmn]
      omega

/-- The bits of a message have room in the byte buffer when what NAS sends has room in the
message. -/
theorem UlDcchMsg.length_bits_le_iff {m : UlDcchMsg} (h : m.Kept) :
    m.bits.length ≤ 8 * msgRoom ↔ m.HasRoom := by
  have hmax : 8 * msgRoom = 93856 := rfl
  have hcomplete : ∀ t v, (putFlag false ++ putNat 4 v ++ packComplete t).length ≤ 8 * msgRoom :=
    fun t v => by
    simp [packComplete, hmax]
  cases m with
  | rrcConReconfigComplete t => exact iff_of_true (hcomplete t 2) trivial
  | rrcConReestComplete t => exact iff_of_true (hcomplete t 3) trivial
  | securityModeComplete t => exact iff_of_true (hcomplete t 5) trivial
  | rrcConSetupComplete m =>
    rw [HasRoom, ← length_packConnectionSetupComplete_le_iff h]
    simp only [bits, List.length_append, length_putFlag, length_putNat]
    omega
  | ulInfoTransfer m =>
    have hinfo : (packDedicatedInfo m.dedicatedInfo).length ≤ 93845 ↔ _ :=
      length_packDedicatedInfo_le_iff m.dedicatedInfo (by decide) (by decide)
    simp only [HasRoom, bits, packUlInformationTransfer, List.length_append, length_putFlag,
      length_putBits, length_putNat]
    omega

/-- The messages that have their bytes, and come back from the bytes that the device sends. -/
theorem ulDcch_iff (L : SrslteBit) (m : UlDcchMsg) :
    (∃ pdu, (packUlDcchMsg m).bind (toPdu L) = some pdu ∧
        ∀ rest, (unpackUlDcchMsg.run (L.unpackVector pdu ++ rest)).1 = some m)
      ↔ m.HasRoom ∧ m.Kept := by
  constructor
  · rintro ⟨pdu, hpdu, hread⟩
    obtain ⟨hroom, rfl⟩ := (pdu_eq_some_iff L (packUlDcchMsg_eq_some_iff m)).mp hpdu
    have hkept := (forall_pdu_iff L fun rest => unpackUlDcchMsg_bits_iff rest hroom).mp hread
    exact ⟨(UlDcchMsg.length_bits_le_iff hkept).mp hroom, hkept⟩
  · rintro ⟨hroom, hkept⟩
    have hlen := (UlDcchMsg.length_bits_le_iff hkept).mpr hroom
    exact ⟨_, (pdu_eq_some_iff L (packUlDcchMsg_eq_some_iff m)).mpr ⟨hlen, rfl⟩,
      (forall_pdu_iff L fun rest => unpackUlDcchMsg_bits_iff rest hlen).mpr hkept⟩

end SrsUE.Rrc
