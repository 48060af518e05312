import SrsUE.Lib.Run
import SrsUE.Proofs.Rlc.AmDataHeader
import SrsUE.Upper.Pdcp

/-!
# `SrsUE.Proofs.Upper.PdcpNumbering`: the numbers of PDCP over the lifetime of a bearer

A bearer lives from the call of `add_bearer` that initializes it to the next `reset`. `BearerRecord`
says what of its history should count: the last configuration, the SDUs since then, and the last
security configuration since then. It also says whether the entity was ever configured with 7 bits,
which `init` never takes back.

* `unpackControl_pack`, `unpackShort_pack`, `unpackLong_pack`: packing and unpacking with any
  counter.
* `PdcpInv.call`: the fields of an entity that are determined by its record.
* `numbered_iff`: in a run every PDU is the one that the record says exactly when no data bearer
  with 12 bits was configured with 7 bits before, and no SDU of a signalling bearer fills the
  buffer.
-/

set_option autoImplicit false

namespace SrsUE.Proofs.Upper

open SrsUE.Upper SrsUE.Lib
open SrsUE.Rlc (Bytes add32 bufferHeaderOffset maxBufferSizeBytes nRadioBearers)
open SrsUE.Proofs.Rlc (and_0x0F and_0x7F and_0xFF shiftLeft_or)

/-! ### Packing and unpacking -/

/-- The mask takes the remainder modulo 32. -/
theorem and_0x1F (x : Nat) : x &&& 0x1F = x % 32 := Nat.and_two_pow_sub_one_eq_mod x 5

/-- The PDU is the header, the SDU and the MAC, if they fit. -/
theorem packControl_eq (sn : Nat) (sdu : Bytes) :
    pdcpPackControlPdu sn sdu = if sdu.length ≤ maxBufferSizeBytes - bufferHeaderOffset - 4 then
      some (UInt8.ofNat (sn % 32) :: (sdu ++ controlMac)) else none := by
  have hiff : bufferHeaderOffset - 1 + (sdu.length + 1) + 4 ≤ maxBufferSizeBytes ↔
      sdu.length ≤ maxBufferSizeBytes - bufferHeaderOffset - 4 := by
    unfold bufferHeaderOffset maxBufferSizeBytes
    omega
  rw [pdcpPackControlPdu, and_0x1F]
  simp only [List.length_cons, List.cons_append, hiff]

/-- A control PDU is read back, with five bits of the number. -/
theorem unpackControl_pack (sn : Nat) (sdu mac : Bytes) (hmac : mac.length = 4) :
    pdcpUnpackControlPdu (UInt8.ofNat (sn % 32) :: (sdu ++ mac)) = some (sdu, sn % 32) := by
  have hlen : (UInt8.ofNat (sn % 32) :: (sdu ++ mac)).length = sdu.length + 5 := by
    rw [List.length_cons, List.length_append, hmac]
  have hsdu : (sdu ++ mac).take (sdu.length + 5 - 1 - 4) = sdu := List.take_left' rfl
  rw [pdcpUnpackControlPdu, hlen, if_pos (by omega), and_0x1F, List.drop_succ_cons, List.drop_zero,
    hsdu, List.getD_cons_zero, UInt8.toNat_ofNat']
  congr 2
  omega

/-- A data PDU with a short SN is read back, with seven bits of the number. -/
theorem unpackShort_pack (sn : Nat) (sdu : Bytes) :
    pdcpUnpackDataPduShortSn (pdcpPackDataPduShortSn sn sdu) = some (sdu, sn % 128) := by
  rw [pdcpUnpackDataPduShortSn, pdcpPackDataPduShortSn, if_pos (by simp), and_0x7F, pdcpDCDataPdu,
    shiftLeft_or (by omega), and_0x7F]
  simp only [List.drop_succ_cons, List.drop_zero, List.getD_cons_zero, UInt8.toNat_ofNat']
  congr 2
  omega

/-- One with a long SN is read back, with twelve bits. -/
theorem unpackLong_pack (sn : Nat) (sdu : Bytes) :
    pdcpUnpackDataPduLongSn (pdcpPackDataPduLongSn sn sdu) = some (sdu, sn % 4096) := by
  rw [pdcpUnpackDataPduLongSn, pdcpPackDataPduLongSn, if_pos (by simp), and_0x0F, and_0xFF,
    pdcpDCDataPdu, Nat.shiftRight_eq_div_pow, shiftLeft_or (by omega), and_0x0F]
  simp only [List.drop_succ_cons, List.drop_zero, List.getD_cons_zero, List.getD_cons_succ,
    UInt8.toNat_ofNat']
  rw [shiftLeft_or (by omega)]
  congr 2
  omega

/-- The SDU in a PDU with one byte of header is not read with two. -/
theorem unpackLong_packShort (sn : Nat) (sdu : Bytes) (n : Nat) :
    pdcpUnpackDataPduLongSn (pdcpPackDataPduShortSn sn sdu) ≠ some (sdu, n) := by
  rw [pdcpUnpackDataPduLongSn, pdcpPackDataPduShortSn]
  split
  · rename_i hlen
    intro heq
    have hsdu := congrArg List.length (Prod.mk.inj (Option.some.inj heq)).1
    simp only [List.drop_succ_cons, List.length_drop, List.length_cons] at hsdu hlen
    omega
  · exact fun heq => by cases heq

/-- The header of a PDU with two bytes of header is not read with one. -/
theorem unpackShort_packLong (sn : Nat) (sdu : Bytes) (n : Nat) :
    pdcpUnpackDataPduShortSn (pdcpPackDataPduLongSn sn sdu) ≠ some (sdu, n) := by
  rw [pdcpUnpackDataPduShortSn, pdcpPackDataPduLongSn, if_pos (by simp), List.drop_succ_cons,
    List.drop_zero]
  intro heq
  have hsdu := congrArg List.length (Prod.mk.inj (Option.some.inj heq)).1
  rw [List.length_cons] at hsdu
  omega

/-! ### The history of a bearer -/

/-- The configuration asks for 7 bits. -/
def isShort (cnfg : Option PdcpConfig) : Bool := cnfg.bind PdcpConfig.rlcUmPdcpSnSize == some .bits7

/-- A bearer since it was last initialized: its configuration, how many SDUs were written, and the
last security configuration. -/
structure Bearer where
  cnfg : Option PdcpConfig
  written : Nat := 0
  security : Option (Octets 32 × IntegrityAlgorithmId) := none

/-- What a channel has now, and whether it ever had a configuration with 7 bits. -/
structure BearerRecord where
  bearer : Option Bearer := none
  everShort : Bool := false

namespace BearerRecord

variable (r : BearerRecord)

def opened (cnfg : Option PdcpConfig) : BearerRecord :=
  { bearer := some { cnfg := cnfg }, everShort := r.everShort || isShort cnfg }

def add (cnfg : Option PdcpConfig) : BearerRecord :=
  if r.bearer.isSome then r else r.opened cnfg

/-- A change of the bearer, if there is one. -/
def modify (f : Bearer → Bearer) : BearerRecord := { r with bearer := r.bearer.map f }

def write : BearerRecord := r.modify fun b => { b with written := b.written + 1 }

def secure (key : Octets 32) (algo : IntegrityAlgorithmId) : BearerRecord :=
  r.modify fun b => { b with security := some (key, algo) }

def drop : BearerRecord := { r with bearer := none }

/-- Without a bearer there is nothing to change. -/
theorem modify_of_none {r : BearerRecord} (hr : r.bearer = none) (f : Bearer → Bearer) :
    r.modify f = r := by
  rw [modify, hr, Option.map_none, ← hr]

end BearerRecord

/-- The records of the channels after a call. -/
def recordCall (rs : Nat → BearerRecord) : PdcpCall → (Nat → BearerRecord)
  | .addBearer lcid cnfg =>
    if lcid < nRadioBearers then Function.update rs lcid ((rs lcid).add cnfg) else rs
  | .writeSdu lcid _ => Function.update rs lcid (rs lcid).write
  | .configSecurity lcid key algo => Function.update rs lcid ((rs lcid).secure key algo)
  | .reset => Function.update (fun lcid => (rs lcid).drop) 0 ((rs 0).drop.opened none)

/-- The records after `Pdcp.init`. -/
def firstRecords : Nat → BearerRecord :=
  Function.update (fun _ => {}) 0 (({} : BearerRecord).opened none)

/-! ### What an entity has of its record -/

/-- The counter and the security of an entity are those of the bearer. SRB0 does not count. -/
structure Tracks (lcid : Nat) (e : PdcpEntity) (b : Bearer) : Prop where
  channel : e.lcid = lcid
  txCount : lcid ≠ 0 → e.txCount = b.written % 2 ^ 32
  security : if e.doSecurity then b.security = some (e.kRrcInt, e.integAlgo) else b.security = none

structure EntityInv (lcid : Nat) (e : PdcpEntity) (r : BearerRecord) : Prop where
  snLen : e.snLen = if r.everShort then 7 else 12
  active : e.active = r.bearer.isSome
  tracks : ∀ b, r.bearer = some b → Tracks lcid e b
  everShort : ∀ b, r.bearer = some b → isShort b.cnfg → r.everShort

namespace EntityInv

variable {lcid : Nat} {e : PdcpEntity} {r : BearerRecord}

/-- A bearer that is initialized has written nothing. -/
theorem opened (hinv : EntityInv lcid e r) (cnfg : Option PdcpConfig) :
    EntityInv lcid (e.init lcid cnfg) (r.opened cnfg) := by
  refine ⟨?_, rfl, ?_, ?_⟩
  · -- `init` has no branch for 12 bits.
    simp only [PdcpEntity.init, BearerRecord.opened, isShort, beq_iff_eq, Bool.or_eq_true,
      hinv.snLen]
    split <;> simp_all
  · intro b hb
    obtain rfl := Option.some.inj hb
    exact ⟨rfl, fun _ => rfl, rfl⟩
  · intro b hb hshort
    obtain rfl := Option.some.inj hb
    exact Bool.or_eq_true_iff.mpr (Or.inr hshort)

/-- A reset drops the bearer. -/
theorem drop (hinv : EntityInv lcid e r) : EntityInv lcid e.reset r.drop := by
  have hnone : ∀ b, r.drop.bearer ≠ some b := fun b hb => by cases hb
  exact ⟨hinv.snLen, rfl, fun b hb => absurd hb (hnone b), fun b hb => absurd hb (hnone b)⟩

/-- A change of an entity and its bearer other than of what a configuration says. -/
theorem modify (hinv : EntityInv lcid e r) {e' : PdcpEntity} {f : Bearer → Bearer}
    (hsnLen : e'.snLen = e.snLen) (hactive : e'.active = e.active)
    (hcnfg : ∀ b, (f b).cnfg = b.cnfg)
    (htracks : ∀ b, Tracks lcid e b → Tracks lcid e' (f b)) : EntityInv lcid e' (r.modify f) := by
  refine ⟨hsnLen.trans hinv.snLen, ?_, ?_, ?_⟩
  · rw [BearerRecord.modify, Option.isSome_map, hactive, hinv.active]
  · intro b' hb'
    obtain ⟨b, hb, rfl⟩ := Option.map_eq_some_iff.mp hb'
    exact htracks b (hinv.tracks b hb)
  · intro b' hb'
    obtain ⟨b, hb, rfl⟩ := Option.map_eq_some_iff.mp hb'
    rw [hcnfg]
    exact hinv.everShort b hb

/-- A security configuration keeps the counter. -/
theorem secure (hinv : EntityInv lcid e r) (key : Octets 32) (algo : IntegrityAlgorithmId) :
    EntityInv lcid (e.configSecurity key algo) (r.secure key algo) :=
  hinv.modify rfl rfl (fun _ => rfl) fun _ htracks => ⟨htracks.channel, htracks.txCount, rfl⟩

/-- An SDU changes the counter only, and on SRB0 nothing. -/
theorem write (hinv : EntityInv lcid e r) {F : SecurityFunctions} {sdu pdu : Bytes}
    {e' : PdcpEntity}
    (he' : e.writeSdu F sdu = some (e', pdu)) (hlcid : e.lcid = lcid) :
    EntityInv lcid e' r.write := by
  have hcases : e' = if lcid = 0 then e else { e with txCount := add32 e.txCount 1 } := by
    subst hlcid
    rw [PdcpEntity.writeSdu] at he'
    split at he'
    · rename_i hzero
      rw [if_pos hzero]
      exact (Prod.mk.inj (Option.some.inj he')).1.symm
    · rename_i hzero
      rw [if_neg hzero]
      split at he'
      · obtain ⟨_, _, heq⟩ := Option.map_eq_some_iff.mp he'
        exact (Prod.mk.inj heq).1.symm
      · exact (Prod.mk.inj (Option.some.inj he')).1.symm
  rw [hcases]
  refine hinv.modify (by split <;> rfl) (by split <;> rfl) (fun _ => rfl) fun b htracks => ?_
  split
  · rename_i hzero
    exact ⟨htracks.channel, fun hne => absurd hzero hne, htracks.security⟩
  · refine ⟨htracks.channel, fun hne => ?_, htracks.security⟩
    show (e.txCount + 1) % 2 ^ 32 = _
    rw [htracks.txCount hne, Nat.mod_add_mod]

/-- The size of the SN is the configured one exactly when no earlier configuration left another. -/
theorem snLen_iff (hinv : EntityInv lcid e r) {b : Bearer} (hb : r.bearer = some b) :
    (e.snLen = 12 ↔ isShort b.cnfg = false) ↔ (r.everShort → isShort b.cnfg) := by
  rw [hinv.snLen]
  have hever := hinv.everShort b hb
  cases hshort : isShort b.cnfg with
  | false => cases r.everShort <;> decide
  | true =>
    rw [hever hshort]
    decide

end EntityInv

/-- The bearers with their records. -/
abbrev Recorded := Pdcp × (Nat → BearerRecord)

/-- What the records determine of the bearers. -/
structure PdcpInv (s : Recorded) : Prop where
  entity : ∀ lcid, EntityInv lcid (s.1.pdcpArray lcid) (s.2 lcid)
  valid : ∀ lcid, (s.2 lcid).bearer.isSome → lcid < nRadioBearers

namespace PdcpInv

variable {p : Pdcp} {rs : Nat → BearerRecord}

/-- A change of one channel leaves the others as they were. -/
theorem set (hinv : PdcpInv (p, rs)) {lcid : Nat} {e : PdcpEntity} {r : BearerRecord}
    (he : EntityInv lcid e r) (hlcid : lcid < nRadioBearers) :
    PdcpInv (p.set lcid e, Function.update rs lcid r) := by
  constructor
  · intro i
    by_cases hi : i = lcid
    · subst hi
      simp only [Pdcp.set, Function.update_self]
      exact he
    · simp only [Pdcp.set, Function.update_of_ne hi]
      exact hinv.entity i
  · intro i hi
    by_cases heq : i = lcid
    · exact heq ▸ hlcid
    · simp only [Function.update_of_ne heq] at hi
      exact hinv.valid i hi

/-- The channels that are active are those with a bearer. -/
theorem validLcid (hinv : PdcpInv (p, rs)) (lcid : Nat) :
    p.validLcid lcid = (rs lcid).bearer.isSome := by
  rw [Pdcp.validLcid, (hinv.entity lcid).active]
  cases hb : (rs lcid).bearer.isSome with
  | false => rw [Bool.and_false]
  | true => rw [Bool.and_true, decide_eq_true (hinv.valid lcid hb)]

/-- `add_bearer` initializes the bearer of a channel that has none. -/
theorem addBearer (hinv : PdcpInv (p, rs)) (lcid : Nat) (cnfg : Option PdcpConfig) :
    PdcpInv (p.addBearer lcid cnfg, recordCall rs (.addBearer lcid cnfg)) := by
  rw [Pdcp.addBearer, recordCall]
  split
  · rename_i hlcid
    rw [BearerRecord.add, (hinv.entity lcid).active]
    cases hb : (rs lcid).bearer.isSome with
    | false => exact hinv.set ((hinv.entity lcid).opened cnfg) hlcid
    | true =>
      simp only [Bool.not_true, Bool.false_eq_true, if_false, if_true, Function.update_eq_self]
      exact hinv
  · exact hinv

/-- A reset drops all bearers and sets up SRB0 again. -/
theorem reset (hinv : PdcpInv (p, rs)) : PdcpInv (p.reset, recordCall rs .reset) := by
  have hdrop : PdcpInv ({ pdcpArray := fun lcid => (p.pdcpArray lcid).reset },
      fun lcid => (rs lcid).drop) :=
    ⟨fun lcid => (hinv.entity lcid).drop, fun lcid hlcid => by cases hlcid⟩
  exact hdrop.set ((hdrop.entity 0).opened none) (by decide)

/-- The security configuration of a channel reaches its bearer, if it has one. -/
theorem configSecurity (hinv : PdcpInv (p, rs)) (lcid : Nat) (key : Octets 32)
    (algo : IntegrityAlgorithmId) :
    PdcpInv (if p.validLcid lcid then p.set lcid ((p.pdcpArray lcid).configSecurity key algo)
      else p,
      recordCall rs (.configSecurity lcid key algo)) := by
  rw [hinv.validLcid, recordCall]
  cases hb : (rs lcid).bearer with
  | some b =>
    exact hinv.set ((hinv.entity lcid).secure key algo) (hinv.valid lcid (by rw [hb]; rfl))
  | none =>
    rw [BearerRecord.secure, BearerRecord.modify_of_none hb, Function.update_eq_self]
    exact hinv

/-- Every call keeps the invariant. -/
theorem call (hinv : PdcpInv (p, rs)) {F : SecurityFunctions} {c : PdcpCall} {p' : Pdcp}
    {out : List (Nat × Bytes)} (hcall : p.call F c = some (p', out)) :
    PdcpInv (p', recordCall rs c) := by
  cases c with
  | addBearer lcid cnfg =>
    obtain rfl := (Prod.mk.inj (Option.some.inj hcall)).1
    exact hinv.addBearer lcid cnfg
  | reset =>
    obtain rfl := (Prod.mk.inj (Option.some.inj hcall)).1
    exact hinv.reset
  | configSecurity lcid key algo =>
    obtain rfl := (Prod.mk.inj (Option.some.inj hcall)).1
    exact hinv.configSecurity lcid key algo
  | writeSdu lcid sdu =>
    rw [Pdcp.call, hinv.validLcid] at hcall
    cases hb : (rs lcid).bearer with
    | none =>
      rw [hb, Option.isSome_none, if_neg Bool.false_ne_true] at hcall
      obtain rfl := (Prod.mk.inj (Option.some.inj hcall)).1
      rw [recordCall, BearerRecord.write, BearerRecord.modify_of_none hb, Function.update_eq_self]
      exact hinv
    | some b =>
      rw [hb, Option.isSome_some, if_pos rfl] at hcall
      obtain ⟨⟨e', pdu⟩, he', heq⟩ := Option.map_eq_some_iff.mp hcall
      obtain rfl := (Prod.mk.inj heq).1
      exact hinv.set ((hinv.entity lcid).write he' ((hinv.entity lcid).tracks b hb).channel)
        (hinv.valid lcid (by rw [hb]; rfl))

/-- The state after the constructors and `Pdcp.init`. -/
theorem first (memory : Pdcp) : PdcpInv (memory.constructed.init, firstRecords) := by
  have hnone : ∀ b, ({} : BearerRecord).bearer ≠ some b := fun b hb => by cases hb
  have hconstructed : PdcpInv (memory.constructed, fun _ => {}) :=
    ⟨fun lcid => ⟨rfl, rfl, fun b hb => absurd hb (hnone b), fun b hb => absurd hb (hnone b)⟩,
      fun lcid hlcid => by cases hlcid⟩
  exact hconstructed.set ((hconstructed.entity 0).opened none) (by decide)

end PdcpInv

/-! ### The PDU of an SDU -/

namespace Bearer

variable (F : SecurityFunctions) (b : Bearer) (lcid : Nat)

/-- The unpack function that the configuration selects. -/
def unpack : Bytes → Option (Bytes × Nat) :=
  if lcid = 1 ∨ lcid = 2 then pdcpUnpackControlPdu
  else if isShort b.cnfg then pdcpUnpackDataPduShortSn
  else pdcpUnpackDataPduLongSn

/-- What the SN counts modulo. -/
def snModulus : Nat := if lcid = 1 ∨ lcid = 2 then 32 else if isShort b.cnfg then 128 else 4096

/-- What is behind the header and the SDU, `msg`, on a signalling bearer. COUNT has 32 bits. -/
def mac (msg : Bytes) : Bytes :=
  match b.security with
  | none => controlMac
  | some (key, algo) =>
    PdcpEntity.integrityGenerate F algo key (b.written % 2 ^ 32) (lcid - 1) msg controlMac

/-- `pdu` carries `sdu` with the number of the bearer. -/
def Carries (sdu pdu : Bytes) : Prop :=
  b.unpack lcid pdu = some (sdu, b.written % b.snModulus lcid) ∧
    (lcid = 1 ∨ lcid = 2 → pdu.drop (sdu.length + 1) = b.mac F lcid (pdu.take (sdu.length + 1)))

end Bearer

/-- An SDU on a channel with a bearer gives RLC one PDU, which carries it. SRB0 has no headers. -/
def Numbered (F : SecurityFunctions) (s : Recorded) : PdcpCall → Prop
  | .writeSdu lcid sdu => ∀ b, (s.2 lcid).bearer = some b → lcid ≠ 0 →
      ∃ p' pdu, s.1.call F (.writeSdu lcid sdu) = some (p', [(lcid, pdu)]) ∧
        b.Carries F lcid sdu pdu
  | _ => True

/-- The MAC of a signalling bearer fits in the buffer behind the SDU, and a data bearer with 12 bits
was never configured with 7. -/
def Undisturbed (rs : Nat → BearerRecord) : PdcpCall → Prop
  | .writeSdu lcid sdu => ∀ b, (rs lcid).bearer = some b → lcid ≠ 0 →
      if lcid = 1 ∨ lcid = 2 then sdu.length ≤ maxBufferSizeBytes - bufferHeaderOffset - 4
      else (rs lcid).everShort → isShort b.cnfg
  | _ => True

/-- The MAC that is generated has four bytes. -/
theorem length_integrityGenerate (F : SecurityFunctions) (algo : IntegrityAlgorithmId)
    (key : Octets 32)
    (count rbId : Nat) (msg mac : Bytes) (hmac : mac.length = 4) :
    (PdcpEntity.integrityGenerate F algo key count rbId msg mac).length = 4 := by
  cases algo with
  | eia0 => exact hmac
  | eia1 => exact List.length_ofFn
  | eia2 => exact List.length_ofFn
  | other => exact hmac

/-- So has the MAC of a bearer. -/
theorem Bearer.length_mac (F : SecurityFunctions) (b : Bearer) (lcid : Nat) (msg : Bytes) :
    (b.mac F lcid msg).length = 4 := by
  rw [Bearer.mac]
  split
  · rfl
  · exact length_integrityGenerate F _ _ _ _ _ _ rfl

section
variable (F : SecurityFunctions) {lcid : Nat} {e : PdcpEntity} {b : Bearer}

/-- The counter of the bearer is the one of the header up to what the header keeps of it. -/
theorem Tracks.txCount_mod (htracks : Tracks lcid e b) (hlcid : lcid ≠ 0) {m : Nat}
    (hm : m ∣ 2 ^ 32) :
    e.txCount % m = b.written % m := by
  rw [htracks.txCount hlcid, Nat.mod_mod_of_dvd _ hm]

/-- The MAC that the entity appends is that of the bearer. -/
theorem Tracks.mac_eq (htracks : Tracks lcid e b) (hlcid : lcid ≠ 0) (msg : Bytes) :
    (if e.doSecurity then
      PdcpEntity.integrityGenerate F e.integAlgo e.kRrcInt e.txCount (lcid - 1) msg controlMac
    else controlMac) = b.mac F lcid msg := by
  have hsecurity := htracks.security
  rw [Bearer.mac, ← htracks.txCount hlcid]
  cases hdo : e.doSecurity with
  | true =>
    rw [hdo, if_pos rfl] at hsecurity
    rw [hsecurity, if_pos rfl]
  | false =>
    rw [hdo, if_neg Bool.false_ne_true] at hsecurity
    rw [hsecurity, if_neg Bool.false_ne_true]

/-- A signalling bearer writes header, SDU and MAC, if the MAC has room. -/
theorem Tracks.writeSdu_control (htracks : Tracks lcid e b) (hlcid : lcid = 1 ∨ lcid = 2)
    (sdu : Bytes) :
    e.writeSdu F sdu = if sdu.length ≤ maxBufferSizeBytes - bufferHeaderOffset - 4 then
      some ({ e with txCount := add32 e.txCount 1 }, UInt8.ofNat (b.written % 32) ::
        (sdu ++ b.mac F lcid (UInt8.ofNat (b.written % 32) :: sdu))) else none := by
  have hne : lcid ≠ 0 := by omega
  have hrb : (lcid + 255) % 256 = lcid - 1 := by omega
  rw [PdcpEntity.writeSdu, htracks.channel, if_neg (by omega), if_pos hlcid, packControl_eq,
    htracks.txCount_mod hne (by decide), hrb]
  simp only [← List.cons_append]
  generalize UInt8.ofNat (b.written % 32) :: sdu = msg
  rw [apply_ite (Option.map _), Option.map_none, Option.map_some]
  have hn : (msg ++ controlMac).length - 4 = msg.length := by
    rw [List.length_append]
    rfl
  simp only [hn, List.take_left, List.drop_left, ← htracks.mac_eq F hne, apply_ite (msg ++ ·)]

/-- What such a PDU carries. -/
theorem Bearer.carries_control (hlcid : lcid = 1 ∨ lcid = 2) (sdu : Bytes) :
    b.Carries F lcid sdu (UInt8.ofNat (b.written % 32) ::
      (sdu ++ b.mac F lcid (UInt8.ofNat (b.written % 32) :: sdu))) := by
  rw [Bearer.Carries, Bearer.unpack, Bearer.snModulus, if_pos hlcid, if_pos hlcid,
    unpackControl_pack _ _ _ (b.length_mac ..)]
  refine ⟨rfl, fun _ => ?_⟩
  rw [List.drop_succ_cons, List.drop_left, List.take_succ_cons, List.take_left]

/-- A data bearer writes header and SDU. -/
theorem Tracks.writeSdu_data (htracks : Tracks lcid e b) (hlcid : 3 ≤ lcid) (sdu : Bytes) :
    e.writeSdu F sdu = some ({ e with txCount := add32 e.txCount 1 },
      if e.snLen = 12 then pdcpPackDataPduLongSn e.txCount sdu
      else pdcpPackDataPduShortSn e.txCount sdu) := by
  rw [PdcpEntity.writeSdu, htracks.channel, if_neg (by omega), if_neg (by omega)]

/-- The PDU of a data bearer carries the SDU exactly when the size of its SN is the configured
one. -/
theorem Tracks.carries_data_iff (htracks : Tracks lcid e b) (hlcid : 3 ≤ lcid) (sdu : Bytes) :
    b.Carries F lcid sdu (if e.snLen = 12 then pdcpPackDataPduLongSn e.txCount sdu
      else pdcpPackDataPduShortSn e.txCount sdu) ↔ (e.snLen = 12 ↔ isShort b.cnfg = false) := by
  have hne : lcid ≠ 0 := by omega
  have hnot : ¬ (lcid = 1 ∨ lcid = 2) := by omega
  rw [Bearer.Carries, Bearer.unpack, Bearer.snModulus, if_neg hnot, if_neg hnot,
    and_iff_left (fun h => absurd h hnot)]
  by_cases hlen : e.snLen = 12
  · cases hshort : isShort b.cnfg with
    | false =>
      simp only [hlen, unpackLong_pack, htracks.txCount_mod hne (show 4096 ∣ 2 ^ 32 by decide),
        if_true, Bool.false_eq_true, if_false]
    | true =>
      rw [if_pos hlen, if_pos rfl, if_pos rfl]
      exact iff_of_false (unpackShort_packLong _ _ _) (fun h => Bool.noConfusion (h.mp hlen))
  · cases hshort : isShort b.cnfg with
    | false =>
      rw [if_neg hlen, if_neg Bool.false_ne_true, if_neg Bool.false_ne_true]
      exact iff_of_false (unpackLong_packShort _ _ _) (fun h => hlen (h.mpr rfl))
    | true =>
      simp only [hlen, unpackShort_pack, htracks.txCount_mod hne (show 128 ∣ 2 ^ 32 by decide),
        if_true, if_false, reduceCtorEq]

/-- An SDU on a channel with a bearer. -/
theorem PdcpInv.numbered_writeSdu_iff {s : Recorded} (hinv : PdcpInv s) (lcid : Nat) (sdu : Bytes) :
    Numbered F s (.writeSdu lcid sdu) ↔ Undisturbed s.2 (.writeSdu lcid sdu) := by
  refine forall_congr' fun b => imp_congr_right fun hb => imp_congr_right fun hlcid => ?_
  have htracks := (hinv.entity lcid).tracks b hb
  have hvalid : s.1.validLcid lcid = true := by
    rw [hinv.validLcid, hb]
    rfl
  rw [Pdcp.call, if_pos hvalid]
  split
  · rename_i hcontrol
    rw [htracks.writeSdu_control F hcontrol]
    constructor
    · rintro ⟨p', pdu, hcall, -⟩
      by_contra hlong
      rw [if_neg hlong] at hcall
      cases hcall
    · intro hfits
      rw [if_pos hfits, Option.map_some]
      exact ⟨_, _, by rw [htracks.channel], b.carries_control F hcontrol sdu⟩
  · rename_i hdata
    have hdrb : 3 ≤ lcid := by omega
    rw [htracks.writeSdu_data F hdrb, Option.map_some]
    rw [← (hinv.entity lcid).snLen_iff hb, ← htracks.carries_data_iff F hdrb sdu]
    constructor
    · rintro ⟨p', pdu, hcall, hpdu⟩
      obtain rfl := (Prod.mk.inj (List.cons.inj (Prod.mk.inj (Option.some.inj hcall)).2).1).2
      exact hpdu
    · exact fun hpdu => ⟨_, _, by rw [htracks.channel], hpdu⟩

end

/-! ### Runs -/

/-- A call, with its effect on the records. -/
def recordedStep (F : SecurityFunctions) (s : Recorded) (c : PdcpCall) : Option Recorded :=
  (s.1.call F c).map fun out => (out.1, recordCall s.2 c)

/-- Every call keeps what the records say of the bearers. -/
theorem recordedStep_inv {F : SecurityFunctions} {s s' : Recorded} {c : PdcpCall} (hinv : PdcpInv s)
    (hstep : recordedStep F s c = some s') : PdcpInv s' := by
  obtain ⟨out, hcall, rfl⟩ := Option.map_eq_some_iff.mp hstep
  exact hinv.call hcall

/-- A call numbers its SDU as it should exactly when it is undisturbed. -/
theorem numbered_call_iff (F : SecurityFunctions) {s : Recorded} (hinv : PdcpInv s) (c : PdcpCall) :
    Numbered F s c ↔ Undisturbed s.2 c := by
  cases c with
  | writeSdu lcid sdu => exact hinv.numbered_writeSdu_iff F lcid sdu
  | addBearer | configSecurity | reset => exact Iff.rfl

/-- A call that meets the condition is defined. -/
theorem recordedStep_map (F : SecurityFunctions) {s : Recorded} (hinv : PdcpInv s) (c : PdcpCall)
    (hc : Undisturbed s.2 c) : (recordedStep F s c).map Prod.snd = some (recordCall s.2 c) := by
  have hdefined : (s.1.call F c).isSome := by
    cases c with
    | addBearer | configSecurity | reset => rfl
    | writeSdu lcid sdu =>
      cases hb : (s.2 lcid).bearer with
      | none =>
        rw [Pdcp.call, hinv.validLcid, hb]
        rfl
      | some b =>
        by_cases hzero : lcid = 0
        · rw [Pdcp.call, hinv.validLcid, hb, Option.isSome_some, if_pos rfl, Option.isSome_map,
            PdcpEntity.writeSdu, ((hinv.entity lcid).tracks b hb).channel, if_pos hzero]
          rfl
        · obtain ⟨p', pdu, hcall, -⟩ := (hinv.numbered_writeSdu_iff F lcid sdu).mpr hc b hb hzero
          rw [hcall]
          rfl
  obtain ⟨out, hout⟩ := Option.isSome_iff_exists.mp hdefined
  rw [recordedStep, hout]
  rfl

/-- **PDCP sequence numbering.** In a run of calls from the initialization every SDU of a bearer
gives a PDU with its number exactly when no data bearer with 12 bits takes over a channel that had 7
bits, and the SDUs of the signalling bearers leave room for the MAC. -/
theorem numbered_iff (F : SecurityFunctions) (memory : Pdcp) (calls : List PdcpCall) :
    Throughout (recordedStep F) (Numbered F) (memory.constructed.init, firstRecords) calls ↔
      Throughout (fun rs c => some (recordCall rs c)) Undisturbed firstRecords calls :=
  have hfirst := PdcpInv.first memory
  (throughout_iff (fun _ c hinv => numbered_call_iff F hinv c)
    (fun _ _ _ hinv _ hstep => recordedStep_inv hinv hstep) calls hfirst).trans
  (throughout_map (fun _ c hinv hc => recordedStep_map F hinv c hc)
    (fun _ _ _ hinv _ hstep => recordedStep_inv hinv hstep) calls hfirst)

/-- Memory of zeros. -/
def zeroMemory : Pdcp :=
  { pdcpArray := fun _ => ⟨false, 0, 0, false, 0, fun _ => 0, .eia0⟩ }

/-- A data bearer with 7 bits, and after a reset one without a configured size on the same
channel. -/
theorem not_numbered :
    ¬ Throughout (recordedStep default) (Numbered default)
      (zeroMemory.constructed.init, firstRecords)
      [.addBearer 3 (some { rlcUmPdcpSnSize := some .bits7 }), .reset, .addBearer 3 none,
        .writeSdu 3 []] := by
  rintro ⟨-, hadd⟩
  obtain ⟨-, hreset⟩ := hadd _ rfl
  obtain ⟨-, hadd'⟩ := hreset _ rfl
  obtain ⟨hnumbered, -⟩ := hadd' _ rfl
  obtain ⟨p', pdu, hcall, hunpack, -⟩ := hnumbered { cnfg := none } rfl (by decide)
  have hpdu : [((3 : Nat), ([128] : Bytes))] = [(3, pdu)] := (Prod.mk.inj (Option.some.inj hcall)).2
  obtain rfl := (Prod.mk.inj (List.cons.inj hpdu).1).2
  cases hunpack

end SrsUE.Proofs.Upper
