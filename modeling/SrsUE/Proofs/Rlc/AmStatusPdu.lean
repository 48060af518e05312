import Mathlib.Data.List.Induction
import SrsUE.Rlc.AmPdu

/-!
# `SrsUE.Proofs.Rlc.AmStatusPdu`: packing and unpacking a status PDU

* `readStatusPdu_write`: `rlc_am_read_status_pdu` reads back what
  `rlc_am_write_status_pdu` wrote, each field cut down to its width (`wireStatus`).
* `length_writeStatusPdu`: the bytes written are exactly `rlc_am_packed_length`. The number
  of bits is always odd, so the source never adds a whole byte of padding.
* `SrslteBit.msbFirst` is a concrete set of bit routines with the properties assumed of
  the library.
-/

set_option autoImplicit false

namespace SrsUE.Proofs.Rlc

open SrsUE.Rlc

/-! ### Bits and values -/

/-- The value of bits, most significant first. -/
def bitsValue (bits : List Bool) : Nat := bits.foldl (fun acc b => 2 * acc + b.toNat) 0

/-- The last bit is the least significant. -/
theorem bitsValue_append (bits : List Bool) (b : Bool) :
    bitsValue (bits ++ [b]) = 2 * bitsValue bits + b.toNat := by
  simp [bitsValue]

/-- The lowest `n` bits of `v`, most significant first. -/
def bitsOf (v n : Nat) : List Bool := (List.range n).reverse.map v.testBit

/-- The bits of a number, with the last one split off. -/
theorem bitsOf_succ (v n : Nat) : bitsOf v (n + 1) = bitsOf (v / 2) n ++ [v.testBit 0] := by
  have hshift : ∀ i, v.testBit (i + 1) = (v / 2).testBit i := fun i => Nat.testBit_succ v i
  simp only [bitsOf, List.range_succ_eq_map, List.reverse_cons, List.map_append, List.map_reverse,
    List.map_map, List.map_cons, List.map_nil]
  congr 2
  exact List.map_congr_left fun i _ => hshift i

/-- The value of the lowest bits is the remainder. -/
theorem bitsValue_bitsOf (v n : Nat) : bitsValue (bitsOf v n) = v % 2 ^ n := by
  induction n generalizing v with
  | zero => simp [bitsOf, bitsValue, Nat.mod_one]
  | succ n ih =>
    rw [bitsOf_succ, bitsValue_append, ih, Nat.testBit_zero, Nat.pow_succ, Nat.mul_comm (2 ^ n) 2,
      Nat.mod_mul]
    rcases Nat.mod_two_eq_zero_or_one v with h | h
    · simp [h]
    · simp [h]
      omega

/-- Bits are those of their value. -/
theorem bitsOf_bitsValue (bits : List Bool) : bitsOf (bitsValue bits) bits.length = bits := by
  induction bits using List.reverseRecOn with
  | nil => rfl
  | append_singleton bits b ih =>
    have hhalf : (2 * bitsValue bits + b.toNat) / 2 = bitsValue bits := by
      have := b.toNat_lt
      omega
    have hbit : (2 * bitsValue bits + b.toNat).testBit 0 = b := by
      rw [Nat.testBit_zero]
      cases b <;> simp
    rw [List.length_append, List.length_singleton, bitsValue_append, bitsOf_succ, hhalf, hbit, ih]

section
variable (L : SrslteBit)

/-- The bit routine unpacks as many bits as it is asked for. -/
@[simp] theorem length_unpack (v n : Nat) : (L.unpack v n).length = n := by
  rw [L.unpack_eq]
  simp

/-- What is packed from `n` bits is below `2 ^ n`. -/
theorem pack_lt (bits : List Bool) : L.pack bits < 2 ^ bits.length := by
  have h := L.pack_unpack (bitsValue bits) bits.length
  have hbits : L.unpack (bitsValue bits) bits.length = bits := by
    rw [L.unpack_eq]
    exact bitsOf_bitsValue bits
  rw [hbits] at h
  rw [h]
  exact Nat.mod_lt _ (Nat.two_pow_pos _)

/-! ### Reading single fields -/

/-- A field has no more bits than it is read with. -/
theorem readField_lt {n v : Nat} {bits rest : List Bool}
    (h : readField L n bits = some (v, rest)) : v < 2 ^ n := by
  unfold readField at h
  split at h
  · rename_i hle
    obtain ⟨rfl, -⟩ := Prod.mk.inj (Option.some.inj h)
    have := pack_lt L (bits.take n)
    rwa [List.length_take, Nat.min_eq_left hle] at this
  · cases h

/-- A field that was written is read back modulo its width. -/
theorem readField_unpack (v n : Nat) (bits : List Bool) :
    readField L n (L.unpack v n ++ bits) = some (v % 2 ^ n, bits) := by
  have hlen := length_unpack L v n
  rw [readField, if_pos (by simp), List.take_append_of_le_length (by omega),
    List.take_of_length_le (by omega), List.drop_append_of_le_length (by omega),
    List.drop_of_length_le (by omega), L.pack_unpack]
  rfl

/-- The NACK as it comes through the wire. -/
def wireNack (n : StatusNack) : StatusNack :=
  { nackSn := n.nackSn % 1024
    hasSo := n.hasSo
    soStart := if n.hasSo then n.soStart % 32768 else 0
    soEnd := if n.hasSo then n.soEnd % 32768 else 0 }

/-- The status PDU as it comes through the wire. -/
def wireStatus (status : StatusPdu) : StatusPdu :=
  { ackSn := status.ackSn % 1024, nacks := status.nacks.map wireNack }

/-- One NACK is read back from what the writer's loop wrote for it. -/
theorem readNack_writeNacks (n : StatusNack) (ns : List StatusNack) (pad : List Bool) :
    readNack L (writeNacks L (n :: ns) ++ pad)
      = some (wireNack n, if ns.isEmpty then 0 else 1, writeNacks L ns ++ pad) := by
  have hext : (if ns.isEmpty then 0 else 1) % 2 ^ 1 = if ns.isEmpty then 0 else 1 := by
    split <;> rfl
  obtain ⟨sn, hasSo, soStart, soEnd⟩ := n
  cases hasSo with
  | false =>
    simp only [writeNacks, Bool.false_eq_true, if_false, List.append_assoc, readNack,
      readField_unpack, hext, Option.bind_eq_bind, Option.bind_some, Nat.zero_mod, if_true]
    simp [wireNack]
  | true =>
    simp only [writeNacks, if_true, List.append_assoc, readNack, readField_unpack, hext,
      Option.bind_eq_bind, Option.bind_some]
    simp [wireNack]

/-- The reader's loop inverts the writer's, as long as the `nacks` array has room. -/
theorem readNacks_writeNacks (nacks : List StatusNack) (hne : nacks ≠ []) (slots : Nat)
    (hslots : nacks.length ≤ slots) (pad : List Bool) :
    readNacks L slots (writeNacks L nacks ++ pad) = some (nacks.map wireNack) := by
  induction nacks generalizing slots with
  | nil => exact absurd rfl hne
  | cons n ns ih =>
    cases slots with
    | zero => simp at hslots
    | succ slots =>
      rw [readNacks, readNack_writeNacks]
      simp only [Option.bind_eq_bind, Option.bind_some]
      cases ns with
      | nil => rfl
      | cons m ms =>
        rw [if_neg (by simp), ih (by simp) slots (by simpa using hslots)]
        rfl

/-! ### The whole PDU -/

/-- The NACKs take 12 or 42 bits each. -/
theorem length_writeNacks (nacks : List StatusNack) :
    (writeNacks L nacks).length = (nacks.map fun n => if n.hasSo then 42 else 12).sum := by
  induction nacks with
  | nil => rfl
  | cons n ns ih =>
    cases h : n.hasSo <;> simp [writeNacks, h, ih] <;> omega

/-- A status PDU takes the bits that are counted for it. -/
theorem length_writeStatusBits (status : StatusPdu) :
    (writeStatusBits L status).length = statusLengthBits status := by
  simp [writeStatusBits, statusLengthBits, length_writeNacks]
  omega

/-- The number of bits of a status PDU is odd, so it never fills whole bytes. -/
theorem statusLengthBits_odd (status : StatusPdu) : statusLengthBits status % 2 = 1 := by
  have heven : ∀ nacks : List StatusNack,
      (nacks.map fun n => if n.hasSo then 42 else 12).sum % 2 = 0 := by
    intro nacks
    induction nacks with
    | nil => rfl
    | cons n ns ih =>
      rw [List.map_cons, List.sum_cons]
      split <;> omega
  have h := heven status.nacks
  unfold statusLengthBits
  omega

/-- The padded bits fill whole bytes. -/
theorem length_paddedStatusBits (status : StatusPdu) :
    (writeStatusBits L status
      ++ L.unpack 0 (8 - (writeStatusBits L status).length % 8)).length
      = 8 * statusPackedLength status := by
  have hodd := statusLengthBits_odd status
  rw [List.length_append, length_unpack, length_writeStatusBits, statusPackedLength]
  omega

/-- The bytes `rlc_am_write_status_pdu` writes are `rlc_am_packed_length` many. -/
theorem length_writeStatusPdu (status : StatusPdu) :
    (writeStatusPdu L status).length = statusPackedLength status := by
  have hlen := length_paddedStatusBits L status
  rw [writeStatusPdu, L.length_packVector _ (by omega), hlen]
  omega

/-- `rlc_am_read_status_pdu` reads back what was written. -/
theorem readStatusPdu_write (status : StatusPdu) (hn : status.nacks.length ≤ 512) :
    readStatusPdu L (writeStatusPdu L status) = some (wireStatus status) := by
  have hlen := length_paddedStatusBits L status
  have hbits : L.unpackVector (writeStatusPdu L status)
      = writeStatusBits L status ++ L.unpack 0 (8 - (writeStatusBits L status).length % 8) :=
    L.unpackVector_packVector _ (by omega)
  rw [readStatusPdu, hbits]
  simp only [writeStatusBits, List.append_assoc, readField_unpack, DcField.toNat,
    Option.bind_eq_bind, Option.bind_some, Nat.zero_mod, ne_eq, not_true, if_false]
  obtain ⟨ackSn, nacks⟩ := status
  cases nacks with
  | nil => simp [wireStatus]
  | cons n ns =>
    rw [if_neg (by simp), readNacks_writeNacks L (n :: ns) (by simp) 512 hn]
    simp [wireStatus]

/-- A written status PDU starts with the bit of a control PDU. -/
theorem writeStatusPdu_control (status : StatusPdu) :
    ∃ b0 rest, writeStatusPdu L status = b0 :: rest ∧ isControlPdu b0 = true := by
  have hlen := length_writeStatusPdu L status
  have hpad := length_paddedStatusBits L status
  cases hw : writeStatusPdu L status with
  | nil =>
    rw [hw, List.length_nil] at hlen
    unfold statusPackedLength statusLengthBits at hlen
    omega
  | cons b0 rest =>
    refine ⟨b0, rest, rfl, ?_⟩
    have hhead := L.head_unpackVector b0 rest
    rw [← hw, writeStatusPdu, L.unpackVector_packVector _ (by omega)] at hhead
    have hbit : b0.toNat.testBit 7 = false := by
      simpa [writeStatusBits, L.unpack_eq, DcField.toNat, List.range_succ] using hhead.symm
    have hmod : b0.toNat / 2 ^ 7 % 2 = 0 := by
      rw [Nat.testBit_eq_decide_div_mod_eq, decide_eq_false_iff_not] at hbit
      omega
    have hand : (b0.toNat >>> 7) &&& 0x01 = 0 := by
      rw [Nat.shiftRight_eq_div_pow]
      exact (Nat.and_two_pow_sub_one_eq_mod _ 1).trans hmod
    simp [isControlPdu, hand, DcField.toNat]

/-! ### The fields that are read -/

/-- The segment offsets that a status PDU can carry. -/
def OffsetsRead (n : StatusNack) : Prop := n.soStart < 2 ^ 15 ∧ n.soEnd < 2 ^ 15

/-- A NACK is read with offsets of 15 bits. -/
theorem readNack_offsets {bits rest : List Bool} {n : StatusNack} {ext1 : Nat}
    (h : readNack L bits = some (n, ext1, rest)) : OffsetsRead n := by
  obtain ⟨⟨sn, b1⟩, -, h⟩ := Option.bind_eq_some_iff.mp h
  obtain ⟨⟨e1, b2⟩, -, h⟩ := Option.bind_eq_some_iff.mp h
  obtain ⟨⟨e2, b3⟩, -, h⟩ := Option.bind_eq_some_iff.mp h
  simp only at h
  split at h
  · obtain ⟨rfl, -⟩ := Prod.mk.inj (Option.some.inj h)
    exact ⟨Nat.two_pow_pos 15, Nat.two_pow_pos 15⟩
  · obtain ⟨⟨soStart, b4⟩, hstart, h⟩ := Option.bind_eq_some_iff.mp h
    obtain ⟨⟨soEnd, b5⟩, hend, h⟩ := Option.bind_eq_some_iff.mp h
    obtain ⟨rfl, -⟩ := Prod.mk.inj (Option.some.inj h)
    exact ⟨readField_lt L hstart, readField_lt L hend⟩

/-- So are all of them. Induction on the room for NACKs. -/
theorem readNacks_offsets {slots : Nat} {bits : List Bool} {nacks : List StatusNack}
    (h : readNacks L slots bits = some nacks) : ∀ n ∈ nacks, OffsetsRead n := by
  induction slots generalizing bits nacks with
  | zero => cases h
  | succ slots ih =>
    obtain ⟨⟨n, ext1, rest⟩, hn, h⟩ := Option.bind_eq_some_iff.mp h
    have hoff := readNack_offsets L hn
    simp only at h
    split at h
    · obtain rfl := Option.some.inj h
      simpa using hoff
    · obtain ⟨ns, hns, rfl⟩ := Option.map_eq_some_iff.mp h
      intro m hm
      rcases List.mem_cons.mp hm with rfl | hm
      · exact hoff
      · exact ih hns m hm

/-- The offsets of every NACK that is read fit their 15 bits. -/
theorem readStatusPdu_offsets {payload : Bytes} {status : StatusPdu}
    (h : readStatusPdu L payload = some status) : ∀ n ∈ status.nacks, OffsetsRead n := by
  obtain ⟨⟨dc, b1⟩, -, h⟩ := Option.bind_eq_some_iff.mp h
  simp only at h
  split at h
  · obtain rfl := Option.some.inj h
    simp
  · obtain ⟨⟨cpt, b2⟩, -, h⟩ := Option.bind_eq_some_iff.mp h
    simp only at h
    split at h
    · obtain rfl := Option.some.inj h
      simp
    · obtain ⟨⟨ackSn, b3⟩, -, h⟩ := Option.bind_eq_some_iff.mp h
      obtain ⟨⟨ext1, b4⟩, -, h⟩ := Option.bind_eq_some_iff.mp h
      simp only at h
      split at h
      · obtain rfl := Option.some.inj h
        simp
      · obtain ⟨nacks, hnacks, rfl⟩ := Option.map_eq_some_iff.mp h
        exact readNacks_offsets L hnacks

end

/-! ### Concrete bit routines -/

/-- Bytes from groups of eight bits. An incomplete group at the end is left out. -/
def packBytes : List Bool → Bytes
  | b7 :: b6 :: b5 :: b4 :: b3 :: b2 :: b1 :: b0 :: bits =>
    .ofNat (bitsValue [b7, b6, b5, b4, b3, b2, b1, b0]) :: packBytes bits
  | _ => []

/-- Eight bits are those of their byte. -/
theorem bitsOf_bitsValue_eight (b7 b6 b5 b4 b3 b2 b1 b0 : Bool) :
    bitsOf (UInt8.ofNat (bitsValue [b7, b6, b5, b4, b3, b2, b1, b0])).toNat 8
      = [b7, b6, b5, b4, b3, b2, b1, b0] := by
  have hbits := bitsOf_bitsValue [b7, b6, b5, b4, b3, b2, b1, b0]
  have hlt : bitsValue [b7, b6, b5, b4, b3, b2, b1, b0] < 2 ^ 8 := by
    have hvalue := bitsValue_bitsOf (bitsValue [b7, b6, b5, b4, b3, b2, b1, b0]) 8
    rw [show bitsOf _ 8 = _ from hbits] at hvalue
    rw [hvalue]
    exact Nat.mod_lt _ (Nat.two_pow_pos 8)
  rw [UInt8.toNat_ofNat', Nat.mod_eq_of_lt hlt]
  exact hbits

/-- The bits of bytes. -/
def unpackBytes (bytes : Bytes) : List Bool := bytes.flatMap fun b => bitsOf b.toNat 8

/-- A byte has eight bits. -/
theorem length_unpackBytes (bytes : Bytes) : (unpackBytes bytes).length = 8 * bytes.length := by
  induction bytes with
  | nil => rfl
  | cons b bytes ih =>
    have hcons : unpackBytes (b :: bytes) = bitsOf b.toNat 8 ++ unpackBytes bytes := rfl
    rw [hcons, List.length_append, ih, List.length_cons]
    simp [bitsOf]
    omega

/-- Whole bytes of bits survive packing and unpacking. -/
theorem unpackBytes_packBytes (bits : List Bool) (h : bits.length % 8 = 0) :
    unpackBytes (packBytes bits) = bits := by
  induction bits using packBytes.induct with
  | case1 b7 b6 b5 b4 b3 b2 b1 b0 bits ih =>
    have hrest : bits.length % 8 = 0 := by
      simp only [List.length_cons] at h
      omega
    rw [packBytes, unpackBytes, List.flatMap_cons, bitsOf_bitsValue_eight]
    exact congrArg _ (ih hrest)
  | case2 bits hshort =>
    have hnil : bits = [] := by
      match bits, hshort, h with
      | [], _, _ => rfl
      | b7 :: b6 :: b5 :: b4 :: b3 :: b2 :: b1 :: b0 :: bits, hshort, _ =>
        exact absurd rfl (hshort b7 b6 b5 b4 b3 b2 b1 b0 bits)
      | [_], _, h | [_, _], _, h | [_, _, _], _, h | [_, _, _, _], _, h | [_, _, _, _, _], _, h
      | [_, _, _, _, _, _], _, h | [_, _, _, _, _, _, _], _, h => simp at h
    subst hnil
    rfl

/-- Bit routines that put the most significant bit first. -/
def msbFirst : SrslteBit where
  unpack := bitsOf
  pack := bitsValue
  packVector := packBytes
  unpackVector := unpackBytes
  unpack_eq _ _ := rfl
  pack_unpack := bitsValue_bitsOf
  length_packVector bits h := by
    have hlen := length_unpackBytes (packBytes bits)
    rw [unpackBytes_packBytes bits h] at hlen
    omega
  length_unpackVector := length_unpackBytes
  unpackVector_packVector := unpackBytes_packBytes
  head_unpackVector b bytes := by
    have hcons : unpackBytes (b :: bytes) = bitsOf b.toNat 8 ++ unpackBytes bytes := rfl
    rw [hcons]
    rfl

end SrsUE.Proofs.Rlc
