import Mathlib.Algebra.Order.Ring.Nat
import Mathlib.Tactic.Common

/-!
# `SrsUE.Lib.BitCodec`: fields of bits, written and read back

A message is a list of bits, and a field in it has its most significant bit first. A writer gives
the bits of a value. A reader takes bits from the front of a message and leaves the rest. Behind the
end it reads zeros.

For each writer and its reader there is one lemma, tagged for `simp`: the reader gets the value back
from what the writer wrote, whatever stands behind it. Those of a composed format follow from those
of its parts.
-/

set_option autoImplicit false

namespace SrsUE.Lib

variable {α β : Type}

/-- A function that takes bits from the front of a message. -/
structure BitReader (α : Type) where
  run : List Bool → α × List Bool

instance : Monad BitReader where
  pure a := ⟨fun bits => (a, bits)⟩
  bind r f := ⟨fun bits => (f (r.run bits).1).run (r.run bits).2⟩

namespace BitReader

/-- A reader that takes nothing. -/
@[simp] theorem run_pure (a : α) (bits : List Bool) : (pure a : BitReader α).run bits = (a, bits) :=
  rfl

/-- One reader after the other. -/
@[simp] theorem run_bind (r : BitReader α) (f : α → BitReader β) (bits : List Bool) :
    (r >>= f).run bits = (f (r.run bits).1).run (r.run bits).2 := rfl

/-- A function of what is read. -/
@[simp] theorem run_map (f : α → β) (r : BitReader α) (bits : List Bool) :
    (f <$> r).run bits = (f (r.run bits).1, (r.run bits).2) := rfl

end BitReader

/-! ### Numbers -/

/-- A bit that says whether something is there. -/
def putFlag (b : Bool) : List Bool := [b]

def getFlag : BitReader Bool := ⟨fun bits => (bits.headD false, bits.tail)⟩

/-- A flag takes one bit. -/
@[simp] theorem length_putFlag (b : Bool) : (putFlag b).length = 1 := rfl

/-- A flag comes back. -/
@[simp] theorem getFlag_putFlag (b : Bool) (rest : List Bool) :
    getFlag.run (putFlag b ++ rest) = (b, rest) :=
  rfl

/-- The `n` low bits of a number. -/
def putNat : Nat → Nat → List Bool
  | 0, _ => []
  | n + 1, v => v.testBit n :: putNat n v

/-- A number of `n` bits. -/
def getNat : Nat → BitReader Nat
  | 0 => pure 0
  | n + 1 => do
    let b ← getFlag
    let v ← getNat n
    return b.toNat * 2 ^ n + v

/-- A number takes the bits it is given. -/
@[simp] theorem length_putNat (n v : Nat) : (putNat n v).length = n := by
  induction n with
  | zero => rfl
  | succ n ih => rw [putNat, List.length_cons, ih]

/-- The low bits of a number come back. -/
@[simp] theorem getNat_putNat (n v : Nat) (rest : List Bool) :
    (getNat n).run (putNat n v ++ rest) = (v % 2 ^ n, rest) := by
  induction n with
  | zero => simp [getNat, putNat, Nat.mod_one]
  | succ n ih =>
    have hflag : getFlag.run (v.testBit n :: (putNat n v ++ rest))
        = (v.testBit n, putNat n v ++ rest) :=
      rfl
    have hmod : v % 2 ^ (n + 1) = (v.testBit n).toNat * 2 ^ n + v % 2 ^ n := by
      rw [Nat.mod_pow_succ, Nat.toNat_testBit, Nat.mul_comm, Nat.add_comm]
    simp [getNat, putNat, hflag, ih, hmod]

/-- Two numbers one behind the other are one number. -/
theorem putNat_add (m n v : Nat) : putNat (m + n) v = putNat m (v >>> n) ++ putNat n v := by
  induction m with
  | zero => rw [Nat.zero_add, putNat, List.nil_append]
  | succ m ih =>
    rw [Nat.succ_add, putNat, putNat, List.cons_append, ih, Nat.testBit_shiftRight, Nat.add_comm]

/-- A field of `k` bits. -/
def putBits {k : Nat} (v : BitVec k) : List Bool := putNat k v.toNat

def getBits (k : Nat) : BitReader (BitVec k) := BitVec.ofNat k <$> getNat k

/-- A field takes its bits. -/
@[simp] theorem length_putBits {k : Nat} (v : BitVec k) : (putBits v).length = k :=
  length_putNat k _

/-- A field comes back. -/
@[simp] theorem getBits_putBits {k : Nat} (v : BitVec k) (rest : List Bool) :
    (getBits k).run (putBits v ++ rest) = (v, rest) := by
  simp [getBits, putBits]

/-! ### Numbers that do not start at zero -/

/-- A value from `lo` on that fits in `k` bits when `lo` is taken off. -/
structure Offset (lo : Int) (k : Nat) where
  val : Int
  le : lo ≤ val
  lt : val < lo + 2 ^ k
deriving DecidableEq, Repr

namespace Offset

variable {lo : Int} {k : Nat}

/-- A value with an offset is known by the value. -/
@[ext] theorem ext {a b : Offset lo k} (h : a.val = b.val) : a = b := by
  cases a
  cases b
  cases h
  rfl

def ofBits (v : BitVec k) : Offset lo k where
  val := lo + v.toNat
  le := Int.le_add_of_nonneg_right (Int.natCast_nonneg _)
  lt := Int.add_lt_add_left (by exact_mod_cast v.isLt) lo

def toBits (a : Offset lo k) : BitVec k := BitVec.ofNat k (a.val - lo).toNat

/-- The bits of such a value give it back. -/
@[simp] theorem ofBits_toBits (a : Offset lo k) : ofBits a.toBits = a := by
  have hle := a.le
  have hlt := a.lt
  have hfits : (a.val - lo).toNat < 2 ^ k :=
    (Int.toNat_lt (Int.sub_nonneg_of_le hle)).mpr (by exact_mod_cast Int.sub_left_lt_of_lt_add hlt)
  apply Offset.ext
  show lo + ((BitVec.ofNat k (a.val - lo).toNat).toNat : Int) = a.val
  rw [BitVec.toNat_ofNat, Nat.mod_eq_of_lt hfits, Int.toNat_of_nonneg (Int.sub_nonneg_of_le hle)]
  omega

end Offset

def putOffset {lo : Int} {k : Nat} (a : Offset lo k) : List Bool := putBits a.toBits

def getOffset (lo : Int) (k : Nat) : BitReader (Offset lo k) := Offset.ofBits <$> getBits k

/-- It takes its bits. -/
@[simp] theorem length_putOffset {lo : Int} {k : Nat} (a : Offset lo k) :
    (putOffset a).length = k :=
  length_putBits _

/-- It comes back. -/
@[simp] theorem getOffset_putOffset {lo : Int} {k : Nat} (a : Offset lo k) (rest : List Bool) :
    (getOffset lo k).run (putOffset a ++ rest) = (a, rest) := by
  simp [getOffset, putOffset]

/-! ### Optional parts -/

/-- A part that is there or not. A flag in front of it has said so. -/
def putOpt (w : α → List Bool) : Option α → List Bool
  | none => []
  | some a => w a

def getOpt (present : Bool) (r : BitReader α) : BitReader (Option α) :=
  if present then some <$> r else pure none

/-- An optional part comes back, when what is in it does. -/
@[simp] theorem getOpt_putOpt {r : BitReader α} {w : α → List Bool}
    (h : ∀ a rest, r.run (w a ++ rest) = (a, rest)) (o : Option α) (rest : List Bool) :
    (getOpt o.isSome r).run (putOpt w o ++ rest) = (o, rest) := by
  cases o with
  | none => rfl
  | some a => simp [getOpt, putOpt, h]

/-- An optional part right behind its flag. -/
def putFlagged (w : α → List Bool) (o : Option α) : List Bool := putFlag o.isSome ++ putOpt w o

def getFlagged (r : BitReader α) : BitReader (Option α) := do
  let present ← getFlag
  getOpt present r

/-- So does an optional part behind its flag. -/
@[simp] theorem getFlagged_putFlagged {r : BitReader α} {w : α → List Bool}
    (h : ∀ a rest, r.run (w a ++ rest) = (a, rest)) (o : Option α) (rest : List Bool) :
    (getFlagged r).run (putFlagged w o ++ rest) = (o, rest) := by
  simp [getFlagged, putFlagged, h]

/-- A part, or a flag that stands for its default value. -/
def putOrDefault (w : α → List Bool) (o : Option α) : List Bool := putFlag o.isNone ++ putOpt w o

def getOrDefault (r : BitReader α) : BitReader (Option α) := do
  let default ← getFlag
  getOpt (!default) r

/-- So does a part that has a default value. -/
@[simp] theorem getOrDefault_putOrDefault {r : BitReader α} {w : α → List Bool}
    (h : ∀ a rest, r.run (w a ++ rest) = (a, rest)) (o : Option α) (rest : List Bool) :
    (getOrDefault r).run (putOrDefault w o ++ rest) = (o, rest) := by
  simp [getOrDefault, putOrDefault, h]

/-- An optional part takes at most what is in it. -/
theorem length_putOpt_le {w : α → List Bool} {n : Nat} (h : ∀ a, (w a).length ≤ n) (o : Option α) :
    (putOpt w o).length ≤ n := by
  cases o with
  | none => exact Nat.zero_le n
  | some a => exact h a

/-- A flag takes one bit more. -/
theorem length_putFlagged_le {w : α → List Bool} {n : Nat} (h : ∀ a, (w a).length ≤ n)
    (o : Option α) :
    (putFlagged w o).length ≤ n + 1 := by
  rw [putFlagged, List.length_append, length_putFlag, Nat.add_comm]
  exact Nat.succ_le_succ (length_putOpt_le h o)

/-- So does the flag for the default value. -/
theorem length_putOrDefault_le {w : α → List Bool} {n : Nat} (h : ∀ a, (w a).length ≤ n)
    (o : Option α) :
    (putOrDefault w o).length ≤ n + 1 := by
  rw [putOrDefault, List.length_append, length_putFlag, Nat.add_comm]
  exact Nat.succ_le_succ (length_putOpt_le h o)

/-! ### Lists -/

/-- The elements of a list. Their number is known from elsewhere. -/
def putList (w : α → List Bool) (l : List α) : List Bool := l.flatMap w

def getList (r : BitReader α) : (n : Nat) → BitReader { l : List α // l.length = n }
  | 0 => pure ⟨[], rfl⟩
  | n + 1 => do
    let a ← r
    let l ← getList r n
    return ⟨a :: l, congrArg (· + 1) l.2⟩

/-- A list of known length comes back, when its elements do. -/
theorem getList_putList {r : BitReader α} {w : α → List Bool}
    (h : ∀ a rest, r.run (w a ++ rest) = (a, rest)) {n : Nat} (l : { l : List α // l.length = n })
    (rest : List Bool) : (getList r n).run (putList w l ++ rest) = (l, rest) := by
  obtain ⟨l, rfl⟩ := l
  induction l with
  | nil => rfl
  | cons a l ih =>
    have hl : (getList r l.length).run (l.flatMap w ++ rest) = (⟨l, rfl⟩, rest) := ih
    simp [getList, putList, h, hl]

/-- A list takes at most the bits of its elements. -/
theorem length_putList_le {w : α → List Bool} {n : Nat} (h : ∀ a, (w a).length ≤ n) (l : List α) :
    (putList w l).length ≤ l.length * n := by
  induction l with
  | nil => exact Nat.zero_le _
  | cons a l ih =>
    have hl : (l.flatMap w).length ≤ l.length * n := ih
    rw [putList, List.flatMap_cons, List.length_append, List.length_cons, Nat.succ_mul,
      Nat.add_comm]
    exact Nat.add_le_add hl (h a)

/-- A list of one to `max` elements. -/
abbrev Counted (α : Type) (max : Nat) : Type := { l : List α // l ≠ [] ∧ l.length ≤ max }

/-- A list behind its number of elements, less one, in `k` bits. -/
def putCounted {max : Nat} (k : Nat) (w : α → List Bool) (l : Counted α max) : List Bool :=
  putBits (BitVec.ofNat k (l.val.length - 1)) ++ putList w l.val

/-- A list with room for `max` elements. Those behind them are taken from the message too. -/
def getCounted (k max : Nat) [NeZero max] (r : BitReader α) : BitReader (Counted α max) := do
  let last ← getBits k
  let l ← getList r (last.toNat + 1)
  have hne : l.val ≠ [] := List.ne_nil_of_length_eq_add_one l.2
  return ⟨l.val.take max, by simp [hne, NeZero.ne max], List.length_take_le max l.val⟩

/-- A list comes back behind its number of elements. -/
@[simp] theorem getCounted_putCounted {k max : Nat} [NeZero max] {r : BitReader α}
    {w : α → List Bool}
    (h : ∀ a rest, r.run (w a ++ rest) = (a, rest)) (hmax : max ≤ 2 ^ k) (l : Counted α max)
    (rest : List Bool) : (getCounted k max r).run (putCounted k w l ++ rest) = (l, rest) := by
  obtain ⟨l, hne, hle⟩ := l
  have hpos : 0 < l.length := List.length_pos_iff.mpr hne
  have hlast : l.length = (BitVec.ofNat k (l.length - 1)).toNat + 1 := by
    rw [BitVec.toNat_ofNat, Nat.mod_eq_of_lt (by omega)]
    omega
  have hlist := getList_putList h ⟨l, hlast⟩ rest
  rw [getCounted, putCounted, List.append_assoc, BitReader.run_bind, getBits_putBits,
    BitReader.run_bind, hlist]
  simp only [BitReader.run_pure, List.take_of_length_le hle]

/-- It takes at most that number and a full list. -/
theorem length_putCounted_le {k max n : Nat} {w : α → List Bool} (h : ∀ a, (w a).length ≤ n)
    (l : Counted α max) : (putCounted k w l).length ≤ k + max * n := by
  rw [putCounted, List.length_append, length_putBits]
  exact Nat.add_le_add_left (Nat.le_trans (length_putList_le h l.val)
    (Nat.mul_le_mul_right n l.property.2)) k

end SrsUE.Lib
