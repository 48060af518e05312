import Mathlib.Tactic.Common

/-!
# `SrsUE.Lib.Memory`: writing into a buffer of fixed size

A buffer is a list of cells, and a write goes to an offset of it. A write that does not stay inside
is not defined.

* `writeAll_eq_some_iff`: several writes are defined exactly when each stays inside.
* `At`: what a buffer holds at an offset. `At.writeAt_self` and `At.writeAt_other` say what a write
  puts there, and that it leaves everything else; `At.append` joins what stands side by side.
* `layOut`: writes one behind the other, and what a buffer holds after them.
-/

set_option autoImplicit false

namespace SrsUE.Lib

variable {τ : Type}

/-- The write stays inside a buffer of this size. -/
def Inside (size : Nat) (w : Nat × List τ) : Prop := w.1 + w.2.length ≤ size

instance (size : Nat) (w : Nat × List τ) : Decidable (Inside size w) :=
  inferInstanceAs (Decidable (_ ≤ _))

/-- The buffer after a write. -/
def writeAt (buf : List τ) (w : Nat × List τ) : Option (List τ) :=
  if Inside buf.length w then
    some (buf.take w.1 ++ w.2 ++ buf.drop (w.1 + w.2.length))
  else none

/-- The buffer after several writes. -/
def writeAll : List τ → List (Nat × List τ) → Option (List τ)
  | buf, [] => some buf
  | buf, w :: ws => (writeAt buf w).bind fun buf => writeAll buf ws

/-- `n` cells from an offset on. -/
def readAt (buf : List τ) (off n : Nat) : Option (List τ) :=
  if off + n ≤ buf.length then some ((buf.drop off).take n) else none

variable {buf buf' : List τ} {w : Nat × List τ} {ws : List (Nat × List τ)}

/-- A write inside of the buffer replaces its cells. -/
theorem writeAt_of_inside (h : Inside buf.length w) :
    writeAt buf w = some (buf.take w.1 ++ w.2 ++ buf.drop (w.1 + w.2.length)) := if_pos h

/-- Only such a write is done. -/
theorem inside_of_writeAt (h : writeAt buf w = some buf') : Inside buf.length w := by
  by_contra hout
  rw [writeAt, if_neg hout] at h
  cases h

/-- It keeps the length of the buffer. -/
theorem length_writeAt (h : writeAt buf w = some buf') : buf'.length = buf.length := by
  have hin := inside_of_writeAt h
  rw [writeAt_of_inside hin] at h
  obtain rfl := Option.some.inj h
  unfold Inside at hin
  simp only [List.length_append, List.length_take, List.length_drop]
  omega

/-- So do several writes. -/
theorem length_writeAll (h : writeAll buf ws = some buf') : buf'.length = buf.length := by
  induction ws generalizing buf with
  | nil => rw [Option.some.inj h]
  | cons w ws ih =>
    obtain ⟨buf₁, hw, hws⟩ := Option.bind_eq_some_iff.mp h
    rw [ih hws, length_writeAt hw]

/-- Several writes are defined exactly when each of them stays inside. -/
theorem writeAll_eq_some_iff :
    (∃ buf', writeAll buf ws = some buf') ↔ ∀ w ∈ ws, Inside buf.length w := by
  induction ws generalizing buf with
  | nil => exact iff_of_true ⟨buf, rfl⟩ (List.forall_mem_nil _)
  | cons w ws ih =>
    rw [List.forall_mem_cons]
    constructor
    · rintro ⟨buf', h⟩
      obtain ⟨buf₁, hw, hws⟩ := Option.bind_eq_some_iff.mp h
      have hrest := ih.mp ⟨buf', hws⟩
      rw [length_writeAt hw] at hrest
      exact ⟨inside_of_writeAt hw, hrest⟩
    · rintro ⟨hin, hrest⟩
      have hw := writeAt_of_inside hin
      rw [← length_writeAt hw] at hrest
      obtain ⟨buf', hws⟩ := ih.mpr hrest
      exact ⟨buf', Option.bind_eq_some_iff.mpr ⟨_, hw, hws⟩⟩

/-- Writes one after the other. -/
theorem writeAll_append (ws vs : List (Nat × List τ)) :
    writeAll buf (ws ++ vs) = (writeAll buf ws).bind fun buf => writeAll buf vs := by
  induction ws generalizing buf with
  | nil => rfl
  | cons w ws ih =>
    rw [List.cons_append, writeAll, writeAll, Option.bind_assoc]
    simp only [ih]

/-! ### What stands where -/

/-- The buffer holds the cells at the offset. -/
def At (buf : List τ) (off : Nat) (xs : List τ) : Prop :=
  ∀ i, i < xs.length → buf[off + i]? = xs[i]?

/-- The cells after a write. -/
theorem getElem?_writeAt (h : writeAt buf w = some buf') (i : Nat) :
    buf'[i]? = if w.1 ≤ i ∧ i < w.1 + w.2.length then w.2[i - w.1]? else buf[i]? := by
  have hin := inside_of_writeAt h
  rw [writeAt_of_inside hin] at h
  obtain rfl := Option.some.inj h
  unfold Inside at hin
  have htake : (buf.take w.1).length = w.1 := by
    rw [List.length_take]
    omega
  rw [List.append_assoc, List.getElem?_append, htake]
  split
  · -- In front of the write.
    rw [List.getElem?_take_of_lt ‹_›, if_neg (by omega)]
  · rw [List.getElem?_append]
    split
    · rw [if_pos (by omega)]
    · rw [List.getElem?_drop, if_neg (by omega)]
      congr 1
      omega

/-- A write puts its cells at its offset. -/
theorem At.writeAt_self {off : Nat} {xs : List τ} (h : writeAt buf (off, xs) = some buf') :
    At buf' off xs := by
  intro i hi
  rw [getElem?_writeAt h, if_pos (by dsimp only; omega)]
  congr 1
  exact Nat.add_sub_cancel_left ..

/-- It leaves what stands in front of it and behind it. -/
theorem At.writeAt_other {off : Nat} {xs : List τ} (hat : At buf off xs)
    (h : writeAt buf w = some buf')
    (hother : off + xs.length ≤ w.1 ∨ w.1 + w.2.length ≤ off) : At buf' off xs := by
  intro i hi
  rw [getElem?_writeAt h, if_neg (by omega), hat i hi]

/-- A write inside of what stands somewhere changes it as it would on its own. -/
theorem At.writeAt_within {off : Nat} {xs xs' : List τ} (hat : At buf off xs)
    (h : writeAt buf (off + w.1, w.2) = some buf') (hxs : writeAt xs w = some xs') :
    At buf' off xs' := by
  intro i hi
  rw [length_writeAt hxs] at hi
  rw [getElem?_writeAt h, getElem?_writeAt hxs, hat i hi]
  dsimp only
  by_cases hin : w.1 ≤ i ∧ i < w.1 + w.2.length
  · rw [if_pos hin, if_pos (by omega)]
    congr 1
    omega
  · rw [if_neg hin, if_neg (by omega)]

/-- What lies behind something is held with it. -/
theorem At.append {off : Nat} {xs ys : List τ} (hxs : At buf off xs)
    (hys : At buf (off + xs.length) ys) : At buf off (xs ++ ys) := by
  intro i hi
  rw [List.getElem?_append]
  split
  · exact hxs i ‹_›
  · rw [List.length_append] at hi
    rw [← hys (i - xs.length) (by omega)]
    congr 1
    omega

/-- Nothing is held everywhere. -/
theorem At.nil (buf : List τ) (off : Nat) : At buf off [] :=
  fun i hi => absurd hi (Nat.not_lt_zero i)

/-- The first cells of it stand there, too. -/
theorem At.take {off : Nat} {xs : List τ} (hat : At buf off xs) (n : Nat) :
    At buf off (xs.take n) := by
  intro i hi
  rw [List.length_take] at hi
  rw [hat i (by omega), List.getElem?_take_of_lt (by omega)]

/-- Something stands everywhere inside. -/
theorem exists_at {off n : Nat} (h : off + n ≤ buf.length) : ∃ xs : List τ, xs.length = n ∧
    At buf off xs := by
  refine ⟨(buf.drop off).take n, by rw [List.length_take, List.length_drop]; omega, fun i hi => ?_⟩
  rw [List.length_take, List.length_drop] at hi
  rw [List.getElem?_take_of_lt (by omega), List.getElem?_drop]

/-- Reading gives what stands there. -/
theorem At.readAt {off : Nat} {xs : List τ} (hat : At buf off xs)
    (hin : off + xs.length ≤ buf.length) :
    readAt buf off xs.length = some xs := by
  rw [Lib.readAt, if_pos hin]
  refine congrArg some (List.ext_getElem? fun i => ?_)
  by_cases hi : i < xs.length
  · rw [List.getElem?_take_of_lt hi, List.getElem?_drop, hat i hi]
  · rw [List.getElem?_eq_none (by rw [List.length_take]; omega), List.getElem?_eq_none (by omega)]

/-! ### One behind the other -/

/-- Writes one behind the other, from an offset on. -/
def layOut (off : Nat) : List (List τ) → List (Nat × List τ)
  | [] => []
  | xs :: xss => (off, xs) :: layOut (off + xs.length) xss

/-- They end where all their cells end. -/
theorem le_of_mem_layOut {off : Nat} {xss : List (List τ)} (hw : w ∈ layOut off xss) :
    off ≤ w.1 ∧ w.1 + w.2.length ≤ off + xss.flatten.length := by
  induction xss generalizing off with
  | nil => cases hw
  | cons xs xss ih =>
    rw [List.flatten_cons, List.length_append]
    rcases List.mem_cons.mp hw with rfl | hrest
    · exact ⟨Nat.le_refl _, by dsimp only; omega⟩
    · have hbounds := ih hrest
      omega

/-- What is in front of all the writes stays. -/
theorem At.writeAll_other {off : Nat} {xs : List τ} (hat : At buf off xs)
    (h : writeAll buf ws = some buf')
    (hother : ∀ w ∈ ws, off + xs.length ≤ w.1 ∨ w.1 + w.2.length ≤ off) : At buf' off xs := by
  induction ws generalizing buf with
  | nil =>
    obtain rfl := Option.some.inj h
    exact hat
  | cons w ws ih =>
    obtain ⟨hw, hws⟩ := List.forall_mem_cons.mp hother
    obtain ⟨buf₁, hwrite, hrest⟩ := Option.bind_eq_some_iff.mp h
    exact ih (hat.writeAt_other hwrite hw) hrest hws

/-- What was written one behind the other is held. -/
theorem At.layOut {off : Nat} {xss : List (List τ)}
    (h : writeAll buf (layOut off xss) = some buf') :
    At buf' off xss.flatten := by
  induction xss generalizing buf off with
  | nil => exact At.nil buf' off
  | cons xs xss ih =>
    obtain ⟨buf₁, hwrite, hrest⟩ := Option.bind_eq_some_iff.mp h
    rw [List.flatten_cons]
    refine At.append ?_ (ih hrest)
    exact (At.writeAt_self hwrite).writeAll_other hrest fun w hw => Or.inl (le_of_mem_layOut hw).1

end SrsUE.Lib
