import Mathlib.Algebra.Order.Ring.Nat
import Mathlib.Tactic.Common

/-!
# `SrsUE.Lib.Framing`: a stream of units with end marks

A sequence of messages over `α` travels as one stream of tokens: `some a` is a data unit,
`none` closes the message that is open. `marked` writes a list of messages as such a
stream, and `deframe` reads a stream back: the messages that were closed, and the data
after the last end mark. A block of data with the positions at which messages end inside
it (`frame`) is a piece of the stream, so "nothing is lost, duplicated, reordered or
merged" is an equation between streams.
-/

set_option autoImplicit false

namespace SrsUE.Lib

variable {α : Type}

/-- One token of a framed stream: a data unit, or the end mark `none`. -/
abbrev Token (α : Type) := Option α

/-- The stream of a list of complete messages. -/
def marked (ms : List (List α)) : List (Token α) :=
  ms.flatMap fun m => m.map some ++ [none]

/-- The messages closed in a stream that starts with `cur` already open, and the data of
the message left open at its end. -/
def deframe : List α → List (Token α) → List (List α) × List α
  | cur, [] => ([], cur)
  | cur, some a :: ts => deframe (cur ++ [a]) ts
  | cur, none :: ts => (cur :: (deframe [] ts).1, (deframe [] ts).2)

/-- A block of data in which messages end after the given lengths, the last piece left
open. -/
def frame : List Nat → List α → List (Token α)
  | [], p => p.map some
  | l :: ls, p => (p.take l).map some ++ none :: frame ls (p.drop l)

/-! ### `deframe` -/

/-- An empty stream closes no message. -/
@[simp] theorem deframe_nil (cur : List α) : deframe cur [] = ([], cur) := rfl

/-- Data without an end mark is left open. -/
theorem deframe_data (cur d : List α) : deframe cur (d.map some) = ([], cur ++ d) := by
  induction d generalizing cur with
  | nil => simp
  | cons a d ih => simp [deframe, ih]

/-- Reading two streams one after the other: the second starts with what the first left
open. -/
theorem deframe_append (cur : List α) (xs ys : List (Token α)) :
    deframe cur (xs ++ ys)
      = ((deframe cur xs).1 ++ (deframe (deframe cur xs).2 ys).1,
          (deframe (deframe cur xs).2 ys).2) := by
  induction xs generalizing cur with
  | nil => simp
  | cons t xs ih =>
    cases t with
    | some a => simp only [List.cons_append, deframe, ih]
    | none => simp only [List.cons_append, deframe, ih]

/-- Data in front of a stream goes to the message that is open. -/
theorem deframe_data_append (cur d : List α) (ts : List (Token α)) :
    deframe cur (d.map some ++ ts) = deframe (cur ++ d) ts := by
  rw [deframe_append, deframe_data]
  simp

/-- Complete messages come out as they went in, and nothing stays open. -/
theorem deframe_marked (ms : List (List α)) : deframe [] (marked ms) = (ms, []) := by
  induction ms with
  | nil => rfl
  | cons m ms ih =>
    have hcons : marked (m :: ms) = m.map some ++ none :: marked ms := by simp [marked]
    rw [hcons, deframe_data_append]
    simp [deframe, ih]

/-- The data units of a stream, without the end marks. -/
def units (ts : List (Token α)) : List α := ts.filterMap id

/-- An empty stream has no units. -/
@[simp] theorem units_nil : units ([] : List (Token α)) = [] := rfl

/-- The units of two streams, one after the other. -/
theorem units_append (xs ys : List (Token α)) : units (xs ++ ys) = units xs ++ units ys :=
  List.filterMap_append

/-- An end mark is no unit. -/
@[simp] theorem units_none : units ([none] : List (Token α)) = [] := rfl

/-- Data is its units. -/
theorem units_data (d : List α) : units (d.map some) = d := by
  simp [units, List.filterMap_map]

/-- Reading a stream back keeps every unit, in order. -/
theorem flatten_deframe (cur : List α) (ts : List (Token α)) :
    (deframe cur ts).1.flatten ++ (deframe cur ts).2 = cur ++ units ts := by
  induction ts generalizing cur with
  | nil => simp
  | cons t ts ih =>
    cases t with
    | some a =>
      rw [deframe, ih]
      simp [units]
    | none =>
      have h := ih []
      simp only [deframe, List.flatten_cons, List.append_assoc]
      rw [h]
      simp [units]

/-- What was open in front of a stream is part of the first message it closes, and of nothing
else. -/
theorem deframe_cur (cur cur' : List α) (ts : List (Token α)) :
    (deframe cur ts).1.tail = (deframe cur' ts).1.tail ∧
      ((deframe cur ts).1 = [] ↔ (deframe cur' ts).1 = []) ∧
      ((deframe cur ts).1 ≠ [] → (deframe cur ts).2 = (deframe cur' ts).2) := by
  induction ts generalizing cur cur' with
  | nil => simp
  | cons t ts ih =>
    cases t with
    | some a => exact ih (cur ++ [a]) (cur' ++ [a])
    | none => simp [deframe]

/-- A stream that closes no message adds its units to the open one. -/
theorem deframe_open {cur : List α} {ts : List (Token α)} (h : (deframe cur ts).1 = []) :
    (deframe cur ts).2 = cur ++ units ts := by
  have hflat := flatten_deframe cur ts
  rwa [h, List.flatten_nil, List.nil_append] at hflat

/-- Every message that a stream closes, and the one that it leaves open, has at most `n` units. -/
def PiecesWithin (n : Nat) (cur : List α) (ts : List (Token α)) : Prop :=
  (∀ m ∈ (deframe cur ts).1, m.length ≤ n) ∧ (deframe cur ts).2.length ≤ n

instance (n : Nat) (cur : List α) (ts : List (Token α)) : Decidable (PiecesWithin n cur ts) :=
  inferInstanceAs (Decidable (_ ∧ _))

/-- What was open in front of the stream is a part of the first piece. -/
theorem PiecesWithin.cur_le {n : Nat} {cur : List α} {ts : List (Token α)}
    (h : PiecesWithin n cur ts) : cur.length ≤ n := by
  induction ts generalizing cur with
  | nil => exact h.2
  | cons t ts ih =>
    cases t with
    | some a =>
      have hnext : (cur ++ [a]).length ≤ n := ih h
      rw [List.length_append] at hnext
      exact Nat.le_of_add_right_le hnext
    | none => exact h.1 cur (List.mem_cons_self ..)

/-- The pieces of two streams, one after the other. -/
theorem piecesWithin_append {n : Nat} {cur : List α} (xs ys : List (Token α)) :
    PiecesWithin n cur (xs ++ ys)
      ↔ PiecesWithin n cur xs ∧ PiecesWithin n (deframe cur xs).2 ys := by
  have hmem : ∀ m, m ∈ (deframe cur (xs ++ ys)).1
      ↔ m ∈ (deframe cur xs).1 ∨ m ∈ (deframe (deframe cur xs).2 ys).1 := by
    intro m
    rw [deframe_append, List.mem_append]
  have hrest : (deframe cur (xs ++ ys)).2 = (deframe (deframe cur xs).2 ys).2 := by
    rw [deframe_append]
  constructor
  · intro h
    have hys : PiecesWithin n (deframe cur xs).2 ys :=
      ⟨fun m hm => h.1 m ((hmem m).mpr (.inr hm)), hrest ▸ h.2⟩
    exact ⟨⟨fun m hm => h.1 m ((hmem m).mpr (.inl hm)), hys.cur_le⟩, hys⟩
  · rintro ⟨hxs, hys⟩
    exact ⟨fun m hm => ((hmem m).mp hm).elim (hxs.1 m) (hys.1 m), hrest ▸ hys.2⟩

/-- An end mark makes no piece longer. -/
theorem piecesWithin_end {n : Nat} {cur : List α} (ts : List (Token α)) :
    PiecesWithin n cur (ts ++ [none]) ↔ PiecesWithin n cur ts := by
  rw [piecesWithin_append]
  refine and_iff_left_of_imp fun h => ⟨fun m hm => ?_, Nat.zero_le n⟩
  rw [List.mem_singleton.mp hm]
  exact h.2

/-! ### `marked` and `frame` -/

/-- No messages are an empty stream. -/
@[simp] theorem marked_nil : marked ([] : List (List α)) = [] := rfl

/-- A message is its data and an end mark. -/
theorem marked_cons (m : List α) (ms : List (List α)) :
    marked (m :: ms) = m.map some ++ none :: marked ms := by
  simp [marked]

/-- The messages of two lists, one after the other. -/
theorem marked_append (ms ns : List (List α)) : marked (ms ++ ns) = marked ms ++ marked ns := by
  simp [marked]

/-- Without lengths the whole block is left open. -/
@[simp] theorem frame_nil (p : List α) : frame [] p = p.map some := rfl

/-- The first of the messages that follow completes the open one. -/
theorem deframe_marked_cons (cur m : List α) (ms : List (List α)) :
    deframe cur (marked (m :: ms)) = ((cur ++ m) :: ms, []) := by
  rw [marked_cons, deframe_data_append, deframe, deframe_marked]

/-- End marks do not change the data. -/
theorem units_frame (ls : List Nat) (p : List α) : units (frame ls p) = p := by
  induction ls generalizing p with
  | nil => exact units_data p
  | cons l ls ih =>
    have hcons : units (none :: frame ls (p.drop l)) = units (frame ls (p.drop l)) := rfl
    rw [frame, units_append, units_data, hcons, ih, List.take_append_drop]

/-- A block closes a message for each length. -/
theorem length_deframe_frame (ls : List Nat) (p cur : List α) :
    (deframe cur (frame ls p)).1.length = ls.length := by
  induction ls generalizing p cur with
  | nil => simp [deframe_data]
  | cons l ls ih =>
    rw [frame, deframe_data_append, deframe, List.length_cons, ih, List.length_cons]

/-- What a block leaves open: all of it behind what was open before, or what is behind its last
length. -/
theorem length_open_frame (ls : List Nat) (p cur : List α) :
    (deframe cur (frame ls p)).2.length
      = if ls = [] then cur.length + p.length else p.length - ls.sum := by
  induction ls generalizing p cur with
  | nil => rw [frame_nil, deframe_data, List.length_append, if_pos rfl]
  | cons l ls ih =>
    rw [frame, deframe_data_append, deframe, if_neg (List.cons_ne_nil l ls), List.sum_cons]
    simp only [ih, List.length_nil, List.length_drop]
    split
    · rename_i hnil
      rw [hnil, List.sum_nil]
      omega
    · omega

/-- The first piece of a block, and those behind it. -/
theorem piecesWithin_frame_cons {n l : Nat} {ls : List Nat} {p cur : List α} :
    PiecesWithin n cur (frame (l :: ls) p)
      ↔ (cur ++ p.take l).length ≤ n ∧ PiecesWithin n [] (frame ls (p.drop l)) := by
  unfold PiecesWithin
  rw [frame, deframe_data_append, deframe, List.forall_mem_cons, and_assoc]

/-- A block with data behind its last length leaves a message open. -/
theorem deframe_frame_ne_nil (ls : List Nat) (p cur : List α) (h : ls.sum < p.length) :
    (deframe cur (frame ls p)).2 ≠ [] := by
  induction ls generalizing p cur with
  | nil =>
    rw [frame_nil, deframe_data]
    have hp : p ≠ [] := by
      rintro rfl
      simp at h
    simp [hp]
  | cons l ls ih =>
    rw [frame, deframe_data_append, deframe]
    apply ih
    simp only [List.sum_cons, List.length_drop] at h ⊢
    omega

/-- A further length indicator closes the data seen so far: appending the length of the
whole block `p` and then more data `q` puts one end mark between them. -/
theorem frame_append_length (ls : List Nat) (p q : List α) (h : ls.sum ≤ p.length) :
    frame (ls ++ [p.length - ls.sum]) (p ++ q) = frame ls p ++ none :: q.map some := by
  induction ls generalizing p with
  | nil => simp [frame]
  | cons l ls ih =>
    have hl : l ≤ p.length := by
      simp only [List.sum_cons] at h
      omega
    have hrest : ls.sum ≤ (p.drop l).length := by
      simp only [List.sum_cons, List.length_drop] at h ⊢
      omega
    have hlen : p.length - (l :: ls).sum = (p.drop l).length - ls.sum := by
      simp only [List.sum_cons, List.length_drop]
      omega
    rw [List.cons_append, frame, frame, hlen, List.take_append_of_le_length hl,
      List.drop_append_of_le_length hl, ih _ hrest]
    simp

/-- A block of whole messages, with the start of another one behind them. -/
theorem frame_flatten (ms : List (List α)) (d : List α) :
    frame (ms.map List.length) (ms.flatten ++ d) = marked ms ++ d.map some := by
  induction ms with
  | nil => simp
  | cons m ms ih =>
    rw [List.map_cons, frame, List.flatten_cons, List.append_assoc, List.take_left, List.drop_left,
      ih, marked_cons, List.append_assoc, List.cons_append]

/-- As many messages are closed as follow, the open one with the first of them. -/
theorem length_deframe_marked (cur : List α) (ms : List (List α)) :
    (deframe cur (marked ms)).1.length = ms.length := by
  cases ms with
  | nil => rfl
  | cons m ms => rw [deframe_marked_cons, List.length_cons, List.length_cons]

/-- More data at the end of a block stays in its open last piece. -/
theorem frame_append (ls : List Nat) (p q : List α) (h : ls.sum ≤ p.length) :
    frame ls (p ++ q) = frame ls p ++ q.map some := by
  induction ls generalizing p with
  | nil => simp
  | cons l ls ih =>
    have hl : l ≤ p.length := by
      simp only [List.sum_cons] at h
      omega
    have hrest : ls.sum ≤ (p.drop l).length := by
      simp only [List.sum_cons, List.length_drop] at h ⊢
      omega
    rw [frame, frame, List.take_append_of_le_length hl, List.drop_append_of_le_length hl,
      ih _ hrest]
    simp

end SrsUE.Lib
