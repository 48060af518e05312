import Mathlib.Tactic.Common

/-!
# `SrsUE.Lib.Dict`: lookup tables

A table from keys to values, seen through its lookup function: `none` is an absent key.
Insertion replaces the value at its key, and erasure removes it. A proof about a table is a
case split on the key, by the two `apply` lemmas. `values` lists what a table with keys below a
bound holds, and the two `perm` lemmas say how it changes.
-/

set_option autoImplicit false

namespace SrsUE.Lib

/-- A table from `κ` to `β`. -/
abbrev Dict (κ β : Type) := κ → Option β

namespace Dict

variable {κ β : Type} [DecidableEq κ]

/-- The table without entries. -/
def empty : Dict κ β := fun _ => none

/-- The table with `v` at `k`, whatever was there. -/
def insert (d : Dict κ β) (k : κ) (v : β) : Dict κ β := fun k' => if k' = k then some v else d k'

/-- The table without an entry at `k`. -/
def erase (d : Dict κ β) (k : κ) : Dict κ β := fun k' => if k' = k then none else d k'

omit [DecidableEq κ] in
/-- The empty table has nothing. -/
@[simp] theorem empty_apply (k : κ) : (empty : Dict κ β) k = none := rfl

/-- Where the new table differs. -/
theorem insert_apply (d : Dict κ β) (k k' : κ) (v : β) :
    d.insert k v k' = if k' = k then some v else d k' := rfl

/-- Where the table with an entry less differs. -/
theorem erase_apply (d : Dict κ β) (k k' : κ) :
    d.erase k k' = if k' = k then none else d k' := rfl

/-- The new entry is there. -/
@[simp] theorem insert_self (d : Dict κ β) (k : κ) (v : β) : d.insert k v k = some v :=
  if_pos rfl

/-- The erased entry is not. -/
@[simp] theorem erase_self (d : Dict κ β) (k : κ) : d.erase k k = none := if_pos rfl

/-- Other entries stay. -/
theorem insert_of_ne (d : Dict κ β) {k k' : κ} (v : β) (h : k' ≠ k) : d.insert k v k' = d k' :=
  if_neg h

/-- Replacing a value keeps the keys. -/
theorem isSome_insert {d : Dict κ β} {k : κ} (hk : (d k).isSome) (v : β) (k' : κ) :
    (d.insert k v k').isSome = (d k').isSome := by
  rw [insert_apply]
  split
  · rename_i heq
    rw [heq, hk]
    rfl
  · rfl

/-- Other entries stay. -/
theorem erase_of_ne (d : Dict κ β) {k k' : κ} (h : k' ≠ k) : d.erase k k' = d k' := if_neg h

/-! ### Tables with a bounded range of keys -/

section
variable {n k : Nat} {d d' : Dict Nat β}

/-- The values at the keys below `n`, in the order of the keys. -/
def values (d : Dict Nat β) (n : Nat) : List β := (List.range n).filterMap d

/-- The values up to the next key. -/
theorem values_succ (d : Dict Nat β) (n : Nat) :
    d.values (n + 1) = d.values n ++ (d n).toList := by
  rw [values, List.range_succ, List.filterMap_append]
  rfl

/-- The values depend on the entries below the bound only. -/
theorem values_congr (h : ∀ k < n, d k = d' k) : d.values n = d'.values n := by
  induction n with
  | zero => rfl
  | succ n ih =>
    rw [values_succ, values_succ, ih fun k hk => h k (by omega), h n (Nat.lt_succ_self n)]

/-- The empty table has no values. -/
@[simp] theorem values_empty (n : Nat) : (empty : Dict Nat β).values n = [] := by
  induction n with
  | zero => rfl
  | succ n ih => rw [values_succ, ih]; rfl

/-- Erasing a key takes its value out of the values. -/
theorem values_erase_perm (d : Dict Nat β) (hk : k < n) :
    ((d k).toList ++ (d.erase k).values n).Perm (d.values n) := by
  induction n with
  | zero => omega
  | succ n ih =>
    rw [values_succ, values_succ]
    by_cases hkn : k = n
    · subst hkn
      have hrest : (d.erase k).values k = d.values k :=
        values_congr fun j hj => erase_of_ne d (by omega)
      rw [hrest, erase_self, Option.toList_none, List.append_nil]
      exact List.perm_append_comm
    · rw [erase_of_ne d (fun h => hkn h.symm), ← List.append_assoc]
      exact (ih (by omega)).append_right _

/-- Insertion replaces the value at its key. -/
theorem values_insert_perm (d : Dict Nat β) (hk : k < n) (v : β) :
    ((d k).toList ++ (d.insert k v).values n).Perm (v :: d.values n) := by
  have herase : (d.insert k v).erase k = d.erase k := by
    funext j
    by_cases hj : j = k
    · rw [hj, erase_self, erase_self]
    · rw [erase_of_ne _ hj, erase_of_ne _ hj, insert_of_ne _ _ hj]
  have hins := values_erase_perm (d.insert k v) hk
  rw [insert_self, herase, Option.toList_some] at hins
  have hdel := (values_erase_perm d hk).cons v
  refine (hins.symm.append_left _).trans (List.Perm.trans ?_ hdel)
  exact List.perm_middle

end

end Dict

end SrsUE.Lib
