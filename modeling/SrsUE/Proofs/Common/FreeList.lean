import SrsUE.Common.BufferPool
import SrsUE.Lib.Linked

/-!
# `SrsUE.Proofs.Common.FreeList`: the free buffers of the pool

The free buffers are linked through `next`, and `first_available` is the first of them. An allocated
buffer keeps the successor it had.

* `PoolInv`: the free list and the buffers that are out make up the pool. `PoolInv.step` is one
  step.
* `freeList_partition`: what this says about every state that is reached, and about the next
  `allocate`.
-/

set_option autoImplicit false

namespace SrsUE.Proofs.Common

open SrsUE.Common SrsUE.Lib
open SrsUE.Rlc (bufferHeaderOffset)

/-- The successor of each buffer. -/
def nextOf (p : BufferPool) (b : Fin poolSize) : Option (Fin poolSize) := (p.pool b).next

/-- The buffer is as its constructor and `reset` leave it, as far as it goes for data. -/
def Blank (b : ByteBuffer) : Prop := b.nBytes = 0 ∧ b.msg = bufferHeaderOffset

/-- The free list and the buffers that are out contain each buffer of the pool once. -/
structure PoolInv (s : PoolState) (free : List (Fin poolSize)) : Prop where
  linked : LinkedFrom (nextOf s.pool) s.pool.firstAvailable free
  all : (free ++ s.outstanding).Perm (List.finRange poolSize)
  blank : ∀ b ∈ free, Blank (s.pool.pool b)
  allocated : s.pool.allocated = s.outstanding.length

/-! ### The constructor -/

/-- Each buffer of a new pool is linked to the next one. -/
theorem nextOf_constructed (b : Fin poolSize) : nextOf .constructed b =
    if h : b.val + 1 < poolSize then some ⟨b.val + 1, h⟩ else none := rfl

/-- The buffers from one index on. -/
theorem linked_constructed (n : Nat) : ∀ i, n + i = poolSize →
    LinkedFrom (nextOf .constructed) (if h : i < poolSize then some ⟨i, h⟩ else none)
      ((List.finRange poolSize).drop i) := by
  -- By induction on how many buffers there are from `i` on.
  induction n with
  | zero =>
    intro i hi
    rw [dif_neg (by omega), List.drop_of_length_le (by rw [List.length_finRange]; omega)]
    rfl
  | succ n ih =>
    intro i hi
    have hlt : i < poolSize := by omega
    have hlen : i < (List.finRange poolSize).length := by
      rw [List.length_finRange]
      exact hlt
    have hget : (List.finRange poolSize)[i] = ⟨i, hlt⟩ := List.getElem_finRange hlen
    rw [dif_pos hlt, List.drop_eq_getElem_cons hlen, hget]
    refine ⟨rfl, ?_⟩
    rw [nextOf_constructed]
    exact ih (i + 1) (by omega)

/-- In a new pool all buffers are free. -/
theorem poolInv_constructed : PoolInv {} (List.finRange poolSize) where
  linked := by
    have hlinked := linked_constructed poolSize 0 (Nat.add_zero _)
    rw [dif_pos poolSize_pos, List.drop_zero] at hlinked
    exact hlinked
  all := by rw [List.append_nil]
  blank _ _ := ⟨rfl, rfl⟩
  allocated := rfl

/-! ### Steps -/

section
variable {s s' : PoolState} {free : List (Fin poolSize)} {b : Fin poolSize}

/-- No buffer is free and outstanding. -/
theorem PoolInv.nodup (h : PoolInv s free) : (free ++ s.outstanding).Nodup :=
  h.all.nodup_iff.mpr (List.nodup_finRange poolSize)

/-- So a buffer that is outstanding is not free. -/
theorem PoolInv.not_mem_free (h : PoolInv s free) (hb : b ∈ s.outstanding) : b ∉ free :=
  fun hfree =>
  List.disjoint_of_nodup_append h.nodup hfree hb

/-- What `allocate` returns: the first free buffer. -/
theorem PoolInv.allocate_cases (h : PoolInv s free) :
    (free = [] ∧ s.pool.allocate = (none, s.pool)) ∨
      ∃ b rest, free = b :: rest ∧ LinkedFrom (nextOf s.pool) (nextOf s.pool b) rest ∧
        s.pool.allocate = (some b, { s.pool with
          firstAvailable := nextOf s.pool b, allocated := s.pool.allocated + 1 }) := by
  have hlinked := h.linked
  cases hfirst : s.pool.firstAvailable with
  | none =>
    rw [hfirst] at hlinked
    refine .inl ⟨LinkedFrom.none_iff.mp hlinked, ?_⟩
    rw [BufferPool.allocate, hfirst]
  | some b =>
    rw [hfirst] at hlinked
    obtain ⟨rest, hfree, hrest⟩ := hlinked.pop
    refine .inr ⟨b, rest, hfree, hrest, ?_⟩
    rw [BufferPool.allocate, hfirst]
    rfl

/-- `allocate` takes the first free buffer. -/
theorem PoolInv.allocate (h : PoolInv s free) : ∃ free', PoolInv
    { pool := s.pool.allocate.2,
      outstanding := s.pool.allocate.1.toList ++ s.outstanding } free' := by
  rcases h.allocate_cases with ⟨-, heq⟩ | ⟨b, rest, rfl, hrest, heq⟩
  · rw [heq]
    exact ⟨free, h⟩
  · rw [heq]
    refine ⟨rest, { linked := hrest, all := ?_, blank := ?_, allocated := ?_ }⟩
    · exact List.perm_middle.trans h.all
    · exact (List.forall_mem_cons.mp h.blank).2
    · show s.pool.allocated + 1 = ((b :: s.outstanding).length : Int)
      rw [h.allocated, List.length_cons]
      omega

/-- `deallocate` puts a buffer in front. -/
theorem PoolInv.deallocate (h : PoolInv s free) (hb : b ∈ s.outstanding) :
    PoolInv { pool := s.pool.deallocate b, outstanding := s.outstanding.erase b } (b :: free) := by
  have hnot := h.not_mem_free hb
  -- Only the buffer that comes back gets another successor.
  have hnext : nextOf (s.pool.deallocate b)
      = Function.update (nextOf s.pool) b s.pool.firstAvailable := by
    funext c
    by_cases hc : c = b
    · rw [hc, nextOf, BufferPool.pool_deallocate_self, Function.update_self]
      rfl
    · rw [nextOf, BufferPool.pool_deallocate_of_ne _ hc, Function.update_of_ne hc]
      rfl
  refine { linked := ?_, all := ?_, blank := ?_, allocated := ?_ }
  · rw [hnext]
    exact h.linked.push hnot
  · exact (List.perm_middle.symm.trans ((List.perm_cons_erase hb).symm.append_left free)).trans
      h.all
  · refine List.forall_mem_cons.mpr ⟨?_, fun c hc => ?_⟩
    · rw [BufferPool.pool_deallocate_self]
      exact ⟨rfl, rfl⟩
    · rw [BufferPool.pool_deallocate_of_ne _ (ne_of_mem_of_not_mem hc hnot)]
      exact h.blank c hc
  · show s.pool.allocated - 1 = ((s.outstanding.erase b).length : Int)
    have hpos := List.length_pos_of_mem hb
    rw [h.allocated, List.length_erase_of_mem hb]
    omega

/-- The user of a buffer cannot reach the free ones. -/
theorem PoolInv.write (h : PoolInv s free) (hb : b ∈ s.outstanding) (fields : BufferFields) :
    PoolInv { s with pool := s.pool.write b fields } free := by
  have hnot := h.not_mem_free hb
  have hother : ∀ c ∈ free, (s.pool.write b fields).pool c = s.pool.pool c := fun c hc =>
    Function.update_of_ne (ne_of_mem_of_not_mem hc hnot) _ _
  refine { linked := ?_, all := h.all, blank := fun c hc => ?_, allocated := h.allocated }
  · exact h.linked.congr fun c hc => congrArg ByteBuffer.next (hother c hc)
  · rw [hother c hc]
    exact h.blank c hc

/-- Each call keeps the free list. -/
theorem PoolInv.step (h : PoolInv s free) {a : PoolAction} (hstep : s.step a = some s') :
    ∃ free', PoolInv s' free' := by
  cases a with
  | allocate =>
    obtain rfl := Option.some.inj hstep
    exact h.allocate
  | deallocate b =>
    rw [PoolState.step] at hstep
    split at hstep
    · rename_i hb
      obtain rfl := Option.some.inj hstep
      exact ⟨_, h.deallocate hb⟩
    · cases hstep
  | write b fields =>
    rw [PoolState.step] at hstep
    split at hstep
    · rename_i hb
      obtain rfl := Option.some.inj hstep
      exact ⟨_, h.write hb fields⟩
    · cases hstep

/-- It is kept in every run. Induction on the calls. -/
theorem PoolInv.reached {as : List PoolAction} (hrun : runTo PoolState.step {} as = some s) :
    ∃ free, PoolInv s free :=
  runTo_inv (K := fun _ => True) (I := fun s => ∃ free, PoolInv s free)
    (fun _ _ _ hinv _ hstep => hinv.elim fun _ h => h.step hstep) (fun _ _ => trivial)
    ⟨_, poolInv_constructed⟩ hrun

/-- Free and outstanding buffers are all of them. -/
theorem PoolInv.length (h : PoolInv s free) : free.length + s.outstanding.length = poolSize := by
  rw [← List.length_append, h.all.length_eq, List.length_finRange]

end

/-! ### Results -/

/-- In every state that is reached: the free list, which is the only one there is, has no buffer
twice and none that is out, and with those that are out it has all; `allocated` counts those that
are out; `allocate` returns `NULL` exactly if all are out, and otherwise a buffer that was free and
is blank. -/
theorem freeList_partition {as : List PoolAction} {s : PoolState}
    (hrun : runTo PoolState.step {} as = some s) :
    (∃ free, (∀ xs, LinkedFrom (nextOf s.pool) s.pool.firstAvailable xs ↔ xs = free) ∧
        free.Nodup ∧ s.outstanding.Nodup ∧ free.Disjoint s.outstanding ∧
        (∀ b, b ∈ free ∨ b ∈ s.outstanding) ∧
        ∀ b, s.pool.allocate.1 = some b → b ∈ free) ∧
      s.pool.allocated = s.outstanding.length ∧
      (s.pool.allocate.1 = none ↔ ∀ b, b ∈ s.outstanding) ∧
      ∀ b, s.pool.allocate.1 = some b → Blank (s.pool.allocate.2.pool b) := by
  obtain ⟨free, h⟩ := PoolInv.reached hrun
  have hnodup := List.nodup_append.mp h.nodup
  have hall : ∀ b, b ∈ free ∨ b ∈ s.outstanding := fun b =>
    List.mem_append.mp (h.all.mem_iff.mpr (List.mem_finRange b))
  refine ⟨⟨free, fun xs => ⟨fun hxs => hxs.unique h.linked, fun hxs => hxs ▸ h.linked⟩, hnodup.1,
    hnodup.2.1, List.disjoint_of_nodup_append h.nodup, hall, ?_⟩, h.allocated, ?_, ?_⟩
  · rcases h.allocate_cases with ⟨-, heq⟩ | ⟨b, rest, rfl, -, heq⟩
    · rw [heq]
      exact fun c hc => absurd hc (by simp)
    · rw [heq]
      intro c hc
      rw [← Option.some.inj hc]
      exact List.mem_cons_self ..
  -- A buffer of the free list is not out, so all are out only if the list is empty.
  · rcases h.allocate_cases with ⟨rfl, heq⟩ | ⟨b, rest, rfl, -, heq⟩
    · rw [heq]
      exact iff_of_true rfl fun c => (hall c).resolve_left List.not_mem_nil
    · rw [heq]
      refine iff_of_false (Option.some_ne_none b) fun hout => ?_
      exact List.disjoint_of_nodup_append h.nodup (List.mem_cons_self ..) (hout b)
  · rcases h.allocate_cases with ⟨-, heq⟩ | ⟨b, rest, rfl, -, heq⟩
    · rw [heq]
      exact fun c hc => absurd hc (by simp)
    · rw [heq]
      intro c hc
      rw [← Option.some.inj hc]
      exact h.blank b (List.mem_cons_self ..)

/-- A buffer that was written to and given back is the next one, and blank again. -/
theorem freeList_partition_reused :
    ∃ s, runTo PoolState.step {} [.allocate, .write ⟨0, poolSize_pos⟩ { nBytes := 40, msg := 1000 },
        .deallocate ⟨0, poolSize_pos⟩] = some s ∧
      s.pool.allocate.1 = some ⟨0, poolSize_pos⟩ ∧
      Blank (s.pool.allocate.2.pool ⟨0, poolSize_pos⟩) ∧ s.pool.allocated = 0 := by
  refine ⟨_, rfl, rfl, ?_⟩
  obtain ⟨-, hallocated, -, hblank⟩ := freeList_partition (show runTo PoolState.step {} [.allocate,
    .write ⟨0, poolSize_pos⟩ { nBytes := 40, msg := 1000 }, .deallocate ⟨0, poolSize_pos⟩]
    = some _ from rfl)
  exact ⟨hblank _ rfl, hallocated⟩

end SrsUE.Proofs.Common
