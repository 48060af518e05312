import SrsUE.Lib.Run
import SrsUE.Upper.RadioLink

/-!
# `SrsUE.Proofs.Upper.SyncCount`: what N310 and N311 count

`out_of_sync` starts T310 when it has counted N310 indications, and `in_sync` stops it after N311.
Neither counter is reset by an indication that it does not count, so the indications need not be
consecutive: an in-sync in the middle, or an out-of-sync while a timer runs, goes unnoticed.

`Uninterrupted` says that an indication only comes while a counter that does not count it is at
zero. `Counted` is the invariant of such runs: each counter is a number of last indications that it
counted. `along_consecutive` states the result for a run, and `not_along_consecutive` is a run in
which T310 starts after two out-of-sync indications with an in-sync between them.
-/

set_option autoImplicit false

namespace SrsUE.Upper

open SrsUE.Lib SrsUE.Rlc

/-- The last `n` elements of a list, which has the last one first, exist and all satisfy `P`. -/
def LastAll {α : Type} (P : α → Prop) (n : Nat) (l : List α) : Prop :=
  n ≤ l.length ∧ ∀ x ∈ l.take n, P x

instance {α : Type} (P : α → Prop) [DecidablePred P] (n : Nat) (l : List α) :
    Decidable (LastAll P n l) := inferInstanceAs (Decidable (_ ∧ _))

section
variable {α : Type} {P : α → Prop} {n m : Nat} {l : List α}

/-- The last zero elements have any property. -/
theorem LastAll.zero (l : List α) : LastAll P 0 l := ⟨Nat.zero_le _, by simp⟩

/-- One more element with it. -/
theorem LastAll.cons {x : α} (hx : P x) (h : LastAll P n l) : LastAll P (n + 1) (x :: l) := by
  refine ⟨Nat.succ_le_succ h.1, fun y hy => ?_⟩
  rw [List.take_succ_cons] at hy
  obtain rfl | hmem := List.mem_cons.mp hy
  · exact hx
  · exact h.2 y hmem

/-- Fewer of the last elements have it too. -/
theorem LastAll.mono (h : LastAll P n l) (hle : m ≤ n) : LastAll P m l :=
  ⟨hle.trans h.1, fun x hx => h.2 x (List.take_subset_take_left l hle hx)⟩

end

/-- The indication counts towards N310: out-of-sync, with neither T310 nor T311 running. -/
def Indication.ForN310 (i : Indication) : Prop :=
  i.sync = .outOfSync ∧ i.t310Running = false ∧ i.t311Running = false

/-- The indication counts towards N311: in-sync, with T310 running. -/
def Indication.ForN311 (i : Indication) : Prop := i.sync = .inSync ∧ i.t310Running = true

instance : DecidablePred Indication.ForN310 := fun _ => inferInstanceAs (Decidable (_ ∧ _))

instance : DecidablePred Indication.ForN311 := fun _ => inferInstanceAs (Decidable (_ ∧ _))

namespace RadioLink

variable {s s' : RadioLink}

/-- Each step is defined. -/
def next (s : RadioLink) (a : LinkAction) : Option RadioLink := some (s.act a).1

/-- T310 is started only after N310 consecutive indications that count towards N310, and stopped by
an indication only after N311 that count towards N311. -/
def Consecutive (s : RadioLink) (a : LinkAction) (s' : RadioLink) : Prop :=
  (s.act a).2 = true →
    (a = .indication .outOfSync → LastAll Indication.ForN310 s.n310 s'.received) ∧
    (a = .indication .inSync → LastAll Indication.ForN311 s.n311 s'.received)

/-- An indication that a counter does not count only comes while that counter is at zero. -/
def Uninterrupted (s : RadioLink) : LinkAction → Prop
  | .indication .inSync => s.n310Cnt = 0 ∧ (s.t310.isRunning = false → s.n311Cnt = 0)
  | .indication .outOfSync =>
    s.n311Cnt = 0 ∧ ((s.t310.isRunning = true ∨ s.t311.isRunning = true) → s.n310Cnt = 0)
  | _ => True

/-- Each counter is a number of last indications that it counted. -/
structure Counted (s : RadioLink) : Prop where
  n310 : LastAll Indication.ForN310 s.n310Cnt s.received
  n311 : LastAll Indication.ForN311 s.n311Cnt s.received

/-- A 32-bit counter grows by at most one. -/
theorem add32_le (n : Nat) : add32 n 1 ≤ n + 1 := Nat.mod_le _ _

/-- An out-of-sync indication is counted, and the timer starts only after `n310` of them. -/
theorem Counted.outOfSync (h : s.Counted) (hu : s.Uninterrupted (.indication .outOfSync)) :
    s.outOfSync.1.Counted ∧
      (s.outOfSync.2 = true → LastAll Indication.ForN310 s.n310 s.outOfSync.1.received) := by
  obtain ⟨hzero, hidle⟩ := hu
  have h311 : ∀ l, LastAll Indication.ForN311 s.n311Cnt l := fun l => hzero ▸ LastAll.zero l
  simp only [RadioLink.outOfSync]
  split
  -- Neither timer runs: the indication is counted, and may be the one that reaches N310.
  · rename_i hcount
    rw [Bool.and_eq_true, Bool.not_eq_true', Bool.not_eq_true'] at hcount
    have hnew : LastAll Indication.ForN310 (add32 s.n310Cnt 1) (s.receive .outOfSync).received :=
      (h.n310.cons ⟨rfl, hcount.2, hcount.1⟩).mono (add32_le _)
    split
    · rename_i hn
      exact ⟨⟨LastAll.zero _, h311 _⟩, fun _ => hn ▸ hnew⟩
    · exact ⟨⟨hnew, h311 _⟩, fun hf => absurd hf Bool.false_ne_true⟩
  -- It is not counted, and the source leaves the counter as it is. So it has to be at zero.
  · rename_i hcount
    have hrun : s.t310.isRunning = true ∨ s.t311.isRunning = true := by
      simp only [Bool.and_eq_true, Bool.not_eq_true', not_and, Bool.not_eq_false] at hcount
      cases h311 : s.t311.isRunning with
      | true => exact .inr rfl
      | false => exact .inl (hcount h311)
    have h310 : ∀ l, LastAll Indication.ForN310 s.n310Cnt l := fun l => hidle hrun ▸ LastAll.zero l
    exact ⟨⟨h310 _, h311 _⟩, fun hf => absurd hf Bool.false_ne_true⟩

/-- An in-sync indication is counted, and the timer stops only after `n311` of them. -/
theorem Counted.inSync (h : s.Counted) (hu : s.Uninterrupted (.indication .inSync)) :
    s.inSync.1.Counted ∧
      (s.inSync.2 = true → LastAll Indication.ForN311 s.n311 s.inSync.1.received) := by
  obtain ⟨hzero, hidle⟩ := hu
  have h310 : ∀ l, LastAll Indication.ForN310 s.n310Cnt l := fun l => hzero ▸ LastAll.zero l
  simp only [RadioLink.inSync]
  split
  -- T310 runs: the indication is counted, and may be the one that reaches N311.
  · rename_i hrun
    have hnew : LastAll Indication.ForN311 (add32 s.n311Cnt 1) (s.receive .inSync).received :=
      (h.n311.cons ⟨rfl, hrun⟩).mono (add32_le _)
    split
    · rename_i hn
      exact ⟨⟨h310 _, LastAll.zero _⟩, fun _ => hn ▸ hnew⟩
    · exact ⟨⟨h310 _, hnew⟩, fun hf => absurd hf Bool.false_ne_true⟩
  · rename_i hrun
    have h311 : ∀ l, LastAll Indication.ForN311 s.n311Cnt l := fun l =>
      hidle (Bool.eq_false_iff.mpr hrun) ▸ LastAll.zero l
    exact ⟨⟨h310 _, h311 _⟩, fun hf => absurd hf Bool.false_ne_true⟩

/-- An uninterrupted step keeps the invariant, and counts consecutive indications. -/
theorem Counted.act (h : s.Counted) {a : LinkAction} (hu : s.Uninterrupted a) :
    s.Consecutive a (s.act a).1 ∧ (s.act a).1.Counted := by
  cases a with
  | indication sync =>
    cases sync with
    | outOfSync =>
      obtain ⟨hc, hlast⟩ := h.outOfSync hu
      exact ⟨fun hstart => ⟨fun _ => hlast hstart, fun ha => by cases ha⟩, hc⟩
    | inSync =>
      obtain ⟨hc, hlast⟩ := h.inSync hu
      exact ⟨fun hstop => ⟨fun ha => (by cases ha), fun _ => hlast hstop⟩, hc⟩
  | tick t =>
    refine ⟨fun hf => absurd hf Bool.false_ne_true, ?_⟩
    cases t <;> exact ⟨h.n310, h.n311⟩
  | _ => exact ⟨fun hf => absurd hf Bool.false_ne_true, ⟨h.n310, h.n311⟩⟩

/-- **When the indications are consecutive.** Let a run start with both counters at zero, and let an
indication only come while a counter that does not count it is at zero. Then T310 is only started
and stopped by consecutive indications. -/
theorem along_consecutive (s : RadioLink) (h310 : s.n310Cnt = 0) (h311 : s.n311Cnt = 0)
    {as : List LinkAction} (h : Along next (fun s a _ => s.Uninterrupted a) s as) :
    Along next Consecutive s as := by
  refine h.of_inv (I := Counted) (fun s a s' hs hstep hu => ?_)
    ⟨h310 ▸ LastAll.zero _, h311 ▸ LastAll.zero _⟩
  obtain rfl := Option.some.inj hstep
  exact hs.act hu

instance (s : RadioLink) (a : LinkAction) : Decidable (s.Uninterrupted a) :=
  match a with
  | .indication .inSync | .indication .outOfSync => inferInstanceAs (Decidable (_ ∧ _))
  | .tick _ | .applySib2Configs .. | .macReset | .restablishStart | .restablishEnd
  | .handleConReest | .rrcConnectionRelease => isTrue trivial

instance (s : RadioLink) (a : LinkAction) (s' : RadioLink) : Decidable (s.Consecutive a s') :=
  inferInstanceAs (Decidable (_ → _ ∧ _))

/-- Two out-of-sync indications start T310, and two in-sync indications stop it. -/
theorem along_consecutive_two :
    Along next Consecutive { n310Cnt := 0, n311Cnt := 0, n310 := 2, n311 := 2 }
      [.indication .outOfSync, .indication .outOfSync, .tick .t310, .indication .inSync,
        .indication .inSync] :=
  along_consecutive _ rfl rfl (by decide)

/-- With N310 at two, an out-of-sync, an in-sync and an out-of-sync start T310. -/
theorem not_along_consecutive :
    ¬Along next Consecutive { n310Cnt := 0, n311Cnt := 0 }
      [.applySib2Configs 1000 1000 1000 2 1, .indication .outOfSync, .indication .inSync,
        .indication .outOfSync] := by
  decide

end RadioLink

end SrsUE.Upper
