import Mathlib.Tactic.Common

/-!
# `SrsUE.Lib.Run`: properties along a run

A machine takes a step for each action of a list, as long as its partial step function is
defined. `Along step R s as` says that every step of this run satisfies `R`. A property of
every state that is reached, and a condition that every step meets, are both of this form.

* `along_iff`: when `R` and `C` agree on every step from a state with the invariant, a run
  satisfies `R` exactly when it meets `C`.
* `Along.of_inv`: the same in one direction only.
* `Along.of_kind`: every run of actions of a kind satisfies `R`.
* `runTo_inv`: what every step preserves holds at the end of a run.
* `Along.last`: what holds of every state of a run holds of the state at its end.
* `throughout_iff`: `along_iff` for properties that also speak of a step that is not defined.
* `throughout_map`: such a property that depends on a part of the state only.

A machine may also give an output with each step. `trace` lists what such a machine shows in a run.
`trace_eq_of_refines` says that a machine that follows another one shows the same, and
`trace_eq_of_sim` that states that simulate each other cannot be told apart.
-/

set_option autoImplicit false

namespace SrsUE.Lib

variable {σ α : Type}

/-- Every step of the run from `s` along the actions satisfies `R`. -/
def Along (step : σ → α → Option σ) (R : σ → α → σ → Prop) : σ → List α → Prop
  | _, [] => True
  | s, a :: as => ∀ s', step s a = some s' → R s a s' ∧ Along step R s' as

/-- The state at the end of a run in which every step is defined. -/
def runTo (step : σ → α → Option σ) : σ → List α → Option σ
  | s, [] => some s
  | s, a :: as => (step s a).bind fun s' => runTo step s' as

variable {step : σ → α → Option σ} {R C : σ → α → σ → Prop} {I : σ → Prop}

/-- A run whose first step is defined. -/
theorem along_cons_iff {s s' : σ} {a : α} {as : List α} (h : step s a = some s') :
    Along step R s (a :: as) ↔ R s a s' ∧ Along step R s' as := by
  constructor
  · exact fun hall => hall s' h
  · intro hall s₁ hs₁
    obtain rfl := Option.some.inj (h.symm.trans hs₁)
    exact hall

/-- A run of actions of a kind satisfies `R` exactly when it meets `C`, if they agree on every
such step from a state with the invariant and such a step keeps it. -/
theorem along_iff {K : α → Prop}
    (hiff : ∀ s a s', I s → K a → step s a = some s' → (R s a s' ↔ C s a s'))
    (hinv : ∀ s a s', I s → K a → step s a = some s' → C s a s' → I s') {as : List α}
    (has : ∀ a ∈ as, K a) {s : σ} (hs : I s) : Along step R s as ↔ Along step C s as := by
  induction as generalizing s with
  | nil => exact Iff.rfl
  | cons a as ih =>
    have ha := has a (List.mem_cons_self ..)
    have has' : ∀ b ∈ as, K b := fun b hb => has b (List.mem_cons_of_mem _ hb)
    constructor
    · intro h s' hstep
      obtain ⟨hr, hrest⟩ := h s' hstep
      have hc := (hiff s a s' hs ha hstep).mp hr
      exact ⟨hc, (ih has' (hinv s a s' hs ha hstep hc)).mp hrest⟩
    · intro h s' hstep
      obtain ⟨hc, hrest⟩ := h s' hstep
      exact ⟨(hiff s a s' hs ha hstep).mpr hc, (ih has' (hinv s a s' hs ha hstep hc)).mpr hrest⟩

/-- A run whose steps meet `C` satisfies `R`, if such a step from a state with the invariant does
and keeps it. -/
theorem Along.of_inv (hstep : ∀ s a s', I s → step s a = some s' → C s a s' → R s a s' ∧ I s')
    {as : List α} {s : σ} (hs : I s) (h : Along step C s as) : Along step R s as := by
  induction as generalizing s with
  | nil => trivial
  | cons a as ih =>
    intro s' hs'
    obtain ⟨hc, hrest⟩ := h s' hs'
    obtain ⟨hr, hi⟩ := hstep s a s' hs hs' hc
    exact ⟨hr, ih hi hrest⟩

/-- A run of actions of a kind satisfies `R`, if every such step from a state with the invariant
does and keeps it. -/
theorem Along.of_kind {K : α → Prop}
    (hstep : ∀ s a s', I s → K a → step s a = some s' → R s a s' ∧ I s') {as : List α}
    (has : ∀ a ∈ as, K a) {s : σ} (hs : I s) : Along step R s as := by
  induction as generalizing s with
  | nil => trivial
  | cons a as ih =>
    intro s' hs'
    obtain ⟨hr, hi⟩ := hstep s a s' hs (has a (List.mem_cons_self ..)) hs'
    exact ⟨hr, ih (fun b hb => has b (List.mem_cons_of_mem _ hb)) hi⟩

instance Along.decidable [∀ s a s', Decidable (C s a s')] :
    ∀ (s : σ) (as : List α), Decidable (Along step C s as)
  | _, [] => isTrue trivial
  | s, a :: as =>
    match hs : step s a with
    | none => isTrue fun s' hs' => by rw [hs] at hs'; cases hs'
    | some s' =>
      have := Along.decidable s' as
      decidable_of_iff (C s a s' ∧ Along step C s' as)
        ⟨fun h s'' hs'' => by rw [hs] at hs''; cases hs''; exact h, fun h => h s' hs⟩

/-- What every action of a kind preserves holds at the end of a run of such actions. -/
theorem runTo_inv {K : α → Prop}
    (hstep : ∀ s a s', I s → K a → step s a = some s' → I s') {as : List α} {s s' : σ}
    (has : ∀ a ∈ as, K a) (hs : I s) (hrun : runTo step s as = some s') : I s' := by
  induction as generalizing s with
  | nil =>
    obtain rfl := Option.some.inj hrun
    exact hs
  | cons a as ih =>
    obtain ⟨s₁, hs₁, hrest⟩ := Option.bind_eq_some_iff.mp hrun
    exact ih (fun b hb => has b (List.mem_cons_of_mem _ hb))
      (hstep s a s₁ hs (has a (List.mem_cons_self ..)) hs₁) hrest

/-- Actions one after the other. -/
theorem runTo_append (s : σ) (as bs : List α) :
    runTo step s (as ++ bs) = (runTo step s as).bind fun s' => runTo step s' bs := by
  induction as generalizing s with
  | nil => rfl
  | cons a as ih =>
    rw [List.cons_append, runTo, runTo, Option.bind_assoc]
    simp only [ih]

/-- What holds of every state of a run holds of the last one. -/
theorem Along.last {P : σ → Prop} {as : List α} {s s' : σ}
    (h : Along step (fun _ _ s₁ => P s₁) s as) (hs : P s) (hrun : runTo step s as = some s') :
    P s' := by
  induction as generalizing s with
  | nil =>
    obtain rfl := Option.some.inj hrun
    exact hs
  | cons a as ih =>
    obtain ⟨s₁, hstep, hrest⟩ := Option.bind_eq_some_iff.mp hrun
    obtain ⟨hp, hrest'⟩ := h s₁ hstep
    exact ih hrest' hp hrest

/-! ### Steps that are not defined -/

/-- Every action of the run satisfies `P`, also one that the run ends with because its step is not
defined. -/
def Throughout (step : σ → α → Option σ) (P : σ → α → Prop) : σ → List α → Prop
  | _, [] => True
  | s, a :: as => P s a ∧ ∀ s', step s a = some s' → Throughout step P s' as

/-- Conditions that agree where an invariant holds agree throughout a run. -/
theorem throughout_iff {P Q : σ → α → Prop} (hiff : ∀ s a, I s → (P s a ↔ Q s a))
    (hinv : ∀ s a s', I s → Q s a → step s a = some s' → I s') (as : List α) {s : σ} (hs : I s) :
    Throughout step P s as ↔ Throughout step Q s as := by
  induction as generalizing s with
  | nil => exact Iff.rfl
  | cons a as ih =>
    rw [Throughout, Throughout, hiff s a hs]
    refine and_congr_right fun hq => forall_congr' fun s' => imp_congr_right fun hstep => ?_
    exact ih (hinv s a s' hs hq hstep)

/-- A run in two parts. -/
theorem throughout_append {P : σ → α → Prop} {s s' : σ} {as bs : List α}
    (hrun : runTo step s as = some s') :
    Throughout step P s (as ++ bs) ↔ Throughout step P s as ∧ Throughout step P s' bs := by
  induction as generalizing s with
  | nil =>
    obtain rfl := Option.some.inj hrun
    exact (and_iff_right trivial).symm
  | cons a as ih =>
    obtain ⟨s₁, hstep, hrest⟩ := Option.bind_eq_some_iff.mp hrun
    have hall : ∀ Q : σ → Prop, (∀ s₂, step s a = some s₂ → Q s₂) ↔ Q s₁ := fun Q =>
      ⟨fun h => h s₁ hstep, fun h s₂ hs₂ => by rwa [← Option.some.inj (hstep.symm.trans hs₂)]⟩
    rw [List.cons_append, Throughout, Throughout, hall, hall, ih hrest, and_assoc]

/-- Every action satisfies `P` in the state that the run has reached before it. -/
theorem throughout_of_splits {P : σ → α → Prop} {s : σ} {as : List α}
    (h : ∀ pre a post s', as = pre ++ a :: post → runTo step s pre = some s' → P s' a) :
    Throughout step P s as := by
  induction as generalizing s with
  | nil => trivial
  | cons a as ih =>
    refine ⟨h [] a as s rfl rfl, fun s₁ hstep => ih fun pre b post s' heq hrun => ?_⟩
    refine h (a :: pre) b post s' (by rw [heq]; rfl) ?_
    rw [runTo, hstep]
    exact hrun

/-- Every action of a run of actions of a kind satisfies `P`, if such an action does in a state with
the invariant and keeps it. -/
theorem Throughout.of_kind {P : σ → α → Prop} {K : α → Prop} (hp : ∀ s a, I s → K a → P s a)
    (hinv : ∀ s a s', I s → K a → step s a = some s' → I s') {as : List α} (has : ∀ a ∈ as, K a)
    {s : σ}
    (hs : I s) : Throughout step P s as := by
  induction as generalizing s with
  | nil => trivial
  | cons a as ih =>
    have ha := has a (List.mem_cons_self ..)
    exact ⟨hp s a hs ha, fun s' hstep =>
      ih (fun b hb => has b (List.mem_cons_of_mem _ hb)) (hinv s a s' hs ha hstep)⟩

/-- A condition on a part of the state holds throughout a run exactly when it does in the run of
that part alone, if a step that meets it takes the part where it goes alone. -/
theorem throughout_map {τ : Type} {f : σ → τ} {next : τ → α → Option τ} {Q : τ → α → Prop}
    (hmap : ∀ s a, I s → Q (f s) a → (step s a).map f = next (f s) a)
    (hinv : ∀ s a s', I s → Q (f s) a → step s a = some s' → I s') (as : List α) {s : σ}
    (hs : I s) :
    Throughout step (fun s a => Q (f s) a) s as ↔ Throughout next Q (f s) as := by
  induction as generalizing s with
  | nil => exact Iff.rfl
  | cons a as ih =>
    rw [Throughout, Throughout]
    refine and_congr_right fun hq => ?_
    rw [← hmap s a hs hq]
    constructor
    · intro h t ht
      obtain ⟨s', hstep, rfl⟩ := Option.map_eq_some_iff.mp ht
      exact (ih (hinv s a s' hs hq hstep)).mp (h s' hstep)
    · intro h s' hstep
      exact (ih (hinv s a s' hs hq hstep)).mpr
        (h (f s') (Option.map_eq_some_iff.mpr ⟨s', hstep, rfl⟩))

/-! ### Outputs -/

/-- Two conditionals whose conditions agree are related when their branches are. -/
theorem ite_rel {α β : Type} {R : α → β → Prop} {c d : Prop} [Decidable c] [Decidable d]
    {a a' : α} {b b' : β} (hcd : c ↔ d) (hpos : c → R a b) (hneg : ¬c → R a' b') :
    R (if c then a else a') (if d then b else b') := by
  by_cases hc : c
  · rw [if_pos hc, if_pos (hcd.mp hc)]
    exact hpos hc
  · rw [if_neg hc, if_neg (fun hd => hc (hcd.mpr hd))]
    exact hneg hc

/-- Results that are related are related more weakly. -/
theorem optionRel_imp {α β : Type} {R S : α → β → Prop} (himp : ∀ a b, R a b → S a b) {x : Option α}
    {y : Option β} (hxy : Option.Rel R x y) : Option.Rel S x y := by
  cases hxy with
  | none => exact .none
  | some hr => exact .some (himp _ _ hr)

/-- Functions that respect the relations map related results to related ones. -/
theorem optionRel_map {α β α' β' : Type} {R : α → β → Prop} {S : α' → β' → Prop} {g : α → α'}
    {k : β → β'} (hmap : ∀ a b, R a b → S (g a) (k b)) {x : Option α} {y : Option β}
    (hxy : Option.Rel R x y) : Option.Rel S (x.map g) (y.map k) := by
  cases hxy with
  | none => exact .none
  | some hr => exact .some (hmap _ _ hr)

/-- So do further steps. -/
theorem optionRel_bind {α β α' β' : Type} {R : α → β → Prop} {S : α' → β' → Prop}
    {g : α → Option α'}
    {k : β → Option β'} (hbind : ∀ a b, R a b → Option.Rel S (g a) (k b)) {x : Option α}
    {y : Option β}
    (hxy : Option.Rel R x y) : Option.Rel S (x.bind g) (y.bind k) := by
  cases hxy with
  | none => exact .none
  | some hr => exact hbind _ _ hr

/-- What is the same on both sides is related to itself. -/
theorem optionRel_eq {α : Type} (x : Option α) : Option.Rel Eq x x := by
  cases x with
  | none => exact .none
  | some a => exact .some rfl

section
variable {ο : Type} {emit : σ → α → Option (σ × ο)}

/-- The outputs along the actions. The run ends with `none` at a step that is not defined. -/
def trace (emit : σ → α → Option (σ × ο)) : σ → List α → List (Option ο)
  | _, [] => []
  | s, a :: as =>
    match emit s a with
    | none => [none]
    | some (s', o) => some o :: trace emit s' as

/-- A step in front of a trace. -/
theorem trace_cons {s s' : σ} {a : α} {o : ο} (h : emit s a = some (s', o)) (as : List α) :
    trace emit s (a :: as) = some o :: trace emit s' as := by
  rw [trace, h]

/-- The first output of a run. -/
theorem head?_trace (s : σ) (a : α) (as : List α) :
    (trace emit s (a :: as)).head? = some ((emit s a).map Prod.snd) := by
  rw [trace]
  split
  · rename_i h
    rw [h]
    rfl
  · rename_i h
    rw [h]
    rfl

/-- A machine that follows another one, with equal outputs for each action that satisfies `K`, has
the same trace as long as the actions do. -/
theorem trace_eq_of_refines {τ : Type} {emit' : τ → α → Option (τ × ο)} {R : σ → τ → Prop}
    {K : τ → α → Prop}
    (hsim : ∀ s t a, R s t → K t a →
      Option.Rel (fun x y => R x.1 y.1 ∧ x.2 = y.2) (emit s a) (emit' t a))
    {as : List α} {s : σ} {t : τ} (hst : R s t)
    (has : Throughout (fun t a => (emit' t a).map Prod.fst) K t as) :
    trace emit s as = trace emit' t as := by
  induction as generalizing s t with
  | nil => rfl
  | cons a as ih =>
    obtain ⟨ha, hrest⟩ := has
    have hnext : ∀ y, emit' t a = some y →
        Throughout (fun t a => (emit' t a).map Prod.fst) K y.1 as :=
      fun y hy => hrest y.1 (congrArg (Option.map Prod.fst) hy)
    have hrel := hsim s t a hst ha
    rw [trace, trace]
    generalize emit s a = x at hrel
    generalize emit' t a = y at hrel hnext
    cases hrel with
    | none => rfl
    | some h =>
      obtain ⟨hr, ho⟩ := h
      simp only [ho, ih hr (hnext _ rfl)]

/-- States that every action of a kind leads to related states with equal outputs have equal
traces along such actions. -/
theorem trace_eq_of_sim {R : σ → σ → Prop} {K : α → Prop}
    (hsim : ∀ s t a, R s t → K a →
      Option.Rel (fun x y => R x.1 y.1 ∧ x.2 = y.2) (emit s a) (emit t a))
    {as : List α} (has : ∀ a ∈ as, K a) {s t : σ} (hst : R s t) :
    trace emit s as = trace emit t as :=
  trace_eq_of_refines (K := fun _ a => K a) hsim hst
    (Throughout.of_kind (I := fun _ => True) (fun _ _ _ ha => ha) (fun _ _ _ _ _ _ => trivial)
      has trivial)

end

end SrsUE.Lib
