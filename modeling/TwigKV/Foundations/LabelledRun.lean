import Mathlib.Logic.Relation
import Mathlib.Data.Nat.Notation

/-! # Executions of a partial labelled step function

A concurrent component is modelled by a state type `σ`, a label type `ℓ` (who moves, and what the
environment answers) and a partial step function `step : σ → ℓ → Option σ`, `none` where the label
is not enabled. An interleaving is a list of labels. This file gives

* **`runLabels`** — executing one interleaving, which a concrete run can evaluate;
* **`ReachableUnder step guard s₀`** — the states reached from `s₀` by steps that all meet `guard`,
  a condition on the label and on the state before the step; `Reachable` is the unguarded case;
* **`EveryStep step P`** — every step of an interleaving satisfies `P`, a property of the label and
  of the state before the step;
* the induction rules `ReachableUnder.invariant` and `EveryStep.imp`, used by every safety result of
  this development;
* **`good_iff_everyStep`** — the rule for exact conditions: a run ends well if and only if each of
  its steps meets the condition;
* the measure rules **`length_le_measure`** and **`exists_stuck`** — where every step lowers a
  measure, interleavings are at most as long as the measure of the state they start from and every
  run can be continued until no label is enabled. What those final states look like is then the
  whole question of liveness;
* **`stepOrPanic`** — the steps of a program that an enabled label without a next state stops. -/

namespace TwigKV

universe u v

variable {σ : Type u} {ℓ : Type v} {step : σ → ℓ → Option σ} {guard : σ → ℓ → Prop} {s₀ : σ}

/-- Execute an interleaving from `s`: `none` as soon as one of its labels is not enabled. -/
def runLabels (step : σ → ℓ → Option σ) : σ → List ℓ → Option σ
  | s, [] => some s
  | s, l :: ls => (step s l).bind fun s' => runLabels step s' ls

/-- The states reached from `s₀` by steps that all meet `guard`. -/
inductive ReachableUnder (step : σ → ℓ → Option σ) (guard : σ → ℓ → Prop) (s₀ : σ) : σ → Prop
  /-- The initial state is reached. -/
  | refl : ReachableUnder step guard s₀ s₀
  /-- An enabled step that meets the guard reaches its target. -/
  | tail {s s' : σ} {l : ℓ} (h : ReachableUnder step guard s₀ s) (hg : guard s l)
      (hs : step s l = some s') : ReachableUnder step guard s₀ s'

/-- The states reached from `s₀` by any interleaving. -/
abbrev Reachable (step : σ → ℓ → Option σ) (s₀ : σ) : σ → Prop :=
  ReachableUnder step (fun _ _ => True) s₀

/-- **The invariant rule.** A predicate that holds initially and is preserved by every guarded step
out of a reached state holds of every reached state. -/
theorem ReachableUnder.invariant {I : σ → Prop} (h0 : I s₀)
    (hstep : ∀ s l s', ReachableUnder step guard s₀ s → I s → guard s l → step s l = some s' → I s')
    {s : σ} (h : ReachableUnder step guard s₀ s) : I s := by
  induction h with
  | refl => exact h0
  | tail h hg hs ih => exact hstep _ _ _ h ih hg hs

/-- A run whose enabled steps all meet a second guard is a run under that guard. -/
theorem ReachableUnder.strengthen {guard' : σ → ℓ → Prop}
    (hgg : ∀ s l s', ReachableUnder step guard s₀ s → step s l = some s' → guard' s l) {s : σ}
    (h : ReachableUnder step guard s₀ s) : ReachableUnder step guard' s₀ s := by
  induction h with
  | refl => exact .refl
  | tail h _ hs ih => exact .tail ih (hgg _ _ _ h hs) hs

/-- Executing an interleaving from a reached state ends in a reached state. -/
theorem Reachable.runLabels {s s' : σ} (h : Reachable step s₀ s) (ls : List ℓ)
    (hr : runLabels step s ls = some s') : Reachable step s₀ s' := by
  induction ls generalizing s with
  | nil =>
      rw [TwigKV.runLabels, Option.some.injEq] at hr
      exact hr ▸ h
  | cons l ls ih =>
      rw [TwigKV.runLabels, Option.bind_eq_some_iff] at hr
      obtain ⟨t, ht, hr⟩ := hr
      exact ih (h.tail trivial ht) hr

/-- Every interleaving that can be executed from `s₀` ends in a reached state. -/
theorem reachable_of_runLabels {s' : σ} (ls : List ℓ) (hr : runLabels step s₀ ls = some s') :
    Reachable step s₀ s' :=
  Reachable.runLabels .refl ls hr

/-! ## Properties of the steps of a run -/

/-- Every step of an interleaving, as far as it can be executed, satisfies `P`. -/
def EveryStep (step : σ → ℓ → Option σ) (P : σ → ℓ → Prop) : σ → List ℓ → Prop
  | _, [] => True
  | s, l :: ls => P s l ∧
      match step s l with
      | some s' => EveryStep step P s' ls
      | none => True

/-- Whether every step of a concrete interleaving has a decidable property can be computed. -/
instance decidableEveryStep (step : σ → ℓ → Option σ) (P : σ → ℓ → Prop)
    [∀ s l, Decidable (P s l)] : (s : σ) → (ls : List ℓ) → Decidable (EveryStep step P s ls)
  | _, [] => isTrue trivial
  | s, l :: ls =>
      match h : step s l with
      | some s' =>
          have := decidableEveryStep step P s' ls
          decidable_of_iff (P s l ∧ EveryStep step P s' ls) (by rw [EveryStep, h])
      | none => decidable_of_iff (P s l) (by rw [EveryStep, h, and_true])

/-- An interleaving whose steps all meet the guard ends in a state reached under it. -/
theorem reachableUnder_of_runLabels {s' : σ} (ls : List ℓ) (hg : EveryStep step guard s₀ ls)
    (hr : runLabels step s₀ ls = some s') : ReachableUnder step guard s₀ s' := by
  suffices hrun : ∀ ls s, ReachableUnder step guard s₀ s → EveryStep step guard s ls →
      TwigKV.runLabels step s ls = some s' → ReachableUnder step guard s₀ s' from
    hrun ls s₀ .refl hg hr
  intro ls
  induction ls with
  | nil =>
    intro s h _ hr
    rw [TwigKV.runLabels, Option.some.injEq] at hr
    exact hr ▸ h
  | cons l ls ih =>
    intro s h hg hr
    rw [TwigKV.runLabels, Option.bind_eq_some_iff] at hr
    obtain ⟨t, ht, hr⟩ := hr
    rw [EveryStep, ht] at hg
    exact ih t (h.tail hg.1 ht) hg.2 hr

/-- **The step rule.** If an invariant that `P`-steps preserve turns `P` into `Q`, a run of
`P`-steps is a run of `Q`-steps. -/
theorem EveryStep.imp {P Q : σ → ℓ → Prop} {I : σ → Prop} (hPQ : ∀ s l, I s → P s l → Q s l)
    (hstep : ∀ s l s', I s → P s l → step s l = some s' → I s') {s : σ} {ls : List ℓ} (h0 : I s)
    (h : EveryStep step P s ls) : EveryStep step Q s ls := by
  induction ls generalizing s with
  | nil => trivial
  | cons l ls ih =>
      rw [EveryStep] at h ⊢
      refine ⟨hPQ s l h0 h.1, ?_⟩
      cases hs : step s l with
      | none => trivial
      | some s' =>
          have hrest := h.2
          rw [hs] at hrest
          exact ih (hstep s l s' h0 h.1 hs) hrest

/-- A step after an executed prefix satisfies the property. -/
theorem EveryStep.after_prefix {P : σ → ℓ → Prop} {s s' : σ} {ls : List ℓ} {l : ℓ}
    (h : EveryStep step P s (ls ++ [l])) (hr : TwigKV.runLabels step s ls = some s') : P s' l := by
  induction ls generalizing s with
  | nil =>
      rw [TwigKV.runLabels, Option.some.injEq] at hr
      rw [← hr]
      exact h.1
  | cons k ls ih =>
      rw [TwigKV.runLabels, Option.bind_eq_some_iff] at hr
      obtain ⟨t, ht, hr⟩ := hr
      have hrest := h.2
      rw [ht] at hrest
      exact ih hrest hr

/-- **The exact condition of a run.** Steps that meet `P` keep a state good, a step that does not
makes it bad, and it stays bad. `I` is what holds along the run in any case. -/
theorem good_iff_everyStep {P : σ → ℓ → Prop} {I : σ → Prop} (Good Bad : σ → Prop)
    (hinv : ∀ s l s', I s → step s l = some s' → I s')
    (hgood : ∀ s l s', I s → Good s → P s l → step s l = some s' → Good s')
    (hbad : ∀ s l s', I s → Good s → ¬ P s l → step s l = some s' → Bad s')
    (hstay : ∀ s l s', I s → Bad s → step s l = some s' → Bad s')
    (hnot : ∀ s, Bad s → ¬ Good s) {s s' : σ} {ls : List ℓ} (h : I s) (h0 : Good s)
    (hr : TwigKV.runLabels step s ls = some s') : Good s' ↔ EveryStep step P s ls := by
  have hrest : ∀ ls s, I s → Bad s → TwigKV.runLabels step s ls = some s' → Bad s' := by
    intro ls
    induction ls with
    | nil =>
      intro s _ hs hr
      rw [TwigKV.runLabels, Option.some.injEq] at hr
      exact hr ▸ hs
    | cons l ls ih =>
      intro s hs hb hr
      rw [TwigKV.runLabels, Option.bind_eq_some_iff] at hr
      obtain ⟨t, ht, hr⟩ := hr
      exact ih t (hinv s l t hs ht) (hstay s l t hs hb ht) hr
  induction ls generalizing s with
  | nil =>
    rw [TwigKV.runLabels, Option.some.injEq] at hr
    exact ⟨fun _ => trivial, fun _ => hr ▸ h0⟩
  | cons l ls ih =>
    rw [TwigKV.runLabels, Option.bind_eq_some_iff] at hr
    obtain ⟨t, ht, hr⟩ := hr
    rw [EveryStep, ht]
    by_cases hP : P s l
    · have hlater := ih (hinv s l t h ht) (hgood s l t h h0 hP ht) hr
      exact ⟨fun hg => ⟨hP, hlater.mp hg⟩, fun hevery => hlater.mpr hevery.2⟩
    · have hend := hrest ls t (hinv s l t h ht) (hbad s l t h h0 hP ht) hr
      exact ⟨fun hg => absurd hg (hnot s' hend), fun hevery => absurd hevery.1 hP⟩

/-! ## Runs that come to an end -/

/-- No label is enabled. -/
def Stuck (step : σ → ℓ → Option σ) (s : σ) : Prop := ∀ l, step s l = none

/-- **The length of a run.** If every step out of `I` stays in `I` and lowers `μ`, an interleaving
is at most as long as `μ` has been lowered. -/
theorem length_le_measure {I : σ → Prop} (μ : σ → ℕ)
    (hstep : ∀ s l s', I s → step s l = some s' → I s' ∧ μ s' < μ s) {s s' : σ} {ls : List ℓ}
    (h : I s) (hr : runLabels step s ls = some s') : ls.length + μ s' ≤ μ s := by
  induction ls generalizing s with
  | nil =>
    rw [runLabels, Option.some.injEq] at hr
    subst hr
    exact Nat.le_of_eq (Nat.zero_add _)
  | cons l ls ih =>
    rw [runLabels, Option.bind_eq_some_iff] at hr
    obtain ⟨t, ht, hr⟩ := hr
    obtain ⟨hI, hlt⟩ := hstep s l t h ht
    have hrest := ih hI hr
    rw [List.length_cons]
    omega

/-- **Every run can be completed.** From a state of `I` some interleaving leads to a state in which
no label is enabled. -/
theorem exists_stuck {I : σ → Prop} (μ : σ → ℕ)
    (hstep : ∀ s l s', I s → step s l = some s' → I s' ∧ μ s' < μ s) {s : σ} (h : I s) :
    ∃ ls s', runLabels step s ls = some s' ∧ Stuck step s' := by
  generalize hn : μ s = n
  induction n using Nat.strongRecOn generalizing s with
  | _ n ih =>
    by_cases hstuck : Stuck step s
    · exact ⟨[], s, rfl, hstuck⟩
    · obtain ⟨l, hl⟩ := Classical.not_forall.mp hstuck
      obtain ⟨t, ht⟩ := Option.ne_none_iff_exists'.mp hl
      obtain ⟨hI, hlt⟩ := hstep s l t h ht
      obtain ⟨ls, s', hr, hend⟩ := ih (μ t) (hn ▸ hlt) hI rfl
      refine ⟨l :: ls, s', ?_, hend⟩
      rw [runLabels, ht]
      exact hr

/-! ## Programs that a panic stops -/

/-- A program that goes on in a state, or that a panic has stopped. -/
inductive MayPanic (σ : Type u) where
  /-- It goes on. -/
  | running (s : σ)
  /-- It has stopped. -/
  | panicked

/-- The state of a program that goes on satisfies `I`. -/
def MayPanic.Holds (I : σ → Prop) : MayPanic σ → Prop
  | .running s => I s
  | .panicked => True

/-- A program that has stopped has nothing left to do. -/
def MayPanic.measure (μ : σ → ℕ) : MayPanic σ → ℕ
  | .running s => μ s
  | .panicked => 0

/-- The steps of a program that takes every enabled label and panics where `step` has no next
state. -/
def stepOrPanic (enabled : σ → ℓ → Bool) (step : σ → ℓ → Option σ) :
    MayPanic σ → ℓ → Option (MayPanic σ)
  | .running s, l => if enabled s l then some ((step s l).elim .panicked .running) else none
  | .panicked, _ => none

variable {enabled : σ → ℓ → Bool}

/-- **The invariant rule** for a run of a program that may panic. -/
theorem MayPanic.Holds.runLabels {I : σ → Prop}
    (hstep : ∀ s l s', I s → enabled s l = true → step s l = some s' → I s') {o o' : MayPanic σ}
    {ls : List ℓ} (h : o.Holds I)
    (hr : TwigKV.runLabels (stepOrPanic enabled step) o ls = some o') :
    o'.Holds I := by
  induction ls generalizing o with
  | nil =>
    rw [TwigKV.runLabels, Option.some.injEq] at hr
    exact hr ▸ h
  | cons l ls ih =>
    rw [TwigKV.runLabels, Option.bind_eq_some_iff] at hr
    obtain ⟨o₁, hs, hr⟩ := hr
    refine ih ?_ hr
    cases o with
    | panicked => cases hs
    | running s =>
      rw [stepOrPanic] at hs
      split at hs
      · next henabled =>
        rw [Option.some.injEq] at hs
        subst hs
        cases hnext : step s l with
        | none => trivial
        | some s' => exact hstep s l s' h henabled hnext
      · cases hs

end TwigKV
