import Mathlib.Logic.Relation
import Mathlib.Order.WellFounded

/-! # Termination of a step function

A sequential program with loops is a partial step function, `none` where it has ended. This file
says when such a program ends, and in a state with a property (`EndsIn`). It gives two rules: a kind
of state that every step leads back to keeps a program running forever (`not_endsIn_of_invariant`),
and a program with a measure that every step makes smaller, unless it goes wrong there, ends exactly
if it never goes wrong (`endsIn_iff`). -/

namespace TwigKV

variable {σ α : Type*} {step : σ → Option σ} {P : σ → Prop}

/-- The program, started from a state, ends in a state with a property. -/
inductive EndsIn (step : σ → Option σ) (P : σ → Prop) : σ → Prop
  /-- It has ended. -/
  | done {s : σ} (h : step s = none) (hP : P s) : EndsIn step P s
  /-- It ends after a step. -/
  | next {s s' : σ} (h : step s = some s') (hrest : EndsIn step P s') : EndsIn step P s

/-- A run leads from one state to another. -/
def Runs (step : σ → Option σ) : σ → σ → Prop := Relation.ReflTransGen fun s s' => step s = some s'

/-- A step does not change whether the program ends. -/
theorem endsIn_iff_of_step {s s' : σ} (h : step s = some s') :
    EndsIn step P s ↔ EndsIn step P s' := by
  constructor
  · intro hends
    cases hends with
    | done hdone =>
        rw [h] at hdone
        cases hdone
    | next hnext hrest =>
        rw [h, Option.some.injEq] at hnext
        exact hnext ▸ hrest
  · exact EndsIn.next h

/-- Neither does a run. -/
theorem EndsIn.of_runs {s s' : σ} (h : EndsIn step P s) (hrun : Runs step s s') :
    EndsIn step P s' := by
  induction hrun with
  | refl => exact h
  | tail _ hstep ih => exact (endsIn_iff_of_step hstep).mp ih

/-- Where the program has ended, the state has the property. -/
theorem EndsIn.of_none {s : σ} (h : EndsIn step P s) (hs : step s = none) : P s := by
  cases h with
  | done _ hP => exact hP
  | next hnext _ =>
      rw [hs] at hnext
      cases hnext

/-- What every step keeps holds after every run. -/
theorem Runs.invariant {I : σ → Prop} (hstep : ∀ s s', I s → step s = some s' → I s') {s s' : σ}
    (h : Runs step s s') (hI : I s) : I s' := by
  induction h with
  | refl => exact hI
  | tail _ hs ih => exact hstep _ _ ih hs

/-- **A program runs forever** if every state of a kind has a step to a state of that kind. -/
theorem not_endsIn_of_invariant {I : σ → Prop}
    (hstep : ∀ s, I s → ∃ s', step s = some s' ∧ I s') {s : σ} (h : I s) : ¬ EndsIn step P s := by
  intro hends
  induction hends with
  | done hdone _ =>
      obtain ⟨s', hs', -⟩ := hstep _ h
      rw [hdone] at hs'
      cases hs'
  | next hnext _ ih =>
      obtain ⟨s', hs', hI⟩ := hstep _ h
      rw [hnext, Option.some.injEq] at hs'
      exact ih (hs' ▸ hI)

/-- **When a program ends.** Let no run end well from a state that goes wrong, and let every step
from another state keep an invariant and make a measure smaller. Then the program ends well exactly
if its run never goes wrong. -/
theorem endsIn_iff [LT α] [WellFoundedLT α] {I W : σ → Prop} (μ : σ → α)
    (hwrong : ∀ s, I s → W s → ¬ EndsIn step P s) (hend : ∀ s, ¬ W s → step s = none → P s)
    (hkeep : ∀ s s', I s → step s = some s' → I s')
    (hless : ∀ s s', I s → ¬ W s → step s = some s' → μ s' < μ s) {s : σ} (h : I s) :
    EndsIn step P s ↔ ∀ s', Runs step s s' → ¬ W s' := by
  constructor
  · intro hends s' hrun hs'
    exact hwrong s' (hrun.invariant hkeep h) hs' (hends.of_runs hrun)
  · intro hnever
    -- by induction on the measure, from the state where the run starts
    induction hμ : μ s using WellFoundedLT.induction generalizing s with
    | ind m ih =>
        have hhere := hnever s .refl
        cases hs : step s with
        | none => exact .done hs (hend s hhere hs)
        | some s' =>
            have hlt := hless s s' h hhere hs
            exact .next hs (ih (μ s') (hμ ▸ hlt) (hkeep s s' h hs)
              (fun s'' hrun => hnever s'' (.head hs hrun)) rfl)

end TwigKV
