import TwigKV.Foundations.LabelledRun

/-! # Simulations between step functions

A step function simulates another one along an abstraction of states if each of its steps is a run
of the other one, of any length. Reachable states are then reachable after abstraction
(`ReachableUnder.simulate`), so that every invariant of the abstract system holds of the concrete
one. -/

namespace TwigKV

universe u v

variable {σ τ : Type u} {ℓ κ : Type v} {step : σ → ℓ → Option σ} {guard : σ → ℓ → Prop}
  {step' : τ → κ → Option τ} {guard' : τ → κ → Prop}

/-- Running on from a reached state, with steps that meet the guard. -/
theorem ReachableUnder.runLabels {s₀ s s' : σ} {ls : List ℓ}
    (h : ReachableUnder step guard s₀ s) (hg : EveryStep step guard s ls)
    (hr : TwigKV.runLabels step s ls = some s') : ReachableUnder step guard s₀ s' := by
  induction ls generalizing s with
  | nil =>
    rw [TwigKV.runLabels, Option.some.injEq] at hr
    exact hr ▸ h
  | cons l ls ih =>
    rw [TwigKV.runLabels, Option.bind_eq_some_iff] at hr
    obtain ⟨t, ht, hr⟩ := hr
    rw [EveryStep, ht] at hg
    exact ih (h.tail hg.1 ht) hg.2 hr

/-- A run that the abstract system can do, with steps that meet its guard. -/
def Simulates (step' : τ → κ → Option τ) (guard' : τ → κ → Prop) (t t' : τ) : Prop :=
  ∃ ls, EveryStep step' guard' t ls ∧ runLabels step' t ls = some t'

/-- No step. -/
theorem Simulates.refl (t : τ) : Simulates step' guard' t t := ⟨[], trivial, rfl⟩

/-- One step in front. -/
theorem Simulates.head {t u t' : τ} {l : κ} (hg : guard' t l) (hs : step' t l = some u)
    (h : Simulates step' guard' u t') : Simulates step' guard' t t' := by
  obtain ⟨ls, hevery, hrun⟩ := h
  refine ⟨l :: ls, ?_, ?_⟩
  · rw [EveryStep, hs]
    exact ⟨hg, hevery⟩
  · rw [runLabels, hs]
    exact hrun

/-- One step. -/
theorem Simulates.single {t t' : τ} {l : κ} (hg : guard' t l) (hs : step' t l = some t') :
    Simulates step' guard' t t' :=
  .head hg hs (.refl t')

/-- **Simulation.** If every step out of `I` stays in `I` and is an abstract run, the abstraction of
a reached state is reached. -/
theorem ReachableUnder.simulate (f : σ → τ) {I : σ → Prop} {s₀ s : σ} (h0 : I s₀)
    (hstep : ∀ s l s', I s → guard s l → step s l = some s' →
      I s' ∧ Simulates step' guard' (f s) (f s'))
    (h : ReachableUnder step guard s₀ s) : I s ∧ ReachableUnder step' guard' (f s₀) (f s) := by
  induction h with
  | refl => exact ⟨h0, .refl⟩
  | tail _ hg hs ih =>
    obtain ⟨hinv, ls, hevery, hrun⟩ := hstep _ _ _ ih.1 hg hs
    exact ⟨hinv, ih.2.runLabels hevery hrun⟩

end TwigKV
