import Mathlib.Data.List.Basic
import Mathlib.Data.Nat.Notation

/-! # Loops that emit

The loop `for (i = 0; i < n; i++)` emits an element in every round, or stops in one for some reason
(`emit`). What it has emitted and why it has stopped is determined by the rounds it reaches: those
before which no round has stopped (`emit_fine_iff`). A round is checked from its last step back, by
the weakest condition for what it emits (`Fine`). -/

namespace TwigKV

universe u v

variable {α β : Type u} {ε : Type v}

/-- What a loop has emitted, and the reason it has stopped for, if it has. -/
structure Outcome (β ε : Type*) where
  /-- The elements in the order in which they were emitted. -/
  emitted : List β
  /-- The reason. -/
  stopped : Option ε
deriving DecidableEq

/-- The loop over `0..n-1`. -/
def emit : (ℕ → Except ε β) → ℕ → Outcome β ε
  | _, 0 => ⟨[], none⟩
  | f, n + 1 =>
    match f 0 with
    | .error e => ⟨[], some e⟩
    | .ok b =>
      let rest := emit (fun i => f (i + 1)) n
      ⟨b :: rest.emitted, rest.stopped⟩

/-- A round emits an element of one kind or stops for a reason of another. -/
def Fine (E : ε → Prop) (P : β → Prop) : Except ε β → Prop
  | .ok b => P b
  | .error e => E e

/-- A round that returns. -/
@[simp] theorem fine_pure (E : ε → Prop) (P : β → Prop) (b : β) :
    Fine E P (pure b : Except ε β) ↔ P b := Iff.rfl

/-- A round of two steps. -/
@[simp] theorem fine_bind (E : ε → Prop) (P : β → Prop) (x : Except ε α) (g : α → Except ε β) :
    Fine E P (x >>= g) ↔ Fine E (fun a => Fine E P (g a)) x := by
  cases x with
  | error e => rfl
  | ok a => rfl

/-- A round that changes what a step returns. -/
@[simp] theorem fine_map (E : ε → Prop) (P : β → Prop) (x : Except ε α) (g : α → β) :
    Fine E P (x.map g) ↔ Fine E (fun a => P (g a)) x := by
  cases x with
  | error e => rfl
  | ok a => rfl

/-- It returns when the step does. -/
theorem exists_map_eq_ok (x : Except ε α) (g : α → β) :
    (∃ b, x.map g = .ok b) ↔ ∃ a, x = .ok a := by
  cases x with
  | error e =>
    constructor
    · rintro ⟨b, h⟩
      cases h
    · rintro ⟨a, h⟩
      cases h
  | ok a => exact ⟨fun _ => ⟨a, rfl⟩, fun _ => ⟨g a, rfl⟩⟩

/-- A weaker condition. -/
theorem Fine.imp {E : ε → Prop} {P Q : β → Prop} {x : Except ε β} (h : Fine E P x)
    (hPQ : ∀ b, P b → Q b) : Fine E Q x := by
  cases x with
  | error e => exact h
  | ok b => exact hPQ b h

/-- A fine round that cannot stop for an admissible reason returns. -/
theorem Fine.exists_eq_ok {E : ε → Prop} {P : β → Prop} {x : Except ε β} (h : Fine E P x)
    (hstop : Fine (fun e => ¬ E e) (fun _ => True) x) : ∃ b, x = .ok b ∧ P b := by
  cases x with
  | error e => exact absurd h hstop
  | ok b => exact ⟨b, rfl, h⟩

/-- A round is reached when no earlier one stops. -/
def Reached (f : ℕ → Except ε β) (i : ℕ) : Prop := ∀ j < i, ∃ b, f j = .ok b

/-- The first round is reached. -/
theorem reached_zero (f : ℕ → Except ε β) : Reached f 0 := fun _ hj => absurd hj (Nat.not_lt_zero _)

/-- A later round is reached when the first does not stop and it is reached from there. -/
theorem reached_succ_iff (f : ℕ → Except ε β) (i : ℕ) :
    Reached f (i + 1) ↔ (∃ b, f 0 = .ok b) ∧ Reached (fun j => f (j + 1)) i := by
  constructor
  · exact fun h => ⟨h 0 (Nat.succ_pos i), fun j hj => h (j + 1) (Nat.succ_lt_succ hj)⟩
  · rintro ⟨h0, h⟩ j hj
    cases j with
    | zero => exact h0
    | succ j => exact h j (Nat.lt_of_succ_lt_succ hj)

/-- What a loop emits is of one kind, by position, and what it stops for of another. -/
def Outcome.FineAt (E : ε → Prop) (P : ℕ → β → Prop) (outcome : Outcome β ε) : Prop :=
  (∀ i b, outcome.emitted[i]? = some b → P i b) ∧ ∀ e, outcome.stopped = some e → E e

/-- Nothing emitted. -/
theorem fineAt_nil {E : ε → Prop} {P : ℕ → β → Prop} {stopped : Option ε} :
    (Outcome.mk [] stopped).FineAt E P ↔ ∀ e, stopped = some e → E e := by
  refine ⟨fun h => h.2, fun h => ⟨fun i b hb => ?_, h⟩⟩
  rw [List.getElem?_nil] at hb
  cases hb

/-- One more element in front. -/
theorem fineAt_cons {E : ε → Prop} {P : ℕ → β → Prop} {b : β} {outcome : Outcome β ε} :
    (Outcome.mk (b :: outcome.emitted) outcome.stopped).FineAt E P ↔
      P 0 b ∧ outcome.FineAt E fun i => P (i + 1) := by
  constructor
  · rintro ⟨h, hstop⟩
    exact ⟨h 0 b rfl, fun i c hc => h (i + 1) c hc, hstop⟩
  · rintro ⟨h0, h, hstop⟩
    refine ⟨fun i c hc => ?_, hstop⟩
    cases i with
    | zero =>
      cases hc
      exact h0
    | succ i => exact h i c hc

/-- What was emitted before more elements. -/
theorem Outcome.FineAt.of_append {E : ε → Prop} {P : ℕ → β → Prop} {emitted rest : List β}
    {stopped : Option ε} (h : (Outcome.mk (emitted ++ rest) stopped).FineAt E P) :
    (Outcome.mk emitted none : Outcome β ε).FineAt E P := by
  refine ⟨fun i b hb => h.1 i b ?_, fun e he => nomatch he⟩
  have hi := (List.getElem?_eq_some_iff.mp hb).1
  exact (List.getElem?_append_left hi).trans hb

/-- **A loop is fine when every round it reaches is.** -/
theorem emit_fine_iff (E : ε → Prop) (P : ℕ → β → Prop) (f : ℕ → Except ε β) (n : ℕ) :
    (emit f n).FineAt E P ↔ ∀ i < n, Reached f i → Fine E (P i) (f i) := by
  induction n generalizing f P with
  | zero =>
      rw [emit, fineAt_nil]
      exact ⟨fun _ i hi => absurd hi (Nat.not_lt_zero i), fun _ e he => nomatch he⟩
  | succ n ih =>
      rw [emit]
      cases h0 : f 0 with
      | error e =>
        simp only
        rw [fineAt_nil]
        constructor
        · intro h i _ hreached
          cases i with
          | zero =>
            rw [h0]
            exact h e rfl
          | succ i =>
            -- no round behind the first is reached
            obtain ⟨⟨b, hb⟩, -⟩ := (reached_succ_iff f i).mp hreached
            rw [h0] at hb
            cases hb
        · intro h e' he'
          have hfirst := h 0 (Nat.succ_pos n) (reached_zero f)
          rw [h0] at hfirst
          cases he'
          exact hfirst
      | ok b =>
        simp only
        rw [fineAt_cons, ih]
        constructor
        · rintro ⟨hfirst, hrest⟩ i hi hreached
          cases i with
          | zero =>
            rw [h0]
            exact hfirst
          | succ i =>
            exact hrest i (Nat.lt_of_succ_lt_succ hi) ((reached_succ_iff f i).mp hreached).2
        · intro h
          refine ⟨?_, fun i hi hreached => ?_⟩
          · have hfirst := h 0 (Nat.succ_pos n) (reached_zero f)
            rw [h0] at hfirst
            exact hfirst
          · exact h (i + 1) (Nat.succ_lt_succ hi) ((reached_succ_iff f i).mpr ⟨⟨b, h0⟩, hreached⟩)

/-- A loop in which no round can stop for an admissible reason is fine when all its rounds are. -/
theorem emit_fine_iff_forall {E : ε → Prop} {P : ℕ → β → Prop} {f : ℕ → Except ε β} {n : ℕ}
    (hf : ∀ i, Fine (fun e => ¬ E e) (fun _ => True) (f i)) :
    (emit f n).FineAt E P ↔ ∀ i < n, Fine E (P i) (f i) := by
  rw [emit_fine_iff]
  refine ⟨fun h i hi => ?_, fun h i hi _ => h i hi⟩
  -- by strong induction: the rounds before are fine, so they have not stopped
  induction i using Nat.strongRecOn with
  | ind i ih =>
    refine h i hi fun j hj => ?_
    obtain ⟨b, hb, -⟩ := (ih j hj (Nat.lt_trans hj hi)).exists_eq_ok (hf j)
    exact ⟨b, hb⟩

/-- A loop none of whose rounds stops, as a map over the rounds. -/
theorem emit_of_mapM {γ : Type*} {f : ℕ → Except ε β} {g : ℕ → Option γ} {h : γ → β}
    (hfg : ∀ i c, g i = some c → f i = .ok (h c)) {n : ℕ} {l : List γ}
    (hl : (List.range n).mapM g = some l) : emit f n = ⟨l.map h, none⟩ := by
  induction n generalizing f g l with
  | zero =>
      rw [List.range_zero, List.mapM_nil, Option.pure_def, Option.some.injEq] at hl
      rw [← hl]
      rfl
  | succ n ih =>
      rw [List.range_succ_eq_map, List.mapM_cons, List.mapM_map] at hl
      obtain ⟨c, hc, hl⟩ := Option.bind_eq_some_iff.mp hl
      obtain ⟨l', hl', hl⟩ := Option.bind_eq_some_iff.mp hl
      cases hl
      rw [emit, hfg 0 c hc]
      simp only
      rw [ih (fun i => hfg (i + 1)) hl']
      rfl

end TwigKV
