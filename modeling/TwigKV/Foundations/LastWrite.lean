import Mathlib.Logic.Function.Basic
import Mathlib.Data.List.Induction

/-! # The last write of each key

A sequence of writes to a map leaves in every key the value written to it last
(`applyWrites_apply`). In a numbered sequence it is the one with no later write of its key
(`lastWritten_range_eq_some_iff`). Keys and values are arbitrary types. -/

namespace TwigKV

variable {Key V : Type*} [DecidableEq Key]

/-- The map after a sequence of writes. -/
def applyWrites (m : Key → V) (writes : List (Key × V)) : Key → V :=
  writes.foldl (fun m w => Function.update m w.1 w.2) m

/-- The map a sequence of writes builds: each key holds the value written to it last. -/
def lastWritten (writes : List (Key × V)) : Key → Option V :=
  writes.foldl (fun m w => Function.update m w.1 (some w.2)) fun _ => none

/-- The last write of a sequence decides its key and leaves the others as they were. -/
theorem lastWritten_append_singleton (writes : List (Key × V)) (w : Key × V) :
    lastWritten (writes ++ [w]) = Function.update (lastWritten writes) w.1 (some w.2) := by
  rw [lastWritten, List.foldl_append, List.foldl_cons, List.foldl_nil, lastWritten]

/-- What a key holds was written under it. -/
theorem mem_of_lastWritten {writes : List (Key × V)} {k : Key} {v : V}
    (h : lastWritten writes k = some v) : (k, v) ∈ writes := by
  induction writes using List.reverseRecOn with
  | nil => exact absurd h (by simp [lastWritten])
  | append_singleton writes w ih =>
      rw [lastWritten_append_singleton] at h
      by_cases hkw : k = w.1
      · subst hkw
        rw [Function.update_self, Option.some.injEq] at h
        rw [← h]
        simp
      · rw [Function.update_of_ne hkw] at h
        exact List.mem_append_left _ (ih h)

/-- A written key has a last write. -/
theorem lastWritten_isSome_of_mem {writes : List (Key × V)} {k : Key} {v : V}
    (h : (k, v) ∈ writes) : (lastWritten writes k).isSome := by
  induction writes using List.reverseRecOn with
  | nil => exact absurd h List.not_mem_nil
  | append_singleton writes w ih =>
      rw [lastWritten_append_singleton]
      by_cases hkw : k = w.1
      · subst hkw
        rw [Function.update_self]
        rfl
      · rw [Function.update_of_ne hkw]
        rcases List.mem_append.mp h with hmem | hmem
        · exact ih hmem
        · exact absurd (congrArg Prod.fst (List.mem_singleton.mp hmem)) hkw

/-- The last write of a numbered sequence is the one with no later write of its key. -/
theorem lastWritten_range_eq_some_iff {write : ℕ → Key × V} {n : ℕ} {k : Key} {v : V} :
    lastWritten ((List.range n).map write) k = some v ↔
      ∃ c < n, write c = (k, v) ∧ ∀ c', c < c' → c' < n → (write c').1 ≠ k := by
  induction n with
  | zero => exact ⟨fun h => (by cases h), fun ⟨_, hc, _⟩ => absurd hc (Nat.not_lt_zero _)⟩
  | succ n ih =>
      rw [List.range_succ, List.map_append, List.map_singleton, lastWritten_append_singleton]
      by_cases hkey : k = (write n).1
      · subst hkey
        rw [Function.update_self, Option.some.injEq]
        constructor
        · rintro rfl
          exact ⟨n, Nat.lt_succ_self n, rfl, fun c' hlt hle => by omega⟩
        · rintro ⟨c, hc, hwrite, hlast⟩
          rcases Nat.lt_succ_iff_lt_or_eq.mp hc with hlt | rfl
          · exact absurd rfl (hlast n hlt (Nat.lt_succ_self n))
          · rw [hwrite]
      · rw [Function.update_of_ne hkey, ih]
        constructor
        · rintro ⟨c, hc, hwrite, hlast⟩
          refine ⟨c, Nat.lt_succ_of_lt hc, hwrite, fun c' hlt hle => ?_⟩
          rcases Nat.lt_succ_iff_lt_or_eq.mp hle with hbefore | rfl
          · exact hlast c' hlt hbefore
          · exact Ne.symm hkey
        · rintro ⟨c, hc, hwrite, hlast⟩
          rcases Nat.lt_succ_iff_lt_or_eq.mp hc with hlt | rfl
          · exact ⟨c, hlt, hwrite, fun c' hlt' hle => hlast c' hlt' (Nat.lt_succ_of_lt hle)⟩
          · exact absurd (congrArg Prod.fst hwrite).symm hkey

/-- Applying a sequence of writes gives every key its last write, or what it held before. -/
theorem applyWrites_apply (m : Key → V) (writes : List (Key × V)) (k : Key) :
    applyWrites m writes k = (lastWritten writes k).getD (m k) := by
  induction writes using List.reverseRecOn with
  | nil => rfl
  | append_singleton writes w ih =>
      rw [lastWritten_append_singleton, applyWrites, List.foldl_append, List.foldl_cons,
        List.foldl_nil, ← applyWrites]
      by_cases hkw : k = w.1
      · subst hkw
        rw [Function.update_self, Function.update_self, Option.getD_some]
      · rw [Function.update_of_ne hkw, Function.update_of_ne hkw, ih]

/-- Applying two sequences one after the other. -/
theorem applyWrites_append (m : Key → V) (earlier later : List (Key × V)) :
    applyWrites m (earlier ++ later) = applyWrites (applyWrites m earlier) later :=
  List.foldl_append

end TwigKV
