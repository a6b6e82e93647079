import Mathlib.Order.Lattice
import Mathlib.Data.List.Basic

/-! # The running maximum finds the first maximum

A loop that keeps the best candidate so far and replaces it only by a strictly better one ends with
the first candidate of largest score (`firstMaximum_spec`), and there is only one such candidate in
an ascending list (`IsFirstMaximum.unique`). -/

namespace TwigKV

variable {ι β : Type*} [LinearOrder ι] [LinearOrder β]

/-- The running maximum of a score over a list of candidates, from a first best one. -/
def firstMaximum (score : ι → β) : ι → List ι → ι
  | best, [] => best
  | best, i :: rest => firstMaximum score (if score best < score i then i else best) rest

/-- `best` is the least of the candidates of largest score. -/
structure IsFirstMaximum (score : ι → β) (candidates : ι → Prop) (best : ι) : Prop where
  /-- It is a candidate. -/
  mem : candidates best
  /-- No candidate scores more. -/
  max : ∀ j, candidates j → score j ≤ score best
  /-- Every smaller candidate scores less. -/
  first : ∀ j, candidates j → j < best → score j < score best

/-- There is one first maximum. -/
theorem IsFirstMaximum.unique {score : ι → β} {candidates : ι → Prop} {i j : ι}
    (hi : IsFirstMaximum score candidates i) (hj : IsFirstMaximum score candidates j) : i = j := by
  rcases lt_trichotomy i j with hlt | heq | hgt
  · exact absurd (hj.first i hi.mem hlt) (not_lt.mpr (hi.max j hj.mem))
  · exact heq
  · exact absurd (hi.first j hj.mem hgt) (not_lt.mpr (hj.max i hi.mem))

/-- The running maximum over an ascending list is the first maximum. -/
theorem firstMaximum_spec (score : ι → β) {best : ι} {l : List ι}
    (h : (best :: l).Pairwise (· < ·)) :
    IsFirstMaximum score (· ∈ best :: l) (firstMaximum score best l) := by
  induction l generalizing best with
  | nil =>
      refine ⟨List.mem_cons_self, fun j hj => ?_, fun j hj hlt => ?_⟩
      · rw [List.mem_singleton.mp hj]
        exact le_refl _
      · rw [List.mem_singleton.mp hj] at hlt
        exact absurd hlt (lt_irrefl _)
  | cons i l ih =>
      obtain ⟨hbest, htail⟩ := List.pairwise_cons.mp h
      rw [firstMaximum]
      split_ifs with hscore
      · -- the new candidate is strictly better than everything before it
        obtain ⟨hmem, hmax, hfirst⟩ := ih htail
        have hi := hmax i List.mem_cons_self
        refine ⟨List.mem_cons_of_mem _ hmem, fun j hj => ?_, fun j hj hlt => ?_⟩
        · rcases List.mem_cons.mp hj with rfl | hj
          · exact le_trans (le_of_lt hscore) hi
          · exact hmax j hj
        · rcases List.mem_cons.mp hj with rfl | hj
          · exact lt_of_lt_of_le hscore hi
          · exact hfirst j hj hlt
      · have hskip : (best :: l).Pairwise (· < ·) :=
          List.pairwise_cons.mpr ⟨fun j hj => hbest j (List.mem_cons_of_mem _ hj),
            (List.pairwise_cons.mp htail).2⟩
        obtain ⟨hmem, hmax, hfirst⟩ := ih hskip
        have hle := hmax best List.mem_cons_self
        refine ⟨?_, fun j hj => ?_, fun j hj hlt => ?_⟩
        · rcases List.mem_cons.mp hmem with heq | hmem
          · rw [heq]
            exact List.mem_cons_self
          · exact List.mem_cons_of_mem _ (List.mem_cons_of_mem _ hmem)
        · rcases List.mem_cons.mp hj with rfl | hj
          · exact hle
          · rcases List.mem_cons.mp hj with rfl | hj
            · exact le_trans (not_lt.mp hscore) hle
            · exact hmax j (List.mem_cons_of_mem _ hj)
        · rcases List.mem_cons.mp hj with rfl | hj
          · exact hfirst j List.mem_cons_self hlt
          · rcases List.mem_cons.mp hj with rfl | hj
            · exact lt_of_le_of_lt (not_lt.mp hscore)
                (hfirst best List.mem_cons_self (lt_trans (hbest j List.mem_cons_self) hlt))
            · exact hfirst j (List.mem_cons_of_mem _ hj) hlt

end TwigKV
