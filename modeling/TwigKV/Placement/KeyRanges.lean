import TwigKV.Foundations.ListPieces
import TwigKV.Placement.BlockStore
import Mathlib.Data.Rat.Floor
import Mathlib.Algebra.Order.Floor.Semifield
import Mathlib.Tactic.FieldSimp

/-! # The key range of a server (`ldc.cpp`)

At start-up a server computes the range of keys it owns, `start_keys` up to `end_keys`, preloads the
keys of the dataset in it and keeps the truncated bounds `key_min` and `key_max` for the admission
test of `fetch_from_disk`. The bounds are fractions: the code computes them in `float`, the model in
rationals.

The ranges cover the numbers from `0` up to `NUM_KEY_VALUE_PAIRS`, exclusively, while the keys of
the dataset are numbered from `1`: no server owns the last key. Below it every key has one server in
each test, and the two agree unless a boundary lies strictly between the key and the next number
(`preloadCovers_iff`). -/

namespace TwigKV.Placement

/-- `start_keys`. -/
def startKeys (opsConfig : Configuration) (serverIndex : ℕ) : ℚ :=
  serverIndex * ((opsConfig.numKeyValuePairs : ℚ) / opsConfig.numNodes)

/-- `end_keys`. -/
def endKeys (opsConfig : Configuration) (serverIndex : ℕ) : ℚ :=
  (serverIndex + 1) * ((opsConfig.numKeyValuePairs : ℚ) / opsConfig.numNodes)

/-- `key_min`: the conversion to `uint64_t` truncates. -/
def keyMin (opsConfig : Configuration) (serverIndex : ℕ) : ℕ := ⌊startKeys opsConfig serverIndex⌋₊

/-- `key_max`. -/
def keyMax (opsConfig : Configuration) (serverIndex : ℕ) : ℕ := ⌊endKeys opsConfig serverIndex⌋₊

/-- The range test of the preload. -/
def PreloadTest (opsConfig : Configuration) (serverIndex keyIndex : ℕ) : Prop :=
  startKeys opsConfig serverIndex ≤ keyIndex ∧ keyIndex < endKeys opsConfig serverIndex

/-- The range test of `fetch_from_disk`. -/
def AdmissionTest (opsConfig : Configuration) (serverIndex keyIndex : ℕ) : Prop :=
  keyMin opsConfig serverIndex ≤ keyIndex ∧ keyIndex < keyMax opsConfig serverIndex

/-- **A key is covered**: one server passes the preload test for it, and the same one is the only
one that passes the admission test. -/
def PreloadCovers (opsConfig : Configuration) (keyIndex : ℕ) : Prop :=
  ∃ owner, owner < opsConfig.numNodes ∧
    (∀ s, s < opsConfig.numNodes → (PreloadTest opsConfig s keyIndex ↔ s = owner)) ∧
    ∀ s, s < opsConfig.numNodes → (AdmissionTest opsConfig s keyIndex ↔ s = owner)

/-- No boundary between two servers lies strictly between a key and the next number. -/
def NoBoundaryAfter (opsConfig : Configuration) (keyIndex : ℕ) : Prop :=
  ∀ s, ¬ (keyIndex * opsConfig.numNodes < s * opsConfig.numKeyValuePairs ∧
    s * opsConfig.numKeyValuePairs < (keyIndex + 1) * opsConfig.numNodes)

/-! ## The tests in whole numbers -/

section

variable {opsConfig : Configuration} {serverIndex keyIndex : ℕ}

/-- The end of a range is the start of the next one. -/
theorem endKeys_eq (opsConfig : Configuration) (serverIndex : ℕ) :
    endKeys opsConfig serverIndex = startKeys opsConfig (serverIndex + 1) := by
  rw [endKeys, startKeys, Nat.cast_add_one]

/-- A boundary as one fraction. -/
theorem startKeys_eq_div (opsConfig : Configuration) (serverIndex : ℕ) :
    startKeys opsConfig serverIndex
      = ((serverIndex * opsConfig.numKeyValuePairs : ℕ) : ℚ) / opsConfig.numNodes := by
  rw [startKeys, Nat.cast_mul, mul_div_assoc]

/-- A truncated boundary is a quotient of whole numbers. -/
theorem keyMin_eq_div (opsConfig : Configuration) (serverIndex : ℕ) :
    keyMin opsConfig serverIndex
      = serverIndex * opsConfig.numKeyValuePairs / opsConfig.numNodes := by
  rw [keyMin, startKeys_eq_div, Nat.floor_div_eq_div]

/-- The truncated end of a range is the truncated start of the next one. -/
theorem keyMax_eq_div (opsConfig : Configuration) (serverIndex : ℕ) :
    keyMax opsConfig serverIndex
      = (serverIndex + 1) * opsConfig.numKeyValuePairs / opsConfig.numNodes := by
  rw [keyMax, endKeys_eq, ← keyMin, keyMin_eq_div]

/-- A key is at or above a boundary. -/
theorem startKeys_le_iff (hn : 1 ≤ opsConfig.numNodes) :
    startKeys opsConfig serverIndex ≤ keyIndex ↔
      serverIndex * opsConfig.numKeyValuePairs ≤ keyIndex * opsConfig.numNodes := by
  have hpos : (0 : ℚ) < opsConfig.numNodes := Nat.cast_pos.mpr hn
  rw [startKeys_eq_div, div_le_iff₀ hpos, ← Nat.cast_mul, Nat.cast_le]

/-- The preload test in whole numbers. -/
theorem preloadTest_iff (hn : 1 ≤ opsConfig.numNodes) :
    PreloadTest opsConfig serverIndex keyIndex ↔
      serverIndex * opsConfig.numKeyValuePairs ≤ keyIndex * opsConfig.numNodes ∧
        keyIndex * opsConfig.numNodes < (serverIndex + 1) * opsConfig.numKeyValuePairs := by
  rw [PreloadTest, startKeys_le_iff hn, endKeys_eq, ← not_le, startKeys_le_iff hn, not_le]

/-- The admission test in whole numbers: truncation moves a boundary down to the next number. -/
theorem admissionTest_iff (hn : 1 ≤ opsConfig.numNodes) :
    AdmissionTest opsConfig serverIndex keyIndex ↔
      serverIndex * opsConfig.numKeyValuePairs < (keyIndex + 1) * opsConfig.numNodes ∧
        (keyIndex + 1) * opsConfig.numNodes ≤ (serverIndex + 1) * opsConfig.numKeyValuePairs := by
  have hmin : serverIndex * opsConfig.numKeyValuePairs / opsConfig.numNodes ≤ keyIndex ↔
      serverIndex * opsConfig.numKeyValuePairs < (keyIndex + 1) * opsConfig.numNodes := by
    rw [← Nat.lt_succ_iff, Nat.div_lt_iff_lt_mul hn]
  have hmax : keyIndex < (serverIndex + 1) * opsConfig.numKeyValuePairs / opsConfig.numNodes ↔
      (keyIndex + 1) * opsConfig.numNodes ≤ (serverIndex + 1) * opsConfig.numKeyValuePairs := by
    rw [← Nat.succ_le_iff, Nat.le_div_iff_mul_le hn]
  rw [AdmissionTest, keyMin_eq_div, keyMax_eq_div, hmin, hmax]

/-- Where no boundary follows a key, the two tests agree on it. -/
theorem admissionTest_iff_preloadTest (hn : 1 ≤ opsConfig.numNodes)
    (hboundary : NoBoundaryAfter opsConfig keyIndex) :
    AdmissionTest opsConfig serverIndex keyIndex ↔
      PreloadTest opsConfig serverIndex keyIndex := by
  have hnext : (keyIndex + 1) * opsConfig.numNodes
      = keyIndex * opsConfig.numNodes + opsConfig.numNodes := Nat.succ_mul _ _
  have hlower := hboundary serverIndex
  have hupper := hboundary (serverIndex + 1)
  rw [admissionTest_iff hn, preloadTest_iff hn]
  omega

end

/-! ## When every test has one server -/

/-- The boundaries ascend. -/
theorem monotone_boundary (opsConfig : Configuration) :
    Monotone fun s => s * opsConfig.numKeyValuePairs :=
  fun _ _ hle => Nat.mul_le_mul_right _ hle

/-- A covered key is not the last one, and no boundary follows it. -/
theorem noBoundaryAfter_of_preloadCovers {opsConfig : Configuration} {keyIndex : ℕ}
    (hn : 1 ≤ opsConfig.numNodes) (h : PreloadCovers opsConfig keyIndex) :
    keyIndex < opsConfig.numKeyValuePairs ∧ NoBoundaryAfter opsConfig keyIndex := by
  obtain ⟨owner, howner, hpreload, hadmission⟩ := h
  have hin := (preloadTest_iff hn).mp ((hpreload owner howner).mpr rfl)
  have hadmitted := (admissionTest_iff hn).mp ((hadmission owner howner).mpr rfl)
  have hlast : (owner + 1) * opsConfig.numKeyValuePairs
      ≤ opsConfig.numNodes * opsConfig.numKeyValuePairs := Nat.mul_le_mul_right _ howner
  refine ⟨?_, ?_⟩
  · have hlt : keyIndex * opsConfig.numNodes < opsConfig.numKeyValuePairs * opsConfig.numNodes := by
      rw [Nat.mul_comm opsConfig.numKeyValuePairs]
      exact lt_of_lt_of_le hin.2 hlast
    exact Nat.lt_of_mul_lt_mul_right hlt
  · rintro s ⟨hafter, hbefore⟩
    -- such a boundary is neither at or below the owner's start nor at or above its end
    rcases Nat.lt_or_ge owner s with hlt | hge
    · have hend := monotone_boundary opsConfig hlt
      simp only [Nat.succ_eq_add_one] at hend
      omega
    · have hstart := monotone_boundary opsConfig hge
      simp only at hstart
      omega

/-- **Which keys are covered.** For every number of nodes and keys, a key is covered exactly when it
is not the last key of the dataset or beyond it and no boundary between two servers lies strictly
between it and the next number. -/
theorem preloadCovers_iff {opsConfig : Configuration} (hn : 1 ≤ opsConfig.numNodes)
    (keyIndex : ℕ) :
    PreloadCovers opsConfig keyIndex ↔
      keyIndex < opsConfig.numKeyValuePairs ∧ NoBoundaryAfter opsConfig keyIndex := by
  constructor
  · exact noBoundaryAfter_of_preloadCovers hn
  · rintro ⟨hlt, hboundary⟩
    have hend : keyIndex * opsConfig.numNodes
        < opsConfig.numNodes * opsConfig.numKeyValuePairs := by
      rw [Nat.mul_comm opsConfig.numNodes]
      exact Nat.mul_lt_mul_of_pos_right hlt hn
    obtain ⟨owner, howner, hin⟩ := @exists_interval ℕ _ (fun s => s * opsConfig.numKeyValuePairs)
      (keyIndex * opsConfig.numNodes) opsConfig.numNodes
      (le_of_eq_of_le (Nat.zero_mul _) (Nat.zero_le _)) hend
    have hpreload : ∀ s, PreloadTest opsConfig s keyIndex ↔ s = owner := by
      intro s
      rw [preloadTest_iff hn]
      constructor
      · intro hs
        exact interval_unique (monotone_boundary opsConfig) hs hin
      · rintro rfl
        exact hin
    refine ⟨owner, howner, fun s _ => hpreload s, fun s _ => ?_⟩
    rw [admissionTest_iff_preloadTest hn hboundary]
    exact hpreload s

/-- Key `2` of five keys on two nodes is not covered: the boundary `5/2` follows it. -/
theorem preloadCovers_iff_five_keys : ¬ PreloadCovers ⟨5, 2⟩ 2 := by
  rw [preloadCovers_iff (by decide)]
  rintro ⟨-, hboundary⟩
  exact hboundary 1 (by decide)

/-- No server preloads the last of three keys. -/
theorem last_key_not_preloaded : ¬ ∀ (opsConfig : Configuration), 1 ≤ opsConfig.numNodes →
    opsConfig.numNodes ≤ opsConfig.numKeyValuePairs →
    ∀ keyIndex ∈ datasetKeys opsConfig, PreloadCovers opsConfig keyIndex := by
  intro h
  have hcovered := h ⟨3, 3⟩ (by decide) (by decide) 3 ⟨by decide, by decide⟩
  exact absurd (noBoundaryAfter_of_preloadCovers (by decide) hcovered).1 (by decide)

end TwigKV.Placement
