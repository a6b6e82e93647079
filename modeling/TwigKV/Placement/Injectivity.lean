import TwigKV.Placement.BlockStore

/-! # The places of the keys (`rdma_reads.cpp`)

With `q = N / n` keys for each of `n` nodes, `calculateNodeAndOffset` cuts the keys `1..q * n` into
ranges of `q`, one for each node, and puts the keys left over by the division on node `0`, at
offsets beyond `q`. No number it computes exceeds `N`, which an `int` holds. Distinct keys get
distinct places (`calculateNodeAndOffset_injective`): inside the ranges because quotient and
remainder determine a number, and the leftover keys because their offsets are out of the ranges. -/

namespace TwigKV.Placement

/-- The place of a key that the division leaves to the nodes. -/
theorem calculateNodeAndOffset_of_le {opsConfig : Configuration} {k : ℕ}
    (hn : 1 ≤ opsConfig.numNodes) (hq : 0 < opsConfig.numKeyValuePairs / opsConfig.numNodes)
    (hle : k ≤ opsConfig.numKeyValuePairs / opsConfig.numNodes * opsConfig.numNodes) :
    calculateNodeAndOffset opsConfig k
      = some ((k - 1) / (opsConfig.numKeyValuePairs / opsConfig.numNodes),
        (k - 1) % (opsConfig.numKeyValuePairs / opsConfig.numNodes)) := by
  unfold calculateNodeAndOffset
  simp only
  rw [if_neg (by omega), if_neg (Nat.not_lt.mpr hle), if_neg (by omega)]

/-- The place of a key left over by the division. -/
theorem calculateNodeAndOffset_of_gt {opsConfig : Configuration} {k : ℕ}
    (hn : 1 ≤ opsConfig.numNodes)
    (hgt : opsConfig.numKeyValuePairs / opsConfig.numNodes * opsConfig.numNodes < k) :
    calculateNodeAndOffset opsConfig k
      = some (0, opsConfig.numKeyValuePairs / opsConfig.numNodes
        + (k - opsConfig.numKeyValuePairs / opsConfig.numNodes * opsConfig.numNodes)) := by
  unfold calculateNodeAndOffset
  simp only
  rw [if_neg (by omega), if_pos hgt]

/-- What a place says about its key, with `q` keys for each of `n` nodes: the key is the one at its
offset in the range of its node, or the one as far behind all ranges as its offset is behind `q`. -/
inductive PlacedAt (q n k : ℕ) : ℕ × ℕ → Prop where
  /-- In the range of a node. -/
  | range {node offset : ℕ} (hnode : node < n) (hoffset : offset < q)
      (hkey : k = q * node + offset + 1) : PlacedAt q n k (node, offset)
  /-- Left over by the division. -/
  | leftover {extra : ℕ} (hextra : 1 ≤ extra) (hkey : k = q * n + extra) :
      PlacedAt q n k (0, q + extra)

/-- A place has one key. -/
theorem PlacedAt.unique {q n k k' : ℕ} {place : ℕ × ℕ} (h : PlacedAt q n k place)
    (h' : PlacedAt q n k' place) : k = k' := by
  cases h with
  | range hnode hoffset hkey =>
    cases h' with
    | range _ _ hkey' => rw [hkey, hkey']
    | leftover hextra' hkey' => omega
  | leftover hextra hkey =>
    generalize hoff : q + _ = offset at h'
    cases h' with
    | range _ hoffset' hkey' => omega
    | @leftover extra' hextra' hkey' => omega

/-- Every key has a place, without a division by zero. -/
theorem exists_placedAt {opsConfig : Configuration} (hn : 1 ≤ opsConfig.numNodes) {k : ℕ}
    (hk : 1 ≤ k) : ∃ place, calculateNodeAndOffset opsConfig k = some place ∧
      PlacedAt (opsConfig.numKeyValuePairs / opsConfig.numNodes) opsConfig.numNodes k place := by
  rcases Nat.lt_or_ge (opsConfig.numKeyValuePairs / opsConfig.numNodes * opsConfig.numNodes) k with
    hgt | hle
  · exact ⟨_, calculateNodeAndOffset_of_gt hn hgt, .leftover (by omega) (by omega)⟩
  · -- with no keys for a node the first branch would have been taken
    have hq : 0 < opsConfig.numKeyValuePairs / opsConfig.numNodes := by
      rcases Nat.eq_zero_or_pos (opsConfig.numKeyValuePairs / opsConfig.numNodes) with h0 | hpos
      · rw [h0, Nat.zero_mul] at hle
        omega
      · exact hpos
    refine ⟨_, calculateNodeAndOffset_of_le hn hq hle, .range ?_ (Nat.mod_lt _ hq) ?_⟩
    · apply Nat.div_lt_of_lt_mul
      omega
    · rw [Nat.div_add_mod]
      omega

/-- **Placement is injective and in range.** For every `N` and `n ≥ 1` and all keys in `1..N`,
`calculateNodeAndOffset` divides by no zero and returns a node in `0..n-1` and an offset of at most
`N / n + N % n`, and distinct keys get distinct pairs. -/
theorem calculateNodeAndOffset_injective {opsConfig : Configuration}
    (hn : 1 ≤ opsConfig.numNodes) :
    (∀ k ∈ datasetKeys opsConfig, ∃ node offset,
      calculateNodeAndOffset opsConfig k = some (node, offset) ∧ node < opsConfig.numNodes ∧
        offset ≤ opsConfig.numKeyValuePairs / opsConfig.numNodes
          + opsConfig.numKeyValuePairs % opsConfig.numNodes) ∧
    ∀ k ∈ datasetKeys opsConfig, ∀ k' ∈ datasetKeys opsConfig, k ≠ k' →
      calculateNodeAndOffset opsConfig k ≠ calculateNodeAndOffset opsConfig k' := by
  constructor
  · rintro k ⟨hone, hlast⟩
    obtain ⟨⟨node, offset⟩, hplace, hat⟩ := exists_placedAt hn hone
    refine ⟨node, offset, hplace, ?_⟩
    have hsplit := Nat.div_add_mod' opsConfig.numKeyValuePairs opsConfig.numNodes
    cases hat with
    | range hnode hoffset _ => exact ⟨hnode, by omega⟩
    | leftover _ hkey => exact ⟨hn, by omega⟩
  · rintro k ⟨hone, -⟩ k' ⟨hone', -⟩ hne heq
    obtain ⟨place, hplace, hat⟩ := exists_placedAt hn hone
    obtain ⟨place', hplace', hat'⟩ := exists_placedAt hn hone'
    rw [hplace, hplace', Option.some.injEq] at heq
    exact hne (hat.unique (heq ▸ hat'))

/-- Five keys on three nodes: keys `4` and `5` are left over. -/
theorem calculateNodeAndOffset_injective_five_three :
    calculateNodeAndOffset ⟨5, 3⟩ 1 ≠ calculateNodeAndOffset ⟨5, 3⟩ 5 :=
  (@calculateNodeAndOffset_injective ⟨5, 3⟩ (by decide)).2 1 ⟨by decide, by decide⟩ 5
    ⟨by decide, by decide⟩ (by decide)

end TwigKV.Placement
