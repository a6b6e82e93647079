import TwigKV.Workload.AllNodesGenerators
import TwigKV.Workload.SingleNodeGenerators

/-! # When the generators are well-formed

The corners in which a generator fails come from small numbers: no hot keys although some operations
should draw them, no cold keys, fewer keys than nodes, one node where the second is named. Three
more come from a negative key in a partitioned generator, from the number of keys doubled in an
`int`, and from the operation code that the split generator leaves out. `WellFormedWhen` lists them
for each distribution type, and `wellFormed_iff` says that there are no others. -/

namespace TwigKV.Workload

/-- **When a generator is well-formed.** -/
def WellFormedWhen (distribution : DistributionType) (keys : List String)
    (config : GeneratorConfig) : Prop :=
  match distribution with
  | .randomDistribution | .ycsb => True
  | .partitionedDistribution => PartitionedWhen keys config
  | .zipfianDistribution => EnoughKeys config (config.hotKeyCount keys.length) keys.length
  | .zipfianPartitionedDistribution =>
    0 < config.totalOperations → ZipfianPartitionedWhen keys config
  | .singleNodeHotKeys | .singleNodeHotKeysToSecondNodeRdmaOnly => SingleNodeWhen keys config
  | .singleNodeHotKeysToSecondNodeOnly =>
    SingleNodeWhen keys config ∧ (0 < config.totalOperations → 2 ≤ config.numNodes)
  | .singleNodeHotKeysToSecondNodeSplit =>
    -- no operation is made
    config.hotThread + config.rdmaThread < 0 ∨
      (config.totalOperations : ℤ) < config.hotThread + config.rdmaThread

/-- **Every generator is well-formed exactly under its condition.** Keys and nodes are counted by an
`int`. -/
theorem wellFormed_iff {keys : List String} {config : GeneratorConfig} (hkeys : keys ≠ [])
    (hlength : keys.length < 2 ^ 31) (hone : 1 ≤ config.numNodes) (hn : config.numNodes < 2 ^ 31)
    (distribution : DistributionType) :
    WellFormed distribution keys config ↔ WellFormedWhen distribution keys config := by
  cases distribution with
  | randomDistribution => exact iff_of_true (wellFormed_random hkeys hone hn) trivial
  | partitionedDistribution => exact wellFormed_partitioned_iff hkeys hone hn
  | zipfianDistribution => exact wellFormed_zipfian_iff hone hn
  | zipfianPartitionedDistribution => exact wellFormed_zipfianPartitioned_iff hone hn
  | singleNodeHotKeys => exact wellFormed_singleNodeHotKeys_iff hkeys hlength hone hn
  | singleNodeHotKeysToSecondNodeOnly => exact wellFormed_secondNodeOnly_iff hkeys hlength
  | singleNodeHotKeysToSecondNodeRdmaOnly =>
    exact wellFormed_secondNodeRdmaOnly_iff hkeys hlength hone
  | singleNodeHotKeysToSecondNodeSplit => exact wellFormed_split_iff keys config
  | ycsb => exact iff_of_true (fun _ => fineAt_nil.mpr fun _ he => nomatch he) trivial

/-- Three nodes, two threads and ten operations, with a tenth of the keys hot and nine accesses to
them. -/
def tenthHot : GeneratorConfig where
  numNodes := 3
  totalOperations := 10
  hotKeyCount n := n / 10
  hotKeyOps := 9
  hotThread := 1
  rdmaThread := 1
  hotKeyCount_le n := Nat.div_le_self n 10
  hotKeyOps_le := by decide

/-- Of ten keys one is hot, which is enough for the Zipfian generator. -/
theorem wellFormed_iff_tenthHot : WellFormed .zipfianDistribution
    ["1", "2", "3", "4", "5", "6", "7", "8", "9", "10"] tenthHot :=
  (wellFormed_iff (List.cons_ne_nil _ _) (by decide) (by decide) (by decide) _).mpr
    ⟨fun _ => by decide, fun _ => by decide⟩

/-- Of five keys none is hot, so the Zipfian generator divides by zero; the split generator emits
operations that are no reads. -/
theorem not_wellFormed_tenthHot :
    ¬ WellFormed .zipfianDistribution ["1", "2", "3", "4", "5"] tenthHot
    ∧ ¬ WellFormed .singleNodeHotKeysToSecondNodeSplit ["1", "2", "3", "4", "5"] tenthHot := by
  constructor
  · rw [wellFormed_zipfian_iff (by decide) (by decide)]
    intro h
    exact absurd (h.hot (by decide)) (by decide)
  · rw [wellFormed_split_iff]
    decide

/-! ## The keys of the dataset -/

section Dataset

open Placement (readKeysFromFile createAndWriteDataset readKeysFromFile_createAndWriteDataset
  length_readKeysFromFile)

variable {numberOfKeys : ℕ} {config : GeneratorConfig} {value key : String}

/-- The keys of the dataset are numbers from `1` on. -/
theorem exists_stoi_dataset (hint : numberOfKeys < 2 ^ 31)
    (hkey : key ∈ readKeysFromFile (createAndWriteDataset numberOfKeys value)) :
    ∃ k : ℤ, stoi key = some k ∧ 1 ≤ k := by
  rw [readKeysFromFile_createAndWriteDataset, List.mem_map] at hkey
  obtain ⟨k, hk, rfl⟩ := hkey
  rw [List.mem_range'_1] at hk
  exact ⟨k, stoi_toString (by omega), by omega⟩

/-- On them the partitioned generator needs a key for every node. -/
theorem partitionedWhen_dataset_iff (hpos : 1 ≤ numberOfKeys) (hint : numberOfKeys < 2 ^ 31) :
    PartitionedWhen (readKeysFromFile (createAndWriteDataset numberOfKeys value)) config ↔
      (0 < config.totalOperations → config.numNodes ≤ numberOfKeys) := by
  have hnumber : ∀ i, ∃ k : ℤ, stoi
    ((readKeysFromFile (createAndWriteDataset numberOfKeys value)).getD
      (i % numberOfKeys) "") = some k ∧ 1 ≤ k := by
    intro i
    have hi : i % numberOfKeys
        < (readKeysFromFile (createAndWriteDataset numberOfKeys value)).length := by
      rw [length_readKeysFromFile]
      exact Nat.mod_lt _ hpos
    rw [List.getD_eq_getElem?_getD, List.getElem?_eq_getElem hi]
    exact exists_stoi_dataset hint (List.getElem_mem hi)
  rw [PartitionedWhen, length_readKeysFromFile]
  constructor
  · intro h hops
    obtain ⟨k, hk, -⟩ := hnumber 0
    exact (h 0 hops (fun j hj => absurd hj (Nat.not_lt_zero j)) k hk).1
  · intro h i hi _ k hk
    obtain ⟨k', hk', hone⟩ := hnumber i
    rw [hk', Option.some.injEq] at hk
    exact ⟨h (Nat.zero_lt_of_lt hi), .inl (by omega)⟩

/-- On them the Zipfian partitioned generator needs, moreover, what the Zipfian generator needs. -/
theorem zipfianPartitionedWhen_dataset_iff (hpos : 1 ≤ numberOfKeys)
    (hint : numberOfKeys < 2 ^ 31) (hops : 0 < config.totalOperations) :
    ZipfianPartitionedWhen (readKeysFromFile (createAndWriteDataset numberOfKeys value)) config ↔
      EnoughKeys config (config.hotKeyCount numberOfKeys) numberOfKeys ∧
        config.numNodes ≤ numberOfKeys := by
  constructor
  · intro h
    obtain ⟨key, hkey⟩ := List.exists_mem_of_length_pos (l := readKeysFromFile
      (createAndWriteDataset numberOfKeys value)) (by rw [length_readKeysFromFile]; exact hpos)
    obtain ⟨k, hk, -⟩ := exists_stoi_dataset hint hkey
    obtain ⟨hcold, hnodes, -⟩ := h.number key hkey k hk
    have hhot := h.hot
    rw [length_readKeysFromFile] at hcold hnodes hhot
    exact ⟨⟨hhot, hcold⟩, hnodes⟩
  · rintro ⟨henough, hnodes⟩
    refine ⟨?_, ?_, fun key hkey k hk => ?_⟩
    all_goals rw [length_readKeysFromFile]
    · exact henough.hot
    · exact fun hnone => henough.cold (hnone ▸ hops)
    · obtain ⟨k', hk', hone⟩ := exists_stoi_dataset hint hkey
      rw [hk', Option.some.injEq] at hk
      exact ⟨henough.cold, hnodes, .inl (by omega)⟩

end Dataset

end TwigKV.Workload
