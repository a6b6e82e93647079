import TwigKV.Foundations.DecimalText
import TwigKV.Placement.BlockStore

/-! # The dataset file (`dataset.cpp`)

`createAndWriteDataset` writes one line for each of the keys `1..NUM_KEY_VALUE_PAIRS`, the key and
one value for all of them; `readKeysFromFile` reads the keys back in the order of the lines. -/

namespace TwigKV.Placement

/-- A dataset file: the key and the value of every line. -/
abbrev DatasetFile : Type := List (String × String)

/-- `createAndWriteDataset`, with the value it has drawn. -/
def createAndWriteDataset (numberOfKeys : ℕ) (value : String) : DatasetFile :=
  (List.range' 1 numberOfKeys).map fun i => (toString i, value)

/-- `readKeysFromFile`: the first word of every line. -/
def readKeysFromFile (file : DatasetFile) : List String :=
  file.map Prod.fst

/-- The keys read from the dataset file. -/
theorem readKeysFromFile_createAndWriteDataset (numberOfKeys : ℕ) (value : String) :
    readKeysFromFile (createAndWriteDataset numberOfKeys value)
      = (List.range' 1 numberOfKeys).map toString := by
  rw [readKeysFromFile, createAndWriteDataset, List.map_map]
  apply List.map_congr_left
  intro i _
  rfl

/-- There are as many as were written. -/
theorem length_readKeysFromFile (numberOfKeys : ℕ) (value : String) :
    (readKeysFromFile (createAndWriteDataset numberOfKeys value)).length = numberOfKeys := by
  rw [readKeysFromFile_createAndWriteDataset, List.length_map, List.length_range']

/-- The texts of the dataset's keys are the keys read from its file. -/
theorem mem_readKeysFromFile {opsConfig : Configuration} {value : String} {key : String} :
    key ∈ readKeysFromFile (createAndWriteDataset opsConfig.numKeyValuePairs value) ↔
      ∃ k ∈ datasetKeys opsConfig, toString k = key := by
  rw [readKeysFromFile_createAndWriteDataset, List.mem_map]
  constructor
  · rintro ⟨k, hk, hkey⟩
    have hrange := List.mem_range'_1.mp hk
    exact ⟨k, ⟨hrange.1, by omega⟩, hkey⟩
  · rintro ⟨k, hk, hkey⟩
    have hone := hk.1
    have hlast := hk.2
    exact ⟨k, List.mem_range'_1.mpr ⟨hone, by omega⟩, hkey⟩

end TwigKV.Placement
