import TwigKV.Foundations.RecordStore
import Mathlib.Data.Nat.Basic
import Mathlib.Tactic.NormNum

/-! # The non-indexed RDMA block store (`rdma_reads.cpp`)

Without the cache index every key's block lives at a fixed place: `calculateNodeAndOffset` names the
node and the offset, and `read_correct_node` / `write_correct_node` post one RDMA read or write of
`BLKSZ` bytes at that offset of the node's region. The regions are byte arrays; an RDMA operation
acts on the bytes from the offset on.

`calculateNodeAndOffset` counts offsets in keys, while the RDMA operations take them as bytes. The
blocks of two keys on one node therefore overlap, and the store is a map only when no node holds
two keys (`blockStore_refinesMap_iff`). -/

namespace TwigKV

/-- `BLKSZ`: the bytes of one block. -/
def blksz : Nat := 4096

/-- `Configuration`: the parameters of a run (`ops_config`). Integer parameters are natural numbers:
the code gives none of them a negative meaning. -/
structure Configuration where
  /-- `NUM_KEY_VALUE_PAIRS`. -/
  numKeyValuePairs : Nat
  /-- `NUM_NODES`. -/
  numNodes : Nat
deriving DecidableEq, Repr

namespace Placement

/-- A block of `BLKSZ` bytes. -/
abbrev Block : Type := Fin blksz → UInt8

/-- The registered memory of every machine, as bytes, keyed by machine index. -/
abbrev Regions : Type := ℕ → ℕ → UInt8

/-- `calculateNodeAndOffset`: the node index and the offset of a key's block, `none` where the code
divides by zero. Keys are numbered from `1`, so `key - 1` does not wrap. -/
def calculateNodeAndOffset (opsConfig : Configuration) (key : ℕ) : Option (ℕ × ℕ) :=
  if opsConfig.numNodes = 0 then none
  else
    let keysPerNode := opsConfig.numKeyValuePairs / opsConfig.numNodes
    if key > keysPerNode * opsConfig.numNodes then
      -- keys left over by the division are appended to node 0
      some (0, keysPerNode + (key - keysPerNode * opsConfig.numNodes))
    else if keysPerNode = 0 then none
    else some ((key - 1) / keysPerNode, (key - 1) % keysPerNode)

/-- `rdma_writer_thread`: one RDMA write of the buffer at the offset of the machine's region. -/
def rdmaWriterThread (regions : Regions) (machine offset : ℕ) (bufferData : Block) : Regions :=
  putRecord regions (machine, offset) bufferData

/-- `rdma_reader_thread`: one RDMA read of `BLKSZ` bytes at the offset of the machine's region. -/
def rdmaReaderThread (regions : Regions) (machine offset : ℕ) : Block :=
  getRecord blksz regions (machine, offset)

/-- `write_correct_node`. -/
def writeCorrectNode (opsConfig : Configuration) (serverStartIndex : ℕ) (regions : Regions)
    (key : ℕ) (bufferData : Block) : Option Regions :=
  (calculateNodeAndOffset opsConfig key).map fun (node, remoteOffset) =>
    rdmaWriterThread regions (node + serverStartIndex) remoteOffset bufferData

/-- `read_correct_node`. -/
def readCorrectNode (opsConfig : Configuration) (serverStartIndex : ℕ) (regions : Regions)
    (key : ℕ) : Option Block :=
  (calculateNodeAndOffset opsConfig key).map fun (node, remoteOffset) =>
    rdmaReaderThread regions (node + serverStartIndex) remoteOffset

/-- A sequence of `write_correct_node` calls. -/
def writeAll (opsConfig : Configuration) (serverStartIndex : ℕ) :
    Regions → List (ℕ × Block) → Option Regions
  | regions, [] => some regions
  | regions, (key, bufferData) :: writes =>
      (writeCorrectNode opsConfig serverStartIndex regions key bufferData).bind fun regions' =>
        writeAll opsConfig serverStartIndex regions' writes

/-- The keys of the data set, `1..NUM_KEY_VALUE_PAIRS`. -/
def datasetKeys (opsConfig : Configuration) : Set ℕ :=
  {key | 1 ≤ key ∧ key ≤ opsConfig.numKeyValuePairs}

/-- **The block store refines a map**: any sequence of writes to keys `1..NUM_KEY_VALUE_PAIRS`
succeeds from any memory contents, and reading a written key then returns exactly the block last
written for it. -/
def BlockStoreRefinesMap (opsConfig : Configuration) : Prop :=
  ∀ (serverStartIndex : ℕ) (regions : Regions) (writes : List (ℕ × Block)),
    (∀ w ∈ writes, w.1 ∈ datasetKeys opsConfig) →
    ∃ regions', writeAll opsConfig serverStartIndex regions writes = some regions' ∧
      ∀ key block, lastWritten writes key = some block →
        readCorrectNode opsConfig serverStartIndex regions' key = some block

/-! ## The placement -/

/-- Where a key's block goes, as a total function: the value of `calculateNodeAndOffset` on keys it
does not divide by zero for. -/
def placeOf (opsConfig : Configuration) (serverStartIndex key : ℕ) : Place ℕ :=
  let nodeAndOffset := (calculateNodeAndOffset opsConfig key).getD (0, 0)
  (nodeAndOffset.1 + serverStartIndex, nodeAndOffset.2)

/-- On the keys of the data set `calculateNodeAndOffset` never divides by zero: with no key per node
every key takes the first branch. -/
theorem calculateNodeAndOffset_isSome {opsConfig : Configuration} (hn : 1 ≤ opsConfig.numNodes)
    {key : ℕ} (hk : 1 ≤ key) : (calculateNodeAndOffset opsConfig key).isSome := by
  unfold calculateNodeAndOffset
  rw [if_neg (by omega)]
  simp only
  split
  · rfl
  · next hle =>
    rw [if_neg]
    · rfl
    · intro h0
      rw [h0, Nat.zero_mul] at hle
      omega

/-- `write_correct_node` writes the record of its key. -/
theorem writeCorrectNode_eq {opsConfig : Configuration} (hn : 1 ≤ opsConfig.numNodes)
    (serverStartIndex : ℕ) (regions : Regions) {key : ℕ} (hk : 1 ≤ key) (block : Block) :
    writeCorrectNode opsConfig serverStartIndex regions key block
      = some (putRecord regions (placeOf opsConfig serverStartIndex key) block) := by
  obtain ⟨p, hp⟩ := Option.isSome_iff_exists.mp (calculateNodeAndOffset_isSome hn hk)
  rw [writeCorrectNode, placeOf, hp]
  rfl

/-- `read_correct_node` reads the record of its key. -/
theorem readCorrectNode_eq {opsConfig : Configuration} (hn : 1 ≤ opsConfig.numNodes)
    (serverStartIndex : ℕ) (regions : Regions) {key : ℕ} (hk : 1 ≤ key) :
    readCorrectNode opsConfig serverStartIndex regions key
      = some (getRecord blksz regions (placeOf opsConfig serverStartIndex key)) := by
  obtain ⟨p, hp⟩ := Option.isSome_iff_exists.mp (calculateNodeAndOffset_isSome hn hk)
  rw [readCorrectNode, placeOf, hp]
  rfl

/-- A sequence of calls writes the records in order. -/
theorem writeAll_eq {opsConfig : Configuration} (hn : 1 ≤ opsConfig.numNodes)
    (serverStartIndex : ℕ) (regions : Regions) (writes : List (ℕ × Block))
    (hw : ∀ w ∈ writes, 1 ≤ w.1) :
    writeAll opsConfig serverStartIndex regions writes
      = some (putRecords (placeOf opsConfig serverStartIndex) regions writes) := by
  induction writes generalizing regions with
  | nil => rfl
  | cons w writes ih =>
      rw [writeAll, writeCorrectNode_eq hn _ _ (hw w List.mem_cons_self), Option.bind_some,
        ih _ fun w' hw' => hw w' (List.mem_cons_of_mem _ hw')]
      rfl

/-- The block store is a map when the placed records form one, for every start index. -/
theorem blockStoreRefinesMap_iff_refinesMap {opsConfig : Configuration}
    (hn : 1 ≤ opsConfig.numNodes) : BlockStoreRefinesMap opsConfig ↔
      ∀ serverStartIndex, RefinesMap UInt8 blksz (placeOf opsConfig serverStartIndex)
        (datasetKeys opsConfig) := by
  constructor
  · intro h serverStartIndex regions writes hw key block hlast
    obtain ⟨regions', hrun, hread⟩ := h serverStartIndex regions writes hw
    rw [writeAll_eq hn _ _ _ fun w hm => (hw w hm).1, Option.some.injEq] at hrun
    have hkey := hw _ (mem_of_lastWritten hlast)
    have hr := hread key block hlast
    rw [readCorrectNode_eq hn _ _ hkey.1, ← hrun, Option.some.injEq] at hr
    exact hr
  · intro h serverStartIndex regions writes hw
    refine ⟨_, writeAll_eq hn _ _ _ fun w hm => (hw w hm).1, fun key block hlast => ?_⟩
    have hkey := hw _ (mem_of_lastWritten hlast)
    rw [readCorrectNode_eq hn _ _ hkey.1,
      h serverStartIndex regions writes hw key block hlast]

/-! ## When the blocks are disjoint -/

/-- With as many keys as nodes every key has its own node. -/
theorem placeOf_of_eq {opsConfig : Configuration} (hn : 1 ≤ opsConfig.numNodes)
    (he : opsConfig.numKeyValuePairs = opsConfig.numNodes) (serverStartIndex : ℕ) {key : ℕ}
    (hk : key ∈ datasetKeys opsConfig) :
    placeOf opsConfig serverStartIndex key = (key - 1 + serverStartIndex, 0) := by
  have hq : opsConfig.numKeyValuePairs / opsConfig.numNodes = 1 := by
    rw [he, Nat.div_self hn]
  have hle : ¬ key > 1 * opsConfig.numNodes := by
    have := hk.2
    omega
  unfold placeOf calculateNodeAndOffset
  simp only [hq]
  rw [if_neg (by omega), if_neg hle, if_neg (by omega), Nat.div_one, Nat.mod_one]
  rfl

/-- Disjoint blocks with as many keys as nodes, or with a single key. -/
theorem placeOf_disjoint {opsConfig : Configuration} (hn : 1 ≤ opsConfig.numNodes)
    (h : opsConfig.numKeyValuePairs = opsConfig.numNodes ∨ opsConfig.numKeyValuePairs = 1)
    (serverStartIndex : ℕ) : ∀ k ∈ datasetKeys opsConfig, ∀ k' ∈ datasetKeys opsConfig, k ≠ k' →
      RangesDisjoint blksz (placeOf opsConfig serverStartIndex k)
        (placeOf opsConfig serverStartIndex k') := by
  intro k hk k' hk' hne
  have hk1 := hk.1
  have hk1' := hk'.1
  rcases h with he | h1
  · rw [placeOf_of_eq hn he _ hk, placeOf_of_eq hn he _ hk']
    intro hnode
    simp only at hnode
    omega
  · have hk2 := hk.2
    have hk2' := hk'.2
    omega

/-- Two keys on node `0` fewer than `BLKSZ` bytes apart. -/
theorem placeOf_overlap {opsConfig : Configuration} {serverStartIndex k k' : ℕ} (off off' : ℕ)
    (hk : calculateNodeAndOffset opsConfig k = some (0, off))
    (hk' : calculateNodeAndOffset opsConfig k' = some (0, off')) (hlt : off < off' + blksz)
    (hlt' : off' < off + blksz) :
    ¬ RangesDisjoint blksz (placeOf opsConfig serverStartIndex k)
      (placeOf opsConfig serverStartIndex k') := by
  intro hd
  have h := hd (by rw [placeOf, placeOf, hk, hk']; rfl)
  rw [placeOf, placeOf, hk, hk'] at h
  simp only [Option.getD_some] at h
  omega

/-- In every other configuration two keys of the data set overlap: keys `1` and `2` when node `0`
has room for two keys or none has room for any, keys `1` and `n + 1` when every node has room for
one. -/
theorem exists_overlap {opsConfig : Configuration} (hN : 1 ≤ opsConfig.numKeyValuePairs)
    (hn : 1 ≤ opsConfig.numNodes) (hne : opsConfig.numKeyValuePairs ≠ opsConfig.numNodes)
    (hne1 : opsConfig.numKeyValuePairs ≠ 1) (serverStartIndex : ℕ) :
    ∃ k ∈ datasetKeys opsConfig, ∃ k' ∈ datasetKeys opsConfig, k ≠ k' ∧
      ¬ RangesDisjoint blksz (placeOf opsConfig serverStartIndex k)
        (placeOf opsConfig serverStartIndex k') := by
  have hN2 : 2 ≤ opsConfig.numKeyValuePairs := by omega
  have h1 : 1 ∈ datasetKeys opsConfig := ⟨le_refl 1, hN⟩
  have h2 : 2 ∈ datasetKeys opsConfig := ⟨by omega, hN2⟩
  have hmod := Nat.div_add_mod' opsConfig.numKeyValuePairs opsConfig.numNodes
  have hlt := Nat.mod_lt opsConfig.numKeyValuePairs hn
  -- split on how many keys fit on a node
  rcases hq : opsConfig.numKeyValuePairs / opsConfig.numNodes with _ | _ | q
  · refine ⟨1, h1, 2, h2, by omega, placeOf_overlap 1 2 ?_ ?_ ?_ ?_⟩
    · simp [calculateNodeAndOffset, hq, Nat.ne_of_gt hn]
    · simp [calculateNodeAndOffset, hq, Nat.ne_of_gt hn]
    · simp [blksz]
    · simp [blksz]
  · rw [hq] at hmod
    have hleft : opsConfig.numNodes + 1 ∈ datasetKeys opsConfig := ⟨by omega, by omega⟩
    refine ⟨1, h1, opsConfig.numNodes + 1, hleft, by omega,
      placeOf_overlap 0 2 ?_ ?_ ?_ ?_⟩
    · simp [calculateNodeAndOffset, hq, Nat.ne_of_gt hn]
    · simp [calculateNodeAndOffset, hq, Nat.ne_of_gt hn]
    · simp [blksz]
    · simp [blksz]
  · have hroom : 2 ≤ (q + 1 + 1) * opsConfig.numNodes := by
      calc 2 ≤ q + 1 + 1 := by omega
        _ ≤ (q + 1 + 1) * opsConfig.numNodes := Nat.le_mul_of_pos_right _ hn
    refine ⟨1, h1, 2, h2, by omega, placeOf_overlap 0 1 ?_ ?_ ?_ ?_⟩
    · unfold calculateNodeAndOffset
      simp only [hq]
      rw [if_neg (by omega), if_neg (by omega), if_neg (by omega), Nat.sub_self, Nat.zero_div,
        Nat.zero_mod]
    · unfold calculateNodeAndOffset
      simp only [hq]
      rw [if_neg (by omega), if_neg (by omega), if_neg (by omega),
        Nat.div_eq_of_lt (by omega), Nat.mod_eq_of_lt (by omega)]
    · simp [blksz]
    · simp [blksz]

/-- **When the block store is a map.** For every number of keys and nodes, `write_correct_node` and
`read_correct_node` implement a map over the data set exactly when there are as many keys as nodes,
or a single key: in every other configuration two blocks on one node overlap. -/
theorem blockStore_refinesMap_iff {opsConfig : Configuration}
    (hN : 1 ≤ opsConfig.numKeyValuePairs) (hn : 1 ≤ opsConfig.numNodes) :
    BlockStoreRefinesMap opsConfig ↔
      opsConfig.numKeyValuePairs = opsConfig.numNodes ∨ opsConfig.numKeyValuePairs = 1 := by
  rw [blockStoreRefinesMap_iff_refinesMap hn]
  constructor
  · intro h
    by_contra hne
    push Not at hne
    obtain ⟨k, hk, k', hk', hkk, ho⟩ := exists_overlap hN hn hne.1 hne.2 0
    have : Nontrivial UInt8 := ⟨0, 1, by decide⟩
    exact not_refinesMap_of_overlap hk hk' hkk ho (h 0)
  · exact fun h serverStartIndex => refinesMap_of_disjoint (placeOf_disjoint hn h serverStartIndex)

/-- Three keys on three nodes form a map. -/
theorem blockStore_refinesMap_iff_three : BlockStoreRefinesMap ⟨3, 3⟩ :=
  (@blockStore_refinesMap_iff ⟨3, 3⟩ (by decide) (by decide)).mpr (Or.inl rfl)

/-- Two keys on one node do not: after writing zeros under key `1` and ones under key `2`, byte `1`
of the block read back for key `1` is a one. -/
theorem blockStore_two_keys_one_node : ¬ BlockStoreRefinesMap ⟨2, 1⟩ := by
  intro h
  obtain ⟨regions', hrun, hread⟩ := h 0 (fun _ _ => 0) [(1, fun _ => 0), (2, fun _ => 1)]
    (by simp [datasetKeys])
  rw [writeAll_eq (by decide) _ _ _ (by simp), Option.some.injEq] at hrun
  have h1 := hread 1 (fun _ => 0) rfl
  rw [← hrun] at h1
  have hbyte := congrArg (fun b : Option Block => b.map fun block => block ⟨1, by decide⟩) h1
  exact absurd hbyte (by decide)

end Placement

end TwigKV
