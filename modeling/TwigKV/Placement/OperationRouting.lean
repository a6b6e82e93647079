import TwigKV.Placement.Dataset
import TwigKV.Placement.Injectivity
import Mathlib.Algebra.Order.Ring.Int
import Mathlib.Tactic.SplitIfs

/-! # Routing of the generated operations (`operations.cpp`)

The two partitioned generators send every operation to the node that should hold its key: with `q`
keys for each node, to node `k / q` modulo the number of nodes, counted from `1`.
`calculateNodeAndOffset` places the block of the same key on node `(k - 1) / q`, counted from `0`,
as keys are numbered from `1`, and the keys left over by the division on node `0`.

The two agree for a key in the middle of a node's range and differ for the last key of every range
and for leftover keys from `q` on (`routing_agrees_iff`). -/

namespace TwigKV.Placement

/-- The kind of an operation. -/
inductive OperationKind where
  /-- `INSERT_OP`. -/
  | insert
  /-- `READ_OP`. -/
  | read
  /-- `UPDATE_OP`. -/
  | update
  /-- `DELETE_OP`. -/
  | delete
  /-- `PUT_OP`. -/
  | put
deriving DecidableEq, Repr

/-- `Operation` as the partitioned generators make it, with the exact node. With the `int` and the
character that the program stores it is `Traces.Operation`, and `Workload.emittedRead` takes the one
to the other. -/
structure Operation where
  /-- The key. -/
  key : String
  /-- The node, counted from `1`. -/
  node : ℤ
  /-- The kind. -/
  op : OperationKind
deriving DecidableEq, Repr

/-- The node of a key in the partitioned generators: `none` where `std::stoi` throws. The quotient
of two `int`s in `double` has the floor of the exact quotient. It is also `none` for
`keysPerNode = 0`: there the program divides by `0.0` and converts the result to `int`, which is
undefined, and goes on with whatever node that gives. -/
def nodeOfKey (numNodes keysPerNode : ℕ) (key : String) : Option ℤ :=
  if keysPerNode = 0 then none
  else (stoi key).map fun k => (k / (keysPerNode : ℤ)).tmod numNodes + 1

/-- One read of a key, sent to the node of the key. -/
def partitionedRead (numNodes keysPerNode : ℕ) (key : String) : Option Operation :=
  (nodeOfKey numNodes keysPerNode key).map fun node => ⟨key, node, .read⟩

/-- `generatePartitionedOperationSet`. -/
def generatePartitionedOperationSet (keys : List String) (numNodes totalOps : ℕ) :
    Option (List Operation) :=
  let keysPerNode := keys.length / numNodes
  (List.range totalOps).mapM fun i =>
    keys[i % keys.length]?.bind (partitionedRead numNodes keysPerNode)

/-- What `generateZipfianPartitionedOperationSet` computes and draws before its loop. -/
structure ZipfianDraw where
  /-- `numHotKeys`. -/
  numHotKeys : ℕ
  /-- `numColdKeys`. -/
  numColdKeys : ℕ
  /-- `hotKeyOps`. -/
  hotKeyOps : ℕ
  /-- `keyOrder`, shuffled. -/
  keyOrder : List ℕ
  /-- The values `rand` returns. -/
  rand : ℕ → ℕ

/-- `randomIndex` of the `i`-th operation: `none` where the remainder is one by zero or the index
lies outside `keyOrder`. -/
def ZipfianDraw.randomIndex (draw : ZipfianDraw) (i : ℕ) : Option ℕ :=
  if i < draw.hotKeyOps then
    if draw.numHotKeys = 0 then none
    else draw.keyOrder[draw.rand i % draw.numHotKeys]?
  else
    if draw.numColdKeys = 0 then none
    else draw.keyOrder[draw.numHotKeys + draw.rand i % draw.numColdKeys]?

/-- `generateZipfianPartitionedOperationSet`. -/
def generateZipfianPartitionedOperationSet (keys : List String) (numNodes totalOps : ℕ)
    (draw : ZipfianDraw) : Option (List Operation) :=
  let keysPerNode := keys.length / numNodes
  (List.range totalOps).mapM fun i =>
    (draw.randomIndex i).bind fun randomIndex =>
      keys[randomIndex]?.bind (partitionedRead numNodes keysPerNode)

/-- An operation that one of the two generators makes from the dataset file. -/
inductive Generated (opsConfig : Configuration) (operation : Operation) : Prop where
  /-- By `generatePartitionedOperationSet`. -/
  | partitioned {value : String} {totalOps : ℕ} {operations : List Operation}
      (hgenerate : generatePartitionedOperationSet
        (readKeysFromFile (createAndWriteDataset opsConfig.numKeyValuePairs value))
        opsConfig.numNodes totalOps = some operations)
      (hmem : operation ∈ operations)
  /-- By `generateZipfianPartitionedOperationSet`. -/
  | zipfian {value : String} {totalOps : ℕ} {draw : ZipfianDraw} {operations : List Operation}
      (hgenerate : generateZipfianPartitionedOperationSet
        (readKeysFromFile (createAndWriteDataset opsConfig.numKeyValuePairs value))
        opsConfig.numNodes totalOps draw = some operations)
      (hmem : operation ∈ operations)

/-- **The operation goes to the node that holds its key's block.** -/
def RoutedToPlacement (opsConfig : Configuration) (k : ℕ) (operation : Operation) : Prop :=
  ∃ node offset, calculateNodeAndOffset opsConfig k = some (node, offset) ∧
    operation.node - 1 = node

/-- The keys on which routing and placement agree: all of them on a single node; otherwise, with `q`
keys for each node, those up to `q * n` that are not a multiple of `q` and the first leftover keys,
fewer than `q` of them. -/
def RoutingAgreesAt (opsConfig : Configuration) (k : ℕ) : Prop :=
  let keysPerNode := opsConfig.numKeyValuePairs / opsConfig.numNodes
  opsConfig.numNodes = 1 ∨
    if k ≤ keysPerNode * opsConfig.numNodes then ¬ keysPerNode ∣ k
    else k < keysPerNode * opsConfig.numNodes + keysPerNode

/-! ## The node of a generated operation -/

/-- What a successful `mapM` holds was made by the function. -/
theorem exists_of_mem_mapM {α β : Type*} {f : α → Option β} {l : List α} {bs : List β} {b : β}
    (h : l.mapM f = some bs) (hb : b ∈ bs) : ∃ a ∈ l, f a = some b := by
  induction l generalizing bs with
  | nil =>
      rw [List.mapM_nil, Option.pure_def, Option.some.injEq] at h
      rw [← h] at hb
      exact absurd hb List.not_mem_nil
  | cons a l ih =>
      simp only [List.mapM_cons, Option.bind_eq_bind, Option.bind_eq_some_iff, Option.pure_def,
        Option.some.injEq] at h
      obtain ⟨b', ha, bs', hl, rfl⟩ := h
      rcases List.mem_cons.mp hb with rfl | hrest
      · exact ⟨a, List.mem_cons_self, ha⟩
      · obtain ⟨a', hmem, ha'⟩ := ih hl hrest
        exact ⟨a', List.mem_cons_of_mem _ hmem, ha'⟩

/-- A `mapM` succeeds when the function does on every element. -/
theorem exists_mapM_eq_some {α β : Type*} {f : α → Option β} {l : List α}
    (h : ∀ a ∈ l, ∃ b, f a = some b) : ∃ bs, l.mapM f = some bs := by
  induction l with
  | nil => exact ⟨[], rfl⟩
  | cons a l ih =>
      obtain ⟨b, hb⟩ := h a List.mem_cons_self
      obtain ⟨bs, hbs⟩ := ih fun a' ha' => h a' (List.mem_cons_of_mem _ ha')
      refine ⟨b :: bs, ?_⟩
      rw [List.mapM_cons, hb, hbs]
      rfl

/-- The partitioned generator makes an operation set of any size from a dataset whose keys are in
the range of `int` and that has a key for every node. -/
theorem exists_generatePartitionedOperationSet {opsConfig : Configuration}
    (hn : 1 ≤ opsConfig.numNodes) (hN : opsConfig.numNodes ≤ opsConfig.numKeyValuePairs)
    (hint : opsConfig.numKeyValuePairs < 2 ^ 31) (value : String) (totalOps : ℕ) :
    ∃ operations, generatePartitionedOperationSet
      (readKeysFromFile (createAndWriteDataset opsConfig.numKeyValuePairs value))
      opsConfig.numNodes totalOps = some operations := by
  apply exists_mapM_eq_some
  intro i _
  rw [length_readKeysFromFile]
  have hi : i % opsConfig.numKeyValuePairs
      < (readKeysFromFile (createAndWriteDataset opsConfig.numKeyValuePairs value)).length := by
    rw [length_readKeysFromFile]
    exact Nat.mod_lt _ (by omega)
  obtain ⟨k, hk, hkey⟩ := mem_readKeysFromFile.mp (List.getElem_mem hi)
  have hlast := hk.2
  have hq : opsConfig.numKeyValuePairs / opsConfig.numNodes ≠ 0 :=
    Nat.ne_of_gt (Nat.div_pos hN hn)
  rw [List.getElem?_eq_getElem hi, Option.bind_some, ← hkey, partitionedRead, nodeOfKey,
    if_neg hq, stoi_toString (by omega)]
  exact ⟨_, rfl⟩

/-- Both generators send an operation to the node of its key. -/
theorem Generated.nodeOfKey {opsConfig : Configuration} {operation : Operation}
    (h : Generated opsConfig operation) :
    nodeOfKey opsConfig.numNodes (opsConfig.numKeyValuePairs / opsConfig.numNodes) operation.key
      = some operation.node := by
  -- the last step of either loop
  have hread : ∀ key, partitionedRead opsConfig.numNodes
      (opsConfig.numKeyValuePairs / opsConfig.numNodes) key = some operation →
      Placement.nodeOfKey opsConfig.numNodes
        (opsConfig.numKeyValuePairs / opsConfig.numNodes) operation.key = some operation.node := by
    intro key hkey
    rw [partitionedRead, Option.map_eq_some_iff] at hkey
    obtain ⟨node, hnode, rfl⟩ := hkey
    exact hnode
  cases h with
  | partitioned hgenerate hmem =>
    rw [generatePartitionedOperationSet, length_readKeysFromFile] at hgenerate
    obtain ⟨i, -, hi⟩ := exists_of_mem_mapM hgenerate hmem
    obtain ⟨key, -, hkey⟩ := Option.bind_eq_some_iff.mp hi
    exact hread key hkey
  | zipfian hgenerate hmem =>
    rw [generateZipfianPartitionedOperationSet, length_readKeysFromFile] at hgenerate
    obtain ⟨i, -, hi⟩ := exists_of_mem_mapM hgenerate hmem
    obtain ⟨randomIndex, -, hindex⟩ := Option.bind_eq_some_iff.mp hi
    obtain ⟨key, -, hkey⟩ := Option.bind_eq_some_iff.mp hindex
    exact hread key hkey

/-- The node of a canonical key. -/
theorem eq_of_nodeOfKey_toString {numNodes keysPerNode k : ℕ} {node : ℤ}
    (h : nodeOfKey numNodes keysPerNode (toString k) = some node) :
    node - 1 = ((k / keysPerNode % numNodes : ℕ) : ℤ) := by
  unfold nodeOfKey at h
  split_ifs at h
  rw [Option.map_eq_some_iff] at h
  obtain ⟨value, hvalue, rfl⟩ := h
  obtain ⟨rfl, -⟩ := eq_of_stoi_toString hvalue
  rw [add_sub_cancel_right, ← Int.natCast_div, ← Int.ofNat_tmod]

/-! ## Where the two formulas agree -/

/-- Up to `q * n` the quotients of a key and its predecessor, the first modulo `n`, agree for a
single node and for keys that are not a multiple of `q`. -/
theorem div_mod_eq_pred_div_iff {q n k : ℕ} (hq : 0 < q) (hk : 1 ≤ k) (hle : k ≤ q * n) :
    k / q % n = (k - 1) / q ↔ n = 1 ∨ ¬ q ∣ k := by
  by_cases hdvd : q ∣ k
  · obtain ⟨j, rfl⟩ := hdvd
    have hj : 1 ≤ j := Nat.pos_of_mul_pos_left hk
    have hjn : j ≤ n := Nat.le_of_mul_le_mul_left hle hq
    have hpred : (q * j - 1) / q = j - 1 := by
      rw [Nat.div_eq_iff hq, Nat.mul_comm (j - 1) q, Nat.mul_sub_one]
      have hfirst : q ≤ q * j := Nat.le_mul_of_pos_right q hj
      omega
    rw [Nat.mul_div_cancel_left j hq, hpred, or_iff_left (not_not_intro (Nat.dvd_mul_right q j))]
    rcases Nat.lt_or_ge j n with hlt | hge
    · rw [Nat.mod_eq_of_lt hlt]
      omega
    · -- the last key of the last node wraps around to node 0
      rw [Nat.le_antisymm hjn hge, Nat.mod_self]
      omega
  · have hdiv : k / q = (k - 1) / q := by
      have hsucc : (k - 1 + 1) / q = (k - 1) / q + if q ∣ k - 1 + 1 then 1 else 0 := Nat.succ_div
      rw [Nat.sub_add_cancel hk, if_neg hdvd, Nat.add_zero] at hsucc
      exact hsucc
    have hlt : k / q < n := by
      rw [hdiv]
      apply Nat.div_lt_of_lt_mul
      omega
    rw [Nat.mod_eq_of_lt hlt, hdiv]
    simp only [hdvd, not_false_eq_true, or_true]

/-- Beyond `q * n`, by fewer than `n`, a key is routed to node `0` if it exceeds `q * n` by fewer
than `q`. -/
theorem div_mod_eq_zero_iff {q n k : ℕ} (hq : 0 < q) (hgt : q * n < k) (hlt : k < q * n + n) :
    k / q % n = 0 ↔ k < q * n + q := by
  obtain ⟨r, rfl⟩ := Nat.exists_eq_add_of_lt hgt
  have hsmall : (r + 1) / q < n := lt_of_le_of_lt (Nat.div_le_self _ _) (by omega)
  rw [Nat.add_assoc, Nat.mul_add_div hq, Nat.add_mod_left, Nat.mod_eq_of_lt hsmall,
    Nat.div_eq_zero_iff]
  omega

/-- **Where routing agrees with placement.** For every `N ≥ n ≥ 1`, every operation of either
generator on a key `k` of the dataset goes to the node that holds the block of `k` exactly when
there is a single node, or `k ≤ q * n` is not a multiple of `q = N / n`, or `k` exceeds `q * n` by
fewer than `q`. -/
theorem routing_agrees_iff {opsConfig : Configuration} (hn : 1 ≤ opsConfig.numNodes)
    (hN : opsConfig.numNodes ≤ opsConfig.numKeyValuePairs) {k : ℕ}
    (hk : k ∈ datasetKeys opsConfig) {operation : Operation}
    (hgenerated : Generated opsConfig operation) (hkey : operation.key = toString k) :
    RoutedToPlacement opsConfig k operation ↔ RoutingAgreesAt opsConfig k := by
  obtain ⟨hone, hlast⟩ := hk
  have hnode := hgenerated.nodeOfKey
  rw [hkey] at hnode
  have hrouted := eq_of_nodeOfKey_toString hnode
  have hq : 0 < opsConfig.numKeyValuePairs / opsConfig.numNodes := Nat.div_pos hN hn
  have hsplit := Nat.div_add_mod opsConfig.numKeyValuePairs opsConfig.numNodes
  have hmod := Nat.mod_lt opsConfig.numKeyValuePairs hn
  rw [Nat.mul_comm] at hsplit
  -- the node of the placement
  have hplaced : ∀ node offset, calculateNodeAndOffset opsConfig k = some (node, offset) →
      (RoutedToPlacement opsConfig k operation ↔
        k / (opsConfig.numKeyValuePairs / opsConfig.numNodes) % opsConfig.numNodes = node) := by
    intro node offset hplace
    rw [RoutedToPlacement, hplace, hrouted]
    constructor
    · rintro ⟨node', offset', heq, hsame⟩
      cases heq
      exact_mod_cast hsame
    · intro hsame
      exact ⟨node, offset, rfl, by rw [hsame]⟩
  rw [RoutingAgreesAt]
  split_ifs with hle
  · rw [hplaced _ _ (calculateNodeAndOffset_of_le hn hq hle)]
    exact div_mod_eq_pred_div_iff hq hone hle
  · have hgt := Nat.not_le.mp hle
    rw [hplaced _ _ (calculateNodeAndOffset_of_gt hn hgt), div_mod_eq_zero_iff hq hgt (by omega)]
    constructor
    · exact Or.inr
    · rintro (hsingle | hfew)
      · -- a single node has no leftover keys
        rw [hsingle, Nat.mod_one] at hsplit
        rw [hsingle] at hgt
        omega
      · exact hfew

/-- Four keys on two nodes: the read of key `1` goes to the node of its block. -/
theorem routing_agrees_iff_first_key : RoutedToPlacement ⟨4, 2⟩ 1 ⟨"1", 1, .read⟩ :=
  (@routing_agrees_iff ⟨4, 2⟩ (by decide) (by decide) 1 ⟨by decide, by decide⟩ ⟨"1", 1, .read⟩
    (@Generated.partitioned ⟨4, 2⟩ _ "A" 1 _ rfl List.mem_cons_self) rfl).mpr
      (Or.inr (by decide : ¬ 2 ∣ 1))

/-- With four keys on two nodes, the read of key `2` is sent to the second node, while the block of
key `2` is on the first one. -/
theorem second_key_misrouted : ¬ ∀ (opsConfig : Configuration), 1 ≤ opsConfig.numNodes →
    opsConfig.numNodes ≤ opsConfig.numKeyValuePairs → ∀ k ∈ datasetKeys opsConfig,
    ∀ operation, Generated opsConfig operation → operation.key = toString k →
      RoutedToPlacement opsConfig k operation := by
  intro h
  have hgenerated : Generated ⟨4, 2⟩ ⟨"2", 2, .read⟩ :=
    @Generated.partitioned ⟨4, 2⟩ _ "A" 2 [⟨"1", 1, .read⟩, ⟨"2", 2, .read⟩] rfl
      (List.mem_cons_of_mem _ List.mem_cons_self)
  obtain ⟨node, offset, hplace, hnode⟩ := h ⟨4, 2⟩ (by decide) (by decide) 2
    ⟨by decide, by decide⟩ ⟨"2", 2, .read⟩ hgenerated rfl
  have hfirst : calculateNodeAndOffset ⟨4, 2⟩ 2 = some (0, 1) := by decide
  rw [hfirst] at hplace
  cases hplace
  exact absurd hnode (by decide)

end TwigKV.Placement
