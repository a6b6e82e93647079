import TwigKV.Workload.GeneratorRounds
import Mathlib.Data.List.Nodup
import Mathlib.Logic.Equiv.Basic

/-! # The generators for all nodes

The random generator is well-formed. The Zipfian one needs hot keys and cold keys to draw from, the
partitioned one keys for every node and keys whose node is in range; in both partitioned generators
an exception ends the loop, so only what is drawn before counts. -/

namespace TwigKV.Workload

open TwigKV.Traces (Operation)

variable {keys : List String} {config : GeneratorConfig}

/-! ## The random and the partitioned generator -/

/-- What an emitted operation should be where there are no hot keys. -/
theorem emittedWell_iff {distribution : DistributionType} {keys : List String}
    {config : GeneratorConfig} {random : RandomStream} {i : ℕ} {key : String} {node : Int32}
    (h : hotOrder distribution keys config random = none) :
    EmittedWell distribution keys config random i ⟨key, node, 'R'⟩ ↔
      key ∈ keys ∧ 1 ≤ node.toInt ∧ node.toInt ≤ config.numNodes := by
  refine ⟨fun hwell => ⟨hwell.key_mem, hwell.node⟩, fun hwell => ⟨rfl, hwell.1, hwell.2, ?_⟩⟩
  intro order horder
  rw [h] at horder
  cases horder

/-- The generator of random operations is well-formed. -/
theorem wellFormed_random (hkeys : keys ≠ []) (hone : 1 ≤ config.numNodes)
    (hn : config.numNodes < 2 ^ 31) : WellFormed .randomDistribution keys config := by
  intro random
  have hlength := List.length_pos_iff.mpr hkeys
  have hnone : hotOrder .randomDistribution keys config random = none := rfl
  rw [generateOperationSet, generateRandomOperationSet, emit_fine_iff]
  intro i _ _
  simp only [randomRound, fine_bind, fine_pure, fine_modulo, fine_element, fine_randomNode,
    emittedWell_iff hnone]
  have hindex := Nat.mod_lt (random.rand (2 * i)) hlength
  exact ⟨Nat.ne_of_gt hlength, _, List.getElem?_eq_getElem hindex, Nat.ne_of_gt hone,
    List.getElem_mem hindex, randomNode_mem hone hn _⟩

/-- A round of the partitioned generator reads the next key, over and over. -/
theorem partitionedRound_eq (hkeys : keys ≠ []) (i : ℕ) : partitionedRound keys config i
    = (nodeOfKey config.numNodes (keys.length / config.numNodes)
        (keys.getD (i % keys.length) "")).map
      fun node => ⟨keys.getD (i % keys.length) "", node, 'R'⟩ := by
  have hlength := List.length_pos_iff.mpr hkeys
  have hindex : modulo i keys.length = .ok (i % keys.length) := if_neg (Nat.ne_of_gt hlength)
  have hkey : element keys (i % keys.length) = .ok (keys.getD (i % keys.length) "") := by
    have hget := List.getElem?_eq_getElem (Nat.mod_lt i hlength)
    rw [element, List.getD_eq_getElem?_getD, hget]
    rfl
  simp only [partitionedRound, hindex, hkey, bind, Except.bind]
  cases nodeOfKey config.numNodes (keys.length / config.numNodes)
    (keys.getD (i % keys.length) "") with
  | error stop => rfl
  | ok node => rfl

/-- The condition of the partitioned generator: up to the first key that is no number, every node
has keys and the node of a key is in range. -/
def PartitionedWhen (keys : List String) (config : GeneratorConfig) : Prop :=
  ∀ i < config.totalOperations, (∀ j < i, (stoi (keys.getD (j % keys.length) "")).isSome) →
    ∀ k, stoi (keys.getD (i % keys.length) "") = some k →
      config.numNodes ≤ keys.length ∧ NodeInRange config.numNodes (keys.length / config.numNodes) k

/-- The partitioned generator. -/
theorem wellFormed_partitioned_iff (hkeys : keys ≠ []) (hone : 1 ≤ config.numNodes)
    (hn : config.numNodes < 2 ^ 31) :
    WellFormed .partitionedDistribution keys config ↔ PartitionedWhen keys config := by
  have hlength := List.length_pos_iff.mpr hkeys
  have hmem : ∀ i, keys.getD (i % keys.length) "" ∈ keys := by
    intro i
    rw [List.getD_eq_getElem?_getD, List.getElem?_eq_getElem (Nat.mod_lt i hlength)]
    exact List.getElem_mem _
  -- a round is fine when the node of its key is one of the nodes, if the key is a number
  have hfine : ∀ random i, Fine Stop.IsException (EmittedWell .partitionedDistribution keys config
      random i) (partitionedRound keys config i) ↔
      ∀ k, stoi (keys.getD (i % keys.length) "") = some k → config.numNodes ≤ keys.length ∧
        NodeInRange config.numNodes (keys.length / config.numNodes) k := by
    intro random i
    have hnone : hotOrder .partitionedDistribution keys config random = none := rfl
    rw [partitionedRound_eq hkeys, fine_map, fine_nodeOfKey]
    refine forall₂_congr fun k _ => ?_
    rw [emittedWell_iff hnone, Nat.div_ne_zero_iff]
    constructor
    · rintro ⟨hq, -, hnode⟩
      exact ⟨hq.2, (nodeOfKey_mem_iff hone hn (Nat.div_ne_zero_iff.mpr hq) k).mp hnode⟩
    · rintro ⟨hle, hrange⟩
      have hq : config.numNodes ≠ 0 ∧ config.numNodes ≤ keys.length := ⟨by omega, hle⟩
      exact ⟨hq, hmem i, (nodeOfKey_mem_iff hone hn (Nat.div_ne_zero_iff.mpr hq) k).mpr hrange⟩
  -- a round is reached when all keys before it are numbers and every node has keys
  have hok : ∀ i, (∃ b, partitionedRound keys config i = .ok b) ↔
      (stoi (keys.getD (i % keys.length) "")).isSome ∧ keys.length / config.numNodes ≠ 0 := by
    intro i
    rw [partitionedRound_eq hkeys, exists_map_eq_ok, nodeOfKey_ok_iff]
  constructor
  · intro h i hi hnumbers k hk
    have hloop := (emit_fine_iff _ _ _ _).mp (h .zeros)
    refine (hfine .zeros i).mp (hloop i hi fun j hj => (hok j).mpr ⟨hnumbers j hj, ?_⟩) k hk
    obtain ⟨k₀, hk₀⟩ := Option.isSome_iff_exists.mp (hnumbers 0 (Nat.zero_lt_of_lt hj))
    have hfirst := (hfine .zeros 0).mp (hloop 0 (Nat.zero_lt_of_lt hi) (reached_zero _)) k₀ hk₀
    exact Nat.div_ne_zero_iff.mpr ⟨by omega, hfirst.1⟩
  · intro h random
    rw [generateOperationSet, generatePartitionedOperationSet, emit_fine_iff]
    intro i hi hreached
    exact (hfine random i).mpr (h i hi fun j hj => ((hok j).mp (hreached j hj)).1)

/-! ## The Zipfian generator -/

/-- The key at a position of the shuffled order. -/
theorem exists_shuffled (random : RandomStream) {p : ℕ} (hp : p < keys.length) :
    ∃ index key, (random.shuffle keys.length)[p]? = some index ∧ keys[index]? = some key ∧
      ((random.shuffle keys.length).map fun i => keys.getD i "")[p]? = some key := by
  have hperm := random.shuffle_perm keys.length
  have hp' : p < (random.shuffle keys.length).length := by
    rw [hperm.length_eq, List.length_range]
    exact hp
  have hindex : (random.shuffle keys.length)[p] < keys.length :=
    List.mem_range.mp (hperm.mem_iff.mp (List.getElem_mem hp'))
  refine ⟨_, _, List.getElem?_eq_getElem hp', List.getElem?_eq_getElem hindex, ?_⟩
  rw [List.getElem?_map, List.getElem?_eq_getElem hp', Option.map_some,
    List.getD_eq_getElem?_getD, List.getElem?_eq_getElem hindex, Option.getD_some]

/-- A round of the Zipfian generator throws no exception. -/
theorem noException_zipfianRound (random : RandomStream) (i : ℕ) :
    NoException (zipfianRound keys config random i) :=
  noException_bind noException_hotOrColdIndex fun _ => noException_bind (noException_element _ _)
    fun _ => noException_bind (noException_element _ _) fun _ =>
      noException_bind noException_randomNode fun _ => noException_pure _

/-- The Zipfian generator. -/
theorem wellFormed_zipfian_iff (hone : 1 ≤ config.numNodes) (hn : config.numNodes < 2 ^ 31) :
    WellFormed .zipfianDistribution keys config ↔
      EnoughKeys config (config.hotKeyCount keys.length) keys.length := by
  rw [enoughKeys_iff]
  constructor
  · intro h i hi
    have hloop := h .zeros
    rw [generateOperationSet, generateZipfianOperationSet,
      emit_fine_iff_forall (noException_zipfianRound .zeros)] at hloop
    have hround := hloop i hi
    rw [zipfianRound, fine_bind] at hround
    exact hotOrCold_of_fine hround
  · intro h random
    rw [generateOperationSet, generateZipfianOperationSet, emit_fine_iff]
    intro i hi _
    rw [zipfianRound, fine_bind]
    refine fine_hotOrColdIndex_of (config.hotKeyCount_le _) (h i hi) fun p hp hpos => ?_
    obtain ⟨index, key, hindex, hkey, horder⟩ := exists_shuffled random hp
    simp only [fine_bind, fine_pure, fine_element, fine_randomNode]
    refine ⟨index, hindex, key, hkey, Nat.ne_of_gt hone, rfl, List.mem_of_getElem? hkey,
      randomNode_mem hone hn _, ?_⟩
    rintro order horder'
    cases horder'
    exact mem_of_getElem?_hot horder hpos

/-! ## The Zipfian partitioned generator -/

/-- A round that draws the key at a position of the order. -/
theorem zipfianPartitionedRound_eq {random : RandomStream} {i p index : ℕ} {key : String}
    (hp : hotOrColdIndex (config.hotKeyCount keys.length)
      (keys.length - config.hotKeyCount keys.length) config.hotKeyOps i (random.rand i) = .ok p)
    (hindex : (random.shuffle keys.length)[p]? = some index) (hkey : keys[index]? = some key) :
    zipfianPartitionedRound keys config random i
      = (nodeOfKey config.numNodes (keys.length / config.numNodes) key).map
        fun node => ⟨key, node, 'R'⟩ := by
  simp only [zipfianPartitionedRound, hp, element, hindex, hkey, bind, Except.bind]
  cases nodeOfKey config.numNodes (keys.length / config.numNodes) key with
  | error stop => rfl
  | ok node => rfl

/-- Such a round returns if the key is a number and every node has keys. -/
theorem zipfianPartitionedRound_ok_iff {random : RandomStream} {i p index : ℕ} {key : String}
    (hp : hotOrColdIndex (config.hotKeyCount keys.length)
      (keys.length - config.hotKeyCount keys.length) config.hotKeyOps i (random.rand i) = .ok p)
    (hindex : (random.shuffle keys.length)[p]? = some index) (hkey : keys[index]? = some key) :
    (∃ b, zipfianPartitionedRound keys config random i = .ok b) ↔
      (stoi key).isSome ∧ keys.length / config.numNodes ≠ 0 := by
  rw [zipfianPartitionedRound_eq hp hindex hkey, exists_map_eq_ok, nodeOfKey_ok_iff]

/-- The stream of zeros that exchanges two positions of a number of keys. -/
def RandomStream.exchange (numKeys p index : ℕ) (hp : p < numKeys) (hindex : index < numKeys) :
    RandomStream where
  rand _ := 0
  shuffle n := if n = numKeys then (List.range n).map (Equiv.swap p index) else List.range n
  shuffle_perm n := by
    split
    · next h =>
      subst h
      refine (List.perm_ext_iff_of_nodup (List.Nodup.map (Equiv.injective _) List.nodup_range)
        List.nodup_range).mpr fun a => ?_
      have hlt : ∀ x < n, Equiv.swap p index x < n := by
        intro x hx
        rw [Equiv.swap_apply_def]
        split
        · exact hindex
        · split
          · exact hp
          · exact hx
      rw [List.mem_map, List.mem_range]
      constructor
      · rintro ⟨x, hx, rfl⟩
        exact hlt x (List.mem_range.mp hx)
      · exact fun ha => ⟨Equiv.swap p index a, List.mem_range.mpr (hlt a ha),
          Equiv.swap_apply_self p index a⟩
    · exact List.Perm.refl _

/-- It brings the key at one position to the other. -/
theorem getElem?_shuffle_exchange {numKeys p index : ℕ} (hp : p < numKeys)
    (hindex : index < numKeys) :
    ((RandomStream.exchange numKeys p index hp hindex).shuffle numKeys)[p]? = some index := by
  have hshuffle : (RandomStream.exchange numKeys p index hp hindex).shuffle numKeys
      = (List.range numKeys).map (Equiv.swap p index) := if_pos rfl
  rw [hshuffle, List.getElem?_map, List.getElem?_range hp, Option.map_some, Equiv.swap_apply_left]

/-- What a fine round of the Zipfian partitioned generator says about the key it draws. -/
theorem number_of_fine_round (hone : 1 ≤ config.numNodes) (hn : config.numNodes < 2 ^ 31)
    {random : RandomStream} {i p index : ℕ} {key : String}
    (hp : hotOrColdIndex (config.hotKeyCount keys.length)
      (keys.length - config.hotKeyCount keys.length) config.hotKeyOps i (random.rand i) = .ok p)
    (hindex : (random.shuffle keys.length)[p]? = some index) (hkey : keys[index]? = some key)
    (hfine : Fine Stop.IsException
      (EmittedWell .zipfianPartitionedDistribution keys config random i)
      (zipfianPartitionedRound keys config random i)) {k : ℤ} (hk : stoi key = some k) :
    config.numNodes ≤ keys.length ∧
      NodeInRange config.numNodes (keys.length / config.numNodes) k := by
  rw [zipfianPartitionedRound_eq hp hindex hkey, fine_map, fine_nodeOfKey] at hfine
  obtain ⟨hq, hwell⟩ := hfine k hk
  exact ⟨(Nat.div_ne_zero_iff.mp hq).2, (nodeOfKey_mem_iff hone hn hq k).mp hwell.node⟩

/-- A fine round of the Zipfian partitioned generator had keys to draw from. -/
theorem hotOrCold_of_fine_round {random : RandomStream} {i : ℕ} {P : Operation → Prop}
    (hfine : Fine Stop.IsException P (zipfianPartitionedRound keys config random i)) :
    if i < config.hotKeyOps then 0 < config.hotKeyCount keys.length
      else config.hotKeyCount keys.length < keys.length := by
  rw [zipfianPartitionedRound, fine_bind] at hfine
  exact hotOrCold_of_fine hfine

/-- The condition of the Zipfian partitioned generator, if it makes any operation: the first can be
drawn, and if a key is a number, the others can be drawn, every node has keys, and the node of the
key is in range. -/
structure ZipfianPartitionedWhen (keys : List String) (config : GeneratorConfig) : Prop where
  /-- Hot keys. -/
  hot : 0 < config.hotKeyOps → 0 < config.hotKeyCount keys.length
  /-- Cold keys, for the first operation. -/
  cold : config.hotKeyOps = 0 → config.hotKeyCount keys.length < keys.length
  /-- The keys that are numbers. -/
  number : ∀ key ∈ keys, ∀ k, stoi key = some k →
    (config.hotKeyOps < config.totalOperations → config.hotKeyCount keys.length < keys.length) ∧
    config.numNodes ≤ keys.length ∧ NodeInRange config.numNodes (keys.length / config.numNodes) k

/-- A well-formed Zipfian partitioned generator that makes operations. The streams of zeros that
bring a key to the position drawn first show what the key needs. -/
theorem zipfianPartitionedWhen_of_wellFormed (hone : 1 ≤ config.numNodes)
    (hn : config.numNodes < 2 ^ 31) (hops : 0 < config.totalOperations)
    (h : WellFormed .zipfianPartitionedDistribution keys config) :
    ZipfianPartitionedWhen keys config := by
  have hloop := fun random => (emit_fine_iff _ _ _ _).mp (h random)
  have hfirst := hotOrCold_of_fine_round (hloop .zeros 0 hops (reached_zero _))
  have hcount := config.hotKeyCount_le keys.length
  refine ⟨fun hhot => ?_, fun hcold => ?_, fun key hkey k hk => ?_⟩
  · rwa [if_pos hhot] at hfirst
  · rwa [if_neg (by omega)] at hfirst
  · obtain ⟨index, hindex, hget⟩ := List.getElem_of_mem hkey
    have hget? : keys[index]? = some key := by rw [List.getElem?_eq_getElem hindex, hget]
    -- the position drawn in round zero, and in the other hot rounds
    have hp : (if 0 < config.hotKeyOps then 0 else config.hotKeyCount keys.length)
        < keys.length := by
      split
      · exact Nat.zero_lt_of_lt hindex
      · next hcold => rwa [if_neg hcold] at hfirst
    obtain ⟨random, hrandom⟩ :
        ∃ random, random = RandomStream.exchange keys.length _ index hp hindex :=
      ⟨_, rfl⟩
    have hshuffle : (random.shuffle keys.length)[if 0 < config.hotKeyOps then 0
        else config.hotKeyCount keys.length]? = some index := by
      rw [hrandom]
      exact getElem?_shuffle_exchange hp hindex
    have hdraw : ∀ i, (0 < i → i < config.hotKeyOps) →
        hotOrColdIndex (config.hotKeyCount keys.length)
          (keys.length - config.hotKeyCount keys.length) config.hotKeyOps i (random.rand i)
        = .ok (if 0 < config.hotKeyOps then 0 else config.hotKeyCount keys.length) := by
      rw [hrandom]
      exact fun i hi => hotOrColdIndex_zero_eq hfirst hi
    have hnode := number_of_fine_round hone hn (hdraw 0 (by omega)) hshuffle hget?
      (hloop random 0 hops (reached_zero _)) hk
    refine ⟨fun hlast => ?_, hnode⟩
    -- all hot rounds return, so the first cold round is reached
    have hreached : Reached (zipfianPartitionedRound keys config random) config.hotKeyOps := by
      refine fun i hi =>
        (zipfianPartitionedRound_ok_iff (hdraw i fun _ => hi) hshuffle hget?).mpr ?_
      rw [hk]
      exact ⟨rfl, Nat.div_ne_zero_iff.mpr ⟨by omega, hnode.1⟩⟩
    have hcold := hotOrCold_of_fine_round (hloop random _ hlast hreached)
    rwa [if_neg (Nat.lt_irrefl _)] at hcold

/-- The Zipfian partitioned generator. -/
theorem wellFormed_zipfianPartitioned_iff (hone : 1 ≤ config.numNodes)
    (hn : config.numNodes < 2 ^ 31) : WellFormed .zipfianPartitionedDistribution keys config ↔
      (0 < config.totalOperations → ZipfianPartitionedWhen keys config) := by
  refine ⟨fun h hops => zipfianPartitionedWhen_of_wellFormed hone hn hops h, fun h random => ?_⟩
  rw [generateOperationSet, generateZipfianPartitionedOperationSet, emit_fine_iff]
  intro i hi hreached
  have hwhen := h (Nat.zero_lt_of_lt hi)
  have hcount := config.hotKeyCount_le keys.length
  have hdrawn : if i < config.hotKeyOps then 0 < config.hotKeyCount keys.length
      else config.hotKeyCount keys.length < keys.length := by
    split
    · next hhot => exact hwhen.hot (Nat.zero_lt_of_lt hhot)
    · next hcold =>
      rcases Nat.eq_zero_or_pos config.hotKeyOps with hnone | hsome
      · exact hwhen.cold hnone
      · -- round zero drew a hot key that is a number
        have hhot := hwhen.hot hsome
        have hp : hotOrColdIndex (config.hotKeyCount keys.length)
            (keys.length - config.hotKeyCount keys.length) config.hotKeyOps 0 (random.rand 0)
            = .ok (random.rand 0 % config.hotKeyCount keys.length) := by
          rw [hotOrColdIndex, if_pos hsome, modulo, if_neg (Nat.ne_of_gt hhot)]
        obtain ⟨index, key, hindex, hkey, -⟩ := @exists_shuffled keys random _
          (Nat.lt_of_lt_of_le (Nat.mod_lt (random.rand 0) hhot) hcount)
        have hnumber := ((zipfianPartitionedRound_ok_iff hp hindex hkey).mp
          (hreached 0 (by omega))).1
        obtain ⟨k, hk⟩ := Option.isSome_iff_exists.mp hnumber
        exact (hwhen.number key (List.mem_of_getElem? hkey) k hk).1 (by omega)
  rw [zipfianPartitionedRound, fine_bind]
  refine fine_hotOrColdIndex_of hcount hdrawn fun p hp hpos => ?_
  obtain ⟨index, key, hindex, hkey, horder⟩ := exists_shuffled random hp
  simp only [fine_bind, fine_pure, fine_element, fine_nodeOfKey]
  refine ⟨index, hindex, key, hkey, fun k hk => ?_⟩
  obtain ⟨-, hle, hrange⟩ := hwhen.number key (List.mem_of_getElem? hkey) k hk
  have hq : keys.length / config.numNodes ≠ 0 := Nat.div_ne_zero_iff.mpr ⟨by omega, hle⟩
  refine ⟨hq, rfl, List.mem_of_getElem? hkey, (nodeOfKey_mem_iff hone hn hq k).mpr hrange, ?_⟩
  rintro order horder'
  cases horder'
  exact mem_of_getElem?_hot horder hpos

/-! ## The operations that are routed

`Placement.OperationRouting` has the two partitioned generators as far as they make an operation
set, with exact nodes. What it says about these operations is about the ones emitted here. -/

/-- A read as the generators emit it. -/
def emittedRead (operation : Placement.Operation) : Operation :=
  ⟨operation.key, Int32.ofInt operation.node, 'R'⟩

/-- A read sent to the node of its key. -/
theorem nodeOfKey_of_partitionedRead {numNodes keysPerNode : ℕ} {key : String}
    {operation : Placement.Operation}
    (h : Placement.partitionedRead numNodes keysPerNode key = some operation) :
    (nodeOfKey numNodes keysPerNode key).map (fun node => ⟨key, node, 'R'⟩)
      = .ok (emittedRead operation) := by
  obtain ⟨node, hnode, rfl⟩ := Option.map_eq_some_iff.mp h
  have hnumber : ¬ (stoi key).isNone := by
    rw [Placement.nodeOfKey] at hnode
    split at hnode
    · cases hnode
    · obtain ⟨k, hk, -⟩ := Option.map_eq_some_iff.mp hnode
      rw [hk]
      exact Bool.false_ne_true
  rw [nodeOfKey, if_neg hnumber, hnode]
  rfl

/-- The partitioned generator emits the operations that are routed. -/
theorem generatePartitionedOperationSet_eq {operations : List Placement.Operation}
    (h : Placement.generatePartitionedOperationSet keys config.numNodes config.totalOperations
      = some operations) :
    generatePartitionedOperationSet keys config = ⟨operations.map emittedRead, none⟩ := by
  refine emit_of_mapM (fun i operation hround => ?_) h
  obtain ⟨key, hkey, hread⟩ := Option.bind_eq_some_iff.mp hround
  have hkeys : keys ≠ [] := by
    rintro rfl
    cases hkey
  rw [partitionedRound_eq hkeys, List.getD_eq_getElem?_getD, hkey]
  exact nodeOfKey_of_partitionedRead hread

/-- What the Zipfian partitioned generator computes and draws. -/
def zipfianDraw (keys : List String) (config : GeneratorConfig) (random : RandomStream) :
    Placement.ZipfianDraw :=
  ⟨config.hotKeyCount keys.length, keys.length - config.hotKeyCount keys.length, config.hotKeyOps,
    random.shuffle keys.length, random.rand⟩

/-- It draws the position that is drawn here. -/
theorem exists_of_randomIndex {random : RandomStream} {i index : ℕ}
    (h : (zipfianDraw keys config random).randomIndex i = some index) :
    ∃ p, hotOrColdIndex (config.hotKeyCount keys.length)
      (keys.length - config.hotKeyCount keys.length) config.hotKeyOps i (random.rand i) = .ok p ∧
      (random.shuffle keys.length)[p]? = some index := by
  rw [Placement.ZipfianDraw.randomIndex, zipfianDraw] at h
  rw [hotOrColdIndex, modulo, modulo]
  by_cases hhot : i < config.hotKeyOps
  · rw [if_pos hhot] at h
    by_cases hkeys : config.hotKeyCount keys.length = 0
    · rw [if_pos hkeys] at h
      cases h
    · rw [if_neg hkeys] at h
      exact ⟨_, by rw [if_pos hhot, if_neg hkeys], h⟩
  · rw [if_neg hhot] at h
    by_cases hkeys : keys.length - config.hotKeyCount keys.length = 0
    · rw [if_pos hkeys] at h
      cases h
    · rw [if_neg hkeys] at h
      exact ⟨_, by rw [if_neg hhot, if_neg hkeys]; rfl, h⟩

/-- The Zipfian partitioned generator emits the operations that are routed. -/
theorem generateZipfianPartitionedOperationSet_eq {random : RandomStream}
    {operations : List Placement.Operation}
    (h : Placement.generateZipfianPartitionedOperationSet keys config.numNodes
      config.totalOperations (zipfianDraw keys config random) = some operations) :
    generateZipfianPartitionedOperationSet keys config random
      = ⟨operations.map emittedRead, none⟩ := by
  refine emit_of_mapM (fun i operation hround => ?_) h
  obtain ⟨index, hindex, hround⟩ := Option.bind_eq_some_iff.mp hround
  obtain ⟨key, hkey, hread⟩ := Option.bind_eq_some_iff.mp hround
  obtain ⟨p, hp, hshuffle⟩ := exists_of_randomIndex hindex
  rw [zipfianPartitionedRound_eq hp hshuffle hkey]
  exact nodeOfKey_of_partitionedRead hread

end TwigKV.Workload
