import TwigKV.Workload.Generators

/-! # The rounds of the generators

What the steps of a round need: a divisor, an element, a node, a number in a key, hot keys or cold
keys to draw from. The node of a random operation is one of the nodes; that of a key is unless the
key is negative (`nodeOfKey_mem_iff`). -/

namespace TwigKV.Workload

/-! ## The steps -/

section Steps

variable {numNodes keysPerNode numHotKeys numColdKeys hotKeyOps i drawn : ℕ}

/-- A remainder needs a divisor. -/
theorem fine_modulo {P : ℕ → Prop} (a b : ℕ) :
    Fine Stop.IsException P (modulo a b) ↔ b ≠ 0 ∧ P (a % b) := by
  rw [modulo]
  split
  · next h => exact ⟨fun hfine => Stop.noConfusion hfine, fun hfine => absurd h hfine.1⟩
  · next h => exact ⟨fun hfine => ⟨h, hfine⟩, fun hfine => hfine.2⟩

/-- A position needs an element. -/
theorem fine_element {α : Type} {P : α → Prop} (vector : List α) (i : ℕ) :
    Fine Stop.IsException P (element vector i) ↔ ∃ a, vector[i]? = some a ∧ P a := by
  rw [element]
  cases vector[i]? with
  | none =>
    refine ⟨fun hfine => Stop.noConfusion hfine, ?_⟩
    rintro ⟨a, h, -⟩
    cases h
  | some a =>
    refine ⟨fun hfine => ⟨a, rfl, hfine⟩, ?_⟩
    rintro ⟨a', h, hfine⟩
    cases h
    exact hfine

/-- A random node needs a node. -/
theorem fine_randomNode {P : Int32 → Prop} :
    Fine Stop.IsException P (randomNode numNodes drawn) ↔
      numNodes ≠ 0 ∧ P (Int32.ofInt ((drawn % numNodes : ℕ) + 1)) := by
  rw [randomNode, fine_bind, fine_modulo]
  rfl

/-- The node of a key needs keys for every node, if the key is a number. -/
theorem fine_nodeOfKey {P : Int32 → Prop} {key : String} :
    Fine Stop.IsException P (nodeOfKey numNodes keysPerNode key) ↔
      ∀ k, stoi key = some k → keysPerNode ≠ 0 ∧
        P (Int32.ofInt ((k / (keysPerNode : ℤ)).tmod numNodes + 1)) := by
  rw [nodeOfKey, Placement.nodeOfKey]
  cases stoi key with
  | none =>
    refine ⟨fun _ k hk => ?_, fun _ => rfl⟩
    cases hk
  | some k =>
    rw [Option.isNone_some, if_neg Bool.false_ne_true]
    by_cases hq : keysPerNode = 0
    · rw [if_pos hq]
      exact ⟨fun hfine => Stop.noConfusion hfine, fun h => absurd hq (h k rfl).1⟩
    · rw [if_neg hq]
      refine ⟨fun hfine k' hk' => ?_, fun h => (h k rfl).2⟩
      cases hk'
      exact ⟨hq, hfine⟩

/-- A key has a node if it is a number and every node has keys. -/
theorem nodeOfKey_ok_iff {numNodes keysPerNode : ℕ} {key : String} :
    (∃ node, nodeOfKey numNodes keysPerNode key = .ok node) ↔
      (stoi key).isSome ∧ keysPerNode ≠ 0 := by
  rw [nodeOfKey, Placement.nodeOfKey]
  cases stoi key with
  | none => simp
  | some k =>
    by_cases hq : keysPerNode = 0
    · simp [hq]
    · simp [hq]

/-- The position of a hot key needs hot keys, that of a cold key cold ones. -/
theorem fine_hotOrColdIndex {P : ℕ → Prop} :
    Fine Stop.IsException P (hotOrColdIndex numHotKeys numColdKeys hotKeyOps i drawn) ↔
      if i < hotKeyOps then numHotKeys ≠ 0 ∧ P (drawn % numHotKeys)
      else numColdKeys ≠ 0 ∧ P (numHotKeys + drawn % numColdKeys) := by
  rw [hotOrColdIndex]
  split
  · rw [fine_modulo]
  · rw [fine_bind, fine_modulo]
    rfl

/-- A round that throws no exception. -/
abbrev NoException {α : Type} (x : Except Stop α) : Prop :=
  Fine (fun stop => ¬ stop.IsException) (fun _ => True) x

/-- A remainder throws none. -/
theorem noException_modulo (a b : ℕ) : NoException (modulo a b) := by
  unfold modulo
  split
  · exact Stop.noConfusion
  · trivial

/-- A position throws none. -/
theorem noException_element {α : Type} (vector : List α) (i : ℕ) :
    NoException (element vector i) := by
  unfold element
  split
  · exact Stop.noConfusion
  · trivial

/-- A round that returns throws none. -/
theorem noException_pure {α : Type} (a : α) : NoException (pure a) := trivial

/-- Steps that throw none. -/
theorem noException_bind {α β : Type} {x : Except Stop α} {g : α → Except Stop β}
    (hx : NoException x) (hg : ∀ a, NoException (g a)) : NoException (x >>= g) :=
  (fine_bind _ _ x g).mpr (hx.imp fun a _ => hg a)

/-- A random node throws none. -/
theorem noException_randomNode : NoException (randomNode numNodes drawn) :=
  noException_bind (noException_modulo _ _) fun _ => noException_pure _

/-- A hot or cold position throws none. -/
theorem noException_hotOrColdIndex :
    NoException (hotOrColdIndex numHotKeys numColdKeys hotKeyOps i drawn) := by
  unfold hotOrColdIndex
  split
  · exact noException_modulo _ _
  · exact noException_bind (noException_modulo _ _) fun _ => noException_pure _

end Steps

/-! ## Nodes -/

/-- A small number is read back from an `int`. -/
theorem node_mem_iff {numNodes : ℕ} (hn : numNodes < 2 ^ 31) {node : ℤ} (hlow : -2 ^ 31 ≤ node)
    (hhigh : node ≤ numNodes) : (1 ≤ (Int32.ofInt node).toInt ∧
      (Int32.ofInt node).toInt ≤ numNodes) ↔ 1 ≤ node := by
  rw [Int32.toInt_ofInt_of_le hlow (by omega)]
  exact and_iff_left hhigh

/-- A random node is one of the nodes. -/
theorem randomNode_mem {numNodes : ℕ} (hone : 1 ≤ numNodes) (hn : numNodes < 2 ^ 31) (drawn : ℕ) :
    1 ≤ (Int32.ofInt ((drawn % numNodes : ℕ) + 1)).toInt ∧
      (Int32.ofInt ((drawn % numNodes : ℕ) + 1)).toInt ≤ numNodes := by
  have hlt := Nat.mod_lt drawn hone
  exact (node_mem_iff hn (by omega) (by omega)).mpr (by omega)

/-- The node that a partitioned generator computes for a key `k` is one of the nodes: the key is not
negative, or its quotient a multiple of the number of nodes. -/
def NodeInRange (numNodes keysPerNode : ℕ) (k : ℤ) : Prop :=
  0 ≤ k ∨ (numNodes : ℤ) ∣ k / keysPerNode

/-- When the node of a key is one of the nodes. -/
theorem nodeOfKey_mem_iff {numNodes keysPerNode : ℕ} (hone : 1 ≤ numNodes)
    (hn : numNodes < 2 ^ 31) (hq : keysPerNode ≠ 0) (k : ℤ) :
    (1 ≤ (Int32.ofInt ((k / (keysPerNode : ℤ)).tmod numNodes + 1)).toInt ∧
      (Int32.ofInt ((k / (keysPerNode : ℤ)).tmod numNodes + 1)).toInt ≤ numNodes) ↔
        NodeInRange numNodes keysPerNode k := by
  have hpos : (0 : ℤ) < numNodes := by omega
  have hhigh := Int.tmod_lt_of_pos (k / (keysPerNode : ℤ)) hpos
  have hlow := Int.lt_tmod_of_pos (k / (keysPerNode : ℤ)) hpos
  rw [node_mem_iff hn (by omega) (by omega), NodeInRange,
    ← Int.ediv_nonneg_iff_of_pos (show (0 : ℤ) < keysPerNode by omega)]
  rcases Int.le_total 0 (k / (keysPerNode : ℤ)) with hnonneg | hneg
  · have hrem := Int.tmod_nonneg (numNodes : ℤ) hnonneg
    exact ⟨fun _ => Or.inl hnonneg, fun _ => by omega⟩
  · -- the remainder takes the sign of the quotient
    have hrem := Int.tmod_nonneg (numNodes : ℤ) (Int.neg_nonneg_of_nonpos hneg)
    rw [Int.neg_tmod] at hrem
    constructor
    · exact fun hnode => Or.inr (Int.dvd_of_tmod_eq_zero (by omega))
    · rintro (hnonneg | hdvd)
      · rw [Int.le_antisymm hneg hnonneg, Int.zero_tmod]
        exact Int.le_refl 1
      · rw [Int.tmod_eq_zero_of_dvd hdvd]
        exact Int.le_refl 1

/-! ## Hot and cold keys -/

/-- The element at a position below the bound, where the hot ones come first. -/
theorem mem_of_getElem?_hot {order : List String} {numHotKeys hotKeyOps i p : ℕ} {key : String}
    (hkey : order[p]? = some key) (hp : if i < hotKeyOps then p < numHotKeys else numHotKeys ≤ p) :
    key ∈ if i < hotKeyOps then order.take numHotKeys else order.drop numHotKeys := by
  split
  · next h =>
    rw [if_pos h] at hp
    refine List.mem_of_getElem? (i := p) ?_
    rw [List.getElem?_take_of_lt hp, hkey]
  · next h =>
    rw [if_neg h] at hp
    refine List.mem_of_getElem? (i := p - numHotKeys) ?_
    rw [List.getElem?_drop, Nat.add_sub_cancel' hp, hkey]

/-- A position can be drawn for an operation: a hot one, or a cold one. -/
theorem hotOrCold_of_fine {numHotKeys numKeys hotKeyOps i drawn : ℕ} {P : ℕ → Prop}
    (h : Fine Stop.IsException P
      (hotOrColdIndex numHotKeys (numKeys - numHotKeys) hotKeyOps i drawn)) :
    if i < hotKeyOps then 0 < numHotKeys else numHotKeys < numKeys := by
  rw [fine_hotOrColdIndex] at h
  split
  · next hi =>
    rw [if_pos hi] at h
    exact Nat.pos_of_ne_zero h.1
  · next hi =>
    rw [if_neg hi] at h
    have hcold := h.1
    omega

/-- The position drawn is that of a hot key or of a cold key. -/
theorem fine_hotOrColdIndex_of {numHotKeys numKeys hotKeyOps i drawn : ℕ} {P : ℕ → Prop}
    (hle : numHotKeys ≤ numKeys)
    (h : if i < hotKeyOps then 0 < numHotKeys else numHotKeys < numKeys)
    (hP : ∀ p < numKeys, (if i < hotKeyOps then p < numHotKeys else numHotKeys ≤ p) → P p) :
    Fine Stop.IsException P
      (hotOrColdIndex numHotKeys (numKeys - numHotKeys) hotKeyOps i drawn) := by
  rw [fine_hotOrColdIndex]
  split
  · next hi =>
    rw [if_pos hi] at h
    have hdrawn := Nat.mod_lt drawn h
    exact ⟨Nat.ne_of_gt h, hP _ (Nat.lt_of_lt_of_le hdrawn hle) (by rw [if_pos hi]; exact hdrawn)⟩
  · next hi =>
    rw [if_neg hi] at h
    have hcold : 0 < numKeys - numHotKeys := Nat.sub_pos_of_lt h
    have hdrawn := Nat.mod_lt drawn hcold
    exact ⟨Nat.ne_of_gt hcold, hP _ (by omega) (by rw [if_neg hi]; exact Nat.le_add_right _ _)⟩

/-- What a drawn zero makes of the position: the first of the hot keys or of the cold keys. -/
theorem hotOrColdIndex_zero {numHotKeys numKeys hotKeyOps i : ℕ}
    (h : if i < hotKeyOps then 0 < numHotKeys else numHotKeys < numKeys) :
    hotOrColdIndex numHotKeys (numKeys - numHotKeys) hotKeyOps i 0
      = .ok (if i < hotKeyOps then 0 else numHotKeys) := by
  rw [hotOrColdIndex]
  split
  · next hi =>
    rw [if_pos hi] at h
    rw [modulo, if_neg (Nat.ne_of_gt h), Nat.zero_mod]
  · next hi =>
    rw [if_neg hi] at h
    rw [modulo, if_neg (by omega), Nat.zero_mod]
    rfl

/-- In round zero and in the other hot rounds the same position is drawn then. -/
theorem hotOrColdIndex_zero_eq {numHotKeys numKeys hotKeyOps i : ℕ}
    (h : if 0 < hotKeyOps then 0 < numHotKeys else numHotKeys < numKeys)
    (hi : 0 < i → i < hotKeyOps) :
    hotOrColdIndex numHotKeys (numKeys - numHotKeys) hotKeyOps i 0
      = .ok (if 0 < hotKeyOps then 0 else numHotKeys) := by
  have hsame : i < hotKeyOps ↔ 0 < hotKeyOps := by omega
  have hdrawn : if i < hotKeyOps then 0 < numHotKeys else numHotKeys < numKeys := by
    simp only [hsame]
    exact h
  rw [hotOrColdIndex_zero hdrawn]
  simp only [hsame]

/-- There are hot keys if operations should draw them, and cold keys if operations should draw
them. -/
structure EnoughKeys (config : GeneratorConfig) (numHotKeys numKeys : ℕ) : Prop where
  /-- Hot keys. -/
  hot : 0 < config.hotKeyOps → 0 < numHotKeys
  /-- Cold keys. -/
  cold : config.hotKeyOps < config.totalOperations → numHotKeys < numKeys

/-- There are enough keys when a position can be drawn for every operation. -/
theorem enoughKeys_iff {config : GeneratorConfig} {numHotKeys numKeys : ℕ} :
    EnoughKeys config numHotKeys numKeys ↔
    ∀ i < config.totalOperations,
      if i < config.hotKeyOps then 0 < numHotKeys else numHotKeys < numKeys := by
  have hle := config.hotKeyOps_le
  constructor
  · intro h i hi
    split
    · next hhot => exact h.hot (Nat.zero_lt_of_lt hhot)
    · next hcold => exact h.cold (by omega)
  · intro h
    refine ⟨fun hhot => ?_, fun hcold => ?_⟩
    · have hfirst := h 0 (by omega)
      rwa [if_pos hhot] at hfirst
    · have hlast := h config.hotKeyOps hcold
      rwa [if_neg (Nat.lt_irrefl _)] at hlast

/-! ## A stream -/

/-- The stream of zeros, with nothing reordered. -/
def RandomStream.zeros : RandomStream := ⟨fun _ => 0, List.range, fun _ => List.Perm.refl _⟩

end TwigKV.Workload
