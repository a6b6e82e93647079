import TwigKV.Workload.GeneratorRounds

/-! # The single-node generators

They draw hot keys from the middle third of the keys and cold keys from the rest; three of them
differ in how they choose the node only (`singleNode_fineAt_iff`). The fourth leaves out the
operation code, so it is well-formed only where it emits nothing (`wellFormed_split_iff`). -/

namespace TwigKV.Workload

open TwigKV.Traces (Operation)

variable {keys : List String} {config : GeneratorConfig}

/-! ## The middle third -/

/-- The middle third of the keys. -/
def middleThird (keys : List String) : List String :=
  (keys.take (2 * keys.length / 3)).drop (keys.length / 3)

/-- Its length. -/
theorem length_middleThird (keys : List String) :
    (middleThird keys).length = 2 * keys.length / 3 - keys.length / 3 := by
  rw [middleThird, List.length_drop, List.length_take, Nat.min_eq_left (by omega)]

/-- The middle third is in the list. -/
theorem newKeySet_natCast (keys : List String) :
    newKeySet keys (keys.length / 3) (2 * keys.length / 3 : ℕ) = .ok (middleThird keys) := by
  have hrange : keys.length / 3 ≤ 2 * keys.length / 3 ∧ 2 * keys.length / 3 ≤ keys.length := by
    omega
  rw [newKeySet, if_neg (by omega), Int.toNat_natCast, subrange?, if_pos hrange]
  rfl

/-- The end of the middle third if doubling the number of keys does not overflow. -/
theorem endIdxInt_of_lt {numKeys : ℕ} (h : numKeys < 2 ^ 30) :
    endIdxInt numKeys = (2 * numKeys / 3 : ℕ) := by
  rw [endIdxInt, Int32.toInt_ofInt_of_le (by omega) (by omega),
    Int.tdiv_eq_ediv_of_nonneg (by omega)]
  rfl

/-- If it does, the end is not behind the beginning of the keys. -/
theorem endIdxInt_nonpos {numKeys : ℕ} (hlarge : 2 ^ 30 ≤ numKeys) (hlength : numKeys < 2 ^ 31) :
    endIdxInt numKeys ≤ 0 := by
  have hwrap : (Int32.ofInt (2 * numKeys)).toInt = 2 * numKeys - 2 ^ 32 := by
    rw [Int32.toInt_ofInt, Int32.size, Int.bmod_eq_iff (by omega)]
    omega
  rw [endIdxInt, hwrap]
  exact Int.tdiv_le_tdiv (b := 0) (by omega) (by omega)

/-- Then there is no middle third. -/
theorem newKeySet_of_le (hlarge : 2 ^ 30 ≤ keys.length) (hlength : keys.length < 2 ^ 31) :
    newKeySet keys (keys.length / 3) (endIdxInt keys.length) = .error .outOfRange := by
  have hend := endIdxInt_nonpos hlarge hlength
  rw [newKeySet]
  split
  · rfl
  · rw [subrange?, if_neg (by omega)]

/-- The order of the keys: the middle third, then what is around it. -/
theorem middleFirst_natCast (keys : List String) :
    middleFirst keys (middleThird keys) (keys.length / 3) (2 * keys.length / 3 : ℕ)
      = middleThird keys
        ++ (keys.take (keys.length / 3) ++ keys.drop (2 * keys.length / 3)) := by
  have h := map_fst_filter_zipIdx (b := keys.length / 3) (e := 2 * keys.length / 3)
    (by omega) keys 0
  rw [Nat.sub_zero, Nat.sub_zero] at h
  rw [middleFirst, ← h]
  simp only [Nat.cast_le]

/-- What the generators do without overflow. -/
theorem singleNodeGenerator_of_lt (hsmall : keys.length < 2 ^ 30) (drawn : ℕ → ℕ)
    (node : ℕ → Except Stop Int32) : singleNodeGenerator drawn node keys config
      = emit (fun i => singleNodeRound (middleThird keys
          ++ (keys.take (keys.length / 3) ++ keys.drop (2 * keys.length / 3)))
          (config.hotKeyCount (middleThird keys).length)
          (keys.length - config.hotKeyCount (middleThird keys).length) config.hotKeyOps (drawn i)
          (node i) i) config.totalOperations := by
  simp only [singleNodeGenerator, endIdxInt_of_lt hsmall, newKeySet_natCast, middleFirst_natCast]

/-- What they do with it. -/
theorem singleNodeGenerator_of_le (hlarge : 2 ^ 30 ≤ keys.length) (hlength : keys.length < 2 ^ 31)
    (drawn : ℕ → ℕ) (node : ℕ → Except Stop Int32) :
    singleNodeGenerator drawn node keys config = ⟨[], some .outOfRange⟩ := by
  simp only [singleNodeGenerator, newKeySet_of_le hlarge hlength]

/-- It has all the keys. -/
theorem exists_middleFirst {p : ℕ} (hp : p < keys.length) :
    ∃ key, (middleThird keys
      ++ (keys.take (keys.length / 3) ++ keys.drop (2 * keys.length / 3)))[p]? = some key
      ∧ key ∈ keys := by
  have hlength : p < (middleThird keys
      ++ (keys.take (keys.length / 3) ++ keys.drop (2 * keys.length / 3))).length := by
    rw [List.length_append, length_middleThird, List.length_append, List.length_take,
      List.length_drop, Nat.min_eq_left (by omega)]
    omega
  refine ⟨_, List.getElem?_eq_getElem hlength, ?_⟩
  have hmem := List.getElem_mem hlength
  rw [List.mem_append, List.mem_append] at hmem
  rcases hmem with hmiddle | hbefore | hbehind
  · exact List.mem_of_mem_take (List.mem_of_mem_drop hmiddle)
  · exact List.mem_of_mem_take hbefore
  · exact List.mem_of_mem_drop hbehind

/-! ## A node for every operation -/

/-- The condition of the single-node generators: doubling the number of keys does not overflow, and
there are hot keys in the middle third if operations should draw them. -/
structure SingleNodeWhen (keys : List String) (config : GeneratorConfig) : Prop where
  /-- No overflow. -/
  small : keys.length < 2 ^ 30
  /-- Hot keys. -/
  hot : 0 < config.hotKeyOps → 0 < config.hotKeyCount (2 * keys.length / 3 - keys.length / 3)

section Rounds

variable {distribution : DistributionType} {random : RandomStream} {node : Except Stop Int32}
  {order : List String} {numHotKeys drawn i : ℕ}

/-- The choice of a node chooses one of the nodes. -/
abbrev ChoosesNode (config : GeneratorConfig) (node : Except Stop Int32) : Prop :=
  Fine Stop.IsException (fun chosen : Int32 => 1 ≤ chosen.toInt ∧ chosen.toInt ≤ config.numNodes)
    node

/-- A round is fine when there are keys to draw from and its node is one of the nodes. -/
theorem fine_singleNodeRound_iff
    (horder : hotOrder distribution keys config random = some (order, numHotKeys))
    (hget : ∀ p < keys.length, ∃ key, order[p]? = some key ∧ key ∈ keys)
    (hle : numHotKeys ≤ keys.length) :
    Fine Stop.IsException (EmittedWell distribution keys config random i)
      (singleNodeRound order numHotKeys (keys.length - numHotKeys) config.hotKeyOps drawn node i) ↔
      (if i < config.hotKeyOps then 0 < numHotKeys else numHotKeys < keys.length) ∧
        ChoosesNode config node := by
  rw [singleNodeRound, fine_bind]
  constructor
  · intro h
    obtain ⟨p, -, hround⟩ := h.exists_eq_ok noException_hotOrColdIndex
    simp only [fine_bind, fine_pure, fine_element] at hround
    obtain ⟨key, -, hnode⟩ := hround
    exact ⟨hotOrCold_of_fine h, hnode.imp fun _ hwell => hwell.node⟩
  · rintro ⟨hdrawn, hnode⟩
    refine fine_hotOrColdIndex_of hle hdrawn fun p hp hpos => ?_
    obtain ⟨key, hkey, hmem⟩ := hget p hp
    simp only [fine_bind, fine_pure, fine_element]
    refine ⟨key, hkey, hnode.imp fun chosen hchosen => ⟨rfl, hmem, hchosen, ?_⟩⟩
    intro order' horder'
    rw [horder] at horder'
    cases horder'
    exact mem_of_getElem?_hot hkey hpos

/-- A round throws no exception unless the choice of its node does. -/
theorem noException_singleNodeRound {numColdKeys : ℕ} (hnode : NoException node) : NoException
    (singleNodeRound order numHotKeys numColdKeys config.hotKeyOps drawn node i) :=
  noException_bind noException_hotOrColdIndex fun _ => noException_bind (noException_element _ _)
    fun _ => noException_bind hnode fun _ => noException_pure _

end Rounds

/-- **The single-node generators**: well-formed when the middle third has hot keys to draw and every
node chosen is one of the nodes. -/
theorem singleNode_fineAt_iff (hkeys : keys ≠ []) (hlength : keys.length < 2 ^ 31)
    (distribution : DistributionType) (random : RandomStream) (drawn : ℕ → ℕ)
    (node : ℕ → Except Stop Int32)
    (horder : hotOrder distribution keys config random = some (middleThird keys
      ++ (keys.take (keys.length / 3) ++ keys.drop (2 * keys.length / 3)),
      config.hotKeyCount (middleThird keys).length))
    (hnode : ∀ i, NoException (node i)) :
    (singleNodeGenerator drawn node keys config).FineAt Stop.IsException
      (EmittedWell distribution keys config random) ↔
      SingleNodeWhen keys config ∧ ∀ i < config.totalOperations, ChoosesNode config (node i) := by
  have hpos := List.length_pos_iff.mpr hkeys
  rcases Nat.lt_or_ge keys.length (2 ^ 30) with hsmall | hlarge
  · have hcount := config.hotKeyCount_le (middleThird keys).length
    have hcold : config.hotKeyCount (middleThird keys).length < keys.length := by
      rw [length_middleThird] at hcount ⊢
      omega
    have hwhen : SingleNodeWhen keys config ↔
        EnoughKeys config (config.hotKeyCount (middleThird keys).length) keys.length := by
      rw [length_middleThird] at hcold ⊢
      exact ⟨fun h => ⟨h.hot, fun _ => hcold⟩, fun h => ⟨hsmall, h.hot⟩⟩
    rw [singleNodeGenerator_of_lt hsmall,
      emit_fine_iff_forall fun i => noException_singleNodeRound (hnode i), hwhen, enoughKeys_iff,
      ← forall₂_and]
    exact forall₂_congr fun i _ => fine_singleNodeRound_iff horder
      (fun p hp => exists_middleFirst hp) (Nat.le_of_lt hcold)
  · rw [singleNodeGenerator_of_le hlarge hlength, fineAt_nil]
    exact ⟨fun h => Stop.noConfusion (h _ rfl), fun h => absurd h.1.small (Nat.not_lt.mpr hlarge)⟩

/-- With a random node for every operation. -/
theorem wellFormed_singleNodeHotKeys_iff (hkeys : keys ≠ []) (hlength : keys.length < 2 ^ 31)
    (hone : 1 ≤ config.numNodes) (hn : config.numNodes < 2 ^ 31) :
    WellFormed .singleNodeHotKeys keys config ↔ SingleNodeWhen keys config := by
  have hiff := fun random : RandomStream => @singleNode_fineAt_iff _ config hkeys hlength
    .singleNodeHotKeys random (fun i => random.rand (2 * i))
    (fun i => randomNode config.numNodes (random.rand (2 * i + 1))) rfl
    fun _ => noException_randomNode
  have hnode : ∀ drawn, ChoosesNode config (randomNode config.numNodes drawn) := fun drawn =>
    fine_randomNode.mpr ⟨Nat.ne_of_gt hone, randomNode_mem hone hn drawn⟩
  exact ⟨fun h => ((hiff .zeros).mp (h .zeros)).1,
    fun h random => (hiff random).mpr ⟨h, fun _ _ => hnode _⟩⟩

/-- With node `2` for all operations. -/
theorem wellFormed_secondNodeOnly_iff (hkeys : keys ≠ []) (hlength : keys.length < 2 ^ 31) :
    WellFormed .singleNodeHotKeysToSecondNodeOnly keys config ↔
      SingleNodeWhen keys config ∧ (0 < config.totalOperations → 2 ≤ config.numNodes) := by
  have hiff := fun random : RandomStream => @singleNode_fineAt_iff _ config hkeys hlength
    .singleNodeHotKeysToSecondNodeOnly random random.rand (fun _ => .ok 2) rfl fun _ => trivial
  have hnode : ChoosesNode config (.ok 2) ↔ 2 ≤ config.numNodes := by
    refine ⟨fun h => ?_, fun h => ⟨by decide, ?_⟩⟩
    · exact Int.ofNat_le.mp h.2
    · exact Int.ofNat_le.mpr h
  constructor
  · intro h
    obtain ⟨hwhen, hnodes⟩ := (hiff .zeros).mp (h .zeros)
    exact ⟨hwhen, fun hops => hnode.mp (hnodes 0 hops)⟩
  · rintro ⟨hwhen, hnodes⟩ random
    exact (hiff random).mpr ⟨hwhen, fun i hi => hnode.mpr (hnodes (Nat.zero_lt_of_lt hi))⟩

/-- With node `1` for all operations. -/
theorem wellFormed_secondNodeRdmaOnly_iff (hkeys : keys ≠ []) (hlength : keys.length < 2 ^ 31)
    (hone : 1 ≤ config.numNodes) :
    WellFormed .singleNodeHotKeysToSecondNodeRdmaOnly keys config ↔ SingleNodeWhen keys config := by
  have hiff := fun random : RandomStream => @singleNode_fineAt_iff _ config hkeys hlength
    .singleNodeHotKeysToSecondNodeRdmaOnly random random.rand (fun _ => .ok 1) rfl fun _ => trivial
  have hnode : ChoosesNode config (.ok 1) := ⟨Int.le_refl 1, Int.ofNat_le.mpr hone⟩
  exact ⟨fun h => ((hiff .zeros).mp (h .zeros)).1,
    fun h random => (hiff random).mpr ⟨h, fun _ _ => hnode⟩⟩

/-! ## The operations split among threads -/

/-- Threads without operations. -/
theorem splitThreads_zero (newKeySet : List String) (numHotKeys : ℕ) (hotThread : ℤ)
    (rand : ℕ → ℕ) (threadIDs : List ℕ) (used : ℕ) :
    splitThreads newKeySet numHotKeys 0 hotThread rand threadIDs used = ⟨[], none⟩ := by
  induction threadIDs generalizing used with
  | nil => rfl
  | cons threadID threadIDs ih =>
      rw [splitThreads, emit]
      simp only [ih, List.nil_append]

/-- A round of a thread divides by zero, leaves the vector or emits what is no read. -/
theorem not_fine_splitRound {newKeySet : List String} {numHotKeys drawn : ℕ} {node : Int32}
    {P : Operation → Prop} (hread : ∀ operation, P operation → operation.op = 'R') :
    ¬ Fine Stop.IsException P (splitRound newKeySet numHotKeys drawn node) := by
  simp only [splitRound, fine_bind, fine_pure, fine_modulo, fine_element]
  rintro ⟨-, key, -, hP⟩
  have hop : '\x00' = 'R' := hread _ hP
  exact absurd hop (by decide)

/-- Its thread does so in its first round. -/
theorem not_fineAt_splitThreads {newKeySet : List String} {numHotKeys opsPerThread : ℕ}
    {hotThread : ℤ} {rand : ℕ → ℕ} {threadID : ℕ} {threadIDs : List ℕ} {used : ℕ}
    {P : ℕ → Operation → Prop} (hread : ∀ operation, P 0 operation → operation.op = 'R')
    (hops : 0 < opsPerThread) : ¬ (splitThreads newKeySet numHotKeys opsPerThread hotThread rand
      (threadID :: threadIDs) used).FineAt Stop.IsException P := by
  have hthread : ∀ node used, ¬ (emit (fun op => splitRound newKeySet numHotKeys (rand (used + op))
      node) opsPerThread).FineAt Stop.IsException P := by
    intro node used h
    exact not_fine_splitRound hread ((emit_fine_iff _ _ _ _).mp h 0 hops (reached_zero _))
  intro h
  rw [splitThreads] at h
  simp only at h
  generalize hfirst : emit _ opsPerThread = outcome at h
  have hfine : outcome.FineAt Stop.IsException P := by
    obtain ⟨emitted, stopped⟩ := outcome
    cases stopped with
    | some stop => exact h
    | none => exact h.of_append
  rw [← hfirst] at hfine
  exact hthread _ _ hfine

/-- The generator for threads: well-formed when there are fewer operations than threads, or a
negative number of threads, so that it makes no operation. -/
theorem wellFormed_split_iff (keys : List String) (config : GeneratorConfig) :
    WellFormed .singleNodeHotKeysToSecondNodeSplit keys config ↔
      config.hotThread + config.rdmaThread < 0 ∨
        (config.totalOperations : ℤ) < config.hotThread + config.rdmaThread := by
  have hgenerate : ∀ random, generateOperationSet .singleNodeHotKeysToSecondNodeSplit keys config
      random = singleNodeHotSetDataTo80SecondNode20Other keys config random := fun _ => rfl
  simp only [WellFormed, hgenerate, singleNodeHotSetDataTo80SecondNode20Other, newKeySet_natCast]
  generalize config.hotThread + config.rdmaThread = totalThreads
  rcases Int.lt_trichotomy totalThreads 0 with hneg | rfl | hpos
  · simp only [if_neg (Int.ne_of_lt hneg), if_pos hneg, fineAt_nil]
    refine ⟨fun _ => .inl hneg, fun _ _ stop hstop => ?_⟩
    cases hstop
    rfl
  · simp only [if_pos, fineAt_nil]
    refine ⟨fun h => Stop.noConfusion (h .zeros _ rfl), fun h => ?_⟩
    omega
  · simp only [if_neg (Int.ne_of_gt hpos), if_neg (Int.not_lt.mpr (Int.le_of_lt hpos))]
    rcases Nat.lt_or_ge config.totalOperations totalThreads.toNat with hfew | hmany
    · rw [Nat.div_eq_of_lt hfew]
      simp only [splitThreads_zero, fineAt_nil]
      exact ⟨fun _ => .inr (by omega), fun _ _ stop hstop => nomatch hstop⟩
    · refine ⟨fun h => ?_, fun h => by omega⟩
      obtain ⟨threadID, threadIDs, hthreadIDs⟩ : ∃ threadID threadIDs,
          RandomStream.zeros.shuffle totalThreads.toNat = threadID :: threadIDs := by
        refine List.exists_cons_of_length_pos ?_
        rw [RandomStream.zeros, List.length_range]
        omega
      have hfine := h .zeros
      rw [hthreadIDs] at hfine
      exact absurd hfine (not_fineAt_splitThreads (fun _ hwell => hwell.read)
        (Nat.div_pos hmany (by omega)))

end TwigKV.Workload
