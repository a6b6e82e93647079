import TwigKV.Foundations.EmissionLoop
import TwigKV.Foundations.ListPieces
import TwigKV.Placement.OperationRouting
import TwigKV.Traces.TraceFile

/-! # The workload generators (`operations.cpp`, `dataset.cpp`)

Every distribution type but `YCSB` has a generator, which makes a list of operations from the keys
of the dataset. A generator emits its operations in a loop (`Foundations.EmissionLoop`); it may stop
in it at a remainder or quotient with divisor zero, at a position outside a vector, or at an
exception.

What `rand` returns is a parameter, and so is what `std::random_shuffle` makes of `0..n-1`. The
fractions of hot keys and of accesses to them enter as the numbers that they are truncated to. A
list of keys has no more than an `int` can count, as the dataset has; where the code doubles that
count, it does so in an `int`. -/

namespace TwigKV.Workload

open TwigKV.Traces (Operation)

/-- `DistributionType`. -/
inductive DistributionType where
  /-- `RANDOM_DISTRIBUTION`. -/
  | randomDistribution
  /-- `PARTITIONED_DISTRIBUTION`. -/
  | partitionedDistribution
  /-- `ZIPFIAN_DISTRIBUTION`. -/
  | zipfianDistribution
  /-- `ZIPFIAN_PARTITIONED_DISTRIBUTION`. -/
  | zipfianPartitionedDistribution
  /-- `SINGLE_NODE_HOT_KEYS`. -/
  | singleNodeHotKeys
  /-- `SINGLE_NODE_HOT_KEYS_TO_SECOND_NODE_ONLY`. -/
  | singleNodeHotKeysToSecondNodeOnly
  /-- `SINGLE_NODE_HOT_KEYS_TO_SECOND_NODE_RDMA_ONLY`. -/
  | singleNodeHotKeysToSecondNodeRdmaOnly
  /-- `SINGLE_NODE_HOT_KEYS_TO_SECOND_NODE_SPLIT`. -/
  | singleNodeHotKeysToSecondNodeSplit
  /-- `YCSB`. -/
  | ycsb
deriving DecidableEq, Repr

/-- Why a generator stops before its end. -/
inductive Stop where
  /-- A remainder or quotient with divisor zero. -/
  | divisionByZero
  /-- A position outside a vector. -/
  | outOfRange
  /-- An exception, of `std::stoi` or for the size of a vector. -/
  | exception
deriving DecidableEq, Repr

/-- An exception is not one of the faults that a generator should not have. -/
def Stop.IsException (stop : Stop) : Prop := stop = .exception

/-- What the generators read of `Configuration`. -/
structure GeneratorConfig where
  /-- `NUM_NODES`. -/
  numNodes : ℕ
  /-- `TOTAL_OPERATIONS`. -/
  totalOperations : ℕ
  /-- `static_cast<int>(HOT_KEY_PERCENTAGE * n)`. -/
  hotKeyCount : ℕ → ℕ
  /-- `static_cast<int>(HOT_KEY_ACCESS_PERCENTAGE * TOTAL_OPERATIONS)`. -/
  hotKeyOps : ℕ
  /-- `HOT_THREAD`. -/
  hotThread : ℤ
  /-- `RDMA_THREAD`. -/
  rdmaThread : ℤ
  /-- `HOT_KEY_PERCENTAGE` is a fraction. -/
  hotKeyCount_le : ∀ n, hotKeyCount n ≤ n
  /-- `HOT_KEY_ACCESS_PERCENTAGE` is a fraction. -/
  hotKeyOps_le : hotKeyOps ≤ totalOperations

/-- The random numbers that a generator gets. -/
structure RandomStream where
  /-- What the calls of `rand` return, those of `std::random_shuffle` apart. -/
  rand : ℕ → ℕ
  /-- What `std::random_shuffle` makes of `0..n-1`. -/
  shuffle : ℕ → List ℕ
  /-- It reorders. -/
  shuffle_perm : ∀ n, (shuffle n).Perm (List.range n)

/-- `%`. -/
def modulo (a b : ℕ) : Except Stop ℕ :=
  if b = 0 then .error .divisionByZero else .ok (a % b)

/-- `operator[]` of a vector. -/
def element {α : Type} (vector : List α) (i : ℕ) : Except Stop α :=
  match vector[i]? with
  | none => .error .outOfRange
  | some a => .ok a

/-- `rand() % numNodes + 1`. -/
def randomNode (numNodes drawn : ℕ) : Except Stop Int32 := do
  let node ← modulo drawn numNodes
  return Int32.ofInt (node + 1)

/-- The node of a key in the partitioned generators, as the program stores it. With fewer keys than
nodes the program divides by `0.0` and goes on with the node that the undefined conversion to `int`
gives; the model stops there. -/
def nodeOfKey (numNodes keysPerNode : ℕ) (key : String) : Except Stop Int32 :=
  if (stoi key).isNone then .error .exception
  else
    match Placement.nodeOfKey numNodes keysPerNode key with
    | none => .error .divisionByZero
    | some node => .ok (Int32.ofInt node)

/-- The position of the key of the `i`-th operation among the hot keys and the cold keys behind
them. -/
def hotOrColdIndex (numHotKeys numColdKeys hotKeyOps i drawn : ℕ) : Except Stop ℕ :=
  if i < hotKeyOps then modulo drawn numHotKeys
  else do
    let cold ← modulo drawn numColdKeys
    return numHotKeys + cold

/-- A round of `generateRandomOperationSet`. -/
def randomRound (keys : List String) (config : GeneratorConfig) (random : RandomStream) (i : ℕ) :
    Except Stop Operation := do
  let index ← modulo (random.rand (2 * i)) keys.length
  let key ← element keys index
  let node ← randomNode config.numNodes (random.rand (2 * i + 1))
  return ⟨key, node, 'R'⟩

/-- `generateRandomOperationSet`. -/
def generateRandomOperationSet (keys : List String) (config : GeneratorConfig)
    (random : RandomStream) : Outcome Operation Stop :=
  emit (randomRound keys config random) config.totalOperations

/-- A round of `generatePartitionedOperationSet`. -/
def partitionedRound (keys : List String) (config : GeneratorConfig) (i : ℕ) :
    Except Stop Operation := do
  let keysPerNode := keys.length / config.numNodes
  let index ← modulo i keys.length
  let key ← element keys index
  let node ← nodeOfKey config.numNodes keysPerNode key
  return ⟨key, node, 'R'⟩

/-- `generatePartitionedOperationSet`. -/
def generatePartitionedOperationSet (keys : List String) (config : GeneratorConfig) :
    Outcome Operation Stop :=
  emit (partitionedRound keys config) config.totalOperations

/-- A round of `generateZipfianOperationSet`. -/
def zipfianRound (keys : List String) (config : GeneratorConfig) (random : RandomStream) (i : ℕ) :
    Except Stop Operation := do
  let numKeys := keys.length
  let numHotKeys := config.hotKeyCount numKeys
  let numColdKeys := numKeys - numHotKeys
  let keyOrder := random.shuffle numKeys
  let index ← hotOrColdIndex numHotKeys numColdKeys config.hotKeyOps i (random.rand (2 * i))
  let randomIndex ← element keyOrder index
  let key ← element keys randomIndex
  let node ← randomNode config.numNodes (random.rand (2 * i + 1))
  return ⟨key, node, 'R'⟩

/-- `generateZipfianOperationSet`. -/
def generateZipfianOperationSet (keys : List String) (config : GeneratorConfig)
    (random : RandomStream) : Outcome Operation Stop :=
  emit (zipfianRound keys config random) config.totalOperations

/-- A round of `generateZipfianPartitionedOperationSet`. -/
def zipfianPartitionedRound (keys : List String) (config : GeneratorConfig) (random : RandomStream)
    (i : ℕ) : Except Stop Operation := do
  let numKeys := keys.length
  let numHotKeys := config.hotKeyCount numKeys
  let numColdKeys := numKeys - numHotKeys
  let keysPerNode := keys.length / config.numNodes
  let keyOrder := random.shuffle numKeys
  let index ← hotOrColdIndex numHotKeys numColdKeys config.hotKeyOps i (random.rand i)
  let randomIndex ← element keyOrder index
  let key ← element keys randomIndex
  let node ← nodeOfKey config.numNodes keysPerNode key
  return ⟨key, node, 'R'⟩

/-- `generateZipfianPartitionedOperationSet`. -/
def generateZipfianPartitionedOperationSet (keys : List String) (config : GeneratorConfig)
    (random : RandomStream) : Outcome Operation Stop :=
  emit (zipfianPartitionedRound keys config random) config.totalOperations

/-- The middle third of the keys, from `startIdx` up to `endIdx`: `std::vector(begin, end)`, where
`endIdx` may be negative. -/
def newKeySet (keys : List String) (startIdx : ℕ) (endIdx : ℤ) : Except Stop (List String) :=
  if endIdx < 0 then .error .outOfRange
  else
    match subrange? keys startIdx endIdx.toNat with
    | none => .error .outOfRange
    | some middle => .ok middle

/-- `endIdx` of the single-node generators: `2 * numKeys / 3` on `int`s. -/
def endIdxInt (numKeys : ℕ) : ℤ := (Int32.ofInt (2 * numKeys)).toInt.tdiv 3

/-- `keyOrder` of the single-node generators: the middle third, then the keys around it. -/
def middleFirst (keys middle : List String) (startIdx : ℕ) (endIdx : ℤ) : List String :=
  middle ++ (keys.zipIdx.filter fun entry => entry.2 < startIdx ∨ endIdx ≤ entry.2).map Prod.fst

/-- A round of the single-node generators, with the number drawn for the position of the key and the
choice of the node. -/
def singleNodeRound (keyOrder : List String) (numHotKeys numColdKeys hotKeyOps drawn : ℕ)
    (randomNode : Except Stop Int32) (i : ℕ) : Except Stop Operation := do
  let randomIndex ← hotOrColdIndex numHotKeys numColdKeys hotKeyOps i drawn
  let key ← element keyOrder randomIndex
  let node ← randomNode
  return ⟨key, node, 'R'⟩

/-- The body of the single-node generators: they draw the position of a key and choose a node, each
in its own way. -/
def singleNodeGenerator (drawn : ℕ → ℕ) (randomNode : ℕ → Except Stop Int32) (keys : List String)
    (config : GeneratorConfig) : Outcome Operation Stop :=
  let numKeys := keys.length
  let startIdx := numKeys / 3
  let endIdx := endIdxInt numKeys
  match newKeySet keys startIdx endIdx with
  | .error stop => ⟨[], some stop⟩
  | .ok middle =>
    let numHotKeys := config.hotKeyCount middle.length
    let numColdKeys := numKeys - numHotKeys
    let keyOrder := middleFirst keys middle startIdx endIdx
    emit (fun i => singleNodeRound keyOrder numHotKeys numColdKeys config.hotKeyOps (drawn i)
      (randomNode i) i) config.totalOperations

/-- `singleNodeHotSetData`. -/
def singleNodeHotSetData (keys : List String) (config : GeneratorConfig) (random : RandomStream) :
    Outcome Operation Stop :=
  singleNodeGenerator (fun i => random.rand (2 * i))
    (fun i => randomNode config.numNodes (random.rand (2 * i + 1))) keys config

/-- `singleNodeHotSetDataToSecondNodeOnly`. -/
def singleNodeHotSetDataToSecondNodeOnly (keys : List String) (config : GeneratorConfig)
    (random : RandomStream) : Outcome Operation Stop :=
  singleNodeGenerator random.rand (fun _ => .ok 2) keys config

/-- `singleNodeHotSetDataToSecondNodeOnlyRDMA`. -/
def singleNodeHotSetDataToSecondNodeOnlyRDMA (keys : List String) (config : GeneratorConfig)
    (random : RandomStream) : Outcome Operation Stop :=
  singleNodeGenerator random.rand (fun _ => .ok 1) keys config

/-- A round of the inner loop of `singleNodeHotSetDataTo80SecondNode20Other`: an operation made of a
key and a node, whose code is zero. -/
def splitRound (newKeySet : List String) (numHotKeys drawn : ℕ) (randomNode : Int32) :
    Except Stop Operation := do
  let randomIndex ← modulo drawn numHotKeys
  let key ← element newKeySet randomIndex
  return ⟨key, randomNode, '\x00'⟩

/-- The loop over the threads of `singleNodeHotSetDataTo80SecondNode20Other`, with the number of
random numbers used so far. -/
def splitThreads (newKeySet : List String) (numHotKeys opsPerThread : ℕ) (hotThread : ℤ)
    (rand : ℕ → ℕ) : List ℕ → ℕ → Outcome Operation Stop
  | [], _ => ⟨[], none⟩
  | threadID :: threadIDs, used =>
    let isHotThread := (threadID : ℤ) < hotThread
    let randomNode : Int32 := if isHotThread then 2 else if rand used % 2 = 0 then 1 else 3
    let usedForNode := if isHotThread then used else used + 1
    let outcome := emit
      (fun op => splitRound newKeySet numHotKeys (rand (usedForNode + op)) randomNode)
      opsPerThread
    match outcome.stopped with
    | some stop => ⟨outcome.emitted, some stop⟩
    | none =>
      let rest := splitThreads newKeySet numHotKeys opsPerThread hotThread rand threadIDs
        (usedForNode + opsPerThread)
      ⟨outcome.emitted ++ rest.emitted, rest.stopped⟩

/-- `singleNodeHotSetDataTo80SecondNode20Other`. -/
def singleNodeHotSetDataTo80SecondNode20Other (keys : List String) (config : GeneratorConfig)
    (random : RandomStream) : Outcome Operation Stop :=
  let totalThreads := config.hotThread + config.rdmaThread
  if totalThreads = 0 then ⟨[], some .divisionByZero⟩
  -- the vector of the thread identifiers cannot have a negative size
  else if totalThreads < 0 then ⟨[], some .exception⟩
  else
    let opsPerThread := config.totalOperations / totalThreads.toNat
    match newKeySet keys (keys.length / 3) (2 * keys.length / 3 : ℕ) with
    | .error stop => ⟨[], some stop⟩
    | .ok middle =>
      splitThreads middle (config.hotKeyCount middle.length) opsPerThread config.hotThread
        random.rand
        (random.shuffle totalThreads.toNat) 0

/-- The generator that `generateDatabaseAndOperationSet` selects; `YCSB` has none, its operation set
is empty. -/
def generateOperationSet (distribution : DistributionType) (keys : List String)
    (config : GeneratorConfig) (random : RandomStream) : Outcome Operation Stop :=
  match distribution with
  | .randomDistribution => generateRandomOperationSet keys config random
  | .partitionedDistribution => generatePartitionedOperationSet keys config
  | .zipfianDistribution => generateZipfianOperationSet keys config random
  | .zipfianPartitionedDistribution => generateZipfianPartitionedOperationSet keys config random
  | .singleNodeHotKeys => singleNodeHotSetData keys config random
  | .singleNodeHotKeysToSecondNodeOnly => singleNodeHotSetDataToSecondNodeOnly keys config random
  | .singleNodeHotKeysToSecondNodeRdmaOnly =>
    singleNodeHotSetDataToSecondNodeOnlyRDMA keys config random
  | .singleNodeHotKeysToSecondNodeSplit =>
    singleNodeHotSetDataTo80SecondNode20Other keys config random
  | .ycsb => ⟨[], none⟩

/-! ## What generators should do -/

/-- The keys with the hot ones first, and how many are hot: for the Zipfian generators as shuffled,
for the single-node generators the middle third before the others. The other generators have no hot
keys. -/
def hotOrder (distribution : DistributionType) (keys : List String) (config : GeneratorConfig)
    (random : RandomStream) : Option (List String × ℕ) :=
  match distribution with
  | .zipfianDistribution | .zipfianPartitionedDistribution =>
    some ((random.shuffle keys.length).map fun i => keys.getD i "", config.hotKeyCount keys.length)
  | .singleNodeHotKeys | .singleNodeHotKeysToSecondNodeOnly | .singleNodeHotKeysToSecondNodeRdmaOnly
  | .singleNodeHotKeysToSecondNodeSplit =>
    let startIdx := keys.length / 3
    let endIdx := 2 * keys.length / 3
    let middle := (keys.take endIdx).drop startIdx
    some (middle ++ (keys.take startIdx ++ keys.drop endIdx), config.hotKeyCount middle.length)
  | .randomDistribution | .partitionedDistribution | .ycsb => none

/-- **What an emitted operation should be**: a read of a key of the list on a node of
`1..NUM_NODES`, of a hot key for the first `hotKeyOps` operations and of another key for the
rest. -/
structure EmittedWell (distribution : DistributionType) (keys : List String)
    (config : GeneratorConfig) (random : RandomStream) (i : ℕ) (operation : Operation) : Prop where
  /-- It is a read. -/
  read : operation.op = 'R'
  /-- Its key is in the list. -/
  key_mem : operation.key ∈ keys
  /-- Its node is one of the nodes. -/
  node : 1 ≤ operation.node.toInt ∧ operation.node.toInt ≤ config.numNodes
  /-- Its key is hot or not. -/
  hot : ∀ order ∈ hotOrder distribution keys config random, operation.key ∈
    if i < config.hotKeyOps then order.1.take order.2 else order.1.drop order.2

/-- **A generator is well-formed** on some keys: for every random stream it divides by no zero,
stays in its vectors and emits what it should. -/
def WellFormed (distribution : DistributionType) (keys : List String) (config : GeneratorConfig) :
    Prop :=
  ∀ random, (generateOperationSet distribution keys config random).FineAt Stop.IsException
    (EmittedWell distribution keys config random)

end TwigKV.Workload
