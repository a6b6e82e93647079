import TwigKV.Placement.Dataset
import TwigKV.Traces.TraceExecution
import TwigKV.Workload.AllNodesGenerators
import TwigKV.Workload.ClientMachine

/-! # From the generator to the servers

With `FLAGS_dump_operations` the program writes the dataset and lets the generator of the configured
distribution dump its operations to a file. Started as a client it loads the file, shares the
operations out among its clients and sends them to the servers behind the client machines.

Where the generator is well-formed, what was generated is what is sent: every request asks a server
for a key of the dataset, and `k` passes of all clients are the generated operations taken `k` times
(`generated_operations_reach_servers`). With `YCSB` it is not: a client then sends what stands in a
file of its own. -/

namespace TwigKV.Workload

open TwigKV.Traces
open TwigKV.Placement
  (createAndWriteDataset readKeysFromFile readKeysFromFile_createAndWriteDataset)
open TwigKV.Server (RemoteMachineConfig)

/-! ## The programs -/

/-- The keys that a generator gets. -/
def generatorKeys (numberOfKeys : ℕ) (value : String) : List String :=
  readKeysFromFile (createAndWriteDataset numberOfKeys value)

/-- `generateDatabaseAndOperationSet`: the file of operations that a generator dumps when it
returns. -/
def generateDatabaseAndOperationSet (distribution : DistributionType) (numberOfKeys : ℕ)
    (value : String) (config : GeneratorConfig) (random : RandomStream) : Option (List Char) :=
  let outcome := generateOperationSet distribution (generatorKeys numberOfKeys value) config random
  if outcome.stopped.isNone then some (dumpOperationSetToFile outcome.emitted) else none

/-- The clients of a machine are started with a distribution, the operations of a file, and the
machines and the number of nodes of the configuration. -/
structure ClientMachine.StartedWith (machine : ClientMachine) (distribution : DistributionType)
    (file : List Char) (remoteMachineConfigs : List RemoteMachineConfig) (numNodes : ℕ) : Prop where
  /-- `DISTRIBUTION_TYPE`. -/
  distributionType_eq : machine.distributionType = distribution
  /-- `loadOperationSetFromFile(ops_config.OP_FILE)`. -/
  ops : machine.ops = loadOperationSetFromFile file
  /-- `start_client_index - 1`. -/
  clientStartIndex : machine.clientStartIndex = startClientIndex remoteMachineConfigs - 1
  /-- `NUM_NODES`. -/
  numNodes_eq : machine.numNodes = numNodes

/-! ## The file -/

section File

variable {distribution : DistributionType} {numberOfKeys : ℕ} {value : String}
  {config : GeneratorConfig} {random : RandomStream} {operation : Operation} {file : List Char}

/-- The keys are the numbers from `1` on. -/
theorem mem_generatorKeys {key : String} :
    key ∈ generatorKeys numberOfKeys value ↔ ∃ k, 1 ≤ k ∧ k ≤ numberOfKeys ∧ toString k = key := by
  rw [generatorKeys, readKeysFromFile_createAndWriteDataset, List.mem_map]
  constructor
  · rintro ⟨k, hk, hkey⟩
    have hrange := List.mem_range'_1.mp hk
    exact ⟨k, hrange.1, by omega, hkey⟩
  · rintro ⟨k, hone, hle, hkey⟩
    exact ⟨k, List.mem_range'_1.mpr ⟨hone, by omega⟩, hkey⟩

/-- A read of a number can be written to a file. -/
theorem wellFormed_of_number (hread : operation.op = 'R') {k : ℕ}
    (hkey : toString k = operation.key) : operation.WellFormed where
  key_ne := by
    intro hempty
    have hscan := scanInteger_toString k
    rw [hkey, hempty] at hscan
    cases hscan
  key_word := by
    intro c hc
    rw [← hkey, Nat.toString_eq_repr, Nat.toList_repr] at hc
    exact isSpace_of_isDigit (Nat.isDigit_of_mem_toDigits (by decide) (by decide) hc)
  op_visible := by
    rw [hread]
    decide

/-- What a well-formed generator emits. -/
theorem emittedWell_of_mem
    (hwell : WellFormed distribution (generatorKeys numberOfKeys value) config)
    (hmem : operation ∈ (generateOperationSet distribution (generatorKeys numberOfKeys value) config
      random).emitted) :
    ∃ i, EmittedWell distribution (generatorKeys numberOfKeys value) config random i operation := by
  obtain ⟨i, hi⟩ := List.mem_iff_getElem?.mp hmem
  exact ⟨i, (hwell random).1 i operation hi⟩

/-- The file is read back. -/
theorem loadOperationSetFromFile_of_generated
    (hwell : WellFormed distribution (generatorKeys numberOfKeys value) config)
    (hfile : generateDatabaseAndOperationSet distribution numberOfKeys value config random
      = some file) :
    loadOperationSetFromFile file = (generateOperationSet distribution
      (generatorKeys numberOfKeys value) config random).emitted := by
  rw [generateDatabaseAndOperationSet] at hfile
  split at hfile
  · rw [Option.some.injEq] at hfile
    rw [← hfile]
    refine Extraction.readAll_flatMap fun operation hmem cs => ⟨'\n', by decide, ?_⟩
    obtain ⟨i, hemitted⟩ := emittedWell_of_mem hwell hmem
    obtain ⟨k, -, -, hkey⟩ := mem_generatorKeys.mp hemitted.key_mem
    exact run_writeOperation (wellFormed_of_number hemitted.read hkey) cs
  · cases hfile

end File

/-! ## The requests -/

/-- Every request sent is one of an operation. -/
theorem ClientMachine.ClientsOk.exists_operation {machine : ClientMachine} {st : MachineState}
    (h : machine.ClientsOk st) (hycsb : machine.distributionType ≠ .ycsb)
    (hvalid : ∀ operation ∈ machine.ops, operation.node.toInt ≤ (machine.numNodes : ℤ))
    {entry : ℕ × Request} (hmem : entry ∈ st.sent) :
    ∃ operation ∈ machine.ops, requestTarget entry.2 = machine.target operation := by
  have hrequest := h.sent.subset (List.mem_map_of_mem hmem)
  obtain ⟨client, hrange, hclient⟩ := List.mem_flatMap.mp hrequest
  have hlt := List.mem_range.mp hrange
  obtain ⟨n, hpasses⟩ := h.requestsOf_prefix client
  -- the request is one of a pass, and a pass has one for each operation of the chunk
  have htarget := List.mem_map_of_mem (f := requestTarget) (hpasses.subset hclient)
  rw [ClientMachine.targets_passes hycsb hlt hvalid, List.mem_flatten] at htarget
  obtain ⟨pass, hpass, htarget⟩ := htarget
  rw [List.eq_of_mem_replicate hpass, List.mem_map] at htarget
  obtain ⟨operation, hoperation, heq⟩ := htarget
  exact ⟨operation, ClientMachine.mem_of_mem_opsChunk hycsb hlt hoperation, heq.symm⟩

/-- **What is generated is what is sent.** For every distribution but `YCSB` whose generator is
well-formed on the keys `1..NUM_KEY_VALUE_PAIRS`, every random stream, and every client machine
started with the file that the generator dumps, in every state that its clients reach: every request
contacts a server and asks for a key of the dataset; and once all clients have completed `k` passes,
the requests are those of the generated operations, taken `k` times. -/
theorem generated_operations_reach_servers {distribution : DistributionType}
    {numberOfKeys clients : ℕ} {value : String} {config : GeneratorConfig} {random : RandomStream}
    {file : List Char} {remoteMachineConfigs : List RemoteMachineConfig} {machine : ClientMachine}
    {st : MachineState} (hycsb : distribution ≠ .ycsb)
    (hwell : WellFormed distribution (generatorKeys numberOfKeys value) config)
    (hfile : generateDatabaseAndOperationSet distribution numberOfKeys value config random
      = some file)
    (hservers : ServersFollowClients remoteMachineConfigs clients config.numNodes)
    (hmachine : machine.StartedWith distribution file remoteMachineConfigs config.numNodes)
    (hclients : 1 ≤ machine.numClients) (h : machine.Reaches st) :
    (∀ entry ∈ st.sent, ∃ (i : ℕ) (server : RemoteMachineConfig) (k : ℕ),
      requestTarget entry.2 = ((i : ℤ), toString k) ∧
      remoteMachineConfigs[i]? = some server ∧ server.server = true ∧ 1 ≤ k ∧ k ≤ numberOfKeys) ∧
      ∀ k, (∀ client < machine.numClients, machine.Completed st k client) →
        (st.sent.map fun entry => requestTarget entry.2).Perm
          (List.replicate k ((generateOperationSet distribution (generatorKeys numberOfKeys value)
            config random).emitted.map fun operation =>
              ((clients : ℤ) + (operation.node.toInt - 1), operation.key))).flatten := by
  have hchunks : machine.distributionType ≠ .ycsb := by
    rw [hmachine.distributionType_eq]
    exact hycsb
  have hops : machine.ops = (generateOperationSet distribution (generatorKeys numberOfKeys value)
      config random).emitted :=
    hmachine.ops.trans (loadOperationSetFromFile_of_generated hwell hfile)
  have hemitted : ∀ operation ∈ machine.ops, ∃ i,
      EmittedWell distribution (generatorKeys numberOfKeys value) config random i operation :=
    fun operation hmem => emittedWell_of_mem hwell (hops ▸ hmem)
  have hvalid : ∀ operation ∈ machine.ops, operation.node.toInt ≤ (machine.numNodes : ℤ) := by
    intro operation hmem
    obtain ⟨i, hemit⟩ := hemitted operation hmem
    rw [hmachine.numNodes_eq]
    exact hemit.node.2
  have htarget : ∀ operation, machine.target operation
      = ((clients : ℤ) + (operation.node.toInt - 1), operation.key) := by
    intro operation
    rw [ClientMachine.target, hmachine.clientStartIndex, startClientIndex_eq hservers]
    exact Prod.ext (by simp only; omega) rfl
  refine ⟨fun entry hmem => ?_, fun k hdone => ?_⟩
  · obtain ⟨operation, hoperation, heq⟩ := h.ok.exists_operation hchunks hvalid hmem
    obtain ⟨i, hemit⟩ := hemitted operation hoperation
    obtain ⟨k, hone, hle, hkey⟩ := mem_generatorKeys.mp hemit.key_mem
    obtain ⟨j, server, hindex, hserver, hisServer⟩ :=
      server_of_validNode hservers (decide_eq_true hemit.node)
    refine ⟨j, server, k, ?_, hserver, hisServer, hone, hle⟩
    rw [heq, htarget, hindex, hkey]
  · have hperm := h.ok.perm_of_completed hchunks hclients hvalid hdone
    rwa [List.map_congr_left fun operation _ => htarget operation, hops] at hperm

/-! ## A run -/

/-- One server and two operations. -/
def oneServer : GeneratorConfig where
  numNodes := 1
  totalOperations := 2
  hotKeyCount _ := 0
  hotKeyOps := 0
  hotThread := 0
  rdmaThread := 0
  hotKeyCount_le _ := Nat.zero_le _
  hotKeyOps_le := Nat.zero_le _

/-- The random numbers `0, 0, 1, 1, …`. -/
def everyNumberTwice : RandomStream := { RandomStream.zeros with rand := fun i => i / 2 }

/-- Two clients for the operations generated from these numbers, in front of one server. -/
def generatedClients : ClientMachine where
  distributionType := .randomDistribution
  ops := [⟨"1", 1, 'R'⟩, ⟨"2", 1, 'R'⟩]
  ycsbFile _ := []
  threads := 2
  clientsPerThread := 1
  clientStartIndex := 0
  numNodes := 1
  valueSize := 1
  totalRuntimeInSeconds := 1

/-- Each client executes its operation, the second one first. -/
def onePassOfTwo : List MachineLabel :=
  [.send 1, .send 0, .count 1, .loop 1 (.execute 0 4 1000000000 "A"), .count 0,
    .loop 0 (.execute 0 5 1000000000 "A"), .loop 1 (.test 1000000001), .loop 0 (.test 1000000002)]

/-- The two operations generated are the two requests sent. -/
theorem generated_operations_reach_servers_two : ∃ file st,
    generateDatabaseAndOperationSet .randomDistribution 2 "A" oneServer everyNumberTwice
      = some file ∧
      runLabels generatedClients.step generatedClients.initial onePassOfTwo = some st ∧
      (st.sent.map fun entry => requestTarget entry.2).Perm [(1, "1"), (1, "2")] := by
  have hwell : WellFormed .randomDistribution (generatorKeys 2 "A") oneServer :=
    wellFormed_random (by decide) (by decide) (by decide)
  have hfile : generateDatabaseAndOperationSet .randomDistribution 2 "A" oneServer everyNumberTwice
      = some (dumpOperationSetToFile [⟨"1", 1, 'R'⟩, ⟨"2", 1, 'R'⟩]) := by decide
  have hservers :
      ServersFollowClients [⟨1, 9000, false⟩, ⟨2, 9000, true⟩] 1 oneServer.numNodes := by
    refine ⟨rfl, fun i machine hi => ?_⟩
    rcases i with _ | _ | i
    · cases hi; rfl
    · cases hi; rfl
    · cases hi
  have hops : generatedClients.ops = loadOperationSetFromFile _ :=
    (loadOperationSetFromFile_of_generated hwell hfile).symm
  have hrun : (runLabels generatedClients.step generatedClients.initial onePassOfTwo).isSome := rfl
  obtain ⟨st, hst⟩ := Option.isSome_iff_exists.mp hrun
  have hended : (runLabels generatedClients.step generatedClients.initial onePassOfTwo).map
      (fun st => (ClientMachine.outcome st 0, ClientMachine.outcome st 1))
      = some ((.done, 1, [1000000000]), (.done, 1, [1000000000])) := rfl
  rw [hst, Option.map_some, Option.some_inj, Prod.mk.injEq] at hended
  refine ⟨_, st, hfile, hst, ?_⟩
  refine (generated_operations_reach_servers (by decide) hwell hfile hservers
    ⟨rfl, hops, rfl, rfl⟩ (by decide)
    (reachableUnder_of_runLabels onePassOfTwo (by decide) hst)).2 1 fun client hclient => ?_
  rcases Nat.le_one_iff_eq_zero_or_eq_one.mp (Nat.le_of_lt_succ hclient) with rfl | rfl
  · exact .of_outcome hended.1 (by decide)
  · exact .of_outcome hended.2 (by decide)

end TwigKV.Workload
