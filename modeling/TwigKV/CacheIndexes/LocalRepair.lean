import TwigKV.CacheIndexes.IndexMachine
import TwigKV.Server.HandlerRules

/-! # Repair after a mismatched read (`update_local_key`)

The callback of an indexed read that finds another key in the slot calls
`update_local_key(expected_key, key)` before it reads the disk. Its purpose is a replica that no
longer sends a read of the expected key to that slot (`Repairs`).

The function writes the entry of the key *found*, so the entry of the expected key stays
(`updateLocalKey_expectedKey`): a repeated `read_callback` posts the same read
(`readCallback_updateLocalKey`), and no call repairs anything (`not_repairs`). -/

namespace TwigKV.CacheIndexes

open TwigKV.CacheIndexLog TwigKV.Server

variable {RDMACacheIndex : Type*}

/-- The index buffers of one server: its own index and its replicas of the others, by server. -/
abbrev IndexReplicas (RDMACacheIndex : Type*) : Type _ := ℕ → CacheIndex RDMACacheIndex

/-- The loop body of `update_local_key` for server `i`, on machine `m`. -/
def updateReplica (m : ℕ) (expectedKey key : UInt64) (indexes : IndexReplicas RDMACacheIndex)
    (i : ℕ) : IndexReplicas RDMACacheIndex :=
  if m = i then indexes
  else Function.update indexes i (Function.update (indexes i) key (indexes m expectedKey))

/-- `update_local_key` on machine `m`; its third parameter, the value read, is not used. -/
def updateLocalKey (consts : IndexConstants RDMACacheIndex) (numServers m : ℕ)
    (indexes : IndexReplicas RDMACacheIndex) (expectedKey key : UInt64) :
    IndexReplicas RDMACacheIndex :=
  if key = consts.keyValuePtrInvalid then indexes
  else (List.range numServers).foldl (updateReplica m expectedKey key) indexes

/-- An effect of a handler on the replicas of its server. -/
def applyToReplicas (consts : IndexConstants RDMACacheIndex) (numServers m : ℕ)
    (indexes : IndexReplicas RDMACacheIndex) : ServerEffect → IndexReplicas RDMACacheIndex
  | .updateLocalKey expectedKey key _ => updateLocalKey consts numServers m indexes expectedKey key
  | _ => indexes

/-- The slots that the replicas give for a key, by server. -/
def slotsOf (consts : IndexConstants RDMACacheIndex) (indexes : IndexReplicas RDMACacheIndex)
    (key : UInt64) (i : ℕ) : UInt64 :=
  consts.keyValuePtrOffset (indexes i key)

/-- **The replica of peer `r` is repaired** by `update_local_key(expectedKey, key)`: its entry for
the expected key does not point to the slot any more, and no peer's entry for another key
changes. -/
def Repairs (consts : IndexConstants RDMACacheIndex) (numServers m : ℕ)
    (indexes : IndexReplicas RDMACacheIndex) (r : ℕ) (expectedKey key : UInt64) : Prop :=
  let repaired := updateLocalKey consts numServers m indexes expectedKey key
  slotsOf consts repaired expectedKey r ≠ slotsOf consts indexes expectedKey r ∧
    ∀ i < numServers, i ≠ m → ∀ k, k ≠ expectedKey → repaired i k = indexes i k

/-! ## What the loop writes -/

section Loop

variable {consts : IndexConstants RDMACacheIndex} {numServers m : ℕ}
  {indexes : IndexReplicas RDMACacheIndex} {expectedKey key : UInt64}

/-- The loop over any servers writes the owner's entry under the key found at each peer among
them. -/
theorem foldl_updateReplica (servers : List ℕ) (i : ℕ) (k : UInt64) :
    servers.foldl (updateReplica m expectedKey key) indexes i k
      = if i ∈ servers ∧ i ≠ m ∧ k = key then indexes m expectedKey else indexes i k := by
  induction servers generalizing indexes with
  | nil => simp
  | cons j servers ih =>
      -- the owner's own entry is never written
      have howner : updateReplica m expectedKey key indexes j m expectedKey
          = indexes m expectedKey := by
        rw [updateReplica]
        split
        · rfl
        · next hne => rw [Function.update_of_ne hne]
      rw [List.foldl_cons, ih, howner]
      by_cases hmem : i ∈ servers ∧ i ≠ m ∧ k = key
      · rw [if_pos hmem, if_pos ⟨List.mem_cons_of_mem j hmem.1, hmem.2⟩]
      · rw [if_neg hmem, updateReplica]
        by_cases hj : m = j
        · subst hj
          rw [if_pos rfl, if_neg]
          rintro ⟨hi, hne, hk⟩
          exact hmem ⟨(List.mem_cons.mp hi).resolve_left hne, hne, hk⟩
        · rw [if_neg hj]
          by_cases hij : i = j
          · subst hij
            rw [Function.update_self, Function.update_apply]
            simp [Ne.symm hj]
          · rw [Function.update_of_ne hij]
            simp [hij, hmem]

/-- An entry after `update_local_key`. -/
theorem updateLocalKey_apply (i : ℕ) (k : UInt64) :
    updateLocalKey consts numServers m indexes expectedKey key i k
      = if key ≠ consts.keyValuePtrInvalid ∧ i < numServers ∧ i ≠ m ∧ k = key then
          indexes m expectedKey
        else indexes i k := by
  rw [updateLocalKey]
  by_cases hinvalid : key = consts.keyValuePtrInvalid
  · rw [if_pos hinvalid, if_neg fun h => h.1 hinvalid]
  · rw [if_neg hinvalid, foldl_updateReplica]
    simp only [List.mem_range, ne_eq, hinvalid, not_false_eq_true, true_and]

/-- The entries of the expected key stay, at every server. -/
theorem updateLocalKey_expectedKey (hkey : key ≠ expectedKey) (i : ℕ) :
    updateLocalKey consts numServers m indexes expectedKey key i expectedKey
      = indexes i expectedKey := by
  rw [updateLocalKey_apply, if_neg]
  rintro ⟨-, -, -, heq⟩
  exact hkey heq.symm

/-- The entries of the other keys stay exactly where nothing is written: the key found is the
invalid one, or every peer's entry for it is the owner's entry of the expected key already. -/
theorem updateLocalKey_others_iff (hkey : key ≠ expectedKey) :
    (∀ i < numServers, i ≠ m → ∀ k, k ≠ expectedKey →
        updateLocalKey consts numServers m indexes expectedKey key i k = indexes i k) ↔
      key = consts.keyValuePtrInvalid ∨
        ∀ i < numServers, i ≠ m → indexes i key = indexes m expectedKey := by
  constructor
  · intro h
    refine or_iff_not_imp_left.mpr fun hvalid i hi hne => ?_
    have hkept := h i hi hne key hkey
    rw [updateLocalKey_apply, if_pos ⟨hvalid, hi, hne, rfl⟩] at hkept
    exact hkept.symm
  · intro h i hi hne k _
    rw [updateLocalKey_apply]
    split
    · next hwritten =>
      rw [hwritten.2.2.2, h.resolve_left hwritten.1 i hi hne]
    · rfl

/-- A repeated `read_callback` of the expected key posts the read it posted before. -/
theorem readCallback_updateLocalKey (hkey : key ≠ expectedKey) (config : ServerConfig)
    (request : GetRequest) :
    readCallback config request expectedKey
        (slotsOf consts (updateLocalKey consts numServers m indexes expectedKey key) expectedKey)
      = readCallback config request expectedKey (slotsOf consts indexes expectedKey) := by
  have hslots : slotsOf consts (updateLocalKey consts numServers m indexes expectedKey key)
      expectedKey = slotsOf consts indexes expectedKey := by
    funext i
    rw [slotsOf, slotsOf, updateLocalKey_expectedKey hkey]
  rw [hslots]

end Loop

/-! ## The callback -/

section Callback

variable {consts : IndexConstants RDMACacheIndex} {numServers m : ℕ}

/-- Effects that leave the replicas alone. -/
theorem foldl_applyToReplicas_of_forall {effects : List ServerEffect}
    (h : ∀ effect ∈ effects, ∀ indexes,
      applyToReplicas consts numServers m indexes effect = indexes)
    (indexes : IndexReplicas RDMACacheIndex) :
    effects.foldl (applyToReplicas consts numServers m) indexes = indexes := by
  induction effects with
  | nil => rfl
  | cons effect effects ih =>
      rw [List.foldl_cons, h effect List.mem_cons_self]
      exact ih fun effect' hmem => h effect' (List.mem_cons_of_mem _ hmem)

/-- What the callback of a read that found another key does to the replicas is the call of
`update_local_key`. -/
theorem foldl_applyToReplicas_slotCallback {config : ServerConfig} {read : SlotRead}
    {kv : RDMACacheIndexKeyValue} {answers : CallbackAnswers} {effects : List ServerEffect}
    (hrun : slotCallback config read kv answers = some effects)
    (hkey : kv.keyIndex ≠ read.expectedKey) (indexes : IndexReplicas RDMACacheIndex) :
    effects.foldl (applyToReplicas consts numServers m) indexes
      = updateLocalKey consts numServers m indexes read.expectedKey kv.keyIndex := by
  rw [slotCallback, if_neg hkey] at hrun
  simp only [slotMismatch, Option.bind_eq_bind, Option.bind_eq_some_iff, Option.pure_def,
    Option.some.injEq] at hrun
  obtain ⟨remoteAccess, hremote, fetch, hfetch, rfl⟩ := hrun
  -- counters and the disk do not touch the replicas
  have hbefore := forall_mem_updateSnapshot
    (Q := fun effect => ∀ indexes : IndexReplicas RDMACacheIndex,
      applyToReplicas consts numServers m indexes effect = indexes) hremote fun _ => rfl
  have hafter := forall_mem_fetchFromDisk
    (Q := fun effect => ∀ indexes : IndexReplicas RDMACacheIndex,
      applyToReplicas consts numServers m indexes effect = indexes) hfetch (fun _ => rfl)
    ⟨fun _ _ _ => rfl, fun _ _ _ => rfl, fun _ _ _ => rfl⟩
  rw [List.foldl_append, foldl_applyToReplicas_of_forall hbefore, List.foldl_cons,
    foldl_applyToReplicas_of_forall hafter]
  rfl

end Callback

/-! ## The result -/

/-- **`update_local_key` never repairs.** Whatever the index buffers hold, on whichever machine and
for whichever peer, after `update_local_key(expectedKey, key)` with another key the peer's replica
points to the slot of the expected key as before. -/
theorem not_repairs (consts : IndexConstants RDMACacheIndex) (numServers m : ℕ)
    (indexes : IndexReplicas RDMACacheIndex) (r : ℕ) {expectedKey key : UInt64}
    (hkey : key ≠ expectedKey) : ¬ Repairs consts numServers m indexes r expectedKey key := by
  rintro ⟨hmoved, -⟩
  apply hmoved
  rw [slotsOf, slotsOf, updateLocalKey_expectedKey hkey]

/-- Two servers; the replica on server `0` gives slot `7` of server `1` for key `5`, where a read
finds key `6`. -/
theorem not_repairs_two_servers :
    (6 : UInt64) ≠ 5 ∧ ¬ Repairs offsetConsts 2 0 (fun i _ => if i = 1 then 7 else -1) 1 5 6 :=
  ⟨by decide, not_repairs offsetConsts 2 0 _ 1 (by decide)⟩

/-- There the replica still gives slot `7` for key `5`, and for key `6` an invalid one in place of
`7`. -/
theorem wrong_slot_stays :
    ¬ Repairs offsetConsts 2 0 (fun i _ => if i = 1 then 7 else -1) 1 5 6 ∧
      updateLocalKey offsetConsts 2 0 (fun i _ => if i = 1 then 7 else -1) 5 6 1 5 = 7 ∧
      updateLocalKey offsetConsts 2 0 (fun i _ => if i = 1 then 7 else -1) 5 6 1 6 = -1 := by
  refine ⟨fun h => h.1 ?_, ?_, ?_⟩
  · decide
  · decide
  · decide

end TwigKV.CacheIndexes
