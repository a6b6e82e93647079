import TwigKV.CacheIndexes.IndexMachine
import Mathlib.Data.List.Nodup

/-! # The eviction callback (`RDMAKeyValueCache`)

When the cache evicts a key, a server announces it to its peers in one of two ways: with
`use_cache_logs` it appends an entry for the key to its log, which goes to all peers, otherwise
`dealloc_remote` makes its own index entry invalid and writes it to the peers one by one.

`append_entry_k` serves the write callback as well and copies whatever the own index holds. Nothing
makes the entry of an evicted key invalid before that, so with the logs peers learn that a key is
gone exactly when the owner's entry was invalid already (`eviction_announced_iff`). -/

namespace TwigKV.CacheIndexes

open TwigKV.CacheIndexLog

variable {RDMACacheIndex : Type*}

/-- What the callbacks of a server change. -/
structure Announcements (RDMACacheIndex : Type*) where
  /-- `rdma_cache_indexes[machine_index]`. -/
  ownIndex : CacheIndex RDMACacheIndex
  /-- The RDMA writes of own index entries that have been posted: the peer and `key_index`. -/
  writes : List (ℕ × UInt64)
  /-- The arguments of the `append_entry` calls. -/
  appended : List (CacheIndexLogEntry RDMACacheIndex)

/-- A server that has announced nothing. -/
def Announcements.initial (ownIndex : CacheIndex RDMACacheIndex) :
    Announcements RDMACacheIndex where
  ownIndex := ownIndex
  writes := []
  appended := []

/-- The entries that peer `i` is sent: those of the log, and those that the writes to it carry. A
write carries what the own index holds when it executes. -/
def Announcements.announcedTo (a : Announcements RDMACacheIndex) (i : ℕ) :
    List (UInt64 × RDMACacheIndex) :=
  a.appended.map (fun entry => (entry.key, entry.cacheIndex))
    ++ (a.writes.filter fun write => write.1 = i).map fun write => (write.2, a.ownIndex write.2)

/-- `append_entry_k`. -/
def appendEntryK (a : Announcements RDMACacheIndex) (keyIndex : UInt64) :
    Announcements RDMACacheIndex :=
  let cacheIndex := a.ownIndex keyIndex
  { a with appended := a.appended ++ [CacheIndexLogEntry.mk keyIndex cacheIndex true] }

/-- The body of the loop of `dealloc_remote`. -/
def deallocRemoteStep (consts : LogConstants RDMACacheIndex) (m : ℕ) (keyIndex : UInt64)
    (a : Announcements RDMACacheIndex) (i : ℕ) : Announcements RDMACacheIndex :=
  if m = i then a
  else
    { a with
      ownIndex := Function.update a.ownIndex keyIndex consts.invalidRDMACacheIndex
      writes := a.writes ++ [(i, keyIndex)] }

/-- `dealloc_remote`. -/
def deallocRemote (consts : LogConstants RDMACacheIndex) (numServers m : ℕ)
    (a : Announcements RDMACacheIndex) (keyIndex : UInt64) : Announcements RDMACacheIndex :=
  (List.range numServers).foldl (deallocRemoteStep consts m keyIndex) a

/-- The eviction callback. -/
def evictionCallback (consts : LogConstants RDMACacheIndex) (useCacheLogs : Bool)
    (numServers m : ℕ) (a : Announcements RDMACacheIndex) (keyIndex : UInt64) :
    Announcements RDMACacheIndex :=
  if useCacheLogs then appendEntryK a keyIndex else deallocRemote consts numServers m a keyIndex

/-- The eviction of a key has been announced: every peer is sent one entry, the invalid one, and the
own entry is invalid. -/
def EvictionAnnounced (consts : LogConstants RDMACacheIndex) (numServers m : ℕ)
    (a : Announcements RDMACacheIndex) (keyIndex : UInt64) : Prop :=
  (∀ i, i < numServers → i ≠ m → a.announcedTo i = [(keyIndex, consts.invalidRDMACacheIndex)]) ∧
    a.ownIndex keyIndex = consts.invalidRDMACacheIndex

/-! ## `dealloc_remote` -/

section Dealloc

variable {consts : LogConstants RDMACacheIndex} {m : ℕ} {keyIndex : UInt64}

/-- The loop posts one write for each server but the owner. -/
theorem foldl_deallocRemoteStep_writes (a : Announcements RDMACacheIndex) (servers : List ℕ) :
    (servers.foldl (deallocRemoteStep consts m keyIndex) a).writes
      = a.writes ++ (servers.filter fun i => m ≠ i).map fun i => (i, keyIndex) := by
  induction servers generalizing a with
  | nil => exact (List.append_nil _).symm
  | cons i servers ih =>
    rw [List.foldl_cons, ih, deallocRemoteStep]
    by_cases howner : m = i
    · rw [if_pos howner, List.filter_cons_of_neg (by simpa using howner)]
    · rw [if_neg howner, List.filter_cons_of_pos (by simpa using howner), List.map_cons,
        List.append_assoc, List.singleton_append]

/-- It appends nothing to the log. -/
theorem foldl_deallocRemoteStep_appended (a : Announcements RDMACacheIndex) (servers : List ℕ) :
    (servers.foldl (deallocRemoteStep consts m keyIndex) a).appended = a.appended := by
  induction servers generalizing a with
  | nil => rfl
  | cons i servers ih =>
    rw [List.foldl_cons, ih, deallocRemoteStep]
    split
    · rfl
    · rfl

/-- An entry that is invalid stays invalid. -/
theorem foldl_deallocRemoteStep_invalid {a : Announcements RDMACacheIndex} (servers : List ℕ)
    (h : a.ownIndex keyIndex = consts.invalidRDMACacheIndex) :
    (servers.foldl (deallocRemoteStep consts m keyIndex) a).ownIndex keyIndex
      = consts.invalidRDMACacheIndex := by
  induction servers generalizing a with
  | nil => exact h
  | cons i servers ih =>
    rw [List.foldl_cons]
    apply ih
    rw [deallocRemoteStep]
    split
    · exact h
    · exact Function.update_self _ _ _

/-- With a peer among the servers the entry becomes invalid. -/
theorem foldl_deallocRemoteStep_ownIndex (a : Announcements RDMACacheIndex) {servers : List ℕ}
    {peer : ℕ} (hmem : peer ∈ servers) (hne : m ≠ peer) :
    (servers.foldl (deallocRemoteStep consts m keyIndex) a).ownIndex keyIndex
      = consts.invalidRDMACacheIndex := by
  induction servers generalizing a with
  | nil => exact absurd hmem List.not_mem_nil
  | cons i servers ih =>
    rw [List.foldl_cons]
    rcases List.mem_cons.mp hmem with rfl | hrest
    · -- the peer is this server: the entry is made invalid here
      apply foldl_deallocRemoteStep_invalid
      rw [deallocRemoteStep, if_neg hne]
      exact Function.update_self _ _ _
    · exact ih _ hrest

/-- A server that has a peer announces the eviction. -/
theorem deallocRemote_announced {numServers : ℕ} (hn : 2 ≤ numServers) (hm : m < numServers)
    (ownIndex : CacheIndex RDMACacheIndex) :
    EvictionAnnounced consts numServers m
      (deallocRemote consts numServers m (.initial ownIndex) keyIndex) keyIndex := by
  have hinvalid : (deallocRemote consts numServers m (.initial ownIndex) keyIndex).ownIndex keyIndex
      = consts.invalidRDMACacheIndex := by
    -- one of servers 0 and 1 is a peer
    rcases Nat.eq_zero_or_pos m with hzero | hpos
    · exact foldl_deallocRemoteStep_ownIndex _ (List.mem_range.mpr (show 1 < numServers from hn))
        (by omega)
    · exact foldl_deallocRemoteStep_ownIndex _
        (List.mem_range.mpr (lt_trans hpos hm)) hpos.ne'
  refine ⟨?_, hinvalid⟩
  intro i hi hne
  have happended : (deallocRemote consts numServers m (.initial ownIndex) keyIndex).appended = [] :=
    foldl_deallocRemoteStep_appended _ _
  have hwrites : (deallocRemote consts numServers m (.initial ownIndex) keyIndex).writes
      = ((List.range numServers).filter fun j => m ≠ j).map fun j => (j, keyIndex) :=
    foldl_deallocRemoteStep_writes _ _
  -- the loop comes to server `i` once
  have hmem : i ∈ (List.range numServers).filter fun j => m ≠ j :=
    List.mem_filter.mpr ⟨List.mem_range.mpr hi, by simpa using hne.symm⟩
  have honce : ((List.range numServers).filter fun j => m ≠ j).filter (fun j => j = i) = [i] := by
    rw [List.filter_eq, List.count_eq_one_of_mem (List.nodup_range.filter _) hmem]
    rfl
  have hpeer : ((fun write : ℕ × UInt64 => decide (write.1 = i)) ∘ fun j => (j, keyIndex))
      = fun j => decide (j = i) := rfl
  rw [Announcements.announcedTo, happended, hwrites, List.filter_map, hpeer, honce]
  show [(keyIndex, _)] = _
  rw [hinvalid]

end Dealloc

/-! ## Both modes -/

/-- **When an eviction is announced.** For every content of the own index, any number of servers and
every evicted key, each peer is sent exactly the invalid entry and the own entry is invalid
afterwards if and only if the logs are off or the own entry was invalid before. -/
theorem eviction_announced_iff (consts : LogConstants RDMACacheIndex) (useCacheLogs : Bool)
    {numServers m : ℕ} (hn : 2 ≤ numServers) (hm : m < numServers)
    (ownIndex : CacheIndex RDMACacheIndex) (keyIndex : UInt64) :
    EvictionAnnounced consts numServers m
        (evictionCallback consts useCacheLogs numServers m (.initial ownIndex) keyIndex) keyIndex
      ↔ (useCacheLogs = true → ownIndex keyIndex = consts.invalidRDMACacheIndex) := by
  cases useCacheLogs with
  | false =>
    constructor
    · intro _ hlogs
      cases hlogs
    · intro _
      exact deallocRemote_announced hn hm ownIndex
  | true =>
    -- the log entry is a copy of the own entry, which stays as it is
    constructor
    · rintro ⟨-, hown⟩ _
      exact hown
    · intro hinvalid
      refine ⟨?_, hinvalid rfl⟩
      intro i _ _
      show [(keyIndex, ownIndex keyIndex)] = _
      rw [hinvalid rfl]

/-- With the logs off the eviction of a key with a valid entry is announced. -/
theorem eviction_announced_iff_two_servers :
    EvictionAnnounced offsetConsts.toLogConstants 2 0
      (evictionCallback offsetConsts.toLogConstants false 2 0 (.initial fun _ => 7) 3) 3 :=
  (eviction_announced_iff offsetConsts.toLogConstants false (by decide) (by decide) (fun _ => 7)
    3).mpr fun hlogs => by cases hlogs

/-- With the logs on the peers are sent the offset of the evicted key, and it stays in the own
index. -/
theorem eviction_not_announced_with_logs :
    ¬ EvictionAnnounced offsetConsts.toLogConstants 2 0
      (evictionCallback offsetConsts.toLogConstants true 2 0 (.initial fun _ => 7) 3) 3 := by
  rintro ⟨-, hown⟩
  exact absurd hown (by decide)

end TwigKV.CacheIndexes
