import Mathlib.Logic.Function.Basic
import Mathlib.Data.Nat.Notation

/-! # The buffer of the cache-index log (`ldc.h`)

Every server keeps a log buffer for each server: slots `0..max_cache_log_index - 1` hold entries,
slot `max_cache_log_index` carries the handshake flag. `append_entry` stores an entry in the next
slot of its own buffer; the background worker of a peer walks the slots of its copy from `0`
upwards, applies every filled one to its replica of the owner's cache index and clears it.

`RDMACacheIndex`, the marker `KEY_VALUE_PTR_INVALID` and `InvalidRDMACacheIndex` are declared by the
cache library: the type is a variable here and the two values are the fields of `LogConstants`. -/

namespace TwigKV.CacheIndexLog

variable {RDMACacheIndex : Type*}

/-- The constants of the cache library that the log uses. -/
structure LogConstants (RDMACacheIndex : Type*) where
  /-- `KEY_VALUE_PTR_INVALID`, compared with an entry's key. -/
  keyValuePtrInvalid : UInt64
  /-- `InvalidRDMACacheIndex`. -/
  invalidRDMACacheIndex : RDMACacheIndex

/-- `CacheIndexLogEntry`. -/
structure CacheIndexLogEntry (RDMACacheIndex : Type*) where
  /-- The key. -/
  key : UInt64
  /-- The owner's index entry for the key. -/
  cacheIndex : RDMACacheIndex
  /-- Set while the entry waits to be applied. -/
  filled : Bool
deriving DecidableEq, Repr

/-- A default-constructed `CacheIndexLogEntry`. -/
def CacheIndexLogEntry.initial (consts : LogConstants RDMACacheIndex) :
    CacheIndexLogEntry RDMACacheIndex :=
  ⟨-1, consts.invalidRDMACacheIndex, false⟩

/-- A log buffer by slot. -/
abbrev LogBuffer (RDMACacheIndex : Type*) : Type _ := ℕ → CacheIndexLogEntry RDMACacheIndex

/-- A replica of a server's cache index by key. -/
abbrev CacheIndex (RDMACacheIndex : Type*) : Type _ := UInt64 → RDMACacheIndex

/-- A slot with its `filled` flag set. -/
def setFilled (log : LogBuffer RDMACacheIndex) (slot : ℕ) : LogBuffer RDMACacheIndex :=
  Function.update log slot { log slot with filled := true }

/-- A slot with its `filled` flag cleared. -/
def clearFilled (log : LogBuffer RDMACacheIndex) (slot : ℕ) : LogBuffer RDMACacheIndex :=
  Function.update log slot { log slot with filled := false }

/-- The first lines of `append_entry`: the entry, marked as filled, goes to the slot the running
index falls on. The index is a 64-bit counter of calls and wraps. -/
def storeEntry (maxCacheLogIndex : ℕ) (logIndex : UInt64)
    (entry : CacheIndexLogEntry RDMACacheIndex) (log : LogBuffer RDMACacheIndex) :
    LogBuffer RDMACacheIndex :=
  Function.update log (logIndex.toNat % maxCacheLogIndex) { entry with filled := true }

/-- One step of the background worker: the body of its loop over the slots `j`. -/
def applySlot (consts : LogConstants RDMACacheIndex) (j : ℕ)
    (st : LogBuffer RDMACacheIndex × CacheIndex RDMACacheIndex) :
    LogBuffer RDMACacheIndex × CacheIndex RDMACacheIndex :=
  let entry := st.1 j
  if !entry.filled then st
  else if entry.key = consts.keyValuePtrInvalid then (clearFilled st.1 j, st.2)
  else (clearFilled st.1 j, Function.update st.2 entry.key entry.cacheIndex)

/-- The background worker from slot `start` to the end of its pass over one log: the remaining slots
and then the handshake flag. -/
def sweepFrom (consts : LogConstants RDMACacheIndex) (maxCacheLogIndex start : ℕ)
    (st : LogBuffer RDMACacheIndex × CacheIndex RDMACacheIndex) :
    LogBuffer RDMACacheIndex × CacheIndex RDMACacheIndex :=
  let swept := (List.range' start (maxCacheLogIndex - start)).foldl
    (fun st j => applySlot consts j st) st
  (clearFilled swept.1 maxCacheLogIndex, swept.2)

/-! ## What the steps do -/

/-- A slot other than the flagged one is unchanged. -/
theorem setFilled_of_ne (log : LogBuffer RDMACacheIndex) {slot j : ℕ} (h : j ≠ slot) :
    setFilled log slot j = log j :=
  Function.update_of_ne h _ _

/-- A slot other than the cleared one is unchanged. -/
theorem clearFilled_of_ne (log : LogBuffer RDMACacheIndex) {slot j : ℕ} (h : j ≠ slot) :
    clearFilled log slot j = log j :=
  Function.update_of_ne h _ _

/-- A cleared slot keeps its key and index entry. -/
theorem clearFilled_self (log : LogBuffer RDMACacheIndex) (slot : ℕ) :
    clearFilled log slot slot = { log slot with filled := false } :=
  Function.update_self _ _ _

/-- Applying a slot clears it. -/
theorem applySlot_fst (consts : LogConstants RDMACacheIndex) (j : ℕ)
    (st : LogBuffer RDMACacheIndex × CacheIndex RDMACacheIndex) :
    (applySlot consts j st).1 = clearFilled st.1 j := by
  rw [applySlot]
  cases hf : (st.1 j).filled with
  | true =>
      simp only [Bool.not_true, Bool.false_eq_true, if_false]
      split
      · rfl
      · rfl
  | false =>
      simp only [Bool.not_false, if_true]
      rw [clearFilled, ← hf, Function.update_eq_self]

end TwigKV.CacheIndexLog
