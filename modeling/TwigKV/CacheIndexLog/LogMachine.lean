import TwigKV.CacheIndexLog.LogEntries
import TwigKV.Foundations.DoubleUpdate
import TwigKV.Foundations.LabelledRun
import TwigKV.Rdma.QueuePairs

/-! # The cache-index logs of all servers (`CacheIndexLogs`)

The state of `n` servers, each with a copy of every server's log buffer and a replica of every
server's cache index. The threads of the program move one step at a time:

* `append_entry` on a server stores its entry; on slot `0` it first reads the peers' readiness one
  by one until all are ready, then writes the whole buffer to the peers one by one;
* the background worker of a server walks the copies of the other servers' logs slot by slot and
  clears the flag slot at the end of each log.

RDMA reads and writes go through `connectQps` and are atomic. The ghost fields number the buffers
written into each copy, list the filled entries that still await the worker, and record where the
worker has taken its steps since the last write. -/

namespace TwigKV.CacheIndexLog

open TwigKV.Rdma

variable {RDMACacheIndex : Type*}

/-- Where a server's `append_entry` stands. -/
inductive AppenderPc where
  /-- Between two calls. -/
  | idle
  /-- In the readiness loop, about to look at machine `i`, with `machinesReady` ready ones so
  far. -/
  | reading (i machinesReady : ℕ)
  /-- In the loop over the writes, about to write to machine `i`. -/
  | writing (i : ℕ)
deriving DecidableEq, Repr

/-- The logs and replicas of all servers. -/
structure LogsState (RDMACacheIndex : Type*) where
  /-- `logs s m`: the copy of server `m`'s log buffer at server `s`. -/
  logs : ℕ → ℕ → LogBuffer RDMACacheIndex
  /-- `index` of every server's own log. -/
  logIndex : ℕ → UInt64
  /-- `replicas s m`: server `s`'s replica of server `m`'s cache index. -/
  replicas : ℕ → ℕ → CacheIndex RDMACacheIndex
  /-- Where every server's `append_entry` stands. -/
  appender : ℕ → AppenderPc
  /-- The log and the slot every server's background worker looks at next. -/
  worker : ℕ → ℕ × ℕ
  /-- Ghost: the number of buffers written into `logs s m` by server `m`. -/
  batch : ℕ → ℕ → ℕ
  /-- Ghost: the batch number and slot of the filled entries written into `logs s m` that server
  `s` has not applied. -/
  unapplied : ℕ → ℕ → List (ℕ × ℕ)
  /-- Ghost: the slots of `logs s m` at which the worker of `s` has taken a step since server `m`
  last wrote there. -/
  passed : ℕ → ℕ → List ℕ

/-- The state after construction. -/
def LogsState.initial (consts : LogConstants RDMACacheIndex)
    (replicas : ℕ → ℕ → CacheIndex RDMACacheIndex) : LogsState RDMACacheIndex where
  logs := fun _ _ _ => .initial consts
  logIndex := fun _ => 0
  replicas := replicas
  appender := fun _ => .idle
  worker := fun _ => (0, 0)
  batch := fun _ _ => 0
  unapplied := fun _ _ => []
  passed := fun _ _ => []

/-- Who moves. -/
inductive LogLabel (RDMACacheIndex : Type*) where
  /-- Server `m` calls `append_entry`. -/
  | append (m : ℕ) (entry : CacheIndexLogEntry RDMACacheIndex)
  /-- Server `m` takes a step of its readiness loop. -/
  | checkReady (m : ℕ)
  /-- Server `m` takes a step of its loop over the writes. -/
  | shipLog (m : ℕ)
  /-- The background worker of server `s` takes a step. -/
  | workerStep (s : ℕ)
deriving DecidableEq, Repr

/-- A write of the whole buffer: slots `0..max_cache_log_index`. -/
def copyBuffer (maxCacheLogIndex : ℕ) (source target : LogBuffer RDMACacheIndex) :
    LogBuffer RDMACacheIndex := fun j => if j ≤ maxCacheLogIndex then source j else target j

/-- The filled slots of a buffer below the flag slot. -/
def filledSlots (maxCacheLogIndex : ℕ) (log : LogBuffer RDMACacheIndex) : List ℕ :=
  (List.range maxCacheLogIndex).filter fun j => (log j).filled

/-- `append_entry` up to the readiness loop. -/
def appendStep (maxCacheLogIndex : ℕ) (st : LogsState RDMACacheIndex) (m : ℕ)
    (entry : CacheIndexLogEntry RDMACacheIndex) : LogsState RDMACacheIndex :=
  { st with
    logs := update₂ st.logs m m
      (storeEntry maxCacheLogIndex (st.logIndex m) entry (st.logs m m))
    logIndex := Function.update st.logIndex m (st.logIndex m + 1)
    appender := Function.update st.appender m
      (if (st.logIndex m).toNat % maxCacheLogIndex = 0 then .reading 0 0 else .idle) }

/-- The RDMA read of the readiness loop: entry `0` of the region behind the queue pair
`i * n + m` goes to the flag slot of the server's own buffer. -/
def readReadiness (maxCacheLogIndex : ℕ) (st : LogsState RDMACacheIndex) (m i machinesReady : ℕ)
    (region : Region) : LogsState RDMACacheIndex :=
  let lastEntry := st.logs region.server region.port 0
  { st with
    logs := update₂ st.logs m m (Function.update (st.logs m m) maxCacheLogIndex lastEntry)
    appender := Function.update st.appender m
      (.reading (i + 1) (if !lastEntry.filled then machinesReady + 1 else machinesReady)) }

/-- The end of the readiness loop: with all peers ready the flag slot is set and the writes begin,
otherwise the loop starts again. -/
def finishReadiness (numServers maxCacheLogIndex : ℕ) (st : LogsState RDMACacheIndex)
    (m machinesReady : ℕ) : LogsState RDMACacheIndex :=
  if machinesReady = numServers - 1 then
    { st with
      logs := update₂ st.logs m m (setFilled (st.logs m m) maxCacheLogIndex)
      appender := Function.update st.appender m (.writing 0) }
  else { st with appender := Function.update st.appender m (.reading 0 0) }

/-- The RDMA write of the server's own buffer to the region behind a queue pair. -/
def writeLog (maxCacheLogIndex : ℕ) (st : LogsState RDMACacheIndex) (m i : ℕ) (region : Region) :
    LogsState RDMACacheIndex :=
  { st with
    logs := update₂ st.logs region.server region.port
      (copyBuffer maxCacheLogIndex (st.logs m m) (st.logs region.server region.port))
    appender := Function.update st.appender m (.writing (i + 1))
    batch := update₂ st.batch region.server region.port (st.batch region.server region.port + 1)
    unapplied := update₂ st.unapplied region.server region.port
      (st.unapplied region.server region.port ++
        (filledSlots maxCacheLogIndex (st.logs m m)).map fun j =>
          (st.batch region.server region.port + 1, j))
    passed := update₂ st.passed region.server region.port [] }

/-- The background worker applies slot `j` of the copy of server `m`'s log. -/
def applyStep (consts : LogConstants RDMACacheIndex) (st : LogsState RDMACacheIndex) (s m j : ℕ) :
    LogsState RDMACacheIndex :=
  let applied := applySlot consts j (st.logs s m, st.replicas s m)
  { st with
    logs := update₂ st.logs s m applied.1
    replicas := update₂ st.replicas s m applied.2
    worker := Function.update st.worker s (m, j + 1)
    unapplied := update₂ st.unapplied s m
      (if (st.logs s m j).filled then
        (st.unapplied s m).filter fun p => p ≠ (st.batch s m, j)
      else st.unapplied s m)
    passed := update₂ st.passed s m (j :: st.passed s m) }

/-- One step of the logs: `none` where the label is not enabled. -/
def logStep (consts : LogConstants RDMACacheIndex) (numServers maxCacheLogIndex : ℕ)
    (st : LogsState RDMACacheIndex) : LogLabel RDMACacheIndex → Option (LogsState RDMACacheIndex)
  | .append m entry =>
      if m < numServers ∧ st.appender m = .idle then
        some (appendStep maxCacheLogIndex st m entry)
      else none
  | .checkReady m =>
      match st.appender m with
      | .reading i machinesReady =>
          if i < numServers then
            if i = m then
              some { st with
                appender := Function.update st.appender m (.reading (i + 1) machinesReady) }
            else
              (connectQps numServers)[i * numServers + m]?.map
                (readReadiness maxCacheLogIndex st m i machinesReady)
          else some (finishReadiness numServers maxCacheLogIndex st m machinesReady)
      | _ => none
  | .shipLog m =>
      match st.appender m with
      | .writing i =>
          if i < numServers then
            if i = m then
              some { st with appender := Function.update st.appender m (.writing (i + 1)) }
            else
              (connectQps numServers)[m * numServers + i]?.map (writeLog maxCacheLogIndex st m i)
          else some { st with appender := Function.update st.appender m .idle }
      | _ => none
  | .workerStep s =>
      if s < numServers then
        let (m, j) := st.worker s
        if m < numServers then
          if m = s then some { st with worker := Function.update st.worker s (m + 1, 0) }
          else if j < maxCacheLogIndex then some (applyStep consts st s m j)
          else
            some { st with
              logs := update₂ st.logs s m (clearFilled (st.logs s m) maxCacheLogIndex)
              worker := Function.update st.worker s (m + 1, 0) }
        else some { st with worker := Function.update st.worker s (0, 0) }
      else none

end TwigKV.CacheIndexLog
