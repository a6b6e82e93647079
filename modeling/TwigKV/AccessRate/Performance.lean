import TwigKV.AccessRate.GetAndSortFreq

/-! # Searching the split of the cache (`access_rate_calculations.cpp`)

`calculate_performance` charges the accesses to the first keys of the cdf at cache latency, to the
next ones at remote latency and to the rest at disk latency, and returns a 64-bit reciprocal of the
sum. `itr_through_all_the_perf_values_to_find_optimal` tries every number of local keys and
publishes the best one as water marks, with the frequency, bucket and key found at that position of
the cdf as cutoffs. -/

namespace TwigKV.AccessRate

/-- The three average latencies in nanoseconds. -/
structure Latencies where
  /-- `cache_ns_avg`. -/
  cacheNsAvg : UInt64
  /-- `disk_ns_avg`. -/
  diskNsAvg : UInt64
  /-- `rdma_ns_avg`. -/
  rdmaNsAvg : UInt64
deriving DecidableEq, Repr

/-- The position `get_sum_freq_till_index` reads for an index: the last one from the end on. -/
def clampIndex (cdf : CDFType) (index : ℕ) : ℕ :=
  if cdf.sortedKeyFreqs.length ≤ index then cdf.sortedKeyFreqs.length - 1 else index

/-- `key_freq_bucket_map[key].first` for the key at a position: `operator[]` gives a missing key the
value `0`. -/
def prefixSumAt (cdf : CDFType) (position : ℕ) : UInt64 :=
  match cdf.sortedKeyFreqs[position]? with
  | some e => ((cdf.keyFreqBucketMap e.key).map Prod.fst).getD 0
  | none => 0

/-- `get_sum_freq_till_index`. -/
def getSumFreqTillIndex (cdf : CDFType) (start stop : ℕ) : UInt64 :=
  prefixSumAt cdf (clampIndex cdf stop) - prefixSumAt cdf (clampIndex cdf start)

/-- `local_latency + remote_latency + disk_latency` of `calculate_performance`. -/
def totalLatency (cdf : CDFType) (waterMarkLocal waterMarkRemote : UInt64) (ns : Latencies) :
    UInt64 :=
  let totalKeys := cdf.sortedKeyFreqs.length
  let totalLocalAccesses := getSumFreqTillIndex cdf 0 waterMarkLocal.toNat
  let totalRemoteAccesses :=
    getSumFreqTillIndex cdf waterMarkLocal.toNat (waterMarkLocal + waterMarkRemote).toNat
  let totalDiskAccesses :=
    getSumFreqTillIndex cdf (waterMarkRemote + waterMarkLocal).toNat totalKeys
  let localLatency := totalLocalAccesses * ns.cacheNsAvg
  let remoteLatency := (2 * totalRemoteAccesses) / 3 * ns.rdmaNsAvg +
    totalRemoteAccesses / 3 * ns.cacheNsAvg
  let diskLatency := totalDiskAccesses * ns.diskNsAvg
  localLatency + remoteLatency + diskLatency

/-- `calculate_performance`: the 64-bit reciprocal of the total latency, `0` for latency `0`. -/
def calculatePerformance (cdf : CDFType) (waterMarkLocal waterMarkRemote : UInt64)
    (ns : Latencies) : UInt64 :=
  let perfMul : UInt64 := -1
  let latency := totalLatency cdf waterMarkLocal waterMarkRemote ns
  if latency ≠ 0 then perfMul / latency else 0

/-- The best split met so far. -/
structure BestSplit where
  /-- `best_performance`. -/
  performance : UInt64
  /-- `best_water_mark_local`. -/
  waterMarkLocal : UInt64
  /-- `best_water_mark_remote`. -/
  waterMarkRemote : UInt64
deriving DecidableEq, Repr

/-- The search loop over the positions `i` still to come. -/
def searchSplit (cdf : CDFType) (cacheSize : UInt64) (ns : Latencies) :
    List ℕ → BestSplit → BestSplit
  | [], best => best
  | i :: rest, best =>
      let localMark := UInt64.ofNat i
      let remoteMark := cacheSize - 3 * localMark
      -- an unsigned number is never negative: the first break is dead
      if remoteMark < 0 then best
      else if localMark > cacheSize / 3 then best
      else
        let newPerformance := calculatePerformance cdf localMark remoteMark ns
        searchSplit cdf cacheSize ns rest
          (if newPerformance > best.performance then ⟨newPerformance, localMark, remoteMark⟩
          else best)

/-- The result of the search over all positions of the cdf. -/
def findOptimalSplit (cdf : CDFType) (cacheSize : UInt64) (ns : Latencies) : BestSplit :=
  searchSplit cdf cacheSize ns (List.range cdf.sortedKeyFreqs.length) ⟨0, 0, cacheSize⟩

/-- What is passed to `set_access_rate`, `set_bucket_id` and `set_key_id_cutoff` for a number of
local keys: `none` where there is no entry at that position or `std::stoi` throws on its key. -/
def publishedCutoffs (cdf : CDFType) (waterMarkLocal : UInt64) :
    Option (UInt64 × UInt64 × UInt64) :=
  if waterMarkLocal ≠ 0 then
    cdf.sortedKeyFreqs[waterMarkLocal.toNat]?.bind fun e =>
      (stoi e.key).map fun cutoff => (e.freq, e.bucket, UInt64.ofInt cutoff)
  else some (-1, -1, -1)

/-- What is published to the cache. -/
structure PublishedSplit where
  /-- `set_water_marks`, local. -/
  waterMarkLocal : UInt64
  /-- `set_water_marks`, remote. -/
  waterMarkRemote : UInt64
  /-- The cutoffs, `none` where there are none to publish. -/
  cutoffs : Option (UInt64 × UInt64 × UInt64)
deriving DecidableEq, Repr

/-- `itr_through_all_the_perf_values_to_find_optimal`. -/
def itrThroughAllThePerfValuesToFindOptimal (cdf : CDFType) (cacheSize : UInt64)
    (ns : Latencies) : PublishedSplit :=
  let best := findOptimalSplit cdf cacheSize ns
  ⟨best.waterMarkLocal, best.waterMarkRemote, publishedCutoffs cdf best.waterMarkLocal⟩

end TwigKV.AccessRate
