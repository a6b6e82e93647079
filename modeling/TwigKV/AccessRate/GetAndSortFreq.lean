import TwigKV.Foundations.BucketMap
import TwigKV.Foundations.DecimalText
import TwigKV.Foundations.Word64
import Mathlib.Logic.Function.Basic

/-! # Building the cdf of access frequencies (`access_rate_calculations.cpp`)

`get_and_sort_freq` turns the cache's key frequencies into a cdf: the keys by descending frequency,
the keys of the data set that are missing appended with frequency `0`, each key put into the bucket
of the percentile of accesses it reaches, and inside a bucket the keys in descending numeric order.
A companion map gives each key the sum of the frequencies up to it and its bucket.

`none` is an exception or an access outside an array: `std::stoi` and `std::stoull` may throw, the
percentile divides by the total frequency, and `key_map` has `total_keys + 1` elements. -/

namespace TwigKV.AccessRate

/-- An entry of `sorted_key_freqs`: the tuple of frequency, key and bucket. -/
structure CdfEntry where
  /-- The number of accesses. -/
  freq : UInt64
  /-- The key. -/
  key : String
  /-- The percentile bucket. -/
  bucket : UInt64
deriving DecidableEq, Repr

/-- `CDFType`: the entries and, for each key, the sum of frequencies up to it and its bucket. -/
structure CDFType where
  /-- `std::get<0>(cdf)`. -/
  sortedKeyFreqs : List CdfEntry
  /-- `std::get<1>(cdf)`. -/
  keyFreqBucketMap : String → Option (UInt64 × UInt64)

/-- `std::greater` on pairs of a frequency and a key. -/
def greaterPair (a b : UInt64 × String) : Bool :=
  decide (b.1 < a.1) || (!decide (a.1 < b.1) && decide (b.2 < a.2))

/-- The comparison inside a bucket: `std::stoull(a.second) > std::stoull(b.second)`. -/
def greaterNumber (a b : UInt64 × String) : Bool :=
  decide ((stoull b.2).getD 0 < (stoull a.2).getD 0)

/-- The keys found in the list, as `key_map` of `total_keys + 1` booleans. -/
def markKeys (totalKeys : UInt64) : (ℕ → Bool) → List (UInt64 × String) → Option (ℕ → Bool)
  | keyMap, [] => some keyMap
  | keyMap, kv :: rest =>
      (stoi kv.2).bind fun i =>
        if 0 ≤ i ∧ i < (totalKeys + 1).toNat then
          markKeys totalKeys (Function.update keyMap i.toNat true) rest
        else none

/-- Sorting by descending frequency, truncating to `total_keys` entries and appending the missing
keys `1..total_keys` with frequency `0`. -/
def completeKeyFreq (keyFreq : List (String × UInt64)) (totalKeys : UInt64) :
    Option (List (UInt64 × String)) :=
  let sortedKeyFreq :=
    (stdSort greaterPair (keyFreq.map fun it => (it.2, it.1))).take totalKeys.toNat
  -- the array is empty when `total_keys + 1` wraps
  if totalKeys + 1 = 0 then none
  else
    (markKeys totalKeys (fun _ => false) sortedKeyFreq).map fun keyMap =>
      sortedKeyFreq ++
        (((List.range' 1 totalKeys.toNat).filter fun i => !keyMap i).map fun i => (0, toString i))

/-- The loop that puts every key into the bucket of its percentile. -/
def fillBuckets (totalFreq : UInt64) :
    UInt64 → BucketMap UInt64 (UInt64 × String) → List (UInt64 × String) →
      BucketMap UInt64 (UInt64 × String)
  | _, cdfBuckets, [] => cdfBuckets
  | cumulativeFreq, cdfBuckets, kv :: rest =>
      let cumulativeFreq := cumulativeFreq + kv.1
      let percentile := cumulativeFreq * 100 / totalFreq
      fillBuckets totalFreq cumulativeFreq (cdfBuckets.pushBack percentile kv) rest

/-- One step of the inner loop that publishes a bucket: append the entry, add its frequency to
`total_cum_sum` and record the key in the companion map. -/
def publishEntry (bucket : UInt64) (acc : CDFType × UInt64) (it : UInt64 × String) :
    CDFType × UInt64 :=
  let totalCumSum := acc.2 + it.1
  (⟨acc.1.sortedKeyFreqs ++ [⟨it.1, it.2, bucket⟩],
    Function.update acc.1.keyFreqBucketMap it.2 (some (totalCumSum, bucket))⟩, totalCumSum)

/-- The sort of one bucket, `none` where a comparison throws: with two keys or more every key is
compared. -/
def sortBucket (bucketKeys : List (UInt64 × String)) : Option (List (UInt64 × String)) :=
  if bucketKeys.length < 2 ∨ ∀ kv ∈ bucketKeys, (stoull kv.2).isSome then
    some (stdSort greaterNumber bucketKeys)
  else none

/-- The loop over the buckets in ascending order. -/
def publishBuckets :
    CDFType × UInt64 → List (UInt64 × List (UInt64 × String)) → Option (CDFType × UInt64)
  | acc, [] => some acc
  | acc, bucket :: rest =>
      (sortBucket bucket.2).bind fun bucketKeys =>
        publishBuckets (bucketKeys.foldl (publishEntry bucket.1) acc) rest

/-- `get_and_sort_freq`. -/
def getAndSortFreq (keyFreq : List (String × UInt64)) (totalKeys : UInt64) : Option CDFType :=
  (completeKeyFreq keyFreq totalKeys).bind fun sortedKeyFreq =>
    let totalFreq := sortedKeyFreq.foldl (fun total kv => total + kv.1) 0
    -- the percentile of the first entry divides by the total frequency
    if totalFreq = 0 ∧ sortedKeyFreq ≠ [] then none
    else
      (publishBuckets (⟨[], fun _ => none⟩, 0)
        (fillBuckets totalFreq 0 BucketMap.empty sortedKeyFreq).buckets).map Prod.fst

end TwigKV.AccessRate
