import TwigKV.Foundations.LastWrite
import Mathlib.Logic.Nontrivial.Basic
import Mathlib.Data.Set.Defs
import Mathlib.Tactic.Push

/-! # Fixed-size records at placed ranges

A store that keeps every key's record in `len` consecutive cells of some region, at an offset given
by a placement function, is meant to behave like a map from keys to records. It does when the ranges
of any two distinct keys are disjoint (`refinesMap_of_disjoint`) and does not when two of them
overlap (`not_refinesMap_of_overlap`). Regions, keys and cell values are arbitrary types. -/

namespace TwigKV

variable {Region Key α : Type*}

/-! ## Ranges of cells -/

/-- Overwrite the cells `off, …, off + len - 1` with a record. -/
def writeRange {len : ℕ} (cells : ℕ → α) (off : ℕ) (record : Fin len → α) : ℕ → α := fun i =>
  if h : off ≤ i ∧ i < off + len then record ⟨i - off, by omega⟩ else cells i

/-- The record in the cells `off, …, off + len - 1`. -/
def readRange (len : ℕ) (cells : ℕ → α) (off : ℕ) : Fin len → α := fun j => cells (off + j)

/-- A cell inside the written range holds the record's cell. -/
theorem writeRange_of_mem {len : ℕ} {cells : ℕ → α} {off i : ℕ} {record : Fin len → α}
    (h : off ≤ i ∧ i < off + len) :
    writeRange cells off record i = record ⟨i - off, by omega⟩ := by
  rw [writeRange, dif_pos h]

/-- A cell outside the written range is untouched. -/
theorem writeRange_of_not_mem {len : ℕ} {cells : ℕ → α} {off i : ℕ} {record : Fin len → α}
    (h : ¬ (off ≤ i ∧ i < off + len)) : writeRange cells off record i = cells i := by
  rw [writeRange, dif_neg h]

/-- Reading a range just written gives the record. -/
theorem readRange_writeRange_self {len : ℕ} (cells : ℕ → α) (off : ℕ) (record : Fin len → α) :
    readRange len (writeRange cells off record) off = record := by
  funext j
  have hj := j.isLt
  rw [readRange, writeRange_of_mem ⟨by omega, by omega⟩]
  congr 1
  exact Fin.ext (by simp)

/-- Writing a disjoint range does not change what a range reads. -/
theorem readRange_writeRange_of_disjoint {len : ℕ} (cells : ℕ → α) {off off' : ℕ}
    (record : Fin len → α) (h : off + len ≤ off' ∨ off' + len ≤ off) :
    readRange len (writeRange cells off record) off' = readRange len cells off' := by
  funext j
  have hj := j.isLt
  rw [readRange, readRange, writeRange_of_not_mem (by omega)]

/-! ## Records in regions -/

/-- A place: a region and the offset of the record in it. -/
abbrev Place (Region : Type*) : Type _ := Region × ℕ

/-- Two places whose `len`-cell ranges share no cell. -/
def RangesDisjoint (len : ℕ) (p p' : Place Region) : Prop :=
  p.1 = p'.1 → p.2 + len ≤ p'.2 ∨ p'.2 + len ≤ p.2

/-- The record at a place. -/
def getRecord (len : ℕ) (store : Region → ℕ → α) (p : Place Region) : Fin len → α :=
  readRange len (store p.1) p.2

variable [DecidableEq Region]

/-- Write a record at a place. -/
def putRecord {len : ℕ} (store : Region → ℕ → α) (p : Place Region) (record : Fin len → α) :
    Region → ℕ → α :=
  Function.update store p.1 (writeRange (store p.1) p.2 record)

/-- Reading the place just written gives the record. -/
theorem getRecord_putRecord_self {len : ℕ} (store : Region → ℕ → α) (p : Place Region)
    (record : Fin len → α) : getRecord len (putRecord store p record) p = record := by
  rw [getRecord, putRecord, Function.update_self, readRange_writeRange_self]

/-- Writing a disjoint place changes no other record. -/
theorem getRecord_putRecord_of_disjoint {len : ℕ} (store : Region → ℕ → α) {p p' : Place Region}
    (record : Fin len → α) (h : RangesDisjoint len p p') :
    getRecord len (putRecord store p record) p' = getRecord len store p' := by
  rw [getRecord, getRecord, putRecord]
  by_cases hr : p.1 = p'.1
  · rw [← hr, Function.update_self, readRange_writeRange_of_disjoint _ _ (h hr)]
  · rw [Function.update_of_ne (Ne.symm hr)]

/-- Writing an overlapping place can change a record: the record of `p'` is read back changed when
`p` is overwritten with a record that differs from it in every cell. -/
theorem getRecord_putRecord_ne_of_overlap {len : ℕ} (store : Region → ℕ → α) {p p' : Place Region}
    (h : ¬ RangesDisjoint len p p') {x y : α} (hxy : x ≠ y) :
    getRecord len (putRecord (putRecord store p' fun _ : Fin len => y) p fun _ : Fin len => x) p'
      ≠ fun _ => y := by
  intro hread
  unfold RangesDisjoint at h
  push Not at h
  obtain ⟨hr, hlt, hlt'⟩ := h
  -- the cell where the later of the two ranges starts belongs to both
  have hj : max p.2 p'.2 - p'.2 < len := by omega
  have hcell := congrFun hread ⟨max p.2 p'.2 - p'.2, hj⟩
  rw [getRecord, putRecord, hr, Function.update_self, readRange, writeRange_of_mem] at hcell
  · exact hxy hcell
  · simp only
    omega

/-! ## Stores as maps -/

variable [DecidableEq Key]

/-- The store after a sequence of writes, each at the place of its key. -/
def putRecords {len : ℕ} (place : Key → Place Region) (store : Region → ℕ → α)
    (writes : List (Key × (Fin len → α))) : Region → ℕ → α :=
  writes.foldl (fun st w => putRecord st (place w.1) w.2) store

/-- **The store refines a map** on the keys of `S`: after any writes to keys of `S`, from any
initial contents, every written key reads back the record written to it last. -/
def RefinesMap (α : Type*) (len : ℕ) (place : Key → Place Region) (S : Set Key) : Prop :=
  ∀ (store : Region → ℕ → α) (writes : List (Key × (Fin len → α))), (∀ w ∈ writes, w.1 ∈ S) →
    ∀ k record, lastWritten writes k = some record →
      getRecord len (putRecords place store writes) (place k) = record

/-- Pairwise disjoint ranges make the store a map: one more write sets the record of its own key and
leaves the records of all other keys. -/
theorem refinesMap_of_disjoint {len : ℕ} {place : Key → Place Region} {S : Set Key}
    (hd : ∀ k ∈ S, ∀ k' ∈ S, k ≠ k' → RangesDisjoint len (place k) (place k')) :
    RefinesMap α len place S := by
  intro store writes
  induction writes using List.reverseRecOn with
  | nil =>
      intro _ k record hk
      exact absurd hk (by simp [lastWritten])
  | append_singleton writes w ih =>
      intro hS k record hk
      have hw : w.1 ∈ S := hS w (by simp)
      have hSw : ∀ w' ∈ writes, w'.1 ∈ S := fun w' hw' => hS w' (by simp [hw'])
      have hput : putRecords place store (writes ++ [w])
          = putRecord (putRecords place store writes) (place w.1) w.2 := by
        rw [putRecords, List.foldl_append, List.foldl_cons, List.foldl_nil, putRecords]
      rw [lastWritten_append_singleton] at hk
      rw [hput]
      by_cases hkw : k = w.1
      · subst hkw
        rw [Function.update_self, Option.some.injEq] at hk
        rw [getRecord_putRecord_self, hk]
      · rw [Function.update_of_ne hkw] at hk
        have hkS : k ∈ S := hSw (k, record) (mem_of_lastWritten hk)
        rw [getRecord_putRecord_of_disjoint _ _ (hd w.1 hw k hkS (Ne.symm hkw))]
        exact ih hSw k record hk

/-- Two overlapping ranges break the map: writing both keys loses the first record. -/
theorem not_refinesMap_of_overlap [Nontrivial α] {len : ℕ} {place : Key → Place Region}
    {S : Set Key} {k k' : Key} (hk : k ∈ S) (hk' : k' ∈ S) (hne : k ≠ k')
    (ho : ¬ RangesDisjoint len (place k) (place k')) : ¬ RefinesMap α len place S := by
  intro h
  obtain ⟨x, y, hxy⟩ := exists_pair_ne α
  have hread := h (fun _ _ => x) [(k', fun _ => y), (k, fun _ => x)]
    (by simp [hk, hk']) k' (fun _ => y) (by simp [lastWritten, Function.update_of_ne (Ne.symm hne)])
  exact getRecord_putRecord_ne_of_overlap _ ho hxy hread

end TwigKV
