import TwigKV.Foundations.ListPieces
import TwigKV.Traces.TraceFile

/-! # Splitting the work (`ldc.cpp`, `operations.cpp`, `setup.py`)

The operations of a client are split between its threads by `get_chunk`, from a formula for the
boundaries of a chunk. `divideOperationSetPerThread` carries the start of the next chunk through its
loop, and `divide_file` writes line after line to the file it is at and moves to the next file when
a counter says so. All three make the even pieces of their list (`Foundations.ListPieces`). -/

namespace TwigKV.Workload

open TwigKV.Traces (Operation)

/-- `get_chunk`: `none` where its assertion fails or the chunk leaves the list. -/
def getChunk {α : Type*} (vec : List α) (n i : ℕ) : Option (List α) :=
  if i < n then
    let q := vec.length / n
    let r := vec.length % n
    subrange? vec (i * q + min i r) ((i + 1) * q + min (i + 1) r)
  else none

/-- The chunks `0..n-1` of `get_chunk`. -/
def getChunks {α : Type*} (vec : List α) (n : ℕ) : Option (List (List α)) :=
  (List.range n).mapM (getChunk vec n)

/-- What the loop of `divideOperationSetPerThread` assigns to `dividedSets[i]`: nothing where the
start is out of range. -/
def dividedSet (operationSet : List Operation) (start stop : ℕ) : Option (List Operation) :=
  if start < operationSet.length then subrange? operationSet start stop else some []

/-- The loop of `divideOperationSetPerThread`, with the threads that are left, the number `i` of the
next one and the start of its operations. -/
def divideLoop (operationSet : List Operation) (operationsPerThread extraOperations : ℕ) :
    ℕ → ℕ → ℕ → Option (List (List Operation))
  | 0, _, _ => some []
  | left + 1, i, start =>
    let stop := start + operationsPerThread + if i < extraOperations then 1 else 0
    (dividedSet operationSet start stop).bind fun set =>
      (divideLoop operationSet operationsPerThread extraOperations left (i + 1) stop).map (set :: ·)

/-- `divideOperationSetPerThread`: `none` where it throws or leaves the list. -/
def divideOperationSetPerThread (operationSet : List Operation) (totalThreads : ℤ) :
    Option (List (List Operation)) :=
  if totalThreads ≤ 0 then none
  else
    divideLoop operationSet (operationSet.length / totalThreads.toNat)
      (operationSet.length % totalThreads.toNat) totalThreads.toNat 0 0

/-- What the loop of `divide_file` changes. -/
structure DivideState where
  /-- The lines written to each of `output_files`. -/
  outputFiles : List (List String)
  /-- `current_file_index`. -/
  currentFileIndex : ℕ
  /-- `lines_written`. -/
  linesWritten : ℕ
deriving DecidableEq, Repr

/-- One line of `divide_file`: `none` where there is no file for it. -/
def divideLine (linesPerFile remainder : ℕ) (st : DivideState) (line : String) :
    Option DivideState :=
  if st.currentFileIndex < st.outputFiles.length then
    let outputFiles := st.outputFiles.modify st.currentFileIndex (· ++ [line])
    if st.linesWritten + 1 = linesPerFile + if st.currentFileIndex < remainder then 1 else 0 then
      some ⟨outputFiles, st.currentFileIndex + 1, 0⟩
    else some ⟨outputFiles, st.currentFileIndex, st.linesWritten + 1⟩
  else none

/-- `divide_file` on the lines of its input file: `none` where it stops at an exception. -/
def divideFile (lines : List String) (numFiles : ℕ) : Option (List (List String)) :=
  if numFiles = 0 then none
  else
    (lines.foldlM (divideLine (lines.length / numFiles) (lines.length % numFiles))
      ⟨List.replicate numFiles [], 0, 0⟩).map DivideState.outputFiles

/-! ## The chunks are the even pieces -/

/-- `get_chunk` computes the boundaries of an even piece. -/
theorem getChunk_eq {α : Type*} (vec : List α) {n i : ℕ} (hi : i < n) :
    getChunk vec n i = some (piece (evenBoundary vec.length n) vec i) := by
  rw [getChunk, if_pos hi]
  exact subrange?_eq_piece (evenBoundary_mono _ _) (evenBoundary_le hi (Nat.zero_lt_of_lt hi))

/-- A `mapM` of a function that succeeds on every element. -/
theorem mapM_eq_some_map {α β : Type*} {g : α → Option β} {h : α → β} {l : List α}
    (hg : ∀ a ∈ l, g a = some (h a)) : l.mapM g = some (l.map h) := by
  induction l with
  | nil => rfl
  | cons a l ih =>
      rw [List.mapM_cons, hg a List.mem_cons_self,
        ih fun a' ha' => hg a' (List.mem_cons_of_mem _ ha')]
      rfl

/-- All chunks. -/
theorem getChunks_eq {α : Type*} (vec : List α) (n : ℕ) :
    getChunks vec n = some (evenPieces vec n) :=
  mapM_eq_some_map fun _ hi => getChunk_eq vec (List.mem_range.mp hi)

/-! ## The running start -/

/-- A thread's operations are its even piece, empty where its start is behind the operations. -/
theorem dividedSet_eq (operationSet : List Operation) {n i : ℕ} (hi : i < n) :
    dividedSet operationSet (evenBoundary operationSet.length n i)
        (evenBoundary operationSet.length n (i + 1))
      = some (piece (evenBoundary operationSet.length n) operationSet i) := by
  unfold dividedSet
  split
  · exact subrange?_eq_piece (evenBoundary_mono _ _) (evenBoundary_le hi (Nat.zero_lt_of_lt hi))
  · next h => rw [piece_of_length_le (Nat.not_lt.mp h)]

/-- From a boundary on the loop makes the even pieces that are left. -/
theorem divideLoop_eq (operationSet : List Operation) {n : ℕ} (left i : ℕ) (h : i + left = n) :
    divideLoop operationSet (operationSet.length / n) (operationSet.length % n) left i
        (evenBoundary operationSet.length n i)
      = some ((List.range' i left).map
        (piece (evenBoundary operationSet.length n) operationSet)) := by
  induction left generalizing i with
  | zero => rfl
  | succ left ih =>
      rw [divideLoop, Nat.add_assoc, ← evenBoundary_succ]
      rw [dividedSet_eq operationSet (by omega), ih (i + 1) (by omega), List.range'_succ]
      rfl

/-- `divideOperationSetPerThread` makes the even pieces. -/
theorem divideOperationSetPerThread_eq (operationSet : List Operation) {n : ℕ} (hn : 1 ≤ n) :
    divideOperationSetPerThread operationSet n = some (evenPieces operationSet n) := by
  rw [divideOperationSetPerThread, if_neg (by omega), Int.toNat_natCast]
  have hloop := divideLoop_eq operationSet n 0 (Nat.zero_add n)
  rw [evenBoundary_zero] at hloop
  rw [hloop, evenPieces, pieces, List.range_eq_range']

/-! ## The streaming counter -/

/-- Where `divide_file` stands after `written` of `length` lines: the files hold their pieces of
these lines, and until all lines are written the next one belongs to the current file. -/
structure DivideInvariant (length n : ℕ) (written : List String) (st : DivideState) : Prop where
  /-- The files. -/
  outputFiles : st.outputFiles = pieces (evenBoundary length n) n written
  /-- The counter has started at the boundary of the current file. -/
  position : evenBoundary length n st.currentFileIndex + st.linesWritten = written.length
  /-- The current file is not full. -/
  room : written.length < length →
    written.length < evenBoundary length n (st.currentFileIndex + 1)

/-- The file for a line exists. -/
theorem DivideInvariant.currentFileIndex_lt {length n : ℕ} (hn : 1 ≤ n) {written : List String}
    {st : DivideState} (h : DivideInvariant length n written st) (hlt : written.length < length) :
    st.currentFileIndex < n := by
  by_contra hge
  have hend := evenBoundary_mono length n (Nat.not_lt.mp hge)
  rw [evenBoundary_self hn] at hend
  have hposition := h.position
  omega

/-- A line is written to the file it belongs to. -/
theorem divideLine_eq {length n : ℕ} (hn : 1 ≤ n) {written : List String} {st : DivideState}
    (h : DivideInvariant length n written st) (hlt : written.length < length) (line : String) :
    ∃ st', divideLine (length / n) (length % n) st line = some st' ∧
      DivideInvariant length n (written ++ [line]) st' := by
  have hposition := h.position
  have hroom := h.room hlt
  have hindex : st.currentFileIndex < st.outputFiles.length := by
    rw [h.outputFiles, pieces, List.length_map, List.length_range]
    exact h.currentFileIndex_lt hn hlt
  have hfiles : st.outputFiles.modify st.currentFileIndex (· ++ [line])
      = pieces (evenBoundary length n) n (written ++ [line]) := by
    rw [h.outputFiles, pieces_append_singleton (evenBoundary_mono _ _) (by omega) hroom]
  have hsucc := evenBoundary_succ length n st.currentFileIndex
  rw [divideLine, if_pos hindex]
  by_cases hfull : st.linesWritten + 1
      = length / n + if st.currentFileIndex < length % n then 1 else 0
  · rw [if_pos hfull]
    have hboundary : evenBoundary length n (st.currentFileIndex + 1)
        = written.length + 1 := by omega
    refine ⟨⟨_, _, _⟩, rfl, hfiles, ?_, ?_⟩
    · rw [List.length_append, List.length_singleton]
      exact hboundary
    · rw [List.length_append, List.length_singleton]
      intro hmore
      simp only
      rw [← hboundary] at hmore ⊢
      exact evenBoundary_lt_succ hmore
  · rw [if_neg hfull]
    refine ⟨⟨_, _, _⟩, rfl, hfiles, ?_, ?_⟩
    · rw [List.length_append, List.length_singleton]
      simp only
      omega
    · intro _
      rw [List.length_append, List.length_singleton]
      simp only
      omega

/-- The loop of `divide_file` leaves the files with the pieces of all lines. -/
theorem foldlM_divideLine {length n : ℕ} (hn : 1 ≤ n) (lines : List String) {written : List String}
    {st : DivideState} (h : DivideInvariant length n written st)
    (hlength : written.length + lines.length = length) :
    ∃ st', lines.foldlM (divideLine (length / n) (length % n)) st = some st' ∧
      DivideInvariant length n (written ++ lines) st' := by
  induction lines generalizing written st with
  | nil => exact ⟨st, rfl, by rw [List.append_nil]; exact h⟩
  | cons line lines ih =>
      rw [List.length_cons] at hlength
      obtain ⟨st', hline, h'⟩ := divideLine_eq hn h (by omega) line
      rw [List.foldlM_cons, hline]
      obtain ⟨st'', hrest, h''⟩ := ih h' (by rw [List.length_append, List.length_singleton]; omega)
      rw [List.append_assoc] at h''
      exact ⟨st'', hrest, h''⟩

/-- `divide_file` makes the even pieces. -/
theorem divideFile_eq (lines : List String) {n : ℕ} (hn : 1 ≤ n) :
    divideFile lines n = some (evenPieces lines n) := by
  have hinit : DivideInvariant lines.length n [] ⟨List.replicate n [], 0, 0⟩ := by
    refine ⟨(pieces_nil _ _).symm, ?_, ?_⟩
    · exact evenBoundary_zero _ _
    · intro hpos
      have hlt := @evenBoundary_lt_succ lines.length n 0 (by rw [evenBoundary_zero]; exact hpos)
      rw [evenBoundary_zero] at hlt
      exact hlt
  obtain ⟨st', hrun, h⟩ := foldlM_divideLine hn lines hinit (Nat.zero_add _)
  rw [divideFile, if_neg (by omega), hrun, Option.map_some, h.outputFiles]
  rfl

/-- **Splitting is a partition and the splitters agree.** For every `n ≥ 1`: the chunks `0..n-1`
that `get_chunk` makes of a list put together are the list, and their sizes differ by one at most;
`divideOperationSetPerThread` makes the same chunks of its operations, and `divide_file` of the
lines of its file. -/
theorem splitters_agree {n : ℕ} (hn : 1 ≤ n) :
    (∀ {α : Type} (vec : List α), ∃ chunks, getChunks vec n = some chunks ∧ chunks.length = n ∧
      chunks.flatten = vec ∧ ∀ c ∈ chunks, ∀ c' ∈ chunks, c.length ≤ c'.length + 1) ∧
    (∀ operationSet, divideOperationSetPerThread operationSet n = getChunks operationSet n) ∧
    ∀ lines, divideFile lines n = getChunks lines n := by
  refine ⟨fun vec => ⟨_, getChunks_eq vec n, ?_, flatten_evenPieces vec hn, ?_⟩, ?_, ?_⟩
  · rw [evenPieces, pieces, List.length_map, List.length_range]
  · exact fun c hc c' hc' => length_le_of_mem_evenPieces hc hc'
  · intro operationSet
    rw [divideOperationSetPerThread_eq operationSet hn, getChunks_eq]
  · intro lines
    rw [divideFile_eq lines hn, getChunks_eq]

/-- Five lines for three files, and two for three. -/
theorem splitters_agree_three :
    divideFile ["a", "b", "c", "d", "e"] 3 = some [["a", "b"], ["c", "d"], ["e"]] ∧
      divideFile ["a", "b"] 3 = some [["a"], ["b"], []] :=
  ⟨(splitters_agree (by decide)).2.2 _, (splitters_agree (by decide)).2.2 _⟩

end TwigKV.Workload
