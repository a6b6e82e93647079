import TwigKV.Traces.TraceFile
import Mathlib.Data.List.Basic

/-! # Generated per-client traces (`create_second_node_only_workload.cpp`)

`generateFile` writes a key and a node on every line and no operation code. The reader takes three
fields and does not look at line ends, so it takes the first digit of the next line's key for the
operation code and the other digits for the next key; at the last line it finds no code and stops
(`loadOperationSetFromFile_generateFile`). No file with a line is read as it was meant
(`readableTrace_iff`). -/

namespace TwigKV.Traces

/-- `M`. -/
def maxKeys : ℕ := 10000000

/-- `MIN_NUM`. -/
def minNum : ℕ := maxKeys / 3

/-- `MAX_NUM`. -/
def maxNum : ℕ := 2 * (maxKeys / 3)

/-- `BUFFER_SIZE`. -/
def bufferSize : ℕ := 8192

/-- A number drawn by `std::uniform_int_distribution<>(MIN_NUM, MAX_NUM)`. -/
abbrev RandomNum : Type := {k : ℕ // minNum ≤ k ∧ k ≤ maxNum}

/-- A line of the file: the key and the node. -/
def entry (constantNum : Int32) (randomNum : RandomNum) : List Char :=
  (toString randomNum.val).toList ++ ' ' :: ((toString constantNum.toInt).toList ++ ['\n'])

/-- The file and the buffer in front of it. -/
structure OutFile where
  /-- `buffer`. -/
  buffer : List Char
  /-- What has been written. -/
  written : List Char

/-- The loop body of `generateFile`: the entry goes to the buffer, a full buffer to the file. -/
def writeEntry (constantNum : Int32) (outFile : OutFile) (randomNum : RandomNum) : OutFile :=
  let buffer := outFile.buffer ++ entry constantNum randomNum
  if bufferSize ≤ buffer.length then ⟨[], outFile.written ++ buffer⟩
  else ⟨buffer, outFile.written⟩

/-- `generateFile`: the contents of the file for the numbers drawn. -/
def generateFile (constantNum : Int32) (randomNums : List RandomNum) : List Char :=
  let outFile := randomNums.foldl (writeEntry constantNum) ⟨[], []⟩
  outFile.written ++ outFile.buffer

/-- **The trace is readable**: the loader yields the keys and nodes of the lines, one operation for
each. -/
def ReadableTrace (constantNum : Int32) (randomNums : List RandomNum) : Prop :=
  (loadOperationSetFromFile (generateFile constantNum randomNums)).map (fun o => (o.key, o.node))
    = randomNums.map fun randomNum => (toString randomNum.val, constantNum)

/-! ## The file -/

/-- File and buffer together hold the entries in order. -/
theorem foldl_writeEntry (constantNum : Int32) (randomNums : List RandomNum) (outFile : OutFile) :
    (randomNums.foldl (writeEntry constantNum) outFile).written ++
        (randomNums.foldl (writeEntry constantNum) outFile).buffer
      = outFile.written ++ outFile.buffer ++ randomNums.flatMap (entry constantNum) := by
  induction randomNums generalizing outFile with
  | nil => simp
  | cons randomNum randomNums ih =>
      have hstep : (writeEntry constantNum outFile randomNum).written ++
          (writeEntry constantNum outFile randomNum).buffer
            = outFile.written ++ outFile.buffer ++ entry constantNum randomNum := by
        rw [writeEntry]
        split
        · simp
        · simp
      rw [List.foldl_cons, ih, hstep, List.flatMap_cons, List.append_assoc _ (entry _ _)]

/-- The buffer does not show in the file. -/
theorem generateFile_eq_flatMap (constantNum : Int32) (randomNums : List RandomNum) :
    generateFile constantNum randomNums = randomNums.flatMap (entry constantNum) := by
  have hfile := foldl_writeEntry constantNum randomNums ⟨[], []⟩
  rwa [List.append_nil, List.nil_append] at hfile

/-! ## What the reader makes of it -/

/-- The digits of a number drawn: at least two. -/
theorem exists_digits (randomNum : RandomNum) : ∃ d digits,
    (toString randomNum.val).toList = d :: digits ∧ digits ≠ [] ∧ d.isDigit = true ∧
      ∀ c ∈ digits, c.isDigit = true := by
  have hten : 10 ≤ randomNum.val := le_trans (by decide) randomNum.property.1
  have hsplit := Nat.toDigits_of_base_le (by decide) hten
  obtain ⟨d, digits, hcons⟩ :=
    List.exists_cons_of_ne_nil (@Nat.toDigits_ne_nil (randomNum.val / 10) 10)
  have hdigits : ∀ c ∈ Nat.toDigits 10 randomNum.val, c.isDigit = true := fun c hc =>
    Nat.isDigit_of_mem_toDigits (by decide) (by decide) hc
  rw [hcons, List.cons_append] at hsplit
  rw [hsplit] at hdigits
  refine ⟨d, digits ++ [Nat.digitChar (randomNum.val % 10)], ?_, ?_, ?_, ?_⟩
  · rw [Nat.toString_eq_repr, Nat.toList_repr, hsplit]
  · exact List.append_ne_nil_of_right_ne_nil _ (List.cons_ne_nil _ _)
  · exact hdigits d List.mem_cons_self
  · exact fun c hc => hdigits c (List.mem_cons_of_mem d hc)

/-- The operations that are read: the key left over from before with the node of its line, and the
first digit of the next line as its code. -/
def shiftedOperations (constantNum : Int32) : String → List RandomNum → List Operation
  | _, [] => []
  | key, randomNum :: randomNums =>
      let digits := (toString randomNum.val).toList
      ⟨key, constantNum, digits.headD ' '⟩ ::
        shiftedOperations constantNum (String.ofList digits.tail) randomNums

/-- One operation is missing. -/
theorem length_shiftedOperations (constantNum : Int32) (key : String)
    (randomNums : List RandomNum) :
    (shiftedOperations constantNum key randomNums).length = randomNums.length := by
  induction randomNums generalizing key with
  | nil => rfl
  | cons randomNum randomNums ih => rw [shiftedOperations, List.length_cons, ih, List.length_cons]

/-- What the reader makes of the rest of a line and the lines after it. -/
theorem readAll_rest_of_line (constantNum : Int32) {word : List Char} (hne : word ≠ [])
    (hword : ∀ c ∈ word, isSpace c = false) (randomNums : List RandomNum) :
    readOperation.readAll (word ++ ' ' :: ((toString constantNum.toInt).toList ++
        '\n' :: randomNums.flatMap (entry constantNum)))
      = shiftedOperations constantNum (String.ofList word) randomNums := by
  induction randomNums generalizing word with
  | nil =>
      refine Extraction.readAll_of_none ?_
      have hchar : Extraction.char.run ['\n'] = none := rfl
      rw [List.flatMap_nil, readOperation, Extraction.map]
      simp only
      rw [Extraction.run_both_of_none (run_key_node hne hword constantNum (by decide) _) hchar,
        Option.map_none]
  | cons randomNum randomNums ih =>
      obtain ⟨d, digits, htext, hdigits, hd, hrest⟩ := exists_digits randomNum
      have hlines : (randomNum :: randomNums).flatMap (entry constantNum)
          = d :: (digits ++ ' ' :: ((toString constantNum.toInt).toList ++
              '\n' :: randomNums.flatMap (entry constantNum))) := by
        simp only [List.flatMap_cons, entry, htext, List.cons_append, List.append_assoc,
          List.nil_append]
      -- the line end is skipped, the first digit is the code
      rw [hlines, Extraction.readAll_of_some (run_readOperation hne hword constantNum (by decide)
        (isSpace_of_isDigit hd) _), ih hdigits fun c hc => isSpace_of_isDigit (hrest c hc),
        shiftedOperations, htext]
      rfl

/-- **What is read of a generated trace.** -/
theorem loadOperationSetFromFile_generateFile (constantNum : Int32) (randomNum : RandomNum)
    (randomNums : List RandomNum) :
    loadOperationSetFromFile (generateFile constantNum (randomNum :: randomNums))
      = shiftedOperations constantNum (toString randomNum.val) randomNums := by
  obtain ⟨d, digits, htext, -, hd, hrest⟩ := exists_digits randomNum
  have hword : ∀ c ∈ (toString randomNum.val).toList, isSpace c = false := by
    intro c hc
    rw [htext] at hc
    rcases List.mem_cons.mp hc with rfl | hmem
    · exact isSpace_of_isDigit hd
    · exact isSpace_of_isDigit (hrest c hmem)
  have hne : (toString randomNum.val).toList ≠ [] := by
    rw [htext]
    exact List.cons_ne_nil d digits
  have hfile : generateFile constantNum (randomNum :: randomNums)
      = (toString randomNum.val).toList ++ ' ' :: ((toString constantNum.toInt).toList ++
          '\n' :: randomNums.flatMap (entry constantNum)) := by
    rw [generateFile_eq_flatMap, List.flatMap_cons, entry]
    simp only [List.append_assoc, List.cons_append, List.nil_append]
  rw [loadOperationSetFromFile, hfile, readAll_rest_of_line constantNum hne hword,
    String.ofList_toList]

/-- **When a generated trace is readable.** For every node and every sequence of numbers drawn, the
loader yields the keys and nodes that were written exactly when nothing was written. -/
theorem readableTrace_iff (constantNum : Int32) (randomNums : List RandomNum) :
    ReadableTrace constantNum randomNums ↔ randomNums = [] := by
  constructor
  · intro h
    cases randomNums with
    | nil => rfl
    | cons randomNum randomNums =>
        have hlength := congrArg List.length h
        rw [loadOperationSetFromFile_generateFile, List.length_map, length_shiftedOperations,
          List.length_map, List.length_cons] at hlength
        omega
  · rintro rfl
    rfl

/-- Of two lines one operation is read, with the digit `4` of the second key as its code. -/
theorem second_line_is_taken :
    loadOperationSetFromFile (generateFile 2 [⟨3333333, by decide⟩, ⟨4444444, by decide⟩])
        = [⟨"3333333", 2, '4'⟩] ∧
      ¬ ReadableTrace 2 [⟨3333333, by decide⟩, ⟨4444444, by decide⟩] := by
  have hread : loadOperationSetFromFile
      (generateFile 2 [⟨3333333, by decide⟩, ⟨4444444, by decide⟩]) = [⟨"3333333", 2, '4'⟩] := by
    rw [loadOperationSetFromFile_generateFile]
    decide
  refine ⟨hread, fun h => ?_⟩
  rw [ReadableTrace, hread] at h
  exact absurd (congrArg List.length h) (by decide)

end TwigKV.Traces
