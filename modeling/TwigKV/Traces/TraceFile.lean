import TwigKV.Foundations.TextStream

/-! # Trace files (`operations.cpp`)

`dumpOperationSetToFile` writes a line for every operation, `loadOperationSetFromFile` reads
operations from a file, a key, a node and a character each, without regard to lines. What was
written is read back as long as keys are words and the characters are not white space
(`loadOperationSetFromFile_dumpOperationSetToFile`). -/

namespace TwigKV.Traces

/-- `Operation`. -/
structure Operation where
  /-- The key. -/
  key : String
  /-- The node. -/
  node : Int32
  /-- The operation code. -/
  op : Char
deriving DecidableEq

/-- A line of `dumpOperationSetToFile`: `key << ' ' << node << ' ' << op << '\n'`. -/
def writeOperation (operation : Operation) : List Char :=
  operation.key.toList ++
    ' ' :: ((toString operation.node.toInt).toList ++ ' ' :: operation.op :: ['\n'])

/-- `dumpOperationSetToFile`: the contents of the file. -/
def dumpOperationSetToFile (operationSet : List Operation) : List Char :=
  operationSet.flatMap writeOperation

/-- `file >> key >> node >> op`. -/
def readOperation : Extraction Operation :=
  ((Extraction.text.both Extraction.int).both Extraction.char).map fun r => ⟨r.1.1, r.1.2, r.2⟩

/-- `loadOperationSetFromFile` on the contents of a file. -/
def loadOperationSetFromFile (file : List Char) : List Operation := readOperation.readAll file

/-- The key is a word and the operation code a visible character. -/
structure Operation.WellFormed (operation : Operation) : Prop where
  /-- The key is not empty. -/
  key_ne : operation.key ≠ ""
  /-- No character of the key is white space. -/
  key_word : ∀ c ∈ operation.key.toList, isSpace c = false
  /-- The operation code is not white space. -/
  op_visible : isSpace operation.op = false

/-- A key and a node are read from their line. -/
theorem run_key_node {word : List Char} (hne : word ≠ []) (hword : ∀ c ∈ word, isSpace c = false)
    (node : Int32) {c : Char} (hc : isSpace c = true) (cs : List Char) :
    (Extraction.text.both Extraction.int).run
        (word ++ ' ' :: ((toString node.toInt).toList ++ c :: cs))
      = some ((String.ofList word, node), c :: cs) := by
  have hdigit : c.isDigit = false := Bool.eq_false_iff.mpr fun h => by
    rw [isSpace_of_isDigit h] at hc
    cases hc
  refine Extraction.run_both (Extraction.run_text_append hne hword (by decide) _) ?_
  rw [Extraction.int.skips (by decide)]
  exact Extraction.run_int_append node hdigit cs

/-- An operation is read from a key, a node, white space and a visible character. -/
theorem run_readOperation {word : List Char} (hne : word ≠ [])
    (hword : ∀ c ∈ word, isSpace c = false) (node : Int32) {c : Char} (hc : isSpace c = true)
    {op : Char} (hop : isSpace op = false) (cs : List Char) :
    readOperation.run (word ++ ' ' :: ((toString node.toInt).toList ++ c :: op :: cs))
      = some (⟨String.ofList word, node, op⟩, cs) := by
  have hchar : Extraction.char.run (c :: op :: cs) = some (op, cs) := by
    rw [Extraction.char.skips hc, Extraction.run_char_cons hop]
  rw [readOperation, Extraction.map]
  simp only
  rw [Extraction.run_both (run_key_node hne hword node hc _) hchar, Option.map_some]

/-- A line is read back. -/
theorem run_writeOperation {operation : Operation} (h : operation.WellFormed) (cs : List Char) :
    readOperation.run (writeOperation operation ++ cs) = some (operation, '\n' :: cs) := by
  have hline : writeOperation operation ++ cs = operation.key.toList ++
      ' ' :: ((toString operation.node.toInt).toList ++ ' ' :: operation.op :: '\n' :: cs) := by
    simp only [writeOperation, List.append_assoc, List.cons_append, List.nil_append]
  rw [hline, run_readOperation (fun hnil => h.key_ne (String.toList_eq_nil_iff.mp hnil)) 
    h.key_word _
    (by decide) h.op_visible, String.ofList_toList]

/-- **Trace round trip.** What `dumpOperationSetToFile` wrote, `loadOperationSetFromFile` reads
back: the same operations in the same order. -/
theorem loadOperationSetFromFile_dumpOperationSetToFile {operationSet : List Operation}
    (h : ∀ operation ∈ operationSet, operation.WellFormed) :
    loadOperationSetFromFile (dumpOperationSetToFile operationSet) = operationSet :=
  Extraction.readAll_flatMap fun operation hmem cs =>
    ⟨'\n', by decide, run_writeOperation (h operation hmem) cs⟩

/-- A negative node and keys and codes that look like numbers. -/
theorem loadOperationSetFromFile_dumpOperationSetToFile_two :
    loadOperationSetFromFile (dumpOperationSetToFile [⟨"17", -3, 'R'⟩, ⟨"-4", 2, '5'⟩])
      = [⟨"17", -3, 'R'⟩, ⟨"-4", 2, '5'⟩] := by
  refine loadOperationSetFromFile_dumpOperationSetToFile fun operation hmem => ?_
  rcases List.mem_cons.mp hmem with rfl | hmem
  · exact ⟨by decide, by simp [isSpace], by decide⟩
  · rw [List.mem_singleton.mp hmem]
    exact ⟨by decide, by simp [isSpace], by decide⟩

end TwigKV.Traces
