import TwigKV.Foundations.DecimalText
import Mathlib.Data.List.Basic

/-! # Formatted input

`file >> x` skips white space and then reads a value of the type of `x` from the characters that are
left. An extraction is such a reader; it does not care how much white space it finds in front and
takes at least one character when it succeeds (`Extraction`), so a loop `while (file >> x)` ends
(`Extraction.readAll`).

The extractions of texts, integers and characters each read back what an output stream wrote, up to
the white space or the end behind it (`Extraction.run_text_append`, `run_int_append`,
`run_char_cons`). A loop over records then reads back any list of them
(`Extraction.readAll_flatMap`). -/

namespace TwigKV

/-- A sign is at most one character. -/
theorem length_splitSign_le (cs : List Char) : (splitSign cs).2.length ≤ cs.length := by
  unfold splitSign
  split
  · exact Nat.le_succ _
  · exact Nat.le_succ _
  · exact Nat.le_refl _

/-- A formatted extraction: what it reads and the characters that are left, `none` when it fails. -/
structure Extraction (α : Type*) where
  /-- The extraction. -/
  run : List Char → Option (α × List Char)
  /-- White space in front is skipped. -/
  skips : ∀ {c : Char} {cs : List Char}, isSpace c = true → run (c :: cs) = run cs
  /-- A value takes a character. -/
  consumes : ∀ {cs : List Char} {a : α} {rest : List Char},
    run cs = some (a, rest) → rest.length < cs.length

namespace Extraction

variable {α β : Type*}

/-! ## The loop -/

/-- At most `n` rounds of `while (file >> x)`. -/
def readUpTo (e : Extraction α) : ℕ → List Char → List α
  | 0, _ => []
  | n + 1, cs =>
    match e.run cs with
    | none => []
    | some (a, rest) => a :: e.readUpTo n rest

/-- `while (file >> x)`: there are no more rounds than characters. -/
def readAll (e : Extraction α) (cs : List Char) : List α := e.readUpTo cs.length cs

/-- Nothing is read at the end. -/
theorem run_nil (e : Extraction α) : e.run [] = none := by
  cases h : e.run [] with
  | none => rfl
  | some result => exact absurd (e.consumes h) (Nat.not_lt_zero _)

/-- At the end there is no round. -/
@[simp] theorem readUpTo_nil (e : Extraction α) (n : ℕ) : e.readUpTo n [] = [] := by
  cases n with
  | zero => rfl
  | succ n => rw [readUpTo, run_nil]

/-- Two numbers of rounds that are not less than the characters read the same. -/
theorem readUpTo_congr (e : Extraction α) {n m : ℕ} {cs : List Char} (hn : cs.length ≤ n)
    (hm : cs.length ≤ m) : e.readUpTo n cs = e.readUpTo m cs := by
  induction n generalizing m cs with
  | zero => rw [List.length_eq_zero_iff.mp (Nat.le_zero.mp hn), readUpTo_nil, readUpTo_nil]
  | succ n ih =>
      cases m with
      | zero => rw [List.length_eq_zero_iff.mp (Nat.le_zero.mp hm), readUpTo_nil, readUpTo_nil]
      | succ m =>
          cases hrun : e.run cs with
          | none => simp only [readUpTo, hrun]
          | some result =>
              obtain ⟨a, rest⟩ := result
              have hrest := e.consumes hrun
              simp only [readUpTo, hrun]
              rw [@ih m rest (by omega) (by omega)]

/-- The loop ends where an extraction fails. -/
theorem readAll_of_none {e : Extraction α} {cs : List Char} (h : e.run cs = none) :
    e.readAll cs = [] := by
  rw [readAll, e.readUpTo_congr (Nat.le_refl _) (Nat.le_succ cs.length), readUpTo, h]

/-- A round of the loop. -/
theorem readAll_of_some {e : Extraction α} {cs rest : List Char} {a : α}
    (h : e.run cs = some (a, rest)) : e.readAll cs = a :: e.readAll rest := by
  have hrest := e.consumes h
  rw [readAll, e.readUpTo_congr (Nat.le_refl _) (Nat.le_succ cs.length), readUpTo, h]
  simp only
  rw [readAll, e.readUpTo_congr (Nat.le_of_lt hrest) (Nat.le_refl _)]

/-- White space in front does not change what a loop reads. -/
theorem readAll_space (e : Extraction α) {c : Char} {cs : List Char} (hc : isSpace c = true) :
    e.readAll (c :: cs) = e.readAll cs := by
  cases h : e.run cs with
  | none => rw [readAll_of_none h, readAll_of_none ((e.skips hc).trans h)]
  | some result =>
      obtain ⟨a, rest⟩ := result
      rw [readAll_of_some h, readAll_of_some ((e.skips hc).trans h)]

/-- **Reading back a list of records.** Where every record is read back from what `print` writes for
it, up to the white space behind it, the loop reads back the list. -/
theorem readAll_flatMap {e : Extraction α} {print : α → List Char} {l : List α}
    (h : ∀ a ∈ l, ∀ cs, ∃ c, isSpace c = true ∧ e.run (print a ++ cs) = some (a, c :: cs)) :
    e.readAll (l.flatMap print) = l := by
  induction l with
  | nil => exact readAll_of_none e.run_nil
  | cons a l ih =>
      obtain ⟨c, hc, hrun⟩ := h a List.mem_cons_self (l.flatMap print)
      rw [List.flatMap_cons, readAll_of_some hrun, e.readAll_space hc,
        ih fun a' ha' => h a' (List.mem_cons_of_mem a ha')]

/-! ## Values -/

/-- `operator>>` of a `std::string`: the characters up to the next white space. -/
def text : Extraction String where
  run cs :=
    let word := (cs.dropWhile isSpace).takeWhile fun c => !isSpace c
    if word = [] then none
    else some (String.ofList word, (cs.dropWhile isSpace).dropWhile fun c => !isSpace c)
  skips h := by rw [List.dropWhile_cons_of_pos h]
  consumes {cs a rest} h := by
    simp only at h
    split at h
    · cases h
    · next hword =>
      cases h
      have hdrop := (List.dropWhile_suffix isSpace (l := cs)).length_le
      have hsplit := congrArg List.length
        (List.takeWhile_append_dropWhile (p := fun c => !isSpace c) (l := cs.dropWhile isSpace))
      have hpos := List.length_pos_iff.mpr hword
      rw [List.length_append] at hsplit
      omega

/-- The value of a sign (`true` for a minus) and digits. -/
def intValue (negative : Bool) (digits : List Char) : ℤ :=
  if negative then -(Nat.ofDigitChars 10 digits 0 : ℤ) else Nat.ofDigitChars 10 digits 0

/-- `operator>>` of an `int`: a sign and digits, as many as there are. -/
def int : Extraction Int32 where
  run cs :=
    let signed := splitSign (cs.dropWhile isSpace)
    let digits := signed.2.takeWhile Char.isDigit
    let value := intValue signed.1 digits
    if digits = [] then none
    -- a value outside the range of `int` fails
    else if -2 ^ 31 ≤ value ∧ value < 2 ^ 31 then
      some (Int32.ofInt value, signed.2.dropWhile Char.isDigit)
    else none
  skips h := by rw [List.dropWhile_cons_of_pos h]
  consumes {cs a rest} h := by
    simp only at h
    split at h
    · cases h
    next hne =>
    split at h
    · cases h
      have hdrop := (List.dropWhile_suffix isSpace (l := cs)).length_le
      have hsign := length_splitSign_le (cs.dropWhile isSpace)
      have hsplit := congrArg List.length (List.takeWhile_append_dropWhile (p := Char.isDigit)
        (l := (splitSign (cs.dropWhile isSpace)).2))
      have hpos := List.length_pos_iff.mpr hne
      rw [List.length_append] at hsplit
      omega
    · cases h

/-- `operator>>` of a `char`. -/
def char : Extraction Char where
  run cs :=
    match cs.dropWhile isSpace with
    | [] => none
    | c :: rest => some (c, rest)
  skips h := by rw [List.dropWhile_cons_of_pos h]
  consumes {cs a rest} h := by
    have hdrop := (List.dropWhile_suffix isSpace (l := cs)).length_le
    split at h
    · cases h
    · next heq =>
      cases h
      rw [heq, List.length_cons] at hdrop
      omega

/-- `file >> x >> y`. -/
def both (e : Extraction α) (e' : Extraction β) : Extraction (α × β) where
  run cs := (e.run cs).bind fun r => (e'.run r.2).map fun r' => ((r.1, r'.1), r'.2)
  skips h := by rw [e.skips h]
  consumes {cs a rest} h := by
    obtain ⟨r, hr, hmap⟩ := Option.bind_eq_some_iff.mp h
    obtain ⟨r', hr', heq⟩ := Option.map_eq_some_iff.mp hmap
    cases heq
    exact lt_trans (e'.consumes hr') (e.consumes hr)

/-- The values read are put into a record. -/
def map (f : α → β) (e : Extraction α) : Extraction β where
  run cs := (e.run cs).map fun r => (f r.1, r.2)
  skips h := by rw [e.skips h]
  consumes {cs a rest} h := by
    obtain ⟨r, hr, heq⟩ := Option.map_eq_some_iff.mp h
    cases heq
    exact e.consumes hr

/-! ## Reading back -/

/-- What `both` reads. -/
theorem run_both {e : Extraction α} {e' : Extraction β} {cs rest rest' : List Char} {a : α} {b : β}
    (h : e.run cs = some (a, rest)) (h' : e'.run rest = some (b, rest')) :
    (e.both e').run cs = some ((a, b), rest') := by
  simp only [both, h, h', Option.bind_some, Option.map_some]

/-- `both` fails where its second extraction does. -/
theorem run_both_of_none {e : Extraction α} {e' : Extraction β} {cs rest : List Char} {a : α}
    (h : e.run cs = some (a, rest)) (h' : e'.run rest = none) : (e.both e').run cs = none := by
  simp only [both, h, h', Option.bind_some, Option.map_none]

/-- A run of characters and the first one that does not belong to it. -/
theorem span_append_cons {p : Char → Bool} {l : List Char} (hl : ∀ x ∈ l, p x = true) {c : Char}
    (hc : p c = false) (cs : List Char) :
    (l ++ c :: cs).takeWhile p = l ∧ (l ++ c :: cs).dropWhile p = c :: cs := by
  rw [List.takeWhile_append_of_pos hl, List.dropWhile_append_of_pos hl,
    List.takeWhile_cons_of_neg (by rw [hc]; decide),
    List.dropWhile_cons_of_neg (by rw [hc]; decide),
    List.append_nil]
  exact ⟨rfl, rfl⟩

/-- A word is read up to the white space behind it. -/
theorem run_text_append {word : List Char} (hne : word ≠ []) (hword : ∀ c ∈ word, isSpace c = false)
    {c : Char} (hc : isSpace c = true) (cs : List Char) :
    text.run (word ++ c :: cs) = some (String.ofList word, c :: cs) := by
  obtain ⟨htake, hdrop⟩ := @span_append_cons (fun x => !isSpace x) word
    (fun x hx => by rw [hword x hx]; rfl) c (by rw [hc]; rfl) cs
  obtain ⟨c₀, word', rfl⟩ := List.exists_cons_of_ne_nil hne
  have hstart : (c₀ :: word' ++ c :: cs).dropWhile isSpace = c₀ :: word' ++ c :: cs := by
    rw [List.cons_append, List.dropWhile_cons_of_neg (by simp [hword c₀ List.mem_cons_self])]
  simp only [text, hstart, htake, hdrop]
  rw [if_neg hne]

/-- A character that is not white space is read. -/
theorem run_char_cons {c : Char} (hc : isSpace c = false) (cs : List Char) :
    char.run (c :: cs) = some (c, cs) := by
  simp only [char, List.dropWhile_cons, hc, Bool.false_eq_true, if_false]

/-- The text of a negative number is a minus sign and the digits of its magnitude. -/
theorem toList_toString_negSucc (m : ℕ) :
    (toString (Int.negSucc m)).toList = '-' :: Nat.toDigits 10 (m + 1) := by
  have hrepr : toString (Int.negSucc m) = "-" ++ Nat.repr (m + 1) := rfl
  rw [hrepr, String.toList_append, Nat.toList_repr]
  rfl

/-- The text of a natural number is its digits. -/
theorem toList_toString_natCast (m : ℕ) :
    (toString (Int.ofNat m)).toList = Nat.toDigits 10 m := by
  have hrepr : toString (Int.ofNat m) = Nat.repr m := rfl
  rw [hrepr, Nat.toList_repr]

/-- What `int` reads of a sign and digits. -/
theorem run_int_of_split {text digits : List Char} {negative : Bool} {c : Char} {cs : List Char}
    (hsplit : splitSign (text.dropWhile isSpace) = (negative, digits ++ c :: cs))
    (hne : digits ≠ []) (hdigits : ∀ x ∈ digits, x.isDigit = true) (hc : c.isDigit = false)
    {n : Int32} (hn : intValue negative digits = n.toInt) :
    int.run text = some (n, c :: cs) := by
  obtain ⟨htake, hdrop⟩ := span_append_cons hdigits hc cs
  simp only [int, hsplit, htake, hdrop, hn]
  rw [if_neg hne, if_pos ⟨n.le_toInt, n.toInt_lt⟩, Int32.ofInt_toInt]

/-- An integer is read back from its text up to a character that is not a digit. -/
theorem run_int_append (n : Int32) {c : Char} (hc : c.isDigit = false) (cs : List Char) :
    int.run ((toString n.toInt).toList ++ c :: cs) = some (n, c :: cs) := by
  have hdigits : ∀ m : ℕ, ∀ x ∈ Nat.toDigits 10 m, x.isDigit = true := fun m x hx =>
    Nat.isDigit_of_mem_toDigits (by decide) (by decide) hx
  cases hn : n.toInt with
  | ofNat m =>
      obtain ⟨c₀, rest, hcons⟩ := List.exists_cons_of_ne_nil (@Nat.toDigits_ne_nil m 10)
      have hc₀ : c₀.isDigit = true := hdigits m c₀ (by rw [hcons]; exact List.mem_cons_self)
      have hsplit : splitSign ((Nat.toDigits 10 m ++ c :: cs).dropWhile isSpace)
          = (false, Nat.toDigits 10 m ++ c :: cs) := by
        rw [hcons, List.cons_append, List.dropWhile_cons_of_neg (by simp [isSpace_of_isDigit hc₀]),
          splitSign_of_isDigit _ hc₀]
      rw [toList_toString_natCast]
      refine run_int_of_split hsplit Nat.toDigits_ne_nil (hdigits m) hc ?_
      rw [hn, intValue, Nat.ofDigitChars_ten_toDigits]
      rfl
  | negSucc m =>
      rw [toList_toString_negSucc]
      refine run_int_of_split rfl Nat.toDigits_ne_nil (hdigits (m + 1)) hc ?_
      rw [hn, intValue, Nat.ofDigitChars_ten_toDigits]
      rfl

end Extraction

end TwigKV
