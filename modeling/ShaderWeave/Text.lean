/-
  Text as a list of characters.

  Every scan of the library — lines, words, directives, paths, tokens — is structural recursion on
  such a list, so that a text has exactly the cases "empty" and "a character, then text".

    * `lines` cuts at line feeds; one carriage return before a line feed belongs to the line end;
    * `margin` the indentation of a line, `content` what is left of the line without it;
    * `words` the maximal runs without white space;
    * `cut c` the two sides of the first `c`; the pieces between all of them are `List.splitOn c`;
    * `ofNat`, `ofInt`, `int32?` decimal numbers, written and read.
-/
import ShaderWeave.Text.Digit
import ShaderWeave.Text.Space

namespace ShaderWeave

/-- An integer as one of 32 bits, if it fits. -/
def toInt32? (n : Int) : Option Int32 :=
  if Int32.minValue.toInt ≤ n ∧ n ≤ Int32.maxValue.toInt then some (Int32.ofInt n) else none

/-- An integer fits if it is one of 32 bits, and then it is kept. -/
theorem toInt32?_eq_some_iff {n : Int} {m : Int32} : toInt32? n = some m ↔ n = m.toInt := by
  unfold toInt32?
  constructor
  · intro h
    split at h
    · next hn =>
      cases h
      exact (Int32.toInt_ofInt_of_le hn.1 (Int.lt_add_one_of_le hn.2)).symm
    · cases h
  · rintro rfl
    rw [if_pos ⟨Int32.minValue_le_toInt m, Int32.toInt_le m⟩, Int32.ofInt_toInt]

/-- Text: a list of characters. -/
abbrev Text := List Char

namespace Text

/-! ## Cutting

  A cut is at the first place where it can be, and what is to the right of it is left as it is, with
  whatever separators are in it. -/

/-- The text before and after the first `c`, or `none` where `c` does not occur. -/
def cut (c : Char) : Text → Option (Text × Text)
  | [] => none
  | d :: rest => if d = c then some ([], rest) else (cut c rest).map fun (l, r) => (d :: l, r)

/-- The text before and after the first `..`. -/
def cutDots : Text → Option (Text × Text)
  | [] => none
  | '.' :: '.' :: rest => some ([], rest)
  | c :: rest => (cutDots rest).map fun (l, r) => (c :: l, r)

/-- Whether `part` occurs in the text. -/
def occurs (part : Text) : Text → Bool
  | [] => part.isEmpty
  | c :: rest => part.isPrefixOf (c :: rest) || occurs part rest

/-- Cutting at `c` loses `c` alone, and the left side is free of it. -/
theorem cut_eq_some_iff {c : Char} {t l r : Text} :
    cut c t = some (l, r) ↔ t = l ++ c :: r ∧ c ∉ l := by
  induction t generalizing l with
  | nil => simp [cut]
  | cons d t ih =>
    by_cases h : d = c
    · subst h
      constructor
      · intro e; simp [cut] at e; obtain ⟨rfl, rfl⟩ := e; simp
      · rintro ⟨e, hl⟩
        cases l with
        | nil => simp at e; simp [cut, e]
        | cons a l => simp at e; simp [e.1] at hl
    · constructor
      · intro e
        simp only [cut, h, if_false, Option.map_eq_some_iff, Prod.mk.injEq, Prod.exists] at e
        obtain ⟨l', r', e, rfl, rfl⟩ := e
        obtain ⟨rfl, hl⟩ := ih.1 e
        exact ⟨rfl, by simp only [List.mem_cons, not_or]; exact ⟨fun e => h e.symm, hl⟩⟩
      · rintro ⟨e, hl⟩
        cases l with
        | nil => simp at e; exact absurd e.1 h
        | cons a l =>
          simp only [List.cons_append, List.cons.injEq] at e
          obtain ⟨rfl, rfl⟩ := e
          simp only [List.mem_cons, not_or] at hl
          simp [cut, h, ih.2 ⟨rfl, hl.2⟩]

/-- Cutting fails exactly where the character does not occur. -/
theorem cut_eq_none_iff {c : Char} {t : Text} : cut c t = none ↔ c ∉ t := by
  induction t with
  | nil => simp [cut]
  | cons d t ih =>
    by_cases h : d = c
    · simp [cut, h]
    · have h' : ¬c = d := fun e => h e.symm
      simp [cut, h, h', ih]

/-! ## Trimming

  The bounds of a range are trimmed of white space.  Lines are trimmed of margin characters, which
  are fewer: a form feed is no indentation. -/

/-- The text without the characters of a class at its end. -/
def trimRight (p : Char → Bool) (t : Text) : Text := (t.reverse.dropWhile p).reverse

/-- The text without white space at both ends. -/
def trim (t : Text) : Text := trimRight isSpace (t.dropWhile isSpace)

/-- The indentation of a line. -/
def margin (line : Text) : Text := line.takeWhile isMargin

/-- A line without its indentation and without margin characters at its end. -/
def content (line : Text) : Text := trimRight isMargin (line.dropWhile isMargin)

/-! ## Lines and words

  A line has lost its line feed, and with it one carriage return in front; words have lost all white
  space around them. -/

/-- The lines of a text.  A final line feed ends the last line and starts none. -/
def lines : Text → List Text
  | [] => []
  | '\n' :: rest => [] :: lines rest
  | '\r' :: '\n' :: rest => [] :: lines rest
  | c :: rest =>
    match lines rest with
    | [] => [[c]]
    | line :: more => (c :: line) :: more

/-- The maximal runs of characters that are not white space. -/
def words : Text → List Text
  | [] => []
  | c :: rest =>
    if isSpace c then words rest
    else match rest with
      | [] => [[c]]
      | d :: _ =>
        if isSpace d then [c] :: words rest
        else match words rest with
          | [] => [[c]]
          | word :: more => (c :: word) :: more

example : lines "a\r\n\nb\r".toList = ["a".toList, [], "b\r".toList] := by decide
example : lines "a\n".toList = ["a".toList] := by decide
example : words " in  a b\t".toList = ["in".toList, "a".toList, "b".toList] := by decide

/-! ## Numbers

  A number is written in one way and read in several: with a sign or without, with zeros in
  front. -/

/-- A natural number in decimal. -/
def ofNat (n : Nat) : Text := Nat.toDigits 10 n

/-- An integer in decimal, with a minus sign where it is negative. -/
def ofInt : Int → Text
  | .ofNat n => ofNat n
  | .negSucc n => '-' :: ofNat (n + 1)

/-- A non-empty run of ASCII digits, read in base ten. -/
def nat? (t : Text) : Option Nat :=
  if t.isEmpty then none
  else t.foldl (fun n? c => do return (← n?) * 10 + (← asciiDigit? c)) (some 0)

/-- An integer: an optional sign, then ASCII digits. -/
def int? : Text → Option Int
  | '+' :: digits => (nat? digits).map Int.ofNat
  | '-' :: digits => (nat? digits).map fun n => -(Int.ofNat n)
  | digits => (nat? digits).map Int.ofNat

/-- An integer that fits in 32 bits. -/
def int32? (t : Text) : Option Int32 := (int? t).bind toInt32?

example : ofInt (-120) = "-120".toList := by decide
example : (int32? "-2147483648".toList).isSome ∧ int32? "2147483648".toList = none := by decide
example : int? "+-1".toList = none ∧ int? "".toList = none ∧ int? "007".toList = some 7 := by decide

end Text
end ShaderWeave
