/-
  Reading line markers.

  Flattened text says where its lines come from: the marker `#line n f` says that the line after it
  is line `n + 1` of file `f`, and from there on lines are counted.  `locate` reads a text so, line
  by line; `afterAll` is where the count stands when all lines are read.

  Pieces end in a line feed, so the lines of a text made of pieces are the lines of the pieces one
  after the other (`lines_renderAll_append`) and the count after them is taken piece by piece:

    * a marker sets it, whatever stood before (`afterAll_marker`);
    * a line that has no line feed in it and is no marker counts as one (`afterAll_line`).
-/
import ShaderWeave.Piece
import ShaderWeave.Proofs.OneLine

namespace ShaderWeave

open Text (OneLine)

/-! ## Decoding

  The decoder knows nothing of the pass that wrote the text: it splits lines, takes what starts with
  `#line` for a marker, and counts.  A statement about positions is therefore one about the text. -/

/-- A line of a file, by the file's number. -/
structure Position where
  file : Nat
  line : Nat
  deriving DecidableEq, Repr

namespace Position

/-- The line after. -/
def next (p : Position) : Position := { p with line := p.line + 1 }

/-- What a line that starts with `#line n f ` says: the line after it comes after line `n` of file
    `f`. -/
def ofMarker? (line : Text) : Option Position := do
  let rest ← List.isPrefixOf? "#line ".toList line
  let (n, rest) ← Text.cut ' ' rest
  let (f, _) ← Text.cut ' ' rest
  return ⟨← Text.nat? f, ← Text.nat? n⟩

/-- The count after a line. -/
def after (p : Position) (line : Text) : Position := (ofMarker? line).getD p.next

/-- The count after all lines. -/
def afterAll (p : Position) (lines : List Text) : Position := lines.foldl after p

/-- The positions of lines; markers have none. -/
def locate (p : Position) : List Text → List (Option Position)
  | [] => []
  | line :: rest =>
    (if (ofMarker? line).isSome then none else some p.next) :: locate (p.after line) rest

example : locate ⟨0, 0⟩ ["a".toList, "#line 7 2 // b".toList, "c".toList] =
    [some ⟨0, 1⟩, none, some ⟨2, 8⟩] := by decide

/-- Where a line stands after others, it is located by the count after these. -/
theorem locate_append (p : Position) (a b : List Text) :
    locate p (a ++ b) = locate p a ++ locate (p.afterAll a) b := by
  induction a generalizing p with
  | nil => rfl
  | cons line a ih =>
    have hcount : p.afterAll (line :: a) = (p.after line).afterAll a := List.foldl_cons ..
    rw [List.cons_append, locate, ih, locate, List.cons_append, hcount]

/-- Every line is located, or found to be a marker. -/
theorem length_locate (p : Position) (lines : List Text) :
    (locate p lines).length = lines.length := by
  induction lines generalizing p with
  | nil => rfl
  | cons line lines ih => rw [locate, List.length_cons, ih, List.length_cons]

end Position

/-! ## Lines

  Texts are put together from pieces, and it is not clear that the lines of a whole are those of its
  parts: two halves of a line could meet, or a carriage return and a line feed.  Neither can happen
  where the first part ends in a line feed. -/

namespace Text

/-- A line without the carriage return that belongs to its end. -/
def chop : Text → Text
  | [] => []
  | ['\r'] => []
  | c :: line => c :: chop line

/-- Only the end of a line is looked at. -/
theorem chop_append (a : Text) {b : Text} (hb : b ≠ []) : chop (a ++ b) = a ++ chop b := by
  induction a with
  | nil => rfl
  | cons c a ih =>
    have hne : a ++ b ≠ [] := by simp [hb]
    obtain ⟨d, rest, hrest⟩ := List.exists_cons_of_ne_nil hne
    rw [List.cons_append, List.cons_append, ← ih, hrest, chop]
    simp

/-- At most the carriage return is taken away. -/
theorem chop_prefix (line : Text) : chop line <+: line := by
  fun_induction chop line with
  | case1 => exact List.prefix_refl _
  | case2 => exact List.nil_prefix
  | case3 c line _ ih => exact (List.prefix_cons_inj c).2 ih

/-- The first line of a text. -/
theorem lines_cons {line : Text} (h : OneLine line) (rest : Text) :
    lines (line ++ '\n' :: rest) = chop line :: lines rest := by
  fun_induction chop line with
  | case1 => rfl
  | case2 => rfl
  | case3 c line hr ih =>
    obtain ⟨hc, hline⟩ := oneLine_cons.1 h
    -- A carriage return is part of the line end only where the line feed follows at once.
    have hcr : ∀ r, c = '\r' → line ++ '\n' :: rest = '\n' :: r → False := by
      intro r hc' hr'
      cases line with
      | nil => exact hr hc' rfl
      | cons d line => exact (oneLine_cons.1 hline).1 (List.cons.inj hr').1
    rw [List.cons_append, lines, ih hline]
    · exact hc
    · exact hcr

/-- A text in which every line is ended. -/
def Ended (t : Text) : Prop := t = [] ∨ ∃ s, t = s ++ ['\n']

/-- Ended lines are counted by themselves. -/
theorem lines_append {a : Text} (ha : Ended a) (b : Text) :
    lines (a ++ b) = lines a ++ lines b := by
  induction hn : a.length using Nat.strongRecOn generalizing a with
  | ind n ih =>
    -- By induction on the length, for the lines are cut off one after another.
    rcases ha with rfl | ⟨s, rfl⟩
    · rfl
    · -- The first line feed ends the first line; what follows is ended again, and shorter.
      cases hcut : cut '\n' (s ++ ['\n']) with
      | none => exact absurd (by simp) (cut_eq_none_iff.1 hcut)
      | some sides =>
        obtain ⟨first, rest⟩ := sides
        obtain ⟨heq, hfirst⟩ := cut_eq_some_iff.1 hcut
        have hrest : Ended rest := by
          rcases List.eq_nil_or_concat rest with rfl | ⟨before, c, rfl⟩
          · exact .inl rfl
          · have hlast : s ++ ['\n'] = (first ++ '\n' :: before) ++ [c] := by
              rw [heq]
              simp
            cases (List.append_inj' hlast rfl).2
            exact .inr ⟨before, List.concat_eq_append⟩
        have hlen : rest.length < n := by
          rw [← hn, heq, List.length_append, List.length_cons]
          omega
        rw [heq, List.append_assoc, List.cons_append, lines_cons hfirst, lines_cons hfirst,
          ih rest.length hlen hrest rfl, List.cons_append]

/-! ## Numbers

  Numbers are written with one function and read with another; each digit is read back, and nothing
  else is taken for one. -/

/-- Digits are read as the library reads them. -/
theorem asciiDigit?_eq (c : Char) :
    asciiDigit? c = if c.isDigit then some (c.toNat - '0'.toNat) else none := by
  unfold asciiDigit? Char.isDigit
  simp only [Bool.and_eq_true, decide_eq_true_eq]
  rfl

/-- Reading digits goes on from what was read, and what is no digit spoils the rest. -/
theorem foldl_asciiDigit? (t : Text) (k : Nat) :
    t.foldl (fun n? c => do return (← n?) * 10 + (← asciiDigit? c)) (some k) =
      if t.all Char.isDigit then some (Nat.ofDigitChars 10 t k) else none := by
  have spoilt : ∀ t : Text,
      t.foldl (fun n? c => do return (← n?) * 10 + (← asciiDigit? c)) none =
        (none : Option Nat) := by
    intro t
    induction t with
    | nil => rfl
    | cons c t ih => exact ih
  induction t generalizing k with
  | nil =>
    rw [Nat.ofDigitChars_nil]
    rfl
  | cons c t ih =>
    rw [List.foldl_cons, List.all_cons, asciiDigit?_eq, Nat.ofDigitChars_cons, Nat.mul_comm 10 k]
    cases c.isDigit with
    | true => exact ih _
    | false => exact spoilt t

/-- A number is read from digits, at least one, and from nothing else. -/
theorem nat?_eq_some_iff {t : Text} {n : Nat} :
    nat? t = some n ↔ t ≠ [] ∧ (∀ c ∈ t, c.isDigit = true) ∧ n = Nat.ofDigitChars 10 t 0 := by
  unfold nat?
  rw [foldl_asciiDigit?, ← List.all_eq_true]
  cases t with
  | nil => simp
  | cons c t =>
    rw [List.isEmpty_cons, if_neg Bool.false_ne_true]
    split
    · next h => simp [h, eq_comm]
    · next h => simp [h]

/-- A number is read back from its digits. -/
theorem nat?_ofNat (n : Nat) : nat? (ofNat n) = some n := by
  refine nat?_eq_some_iff.2 ⟨Nat.toDigits_ne_nil, fun c hc => ?_,
    Nat.ofDigitChars_ten_toDigits.symm⟩
  exact Nat.isDigit_of_mem_toDigits (by decide) (by decide) hc

end Text

/-! ## Pieces

  Each kind of piece ends its last line.  For the pieces that stand for one line of a file, whether
  the text is counted right depends on that line alone: it must be one line, and no marker. -/

namespace Piece

/-- Every piece ends in a line feed. -/
theorem exists_render (piece : Piece) : ∃ s, piece.render = s ++ ['\n'] := by
  have behind : ∀ (a : Text) {b : Text}, (∃ s, b = s ++ ['\n']) → ∃ s, a ++ b = s ++ ['\n'] := by
    rintro a b ⟨s, rfl⟩
    exact ⟨a ++ s, (List.append_assoc a s ['\n']).symm⟩
  cases piece with
  | source file line text => exact behind _ ⟨[], rfl⟩
  | version file line context => exact behind _ ⟨[], rfl⟩
  | platform => exact behind _ ⟨"\n#endif".toList, rfl⟩
  | marker isolated line file path => exact behind _ ⟨[], rfl⟩
  | loopStart collection key => exact behind _ (behind ['\n'] (behind _ ⟨[], rfl⟩))
  | loopKey collection key => exact behind _ ⟨[], rfl⟩
  | loopEmpty => exact ⟨"//# Empty for loop".toList, rfl⟩
  | loopEnd collection => exact behind _ ⟨[], rfl⟩

/-- A text made of pieces ends its last line. -/
theorem ended_renderAll (pieces : List Piece) : Text.Ended (renderAll pieces) := by
  rcases List.eq_nil_or_concat pieces with rfl | ⟨before, piece, rfl⟩
  · exact .inl rfl
  · obtain ⟨s, hs⟩ := piece.exists_render
    refine .inr ⟨renderAll before ++ s, ?_⟩
    simp [renderAll, hs]

/-- The lines of pieces are those of each piece, one after the other. -/
theorem lines_renderAll_append (a b : List Piece) :
    Text.lines (renderAll (a ++ b)) = Text.lines (renderAll a) ++ Text.lines (renderAll b) := by
  rw [renderAll, List.flatMap_append]
  exact Text.lines_append (ended_renderAll a) _

/-- The line of a file that a piece stands for. -/
def origin? : Piece → Option Position
  | .source file line _ => some ⟨file, line⟩
  | .version file line _ => some ⟨file, line⟩
  | _ => none

/-- Whether a text would be read as a line marker. -/
def looksLikeMarker (line : Text) : Bool := "#line ".toList.isPrefixOf line

/-- The piece is written as `line`, which is one line and no marker. -/
structure IsLine (piece : Piece) (line : Text) : Prop where
  render_eq : piece.render = line ++ ['\n']
  oneLine : OneLine line
  unmarked : looksLikeMarker line = false

/-- Such a piece is one line. -/
theorem IsLine.lines_eq {piece : Piece} {line : Text} (h : piece.IsLine line) :
    Text.lines piece.render = [line.chop] := by
  rw [h.render_eq]
  exact Text.lines_cons h.oneLine []

/-- The version directive of a context. -/
theorem isLine_version (file n : Nat) (context : ContextVersion) :
    IsLine (.version file n context) context.directive where
  render_eq := rfl
  oneLine := by
    have hname : OneLine context.profile.name := by cases context.profile <;> decide
    have hdigits := fun n => Text.oneLine_ofNat n
    unfold ContextVersion.directive
    simp only [Text.oneLine_append]
    exact ⟨⟨⟨⟨by decide, hdigits _⟩, hdigits _⟩, by decide⟩, hname⟩
  unmarked := rfl

end Piece

namespace Position

/-- A line that does not look like a marker is none. -/
theorem ofMarker?_eq_none {line : Text} (h : Piece.looksLikeMarker line = false) :
    ofMarker? line = none := by
  unfold ofMarker?
  cases hp : List.isPrefixOf? "#line ".toList line with
  | none => rfl
  | some rest =>
    have hpre : "#line ".toList <+: line := ⟨rest, List.isPrefixOf?_eq_some_iff_append_eq.1 hp⟩
    rw [Piece.looksLikeMarker, List.isPrefixOf_iff_prefix.2 hpre] at h
    cases h

/-- A line is not made a marker by losing its carriage return. -/
theorem looksLikeMarker_chop {line : Text} (h : Piece.looksLikeMarker line = false) :
    Piece.looksLikeMarker line.chop = false := by
  rw [Bool.eq_false_iff] at h ⊢
  intro hchop
  have hpre := List.IsPrefix.trans (List.isPrefixOf_iff_prefix.1 hchop) line.chop_prefix
  exact h (List.isPrefixOf_iff_prefix.2 hpre)

/-- A line behind others is located by the count after these. -/
theorem getElem?_locate_append (start : Position) (before after : List Text) {line : Text}
    (h : Piece.looksLikeMarker line = false) :
    (start.locate (before ++ line :: after))[before.length]? =
      some (some (start.afterAll before).next) := by
  have hlength : (start.locate before).length = before.length := length_locate start before
  rw [locate_append, List.getElem?_append_right (Nat.le_of_eq hlength), hlength, Nat.sub_self,
    locate, ofMarker?_eq_none h]
  rfl

/-- The same for the line as it is read, without a carriage return at its end. -/
theorem getElem?_locate (start : Position) (before after : List Text) {line : Text}
    (h : Piece.looksLikeMarker line = false) :
    (start.locate (before ++ line.chop :: after))[before.length]? =
      some (some (start.afterAll before).next) :=
  getElem?_locate_append start before after (looksLikeMarker_chop h)

/-- A marker says what it was written for. -/
theorem ofMarker?_eq_some (n f : Nat) (rest : Text) :
    ofMarker? ("#line ".toList ++ (Text.ofNat n ++ ' ' :: (Text.ofNat f ++ ' ' :: rest))) =
      some ⟨f, n⟩ := by
  -- A number is digits, so the space behind it is the first one.
  have digits : ∀ k, ' ' ∉ Text.ofNat k := by
    intro k hk
    have hd : (' ').isDigit = true := Nat.isDigit_of_mem_toDigits (by decide) (by decide) hk
    exact absurd hd (by decide)
  have hline : List.isPrefixOf? "#line ".toList
      ("#line ".toList ++ (Text.ofNat n ++ ' ' :: (Text.ofNat f ++ ' ' :: rest))) =
        some (Text.ofNat n ++ ' ' :: (Text.ofNat f ++ ' ' :: rest)) :=
    List.isPrefixOf?_eq_some_iff_append_eq.2 rfl
  have hn : Text.cut ' ' (Text.ofNat n ++ ' ' :: (Text.ofNat f ++ ' ' :: rest)) =
      some (Text.ofNat n, Text.ofNat f ++ ' ' :: rest) := Text.cut_eq_some_iff.2 ⟨rfl, digits n⟩
  have hf : Text.cut ' ' (Text.ofNat f ++ ' ' :: rest) = some (Text.ofNat f, rest) :=
    Text.cut_eq_some_iff.2 ⟨rfl, digits f⟩
  unfold ofMarker?
  simp only [hline, hn, hf, Text.nat?_ofNat, Option.bind_eq_bind, Option.bind_some, Option.pure_def]

/-- Lines are counted one after the other. -/
theorem afterAll_append (p : Position) (a b : List Text) :
    p.afterAll (a ++ b) = (p.afterAll a).afterAll b :=
  List.foldl_append

/-- **A marker sets the count**, whatever it was. -/
theorem afterAll_marker (p : Position) (isolated : Bool) (n f : Nat) {path : Path}
    (h : OneLine path.text) :
    p.afterAll (Text.lines (Piece.render (.marker isolated n f path))) = ⟨f, n⟩ := by
  -- The marker is a line of its own; before it comes the separator, or an empty line.
  let first : Text := if isolated then Piece.separator else []
  let comment : Text := "// ".toList ++ path.text
  let line : Text := "#line ".toList ++ (Text.ofNat n ++ ' ' :: (Text.ofNat f ++ ' ' :: comment))
  have hrender :
      Piece.render (.marker isolated n f path) = first ++ '\n' :: (line ++ '\n' :: []) := by
    have hline : "\n#line ".toList = '\n' :: "#line ".toList := rfl
    have hcomment : " // ".toList = ' ' :: "// ".toList := rfl
    show first ++ "\n#line ".toList ++ Text.ofNat n ++ ' ' :: Text.ofNat f ++ " // ".toList ++
      path.text ++ ['\n'] = _
    rw [hline, hcomment]
    simp only [line, comment, List.append_assoc, List.cons_append]
  have hfirst : OneLine first := by
    show OneLine (if isolated then Piece.separator else [])
    split <;> decide
  have hline : OneLine line := by
    have hcomment : OneLine comment := Text.oneLine_append.2 ⟨by decide, h⟩
    refine Text.oneLine_append.2 ⟨by decide, Text.oneLine_append.2 ⟨Text.oneLine_ofNat n, ?_⟩⟩
    refine Text.oneLine_cons.2 ⟨by decide, Text.oneLine_append.2 ⟨Text.oneLine_ofNat f, ?_⟩⟩
    exact Text.oneLine_cons.2 ⟨by decide, hcomment⟩
  -- A carriage return at the end of the path is no part of the line, but the numbers stand in front
  -- of it.
  have hchop : line.chop =
      "#line ".toList ++ (Text.ofNat n ++ ' ' :: (Text.ofNat f ++ ' ' :: Text.chop comment)) := by
    have space : ∀ {t : Text}, t ≠ [] → Text.chop (' ' :: t) = ' ' :: t.chop :=
      Text.chop_append [' ']
    have hcomment : comment ≠ [] := List.append_ne_nil_of_left_ne_nil (by decide) path.text
    have hnumbers : ∀ (k : Nat) (t : Text), Text.ofNat k ++ ' ' :: t ≠ [] := by simp
    rw [Text.chop_append _ (hnumbers n _), Text.chop_append _ (List.cons_ne_nil _ _),
      space (hnumbers f _), Text.chop_append _ (List.cons_ne_nil _ _), space hcomment]
  rw [hrender, Text.lines_cons hfirst, Text.lines_cons hline, hchop]
  show (ofMarker? _).getD _ = _
  rw [ofMarker?_eq_some, Option.getD_some]

/-- **A line is counted.** -/
theorem afterAll_line (p : Position) {piece : Piece} {line : Text} (h : piece.IsLine line) :
    p.afterAll (Text.lines piece.render) = p.next := by
  have hone : p.afterAll [line.chop] = p.after line.chop := rfl
  rw [h.lines_eq, hone, after, ofMarker?_eq_none (looksLikeMarker_chop h.unmarked),
    Option.getD_none]

end Position
end ShaderWeave
