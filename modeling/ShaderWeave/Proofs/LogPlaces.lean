/-
  Places in a compiler log: two passes are one.

  A log is rewritten in two passes, one for each form of a place, and the second pass reads what the
  first has written.  The white space of `ERROR: file:line` may run over the ends of lines, so a
  place can have the start of a line inside it, and rewriting the place takes this start away.

    * `Spells` says what a place is, by its parts; the readers of both forms find exactly this
      (`Form.place?_eq_some_iff`).  A place has no slash in it and no line feed at its end, and at a
      start of a line inside a place there is no place (`Spells.bare_inside`).
    * So a log falls apart into places and single characters in one way (`Divided`), and a pass over
      one form rewrites the parts of this form alone (`Divided.replacePlaces_eq`).
    * What it writes for a place starts with a slash, is one line, and has no place in it: the
      rewritten log falls apart into the same parts, where the rewritten places are characters now
      (`Divided.rewrite`).

  Any two passes, in any order, follow from this (`CompilerLog.remap_simultaneous`).
-/
import Mathlib.Data.List.TakeWhile
import ShaderWeave.CompilerLog
import ShaderWeave.Proofs.OneLine

namespace ShaderWeave

open Text (OneLine)

/-! ## Digits and white space

  A place is made of digits, white space and a few other characters, none of which is a digit or
  white space.  So each reader is a sequence of cuts, and each cut is where it must be. -/

/-- No digit of any script is white space. -/
theorem Text.isSpace_eq_false_of_isDigit {c : Char} (h : isDigit c = true) : isSpace c = false := by
  -- All runs of digits lie between the code points of white space.
  have gaps : ∀ z ∈ digitZeros,
      z = 0x30 ∨ (0x660 ≤ z ∧ z + 9 < 0x1680) ∨ (0x1680 < z ∧ z + 9 < 0x2000) ∨ 0x3000 < z := by
    decide
  obtain ⟨z, hz, hc⟩ := List.any_eq_true.1 h
  rw [Bool.and_eq_true, decide_eq_true_eq, decide_eq_true_eq] at hc
  have hgap := gaps z hz
  unfold isSpace
  simp only [Bool.or_eq_false_iff, Bool.and_eq_false_iff, decide_eq_false_iff_not,
    beq_eq_false_iff_ne]
  omega

namespace CompilerLog

/-- Some digits, of any script. -/
def IsNumber (ds : Text) : Prop := ds ≠ [] ∧ ∀ c ∈ ds, Text.isDigit c = true

/-! No other character is in a number, in particular no line feed. -/

theorem IsNumber.not_mem {ds : Text} (h : IsNumber ds) {c : Char} (hc : Text.isDigit c = false) :
    c ∉ ds := by
  intro hmem
  rw [h.2 c hmem] at hc
  cases hc

theorem IsNumber.oneLine {ds : Text} (h : IsNumber ds) : OneLine ds := h.not_mem (by decide)

/-- Digits are read where there are some, and all of them: what follows starts with another
    character, or is nothing. -/
theorem digits?_eq_some_iff {t ds rest : Text} :
    digits? t = some (ds, rest) ↔
      t = ds ++ rest ∧ IsNumber ds ∧ ∀ c ∈ rest.head?, Text.isDigit c = false := by
  constructor
  · intro h
    unfold digits? at h
    split at h
    · cases h
    · next hne =>
      cases h
      refine ⟨List.takeWhile_append_dropWhile.symm, ⟨hne, fun c hc => List.mem_takeWhile_imp hc⟩,
        fun c hc => ?_⟩
      have hhead := List.head?_dropWhile_not Text.isDigit t
      rw [Option.mem_def.1 hc] at hhead
      exact hhead
  · rintro ⟨rfl, hds, hrest⟩
    have hstop : rest.takeWhile Text.isDigit = [] ∧ rest.dropWhile Text.isDigit = rest := by
      cases rest with
      | nil => exact ⟨rfl, rfl⟩
      | cons c rest =>
        have hc : Text.isDigit c = false := hrest c rfl
        exact ⟨List.takeWhile_cons_of_neg (by simp [hc]), List.dropWhile_cons_of_neg (by simp [hc])⟩
    have htake : (ds ++ rest).takeWhile Text.isDigit = ds := by
      rw [List.takeWhile_append_of_pos hds.2, hstop.1, List.append_nil]
    have hdrop : (ds ++ rest).dropWhile Text.isDigit = rest := by
      rw [List.dropWhile_append_of_pos hds.2, hstop.2]
    obtain ⟨d, ds, rfl⟩ := List.exists_cons_of_ne_nil hds.1
    unfold digits?
    rw [htake, hdrop]

/-- Digits are read up to the first other character. -/
theorem IsNumber.digits?_append {ds : Text} (h : IsNumber ds) {c : Char}
    (hc : Text.isDigit c = false) (t : Text) : digits? (ds ++ c :: t) = some (ds, c :: t) := by
  refine digits?_eq_some_iff.2 ⟨rfl, h, fun d hd => ?_⟩
  cases hd
  exact hc

/-! ## Places

  `Spells` has one constructor for each form and carries what comes after the place, since a form
  may depend on it: in the first form no digit may follow, in the second any text may.  Two
  spellings at the head of one text are the same (`Spells.unique`). -/

/-- The two forms in which drivers name a place. -/
inductive Form where
  | error
  | call
  deriving DecidableEq, Repr

/-- The reader of a form. -/
def Form.place? : Form → Text → Option Place
  | .error => errorPlace?
  | .call => callPlace?

/-- The text `spelled`, with `rest` behind it, is a place with the digits `file` and `line`:
    `ERROR:`, white space, digits, a colon and all digits that follow; or digits and then digits in
    parentheses. -/
inductive Spells : Form → Text → Text → Text → Text → Prop where
  | error {blanks file line rest} (hblanks : ∀ c ∈ blanks, Text.isSpace c = true)
      (hfile : IsNumber file) (hline : IsNumber line)
      (hrest : ∀ c ∈ rest.head?, Text.isDigit c = false) :
      Spells .error file line ("ERROR:".toList ++ (blanks ++ (file ++ ':' :: line))) rest
  | call {file line rest} (hfile : IsNumber file) (hline : IsNumber line) :
      Spells .call file line (file ++ '(' :: (line ++ [')'])) rest

/-! How long a place is, in the first form and in the second: this is what the readers count. -/

theorem length_error (blanks file line : Text) :
    ("ERROR:".toList ++ (blanks ++ (file ++ ':' :: line))).length =
      6 + blanks.length + file.length + 1 + line.length := by
  have hlabel : "ERROR:".toList.length = 6 := rfl
  rw [List.length_append, List.length_append, List.length_append, List.length_cons, hlabel]
  omega

theorem length_call (file line : Text) :
    (file ++ '(' :: (line ++ [')'])).length = file.length + 1 + line.length + 1 := by
  rw [List.length_append, List.length_cons, List.length_append, List.length_singleton]
  omega

/-- The reader of the first form finds what is spelled in it.  White space is read up to the first
    other character, and this is a digit of the file: no digit is white space. -/
theorem errorPlace?_eq_some_iff {t file line : Text} {width : Nat} :
    errorPlace? t = some ⟨file, line, width⟩ ↔
      ∃ spelled rest, t = spelled ++ rest ∧ Spells .error file line spelled rest ∧
        width = spelled.length := by
  constructor
  · intro h
    -- The reader takes the word, blanks, digits, a colon and digits; `t₁` to `t₃` are what is left
    -- each time.
    simp only [errorPlace?, Option.bind_eq_bind, Option.bind_eq_some_iff, Prod.exists] at h
    obtain ⟨t₁, h₁, file, t₂, h₂, t₃, h₃, line, rest, h₄, hp⟩ := h
    obtain ⟨ht₁, hfile, _⟩ := digits?_eq_some_iff.1 h₂
    obtain ⟨rfl, hline, hrest⟩ := digits?_eq_some_iff.1 h₄
    have ht := List.isPrefixOf?_eq_some_iff_append_eq.1 h₁
    have ht₂ : ':' :: (line ++ rest) = t₂ := List.isPrefixOf?_eq_some_iff_append_eq.1 h₃
    have hblanks : ∀ c ∈ t₁.takeWhile Text.isSpace, Text.isSpace c = true :=
      fun c hc => List.mem_takeWhile_imp hc
    have hsplit : t₁.takeWhile Text.isSpace ++ (file ++ ':' :: (line ++ rest)) = t₁ := by
      rw [ht₂, ← ht₁, List.takeWhile_append_dropWhile]
    cases hp
    refine ⟨_, rest, ?_, .error hblanks hfile hline hrest, (length_error _ _ _).symm⟩
    rw [← ht]
    nth_rewrite 1 [← hsplit]
    simp
  · rintro ⟨spelled, rest, rfl, hs, rfl⟩
    cases hs with
    | @error blanks _ _ _ hblanks hfile hline hrest =>
      -- Conversely each part of the spelling is found where the reader looks for it.
      have hfile' := hfile.digits?_append (c := ':') (by decide) (line ++ rest)
      have hline' := digits?_eq_some_iff.2 ⟨rfl, hline, hrest⟩
      obtain ⟨d, ds, rfl⟩ := List.exists_cons_of_ne_nil hfile.1
      have hd : Text.isSpace d = false :=
        Text.isSpace_eq_false_of_isDigit (hfile.2 d List.mem_cons_self)
      have htext : "ERROR:".toList ++ (blanks ++ (d :: ds ++ ':' :: line)) ++ rest =
          "ERROR:".toList ++ (blanks ++ (d :: ds ++ ':' :: (line ++ rest))) := by simp
      have htake :
          (blanks ++ (d :: ds ++ ':' :: (line ++ rest))).takeWhile Text.isSpace = blanks := by
        rw [List.takeWhile_append_of_pos hblanks, List.cons_append,
          List.takeWhile_cons_of_neg (by simp [hd]), List.append_nil]
      have hdrop : (blanks ++ (d :: ds ++ ':' :: (line ++ rest))).dropWhile Text.isSpace =
          d :: ds ++ ':' :: (line ++ rest) := by
        rw [List.dropWhile_append_of_pos hblanks, List.cons_append,
          List.dropWhile_cons_of_neg (by simp [hd])]
      rw [length_error, htext, errorPlace?, List.isPrefixOf?_eq_some_iff_append_eq.2 rfl]
      simp only [Option.bind_eq_bind, Option.bind_some, htake, hdrop, hfile', List.isPrefixOf?,
        beq_self_eq_true, if_true, hline']
      rfl

/-- The reader of the second form finds what is spelled in it; a parenthesis is no digit, so both
    numbers are read to their ends. -/
theorem callPlace?_eq_some_iff {t file line : Text} {width : Nat} :
    callPlace? t = some ⟨file, line, width⟩ ↔
      ∃ spelled rest, t = spelled ++ rest ∧ Spells .call file line spelled rest ∧
        width = spelled.length := by
  constructor
  · intro h
    simp only [callPlace?, Option.bind_eq_bind, Option.bind_eq_some_iff, Prod.exists] at h
    obtain ⟨file, t₁, h₁, t₂, h₂, line, t₃, h₃, rest, h₄, hp⟩ := h
    obtain ⟨rfl, hfile, _⟩ := digits?_eq_some_iff.1 h₁
    obtain ⟨rfl, hline, _⟩ := digits?_eq_some_iff.1 h₃
    have ht₁ := List.isPrefixOf?_eq_some_iff_append_eq.1 h₂
    have ht₃ := List.isPrefixOf?_eq_some_iff_append_eq.1 h₄
    cases hp
    refine ⟨_, rest, ?_, .call hfile hline, (length_call _ _).symm⟩
    rw [← ht₁, ← ht₃]
    simp
  · rintro ⟨spelled, rest, rfl, hs, rfl⟩
    cases hs with
    | call hfile hline =>
      have hfile' := hfile.digits?_append (c := '(') (by decide) (line ++ ')' :: rest)
      have hline' := hline.digits?_append (c := ')') (by decide) rest
      have htext :
          file ++ '(' :: (line ++ [')']) ++ rest = file ++ '(' :: (line ++ ')' :: rest) := by
        simp
      rw [length_call, htext, callPlace?, hfile']
      simp only [Option.bind_eq_bind, Option.bind_some, List.isPrefixOf?, beq_self_eq_true, if_true,
        hline']
      rfl

/-- **The readers find places, and nothing else.** -/
theorem Form.place?_eq_some_iff {form : Form} {t file line : Text} {width : Nat} :
    form.place? t = some ⟨file, line, width⟩ ↔
      ∃ spelled rest, t = spelled ++ rest ∧ Spells form file line spelled rest ∧
        width = spelled.length := by
  cases form with
  | error => exact errorPlace?_eq_some_iff
  | call => exact callPlace?_eq_some_iff

namespace Spells

variable {form form' : Form} {file file' line line' spelled spelled' rest rest' : Text}

/-- A place starts with the label's first letter or with a digit. -/
theorem exists_head (h : Spells form file line spelled rest) :
    ∃ c t, spelled = c :: t ∧ (form = .error ∧ c = 'E' ∨ form = .call ∧ Text.isDigit c = true) := by
  cases h with
  | error => exact ⟨'E', _, rfl, .inl ⟨rfl, rfl⟩⟩
  | call hfile hline =>
    obtain ⟨d, ds, rfl⟩ := List.exists_cons_of_ne_nil hfile.1
    exact ⟨d, _, rfl, .inr ⟨rfl, hfile.2 d List.mem_cons_self⟩⟩

/-- A place is some text. -/
theorem ne_nil (h : Spells form file line spelled rest) : spelled ≠ [] := by
  obtain ⟨c, t, rfl, _⟩ := h.exists_head
  exact List.cons_ne_nil c t

/-- A place has no slash in it, in its white space neither. -/
theorem slash_not_mem (h : Spells form file line spelled rest) : '/' ∉ spelled := by
  cases h with
  | @error blanks _ _ _ hblanks hfile hline _ =>
    have hblank : '/' ∉ blanks := fun hmem => absurd (hblanks _ hmem) (by decide)
    simp only [List.mem_append, List.mem_cons, not_or]
    exact ⟨by decide, hblank, hfile.not_mem (by decide), by decide, hline.not_mem (by decide)⟩
  | call hfile hline =>
    simp only [List.mem_append, List.mem_cons, not_or]
    exact ⟨hfile.not_mem (by decide), by decide, hline.not_mem (by decide), by decide, by decide⟩

/-- Of what stands behind a place, only the next character matters. -/
theorem congr_rest (h : Spells form file line spelled rest) (hr : rest'.head? = rest.head?) :
    Spells form file line spelled rest' := by
  cases h with
  | error hblanks hfile hline hrest => exact .error hblanks hfile hline (by rw [hr]; exact hrest)
  | call hfile hline => exact .call hfile hline

/-- **A text starts with one place at most.** -/
theorem unique (h : Spells form file line spelled rest)
    (h' : Spells form' file' line' spelled' rest') (ht : spelled ++ rest = spelled' ++ rest') :
    form = form' ∧ file = file' ∧ line = line' ∧ spelled = spelled' ∧ rest = rest' := by
  -- The first character tells the form; then the reader of this form tells the rest.
  have hform : form = form' := by
    obtain ⟨c, t, rfl, hc⟩ := h.exists_head
    obtain ⟨d, u, rfl, hd⟩ := h'.exists_head
    obtain ⟨rfl, _⟩ := List.cons.inj ht
    rcases hc with ⟨rfl, rfl⟩ | ⟨rfl, hc⟩
    · rcases hd with ⟨rfl, _⟩ | ⟨_, hd⟩
      · rfl
      · exact absurd hd (by decide)
    · rcases hd with ⟨_, rfl⟩ | ⟨rfl, _⟩
      · exact absurd hc (by decide)
      · rfl
  subst hform
  have hp := Form.place?_eq_some_iff.2 ⟨spelled, rest, rfl, h, rfl⟩
  rw [Form.place?_eq_some_iff.2 ⟨spelled', rest', ht, h', rfl⟩] at hp
  simp only [Option.some.injEq, Place.mk.injEq] at hp
  obtain ⟨hfile, hline, hlength⟩ := hp
  obtain ⟨hspelled, hrest⟩ := List.append_inj ht hlength.symm
  exact ⟨rfl, hfile.symm, hline.symm, hspelled, hrest⟩

/-- The reader of the other form finds nothing at a place. -/
theorem place?_eq_none (h : Spells form file line spelled rest) (hne : form ≠ form') :
    form'.place? (spelled ++ rest) = none := by
  cases hp : form'.place? (spelled ++ rest) with
  | none => rfl
  | some p =>
    obtain ⟨spelled', rest', ht, h', _⟩ := Form.place?_eq_some_iff.1 hp
    exact absurd (h.unique h' ht).1 hne

end Spells

/-- No place is at the start of the text. -/
def Bare (t : Text) : Prop :=
  ∀ form file line spelled rest, t = spelled ++ rest → ¬Spells form file line spelled rest

/-- There no reader finds anything. -/
theorem Bare.place?_eq_none {t : Text} (h : Bare t) (form : Form) : form.place? t = none := by
  cases hp : form.place? t with
  | none => rfl
  | some p =>
    obtain ⟨spelled, rest, ht, hs, _⟩ := Form.place?_eq_some_iff.1 hp
    exact absurd hs (h _ _ _ _ _ ht)

/-- No place starts with any other character. -/
theorem bare_cons {c : Char} (hE : c ≠ 'E') (hd : Text.isDigit c = false) (t : Text) :
    Bare (c :: t) := by
  intro form file line spelled rest ht hs
  obtain ⟨d, u, rfl, hhead⟩ := hs.exists_head
  obtain ⟨rfl, _⟩ := List.cons.inj ht
  rcases hhead with ⟨_, rfl⟩ | ⟨_, hdigit⟩
  · exact hE rfl
  · rw [hd] at hdigit
    cases hdigit

/-- No place has a colon right behind its first digits. -/
theorem bare_colon {ds : Text} (h : IsNumber ds) (t : Text) : Bare (ds ++ ':' :: t) := by
  intro form file line spelled rest ht hs
  have hcolon := h.digits?_append (c := ':') (by decide) t
  cases hs with
  | error =>
    obtain ⟨d, ds, rfl⟩ := List.exists_cons_of_ne_nil h.1
    obtain ⟨rfl, _⟩ := List.cons.inj ht
    exact absurd (h.2 'E' List.mem_cons_self) (by decide)
  | call hfile hline =>
    rw [ht, List.append_assoc, List.cons_append, hfile.digits?_append (by decide)] at hcolon
    cases hcolon

/-! ## Starts of lines

  A place counts only at the start of a line, and for this the pass over the log carries along
  whether it is at one.  Inside a place no other place begins, at whichever character one starts to
  look. -/

/-- Whether a line starts behind a text; `start` says whether one starts in front of it. -/
def lineStarts (start : Bool) (t : Text) : Bool := t.foldl (fun _ c => c == '\n') start

/-- Whether a line starts behind two texts depends on the first only if the second is empty. -/
theorem lineStarts_append (start : Bool) (a b : Text) :
    lineStarts start (a ++ b) = lineStarts (lineStarts start a) b :=
  List.foldl_append

/-- The last character tells whether a line starts behind a text. -/
theorem lineStarts_concat (start : Bool) (a : Text) (c : Char) :
    lineStarts start (a ++ [c]) = (c == '\n') :=
  lineStarts_append start a [c]

/-- A line starts behind a text that is empty or ends in a line feed. -/
theorem lineStarts_iff {t : Text} : lineStarts true t = true ↔ t = [] ∨ ∃ b, t = b ++ ['\n'] := by
  rcases List.eq_nil_or_concat' t with rfl | ⟨b, c, rfl⟩
  · exact ⟨fun _ => .inl rfl, fun _ => rfl⟩
  · rw [lineStarts_concat, beq_iff_eq]
    constructor
    · rintro rfl
      exact .inr ⟨b, rfl⟩
    · rintro (h | ⟨b', h⟩)
      · exact absurd h (by simp)
      · cases (List.append_inj' h rfl).2
        rfl

/-- No line starts within a line. -/
theorem lineStarts_of_oneLine {start : Bool} {t : Text} (h : OneLine t) (ht : t ≠ []) :
    lineStarts start t = false := by
  obtain ⟨b, c, rfl⟩ := (List.eq_nil_or_concat' t).resolve_left ht
  rw [lineStarts_concat, beq_eq_false_iff_ne]
  rintro rfl
  exact (Text.oneLine_append.1 h).2 (by simp)

namespace Spells

variable {form form' : Form} {file file' line line' spelled spelled' rest rest' : Text}

/-- No line starts right behind a place. -/
theorem lineStarts_eq (h : Spells form file line spelled rest) (start : Bool) :
    lineStarts start spelled = false := by
  cases h with
  | @error blanks _ _ _ _ _ hline _ =>
    have hend : OneLine (':' :: line) := Text.oneLine_cons.2 ⟨by decide, hline.oneLine⟩
    rw [lineStarts_append, lineStarts_append, lineStarts_append]
    exact lineStarts_of_oneLine hend (List.cons_ne_nil _ _)
  | call hfile hline =>
    rw [lineStarts_append, ← List.cons_append]
    exact lineStarts_concat _ _ _

/-- A line that starts inside a place starts within white space or right behind it. -/
theorem exists_blanks {b c : Text} (h : Spells form file line (b ++ c) rest) {start : Bool}
    (hb : b ≠ []) (hl : lineStarts start b = true) :
    ∃ blanks, (∀ x ∈ blanks, Text.isSpace x = true) ∧ c = blanks ++ (file ++ ':' :: line) := by
  -- The part before has a line feed, so it is not within the label, nor within a call.
  have broken : ¬OneLine b := fun hone => by
    rw [lineStarts_of_oneLine hone hb] at hl
    cases hl
  generalize hs : b ++ c = spelled at h
  cases h with
  | call hfile hline =>
    have hone : OneLine (b ++ c) := by
      rw [hs]
      refine Text.oneLine_append.2 ⟨hfile.oneLine, Text.oneLine_cons.2 ⟨by decide, ?_⟩⟩
      exact Text.oneLine_append.2 ⟨hline.oneLine, by decide⟩
    exact absurd (Text.oneLine_append.1 hone).1 broken
  | error hblanks hfile hline hrest =>
    rcases List.append_eq_append_iff.1 hs with ⟨c', hlabel, _⟩ | ⟨b', rfl, hb'⟩
    · have hone : OneLine (b ++ c') := by
        rw [← hlabel]
        decide
      exact absurd (Text.oneLine_append.1 hone).1 broken
    · rcases List.append_eq_append_iff.1 hb' with ⟨b'', rfl, htail⟩ | ⟨more, rfl, rfl⟩
      · cases b'' with
        | nil => exact ⟨[], nofun, htail.symm⟩
        | cons x b'' =>
          -- Behind the white space there is no line feed.
          have hone : OneLine (file ++ ':' :: line) :=
            Text.oneLine_append.2 ⟨hfile.oneLine, Text.oneLine_cons.2 ⟨by decide, hline.oneLine⟩⟩
          rw [htail] at hone
          rw [lineStarts_append, lineStarts_append,
            lineStarts_of_oneLine (Text.oneLine_append.1 hone).1 (List.cons_ne_nil _ _)] at hl
          cases hl
      · exact ⟨more, fun x hx => hblanks x (List.mem_append_right _ hx), rfl⟩

/-- **No place is at the start of a line inside a place**: what is there is white space, or digits
    and then a colon. -/
theorem bare_inside {b c : Text} (h : Spells form file line (b ++ c) rest) {start : Bool}
    (hb : b ≠ []) (hl : lineStarts start b = true) : Bare (c ++ rest) := by
  have hfile : IsNumber file := by
    generalize b ++ c = spelled at h
    cases h <;> assumption
  -- Only the white space of the first form can have a line feed, so behind it come more blanks, or
  -- the file.
  obtain ⟨blanks, hblanks, rfl⟩ := h.exists_blanks hb hl
  cases blanks with
  | nil =>
    rw [List.nil_append, List.append_assoc, List.cons_append]
    exact bare_colon hfile _
  | cons x blanks =>
    have hspace := hblanks x List.mem_cons_self
    refine bare_cons ?_ ?_ _
    · rintro rfl
      exact absurd hspace (by decide)
    · refine Bool.eq_false_iff.2 fun hdigit => ?_
      rw [Text.isSpace_eq_false_of_isDigit hdigit] at hspace
      cases hspace

end Spells

/-! ## Going through a log

  A pass over a log is one recursion: at each character it skips the place that is being replaced,
  begins to replace one, or copies the character. -/

section Scanning

variable {place? : Text → Option Place} {r : Registry} {a t : Text} {p : Place} {start : Bool}

/-- The characters of a place are passed over. -/
theorem replacePlaces_skip (a t : Text) :
    replacePlaces place? r false a.length (a ++ t) = replacePlaces place? r false 0 t := by
  induction a with
  | nil => rfl
  | cons c a ih =>
    rw [List.length_cons, List.cons_append, replacePlaces]
    exact ih

/-- A place at the start of a line is replaced. -/
theorem replacePlaces_place (hp : place? (a ++ t) = some p) (hw : p.width = a.length)
    (ha : a ≠ []) :
    replacePlaces place? r true 0 (a ++ t) =
      replacement r (a ++ t) p ++ replacePlaces place? r false 0 t := by
  obtain ⟨c, a, rfl⟩ := List.exists_cons_of_ne_nil ha
  have hlength : p.width - 1 = a.length := by rw [hw, List.length_cons, Nat.add_sub_cancel]
  rw [List.cons_append] at hp ⊢
  rw [replacePlaces]
  simp only [if_true, hp]
  rw [hlength, replacePlaces_skip]

/-- What a place with `t` behind it is replaced by. -/
theorem replacement_eq (file line : Text) (a t : Text) :
    replacement r (a ++ t) ⟨file, line, a.length⟩ =
      ((pathOf? r file).map fun path => path.text ++ '(' :: (line ++ [')'])).getD a := by
  unfold replacement
  cases pathOf? r file with
  | some path => rfl
  | none => exact List.take_left

/-- **A text stays as it is** where none of its lines starts with a place. -/
theorem replacePlaces_walk
    (h : ∀ b c, a = b ++ c → c ≠ [] → lineStarts start b = true → place? (c ++ t) = none) :
    replacePlaces place? r start 0 (a ++ t) =
      a ++ replacePlaces place? r (lineStarts start a) 0 t := by
  induction a generalizing start with
  | nil => rfl
  | cons c a ih =>
    have hnone : (if start = true then place? (c :: (a ++ t)) else none) = none := by
      split
      · next hstart => exact h [] (c :: a) rfl (List.cons_ne_nil _ _) hstart
      · rfl
    rw [List.cons_append, replacePlaces, hnone]
    simp only
    rw [ih fun b c' ha hc hl => h (c :: b) c' (by rw [ha]; rfl) hc hl]
    rfl

/-- A line stays as it is, unless it starts with a place. -/
theorem replacePlaces_of_oneLine (h : OneLine t) (hp : start = true → place? t = none) :
    replacePlaces place? r start 0 t = t := by
  have hwalk : replacePlaces place? r start 0 (t ++ []) =
      t ++ replacePlaces place? r (lineStarts start t) 0 [] := by
    refine replacePlaces_walk fun b c ht _ hl => ?_
    cases b with
    | nil =>
      rw [List.append_nil, ← List.nil_append c, ← ht]
      exact hp hl
    | cons x b =>
      rw [ht] at h
      rw [lineStarts_of_oneLine (Text.oneLine_append.1 h).1 (List.cons_ne_nil _ _)] at hl
      cases hl
  rw [List.append_nil] at hwalk
  rw [hwalk, replacePlaces, List.append_nil]

/-- Within a line nothing is replaced. -/
theorem replacePlaces_within (h : OneLine t) : replacePlaces place? r false 0 t = t :=
  replacePlaces_of_oneLine h nofun

end Scanning

/-! ## The parts of a log

  A log is cut into places and single characters by looking at it once, from the left, with both
  forms in mind.  A pass over one form then rewrites part by part (`Divided.replacePlaces_eq`),
  although it does not know of the other form. -/

/-- A part of a log: a place, or a character outside all places. -/
inductive Part where
  | char (c : Char)
  | place (form : Form) (file line spelled : Text)

namespace Part

/-- The text of a part. -/
def text : Part → Text
  | .char c => [c]
  | .place _ _ _ spelled => spelled

/-- What is written for a part when the places of some forms are rewritten, if it is such a place
    and its file is registered: the path, and the digits of the line in parentheses. -/
def named? (registry : Registry) (forms : Form → Bool) : Part → Option Text
  | .char _ => none
  | .place form file line _ =>
    if forms form then (pathOf? registry file).map fun path => path.text ++ '(' :: (line ++ [')'])
      else none

/-- The text of a part when the places of some forms are rewritten. -/
def rewrite (registry : Registry) (forms : Form → Bool) (part : Part) : Text :=
  (part.named? registry forms).getD part.text

/-- The parts of what a part is rewritten to. -/
def settle (registry : Registry) (forms : Form → Bool) (part : Part) : List Part :=
  match part.named? registry forms with
  | some t => t.map .char
  | none => [part]

end Part

/-- The text falls apart into parts: the places at the starts of its lines, and the characters
    outside them.  `start` says whether a line starts in front of the text. -/
inductive Divided : Bool → Text → List Part → Prop where
  | nil {start} : Divided start [] []
  | char {start c t parts} (hbare : start = true → Bare (c :: t))
      (h : Divided (c == '\n') t parts) : Divided start (c :: t) (.char c :: parts)
  | place {form file line spelled rest parts} (hs : Spells form file line spelled rest)
      (h : Divided false rest parts) :
      Divided true (spelled ++ rest) (.place form file line spelled :: parts)

/-- **Every text falls apart**, by induction on its length: a place is some text, and so is a
    character. -/
theorem exists_divided (start : Bool) (t : Text) : ∃ parts, Divided start t parts := by
  induction hn : t.length using Nat.strongRecOn generalizing start t with
  | ind n ih =>
    cases t with
    | nil => exact ⟨[], .nil⟩
    | cons c t =>
      by_cases hbare : start = true → Bare (c :: t)
      · obtain ⟨parts, hparts⟩ := ih t.length (by rw [← hn]; exact Nat.lt_succ_self _)
          (c == '\n') t rfl
        exact ⟨_, .char hbare hparts⟩
      · obtain ⟨rfl, hplace⟩ := Classical.not_imp.1 hbare
        simp only [Bare, not_forall, Classical.not_not] at hplace
        obtain ⟨form, file, line, spelled, rest, ht, hs⟩ := hplace
        have hshorter : rest.length < n := by
          have hpos := List.length_pos_of_ne_nil hs.ne_nil
          rw [← hn, ht, List.length_append]
          omega
        obtain ⟨parts, hparts⟩ := ih rest.length hshorter false rest rfl
        rw [ht]
        exact ⟨_, .place hs hparts⟩

namespace Divided

variable {registry : Registry} {start : Bool} {t : Text} {parts : List Part}

/-- The parts make up the text. -/
theorem text_eq (h : Divided start t parts) : parts.flatMap Part.text = t := by
  induction h with
  | nil => rfl
  | char _ _ ih =>
    rw [List.flatMap_cons, ih]
    rfl
  | place _ _ ih =>
    rw [List.flatMap_cons, ih]
    rfl

/-- **A pass over one form rewrites the places of this form.**  A place of the other form is passed
    over as it stands: no line starts behind it, and no place with a line inside it. -/
theorem replacePlaces_eq (h : Divided start t parts) (form : Form) :
    replacePlaces form.place? registry start 0 t =
      parts.flatMap (Part.rewrite registry (· == form)) := by
  induction h with
  | nil => rfl
  | @char start c t parts hbare _ ih =>
    have hnone : (if start = true then form.place? (c :: t) else none) = none := by
      split
      · next hstart => exact (hbare hstart).place?_eq_none form
      · rfl
    rw [replacePlaces, hnone, List.flatMap_cons, ← ih]
    rfl
  | @place form' file line spelled rest parts hs _ ih =>
    rw [List.flatMap_cons, ← ih]
    by_cases hform : form' = form
    · -- A place of the form that is rewritten: the reader finds it, and it is replaced.
      subst hform
      have hp := Form.place?_eq_some_iff.2 ⟨spelled, rest, rfl, hs, rfl⟩
      rw [replacePlaces_place hp rfl hs.ne_nil, replacement_eq]
      simp only [Part.rewrite, Part.named?, beq_self_eq_true, if_true]
      rfl
    · -- A place of the other form.  The pass walks over it, since the reader finds nothing in it.
      have hkept :
          Part.rewrite registry (· == form) (.place form' file line spelled) = spelled := by
        simp only [Part.rewrite, Part.named?, beq_iff_eq, hform, if_false]
        rfl
      have hwalk : replacePlaces form.place? registry true 0 (spelled ++ rest) =
          spelled ++ replacePlaces form.place? registry (lineStarts true spelled) 0 rest := by
        refine replacePlaces_walk fun b c hspelled hc hl => ?_
        by_cases hb : b = []
        · rw [hb, List.nil_append] at hspelled
          rw [← hspelled]
          exact hs.place?_eq_none hform
        · rw [hspelled] at hs
          exact (hs.bare_inside hb hl).place?_eq_none form
      rw [hkept, hwalk, hs.lineStarts_eq]

end Divided

/-! ## What is left of a log

  For the second pass the log has changed: rewritten places have become other characters.  What it
  must not find are places that were not there, and what it must find are the places of its own
  form, where they were.  Paths start with a slash and have no line feed, and that is enough for
  both. -/

/-- Paths are shown on one line and start at the root. -/
def Rooted (registry : Registry) : Prop :=
  ∀ e ∈ registry.entries, e.path.text.head? = some '/' ∧ OneLine e.path.text

/-- So are the paths that digits lead to. -/
theorem Rooted.of_pathOf? {registry : Registry} (h : Rooted registry) {digits : Text} {path : Path}
    (hp : pathOf? registry digits = some path) :
    path.text.head? = some '/' ∧ OneLine path.text := by
  simp only [pathOf?, Option.bind_eq_bind, Option.bind_eq_some_iff] at hp
  obtain ⟨n, _, hn⟩ := hp
  split at hn
  · obtain ⟨e, he, rfl⟩ := Option.map_eq_some_iff.1 hn
    exact h e (List.mem_of_getElem? he)
  · cases hn

/-- Where a new line starts with a slash, in place of something else, no place comes about before
    it: it would have to have the slash in it, or to end at the end of a line. -/
theorem Bare.of_common {common u u' : Text} (h : Bare (common ++ u)) {start : Bool}
    (hl : lineStarts start common = true) : Bare (common ++ '/' :: u') := by
  intro form file line spelled rest ht hs
  -- A place that reaches into the new line has the slash in it; one that ends before was there
  -- already.
  rcases List.append_eq_append_iff.1 ht with ⟨x, hspelled, hx⟩ | ⟨y, hcommon, hy⟩
  · cases x with
    | nil =>
      rw [List.append_nil] at hspelled
      rw [← hspelled, hs.lineStarts_eq] at hl
      cases hl
    | cons d x =>
      obtain ⟨rfl, _⟩ := List.cons.inj hx
      exact hs.slash_not_mem (by rw [hspelled]; simp)
  · cases y with
    | nil =>
      rw [List.append_nil] at hcommon
      rw [hcommon, hs.lineStarts_eq] at hl
      cases hl
    | cons d y =>
      refine h form file line spelled (d :: y ++ u) (by rw [hcommon, List.append_assoc])
        (hs.congr_rest ?_)
      rw [hy]
      rfl

/-- What is written for a place starts with a slash and is one line. -/
theorem Part.exists_of_named? {registry : Registry} (hr : Rooted registry) {forms : Form → Bool}
    {form : Form} {file line spelled rest t : Text} (hs : Spells form file line spelled rest)
    (ht : named? registry forms (.place form file line spelled) = some t) :
    ∃ u, t = '/' :: u ∧ OneLine u := by
  have hline : IsNumber line := by cases hs <;> assumption
  simp only [named?] at ht
  split at ht
  · obtain ⟨path, hpath, rfl⟩ := Option.map_eq_some_iff.1 ht
    obtain ⟨hslash, hone⟩ := hr.of_pathOf? hpath
    obtain ⟨u, hu⟩ := List.head?_eq_some_iff.1 hslash
    rw [hu] at hone
    refine ⟨u ++ '(' :: (line ++ [')']), by rw [hu]; rfl, ?_⟩
    refine Text.oneLine_append.2 ⟨(Text.oneLine_cons.1 hone).2, Text.oneLine_cons.2 ⟨by decide, ?_⟩⟩
    exact Text.oneLine_append.2 ⟨hline.oneLine, by decide⟩
  · cases ht

namespace Divided

variable {registry : Registry} {start : Bool} {t : Text} {parts : List Part}

/-- Characters of one line are parts of their own. -/
theorem chars {a : Text} (ha : OneLine a) (h : Divided false t parts) :
    Divided false (a ++ t) (a.map Part.char ++ parts) := by
  induction a with
  | nil => exact h
  | cons c a ih =>
    obtain ⟨hc, ha⟩ := Text.oneLine_cons.1 ha
    have hc : (c == '\n') = false := by simpa using hc
    refine .char nofun ?_
    rw [hc]
    exact ih ha

/-- **A log and what it is rewritten to are the same up to the start of a line**, where a slash is
    written. -/
theorem common (hr : Rooted registry) (forms : Form → Bool) (h : Divided start t parts) :
    parts.flatMap (Part.rewrite registry forms) = t ∨
      ∃ common u u', t = common ++ u ∧
        parts.flatMap (Part.rewrite registry forms) = common ++ '/' :: u' ∧
        lineStarts start common = true := by
  induction h with
  | nil => exact .inl rfl
  | @char start c t parts _ _ ih =>
    have hchar : Part.rewrite registry forms (.char c) = [c] := rfl
    rw [List.flatMap_cons, hchar]
    rcases ih with ih | ⟨common, u, u', rfl, ht', hl⟩
    · exact .inl (by rw [ih]; rfl)
    · exact .inr ⟨c :: common, u, u', rfl, by rw [ht']; rfl, hl⟩
  | @place form file line spelled rest parts hs _ ih =>
    rw [List.flatMap_cons]
    unfold Part.rewrite at ih ⊢
    cases hn : Part.named? registry forms (.place form file line spelled) with
    -- The first place that is rewritten: from here on the texts differ, by the slash.
    | some t' =>
      obtain ⟨u, rfl, _⟩ := Part.exists_of_named? hr hs hn
      exact .inr ⟨[], _, _, rfl, rfl, rfl⟩
    | none =>
      rcases ih with ih | ⟨common, u, u', rfl, ht', hl⟩
      · exact .inl (by rw [ih]; rfl)
      · refine .inr ⟨spelled ++ common, u, u', (List.append_assoc _ _ _).symm, ?_, ?_⟩
        · rw [ht']
          exact (List.append_assoc _ _ _).symm
        · rw [lineStarts_append, hs.lineStarts_eq]
          exact hl

/-- **A rewritten log falls apart into the same parts**, but that rewritten places are
    characters. -/
theorem rewrite (hr : Rooted registry) (forms : Form → Bool) (h : Divided start t parts) :
    Divided start (parts.flatMap (Part.rewrite registry forms))
      (parts.flatMap (Part.settle registry forms)) := by
  induction h with
  | nil => exact .nil
  | @char start c t parts hbare h ih =>
    -- A character that was outside all places still is: what follows it is the same, or a slash.
    refine .char (fun hstart => ?_) ih
    show Bare (c :: parts.flatMap (Part.rewrite registry forms))
    rcases h.common hr forms with ht | ⟨common, u, u', rfl, ht, hl⟩
    · rw [ht]
      exact hbare hstart
    · have hl : lineStarts start (c :: common) = true := hl
      have hbare : Bare (c :: common ++ u) := hbare hstart
      rw [ht]
      exact hbare.of_common hl
  | @place form file line spelled rest parts hs h ih =>
    rw [List.flatMap_cons, List.flatMap_cons]
    unfold Part.rewrite Part.settle at ih ⊢
    cases hn : Part.named? registry forms (.place form file line spelled) with
    | some t' =>
      obtain ⟨u, rfl, hu⟩ := Part.exists_of_named? hr hs hn
      exact .char (fun _ => bare_cons (by decide) (by decide) _) (ih.chars hu)
    | none =>
      refine .place (hs.congr_rest ?_) ih
      show (parts.flatMap (Part.rewrite registry forms)).head? = rest.head?
      rcases h.common hr forms with ht | ⟨common, u, u', rfl, ht, hl⟩
      · rw [ht]
      · rw [ht]
        cases common with
        | nil => cases hl
        | cons c common => rfl

/-- Where the places of a divided text are: a place at the start of a line is one of the parts, and
    every part that is a place is at the start of a line. -/
theorem place_iff (h : Divided start t parts) {form : Form} {before file line spelled rest : Text} :
    (t = before ++ (spelled ++ rest) ∧ lineStarts start before = true ∧
      Spells form file line spelled rest) ↔
      ∃ ps qs, parts = ps ++ .place form file line spelled :: qs ∧ before = ps.flatMap Part.text ∧
        rest = qs.flatMap Part.text := by
  constructor
  · rintro ⟨ht, hl, hs⟩
    induction h generalizing before with
    | nil =>
      have hnil : spelled = [] := by simp_all
      exact absurd hnil hs.ne_nil
    | @char start c t parts hbare _ ih =>
      cases before with
      | nil => exact absurd hs (hbare hl _ _ _ _ _ ht)
      | cons d before =>
        obtain ⟨rfl, htail⟩ := List.cons.inj ht
        obtain ⟨ps, qs, rfl, rfl, hrest⟩ := ih htail hl
        exact ⟨.char c :: ps, qs, rfl, rfl, hrest⟩
    | @place form' file' line' spelled' rest' parts hs' h ih =>
      -- The first part is a place itself: the other one is behind it, or the same, or would start
      -- inside it.
      rcases List.append_eq_append_iff.1 ht with ⟨more, rfl, hmore⟩ | ⟨c, hc, hrest⟩
      · rw [lineStarts_append, hs'.lineStarts_eq] at hl
        obtain ⟨ps, qs, rfl, rfl, hrest⟩ := ih hmore hl
        exact ⟨.place form' file' line' spelled' :: ps, qs, rfl, rfl, hrest⟩
      · by_cases hb : before = []
        · subst hb
          obtain ⟨rfl, rfl, rfl, rfl, rfl⟩ := hs.unique hs' ht.symm
          exact ⟨[], parts, rfl, rfl, h.text_eq.symm⟩
        · rw [hc] at hs'
          exact absurd hs (hs'.bare_inside hb hl _ _ _ _ _ hrest.symm)
  · rintro ⟨ps, qs, hparts, rfl, rfl⟩
    induction h generalizing ps with
    | nil => cases ps <;> cases hparts
    | char _ _ ih =>
      cases ps with
      | nil => cases hparts
      | cons part ps =>
        obtain ⟨rfl, htail⟩ := List.cons.inj hparts
        obtain ⟨ht, hl, hs⟩ := ih ps htail
        exact ⟨by rw [ht]; rfl, hl, hs⟩
    | place hs' h ih =>
      cases ps with
      | nil =>
        cases hparts
        exact ⟨by rw [h.text_eq]; rfl, rfl, by rw [h.text_eq]; exact hs'⟩
      | cons part ps =>
        obtain ⟨rfl, htail⟩ := List.cons.inj hparts
        obtain ⟨ht, hl, hs⟩ := ih ps htail
        refine ⟨?_, ?_, hs⟩
        · rw [ht]
          exact (List.append_assoc _ _ _).symm
        · rw [List.flatMap_cons, lineStarts_append]
          show lineStarts (lineStarts true _) _ = true
          rw [Part.text, hs'.lineStarts_eq]
          exact hl

end Divided

/-! ## Both passes

  The part that one pass settles is left alone by the other, so the order of the passes does not
  matter, and the result is one rewriting of all parts at once. -/

/-- Of two sets of forms, the places of either are rewritten where those of both are. -/
theorem Part.named?_or (registry : Registry) (forms forms' : Form → Bool) (part : Part) :
    (part.named? registry fun form => forms form || forms' form) =
      (part.named? registry forms).or (part.named? registry forms') := by
  cases part with
  | char c => rfl
  | place form file line spelled =>
    simp only [named?]
    cases pathOf? registry file with
    | none => simp
    | some path => by_cases hform : forms form = true <;> simp [hform]

/-- What was written for a part is not rewritten again. -/
theorem Part.flatMap_rewrite_settle (registry : Registry) (forms forms' : Form → Bool)
    (part : Part) :
    (part.settle registry forms).flatMap (rewrite registry forms') =
      part.rewrite registry fun form => forms form || forms' form := by
  show _ = (part.named? registry fun form => forms form || forms' form).getD part.text
  rw [named?_or, settle]
  cases part.named? registry forms with
  | some t =>
    show List.flatMap _ (t.map char) = t
    rw [List.flatMap_map]
    exact List.flatMap_singleton' t
  | none => exact List.append_nil _

/-- **Two passes rewrite the places of both forms**, whichever comes first. -/
theorem Divided.two_passes {registry : Registry} (hr : Rooted registry) {log : Text}
    {parts : List Part} (h : Divided true log parts) (first second : Form) (hne : first ≠ second) :
    replacePlaces second.place? registry true 0 (replacePlaces first.place? registry true 0 log) =
      parts.flatMap (Part.rewrite registry fun _ => true) := by
  have hforms : (fun form => form == first || form == second) = fun _ => true := by
    funext form
    cases form <;> cases first <;> cases second <;> first | rfl | exact absurd rfl hne
  rw [h.replacePlaces_eq first, (h.rewrite hr (· == first)).replacePlaces_eq second,
    List.flatMap_assoc]
  simp only [Part.flatMap_rewrite_settle, hforms]

/-- A place in a log: what stands before it, its form and its digits, its text, and what stands
    behind it. -/
@[ext]
structure Occurrence where
  before : Text
  form : Form
  file : Text
  line : Text
  spelled : Text
  rest : Text

/-- The place is in the log, at its start or right behind a line feed. -/
def Occurrence.IsIn (o : Occurrence) (log : Text) : Prop :=
  log = o.before ++ (o.spelled ++ o.rest) ∧ (o.before = [] ∨ ∃ b, o.before = b ++ ['\n']) ∧
    Spells o.form o.file o.line o.spelled o.rest

/-- **The places of a log are the places among its parts.** -/
theorem Divided.isIn_iff {log : Text} {parts : List Part} (h : Divided true log parts)
    {o : Occurrence} :
    o.IsIn log ↔ ∃ ps qs, parts = ps ++ .place o.form o.file o.line o.spelled :: qs ∧
      o.before = ps.flatMap Part.text ∧ o.rest = qs.flatMap Part.text := by
  unfold Occurrence.IsIn
  rw [← lineStarts_iff, h.place_iff]

/-- Two places of a log are one, or one of them ends before the other starts. -/
theorem Occurrence.IsIn.disjoint {log : Text} {a b : Occurrence} (ha : a.IsIn log)
    (hb : b.IsIn log) :
    a = b ∨ a.before.length + a.spelled.length ≤ b.before.length ∨
      b.before.length + b.spelled.length ≤ a.before.length := by
  -- Both are parts of the log, and one of them is the first in order.
  have ordered : ∀ {a b : Occurrence} {ps qs qs' between : List Part},
      a.before = ps.flatMap Part.text → a.rest = qs.flatMap Part.text →
      b.before = (ps ++ between).flatMap Part.text →
      b.rest = qs'.flatMap Part.text →
      Part.place a.form a.file a.line a.spelled :: qs =
        between ++ .place b.form b.file b.line b.spelled :: qs' →
      a = b ∨ a.before.length + a.spelled.length ≤ b.before.length := by
    intro a b ps qs qs' between hbefore hrest hbefore' hrest' hparts
    cases between with
    | nil =>
      simp only [List.nil_append, List.cons.injEq, Part.place.injEq] at hparts
      obtain ⟨⟨hform, hfile, hline, hspelled⟩, rfl⟩ := hparts
      rw [List.append_nil] at hbefore'
      exact .inl (Occurrence.ext (hbefore.trans hbefore'.symm) hform hfile hline hspelled
        (hrest.trans hrest'.symm))
    | cons part between =>
      obtain ⟨rfl, _⟩ := List.cons.inj hparts
      refine .inr ?_
      rw [hbefore, hbefore', List.flatMap_append, List.flatMap_cons, List.length_append,
        List.length_append]
      show _ + a.spelled.length ≤ _ + (a.spelled.length + _)
      omega
  obtain ⟨parts, h⟩ := exists_divided true log
  obtain ⟨ps, qs, hps, hbefore, hrest⟩ := h.isIn_iff.1 ha
  obtain ⟨ps', qs', hps', hbefore', hrest'⟩ := h.isIn_iff.1 hb
  rcases List.append_eq_append_iff.1 (hps.symm.trans hps') with
    ⟨between, rfl, hparts⟩ | ⟨between, rfl, hparts⟩
  · exact (ordered hbefore hrest hbefore' hrest' hparts).imp_right .inl
  · exact (ordered hbefore' hrest' hbefore hrest hparts).imp Eq.symm .inr

/-- **The two passes over a log are one rewriting of all its places.**  Where the registered paths
    are shown on one line and start at the root: no two places of a log overlap; the log falls apart
    into its places and single characters, and remapping it puts the path, with the line in
    parentheses, for each place whose number is registered, and leaves all else as it is; the passes
    may as well be made in the other order; and remapping a log that was remapped changes
    nothing. -/
theorem remap_simultaneous {registry : Registry}
    (h : ∀ e ∈ registry.entries, e.path.text.head? = some '/' ∧ OneLine e.path.text) (log : Text) :
    (∀ a b : Occurrence, a.IsIn log → b.IsIn log →
      a = b ∨ a.before.length + a.spelled.length ≤ b.before.length ∨
        b.before.length + b.spelled.length ≤ a.before.length) ∧
    (∃ parts : List Part, log = parts.flatMap Part.text ∧
      (∀ o : Occurrence, o.IsIn log ↔
        ∃ ps qs, parts = ps ++ .place o.form o.file o.line o.spelled :: qs ∧
          o.before = ps.flatMap Part.text ∧ o.rest = qs.flatMap Part.text) ∧
      remap registry log = parts.flatMap (Part.rewrite registry fun _ => true)) ∧
    replacePlaces errorPlace? registry true 0 (replacePlaces callPlace? registry true 0 log) =
      remap registry log ∧
    remap registry (remap registry log) = remap registry log := by
  obtain ⟨parts, hparts⟩ := exists_divided true log
  have remapped : ∀ {t : Text} {parts : List Part}, Divided true t parts →
      remap registry t = parts.flatMap (Part.rewrite registry fun _ => true) := by
    intro t parts hd
    exact hd.two_passes h .error .call nofun
  refine ⟨fun a b ha hb => ha.disjoint hb, ⟨parts, hparts.text_eq.symm, fun o => hparts.isIn_iff,
    remapped hparts⟩, ?_, ?_⟩
  · -- In the other order the same places are rewritten.
    rw [remapped hparts]
    exact hparts.two_passes h .call .error nofun
  · -- The remapped log has only the places that have no registered number.
    rw [remapped hparts, remapped (hparts.rewrite h _), List.flatMap_assoc]
    simp only [Part.flatMap_rewrite_settle, Bool.or_self]

/-- A log with both forms: one place runs over the end of a line, one has a number that is not
    registered, and one is in digits that are no number. -/
def bothForms : Text := "ERROR:\n 0:12: x\n0(3) y\nERROR: 7:1\n\u0660(5)\n".toList

/-- One registered file. -/
def oneFile : Registry := Registry.append {} ⟨"/a".toList⟩ true

/-- The two places of the file are rewritten, and only these, in either order. -/
theorem remap_simultaneous_bothForms :
    (∀ e ∈ oneFile.entries, e.path.text.head? = some '/' ∧ OneLine e.path.text) ∧
    remap oneFile bothForms = "/a(12): x\n/a(3) y\nERROR: 7:1\n\u0660(5)\n".toList ∧
    replacePlaces errorPlace? oneFile true 0 (replacePlaces callPlace? oneFile true 0 bothForms) =
      remap oneFile bothForms ∧
    remap oneFile (remap oneFile bothForms) = remap oneFile bothForms := by
  have hrooted : ∀ e ∈ oneFile.entries, e.path.text.head? = some '/' ∧ OneLine e.path.text := by
    decide
  obtain ⟨_, _, horder, hagain⟩ := remap_simultaneous hrooted bothForms
  exact ⟨hrooted, by decide +kernel, horder, hagain⟩

end CompilerLog
end ShaderWeave
