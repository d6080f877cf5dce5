/-
  How a line is expanded.

  Expanding a line is a loop: as long as the line has a token, its last token is replaced.
  `Replaces n` is `n` rounds of that loop, and `expandLine_halts` says how it ends: after at most as
  many rounds as the line is allowed, at a line without tokens or with one of three errors.  So also
  a value that brings back its own token, or more tokens at each round, keeps the loop going only
  for a bounded number of rounds.

  `Replaces.keeps` is the invariant rule of the loop: what one replacement keeps holds of the
  expanded line.  With it, a line that opens a loop still opens one when it is expanded
  (`isHeader_of_expandLine`), because no token can start within `#for` and the white space after it.
-/
import Mathlib.Data.List.Basic
import ShaderWeave.Directive
import ShaderWeave.Substitution

namespace ShaderWeave

/-- A line opens a loop if `#for` and white space stand at its start. -/
theorem LoopHeader.isHeader_iff {line : Text} : isHeader line = true ↔
    ∃ c rest, line = '#' :: 'f' :: 'o' :: 'r' :: c :: rest ∧ Text.isSpace c = true := by
  constructor
  · intro h
    unfold isHeader at h
    split at h
    · next c rest hp =>
      exact ⟨c, rest, (List.isPrefixOf?_eq_some_iff_append_eq.1 hp).symm, h⟩
    · cases h
  · rintro ⟨c, rest, rfl, hc⟩
    exact hc

namespace Directive

/-- Only a header opens a loop. -/
theorem isHeader_of_parse {line : Text} {header : LoopHeader}
    (h : parse line = .ok (.loop header)) : LoopHeader.isHeader line = true := by
  unfold parse LoopHeader.read at h
  split at h
  · cases h
  · split at h
    · cases h
    · split at h
      · next rest _ => cases hi : Inclusion.parse rest <;> rw [hi] at h <;> cases h
      · split at h
        · next hh => exact hh
        · cases h

/-- A header asks for nothing but a loop. -/
theorem parse_of_isHeader {line : Text} (h : LoopHeader.isHeader line = true) :
    parse line = (LoopHeader.parse (line.drop 4)).map .loop := by
  obtain ⟨c, rest, hline, _⟩ := LoopHeader.isHeader_iff.1 h
  have hversion : "#version __CONTEXT__".toList.isPrefixOf line = false := by rw [hline]; rfl
  have hplatform : "#define __OS__".toList.isPrefixOf line = false := by rw [hline]; rfl
  have hinclude : List.isPrefixOf? "#include".toList line = none := by rw [hline]; rfl
  simp only [parse, LoopHeader.read, hversion, hplatform, hinclude, h, Bool.false_eq_true, if_false,
    if_true]
  cases LoopHeader.parse (line.drop 4) <;> rfl

/-- So what is read from a header is a loop, and what the loop says stands behind the first word. -/
theorem exists_loop_of_parse {line : Text} {directive : Directive}
    (hh : LoopHeader.isHeader line = true) (h : parse line = .ok directive) :
    ∃ header, directive = .loop header ∧ LoopHeader.parse (line.drop 4) = .ok header := by
  rw [parse_of_isHeader hh] at h
  cases hl : LoopHeader.parse (line.drop 4) with
  | error fault =>
    rw [hl] at h
    cases h
  | ok header =>
    rw [hl] at h
    cases h
    exact ⟨header, rfl, rfl⟩

/-- What a header says is read behind its first word. -/
theorem header_of_parse {line : Text} {header : LoopHeader} (h : parse line = .ok (.loop header)) :
    LoopHeader.parse (line.drop 4) = .ok header := by
  obtain ⟨header', hloop, hheader⟩ := exists_loop_of_parse (isHeader_of_parse h) h
  cases hloop
  exact hheader

end Directive

namespace Substitution

/-! ## The last token

  A line is cut in three at its last token, and nothing of it is lost: this is all that most proofs
  need to know of the search. -/

/-- The last opening of a line is a part of the line. -/
theorem eq_append_of_cutLastOpening {line before rest : Text}
    (h : cutLastOpening line = some (before, rest)) : line = before ++ '#' :: '{' :: rest := by
  fun_induction cutLastOpening line generalizing before rest with
  | case1 => cases h
  | case2 tail l r hcut ih =>
    cases h
    rw [ih hcut]
    rfl
  | case3 tail hcut =>
    cases h
    rfl
  | case4 c tail _ ih =>
    simp only [Option.map_eq_some_iff, Prod.mk.injEq, Prod.exists] at h
    obtain ⟨l, r, hcut, rfl, rfl⟩ := h
    rw [ih hcut]
    rfl

/-- The last token of a line is a part of the line. -/
theorem eq_append_of_lastToken {line before name after : Text}
    (h : lastToken line = .found before name after) :
    line = before ++ '#' :: '{' :: (name ++ '}' :: after) := by
  unfold lastToken at h
  split at h
  · cases h
  · next l rest hcut =>
    split at h
    · cases h
    · next n a hclose =>
      cases h
      rw [eq_append_of_cutLastOpening hcut, (Text.cut_eq_some_iff.1 hclose).1]

/-! ## Rounds of replacement

  The program's loop is bounded by a number that counts down; `Replaces` forgets the bound and keeps
  the rounds, so that what a line comes to can be talked about without it. -/

/-- Replacing the last token `n` times leads from a line to another. -/
inductive Replaces (env : Environment) : Nat → Text → Text → Prop where
  | zero {line} : Replaces env 0 line line
  | succ {n line before name after text out} (ht : lastToken line = .found before name after)
      (he : env.expand name = .ok text) (h : Replaces env n (before ++ text ++ after) out) :
      Replaces env (n + 1) line out

/-- What one replacement keeps, any number of them keeps. -/
theorem Replaces.keeps {env : Environment} {P : Text → Prop}
    (hP : ∀ before name after text, P (before ++ '#' :: '{' :: (name ++ '}' :: after)) →
      env.expand name = .ok text → P (before ++ text ++ after))
    {n : Nat} {line out : Text} (h : Replaces env n line out) (hline : P line) : P out := by
  induction h with
  | zero => exact hline
  | succ ht he _ ih =>
    apply ih
    rw [eq_append_of_lastToken ht] at hline
    exact hP _ _ _ _ hline he

/-- How expanding a line ends when it has come to `out` with `left` replacements still allowed. -/
def Halts (env : Environment) (limit : Nat) (loc : Location) (left : Nat) (out : Text)
    (result : Except Error Text) : Prop :=
  match lastToken out with
  | .absent => result = .ok out
  | .unclosed => result = .error (.malformed .unclosedToken loc)
  | .found _ name _ =>
    (left = 0 ∧ result = .error (.malformed (.tooManySubstitutions limit) loc)) ∨
      ∃ fault, env.expand name = .error fault ∧ result = .error (.substitution name fault loc)

/-- With so many replacements left, the loop ends after at most as many. -/
theorem expandWithin_halts (env : Environment) (limit : Nat) (loc : Location) :
    ∀ (left : Nat) (line : Text), ∃ n ≤ left, ∃ out, Replaces env n line out ∧
      Halts env limit loc (left - n) out (expandWithin env limit loc left line) := by
  -- The induction follows the bound: a round that is made leaves one less.
  intro left
  induction left with
  | zero =>
    intro line
    refine ⟨0, Nat.le_refl _, line, .zero, ?_⟩
    rw [expandWithin, Halts]
    cases lastToken line with
    | absent => rfl
    | unclosed => rfl
    | found before name after => exact .inl ⟨rfl, rfl⟩
  | succ left ih =>
    intro line
    cases ht : lastToken line with
    | absent => exact ⟨0, Nat.zero_le _, line, .zero, by rw [expandWithin, Halts, ht]⟩
    | unclosed => exact ⟨0, Nat.zero_le _, line, .zero, by rw [expandWithin, Halts, ht]⟩
    | found before name after =>
      cases he : env.expand name with
      | error fault =>
        refine ⟨0, Nat.zero_le _, line, .zero, ?_⟩
        rw [expandWithin, Halts, ht]
        simp only [he]
        exact .inr ⟨fault, rfl, rfl⟩
      | ok text =>
        obtain ⟨n, hn, out, hr, hh⟩ := ih (before ++ text ++ after)
        refine ⟨n + 1, Nat.succ_le_succ hn, out, .succ ht he hr, ?_⟩
        rw [expandWithin, ht]
        simp only [he]
        have hleft : left + 1 - (n + 1) = left - n := by omega
        rw [hleft]
        exact hh

/-- **Expanding a line ends** after at most as many replacements as the line is allowed. -/
theorem expandLine_halts (env : Environment) (limit : Nat) (loc : Location) (line : Text) :
    ∃ n ≤ limit, ∃ out, Replaces env n line out ∧
      Halts env limit loc (limit - n) out (expandLine env limit loc line) :=
  expandWithin_halts env limit loc limit line

/-- An expanded line has no token any more and comes out of replacements within the bound. -/
theorem replaces_of_expandLine {env : Environment} {limit : Nat} {loc : Location} {line out : Text}
    (h : expandLine env limit loc line = .ok out) :
    lastToken out = .absent ∧ ∃ n ≤ limit, Replaces env n line out := by
  obtain ⟨n, hn, last, hr, hh⟩ := expandLine_halts env limit loc line
  rw [h, Halts] at hh
  split at hh
  · next habsent =>
    cases hh
    exact ⟨habsent, n, hn, hr⟩
  · cases hh
  · rcases hh with ⟨_, hh⟩ | ⟨_, _, hh⟩ <;> cases hh

/-! ## Lines that open loops

  An empty loop is skipped by its lines as they stand in the file, a loop that is run by its lines
  as they are expanded.  A header is a header in both. -/

/-- No token starts within the `#for` of a line that opens a loop, nor at the white space after
    it. -/
theorem isHeader_replaced {before name after text : Text}
    (h : LoopHeader.isHeader (before ++ '#' :: '{' :: (name ++ '}' :: after)) = true) :
    LoopHeader.isHeader (before ++ text ++ after) = true := by
  obtain ⟨c, rest, hline, hc⟩ := LoopHeader.isHeader_iff.1 h
  -- The token starts behind so many characters of the line, and the first five are given.
  match before, hline with
  | [], hline => simp at hline
  | [_], hline => simp at hline
  | [_, _], hline => simp at hline
  | [_, _, _], hline => simp at hline
  | [_, _, _, _], hline =>
    simp only [List.cons_append, List.nil_append, List.cons.injEq] at hline
    obtain ⟨_, _, _, _, rfl, _⟩ := hline
    exact absurd hc (by decide)
  | a :: b :: d :: e :: f :: before, hline =>
    simp only [List.cons_append, List.cons.injEq] at hline
    obtain ⟨rfl, rfl, rfl, rfl, rfl, _⟩ := hline
    exact LoopHeader.isHeader_iff.2 ⟨_, _, rfl, hc⟩

/-- A line that opens a loop still does when it is expanded. -/
theorem isHeader_of_expandLine {env : Environment} {limit : Nat} {loc : Location} {line out : Text}
    (h : expandLine env limit loc line = .ok out) (hl : LoopHeader.isHeader line = true) :
    LoopHeader.isHeader out = true := by
  obtain ⟨_, n, _, hr⟩ := replaces_of_expandLine h
  exact hr.keeps (P := fun line => LoopHeader.isHeader line = true)
    (fun _ _ _ _ hb _ => isHeader_replaced hb) hl

end Substitution
end ShaderWeave
