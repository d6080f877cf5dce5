/-
  Files as trees of loops.

  The lines of a file are brackets and plain lines: a line *opens* a loop or *closes* one by what
  stands in the file, before any token is replaced.  A `Body` is a sequence of lines in which every
  opening line is matched by a closing one; the constructors hold the proofs, so a body that is not
  matched cannot be built.

  `ofLines?` reads a file as a body.  It goes through the lines from the last to the first and
  keeps, beside the body read so far, the bodies that lie behind closing lines still to be matched;
  so it is structural, and it is exact: `ofLines?_eq_some_iff` says that it finds a body just where
  the lines are those of one.

  Where lines are not those of a body, they run into one of two obstacles from the left
  (`body_or_unmatched`): after a body comes a line that closes a loop which was not opened, or the
  lines end inside loops which are not closed (`Unclosed`).
-/
import ShaderWeave.Proofs.Expansion

namespace ShaderWeave

/-- Whether a line of a file opens a loop. -/
def Text.opens (raw : Text) : Bool := LoopHeader.isHeader raw.content

/-- Whether a line of a file closes a loop. -/
def Text.closes (raw : Text) : Bool := LoopHeader.isEnd raw.content

/-- No line opens a loop and closes one. -/
theorem Text.closes_eq_false_of_opens {raw : Text} (h : raw.opens = true) : raw.closes = false := by
  obtain ⟨c, rest, hraw, _⟩ := LoopHeader.isHeader_iff.1 h
  rw [Text.closes, hraw]
  rfl

/-- Lines in which every line that opens a loop is matched by one that closes it. -/
inductive Body where
  | done
  /-- A line that neither opens nor closes a loop, and what follows. -/
  | line (raw : Text) (plain : raw.opens = false ∧ raw.closes = false) (rest : Body)
  /-- A loop, from its header to the line that closes it, and what follows. -/
  | loop (header : Text) (opens : header.opens = true) (body : Body) (close : Text)
      (closes : close.closes = true) (rest : Body)

namespace Body

/-- The lines of a body. -/
def lines : Body → List Text
  | done => []
  | line raw _ rest => raw :: rest.lines
  | loop header _ body close _ rest => header :: (body.lines ++ close :: rest.lines)

/-- The number of lines. -/
def size (b : Body) : Nat := b.lines.length

/-! A line counts once, and a loop with both its brackets. -/

theorem size_line (raw : Text) (h : raw.opens = false ∧ raw.closes = false) (rest : Body) :
    (line raw h rest).size = 1 + rest.size := by
  rw [size, lines, List.length_cons, Nat.add_comm, size]

theorem size_loop (header : Text) (ho : header.opens = true) (body : Body) (close : Text)
    (hc : close.closes = true) (rest : Body) :
    (loop header ho body close hc rest).size = 1 + body.size + 1 + rest.size := by
  simp only [size, lines, List.length_cons, List.length_append]
  omega

/-- One body after the other. -/
def append : Body → Body → Body
  | done, b => b
  | line raw h rest, b => line raw h (rest.append b)
  | loop header ho body close hc rest, b => loop header ho body close hc (rest.append b)

/-- An empty body behind another adds nothing. -/
theorem append_done (b : Body) : b.append done = b := by
  induction b with
  | done => rfl
  | line raw h rest ih => rw [append, ih]
  | loop header ho body close hc rest _ ih => rw [append, ih]

/-- The lines of two bodies are those of one and of the other. -/
theorem lines_append (a b : Body) : (a.append b).lines = a.lines ++ b.lines := by
  induction a with
  | done => rfl
  | line raw h rest ih => rw [append, lines, lines, ih, List.cons_append]
  | loop header ho body close hc rest _ ih =>
    rw [append, lines, lines, ih]
    simp only [List.cons_append, List.append_assoc]

/-! ## Reading

  Reading from the last line to the first has the advantage that when a header is met, what it
  encloses has been read: the body up to the first closing line that is pending, and behind this
  line the rest. -/

/-- The lines that close a loop opened further in front, each with the body behind it. -/
abbrev Pending := List ({ close : Text // close.closes = true } × Body)

/-- Reads lines, last to first: the body in front of the first closing line that is not matched, and
    what is pending.  Nothing is read where a line opens a loop that no line closes. -/
def scan : List Text → Option (Body × Pending)
  | [] => some (done, [])
  | raw :: lines =>
    match scan lines with
    | none => none
    | some (b, pending) =>
      if hc : raw.closes = true then some (done, (⟨raw, hc⟩, b) :: pending)
      else if ho : raw.opens = true then
        match pending with
        | [] => none
        | (close, rest) :: pending => some (loop raw ho b close.1 close.2 rest, pending)
      else some (line raw ⟨Bool.eq_false_iff.2 ho, Bool.eq_false_iff.2 hc⟩ b, pending)

/-- The body that lines are. -/
def ofLines? (lines : List Text) : Option Body :=
  match scan lines with
  | some (b, []) => some b
  | _ => none

/-- The lines that are pending. -/
def Pending.lines (pending : Pending) : List Text := pending.flatMap fun e => e.1.1 :: e.2.lines

/-- Nothing is lost: what was read and what is pending are the lines that were there. -/
theorem lines_of_scan {lines : List Text} {b : Body} {pending : Pending}
    (h : scan lines = some (b, pending)) : lines = b.lines ++ Pending.lines pending := by
  induction lines generalizing b pending with
  | nil => cases h; rfl
  | cons raw lines ih =>
    rw [scan] at h
    split at h
    · cases h
    · next b' pending' hs =>
      have hlines := ih hs
      split at h
      · cases h
        rw [hlines]
        rfl
      · split at h
        · split at h
          · cases h
          · -- A header takes the first pending end, and what stands between becomes its body.
            next close rest pending =>
            cases h
            rw [hlines]
            simp only [Body.lines, Pending.lines, List.flatMap_cons, List.cons_append,
              List.append_assoc]
        · cases h
          rw [hlines]
          rfl

/-- The lines of a body are read as this body, whatever comes after them. -/
theorem scan_append (b : Body) {lines : List Text} {b' : Body} {pending : Pending}
    (h : scan lines = some (b', pending)) :
    scan (b.lines ++ lines) = some (b.append b', pending) := by
  induction b generalizing lines b' pending with
  | done => exact h
  | line raw hp rest ih =>
    rw [Body.lines, List.cons_append, scan, ih h]
    simp [hp.1, hp.2, append]
  | loop header ho body close hc rest ihb ihr =>
    have hrest := ihr h
    -- Behind the body of the loop, the closing line is pending, with the rest behind it.
    have hclose : scan (close :: (rest.lines ++ lines)) =
        some (done, (⟨close, hc⟩, rest.append b') :: pending) := by
      rw [scan, hrest]
      simp [hc]
    have hbody := ihb hclose
    rw [append_done] at hbody
    rw [Body.lines, List.cons_append, List.append_assoc, List.cons_append, scan, hbody]
    simp [Text.closes_eq_false_of_opens ho, ho, append]

/-- **Reading lines finds the body they are the lines of**, and no other. -/
theorem ofLines?_eq_some_iff {lines : List Text} {b : Body} :
    ofLines? lines = some b ↔ lines = b.lines := by
  constructor
  · intro h
    unfold ofLines? at h
    split at h
    · next hs =>
      cases h
      rw [lines_of_scan hs]
      simp [Pending.lines]
    · cases h
  · rintro rfl
    have hs : scan (b.lines ++ []) = some (b.append done, []) := scan_append b rfl
    rw [List.append_nil, append_done] at hs
    rw [ofLines?, hs]

/-! ## Lines that are not matched

  A pass reads from the left, so for lines that are no body it matters what it meets first.  In each
  of the two cases everything before the obstacle is a body, which the pass can be followed
  through. -/

/-- Lines that end inside loops. -/
inductive Unclosed : List Text → Prop where
  | last (b : Body) {header : Text} (ho : header.opens = true) (b' : Body) :
      Unclosed (b.lines ++ header :: b'.lines)
  | more (b : Body) {header : Text} (ho : header.opens = true) {lines : List Text}
      (h : Unclosed lines) : Unclosed (b.lines ++ header :: lines)

/-- A body in front of unclosed lines. -/
theorem Unclosed.append (a : Body) {lines : List Text} (h : Unclosed lines) :
    Unclosed (a.lines ++ lines) := by
  cases h with
  | last b ho b' =>
    rw [← List.append_assoc, ← lines_append]
    exact .last _ ho b'
  | more b ho h =>
    rw [← List.append_assoc, ← lines_append]
    exact .more _ ho h

/-- Lines are a body, or they come to a closing line that is not matched, or they end inside
    loops. -/
theorem body_or_unmatched (lines : List Text) :
    (∃ b : Body, lines = b.lines) ∨
      (∃ (b : Body) (close : Text) (more : List Text), close.closes = true ∧
        lines = b.lines ++ close :: more) ∨
      Unclosed lines := by
  -- Where a loop is closed the lines behind it are looked at again, so the induction is on their
  -- number.
  induction hn : lines.length using Nat.strongRecOn generalizing lines with
  | ind n ih =>
    -- A body in front of shorter lines changes nothing.
    have behind : ∀ (a : Body) (rest : List Text), rest.length < n → lines = a.lines ++ rest →
        (∃ b : Body, lines = b.lines) ∨
          (∃ (b : Body) (close : Text) (more : List Text),
            close.closes = true ∧ lines = b.lines ++ close :: more) ∨ Unclosed lines := by
      rintro a rest hrest rfl
      rcases ih rest.length hrest rest rfl with ⟨b, rfl⟩ | ⟨b, close, more, hc, rfl⟩ | h
      · exact .inl ⟨a.append b, (lines_append a b).symm⟩
      · exact .inr (.inl ⟨a.append b, close, more, hc, by rw [lines_append, List.append_assoc]⟩)
      · exact .inr (.inr (h.append a))
    cases lines with
    | nil => exact .inl ⟨done, rfl⟩
    | cons raw rest =>
      rw [List.length_cons] at hn
      by_cases hc : raw.closes = true
      · exact .inr (.inl ⟨done, raw, rest, hc, rfl⟩)
      · by_cases ho : raw.opens = true
        · rcases ih rest.length (by omega) rest rfl with ⟨b, rfl⟩ | ⟨b, close, more, hc', rfl⟩ | h
          · exact .inr (.inr (.last done ho b))
          · refine behind (loop raw ho b close hc' done) more ?_ ?_
            · rw [List.length_append, List.length_cons] at hn
              omega
            · simp [Body.lines]
          · exact .inr (.inr (.more done ho h))
        · refine behind (line raw ⟨Bool.eq_false_iff.2 ho, Bool.eq_false_iff.2 hc⟩ done) rest
            (by omega) ?_
          simp [Body.lines]

end Body
end ShaderWeave
