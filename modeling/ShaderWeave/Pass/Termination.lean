/-
  Every pass ends.

  What a step does to the files and loops of a pass is one of six moves on a stack of *blocks*, one
  block for each open file: its path, the number of its unread lines, and for each of its open loops
  the number of lines after the header and of keys to come.

  Reading goes on in one file only finitely long: inside a loop over `b` lines a file's unread lines
  stay within `b`, a loop opened there has fewer, going back uses up a key, and closing the loop
  leaves fewer than `b` lines (`acc_loop`, by induction on `b`, then on the keys, then on the unread
  lines).  Files nest only finitely deep, because a file is entered only while it is not open: each
  entry uses up one file of the source (`fresh_cons_lt`).  `acc_start` puts both together.
-/
import ShaderWeave.Pass

namespace ShaderWeave.Pass

/-! ## Blocks

  The measure forgets all that a step does not count down: of a file it keeps the lines that are
  unread, of a loop the lines behind its header and the keys that are left, and of the source the
  files that are not open. -/

/-- An open file: its unread lines, and the body's lines and the keys of each of its loops. -/
structure Block where
  path : Path
  unread : Nat
  loops : List (Nat × Nat)

/-- The lines after the header and the keys of a loop. -/
def shape (l : Loop) : Nat × Nat := (l.body.length, l.keys.length)

/-- The blocks of open files and loops. -/
def blocks : List OpenFile → List Loop → List Block
  | [], _ => []
  | f :: outer, loops =>
    ⟨f.path, f.unread.length, (loops.takeWhile (·.depth == outer.length)).map shape⟩ ::
      blocks outer (loops.dropWhile (·.depth == outer.length))

/-- How many files of a source are not open. -/
def fresh (files : List (Path × Content)) (opened : List Path) : Nat :=
  files.countP fun f => !opened.any (·.same f.1)

/-- What one step does to the blocks. -/
inductive Moves (files : List (Path × Content)) : List Block → List Block → Prop where
  /-- A line is read. -/
  | advance {p n ls bs} : Moves files (⟨p, n + 1, ls⟩ :: bs) (⟨p, n, ls⟩ :: bs)
  /-- A line is read, and a file entered of which fewer are left. -/
  | enter {p n ls bs} (q : Path) (m : Nat) :
      fresh files (q :: p :: bs.map Block.path) < fresh files (p :: bs.map Block.path) →
      Moves files (⟨p, n + 1, ls⟩ :: bs) (⟨q, m, []⟩ :: ⟨p, n, ls⟩ :: bs)
  /-- The innermost file is left. -/
  | leave {b bs} : Moves files (b :: bs) bs
  /-- A loop is opened over the lines that are left. -/
  | opens {p n ls bs} (k : Nat) : Moves files (⟨p, n + 1, ls⟩ :: bs) (⟨p, n, (n, k) :: ls⟩ :: bs)
  /-- The lines of the innermost loop come again, for one key less. -/
  | again {p n b k ls bs} :
      Moves files (⟨p, n + 1, (b, k + 1) :: ls⟩ :: bs) (⟨p, b, (b, k) :: ls⟩ :: bs)
  /-- The innermost loop is closed. -/
  | close {p n b k ls bs} : Moves files (⟨p, n + 1, (b, k) :: ls⟩ :: bs) (⟨p, n, ls⟩ :: bs)

/-- The moves, from the result to what it comes from. -/
abbrev Before (files : List (Path × Content)) (b a : List Block) : Prop := Moves files a b

/-! ## Moves come to an end

  A move may put a block on top if fewer files are left to open, and may give a file more lines to
  read if the loop that they come from has a key less.  No single number goes down with every move,
  so accessibility is proved from the outside in, file by file and loop by loop. -/

section Accessibility

variable {files : List (Path × Content)}

/-- Reading ends inside a loop over `b` lines, if it ends after it and files entered from here
    end.  Three inductions, one inside the other: going back to the first line is paid for by a key,
    and opening a loop inside this one by a line, as the inner loop is over fewer lines. -/
theorem acc_loop {p : Path} {bs : List Block} (hbs : Acc (Before files) bs)
    (entered : ∀ q m n ls,
      fresh files (q :: p :: bs.map Block.path) < fresh files (p :: bs.map Block.path) →
      Acc (Before files) (⟨p, n, ls⟩ :: bs) →
      Acc (Before files) (⟨q, m, []⟩ :: ⟨p, n, ls⟩ :: bs)) :
    ∀ b ls, (∀ n, n < b → Acc (Before files) (⟨p, n, ls⟩ :: bs)) →
      ∀ k n, n ≤ b → Acc (Before files) (⟨p, n, (b, k) :: ls⟩ :: bs) := by
  intro b
  induction b using Nat.strongRecOn with
  | ind b ihb =>
    intro ls outside k
    induction k using Nat.strongRecOn with
    | ind k ihk =>
      intro n
      induction n using Nat.strongRecOn with
      | ind n ihn =>
        intro hn
        refine Acc.intro _ fun y hy => ?_
        cases hy with
        | advance => exact ihn _ (Nat.lt_succ_self _) (by omega)
        | enter q m hq => exact entered q m _ _ hq (ihn _ (Nat.lt_succ_self _) (by omega))
        | leave => exact hbs
        | opens k' =>
          exact ihb _ (by omega) _ (fun i hi => ihn i (by omega) (by omega)) k' _ (Nat.le_refl _)
        | again => exact ihk _ (Nat.lt_succ_self _) b (Nat.le_refl _)
        | close => exact outside _ (by omega)

/-- Reading a file that was just entered ends, if it ends after the file.  The induction is on the
    files left to enter, and then on the unread lines; no loop of the file is open, so it cannot go
    back before it has opened one. -/
theorem acc_entered :
    ∀ k p (bs : List Block), fresh files (p :: bs.map Block.path) = k → Acc (Before files) bs →
      ∀ n, Acc (Before files) (⟨p, n, []⟩ :: bs) := by
  intro k
  induction k using Nat.strongRecOn with
  | ind k ih =>
    intro p bs hk hbs n
    -- A file entered from here has fewer files left to enter.
    have entered : ∀ q m n ls,
        fresh files (q :: p :: bs.map Block.path) < fresh files (p :: bs.map Block.path) →
        Acc (Before files) (⟨p, n, ls⟩ :: bs) →
        Acc (Before files) (⟨q, m, []⟩ :: ⟨p, n, ls⟩ :: bs) :=
      fun q m n ls hq hacc => ih _ (hk ▸ hq) q (⟨p, n, ls⟩ :: bs) rfl hacc m
    induction n using Nat.strongRecOn with
    | ind n ihn =>
      refine Acc.intro _ fun y hy => ?_
      cases hy with
      | advance => exact ihn _ (Nat.lt_succ_self _)
      | enter q m hq => exact entered q m _ _ hq (ihn _ (Nat.lt_succ_self _))
      | leave => exact hbs
      | opens k' =>
        exact acc_loop hbs entered _ _ (fun i hi => ihn i (by omega)) k' _ (Nat.le_refl _)

/-- Entering a file of the source that is not open leaves fewer to enter. -/
theorem fresh_cons_lt {q : Path} {opened : List Path} (hq : ∃ f ∈ files, f.1.same q = true)
    (hn : opened.any (·.same q) = false) : fresh files (q :: opened) < fresh files opened := by
  induction files with
  | nil =>
    obtain ⟨f, hf, _⟩ := hq
    cases hf
  | cons f files ih =>
    have mono : fresh files (q :: opened) ≤ fresh files opened :=
      List.countP_mono_left fun x _ hx => by
        simp only [List.any_cons, Bool.not_or, Bool.and_eq_true] at hx
        exact hx.2
    by_cases hf : f.1.same q = true
    · -- This is the file: it counts before, and no more.
      have closed : opened.any (·.same f.1) = false := by
        rw [List.any_eq_false] at hn ⊢
        exact fun x hx h => hn x hx (Path.same_trans h hf)
      simp only [fresh, List.countP_cons, List.any_cons, Path.same_symm hf, closed] at *
      simp only [Bool.true_or, Bool.not_true, Bool.not_false, if_true, Bool.false_eq_true, if_false]
      omega
    · -- Another file counts as it did, and `q` is among the rest.
      obtain ⟨g, hg, hgq⟩ := hq
      have hg' : g ∈ files := by
        rcases List.mem_cons.1 hg with rfl | h
        · exact absurd hgq hf
        · exact h
      have lt := ih ⟨g, hg', hgq⟩
      have hqf : q.same f.1 = false := by
        cases h : q.same f.1 with
        | false => rfl
        | true => exact absurd (Path.same_symm h) hf
      simp only [fresh, List.countP_cons, List.any_cons, hqf, Bool.false_or] at *
      omega

end Accessibility

/-! ## A step is a move

    One lemma for each function of the step.  That loops nest in files is kept along the way: it is
    what makes the loops of the innermost file the first ones. -/

/-- Loops belong to open files, inner loops to inner files. -/
structure Nested (p : Pass) : Prop where
  depth_lt : ∀ l ∈ p.loops, l.depth < p.files.length
  ordered : p.loops.Pairwise fun a b => b.depth ≤ a.depth

/-- The blocks of a pass. -/
def skeleton (p : Pass) : List Block := blocks p.files p.loops

@[simp] theorem files_emit (p : Pass) (piece : Piece) : (p.emit piece).files = p.files := rfl
@[simp] theorem loops_emit (p : Pass) (piece : Piece) : (p.emit piece).loops = p.loops := rfl

@[simp] theorem files_mark (job : Job) (p : Pass) : (mark job p).files = p.files := by
  unfold mark
  split <;> simp_all

@[simp] theorem loops_mark (job : Job) (p : Pass) : (mark job p).loops = p.loops := by
  unfold mark
  split <;> simp_all

@[simp] theorem fail_ne_next (p : Pass) (e : Error) (q : Pass) : (p.fail e = .next q) = False := by
  simp [fail]

@[simp] theorem reject_ne_next (p : Pass) (f : Fault) (q : Pass) :
    (p.reject f = .next q) = False := by
  simp [reject]

/-- The step that read a line of `file` led to `q`: it was a move, and loops nest in files as
    before. -/
structure Reads (job : Job) (p : Pass) (file : OpenFile) (outer : List OpenFile) (q : Pass) :
    Prop where
  moves : Moves job.source.files
    (⟨file.path, file.unread.length + 1, (p.loops.takeWhile (·.depth == outer.length)).map shape⟩ ::
      blocks outer (p.loops.dropWhile (·.depth == outer.length))) (skeleton q)
  nested : Nested q

variable {job : Job} {p q : Pass} {file : OpenFile} {outer : List OpenFile}

/-- A step that opens, closes and repeats nothing. -/
theorem Reads.advance (hp : Nested p) (hf : p.files = file :: outer) (hq : q.files = p.files)
    (hl : q.loops = p.loops) : Reads job p file outer q where
  moves := by simp only [skeleton, hq, hl, hf, blocks]; exact .advance
  nested := ⟨by rw [hq, hl]; exact hp.depth_lt, by rw [hl]; exact hp.ordered⟩

/-- The paths of the blocks are those of the files. -/
theorem map_path_blocks (files : List OpenFile) :
    ∀ loops, (blocks files loops).map Block.path = files.map OpenFile.path := by
  induction files with
  | nil => intro loops; rfl
  | cons f files ih => intro loops; simp [blocks, ih]

/-- The count of skipped headers does not show in the blocks. -/
theorem blocks_skipped (files : List OpenFile) (l : Loop) (n : Nat) (loops : List Loop) :
    blocks files ({ l with skipped := n } :: loops) = blocks files (l :: loops) := by
  induction files with
  | nil => rfl
  | cons f files ih =>
    simp only [blocks, List.takeWhile_cons, List.dropWhile_cons]
    cases l.depth == files.length with
    | true => rfl
    | false => simp only [Bool.false_eq_true, if_false, ih]

/-- A file that is entered is put on top; it was not open, and is one of the source. -/
theorem reads_of_enter {path : Path} {track : Bool} {margin : Text} (hp : Nested p)
    (hf : p.files = file :: outer) (h : enter job p path track margin = .next q) :
    Reads job p file outer q := by
  rw [enter_eq] at h
  split at h
  · simp at h
  · next content hfind =>
    split at h
    · simp at h
    · next hopen =>
      simp only at h
      split at h
      · cases h
      · next t =>
        have listed : ∃ f ∈ job.source.files, f.1.same path = true :=
          Source.listed_of_find?_eq_text hfind
        rw [hf] at h
        simp only [Step.next.injEq] at h
        subst h
        -- No loop is of the new file.
        have head : ∀ l ∈ p.loops, (l.depth == (file :: outer).length) = false := fun l hl => by
          have := hp.depth_lt l hl
          rw [hf] at this
          simp only [List.length_cons] at this ⊢
          simp only [beq_eq_false_iff_ne]
          omega
        have take : p.loops.takeWhile (·.depth == (file :: outer).length) = [] := by
          cases hl : p.loops with
          | nil => rfl
          | cons l ls =>
            simp only [List.takeWhile_cons, head l (by simp [hl]), Bool.false_eq_true, if_false]
        have drop : p.loops.dropWhile (·.depth == (file :: outer).length) = p.loops := by
          cases hl : p.loops with
          | nil => rfl
          | cons l ls =>
            simp only [List.dropWhile_cons, head l (by simp [hl]), Bool.false_eq_true, if_false]
        constructor
        · simp only [skeleton, files_mark, loops_mark]
          rw [blocks, take, drop, blocks]
          refine .enter _ _ ?_
          rw [map_path_blocks, ← List.map_cons, ← hf]
          apply fresh_cons_lt listed
          rw [List.any_map]
          simpa using hopen
        · constructor
          · intro l hl
            simp only [loops_mark, files_mark] at hl ⊢
            have := hp.depth_lt l hl
            rw [hf] at this
            simp only [List.length_cons] at this ⊢
            omega
          · simp only [loops_mark]
            exact hp.ordered

/-- A loop is opened over the lines after its header. -/
theorem reads_of_openLoop {header : LoopHeader} {collection : Text} (hp : Nested p)
    (hf : p.files = file :: outer) (h : openLoop job p file outer header collection = .next q) :
    Reads job p file outer q := by
  have deep : ∀ l ∈ p.loops, l.depth ≤ outer.length := fun l hl => by
    have := hp.depth_lt l hl
    rw [hf] at this
    simp only [List.length_cons] at this
    omega
  -- The new loop has the depth of the innermost file, whatever its keys are.
  have opened : ∀ (loop : Loop), q.loops = loop :: p.loops → loop.depth = outer.length →
      loop.body = file.unread → q.files = p.files → Reads job p file outer q := by
    intro loop hql hd hb hqf
    constructor
    · simp only [skeleton, hqf, hql, hf, blocks, List.takeWhile_cons, List.dropWhile_cons, hd,
        BEq.rfl, if_true, List.map_cons]
      have : shape loop = (file.unread.length, loop.keys.length) := by simp [shape, hb]
      rw [this]
      exact .opens _
    · constructor
      · rw [hql, hqf, hf]
        intro l hl
        rcases List.mem_cons.1 hl with rfl | hl
        · simp [hd]
        · have := deep l hl
          simp only [List.length_cons]
          omega
      · rw [hql]
        exact List.pairwise_cons.2 ⟨fun l hl => by rw [hd]; exact deep l hl, hp.ordered⟩
  unfold openLoop at h
  simp only at h
  split at h
  · simp at h
  · split at h
    · simp at h
    · split at h
      · cases h
        exact opened _ rfl rfl rfl rfl
      · cases h
        exact opened _ rfl rfl rfl (by simp)

/-- Its range is gathered before, which no block shows. -/
theorem reads_of_startLoop {header : LoopHeader} (hp : Nested p) (hf : p.files = file :: outer)
    (h : startLoop job p file outer header = .next q) : Reads job p file outer q := by
  unfold startLoop at h
  split at h
  · exact reads_of_openLoop hp hf h
  · split at h
    · simp at h
    · next range _ =>
      have hp' :
          Nested
            { p with ranges := p.ranges.set range.name (.dictionary range.dictionary.entries) } :=
        ⟨hp.depth_lt, hp.ordered⟩
      have r := reads_of_openLoop hp' hf h
      exact ⟨r.moves, r.nested⟩

/-- At its end a loop goes back, for the next key, or it is closed. -/
theorem reads_of_endLoop (hp : Nested p) (hf : p.files = file :: outer)
    (h : endLoop job p file outer = .next q) : Reads job p file outer q := by
  unfold endLoop at h
  split at h
  · simp at h
  · next l loops hl =>
    split at h
    · simp at h
    · next hd =>
      have hd : l.depth = outer.length := by simpa using hd
      have ordered := hp.ordered
      rw [hl, List.pairwise_cons] at ordered
      split at h
      · simp at h
      · split at h
        · -- A key is left: the file is read from the body again.
          next key₀ key more hk =>
          cases h
          constructor
          · simp only [skeleton, files_mark, loops_mark, files_emit, loops_emit, blocks, hl,
              List.takeWhile_cons, List.dropWhile_cons, hd, BEq.rfl, if_true, List.map_cons, shape,
              hk, List.length_cons]
            exact .again
          · constructor
            · simp only [files_mark, loops_mark, files_emit, loops_emit]
              intro l' hl'
              have : l'.depth < p.files.length := by
                rcases List.mem_cons.1 hl' with rfl | h'
                · exact hp.depth_lt l (by simp [hl])
                · exact hp.depth_lt l' (by simp [hl, h'])
              simpa [hf] using this
            · simp only [loops_mark, loops_emit]
              exact List.pairwise_cons.2 ⟨ordered.1, ordered.2⟩
        · -- None is left: the loop goes, and with it its keys.
          cases h
          constructor
          · simp only [skeleton, files_mark, loops_mark, files_emit, loops_emit, hf, blocks, hl,
              List.takeWhile_cons, List.dropWhile_cons, hd, BEq.rfl, if_true, List.map_cons, shape]
            exact .close
          · constructor
            · simp only [files_mark, loops_mark, files_emit, loops_emit]
              exact fun l' hl' => hp.depth_lt l' (by simp [hl, hl'])
            · simpa using ordered.2

/-- Of all directives only includes and headers do more than read the line. -/
theorem reads_of_execute {margin line : Text} (hp : Nested p) (hf : p.files = file :: outer)
    (h : execute job p file outer margin line = .next q) : Reads job p file outer q := by
  unfold execute at h
  split at h
  · exact reads_of_endLoop hp hf h
  · split at h
    · simp at h
    · split at h
      · simp at h
      · next directive _ =>
        cases directive with
        | version =>
          simp only [perform] at h
          split at h
          · simp at h
          · cases h
            exact .advance hp hf rfl rfl
        | platform =>
          cases h
          exact .advance hp hf (by simp) (by simp)
        | inclusion i =>
          simp only [perform] at h
          split at h
          · simp at h
          · exact reads_of_enter hp hf h
        | loop header => exact reads_of_startLoop hp hf h
        | plain =>
          cases h
          exact .advance hp hf rfl rfl

/-- In an empty loop a line is read, or the loop is closed. -/
theorem reads_of_skip {l : Loop} {loops : List Loop} {line : Text} (hp : Nested p)
    (hf : p.files = file :: outer) (hl : p.loops = l :: loops)
    (h : skip job p file outer l loops line = .next q) : Reads job p file outer q := by
  have ordered := hp.ordered
  rw [hl, List.pairwise_cons] at ordered
  -- Only the count of skipped headers changes, and no block shows it.
  have counted : ∀ n, q = { p with loops := { l with skipped := n } :: loops } →
      Reads job p file outer q := by
    rintro n rfl
    constructor
    · simp only [skeleton, blocks_skipped]
      simp only [hf, hl, blocks]
      exact .advance
    · constructor
      · intro l' hl'
        rcases List.mem_cons.1 hl' with rfl | h'
        · exact hp.depth_lt l (by simp [hl])
        · exact hp.depth_lt l' (by simp [hl, h'])
      · exact List.pairwise_cons.2 ⟨ordered.1, ordered.2⟩
  unfold skip at h
  split at h
  · split at h
    · exact reads_of_endLoop hp hf h
    · cases h
      exact counted _ rfl
  · split at h
    · cases h
      exact counted _ rfl
    · cases h
      exact .advance hp hf rfl rfl

/-- One step is one move, and loops stay nested in files. -/
theorem moves_of_step (hp : Nested p) (h : step job p = .next q) :
    Moves job.source.files (skeleton p) (skeleton q) ∧ Nested q := by
  unfold step at h
  split at h
  · unfold finish at h
    split at h
    · simp at h
    · split at h
      · simp at h
      · cases h
  · next file outer hf =>
    split at h
    · -- No line is left: the file is left, and no loop was opened in it.
      unfold leave at h
      simp only at h
      split at h
      · next hl =>
        cases h
        refine ⟨?_, ⟨by simp [hl], by simp [hl]⟩⟩
        simp only [skeleton, files_mark, loops_mark, hf, hl, blocks]
        exact .leave
      · next l loops hl =>
        split at h
        · simp at h
        · next hd =>
          cases h
          have ordered := hp.ordered
          rw [hl, List.pairwise_cons] at ordered
          have shallow : (l.depth == outer.length) = false := by
            simp only [beq_eq_false_iff_ne]
            omega
          refine ⟨?_, ⟨?_, by simpa [hl] using ordered⟩⟩
          · simp only [skeleton, files_mark, loops_mark, hf, hl, blocks, List.takeWhile_cons,
              List.dropWhile_cons, shallow, Bool.false_eq_true, if_false]
            exact .leave
          · simp only [loops_mark, files_mark, hl]
            intro l' hl'
            rcases List.mem_cons.1 hl' with rfl | h'
            · omega
            · have := ordered.1 l' h'
              omega
    · next raw unread hu =>
      simp only at h
      -- The line is read, whatever it does: the file has one unread line less.
      have hp' : Nested { p with files := { file with line := file.line + 1, unread } :: outer } :=
        ⟨fun l hl => by simpa [hf] using hp.depth_lt l hl, hp.ordered⟩
      have read : ∀ r : Pass, Reads job
          { p with files := { file with line := file.line + 1, unread } :: outer }
          { file with line := file.line + 1, unread } outer r →
          Moves job.source.files (skeleton p) (skeleton r) ∧ Nested r := fun r hr => by
        refine ⟨?_, hr.nested⟩
        have := hr.moves
        simp only [skeleton] at this ⊢
        simpa [hf, blocks, hu] using this
      split at h
      · next l loops hl =>
        split at h
        · exact read _ (reads_of_skip hp' rfl hl h)
        · exact read _ (reads_of_execute hp' rfl h)
      · exact read _ (reads_of_execute hp' rfl h)

/-! ## Passes end

  A step is a move of blocks, and moves come to an end; so do passes, from wherever they start. -/

/-- `q` comes right after `p`. -/
def Next (job : Job) (q p : Pass) : Prop := step job p = .next q

/-- A pass ends from any state whose moves do: every step is a move of its blocks. -/
theorem acc_of_skeleton {bs : List Block} (h : Acc (Before job.source.files) bs) :
    ∀ p, skeleton p = bs → Nested p → Acc (Next job) p := by
  induction h with
  | intro bs _ ih =>
    intro p hs hp
    refine Acc.intro p fun q hq => ?_
    obtain ⟨hm, hn⟩ := moves_of_step hp hq
    exact ih (skeleton q) (hs ▸ hm) q rfl hn

/-- A pass ends after its first step, which enters the root: no other file is open, and no loop. -/
theorem acc_start {registry : Registry} (h : start job registry = .next p) : Acc (Next job) p := by
  rw [start, initial, enter_eq] at h
  split at h
  · simp at h
  · split at h
    · simp at h
    · simp only at h
      split at h
      · cases h
      · cases h
        refine acc_of_skeleton (acc_entered _ job.root [] rfl ?_ _) _ rfl ⟨by simp, by simp⟩
        exact Acc.intro _ fun y hy => by cases hy

end ShaderWeave.Pass
