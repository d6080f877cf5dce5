/-
  Skipping a loop and running it come to the same end.

  A loop over an empty dictionary is not run.  The lines behind its header are passed over, and
  those that open and close loops as they stand in the file are counted, up to the line that closes
  the loop.  A loop that is run finds its end by other means: it keeps the loops inside it on a
  stack, goes back over lines it has read, leaves its file for others and comes back, and takes for
  headers the lines that are headers once their tokens are replaced.

    * `Nests lines k n` is the count: `n` loops are open behind the first `k` lines.
    * The crux is `Follows`: wherever the run of a loop is, the loops of the same file that are open
      inside it, with those that they skip, are as many as the count says for the line its file was
      read up to.  What happens in other files does not matter (`Follows.away`), and each line of
      the loop's own file that is read keeps the two in step (`Follows.here`), as long as no line is
      made a header by its tokens.
    * So the line that closes the loop is the first one that closes a loop where the count is at
      zero, and this is where a loop that is skipped ends (`getsThrough_skipping`).
-/
import Mathlib.Algebra.GroupWithZero.Nat
import ShaderWeave.Proofs.LoopRuns
import ShaderWeave.Proofs.Replay

namespace ShaderWeave

/-- The file of a loop, `k` lines behind the loop's header. -/
def Loop.fileAt (l : Loop) (file : OpenFile) (k : Nat) : OpenFile :=
  { file with line := l.header + k, unread := l.body.drop k }

namespace Pass

/-! ## Counting lines

  The count is a relation between a number of lines and a number of loops, and it exists only where
  no loop is closed that was not opened; so the place where a loop ends is the first one where the
  count cannot go on. -/

/-- How the line `raw` changes the number of open loops. -/
inductive Counts (raw : Text) : Nat → Nat → Prop where
  | opens {n} (h : raw.opens = true) : Counts raw n (n + 1)
  | closes {n} (h : raw.closes = true) : Counts raw (n + 1) n
  | plain {n} (ho : raw.opens = false) (hc : raw.closes = false) : Counts raw n n

/-- Loops further out do not change how a line counts. -/
theorem Counts.add {raw : Text} {m n : Nat} (h : Counts raw m n) (c : Nat) :
    Counts raw (m + c) (n + c) := by
  cases h with
  | opens h =>
    rw [Nat.add_right_comm]
    exact .opens h
  | closes h =>
    rw [Nat.add_right_comm]
    exact .closes h
  | plain ho hc => exact .plain ho hc

/-- Behind the first `k` lines `n` loops are open, and no loop was closed that the lines did not
    open. -/
inductive Nests (lines : List Text) : Nat → Nat → Prop where
  | zero : Nests lines 0 0
  | line {k m n raw rest} (h : Nests lines k m) (hd : lines.drop k = raw :: rest)
      (hc : Counts raw m n) : Nests lines (k + 1) n

/-- Where there is a count, there is one for fewer lines. -/
theorem Nests.of_le {lines : List Text} {i k n : Nat} (h : Nests lines k n) (hi : i ≤ k) :
    ∃ m, Nests lines i m := by
  induction h with
  | zero => exact ⟨0, by rw [Nat.le_zero.1 hi]; exact .zero⟩
  | @line k m n _ _ h hd hc ih =>
    rcases Nat.lt_or_eq_of_le hi with hi | rfl
    · exact ih (Nat.le_of_lt_succ hi)
    · exact ⟨n, .line h hd hc⟩

/-- Reading a line leaves the others. -/
theorem drop_succ_of_drop {lines : List Text} {k : Nat} {raw : Text} {rest : List Text}
    (h : lines.drop k = raw :: rest) : lines.drop (k + 1) = rest := by
  rw [← List.drop_drop, h]
  rfl

/-- Reading the next line of a loop's file. -/
theorem advance_fileAt {l : Loop} {file : OpenFile} {k : Nat} {raw : Text} {rest : List Text}
    (h : l.body.drop k = raw :: rest) : (l.fileAt file k).advance rest = l.fileAt file (k + 1) := by
  unfold Loop.fileAt OpenFile.advance
  rw [drop_succ_of_drop h, Nat.add_assoc]

/-! ## Running a loop

  While a loop is run, three things move: the files entered from it, the loops opened inside it, and
  the line its own file was read up to.  `Follows` keeps them apart, so that a step in another file
  has to do with the first two only, and one in the loop's own file with the last two. -/

/-- How many loops `loops` are, with those that they skip. -/
def height (loops : List Loop) : Nat := (loops.map fun l => l.skipped + 1).sum

/-- `inner` are loops of the file of `l`, opened one inside the other behind the header of `l`. -/
inductive Inside (l : Loop) : List Loop → Prop where
  | nil : Inside l []
  | cons {m inner k} (h : Inside l inner) (hd : m.depth = l.depth) (hh : m.header = l.header + k)
      (hb : m.body = l.body.drop k) (hn : Nests l.body k (height inner + 1))
      (hs : m.keys ≠ [] → m.skipped = 0) : Inside l (m :: inner)

/-- The innermost loop counts with those that it skips. -/
theorem height_cons (l : Loop) (loops : List Loop) :
    height (l :: loops) = l.skipped + (height loops + 1) := by
  simp only [height, List.map_cons, List.sum_cons]
  omega

/-- The innermost loop is of the file of `l`. -/
theorem Inside.depth_of_head {l m : Loop} {inner base loops : List Loop} {keys : List Text}
    (h : Inside l inner) (hl : inner ++ { l with keys } :: base = m :: loops) :
    m.depth = l.depth := by
  cases h with
  | nil => cases hl; rfl
  | cons _ hd => cases hl; exact hd

/-- The loop `l` of `file` is being run and the file was read up to `k` lines behind the header.
    The loops `inner` of the file are open inside it; the files `deeper` were entered from there,
    and the loops `above` are of these. -/
structure Follows (l : Loop) (base : List Loop) (file : OpenFile) (outer deeper : List OpenFile)
    (above inner : List Loop) (k : Nat) (r : Pass) : Prop where
  files : r.files = deeper ++ l.fileAt file k :: outer
  loops : ∃ keys, keys ≠ [] ∧ r.loops = above ++ (inner ++ { l with keys } :: base)
  deep : ∀ m ∈ above, l.depth < m.depth
  inside : Inside l inner
  count : Nests l.body k (height inner)

/-- A step changes the innermost file, or files inside it. -/
theorem files_of_transition {job : Job} {r r' : Pass} {f : OpenFile} {outer : List OpenFile}
    (h : Transition job r r') (hf : r.files = f :: outer) : ∃ files, r'.files = files ++ outer := by
  cases h with
  | leave hf' =>
    obtain ⟨rfl, rfl⟩ := List.cons.inj (hf.symm.trans hf')
    exact ⟨[], by simp⟩
  | @line _ _ _ unread _ hf' _ he =>
    obtain ⟨rfl, rfl⟩ := List.cons.inj (hf.symm.trans hf')
    cases he with
    | again => exact ⟨[_], rfl⟩
    | inclusion => exact ⟨[_, _], rfl⟩
    | _ => exact ⟨[_], rfl⟩

/-- A line of the loop's own file that opens a loop is a header as it stands. -/
theorem opens_of_makesHeader {job : Job} {r : Pass} {f : OpenFile} {outer : List OpenFile}
    {raw line : Text} {unread : List Text} {header : LoopHeader} (hm : makesHeader job r = false)
    (hf : r.files = f :: outer) (hu : f.unread = raw :: unread) (ha : r.Active)
    (hc : LoopHeader.isEnd raw.content = false) (he : Expands job r (f.advance unread) raw line)
    (hd : Directive.parse line = .ok (.loop header)) : raw.opens = true := by
  -- Otherwise its tokens have made it a header, which `makesHeader` would say.
  by_contra ho
  have ho : raw.opens = false := Bool.eq_false_iff.2 ho
  have hc : raw.closes = false := hc
  have running : r.loops.head?.any (·.keys.isEmpty) = false := by
    rw [Option.any_eq_false]
    intro l hl
    simpa using ha l hl
  obtain ⟨path, id, n, lines, indentation⟩ := f
  cases hu
  have he' : Substitution.expandLine (r.environment job) job.config.maxSubstitutions
      ⟨path.text, n + 1⟩ raw.content = .ok line := he
  simp only [makesHeader, hf, running, ho, hc, he', Directive.isHeader_of_parse hd] at hm
  cases hm

/-- A line that asks for anything but a loop is no header. -/
theorem opens_eq_false_of_parse {job : Job} {r : Pass} {file : OpenFile} {raw line : Text}
    {directive : Directive} (he : Expands job r file raw line)
    (hd : Directive.parse line = .ok directive) (hloop : ∀ header, directive ≠ .loop header) :
    raw.opens = false := by
  rw [Bool.eq_false_iff]
  intro ho
  have hh := Substitution.isHeader_of_expandLine he ho
  obtain ⟨header, rfl, _⟩ := Directive.exists_loop_of_parse hh hd
  exact hloop header rfl

/-- The loop is still being run. -/
def Proceeds (l : Loop) (base : List Loop) (file : OpenFile) (outer : List OpenFile) (r : Pass) :
    Prop :=
  ∃ deeper above inner k, Follows l base file outer deeper above inner k r

/-- The loop was closed by a line that closes a loop where the count is at zero, `k` lines behind
    the header. -/
def EndsAt (l : Loop) (base : List Loop) (file : OpenFile) (outer : List OpenFile) (k : Nat)
    (r : Pass) : Prop :=
  ∃ raw rest, l.body.drop k = raw :: rest ∧ raw.closes = true ∧ Nests l.body k 0 ∧
    r.files = l.fileAt file (k + 1) :: outer ∧ r.loops = base

namespace Follows

variable {job : Job} {l : Loop} {base : List Loop} {file : OpenFile} {outer deeper : List OpenFile}
  {above inner : List Loop} {k : Nat} {r r' : Pass} {raw : Text} {rest : List Text}

/-- **A step in another file** leaves the loop where it is. -/
theorem away (hr : Disciplined r) (hdepth : l.depth = outer.length) {f : OpenFile}
    (h : Follows l base file outer (f :: deeper) above inner k r) (ht : Transition job r r') :
    Proceeds l base file outer r' := by
  obtain ⟨keys, hkeys, hloops⟩ := h.loops
  have hf : r.files = f :: (deeper ++ l.fileAt file k :: outer) := h.files
  obtain ⟨files, hfiles⟩ := files_of_transition ht hf
  -- A loop that is opened, changed or closed is of the innermost file, so it is none of the loops
  -- below.
  have far : ∀ {m : Loop}, m.depth + 1 = r.files.length → l.depth < m.depth := by
    intro m hm
    rw [hf] at hm
    simp only [List.length_append, List.length_cons] at hm
    omega
  have near : ∀ {m : Loop} {rest : List Loop}, m.depth + 1 = r.files.length → r.loops = m :: rest →
      ∃ above', above = m :: above' ∧ rest = above' ++ (inner ++ { l with keys } :: base) := by
    intro m rest hm hl
    cases above with
    | cons m' above' =>
      obtain ⟨rfl, rfl⟩ := List.cons.inj (hl.symm.trans hloops)
      exact ⟨above', rfl, rfl⟩
    | nil =>
      have hlt := far hm
      have heq := h.inside.depth_of_head (hloops.symm.trans hl)
      omega
  have kept : ∀ above', (∀ m ∈ above', l.depth < m.depth) →
      r'.loops = above' ++ (inner ++ { l with keys } :: base) → Proceeds l base file outer r' := by
    intro above' hdeep hl
    refine ⟨files ++ deeper, above', inner, k, ?_, ⟨keys, hkeys, hl⟩, hdeep, h.inside, h.count⟩
    rw [hfiles, List.append_assoc]
  cases hr.changesInnermost ht with
  | kept hl => exact kept above h.deep (hl.trans hloops)
  | @opened m hm hl =>
    refine kept (m :: above) ?_ (by rw [hl, hloops]; rfl)
    exact List.forall_mem_cons.2 ⟨far hm, h.deep⟩
  | @advanced m rest keys' skipped hl hm hl' =>
    obtain ⟨above', rfl, rfl⟩ := near hm hl
    have hdeep := List.forall_mem_cons.1 h.deep
    exact kept ({ m with keys := keys', skipped } :: above') (List.forall_mem_cons.2 hdeep) hl'
  | closed hl hm hl' =>
    obtain ⟨above', rfl, rfl⟩ := near hm hl
    exact kept above' (List.forall_mem_cons.1 h.deep).2 hl'

/-- In the loop's own file no loop of another file is open. -/
theorem above_eq_nil (hr : Disciplined r) (hdepth : l.depth = outer.length)
    (h : Follows l base file outer [] above inner k r) : above = [] := by
  obtain ⟨keys, _, hloops⟩ := h.loops
  refine List.eq_nil_iff_forall_not_mem.2 fun m hm => ?_
  have hdeep := h.deep m hm
  have hle := hr.depth_le h.files m (by rw [hloops]; exact List.mem_append_left _ hm)
  omega

/-- The innermost loop is the loop itself or one inside it. -/
theorem innermost {m : Loop} {loops : List Loop} (h : Follows l base file outer [] [] inner k r)
    (hl : r.loops = m :: loops) :
    ∃ keys, keys ≠ [] ∧ ((inner = [] ∧ m = { l with keys } ∧ loops = base) ∨
      ∃ inner', inner = m :: inner' ∧ loops = inner' ++ { l with keys } :: base) := by
  obtain ⟨keys, hkeys, hloops⟩ := h.loops
  have hloops : m :: loops = inner ++ { l with keys } :: base := hl.symm.trans hloops
  refine ⟨keys, hkeys, ?_⟩
  rcases List.cons_eq_append_iff.1 hloops with ⟨hnone, hself⟩ | hinner
  · obtain ⟨hm, hbase⟩ := List.cons.inj hself
    exact .inl ⟨hnone, hm.symm, hbase.symm⟩
  · exact .inr hinner

/-- The next line of the loop's file is read. -/
theorem read {keys : List Text} {inner' : List Loop} (h : Follows l base file outer [] [] inner k r)
    (deeper : List OpenFile) (hd : l.body.drop k = raw :: rest)
    (hf : r'.files = deeper ++ (l.fileAt file k).advance rest :: outer) (hk : keys ≠ [])
    (hl : r'.loops = inner' ++ { l with keys } :: base) (hi : Inside l inner')
    (hc : Counts raw (height inner) (height inner')) : Proceeds l base file outer r' := by
  refine ⟨deeper, [], inner', k + 1, ?_, ⟨keys, hk, hl⟩, nofun, hi, .line h.count hd hc⟩
  rw [hf, advance_fileAt hd]

/-- A line that has nothing to do with loops. -/
theorem plain (h : Follows l base file outer [] [] inner k r) (deeper : List OpenFile)
    (hd : l.body.drop k = raw :: rest)
    (hf : r'.files = deeper ++ (l.fileAt file k).advance rest :: outer) (hl : r'.loops = r.loops)
    (ho : raw.opens = false) (hc : raw.closes = false) : Proceeds l base file outer r' := by
  obtain ⟨keys, hkeys, hloops⟩ := h.loops
  exact h.read deeper hd hf hkeys (hl.trans hloops) h.inside (.plain ho hc)

/-- A loop is opened inside. -/
theorem opened {m : Loop} (h : Follows l base file outer [] [] inner k r)
    (hd : l.body.drop k = raw :: rest) (hf : r'.files = (l.fileAt file k).advance rest :: outer)
    (hl : r'.loops = m :: r.loops) (hdepth : m.depth = l.depth) (hh : m.header = l.header + (k + 1))
    (hb : m.body = rest) (hs : m.skipped = 0) (ho : raw.opens = true) :
    Proceeds l base file outer r' := by
  obtain ⟨keys, hkeys, hloops⟩ := h.loops
  have hcount : Counts raw (height inner) (height (m :: inner)) := by
    rw [height_cons, hs, Nat.zero_add]
    exact .opens ho
  have hinside : Inside l (m :: inner) := by
    refine .cons h.inside hdepth hh ?_ (.line h.count hd (.opens ho)) fun _ => hs
    rw [drop_succ_of_drop hd, hb]
  exact h.read [] hd hf hkeys (by rw [hl, hloops]; rfl) hinside hcount

/-- A loop inside that is skipped counts the line. -/
theorem recounted {m : Loop} {loops : List Loop} {n : Nat}
    (h : Follows l base file outer [] [] inner k r) (hd : l.body.drop k = raw :: rest)
    (hf : r'.files = (l.fileAt file k).advance rest :: outer) (hl : r.loops = m :: loops)
    (hk : m.keys = []) (hl' : r'.loops = { m with skipped := n } :: loops)
    (hc : Counts raw m.skipped n) : Proceeds l base file outer r' := by
  obtain ⟨keys, hkeys, ⟨_, rfl, _⟩ | ⟨inner, rfl, rfl⟩⟩ := h.innermost hl
  · -- The loop itself is not skipped.
    exact absurd hk hkeys
  · cases h.inside with
    | cons hi hdepth hh hb hn _ =>
      have hinside : Inside l ({ m with skipped := n } :: inner) :=
        .cons hi hdepth hh hb hn (absurd hk)
      refine h.read [] hd hf hkeys hl' hinside ?_
      rw [height_cons, height_cons]
      exact hc.add _

/-- The innermost loop goes back to its header. -/
theorem rewound {m : Loop} {loops : List Loop} {keys' : List Text}
    (h : Follows l base file outer [] [] inner k r) (hl : r.loops = m :: loops) (hk : m.keys ≠ [])
    (hk' : keys' ≠ []) (hl' : r'.loops = { m with keys := keys' } :: loops)
    (hf : r'.files = { l.fileAt file (k + 1) with line := m.header, unread := m.body } :: outer) :
    Proceeds l base file outer r' := by
  obtain ⟨keys, hkeys, ⟨rfl, rfl, rfl⟩ | ⟨inner, rfl, rfl⟩⟩ := h.innermost hl
  · -- It is the loop itself, and the count starts anew.
    exact ⟨[], [], [], 0, hf, ⟨keys', hk', hl'⟩, nofun, .nil, .zero⟩
  · -- The count goes back to what it was behind the header.
    cases h.inside with
    | @cons _ _ i hi hdepth hh hb hn hs =>
      refine ⟨[], [], { m with keys := keys' } :: inner, i, ?_, ⟨keys, hkeys, hl'⟩, nofun, ?_, ?_⟩
      · rw [hf, hh, hb]
        rfl
      · exact .cons hi hdepth hh hb hn fun _ => hs hk
      · rw [height_cons]
        simp only [hs hk, Nat.zero_add]
        exact hn

/-- The innermost loop is closed; where that is the loop itself, the count is at zero. -/
theorem closed {m : Loop} {loops : List Loop} (h : Follows l base file outer [] [] inner k r)
    (hd : l.body.drop k = raw :: rest) (hf : r'.files = (l.fileAt file k).advance rest :: outer)
    (hl : r.loops = m :: loops) (hs : m.keys = [] → m.skipped = 0) (hl' : r'.loops = loops)
    (hc : raw.closes = true) : Proceeds l base file outer r' ∨ EndsAt l base file outer k r' := by
  obtain ⟨keys, hkeys, ⟨rfl, rfl, rfl⟩ | ⟨inner, rfl, rfl⟩⟩ := h.innermost hl
  · refine .inr ⟨raw, rest, hd, hc, h.count, ?_, hl'⟩
    rw [hf, advance_fileAt hd]
  · cases h.inside with
    | cons hi _ _ _ _ hs' =>
      have hskipped : m.skipped = 0 := by
        by_cases hk : m.keys = []
        · exact hs hk
        · exact hs' hk
      refine .inl (h.read [] hd hf hkeys hl' hi ?_)
      rw [height_cons, hskipped, Nat.zero_add]
      exact .closes hc

/-- **A step in the loop's own file** keeps the loops and the count together, or closes the loop. -/
theorem here (hdepth : l.depth = outer.length) (h : Follows l base file outer [] [] inner k r)
    (ht : Transition job r r') (hm : makesHeader job r = false) :
    Proceeds l base file outer r' ∨ EndsAt l base file outer k r' := by
  have hfiles : r.files = l.fileAt file k :: outer := h.files
  cases ht with
  | leave hf _ hopen =>
    -- The file is not left inside the loop.
    obtain ⟨rfl, rfl⟩ := List.cons.inj (hfiles.symm.trans hf)
    obtain ⟨keys, _, hloops⟩ := h.loops
    obtain ⟨m, loops, hl⟩ : ∃ m loops, r.loops = m :: loops := by
      rw [hloops]
      exact List.exists_cons_of_ne_nil (by simp)
    have hlt := hopen m (by rw [hl]; rfl)
    have heq := h.inside.depth_of_head (hloops.symm.trans hl)
    omega
  | @line f outer' raw rest _ hf hu he =>
    obtain ⟨rfl, rfl⟩ := List.cons.inj (hfiles.symm.trans hf)
    have hd : l.body.drop k = raw :: rest := hu
    cases he with
    | skip _ _ hc ho => exact .inl (h.plain [] hd rfl rfl ho hc)
    | deepen hl hk _ ho => exact .inl (h.recounted hd rfl hl hk rfl (.opens ho))
    | rise hl hk hc hn => exact .inl (h.recounted hd rfl hl hk rfl (by rw [hn]; exact .closes hc))
    | again hl hk =>
      refine .inl (h.rewound hl (by rw [hk]; simp) (List.cons_ne_nil _ _) rfl ?_)
      rw [advance_fileAt hd]
    | close hl hk hc =>
      refine h.closed hd rfl hl (fun hnone => ?_) rfl hc
      rcases hk with ⟨_, hs⟩ | ⟨key, hk⟩
      · exact hs
      · rw [hk] at hnone
        cases hnone
    | version _ hc he hp =>
      exact .inl (h.plain [] hd rfl rfl (opens_eq_false_of_parse he hp nofun) hc)
    | platform _ hc he hp =>
      exact .inl (h.plain [] hd rfl rfl (opens_eq_false_of_parse he hp nofun) hc)
    | inclusion _ hc he hp =>
      exact .inl (h.plain [_] hd rfl rfl (opens_eq_false_of_parse he hp nofun) hc)
    | openEmpty ha hc he hp =>
      have ho := opens_of_makesHeader hm hf hu ha hc he hp
      exact .inl (h.opened hd rfl rfl hdepth.symm rfl rfl rfl ho)
    | opens ha hc he hp _ _ _ _ hl =>
      subst hl
      have ho := opens_of_makesHeader hm hf hu ha hc he hp
      exact .inl (h.opened hd rfl rfl hdepth.symm rfl rfl rfl ho)
    | plain _ hc he hp =>
      exact .inl (h.plain [] hd rfl rfl (opens_eq_false_of_parse he hp nofun) hc)

end Follows

section Run

variable {job : Job} {l : Loop} {base : List Loop} {file : OpenFile} {outer : List OpenFile}
  {q r r' s : Pass} {n : Nat}

/-- A step of the run is one in the loop's own file, or one in another. -/
theorem Proceeds.step (hr : Disciplined r) (hdepth : l.depth = outer.length)
    (h : Proceeds l base file outer r) (ht : Transition job r r')
    (hm : r.files.length = outer.length + 1 → makesHeader job r = false) :
    Proceeds l base file outer r' ∨ ∃ k, EndsAt l base file outer k r' := by
  obtain ⟨deeper, above, inner, k, h⟩ := h
  cases deeper with
  | cons f deeper => exact .inl (h.away hr hdepth ht)
  | nil =>
    have habove := h.above_eq_nil hr hdepth
    subst habove
    have hone : r.files.length = outer.length + 1 := by
      rw [h.files]
      rfl
    exact (h.here hdepth ht (hm hone)).imp_right fun he => ⟨k, he⟩

/-- The loop is not closed while it is being run. -/
theorem Proceeds.lt_length (h : Proceeds l base file outer r) : base.length < r.loops.length := by
  obtain ⟨_, _, _, _, h⟩ := h
  obtain ⟨keys, _, hloops⟩ := h.loops
  rw [hloops]
  simp only [List.length_append, List.length_cons]
  omega

/-- **A loop that is run is closed where the count says.** -/
theorem GetsThrough.exists_endsAt (h : GetsThrough job q n s) (hq : Disciplined q)
    (hf : q.files = file :: outer) (hline : file.line = l.header) (hunread : file.unread = l.body)
    (hdepth : l.depth = outer.length) (hl : q.loops = l :: base) (hk : l.keys ≠ [])
    (hm : ∀ k < n, ∀ r, after job k (.next q) = .next r → r.files.length = q.files.length →
      makesHeader job r = false) :
    ∃ k, EndsAt l base file outer k s := by
  have hlength : q.files.length = outer.length + 1 := by
    rw [hf]
    rfl
  have height : q.loops.length = base.length + 1 := by
    rw [hl]
    rfl
  -- Up to the last step the loop is being run.
  have running : ∀ k < n, ∀ r, after job k (.next q) = .next r →
      Disciplined r ∧ Proceeds l base file outer r := by
    intro k
    induction k with
    | zero =>
      intro _ r hr
      cases hr
      refine ⟨hq, [], [], [], 0, ?_, ⟨l.keys, hk, hl⟩, nofun, .nil, .zero⟩
      rw [hf, Loop.fileAt, Nat.add_zero, List.drop_zero, ← hline, ← hunread]
      rfl
    | succ k ih =>
      intro hkn r' hr'
      obtain ⟨r, hr, ht⟩ := exists_transition_of_after hr'
      obtain ⟨hdisciplined, hproceeds⟩ := ih (by omega) r hr
      have hquiet := hm k (by omega) r hr
      rw [hlength] at hquiet
      refine ⟨hdisciplined.transition ht, ?_⟩
      rcases hproceeds.step hdisciplined hdepth ht hquiet with hp | ⟨_, _, _, _, _, _, _, hbase⟩
      · exact hp
      · have hstays := h.stays (k + 1) hkn r' hr'
        rw [height, hbase] at hstays
        omega
  have hclosed := h.closed
  -- The last step closes the loop: the loop cannot go on, since then it would be open.
  obtain ⟨k, r, _, _, rfl, hr, ht, _⟩ := h.exists_last hl
  obtain ⟨hdisciplined, hproceeds⟩ := running k (by omega) r hr
  have hquiet := hm k (by omega) r hr
  rw [hlength] at hquiet
  rcases hproceeds.step hdisciplined hdepth ht hquiet with hp | hend
  · have hlt := hp.lt_length
    omega
  · exact hend

end Run

/-! ## Skipping a loop

  Skipping looks at nothing but the lines of the loop as they stand, so it can be run in any state
  with the same file in front: another job, other names, other loops around. -/

section Skip

variable {l : Loop} {base : List Loop} {file : OpenFile} {outer : List OpenFile} {x s : Pass}
  {k n : Nat}

/-- The state `x` with `k` lines of the loop passed over. -/
def skipTo (x : Pass) (l : Loop) (base : List Loop) (file : OpenFile) (outer : List OpenFile)
    (k n : Nat) : Pass :=
  { x with files := l.fileAt file k :: outer, loops := { l with keys := [], skipped := n } :: base }

/-- **Skipping follows the count**, and does nothing else. -/
theorem after_skipping (hf : x.files = l.fileAt file 0 :: outer)
    (hl : x.loops = { l with keys := [], skipped := 0 } :: base) (h : Nests l.body k n)
    (job : Job) : after job k (.next x) = .next (skipTo x l base file outer k n) := by
  induction h with
  | zero =>
    unfold skipTo
    rw [after, ← hf, ← hl]
  | @line k m n raw rest h hd hc ih =>
    rw [after_add, ih, after, after]
    have hu : (l.fileAt file k).unread = raw :: rest := hd
    have hnext : skipTo x l base file outer (k + 1) n =
        { skipTo x l base file outer k m with
          files := (l.fileAt file k).advance rest :: outer
          loops := { l with keys := [], skipped := n } :: base } := by
      rw [advance_fileAt hd]
      rfl
    have hloops : (skipTo x l base file outer k m).loops =
        { l with keys := [], skipped := m } :: base := rfl
    refine step_of_effect rfl hu ?_
    rw [hnext]
    cases hc with
    | opens ho => exact .deepen hloops rfl (Text.closes_eq_false_of_opens ho) ho
    | closes hc => exact .rise hloops rfl hc rfl
    | plain ho hc => exact .skip hloops rfl hc ho

/-- A loop that is skipped is closed where the count says. -/
theorem getsThrough_skipping {aliases : AliasTable} (hf : x.files = l.fileAt file 0 :: outer)
    (hl : x.loops = { l with keys := [], skipped := 0 } :: base) (hdepth : l.depth = outer.length)
    (hp : x.aliases.pop? = some aliases) (h : EndsAt l base file outer k s) (job : Job) :
    GetsThrough job x (k + 1)
      { x with
        files := s.files, loops := s.loops, aliases
        output := marker job (l.fileAt file (k + 1)) :: .loopEnd l.collection :: x.output } := by
  obtain ⟨raw, rest, hd, hc, hn, hfiles, hloops⟩ := h
  refine ⟨?_, ?_, ?_⟩
  · rw [after_add, after_skipping hf hl hn, after, after]
    have hu : (l.fileAt file k).unread = raw :: rest := hd
    refine step_of_effect rfl hu ?_
    rw [hfiles, hloops, ← advance_fileAt hd]
    exact .close (l := { l with keys := [], skipped := 0 }) rfl (.inl ⟨rfl, rfl⟩) hc hdepth hp
  · intro i hi r hr
    obtain ⟨m, hm⟩ := hn.of_le (Nat.le_of_lt_succ hi)
    rw [after_skipping hf hl hm] at hr
    cases hr
    rw [hl]
    exact Nat.le_refl _
  · rw [hl, hloops]
    exact Nat.lt_succ_self _

end Skip
end Pass

/-- **A loop that is skipped ends where it ends when it is run.**  In any state that a pass gets to,
    let a line open the loop `l` over a dictionary with keys, and let the pass get through the loop,
    to `s`, without coming to a line of the loop's own file that is made a header by its tokens.
    Then, with the keys taken away from the loop, any pass (whatever its dictionary, its files and
    the names bound there) gets through the loop as well, to the same line: one step for each line
    up to that one, each of which only passes over its line.  Nothing is replaced, done or written
    before the loop's end. -/
theorem Preprocessor.skips_to_end_of_run (pre : Preprocessor) {p q s : Pass} {header : LoopHeader}
    {d : Dictionary} {l : Loop} {n : Nat} (hp : Pass.Reached pre.job pre.registry p)
    (ho : Pass.Opens pre.job p header d l) (hkeys : d.keys ≠ [])
    (hq : Pass.step pre.job p = .next q) (hn : Pass.GetsThrough pre.job q n s)
    (hquiet : ∀ k < n, ∀ r, Pass.after pre.job k (.next q) = .next r →
      r.files.length = q.files.length → Pass.makesHeader pre.job r = false)
    {job : Job} {x : Pass} {aliases : AliasTable} (hfiles : x.files = q.files)
    (hloops : x.loops = { l with keys := [] } :: p.loops) (hpop : x.aliases.pop? = some aliases) :
    ∃ m f outer, s.files = f :: outer ∧ f.line = l.header + m ∧ s.loops = p.loops ∧
      Pass.GetsThrough job x m
        { x with
          files := f :: outer, loops := p.loops, aliases
          output := Pass.marker job f :: .loopEnd l.collection :: x.output } ∧
      ∀ k < m, ∃ skipped, Pass.after job k (.next x) = .next
        { x with
          files := { f with line := l.header + k, unread := l.body.drop k } :: outer
          loops := { l with keys := [], skipped } :: p.loops } := by
  -- Behind the header the file is the loop's, read up to the header, and the loop is innermost.
  obtain ⟨q', file, outer, hq', hf, hline, hunread, hdepth, hskipped, hd, hl⟩ := ho.exists_next
  rw [hq] at hq'
  cases hq'
  have hdisciplined : Pass.Disciplined q :=
    (Pass.Disciplined.of_reached hp).transition (Pass.step_eq_next_iff.1 hq)
  rw [← hd] at hkeys
  obtain ⟨k, hend⟩ := hn.exists_endsAt hdisciplined hf hline hunread hdepth hl hkeys hquiet
  obtain ⟨raw, rest, hdrop, hc, hnests, hsfiles, hsloops⟩ := id hend
  have hxfiles : x.files = l.fileAt file 0 :: outer := by
    rw [hfiles, hf, Loop.fileAt, Nat.add_zero, List.drop_zero, ← hline, ← hunread]
  have hxloops : x.loops = { l with keys := [], skipped := 0 } :: p.loops := by
    rw [hloops, hskipped]
  have hskip := Pass.getsThrough_skipping hxfiles hxloops hdepth hpop hend job
  rw [hsfiles, hsloops] at hskip
  refine ⟨k + 1, l.fileAt file (k + 1), outer, hsfiles, rfl, hsloops, hskip, fun i hi => ?_⟩
  obtain ⟨m, hm⟩ := hnests.of_le (Nat.le_of_lt_succ hi)
  exact ⟨m, Pass.after_skipping hxfiles hxloops hm job⟩

/-- A root file, a dictionary `d` with the entries, and a text `x` that is a header. -/
def Preprocessor.loopOver (lines : Text) (entries : List (Text × Value)) : Preprocessor where
  filename := ⟨"/main".toList⟩
  dictionary := ⟨[("d".toList, .dictionary entries), ("x".toList, .string "#for i in 1..1".toList)]⟩
  config := {}
  source := (Memory.ofList [(⟨"/main".toList⟩, .text lines)]).source
  registry := {}

/-- Two loops inside a loop, the second of them empty and with a line that is not a whole header. -/
def Preprocessor.loopsWithin : List (Text × Value) → Preprocessor :=
  loopOver ("#for k, v in d\n#for i in 1..2\n#\x7bk\x7d\n#endfor\n".toList ++
    "#for i in 2..1\n#for i\n#endfor\n#endfor\n#endfor\n".toList)

/-- The loops inside a loop over two keys. -/
def Preprocessor.withinTwo : Preprocessor :=
  loopsWithin [("a".toList, .int 1), ("b".toList, .int 2)]

/-- The two turns of the loop take 20 steps; its 8 lines without keys take 8, and both runs end in
    line 9. -/
theorem Preprocessor.skips_to_end_of_run_loopsWithin :
    ∃ p q s x l, Pass.Reached withinTwo.job withinTwo.registry p ∧
      (∃ header d, Pass.Opens withinTwo.job p header d l ∧ d.keys ≠ []) ∧
      Pass.step withinTwo.job p = .next q ∧ Pass.GetsThrough withinTwo.job q 20 s ∧
      s.location.line = 9 ∧
      Pass.Reached (loopsWithin []).job (loopsWithin []).registry x ∧ x.files = q.files ∧
      x.loops = { l with keys := [] } :: p.loops ∧
      ∃ m s', Pass.GetsThrough (loopsWithin []).job x m s' ∧ s'.location = s.location := by
  obtain ⟨p, q, s, x, l, aliases, hp, hq, hl, ⟨header, d, ho, hk⟩, hn, hline, hquiet, hx, hfiles,
      hloops, hpop⟩ :
      ∃ p q s x l aliases, Pass.Reached withinTwo.job withinTwo.registry p ∧
        Pass.step withinTwo.job p = .next q ∧ q.loops = [l] ∧
        (∃ header d, Pass.Opens withinTwo.job p header d l ∧ d.keys ≠ []) ∧
        Pass.GetsThrough withinTwo.job q 20 s ∧ s.location.line = 9 ∧
        Pass.Quiet withinTwo.job (.next q) ∧
        Pass.Reached (loopsWithin []).job (loopsWithin []).registry x ∧
        x.files = q.files ∧ x.loops = { l with keys := [] } :: p.loops ∧
        x.aliases.pop? = some aliases := by
    -- The states are those that the two passes get to from their starts, by running them.
    refine ⟨_, _, _, _, _, _, ⟨0, rfl⟩, rfl, rfl,
      ⟨_, _, .intro rfl rfl nofun rfl rfl rfl rfl rfl rfl rfl, ?_⟩,
      ⟨rfl, ?_, ?_⟩, rfl, ?_, ⟨1, rfl⟩, rfl, rfl, rfl⟩
    · exact List.cons_ne_nil _ _
    · exact Pass.le_length_of_staysOpen rfl
    · exact Nat.lt_succ_self 0
    · exact Pass.quiet_of_quietWithin (n := 22) rfl
  obtain ⟨m, f, outer, hs, _, _, hm, _⟩ := skips_to_end_of_run withinTwo hp ho hk hq hn
    (fun k _ r hr _ => hquiet k r hr) hfiles hloops hpop
  refine ⟨p, q, s, x, l, hp, ⟨header, d, ho, hk⟩, hq, hn, hline, hx, hfiles, hloops, m, _, hm, ?_⟩
  unfold Pass.location
  rw [hs]

/-- A loop with a line inside that is made a header by its token. -/
def Preprocessor.madeHeader : List (Text × Value) → Preprocessor :=
  loopOver "#for k, v in d\n#\x7bx\x7d\n#endfor\n#endfor\n".toList

/-- A loop over one key. -/
def Preprocessor.madeHeaderOnce : Preprocessor := madeHeader [("a".toList, .int 1)]

/-- A loop that is skipped does not see the header that its token makes of the second line: it ends
    in line 3, where the loop inside ends when the lines are run, which end in line 4. -/
theorem Preprocessor.skips_to_end_of_run_madeHeader :
    ∃ p q s x l, Pass.Reached madeHeaderOnce.job madeHeaderOnce.registry p ∧
      (∃ header d, Pass.Opens madeHeaderOnce.job p header d l ∧ d.keys ≠ []) ∧
      Pass.step madeHeaderOnce.job p = .next q ∧ Pass.GetsThrough madeHeaderOnce.job q 3 s ∧
      s.location.line = 4 ∧ Pass.Reached (madeHeader []).job (madeHeader []).registry x ∧
      x.files = q.files ∧ x.loops = { l with keys := [] } :: p.loops ∧
      (∃ s', Pass.GetsThrough (madeHeader []).job x 2 s' ∧ s'.location.line = 3) ∧
      ¬∃ m s', Pass.GetsThrough (madeHeader []).job x m s' ∧ s'.location = s.location := by
  obtain ⟨p, q, s, x, l, s', hp, hq, hl, hopens, hn, hline, hx, hfiles, hloops, hs', hline'⟩ :
      ∃ p q s x l s', Pass.Reached madeHeaderOnce.job madeHeaderOnce.registry p ∧
        Pass.step madeHeaderOnce.job p = .next q ∧ q.loops = [l] ∧
        (∃ header d, Pass.Opens madeHeaderOnce.job p header d l ∧ d.keys ≠ []) ∧
        Pass.GetsThrough madeHeaderOnce.job q 3 s ∧ s.location.line = 4 ∧
        Pass.Reached (madeHeader []).job (madeHeader []).registry x ∧ x.files = q.files ∧
        x.loops = { l with keys := [] } :: p.loops ∧ Pass.GetsThrough (madeHeader []).job x 2 s' ∧
        s'.location.line = 3 := by
    -- Both runs of the loop are computed: three steps to line 4, two to line 3.
    refine ⟨_, _, _, _, _, _, ⟨0, rfl⟩, rfl, rfl,
      ⟨_, _, .intro rfl rfl nofun rfl rfl rfl rfl rfl rfl rfl, ?_⟩,
      ⟨rfl, ?_, ?_⟩, rfl, ⟨1, rfl⟩, rfl, rfl, ⟨rfl, ?_, ?_⟩, rfl⟩
    · exact List.cons_ne_nil _ _
    · exact Pass.le_length_of_staysOpen rfl
    · exact Nat.lt_succ_self 0
    · exact Pass.le_length_of_staysOpen rfl
    · exact Nat.lt_succ_self 0
  refine ⟨p, q, s, x, l, hp, hopens, hq, hn, hline, hx, hfiles, hloops, ⟨s', hs', hline'⟩, ?_⟩
  -- A loop is got through in one way only, and that one ends in another line.
  rintro ⟨m, s'', hm, hlocation⟩
  obtain ⟨_, rfl⟩ := hs'.unique hm
  rw [hlocation, hline] at hline'
  exact absurd hline' (by decide)

end ShaderWeave
