/-
  Where lines come from.

  An open file is a file of the source with a cursor: what is unread are its lines after the line
  read last, and its number is the one it has in the registry.  A loop keeps the lines after its
  header, so that going back to them is going back in the same file.  `Grounded` says so of a state,
  and every state a pass gets to is grounded.

  It follows that every piece that claims to stand for line `n` of file `f` does (`StandsFor`): `f`
  is the number of a file of the source, line `n` of this file is expanded to what the piece shows,
  and the registry in which this is so only grows.
-/
import ShaderWeave.Proofs.Positions
import ShaderWeave.Proofs.Scopes

namespace ShaderWeave

/-! ## Numbers of files

  A file is looked up by its components in the index, and a registration sets at most one key of it,
  which had no number; so numbers that were given are kept.  This holds of any registry, whether or
  not the index fits the entries. -/

namespace Registry

/-! Telling a watcher gives no numbers, nor does tracking a file. -/

theorem idOf?_watch (r : Registry) (watched path : Path) :
    (r.watch watched).idOf? path = r.idOf? path := by
  unfold watch
  split <;> rfl

theorem idOf?_setTracked (r : Registry) (id : Nat) (path : Path) :
    (r.setTracked id).idOf? path = r.idOf? path := rfl

/-- A file that is appended has the next number; the numbers of the others are not touched. -/
theorem idOf?_append (r : Registry) (path other : Path) (track : Bool) :
    (r.append path track).idOf? other =
      if path.components = other.components then some r.entries.length else r.idOf? other :=
  Entries.get?_set _ _ _ _

/-- A path that has a number keeps it when one is appended that has none. -/
theorem idOf?_append_of_some {r : Registry} {path other : Path} {id : Nat}
    (hid : r.idOf? path = none) (h : r.idOf? other = some id) (track : Bool) :
    (r.append path track).idOf? other = some id := by
  have hne : path.components ≠ other.components := by
    intro he
    rw [idOf?, he] at hid
    exact Option.some_ne_none id (h.symm.trans hid)
  rw [idOf?_append, if_neg hne, h]

/-- After a registration the numbers are those from before, and where the path had none, those with
    the path appended. -/
theorem idOf?_register_eq (r : Registry) (path other : Path) (track : Bool) :
    (r.register path track).1.idOf? other =
      if (r.idOf? path).isSome then r.idOf? other else (r.append path track).idOf? other := by
  unfold register
  cases r.idOf? path with
  | some id =>
    simp only [Option.isSome_some, if_true]
    split
    · rw [idOf?_watch, idOf?_setTracked]
    · rfl
  | none =>
    simp only [Option.isSome_none, Bool.false_eq_true, if_false]
    split
    · rw [idOf?_watch]
    · rfl

/-- A path that is registered has the number it was given. -/
theorem idOf?_register_self (r : Registry) (path : Path) (track : Bool) :
    (r.register path track).1.idOf? path = some (r.register path track).2 := by
  rw [idOf?_register_eq]
  unfold register
  cases hid : r.idOf? path with
  | some id => rfl
  | none => exact (idOf?_append r path path track).trans (if_pos rfl)

/-- Numbers are not taken back. -/
theorem idOf?_register {r : Registry} {other : Path} {id : Nat} (path : Path) (track : Bool)
    (h : r.idOf? other = some id) : (r.register path track).1.idOf? other = some id := by
  rw [idOf?_register_eq]
  split
  · exact h
  · next hnew => exact idOf?_append_of_some (Option.not_isSome_iff_eq_none.1 hnew) h track

end Registry

/-! ## Lines of files

  Lines are counted from 1 and a cursor stands behind the line it read last, so what is unread
  behind line `n` is what is left of the file without its first `n` lines. -/

/-- The lines are those of the file at `path` after line `n`. -/
def Source.Follows (source : Source) (path : Path) (n : Nat) (lines : List Text) : Prop :=
  ∃ t, source.find? path = some (.text t) ∧ lines = t.lines.drop n

/-- The line is line `n` of the file at `path`. -/
def Source.HasLine (source : Source) (path : Path) (n : Nat) (raw : Text) : Prop :=
  ∃ t, source.find? path = some (.text t) ∧ 1 ≤ n ∧ t.lines[n - 1]? = some raw

/-- Reading a line moves on by one. -/
theorem Source.Follows.read {source : Source} {path : Path} {n : Nat} {raw : Text}
    {unread : List Text} (h : source.Follows path n (raw :: unread)) :
    source.HasLine path (n + 1) raw ∧ source.Follows path (n + 1) unread := by
  obtain ⟨t, ht, hlines⟩ := h
  have hraw : (t.lines.drop n)[0]? = some raw := by
    rw [← hlines]
    rfl
  rw [List.getElem?_drop] at hraw
  have hunread : t.lines.drop (n + 1) = unread := by
    rw [← List.drop_drop, ← hlines]
    rfl
  exact ⟨⟨t, ht, by omega, hraw⟩, ⟨t, ht, hunread.symm⟩⟩

/-- A line of a file is one line. -/
theorem Source.HasLine.oneLine {source : Source} {path : Path} {n : Nat} {raw : Text}
    (h : source.HasLine path n raw) : Text.OneLine raw := by
  obtain ⟨t, _, _, hraw⟩ := h
  exact Text.oneLine_of_mem_lines (List.mem_of_getElem? hraw)

namespace Pass

/-- Open files and loops stand in the source. -/
structure Grounded (job : Job) (p : Pass) : Prop where
  files : ∀ f ∈ p.files, job.source.Follows f.path f.line f.unread
  ids : ∀ f ∈ p.files, p.registry.idOf? f.path = some f.id
  loops : ∀ l ∈ p.loops, ∃ path, (p.files.map (·.path)).reverse[l.depth]? = some path ∧
    job.source.Follows path l.header l.body

namespace Grounded

variable {job : Job} {p q : Pass} {f f' : OpenFile} {outer : List OpenFile}

/-- The line read next is the next line of the innermost file. -/
theorem next_line {raw : Text} {unread : List Text} (hp : Grounded job p)
    (hf : p.files = f :: outer) (hu : f.unread = raw :: unread) :
    job.source.HasLine f.path (f.line + 1) raw ∧ job.source.Follows f.path (f.line + 1) unread := by
  have hfollows := hp.files f (mem_of_eq_cons hf)
  rw [hu] at hfollows
  exact hfollows.read

/-- The cursor of the innermost file moves; loops are opened there, changed or closed. -/
theorem moved (hp : Grounded job p) (hf : p.files = f :: outer) (hq : q.files = f' :: outer)
    (hpath : f'.path = f.path) (hid : f'.id = f.id)
    (hlines : job.source.Follows f.path f'.line f'.unread) (hr : q.registry = p.registry)
    (hl : ∀ l ∈ q.loops,
      (∃ l' ∈ p.loops, l.depth = l'.depth ∧ l.header = l'.header ∧ l.body = l'.body) ∨
        l.depth = outer.length ∧ job.source.Follows f.path l.header l.body) :
    Grounded job q where
  files := by
    rw [hq]
    intro g hg
    rcases List.mem_cons.1 hg with rfl | hg
    · rw [hpath]
      exact hlines
    · exact hp.files g (mem_of_mem_rest hf hg)
  ids := by
    rw [hq, hr]
    intro g hg
    rcases List.mem_cons.1 hg with rfl | hg
    · rw [hpath, hid]
      exact hp.ids f (mem_of_eq_cons hf)
    · exact hp.ids g (mem_of_mem_rest hf hg)
  loops := by
    have hpaths : q.files.map (·.path) = p.files.map (·.path) := by
      rw [hq, hf, List.map_cons, List.map_cons, hpath]
    rw [hpaths]
    intro l hmem
    rcases hl l hmem with ⟨l', hmem', hd, hh, hb⟩ | ⟨hd, hfollows⟩
    · rw [hd, hh, hb]
      exact hp.loops l' hmem'
    · -- A loop that is opened here is at the depth of the innermost file.
      refine ⟨f.path, ?_, hfollows⟩
      rw [hf, List.map_cons, List.reverse_cons, hd, List.getElem?_append_right (by simp)]
      simp

/-- A line is read and no loop is opened. -/
theorem read {raw : Text} {unread : List Text} (hp : Grounded job p) (hf : p.files = f :: outer)
    (hu : f.unread = raw :: unread) (hq : q.files = f.advance unread :: outer)
    (hr : q.registry = p.registry)
    (hl : ∀ l ∈ q.loops, ∃ l' ∈ p.loops,
      l.depth = l'.depth ∧ l.header = l'.header ∧ l.body = l'.body) : Grounded job q :=
  hp.moved hf hq rfl rfl (hp.next_line hf hu).2 hr fun l hmem => .inl (hl l hmem)

/-- The innermost loop is changed, but not where it stands. -/
theorem changed {raw : Text} {unread : List Text} {l l' : Loop} {loops : List Loop}
    (hp : Grounded job p) (hf : p.files = f :: outer) (hu : f.unread = raw :: unread)
    (hq : q.files = f.advance unread :: outer) (hr : q.registry = p.registry)
    (hl : p.loops = l :: loops) (hql : q.loops = l' :: loops) (hd : l'.depth = l.depth)
    (hh : l'.header = l.header) (hb : l'.body = l.body) : Grounded job q := by
  refine hp.read hf hu hq hr fun m hm => ?_
  rw [hql] at hm
  rcases List.mem_cons.1 hm with rfl | hm
  · exact ⟨l, mem_of_eq_cons hl, hd, hh, hb⟩
  · exact ⟨m, mem_of_mem_rest hl hm, rfl, rfl, rfl⟩

/-- A loop is opened in the line that is read. -/
theorem opened {raw : Text} {unread : List Text} {l : Loop} (hp : Grounded job p)
    (hf : p.files = f :: outer) (hu : f.unread = raw :: unread)
    (hq : q.files = f.advance unread :: outer) (hr : q.registry = p.registry)
    (hql : q.loops = l :: p.loops) (hd : l.depth = outer.length) (hh : l.header = f.line + 1)
    (hb : l.body = unread) : Grounded job q := by
  have hfollows := (hp.next_line hf hu).2
  refine hp.moved hf hq rfl rfl hfollows hr fun m hm => ?_
  rw [hql] at hm
  rcases List.mem_cons.1 hm with rfl | hm
  · exact .inr ⟨hd, by rw [hh, hb]; exact hfollows⟩
  · exact .inl ⟨m, hm, rfl, rfl, rfl⟩

/-- The lines of the innermost loop come again. -/
theorem rewound {l l' : Loop} {loops : List Loop} (hp : Grounded job p) (hf : p.files = f :: outer)
    (hl : p.loops = l :: loops) (hdepth : l.depth = outer.length)
    (hq : q.files = { f with line := l.header, unread := l.body } :: outer)
    (hr : q.registry = p.registry) (hql : q.loops = l' :: loops) (hd : l'.depth = l.depth)
    (hh : l'.header = l.header) (hb : l'.body = l.body) : Grounded job q := by
  -- The file of the loop is the innermost file, because the loop is at its depth.
  obtain ⟨path, hpath, hfollows⟩ := hp.loops l (mem_of_eq_cons hl)
  rw [hf, List.map_cons, List.reverse_cons, hdepth, List.getElem?_append_right (by simp)] at hpath
  have hpath : f.path = path := by simpa using hpath
  refine hp.moved hf hq rfl rfl (by rw [hpath]; exact hfollows) hr fun m hm => ?_
  rw [hql] at hm
  rcases List.mem_cons.1 hm with rfl | hm
  · exact .inl ⟨l, mem_of_eq_cons hl, hd, hh, hb⟩
  · exact .inl ⟨m, mem_of_mem_rest hl hm, rfl, rfl, rfl⟩

/-- A file of the source is entered. -/
theorem entered {raw t : Text} {unread : List Text} {path : Path} {track : Bool} {new : OpenFile}
    (hp : Grounded job p) (hf : p.files = f :: outer) (hu : f.unread = raw :: unread)
    (hq : q.files = new :: f.advance unread :: outer)
    (hr : q.registry = (p.registry.register path track).1)
    (hfind : job.source.find? path = some (.text t)) (hpath : new.path = path)
    (hid : new.id = (p.registry.register path track).2) (hline : new.line = 0)
    (hunread : new.unread = t.lines) (hl : q.loops = p.loops) : Grounded job q := by
  -- Within the registry of before, this is reading a line.
  have hread : Grounded job { p with files := f.advance unread :: outer } :=
    hp.read hf hu rfl rfl fun l hl => ⟨l, hl, rfl, rfl, rfl⟩
  refine ⟨?_, ?_, ?_⟩
  · rw [hq]
    intro g hg
    rcases List.mem_cons.1 hg with rfl | hg
    · exact ⟨t, by rw [hpath]; exact hfind, by rw [hline, hunread, List.drop_zero]⟩
    · exact hread.files g hg
  · rw [hq, hr]
    intro g hg
    rcases List.mem_cons.1 hg with rfl | hg
    · rw [hpath, hid]
      exact Registry.idOf?_register_self _ _ _
    · exact Registry.idOf?_register _ _ (hread.ids g hg)
  · rw [hl, hq]
    intro l hmem
    obtain ⟨path', hpath', hfollows⟩ := hread.loops l hmem
    refine ⟨path', ?_, hfollows⟩
    rw [List.map_cons, List.reverse_cons,
      List.getElem?_append_left (List.getElem?_eq_some_iff.1 hpath').1]
    exact hpath'

/-- The innermost file is left. -/
theorem left (hp : Grounded job p) (hf : p.files = f :: outer) (hq : q.files = outer)
    (hn : Nested q) (hr : q.registry = p.registry) (hl : q.loops = p.loops) : Grounded job q := by
  refine ⟨?_, ?_, ?_⟩
  · rw [hq]
    exact fun g hg => hp.files g (mem_of_mem_rest hf hg)
  · rw [hq, hr]
    exact fun g hg => hp.ids g (mem_of_mem_rest hf hg)
  · intro l hmem
    have hd := hn.depth_lt l hmem
    rw [hl] at hmem
    obtain ⟨path, hpath, hfollows⟩ := hp.loops l hmem
    refine ⟨path, ?_, hfollows⟩
    rw [hf, List.map_cons, List.reverse_cons] at hpath
    rw [hq] at hd ⊢
    rw [List.getElem?_append_left (by simpa using hd)] at hpath
    exact hpath

/-- **Transitions keep files and loops in the source.** -/
theorem transition (hp : Grounded job p) (hn : Nested q) (h : Transition job p q) :
    Grounded job q := by
  cases h with
  | leave hf hu hl => exact hp.left hf (by simp) hn (by simp) (by simp)
  | line hf hu he =>
    cases he with
    | skip => exact hp.read hf hu rfl rfl fun l hl => ⟨l, hl, rfl, rfl, rfl⟩
    | deepen hl => exact hp.changed hf hu rfl rfl hl rfl rfl rfl rfl
    | rise hl => exact hp.changed hf hu rfl rfl hl rfl rfl rfl rfl
    | again hl _ _ hd => exact hp.rewound hf hl hd rfl rfl rfl rfl rfl rfl
    | close hl =>
      refine hp.read hf hu rfl rfl fun l' hl' => ⟨l', ?_, rfl, rfl, rfl⟩
      rw [hl]
      exact List.mem_cons_of_mem _ hl'
    | version => exact hp.read hf hu rfl rfl fun l hl => ⟨l, hl, rfl, rfl, rfl⟩
    | platform => exact hp.read hf hu rfl rfl fun l hl => ⟨l, hl, rfl, rfl, rfl⟩
    | inclusion _ _ _ _ _ hfind => exact hp.entered hf hu rfl rfl hfind rfl rfl rfl rfl rfl
    | openEmpty => exact hp.opened hf hu rfl rfl rfl rfl rfl rfl
    | opens _ _ _ _ _ _ _ _ hl =>
      subst hl
      exact hp.opened hf hu rfl rfl rfl rfl rfl rfl
    | plain => exact hp.read hf hu rfl rfl fun l hl => ⟨l, hl, rfl, rfl, rfl⟩

/-- **Every state a pass gets to is grounded.** -/
theorem of_reached {registry : Registry} (h : Reached job registry p) : Grounded job p := by
  refine h.induct (fun p hp => ?_) fun p q hreached hp h => ?_
  · obtain ⟨t, ht, rfl⟩ := start_eq_next hp
    refine ⟨?_, ?_, by simp⟩
    · intro f hf
      rw [List.mem_singleton.1 hf]
      exact ⟨t, ht, rfl⟩
    · intro f hf
      rw [List.mem_singleton.1 hf]
      exact Registry.idOf?_register_self _ _ _
  · exact hp.transition ((Disciplined.of_reached hreached).transition h).toNested h

end Grounded

/-! ## What is written

  A piece carries the number of a line, and nothing in its type says that this is right.  What makes
  it right is when it is written: in the very step that reads the line, with the cursor behind
  it. -/

/-- The piece is written for a line `raw` that is expanded to `line`. -/
inductive Shows (job : Job) (indentation raw line : Text) : Piece → Prop where
  | source {f n} (hd : Directive.parse line = .ok .plain) :
      Shows job indentation raw line (.source f n (indentation ++ raw.margin ++ line))
  | version {f n context} (hd : Directive.parse line = .ok .version)
      (hx : job.config.context = some context) :
      Shows job indentation raw line (.version f n context)

/-- What a transition adds to the output: a marker of the line read last behind pieces that stand
    for no line, or one piece that stands for the line read last, or pieces that stand for no line
    where no line is read on. -/
inductive Writes (job : Job) (p q : Pass) : Prop where
  | marked {f outer} (pieces : List Piece) (hf : q.files = f :: outer)
      (ho : q.output = marker job f :: (pieces ++ p.output))
      (hn : ∀ piece ∈ pieces, piece.origin? = none)
  | line {f outer raw unread line piece} (hf : p.files = f :: outer) (hu : f.unread = raw :: unread)
      (hq : q.files = f.advance unread :: outer) (ha : p.Active) (ho : q.output = piece :: p.output)
      (hpos : piece.origin? = some ⟨f.id, f.line + 1⟩)
      (he : Expands job p (f.advance unread) raw line)
      (hs : Shows job f.indentation raw line piece)
  | silent (pieces : List Piece) (ho : q.output = pieces ++ p.output)
      (hn : ∀ piece ∈ pieces, piece.origin? = none) (hq : q.files = [] ∨ ¬q.Active)

section Output

variable {job : Job} {p q : Pass}

/-- What each transition writes. -/
theorem writes_of_transition (h : Transition job p q) : Writes job p q := by
  have nothing : ∀ piece ∈ ([] : List Piece), piece.origin? = none :=
    fun _ h => absurd h List.not_mem_nil
  have single : ∀ {piece : Piece}, piece.origin? = none →
      ∀ piece' ∈ [piece], piece'.origin? = none := by
    intro piece h piece' hmem
    rw [List.mem_singleton.1 hmem]
    exact h
  -- In an empty loop nothing is written.
  have skipped : ∀ {l loops}, q.loops = l :: loops → l.keys = [] → q.output = p.output →
      Writes job p q := by
    intro l loops hl hk ho
    refine .silent [] ho nothing (.inr fun ha => ?_)
    exact ha l (by rw [hl]; rfl) hk
  cases h with
  | @leave f outer hf hu hl =>
    cases outer with
    | nil => exact .silent [] rfl nothing (.inl rfl)
    | cons g outer => exact .marked [] rfl rfl nothing
  | @line f outer raw unread q hf hu he =>
    cases he with
    | skip hl hk => exact skipped hl hk rfl
    | deepen _ hk => exact skipped rfl hk rfl
    | rise _ hk => exact skipped rfl hk rfl
    | again => exact .marked [_] rfl rfl (single rfl)
    | close => exact .marked [_] rfl rfl (single rfl)
    | version ha _ he hd hx => exact .line hf hu rfl ha rfl rfl he (.version hd hx)
    | platform => exact .marked [_] rfl rfl (single rfl)
    | inclusion => exact .marked [] rfl rfl nothing
    | openEmpty =>
      refine .silent [.loopEmpty] rfl (single rfl) (.inr fun ha => ?_)
      exact ha _ rfl rfl
    | opens => exact .marked [_] rfl rfl (single rfl)
    | plain ha _ he hd => exact .line hf hu rfl ha rfl rfl he (.source hd)

/-- Numbers of files are kept. -/
theorem idOf?_of_transition (h : Transition job p q) {path : Path} {id : Nat}
    (hid : p.registry.idOf? path = some id) : q.registry.idOf? path = some id := by
  cases h with
  | leave => simpa using hid
  | line _ _ he =>
    cases he with
    | inclusion => exact Registry.idOf?_register _ _ hid
    | skip => exact hid
    | deepen => exact hid
    | rise => exact hid
    | again => exact hid
    | close => exact hid
    | version => exact hid
    | platform => exact hid
    | openEmpty => exact hid
    | opens => exact hid
    | plain => exact hid

/-- The piece stands for the line: the line is one of a file with this number, and the piece shows
    what it is expanded to. -/
def StandsFor (job : Job) (registry : Registry) (piece : Piece) (pos : Position) : Prop :=
  ∃ path raw, job.source.HasLine path pos.line raw ∧ registry.idOf? path = some pos.file ∧
    ∃ env line indentation, env.dictionary = job.dictionary ∧
      Substitution.expandLine env job.config.maxSubstitutions ⟨path.text, pos.line⟩ raw.content =
        .ok line ∧
      Shows job indentation raw line piece

/-- Every piece stands for the line it claims to stand for. -/
def Attributed (job : Job) (p : Pass) : Prop :=
  ∀ piece ∈ p.output, ∀ pos, piece.origin? = some pos → StandsFor job p.registry piece pos

/-- What is written stands for what it claims to stand for, and what was written before still does,
    as numbers are kept. -/
theorem Attributed.writes (hout : Attributed job p) (hp : Grounded job p) (h : Writes job p q)
    (hkept : ∀ {path id}, p.registry.idOf? path = some id → q.registry.idOf? path = some id) :
    Attributed job q := by
  unfold Attributed
  have old : ∀ piece ∈ p.output, ∀ pos, piece.origin? = some pos →
      StandsFor job q.registry piece pos := by
    intro piece hmem pos hpos
    obtain ⟨path, raw, hline, hid, hrest⟩ := hout piece hmem pos hpos
    exact ⟨path, raw, hline, hkept hid, hrest⟩
  -- Pieces that stand for no line have nothing to show.
  have behind : ∀ {pieces : List Piece}, (∀ piece ∈ pieces, piece.origin? = none) →
      ∀ piece ∈ pieces ++ p.output, ∀ pos, piece.origin? = some pos →
      StandsFor job q.registry piece pos := by
    intro pieces hn piece hmem pos hpos
    rcases List.mem_append.1 hmem with hmem | hmem
    · rw [hn piece hmem] at hpos
      cases hpos
    · exact old piece hmem pos hpos
  cases h with
  | marked pieces hf ho hn =>
    rw [ho]
    intro piece hmem pos hpos
    rcases List.mem_cons.1 hmem with rfl | hmem
    · cases hpos
    · exact behind hn piece hmem pos hpos
  | silent pieces ho hn =>
    rw [ho]
    exact behind hn
  | @line f outer raw unread line piece hf hu hq ha ho hpos he hs =>
    rw [ho]
    intro piece' hmem pos hpos'
    rcases List.mem_cons.1 hmem with rfl | hmem
    · rw [hpos] at hpos'
      cases hpos'
      have hid := hp.ids f (mem_of_eq_cons hf)
      exact ⟨f.path, raw, (hp.next_line hf hu).1, hkept hid, p.environment job, line, f.indentation,
        rfl, he, hs⟩
    · exact old piece' hmem pos hpos'

/-- **In every state a pass gets to, pieces stand for the lines they claim to stand for.** -/
theorem Attributed.of_reached {registry : Registry} (h : Reached job registry p) :
    Attributed job p := by
  refine h.induct (fun p hp => ?_) fun p q hreached hp h => ?_
  · obtain ⟨t, _, rfl⟩ := start_eq_next hp
    exact fun piece hmem => absurd hmem List.not_mem_nil
  · exact hp.writes (Grounded.of_reached hreached) (writes_of_transition h) (idOf?_of_transition h)

end Output
end Pass
end ShaderWeave
