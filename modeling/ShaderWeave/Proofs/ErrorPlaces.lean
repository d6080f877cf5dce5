/-
  Where errors point.

  A location is taken at different times: before a line is expanded, when a loop is opened, after
  going back to a header, within files that include each other.  Yet every error of a pass that has
  a line points at a line that is there, of a file that is registered:

    * **the line read last** in the innermost file (`Rejection.located`) — all errors but one, those
      of loops that are ended or opened in the wrong place among them;
    * **the header of the innermost open loop**, where a file ends before the loop does.

  The crux is the second.  The location is the one kept in the loop when it was opened, and files
  were entered and left since then.  `Labelled` says that it is still that of the file which ends,
  and `openedBy_of_reached` finds the state in which the loop was opened by this line.

  Only two errors have no line to point at: the root is not there, which is told of line 0 of no
  file; and a file that is registered cannot be read.
-/
import ShaderWeave.Proofs.Entering
import ShaderWeave.Proofs.LoopNames

namespace ShaderWeave

/-- The error of a file that ends before a loop of it does. -/
def Error.endsInLoop : Error → Bool
  | .malformed .fileEndsInLoop _ => true
  | _ => false

/-- A fault that is not about loops is another error. -/
theorem Error.endsInLoop_of_isNesting {fault : Fault} (h : fault.isNesting = false)
    (loc : Location) : (Error.malformed fault loc).endsInLoop = false := by
  unfold Error.endsInLoop
  split
  · next e =>
    cases e
    cases h
  · rfl

/-- A path in normal form that has a number is the path of an entry. -/
theorem Registry.Sound.exists_entry {r : Registry} (h : r.Sound) {path : Path} (hp : path.IsNormal)
    {id : Nat} (hid : r.idOf? path = some id) : ∃ entry ∈ r.entries, entry.path = path := by
  obtain ⟨entry, hentry, hpath⟩ := Option.map_eq_some_iff.1 (h.pathOf?_of_idOf? hp hid)
  exact ⟨entry, List.mem_of_getElem? hentry, hpath⟩

namespace Pass

/-! ## The files of loops

  A loop keeps the path of its file as text, from the time it was opened; which file that is can
  only be told by the depth.  So the two are compared: the path at the depth of a loop, counted from
  the outermost file, is the one the loop keeps. -/

/-- The path, as shown, of the file with `d` files around it. -/
def shownAt (files : List OpenFile) (d : Nat) : Option Text := (files.map (·.path.text)).reverse[d]?

section Shown

variable {f f' : OpenFile} {outer : List OpenFile} {d : Nat}

/-- The innermost file has all the others around it. -/
theorem shownAt_self (f : OpenFile) (outer : List OpenFile) :
    shownAt (f :: outer) outer.length = some f.path.text := by
  unfold shownAt
  rw [List.map_cons, List.reverse_cons, List.getElem?_append_right (by simp)]
  simp

/-- An outer file keeps its place when another is entered, or left. -/
theorem shownAt_outer (h : d < outer.length) : shownAt (f :: outer) d = shownAt outer d := by
  unfold shownAt
  rw [List.map_cons, List.reverse_cons, List.getElem?_append_left (by simpa using h)]

/-- Reading on in a file does not change its path. -/
theorem shownAt_moved (h : f'.path = f.path) :
    shownAt (f' :: outer) d = shownAt (f :: outer) d := by
  unfold shownAt
  rw [List.map_cons, List.map_cons, h]

end Shown

/-- Every open loop is labelled with the path of its file. -/
def Labelled (p : Pass) : Prop := ∀ l ∈ p.loops, shownAt p.files l.depth = some l.file

namespace Labelled

variable {job : Job} {registry : Registry} {p q : Pass} {f f' new : OpenFile}
  {outer : List OpenFile}

/-- The cursor of the innermost file moves, and no loop is opened. -/
theorem moved (hp : Labelled p) (hf : p.files = f :: outer) (hq : q.files = f' :: outer)
    (hpath : f'.path = f.path)
    (hl : ∀ l ∈ q.loops, ∃ l' ∈ p.loops, l.depth = l'.depth ∧ l.file = l'.file) : Labelled q := by
  intro l hmem
  obtain ⟨l', hmem', hdepth, hfile⟩ := hl l hmem
  have := hp l' hmem'
  rw [hf] at this
  rw [hq, shownAt_moved hpath, hdepth, hfile]
  exact this

/-- The innermost loop is changed, but not where it stands. -/
theorem changed {l l' : Loop} {loops : List Loop} (hp : Labelled p) (hf : p.files = f :: outer)
    (hq : q.files = f' :: outer) (hpath : f'.path = f.path) (hl : p.loops = l :: loops)
    (hql : q.loops = l' :: loops) (hdepth : l'.depth = l.depth) (hfile : l'.file = l.file) :
    Labelled q := by
  refine hp.moved hf hq hpath fun m hm => ?_
  rw [hql] at hm
  rcases List.mem_cons.1 hm with rfl | hm
  · exact ⟨l, mem_of_eq_cons hl, hdepth, hfile⟩
  · exact ⟨m, mem_of_mem_rest hl hm, rfl, rfl⟩

/-- A loop is opened in the innermost file. -/
theorem opened {l : Loop} (hp : Labelled p) (hf : p.files = f :: outer) (hq : q.files = f' :: outer)
    (hpath : f'.path = f.path) (hql : q.loops = l :: p.loops) (hdepth : l.depth = outer.length)
    (hfile : l.file = f.path.text) : Labelled q := by
  intro m hm
  rw [hql] at hm
  rw [hq, shownAt_moved hpath]
  rcases List.mem_cons.1 hm with rfl | hm
  · rw [hdepth, hfile]
    exact shownAt_self f outer
  · rw [← hf]
    exact hp m hm

/-- A file is entered, which is deeper than all loops. -/
theorem entered (hp : Labelled p) (hn : Nested p) (hf : p.files = f :: outer)
    (hq : q.files = new :: f' :: outer) (hpath : f'.path = f.path) (hl : q.loops = p.loops) :
    Labelled q := by
  intro l hmem
  rw [hl] at hmem
  have hdepth := hn.depth_lt l hmem
  rw [hf] at hdepth
  rw [hq, shownAt_outer (by simpa using hdepth), shownAt_moved hpath, ← hf]
  exact hp l hmem

/-- The innermost file is left, which is deeper than all loops that stay open. -/
theorem left (hp : Labelled p) (hn : Nested q) (hf : p.files = f :: outer) (hq : q.files = outer)
    (hl : q.loops = p.loops) : Labelled q := by
  intro l hmem
  have hdepth := hn.depth_lt l hmem
  rw [hq] at hdepth
  rw [hl] at hmem
  rw [hq, ← shownAt_outer (f := f) hdepth, ← hf]
  exact hp l hmem

/-- Each transition is one of these moves. -/
theorem transition (hp : Labelled p) (hn : Nested p) (hnq : Nested q) (h : Transition job p q) :
    Labelled q := by
  cases h with
  | leave hf => exact hp.left hnq hf (by simp) (by simp)
  | line hf hu he =>
    cases he with
    | skip => exact hp.moved hf rfl rfl fun l hl => ⟨l, hl, rfl, rfl⟩
    | deepen hl => exact hp.changed hf rfl rfl hl rfl rfl rfl
    | rise hl => exact hp.changed hf rfl rfl hl rfl rfl rfl
    | again hl => exact hp.changed hf rfl rfl hl rfl rfl rfl
    | close hl => exact hp.moved hf rfl rfl fun l' hl' => ⟨l', mem_of_mem_rest hl hl', rfl, rfl⟩
    | version => exact hp.moved hf rfl rfl fun l hl => ⟨l, hl, rfl, rfl⟩
    | platform => exact hp.moved hf rfl rfl fun l hl => ⟨l, hl, rfl, rfl⟩
    | inclusion => exact hp.entered hn hf rfl rfl rfl
    | openEmpty => exact hp.opened hf rfl rfl rfl rfl rfl
    | opens _ _ _ _ _ _ _ _ hl =>
      subst hl
      exact hp.opened hf rfl rfl rfl rfl rfl
    | plain => exact hp.moved hf rfl rfl fun l hl => ⟨l, hl, rfl, rfl⟩

/-- **Every loop stays labelled with its file.** -/
theorem of_reached (h : Reached job registry p) : Labelled p := by
  refine h.induct (fun p hp => ?_) fun p q hreached hp h => ?_
  · obtain ⟨t, _, rfl⟩ := start_eq_next hp
    exact nofun
  · have hdisciplined := Disciplined.of_reached hreached
    exact hp.transition hdisciplined.toNested (hdisciplined.transition h).toNested h

end Labelled

/-! ## Headers

  A loop is open, so it was opened; the header is the line that did it.  It is found in the state
  before that step, which the pass got to. -/

/-- The line `raw` of the file at `path` is the header of the loop: in a state that the pass gets
    to, it is the line read next, its number is the one the loop keeps, and it opens the loop, some
    keys of which may be done by now. -/
inductive OpenedBy (job : Job) (registry : Registry) (path : Path) (raw : Text) (l : Loop) :
    Prop where
  | header {p f outer unread header d opened i skipped} (hp : Reached job registry p)
      (hf : p.files = f :: outer) (hpath : f.path = path) (hu : f.unread = raw :: unread)
      (hline : f.line + 1 = l.header)
      (ho : Opens job p header d opened) (hl : l = { opened with keys := d.keys.drop i, skipped })

/-- A loop that is open in the innermost file was opened by a line of this file. -/
theorem openedBy_of_reached {job : Job} {registry : Registry} {p : Pass} {f : OpenFile}
    {outer : List OpenFile} {l : Loop} (h : Reached job registry p) (hf : p.files = f :: outer)
    (hl : l ∈ p.loops) (hdepth : l.depth = outer.length) :
    l.file = f.path.text ∧
      ∃ raw, job.source.HasLine f.path l.header raw ∧ OpenedBy job registry f.path raw l := by
  have hfile : l.file = f.path.text := by
    have hlabel := Labelled.of_reached h l hl
    rw [hf, hdepth, shownAt_self] at hlabel
    exact (Option.some.inj hlabel).symm
  refine ⟨hfile, ?_⟩
  obtain ⟨header, d, i, ⟨p₀, opened, skipped, hreached, hopens, rfl⟩, _⟩ :=
    (Named.of_reached h).turns l hl
  have ho := hopens
  obtain @⟨f₀, outer₀, raw, unread, line, ranges, name, hf₀, hu₀, _, _, _, _, _, _, _, hopened⟩ :=
    hopens
  have hpath : f₀.path = f.path := by
    -- A path is its text, and the loop shows that of its file.
    have hshown : opened.file = f₀.path.text := congrArg Loop.file hopened
    exact congrArg Path.mk (hshown.symm.trans hfile)
  have hline : opened.header = f₀.line + 1 := congrArg Loop.header hopened
  have hraw := ((Grounded.of_reached hreached).next_line hf₀ hu₀).1
  rw [hpath, ← hline] at hraw
  exact ⟨raw, hraw, .header hreached hf₀ hpath hu₀ hline.symm ho rfl⟩

/-! ## The line an error points at

  An error is found while a line is read, and then it points at this line; the one exception is a
  missing end, which is found when there is no line to read. -/

/-- What line `n` of the innermost file `f`, `raw`, has to do with the error that the next step from
    `p` ends the pass with.  Where no line of the file is left, it is the header of the innermost
    open loop, which is a loop of this file; in the body of an empty loop headers open no loop.
    Else it is the line that the step reads, and so the last one read, and the error is any
    other. -/
inductive Blames (job : Job) (registry : Registry) (p : Pass) (f : OpenFile) (outer : List OpenFile)
    (raw : Text) : Error → Nat → Prop where
  | header {l loops} (hu : f.unread = []) (hl : p.loops = l :: loops)
      (hdepth : l.depth = outer.length) (ho : OpenedBy job registry f.path raw l) :
      Blames job registry p f outer raw (.malformed .fileEndsInLoop ⟨f.path.text, l.header⟩)
        l.header
  | lastRead {e unread} (hu : f.unread = raw :: unread) (he : e.endsInLoop = false) :
      Blames job registry p f outer raw e (f.line + 1)

/-- The error that ends the pass in the state `p` points at line `n` of the file at `path`: the file
    is the innermost one, the line is there and is to blame. -/
inductive PointsAt (job : Job) (registry : Registry) (p : Pass) (e : Error) (path : Path)
    (n : Nat) : Prop where
  | line {f outer raw} (hf : p.files = f :: outer) (hpath : f.path = path)
      (hloc : e.location? = some ⟨path.text, n⟩) (hraw : job.source.HasLine path n raw)
      (hb : Blames job registry p f outer raw e n)

/-- The location that the error tells is the one it is said to point at. -/
theorem PointsAt.location?_eq {job : Job} {registry : Registry} {p : Pass} {e : Error} {path : Path}
    {n : Nat} (h : PointsAt job registry p e path n) : e.location? = some ⟨path.text, n⟩ := by
  cases h with
  | line _ _ hloc => exact hloc

section Places

variable {job : Job} {registry registry' : Registry} {p : Pass} {e : Error}

/-- A line is rejected with an error that has its place, or because the file it includes cannot be
    read. -/
theorem Rejection.located {f : OpenFile} {outer : List OpenFile} {raw : Text} {unread : List Text}
    (hf : p.files = f :: outer) (hu : f.unread = raw :: unread)
    (h : Rejection job p (f.advance unread) outer raw registry' e) :
    (registry' = p.registry ∧ e.location? = some ⟨f.path.text, f.line + 1⟩ ∧ e.endsInLoop = false) ∨
      ∃ path reason track, e = .unreadable path reason ∧ Enters job p path track ∧
        registry' = (p.registry.register path track).1 := by
  cases h with
  | endWithoutLoop => exact .inl ⟨rfl, rfl, rfl⟩
  | endInOtherFile => exact .inl ⟨rfl, rfl, rfl⟩
  | scopeNotOpen => exact .inl ⟨rfl, rfl, rfl⟩
  | expansion _ _ he =>
    rcases error_of_expandLine he with ⟨fault, hfault, rfl⟩ | ⟨name, fault, rfl⟩
    · exact .inl ⟨rfl, rfl, Error.endsInLoop_of_isNesting hfault _⟩
    · exact .inl ⟨rfl, rfl, rfl⟩
  | directive _ _ _ hd =>
    exact .inl ⟨rfl, rfl, Error.endsInLoop_of_isNesting (isNesting_of_directive hd) _⟩
  | missingContext => exact .inl ⟨rfl, rfl, rfl⟩
  | unresolvedInclude => exact .inl ⟨rfl, rfl, rfl⟩
  | absentFile => exact .inl ⟨rfl, rfl, rfl⟩
  | includeCycle => exact .inl ⟨rfl, rfl, rfl⟩
  -- The one error without a place: the file is there, and is not open, so it is entered.
  | @unreadable line i path reason ha hc he hd hr hfind hn =>
    have hadmits : p.admits job path = true := by
      have hn' : p.files.any (·.path.same path) = false := by
        rw [hf]
        exact hn
      simp only [admits, hfind, hn', Option.isSome_some, Bool.not_false, Bool.and_self]
    exact .inr ⟨path, reason, i.track, rfl, .inclusion hf hu ha hc he hd hr hadmits, rfl⟩
  | range _ _ _ _ hg =>
    exact .inl ⟨rfl, rfl, Error.endsInLoop_of_isNesting (isNesting_of_gather hg) _⟩
  | collection => exact .inl ⟨rfl, rfl, rfl⟩

/-- **A step that ends the pass points at a line**, unless it enters a file that cannot be read. -/
theorem pointsAt_or_enters (hreached : Reached job registry p) (h : Refusal job p registry' e) :
    (registry' = p.registry ∧ ∃ f n, f ∈ p.files ∧ PointsAt job registry p e f.path n) ∨
      ∃ path reason track, e = .unreadable path reason ∧ Enters job p path track ∧
        registry' = (p.registry.register path track).1 := by
  have hp := Disciplined.of_reached hreached
  have empties := hp.followsLoops.empties
  cases h with
  | @fileEndsInLoop f outer l hf hu hl hdepth =>
    obtain ⟨loops, hloops⟩ := List.head?_eq_some_iff.1 hl
    -- No loop is deeper than the innermost file, so the loop is one of this file.
    have hmem := mem_of_eq_cons hloops
    have hdepth : l.depth = outer.length := Nat.le_antisymm (hp.depth_le hf l hmem) hdepth
    obtain ⟨hfile, raw, hraw, ho⟩ := openedBy_of_reached hreached hf hmem hdepth
    rw [hfile]
    exact .inl ⟨rfl, f, l.header, mem_of_eq_cons hf,
      .line hf rfl rfl hraw (.header hu hloops hdepth ho)⟩
  | passEndsInLoop hf hl =>
    rw [(empties hf).1] at hl
    cases hl
  | passEndsInScope hf _ hs =>
    rw [(empties hf).2] at hs
    exact absurd hs (Nat.lt_irrefl 0)
  | @line f outer raw unread _ _ hf hu he =>
    rcases he.located hf hu with ⟨hr, hloc, hends⟩ | hunreadable
    · have hraw := ((Grounded.of_reached hreached).next_line hf hu).1
      exact .inl ⟨hr, f, f.line + 1, mem_of_eq_cons hf, .line hf rfl hloc hraw (.lastRead hu hends)⟩
    · exact .inr hunreadable

/-- Files are entered by paths in normal form. -/
theorem Enters.isNormal {path : Path} {track : Bool} (h : Enters job p path track) :
    path.IsNormal := by
  cases h with
  | inclusion _ _ _ _ _ _ hr => exact isNormal_of_resolve? hr

end Places
end Pass

/-! ## Errors of a pass

  A pass begins with a step of its own, which enters the root, so the last step is that one or one
  from a state that the pass gets to. -/

namespace Preprocessor

/-- The pass ends with the error in a state that it gets to. -/
def FailsIn (pre : Preprocessor) (p : Pass) (e : Error) : Prop :=
  Pass.Reached pre.job pre.registry p ∧
    Pass.step pre.job p = .stop ⟨pre.process.1.registry, .error e⟩

/-- The pass ends with the error as it enters the file: as its root, or by a line in a state that it
    gets to. -/
def FailsEntering (pre : Preprocessor) (file : Path) (e : Error) : Prop :=
  (file = pre.job.root ∧
    Pass.start pre.job pre.registry = .stop ⟨pre.process.1.registry, .error e⟩) ∨
    ∃ p track, pre.FailsIn p e ∧ Pass.Enters pre.job p file track

/-- A pass fails because its root is not there or cannot be read, or in a state that it gets to:
    because of a line of a registered file, or because a file that is entered, and registered,
    cannot be read. -/
theorem error_cases {pre : Preprocessor} {e : Error} (hr : pre.registry.Arises)
    (h : pre.process.2 = .error e) :
    (pre.source.find? pre.job.root = none ∧ e = .includeNotFound pre.job.root ⟨[], 0⟩) ∨
    (∃ entry ∈ pre.process.1.registry.entries, ∃ reason, e = .unreadable entry.path reason ∧
      pre.FailsEntering entry.path e) ∨
    ∃ entry ∈ pre.process.1.registry.entries, ∃ p n, pre.FailsIn p e ∧
      Pass.PointsAt pre.job pre.registry p e entry.path n := by
  have hsound := sound_process hr.sound
  have hlast := Pass.start_or_step_eq_process pre.job pre.registry
  have ho : Pass.process pre.job pre.registry = ⟨pre.process.1.registry, .error e⟩ := by
    rw [← h]
    rfl
  rw [ho] at hlast
  rcases hlast with hs | ⟨p, hreached, hs⟩
  · rcases Pass.start_eq_stop hs with ⟨hroot, hstop⟩ | ⟨reason, _, hstop⟩
    · exact .inl ⟨hroot, Except.error.inj (congrArg Outcome.result hstop)⟩
    · have hregistry : pre.process.1.registry = (pre.registry.register pre.job.root true).1 :=
        congrArg Outcome.registry hstop
      cases congrArg Outcome.result hstop
      -- The root was registered before it was read.
      have hid := Registry.idOf?_register_self pre.registry pre.job.root true
      rw [← hregistry] at hid
      obtain ⟨entry, hentry, hpath⟩ := hsound.exists_entry pre.isNormal_root hid
      exact .inr (.inl ⟨entry, hentry, reason, by rw [hpath], .inl ⟨hpath, hs⟩⟩)
  · rcases Pass.pointsAt_or_enters hreached (Pass.refusal_of_step hs) with
      ⟨hregistry, f, n, hf, hpoints⟩ | ⟨path, reason, track, rfl, henters, hregistry⟩
    · -- The file of the line is open, so it has a number, and with it an entry.
      have hid := (Pass.Grounded.of_reached hreached).ids f hf
      rw [← hregistry] at hid
      have hnormal := (Pass.Signed.of_reached pre.isNormal_root hreached).files f hf
      obtain ⟨entry, hentry, hpath⟩ := hsound.exists_entry hnormal hid
      rw [← hpath] at hpoints
      exact .inr (.inr ⟨entry, hentry, p, n, ⟨hreached, hs⟩, hpoints⟩)
    · -- The file that cannot be read was registered in this very step.
      have hid := Registry.idOf?_register_self p.registry path track
      rw [← hregistry] at hid
      obtain ⟨entry, hentry, rfl⟩ := hsound.exists_entry henters.isNormal hid
      exact .inr (.inl ⟨entry, hentry, reason, rfl, .inr ⟨p, track, ⟨hreached, hs⟩, henters⟩⟩)

/-- **Every error points at a real line.**  An error that has a line is that of a root which is not
    there (line 0 of no file), or it points at a line of a registered file: at the header of the
    innermost open loop, where the file ends before the loop does, else at the line read last.  A
    file that cannot be read is registered, is being entered, and has no line.  No other errors end
    a pass. -/
theorem error_points_at_line {pre : Preprocessor} {e : Error} (hr : pre.registry.Arises)
    (h : pre.process.2 = .error e) :
    (∀ n, e.line? = some n →
      (pre.source.find? pre.job.root = none ∧ e = .includeNotFound pre.job.root ⟨[], 0⟩ ∧ n = 0) ∨
      ∃ entry ∈ pre.process.1.registry.entries, ∃ p, pre.FailsIn p e ∧
        Pass.PointsAt pre.job pre.registry p e entry.path n) ∧
    (∀ file reason, e = .unreadable file reason →
      e.line? = none ∧ (∃ entry ∈ pre.process.1.registry.entries, entry.path = file) ∧
      pre.FailsEntering file e) ∧
    (∀ path, e ≠ .notDirectory path) ∧ (∀ key fault, e ≠ .unstorable key fault) ∧
    e ≠ .configuration := by
  rcases error_cases hr h with ⟨hroot, rfl⟩ | ⟨entry, hentry, reason, rfl, hfails⟩ |
    ⟨entry, hentry, p, n, hfails, hpoints⟩
  · refine ⟨?_, nofun, nofun, nofun, nofun⟩
    intro n hn
    exact .inl ⟨hroot, rfl, (Option.some.inj hn).symm⟩
  · refine ⟨nofun, ?_, nofun, nofun, nofun⟩
    rintro file reason' ⟨⟩
    exact ⟨rfl, ⟨entry, hentry, rfl⟩, hfails⟩
  · -- An error with a location is none of the others.
    have hloc := hpoints.location?_eq
    refine ⟨?_, ?_, ?_, ?_, ?_⟩
    · intro m hm
      rw [Error.line?, hloc, Option.map_some] at hm
      cases hm
      exact .inr ⟨entry, hentry, p, hfails, hpoints⟩
    · rintro file reason rfl
      cases hloc
    · rintro path rfl
      cases hloc
    · rintro key fault rfl
      cases hloc
    · rintro rfl
      cases hloc

/-- A loop that includes a file which ends before its own loop does. -/
def unclosedLoop : Preprocessor :=
  { nestedLoops with
    source := (Memory.ofList
      [(⟨"/main".toList⟩, .text "#for k, v in lights\n#include \"/part\"\n#endfor\n".toList),
       (⟨"/part".toList⟩, .text "int a;\n#for i in 1..2\nint b;\n".toList)]).source }

/-- The included file ends before its loop: the error points at line 2 of that file, though the line
    read last is line 3. -/
theorem error_points_at_line_unclosedLoop :
    unclosedLoop.process.2 = .error (.malformed .fileEndsInLoop ⟨"/part".toList, 2⟩) ∧
    ∃ entry ∈ unclosedLoop.process.1.registry.entries, ∃ p,
      unclosedLoop.FailsIn p (.malformed .fileEndsInLoop ⟨"/part".toList, 2⟩) ∧
      Pass.PointsAt unclosedLoop.job unclosedLoop.registry p
        (.malformed .fileEndsInLoop ⟨"/part".toList, 2⟩) entry.path 2 := by
  have stops : Pass.after unclosedLoop.job 6 (Pass.start unclosedLoop.job unclosedLoop.registry) =
      .stop ⟨_, .error (.malformed .fileEndsInLoop ⟨"/part".toList, 2⟩)⟩ := rfl
  have fails : unclosedLoop.process.2 = .error (.malformed .fileEndsInLoop ⟨"/part".toList, 2⟩) :=
    congrArg Outcome.result (Pass.process_of_after 6 stops)
  refine ⟨fails, ?_⟩
  rcases (error_points_at_line .fresh fails).1 2 rfl with ⟨_, hroot, _⟩ | hpoints
  · cases hroot
  · exact hpoints

end Preprocessor

end ShaderWeave
