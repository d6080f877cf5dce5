/-
  Line markers stay in sync.

  Flattened text is read back by its line markers (`Position.locate`): every line that was written
  for a line of a file is located at this line, at any depth of inclusion and in every iteration of
  a loop.

  The invariant joins the output and the cursor: as long as lines are read, the count that the
  markers give after all output is the line read last in the innermost file (`Synced`).  Whatever
  takes or writes an uneven number of lines writes a marker (`Writes.marked`), except the header of
  an empty loop, after which no line is read up to the marker at the loop's end (`Writes.silent`); a
  line that is read on its own is written as one line (`Writes.line`).

  For the last case a line must not break apart, so the names that its tokens stand for must be of
  one line (`Flat`), and the line must not look like a marker itself.
-/
import ShaderWeave.Proofs.Provenance

namespace ShaderWeave

open Text (OneLine)

namespace Pass

/-! ## No line breaks apart

  A piece is counted as one line only if it is one, so no line feed may get into what is written for
  a line.  It could come from four places: the line itself, the margin and the indentation in front
  of it, and the texts of its tokens.  Lines are split at line feeds; tokens are replaced by what
  names lead to, and names are made of collections, keys and ranges.  `Flat` is this, for a whole
  state. -/

/-- No line feed is in an indentation, in a range or in what an open loop binds. -/
structure Flat (p : Pass) : Prop where
  files : ∀ f ∈ p.files, OneLine f.indentation
  loops : ∀ l ∈ p.loops, OneLine l.collection ∧ ∀ key ∈ l.keys, OneLine key
  ranges : p.ranges.isOneLine = true

namespace Flat

variable {job : Job} {p q : Pass} {f f' : OpenFile} {outer : List OpenFile}

/-- What open loops bind. -/
theorem aliases (hp : Flat p) (hd : Disciplined p) : p.aliases.Holds OneLine := by
  rw [hd.aliases_eq]
  refine AliasTable.holds_ofScopes fun s hs => ?_
  obtain ⟨l, hl, rfl⟩ := List.mem_map.1 hs
  obtain ⟨hcollection, hkeys⟩ := hp.loops l hl
  unfold Loop.scope
  split
  · exact fun b hb => absurd hb List.not_mem_nil
  · next key more hk => exact Loop.oneLine_bindings hcollection (hkeys key (mem_of_eq_cons hk))

/-- What names mean. -/
theorem environment (hp : Flat p) (hd : Disciplined p) (hj : job.dictionary.isOneLine = true) :
    (p.environment job).IsOneLine := ⟨hp.aliases hd, hp.ranges, hj⟩

/-- The cursor of the innermost file moves; its indentation is the same. -/
theorem moved (hp : Flat p) (hf : p.files = f :: outer) (hq : q.files = f' :: outer)
    (hi : f'.indentation = f.indentation)
    (hl : ∀ l ∈ q.loops, OneLine l.collection ∧ ∀ key ∈ l.keys, OneLine key)
    (hr : q.ranges.isOneLine = true) : Flat q where
  files := by
    rw [hq]
    intro g hg
    rcases List.mem_cons.1 hg with rfl | hg
    · rw [hi]
      exact hp.files f (mem_of_eq_cons hf)
    · exact hp.files g (mem_of_mem_rest hf hg)
  loops := hl
  ranges := hr

/-- The innermost loop keeps its collection and gets no new keys. -/
theorem changed {l l' : Loop} {loops : List Loop} (hp : Flat p) (hf : p.files = f :: outer)
    (hq : q.files = f' :: outer) (hi : f'.indentation = f.indentation) (hl : p.loops = l :: loops)
    (hql : q.loops = l' :: loops) (hc : l'.collection = l.collection)
    (hk : ∀ key ∈ l'.keys, key ∈ l.keys) (hr : q.ranges = p.ranges) : Flat q := by
  have hloops := hp.loops
  rw [hl] at hloops
  refine hp.moved hf hq hi ?_ (by rw [hr]; exact hp.ranges)
  rw [hql]
  intro m hm
  rcases List.mem_cons.1 hm with rfl | hm
  · obtain ⟨hcollection, hkeys⟩ := hloops l List.mem_cons_self
    exact ⟨by rw [hc]; exact hcollection, fun key hkey => hkeys key (hk key hkey)⟩
  · exact hloops m (List.mem_cons_of_mem _ hm)

/-- A loop is opened over a dictionary that its header leads to. -/
theorem opened {line name resolved : Text} {header : LoopHeader} {ranges d : Dictionary} {l : Loop}
    (hp : Flat p) (hd : Disciplined p) (hj : job.dictionary.isOneLine = true)
    (hf : p.files = f :: outer) (hq : q.files = f' :: outer) (hi : f'.indentation = f.indentation)
    (hparse : Directive.parse line = .ok (.loop header))
    (hg : header.gather p.ranges = .ok (ranges, name))
    (hr : Environment.resolve? ⟨p.aliases, ranges, job.dictionary⟩ name = some resolved)
    (hv : Environment.dictionary? ⟨p.aliases, ranges, job.dictionary⟩ resolved = some d)
    (hql : q.loops = l :: p.loops) (hc : l.collection = resolved) (hk : l.keys = d.keys)
    (hqr : q.ranges = ranges) : Flat q := by
  have hheader : OneLine header.collection :=
    LoopHeader.oneLine_collection (Directive.header_of_parse hparse)
  obtain ⟨hranges, hname⟩ := LoopHeader.oneLine_gather hheader hp.ranges hg
  have henv : Environment.IsOneLine ⟨p.aliases, ranges, job.dictionary⟩ :=
    ⟨hp.aliases hd, hranges, hj⟩
  refine hp.moved hf hq hi ?_ (by rw [hqr]; exact hranges)
  rw [hql]
  intro m hm
  rcases List.mem_cons.1 hm with rfl | hm
  · rw [hc, hk]
    exact ⟨Environment.oneLine_of_resolve? henv hname hr,
      fun key => Dictionary.oneLine_of_mem_keys (Environment.isOneLine_of_dictionary? henv hv)⟩
  · exact hp.loops m hm

/-- A line without line feeds includes a file. -/
theorem entered {raw : Text} {new : OpenFile} (hp : Flat p) (hf : p.files = f :: outer)
    (hq : q.files = new :: f' :: outer) (hi : f'.indentation = f.indentation) (hraw : OneLine raw)
    (hnew : new.indentation = f.indentation ++ raw.margin) (hl : q.loops = p.loops)
    (hr : q.ranges = p.ranges) : Flat q := by
  have hread : Flat { p with files := f' :: outer } := hp.moved hf rfl hi hp.loops hp.ranges
  refine ⟨?_, by rw [hl]; exact hp.loops, by rw [hr]; exact hp.ranges⟩
  rw [hq]
  intro g hg
  rcases List.mem_cons.1 hg with rfl | hg
  · rw [hnew]
    have hparent := hp.files f (mem_of_eq_cons hf)
    exact Text.oneLine_append.2 ⟨hparent, Text.oneLine_margin hraw⟩
  · exact hread.files g hg

/-- Each transition is one of these moves. -/
theorem transition (hp : Flat p) (hd : Disciplined p) (hg : Grounded job p)
    (hj : job.dictionary.isOneLine = true) (h : Transition job p q) : Flat q := by
  cases h with
  | @leave f outer hf hu hl =>
    refine ⟨?_, by simpa using hp.loops, by simpa using hp.ranges⟩
    intro g hmem
    exact hp.files g (mem_of_mem_rest hf (by simpa using hmem))
  | @line f outer raw unread q hf hu he =>
    have hraw : OneLine raw := (hg.next_line hf hu).1.oneLine
    cases he with
    | skip => exact hp.moved hf rfl rfl hp.loops hp.ranges
    | deepen hl => exact hp.changed hf rfl rfl hl rfl rfl (fun _ => id) rfl
    | rise hl => exact hp.changed hf rfl rfl hl rfl rfl (fun _ => id) rfl
    | again hl hk =>
      refine hp.changed hf rfl rfl hl rfl rfl (fun key hkey => ?_) rfl
      rw [hk]
      exact List.mem_cons_of_mem _ hkey
    | close hl =>
      refine hp.moved hf rfl rfl (fun l' hl' => hp.loops l' ?_) hp.ranges
      rw [hl]
      exact List.mem_cons_of_mem _ hl'
    | version => exact hp.moved hf rfl rfl hp.loops hp.ranges
    | platform => exact hp.moved hf rfl rfl hp.loops hp.ranges
    | inclusion => exact hp.entered hf rfl rfl hraw rfl rfl rfl
    | openEmpty _ _ _ hparse hgather hr hv hk =>
      exact hp.opened hd hj hf rfl rfl hparse hgather hr hv rfl rfl hk.symm rfl
    | opens _ _ _ hparse hgather hr hv hk hl =>
      subst hl
      exact hp.opened hd hj hf rfl rfl hparse hgather hr hv rfl rfl hk.symm rfl
    | plain => exact hp.moved hf rfl rfl hp.loops hp.ranges

/-- No line feed gets into any of these, as long as none is in the dictionary. -/
theorem of_reached {registry : Registry} (hj : job.dictionary.isOneLine = true)
    (h : Reached job registry p) : Flat p := by
  refine h.induct (fun p hp => ?_) fun p q hreached hp h => ?_
  · obtain ⟨t, _, rfl⟩ := start_eq_next hp
    refine ⟨fun f hf => ?_, by simp, rfl⟩
    rw [List.mem_singleton.1 hf]
    exact List.not_mem_nil
  · exact hp.transition (Disciplined.of_reached hreached) (Grounded.of_reached hreached) hj h

end Flat

/-! ## The count follows the cursor

  Positions come from the text alone, the cursor from the state.  A step either writes nothing and
  reads nothing that counts, or writes one line for the one it reads, or ends what it writes with a
  marker that says where the cursor is. -/

/-- The count after all output, the newest piece first. -/
def counted (start : Position) (output : List Piece) : Position :=
  start.afterAll (Text.lines (Piece.renderAll output.reverse))

/-- The newest piece is counted last. -/
theorem counted_cons (start : Position) (piece : Piece) (output : List Piece) :
    counted start (piece :: output) =
      (counted start output).afterAll (Text.lines piece.render) := by
  have hone : Piece.renderAll [piece] = piece.render := List.append_nil _
  unfold counted
  rw [List.reverse_cons, Piece.lines_renderAll_append, Position.afterAll_append, hone]

/-- Every piece that stands for a line is one line, and the count comes to that line; the newest
    piece first. -/
def Aligned (start : Position) : List Piece → Prop
  | [] => True
  | piece :: output =>
    (∀ pos, piece.origin? = some pos →
      (counted start output).next = pos ∧ ∃ line, piece.IsLine line) ∧
      Aligned start output

/-- Pieces that stand for no line need not be aligned. -/
theorem aligned_append {start : Position} {pieces output : List Piece}
    (hn : ∀ piece ∈ pieces, piece.origin? = none) (h : Aligned start output) :
    Aligned start (pieces ++ output) := by
  induction pieces with
  | nil => exact h
  | cons piece pieces ih =>
    refine ⟨fun pos hpos => ?_, ih fun piece' hmem => hn piece' (List.mem_cons_of_mem _ hmem)⟩
    rw [hn piece List.mem_cons_self] at hpos
    cases hpos

/-- No line of the source is written as what looks like a marker. -/
def Unmarked (output : List Piece) : Prop :=
  ∀ f n text, .source f n text ∈ output → Piece.looksLikeMarker text = false

/-- Unless a line looks like a marker, the count is the line read last, as long as lines are
    read. -/
structure Synced (start : Position) (p : Pass) : Prop where
  aligned : Unmarked p.output → Aligned start p.output
  count : Unmarked p.output → p.Active →
    ∀ f ∈ p.files.head?, counted start p.output = ⟨f.id, f.line⟩

section Sync

variable {job : Job} {p q : Pass} {start : Position}

/-- Less output has no more lines that look like markers. -/
theorem Unmarked.mono {a b : List Piece} (h : Unmarked b) (hab : ∀ piece ∈ a, piece ∈ b) :
    Unmarked a :=
  fun f n text hmem => h f n text (hab _ hmem)

/-- A piece that shows a line is written as one line. -/
theorem exists_isLine {indentation raw line : Text} {piece : Piece} {output : List Piece}
    (hs : Shows job indentation raw line piece) (hi : OneLine indentation) (hraw : OneLine raw)
    (hline : OneLine line) (hu : Unmarked (piece :: output)) : ∃ l, piece.IsLine l := by
  cases hs with
  | source =>
    refine ⟨_, rfl, ?_, hu _ _ _ List.mem_cons_self⟩
    exact Text.oneLine_append.2 ⟨Text.oneLine_append.2 ⟨hi, Text.oneLine_margin hraw⟩, hline⟩
  | version => exact ⟨_, Piece.isLine_version _ _ _⟩

/-- Output is only added to. -/
theorem Unmarked.of_writes (hu : Unmarked q.output) (h : Writes job p q) : Unmarked p.output := by
  refine hu.mono fun piece hmem => ?_
  cases h with
  | marked pieces hf ho hn =>
    rw [ho]
    exact List.mem_cons_of_mem _ (List.mem_append_right _ hmem)
  | line hf hu hq ha ho hpos he hs =>
    rw [ho]
    exact List.mem_cons_of_mem _ hmem
  | silent pieces ho hn hq =>
    rw [ho]
    exact List.mem_append_right _ hmem

/-- Each of the three ways of writing keeps the count with the cursor. -/
theorem Synced.writes (hp : Synced start p) (hd : Disciplined p) (hflat : Flat p)
    (hground : Grounded job p) (hground' : Grounded job q) (hj : job.dictionary.isOneLine = true)
    (hpaths : ∀ f ∈ job.source.files, OneLine f.1.text) (h : Writes job p q) : Synced start q := by
  have older : Unmarked q.output → Unmarked p.output := fun hu => hu.of_writes h
  cases h with
  | @marked f outer pieces hf ho hn =>
    -- A path with a line feed would be a marker of two lines.
    have hpath : OneLine f.path.text := by
      obtain ⟨t, ht, _⟩ := hground'.files f (mem_of_eq_cons hf)
      exact Source.oneLine_of_find? hpaths ht
    refine ⟨fun hu => ?_, fun _ _ g hg => ?_⟩
    · have hold := aligned_append hn (hp.aligned (older hu))
      rw [ho]
      exact ⟨fun pos hpos => (by cases hpos), hold⟩
    · -- The marker is the last piece, and it names the line read last.
      rw [hf] at hg
      cases hg
      rw [ho, counted_cons]
      exact Position.afterAll_marker _ _ _ _ hpath
  | @line f outer raw unread line piece hf hunread hq ha ho hpos he hs =>
    have hmem : f ∈ p.files := mem_of_eq_cons hf
    -- The line that is written is one line, since neither the file's nor what its tokens mean has a
    -- line feed.
    have hraw : OneLine raw := (hground.next_line hf hunread).1.oneLine
    have hline : OneLine line :=
      Environment.oneLine_of_expandLine (hflat.environment hd hj) (Text.oneLine_content hraw) he
    have hisLine : Unmarked q.output → ∃ l, piece.IsLine l := by
      intro hu
      rw [ho] at hu
      exact exists_isLine hs (hflat.files f hmem) hraw hline hu
    have hcount : Unmarked q.output → (counted start p.output).next = ⟨f.id, f.line + 1⟩ := by
      intro hu
      rw [hp.count (older hu) ha f (by rw [hf]; rfl)]
      rfl
    refine ⟨fun hu => ?_, fun hu _ g hg => ?_⟩
    · have hold := hp.aligned (older hu)
      have hnew := hcount hu
      have hl := hisLine hu
      rw [ho]
      refine ⟨fun pos hpos' => ?_, hold⟩
      rw [hpos] at hpos'
      cases hpos'
      exact ⟨hnew, hl⟩
    · -- One line was read and one was written.
      obtain ⟨l, hl⟩ := hisLine hu
      rw [hq] at hg
      cases hg
      rw [ho, counted_cons, Position.afterAll_line _ hl]
      exact hcount hu
  | silent pieces ho hn hq =>
    refine ⟨fun hu => ?_, fun _ ha g hg => ?_⟩
    · have hold := aligned_append hn (hp.aligned (older hu))
      rw [ho]
      exact hold
    · -- No file is open, or lines are skipped: there is nothing to say.
      rcases hq with hq | hq
      · rw [hq] at hg
        cases hg
      · exact absurd ha hq

/-- **In every state a pass gets to, the count follows the cursor.** -/
theorem Synced.of_reached {registry : Registry} (hj : job.dictionary.isOneLine = true)
    (hpaths : ∀ f ∈ job.source.files, OneLine f.1.text) (h : Reached job registry p) :
    Synced ⟨(registry.register job.root true).2, 0⟩ p := by
  refine h.induct (fun p hp => ?_) fun p q hreached hp h => ?_
  · obtain ⟨t, _, rfl⟩ := start_eq_next hp
    refine ⟨fun _ => trivial, fun _ _ f hf => ?_⟩
    cases hf
    rfl
  · have hground := Grounded.of_reached hreached
    have hd := Disciplined.of_reached hreached
    have hground' := hground.transition (hd.transition h).toNested h
    exact hp.writes hd (Flat.of_reached hj hreached) hground hground' hj hpaths
      (writes_of_transition h)

/-- The number of the root file is the one it was given at the start. -/
theorem idOf?_root_of_reached {registry : Registry} (h : Reached job registry p) :
    p.registry.idOf? job.root = some (registry.register job.root true).2 := by
  refine h.induct (fun p hp => ?_) fun p q _ hp h => idOf?_of_transition h hp
  obtain ⟨t, _, rfl⟩ := start_eq_next hp
  exact Registry.idOf?_register_self _ _ _

/-- Where a piece stands in aligned output. -/
theorem Aligned.origin {older newer : List Piece} {piece : Piece} {pos : Position}
    (h : Aligned start (newer ++ piece :: older)) (hpos : piece.origin? = some pos) :
    (counted start older).next = pos ∧ ∃ line, piece.IsLine line := by
  induction newer with
  | nil => exact h.1 pos hpos
  | cons _ newer ih => exact ih h.2

end Sync
end Pass

/-- **Line markers stay in sync.**  No stored path and no key or string of the dictionary has a line
    feed, and no line looks like a marker once its tokens are replaced.  Then every line that a pass
    writes for a line of a file stands for that line, and reading the markers from the start of the
    root file locates it there. -/
theorem Preprocessor.locate_eq_origin (pre : Preprocessor) {pieces : List Piece}
    (hpaths : ∀ f ∈ pre.source.files, OneLine f.1.text)
    (hdictionary : pre.dictionary.isOneLine = true) (hok : pre.process.2 = .ok pieces)
    (hunmarked : ∀ f n text, .source f n text ∈ pieces → Piece.looksLikeMarker text = false) :
    ∃ root, pre.process.1.registry.idOf? pre.job.root = some root ∧
      ∀ before piece after pos, pieces = before ++ piece :: after → piece.origin? = some pos →
        Pass.StandsFor pre.job pre.process.1.registry piece pos ∧
        ∃ line, Text.lines piece.render = [line] ∧
          (Text.lines (Piece.renderAll pieces))[(Text.lines (Piece.renderAll before)).length]? =
            some line ∧
          (Position.locate ⟨root, 0⟩ (Text.lines (Piece.renderAll pieces)))[
            (Text.lines (Piece.renderAll before)).length]? = some (some pos) := by
  obtain ⟨p, hreached, houtput, hregistry⟩ := Pass.exists_reached_of_process_eq_ok hok
  have hroot := Pass.idOf?_root_of_reached hreached
  have hattributed := Pass.Attributed.of_reached hreached
  have hsynced := Pass.Synced.of_reached hdictionary hpaths hreached
  have hregistry : p.registry = pre.process.1.registry := hregistry
  rw [hregistry] at hroot
  refine ⟨_, hroot, ?_⟩
  intro before piece after pos hsplit hpos
  -- The output of the last state, newest piece first, splits at the same piece.
  have hout : p.output = after.reverse ++ piece :: before.reverse := by
    have h := congrArg List.reverse (houtput.trans hsplit)
    rw [List.reverse_reverse, List.reverse_append, List.reverse_cons, List.append_assoc] at h
    exact h
  have hclean : Pass.Unmarked p.output := by
    intro f n text hmem
    exact hunmarked f n text (by rw [← houtput]; exact List.mem_reverse.2 hmem)
  have haligned := hsynced.aligned hclean
  rw [hout] at haligned
  obtain ⟨hcount, line, hline⟩ := haligned.origin hpos
  have hstands := hattributed piece (by rw [hout]; simp) pos hpos
  rw [hregistry] at hstands
  refine ⟨hstands, line.chop, hline.lines_eq, ?_⟩
  -- The lines of the text fall into those before the piece, its one line, and those after it.
  have hlines : Text.lines (Piece.renderAll pieces) = Text.lines (Piece.renderAll before) ++
      line.chop :: Text.lines (Piece.renderAll after) := by
    have hsingle : Piece.renderAll (piece :: after) = piece.render ++ Piece.renderAll after := rfl
    rw [hsplit, Piece.lines_renderAll_append, hsingle, hline.render_eq, List.append_assoc]
    rw [show ['\n'] ++ Piece.renderAll after = '\n' :: Piece.renderAll after from rfl,
      Text.lines_cons hline.oneLine]
  rw [hlines]
  constructor
  · rw [List.getElem?_append_right (Nat.le_refl _), Nat.sub_self]
    rfl
  · rw [Position.getElem?_locate _ _ _ hline.unmarked]
    rw [Pass.counted, List.reverse_reverse] at hcount
    rw [hcount]

/-- A loop over two lights that includes a line for each, indented. -/
def Preprocessor.lights : Preprocessor where
  filename := ⟨"/main".toList⟩
  dictionary := ⟨[("lights".toList, .dictionary [("sun".toList, .int 1), ("moon".toList, .int 2)])]⟩
  config := { context := some ⟨3, 3, .core⟩, isolateMarkers := true }
  source := (Memory.ofList
    [(⟨"/main".toList⟩, .text
        "#version __CONTEXT__\n#for k, v in lights\n\t#include \"/part\"\n#endfor\n".toList),
     (⟨"/part".toList⟩, .text "#\x7bk\x7d = #\x7bv\x7d;\n".toList)]).source
  registry := {}

/-- What is written up to the line of the second light. -/
def Preprocessor.lightsBefore : List Piece :=
  [.version 0 1 ⟨3, 3, .core⟩, .loopStart "lights".toList "sun".toList,
   .marker true 2 0 ⟨"/main".toList⟩, .marker true 0 1 ⟨"/part".toList⟩,
   .source 1 1 "\tsun = 1;".toList, .marker true 3 0 ⟨"/main".toList⟩,
   .loopKey "lights".toList "moon".toList, .marker true 2 0 ⟨"/main".toList⟩,
   .marker true 0 1 ⟨"/part".toList⟩]

/-- What is written behind the line of the second light. -/
def Preprocessor.lightsAfter : List Piece :=
  [.marker true 3 0 ⟨"/main".toList⟩, .loopEnd "lights".toList, .marker true 4 0 ⟨"/main".toList⟩]

/-- All that is written. -/
def Preprocessor.lightsPieces : List Piece :=
  lightsBefore ++ .source 1 1 "\tmoon = 2;".toList :: lightsAfter

/-- The line of the second light, written in the second turn of a loop and from an included file, is
    located at line 1 of that file. -/
theorem Preprocessor.locate_eq_origin_lights :
    (∀ f ∈ lights.source.files, OneLine f.1.text) ∧ lights.dictionary.isOneLine = true ∧
    lights.process.2 = .ok lightsPieces ∧
    (∀ f n text, .source f n text ∈ lightsPieces → Piece.looksLikeMarker text = false) ∧
    ∃ root, lights.process.1.registry.idOf? lights.job.root = some root ∧
      (Position.locate ⟨root, 0⟩ (Text.lines (Piece.renderAll lightsPieces)))[
        (Text.lines (Piece.renderAll lightsBefore)).length]? = some (some ⟨1, 1⟩) := by
  have hpaths : ∀ f ∈ lights.source.files, OneLine f.1.text := by decide
  have hdictionary : lights.dictionary.isOneLine = true := by decide
  have ends : Pass.after lights.job 12 (Pass.start lights.job lights.registry) =
      .stop ⟨_, .ok lightsPieces⟩ := rfl
  have hok : lights.process.2 = .ok lightsPieces :=
    congrArg Outcome.result (Pass.process_of_after 12 ends)
  have hunmarked : ∀ f n text, .source f n text ∈ lightsPieces →
      Piece.looksLikeMarker text = false := by
    have hall : ∀ piece ∈ lightsPieces,
        (match piece with | .source _ _ text => Piece.looksLikeMarker text | _ => false) =
          false := by
      decide
    exact fun f n text hmem => hall _ hmem
  obtain ⟨root, hroot, h⟩ := locate_eq_origin lights hpaths hdictionary hok hunmarked
  obtain ⟨_, line, _, _, hlocate⟩ := h lightsBefore _ lightsAfter ⟨1, 1⟩ rfl rfl
  exact ⟨hpaths, hdictionary, hok, hunmarked, root, hroot, hlocate⟩

end ShaderWeave
