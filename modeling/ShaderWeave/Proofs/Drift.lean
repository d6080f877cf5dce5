/-
  Lines that break apart.

  A line is written as one piece whatever its tokens are replaced by, and no marker is written
  behind it.  So where a token brings line feeds, the line becomes several lines of output, and the
  count that the markers give runs ahead of the file from there on, up to the next marker.

  By how much is exact: by the line feeds in all lines written since the last marker
  (`Piece.drift`).  The invariant `Ahead` says so of every state in which lines are read.  It is
  kept by the same three ways of writing as `Synced`, of which it is the general case: a marker sets
  the count, and takes the drift back; a line is as many lines of output as it has line feeds, and
  one (`Text.length_lines`).

  So a line is located where it comes from just where no line since the last marker has a line feed
  in it.
-/
import Mathlib.Algebra.GroupWithZero.Nat
import ShaderWeave.Proofs.Markers
import ShaderWeave.Proofs.Visits

namespace ShaderWeave

open Text (OneLine)

/-! ## Lines of output

  A line that is written as a piece ends in one line feed, and may have others in it.  What the
  decoder makes of it are that many lines, all of which it counts unless one looks like a marker. -/

/-- An ended text has one line for each line feed. -/
theorem Text.length_lines (t : Text) : (lines (t ++ ['\n'])).length = t.count '\n' + 1 := by
  induction hn : t.length using Nat.strongRecOn generalizing t with
  | ind n ih =>
    by_cases hmem : '\n' ∈ t
    · -- The first line ends at the first line feed, and what follows it is shorter.
      obtain ⟨first, rest, rfl, hfirst⟩ := List.eq_append_cons_of_mem hmem
      have hlength : rest.length < n := by
        rw [← hn, List.length_append, List.length_cons]
        omega
      have hcount : (first ++ '\n' :: rest).count '\n' = rest.count '\n' + 1 := by
        rw [List.count_append, List.count_eq_zero.2 hfirst, List.count_cons_self, Nat.zero_add]
      rw [List.append_assoc, List.cons_append, lines_cons hfirst, List.length_cons,
        ih rest.length hlength rest rfl, hcount]
    · rw [lines_cons hmem, List.count_eq_zero.2 hmem]
      rfl

namespace Position

/-- Lines that are no markers are counted. -/
theorem afterAll_of_unmarked {lines : List Text}
    (h : ∀ line ∈ lines, Piece.looksLikeMarker line = false) (p : Position) :
    p.afterAll lines = ⟨p.file, p.line + lines.length⟩ := by
  induction lines generalizing p with
  | nil => rfl
  | cons line lines ih =>
    have hafter : p.after line = p.next := by
      rw [after, ofMarker?_eq_none (h line List.mem_cons_self), Option.getD_none]
    show (p.after line).afterAll lines = _
    rw [hafter, ih fun l hl => h l (List.mem_cons_of_mem _ hl), next, List.length_cons]
    simp only [Position.mk.injEq, true_and]
    omega

end Position

namespace Piece

/-- The line feeds in a line that was written as a piece. -/
def surplus : Piece → Nat
  | .source _ _ text => text.count '\n'
  | _ => 0

/-- What was written since the last marker; the newest piece first. -/
def sinceMarker (output : List Piece) : List Piece := output.takeWhile (!·.isMarker)

/-- The line feeds in the lines that were written since the last marker. -/
def drift (output : List Piece) : Nat := ((sinceMarker output).map surplus).sum

/-- A piece that is no marker adds its own line feeds. -/
theorem drift_cons {piece : Piece} (h : piece.isMarker = false) (output : List Piece) :
    drift (piece :: output) = piece.surplus + drift output := by
  have hsince : sinceMarker (piece :: output) = piece :: sinceMarker output :=
    List.takeWhile_cons_of_pos (by rw [h]; rfl)
  rw [drift, hsince, List.map_cons, List.sum_cons]
  rfl

/-- There is no drift just where no line since the last marker breaks apart. -/
theorem drift_eq_zero_iff {output : List Piece} :
    drift output = 0 ↔ ∀ f n text, .source f n text ∈ sinceMarker output → OneLine text := by
  rw [drift, List.sum_eq_zero_iff_forall_eq_nat]
  constructor
  · intro h f n text hmem
    exact List.count_eq_zero.1 (h _ (List.mem_map_of_mem hmem))
  · intro h k hk
    obtain ⟨piece, hpiece, rfl⟩ := List.mem_map.1 hk
    cases piece with
    | source f n text => exact List.count_eq_zero.2 (h f n text hpiece)
    | _ => rfl

/-- Whether no line that a line of a file breaks into looks like a marker. -/
def isPlain : Piece → Bool
  | .source _ _ text => (Text.lines (text ++ ['\n'])).all fun line => !looksLikeMarker line
  | _ => true

/-- A piece that stands for a line is one line of output, and one more for each line feed in it. -/
theorem lines_of_origin {piece : Piece} {pos : Position} (hpos : piece.origin? = some pos)
    (hp : piece.isPlain = true) :
    piece.isMarker = false ∧ (Text.lines piece.render).length = piece.surplus + 1 ∧
      ∀ line ∈ Text.lines piece.render, looksLikeMarker line = false := by
  cases piece with
  | source f n text =>
    refine ⟨rfl, Text.length_lines text, fun line hline => ?_⟩
    have hline := List.all_eq_true.1 hp line hline
    rwa [Bool.not_eq_true'] at hline
  | version f n context =>
    have hline := isLine_version f n context
    rw [hline.lines_eq]
    exact ⟨rfl, rfl, List.forall_mem_singleton.2 (Position.looksLikeMarker_chop hline.unmarked)⟩
  | _ => cases hpos

end Piece

namespace Pass

/-! ## The count and the drift

  The output grows at one end only, so the pieces that are there stay where they are, each in front
  of the same older ones.  That is why the invariant speaks of suffixes of the output: what it says
  of a piece was settled when the piece was written. -/

/-- A piece that stands for a line was written before pieces that stand for none. -/
theorem suffix_of_origin {piece : Piece} {older pieces output : List Piece} {pos : Position}
    (hn : ∀ piece ∈ pieces, piece.origin? = none) (hpos : piece.origin? = some pos)
    (h : piece :: older <:+ pieces ++ output) : piece :: older <:+ output := by
  induction pieces with
  | nil => exact h
  | cons newest pieces ih =>
    rcases List.suffix_cons_iff.1 h with h | h
    · cases h
      rw [hn piece List.mem_cons_self] at hpos
      cases hpos
    · exact ih (fun piece' hmem => hn piece' (List.mem_cons_of_mem _ hmem)) h

/-- The count is ahead of the line read last by the drift, as long as lines are read; and so it was
    for every piece that stands for a line. -/
structure Ahead (start : Position) (p : Pass) : Prop where
  count : (∀ piece ∈ p.output, piece.isPlain = true) → p.Active →
    ∀ f ∈ p.files.head?, counted start p.output = ⟨f.id, f.line + Piece.drift p.output⟩
  origins : (∀ piece ∈ p.output, piece.isPlain = true) →
    ∀ piece older pos, piece :: older <:+ p.output → piece.origin? = some pos →
      (counted start older).next = ⟨pos.file, pos.line + Piece.drift older⟩

section Ahead

variable {job : Job} {p q : Pass} {start : Position}

/-- Each of the three ways of writing keeps the count ahead by the drift. -/
theorem Ahead.writes (hp : Ahead start p) (hground : Grounded job q)
    (hpaths : ∀ f ∈ job.source.files, OneLine f.1.text) (h : Writes job p q) : Ahead start q := by
  cases h with
  | @marked f outer pieces hf ho hn =>
    have hpath : OneLine f.path.text := by
      obtain ⟨t, ht, _⟩ := hground.files f (mem_of_eq_cons hf)
      exact Source.oneLine_of_find? hpaths ht
    refine ⟨fun _ _ g hg => ?_, fun hplain piece older pos hsuffix hpos => ?_⟩
    · rw [hf] at hg
      cases hg
      -- Behind a marker nothing has been written, so there is no drift.
      rw [ho, counted_cons]
      exact Position.afterAll_marker _ _ _ _ hpath
    · rw [ho] at hplain hsuffix
      have hnew : ∀ piece ∈ marker job f :: pieces, piece.origin? = none :=
        List.forall_mem_cons.2 ⟨rfl, hn⟩
      have hold : ∀ piece ∈ p.output, piece.isPlain = true := fun piece hmem =>
        hplain piece (List.mem_cons_of_mem _ (List.mem_append_right _ hmem))
      exact hp.origins hold piece older pos (suffix_of_origin hnew hpos hsuffix) hpos
  | @line f outer raw unread line piece hf hu hq ha ho hpos he hs =>
    have hold : (∀ piece ∈ q.output, piece.isPlain = true) →
        ∀ piece ∈ p.output, piece.isPlain = true := by
      rw [ho]
      exact fun hplain => (List.forall_mem_cons.1 hplain).2
    have hcount : (∀ piece ∈ q.output, piece.isPlain = true) →
        counted start p.output = ⟨f.id, f.line + Piece.drift p.output⟩ := by
      intro hplain
      exact hp.count (hold hplain) ha f (by rw [hf]; rfl)
    refine ⟨fun hplain _ g hg => ?_, fun hplain piece' older pos hsuffix hpos' => ?_⟩
    · -- One line was read, and as many were written as the piece has line feeds, and one.
      have hpiece : piece.isPlain = true := hplain piece (by rw [ho]; exact List.mem_cons_self)
      obtain ⟨hmarker, hlength, hlines⟩ := Piece.lines_of_origin hpos hpiece
      rw [hq] at hg
      cases hg
      rw [ho, counted_cons, Position.afterAll_of_unmarked hlines, hlength, hcount hplain,
        Piece.drift_cons hmarker]
      simp only [OpenFile.advance, Position.mk.injEq, true_and]
      omega
    · rw [ho] at hsuffix
      rcases List.suffix_cons_iff.1 hsuffix with heq | hsuffix
      · -- The new piece is counted from where the count stood before it.
        cases heq
        rw [hpos] at hpos'
        cases hpos'
        rw [hcount hplain, Position.next]
        simp only [Position.mk.injEq, true_and]
        omega
      · exact hp.origins (hold hplain) piece' older pos hsuffix hpos'
  | silent pieces ho hn hq =>
    refine ⟨fun _ ha g hg => ?_, fun hplain piece older pos hsuffix hpos => ?_⟩
    · rcases hq with hq | hq
      · rw [hq] at hg
        cases hg
      · exact absurd ha hq
    · rw [ho] at hplain hsuffix
      have hold : ∀ piece ∈ p.output, piece.isPlain = true := fun piece hmem =>
        hplain piece (List.mem_append_right _ hmem)
      exact hp.origins hold piece older pos (suffix_of_origin hn hpos hsuffix) hpos

/-- **In every state a pass gets to, the count is ahead by the drift.** -/
theorem Ahead.of_reached {registry : Registry} (hpaths : ∀ f ∈ job.source.files, OneLine f.1.text)
    (h : Reached job registry p) : Ahead ⟨(registry.register job.root true).2, 0⟩ p := by
  refine h.induct (fun p hp => ?_) fun p q hreached hp h => ?_
  · obtain ⟨t, _, rfl⟩ := start_eq_next hp
    refine ⟨fun _ _ f hf => ?_, fun _ piece older pos hsuffix => ?_⟩
    · cases hf
      rfl
    · exact absurd (List.suffix_nil.1 hsuffix) (List.cons_ne_nil _ _)
  · have hd := (Disciplined.of_reached hreached).transition h
    have hground := (Grounded.of_reached hreached).transition hd.toNested h
    exact hp.writes hground hpaths (writes_of_transition h)

end Ahead
end Pass

/-- **A line is located as far behind its place as the lines since the last marker break apart.**
    No stored path has a line feed, and no line, nor any part of a line that breaks apart, looks
    like a marker.  Then the first output line of every piece that stands for a line of a file is
    counted to be the line of that file that is later by the drift.  It is located where it comes
    from just where no line written since the last marker has a line feed in it. -/
theorem Preprocessor.locate_eq_origin_iff (pre : Preprocessor) {pieces : List Piece}
    (hpaths : ∀ f ∈ pre.source.files, OneLine f.1.text) (hok : pre.process.2 = .ok pieces)
    (hplain : ∀ piece ∈ pieces, piece.isPlain = true) :
    ∃ root, pre.process.1.registry.idOf? pre.job.root = some root ∧
      ∀ before piece after pos, pieces = before ++ piece :: after → piece.origin? = some pos →
        Pass.StandsFor pre.job pre.process.1.registry piece pos ∧
        (Text.lines (Piece.renderAll pieces))[(Text.lines (Piece.renderAll before)).length]? =
          (Text.lines piece.render).head? ∧
        (Position.locate ⟨root, 0⟩ (Text.lines (Piece.renderAll pieces)))[
          (Text.lines (Piece.renderAll before)).length]? =
            some (some ⟨pos.file, pos.line + Piece.drift before.reverse⟩) ∧
        ((Position.locate ⟨root, 0⟩ (Text.lines (Piece.renderAll pieces)))[
            (Text.lines (Piece.renderAll before)).length]? = some (some pos) ↔
          ∀ f n text, .source f n text ∈ Piece.sinceMarker before.reverse → OneLine text) := by
  obtain ⟨p, hreached, houtput, hregistry⟩ := Pass.exists_reached_of_process_eq_ok hok
  have hroot := Pass.idOf?_root_of_reached hreached
  have hattributed := Pass.Attributed.of_reached hreached
  have hahead := Pass.Ahead.of_reached hpaths hreached
  have hregistry : p.registry = pre.process.1.registry := hregistry
  rw [hregistry] at hroot
  refine ⟨_, hroot, ?_⟩
  intro before piece after pos hsplit hpos
  have hout : p.output = after.reverse ++ piece :: before.reverse := by
    have h := congrArg List.reverse (houtput.trans hsplit)
    rw [List.reverse_reverse, List.reverse_append, List.reverse_cons, List.append_assoc] at h
    exact h
  have hclean : ∀ piece ∈ p.output, piece.isPlain = true := by
    intro piece hmem
    exact hplain piece (by rw [← houtput]; exact List.mem_reverse.2 hmem)
  have hpiece : piece ∈ p.output := by
    rw [hout]
    exact List.mem_append_right _ List.mem_cons_self
  have hstands := hattributed piece hpiece pos hpos
  rw [hregistry] at hstands
  have hcount := hahead.origins hclean piece before.reverse pos ⟨after.reverse, hout.symm⟩ hpos
  rw [Pass.counted, List.reverse_reverse] at hcount
  -- The piece is at least one line, and its first line is no marker.
  obtain ⟨_, hlength, hunmarked⟩ := Piece.lines_of_origin hpos (hclean piece hpiece)
  obtain ⟨line, rest, hlines⟩ := List.exists_cons_of_length_eq_add_one hlength
  have hall : Text.lines (Piece.renderAll pieces) = Text.lines (Piece.renderAll before) ++
      line :: (rest ++ Text.lines (Piece.renderAll after)) := by
    have hone : Piece.renderAll [piece] = piece.render := List.append_nil _
    have hfirst : Text.lines (Piece.renderAll (piece :: after)) =
        Text.lines (Piece.renderAll [piece]) ++ Text.lines (Piece.renderAll after) :=
      Piece.lines_renderAll_append [piece] after
    rw [hsplit, Piece.lines_renderAll_append, hfirst, hone, hlines, List.cons_append]
  have hlocate := Position.getElem?_locate_append ⟨(pre.registry.register pre.job.root true).2, 0⟩
    (Text.lines (Piece.renderAll before)) (rest ++ Text.lines (Piece.renderAll after))
    (hunmarked line (by rw [hlines]; exact List.mem_cons_self))
  rw [hcount] at hlocate
  rw [hall, hlocate]
  refine ⟨hstands, ?_, rfl, ?_⟩
  · rw [List.getElem?_append_right (Nat.le_refl _), Nat.sub_self, hlines]
    rfl
  · rw [← Piece.drift_eq_zero_iff, Option.some_inj, Option.some_inj]
    cases pos
    simp

/-- A file whose token `s` stands for two lines. -/
def Preprocessor.twoLineValue (main : Text) : Preprocessor where
  filename := ⟨"/main".toList⟩
  dictionary := ⟨[("s".toList, .string "x\ny".toList)]⟩
  config := {}
  source := (Memory.ofList [(⟨"/main".toList⟩, .text main)]).source
  registry := {}

/-- A line that breaks apart, a line behind it, and a line behind the marker of a loop. -/
def Preprocessor.brokenThenLoop : Preprocessor :=
  twoLineValue "#\x7bs\x7d\nint a;\n#for i in 1..0\n#endfor\nint b;\n".toList

/-- What is written for the loop. -/
def Preprocessor.brokenLoopPieces : List Piece :=
  [.loopEmpty, .loopEnd "(Range 1 to 0)".toList, .marker false 4 0 ⟨"/main".toList⟩]

/-- All that is written. -/
def Preprocessor.brokenThenLoopPieces : List Piece :=
  [.source 0 1 "x\ny".toList, .source 0 2 "int a;".toList] ++ brokenLoopPieces ++
    [.source 0 5 "int b;".toList]

/-- The drift of the first line is seen in the second one, and is gone behind the loop's marker. -/
theorem Preprocessor.locate_eq_origin_iff_brokenThenLoop :
    (∀ f ∈ brokenThenLoop.source.files, OneLine f.1.text) ∧
    brokenThenLoop.process.2 = .ok brokenThenLoopPieces ∧
    (∀ piece ∈ brokenThenLoopPieces, piece.isPlain = true) ∧
    ∃ root, brokenThenLoop.process.1.registry.idOf? brokenThenLoop.job.root = some root ∧
      (Position.locate ⟨root, 0⟩ (Text.lines (Piece.renderAll brokenThenLoopPieces)))[2]? =
        some (some ⟨0, 3⟩) ∧
      (Position.locate ⟨root, 0⟩ (Text.lines (Piece.renderAll brokenThenLoopPieces)))[7]? =
        some (some ⟨0, 5⟩) := by
  have hpaths : ∀ f ∈ brokenThenLoop.source.files, OneLine f.1.text := by decide
  have ends : Pass.after brokenThenLoop.job 7
      (Pass.start brokenThenLoop.job brokenThenLoop.registry) =
      .stop ⟨_, .ok brokenThenLoopPieces⟩ := rfl
  have hok : brokenThenLoop.process.2 = .ok brokenThenLoopPieces :=
    congrArg Outcome.result (Pass.process_of_after 7 ends)
  have hplain : ∀ piece ∈ brokenThenLoopPieces, piece.isPlain = true := by decide
  obtain ⟨root, hroot, h⟩ := locate_eq_origin_iff brokenThenLoop hpaths hok hplain
  -- The line behind the broken one is one line too late, the one behind the marker is where it
  -- should be.
  obtain ⟨_, _, hbroken, _⟩ := h [.source 0 1 "x\ny".toList] (.source 0 2 "int a;".toList)
    (brokenLoopPieces ++ [.source 0 5 "int b;".toList]) ⟨0, 2⟩ rfl rfl
  obtain ⟨_, _, _, hlast⟩ :=
    h ([.source 0 1 "x\ny".toList, .source 0 2 "int a;".toList] ++ brokenLoopPieces)
      (.source 0 5 "int b;".toList) [] ⟨0, 5⟩ rfl rfl
  exact ⟨hpaths, hok, hplain, root, hroot, hbroken,
    hlast.2 fun f n text hmem => absurd hmem List.not_mem_nil⟩

/-- A line that breaks apart, and a line behind it. -/
def Preprocessor.brokenLine : Preprocessor := twoLineValue "#\x7bs\x7d\nint a;\n".toList

/-- No marker is written behind a line that breaks apart: line 2 is counted as line 3. -/
theorem Preprocessor.locate_brokenLine :
    brokenLine.process.2 = .ok [.source 0 1 "x\ny".toList, .source 0 2 "int a;".toList] ∧
    brokenLine.process.1.registry.idOf? brokenLine.job.root = some 0 ∧
    (∀ piece ∈ [Piece.source 0 1 "x\ny".toList, .source 0 2 "int a;".toList],
      piece.isPlain = true) ∧
    Text.lines (Piece.renderAll [.source 0 1 "x\ny".toList, .source 0 2 "int a;".toList]) =
      ["x".toList, "y".toList, "int a;".toList] ∧
    Position.locate ⟨0, 0⟩ ["x".toList, "y".toList, "int a;".toList] =
      [some ⟨0, 1⟩, some ⟨0, 2⟩, some ⟨0, 3⟩] := by
  have ends : Pass.after brokenLine.job 4 (Pass.start brokenLine.job brokenLine.registry) =
      .stop ⟨_, .ok [.source 0 1 "x\ny".toList, .source 0 2 "int a;".toList]⟩ := rfl
  have hprocess := Pass.process_of_after 4 ends
  refine ⟨congrArg Outcome.result hprocess, ?_, by decide, by decide, by decide⟩
  show (Pass.process brokenLine.job brokenLine.registry).registry.idOf? brokenLine.job.root = some 0
  rw [hprocess]
  rfl

end ShaderWeave
