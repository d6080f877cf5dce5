/-
  Including a file equals writing its lines in place.

  Two passes are compared: one over a file with an include, the other over the same file with the
  included lines in the place of the include, each behind the margin of the include.  The first
  opens a file where the second reads on, so the two go with different files, line numbers and
  depths; and the first skips one line in an empty loop where the second skips many.

  The proof is a simulation: `Abreast` relates the open files and loops of the two passes, `InStep`
  their states.  A file of the first pass faces the same file of the second; the included file,
  which stands on the including one in the first pass, faces the including one in the second.  A
  step of the first pass is matched by none, one or many of the second:

    * a line that both read does the same in both (`Facing.effect`, one case for each effect of a
      line);
    * entering the included file, and leaving it, is nothing in the second pass;
    * under an empty loop the lines in place are skipped, because they match up as brackets
      (`leads_skip`).
-/
import Mathlib.Data.List.Forall2
import ShaderWeave.Proofs.Replay
import ShaderWeave.Proofs.Splicing

namespace ShaderWeave

/-- The texts of all pieces but the markers. -/
def Piece.unmarked (pieces : List Piece) : List Text :=
  (pieces.filter fun piece => !piece.isMarker).map render

/-- A marker more in each output, whatever it says, is not seen. -/
theorem Piece.unmarked_marker_congr {job job' : Job} {f f' : OpenFile} {as bs : List Piece}
    (h : unmarked bs = unmarked as) :
    unmarked (Pass.marker job' f' :: bs) = unmarked (Pass.marker job f :: as) := h

/-- Two pieces that render alike may be put on top of outputs that agree, and both are seen or
    neither. -/
theorem Piece.unmarked_cons_congr {a b : Piece} {as bs : List Piece} (hm : b.isMarker = a.isMarker)
    (hr : b.render = a.render) (h : unmarked bs = unmarked as) :
    unmarked (b :: bs) = unmarked (a :: as) := by
  unfold unmarked at h ⊢
  rw [List.filter_cons, List.filter_cons, hm]
  split
  · rw [List.map_cons, List.map_cons, hr, h]
  · exact h

/-- A pass keeps its output newest first; the comparison does not depend on the direction. -/
theorem Piece.unmarked_reverse (pieces : List Piece) :
    unmarked pieces.reverse = (unmarked pieces).reverse := by
  unfold unmarked
  rw [List.filter_reverse, List.map_reverse]

/-- What `mark` writes is not seen. -/
theorem Piece.unmarked_mark (job : Job) (p : Pass) :
    unmarked (Pass.mark job p).output = unmarked p.output := by
  unfold Pass.mark
  split <;> rfl

/-- Two loops over the same keys, with the same names. -/
structure Loop.Agrees (l l' : Loop) : Prop where
  keyName : l'.keyName = l.keyName
  valueName : l'.valueName = l.valueName
  collection : l'.collection = l.collection
  keys : l'.keys = l.keys
  skipped : l'.skipped = l.skipped

/-- Loops that agree bind the same names to the same texts, so the alias tables stay equal. -/
theorem Loop.Agrees.bindings {l l' : Loop} (h : l.Agrees l') (key : Text) :
    l'.bindings key = l.bindings key := by
  unfold Loop.bindings
  rw [h.keyName, h.valueName, h.collection]

namespace Splice

/-! ## Open files and loops

  The two passes have the same stacks but for one file: while the first is inside the included file,
  the second goes on in the including one.  So the file stacks are related block by block, each open
  file with the loops that were opened in it, and the loops of the included file lie one file deeper
  in the first pass. -/

/-- A loop of the file `path` in both passes. -/
structure LoopAbreast (x : Splice) (path : Path) (inside : Bool) (depth depth' : Nat)
    (l l' : Loop) : Prop
    extends l.Agrees l' where
  depth : l.depth = depth
  depth' : l'.depth = depth'
  body : x.Alike path inside l.body l'.body

/-- A loop goes on in both passes. -/
theorem LoopAbreast.changed {x : Splice} {path : Path} {inside : Bool} {depth depth' : Nat}
    {l l' : Loop} (h : x.LoopAbreast path inside depth depth' l l') {keys keys' : List Text}
    {skipped skipped' : Nat} (hk : keys' = keys) (hs : skipped' = skipped) :
    x.LoopAbreast path inside depth depth' { l with keys, skipped }
      { l' with keys := keys', skipped := skipped' } :=
  ⟨⟨h.keyName, h.valueName, h.collection, hk, hs⟩, h.depth, h.depth', h.body⟩

/-- A file of the first pass, and the file of the second that is read with it; inside the guest this
    is the host. -/
structure FileAbreast (x : Splice) (inside : Bool) (f f' : OpenFile) : Prop where
  path : if inside then f.path = x.guest ∧ f'.path = x.host else f'.path = f.path
  indentation : f.indentation = f'.indentation ++ x.pad inside
  unread : x.Alike f.path inside f.unread f'.unread

/-- The open files and loops of both passes.  The guest stands on top of the host in the first pass;
    in the second, its lines come before those that the host has after the include. -/
inductive Abreast (x : Splice) : List OpenFile → List Loop → List OpenFile → List Loop → Prop where
  | nil : Abreast x [] [] [] []
  | file {f f' fs fs' own own' ls ls'} (inside : Bool) (hf : x.FileAbreast inside f f')
      (hl : List.Forall₂ (x.LoopAbreast f.path inside fs.length fs'.length) own own')
      (ho : inside = false → Abreast x fs ls fs' ls')
      (hi : inside = true → ∀ n, Abreast x fs ls
        ({ f' with line := n, unread := x.after } :: fs') ls') :
      Abreast x (f :: fs) (own ++ ls) (f' :: fs') (own' ++ ls')

/-- The innermost files face each other: what `Abreast` says of them, of their loops and of the
    files around. -/
structure Facing (x : Splice) (inside : Bool)
    (f : OpenFile) (fs : List OpenFile) (own ls : List Loop)
    (f' : OpenFile) (fs' : List OpenFile) (own' ls' : List Loop) : Prop where
  file : x.FileAbreast inside f f'
  loops : List.Forall₂ (x.LoopAbreast f.path inside fs.length fs'.length) own own'
  outside : inside = false → x.Abreast fs ls fs' ls'
  within : inside = true → ∀ n,
    x.Abreast fs ls ({ f' with line := n, unread := x.after } :: fs') ls'

section Nesting

variable {x : Splice} {inside : Bool} {f f' : OpenFile} {fs fs' files' : List OpenFile}
  {own own' ls ls' loops loops' : List Loop}

/-- What faces each other stands abreast: the direction in which a state is put together again. -/
theorem Facing.abreast (h : x.Facing inside f fs own ls f' fs' own' ls') :
    x.Abreast (f :: fs) (own ++ ls) (f' :: fs') (own' ++ ls') :=
  .file inside h.file h.loops h.outside h.within

/-- And the direction in which it is taken apart: there is always an innermost pair that face each
    other. -/
theorem Abreast.facing (h : x.Abreast (f :: fs) loops files' loops') :
    ∃ inside own ls f' fs' own' ls', loops = own ++ ls ∧ files' = f' :: fs' ∧ loops' = own' ++ ls' ∧
      x.Facing inside f fs own ls f' fs' own' ls' := by
  cases h with
  | file inside hf hl ho hi => exact ⟨inside, _, _, _, _, _, _, rfl, rfl, rfl, ⟨hf, hl, ho, hi⟩⟩

/-- The second pass has no file open once the first has none. -/
theorem Abreast.files_eq_nil (h : x.Abreast [] ls fs' ls') : fs' = [] := by
  cases h
  rfl

/-- The loops of both passes agree one by one; only their files, lines and depths differ. -/
theorem Abreast.agrees (h : x.Abreast fs ls fs' ls') : List.Forall₂ Loop.Agrees ls ls' := by
  induction h with
  | nil => exact .nil
  | file inside hf hl ho hi iho ihi =>
    refine List.rel_append (hl.imp fun _ _ h => h.toAgrees) ?_
    -- Inside the guest the rest of the second pass is the host itself, here at an arbitrary line.
    cases inside with
    | false => exact iho rfl
    | true => exact ihi rfl 0

/-- All loops of one file have the depth of this file. -/
theorem depth_of_abreast {path : Path} {depth depth' : Nat}
    (h : List.Forall₂ (x.LoopAbreast path inside depth depth') own own') :
    (∀ l ∈ own, l.depth = depth) ∧ ∀ l ∈ own', l.depth = depth' := by
  induction h with
  | nil => exact ⟨nofun, nofun⟩
  | cons h _ ih =>
    exact ⟨List.forall_mem_cons.2 ⟨h.depth, ih.1⟩, List.forall_mem_cons.2 ⟨h.depth', ih.2⟩⟩

/-- Loops are less deep than files are open. -/
theorem Abreast.depth_lt (h : x.Abreast fs ls fs' ls') :
    (∀ l ∈ ls, l.depth < fs.length) ∧ ∀ l ∈ ls', l.depth < fs'.length := by
  induction h with
  | nil => exact ⟨nofun, nofun⟩
  | @file f f' fs fs' own own' ls ls' inside hf hl ho hi iho ihi =>
    have hown := depth_of_abreast hl
    -- In the guest the loops of the host may be as deep as the files around it in the second pass,
    -- where the host is still the innermost one; so their bound is one larger.
    have hls : (∀ l ∈ ls, l.depth < fs.length) ∧ ∀ l ∈ ls', l.depth < fs'.length + 1 := by
      cases inside with
      | false => exact (iho rfl).imp_right fun h l hl => Nat.lt_succ_of_lt (h l hl)
      | true => exact ihi rfl 0
    simp only [List.mem_append, List.length_cons]
    constructor
    · rintro l (hl | hl)
      · rw [hown.1 l hl]
        exact Nat.lt_succ_self _
      · exact Nat.lt_succ_of_lt (hls.1 l hl)
    · rintro l (hl | hl)
      · rw [hown.2 l hl]
        exact Nat.lt_succ_self _
      · exact hls.2 l hl

/-- The loops that are not of the innermost file are less deep than it. -/
theorem Facing.depth_lt (h : x.Facing inside f fs own ls f' fs' own' ls') :
    ∀ l ∈ ls, l.depth < fs.length := by
  cases inside with
  | false => exact (h.outside rfl).depth_lt.1
  | true => exact (h.within rfl 0).depth_lt.1

/-- The innermost loop is one of the innermost file if it is as deep, and then so it is in the other
    pass. -/
theorem Facing.exists_own (h : x.Facing inside f fs own ls f' fs' own' ls') {l : Loop}
    (hl : own ++ ls = l :: loops) (hd : l.depth = fs.length) :
    ∃ rest l' rest', loops = rest ++ ls ∧ own' = l' :: rest' ∧
      x.LoopAbreast f.path inside fs.length fs'.length l l' ∧
      List.Forall₂ (x.LoopAbreast f.path inside fs.length fs'.length) rest rest' := by
  cases hloops : own with
  | nil =>
    rw [hloops, List.nil_append] at hl
    -- With no loop of its own, the file would have the loop of an outer file in front.
    exact absurd hd (Nat.ne_of_lt (h.depth_lt l (mem_of_eq_cons hl)))
  | cons m rest =>
    rw [hloops, List.cons_append] at hl
    obtain ⟨rfl, rfl⟩ := List.cons.inj hl
    have hown := h.loops
    rw [hloops] at hown
    cases hown with
    | cons hm hrest => exact ⟨rest, _, _, rfl, rfl, hm, hrest⟩

/-- No loop of the innermost file is open where the innermost loop is less deep. -/
theorem Facing.eq_nil (h : x.Facing inside f fs own ls f' fs' own' ls')
    (hl : ∀ l ∈ (own ++ ls).head?, l.depth < fs.length) : own = [] ∧ own' = [] := by
  cases hloops : own with
  | nil =>
    have hown := h.loops
    rw [hloops] at hown
    cases hown
    exact ⟨rfl, rfl⟩
  | cons m rest =>
    rw [hloops] at hl
    have hm := (depth_of_abreast h.loops).1 m (mem_of_eq_cons hloops)
    exact absurd hm (Nat.ne_of_lt (hl m rfl))

/-- Every open file of the second pass is open in the first. -/
theorem Abreast.exists_path (h : x.Abreast fs ls fs' ls') :
    ∀ f' ∈ fs', ∃ f ∈ fs, f.path = f'.path := by
  induction h with
  | nil => exact nofun
  | @file f f' fs fs' own own' ls ls' inside hf hl ho hi iho ihi =>
    cases inside with
    | false =>
      rw [List.forall_mem_cons]
      refine ⟨⟨f, List.mem_cons_self, hf.path.symm⟩, fun g hg => ?_⟩
      obtain ⟨e, he, hpath⟩ := iho rfl g hg
      exact ⟨e, List.mem_cons_of_mem _ he, hpath⟩
    | true =>
      -- The guest has no file of its own in the second pass: the host is the file of its host.
      have hrest := ihi rfl 0
      rw [List.forall_mem_cons] at hrest
      rw [List.forall_mem_cons]
      refine ⟨?_, fun g hg => ?_⟩
      · obtain ⟨e, he, hpath⟩ := hrest.1
        exact ⟨e, List.mem_cons_of_mem _ he, hpath⟩
      · obtain ⟨e, he, hpath⟩ := hrest.2 g hg
        exact ⟨e, List.mem_cons_of_mem _ he, hpath⟩

/-- The innermost files are read on or back, and loops of theirs change. -/
theorem Facing.moved (h : x.Facing inside f fs own ls f' fs' own' ls') {unread unread' : List Text}
    (n n' : Nat) (hu : x.Alike f.path inside unread unread') {now now' : List Loop}
    (hl : List.Forall₂ (x.LoopAbreast f.path inside fs.length fs'.length) now now') :
    x.Facing inside { f with line := n, unread } fs now ls
      { f' with line := n', unread := unread' } fs' now' ls' where
  file := ⟨h.file.path, h.file.indentation, hu⟩
  loops := hl
  outside := h.outside
  within := h.within

/-- A loop is opened in the line read last. -/
theorem Facing.opened (h : x.Facing inside f fs own ls f' fs' own' ls') {unread unread' : List Text}
    (n n' : Nat) (hu : x.Alike f.path inside unread unread') (key : Option Text)
    (value collection : Text) (keys : List Text) :
    x.Facing inside { f with line := n, unread } fs
      (⟨fs.length, f.path.text, n, unread, key, value, collection, keys, 0⟩ :: own) ls
      { f' with line := n', unread := unread' } fs'
      (⟨fs'.length, f'.path.text, n', unread', key, value, collection, keys, 0⟩ :: own') ls' :=
  h.moved n n' hu (.cons ⟨⟨rfl, rfl, rfl, rfl, rfl⟩, rfl, rfl, hu⟩ h.loops)

end Nesting

/-! ## States

  States in step have the same names bound and the same text written, markers apart, because the
  loops on both sides bind the same and the lines written are the same. -/

/-- The states of both passes: the same but for files, line numbers and markers. -/
structure InStep (x : Splice) (p p' : Pass) : Prop where
  nesting : x.Abreast p.files p.loops p'.files p'.loops
  aliases : p'.aliases = p.aliases
  ranges : p'.ranges = p.ranges
  output : Piece.unmarked p'.output = Piece.unmarked p.output

namespace InStep

variable {x : Splice} {p p' : Pass}

/-- A loop in front in one pass has one that agrees with it in front in the other. -/
theorem exists_loops_eq (h : x.InStep p p') {l : Loop} {loops : List Loop}
    (hl : p.loops = l :: loops) : ∃ l' loops', p'.loops = l' :: loops' ∧ l.Agrees l' := by
  have hagrees := h.nesting.agrees
  rw [hl] at hagrees
  cases hloops : p'.loops with
  | nil =>
    rw [hloops] at hagrees
    cases hagrees
  | cons l' loops' =>
    rw [hloops, List.forall₂_cons] at hagrees
    exact ⟨l', loops', rfl, hagrees.1⟩

/-- Both passes skip, or neither does: this depends on the keys of the innermost loop alone. -/
theorem active (h : x.InStep p p') (ha : p.Active) : p'.Active := by
  intro l' hl' hk
  have hagrees := h.nesting.agrees
  cases hloops : p.loops with
  | nil =>
    rw [hloops, List.forall₂_nil_left_iff] at hagrees
    rw [hagrees] at hl'
    cases hl'
  | cons l loops =>
    obtain ⟨m, _, hm, hagree⟩ := h.exists_loops_eq hloops
    rw [hm] at hl'
    cases hl'
    exact ha l (by rw [hloops]; rfl) (hagree.keys ▸ hk)

/-- Names stand for the same in both. -/
theorem environment {job job' : Job} (h : x.InStep p p') (hx : x.Joins job job') :
    p'.environment job' = p.environment job := by
  unfold Pass.environment
  rw [h.aliases, h.ranges, hx.dictionary]

end InStep

section Lockstep

variable {x : Splice} {job job' : Job} {p p' q q' : Pass} {inside : Bool} {f f' : OpenFile}
  {fs fs' : List OpenFile} {own own' ls ls' : List Loop} {raw raw' : Text}
  {unread unread' : List Text}

/-- How a state in step is put together after a line: the files and loops by `Facing`, the rest by
    equality. -/
theorem Facing.inStep (h : x.Facing inside f fs own ls f' fs' own' ls') (hf : q.files = f :: fs)
    (hl : q.loops = own ++ ls) (hf' : q'.files = f' :: fs') (hl' : q'.loops = own' ++ ls')
    (ha : q'.aliases = q.aliases) (hr : q'.ranges = q.ranges)
    (ho : Piece.unmarked q'.output = Piece.unmarked q.output) : x.InStep q q' where
  nesting := by rw [hf, hl, hf', hl']; exact h.abreast
  aliases := ha
  ranges := hr
  output := ho

/-- The same content gives the same line, at whatever location it is read: the location is only
    shown in an error, and there is none. -/
theorem InStep.expands {line : Text} (hp : x.InStep p p') (hx : x.Joins job job')
    (hc : raw'.content = raw.content) (he : Pass.Expands job p f raw line) :
    Pass.Expands job' p' f' raw' line := by
  unfold Pass.Expands at he ⊢
  rw [hp.environment hx, hx.config, hc]
  exact Substitution.expandLine_eq_ok he _

/-- What a file adds in front of a line in one pass, the margin of the line has in the other. -/
theorem FileAbreast.indentation_append (h : x.FileAbreast inside f f')
    (hm : raw'.margin = x.pad inside ++ raw.margin) :
    f'.indentation ++ raw'.margin = f.indentation ++ raw.margin := by
  rw [h.indentation, hm, List.append_assoc]

/-- A file that is entered in one pass is entered in the other. -/
theorem Facing.entered (hx : x.Joins job job') (h : x.Facing inside f fs own ls f' fs' own' ls')
    (hm : raw'.margin = x.pad inside ++ raw.margin) {path : Path} (hpath : path.IsNormal)
    {text : Text} (hfind : job.source.find? path = some (.text text)) (id id' : Nat) :
    ∃ text', job'.source.find? path = some (.text text') ∧
      x.Facing false ⟨path, id, 0, text.lines, f.indentation ++ raw.margin⟩ (f :: fs) [] (own ++ ls)
        ⟨path, id', 0, text'.lines, f'.indentation ++ raw'.margin⟩ (f' :: fs') []
        (own' ++ ls') := by
  obtain ⟨text', hfind', hlines⟩ := hx.find? hpath hfind
  refine ⟨text', hfind', ⟨rfl, ?_, hlines⟩, .nil, fun _ => h.abreast, nofun⟩
  rw [h.file.indentation_append hm]
  exact (List.append_nil _).symm

/-- A file that is not open in one pass is not open in the other. -/
theorem Facing.not_open (h : x.Facing inside f fs own ls f' fs' own' ls') {path : Path}
    (hn : (f :: fs).any (·.path.same path) = false) :
    (f' :: fs').any (·.path.same path) = false := by
  rw [List.any_eq_false] at hn ⊢
  intro g' hg'
  -- The second pass has fewer files open, so it finds no more of them than the first.
  obtain ⟨g, hg, hpath⟩ := h.abreast.exists_path g' hg'
  rw [← hpath]
  exact hn g hg

/-- **A line does the same in both passes.**  The lines `raw` and `raw'` have one content and differ
    in their margins by what the include adds.  All a line could do differently is to include: that
    it is led to the same file is asked for by `hresolve`, which holds for a host that is compared
    with itself and follows for the guest from `Fits.beside`. -/
theorem Facing.effect (hx : x.Joins job job') (hp : x.InStep p p') (hd : Pass.Disciplined p)
    (h : x.Facing inside f fs own ls f' fs' own' ls') (hf : p.files = f :: fs)
    (hl : p.loops = own ++ ls) (hl' : p'.loops = own' ++ ls') (hc : raw'.content = raw.content)
    (hm : raw'.margin = x.pad inside ++ raw.margin) (hu : x.Alike f.path inside unread unread')
    (hresolve : ∀ line i path, p.Active → LoopHeader.isEnd raw.content = false →
      Pass.Expands job p (f.advance unread) raw line → Directive.parse line = .ok (.inclusion i) →
      Pass.resolve? job f.path i = some path → Pass.resolve? job f'.path i = some path)
    (he : Pass.Effect job p (f.advance unread) fs raw q) :
    ∃ q', Pass.Effect job' p' (f'.advance unread') fs' raw' q' ∧ x.InStep q q' := by
  -- Both passes have read one line of the innermost file.
  have read := h.moved (f.line + 1) (f'.line + 1) hu h.loops
  -- An empty loop belongs to the innermost file, so it is one of `own`: its counterpart can change
  -- with it.
  have depth_of_empty : ∀ {l : Loop} {loops : List Loop}, p.loops = l :: loops → l.keys = [] →
      l.depth = fs.length := by
    intro l loops hloops hk
    have hi := hd.innermost l (by rw [hloops]; rfl) hk
    rw [hf, List.length_cons] at hi
    omega
  cases he with
  | skip hloops hk hend hheader =>
    obtain ⟨l', loops', hloops', hag⟩ := hp.exists_loops_eq hloops
    refine ⟨_, .skip hloops' (by rw [hag.keys, hk]) (by rw [hc, hend]) (by rw [hc, hheader]), ?_⟩
    exact read.inStep rfl hl rfl hl' hp.aliases hp.ranges hp.output
  | deepen hloops hk hend hheader =>
    obtain ⟨rest, l', rest', rfl, rfl, hloop, hrest⟩ :=
      h.exists_own (hl ▸ hloops) (depth_of_empty hloops hk)
    refine ⟨_, .deepen hl' (by rw [hloop.keys, hk]) (by rw [hc, hend]) (by rw [hc, hheader]), ?_⟩
    have now := h.moved (f.line + 1) (f'.line + 1) hu
      (.cons (hloop.changed hloop.keys (congrArg Nat.succ hloop.skipped)) hrest)
    exact now.inStep rfl rfl rfl rfl hp.aliases hp.ranges hp.output
  | @rise l loops n hloops hk hend hn =>
    obtain ⟨rest, l', rest', rfl, rfl, hloop, hrest⟩ :=
      h.exists_own (hl ▸ hloops) (depth_of_empty hloops hk)
    refine ⟨_, .rise hl' (by rw [hloop.keys, hk]) (by rw [hc, hend])
      (by rw [hloop.skipped, hn]), ?_⟩
    have now := h.moved (f.line + 1) (f'.line + 1) hu
      (.cons (hloop.changed hloop.keys (Eq.refl n)) hrest)
    exact now.inStep rfl rfl rfl rfl hp.aliases hp.ranges hp.output
  | @again l loops k key more aliases hloops hk hend hdepth hpop =>
    obtain ⟨rest, l', rest', rfl, rfl, hloop, hrest⟩ := h.exists_own (hl ▸ hloops) hdepth
    refine ⟨_, .again hl' (by rw [hloop.keys, hk]) (by rw [hc, hend]) hloop.depth'
      (by rw [hp.aliases, hpop]), ?_⟩
    -- The innermost file is read from the body of the loop again, in both passes.
    have now := h.moved l.header l'.header hloop.body
      (.cons (hloop.changed (Eq.refl (key :: more)) hloop.skipped) hrest)
    refine now.inStep rfl rfl rfl rfl ?_ hp.ranges ?_
    · rw [hloop.bindings]
    · exact Piece.unmarked_marker_congr
        (Piece.unmarked_cons_congr rfl (by rw [hloop.collection]) hp.output)
  | close hloops hk hend hdepth hpop =>
    obtain ⟨rest, l', rest', rfl, rfl, hloop, hrest⟩ := h.exists_own (hl ▸ hloops) hdepth
    have hk' : (l'.keys = [] ∧ l'.skipped = 0) ∨ ∃ k, l'.keys = [k] := by
      rw [hloop.keys, hloop.skipped]
      exact hk
    refine ⟨_, .close hl' hk' (by rw [hc, hend]) hloop.depth' (by rw [hp.aliases, hpop]), ?_⟩
    refine (h.moved (f.line + 1) (f'.line + 1) hu hrest).inStep rfl rfl rfl rfl rfl hp.ranges ?_
    exact Piece.unmarked_marker_congr
      (Piece.unmarked_cons_congr rfl (by rw [hloop.collection]) hp.output)
  | version ha hend he hparse hcontext =>
    refine ⟨_, .version (hp.active ha) (by rw [hc, hend]) (hp.expands hx hc he) hparse
      (by rw [hx.config, hcontext]), ?_⟩
    exact read.inStep rfl hl rfl hl' hp.aliases hp.ranges
      (Piece.unmarked_cons_congr rfl rfl hp.output)
  | platform ha hend he hparse =>
    refine ⟨_, .platform (hp.active ha) (by rw [hc, hend]) (hp.expands hx hc he) hparse, ?_⟩
    refine read.inStep rfl hl rfl hl' hp.aliases hp.ranges ?_
    exact Piece.unmarked_marker_congr (Piece.unmarked_cons_congr rfl rfl hp.output)
  | @inclusion line i path text ha hend he hparse hr hfind hn =>
    have hr' : Pass.resolve? job' (f'.advance unread').path i = some path := by
      rw [hx.resolve]
      exact hresolve line i path ha hend he hparse hr
    -- The registries may give the file different ids; these are only shown in markers.
    obtain ⟨text', hfind', now⟩ := read.entered hx hm (Pass.isNormal_of_resolve? hr) hfind
      (p.registry.register path i.track).2 (p'.registry.register path i.track).2
    refine ⟨_, .inclusion (hp.active ha) (by rw [hc, hend]) (hp.expands hx hc he) hparse hr' hfind'
      (read.not_open hn), ?_⟩
    exact now.inStep rfl hl rfl hl' hp.aliases hp.ranges (Piece.unmarked_marker_congr hp.output)
  | @openEmpty line header ranges name collection d ha hend he hparse hg hr hv hk =>
    refine ⟨_, .openEmpty (hp.active ha) (by rw [hc, hend]) (hp.expands hx hc he) hparse
      (by rw [hp.ranges, hg]) (by rw [hp.aliases, hx.dictionary, hr])
      (by rw [hp.aliases, hx.dictionary, hv]) hk, ?_⟩
    have now := h.opened (f.line + 1) (f'.line + 1) hu header.key header.value collection []
    refine now.inStep rfl (congrArg _ hl) rfl (congrArg _ hl') ?_ rfl
      (Piece.unmarked_cons_congr rfl rfl hp.output)
    rw [hp.aliases]
  | @opens line header ranges name collection d key more l ha hend he hparse hg hr hv hk hloop =>
    subst hloop
    refine ⟨_, .opens (hp.active ha) (by rw [hc, hend]) (hp.expands hx hc he) hparse
      (by rw [hp.ranges, hg]) (by rw [hp.aliases, hx.dictionary, hr])
      (by rw [hp.aliases, hx.dictionary, hv]) hk rfl, ?_⟩
    have now := h.opened (f.line + 1) (f'.line + 1) hu header.key header.value collection
      (key :: more)
    refine now.inStep rfl (congrArg _ hl) rfl (congrArg _ hl') ?_ rfl ?_
    · rw [hp.aliases]
      rfl
    · exact Piece.unmarked_marker_congr (Piece.unmarked_cons_congr rfl rfl hp.output)
  | @plain line ha hend he hparse =>
    refine ⟨_, .plain (hp.active ha) (by rw [hc, hend]) (hp.expands hx hc he) hparse, ?_⟩
    refine read.inStep rfl hl rfl hl' hp.aliases hp.ranges ?_
    -- The one place where the text itself is written: what stands before the content is the same.
    have hline : f'.indentation ++ raw'.margin = f.indentation ++ raw.margin :=
      h.file.indentation_append hm
    exact Piece.unmarked_cons_congr rfl (congrArg (· ++ line ++ ['\n']) hline) hp.output

end Lockstep
end Splice

/-! ## The include

  The include is the one line that the passes do not share.  `Fits` collects what is assumed of it:
  it is an include as it stands, it leads to a file that can be read and in which loops match, and
  no quoted include of that file leads elsewhere when it is looked up from the including file. -/

/-- The line read next, in the file `path`, is the include `i` once its tokens are replaced. -/
inductive Pass.AsksFor (job : Job) (p : Pass) (path : Path) (i : Inclusion) : Prop where
  | intro {f outer raw unread line} (hf : p.files = f :: outer) (hp : f.path = path)
      (hu : f.unread = raw :: unread) (ha : p.Active) (hc : LoopHeader.isEnd raw.content = false)
      (he : Pass.Expands job p (f.advance unread) raw line)
      (hd : Directive.parse line = .ok (.inclusion i))

namespace Splice

/-- What is asked of an include and of the file it includes, for the lines of the file to stand in
    its place. -/
structure Fits (x : Splice) (job : Job) (registry : Registry) : Prop where
  /-- The include has no tokens. -/
  verbatim : ¬['#', '{'] <:+: x.raw.content
  /-- It is an include, and leads to the guest. -/
  directive : ∃ i, Directive.parse x.raw.content = .ok (.inclusion i) ∧
    Pass.resolve? job x.host i = some x.guest
  /-- The guest can be read. -/
  readable : ∃ text, job.source.find? x.guest = some (.text text) ∧ text.lines = x.included
  /-- In the guest, every line that opens a loop is matched by one that closes it. -/
  matched : (Body.ofLines? x.included).isSome
  /-- The guest lies beside the host, or it has no quoted includes, also none that tokens are
      replaced by. -/
  beside : x.guest.parent? = x.host.parent? ∨
    ∀ p i, Pass.Reached job registry p → p.AsksFor job x.guest i → i.form = .angled

section Include

variable {x : Splice} {job job' : Job} {registry registry' : Registry} {p p' q : Pass}
  {inside : Bool} {f f' : OpenFile} {fs fs' : List OpenFile} {own own' ls ls' : List Loop}

/-! The include is no end of a loop, and no header, also where lines are skipped unread. -/

theorem Fits.isEnd_eq_false (h : x.Fits job registry) : LoopHeader.isEnd x.raw.content = false := by
  obtain ⟨i, hparse, _⟩ := h.directive
  obtain ⟨rest, hrest⟩ := Directive.exists_of_parse_eq_inclusion hparse
  rw [hrest]
  rfl

theorem Fits.isHeader_eq_false (h : x.Fits job registry) :
    LoopHeader.isHeader x.raw.content = false := by
  obtain ⟨i, hparse, _⟩ := h.directive
  obtain ⟨rest, hrest⟩ := Directive.exists_of_parse_eq_inclusion hparse
  rw [hrest]
  rfl

/-- Read as it stands, the include asks for the guest. -/
theorem Fits.parse_eq {line : Text} (h : x.Fits job registry)
    (he : Pass.Expands job p f x.raw line) :
    ∃ i, Directive.parse line = .ok (.inclusion i) ∧ Pass.resolve? job x.host i = some x.guest := by
  unfold Pass.Expands at he
  rw [Substitution.expandLine_of_not_infix h.verbatim] at he
  cases he
  exact h.directive

/-- From the host, an include leads where it leads from the guest, if it is looked for in the same
    places. -/
theorem resolve?_host {i : Inclusion} {path : Path}
    (hform : x.guest.parent? = x.host.parent? ∨ i.form = .angled)
    (hr : Pass.resolve? job x.guest i = some path) : Pass.resolve? job x.host i = some path := by
  rw [← hr]
  unfold Pass.resolve?
  cases hi : i.form with
  | angled => rfl
  | quoted =>
    have hparent := hform.resolve_right (by rw [hi]; exact nofun)
    simp only [Source.resolveQuoted?, Source.candidates, hparent]

/-- In an empty loop, the lines in place of the include are skipped.  They form a body, since the
    loops of the guest are closed in it, and an empty loop gets over a whole body. -/
theorem Facing.leads_skip (h : x.Facing false f fs own ls f' fs' own' ls') (hp : x.InStep p p')
    (hd' : Pass.Disciplined p') (hmatched : (Body.ofLines? x.included).isSome)
    (hl : p.loops = own ++ ls) (hf' : p'.files = f' :: fs') (hl' : p'.loops = own' ++ ls')
    (hu' : f'.unread = x.inlined ++ x.after) {l : Loop} {loops : List Loop}
    (hloops : p.loops = l :: loops) (hk : l.keys = []) :
    ∃ q', Pass.Leads job' p' q' ∧ x.InStep { p with files := f.advance x.after :: fs } q' := by
  obtain ⟨b, hb⟩ := Option.isSome_iff_exists.1 hmatched
  obtain ⟨b', hb'⟩ := b.exists_lines_eq_map fun c => Text.isMargin_of_mem_margin (t := x.raw)
  rw [← Body.ofLines?_eq_some_iff.1 hb] at hb'
  obtain ⟨l', loops', hloops', hag⟩ := hp.exists_loops_eq hloops
  let t : Trace := ⟨p'.ranges, p'.registry, p'.output⟩
  let frame : Frame := ⟨f'.path, f'.id, f'.indentation⟩
  -- The state, written as the one from which a body is skipped.
  have hstate :
      p' = t.state (frame.reading f'.line (b'.lines ++ x.after) :: fs') (l' :: loops') := by
    have haliases := hd'.aliases_eq
    have hfile : frame.reading f'.line (b'.lines ++ x.after) = f' := by
      rw [hb', show x.included.map (x.raw.margin ++ ·) ++ x.after = f'.unread from hu'.symm]
      rfl
    rw [hfile]
    obtain ⟨files, loops, aliases, ranges, registry, output⟩ := p'
    simp only at haliases hf' hloops'
    subst haliases hf' hloops'
    rfl
  refine ⟨_, hstate ▸ Pass.leads_skip b' (hag.keys.trans hk), ?_⟩
  have now := h.moved (f.line + 1) (f'.line + b'.size) (.same x.after) h.loops
  have haliases := (hloops' ▸ hd'.aliases_eq).symm.trans hp.aliases
  exact now.inStep rfl hl rfl (hloops' ▸ hl') haliases hp.ranges hp.output

/-- **The include is read**: one pass enters the guest, or skips one line, and the other has the
    lines to read. -/
theorem Facing.effect_include (hfits : x.Fits job registry) (hp : x.InStep p p')
    (hd' : Pass.Disciplined p') (h : x.Facing false f fs own ls f' fs' own' ls')
    (hhost : f.path = x.host) (hl : p.loops = own ++ ls) (hf' : p'.files = f' :: fs')
    (hl' : p'.loops = own' ++ ls') (hu' : f'.unread = x.inlined ++ x.after)
    (he : Pass.Effect job p (f.advance x.after) fs x.raw q) :
    ∃ q', Pass.Leads job' p' q' ∧ x.InStep q q' := by
  -- The line is the include whatever state it is read in, so no effect but an inclusion is
  -- possible.
  have never : ∀ {line : Text} {d : Directive}, Pass.Expands job p (f.advance x.after) x.raw line →
      Directive.parse line = .ok d →
      ∃ i, d = .inclusion i ∧ Pass.resolve? job x.host i = some x.guest := by
    intro line d he hparse
    obtain ⟨i, hi, hr⟩ := hfits.parse_eq he
    rw [hparse] at hi
    exact ⟨i, Except.ok.inj hi, hr⟩
  cases he with
  | skip hloops hk => exact h.leads_skip hp hd' hfits.matched hl hf' hl' hu' hloops hk
  -- The line neither opens nor ends a loop.
  | deepen _ _ _ hheader => rw [hfits.isHeader_eq_false] at hheader; cases hheader
  | rise _ _ hend => rw [hfits.isEnd_eq_false] at hend; cases hend
  | again _ _ hend => rw [hfits.isEnd_eq_false] at hend; cases hend
  | close _ _ hend => rw [hfits.isEnd_eq_false] at hend; cases hend
  -- It is no other directive, and not plain text.
  | version _ _ he hparse => obtain ⟨i, hi, _⟩ := never he hparse; cases hi
  | platform _ _ he hparse => obtain ⟨i, hi, _⟩ := never he hparse; cases hi
  | openEmpty _ _ he hparse => obtain ⟨i, hi, _⟩ := never he hparse; cases hi
  | opens _ _ he hparse => obtain ⟨i, hi, _⟩ := never he hparse; cases hi
  | plain _ _ he hparse => obtain ⟨i, hi, _⟩ := never he hparse; cases hi
  | @inclusion line i path text ha hend he hparse hr hfind hn =>
    obtain ⟨i', hi, hguest⟩ := never he hparse
    cases hi
    obtain ⟨text, hreadable, hlines⟩ := hfits.readable
    have hpath : path = x.guest := by
      rw [show (f.advance x.after).path = x.host from hhost, hguest] at hr
      exact (Option.some.inj hr).symm
    subst hpath
    rw [hreadable] at hfind
    cases hfind
    -- The second pass does nothing: from now on its host faces the guest.
    refine ⟨p', .refl job' p', ?_⟩
    have now : x.Facing true ⟨x.guest, (p.registry.register x.guest i.track).2, 0, text.lines,
        f.indentation ++ x.raw.margin⟩ (f.advance x.after :: fs) [] (own ++ ls) f' fs' []
        (own' ++ ls') := by
      refine ⟨⟨⟨rfl, h.file.path.trans hhost⟩, ?_, ?_⟩, .nil, nofun, fun _ n => ?_⟩
      · rw [h.file.indentation]
        simp [pad]
      · rw [hu', hlines]
        exact .inside x.included
      · exact (h.moved (f.line + 1) n (.same x.after) h.loops).abreast
    exact now.inStep rfl hl hf' hl' hp.aliases hp.ranges hp.output

/-- **A step of one pass is matched by steps of the other.**  A file is left by none or one, a line
    is read by one, and the include by none, or by as many as there are lines to skip. -/
theorem InStep.transition (hx : x.Joins job job') (hfits : x.Fits job registry) (hp : x.InStep p p')
    (hreached : Pass.Reached job registry p) (hreached' : Pass.Reached job' registry' p')
    (ht : Pass.Transition job p q) : ∃ q', Pass.Leads job' p' q' ∧ x.InStep q q' := by
  have hnesting := hp.nesting
  cases ht with
  | @leave f fs hf hu hopen =>
    rw [hf] at hnesting
    obtain ⟨inside, own, ls, f', fs', own', ls', hl, hf', hl', h⟩ := hnesting.facing
    rw [hl] at hopen
    obtain ⟨rfl, rfl⟩ := h.eq_nil hopen
    have hunread := h.file.unread
    rw [hu] at hunread
    cases inside with
    | false =>
      have hls := h.outside rfl
      refine ⟨_, .of_step (Pass.step_eq_next_iff.2 (.leave hf' hunread.eq_nil ?_)), ?_⟩
      · rw [hl']
        exact fun l hmem => hls.depth_lt.2 l (List.mem_of_mem_head? hmem)
      · refine ⟨?_, by simp [hp.aliases], by simp [hp.ranges], ?_⟩
        · simpa [hl, hl'] using hls
        · rw [Piece.unmarked_mark, Piece.unmarked_mark]
          exact hp.output
    | true =>
      -- The host goes on with its own lines, as it does already in the other pass.
      have hls := h.within rfl f'.line
      rw [← hunread.eq_after] at hls
      refine ⟨p', .refl job' p', ⟨?_, by simp [hp.aliases], by simp [hp.ranges], ?_⟩⟩
      · rw [hf', hl']
        simpa [hl] using hls
      · rw [Piece.unmarked_mark]
        exact hp.output
  | @line f fs raw unread q hf hu he =>
    rw [hf] at hnesting
    obtain ⟨inside, own, ls, f', fs', own', ls', hl, hf', hl', h⟩ := hnesting.facing
    have hunread := h.file.unread
    rw [hu] at hunread
    rcases hunread.cons with ⟨raw', more, hu', hc, hm, hmore⟩ | ⟨rfl, hhost, rfl, rfl, hu'⟩
    · -- Includes of the host lead where they led.  Those of the guest are now looked for from the
      -- host: this is what `Fits.beside` is for.
      have hresolve : ∀ line i path, p.Active → LoopHeader.isEnd raw.content = false →
          Pass.Expands job p (f.advance unread) raw line →
          Directive.parse line = .ok (.inclusion i) →
          Pass.resolve? job f.path i = some path → Pass.resolve? job f'.path i = some path := by
        intro line i path ha hend hexpands hparse hr
        have hpath := h.file.path
        cases inside with
        | false => rw [show f'.path = f.path from hpath]; exact hr
        | true =>
          obtain ⟨hguest, hhost⟩ : f.path = x.guest ∧ f'.path = x.host := hpath
          rw [hguest] at hr
          rw [hhost]
          refine resolve?_host (hfits.beside.imp_right fun hangled => ?_) hr
          exact hangled p i hreached (.intro hf hguest hu ha hend hexpands hparse)
      obtain ⟨q', he', hq⟩ :=
        h.effect hx hp (Pass.Disciplined.of_reached hreached) hf hl hl' hc hm hmore hresolve he
      exact ⟨q', .of_step (Pass.step_of_effect hf' hu' he'), hq⟩
    · have hd' := Pass.Disciplined.of_reached hreached'
      exact h.effect_include hfits hp hd' hhost hl hf' hl' hu' he

end Include

/-! ## Passes

  A state that the first pass gets to is followed by one of the second; both come to their ends
  together, and there the texts are the same. -/

section Passes

variable {x : Splice} {job job' : Job} {registry : Registry} {p : Pass}

/-- Both passes enter the root: it is the same path, and the text of the one stands to the text of
    the other as the store says. -/
theorem inStep_start (hx : x.Joins job job') (hroot : job.root.IsNormal)
    (hs : Pass.start job registry = .next p) (registry' : Registry) :
    ∃ p', Pass.start job' registry' = .next p' ∧ x.InStep p p' := by
  obtain ⟨text, hfind, rfl⟩ := Pass.start_eq_next hs
  obtain ⟨text', hfind', hlines⟩ := hx.find? hroot hfind
  refine ⟨_, Pass.start_of_find? (hx.root ▸ hfind') registry', ?_, rfl, rfl, rfl⟩
  have h : x.Facing false
      ⟨job.root, (registry.register job.root true).2, 0, text.lines, []⟩ [] [] []
      ⟨job'.root, (registry'.register job'.root true).2, 0, text'.lines, []⟩ [] [] [] :=
    ⟨⟨hx.root, rfl, hlines⟩, .nil, fun _ => .nil, nofun⟩
  exact h.abreast

/-- A pass over the job gets to a state in step with `p`. -/
def Followed (x : Splice) (job : Job) (registry : Registry) (p : Pass) : Prop :=
  ∃ p', Pass.Reached job registry p' ∧ x.InStep p p'

/-- **Wherever one pass gets to, the other gets to a state in step with it.** -/
theorem followed_of_reached (hx : x.Joins job job') (hfits : x.Fits job registry)
    (hroot : job.root.IsNormal) (h : Pass.Reached job registry p) (registry' : Registry) :
    x.Followed job' registry' p := by
  refine h.induct (fun p hs => ?_) fun p q hreached hp ht => ?_
  · obtain ⟨p', hs', hp⟩ := inStep_start hx hroot hs registry'
    exact ⟨p', ⟨0, hs'⟩, hp⟩
  · obtain ⟨p', hreached', hp⟩ := hp
    obtain ⟨q', hleads, hq⟩ := hp.transition hx hfits hreached hreached' ht
    exact ⟨q', hreached'.leads hleads, hq⟩

/-- Where one pass ends well, so does the other, with the same text but for the markers. -/
theorem process_of_fits (hx : x.Joins job job') (hfits : x.Fits job registry)
    (hroot : job.root.IsNormal) (registry' : Registry) {pieces : List Piece}
    (h : (Pass.process job registry).result = .ok pieces) :
    ∃ pieces', (Pass.process job' registry').result = .ok pieces' ∧
      Piece.unmarked pieces' = Piece.unmarked pieces := by
  obtain ⟨p, hreached, hf, rfl, _⟩ := Pass.exists_finished_of_process_eq_ok h
  obtain ⟨p', ⟨n, hn⟩, hp⟩ := followed_of_reached hx hfits hroot hreached registry'
  have hf' : p'.files = [] := by
    have hnesting := hp.nesting
    rw [hf] at hnesting
    exact hnesting.files_eq_nil
  -- With no file open, the other pass ends in its next step.
  have hlast : Pass.after job' (n + 1) (Pass.start job' registry') =
      .stop ⟨p'.registry, .ok p'.output.reverse⟩ := by
    rw [Pass.after_add, hn, Pass.after, Pass.after]
    exact (Pass.Disciplined.of_reached ⟨n, hn⟩).step_of_files_eq_nil job' hf'
  refine ⟨p'.output.reverse, by rw [Pass.process_of_after _ hlast], ?_⟩
  rw [Piece.unmarked_reverse, Piece.unmarked_reverse, hp.output]

end Passes
end Splice

/-- The preprocessor over files in memory, with a registry. -/
def Preprocessor.over (pre : Preprocessor) (m : Memory) (registry : Registry) : Preprocessor :=
  { pre with source := m.source, registry }

/-- **Including a file equals writing its lines in place.**  Let a file in memory have a line that
    includes another one, as `Splice.Fits` asks.  There is a text of this file with the lines of the
    other in place of the include, each behind the margin of the include; and with any such text, a
    pass that ended well ends well again, whatever the registry, and writes the same but for the
    markers. -/
theorem Preprocessor.process_inlined (pre : Preprocessor) (registry : Registry)
    (stored : List (Path × Content)) {m : Memory} (hm : m = Memory.ofList stored)
    (hreturn : ∀ f ∈ m.files, f.2.hasReturn = false) (x : Splice) (path : Path)
    (hhost : x.host = path.absolute Path.rootDir) {text : Text}
    (htext : m.source.find? x.host = some (.text text)) (hlines : text.lines = x.lines)
    (hfits : x.Fits (pre.over m registry).job registry) {pieces : List Piece}
    (h : (pre.over m registry).process.2 = .ok pieces) :
    (∃ text' : Text, text'.lines = x.spliced) ∧
    ∀ text' : Text, text'.lines = x.spliced → ∀ registry', ∃ pieces',
      (pre.over (m.write path (.text text')) registry').process.2 = .ok pieces' ∧
        Piece.unmarked pieces' = Piece.unmarked pieces := by
  have hnormal : m.IsNormal := hm ▸ Memory.isNormal_ofList stored
  constructor
  · -- A text has these lines only if none of them ends in a carriage return, which is why the
    -- stored files must have none.
    have clean : ∀ {path : Path} {t : Text}, m.source.find? path = some (.text t) → '\r' ∉ t := by
      intro path t hfind
      obtain ⟨f, hmem, _, hcontent⟩ := Source.mem_of_find?_eq_text hfind
      have hf := hreturn f hmem
      rw [hcontent] at hf
      simpa [Content.hasReturn] using hf
    obtain ⟨guest, hreadable, hincluded⟩ := hfits.readable
    exact Splice.exists_lines_eq_spliced hlines hincluded (clean htext) (clean hreadable)
  · intro text' hlines' registry'
    have hx : x.Joins (pre.over m registry).job
        (pre.over (m.write path (.text text')) registry').job :=
      Splice.joins_write hnormal rfl hhost htext hlines hlines'
    exact Splice.process_of_fits hx hfits (isNormal_root _) registry' h

/-- A loop with an indented include, and the included file, which has a loop of its own and uses the
    names of the outer one. -/
def Memory.indentedInclude : Memory := .ofList
  [(⟨"/main".toList⟩, .text "#for k, v in lights\n  #include \"part\"\n#endfor\n".toList),
   (⟨"/part".toList⟩, .text "#for i in 1..2\n #\x7bk\x7d#\x7bi\x7d = #\x7bv\x7d;\n#endfor".toList)]

/-- The include in it. -/
def Splice.indentedInclude : Splice where
  host := ⟨"/main".toList⟩
  guest := ⟨"/part".toList⟩
  before := ["#for k, v in lights".toList]
  raw := "  #include \"part\"".toList
  after := ["#endfor".toList]
  included :=
    ["#for i in 1..2".toList, " #\x7bk\x7d#\x7bi\x7d = #\x7bv\x7d;".toList, "#endfor".toList]

/-- `/main` with the lines of `/part`, moved to the right, in place of the include. -/
def inlinedInclude : Text :=
  "#for k, v in lights\n  #for i in 1..2\n".toList ++
    "   #\x7bk\x7d#\x7bi\x7d = #\x7bv\x7d;\n  #endfor\n#endfor".toList

/-- The include sits in a loop of its host, is indented and brings a loop that uses the outer names:
    every side condition is met, both passes succeed, and they agree but for the markers. -/
theorem Preprocessor.process_inlined_indentedInclude :
    Splice.indentedInclude.Fits (nestedLoops.over .indentedInclude {}).job {} ∧
    ∃ pieces pieces', (nestedLoops.over .indentedInclude {}).process.2 = .ok pieces ∧
      (nestedLoops.over (Memory.indentedInclude.write ⟨"/main".toList⟩ (.text inlinedInclude))
        {}).process.2 = .ok pieces' ∧
      Piece.unmarked pieces' = Piece.unmarked pieces := by
  have verbatim : ¬['#', '{'] <:+: Splice.indentedInclude.raw.content := by
    intro h
    have hbrace : '{' ∈ Splice.indentedInclude.raw.content := h.subset (by simp)
    exact absurd hbrace (by decide)
  have fits : Splice.indentedInclude.Fits (nestedLoops.over .indentedInclude {}).job {} :=
    ⟨verbatim, ⟨_, rfl, rfl⟩, ⟨_, rfl, by decide⟩, rfl, .inl (by decide)⟩
  -- The pass with the include is run to its end; that the other succeeds is what the theorem gives.
  obtain ⟨registry, pieces, ends⟩ : ∃ registry pieces,
      Pass.after (nestedLoops.over .indentedInclude {}).job 19
        (Pass.start (nestedLoops.over .indentedInclude {}).job {}) = .stop ⟨registry, .ok pieces⟩ :=
      ⟨_, _, rfl⟩
  have hok : (nestedLoops.over .indentedInclude {}).process.2 = .ok pieces :=
    congrArg Outcome.result (Pass.process_of_after 19 ends)
  have inlined := process_inlined nestedLoops {} _ rfl (by decide) .indentedInclude
    ⟨"/main".toList⟩ (by decide) rfl (by decide) fits hok
  have hlines : inlinedInclude.lines = Splice.indentedInclude.spliced := by decide
  obtain ⟨pieces', hok', hsame⟩ := inlined.2 _ hlines {}
  exact ⟨fits, pieces, pieces', hok, hok', hsame⟩

end ShaderWeave
