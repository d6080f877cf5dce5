/-
  The lines before the first marker.

  The root file begins without a marker, so what a pass writes before its first marker are lines of
  the root file (`Pass.Rooted`): to enter another file, or to come back from one, is to write a
  marker.  Compilers number the text before any marker as file 0.

  The root file need not have that number.  Number 0 belongs to the file that was registered first
  in the whole life of the registry (`Registry.first`), and keeps belonging to it when the root is
  changed.  So a log that names line `n` of file 0 is made to name the file registered first,
  whatever form the compiler uses (`CompilerLog.remap_call`, `CompilerLog.remap_error`), and it
  names the root file exactly where this is the root file.
-/
import ShaderWeave.Proofs.LogPlaces
import ShaderWeave.Proofs.Markers
import ShaderWeave.Proofs.Visits

namespace ShaderWeave

open Text (OneLine)

/-! ## Lines of the root file

  What is written before the first marker stands for lines of the file that the pass began with,
  since entering and leaving a file both write a marker.  `Rooted` says so of every state. -/

namespace Pass

/-- As long as no marker is written, only files of number `root` are open, and lines that were
    written before the first marker are lines of a file of this number. -/
structure Rooted (root : Nat) (p : Pass) : Prop where
  files : (∀ piece ∈ p.output, piece.isMarker = false) → ∀ f ∈ p.files, f.id = root
  lines : ∀ before piece after pos, p.output.reverse = before ++ piece :: after →
    (∀ piece ∈ before, piece.isMarker = false) → piece.origin? = some pos → pos.file = root

namespace Rooted

variable {job : Job} {p q : Pass} {root : Nat}

/-- A step that writes no marker opens no file. -/
theorem ids_of_transition (h : Transition job p q)
    (hn : ∀ piece ∈ q.output, piece.isMarker = false) :
    ∀ g ∈ q.files, ∃ f ∈ p.files, g.id = f.id := by
  have marked :
      ∀ {f : OpenFile} {pieces : List Piece}, q.output = marker job f :: pieces → False := by
    intro f pieces ho
    have := hn (marker job f) (mem_of_eq_cons ho)
    cases this
  -- A file that is read on, or back, keeps its number.
  have reread : ∀ {f f' : OpenFile} {outer : List OpenFile}, p.files = f :: outer →
      q.files = f' :: outer → f'.id = f.id → ∀ g ∈ q.files, ∃ f ∈ p.files, g.id = f.id := by
    intro f f' outer hf hq hid g hg
    rw [hq] at hg
    rcases List.mem_cons.1 hg with rfl | hg
    · exact ⟨f, mem_of_eq_cons hf, hid⟩
    · exact ⟨g, mem_of_mem_rest hf hg, rfl⟩
  cases h with
  | @leave f outer hf hu hl =>
    cases outer with
    | nil => exact fun g hg => absurd hg List.not_mem_nil
    | cons g outer => exact absurd rfl marked
  | @line f outer raw unread q hf hu he =>
    cases he with
    | skip => exact reread hf rfl rfl
    | deepen => exact reread hf rfl rfl
    | rise => exact reread hf rfl rfl
    | again => exact absurd rfl marked
    | close => exact absurd rfl marked
    | version => exact reread hf rfl rfl
    | platform => exact absurd rfl marked
    | inclusion => exact absurd rfl marked
    | openEmpty => exact reread hf rfl rfl
    | opens => exact absurd rfl marked
    | plain => exact reread hf rfl rfl

/-- Pieces are written behind others; those that stand for a line do so for a file of number `root`,
    if there was no marker before. -/
theorem lines_of_append {pieces : List Piece} (hp : Rooted root p)
    (ho : q.output = pieces ++ p.output)
    (hnew : (∀ piece ∈ p.output, piece.isMarker = false) →
      ∀ piece ∈ pieces, ∀ pos, piece.origin? = some pos → pos.file = root) :
    ∀ before piece after pos, q.output.reverse = before ++ piece :: after →
      (∀ piece ∈ before, piece.isMarker = false) → piece.origin? = some pos → pos.file = root := by
  intro before piece after pos hsplit hbefore hpos
  rw [ho, List.reverse_append] at hsplit
  rcases List.append_eq_append_iff.1 hsplit with ⟨rest, rfl, hrest⟩ | ⟨rest, hold, hrest⟩
  · -- All older pieces stand before this one.
    have hmem : piece ∈ pieces := by
      rw [← List.mem_reverse, hrest]
      simp
    refine hnew (fun piece' hmem' => ?_) piece hmem pos hpos
    exact hbefore piece' (List.mem_append_left _ (List.mem_reverse.2 hmem'))
  · cases rest with
    | nil =>
      -- It is the first of the new pieces.
      rw [List.append_nil] at hold
      have hmem : piece ∈ pieces := by
        rw [← List.mem_reverse, ← List.nil_append pieces.reverse, ← hrest]
        exact List.mem_cons_self
      refine hnew (fun piece' hmem' => ?_) piece hmem pos hpos
      exact hbefore piece' (by rw [← hold]; exact List.mem_reverse.2 hmem')
    -- It is an older piece.
    | cons piece' rest =>
      cases hrest
      exact hp.lines before piece rest pos hold hbefore hpos

/-- A step keeps this: a line that it writes is one of the innermost file, whose number is known as
    long as there was no marker. -/
theorem transition (hp : Rooted root p) (h : Transition job p q) : Rooted root q := by
  have hwrites := writes_of_transition h
  have none_of : ∀ {pieces : List Piece}, (∀ piece ∈ pieces, piece.origin? = none) →
      ∀ piece ∈ pieces, ∀ pos, piece.origin? = some pos → pos.file = root := by
    intro pieces hn piece hmem pos hpos
    rw [hn piece hmem] at hpos
    cases hpos
  obtain ⟨pieces, ho, hnew⟩ : ∃ pieces, q.output = pieces ++ p.output ∧
      ((∀ piece ∈ p.output, piece.isMarker = false) →
        ∀ piece ∈ pieces, ∀ pos, piece.origin? = some pos → pos.file = root) := by
    cases hwrites with
    | @marked f outer pieces hf ho hn =>
      refine ⟨marker job f :: pieces, ho, fun _ => none_of fun piece hmem => ?_⟩
      rcases List.mem_cons.1 hmem with rfl | hmem
      · rfl
      · exact hn piece hmem
    | @line f outer raw unread line piece hf hu hq ha ho hpos he hs =>
      refine ⟨[piece], ho, fun hclean piece' hmem pos hpos' => ?_⟩
      rw [List.mem_singleton.1 hmem, hpos] at hpos'
      cases hpos'
      exact hp.files hclean f (mem_of_eq_cons hf)
    | silent pieces ho hn => exact ⟨pieces, ho, fun _ => none_of hn⟩
  refine ⟨fun hn g hg => ?_, hp.lines_of_append ho hnew⟩
  obtain ⟨f, hf, hid⟩ := ids_of_transition h hn g hg
  rw [hid]
  refine hp.files (fun piece hmem => hn piece ?_) f hf
  rw [ho]
  exact List.mem_append_right _ hmem

/-- **Before the first marker, a pass writes lines of the root file.** -/
theorem of_reached {registry : Registry} (h : Reached job registry p) :
    Rooted (registry.register job.root true).2 p := by
  refine h.induct (fun p hp => ?_) fun p q _ hp h => hp.transition h
  obtain ⟨t, _, rfl⟩ := start_eq_next hp
  refine ⟨fun _ f hf => ?_, fun before piece after pos hsplit => ?_⟩
  · rw [List.mem_singleton.1 hf]
  · simp at hsplit

end Rooted
end Pass

/-! ## The file registered first

  The number 0 is given once, to the first file ever registered, and is that file's for good.
  Whether it is the root of the current pass depends on what was registered before. -/

namespace Registry

/-- The file of number 0 once `root` is registered: the one registered first, or `root` where there
    was none. -/
def first (r : Registry) (root : Path) : Path := r.entries.head?.elim root (·.path)

/-- Once a root is registered, number 0 is that of the file registered first; registering never
    gives it to another. -/
theorem Indexed.pathOf?_zero_register {r : Registry} (h : r.Indexed) (root : Path) (track : Bool) :
    (r.register root track).1.pathOf? 0 = some (r.first root) := by
  cases he : r.entries with
  | nil =>
    -- Without entries no path has a number, so the root gets the first.
    have hnone : r.idOf? root = none := by
      rw [Option.eq_none_iff_forall_ne_some]
      intro id hid
      obtain ⟨e, hentry, _⟩ := h.exists_entry_at hid
      rw [he] at hentry
      cases hentry
    have hnew : (r.register root track).1.entries = [⟨root, 0, track⟩] := by
      rcases register_cases r root track with ⟨_, hid, _⟩ | ⟨_, _, hid, _⟩ | ⟨_, hr⟩
      · rw [hnone] at hid
        cases hid
      · rw [hnone] at hid
        cases hid
      · rw [hr]
        split <;> simp [Registry.append, he]
    rw [pathOf?, hnew, first, he]
    rfl
  | cons e rest =>
    have hzero : r.pathOf? 0 = some (r.first root) := by
      rw [pathOf?, first, he]
      rfl
    exact (keeps_register r root track).pathOf? hzero

/-- The path of number 0 has number 0. -/
theorem Indexed.idOf?_first {r : Registry} (h : r.Indexed) {path : Path}
    (hp : r.pathOf? 0 = some path) : r.idOf? path = some 0 := by
  obtain ⟨e, he, rfl⟩ := Option.map_eq_some_iff.1 hp
  exact h.idOf?_path he

end Registry

/-- The root file of a pass that gets anywhere is there. -/
theorem Pass.find?_root_of_reached {job : Job} {registry : Registry} {p : Pass}
    (h : Reached job registry p) : ∃ t, job.source.find? job.root = some (.text t) := by
  obtain ⟨n, hn⟩ := h
  cases hs : start job registry with
  | stop o =>
    rw [hs, after_stop] at hn
    cases hn
  | next p₀ =>
    obtain ⟨t, ht, _⟩ := start_eq_next hs
    exact ⟨t, ht⟩

/-- After a pass that ends well, number 0 is that of the file registered first. -/
theorem Preprocessor.pathOf?_zero {p : Preprocessor} (h : p.registry.Indexed) {pieces : List Piece}
    (hok : p.process.2 = .ok pieces) :
    p.process.1.registry.pathOf? 0 = some (p.registry.first p.job.root) := by
  obtain ⟨q, hreached, _⟩ := Pass.exists_reached_of_process_eq_ok hok
  obtain ⟨t, ht⟩ := Pass.find?_root_of_reached hreached
  obtain ⟨n, hn⟩ := p.exists_registry_eq
  have hroot := h.pathOf?_zero_register p.job.root true
  rw [hn, Pass.visitsFrom, ht]
  exact (Registry.keeps_registerAll (p.registry.register p.job.root true).1 _).pathOf? hroot

/-! ## Logs

  A compiler names a place by a number and a line, in one of two forms.  That a log with one place
  is rewritten to the path and the line is read off the readers of both forms. -/

namespace Text

/-- The digits of a number are decimal digits. -/
theorem isDigit_of_mem_ofNat {n : Nat} {c : Char} (h : c ∈ ofNat n) : isDigit c = true := by
  have hc : c.isDigit = true := Nat.isDigit_of_mem_toDigits (by decide) (by decide) h
  simp only [Char.isDigit, Bool.and_eq_true, decide_eq_true_eq] at hc
  have hlow : 0x30 ≤ c.toNat := UInt32.le_iff_toNat_le.1 hc.1
  have hhigh : c.toNat ≤ 0x39 := UInt32.le_iff_toNat_le.1 hc.2
  have hzero : 0x30 ∈ digitZeros := List.mem_cons_self
  refine List.any_eq_true.2 ⟨0x30, hzero, ?_⟩
  rw [Bool.and_eq_true, decide_eq_true_eq, decide_eq_true_eq]
  exact ⟨hlow, hhigh⟩

/-- And there is at least one. -/
theorem ofNat_ne_nil (n : Nat) : ofNat n ≠ [] := Nat.toDigits_ne_nil

end Text

namespace CompilerLog

/-- Line `n` of file 0, as a place in the form with parentheses. -/
def callForm (n : Nat) : Text := '0' :: '(' :: (Text.ofNat n ++ [')'])

/-- Line `n` of file 0, as a place in the form with a label. -/
def errorForm (n : Nat) : Text := "ERROR: 0:".toList ++ Text.ofNat n

/-- What a place of a registered file is replaced by. -/
def named (path : Path) (n : Nat) : Text := path.text ++ '(' :: (Text.ofNat n ++ [')'])

/-- A number is written with digits of a place. -/
theorem isNumber_ofNat (n : Nat) : IsNumber (Text.ofNat n) :=
  ⟨Text.ofNat_ne_nil n, fun _ => Text.isDigit_of_mem_ofNat⟩

/-! Both forms are found by their readers, the second if no digit follows, which would belong to the
    line. -/

theorem callPlace?_callForm (n : Nat) (rest : Text) :
    callPlace? (callForm n ++ rest) = some ⟨['0'], Text.ofNat n, (callForm n).length⟩ :=
  callPlace?_eq_some_iff.2 ⟨callForm n, rest, rfl, .call (isNumber_ofNat 0) (isNumber_ofNat n), rfl⟩

theorem errorPlace?_errorForm (n : Nat) {rest : Text}
    (hrest : ∀ c ∈ rest.head?, Text.isDigit c = false) :
    errorPlace? (errorForm n ++ rest) = some ⟨['0'], Text.ofNat n, (errorForm n).length⟩ := by
  have hs : Spells .error ['0'] (Text.ofNat n) (errorForm n) rest :=
    .error (List.forall_mem_singleton.2 rfl) (isNumber_ofNat 0) (isNumber_ofNat n) hrest
  exact errorPlace?_eq_some_iff.2 ⟨errorForm n, rest, rfl, hs, rfl⟩

/-- Either is replaced by what the path of number 0 and the line make up. -/
theorem replacement_zero {r : Registry} {path : Path} (h : r.pathOf? 0 = some path) (t : Text)
    (n width : Nat) : replacement r t ⟨['0'], Text.ofNat n, width⟩ = named path n := by
  have hpath : CompilerLog.pathOf? r ['0'] = some path := h
  unfold replacement
  rw [hpath]
  rfl

/-- A log that names line `n` of file 0 is made to name the file of number 0. -/
theorem remap_call {r : Registry} {path : Path} (h : r.pathOf? 0 = some path) (n : Nat)
    {rest : Text} (hrest : OneLine rest) : remap r (callForm n ++ rest) = named path n ++ rest := by
  have hline : OneLine (callForm n ++ rest) := by
    refine Text.oneLine_append.2 ⟨?_, hrest⟩
    refine Text.oneLine_cons.2 ⟨by decide, Text.oneLine_cons.2 ⟨by decide, ?_⟩⟩
    exact Text.oneLine_append.2 ⟨Text.oneLine_ofNat n, by decide⟩
  -- The pass over the other form comes first and finds nothing: the label does not start with a
  -- digit.
  have hother : errorPlace? (callForm n ++ rest) = none := rfl
  unfold remap
  rw [replacePlaces_of_oneLine hline fun _ => hother,
    replacePlaces_place (callPlace?_callForm n rest) rfl (List.cons_ne_nil _ _), replacement_zero h,
    replacePlaces_within hrest]

/-- So is one that names it in the other form; a rooted path does not look like a place itself. -/
theorem remap_error {r : Registry} {path : Path} (h : r.pathOf? 0 = some path)
    (hrooted : path.text.head? = some '/') (hpath : OneLine path.text) (n : Nat) {rest : Text}
    (hdigit : ∀ c ∈ rest.head?, Text.isDigit c = false) (hrest : OneLine rest) :
    remap r (errorForm n ++ rest) = named path n ++ rest := by
  have hline : OneLine (named path n ++ rest) := by
    refine Text.oneLine_append.2 ⟨Text.oneLine_append.2 ⟨hpath, ?_⟩, hrest⟩
    refine Text.oneLine_cons.2 ⟨by decide, ?_⟩
    exact Text.oneLine_append.2 ⟨Text.oneLine_ofNat n, by decide⟩
  -- The second pass reads what the first has written, and this starts with a slash.
  have hother : callPlace? (named path n ++ rest) = none := by
    obtain ⟨c, text, htext⟩ : ∃ c text, path.text = c :: text := by
      cases ht : path.text with
      | nil =>
        rw [ht] at hrooted
        cases hrooted
      | cons c text => exact ⟨c, text, rfl⟩
    rw [htext] at hrooted
    cases hrooted
    rw [named, htext]
    rfl
  have hne : errorForm n ≠ [] := List.append_ne_nil_of_left_ne_nil (by decide) _
  unfold remap
  rw [replacePlaces_place (errorPlace?_errorForm n hdigit) rfl hne, replacement_zero h,
    replacePlaces_within hrest, replacePlaces_of_oneLine hline fun _ => hother]

/-- What a place is replaced by tells the path. -/
theorem named_append_inj {p q : Path} {n : Nat} {rest : Text} :
    named p n ++ rest = named q n ++ rest ↔ p = q := by
  constructor
  · intro h
    have htext : p.text = q.text := List.append_cancel_right (List.append_cancel_right h)
    cases p
    cases q
    exact congrArg Path.mk htext
  · rintro rfl
    rfl

end CompilerLog

/-! ## Sessions

  A session keeps the file that was registered first, whatever its commands are; so the question
  which file the number 0 names is settled by the first pass of the session that finds its root. -/

/-- A path seen from the root directory starts there. -/
theorem Path.head?_absolute_rootDir (p : Path) : (p.absolute rootDir).text.head? = some '/' := by
  have hjoin : (rootDir.join p).isRooted = true := by
    unfold join
    split
    · next h => exact h
    · rfl
  rw [absolute, normalize, hjoin]
  rfl

namespace Session

/-- Paths are seen from the root directory, and so were all that are registered. -/
structure Anchored (s : Session) : Prop where
  cwd : s.preprocessor.source.cwd = Path.rootDir
  entries : ∀ e ∈ s.registry.entries, e.path.text.head? = some '/'

/-! A pass registers absolute paths, and no command changes the directory they are seen from. -/

theorem anchored_process {s : Session} (h : s.Anchored) :
    ∀ e ∈ s.preprocessor.process.1.registry.entries, e.path.text.head? = some '/' := by
  obtain ⟨n, hn⟩ := s.preprocessor.exists_registry_eq
  rw [hn]
  refine Registry.forall_path_registerAll (P := fun path => path.text.head? = some '/')
    h.entries fun v hv => ?_
  obtain ⟨q, hq⟩ := Pass.exists_absolute_of_mem_visitsFrom ⟨s.preprocessor.filename, rfl⟩ v hv
  rw [hq]
  show (q.absolute s.preprocessor.source.cwd).text.head? = _
  rw [h.cwd]
  exact q.head?_absolute_rootDir

theorem anchored_perform {s : Session} (h : s.Anchored) (c : Command) :
    (s.perform c).1.Anchored := by
  have haffects := affects_perform s c
  have hprocess := anchored_process h
  obtain ⟨hcwd, hentries⟩ := h
  suffices hq : (s.perform c).1.preprocessor.source.cwd = Path.rootDir ∧
      ∀ e ∈ (s.perform c).1.preprocessor.registry.entries, e.path.text.head? = some '/' from
    ⟨hq.1, hq.2⟩
  generalize (s.perform c).1.preprocessor = q at haffects
  -- A pass has been dealt with; what is left changes the source to one in memory, or not at all,
  -- and tells others, but registers nothing.
  cases haffects with
  | processed => exact ⟨hcwd, hprocess⟩
  | changed hs hr =>
    constructor
    · rcases hs with hs | ⟨m, hs⟩
      · rw [hs]
        exact hcwd
      · rw [hs]
        rfl
    · rw [hr.entries_eq]
      exact hentries

/-- So it is in every session. -/
theorem IsReached.anchored {s : Session} (h : s.IsReached) : s.Anchored :=
  h.induct (fun _ _ _ _ => ⟨rfl, fun _ hmem => absurd hmem List.not_mem_nil⟩)
    fun _ c hs => anchored_perform hs c

/-- The file registered first is spelled from the root directory. -/
theorem Anchored.head?_first {s : Session} (h : s.Anchored) :
    (s.registry.first s.preprocessor.job.root).text.head? = some '/' := by
  unfold Registry.first
  cases he : s.registry.entries with
  | nil =>
    show (s.preprocessor.filename.absolute s.preprocessor.source.cwd).text.head? = _
    rw [h.cwd]
    exact Path.head?_absolute_rootDir _
  | cons e rest => exact h.entries e (mem_of_eq_cons he)

/-- **When lines before the first marker are named after the root file.**  They are lines of the
    root file always.  The number of the root file is 0, and a compiler's log that names them as
    lines of file 0 is made to name the root file, exactly where the root is the file registered
    first in the life of the session. -/
theorem zero_names_root_iff {s : Session} (hs : s.IsReached) {before after : List Piece}
    {piece : Piece} {pos : Position}
    (hok : s.preprocessor.process.2 = .ok (before ++ piece :: after))
    (hbefore : ∀ piece ∈ before, piece.isMarker = false) (hpos : piece.origin? = some pos) :
    s.preprocessor.process.1.registry.idOf? s.preprocessor.job.root = some pos.file ∧
    (pos.file = 0 ↔ s.registry.first s.preprocessor.job.root = s.preprocessor.job.root) ∧
    (∀ n rest, OneLine rest →
      (CompilerLog.remap s.preprocessor.process.1.registry (CompilerLog.callForm n ++ rest) =
          CompilerLog.named s.preprocessor.job.root n ++ rest ↔
        s.registry.first s.preprocessor.job.root = s.preprocessor.job.root)) ∧
    ∀ n rest, OneLine rest → (∀ c ∈ rest.head?, Text.isDigit c = false) →
      OneLine (s.registry.first s.preprocessor.job.root).text →
      (CompilerLog.remap s.preprocessor.process.1.registry (CompilerLog.errorForm n ++ rest) =
          CompilerLog.named s.preprocessor.job.root n ++ rest ↔
        s.registry.first s.preprocessor.job.root = s.preprocessor.job.root) := by
  obtain ⟨p, hreached, houtput, hregistry⟩ := Pass.exists_reached_of_process_eq_ok hok
  have hregistry : p.registry = s.preprocessor.process.1.registry := hregistry
  have hsound := Preprocessor.sound_process (p := s.preprocessor) hs.arises.sound
  have hfile := (Pass.Rooted.of_reached hreached).lines before piece after pos houtput hbefore hpos
  have hroot := Pass.idOf?_root_of_reached hreached
  rw [← hfile, hregistry] at hroot
  have hzero : s.preprocessor.process.1.registry.pathOf? 0 =
      some (s.registry.first s.preprocessor.job.root) :=
    Preprocessor.pathOf?_zero hs.arises.sound.toIndexed hok
  refine ⟨hroot, ⟨fun hpos => ?_, fun hfirst => ?_⟩, fun n rest hrest => ?_,
    fun n rest hrest hdigit hpath => ?_⟩
  · -- A root of number 0 is the path of number 0.
    have hback := hsound.pathOf?_of_idOf? s.preprocessor.isNormal_root hroot
    rw [hpos, hzero] at hback
    exact Option.some.inj hback
  · -- The file registered first has number 0, and the root one number only.
    rw [hfirst] at hzero
    rw [hsound.toIndexed.idOf?_first hzero] at hroot
    exact (Option.some.inj hroot).symm
  · rw [CompilerLog.remap_call hzero n hrest]
    exact CompilerLog.named_append_inj
  · rw [CompilerLog.remap_error hzero hs.anchored.head?_first hpath n hdigit hrest]
    exact CompilerLog.named_append_inj

/-- Two files that include nothing. -/
def twoFiles : Memory :=
  .ofList [(⟨"/a".toList⟩, .text "int a;\n".toList), (⟨"/b".toList⟩, .text "int b;\n".toList)]

/-- A session that passed over the one and then has the other as its root. -/
def rootChanged : Session :=
  (ofFiles twoFiles ⟨"/a".toList⟩ .empty {}).run [.process, .setFilename ⟨"/b".toList⟩]

/-- The preprocessor of that session: the old root is still registered. -/
theorem preprocessor_rootChanged : rootChanged.preprocessor =
    ⟨⟨"/b".toList⟩, .empty, {}, twoFiles.source, Registry.append {} ⟨"/a".toList⟩ true⟩ := by
  let start : Session := ofFiles twoFiles ⟨"/a".toList⟩ .empty {}
  have ends : Pass.after start.preprocessor.job 3 (Pass.start start.preprocessor.job {}) =
      .stop ⟨Registry.append {} ⟨"/a".toList⟩ true, .ok [.source 0 1 "int a;".toList]⟩ := rfl
  have hprocess : start.preprocessor.process.1 =
      { start.preprocessor with registry := Registry.append {} ⟨"/a".toList⟩ true } :=
    congrArg (fun o : Outcome => { start.preprocessor with registry := o.registry })
      (Pass.process_of_after 3 ends)
  have hfilename : ∀ s : Session, (s.perform (.setFilename ⟨"/b".toList⟩)).1.preprocessor =
      s.preprocessor.setFilename ⟨"/b".toList⟩ := fun _ => rfl
  show ((start.perform .process).1.perform (.setFilename ⟨"/b".toList⟩)).1.preprocessor = _
  rw [hfilename, preprocessor_process, hprocess, Preprocessor.setFilename, if_neg (by decide)]
  rfl

/-- Its pass gives the new root the number 1, and writes its line without a marker. -/
theorem process_rootChanged : rootChanged.preprocessor.process =
    ({ rootChanged.preprocessor with
        registry := (Registry.append {} ⟨"/a".toList⟩ true).append ⟨"/b".toList⟩ true },
      .ok [.source 1 1 "int b;".toList]) := by
  rw [preprocessor_rootChanged]
  generalize hp : Preprocessor.mk ⟨"/b".toList⟩ .empty {} twoFiles.source
    (Registry.append {} ⟨"/a".toList⟩ true) = p
  have ends : Pass.after p.job 3 (Pass.start p.job p.registry) =
      .stop ⟨(Registry.append {} ⟨"/a".toList⟩ true).append ⟨"/b".toList⟩ true,
        .ok [.source 1 1 "int b;".toList]⟩ := by
    subst hp
    rfl
  unfold Preprocessor.process
  rw [Pass.process_of_after 3 ends]

/-- **The root file need not have number 0**: after the root was changed, a line of the new root,
    written without a marker, is of file 1, and a log that names it as a line of file 0 is made to
    name the old root. -/
theorem compile_rootChanged :
    rootChanged.preprocessor.process.2 = .ok [.source 1 1 "int b;".toList] ∧
    rootChanged.preprocessor.process.1.registry.idOf? rootChanged.preprocessor.job.root = some 1 ∧
    (rootChanged.perform (.compile (some "0(1) : error".toList))).2 =
      .compiled ⟨"int b;\n".toList, some "/a(1) : error".toList⟩ := by
  have hcompile : (rootChanged.perform (.compile (some "0(1) : error".toList))).2 =
      .compiled ⟨"int b;\n".toList, some "/a(1) : error".toList⟩ := by
    unfold perform Preprocessor.compile
    rw [process_rootChanged]
    rfl
  refine ⟨by rw [process_rootChanged], ?_, hcompile⟩
  rw [process_rootChanged, preprocessor_rootChanged]
  rfl

/-- In that session the root is not the file registered first, so a log about file 0 is made to name
    another file. -/
theorem zero_names_root_iff_rootChanged :
    rootChanged.IsReached ∧
    rootChanged.preprocessor.process.2 = .ok ([] ++ .source 1 1 "int b;".toList :: []) ∧
    (∀ piece ∈ ([] : List Piece), piece.isMarker = false) ∧
    rootChanged.registry.first rootChanged.preprocessor.job.root ≠
      rootChanged.preprocessor.job.root ∧
    CompilerLog.remap rootChanged.preprocessor.process.1.registry "0(1) : error".toList ≠
      "/b(1) : error".toList := by
  have hok :
      rootChanged.preprocessor.process.2 = .ok ([] ++ .source 1 1 "int b;".toList :: []) := by
    rw [process_rootChanged]
    rfl
  have hreached : rootChanged.IsReached := ⟨_, _, _, _, _, rfl⟩
  have hnone : ∀ piece ∈ ([] : List Piece), piece.isMarker = false :=
    fun _ h => absurd h List.not_mem_nil
  have hother : rootChanged.registry.first rootChanged.preprocessor.job.root ≠
      rootChanged.preprocessor.job.root := by
    rw [registry, preprocessor_rootChanged]
    decide
  -- Were the log made to name the root, the root would be the file registered first.
  obtain ⟨_, _, hcall, _⟩ := zero_names_root_iff hreached hok hnone rfl
  refine ⟨hreached, hok, hnone, hother,
    fun h => hother ((hcall 1 " : error".toList (by decide)).1 ?_)⟩
  rw [preprocessor_rootChanged] at h ⊢
  exact h

end Session
end ShaderWeave
