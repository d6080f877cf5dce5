/-
  Lines in the place of an include.

  A `Splice` is a line of a file that includes another file, with the lines of both files around it.
  The lines of the included file, each behind the margin of the include, stand for the include; here
  is what this does to the texts that a pass reads and to the files it finds:

    * a line behind a margin has the same content and the longer margin (`Text.content_append`);
    * what two passes still have to read of a file is *alike*: the same lines; the include in one of
      them and the included lines in the other; or, inside the included file, the lines of this file
      in one and the same lines behind the margin, with the rest of the including file, in the other
      (`Alike`);
    * a file that is written to memory anew leaves all includes where they led, and all other files
      as they were (`Joins`).
-/
import Mathlib.Data.List.TakeWhile
import ShaderWeave.Proofs.Body
import ShaderWeave.Proofs.Positions
import ShaderWeave.Proofs.Sources
import ShaderWeave.Proofs.Visits

namespace ShaderWeave

/-! ## Margins

  The white space in front of a line goes into its margin and nowhere else, so more of it in front
  makes the margin longer and leaves the content. -/

namespace Text

/-- A margin is made of the characters that may be in one. -/
theorem isMargin_of_mem_margin {t : Text} {c : Char} (h : c ∈ t.margin) : isMargin c = true :=
  List.mem_takeWhile_imp h

variable {s : Text}

/-! More of these in front of a line lengthen its margin, and leave its content. -/

theorem margin_append (hs : ∀ c ∈ s, isMargin c = true) (t : Text) :
    margin (s ++ t) = s ++ t.margin :=
  List.takeWhile_append_of_pos hs

theorem content_append (hs : ∀ c ∈ s, isMargin c = true) (t : Text) :
    content (s ++ t) = t.content := by
  unfold content
  rw [List.dropWhile_append_of_pos hs]

/-! ## Lines put together

  A text is split at line feeds, and a carriage return before one is dropped.  Lines without either
  are therefore got back from the text in which each has a line feed behind it. -/

/-- A text in which neither a line feed nor a carriage return is. -/
def Clean (t : Text) : Prop := '\n' ∉ t ∧ '\r' ∉ t

/-- Lines, each with a line feed at its end. -/
def ofLines (lines : List Text) : Text := lines.flatMap (· ++ ['\n'])

/-- Clean lines put one behind the other are clean. -/
theorem clean_append {a b : Text} (ha : Clean a) (hb : Clean b) : Clean (a ++ b) :=
  ⟨oneLine_append.2 ⟨ha.1, hb.1⟩, by simp [ha.2, hb.2]⟩

/-- The margin is a part of the line. -/
theorem Clean.margin {t : Text} (h : Clean t) : Clean t.margin :=
  ⟨oneLine_margin h.1, fun hr => h.2 ((List.takeWhile_sublist _).subset hr)⟩

/-- The lines of a text without carriage returns are clean: each character of a line is one of the
    text. -/
theorem clean_of_mem_lines {t line : Text} (ht : '\r' ∉ t) (h : line ∈ t.lines) : Clean line := by
  refine ⟨oneLine_of_mem_lines h, fun hr => ht ?_⟩
  clear ht
  fun_induction lines t generalizing line with
  | case1 => cases h
  | case2 rest ih =>
    rcases List.mem_cons.1 h with rfl | h
    · cases hr
    · exact List.mem_cons_of_mem _ (ih h hr)
  | case3 rest ih => exact List.mem_cons_self
  | case4 c rest hn _ he ih =>
    rw [List.mem_singleton.1 h, List.mem_singleton] at hr
    rw [hr]
    exact List.mem_cons_self
  | case5 c rest hn _ first more he ih =>
    rw [he] at ih
    rcases List.mem_cons.1 h with rfl | h
    · rcases List.mem_cons.1 hr with rfl | hr
      · exact List.mem_cons_self
      · exact List.mem_cons_of_mem _ (ih List.mem_cons_self hr)
    · exact List.mem_cons_of_mem _ (ih (List.mem_cons_of_mem _ h) hr)

/-- No carriage return is dropped where none is. -/
theorem chop_of_not_mem {line : Text} (h : '\r' ∉ line) : chop line = line := by
  fun_induction chop line with
  | case1 => rfl
  | case2 => exact absurd List.mem_cons_self h
  | case3 c line _ ih => rw [ih fun hr => h (List.mem_cons_of_mem _ hr)]

/-- Clean lines are read back. -/
theorem lines_ofLines {ls : List Text} (h : ∀ line ∈ ls, Clean line) : (ofLines ls).lines = ls := by
  induction ls with
  | nil => rfl
  | cons line ls ih =>
    rw [List.forall_mem_cons] at h
    have hfirst : ofLines (line :: ls) = line ++ '\n' :: ofLines ls := by simp [ofLines]
    rw [hfirst, lines_cons h.1.1, chop_of_not_mem h.1.2, ih h.2]

end Text

/-- Whether a carriage return is in the text of a file. -/
def Content.hasReturn : Content → Bool
  | .text t => t.contains '\r'
  | .unreadable _ => false

/-- A body behind a margin is a body. -/
theorem Body.exists_lines_eq_map {s : Text} (hs : ∀ c ∈ s, Text.isMargin c = true) (b : Body) :
    ∃ b' : Body, b'.lines = b.lines.map (s ++ ·) := by
  have hopens : ∀ t : Text, Text.opens (s ++ t) = t.opens := fun t => by
    rw [Text.opens, Text.content_append hs, Text.opens]
  have hcloses : ∀ t : Text, Text.closes (s ++ t) = t.closes := fun t => by
    rw [Text.closes, Text.content_append hs, Text.closes]
  induction b with
  | done => exact ⟨done, rfl⟩
  | line raw hp rest ih =>
    -- Whether a line opens or closes a loop is seen from its content, which stays.
    obtain ⟨rest', hrest⟩ := ih
    refine ⟨line (s ++ raw) ⟨by rw [hopens, hp.1], by rw [hcloses, hp.2]⟩ rest', ?_⟩
    rw [lines, hrest, lines, List.map_cons]
  | loop header ho body close hc rest ihb ihr =>
    obtain ⟨body', hbody⟩ := ihb
    obtain ⟨rest', hrest⟩ := ihr
    refine ⟨loop (s ++ header) (by rw [hopens, ho]) body' (s ++ close) (by rw [hcloses, hc]) rest',
      ?_⟩
    rw [lines, hbody, hrest, lines, List.map_cons, List.map_append, List.map_cons]

/-! ## Includes

  An include is never a line in which a token is expanded, nor is it taken for another directive;
  and where a line stands is of no matter to what it is expanded to.  So the include itself is done
  alike wherever it is met, and it is the lines behind it that are to be compared. -/

/-- What a line asks for by an include starts with the word. -/
theorem Directive.exists_of_parse_eq_inclusion {line : Text} {i : Inclusion}
    (h : parse line = .ok (.inclusion i)) : ∃ rest, line = "#include".toList ++ rest := by
  unfold parse at h
  split at h
  · cases h
  · split at h
    · cases h
    · split at h
      · next rest hrest => exact ⟨rest, (List.isPrefixOf?_eq_some_iff_append_eq.1 hrest).symm⟩
      · cases hl : LoopHeader.read line with
        | error fault =>
          rw [hl] at h
          cases h
        | ok header? =>
          rw [hl] at h
          cases header? <;> cases h

/-- A line without `#{` is expanded to itself. -/
theorem Substitution.expandLine_of_not_infix {line : Text} (h : ¬['#', '{'] <:+: line)
    (env : Environment) (limit : Nat) (loc : Location) :
    expandLine env limit loc line = .ok line := by
  have hcut : cutLastOpening line = none := by
    cases hc : cutLastOpening line with
    | none => rfl
    | some cut =>
      obtain ⟨before, rest⟩ := cut
      refine absurd ⟨before, rest, ?_⟩ h
      rw [eq_append_of_cutLastOpening hc]
      simp
  unfold expandLine expandWithin lastToken
  rw [hcut]

/-- Where a line stands shows in errors only. -/
theorem Substitution.expandLine_eq_ok {env : Environment} {limit : Nat} {loc : Location}
    {line out : Text} (h : expandLine env limit loc line = .ok out) (loc' : Location) :
    expandLine env limit loc' line = .ok out := by
  -- By induction on the substitutions that are left; the place stands in the errors, and there is
  -- none.
  have within : ∀ (left : Nat) (line : Text), expandWithin env limit loc left line = .ok out →
      expandWithin env limit loc' left line = .ok out := by
    intro left
    induction left with
    | zero =>
      intro line h
      rw [expandWithin] at h ⊢
      cases ht : lastToken line with
      | absent =>
        rw [ht] at h
        exact h
      | unclosed =>
        rw [ht] at h
        cases h
      | found =>
        rw [ht] at h
        cases h
    | succ left ih =>
      intro line h
      rw [expandWithin] at h ⊢
      cases ht : lastToken line with
      | absent =>
        rw [ht] at h
        exact h
      | unclosed =>
        rw [ht] at h
        cases h
      | found before name after =>
        rw [ht] at h
        simp only at h ⊢
        cases he : env.expand name with
        | error fault =>
          rw [he] at h
          cases h
        | ok text =>
          rw [he] at h
          exact ih _ h
  exact within limit line h

/-- A line of a file that includes another file. -/
structure Splice where
  /-- The file with the include. -/
  host : Path
  /-- The file that is included. -/
  guest : Path
  /-- The lines of the host before the include. -/
  before : List Text
  /-- The include. -/
  raw : Text
  /-- The lines of the host after the include. -/
  after : List Text
  /-- The lines of the guest. -/
  included : List Text

namespace Splice

/-- The lines of the guest behind the margin of the include. -/
def inlined (x : Splice) : List Text := x.included.map (x.raw.margin ++ ·)

/-- The lines of the host. -/
def lines (x : Splice) : List Text := x.before ++ x.raw :: x.after

/-- The lines of the host with those of the guest in place of the include. -/
def spliced (x : Splice) : List Text := x.before ++ (x.inlined ++ x.after)

/-- There is a text with the lines in place, if no carriage return is in either file. -/
theorem exists_lines_eq_spliced {x : Splice} {text guest : Text} (hlines : text.lines = x.lines)
    (hguest : guest.lines = x.included) (ht : '\r' ∉ text) (hg : '\r' ∉ guest) :
    ∃ text' : Text, text'.lines = x.spliced := by
  have hhost : ∀ line ∈ x.lines, Text.Clean line :=
    fun line hline => Text.clean_of_mem_lines ht (hlines ▸ hline)
  unfold lines at hhost
  refine ⟨_, Text.lines_ofLines fun line hline => ?_⟩
  rcases List.mem_append.1 hline with hline | hline
  · exact hhost line (List.mem_append_left _ hline)
  · rcases List.mem_append.1 hline with hline | hline
    · obtain ⟨own, hown, rfl⟩ := List.mem_map.1 hline
      exact Text.clean_append (hhost x.raw (by simp)).margin
        (Text.clean_of_mem_lines hg (hguest ▸ hown))
    · exact hhost line (by simp [hline])

/-- What stands in front of a line in place: the margin of the include, inside the guest. -/
def pad (x : Splice) (inside : Bool) : Text := if inside then x.raw.margin else []

/-- What two passes have still to read of the file `path`, with the include and with the lines in
    place. -/
inductive Alike (x : Splice) (path : Path) : Bool → List Text → List Text → Prop where
  | same (unread : List Text) : Alike x path false unread unread
  | ahead (hp : path = x.host) (ahead : List Text) :
      Alike x path false (ahead ++ x.raw :: x.after) (ahead ++ (x.inlined ++ x.after))
  | inside (unread : List Text) :
      Alike x path true unread (unread.map (x.raw.margin ++ ·) ++ x.after)

variable {x : Splice} {path : Path} {inside : Bool} {raw : Text} {unread unread' : List Text}

/-! If all is read outside the included file, all is read on the other side, and at its end the
    other pass has the rest of the including file to read. -/

theorem Alike.eq_nil (h : x.Alike path false [] unread') : unread' = [] := by
  generalize hu : ([] : List Text) = unread at h
  cases h with
  | same => rfl
  | ahead hp ahead => cases ahead <;> cases hu

theorem Alike.eq_after (h : x.Alike path true [] unread') : unread' = x.after := by
  cases h with
  | inside => rfl

/-- **The line read next** has the same content in both passes, unless it is the include. -/
theorem Alike.cons (h : x.Alike path inside (raw :: unread) unread') :
    (∃ raw' more, unread' = raw' :: more ∧ raw'.content = raw.content ∧
      raw'.margin = x.pad inside ++ raw.margin ∧ x.Alike path inside unread more) ∨
    (inside = false ∧ path = x.host ∧ raw = x.raw ∧ unread = x.after ∧
      unread' = x.inlined ++ x.after) := by
  generalize hu : raw :: unread = all at h
  cases h with
  | same => exact .inl ⟨raw, unread, hu.symm, rfl, rfl, .same unread⟩
  | ahead hp ahead =>
    cases ahead with
    | nil =>
      obtain ⟨rfl, rfl⟩ := List.cons.inj hu
      exact .inr ⟨rfl, hp, rfl, rfl, rfl⟩
    | cons line ahead =>
      obtain ⟨rfl, rfl⟩ := List.cons.inj hu
      exact .inl ⟨_, _, rfl, rfl, rfl, .ahead hp ahead⟩
  | inside =>
    subst hu
    have hs : ∀ c ∈ x.raw.margin, Text.isMargin c = true := fun c => Text.isMargin_of_mem_margin
    exact .inl ⟨_, _, rfl, Text.content_append hs raw, Text.margin_append hs raw, .inside unread⟩

/-- Two jobs that differ in the text of the host only: the include, or the lines in its place. -/
structure Joins (x : Splice) (job job' : Job) : Prop where
  config : job'.config = job.config
  dictionary : job'.dictionary = job.dictionary
  root : job'.root = job.root
  resolve : Pass.resolve? job' = Pass.resolve? job
  elsewhere : ∀ path, path.IsNormal → path ≠ x.host → job'.source.find? path = job.source.find? path
  host : ∃ text, job.source.find? x.host = some (.text text) ∧ text.lines = x.lines
  host' : ∃ text, job'.source.find? x.host = some (.text text) ∧ text.lines = x.spliced

/-- A file that one job finds is found by the other, with lines that are alike. -/
theorem Joins.find? {job job' : Job} (h : x.Joins job job') (hp : path.IsNormal) {text : Text}
    (hf : job.source.find? path = some (.text text)) :
    ∃ text', job'.source.find? path = some (.text text') ∧
      x.Alike path false text.lines text'.lines := by
  by_cases hhost : path = x.host
  · obtain ⟨_, htext, hlines⟩ := h.host
    obtain ⟨text', htext', hlines'⟩ := h.host'
    subst hhost
    rw [htext] at hf
    cases hf
    refine ⟨text', htext', ?_⟩
    rw [hlines, hlines']
    exact .ahead rfl x.before
  · exact ⟨text, by rw [h.elsewhere path hp hhost, hf], .same _⟩

end Splice

/-! ## Files in memory

  The lines are put in place by writing the file anew.  The memory has the same files before and
  after, so an include that is looked up is found, or not, where it was. -/

namespace Memory

/-- A file that is stored anew is one of the files as before. -/
theorem isFile_write {m : Memory} {path : Path} {content : Content}
    (h : (Entries.get? (path.absolute Path.rootDir) m.files).isSome) :
    (m.write path content).isFile = m.isFile := by
  funext other
  unfold isFile Memory.write
  rw [Entries.get?_set]
  split
  · next heq =>
    rw [← heq, h]
    rfl
  · rfl

end Memory

/-- Writing the lines in place of the include changes nothing but the text of the host. -/
theorem Splice.joins_write {x : Splice} {m : Memory} (hm : m.IsNormal) {job : Job}
    (hs : job.source = m.source) {path : Path} (hhost : x.host = path.absolute Path.rootDir)
    {text text' : Text} (hf : job.source.find? x.host = some (.text text))
    (hlines : text.lines = x.lines) (hlines' : text'.lines = x.spliced) :
    x.Joins job { job with source := (m.write path (.text text')).source } := by
  have hnormal : x.host.IsNormal := hhost ▸ Path.isNormal_absolute _ _
  have hstored : Entries.get? x.host m.files = some (.text text) := by
    rw [← hm.entry?_eq_get? hnormal, ← hs, Source.entry?_of_find?_eq_text hf]
  have hwrite := hm.write path (.text text')
  have hentry : ∀ {other : Path}, other.IsNormal →
      (m.write path (.text text')).source.entry? other =
        if x.host = other then some (.text text') else m.source.entry? other := by
    intro other ho
    rw [hwrite.entry?_eq_get? ho, hm.entry?_eq_get? ho, hhost]
    exact Entries.get?_set _ _ _ _
  have hstore : (m.write path (.text text')).isFile = m.isFile :=
    Memory.isFile_write (by rw [← hhost, hstored]; rfl)
  have hfile : (m.write path (.text text')).source.isFile = m.source.isFile :=
    funext fun other => congrFun hstore (Path.rootDir.join other)
  have hishost : m.source.isFile x.host = true := by
    rw [hs] at hf
    unfold Source.find? at hf
    split at hf
    · assumption
    · cases hf
  refine ⟨rfl, rfl, rfl, ?_, ?_, ⟨text, hf, hlines⟩, ⟨text', ?_, hlines'⟩⟩
  · -- Includes are looked up by asking which files are there, which has not changed.
    funext including i
    unfold Pass.resolve? Source.resolveQuoted? Source.resolveAngled?
    simp only [hs, hfile]
    rfl
  · intro other ho hne
    rw [hs]
    simp only [Source.find?, Source.read, hfile, hentry ho, Ne.symm hne, if_false]
  · simp only [Source.find?, Source.read, hfile, hishost, hentry hnormal, if_true, Option.getD_some]

end ShaderWeave
