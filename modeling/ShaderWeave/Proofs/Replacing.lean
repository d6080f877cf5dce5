/-
  What replacing the dictionary does to the next pass.

  A dictionary that equals the old one is not put in its place, so the next pass is right only as
  far as it cannot tell equal dictionaries apart.  They have the same keys in the same order, at
  every depth, and their values are equal in turn; but two doubles that are equal, if they are
  zeros, are written with different signs.

    * A path leads to equal values in both dictionaries, or in none (`Dictionary.value?_equal`);
      equal values without zeros have the same text (`Value.literal?_of_equal`).
    * A step asks the dictionary for three things: whether a path leads to a value, the keys of a
      collection, and the text that a token is replaced by.  The first two are the same, so the pass
      is the same, state by state, as long as the third is (`Pass.step_equal`, `Pass.after_equal`).
    * A callback that runs changes the journal and itself; numbers of files, and so the text of a
      pass, depend on the entries and the index of the registry alone
      (`Preprocessor.renderAll_of_files`).

  `Preprocessor.setDictionary_takes_effect` puts these together, and
  `Preprocessor.setDictionary_insertsZero` is a dictionary that is asked for and dropped.
-/
import ShaderWeave.Proofs.History
import ShaderWeave.Proofs.Lookup

namespace ShaderWeave

/-! ## Equal values

  Equality of values is equality of data but for doubles, where it goes by the number: this is the
  one place where equal values are two values.  So the lemmas here keep the zeros apart from
  everything else, and no later proof looks into a double again. -/

/-- Equal doubles are one double, or two zeros. -/
theorem Double.eq_or_isZero_of_equal {x y : Double} (h : x.equal y = true) :
    x = y ∨ (x.isZero = true ∧ y.isZero = true) := by
  unfold equal at h
  simp only [Bool.and_eq_true, Bool.or_eq_true, beq_iff_eq] at h
  refine h.2.imp_left fun hbits => ?_
  obtain ⟨bits⟩ := x
  exact congrArg Double.mk hbits

namespace Value

/-- A double of the value itself is a zero. -/
def hasZero : Value → Bool
  | .double x => x.isZero
  | .dvec2 x y => x.isZero || y.isZero
  | .dvec3 x y z => x.isZero || y.isZero || z.isZero
  | _ => false

/-- **Equal values without zeros have the same text.** -/
theorem literal?_of_equal {v w : Value} (h : v.equal w = true) (hz : v.hasZero = false) :
    w.literal? = v.literal? := by
  have double : ∀ {x y : Double}, x.equal y = true → x.isZero = false → y = x := by
    intro x y hxy hx
    rcases Double.eq_or_isZero_of_equal hxy with he | ⟨hzero, _⟩
    · exact he.symm
    · rw [hzero] at hx
      cases hx
  -- Values of different kinds are not equal.
  cases v <;> cases w <;>
    simp only [equal, Bool.and_eq_true, beq_iff_eq, Bool.false_eq_true] at h <;>
    simp only [hasZero, Bool.or_eq_false_iff] at hz
  case bool => rw [h]
  case int => rw [h]
  case double => rw [double h hz]
  case string => rw [h]
  case ivec2 => rw [h.1, h.2]
  case ivec3 => rw [h.1.1, h.1.2, h.2]
  case dvec2 => rw [double h.1 hz.1, double h.2 hz.2]
  case dvec3 => rw [double h.1.1 hz.1.1, double h.1.2 hz.1.2, double h.2 hz.2]
  case dictionary => rfl

/-- Equal values are of one type. -/
theorem kind_of_equal {v w : Value} (h : v.equal w = true) : w.kind = v.kind := by
  cases v <;> cases w <;> first | rfl | (simp only [equal, Bool.false_eq_true] at h)

/-- A value equals a dictionary only if it is one, with equal entries. -/
theorem equal_dictionary {entries : List (Text × Value)} {w : Value}
    (h : (dictionary entries).equal w = true) :
    ∃ entries', w = .dictionary entries' ∧ equalEntries entries entries' = true := by
  cases w with
  | dictionary entries' => exact ⟨entries', rfl, by simpa only [equal] using h⟩
  | _ => simp only [equal, Bool.false_eq_true] at h

/-- Entries are equal pairwise, in key and value. -/
theorem forall₂_of_equalEntries {as bs : List (Text × Value)} (h : equalEntries as bs = true) :
    List.Forall₂ (fun a b => a.1 = b.1 ∧ a.2.equal b.2 = true) as bs := by
  induction as generalizing bs with
  | nil =>
    cases bs with
    | nil => exact .nil
    | cons b bs => simp only [equalEntries, Bool.false_eq_true] at h
  | cons a as ih =>
    cases bs with
    | nil => simp only [equalEntries, Bool.false_eq_true] at h
    | cons b bs =>
      simp only [equalEntries, Bool.and_eq_true, beq_iff_eq] at h
      exact .cons h.1 (ih h.2)

/-- **Equal entries have the same keys in the same order.** -/
theorem map_fst_of_equalEntries {as bs : List (Text × Value)} (h : equalEntries as bs = true) :
    bs.map Prod.fst = as.map Prod.fst := by
  have hall := forall₂_of_equalEntries h
  clear h
  induction hall with
  | nil => rfl
  | cons hentry _ ih => rw [List.map_cons, List.map_cons, ih, hentry.1]

/-- Under a key stand equal values, or none. -/
theorem get?_of_equalEntries {as bs : List (Text × Value)} (h : equalEntries as bs = true)
    (key : Text) :
    (Entries.get? key as = none ∧ Entries.get? key bs = none) ∨
      ∃ v w, Entries.get? key as = some v ∧ Entries.get? key bs = some w ∧ v.equal w = true := by
  have hall := forall₂_of_equalEntries h
  clear h
  induction hall with
  | nil => exact .inl ⟨rfl, rfl⟩
  | cons hentry _ ih =>
    rw [Entries.get?, Entries.get?, ← hentry.1]
    split
    · exact .inr ⟨_, _, rfl, rfl, hentry.2⟩
    · exact ih

end Value

namespace Dictionary

/-- The same along a path of keys: under every key but the last there is a dictionary on both sides,
    or on neither. -/
theorem follow_equal {as bs : List (Text × Value)} (h : Value.equalEntries as bs = true)
    (keys : List Text) :
    (follow keys as = none ∧ follow keys bs = none) ∨
      ∃ v w, follow keys as = some v ∧ follow keys bs = some w ∧ v.equal w = true := by
  induction keys generalizing as bs with
  | nil => exact .inl ⟨rfl, rfl⟩
  | cons key more ih =>
    have hget := Value.get?_of_equalEntries h key
    cases more with
    | nil => exact hget
    | cons m more =>
      rw [follow_cons _ (List.cons_ne_nil _ _), follow_cons _ (List.cons_ne_nil _ _)]
      rcases hget with ⟨ha, hb⟩ | ⟨v, w, ha, hb, hvw⟩
      · rw [ha, hb]
        exact .inl ⟨rfl, rfl⟩
      · rw [ha, hb]
        cases v with
        -- The path goes on below dictionaries only, and equal values are of one kind.
        | dictionary inner =>
          obtain ⟨inner', rfl, hinner⟩ := Value.equal_dictionary hvw
          exact ih hinner
        | _ =>
          cases w with
          | dictionary inner' => cases Value.kind_of_equal hvw
          | _ => exact .inl ⟨rfl, rfl⟩

/-- **A path leads to equal values in equal dictionaries, or to none in both.** -/
theorem value?_equal {c d : Dictionary} (h : c.equal d = true) (path : Text) :
    (c.value? path = none ∧ d.value? path = none) ∨
      ∃ v w, c.value? path = some v ∧ d.value? path = some w ∧ v.equal w = true :=
  follow_equal h (path.splitOn '.')

end Dictionary

/-! ## Equal dictionaries in a pass

  A pass asks its environment four things: whether a path leads to a value, what path a name means,
  the keys of a collection and the text of a token.  For the first three equal dictionaries give one
  answer, with no condition; the fourth is where the zeros come in, and it is asked for the tokens
  that are reached alone. -/

namespace Environment

variable {aliases : AliasTable} {ranges c d : Dictionary}

theorem isSome_value?_equal (h : c.equal d = true) (path : Text) :
    (value? ⟨aliases, ranges, d⟩ path).isSome = (value? ⟨aliases, ranges, c⟩ path).isSome := by
  unfold value?
  rcases Dictionary.value?_equal h path with ⟨hc, hd⟩ | ⟨v, w, hc, hd, _⟩
  · simp only [hc, hd]
  · simp only [hc, hd, Option.isSome_or, Option.isSome_some]

/-- So a name means the same path in both. -/
theorem resolve?_equal (h : c.equal d = true) (name : Text) :
    resolve? ⟨aliases, ranges, d⟩ name = resolve? ⟨aliases, ranges, c⟩ name := by
  unfold resolve?
  simp only [isSome_value?_equal h]

/-- **A collection has the same keys.** -/
theorem keys_dictionary?_equal (h : c.equal d = true) (path : Text) :
    (dictionary? ⟨aliases, ranges, d⟩ path).map Dictionary.keys =
      (dictionary? ⟨aliases, ranges, c⟩ path).map Dictionary.keys := by
  unfold dictionary? value?
  cases ranges.value? path with
  | some v => rfl
  | none =>
    simp only [Option.none_or]
    rcases Dictionary.value?_equal h path with ⟨hc, hd⟩ | ⟨v, w, hc, hd, hvw⟩
    · rw [hc, hd]
    · rw [hc, hd]
      cases v with
      | dictionary entries =>
        obtain ⟨entries', rfl, he⟩ := Value.equal_dictionary hvw
        exact congrArg some (Value.map_fst_of_equalEntries he)
      | _ =>
        cases w with
        | dictionary entries' => cases Value.kind_of_equal hvw
        | _ => rfl

/-- **A token is replaced by the same text** if the user's value that it means is written alike. -/
theorem expand_equal (h : c.equal d = true) {name : Text}
    (hw : isLiteral (aliases.resolve name) = false → ranges.value? (aliases.resolve name) = none →
      ∀ v, c.value? (aliases.resolve name) = some v →
        (d.value? (aliases.resolve name)).bind Value.literal? = v.literal?) :
    expand ⟨aliases, ranges, d⟩ name = expand ⟨aliases, ranges, c⟩ name := by
  refine expand_congr rfl (isSome_value?_equal h _) fun hliteral => ?_
  have hw := hw hliteral
  show Option.bind (value? ⟨aliases, ranges, d⟩ (aliases.resolve name)) _ =
    Option.bind (value? ⟨aliases, ranges, c⟩ (aliases.resolve name)) _
  unfold value?
  simp only
  cases hr : ranges.value? (aliases.resolve name) with
  | some v => rfl
  | none =>
    rw [Option.none_or, Option.none_or]
    rcases Dictionary.value?_equal h (aliases.resolve name) with ⟨hc, hd⟩ | ⟨v, w, hc, _⟩
    · rw [hc, hd]
    · rw [hw hr v hc, hc]
      rfl

end Environment

/-- A line is expanded alike if every token that it comes to is replaced alike. -/
theorem Substitution.expandWithin_congr {env other : Environment} {limit : Nat} {loc : Location}
    {left : Nat} {line : Text}
    (h : ∀ n < left, ∀ out before name after, Replaces env n line out →
      lastToken out = .found before name after → other.expand name = env.expand name) :
    expandWithin other limit loc left line = expandWithin env limit loc left line := by
  induction left generalizing line with
  | zero =>
    rw [expandWithin, expandWithin]
  | succ left ih =>
    rw [expandWithin, expandWithin]
    cases ht : lastToken line with
    | absent => rfl
    | unclosed => rfl
    | found before name after =>
      have hname := h 0 (Nat.succ_pos left) line before name after .zero ht
      simp only [hname]
      cases he : env.expand name with
      | error fault => rfl
      | ok text =>
        -- The tokens that come after the first replacement come one round later.
        refine ih fun n hn out before' name' after' hr ht' => ?_
        exact h (n + 1) (Nat.succ_lt_succ hn) out before' name' after' (.succ ht he hr) ht'

namespace Pass

variable {job : Job} {registry : Registry} {p : Pass} {d : Dictionary}

/-- Somewhere in the pass, within the allowance of its line, a token is reached that means the path
    of the user's value `v`: it is replaced by the text of `v`, if `v` has one. -/
inductive Inserts (job : Job) (registry : Registry) (path : Text) (v : Value) : Prop where
  | intro {p f outer raw unread n line before name after} (hp : Reached job registry p)
      (hf : p.files = f :: outer) (hu : f.unread = raw :: unread) (ha : p.Active)
      (hc : LoopHeader.isEnd raw.content = false)
      (hr : Substitution.Replaces (p.environment job) n raw.content line)
      (hn : n < job.config.maxSubstitutions)
      (ht : Substitution.lastToken line = .found before name after)
      (hpath : p.aliases.resolve name = path)
      (hl : Environment.isLiteral path = false) (hranges : p.ranges.value? path = none)
      (hv : job.dictionary.value? path = some v)

/-- A loop goes over the keys of its collection, so it is opened alike. -/
theorem openLoop_equal (h : job.dictionary.equal d = true) (file : OpenFile) (outer : List OpenFile)
    (header : LoopHeader) (collection : Text) :
    openLoop { job with dictionary := d } p file outer header collection =
      openLoop job p file outer header collection := by
  have hresolve : (p.environment { job with dictionary := d }).resolve? collection =
      (p.environment job).resolve? collection := Environment.resolve?_equal h collection
  unfold openLoop
  simp only [hresolve]
  cases (p.environment job).resolve? collection with
  | none => rfl
  | some resolved =>
    have hkeys :
        ((p.environment { job with dictionary := d }).dictionary? resolved).map Dictionary.keys =
          ((p.environment job).dictionary? resolved).map Dictionary.keys :=
      Environment.keys_dictionary?_equal h resolved
    simp only
    cases hc : (p.environment job).dictionary? resolved with
    | none =>
      cases hd : (p.environment { job with dictionary := d }).dictionary? resolved with
      | none => rfl
      | some b =>
        rw [hc, hd] at hkeys
        cases hkeys
    | some a =>
      cases hd : (p.environment { job with dictionary := d }).dictionary? resolved with
      | none =>
        rw [hc, hd] at hkeys
        cases hkeys
      | some b =>
        rw [hc, hd] at hkeys
        simp only [Option.some.inj hkeys]
        rfl

/-- What a line asks for is done alike. -/
theorem perform_equal (h : job.dictionary.equal d = true) (file : OpenFile) (outer : List OpenFile)
    (margin line : Text) (directive : Directive) :
    perform { job with dictionary := d } p file outer margin line directive =
      perform job p file outer margin line directive := by
  cases directive with
  | loop header =>
    show startLoop { job with dictionary := d } p file outer header =
      startLoop job p file outer header
    rw [startLoop_eq, startLoop_eq]
    simp only [openLoop_equal h]
  | _ => rfl

/-- A line that is read is expanded alike, whatever file it is read from. -/
theorem expandLine_equal (h : job.dictionary.equal d = true)
    (hw : ∀ path v, Inserts job registry path v → (d.value? path).bind Value.literal? = v.literal?)
    (hp : Reached job registry p) {f : OpenFile} {outer : List OpenFile} {raw : Text}
    {unread : List Text} (hf : p.files = f :: outer) (hu : f.unread = raw :: unread) (ha : p.Active)
    (hc : LoopHeader.isEnd raw.content = false) (files : List OpenFile) (loc : Location) :
    Substitution.expandLine (environment { job with dictionary := d } { p with files })
        job.config.maxSubstitutions loc raw.content =
      Substitution.expandLine (environment job { p with files })
        job.config.maxSubstitutions loc raw.content := by
  refine Substitution.expandWithin_congr fun n hn line before name after hr ht => ?_
  refine Environment.expand_equal h fun hl hranges v hv => ?_
  exact hw _ v (.intro hp hf hu ha hc hr hn ht rfl hl hranges hv)

/-- **A step is the same with an equal dictionary** if every token of its line is replaced alike. -/
theorem step_equal (h : job.dictionary.equal d = true)
    (hw : ∀ path v, Inserts job registry path v → (d.value? path).bind Value.literal? = v.literal?)
    (hp : Reached job registry p) : step { job with dictionary := d } p = step job p := by
  cases hf : p.files with
  | nil =>
    unfold step
    rw [hf]
    rfl
  | cons f outer =>
    cases hu : f.unread with
    | nil =>
      unfold step
      rw [hf]
      simp only [hu]
      rfl
    | cons raw unread =>
      by_cases ha : p.Active
      · rw [step_of_active hf hu ha, step_of_active hf hu ha]
        unfold execute
        split
        · rfl
        · next hc =>
          rw [expandLine_equal h hw hp hf hu ha (by simpa using hc)]
          simp only [perform_equal h]
      · -- Lines that are skipped are not expanded.
        obtain ⟨l, hmem, hk⟩ : ∃ l ∈ p.loops.head?, l.keys = [] := by simpa [Active] using ha
        obtain ⟨loops, hl⟩ := List.head?_eq_some_iff.1 hmem
        rw [step_of_skipping hf hu hl hk, step_of_skipping hf hu hl hk]
        rfl

/-- **A pass is the same with an equal dictionary**, state by state. -/
theorem after_equal (h : job.dictionary.equal d = true)
    (hw : ∀ path v, Inserts job registry path v → (d.value? path).bind Value.literal? = v.literal?)
    (n : Nat) :
    after { job with dictionary := d } n (start { job with dictionary := d } registry) =
      after job n (start job registry) := by
  induction n with
  | zero => rfl
  | succ n ih =>
    rw [after_add, after_add, ih]
    cases hp : after job n (start job registry) with
    | stop o => rfl
    | next p => rw [after, after, after, after, step_equal h hw ⟨n, hp⟩]

/-- So the whole pass is the same: it ends after some number of steps, and up to there every state
    is. -/
theorem process_equal (h : job.dictionary.equal d = true)
    (hw : ∀ path v, Inserts job registry path v →
      (d.value? path).bind Value.literal? = v.literal?) :
    process { job with dictionary := d } registry = process job registry := by
  obtain ⟨n, hn⟩ := exists_after_eq_process job registry
  rw [← after_equal h hw] at hn
  exact process_of_after n hn

end Pass

/-! ## The registry

  Running the callback writes to the journal and changes the callback's own state, so after a
  replacement the pass starts from another registry.  It numbers files as before, since numbers come
  from the index, and the index from the entries. -/

namespace Registry

variable {r s : Registry}

/-- Numbers are looked up in the index. -/
theorem idOf?_congr (h : s.index = r.index) (path : Path) : s.idOf? path = r.idOf? path := by
  unfold idOf?
  rw [h]

/-- What registering a file does to entries and index can be told from these. -/
theorem register_congr (he : s.entries = r.entries) (hi : s.index = r.index) (path : Path)
    (track : Bool) :
    (s.register path track).1.entries = (r.register path track).1.entries ∧
      (s.register path track).1.index = (r.register path track).1.index := by
  unfold register
  rw [idOf?_congr hi, he]
  cases r.idOf? path with
  | some id =>
    simp only
    split
    · simp only [entries_watch, index_watch, setTracked, he, hi, and_self]
    · exact ⟨he, hi⟩
  | none =>
    simp only
    split
    · simp only [entries_watch, index_watch, append, he, hi, and_self]
    · simp only [append, he, hi, and_self]

/-- So two registries that agree on entries and index number the files of any visits alike. -/
theorem index_registerAll_congr (he : s.entries = r.entries) (hi : s.index = r.index)
    (visits : List (Path × Bool)) :
    (s.registerAll visits).index = (r.registerAll visits).index := by
  induction visits generalizing r s with
  | nil => exact hi
  | cons v visits ih =>
    obtain ⟨he, hi⟩ := register_congr he hi v.1 v.2
    exact ih he hi

end Registry

namespace Preprocessor

/-- **Of the registry, only entries and index matter** for the text of a pass. -/
theorem renderAll_of_files {p q : Preprocessor} (hjob : q.job = p.job)
    (he : q.registry.entries = p.registry.entries) (hi : q.registry.index = p.registry.index) :
    q.process.2.map Piece.renderAll = p.process.2.map Piece.renderAll := by
  obtain ⟨n, hp, hq, _⟩ := Pass.exists_after_eq_process_both p.job p.registry q.registry
  have hpregistry : p.process.1.registry =
      p.registry.registerAll (Pass.visitsFrom p.job n p.registry) := by
    rw [← Pass.registry_after_start, hp]
    rfl
  have hqregistry : q.process.1.registry =
      q.registry.registerAll (Pass.visitsFrom p.job n p.registry) := by
    rw [Pass.visitsFrom_eq p.job n p.registry q.registry, ← Pass.registry_after_start, hq, ← hjob]
    rfl
  refine renderAll_of_idOf? hjob fun path => ?_
  rw [hpregistry, hqregistry]
  exact Registry.idOf?_congr (Registry.index_registerAll_congr he hi _) path

/-- An equal dictionary is dropped, and nobody is told. -/
theorem setDictionary_of_equal {pre : Preprocessor} {d : Dictionary}
    (h : pre.dictionary.equal d = true) : pre.setDictionary d = pre :=
  if_pos h

/-- One that differs is put in place, and the callback is run. -/
theorem setDictionary_of_differs {pre : Preprocessor} {d : Dictionary}
    (h : pre.dictionary.equal d = false) :
    pre.setDictionary d = { pre with dictionary := d, registry := pre.registry.notify } :=
  if_neg (by rw [h]; exact Bool.false_ne_true)

/-- **Replacing the dictionary takes effect**, if every user's value that the pass inserts has the
    same text in the new dictionary, in case this is equal to the old one: the next pass gives what
    it would give with the new dictionary.  Of equal dictionaries, only a value with a zero in it
    can be written in two ways.  And if there is a callback and it was not run, the next pass gives
    what it would have given before. -/
theorem setDictionary_takes_effect (pre : Preprocessor) (d : Dictionary)
    (hw : pre.dictionary.equal d = true → ∀ path v, Pass.Inserts pre.job pre.registry path v →
      (d.value? path).bind Value.literal? = v.literal?) :
    (pre.setDictionary d).process.2.map Piece.renderAll =
        { pre with dictionary := d }.process.2.map Piece.renderAll ∧
    (pre.dictionary.equal d = true → ∀ path v, pre.dictionary.value? path = some v →
      v.hasZero = false → (d.value? path).bind Value.literal? = v.literal?) ∧
    (pre.registry.callback ≠ none → (pre.setDictionary d).registry.journal = pre.registry.journal →
      (pre.setDictionary d).process.2 = pre.process.2) := by
  refine ⟨?_, fun h path v hv hz => ?_, fun hcallback hjournal => ?_⟩
  · -- If the dictionaries are equal, the new one is dropped, and the passes with the old and with
    -- the new one are the same pass.
    cases h : pre.dictionary.equal d with
    | true =>
      have hprocess : Pass.process { pre.job with dictionary := d } pre.registry =
          Pass.process pre.job pre.registry := Pass.process_equal h (hw h)
      rw [setDictionary_of_equal h]
      show (Pass.process pre.job pre.registry).result.map _ =
        (Pass.process { pre.job with dictionary := d } pre.registry).result.map _
      rw [hprocess]
    | false =>
      rw [setDictionary_of_differs h]
      exact renderAll_of_files rfl (Registry.entries_notify _) (Registry.index_notify _)
  · -- Both dictionaries have a value at the path, and without zeros the two are written alike.
    rcases Dictionary.value?_equal h path with ⟨hc, _⟩ | ⟨v', w, hc, hd, hvw⟩
    · rw [hv] at hc
      cases hc
    · rw [hv] at hc
      cases hc
      rw [hd]
      exact Value.literal?_of_equal hvw hz
  · -- A callback that has run has left its entry in the journal.
    cases h : pre.dictionary.equal d with
    | true => rw [setDictionary_of_equal h]
    | false =>
      obtain ⟨c, hc⟩ := Option.ne_none_iff_exists'.1 hcallback
      rw [setDictionary_of_differs h] at hjournal
      simp only [Registry.notify, hc] at hjournal
      exact absurd hjournal (List.cons_ne_self _ _)

/-- A zero under `x` and a one under `y`. -/
def zeroAndOne (zero : Double) : Dictionary := ⟨[("x".toList, .double zero), ("y".toList, .int 1)]⟩

/-- The dictionary with the negative zero. -/
def negated : Dictionary := zeroAndOne ⟨0x8000000000000000⟩

/-- One line over the dictionary with the positive zero. -/
def overZero (line : Text) : Preprocessor where
  filename := ⟨"/main".toList⟩
  dictionary := zeroAndOne ⟨0⟩
  config := {}
  source := (Memory.ofList [(⟨"/main".toList⟩, .text line)]).source
  registry := { callback := some ⟨"changed".toList, none⟩ }

/-- The line inserts the one. -/
def insertsOne : Preprocessor := overZero "#\x7by\x7d".toList

/-- The line inserts the zero. -/
def insertsZero : Preprocessor := overZero "#\x7bx\x7d".toList

/-- The pass over the line `#{y}` inserts nothing but the one. -/
theorem eq_of_inserts_one {path : Text} {v : Value}
    (h : Pass.Inserts insertsOne.job insertsOne.registry path v) :
    path = "y".toList ∧ v = .int 1 := by
  obtain @⟨p, f, outer, raw, unread, n, line, before, name, after, ⟨m, hm⟩, hf, hu, _, _, hr, _, ht,
    hpath, _, _, hv⟩ := h
  -- The pass is at most three steps long, and only in its first state is a line read.
  match m, hm with
  | 0, hm =>
    cases hm
    cases hf
    cases hu
    have htoken : Substitution.lastToken "#\x7by\x7d".toList = .found [] "y".toList [] := rfl
    cases hr with
    | zero =>
      cases htoken.symm.trans ht
      cases hpath
      cases hv
      exact ⟨rfl, rfl⟩
    | succ ht' he hr =>
      cases htoken.symm.trans ht'
      cases he
      -- Once it is replaced, the line has no token.
      cases hr with
      | zero => cases ht
      | succ ht'' => cases ht''
  | 1, hm =>
    cases hm
    cases hf
    cases hu
  | 2, hm =>
    cases hm
    cases hf
  | m + 3, hm =>
    have ends : Pass.after insertsOne.job 3 (Pass.start insertsOne.job insertsOne.registry) =
        .stop ⟨_, .ok [.source 0 1 "1".toList]⟩ := rfl
    rw [Nat.add_comm, Pass.after_add, ends, Pass.after_stop] at hm
    cases hm

/-- The zero changes its sign, and the pass inserts the one. -/
theorem setDictionary_takes_effect_insertsOne :
    insertsOne.dictionary.equal negated = true ∧
      Pass.Inserts insertsOne.job insertsOne.registry "y".toList (.int 1) ∧
      (insertsOne.setDictionary negated).process.2.map Piece.renderAll =
        { insertsOne with dictionary := negated }.process.2.map Piece.renderAll := by
  -- The pass inserts something, so the condition speaks about a token.
  have hinserts : Pass.Inserts insertsOne.job insertsOne.registry "y".toList (.int 1) :=
    .intro ⟨0, rfl⟩ rfl rfl nofun rfl .zero (by decide) rfl rfl rfl rfl rfl
  refine ⟨by decide, hinserts, (setDictionary_takes_effect _ _ fun _ path v h => ?_).1⟩
  obtain ⟨rfl, rfl⟩ := eq_of_inserts_one h
  rfl

/-- The zero that the pass inserts changes its sign: the new dictionary is dropped, the callback is
    not run, and the pass writes the old zero. -/
theorem setDictionary_insertsZero :
    (insertsZero.setDictionary negated).registry.journal = insertsZero.registry.journal ∧
      (insertsZero.setDictionary negated).process.2 = .ok [.source 0 1 "0.0".toList] ∧
      { insertsZero with dictionary := negated }.process.2 = .ok [.source 0 1 "-0.0".toList] := by
  have positive : Pass.after insertsZero.job 3 (Pass.start insertsZero.job insertsZero.registry) =
      .stop ⟨_, .ok [.source 0 1 "0.0".toList]⟩ := rfl
  have negative : Pass.after { insertsZero.job with dictionary := negated } 3
      (Pass.start { insertsZero.job with dictionary := negated } insertsZero.registry) =
      .stop ⟨_, .ok [.source 0 1 "-0.0".toList]⟩ := rfl
  rw [setDictionary_of_equal (by decide)]
  exact ⟨rfl, congrArg Outcome.result (Pass.process_of_after 3 positive),
    congrArg Outcome.result (Pass.process_of_after 3 negative)⟩

end Preprocessor
end ShaderWeave
