/-
  Texts of one line.

  What a pass writes for a line of a file is one line of output only if no line feed gets into it.
  A line of a file has none to begin with; what its tokens are replaced by comes from the
  dictionaries, from the keys that loops bind, and from numbers.  So if the keys and strings of the
  user's dictionary have no line feed, no expanded line has one: `oneLine_of_expandLine`, by the
  invariant rule of the replacements.

  A path is spelled on one line if and only if its components are, since only `/` and `.` can be
  spelled in more than one way (`Path.oneLine_of_same`); so a path that leads to a stored file has
  no line feed if the path the file is stored under has none.
-/
import ShaderWeave.Proofs.Aliases
import ShaderWeave.Proofs.Canonical
import ShaderWeave.Proofs.HeaderGrammar
import ShaderWeave.Proofs.Transition

namespace ShaderWeave

/-! ## Text

  Lines are what is between line feeds, so none is in a line; what is cut out of a line has none
  either. -/

namespace Text

/-- No line feed is in the text. -/
def OneLine (t : Text) : Prop := '\n' ∉ t

instance (t : Text) : Decidable (OneLine t) := inferInstanceAs (Decidable ('\n' ∉ t))

/-! A text put together from two is of one line where both are, and likewise for one character in
    front. -/

theorem oneLine_append {a b : Text} : OneLine (a ++ b) ↔ OneLine a ∧ OneLine b := by
  simp [OneLine, not_or]

theorem oneLine_cons {c : Char} {t : Text} : OneLine (c :: t) ↔ c ≠ '\n' ∧ OneLine t := by
  simp only [OneLine, List.mem_cons, not_or]
  exact and_congr_left fun _ => ⟨Ne.symm, Ne.symm⟩

/-- A text made of characters of a text of one line. -/
theorem OneLine.mono {a b : Text} (hb : OneLine b) (h : ∀ c ∈ a, c ∈ b) : OneLine a :=
  fun hn => hb (h _ hn)

/-! The content of a line is a part of it, and so is its margin. -/

theorem oneLine_content {raw : Text} (h : OneLine raw) : OneLine raw.content := by
  refine h.mono fun c hc => ?_
  have hdrop : c ∈ raw.dropWhile isMargin := by
    unfold content trimRight at hc
    rw [List.mem_reverse] at hc
    exact List.mem_reverse.1 ((List.dropWhile_sublist _).subset hc)
  exact (List.dropWhile_sublist _).subset hdrop

theorem oneLine_margin {raw : Text} (h : OneLine raw) : OneLine raw.margin :=
  h.mono fun _ hc => (List.takeWhile_sublist _).subset hc

/-- The lines of a text have no line feed.  The cases are those of `lines`: no text, a line feed,
    the two characters of a carriage return and a line feed, and any other character, which starts a
    line of its own at the end of the text and is the first of the next line before. -/
theorem oneLine_of_mem_lines {t line : Text} (h : line ∈ t.lines) : OneLine line := by
  fun_induction lines t generalizing line with
  | case1 => cases h
  | case2 rest ih =>
    rcases List.mem_cons.1 h with rfl | h
    · exact List.not_mem_nil
    · exact ih h
  | case3 rest ih =>
    rcases List.mem_cons.1 h with rfl | h
    · exact List.not_mem_nil
    · exact ih h
  | case4 c rest hn _ he ih =>
    rw [List.mem_singleton.1 h]
    exact oneLine_cons.2 ⟨hn, List.not_mem_nil⟩
  | case5 c rest hn _ first more he ih =>
    rw [he] at ih
    rcases List.mem_cons.1 h with rfl | h
    · exact oneLine_cons.2 ⟨hn, ih List.mem_cons_self⟩
    · exact ih (List.mem_cons_of_mem _ h)

/-! A number is written with digits, and a minus sign if it is negative. -/

theorem oneLine_ofNat (n : Nat) : OneLine (ofNat n) := by
  intro h
  have hd : ('\n').isDigit = true := Nat.isDigit_of_mem_toDigits (by decide) (by decide) h
  exact absurd hd (by decide)

theorem oneLine_ofInt (n : Int) : OneLine (ofInt n) := by
  cases n with
  | ofNat n => exact oneLine_ofNat n
  | negSucc n => exact oneLine_cons.2 ⟨by decide, oneLine_ofNat _⟩

end Text

open Text (OneLine)

/-! ## Numbers

  Numbers are written with digits, signs, points and exponents.  For doubles this has to be followed
  through the search for the shortest digits, each branch of which ends in writing an integer. -/

namespace Double

/-- The digits found for a double are those of a number, less the zeros at the end. -/
theorem oneLine_search (i : Interval) (place : Int) (n more : Nat) :
    OneLine (search i place n more).digits := by
  induction more generalizing n with
  | zero => exact Text.oneLine_ofNat _
  | succ more ih =>
    rw [search]
    split
    · next d _ =>
      refine (Text.oneLine_ofNat d).mono fun c hc => ?_
      exact List.mem_reverse.1 ((List.dropWhile_sublist _).subset (List.mem_reverse.1 hc))
    · exact ih (n + 1)

/-- Zeros that fill a place are digits, too. -/
theorem oneLine_zeros (n : Int) : OneLine (zeros n) := by
  intro h
  exact absurd (List.eq_of_mem_replicate h) (by decide)

/-- A double is written on one line, in each of its forms: in full, with an exponent, or by a word
    for a value that is no number. -/
theorem oneLine_literal (x : Double) : OneLine x.literal := by
  have hd : OneLine (shortest x.significand x.scale).digits := oneLine_search _ _ _ _
  -- The digits are one line, however many of them are taken.
  generalize hs : shortest x.significand x.scale = d at hd
  -- A point goes before them, behind them or between two of them,
  have hpositional : OneLine (positional d) := by
    unfold positional
    simp only
    split
    · exact Text.oneLine_append.2 ⟨Text.oneLine_append.2 ⟨by decide, oneLine_zeros _⟩, hd⟩
    · split
      · exact Text.oneLine_append.2 ⟨Text.oneLine_append.2 ⟨hd, oneLine_zeros _⟩, by decide⟩
      · refine Text.oneLine_append.2 ⟨hd.mono fun _ => List.mem_of_mem_take, ?_⟩
        exact Text.oneLine_cons.2 ⟨by decide, hd.mono fun _ => List.mem_of_mem_drop⟩
  -- or behind the first of them, with the exponent at the end.
  have hscientific : OneLine (scientific d) := by
    have htail : OneLine (d.digits.drop 1) := hd.mono fun _ => List.mem_of_mem_drop
    unfold scientific
    simp only
    refine Text.oneLine_append.2
      ⟨Text.oneLine_append.2 ⟨hd.mono fun _ => List.mem_of_mem_take, ?_⟩, ?_⟩
    · split
      · decide
      · exact Text.oneLine_cons.2 ⟨by decide, htail⟩
    · exact Text.oneLine_cons.2 ⟨by decide, Text.oneLine_ofInt _⟩
  unfold literal
  split
  · decide
  · refine Text.oneLine_append.2 ⟨by split <;> decide, ?_⟩
    split
    · decide
    · split
      · decide
      · simp only [hs]
        split
        · exact hpositional
        · exact hscientific

end Double

/-! ## Values

  A dictionary has no line feeds if none is in its keys and strings, at any depth.  This can be
  computed, and is therefore a `Bool`. -/

mutual

/-- Whether no line feed is in the strings and keys of a value. -/
def Value.isOneLine : Value → Bool
  | .string s => decide (OneLine s)
  | .dictionary entries => Value.areOneLine entries
  | _ => true

/-- Whether no line feed is in the keys of entries or in their values. -/
def Value.areOneLine : List (Text × Value) → Bool
  | [] => true
  | (key, value) :: rest => decide (OneLine key) && value.isOneLine && Value.areOneLine rest

end

/-- Whether no line feed is in the keys and strings of a dictionary. -/
def Dictionary.isOneLine (d : Dictionary) : Bool := Value.areOneLine d.entries

namespace Value

/-- Entries are of one line where each of them is. -/
theorem areOneLine_iff {entries : List (Text × Value)} :
    areOneLine entries = true ↔ ∀ e ∈ entries, OneLine e.1 ∧ e.2.isOneLine = true := by
  induction entries with
  | nil => simp [areOneLine]
  | cons e rest ih =>
    obtain ⟨key, value⟩ := e
    simp only [areOneLine, Bool.and_eq_true, decide_eq_true_eq, ih, List.forall_mem_cons]

/-- A value that a path leads to is one of the dictionary's. -/
theorem isOneLine_of_follow {keys : List Text} {entries : List (Text × Value)} {v : Value}
    (he : areOneLine entries = true) (h : Dictionary.follow keys entries = some v) :
    v.isOneLine = true := by
  fun_induction Dictionary.follow keys entries with
  | case1 => cases h
  | case2 entries key => exact (areOneLine_iff.1 he _ (Entries.mem_of_get?_eq h)).2
  | case3 entries key more hne inner hg ih =>
    have hinner := (areOneLine_iff.1 he _ (Entries.mem_of_get?_eq hg)).2
    rw [isOneLine] at hinner
    exact ih hinner h
  | case4 => cases h

/-- A call is of one line if its name and its arguments are: brackets and commas are put between
    them. -/
theorem oneLine_constructorCall {name : String} {arguments : List Text} (hn : OneLine name.toList)
    (ha : ∀ a ∈ arguments, OneLine a) : OneLine (constructorCall name arguments) := by
  have hargs : OneLine (List.intercalate [','] arguments) := by
    induction arguments with
    | nil => decide
    | cons a rest ih =>
      have hrest := ih fun b hb => ha b (List.mem_cons_of_mem _ hb)
      cases rest with
      | nil =>
        rw [List.intercalate_singleton]
        exact ha a List.mem_cons_self
      | cons b rest =>
        rw [List.intercalate_cons_cons]
        exact Text.oneLine_append.2
          ⟨Text.oneLine_append.2 ⟨ha a List.mem_cons_self, by decide⟩, hrest⟩
  refine Text.oneLine_append.2 ⟨hn, Text.oneLine_cons.2 ⟨by decide, ?_⟩⟩
  exact Text.oneLine_append.2 ⟨hargs, by decide⟩

/-- What a token shows for a value.  Only a string is shown as it is; everything else is spelled by
    the library, and a dictionary is not shown at all. -/
theorem oneLine_literal? {v : Value} {text : Text} (hv : v.isOneLine = true)
    (h : v.literal? = some text) : OneLine text := by
  -- One case for each kind of value.
  cases v with
  | bool b => cases b <;> cases h <;> decide
  | int n => cases h; exact Text.oneLine_ofInt _
  | double x => cases h; exact x.oneLine_literal
  | string s =>
    cases h
    rw [isOneLine] at hv
    exact of_decide_eq_true hv
  | ivec2 x y =>
    cases h
    refine oneLine_constructorCall (by decide) fun a ha => ?_
    obtain ⟨n, _, rfl⟩ := List.mem_map.1 ha
    exact Text.oneLine_ofInt _
  | ivec3 x y z =>
    cases h
    refine oneLine_constructorCall (by decide) fun a ha => ?_
    obtain ⟨n, _, rfl⟩ := List.mem_map.1 ha
    exact Text.oneLine_ofInt _
  | dvec2 x y =>
    cases h
    refine oneLine_constructorCall (by decide) fun a ha => ?_
    obtain ⟨x, _, rfl⟩ := List.mem_map.1 ha
    exact x.oneLine_literal
  | dvec3 x y z =>
    cases h
    refine oneLine_constructorCall (by decide) fun a ha => ?_
    obtain ⟨x, _, rfl⟩ := List.mem_map.1 ha
    exact x.oneLine_literal
  | dictionary entries => cases h

end Value

/-- The keys of a dictionary of one line are of one line. -/
theorem Dictionary.oneLine_of_mem_keys {d : Dictionary} (hd : d.isOneLine = true) {key : Text}
    (h : key ∈ d.keys) : OneLine key := by
  obtain ⟨e, he, rfl⟩ := List.mem_map.1 h
  exact (Value.areOneLine_iff.1 hd e he).1

/-! ## Names

  A name leads to a text by way of aliases, ranges and the user's values.  If none of these has a
  line feed in it, no token brings one into its line. -/

namespace AliasTable

/-- All values that names are bound to have a property. -/
def Holds (P : Text → Prop) (t : AliasTable) : Prop := ∀ e ∈ t.values, ∀ v ∈ e.2, P v

variable {P : Text → Prop}

/-- A name that is bound to one more value still has only values with the property. -/
theorem holds_bind {values : List (Text × List Text)} (h : ∀ e ∈ values, ∀ v ∈ e.2, P v)
    (name : Text) {value : Text} (hv : P value) : ∀ e ∈ bind values name value, ∀ v ∈ e.2, P v := by
  unfold bind
  split
  · next stack hs =>
    intro e he v hmem
    rcases Entries.mem_set he with rfl | he
    · rcases List.mem_cons.1 hmem with rfl | hmem
      · exact hv
      · exact h _ (Entries.mem_of_get?_eq hs) v hmem
    · exact h e he v hmem
  · intro e he v hmem
    rcases List.mem_cons.1 he with rfl | he
    · rw [List.mem_singleton.1 hmem]
      exact hv
    · exact h e he v hmem

/-- What scopes bind their names to is all that names are bound to. -/
theorem holds_ofScopes {scopes : List (List (Text × Text))} (h : ∀ s ∈ scopes, ∀ b ∈ s, P b.2) :
    Holds P (ofScopes scopes) := by
  -- The bindings of one scope, one after the other.
  have fold : ∀ (bindings : List (Text × Text)) (values : List (Text × List Text)),
      (∀ b ∈ bindings, P b.2) → (∀ e ∈ values, ∀ v ∈ e.2, P v) →
      ∀ e ∈ bindings.foldl (fun s b => bind s b.1 b.2) values, ∀ v ∈ e.2, P v := by
    intro bindings
    induction bindings with
    | nil => exact fun values _ hv => hv
    | cons b bindings ih =>
      intro values hb hv
      refine ih _ (fun c hc => hb c (List.mem_cons_of_mem _ hc)) ?_
      exact holds_bind hv b.1 (hb b List.mem_cons_self)
  induction scopes with
  | nil =>
    intro e he
    cases he
  | cons s scopes ih =>
    refine fold s _ (h s List.mem_cons_self) ?_
    exact ih fun s' hs' => h s' (List.mem_cons_of_mem _ hs')

/-- In particular, the value that a name is bound to innermost has the property. -/
theorem Holds.get? {t : AliasTable} (h : Holds P t) {name v : Text} (hv : t.get? name = some v) :
    P v := by
  obtain ⟨stack, hs, hhead⟩ := Option.bind_eq_some_iff.1 hv
  exact h _ (Entries.mem_of_get?_eq hs) v (List.mem_of_mem_head? hhead)

/-- A name is resolved to a text of one line: its first part is replaced by what it is bound to, and
    the rest, from the first dot on, is kept. -/
theorem oneLine_resolve {t : AliasTable} (h : Holds OneLine t) {name : Text} (hn : OneLine name) :
    OneLine (t.resolve name) := by
  unfold resolve
  split
  · next value hv =>
    refine Text.oneLine_append.2 ⟨h.get? hv, hn.mono fun _ hc => ?_⟩
    exact (List.dropWhile_sublist _).subset hc
  · exact hn

end AliasTable

namespace Environment

/-- No line feed is in what names mean. -/
structure IsOneLine (env : Environment) : Prop where
  aliases : env.aliases.Holds OneLine
  ranges : env.ranges.isOneLine = true
  dictionary : env.dictionary.isOneLine = true

variable {env : Environment}

/-! A value is found in the ranges or in the dictionary, a name is resolved by the alias table, and
    what a loop runs over is a value like any other. -/

theorem isOneLine_of_value? (he : env.IsOneLine) {path : Text} {v : Value}
    (h : env.value? path = some v) : v.isOneLine = true := by
  unfold value? at h
  rcases Option.or_eq_some_iff.1 h with h | ⟨_, h⟩
  · exact Value.isOneLine_of_follow he.ranges h
  · exact Value.isOneLine_of_follow he.dictionary h

theorem oneLine_of_resolve? (he : env.IsOneLine) {name resolved : Text} (hn : OneLine name)
    (h : env.resolve? name = some resolved) : OneLine resolved := by
  unfold resolve? at h
  simp only at h
  split at h
  · cases h
    exact AliasTable.oneLine_resolve he.aliases hn
  · cases h

theorem isOneLine_of_dictionary? (he : env.IsOneLine) {path : Text} {d : Dictionary}
    (h : env.dictionary? path = some d) : d.isOneLine = true := by
  unfold dictionary? at h
  split at h
  · next entries hv =>
    cases h
    have hd := isOneLine_of_value? he hv
    rw [Value.isOneLine] at hd
    exact hd
  · cases h

/-- A token is replaced by a text of one line: by a name without its quotes, or by a value. -/
theorem oneLine_of_expand (he : env.IsOneLine) {name text : Text} (hn : OneLine name)
    (h : env.expand name = .ok text) : OneLine text := by
  unfold expand at h
  split at h
  · cases h
  · next resolved hr =>
    have hresolved := oneLine_of_resolve? he hn hr
    split at h
    · cases h
      exact hresolved.mono fun c hc => List.mem_of_mem_tail ((List.dropLast_sublist _).subset hc)
    · split at h
      · next literal hl =>
        cases h
        obtain ⟨v, hv, hl⟩ := Option.bind_eq_some_iff.1 hl
        exact Value.oneLine_literal? (isOneLine_of_value? he hv) hl
      · cases h

/-- **An expanded line is one line.**  Each replacement keeps the line one line, as the name of a
    token is taken from the line and its value is of one line, too. -/
theorem oneLine_of_expandLine (he : env.IsOneLine) {limit : Nat} {loc : Location} {line out : Text}
    (hl : OneLine line) (h : Substitution.expandLine env limit loc line = .ok out) :
    OneLine out := by
  obtain ⟨_, n, _, hr⟩ := Substitution.replaces_of_expandLine h
  refine hr.keeps ?_ hl
  intro before name after text hline htext
  -- The token's name is a part of the line, and so of one line itself.
  have hb := (Text.oneLine_append.1 hline).1
  have hrest := (Text.oneLine_append.1 hline).2
  have htoken := (Text.oneLine_cons.1 (Text.oneLine_cons.1 hrest).2).2
  have hname := (Text.oneLine_append.1 htoken).1
  have hafter := (Text.oneLine_cons.1 (Text.oneLine_append.1 htoken).2).2
  exact Text.oneLine_append.2 ⟨Text.oneLine_append.2 ⟨hb, oneLine_of_expand he hname htext⟩, hafter⟩

end Environment

/-! ## Loops

  What a loop binds is put together from its header, from keys and from the names of ranges. -/

/-- The collection of a loop is a word of its header, and a line feed ends a word. -/
theorem LoopHeader.oneLine_collection {rest : Text} {header : LoopHeader}
    (h : parse rest = .ok header) : OneLine header.collection :=
  (isWord_of_parse h).2.2.not_mem (by decide)

/-- A dictionary stays of one line when a key is set. -/
theorem Dictionary.isOneLine_set {d : Dictionary} {key : Text} {value : Value}
    (hd : d.isOneLine = true) (hk : OneLine key) (hv : value.isOneLine = true) :
    (d.set key value).isOneLine = true := by
  refine Value.areOneLine_iff.2 fun e he => ?_
  rcases Entries.mem_set he with rfl | he
  · exact ⟨hk, hv⟩
  · exact Value.areOneLine_iff.1 hd e he

/-! The name of a range is made of words and two numbers, and its dictionary of numbers only. -/

theorem Range.oneLine_name (r : Range) : OneLine r.name := by
  unfold Range.name
  simp only [Text.oneLine_append]
  exact ⟨⟨⟨⟨by decide, Text.oneLine_ofInt _⟩, by decide⟩, Text.oneLine_ofInt _⟩, by decide⟩

theorem Range.isOneLine_dictionary (r : Range) : r.dictionary.isOneLine = true := by
  refine Value.areOneLine_iff.2 fun e he => ?_
  obtain ⟨i, _, rfl⟩ := List.mem_map.1 he
  refine ⟨Text.oneLine_ofNat _, ?_⟩
  rw [Value.isOneLine]
  exact decide_eq_true (Text.oneLine_ofInt _)

/-- The dictionaries of ranges and the name of the collection stay of one line. -/
theorem LoopHeader.oneLine_gather {header : LoopHeader} {ranges ranges' : Dictionary} {name : Text}
    (hc : OneLine header.collection) (hr : ranges.isOneLine = true)
    (h : header.gather ranges = .ok (ranges', name)) : ranges'.isOneLine = true ∧ OneLine name := by
  unfold gather at h
  split at h
  · cases h
    exact ⟨hr, hc⟩
  · cases hp : Range.parse header.collection with
    | error fault =>
      rw [hp] at h
      cases h
    | ok range =>
      rw [hp] at h
      cases h
      refine ⟨Dictionary.isOneLine_set hr range.oneLine_name ?_, range.oneLine_name⟩
      rw [Value.isOneLine]
      exact range.isOneLine_dictionary

/-- What a loop binds is of one line if its collection and its keys are. -/
theorem Loop.oneLine_bindings {l : Loop} {key : Text} (hc : OneLine l.collection)
    (hk : OneLine key) : ∀ b ∈ l.bindings key, OneLine b.2 := by
  intro b hb
  rcases List.mem_append.1 hb with hb | hb
  · obtain ⟨name, _, rfl⟩ : ∃ name, l.keyName = some name ∧ (name, '"' :: (key ++ ['"'])) = b := by
      simpa using hb
    exact Text.oneLine_cons.2 ⟨by decide, Text.oneLine_append.2 ⟨hk, by decide⟩⟩
  · rw [List.mem_singleton.1 hb]
    exact Text.oneLine_append.2 ⟨hc, Text.oneLine_cons.2 ⟨by decide, hk⟩⟩

/-! ## Paths

  A file is found under a path that is the same as a stored one, but is spelled otherwise perhaps.
  Line feeds cannot hide in a spelling: they are characters of a name, and names are kept. -/

/-- What is in a text and is no separator is in one of the pieces. -/
theorem Text.mem_iff_mem_splitOn {c sep : Char} (hc : c ≠ sep) {t : Text} :
    c ∈ t ↔ ∃ piece ∈ t.splitOn sep, c ∈ piece := by
  induction t with
  | nil => simp
  | cons d rest ih =>
    by_cases hd : d = sep
    · rw [hd, splitOn_cons_self]
      simp [hc, ih]
    · obtain ⟨first, more, hs⟩ := List.exists_cons_of_ne_nil (List.splitOn_ne_nil sep rest)
      rw [hs] at ih
      rw [splitOn_cons_of_ne hd, hs, List.modifyHead_cons]
      simp only [List.mem_cons, exists_eq_or_imp] at ih ⊢
      rw [ih, or_assoc]

namespace Path

/-- The components with a line feed are the pieces between separators that have one. -/
theorem name_mem_components_iff {p : Path} {n : Text} (hn : '\n' ∈ n) :
    .name n ∈ p.components ↔ n ∈ segments p.text := by
  -- A piece with a line feed is none of those that are dropped or have a meaning of their own.
  have hdot : n ≠ ['.'] := by
    rintro rfl
    exact absurd hn (by decide)
  have hplain : ¬(n = [] ∨ n = ['.']) ∧ n ≠ ['.', '.'] := by
    refine ⟨?_, by rintro rfl; exact absurd hn (by decide)⟩
    rintro (rfl | h)
    · cases hn
    · exact hdot h
  have hsegment : ∀ {s}, Component.ofSegment? s = some (.name n) ↔ s = n := by
    intro s
    unfold Component.ofSegment?
    constructor
    · intro h
      split at h
      · cases h
      · split at h
        · cases h
        · cases h
          rfl
    · rintro rfl
      rw [if_neg hplain.1, if_neg hplain.2]
  have hmem : ∀ {pieces : List Text}, .name n ∈ pieces.filterMap Component.ofSegment? ↔
      n ∈ pieces := by
    intro pieces
    simp [List.mem_filterMap, hsegment]
  unfold components
  split
  · simp [hmem]
  · split
    · next rest hs => simp [hs, hmem, hdot]
    · exact hmem

/-- Two spellings of one path are both of one line, or neither: a line feed stands in a component,
    and the components are the same. -/
theorem oneLine_of_same {p q : Path} (h : p.same q = true) (hp : OneLine p.text) :
    OneLine q.text := by
  have hsep : '\n' ≠ '/' := by decide
  intro hq
  obtain ⟨n, hmem, hn⟩ := (Text.mem_iff_mem_splitOn hsep).1 hq
  have hcomponent := (name_mem_components_iff hn).2 hmem
  rw [← same_iff.1 h] at hcomponent
  exact hp ((Text.mem_iff_mem_splitOn hsep).2 ⟨n, (name_mem_components_iff hn).1 hcomponent, hn⟩)

end Path

/-- A path that leads to a file is of one line if the path is that the file is stored under. -/
theorem Source.oneLine_of_find? {source : Source} {path : Path} {t : Text}
    (hs : ∀ f ∈ source.files, OneLine f.1.text) (h : source.find? path = some (.text t)) :
    OneLine path.text := by
  obtain ⟨f, hf, hsame⟩ := Source.listed_of_find?_eq_text h
  exact Path.oneLine_of_same hsame (hs f hf)

end ShaderWeave
