/-
  The grammar of loop headers.

  A header is read by cutting at the first comma and taking words one by one.  What it says is given
  here by a grammar instead: a `Layout` is a header piece by piece, with the white space between its
  parts and the text after it, and with the proofs that the pieces are what they should be.

    * `Layout.text` writes the pieces one after the other, `Layout.header` forgets all but the
      names;
    * a text is read as a header exactly where it is the text of a layout with this header
      (`parse_eq_ok_iff`);
    * no text has two layouts (`Layout.text_injective`), so the parts of a header are told by its
      text alone;
    * `read` is what a pass makes of a line that asks for nothing else (`Pass.execute_eq_read`),
      with its place.

  Both rest on how words are cut.  The words of a text are its first word and then the words of what
  follows (`words_eq_cons_iff`), and where a run of white space and a word end is told by the
  character behind them (`append_inj_of_class`).  **A word is maximal because it is followed by
  white space or by nothing.**
-/
import Mathlib.Data.List.TakeWhile
import ShaderWeave.Pass
import ShaderWeave.Proofs.Expansion

namespace ShaderWeave

namespace Text

/-! ## Words

  A text falls into white space and words in one way only.  Cancellation is what makes it so: two
  factorizations whose first parts are of one kind, and end where this kind ends, have the same
  first parts. -/

/-- White space, or nothing. -/
def Blank (t : Text) : Prop := ∀ c ∈ t, isSpace c = true

/-- White space. -/
def IsGap (t : Text) : Prop := t ≠ [] ∧ Blank t

/-- Something without white space in it. -/
def IsWord (t : Text) : Prop := t ≠ [] ∧ ∀ c ∈ t, isSpace c = false

/-- What can follow a word: nothing, or white space and any text. -/
def EndsWord (t : Text) : Prop := ∀ c ∈ t.head?, isSpace c = true

/-- Where a run of characters of a class ends is told by the character behind it. -/
theorem append_inj_of_class {p : Char → Bool} {a b a' b' : Text} (ha : ∀ c ∈ a, p c = true)
    (ha' : ∀ c ∈ a', p c = true) (hb : ∀ c ∈ b.head?, p c = false)
    (hb' : ∀ c ∈ b'.head?, p c = false) (h : a ++ b = a' ++ b') : a = a' ∧ b = b' := by
  -- Either run is the longest one of the class that the text starts with.
  have run : ∀ {a b : Text}, (∀ c ∈ a, p c = true) → (∀ c ∈ b.head?, p c = false) →
      (a ++ b).takeWhile p = a := by
    intro a b ha hb
    have hstop : b.takeWhile p = [] := by
      cases b with
      | nil => rfl
      | cons c b => rw [List.takeWhile_cons, hb c rfl, if_neg Bool.false_ne_true]
    rw [List.takeWhile_append_of_pos ha, hstop, List.append_nil]
  have hrun : a = a' := by rw [← run ha hb, h, run ha' hb']
  subst hrun
  exact ⟨rfl, List.append_cancel_left h⟩

/-! A text that starts with a word does not start with white space, and no white space is in a word.
    -/

theorem IsWord.head? {w : Text} (h : IsWord w) (t : Text) :
    ∀ c ∈ (w ++ t).head?, isSpace c = false := by
  obtain ⟨d, w, rfl⟩ := List.exists_cons_of_ne_nil h.1
  intro c hc
  cases hc
  exact h.2 d List.mem_cons_self

theorem IsWord.not_mem {w : Text} {c : Char} (h : IsWord w) (hc : isSpace c = true) : c ∉ w := by
  intro hmem
  rw [h.2 c hmem] at hc
  cases hc

/-! White space ends a word, whatever follows it, and so does white space up to the end, even if
    there is none. -/

theorem IsGap.endsWord {g : Text} (h : IsGap g) (t : Text) : EndsWord (g ++ t) := by
  obtain ⟨d, g, rfl⟩ := List.exists_cons_of_ne_nil h.1
  intro c hc
  cases hc
  exact h.2 d List.mem_cons_self

theorem Blank.endsWord {t : Text} (h : Blank t) : EndsWord t :=
  fun c hc => h c (List.mem_of_head? hc)

/-- White space before a word is told apart from the word. -/
theorem blank_append_inj {b t b' t' : Text} (hb : Blank b) (hb' : Blank b')
    (ht : ∀ c ∈ t.head?, isSpace c = false) (ht' : ∀ c ∈ t'.head?, isSpace c = false)
    (h : b ++ t = b' ++ t') : b = b' ∧ t = t' :=
  append_inj_of_class hb hb' ht ht' h

/-- A word is told apart from what follows it. -/
theorem word_append_inj {w r w' r' : Text} (hw : IsWord w) (hw' : IsWord w') (hr : EndsWord r)
    (hr' : EndsWord r') (h : w ++ r = w' ++ r') : w = w' ∧ r = r' := by
  have solid : ∀ {w : Text}, IsWord w → ∀ c ∈ w, (!isSpace c) = true :=
    fun hw c hc => by rw [hw.2 c hc]; rfl
  have ends : ∀ {r : Text}, EndsWord r → ∀ c ∈ r.head?, (!isSpace c) = false :=
    fun hr c hc => by rw [hr c hc]; rfl
  exact append_inj_of_class (solid hw) (solid hw') (ends hr) (ends hr') h

/-- White space in front belongs to no word. -/
theorem words_blank_append {b : Text} (hb : Blank b) (t : Text) : words (b ++ t) = words t := by
  induction b with
  | nil => rfl
  | cons c b ih =>
    obtain ⟨hc, hb⟩ := List.forall_mem_cons.1 hb
    rw [List.cons_append, words.eq_def]
    exact (if_pos hc).trans (ih hb)

/-- White space alone has no words. -/
theorem words_of_blank {b : Text} (hb : Blank b) : words b = [] := by
  have hwords := words_blank_append hb []
  rwa [List.append_nil] at hwords

/-- A word in front is the first of the words. -/
theorem words_word_append {w r : Text} (hw : IsWord w) (hr : EndsWord r) :
    words (w ++ r) = w :: words r := by
  obtain ⟨hne, hw⟩ := hw
  induction w with
  | nil => exact absurd rfl hne
  | cons c w ih =>
    obtain ⟨hc, hw⟩ := List.forall_mem_cons.1 hw
    have hc : ¬isSpace c = true := by
      rw [hc]
      exact Bool.false_ne_true
    -- The word ends here, where white space follows or the end of the text, or it goes on with `d`.
    cases w with
    | nil =>
      cases r with
      | nil => exact if_neg hc
      | cons d r =>
        rw [List.cons_append, words.eq_def]
        exact (if_neg hc).trans (if_pos (hr d rfl))
    | cons d w =>
      have hd : ¬isSpace d = true := by
        rw [hw d List.mem_cons_self]
        exact Bool.false_ne_true
      have hrest := ih (List.cons_ne_nil _ _) hw
      rw [List.cons_append, words.eq_def]
      refine (if_neg hc).trans ((if_neg hd).trans ?_)
      rw [hrest]

/-- A text is blank, or it has a first word. -/
theorem blank_or_word (t : Text) :
    Blank t ∨ ∃ b w r, t = b ++ (w ++ r) ∧ Blank b ∧ IsWord w ∧ EndsWord r := by
  induction t with
  | nil => exact .inl nofun
  | cons c t ih =>
    cases hc : isSpace c with
    | true =>
      rcases ih with hb | ⟨b, w, r, rfl, hb, hw, hr⟩
      · exact .inl (List.forall_mem_cons.2 ⟨hc, hb⟩)
      · exact .inr ⟨c :: b, w, r, rfl, List.forall_mem_cons.2 ⟨hc, hb⟩, hw, hr⟩
    -- The word is as long as it can be.
    | false =>
      refine .inr ⟨[], c :: t.takeWhile (!isSpace ·), t.dropWhile (!isSpace ·), ?_, nofun,
        ⟨List.cons_ne_nil _ _, ?_⟩, ?_⟩
      · rw [List.nil_append, List.cons_append, List.takeWhile_append_dropWhile]
      · refine List.forall_mem_cons.2 ⟨hc, fun d hd => ?_⟩
        simpa using List.mem_takeWhile_imp hd
      · intro d hd
        have hstop := List.head?_dropWhile_not (!isSpace ·) t
        rw [Option.mem_def.1 hd] at hstop
        simpa using hstop

/-- **The words of a text are its first word and the words of what follows.** -/
theorem words_eq_cons_iff {t w : Text} {more : List Text} :
    words t = w :: more ↔
      ∃ b r, t = b ++ (w ++ r) ∧ Blank b ∧ IsWord w ∧ EndsWord r ∧ words r = more := by
  constructor
  · intro h
    rcases blank_or_word t with hb | ⟨b, w', r, rfl, hb, hw, hr⟩
    · rw [words_of_blank hb] at h
      cases h
    · rw [words_blank_append hb, words_word_append hw hr] at h
      cases h
      exact ⟨b, r, rfl, hb, hw, hr, rfl⟩
  · rintro ⟨b, r, rfl, hb, hw, hr, rfl⟩
    rw [words_blank_append hb, words_word_append hw hr]

/-- A text has no words where it is blank. -/
theorem words_eq_nil_iff {t : Text} : words t = [] ↔ Blank t := by
  refine ⟨fun h => ?_, words_of_blank⟩
  rcases blank_or_word t with hb | ⟨b, w, r, rfl, hb, hw, hr⟩
  · exact hb
  · rw [words_blank_append hb, words_word_append hw hr] at h
    cases h

/-- White space that a word starts behind, where another word has ended. -/
theorem EndsWord.isGap {b w r : Text} (h : EndsWord (b ++ (w ++ r))) (hb : Blank b)
    (hw : IsWord w) : IsGap b := by
  refine ⟨?_, hb⟩
  rintro rfl
  obtain ⟨c, w, rfl⟩ := List.exists_cons_of_ne_nil hw.1
  have hc := h c rfl
  rw [hw.2 c List.mem_cons_self] at hc
  cases hc

/-- A comma is no white space. -/
theorem Blank.comma_not_mem {t : Text} (h : Blank t) : ',' ∉ t :=
  fun hc => absurd (h _ hc) (by decide)

end Text

namespace LoopHeader

open Text

/-! ## Layouts

  A `Layout` is a header with all the white space in it, so it has a text, and from the text the
  layout can be told (`Layout.text_injective`).  There is one for each of the two forms, and a comma
  tells them apart: the first has one behind its first word, the second has none at all. -/

/-- The pieces of `value in collection` and of what follows. -/
structure Tail where
  before : Text
  value : Text
  afterValue : Text
  afterIn : Text
  collection : Text
  rest : Text
  blank_before : Blank before
  isWord_value : IsWord value
  isGap_afterValue : IsGap afterValue
  isGap_afterIn : IsGap afterIn
  isWord_collection : IsWord collection
  endsWord_rest : EndsWord rest

/-- The pieces, one after the other. -/
def Tail.text (t : Tail) : Text :=
  t.before ++
    (t.value ++ (t.afterValue ++ ("in".toList ++ (t.afterIn ++ (t.collection ++ t.rest)))))

/-- The pieces of what follows `#for`. -/
inductive Layout where
  /-- With the name of the key before the first comma. -/
  | keyed (before key after : Text) (tail : Tail) (hb : Blank before) (hk : IsWord key)
      (hc : ',' ∉ key) (ha : Blank after)
  /-- Without a comma. -/
  | bare (tail : Tail) (hc : ',' ∉ tail.text)

/-- The pieces, one after the other. -/
def Layout.text : Layout → Text
  | .keyed before key after tail .. => before ++ (key ++ (after ++ ',' :: tail.text))
  | .bare tail _ => tail.text

/-- The header that has these pieces. -/
def Layout.header : Layout → LoopHeader
  | .keyed _ key _ tail .. => ⟨some key, tail.value, tail.collection⟩
  | .bare tail _ => ⟨none, tail.value, tail.collection⟩

/-- The word between the names is a word like them. -/
theorem isWord_in : IsWord "in".toList :=
  ⟨List.cons_ne_nil _ _, List.forall_mem_cons.2
    ⟨by decide, List.forall_mem_cons.2 ⟨by decide, nofun⟩⟩⟩

/-- The words of a tail are its names, with that word between them, and the words of the rest. -/
theorem Tail.words_text (t : Tail) :
    t.text.words = t.value :: "in".toList :: t.collection :: t.rest.words := by
  unfold Tail.text
  rw [words_blank_append t.blank_before,
    words_word_append t.isWord_value (t.isGap_afterValue.endsWord _),
    words_blank_append t.isGap_afterValue.2,
    words_word_append isWord_in (t.isGap_afterIn.endsWord _), words_blank_append t.isGap_afterIn.2,
    words_word_append t.isWord_collection t.endsWord_rest]

/-- No text is divided in two ways: behind white space stands a word, and behind a word white space
    or nothing. -/
theorem Tail.text_injective {t t' : Tail} (h : t.text = t'.text) : t = t' := by
  -- Piece by piece from the left: each ends where the class of its characters does.
  have hbefore := blank_append_inj t.blank_before t'.blank_before (t.isWord_value.head? _)
    (t'.isWord_value.head? _) h
  have hvalue := word_append_inj t.isWord_value t'.isWord_value (t.isGap_afterValue.endsWord _)
    (t'.isGap_afterValue.endsWord _) hbefore.2
  have hafterValue := blank_append_inj t.isGap_afterValue.2 t'.isGap_afterValue.2
    (isWord_in.head? _) (isWord_in.head? _) hvalue.2
  have hafterIn := blank_append_inj t.isGap_afterIn.2 t'.isGap_afterIn.2
    (t.isWord_collection.head? _) (t'.isWord_collection.head? _)
    (List.append_cancel_left hafterValue.2)
  have hcollection := word_append_inj t.isWord_collection t'.isWord_collection t.endsWord_rest
    t'.endsWord_rest hafterIn.2
  cases t
  cases t'
  simp only [Tail.mk.injEq]
  exact ⟨hbefore.1, hvalue.1, hafterValue.1, hafterIn.1, hcollection.1, hcollection.2⟩

/-- The first comma ends the front of a header with a key. -/
theorem Layout.cut_keyed {before key after : Text} (tail : Tail) (hb : Blank before)
    (hk : IsWord key) (hc : ',' ∉ key) (ha : Blank after) :
    cut ',' (Layout.keyed before key after tail hb hk hc ha).text =
      some (before ++ (key ++ after), tail.text) := by
  refine cut_eq_some_iff.2 ⟨by simp [Layout.text], ?_⟩
  simp [hb.comma_not_mem, hc, ha.comma_not_mem]

/-- And there is none in a header without a key. -/
theorem Layout.cut_bare (tail : Tail) (hc : ',' ∉ tail.text) :
    cut ',' (Layout.bare tail hc).text = none :=
  cut_eq_none_iff.2 hc

/-- **No text has two layouts.** -/
theorem Layout.text_injective {l l' : Layout} (h : l.text = l'.text) : l = l' := by
  -- Whether there is a comma is told by the text, and so is what stands before the first one.
  have hcut : cut ',' l.text = cut ',' l'.text := by rw [h]
  cases l with
  | keyed before key after tail hb hk hc ha =>
    cases l' with
    | keyed before' key' after' tail' hb' hk' hc' ha' =>
      rw [cut_keyed, cut_keyed] at hcut
      simp only [Option.some.injEq, Prod.mk.injEq] at hcut
      obtain ⟨hfront, htail⟩ := hcut
      have hbefore := blank_append_inj hb hb' (hk.head? _) (hk'.head? _) hfront
      have hkey := word_append_inj hk hk' ha.endsWord ha'.endsWord hbefore.2
      cases hbefore.1
      cases hkey.1
      cases hkey.2
      cases Tail.text_injective htail
      rfl
    | bare tail' hc' =>
      rw [cut_keyed, cut_bare] at hcut
      cases hcut
  | bare tail hc =>
    cases l' with
    | keyed before' key' after' tail' hb' hk' hc' ha' =>
      rw [cut_keyed, cut_bare] at hcut
      cases hcut
    | bare tail' hc' =>
      cases Tail.text_injective h
      rfl

/-! ## Reading

  The reader cuts at a comma and takes words, and remembers no white space.  It succeeds exactly on
  the texts of layouts, with the header that the layout has. -/

/-- The reader of `value in collection` accepts what has these pieces. -/
theorem parseTail_eq_ok_iff {key : Option Text} {tail : Text} {header : LoopHeader} :
    parseTail key tail = .ok header ↔
      ∃ t : Tail, t.text = tail ∧ header = ⟨key, t.value, t.collection⟩ := by
  constructor
  · intro h
    unfold parseTail at h
    split at h
    · cases h
    · cases h
    · next value word rest hwords =>
      split at h
      · cases h
      · next hin =>
        cases not_not.1 hin
        split at h
        · cases h
        · next collection more =>
          cases h
          -- The three words are found one behind the other, and each ends before white space.
          obtain ⟨before, r, rfl, hb, hv, hr, hwords⟩ := words_eq_cons_iff.1 hwords
          obtain ⟨afterValue, r, rfl, hav, hi, hr', hwords⟩ := words_eq_cons_iff.1 hwords
          obtain ⟨afterIn, r, rfl, hai, hcol, hr'', -⟩ := words_eq_cons_iff.1 hwords
          exact ⟨⟨before, value, afterValue, afterIn, collection, r, hb, hv, hr.isGap hav hi,
            hr'.isGap hai hcol, hcol, hr''⟩, rfl, rfl⟩
  · rintro ⟨t, rfl, rfl⟩
    unfold parseTail
    rw [t.words_text]
    rfl

/-- **The reader accepts the texts of layouts, and tells their names.**  In front of the first comma
    it wants one word, with white space around it or none; what follows the comma, or the whole
    header where there is none, is a tail. -/
theorem parse_eq_ok_iff {rest : Text} {header : LoopHeader} :
    parse rest = .ok header ↔ ∃ l : Layout, l.text = rest ∧ l.header = header := by
  constructor
  · intro h
    unfold parse at h
    split at h
    · next hcut =>
      obtain ⟨t, rfl, rfl⟩ := parseTail_eq_ok_iff.1 h
      exact ⟨.bare t (cut_eq_none_iff.1 hcut), rfl, rfl⟩
    · next front tail hcut =>
      split at h
      · next key hwords =>
        obtain ⟨rfl, hcomma⟩ := cut_eq_some_iff.1 hcut
        obtain ⟨t, rfl, rfl⟩ := parseTail_eq_ok_iff.1 h
        obtain ⟨before, after, rfl, hb, hk, -, hmore⟩ := words_eq_cons_iff.1 hwords
        have hc : ',' ∉ key := fun hc => hcomma (by simp [hc])
        exact ⟨.keyed before key after t hb hk hc (words_eq_nil_iff.1 hmore), by
          simp [Layout.text], rfl⟩
      · cases h
  · rintro ⟨l, rfl, rfl⟩
    unfold parse
    cases l with
    | keyed before key after tail hb hk hc ha =>
      have hwords : words (before ++ (key ++ after)) = [key] :=
        words_eq_cons_iff.2 ⟨before, after, rfl, hb, hk, ha.endsWord, words_of_blank ha⟩
      rw [Layout.cut_keyed]
      simp only [hwords]
      exact parseTail_eq_ok_iff.2 ⟨tail, rfl, rfl⟩
    | bare tail hc =>
      rw [Layout.cut_bare]
      exact parseTail_eq_ok_iff.2 ⟨tail, rfl, rfl⟩

/-- The parts of a header are words. -/
theorem isWord_of_parse {rest : Text} {header : LoopHeader} (h : parse rest = .ok header) :
    (∀ key ∈ header.key, IsWord key) ∧ IsWord header.value ∧ IsWord header.collection := by
  obtain ⟨l, -, rfl⟩ := parse_eq_ok_iff.1 h
  cases l with
  | keyed before key after tail hb hk hc ha =>
    refine ⟨fun k hmem => ?_, tail.isWord_value, tail.isWord_collection⟩
    cases hmem
    exact hk
  | bare tail hc => exact ⟨nofun, tail.isWord_value, tail.isWord_collection⟩

/-! A line that does not start as a header is none, and one that does is parsed behind its first
    four characters. -/

theorem read_of_not_isHeader {line : Text} (h : ¬isHeader line = true) : read line = .ok none :=
  if_neg h

theorem read_of_isHeader {c : Char} {rest : Text} (hc : isSpace c = true) :
    read ("#for".toList ++ c :: rest) = (parse (c :: rest)).map some :=
  if_pos (isHeader_iff.2 ⟨c, rest, rfl, hc⟩)

end LoopHeader

/-- What a pass does with a line that asks for nothing else: it is written, or opens a loop, or ends
    the pass at this place. -/
theorem Pass.execute_eq_read {job : Job} {p : Pass} {file : OpenFile} {outer : List OpenFile}
    {margin raw line : Text} (hend : LoopHeader.isEnd raw = false)
    (hline : Substitution.expandLine (p.environment job) job.config.maxSubstitutions
      p.location raw = .ok line)
    (hversion : "#version __CONTEXT__".toList.isPrefixOf line = false)
    (hplatform : "#define __OS__".toList.isPrefixOf line = false)
    (hinclude : List.isPrefixOf? "#include".toList line = none) :
    execute job p file outer margin raw =
      match (LoopHeader.read line).mapError (.malformed · p.location) with
      | .ok none => .next (p.emit (.source file.id file.line (file.indentation ++ margin ++ line)))
      | .ok (some header) => startLoop job p file outer header
      | .error e => p.fail e := by
  unfold execute Directive.parse
  simp only [hend, hline, hversion, hplatform, hinclude, Bool.false_eq_true, if_false]
  cases LoopHeader.read line with
  | error fault => rfl
  | ok header? => cases header? <;> rfl

namespace LoopHeader

open Text

/-- **A header is read exactly where the grammar has one.**  Any line is none, or a header whose
    pieces are told by its text, or malformed at the place `loc` where it is read. -/
theorem read_exactly_the_grammar (loc : Location) (line : Text) :
    ((read line).mapError (Error.malformed · loc) = .ok none ↔
      ¬∃ c rest, line = "#for".toList ++ c :: rest ∧ isSpace c = true) ∧
    ∀ c rest, line = "#for".toList ++ c :: rest → isSpace c = true →
      (∀ header, (read line).mapError (Error.malformed · loc) = .ok (some header) ↔
        ∃ l : Layout, l.text = c :: rest ∧ l.header = header) ∧
      (∀ l l' : Layout, l.text = c :: rest → l'.text = c :: rest → l = l') ∧
      ((¬∃ l : Layout, l.text = c :: rest) →
        ∃ fault, (read line).mapError (Error.malformed · loc) = .error (.malformed fault loc)) := by
  constructor
  · -- Whether the line is a header at all.
    constructor
    · rintro h ⟨c, rest, rfl, hc⟩
      rw [read_of_isHeader hc] at h
      cases hparse : parse (c :: rest) <;> rw [hparse] at h <;> cases h
    · intro h
      rw [read_of_not_isHeader fun hh => h (isHeader_iff.1 hh)]
      rfl
  · -- What is made of one that is.
    rintro c rest rfl hc
    rw [read_of_isHeader hc]
    refine ⟨fun header => ?_, fun l l' hl hl' => Layout.text_injective (hl.trans hl'.symm),
      fun hnone => ?_⟩
    · rw [← parse_eq_ok_iff]
      cases hparse : parse (c :: rest) with
      | ok header' => simp [Except.map, Except.mapError]
      | error fault => simp [Except.map, Except.mapError]
    · cases hparse : parse (c :: rest) with
      | ok header =>
        obtain ⟨l, hl, -⟩ := parse_eq_ok_iff.1 hparse
        exact absurd ⟨l, hl⟩ hnone
      | error fault => exact ⟨fault, rfl⟩

/-- A value and a collection may be named `in`, and a comma after them means nothing; but `in` as a
    value is not the `in` behind it. -/
theorem read_exactly_the_grammar_namedIn :
    isSpace ' ' = true ∧
    (∃ l : Layout, l.text = " k , in in in ,x".toList ∧
      l.header = ⟨some "k".toList, "in".toList, "in".toList⟩ ∧
      ∀ l' : Layout, l'.text = " k , in in in ,x".toList → l' = l) ∧
    (¬∃ l : Layout, l.text = " k, in x".toList) ∧
    ∃ fault, (read "#for k, in x".toList).mapError (Error.malformed · ⟨"a".toList, 3⟩) =
      .error (.malformed fault ⟨"a".toList, 3⟩) := by
  have hspace : isSpace ' ' = true := by decide
  have named := (read_exactly_the_grammar ⟨"a".toList, 3⟩ "#for k , in in in ,x".toList).2 ' '
    "k , in in in ,x".toList rfl hspace
  have lost := (read_exactly_the_grammar ⟨"a".toList, 3⟩ "#for k, in x".toList).2 ' '
    "k, in x".toList rfl hspace
  obtain ⟨l, htext, hheader⟩ := (named.1 ⟨some "k".toList, "in".toList, "in".toList⟩).1 rfl
  have hnone : ¬∃ l : Layout, l.text = " k, in x".toList := by
    rintro ⟨l, hl⟩
    cases (lost.1 l.header).2 ⟨l, hl, rfl⟩
  exact ⟨hspace, ⟨l, htext, hheader, fun l' hl' => named.2.1 l' l hl' htext⟩, hnone, lost.2.2 hnone⟩

end LoopHeader
end ShaderWeave
