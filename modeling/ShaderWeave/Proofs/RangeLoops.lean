/-
  Loops over ranges.

  `#for i in min..max` runs over a dictionary that is made for it: its keys are 1, 2, … and its
  values the integers of the range, as texts.  The loop knows the dictionary by a name that spells
  out both bounds and the name `i` is bound to a path below it.  So that `i` means the right integer
  rests on many things.

    * A bound is read from an optional sign and digits, and from nothing else (`Text.Spells`,
      `Text.int32?_eq_some_iff`).
    * The name of a range has spaces, which no name that a header binds has, so no loop around can
      change what it means (`Pass.resolve_rangeName`); ranges come before the user's dictionary, so
      no key of that can.  A header over a range thus always opens a loop (`Pass.opens_range`).
    * The name tells the range, so whatever ranges were put beside or on top of it, what stands
      under the name is the dictionary of that range as long as a loop over it is open
      (`Pass.Named.dictionary?_range`).
    * Its `j`-th key leads to `min + j` (`Range.get?_dictionary`), and that key is the current one
      once `j` turns are ended.
-/
import ShaderWeave.Proofs.KeyOrder
import ShaderWeave.Proofs.LoopRuns

namespace ShaderWeave

/-! ## Reading ranges

  The spellings of an integer are described by what they look like, not by how they are read; the
  grammar and the reader meet in `int?_eq_some_iff`, and for 32 bits in `int32?_eq_some_iff`.  With
  neither dots nor white space in a bound, the dots between two bounds are found, and nothing is
  trimmed off. -/

namespace Text

/-- Digits, at least one. -/
def IsNumeral (t : Text) : Prop := t ≠ [] ∧ ∀ c ∈ t, c.isDigit = true

/-- The text is an optional sign and digits, which together mean `n`. -/
inductive Spells : Text → Int → Prop where
  | plain {t} (h : IsNumeral t) : Spells t (Nat.ofDigitChars 10 t 0)
  | plus {t} (h : IsNumeral t) : Spells ('+' :: t) (Nat.ofDigitChars 10 t 0)
  | minus {t} (h : IsNumeral t) : Spells ('-' :: t) (-(Nat.ofDigitChars 10 t 0))

/-! Digits are read as a natural number, and nothing but digits is. -/

theorem IsNumeral.nat?_eq {t : Text} (h : IsNumeral t) : nat? t = some (Nat.ofDigitChars 10 t 0) :=
  nat?_eq_some_iff.2 ⟨h.1, h.2, rfl⟩

theorem isNumeral_of_nat? {t : Text} {n : Nat} (h : nat? t = some n) :
    IsNumeral t ∧ n = Nat.ofDigitChars 10 t 0 := by
  obtain ⟨hne, hd, hn⟩ := nat?_eq_some_iff.1 h
  exact ⟨⟨hne, hd⟩, hn⟩

/-- Digits do not begin with a sign. -/
theorem IsNumeral.int?_eq {t : Text} (h : IsNumeral t) :
    int? t = some (Int.ofNat (Nat.ofDigitChars 10 t 0)) := by
  have hsign : ∀ c digits, t = c :: digits → c ≠ '+' ∧ c ≠ '-' := by
    rintro c digits rfl
    have hc := h.2 c List.mem_cons_self
    constructor
    · rintro rfl
      exact absurd hc (by decide)
    · rintro rfl
      exact absurd hc (by decide)
  unfold int?
  split
  · next digits => exact absurd rfl (hsign _ digits rfl).1
  · next digits => exact absurd rfl (hsign _ digits rfl).2
  · rw [h.nat?_eq, Option.map_some]

/-- An integer of any size is read from every text that spells it, and from no other. -/
theorem int?_eq_some_iff {t : Text} {n : Int} : int? t = some n ↔ Spells t n := by
  constructor
  · intro h
    unfold int? at h
    -- The reader looks for one sign; without one the whole text has to be digits.
    split at h
    · obtain ⟨m, hm, rfl⟩ := Option.map_eq_some_iff.1 h
      obtain ⟨hn, rfl⟩ := isNumeral_of_nat? hm
      exact .plus hn
    · obtain ⟨m, hm, rfl⟩ := Option.map_eq_some_iff.1 h
      obtain ⟨hn, rfl⟩ := isNumeral_of_nat? hm
      exact .minus hn
    · obtain ⟨m, hm, rfl⟩ := Option.map_eq_some_iff.1 h
      obtain ⟨hn, rfl⟩ := isNumeral_of_nat? hm
      exact .plain hn
  · intro h
    cases h with
    | plain hn => exact hn.int?_eq
    | plus hn =>
      show (nat? _).map Int.ofNat = _
      rw [hn.nat?_eq, Option.map_some]
      rfl
    | minus hn =>
      show (nat? _).map (fun n => -(Int.ofNat n)) = _
      rw [hn.nat?_eq, Option.map_some]
      rfl

end Text

/-- An integer of 32 bits is read from every text that spells it, and from no other. -/
theorem Text.int32?_eq_some_iff {t : Text} {n : Int32} : int32? t = some n ↔ Spells t n.toInt := by
  unfold int32?
  rw [Option.bind_eq_some_iff]
  constructor
  · rintro ⟨m, hm, hn⟩
    rw [← toInt32?_eq_some_iff.1 hn]
    exact int?_eq_some_iff.1 hm
  · intro h
    exact ⟨n.toInt, int?_eq_some_iff.2 h, toInt32?_eq_some_iff.2 rfl⟩

namespace Text

/-- Digits are in one block of the code points, and no white space is in it. -/
theorem isSpace_of_isDigit {c : Char} (h : c.isDigit = true) : isSpace c = false := by
  have hlow : 48 ≤ c.toNat ∧ c.toNat ≤ 57 := by
    rw [Char.isDigit, Bool.and_eq_true, decide_eq_true_eq, decide_eq_true_eq] at h
    exact ⟨UInt32.le_iff_toNat_le.1 h.1, UInt32.le_iff_toNat_le.1 h.2⟩
  unfold isSpace
  simp only [Bool.or_eq_false_iff, Bool.and_eq_false_iff, decide_eq_false_iff_not,
    beq_eq_false_iff_ne]
  omega

/-- A text that spells a number has neither white space nor dots in it. -/
theorem Spells.forall_mem {t : Text} {n : Int} (h : Spells t n) :
    ∀ c ∈ t, isSpace c = false ∧ c ≠ '.' := by
  have digits : ∀ {t : Text}, IsNumeral t → ∀ c ∈ t, isSpace c = false ∧ c ≠ '.' := by
    intro t h c hc
    refine ⟨isSpace_of_isDigit (h.2 c hc), ?_⟩
    rintro rfl
    exact absurd (h.2 _ hc) (by decide)
  cases h with
  | plain h => exact digits h
  | plus h => exact List.forall_mem_cons.2 ⟨by decide, digits h⟩
  | minus h => exact List.forall_mem_cons.2 ⟨by decide, digits h⟩

/-- The first dots end the lower bound. -/
theorem cutDots_append {a : Text} (h : '.' ∉ a) (b : Text) :
    cutDots (a ++ '.' :: '.' :: b) = some (a, b) := by
  induction a with
  | nil => rfl
  | cons c a ih =>
    rw [List.mem_cons, not_or] at h
    rw [List.cons_append, cutDots, ih h.2, Option.map_some]
    rintro _ rfl
    exact absurd rfl h.1

/-- Without white space nothing is trimmed off. -/
theorem trim_of_forall {t : Text} (h : ∀ c ∈ t, isSpace c = false) : t.trim = t := by
  have drop : ∀ {t : Text}, (∀ c ∈ t, isSpace c = false) → t.dropWhile isSpace = t := by
    intro t h
    cases t with
    | nil => rfl
    | cons c t => rw [List.dropWhile_cons, h c List.mem_cons_self, if_neg Bool.false_ne_true]
  unfold trim trimRight
  rw [drop h, drop fun c hc => h c (List.mem_reverse.1 hc), List.reverse_reverse]

end Text

namespace Range

/-- So a bound is read from its spelling. -/
theorem parseBound_of_spells {t : Text} {n : Int32} (h : Text.Spells t n.toInt) (range : Text) :
    parseBound range t = .ok n := by
  unfold parseBound
  rw [Text.trim_of_forall fun c hc => (h.forall_mem c hc).1, Text.int32?_eq_some_iff.2 h]

/-- **A range is read from every spelling of its bounds.** -/
theorem parse_of_spells {a b : Text} {min max : Int32} (ha : Text.Spells a min.toInt)
    (hb : Text.Spells b max.toInt) : parse (a ++ '.' :: '.' :: b) = .ok ⟨min, max⟩ := by
  have hdot : '.' ∉ a := fun h => (ha.forall_mem _ h).2 rfl
  unfold parse
  rw [Text.cutDots_append hdot]
  simp only [parseBound_of_spells ha, parseBound_of_spells hb]
  rfl

/-! ## Dictionaries of ranges

  Keys and values are both texts made of numbers: keys count from 1, values start at the lower
  bound.  That different numbers are written differently is all that the look-up needs. -/

/-- The keys of a range count its integers, from 1. -/
theorem keys_dictionary (r : Range) :
    r.dictionary.keys = (List.range r.size).map fun j => Text.ofNat (j + 1) := by
  unfold dictionary Dictionary.keys
  rw [List.map_map]
  rfl

/-- There are as many as the range has integers. -/
theorem length_keys (r : Range) : r.dictionary.keys.length = r.size := by
  rw [keys_dictionary, List.length_map, List.length_range]

/-- **The dictionary of a range is made by setting its integers in order**; no number is set
    twice. -/
theorem dictionary_eq_ofList (r : Range) :
    r.dictionary = Dictionary.ofList ((List.range r.size).map fun (i : Nat) =>
      (Text.ofNat (i + 1), Value.string (Text.ofInt (r.min.toInt + i)))) := by
  have hdistinct : r.dictionary.keys.Nodup := by
    rw [keys_dictionary]
    refine List.Pairwise.map _ (fun i j hne he => hne ?_) List.nodup_range
    exact Nat.succ.inj (Text.ofNat_injective he)
  exact (Dictionary.ofList_of_nodup hdistinct).symm

/-- Once `j` keys are done, the current one is the number of the next. -/
theorem drop_keys {r : Range} {j : Nat} (h : j < r.size) :
    ∃ more, r.dictionary.keys.drop j = Text.ofNat (j + 1) :: more := by
  have hj : j < r.dictionary.keys.length := by
    rw [length_keys]
    exact h
  refine ⟨r.dictionary.keys.drop (j + 1), ?_⟩
  rw [List.drop_eq_getElem_cons hj]
  simp only [keys_dictionary, List.getElem_map, List.getElem_range]

/-- **Under its number stands the integer.** -/
theorem get?_dictionary {r : Range} {j : Nat} (h : j < r.size) :
    Entries.get? (Text.ofNat (j + 1)) r.dictionary.entries =
      some (.string (Text.ofInt (r.min.toInt + j))) := by
  -- The induction is over the numbers that the dictionary is made from.
  have find : ∀ js : List Nat, j ∈ js →
      Entries.get? (Text.ofNat (j + 1)) (js.map fun (i : Nat) =>
        (Text.ofNat (i + 1), Value.string (Text.ofInt (r.min.toInt + i)))) =
        some (.string (Text.ofInt (r.min.toInt + j))) := by
    intro js
    induction js with
    | nil => nofun
    | cons i js ih =>
      intro hj
      rw [List.map_cons, Entries.get?]
      split
      · next he =>
        -- Different numbers are written differently.
        have hi : i = j := Nat.succ.inj (Text.ofNat_injective he)
        rw [hi]
      · next hne => exact ih ((List.mem_cons.1 hj).resolve_left fun he => hne (by rw [he]))
  exact find _ (List.mem_range.2 h)

end Range

/-! ## Names

  What a header binds has no spaces in it, since a header is cut at spaces; the name of a range has
  some.  So the two never meet in the alias table, and the name of a range means itself
  everywhere. -/

namespace Pass

variable {job : Job} {registry : Registry} {p : Pass}

/-- No open loop binds a name with spaces. -/
theorem space_not_mem_scope (hp : Reached job registry p) :
    ∀ l ∈ p.loops, ∀ b ∈ l.scope, ' ' ∉ b.1 := by
  intro l hl b hb
  obtain ⟨header, d, i, ⟨p₀, opened, skipped, _, hopens, rfl⟩, _⟩ :=
    (Named.of_reached hp).turns l hl
  obtain @⟨f, outer, raw, unread, line, ranges, name, _, _, _, _, _, hparse, _, _, _, hopened⟩ :=
    hopens
  obtain ⟨hkey, hvalue, _⟩ := LoopHeader.space_not_mem hparse
  rw [hopened] at hb
  rcases Loop.of_mem_scope hb with ⟨hname, _⟩ | ⟨hname, _⟩
  · exact hkey b.1 hname
  · rw [← hname]
    exact hvalue

/-- **No loop changes what the name of a range means.** -/
theorem resolve_rangeName (hp : Reached job registry p) (r : Range) :
    p.aliases.resolve r.name = r.name := by
  -- What the open loops bind is all that the table has.
  have hfree : ∀ s ∈ p.loops.map Loop.scope, ∀ b ∈ s, b.1 ≠ r.name := by
    intro s hs b hb he
    obtain ⟨l, hl, rfl⟩ := List.mem_map.1 hs
    have hspace := space_not_mem_scope hp l hl b hb
    rw [he] at hspace
    exact hspace r.space_mem_name
  have hunbound : p.aliases.get? r.name = none := by
    rw [(Disciplined.of_reached hp).aliases_eq, ← List.append_nil (p.loops.map Loop.scope),
      AliasTable.get?_ofScopes_append hfree]
    rfl
  have hstem : r.name.takeWhile (· ≠ '.') = r.name := Text.stem_of_not_mem r.dot_not_mem_name
  unfold AliasTable.resolve
  rw [hstem, hunbound]

/-- The loop that a header over a range opens. -/
def rangeLoop (file : OpenFile) (outer : List OpenFile) (i : Text) (r : Range) : Loop :=
  ⟨outer.length, file.path.text, file.line, file.unread, none, i, r.name, r.dictionary.keys, 0⟩

/-- **A header over a range opens a loop over the range**, whatever loops are around it and whatever
    the user's dictionary holds. -/
theorem opens_range (hp : Reached job registry p) {f : OpenFile} {outer : List OpenFile}
    {raw line : Text} {unread : List Text} (hf : p.files = f :: outer)
    (hu : f.unread = raw :: unread) (ha : p.Active) (hc : raw.closes = false)
    (he : Expands job p (f.advance unread) raw line) {i a b : Text}
    (hd : Directive.parse line = .ok (.loop ⟨none, i, a ++ '.' :: '.' :: b⟩)) {min max : Int32}
    (hmin : Text.Spells a min.toInt) (hmax : Text.Spells b max.toInt) :
    Opens job p ⟨none, i, a ++ '.' :: '.' :: b⟩ (Range.mk min max).dictionary
      (rangeLoop (f.advance unread) outer i ⟨min, max⟩) := by
  have hg : LoopHeader.gather ⟨none, i, a ++ '.' :: '.' :: b⟩ p.ranges = .ok
      (p.ranges.set (Range.mk min max).name (.dictionary (Range.mk min max).dictionary.entries),
        (Range.mk min max).name) := by
    unfold LoopHeader.gather
    simp only [Range.parse_of_spells hmin hmax]
    rfl
  generalize Range.mk min max = r at hg ⊢
  have hvalue : Environment.value?
      ⟨p.aliases, p.ranges.set r.name (.dictionary r.dictionary.entries), job.dictionary⟩ r.name =
        some (.dictionary r.dictionary.entries) := by
    unfold Environment.value? Dictionary.set
    rw [Dictionary.value?_of_not_mem r.dot_not_mem_name, Entries.get?_set, if_pos rfl,
      Option.some_or]
  refine .intro hf hu ha hc he hd hg ?_ ?_ rfl
  · unfold Environment.resolve?
    simp only [resolve_rangeName hp r, hvalue, Option.isSome_some, Bool.or_true, if_true]
    rfl
  · exact Environment.dictionary?_eq_some_iff.2 hvalue

/-- **Under the name of a range stands its dictionary** as long as a loop over the range is open. -/
theorem Named.dictionary?_range (h : Named job registry p) {l : Loop} {r : Range} (hl : l ∈ p.loops)
    (hc : l.collection = r.name) : (p.environment job).dictionary? r.name = some r.dictionary := by
  have hsettled := h.settled l hl
  rw [hc, Text.stem_of_not_mem r.dot_not_mem_name] at hsettled
  rcases hsettled with hmem | hne
  · rw [Environment.dictionary?_eq_some_iff]
    unfold Environment.value? environment
    simp only
    rw [Dictionary.value?_of_not_mem r.dot_not_mem_name, h.ranges.get?_name hmem, Option.some_or]
  · exact absurd rfl (hne r)

/-- **The name of a loop over a range means the integer of the current turn.** -/
theorem expand_rangeValue (hp : Reached job registry p) {inner outer : List Loop} {l : Loop}
    {r : Range} {i : Text} {j : Nat} (hl : p.loops = inner ++ l :: outer)
    (hc : l.collection = r.name) (hk : l.keyName = none) (hv : l.valueName = i)
    (hkeys : l.keys = r.dictionary.keys.drop j) (hj : j < r.size) (hi : '.' ∉ i)
    (hfree : ∀ m ∈ inner, ∀ b ∈ m.scope, b.1 ≠ i) :
    (p.environment job).expand i = .ok (Text.ofInt (r.min.toInt + j)) := by
  obtain ⟨more, hmore⟩ := Range.drop_keys hj
  rw [hmore] at hkeys
  have halias : p.aliases.get? i = some (r.name ++ '.' :: Text.ofNat (j + 1)) := by
    have hbindings :
        l.bindings (Text.ofNat (j + 1)) = [(i, r.name ++ '.' :: Text.ofNat (j + 1))] := by
      rw [Loop.bindings, hk, hv, hc]
      rfl
    rw [get?_aliases hp hl hfree hkeys, hbindings]
    simp
  have hmem : l ∈ p.loops := by rw [hl]; simp
  have hdictionary := (Named.of_reached hp).dictionary?_range hmem hc
  have hdot : '.' ∉ Text.ofNat (j + 1) :=
    Text.not_mem_ofInt (by decide) (by decide) (Int.ofNat (j + 1))
  have hvalue := Environment.value?_key hdictionary hdot (Range.get?_dictionary hj)
  have hpath : Environment.isLiteral (r.name ++ '.' :: Text.ofNat (j + 1)) = false := by
    rw [Range.name_eq]
    rfl
  exact Environment.expand_value hi halias hpath hvalue

end Pass

/-- **Loops over ranges visit the integers of the range.**  In any state that a pass gets to (inside
    any loops, in any included file), a line `#for i in min..max` opens a loop, whatever the names
    of the loops around it and the user's dictionary are.  If the pass gets through the loop, the
    lines behind the header have been run `max - min + 1` times, each time from the first of them
    on; not at all, where `max < min`: then all lines are skipped.  Once `j` turns are ended, the
    token `i` is replaced by `min + j`, wherever no loop inside binds `i` anew. -/
theorem Preprocessor.range_loop_visits (pre : Preprocessor) {p : Pass}
    (hp : Pass.Reached pre.job pre.registry p) {f : OpenFile} {outer : List OpenFile}
    {raw line : Text} {unread : List Text} (hf : p.files = f :: outer)
    (hu : f.unread = raw :: unread) (ha : p.Active) (hc : raw.closes = false)
    (he : Pass.Expands pre.job p (f.advance unread) raw line) {i a b : Text}
    (hd : Directive.parse line = .ok (.loop ⟨none, i, a ++ '.' :: '.' :: b⟩)) {min max : Int32}
    (hmin : Text.Spells a min.toInt) (hmax : Text.Spells b max.toInt) (hi : '.' ∉ i) :
    ∃ q, Pass.step pre.job p = .next q ∧ Pass.BehindHeader (f.line + 1) unread q ∧
      ∀ n s, Pass.GetsThrough pre.job q n s →
        s.loops = p.loops ∧
        Pass.turns pre.job p.loops.length q n = (max.toInt - min.toInt + 1).toNat ∧
        (∀ k < n, ∀ r, Pass.after pre.job k (.next q) = .next r →
          (max.toInt < min.toInt ∧ ¬r.Active) ∨
            (min.toInt + Pass.turns pre.job p.loops.length q k ≤ max.toInt ∧
              ∃ inner l, r.loops = inner ++ l :: p.loops ∧
                ((∀ m ∈ inner, ∀ b ∈ m.scope, b.1 ≠ i) → (r.environment pre.job).expand i =
                  .ok (Text.ofInt (min.toInt + Pass.turns pre.job p.loops.length q k))))) ∧
        ∀ k, k + 1 < n → ∀ r r', Pass.after pre.job k (.next q) = .next r →
          Pass.endsTurn p.loops.length r = true → Pass.after pre.job (k + 1) (.next q) = .next r' →
          Pass.BehindHeader (f.line + 1) unread r' := by
  -- The range is a dictionary with one key for each integer, and what is known of loops over
  -- dictionaries applies to it.
  have hopens := Pass.opens_range hp hf hu ha hc he hd hmin hmax
  obtain ⟨q, file, outer', hq, hqf, hline, hunread, _, _, _, hl⟩ := hopens.exists_next
  have hsize : (Range.mk min max).dictionary.keys.length = (max.toInt - min.toInt + 1).toNat :=
    Range.length_keys ⟨min, max⟩
  refine ⟨q, hq, ⟨file, outer', hqf, hline, hunread⟩, fun n s hn => ?_⟩
  obtain ⟨hclosed, hturns⟩ := hn.closes hl
  refine ⟨hclosed, hturns.trans hsize, fun k hk r hr => ?_, hn.rewinds hl⟩
  have hreached : Pass.Reached pre.job pre.registry r := (hp.leads (.of_step hq)).leads ⟨k, hr⟩
  obtain ⟨inner, skipped, hloops, ⟨hnone, hzero⟩ | hlt⟩ := hn.inLoop hl k hk r hr
  · -- The range is empty, and only the innermost loop can be.
    have hnone : (Range.mk min max).dictionary.keys = [] := hnone
    rw [hnone, List.length_nil] at hsize
    refine .inl ⟨by omega, fun hactive => ?_⟩
    cases inner with
    | nil => exact hactive _ (by rw [hloops]; rfl) (by rw [hzero]; exact hnone)
    | cons m inner =>
      have hrunning := (Pass.Disciplined.of_reached hreached).running
      rw [hloops] at hrunning
      exact hrunning _ (List.mem_append_right _ List.mem_cons_self) (by rw [hzero]; exact hnone)
  · -- The loop stands at the key that its turns have come to.
    have hj : Pass.turns pre.job p.loops.length q k < (Range.mk min max).dictionary.keys.length :=
      hlt
    rw [Range.length_keys] at hj
    have hle : Pass.turns pre.job p.loops.length q k < (max.toInt - min.toInt + 1).toNat := hj
    refine .inr ⟨by omega, inner, _, hloops, fun hfree => ?_⟩
    exact Pass.expand_rangeValue hreached hloops rfl rfl rfl rfl hj hi hfree

/-- A loop over the two last integers of 32 bits, inside a loop over the same range with the same
    name, in another file; the user's dictionary has a key that looks like the range. -/
def Preprocessor.lastIntegers : Preprocessor where
  filename := ⟨"/main".toList⟩
  dictionary := ⟨[("(Range 2147483646 to 2147483647)".toList, .dictionary [("2".toList, .int 7)])]⟩
  config := {}
  source := (Memory.ofList
    [(⟨"/main".toList⟩,
      .text "#for i in 2147483646..2147483647\n#include \"/part\"\n#endfor\n".toList),
     (⟨"/part".toList⟩,
       .text "#for i in +2147483646..02147483647\n#\x7bi\x7d\n#endfor\n".toList)]).source
  registry := {}

/-- The inner loop has two turns, and `i` is the last integer in the second one. -/
theorem Preprocessor.range_loop_visits_lastIntegers :
    ∃ p q s r, Pass.Reached lastIntegers.job lastIntegers.registry p ∧ p.loops.length = 1 ∧
      p.files.length = 2 ∧ Pass.step lastIntegers.job p = .next q ∧
      Pass.GetsThrough lastIntegers.job q 4 s ∧
      Pass.turns lastIntegers.job p.loops.length q 4 = 2 ∧
      Pass.after lastIntegers.job 2 (.next q) = .next r ∧
      Pass.turns lastIntegers.job p.loops.length q 2 = 1 ∧
      (r.environment lastIntegers.job).expand "i".toList = .ok "2147483647".toList := by
  -- The states before the header, behind it, after two steps and after four, with what the theorem
  -- asks of them.
  obtain ⟨p, f, outer, raw, unread, q, s, r, hp, hloops, hfiles, hf, hu, ha, hc, he, hq, hn, hr,
      hturn, htwo⟩ :
      ∃ p f outer raw unread q s r, Pass.Reached lastIntegers.job lastIntegers.registry p ∧
        p.loops.length = 1 ∧ p.files.length = 2 ∧ p.files = f :: outer ∧
        f.unread = raw :: unread ∧ p.Active ∧ raw.closes = false ∧
        Pass.Expands lastIntegers.job p (f.advance unread) raw
          "#for i in +2147483646..02147483647".toList ∧
        Pass.step lastIntegers.job p = .next q ∧ Pass.GetsThrough lastIntegers.job q 4 s ∧
        Pass.after lastIntegers.job 2 (.next q) = .next r ∧
        Pass.turns lastIntegers.job p.loops.length q 2 = 1 ∧ r.loops.length = 2 := by
    refine ⟨_, _, _, _, _, _, _, _, ⟨2, rfl⟩, rfl, rfl, rfl, rfl, ?_, rfl, rfl, rfl, ⟨rfl, ?_, ?_⟩,
      rfl, rfl, rfl⟩
    · intro l hl
      cases hl
      exact List.cons_ne_nil _ _
    · exact Pass.le_length_of_staysOpen rfl
    · exact Nat.lt_succ_self 1
  have hmin : Text.Spells "+2147483646".toList (2147483646 : Int32).toInt :=
    Text.int32?_eq_some_iff.1 rfl
  have hmax : Text.Spells "02147483647".toList (2147483647 : Int32).toInt :=
    Text.int32?_eq_some_iff.1 rfl
  obtain ⟨q', hq', _, hvisits⟩ :=
    range_loop_visits lastIntegers hp hf hu ha hc he rfl hmin hmax (by decide)
  rw [hq] at hq'
  cases hq'
  obtain ⟨_, hturns, hvalues, _⟩ := hvisits 4 s hn
  refine ⟨p, q, s, r, hp, hloops, hfiles, hq, hn, hturns, hr, hturn, ?_⟩
  rcases hvalues 2 (by decide) r hr with ⟨hempty, _⟩ | ⟨_, inner, l, hl, hvalue⟩
  · exact absurd hempty (by decide)
  · -- Two loops are open then, the outer one and this one, so none is inside.
    have hinner : inner = [] := by
      rw [hl, List.length_append, List.length_cons, hloops] at htwo
      exact List.eq_nil_of_length_eq_zero (by omega)
    rw [hturn] at hvalue
    exact hvalue (by rw [hinner]; nofun)

end ShaderWeave
