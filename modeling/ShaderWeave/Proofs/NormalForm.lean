/-
  Normal forms of paths.

  A path in normal form says nothing but what the path names: names only, below the root or not.
  Here are the laws that make it a form to compare files by.

    * A path's normal form is its own normal form, and rooted as the path is (`normalize_normalize`,
      `isRooted_normalize`); paths with the same components have the same normal form
      (`normalize_of_same`).
    * It does not matter whether a directory is brought into normal form before or after something
      is seen from it (`normalize_join`).  The pieces of a joined path are the pieces of both
      (`steps_join`), and walking them is walking the first and then, from the names reached, the
      second.
    * It is the spelling that a walk ends at (`normalize_eq_foldl_descend`).  `descend` goes on by
      one component, and does this on spellings: a name is joined to the directory, and `..` leads
      to the parent, for which the spelling so far is taken apart into components again.  **At each
      step the spelling is that of the names reached** (`descend_ofNames`), so nothing is lost
      between text and components.
-/
import ShaderWeave.Proofs.Canonical

namespace ShaderWeave.Path

/-! ## Roots

  What a path leads to is whether it is rooted and a list of names.  Normalizing keeps both, so
  doing it twice is doing it once. -/

/-- Whether a path that is made of names is rooted is what it was made with. -/
theorem isRooted_ofNames (rooted : Bool) {names : List Text} (h : ∀ n ∈ names, Proper n) :
    (ofNames rooted names).isRooted = rooted := by
  cases rooted with
  | true => rfl
  | false => exact isRooted_spell h

/-- The normal form is rooted as the path is. -/
theorem isRooted_normalize (p : Path) : p.normalize.isRooted = p.isRooted :=
  isRooted_ofNames _ fun _ => proper_of_mem_names

/-- Walking names takes them up one by one. -/
theorem foldl_walk_names (names reached : List Text) :
    (names.map Component.name).foldl walk reached = names.reverse ++ reached := by
  induction names generalizing reached with
  | nil => rfl
  | cons n names ih =>
    rw [List.map_cons, List.foldl_cons, ih, List.reverse_cons, List.append_assoc]
    rfl

/-- The normal form has the names of the path: walking its components takes them up again. -/
theorem names_normalize (p : Path) : p.normalize.names = p.names := by
  have hwalk :
      p.normalize.components.foldl walk [] = (p.names.map Component.name).foldl walk [] := by
    rw [components_normalize, List.foldl_append]
    split <;> rfl
  rw [names, hwalk, foldl_walk_names, List.append_nil, List.reverse_reverse]

/-- A path in normal form is its own normal form. -/
theorem normalize_normalize (p : Path) : p.normalize.normalize = p.normalize := by
  rw [normalize, isRooted_normalize, names_normalize]
  rfl

/-- Something rooted is seen as it is from anywhere. -/
theorem join_of_isRooted {p : Path} (h : p.isRooted = true) (dir : Path) : dir.join p = p :=
  if_pos h

/-- What is seen from a rooted directory is rooted. -/
theorem isRooted_join {dir : Path} (h : dir.isRooted = true) (p : Path) :
    (dir.join p).isRooted = true := by
  obtain ⟨t⟩ := dir
  cases t with
  | nil => cases h
  | cons c t =>
    unfold join
    split
    · next hp => exact hp
    · split
      · exact h
      · exact h

/-- A path has the root in front of its components if it is rooted, and nowhere else. -/
theorem components_eq (p : Path) :
    ∃ rest, p.components = (if p.isRooted then [.root] else []) ++ rest ∧ .root ∉ rest := by
  -- No piece between separators is read as the root.
  have hsegments : ∀ pieces : List Text, .root ∉ pieces.filterMap Component.ofSegment? := by
    intro pieces hroot
    obtain ⟨s, _, hs⟩ := List.mem_filterMap.1 hroot
    unfold Component.ofSegment? at hs
    split at hs
    · cases hs
    · split at hs <;> cases hs
  unfold components
  cases p.isRooted with
  | true => exact ⟨_, rfl, hsegments _⟩
  | false =>
    rw [if_neg Bool.false_ne_true]
    split
    · exact ⟨_, rfl, fun hroot => hsegments _ ((List.mem_cons.1 hroot).resolve_left nofun)⟩
    · exact ⟨_, rfl, hsegments _⟩

/-- So components tell whether a path is rooted. -/
theorem isRooted_iff {p : Path} : p.isRooted = true ↔ .root ∈ p.components := by
  obtain ⟨rest, hcomponents, hroot⟩ := p.components_eq
  rw [hcomponents]
  cases p.isRooted with
  | true => simp
  | false => simpa using hroot

/-- **Paths with the same components have the same normal form.** -/
theorem normalize_of_same {p q : Path} (h : p.same q = true) : p.normalize = q.normalize := by
  have hcomponents := same_iff.1 h
  have hrooted : p.isRooted = q.isRooted := by
    rw [Bool.eq_iff_iff, isRooted_iff, isRooted_iff, hcomponents]
  unfold normalize names
  rw [hrooted, hcomponents]

/-! ## Joined paths

  Joining puts one spelling behind the other with a separator between, unless the second is rooted;
  so the names of the joined path are those of the second, walked from the first. -/

/-- The pieces of a path that a walk takes notice of. -/
def steps (p : Path) : List Component := (segments p.text).filterMap Component.ofSegment?

/-- Neither the root nor a dot in front leads anywhere. -/
theorem foldl_walk_components (p : Path) (reached : List Text) :
    p.components.foldl walk reached = p.steps.foldl walk reached := by
  unfold components steps
  split
  · rfl
  · split
    · next rest hs =>
      rw [hs]
      rfl
    · rfl

/-- A separator between two texts divides their pieces. -/
theorem segments_append (s t : Text) : segments (s ++ '/' :: t) = segments s ++ segments t :=
  Text.splitOn_append '/' s t

/-- **The steps of a joined path are those of both paths.** -/
theorem steps_join (dir : Path) {p : Path} (h : p.isRooted = false) :
    (dir.join p).steps = dir.steps ++ p.steps := by
  unfold steps join
  rw [h, if_neg Bool.false_ne_true]
  split
  · next hend =>
    rcases hend with hnil | hlast
    · rw [hnil]
      rfl
    · -- The separator at the end of the directory divides the two.
      obtain ⟨t, ht⟩ := List.getLast?_eq_some_iff.1 hlast
      have hjoined : dir.text ++ p.text = t ++ '/' :: p.text := by
        rw [ht, List.append_assoc]
        rfl
      rw [hjoined, ht, segments_append, segments_append, List.filterMap_append,
        List.filterMap_append]
      show _ = _ ++ [] ++ _
      rw [List.append_nil]
  · rw [segments_append, List.filterMap_append]

/-- The names of a joined path: the second is walked from the names of the first. -/
theorem names_join (dir : Path) {p : Path} (h : p.isRooted = false) :
    (dir.join p).names = (p.steps.foldl walk dir.names.reverse).reverse := by
  have hdir : dir.steps.foldl walk [] = dir.names.reverse := by
    rw [names, foldl_walk_components, List.reverse_reverse]
  rw [names, foldl_walk_components, steps_join dir h, List.foldl_append, hdir]

/-- What is not rooted itself is rooted as the directory is that it is seen from. -/
theorem isRooted_join_of_not {dir p : Path} (h : p.isRooted = false) :
    (dir.join p).isRooted = dir.isRooted := by
  unfold join
  rw [h, if_neg Bool.false_ne_true]
  obtain ⟨t⟩ := dir
  cases t with
  | nil => exact h
  | cons c t => split <;> rfl

/-- **A directory is brought into normal form before or after something is seen from it**, since the
    walk along the second path starts at the names that the first one reaches, and these are the
    names of its normal form. -/
theorem normalize_join (dir p : Path) :
    (dir.join p).normalize = (dir.normalize.join p).normalize := by
  cases h : p.isRooted with
  | true => rw [join_of_isRooted h, join_of_isRooted h]
  | false =>
    unfold normalize
    rw [isRooted_join_of_not h, isRooted_join_of_not h, names_join dir h, names_join _ h]
    rw [show (ofNames dir.isRooted dir.names) = dir.normalize from rfl, isRooted_normalize,
      names_normalize]

/-! ## Walking on spellings

  The names can be found by walking on a list, or on spellings, pushing a name with a separator and
  dropping the last one again.  Step by step the spelling is that of the names found so far. -/

/-- The directory that is reached from `dir` by a component: a name is looked for in it, and `..` is
    its parent, if it has one. -/
def descend (dir : Path) : Component → Path
  | .root => rootDir
  | .here => dir
  | .up => dir.parent?.getD dir
  | .name n => dir.join ⟨n⟩

/-! One name is spelled as it is, and each further one behind a separator. -/

theorem spell_singleton (n : Text) : spell [n] = n := by simp [spell, List.intercalate]

theorem spell_concat {names : List Text} (h : names ≠ []) (n : Text) :
    spell (names ++ [n]) = spell names ++ '/' :: n := by
  induction names with
  | nil => exact absurd rfl h
  | cons m names ih =>
    unfold spell at ih ⊢
    cases names with
    | nil => simp [List.intercalate]
    | cons k names =>
      have hih := ih (List.cons_ne_nil _ _)
      rw [List.cons_append, List.cons_append, List.intercalate_cons_cons,
        List.intercalate_cons_cons, ← List.cons_append, hih, ← List.append_assoc]

/-- The same of a path that is made of names, rooted or not. -/
theorem text_ofNames_concat (rooted : Bool) {names : List Text} (h : names ≠ []) (n : Text) :
    (ofNames rooted (names ++ [n])).text = (ofNames rooted names).text ++ '/' :: n := by
  unfold ofNames
  cases rooted with
  | true =>
    rw [spell_concat h]
    rfl
  | false => exact spell_concat h n

/-- Names are spelled without a separator at the end. -/
theorem getLast?_ofNames (rooted : Bool) {names : List Text} (h : ∀ n ∈ names, Proper n)
    (hne : names ≠ []) : ∃ c, (ofNames rooted names).text.getLast? = some c ∧ c ≠ '/' := by
  obtain ⟨before, n, rfl⟩ := (List.eq_nil_or_concat' names).resolve_left hne
  have hn : Proper n := h n (by simp)
  -- The spelling ends in the last name, and this ends in no separator.
  have hend : ∃ t, (ofNames rooted (before ++ [n])).text = t ++ n := by
    cases before with
    | nil =>
      rw [List.nil_append, ofNames, spell_singleton]
      cases rooted with
      | true => exact ⟨['/'], rfl⟩
      | false => exact ⟨[], rfl⟩
    | cons m before =>
      rw [text_ofNames_concat rooted (List.cons_ne_nil m before) n]
      exact ⟨(ofNames rooted (m :: before)).text ++ ['/'], by rw [List.append_assoc]; rfl⟩
  obtain ⟨t, ht⟩ := hend
  have hlast : n.getLast? = some (n.getLast hn.ne_nil) := List.getLast?_eq_some_getLast hn.ne_nil
  refine ⟨n.getLast hn.ne_nil, ?_, fun he => hn.no_separator (he ▸ List.getLast_mem hn.ne_nil)⟩
  rw [ht, List.getLast?_append, hlast, Option.some_or]

/-- A name has no separator in front. -/
theorem Proper.isRooted_eq_false {n : Text} (h : Proper n) : isRooted ⟨n⟩ = false := by
  have hspell := isRooted_spell (List.forall_mem_singleton.2 h)
  rwa [spell_singleton] at hspell

/-- A name is joined to the names before it. -/
theorem join_ofNames (rooted : Bool) {names : List Text} (h : ∀ n ∈ names, Proper n) {n : Text}
    (hn : Proper n) : (ofNames rooted names).join ⟨n⟩ = ofNames rooted (names ++ [n]) := by
  unfold join
  rw [hn.isRooted_eq_false, if_neg Bool.false_ne_true]
  by_cases hne : names = []
  · subst hne
    rw [List.nil_append, ofNames, ofNames, spell_singleton]
    cases rooted <;> rfl
  · obtain ⟨c, hc, hsep⟩ := getLast?_ofNames rooted h hne
    have hfilled : (ofNames rooted names).text ≠ [] := by
      intro he
      rw [he] at hc
      cases hc
    have hopen : (ofNames rooted names).text.getLast? ≠ some '/' := by
      rw [hc]
      exact fun he => hsep (Option.some.inj he)
    -- The directory is some text without a separator at its end, so one is put between.
    rw [if_neg (not_or.2 ⟨hfilled, hopen⟩), ← text_ofNames_concat rooted hne]

/-- Names are read back from the path that they make. -/
theorem map_spelling_ofNames (rooted : Bool) {names : List Text} (h : ∀ n ∈ names, Proper n) :
    ((ofNames rooted names).components.filter (· ≠ .root)).map Component.spelling = names := by
  have hnames : (names.map Component.name).filter (· ≠ .root) = names.map .name := by
    refine List.filter_eq_self.2 fun c hc => ?_
    obtain ⟨n, _, rfl⟩ := List.mem_map.1 hc
    rfl
  have hroot : (if rooted then [Component.root] else []).filter (· ≠ .root) = [] := by
    cases rooted <;> rfl
  rw [components_ofNames rooted h, List.filter_append, hroot, hnames, List.nil_append, List.map_map]
  exact List.map_id names

/-- The parent of some names is without the last of them. -/
theorem parent?_ofNames (rooted : Bool) {names : List Text} (h : ∀ n ∈ names, Proper n) :
    (ofNames rooted names).parent?.getD (ofNames rooted names) = ofNames rooted names.dropLast := by
  rcases List.eq_nil_or_concat' names with rfl | ⟨before, n, rfl⟩
  · cases rooted <;> rfl
  · have hbefore : ∀ m ∈ before, Proper m := fun m hm => h m (List.mem_append_left _ hm)
    have hlast : (ofNames rooted (before ++ [n])).components =
        (ofNames rooted before).components ++ [.name n] := by
      rw [components_ofNames rooted h, components_ofNames rooted hbefore, List.map_append,
        List.append_assoc]
      rfl
    rw [parent?, hlast, isRooted_ofNames rooted h, List.reverse_append, List.dropLast_concat]
    show ofNames rooted ((List.filter _ (List.reverse (List.reverse _))).map _) = _
    rw [List.reverse_reverse, map_spelling_ofNames rooted hbefore]

/-- **A step on the spelling of names is a step on the names.**  Above the first name there is
    nowhere to go, for a spelling (it has no parent) and for the names. -/
theorem descend_ofNames (rooted : Bool) {reached : List Text} (h : ∀ n ∈ reached, Proper n)
    {c : Component} (hc : ∀ n, c = .name n → Proper n) (hroot : c ≠ .root) :
    (ofNames rooted reached.reverse).descend c = ofNames rooted (walk reached c).reverse := by
  have hproper : ∀ n ∈ reached.reverse, Proper n := fun n hn => h n (List.mem_reverse.1 hn)
  cases c with
  | root => exact absurd rfl hroot
  | here => rfl
  | up =>
    rw [descend, parent?_ofNames rooted hproper, walk]
    cases reached with
    | nil => rfl
    | cons n reached =>
      rw [List.reverse_cons, List.dropLast_concat]
      rfl
  | name n => rw [descend, join_ofNames rooted hproper (hc n rfl), walk, List.reverse_cons]

/-- What is walked on spellings are the names that are walked: at each step the names reached are
    proper, which keeps the spelling readable. -/
theorem foldl_descend (rooted : Bool) {components : List Component}
    (hc : ∀ n, .name n ∈ components → Proper n) (hroot : .root ∉ components) {reached : List Text}
    (h : ∀ n ∈ reached, Proper n) :
    components.foldl descend (ofNames rooted reached.reverse) =
      ofNames rooted (components.foldl walk reached).reverse := by
  induction components generalizing reached with
  | nil => rfl
  | cons c components ih =>
    obtain ⟨hfirst, hroot⟩ := not_or.1 (mt List.mem_cons.2 hroot)
    have hn : ∀ n, c = .name n → Proper n := fun n he => hc n (he ▸ List.mem_cons_self)
    have hwalk : ∀ n ∈ walk reached c, Proper n := by
      intro n hmem
      have hstep : n ∈ [c].foldl walk reached := hmem
      rcases mem_foldl_walk hstep with hmem | hmem
      · exact h n hmem
      · exact hn n (List.mem_singleton.1 hmem).symm
    rw [List.foldl_cons, List.foldl_cons, descend_ofNames rooted h hn (fun he => hfirst he.symm)]
    exact ih (fun n hmem => hc n (List.mem_cons_of_mem _ hmem)) hroot hwalk

/-- From the root, or from where a path that is not rooted starts, its components lead to its normal
    form. -/
theorem normalize_eq_foldl_descend (p : Path) : p.normalize = p.components.foldl descend ⟨[]⟩ := by
  obtain ⟨rest, hcomponents, hroot⟩ := p.components_eq
  have hproper : ∀ n, .name n ∈ rest → Proper n := fun n hn =>
    proper_of_mem_components (hcomponents ▸ List.mem_append_right _ hn)
  have hwalk : p.names = (rest.foldl walk []).reverse := by
    rw [names, hcomponents, List.foldl_append]
    split <;> rfl
  have hstart : (if p.isRooted then [Component.root] else []).foldl descend ⟨[]⟩ =
      ofNames p.isRooted [] := by
    cases p.isRooted <;> rfl
  have hnone : ∀ n ∈ ([] : List Text), Proper n := nofun
  rw [hcomponents, List.foldl_append, hstart, normalize, hwalk]
  exact (foldl_descend p.isRooted hproper hroot hnone).symm

/-- **The normal form of a path is canonical, and agrees with joining.**  It has neither `.` nor
    `..` among its components, is rooted as the path is, and is its own normal form; two paths with
    the same components have one normal form.  What is seen from a directory has the normal form of
    what is seen from the directory's normal form, and something rooted is seen as it is.  The
    normal form is where a walk along the components ends that starts with nothing, and for a rooted
    path where one ends that starts at the root, `..` leading to the parent and from the root
    nowhere. -/
theorem normalize_canonical (a b : Path) :
    (.here ∉ a.normalize.components ∧ .up ∉ a.normalize.components) ∧
    a.normalize.isRooted = a.isRooted ∧
    a.normalize.normalize = a.normalize ∧
    (a.same b = true → a.normalize = b.normalize) ∧
    ((a.join b).normalize = (a.normalize.join b).normalize ∧ (b.isRooted = true → a.join b = b)) ∧
    a.normalize = a.components.foldl descend ⟨[]⟩ ∧
    (a.isRooted = true → ∃ rest, a.components = .root :: rest ∧
      a.normalize = rest.foldl descend rootDir) ∧
    rootDir.descend .up = rootDir := by
  -- The normal form is made of the root and of names.
  have hnames : ∀ c ∈ a.normalize.components, c = .root ∨ ∃ n, c = .name n := by
    intro c hc
    rw [components_normalize] at hc
    rcases List.mem_append.1 hc with hc | hc
    · split at hc
      · exact .inl (List.mem_singleton.1 hc)
      · cases hc
    · obtain ⟨n, _, rfl⟩ := List.mem_map.1 hc
      exact .inr ⟨n, rfl⟩
  -- For a rooted path the first component of the walk is the root itself.
  have hrooted : a.isRooted = true →
      ∃ rest, a.components = .root :: rest ∧ a.normalize = rest.foldl descend rootDir := by
    intro h
    obtain ⟨rest, hcomponents, _⟩ := a.components_eq
    rw [h, if_pos rfl] at hcomponents
    refine ⟨rest, hcomponents, ?_⟩
    rw [normalize_eq_foldl_descend, hcomponents]
    rfl
  refine ⟨⟨fun h => ?_, fun h => ?_⟩, isRooted_normalize a, normalize_normalize a,
    normalize_of_same, ⟨normalize_join a b, fun h => join_of_isRooted h a⟩,
    normalize_eq_foldl_descend a, hrooted, rfl⟩
  · rcases hnames _ h with h | ⟨n, h⟩ <;> cases h
  · rcases hnames _ h with h | ⟨n, h⟩ <;> cases h

/-- Two spellings of one file, with steps up above the root and back. -/
theorem normalize_canonical_spellings :
    same ⟨"//lib/../../x/./y/".toList⟩ ⟨"/lib//../../x/y".toList⟩ = true ∧
    normalize ⟨"//lib/../../x/./y/".toList⟩ = normalize ⟨"/lib//../../x/y".toList⟩ ∧
    join ⟨"//lib/../../x/./y/".toList⟩ ⟨"/lib//../../x/y".toList⟩ = ⟨"/lib//../../x/y".toList⟩ ∧
    ∃ rest, components ⟨"//lib/../../x/./y/".toList⟩ = .root :: rest ∧
      normalize ⟨"//lib/../../x/./y/".toList⟩ = rest.foldl descend rootDir := by
  obtain ⟨_, _, _, hsame, ⟨_, hjoin⟩, _, hwalk, _⟩ :=
    normalize_canonical ⟨"//lib/../../x/./y/".toList⟩ ⟨"/lib//../../x/y".toList⟩
  exact ⟨by decide, hsame (by decide), hjoin (by decide), hwalk (by decide)⟩

end ShaderWeave.Path
