/-
  One spelling for every file.

  Two paths may be the `same` and yet be spelled differently; what is entered and registered are
  paths in normal form, and of these there is only one spelling for what a path names: paths in
  normal form that are the same are equal (`IsNormal.eq_of_same`).

  The reason is that the components of a path made of proper names are these names again
  (`components_ofNames`), and that the names a path leads to are proper: pieces between separators,
  neither empty nor made of dots.
-/
import Mathlib.Data.List.Basic
import ShaderWeave.Source

namespace ShaderWeave

/-! ## Pieces between separators

  How a text is split on a character is said piece by piece: a separator starts a new piece, any
  other character goes into the first one.  With these equations an induction over the text never
  has to look into the library's definition. -/

namespace Text

variable {c d : Char}

/-- A separator ends an empty piece. -/
theorem splitOn_cons_self (c : Char) (t : Text) : (c :: t).splitOn c = [] :: t.splitOn c := by
  rw [List.splitOn_eq_splitOnP, List.splitOnP_cons_eq_if_modifyHead, if_pos (beq_self_eq_true c)]
  rfl

/-- Any other character belongs to the first piece. -/
theorem splitOn_cons_of_ne (h : d ≠ c) (t : Text) :
    (d :: t).splitOn c = (t.splitOn c).modifyHead (d :: ·) := by
  rw [List.splitOn_eq_splitOnP, List.splitOnP_cons_eq_if_modifyHead, if_neg (by simpa using h)]
  rfl

/-- Texts on both sides of a separator are split on their own. -/
theorem splitOn_append (c : Char) (a b : Text) :
    (a ++ c :: b).splitOn c = a.splitOn c ++ b.splitOn c :=
  List.splitOnP_append_cons a b (beq_self_eq_true c)

/-- No piece has the character in it that the text was split on. -/
theorem not_mem_of_mem_splitOn {t piece : Text} (h : piece ∈ t.splitOn c) : c ∉ piece := by
  induction t generalizing piece with
  | nil =>
    rw [List.splitOn_nil, List.mem_singleton] at h
    rw [h]
    exact List.not_mem_nil
  | cons d rest ih =>
    by_cases hd : d = c
    · rw [hd, splitOn_cons_self] at h
      rcases List.mem_cons.1 h with rfl | h
      · exact List.not_mem_nil
      · exact ih h
    · rw [splitOn_cons_of_ne hd] at h
      obtain ⟨first, more, hs⟩ := List.exists_cons_of_ne_nil (List.splitOn_ne_nil c rest)
      rw [hs, List.modifyHead_cons] at h
      rw [hs] at ih
      rcases List.mem_cons.1 h with rfl | h
      · exact fun e => (List.mem_cons.1 e).elim (fun e => hd e.symm) (ih List.mem_cons_self)
      · exact ih (List.mem_cons_of_mem _ h)

end Text

namespace Path

/-- A name as it may stand between separators: not empty, and not made of one or two dots. -/
structure Proper (n : Text) : Prop where
  ne_nil : n ≠ []
  ne_here : n ≠ ['.']
  ne_up : n ≠ ['.', '.']
  no_separator : '/' ∉ n

/-- A path in normal form. -/
def IsNormal (p : Path) : Prop := ∃ q : Path, p = q.normalize

/-- A path is made absolute in normal form. -/
theorem isNormal_absolute (p cwd : Path) : (p.absolute cwd).IsNormal := ⟨_, rfl⟩

/-! ## Components of names

  This direction goes from names to a spelling and back: joined with separators and split again,
  proper names come back, and none of them is mistaken for a root, a dot or a step up. -/

/-- The pieces of a rooted spelling: an empty one before the root. -/
theorem segments_slash (t : Text) : segments ('/' :: t) = [] :: segments t :=
  Text.splitOn_cons_self '/' t

/-- A proper name is a component of its own. -/
theorem Proper.ofSegment?_eq {n : Text} (h : Proper n) :
    Component.ofSegment? n = some (.name n) := by
  have hplain : ¬(n = [] ∨ n = ['.']) := fun e => e.elim h.ne_nil h.ne_here
  rw [Component.ofSegment?, if_neg hplain, if_neg h.ne_up]

/-- Proper names, each as a component. -/
theorem filterMap_ofSegment? {names : List Text} (h : ∀ n ∈ names, Proper n) :
    names.filterMap Component.ofSegment? = names.map .name := by
  induction names with
  | nil => rfl
  | cons n names ih =>
    have hn := (h n List.mem_cons_self).ofSegment?_eq
    rw [List.filterMap_cons_some hn, List.map_cons, ih fun m hm => h m (List.mem_cons_of_mem _ hm)]

/-- The pieces of names that were joined are these names. -/
theorem segments_spell {names : List Text} (hne : names ≠ []) (h : ∀ n ∈ names, Proper n) :
    segments (spell names) = names :=
  List.splitOn_intercalate '/' (fun n hn => (h n hn).no_separator) hne

/-- Joined and split again, proper names give their components. -/
theorem filterMap_segments_spell {names : List Text} (h : ∀ n ∈ names, Proper n) :
    (segments (spell names)).filterMap Component.ofSegment? = names.map .name := by
  cases names with
  | nil => rfl
  | cons n names => rw [segments_spell (List.cons_ne_nil _ _) h, filterMap_ofSegment? h]

/-- Joined names do not start with a separator. -/
theorem isRooted_spell {names : List Text} (h : ∀ n ∈ names, Proper n) :
    isRooted ⟨spell names⟩ = false := by
  cases names with
  | nil => rfl
  | cons n names =>
    have hn := h n List.mem_cons_self
    obtain ⟨c, rest, rfl⟩ := List.exists_cons_of_ne_nil hn.ne_nil
    have hc : c ≠ '/' := fun e => hn.no_separator (by simp [e])
    have hhead : (spell ((c :: rest) :: names)).head? = some c := by
      cases names with
      | nil => simp [spell, List.intercalate]
      | cons m names => simp [spell, List.intercalate]
    rw [isRooted, hhead]
    simpa using hc

/-- **The components of a path made of names are these names.** -/
theorem components_ofNames (rooted : Bool) {names : List Text} (h : ∀ n ∈ names, Proper n) :
    (ofNames rooted names).components = (if rooted then [.root] else []) ++ names.map .name := by
  cases rooted with
  | true =>
    show Component.root :: (segments ('/' :: spell names)).filterMap Component.ofSegment? = _
    rw [segments_slash, List.filterMap_cons_none (by rfl), filterMap_segments_spell h]
    rfl
  | false =>
    -- The first name is no dot, so no component stands for a leading dot.
    have hfirst : ∀ rest, segments (spell names) ≠ ['.'] :: rest := by
      intro rest he
      cases names with
      | nil => cases he
      | cons n names =>
        rw [segments_spell (List.cons_ne_nil _ _) h] at he
        exact (h n List.mem_cons_self).ne_here (List.cons.inj he).1
    show components ⟨spell names⟩ = _
    rw [components, isRooted_spell h, if_neg Bool.false_ne_true]
    split
    · next rest he => exact absurd he (hfirst rest)
    · rw [filterMap_segments_spell h]
      rfl

/-! ## The names a path leads to

  And this one from a spelling to names: what is left of a path after its steps up are a part of its
  components, and a component that is a name is proper, since it stood between two separators. -/

/-- A name among the components of a path is proper. -/
theorem proper_of_mem_components {p : Path} {n : Text} (h : .name n ∈ p.components) : Proper n := by
  -- A segment that is a name is neither empty nor a dot nor two dots, and has no slash in it.
  have hsegment :
      ∀ {s}, s ∈ segments p.text → Component.ofSegment? s = some (.name n) → Proper n := by
    intro s hs he
    rw [Component.ofSegment?] at he
    split at he
    · cases he
    · next hplain =>
      split at he
      · cases he
      · next hup =>
        cases he
        exact ⟨fun e => hplain (.inl e), fun e => hplain (.inr e), hup,
          Text.not_mem_of_mem_splitOn hs⟩
  rw [components] at h
  split at h
  · rcases List.mem_cons.1 h with h | h
    · cases h
    · obtain ⟨s, hs, he⟩ := List.mem_filterMap.1 h
      exact hsegment hs he
  · split at h
    · next rest hsplit =>
      rcases List.mem_cons.1 h with h | h
      · cases h
      · obtain ⟨s, hs, he⟩ := List.mem_filterMap.1 h
        exact hsegment (hsplit ▸ List.mem_cons_of_mem _ hs) he
    · obtain ⟨s, hs, he⟩ := List.mem_filterMap.1 h
      exact hsegment hs he

/-- Walking reaches names that were there before or are components. -/
theorem mem_foldl_walk {components : List Component} {reached : List Text} {n : Text}
    (h : n ∈ components.foldl walk reached) : n ∈ reached ∨ .name n ∈ components := by
  induction components generalizing reached with
  | nil => exact .inl h
  | cons c components ih =>
    rcases ih h with h | h
    · cases c with
      | name m =>
        rcases List.mem_cons.1 h with rfl | h
        · exact .inr List.mem_cons_self
        · exact .inl h
      | up => exact .inl (List.mem_of_mem_tail h)
      | root => exact .inl h
      | here => exact .inl h
    · exact .inr (List.mem_cons_of_mem _ h)

/-- So is every name that the path leads to. -/
theorem proper_of_mem_names {p : Path} {n : Text} (h : n ∈ p.names) : Proper n := by
  rcases mem_foldl_walk (List.mem_reverse.1 h) with h | h
  · cases h
  · exact proper_of_mem_components h

/-- The components of a path in normal form. -/
theorem components_normalize (p : Path) :
    p.normalize.components = (if p.isRooted then [.root] else []) ++ p.names.map .name :=
  components_ofNames _ fun _ => proper_of_mem_names

/-- **Paths in normal form that are the same are equal.** -/
theorem IsNormal.eq_of_same {p q : Path} (hp : p.IsNormal) (hq : q.IsNormal) (h : p.same q = true) :
    p = q := by
  obtain ⟨a, rfl⟩ := hp
  obtain ⟨b, rfl⟩ := hq
  have names_inj : ∀ {m n : List Text}, m.map Component.name = n.map Component.name → m = n :=
    fun he => List.map_injective_iff.2 (fun _ _ => Component.name.inj) he
  have root_ne : ∀ {n : List Text} {cs : List Component},
      Component.root :: cs ≠ n.map Component.name := by
    intro n cs he
    cases n <;> cases he
  rw [same_iff, components_normalize, components_normalize] at h
  -- Whether the path is rooted is seen from the first component, and the rest are its names.
  unfold normalize
  cases ha : a.isRooted with
  | true =>
    cases hb : b.isRooted with
    | true =>
      rw [ha, hb] at h
      rw [names_inj (List.append_cancel_left h)]
    | false =>
      rw [ha, hb] at h
      exact absurd h root_ne
  | false =>
    cases hb : b.isRooted with
    | true =>
      rw [ha, hb] at h
      exact absurd h.symm root_ne
    | false =>
      rw [ha, hb] at h
      rw [names_inj (List.append_cancel_left h)]

end Path
end ShaderWeave
