/-
  Testing files and reading them.

  An include is found by testing spellings, and what was found is read under its absolute path.  To
  a source these are two questions, one about a spelling and one about its table, and a pass relies
  on the answers fitting together:

    * `Source.Agrees` — an absolute path that passes the test for files is a path of the table, so
      that what was found can be read, or is there as a file that cannot.  Files in memory agree,
      whether relative spellings are seen from the root directory or tested as they are; so does a
      directory tree, because walking an absolute path, which has no `.` and no `..`, is walking its
      names one by one (`Tree.follow_names`).
    * `Source.SeesFromRoot` — every spelling is tested by its absolute path, also a relative one.
      This is more than agreeing, and it is what decides where includes lead.  Files in memory are a
      source of this kind (`Memory.IsNormal.seesFromRoot`); the same files, tested as they are
      spelled, are not: by a relative spelling none of them is found
      (`Memory.isFile_eq_false_of_relative`).
-/
import ShaderWeave.Proofs.Aliases
import ShaderWeave.Proofs.NormalForm
import ShaderWeave.Source.Memory
import ShaderWeave.Source.Tree

namespace ShaderWeave

/-! ## Absolute paths

  An absolute path has been joined to a rooted directory and normalized, and neither of these does
  anything when done again. -/

namespace Path

/-- What is seen from the root directory is rooted. -/
theorem isRooted_absolute (p : Path) : (p.absolute rootDir).isRooted = true := by
  rw [absolute, isRooted_normalize, isRooted_join rfl]

/-- A rooted path is absolute up to its normal form. -/
theorem absolute_of_isRooted {p : Path} (h : p.isRooted = true) :
    p.absolute rootDir = p.normalize := by
  rw [absolute, join_of_isRooted h]

/-- **A path that is absolute stays as it is.** -/
theorem absolute_absolute (p : Path) :
    (p.absolute rootDir).absolute rootDir = p.absolute rootDir := by
  rw [absolute_of_isRooted (isRooted_absolute p), absolute, normalize_normalize]

/-- Seen from a rooted directory, every path is the path of some proper names below the root. -/
theorem exists_absolute_eq_ofNames {cwd : Path} (h : cwd.isRooted = true) (p : Path) :
    ∃ names, (∀ n ∈ names, Proper n) ∧ p.absolute cwd = ofNames true names :=
  ⟨(cwd.join p).names, fun _ => proper_of_mem_names, by rw [absolute, normalize, isRooted_join h]⟩

end Path

/-! ## What a pass relies on

  Nothing ties the two questions together in general: a source could call a spelling a file and know
  nothing under its absolute path.  What a pass relies on is said here of any source, and shown for
  the sources there are further below. -/

namespace Source

variable {s : Source}

/-- An absolute path that passes the test for files is a path of the table. -/
def Agrees (s : Source) : Prop :=
  ∀ p, s.isFile (s.absolute p) = true → (s.entry? (s.absolute p)).isSome = true

/-- So what passes the test is found, and found as it is in the table. -/
theorem Agrees.find?_eq (h : s.Agrees) {p : Path} (hp : s.isFile (s.absolute p) = true) :
    s.find? (s.absolute p) = s.entry? (s.absolute p) := by
  obtain ⟨content, hc⟩ := Option.isSome_iff_exists.1 (h p hp)
  rw [find?, if_pos hp, read, hc, Option.getD_some]

/-- Every spelling is tested by its absolute path, seen from the root directory. -/
structure SeesFromRoot (s : Source) : Prop where
  cwd : s.cwd = Path.rootDir
  isFile : ∀ p, s.isFile p = (s.entry? (p.absolute Path.rootDir)).isSome

namespace SeesFromRoot

/-- Absolute paths are those seen from the root directory. -/
theorem absolute (h : s.SeesFromRoot) (p : Path) : s.absolute p = p.absolute Path.rootDir := by
  rw [Source.absolute, h.cwd]

/-- A source that tests absolute paths by its table agrees with it. -/
theorem agrees (h : s.SeesFromRoot) : s.Agrees := by
  intro p hp
  rw [h.absolute] at hp ⊢
  rwa [h.isFile, Path.absolute_absolute] at hp

end SeesFromRoot
end Source

/-! ## Files in memory

  The table of files in memory is keyed by paths in normal form, and these are equal if they are the
  same; so looking a path up and searching the table for it are one. -/

namespace Memory

/-- Files are stored under paths in normal form. -/
def IsNormal (m : Memory) : Prop := ∀ f ∈ m.files, f.1.IsNormal

/-- What holds of all absolute paths holds of the paths of a store that files are written to. -/
theorem forall_write {P : Path → Prop} (hP : ∀ p : Path, P (p.absolute Path.rootDir)) {m : Memory}
    (h : ∀ f ∈ m.files, P f.1) (path : Path) (content : Content) :
    ∀ f ∈ (m.write path content).files, P f.1 := by
  intro f hf
  rcases Entries.mem_set hf with rfl | hf
  · exact hP path
  · exact h f hf

/-- The same of the files that a list gives. -/
theorem forall_ofList {P : Path → Prop} (hP : ∀ p : Path, P (p.absolute Path.rootDir))
    (stored : List (Path × Content)) : ∀ f ∈ (ofList stored).files, P f.1 := by
  have fold : ∀ m : Memory, (∀ f ∈ m.files, P f.1) →
      ∀ f ∈ (stored.foldl (fun m f => m.write f.1 f.2) m).files, P f.1 := by
    induction stored with
    | nil => exact fun m hm => hm
    | cons f stored ih => exact fun m hm => ih _ (forall_write hP hm f.1 f.2)
  exact fold ⟨[]⟩ nofun

/-! Files are written under paths in normal form, so a store that is made from a list has no others.
    -/

theorem IsNormal.write {m : Memory} (h : m.IsNormal) (path : Path) (content : Content) :
    (m.write path content).IsNormal :=
  forall_write (fun p => Path.isNormal_absolute p _) h path content

theorem isNormal_ofList (stored : List (Path × Content)) : (ofList stored).IsNormal :=
  forall_ofList (fun p => Path.isNormal_absolute p _) stored

/-- Under a path in normal form the table has what is stored under it. -/
theorem IsNormal.entry?_eq_get? {m : Memory} (h : m.IsNormal) {path : Path} (hp : path.IsNormal) :
    m.source.entry? path = Entries.get? path m.files := by
  obtain ⟨files⟩ := m
  unfold source Source.entry?
  simp only
  induction files with
  | nil => rfl
  | cons f files ih =>
    have hf := h f List.mem_cons_self
    rw [List.find?_cons, Entries.get?]
    by_cases heq : f.1 = path
    · simp [heq, Path.same_refl]
    · have hsame : f.1.same path = false := Bool.eq_false_iff.2 fun hs => heq (hf.eq_of_same hp hs)
      rw [hsame, if_neg heq]
      exact ih fun g hg => h g (List.mem_cons_of_mem _ hg)

/-- Tested as they are spelled, files in memory agree as well: an absolute path is its own normal
    form. -/
theorem IsNormal.agrees_asSpelled {m : Memory} (h : m.IsNormal) : m.asSpelled.Agrees := by
  intro p hp
  have hp : (Entries.get? (p.absolute Path.rootDir).normalize m.files).isSome = true := hp
  rw [← Path.absolute_of_isRooted (Path.isRooted_absolute p), Path.absolute_absolute,
    ← h.entry?_eq_get? (Path.isNormal_absolute p _)] at hp
  exact hp

/-- No file is stored under the normal form of a relative spelling, for this is relative. -/
theorem isFile_eq_false_of_relative (stored : List (Path × Content)) {p : Path}
    (hp : p.isRooted = false) : (ofList stored).isFile p = false := by
  have hrooted :=
    forall_ofList (P := fun path => path.isRooted = true) Path.isRooted_absolute stored
  unfold isFile
  rw [← Bool.not_eq_true]
  intro hsome
  obtain ⟨content, hget⟩ := Option.isSome_iff_exists.1 hsome
  have hkey := hrooted _ (Entries.mem_of_get?_eq hget)
  rw [Path.isRooted_normalize, hp] at hkey
  cases hkey

end Memory

/-! ## Directory trees

  The system walks a spelling piece by piece and asks at every step whether it stands in a
  directory, so that `a/../b` needs `a` to be there.  An absolute path has no such pieces left, and
  walking it is descending along its names. -/

namespace Tree

/-- Walking names that are neither empty nor made of dots leads to these names, if it leads
    anywhere. -/
theorem follow_names (t : Tree) {names : List Text} (h : ∀ n ∈ names, Path.Proper n)
    {reached led : List Text} (hled : t.follow reached names = some led) :
    led = reached ++ names := by
  induction names generalizing reached with
  | nil =>
    rw [follow] at hled
    split at hled
    · cases hled
      exact (List.append_nil _).symm
    · cases hled
  | cons n names ih =>
    have hn := h n List.mem_cons_self
    -- A name is neither a step up nor a piece to be passed over, so it is put behind what was
    -- reached.
    have hplain : ¬(n = [] ∨ n = ['.']) := fun e => e.elim hn.ne_nil hn.ne_here
    rw [follow, if_neg hplain, if_neg hn.ne_up] at hled
    split at hled
    · cases hled
    · rw [ih (fun m hm => h m (List.mem_cons_of_mem _ hm)) hled, List.append_assoc]
      rfl

/-- A path of names below the root leads to these names, if it leads anywhere. -/
theorem resolve?_ofNames (t : Tree) {names : List Text} (h : ∀ n ∈ names, Path.Proper n)
    {led : List Text} (hled : t.resolve? (Path.ofNames true names) = some led) : led = names := by
  have hfollow : t.follow [] ([] :: Path.segments (Path.spell names)) = some led := by
    unfold resolve? at hled
    split at hled
    · cases hled
    · have hrooted : (Path.ofNames true names).isRooted = true := rfl
      rw [if_pos hrooted] at hled
      rwa [← Path.segments_slash]
  -- The empty piece before the root stays where it is.
  rw [follow] at hfollow
  split at hfollow
  · cases hfollow
  · cases hnames : names with
    | nil =>
      rw [hnames] at hfollow
      cases hd : t.hasDirectory [] with
      | false => simp_all
      | true =>
        have hempty : Path.segments (Path.spell []) = [[]] := rfl
        rw [hempty] at hfollow
        simpa [follow, hd] using hfollow.symm
    | cons n rest =>
      have hne : names ≠ [] := by
        rw [hnames]
        exact List.cons_ne_nil _ _
      rw [Path.segments_spell hne h, if_pos (.inl rfl), if_neg hne] at hfollow
      rw [t.follow_names h hfollow, hnames]
      rfl

/-- **A directory tree agrees**: what an absolute path leads to, as the system walks it, is what the
    path says. -/
theorem agrees (t : Tree) : t.source.Agrees := by
  intro p hp
  have hcwd : t.source.cwd.isRooted = true := rfl
  obtain ⟨names, hproper, habsolute⟩ := Path.exists_absolute_eq_ofNames hcwd p
  rw [show t.source.absolute p = Path.ofNames true names from habsolute] at hp ⊢
  -- The walk leads to the names themselves, and a file with these names is one of the tree.
  obtain ⟨led, hled, hfile⟩ := (Option.any_eq_true _ _).1 hp
  rw [t.resolve?_ofNames hproper hled] at hfile
  obtain ⟨f, hf, hnames⟩ := List.any_eq_true.1 hfile
  rw [beq_iff_eq] at hnames
  have hfound : (t.source.files.find? (·.1.same (Path.ofNames true names))).isSome = true := by
    rw [List.find?_isSome]
    exact ⟨_, List.mem_map_of_mem hf, by rw [hnames]; exact Path.same_refl _⟩
  rwa [Source.entry?, Option.isSome_map]

end Tree
end ShaderWeave
