/-
  Files keep their identity.

  A number that was once written into a marker is read back by a compiler's user, maybe many passes
  later.  So what a registry says about a file must outlive everything that is done to the registry:

    * what is done (`Registry.Use`) — registering a file, attaching a watcher, setting and running
      the callback, and passes over whatever files, with whatever root, dictionary and
      configuration, that end well or not;
    * the invariant (`Registry.Indexed`) — the index that leads from paths to numbers is inverse to
      the entries;
    * what is kept (`Registry.Keeps`) — entries stay where they are, with their paths, and tracked
      if they were;
    * what is new (`Indexed.paths_registerAll`) — the paths registered for the first time, in this
      order.

  The invariant is about two fields that are written apart: a pass that fails halfway has registered
  some files and not others, and still each of them is in both.  The reason is that all that a
  history does to the two fields are registrations (`entries_use`), and that each of these keeps the
  invariant (`Indexed.register`).
-/
import Mathlib.Data.List.Induction
import ShaderWeave.Proofs.Entering

namespace ShaderWeave

/-- The paths of a list that are seen for the first time: not the same as one of `seen`, nor as an
    earlier one. -/
def Path.firstSeen (seen : List Path) : List Path → List Path
  | [] => []
  | p :: rest =>
    if seen.any (·.same p) then firstSeen seen rest else p :: firstSeen (seen ++ [p]) rest

namespace Registry

/-! ## What is new

  `firstSeen` is a pass over the paths alone, with no registry: it says which of the visited files
  are appended and in which order.  `Indexed.any_paths` is the link between the two, and the only
  place where the index is needed. -/

/-- The paths of the entries, in the order of their numbers. -/
def paths (r : Registry) : List Path := r.entries.map (·.path)

/-- A path has a number exactly where it is the path of an entry. -/
theorem Indexed.any_paths {r : Registry} (h : r.Indexed) (path : Path) :
    r.paths.any (·.same path) = (r.idOf? path).isSome := by
  unfold paths
  rw [List.any_map]
  cases hid : r.idOf? path with
  | none => exact List.any_eq_false.2 fun e he => by simp [h.same_eq_false_of_idOf? hid e he]
  | some i =>
    obtain ⟨e, he, hs⟩ := h.exists_entry_at hid
    exact List.any_eq_true.2 ⟨e, List.mem_of_getElem? he, hs⟩

/-! Telling the watchers changes no path, nor does tracking a file from now on, and a new entry has
    the path it was made for. -/

theorem paths_watch (r : Registry) (path : Path) : (r.watch path).paths = r.paths := by
  rw [paths, entries_watch, paths]

theorem paths_setTracked (r : Registry) (id : Nat) : (r.setTracked id).paths = r.paths := by
  refine List.ext_getElem? fun i => ?_
  rw [paths, paths, List.getElem?_map, List.getElem?_map, getElem?_setTracked, Option.map_map]
  refine congrArg (Option.map · r.entries[i]?) (funext fun e => ?_)
  rw [Function.comp_apply]
  split <;> rfl

theorem paths_append (r : Registry) (path : Path) (track : Bool) :
    (r.append path track).paths = r.paths ++ [path] := List.map_append

/-- Registering a file appends its path, if it was not there. -/
theorem Indexed.paths_register {r : Registry} (h : r.Indexed) (path : Path) (track : Bool) :
    (r.register path track).1.paths =
      if r.paths.any (·.same path) then r.paths else r.paths ++ [path] := by
  rw [h.any_paths]
  rcases register_cases r path track with ⟨id, hid, _, hr⟩ | ⟨id, _, hid, _, _, _, hr⟩ | ⟨hid, hr⟩
  · rw [hr, hid]
    rfl
  · rw [hr, hid, paths_watch, paths_setTracked]
    rfl
  · rw [hr, hid]
    split
    · rw [paths_watch, paths_append]
      rfl
    · rw [paths_append]
      rfl

/-- **Registering files appends those that were not there**, each once and in the order in which
    they came. -/
theorem Indexed.paths_registerAll {r : Registry} (h : r.Indexed) (visits : List (Path × Bool)) :
    (r.registerAll visits).paths = r.paths ++ Path.firstSeen r.paths (visits.map Prod.fst) := by
  induction visits generalizing r with
  | nil => exact (List.append_nil _).symm
  | cons v visits ih =>
    have hrest : (r.registerAll (v :: visits)).paths =
        ((r.register v.1 v.2).1.registerAll visits).paths := rfl
    rw [hrest, ih (h.register v.1 v.2), h.paths_register, List.map_cons, Path.firstSeen]
    split
    · rfl
    · rw [List.append_assoc]
      rfl

/-! ## Histories

  What is done to a registry is reduced to registering files: the other uses leave entries and index
  alone, and a pass registers the files it enters.  So a property of `registerAll` is one of every
  history. -/

/-- What can be done to a registry. -/
inductive Use where
  | register (path : Path) (track : Bool)
  | attach (watcher : Text)
  | setCallback (callback : Callback)
  | notify
  /-- A pass with the files and settings of a preprocessor. -/
  | process (settings : Preprocessor)

/-- The registry when something was done to it. -/
def use (r : Registry) : Use → Registry
  | .register path track => (r.register path track).1
  | .attach watcher => r.attach watcher
  | .setCallback callback => r.setCallback callback
  | .notify => r.notify
  | .process settings => { settings with registry := r }.process.1.registry

/-- The registry after a history, from the empty one. -/
def ofHistory (history : List Use) : Registry := history.foldl use {}

/-- The files that are registered, in order, each with whether it is to be tracked. -/
def registers (r : Registry) : Use → List (Path × Bool)
  | .register path track => [(path, track)]
  | .process settings => Pass.entered settings.job r
  | _ => []

/-- A pass registers the files it enters, in this order, and does nothing else to the registry. -/
theorem use_process (r : Registry) (settings : Preprocessor) :
    r.use (.process settings) = r.registerAll (Pass.entered settings.job r) :=
  Pass.registry_process settings.job r

/-- The entries after a use are those after its files were registered, and so is the index. -/
theorem entries_use (r : Registry) (u : Use) :
    (r.use u).entries = (r.registerAll (r.registers u)).entries ∧
      (r.use u).index = (r.registerAll (r.registers u)).index := by
  cases u with
  | register path track => exact ⟨rfl, rfl⟩
  | attach watcher => exact ⟨rfl, rfl⟩
  | setCallback callback => exact ⟨rfl, rfl⟩
  | notify => exact ⟨entries_notify r, index_notify r⟩
  | process settings =>
    rw [use_process]
    exact ⟨rfl, rfl⟩

/-- Whatever is done to a registry, its index stays inverse to its entries. -/
theorem Indexed.use {r : Registry} (h : r.Indexed) (u : Use) : (r.use u).Indexed :=
  (h.registerAll (r.registers u)).of_eq (entries_use r u).1 (entries_use r u).2

/-- A history is read from its end. -/
theorem ofHistory_append (history : List Use) (u : Use) :
    ofHistory (history ++ [u]) = (ofHistory history).use u := by
  rw [ofHistory, List.foldl_append]
  rfl

/-- The registries of sessions have a history, in which files are registered by passes only; so what
    holds after every history holds throughout every session. -/
theorem Arises.exists_history {r : Registry} (h : r.Arises) :
    ∃ history, r = ofHistory history ∧ ∀ path track, .register path track ∉ history := by
  have next : ∀ {r : Registry} (u : Use), (∀ path track, .register path track ≠ u) →
      (∃ history, r = ofHistory history ∧ ∀ path track, .register path track ∉ history) →
      ∃ history, r.use u = ofHistory history ∧ ∀ path track, .register path track ∉ history := by
    rintro r u hu ⟨history, rfl, hn⟩
    refine ⟨history ++ [u], (ofHistory_append history u).symm, fun path track hmem => ?_⟩
    rcases List.mem_append.1 hmem with hmem | hmem
    · exact hn path track hmem
    · exact hu path track (List.mem_singleton.1 hmem)
  induction h with
  | fresh => exact ⟨[], rfl, fun _ _ => List.not_mem_nil⟩
  | @process p _ ih => exact next (.process p) (fun _ _ => nofun) ih
  | attach _ watcher ih => exact next (.attach watcher) (fun _ _ => nofun) ih
  | setCallback _ callback ih => exact next (.setCallback callback) (fun _ _ => nofun) ih
  | notify _ ih => exact next .notify (fun _ _ => nofun) ih

/-- The index is inverse to the entries after every history: it is for the empty registry, and
    whatever is done keeps it. -/
theorem indexed_ofHistory (history : List Use) : (ofHistory history).Indexed := by
  induction history using List.reverseRecOn with
  | nil => exact indexed_empty
  | append_singleton history u ih =>
    rw [ofHistory_append]
    exact ih.use u

/-- What is done keeps the entries, since registering files does. -/
theorem keeps_use (r : Registry) (u : Use) : r.Keeps (r.use u) :=
  (keeps_registerAll r (r.registers u)).trans (.of_entries (entries_use r u).1)

/-- What a registry knows about its files. -/
structure Identifies (r : Registry) : Prop where
  /-- The number of an entry is its position. -/
  numbered : ∀ (i : Nat) (e : FileEntry), r.entries[i]? = some e → e.id = i
  /-- Two entries have different paths. -/
  distinct : ∀ (i j : Nat) (a b : FileEntry), r.entries[i]? = some a → r.entries[j]? = some b →
    a.path.same b.path = true → i = j
  /-- A path has a number exactly where the entry of this number has the path. -/
  idOf?_iff : ∀ (path : Path) (i : Nat), r.idOf? path = some i ↔
    ∃ e, r.entries[i]? = some e ∧ e.path.same path = true
  /-- The number of a path leads back to the path. -/
  pathOf? : ∀ (path : Path) (i : Nat), r.idOf? path = some i →
    ∃ q, r.pathOf? i = some q ∧ q.same path = true

/-- The invariant says what a registry knows. -/
theorem Indexed.identifies {r : Registry} (h : r.Indexed) : r.Identifies where
  numbered := h.numbered
  distinct := fun _ _ _ _ ha hb hs => h.position_eq ha hb hs
  idOf?_iff := fun _ _ => h.idOf?_eq_some_iff
  pathOf? := by
    intro path i hid
    obtain ⟨e, he, hs⟩ := h.idOf?_eq_some_iff.1 hid
    exact ⟨e.path, by rw [Registry.pathOf?, he, Option.map_some], hs⟩

/-- **Files keep their identity.**  After every history a registry knows its files; whatever is done
    next keeps the entries; and a pass, also one that fails, appends exactly the files that it is
    the first to enter, in the order in which it first enters them. -/
theorem identity_of_history (history : List Use) :
    (ofHistory history).Identifies ∧
    (∀ u, (ofHistory history).Keeps ((ofHistory history).use u)) ∧
    ∀ settings : Preprocessor,
      ((ofHistory history).use (.process settings)).paths =
        (ofHistory history).paths ++
          Path.firstSeen (ofHistory history).paths
            ((Pass.entered settings.job (ofHistory history)).map Prod.fst) := by
  refine ⟨(indexed_ofHistory history).identifies, keeps_use _, fun settings => ?_⟩
  rw [use_process]
  exact (indexed_ofHistory history).paths_registerAll _

/-- A file that includes one that can be read and one that cannot. -/
def lostInclude : Preprocessor where
  filename := ⟨"/main".toList⟩
  dictionary := .empty
  config := {}
  source := (Memory.ofList
    [(⟨"/main".toList⟩, .text "#include \"part\"\n#include \"lost\"\n".toList),
     (⟨"/part".toList⟩, .text "int a;\n".toList),
     (⟨"/lost".toList⟩, .unreadable "gone".toList)]).source
  registry := {}

/-- The pass fails at the third file, which it cannot read; all three are known from then on. -/
theorem identity_of_history_lostInclude :
    lostInclude.process.2 = .error (.unreadable ⟨"/lost".toList⟩ "gone".toList) ∧
    (ofHistory [.process lostInclude]).paths =
    [⟨"/main".toList⟩, ⟨"/part".toList⟩, ⟨"/lost".toList⟩] ∧
    (ofHistory [.process lostInclude]).Identifies := by
  have ends : Pass.after lostInclude.job 4 (Pass.start lostInclude.job {}) =
      .stop ⟨_, .error (.unreadable ⟨"/lost".toList⟩ "gone".toList)⟩ := rfl
  have fails : lostInclude.process.2 = .error (.unreadable ⟨"/lost".toList⟩ "gone".toList) :=
    congrArg Outcome.result (Pass.process_of_after 4 ends)
  have appended := (identity_of_history []).2.2 lostInclude
  have files : Pass.entered lostInclude.job (ofHistory []) =
      [(⟨"/main".toList⟩, true), (⟨"/part".toList⟩, true), (⟨"/lost".toList⟩, true)] :=
    Pass.entered_eq_visitsFrom ends
  rw [files] at appended
  exact ⟨fails, appended, (identity_of_history [.process lostInclude]).1⟩

end Registry

end ShaderWeave
