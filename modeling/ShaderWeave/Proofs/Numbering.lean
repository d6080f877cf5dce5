/-
  Numbers and the files they stand for.

  A registry keeps files twice: as entries, in the order of their numbers, and in an index from
  paths to numbers.  Nothing in the two fields says that they agree; it is an invariant
  (`Registry.Indexed`) that entry `i` has the number `i`, and that the index leads from a path to
  `i` exactly where entry `i` has this path.  Only `register` writes to the two, in one of three
  ways (`register_cases`): it leaves them as they are, tracks an entry, or appends one to both.
  Each keeps the invariant.

  What else is said of `register` follows from the three ways:

    * entries stay where they are, with their paths, and tracked if they were (`Keeps`);
    * a file that is registered is known from then on (`Knows`), and registering what is known
      changes nothing at all, neither an entry nor what watchers are told (`registerAll_self`);
    * where all paths are in normal form (`Sound`), the number of a path leads back to this very
      path (`Sound.pathOf?_of_idOf?`), not only to one with the same components.
-/
import ShaderWeave.Proofs.Canonical
import ShaderWeave.Proofs.Provenance

namespace ShaderWeave

namespace FileEntry

@[simp] theorem path_track (e : FileEntry) : e.track.path = e.path := rfl

end FileEntry

namespace Registry

/-! ## Registering

What `register` can do, and what it does to the entries.  No invariant is needed for this. -/

section Registering

variable {r : Registry} {i id : Nat} {e : FileEntry}

@[simp] theorem entries_watch (r : Registry) (path : Path) :
    (r.watch path).entries = r.entries := by
  unfold watch
  split <;> rfl

@[simp] theorem index_watch (r : Registry) (path : Path) : (r.watch path).index = r.index := by
  unfold watch
  split <;> rfl

/-- Each entry after one of them is tracked. -/
theorem getElem?_setTracked (r : Registry) (id i : Nat) :
    (r.setTracked id).entries[i]? =
      r.entries[i]?.map fun e => if id = i then e.track else e :=
  List.getElem?_modify ..

/-- Tracking one entry keeps the others, and of the entry all but whether it is tracked. -/
theorem exists_of_getElem?_setTracked (h : (r.setTracked id).entries[i]? = some e) :
    ∃ e₀, r.entries[i]? = some e₀ ∧ e.path = e₀.path ∧ e.id = e₀.id := by
  rw [getElem?_setTracked, Option.map_eq_some_iff] at h
  obtain ⟨e₀, he₀, rfl⟩ := h
  refine ⟨e₀, he₀, ?_⟩
  split <;> exact ⟨rfl, rfl⟩

/-- An entry is still there when another, or itself, is tracked. -/
theorem getElem?_setTracked_of_some (h : r.entries[i]? = some e) (id : Nat) :
    (r.setTracked id).entries[i]? = some (if id = i then e.track else e) := by
  rw [getElem?_setTracked, h, Option.map_some]

/-- **What registering a path comes to**: nothing new; an entry that is tracked from now on, of
    which the watcher is told; or a new entry, of which the watcher is told if it is tracked. -/
theorem register_cases (r : Registry) (path : Path) (track : Bool) :
    (∃ id, r.idOf? path = some id ∧
      (∀ e, r.entries[id]? = some e → track = true → e.tracked = true) ∧
      (r.register path track).1 = r) ∨
    (∃ id e, r.idOf? path = some id ∧ r.entries[id]? = some e ∧ e.tracked = false ∧ track = true ∧
      (r.register path track).1 = (r.setTracked id).watch path) ∨
    r.idOf? path = none ∧ (r.register path track).1 =
      if track then (r.append path track).watch path else r.append path track := by
  cases hid : r.idOf? path with
  | none =>
    refine .inr (.inr ⟨rfl, ?_⟩)
    simp only [register, hid]
  | some id =>
    cases hnew : track && !(r.entries[id]?.all (·.tracked)) with
    | false =>
      refine .inl ⟨id, rfl, fun e he ht => ?_, ?_⟩
      · simpa [he, ht] using hnew
      · simp only [register, hid, hnew, Bool.false_eq_true, if_false]
    | true =>
      rw [Bool.and_eq_true, Bool.not_eq_true'] at hnew
      obtain ⟨ht, huntracked⟩ := hnew
      -- An entry that is not tracked is one that is there.
      cases he : r.entries[id]? with
      | none => rw [he] at huntracked; cases huntracked
      | some e =>
        rw [he] at huntracked
        refine .inr (.inl ⟨id, e, rfl, he, huntracked, ht, ?_⟩)
        simp [register, hid, he, ht, (huntracked : e.tracked = false)]

/-- The entries of `r` are still there, at their positions, with their paths, and tracked if they
    were. -/
def Keeps (r r' : Registry) : Prop :=
  ∀ (i : Nat) (e : FileEntry), r.entries[i]? = some e →
    ∃ e', r'.entries[i]? = some e' ∧ e'.path = e.path ∧ (e.tracked = true → e'.tracked = true)

/-- Where the entries are the same, all is kept. -/
theorem Keeps.of_entries {r r' : Registry} (h : r'.entries = r.entries) : r.Keeps r' := by
  intro i e he
  exact ⟨e, by rw [h]; exact he, rfl, id⟩

/-- What is kept twice is kept. -/
theorem Keeps.trans {r s t : Registry} (h : r.Keeps s) (k : s.Keeps t) : r.Keeps t := by
  intro i e he
  obtain ⟨e₁, he₁, hpath₁, htracked₁⟩ := h i e he
  obtain ⟨e₂, he₂, hpath₂, htracked₂⟩ := k i e₁ he₁
  exact ⟨e₂, he₂, hpath₂.trans hpath₁, fun ht => htracked₂ (htracked₁ ht)⟩

/-- Tracking an entry keeps it and the others: it can be tracked already, and never becomes
    untracked. -/
theorem keeps_setTracked (r : Registry) (id : Nat) : r.Keeps (r.setTracked id) := by
  intro i e he
  refine ⟨_, getElem?_setTracked_of_some he id, ?_, fun ht => ?_⟩
  · split <;> rfl
  · split
    · rfl
    · exact ht

/-- A new entry comes behind the others. -/
theorem keeps_append (r : Registry) (path : Path) (track : Bool) :
    r.Keeps (r.append path track) := by
  intro i e he
  refine ⟨e, ?_, rfl, id⟩
  rw [append, List.getElem?_append_left (List.getElem?_eq_some_iff.1 he).1]
  exact he

/-- The entries do not depend on what the watcher is told. -/
theorem keeps_watch (r : Registry) (path : Path) : r.Keeps (r.watch path) :=
  .of_entries (entries_watch r path)

/-- Registering a file keeps what was registered before. -/
theorem keeps_register (r : Registry) (path : Path) (track : Bool) :
    r.Keeps (r.register path track).1 := by
  rcases register_cases r path track with ⟨_, _, _, hr⟩ | ⟨id, _, _, _, _, _, hr⟩ | ⟨_, hr⟩
  · rw [hr]
    exact .of_entries rfl
  · rw [hr]
    exact (keeps_setTracked r id).trans (keeps_watch _ _)
  · rw [hr]
    split
    · exact (keeps_append r path track).trans (keeps_watch _ _)
    · exact keeps_append r path track

/-- Numbers keep their paths. -/
theorem Keeps.pathOf? {r r' : Registry} (h : r.Keeps r') {path : Path}
    (hid : r.pathOf? id = some path) : r'.pathOf? id = some path := by
  obtain ⟨e, he, rfl⟩ := Option.map_eq_some_iff.1 hid
  obtain ⟨e', he', hpath, _⟩ := h id e he
  rw [Registry.pathOf?, he', Option.map_some, hpath]

/-- What holds of the paths of all entries and of the path that is registered holds of all entries
    after that. -/
theorem forall_path_register {P : Path → Prop} {r : Registry} (h : ∀ e ∈ r.entries, P e.path)
    {path : Path} (hp : P path) (track : Bool) :
    ∀ e ∈ (r.register path track).1.entries, P e.path := by
  have appended : ∀ e ∈ (r.append path track).entries, P e.path := by
    intro e he
    rcases List.mem_append.1 he with he | he
    · exact h e he
    · rw [List.mem_singleton.1 he]
      exact hp
  rcases register_cases r path track with ⟨_, _, _, hr⟩ | ⟨id, _, _, _, _, _, hr⟩ | ⟨_, hr⟩
  · rw [hr]
    exact h
  · rw [hr, entries_watch]
    intro e he
    obtain ⟨i, hi⟩ := List.mem_iff_getElem?.1 he
    obtain ⟨e₀, he₀, hpath, _⟩ := exists_of_getElem?_setTracked hi
    rw [hpath]
    exact h e₀ (List.mem_of_getElem? he₀)
  · rw [hr]
    split
    · rw [entries_watch]
      exact appended
    · exact appended

end Registering

/-! ## The index is inverse to the entries

  Entries are appended, the index is written to, and the two are never compared.  That the index
  leads back to every entry and nowhere else is an invariant, which the append keeps only because it
  is made when the path is not in the index. -/

/-- Entries stand at their numbers, and the index leads from each path to the entry that has it.

    So the index has the paths of the entries and no others, and no two entries have the same path
    (`Indexed.position_eq`).  Paths are the same if their components are: the spelling does not
    matter, and nothing is asked of it. -/
structure Indexed (r : Registry) : Prop where
  /-- The number that an entry carries is its position. -/
  numbered : ∀ (i : Nat) (e : FileEntry), r.entries[i]? = some e → e.id = i
  /-- The index and the entries are inverse to each other. -/
  idOf?_eq_some_iff : ∀ {path : Path} {i : Nat}, r.idOf? path = some i ↔
    ∃ e, r.entries[i]? = some e ∧ e.path.same path = true

/-- The invariant holds at the start, where both are empty. -/
theorem indexed_empty : Indexed {} where
  numbered := fun _ _ h => nomatch h
  idOf?_eq_some_iff := ⟨fun h => (nomatch h), fun ⟨_, h, _⟩ => (nomatch h)⟩

namespace Indexed

variable {r : Registry} {path : Path} {i j id : Nat} {a b : FileEntry}

/-- What has a number has an entry. -/
theorem exists_entry_at (h : r.Indexed) (hid : r.idOf? path = some id) :
    ∃ e, r.entries[id]? = some e ∧ e.path.same path = true :=
  h.idOf?_eq_some_iff.1 hid

/-- An entry has the number of its position. -/
theorem idOf?_path (h : r.Indexed) (ha : r.entries[i]? = some a) : r.idOf? a.path = some i :=
  h.idOf?_eq_some_iff.2 ⟨a, ha, Path.same_refl _⟩

/-- Entries of the same path stand at the same position. -/
theorem position_eq (h : r.Indexed) (ha : r.entries[i]? = some a) (hb : r.entries[j]? = some b)
    (hs : a.path.same b.path = true) : i = j := by
  have hi : r.idOf? b.path = some i := h.idOf?_eq_some_iff.2 ⟨a, ha, hs⟩
  exact Option.some.inj (hi.symm.trans (h.idOf?_path hb))

/-- No two entries have the same path. -/
theorem distinct (h : r.Indexed) : r.entries.Pairwise fun a b => a.path.same b.path = false := by
  rw [List.pairwise_iff_getElem]
  intro i j hi hj hlt
  rw [← Bool.not_eq_true]
  intro hs
  -- The index can lead from one path to one position only.
  have heq := h.position_eq (List.getElem?_eq_getElem hi) (List.getElem?_eq_getElem hj) hs
  omega

/-- A path without a number is the path of no entry. -/
theorem same_eq_false_of_idOf? (h : r.Indexed) (hid : r.idOf? path = none) :
    ∀ e ∈ r.entries, e.path.same path = false := by
  intro e he
  obtain ⟨i, hi⟩ := List.mem_iff_getElem?.1 he
  rw [← Bool.not_eq_true]
  intro hs
  rw [h.idOf?_eq_some_iff.2 ⟨e, hi, hs⟩] at hid
  cases hid

/-- The invariant speaks of entries and index only. -/
theorem of_eq {r' : Registry} (h : r.Indexed) (he : r'.entries = r.entries)
    (hi : r'.index = r.index) : r'.Indexed where
  numbered := by rw [he]; exact h.numbered
  idOf?_eq_some_iff := by
    intro path i
    rw [idOf?, hi, he]
    exact h.idOf?_eq_some_iff

/-- Telling the watcher keeps the invariant. -/
theorem watch (h : r.Indexed) (path : Path) : (r.watch path).Indexed := by
  unfold Registry.watch
  split
  · exact h.of_eq rfl rfl
  · exact h

/-- Tracking an entry changes neither numbers nor paths. -/
theorem setTracked (h : r.Indexed) (id : Nat) : (r.setTracked id).Indexed where
  numbered := by
    intro i e he
    obtain ⟨e₀, he₀, _, hid⟩ := exists_of_getElem?_setTracked he
    rw [hid]
    exact h.numbered i e₀ he₀
  idOf?_eq_some_iff := by
    intro path i
    rw [idOf?_setTracked, h.idOf?_eq_some_iff]
    constructor
    · rintro ⟨e, he, hs⟩
      refine ⟨_, getElem?_setTracked_of_some he id, ?_⟩
      split <;> exact hs
    · rintro ⟨e, he, hs⟩
      obtain ⟨e₀, he₀, hpath, _⟩ := exists_of_getElem?_setTracked he
      exact ⟨e₀, he₀, hpath ▸ hs⟩

/-- A path that has no number is put into both: at the end of the entries, and into the index with
    the number that was their length.  That it had no number is needed: else the index would lead
    to the new entry alone, and the older entry of the path would be lost. -/
theorem append (h : r.Indexed) (hid : r.idOf? path = none) (track : Bool) :
    (r.append path track).Indexed where
  numbered := by
    intro i e he
    rcases Nat.lt_or_ge i r.entries.length with hlt | hge
    · exact h.numbered i e (by rwa [Registry.append, List.getElem?_append_left hlt] at he)
    · -- Past the old entries there is only the new one.
      rw [Registry.append, List.getElem?_append_right hge, List.getElem?_singleton] at he
      split at he
      · next hlast =>
        cases he
        show r.entries.length = i
        omega
      · cases he
  idOf?_eq_some_iff := by
    intro other i
    rw [idOf?_append]
    by_cases hs : path.components = other.components
    · -- The new path: it is that of the last entry, and of none before.
      rw [if_pos hs]
      have hold : ∀ e ∈ r.entries, e.path.same other = false := by
        intro e he
        rw [← h.same_eq_false_of_idOf? hid e he, Path.same, Path.same, hs]
      constructor
      · intro hi
        cases hi
        exact ⟨⟨path, r.entries.length, track⟩, by simp [Registry.append], Path.same_iff.2 hs⟩
      · rintro ⟨e, he, hse⟩
        rcases Nat.lt_or_ge i r.entries.length with hlt | hge
        · rw [Registry.append, List.getElem?_append_left hlt] at he
          rw [hold e (List.mem_of_getElem? he)] at hse
          cases hse
        · have hi := (List.getElem?_eq_some_iff.1 he).1
          rw [Registry.append, List.length_append, List.length_singleton] at hi
          rw [show i = r.entries.length by omega]
    · -- Another path: the last entry does not have it.
      rw [if_neg hs, h.idOf?_eq_some_iff]
      constructor
      · rintro ⟨e, he, hse⟩
        obtain ⟨e', he', hpath, _⟩ := keeps_append r path track i e he
        exact ⟨e', he', hpath ▸ hse⟩
      · rintro ⟨e, he, hse⟩
        rcases Nat.lt_or_ge i r.entries.length with hlt | hge
        · exact ⟨e, by rwa [Registry.append, List.getElem?_append_left hlt] at he, hse⟩
        · rw [Registry.append, List.getElem?_append_right hge] at he
          have hlast := List.mem_singleton.1 (List.mem_of_getElem? he)
          subst hlast
          exact absurd (Path.same_iff.1 hse) hs

/-- **Registering keeps the index inverse to the entries**, in each of the three ways it can go. -/
theorem register (h : r.Indexed) (path : Path) (track : Bool) :
    (r.register path track).1.Indexed := by
  rcases register_cases r path track with ⟨_, _, _, hr⟩ | ⟨id, _, _, _, _, _, hr⟩ | ⟨hid, hr⟩
  · rw [hr]
    exact h
  · rw [hr]
    exact (h.setTracked id).watch path
  · rw [hr]
    split
    · exact (h.append hid track).watch path
    · exact h.append hid track

end Indexed

/-! ## Files that are known

  A pass asks for files that it may have asked for before, and then nothing must change: registering
  a file that is known, as it is known, gives back the same registry. -/

/-- The path is registered, and tracked if that is asked for. -/
def Knows (r : Registry) (path : Path) (track : Bool) : Prop :=
  ∃ id e, r.idOf? path = some id ∧ r.entries[id]? = some e ∧ (track = true → e.tracked = true)

/-- Registering what is known changes nothing. -/
theorem register_of_knows {r : Registry} {path : Path} {track : Bool} (h : r.Knows path track) :
    (r.register path track).1 = r := by
  obtain ⟨id, e, hid, he, htracked⟩ := h
  have hskip : (track && !e.tracked) = false := by
    cases track with
    | false => rfl
    | true =>
      rw [htracked rfl]
      rfl
  simp only [register, hid, he, Option.all_some, hskip, Bool.false_eq_true, if_false]

/-- Telling the watcher changes nothing of what is known. -/
@[simp] theorem knows_watch {r : Registry} {path watched : Path} {track : Bool} :
    (r.watch watched).Knows path track ↔ r.Knows path track := by
  unfold Knows
  simp only [idOf?_watch, entries_watch]

/-- What is registered is known.  Here the invariant is needed: a number that the index gives must
    be that of an entry. -/
theorem Indexed.knows_register {r : Registry} (h : r.Indexed) (path : Path) (track : Bool) :
    (r.register path track).1.Knows path track := by
  rcases register_cases r path track with
    ⟨id, hid, htracked, hr⟩ | ⟨id, e, hid, he, _, _, hr⟩ | ⟨_, hr⟩
  · obtain ⟨e, he, _⟩ := h.exists_entry_at hid
    rw [hr]
    exact ⟨id, e, hid, he, htracked e he⟩
  · rw [hr, knows_watch]
    exact ⟨id, e.track, hid, by rw [getElem?_setTracked_of_some he, if_pos rfl], fun _ => rfl⟩
  · have hknown : (r.append path track).Knows path track :=
      ⟨r.entries.length, ⟨path, r.entries.length, track⟩, by rw [idOf?_append, if_pos rfl],
        List.getElem?_concat_length, id⟩
    rw [hr]
    split
    · rwa [knows_watch]
    · exact hknown

/-- What is known stays known. -/
theorem Knows.register {r : Registry} {path : Path} {track : Bool} (h : r.Knows path track)
    (other : Path) (track' : Bool) : (r.register other track').1.Knows path track := by
  obtain ⟨id, e, hid, he, htracked⟩ := h
  obtain ⟨e', he', _, hkept⟩ := keeps_register r other track' id e he
  exact ⟨id, e', idOf?_register other track' hid, he', fun ht => hkept (htracked ht)⟩

/-! ## Registering many

  A pass is, for the registry, the list of the files that it registers. -/

/-- Registers files in order, each with whether it is to be tracked. -/
def registerAll (r : Registry) (visits : List (Path × Bool)) : Registry :=
  visits.foldl (fun r v => (r.register v.1 v.2).1) r

/-- Files can be registered in two parts. -/
theorem registerAll_append (r : Registry) (a b : List (Path × Bool)) :
    r.registerAll (a ++ b) = (r.registerAll a).registerAll b :=
  List.foldl_append

/-! Nothing is lost by registering any number of files, no path comes in but those registered, and
    the index stays inverse to the entries. -/

theorem keeps_registerAll (r : Registry) (visits : List (Path × Bool)) :
    r.Keeps (r.registerAll visits) := by
  induction visits generalizing r with
  | nil => exact .of_entries rfl
  | cons v visits ih => exact (keeps_register r v.1 v.2).trans (ih _)

theorem forall_path_registerAll {P : Path → Prop} {r : Registry} (h : ∀ e ∈ r.entries, P e.path)
    {visits : List (Path × Bool)} (hv : ∀ v ∈ visits, P v.1) :
    ∀ e ∈ (r.registerAll visits).entries, P e.path := by
  induction visits generalizing r with
  | nil => exact h
  | cons v visits ih =>
    exact ih (forall_path_register h (hv v List.mem_cons_self) v.2) fun w hw =>
      hv w (List.mem_cons_of_mem _ hw)

theorem Indexed.registerAll {r : Registry} (h : r.Indexed) (visits : List (Path × Bool)) :
    (r.registerAll visits).Indexed := by
  induction visits generalizing r with
  | nil => exact h
  | cons v visits ih => exact ih (h.register v.1 v.2)

/-- Files that are all known can be registered without any effect. -/
theorem registerAll_of_knows {r : Registry} {visits : List (Path × Bool)}
    (h : ∀ v ∈ visits, r.Knows v.1 v.2) : r.registerAll visits = r := by
  induction visits with
  | nil => rfl
  | cons v visits ih =>
    have hv : (r.register v.1 v.2).1 = r := register_of_knows (h v List.mem_cons_self)
    rw [registerAll, List.foldl_cons, hv]
    exact ih fun w hw => h w (List.mem_cons_of_mem _ hw)

/-- What is known stays known, whatever is registered after it. -/
theorem Knows.registerAll {r : Registry} {path : Path} {track : Bool} (h : r.Knows path track)
    (visits : List (Path × Bool)) : (r.registerAll visits).Knows path track := by
  induction visits generalizing r with
  | nil => exact h
  | cons v visits ih => exact ih (h.register v.1 v.2)

/-- After files were registered, each of them is known. -/
theorem Indexed.knows_registerAll {r : Registry} (h : r.Indexed) (visits : List (Path × Bool)) :
    ∀ v ∈ visits, (r.registerAll visits).Knows v.1 v.2 := by
  induction visits generalizing r with
  | nil => exact fun v hv => absurd hv List.not_mem_nil
  | cons v visits ih =>
    intro w hw
    rcases List.mem_cons.1 hw with rfl | hw
    · exact (h.knows_register w.1 w.2).registerAll visits
    · exact ih (h.register v.1 v.2) w hw

/-- **Registering the same files again changes nothing**: no entry, and nothing that watchers are
    told. -/
theorem Indexed.registerAll_self {r : Registry} (h : r.Indexed) (visits : List (Path × Bool)) :
    (r.registerAll visits).registerAll visits = r.registerAll visits :=
  registerAll_of_knows (h.knows_registerAll visits)

/-! ## Sound registries

  For paths in normal form there is one spelling, so the path of an entry is not only the same as
  the one that was registered but equal to it. -/

/-- The index is inverse to the entries, and paths are in normal form. -/
structure Sound (r : Registry) : Prop extends r.Indexed where
  normal : ∀ e ∈ r.entries, e.path.IsNormal

/-- The empty registry is sound. -/
theorem sound_empty : Sound {} where
  toIndexed := indexed_empty
  normal := fun _ h => absurd h List.not_mem_nil

/-- Like `Indexed`, being sound is a matter of entries and index only. -/
theorem Sound.of_eq {r r' : Registry} (h : r.Sound) (he : r'.entries = r.entries)
    (hi : r'.index = r.index) : r'.Sound :=
  ⟨h.toIndexed.of_eq he hi, by rw [he]; exact h.normal⟩

/-- Registering files with paths in normal form keeps a registry sound. -/
theorem Sound.registerAll {r : Registry} (h : r.Sound) {visits : List (Path × Bool)}
    (hv : ∀ v ∈ visits, v.1.IsNormal) : (r.registerAll visits).Sound :=
  ⟨h.toIndexed.registerAll visits, forall_path_registerAll h.normal hv⟩

/-- **The number of a path leads back to the path.**  The entry has a path with the same components;
    in normal form there is but one spelling of them. -/
theorem Sound.pathOf?_of_idOf? {r : Registry} (h : r.Sound) {path : Path} (hp : path.IsNormal)
    {id : Nat} (hid : r.idOf? path = some id) : r.pathOf? id = some path := by
  obtain ⟨e, he, hsame⟩ := h.exists_entry_at hid
  have hpath : e.path = path := (h.normal e (List.mem_of_getElem? he)).eq_of_same hp hsame
  rw [pathOf?, he, Option.map_some, hpath]

end Registry

end ShaderWeave
