/-
  Every tracked file is watched once.

  A watcher is handed a path in three places: when it is attached, it is handed every file that is
  tracked by then; later, a file that is tracked when it is registered, and a file that was
  registered without being tracked and now is.  The watcher must miss no file and get none twice,
  over any order of includes with and without tracking, passes that fail, and watchers that replace
  each other.

    * **Who is tracked** (`knows_ofHistory_iff`) — the files that some use of the registry asked to
      track (`Tracks`): as a root, or by an include that was executed and does not say otherwise.
    * **Who is told** (`WatchedBy`) — with a watcher attached, what was written to the journal since
      then names this watcher only, and each entry as often as it is tracked: once or never.

  Both are invariants of the history.  For the second a registration is looked at in its three cases
  (`register_cases`).
-/
import ShaderWeave.Proofs.Identity

namespace ShaderWeave

/-- The event hands the path to a watcher. -/
def Event.watches (path : Path) : Event → Bool
  | .watch _ p => p.same path
  | .call _ => false

namespace Registry

/-! ## Who is tracked

  A file is tracked once it is registered with that wish, and ever after.  That this is all is a
  statement about histories, put together from what each kind of use does. -/

/-- What is done to the registry asks for the file to be tracked: by name; or by a pass of which it
    is the root, or in which an include that is executed asks for it. -/
def Tracks (r : Registry) : Use → Path → Prop
  | .register path track, file => track = true ∧ path.same file = true
  | .process settings, file =>
    ∃ path, path.same file = true ∧
      ((settings.source.find? settings.job.root).isSome = true ∧ path = settings.job.root ∨
        ∃ p, Pass.Reached settings.job r p ∧ Pass.Enters settings.job p path true)
  | _, _ => False

/-- Said of the files that a use registers: one of them is this file, and is to be tracked. -/
theorem tracks_iff {r : Registry} {u : Use} {file : Path} :
    r.Tracks u file ↔ ∃ v ∈ r.registers u, v.2 = true ∧ v.1.same file = true := by
  cases u with
  | register path track =>
    constructor
    · intro h
      exact ⟨(path, track), List.mem_singleton.2 rfl, h⟩
    · rintro ⟨v, hmem, h⟩
      rw [List.mem_singleton.1 hmem] at h
      exact h
  -- A pass registers the root, and what its states enter.
  | process settings =>
    constructor
    · rintro ⟨path, hs, hroot | hentered⟩
      · exact ⟨(path, true), Pass.mem_entered_iff.2 (.inl ⟨hroot.1, hroot.2, rfl⟩), rfl, hs⟩
      · exact ⟨(path, true), Pass.mem_entered_iff.2 (.inr hentered), rfl, hs⟩
    · rintro ⟨⟨path, track⟩, hmem, ht, hs⟩
      cases ht
      rcases Pass.mem_entered_iff.1 hmem with ⟨hroot, hpath, _⟩ | hentered
      · exact ⟨path, hs, .inl ⟨hroot, hpath⟩⟩
      · exact ⟨path, hs, .inr hentered⟩
  | attach watcher => exact ⟨False.elim, fun ⟨_, hmem, _⟩ => nomatch hmem⟩
  | setCallback callback => exact ⟨False.elim, fun ⟨_, hmem, _⟩ => nomatch hmem⟩
  | notify => exact ⟨False.elim, fun ⟨_, hmem, _⟩ => nomatch hmem⟩

section Tracking

variable {r : Registry} {path file : Path} {e : FileEntry}

/-- Spellings of one path are known alike. -/
theorem Knows.of_same {track : Bool} (h : r.Knows path track) (hs : path.same file = true) :
    r.Knows file track := by
  obtain ⟨id, e, hid, he, ht⟩ := h
  exact ⟨id, e, by rwa [idOf?, ← Path.same_iff.1 hs], he, ht⟩

/-- Tracking an entry adds the file of the entry to those that are tracked. -/
theorem Indexed.knows_setTracked_iff (h : r.Indexed) {id : Nat} (hid : r.idOf? path = some id) :
    (r.setTracked id).Knows file true ↔ r.Knows file true ∨ path.same file = true := by
  obtain ⟨e₀, he₀, hs₀⟩ := h.exists_entry_at hid
  constructor
  · rintro ⟨i, e, hi, he, ht⟩
    rw [idOf?_setTracked] at hi
    rw [getElem?_setTracked, Option.map_eq_some_iff] at he
    obtain ⟨e', he', rfl⟩ := he
    by_cases heq : id = i
    · subst heq
      obtain ⟨a, ha, hs⟩ := h.exists_entry_at hi
      rw [he₀] at ha
      cases ha
      exact .inr (Path.same_trans (Path.same_symm hs₀) hs)
    · rw [if_neg heq] at ht
      exact .inl ⟨i, e', hi, he', ht⟩
  · rintro (⟨i, e, hi, he, ht⟩ | hs)
    · obtain ⟨e', he', _, hkept⟩ := keeps_setTracked r id i e he
      exact ⟨i, e', hi, he', fun _ => hkept (ht rfl)⟩
    · have hknown : (r.setTracked id).Knows path true :=
        ⟨id, e₀.track, hid, by rw [getElem?_setTracked_of_some he₀, if_pos rfl], fun _ => rfl⟩
      exact hknown.of_same hs

/-- A new entry adds its file, if the entry is tracked. -/
theorem Indexed.knows_append_iff (h : r.Indexed) (hid : r.idOf? path = none) {track : Bool} :
    (r.append path track).Knows file true ↔
      r.Knows file true ∨ track = true ∧ path.same file = true := by
  have hlast : (r.append path track).entries[r.entries.length]? =
      some ⟨path, r.entries.length, track⟩ :=
    List.getElem?_concat_length
  constructor
  · rintro ⟨i, e, hi, he, ht⟩
    rw [idOf?_append] at hi
    split at hi
    · next hs =>
      cases hi
      rw [hlast] at he
      cases he
      exact .inr ⟨ht rfl, Path.same_iff.2 hs⟩
    · obtain ⟨a, ha, _⟩ := h.exists_entry_at hi
      rw [Registry.append, List.getElem?_append_left (List.getElem?_eq_some_iff.1 ha).1] at he
      exact .inl ⟨i, e, hi, he, ht⟩
  · rintro (⟨i, e, hi, he, ht⟩ | ⟨ht, hs⟩)
    · obtain ⟨e', he', _, hkept⟩ := keeps_append r path track i e he
      exact ⟨i, e', idOf?_append_of_some hid hi track, he', fun _ => hkept (ht rfl)⟩
    · have hknown : (r.append path track).Knows path true :=
        ⟨r.entries.length, _, by rw [idOf?_append, if_pos rfl], hlast, fun _ => ht⟩
      exact hknown.of_same hs

/-- A file is tracked after a registration if it was before, or if it is registered to be. -/
theorem knows_register_iff (h : r.Indexed) {track : Bool} :
    (r.register path track).1.Knows file true ↔
      r.Knows file true ∨ track = true ∧ path.same file = true := by
  rcases register_cases r path track with
    ⟨id, hid, htracked, hr⟩ | ⟨id, _, hid, _, _, ht, hr⟩ | ⟨hid, hr⟩
  · rw [hr]
    refine ⟨.inl, ?_⟩
    rintro (hold | ⟨ht, hs⟩)
    · exact hold
    · -- The file has an entry, and it was tracked before.
      obtain ⟨e, he, _⟩ := h.exists_entry_at hid
      have hknown : r.Knows path true := ⟨id, e, hid, he, fun _ => htracked e he ht⟩
      exact hknown.of_same hs
  · rw [hr, knows_watch, h.knows_setTracked_iff hid]
    simp only [ht, true_and]
  · rw [hr, ← h.knows_append_iff hid]
    split
    · exact knows_watch
    · exact Iff.rfl

/-! The same of any number of registrations, and of whatever is done to the registry: it registers
    files, or it changes neither entries nor index. -/

theorem knows_registerAll_iff (h : r.Indexed) {visits : List (Path × Bool)} :
    (r.registerAll visits).Knows file true ↔
      r.Knows file true ∨ ∃ v ∈ visits, v.2 = true ∧ v.1.same file = true := by
  induction visits generalizing r with
  | nil => simp [registerAll]
  | cons v visits ih =>
    show ((r.register v.1 v.2).1.registerAll visits).Knows file true ↔ _
    rw [ih (h.register v.1 v.2), knows_register_iff h, or_assoc]
    simp only [List.mem_cons, exists_eq_or_imp]

theorem knows_use_iff (h : r.Indexed) {u : Use} :
    (r.use u).Knows file true ↔ r.Knows file true ∨ r.Tracks u file := by
  rw [tracks_iff, ← knows_registerAll_iff h]
  obtain ⟨hentries, hindex⟩ := entries_use r u
  unfold Knows idOf?
  rw [hentries, hindex]

/-- **A file is tracked exactly where something done to the registry asked for it**, by induction on
    the history from its end: the last use asked for it, or it was tracked before. -/
theorem knows_ofHistory_iff (history : List Use) :
    (ofHistory history).Knows file true ↔
      ∃ before u, before ++ [u] <+: history ∧ (ofHistory before).Tracks u file := by
  induction history using List.reverseRecOn with
  | nil =>
    constructor
    · rintro ⟨_, _, hid, _⟩
      cases hid
    · rintro ⟨before, u, hp, _⟩
      have := hp.length_le
      simp at this
  | append_singleton history u ih =>
    rw [ofHistory_append, knows_use_iff (indexed_ofHistory history), ih]
    constructor
    · rintro (⟨before, u', hp, ht⟩ | ht)
      · exact ⟨before, u', hp.trans (List.prefix_append _ _), ht⟩
      · exact ⟨history, u, List.prefix_rfl, ht⟩
    · rintro ⟨before, u', hp, ht⟩
      rcases List.prefix_concat_iff.1 hp with he | hp
      · obtain ⟨rfl, hu⟩ := List.append_inj' he rfl
        cases hu
        exact .inr ht
      · exact .inl ⟨before, u', hp, ht⟩

/-- An entry is tracked where its path is known to be: the index leads from the path to this
    entry. -/
theorem Indexed.tracked_iff (h : r.Indexed) (he : e ∈ r.entries) :
    e.tracked = true ↔ r.Knows e.path true := by
  obtain ⟨i, hi⟩ := List.mem_iff_getElem?.1 he
  have hid := h.idOf?_path hi
  constructor
  · intro ht
    exact ⟨i, e, hid, hi, fun _ => ht⟩
  · rintro ⟨j, e', hj, he', ht⟩
    rw [hid] at hj
    cases hj
    rw [hi] at he'
    cases he'
    exact ht rfl

end Tracking

/-! ## Who is told

  A watcher that is attached is told all tracked files at once, and later ones as they come to be
  tracked.  `TellsOnce` counts what it was told: each tracked file once, and nothing else. -/

/-! A watcher that is attached is told, and where there is none nothing happens. -/

theorem watch_of_watcher {r : Registry} {w : Text} (h : r.watcher = some w) (path : Path) :
    r.watch path = { r with journal := .watch w path :: r.journal } := by
  rw [watch, h]

theorem watch_of_none {r : Registry} (h : r.watcher = none) (path : Path) : r.watch path = r := by
  rw [watch, h]

/-- The events hand every tracked entry to the watcher, once, and hand nothing else to anyone. -/
structure TellsOnce (w : Text) (entries : List FileEntry) (told : List Event) : Prop where
  /-- Only this watcher is told, and only of tracked entries. -/
  only : ∀ w' path, .watch w' path ∈ told →
    w' = w ∧ ∃ e ∈ entries, e.tracked = true ∧ e.path.same path = true
  /-- Of a tracked entry it is told once, of any other never. -/
  once : ∀ e ∈ entries, told.countP (·.watches e.path) = if e.tracked then 1 else 0

namespace TellsOnce

variable {w : Text} {r : Registry} {told : List Event} {path : Path} {e : FileEntry}

/-- Of entries with different paths, one has the path of `e`. -/
theorem countP_tracked {entries : List FileEntry}
    (h : entries.Pairwise fun a b => a.path.same b.path = false) (he : e ∈ entries) :
    entries.countP (fun a => a.path.same e.path && a.tracked) = if e.tracked then 1 else 0 := by
  induction entries with
  | nil => cases he
  | cons a entries ih =>
    obtain ⟨hhead, htail⟩ := List.pairwise_cons.1 h
    -- The entry itself is counted if it is tracked, and no later one has its path.
    rcases List.mem_cons.1 he with rfl | he
    · have hzero : entries.countP (fun a => a.path.same e.path && a.tracked) = 0 := by
        rw [List.countP_eq_zero]
        intro b hb hs
        rw [Bool.and_eq_true] at hs
        have := Path.same_symm hs.1
        rw [hhead b hb] at this
        cases this
      rw [List.countP_cons, hzero, Path.same_refl]
      simp
    · rw [List.countP_cons, ih htail he, hhead e he]
      simp

/-- A watcher that is attached is handed every tracked entry. -/
theorem attach (h : r.Indexed) (w : Text) :
    TellsOnce w r.entries
      ((r.entries.filter (·.tracked)).map fun e => Event.watch w e.path).reverse where
  only := by
    intro w' path hmem
    rw [List.mem_reverse, List.mem_map] at hmem
    obtain ⟨e, he, heq⟩ := hmem
    cases heq
    rw [List.mem_filter] at he
    exact ⟨rfl, e, he.1, he.2, Path.same_refl _⟩
  once := by
    intro e he
    rw [List.countP_reverse, List.countP_map, List.countP_filter]
    exact countP_tracked h.distinct he

/-- What is told to a callback is not told to a watcher. -/
theorem call (h : TellsOnce w r.entries told) (tag : Text) :
    TellsOnce w r.entries (.call tag :: told) where
  only := by
    intro w' path hmem
    rcases List.mem_cons.1 hmem with heq | hmem
    · cases heq
    · exact h.only w' path hmem
  once := by
    intro e he
    rw [List.countP_cons, h.once e he]
    rfl

/-- An entry that was not tracked is handed to the watcher now. -/
theorem upgrade (h : TellsOnce w r.entries told) (hr : r.Indexed) {id : Nat}
    (hid : r.idOf? path = some id) (he : r.entries[id]? = some e) (ht : e.tracked = false) :
    TellsOnce w (r.setTracked id).entries (.watch w path :: told) := by
  obtain ⟨e₀, he₀, hs⟩ := hr.exists_entry_at hid
  rw [he] at he₀
  cases he₀
  constructor
  · intro w' path' hmem
    rcases List.mem_cons.1 hmem with heq | hmem
    · cases heq
      have hnow : (r.setTracked id).entries[id]? = some e.track := by
        rw [getElem?_setTracked_of_some he, if_pos rfl]
      exact ⟨rfl, e.track, List.mem_of_getElem? hnow, rfl, hs⟩
    · obtain ⟨hw, a, ha, hta, hsa⟩ := h.only w' path' hmem
      obtain ⟨i, hi⟩ := List.mem_iff_getElem?.1 ha
      obtain ⟨a', ha', hpath, hkept⟩ := keeps_setTracked r id i a hi
      exact ⟨hw, a', List.mem_of_getElem? ha', hkept hta, by rw [hpath]; exact hsa⟩
  · intro a' ha'
    obtain ⟨i, hi⟩ := List.mem_iff_getElem?.1 ha'
    rw [getElem?_setTracked, Option.map_eq_some_iff] at hi
    obtain ⟨a, ha, rfl⟩ := hi
    by_cases heq : id = i
    · -- This one: not told of before, and told of now.
      subst heq
      rw [he] at ha
      cases ha
      rw [if_pos rfl, FileEntry.path_track, List.countP_cons, h.once e (List.mem_of_getElem? he),
        ht, Event.watches, Path.same_symm hs]
      rfl
    · have hother : path.same a.path = false := by
        rw [← Bool.not_eq_true]
        intro hsa
        exact heq (hr.position_eq he ha (Path.same_trans hs hsa))
      rw [if_neg heq, List.countP_cons, h.once a (List.mem_of_getElem? ha), Event.watches, hother]
      rfl

/-- A path of which there is no entry was handed to nobody. -/
theorem countP_eq_zero (h : TellsOnce w r.entries told)
    (hnew : ∀ e ∈ r.entries, e.path.same path = false) : told.countP (·.watches path) = 0 := by
  rw [List.countP_eq_zero]
  intro event hmem hs
  cases event with
  | call tag => cases hs
  | watch w' path' =>
    obtain ⟨_, e, he, _, hs'⟩ := h.only w' path' hmem
    have := hnew e he
    rw [Path.same_trans hs' hs] at this
    cases this

/-- A new entry is handed to the watcher if it is tracked. -/
theorem append (h : TellsOnce w r.entries told) (hnew : ∀ e ∈ r.entries, e.path.same path = false)
    (track : Bool) :
    TellsOnce w (r.append path track).entries (if track then .watch w path :: told else told) := by
  have hother : ∀ e ∈ r.entries, path.same e.path = false := by
    intro e he
    rw [← hnew e he, Path.same, Path.same]
    exact Bool.beq_comm
  -- Whoever was told is told of an entry that is there still.
  have old : ∀ {w' path'}, .watch w' path' ∈ told → w' = w ∧
      ∃ e ∈ (r.append path track).entries, e.tracked = true ∧ e.path.same path' = true := by
    intro w' path' hmem
    obtain ⟨hw, e, he, ht, hs⟩ := h.only w' path' hmem
    exact ⟨hw, e, List.mem_append_left _ he, ht, hs⟩
  cases track with
  | false =>
    refine ⟨fun w' path' => old, fun e he => ?_⟩
    rcases List.mem_append.1 he with he | he
    · exact h.once e he
    · rw [List.mem_singleton.1 he]
      exact h.countP_eq_zero hnew
  | true =>
    refine ⟨fun w' path' hmem => ?_, fun e he => ?_⟩
    · rcases List.mem_cons.1 hmem with heq | hmem
      · cases heq
        exact ⟨rfl, _, List.mem_append_right _ (List.mem_singleton.2 rfl), rfl, Path.same_refl _⟩
      · exact old hmem
    · rw [if_pos rfl, List.countP_cons, Event.watches]
      rcases List.mem_append.1 he with he | he
      · rw [h.once e he, hother e he]
        rfl
      · rw [List.mem_singleton.1 he, h.countP_eq_zero hnew, Path.same_refl]
        rfl

end TellsOnce

/-- The watcher is attached, and since the journal was `old` it was handed every tracked entry
    once. -/
structure WatchedBy (w : Text) (old : List Event) (r : Registry) : Prop where
  attached : r.watcher = some w
  told : ∃ told, r.journal = told ++ old ∧ TellsOnce w r.entries told

namespace WatchedBy

variable {w : Text} {old : List Event} {r : Registry}

/-- A registration keeps this, in each of its three ways. -/
theorem register (h : WatchedBy w old r) (hr : r.Indexed) (path : Path) (track : Bool) :
    WatchedBy w old (r.register path track).1 := by
  obtain ⟨told, hj, htold⟩ := h.told
  rcases register_cases r path track with
    ⟨_, _, _, heq⟩ | ⟨id, e, hid, he, ht, _, heq⟩ | ⟨hid, heq⟩
  · rw [heq]
    exact h
  · rw [heq, watch_of_watcher (r := r.setTracked id) h.attached]
    exact ⟨h.attached, .watch w path :: told, congrArg (Event.watch w path :: ·) hj,
      htold.upgrade hr hid he ht⟩
  · have hnew := htold.append (hr.same_eq_false_of_idOf? hid) track
    rw [heq]
    cases track with
    | false => exact ⟨h.attached, told, hj, hnew⟩
    | true =>
      rw [if_pos rfl, watch_of_watcher (r := r.append path true) h.attached]
      exact ⟨h.attached, .watch w path :: told, congrArg (Event.watch w path :: ·) hj, hnew⟩

/-- A callback that is run keeps it, too. -/
theorem notify (h : WatchedBy w old r) : WatchedBy w old r.notify := by
  obtain ⟨told, hj, htold⟩ := h.told
  unfold Registry.notify
  split
  · exact h
  · next c _ =>
    exact ⟨h.attached, .call c.tag :: told, congrArg (Event.call c.tag :: ·) hj, htold.call c.tag⟩

end WatchedBy

/-- Without a watcher, nobody is told of a file. -/
structure Unwatched (r : Registry) : Prop where
  detached : r.watcher = none
  silent : ∀ w path, .watch w path ∉ r.journal

namespace Unwatched

variable {r : Registry}

/-! Registering a file tells nobody, and neither does running a callback. -/

theorem register (h : Unwatched r) (path : Path) (track : Bool) :
    Unwatched (r.register path track).1 := by
  rcases register_cases r path track with ⟨_, _, _, heq⟩ | ⟨id, _, _, _, _, _, heq⟩ | ⟨_, heq⟩
  · rw [heq]
    exact h
  · rw [heq, watch_of_none (r := r.setTracked id) h.detached]
    exact ⟨h.detached, h.silent⟩
  · rw [heq, watch_of_none (r := r.append path track) h.detached, ite_self]
    exact ⟨h.detached, h.silent⟩

theorem notify (h : Unwatched r) : Unwatched r.notify := by
  unfold Registry.notify
  split
  · exact h
  · refine ⟨h.detached, fun w path hmem => ?_⟩
    rcases List.mem_cons.1 hmem with heq | hmem
    · cases heq
    · exact h.silent w path hmem

end Unwatched

/-! ## Between two watchers

  A history is cut where the watcher is attached: what was told before is kept as it is, and what is
  told from there on, up to the next watcher, is told to this one. -/

/-- What registering files and running the callback keeps is kept as long as no watcher is
    attached. -/
theorem foldl_use_induct {P : Registry → Prop}
    (hregister : ∀ r path track, P r → P (r.register path track).1)
    (hcallback : ∀ r callback, P r → P (r.setCallback callback)) (hnotify : ∀ r, P r → P r.notify)
    {r : Registry} (hr : P r) {later : List Use} (hn : ∀ w, .attach w ∉ later) :
    P (later.foldl use r) := by
  have registerAll : ∀ (visits : List (Path × Bool)) (r : Registry), P r →
      P (r.registerAll visits) := by
    intro visits
    induction visits with
    | nil => exact fun r hr => hr
    | cons v visits ih => exact fun r hr => ih _ (hregister r v.1 v.2 hr)
  induction later generalizing r with
  | nil => exact hr
  | cons u later ih =>
    refine ih ?_ fun w hmem => hn w (List.mem_cons_of_mem _ hmem)
    cases u with
    | register path track => exact hregister r path track hr
    | attach w => exact absurd List.mem_cons_self (hn w)
    | setCallback callback => exact hcallback r callback hr
    | notify => exact hnotify r hr
    | process settings =>
      rw [use_process]
      exact registerAll _ r hr

/-- From the time it is attached, a watcher is handed every tracked entry once. -/
theorem watchedBy_ofHistory (before : List Use) (w : Text) {later : List Use}
    (hn : ∀ w', .attach w' ∉ later) :
    WatchedBy w (ofHistory before).journal (ofHistory (before ++ .attach w :: later)) := by
  have hbefore := indexed_ofHistory before
  have hattach : WatchedBy w (ofHistory before).journal ((ofHistory before).attach w) :=
    ⟨rfl, _, rfl, TellsOnce.attach hbefore w⟩
  -- Both invariants together: that an entry is told of once needs that no path has two entries.
  have hlater : (ofHistory (before ++ .attach w :: later)).Indexed ∧
      WatchedBy w (ofHistory before).journal (ofHistory (before ++ .attach w :: later)) := by
    rw [ofHistory, List.foldl_append]
    refine foldl_use_induct (P := fun r => r.Indexed ∧ WatchedBy w (ofHistory before).journal r)
      ?_ ?_ ?_ ⟨hbefore.use (.attach w), hattach⟩ hn
    · intro r path track hr
      exact ⟨hr.1.register path track, hr.2.register hr.1 path track⟩
    · intro r callback hr
      exact ⟨hr.1.of_eq rfl rfl, hr.2.attached, hr.2.told⟩
    · intro r hr
      exact ⟨hr.1.of_eq (entries_notify r) (index_notify r), hr.2.notify⟩
  exact hlater.2

/-- **Every tracked file is watched once.**  After every history an entry is tracked exactly where
    its file was asked to be tracked: entered as a root or by an include that was executed and does
    not opt out.  The watcher that was attached last was handed each tracked entry once since then,
    and no entry that is not tracked; no other watcher was handed anything since then; and without a
    watcher nobody was. -/
theorem watched_once (history : List Use) :
    (∀ e ∈ (ofHistory history).entries, e.tracked = true ↔
      ∃ before u, before ++ [u] <+: history ∧ (ofHistory before).Tracks u e.path) ∧
    (∀ before w later, history = before ++ .attach w :: later → (∀ w', .attach w' ∉ later) →
      ∃ told, (ofHistory history).journal = told ++ (ofHistory before).journal ∧
        TellsOnce w (ofHistory history).entries told) ∧
    ((∀ w, .attach w ∉ history) → ∀ w path, .watch w path ∉ (ofHistory history).journal) := by
  refine ⟨fun e he => ?_, ?_, fun hn => ?_⟩
  · rw [(indexed_ofHistory history).tracked_iff he]
    exact knows_ofHistory_iff history
  · rintro before w later rfl hn
    exact (watchedBy_ofHistory before w hn).told
  · have hempty : Unwatched {} := ⟨rfl, fun _ _ => List.not_mem_nil⟩
    have hafter : Unwatched (ofHistory history) :=
      foldl_use_induct (fun r path track hr => hr.register path track)
        (fun r callback hr => ⟨hr.detached, hr.silent⟩) (fun r hr => hr.notify) hempty hn
    exact hafter.silent

/-- A root that includes a file, with or without tracking. -/
def includes (mode : Text) : Preprocessor where
  filename := ⟨"/main".toList⟩
  dictionary := .empty
  config := {}
  source := (Memory.ofList
    [(⟨"/main".toList⟩, .text ("#include \"part\"".toList ++ mode)),
     (⟨"/part".toList⟩, .text "int a;\n".toList)]).source
  registry := {}

/-- The file is included without tracking, a watcher is attached, and the file is included again. -/
def trackedLater : List Use :=
  [.process (includes " :notrack".toList), .attach "w".toList, .process (includes [])]

/-- The watcher was told of the root when it was attached, and of the included file when this was
    tracked. -/
theorem ofHistory_trackedLater : ofHistory trackedLater =
    { entries := [⟨⟨"/main".toList⟩, 0, true⟩, ⟨⟨"/part".toList⟩, 1, true⟩]
      index := [([.root, .name "main".toList], 0), ([.root, .name "part".toList], 1)]
      watcher := some "w".toList
      journal := [.watch "w".toList ⟨"/part".toList⟩, .watch "w".toList ⟨"/main".toList⟩] } := by
  -- After the first pass the included file is known but not tracked,
  let untracked : Registry := (append {} ⟨"/main".toList⟩ true).append ⟨"/part".toList⟩ false
  have first : Pass.after (includes " :notrack".toList).job 5
      (Pass.start (includes " :notrack".toList).job {}) = .stop ⟨untracked, .ok _⟩ := rfl
  have hfirst : use {} (.process (includes " :notrack".toList)) = untracked :=
    congrArg Outcome.registry (Pass.process_of_after 5 first)
  -- and the second pass finds it under its number and tracks it.
  have second : Pass.after (includes []).job 5
      (Pass.start (includes []).job (untracked.attach "w".toList)) =
      .stop ⟨((untracked.attach "w".toList).setTracked 1).watch ⟨"/part".toList⟩, .ok _⟩ := rfl
  show use (attach (use {} (.process (includes " :notrack".toList))) "w".toList)
    (.process (includes [])) = _
  rw [hfirst]
  exact congrArg Outcome.registry (Pass.process_of_after 5 second)

/-- In that history both files end as tracked, the second by the last pass, and the watcher was told
    of each once. -/
theorem watched_once_trackedLater :
    (∀ w', .attach w' ∉ [Use.process (includes [])]) ∧
    (∃ told, [.watch "w".toList ⟨"/part".toList⟩, .watch "w".toList ⟨"/main".toList⟩] =
        told ++ (ofHistory [.process (includes " :notrack".toList)]).journal ∧
      TellsOnce "w".toList [⟨⟨"/main".toList⟩, 0, true⟩, ⟨⟨"/part".toList⟩, 1, true⟩] told) ∧
    ∃ before u, before ++ [u] <+: trackedLater ∧ (ofHistory before).Tracks u ⟨"/part".toList⟩ := by
  have later : ∀ w', .attach w' ∉ [Use.process (includes [])] :=
    fun w' hmem => nomatch List.mem_singleton.1 hmem
  obtain ⟨tracked, told, _⟩ := watched_once trackedLater
  have told := told [.process (includes " :notrack".toList)] "w".toList
    [.process (includes [])] rfl later
  rw [ofHistory_trackedLater] at tracked told
  exact ⟨later, told, (tracked ⟨⟨"/part".toList⟩, 1, true⟩ (by simp)).1 rfl⟩

end Registry
end ShaderWeave
