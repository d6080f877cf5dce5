/-
  What a dictionary holds once values were set.

  A dictionary is made by setting values under keys, and a key may be set again.  What it holds then
  is read off the settings, without looking at the steps between:

    * the keys are those that were set, each once, in the order in which they were first set
      (`pairwise_keys_ofList`), because `set` moves no key and appends only a new one;
    * under each key stands the value that was set last (`get?_ofList`).

  Paths see of a setting only what stands under their first key: setting another key changes nothing
  (`value?_set_of_ne`), and setting that key puts the value, with everything below it, at the
  beginning of the path (`value?_set_below`).  Beyond the first dot and at any later one, a path
  goes on in the dictionary that it has led to (`value?_eq_bind`).
-/
import Mathlib.Data.List.Induction
import ShaderWeave.Proofs.Lookup

namespace ShaderWeave

/-- Where no key stands twice, the entries are what is read under the keys. -/
theorem Entries.mem_iff_get?_eq {α β : Type} [DecidableEq α] {key : α} {value : β}
    {es : List (α × β)} (h : (es.map Prod.fst).Nodup) :
    (key, value) ∈ es ↔ get? key es = some value := by
  refine ⟨fun hmem => ?_, mem_of_get?_eq⟩
  induction es with
  | nil => cases hmem
  | cons e es ih =>
    obtain ⟨hfirst, hrest⟩ := List.nodup_cons.1 h
    rcases List.mem_cons.1 hmem with rfl | hmem
    · rw [get?, if_pos rfl]
    · have hne : e.1 ≠ key := fun he => hfirst (he ▸ List.mem_map_of_mem hmem)
      rw [get?, if_neg hne]
      exact ih hrest hmem

namespace Dictionary

/-! ## Settings

  A list of settings is read from its end: the last one is made in the dictionary of those before.
  So every statement is an induction that asks what one setting more does, and that is known from
  `set`: a key that is there keeps its place, a new one goes behind all others. -/

/-- The last setting is made in the dictionary of the others. -/
theorem ofList_concat (pairs : List (Text × Value)) (key : Text) (value : Value) :
    ofList (pairs ++ [(key, value)]) = (ofList pairs).set key value := by
  unfold ofList
  rw [List.foldl_append]
  rfl

/-- One setting more leaves the keys as they are, or appends a key that is new. -/
theorem keys_ofList_concat (pairs : List (Text × Value)) (key : Text) (value : Value) :
    (key ∈ (ofList pairs).keys ∧ (ofList (pairs ++ [(key, value)])).keys = (ofList pairs).keys) ∨
      (key ∉ (ofList pairs).keys ∧ (ofList (pairs ++ [(key, value)])).keys =
        (ofList pairs).keys ++ [key]) := by
  rw [ofList_concat]
  have hkeys := Entries.keys_set key value (ofList pairs).entries
  split at hkeys
  · next hold => exact .inl ⟨hold, hkeys⟩
  · next hnew => exact .inr ⟨hnew, hkeys⟩

/-- The keys are those that were set. -/
theorem mem_keys_ofList {pairs : List (Text × Value)} {key : Text} :
    key ∈ (ofList pairs).keys ↔ key ∈ pairs.map Prod.fst := by
  induction pairs using List.reverseRecOn with
  | nil => exact Iff.rfl
  | append_singleton pairs e ih =>
    obtain ⟨k, value⟩ := e
    rw [ofList_concat, mem_keys_set, ih, List.map_append, List.mem_append, List.map_singleton,
      List.mem_singleton]

/-- **Keys stand in the order in which they were first set.** -/
theorem pairwise_keys_ofList (pairs : List (Text × Value)) :
    (ofList pairs).keys.Pairwise fun j k =>
      (pairs.map Prod.fst).idxOf j < (pairs.map Prod.fst).idxOf k := by
  induction pairs using List.reverseRecOn with
  | nil => exact .nil
  | append_singleton pairs e ih =>
    -- A key that was set before has the first place that it had.
    have kept : ∀ j ∈ (ofList pairs).keys,
        (pairs.map Prod.fst ++ [e.1]).idxOf j = (pairs.map Prod.fst).idxOf j :=
      fun j hj => List.idxOf_append_of_mem (mem_keys_ofList.1 hj)
    have hold : (ofList pairs).keys.Pairwise fun j k =>
        (pairs.map Prod.fst ++ [e.1]).idxOf j < (pairs.map Prod.fst ++ [e.1]).idxOf k := by
      refine ih.imp_of_mem fun {j k} hj hk hlt => ?_
      rw [kept j hj, kept k hk]
      exact hlt
    rw [List.map_append, List.map_singleton]
    rcases keys_ofList_concat pairs e.1 e.2 with ⟨_, hkeys⟩ | ⟨hnew, hkeys⟩
    · rw [hkeys]
      exact hold
    · rw [hkeys]
      refine List.pairwise_append.2 ⟨hold, List.pairwise_singleton _ _, fun j hj k hk => ?_⟩
      -- A new key is set last, behind the places of all others.
      rw [List.mem_singleton.1 hk, kept j hj,
        List.idxOf_append_of_notMem (mt mem_keys_ofList.2 hnew)]
      have hlt := List.idxOf_lt_length_of_mem (mem_keys_ofList.1 hj)
      omega

/-- No key is there twice, since keys in order are different. -/
theorem nodup_keys_ofList (pairs : List (Text × Value)) : (ofList pairs).keys.Nodup := by
  refine (pairwise_keys_ofList pairs).imp fun {j k} hlt he => ?_
  rw [he] at hlt
  exact Nat.lt_irrefl _ hlt

/-- Where no key is set twice, what is set is the entries, in order. -/
theorem ofList_of_nodup {pairs : List (Text × Value)} (h : (pairs.map Prod.fst).Nodup) :
    ofList pairs = ⟨pairs⟩ := by
  induction pairs using List.reverseRecOn with
  | nil => rfl
  | append_singleton pairs e ih =>
    obtain ⟨key, value⟩ := e
    rw [List.map_append, List.map_singleton, List.nodup_append] at h
    obtain ⟨hpairs, -, hnew⟩ := h
    have hnew : key ∉ pairs.map Prod.fst :=
      fun hmem => hnew key hmem key (List.mem_singleton.2 rfl) rfl
    rw [ofList_concat, ih hpairs, set, Entries.set_of_notMem hnew]

/-- **Under a key stands the value that was set last.** -/
theorem get?_ofList (pairs : List (Text × Value)) (key : Text) :
    Entries.get? key (ofList pairs).entries = pairs.reverse.lookup key := by
  induction pairs using List.reverseRecOn with
  | nil => rfl
  | append_singleton pairs e ih =>
    obtain ⟨k, value⟩ := e
    have hset : Entries.get? key ((ofList pairs).set k value).entries =
        if k = key then some value else Entries.get? key (ofList pairs).entries :=
      Entries.get?_set k key value _
    rw [ofList_concat, hset, ih, List.reverse_append, List.reverse_singleton, List.singleton_append,
      List.lookup_cons]
    by_cases hk : k = key
    · simp [hk]
    · have hne : (key == k) = false := by simpa using fun he => hk he.symm
      simp [hk, hne]

/-! ## Paths

  What a path leads to depends on its first key alone and on what stands there; from the first dot
  on it is a path in the dictionary under that key.  So what a setting does to paths is what it does
  to one key. -/

/-- A path does not see what is set under another key than its first. -/
theorem value?_set_of_ne {path key : Text} (h : path.stem ≠ key) (d : Dictionary) (value : Value) :
    (d.set key value).value? path = d.value? path := by
  refine value?_congr ?_
  rw [set, Entries.get?_set, if_neg h.symm]

/-! A path that is the key leads to the value, and one that goes on from the key goes on in the
    value. -/

theorem value?_set_self {key : Text} (h : '.' ∉ key) (d : Dictionary) (value : Value) :
    (d.set key value).value? key = some value := by
  rw [value?_of_not_mem h, set, Entries.get?_set, if_pos rfl]

theorem value?_set_below {key : Text} (h : '.' ∉ key) (d : Dictionary) (value : Value)
    (rest : Text) :
    (d.set key value).value? (key ++ '.' :: rest) =
      match value with
      | .dictionary inner => value? ⟨inner⟩ rest
      | _ => none := by
  rw [value?_append, value?_set_self h]
  cases value <;> rfl

/-- A path goes on in the dictionary that its beginning leads to. -/
theorem value?_eq_bind (d : Dictionary) (path rest : Text) :
    d.value? (path ++ '.' :: rest) = (d.dictionary? path).bind (·.value? rest) := by
  rw [value?_append, dictionary?]
  cases d.value? path with
  | none => rfl
  | some value => cases value <;> rfl

/-- **What was set is what is held.**  However values are set, the keys are those that were set,
    each once, in the order in which they were first set, and with each key stands the value that
    was set last.  In every dictionary, setting a key changes nothing for paths that begin with
    another key; a path that is the key, if it has no dots, leads to the value, and a path that goes
    on from there leads on in the value, or nowhere if this is no dictionary.  And at whatever dot a
    path is divided, its second part is walked in the dictionary that the first part leads to; where
    the first part leads to none, the path leads nowhere. -/
theorem holds_what_was_set (pairs : List (Text × Value)) (d : Dictionary) :
    ((∀ key, key ∈ (ofList pairs).keys ↔ key ∈ pairs.map Prod.fst) ∧ (ofList pairs).keys.Nodup ∧
      (ofList pairs).keys.Pairwise fun j k =>
        (pairs.map Prod.fst).idxOf j < (pairs.map Prod.fst).idxOf k) ∧
    ((ofList pairs).entries.map Prod.fst = (ofList pairs).keys ∧
      ∀ key value, (key, value) ∈ (ofList pairs).entries ↔ pairs.reverse.lookup key = some value) ∧
    (∀ key value path, Text.stem path ≠ key → (d.set key value).value? path = d.value? path) ∧
    (∀ key value, '.' ∉ key → (d.set key value).value? key = some value ∧
      ∀ rest, (d.set key value).value? (key ++ '.' :: rest) =
        match value with
        | .dictionary inner => value? ⟨inner⟩ rest
        | _ => none) ∧
    ∀ path rest, d.value? (path ++ '.' :: rest) = (d.dictionary? path).bind (·.value? rest) := by
  refine ⟨⟨fun _ => mem_keys_ofList, nodup_keys_ofList pairs, pairwise_keys_ofList pairs⟩,
    ⟨rfl, fun key value => ?_⟩, fun key value path hne => value?_set_of_ne hne d value,
    fun key value hdot => ⟨value?_set_self hdot d value, value?_set_below hdot d value⟩,
    value?_eq_bind d⟩
  rw [Entries.mem_iff_get?_eq (nodup_keys_ofList pairs), get?_ofList]

/-- A key that is set twice, the second time to a dictionary, and one with a dot in it. -/
def setAgain : List (Text × Value) :=
  [("zeta".toList, .int 1), ("alpha".toList, .int 2), ("a.b".toList, .bool true),
    ("alpha".toList, .dictionary [("count".toList, .int 3)])]

/-- The key keeps its place and has its last value; what is set elsewhere is not seen below it. -/
theorem holds_what_was_set_setAgain :
    ("alpha".toList, .dictionary [("count".toList, .int 3)]) ∈ (ofList setAgain).entries ∧
    ((ofList setAgain).set "zeta".toList (.int 5)).value? "alpha.count".toList =
      (ofList setAgain).value? "alpha.count".toList ∧
    ((ofList setAgain).set "zeta".toList (.int 5)).value? "zeta".toList = some (.int 5) ∧
    (ofList setAgain).value? "alpha.count".toList = some (.int 3) ∧
    (ofList setAgain).keys = ["zeta".toList, "alpha".toList, "a.b".toList] := by
  obtain ⟨_, ⟨_, hlast⟩, hother, hself, hpath⟩ := holds_what_was_set setAgain (ofList setAgain)
  exact ⟨(hlast _ _).2 rfl, hother _ _ _ (by decide), (hself _ _ (by decide)).1,
    hpath "alpha".toList "count".toList, rfl⟩

end Dictionary
end ShaderWeave
