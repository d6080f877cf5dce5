/-
  Closing a scope undoes opening it.

  The alias table scatters the bindings of a scope over the stacks of their names; closing the scope
  takes one value off each of these stacks, in the order in which the names were bound, not in the
  opposite one.  Still `pop?_push` gives back the table as it was, entry by entry.

  The crux is `unbind?_comm`: it does not matter which of two names loses its innermost value first.
  So the names may as well be unbound last to first, where each `unbind?` meets the `bind` it
  undoes.  Nothing of this holds of a table that keeps a name without values; `Sound` excludes that,
  and every table made by opening scopes is sound.

  `ofScopes` is the table of a plain list of scopes, innermost first.
-/
import ShaderWeave.Aliases

namespace ShaderWeave

/-! ## Laws of entries

  A list of entries stands for a map, and what is set where matters: a key keeps the place it was
  first given.  Every law is an induction on the list with a case for each of the keys that are
  compared; where a law needs that a key has its place already, it fails for a new key, which goes
  to the end. -/

namespace Entries

variable {α β : Type} [DecidableEq α]

/-- Putting back what is there changes nothing. -/
theorem set_of_get?_eq {key : α} {value : β} {es : List (α × β)} (h : get? key es = some value) :
    set key value es = es := by
  induction es with
  | nil => cases h
  | cons e es ih =>
    obtain ⟨k, v⟩ := e
    by_cases hk : k = key
    · simp only [get?, hk, if_true, Option.some.injEq] at h
      simp [set, hk, h]
    · simp only [get?, hk, if_false] at h
      simp [set, hk, ih h]

/-- Of two values put under one key the last one stays. -/
theorem set_set (key : α) (v w : β) (es : List (α × β)) :
    set key v (set key w es) = set key v es := by
  induction es with
  | nil => simp [set]
  | cons e es ih =>
    obtain ⟨k, x⟩ := e
    by_cases hk : k = key <;> simp [set, hk, ih]

/-- Values under two keys are put in any order, if the first key has its place already. -/
theorem set_comm {key other : α} (hne : key ≠ other) (v w : β) {es : List (α × β)}
    (h : get? key es ≠ none) : set key v (set other w es) = set other w (set key v es) := by
  induction es with
  | nil => exact absurd rfl h
  | cons e es ih =>
    obtain ⟨k, x⟩ := e
    by_cases hk : k = key
    · simp [set, hk, hne]
    · simp only [get?, hk, if_false] at h
      by_cases ho : k = other
      · have hk' : ¬other = key := fun e => hne e.symm
        simp [set, ho, hk']
      · simp [set, hk, ho, ih h]

/-- Erasing one key and setting another are done in any order. -/
theorem erase_set {key other : α} (hne : key ≠ other) (w : β) (es : List (α × β)) :
    erase key (set other w es) = set other w (erase key es) := by
  induction es with
  | nil => simp [set, erase, hne.symm]
  | cons e es ih =>
    obtain ⟨k, x⟩ := e
    by_cases hk : k = key
    · simp [set, erase, hk, hne]
    · by_cases ho : k = other
      · have hk' : ¬other = key := fun e => hne e.symm
        simp [set, erase, ho, hk']
      · simp [set, erase, hk, ho, ih]

/-- Keys are erased in any order. -/
theorem erase_comm (key other : α) (es : List (α × β)) :
    erase key (erase other es) = erase other (erase key es) := by
  induction es with
  | nil => rfl
  | cons e es ih =>
    obtain ⟨k, x⟩ := e
    by_cases hk : k = key <;> by_cases ho : k = other <;> simp_all [erase]

/-- Every entry was there before, or is the new one. -/
theorem mem_set {key : α} {value : β} {es : List (α × β)} {e : α × β} (h : e ∈ set key value es) :
    e = (key, value) ∨ e ∈ es := by
  induction es with
  | nil =>
    simp only [set, List.mem_singleton] at h
    exact .inl h
  | cons e' es ih =>
    obtain ⟨k, x⟩ := e'
    by_cases hk : k = key
    · simp only [set, hk, if_true, List.mem_cons] at h
      rcases h with rfl | h
      · exact .inl rfl
      · exact .inr (List.mem_cons_of_mem _ h)
    · simp only [set, hk, if_false, List.mem_cons] at h
      rcases h with rfl | h
      · exact .inr (List.mem_cons_self ..)
      · rcases ih h with h | h
        · exact .inl h
        · exact .inr (List.mem_cons_of_mem _ h)

/-- A value that is found is an entry. -/
theorem mem_of_get?_eq {key : α} {value : β} {es : List (α × β)} (h : get? key es = some value) :
    (key, value) ∈ es := by
  induction es with
  | nil => cases h
  | cons e es ih =>
    obtain ⟨k, x⟩ := e
    by_cases hk : k = key
    · simp only [get?, hk, if_true, Option.some.injEq] at h
      simp [hk, h]
    · simp only [get?, hk, if_false] at h
      exact List.mem_cons_of_mem _ (ih h)

end Entries

namespace AliasTable

/-! ## Unbinding undoes binding

  A scope binds names in one order and unbinds them in the same one.  For two different names that
  is no matter, since their stacks are apart; for a name that is bound twice it is, and there too
  the last value goes first, because both values are on one stack. -/

/-- No name is kept without a value. -/
def Sound (values : List (Text × List Text)) : Prop := ∀ e ∈ values, e.2 ≠ []

/-- Binding a name gives it a value. -/
theorem sound_bind {values : List (Text × List Text)} (h : Sound values) (name value : Text) :
    Sound (bind values name value) := by
  unfold bind
  split
  · intro e he
    rcases Entries.mem_set he with rfl | he
    · exact List.cons_ne_nil _ _
    · exact h e he
  · intro e he
    rcases List.mem_cons.1 he with rfl | he
    · exact List.cons_ne_nil _ _
    · exact h e he

/-- So does binding several. -/
theorem sound_foldl_bind {values : List (Text × List Text)} (h : Sound values)
    (bindings : List (Text × Text)) :
    Sound (bindings.foldl (fun s b => bind s b.1 b.2) values) := by
  induction bindings generalizing values with
  | nil => exact h
  | cons b bindings ih => exact ih (sound_bind h b.1 b.2)

/-- The value that a name was bound to last is the one that it loses.  A name without other values
    loses its stack too, so the table must not have kept an empty one. -/
theorem unbind?_bind {values : List (Text × List Text)} (h : Sound values) (name value : Text) :
    unbind? (bind values name value) name = some values := by
  unfold bind
  split
  · next stack hs =>
    have hne : stack ≠ [] := h _ (Entries.mem_of_get?_eq hs)
    obtain ⟨x, stack, rfl⟩ := List.exists_cons_of_ne_nil hne
    simp [unbind?, Entries.set_set, Entries.set_of_get?_eq hs]
  · simp [unbind?, Entries.get?, Entries.erase]

/-- Unbinding a name leaves the stacks of the others alone. -/
theorem get?_of_unbind? {values values' : List (Text × List Text)} {name other : Text}
    (h : unbind? values name = some values') (hne : name ≠ other) :
    Entries.get? other values' = Entries.get? other values := by
  unfold unbind? at h
  split at h
  · cases h
    rw [Entries.get?_erase_of_ne hne]
  · cases h
    rw [Entries.get?_set, if_neg hne]
  · cases h

/-- Two names lose their innermost values in any order. -/
theorem unbind?_comm (values : List (Text × List Text)) (m n : Text) :
    (unbind? values m).bind (unbind? · n) = (unbind? values n).bind (unbind? · m) := by
  by_cases hne : m = n
  · rw [hne]
  -- Either side fails where one of the two names has no value; the other name's turn does not
  -- change that.
  have fails : ∀ a b : Text, a ≠ b → (∀ x stack, Entries.get? a values ≠ some (x :: stack)) →
      (unbind? values a).bind (unbind? · b) = (unbind? values b).bind (unbind? · a) := by
    intro a b hab ha
    have none_of : ∀ vs, Entries.get? a vs = Entries.get? a values → unbind? vs a = none := by
      intro vs hvs
      unfold unbind?
      split
      · next x h => exact absurd (hvs.symm.trans h) (ha x [])
      · next x stack _ h => exact absurd (hvs.symm.trans h) (ha x stack)
      · rfl
    rw [none_of values rfl, Option.bind_none]
    cases hb : unbind? values b with
    | none => rfl
    | some vs => exact (none_of vs (get?_of_unbind? hb (Ne.symm hab))).symm
  by_cases hm : ∃ x stack, Entries.get? m values = some (x :: stack)
  · by_cases hn : ∃ y stack, Entries.get? n values = some (y :: stack)
    · obtain ⟨x, s, hm⟩ := hm
      obtain ⟨y, t, hn⟩ := hn
      have hne' : ¬n = m := fun e => hne e.symm
      -- Four cases: either name keeps a stack, which is set, or loses its only value, and is
      -- erased.
      cases s with
      | nil =>
        cases t with
        | nil =>
          simp [unbind?, hm, hn, Entries.get?_erase_of_ne hne, Entries.get?_erase_of_ne hne',
            Entries.erase_comm n m]
        | cons z t =>
          simp [unbind?, hm, hn, Entries.get?_erase_of_ne hne, hne', Entries.erase_set hne]
      | cons w s =>
        cases t with
        | nil =>
          simp [unbind?, hm, hn, Entries.get?_erase_of_ne hne', hne, Entries.erase_set hne']
        | cons z t =>
          have placed : Entries.get? n values ≠ none := by simp [hn]
          simp [unbind?, hm, hn, hne, hne', Entries.set_comm hne' _ _ placed]
    · exact (fails n m (Ne.symm hne) fun y t h => hn ⟨y, t, h⟩).symm
  · exact fails m n hne fun x s h => hm ⟨x, s, h⟩

/-- A name loses its innermost value before or after some others. -/
theorem foldlM_unbind?_comm (names : List Text) (n : Text) (values : List (Text × List Text)) :
    (names.foldlM unbind? values).bind (unbind? · n) =
      (unbind? values n).bind fun vs => names.foldlM unbind? vs := by
  induction names generalizing values with
  | nil => simp
  | cons m names ih =>
    calc ((m :: names).foldlM unbind? values).bind (unbind? · n)
        = (unbind? values m).bind fun vs => (names.foldlM unbind? vs).bind (unbind? · n) := by
          rw [List.foldlM_cons, Option.bind_eq_bind, Option.bind_assoc]
      _ = (unbind? values m).bind fun vs =>
            (unbind? vs n).bind fun ws => names.foldlM unbind? ws := by
          simp only [ih]
      _ = ((unbind? values m).bind (unbind? · n)).bind fun ws => names.foldlM unbind? ws := by
          rw [Option.bind_assoc]
      _ = ((unbind? values n).bind (unbind? · m)).bind fun ws => names.foldlM unbind? ws := by
          rw [unbind?_comm]
      _ = (unbind? values n).bind fun vs => (m :: names).foldlM unbind? vs := by
          rw [Option.bind_assoc]
          rfl

/-- Unbinding the names of some bindings undoes all of them. -/
theorem foldlM_unbind?_foldl_bind {values : List (Text × List Text)} (h : Sound values)
    (bindings : List (Text × Text)) :
    (bindings.map Prod.fst).foldlM unbind? (bindings.foldl (fun s b => bind s b.1 b.2) values) =
      some values := by
  -- The induction takes the last binding first: `unbind?` of its name is moved to the front.
  suffices ∀ rev : List (Text × Text),
      (rev.reverse.map Prod.fst).foldlM unbind?
          (rev.reverse.foldl (fun s b => bind s b.1 b.2) values) =
        some values by simpa using this bindings.reverse
  intro rev
  induction rev with
  | nil => rfl
  | cons b rev ih =>
    simp only [List.reverse_cons, List.map_append, List.map_cons, List.map_nil, List.foldl_append,
      List.foldl_cons, List.foldl_nil, List.foldlM_append]
    have first : unbind? (bind (rev.reverse.foldl (fun s b => bind s b.1 b.2) values) b.1 b.2) b.1 =
        some (rev.reverse.foldl (fun s b => bind s b.1 b.2) values) :=
      unbind?_bind (sound_foldl_bind h _) _ _
    have last := foldlM_unbind?_comm (rev.reverse.map Prod.fst) b.1
      (bind (rev.reverse.foldl (fun s b => bind s b.1 b.2) values) b.1 b.2)
    rw [first, Option.bind_some, ih] at last
    simpa using last

/-- **Closing a scope gives back the table it was opened in.** -/
theorem pop?_push {t : AliasTable} (h : Sound t.values) (bindings : List (Text × Text)) :
    (t.push bindings).pop? = some t := by
  simp only [push, pop?]
  rw [foldlM_unbind?_foldl_bind h, Option.map_some]

/-! ## Tables of scopes

  The tables that occur are those of scopes that were opened one after the other; for them closing
  is taking the first scope off the list. -/

/-- The table in which scopes are open, innermost first. -/
def ofScopes (scopes : List (List (Text × Text))) : AliasTable :=
  scopes.foldr (fun b t => t.push b) empty

/-- Opening a scope puts it in front. -/
theorem ofScopes_cons (bindings : List (Text × Text)) (scopes : List (List (Text × Text))) :
    ofScopes (bindings :: scopes) = (ofScopes scopes).push bindings := rfl

/-- Every table made by opening scopes is sound. -/
theorem sound_ofScopes (scopes : List (List (Text × Text))) : Sound (ofScopes scopes).values := by
  induction scopes with
  | nil =>
    intro e he
    cases he
  | cons b scopes ih => exact sound_foldl_bind ih b

/-- So the innermost scope can be closed, and what is left is the table of the others. -/
theorem pop?_ofScopes_cons (bindings : List (Text × Text)) (scopes : List (List (Text × Text))) :
    (ofScopes (bindings :: scopes)).pop? = some (ofScopes scopes) :=
  pop?_push (sound_ofScopes scopes) bindings

/-- A table remembers the names of each of its scopes. -/
theorem scopes_ofScopes (scopes : List (List (Text × Text))) :
    (ofScopes scopes).scopes = scopes.map (·.map Prod.fst) := by
  induction scopes with
  | nil => rfl
  | cons b scopes ih =>
    show b.map Prod.fst :: (ofScopes scopes).scopes = _
    rw [ih, List.map_cons]

end AliasTable
end ShaderWeave
