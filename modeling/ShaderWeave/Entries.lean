/-
  Ordered entries: a list of keys with values in which a key keeps the position it first had.

  `set` replaces the value of a key that is present and appends one that is not, `erase` takes a key
  away; reading is the first match.  Beside them stand their laws: what is read after a `set` or an
  `erase`, and what a `set` does to the keys; a `set` of a new key is an append.
-/

namespace ShaderWeave.Entries

variable {α β : Type} [DecidableEq α]

/-- The value under a key. -/
def get? (key : α) : List (α × β) → Option β
  | [] => none
  | (k, v) :: rest => if k = key then some v else get? key rest

/-- Puts a value under a key, in the key's place if it has one and at the end otherwise. -/
def set (key : α) (value : β) : List (α × β) → List (α × β)
  | [] => [(key, value)]
  | (k, v) :: rest => if k = key then (k, value) :: rest else (k, v) :: set key value rest

/-- Takes a key and its value away. -/
def erase (key : α) : List (α × β) → List (α × β)
  | [] => []
  | (k, v) :: rest => if k = key then rest else (k, v) :: erase key rest

@[simp] theorem get?_set (key other : α) (value : β) (es : List (α × β)) :
    get? other (set key value es) = if key = other then some value else get? other es := by
  induction es with
  | nil => simp [set, get?]
  | cons e es ih =>
    obtain ⟨k, v⟩ := e
    by_cases h : k = key
    · subst h; by_cases h' : k = other <;> simp [set, get?, h']
    · by_cases h' : k = other
      · subst h'
        have h' : ¬key = k := fun e => h e.symm
        simp [set, get?, h, h']
      · simp [set, get?, h, h', ih]

/-- Erasing a key leaves the others alone. -/
theorem get?_erase_of_ne {key other : α} (h : key ≠ other) (es : List (α × β)) :
    get? other (erase key es) = get? other es := by
  induction es with
  | nil => rfl
  | cons e es ih =>
    obtain ⟨k, v⟩ := e
    by_cases hk : k = key
    · subst hk; simp [erase, get?, h]
    · simp [erase, get?, hk, ih]

/-- The keys after a `set`: the same, with a new key at the end. -/
theorem keys_set (key : α) (value : β) (es : List (α × β)) :
    (set key value es).map Prod.fst =
      if key ∈ es.map Prod.fst then es.map Prod.fst else es.map Prod.fst ++ [key] := by
  induction es with
  | nil => simp [set]
  | cons e es ih =>
    obtain ⟨k, v⟩ := e
    by_cases h : k = key
    · subst h; simp [set]
    · have h' : ¬key = k := fun e => h e.symm
      simp only [set, h, if_false, List.map_cons, ih, List.mem_cons, h', false_or]
      split <;> simp

/-- A key that is new is put at the end. -/
theorem set_of_notMem {key : α} {es : List (α × β)} (h : key ∉ es.map Prod.fst) (value : β) :
    set key value es = es ++ [(key, value)] := by
  induction es with
  | nil => rfl
  | cons e es ih =>
    obtain ⟨k, v⟩ := e
    simp only [List.map_cons, List.mem_cons, not_or] at h
    have hne : ¬k = key := fun he => h.1 he.symm
    rw [set, if_neg hne, ih h.2]
    rfl

end ShaderWeave.Entries
