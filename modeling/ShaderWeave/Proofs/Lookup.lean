/-
  Laws of looking names up.

  A dotted path is a text that is cut at its dots; walking it is walking its first part and then its
  second (`Dictionary.value?_append`), and where it leads depends on nothing but what stands under
  its first part, its *stem* (`Dictionary.value?_congr`).  So a path `collection.key` leads to what
  the collection holds under the key, as long as the key has no dots itself
  (`Environment.value?_key`).

  A name that loops bind means what the innermost scope with this name binds it to, the last binding
  of the scope first (`AliasTable.get?_push`).  What a token is then replaced by: the key between
  its quotes (`Environment.expand_key`), or the text of the value that the path leads to
  (`Environment.expand_value`).

  Ranges go by names that tell both bounds (`Range.name_injective`).
-/
import Mathlib.Data.List.TakeWhile
import ShaderWeave.Proofs.Canonical
import ShaderWeave.Proofs.Positions

namespace ShaderWeave

/-! ## Paths

  A path is cut at its dots and walked key by key.  The lemmas here say what depends on the first
  key only, what on the rest, and where walking can be cut in two. -/

namespace Text

/-- The part of a path before its first dot. -/
def stem (path : Text) : Text := path.takeWhile (· ≠ '.')

/-- A text without the separator is one piece. -/
theorem splitOn_of_not_mem {c : Char} {t : Text} (h : c ∉ t) : t.splitOn c = [t] := by
  refine List.splitOnP_eq_singleton fun d hd => ?_
  have hne : d ≠ c := fun e => h (e ▸ hd)
  simpa using hne

/-- Splitting at dots begins with the stem. -/
theorem exists_splitOn_eq_stem (path : Text) : ∃ more, path.splitOn '.' = stem path :: more := by
  induction path with
  | nil => exact ⟨[], rfl⟩
  | cons c path ih =>
    by_cases hc : c = '.'
    · subst hc
      exact ⟨_, splitOn_cons_self '.' path⟩
    · obtain ⟨more, hmore⟩ := ih
      refine ⟨more, ?_⟩
      rw [splitOn_cons_of_ne hc, hmore, List.modifyHead_cons, stem, stem,
        List.takeWhile_cons_of_pos (by simpa using hc)]

/-- The stem is not changed by what follows a dot. -/
theorem stem_append {a b : Text} (hb : b = [] ∨ b.head? = some '.') : stem (a ++ b) = stem a := by
  induction a with
  | nil =>
    rcases hb with rfl | hb
    · rfl
    · cases b with
      | nil => rfl
      | cons c b =>
        cases hb
        rfl
  | cons c a ih =>
    unfold stem at ih ⊢
    rw [List.cons_append, List.takeWhile_cons, List.takeWhile_cons, ih]

/-- A key without dots is its own stem. -/
theorem stem_of_not_mem {t : Text} (h : '.' ∉ t) : stem t = t := by
  refine List.takeWhile_eq_self_iff.2 fun c hc => ?_
  have hne : c ≠ '.' := fun e => h (e ▸ hc)
  simpa using hne

end Text

/-- Something stands under every key. -/
theorem Entries.exists_get?_of_mem_keys {α β : Type} [DecidableEq α] {key : α} {es : List (α × β)}
    (h : key ∈ es.map Prod.fst) : ∃ value, get? key es = some value := by
  induction es with
  | nil => cases h
  | cons e es ih =>
    rw [get?]
    split
    · exact ⟨e.2, rfl⟩
    · next hne => exact ih ((List.mem_cons.1 h).resolve_left fun he => hne he.symm)

namespace Dictionary

/-- A walk of more than one key goes on in the dictionary under the first. -/
theorem follow_cons (key : Text) {more : List Text} (h : more ≠ []) (es : List (Text × Value)) :
    follow (key :: more) es =
      match Entries.get? key es with
      | some (.dictionary inner) => follow more inner
      | _ => none := by
  cases more with
  | nil => exact absurd rfl h
  | cons m more => rfl

/-- Keys are walked one after the other. -/
theorem follow_append {ks ms : List Text} (hk : ks ≠ []) (hm : ms ≠ []) (es : List (Text × Value)) :
    follow (ks ++ ms) es =
      match follow ks es with
      | some (.dictionary inner) => follow ms inner
      | _ => none := by
  induction ks generalizing es with
  | nil => exact absurd rfl hk
  | cons key ks ih =>
    cases ks with
    | nil => exact follow_cons key hm es
    | cons k ks =>
      -- Both walks take the first key, and then the rest from what stands under it.
      rw [List.cons_append, follow_cons key (by simp), follow_cons key (List.cons_ne_nil _ _)]
      cases hg : Entries.get? key es with
      | none => rfl
      | some v =>
        cases v with
        | dictionary inner => exact ih (List.cons_ne_nil _ _) inner
        | _ => rfl

/-- A path is walked as its two parts are. -/
theorem value?_append (d : Dictionary) (path rest : Text) :
    d.value? (path ++ '.' :: rest) =
      match d.value? path with
      | some (.dictionary inner) => value? ⟨inner⟩ rest
      | _ => none := by
  unfold value?
  rw [Text.splitOn_append, follow_append (List.splitOn_ne_nil _ _) (List.splitOn_ne_nil _ _)]

/-- Where a path leads depends on what stands under its stem. -/
theorem value?_congr {d e : Dictionary} {path : Text}
    (h : Entries.get? path.stem d.entries = Entries.get? path.stem e.entries) :
    d.value? path = e.value? path := by
  obtain ⟨more, hmore⟩ := Text.exists_splitOn_eq_stem path
  unfold value?
  rw [hmore]
  cases more with
  | nil => exact h
  | cons m more =>
    rw [follow_cons _ (List.cons_ne_nil _ _), follow_cons _ (List.cons_ne_nil _ _), h]

/-- A path without dots is a key. -/
theorem value?_of_not_mem {key : Text} (h : '.' ∉ key) (d : Dictionary) :
    d.value? key = Entries.get? key d.entries := by
  unfold value?
  rw [Text.splitOn_of_not_mem h]
  rfl

/-- Setting a key adds it, if it is not there. -/
theorem mem_keys_set {d : Dictionary} {key other : Text} {value : Value} :
    other ∈ (d.set key value).keys ↔ other ∈ d.keys ∨ other = key := by
  unfold keys Dictionary.set
  rw [Entries.keys_set]
  split
  · next hmem =>
    refine ⟨.inl, ?_⟩
    rintro (h | rfl)
    · exact h
    · exact hmem
  · rw [List.mem_append, List.mem_singleton]

@[simp] theorem value?_empty (path : Text) : empty.value? path = none := by
  obtain ⟨more, hmore⟩ := Text.exists_splitOn_eq_stem path
  unfold value?
  rw [hmore]
  cases more <;> rfl

/-- A path that leads to a value is a key, or it leads on from what stands under its first key. -/
theorem value?_cases {d : Dictionary} {path : Text} {v : Value} (h : d.value? path = some v) :
    Entries.get? path d.entries = some v ∨
      ∃ key inner rest, path = key ++ '.' :: rest ∧
        Entries.get? key d.entries = some (.dictionary inner) ∧
        value? ⟨inner⟩ rest = some v := by
  by_cases hdot : '.' ∈ path
  · obtain ⟨key, rest, rfl, hkey⟩ := List.eq_append_cons_of_mem hdot
    rw [value?_append, value?_of_not_mem hkey] at h
    split at h
    · next inner hinner => exact .inr ⟨key, inner, rest, rfl, hinner, h⟩
    · cases h
  · rw [value?_of_not_mem hdot] at h
    exact .inl h

end Dictionary

/-! ## Names

  A name is resolved once, by its part before the first dot; the path that comes out is looked up.
  Of the open scopes the innermost one that binds the part is the one that counts. -/

namespace AliasTable

/-- What a name is bound to innermost, after one binding more. -/
theorem head?_bind (values : List (Text × List Text)) (name value other : Text) :
    (Entries.get? other (bind values name value)).bind List.head? =
      if name = other then some value else (Entries.get? other values).bind List.head? := by
  unfold bind
  split
  · rw [Entries.get?_set]
    split <;> rfl
  · rw [Entries.get?]
    split <;> rfl

/-- A scope's last binding of a name counts; a name that it does not bind means what it meant. -/
theorem get?_push (t : AliasTable) (bindings : List (Text × Text)) (name : Text) :
    (t.push bindings).get? name =
      bindings.foldl (fun found b => if b.1 = name then some b.2 else found) (t.get? name) := by
  have fold : ∀ values : List (Text × List Text),
      (Entries.get? name (bindings.foldl (fun s b => bind s b.1 b.2) values)).bind List.head? =
        bindings.foldl (fun found b => if b.1 = name then some b.2 else found)
          ((Entries.get? name values).bind List.head?) := by
    induction bindings with
    | nil => exact fun values => rfl
    | cons b bindings ih =>
      intro values
      rw [List.foldl_cons, List.foldl_cons, ih, head?_bind]
  exact fold t.values

/-- Scopes that do not bind a name do not change what it means. -/
theorem get?_ofScopes_append {inner outer : List (List (Text × Text))} {name : Text}
    (h : ∀ s ∈ inner, ∀ b ∈ s, b.1 ≠ name) :
    (ofScopes (inner ++ outer)).get? name = (ofScopes outer).get? name := by
  have unbound : ∀ (bindings : List (Text × Text)) (found : Option Text),
      (∀ b ∈ bindings, b.1 ≠ name) →
      bindings.foldl (fun found b => if b.1 = name then some b.2 else found) found = found := by
    intro bindings found hb
    induction bindings with
    | nil => rfl
    | cons b bindings ih =>
      rw [List.foldl_cons, if_neg (hb b List.mem_cons_self)]
      exact ih fun c hc => hb c (List.mem_cons_of_mem _ hc)
  induction inner with
  | nil => rfl
  | cons s inner ih =>
    rw [List.cons_append, ofScopes_cons, get?_push, unbound _ _ (h s List.mem_cons_self)]
    exact ih fun s' hs' => h s' (List.mem_cons_of_mem _ hs')

/-- A name without dots is resolved to its value. -/
theorem resolve_of_get? {t : AliasTable} {name value : Text} (hdot : '.' ∉ name)
    (h : t.get? name = some value) : t.resolve name = value := by
  have hstem : name.takeWhile (· ≠ '.') = name := Text.stem_of_not_mem hdot
  have hrest : name.dropWhile (· ≠ '.') = [] := by
    rw [List.dropWhile_eq_nil_iff]
    exact List.takeWhile_eq_self_iff.1 hstem
  unfold resolve
  rw [hstem, h, hrest]
  exact List.append_nil value

/-- What a path is resolved to is the path, or it starts as something does that a name is bound
    to. -/
theorem stem_resolve {t : AliasTable} {P : Text → Prop} (h : Holds (fun v => P v.stem) t)
    {path : Text} (hp : P path.stem) : P (t.resolve path).stem := by
  unfold resolve
  split
  · next value hv =>
    have hrest : path.dropWhile (· ≠ '.') = [] ∨ (path.dropWhile (· ≠ '.')).head? = some '.' := by
      cases hd : path.dropWhile (· ≠ '.') with
      | nil => exact .inl rfl
      | cons c rest =>
        have hne : path.dropWhile (· ≠ '.') ≠ [] := by rw [hd]; exact List.cons_ne_nil _ _
        have hc := List.head_dropWhile_not (· ≠ '.') hne
        simp only [hd, List.head_cons] at hc
        exact .inr (by simpa using hc)
    rw [Text.stem_append hrest]
    exact h.get? hv
  · exact hp

end AliasTable

namespace Environment

variable {env : Environment}

/-- A loop runs over what its collection leads to, if this is a dictionary. -/
theorem dictionary?_eq_some_iff {path : Text} {d : Dictionary} :
    env.dictionary? path = some d ↔ env.value? path = some (.dictionary d.entries) := by
  unfold dictionary?
  split
  · next entries he =>
    obtain ⟨entries'⟩ := d
    simp [he]
  · next hne => exact ⟨nofun, fun h => absurd h (hne d.entries)⟩

/-- A name that is resolved is resolved by the alias table alone; the values only decide whether it
    is. -/
theorem eq_resolve_of_resolve? {name resolved : Text} (h : env.resolve? name = some resolved) :
    resolved = env.aliases.resolve name := by
  unfold resolve? at h
  simp only at h
  split at h
  · cases h
    rfl
  · cases h

/-- **What a token is replaced by depends on the path it is resolved to**: on whether the path leads
    to a value, and, where it is not itself a quoted key, on the value's text. -/
theorem expand_congr {other : Environment} {name : Text} (ha : other.aliases = env.aliases)
    (hs : (other.value? (env.aliases.resolve name)).isSome =
      (env.value? (env.aliases.resolve name)).isSome)
    (hl : isLiteral (env.aliases.resolve name) = false →
      (other.value? (env.aliases.resolve name)).bind Value.literal? =
        (env.value? (env.aliases.resolve name)).bind Value.literal?) :
    other.expand name = env.expand name := by
  have hresolve : other.resolve? name = env.resolve? name := by
    unfold resolve?
    simp only [ha, hs]
  unfold expand
  rw [hresolve]
  cases hr : env.resolve? name with
  | none => rfl
  | some resolved =>
    rw [← eq_resolve_of_resolve? hr] at hl
    simp only
    split
    · rfl
    · next hliteral => rw [hl (by simpa using hliteral)]

/-- **A path below a collection leads to what the collection holds** under a key without dots. -/
theorem value?_key {collection key : Text} {d : Dictionary} {v : Value}
    (hd : env.dictionary? collection = some d) (hdot : '.' ∉ key)
    (hv : Entries.get? key d.entries = some v) :
    env.value? (collection ++ '.' :: key) = some v := by
  have below : ∀ {e : Dictionary}, e.value? collection = some (.dictionary d.entries) →
      e.value? (collection ++ '.' :: key) = some v := by
    intro e he
    rw [Dictionary.value?_append, he]
    simp only
    rw [Dictionary.value?_of_not_mem hdot, hv]
  have hcollection := dictionary?_eq_some_iff.1 hd
  unfold value? at hcollection ⊢
  -- The collection stands in the ranges, or else in the dictionary.
  rcases Option.or_eq_some_iff.1 hcollection with hr | ⟨hnone, hr⟩
  · rw [below hr, Option.some_or]
  · -- What the ranges do not hold at all, they do not hold below it either.
    rw [Dictionary.value?_append env.ranges, hnone, Option.none_or, below hr]

/-- A name that is bound to a quoted key is replaced by the key. -/
theorem expand_key {name key : Text} (hdot : '.' ∉ name)
    (h : env.aliases.get? name = some ('"' :: (key ++ ['"']))) : env.expand name = .ok key := by
  have hlast : ('"' :: (key ++ ['"'])).getLast? = some '"' := by
    rw [← List.cons_append, List.getLast?_append_cons]
    rfl
  have hliteral : isLiteral ('"' :: (key ++ ['"'])) = true := by
    rw [isLiteral, hlast]
    simp
  have hresolve : env.resolve? name = some ('"' :: (key ++ ['"'])) := by
    unfold resolve?
    simp [AliasTable.resolve_of_get? hdot h, hliteral, hdot]
  unfold expand
  rw [hresolve]
  simp [hliteral]

/-- A name that is bound to a path is replaced by the text of the value there. -/
theorem expand_value {name path : Text} {v : Value} (hdot : '.' ∉ name)
    (h : env.aliases.get? name = some path) (hpath : isLiteral path = false)
    (hv : env.value? path = some v) :
    env.expand name = match v.literal? with
      | some text => .ok text
      | none => .error (.unsupported path) := by
  have hresolve : env.resolve? name = some path := by
    unfold resolve?
    simp [AliasTable.resolve_of_get? hdot h, hv]
  unfold expand
  cases hl : v.literal? with
  | none => simp [hresolve, hpath, hv, hl]
  | some text => simp [hresolve, hpath, hv, hl]

end Environment

/-! ## Ranges

  The name of a range spells its bounds in decimal between fixed words, so that it can be read back,
  and has a space and no dot in it.  Everything about how ranges and names of loops keep apart comes
  down to these facts. -/

namespace Text

/-- A number can be read back from its digits. -/
theorem ofNat_injective : Function.Injective ofNat := by
  intro m n h
  have hm := nat?_ofNat m
  rw [h, nat?_ofNat] at hm
  exact (Option.some.inj hm).symm

/-- A number is written with digits and a sign. -/
theorem not_mem_ofInt {c : Char} (hsign : c ≠ '-') (hdigit : c.isDigit = false) (n : Int) :
    c ∉ ofInt n := by
  have digits : ∀ n, c ∉ ofNat n := by
    intro n h
    have hd : c.isDigit = true := Nat.isDigit_of_mem_toDigits (by decide) (by decide) h
    rw [hdigit] at hd
    cases hd
  cases n with
  | ofNat n => exact digits n
  | negSucc n => exact fun h => (List.mem_cons.1 h).elim hsign (digits _)

/-- And from its digits and sign. -/
theorem ofInt_injective : Function.Injective ofInt := by
  -- A digit is no minus sign, so the sign is told apart from the digits.
  have unsigned : ∀ (m n : Nat), ofNat m ≠ '-' :: ofNat n := by
    intro m n h
    have hmem : '-' ∈ ofNat m := by
      rw [h]
      exact List.mem_cons_self
    have hd : ('-').isDigit = true := Nat.isDigit_of_mem_toDigits (by decide) (by decide) hmem
    exact absurd hd (by decide)
  intro m n h
  cases m with
  | ofNat m =>
    cases n with
    | ofNat n => rw [ofNat_injective h]
    | negSucc n => exact absurd h (unsigned m (n + 1))
  | negSucc m =>
    cases n with
    | ofNat n => exact absurd h.symm (unsigned n (m + 1))
    | negSucc n =>
      have hdigits := ofNat_injective (List.cons.inj h).2
      rw [Nat.succ.inj hdigits]

end Text

namespace Range

/-! The name of a range has a space in it, which no key of a path read from a line has, and no dot,
    so it is one key. -/

theorem space_mem_name (r : Range) : ' ' ∈ r.name := by
  unfold name
  simp

theorem dot_not_mem_name (r : Range) : '.' ∉ r.name := by
  have hnumber : ∀ n, '.' ∉ Text.ofInt n := Text.not_mem_ofInt (by decide) (by decide)
  unfold name
  simp only [List.mem_append, not_or]
  exact ⟨⟨⟨⟨by decide, hnumber _⟩, by decide⟩, hnumber _⟩, by decide⟩

/-- Behind its label, the name is cut at the space behind the lower bound. -/
theorem name_eq (r : Range) : r.name = "(Range ".toList ++
    (Text.ofInt r.min.toInt ++ ' ' :: ("to ".toList ++ Text.ofInt r.max.toInt ++ [')'])) := by
  unfold name
  generalize Text.ofInt r.min.toInt = min
  generalize Text.ofInt r.max.toInt = max
  simp

/-- **Ranges of one name are one range**: both bounds can be read back from the name. -/
theorem name_injective : Function.Injective name := by
  intro r s h
  have hspace : ∀ n, ' ' ∉ Text.ofInt n := Text.not_mem_ofInt (by decide) (by decide)
  rw [name_eq, name_eq] at h
  -- The first space in the name stands behind the lower bound.
  have hbounds := congrArg (Text.cut ' ') (List.append_cancel_left h)
  rw [Text.cut_eq_some_iff.2 ⟨rfl, hspace r.min.toInt⟩,
    Text.cut_eq_some_iff.2 ⟨rfl, hspace s.min.toInt⟩] at hbounds
  obtain ⟨hmin, hrest⟩ := Prod.mk.inj (Option.some.inj hbounds)
  have hmax := List.append_cancel_left (List.append_cancel_right hrest)
  have hmin : r.min = s.min := Int32.toInt_inj.1 (Text.ofInt_injective hmin)
  have hmax : r.max = s.max := Int32.toInt_inj.1 (Text.ofInt_injective hmax)
  cases r
  cases s
  exact congrArg₂ Range.mk hmin hmax

end Range
end ShaderWeave
