/-
  Names are shadowed lexically.

  The alias table keeps a stack of values for each name, and of an open scope only the names that it
  bound.  What it stands for is simpler: the list of the open scopes, innermost first, in which a
  name means what the first scope with this name says, and within a scope the last binding counts.
  The two are compared over histories of calls:

    * `Call` is opening a scope or closing one; `run?` makes calls one after the other, and gives
      nothing where one of them fails;
    * `unclosed?` is the list of the scopes that calls leave open, with nothing where a scope is
      closed and none is open;
    * `meaning?` is the meaning of a name in a list of scopes.

  The crux is `run?_empty`: after any calls the table is the table of the scopes that they leave
  open, and calls fail exactly where there is no scope to close.  So every law of `ofScopes` is a
  law of all histories.

  `Balanced` are the calls that close what they open and nothing else; they lead from a table to the
  same table (`Balanced.run?_eq`), not only to one in which all names mean the same.
-/
import Mathlib.Data.List.Induction
import ShaderWeave.Proofs.Lookup

namespace ShaderWeave.AliasTable

/-! ## Histories

  Calls are made on a table and, beside it, on the plain list of open scopes.  The two go step by
  step, and the table is a function of the list; so nothing about the table has to be proved by an
  induction over calls again. -/

/-- What is done to a table. -/
inductive Call where
  | push (bindings : List (Text × Text))
  | pop
  deriving DecidableEq, Repr

/-- The table after a call; `none` where the call fails. -/
def call? (t : AliasTable) : Call → Option AliasTable
  | .push bindings => some (t.push bindings)
  | .pop => t.pop?

/-- The table after some calls; `none` where one of them fails. -/
def run? (t : AliasTable) (calls : List Call) : Option AliasTable := calls.foldlM call? t

/-- The open scopes after a call, innermost first; `none` where a scope is closed and none is
    open. -/
def openAfter? (scopes : List (List (Text × Text))) : Call → Option (List (List (Text × Text)))
  | .push bindings => some (bindings :: scopes)
  | .pop =>
    match scopes with
    | [] => none
    | _ :: outer => some outer

/-- The scopes that some calls open and do not close, innermost first; `none` where a scope is
    closed and none is open. -/
def unclosed? (calls : List Call) : Option (List (List (Text × Text))) := calls.foldlM openAfter? []

/-- What a name means in some scopes, innermost first: the last binding of a scope counts, and the
    first scope that binds the name. -/
def meaning? (scopes : List (List (Text × Text))) (name : Text) : Option Text :=
  scopes.findSome? fun bindings => bindings.reverse.lookup name

/-- A call does to a table of scopes what it does to the scopes. -/
theorem call?_ofScopes (scopes : List (List (Text × Text))) (call : Call) :
    (ofScopes scopes).call? call = (openAfter? scopes call).map ofScopes := by
  cases call with
  | push bindings => rfl
  | pop =>
    cases scopes with
    | nil => rfl
    | cons bindings outer => exact pop?_ofScopes_cons bindings outer

/-- So do several calls. -/
theorem run?_ofScopes (scopes : List (List (Text × Text))) (calls : List Call) :
    (ofScopes scopes).run? calls = (calls.foldlM openAfter? scopes).map ofScopes := by
  induction calls generalizing scopes with
  | nil => rfl
  | cons call calls ih =>
    unfold run? at ih ⊢
    rw [List.foldlM_cons, List.foldlM_cons, call?_ofScopes]
    cases openAfter? scopes call with
    | none => rfl
    | some after => exact ih after

/-- **The table is that of the scopes left open.** -/
theorem run?_empty (calls : List Call) : empty.run? calls = (unclosed? calls).map ofScopes :=
  run?_ofScopes [] calls

/-! ## Meanings

  In the table the bindings of a scope are pushed one after the other, and the last one pushed is on
  top; in the list the last binding is looked for from behind. -/

/-- The last binding of a name among some is the first from behind. -/
theorem foldl_found (bindings : List (Text × Text)) (name : Text) (outer : Option Text) :
    bindings.foldl (fun found b => if b.1 = name then some b.2 else found) outer =
      (bindings.reverse.lookup name).or outer := by
  induction bindings using List.reverseRecOn with
  | nil => rfl
  | append_singleton bindings b ih =>
    obtain ⟨n, value⟩ := b
    rw [List.foldl_append, ih, List.reverse_append, List.foldl_cons, List.foldl_nil,
      List.reverse_singleton, List.singleton_append, List.lookup_cons]
    by_cases hn : n = name
    · simp [hn]
    · have hne : (name == n) = false := by simpa using fun e => hn e.symm
      simp [hn, hne]

/-- **A name means in the table what it means in the scopes.** -/
theorem get?_ofScopes (scopes : List (List (Text × Text))) (name : Text) :
    (ofScopes scopes).get? name = meaning? scopes name := by
  induction scopes with
  | nil => rfl
  | cons bindings scopes ih =>
    rw [ofScopes_cons, get?_push, foldl_found, ih, meaning?, meaning?, List.findSome?_cons]
    cases bindings.reverse.lookup name <;> rfl

/-- Of a path the part before the first dot is replaced, if it is bound. -/
theorem resolve_append (t : AliasTable) {head tail : Text} (hhead : '.' ∉ head)
    (htail : tail = [] ∨ tail.head? = some '.') :
    t.resolve (head ++ tail) = (t.get? head).getD head ++ tail := by
  have hstem : (head ++ tail).takeWhile (· ≠ '.') = head :=
    (Text.stem_append htail).trans (Text.stem_of_not_mem hhead)
  have hrest : (head ++ tail).dropWhile (· ≠ '.') = tail := by
    have hsplit := List.takeWhile_append_dropWhile (p := (· ≠ '.')) (l := head ++ tail)
    rw [hstem] at hsplit
    exact List.append_cancel_left hsplit
  unfold resolve
  rw [hstem, hrest]
  cases t.get? head <;> rfl

/-! ## Balanced calls

  Balanced calls nest like brackets, and the induction goes over how they nest: what is inside a
  scope is undone before the scope is closed. -/

/-- Calls that close what they open, and nothing else. -/
inductive Balanced : List Call → Prop where
  | nil : Balanced []
  | scope {inner rest : List Call} (bindings : List (Text × Text)) (hi : Balanced inner)
      (hr : Balanced rest) : Balanced (.push bindings :: (inner ++ .pop :: rest))

/-- Calls are made one after the other. -/
theorem run?_append (t : AliasTable) (calls more : List Call) :
    t.run? (calls ++ more) = (t.run? calls).bind (·.run? more) := by
  unfold run?
  rw [List.foldlM_append]
  rfl

/-- **Balanced calls change nothing.** -/
theorem Balanced.run?_eq {calls : List Call} (h : Balanced calls) {t : AliasTable}
    (ht : Sound t.values) : t.run? calls = some t := by
  induction h generalizing t with
  | nil => rfl
  | @scope inner rest bindings _ _ ihi ihr =>
    have hinner : (t.push bindings).run? inner = some (t.push bindings) :=
      ihi (sound_foldl_bind ht bindings)
    calc t.run? (.push bindings :: (inner ++ .pop :: rest))
        = (t.push bindings).run? (inner ++ .pop :: rest) := rfl
      _ = (t.push bindings).run? (.pop :: rest) := by rw [run?_append, hinner, Option.bind_some]
      _ = (t.push bindings).pop?.bind (·.run? rest) := rfl
      _ = t.run? rest := by rw [pop?_push ht, Option.bind_some]
      _ = some t := ihr ht

/-- **The table shadows names lexically.**  Calls that close no scope where none is open all
    succeed.  After them there are as many open scopes as were opened and not closed; a name means
    what the innermost of these scopes says that binds it, the last binding of a scope first; and no
    name is kept without a value.  A scope that is opened and closed again, with balanced calls
    between, leaves the table as it was.  Of a path the part before the first dot is replaced by its
    meaning, once, and nothing is replaced where it has none. -/
theorem shadows_lexically {calls : List Call} {scopes : List (List (Text × Text))}
    (h : unclosed? calls = some scopes) :
    ∃ t, empty.run? calls = some t ∧
      t.openScopes = scopes.length ∧
      (∀ name, t.get? name = meaning? scopes name) ∧
      (∀ entry ∈ t.values, entry.2 ≠ []) ∧
      (∀ bindings inner, Balanced inner → t.run? (.push bindings :: (inner ++ [.pop])) = some t) ∧
      ∀ head tail : Text, '.' ∉ head → tail = [] ∨ tail.head? = some '.' →
        t.resolve (head ++ tail) = (meaning? scopes head).getD head ++ tail := by
  refine ⟨ofScopes scopes, ?_, ?_, get?_ofScopes scopes, sound_ofScopes scopes, ?_, ?_⟩
  · rw [run?_empty, h, Option.map_some]
  · rw [openScopes, scopes_ofScopes, List.length_map]
  · intro bindings inner hi
    exact (Balanced.scope bindings hi .nil).run?_eq (sound_ofScopes scopes)
  · intro head tail hhead htail
    rw [resolve_append _ hhead htail, get?_ofScopes]

/-- A name bound in two scopes, and one bound twice in a scope that is closed again. -/
def reboundName : List Call :=
  [.push [("v".toList, "outer.a".toList)],
    .push [("k".toList, "\"x\"".toList), ("k".toList, "d.x".toList)], .pop,
    .push [("v".toList, "inner.b".toList), ("k".toList, "\"y\"".toList),
      ("v".toList, "inner.c".toList)]]

/-- The last binding of the inner scope counts, and a scope that rebinds the name twice is
    undone. -/
theorem shadows_lexically_reboundName :
    ∃ t, empty.run? reboundName = some t ∧ t.openScopes = 2 ∧
      t.get? "v".toList = some "inner.c".toList ∧ t.resolve "v.x.v".toList = "inner.c.x.v".toList ∧
      t.run? [.push [("v".toList, "p".toList), ("v".toList, "q".toList)], .push [], .pop, .pop] =
        some t := by
  have hscopes : unclosed? reboundName =
      some [[("v".toList, "inner.b".toList), ("k".toList, "\"y\"".toList),
        ("v".toList, "inner.c".toList)], [("v".toList, "outer.a".toList)]] := rfl
  obtain ⟨t, hrun, hopen, hget, _, hrestore, hresolve⟩ := shadows_lexically hscopes
  have hpath := hresolve "v".toList ".x.v".toList (by decide) (.inr rfl)
  have hinner : Balanced [.push [], .pop] := @Balanced.scope [] [] [] .nil .nil
  exact ⟨t, hrun, hopen, hget _, hpath, hrestore _ _ hinner⟩

end ShaderWeave.AliasTable
