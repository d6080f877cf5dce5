/-
  Which documents can be stored as dictionaries, and as what.

  The program walks a table once and gives up at the first value it cannot store.  Three things are
  said about it, none of them by the walk itself:

    * which values can be stored, one by one (`Toml.Admitted`), and what is wrong with the others
      (`Toml.Refused`): every value is one or the other, and is refused for one reason only;
    * which entries there are, tables within tables included, and in which order (`Toml.listed`:
      depth first, an entry before those of the table it holds);
    * what a table is stored as (`Toml.Mirrors`): entry by entry, with the same keys.

  `Dictionary.ofToml_mirrors` ties them together: a table is stored exactly where all its entries
  are admitted, as the dictionary that mirrors it, and otherwise the first entry that is refused is
  named by its own key.

  The crux is the order.  An array is scanned twice, first for integers of 32 bits and then for
  numbers, and its length is looked at last; so what is no number comes before a wrong length.
-/
import Mathlib.Data.List.Forall2
import ShaderWeave.Dictionary.OfToml

namespace ShaderWeave

/-! ## The specification

  What an item is stored as is told by what the item is, and not by how it is converted: items that
  can be stored (`Admitted`), items that cannot, with the reason (`Refused`), and the value that an
  item is stored as (`Mirrors`).  Which error there is follows from the order of the entries. -/

namespace Toml

/-- An integer or a float. -/
inductive IsNumber : Toml → Prop where
  | integer (n : Int) : IsNumber (.integer n)
  | float (x : Double) : IsNumber (.float x)

/-- The integer lies within 32 bits. -/
def FitsInt32 (n : Int) : Prop := -2147483648 ≤ n ∧ n ≤ 2147483647

/-- A value that can be stored, whatever a table holds. -/
inductive Admitted : Toml → Prop where
  | boolean (b : Bool) : Admitted (.boolean b)
  | integer {n : Int} (h : FitsInt32 n) : Admitted (.integer n)
  | float (x : Double) : Admitted (.float x)
  | string (s : Text) : Admitted (.string s)
  | table (entries : List (Text × Toml)) : Admitted (.table entries)
  | array {items : List Toml} (hn : ∀ v ∈ items, v.IsNumber)
      (hl : items.length = 2 ∨ items.length = 3) : Admitted (.array items)

/-- A value that cannot be stored, and why. -/
inductive Refused : Toml → StorageFault → Prop where
  | integer {n : Int} (h : ¬FitsInt32 n) : Refused (.integer n) .integerRange
  | datetime (written : Text) : Refused (.datetime written) .datetime
  | element {items : List Toml} {v : Toml} (hv : v ∈ items) (hn : ¬v.IsNumber) :
      Refused (.array items) .vectorElement
  | size {items : List Toml} (hn : ∀ v ∈ items, v.IsNumber)
      (hl : items.length ≠ 2 ∧ items.length ≠ 3) : Refused (.array items) .vectorSize

mutual

/-- The entries below a value: those of a table, and none of any other value. -/
def nested : Toml → List (Text × Toml)
  | .table entries => listed entries
  | _ => []

/-- All entries of a table, depth first; an entry comes before those below its value. -/
def listed : List (Text × Toml) → List (Text × Toml)
  | [] => []
  | (key, v) :: rest => (key, v) :: (nested v ++ listed rest)

end

/-- The error is about the first of the entries that is refused; it names the entry's own key. -/
def FirstRefused (entries : List (Text × Toml)) (e : Error) : Prop :=
  ∃ before key v after fault, entries = before ++ (key, v) :: after ∧
    (∀ entry ∈ before, entry.2.Admitted) ∧
    v.Refused fault ∧ e = .unstorable key fault

/-- A number as the double that stands for it in a vector. -/
inductive IsDouble : Toml → Double → Prop where
  | float (x : Double) : IsDouble (.float x) x
  | integer (n : Int) : IsDouble (.integer n) (.ofInt n)

/-- All items are integers of 32 bits. -/
def AllInt32 (items : List Toml) : Prop := ∀ v ∈ items, ∃ n, FitsInt32 n ∧ v = .integer n

mutual

/-- What a value is stored as. -/
inductive Mirrors : Toml → Value → Prop where
  | boolean (b : Bool) : Mirrors (.boolean b) (.bool b)
  | integer (n : Int32) : Mirrors (.integer n.toInt) (.int n)
  | float (x : Double) : Mirrors (.float x) (.double x)
  | string (s : Text) : Mirrors (.string s) (.string s)
  | ivec2 (x y : Int32) : Mirrors (.array [.integer x.toInt, .integer y.toInt]) (.ivec2 x y)
  | ivec3 (x y z : Int32) :
      Mirrors (.array [.integer x.toInt, .integer y.toInt, .integer z.toInt]) (.ivec3 x y z)
  | dvec2 {a b : Toml} {x y : Double} (ha : a.IsDouble x) (hb : b.IsDouble y)
      (hn : ¬AllInt32 [a, b]) : Mirrors (.array [a, b]) (.dvec2 x y)
  | dvec3 {a b c : Toml} {x y z : Double} (ha : a.IsDouble x) (hb : b.IsDouble y)
      (hc : c.IsDouble z) (hn : ¬AllInt32 [a, b, c]) : Mirrors (.array [a, b, c]) (.dvec3 x y z)
  | table {entries : List (Text × Toml)} {stored : List (Text × Value)}
      (h : MirrorsAll entries stored) : Mirrors (.table entries) (.dictionary stored)

/-- What the entries of a table are stored as: the same keys in the same order. -/
inductive MirrorsAll : List (Text × Toml) → List (Text × Value) → Prop where
  | nil : MirrorsAll [] []
  | cons {key : Text} {v : Toml} {w : Value} {rest : List (Text × Toml)}
      {rest' : List (Text × Value)} (h : Mirrors v w) (hr : MirrorsAll rest rest') :
      MirrorsAll ((key, v) :: rest) ((key, w) :: rest')

end

/-! ## Numbers

    What the program asks of one value, in the words of the specification. -/

/-- The integers within the bounds are those that the machine type has. -/
theorem fitsInt32_iff {n : Int} : FitsInt32 n ↔ ∃ m : Int32, n = m.toInt := by
  constructor
  · rintro ⟨hlow, hhigh⟩
    refine ⟨Int32.ofInt n, ?_⟩
    exact (Int32.toInt_ofInt_of_le hlow (by omega)).symm
  · rintro ⟨m, rfl⟩
    exact ⟨Int32.minValue_le_toInt m, Int32.toInt_le m⟩

/-- An integer is rejected where it is out of bounds. -/
theorem toInt32?_eq_none_iff {n : Int} : toInt32? n = none ↔ ¬FitsInt32 n := by
  rw [fitsInt32_iff, Option.eq_none_iff_forall_not_mem, not_exists]
  exact forall_congr' fun m => not_congr toInt32?_eq_some_iff

/-! An item counts as an integer of 32 bits where it is written as one and within bounds, and as a
    number where it is written as an integer or a float. -/

theorem int32?_eq_some_iff {v : Toml} {n : Int32} : v.int32? = some n ↔ v = .integer n.toInt := by
  cases v with
  | integer m =>
    show toInt32? m = some n ↔ _
    rw [toInt32?_eq_some_iff, integer.injEq]
  | _ => simp [int32?]

theorem double?_eq_some_iff {v : Toml} {x : Double} : v.double? = some x ↔ v.IsDouble x := by
  constructor
  · intro h
    cases v with
    | float =>
      cases h
      exact .float x
    | integer n =>
      cases h
      exact .integer n
    | _ => cases h
  · intro h
    cases h <;> rfl

/-- What is no number has no double. -/
theorem double?_eq_none_iff {v : Toml} : v.double? = none ↔ ¬v.IsNumber := by
  constructor
  · rintro h (n | x) <;> cases h
  · intro h
    cases v with
    | float x => exact absurd (.float x) h
    | integer n => exact absurd (.integer n) h
    | _ => rfl

/-! ## Arrays

  An array is stored as a vector by its length and by the kind of its numbers, integers before
  doubles.  The conversion tries one kind after the other; the specification says when each of them
  applies. -/

section Scans

variable {α : Type} {f : Toml → Option α} {items : List Toml}

/-- A scan comes through where it comes through every item. -/
theorem mapM_eq_some_iff {as : List α} :
    items.mapM f = some as ↔ List.Forall₂ (fun v a => f v = some a) items as := by
  induction items generalizing as with
  | nil => simp [List.mapM_nil, eq_comm]
  | cons v items ih =>
    rw [List.mapM_cons, List.forall₂_cons_left_iff]
    simp only [Option.bind_eq_bind, Option.bind_eq_some_iff, Option.pure_def, Option.some.injEq, ih]
    constructor
    · rintro ⟨a, ha, rest, hrest, rfl⟩
      exact ⟨a, rest, ha, hrest, rfl⟩
    · rintro ⟨a, rest, ha, hrest, rfl⟩
      exact ⟨a, ha, rest, hrest, rfl⟩

/-- And it fails where some item fails. -/
theorem mapM_eq_none_iff : items.mapM f = none ↔ ∃ v ∈ items, f v = none := by
  induction items with
  | nil => simp [List.mapM_nil]
  | cons v items ih =>
    rw [List.mapM_cons]
    cases hv : f v with
    | none => simp [hv]
    | some a =>
      cases hrest : items.mapM f with
      | none => simpa [hv, hrest] using ih.1 hrest
      | some as => simpa [hv, hrest] using ih

end Scans

/-- The scan for integers of 32 bits. -/
theorem mapM_int32?_eq_some_iff {items : List Toml} {ns : List Int32} :
    items.mapM int32? = some ns ↔ items = ns.map fun n => .integer n.toInt := by
  rw [mapM_eq_some_iff]
  simp only [int32?_eq_some_iff]
  rw [← List.forall₂_eq_eq_eq, List.forall₂_map_right_iff]

/-- It fails where some item is another number, or none, or too large. -/
theorem mapM_int32?_eq_none_iff {items : List Toml} :
    items.mapM int32? = none ↔ ¬AllInt32 items := by
  rw [mapM_eq_none_iff, AllInt32]
  push Not
  refine exists_congr fun v => and_congr_right fun _ => ?_
  rw [Option.eq_none_iff_forall_not_mem]
  constructor
  · rintro h n hn rfl
    obtain ⟨m, rfl⟩ := fitsInt32_iff.1 hn
    exact h m (int32?_eq_some_iff.2 rfl)
  · intro h m hm
    exact h m.toInt (fitsInt32_iff.2 ⟨m, rfl⟩) (int32?_eq_some_iff.1 hm)

/-- The scan for numbers. -/
theorem mapM_double?_eq_some_iff {items : List Toml} {xs : List Double} :
    items.mapM double? = some xs ↔ List.Forall₂ IsDouble items xs := by
  rw [mapM_eq_some_iff]
  simp only [double?_eq_some_iff]

/-- It fails where some item is no number. -/
theorem mapM_double?_eq_none_iff {items : List Toml} :
    items.mapM double? = none ↔ ∃ v ∈ items, ¬v.IsNumber := by
  rw [mapM_eq_none_iff]
  simp only [double?_eq_none_iff]

/-- **An array is stored as the vector that mirrors it**, if it is.  The cases are the branches of
    the two scans: a pair or a triple of integers, and where not all are integers of 32 bits a pair
    or a triple of doubles. -/
theorem ofItems_eq_ok_iff {items : List Toml} {w : Value} :
    Value.ofItems items = .ok w ↔ Mirrors (.array items) w := by
  constructor
  · intro h
    unfold Value.ofItems at h
    split at h
    · next x y hscan =>
      cases h
      rw [mapM_int32?_eq_some_iff.1 hscan]
      exact .ivec2 x y
    · next x y z hscan =>
      cases h
      rw [mapM_int32?_eq_some_iff.1 hscan]
      exact .ivec3 x y z
    · cases h
    · -- The first scan failed, so the second decides.
      next hints =>
      have hints := mapM_int32?_eq_none_iff.1 hints
      split at h
      · next x y hscan =>
        cases h
        obtain - | ⟨ha, - | ⟨hb, ⟨⟩⟩⟩ := mapM_double?_eq_some_iff.1 hscan
        exact .dvec2 ha hb hints
      · next x y z hscan =>
        cases h
        obtain - | ⟨ha, - | ⟨hb, - | ⟨hc, ⟨⟩⟩⟩⟩ := mapM_double?_eq_some_iff.1 hscan
        exact .dvec3 ha hb hc hints
      · cases h
      · cases h
  · intro h
    unfold Value.ofItems
    cases h with
    | ivec2 x y =>
      have hscan : [integer x.toInt, integer y.toInt].mapM int32? = some [x, y] :=
        mapM_int32?_eq_some_iff.2 rfl
      rw [hscan]
    | ivec3 x y z =>
      have hscan : [integer x.toInt, integer y.toInt, integer z.toInt].mapM int32? =
          some [x, y, z] :=
        mapM_int32?_eq_some_iff.2 rfl
      rw [hscan]
    | dvec2 ha hb hn =>
      -- A vector of doubles is not all integers of 32 bits, by which the first scan fails.
      rw [mapM_int32?_eq_none_iff.2 hn, mapM_double?_eq_some_iff.2 (.cons ha (.cons hb .nil))]
    | dvec3 ha hb hc hn =>
      rw [mapM_int32?_eq_none_iff.2 hn,
        mapM_double?_eq_some_iff.2 (.cons ha (.cons hb (.cons hc .nil)))]

/-- What a double stands for is a number. -/
theorem isNumber_of_isDouble {v : Toml} {x : Double} (h : v.IsDouble x) : v.IsNumber := by
  cases h with
  | float => exact .float x
  | integer n => exact .integer n

/-- A list that is no pair and no triple. -/
theorem length_ne_of_forall_ne {α : Type} {as : List α} (h2 : ∀ x y, as = [x, y] → False)
    (h3 : ∀ x y z, as = [x, y, z] → False) : as.length ≠ 2 ∧ as.length ≠ 3 := by
  constructor
  · intro hl
    obtain ⟨x, y, rfl⟩ := List.length_eq_two.1 hl
    exact h2 x y rfl
  · intro hl
    obtain ⟨x, y, z, rfl⟩ := List.length_eq_three.1 hl
    exact h3 x y z rfl

/-- **What no scan comes through is no number**; what a scan comes through and is not stored has the
    wrong length. -/
theorem refused_of_ofItems {items : List Toml} {fault : StorageFault}
    (h : Value.ofItems items = .error fault) : Refused (.array items) fault := by
  unfold Value.ofItems at h
  split at h
  · cases h
  · cases h
  · -- Integers throughout, but neither two nor three.
    next ns h2 h3 hscan =>
    cases h
    rw [mapM_int32?_eq_some_iff.1 hscan]
    refine .size (fun v hv => ?_) ?_
    · obtain ⟨n, _, rfl⟩ := List.mem_map.1 hv
      exact .integer n.toInt
    · rw [List.length_map]
      exact length_ne_of_forall_ne h2 h3
  · split at h
    · cases h
    · cases h
    · -- Numbers throughout, but neither two nor three.
      next xs h2 h3 hscan =>
      cases h
      refine .size (fun v hv => ?_) ?_
      · by_contra hn
        rw [mapM_double?_eq_none_iff.2 ⟨v, hv, hn⟩] at hscan
        cases hscan
      · rw [(mapM_double?_eq_some_iff.1 hscan).length_eq]
        exact length_ne_of_forall_ne h2 h3
    · next hscan =>
      cases h
      obtain ⟨v, hv, hn⟩ := mapM_double?_eq_none_iff.1 hscan
      exact .element hv hn

/-! ## Admitted and refused

  An item is admitted or refused and never both, it is refused for one reason, and what an item is
  stored as shows that it was admitted. -/

/-- Nothing is both admitted and refused. -/
theorem Refused.not_admitted {v : Toml} {fault : StorageFault} (h : v.Refused fault) :
    ¬v.Admitted := by
  intro ha
  cases h with
  | integer hout =>
    cases ha with
    | integer hin => exact hout hin
  | datetime => cases ha
  | element hv hn =>
    cases ha with
    | array hall _ => exact hn (hall _ hv)
  | size _ hl =>
    cases ha with
    | array _ hl' => omega

/-- A value is refused for one reason. -/
theorem Refused.unique {v : Toml} {a b : StorageFault} (ha : v.Refused a) (hb : v.Refused b) :
    a = b := by
  cases ha with
  | integer =>
    cases hb
    rfl
  | datetime =>
    cases hb
    rfl
  -- An array may break both rules, but its length is looked at only if all its items are numbers.
  | element hv hn =>
    cases hb with
    | element => rfl
    | size hall => exact absurd (hall _ hv) hn
  | size hall =>
    cases hb with
    | element hv hn => exact absurd (hall _ hv) hn
    | size => rfl

/-- What is mirrored is admitted. -/
theorem Mirrors.admitted {v : Toml} {w : Value} (h : Mirrors v w) : v.Admitted := by
  cases h with
  | boolean b => exact .boolean b
  | integer n => exact .integer (fitsInt32_iff.2 ⟨n, rfl⟩)
  | float x => exact .float x
  | string s => exact .string s
  | ivec2 x y =>
    refine .array ?_ (.inl rfl)
    simp [IsNumber.integer]
  | ivec3 x y z =>
    refine .array ?_ (.inr rfl)
    simp [IsNumber.integer]
  | dvec2 ha hb =>
    refine .array ?_ (.inl rfl)
    simp [isNumber_of_isDouble ha, isNumber_of_isDouble hb]
  | dvec3 ha hb hc =>
    refine .array ?_ (.inr rfl)
    simp [isNumber_of_isDouble ha, isNumber_of_isDouble hb, isNumber_of_isDouble hc]
  | table => exact .table _

mutual

/-- What is mirrored has only admitted entries below it. -/
theorem Mirrors.forall_nested {v : Toml} {w : Value} : Mirrors v w → ∀ e ∈ nested v, e.2.Admitted
  | .table h => h.forall_listed
  | .boolean _ | .integer _ | .float _ | .string _ => nofun
  | .ivec2 .. | .ivec3 .. | .dvec2 .. | .dvec3 .. => nofun

/-- And where a table is mirrored, all entries at every level are admitted. -/
theorem MirrorsAll.forall_listed {es : List (Text × Toml)} {ws : List (Text × Value)} :
    MirrorsAll es ws → ∀ e ∈ listed es, e.2.Admitted
  | .nil => nofun
  | .cons h hr => by
    rw [listed, List.forall_mem_cons, List.forall_mem_append]
    exact ⟨h.admitted, h.forall_nested, hr.forall_listed⟩

end

/-! ## The first entry that is refused

  Entries are visited with all that is inside them before the next one, and the list of visits is
  flat; the first refused one is the first of that list. -/

/-- The first of some entries is refused, or it is admitted and the first refused one comes
    later. -/
theorem firstRefused_cons_iff {key : Text} {v : Toml} {es : List (Text × Toml)} {e : Error} :
    FirstRefused ((key, v) :: es) e ↔
      (∃ fault, v.Refused fault ∧ e = .unstorable key fault) ∨
        (v.Admitted ∧ FirstRefused es e) := by
  constructor
  · rintro ⟨before, key', v', after, fault, hes, hbefore, hv, rfl⟩
    -- None is admitted before it, so it is the first entry; else the first entry is admitted.
    cases before with
    | nil =>
      cases hes
      exact .inl ⟨fault, hv, rfl⟩
    | cons entry before =>
      cases hes
      obtain ⟨hentry, hbefore⟩ := List.forall_mem_cons.1 hbefore
      exact .inr ⟨hentry, before, key', v', after, fault, rfl, hbefore, hv, rfl⟩
  · rintro (⟨fault, hv, rfl⟩ | ⟨hv, before, key', v', after, fault, rfl, hbefore, hv', rfl⟩)
    · exact ⟨[], key, v, es, fault, rfl, nofun, hv, rfl⟩
    · have hadmitted : ∀ entry ∈ (key, v) :: before, entry.2.Admitted :=
        List.forall_mem_cons.2 ⟨hv, hbefore⟩
      exact ⟨(key, v) :: before, key', v', after, fault, rfl, hadmitted, hv', rfl⟩

/-! Entries behind the first refused one do not matter, nor do admitted ones before it. -/

theorem FirstRefused.append_right {es : List (Text × Toml)} {e : Error} (h : FirstRefused es e)
    (more : List (Text × Toml)) : FirstRefused (es ++ more) e := by
  obtain ⟨before, key, v, after, fault, rfl, hbefore, hv, rfl⟩ := h
  exact ⟨before, key, v, after ++ more, fault, by simp, hbefore, hv, rfl⟩

theorem FirstRefused.append_left {es more : List (Text × Toml)} {e : Error}
    (ha : ∀ entry ∈ es, entry.2.Admitted) (h : FirstRefused more e) :
    FirstRefused (es ++ more) e := by
  induction es with
  | nil => exact h
  | cons entry es ih =>
    obtain ⟨hentry, hes⟩ := List.forall_mem_cons.1 ha
    exact firstRefused_cons_iff.2 (.inr ⟨hentry, ih hes⟩)

/-- Entries of which one is refused are not all admitted. -/
theorem FirstRefused.not_forall {es : List (Text × Toml)} {e : Error} (h : FirstRefused es e) :
    ¬∀ entry ∈ es, entry.2.Admitted := by
  obtain ⟨before, key, v, after, fault, rfl, _, hv, _⟩ := h
  intro hall
  exact hv.not_admitted (hall (key, v) (by simp))

/-- There is only one first entry, and it is refused for one reason: the error is determined. -/
theorem FirstRefused.unique {es : List (Text × Toml)} {a b : Error} (ha : FirstRefused es a)
    (hb : FirstRefused es b) : a = b := by
  induction es with
  | nil =>
    obtain ⟨before, _, _, _, _, hnil, _⟩ := ha
    cases before <;> cases hnil
  | cons entry es ih =>
    rcases firstRefused_cons_iff.1 ha with ⟨fault, hv, rfl⟩ | ⟨hv, ha⟩
    · rcases firstRefused_cons_iff.1 hb with ⟨fault', hv', rfl⟩ | ⟨hv', _⟩
      · rw [hv.unique hv']
      · exact absurd hv' hv.not_admitted
    · rcases firstRefused_cons_iff.1 hb with ⟨fault', hv', _⟩ | ⟨_, hb⟩
      · exact absurd hv hv'.not_admitted
      · exact ih ha hb

/-! ## Tables

    A value may be a table, whose entries have values; so each statement about values is proved
    together with one about entries, by recursion on the document. -/

mutual

/-- A value is stored as what mirrors it. -/
theorem ofToml_eq_ok_iff (key : Text) :
    ∀ (v : Toml) (w : Value), Value.ofToml key v = .ok w ↔ Mirrors v w
  | .boolean b, w => by
    rw [Value.ofToml]
    constructor
    · rintro ⟨⟩; exact .boolean b
    · rintro ⟨⟩; rfl
  | .integer n, w => by
    rw [Value.ofToml]
    constructor
    · intro h
      split at h
      · next m hm =>
        cases h
        rw [toInt32?_eq_some_iff.1 hm]
        exact .integer m
      · cases h
    · rintro ⟨⟩
      rw [toInt32?_eq_some_iff.2 rfl]
  | .float x, w => by
    rw [Value.ofToml]
    constructor
    · rintro ⟨⟩; exact .float x
    · rintro ⟨⟩; rfl
  | .string s, w => by
    rw [Value.ofToml]
    constructor
    · rintro ⟨⟩; exact .string s
    · rintro ⟨⟩; rfl
  | .datetime written, w => by
    rw [Value.ofToml]
    constructor
    · nofun
    · nofun
  | .array items, w => by
    rw [Value.ofToml, ← ofItems_eq_ok_iff]
    cases Value.ofItems items <;> simp [Except.mapError]
  | .table entries, w => by
    rw [Value.ofToml]
    constructor
    · intro h
      cases hes : Value.ofEntries entries with
      | error e =>
        rw [hes] at h
        cases h
      | ok stored =>
        rw [hes] at h
        cases h
        exact .table ((ofEntries_eq_ok_iff entries stored).1 hes)
    · rintro (_ | _ | _ | _ | _ | _ | _ | _ | hall)
      rw [(ofEntries_eq_ok_iff entries _).2 hall]
      rfl

/-- The entries of a table are stored as what mirrors them. -/
theorem ofEntries_eq_ok_iff : ∀ (es : List (Text × Toml)) (ws : List (Text × Value)),
    Value.ofEntries es = .ok ws ↔ MirrorsAll es ws
  | [], ws => by
    rw [Value.ofEntries]
    constructor
    · rintro ⟨⟩; exact .nil
    · rintro ⟨⟩; rfl
  | (key, v) :: rest, ws => by
    rw [Value.ofEntries]
    constructor
    · intro h
      cases hv : Value.ofToml key v with
      | error e =>
        rw [hv] at h
        cases h
      | ok w =>
        cases hrest : Value.ofEntries rest with
        | error e =>
          rw [hv, hrest] at h
          cases h
        | ok stored =>
          rw [hv, hrest] at h
          cases h
          exact .cons ((ofToml_eq_ok_iff key v w).1 hv) ((ofEntries_eq_ok_iff rest stored).1 hrest)
    · rintro (_ | ⟨h, hr⟩)
      rw [(ofToml_eq_ok_iff key v _).2 h, (ofEntries_eq_ok_iff rest _).2 hr]
      rfl

end

mutual

/-- **A value that is not stored is refused, or something below it is**, and the first of these is
    named. -/
theorem firstRefused_of_ofToml {key : Text} {e : Error} :
    ∀ {v : Toml}, Value.ofToml key v = .error e → FirstRefused ((key, v) :: nested v) e
  | .boolean _, h | .float _, h | .string _, h => by
    rw [Value.ofToml] at h
    cases h
  | .integer n, h => by
    rw [Value.ofToml] at h
    split at h
    · cases h
    · next hn =>
      cases h
      exact firstRefused_cons_iff.2 (.inl ⟨_, .integer (toInt32?_eq_none_iff.1 hn), rfl⟩)
  | .datetime written, h => by
    rw [Value.ofToml] at h
    cases h
    exact firstRefused_cons_iff.2 (.inl ⟨_, .datetime written, rfl⟩)
  -- An array is refused itself: its items are not values of their own.
  | .array items, h => by
    rw [Value.ofToml] at h
    cases hitems : Value.ofItems items with
    | ok w =>
      rw [hitems] at h
      cases h
    | error fault =>
      rw [hitems] at h
      cases h
      exact firstRefused_cons_iff.2 (.inl ⟨fault, refused_of_ofItems hitems, rfl⟩)
  -- A table is never refused itself, only what is in it.
  | .table entries, h => by
    rw [Value.ofToml] at h
    cases hes : Value.ofEntries entries with
    | ok stored =>
      rw [hes] at h
      cases h
    | error e' =>
      rw [hes] at h
      cases h
      rw [nested]
      exact firstRefused_cons_iff.2 (.inr ⟨.table entries, firstRefused_of_ofEntries hes⟩)

/-- Of the entries of a table the first bad one is named: if the first entry is stored, the error
    comes from the rest. -/
theorem firstRefused_of_ofEntries {e : Error} :
    ∀ {es : List (Text × Toml)}, Value.ofEntries es = .error e → FirstRefused (listed es) e
  | [], h => by
    rw [Value.ofEntries] at h
    cases h
  | (key, v) :: rest, h => by
    rw [Value.ofEntries] at h
    rw [listed, ← List.cons_append]
    cases hv : Value.ofToml key v with
    | error e' =>
      rw [hv] at h
      cases h
      exact (firstRefused_of_ofToml hv).append_right _
    | ok w =>
      -- All that comes before the rest of the table is stored, so it is admitted.
      have hmirrors := (ofToml_eq_ok_iff key v w).1 hv
      have hadmitted : ∀ entry ∈ (key, v) :: nested v, entry.2.Admitted :=
        List.forall_mem_cons.2 ⟨hmirrors.admitted, hmirrors.forall_nested⟩
      cases hrest : Value.ofEntries rest with
      | ok stored =>
        rw [hv, hrest] at h
        cases h
      | error e' =>
        rw [hv, hrest] at h
        cases h
        exact .append_left hadmitted (firstRefused_of_ofEntries hrest)

end

end Toml

/-! ## Storing by setting

  A table has no key twice.  Where that is so, making the dictionary entry by entry and setting one
  key after the other are the same. -/

/-- The entries of a table whose keys are all different are those that a walk gives which sets one
    key after the other: no entry takes the place of one before it.  Tables have different keys, at
    every level, and each is stored by this walk. -/
theorem Value.ofEntries_eq_foldlM {es : List (Text × Toml)} (h : (es.map Prod.fst).Nodup) :
    (Value.ofEntries es).map Dictionary.mk =
      es.foldlM (fun d e => (Value.ofToml e.1 e.2).map (d.set e.1 ·)) Dictionary.empty := by
  -- From a dictionary that has none of the keys, the walk appends.
  suffices hwalk : ∀ d : Dictionary, (∀ key ∈ es.map Prod.fst, key ∉ d.keys) →
      es.foldlM (fun d e => (Value.ofToml e.1 e.2).map (d.set e.1 ·)) d =
        (Value.ofEntries es).map fun ws => ⟨d.entries ++ ws⟩ from
    (hwalk .empty fun _ _ => List.not_mem_nil).symm
  induction es with
  | nil =>
    intro d _
    rw [Value.ofEntries, List.foldlM_nil]
    show Except.ok d = Except.ok ⟨d.entries ++ []⟩
    rw [List.append_nil]
  | cons e es ih =>
    obtain ⟨key, v⟩ := e
    obtain ⟨hkey, hrest⟩ := List.nodup_cons.1 h
    intro d hd
    rw [List.foldlM_cons, Value.ofEntries]
    cases Value.ofToml key v with
    | error e => rfl
    | ok w =>
      have hset : d.set key w = ⟨d.entries ++ [(key, w)]⟩ := by
        rw [Dictionary.set, Entries.set_of_notMem (hd key List.mem_cons_self)]
      have hnew : ∀ k ∈ es.map Prod.fst, k ∉ (d.set key w).keys := by
        intro k hk
        rw [hset, Dictionary.keys, List.map_append, List.mem_append, List.map_singleton,
          List.mem_singleton]
        rintro (hold | rfl)
        · exact hd k (List.mem_cons_of_mem _ hk) hold
        · exact hkey hk
      show es.foldlM _ (d.set key w) = _
      rw [ih hrest _ hnew, hset]
      cases Value.ofEntries es with
      | error e => rfl
      | ok ws => exact congrArg Except.ok (congrArg Dictionary.mk (List.append_assoc ..))

/-- **A table is stored as the dictionary that mirrors it, or its first bad entry is named.**  It is
    stored exactly where every entry, of tables within it too, is admitted: a boolean, a float, a
    string, an integer of 32 bits, a table, or an array of two or three numbers.  The dictionary has
    the same keys in the same order at every level; integers of 32 bits make vectors of integers,
    all other numbers vectors of doubles.  The error is about the first entry that is refused, depth
    first in the order of the tables, names this entry's own key alone, and tells what is wrong with
    its value. -/
theorem Dictionary.ofToml_mirrors (table : List (Text × Toml)) :
    ((∃ d, ofToml table = .ok d) ↔ ∀ entry ∈ Toml.listed table, entry.2.Admitted) ∧
    (∀ d, ofToml table = .ok d ↔ Toml.MirrorsAll table d.entries) ∧
    ∀ e, ofToml table = .error e ↔ Toml.FirstRefused (Toml.listed table) e := by
  -- The middle statement, and one direction of the last; the others follow, since a table is either
  -- stored or not, and entries are not both all admitted and one refused.
  have stored : ∀ d, ofToml table = .ok d ↔ Toml.MirrorsAll table d.entries := by
    rintro ⟨entries⟩
    rw [← Toml.ofEntries_eq_ok_iff, ofToml]
    cases Value.ofEntries table <;> simp [Except.map]
  have refused : ∀ {e}, ofToml table = .error e → Toml.FirstRefused (Toml.listed table) e := by
    intro e h
    cases hes : Value.ofEntries table with
    | ok entries =>
      rw [ofToml, hes] at h
      cases h
    | error e' =>
      rw [ofToml, hes] at h
      cases h
      exact Toml.firstRefused_of_ofEntries hes
  have admitted : ∀ {d}, ofToml table = .ok d → ∀ entry ∈ Toml.listed table, entry.2.Admitted :=
    fun h => ((stored _).1 h).forall_listed
  refine ⟨⟨?_, fun hall => ?_⟩, stored, fun e => ⟨refused, fun hfirst => ?_⟩⟩
  · rintro ⟨d, h⟩
    exact admitted h
  · cases h : ofToml table with
    | ok d => exact ⟨d, rfl⟩
    | error e => exact absurd hall (refused h).not_forall
  · cases h : ofToml table with
    | ok d => exact absurd (admitted h) hfirst.not_forall
    | error e' => rw [(refused h).unique hfirst]

/-- The inner key is named, and the string in the array comes before its length. -/
example : Dictionary.ofToml [("a".toList, .boolean true), ("b".toList, .table [("c".toList,
    .array [.integer 1, .string [], .integer 2, .integer 3])]), ("d".toList, .datetime [])] =
      .error (.unstorable "c".toList .vectorElement) := rfl

end ShaderWeave
