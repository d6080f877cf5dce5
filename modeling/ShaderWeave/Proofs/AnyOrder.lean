/-
  Tokens may be replaced in any order.

  A line is expanded from the right, its last token first, and the text of a value can bring new
  tokens, complete a token that was half written, or put a `#` in front of a brace.  Here a line is
  rewritten as freely as can be:

    1. **One rewriting** (`Swap`) — any token of the line whose name neither opens nor closes a
       token is replaced by the text of its name.
    2. **The crux** (`Swap.last_or_left`) — two such tokens never overlap, so a rewriting either
       replaces the last token or lies wholly to the left of the last opening, which it leaves
       alone.  Hence replacing the last token and rewriting elsewhere can be done in either order,
       with the same result.
    3. **Counting** (`replaces_of_swaps`) — `n` rewritings in any order that end in a line without
       openings are `n` rounds of replacing the last token.  The induction is on `n`, over all lines
       at once: when the first rewriting is not of the last token it is put off by one round.

  So a line has at most one expansion, and the number of replacements it takes is a property of the
  line.
-/
import Mathlib.Data.List.Infix
import ShaderWeave.Proofs.Expansion

namespace ShaderWeave
namespace Substitution

/-! ## Openings

  A token is opened by two characters and closed by one that is neither of them.  So an opening
  cannot reach over a closing brace, which is what keeps two tokens from overlapping. -/

/-- The text opens no token. -/
def Unopened (t : Text) : Prop := ¬['#', '{'] <:+: t

instance (t : Text) : Decidable (Unopened t) := inferInstanceAs (Decidable ¬['#', '{'] <:+: t)

/-- A text with an opening in it does open a token. -/
theorem not_unopened (before rest : Text) : ¬Unopened (before ++ '#' :: '{' :: rest) := by
  intro h
  exact h ⟨before, rest, by simp⟩

/-- A part of a text opens no token if the text does not. -/
theorem Unopened.of_append_left {a b : Text} (h : Unopened (a ++ b)) : Unopened a := by
  intro ha
  exact h (ha.trans (List.infix_append' [] a b))

/-- A text behind a brace opens a token only by itself. -/
theorem Unopened.append {a b : Text} (ha : Unopened a) (hb : Unopened b) :
    Unopened (a ++ '}' :: b) := by
  rintro ⟨l, r, he⟩
  rw [List.append_assoc, List.append_eq_append_iff] at he
  rcases he with ⟨m, rfl, hm⟩ | ⟨m, rfl, hm⟩
  · -- The opening starts in `a` and would have to end there, or take the brace for one of its
    -- characters.
    match m, hm with
    | [], hm => simp at hm
    | [_], hm => simp at hm
    | _ :: _ :: m, hm =>
      simp only [List.cons_append, List.nil_append, List.cons.injEq] at hm
      obtain ⟨rfl, rfl, _⟩ := hm
      exact not_unopened l m ha
  · cases m with
    | nil => simp at hm
    | cons c m =>
      simp only [List.cons_append, List.cons.injEq] at hm
      exact not_unopened m r (by simpa [hm.2] using hb)

/-! ## The last opening

  The program finds the last opening by a search from the right; here it is described by what it is,
  an opening after which none comes, and from that everything else about it follows. -/

/-! What comes before does not change where the last opening is: one character, or any text. -/

theorem cutLastOpening_cons {t l r : Text} (c : Char) (h : cutLastOpening t = some (l, r)) :
    cutLastOpening (c :: t) = some (c :: l, r) := by
  rw [cutLastOpening.eq_def]
  split
  · next e => cases e
  · next rest e =>
    cases e
    -- The opening is the first thing in the line, and there is one after it.
    rw [cutLastOpening, Option.map_eq_some_iff] at h
    · obtain ⟨⟨l', r'⟩, hrest, e⟩ := h
      cases e
      rw [hrest]
    · simp
  · next e =>
    cases e
    rw [h, Option.map_some]

theorem cutLastOpening_append {t l r : Text} (before : Text) (h : cutLastOpening t = some (l, r)) :
    cutLastOpening (before ++ t) = some (before ++ l, r) := by
  induction before with
  | nil => exact h
  | cons c before ih => exact cutLastOpening_cons c ih

/-- If there is an opening, there is a last one. -/
theorem exists_cutLastOpening (before rest : Text) :
    ∃ l r, cutLastOpening (before ++ '#' :: '{' :: rest) = some (l, r) := by
  cases h : cutLastOpening rest with
  | none =>
    have hfirst : cutLastOpening ('#' :: '{' :: rest) = some ([], rest) := by rw [cutLastOpening, h]
    exact ⟨_, _, cutLastOpening_append before hfirst⟩
  | some cut =>
    have hfirst : cutLastOpening ('#' :: '{' :: rest) = some ('#' :: '{' :: cut.1, cut.2) := by
      rw [cutLastOpening, h]
    exact ⟨_, _, cutLastOpening_append before hfirst⟩

/-- There is no last opening exactly where there is none. -/
theorem cutLastOpening_eq_none_iff {t : Text} : cutLastOpening t = none ↔ Unopened t := by
  constructor
  · rintro h ⟨l, r, rfl⟩
    obtain ⟨l', r', hsome⟩ := exists_cutLastOpening l r
    have he : l ++ ['#', '{'] ++ r = l ++ '#' :: '{' :: r := by simp
    rw [he, hsome] at h
    cases h
  · intro h
    cases hc : cutLastOpening t with
    | none => rfl
    | some cut =>
      rw [eq_append_of_cutLastOpening hc] at h
      exact absurd h (not_unopened _ _)

/-- **The last opening is the one after which none comes.** -/
theorem cutLastOpening_eq_some_iff {t l r : Text} :
    cutLastOpening t = some (l, r) ↔ t = l ++ '#' :: '{' :: r ∧ Unopened r := by
  constructor
  · intro h
    have ht := eq_append_of_cutLastOpening h
    refine ⟨ht, cutLastOpening_eq_none_iff.1 ?_⟩
    cases hc : cutLastOpening r with
    | none => rfl
    | some cut =>
      -- An opening behind the last one would be found instead, farther to the right.
      have hlate := cutLastOpening_append (l ++ ['#', '{']) hc
      rw [List.append_assoc] at hlate
      rw [ht] at h
      have hl := (Prod.mk.inj (Option.some.inj (h.symm.trans hlate))).1
      have hlength := congrArg List.length hl
      simp only [List.length_append, List.length_cons] at hlength
      omega
  · rintro ⟨rfl, hr⟩
    have hfirst : cutLastOpening ('#' :: '{' :: r) = some ([], r) := by
      rw [cutLastOpening, cutLastOpening_eq_none_iff.2 hr]
    have := cutLastOpening_append l hfirst
    rwa [List.append_nil] at this

/-- A line has no token left exactly if it opens none. -/
theorem lastToken_eq_absent_iff {t : Text} : lastToken t = .absent ↔ Unopened t := by
  rw [← cutLastOpening_eq_none_iff, lastToken]
  constructor
  · intro h
    split at h
    · assumption
    · split at h <;> cases h
  · intro h
    rw [h]

/-- What the last token is depends on what comes after the last opening. -/
theorem lastToken_of_unopened (before : Text) {rest : Text} (h : Unopened rest) :
    lastToken (before ++ '#' :: '{' :: rest) =
      match rest.cut '}' with
      | none => .unclosed
      | some (name, after) => .found before name after := by
  have hlast : cutLastOpening (before ++ '#' :: '{' :: rest) = some (before, rest) :=
    cutLastOpening_eq_some_iff.2 ⟨rfl, h⟩
  cases hcut : rest.cut '}' with
  | none => simp only [lastToken, hlast, hcut]
  | some cut => simp only [lastToken, hlast, hcut]

/-- What stands before the last opening does not matter for the last token. -/
theorem lastToken_before {l before name after r : Text} (hr : Unopened r)
    (h : lastToken (l ++ '#' :: '{' :: r) = .found before name after) :
    before = l ∧ ∀ l', lastToken (l' ++ '#' :: '{' :: r) = .found l' name after := by
  rw [lastToken_of_unopened l hr] at h
  split at h
  · cases h
  · next hcut =>
    cases h
    refine ⟨rfl, fun l' => ?_⟩
    rw [lastToken_of_unopened l' hr, hcut]

/-- The name of the last token neither closes nor opens a token, and none is opened after it. -/
theorem lastToken_eq_found_iff {t before name after : Text} :
    lastToken t = .found before name after ↔
      t = before ++ '#' :: '{' :: (name ++ '}' :: after) ∧ '}' ∉ name ∧ Unopened name ∧
      Unopened after := by
  constructor
  · intro h
    have ht := eq_append_of_lastToken h
    unfold lastToken at h
    split at h
    · cases h
    · next l rest hcut =>
      split at h
      · cases h
      · next n a hclose =>
        cases h
        obtain ⟨hrest, hn⟩ := Text.cut_eq_some_iff.1 hclose
        -- No token is opened behind the last opening, neither in the name nor after it.
        have hu := (cutLastOpening_eq_some_iff.1 hcut).2
        rw [hrest] at hu
        refine ⟨ht, hn, hu.of_append_left, ?_⟩
        rintro ⟨l, r, rfl⟩
        exact hu ⟨name ++ '}' :: l, r, by simp⟩
  · rintro ⟨rfl, hn, hname, hafter⟩
    rw [lastToken_of_unopened before (hname.append hafter), Text.cut_eq_some_iff.2 ⟨rfl, hn⟩]

/-! ## Rewriting

  A rewriting may replace any token, so many are possible on one line; the program does but one
  kind.  That all of them lead to the same line, in the same number, is the argument of a diamond
  that closes in one step on either side. -/

/-- One token, wherever it stands, is replaced by the text of its name. -/
inductive Swap (env : Environment) : Text → Text → Prop where
  | token (before after : Text) {name text : Text} (hclose : '}' ∉ name) (hopen : Unopened name)
      (he : env.expand name = .ok text) :
      Swap env (before ++ '#' :: '{' :: (name ++ '}' :: after)) (before ++ text ++ after)

/-- `n` tokens are replaced, one after the other. -/
inductive Swaps (env : Environment) : Nat → Text → Text → Prop where
  | zero {line} : Swaps env 0 line line
  | succ {n line next out} (h : Swap env line next) (hs : Swaps env n next out) :
      Swaps env (n + 1) line out

section Rewriting

variable {env : Environment} {line out : Text} {n : Nat}

/-- What follows a token does not matter for its replacement. -/
theorem Swap.append (h : Swap env line out) (t : Text) : Swap env (line ++ t) (out ++ t) := by
  obtain ⟨before, after, hclose, hopen, he⟩ := h
  have swap := Swap.token before (after ++ t) hclose hopen he
  simpa using swap

/-- **A rewriting replaces the last token, or it leaves the last opening and all that follows
    alone.** -/
theorem Swap.last_or_left (h : Swap env line out) :
    (∃ before name after text, lastToken line = .found before name after ∧
      env.expand name = .ok text ∧ out = before ++ text ++ after) ∨
    ∃ l l' r, Swap env l l' ∧ Unopened r ∧ line = l ++ '#' :: '{' :: r ∧
      out = l' ++ '#' :: '{' :: r := by
  obtain ⟨before, after, hclose, hopen, he⟩ := h
  cases hc : cutLastOpening after with
  | none =>
    have hafter := cutLastOpening_eq_none_iff.1 hc
    exact .inl ⟨before, _, after, _, lastToken_eq_found_iff.2 ⟨rfl, hclose, hopen, hafter⟩, he, rfl⟩
  | some cut =>
    -- The last opening comes behind the token, so the token is wholly to the left of it.
    obtain ⟨m, r⟩ := cut
    obtain ⟨rfl, hr⟩ := cutLastOpening_eq_some_iff.1 hc
    exact .inr ⟨_, _, r, Swap.token before m hclose hopen he, hr, by simp, by simp⟩

/-- Replacing the last token is a rewriting. -/
theorem swaps_of_replaces (h : Replaces env n line out) : Swaps env n line out := by
  induction h with
  | zero => exact .zero
  | succ ht he _ ih =>
    obtain ⟨rfl, hclose, hopen, _⟩ := lastToken_eq_found_iff.1 ht
    exact .succ (.token _ _ hclose hopen he) ih

/-- **Rewritings in any order are as many rounds of replacing the last token**, if no token is
    left. -/
theorem replaces_of_swaps (h : Swaps env n line out) (hout : Unopened out) :
    Replaces env n line out := by
  induction n generalizing line with
  | zero =>
    cases h
    exact .zero
  | succ n ih =>
    obtain - | ⟨swap, rest⟩ := h
    have hrest := ih rest
    rcases swap.last_or_left with
      ⟨before, name, after, text, ht, he, rfl⟩ | ⟨l, l', r, left, hr, rfl, rfl⟩
    · exact .succ ht he hrest
    · -- The rewriting is to the left of the last token. What follows replaces that token first, so
      -- the rewriting can be put off by one round.
      cases hrest with
      | zero => exact absurd hout (not_unopened _ _)
      | @succ n _ before name after text _ ht he hmore =>
        obtain ⟨rfl, hlast⟩ := lastToken_before hr ht
        have put_off : Swap env (l ++ text ++ after) (before ++ text ++ after) := by
          simpa using left.append (text ++ after)
        exact .succ (hlast l) he (ih (.succ put_off (swaps_of_replaces hmore)))

/-! ## The bound

  The number of replacements is a property of the line, so the bound lets a line through or stops it
  whatever the order is. -/

/-- A line that takes `n` replacements is expanded if so many are allowed, and not otherwise. -/
theorem expandWithin_of_replaces (h : Replaces env n line out) (hout : Unopened out) (limit : Nat)
    (loc : Location) (left : Nat) :
    expandWithin env limit loc left line =
      if n ≤ left then .ok out else .error (.malformed (.tooManySubstitutions limit) loc) := by
  induction h generalizing left with
  | zero =>
    rw [expandWithin, lastToken_eq_absent_iff.2 hout]
    simp
  | @succ n line before name after text out ht he _ ih =>
    rw [expandWithin, ht]
    cases left with
    | zero => simp
    | succ left =>
      simp only [he, Nat.add_le_add_iff_right]
      exact ih hout left

end Rewriting

/-- **The order of replacement does not matter.**  If `n` rewritings, in whatever order, lead from a
    line to one that opens no token, then expanding the line comes to this very line in `n` rounds;
    it succeeds where `n` replacements are allowed, and elsewhere it fails for having too many.
    Conversely, what a line is expanded to opens no token and comes out of as many rewritings as are
    allowed, or fewer. -/
theorem expandLine_any_order (env : Environment) (loc : Location) (line : Text) :
    (∀ n out, Swaps env n line out → Unopened out →
      Replaces env n line out ∧
      ∀ limit, expandLine env limit loc line =
        if n ≤ limit then .ok out else .error (.malformed (.tooManySubstitutions limit) loc)) ∧
    ∀ limit out, expandLine env limit loc line = .ok out →
      Unopened out ∧ ∃ n ≤ limit, Swaps env n line out := by
  constructor
  · intro n out hs hout
    have hr := replaces_of_swaps hs hout
    refine ⟨hr, fun limit => ?_⟩
    exact expandWithin_of_replaces hr hout limit loc limit
  · intro limit out h
    obtain ⟨habsent, n, hn, hr⟩ := replaces_of_expandLine h
    exact ⟨lastToken_eq_absent_iff.1 habsent, n, hn, swaps_of_replaces hr⟩

/-- A name that is the value of another, a digit, and half of an opening. -/
def halfOpening : Environment where
  aliases := .empty
  ranges := .empty
  dictionary :=
    ⟨[("x".toList, .string "y".toList), ("y".toList, .string "1".toList),
      ("s".toList, .string "#".toList)]⟩

/-- A token within a token, and a token whose text completes another. -/
def halfOpened : Text := "#\x7b#\x7bx\x7d\x7d#\x7bs\x7d\x7by\x7d".toList

/-- Four rewritings from the left, where the program goes from the right: four are enough, and three
    are not. -/
theorem expandLine_any_order_halfOpened :
    Swaps halfOpening 4 halfOpened "11".toList ∧ Unopened "11".toList ∧
    Replaces halfOpening 4 halfOpened "11".toList ∧
    expandLine halfOpening 4 ⟨[], 1⟩ halfOpened = .ok "11".toList ∧
    expandLine halfOpening 3 ⟨[], 1⟩ halfOpened =
      .error (.malformed (.tooManySubstitutions 3) ⟨[], 1⟩) ∧
    ∃ n ≤ 4, Swaps halfOpening n halfOpened "11".toList := by
  -- The tokens are replaced from the left: `x`, then the `y` it leads to, `s`, and the `y` it
  -- completes.
  have leftmost : Swaps halfOpening 4 halfOpened "11".toList := by
    refine .succ (@Swap.token _ "#\x7b".toList "\x7d#\x7bs\x7d\x7by\x7d".toList "x".toList
      "y".toList (by decide) (by decide) rfl) ?_
    refine .succ (@Swap.token _ [] "#\x7bs\x7d\x7by\x7d".toList "y".toList "1".toList (by decide)
      (by decide) rfl) ?_
    refine .succ (@Swap.token _ "1".toList "\x7by\x7d".toList "s".toList "#".toList (by decide)
      (by decide) rfl) ?_
    refine .succ (@Swap.token _ "1".toList [] "y".toList "1".toList (by decide) (by decide) rfl) ?_
    exact .zero
  obtain ⟨anyOrder, back⟩ := expandLine_any_order halfOpening ⟨[], 1⟩ halfOpened
  obtain ⟨rounds, bound⟩ := anyOrder 4 "11".toList leftmost (by decide)
  exact ⟨leftmost, by decide, rounds, bound 4, bound 3, (back 4 _ (bound 4)).2⟩

end Substitution
end ShaderWeave
