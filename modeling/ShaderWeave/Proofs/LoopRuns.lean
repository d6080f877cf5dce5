/-
  Getting through a loop.

  A loop is open from the step that reads its header up to the step that closes it, and all that
  happens in between (loops inside it, included files, going back for the next key) happens above it
  on the stack of loops.  `GetsThrough` says that a run from the state in which a loop was opened
  comes to the state in which it was closed, without saying how.

    * `LoopStep` is what one step can do to an open loop: the step is inside the loop, or the loop
      is innermost and the step counts a header it skips, ends one of its turns, or closes it
      (`loopStep_of_transition`).
    * `turns` counts, along a run, the lines that end a turn of a loop.  **While a loop is open, as
      many of its keys are done as turns were ended** (`GetsThrough.inLoop`), so a loop that is got
      through has had one turn for each key (`GetsThrough.closes`).
-/
import ShaderWeave.Proofs.Body
import ShaderWeave.Proofs.LoopNames

namespace ShaderWeave
namespace Pass

/-- From `q`, in which a loop was opened last, the pass gets through the loop in `n` steps: the loop
    is open until the last of them, which leads to `s`. -/
structure GetsThrough (job : Job) (q : Pass) (n : Nat) (s : Pass) : Prop where
  ends : after job n (.next q) = .next s
  stays : ∀ k < n, ∀ r, after job k (.next q) = .next r → q.loops.length ≤ r.loops.length
  closed : s.loops.length < q.loops.length

/-- Where a pass gets through a loop, it does so once. -/
theorem GetsThrough.unique {job : Job} {q s s' : Pass} {m n : Nat} (h : GetsThrough job q m s)
    (h' : GetsThrough job q n s') : m = n ∧ s = s' := by
  have hle :
      ∀ {m n : Nat} {s s' : Pass}, GetsThrough job q m s → GetsThrough job q n s' → n ≤ m := by
    intro m n s s' h h'
    refine Nat.le_of_not_lt fun hlt => ?_
    have hstays := h'.stays m hlt s h.ends
    exact absurd h.closed (Nat.not_lt.2 hstays)
  have heq : m = n := Nat.le_antisymm (hle h' h) (hle h h')
  subst heq
  have hends := h.ends.symm.trans h'.ends
  cases hends
  exact ⟨rfl, rfl⟩

/-- Whether at least `height` loops are open before each of `n` steps from `s`. -/
def staysOpen (job : Job) (height : Nat) : Nat → Step → Bool
  | 0, _ => true
  | _, .stop _ => true
  | n + 1, .next p => decide (height ≤ p.loops.length) && staysOpen job height n (p.step job)

/-- For a run that is at hand, this is checked by evaluation. -/
theorem le_length_of_staysOpen {job : Job} {height n : Nat} {s : Step}
    (h : staysOpen job height n s = true) :
    ∀ k < n, ∀ r, after job k s = .next r → height ≤ r.loops.length := by
  fun_induction staysOpen job height n s with
  | case1 =>
    intro k hk
    exact absurd hk (Nat.not_lt_zero _)
  | case2 n o =>
    intro k _ r hr
    rw [after_stop] at hr
    cases hr
  | case3 n p ih =>
    rw [Bool.and_eq_true, decide_eq_true_iff] at h
    intro k hk r hr
    cases k with
    | zero =>
      cases hr
      exact h.1
    | succ k => exact ih h.2 k (Nat.lt_of_succ_lt_succ hk) r hr

/-- The innermost file was read up to the header in line `line`, and `body` are the lines behind
    it. -/
def BehindHeader (line : Nat) (body : List Text) (r : Pass) : Prop :=
  ∃ f outer, r.files = f :: outer ∧ f.line = line ∧ f.unread = body

/-- Once a loop is opened its file is read up to the header, and the loop is the innermost one. -/
theorem Opens.exists_next {job : Job} {p : Pass} {header : LoopHeader} {d : Dictionary} {l : Loop}
    (h : Opens job p header d l) :
    ∃ q f outer, step job p = .next q ∧ q.files = f :: outer ∧ f.line = l.header ∧
      f.unread = l.body ∧ l.depth = outer.length ∧ l.skipped = 0 ∧ l.keys = d.keys ∧
      q.loops = l :: p.loops := by
  obtain @⟨f, outer, raw, unread, line, ranges, name, hf, hu, ha, hc, he, hd, hg, hr, hv, hl⟩ := h
  cases hk : d.keys with
  | nil =>
    refine ⟨_, f.advance unread, outer, step_of_effect hf hu (.openEmpty ha hc he hd hg hr hv hk),
      rfl, ?_⟩
    rw [hl, hk]
    exact ⟨rfl, rfl, rfl, rfl, rfl, rfl⟩
  | cons key more =>
    refine ⟨_, f.advance unread, outer, step_of_effect hf hu (.opens ha hc he hd hg hr hv hk rfl),
      rfl, ?_⟩
    rw [hl, hk]
    exact ⟨rfl, rfl, rfl, rfl, rfl, rfl⟩

/-- Whether the line read next ends a turn of the loop with `height` loops around it. -/
def endsTurn (height : Nat) (p : Pass) : Bool :=
  match p.files, p.loops with
  | ⟨_, _, _, raw :: _, _⟩ :: _, l :: loops =>
    raw.closes && !l.keys.isEmpty && loops.length == height
  | _, _ => false

/-- How many turns of the loop with `height` loops around it are ended in the first steps from
    `q`. -/
def turns (job : Job) (height : Nat) (q : Pass) : Nat → Nat
  | 0 => 0
  | k + 1 => turns job height q k +
    match after job k (.next q) with
    | .next r => (endsTurn height r).toNat
    | .stop _ => 0

section Steps

variable {job : Job} {q r r' : Pass} {height k : Nat}

/-- A step adds the turn that it ends. -/
theorem turns_succ (h : after job k (.next q) = .next r) :
    turns job height q (k + 1) = turns job height q k + (endsTurn height r).toNat := by
  rw [turns, h]

/-- A state that a run comes to has a state before it. -/
theorem exists_transition_of_after {s : Step} (h : after job (k + 1) s = .next r') :
    ∃ r, after job k s = .next r ∧ Transition job r r' := by
  rw [after_add] at h
  cases hr : after job k s with
  | stop o =>
    rw [hr, after_stop] at h
    cases h
  | next r =>
    rw [hr, after, after] at h
    exact ⟨r, rfl, step_eq_next_iff.1 h⟩

/-- The line read next, where it ends a turn. -/
theorem endsTurn_eq {f : OpenFile} {outer : List OpenFile} {raw : Text} {unread : List Text}
    {l : Loop} {loops : List Loop} (hf : r.files = f :: outer) (hu : f.unread = raw :: unread)
    (hl : r.loops = l :: loops) :
    endsTurn height r = (raw.closes && !l.keys.isEmpty && loops.length == height) := by
  obtain ⟨path, id, line, unread', indentation⟩ := f
  cases hu
  unfold endsTurn
  rw [hf, hl]

/-- No turn ends at a file's end. -/
theorem endsTurn_of_end {f : OpenFile} {outer : List OpenFile} (hf : r.files = f :: outer)
    (hu : f.unread = []) : endsTurn height r = false := by
  obtain ⟨path, id, line, unread', indentation⟩ := f
  cases hu
  unfold endsTurn
  rw [hf]

/-- No turn ends at a line that closes no loop. -/
theorem endsTurn_of_isEnd {f : OpenFile} {outer : List OpenFile} {raw : Text} {unread : List Text}
    (hf : r.files = f :: outer) (hu : f.unread = raw :: unread)
    (hc : LoopHeader.isEnd raw.content = false) : endsTurn height r = false := by
  cases hl : r.loops with
  | nil =>
    unfold endsTurn
    rw [hl]
    split <;> simp_all
  | cons l loops =>
    rw [endsTurn_eq hf hu hl, Text.closes, hc]
    rfl

end Steps

/-! ## What a step does to an open loop

  The stack of loops is cut at the loop that is followed: below it nothing changes, above it
  anything may.  The loop itself can change only when nothing is above it. -/

/-- What the step from `r` to `r'` does to the open loop `l`, with the loops `inner` inside it and
    `base` around it. -/
inductive LoopStep (r : Pass) (inner : List Loop) (l : Loop) (base : List Loop) (r' : Pass) :
    Prop where
  /-- The step is inside the loop. -/
  | inside (inner' : List Loop) (hl : r'.loops = inner' ++ l :: base)
      (he : endsTurn base.length r = false)
  /-- The loop is empty and a header or its end is counted. -/
  | counted {skipped : Nat} (hi : inner = []) (hk : l.keys = [])
      (hl : r'.loops = { l with skipped } :: base) (he : endsTurn base.length r = false)
  /-- A turn is ended and the next one begins in the line after the header. -/
  | again {k key more f outer} (hi : inner = []) (hk : l.keys = k :: key :: more)
      (hl : r'.loops = { l with keys := key :: more } :: base) (hf : r'.files = f :: outer)
      (hline : f.line = l.header) (hbody : f.unread = l.body) (he : endsTurn base.length r = true)
  /-- The last turn is ended, or the loop had none. -/
  | closed (hi : inner = []) (hk : l.keys.length ≤ 1) (hl : r'.loops = base)
      (he : endsTurn base.length r = !l.keys.isEmpty)

/-- Each transition does one of these to a loop that is open. -/
theorem loopStep_of_transition {job : Job} {r r' : Pass} {inner base : List Loop} {l : Loop}
    (hl : r.loops = inner ++ l :: base) (h : Transition job r r') : LoopStep r inner l base r' := by
  -- A loop inside `l` has more loops around it than `l` has.
  have higher : ∀ rest : List Loop, ((rest ++ l :: base).length == base.length) = false := by
    intro rest
    rw [beq_eq_false_iff_ne, List.length_append, List.length_cons]
    omega
  cases h with
  | leave hf hu _ => exact .inside inner (by simpa using hl) (endsTurn_of_end hf hu)
  | @line f outer raw unread r' hf hu he =>
    cases he with
    | skip _ _ hc => exact .inside inner hl (endsTurn_of_isEnd hf hu hc)
    | deepen hl' hk hc =>
      cases inner with
      | nil =>
        obtain ⟨rfl, rfl⟩ := List.cons.inj (hl.symm.trans hl')
        exact .counted rfl hk rfl (endsTurn_of_isEnd hf hu hc)
      | cons m inner =>
        rw [List.cons_append] at hl
        obtain ⟨rfl, rfl⟩ := List.cons.inj (hl.symm.trans hl')
        exact .inside (_ :: inner) rfl (endsTurn_of_isEnd hf hu hc)
    | rise hl' hk _ _ =>
      have hends : ∀ height, endsTurn height r = false := by
        intro height
        rw [endsTurn_eq hf hu hl', hk]
        simp
      cases inner with
      | nil =>
        obtain ⟨rfl, rfl⟩ := List.cons.inj (hl.symm.trans hl')
        exact .counted rfl hk rfl (hends _)
      | cons m inner =>
        rw [List.cons_append] at hl
        obtain ⟨rfl, rfl⟩ := List.cons.inj (hl.symm.trans hl')
        exact .inside (_ :: inner) rfl (hends _)
    | again hl' hk hc =>
      cases inner with
      | nil =>
        obtain ⟨rfl, rfl⟩ := List.cons.inj (hl.symm.trans hl')
        refine .again rfl hk rfl rfl rfl rfl ?_
        rw [endsTurn_eq hf hu hl', Text.closes, hc, hk]
        simp
      | cons m inner =>
        rw [List.cons_append] at hl
        obtain ⟨rfl, rfl⟩ := List.cons.inj (hl.symm.trans hl')
        refine .inside (_ :: inner) rfl ?_
        rw [endsTurn_eq hf hu hl', higher inner, Bool.and_false]
    | close hl' hk hc =>
      cases inner with
      | nil =>
        obtain ⟨rfl, rfl⟩ := List.cons.inj (hl.symm.trans hl')
        refine .closed rfl ?_ rfl ?_
        · rcases hk with ⟨hk, _⟩ | ⟨key, hk⟩ <;> simp [hk]
        · rw [endsTurn_eq hf hu hl', Text.closes, hc]
          simp
      | cons m inner =>
        rw [List.cons_append] at hl
        obtain ⟨rfl, rfl⟩ := List.cons.inj (hl.symm.trans hl')
        refine .inside inner rfl ?_
        rw [endsTurn_eq hf hu hl', higher inner, Bool.and_false]
    | version _ hc => exact .inside inner hl (endsTurn_of_isEnd hf hu hc)
    | platform _ hc => exact .inside inner hl (endsTurn_of_isEnd hf hu hc)
    | inclusion _ hc => exact .inside inner hl (endsTurn_of_isEnd hf hu hc)
    | openEmpty _ hc => exact .inside (_ :: inner) (congrArg _ hl) (endsTurn_of_isEnd hf hu hc)
    | opens _ hc => exact .inside (_ :: inner) (congrArg _ hl) (endsTurn_of_isEnd hf hu hc)
    | plain _ hc => exact .inside inner hl (endsTurn_of_isEnd hf hu hc)

/-! ## A whole run

  Keys that are done and turns that were ended go up together, one by one, from zero.  The run
  begins with all keys and ends with the last one, which is when the loop is closed. -/

/-- The loop that was opened as `l`, with the loops `base` around it, is open and done with `done`
    of its keys; one is left, unless there was none to begin with. -/
def InLoop (l : Loop) (base : List Loop) (done : Nat) (r : Pass) : Prop :=
  ∃ inner skipped, r.loops = inner ++ { l with keys := l.keys.drop done, skipped } :: base ∧
    (l.keys = [] ∧ done = 0 ∨ done < l.keys.length)

namespace GetsThrough

variable {job : Job} {q s : Pass} {n : Nat} {l : Loop} {base : List Loop}

/-- **While a loop is open, as many keys are done as turns were ended.** -/
theorem inLoop (h : GetsThrough job q n s) (hq : q.loops = l :: base) :
    ∀ k < n, ∀ r, after job k (.next q) = .next r →
      InLoop l base (turns job base.length q k) r := by
  intro k
  induction k with
  | zero =>
    intro _ r hr
    cases hr
    refine ⟨[], l.skipped, by rw [hq, turns, List.drop_zero]; rfl, ?_⟩
    cases hk : l.keys with
    | nil => exact .inl ⟨rfl, rfl⟩
    | cons key more => exact .inr (by simp [turns])
  | succ k ih =>
    intro hkn r' hr'
    obtain ⟨r, hr, htransition⟩ := exists_transition_of_after hr'
    obtain ⟨inner, skipped, hl, hdone⟩ := ih (by omega) r hr
    have hstays := h.stays (k + 1) hkn r' hr'
    rw [turns_succ hr]
    cases loopStep_of_transition hl htransition with
    | inside inner' hl' he =>
      rw [he]
      exact ⟨inner', skipped, hl', hdone⟩
    | @counted skipped' _ _ hl' he =>
      rw [he]
      exact ⟨[], skipped', hl', hdone⟩
    | @again key key' more _ _ _ hk hl' _ _ _ he =>
      -- The turn is ended and one key more is done; the one after it is still left.
      have hk : l.keys.drop (turns job base.length q k) = key :: key' :: more := hk
      have hnext : l.keys.drop (turns job base.length q k + 1) = key' :: more := by
        rw [← List.drop_drop, hk]
        rfl
      rw [he]
      refine ⟨[], skipped, ?_, .inr ?_⟩
      · rw [Bool.toNat_true, hnext]
        exact hl'
      · have hlength := congrArg List.length hnext
        rw [List.length_drop, List.length_cons] at hlength
        rw [Bool.toNat_true]
        omega
    | closed _ _ hl' _ =>
      -- The loop is still open, so it was not closed.
      rw [hl', hq, List.length_cons] at hstays
      omega

/-- Where a turn is ended and the loop stays open, the next turn begins behind the header. -/
theorem rewinds (h : GetsThrough job q n s) (hq : q.loops = l :: base) :
    ∀ k, k + 1 < n → ∀ r r', after job k (.next q) = .next r → endsTurn base.length r = true →
      after job (k + 1) (.next q) = .next r' → BehindHeader l.header l.body r' := by
  intro k hk r r' hr hends hr'
  obtain ⟨r₀, hr₀, htransition⟩ := exists_transition_of_after hr'
  rw [hr] at hr₀
  cases hr₀
  obtain ⟨inner, skipped, hl, _⟩ := h.inLoop hq k (by omega) r hr
  -- A turn is ended neither inside the loop nor in counted lines, and a loop that is closed does
  -- not stay open.
  cases loopStep_of_transition hl htransition with
  | inside _ _ he =>
    rw [hends] at he
    cases he
  | counted _ _ _ he =>
    rw [hends] at he
    cases he
  | again _ _ _ hf hline hbody _ => exact ⟨_, _, hf, hline, hbody⟩
  | closed _ _ hl' _ =>
    have hstays := h.stays (k + 1) hk r' hr'
    rw [hl', hq, List.length_cons] at hstays
    omega

/-- The last step closes the loop. -/
theorem exists_last (h : GetsThrough job q n s) (hq : q.loops = l :: base) :
    ∃ k r inner skipped, n = k + 1 ∧ after job k (.next q) = .next r ∧ Transition job r s ∧
      r.loops = inner ++
        { l with keys := l.keys.drop (turns job base.length q k), skipped } :: base ∧
      (l.keys = [] ∧ turns job base.length q k = 0 ∨
        turns job base.length q k < l.keys.length) := by
  cases n with
  | zero =>
    have hends := h.ends
    cases hends
    exact absurd h.closed (Nat.lt_irrefl _)
  | succ k =>
    obtain ⟨r, hr, htransition⟩ := exists_transition_of_after h.ends
    obtain ⟨inner, skipped, hl, hdone⟩ := h.inLoop hq k (by omega) r hr
    exact ⟨k, r, inner, skipped, rfl, hr, htransition, hl, hdone⟩

/-- **A loop that is got through has one turn for each key**, and the loops around it are open
    again. -/
theorem closes (h : GetsThrough job q n s) (hq : q.loops = l :: base) :
    s.loops = base ∧ turns job base.length q n = l.keys.length := by
  have hclosed := h.closed
  obtain ⟨k, r, inner, skipped, rfl, hr, htransition, hl, hdone⟩ := h.exists_last hq
  rw [turns_succ hr]
  -- In all cases but the last, the loop would be open still.
  cases loopStep_of_transition hl htransition with
  | inside inner' hl' =>
    rw [hl', hq, List.length_append, List.length_cons] at hclosed
    simp only [List.length_cons] at hclosed
    omega
  | counted _ _ hl' =>
    rw [hl', hq] at hclosed
    simp at hclosed
  | again _ _ hl' =>
    rw [hl', hq] at hclosed
    simp at hclosed
  | closed _ hk hl' he =>
    refine ⟨hl', ?_⟩
    simp only [List.length_drop] at hk
    -- The last turn counts if there was a key for it.
    rcases hdone with ⟨hnone, hzero⟩ | hsome
    · rw [he, hnone, hzero]
      rfl
    · have hleft : (l.keys.drop (turns job base.length q k)).isEmpty = false := by
        rw [List.isEmpty_eq_false_iff, ne_eq, List.drop_eq_nil_iff]
        omega
      rw [he, hleft]
      simp only [Bool.not_false, Bool.toNat_true]
      omega

end GetsThrough
end Pass
end ShaderWeave
