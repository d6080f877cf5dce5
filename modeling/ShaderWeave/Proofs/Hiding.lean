/-
  Which of the user's values ranges hide.

  A path is looked up among the dictionaries of ranges first and in the user's dictionary then, and
  a range that was made once is kept for the rest of the pass, also when its loop is closed.

    * The ranges that a state holds are those over which a loop was opened before
      (`mem_keys_iff_ran`): a transition keeps the ranges, or opens a loop and adds at most its
      range (`ranges_cases`).
    * Such a range gives a value for its name and for its name with a number behind a dot, and for
      no other path (`Dictionary.HoldsRanges.value?_eq_some_iff`).
    * So a value of the user's is hidden exactly where such a range gives another value for its
      path; one that is not hidden is written as if there were no ranges at all
      (`Preprocessor.value?_kept_iff`).

  A user's key can be any text, the name of a range too; `Preprocessor.value?_hidden` is a value
  that is lost.
-/
import ShaderWeave.Proofs.RangeLoops

namespace ShaderWeave

/-! ## What ranges give

  A range answers for its own name and for the numbers below it.  Since a state holds a range's
  whole dictionary or nothing of it, what all ranges of a state answer is what one of them does. -/

/-- Where a range's dictionary stands under its name, the range gives what the look-up finds. -/
theorem Range.Gives.value?_dictionary {r : Range} {ranges : Dictionary} {path : Text} {w : Value}
    (h : r.Gives path w)
    (hr : Entries.get? r.name ranges.entries = some (.dictionary r.dictionary.entries)) :
    ranges.value? path = some w := by
  have hname : ranges.value? r.name = some (.dictionary r.dictionary.entries) := by
    rw [Dictionary.value?_of_not_mem r.dot_not_mem_name]
    exact hr
  cases h with
  | whole => exact hname
  | @integer j hj =>
    have hdot : '.' ∉ Text.ofNat (j + 1) :=
      Text.not_mem_ofInt (by decide) (by decide) (Int.ofNat (j + 1))
    rw [Dictionary.value?_append, hname]
    show Dictionary.value? r.dictionary (Text.ofNat (j + 1)) = _
    rw [Dictionary.value?_of_not_mem hdot]
    exact Range.get?_dictionary hj

/-- **The dictionaries of ranges lead where one of the ranges does.** -/
theorem Dictionary.HoldsRanges.value?_eq_some_iff {ranges : Dictionary} (h : ranges.HoldsRanges)
    {path : Text} {w : Value} :
    ranges.value? path = some w ↔ ∃ r : Range, r.name ∈ ranges.keys ∧ r.Gives path w := by
  constructor
  · exact h.gives_of_value?
  · rintro ⟨r, hr, hgives⟩
    exact hgives.value?_dictionary (h.get?_name hr)

namespace Pass

variable {job : Job} {registry : Registry} {p q : Pass} {header : LoopHeader} {d : Dictionary}
  {l : Loop}

/-! ## Ranges that were run over

  A range is put into the state when a loop over it is opened, and stays.  So the ranges that are
  there tell which loops were opened before, whatever has been closed since. -/

/-- Before `p` the pass has opened a loop over the range. -/
def Ran (job : Job) (registry : Registry) (p : Pass) (r : Range) : Prop :=
  ∃ p₀ q₀ header d l, Reached job registry p₀ ∧ Opens job p₀ header d l ∧ header.key = none ∧
    Range.parse header.collection = .ok r ∧ step job p₀ = .next q₀ ∧ Leads job q₀ p

/-- What was run over before stays so. -/
theorem Ran.leads {r : Range} (h : Ran job registry p r) (hq : Leads job p q) :
    Ran job registry q r := by
  obtain ⟨p₀, q₀, header, d, l, hp₀, hopens, hkey, hparse, hq₀, hp⟩ := h
  exact ⟨p₀, q₀, header, d, l, hp₀, hopens, hkey, hparse, hq₀, hp.trans hq⟩

/-- A transition keeps the ranges, or opens a loop and has gathered what its header asks for. -/
theorem ranges_cases (h : Transition job p q) :
    q.ranges = p.ranges ∨
      ∃ header d l name, q.loops = l :: p.loops ∧ Opens job p header d l ∧
        header.gather p.ranges = .ok (q.ranges, name) := by
  cases h with
  | leave => exact .inl (by simp)
  | @line f outer raw unread q hf hu he =>
    cases he with
    | openEmpty ha hc he hd hg hr hv hk =>
      exact .inr ⟨_, _, _, _, rfl, .intro hf hu ha hc he hd hg hr hv (by rw [hk]; rfl), hg⟩
    | opens ha hc he hd hg hr hv hk hl =>
      subst hl
      exact .inr ⟨_, _, _, _, rfl, .intro hf hu ha hc he hd hg hr hv (by rw [hk]; rfl), hg⟩
    | _ => exact .inl rfl

/-- A loop that was opened has gathered what its header asks for. -/
theorem Opens.gather_ranges (h : Opens job p header d l) (hq : step job p = .next q) :
    ∃ name, header.gather p.ranges = .ok (q.ranges, name) := by
  obtain @⟨f, outer, raw, unread, line, ranges, name, hf, hu, ha, hc, he, hd, hg, hr, hv, hl⟩ := h
  refine ⟨name, ?_⟩
  cases hk : d.keys with
  | nil =>
    rw [step_of_effect hf hu (.openEmpty ha hc he hd hg hr hv hk)] at hq
    cases hq
    exact hg
  | cons key more =>
    rw [step_of_effect hf hu (.opens ha hc he hd hg hr hv hk rfl)] at hq
    cases hq
    exact hg

/-- A range is never taken away. -/
theorem mem_keys_of_leads (h : Leads job p q) {key : Text} (hp : key ∈ p.ranges.keys) :
    key ∈ q.ranges.keys := by
  refine h.keeps (P := fun p => key ∈ p.ranges.keys) (fun p q hp ht => ?_) hp
  rcases ranges_cases ht with hr | ⟨_, _, _, _, _, _, hg⟩
  · rw [hr]
    exact hp
  · rcases Dictionary.gather_cases hg with ⟨_, hr, _⟩ | ⟨_, r, hr, _⟩
    · rw [hr]
      exact hp
    · rw [hr]
      exact Dictionary.mem_keys_set.2 (.inl hp)

/-- A range that is there was put there when a loop was opened. -/
theorem ran_of_mem_keys (hp : Reached job registry p) (r : Range) :
    r.name ∈ p.ranges.keys → Ran job registry p r := by
  refine hp.induct (P := fun p => r.name ∈ p.ranges.keys → Ran job registry p r) ?_ ?_
  · intro p hstart hr
    obtain ⟨t, _, rfl⟩ := start_eq_next hstart
    cases hr
  · intro p q hp ih ht hr
    have hstep := step_eq_next_iff.2 ht
    have before : r.name ∈ p.ranges.keys → Ran job registry q r :=
      fun hmem => (ih hmem).leads (.of_step hstep)
    rcases ranges_cases ht with hranges | ⟨header, d, l, name, _, hopens, hg⟩
    · rw [hranges] at hr
      exact before hr
    · rcases Dictionary.gather_cases hg with ⟨_, hranges, _⟩ | ⟨hkey, s, hranges, _, hparse⟩
      · rw [hranges] at hr
        exact before hr
      · -- The range that is added is the one of this header, or it was there before.
        rw [hranges, Dictionary.mem_keys_set] at hr
        rcases hr with hr | hr
        · exact before hr
        · rw [Range.name_injective hr]
          exact ⟨p, q, header, d, l, hp, hopens, hkey, hparse, hstep, .refl job q⟩

/-- **A state holds the ranges over which loops were opened before it.** -/
theorem mem_keys_iff_ran (hp : Reached job registry p) {r : Range} :
    r.name ∈ p.ranges.keys ↔ Ran job registry p r := by
  refine ⟨ran_of_mem_keys hp r, ?_⟩
  rintro ⟨p₀, q₀, header, d, l, _, hopens, hkey, hparse, hq₀, hleads⟩
  obtain ⟨name, hg⟩ := hopens.gather_ranges hq₀
  refine mem_keys_of_leads hleads ?_
  rcases Dictionary.gather_cases hg with ⟨hne, _⟩ | ⟨_, s, hranges, _, hs⟩
  · exact absurd hkey hne
  · rw [hparse] at hs
    cases hs
    rw [hranges]
    exact Dictionary.mem_keys_set.2 (.inr rfl)

end Pass

/-! ## The user's values

  A token is looked up in two places, and the first one that answers counts.  The user's value is
  seen where the ranges say nothing, or happen to say the same. -/

/-- **A value of the user's is seen unless a range gives another one.**  In any state that a pass
    gets to, a path to a value of the user's dictionary leads to this value exactly where no range,
    over which a loop was opened before, gives a different value for the path; such a range is one
    whose name the path is, or starts with.  Every token that means a path to a value that is seen
    is then replaced as if there were no ranges. -/
theorem Preprocessor.value?_kept_iff (pre : Preprocessor) {p : Pass}
    (hp : Pass.Reached pre.job pre.registry p) {path : Text} {v : Value}
    (hv : pre.dictionary.value? path = some v) :
    ((p.environment pre.job).value? path = some v ↔
      ∀ r w, p.Ran pre.job pre.registry r → r.Gives path w → w = v) ∧
    ((p.environment pre.job).value? path = some v → ∀ name, p.aliases.resolve name = path →
      (p.environment pre.job).expand name =
        Environment.expand ⟨p.aliases, .empty, pre.dictionary⟩ name) := by
  have hranges := (Pass.Named.of_reached hp).ranges
  have hlookup : (p.environment pre.job).value? path = (p.ranges.value? path).or (some v) := by
    rw [← hv]
    rfl
  refine ⟨⟨fun hkept r w hr hgives => ?_, fun hfree => ?_⟩, ?_⟩
  · have hw : p.ranges.value? path = some w :=
      hranges.value?_eq_some_iff.2 ⟨r, (Pass.mem_keys_iff_ran hp).2 hr, hgives⟩
    rw [hlookup, hw] at hkept
    exact Option.some.inj hkept
  · rw [hlookup]
    cases hw : p.ranges.value? path with
    | none => rfl
    | some w =>
      obtain ⟨r, hr, hgives⟩ := hranges.value?_eq_some_iff.1 hw
      rw [hfree r w ((Pass.mem_keys_iff_ran hp).1 hr) hgives, Option.some_or]
  · rintro hkept name rfl
    -- A token asks for the value alone, so it is the same token without ranges.
    have hbare : Environment.value? ⟨p.aliases, .empty, pre.dictionary⟩ (p.aliases.resolve name) =
        some v := by
      unfold Environment.value?
      rw [Dictionary.value?_empty, Option.none_or, hv]
    refine Environment.expand_congr rfl ?_ fun _ => ?_
    · show Option.isSome ((p.environment pre.job).value? (p.aliases.resolve name)) = _
      rw [hkept, hbare]
    · show Option.bind ((p.environment pre.job).value? (p.aliases.resolve name)) _ = _
      rw [hkept, hbare]

/-- Two values under keys that are names of ranges; a loop runs over one of the ranges. -/
def Preprocessor.namedAsRanges : Preprocessor where
  filename := ⟨"/main".toList⟩
  dictionary := ⟨[("(Range 1 to 2)".toList, .int 7), ("(Range 1 to 3)".toList, .int 8)]⟩
  config := {}
  source := (Memory.ofList [(⟨"/main".toList⟩,
    .text "#for i in 1..2\n#endfor\n#\x7b(Range 1 to 2)\x7d\n".toList)]).source
  registry := {}

/-- After the loop over the one range, the value under the other's name is seen and written. -/
theorem Preprocessor.value?_kept_namedAsRanges :
    ∃ p, Pass.Reached namedAsRanges.job namedAsRanges.registry p ∧
      Pass.Ran namedAsRanges.job namedAsRanges.registry p ⟨1, 2⟩ ∧
      namedAsRanges.dictionary.value? "(Range 1 to 3)".toList = some (.int 8) ∧
      (p.environment namedAsRanges.job).value? "(Range 1 to 3)".toList = some (.int 8) ∧
      (p.environment namedAsRanges.job).expand "(Range 1 to 3)".toList = .ok "8".toList := by
  obtain ⟨p, hp, hkeys, haliases⟩ : ∃ p, Pass.Reached namedAsRanges.job namedAsRanges.registry p ∧
      p.ranges.keys = ["(Range 1 to 2)".toList] ∧ p.aliases = .empty := ⟨_, ⟨3, rfl⟩, rfl, rfl⟩
  have hran : Pass.Ran namedAsRanges.job namedAsRanges.registry p ⟨1, 2⟩ := by
    rw [← Pass.mem_keys_iff_ran hp, hkeys]
    decide
  have hv : namedAsRanges.dictionary.value? "(Range 1 to 3)".toList = some (.int 8) := rfl
  obtain ⟨hkept, hwritten⟩ := value?_kept_iff namedAsRanges hp hv
  have hseen := hkept.2 fun r w hr hgives => by
    rw [← Pass.mem_keys_iff_ran hp, hkeys, List.mem_singleton] at hr
    -- The path is neither the name of the range nor does it have a dot.
    generalize hpath : "(Range 1 to 3)".toList = path at hgives
    cases hgives with
    | whole =>
      rw [hr] at hpath
      exact absurd hpath (by decide)
    | integer =>
      have hdot : '.' ∈ "(Range 1 to 3)".toList := by
        rw [hpath]
        simp
      exact absurd hdot (by decide)
  refine ⟨p, hp, hran, hv, hseen, ?_⟩
  have hresolve : p.aliases.resolve "(Range 1 to 3)".toList = "(Range 1 to 3)".toList := by
    rw [haliases]
    rfl
  rw [hwritten hseen _ hresolve, haliases]
  rfl

/-- The value under the name of the range itself is seen before the loop, and hidden after it is
    closed: the pass ends in an error at the token, because the range's dictionary has no text. -/
theorem Preprocessor.value?_hidden :
    ∃ p q, Pass.Reached namedAsRanges.job namedAsRanges.registry p ∧
      Pass.Leads namedAsRanges.job p q ∧ q.loops = [] ∧
      namedAsRanges.dictionary.value? "(Range 1 to 2)".toList = some (.int 7) ∧
      (p.environment namedAsRanges.job).value? "(Range 1 to 2)".toList = some (.int 7) ∧
      (p.environment namedAsRanges.job).expand "(Range 1 to 2)".toList = .ok "7".toList ∧
      (q.environment namedAsRanges.job).value? "(Range 1 to 2)".toList =
        some (.dictionary (Range.mk 1 2).dictionary.entries) ∧
      namedAsRanges.process.2 = .error
        (.substitution "(Range 1 to 2)".toList
          (.unsupported "(Range 1 to 2)".toList) ⟨"/main".toList, 3⟩) := by
  have ends : Pass.after namedAsRanges.job 4 (Pass.start namedAsRanges.job namedAsRanges.registry) =
      .stop ⟨_, .error (.substitution "(Range 1 to 2)".toList (.unsupported "(Range 1 to 2)".toList)
        ⟨"/main".toList, 3⟩)⟩ := rfl
  exact ⟨_, _, ⟨0, rfl⟩, ⟨3, rfl⟩, rfl, rfl, rfl, rfl, rfl,
    congrArg Outcome.result (Pass.process_of_after 4 ends)⟩

end ShaderWeave
