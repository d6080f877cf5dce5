/-
  What the names of a loop mean.

  A loop `#for k, v in D` binds `k` to the current key, between quotes, and `v` to a path: that of
  the collection, a dot, the key.  Both are texts that are looked up anew for every token, and
  between two tokens other loops are opened, and dictionaries are made for ranges, which come before
  the user's own.

    * Making a dictionary for a range does not change where the path of an open loop leads
      (`value?_gather`), because the path starts with the name of a range that was made before, or
      with no range's name (`Settled`).
    * So every open loop still visits the dictionary it was opened over (`Loop.Visits`), some of
      whose keys it has gone through.  One lemma for each way a transition changes the loops shows
      that this is kept.
    * `Preprocessor.expand_loopNames` is what follows for the two names.  A key may be any text; but
      only a key without dots is reached by a path, so for one that has dots the value's name means
      nothing.
-/
import ShaderWeave.Proofs.Lookup
import ShaderWeave.Proofs.Scopes

namespace ShaderWeave

/-! ## The dictionaries of ranges

  Dictionaries of ranges are put beside each other under names that spell the range out, and are
  never taken away.  Putting one there a second time puts the same, so a path that leads through one
  of them leads there for good. -/

/-- Where the dictionary of a range leads: its name to the whole of it, and a number below the name
    to the integer at that place, as text. -/
inductive Range.Gives (r : Range) : Text → Value → Prop where
  | whole : Gives r r.name (.dictionary r.dictionary.entries)
  | integer {j : Nat} (h : j < r.size) :
      Gives r (r.name ++ '.' :: Text.ofNat (j + 1)) (.string (Text.ofInt (r.min.toInt + j)))

namespace Dictionary

/-- The entries are dictionaries of ranges, each under the range's name. -/
def HoldsRanges (ranges : Dictionary) : Prop :=
  ∀ e ∈ ranges.entries, ∃ r : Range, e = (r.name, .dictionary r.dictionary.entries)

/-- The start of a path is the name of a range in the dictionary, or of no range at all. -/
def Settled (ranges : Dictionary) (stem : Text) : Prop :=
  stem ∈ ranges.keys ∨ ∀ r : Range, stem ≠ r.name

variable {ranges ranges' : Dictionary} {path name : Text} {header : LoopHeader}

/-- A header without a key adds the dictionary of a range, under whose name the loop goes. -/
theorem gather_cases (h : header.gather ranges = .ok (ranges', name)) :
    (header.key ≠ none ∧ ranges' = ranges ∧ name = header.collection) ∨
      (header.key = none ∧ ∃ r : Range,
        ranges' = ranges.set r.name (.dictionary r.dictionary.entries) ∧
        name = r.name ∧ Range.parse header.collection = .ok r) := by
  unfold LoopHeader.gather at h
  split at h
  · next key hkey =>
    cases h
    exact .inl ⟨by simp [hkey], rfl, rfl⟩
  · next hkey =>
    cases hr : Range.parse header.collection with
    | error fault =>
      rw [hr] at h
      cases h
    | ok r =>
      rw [hr] at h
      cases h
      exact .inr ⟨hkey, r, rfl, rfl, rfl⟩

/-- A header adds at most the dictionary of its range. -/
theorem HoldsRanges.gather (h : HoldsRanges ranges)
    (hg : header.gather ranges = .ok (ranges', name)) : HoldsRanges ranges' := by
  rcases gather_cases hg with ⟨_, rfl, _⟩ | ⟨_, r, rfl, _⟩
  · exact h
  · intro e he
    rcases Entries.mem_set he with rfl | he
    · exact ⟨r, rfl⟩
    · exact h e he

/-- A path that is settled stays settled. -/
theorem Settled.gather {stem : Text} (h : Settled ranges stem)
    (hg : header.gather ranges = .ok (ranges', name)) : Settled ranges' stem := by
  rcases gather_cases hg with ⟨_, rfl, _⟩ | ⟨_, r, rfl, _⟩
  · exact h
  · exact h.imp_left fun hmem => mem_keys_set.2 (.inl hmem)

/-- The name tells the range, so its own dictionary stands under it. -/
theorem HoldsRanges.get?_name (h : HoldsRanges ranges) {r : Range} (hr : r.name ∈ ranges.keys) :
    Entries.get? r.name ranges.entries = some (.dictionary r.dictionary.entries) := by
  obtain ⟨value, hvalue⟩ := Entries.exists_get?_of_mem_keys hr
  obtain ⟨s, hs⟩ := h _ (Entries.mem_of_get?_eq hvalue)
  obtain ⟨hname, rfl⟩ := Prod.mk.inj hs
  rw [hvalue, Range.name_injective hname]

/-- **New ranges change no settled path.** -/
theorem value?_gather (h : HoldsRanges ranges) (hs : Settled ranges path.stem)
    (hg : header.gather ranges = .ok (ranges', name)) :
    ranges'.value? path = ranges.value? path := by
  rcases gather_cases hg with ⟨_, rfl, _⟩ | ⟨_, r, rfl, _⟩
  · rfl
  · refine value?_congr ?_
    unfold Dictionary.set
    rw [Entries.get?_set]
    split
    · next hstem =>
      -- The dictionary that is put under the name is the one that stands there.
      rcases hs with hmem | hne
      · rw [← hstem] at hmem ⊢
        exact (h.get?_name hmem).symm
      · exact absurd hstem.symm (hne r)
    · rfl

/-- A path to a value leads to a range's dictionary or to one of its integers. -/
theorem HoldsRanges.gives_of_value? (h : HoldsRanges ranges) {w : Value}
    (hw : ranges.value? path = some w) : ∃ r : Range, r.name ∈ ranges.keys ∧ r.Gives path w := by
  have integers : ∀ (r : Range) {key : Text} {v : Value},
      Entries.get? key r.dictionary.entries = some v →
      ∃ j < r.size, key = Text.ofNat (j + 1) ∧ v = .string (Text.ofInt (r.min.toInt + j)) := by
    intro r key v hv
    obtain ⟨j, hj, he⟩ := List.mem_map.1 (Entries.mem_of_get?_eq hv)
    obtain ⟨hkey, hvalue⟩ := Prod.mk.inj he
    exact ⟨j, List.mem_range.1 hj, hkey.symm, hvalue.symm⟩
  rcases value?_cases hw with hget | ⟨key, inner, rest, rfl, hget, hrest⟩
  · have hmem := Entries.mem_of_get?_eq hget
    obtain ⟨r, hr⟩ := h _ hmem
    obtain ⟨rfl, rfl⟩ := Prod.mk.inj hr
    exact ⟨r, List.mem_map_of_mem hmem, .whole⟩
  · have hmem := Entries.mem_of_get?_eq hget
    obtain ⟨r, hr⟩ := h _ hmem
    obtain ⟨rfl, hinner⟩ := Prod.mk.inj hr
    cases hinner
    refine ⟨r, List.mem_map_of_mem hmem, ?_⟩
    rcases value?_cases hrest with hget' | ⟨_, _, _, _, hget', _⟩
    · obtain ⟨j, hj, rfl, rfl⟩ := integers r hget'
      exact .integer hj
    · obtain ⟨_, _, _, hs⟩ := integers r hget'
      cases hs

/-- Only the name of a range leads to a dictionary, since the integers of a range are strings. -/
theorem HoldsRanges.eq_name_of_value? (h : HoldsRanges ranges) {entries : List (Text × Value)}
    (hv : ranges.value? path = some (.dictionary entries)) : ∃ r : Range, path = r.name := by
  obtain ⟨r, _, hgives⟩ := h.gives_of_value? hv
  cases hgives
  exact ⟨r, rfl⟩

end Dictionary

/-! ## Collections

  The path that a loop goes by starts with a word of its header, with a range's name or with the
  path of another loop.  In each case the beginning is settled. -/

/-- The parts of a header have no spaces, which every range's name has. -/
theorem LoopHeader.space_not_mem {line : Text} {header : LoopHeader}
    (h : Directive.parse line = .ok (.loop header)) :
    (∀ k ∈ header.key, ' ' ∉ k) ∧ ' ' ∉ header.value ∧ ' ' ∉ header.collection := by
  obtain ⟨hkey, hvalue, hcollection⟩ := isWord_of_parse (Directive.header_of_parse h)
  have hspace : Text.isSpace ' ' = true := by decide
  exact ⟨fun k hk => (hkey k hk).not_mem hspace, hvalue.not_mem hspace, hcollection.not_mem hspace⟩

/-- The name that a header's collection goes by is settled once its range is made. -/
theorem Dictionary.settled_gather {ranges ranges' : Dictionary} {line name : Text}
    {header : LoopHeader} (hparse : Directive.parse line = .ok (.loop header))
    (hg : header.gather ranges = .ok (ranges', name)) : ranges'.Settled name.stem := by
  rcases gather_cases hg with ⟨_, rfl, rfl⟩ | ⟨_, r, rfl, rfl, _⟩
  · refine .inr fun r hr => ?_
    have hspace := r.space_mem_name
    rw [← hr] at hspace
    exact (LoopHeader.space_not_mem hparse).2.2 ((List.takeWhile_sublist _).subset hspace)
  · rw [Text.stem_of_not_mem r.dot_not_mem_name]
    exact .inl (mem_keys_set.2 (.inr rfl))

/-- The key's name is bound to the quoted key, the value's name to a path below the collection. -/
theorem Loop.of_mem_scope {l : Loop} {b : Text × Text} (h : b ∈ l.scope) :
    (l.keyName = some b.1 ∧ ∃ quoted, b.2 = '"' :: quoted) ∨
      (l.valueName = b.1 ∧ ∃ key, b.2 = l.collection ++ '.' :: key) := by
  unfold scope at h
  split at h
  · cases h
  · next key _ _ =>
    rcases List.mem_append.1 h with h | h
    · obtain ⟨name, hname, rfl⟩ : ∃ name, l.keyName = some name ∧
        (name, '"' :: (key ++ ['"'])) = b := by
        simpa using h
      exact .inl ⟨hname, _, rfl⟩
    · rw [List.mem_singleton.1 h]
      exact .inr ⟨rfl, key, rfl⟩

namespace AliasTable

variable {loops : List Loop} {path : Text}

/-- What holds of quoted keys and of paths below collections holds of all that loops bind. -/
theorem holds_scopes {P : Text → Prop} (hquoted : ∀ quoted, P ('"' :: quoted))
    (hbelow : ∀ l ∈ loops, ∀ key, P (l.collection ++ '.' :: key)) :
    Holds P (ofScopes (loops.map Loop.scope)) := by
  refine holds_ofScopes fun s hs b hb => ?_
  obtain ⟨l, hl, rfl⟩ := List.mem_map.1 hs
  rcases Loop.of_mem_scope hb with ⟨_, quoted, hq⟩ | ⟨_, key, hk⟩
  · rw [hq]
    exact hquoted quoted
  · rw [hk]
    exact hbelow l hl key

/-- What a path is resolved to starts with its own start or with that of a collection. -/
theorem settled_resolve {ranges : Dictionary} (hl : ∀ l ∈ loops, ranges.Settled l.collection.stem)
    (hp : ranges.Settled path.stem) :
    ranges.Settled ((ofScopes (loops.map Loop.scope)).resolve path).stem := by
  have hquoted : ∀ quoted, ranges.Settled (Text.stem ('"' :: quoted)) := by
    refine fun quoted => .inr fun r hr => ?_
    rw [Range.name_eq] at hr
    exact absurd (congrArg List.head? hr) (by simp [Text.stem])
  refine stem_resolve (holds_scopes hquoted fun l hmem key => ?_) hp
  rw [Text.stem_append (.inr rfl)]
  exact hl l hmem

/-- A name without spaces is resolved to no range's name. -/
theorem resolve_ne_name (hp : ' ' ∉ path) (r : Range) :
    (ofScopes (loops.map Loop.scope)).resolve path ≠ r.name := by
  have holds : Holds (fun v => ∀ rest, v ++ rest ≠ r.name) (ofScopes (loops.map Loop.scope)) := by
    refine holds_scopes (fun quoted rest hr => ?_) fun l _ key rest hr => ?_
    · rw [Range.name_eq] at hr
      exact absurd (congrArg List.head? hr) (by simp)
    · have hdot : '.' ∈ l.collection ++ '.' :: key ++ rest := by simp
      rw [hr] at hdot
      exact r.dot_not_mem_name hdot
  unfold resolve
  split
  · next value hv => exact holds.get? hv _
  · rintro rfl
    exact hp r.space_mem_name

end AliasTable

namespace Pass

/-! ## Open loops

  A loop keeps a path and a list of keys, not the dictionary.  That the path still leads to the
  dictionary whose keys these are is the invariant. -/

/-- The line read next opens the loop `l` of `header` over the dictionary `d`. -/
inductive Opens (job : Job) (p : Pass) (header : LoopHeader) (d : Dictionary) (l : Loop) :
    Prop where
  | intro {f outer raw unread line ranges name} (hf : p.files = f :: outer)
      (hu : f.unread = raw :: unread) (ha : p.Active) (hc : LoopHeader.isEnd raw.content = false)
      (he : Expands job p (f.advance unread) raw line)
      (hd : Directive.parse line = .ok (.loop header))
      (hg : header.gather p.ranges = .ok (ranges, name))
      (hr : Environment.resolve? ⟨p.aliases, ranges, job.dictionary⟩ name = some l.collection)
      (hv : Environment.dictionary? ⟨p.aliases, ranges, job.dictionary⟩ l.collection = some d)
      (hl : l = ⟨outer.length, f.path.text, f.line + 1, unread, header.key, header.value,
        l.collection, d.keys, 0⟩)

/-- The loop is in turn `i` over the dictionary `d` that `header` opened it over: `i` of the keys
    are done. -/
def InTurn (job : Job) (registry : Registry) (l : Loop) (header : LoopHeader) (d : Dictionary)
    (i : Nat) : Prop :=
  ∃ p opened skipped, Reached job registry p ∧ Opens job p header d opened ∧
    l = { opened with keys := d.keys.drop i, skipped }

/-- Every open loop is over a dictionary to which its path still leads; that of a loop with a key's
    name is one of the user's. -/
structure Named (job : Job) (registry : Registry) (p : Pass) : Prop where
  ranges : p.ranges.HoldsRanges
  settled : ∀ l ∈ p.loops, p.ranges.Settled l.collection.stem
  turns : ∀ l ∈ p.loops, ∃ header d i, InTurn job registry l header d i ∧
    (p.environment job).dictionary? l.collection = some d ∧
    (l.keyName ≠ none → job.dictionary.value? l.collection = some (.dictionary d.entries))

namespace Named

variable {job : Job} {registry : Registry} {p q : Pass} {l : Loop} {loops : List Loop}

/-- No loop is opened or changed. -/
theorem kept (hp : Named job registry p) (hl : ∀ l ∈ q.loops, l ∈ p.loops)
    (hr : q.ranges = p.ranges) : Named job registry q where
  ranges := by rw [hr]; exact hp.ranges
  settled := by rw [hr]; exact fun l hmem => hp.settled l (hl l hmem)
  turns := by
    unfold environment
    rw [hr]
    exact fun l hmem => hp.turns l (hl l hmem)

/-- The innermost loop is done with some keys, or with lines of which none is read. -/
theorem advanced {j n : Nat} (hp : Named job registry p) (hl : p.loops = l :: loops)
    (hq : q.loops = { l with keys := l.keys.drop j, skipped := n } :: loops)
    (hr : q.ranges = p.ranges) : Named job registry q where
  ranges := by rw [hr]; exact hp.ranges
  settled := by
    have hsettled := hp.settled
    rw [hl, List.forall_mem_cons] at hsettled
    rw [hr, hq, List.forall_mem_cons]
    exact hsettled
  turns := by
    have hturns := hp.turns
    rw [hl, List.forall_mem_cons] at hturns
    unfold environment
    rw [hr, hq, List.forall_mem_cons]
    refine ⟨?_, hturns.2⟩
    obtain ⟨header, d, i, ⟨p₀, opened, skipped, hreached, hopens, rfl⟩, hd, hown⟩ := hturns.1
    refine ⟨header, d, i + j, ⟨p₀, opened, n, hreached, hopens, ?_⟩, hd, hown⟩
    simp only [List.drop_drop]

/-- A loop is opened. -/
theorem opened {header : LoopHeader} {d : Dictionary} {name : Text} (hp : Named job registry p)
    (hreached : Reached job registry p) (h : Opens job p header d l) (hq : q.loops = l :: p.loops)
    (hg : header.gather p.ranges = .ok (q.ranges, name)) : Named job registry q := by
  have haliases := (Disciplined.of_reached hreached).aliases_eq
  have hopens := h
  obtain @⟨f, outer, raw, unread, line, ranges, name, hf, hu, ha, hc, he, hparse, hg', hresolve, hv,
      hl⟩ := h
  rw [hg] at hg'
  obtain ⟨rfl, rfl⟩ := Prod.mk.inj (Except.ok.inj hg')
  have hcollection := Environment.eq_resolve_of_resolve? hresolve
  simp only [haliases] at hcollection
  have hsettled : ∀ m ∈ p.loops, q.ranges.Settled m.collection.stem :=
    fun m hm => (hp.settled m hm).gather hg
  have hkey : l.keyName = header.key := congrArg Loop.keyName hl
  refine ⟨hp.ranges.gather hg, ?_, ?_⟩
  · rw [hq, List.forall_mem_cons]
    refine ⟨?_, hsettled⟩
    rw [hcollection]
    exact AliasTable.settled_resolve hsettled (Dictionary.settled_gather hparse hg)
  · rw [hq, List.forall_mem_cons]
    constructor
    · have hkeys : l = { l with keys := d.keys.drop 0, skipped := 0 } := by rw [hl, List.drop_zero]
      refine ⟨header, d, 0, ⟨p, l, 0, hreached, hopens, hkeys⟩, hv, fun hne => ?_⟩
      -- Its name is no range's, so the dictionary is not that of a range.
      rcases Dictionary.gather_cases hg with ⟨_, hranges, rfl⟩ | ⟨hnone, _⟩
      · rcases Option.or_eq_some_iff.1 (Environment.dictionary?_eq_some_iff.1 hv) with hv | ⟨_, hv⟩
        · rw [hranges] at hv
          obtain ⟨r, hr⟩ := hp.ranges.eq_name_of_value? hv
          rw [hcollection] at hr
          exact absurd hr (AliasTable.resolve_ne_name (LoopHeader.space_not_mem hparse).2.2 r)
        · exact hv
      · exact absurd (hkey.trans hnone) hne
    · -- The other loops are where they were, and their paths are settled.
      intro m hm
      obtain ⟨header', d', i, hturn, hd, hown⟩ := hp.turns m hm
      refine ⟨header', d', i, hturn, ?_, hown⟩
      rw [Environment.dictionary?_eq_some_iff] at hd ⊢
      rw [← hd]
      unfold Environment.value? environment
      simp only
      rw [Dictionary.value?_gather hp.ranges (hp.settled m hm) hg]

/-- No transition changes the loops in another way. -/
theorem transition (hp : Named job registry p) (hreached : Reached job registry p)
    (h : Transition job p q) : Named job registry q := by
  cases h with
  | leave => exact hp.kept (by simp) (by simp)
  | @line f outer raw unread q hf hu he =>
    cases he with
    | skip => exact hp.kept (fun _ => id) rfl
    | deepen hl => exact hp.advanced (j := 0) hl rfl rfl
    | rise hl => exact hp.advanced (j := 0) hl rfl rfl
    | again hl hk => exact hp.advanced (j := 1) hl (by rw [hk]; rfl) rfl
    | close hl => exact hp.kept (fun l' => mem_of_mem_rest hl) rfl
    | version => exact hp.kept (fun _ => id) rfl
    | platform => exact hp.kept (fun _ => id) rfl
    | inclusion => exact hp.kept (fun _ => id) rfl
    | openEmpty ha hc he hd hg hr hv hk =>
      exact hp.opened hreached (.intro hf hu ha hc he hd hg hr hv (by rw [hk]; rfl)) rfl hg
    | opens ha hc he hd hg hr hv hk hl =>
      subst hl
      exact hp.opened hreached (.intro hf hu ha hc he hd hg hr hv (by rw [hk]; rfl)) rfl hg
    | plain => exact hp.kept (fun _ => id) rfl

/-- **Every loop that is open is over the dictionary it was opened over.** -/
theorem of_reached (h : Reached job registry p) : Named job registry p := by
  refine h.induct (fun p hp => ?_) fun p q hreached hp => hp.transition hreached
  obtain ⟨t, _, rfl⟩ := start_eq_next hp
  exact ⟨nofun, nofun, nofun⟩

end Named

/-! ## Names

  Of the loops that bind a name the innermost one counts; so to know what a name of a loop means,
  one has to know that no loop inside binds it. -/

/-- The value of a name is that of the loop which binds it last, of all loops around the line. -/
theorem get?_aliases {job : Job} {registry : Registry} {p : Pass} (hp : Reached job registry p)
    {inner outer : List Loop} {l : Loop} (hl : p.loops = inner ++ l :: outer) {name : Text}
    (hfree : ∀ m ∈ inner, ∀ b ∈ m.scope, b.1 ≠ name) {key : Text} {more : List Text}
    (hkeys : l.keys = key :: more) :
    p.aliases.get? name =
      (l.bindings key).foldl (fun found b => if b.1 = name then some b.2 else found)
        ((AliasTable.ofScopes (outer.map Loop.scope)).get? name) := by
  have hscope : l.scope = l.bindings key := by
    unfold Loop.scope
    rw [hkeys]
  rw [(Disciplined.of_reached hp).aliases_eq, hl, List.map_append, List.map_cons, hscope,
    AliasTable.get?_ofScopes_append, AliasTable.ofScopes_cons, AliasTable.get?_push]
  intro s hs
  obtain ⟨m, hm, rfl⟩ := List.mem_map.1 hs
  exact hfree m hm

end Pass

/-- **The names of a loop mean the current key and its value.**  Let `l` be an open loop with two
    different names without dots, which no loop inside it binds anew.  Then it is in some turn over
    a dictionary of the user's that its header opened it over, and the key's name is replaced by the
    key of that turn.  The value's name is replaced by the text of the value under that key, or
    refused where that is a dictionary, provided that the key has no dots and the value's path does
    not look like a quoted key. -/
theorem Preprocessor.expand_loopNames (pre : Preprocessor) {p : Pass}
    (hp : Pass.Reached pre.job pre.registry p) {inner outer : List Loop} {l : Loop}
    (hl : p.loops = inner ++ l :: outer) {k v : Text} (hk : l.keyName = some k)
    (hv : l.valueName = v) (hne : k ≠ v) (hkdot : '.' ∉ k) (hvdot : '.' ∉ v) {key : Text}
    {more : List Text} (hkeys : l.keys = key :: more)
    (hfree : ∀ m ∈ inner, ∀ b ∈ m.scope, b.1 ≠ k ∧ b.1 ≠ v) :
    ∃ header d i value, Pass.InTurn pre.job pre.registry l header d i ∧
      header.key = some k ∧ header.value = v ∧
      pre.dictionary.value? l.collection = some (.dictionary d.entries) ∧
      d.keys[i]? = some key ∧ Entries.get? key d.entries = some value ∧
      (p.environment pre.job).expand k = .ok key ∧
      ('.' ∉ key → Environment.isLiteral (l.collection ++ '.' :: key) = false →
        (∀ text, value.literal? = some text → (p.environment pre.job).expand v = .ok text) ∧
        ∀ entries, value = .dictionary entries →
          (p.environment pre.job).expand v =
            .error (.unsupported (l.collection ++ '.' :: key))) := by
  have hmem : l ∈ p.loops := by rw [hl]; simp
  obtain ⟨header, d, i, hturn, hd, hown⟩ := (Pass.Named.of_reached hp).turns l hmem
  have hnames : l.bindings key = [(k, '"' :: (key ++ ['"'])), (v, l.collection ++ '.' :: key)] := by
    rw [Loop.bindings, hk, hv]
    rfl
  have hkey : p.aliases.get? k = some ('"' :: (key ++ ['"'])) := by
    rw [Pass.get?_aliases hp hl (fun m hm b hb => (hfree m hm b hb).1) hkeys, hnames]
    simp [hne.symm]
  have hvalue : p.aliases.get? v = some (l.collection ++ '.' :: key) := by
    rw [Pass.get?_aliases hp hl (fun m hm b hb => (hfree m hm b hb).2) hkeys, hnames]
    simp
  have hi : d.keys[i]? = some key := by
    obtain ⟨_, _, _, _, _, rfl⟩ := hturn
    rw [← List.head?_drop, show d.keys.drop i = _ from hkeys, List.head?_cons]
  obtain ⟨value, hget⟩ := Entries.exists_get?_of_mem_keys (List.mem_of_getElem? hi)
  have hheader : header.key = some k ∧ header.value = v := by
    obtain ⟨_, opened, _, _, hopens, rfl⟩ := hturn
    obtain @⟨f, outer, raw, unread, line, ranges, name, _, _, _, _, _, _, _, _, _, hopened⟩ :=
      hopens
    rw [hopened] at hk hv
    exact ⟨hk, hv⟩
  refine ⟨header, d, i, value, hturn, hheader.1, hheader.2, hown (by simp [hk]), hi, hget, ?_, ?_⟩
  · exact Environment.expand_key hkdot hkey
  · intro hdot hpath
    have hexpand :=
      Environment.expand_value hvdot hvalue hpath (Environment.value?_key hd hdot hget)
    refine ⟨fun text htext => ?_, ?_⟩
    · rw [hexpand, htext]
    · rintro entries rfl
      exact hexpand

/-- In the loop over the numbers, inside the loop over the lights. -/
theorem Preprocessor.expand_loopNames_nestedLoops :
    ∃ p inner l more, Pass.Reached nestedLoops.job nestedLoops.registry p ∧ p.loops = inner ++ [l] ∧
      inner.length = 1 ∧ l.keyName = some "k".toList ∧ l.valueName = "v".toList ∧
      l.keys = "sun".toList :: more ∧
      (∀ m ∈ inner, ∀ b ∈ m.scope, b.1 ≠ "k".toList ∧ b.1 ≠ "v".toList) ∧
      (p.environment nestedLoops.job).expand "k".toList = .ok "sun".toList ∧
      (p.environment nestedLoops.job).expand "v".toList = .ok "1".toList := by
  obtain ⟨p, inner, l, more, hp, hl, hone, hk, hv, hc, hkeys, hfree⟩ : ∃ p inner l more,
      Pass.Reached nestedLoops.job nestedLoops.registry p ∧ p.loops = inner ++ [l] ∧
      inner.length = 1 ∧ l.keyName = some "k".toList ∧ l.valueName = "v".toList ∧
      l.collection = "lights".toList ∧ l.keys = "sun".toList :: more ∧
      ∀ m ∈ inner, ∀ b ∈ m.scope, b.1 ≠ "k".toList ∧ b.1 ≠ "v".toList :=
    ⟨_, [_], _, _, ⟨3, rfl⟩, rfl, rfl, rfl, rfl, rfl, rfl, by decide⟩
  -- The inner loop binds other names, so the theorem applies to the outer one.
  obtain ⟨header, d, i, value, _, _, _, hd, _, hvalue, hkey, h⟩ :=
    expand_loopNames nestedLoops hp hl hk hv (by decide) (by decide) (by decide) hkeys hfree
  rw [hc] at hd h
  have hlights : nestedLoops.dictionary.value? "lights".toList =
      some (.dictionary [("sun".toList, .int 1), ("moon".toList, .int 2)]) := rfl
  rw [hlights] at hd
  rw [← Value.dictionary.inj (Option.some.inj hd)] at hvalue
  have hsun := Option.some.inj hvalue
  exact ⟨p, inner, l, more, hp, hl, hone, hk, hv, hkeys, hfree, hkey,
    (h (by decide) (by decide)).1 _ (by rw [← hsun]; rfl)⟩

/-- A loop over a dictionary with one key, which has the value 1. -/
def Preprocessor.oneKey (collection key : Text) : Preprocessor where
  filename := ⟨"/main".toList⟩
  dictionary := ⟨[(collection, .dictionary [(key, .int 1)])]⟩
  config := {}
  source := (Memory.ofList [(⟨"/main".toList⟩, .text ("#for k, v in ".toList ++ collection ++
    "\n#\x7bk\x7d=#\x7bv\x7d\n#endfor\n".toList))]).source
  registry := {}

/-- A key with a dot is not reached, and a path between quotes is taken for a key: in neither loop
    does the value's name mean 1. -/
theorem Preprocessor.expand_loopNames_oddKeys :
    (∃ p l, Pass.Reached (oneKey "d".toList "a.b".toList).job
      (oneKey "d".toList "a.b".toList).registry p ∧
      p.loops = [l] ∧ l.keyName = some "k".toList ∧ l.valueName = "v".toList ∧
      l.collection = "d".toList ∧ l.keys = ["a.b".toList] ∧
      (oneKey "d".toList "a.b".toList).dictionary.value? l.collection =
        some (.dictionary [("a.b".toList, .int 1)]) ∧
      (p.environment (oneKey "d".toList "a.b".toList).job).expand "v".toList = .error .unresolved) ∧
    (∃ p l, Pass.Reached (oneKey "\"d".toList "x\"".toList).job
      (oneKey "\"d".toList "x\"".toList).registry p ∧
      p.loops = [l] ∧ l.keyName = some "k".toList ∧ l.valueName = "v".toList ∧
      l.collection = "\"d".toList ∧ l.keys = ["x\"".toList] ∧
      (oneKey "\"d".toList "x\"".toList).dictionary.value? l.collection =
        some (.dictionary [("x\"".toList, .int 1)]) ∧
      (p.environment (oneKey "\"d".toList "x\"".toList).job).expand "v".toList = .ok "d.x".toList) ∧
    (Value.int 1).literal? = some "1".toList :=
  ⟨⟨_, _, ⟨1, rfl⟩, rfl, rfl, rfl, rfl, rfl, rfl, rfl⟩,
    ⟨_, _, ⟨1, rfl⟩, rfl, rfl, rfl, rfl, rfl, rfl, rfl⟩, rfl⟩

end ShaderWeave
