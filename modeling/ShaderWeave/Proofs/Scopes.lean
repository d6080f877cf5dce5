/-
  Scopes go with loops.

  A pass keeps its files, its loops and the scopes of its loops on three stacks, and changes them in
  different places: entering and leaving a file, opening a loop, going back for the next key,
  closing.  They never drift apart.

  The invariant is `Disciplined`:

    * the aliases are those of the open loops, each with the scope of its current key
      (`Loop.scope`), an empty loop with the scope that binds nothing;
    * inner loops belong to inner files, and every loop to an open file that was read at least up to
      the loop's header; of two loops of one file the inner one has the later header, so that going
      back to a header does not go back behind an outer one;
    * only the innermost loop can be empty, and then its file is the innermost.

  One lemma for each way a transition changes the stacks (`Disciplined.advance` to
  `Disciplined.left`) shows that it is kept.  What follows is that closing a scope always finds one
  to close, and that a pass that has left all files has left all loops and scopes too.
-/
import ShaderWeave.Proofs.Aliases
import ShaderWeave.Proofs.Runs
import ShaderWeave.Source.Memory

namespace ShaderWeave

/-- What a loop binds now: the bindings of its current key; nothing, where it has no keys. -/
def Loop.scope (l : Loop) : List (Text × Text) :=
  match l.keys with
  | [] => []
  | key :: _ => l.bindings key

namespace Pass

/-! ## Loops within files

  A loop remembers its file by depth and its header by line.  Depths count from the outermost file,
  so that entering and leaving a file renumbers nothing; stacks have their innermost element in
  front, so a depth is looked up in the reversed stack. -/

/-- The file of a loop is open and was read at least up to the loop's header. -/
def Within (files : List OpenFile) (l : Loop) : Prop :=
  ∃ f, files.reverse[l.depth]? = some f ∧ l.header ≤ f.line

section Within

variable {f f' : OpenFile} {outer : List OpenFile} {l : Loop}

/-- A loop of an outer file is seen from there. -/
theorem within_outer_iff (h : l.depth < outer.length) : Within (f :: outer) l ↔ Within outer l := by
  unfold Within
  rw [List.reverse_cons, List.getElem?_append_left (by simpa using h)]

/-- For a loop of the innermost file only the line matters. -/
theorem within_self_iff (h : l.depth = outer.length) :
    Within (f :: outer) l ↔ l.header ≤ f.line := by
  unfold Within
  rw [List.reverse_cons, h, List.getElem?_append_right (by simp)]
  simp

/-- Reading on in the innermost file, or going back in it, but not behind the header. -/
theorem Within.mono (h : Within (f :: outer) l) (hd : l.depth ≤ outer.length)
    (hf : l.depth = outer.length → l.header ≤ f'.line) : Within (f' :: outer) l := by
  rcases Nat.lt_or_eq_of_le hd with hd | hd
  · rw [within_outer_iff hd] at h ⊢
    exact h
  · exact (within_self_iff hd).2 (hf hd)

end Within

/-! ## The invariant

  `Nested`, which it extends, has the depths alone: it is what leaving a file needs, and was proved
  with the moves.  What is added here ties the other stacks to the loops. -/

/-- Files, loops and scopes go together. -/
structure Disciplined (p : Pass) : Prop extends Nested p where
  aliases_eq : p.aliases = .ofScopes (p.loops.map Loop.scope)
  within : ∀ l ∈ p.loops, Within p.files l
  inward : p.loops.Pairwise fun inner outer =>
    inner.depth = outer.depth → outer.header ≤ inner.header
  running : ∀ l ∈ p.loops.tail, l.keys ≠ []
  innermost : ∀ l ∈ p.loops.head?, l.keys = [] → l.depth + 1 = p.files.length

namespace Disciplined

variable {job : Job} {p q : Pass} {f : OpenFile} {outer : List OpenFile} {l : Loop}
  {loops : List Loop}

/-- Loops are at most as deep as the innermost file. -/
theorem depth_le (hp : Disciplined p) (hf : p.files = f :: outer) :
    ∀ l ∈ p.loops, l.depth ≤ outer.length := by
  intro l hl
  have := hp.depth_lt l hl
  rw [hf, List.length_cons] at this
  omega

/-- Reading on in the innermost file stays beyond all headers. -/
theorem within_advance {f' : OpenFile} (hp : Disciplined p) (hf : p.files = f :: outer)
    (hline : f.line ≤ f'.line) : ∀ l ∈ p.loops, Within (f' :: outer) l := by
  intro l hmem
  have hw := hp.within l hmem
  rw [hf] at hw
  refine hw.mono (hp.depth_le hf l hmem) fun hd => ?_
  have := (within_self_iff hd).1 hw
  omega

/-- The innermost scope is closed without fail. -/
theorem pop?_eq (hp : Disciplined p) (hl : p.loops = l :: loops) :
    p.aliases.pop? = some (.ofScopes (loops.map Loop.scope)) := by
  rw [hp.aliases_eq, hl, List.map_cons]
  exact AliasTable.pop?_ofScopes_cons _ _

/-- A line is read and no loop, file or scope is opened or closed. -/
theorem advance {f' : OpenFile} (hp : Disciplined p) (hq : Nested q) (hf : p.files = f :: outer)
    (hq' : q.files = f' :: outer) (hline : f.line ≤ f'.line) (hl : q.loops = p.loops)
    (ha : q.aliases = p.aliases) : Disciplined q where
  toNested := hq
  aliases_eq := by rw [ha, hl]; exact hp.aliases_eq
  within := by
    rw [hl, hq']
    exact hp.within_advance hf hline
  inward := by
    rw [hl]
    exact hp.inward
  running := by
    rw [hl]
    exact hp.running
  innermost := by
    have := hp.innermost
    rw [hf] at this
    rw [hl, hq']
    exact this

/-- In an empty loop, the count of headers passed changes. -/
theorem recount {f' : OpenFile} {n : Nat} (hp : Disciplined p) (hq : Nested q)
    (hf : p.files = f :: outer) (hq' : q.files = f' :: outer) (hline : f.line ≤ f'.line)
    (hl : p.loops = l :: loops) (hql : q.loops = { l with skipped := n } :: loops)
    (ha : q.aliases = p.aliases) : Disciplined q where
  toNested := hq
  aliases_eq := by
    rw [ha, hp.aliases_eq, hl, hql]
    rfl
  within := by
    rw [hql, hq']
    have hw := hp.within_advance hf hline
    intro l' hmem
    rcases List.mem_cons.1 hmem with rfl | hmem
    · exact hw l (by simp [hl])
    · exact hw l' (by simp [hl, hmem])
  inward := by
    have := hp.inward
    rw [hl, List.pairwise_cons] at this
    rw [hql, List.pairwise_cons]
    exact this
  running := by
    have := hp.running
    rw [hl] at this
    rw [hql]
    exact this
  innermost := by
    have := hp.innermost
    rw [hl, hf] at this
    rw [hql, hq']
    simpa using this

/-- The innermost loop goes back to its header with another key. -/
theorem rewound {f' : OpenFile} {key : Text} {more : List Text} {aliases : AliasTable}
    (hp : Disciplined p) (hq : Nested q) (hf : p.files = f :: outer) (hl : p.loops = l :: loops)
    (hd : l.depth = outer.length) (hpop : p.aliases.pop? = some aliases)
    (hq' : q.files = f' :: outer) (hline : f'.line = l.header)
    (hql : q.loops = { l with keys := key :: more } :: loops)
    (ha : q.aliases = aliases.push (l.bindings key)) : Disciplined q where
  toNested := hq
  aliases_eq := by
    rw [hp.pop?_eq hl] at hpop
    cases hpop
    rw [ha, hql]
    rfl
  within := by
    rw [hql, hq']
    have inward := hp.inward
    rw [hl, List.pairwise_cons] at inward
    intro l' hmem
    rcases List.mem_cons.1 hmem with rfl | hmem
    · exact (within_self_iff hd).2 (Nat.le_of_eq hline.symm)
    · -- Outer loops of the same file have their headers before this one, so going back to it stays
      -- beyond theirs.
      have hmem' : l' ∈ p.loops := by simp [hl, hmem]
      have hw := hp.within l' hmem'
      rw [hf] at hw
      refine hw.mono (hp.depth_le hf l' hmem') fun hd' => ?_
      rw [hline]
      exact inward.1 l' hmem (hd.trans hd'.symm)
  inward := by
    have := hp.inward
    rw [hl, List.pairwise_cons] at this
    rw [hql, List.pairwise_cons]
    exact this
  running := by
    have := hp.running
    rw [hl] at this
    rw [hql]
    exact this
  innermost := by
    rw [hql]
    simp

/-- The innermost loop is closed. -/
theorem closed {f' : OpenFile} {aliases : AliasTable} (hp : Disciplined p) (hq : Nested q)
    (hf : p.files = f :: outer) (hl : p.loops = l :: loops) (hpop : p.aliases.pop? = some aliases)
    (hq' : q.files = f' :: outer) (hline : f.line ≤ f'.line) (hql : q.loops = loops)
    (ha : q.aliases = aliases) : Disciplined q where
  toNested := hq
  aliases_eq := by
    rw [hp.pop?_eq hl] at hpop
    cases hpop
    rw [ha, hql]
  within := by
    rw [hql, hq']
    exact fun l' hmem => hp.within_advance hf hline l' (by simp [hl, hmem])
  inward := by
    have := hp.inward
    rw [hl, List.pairwise_cons] at this
    rw [hql]
    exact this.2
  running := by
    have := hp.running
    rw [hl] at this
    rw [hql]
    exact fun l' hmem => this l' (List.mem_of_mem_tail hmem)
  innermost := by
    -- With the innermost loop gone the next one is innermost, and it has a key.
    have := hp.running
    rw [hl] at this
    rw [hql]
    exact fun l' hmem hk => absurd hk (this l' (List.mem_of_mem_head? hmem))

/-- A loop is opened; no empty one was open. -/
theorem opened {f' : OpenFile} (hp : Disciplined p) (hq : Nested q) (hactive : p.Active)
    (hf : p.files = f :: outer) (hq' : q.files = f' :: outer) (hline : f.line ≤ f'.line)
    (hql : q.loops = l :: p.loops) (hd : l.depth = outer.length) (hh : l.header = f'.line)
    (ha : q.aliases = p.aliases.push l.scope) : Disciplined q where
  toNested := hq
  aliases_eq := by rw [ha, hp.aliases_eq, hql, List.map_cons, AliasTable.ofScopes_cons]
  within := by
    rw [hql, hq']
    intro l' hmem
    rcases List.mem_cons.1 hmem with rfl | hmem
    · exact (within_self_iff hd).2 (Nat.le_of_eq hh)
    · exact hp.within_advance hf hline l' hmem
  inward := by
    rw [hql, List.pairwise_cons]
    refine ⟨fun l' hmem hd' => ?_, hp.inward⟩
    have hw := hp.within l' hmem
    rw [hf, within_self_iff (hd'.symm.trans hd)] at hw
    omega
  running := by
    rw [hql]
    intro l' hmem hk
    have hrun := hp.running
    cases hloops : p.loops with
    | nil => simp [hloops] at hmem
    | cons l₀ loops =>
      simp only [hloops, List.tail_cons, List.mem_cons] at hmem hrun
      rcases hmem with rfl | hmem
      · -- The loop that was innermost is not empty, since a header is read in active states only.
        exact hactive l' (by simp [hloops]) hk
      · exact hrun l' hmem hk
  innermost := by
    rw [hql, hq']
    simp [hd]

/-- A file is entered; no empty loop was open. -/
theorem entered {f' new : OpenFile} (hp : Disciplined p) (hq : Nested q) (hactive : p.Active)
    (hf : p.files = f :: outer) (hq' : q.files = new :: f' :: outer) (hline : f.line ≤ f'.line)
    (hl : q.loops = p.loops) (ha : q.aliases = p.aliases) : Disciplined q where
  toNested := hq
  aliases_eq := by rw [ha, hl]; exact hp.aliases_eq
  within := by
    rw [hl, hq']
    intro l hmem
    have hd := hp.depth_le hf l hmem
    rw [within_outer_iff (by rw [List.length_cons]; omega)]
    exact hp.within_advance hf hline l hmem
  inward := by
    rw [hl]
    exact hp.inward
  running := by
    rw [hl]
    exact hp.running
  innermost := by
    rw [hl]
    exact fun l hmem hk => absurd hk (hactive l hmem)

/-- A file is left in which no loop is open. -/
theorem left (hp : Disciplined p) (hq : Nested q) (hf : p.files = f :: outer)
    (hopen : ∀ l ∈ p.loops.head?, l.depth < outer.length) (hq' : q.files = outer)
    (hl : q.loops = p.loops) (ha : q.aliases = p.aliases) : Disciplined q where
  toNested := hq
  aliases_eq := by rw [ha, hl]; exact hp.aliases_eq
  within := by
    intro l hmem
    have hd := hq.depth_lt l hmem
    rw [hl] at hmem
    have hw := hp.within l hmem
    rw [hq'] at hd ⊢
    rw [hf, within_outer_iff hd] at hw
    exact hw
  inward := by
    rw [hl]
    exact hp.inward
  running := by
    rw [hl]
    exact hp.running
  innermost := by
    rw [hl]
    intro l hmem hk
    -- An empty loop would be of the file that is left, where none is open.
    have h1 := hp.innermost l hmem hk
    have h2 := hopen l hmem
    rw [hf, List.length_cons] at h1
    omega

/-- **Transitions keep the invariant.** -/
theorem transition (hp : Disciplined p) (h : Transition job p q) : Disciplined q := by
  have hq : Nested q := (moves_of_step hp.toNested (step_eq_next_iff.2 h)).2
  cases h with
  | leave hf hu hl => exact hp.left hq hf hl (by simp) (by simp) (by simp)
  | @line f outer raw unread q hf hu he =>
    have hline : f.line ≤ (f.advance unread).line := Nat.le_succ _
    cases he with
    | skip => exact hp.advance hq hf rfl hline rfl rfl
    | deepen hl => exact hp.recount hq hf rfl hline hl rfl rfl
    | rise hl => exact hp.recount hq hf rfl hline hl rfl rfl
    | again hl _ _ hd hpop => exact hp.rewound hq hf hl hd hpop rfl rfl rfl rfl
    | close hl _ _ _ hpop => exact hp.closed hq hf hl hpop rfl hline rfl rfl
    | version => exact hp.advance hq hf rfl hline rfl rfl
    | platform => exact hp.advance hq hf rfl hline rfl rfl
    | inclusion ha => exact hp.entered hq ha hf rfl hline rfl rfl
    | openEmpty ha => exact hp.opened hq ha hf rfl hline rfl rfl rfl rfl
    | opens ha _ _ _ _ _ _ _ hl =>
      subst hl
      exact hp.opened hq ha hf rfl hline rfl rfl rfl rfl
    | plain => exact hp.advance hq hf rfl hline rfl rfl

/-- **Every state a pass gets to is disciplined.** -/
theorem of_reached {registry : Registry} (h : Reached job registry p) : Disciplined p := by
  refine h.induct (fun p hp => ?_) (fun _ _ _ => transition)
  obtain ⟨t, _, rfl⟩ := start_eq_next hp
  exact ⟨⟨by simp, by simp⟩, rfl, by simp, by simp, by simp, by simp⟩

end Disciplined

/-! ## What a step does to the loops

  Loops below the innermost one are never touched: this is what makes them a stack, and it needs the
  invariant where a step counts headers in an empty loop, which must be of the innermost file. -/

/-- The ways a step may change the open loops: it opens one in the innermost file, or it changes or
    closes the innermost loop, and then that loop is of the innermost file. -/
inductive ChangesInnermost (p q : Pass) : Prop where
  | kept (h : q.loops = p.loops)
  | opened {l} (hd : l.depth + 1 = p.files.length) (h : q.loops = l :: p.loops)
  | advanced {l loops keys skipped} (hl : p.loops = l :: loops) (hd : l.depth + 1 = p.files.length)
      (h : q.loops = { l with keys, skipped } :: loops)
  | closed {l loops} (hl : p.loops = l :: loops) (hd : l.depth + 1 = p.files.length)
      (h : q.loops = loops)

/-- Each kind of transition changes the loops in one of these ways. -/
theorem Disciplined.changesInnermost {job : Job} {p q : Pass} (hp : Disciplined p)
    (h : Transition job p q) : ChangesInnermost p q := by
  cases h with
  | leave => exact .kept (by simp)
  | line hf hu he =>
    have here : ∀ {l : Loop}, l.depth = _ → l.depth + 1 = p.files.length := fun hd => by
      rw [hf, List.length_cons, hd]
    cases he with
    | skip => exact .kept rfl
    | deepen hl hk => exact .advanced hl (hp.innermost _ (by simp [hl]) hk) rfl
    | rise hl hk => exact .advanced hl (hp.innermost _ (by simp [hl]) hk) rfl
    | again hl _ _ hd => exact .advanced hl (here hd) rfl
    | close hl _ _ hd => exact .closed hl (here hd) rfl
    | version => exact .kept rfl
    | platform => exact .kept rfl
    | inclusion => exact .kept rfl
    | openEmpty => exact .opened (here rfl) rfl
    | opens _ _ _ _ _ _ _ _ hl => exact .opened (here (by rw [hl])) rfl
    | plain => exact .kept rfl

end Pass

/-! ## Errors that do not happen

  The program checks, when it closes a scope and when it has left all files, what the invariant
  says; so these checks never fail.  To see that no error is one of theirs, the errors of all other
  sites are gone through: each is about what a line says, which is a property of the function that
  found it. -/

/-- A scope that is closed without being open, and a loop or a scope that outlives all files. -/
def Fault.isInternal : Fault → Bool
  | .scopeNotOpen | .passEndsInLoop | .passEndsInScope => true
  | _ => false

/-- Whether an error is such a fault. -/
def Error.isInternal : Error → Bool
  | .malformed fault _ => fault.isInternal
  | _ => false

/-- A fault of the way loops and files nest, not of what a line says. -/
def Fault.isNesting : Fault → Bool
  | .endWithoutLoop | .endInOtherFile .. | .fileEndsInLoop | .passEndsInLoop | .passEndsInScope
  | .scopeNotOpen => true
  | _ => false

/-- The faults that do not happen are of the second kind. -/
theorem Fault.isInternal_of_isNesting {fault : Fault} (h : fault.isNesting = false) :
    fault.isInternal = false := by
  unfold Fault.isInternal
  split
  · cases h
  · cases h
  · cases h
  · rfl

/-- A line that cannot be expanded is blamed for its tokens, where it stands. -/
theorem error_of_expandLine {env : Environment} {limit : Nat} {loc : Location} {line : Text}
    {e : Error} (h : Substitution.expandLine env limit loc line = .error e) :
    (∃ fault : Fault, fault.isNesting = false ∧ e = .malformed fault loc) ∨
      ∃ name fault, e = .substitution name fault loc := by
  obtain ⟨n, _, out, _, hh⟩ := Substitution.expandLine_halts env limit loc line
  rw [h, Substitution.Halts] at hh
  split at hh
  · cases hh
  · cases hh
    exact .inl ⟨_, rfl, rfl⟩
  · rcases hh with ⟨_, hh⟩ | ⟨_, _, hh⟩
    · cases hh
      exact .inl ⟨_, rfl, rfl⟩
    · cases hh
      exact .inr ⟨_, _, rfl⟩

/-- The functions that read a line find fault with the line alone. -/
theorem isNesting_of_parseTail {key : Option Text} {tail : Text} {fault : Fault}
    (h : LoopHeader.parseTail key tail = .error fault) : fault.isNesting = false := by
  unfold LoopHeader.parseTail at h
  split at h
  · cases h; rfl
  · cases h; rfl
  · split at h
    · cases h; rfl
    · split at h <;> cases h
      rfl

/-- The header of a loop is read in two parts. -/
theorem isNesting_of_header {rest : Text} {fault : Fault}
    (h : LoopHeader.parse rest = .error fault) : fault.isNesting = false := by
  unfold LoopHeader.parse at h
  split at h
  · exact isNesting_of_parseTail h
  · split at h
    · exact isNesting_of_parseTail h
    · cases h; rfl

/-- An inclusion has three faults, and none is about loops. -/
theorem isNesting_of_inclusion {rest : Text} {fault : Fault}
    (h : Inclusion.parse rest = .error fault) : fault.isNesting = false := by
  have path : ∀ {form delimiter rest}, Inclusion.parsePath form delimiter rest = .error fault →
      fault.isNesting = false := by
    intro form delimiter rest h
    unfold Inclusion.parsePath at h
    split at h <;> cases h
    rfl
  unfold Inclusion.parse at h
  split at h
  · cases h; rfl
  · exact path h
  · exact path h
  · cases h; rfl

/-- So a line that is no directive is blamed for what it says. -/
theorem isNesting_of_directive {line : Text} {fault : Fault}
    (h : Directive.parse line = .error fault) : fault.isNesting = false := by
  unfold Directive.parse LoopHeader.read at h
  split at h
  · cases h
  · split at h
    · cases h
    · split at h
      · next rest _ =>
        -- The fault is that of the include or of the header; nothing else has one.
        cases hi : Inclusion.parse rest with
        | ok i =>
          rw [hi] at h
          cases h
        | error fault' =>
          rw [hi] at h
          cases h
          exact isNesting_of_inclusion hi
      · split at h
        · cases hl : LoopHeader.parse (line.drop 4) with
          | ok header =>
            rw [hl] at h
            cases h
          | error fault' =>
            rw [hl] at h
            cases h
            exact isNesting_of_header hl
        · cases h

/-- The same for the bounds of a range, which are read when the loop is opened. -/
theorem isNesting_of_gather {header : LoopHeader} {ranges : Dictionary} {fault : Fault}
    (h : header.gather ranges = .error fault) : fault.isNesting = false := by
  have bound : ∀ {range text fault}, Range.parseBound range text = .error fault →
      fault.isNesting = false := by
    intro range text fault h
    unfold Range.parseBound at h
    split at h <;> cases h
    rfl
  unfold LoopHeader.gather at h
  split at h
  · cases h
  · cases hr : Range.parse header.collection with
    | ok range =>
      rw [hr] at h
      cases h
    | error fault' =>
      rw [hr] at h
      cases h
      unfold Range.parse at hr
      split at hr
      · cases hr; rfl
      · next min max _ =>
        cases hmin : Range.parseBound header.collection min with
        | error =>
          rw [hmin] at hr
          cases hr
          exact bound hmin
        | ok m =>
          cases hmax : Range.parseBound header.collection max with
          | error =>
            rw [hmin, hmax] at hr
            cases hr
            exact bound hmax
          | ok m' =>
            rw [hmin, hmax] at hr
            cases hr

namespace Pass

/-- A disciplined state is not refused for an internal fault. -/
theorem Disciplined.isInternal_eq_false {job : Job} {p : Pass} {registry : Registry} {e : Error}
    (hp : Disciplined p) (h : Refusal job p registry e) : e.isInternal = false := by
  cases h with
  | fileEndsInLoop => rfl
  -- With no file open there is no depth that a loop could have, and with no loop no scope.
  | passEndsInLoop hf hl =>
    have := hp.depth_lt _ (List.mem_of_mem_head? hl)
    rw [hf] at this
    exact absurd this (Nat.not_lt_zero _)
  | passEndsInScope hf hl hs =>
    rw [hp.aliases_eq, hl] at hs
    exact absurd hs (Nat.lt_irrefl 0)
  | line hf hu he =>
    cases he with
    | endWithoutLoop => rfl
    | endInOtherFile => rfl
    -- The innermost loop has a scope, and it is in front.
    | scopeNotOpen hl _ hpop =>
      rw [hp.pop?_eq hl] at hpop
      cases hpop
    | expansion _ _ he =>
      rcases error_of_expandLine he with ⟨fault, hfault, rfl⟩ | ⟨name, fault, rfl⟩
      · exact Fault.isInternal_of_isNesting hfault
      · rfl
    | directive _ _ _ hd => exact Fault.isInternal_of_isNesting (isNesting_of_directive hd)
    | missingContext => rfl
    | unresolvedInclude => rfl
    | absentFile => rfl
    | includeCycle => rfl
    | unreadable => rfl
    | range _ _ _ _ hg => exact Fault.isInternal_of_isNesting (isNesting_of_gather hg)
    | collection => rfl

/-- The first step fails for want of a readable root file only. -/
theorem isInternal_of_start {job : Job} {registry registry' : Registry} {e : Error}
    (h : start job registry = .stop ⟨registry', .error e⟩) : e.isInternal = false := by
  rcases start_eq_stop h with ⟨_, ho⟩ | ⟨reason, _, ho⟩
  · cases ho; rfl
  · cases ho; rfl

/-! ## Scope discipline

  The invariant is put in terms of the stacks: `FollowsLoops` is what can be observed between two
  steps, and each of its fields follows from `Disciplined`. -/

/-- What the stacks of a pass have to do with each other between two steps. -/
structure FollowsLoops (p : Pass) : Prop where
  /-- There are as many open scopes as open loops. -/
  count : p.aliases.openScopes = p.loops.length
  /-- Each scope holds the names its loop binds for the current key, and none where the loop is
      empty. -/
  names : ∀ i : Nat, p.aliases.scopes[i]? = p.loops[i]?.map fun l => l.scope.map Prod.fst
  /-- The names are bound to what the loops bind them to. -/
  values : p.aliases = .ofScopes (p.loops.map Loop.scope)
  /-- Inner loops are at least as deep as outer ones. -/
  ordered : p.loops.Pairwise fun inner outer => outer.depth ≤ inner.depth
  /-- No loop is deeper than the innermost file. -/
  bounded : ∀ l ∈ p.loops, p.files ≠ [] ∧ l.depth ≤ p.files.length - 1
  /-- The file of a loop was read at least up to the loop's header. -/
  within : ∀ l ∈ p.loops, ∃ f, p.files.reverse[l.depth]? = some f ∧ l.header ≤ f.line
  /-- The innermost scope can be closed as long as a loop is open. -/
  closes : p.loops ≠ [] → p.aliases.pop? ≠ none
  /-- Where no file is open, no loop and no scope is. -/
  empties : p.files = [] → p.loops = [] ∧ p.aliases.openScopes = 0

/-- A disciplined state has its stacks in order. -/
theorem Disciplined.followsLoops {p : Pass} (hp : Disciplined p) : FollowsLoops p where
  count := by rw [AliasTable.openScopes, hp.aliases_eq, AliasTable.scopes_ofScopes]; simp
  names := by
    intro i
    rw [hp.aliases_eq, AliasTable.scopes_ofScopes, List.map_map, List.getElem?_map]
    rfl
  values := hp.aliases_eq
  ordered := hp.ordered
  bounded := by
    intro l hl
    have hd := hp.depth_lt l hl
    refine ⟨fun hf => ?_, by omega⟩
    rw [hf] at hd
    exact Nat.not_lt_zero _ hd
  within := hp.within
  closes := by
    intro hl
    obtain ⟨l, loops, hl⟩ := List.exists_cons_of_ne_nil hl
    rw [hp.pop?_eq hl]
    exact Option.some_ne_none _
  empties := by
    intro hf
    have hl : p.loops = [] := by
      refine List.eq_nil_iff_forall_not_mem.2 fun l hl => ?_
      have hd := hp.depth_lt l hl
      rw [hf] at hd
      exact Nat.not_lt_zero _ hd
    refine ⟨hl, ?_⟩
    rw [hp.aliases_eq, hl]
    rfl

/-- A disciplined pass that has left all files is done, and well. -/
theorem Disciplined.step_of_files_eq_nil {p : Pass} (hp : Disciplined p) (job : Job)
    (hf : p.files = []) : step job p = .stop ⟨p.registry, .ok p.output.reverse⟩ := by
  obtain ⟨hl, hs⟩ := hp.followsLoops.empties hf
  unfold step finish
  simp only [hf, hl, hs, Nat.lt_irrefl, if_false]

/-- After a file's end no loop of the file is open. -/
theorem Disciplined.depth_lt_of_left {job : Job} {p q : Pass} {f : OpenFile} {outer : List OpenFile}
    (hp : Disciplined p) (hf : p.files = f :: outer) (hu : f.unread = []) (h : Transition job p q) :
    ∀ l ∈ q.loops, l.depth < outer.length := by
  have hq := hp.transition h
  cases h with
  | leave hf' =>
    rw [hf] at hf'
    cases hf'
    intro l hl
    have := hq.depth_lt l hl
    simpa using this
  | line hf' hu' =>
    rw [hf] at hf'
    cases hf'
    rw [hu] at hu'
    cases hu'

end Pass

/-- **Scope discipline.**  In every state that a pass gets to, scopes, loops and files go together;
    a step advances or closes only a loop of the innermost file; leaving a file leaves no loop of it
    open; with all files left the pass is done.  No pass ends by closing a scope that is not open,
    nor by outliving its files with a loop or a scope still open. -/
theorem Preprocessor.process_disciplined (pre : Preprocessor) :
    (∀ p, Pass.Reached pre.job pre.registry p →
      p.FollowsLoops ∧
      (∀ q, Pass.step pre.job p = .next q → Pass.ChangesInnermost p q) ∧
      (∀ f outer q, p.files = f :: outer → f.unread = [] → Pass.step pre.job p = .next q →
        ∀ l ∈ q.loops, l.depth < outer.length) ∧
      (p.files = [] → Pass.step pre.job p = .stop ⟨p.registry, .ok p.output.reverse⟩)) ∧
    ∀ e, pre.process.2 = .error e → e.isInternal = false := by
  constructor
  · intro p hreached
    have hp := Pass.Disciplined.of_reached hreached
    refine ⟨hp.followsLoops, fun q hq => ?_, fun f outer q hf hu hq => ?_,
      hp.step_of_files_eq_nil pre.job⟩
    · exact hp.changesInnermost (Pass.step_eq_next_iff.1 hq)
    · exact hp.depth_lt_of_left hf hu (Pass.step_eq_next_iff.1 hq)
  · intro e he
    have ho : Pass.process pre.job pre.registry = ⟨pre.process.1.registry, .error e⟩ := by
      rw [← he]
      rfl
    -- A pass ends in its first step or in a step from a state that it gets to.
    have hlast := Pass.start_or_step_eq_process pre.job pre.registry
    rw [ho] at hlast
    rcases hlast with hs | ⟨p, hreached, hs⟩
    · exact Pass.isInternal_of_start hs
    · exact (Pass.Disciplined.of_reached hreached).isInternal_eq_false (Pass.refusal_of_step hs)

/-- A loop over two lights whose body includes a file with a loop of its own. -/
def Preprocessor.nestedLoops : Preprocessor where
  filename := ⟨"/main".toList⟩
  dictionary := ⟨[("lights".toList, .dictionary [("sun".toList, .int 1), ("moon".toList, .int 2)])]⟩
  config := {}
  source := (Memory.ofList
    [(⟨"/main".toList⟩, .text "#for k, v in lights\n#include \"/part\"\n#endfor\n".toList),
     (⟨"/part".toList⟩,
       .text "#for i in 1..2\n#\x7bk\x7d#\x7bi\x7d = #\x7bv\x7d;\n#endfor\n".toList)]).source
  registry := {}

/-- A root file that closes a loop it did not open. -/
def Preprocessor.loneEnd : Preprocessor :=
  { nestedLoops with source := (Memory.ofList [(⟨"/main".toList⟩, .text "#endfor".toList)]).source }

/-- Inside the second loop two scopes are open, at the end of the included file one, and none when
    all files are left; a lone end of a loop is a fault of the other kind. -/
theorem Preprocessor.process_disciplined_nestedLoops :
    (∃ p q, Pass.Reached nestedLoops.job nestedLoops.registry p ∧ p.loops.length = 2 ∧
      Pass.step nestedLoops.job p = .next q ∧ p.FollowsLoops ∧ Pass.ChangesInnermost p q) ∧
    (∃ p q f outer, Pass.Reached nestedLoops.job nestedLoops.registry p ∧ p.files = f :: outer ∧
      f.unread = [] ∧ p.loops.length = 1 ∧ Pass.step nestedLoops.job p = .next q ∧
      ∀ l ∈ q.loops, l.depth < outer.length) ∧
    (∃ p, Pass.Reached nestedLoops.job nestedLoops.registry p ∧ p.files = [] ∧
      Pass.step nestedLoops.job p = .stop ⟨p.registry, .ok p.output.reverse⟩) ∧
    ∃ e, loneEnd.process.2 = .error e ∧ e.isInternal = false := by
  have stops : Pass.after loneEnd.job 1 (Pass.start loneEnd.job loneEnd.registry) =
      .stop ⟨_, .error (.malformed .endWithoutLoop ⟨"/main".toList, 1⟩)⟩ := rfl
  have fails : loneEnd.process.2 = .error (.malformed .endWithoutLoop ⟨"/main".toList, 1⟩) :=
    congrArg Outcome.result (Pass.process_of_after 1 stops)
  refine ⟨⟨_, _, ⟨3, rfl⟩, rfl, rfl, ?_, ?_⟩, ⟨_, _, _, _, ⟨7, rfl⟩, rfl, rfl, rfl, rfl, ?_⟩,
    ⟨_, ⟨18, rfl⟩, rfl, ?_⟩, ⟨_, fails, ?_⟩⟩
  · exact ((process_disciplined nestedLoops).1 _ ⟨3, rfl⟩).1
  · exact ((process_disciplined nestedLoops).1 _ ⟨3, rfl⟩).2.1 _ rfl
  · exact ((process_disciplined nestedLoops).1 _ ⟨7, rfl⟩).2.2.1 _ _ _ rfl rfl rfl
  · exact ((process_disciplined nestedLoops).1 _ ⟨18, rfl⟩).2.2.2 rfl
  · exact (process_disciplined loneEnd).2 _ fails

end ShaderWeave
