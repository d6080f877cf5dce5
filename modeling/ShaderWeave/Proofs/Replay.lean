/-
  Replay is unrolling: the cursor that moves back over the lines of a loop comes to the text that
  recursion on the tree of the file tells.

  The proof is a simulation.  `Trace.state` is the state of a pass that has made a trace, with given
  files and loops open; `Simulates` says of a step and of a result of the recursion that they agree:
  steps lead to the state of the result, or to an error where there is none.

    * A line: `simulates_dispatch`, and `simulates_opening` for a header.
    * A loop: its body is simulated once for each key, by induction on the keys (`simulates_turns`);
      under a loop without keys the lines of the body are skipped (`leads_skip`).
    * A body, by induction on the tree (`simulates_body`).  The statement is about any lines behind
      the body and any loops around it, so that it holds of the body of a loop too.
    * A file, by induction on the files that can still be entered (`visits_visit?`).  A file that is
      no body fails in a pass as well, though only where the pass comes to what is not matched.

  What has to be assumed is that headers are headers before their tokens are replaced
  (`makesHeader`): the tree is that of the lines as they stand in the file.
-/
import ShaderWeave.Proofs.Scopes
import ShaderWeave.Proofs.Unrolling

namespace ShaderWeave

/-- The file with `n` lines read. -/
def Frame.reading (f : Frame) (n : Nat) (unread : List Text) : OpenFile :=
  ⟨f.path, f.id, n, unread, f.indentation⟩

/-- The loop of an opening in line `n`, inside `depth` files: `body` are the lines after its header,
    `keys` the current key and those to come. -/
def Opening.loop (o : Opening) (f : Frame) (depth n : Nat) (body keys : List Text) : Loop :=
  ⟨depth, f.path.text, n, body, o.header.key, o.header.value, o.collection, keys, 0⟩

/-- The state of a pass that has made the trace. -/
def Trace.state (t : Trace) (files : List OpenFile) (loops : List Loop) : Pass :=
  ⟨files, loops, .ofScopes (loops.map Loop.scope), t.ranges, t.registry, t.output⟩

namespace Pass

/-! ## Simulation

  A pass simulates an interpretation if it comes to the state that stands for the result, or fails
  where there is none.  Simulations are put together like the interpretation is: one after the
  other, with `bind`. -/

/-- The steps from `s` on come to `r`: to the state `next` of its result, or to an error if it has
    none. -/
def Simulates {α : Type} (job : Job) (s : Step) (r : Option α) (next : α → Pass) : Prop :=
  match r with
  | some a => ∃ n, after job n s = .next (next a)
  | none => ∃ n, IsError (after job n s)

/-- Whether the line read next opens no loop as it stands in the file, but does with its tokens
    replaced. -/
def makesHeader (job : Job) (p : Pass) : Bool :=
  match p.files with
  | ⟨path, _, line, raw :: _, _⟩ :: _ =>
    !p.loops.head?.any (·.keys.isEmpty) && !raw.opens && !raw.closes &&
      match Substitution.expandLine (p.environment job) job.config.maxSubstitutions
        ⟨path.text, line + 1⟩ raw.content with
      | .ok line => LoopHeader.isHeader line
      | .error _ => false
  | _ => false

/-- No line from `s` on is made a header by its tokens. -/
def Quiet (job : Job) (s : Step) : Prop :=
  ∀ n p, after job n s = .next p → makesHeader job p = false

/-- Whether the pass ends within `n` steps from `s`, none of which reads a line made a header by its
    tokens. -/
def quietWithin (job : Job) : Nat → Step → Bool
  | _, .stop _ => true
  | 0, .next _ => false
  | n + 1, .next p => !makesHeader job p && quietWithin job n (p.step job)

/-- Nothing is read after the end. -/
theorem quiet_stop (job : Job) (o : Outcome) : Quiet job (.stop o) := by
  intro n p hn
  rw [after_stop] at hn
  cases hn

/-- So `Quiet` can be computed, for a pass that ends. -/
theorem quiet_of_quietWithin {job : Job} {n : Nat} {s : Step} (h : quietWithin job n s = true) :
    Quiet job s := by
  fun_induction quietWithin job n s with
  | case1 => exact quiet_stop job _
  | case2 => cases h
  | case3 n p ih =>
    rw [Bool.and_eq_true, Bool.not_eq_true'] at h
    intro m q hm
    cases m with
    | zero =>
      cases hm
      exact h.1
    | succ m => exact ih h.2 m q hm

/-- The innermost loop has keys, and fewer than `depth` files are around its file. -/
def Beneath (loops : List Loop) (depth : Nat) : Prop :=
  ∀ l ∈ loops.head?, l.keys ≠ [] ∧ l.depth < depth

/-- In a loop of a file with keys to come, one file more than those around it is open. -/
theorem beneath_self {l : Loop} {loops : List Loop} {depth : Nat} (hk : l.keys ≠ [])
    (hd : l.depth = depth) : Beneath (l :: loops) (depth + 1) := by
  intro l' hl
  cases hl
  exact ⟨hk, by omega⟩

/-- A loop that is beneath some files is beneath more. -/
theorem Beneath.succ {loops : List Loop} {depth : Nat} (h : Beneath loops depth) :
    Beneath loops (depth + 1) :=
  fun l hl => ⟨(h l hl).1, Nat.lt_succ_of_lt (h l hl).2⟩

section Simulation

variable {α β : Type} {job : Job} {s : Step} {p q : Pass} {r : Option α} {next : α → Pass}

/-! What is quiet stays so on the way, after one step, too. -/

theorem Quiet.of_after {n : Nat} (h : Quiet job s) (hn : after job n s = .next p) :
    Quiet job (.next p) := by
  intro m q hm
  refine h (n + m) q ?_
  rw [after_add, hn, hm]

theorem Quiet.step (h : Quiet job (.next p)) : Quiet job (p.step job) :=
  fun n q hn => h (n + 1) q hn

/-! A simulation is put together as the recursion is: from results that are there, from errors, and
    by sequencing (`Simulates.bind`). -/

/-- No step is needed where the result is the state. -/
theorem Simulates.done (a : α) : Simulates job (.next (next a)) (some a) next := ⟨0, rfl⟩

/-- An error agrees with a recursion that has no result. -/
theorem Simulates.of_isError (h : IsError s) : Simulates job s (none : Option α) next :=
  ⟨0, by rw [after]; exact h⟩

/-! Steps may come before a simulation, and so may one step. -/

theorem Simulates.of_after {n : Nat} (hn : after job n s = .next p)
    (h : Simulates job (.next p) r next) : Simulates job s r next := by
  cases r with
  | some a =>
    obtain ⟨m, hm⟩ := h
    exact ⟨n + m, by rw [after_add, hn, hm]⟩
  | none =>
    obtain ⟨m, hm⟩ := h
    refine ⟨n + m, ?_⟩
    rw [after_add, hn]
    exact hm

theorem Simulates.of_step (h : Simulates job (p.step job) r next) :
    Simulates job (.next p) r next := by
  cases r with
  | some a =>
    obtain ⟨n, hn⟩ := h
    exact ⟨n + 1, hn⟩
  | none =>
    obtain ⟨n, hn⟩ := h
    exact ⟨n + 1, hn⟩

/-- One after the other: what comes second starts in the state that the first one leads to. -/
theorem Simulates.bind {g : α → Option β} {next' : β → Pass} (h : Simulates job s r next)
    (hq : Quiet job s)
    (k : ∀ a, Quiet job (.next (next a)) → Simulates job (.next (next a)) (g a) next') :
    Simulates job s (r.bind g) next' := by
  cases r with
  | none => exact h
  | some a =>
    obtain ⟨n, hn⟩ := h
    exact .of_after hn (k a (hq.of_after hn))

/-- One step more, from whatever state is led to. -/
theorem Simulates.advance {next' : α → Pass} (h : Simulates job s r next)
    (k : ∀ a, (next a).step job = .next (next' a)) : Simulates job s r next' := by
  cases r with
  | none => exact h
  | some a =>
    obtain ⟨n, hn⟩ := h
    exact .of_after hn (.of_step ⟨0, k a⟩)

/-- What fails behind whatever comes first, fails. -/
theorem Simulates.fails (h : Simulates job (.next p) r next) (hq : Quiet job (.next p))
    (k : ∀ a, Quiet job (.next (next a)) → Fails job (next a)) : Fails job p := by
  cases r with
  | none => exact h
  | some a =>
    obtain ⟨n, hn⟩ := h
    exact Leads.fails ⟨n, hn⟩ (k a (hq.of_after hn))

end Simulation

/-! ## Lines

  A line of the pass and a line of the interpretation do the same with the same names, once it is
  known that the pass is not skipping and that the line does not close a loop. -/

/-- While `files` are open, interpreting a file by `visit` comes to what entering the file comes
    to. -/
def Visits (job : Job) (visit : Trace.Visit) (files : List OpenFile) : Prop :=
  ∀ (path : Path) (track : Bool) (margin : Text) (loops : List Loop) (t : Trace),
    Beneath loops files.length →
    Quiet job (enter job (t.state files loops) path track margin) →
    Simulates job (enter job (t.state files loops) path track margin)
      (visit path track ((files.head?.elim [] (·.indentation)) ++ margin) (loops.map Loop.scope) t)
      fun t => mark job (t.state files loops)

section Lines

variable {job : Job} {visit : Trace.Visit} {f : Frame} {outer : List OpenFile} {loops : List Loop}
  {t : Trace} {n : Nat} {raw : Text} {tail : List Text}

/-- Under a loop that has keys, lines are not skipped. -/
theorem Beneath.active {depth : Nat} {files : List OpenFile} (h : Beneath loops depth) :
    (t.state files loops).Active := fun l hl => (h l hl).1

/-- A step reads the next line and executes it, with the line counted. -/
theorem step_reading (ha : (t.state (f.reading n (raw :: tail) :: outer) loops).Active) :
    step job (t.state (f.reading n (raw :: tail) :: outer) loops) =
      execute job (t.state (f.reading (n + 1) tail :: outer) loops) (f.reading (n + 1) tail) outer
        raw.margin raw.content :=
  step_of_active rfl rfl ha

/-- A line that is read is performed. -/
theorem execute_of_read? {line : Text} {directive : Directive} (hc : raw.closes = false)
    (h : t.read? job f n raw (loops.map Loop.scope) = some (line, directive)) :
    execute job (t.state (f.reading n tail :: outer) loops) (f.reading n tail) outer
        raw.margin raw.content =
      perform job (t.state (f.reading n tail :: outer) loops) (f.reading n tail) outer
        raw.margin line directive := by
  obtain ⟨he, hd⟩ := Trace.read?_eq_some_iff.1 h
  have he' : Expands job (t.state (f.reading n tail :: outer) loops) (f.reading n tail) raw line :=
    he
  exact execute_eq_perform hc he' hd

/-- A line that cannot be read ends the pass. -/
theorem isError_of_read? (hc : raw.closes = false)
    (h : t.read? job f n raw (loops.map Loop.scope) = none) :
    IsError (execute job (t.state (f.reading n tail :: outer) loops) (f.reading n tail) outer
      raw.margin raw.content) := by
  have hc : LoopHeader.isEnd raw.content = false := hc
  unfold execute
  simp only [hc, Bool.false_eq_true, if_false]
  split
  · exact ⟨_, _, rfl⟩
  · next line he =>
    split
    · exact ⟨_, _, rfl⟩
    · next directive hd =>
      have hr := Trace.read?_eq_some_iff.2 ⟨he, hd⟩
      rw [show t.read? job f n raw (loops.map Loop.scope) = _ from hr] at h
      cases h

/-- While no line is made a header, a plain line does not open a loop. -/
theorem read?_ne_loop {line : Text} {header : LoopHeader} (ha : Beneath loops (outer.length + 1))
    (hp : raw.opens = false ∧ raw.closes = false)
    (hq : Quiet job (.next (t.state (f.reading n (raw :: tail) :: outer) loops))) :
    t.read? job f (n + 1) raw (loops.map Loop.scope) ≠ some (line, .loop header) := by
  intro h
  obtain ⟨he, hd⟩ := Trace.read?_eq_some_iff.1 h
  -- The line would be made a header in the state at hand, which is quiet.
  have hh := Directive.isHeader_of_parse hd
  have running : loops.head?.any (·.keys.isEmpty) = false := by
    cases loops with
    | nil => rfl
    | cons l loops => simpa using (ha l rfl).1
  have hm : makesHeader job (t.state (f.reading n (raw :: tail) :: outer) loops) = false :=
    hq 0 _ rfl
  simp only [makesHeader, Trace.state, Frame.reading, environment, running, hp.1, hp.2, he,
    hh] at hm
  cases hm

/-- A line that neither opens nor closes a loop: both sides replace its tokens, parse it, and do
    what the directive says.  An include is simulated by hypothesis. -/
theorem simulates_dispatch (hv : Visits job visit (f.reading (n + 1) tail :: outer))
    (ha : Beneath loops (outer.length + 1)) (hp : raw.opens = false ∧ raw.closes = false)
    (hq : Quiet job (.next (t.state (f.reading n (raw :: tail) :: outer) loops))) :
    Simulates job (.next (t.state (f.reading n (raw :: tail) :: outer) loops))
      (t.dispatch? job visit f (n + 1) raw (loops.map Loop.scope))
      fun t => t.state (f.reading (n + 1) tail :: outer) loops := by
  have notLoop : ∀ line header,
      t.read? job f (n + 1) raw (loops.map Loop.scope) ≠ some (line, .loop header) :=
    fun _ _ => read?_ne_loop ha hp hq
  have hq' := hq.step
  apply Simulates.of_step
  rw [step_reading ha.active] at hq' ⊢
  unfold Trace.dispatch?
  cases hr : t.read? job f (n + 1) raw (loops.map Loop.scope) with
  | none => exact .of_isError (isError_of_read? hp.2 hr)
  | some read =>
    obtain ⟨line, directive⟩ := read
    rw [execute_of_read? hp.2 hr] at hq' ⊢
    cases directive with
    | version =>
      simp only [Option.bind_eq_bind, Option.bind_some]
      cases hx : job.config.context with
      | none =>
        refine .of_isError ?_
        simp only [perform, hx]
        exact ⟨_, _, rfl⟩
      | some context =>
        simp only [perform, hx]
        exact .done _
    | platform => exact .done _
    | inclusion i =>
      simp only [Option.bind_eq_bind, Option.bind_some]
      rw [perform_inclusion] at hq' ⊢
      cases hi : resolve? job f.path i with
      | none =>
        refine .of_isError ?_
        simp only [Frame.reading, hi]
        exact ⟨_, _, rfl⟩
      | some path =>
        simp only [Frame.reading, hi] at hq' ⊢
        -- The included file comes back to this line, whose marker is written then.
        exact (hv path i.track raw.margin loops t ha hq').bind hq' fun t _ => ⟨0, rfl⟩
    | loop header => exact absurd hr (notLoop line header)
    | plain => exact .done _

/-- The state in which a loop was opened. -/
def opened (job : Job) (f : Frame) (n : Nat) (tail : List Text) (outer : List OpenFile)
    (loops : List Loop) (o : Opening) (t : Trace) : Pass :=
  match o.keys with
  | [] =>
    (t.write .loopEmpty).state (f.reading n tail :: outer)
      (o.loop f outer.length n tail [] :: loops)
  | key :: more =>
    ((t.write (.loopStart o.collection key)).mark job f n).state (f.reading n tail :: outer)
      (o.loop f outer.length n tail (key :: more) :: loops)

/-- The header of a loop, up to the state in which the loop is open: its range is gathered, if it
    has one, and its collection found, on both sides with the same errors. -/
theorem simulates_opening (ha : Beneath loops (outer.length + 1)) (hp : raw.opens = true) :
    Simulates job (.next (t.state (f.reading n (raw :: tail) :: outer) loops))
      (t.opening? job f (n + 1) raw (loops.map Loop.scope))
      fun x => opened job f (n + 1) tail outer loops x.1 x.2 := by
  have hc := Text.closes_eq_false_of_opens hp
  apply Simulates.of_step
  rw [step_reading ha.active]
  unfold Trace.opening?
  cases hr : t.read? job f (n + 1) raw (loops.map Loop.scope) with
  | none => exact .of_isError (isError_of_read? hc hr)
  | some read =>
    obtain ⟨line, directive⟩ := read
    rw [execute_of_read? hc hr]
    obtain ⟨he, hd⟩ := Trace.read?_eq_some_iff.1 hr
    -- The line is still a header when it is expanded, so it asks for a loop.
    have hh := Substitution.isHeader_of_expandLine he hp
    obtain ⟨header, rfl, _⟩ := Directive.exists_loop_of_parse hh hd
    simp only [Option.bind_eq_bind, Option.bind_some, perform, startLoop_eq]
    cases hg : header.gather t.ranges with
    | error fault =>
      refine .of_isError ?_
      simp only [Trace.state, hg]
      exact ⟨_, _, rfl⟩
    | ok gathered =>
      obtain ⟨ranges, name⟩ := gathered
      simp only [Trace.state, hg, Except.toOption, Option.bind_some, openLoop, environment]
      split
      · next hn =>
        rw [hn]
        exact .of_isError ⟨_, _, rfl⟩
      · next collection hn =>
        rw [hn, Option.bind_some]
        split
        · next hv =>
          rw [hv]
          exact .of_isError ⟨_, _, rfl⟩
        · next d hv =>
          rw [hv, Option.bind_some]
          split
          · next hk => exact ⟨0, by rw [hk]; rfl⟩
          · next key more hk => exact ⟨0, by rw [hk]; rfl⟩

end Lines

/-! ## Loops

  The pass has one state for all keys of a loop and goes back in the file; the interpretation goes
  over the keys.  So the induction is on the keys that are left, with the body simulated anew for
  each. -/

section Loops

variable {job : Job} {visit : Trace.Visit} {f : Frame} {outer : List OpenFile} {loops : List Loop}
  {t : Trace} {o : Opening} {n header : Nat} {body tail : List Text} {close : Text}

/-- The trace of a loop that was closed in line `n`. -/
def closed (job : Job) (f : Frame) (n : Nat) (o : Opening) (t : Trace) : Trace :=
  (t.write (.loopEnd o.collection)).mark job f n

/-- The end of a loop with its last key, or without keys. -/
theorem step_close {keys : List Text} (hk : keys = [] ∨ ∃ key, keys = [key])
    (hc : close.closes = true) :
    step job (t.state (f.reading n (close :: tail) :: outer)
        (o.loop f outer.length header body keys :: loops)) =
      .next ((closed job f (n + 1) o t).state (f.reading (n + 1) tail :: outer) loops) := by
  have hk : (keys = [] ∧ (o.loop f outer.length header body keys).skipped = 0) ∨
      ∃ key, keys = [key] := by
    rcases hk with rfl | hk
    · exact .inl ⟨rfl, rfl⟩
    · exact .inr hk
  refine step_of_effect rfl rfl ?_
  exact .close (l := o.loop f outer.length header body keys) rfl hk hc rfl
    (AliasTable.pop?_ofScopes_cons _ _)

/-- The end of a loop with a key to come. -/
theorem step_again {key key' : Text} {more : List Text} (hc : close.closes = true) :
    step job (t.state (f.reading n (close :: tail) :: outer)
        (o.loop f outer.length header body (key :: key' :: more) :: loops)) =
      .next (((t.write (.loopKey o.collection key')).mark job f header).state
        (f.reading header body :: outer)
        (o.loop f outer.length header body (key' :: more) :: loops)) := by
  refine step_of_effect rfl rfl ?_
  exact .again (l := o.loop f outer.length header body (key :: key' :: more)) rfl rfl hc rfl
    (AliasTable.pop?_ofScopes_cons _ _)

/-- Under a loop without keys the lines of a body are skipped.  The induction is on the body; the
    loops in it are counted in the loop that skips, so this loop varies. -/
theorem leads_skip (b : Body) {l : Loop} (hk : l.keys = []) :
    Leads job (t.state (f.reading n (b.lines ++ tail) :: outer) (l :: loops))
      (t.state (f.reading (n + b.size) tail :: outer) (l :: loops)) := by
  induction b generalizing n tail l with
  | done => exact .refl job _
  | line raw hp rest ih =>
    rw [Body.size_line, ← Nat.add_assoc]
    refine Leads.trans (.of_step ?_) (ih hk)
    exact step_of_effect rfl rfl (.skip rfl hk hp.2 hp.1)
  | loop raw ho inner close hc rest ihb ihr =>
    -- The loop inside is counted on the way in and again on the way out.
    let deeper : Loop := { l with skipped := l.skipped + 1 }
    have down : ∀ unread,
        step job (t.state (f.reading n (raw :: unread) :: outer) (l :: loops)) =
          .next (t.state (f.reading (n + 1) unread :: outer) (deeper :: loops)) := by
      intro unread
      exact step_of_effect rfl rfl (.deepen rfl hk (Text.closes_eq_false_of_opens ho) ho)
    have up : ∀ m unread,
        step job (t.state (f.reading m (close :: unread) :: outer) (deeper :: loops)) =
          .next (t.state (f.reading (m + 1) unread :: outer) (l :: loops)) := by
      intro m unread
      exact step_of_effect rfl rfl (.rise (l := deeper) rfl hk hc rfl)
    rw [Body.size_loop, Body.lines, List.cons_append, List.append_assoc, List.cons_append,
      ← Nat.add_assoc, ← Nat.add_assoc, ← Nat.add_assoc]
    refine Leads.trans (.of_step (down _)) ?_
    refine Leads.trans (ihb (l := deeper) hk) ?_
    exact Leads.trans (.of_step (up _ _)) (ihr hk)

/-- From line `n` on, the lines of `b` come to what unrolling `b` tells, whatever loops are
    around. -/
def Unrolls (job : Job) (visit : Trace.Visit) (f : Frame) (outer : List OpenFile) (b : Body)
    (n : Nat) (tail : List Text) : Prop :=
  ∀ (loops : List Loop) (t : Trace), Beneath loops (outer.length + 1) →
    Quiet job (.next (t.state (f.reading n (b.lines ++ tail) :: outer) loops)) →
    Simulates job (.next (t.state (f.reading n (b.lines ++ tail) :: outer) loops))
      (b.unroll? job visit f n (loops.map Loop.scope) t)
      fun t => t.state (f.reading (n + b.size) tail :: outer) loops

/-- The body of a loop, for the current key and those to come.  The induction is on the keys to
    come: after each turn the cursor goes back to the line after the header, in the loop with one
    key less, so the trace and the current key vary. -/
theorem simulates_turns {b : Body} (hb : Unrolls job visit f outer b n (close :: tail))
    (hc : close.closes = true) {key : Text} {more : List Text}
    (hq : Quiet job (.next (t.state (f.reading n (b.lines ++ close :: tail) :: outer)
      (o.loop f outer.length n (b.lines ++ close :: tail) (key :: more) :: loops)))) :
    Simulates job (.next (t.state (f.reading n (b.lines ++ close :: tail) :: outer)
        (o.loop f outer.length n (b.lines ++ close :: tail) (key :: more) :: loops)))
      ((b.unroll? job visit f n (o.bindings key :: loops.map Loop.scope) t).bind fun t =>
        more.foldlM (fun t key => b.unroll? job visit f n (o.bindings key :: loops.map Loop.scope)
          ((t.write (.loopKey o.collection key)).mark job f n)) t)
      fun t => (closed job f (n + b.size + 1) o t).state
        (f.reading (n + b.size + 1) tail :: outer) loops := by
  induction more generalizing key t with
  | nil =>
    refine (hb _ _ (beneath_self (List.cons_ne_nil _ _) rfl) hq).bind hq fun t _ => ?_
    exact .of_step ⟨0, step_close (.inr ⟨key, rfl⟩) hc⟩
  | cons key' more ih =>
    refine (hb _ _ (beneath_self (List.cons_ne_nil _ _) rfl) hq).bind hq fun t hq' => ?_
    have hq'' := hq'.step
    apply Simulates.of_step
    rw [step_again hc] at hq'' ⊢
    rw [List.foldlM_cons]
    exact ih hq''

/-- A loop, from the state in which it was opened to the line after it. -/
theorem simulates_loop {b : Body} (hb : Unrolls job visit f outer b n (close :: tail))
    (hc : close.closes = true)
    (hq : Quiet job (.next (opened job f n (b.lines ++ close :: tail) outer loops o t))) :
    Simulates job (.next (opened job f n (b.lines ++ close :: tail) outer loops o t))
      (o.unroll? (.mark job f n) (fun bindings =>
        b.unroll? job visit f n (bindings :: loops.map Loop.scope)) t)
      fun t => (closed job f (n + b.size + 1) o t).state
        (f.reading (n + b.size + 1) tail :: outer) loops := by
  unfold opened at hq ⊢
  unfold Opening.unroll?
  cases hk : o.keys with
  | nil =>
    rw [hk] at hq
    obtain ⟨m, hm⟩ :
        Leads job ((t.write .loopEmpty).state (f.reading n (b.lines ++ close :: tail) :: outer)
          (o.loop f outer.length n (b.lines ++ close :: tail) [] :: loops)) _ :=
      leads_skip b rfl
    exact .of_after hm (.of_step ⟨0, step_close (.inl rfl) hc⟩)
  | cons key more =>
    rw [hk] at hq
    exact simulates_turns hb hc hq

/-- **A body is unrolled**, by induction on it: a line and the rest, or a header, the body of the
    loop, its end, and the rest. -/
theorem simulates_body (hv : ∀ n unread, Visits job visit (f.reading n unread :: outer))
    (b : Body) : ∀ n tail, Unrolls job visit f outer b n tail := by
  induction b with
  | done => exact fun n tail loops t _ _ => ⟨0, rfl⟩
  | line raw hp rest ih =>
    intro n tail loops t ha hq
    rw [Body.size_line, ← Nat.add_assoc]
    exact (simulates_dispatch (hv _ _) ha hp hq).bind hq fun t hq' => ih (n + 1) tail loops t ha hq'
  | loop header ho body close hc rest ihb ihr =>
    intro n tail loops t ha hq
    rw [Body.size_loop, ← Nat.add_assoc, ← Nat.add_assoc, ← Nat.add_assoc]
    rw [Body.lines, List.cons_append, List.append_assoc, List.cons_append] at hq ⊢
    -- The header opens the loop, the loop comes to the line behind its end, and the rest goes on
    -- there.
    refine (simulates_opening ha ho).bind hq ?_
    rintro ⟨o, t⟩ hq₁
    refine (simulates_loop (ihb _ _) hc hq₁).bind hq₁ fun t hq₂ => ?_
    exact ihr _ tail loops _ ha hq₂

end Loops

/-! ## Lines that do not match

  Where lines are no body the interpretation gives up before it begins, while the pass goes on until
  it meets the line that does not match.  It has to be shown that it cannot end well before or after
  that. -/

section Unmatched

variable {job : Job} {visit : Trace.Visit} {f : Frame} {outer : List OpenFile} {loops : List Loop}
  {t : Trace} {n : Nat} {header close : Text} {lines tail : List Text}

/-- A line that closes a loop of no file further out is rejected. -/
theorem isError_of_closes (ha : Beneath loops outer.length) (hc : close.closes = true) :
    IsError (step job (t.state (f.reading n (close :: tail) :: outer) loops)) := by
  have hc : LoopHeader.isEnd close.content = true := hc
  rw [step_reading ha.active, execute, if_pos hc, endLoop]
  cases loops with
  | nil => exact ⟨_, _, rfl⟩
  | cons l loops =>
    have hd : l.depth ≠ outer.length := Nat.ne_of_lt (ha l rfl).2
    refine ⟨t.registry, .malformed (.endInOtherFile l.file l.header) ⟨f.path.text, n + 1⟩, ?_⟩
    simp only [Trace.state, hd, ne_eq, not_false_eq_true, if_true]
    rfl

/-- A file cannot be left inside a loop of its own. -/
theorem isError_of_end {l : Loop} (hd : l.depth = outer.length) :
    IsError (step job (t.state (f.reading n [] :: outer) (l :: loops))) := by
  refine ⟨t.registry, .malformed .fileEndsInLoop ⟨l.file, l.header⟩, ?_⟩
  show leave job (t.state (f.reading n [] :: outer) (l :: loops)) outer = _
  simp only [leave, Trace.state, hd, Nat.le_refl, if_true]
  rfl

/-- Inside a loop of the file, the lines come to an error. -/
def Trapped (job : Job) (f : Frame) (outer : List OpenFile) (lines : List Text) : Prop :=
  ∀ (n : Nat) (l : Loop) (loops : List Loop) (t : Trace), l.depth = outer.length →
    Quiet job (.next (t.state (f.reading n lines :: outer) (l :: loops))) →
    Fails job (t.state (f.reading n lines :: outer) (l :: loops))

variable (hv : ∀ n unread, Visits job visit (f.reading n unread :: outer))

include hv

/-- A body does not close the loop around it, whether it is run or skipped. -/
theorem trapped_body (b : Body) : Trapped job f outer b.lines := by
  intro n l loops t hd hq
  rw [← List.append_nil b.lines] at hq ⊢
  by_cases hk : l.keys = []
  · exact (leads_skip b hk).fails (.of_step (isError_of_end hd))
  · refine (simulates_body hv b n [] _ t (beneath_self hk hd) hq).fails hq fun t _ => ?_
    exact .of_step (isError_of_end hd)

/-- Behind a body a loop is opened, out of which the lines do not lead. -/
theorem fails_of_trapped (b : Body) (ho : header.opens = true) (h : Trapped job f outer lines)
    (ha : Beneath loops (outer.length + 1))
    (hq : Quiet job (.next (t.state (f.reading n (b.lines ++ header :: lines) :: outer) loops))) :
    Fails job (t.state (f.reading n (b.lines ++ header :: lines) :: outer) loops) := by
  refine (simulates_body hv b n _ loops t ha hq).fails hq fun t hq₁ => ?_
  refine (simulates_opening ha ho).fails hq₁ ?_
  rintro ⟨o, t⟩ hq₂
  simp only [opened] at hq₂ ⊢
  split
  · next hk =>
    rw [hk] at hq₂
    exact h _ _ _ _ rfl hq₂
  · next key more hk =>
    rw [hk] at hq₂
    exact h _ _ _ _ rfl hq₂

/-- So lines that lead into such a loop are a trap themselves, for a loop that runs and for one that
    skips. -/
theorem trapped_of_trapped (b : Body) (ho : header.opens = true) (h : Trapped job f outer lines) :
    Trapped job f outer (b.lines ++ header :: lines) := by
  intro n l loops t hd hq
  by_cases hk : l.keys = []
  · -- The lines are skipped, and the loop opened behind the body is counted.
    have hskip :
        Leads job (t.state (f.reading n (b.lines ++ header :: lines) :: outer) (l :: loops))
          (t.state (f.reading (n + b.size) (header :: lines) :: outer) (l :: loops)) :=
      leads_skip b hk
    have hstep :
        step job (t.state (f.reading (n + b.size) (header :: lines) :: outer) (l :: loops)) =
          .next (t.state (f.reading (n + b.size + 1) lines :: outer)
            ({ l with skipped := l.skipped + 1 } :: loops)) :=
      step_of_effect rfl rfl (.deepen rfl hk (Text.closes_eq_false_of_opens ho) ho)
    obtain ⟨m, hm⟩ := hskip.trans (.of_step hstep)
    exact Leads.fails ⟨m, hm⟩ (h _ _ _ t hd (hq.of_after hm))
  · exact fails_of_trapped hv b ho h (beneath_self hk hd) hq

/-- Where a loop is never closed, no line leads out of it, however many are opened after it. -/
theorem trapped_unclosed (h : Body.Unclosed lines) : Trapped job f outer lines := by
  induction h with
  | last b ho b' => exact trapped_of_trapped hv b ho (trapped_body hv b')
  | more b ho _ ih => exact trapped_of_trapped hv b ho ih

/-- **A file that is no body fails.** -/
theorem fails_of_unmatched (hlines : Body.ofLines? lines = none) (ha : Beneath loops outer.length)
    (hq : Quiet job (.next (t.state (f.reading n lines :: outer) loops))) :
    Fails job (t.state (f.reading n lines :: outer) loops) := by
  -- Either a loop is closed that was never opened, or one is opened that is never closed.
  rcases Body.body_or_unmatched lines with ⟨b, hb⟩ | ⟨b, close, more, hc, rfl⟩ | h
  · rw [Body.ofLines?_eq_some_iff.2 hb] at hlines
    cases hlines
  · refine (simulates_body hv b n _ loops t ha.succ hq).fails hq fun t _ => ?_
    exact .of_step (isError_of_closes ha hc)
  · cases h with
    | last b ho b' => exact fails_of_trapped hv b ho (trapped_body hv b') ha.succ hq
    | more b ho h => exact fails_of_trapped hv b ho (trapped_unclosed hv h) ha.succ hq

end Unmatched

/-! ## Files

  Included files are simulated with fewer files left to enter, by induction on their number.  The
  root file is entered in the first step, with nothing around it. -/

section Files

variable {job : Job} {files : List OpenFile} {loops : List Loop} {t : Trace} {path : Path}
  {track : Bool} {margin : Text}

/-- A file that can be entered is. -/
theorem enter_eq_next {text : Text} {f : Frame} (hf : job.source.find? path = some (.text text))
    (hn : files.any (·.path.same path) = false)
    (he : f = ⟨path, (t.registry.register path track).2,
      files.head?.elim [] (·.indentation) ++ margin⟩) :
    enter job (t.state files loops) path track margin =
      .next ((t.entered job f track files.isEmpty).state
        (f.reading 0 text.lines :: files) loops) := by
  subst he
  rw [enter_eq, hf]
  cases files with
  | nil => rfl
  | cons parent rest =>
    have hn : (t.state (parent :: rest) loops).files.any (·.path.same path) = false := hn
    simp only [hn, Bool.false_eq_true, if_false]
    rfl

/-- A file that is not there, cannot be read, or is open is not entered. -/
theorem isError_enter (h : ∀ text, job.source.find? path = some (.text text) →
      files.any (·.path.same path) = true) :
    IsError (enter job (t.state files loops) path track margin) := by
  rw [enter_eq]
  split
  · exact ⟨_, _, rfl⟩
  · next content hf =>
    split
    · exact ⟨_, _, rfl⟩
    · next hn =>
      simp only
      split
      · exact ⟨_, _, rfl⟩
      · next text => exact absurd (h text hf) hn

/-- A file of which all lines are read is left. -/
theorem step_left {f : Frame} {n : Nat} (ha : Beneath loops files.length) :
    step job (t.state (f.reading n [] :: files) loops) = .next (mark job (t.state files loops)) :=
  step_eq_next_iff.2 (.leave rfl rfl fun l hl => (ha l hl).2)

/-- **A file is unrolled**, inside whatever files are open.  Both sides look the file up, refuse it
    if it is open, and register it; then its lines are a body, which is unrolled, or they fail. -/
theorem visits_visit? (job : Job) (files : List OpenFile) :
    Visits job (Trace.visit? job (files.map (·.path))) files := by
  -- A file is entered only while it is not open, so the files that can still be entered become
  -- fewer.
  induction hm : fresh job.source.files (files.map (·.path)) using Nat.strongRecOn
    generalizing files with
  | ind m ih =>
    intro path track margin loops t ha hq
    rw [Trace.visit?_eq, List.any_map]
    cases hf : job.source.find? path with
    | none => exact .of_isError (isError_enter (by simp [hf]))
    | some content =>
      cases content with
      | unreadable reason => exact .of_isError (isError_enter (by simp [hf]))
      | text text =>
        -- Both sides refuse a file that is open.
        cases hn : files.any (·.path.same path) with
        | true =>
          simp only [Function.comp_def, hn, if_true]
          exact .of_isError (isError_enter fun _ _ => hn)
        | false =>
          let f : Frame :=
            ⟨path, (t.registry.register path track).2,
              files.head?.elim [] (·.indentation) ++ margin⟩
          have hopen : (files.map (·.path)).any (·.same path) = false := by
            rw [List.any_map]
            exact hn
          have hless : fresh job.source.files (path :: files.map (·.path)) < m :=
            hm ▸ fresh_cons_lt (Source.listed_of_find?_eq_text hf) hopen
          have hv : ∀ n unread, Visits job (Trace.visit? job (path :: files.map (·.path)))
              (f.reading n unread :: files) :=
            fun n unread => ih _ hless (f.reading n unread :: files) rfl
          have hroot : (files.map (·.path)).isEmpty = files.isEmpty := by cases files <;> rfl
          rw [enter_eq_next hf hn rfl] at hq ⊢
          simp only [Function.comp_def, hn, Bool.false_eq_true, if_false, hroot]
          cases hb : Body.ofLines? text.lines with
          | none => exact fails_of_unmatched hv hb ha hq
          | some b =>
            have hlines : text.lines = b.lines ++ [] := by
              rw [Body.ofLines?_eq_some_iff.1 hb, List.append_nil]
            rw [hlines] at hq ⊢
            -- Its lines lead to its end, where it is left: no loop of its own is open.
            have hbody := simulates_body hv b 0 [] loops _ ha.succ hq
            exact hbody.advance fun t => step_left ha

/-- A pass comes to what unrolling the root file tells. -/
theorem process_eq_unrolled (job : Job) (registry : Registry)
    (hq : Quiet job (start job registry)) :
    (process job registry).result.toOption =
      (Trace.visit? job [] job.root true [] [] ⟨.empty, registry, []⟩).map (·.output.reverse) := by
  have h := visits_visit? job [] job.root true [] [] ⟨.empty, registry, []⟩
    (fun l hl => by cases hl) hq
  simp only [List.map_nil, List.head?_nil, Option.elim_none, List.append_nil] at h
  cases hr : Trace.visit? job [] job.root true [] [] ⟨.empty, registry, []⟩ with
  | none =>
    rw [hr] at h
    obtain ⟨n, registry', e, hn⟩ := h
    rw [process_of_after n hn]
    rfl
  | some t =>
    rw [hr] at h
    obtain ⟨n, hn⟩ := h
    have hn : after job n (start job registry) = .next (t.state [] []) := hn
    -- With no file open, the step after that is the last.
    have hlast : after job (n + 1) (start job registry) =
        .stop ⟨t.registry, .ok t.output.reverse⟩ := by
      rw [after_add, hn]
      rfl
    rw [process_of_after (n + 1) hlast]
    rfl

end Files
end Pass

/-- **Replay is unrolling.**  As long as no line becomes a header only by its tokens, a pass
    succeeds exactly where unrolling the tree of the root file does, and with the same text. -/
theorem Preprocessor.process_eq_ok_iff_unrolled (pre : Preprocessor)
    (h : ∀ p, Pass.Reached pre.job pre.registry p → Pass.makesHeader pre.job p = false)
    (text : Text) :
    pre.process.2.map Piece.renderAll = .ok text ↔
      pre.unrolled?.map Piece.renderAll = some text := by
  have hp : pre.process.2.toOption = pre.unrolled? :=
    Pass.process_eq_unrolled pre.job pre.registry fun n p hn => h p ⟨n, hn⟩
  rw [← hp]
  cases pre.process.2 with
  | ok pieces => simp [Except.map, Except.toOption]
  | error e => simp [Except.map, Except.toOption]

/-- With a loop in the file that the body of another loop includes, no line is made a header by its
    tokens, and the pass writes what the trees of the two files tell. -/
theorem Preprocessor.process_eq_ok_iff_unrolled_nestedLoops :
    (∀ p, Pass.Reached nestedLoops.job nestedLoops.registry p →
      Pass.makesHeader nestedLoops.job p = false) ∧
    ∃ text, nestedLoops.process.2.map Piece.renderAll = .ok text ∧
      nestedLoops.unrolled?.map Piece.renderAll = some text := by
  have quiet : ∀ p, Pass.Reached nestedLoops.job nestedLoops.registry p →
      Pass.makesHeader nestedLoops.job p = false := by
    rintro p ⟨n, hn⟩
    exact Pass.quiet_of_quietWithin (n := 19) (by decide +kernel) n p hn
  obtain ⟨registry, pieces, ends⟩ : ∃ registry pieces,
      Pass.after nestedLoops.job 19 (Pass.start nestedLoops.job nestedLoops.registry) =
        .stop ⟨registry, .ok pieces⟩ :=
    ⟨_, _, rfl⟩
  have hok : nestedLoops.process.2.map Piece.renderAll = .ok (Piece.renderAll pieces) :=
    congrArg (·.result.map Piece.renderAll) (Pass.process_of_after 19 ends)
  exact ⟨quiet, Piece.renderAll pieces, hok, (process_eq_ok_iff_unrolled nestedLoops quiet _).1 hok⟩

end ShaderWeave
