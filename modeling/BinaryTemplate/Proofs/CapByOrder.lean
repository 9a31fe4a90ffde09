import BinaryTemplate.Proofs.FirstDeclared

/-!
# The cap in either order

The cap on the instances of an element is asked for at different points. In its turn, an element is
capped before an attempt at one more instance, and where any of the definitions may come next behind
an instance that was taken. So with as many instances as the cap, and nothing behind them, the one
loop ends well and the other one fails: it takes one instance less.
-/

namespace BinaryTemplate.Decoder

open DecodeM

variable {σ : Type} [ByteSource σ] [SliceLike σ] {d : Decoder σ} {child : d.DecodeChild}
  {p : Place} {n c : Node d.schema} {st st' : DecodeState σ} {vs : List Value}

/-! ## Loops -/

/-- Instances of an element one directly behind the other, each with a length. -/
inductive Consecutive (child : d.DecodeChild) (c : Node d.schema) :
    Place → DecodeState σ → List Value → DecodeState σ → Prop
  | nil {p : Place} {st : DecodeState σ} : Consecutive child c p st [] st
  | cons {p : Place} {st mid st' : DecodeState σ} {v : Value} {vs : List Value}
      (decoded : Returns (child p c) st v mid) (progress : v.len ≠ 0)
      (rest : Consecutive child c (p.complete v) mid vs st') :
      Consecutive child c p st (v :: vs) st'

/-- Every instance takes a byte. -/
theorem Consecutive.forward (passes : PassesAll child) (h : Consecutive child c p st vs st') :
    st.reading.cursor + vs.length ≤ st'.reading.cursor := by
  induction h with
  | nil => exact Nat.le_refl _
  | cons decoded progress _ inductionHypothesis =>
    have passed := (passes decoded).cursor
    rw [List.length_cons]
    omega

/-- A loop over the instances of an element, with so much room left, behind some instances: it ends
where nothing is left, and it goes on behind an instance with a length if there is room for it. -/
structure CappedLoop (child : d.DecodeChild) (c : Node d.schema)
    (loop : (room : Nat) → (taken : List Value) → Place → DecodeM σ Place) : Prop where
  ends : ∀ room taken {p : Place} {st : DecodeState σ}, Spent p st →
    ∃ after, Returns (loop room taken p) st p after ∧ st.Resumes after
  full : ∀ taken {p : Place} {st mid : DecodeState σ} {v : Value}, ¬ Spent p st →
    Returns (child p c) st v mid → v.len ≠ 0 →
      ∃ e after, Throws (loop 0 taken p) st e after ∧ e.failure = .repeatLimit d.options.maxRepeat
  next : ∀ room taken {p : Place} {st mid : DecodeState σ} {v : Value}, ¬ Spent p st →
    Returns (child p c) st v mid → v.len ≠ 0 →
      ∃ after, mid.Resumes after ∧
        (loop (room + 1) taken p).ending st = (loop room (taken ++ [v]) (p.complete v)).ending after

/-- A loop takes as many instances as there is room for, and fails at one more. -/
theorem CappedLoop.runs {loop : Nat → List Value → Place → DecodeM σ Place}
    (capped : CappedLoop child c loop) (again : Repeatable child) (passes : PassesAll child)
    (h : Consecutive child c p st vs st') {start : DecodeState σ} (same : st.Resumes start)
    (whole : st'.reading.cursor = p.limit) (aligned : st'.reading.pending = []) (room : Nat)
    (taken : List Value) :
    (vs.length ≤ room →
      ∃ after, Returns (loop room taken p) start (p.completeAll vs) after ∧ st'.Resumes after) ∧
    (room < vs.length →
      ∃ e after, Throws (loop room taken p) start e after ∧
        e.failure = .repeatLimit d.options.maxRepeat) := by
  induction h generalizing start room taken with
  | @nil p st =>
    have spent : Spent p start := by
      rw [Spent, same.reading]
      exact ⟨Nat.le_of_eq whole.symm, aligned⟩
    obtain ⟨after, returned, still⟩ := capped.ends room taken spent
    exact ⟨fun _ => ⟨after, returned, same.trans still⟩,
      fun more => absurd more (Nat.not_lt_zero _)⟩
  | @cons p st mid st' v vs decoded progress rest inductionHypothesis =>
    -- The instance takes a byte before the end, so something is left where it starts.
    have unspent : ¬ Spent p start := by
      have forward := rest.forward passes
      have passed := (passes decoded).cursor
      rintro ⟨full, -⟩
      rw [same.reading] at full
      omega
    obtain ⟨mid', decoded', same'⟩ := returns_resumed again decoded same.symm
    cases room with
    | zero =>
      exact ⟨fun few => absurd few (Nat.not_succ_le_zero _),
        fun _ => capped.full taken unspent decoded' progress⟩
    | succ room =>
      obtain ⟨behind, same'', round⟩ := capped.next room taken unspent decoded' progress
      obtain ⟨fits, exceeds⟩ :=
        inductionHypothesis (same'.symm.trans same'') whole aligned room (taken ++ [v])
      refine ⟨fun few => ?_, fun more => ?_⟩
      · obtain ⟨after, returned, still⟩ := fits (Nat.le_of_succ_le_succ few)
        exact ⟨after, round.trans returned, still⟩
      · obtain ⟨e, after, thrown, limit⟩ := exceeds (Nat.lt_of_succ_lt_succ more)
        exact ⟨e, after, round.trans thrown, limit⟩

/-! ### In its turn -/

/-- A round of an open-ended run that begins where something is left comes to the attempt. -/
theorem repeatFrom_begins (child : d.DecodeChild) (c : Node d.schema) (room count : Nat)
    (left : ¬ Spent p st) :
    ∃ mark start, Marked mark start ∧ st.Resumes start ∧
      (d.repeatFrom child c 0 none room count p).ending st =
        (match room with
          | 0 => fail c mark.position (.repeatLimit d.options.maxRepeat)
          | room + 1 => do
            match ← outcome (child p c) with
            | .ok v =>
              if v.len = 0 ∧ (none : Option Nat).isNone then return p.complete v
              d.repeatFrom child c 0 none room (count + 1) (p.complete v)
            | .error e =>
              if (none : Option Nat).isNone && 0 ≤ count && e.isMismatch then
                record (.runEnded c.label count e)
                mark.rewind c
                return p
              throw e).ending start := by
  obtain ⟨mark, start, takes, marked, resumes⟩ := take_succeeds c st
  have unspent : ¬ Spent p start := fun spent => left (spent_of_resumes resumes spent)
  refine ⟨mark, start, marked, resumes, ?_⟩
  rw [repeatFrom.eq_def]
  simp only [Option.any_none, Bool.false_eq_true, if_false, Nat.zero_le, if_true]
  rw [ending_behind takes]
  refine (ending_behind (exhausted_returns.mpr ⟨rfl, rfl⟩)).trans ?_
  exact congrArg (ending · start) (if_neg (mt marked.spent.mp unspent))

theorem repeatFrom_cappedLoop (again : Repeatable child) :
    CappedLoop child c fun room taken p => d.repeatFrom child c 0 none room taken.length p where
  ends room taken {p st} spent := by
    have stays : Delivers (d.repeatFrom child c 0 none room taken.length p) st.reading p
        st.reading := repeatFrom_spent rfl (Nat.zero_le _) spent.1 spent.2
    obtain ⟨st', returned, reading, warnings⟩ := stays st rfl
    exact ⟨st', returned, reading, warnings⟩
  full taken {p st mid v} left _ _ := by
    obtain ⟨mark, start, -, -, round⟩ :=
      repeatFrom_begins child c 0 taken.length left
    exact ⟨_, start, round.trans (throws_fail.mpr ⟨rfl, rfl⟩), rfl⟩
  next room taken {p st mid v} left decoded progress := by
    obtain ⟨mark, start, -, resumes, round⟩ :=
      repeatFrom_begins child c (room + 1) taken.length left
    obtain ⟨after, decoded', same⟩ := returns_resumed again decoded resumes.symm
    refine ⟨after, same.symm, round.trans ?_⟩
    rw [ending_behind (returns_outcome.mpr (.inl ⟨v, rfl, decoded'⟩)), List.length_append]
    dsimp only
    rw [if_neg (not_and_of_not_left _ progress)]
    rfl

/-! ### Where any may come next -/

/-- The choice with a single definition that is asked for any number of instances. -/
def chooseOnly (d : Decoder σ) (child : d.DecodeChild) (n c : Node d.schema) (offset : Nat)
    (room : Nat) (taken : List Value) (p : Place) : DecodeM σ Place := do
  let (p, choices) ← d.decodeChoices child n room p ([⟨c, 0, none, taken⟩].map Tally.alternative)
  d.checkMinimums offset choices
  return p

/-- A choice ends where nothing is left. -/
theorem decodeChoices_spent (child : d.DecodeChild) (room : Nat) (n : Node d.schema)
    (choices : List (Alternative d.schema)) (spent : Spent p st) :
    ∃ start, Returns (d.decodeChoices child n room p choices) st (p, choices) start ∧
      st.Resumes start := by
  obtain ⟨mark, start, takes, marked, resumes⟩ := take_succeeds n st
  have spent' : Spent p start := spent_of_resumes resumes.symm spent
  refine ⟨start, ?_, resumes⟩
  rw [decodeChoices.eq_def]
  refine returns_bind.mpr ⟨mark, start, takes, ?_⟩
  refine returns_bind.mpr ⟨_, start, exhausted_returns.mpr ⟨rfl, rfl⟩, ?_⟩
  rw [if_pos (marked.spent.mpr spent')]
  exact returns_pure.mpr ⟨rfl, rfl⟩

omit [ByteSource σ] [SliceLike σ] in
theorem checkMinimums_zero (offset : Nat) (taken : List Value) (st : DecodeState σ) :
    Returns (d.checkMinimums offset ([⟨c, 0, none, taken⟩].map Tally.alternative)) st () st := by
  rw [List.map_singleton, checkMinimums]
  exact returns_guard_bind.mpr ⟨Nat.not_lt_zero _, returns_pure.mpr ⟨rfl, rfl⟩⟩

/-- A round that takes an instance with a length. -/
theorem chooseOnly_takes (again : Repeatable child) (n : Node d.schema) (taken : List Value)
    (room : Nat) {mid : DecodeState σ} {v : Value} (left : ¬ Spent p st)
    (decoded : Returns (child p c) st v mid) (progress : v.len ≠ 0) :
    ∃ after, mid.Resumes after ∧
      (d.decodeChoices child n room p ([⟨c, 0, none, taken⟩].map Tally.alternative)).ending st =
        (match room with
          | 0 => fail n st.reading.cursor (.repeatLimit d.options.maxRepeat)
          | room + 1 => d.decodeChoices child n room (p.complete v)
              [(Tally.mk c 0 none (taken ++ [v])).alternative]).ending after := by
  let only : Tally d.schema := ⟨c, 0, none, taken⟩
  have first : ∀ u ∈ ([] : List (Tally d.schema)), u.alternative.isFull = false →
      Mismatches child p u.node st := List.forall_mem_nil _
  have decodes : Returns (child p only.node) st v mid := decoded
  exact decodeChoices_takes again room n [] left first rfl decodes progress

theorem chooseOnly_cappedLoop (again : Repeatable child) (n : Node d.schema) (offset : Nat) :
    CappedLoop child c (d.chooseOnly child n c offset) where
  ends room taken {p st} spent := by
    obtain ⟨start, ended, resumes⟩ :=
      decodeChoices_spent child room n ([⟨c, 0, none, taken⟩].map Tally.alternative) spent
    refine ⟨start, ?_, resumes⟩
    refine returns_bind.mpr ⟨_, start, ended, returns_bind.mpr ⟨(), start, ?_, ?_⟩⟩
    · exact checkMinimums_zero offset taken start
    · exact returns_pure.mpr ⟨rfl, rfl⟩
  full taken {p st mid v} left decoded progress := by
    obtain ⟨after, -, round⟩ := chooseOnly_takes again n taken 0 left decoded progress
    exact ⟨_, after, throws_bind.mpr (.inl (round.trans (throws_fail.mpr ⟨rfl, rfl⟩))), rfl⟩
  next room taken {p st mid v} left decoded progress := by
    obtain ⟨after, same, round⟩ := chooseOnly_takes again n taken (room + 1) left decoded progress
    exact ⟨after, same, ending_bind_of_eq round⟩

/-! ## Contents -/

/-- The number of instances that there is room for. -/
def capIn (d : Decoder σ) : ChildOrder → Nat
  | .declared => d.options.maxRepeat
  | .anyOf => d.options.maxRepeat - 1

omit [SliceLike σ] in
theorem decodeDeclared_only (child : d.DecodeChild) (on : Disabled c false)
    (bounds : d.Bounds p c 0 none) :
    d.decodeDeclared child [c.id] p =
      DecodeM.tell c >>= fun _ => d.repeatFrom child c 0 none d.options.maxRepeat 0 p := by
  have named : d.node c.id p.inner.start = pure c :=
    funext fun _ => node_returns.mpr ⟨Schema.node?_of_id c, rfl⟩
  have enabled : d.isDisabled c = pure false :=
    funext fun _ => isDisabled_returns.mpr ⟨on, rfl⟩
  have bounded (offset : Nat) : d.repeatBounds p c offset = pure (0, none) :=
    funext fun _ => repeatBounds_returns.mpr ⟨⟨0, bounds, rfl⟩, rfl⟩
  simp only [decodeDeclared, decodeRepeated, named, enabled, bounded, pure_bind, bind_pure,
    Bool.false_eq_true, if_false]

omit [SliceLike σ] in
theorem decodeAnyOf_only (child : d.DecodeChild) (n : Node d.schema) (on : Disabled c false)
    (bounds : d.Bounds p c 0 none) :
    d.decodeAnyOf child n [c.id] p =
      DecodeM.tell n >>= fun offset =>
        d.chooseOnly child n c offset (d.options.maxRepeat - 1) [] p := by
  have offers : Offered d p [c.id] [⟨c, 0, none, []⟩] :=
    .on (Schema.node?_of_id c) on bounds rfl .nil
  have offered (offset : Nat) :
      d.alternatives p offset [c.id] = pure ([⟨c, 0, none, []⟩].map Tally.alternative) :=
    funext fun st => alternatives_of_offered offset st offers
  simp only [decodeAnyOf, chooseOnly, offered, pure_bind]

theorem decodeContent_only (again : Repeatable child) (order : ChildOrder) (n : Node d.schema)
    (on : Disabled c false) (bounds : d.Bounds p c 0 none) (st : DecodeState σ) :
    ∃ loop start, CappedLoop child c loop ∧ st.Resumes start ∧
      (d.decodeContent child n [c.id] order p).ending st =
        (loop (d.capIn order) [] p).ending start := by
  cases order with
  | declared =>
    obtain ⟨start, tells, resumes⟩ := tell_succeeds c st
    refine ⟨_, start, repeatFrom_cappedLoop again, resumes, ?_⟩
    change (d.decodeDeclared child [c.id] p).ending st = _
    rw [decodeDeclared_only child on bounds, ending_behind tells]
    rfl
  | anyOf =>
    obtain ⟨start, tells, resumes⟩ := tell_succeeds n st
    refine ⟨_, start, chooseOnly_cappedLoop again n st.reading.cursor, resumes, ?_⟩
    change (d.decodeAnyOf child n [c.id] p).ending st = _
    rw [decodeAnyOf_only child n on bounds, ending_behind tells]
    rfl

/-! ## Structures -/

/-- A structure whose only child may come any number of times, with nothing in its frame but
instances of it, has them all if there is room for them, and fails at the cap if there are more:
the cap itself is the room in the declared order, and one less where any may come next. -/
theorem only_child_capped (d : Decoder σ) (reads : d.ScriptsOnlyRead) (sees : d.ScriptsSeeSlice)
    (depth : Nat) (p : Place) (n c : Node d.schema) (definition : Option ElementId)
    (order : ChildOrder) (declared : Option Nat) (st opened closed : DecodeState σ)
    (vs : List Value) (contains : Contains n definition [c.id] order)
    (structural : n.IsStructural) (on : Disabled c false) (spans : d.Spans p n declared)
    (fits : (inside p n definition st.reading.cursor declared).limit ≤ p.limit)
    (bounds : d.Bounds (inside p n definition st.reading.cursor declared) c 0 none)
    (reading : opened.reading = st.reading.afterBytes 0) (warnings : opened.warnings = st.warnings)
    (instances : Consecutive (d.decodeOne depth) c
      (inside p n definition st.reading.cursor declared) opened vs closed)
    (whole : closed.reading.cursor = (inside p n definition st.reading.cursor declared).limit)
    (aligned : closed.reading.pending = []) :
    (vs.length ≤ d.capIn order →
      ∃ st', Returns (d.decodeOne (depth + 1) p n) st
        ⟨n.id, st.reading.cursor, closed.reading.cursor - st.reading.cursor, none, .none, vs⟩
        st') ∧
    (d.capIn order < vs.length →
      ∃ e st', Throws (d.decodeOne (depth + 1) p n) st e st' ∧
        e.failure = .repeatLimit d.options.maxRepeat) := by
  have again := decodeOne_repeatable reads sees depth
  obtain ⟨start, opens⟩ := decodeOne_opens depth st contains structural spans fits
  have same : opened.Resumes start :=
    ⟨opens.reading.trans reading.symm, opens.warnings.trans warnings.symm⟩
  obtain ⟨loop, begun, capped, resumes, content⟩ :=
    decodeContent_only again order n on bounds start
  obtain ⟨enough, exceeds⟩ := capped.runs again (decodeOne_passes depth) instances
    (same.trans resumes) whole aligned (d.capIn order) []
  constructor
  · intro few
    obtain ⟨after, returned, ended⟩ := enough few
    have cursor : after.reading.cursor = closed.reading.cursor :=
      congrArg Reading.cursor ended.reading
    obtain ⟨st', decoded, -⟩ := opens.returns (content.trans returned) (by
      rintro len rfl
      rw [cursor, whole]
      exact (Nat.add_sub_cancel_left _ len).symm)
    refine ⟨st', ?_⟩
    rw [cursor, Place.children_completeAll] at decoded
    exact decoded
  · intro more
    obtain ⟨e, after, thrown, limit⟩ := exceeds more
    obtain ⟨st', failed⟩ := opens.throws (content.trans thrown)
    have fatal : e.isMismatch = false := by
      rw [DecodeError.isMismatch, limit]
      rfl
    rw [contentFailure_of_fatal fatal] at failed
    exact ⟨e, st', failed, limit⟩

/-! ## One byte after the other -/

/-- A structure of any number of numbers with one byte each. -/
def bytewise (order : ChildOrder) (cap : Nat) : Decoder Slice where
  schema :=
    { elements := #[
        ⟨{}, .structure { order := some order, children := [⟨1⟩] }⟩,
        ⟨{ repeatMin := some (.literal 0), repeatMax := some (.literal (-1)) },
          .number { extent := { length := some (.literal 1) } }⟩]
      root := ⟨0⟩ }
  options := { maxDepth := 2, maxRepeat := cap }

def bytewiseRoot (order : ChildOrder) (cap : Nat) : Node (bytewise order cap).schema :=
  ⟨⟨0⟩, _, rfl⟩

def bytewiseNumber (order : ChildOrder) (cap : Nat) : Node (bytewise order cap).schema :=
  ⟨⟨1⟩, _, rfl⟩

/-- The number in the only byte. -/
def bytewiseValue : Value :=
  ⟨⟨1⟩, 0, 1, some .little, .number (.unsigned 7) none [] none, []⟩

theorem bytewise_scriptless (order : ChildOrder) (cap : Nat) (script : ScriptBody) :
    ¬ (bytewise order cap).schema.HasScript script := by
  simp [Schema.HasScript, bytewise]

theorem bytewise_bounds (order : ChildOrder) (cap : Nat) (p : Place) :
    (bytewise order cap).Bounds p (bytewiseNumber order cap) 0 none :=
  ⟨.literal 0, .literal (-1), 0, -1, by cbv, by cbv, rfl, rfl, by decide, by decide⟩

/-- Behind the number. -/
def bytewiseBehind (order : ChildOrder) (cap : Nat) : DecodeState Slice :=
  (((bytewise order cap).decodeOne 1
    (inside (startPlace ⟨0⟩ 0 1) (bytewiseRoot order cap) none 0 none)
    (bytewiseNumber order cap)).ending { source := ⟨#[7], 0⟩ }).2

set_option maxRecDepth 8000 in
theorem only_child_capped_bytewise :
    (∃ st', Returns ((bytewise .declared 1).decodeOne 2 (startPlace ⟨0⟩ 0 1)
      (bytewiseRoot .declared 1)) { source := ⟨#[7], 0⟩ }
      ⟨⟨0⟩, 0, 1, none, .none, [bytewiseValue]⟩ st') ∧
    ∃ e st', Throws ((bytewise .anyOf 1).decodeOne 2 (startPlace ⟨0⟩ 0 1) (bytewiseRoot .anyOf 1))
      { source := ⟨#[7], 0⟩ } e st' ∧ e.failure = .repeatLimit 1 := by
  have capped (order : ChildOrder) (same : (bytewiseRoot order 1).order = .ok order)
      (number : Returns ((bytewise order 1).decodeOne 1
        (inside (startPlace ⟨0⟩ 0 1) (bytewiseRoot order 1) none 0 none)
        (bytewiseNumber order 1)) { source := ⟨#[7], 0⟩ } bytewiseValue (bytewiseBehind order 1))
      (cursor : (bytewiseBehind order 1).reading.cursor = 1)
      (aligned : (bytewiseBehind order 1).reading.pending = []) :=
    only_child_capped (bytewise order 1)
      (scriptsOnlyRead_of_scriptless (bytewise_scriptless order 1))
      (scriptsSeeSlice_of_scriptless (bytewise_scriptless order 1)) 1 (startPlace ⟨0⟩ 0 1)
      (bytewiseRoot order 1) (bytewiseNumber order 1) none order none { source := ⟨#[7], 0⟩ }
      { source := ⟨#[7], 0⟩ } (bytewiseBehind order 1) [bytewiseValue] (.structure rfl same)
      (.inl ⟨_, rfl⟩) rfl (by cases order <;> cbv) (Nat.le_refl 1) (bytewise_bounds order 1 _)
      rfl rfl (.cons number (by decide) .nil) cursor aligned
  constructor
  · have cursor : (bytewiseBehind .declared 1).reading.cursor = 1 := by cbv
    have returned :=
      (capped .declared (by cbv) (Prod.ext (by cbv) rfl) cursor (by cbv)).1 (by decide)
    rw [cursor] at returned
    exact returned
  · exact (capped .anyOf (by cbv) (Prod.ext (by cbv) rfl) (by cbv) (by cbv)).2 (by decide)

set_option maxRecDepth 8000 in
/-- One instance is not more than one, but too many where any may come next. -/
theorem single_instance_over_cap :
    ((bytewise .declared 1).decodeElement ⟨0⟩ ⟨#[7], 0⟩).result =
        .ok (⟨⟨0⟩, 0, 1, none, .none, [bytewiseValue]⟩, []) ∧
      ((bytewise .anyOf 1).decodeElement ⟨0⟩ ⟨#[7], 0⟩).result =
        .error ⟨⟨0⟩, "structure#0", 0, .repeatLimit 1⟩ ∧
      [bytewiseValue].length ≤ (bytewise .anyOf 1).options.maxRepeat := by
  refine ⟨by cbv, by cbv, by decide⟩

end BinaryTemplate.Decoder
