import BinaryTemplate.Proofs.CapByOrder
import BinaryTemplate.Proofs.Coincidence
import BinaryTemplate.Source.Cursor

/-!
# One open-ended child in either order

A structure with a single child that may come any number of times is decoded by two loops, one for
each order. Neither asks for a minimum or a maximum, both stop behind an instance without a length
and where an instance does not fit, and both go back to where that instance started. So they come to
the same until one of them meets the cap on instances.

The two runs are those of counterparts, whose schemas may differ in the orders of structures. A
child may take its order from the structure around it, so it is assumed that the child itself is
decoded alike. In memory it is if each element that it leads to keeps its order or has such a single
child itself.
-/

namespace BinaryTemplate.Decoder

open DecodeM

variable {σ : Type} [ByteSource σ] {d d' : Decoder σ} {child : d.DecodeChild}
  {child' : d'.DecodeChild} {p : Place} {n c : Node d.schema} {n' c' : Node d'.schema}
  {offset : Nat} {spared : Spared}

/-! ## Rounds -/

/-- A round of an open-ended run. -/
theorem repeatFrom_openEnded (child : d.DecodeChild) (c : Node d.schema) (room count : Nat)
    (p : Place) :
    d.repeatFrom child c 0 none room count p = (do
      let mark ← Mark.take c
      if ← exhausted p mark.position then return p
      match room with
      | 0 => fail c mark.position (.repeatLimit d.options.maxRepeat)
      | room + 1 =>
        match ← outcome (child p c) with
        | .ok v =>
          if v.len = 0 then return p.complete v
          d.repeatFrom child c 0 none room (count + 1) (p.complete v)
        | .error e =>
          if e.isMismatch then
            record (.runEnded c.label count e)
            mark.rewind c
            return p
          else throw e) := by
  rw [repeatFrom.eq_def]
  simp only [Option.any_none, Bool.false_eq_true, if_false, Nat.zero_le, if_true]
  refine bind_congr fun mark => bind_congr fun spent => ?_
  cases spent with
  | true => rfl
  | false =>
    simp only [Bool.false_eq_true, if_false]
    cases room with
    | zero => rfl
    | succ room =>
      refine bind_congr fun result => ?_
      cases result with
      | ok v => simp
      | error e => cases mismatch : e.isMismatch <;> simp [mismatch]

omit [ByteSource σ] in
theorem checkMinimums_only (c : Node d.schema) (offset : Nat) (taken : List Value) :
    d.checkMinimums offset [(Tally.mk c 0 none taken).alternative] = pure () :=
  funext fun st => checkMinimums_zero offset taken st

/-- A round of a choice with a single definition that is asked for any number of instances. -/
theorem chooseOnly_eq (child : d.DecodeChild) (n c : Node d.schema) (offset room : Nat)
    (taken : List Value) (p : Place) :
    d.chooseOnly child n c offset room taken p = (do
      let mark ← Mark.take n
      if ← exhausted p mark.position then return p
      match ← outcome (child p c) with
      | .ok v =>
        if v.len = 0 then return p.complete v
        match room with
        | 0 => fail n mark.position (.repeatLimit d.options.maxRepeat)
        | room + 1 => d.chooseOnly child n c offset room (taken ++ [v]) (p.complete v)
      | .error e =>
        if e.isMismatch then
          record (.rejected c.label mark.position e)
          mark.rewind n
          return p
        else throw e) := by
  unfold chooseOnly
  rw [decodeChoices.eq_def]
  simp only [bind_assoc, List.map_singleton]
  refine bind_congr fun mark => bind_congr fun spent => ?_
  cases spent with
  | true => simp only [if_true, pure_bind, checkMinimums_only]
  | false =>
    simp only [Bool.false_eq_true, if_false]
    let only (taken : List Value) : Alternative d.schema := (Tally.mk c 0 none taken).alternative
    have free : (only taken).isFull = false := rfl
    have counted (v : Value) :
        { only taken with count := (only taken).count + 1 } = only (taken ++ [v]) := by
      simp [only, Tally.alternative]
    simp only [firstMatch, only, free, Bool.false_eq_true, if_false, bind_assoc] at counted ⊢
    refine bind_congr fun result => ?_
    cases result with
    | ok v =>
      simp only [pure_bind, counted v]
      by_cases empty : v.len = 0
      · simp only [empty, if_true, pure_bind, checkMinimums_only]
      · simp only [empty, if_false]
        cases room with
        | zero => rfl
        | succ room => rfl
    | error e =>
      cases mismatch : e.isMismatch with
      | false => simp [mismatch]
      | true =>
        simp only [mismatch, Bool.not_true, Bool.false_eq_true, if_false, if_true, bind_assoc,
          pure_bind, Option.map_none, checkMinimums_only]
        rfl

/-! ## Loops -/

/-- The two loops coincide. The second one, which asks for room behind an instance and not before
it, has room for one instance less and meets the cap first, or neither has any and the first one
does. -/
theorem loops_coincide (children : ∀ vs, Coinciding spared (child (p.completeAll vs) c)
    (child' (p.completeAll vs) c')) {room room' : Nat}
    (rooms : (room = room' + 1 ∧ spared.right) ∨ (room = 0 ∧ room' = 0 ∧ spared.left))
    (taken : List Value) :
    Coinciding spared (d.repeatFrom child c 0 none room taken.length p)
      (d'.chooseOnly child' n' c' offset room' taken p) := by
  induction room' using Nat.strongRecOn generalizing room p taken with
  | ind room' inductionHypothesis =>
    rw [repeatFrom_openEnded, chooseOnly_eq]
    refine .bind (.take c n') fun mark => .bind (.of_simulates (exhausted_sims _)) fun spent =>
      .ite (fun _ => .pure p) fun _ => ?_
    obtain ⟨rfl, may⟩ | ⟨rfl, rfl, may⟩ := rooms
    · refine .outcome_bind (children []) (fun v => ?_) (fun e e' same => ?_) (fun e fatal => ?_)
        fun e fatal => ?_
      · refine .ite (fun _ => .pure _) fun _ => ?_
        cases room' with
        | zero => exact .atCapRight may _
        | succ room' =>
          have next := inductionHypothesis room' (Nat.lt_succ_self room') (p := p.complete v)
            (fun vs => children (v :: vs)) (.inl ⟨rfl, may⟩) (taken ++ [v])
          rw [List.length_append] at next
          exact next
      · dsimp only
        rw [same.isMismatch_eq]
        exact .ite (fun _ => .bind (.record _ _) fun _ =>
          .bind (.rewind c n' mark) fun _ => .pure p) fun _ => .throw same
      · simp only [fatal, Bool.false_eq_true, if_false]
      · simp only [fatal, Bool.false_eq_true, if_false]
    · exact .atCap may _

/-! ## Contents -/

omit [ByteSource σ] in
theorem Disabled.of_twins {off : Bool} (twins : c.Twins c') (h : Disabled c off) :
    Disabled c' off := by
  unfold Disabled at h ⊢
  obtain ⟨body, body', kind, kind'⟩ | ⟨-, kind⟩ := twins.kind_cases
  · rw [kind] at h
    rw [kind']
    exact h
  · have same : c.disabled = c'.disabled := twins.lookupD rfl
    rw [← kind, ← same]
    exact h

omit [ByteSource σ] in
theorem Evaluates.of_counterpart (kin : d.Counterpart d') {r : Reference} {k : Int64}
    (h : d.Evaluates p r k) : d'.Evaluates p r k := by
  cases r with
  | literal => exact h
  | expression text => exact (kin.evaluates _ text).symm.trans h

omit [ByteSource σ] in
theorem Bounds.of_twins (kin : d.Counterpart d') (twins : c.Twins c') {min : Nat}
    {max : Option Nat} (h : d.Bounds p c min max) : d'.Bounds p c' min max := by
  obtain ⟨least, most, kmin, kmax, foundMin, foundMax, evalMin, evalMax, counted, bound⟩ := h
  have sameMin : c.repeatMin = c'.repeatMin := twins.lookupD rfl
  have sameMax : c.repeatMax = c'.repeatMax := twins.lookupD rfl
  exact ⟨least, most, kmin, kmax, sameMin ▸ foundMin, sameMax ▸ foundMax,
    evalMin.of_counterpart kin, evalMax.of_counterpart kin, counted, bound⟩

/-- The run that meets the cap first is spared. That is the one in any order, unless there is no
room for a single instance. -/
structure SparesFirst (spared : Spared) (cap : Nat) : Prop where
  room : 0 < cap → spared.right
  noRoom : cap = 0 → spared.left

/-- Where a child is switched on, both contents are the loop over its instances. -/
theorem content_coincides_on (kin : d.Counterpart d') (twins : c.Twins c')
    (first : SparesFirst spared d.options.maxRepeat) (on : Disabled c false)
    (bounds : d.Bounds p c 0 none)
    (children : ∀ vs, Coinciding spared (child (p.completeAll vs) c)
      (child' (p.completeAll vs) c')) :
    Coinciding spared (d.decodeDeclared child [c.id] p)
      (d'.decodeAnyOf child' n' [c'.id] p) := by
  rw [decodeDeclared_only child on bounds,
    decodeAnyOf_only child' n' (on.of_twins twins) (bounds.of_twins kin twins)]
  refine .bind (.tell c n') fun offset => loops_coincide children ?_ []
  rw [← kin.maxRepeat]
  cases cap : d.options.maxRepeat with
  | zero => exact .inr ⟨rfl, rfl, first.noRoom cap⟩
  | succ room => exact .inl ⟨rfl, first.room (by omega)⟩

/-- A choice without a definition only tells where it is. -/
theorem decodeAnyOf_off {st : DecodeState σ} {position : Nat} (child : d.DecodeChild)
    (off : Disabled c true) (tells : Returns (tell n) st position st) :
    Returns (d.decodeAnyOf child n [c.id] p) st p st := by
  have none : Offered d p [c.id] [] := .off (Schema.node?_of_id c) off .nil
  have ended : Returns (d.decodeChoices child n (d.options.maxRepeat - 1) p []) st (p, []) st := by
    rw [decodeChoices.eq_def]
    refine returns_bind.mpr ⟨⟨position, st.pending, st.warnings⟩, st, ?_, ?_⟩
    · exact returns_bind.mpr ⟨position, st, tells, rfl⟩
    · refine returns_bind.mpr ⟨_, st, exhausted_returns.mpr ⟨rfl, rfl⟩, ?_⟩
      split <;> rfl
  refine returns_bind.mpr ⟨position, st, tells, ?_⟩
  refine returns_bind.mpr ⟨[], st, alternatives_of_offered position st none, ?_⟩
  exact returns_bind.mpr ⟨_, st, ended, rfl⟩

/-- Where a child is switched off, the one order has nothing to do, and the other one tells where it
is before it finds out. -/
theorem content_coincides_off {st st' : DecodeState σ} {position : Nat} (twins : c.Twins c')
    (off : ¬ Disabled c false) (related : (Simulation.abreast σ).Related st st')
    (tells : Returns (tell n') st' position st') :
    Coincide spared ((d.decodeDeclared child [c.id] p).ending st)
      ((d'.decodeAnyOf child' n' [c'.id] p).ending st') := by
  have named (offset : Nat) : Returns (d.node c.id offset) st c st :=
    node_returns.mpr ⟨Schema.node?_of_id c, rfl⟩
  obtain ⟨switched, after, looked⟩ | ⟨e, after, failed⟩ := returns_or_throws (d.isDisabled c) st
  · obtain ⟨switch, rfl⟩ := isDisabled_returns.mp looked
    cases switched with
    | false => exact absurd switch off
    | true =>
      have left : Returns (d.decodeDeclared child [c.id] p) after p
          { after with events := .disabled c.label :: after.events } :=
        returns_bind.mpr ⟨c, after, named p.inner.start,
          returns_bind.mpr ⟨true, after, looked, rfl⟩⟩
      exact .of_returns left (decodeAnyOf_off child' (switch.of_twins twins) tells)
        { related with events := False.elim }
  · obtain excuse | ⟨-, after', failed', between⟩ :=
      (isDisabled_sims twins st st' related).of_throws failed
    · exact excuse.elim
    have named' : Returns (d'.node c'.id position) st' c' st' :=
      node_returns.mpr ⟨Schema.node?_of_id c', rfl⟩
    have left : Throws (d.decodeDeclared child [c.id] p) st e after :=
      (throws_behind (named p.inner.start)).mpr (throws_bind.mpr (.inl failed))
    have right : Throws (d'.decodeAnyOf child' n' [c'.id] p) st' e after' :=
      (throws_behind tells).mpr (throws_bind.mpr (.inl ((throws_behind named').mpr
        (throws_bind.mpr (.inl failed')))))
    exact .of_throws left right between

/-- The contents coincide. A child may be switched off if the source can say once more where it
is. -/
theorem content_coincides (kin : d.Counterpart d') (twins : c.Twins c')
    (first : SparesFirst spared d.options.maxRepeat)
    (steady : ¬ Disabled c false → ByteSource.Steady σ) (bounds : d.Bounds p c 0 none)
    (children : ∀ vs, Coinciding spared (child (p.completeAll vs) c)
      (child' (p.completeAll vs) c'))
    {st st' : DecodeState σ} (related : (Simulation.abreast σ).Related st st')
    (told : ByteSource.Told st.source) :
    Coincide spared ((d.decodeContent child n [c.id] .declared p).ending st)
      ((d'.decodeContent child' n' [c'.id] .anyOf p).ending st') := by
  by_cases on : Disabled c false
  · exact content_coincides_on kin twins first on bounds children st st' related
  · rw [show st.source = st'.source from related.source] at told
    obtain ⟨position, again⟩ := steady on _ told
    have tells : Returns (DecodeM.tell n') st' position st' :=
      returns_onSource.mpr ⟨st'.source, again, rfl⟩
    exact content_coincides_off twins on related tells

/-! ## Containers -/

theorem contentFailure_sameCause (twins : n.Twins n') (start stop : Nat)
    (declared : Option Nat) {e e' : DecodeError} (same : e.SameCause σ e') :
    (d.contentFailure p n start stop declared e).SameCause σ
      (d'.contentFailure p n' start stop declared e') := by
  unfold contentFailure
  rw [← same.offset_eq, ← same.shortReadStop?_eq, twins.id, twins.label]
  split
  · split
    · exact .refl _
    · exact same
  · exact same

/-- Behind contents with the same values, or with errors of the same cause, containers are closed
alike. -/
theorem closeContainer_coincides (twins : n.Twins n') (start : Nat) (declared : Option Nat)
    (stop : Nat) {step step' : DecodeM σ Place} {st st' : DecodeState σ}
    (contents : Coincide spared (step.ending st) (step'.ending st')) :
    Coincide spared ((outcome step >>= d.closeContainer p n start declared stop).ending st)
      ((outcome step' >>= d'.closeContainer p n' start declared stop).ending st') := by
  have passes {d : Decoder σ} {n : Node d.schema} (e : DecodeError) (mid : DecodeState σ)
      (cap : e.failure.IsCap) :
      ∃ after, Throws (d.closeContainer p n start declared stop (.error e)) mid e after := by
    refine ⟨{ mid with pending := [] }, (throws_behind (returns_align (u := ()).mpr rfl)).mpr ?_⟩
    dsimp only
    rw [contentFailure_of_fatal cap.fatal]
    exact throws_throw.mpr ⟨rfl, rfl⟩
  refine contents.outcome_bind (fun inside mid mid' between => ?_)
    (fun e e' mid mid' same between => ?_) passes passes
  · refine Coinciding.bind .align (fun _ => .bind (.tellAt n n' start) fun _ =>
      .bind (.of_simulates (containerLength_sims twins _ _ declared)) fun len => ?_)
      mid mid' between
    rw [twins.id]
    exact .pure _
  · exact Coinciding.bind .align (fun _ => .throw
      (contentFailure_sameCause twins start stop declared same)) mid mid' between

theorem fillFrom_coincides (kin : d.Counterpart d') (twins : n.Twins n') (twinsChild : c.Twins c')
    (first : SparesFirst spared d.options.maxRepeat)
    (steady : ¬ Disabled c false → ByteSource.Steady σ) {definition : Option ElementId}
    {start : Nat} {declared : Option Nat}
    (bounds : d.Bounds (inside p n definition start declared) c 0 none)
    (children : ∀ vs, Coinciding spared
      (child ((inside p n definition start declared).completeAll vs) c)
      (child' ((inside p n definition start declared).completeAll vs) c'))
    {st st' : DecodeState σ} (related : (Simulation.abreast σ).Related st st')
    (told : ByteSource.Told st.source) :
    Coincide spared ((d.fillFrom child p n definition [c.id] .declared start declared).ending st)
      ((d'.fillFrom child' p n' definition [c'.id] .anyOf start declared).ending st') := by
  unfold fillFrom
  rw [← twins.id]
  refine (Coinciding.of_simulates (containerStop_sims twins start declared) st st' related).bind ?_
  intro stop mid mid' stops between
  obtain ⟨rfl, -, rfl⟩ := containerStop_returns.mp stops
  refine (Coinciding.record _ _ _ _ between).bind fun _ noted noted' noting between => ?_
  obtain rfl := returns_record.mp noting
  exact closeContainer_coincides twins start declared _
    (content_coincides kin twinsChild first steady bounds children between told)

/-! ## Structures -/

omit [ByteSource σ] in
/-- The children of a grammar have their turn. -/
theorem Contains.isStructural {definition : Option ElementId} {ids : List ElementId}
    (contains : Contains n definition ids .anyOf) : n.IsStructural := by
  cases contains with
  | «structure» kind => exact .inl ⟨_, kind⟩
  | structRef kind => exact .inr ⟨_, kind⟩

/-- The place inside a structure that is opened from a state. -/
def OpenedAt (d : Decoder σ) (p : Place) (n : Node d.schema) (definition : Option ElementId)
    (st : DecodeState σ) (q : Place) : Prop :=
  ∃ start declared opened, Returns (d.opening p n) st (start, declared) opened ∧
    q = inside p n definition start declared

theorem opening_coincides (kin : d.Counterpart d') (twins : n.Twins n') :
    Coinciding spared (d.opening p n) (d'.opening p n') := by
  refine .bind (.record _ _) fun _ => .bind (.tell n n') fun _ => .bind .align fun _ =>
    .bind (.tell n n') fun offset => .bind (.of_simulates (structureLength_sims kin twins))
    fun declared => .bind .align fun _ => .bind (.tell n n') fun start => .pure _

/-- A structure that is opened has just asked where it is. -/
theorem opening_told {st opened : DecodeState σ} {start : Nat} {declared : Option Nat}
    (h : Returns (d.opening p n) st (start, declared) opened) :
    ByteSource.Told opened.source := by
  simp only [opening, returns_bind, returns_pure, Prod.mk.injEq] at h
  obtain ⟨_, _, -, _, _, -, _, _, -, _, _, -, _, _, -, _, before, -, _, _, tells, -, rfl⟩ := h
  obtain ⟨source, told, rfl⟩ := returns_onSource.mp tells
  exact ⟨before.source, _, told⟩

/-- A structure whose only child may come any number of times, in its turn and as one of the
children that may come next. -/
theorem structure_coincides (kin : d.Counterpart d')
    (first : SparesFirst spared d.options.maxRepeat) (depth : Nat) {definition : Option ElementId}
    {st st' : DecodeState σ} (same : n.id = n'.id) (sameChild : c.id = c'.id)
    (contains : Contains n definition [c.id] .declared)
    (contains' : Contains n' definition [c'.id] .anyOf)
    (bounds : ∀ q, d.OpenedAt p n definition st q → d.Bounds q c 0 none)
    (children : ∀ q, d.OpenedAt p n definition st q → ∀ vs,
      Coinciding spared (d.decodeOne depth (q.completeAll vs) c)
        (d'.decodeOne depth (q.completeAll vs) c'))
    (steady : ¬ Disabled c false → ByteSource.Steady σ)
    (related : (Simulation.abreast σ).Related st st') :
    Coincide spared ((d.decodeOne (depth + 1) p n).ending st)
      ((d'.decodeOne (depth + 1) p n').ending st') := by
  have twins := kin.schema.twins same
  have structural' : n'.IsStructural := contains'.isStructural
  have structural : n.IsStructural := by
    obtain ⟨body, -, kind, -⟩ | ⟨-, kind⟩ := twins.kind_cases
    · exact .inl ⟨body, kind⟩
    · rw [Node.IsStructural, kind]
      exact structural'
  rw [decodeOne_eq_opening depth contains structural,
    decodeOne_eq_opening depth contains' structural']
  refine (opening_coincides kin twins st st' related).bind ?_
  rintro ⟨start, declared⟩ mid mid' opens between
  have opened : d.OpenedAt p n definition st (inside p n definition start declared) :=
    ⟨start, declared, mid, opens, rfl⟩
  exact fillFrom_coincides kin twins (kin.schema.twins sameChild) first steady (bounds _ opened)
    (children _ opened) between (opening_told opens)

/-- A structure whose only child may come any number of times is decoded alike whether the child has
its turn or is one of the children that may come next, as long as the child itself is decoded alike
and neither run meets the cap. -/
theorem either_order_coincides (kin : d.Counterpart d') (depth : Nat) (p : Place)
    (n c : Node d.schema) (n' c' : Node d'.schema) (definition : Option ElementId)
    (st st' : DecodeState σ) (same : n.id = n'.id) (sameChild : c.id = c'.id)
    (contains : Contains n definition [c.id] .declared)
    (contains' : Contains n' definition [c'.id] .anyOf)
    (bounds : ∀ q, d.OpenedAt p n definition st q → d.Bounds q c 0 none)
    (children : ∀ q, d.OpenedAt p n definition st q → ∀ vs,
      Coinciding .both (d.decodeOne depth (q.completeAll vs) c)
        (d'.decodeOne depth (q.completeAll vs) c'))
    (steady : ¬ Disabled c false → ByteSource.Steady σ)
    (related : (Simulation.abreast σ).Related st st') :
    Coincide .both ((d.decodeOne (depth + 1) p n).ending st)
      ((d'.decodeOne (depth + 1) p n').ending st') :=
  structure_coincides kin ⟨fun _ => trivial, fun _ => trivial⟩ depth same sameChild contains
    contains' bounds children steady related

/-! ## Orders that are exchanged throughout -/

/-- The children of `n` have their turn and those of `n'` may come next, and there is only one,
which may come any number of times. -/
structure Exchanged (d d' : Decoder σ) (n : Node d.schema) (n' : Node d'.schema)
    (definition : Option ElementId) (c : Node d.schema) (c' : Node d'.schema) : Prop where
  same : c.id = c'.id
  contains : Contains n definition [c.id] .declared
  contains' : Contains n' definition [c'.id] .anyOf
  bounds : ∀ {p st q}, d.OpenedAt p n definition st q → d.Bounds q c 0 none
  steady : ¬ Disabled c false → ByteSource.Steady σ
  room : 0 < d.options.maxRepeat

omit [ByteSource σ] in
/-- A structure leads to its children. -/
theorem Contains.leads {definition : Option ElementId} {ids : List ElementId} {id : ElementId}
    (contains : Contains n definition ids .anyOf) (member : id ∈ ids) : n.Leads id := by
  cases contains with
  | «structure» kind => exact .child (.own kind) member
  | structRef kind named found defines => exact .child (.named kind named found defines) member

/-- Orders may be exchanged throughout. If each element that an element leads to has the same order
on both sides, or a single child that may come any number of times, then the element is decoded
alike as long as the run in which children may come next does not meet the cap. -/
theorem orders_exchange [SliceLike σ] (kin : d.Counterpart d')
    (hosts : Option.Rel (SameHost (Simulation.uncapped σ) d' d) d'.scripts d.scripts)
    (contents : ∀ (m : Node d.schema) (m' : Node d'.schema), m.id = m'.id →
      m.kind.children = m'.kind.children)
    (orders : ∀ (m : Node d.schema) (m' : Node d'.schema), d'.schema.Reaches c'.id m'.id →
      m.id = m'.id → (∀ {s}, m'.DefinedBy s → m.order = m'.order) ∨
        ∃ definition b b', Exchanged d d' m m' definition b b')
    (may : spared.right) (same : c.id = c'.id) (depth : Nat) (q : Place) :
    Coinciding spared (d.decodeOne depth q c) (d'.decodeOne depth q c') := by
  have keeps : (Simulation.uncapped σ).Respects := Simulation.respects_of_eq rfl rfl
  have whole : (Simulation.uncapped σ).Whole := ⟨rfl, rfl⟩
  have simulates := decodeOne_sims_of_step kin.symm keeps (d'.schema.Reaches c'.id)
    (fun reached leads => reached.tail ⟨_, rfl, leads⟩) ?_ depth .refl
  · have flipped : Coinciding spared.swap (d'.decodeOne depth q c') (d.decodeOne depth q c) :=
      .of_uncapped (simulates q c' c rfl (kin.symm.schema.twins same.symm) (whole.covers _)) may
    exact flipped.symm
  intro depth n' n reached twins children p covers
  obtain ordered | ⟨definition, b, b', exchanged⟩ := orders n n' reached twins.id.symm
  · refine tried_sims kin.symm twins keeps ?_ covers
    exact
      { children := children
        order := fun defined => (ordered defined).symm
        content := by
          intro m' m order defined alike _
          rw [contents m m' alike.id.symm]
          exact .refl (fun id member => children id (.child defined member)) order
        offset := fun _ => whole.roams
        scripted := fun _ p id covers =>
          decodeScripted_sims kin.symm twins keeps whole.roams covers.limit hosts id }
  · -- The run in any order meets the cap first, so only that one has to be spared.
    have first : SparesFirst ⟨False, True⟩ d.options.maxRepeat :=
      ⟨fun _ => trivial, fun none => Nat.ne_of_gt exchanged.room none⟩
    have child (q : Place) : Coinciding ⟨False, True⟩ (d.decodeOne depth q b)
        (d'.decodeOne depth q b') := by
      have leads : n'.Leads b'.id := exchanged.contains'.leads List.mem_cons_self
      have flipped : Coinciding ⟨True, False⟩ (d'.decodeOne depth q b') (d.decodeOne depth q b) :=
        .of_uncapped (children b'.id leads q b' b rfl
          (kin.symm.schema.twins exchanged.same.symm) (whole.covers _)) trivial
      exact flipped.symm
    have coinciding : Coinciding ⟨False, True⟩ (d.decodeOne (depth + 1) p n)
        (d'.decodeOne (depth + 1) p n') := fun st st' related =>
      structure_coincides kin first depth twins.id.symm exchanged.same exchanged.contains
        exchanged.contains' (fun _ => exchanged.bounds) (fun q _ vs => child (q.completeAll vs))
        exchanged.steady related
    exact coinciding.symm.uncapped id (ByteSource.not_misplaces σ)

/-- For bytes in memory nothing has to be assumed of the child's own runs, however it leads back to
the structure: the structure is decoded alike in either order if each element that the child leads
to has the same order on both sides, or such a single child of its own. -/
theorem exchanged_coincides [SliceLike σ] (kin : d.Counterpart d')
    (hosts : Option.Rel (SameHost (Simulation.uncapped σ) d' d) d'.scripts d.scripts)
    (contents : ∀ (m : Node d.schema) (m' : Node d'.schema), m.id = m'.id →
      m.kind.children = m'.kind.children)
    (orders : ∀ (m : Node d.schema) (m' : Node d'.schema), d'.schema.Reaches c'.id m'.id →
      m.id = m'.id → (∀ {s}, m'.DefinedBy s → m.order = m'.order) ∨
        ∃ definition b b', Exchanged d d' m m' definition b b')
    {definition : Option ElementId} (same : n.id = n'.id)
    (exchanged : Exchanged d d' n n' definition c c') (depth : Nat) (p : Place) :
    Coinciding .both (d.decodeOne (depth + 1) p n) (d'.decodeOne (depth + 1) p n') := by
  intro st st' related
  refine structure_coincides kin ⟨fun _ => trivial, fun _ => trivial⟩ depth same exchanged.same
    exchanged.contains exchanged.contains' (fun _ => exchanged.bounds) ?_ exchanged.steady related
  intro q _ vs
  exact orders_exchange kin hosts contents orders trivial exchanged.same depth (q.completeAll vs)

/-! ## Orders that are taken over -/

/-- A structure with any number of structures that take over its order. These have children of three
kinds to choose from: the number one, the number two, and any number of bytes. -/
def inheriting (order : ChildOrder) (children : List ElementId) : Decoder Slice where
  schema :=
    { elements := #[
        ⟨{}, .structure { order := some order, children := [⟨1⟩] }⟩,
        ⟨{ template := some ⟨0⟩
           repeatMin := some (.literal 0)
           repeatMax := some (.literal (-1)) }, .structure { children := children }⟩,
        ⟨{}, .number { extent := { length := some (.literal 1) }, values := some [⟨"one", 1⟩] }⟩,
        ⟨{}, .number { extent := { length := some (.literal 1) }, values := some [⟨"two", 2⟩] }⟩,
        ⟨{ repeatMin := some (.literal 0), repeatMax := some (.literal (-1)) },
          .number { extent := { length := some (.literal 1) } }⟩]
      root := ⟨0⟩ }
  options := { maxDepth := 3, maxRepeat := 4 }

variable {order order' : ChildOrder} {children : List ElementId}

def inheritingRoot (order : ChildOrder) (children : List ElementId) :
    Node (inheriting order children).schema := ⟨⟨0⟩, _, rfl⟩

def inheritingChild (order : ChildOrder) (children : List ElementId) :
    Node (inheriting order children).schema := ⟨⟨1⟩, _, rfl⟩

def inheritingByte (order : ChildOrder) (children : List ElementId) :
    Node (inheriting order children).schema := ⟨⟨4⟩, _, rfl⟩

/-- What does not look at the order of the structure is the same for both. -/
theorem inheriting_get? {α : Type} (order order' : ChildOrder) (children : List ElementId)
    (f : Element → α)
    (blind : f ⟨{}, .structure { order := some order, children := [⟨1⟩] }⟩ =
      f ⟨{}, .structure { order := some order', children := [⟨1⟩] }⟩) (id : ElementId) :
    ((inheriting order children).schema.get? id).map f =
      ((inheriting order' children).schema.get? id).map f := by
  unfold Schema.get?
  simp only [← Array.getElem?_map, inheriting, List.map_toArray, List.map_cons, blind]

theorem inheriting_counterpart (order order' : ChildOrder) (children : List ElementId) :
    (inheriting order children).Counterpart (inheriting order' children) := by
  have schema : (inheriting order children).schema.Counterpart
      (inheriting order' children).schema := inheriting_get? order order' children Element.bare rfl
  exact ⟨schema, schema.evaluateStandard_eq, rfl, rfl, rfl, rfl⟩

theorem inheriting_children (m : Node (inheriting order children).schema)
    (m' : Node (inheriting order' children).schema) (same : m.id = m'.id) :
    m.kind.children = m'.kind.children := by
  have alike : ((inheriting order children).schema.get? m.id).map (·.kind.children) =
      ((inheriting order' children).schema.get? m.id).map (·.kind.children) :=
    inheriting_get? order order' children (·.kind.children) rfl m.id
  rw [m.found, same, m'.found] at alike
  exact Option.some.inj alike

/-- The structures with bytes lead to these, and the bytes lead nowhere. -/
theorem inheriting_reaches {id : ElementId}
    (reached : (inheriting order [⟨4⟩]).schema.Reaches ⟨1⟩ id) : id = ⟨1⟩ ∨ id = ⟨4⟩ := by
  induction reached with
  | refl => exact .inl rfl
  | tail _ leads inductionHypothesis =>
    obtain ⟨n, same, leads⟩ := leads
    obtain rfl | rfl := inductionHypothesis
    · obtain rfl : n = inheritingChild order [⟨4⟩] := Node.eq_of_id same
      cases leads with
      | start kind | listed kind | grammar kind | referenced kind => cases kind
      | child defined member =>
        cases defined with
        | own => exact .inr (List.mem_singleton.mp member)
        | named kind => cases kind
    · obtain rfl : n = inheritingByte order [⟨4⟩] := Node.eq_of_id same
      cases leads with
      | start kind | listed kind | grammar kind | referenced kind => cases kind
      | child defined =>
        cases defined with
        | own kind | named kind => cases kind

theorem inheriting_bounds (p : Place) :
    (inheriting order children).Bounds p (inheritingChild order children) 0 none ∧
      (inheriting order children).Bounds p (inheritingByte order children) 0 none :=
  ⟨⟨.literal 0, .literal (-1), 0, -1, by cbv, by cbv, rfl, rfl, by decide, by decide⟩,
    ⟨.literal 0, .literal (-1), 0, -1, by cbv, by cbv, rfl, rfl, by decide, by decide⟩⟩

/-- The structures with bytes take over the order, and decode alike. -/
theorem inheritingChild_coincides (depth : Nat) (q : Place) :
    Coinciding .both
      ((inheriting .declared [⟨4⟩]).decodeOne depth q (inheritingChild .declared [⟨4⟩]))
      ((inheriting .anyOf [⟨4⟩]).decodeOne depth q (inheritingChild .anyOf [⟨4⟩])) := by
  refine orders_exchange (inheriting_counterpart .declared .anyOf [⟨4⟩]) .none
    inheriting_children ?_ trivial rfl depth q
  intro m m' reached same
  obtain child | byte := inheriting_reaches reached
  · obtain rfl : m' = inheritingChild .anyOf [⟨4⟩] := Node.eq_of_id child
    obtain rfl : m = inheritingChild .declared [⟨4⟩] := Node.eq_of_id same
    exact .inr ⟨none, inheritingByte .declared [⟨4⟩], inheritingByte .anyOf [⟨4⟩], rfl,
      .structure rfl (by cbv), .structure rfl (by cbv), fun _ => (inheriting_bounds _).2,
      fun off => absurd rfl off, by decide⟩
  · obtain rfl : m' = inheritingByte .anyOf [⟨4⟩] := Node.eq_of_id byte
    obtain rfl : m = inheritingByte .declared [⟨4⟩] := Node.eq_of_id same
    exact .inl fun _ => by cbv

/-- The only structure, with the only byte. -/
def inheritedByte : Value :=
  ⟨⟨1⟩, 0, 1, none, .none, [⟨⟨4⟩, 0, 1, some .little, .number (.unsigned 7) none [] none, []⟩]⟩

set_option maxRecDepth 8000 in
theorem either_order_coincides_inheriting :
    Coincide .both
        (((inheriting .declared [⟨4⟩]).decodeOne 3 (startPlace ⟨0⟩ 0 1)
          (inheritingRoot .declared [⟨4⟩])).ending { source := ⟨#[7], 0⟩ })
        (((inheriting .anyOf [⟨4⟩]).decodeOne 3 (startPlace ⟨0⟩ 0 1)
          (inheritingRoot .anyOf [⟨4⟩])).ending { source := ⟨#[7], 0⟩ }) ∧
      ∃ st', Returns ((inheriting .anyOf [⟨4⟩]).decodeOne 3 (startPlace ⟨0⟩ 0 1)
        (inheritingRoot .anyOf [⟨4⟩])) { source := ⟨#[7], 0⟩ }
        ⟨⟨0⟩, 0, 1, none, .none, [inheritedByte]⟩ st' := by
  constructor
  · exact either_order_coincides (inheriting_counterpart .declared .anyOf [⟨4⟩]) 2
      (startPlace ⟨0⟩ 0 1)
      (inheritingRoot .declared [⟨4⟩]) (inheritingChild .declared [⟨4⟩])
      (inheritingRoot .anyOf [⟨4⟩]) (inheritingChild .anyOf [⟨4⟩]) none _ _ rfl rfl
      (.structure rfl (by cbv)) (.structure rfl (by cbv)) (fun q _ => (inheriting_bounds q).1)
      (fun q _ vs => inheritingChild_coincides 2 _) (fun off => absurd rfl off)
      ⟨rfl, rfl, rfl, nofun⟩
  · exact ⟨_, Prod.ext (by cbv) rfl⟩

/-- The two, and the one behind it. -/
def inheritedPair : Value :=
  ⟨⟨1⟩, 0, 2, none, .none,
    [⟨⟨3⟩, 0, 1, some .little, .number (.unsigned 2) (some "two") [] none, []⟩,
      ⟨⟨2⟩, 1, 1, some .little, .number (.unsigned 1) (some "one") [] none, []⟩]⟩

/-- The bytes are read from a device. -/
def bytewiseReader (order : ChildOrder) : Decoder Cursor where
  schema := (bytewise order 4).schema
  options := (bytewise order 4).options

def bytewiseReaderRoot (order : ChildOrder) : Node (bytewiseReader order).schema :=
  ⟨⟨0⟩, _, rfl⟩

set_option maxRecDepth 8000 in
/-- An order that is taken over by the child may change what the child is, and where a device fails
to say where it is, the order decides which element has asked. -/
theorem orders_differ :
    ((inheritingChild .declared [⟨2⟩, ⟨3⟩]).repeatMin = .ok (.literal 0) ∧
      (inheritingChild .declared [⟨2⟩, ⟨3⟩]).repeatMax = .ok (.literal (-1)) ∧
      ((inheriting .declared [⟨2⟩, ⟨3⟩]).decodeElement ⟨0⟩ ⟨#[2, 1], 0⟩).result =
        .ok (⟨⟨0⟩, 0, 0, none, .none, []⟩, []) ∧
      ((inheriting .anyOf [⟨2⟩, ⟨3⟩]).decodeElement ⟨0⟩ ⟨#[2, 1], 0⟩).result =
        .ok (⟨⟨0⟩, 0, 2, none, .none, [inheritedPair]⟩, [])) ∧
    (((bytewiseReader .declared).decodeOne 2 (startPlace ⟨0⟩ 0 2)
        (bytewiseReaderRoot .declared)).ending
        { source := { data := #[7, 7], faults := { failSeek := some 1 } } }).1 =
        .error ⟨⟨1⟩, "number#1", 0, .device (.other "seek failure")⟩ ∧
      (((bytewiseReader .anyOf).decodeOne 2 (startPlace ⟨0⟩ 0 2)
        (bytewiseReaderRoot .anyOf)).ending
        { source := { data := #[7, 7], faults := { failSeek := some 1 } } }).1 =
        .error ⟨⟨0⟩, "structure#0", 0, .device (.other "seek failure")⟩ := by
  refine ⟨⟨by cbv, by cbv, by cbv, by cbv⟩, by cbv, by cbv⟩

end BinaryTemplate.Decoder
