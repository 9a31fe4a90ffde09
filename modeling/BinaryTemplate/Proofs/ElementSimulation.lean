import BinaryTemplate.Proofs.ContainerSimulation

/-!
# Two runs through elements

An element leads to the elements of which its decode may decode instances: the children of a
container, the grammar of a reference, and the element that an offset references. Counterparts
decode an element alike if they decode alike what it leads to. Offsets lead anywhere in the data, so
they are only covered where the runs may go; and what scripts do is left to those who know them.
-/

namespace BinaryTemplate

namespace Node

variable {s : Schema}

/-- The structure that an element decodes as: itself, or the one that it names. -/
inductive DefinedBy (n : Node s) : Node s → Prop
  | own {body : StructureBody} (kind : n.kind = .structure body) : DefinedBy n n
  | named {body : StructRefBody} {inner : StructureBody} {target : ElementId} {m : Node s}
      (kind : n.kind = .structRef body) (named : n.lookup .structure? = .ok (some target))
      (found : s.node? target = some m) (defines : m.kind = .structure inner) : DefinedBy n m

/-- The elements of which a decode of `n` may decode instances itself. -/
inductive Leads (n : Node s) : ElementId → Prop
  | start {body : GrammarBody} {start : ElementId} (kind : n.kind = .grammar body)
      (first : body.start = some start) : Leads n start
  | listed {body : GrammarBody} {id : ElementId} (kind : n.kind = .grammar body)
      (all : body.start = none) (member : id ∈ body.children) : Leads n id
  | child {m : Node s} {id : ElementId} (defined : n.DefinedBy m)
      (member : id ∈ m.kind.children) : Leads n id
  | grammar {body : GrammarRefBody} {target : ElementId} (kind : n.kind = .grammarRef body)
      (named : n.lookup .grammar = .ok (some target)) : Leads n target
  | referenced {body : OffsetBody} {element : ElementId} (kind : n.kind = .offset body)
      (named : n.lookup .references = .ok (some element)) : Leads n element

/-- Elements that a script decodes. -/
def IsScripted (n : Node s) : Prop :=
  (∃ body, n.kind = .custom body) ∨ ∃ body, n.kind = .script body

end Node

/-- A decode of the first element may decode instances of the second one. -/
def Schema.Reaches (s : Schema) : ElementId → ElementId → Prop :=
  Relation.ReflTransGen fun id next => ∃ n : Node s, n.id = id ∧ n.Leads next

namespace Decoder

open DecodeM Simulation

variable {σ τ : Type} [ByteSource σ] [SliceLike σ] [ByteSource τ] {d : Decoder σ} {d' : Decoder τ}
  {R : Simulation σ τ} {p : Place} {n : Node d.schema} {n' : Node d'.schema} {offset : Nat}
  {child : d.DecodeChild} {child' : d'.DecodeChild}

/-- All that a decode of an element relies on is alike on both sides. -/
structure Handles (R : Simulation σ τ) (child : d.DecodeChild) (child' : d'.DecodeChild)
    (n : Node d.schema) (n' : Node d'.schema) : Prop where
  children : ∀ id, n.Leads id → SimulatesChild R child child' id
  order : ∀ {m : Node d.schema}, n.DefinedBy m → n.order = n'.order
  content : ∀ {m : Node d.schema} {m' : Node d'.schema} {order : ChildOrder}, n.DefinedBy m →
    m.Twins m' → n.order = .ok order →
    SameContent R child child' m.id order m.kind.children m'.kind.children
  offset : ∀ {body : OffsetBody}, n.kind = .offset body → R.Roams
  scripted : n.IsScripted → ∀ p id, R.Covers (R.reach p) →
    R.Simulates Eq (d.decodeScripted p n id) (d'.decodeScripted p n' id)

/-- Over one and the same schema, the children are the same as well. -/
theorem Handles.of_schema_eq (same : d.schema = d'.schema) (twins : n.Twins n')
    (children : ∀ id, n.Leads id → SimulatesChild R child child' id)
    (offset : ∀ {body : OffsetBody}, n.kind = .offset body → R.Roams)
    (scripted : n.IsScripted → ∀ p id, R.Covers (R.reach p) →
      R.Simulates Eq (d.decodeScripted p n id) (d'.decodeScripted p n' id)) :
    Handles R child child' n n' where
  children := children
  order := fun _ => twins.order_eq same
  content := by
    intro m m' order defined alike _
    rw [← alike.kind_eq same]
    exact .refl (fun id member => children id (.child defined member)) order
  offset := offset
  scripted := scripted

variable (kin : d.Counterpart d') (twins : n.Twins n')

/-! ## Offsets -/

section Offsets

include kin twins

omit [ByteSource σ] [SliceLike σ] [ByteSource τ] kin in
theorem baseAddress_sims (base : ElementId) :
    R.Simulates Eq (d.baseAddress p n offset base) (d'.baseAddress p n' offset base) := by
  unfold baseAddress
  rw [twins.id]
  refine .ite (fun _ => .pure rfl) fun _ => ?_
  -- The context is asked for places only, which do not depend on the schema.
  have started : (p.context d.schema).containerStart? base =
      (p.context d'.schema).containerStart? base := rfl
  have found : (p.context d.schema).find? base = (p.context d'.schema).find? base := rfl
  dsimp only
  rw [started, found]
  cases ((p.context d'.schema).containerStart? base).or
    (((p.context d'.schema).find? base).map (·.offset)) with
  | some address => exact .pure rfl
  | none => exact .fail twins.toNamesakes rfl

omit [ByteSource σ] [SliceLike σ] [ByteSource τ] in
theorem targetAddress_sims (pointer : Nat) :
    R.Simulates Eq (d.targetAddress p n offset pointer)
      (d'.targetAddress p n' offset pointer) := by
  refine .ite (fun _ => .bind (.resolved twins.toNamesakes (twins.lookupD rfl)) fun _ =>
    .ite (fun _ => .pure rfl) fun _ => ?_) fun _ => ?_
  -- The address is worked out alike for null pointers that are followed and for all others.
  all_goals
    refine .bind (.resolved twins.toNamesakes (twins.lookup rfl)) fun base => ?_
    cases base with
    | none =>
      exact .bind (.pure rfl) fun _ =>
        .bind (evalAttribute_sims kin twins (twins.lookup rfl)) fun _ =>
        .ite (fun _ => .pure rfl) fun _ => .fail twins.toNamesakes rfl
    | some base =>
      exact .bind (baseAddress_sims twins base) fun _ =>
        .bind (evalAttribute_sims kin twins (twins.lookup rfl)) fun _ =>
        .ite (fun _ => .pure rfl) fun _ => .fail twins.toNamesakes rfl

omit [ByteSource σ] [SliceLike σ] [ByteSource τ] kin in
theorem referencedSize_sims :
    R.Simulates Eq (d.referencedSize? p n offset) (d'.referencedSize? p n' offset) := by
  refine .bind (.resolved twins.toNamesakes (twins.lookup rfl)) fun size => ?_
  cases size with
  | none => exact .pure rfl
  | some id =>
    have same : (p.context d.schema).find? id = (p.context d'.schema).find? id := rfl
    dsimp only
    rw [same]
    cases (p.context d'.schema).find? id with
    | none => exact .fail twins.toNamesakes rfl
    | some v =>
      dsimp only
      cases v.toInt? with
      | none => exact .fail twins.toNamesakes rfl
      | some k => exact .ite (fun _ => .pure rfl) fun _ => .fail twins.toNamesakes rfl

omit [ByteSource σ] [SliceLike σ] [ByteSource τ] kin in
theorem regionStop_sims (target : Nat) (size : Option Nat) :
    R.Simulates Eq (d.regionStop p n offset target size)
      (d'.regionStop p n' offset target size) :=
  .ite (fun _ => .pure rfl) fun _ => .fail twins.toNamesakes rfl

variable (keeps : R.Respects) (roams : R.Roams) (covers : R.Covers (R.reach p))

include keeps roams covers

theorem follow_sims {element : ElementId} (simulates : SimulatesChild R child child' element)
    (target : Nat) :
    R.Simulates Eq (d.follow child p n offset target element)
      (d'.follow child' p n' offset target element) := by
  unfold follow
  rw [twins.label]
  refine .guard twins.toNamesakes rfl fun _ => ?_
  intro st st' related
  refine (node_sims kin element st st' related).bind ?_
  intro m m' mid mid' found referenced between
  obtain ⟨known, rfl⟩ := node_returns.mp found
  rw [referenced.label]
  refine Simulates.bind (referencedSize_sims twins) (fun size => ?_) mid mid' between
  intro sized sized' between
  refine (regionStop_sims twins target size sized sized' between).bind ?_
  rintro stop _ opened opened' stops rfl between
  obtain ⟨region, -⟩ := regionStop_returns.mp stops
  have behind := region.behind
  have within := region.within
  refine (tellAt_sims twins.toNamesakes keeps opened opened' between).bind ?_
  rintro resume _ told told' tells rfl between
  -- The runs go to the target, which lies in the data, and back to where they are.
  have back : R.Simulates Eq (seek n offset resume) (seek n' offset resume) := by
    refine seek_sims twins.toNamesakes keeps ?_
    rw [(tellAt_returns tells).1, ← (tellAt_returns tells).2]
    exact moves_cursor keeps between
  have data : R.Covers p.dataStop := roams.sides p covers
  have there : R.Simulates Eq (seek n offset target) (seek n' offset target) :=
    seek_sims twins.toNamesakes keeps (roams.moves target (data.mono (Nat.le_trans behind within)))
  have decodes := simulates (sidePlace p element target stop) m m'
    (Schema.id_of_node? known) referenced
    (covers_reach.mpr ⟨data.mono within, fun _ => data⟩)
  refine Simulates.bind (.record _) (fun _ => ?_) told told' between
  refine .bind there fun _ => .get_bind fun st st' pending _ => ?_
  rw [pending]
  refine .bind (.setPending []) fun _ => .outcome_bind decodes ?_ ?_ ?_
  · rintro v _ rfl
    exact .bind (.setPending _) fun _ => .bind back fun _ => .liftExcept _ nofun
  · refine fun e sound => .bind (.setPending _) fun _ => .bind back fun _ =>
      .liftExcept _ ?_
    rintro _ ⟨⟩
    exact sound
  · -- Putting back what was read before never fails, so an excuse is passed on.
    intro e failed excuse
    obtain ⟨back, sought⟩ := seek_succeeds n offset resume
      { failed with pending := st'.pending }
    refine ⟨e, back, ?_, excuse⟩
    simp only [throws_bind, throws_setPending, false_or, returns_setPending, throws_liftExcept]
    exact ⟨(), _, rfl, .inr ⟨(), back, sought, trivial, rfl⟩⟩

theorem followTarget_sims
    (simulates : ∀ element, n.lookup .references = .ok (some element) →
      SimulatesChild R child child' element) (target : Option Nat) :
    R.Simulates Eq (d.followTarget child p n offset target)
      (d'.followTarget child' p n' offset target) := by
  intro st st' related
  have same : n.lookup .references = n'.lookup .references := twins.lookup rfl
  refine EndRelated.bind (Simulates.resolved twins.toNamesakes same _ _ related) ?_
  rintro references _ mid mid' reads rfl between
  obtain ⟨named, rfl⟩ := returns_resolved.mp reads
  cases target with
  | none => exact .returned rfl between
  | some target =>
    cases references with
    | none => exact .returned rfl between
    | some element =>
      refine Simulates.bind ?_ (fun _ => .pure rfl) _ _ between
      exact follow_sims kin twins keeps roams covers (simulates element named) target

theorem decodeOffset_sims
    (simulates : ∀ element, n.lookup .references = .ok (some element) →
      SimulatesChild R child child' element) :
    R.Simulates Eq (d.decodeOffset child p n) (d'.decodeOffset child' p n') := by
  unfold decodeOffset
  rw [twins.id]
  exact .bind (tell_sims twins.toNamesakes keeps) fun _ =>
    .bind (.resolved twins.toNamesakes (twins.lookupD rfl)) fun order =>
    .bind (readRaw_sims kin twins keeps covers.limit order) fun r =>
    .bind (targetAddress_sims kin twins r.raw) fun target =>
    .bind (followTarget_sims kin twins keeps roams covers simulates target) fun _ => .pure rfl

end Offsets

/-! ## Scripts -/

/-- Two hosts answer the scripts of a schema alike, and leave the sources related. -/
def SameHost (R : Simulation σ τ) (d : Decoder σ) (d' : Decoder τ) (host : ScriptHost σ)
    (host' : ScriptHost τ) : Prop :=
  ∀ script, d.schema.HasScript script → ∀ element start length? limit frames l r, R.source l r →
    let left := host.run script ⟨element, start, length?, limit, ⟨d.schema, frames⟩⟩ l
    let right := host'.run script ⟨element, start, length?, limit, ⟨d'.schema, frames⟩⟩ r
    left.1 = right.1 ∧ R.source left.2 right.2

omit [ByteSource σ] [SliceLike σ] in
/-- One and the same source leaves a host no choice. -/
theorem sameHosts_of_eq {R : Simulation σ σ} (same : R.source = Eq) :
    Option.Rel (SameHost R d d) d.scripts d.scripts := by
  cases d.scripts with
  | none => exact .none
  | some host =>
    refine .some fun script _ element start length? limit frames l r related => ?_
    rw [same] at related ⊢
    obtain rfl : l = r := related
    exact ⟨rfl, rfl⟩

section Scripts

include twins

omit [ByteSource σ] [SliceLike σ] [ByteSource τ] in
theorem runScript_sims {host : ScriptHost σ} {host' : ScriptHost τ}
    (same : SameHost R d d' host host') {script : ScriptBody} (defined : d.schema.HasScript script)
    (start : Nat) (length? : Option Nat) :
    R.Simulates Eq
      (d.runScript n host script ⟨n.id, start, length?, p.limit, p.context d.schema⟩)
      (d'.runScript n' host' script ⟨n'.id, start, length?, p.limit, p.context d'.schema⟩) := by
  intro st st' related
  rw [← twins.id]
  obtain ⟨answers, sources⟩ := same script defined n.id start length? p.limit
    (p.inner :: p.outer) _ _ related.source
  unfold ending runScript Place.context
  generalize (host.run script ⟨n.id, start, length?, p.limit, ⟨d.schema, p.inner :: p.outer⟩⟩
    st.source : Except String ScriptOutput × σ) = left at answers sources ⊢
  generalize (host'.run script ⟨n.id, start, length?, p.limit, ⟨d'.schema, p.inner :: p.outer⟩⟩
    st'.source : Except String ScriptOutput × τ) = right at answers sources ⊢
  obtain ⟨answer, source⟩ := left
  obtain ⟨_, source'⟩ := right
  cases answers
  cases answer with
  | ok output => exact .returned rfl { related with source := sources }
  | error text =>
    dsimp only [fail]
    rw [twins.id, twins.label]
    exact .threw { related with source := sources } (R.usual _ rfl)

include kin

/-- What a script answers for lies within the frame. -/
theorem decodeByScript_sims (keeps : R.Respects)
    (moves : ∀ position, R.Covers position → R.moves position) (covers : R.Covers p.limit)
    (hosts : Option.Rel (SameHost R d d') d.scripts d'.scripts) {script : ScriptBody}
    (defined : d.schema.HasScript script) :
    R.Simulates Eq (d.decodeByScript p n offset script)
      (d'.decodeByScript p n' offset script) := by
  unfold decodeByScript
  generalize d.scripts = scripts at hosts
  generalize d'.scripts = scripts' at hosts
  cases hosts with
  | none => exact .fail twins.toNamesakes rfl
  | some same =>
    refine .bind (declaredBytes_sims kin twins) fun declared =>
      .bind (runScript_sims twins same defined _ _) fun output =>
      .guard twins.toNamesakes rfl fun within => ?_
    have there := moves _ (covers.mono (Nat.le_of_not_lt within))
    rw [twins.id]
    exact .bind (seek_sims twins.toNamesakes keeps there) fun _ => .pure rfl

theorem decodeScripted_sims_of (keeps : R.Respects)
    (byScript : ∀ offset script, d.schema.HasScript script →
      R.Simulates Eq (d.decodeByScript p n offset script) (d'.decodeByScript p n' offset script))
    (id : ElementId) : R.Simulates Eq (d.decodeScripted p n id) (d'.decodeScripted p n' id) := by
  refine .bind .align fun _ => .bind (tell_sims twins.toNamesakes keeps) fun offset =>
    .bind_of (node_sims kin id) fun m m' alike => ?_
  obtain ⟨own, own', isStructure, isStructure'⟩ | ⟨-, same⟩ := alike.kind_cases
  · rw [isStructure, isStructure']
    exact .fail twins.toNamesakes rfl
  · rw [← same]
    cases kind : m.kind with
    | script body => exact byScript offset body (Node.hasScript kind)
    | _ => exact .fail twins.toNamesakes rfl

theorem decodeScripted_sims (keeps : R.Respects) (roams : R.Roams) (covers : R.Covers p.limit)
    (hosts : Option.Rel (SameHost R d d') d.scripts d'.scripts) (id : ElementId) :
    R.Simulates Eq (d.decodeScripted p n id) (d'.decodeScripted p n' id) :=
  decodeScripted_sims_of kin twins keeps
    (fun _ _ defined => decodeByScript_sims kin twins keeps roams.moves covers hosts defined) id

/-- Without scripts, an element that should be decoded by one fails alike on both sides. -/
theorem decodeScripted_sims_of_scriptless (keeps : R.Respects)
    (none : ∀ script, ¬ d.schema.HasScript script) (id : ElementId) :
    R.Simulates Eq (d.decodeScripted p n id) (d'.decodeScripted p n' id) :=
  decodeScripted_sims_of kin twins keeps (fun _ script defined => absurd defined (none script)) id

end Scripts

/-! ## References -/

include kin twins

theorem decodeGrammarRef_sims {body : GrammarRefBody} (kind : n.kind = .grammarRef body)
    (handles : Handles R child child' n n') (covers : R.Covers (R.reach p)) :
    R.Simulates Eq (d.decodeGrammarRef child p n offset)
      (d'.decodeGrammarRef child' p n' offset) := by
  have filename : n.filename = n'.filename := twins.lookupD rfl
  unfold decodeGrammarRef
  rw [twins.id, filename]
  refine .bind (.resolved twins.toNamesakes (twins.lookupD rfl)) fun _ => .ite (fun _ => .pure rfl)
    fun _ => ?_
  intro st st' related
  have same : n.lookup .grammar = n'.lookup .grammar := twins.lookup rfl
  refine EndRelated.bind (Simulates.resolved twins.toNamesakes same _ _ related) ?_
  rintro target _ mid mid' reads rfl between
  obtain ⟨named, rfl⟩ := returns_resolved.mp reads
  cases target with
  | none =>
    exact Simulates.fail twins.toNamesakes rfl _ _ between
  | some target =>
    refine (node_sims kin target _ _ between).bind ?_
    intro m m' last last' found alike after
    obtain ⟨known, rfl⟩ := node_returns.mp found
    obtain ⟨own, own', isStructure, isStructure'⟩ | ⟨-, same⟩ := alike.kind_cases
    · rw [isStructure, isStructure']
      exact Simulates.fail twins.toNamesakes rfl _ _ after
    · rw [← same]
      cases m.kind with
      | grammar =>
        exact handles.children target (.grammar kind named) p m m' (Schema.id_of_node? known)
          alike covers _ _ after
      | _ =>
        exact Simulates.fail twins.toNamesakes rfl _ _ after

theorem decodeStructRef_ends {body : StructRefBody} (kind : n.kind = .structRef body)
    (keeps : R.Respects) (handles : Handles R child child' n n') {st : DecodeState σ}
    {st' : DecodeState τ} (related : R.Related st st')
    (covers : ∀ declared, d.Spans p n declared → ∀ stop,
      stop = (declared.map (st.reading.cursor + ·)).getD p.limit → stop ≤ p.limit →
        R.Covers stop)
    (sides : R.follows = true → R.Covers p.dataStop) :
    EndRelated R Eq ((d.decodeStructRef child p n offset).ending st)
      ((d'.decodeStructRef child' p n' offset).ending st') := by
  have same : n.lookup .structure? = n'.lookup .structure? := twins.lookup rfl
  refine EndRelated.bind (Simulates.resolved twins.toNamesakes same _ _ related) ?_
  rintro target _ mid mid' reads rfl between
  obtain ⟨named, rfl⟩ := returns_resolved.mp reads
  cases target with
  | none =>
    exact Simulates.fail twins.toNamesakes rfl _ _ between
  | some target =>
    refine (node_sims kin target _ _ between).bind ?_
    intro m m' last last' found alike after
    obtain ⟨known, rfl⟩ := node_returns.mp found
    obtain ⟨own, own', isStructure, isStructure'⟩ | ⟨other, same⟩ := alike.kind_cases
    · rw [isStructure, isStructure']
      have defined : n.DefinedBy m := .named kind named known isStructure
      exact decodeStructure_ends kin twins keeps alike (handles.order defined)
        (fun _ => handles.content defined alike) after covers sides
    · rw [← same]
      cases defines : m.kind with
      | «structure» body => exact absurd defines (other body)
      | _ =>
        exact Simulates.fail twins.toNamesakes rfl _ _ after

/-! ## Elements -/

/-- An element decodes alike on both sides if all that it relies on is alike. -/
theorem decodeKind_sims (keeps : R.Respects) (handles : Handles R child child' n n')
    (covers : R.Covers (R.reach p)) :
    R.Simulates Eq (d.decodeKind child p n offset) (d'.decodeKind child' p n' offset) := by
  unfold decodeKind
  obtain ⟨own, own', isStructure, isStructure'⟩ | ⟨other, same⟩ := twins.kind_cases
  · rw [isStructure, isStructure']
    have defined : n.DefinedBy n := .own isStructure
    exact decodeStructure_sims kin twins keeps twins (handles.order defined)
      (fun _ => handles.content defined twins) covers
  rw [← same]
  cases kind : n.kind with
  | grammar body =>
    refine fun _ _ related => decodeContainer_ends kin twins keeps (SameContent.refl ?_ _)
      related (fun _ _ within => covers.limit.mono within) covers.sides
    intro id member
    cases first : body.start with
    | none =>
      rw [first] at member
      exact handles.children id (.listed kind first member)
    | some start =>
      rw [first] at member
      obtain rfl := List.mem_singleton.mp member
      exact handles.children id (.start kind first)
  | grammarRef => exact decodeGrammarRef_sims kin twins kind handles covers
  | «structure» body => exact absurd kind (other body)
  | structRef =>
    exact fun _ _ related => decodeStructRef_ends kin twins kind keeps handles related
      (fun _ _ _ _ within => covers.limit.mono within) covers.sides
  | number => exact decodeNumber_sims kin twins keeps covers.limit
  | string => exact decodeString_sims kin twins keeps covers.limit
  | binary => exact decodeBinary_sims kin twins keeps covers.limit
  | custom =>
    refine .bind (.resolved twins.toNamesakes (twins.lookup rfl)) fun script => ?_
    cases script with
    | none => exact .fail twins.toNamesakes rfl
    | some script => exact handles.scripted (.inl ⟨_, kind⟩) p script covers
  | offset =>
    exact decodeOffset_sims kin twins keeps (handles.offset kind) covers
      fun element named => handles.children element (.referenced kind named)
  | script =>
    rw [← twins.id]
    exact handles.scripted (.inr ⟨_, kind⟩) p n.id covers

/-! ## The recursion -/

/-- A try at an instance is recorded before it is made. -/
theorem tried_sims (keeps : R.Respects) (handles : Handles R child child' n n')
    (covers : R.Covers (R.reach p)) :
    R.Simulates Eq
      (do
        record (.tried n.kind.name)
        let offset ← tell n
        d.decodeKind child p n offset)
      (do
        record (.tried n'.kind.name)
        let offset ← tell n'
        d'.decodeKind child' p n' offset) := by
  rw [twins.kindName]
  exact .bind (.record _) fun _ => .bind (tell_sims twins.toNamesakes keeps) fun _ =>
    decodeKind_sims kin twins keeps handles covers

/-- Where no depth is left, both fail. -/
theorem decodeOne_zero_sims (keeps : R.Respects) :
    R.Simulates Eq (d.decodeOne 0 p n) (d'.decodeOne 0 p n') := by
  simp only [decodeOne]
  rw [twins.kindName, kin.maxDepth]
  exact .bind (.record _) fun _ => .bind (tell_sims twins.toNamesakes keeps) fun _ =>
    .fail twins.toNamesakes rfl

omit twins in
/-- In a set of elements that is closed under what elements lead to, all decode alike if each does
as long as what it leads to does, with one level less. -/
theorem decodeOne_sims_of_step (keeps : R.Respects) (among : ElementId → Prop)
    (closed : ∀ {n : Node d.schema} {id : ElementId}, among n.id → n.Leads id → among id)
    (step : ∀ (depth : Nat) {n : Node d.schema} {n' : Node d'.schema}, among n.id → n.Twins n' →
      (∀ id, n.Leads id → SimulatesChild R (d.decodeOne depth) (d'.decodeOne depth) id) →
      ∀ p, R.Covers (R.reach p) →
        R.Simulates Eq (d.decodeOne (depth + 1) p n) (d'.decodeOne (depth + 1) p n'))
    (depth : Nat) {id : ElementId} (member : among id) :
    SimulatesChild R (d.decodeOne depth) (d'.decodeOne depth) id := by
  induction depth generalizing id with
  | zero => exact fun _ _ _ _ twins _ => decodeOne_zero_sims kin twins keeps
  | succ depth inductionHypothesis =>
    rintro p n n' rfl twins covers
    exact step depth member twins (fun id leads => inductionHypothesis (closed member leads)) p
      covers

omit twins in
/-- Counterparts decode alike the elements of a set that is closed under what elements lead to. -/
theorem decodeOne_sims (keeps : R.Respects) (among : ElementId → Prop)
    (closed : ∀ {n : Node d.schema} {id : ElementId}, among n.id → n.Leads id → among id)
    (handles : ∀ {child : d.DecodeChild} {child' : d'.DecodeChild} {n : Node d.schema}
      {n' : Node d'.schema}, among n.id → n.Twins n' →
      (∀ id, n.Leads id → SimulatesChild R child child' id) → Handles R child child' n n')
    (depth : Nat) {id : ElementId} (member : among id) :
    SimulatesChild R (d.decodeOne depth) (d'.decodeOne depth) id :=
  decodeOne_sims_of_step kin keeps among closed
    (fun _ _ _ member twins children _ covers =>
      tried_sims kin twins keeps (handles member twins children) covers) depth member

omit twins in
/-- Where the runs may go where offsets lead, decoders for one and the same schema that decode by
scripts alike decode every element alike. -/
theorem decodeOne_sims_roaming (same : d.schema = d'.schema) (keeps : R.Respects)
    (roams : R.Roams)
    (scripted : ∀ {n : Node d.schema} {n' : Node d'.schema}, n.Twins n' → ∀ p id,
      R.Covers (R.reach p) → R.Simulates Eq (d.decodeScripted p n id) (d'.decodeScripted p n' id))
    (depth : Nat) (id : ElementId) :
    SimulatesChild R (d.decodeOne depth) (d'.decodeOne depth) id :=
  decodeOne_sims kin keeps (fun _ => True) (fun _ _ => trivial)
    (fun _ twins children =>
      .of_schema_eq same twins children (fun _ => roams) fun _ => scripted twins)
    depth trivial

omit twins in
/-- Where the runs may read and move anywhere, it is enough that hosts answer alike. -/
theorem decodeOne_sims_whole (same : d.schema = d'.schema) (keeps : R.Respects) (whole : R.Whole)
    (hosts : Option.Rel (SameHost R d d') d.scripts d'.scripts) (depth : Nat) (id : ElementId) :
    SimulatesChild R (d.decodeOne depth) (d'.decodeOne depth) id :=
  decodeOne_sims_roaming kin same keeps whole.roams
    (fun twins _ id covers => decodeScripted_sims kin twins keeps whole.roams covers.limit hosts id)
    depth id

end Decoder

end BinaryTemplate
