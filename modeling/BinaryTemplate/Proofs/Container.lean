import BinaryTemplate.Decode
import BinaryTemplate.Proofs.Offset
import BinaryTemplate.Proofs.Runs
import BinaryTemplate.Proofs.Whole

/-!
# What elements take

A container lets go of the unread bits, fills itself with values from the cursor on, and lets go of
the unread bits again. With that every element decodes in one of six ways, and whatever holds of
all decodes is proved by induction on the depth with one case for each of them.
-/

namespace BinaryTemplate

/-- A structure or a reference to one. -/
def Node.IsStructural {s : Schema} (n : Node s) : Prop :=
  (∃ body, n.kind = .structure body) ∨ ∃ body, n.kind = .structRef body

namespace Decoder

open DecodeM

variable {σ : Type} [ByteSource σ] [SliceLike σ] {d : Decoder σ} {child : d.DecodeChild}
  {p : Place} {n : Node d.schema} {st st' : DecodeState σ}

/-! ## Containers -/

/-- The history of the content of a container: the definitions have their turn, or any of them may
come next. -/
inductive Content (child : d.DecodeChild) (ids : List ElementId) (p : Place) (st : DecodeState σ) :
    ChildOrder → List (Tally d.schema) → List Value → DecodeState σ → Prop
  | inTurn {ts : List (Tally d.schema)} {st' : DecodeState σ}
      (history : InTurn child ids p st ts st') :
      Content child ids p st .declared ts (ts.flatMap Tally.values) st'
  | anyOf {ts : List (Tally d.schema)} {vs : List Value} {st' : DecodeState σ}
      (history : AnyOf child ids p st ts vs st') : Content child ids p st .anyOf ts vs st'

theorem Content.fills {ids : List ElementId} {order : ChildOrder} {ts : List (Tally d.schema)}
    {vs : List Value} (h : Content child ids p st order ts vs st') : Fills child p st vs st' := by
  cases h with
  | inTurn history => exact history.fills
  | anyOf history =>
    cases history with
    | mk _ resumes rounds _ => exact rounds.fills.resumed resumes

/-- The place inside a container that is opened at the cursor. -/
def inside (p : Place) (n : Node d.schema) (definition : Option ElementId) (start : Nat)
    (declared : Option Nat) : Place :=
  p.enter (.container n.id definition start ((declared.map (start + ·)).getD p.limit))

/-- How a container decodes: its content starts and ends on a byte, its end is within the frame
around it, and its declared length is that of its content. -/
inductive ContainerDecoded (child : d.DecodeChild) (p : Place) (n : Node d.schema)
    (definition : Option ElementId) (ids : List ElementId) (order : ChildOrder)
    (declared : Option Nat) (before : Reading) : Value → Reading → Prop
  | mk {ts : List (Tally d.schema)} {vs : List Value} {opened closed : DecodeState σ}
      (within : (inside p n definition before.cursor declared).limit ≤ p.limit)
      (opens : opened.reading = before.afterBytes 0)
      (content : Content child ids (inside p n definition before.cursor declared) opened order ts
        vs closed)
      (length : ∀ len, declared = some len → len = closed.reading.cursor - before.cursor) :
      ContainerDecoded child p n definition ids order declared before
        ⟨n.id, before.cursor, closed.reading.cursor - before.cursor, none, .none, vs⟩
        (closed.reading.afterBytes 0)

theorem decodeContent_returns {ids : List ElementId} {order : ChildOrder} {p' : Place}
    (h : Returns (d.decodeContent child n ids order p) st p' st') :
    ∃ ts vs, p' = p.completeAll vs ∧ Content child ids p st order ts vs st' := by
  cases order with
  | declared =>
    obtain ⟨ts, completed, history⟩ := decodeDeclared_returns h
    exact ⟨ts, _, completed, .inTurn history⟩
  | anyOf =>
    obtain ⟨ts, vs, completed, history⟩ := decodeAnyOf_returns h
    exact ⟨ts, vs, completed, .anyOf history⟩

omit [ByteSource σ] [SliceLike σ] in
theorem containerStop_returns {start stop : Nat} {declared : Option Nat} :
    Returns (d.containerStop p n start declared) st stop st' ↔
      stop = (declared.map (start + ·)).getD p.limit ∧ stop ≤ p.limit ∧ st' = st := by
  cases declared with
  | none =>
    constructor
    · intro h
      obtain ⟨rfl, rfl⟩ := returns_pure.mp h
      exact ⟨rfl, Nat.le_refl _, rfl⟩
    · rintro ⟨rfl, -, rfl⟩
      exact returns_pure.mpr ⟨rfl, rfl⟩
  | some len =>
    simp only [containerStop, returns_ite, returns_pure, returns_fail, and_false, or_false]
    constructor
    · rintro ⟨fits, rfl, rfl⟩
      exact ⟨rfl, fits, rfl⟩
    · rintro ⟨rfl, fits, rfl⟩
      exact ⟨fits, rfl, rfl⟩

omit [ByteSource σ] [SliceLike σ] in
theorem containerLength_returns {start consumed len : Nat} {declared : Option Nat}
    (h : Returns (d.containerLength n start consumed declared) st len st') :
    len = consumed ∧ (∀ bytes, declared = some bytes → bytes = consumed) ∧ st' = st := by
  cases declared with
  | none =>
    obtain ⟨rfl, rfl⟩ := returns_pure.mp h
    exact ⟨rfl, nofun, rfl⟩
  | some bytes =>
    simp only [containerLength, returns_ite, returns_pure, returns_fail, and_false, or_false] at h
    obtain ⟨rfl, rfl, rfl⟩ := h
    exact ⟨rfl, by rintro _ ⟨⟩; rfl, rfl⟩

theorem decodeContainer_returns {definition : Option ElementId} {ids : List ElementId}
    {order : ChildOrder} {declared : Option Nat} {v : Value}
    (h : Returns (d.decodeContainer child p n definition ids order declared) st v st') :
    ContainerDecoded child p n definition ids order declared st.reading v st'.reading := by
  simp only [decodeContainer, returns_bind, returns_align, returns_record, returns_outcome] at h
  obtain ⟨_, _, rfl, start, opened, tells, stop, _, stops, _, _, rfl, content, closed, filled, _, _,
    rfl, h⟩ := h
  obtain ⟨rfl, same⟩ := tell_returns tells
  obtain ⟨rfl, within, rfl⟩ := containerStop_returns.mp stops
  -- An error of the content is thrown again, so the content has returned.
  obtain ⟨reached, rfl, fills⟩ | ⟨e, rfl, -⟩ := filled
  · simp only [returns_bind, returns_pure] at h
    obtain ⟨position, _, ends, len, _, sized, rfl, rfl⟩ := h
    obtain ⟨rfl, final⟩ := tellAt_returns ends
    obtain ⟨rfl, length, rfl⟩ := containerLength_returns sized
    obtain ⟨ts, vs, rfl, history⟩ := decodeContent_returns fills
    have built : ContainerDecoded child p n definition ids order declared st.reading
        ⟨n.id, st.reading.cursor, closed.reading.cursor - st.reading.cursor, none, .none, vs⟩
        (closed.reading.afterBytes 0) := by
      refine .mk within ?_ history length
      exact same
    -- The frame starts without values, so its children are those of the content.
    have children : ((inside p n definition st.reading.cursor declared).completeAll
        vs).inner.children = vs := by
      rw [Place.children_completeAll]
      rfl
    rw [final]
    change ContainerDecoded child p n definition ids order declared st.reading
      ⟨n.id, st.reading.cursor, closed.reading.cursor - st.reading.cursor, none, .none,
        ((inside p n definition st.reading.cursor declared).completeAll vs).inner.children⟩
      (closed.reading.afterBytes 0)
    rw [children]
    exact built
  · exact absurd h returns_throw

/-- The declared length of a structure in bytes at a place, with the offset added to it; `none` if
it declares none. -/
def Spans (d : Decoder σ) (p : Place) (n : Node d.schema) : Option Nat → Prop
  | none => n.lookup .length = .ok none
  | some bytes => ∃ length units extra total unit, n.lookup .length = .ok (some length) ∧
      d.Counts p length units ∧ d.Gives p n .lengthOffset extra ∧
      (units : Int) + (extra.map (·.toInt)).getD 0 = (total : Nat) ∧ n.lengthUnit = .ok unit ∧
      total * unit.bits = 8 * bytes ∧ total * unit.bits < positionLimit

omit [ByteSource σ] [SliceLike σ] in
@[simp] theorem structureLength_returns {offset : Nat} {declared : Option Nat} :
    Returns (d.structureLength p n offset) st declared st' ↔
      d.Spans p n declared ∧ st' = st := by
  simp only [structureLength, returns_bind, returns_resolved]
  constructor
  · rintro ⟨length, _, ⟨found, rfl⟩, h⟩
    cases length with
    | none =>
      obtain ⟨rfl, rfl⟩ := returns_pure.mp h
      exact ⟨found, rfl⟩
    | some length =>
      simp only [returns_bind, evalCount_returns, evalAttribute_returns, asCount_returns,
        returns_resolved, toBytes_returns, returns_pure] at h
      obtain ⟨units, _, ⟨counts, rfl⟩, extra, _, ⟨gives, rfl⟩, total, _, ⟨sums, rfl⟩, unit, _,
        ⟨sized, rfl⟩, bytes, _, ⟨⟨whole, fits⟩, rfl⟩, rfl, rfl⟩ := h
      exact ⟨⟨length, units, extra, total, unit, found, counts, gives, sums, sized, whole, fits⟩,
        rfl⟩
  · rintro ⟨spans, rfl⟩
    cases declared with
    | none => exact ⟨none, st', ⟨spans, rfl⟩, returns_pure.mpr ⟨rfl, rfl⟩⟩
    | some bytes =>
      obtain ⟨length, units, extra, total, unit, found, counts, gives, sums, sized, whole, fits⟩ :=
        spans
      refine ⟨some length, st', ⟨found, rfl⟩, ?_⟩
      simp only [returns_bind, evalCount_returns, evalAttribute_returns, asCount_returns,
        returns_resolved, toBytes_returns, returns_pure]
      exact ⟨units, st', ⟨counts, rfl⟩, extra, st', ⟨gives, rfl⟩, total, st', ⟨sums, rfl⟩, unit,
        st', ⟨sized, rfl⟩, bytes, st', ⟨⟨whole, fits⟩, rfl⟩, rfl, rfl⟩

omit [ByteSource σ] [SliceLike σ] in
theorem Spans.unique {declared declared' : Option Nat} (first : d.Spans p n declared)
    (second : d.Spans p n declared') : declared = declared' := by
  cases declared with
  | none =>
    cases declared' with
    | none => rfl
    | some bytes =>
      obtain ⟨_, _, _, _, _, found, -⟩ := second
      cases first.symm.trans found
  | some bytes =>
    obtain ⟨_, units, extra, total, unit, found, counts, gives, sums, sized, whole, -⟩ := first
    cases declared' with
    | none => cases found.symm.trans second
    | some bytes' =>
      obtain ⟨_, units', extra', total', unit', found', counts', gives', sums', sized', whole',
        -⟩ := second
      cases found.symm.trans found'
      obtain rfl := counts.unique counts'
      obtain rfl := gives.unique gives'
      cases sized.symm.trans sized'
      obtain rfl : total = total' := by omega
      exact congrArg some (by omega)

/-! ## Structures and grammars -/

/-- The container that an element decodes as: the structure behind a reference, the children and
their order. A grammar has its start element for its only child, if it names one. -/
inductive Contains {s : Schema} (n : Node s) :
    Option ElementId → List ElementId → ChildOrder → Prop
  | grammar {body : GrammarBody} (kind : n.kind = .grammar body) :
      Contains n none (match body.start with | some start => [start] | none => body.children)
        .declared
  | structure {body : StructureBody} {order : ChildOrder} (kind : n.kind = .structure body)
      (ordered : n.order = .ok order) : Contains n none n.kind.children order
  | structRef {body : StructRefBody} {inner : StructureBody} {target : ElementId}
      {definition : Node s} {order : ChildOrder} (kind : n.kind = .structRef body)
      (named : n.lookup .structure? = .ok (some target))
      (found : s.node? target = some definition) (defines : definition.kind = .structure inner)
      (ordered : n.order = .ok order) :
      Contains n (if definition.id = n.id then none else some definition.id)
        definition.kind.children order

theorem Contains.producesChildren {s : Schema} {n : Node s} {definition : Option ElementId}
    {ids : List ElementId} {order : ChildOrder} (h : Contains n definition ids order) :
    n.kind.producesChildren = true := by
  cases h with
  | grammar kind => rw [kind]; rfl
  | «structure» kind => rw [kind]; rfl
  | structRef kind => rw [kind]; rfl

theorem decodeStructure_returns {definition : Node d.schema} {v : Value}
    (h : Returns (d.decodeStructure child p n definition) st v st') :
    ∃ order declared, n.order = .ok order ∧
      ContainerDecoded child p n (if definition.id = n.id then none else some definition.id)
        definition.kind.children order declared st.reading v st'.reading := by
  simp only [decodeStructure, returns_bind, returns_align, returns_resolved] at h
  obtain ⟨_, _, rfl, start, _, tells, order, _, ⟨ordered, rfl⟩, declared, opened, sized, contains⟩
    := h
  obtain ⟨-, same⟩ := tell_returns tells
  obtain ⟨-, rfl⟩ := structureLength_returns.mp sized
  refine ⟨order, declared, ordered, ?_⟩
  have decoded := decodeContainer_returns contains
  rw [same] at decoded
  generalize st'.reading = after at decoded ⊢
  -- Letting go of the unread bits twice is letting go of them once.
  cases decoded with
  | mk within opens content length => exact .mk within opens content length

/-! ## Elements -/

/-- How an element decodes: as a number, as a field of whole bytes, as an offset, as a reference to
a grammar that is switched off, as the grammar that a reference names, or as a container. -/
inductive KindDecoded (child : d.DecodeChild) (p : Place) (n : Node d.schema)
    (st : DecodeState σ) : Value → DecodeState σ → Prop
  | number {body : NumberBody} {v : Value} {st' : DecodeState σ} (kind : n.kind = .number body)
      (decoded : NumberDecoded d p n st.reading v st'.reading) : KindDecoded child p n st v st'
  | whole {v : Value} {st' : DecodeState σ} (bytes : TakesBytes n.kind)
      (decoded : WholeDecoded d p n st.reading v st'.reading) : KindDecoded child p n st v st'
  | offset {body : OffsetBody} {v : Value} {st' : DecodeState σ} (kind : n.kind = .offset body)
      (decoded : OffsetDecoded child p n st.reading v st'.reading) : KindDecoded child p n st v st'
  | disabled {body : GrammarRefBody} {st' : DecodeState σ} (kind : n.kind = .grammarRef body)
      (off : n.disabled = .ok true) (still : st'.reading = st.reading) :
      KindDecoded child p n st (Value.empty n.id st.reading.cursor 0) st'
  | grammar {body : GrammarRefBody} {inner : GrammarBody} {target : ElementId}
      {grammar : Node d.schema} {start st' : DecodeState σ} {v : Value}
      (kind : n.kind = .grammarRef body) (on : n.disabled = .ok false)
      (named : n.lookup .grammar = .ok (some target))
      (found : d.schema.node? target = some grammar) (defines : grammar.kind = .grammar inner)
      (resumes : st.Resumes start) (decoded : Returns (child p grammar) start v st') :
      KindDecoded child p n st v st'
  | container {definition : Option ElementId} {ids : List ElementId} {order : ChildOrder}
      {declared : Option Nat} {v : Value} {st' : DecodeState σ}
      (contains : Contains n definition ids order)
      (decoded : ContainerDecoded child p n definition ids order declared st.reading v
        st'.reading) :
      KindDecoded child p n st v st'

theorem decodeGrammarRef_returns {body : GrammarRefBody} (kind : n.kind = .grammarRef body)
    {v : Value} (h : Returns (d.decodeGrammarRef child p n st.reading.cursor) st v st') :
    KindDecoded child p n st v st' := by
  simp only [decodeGrammarRef, returns_bind, returns_resolved, returns_ite, returns_pure] at h
  obtain ⟨off, _, ⟨switched, rfl⟩, ⟨rfl, rfl, rfl⟩ | ⟨on, target, _, ⟨named, rfl⟩, h⟩⟩ := h
  · exact .disabled kind switched rfl
  have enabled : n.disabled = .ok false := by simpa [on] using switched
  cases target with
  | none => exact absurd h returns_fail
  | some target =>
    simp only [returns_bind, node_returns] at h
    obtain ⟨grammar, _, ⟨found, rfl⟩, h⟩ := h
    cases defines : grammar.kind with
    | grammar inner =>
      simp only [defines] at h
      exact .grammar kind enabled named found defines (.refl _) h
    | _ =>
      simp only [defines] at h
      exact absurd h returns_fail

theorem decodeStructRef_returns {body : StructRefBody} (kind : n.kind = .structRef body)
    {offset : Nat} {v : Value} (h : Returns (d.decodeStructRef child p n offset) st v st') :
    KindDecoded child p n st v st' := by
  simp only [decodeStructRef, returns_bind, returns_resolved] at h
  obtain ⟨target, _, ⟨named, rfl⟩, h⟩ := h
  cases target with
  | none => exact absurd h returns_fail
  | some target =>
    simp only [returns_bind, node_returns] at h
    obtain ⟨definition, _, ⟨found, rfl⟩, h⟩ := h
    cases defines : definition.kind with
    | «structure» inner =>
      simp only [defines] at h
      obtain ⟨order, declared, ordered, decoded⟩ := decodeStructure_returns h
      exact .container (.structRef kind named found defines ordered) decoded
    | _ =>
      simp only [defines] at h
      exact absurd h returns_fail

theorem decodeKind_returns {v : Value}
    (h : Returns (d.decodeKind child p n st.reading.cursor) st v st') :
    KindDecoded child p n st v st' := by
  unfold decodeKind at h
  cases kind : n.kind with
  | grammar body =>
    simp only [kind] at h
    exact .container (.grammar kind) (decodeContainer_returns h)
  | grammarRef body =>
    simp only [kind] at h
    exact decodeGrammarRef_returns kind h
  | «structure» body =>
    simp only [kind] at h
    obtain ⟨order, declared, ordered, decoded⟩ := decodeStructure_returns h
    rw [if_pos rfl] at decoded
    exact .container (.structure kind ordered) decoded
  | structRef body =>
    simp only [kind] at h
    exact decodeStructRef_returns kind h
  | number body =>
    simp only [kind] at h
    exact .number kind (decodeNumber_returns h)
  | string body =>
    simp only [kind] at h
    exact .whole (kind ▸ .string body) (decodeString_returns h)
  | binary body =>
    simp only [kind] at h
    exact .whole (kind ▸ .binary body) (decodeBinary_returns h)
  | custom body =>
    simp only [kind, returns_bind, returns_resolved] at h
    obtain ⟨script, _, ⟨-, rfl⟩, h⟩ := h
    cases script with
    | none => exact absurd h returns_fail
    | some script => exact .whole (kind ▸ .custom body) (decodeScripted_returns h)
  | offset body =>
    simp only [kind] at h
    exact .offset kind (decodeOffset_returns h)
  | script body =>
    simp only [kind] at h
    exact .whole (kind ▸ .script body) (decodeScripted_returns h)

/-- An element that decodes does so as its kind does, with one level of depth less. -/
theorem decodeOne_kinds {depth : Nat} {v : Value} (h : Returns (d.decodeOne depth p n) st v st') :
    ∃ rest start, depth = rest + 1 ∧ st.Resumes start ∧
      Returns (d.decodeKind (d.decodeOne rest) p n start.reading.cursor) start v st' := by
  cases depth with
  | zero =>
    simp only [decodeOne, returns_bind, returns_fail, and_false, exists_false] at h
  | succ rest =>
    simp only [decodeOne, returns_bind, returns_record] at h
    obtain ⟨_, _, rfl, offset, start, tells, kinds⟩ := h
    obtain ⟨rfl, same⟩ := tell_returns tells
    obtain ⟨source, -, rfl⟩ := returns_onSource.mp tells
    rw [← same] at kinds
    exact ⟨rest, _, rfl, ⟨same, rfl⟩, kinds⟩

/-- An element that decodes does so in one of the ways above, with one level of depth less. -/
theorem decodeOne_returns {depth : Nat} {v : Value}
    (h : Returns (d.decodeOne depth p n) st v st') :
    ∃ rest start, depth = rest + 1 ∧ st.Resumes start ∧
      KindDecoded (d.decodeOne rest) p n start v st' := by
  obtain ⟨rest, start, deeper, resumes, kinds⟩ := decodeOne_kinds h
  exact ⟨rest, start, deeper, resumes, decodeKind_returns kinds⟩

/-- What holds of every instance for which it holds of the instances one level deeper holds of all
that an element decodes to. -/
@[elab_as_elim] theorem decodeOne_induction
    {motive : Place → Node d.schema → DecodeState σ → Value → DecodeState σ → Prop}
    (deeper : ∀ {rest : Nat} {p : Place} {n : Node d.schema} {st start : DecodeState σ} {v : Value}
      {st' : DecodeState σ}, (∀ {p : Place} {n : Node d.schema} {st : DecodeState σ} {v : Value}
        {st' : DecodeState σ}, Returns (d.decodeOne rest p n) st v st' → motive p n st v st') →
      st.Resumes start → KindDecoded (d.decodeOne rest) p n start v st' → motive p n st v st')
    {depth : Nat} {v : Value} (h : Returns (d.decodeOne depth p n) st v st') :
    motive p n st v st' := by
  induction depth generalizing p n st v st' with
  | zero =>
    obtain ⟨rest, _, impossible, _⟩ := decodeOne_returns h
    cases impossible
  | succ depth inductionHypothesis =>
    obtain ⟨rest, start, same, resumes, decoded⟩ := decodeOne_returns h
    obtain rfl : depth = rest := Nat.succ.inj same
    exact deeper inductionHypothesis resumes decoded

/-- An element whose values have children decodes as a container. -/
theorem decodeOne_container {depth : Nat} {v : Value} (produces : n.kind.producesChildren = true)
    (h : Returns (d.decodeOne depth p n) st v st') :
    ∃ rest definition ids order declared, Contains n definition ids order ∧
      ContainerDecoded (d.decodeOne rest) p n definition ids order declared st.reading v
        st'.reading := by
  obtain ⟨rest, start, -, resumes, decoded⟩ := decodeOne_returns h
  rw [← resumes.reading]
  cases decoded with
  | whole bytes => cases bytes.childless.symm.trans produces
  | container contains decoded => exact ⟨rest, _, _, _, _, contains, decoded⟩
  | number kind | offset kind | disabled kind | grammar kind =>
    rw [kind] at produces
    cases produces

/-! ## Whole decodes -/

omit [SliceLike σ] in
theorem decodeElement_eq (d : Decoder σ) (element : ElementId) (source : σ) :
    d.decodeElement element source =
      ⟨((d.decodeWhole element).ending { source := source }).1.map fun v =>
          (v, ((d.decodeWhole element).ending { source := source }).2.warnings.reverse),
        ((d.decodeWhole element).ending { source := source }).2.source,
        ((d.decodeWhole element).ending { source := source }).2.events.reverse⟩ :=
  rfl

omit [ByteSource σ] [SliceLike σ] in
theorem checkTree_returns {v : Value} {u : Unit} (h : Returns (d.checkTree n v) st u st') :
    st' = st := by
  unfold checkTree at h
  by_cases checked : d.options.validate = true
  · rw [if_pos checked] at h
    split at h
    · exact (returns_pure.mp h).2
    · exact absurd h returns_fail
  · rw [if_neg checked] at h
    exact (returns_pure.mp h).2

/-- A whole decode is that of one instance in a scope that starts at the cursor and ends with the
data. -/
theorem decodeWhole_returns {element : ElementId} {v : Value}
    (h : Returns (d.decodeWhole element) st v st') :
    ∃ n start, d.schema.node? element = some n ∧ start.reading = st.reading ∧
      Returns (d.decodeOne d.options.maxDepth
        (startPlace element st.reading.cursor st.reading.data.size) n) start v st' := by
  simp only [decodeWhole, returns_bind, node_returns, returns_pure] at h
  obtain ⟨n, _, ⟨found, rfl⟩, position, told, tells, dataStop, start, sizes, v, after, decoded, _,
    _, checked, rfl, rfl⟩ := h
  obtain ⟨rfl, same⟩ := tell_returns tells
  obtain ⟨rfl, still⟩ := size_returns sizes
  obtain rfl := checkTree_returns checked
  rw [same] at still decoded
  exact ⟨n, start, found, still, decoded⟩

theorem decodeElement_returns {element : ElementId} {source : σ} {v : Value}
    {warnings : List DecodeError}
    (h : (d.decodeElement element source).result = .ok (v, warnings)) :
    ∃ n start after, d.schema.node? element = some n ∧
      start.reading = SliceLike.reading source ∧
      Returns (d.decodeOne d.options.maxDepth
        (startPlace element (SliceLike.slice source).cursor (SliceLike.slice source).data.size) n)
        start v after ∧
      (SliceLike.slice (d.decodeElement element source).source).cursor = after.reading.cursor := by
  rw [decodeElement_eq] at h ⊢
  rcases ended : (d.decodeWhole element).ending { source := source } with ⟨e | v', after⟩
  · rw [ended] at h
    cases h
  · rw [ended] at h
    cases h
    obtain ⟨n, start, found, still, decoded⟩ := decodeWhole_returns ended
    exact ⟨n, start, after, found, still, decoded, rfl⟩

omit [SliceLike σ] in
theorem decodeElement_throws {element : ElementId} {source : σ} {e : DecodeError}
    (h : (d.decodeElement element source).result = .error e) :
    ∃ after, Throws (d.decodeWhole element) { source := source } e after := by
  rw [decodeElement_eq] at h
  rcases ended : (d.decodeWhole element).ending { source := source } with ⟨e' | v, after⟩
  · rw [ended] at h
    cases h
    exact ⟨after, ended⟩
  · rw [ended] at h
    cases h

end Decoder

end BinaryTemplate
