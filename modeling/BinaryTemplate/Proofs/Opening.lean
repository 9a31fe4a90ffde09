import BinaryTemplate.Proofs.ContainerSimulation
import BinaryTemplate.Proofs.Delivery

/-!
# Structures from the inside

Before its content a structure only works out its order and its length, and behind it only its
length is compared. So from a state at which these are known, how the structure ends is settled by
how its content ends: it throws the error of the content, or it returns the values of the content.
-/

namespace BinaryTemplate

namespace Decoder

open DecodeM

variable {σ : Type} [ByteSource σ] [SliceLike σ] {d : Decoder σ} {child : d.DecodeChild}
  {p : Place} {n : Node d.schema} {st st' : DecodeState σ} {definition : Option ElementId}
  {ids : List ElementId} {order : ChildOrder} {declared : Option Nat}

theorem tellAt_succeeds (n : Node d.schema) (offset : Nat) (st : DecodeState σ) :
    ∃ st', Returns (tellAt n offset) st st.reading.cursor st' ∧ st.Resumes st' := by
  obtain ⟨st', told, same, kept⟩ := Delivers.tellAt st rfl
  exact ⟨st', told, same, kept⟩

theorem tell_succeeds (n : Node d.schema) (st : DecodeState σ) :
    ∃ st', Returns (tell n) st st.reading.cursor st' ∧ st.Resumes st' :=
  tellAt_succeeds n 0 st

/-- What a container does behind its content: the bits are let go of, and the error of the content
is thrown or its length is compared with the declared one. -/
def closeContainer (d : Decoder σ) (p : Place) (n : Node d.schema) (start : Nat)
    (declared : Option Nat) (stop : Nat) (content : Except DecodeError Place) :
    DecodeM σ Value := do
  align
  match content with
  | .error e => throw (d.contentFailure p n start stop declared e)
  | .ok inside =>
    let position ← tellAt n start
    let len ← d.containerLength n start (position - start) declared
    return { Value.empty n.id start len with children := inside.inner.children }

/-- A step comes to the content of a container in the state `opened`, and ends as the container is
closed behind it. -/
structure Opens (step : DecodeM σ Value) (child : d.DecodeChild) (p : Place) (n : Node d.schema)
    (definition : Option ElementId) (ids : List ElementId) (order : ChildOrder)
    (declared : Option Nat) (st opened : DecodeState σ) : Prop where
  reading : opened.reading = st.reading.afterBytes 0
  warnings : opened.warnings = st.warnings
  ends : step.ending st =
    (outcome (d.decodeContent child n ids order
        (inside p n definition st.reading.cursor declared)) >>=
      d.closeContainer p n st.reading.cursor declared
        (inside p n definition st.reading.cursor declared).limit).ending opened

/-! ## How it ends -/

section Ends

variable {step : DecodeM σ Value} {opened mid : DecodeState σ} {e : DecodeError} {v : Value}
  {q : Place}

/-- The error of the content is that of the container, unless it is a read beyond the container. -/
theorem Opens.throws (h : Opens step child p n definition ids order declared st opened)
    (failed : Throws (d.decodeContent child n ids order
      (inside p n definition st.reading.cursor declared)) opened e mid) :
    ∃ st', Throws step st (d.contentFailure p n st.reading.cursor
      (inside p n definition st.reading.cursor declared).limit declared e) st' := by
  refine ⟨{ mid with pending := [] }, h.ends.trans ?_⟩
  refine (throws_behind (returns_outcome.mpr (.inr ⟨e, rfl, failed⟩))).mpr ?_
  exact (throws_behind (returns_align (u := ()).mpr rfl)).mpr (throws_throw.mpr ⟨rfl, rfl⟩)

/-- The values of the content are those of the container, if it has the declared length. -/
theorem Opens.returns (h : Opens step child p n definition ids order declared st opened)
    (filled : Returns (d.decodeContent child n ids order
      (inside p n definition st.reading.cursor declared)) opened q mid)
    (length : ∀ len, declared = some len → len = mid.reading.cursor - st.reading.cursor) :
    ∃ st', Returns step st ⟨n.id, st.reading.cursor, mid.reading.cursor - st.reading.cursor, none,
        .none, q.inner.children⟩ st' ∧
      st'.reading = mid.reading.afterBytes 0 ∧ st'.warnings = mid.warnings := by
  obtain ⟨ended, ends, still⟩ := tellAt_succeeds n st.reading.cursor { mid with pending := [] }
  have sized : Returns (d.containerLength n st.reading.cursor
      (mid.reading.cursor - st.reading.cursor) declared) ended
      (mid.reading.cursor - st.reading.cursor) ended := by
    cases declared with
    | none => exact returns_pure.mpr ⟨rfl, rfl⟩
    | some len =>
      rw [containerLength, if_pos (length len rfl)]
      exact returns_pure.mpr ⟨length len rfl ▸ rfl, rfl⟩
  refine ⟨ended, h.ends.trans ?_, still.reading, still.warnings⟩
  refine returns_bind.mpr ⟨_, _, returns_outcome.mpr (.inl ⟨q, rfl, filled⟩), ?_⟩
  refine returns_bind.mpr ⟨(), _, returns_align.mpr rfl, ?_⟩
  refine returns_bind.mpr ⟨_, _, ends, returns_bind.mpr ⟨_, _, sized, ?_⟩⟩
  exact returns_pure.mpr ⟨rfl, rfl⟩

theorem Opens.returned (h : Opens step child p n definition ids order declared st opened)
    (returned : Returns step st v st') :
    ∃ q mid, Returns (d.decodeContent child n ids order
      (inside p n definition st.reading.cursor declared)) opened q mid ∧
        v.children = q.inner.children := by
  obtain ⟨content, mid, tried, closed⟩ := returns_bind.mp (h.ends.symm.trans returned)
  obtain ⟨_, _, -, closed⟩ := returns_bind.mp closed
  obtain ⟨q, rfl, filled⟩ | ⟨e, rfl, -⟩ := returns_outcome.mp tried
  · obtain ⟨_, _, -, closed⟩ := returns_bind.mp closed
    obtain ⟨_, _, -, closed⟩ := returns_bind.mp closed
    obtain ⟨rfl, -⟩ := returns_pure.mp closed
    exact ⟨q, mid, filled, rfl⟩
  · exact absurd closed returns_throw

end Ends

/-! ## How it opens -/

/-- What a structure does before its content: it works out its length, and asks where it starts. -/
def opening (d : Decoder σ) (p : Place) (n : Node d.schema) : DecodeM σ (Nat × Option Nat) := do
  record (.tried n.kind.name)
  let _ ← DecodeM.tell n
  align
  let offset ← DecodeM.tell n
  let declared ← d.structureLength p n offset
  align
  let start ← DecodeM.tell n
  return (start, declared)

/-- How a container that starts at `start` is filled and closed. -/
def fillFrom (d : Decoder σ) (child : d.DecodeChild) (p : Place) (n : Node d.schema)
    (definition : Option ElementId) (ids : List ElementId) (order : ChildOrder) (start : Nat)
    (declared : Option Nat) : DecodeM σ Value := do
  let stop ← d.containerStop p n start declared
  record (.opened n.label start stop)
  let content ← outcome (d.decodeContent child n ids order
    (p.enter (.container n.id definition start stop)))
  d.closeContainer p n start declared stop content

omit [SliceLike σ] in
/-- A structure, and a reference to one, decode as the structure. -/
theorem Contains.decodesStructure (contains : Contains n definition ids order)
    (structural : n.IsStructural) :
    ∃ s : Node d.schema, definition = (if s.id = n.id then none else some s.id) ∧
      ids = s.kind.children ∧ n.order = .ok order ∧
      ∀ (child : d.DecodeChild) (p : Place) (offset : Nat) (st : DecodeState σ),
        (d.decodeKind child p n offset).ending st = (d.decodeStructure child p n s).ending st := by
  cases contains with
  | grammar kind =>
    obtain ⟨_, other⟩ | ⟨_, other⟩ := structural <;> cases kind.symm.trans other
  | «structure» kind ordered =>
    refine ⟨n, (if_pos rfl).symm, rfl, ordered, fun child p offset st => ?_⟩
    rw [decodeKind, kind]
  | @structRef _ _ _ s _ kind named found defines ordered =>
    refine ⟨s, rfl, rfl, ordered, fun child p offset st => ?_⟩
    rw [decodeKind, kind]
    dsimp only
    rw [decodeStructRef, ending_behind (returns_resolved.mpr ⟨named, rfl⟩)]
    dsimp only
    rw [ending_behind (node_returns.mpr ⟨found, rfl⟩)]
    simp only [defines]

omit [SliceLike σ] in
theorem decodeOne_eq_opening (depth : Nat) (contains : Contains n definition ids order)
    (structural : n.IsStructural) :
    d.decodeOne (depth + 1) p n = (do
      let (start, declared) ← d.opening p n
      d.fillFrom (d.decodeOne depth) p n definition ids order start declared) := by
  obtain ⟨s, rfl, rfl, ordered, decodes⟩ := contains.decodesStructure structural
  have kind (offset : Nat) : d.decodeKind (d.decodeOne depth) p n offset =
      d.decodeStructure (d.decodeOne depth) p n s :=
    funext fun st => decodes (d.decodeOne depth) p offset st
  simp only [decodeOne, kind, decodeStructure, ordered, resolved, opening, bind_assoc, pure_bind]
  rfl

theorem opening_delivers (spans : d.Spans p n declared) (before : Reading) :
    Delivers (d.opening p n) before (before.cursor, declared) (before.afterBytes 0) := by
  apply Delivers.record.bind
  apply Delivers.tell.bind
  apply Delivers.align.bind
  apply Delivers.tell.bind
  apply (Delivers.still fun _ => structureLength_returns.mpr ⟨spans, rfl⟩).bind
  apply Delivers.align.bind
  apply Delivers.tell.bind
  exact .pure

theorem opening_returns {start : Nat} (h : Returns (d.opening p n) st (start, declared) st') :
    start = st.reading.cursor ∧ d.Spans p n declared := by
  simp only [opening, returns_bind, returns_record, returns_align, returns_pure, Prod.mk.injEq] at h
  obtain ⟨_, _, rfl, _, told, tells, _, _, rfl, _, opened, tells', _, _, sized, _, _, rfl, _, _,
    tells'', ⟨rfl, rfl⟩, -⟩ := h
  obtain ⟨spans, rfl⟩ := structureLength_returns.mp sized
  have first := congrArg Reading.cursor (tell_returns tells).2
  have second := congrArg Reading.cursor (tell_returns tells').2
  exact ⟨(tell_returns tells'').1.trans (second.trans first), spans⟩

/-- A structure whose length is known and fits comes to its content, and ends as that does. -/
theorem decodeOne_opens (depth : Nat) (st : DecodeState σ)
    (contains : Contains n definition ids order) (structural : n.IsStructural)
    (spans : d.Spans p n declared)
    (fits : (inside p n definition st.reading.cursor declared).limit ≤ p.limit) :
    ∃ opened, Opens (d.decodeOne (depth + 1) p n) (d.decodeOne depth) p n definition ids order
      declared st opened := by
  obtain ⟨told, opens, reading, warnings⟩ := opening_delivers spans st.reading st rfl
  let stop := (inside p n definition st.reading.cursor declared).limit
  have stops : Returns (d.containerStop p n st.reading.cursor declared) told stop told :=
    containerStop_returns.mpr ⟨rfl, fits, rfl⟩
  refine ⟨{ told with events := .opened n.label st.reading.cursor stop :: told.events }, reading,
    warnings, ?_⟩
  rw [decodeOne_eq_opening depth contains structural, ending_behind opens]
  dsimp only
  rw [fillFrom, ending_behind stops, ending_behind (returns_record (u := ()).mpr rfl)]
  rfl

/-- A structure that decodes has a length that is known and fits. -/
theorem decodeOne_spans {depth : Nat} {v : Value} (contains : Contains n definition ids order)
    (structural : n.IsStructural) (h : Returns (d.decodeOne (depth + 1) p n) st v st') :
    ∃ declared, d.Spans p n declared ∧
      (inside p n definition st.reading.cursor declared).limit ≤ p.limit := by
  rw [decodeOne_eq_opening depth contains structural] at h
  obtain ⟨⟨start, declared⟩, opened, opens, filled⟩ := returns_bind.mp h
  obtain ⟨rfl, spans⟩ := opening_returns opens
  obtain ⟨stop, _, stops, -⟩ := returns_bind.mp filled
  obtain ⟨rfl, fits, -⟩ := containerStop_returns.mp stops
  exact ⟨declared, spans, fits⟩

end Decoder

end BinaryTemplate
