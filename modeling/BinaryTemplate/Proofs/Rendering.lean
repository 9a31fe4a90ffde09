import BinaryTemplate.Value.Render
import BinaryTemplate.Proofs.Visits
import BinaryTemplate.Proofs.ValidTrees

/-!
# Rendering what was decoded

A run of bytes is not kept by its value: a rendering reads it again from the place that was recorded
when the decode went past it. Every instance of a tree is decoded in a frame that ends with the data
at the latest, and a run of bytes, also an empty one, ends within its frame. So over the same bytes
no rendering of a decoded tree lacks any, and what is left to go wrong is the lookup of a name or of
a radix.
-/

namespace BinaryTemplate

/-! ## Steps of a rendering -/

namespace RenderM

variable {σ α β : Type} {step : RenderM σ α} {next : α → RenderM σ β} {source mid : σ}

/-- What a sequence gives is given by its last part, after the first part has given something. -/
theorem bind_eq_ok_iff {b : β} {after : σ} :
    (step >>= next) source = (.ok b, after) ↔
      ∃ a mid, step source = (.ok a, mid) ∧ next a mid = (.ok b, after) := by
  rcases ended : step source with ⟨e | a, mid⟩
  · rw [bind_of_error ended]
    constructor
    · rintro ⟨⟩
    · rintro ⟨_, _, ⟨⟩, -⟩
  · rw [bind_of_ok ended]
    constructor
    · exact fun rest => ⟨a, mid, rfl, rest⟩
    · rintro ⟨_, _, ⟨⟩, rest⟩
      exact rest

theorem pure_eq_ok_iff {a b : α} {after : σ} :
    (pure a : RenderM σ α) source = (.ok b, after) ↔ b = a ∧ after = source := by
  constructor
  · intro ended
    cases ended
    exact ⟨rfl, rfl⟩
  · rintro ⟨rfl, rfl⟩
    rfl

theorem resolved_eq_ok_iff {result : Except CycleError α} {a : α} {after : σ} :
    (Value.resolved result : RenderM σ α) source = (.ok a, after) ↔
      result = .ok a ∧ after = source := by
  cases result with
  | ok b =>
    refine pure_eq_ok_iff.trans ?_
    simp [eq_comm]
  | error cycle =>
    constructor
    · intro ended
      cases ended
    · rintro ⟨⟨⟩, -⟩

end RenderM

namespace Value

section Lines

variable {σ : Type} [ByteSource σ]

/-- The lines of a side tree, below the arrow that leads to it. -/
def sideLines (s : Schema) (depth : Nat) : Option Value → RenderM σ (List String)
  | some side => do
    let lines ← dumpLines s (depth + 2) side
    return (indentation depth ++ "  ->") :: lines
  | none => return []

/-- The lines of a tree are those of the value, of its masks, of its children and of its side
tree. -/
theorem dumpLines_eq (s : Schema) (depth : Nat) (v : Value) :
    (dumpLines s depth v : RenderM σ (List String)) = do
      let line ← dumpLine s depth v
      let below ← dumpAll s (depth + 1) v.children
      let side ← sideLines s depth v.referenced?
      return line :: maskLines depth v.payload ++ below ++ side := by
  rcases v with ⟨element, offset, len, order, payload, children⟩
  rw [dumpLines]
  rcases payload with _ | _ | _ | _ | ⟨pointer, target, _ | side⟩ | _
  case offset.some => simp only [referenced?, sideLines, bind_assoc, pure_bind]
  all_goals rfl

end Lines

end Value

/-! ## Instances and their frames -/

/-- A value without children and without a side tree is all of its tree. -/
theorem Value.Within.of_leaf {v w : Value} (within : Within w v) (childless : v.children = [])
    (alone : v.referenced? = none) : w = v := by
  cases within with
  | self => rfl
  | child member _ =>
    rw [childless] at member
    cases member
  | side referenced _ => cases alone.symm.trans referenced

namespace Decoder

open DecodeM

variable {σ : Type} [ByteSource σ] [SliceLike σ] {d : Decoder σ} {child : d.DecodeChild}
  {p : Place} {n : Node d.schema} {st st' : DecodeState σ} {v : Value}

/-- An instance was decoded to the value in a frame that ends with the data or before. -/
def Enclosed (d : Decoder σ) (dataStop : Nat) (v : Value) : Prop :=
  ∃ (p : Place) (n : Node d.schema), p.dataStop = dataStop ∧ p.limit ≤ dataStop ∧
    d.Decodes ⟨n, p, v⟩

/-- In every tree that an element decodes to within the data, so was every value. -/
def EnclosesAll (child : d.DecodeChild) : Prop :=
  ∀ {p : Place} {n : Node d.schema} {st : DecodeState σ} {v : Value} {st' : DecodeState σ},
    p.limit ≤ p.dataStop → Returns (child p n) st v st' →
      ∀ w, Value.Within w v → d.Enclosed p.dataStop w

theorem Fills.enclosed {vs : List Value} (h : Fills child p st vs st')
    (encloses : EnclosesAll child) (limit : p.limit ≤ p.dataStop) :
    ∀ v ∈ vs, ∀ w, Value.Within w v → d.Enclosed p.dataStop w := by
  induction h with
  | nil => exact List.forall_mem_nil _
  | rejected _ _ inductionHypothesis => exact inductionHypothesis limit
  | took attempt _ inductionHypothesis =>
    obtain ⟨-, decoded⟩ := attempt
    -- The values after it are decoded in the same frame.
    exact List.forall_mem_cons.mpr ⟨encloses limit decoded, inductionHypothesis limit⟩

/-- The frames inside a value are those of its side tree, which ends within the data, and of its
children, which end within the frame of the value. -/
theorem KindDecoded.enclosed (h : KindDecoded child p n st v st') (encloses : EnclosesAll child)
    (limit : p.limit ≤ p.dataStop) {w : Value} (within : Value.Within w v) :
    w = v ∨ d.Enclosed p.dataStop w := by
  cases h with
  | number _ decoded =>
    generalize st'.reading = after at decoded
    cases decoded <;> exact .inl (within.of_leaf rfl rfl)
  | whole _ decoded => exact .inl (within.of_leaf decoded.children decoded.side)
  | disabled => exact .inl (within.of_leaf rfl rfl)
  | offset _ decoded =>
    generalize st'.reading = after at decoded
    cases decoded with
    | read _ _ _ references =>
      cases references with
      | nothing => exact .inl (within.of_leaf rfl rfl)
      | @side target stop element _ _ _ _ _ region _ decoded =>
        cases within with
        | self => exact .inl rfl
        | child member _ => cases member
        | side referenced within =>
          cases referenced
          have ends : (sidePlace p element target stop).limit ≤ p.dataStop := region
          exact .inr (encloses ends decoded w within)
  | grammar _ _ _ _ _ _ decoded => exact .inr (encloses limit decoded w within)
  | container _ decoded =>
    generalize st'.reading = after at decoded
    cases decoded with
    | mk inner _ content _ =>
      cases within with
      | self => exact .inl rfl
      | child member within =>
        exact .inr (content.fills.enclosed encloses (Nat.le_trans inner limit) _ member w within)
      | side referenced _ => cases referenced

theorem decodeOne_encloses (depth : Nat) : EnclosesAll (d.decodeOne depth) := by
  induction depth with
  | zero =>
    intro p n st v st' _ h
    obtain ⟨rest, _, impossible, _⟩ := decodeOne_returns h
    cases impossible
  | succ depth inductionHypothesis =>
    intro p n st v st' limit h w within
    obtain ⟨rest, start, same, _, decoded⟩ := decodeOne_returns h
    obtain rfl : depth = rest := Nat.succ.inj same
    obtain rfl | enclosed := decoded.enclosed inductionHypothesis limit within
    · exact ⟨p, n, rfl, limit, depth + 1, st, st', h⟩
    · exact enclosed

/-! ## Runs of bytes and their frames -/

omit [SliceLike σ] in
theorem decodeString_payload (h : Returns (d.decodeString p n) st v st') :
    ∃ text matched, v.payload = .string text matched := by
  simp only [decodeString, returns_bind, returns_align, returns_resolved] at h
  obtain ⟨_, _, -, _, _, -, label, _, -, h⟩ := h
  cases known : d.encodings.ofLabel? label with
  | none =>
    rw [known] at h
    exact absurd h returns_fail
  | some encoding =>
    rw [known] at h
    simp only [returns_bind] at h
    obtain ⟨_, _, -, _, _, -, _, _, -, bytes, _, -, _, _, -, h⟩ := h
    cases readable : d.encodings.decode? encoding bytes with
    | none =>
      rw [readable] at h
      exact absurd h returns_fail
    | some chars =>
      rw [readable] at h
      simp only [returns_bind, returns_pure] at h
      obtain ⟨matched, _, -, _, _, -, rfl, -⟩ := h
      exact ⟨_, matched, rfl⟩

omit [SliceLike σ] in
theorem decodeScripted_payload {id : ElementId} (h : Returns (d.decodeScripted p n id) st v st') :
    ∃ text, v.payload = .custom text := by
  simp only [decodeScripted, returns_bind] at h
  obtain ⟨_, _, -, _, _, -, script, _, -, h⟩ := h
  cases body : script.kind with
  | script body =>
    simp only [body] at h
    unfold decodeByScript at h
    cases hosted : d.scripts with
    | none =>
      rw [hosted] at h
      exact absurd h returns_fail
    | some host =>
      rw [hosted] at h
      simp only [returns_bind, returns_guard_bind, returns_pure] at h
      obtain ⟨_, _, -, output, _, -, -, _, _, -, rfl, -⟩ := h
      exact ⟨output.text, rfl⟩
  | _ =>
    simp only [body] at h
    exact absurd h returns_fail

/-- A run of bytes ends within its frame, also if it has none. -/
theorem decodeBinary_fits (h : Returns (d.decodeBinary p n) st v st') :
    v.offset + v.len ≤ p.limit := by
  simp only [decodeBinary, returns_bind, returns_align, returns_resolved, declaredBytes_returns,
    returns_ite, returns_record, returns_pure] at h
  obtain ⟨_, _, rfl, start, told, tells, declared, _, ⟨-, rfl⟩, choices, _, ⟨-, rfl⟩, h⟩ := h
  obtain ⟨rfl, same⟩ := tell_returns tells
  -- The bytes are passed over, or read and compared with the listed ones.
  obtain ⟨-, _, _, skips, _, _, -, _, _, rfl, rfl, -⟩ | ⟨-, _, _, reads, _, _, rfl, rfl, -⟩ := h
  · have within := (skip_returns skips).1
    rw [same] at within
    exact within
  · have within := (matchBytes_advances reads).1
    rw [same] at within
    exact within

theorem decodeOne_container_payload {depth : Nat} (produces : n.kind.producesChildren = true)
    (h : Returns (d.decodeOne depth p n) st v st') : v.payload = .none := by
  obtain ⟨_, _, _, _, _, -, decoded⟩ := decodeOne_container produces h
  generalize st'.reading = after at decoded
  cases decoded
  rfl

theorem decodeGrammarRef_payload {offset depth : Nat}
    (h : Returns (d.decodeGrammarRef (d.decodeOne depth) p n offset) st v st') :
    v.payload = .none := by
  simp only [decodeGrammarRef, returns_bind, returns_ite, returns_pure] at h
  obtain ⟨_, _, -, ⟨-, rfl, -⟩ | ⟨-, target, _, -, h⟩⟩ := h
  · rfl
  cases target with
  | none => exact absurd h returns_fail
  | some target =>
    simp only [returns_bind] at h
    obtain ⟨grammar, _, -, h⟩ := h
    cases defines : grammar.kind with
    | grammar inner =>
      simp only [defines] at h
      exact decodeOne_container_payload (by rw [defines]; rfl) h
    | _ =>
      simp only [defines] at h
      exact absurd h returns_fail

/-- Whatever an element decodes to, a run of bytes ends within the frame of the instance. -/
theorem decodeOne_run_fits {depth : Nat} (h : Returns (d.decodeOne depth p n) st v st')
    {matched : Option String} (run : v.payload = .binary matched) :
    v.offset + v.len ≤ p.limit := by
  by_cases produces : n.kind.producesChildren = true
  · cases run.symm.trans (decodeOne_container_payload produces h)
  obtain ⟨rest, start, -, -, kinds⟩ := decodeOne_kinds h
  unfold decodeKind at kinds
  cases kind : n.kind with
  | binary body =>
    simp only [kind] at kinds
    exact decodeBinary_fits kinds
  | string body =>
    simp only [kind] at kinds
    obtain ⟨_, _, text⟩ := decodeString_payload kinds
    cases run.symm.trans text
  | script body =>
    simp only [kind] at kinds
    obtain ⟨_, text⟩ := decodeScripted_payload kinds
    cases run.symm.trans text
  | custom body =>
    simp only [kind, returns_bind] at kinds
    obtain ⟨script, _, -, kinds⟩ := kinds
    cases script with
    | none => exact absurd kinds returns_fail
    | some script =>
      obtain ⟨_, text⟩ := decodeScripted_payload kinds
      cases run.symm.trans text
  | number body =>
    simp only [kind] at kinds
    have decoded := decodeNumber_returns kinds
    generalize st'.reading = after at decoded
    cases decoded <;> cases run
  | offset body =>
    simp only [kind] at kinds
    have decoded := decodeOffset_returns kinds
    generalize st'.reading = after at decoded
    cases decoded
    cases run
  | grammarRef body =>
    simp only [kind] at kinds
    cases run.symm.trans (decodeGrammarRef_payload kinds)
  | grammar body | «structure» body | structRef body => exact absurd (by rw [kind]; rfl) produces

/-- Every run of bytes in a decoded tree lies within the data, wherever it was decoded. -/
theorem decodeElement_runs {element : ElementId} {source : σ} {warnings : List DecodeError}
    (ok : (d.decodeElement element source).result = .ok (v, warnings)) {w : Value}
    (within : Value.Within w v) {matched : Option String} (run : w.payload = .binary matched) :
    w.offset + w.len ≤ (SliceLike.slice source).data.size := by
  obtain ⟨n, start, after, -, -, decoded, -⟩ := decodeElement_returns ok
  obtain ⟨p, m, -, limit, depth, before, behind, returned⟩ :=
    decodeOne_encloses _ (Nat.le_refl _) decoded w within
  exact Nat.le_trans (decodeOne_run_fits returned run) limit

end Decoder

/-! ## Renderings over bytes in memory -/

/-- A rendering over bytes in memory gives something or fails by one of some cycles, and in either
case leaves the bytes and their cursor as they were. -/
inductive Settles {α : Type} (fails : CycleError → Prop) (bytes : Slice)
    (step : RenderM Slice α) : Prop
  | gives {a : α} (ended : step bytes = (.ok a, bytes)) : Settles fails bytes step
  | stumbles {cycle : CycleError} (one : fails cycle)
      (ended : step bytes = (.error (.cycle cycle), bytes)) : Settles fails bytes step

namespace Settles

variable {α β : Type} {fails more : CycleError → Prop} {bytes : Slice} {step : RenderM Slice α}
  {next : α → RenderM Slice β}

theorem pure (a : α) : Settles fails bytes (pure a) := .gives rfl

theorem bind (first : Settles fails bytes step) (rest : ∀ a, Settles fails bytes (next a)) :
    Settles fails bytes (step >>= next) := by
  cases first with
  | @gives a ended =>
    have same : (step >>= next) bytes = next a bytes := bind_of_ok ended
    cases rest a with
    | gives ended => exact .gives (same.trans ended)
    | stumbles one ended => exact .stumbles one (same.trans ended)
  | stumbles one ended => exact .stumbles one (bind_of_error ended)

theorem mono (h : Settles fails bytes step) (weaker : ∀ cycle, fails cycle → more cycle) :
    Settles more bytes step := by
  cases h with
  | gives ended => exact .gives ended
  | stumbles one ended => exact .stumbles (weaker _ one) ended

theorem resolved {result : Except CycleError α}
    (may : ∀ cycle, result = .error cycle → fails cycle) :
    Settles fails bytes (Value.resolved result) := by
  cases result with
  | ok a => exact .gives rfl
  | error cycle => exact .stumbles (may cycle rfl) rfl

theorem readAt {count offset : Nat} (inside : offset + count ≤ bytes.data.size) :
    Settles fails bytes (Value.readAt count offset) := by
  have all : bytes.bytesAt count offset = .ok (window bytes.data offset count) :=
    if_neg (Nat.not_lt.mpr inside)
  have read : (ByteSource.readExactAt count offset : SourceM Slice (List UInt8)) bytes =
      (.ok (window bytes.data offset count), bytes) := by
    change (do liftExcept (bytes.bytesAt count offset) : SourceM Slice (List UInt8)) bytes = _
    rw [all]
    rfl
  refine .gives (a := window bytes.data offset count) ?_
  unfold Value.readAt
  rw [read]

end Settles

namespace Value

variable {bytes : Slice} {s : Schema}

/-- The radix of a value cannot be looked up. -/
def RadixCycles (s : Schema) (cycle : CycleError) (v : Value) : Prop :=
  ∃ node, s.node? v.element = some node ∧ node.radix = .error cycle

/-- The name that a dump shows of a value, or its radix, cannot be looked up. -/
def LookupCycles (s : Schema) (cycle : CycleError) (v : Value) : Prop :=
  ∃ node, s.node? v.element = some node ∧
    (node.name = .error cycle ∨ node.radix = .error cycle)

theorem RadixCycles.lookup {cycle : CycleError} {v : Value} (h : RadixCycles s cycle v) :
    LookupCycles s cycle v := by
  obtain ⟨node, found, radix⟩ := h
  exact ⟨node, found, .inr radix⟩

/-- A run of bytes, if the value is one, lies within the bytes. -/
def Readable (bytes : Slice) (v : Value) : Prop :=
  ∀ matched, v.payload = .binary matched → v.offset + v.len ≤ bytes.data.size

theorem radix_settles (v : Value) :
    Settles (RadixCycles s · v) bytes (resolved (v.radix s)) := by
  refine .resolved fun cycle fails => ?_
  unfold radix at fails
  cases found : s.node? v.element with
  | none =>
    rw [found] at fails
    cases fails
  | some node =>
    rw [found] at fails
    exact ⟨node, found, fails⟩

theorem dumpName_settles (v : Value) :
    Settles (LookupCycles s · v) bytes (resolved (v.dumpName s)) := by
  refine .resolved fun cycle fails => ?_
  unfold dumpName at fails
  cases found : s.node? v.element with
  | none =>
    rw [found] at fails
    cases fails
  | some node =>
    rw [found] at fails
    cases name : node.name with
    | ok name =>
      simp only [name] at fails
      cases fails
    | error cycle =>
      simp only [name] at fails
      cases fails
      exact ⟨node, found, .inl name⟩

theorem preview_settles {fails : CycleError → Prop} {v : Value}
    (inside : v.offset + v.len ≤ bytes.data.size) : Settles fails bytes v.preview := by
  unfold preview
  -- No more is read than the run is long.
  have shorter : min v.len previewLength ≤ v.len := Nat.min_le_left _ _
  exact .bind (.readAt (by omega)) fun _ => .pure _

theorem format_settles {v : Value} (readable : Readable bytes v) :
    Settles (RadixCycles s · v) bytes (v.format s) := by
  unfold format
  refine .bind (radix_settles v) fun radix => ?_
  cases payload : v.payload with
  | none | string | custom => exact .pure _
  | number _ matched => cases matched <;> exact .pure _
  | offset _ target => cases target <;> exact .pure _
  | binary matched =>
    cases matched with
    | some name => exact .pure _
    | none => exact preview_settles (readable _ payload)

theorem dumpLine_settles {v : Value} (readable : Readable bytes v) (depth : Nat) :
    Settles (LookupCycles s · v) bytes (dumpLine s depth v) := by
  unfold dumpLine
  refine .bind (dumpName_settles v) fun name => ?_
  exact .bind ((format_settles readable).mono fun _ => RadixCycles.lookup) fun content => .pure _

theorem dumpAll_settles {fails : CycleError → Prop} {vs : List Value} {depth : Nat}
    (each : ∀ v ∈ vs, Settles fails bytes (dumpLines s depth v)) :
    Settles fails bytes (dumpAll s depth vs) := by
  induction vs with
  | nil => exact .pure _
  | cons v vs inductionHypothesis =>
    obtain ⟨first, others⟩ := List.forall_mem_cons.mp each
    rw [dumpAll]
    exact .bind first fun _ => .bind (inductionHypothesis others) fun _ => .pure _

/-- The lines of a tree depend on the lookups of its values alone, once its runs of bytes are
there. -/
theorem dumpLines_settles {v : Value} (readable : ∀ w, Within w v → Readable bytes w)
    (depth : Nat) :
    Settles (fun cycle => ∃ w, Within w v ∧ LookupCycles s cycle w) bytes
      (dumpLines s depth v) := by
  induction v using tree_induction generalizing depth with
  | step v children side =>
    rw [dumpLines_eq]
    have own : Settles (fun cycle => ∃ w, Within w v ∧ LookupCycles s cycle w) bytes
        (dumpLine s depth v) :=
      (dumpLine_settles (readable v .self) depth).mono fun _ fails => ⟨v, .self, fails⟩
    refine own.bind fun line => .bind (dumpAll_settles fun c member => ?_) fun below =>
      .bind ?_ fun _ => .pure _
    · refine (children c member (fun w within => readable w (.child member within)) _).mono ?_
      rintro _ ⟨w, within, fails⟩
      exact ⟨w, .child member within, fails⟩
    · cases referenced : v.referenced? with
      | none => exact .pure _
      | some c =>
        refine .bind (.mono (side c referenced
          (fun w within => readable w (.side referenced within)) _) ?_) fun _ => .pure _
        rintro _ ⟨w, within, fails⟩
        exact ⟨w, .side referenced within, fails⟩

theorem dump_settles {v : Value} (readable : ∀ w, Within w v → Readable bytes w) :
    Settles (fun cycle => ∃ w, Within w v ∧ LookupCycles s cycle w) bytes (v.dump s) :=
  .bind (dumpLines_settles readable 0) fun _ => .pure _

end Value

/-- Every decoded tree can be rendered over the bytes that it was decoded from, wherever the cursor
is: a dump of the tree, and the content of every value in it, come out or fail by a lookup that
runs into a cycle. They never lack bytes, and leave the cursor where it was. -/
theorem Decoder.decoded_trees_render {σ : Type} [ByteSource σ] [SliceLike σ] (d : Decoder σ)
    (element : ElementId) (source : σ) (v : Value) (warnings : List DecodeError)
    (ok : (d.decodeElement element source).result = .ok (v, warnings)) (bytes : Slice)
    (same : bytes.data = (SliceLike.slice source).data) :
    Settles (fun cycle => ∃ w, Value.Within w v ∧ Value.LookupCycles d.schema cycle w) bytes
        (v.dump d.schema) ∧
      ∀ w, Value.Within w v →
        Settles (Value.RadixCycles d.schema · w) bytes (w.format d.schema) := by
  have readable : ∀ w, Value.Within w v → Value.Readable bytes w := by
    intro w within matched run
    rw [same]
    exact decodeElement_runs ok within run
  exact ⟨Value.dump_settles readable, fun w within => Value.format_settles (readable w within)⟩

/-- A pointer to a run of bytes at the end of the data, a structure of two bytes with a run of its
own, and a run of what is left after it, which is nothing. -/
def pieces : Decoder Slice where
  schema :=
    { elements := #[
        ⟨{}, .structure { children := [⟨1⟩, ⟨2⟩, ⟨3⟩] }⟩,
        ⟨{}, .offset { extent := { length := some (.literal 1) }, references := some ⟨3⟩ }⟩,
        ⟨{}, .structure { children := [⟨3⟩], extent := { length := some (.literal 2) } }⟩,
        ⟨{}, .binary {}⟩]
      root := ⟨0⟩ }
  options := { maxDepth := 3, maxRepeat := 1 }

def piecesBytes : Slice := ⟨#[2, 0xaa, 0xbb], 0⟩

def piecesValue : Value :=
  let run (offset len : Nat) : Value := ⟨⟨3⟩, offset, len, none, .binary none, []⟩
  ⟨⟨0⟩, 0, 3, none, .none,
    [⟨⟨1⟩, 0, 1, some .little, .offset 2 (some 2) (some (run 2 1)), []⟩,
      ⟨⟨2⟩, 1, 2, none, .none, [run 1 2]⟩, run 3 0]⟩

set_option maxRecDepth 8000 in
theorem decoded_trees_render_pieces :
    (pieces.decodeElement ⟨0⟩ piecesBytes).result = .ok (piecesValue, []) ∧
      Settles (fun cycle => ∃ w, Value.Within w piecesValue ∧
          Value.LookupCycles pieces.schema cycle w) { piecesBytes with cursor := 7 }
        (piecesValue.dump pieces.schema) ∧
      ∀ w, Value.Within w piecesValue →
        Settles (Value.RadixCycles pieces.schema · w) { piecesBytes with cursor := 7 }
          (w.format pieces.schema) := by
  have decodes : (pieces.decodeElement ⟨0⟩ piecesBytes).result = .ok (piecesValue, []) := by cbv
  exact ⟨decodes, Decoder.decoded_trees_render pieces ⟨0⟩ piecesBytes piecesValue [] decodes
    { piecesBytes with cursor := 7 } rfl⟩

end BinaryTemplate
