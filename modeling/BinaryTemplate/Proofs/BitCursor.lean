import BinaryTemplate.Proofs.BitStream
import BinaryTemplate.Proofs.Container
import BinaryTemplate.Proofs.Independence
import BinaryTemplate.Proofs.Tiling

/-!
# One bit cursor

A decode packs its bit fields as if there were a single cursor that counts bits. A bit field takes
the next bits of the data from there, whatever byte they are in; everything that takes whole bytes,
and every container on entering and on leaving it, rounds the cursor up to a byte first. The
relation `Laid` is this reference: it places a value tree over the bits of the data and knows
nothing of cached bits. Every decode refines it.
-/

namespace BinaryTemplate

open Bits (byteAt slice)

namespace Decoder

open DecodeM

/-! ## The reference -/

/-- The pattern of the next `width` bits at a position of the stream. It records where they are, and
its bytes are those between the two ends, both rounded up. -/
def bitPattern (data : Array UInt8) (width pos : Nat) : RawNumber :=
  ⟨Bits.toNat (slice data pos width), byteAt pos, byteAt (pos + width) - byteAt pos,
    some ⟨pos, width⟩, width⟩

/-- The pattern of the next `width` bits at a position of the stream if they are whole bytes, which
they only are when the position is rounded up first. -/
def bytePattern (data : Array UInt8) (order : ByteOrder) (width pos : Nat) : RawNumber :=
  ⟨Bytes.toNatIn order (window data (byteAt pos) (width / 8)), byteAt pos, width / 8, none, width⟩

/-- A pattern of `width` bits at a position of the stream, and the position behind it. -/
inductive RawAt (data : Array UInt8) (order : ByteOrder) (width pos : Nat) :
    LengthUnit → RawNumber → Nat → Prop
  | bits (present : pos + width ≤ 8 * data.size) :
      RawAt data order width pos .bit (bitPattern data width pos) (pos + width)
  | bytes (present : byteAt pos + width / 8 ≤ data.size) :
      RawAt data order width pos .byte (bytePattern data order width pos)
        (8 * (byteAt pos + width / 8))

variable {σ : Type}

mutual

/-- A value of an element is laid over the data from a position to another. -/
inductive Laid (d : Decoder σ) (data : Array UInt8) :
    Place → Node d.schema → Nat → Value → Nat → Prop
  | number {p : Place} {n : Node d.schema} {pos next width : Nat} {body : NumberBody}
      {kind : NumberKind} {order : ByteOrder} {unit : LengthUnit} {r : RawNumber}
      {value : NumberValue} {matched : Option String} {masks : List MaskValue}
      (isNumber : n.kind = .number body) (plain : n.lookup .valueExpression = .ok none)
      (ofKind : n.numberKind = .ok kind) (ordered : n.byteOrder = .ok order)
      (wide : d.HasWidth p n unit width) (raw : RawAt data order width pos unit r next)
      (means : Interprets r kind value) :
      Laid d data p n pos
        ⟨n.id, r.offset, r.len, some order, .number value matched masks r.bits, []⟩ next
  | computed {p : Place} {n : Node d.schema} {pos : Nat} {body : NumberBody}
      {expression : Reference} {order : ByteOrder} {value : NumberValue} {matched : Option String}
      {masks : List MaskValue} (isNumber : n.kind = .number body)
      (given : n.lookup .valueExpression = .ok (some expression))
      (undeclared : d.Declares p n none) :
      Laid d data p n pos
        ⟨n.id, byteAt pos, 0, some order, .number value matched masks none, []⟩ pos
  | skipped {p : Place} {n : Node d.schema} {pos len : Nat} {body : NumberBody}
      {expression : Reference} {order : ByteOrder} {value : NumberValue} {matched : Option String}
      {masks : List MaskValue} (isNumber : n.kind = .number body)
      (given : n.lookup .valueExpression = .ok (some expression))
      (declared : d.Declares p n (some len)) :
      Laid d data p n pos
        ⟨n.id, byteAt pos, len, some order, .number value matched masks none, []⟩
        (8 * (byteAt pos + len))
  | whole {p : Place} {n : Node d.schema} {pos : Nat} {v : Value}
      (bytes : TakesBytes n.kind) (element : v.element = n.id) (offset : v.offset = byteAt pos)
      (children : v.children = []) (side : v.referenced? = none) (number : v.number? = none) :
      Laid d data p n pos v (8 * (byteAt pos + v.len))
  | offset {p : Place} {n : Node d.schema} {pos next width : Nat} {body : OffsetBody}
      {order : ByteOrder} {unit : LengthUnit} {r : RawNumber} {target : Option Nat}
      {side : Option Value} (isOffset : n.kind = .offset body) (ordered : n.byteOrder = .ok order)
      (wide : d.HasWidth p n unit width) (raw : RawAt data order width pos unit r next)
      (referenced : SideLaid d data target side) :
      Laid d data p n pos
        ⟨n.id, r.offset, r.len, some order, .offset (UInt64.ofNat r.raw) target side, []⟩ next
  | disabled {p : Place} {n : Node d.schema} {pos : Nat} {body : GrammarRefBody}
      (isRef : n.kind = .grammarRef body) (off : n.disabled = .ok true) :
      Laid d data p n pos (Value.empty n.id (byteAt pos) 0) pos
  | grammar {p : Place} {n grammar : Node d.schema} {pos next : Nat} {body : GrammarRefBody}
      {inner : GrammarBody} {target : ElementId} {v : Value} (isRef : n.kind = .grammarRef body)
      (on : n.disabled = .ok false) (named : n.lookup .grammar = .ok (some target))
      (found : d.schema.node? target = some grammar) (defines : grammar.kind = .grammar inner)
      (laid : Laid d data p grammar pos v next) : Laid d data p n pos v next
  | container {p : Place} {n : Node d.schema} {pos stop : Nat} {definition : Option ElementId}
      {ids : List ElementId} {order : ChildOrder} {declared : Option Nat} {vs : List Value}
      (contains : Contains n definition ids order)
      (laid : LaidAll d data (inside p n definition (byteAt pos) declared) (8 * byteAt pos) vs
        stop) :
      Laid d data p n pos ⟨n.id, byteAt pos, byteAt stop - byteAt pos, none, .none, vs⟩
        (8 * byteAt stop)

/-- Values are laid one after the other. -/
inductive LaidAll (d : Decoder σ) (data : Array UInt8) :
    Place → Nat → List Value → Nat → Prop
  | nil {p : Place} {pos : Nat} : LaidAll d data p pos [] pos
  | cons {p : Place} {n : Node d.schema} {pos mid next : Nat} {v : Value} {vs : List Value}
      (first : Laid d data p n pos v mid) (rest : LaidAll d data (p.complete v) mid vs next) :
      LaidAll d data p pos (v :: vs) next

/-- A side tree is laid from the first bit of the byte that is pointed to. -/
inductive SideLaid (d : Decoder σ) (data : Array UInt8) :
    Option Nat → Option Value → Prop
  | nothing {target : Option Nat} : SideLaid d data target none
  | side {p : Place} {n : Node d.schema} {address next : Nat} {v : Value}
      (laid : Laid d data p n (8 * address) v next) : SideLaid d data (some address) (some v)

end

/-! ## The refinement -/

variable [ByteSource σ] [SliceLike σ] {d : Decoder σ} {child : d.DecodeChild} {p : Place}
  {n : Node d.schema} {st st' : DecodeState σ} {pos : Nat}

/-- A step from a reading at a position lays a value over the data, which it keeps, and leaves the
reading at the position behind the value. -/
def LaysAt (d : Decoder σ) (p : Place) (n : Node d.schema) (before : Reading) (pos : Nat)
    (v : Value) (after : Reading) : Prop :=
  ∃ next, Laid d before.data p n pos v next ∧ after.data = before.data ∧ after.At next

/-- Every value that an element decodes to is laid over the data. -/
def LaysAll (child : d.DecodeChild) : Prop :=
  ∀ {p : Place} {n : Node d.schema} {st : DecodeState σ} {v : Value} {st' : DecodeState σ}
    {pos : Nat}, st.reading.At pos → Returns (child p n) st v st' →
    LaysAt d p n st.reading pos v st'.reading

omit [ByteSource σ] [SliceLike σ] in
theorem RawRead.laid {limit width : Nat} {order : ByteOrder} {unit : LengthUnit}
    {before after : Reading} {r : RawNumber} (h : RawRead limit order width before unit r after)
    (at_ : before.At pos) (some : 0 < width) :
    ∃ next, RawAt before.data order width pos unit r next ∧ after.data = before.data ∧
      after.At next := by
  cases h with
  | bits holds =>
    -- The bytes that are newly read are those between the two positions, rounded up.
    obtain ⟨read, moved, present⟩ := at_.afterBits some holds
    have behind : before.cursor + before.bytesFor width = byteAt (pos + width) := moved.cursor
    have taken : before.bytesFor width = byteAt (pos + width) - byteAt pos := by
      rw [← behind, ← at_.cursor]
      omega
    refine ⟨pos + width, ?_, rfl, moved⟩
    rw [read, at_.nextBit, taken, at_.cursor]
    exact .bits present
  | bytes holds =>
    have present := holds.2
    rw [at_.cursor] at present ⊢
    exact ⟨_, .bytes present, rfl, at_.afterBytes _⟩

omit [ByteSource σ] [SliceLike σ] in
theorem HasWidth.positive {unit : LengthUnit} {width : Nat} (h : d.HasWidth p n unit width) :
    0 < width := by
  obtain ⟨_, _, _, _, _, _, positive, _⟩ := h
  exact positive

omit [ByteSource σ] [SliceLike σ] in
theorem NumberDecoded.laid {body : NumberBody} {v : Value} {before after : Reading}
    (h : NumberDecoded d p n before v after) (kind : n.kind = .number body) (at_ : before.At pos) :
    LaysAt d p n before pos v after := by
  cases h with
  | read plain ofKind ordered wide raw means =>
    obtain ⟨next, raw, kept, reached⟩ := raw.laid at_ wide.positive
    exact ⟨next, .number kind plain ofKind ordered wide raw means, kept, reached⟩
  | computed given undeclared =>
    rw [at_.cursor]
    exact ⟨pos, .computed kind given undeclared, rfl, at_⟩
  | skipped given declared =>
    rw [at_.cursor]
    exact ⟨_, .skipped kind given declared, rfl, at_.afterBytes _⟩

omit [ByteSource σ] [SliceLike σ] in
theorem WholeDecoded.laid {v : Value} {before after : Reading}
    (h : WholeDecoded d p n before v after) (bytes : TakesBytes n.kind)
    (kept : after.data = before.data) (at_ : before.At pos) : LaysAt d p n before pos v after := by
  have offset : v.offset = byteAt pos := h.offset.trans at_.cursor
  refine ⟨_, .whole bytes h.element offset h.children h.side h.number, kept, ?_⟩
  -- Nothing else is left of the reading than the bytes that it has passed.
  have reached : after = before.afterBytes v.len := by
    obtain ⟨data, cursor, pending⟩ := after
    obtain rfl : data = before.data := kept
    obtain rfl : cursor = before.cursor + v.len := h.cursor
    obtain rfl : pending = [] := h.aligned
    rfl
  rw [reached]
  exact at_.afterBytes _

theorem OffsetDecoded.laid {body : OffsetBody} {v : Value} {before after : Reading}
    (h : OffsetDecoded child p n before v after) (lays : LaysAll child)
    (kind : n.kind = .offset body) (kept : after.data = before.data) (at_ : before.At pos) :
    LaysAt d p n before pos v after := by
  cases h with
  | read ordered wide raw references =>
    obtain ⟨next, pointer, same, reached⟩ := raw.laid at_ wide.positive
    cases references with
    | nothing => exact ⟨next, .offset kind ordered wide pointer .nothing, kept, reached⟩
    | @side target stop element referenced side st st' position within begins decoded =>
      -- The side tree has a cursor of its own; the one behind the pointer is not touched.
      have start : st.reading.At (8 * target) := by
        rw [begins]
        exact Reading.at_of_aligned rfl
      obtain ⟨_, laid, -, -⟩ := lays start decoded
      rw [begins] at laid
      dsimp only at laid kept
      rw [same] at laid
      refine ⟨next, .offset kind ordered wide pointer (.side laid), kept, ?_⟩
      rw [kept, ← same]
      exact reached

/-- Values that fill a container are laid one after the other; what failed attempts have read is
read again. -/
theorem Fills.laid {vs : List Value} (h : Fills child p st vs st') (lays : LaysAll child)
    (keeps : FailuresKeepData child) (at_ : st.reading.At pos) :
    ∃ next, LaidAll d st.reading.data p pos vs next ∧ st'.reading.data = st.reading.data ∧
      st'.reading.At next := by
  induction h generalizing pos with
  | nil resumes =>
    rw [resumes.reading]
    exact ⟨pos, .nil, rfl, at_⟩
  | rejected attempt _ inductionHypothesis =>
    cases attempt with
    | mk resumes failure _ rewound =>
      have back := rewound.reading
      -- The bits of a rejected attempt are laid again by the next one, from the same position.
      rw [keeps failure, resumes.reading] at back
      rw [back] at inductionHypothesis
      exact inductionHypothesis at_
  | took attempt _ inductionHypothesis =>
    cases attempt with
    | mk resumes decoded =>
      obtain ⟨mid, laid, kept, reached⟩ := lays (resumes.reading ▸ at_) decoded
      rw [resumes.reading] at laid kept
      obtain ⟨next, rest, same, final⟩ := inductionHypothesis reached
      rw [kept] at rest same
      exact ⟨next, .cons laid rest, same, final⟩

theorem ContainerDecoded.laid {definition : Option ElementId} {ids : List ElementId}
    {order : ChildOrder} {declared : Option Nat} {v : Value} {before after : Reading}
    (h : ContainerDecoded child p n definition ids order declared before v after)
    (lays : LaysAll child) (keeps : FailuresKeepData child)
    (contains : Contains n definition ids order) (at_ : before.At pos) :
    LaysAt d p n before pos v after := by
  cases h with
  | mk within opens content _ =>
    -- A container rounds up on entering and on leaving, which is letting go of unread bits.
    have entered := at_.afterBytes 0
    rw [← opens, Nat.add_zero] at entered
    obtain ⟨stop, laid, kept, reached⟩ := content.fills.laid lays keeps entered
    have left := reached.afterBytes 0
    rw [Nat.add_zero] at left
    have data := congrArg Reading.data opens
    change _ = before.data at data
    rw [data] at laid kept
    rw [at_.cursor] at laid
    rw [reached.cursor, at_.cursor]
    exact ⟨_, .container contains laid, kept, left⟩

theorem KindDecoded.laid {v : Value} (h : KindDecoded child p n st v st') (lays : LaysAll child)
    (keeps : FailuresKeepData child) (kept : st'.reading.data = st.reading.data)
    (at_ : st.reading.At pos) : LaysAt d p n st.reading pos v st'.reading := by
  cases h with
  | number kind decoded => exact decoded.laid kind at_
  | whole bytes decoded => exact decoded.laid bytes kept at_
  | offset kind decoded => exact decoded.laid lays kind kept at_
  | disabled kind off still =>
    rw [still, at_.cursor]
    exact ⟨pos, .disabled kind off, rfl, at_⟩
  | grammar kind on named found defines resumes decoded =>
    rw [← resumes.reading] at at_ ⊢
    obtain ⟨next, laid, kept, reached⟩ := lays at_ decoded
    exact ⟨next, .grammar kind on named found defines laid, kept, reached⟩
  | container contains decoded => exact decoded.laid lays keeps contains at_

/-- Every decode of an instance refines the bit cursor. -/
theorem decodeOne_lays (scripts : d.ScriptsOnlyRead) (depth : Nat) :
    LaysAll (d.decodeOne depth) := by
  induction depth with
  | zero =>
    intro p n st v st' pos _ h
    obtain ⟨rest, _, impossible, _⟩ := decodeOne_returns h
    cases impossible
  | succ depth inductionHypothesis =>
    intro p n st v st' pos at_ h
    have kept := decodeOne_returns_data scripts h
    obtain ⟨rest, begun, same, resumes, decoded⟩ := decodeOne_returns h
    obtain rfl : depth = rest := Nat.succ.inj same
    rw [← resumes.reading] at at_ kept ⊢
    exact decoded.laid inductionHypothesis (decodeOne_throws_data scripts _) kept at_

end Decoder

/-! ## The bit fields of a tree -/

namespace Value

mutual

/-- Where the bit fields of a tree lie, in order, side trees left out. -/
def spans : Value → List BitSpan
  | ⟨_, _, _, _, payload, children⟩ =>
    (match payload with
      | .number _ _ _ bits => bits.toList
      | _ => []) ++ spansIn children

/-- Where the bit fields of several trees lie. -/
def spansIn : List Value → List BitSpan
  | [] => []
  | v :: vs => spans v ++ spansIn vs

end

/-- Bit fields follow one another between two positions, none of them overlapping the next. -/
def InOrder : Nat → List BitSpan → Nat → Prop
  | start, [], stop => start ≤ stop
  | start, s :: rest, stop => start ≤ s.firstBit ∧ InOrder (s.firstBit + s.bits) rest stop

theorem InOrder.weaken {first start stop last : Nat} {ss : List BitSpan}
    (h : InOrder start ss stop) (lower : first ≤ start) (upper : stop ≤ last) :
    InOrder first ss last := by
  induction ss generalizing first start with
  | nil => exact Nat.le_trans lower (Nat.le_trans h upper)
  | cons s rest inductionHypothesis =>
    exact ⟨Nat.le_trans lower h.1, inductionHypothesis h.2 (Nat.le_refl _)⟩

theorem InOrder.append {start mid stop : Nat} {ss ss' : List BitSpan}
    (first : InOrder start ss mid) (second : InOrder mid ss' stop) :
    InOrder start (ss ++ ss') stop := by
  induction ss generalizing start with
  | nil => exact second.weaken first (Nat.le_refl _)
  | cons s rest inductionHypothesis => exact ⟨first.1, inductionHypothesis first.2⟩

theorem InOrder.le {start stop : Nat} {ss : List BitSpan} (h : InOrder start ss stop) :
    start ≤ stop := by
  induction ss generalizing start with
  | nil => exact h
  | cons s rest inductionHypothesis =>
    have further := inductionHypothesis h.2
    have first := h.1
    omega

/-- The bit fields inside a value do not overlap and do not leave its bytes. -/
structure SpansInside (v : Value) : Prop where
  disjoint : (spansIn v.children).Pairwise fun a b => a.firstBit + a.bits ≤ b.firstBit
  inside : ∀ s ∈ spansIn v.children,
    8 * v.offset ≤ s.firstBit ∧ s.firstBit + s.bits ≤ 8 * (v.offset + v.len)

theorem InOrder.inside {start stop : Nat} {ss : List BitSpan} (h : InOrder start ss stop) :
    ∀ s ∈ ss, start ≤ s.firstBit ∧ s.firstBit + s.bits ≤ stop := by
  induction ss generalizing start with
  | nil => exact nofun
  | cons first rest inductionHypothesis =>
    intro s member
    cases member with
    | head => exact ⟨h.1, h.2.le⟩
    | tail _ member =>
      obtain ⟨lower, upper⟩ := inductionHypothesis h.2 s member
      have begins := h.1
      exact ⟨by omega, upper⟩

theorem InOrder.disjoint {start stop : Nat} {ss : List BitSpan} (h : InOrder start ss stop) :
    ss.Pairwise fun a b => a.firstBit + a.bits ≤ b.firstBit := by
  induction ss generalizing start with
  | nil => exact .nil
  | cons first rest inductionHypothesis =>
    refine .cons ?_ (inductionHypothesis h.2)
    intro s member
    exact (h.2.inside s member).1

end Value

namespace Decoder

variable {σ : Type} {d : Decoder σ} {data : Array UInt8} {p : Place} {n : Node d.schema}
  {pos next : Nat}

theorem le_byteAt (pos : Nat) : pos ≤ 8 * byteAt pos := by
  unfold byteAt
  omega

theorem RawAt.inOrder {order : ByteOrder} {width : Nat} {unit : LengthUnit} {r : RawNumber}
    (h : RawAt data order width pos unit r next) : Value.InOrder pos r.bits.toList next := by
  cases h with
  | bits => exact ⟨Nat.le_refl _, Nat.le_refl _⟩
  | bytes =>
    have up := le_byteAt pos
    show pos ≤ _
    omega

theorem spans_of_leaf {v : Value} (children : v.children = []) (number : v.number? = none) :
    v.spans = [] := by
  obtain ⟨element, offset, len, order, payload, _⟩ := v
  subst children
  cases payload with
  | number => cases number
  | _ => rfl

mutual

/-- The bit fields of a value that is laid from a position to another lie between them. -/
theorem Laid.inOrder {p : Place} {n : Node d.schema} {pos next : Nat} {v : Value}
    (h : Laid d data p n pos v next) : Value.InOrder pos v.spans next := by
  match h with
  | .number _ _ _ _ _ raw _ =>
    simp only [Value.spans, Value.spansIn, List.append_nil]
    exact raw.inOrder
  | .computed _ _ _ => exact Nat.le_refl _
  | .skipped _ _ _ =>
    have up := le_byteAt pos
    show pos ≤ _
    omega
  | .whole _ _ _ children _ number =>
    rw [spans_of_leaf children number]
    have up := le_byteAt pos
    show pos ≤ _
    omega
  | .offset _ _ _ raw _ => exact raw.inOrder.le
  | .disabled _ _ => exact Nat.le_refl _
  | .grammar _ _ _ _ _ laid => exact laid.inOrder
  | .container _ laid => exact laid.inOrder.weaken (le_byteAt _) (le_byteAt _)

theorem LaidAll.inOrder {p : Place} {pos next : Nat} {vs : List Value}
    (h : LaidAll d data p pos vs next) : Value.InOrder pos (Value.spansIn vs) next := by
  match h with
  | .nil => exact Nat.le_refl _
  | .cons first rest => exact first.inOrder.append rest.inOrder

end

theorem LaidAll.member {vs : List Value} (h : LaidAll d data p pos vs next) {v : Value}
    (member : v ∈ vs) : ∃ q m start stop, Laid d data q m start v stop := by
  induction vs generalizing p pos with
  | nil => cases member
  | cons first vs inductionHypothesis =>
    cases h with
    | cons laid rest =>
      cases member with
      | head => exact ⟨_, _, _, _, laid⟩
      | tail _ member => exact inductionHypothesis rest member

/-- The children of a value that is laid are laid. -/
theorem Laid.child {p : Place} {n : Node d.schema} {pos next : Nat} {v c : Value}
    (h : Laid d data p n pos v next) (member : c ∈ v.children) :
    ∃ q m start stop, Laid d data q m start c stop := by
  match h with
  | .number .. | .computed .. | .skipped .. | .offset .. | .disabled .. => cases member
  | .whole _ _ _ children _ _ =>
    rw [children] at member
    cases member
  | .grammar _ _ _ _ _ laid => exact laid.child member
  | .container _ laid => exact laid.member member

/-- The side tree of a value that is laid is laid. -/
theorem Laid.side {p : Place} {n : Node d.schema} {pos next : Nat} {v c : Value}
    (h : Laid d data p n pos v next) (referenced : v.referenced? = some c) :
    ∃ q m start stop, Laid d data q m start c stop := by
  match h with
  | .number .. | .computed .. | .skipped .. | .disabled .. | .container .. => cases referenced
  | .whole _ _ _ _ side _ => exact absurd (side.symm.trans referenced) nofun
  | .grammar _ _ _ _ _ laid => exact laid.side referenced
  | .offset _ _ _ _ sides =>
    change _ = some c at referenced
    cases sides with
    | nothing => cases referenced
    | side laid =>
      cases referenced
      exact ⟨_, _, _, _, laid⟩

/-- Everything in a tree that is laid is laid. -/
theorem Laid.within {v w : Value} (within : w.Within v) {p : Place} {n : Node d.schema}
    {pos next : Nat} (h : Laid d data p n pos v next) :
    ∃ q m start stop, Laid d data q m start w stop := by
  induction within generalizing p n pos next with
  | self => exact ⟨p, n, pos, next, h⟩
  | child member _ inductionHypothesis =>
    obtain ⟨_, _, _, _, laid⟩ := h.child member
    exact inductionHypothesis laid
  | side referenced _ inductionHypothesis =>
    obtain ⟨_, _, _, _, laid⟩ := h.side referenced
    exact inductionHypothesis laid

theorem Laid.spansInside {p : Place} {n : Node d.schema} {pos next : Nat} {v : Value}
    (h : Laid d data p n pos v next) : v.SpansInside := by
  -- Only containers have bit fields inside them.
  have childless : ∀ {w : Value}, w.children = [] → w.SpansInside := by
    intro w none
    refine ⟨?_, ?_⟩ <;> rw [none]
    · exact .nil
    · exact nofun
  match h with
  | .number .. | .computed .. | .skipped .. | .offset .. | .disabled .. => exact childless rfl
  | .whole _ _ _ children _ _ => exact childless children
  | .grammar _ _ _ _ _ laid => exact laid.spansInside
  | .container _ laid =>
    -- The bytes of a container reach from its first position to the last one, rounded up.
    have ordered := laid.inOrder.weaken (Nat.le_refl _) (le_byteAt _)
    have forward := ordered.le
    refine ⟨ordered.disjoint, ?_⟩
    intro s member
    obtain ⟨lower, upper⟩ := ordered.inside s member
    dsimp only
    omega

/-- What a number that is read is laid as. In bits it is the slice at the position, behind which the
cursor is left; in whole bytes the position is rounded up first. -/
inductive NumberAt (d : Decoder σ) (data : Array UInt8) (p : Place) (n : Node d.schema)
    (pos : Nat) : Value → Nat → Prop
  | bits {width : Nat} {kind : NumberKind} {order : ByteOrder} {value : NumberValue}
      {matched : Option String} {masks : List MaskValue} (wide : d.HasWidth p n .bit width)
      (present : pos + width ≤ 8 * data.size) (ofKind : n.numberKind = .ok kind)
      (ordered : n.byteOrder = .ok order)
      (means : Interprets (bitPattern data width pos) kind value) :
      NumberAt d data p n pos
        ⟨n.id, byteAt pos, byteAt (pos + width) - byteAt pos, some order,
          .number value matched masks (some ⟨pos, width⟩), []⟩
        (pos + width)
  | bytes {width : Nat} {kind : NumberKind} {order : ByteOrder} {value : NumberValue}
      {matched : Option String} {masks : List MaskValue} (wide : d.HasWidth p n .byte width)
      (present : byteAt pos + width / 8 ≤ data.size) (ofKind : n.numberKind = .ok kind)
      (ordered : n.byteOrder = .ok order)
      (means : Interprets (bytePattern data order width pos) kind value) :
      NumberAt d data p n pos
        ⟨n.id, byteAt pos, width / 8, some order, .number value matched masks none, []⟩
        (8 * (byteAt pos + width / 8))

/-- A number that is not computed can be laid in no other way. -/
theorem Laid.numberAt {body : NumberBody} {v : Value} (h : Laid d data p n pos v next)
    (isNumber : n.kind = .number body) (plain : n.lookup .valueExpression = .ok none) :
    NumberAt d data p n pos v next := by
  cases h with
  | number _ _ ofKind ordered wide raw means =>
    cases raw with
    | bits present => exact .bits wide present ofKind ordered means
    | bytes present => exact .bytes wide present ofKind ordered means
  | computed _ given | skipped _ given => cases plain.symm.trans given
  | whole bytes =>
    rw [isNumber] at bytes
    cases bytes
  | offset other | disabled other | grammar other => cases isNumber.symm.trans other
  | container contains =>
    have produces := contains.producesChildren
    rw [isNumber] at produces
    cases produces

open DecodeM in
/-- Bit packing is one bit cursor. From a reading at a position of the stream, what decodes is laid
over the data by the reference, and the reading is at the position that the reference reaches; a
whole decode starts on a byte. Inside every value of the tree, bit fields do not overlap and do not
leave the bytes of the value. The reference lays a number that is read as the slice at the position,
or as the whole bytes behind it, and in no other way. -/
theorem decode_refines_bit_cursor [ByteSource σ] [SliceLike σ] (d : Decoder σ)
    (scripts : d.ScriptsOnlyRead) :
    (∀ (depth : Nat) (p : Place) (n : Node d.schema) (st : DecodeState σ) (v : Value)
      (st' : DecodeState σ) (pos : Nat), st.reading.At pos →
      Returns (d.decodeOne depth p n) st v st' →
      ∃ next, Laid d st.reading.data p n pos v next ∧ st'.reading.data = st.reading.data ∧
        st'.reading.At next ∧ ∀ w : Value, w.Within v → w.SpansInside) ∧
    (∀ (element : ElementId) (source : σ) (v : Value) (warnings : List DecodeError),
      (d.decodeElement element source).result = .ok (v, warnings) →
      ∃ n next, d.schema.node? element = some n ∧
        Laid d (SliceLike.slice source).data
          (startPlace element (SliceLike.slice source).cursor (SliceLike.slice source).data.size) n
          (8 * (SliceLike.slice source).cursor) v next ∧
        (SliceLike.slice (d.decodeElement element source).source).cursor = byteAt next ∧
        ∀ w : Value, w.Within v → w.SpansInside) ∧
    ∀ (data : Array UInt8) (p : Place) (n : Node d.schema) (body : NumberBody) (pos : Nat)
      (v : Value) (next : Nat), n.kind = .number body → n.lookup .valueExpression = .ok none →
      Laid d data p n pos v next → NumberAt d data p n pos v next := by
  -- Every part of the tree is itself laid somewhere, side trees from where they are pointed to.
  have inside : ∀ {p : Place} {n : Node d.schema} {data : Array UInt8} {pos next : Nat} {v : Value},
      Laid d data p n pos v next → ∀ w : Value, w.Within v → w.SpansInside := by
    intro p n data pos next v laid w within
    obtain ⟨_, _, _, _, part⟩ := laid.within within
    exact part.spansInside
  refine ⟨?_, ?_, ?_⟩
  · intro depth p n st v st' pos at_ h
    obtain ⟨next, laid, kept, reached⟩ := decodeOne_lays scripts depth at_ h
    exact ⟨next, laid, kept, reached, inside laid⟩
  · intro element source v warnings ok
    obtain ⟨n, start, after, found, same, decoded, reached⟩ := decodeElement_returns ok
    have at_ : start.reading.At (8 * (SliceLike.slice source).cursor) := by
      rw [same]
      exact Reading.at_of_aligned rfl
    obtain ⟨next, laid, -, final⟩ := decodeOne_lays scripts _ at_ decoded
    rw [same] at laid
    exact ⟨n, next, found, laid, reached.trans final.cursor, inside laid⟩
  · intro data p n body pos v next isNumber plain laid
    exact laid.numberAt isNumber plain

/-! ## Ten bits and a byte -/

/-- A structure of three bits, seven bits and a byte. -/
def packing : Decoder Slice where
  schema :=
    { elements := #[
        ⟨{}, .structure { children := [⟨1⟩, ⟨2⟩, ⟨3⟩] }⟩,
        ⟨{}, .number { extent := { length := some (.literal 3), unit := some .bit } }⟩,
        ⟨{}, .number { extent := { length := some (.literal 7), unit := some .bit } }⟩,
        ⟨{}, .number { extent := { length := some (.literal 1) } }⟩]
      root := ⟨0⟩ }
  options := { maxDepth := 2, maxRepeat := 2 }

def packingRoot : Node packing.schema := ⟨⟨0⟩, _, rfl⟩

def packingBytes : Slice := ⟨#[0x25, 0xFE, 0x07], 0⟩

/-- What it decodes to: the seven bits lie in two bytes, and the six bits behind them are lost. -/
def packed : Value :=
  ⟨⟨0⟩, 0, 3, none, .none,
    [⟨⟨1⟩, 0, 1, some .little, .number (.unsigned 5) none [] (some ⟨0, 3⟩), []⟩,
      ⟨⟨2⟩, 1, 1, some .little, .number (.unsigned 68) none [] (some ⟨3, 7⟩), []⟩,
      ⟨⟨3⟩, 2, 1, some .little, .number (.unsigned 7) none [] none, []⟩]⟩

open DecodeM in
set_option maxRecDepth 8000 in
theorem decode_refines_bit_cursor_packing :
    (∃ st' next, Returns (packing.decodeOne 2 (startPlace ⟨0⟩ 0 3) packingRoot)
        { source := packingBytes } packed st' ∧
      Laid packing packingBytes.data (startPlace ⟨0⟩ 0 3) packingRoot 0 packed next ∧
      st'.reading.At next) ∧
    (packing.decodeElement ⟨0⟩ packingBytes).result = .ok (packed, []) ∧ packed.SpansInside := by
  have scripts : packing.ScriptsOnlyRead :=
    scriptsOnlyRead_of_scriptless (by simp [Schema.HasScript, packing])
  constructor
  · have returned : Returns (packing.decodeOne 2 (startPlace ⟨0⟩ 0 3) packingRoot)
        { source := packingBytes } packed _ := Prod.ext (by cbv) rfl
    have at_ : DecodeState.reading { source := packingBytes } |>.At 0 := Reading.at_of_aligned rfl
    obtain ⟨next, laid, -, reached, -⟩ :=
      (decode_refines_bit_cursor packing scripts).1 2 _ _ _ _ _ _ at_ returned
    exact ⟨_, next, returned, laid, reached⟩
  · have decodes : (packing.decodeElement ⟨0⟩ packingBytes).result = .ok (packed, []) := by
      cbv
    obtain ⟨n, next, -, -, -, inside⟩ :=
      (decode_refines_bit_cursor packing scripts).2.1 ⟨0⟩ packingBytes packed [] decodes
    exact ⟨decodes, inside packed .self⟩

end Decoder

end BinaryTemplate
