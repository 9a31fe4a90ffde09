import BinaryTemplate.Proofs.Opening
import BinaryTemplate.Proofs.Passing
import BinaryTemplate.Proofs.Warnings

/-!
# Declared lengths

A value is as long as its element declares. A structure compares its declared length with that of
its content; a string of any framing, a run of bytes and a computed number go on to the end of
their length, whatever is inside it; a number or a pointer that is counted in bytes reads all of
them. In no case is a length cut off or filled up: one that does not come to whole bytes within the
frame is an error.
-/

namespace BinaryTemplate

/-- The elements with a length that their values take up in whole bytes: structures and references
to them, strings, runs of bytes and computed numbers that declare one, and the numbers and offsets
that are counted in bytes. -/
inductive Node.Measured {s : Schema} (n : Node s) : Prop
  | structural {length : Reference} (structural : n.IsStructural)
      (declared : n.lookup .length = .ok (some length))
  | string {body : StringBody} {length : Reference} (kind : n.kind = .string body)
      (declared : n.lookup .length = .ok (some length))
  | binary {body : BinaryBody} {length : Reference} (kind : n.kind = .binary body)
      (declared : n.lookup .length = .ok (some length))
  | computed {body : NumberBody} {expression length : Reference} (kind : n.kind = .number body)
      (given : n.lookup .valueExpression = .ok (some expression))
      (declared : n.lookup .length = .ok (some length))
  | number {body : NumberBody} (kind : n.kind = .number body)
      (plain : n.lookup .valueExpression = .ok none) (bytewise : n.lengthUnit = .ok .byte)
  | offset {body : OffsetBody} (kind : n.kind = .offset body)
      (bytewise : n.lengthUnit = .ok .byte)

namespace Decoder

open DecodeM

variable {σ : Type} {d : Decoder σ} {p : Place} {n : Node d.schema} {st st' : DecodeState σ}

/-! ## What a length comes to -/

/-- The length of an element, in its units. -/
def OwnLength (d : Decoder σ) (p : Place) (n : Node d.schema) (units : Int) : Prop :=
  ∃ length k, n.lookup .length = .ok (some length) ∧ d.Evaluates p length k ∧ k.toInt = units

/-- The length of an element with the offset that a structure adds to it. -/
def TotalLength (d : Decoder σ) (p : Place) (n : Node d.schema) (units : Int) : Prop :=
  ¬ n.IsStructural ∧ d.OwnLength p n units ∨
    n.IsStructural ∧ ∃ own extra, d.OwnLength p n own ∧ d.Gives p n .lengthOffset extra ∧
      units = own + (extra.map (·.toInt)).getD 0

/-- The length of an element comes to so many whole bytes at a place: it is not negative, neither
with its offset nor without, and the conversion of its units is exact. -/
structure ComesTo (d : Decoder σ) (p : Place) (n : Node d.schema) (bytes : Nat) : Prop where
  own : ∃ units, d.OwnLength p n units ∧ 0 ≤ units
  total : ∃ units unit, d.TotalLength p n units ∧ n.lengthUnit = .ok unit ∧
    units * unit.bits = 8 * bytes ∧ 8 * bytes < positionLimit

/-- What can be wrong with the length of an element that would start at the cursor. -/
inductive Unusable (d : Decoder σ) (p : Place) (n : Node d.schema) (cursor : Nat) : Prop
  | negative {units : Int} (own : d.OwnLength p n units) (below : units < 0)
  | shortened {units : Int} (total : d.TotalLength p n units) (below : units < 0)
  | fractional {units : Int} {unit : LengthUnit} (total : d.TotalLength p n units)
      (counted : n.lengthUnit = .ok unit) (uneven : ¬ 8 ∣ units * unit.bits)
  | overflowing {units : Int} {unit : LengthUnit} (total : d.TotalLength p n units)
      (counted : n.lengthUnit = .ok unit) (large : positionLimit ≤ units * unit.bits)
  | crossing {bytes : Nat} (comes : d.ComesTo p n bytes) (beyond : p.limit < cursor + bytes)

theorem OwnLength.unique {units units' : Int} (first : d.OwnLength p n units)
    (second : d.OwnLength p n units') : units = units' := by
  obtain ⟨_, k, found, evaluates, rfl⟩ := first
  obtain ⟨_, k', found', evaluates', rfl⟩ := second
  cases found.symm.trans found'
  rw [evaluates.unique evaluates']

theorem TotalLength.unique {units units' : Int} (first : d.TotalLength p n units)
    (second : d.TotalLength p n units') : units = units' := by
  obtain ⟨flat, own⟩ | ⟨structural, _, _, own, gives, rfl⟩ := first
  · obtain ⟨-, own'⟩ | ⟨structural, -⟩ := second
    · exact own.unique own'
    · exact absurd structural flat
  · obtain ⟨flat, -⟩ | ⟨-, _, _, own', gives', rfl⟩ := second
    · exact absurd structural flat
    · rw [own.unique own', gives.unique gives']

theorem ComesTo.unique {bytes bytes' : Nat} (first : d.ComesTo p n bytes)
    (second : d.ComesTo p n bytes') : bytes = bytes' := by
  obtain ⟨units, unit, total, counted, whole, -⟩ := first.total
  obtain ⟨units', unit', total', counted', exact', -⟩ := second.total
  obtain rfl := total.unique total'
  cases counted.symm.trans counted'
  omega

/-- A length that comes to whole bytes within the frame has nothing wrong with it. -/
theorem ComesTo.usable {bytes cursor : Nat} (comes : d.ComesTo p n bytes)
    (within : cursor + bytes ≤ p.limit) : ¬ d.Unusable p n cursor := by
  obtain ⟨known, own, nonneg⟩ := comes.own
  obtain ⟨units, unit, total, counted, whole, small⟩ := comes.total
  have positive : 0 ≤ units := by cases unit <;> simp only [LengthUnit.bits] at whole <;> omega
  intro unusable
  cases unusable with
  | negative own' below => exact absurd (own.unique own' ▸ nonneg) (Int.not_le.mpr below)
  | shortened total' below => exact absurd (total.unique total' ▸ positive) (Int.not_le.mpr below)
  | fractional total' counted' uneven =>
    obtain rfl := total.unique total'
    cases counted.symm.trans counted'
    exact uneven ⟨bytes, whole⟩
  | overflowing total' counted' large =>
    obtain rfl := total.unique total'
    cases counted.symm.trans counted'
    omega
  | crossing comes' beyond =>
    obtain rfl := comes.unique comes'
    omega

theorem Measures.comesTo {length : Reference} {bytes : Nat} (flat : ¬ n.IsStructural)
    (declared : n.lookup .length = .ok (some length)) (measures : d.Measures p n length bytes) :
    d.ComesTo p n bytes := by
  obtain ⟨units, unit, ⟨k, evaluates, same⟩, counted, whole, small⟩ := measures
  have own : d.OwnLength p n units := ⟨length, k, declared, evaluates, same⟩
  exact ⟨⟨units, own, Int.natCast_nonneg units⟩, units, unit, .inl ⟨flat, own⟩, counted,
    by exact_mod_cast whole, by omega⟩

theorem Declares.comesTo {bytes : Nat} (flat : ¬ n.IsStructural)
    (declares : d.Declares p n (some bytes)) : d.ComesTo p n bytes := by
  obtain ⟨length, declared, measures⟩ := declares
  exact measures.comesTo flat declared

theorem Spans.comesTo {bytes : Nat} (structural : n.IsStructural)
    (spans : d.Spans p n (some bytes)) : d.ComesTo p n bytes := by
  obtain ⟨length, units, extra, total, unit, declared, ⟨k, evaluates, same⟩, gives, sums, counted,
    whole, small⟩ := spans
  have own : d.OwnLength p n units := ⟨length, k, declared, evaluates, same⟩
  exact ⟨⟨units, own, Int.natCast_nonneg units⟩, total, unit,
    .inr ⟨structural, units, extra, own, gives, sums.symm⟩, counted, by exact_mod_cast whole,
    by omega⟩

/-! ## What is taken up -/

/-- An instance at the cursor is as long as its element, and ends within the frame. -/
structure Occupies (d : Decoder σ) (p : Place) (n : Node d.schema) (cursor len : Nat) : Prop where
  comes : d.ComesTo p n len
  within : cursor + len ≤ p.limit

/-- A declared length is one that the field measures. -/
theorem declares_some {length : Reference} {declared : Option Nat}
    (set : n.lookup .length = .ok (some length)) (declares : d.Declares p n declared) :
    ∃ slot, declared = some slot ∧ d.Declares p n (some slot) := by
  cases declared with
  | none => cases set.symm.trans declares
  | some slot => exact ⟨slot, rfl, declares⟩

theorem RawRead.bytewise {limit width : Nat} {order : ByteOrder} {before after : Reading}
    {r : RawNumber} (h : RawRead limit order width before .byte r after) :
    r.len = width / 8 ∧ before.cursor + r.len ≤ limit := by
  cases h with
  | bytes holds => exact ⟨rfl, holds.1⟩

/-- A pattern that is read from whole bytes is as long as its element. -/
theorem HasWidth.occupies {unit : LengthUnit} {width : Nat} {order : ByteOrder}
    {before after : Reading} {r : RawNumber} (flat : ¬ n.IsStructural)
    (bytewise : n.lengthUnit = .ok .byte) (wide : d.HasWidth p n unit width)
    (raw : RawRead p.limit order width before unit r after) :
    d.Occupies p n before.cursor r.len := by
  obtain ⟨length, units, set, counted, counts, rfl, -, small⟩ := wide
  cases bytewise.symm.trans counted
  obtain ⟨whole, within⟩ := raw.bytewise
  have bits : units * LengthUnit.byte.bits = 8 * units := Nat.mul_comm units 8
  rw [bits, Nat.mul_div_cancel_left units (by decide)] at whole
  have fits : units * LengthUnit.byte.bits < positionLimit := Nat.lt_of_le_of_lt small (by decide)
  have measures : d.Measures p n length units := ⟨units, .byte, counts, counted, bits, fits⟩
  exact ⟨whole ▸ measures.comesTo flat set, within⟩

theorem NumberDecoded.occupies_plain {v : Value} {before after : Reading}
    (flat : ¬ n.IsStructural) (plain : n.lookup .valueExpression = .ok none)
    (bytewise : n.lengthUnit = .ok .byte) (h : NumberDecoded d p n before v after) :
    d.Occupies p n before.cursor v.len := by
  cases h with
  | read _ _ _ wide raw _ => exact wide.occupies flat bytewise raw
  | computed given | skipped given => cases plain.symm.trans given

theorem NumberDecoded.occupies_computed {expression length : Reference} {v : Value}
    {before after : Reading} (flat : ¬ n.IsStructural)
    (given : n.lookup .valueExpression = .ok (some expression))
    (set : n.lookup .length = .ok (some length)) (h : NumberDecoded d p n before v after) :
    d.Occupies p n before.cursor v.len := by
  cases h with
  | read plain => cases given.symm.trans plain
  | computed _ undeclared => cases set.symm.trans undeclared
  | skipped _ declared within => exact ⟨declared.comesTo flat, within⟩

theorem OffsetDecoded.occupies [ByteSource σ] [SliceLike σ] {child : d.DecodeChild} {v : Value}
    {before after : Reading} (flat : ¬ n.IsStructural) (bytewise : n.lengthUnit = .ok .byte)
    (h : OffsetDecoded child p n before v after) : d.Occupies p n before.cursor v.len := by
  cases h with
  | read _ wide raw _ => exact wide.occupies flat bytewise raw

/-! ## Strings and runs of bytes -/

section Lengths

variable [ByteSource σ] [SliceLike σ] {child : d.DecodeChild} {offset : Nat}

theorem read_length {count : Nat} {bytes : List UInt8}
    (h : Returns (d.read p n count) st bytes st') :
    bytes.length = count ∧ st'.reading.cursor = st.reading.cursor + count ∧
      st'.reading.cursor ≤ p.limit := by
  obtain ⟨rfl, within, inside, moved⟩ := read_returns h
  rw [moved]
  exact ⟨length_window inside, rfl, within⟩

/-- However it is framed, a string with a declared length takes all of it. -/
theorem readFramed_slot {encoding : Text.Encoding} {kind : StringKind}
    {delimiter : Option UInt8} {slot : Nat} {bytes : List UInt8}
    (h : Returns (d.readFramed p n offset encoding kind delimiter (some slot)) st bytes st') :
    st'.reading.cursor = st.reading.cursor + slot ∧ st.reading.cursor + slot ≤ p.limit := by
  -- Zero and the delimiter are found in the same way.
  have terminated (terminator : List UInt8)
      (h : Returns (d.readTerminated p n offset terminator (some slot)) st bytes st') :
      st'.reading.cursor = st.reading.cursor + slot ∧ st.reading.cursor + slot ≤ p.limit := by
    simp only [readTerminated, returns_bind, returns_pure] at h
    obtain ⟨⟨text, found⟩, _, reads, _, _, skips, -, rfl⟩ := h
    obtain ⟨moved, -, room, -⟩ := readUntil_returns reads
    obtain ⟨within, skipped⟩ := skip_returns skips
    have moved := congrArg Reading.cursor moved
    have skipped := congrArg Reading.cursor skipped
    -- Whole units of the slot are never more than the slot.
    have fits : text.length + (if found then terminator.length else 0) ≤ slot :=
      room.trans (Nat.div_mul_le_self slot terminator.length)
    dsimp only at moved within skipped fits
    omega
  cases kind with
  | fixedLength =>
    simp only [readFramed, readFixed, Option.getD_some, returns_bind, returns_pure] at h
    obtain ⟨_, _, reads, -, rfl⟩ := h
    obtain ⟨-, moved, within⟩ := read_length reads
    exact ⟨moved, moved ▸ within⟩
  | pascal =>
    simp only [readFramed, readPascal, returns_bind, returns_guard_bind, returns_pure] at h
    obtain ⟨_, _, begins, small, _, _, reads, _, _, skips, -, rfl⟩ := h
    obtain ⟨-, begun, -⟩ := read_length begins
    obtain ⟨-, moved, -⟩ := read_length reads
    obtain ⟨within, skipped⟩ := skip_returns skips
    have skipped := congrArg Reading.cursor skipped
    dsimp only at skipped
    omega
  | zeroTerminated => exact terminated _ h
  | delimited => exact terminated _ h

theorem decodeString_occupies {length : Reference} {v : Value} (flat : ¬ n.IsStructural)
    (set : n.lookup .length = .ok (some length)) (h : Returns (d.decodeString p n) st v st') :
    d.Occupies p n st.reading.cursor v.len := by
  have passed := (decodeString_returns h).cursor
  simp only [decodeString, returns_bind, returns_align, returns_resolved] at h
  obtain ⟨_, _, rfl, start, told, tells, label, _, ⟨-, rfl⟩, h⟩ := h
  obtain ⟨-, same⟩ := tell_returns tells
  have begun := congrArg Reading.cursor same
  cases known : d.encodings.ofLabel? label with
  | none =>
    rw [known] at h
    exact absurd h returns_fail
  | some encoding =>
    rw [known] at h
    simp only [returns_bind, returns_resolved, declaredBytes_returns] at h
    obtain ⟨delimiter, _, ⟨-, rfl⟩, kind, _, ⟨-, rfl⟩, declared, _, ⟨declares, rfl⟩, bytes, _,
      frames, stop, _, stops, h⟩ := h
    obtain ⟨slot, rfl, declares⟩ := declares_some set declares
    obtain ⟨moved, within⟩ := readFramed_slot frames
    obtain ⟨-, ended⟩ := tellAt_returns stops
    cases readable : d.encodings.decode? encoding bytes with
    | none =>
      rw [readable] at h
      exact absurd h returns_fail
    | some chars =>
      rw [readable] at h
      simp only [returns_bind, returns_record, returns_pure] at h
      obtain ⟨matched, _, matches_, _, _, rfl, rfl, rfl⟩ := h
      have last := congrArg Reading.cursor ((matchString_returns matches_).trans ended)
      -- The length of the value is how far the cursor has come, which is the slot.
      rw [begun] at moved within
      obtain rfl : _ = slot := Nat.add_left_cancel (passed.symm.trans (last.trans moved))
      exact ⟨declares.comesTo flat, within⟩

theorem decodeBinary_occupies {length : Reference} {v : Value} (flat : ¬ n.IsStructural)
    (set : n.lookup .length = .ok (some length)) (h : Returns (d.decodeBinary p n) st v st') :
    d.Occupies p n st.reading.cursor v.len := by
  simp only [decodeBinary, returns_bind, returns_align, returns_resolved, declaredBytes_returns,
    returns_ite, returns_record, returns_pure] at h
  obtain ⟨_, _, rfl, start, told, tells, declared, _, ⟨declares, rfl⟩, choices, _, ⟨-, rfl⟩, h⟩ := h
  obtain ⟨slot, rfl, declares⟩ := declares_some set declares
  obtain ⟨-, same⟩ := tell_returns tells
  -- The bytes are passed over, or read and compared with the listed ones.
  obtain ⟨-, _, _, skips, _, _, -, _, _, rfl, rfl, -⟩ | ⟨-, _, _, reads, _, _, rfl, rfl, -⟩ := h
  · have within := (skip_returns skips).1
    rw [same] at within
    exact ⟨declares.comesTo flat, within⟩
  · have within := (matchBytes_advances reads).1
    rw [same] at within
    exact ⟨declares.comesTo flat, within⟩

/-! ## Structures -/

omit [SliceLike σ] in
/-- A structure that decodes has the length that it declares, which ends within the frame. -/
theorem fillFrom_returns {definition : Option ElementId} {ids : List ElementId}
    {order : ChildOrder} {start len : Nat} {v : Value}
    (h : Returns (d.fillFrom child p n definition ids order start (some len)) st v st') :
    v.len = len ∧ start + len ≤ p.limit := by
  simp only [fillFrom, closeContainer, returns_bind, returns_record, returns_align,
    returns_outcome] at h
  obtain ⟨_, _, stops, _, _, rfl, content, closed, filled, _, _, rfl, h⟩ := h
  obtain ⟨rfl, within, rfl⟩ := containerStop_returns.mp stops
  obtain ⟨reached, rfl, -⟩ | ⟨e, rfl, -⟩ := filled
  · simp only [returns_bind, returns_pure] at h
    obtain ⟨position, _, -, _, _, sized, rfl, -⟩ := h
    obtain ⟨rfl, exactly, -⟩ := containerLength_returns sized
    exact ⟨(exactly len rfl).symm, within⟩
  · exact absurd h returns_throw

theorem decodeOne_occupies_structural {depth : Nat} {length : Reference} {v : Value}
    (structural : n.IsStructural) (set : n.lookup .length = .ok (some length))
    (h : Returns (d.decodeOne depth p n) st v st') :
    d.Occupies p n st.reading.cursor v.len := by
  have produces : n.kind.producesChildren = true := by
    obtain ⟨_, kind⟩ | ⟨_, kind⟩ := structural <;> rw [kind] <;> rfl
  obtain ⟨rest, definition, ids, order, declared, contains, -⟩ := decodeOne_container produces h
  obtain ⟨depth, _, rfl, -⟩ := decodeOne_kinds h
  rw [decodeOne_eq_opening depth contains structural] at h
  obtain ⟨⟨start, declared⟩, opened, opens, filled⟩ := returns_bind.mp h
  obtain ⟨rfl, spans⟩ := opening_returns opens
  cases declared with
  | none => cases set.symm.trans spans
  | some len =>
    obtain ⟨rfl, within⟩ := fillFrom_returns filled
    exact ⟨spans.comesTo structural, within⟩

/-! ## Elements -/

theorem decodeOne_occupies {depth : Nat} {v : Value} (measured : n.Measured)
    (h : Returns (d.decodeOne depth p n) st v st') :
    d.Occupies p n st.reading.cursor v.len := by
  have flat {kind : Kind} (own : n.kind = kind) (other : kind.producesChildren = false) :
      ¬ n.IsStructural := by
    rintro (⟨_, same⟩ | ⟨_, same⟩) <;> cases own.symm.trans same <;> cases other
  obtain ⟨rest, start, -, resumes, kinds⟩ := decodeOne_kinds h
  cases measured with
  | structural structural set => exact decodeOne_occupies_structural structural set h
  | string kind set =>
    simp only [decodeKind, kind] at kinds
    exact resumes.reading ▸ decodeString_occupies (flat kind rfl) set kinds
  | binary kind set =>
    simp only [decodeKind, kind] at kinds
    exact resumes.reading ▸ decodeBinary_occupies (flat kind rfl) set kinds
  | computed kind given set =>
    simp only [decodeKind, kind] at kinds
    exact resumes.reading ▸ (decodeNumber_returns kinds).occupies_computed (flat kind rfl) given set
  | number kind plain bytewise =>
    simp only [decodeKind, kind] at kinds
    exact resumes.reading ▸
      (decodeNumber_returns kinds).occupies_plain (flat kind rfl) plain bytewise
  | offset kind bytewise =>
    simp only [decodeKind, kind] at kinds
    exact resumes.reading ▸ (decodeOffset_returns kinds).occupies (flat kind rfl) bytewise

/-- A declared length is the length that is consumed. In a decoded tree and its side trees, every
value of an element that keeps its length is as long as that comes to at the place of the value;
it starts at the cursor, ends at the cursor behind it, and within the frame. A length with which
anything is wrong is an error. -/
theorem declared_length_consumed (d : Decoder σ) :
    (∀ (element : ElementId) (source : σ) (v : Value) (warnings : List DecodeError),
      (d.decodeElement element source).result = .ok (v, warnings) →
      let bytes := SliceLike.slice source
      ∃ visits, d.Visits (startPlace element bytes.cursor bytes.data.size) [v] visits ∧
        visits.map (·.value) = v.preorder ∧
        ∀ x ∈ visits, x.node.Measured → d.ComesTo x.place x.node x.value.len) ∧
    (∀ (depth : Nat) (p : Place) (n : Node d.schema) (st : DecodeState σ) (v : Value)
      (st' : DecodeState σ), n.Measured → Returns (d.decodeOne depth p n) st v st' →
        d.ComesTo p n v.len ∧ v.offset = st.reading.cursor ∧
          st'.reading.cursor = v.offset + v.len ∧ v.offset + v.len ≤ p.limit) ∧
    ∀ (depth : Nat) (p : Place) (n : Node d.schema) (st : DecodeState σ), n.Measured →
      d.Unusable p n st.reading.cursor → ∃ e st', Throws (d.decodeOne depth p n) st e st' := by
  refine ⟨?_, ?_, ?_⟩
  · intro element source v warnings ok bytes
    obtain ⟨visits, tree, values⟩ := decodeElement_visits ok
    refine ⟨visits, tree, values, ?_⟩
    intro x visited measured
    obtain ⟨depth, before, behind, returned⟩ := (tree.decodes x visited).1
    exact (decodeOne_occupies measured returned).comes
  · intro depth p n st v st' measured returned
    obtain ⟨comes, within⟩ := decodeOne_occupies measured returned
    have start := decodeOne_starts depth returned
    rw [start]
    exact ⟨comes, rfl, (decodeOne_passes depth returned).cursor, within⟩
  · intro depth p n st measured unusable
    obtain ⟨v, st', returned⟩ | ⟨e, st', thrown⟩ := returns_or_throws (d.decodeOne depth p n) st
    · obtain ⟨comes, within⟩ := decodeOne_occupies measured returned
      exact absurd unusable (comes.usable within)
    · exact ⟨e, st', thrown⟩

end Lengths

/-! ## A slot for a text -/

/-- A structure of two bytes and two more: a slot of three bytes for a text with its length in
front, and a number. -/
def slotted : Decoder Slice where
  schema :=
    { elements := #[
        ⟨{}, .structure
          { children := [⟨1⟩, ⟨2⟩]
            extent := { length := some (.literal 2) }
            lengthOffset := some (.literal 2) }⟩,
        ⟨{}, .string { kind := some .pascal, extent := { length := some (.literal 3) } }⟩,
        ⟨{}, .number { extent := { length := some (.literal 1) } }⟩]
      root := ⟨0⟩ }
  options := { maxDepth := 2, maxRepeat := 1 }

def slottedRoot : Node slotted.schema := ⟨⟨0⟩, _, rfl⟩

/-- The slot holds a text of one byte, and one byte that is skipped. -/
def slottedBytes : Slice := ⟨#[1, 0x68, 0, 7], 0⟩

def slottedValue : Value :=
  ⟨⟨0⟩, 0, 4, none, .none,
    [⟨⟨1⟩, 0, 3, none, .string "h" none, []⟩,
      ⟨⟨2⟩, 3, 1, some .little, .number (.unsigned 7) none [] none, []⟩]⟩

theorem slotted_returns :
    Returns (slotted.decodeOne 2 (startPlace ⟨0⟩ 0 4) slottedRoot) { source := slottedBytes }
      slottedValue ((slotted.decodeOne 2 (startPlace ⟨0⟩ 0 4) slottedRoot).ending
        { source := slottedBytes }).2 :=
  returns_of_result (by cbv)

set_option maxRecDepth 8000 in
/-- The structure takes its four bytes, and is an error where there are only three. -/
theorem declared_length_consumed_slotted :
    (slotted.decodeElement ⟨0⟩ slottedBytes).result = .ok (slottedValue, []) ∧
      (∃ visits, slotted.Visits (startPlace ⟨0⟩ 0 4) [slottedValue] visits ∧
        visits.map (·.value) = slottedValue.preorder ∧
        ∀ x ∈ visits, x.node.Measured → slotted.ComesTo x.place x.node x.value.len) ∧
      slotted.ComesTo (startPlace ⟨0⟩ 0 4) slottedRoot 4 ∧
      ∃ e st', Throws (slotted.decodeOne 2 (startPlace ⟨0⟩ 0 3) slottedRoot)
        { source := ⟨#[1, 0x68, 0], 0⟩ } e st' := by
  have decodes : (slotted.decodeElement ⟨0⟩ slottedBytes).result = .ok (slottedValue, []) := by cbv
  have declared : slottedRoot.lookup .length = .ok (some (.literal 2)) := by cbv
  have measured : slottedRoot.Measured := .structural (.inl ⟨_, rfl⟩) declared
  have comes (p : Place) : slotted.ComesTo p slottedRoot 4 := by
    have own : slotted.OwnLength p slottedRoot 2 := ⟨.literal 2, 2, by cbv, rfl, by decide⟩
    exact ⟨⟨2, own, by decide⟩, 4, .byte, .inr ⟨.inl ⟨_, rfl⟩, 2, some 2, own,
      ⟨.literal 2, by cbv, rfl⟩, by decide⟩, by cbv, by decide, by decide⟩
  have beyond : slotted.Unusable (startPlace ⟨0⟩ 0 3) slottedRoot 0 :=
    .crossing (comes _) (by decide)
  obtain ⟨tree, kept, refused⟩ := declared_length_consumed slotted
  refine ⟨decodes, tree ⟨0⟩ slottedBytes slottedValue [] decodes, ?_, ?_⟩
  · exact (kept 2 (startPlace ⟨0⟩ 0 4) slottedRoot { source := slottedBytes } slottedValue _
      measured slotted_returns).1
  · exact refused 2 (startPlace ⟨0⟩ 0 3) slottedRoot { source := ⟨#[1, 0x68, 0], 0⟩ } measured
      beyond

end Decoder

end BinaryTemplate
