import BinaryTemplate.Proofs.Field

/-!
# What numbers take

A number is read from bits or from whole bytes, or it is computed. Read from bits it is the next
`width` bits of the reading: those that are unread, and behind them the bits of as many whole bytes
as it still needs. What is left of the last byte is unread afterwards.
-/

namespace BinaryTemplate

namespace Bytes

/-- The number that bytes denote in a byte order. -/
def toNatIn : ByteOrder → List UInt8 → Nat
  | .little, bytes => toNatLittle bytes
  | .big, bytes => toNatBig bytes

end Bytes

namespace Reading

/-- How many further bytes the next `width` bits need. -/
def bytesFor (r : Reading) (width : Nat) : Nat := (width - r.pending.length + 7) / 8

/-- The bits of the unread rest and of the further bytes that the next `width` bits need. -/
def upcoming (r : Reading) (width : Nat) : List Bool :=
  r.pending ++ (window r.data r.cursor (r.bytesFor width)).flatMap Bits.ofByte

/-- The reading behind the next `width` bits. -/
def afterBits (r : Reading) (width : Nat) : Reading :=
  ⟨r.data, r.cursor + r.bytesFor width, (r.upcoming width).drop width⟩

/-- The reading behind the next `len` bytes, the unread bits let go. -/
def afterBytes (r : Reading) (len : Nat) : Reading := ⟨r.data, r.cursor + len, []⟩

/-- Whether so many bytes at the cursor lie within a frame and within the data. -/
def Holds (r : Reading) (limit len : Nat) : Prop :=
  r.cursor + len ≤ limit ∧ r.cursor + len ≤ r.data.size

theorem Holds.mono {r : Reading} {limit len len' : Nat} (h : r.Holds limit len)
    (fewer : len' ≤ len) : r.Holds limit len' := by
  obtain ⟨within, present⟩ := h
  exact ⟨by omega, by omega⟩

theorem holds_add_iff {r : Reading} {limit first count : Nat} : r.Holds limit (first + count) ↔
    { r with cursor := r.cursor + first }.Holds limit count := by
  simp only [Holds, Nat.add_assoc]

end Reading

namespace Decoder

open DecodeM

variable {σ : Type} [ByteSource σ] [SliceLike σ] {d : Decoder σ} {p : Place} {n : Node d.schema}
  {st st' : DecodeState σ}

/-! ## Patterns -/

theorem readByte_returns {offset : Nat} {b : UInt8}
    (h : Returns (onSource n offset ByteSource.readByte) st b st') :
    st.reading.cursor + 1 ≤ st.reading.data.size ∧
      [b] = window st.reading.data st.reading.cursor 1 ∧
      st'.reading = { st.reading with cursor := st.reading.cursor + 1 } := by
  have whole : ∃ bytes, Returns (onSource n offset (ByteSource.readExact 1)) st bytes st' ∧
      bytes.headD 0 = b := by
    obtain ⟨source, ended, rfl⟩ := returns_onSource.mp h
    rcases first : (ByteSource.readExact 1 : SourceM σ (List UInt8)) st.source with
      ⟨e | bytes, after⟩
    · cases ended.symm.trans (bind_of_error first)
    · cases ended.symm.trans (bind_of_ok first)
      exact ⟨bytes, returns_onSource.mpr ⟨_, first, rfl⟩, rfl⟩
  obtain ⟨bytes, reads, rfl⟩ := whole
  obtain ⟨inside, rfl, moved⟩ := readExact_returns reads
  refine ⟨inside, ?_, moved⟩
  have one : (window st.reading.data st.reading.cursor 1).length = 1 := by
    simp [window]
    omega
  -- The byte is the head of what was read; as that has one byte, it is the whole of it.
  obtain ⟨b, only⟩ := List.length_eq_one_iff.mp one
  rw [only]
  rfl

theorem window_zero (data : Array UInt8) (start : Nat) : window data start 0 = [] := by
  simp [window]

theorem window_add (data : Array UInt8) (start first more : Nat) :
    window data start first ++ window data (start + first) more =
      window data start (first + more) := by
  simp only [window, ← Array.toList_append]
  rw [Array.extract_append_extract]
  congr 2 <;> omega

theorem length_window {data : Array UInt8} {start count : Nat}
    (inside : start + count ≤ data.size) :
    (window data start count).length = count := by
  simp [window]
  omega

/-- No bytes at all are there wherever the frame ends. -/
theorem length_window_of_holds {before : Reading} {limit count : Nat}
    (holds : 0 < count → before.Holds limit count) :
    (window before.data before.cursor count).length = count := by
  rcases Nat.eq_zero_or_pos count with rfl | some
  · rw [window_zero, List.length_nil]
  · exact length_window (holds some).2

theorem pullBytes_returns {offset : Nat} : ∀ {more consumed : Nat} {bytes : List UInt8}
    {st : DecodeState σ}, Returns (d.pullBytes p n offset more consumed) st bytes st' →
    st.reading.cursor = offset + consumed →
    bytes = window st.reading.data st.reading.cursor more ∧
      st'.reading = { st.reading with cursor := st.reading.cursor + more } ∧
      (0 < more → st.reading.Holds p.limit more) := by
  intro more
  induction more with
  | zero =>
    intro consumed bytes st h start
    simp only [pullBytes, returns_pure] at h
    obtain ⟨rfl, rfl⟩ := h
    exact ⟨(window_zero ..).symm, rfl, by omega⟩
  | succ more inductionHypothesis =>
    intro consumed bytes st h start
    simp only [pullBytes, returns_guard_bind, returns_bind, returns_pure] at h
    obtain ⟨within, b, _, reads, rest, _, pulls, rfl, rfl⟩ := h
    obtain ⟨inside, first, moved⟩ := readByte_returns reads
    obtain ⟨rfl, further, holds⟩ := inductionHypothesis pulls (by rw [moved]; dsimp only; omega)
    rw [moved] at further holds ⊢
    refine ⟨?_, ?_, ?_⟩
    · -- One byte and the rest lie side by side in the data.
      have joined := window_add st.reading.data st.reading.cursor 1 more
      rw [← first, Nat.add_comm 1 more] at joined
      exact joined
    · rw [further]
      simp only [Nat.add_comm 1 more, Nat.add_assoc]
    · intro _
      -- What has to fit is known from the last byte; without further bytes that is this one.
      cases more with
      | zero => exact ⟨by omega, inside⟩
      | succ more =>
        obtain ⟨fits, present⟩ := holds (by omega)
        dsimp only at fits present
        exact ⟨by omega, by omega⟩

theorem readBits_returns {width : Nat} {r : RawNumber}
    (h : Returns (d.readBits p n width) st r st') :
    r = ⟨Bits.toNat ((st.reading.upcoming width).take width), st.reading.cursor,
        st.reading.bytesFor width,
        some ⟨nextBit st.reading.cursor st.reading.pending.length, width⟩, width⟩ ∧
      st'.reading = st.reading.afterBits width ∧
      (0 < st.reading.bytesFor width → st.reading.Holds p.limit (st.reading.bytesFor width)) := by
  simp only [readBits, returns_bind, returns_get, returns_guard_bind, returns_setPending,
    returns_record, returns_pure] at h
  obtain ⟨offset, told, tells, seen, _, ⟨got, rfl⟩, -, bytes, pulled, pulls, _, _, rfl, _, _, rfl,
    rfl, rfl⟩ := h
  subst got
  obtain ⟨rfl, same⟩ := tell_returns tells
  have pending : seen.pending = st.reading.pending := congrArg Reading.pending same
  obtain ⟨rfl, moved, holds⟩ := pullBytes_returns pulls (by rw [same]; rfl)
  rw [pending] at moved holds ⊢
  rw [same] at moved holds ⊢
  -- The length of the value counts the bytes that were read, so none of them may be missing.
  have count : (window st.reading.data st.reading.cursor
      ((width - st.reading.pending.length + 7) / 8)).length = st.reading.bytesFor width :=
    length_window_of_holds holds
  refine ⟨?_, ?_, holds⟩
  · rw [count]
    rfl
  · change Reading.mk pulled.reading.data pulled.reading.cursor _ = _
    rw [moved]
    rfl

theorem readBytes_returns {offset : Nat} {order : ByteOrder} {width : Nat} {r : RawNumber}
    (h : Returns (d.readBytes p n offset order width) st r st') :
    r = ⟨Bytes.toNatIn order (window st.reading.data st.reading.cursor (width / 8)),
        st.reading.cursor, width / 8, none, width⟩ ∧
      st'.reading = st.reading.afterBytes (width / 8) ∧
      st.reading.Holds p.limit (width / 8) := by
  simp only [readBytes, returns_bind, returns_align, returns_record, returns_pure] at h
  obtain ⟨_, _, rfl, start, told, tells, bytes, read, reads, _, _, rfl, rfl, rfl⟩ := h
  obtain ⟨rfl, same⟩ := tellAt_returns tells
  obtain ⟨rfl, within, inside, moved⟩ := read_returns reads
  rw [same] at within inside moved ⊢
  refine ⟨?_, moved, within, inside⟩
  cases order <;> rfl

/-- The pattern of a number or a pointer, as it is read from bits or from whole bytes. -/
inductive RawRead (limit : Nat) (order : ByteOrder) (width : Nat) (before : Reading) :
    LengthUnit → RawNumber → Reading → Prop
  | bits (holds : 0 < before.bytesFor width → before.Holds limit (before.bytesFor width)) :
      RawRead limit order width before .bit
        ⟨Bits.toNat ((before.upcoming width).take width), before.cursor, before.bytesFor width,
          some ⟨nextBit before.cursor before.pending.length, width⟩, width⟩
        (before.afterBits width)
  | bytes (holds : before.Holds limit (width / 8)) :
      RawRead limit order width before .byte
        ⟨Bytes.toNatIn order (window before.data before.cursor (width / 8)), before.cursor,
          width / 8, none, width⟩
        (before.afterBytes (width / 8))

/-- The width of a number or a pointer in bits, of 1 to 64, by its length and its unit. -/
def HasWidth (d : Decoder σ) (p : Place) (n : Node d.schema) (unit : LengthUnit)
    (width : Nat) : Prop :=
  ∃ length units, n.lookup .length = .ok (some length) ∧ n.lengthUnit = .ok unit ∧
    d.Counts p length units ∧ width = units * unit.bits ∧ 0 < width ∧ width ≤ 64

theorem readRaw_returns {order : ByteOrder} {r : RawNumber}
    (h : Returns (d.readRaw p n order) st r st') :
    ∃ unit width, d.HasWidth p n unit width ∧
      RawRead p.limit order width st.reading unit r st'.reading := by
  simp only [readRaw, returns_bind, returns_resolved] at h
  obtain ⟨offset, told, tells, length, _, ⟨declared, rfl⟩, h⟩ := h
  obtain ⟨rfl, same⟩ := tell_returns tells
  cases length with
  | none => simp at h
  | some length =>
    simp only [returns_bind, returns_resolved, evalCount_returns, returns_guard_bind] at h
    obtain ⟨unit, _, ⟨found, rfl⟩, units, _, ⟨counts, rfl⟩, inRange, h⟩ := h
    -- The width is checked before the unit is looked at.
    have width : d.HasWidth p n unit (units * unit.bits) :=
      ⟨length, units, declared, found, counts, rfl, by omega, by omega⟩
    refine ⟨unit, units * unit.bits, width, ?_⟩
    cases unit with
    | bit =>
      obtain ⟨rfl, moved, holds⟩ := readBits_returns h
      rw [same] at moved holds ⊢
      rw [moved]
      exact .bits holds
    | byte =>
      obtain ⟨rfl, moved, holds⟩ := readBytes_returns h
      rw [same] at moved holds ⊢
      rw [moved]
      exact .bytes holds

/-! ## Values -/

/-- The name that a number gets: that of the first listed value with its integer. -/
def Named {s : Schema} (n : Node s) (value : NumberValue) (matched : Option String) : Prop :=
  ∃ choices, n.numberValues = .ok choices ∧
    matched = (value.toInt?.bind fun k => choices.find? (·.value == k)).map (·.name)

theorem matchNumber_returns {offset : Nat} {value : NumberValue} {matched : Option String}
    (h : Returns (d.matchNumber n offset value) st matched st') :
    Named n value matched ∧ st'.reading = st.reading := by
  simp only [matchNumber, returns_bind, returns_resolved, returns_ite, returns_pure] at h
  obtain ⟨choices, _, ⟨known, rfl⟩, ⟨-, mustMatch, _, ⟨-, rfl⟩, h⟩ | ⟨-, rfl, rfl⟩⟩ := h
  · obtain ⟨-, _, _, violates, rfl, rfl⟩ | ⟨-, rfl, rfl⟩ := h
    · exact ⟨⟨choices, known, rfl⟩, violation_returns violates⟩
    · exact ⟨⟨choices, known, rfl⟩, rfl⟩
  · exact ⟨⟨choices, known, rfl⟩, rfl⟩

theorem checkRange_returns {offset : Nat} {value : NumberValue} {u : Unit}
    (h : Returns (d.checkRange p n offset value) st u st') : st'.reading = st.reading := by
  simp only [checkRange, returns_bind, evalAttribute_returns, returns_ite, returns_pure] at h
  obtain ⟨_, _, ⟨-, rfl⟩, _, _, ⟨-, rfl⟩, ⟨-, violates⟩ | ⟨-, -, rfl⟩⟩ := h
  · exact violation_returns violates
  · rfl

/-- What a number carries beside its value: its name, and the fields that its masks extract. -/
structure Filled {s : Schema} (n : Node s) (value : NumberValue) (matched : Option String)
    (fields : List MaskValue) : Prop where
  named : Named n value matched
  masked : ∃ masks, n.masks = .ok masks ∧ fields = masks.map (extract value.rawBits)

theorem finishNumber_returns {offset len : Nat} {value : NumberValue} {bits : Option BitSpan}
    {order : ByteOrder} {v : Value}
    (h : Returns (d.finishNumber p n offset len value bits order) st v st') :
    (∃ matched masks, v = ⟨n.id, offset, len, some order, .number value matched masks bits, []⟩ ∧
      Filled n value matched masks) ∧ st'.reading = st.reading := by
  simp only [finishNumber, returns_bind, returns_resolved, returns_record, returns_pure] at h
  obtain ⟨matched, _, matches_, _, _, checks, masks, _, ⟨masked, rfl⟩, _, _, rfl, rfl, rfl⟩ := h
  obtain ⟨named, still⟩ := matchNumber_returns matches_
  refine ⟨⟨matched, _, rfl, named, masks, masked, rfl⟩, ?_⟩
  exact (checkRange_returns checks).trans still

/-- The value that a pattern stands for in a kind of number. -/
inductive Interprets (r : RawNumber) : NumberKind → NumberValue → Prop
  | unsigned : Interprets r .unsigned (.unsigned (UInt64.ofNat r.raw))
  | signed : Interprets r .signed (.signed (Int64.ofInt (Bits.signed r.raw r.width)))
  | single (width : r.width = 32) : Interprets r .float (.float (Binary64.ofBinary32 r.raw))
  | double (width : r.width = 64) : Interprets r .float (.float ⟨UInt64.ofNat r.raw⟩)

omit [ByteSource σ] [SliceLike σ] in
theorem interpret_returns {kind : NumberKind} {r : RawNumber} {value : NumberValue}
    (h : Returns (d.interpret n kind r) st value st') : Interprets r kind value ∧ st' = st := by
  cases kind with
  | unsigned =>
    obtain ⟨rfl, rfl⟩ := returns_pure.mp h
    exact ⟨.unsigned, rfl⟩
  | signed =>
    obtain ⟨rfl, rfl⟩ := returns_pure.mp h
    exact ⟨.signed, rfl⟩
  | float =>
    simp only [interpret, returns_ite, returns_pure, returns_fail, and_false, or_false] at h
    obtain ⟨width, rfl, rfl⟩ | ⟨-, width, rfl, rfl⟩ := h
    · exact ⟨.single width, rfl⟩
    · exact ⟨.double width, rfl⟩

/-- How a number decodes: it is read, or it is computed and takes no bytes, or it is computed and
skips its declared length. -/
inductive NumberDecoded (d : Decoder σ) (p : Place) (n : Node d.schema) (before : Reading) :
    Value → Reading → Prop
  | read {kind : NumberKind} {order : ByteOrder} {unit : LengthUnit} {width : Nat} {r : RawNumber}
      {value : NumberValue} {matched : Option String} {masks : List MaskValue} {after : Reading}
      (plain : n.lookup .valueExpression = .ok none) (ofKind : n.numberKind = .ok kind)
      (ordered : n.byteOrder = .ok order) (wide : d.HasWidth p n unit width)
      (raw : RawRead p.limit order width before unit r after) (means : Interprets r kind value) :
      NumberDecoded d p n before
        ⟨n.id, r.offset, r.len, some order, .number value matched masks r.bits, []⟩ after
  | computed {expression : Reference} {order : ByteOrder} {value : NumberValue}
      {matched : Option String} {masks : List MaskValue}
      (given : n.lookup .valueExpression = .ok (some expression))
      (undeclared : d.Declares p n none) :
      NumberDecoded d p n before
        ⟨n.id, before.cursor, 0, some order, .number value matched masks none, []⟩ before
  | skipped {expression : Reference} {order : ByteOrder} {len : Nat} {value : NumberValue}
      {matched : Option String} {masks : List MaskValue}
      (given : n.lookup .valueExpression = .ok (some expression))
      (declared : d.Declares p n (some len)) (within : before.cursor + len ≤ p.limit) :
      NumberDecoded d p n before
        ⟨n.id, before.cursor, len, some order, .number value matched masks none, []⟩
        (before.afterBytes len)

theorem computedPlace_returns {offset start len : Nat} (at_ : offset = st.reading.cursor)
    (h : Returns (d.computedPlace p n offset) st (start, len) st') :
    start = st.reading.cursor ∧
      (d.Declares p n none ∧ len = 0 ∧ st'.reading = st.reading ∨
        d.Declares p n (some len) ∧ st.reading.cursor + len ≤ p.limit ∧
          st'.reading = st.reading.afterBytes len) := by
  simp only [computedPlace, returns_bind, returns_resolved] at h
  obtain ⟨length, _, ⟨declared, rfl⟩, h⟩ := h
  cases length with
  | none =>
    simp only [returns_pure, Prod.mk.injEq] at h
    obtain ⟨⟨rfl, rfl⟩, rfl⟩ := h
    exact ⟨at_, .inl ⟨declared, rfl, rfl⟩⟩
  | some length =>
    simp only [returns_bind, returns_align, lengthBytes_returns, returns_pure, Prod.mk.injEq] at h
    obtain ⟨_, _, rfl, start, _, tells, len, _, ⟨measures, rfl⟩, _, _, skips, ⟨rfl, rfl⟩, rfl⟩ := h
    obtain ⟨rfl, same⟩ := tellAt_returns tells
    obtain ⟨within, moved⟩ := skip_returns skips
    rw [same] at within moved
    exact ⟨rfl, .inr ⟨⟨length, declared, measures⟩, within, moved⟩⟩

theorem decodeNumber_returns {v : Value} (h : Returns (d.decodeNumber p n) st v st') :
    NumberDecoded d p n st.reading v st'.reading := by
  simp only [decodeNumber, returns_bind, returns_resolved] at h
  obtain ⟨offset, told, tells, kind, _, ⟨ofKind, rfl⟩, order, _, ⟨ordered, rfl⟩, expression, _,
    ⟨given, rfl⟩, h⟩ := h
  obtain ⟨rfl, same⟩ := tell_returns tells
  cases expression with
  | none =>
    simp only [returns_bind] at h
    obtain ⟨r, _, reads, value, _, interprets, finishes⟩ := h
    obtain ⟨unit, width, wide, raw⟩ := readRaw_returns reads
    obtain ⟨means, rfl⟩ := interpret_returns interprets
    obtain ⟨⟨matched, masks, rfl, -⟩, still⟩ := finishNumber_returns finishes
    rw [still]
    rw [same] at raw
    exact .read given ofKind ordered wide raw means
  | some expression =>
    simp only [returns_bind, evalInteger_returns] at h
    obtain ⟨k, _, ⟨-, rfl⟩, ⟨start, len⟩, _, places, finishes⟩ := h
    obtain ⟨⟨matched, masks, rfl, -⟩, still⟩ := finishNumber_returns finishes
    -- A computed number reads nothing, so it only depends on how far its place reaches.
    obtain ⟨rfl, placed⟩ := computedPlace_returns (by rw [same]) places
    rw [still]
    rw [same] at placed ⊢
    obtain ⟨undeclared, rfl, moved⟩ | ⟨declared, within, moved⟩ := placed
    · rw [moved]
      exact .computed given undeclared
    · rw [moved]
      exact .skipped given declared within

omit [SliceLike σ] in
/-- Every number is finished in the same way, wherever its value is from. -/
theorem decodeNumber_finishes {v : Value} (h : Returns (d.decodeNumber p n) st v st') :
    ∃ start len value bits order mid,
      Returns (d.finishNumber p n start len value bits order) mid v st' := by
  simp only [decodeNumber, returns_bind] at h
  obtain ⟨_, _, -, kind, _, -, order, _, -, expression, _, -, h⟩ := h
  cases expression with
  | some expression =>
    simp only [returns_bind] at h
    obtain ⟨k, _, -, ⟨start, len⟩, mid, -, finishes⟩ := h
    exact ⟨_, _, _, _, _, mid, finishes⟩
  | none =>
    simp only [returns_bind] at h
    obtain ⟨r, _, -, value, mid, -, finishes⟩ := h
    exact ⟨_, _, _, _, _, mid, finishes⟩

theorem decodeNumber_filled {v : Value} {value : NumberValue} {matched : Option String}
    {fields : List MaskValue} {bits : Option BitSpan} (h : Returns (d.decodeNumber p n) st v st')
    (payload : v.payload = .number value matched fields bits) : Filled n value matched fields := by
  obtain ⟨_, _, _, _, _, mid, finishes⟩ := decodeNumber_finishes h
  obtain ⟨⟨_, _, rfl, filled⟩, -⟩ := finishNumber_returns finishes
  cases payload
  exact filled

end Decoder

end BinaryTemplate
