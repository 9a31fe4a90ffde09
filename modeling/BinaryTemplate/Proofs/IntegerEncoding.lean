import BinaryTemplate.Proofs.BitStream
import BinaryTemplate.Proofs.Layout

/-!
# Integers and their encodings

An integer that fits a number is written as its two's complement pattern, in whole bytes of either
order or in bits that start anywhere in the file. A number that lies on such an encoding is decoded
as just this integer: what is left of its decode is the check of that value against the constraints
of the number.
-/

namespace BinaryTemplate

namespace Bits

/-- The lowest `width` bits of a number, the least significant one first. -/
def ofNat : (width : Nat) → Nat → List Bool
  | 0, _ => []
  | width + 1, k => k.testBit 0 :: ofNat width (k / 2)

@[simp] theorem length_ofNat (width k : Nat) : (ofNat width k).length = width := by
  induction width generalizing k with
  | zero => rfl
  | succ width inductionHypothesis => rw [ofNat, List.length_cons, inductionHypothesis]

theorem toNat_ofNat {width k : Nat} (inRange : k < 2 ^ width) : toNat (ofNat width k) = k := by
  induction width generalizing k with
  | zero =>
    rw [Nat.pow_zero] at inRange
    rw [ofNat, toNat]
    omega
  | succ width inductionHypothesis =>
    have rest : k / 2 < 2 ^ width := by
      rw [Nat.pow_succ] at inRange
      omega
    have bit : (k.testBit 0).toNat = k % 2 := by
      rw [Nat.testBit_zero]
      have parity := Nat.mod_two_eq_zero_or_one k
      rcases parity with even | odd <;> simp [*]
    rw [ofNat, toNat, inductionHypothesis rest, bit]
    omega

/-- The two's complement pattern of an integer. -/
def pattern (width : Nat) (i : Int) : Nat := (i % 2 ^ width).toNat

theorem patterns_eq (width : Nat) : patterns width = 2 ^ width := by
  rw [patterns, Nat.shiftLeft_eq, Nat.one_mul]

theorem natCast_pattern (width : Nat) (i : Int) : (pattern width i : Int) = i % 2 ^ width :=
  Int.toNat_of_nonneg (Int.emod_nonneg _ (by positivity))

theorem pattern_lt (width : Nat) (i : Int) : pattern width i < 2 ^ width := by
  have below : i % 2 ^ width < 2 ^ width := Int.emod_lt_of_pos _ (by positivity)
  rw [← natCast_pattern] at below
  exact_mod_cast below

theorem pattern_of_nonneg {width : Nat} {i : Int} (lower : 0 ≤ i) (upper : i < 2 ^ width) :
    (pattern width i : Int) = i := by
  rw [natCast_pattern, Int.emod_eq_of_lt lower upper]

/-- An integer is the one that its two's complement pattern stands for. -/
theorem signed_pattern {width : Nat} {i : Int} (wide : 0 < width) (lower : -2 ^ (width - 1) ≤ i)
    (upper : i < 2 ^ (width - 1)) : signed (pattern width i) width = i := by
  have half : (2 : Int) ^ width = 2 * 2 ^ (width - 1) := by
    rw [← pow_succ', Nat.sub_add_cancel wide]
  have same := natCast_pattern width i
  have below := pattern_lt width i
  unfold signed
  rw [patterns_eq]
  have cast : ((2 ^ width : Nat) : Int) = 2 ^ width := by norm_cast
  by_cases negative : i < 0
  -- A negative integer is one turn below its pattern.
  · have wrapped : i % 2 ^ width = i + 2 ^ width := by
      rw [← Int.add_emod_right, Int.emod_eq_of_lt (by omega) (by omega)]
    rw [if_neg (by omega)]
    omega
  · rw [Int.emod_eq_of_lt (by omega) (by omega)] at same
    rw [if_pos (by omega)]
    omega

end Bits

/-- The pattern of so many bytes, once it is written in them. -/
theorem Bytes.toNatIn_pattern (order : ByteOrder) (len : Nat) (i : Int) :
    toNatIn order (ofNatIn order len (Bits.pattern (len * 8) i)) = Bits.pattern (len * 8) i := by
  have patterns : 2 ^ (len * 8) = 256 ^ len := by rw [Nat.mul_comm, Nat.pow_mul]
  exact toNatIn_ofNatIn order (patterns ▸ Bits.pattern_lt (len * 8) i)

namespace NumberKind

/-- The integers that numbers of a kind and a width in bits can have; a float has none. -/
def Ranges (width : Nat) (i : Int) : NumberKind → Prop
  | .unsigned => 0 ≤ i ∧ i < 2 ^ width
  | .signed => -2 ^ (width - 1) ≤ i ∧ i < 2 ^ (width - 1)
  | .float => False

instance (width : Nat) (i : Int) : (kind : NumberKind) → Decidable (kind.Ranges width i)
  | .unsigned => inferInstanceAs (Decidable (0 ≤ i ∧ i < 2 ^ width))
  | .signed => inferInstanceAs (Decidable (-2 ^ (width - 1) ≤ i ∧ i < 2 ^ (width - 1)))
  | .float => inferInstanceAs (Decidable False)

/-- A value is an integer of a kind. -/
inductive Denotes : NumberKind → NumberValue → Int → Prop
  | unsigned (n : UInt64) : Denotes .unsigned (.unsigned n) n.toNat
  | signed (n : Int64) : Denotes .signed (.signed n) n.toInt

theorem Denotes.unique {kind : NumberKind} {value value' : NumberValue} {i : Int}
    (h : kind.Denotes value i) (h' : kind.Denotes value' i) : value = value' := by
  generalize same : i = j at h'
  cases h with
  | unsigned n =>
    cases h' with
    | unsigned n' => rw [UInt64.toNat_inj.mp (Int.ofNat_inj.mp same)]
  | signed n =>
    cases h' with
    | signed n' => rw [Int64.toInt_inj.mp same]

end NumberKind

namespace Decoder

open DecodeM

/-- The pattern of an integer of at most 64 bits is understood as that integer. -/
theorem interprets_pattern {kind : NumberKind} {r : RawNumber} {i : Int} (wide : 0 < r.width)
    (most : r.width ≤ 64) (raw : r.raw = Bits.pattern r.width i) (fits : kind.Ranges r.width i) :
    ∃ value, Interprets r kind value ∧ kind.Denotes value i := by
  cases kind with
  | unsigned =>
    have below := Bits.pattern_lt r.width i
    have most : 2 ^ r.width ≤ 2 ^ 64 := Nat.pow_le_pow_right (by decide) most
    have value : ((UInt64.ofNat r.raw).toNat : Int) = i := by
      rw [UInt64.toNat_ofNat', Nat.mod_eq_of_lt (by omega), raw]
      exact Bits.pattern_of_nonneg fits.1 fits.2
    exact ⟨_, .unsigned, value ▸ .unsigned _⟩
  | signed =>
    obtain ⟨lower, upper⟩ := fits
    have most : (2 : Int) ^ (r.width - 1) ≤ 2 ^ 63 := pow_le_pow_right₀ (by decide) (by omega)
    have value : (Int64.ofInt (Bits.signed r.raw r.width)).toInt = i := by
      rw [raw, Bits.signed_pattern wide lower upper]
      exact Int64.toInt_ofInt_of_le (by omega) (by omega)
    have denotes := NumberKind.Denotes.signed (Int64.ofInt (Bits.signed r.raw r.width))
    rw [value] at denotes
    exact ⟨_, .signed, denotes⟩
  | float => exact absurd fits id

/-- What a pattern is understood as depends on nothing but the pattern and its width. -/
theorem Interprets.of_pattern {kind : NumberKind} {r r' : RawNumber} {value : NumberValue}
    (h : Interprets r kind value) (raw : r.raw = r'.raw) (width : r.width = r'.width) :
    Interprets r' kind value := by
  cases h with
  | unsigned => exact raw ▸ .unsigned
  | signed => exact raw ▸ width ▸ .signed
  | single single => exact raw ▸ .single (width ▸ single)
  | double double => exact raw ▸ .double (width ▸ double)

variable {σ : Type} [ByteSource σ] [SliceLike σ] {d : Decoder σ} {p : Place} {n : Node d.schema}
  {before after : Reading}

/-- A number of a kind that is read from so many bits, in an order if they are whole bytes. -/
structure ReadNumber (d : Decoder σ) (p : Place) (n : Node d.schema) (kind : NumberKind)
    (order : ByteOrder) (unit : LengthUnit) (width : Nat) : Prop where
  isRead : n.lookup .valueExpression = .ok none
  ofKind : n.numberKind = .ok kind
  ordered : n.byteOrder = .ok order
  wide : d.HasWidth p n unit width

/-- The number is decoded as this value: the value is checked, and it is returned if nothing
constrains it. -/
structure DecodesAs (d : Decoder σ) (p : Place) (n : Node d.schema) (before : Reading) (len : Nat)
    (order : ByteOrder) (bits : Option BitSpan) (value : NumberValue) (after : Reading) : Prop where
  checks : Leads (d.decodeNumber p n) before
    (d.finishNumber p n before.cursor len value bits order) after
  returns : d.Unconstrained p n → Delivers (d.decodeNumber p n) before
    ⟨n.id, before.cursor, len, some order, .number value none [] bits, []⟩ after

theorem ReadNumber.decodesAs {kind : NumberKind} {order : ByteOrder} {unit : LengthUnit}
    {width raw len : Nat} {bits : Option BitSpan} {value : NumberValue}
    (number : d.ReadNumber p n kind order unit width)
    (read : RawRead p.limit order width before unit ⟨raw, before.cursor, len, bits, width⟩ after)
    (means : Interprets ⟨raw, before.cursor, len, bits, width⟩ kind value)
    (indexed : unit = .bit → nextBit before.cursor before.pending.length < positionLimit) :
    d.DecodesAs p n before len order bits value after := by
  have leads := decodeNumber_leads number.isRead number.ofKind number.ordered number.wide read means
    indexed
  exact ⟨leads, fun free => leads.delivers (finishNumber_delivers free)⟩

/-- The last byte of a big-endian number weighs as the first one of a little-endian number. -/
theorem reversed_decode {d' : Decoder σ} {p' : Place} {n' : Node d'.schema} {before' : Reading}
    {kind : NumberKind} {len : Nat} (number : d.ReadNumber p n kind .little .byte (len * 8))
    (number' : d'.ReadNumber p' n' kind .big .byte (len * 8)) (holds : before.Holds p.limit len)
    (holds' : before'.Holds p'.limit len) (known : kind = .float → len = 4 ∨ len = 8)
    (reversed : window before'.data before'.cursor len =
      (window before.data before.cursor len).reverse) :
    ∃ value, d.DecodesAs p n before len .little none value (before.afterBytes len) ∧
      d'.DecodesAs p' n' before' len .big none value (before'.afterBytes len) := by
  have read : RawRead p.limit .little (len * 8) before .byte _ _ := rawRead_of_bytes holds
  have read' : RawRead p'.limit .big (len * 8) before' .byte _ _ := rawRead_of_bytes holds'
  -- Both orders read one pattern, so whatever that means for the kind they agree.
  have same : Bytes.toNatIn .big (window before'.data before'.cursor len) =
      Bytes.toNatIn .little (window before.data before.cursor len) := by
    rw [reversed]
    simp only [Bytes.toNatIn, Bytes.toNatBig, List.reverse_reverse]
  rw [same] at read'
  have both {value : NumberValue}
      (means : Interprets ⟨Bytes.toNatIn .little (window before.data before.cursor len),
        before.cursor, len, none, len * 8⟩ kind value) :
      ∃ value, d.DecodesAs p n before len .little none value (before.afterBytes len) ∧
        d'.DecodesAs p' n' before' len .big none value (before'.afterBytes len) :=
    ⟨value, number.decodesAs read means (by simp),
      number'.decodesAs read' (means.of_pattern rfl rfl) (by simp)⟩
  cases kind with
  | unsigned => exact both .unsigned
  | signed => exact both .signed
  | float =>
    rcases known rfl with rfl | rfl
    · exact both (.single rfl)
    · exact both (.double rfl)

/-- Whole bytes within the frame decode as the integer that they encode. -/
theorem bytes_decode {kind : NumberKind} {order : ByteOrder} {len : Nat} {i : Int}
    (number : d.ReadNumber p n kind order .byte (len * 8)) (fits : kind.Ranges (len * 8) i)
    (within : before.cursor + len ≤ p.limit)
    (encoded : window before.data before.cursor len =
      Bytes.ofNatIn order len (Bits.pattern (len * 8) i)) :
    ∃ value, kind.Denotes value i ∧
      d.DecodesAs p n before len order none value (before.afterBytes len) := by
  obtain ⟨_, _, _, _, _, _, wide, most⟩ := number.wide
  -- The bytes of the encoding are all there.
  have present : before.cursor + len ≤ before.data.size := by
    have count := congrArg List.length encoded
    simp only [window, Array.length_toList, Array.size_extract, Bytes.length_ofNatIn] at count
    omega
  have read : RawRead p.limit order (len * 8) before .byte _ _ :=
    rawRead_of_bytes ⟨within, present⟩
  rw [encoded, Bytes.toNatIn_pattern] at read
  obtain ⟨value, means, denotes⟩ := interprets_pattern
    (r := ⟨Bits.pattern (len * 8) i, before.cursor, len, none, len * 8⟩) wide most rfl fits
  exact ⟨value, denotes, number.decodesAs read means (by simp)⟩

/-- Bits within the frame decode as the integer that they encode, wherever they start. -/
theorem bits_decode {kind : NumberKind} {order : ByteOrder} {width pos : Nat} {i : Int}
    (number : d.ReadNumber p n kind order .bit width) (fits : kind.Ranges width i)
    (here : before.At pos) (indexed : pos < positionLimit) (within : pos + width ≤ 8 * p.limit)
    (encoded : Bits.slice before.data pos width = Bits.ofNat width (Bits.pattern width i)) :
    ∃ value, kind.Denotes value i ∧
      d.DecodesAs p n before (before.bytesFor width) order (some ⟨pos, width⟩) value
        (before.afterBits width) ∧
      (before.afterBits width).At (pos + width) := by
  obtain ⟨_, _, _, _, _, _, wide, most⟩ := number.wide
  have present : pos + width ≤ 8 * before.data.size := by
    have count := congrArg List.length encoded
    simp only [Bits.slice, List.length_take, List.length_drop, Bits.length_stream,
      Bits.length_ofNat] at count
    omega
  have position := here.position
  have partly := here.partly
  -- The first of the bits may be unread ones of the byte before the cursor.
  have holds : 0 < before.bytesFor width → before.Holds p.limit (before.bytesFor width) := by
    intro some
    unfold Reading.bytesFor at some ⊢
    exact ⟨by omega, by omega⟩
  obtain ⟨taken, ended, -⟩ := here.afterBits wide holds
  have read : RawRead p.limit order width before .bit _ _ := .bits holds
  rw [taken, encoded, Bits.toNat_ofNat (Bits.pattern_lt width i), here.nextBit] at read
  obtain ⟨value, means, denotes⟩ := interprets_pattern
    (r := ⟨Bits.pattern width i, before.cursor, before.bytesFor width, some ⟨pos, width⟩, width⟩)
    wide most rfl fits
  refine ⟨value, denotes, number.decodesAs read means fun _ => ?_, ended⟩
  rw [here.nextBit]
  exact indexed

/-- Integers are read back. Bytes that encode an integer in the order of a number, of one to eight
bytes and either kind, decode as just this integer, and so do bits, wherever they start. Reversed
bytes are to a big-endian number what the bytes are to a little-endian one. -/
theorem integers_are_read_back (d : Decoder σ) (p : Place) (n : Node d.schema) (before : Reading)
    (kind : NumberKind) :
    (∀ (order : ByteOrder) (len : Nat) (i : Int),
      d.ReadNumber p n kind order .byte (len * 8) → kind.Ranges (len * 8) i →
      before.cursor + len ≤ p.limit →
      window before.data before.cursor len =
        Bytes.ofNatIn order len (Bits.pattern (len * 8) i) →
      ∃ value, kind.Denotes value i ∧
        d.DecodesAs p n before len order none value (before.afterBytes len)) ∧
    (∀ (d' : Decoder σ) (p' : Place) (n' : Node d'.schema) (before' : Reading) (len : Nat),
      d.ReadNumber p n kind .little .byte (len * 8) →
      d'.ReadNumber p' n' kind .big .byte (len * 8) → before.Holds p.limit len →
      before'.Holds p'.limit len → (kind = .float → len = 4 ∨ len = 8) →
      window before'.data before'.cursor len = (window before.data before.cursor len).reverse →
      ∃ value, d.DecodesAs p n before len .little none value (before.afterBytes len) ∧
        d'.DecodesAs p' n' before' len .big none value (before'.afterBytes len)) ∧
    ∀ (order : ByteOrder) (width pos : Nat) (i : Int),
      d.ReadNumber p n kind order .bit width → kind.Ranges width i → before.At pos →
      pos < positionLimit → pos + width ≤ 8 * p.limit →
      Bits.slice before.data pos width = Bits.ofNat width (Bits.pattern width i) →
      ∃ value, kind.Denotes value i ∧
        d.DecodesAs p n before (before.bytesFor width) order (some ⟨pos, width⟩) value
          (before.afterBits width) ∧
        (before.afterBits width).At (pos + width) := by
  refine ⟨?_, ?_, ?_⟩
  · intro order len i number fits within encoded
    exact bytes_decode number fits within encoded
  · intro d' p' n' before' len number number' holds holds' known reversed
    exact reversed_decode number number' holds holds' known reversed
  · intro order width pos i number fits here indexed within encoded
    exact bits_decode number fits here indexed within encoded

/-! ## A template of one number -/

/-- A template of one number of a kind, an order, a unit and a length in it. -/
def soleNumber (kind : NumberKind) (order : ByteOrder) (unit : LengthUnit) (units : Int64) :
    Decoder Slice where
  schema :=
    { elements := #[⟨{}, .number
        { kind := some kind
          extent := { length := some (.literal units), unit := some unit }
          byteOrder := some order }⟩]
      root := ⟨0⟩ }
  options := { maxDepth := 1, maxRepeat := 1 }

section SoleNumber

variable {kind : NumberKind} {order : ByteOrder} {unit : LengthUnit} {units : Int64} {count : Nat}
  {p : Place}

def soleNode (kind : NumberKind) (order : ByteOrder) (unit : LengthUnit) (units : Int64) :
    Node (soleNumber kind order unit units).schema := ⟨⟨0⟩, _, rfl⟩

theorem soleNumber_reads (length : units.toInt = count) (wide : 0 < count * unit.bits)
    (most : count * unit.bits ≤ 64) :
    (soleNumber kind order unit units).ReadNumber p (soleNode kind order unit units) kind order
      unit (count * unit.bits) where
  isRead := by cbv
  ofKind := by cbv
  ordered := by cbv
  wide := ⟨.literal units, count, by cbv, by cbv, ⟨units, rfl, length⟩, rfl, wide, most⟩

end SoleNumber

set_option maxRecDepth 4000 in
theorem integers_are_read_back_each_way :
    (∃ value, NumberKind.signed.Denotes value (-2) ∧
      (soleNumber .signed .big .byte 3).DecodesAs (startPlace ⟨0⟩ 0 3) (soleNode ..)
        ⟨#[0xFF, 0xFF, 0xFE], 0, []⟩ 3 .big none value ⟨#[0xFF, 0xFF, 0xFE], 3, []⟩) ∧
    (∃ value, (soleNumber .float .little .byte 4).DecodesAs (startPlace ⟨0⟩ 0 4) (soleNode ..)
        ⟨#[1, 2, 3, 4], 0, []⟩ 4 .little none value ⟨#[1, 2, 3, 4], 4, []⟩ ∧
      (soleNumber .float .big .byte 4).DecodesAs (startPlace ⟨0⟩ 0 4) (soleNode ..)
        ⟨#[4, 3, 2, 1], 0, []⟩ 4 .big none value ⟨#[4, 3, 2, 1], 4, []⟩) ∧
    -- Five bits behind the first three of a byte.
    ∃ value, NumberKind.signed.Denotes value (-3) ∧
      (soleNumber .signed .little .bit 5).DecodesAs (startPlace ⟨0⟩ 0 1) (soleNode ..)
        ⟨#[0xE8], 1, [true, false, true, true, true]⟩ 0 .little (some ⟨3, 5⟩) value
        ⟨#[0xE8], 1, []⟩ := by
  have bytes : (soleNumber .signed .big .byte 3).ReadNumber (startPlace ⟨0⟩ 0 3) (soleNode ..)
      .signed .big .byte (3 * 8) := soleNumber_reads rfl (by decide) (by decide)
  have little : (soleNumber .float .little .byte 4).ReadNumber (startPlace ⟨0⟩ 0 4) (soleNode ..)
      .float .little .byte (4 * 8) := soleNumber_reads rfl (by decide) (by decide)
  have big : (soleNumber .float .big .byte 4).ReadNumber (startPlace ⟨0⟩ 0 4) (soleNode ..)
      .float .big .byte (4 * 8) := soleNumber_reads rfl (by decide) (by decide)
  have bits : (soleNumber .signed .little .bit 5).ReadNumber (startPlace ⟨0⟩ 0 1) (soleNode ..)
      .signed .little .bit (5 * 1) := soleNumber_reads rfl (by decide) (by decide)
  have third : Reading.At ⟨#[0xE8], 1, [true, false, true, true, true]⟩ 3 :=
    ⟨rfl, by decide, by decide⟩
  refine ⟨?_, ?_, ?_⟩
  · exact (integers_are_read_back _ _ _ ⟨#[0xFF, 0xFF, 0xFE], 0, []⟩ .signed).1 .big 3 (-2) bytes
      (by decide) (by decide) (by decide)
  · exact (integers_are_read_back _ _ _ ⟨#[1, 2, 3, 4], 0, []⟩ .float).2.1 _ _ _
      ⟨#[4, 3, 2, 1], 0, []⟩ 4 little big ⟨by decide, by decide⟩ ⟨by decide, by decide⟩
      (fun _ => .inl rfl) (by decide)
  · obtain ⟨value, denotes, decodes, -⟩ :=
      (integers_are_read_back _ _ _ ⟨#[0xE8], 1, [true, false, true, true, true]⟩ .signed).2.2
        .little 5 3 (-3) bits (by decide) third (by decide) (by decide) (by decide)
    exact ⟨value, denotes, decodes⟩

end Decoder

end BinaryTemplate
