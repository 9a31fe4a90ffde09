import BinaryTemplate.Proofs.IntegerEncoding
import BinaryTemplate.Proofs.IntegerViews
import BinaryTemplate.Proofs.Pointers

/-!
# Masks

The fields that masks take from a number are fields of the bits that were read for it: an integer
keeps its pattern in its low bits, also where its sign is extended, and a float of 64 bits is its
pattern. So masks that cover the number give all of it back. A float of 32 bits is widened before
its masks are applied, and they take their fields from the wide pattern.
-/

namespace BinaryTemplate

/-! ## Low bits -/

namespace Bits

/-- A mask of low bits only sees those. -/
theorem and_eq_mod_and {x mask width : Nat} (within : mask < 2 ^ width) :
    x &&& mask = x % 2 ^ width &&& mask := by
  rw [← Nat.mod_eq_of_lt (Nat.and_lt_two_pow x within), Nat.and_mod_two_pow,
    Nat.mod_eq_of_lt within]

theorem pattern_mod {low wide : Nat} (narrower : low ≤ wide) (i : Int) :
    pattern wide i % 2 ^ low = pattern low i := by
  have divides : (2 : Int) ^ low ∣ 2 ^ wide := pow_dvd_pow 2 narrower
  have same : ((pattern wide i % 2 ^ low : Nat) : Int) = pattern low i := by
    rw [Int.natCast_mod, natCast_pattern, natCast_pattern, Nat.cast_pow, Nat.cast_ofNat,
      Int.emod_emod_of_dvd i divides]
  exact_mod_cast same

/-- An integer is kept as its pattern of 64 bits. -/
theorem toNat_ofInt (i : Int) : (Int64.ofInt i).toUInt64.toNat = pattern 64 i :=
  BitVec.toNat_ofInt ..

/-- The integer that a pattern stands for has that pattern. -/
theorem pattern_signed {raw width : Nat} (fits : raw < 2 ^ width) :
    pattern width (signed raw width) = raw := by
  have same : (pattern width (signed raw width) : Int) = raw := by
    rw [natCast_pattern, signed, patterns_eq]
    have small : (raw : Int) % 2 ^ width = raw := by exact_mod_cast Nat.mod_eq_of_lt fits
    split
    · exact small
    · rw [Nat.cast_pow, Nat.cast_ofNat, Int.sub_emod_right, small]
  exact_mod_cast same

end Bits

namespace Decoder

open DecodeM

/-! ## Fields -/

/-- The shift of a mask is the number of zeros at its end. -/
theorem lowestSetBit_eq (mask : UInt64) : lowestSetBit mask = padicValNat 2 mask.toNat := by
  unfold lowestSetBit
  cases found : (List.range 64).find? mask.toNat.testBit with
  | none =>
    rw [List.find?_range_eq_none] at found
    have zero : mask.toNat = 0 := by
      refine Nat.eq_of_testBit_eq fun i => ?_
      rw [Nat.zero_testBit]
      obtain low | high := Nat.lt_or_ge i 64
      · exact (Bool.not_eq_true' _).mp (found i low)
      · exact Nat.testBit_lt_two_pow
          (mask.toNat_lt.trans_le (Nat.pow_le_pow_right (by decide) high))
    rw [zero, padicValNat_zero_right]
    rfl
  | some i =>
    obtain ⟨set, -, clear⟩ := List.find?_range_eq_some.mp found
    generalize mask.toNat = m at set clear
    have some_ : m ≠ 0 := by
      rintro rfl
      rw [Nat.zero_testBit] at set
      cases set
    -- No bit below the lowest one is set, and that one is.
    have divides : 2 ^ i ∣ m := by
      refine Nat.dvd_of_mod_eq_zero (Nat.eq_of_testBit_eq fun j => ?_)
      rw [Nat.testBit_mod_two_pow, Nat.zero_testBit, Bool.and_eq_false_imp]
      exact fun below => (Bool.not_eq_true' _).mp (clear j (of_decide_eq_true below))
    have stops : ¬ 2 ^ (i + 1) ∣ m := by
      rintro ⟨c, rfl⟩
      rw [Nat.testBit_two_pow_mul] at set
      simp at set
    rw [padicValNat_dvd_iff_le some_] at divides stops
    show i = padicValNat 2 m
    omega

/-- A field has the bits of a pattern that a mask selects, shifted down so that the lowest one comes
first, and the name of the first listed value that they are. -/
structure Extracts (raw : Nat) (m : Mask) (f : MaskValue) : Prop where
  own : f.name = m.name
  bits : f.value.toNat = (raw &&& m.mask.toNat) >>> padicValNat 2 m.mask.toNat
  listed : FirstNamed (fun k : Int64 => k.toInt = f.value.toNat) m.values f.matched

theorem extracts_extract (raw : UInt64) (m : Mask) : Extracts raw.toNat m (extract raw m) := by
  have small : (raw.toNat &&& m.mask.toNat) >>> lowestSetBit m.mask < 2 ^ 64 := by
    rw [Nat.shiftRight_eq_div_pow]
    exact (Nat.div_le_self _ _).trans_lt (Nat.and_le_left.trans_lt raw.toNat_lt)
  have value : (extract raw m).value.toNat =
      (raw.toNat &&& m.mask.toNat) >>> lowestSetBit m.mask := UInt64.toNat_ofNat_of_lt' small
  refine ⟨rfl, ?_, ?_⟩
  · rw [value, lowestSetBit_eq]
  · rw [value]
    exact firstNamed_find? m.values fun c => beq_iff_eq

/-- A mask of low bits extracts the same from two patterns with these low bits. -/
theorem Extracts.of_mod {raw raw' width : Nat} {m : Mask} {f : MaskValue}
    (within : m.mask.toNat < 2 ^ width) (same : raw % 2 ^ width = raw' % 2 ^ width)
    (h : Extracts raw m f) : Extracts raw' m f := by
  refine ⟨h.own, ?_, h.listed⟩
  rw [h.bits, Bits.and_eq_mod_and within, same, ← Bits.and_eq_mod_and within]

/-- Shifted back, a field is the part of the pattern under its mask. -/
theorem Extracts.shifted_back {raw : Nat} {m : Mask} {f : MaskValue} (h : Extracts raw m f) :
    f.value.toNat <<< padicValNat 2 m.mask.toNat = raw &&& m.mask.toNat := by
  have divides : 2 ^ padicValNat 2 m.mask.toNat ∣ raw &&& m.mask.toNat := by
    have clear : m.mask.toNat % 2 ^ padicValNat 2 m.mask.toNat = 0 :=
      Nat.mod_eq_zero_of_dvd pow_padicValNat_dvd
    refine Nat.dvd_of_mod_eq_zero ?_
    rw [Nat.and_mod_two_pow, clear, Nat.and_zero]
  rw [h.bits, Nat.shiftRight_eq_div_pow, Nat.shiftLeft_eq, Nat.div_mul_cancel divides]

/-- All fields at the places of their masks, joined. -/
def restored (pieces : List (Mask × MaskValue)) : Nat :=
  pieces.foldr (fun x rest => x.2.value.toNat <<< padicValNat 2 x.1.mask.toNat ||| rest) 0

/-- All bits that some masks select. -/
def covered (pieces : List (Mask × MaskValue)) : Nat :=
  pieces.foldr (fun x rest => x.1.mask.toNat ||| rest) 0

/-- What is joined is the pattern, as far as the masks cover it. -/
theorem restored_eq {raw : Nat} {pieces : List (Mask × MaskValue)}
    (extracts : ∀ x ∈ pieces, Extracts raw x.1 x.2) : restored pieces = raw &&& covered pieces := by
  induction pieces with
  | nil => exact (Nat.and_zero raw).symm
  | cons x pieces inductionHypothesis =>
    obtain ⟨first, others⟩ := List.forall_mem_cons.mp extracts
    show x.2.value.toNat <<< padicValNat 2 x.1.mask.toNat ||| restored pieces =
      raw &&& (x.1.mask.toNat ||| covered pieces)
    rw [first.shifted_back, inductionHypothesis others, Nat.and_or_distrib_left]

/-- The fields are taken from the `width` bits of a pattern: each from the bits under its mask, and
those that together cover the pattern give it back. -/
structure TakenFrom (raw width : Nat) (masks : List Mask) (fields : List MaskValue) : Prop where
  extracts : ∀ x ∈ masks.zip fields, x.1.mask.toNat < 2 ^ width → Extracts raw x.1 x.2
  restores : ∀ pieces, pieces ⊆ masks.zip fields →
    (∀ x ∈ pieces, x.1.mask.toNat < 2 ^ width) → covered pieces = 2 ^ width - 1 →
    restored pieces = raw

theorem TakenFrom.of_mod {raw wide width : Nat} {masks : List Mask} {fields : List MaskValue}
    (fits : raw < 2 ^ width) (low : wide % 2 ^ width = raw)
    (h : List.Forall₂ (Extracts wide) masks fields) : TakenFrom raw width masks fields := by
  have extracts : ∀ x ∈ masks.zip fields, x.1.mask.toNat < 2 ^ width → Extracts raw x.1 x.2 := by
    rintro ⟨m, f⟩ paired within
    refine (List.forall₂_zip h paired).of_mod within ?_
    rw [low, Nat.mod_eq_of_lt fits]
  refine ⟨extracts, fun pieces among within covers => ?_⟩
  rw [restored_eq fun x member => extracts x (among member) (within x member), covers,
    Nat.and_two_pow_sub_one_eq_mod, Nat.mod_eq_of_lt fits]

/-! ## Numbers that are read -/

/-- The value has the pattern that it stands for in its low bits, if that is not a float of 32
bits. -/
theorem Interprets.rawBits_mod {r : RawNumber} {kind : NumberKind} {value : NumberValue}
    (h : Interprets r kind value) (fits : r.raw < 2 ^ r.width) (most : r.width ≤ 64)
    (narrow : ¬ (kind = .float ∧ r.width = 32)) : value.rawBits.toNat % 2 ^ r.width = r.raw := by
  have word := Bits.toNat_word fits most
  cases h with
  | unsigned => exact word.symm ▸ Nat.mod_eq_of_lt fits
  | signed =>
    -- The extended sign lies above the width.
    rw [NumberValue.rawBits, Bits.toNat_ofInt, Bits.pattern_mod most, Bits.pattern_signed fits]
  | single width => exact absurd ⟨rfl, width⟩ narrow
  | double => exact word.symm ▸ Nat.mod_eq_of_lt fits

variable {σ : Type} {d : Decoder σ} {p : Place} {n : Node d.schema} {st st' : DecodeState σ}

theorem Filled.extracts {value : NumberValue} {matched : Option String} {fields : List MaskValue}
    (h : Filled n value matched fields) :
    ∃ masks, n.masks = .ok masks ∧ List.Forall₂ (Extracts value.rawBits.toNat) masks fields := by
  obtain ⟨masks, given, rfl⟩ := h.masked
  refine ⟨masks, given, ?_⟩
  rw [List.forall₂_map_right_iff, List.forall₂_same]
  exact fun m _ => extracts_extract value.rawBits m

variable [ByteSource σ] [SliceLike σ]

/-- How a number was read: at the cursor, of a kind and a width, as a pattern that stands for its
value. -/
structure ReadAs (d : Decoder σ) (p : Place) (n : Node d.schema) (before : Reading)
    (kind : NumberKind) (width : Nat) (r : RawNumber) (value : NumberValue) (v : Value)
    (after : Reading) : Prop where
  ofKind : n.numberKind = .ok kind
  pattern : ∃ order unit, n.byteOrder = .ok order ∧ d.HasWidth p n unit width ∧
    RawRead p.limit order width before unit r after
  placed : v.offset = before.cursor ∧ v.len = r.len
  means : Interprets r kind value

/-- What a read number and its fields have to do with the pattern that was read. -/
def TakenApart (d : Decoder σ) (p : Place) (n : Node d.schema) (before : Reading)
    (value : NumberValue) (fields : List MaskValue) (v : Value) (after : Reading) : Prop :=
  ∃ masks kind width r, n.masks = .ok masks ∧ d.ReadAs p n before kind width r value v after ∧
    r.raw < 2 ^ width ∧ List.Forall₂ (Extracts value.rawBits.toNat) masks fields ∧
    (kind = .float ∧ width = 32 → value.rawBits = (Binary64.ofBinary32 r.raw).bits) ∧
    (¬ (kind = .float ∧ width = 32) → TakenFrom r.raw width masks fields)

theorem decodeNumber_takenApart {v : Value} {value : NumberValue} {matched : Option String}
    {fields : List MaskValue} {bits : Option BitSpan} (h : Returns (d.decodeNumber p n) st v st')
    (payload : v.payload = .number value matched fields bits)
    (read : n.lookup .valueExpression = .ok none) :
    d.TakenApart p n st.reading value fields v st'.reading := by
  obtain ⟨masks, given, extracts⟩ := (decodeNumber_filled h payload).extracts
  have decoded := decodeNumber_returns h
  generalize st'.reading = after at decoded ⊢
  cases decoded with
  | computed given | skipped given => cases read.symm.trans given
  | @read kind order unit width r _ _ _ _ _ ofKind ordered wide raw means =>
    cases payload
    have most : width ≤ 64 := by
      obtain ⟨_, _, -, -, -, -, -, most⟩ := wide
      exact most
    have placed : r.offset = st.reading.cursor := by cases raw <;> rfl
    refine ⟨masks, kind, width, r, given, ⟨ofKind, ⟨order, unit, ordered, wide, raw⟩,
      ⟨placed, rfl⟩, means⟩, raw.raw_lt, extracts, ?_, ?_⟩
    · rintro ⟨rfl, single⟩
      cases means with
      | single => rfl
      | double double =>
        rw [raw.width_eq] at double
        omega
    · intro narrow
      have fits := raw.raw_lt
      rw [← raw.width_eq] at fits most narrow ⊢
      exact .of_mod fits (means.rawBits_mod fits most narrow) extracts

/-- Masks extract the bits that were read. Every number that is read, wherever it is in a decode,
has one field for each of its masks, with the name of the first listed value that the field equals.
But for a float of 32 bits, a mask within the width of the number extracts the bits under it from
the pattern that was read, and fields whose masks are within the width and cover it give the pattern
back. A float of 32 bits is taken apart as the float of 64 bits that it is widened to. -/
theorem masks_extract_read_bits (d : Decoder σ) :
    (∀ (depth : Nat) (p : Place) (n : Node d.schema) (st st' : DecodeState σ) (v : Value)
      (value : NumberValue) (matched : Option String) (fields : List MaskValue)
      (bits : Option BitSpan),
      Returns (d.decodeOne depth p n) st v st' →
      v.payload = .number value matched fields bits → n.lookup .valueExpression = .ok none →
      d.TakenApart p n st.reading value fields v st'.reading) ∧
    ∀ (element : ElementId) (source : σ) (v : Value) (warnings : List DecodeError),
      (d.decodeElement element source).result = .ok (v, warnings) →
      let bytes := SliceLike.slice source
      ∃ visits, d.Visits (startPlace element bytes.cursor bytes.data.size) [v] visits ∧
        visits.map (·.value) = v.preorder ∧
        ∀ x ∈ visits, ∀ value matched fields bits,
          x.value.payload = .number value matched fields bits →
          x.node.lookup .valueExpression = .ok none →
          ∃ before after, d.TakenApart x.place x.node before value fields x.value after := by
  constructor
  · intro depth p n st st' v value matched fields bits returned payload read
    obtain ⟨start, resumes, decoded⟩ :=
      decodeNumber_of_decodeOne returned (by rw [Value.number?, payload])
    rw [← resumes.1]
    exact decodeNumber_takenApart decoded payload read
  · intro element source v warnings ok bytes
    obtain ⟨visits, tree, values, numbers⟩ := decodeElement_numbers ok
    refine ⟨visits, tree, values, ?_⟩
    intro x visited value matched fields bits payload read
    obtain ⟨before, behind, decoded⟩ := numbers x visited value (by rw [Value.number?, payload])
    exact ⟨before.reading, behind.reading, decodeNumber_takenApart decoded payload read⟩

/-! ## A byte and a float with masks -/

/-- A number with masks. -/
def takenApart (kind : NumberKind) (len : Int64) (masks : List Mask) : Decoder Slice where
  schema :=
    { elements := #[⟨{}, .number
        { kind := some kind
          extent := { length := some (.literal len) }
          masks := some masks }⟩]
      root := ⟨0⟩ }

/-- A signed byte with its two halves, the lower one listed. -/
def halves : Decoder Slice :=
  takenApart .signed 1 [⟨"high", 0xF0, []⟩, ⟨"low", 0x0F, [⟨"three", 3⟩]⟩]

def halvesFields : List MaskValue := [⟨"high", 9, none⟩, ⟨"low", 3, some "three"⟩]

def halvesValue : Value :=
  ⟨⟨0⟩, 0, 1, some .little, .number (.signed (-109)) none halvesFields none, []⟩

def halvesRoot : Node halves.schema := ⟨⟨0⟩, _, rfl⟩

theorem masks_extract_read_bits_halves :
    ∃ after, Returns (halves.decodeOne 1 (startPlace ⟨0⟩ 0 1) halvesRoot) { source := ⟨#[0x93], 0⟩ }
        halvesValue after ∧
      halves.TakenApart (startPlace ⟨0⟩ 0 1) halvesRoot ⟨#[0x93], 0, []⟩ (.signed (-109))
        halvesFields halvesValue after.reading ∧
      ∃ visits, halves.Visits (startPlace ⟨0⟩ 0 1) [halvesValue] visits ∧
        visits.map (·.value) = halvesValue.preorder ∧
        ∀ x ∈ visits, ∀ value matched fields bits,
          x.value.payload = .number value matched fields bits →
          x.node.lookup .valueExpression = .ok none →
          ∃ before after, halves.TakenApart x.place x.node before value fields x.value after := by
  have result : ((halves.decodeOne 1 (startPlace ⟨0⟩ 0 1) halvesRoot).ending
      { source := ⟨#[0x93], 0⟩ }).1 = .ok halvesValue := by cbv
  have decodes : (halves.decodeElement ⟨0⟩ ⟨#[0x93], 0⟩).result = .ok (halvesValue, []) := by cbv
  obtain ⟨one, tree⟩ := masks_extract_read_bits halves
  have returned := returns_of_result result
  refine ⟨_, returned, ?_, tree ⟨0⟩ _ halvesValue [] decodes⟩
  exact one 1 _ halvesRoot _ _ halvesValue _ _ halvesFields _ returned rfl (by cbv)

/-- A float of 32 bits with the field of its exponent. -/
def exponentOnly : Decoder Slice := takenApart .float 4 [⟨"exponent", 0x7F800000, []⟩]

/-- The exponent of the float one is 127, and the mask of the exponent extracts zero. -/
theorem short_float_is_masked_wide :
    (exponentOnly.decodeElement ⟨0⟩ ⟨#[0x00, 0x00, 0x80, 0x3F], 0⟩).result =
        .ok (⟨⟨0⟩, 0, 4, some .little,
          .number (.float ⟨0x3FF0000000000000⟩) none [⟨"exponent", 0, none⟩] none, []⟩, []) ∧
      Bytes.toNatIn .little [0x00, 0x00, 0x80, 0x3F] = 0x3F800000 ∧
      (0x3F800000 &&& 0x7F800000) >>> padicValNat 2 0x7F800000 = 127 := by
  refine ⟨by cbv, by decide, ?_⟩
  rw [show 0x7F800000 = (0x7F800000 : UInt64).toNat from rfl, ← lowestSetBit_eq]
  decide

end Decoder

end BinaryTemplate
