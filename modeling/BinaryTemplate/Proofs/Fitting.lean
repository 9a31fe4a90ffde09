import BinaryTemplate.Proofs.Calculation
import BinaryTemplate.Proofs.Whole

/-!
# Calculations that always fit

Most calculations of a decode fit in every state, by what holds where they are made: what is skipped
ends within the frame, what is consumed of a string is no longer than its slot, and a slot is longer
than the text behind its length byte. The steps that make no other calculations are those of the
decoder.
-/

namespace BinaryTemplate

open DecodeM

/-! ## A source that notes calculations -/

namespace Calculating

variable {σ : Type} [ByteSource σ] [SliceLike σ]

instance : SliceLike (Calculating σ) where
  slice c := SliceLike.slice c.source
  seek_slice target c := SliceLike.seek_slice target c.source
  tell_slice c := SliceLike.tell_slice c.source
  size_slice c := SliceLike.size_slice c.source
  readExact_slice count c := SliceLike.readExact_slice count c.source

end Calculating

namespace DecodeM

variable {σ α β : Type} {step : DecodeM σ α} {next next' : α → DecodeM σ β} {st : DecodeState σ}

/-- Behind a step, another step only has to end in the same way after what the first one returns. -/
theorem ending_bind_congr
    (same : ∀ a mid, Returns step st a mid → (next a).ending mid = (next' a).ending mid) :
    (step >>= next).ending st = (step >>= next').ending st := by
  rw [ending_bind, ending_bind]
  rcases ended : step.ending st with ⟨e | a, mid⟩
  · rfl
  · exact same a mid ended

theorem bind_congr_of_returns
    (same : ∀ a st mid, Returns step st a mid → next a = next' a) :
    step >>= next = step >>= next' := by
  funext st
  exact ending_bind_congr fun a mid returned => congrArg (ending · mid) (same a st mid returned)

end DecodeM

namespace Calculating

variable {σ : Type} {d : Decoder σ} {p : Place} {n : Node d.schema} {offset : Nat}

theorem calculate_of_fits {s : Schema} {m : Node s} {c : Calculation} (fits : c.Fits) :
    (calculate m offset c : DecodeM (Calculating σ) Unit) = pure () := by
  unfold calculate
  rw [if_neg (not_not_intro fits)]

theorem calculate_bind {s : Schema} {m : Node s} {c : Calculation} {α : Type}
    {next : Unit → DecodeM (Calculating σ) α} (fits : c.Fits) :
    calculate m offset c >>= next = next () := by
  rw [calculate_of_fits fits, pure_bind]

/-! ## Fields whose calculations fit in any state -/

section Fields

variable [ByteSource σ]

/-- The end of what is skipped lies within the frame. -/
theorem skip_eq (small : p.limit < positionLimit) (count : Nat) :
    skip d p n count = d.calculating.skip p n count := by
  unfold skip Decoder.skip Decoder.checkBound
  simp only [bind_assoc]
  refine bind_congr fun position => ?_
  by_cases beyond : p.limit < position + count
  · simp only [if_pos beyond]
    exact bind_congr_of_returns fun _ _ _ failed => absurd failed returns_fail
  · have fits : (Calculation.sum position count).Fits := by
      show position + count < positionLimit
      omega
    simp only [if_neg beyond, pure_bind, calculate_bind fits]

omit [ByteSource σ] in
theorem indexBit_eq {pending : Nat} (indexed : Decoder.nextBit offset pending < positionLimit) :
    indexBit n offset pending = (pure () : DecodeM (Calculating σ) Unit) := by
  unfold indexBit
  unfold Decoder.nextBit at indexed
  by_cases aligned : pending = 0
  · rw [if_pos aligned] at indexed ⊢
    exact calculate_of_fits indexed
  · rw [if_neg aligned] at indexed ⊢
    have byte : (Calculation.product (offset - 1) 8).Fits := by
      show (offset - 1) * 8 < positionLimit
      omega
    have bits : (Calculation.sum ((offset - 1) * 8) (8 - pending)).Fits := indexed
    rw [calculate_bind byte, calculate_of_fits bits]

theorem takeBits_zero {width consumed raw : Nat} {pending : List Bool} :
    takeBits d p n offset width 0 consumed raw pending = (do
      setPending pending
      return (raw, consumed)) :=
  rfl

/-- The bits of a number have their places in a word of 64 bits, and those of a byte in the byte. -/
theorem takeBits_cons {width wanted consumed raw : Nat} {bit : Bool} {rest : List Bool}
    (few : wanted < width) (most : width ≤ 64) :
    takeBits d p n offset width (wanted + 1) consumed raw (bit :: rest) =
      takeBits d p n offset width wanted consumed (raw + bit.toNat <<< (width - (wanted + 1)))
        rest := by
  have inByte : (Calculation.shift 8 (8 - (bit :: rest).length)).Fits := by
    show 8 - (bit :: rest).length < 8
    rw [List.length_cons]
    omega
  have inWord : (Calculation.shift 64 (width - (wanted + 1))).Fits := by
    show width - (wanted + 1) < 64
    omega
  simp only [takeBits, refill, pure_bind, calculate_bind inByte, calculate_of_fits inWord, ite_self,
    List.headD_cons, List.tail_cons]

theorem takeBits_nil {width wanted consumed raw : Nat} :
    takeBits d p n offset width (wanted + 1) consumed raw [] = (do
      calculate n offset (.sum offset consumed)
      if p.limit ≤ offset + consumed then fail n offset (.shortRead ((wanted + 1 + 7) / 8) 0)
      let b ← onSource n offset ByteSource.readByte
      calculate n offset (.sum consumed 1)
      takeBits d p n offset width (wanted + 1) (consumed + 1) raw (Bits.ofByte b)) := by
  simp only [takeBits, refill, bind_assoc]
  refine bind_congr fun _ => ?_
  by_cases short : p.limit ≤ offset + consumed
  · rw [if_pos short, if_pos short, bind_assoc]
    exact bind_congr_of_returns fun _ _ _ failed => absurd failed returns_fail
  · rw [if_neg short, if_neg short]
    simp only [bind_assoc, pure_bind]
    -- The next bit is one of the byte, for which no further byte is read.
    rfl

omit [ByteSource σ] in
theorem interpret_eq (kind : NumberKind) {r : Decoder.RawNumber} (wide : 0 < r.width) :
    interpret d n kind r = d.calculating.interpret n kind r := by
  unfold interpret
  by_cases signed : kind = .signed ∧ r.width < 64
  · have below : (Calculation.difference 64 r.width).Fits := Nat.le_of_lt signed.2
    have shifts : (Calculation.shift 64 (64 - r.width)).Fits := by
      show 64 - r.width < 64
      omega
    rw [if_pos signed, calculate_bind below, calculate_of_fits shifts, pure_bind]
  · rw [if_neg signed]

theorem lowestSetBit_lt (mask : UInt64) : Decoder.lowestSetBit mask < 64 := by
  unfold Decoder.lowestSetBit
  cases found : (List.range 64).find? mask.toNat.testBit with
  | none => exact Nat.succ_pos 63
  | some i => exact List.mem_range.mp (List.mem_of_find?_eq_some found)

omit [ByteSource σ] in
theorem shiftMasks_eq (masks : List Mask) : shiftMasks d n offset masks = pure () := by
  induction masks with
  | nil => rfl
  | cons mask rest inductionHypothesis =>
    have fits : (Calculation.shift 64 (Decoder.lowestSetBit mask.mask)).Fits :=
      lowestSetBit_lt mask.mask
    simp only [shiftMasks, calculate_of_fits fits, inductionHypothesis, pure_bind, ite_self]

omit [ByteSource σ] in
theorem finishNumber_eq (len : Nat) (value : NumberValue) (bits : Option BitSpan)
    (order : ByteOrder) :
    finishNumber d p n offset len value bits order =
      d.calculating.finishNumber p n offset len value bits order := by
  unfold finishNumber Decoder.finishNumber
  simp only [shiftMasks_eq, pure_bind]

theorem computedPlace_eq (small : p.limit < positionLimit) :
    computedPlace d p n offset = d.calculating.computedPlace p n offset := by
  unfold computedPlace Decoder.computedPlace
  refine bind_congr fun length => ?_
  cases length with
  | none => rfl
  | some length => simp only [skip_eq small]

omit [ByteSource σ] in
theorem dropZeroUnits_eq (unit : Nat) (reversed : List UInt8) :
    dropZeroUnits d n offset unit reversed = pure (Decoder.dropZeroUnits unit reversed) := by
  fun_induction Decoder.dropZeroUnits unit reversed with
  | case1 reversed zeros inductionHypothesis =>
    have fits : (Calculation.difference reversed.length unit).Fits := zeros.2.1
    rw [dropZeroUnits, if_pos ⟨zeros.1, zeros.2.1⟩, calculate_bind fits, if_pos zeros.2.2,
      inductionHypothesis]
  | case2 reversed other =>
    rw [dropZeroUnits]
    by_cases whole : 0 < unit ∧ unit ≤ reversed.length
    · have fits : (Calculation.difference reversed.length unit).Fits := whole.2
      rw [if_pos whole, calculate_bind fits, if_neg fun zeros => other ⟨whole.1, whole.2, zeros⟩]
    · rw [if_neg whole]

theorem readFixed_eq (unit : Nat) (declared : Option Nat) :
    readFixed d p n offset unit declared = d.calculating.readFixed p n offset unit declared := by
  unfold readFixed Decoder.readFixed
  simp only [dropZeroUnits_eq, pure_bind]
  rfl

/-- The slot of a text behind its length is longer than the text. -/
theorem readPascal_eq (small : p.limit < positionLimit) (declared : Option Nat) :
    readPascal d p n offset declared = d.calculating.readPascal p n offset declared := by
  unfold readPascal Decoder.readPascal
  refine bind_congr fun first => ?_
  cases declared with
  | none => rfl
  | some slot =>
    have byte : (first.headD 0).toNat < 256 := (first.headD 0).toNat_lt
    have next : (Calculation.sum (first.headD 0).toNat 1).Fits := by
      show (first.headD 0).toNat + 1 < positionLimit
      unfold positionLimit Integer.unsignedLimit
      omega
    dsimp only
    by_cases short : slot ≤ (first.headD 0).toNat
    · rw [if_pos short, if_pos short, calculate_bind next]
      exact bind_congr_of_returns fun _ _ _ failed => absurd failed returns_fail
    · have left : (Calculation.difference slot (first.headD 0).toNat).Fits := by
        show (first.headD 0).toNat ≤ slot
        omega
      have less : (Calculation.difference (slot - (first.headD 0).toNat) 1).Fits := by
        show 1 ≤ slot - (first.headD 0).toNat
        omega
      rw [if_neg short, if_neg short]
      simp only [calculate_bind left, calculate_bind less, skip_eq small]

/-- Units are consumed one by one up to the end of the window, so one more than are consumed is at
most one more than the window. -/
theorem readUntil_eq {window : Nat} {mark : List UInt8} (some : 0 < mark.length)
    (fits : window + mark.length < positionLimit) {consumed : Nat} (within : consumed ≤ window) :
    readUntil d p n offset window mark consumed =
      d.calculating.readUntil p n mark ((window - consumed) / mark.length) := by
  -- One side counts up to the window and the other counts units down: the rest of the window
  -- is what both go through.
  induction left : window - consumed using Nat.strongRecOn generalizing consumed with
  | ind left inductionHypothesis =>
    subst left
    have next : (Calculation.sum consumed mark.length).Fits := by
      show consumed + mark.length < positionLimit
      omega
    rw [readUntil, calculate_bind next]
    by_cases whole : consumed + mark.length ≤ window
    · have units : (window - consumed) / mark.length =
          (window - (consumed + mark.length)) / mark.length + 1 := by
        rw [Nat.div_eq_sub_div some (by omega), Nat.sub_sub]
      rw [if_pos ⟨some, whole⟩, units, Decoder.readUntil,
        inductionHypothesis _ (by omega) whole rfl]
    · rw [if_neg fun both => whole both.2, Nat.div_eq_of_lt (by omega), Decoder.readUntil]

end Fields

/-! ## Strings and runs of bytes -/

section Strings

variable [ByteSource σ] [SliceLike σ]

variable {mark : List UInt8} {declared : Option Nat}

/-- A string of a declared length is looked for within it, and one without a length within what is
left of the frame. -/
theorem readTerminated_eq (small : p.limit + mark.length < positionLimit)
    (some : 0 < mark.length) (short : ∀ slot ∈ declared, slot + mark.length < positionLimit) :
    readTerminated d p n offset mark declared =
      d.calculating.readTerminated p n offset mark declared := by
  have fits : declared.getD (p.limit - offset) + mark.length < positionLimit := by
    cases declared with
    | none =>
      show p.limit - offset + mark.length < positionLimit
      omega
    | some slot => exact short slot rfl
  unfold readTerminated Decoder.readTerminated
  dsimp only
  rw [readUntil_eq some fits (Nat.zero_le _), Nat.sub_zero]
  refine bind_congr_of_returns ?_
  rintro ⟨bytes, found⟩ _ _ reads
  have consumed := Nat.le_trans (Decoder.readUntil_returns reads).2.2.1 (Nat.div_mul_le_self _ _)
  dsimp only
  generalize (if found = true then mark.length else 0) = last at consumed ⊢
  cases declared with
  | some slot =>
    have left : (Calculation.difference slot (bytes.length + last)).Fits := consumed
    have skips := skip_eq (d := d) (n := n) (Nat.lt_of_le_of_lt (Nat.le_add_right _ _) small)
      (slot - (bytes.length + last))
    simp only [calculate_bind left, skips]
  | none =>
    have wanted : (Calculation.sum (bytes.length + last) mark.length).Fits := by
      show bytes.length + last + mark.length < positionLimit
      have bound : bytes.length + last ≤ p.limit - offset := consumed
      omega
    simp only [calculate_bind wanted]

/-- Frames end, and declared lengths are, so far below `positionLimit` that a terminator more makes
no difference. -/
theorem readFramed_eq (small : p.limit + 2 < positionLimit)
    (short : ∀ slot ∈ declared, slot + 2 < positionLimit) (encoding : Text.Encoding)
    (kind : StringKind) (delimiter : Option UInt8) :
    readFramed d p n offset encoding kind delimiter declared =
      d.calculating.readFramed p n offset encoding kind delimiter declared := by
  have terminated (c : UInt8) :
      readTerminated d p n offset (Decoder.terminator encoding c) declared =
        d.calculating.readTerminated p n offset (Decoder.terminator encoding c) declared := by
    have unit := Decoder.length_terminator encoding c
    have sizes := encoding.unitSize_cases
    refine readTerminated_eq (by omega) (by omega) fun slot given => ?_
    have room := short slot given
    omega
  cases kind with
  | fixedLength => exact readFixed_eq _ _
  | pascal => exact readPascal_eq (by omega) _
  | zeroTerminated => exact terminated 0
  | delimited => exact terminated (delimiter.getD 0)

omit [ByteSource σ] [SliceLike σ] in
/-- A length in bytes was given in bits or in bytes, and as bits it is a word. -/
theorem declares_lt {slot : Nat} (h : d.Declares p n (some slot)) : 8 * slot < positionLimit := by
  obtain ⟨length, -, units, unit, -, -, whole, fits⟩ := h
  omega

omit [ByteSource σ] [SliceLike σ] in
theorem declaredBytes_short {st mid : DecodeState (Calculating σ)}
    (h : Returns (d.calculating.declaredBytes p n offset) st declared mid) :
    ∀ slot ∈ declared, slot + 2 < positionLimit := by
  rintro slot rfl
  obtain ⟨declares, -⟩ := Decoder.declaredBytes_returns.mp h
  have short := declares_lt declares
  unfold positionLimit Integer.unsignedLimit at *
  omega

/-- The bytes of a string are read from its offset on, so the cursor behind them is not before
it. -/
theorem decodeString_eq (small : p.limit + 2 < positionLimit) :
    decodeString d p n = d.calculating.decodeString p n := by
  -- Whether a calculation fits depends on what the steps before it return, so the two are compared
  -- from a state on.
  funext st
  unfold decodeString Decoder.decodeString
  refine ending_bind_congr fun _ aligned _ => ending_bind_congr fun offset told tells => ?_
  obtain ⟨rfl, same⟩ := tell_returns tells
  refine ending_bind_congr fun label read resolves => ?_
  obtain ⟨-, rfl⟩ := returns_resolved.mp resolves
  cases d.encodings.ofLabel? label with
  | none => rfl
  | some encoding =>
    refine ending_bind_congr fun delimiter _ resolves => ?_
    obtain ⟨-, rfl⟩ := returns_resolved.mp resolves
    refine ending_bind_congr fun kind _ resolves => ?_
    obtain ⟨-, rfl⟩ := returns_resolved.mp resolves
    refine ending_bind_congr fun declared sized declares => ?_
    obtain ⟨-, rfl⟩ := Decoder.declaredBytes_returns.mp declares
    rw [readFramed_eq small (declaredBytes_short declares)]
    refine ending_bind_congr fun bytes framed frames => ?_
    obtain ⟨len, moved, -⟩ := Decoder.readFramed_advances frames
    refine ending_bind_congr fun stop _ stops => ?_
    obtain ⟨rfl, -⟩ := tellAt_returns stops
    have fits : (Calculation.difference framed.reading.cursor aligned.reading.cursor).Fits := by
      show aligned.reading.cursor ≤ framed.reading.cursor
      rw [moved, same]
      exact Nat.le_add_right _ len
    exact congrArg (ending · _) (calculate_bind fits)

omit [SliceLike σ] in
theorem decodeBinary_eq (small : p.limit < positionLimit) :
    decodeBinary d p n = d.calculating.decodeBinary p n := by
  unfold decodeBinary Decoder.decodeBinary
  simp only [skip_eq small]

end Strings

/-! ## Containers -/

section Containers

variable {child : d.calculating.DecodeChild}

/-- Only a failure that reaches further than its container starts is measured. -/
theorem measureOverrun_eq (start stop : Nat) (declared : Option Nat) (e : DecodeError) :
    measureOverrun d p n start stop declared e = pure () := by
  unfold measureOverrun
  split
  · next _ _ reach _ =>
    by_cases beyond : stop < p.limit ∧ start ≤ e.offset ∧ e.offset ≤ stop ∧ stop < reach
    · have fits : (Calculation.difference reach start).Fits := by
        show start ≤ reach
        omega
      rw [if_pos beyond, calculate_of_fits fits]
    · rw [if_neg beyond]
  · rfl

variable [ByteSource σ]

theorem decodeContainer_eq (definition : Option ElementId) (children : List ElementId)
    (order : ChildOrder) (declared : Option Nat) :
    decodeContainer d child p n definition children order declared =
      d.calculating.decodeContainer child p n definition children order declared := by
  unfold decodeContainer Decoder.decodeContainer
  refine bind_congr fun _ => bind_congr fun start => bind_congr fun stop => bind_congr fun _ => ?_
  refine bind_congr fun content => bind_congr fun _ => ?_
  cases content with
  | error e =>
    dsimp only
    rw [measureOverrun_eq, pure_bind]
    rfl
  | ok inside => rfl

theorem decodeStructure_eq (definition : Node d.schema) :
    decodeStructure d child p n definition =
      d.calculating.decodeStructure child p n definition := by
  unfold decodeStructure Decoder.decodeStructure
  simp only [decodeContainer_eq]

theorem decodeStructRef_eq :
    decodeStructRef d child p n offset = d.calculating.decodeStructRef child p n offset := by
  unfold decodeStructRef Decoder.decodeStructRef
  refine bind_congr fun target => ?_
  cases target with
  | none => rfl
  | some target =>
    refine bind_congr fun definition => ?_
    cases definition.kind with
    | «structure» => exact decodeStructure_eq (d := d) definition
    | _ => rfl

/-- An element that is neither a number nor an offset makes no calculations of which one may stray,
apart from those that the elements in it make. -/
theorem decodeKind_eq [SliceLike σ] (small : p.limit + 2 < positionLimit)
    (number : ∀ body, n.kind ≠ .number body) (pointer : ∀ body, n.kind ≠ .offset body) :
    decodeKind d child p n offset = d.calculating.decodeKind child p n offset := by
  have frame : p.limit < positionLimit := by omega
  unfold decodeKind Decoder.decodeKind
  cases kind : n.kind with
  | grammar body => exact decodeContainer_eq _ _ _ _
  | grammarRef body => rfl
  | «structure» body => exact decodeStructure_eq n
  | structRef body => exact decodeStructRef_eq
  | number body => exact absurd kind (number body)
  | string body => exact decodeString_eq small
  | binary body => exact decodeBinary_eq frame
  | custom body => rfl
  | offset body => exact absurd kind (pointer body)
  | script body => rfl

end Containers

end Calculating

end BinaryTemplate
