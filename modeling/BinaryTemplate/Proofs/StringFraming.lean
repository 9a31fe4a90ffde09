import BinaryTemplate.Proofs.Delivery
import BinaryTemplate.Proofs.ListedValues
import BinaryTemplate.Proofs.Shortage

/-!
# How strings are framed

Which bytes a string has for its text and how many it takes, told by the bytes alone: a fixed length
without the zero units at its end, as many bytes as a length byte says, or the units in front of the
first one that is the terminator. A string is decoded from just these bytes, and where the bytes do
not tell any the decode fails.
-/

namespace BinaryTemplate

/-! ## Units -/

/-- The unit of so many bytes behind `k` others. -/
def unitAt (unit : Nat) (bytes : List UInt8) (k : Nat) : List UInt8 :=
  (bytes.drop (k * unit)).take unit

/-- The bytes are whole units, and none of them is the mark. -/
structure Unmarked (mark bytes : List UInt8) : Prop where
  whole : mark.length ∣ bytes.length
  unlike : ∀ k < bytes.length / mark.length, unitAt mark.length bytes k ≠ mark

theorem unmarked_iff {mark bytes : List UInt8} : Unmarked mark bytes ↔
    mark.length ∣ bytes.length ∧
      ∀ k < bytes.length / mark.length, unitAt mark.length bytes k ≠ mark :=
  ⟨fun ⟨whole, unlike⟩ => ⟨whole, unlike⟩, fun ⟨whole, unlike⟩ => ⟨whole, unlike⟩⟩

instance (mark bytes : List UInt8) : Decidable (Unmarked mark bytes) :=
  decidable_of_iff' _ unmarked_iff

theorem unmarked_nil (mark : List UInt8) : Unmarked mark [] := ⟨by simp, by simp⟩

theorem unmarked_append_iff {mark first rest : List UInt8} (some : 0 < mark.length)
    (one : first.length = mark.length) :
    Unmarked mark (first ++ rest) ↔ first ≠ mark ∧ Unmarked mark rest := by
  have atFirst : unitAt mark.length (first ++ rest) 0 = first := by
    rw [unitAt, Nat.zero_mul, List.drop_zero, ← one, List.take_left]
  have atNext (k : Nat) :
      unitAt mark.length (first ++ rest) (k + 1) = unitAt mark.length rest k := by
    rw [unitAt, Nat.succ_mul, Nat.add_comm, ← one, List.drop_length_add_append, one, unitAt]
  have whole : mark.length ∣ (first ++ rest).length ↔ mark.length ∣ rest.length := by
    rw [List.length_append, one]
    exact Nat.dvd_add_right (Nat.dvd_refl _)
  have count : (first ++ rest).length / mark.length = rest.length / mark.length + 1 := by
    rw [List.length_append, one, Nat.add_div_left _ some]
  simp only [unmarked_iff, whole, count, Nat.forall_lt_succ_left, atFirst, atNext]
  exact and_left_comm

/-- Whole units that fit into some room fit into its whole units. -/
theorem le_whole_units {unit size room : Nat} (some : 0 < unit) (whole : unit ∣ size)
    (fits : size ≤ room) : size ≤ room / unit * unit := by
  obtain ⟨count, rfl⟩ := whole
  have units : count ≤ room / unit := (Nat.le_div_iff_mul_le some).mpr (Nat.mul_comm .. ▸ fits)
  calc unit * count = count * unit := Nat.mul_comm ..
    _ ≤ room / unit * unit := Nat.mul_le_mul_right unit units

namespace Decoder

open DecodeM

/-! ## Zero units at the end -/

theorem zeroUnit_iff {unit : Nat} {bytes : List UInt8} :
    unit ≤ bytes.length ∧ (bytes.take unit).all (· == 0) = true ↔
      List.replicate unit 0 <+: bytes := by
  rw [List.prefix_iff_eq_take, List.length_replicate, @eq_comm _ (List.replicate unit 0),
    List.eq_replicate_iff, List.length_take, List.all_eq_true]
  simp only [beq_iff_eq]
  constructor
  · rintro ⟨room, zeros⟩
    exact ⟨Nat.min_eq_left room, zeros⟩
  · rintro ⟨room, zeros⟩
    exact ⟨by omega, zeros⟩

/-- What is left of bytes behind the zero units at their start does not start with another one. -/
theorem dropZeroUnits_eq_iff {unit : Nat} {bytes rest : List UInt8} (some : 0 < unit) :
    dropZeroUnits unit bytes = rest ↔
      (∃ zeros, bytes = List.replicate (zeros * unit) 0 ++ rest) ∧
        ¬ List.replicate unit 0 <+: rest := by
  fun_induction dropZeroUnits unit bytes with
  | case1 bytes zero inductionHypothesis =>
    have first : List.replicate unit 0 <+: bytes := zeroUnit_iff.mp zero.2
    have split : bytes = List.replicate unit 0 ++ bytes.drop unit := by
      obtain ⟨behind, rfl⟩ := first
      rw [List.drop_left' List.length_replicate]
    rw [inductionHypothesis]
    -- With a zero unit in front there is one more of them, and none at all is out of the question.
    refine and_congr_left fun stops => ⟨?_, ?_⟩
    · rintro ⟨zeros, same⟩
      refine ⟨zeros + 1, ?_⟩
      rw [split, same, Nat.succ_mul, Nat.add_comm, List.replicate_add, List.append_assoc]
    · rintro ⟨_ | zeros, same⟩
      · rw [Nat.zero_mul, List.replicate_zero, List.nil_append] at same
        exact absurd (same ▸ first) stops
      · refine ⟨zeros, ?_⟩
        rw [same, Nat.succ_mul, Nat.add_comm, List.replicate_add, List.append_assoc,
          List.drop_left' List.length_replicate]
  | case2 bytes other =>
    have stops : ¬ List.replicate unit 0 <+: bytes := fun first =>
      other ⟨some, zeroUnit_iff.mpr first⟩
    constructor
    · rintro rfl
      exact ⟨⟨0, by rw [Nat.zero_mul, List.replicate_zero, List.nil_append]⟩, stops⟩
    · rintro ⟨⟨_ | zeros, same⟩, -⟩
      · rwa [Nat.zero_mul, List.replicate_zero, List.nil_append] at same
      · rw [Nat.succ_mul, Nat.add_comm, List.replicate_add, List.append_assoc] at same
        exact absurd ⟨_, same.symm⟩ stops

theorem trimZeroUnits_eq_iff {unit : Nat} {bytes raw : List UInt8} (some : 0 < unit) :
    trimZeroUnits unit bytes = raw ↔
      (∃ zeros, bytes = raw ++ List.replicate (zeros * unit) 0) ∧
        ¬ List.replicate unit 0 <:+ raw := by
  have ends : List.replicate unit 0 <:+ raw ↔ List.replicate unit 0 <+: raw.reverse := by
    rw [← List.reverse_suffix, List.reverse_replicate, List.reverse_reverse]
  rw [trimZeroUnits, List.reverse_eq_iff, dropZeroUnits_eq_iff some, ends]
  refine and_congr_left fun _ => exists_congr fun zeros => ?_
  rw [List.reverse_eq_iff, List.reverse_append, List.reverse_reverse, List.reverse_replicate]

/-! ## The search for a terminator -/

/-- The bytes in front of the first one among so many units that is the mark, and whether there is
one; without it these are all of the units. -/
inductive Sought (mark : List UInt8) (limit : Nat) (before : Reading) (units : Nat) :
    List UInt8 → Bool → Prop
  | found {bytes : List UInt8} (unmarked : Unmarked mark bytes)
      (room : bytes.length + mark.length ≤ units * mark.length)
      (holds : before.Holds limit (bytes.length + mark.length))
      (here : window before.data before.cursor (bytes.length + mark.length) = bytes ++ mark) :
      Sought mark limit before units bytes true
  | missed
      (unmarked : Unmarked mark (window before.data before.cursor (units * mark.length)))
      (holds : 0 < units → before.Holds limit (units * mark.length)) :
      Sought mark limit before units (window before.data before.cursor (units * mark.length)) false

section Search

variable {mark bytes : List UInt8} {limit units : Nat} {before : Reading} {found : Bool}

theorem sought_zero (some : 0 < mark.length) :
    Sought mark limit before 0 bytes found ↔ bytes = [] ∧ found = false := by
  constructor
  · rintro (⟨-, room, -, -⟩ | _)
    · omega
    · exact ⟨by rw [Nat.zero_mul, window_zero], rfl⟩
  · rintro ⟨rfl, rfl⟩
    have all : window before.data before.cursor (0 * mark.length) = [] := by
      rw [Nat.zero_mul, window_zero]
    have none : Sought mark limit before 0 _ false := .missed (all ▸ unmarked_nil mark) nofun
    rwa [all] at none

/-- Nothing is found or missed where the first unit cannot be read. -/
theorem not_sought_succ (short : ¬ before.Holds limit mark.length) :
    ¬ Sought mark limit before (units + 1) bytes found := by
  rintro (⟨-, -, holds, -⟩ | ⟨-, holds⟩)
  · exact short (holds.mono (Nat.le_add_left ..))
  · exact short ((holds (Nat.succ_pos _)).mono (Nat.le_mul_of_pos_left _ (Nat.succ_pos _)))

section Step

variable (some : 0 < mark.length) (holds : before.Holds limit mark.length)

include some holds

/-- The first unit is the mark, or the search goes on behind it. -/
theorem Sought.step (h : Sought mark limit before (units + 1) bytes found) :
    (window before.data before.cursor mark.length = mark ∧ bytes = [] ∧ found = true) ∨
      (window before.data before.cursor mark.length ≠ mark ∧ ∃ rest,
        Sought mark limit { before with cursor := before.cursor + mark.length } units rest found ∧
        bytes = window before.data before.cursor mark.length ++ rest) := by
  have one : (window before.data before.cursor mark.length).length = mark.length :=
    length_window holds.2
  rcases h with ⟨unmarked, room, holds', here⟩ | ⟨unmarked, holds'⟩
  · rcases eq_or_ne bytes [] with rfl | nonempty
    · rw [List.length_nil, Nat.zero_add] at here
      exact .inl ⟨here, rfl, rfl⟩
    -- The first unit is split off on both sides, so what is found behind it is what is left.
    · have longer : mark.length ≤ bytes.length :=
        Nat.le_of_dvd (List.length_pos_iff.mpr nonempty) unmarked.whole
      obtain ⟨first, rest, rfl, length⟩ :
          ∃ first rest, bytes = first ++ rest ∧ first.length = mark.length :=
        ⟨_, _, (List.take_append_drop mark.length bytes).symm, by simp [longer]⟩
      rw [List.length_append, length, Nat.add_assoc] at here holds' room
      rw [← window_add, List.append_assoc] at here
      obtain ⟨rfl, behind⟩ := List.append_inj here (one.trans length.symm)
      rw [unmarked_append_iff some one] at unmarked
      rw [Reading.holds_add_iff] at holds'
      rw [Nat.succ_mul] at room
      exact .inr ⟨unmarked.1, rest, .found unmarked.2 (by omega) holds' behind, rfl⟩
  · have holds' := holds' (Nat.succ_pos _)
    rw [Nat.succ_mul, Nat.add_comm] at unmarked holds' ⊢
    rw [← window_add, unmarked_append_iff some one] at unmarked
    exact .inr ⟨unmarked.1, _, .missed unmarked.2 fun _ => Reading.holds_add_iff.mp holds',
      (window_add ..).symm⟩

omit some in
theorem sought_here (same : window before.data before.cursor mark.length = mark) :
    Sought mark limit before (units + 1) [] true := by
  refine .found (unmarked_nil mark) ?_ ?_ ?_ <;> rw [List.length_nil, Nat.zero_add]
  · exact Nat.le_mul_of_pos_left _ (Nat.succ_pos _)
  · exact holds
  · exact same

theorem Sought.later (other : window before.data before.cursor mark.length ≠ mark)
    (h : Sought mark limit { before with cursor := before.cursor + mark.length } units bytes
      found) :
    Sought mark limit before (units + 1) (window before.data before.cursor mark.length ++ bytes)
      found := by
  have one : (window before.data before.cursor mark.length).length = mark.length :=
    length_window holds.2
  have count : (units + 1) * mark.length = mark.length + units * mark.length := by
    rw [Nat.succ_mul, Nat.add_comm]
  rcases h with ⟨unmarked, room, holds', here⟩ | ⟨unmarked, holds'⟩
  · have length : (window before.data before.cursor mark.length ++ bytes).length + mark.length =
        mark.length + (bytes.length + mark.length) := by
      rw [List.length_append, one, Nat.add_assoc]
    refine .found ((unmarked_append_iff some one).mpr ⟨other, unmarked⟩) ?_ ?_ ?_ <;> rw [length]
    · rw [count]
      omega
    · exact Reading.holds_add_iff.mpr holds'
    · rw [← window_add, List.append_assoc]
      exact congrArg _ here
  · have all := (unmarked_append_iff some one).mpr ⟨other, unmarked⟩
    dsimp only at all ⊢
    rw [window_add, ← count] at all ⊢
    refine .missed all fun _ => ?_
    rw [count, Reading.holds_add_iff]
    -- Where the search ends here, it is only known that the first unit is there.
    rcases Nat.eq_zero_or_pos units with rfl | more
    · rw [Nat.zero_mul]
      exact Reading.holds_add_iff.mp holds
    · exact holds' more

end Step

/-- A search has one result. -/
theorem Sought.unique (some : 0 < mark.length) {bytes' : List UInt8} {found' : Bool}
    (h : Sought mark limit before units bytes found)
    (h' : Sought mark limit before units bytes' found') : bytes' = bytes ∧ found' = found := by
  induction units generalizing before bytes bytes' with
  | zero =>
    obtain ⟨rfl, rfl⟩ := (sought_zero some).mp h
    exact (sought_zero some).mp h'
  | succ units inductionHypothesis =>
    by_cases holds : before.Holds limit mark.length
    · obtain ⟨same, rfl, rfl⟩ | ⟨other, rest, sought, rfl⟩ := h.step some holds
      · obtain ⟨-, rfl, rfl⟩ | ⟨other, -⟩ := h'.step some holds
        · exact ⟨rfl, rfl⟩
        · exact absurd same other
      · obtain ⟨same, -⟩ | ⟨-, rest', sought', rfl⟩ := h'.step some holds
        · exact absurd same other
        · obtain ⟨rfl, rfl⟩ := inductionHypothesis sought sought'
          exact ⟨rfl, rfl⟩
    · exact absurd h (not_sought_succ holds)

/-- The bytes and the mark are no more than the units that are looked at. -/
theorem Sought.consumed_le (h : Sought mark limit before units bytes found) :
    bytes.length + (if found then mark.length else 0) ≤ units * mark.length := by
  cases h with
  | found _ room => exact room
  | missed => simp [window]

end Search

section Delivery

variable {σ : Type} [ByteSource σ] [SliceLike σ] {d : Decoder σ} {p : Place} {n : Node d.schema}
  {before : Reading} {mark bytes : List UInt8} {units : Nat} {found : Bool}

/-! ## Reads for want of bytes -/

theorem checkBound_fails {count : Nat} (beyond : p.limit < before.cursor + count) :
    FailsWith (d.checkBound p n count) before fun e => e.isShort = true := by
  refine Delivers.tell.fails ?_
  rw [if_pos beyond]
  exact .first (.fail rfl)

theorem read_fails {count : Nat} (short : ¬ before.Holds p.limit count) :
    FailsWith (d.read p n count) before fun e => e.isShort = true := by
  by_cases within : before.cursor + count ≤ p.limit
  · refine (checkBound_delivers within).fails ?_
    intro st here
    obtain ⟨bytes, st', returned⟩ | ⟨e, st', thrown⟩ :=
      returns_or_throws (onSource n before.cursor (ByteSource.readExact count)) st
    · obtain ⟨present, -⟩ := readExact_returns returned
      rw [here] at present
      exact absurd ⟨within, present⟩ short
    · obtain ⟨-, available, rfl⟩ := readExact_throws thrown
      exact ⟨_, st', thrown, rfl⟩
  · exact .first (checkBound_fails (by omega))

theorem skip_fails {count : Nat} (beyond : p.limit < before.cursor + count) :
    FailsWith (d.skip p n count) before fun e => e.isShort = true :=
  .first (checkBound_fails beyond)

/-! ## The search as it is decoded -/

theorem readUntil_delivers (some : 0 < mark.length)
    (sought : Sought mark p.limit before units bytes found) :
    Delivers (d.readUntil p n mark units) before (bytes, found)
      { before with
        cursor := before.cursor + (bytes.length + if found then mark.length else 0) } := by
  induction units generalizing before bytes with
  | zero =>
    obtain ⟨rfl, rfl⟩ := (sought_zero some).mp sought
    exact .pure
  | succ units inductionHypothesis =>
    by_cases holds : before.Holds p.limit mark.length
    · rw [readUntil]
      apply (read_delivers holds).bind
      obtain ⟨same, rfl, rfl⟩ | ⟨other, rest, sought', rfl⟩ := sought.step some holds
      · rw [if_pos same, List.length_nil, Nat.zero_add]
        exact .pure
      · rw [if_neg other, List.length_append, length_window holds.2, Nat.add_assoc,
          ← Nat.add_assoc before.cursor]
        exact (inductionHypothesis sought').bind .pure
    · exact absurd sought (not_sought_succ holds)

/-- A search without a result is one for which the bytes do not last. -/
theorem readUntil_fails (some : 0 < mark.length)
    (none : ∀ bytes found, ¬ Sought mark p.limit before units bytes found) :
    FailsWith (d.readUntil p n mark units) before fun e => e.isShort = true := by
  induction units generalizing before with
  | zero => exact absurd ((sought_zero some).mpr ⟨rfl, rfl⟩) (none [] false)
  | succ units inductionHypothesis =>
    rw [readUntil]
    by_cases holds : before.Holds p.limit mark.length
    · refine (read_delivers holds).fails ?_
      by_cases same : window before.data before.cursor mark.length = mark
      · exact absurd (sought_here holds same) (none [] true)
      · rw [if_neg same]
        refine .first (inductionHypothesis fun rest found sought => ?_)
        exact none _ found (sought.later some holds same)
    · exact .first (read_fails holds)

end Delivery

/-! ## Frames -/

/-- The bytes that a string at the cursor has for its text, and how many bytes it takes. -/
inductive Framed (limit : Nat) (before : Reading) (encoding : Text.Encoding)
    (delimiter : Option UInt8) : StringKind → Option Nat → List UInt8 → Nat → Prop
  /-- As many bytes as are declared, or else all that are left of the frame. As many zero units as
  there are at the end are not for the text. -/
  | fixed {declared : Option Nat} {raw : List UInt8} {zeros : Nat}
      (holds : before.Holds limit (declared.getD (limit - before.cursor)))
      (here : window before.data before.cursor (declared.getD (limit - before.cursor)) =
        raw ++ List.replicate (zeros * encoding.unitSize) 0)
      (most : ¬ List.replicate encoding.unitSize 0 <:+ raw) :
      Framed limit before encoding delimiter .fixedLength declared raw
        (declared.getD (limit - before.cursor))
  /-- As many bytes as the first byte says. -/
  | counted {count : UInt8} (holds : before.Holds limit (1 + count.toNat))
      (first : window before.data before.cursor 1 = [count]) :
      Framed limit before encoding delimiter .pascal none
        (window before.data (before.cursor + 1) count.toNat) (1 + count.toNat)
  | slotted {count : UInt8} {slot : Nat} (holds : before.Holds limit (1 + count.toNat))
      (first : window before.data before.cursor 1 = [count]) (room : count.toNat < slot)
      (within : before.cursor + slot ≤ limit) :
      Framed limit before encoding delimiter .pascal (some slot)
        (window before.data (before.cursor + 1) count.toNat) slot
  /-- The units in front of the first terminator, which is taken as well. -/
  | terminated {kind : StringKind} {mark raw : List UInt8}
      (marked : terminator? encoding delimiter kind = some mark)
      (sought : Sought mark limit before ((limit - before.cursor) / mark.length) raw true) :
      Framed limit before encoding delimiter kind none raw (raw.length + mark.length)
  /-- The units of a slot in front of the first terminator, or else all of them. -/
  | enclosed {kind : StringKind} {mark raw : List UInt8} {slot : Nat} {found : Bool}
      (marked : terminator? encoding delimiter kind = some mark)
      (sought : Sought mark limit before (slot / mark.length) raw found)
      (within : before.cursor + slot ≤ limit) :
      Framed limit before encoding delimiter kind (some slot) raw slot

/-- A slot that is too small for the bytes that the first byte counts and that byte. -/
structure Overfull (limit : Nat) (before : Reading) (kind : StringKind) (declared : Option Nat)
    (slot : Nat) (count : UInt8) : Prop where
  counts : kind = .pascal
  slotted : declared = some slot
  holds : before.Holds limit 1
  first : window before.data before.cursor 1 = [count]
  full : slot ≤ count.toNat

section Frames

variable {σ : Type} [ByteSource σ] [SliceLike σ] {d : Decoder σ} {p : Place} {n : Node d.schema}
  {before : Reading} {encoding : Text.Encoding} {delimiter : Option UInt8} {kind : StringKind}
  {declared : Option Nat} {raw raw' mark : List UInt8} {limit len len' : Nat}

omit [ByteSource σ] [SliceLike σ] in
theorem Framed.unique (h : Framed limit before encoding delimiter kind declared raw len)
    (h' : Framed limit before encoding delimiter kind declared raw' len') :
    raw' = raw ∧ len' = len := by
  cases h with
  | fixed _ here most =>
    cases h' with
    | fixed _ here' most' =>
      have trimmed := (trimZeroUnits_eq_iff (unitSize_pos encoding)).mpr ⟨⟨_, here⟩, most⟩
      have trimmed' := (trimZeroUnits_eq_iff (unitSize_pos encoding)).mpr ⟨⟨_, here'⟩, most'⟩
      exact ⟨trimmed'.symm.trans trimmed, rfl⟩
    | terminated marked | enclosed marked => cases marked
  | counted _ first =>
    cases h' with
    | counted _ first' =>
      cases first.symm.trans first'
      exact ⟨rfl, rfl⟩
    | terminated marked => cases marked
  | slotted _ first =>
    cases h' with
    | slotted _ first' =>
      cases first.symm.trans first'
      exact ⟨rfl, rfl⟩
    | enclosed marked => cases marked
  | terminated marked sought =>
    cases h' with
    | fixed | counted => cases marked
    | terminated marked' sought' =>
      cases marked.symm.trans marked'
      have some := terminator?_pos marked
      obtain ⟨rfl, -⟩ := sought.unique some sought'
      exact ⟨rfl, rfl⟩
  | enclosed marked sought =>
    cases h' with
    | fixed | slotted => cases marked
    | enclosed marked' sought' =>
      cases marked.symm.trans marked'
      have some := terminator?_pos marked
      obtain ⟨rfl, -⟩ := sought.unique some sought'
      exact ⟨rfl, rfl⟩

/-- Without a declared length the terminator is there. -/
theorem Framed.sought (marked : terminator? encoding delimiter kind = some mark)
    (h : Framed limit before encoding delimiter kind none raw len) :
    Sought mark limit before ((limit - before.cursor) / mark.length) raw true := by
  cases h with
  | fixed | counted => cases marked
  | terminated marked' sought =>
    cases marked.symm.trans marked'
    exact sought

/-- A text of whole units none of which is the terminator, with the terminator behind it. -/
theorem Framed.of_unmarked (marked : terminator? encoding delimiter kind = some mark)
    (unmarked : Unmarked mark raw) (holds : before.Holds limit (raw.length + mark.length))
    (here : window before.data before.cursor (raw.length + mark.length) = raw ++ mark) :
    Framed limit before encoding delimiter kind none raw (raw.length + mark.length) := by
  have some := terminator?_pos marked
  have whole : mark.length ∣ raw.length + mark.length :=
    Nat.dvd_add unmarked.whole (Nat.dvd_refl _)
  have room : raw.length + mark.length ≤ limit - before.cursor := by
    have within := holds.1
    omega
  exact .terminated marked (.found unmarked (le_whole_units some whole room) holds here)

omit [SliceLike σ] in
theorem readFramed_of_terminator? {offset : Nat}
    (marked : terminator? encoding delimiter kind = some mark) :
    d.readFramed p n offset encoding kind delimiter declared =
      d.readTerminated p n offset mark declared := by
  cases kind with
  | fixedLength | pascal => cases marked
  | zeroTerminated | delimited =>
    cases marked
    rfl

theorem readFramed_delivers
    (framed : Framed p.limit before encoding delimiter kind declared raw len) :
    Delivers (d.readFramed p n before.cursor encoding kind delimiter declared) before raw
      { before with cursor := before.cursor + len } := by
  cases framed with
  | fixed holds here most =>
    have trimmed := (trimZeroUnits_eq_iff (unitSize_pos encoding)).mpr ⟨⟨_, here⟩, most⟩
    apply (read_delivers holds).bind
    rw [trimmed]
    exact .pure
  | @counted count holds first =>
    have one : before.Holds p.limit 1 := holds.mono (Nat.le_add_right ..)
    apply (read_delivers one).bind
    rw [first, ← Nat.add_assoc]
    exact read_delivers (Reading.holds_add_iff.mp holds)
  | @slotted count _ holds first room within =>
    have one : before.Holds p.limit 1 := holds.mono (Nat.le_add_right ..)
    have ends : before.cursor + len =
        before.cursor + 1 + count.toNat + (len - count.toNat - 1) := by omega
    apply (read_delivers one).bind
    rw [first, ends]
    dsimp only [List.headD_cons]
    rw [if_neg (by omega)]
    apply (read_delivers (Reading.holds_add_iff.mp holds)).bind
    apply (skip_delivers (by dsimp only; omega)).bind
    exact .pure
  | terminated marked sought =>
    have some := terminator?_pos marked
    rw [readFramed_of_terminator? marked]
    apply (readUntil_delivers some sought).bind
    exact .pure
  | @enclosed _ mark _ _ found marked sought within =>
    have some := terminator?_pos marked
    have consumed := sought.consumed_le.trans (Nat.div_mul_le_self ..)
    have ends : before.cursor + len =
        before.cursor + (raw.length + if found then mark.length else 0) +
          (len - (raw.length + if found then mark.length else 0)) := by omega
    rw [readFramed_of_terminator? marked]
    apply (readUntil_delivers some sought).bind
    dsimp only
    rw [ends]
    apply (skip_delivers (by dsimp only; omega)).bind
    exact .pure

/-! ### Strings that cannot be framed -/

theorem readFramed_overfull {slot : Nat} {count : UInt8}
    (overfull : Overfull p.limit before kind declared slot count) :
    FailsWith (d.readFramed p n before.cursor encoding kind delimiter declared) before fun e =>
      e = ⟨n.id, n.label, before.cursor, .lengthMismatch slot (count.toNat + 1)⟩ := by
  obtain ⟨rfl, rfl, holds, first, full⟩ := overfull
  refine (read_delivers holds).fails ?_
  rw [first]
  dsimp only [List.headD_cons]
  rw [if_pos full]
  exact .first (.fail rfl)

theorem readPascal_fails
    (unframed : ∀ raw len,
      ¬ Framed p.limit before encoding delimiter .pascal declared raw len)
    (fits : ∀ slot count, ¬ Overfull p.limit before .pascal declared slot count) :
    FailsWith (d.readPascal p n before.cursor declared) before fun e => e.isShort = true := by
  -- The length byte, the bytes that it counts and the rest of the slot: one of them is missing.
  by_cases one : before.Holds p.limit 1
  · obtain ⟨count, first⟩ := List.length_eq_one_iff.mp (length_window one.2)
    refine (read_delivers one).fails ?_
    rw [first]
    cases declared with
    | none =>
      refine read_fails fun holds => ?_
      exact unframed _ _ (.counted (Reading.holds_add_iff.mpr holds) first)
    | some slot =>
      have room : count.toNat < slot := by
        by_contra full
        exact fits slot count ⟨rfl, rfl, one, first, by omega⟩
      dsimp only [List.headD_cons]
      rw [if_neg (by omega)]
      by_cases holds : before.Holds p.limit (1 + count.toNat)
      · refine (read_delivers (Reading.holds_add_iff.mp holds)).fails (.first (skip_fails ?_))
        by_contra within
        dsimp only at within
        exact unframed _ _ (.slotted holds first room (by omega))
      · exact .first (read_fails fun behind => holds (Reading.holds_add_iff.mpr behind))
  · exact .first (read_fails one)

theorem readTerminated_fails (marked : terminator? encoding delimiter kind = some mark)
    (unframed : ∀ raw len, ¬ Framed p.limit before encoding delimiter kind declared raw len) :
    FailsWith (d.readTerminated p n before.cursor mark declared) before fun e =>
      e.isShort = true := by
  have some := terminator?_pos marked
  by_cases result : ∃ bytes found,
      Sought mark p.limit before (declared.getD (p.limit - before.cursor) / mark.length) bytes found
  · obtain ⟨bytes, found, sought⟩ := result
    refine (readUntil_delivers some sought).fails ?_
    dsimp only
    cases declared with
    | none =>
      cases found with
      | true => exact absurd (.terminated marked sought) (unframed _ _)
      | false => exact .first (.fail rfl)
    | some slot =>
      -- The text is there, so it is the rest of the slot that the frame does not have.
      refine .first (skip_fails ?_)
      by_contra within
      dsimp only at within
      exact unframed _ _ (.enclosed marked sought (by omega))
  · exact .first (readUntil_fails some fun bytes found sought => result ⟨bytes, found, sought⟩)

/-- Where no bytes are those of the string and a slot is not too small, bytes are missing. -/
theorem readFramed_fails
    (unframed : ∀ raw len, ¬ Framed p.limit before encoding delimiter kind declared raw len)
    (fits : ∀ slot count, ¬ Overfull p.limit before kind declared slot count) :
    FailsWith (d.readFramed p n before.cursor encoding kind delimiter declared) before fun e =>
      e.isShort = true := by
  cases kind with
  | fixedLength =>
    refine .first (read_fails fun holds => ?_)
    obtain ⟨⟨zeros, here⟩, most⟩ := (trimZeroUnits_eq_iff (unitSize_pos encoding)).mp rfl
    exact unframed _ _ (.fixed holds here most)
  | pascal => exact readPascal_fails unframed fits
  | zeroTerminated => exact readTerminated_fails rfl unframed
  | delimited => exact readTerminated_fails rfl unframed

end Frames

/-! ## Decodes -/

section Decodes

variable {σ : Type} [ByteSource σ] [SliceLike σ] {d : Decoder σ} {p : Place} {n : Node d.schema}
  {before : Reading} {encoding : Text.Encoding} {delimiter : Option UInt8} {kind : StringKind}
  {declared : Option Nat} {raw : List UInt8} {len depth : Nat}

omit [SliceLike σ] in
/-- Takes the bytes of a string that starts at the offset as a text. -/
def decodeText (d : Decoder σ) (n : Node d.schema) (encoding : Text.Encoding) (offset : Nat)
    (bytes : List UInt8) : DecodeM σ TextRead := do
  let stop ← tellAt n offset
  match d.encodings.decode? encoding bytes with
  | none => fail n offset (.malformed encoding)
  | some chars => return ⟨offset, stop - offset, String.ofList chars⟩

/-- Compares a text with the listed ones. -/
def concludeText (d : Decoder σ) (n : Node d.schema) (t : TextRead) : DecodeM σ Value :=
  d.matchString n t.offset t.text >>= fun name => Value.named name <$> finishText n t

/-- A string is read as its bytes are framed, from the next whole byte on. -/
theorem decodeOne_leads (frames : n.Frames d.encodings encoding kind delimiter)
    (declares : d.Declares p n declared) :
    Leads (d.decodeOne (depth + 1) p n) before
      (d.readFramed p n before.cursor encoding kind delimiter declared >>= fun bytes =>
        d.decodeText n encoding before.cursor bytes >>= d.concludeText n)
      (before.afterBytes 0) := by
  obtain ⟨⟨body, isString⟩, ⟨label, labelled, known⟩, delimited, own, ofKind, rfl⟩ := frames
  -- Up to the framing, each step only looks an attribute up.
  have reads : Leads (d.readText p n) before
      (d.readFramed p n before.cursor encoding (effectiveKind own delimiter) delimiter declared >>=
        d.decodeText n encoding before.cursor) (before.afterBytes 0) := by
    apply Delivers.align.leads
    apply Delivers.tell.leads
    apply (Delivers.resolved labelled).leads
    rw [known]
    apply (Delivers.resolved delimited).leads
    apply (Delivers.resolved ofKind).leads
    apply (Delivers.still fun _ => declaredBytes_returns.mpr ⟨declares, rfl⟩).leads
    exact .refl
  apply Delivers.record.leads
  apply Delivers.tell.leads
  simp only [decodeKind, isString]
  rw [decodeString_eq]
  have decodes : Leads (d.readText p n >>= d.concludeText n) before _ (before.afterBytes 0) :=
    reads.bind
  rwa [bind_assoc] at decodes

theorem concludeText_delivers {t : TextRead} (unlisted : n.stringValues = .ok []) :
    Delivers (d.concludeText n t) before
      ⟨n.id, t.offset, t.len, none, .string t.text none, []⟩ before := by
  have unmatched : Delivers (d.matchString n t.offset t.text) before none before := by
    apply (Delivers.resolved unlisted).bind
    exact .pure
  apply unmatched.bind
  have finished : Delivers (finishText n t : DecodeM σ Value) before
      ⟨n.id, t.offset, t.len, none, .string t.text none, []⟩ before := Delivers.record.bind .pure
  rw [map_eq_pure_bind]
  exact finished.bind .pure

/-- A string is decoded as this text: the text is compared with the listed ones, and without any it
is the value. -/
structure ReadsText (d : Decoder σ) (p : Place) (n : Node d.schema) (before : Reading)
    (depth : Nat) (text : String) (len : Nat) : Prop where
  checks : Leads (d.decodeOne (depth + 1) p n) before
    (d.concludeText n ⟨before.cursor, len, text⟩) (before.afterBytes len)
  returns : n.stringValues = .ok [] → Delivers (d.decodeOne (depth + 1) p n) before
    ⟨n.id, before.cursor, len, none, .string text none, []⟩ (before.afterBytes len)

section Outcomes

variable (frames : n.Frames d.encodings encoding kind delimiter)
  (declares : d.Declares p n declared)

include frames declares

theorem decodeOne_framed
    (framed : Framed p.limit (before.afterBytes 0) encoding delimiter kind declared raw len) :
    Leads (d.decodeOne (depth + 1) p n) before
      (d.decodeText n encoding before.cursor raw >>= d.concludeText n) (before.afterBytes len) :=
  (decodeOne_leads frames declares).trans ((readFramed_delivers framed).leads .refl)

theorem decodeOne_text {chars : List Char}
    (framed : Framed p.limit (before.afterBytes 0) encoding delimiter kind declared raw len)
    (decoded : d.encodings.decode? encoding raw = some chars) :
    d.ReadsText p n before depth (String.ofList chars) len := by
  have length : (before.afterBytes len).cursor - before.cursor = len := Nat.add_sub_cancel_left ..
  have understood : Delivers (d.decodeText n encoding before.cursor raw)
      (before.afterBytes len) ⟨before.cursor, len, String.ofList chars⟩
      (before.afterBytes len) := by
    apply Delivers.tellAt.bind
    rw [decoded, length]
    exact .pure
  have checks : Leads (d.decodeOne (depth + 1) p n) before _ _ :=
    (decodeOne_framed frames declares framed).trans (understood.leads .refl)
  exact ⟨checks, fun unlisted => checks.delivers (concludeText_delivers unlisted)⟩

theorem decodeOne_malformed
    (framed : Framed p.limit (before.afterBytes 0) encoding delimiter kind declared raw len)
    (malformed : d.encodings.decode? encoding raw = none) :
    FailsWith (d.decodeOne (depth + 1) p n) before fun e =>
      e = ⟨n.id, n.label, before.cursor, .malformed encoding⟩ := by
  refine (decodeOne_framed frames declares framed).fails (.first (Delivers.tellAt.fails ?_))
  rw [malformed]
  exact .fail rfl

end Outcomes

/-- Strings are framed exactly. Of a string, at every depth, place and reading, the bytes decide
which of them are for the text and how many are taken, and there is at most one answer. These bytes
alone are taken as text; if they are none in the encoding, that is the error. A slot that is too
small for what its length byte counts is an error that gives both lengths, and where there is no
answer otherwise, bytes are missing. In particular a text of whole units none of which is the
terminator is delimited by the terminator behind it. -/
theorem string_framing_is_exact (d : Decoder σ) (p : Place) (n : Node d.schema) (before : Reading)
    (depth : Nat) (encoding : Text.Encoding) (kind : StringKind) (delimiter : Option UInt8)
    (declared : Option Nat) (frames : n.Frames d.encodings encoding kind delimiter)
    (declares : d.Declares p n declared) :
    let start := before.afterBytes 0
    let decode := d.decodeOne (depth + 1) p n
    (∀ raw len, Framed p.limit start encoding delimiter kind declared raw len →
      (∀ raw' len', Framed p.limit start encoding delimiter kind declared raw' len' →
        raw' = raw ∧ len' = len) ∧
      (∀ chars, d.encodings.decode? encoding raw = some chars →
        d.ReadsText p n before depth (String.ofList chars) len) ∧
      (d.encodings.decode? encoding raw = none → FailsWith decode before fun e =>
        e = ⟨n.id, n.label, before.cursor, .malformed encoding⟩)) ∧
    (∀ slot count, Overfull p.limit start kind declared slot count →
      FailsWith decode before fun e =>
        e = ⟨n.id, n.label, before.cursor, .lengthMismatch slot (count.toNat + 1)⟩) ∧
    ((∀ raw len, ¬ Framed p.limit start encoding delimiter kind declared raw len) →
      (∀ slot count, ¬ Overfull p.limit start kind declared slot count) →
      FailsWith decode before fun e => e.isShort = true) ∧
    (∀ mark, terminator? encoding delimiter kind = some mark → declared = none →
      (∀ raw, ¬ Sought mark p.limit start ((p.limit - start.cursor) / mark.length) raw true) →
      FailsWith decode before fun e => e.isShort = true) ∧
    ∀ mark raw, terminator? encoding delimiter kind = some mark → declared = none →
      Unmarked mark raw → start.Holds p.limit (raw.length + mark.length) →
      window start.data start.cursor (raw.length + mark.length) = raw ++ mark →
      Framed p.limit start encoding delimiter kind declared raw (raw.length + mark.length) := by
  intro start decode
  have fails (unframed : ∀ raw len,
        ¬ Framed p.limit start encoding delimiter kind declared raw len)
      (fits : ∀ slot count, ¬ Overfull p.limit start kind declared slot count) :
      FailsWith decode before fun e => e.isShort = true :=
    (decodeOne_leads frames declares).fails (.first (readFramed_fails unframed fits))
  refine ⟨fun raw len framed => ⟨fun _ _ => framed.unique, fun _ => ?_, ?_⟩, ?_, fails, ?_, ?_⟩
  · exact decodeOne_text frames declares framed
  · exact decodeOne_malformed frames declares framed
  · intro slot count overfull
    exact (decodeOne_leads frames declares).fails (.first (readFramed_overfull overfull))
  · rintro mark marked rfl endless
    refine fails (fun raw len framed => ?_) fun slot count overfull => nomatch overfull.slotted
    exact endless _ (framed.sought marked)
  · rintro mark raw marked rfl unmarked holds here
    exact .of_unmarked marked unmarked holds here

end Decodes

/-! ## Labels -/

/-- A terminated text of units of two bytes, one in a slot of two bytes behind its length byte, and
one up to a semicolon. -/
def labels : Decoder Slice where
  schema :=
    { elements := #[
        ⟨{}, .string { kind := some .zeroTerminated, encoding := some "UTF-16LE" }⟩,
        ⟨{}, .string { kind := some .pascal, extent := { length := some (.literal 2) } }⟩,
        ⟨{}, .string { delimiter := some 0x3B }⟩]
      root := ⟨0⟩ }

def wideLabel : Node labels.schema := ⟨⟨0⟩, _, rfl⟩

def countedLabel : Node labels.schema := ⟨⟨1⟩, _, rfl⟩

def delimitedLabel : Node labels.schema := ⟨⟨2⟩, _, rfl⟩

/-- Two zeros that are not a unit are no terminator, a slot of two bytes does not hold two bytes and
their count, and a text without its delimiter wants more bytes. -/
theorem string_framing_is_exact_labels :
    labels.ReadsText (startPlace ⟨0⟩ 0 7) wideLabel ⟨#[0x41, 0, 0, 1, 0, 0, 9], 0, []⟩ 0 "AĀ" 6 ∧
      FailsWith (labels.decodeOne 1 (startPlace ⟨1⟩ 0 2) countedLabel) ⟨#[2, 0x41], 0, []⟩
        (fun e => e = ⟨⟨1⟩, "string#1", 0, .lengthMismatch 2 3⟩) ∧
      FailsWith (labels.decodeOne 1 (startPlace ⟨2⟩ 0 2) delimitedLabel) ⟨#[0x41, 0x42], 0, []⟩
        fun e => e.isShort = true := by
  refine ⟨?_, ?_, ?_⟩
  · have exact := string_framing_is_exact labels (startPlace ⟨0⟩ 0 7) wideLabel
      ⟨#[0x41, 0, 0, 1, 0, 0, 9], 0, []⟩ 0 .utf16le .zeroTerminated none none
      ⟨⟨_, rfl⟩, ⟨"UTF-16LE", by cbv, by decide⟩, by cbv, some .zeroTerminated, by cbv, rfl⟩
      (by cbv)
    have framed := exact.2.2.2.2 [0, 0] [0x41, 0, 0, 1] rfl rfl (by decide)
      ⟨by decide, by decide⟩ (by decide)
    exact (exact.1 _ _ framed).2.1 ['A', 'Ā'] (by decide)
  · have exact := string_framing_is_exact labels (startPlace ⟨1⟩ 0 2) countedLabel
      ⟨#[2, 0x41], 0, []⟩ 0 ⟨"UTF-8"⟩ .pascal none (some 2)
      ⟨⟨_, rfl⟩, ⟨"UTF-8", by cbv, by decide⟩, by cbv, some .pascal, by cbv, rfl⟩
      ⟨.literal 2, by cbv, 2, .byte, ⟨2, rfl, rfl⟩, by cbv, by decide, by decide⟩
    have label : countedLabel.label = "string#1" := by cbv
    rw [← label]
    exact exact.2.1 2 2 ⟨rfl, rfl, ⟨by decide, by decide⟩, by decide, by decide⟩
  · have exact := string_framing_is_exact labels (startPlace ⟨2⟩ 0 2) delimitedLabel
      ⟨#[0x41, 0x42], 0, []⟩ 0 ⟨"UTF-8"⟩ .delimited (some 0x3B) none
      ⟨⟨_, rfl⟩, ⟨"UTF-8", by cbv, by decide⟩, by cbv, none, by cbv, rfl⟩ (by cbv)
    have missed : Sought [0x3B] 2 ⟨#[0x41, 0x42], 0, []⟩ 2 _ false :=
      .missed (by decide) fun _ => ⟨by decide, by decide⟩
    refine exact.2.2.2.1 [0x3B] rfl rfl fun raw found => ?_
    cases (missed.unique (by decide) found).2

end Decoder

end BinaryTemplate
