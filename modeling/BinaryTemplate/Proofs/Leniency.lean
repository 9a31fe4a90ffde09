import BinaryTemplate.Proofs.Container
import BinaryTemplate.Proofs.ElementCongruence

/-!
# Strict and lenient decoding

A violated constraint is a warning in lenient mode and fails the decode in strict mode. Where no
attempt is given up for another one, the strict run is the lenient run up to its first warning: both
go the same way as long as there is none, and from there the violation passes through every
container and every offset of the strict run as it is, while the lenient run only adds to its
warnings. Elsewhere this fails, since a strict run may give up an attempt that the lenient one goes
on with.
-/

namespace BinaryTemplate

namespace DecodeM

variable {σ α β : Type}

/-- Both steps end alike and without a warning, or the right one fails with the first warning of the
left one. -/
def StopsAtWarning (left right : DecodeM σ α) : Prop :=
  ∀ st, right.ending st = left.ending st ∧ (left.ending st).2.warnings = st.warnings ∨
    ∃ e after more, Throws right st e after ∧ e.failure.IsViolation ∧
      (left.ending st).2.warnings = more ++ e :: st.warnings

namespace StopsAtWarning

variable {left right : DecodeM σ α}

theorem refl {step : DecodeM σ α} (keeps : ∀ st, (step.ending st).2.warnings = st.warnings) :
    StopsAtWarning step step :=
  fun st => .inl ⟨rfl, keeps st⟩

theorem grows (h : StopsAtWarning left right) (st : DecodeState σ) :
    ∃ more, (left.ending st).2.warnings = more ++ st.warnings := by
  rcases h st with ⟨-, kept⟩ | ⟨e, after, more, -, -, warned⟩
  · exact ⟨[], kept⟩
  · exact ⟨more ++ [e], by rw [warned, List.append_assoc]; rfl⟩

theorem resolved {s : Schema} {n : Node s} {offset : Nat} (r : Except CycleError α) :
    StopsAtWarning (resolved n offset r : DecodeM σ α) (resolved n offset r) := by
  refine refl fun st => ?_
  cases r <;> rfl

theorem bind {next next' : α → DecodeM σ β} (first : StopsAtWarning left right)
    (rest : ∀ a st after, Returns left st a after → StopsAtWarning (next a) (next' a)) :
    StopsAtWarning (left >>= next) (right >>= next') := by
  intro st
  have first := first st
  rcases ended : left.ending st with ⟨e | a, mid⟩ <;> rw [ended] at first
  · have whole : (left >>= next).ending st = (.error e, mid) := by rw [ending_bind, ended]
    rw [whole]
    rcases first with ⟨same, kept⟩ | ⟨e', after, more, thrown, violation, warned⟩
    · exact .inl ⟨by rw [ending_bind, same], kept⟩
    · exact .inr ⟨e', after, more, throws_bind.mpr (.inl thrown), violation, warned⟩
  · have whole : (left >>= next).ending st = (next a).ending mid := by rw [ending_bind, ended]
    have rest := rest a st mid ended
    rw [whole]
    rcases first with ⟨same, kept⟩ | ⟨e, after, more, thrown, violation, warned⟩
    · have whole' : (right >>= next').ending st = (next' a).ending mid := by rw [ending_bind, same]
      unfold Throws
      rw [whole', ← kept]
      exact rest mid
    · -- The right run has stopped, and the left one only adds to its warnings.
      obtain ⟨further, grown⟩ := rest.grows mid
      refine .inr ⟨e, after, further ++ more, throws_bind.mpr (.inl thrown), violation, ?_⟩
      rw [grown, warned, List.append_assoc]

variable [ByteSource σ] [SliceLike σ]

/-- In memory nothing fails that puts back. -/
theorem putsBack_returns {back : DecodeM σ Unit} (putsBack : PutsBack back) (st : DecodeState σ) :
    ∃ after, Returns back st () after ∧ after.warnings = st.warnings := by
  cases putsBack with
  | align => exact ⟨_, returns_align.mpr rfl, rfl⟩
  | resume n offset position bits =>
    obtain ⟨after, sought⟩ := seek_succeeds n offset position { st with pending := bits }
    refine ⟨after, returns_bind.mpr ⟨(), _, returns_setPending.mpr rfl, sought⟩, ?_⟩
    simp only [seek, returns_bind, returns_onSource, returns_pure] at sought
    obtain ⟨_, _, ⟨source, -, rfl⟩, -, rfl⟩ := sought
    rfl

theorem closing {back : DecodeM σ Unit} {reword : DecodeError → DecodeError}
    (putsBack : PutsBack back) (rewords : Rewords reword) (first : StopsAtWarning left right) :
    StopsAtWarning (closing back reword left) (closing back reword right) := by
  intro st
  have closed : ∀ (step : DecodeM σ α), ∃ last, last.warnings = (step.ending st).2.warnings ∧
      (DecodeM.closing back reword step).ending st =
        ((step.ending st).1.mapError reword, last) := by
    intro step
    rcases ended : step.ending st with ⟨r, mid⟩
    obtain ⟨last, done, kept⟩ := putsBack_returns putsBack mid
    refine ⟨last, kept, ?_⟩
    unfold Returns at done
    unfold DecodeM.closing
    rw [ending_bind, ending_outcome, ended]
    dsimp only
    rw [ending_bind, done]
    cases r <;> rfl
  obtain ⟨last, kept, ended⟩ := closed left
  obtain ⟨last', -, ended'⟩ := closed right
  rcases first st with ⟨same, none⟩ | ⟨e, after, more, thrown, violation, warned⟩
  · refine .inl ⟨?_, ?_⟩
    · unfold DecodeM.closing
      rw [ending_bind, ending_bind, ending_outcome, ending_outcome, same]
    · rw [ended]
      exact kept.trans none
  · refine .inr ⟨e, last', more, ?_, violation, ?_⟩
    · unfold Throws at thrown ⊢
      rw [ended', thrown]
      exact congrArg (fun e => (Except.error e, last')) (rewords.eq_of_violation violation)
    · rw [ended]
      exact kept.trans warned

end StopsAtWarning

end DecodeM

namespace Decoder

open DecodeM

variable {σ : Type} [ByteSource σ] [SliceLike σ] {d : Decoder σ}

/-- The decoder in strict mode, or in lenient mode. -/
@[reducible] def strictly (d : Decoder σ) (b : Bool) : Decoder σ :=
  d.withOptions { d.options with strict := b }

omit [ByteSource σ] [SliceLike σ] in
theorem violation_stops {e : DecodeError} (violation : e.failure.IsViolation) :
    StopsAtWarning ((d.strictly false).violation e) ((d.strictly true).violation e) :=
  fun st => .inr ⟨e, st, [], throws_throw.mpr ⟨rfl, rfl⟩, violation, rfl⟩

/-- The strict run stops at the first warning of the lenient one, if no attempt is given up. -/
def leniencyCongruence (d : Decoder σ) :
    Congruence (d.strictly false) { d.options with strict := true } where
  rel := StopsAtWarning
  cutsOff := False
  givesUp := False
  maxDepth := .inl rfl
  maxRepeat := .inl rfl
  validate := rfl
  plain plain := .refl plain.warnings
  lookup _ _ _ := .resolved _
  bind_of_returns := .bind
  violation := violation_stops
  closing := .closing
  limited := False.elim
  rewind := False.elim
  attempt := False.elim

/-- Strict mode is lenient mode stopped at the first warning, where no attempt is given up for
another one. -/
theorem strict_stops_at_first_warning (d : Decoder σ) (straight : d.schema.Straight)
    (element : ElementId) (source : σ) :
    (∀ v, ((d.strictly false).decodeElement element source).result = .ok (v, []) →
      ((d.strictly true).decodeElement element source).result = .ok (v, [])) ∧
    (∀ v e later, ((d.strictly false).decodeElement element source).result = .ok (v, e :: later) →
      ((d.strictly true).decodeElement element source).result = .error e) ∧
    ∀ v warnings, ((d.strictly true).decodeElement element source).result = .ok (v, warnings) →
      warnings = [] ∧ ((d.strictly false).decodeElement element source).result = .ok (v, []) := by
  have suits : (leniencyCongruence d).Suits d.schema := .inr straight
  have stops := Congruence.decodeWhole suits element { source := source }
  rw [decodeElement_eq, decodeElement_eq]
  generalize ((d.strictly false).decodeWhole element).ending { source := source } = lenient at stops
  unfold Throws at stops
  generalize ((d.strictly true).decodeWhole element).ending { source := source } = strict at stops
  obtain ⟨r, st⟩ := lenient
  rcases stops with ⟨rfl, none⟩ | ⟨e, after, more, rfl, -, warned⟩
  · have none : st.warnings.reverse = [] := List.reverse_eq_nil_iff.mpr none
    dsimp only
    rw [none]
    refine ⟨fun _ h => h, ?_, ?_⟩
    · intro v e later h
      cases r <;> cases h
    · intro v warnings h
      cases r with
      | error e => cases h
      | ok value =>
        cases h
        exact ⟨rfl, rfl⟩
  · have warned : st.warnings.reverse = e :: more.reverse := by
      rw [show st.warnings = more ++ [e] from warned, List.reverse_append]
      rfl
    dsimp only
    rw [warned]
    refine ⟨?_, ?_, nofun⟩
    · intro v h
      cases r <;> cases h
    · intro v first later h
      cases r <;> cases h
      rfl

/-- A structure of three bytes that may be at most nine. -/
def capped : Decoder Slice where
  schema :=
    { elements := #[
        ⟨{}, .structure { children := [⟨1⟩] }⟩,
        ⟨{ repeatMin := some (.literal 3), repeatMax := some (.literal 3) },
          .number { extent := { length := some (.literal 1) }, maxVal := some (.literal 9) }⟩]
      root := ⟨0⟩ }
  options := { maxDepth := 2, maxRepeat := 3 }

theorem capped_straight : capped.schema.Straight := by
  constructor
  · rintro ⟨⟨i⟩, e, found⟩ r set
    have small : i < 2 := Schema.index_lt_size_of_get? found
    obtain rfl | rfl : i = 0 ∨ i = 1 := by omega
    · have known : Node.repeatMax ⟨⟨0⟩, e, found⟩ = .ok (.literal 1) := by cbv
      cases known.symm.trans set
      exact ⟨1, rfl, by decide⟩
    · have known : Node.repeatMax ⟨⟨1⟩, e, found⟩ = .ok (.literal 3) := by cbv
      cases known.symm.trans set
      exact ⟨3, rfl, by decide⟩
  · rintro ⟨⟨i⟩, e, found⟩ order set
    have small : i < 2 := Schema.index_lt_size_of_get? found
    obtain rfl | rfl : i = 0 ∨ i = 1 := by omega
    · have known : Node.order ⟨⟨0⟩, e, found⟩ = .ok .declared := by cbv
      cases known.symm.trans set
      rfl
    · have known : Node.order ⟨⟨1⟩, e, found⟩ = .ok .declared := by cbv
      cases known.symm.trans set
      rfl

/-- The violation of the byte at an offset. -/
def tooLarge (offset : Nat) (text : String) : DecodeError :=
  ⟨⟨1⟩, "number#1", offset, .range text none (some 9)⟩

def cappedValue : Value :=
  let byte (offset : Nat) (value : UInt64) : Value :=
    ⟨⟨1⟩, offset, 1, some .little, .number (.unsigned value) none [] none, []⟩
  ⟨⟨0⟩, 0, 3, none, .none, [byte 0 7, byte 1 12, byte 2 10]⟩

set_option maxRecDepth 8000 in
theorem strict_stops_at_first_warning_capped :
    ((capped.strictly false).decodeElement ⟨0⟩ ⟨#[7, 12, 10], 0⟩).result =
      .ok (cappedValue, [tooLarge 1 "12", tooLarge 2 "10"]) ∧
    ((capped.strictly true).decodeElement ⟨0⟩ ⟨#[7, 12, 10], 0⟩).result =
      .error (tooLarge 1 "12") := by
  have tolerated : ((capped.strictly false).decodeElement ⟨0⟩ ⟨#[7, 12, 10], 0⟩).result =
      .ok (cappedValue, [tooLarge 1 "12", tooLarge 2 "10"]) := by
    cbv
  exact ⟨tolerated,
    (strict_stops_at_first_warning capped capped_straight ⟨0⟩ _).2.1 _ _ _ tolerated⟩

end Decoder

end BinaryTemplate
