import BinaryTemplate.Proofs.Container
import BinaryTemplate.Proofs.ElementCongruence
import BinaryTemplate.Source.Cursor

/-!
# Limits are cut-offs

A decode that meets a limit fails for good: no attempt that fails so is given up for another one,
and no container rewords the failure. So a decode that succeeds has met none, and with wider limits
it does the same. A seek must not come up short for this, since a short read is a mismatch, and the
failure of a side tree would be lost behind it; neither source in memory nor one over a reader does
that.
-/

namespace BinaryTemplate

/-- A seek only fails where the device does; reads alone come up short. -/
class ByteSource.SoundSeeks (σ : Type) [ByteSource σ] : Prop where
  device : ∀ {position : Nat} {source after : σ} {e : InputError},
    (ByteSource.seek (.start position) : SourceM σ Nat) source = (.error e, after) →
      ∃ fault, e = .device fault

instance : ByteSource.SoundSeeks Slice where
  device := by
    rintro position source after e ⟨⟩

instance {ρ : Type} [Reader ρ] : ByteSource.SoundSeeks ρ where
  device := by
    intro position source after e failed
    change Reader.lift (Reader.seek (.start position)) source = (.error e, after) at failed
    unfold Reader.lift at failed
    split at failed
    · cases failed
    · cases failed
      exact ⟨_, rfl⟩

namespace DecodeM

variable {σ α β : Type}

/-- The second step ends as the first one does, unless that fails with an error that fails the
whole decode. -/
def Extends (left right : DecodeM σ α) : Prop :=
  ∀ st, right.ending st = left.ending st ∨ ∃ e after, Throws left st e after ∧ e.isMismatch = false

namespace Extends

variable {left right : DecodeM σ α}

theorem refl (step : DecodeM σ α) : Extends step step := fun _ => .inl rfl

/-- The rest of two sequences that look at the outcome only has to be related where the first one
goes on. -/
theorem outcome_bind {next next' : Except DecodeError α → DecodeM σ β} (first : Extends left right)
    (ok : ∀ a st after, Returns left st a after → Extends (next (.ok a)) (next' (.ok a)))
    (mismatch : ∀ e, e.isMismatch = true → Extends (next (.error e)) (next' (.error e)))
    (fatal : ∀ e mid, e.isMismatch = false →
      ∃ e' last, Throws (next (.error e)) mid e' last ∧ e'.isMismatch = false) :
    Extends (outcome left >>= next) (outcome right >>= next') := by
  intro st
  have looked : ∀ (step : DecodeM σ α) (next : Except DecodeError α → DecodeM σ β),
      (outcome step >>= next).ending st = (next (step.ending st).1).ending (step.ending st).2 := by
    intro step next
    rw [ending_bind, ending_outcome]
  -- Where both end alike and not fatally, the rests run from the same state.
  have goesOn : ∀ {r mid}, left.ending st = (r, mid) → right.ending st = (r, mid) →
      Extends (next r) (next' r) →
      (outcome right >>= next').ending st = (outcome left >>= next).ending st ∨
        ∃ e after, Throws (outcome left >>= next) st e after ∧ e.isMismatch = false := by
    intro r mid ended ended' rest
    unfold Throws
    rw [looked, looked, ended, ended']
    exact rest mid
  rcases returns_or_throws left st with ⟨a, mid, returned⟩ | ⟨e, mid, thrown⟩
  · rcases first st with same | ⟨e, after, thrown, -⟩
    · exact goesOn returned (same.trans returned) (ok a st mid returned)
    · exact absurd thrown returned.not_throws
  cases isMismatch : e.isMismatch with
  | false =>
    obtain ⟨e', last, failed, fatal'⟩ := fatal e mid isMismatch
    refine .inr ⟨e', last, ?_, fatal'⟩
    unfold Throws at thrown ⊢
    rw [looked, thrown]
    exact failed
  | true =>
    rcases first st with same | ⟨e', after, thrown', fatal'⟩
    · exact goesOn thrown (same.trans thrown) (mismatch e isMismatch)
    · cases thrown.symm.trans thrown'
      cases isMismatch.symm.trans fatal'

theorem bind {next next' : α → DecodeM σ β} (first : Extends left right)
    (rest : ∀ a st after, Returns left st a after → Extends (next a) (next' a)) :
    Extends (left >>= next) (right >>= next') := by
  have split : ∀ (step : DecodeM σ α) (next : α → DecodeM σ β), step >>= next =
      outcome step >>= fun r => liftExcept r >>= next := by
    intro step next
    rw [outcome_bind_of_throws fun _ => rfl]
    rfl
  rw [split, split]
  exact first.outcome_bind rest (fun e _ => refl _) fun e mid fatal =>
    ⟨e, mid, throws_throw.mpr ⟨rfl, rfl⟩, fatal⟩

variable [ByteSource σ] [ByteSource.SoundSeeks σ]

theorem not_isMismatch_of_seek {s : Schema} {n : Node s} {offset position : Nat}
    {st after : DecodeState σ} {e : DecodeError} (h : Throws (seek n offset position) st e after) :
    e.isMismatch = false := by
  unfold seek at h
  simp only [throws_bind, throws_pure, and_false, exists_false, or_false] at h
  obtain ⟨cause, source, failed, rfl, -⟩ := throws_onSource.mp h
  obtain ⟨fault, rfl⟩ := ByteSource.SoundSeeks.device failed
  rfl

/-- Putting back never hides a fatal failure behind a mismatch. -/
theorem not_isMismatch_of_putsBack {back : DecodeM σ Unit} (putsBack : PutsBack back)
    {st after : DecodeState σ} {e : DecodeError} (h : Throws back st e after) :
    e.isMismatch = false := by
  cases putsBack with
  | align => exact absurd h throws_align
  | resume n offset position bits =>
    simp only [throws_bind, throws_setPending, false_or] at h
    obtain ⟨_, _, -, failed⟩ := h
    exact not_isMismatch_of_seek failed

theorem closing {back : DecodeM σ Unit} {reword : DecodeError → DecodeError}
    (putsBack : PutsBack back) (rewords : Rewords reword) (first : Extends left right) :
    Extends (closing back reword left) (closing back reword right) := by
  refine first.outcome_bind (fun a _ _ _ => refl _) (fun e _ => refl _) fun e mid fatal => ?_
  rcases returns_or_throws back mid with ⟨⟨⟩, last, done⟩ | ⟨e', last, failed⟩
  · refine ⟨e, last, ?_, fatal⟩
    rw [throws_behind done, throws_throw]
    exact ⟨(rewords.eq_of_fatal fatal).symm, rfl⟩
  · exact ⟨e', last, throws_bind.mpr (.inl failed), not_isMismatch_of_putsBack putsBack failed⟩

end Extends

end DecodeM

namespace Decoder

open DecodeM

variable {σ : Type} [ByteSource σ] [ByteSource.SoundSeeks σ] {d : Decoder σ}

/-- With wider limits a decoder does the same as long as it does not fail fatally. -/
def limitCongruence (d : Decoder σ) {maxDepth maxRepeat : Nat}
    (deeper : d.options.maxDepth ≤ maxDepth) (longer : d.options.maxRepeat ≤ maxRepeat) :
    Congruence d { d.options with maxDepth := maxDepth, maxRepeat := maxRepeat } where
  rel := Extends
  cutsOff := True
  givesUp := True
  maxDepth := .inr ⟨trivial, deeper⟩
  maxRepeat := .inr ⟨trivial, longer⟩
  validate := rfl
  plain _ := .refl _
  lookup _ _ _ := .refl _
  bind_of_returns := .bind
  violation _ := .refl _
  closing := .closing
  limited _ {_ e} _ isLimit := fun st =>
    .inr ⟨e, st, throws_throw.mpr ⟨rfl, rfl⟩, isLimit.not_isMismatch⟩
  rewind _ _ _ := .refl _
  attempt _ {_ _ _ _ _ _} first ok mismatch fatal :=
    first.outcome_bind (fun a _ _ _ => ok a) mismatch fun e mid isFatal => by
      rw [(fatal e isFatal).1]
      exact ⟨e, mid, throws_throw.mpr ⟨rfl, rfl⟩, isFatal⟩

/-- Limits are cut-offs: a decode that succeeds gives the same value with the same warnings under
wider limits, leaves the same source, and goes the same way. -/
theorem decodeElement_of_wider_limits (d : Decoder σ) {maxDepth maxRepeat : Nat}
    (deeper : d.options.maxDepth ≤ maxDepth) (longer : d.options.maxRepeat ≤ maxRepeat)
    (element : ElementId) (source : σ) {v : Value} {warnings : List DecodeError}
    (h : (d.decodeElement element source).result = .ok (v, warnings)) :
    (d.withOptions { d.options with maxDepth := maxDepth, maxRepeat := maxRepeat }).decodeElement
      element source = d.decodeElement element source := by
  have extends_ := Congruence.decodeWhole (C := limitCongruence d deeper longer) (.inl trivial)
    element { source := source }
  rw [decodeElement_eq] at h ⊢
  rw [decodeElement_eq]
  rcases extends_ with same | ⟨e, after, thrown, -⟩
  · rw [same]
  · unfold Throws at thrown
    rw [thrown] at h
    cases h

/-- A structure of any number of bytes, under limits that two of them just keep to. -/
def narrow : Decoder Slice where
  schema :=
    { elements := #[
        ⟨{}, .structure { children := [⟨1⟩] }⟩,
        ⟨{ repeatMin := some (.literal 0), repeatMax := some (.literal (-1)) },
          .number { extent := { length := some (.literal 1) } }⟩]
      root := ⟨0⟩ }
  options := { maxDepth := 2, maxRepeat := 2 }

def narrowValue : Value :=
  ⟨⟨0⟩, 0, 2, none, .none,
    [⟨⟨1⟩, 0, 1, some .little, .number (.unsigned 7) none [] none, []⟩,
      ⟨⟨1⟩, 1, 1, some .little, .number (.unsigned 8) none [] none, []⟩]⟩

set_option maxRecDepth 8000 in
theorem decodeElement_of_wider_limits_narrow :
    (narrow.decodeElement ⟨0⟩ ⟨#[7, 8], 0⟩).result = .ok (narrowValue, []) ∧
    (narrow.withOptions { maxDepth := 9, maxRepeat := 3 }).decodeElement ⟨0⟩ ⟨#[7, 8], 0⟩ =
      narrow.decodeElement ⟨0⟩ ⟨#[7, 8], 0⟩ := by
  have decodes : (narrow.decodeElement ⟨0⟩ ⟨#[7, 8], 0⟩).result = .ok (narrowValue, []) := by
    cbv
  exact ⟨decodes, decodeElement_of_wider_limits narrow (by decide) (by decide) ⟨0⟩ _ decodes⟩

end Decoder

end BinaryTemplate
