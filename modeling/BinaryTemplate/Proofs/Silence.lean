import BinaryTemplate.Decode.String
import BinaryTemplate.Proofs.Field

/-!
# Steps that leave the warnings alone

Only a violation of a constraint adds a warning, and only a mark takes warnings back. Where any
other step returns, the warnings are those from before it: this is closed under the combinators of
the decode, and so every step that reads, skips or evaluates is silent.
-/

namespace BinaryTemplate

namespace DecodeM

variable {σ α β : Type} {s : Schema} {n : Node s} {offset : Nat}

/-- Where the step returns, the warnings are those from before it. -/
def Silent (step : DecodeM σ α) : Prop :=
  ∀ st a st', Returns step st a st' → st'.warnings = st.warnings

namespace Silent

variable {step : DecodeM σ α} {next : α → DecodeM σ β}

theorem of_still {Q : α → Prop} (still : ∀ {st a st'}, Returns step st a st' ↔ Q a ∧ st' = st) :
    Silent step := by
  intro st a st' h
  rw [(still.mp h).2]

theorem pure (a : α) : Silent (pure a : DecodeM σ α) := of_still returns_pure

theorem resolved (r : Except CycleError α) : Silent (resolved n offset r : DecodeM σ α) :=
  of_still returns_resolved

theorem get : Silent (get : DecodeM σ (DecodeState σ)) := by
  intro st a st' h
  rw [(returns_get.mp h).2]

theorem fail {failure : Failure} : Silent (fail n offset failure : DecodeM σ α) :=
  fun _ _ _ h => absurd h returns_fail

theorem modify {f : DecodeState σ → DecodeState σ} (keeps : ∀ st, (f st).warnings = st.warnings) :
    Silent (modify f : DecodeM σ Unit) := by
  intro st u st' h
  rw [returns_modify.mp h]
  exact keeps st

theorem onSource (operation : SourceM σ α) : Silent (onSource n offset operation) := by
  intro st a st' h
  obtain ⟨source, -, rfl⟩ := returns_onSource.mp h
  rfl

theorem bind (first : Silent step) (rest : ∀ a, Silent (next a)) : Silent (step >>= next) := by
  intro st b st' h
  obtain ⟨a, mid, returned, h⟩ := returns_bind.mp h
  rw [rest a _ _ _ h, first _ _ _ returned]

theorem ite {c : Prop} [Decidable c] {yes no : DecodeM σ α} (holds : Silent yes)
    (fails : Silent no) : Silent (if c then yes else no) := by
  by_cases h : c
  · rw [if_pos h]
    exact holds
  · rw [if_neg h]
    exact fails

/-- A step that fails under a condition, in front of another step. -/
theorem guard {c : Prop} [Decidable c] {failure : Failure} {rest : DecodeM σ β}
    (otherwise : Silent rest) :
    Silent (if c then DecodeM.fail n offset failure >>= next else rest) := by
  refine ite (fun st b st' h => ?_) otherwise
  obtain ⟨_, _, failed, -⟩ := returns_bind.mp h
  exact absurd failed returns_fail

end Silent

section Source

variable [ByteSource σ]

theorem tellAt_silent : Silent (tellAt n offset : DecodeM σ Nat) := .onSource _

theorem tell_silent : Silent (tell n : DecodeM σ Nat) := .onSource _

theorem seek_silent (position : Nat) : Silent (seek n offset position : DecodeM σ Unit) :=
  .bind (.onSource _) fun _ => .pure ()

theorem take_warnings {st st' : DecodeState σ} {mark : Mark}
    (h : Returns (Mark.take n) st mark st') :
    mark.warnings = st.warnings ∧ st'.warnings = st.warnings := by
  simp only [Mark.take, returns_bind, returns_get, returns_pure] at h
  obtain ⟨position, told, tells, _, _, ⟨rfl, rfl⟩, rfl, rfl⟩ := h
  have kept := tell_silent _ _ _ tells
  exact ⟨kept, kept⟩

theorem rewind_warnings {st st' : DecodeState σ} {mark : Mark} {u : Unit}
    (h : Returns (mark.rewind n) st u st') : st'.warnings = mark.warnings := by
  simp only [Mark.rewind, returns_bind, returns_modify] at h
  obtain ⟨_, moved, -, rfl⟩ := h
  rfl

end Source

end DecodeM

namespace Decoder

open DecodeM

variable {σ : Type} [ByteSource σ] {d : Decoder σ} {p : Place} {n : Node d.schema} {offset : Nat}

/-! ## Reads -/

theorem checkBound_silent (count : Nat) : Silent (d.checkBound p n count) :=
  .bind tell_silent fun _ => .guard (.pure _)

theorem read_silent (count : Nat) : Silent (d.read p n count) :=
  .bind (checkBound_silent count) fun _ => .onSource _

theorem skip_silent (count : Nat) : Silent (d.skip p n count) :=
  .bind (checkBound_silent count) fun _ => seek_silent _

theorem pullBytes_silent (more consumed : Nat) :
    Silent (d.pullBytes p n offset more consumed) := by
  induction more generalizing consumed with
  | zero => exact .pure []
  | succ more inductionHypothesis =>
    simp only [pullBytes]
    exact .guard (.bind (.onSource _) fun _ => .bind (inductionHypothesis _) fun _ => .pure _)

theorem readRaw_silent (order : ByteOrder) : Silent (d.readRaw p n order) := by
  have bits (width : Nat) : Silent (d.readBits p n width) :=
    .bind tell_silent fun _ => .bind .get fun _ => .guard (.bind (pullBytes_silent _ _) fun _ =>
      .bind (.modify fun _ => rfl) fun _ => .bind (.modify fun _ => rfl) fun _ => .pure _)
  have bytes (start width : Nat) : Silent (d.readBytes p n start order width) :=
    .bind (.modify fun _ => rfl) fun _ => .bind (tellAt_silent) fun _ => .bind (read_silent _)
      fun _ => .bind (.modify fun _ => rfl) fun _ => .pure _
  refine .bind tell_silent fun start => .bind (.resolved _) ?_
  intro length
  cases length with
  | none => exact .fail
  | some length =>
    refine .bind (.resolved _) fun unit =>
      .bind (.of_still evalCount_returns) fun units => .guard ?_
    cases unit with
    | bit => exact bits _
    | byte => exact bytes _ _

theorem computedPlace_silent : Silent (d.computedPlace p n offset) := by
  refine .bind (.resolved _) fun length => ?_
  cases length with
  | none => exact .pure _
  | some length =>
    exact .bind (.modify fun _ => rfl) fun _ => .bind tellAt_silent fun _ =>
      .bind (.of_still lengthBytes_returns) fun _ =>
      .bind (skip_silent _) fun _ => .pure _

theorem readUntil_silent (terminator : List UInt8) (units : Nat) :
    Silent (d.readUntil p n terminator units) := by
  induction units with
  | zero => exact .pure _
  | succ units inductionHypothesis =>
    simp only [readUntil]
    exact .bind (read_silent _) fun _ => .ite (.pure _) (.bind inductionHypothesis fun _ => .pure _)

theorem readFramed_silent (encoding : Text.Encoding) (kind : StringKind)
    (delimiter : Option UInt8) (declared : Option Nat) :
    Silent (d.readFramed p n offset encoding kind delimiter declared) := by
  have terminated (terminator : List UInt8) :
      Silent (d.readTerminated p n offset terminator declared) := by
    refine .bind (readUntil_silent terminator _) fun found => ?_
    cases declared with
    | none => exact .guard (.pure _)
    | some slot => exact .bind (skip_silent _) fun _ => .pure _
  cases kind with
  | fixedLength => exact .bind (read_silent _) fun _ => .pure _
  | pascal =>
    refine .bind (read_silent 1) fun first => ?_
    cases declared with
    | none => exact read_silent _
    | some slot =>
      exact .guard (.bind (read_silent _) fun _ => .bind (skip_silent _) fun _ => .pure _)
  | zeroTerminated => exact terminated _
  | delimited => exact terminated _

end Decoder

end BinaryTemplate
