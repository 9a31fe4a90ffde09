import BinaryTemplate.Proofs.Outcome

/-!
# What a decode does not depend on

Two runs of a step agree if from states that are alike they end alike: with the same value or the
same error, in states that are alike again. How much the sources of such states may differ, and
whether their events may, is a parameter. No step on the way to the finished tree fails with a fault
of the tree, so that is part of what it means to end alike.
-/

namespace BinaryTemplate

/-- Whether the cause of a failure is a fault of the finished tree. -/
def Failure.IsFault (f : Failure) : Prop := ∃ cause, f = .validation cause

/-- The same as a test, which settles a given failure by evaluation. -/
def Failure.isFault : Failure → Bool
  | .validation _ => true
  | _ => false

theorem Failure.not_isFault {f : Failure} (h : f.isFault = false) : ¬ f.IsFault := by
  rintro ⟨cause, rfl⟩
  cases h

namespace DecodeM

/-- How far states are alike: how their sources are related, and whether they have the same events
so far. -/
structure Likeness (σ : Type) where
  source : σ → σ → Prop
  sameEvents : Prop

variable {σ α β : Type} {R : Likeness σ}

/-- States that differ at most in their sources and their events, as far as `R` allows. -/
structure Alike (R : Likeness σ) (st st' : DecodeState σ) : Prop where
  source : R.source st.source st'.source
  pending : st.pending = st'.pending
  warnings : st.warnings = st'.warnings
  events : R.sameEvents → st.events = st'.events

/-- Two steps end alike: with the same value or the same error, which is no fault of the tree. -/
inductive EndAlike (R : Likeness σ) :
    Except DecodeError α × DecodeState σ → Except DecodeError α × DecodeState σ → Prop
  | returned {a : α} {st st' : DecodeState σ} (alike : Alike R st st') :
      EndAlike R (.ok a, st) (.ok a, st')
  | threw {e : DecodeError} {st st' : DecodeState σ} (alike : Alike R st st')
      (sound : ¬ e.failure.IsFault) : EndAlike R (.error e, st) (.error e, st')

/-- From states that are alike, two steps end alike. -/
def Agree (R : Likeness σ) (left right : DecodeM σ α) : Prop :=
  ∀ st st', Alike R st st' → EndAlike R (left.ending st) (right.ending st')

theorem Agree.returns {left right : DecodeM σ α} {st st' after : DecodeState σ} {a : α}
    (agree : Agree R left right) (alike : Alike R st st') (h : Returns left st a after) :
    ∃ after', Returns right st' a after' ∧ Alike R after after' := by
  have ends := agree st st' alike
  rw [h] at ends
  generalize ended : right.ending st' = ending at ends
  cases ends with
  | returned alike => exact ⟨_, ended, alike⟩

theorem Agree.throws {left right : DecodeM σ α} {st st' after : DecodeState σ} {e : DecodeError}
    (agree : Agree R left right) (alike : Alike R st st') (h : Throws left st e after) :
    ¬ e.failure.IsFault ∧ ∃ after', Throws right st' e after' ∧ Alike R after after' := by
  have ends := agree st st' alike
  rw [h] at ends
  generalize ended : right.ending st' = ending at ends
  cases ends with
  | threw alike sound => exact ⟨sound, _, ended, alike⟩

/-- The rest of two sequences only has to end alike after what the first parts return. -/
theorem EndAlike.bind {left right : DecodeM σ α} {next next' : α → DecodeM σ β}
    {st st' : DecodeState σ} (first : EndAlike R (left.ending st) (right.ending st'))
    (rest : ∀ a mid mid', Returns left st a mid → Alike R mid mid' →
      EndAlike R ((next a).ending mid) ((next' a).ending mid')) :
    EndAlike R ((left >>= next).ending st) ((right >>= next').ending st') := by
  rw [ending_bind, ending_bind]
  generalize ended : left.ending st = l at first ⊢
  generalize right.ending st' = r at first ⊢
  cases first with
  | returned alike => exact rest _ _ _ ended alike
  | threw alike sound => exact .threw alike sound

/-- Over one and the same source, with the same events, to end alike is to end in the same way. -/
theorem EndAlike.eq {left right : Except DecodeError α × DecodeState σ}
    (h : EndAlike ⟨Eq, True⟩ left right) : left = right := by
  -- With the same source and the same events, nothing is left in which the states may differ.
  have same : ∀ {st st' : DecodeState σ}, Alike ⟨Eq, True⟩ st st' → st = st' := by
    rintro ⟨source, pending, warnings, events⟩ ⟨_, _, _, _⟩ alike
    obtain rfl : source = _ := alike.source
    obtain rfl : pending = _ := alike.pending
    obtain rfl : warnings = _ := alike.warnings
    obtain rfl : events = _ := alike.events trivial
    rfl
  cases h with
  | returned alike => rw [same alike]
  | threw alike _ => rw [same alike]

theorem Alike.refl (st : DecodeState σ) : Alike ⟨Eq, True⟩ st st := ⟨rfl, rfl, rfl, fun _ => rfl⟩

namespace Agree

theorem pure (a : α) : Agree R (pure a) (Pure.pure a) :=
  fun _ _ alike => .returned alike

theorem throw {e : DecodeError} (sound : ¬ e.failure.IsFault) :
    Agree R (throw e : DecodeM σ α) (throw e) :=
  fun _ _ alike => .threw alike sound

end Agree

end DecodeM

/-! ## Sources and scripts -/

/-- An operation that answers alike on related sources and leaves them related. -/
def Keeps {σ β : Type} (R : σ → σ → Prop) (operation : σ → β × σ) : Prop :=
  ∀ left right, R left right →
    (operation left).1 = (operation right).1 ∧ R (operation left).2 (operation right).2

/-- A script is one of those that a schema defines. -/
def Schema.HasScript (s : Schema) (script : ScriptBody) : Prop :=
  ∃ e ∈ s.elements, e.kind = .script script

theorem Node.hasScript {s : Schema} {n : Node s} {script : ScriptBody}
    (kind : n.kind = .script script) : s.HasScript script :=
  ⟨n.element, Array.mem_of_getElem? n.found, kind⟩

/-- The operations of a source and the scripts of a decoder answer alike on related sources and
leave them related. -/
structure Decoder.Respects {σ : Type} [ByteSource σ] (d : Decoder σ)
    (R : DecodeM.Likeness σ) : Prop where
  seek : ∀ target, Keeps R.source fun source => (ByteSource.seek target : SourceM σ Nat) source
  tell : Keeps R.source fun source => (ByteSource.tell : SourceM σ Nat) source
  size : Keeps R.source fun source => (ByteSource.size : SourceM σ Nat) source
  readExact : ∀ count,
    Keeps R.source fun source => (ByteSource.readExact count : SourceM σ (List UInt8)) source
  script : ∀ host ∈ d.scripts, ∀ script, d.schema.HasScript script → ∀ call,
    Keeps R.source fun source => host.run script call source

namespace DecodeM.Agree

open DecodeM (fail record resolved onSource align setPending tell tellAt)

variable {σ : Type} {R : Likeness σ} {s : Schema} {n : Node s} {offset : Nat}

theorem onSource {α : Type} {operation : SourceM σ α}
    (keeps : Keeps R.source fun a => operation a) :
    Agree R (onSource n offset operation) (onSource n offset operation) := by
  intro st st' alike
  obtain ⟨same, related⟩ := keeps _ _ alike.source
  unfold ending DecodeM.onSource
  dsimp only at same related
  generalize (operation st.source : Except InputError α × σ) = left at same related ⊢
  generalize (operation st'.source : Except InputError α × σ) = right at same related ⊢
  obtain ⟨answer, source⟩ := left
  obtain ⟨_, source'⟩ := right
  cases same
  cases answer with
  | error e =>
    refine .threw { alike with source := related } ?_
    rintro ⟨cause, same⟩
    cases e <;> cases same
  | ok a => exact .returned { alike with source := related }

end DecodeM.Agree

end BinaryTemplate
