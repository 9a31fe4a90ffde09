import BinaryTemplate.Proofs.Abreast
import BinaryTemplate.Proofs.Congruence

/-!
# Runs that coincide

Two runs over one source coincide if they end with the same value or the same error, in states that
differ at most in their events. Two things are left open. A run that is spared may meet the cap on
instances, and then nothing is said about the other one. And a source that fails to say where it is,
or to go to where it should be, fails for both of them, but each names the element for which it
asked.
-/

namespace BinaryTemplate

namespace ByteSource

variable (σ : Type) [ByteSource σ]

/-- A failure of a source to say where it is or to go to a position. -/
inductive Misplaces (fault : InputError) : Prop
  | tell {source after : σ} (failed : (tell : SourceM σ Nat) source = (.error fault, after))
  | seek {position : Nat} {source after : σ}
      (failed : (seek (.start position) : SourceM σ Nat) source = (.error fault, after))

/-- Bytes in memory are never misplaced. -/
theorem not_misplaces [SliceLike σ] (fault : InputError) : ¬ Misplaces σ fault := by
  intro misplaces
  cases misplaces with
  | tell failed => cases SliceLike.slice_of_operation (SliceLike.tell_slice _) failed
  | seek failed => cases SliceLike.slice_of_operation (SliceLike.seek_slice _ _) failed

/-- A source that has just said where it is. -/
def Told {σ : Type} [ByteSource σ] (source : σ) : Prop :=
  ∃ before position, (ByteSource.tell : SourceM σ Nat) before = (.ok position, source)

/-- A source that has just said where it is can say it again, and is not changed by it. -/
def Steady : Prop :=
  ∀ source : σ, Told source →
    ∃ position, (ByteSource.tell : SourceM σ Nat) source = (.ok position, source)

end ByteSource

/-- The cap on the instances of an element is reached. -/
def Failure.IsCap (f : Failure) : Prop := ∃ limit, f = .repeatLimit limit

theorem Failure.IsCap.fatal {e : DecodeError} (cap : e.failure.IsCap) : e.isMismatch = false := by
  obtain ⟨limit, capped⟩ := cap
  rw [DecodeError.isMismatch, capped]
  rfl

/-- The same error, or the same failure of the source to find its place, which may be reported for
different elements. -/
inductive DecodeError.SameCause (σ : Type) [ByteSource σ] : DecodeError → DecodeError → Prop
  | refl (e : DecodeError) : SameCause σ e e
  | misplaced {element element' : ElementId} {name name' : String} {offset : Nat}
      {fault : InputError} (misplaces : ByteSource.Misplaces σ fault) :
      SameCause σ ⟨element, name, offset, .ofInput fault⟩ ⟨element', name', offset, .ofInput fault⟩

namespace DecodeError.SameCause

variable {σ : Type} [ByteSource σ] {e e' : DecodeError} (same : e.SameCause σ e')

include same

theorem offset_eq : e.offset = e'.offset := by
  cases same <;> rfl

theorem isMismatch_eq : e.isMismatch = e'.isMismatch := by
  cases same <;> rfl

theorem shortReadStop?_eq : e.shortReadStop? = e'.shortReadStop? := by
  cases same <;> rfl

theorem symm : e'.SameCause σ e := by
  cases same with
  | refl => exact .refl e
  | misplaced misplaces => exact .misplaced misplaces

end DecodeError.SameCause

namespace DecodeM

open Simulation (abreast)

variable {σ α β : Type} [ByteSource σ] {left right : DecodeM σ α} {st st' : DecodeState σ}
  {spared : Spared}

/-- Which of two runs may end at the cap without a word about the other one. -/
structure Spared where
  left : Prop
  right : Prop

namespace Spared

def both : Spared := ⟨True, True⟩

/-- The same for the two runs in the other order. -/
def swap (spared : Spared) : Spared := ⟨spared.right, spared.left⟩

end Spared

/-- How two runs end that coincide. -/
inductive Coincide (spared : Spared) :
    Except DecodeError α × DecodeState σ → Except DecodeError α × DecodeState σ → Prop
  | returned {a : α} {st st' : DecodeState σ} (related : (abreast σ).Related st st') :
      Coincide spared (.ok a, st) (.ok a, st')
  | threw {e e' : DecodeError} {st st' : DecodeState σ} (same : e.SameCause σ e')
      (related : (abreast σ).Related st st') :
      Coincide spared (.error e, st) (.error e', st')
  | capped {e : DecodeError} {st : DecodeState σ} {right : Except DecodeError α × DecodeState σ}
      (may : spared.left) (cap : e.failure.IsCap) :
      Coincide spared (.error e, st) right
  | cappedRight {e : DecodeError} {left : Except DecodeError α × DecodeState σ}
      {st' : DecodeState σ} (may : spared.right) (cap : e.failure.IsCap) :
      Coincide spared left (.error e, st')

/-- From states that differ at most in their events two steps coincide. -/
def Coinciding (spared : Spared) (left right : DecodeM σ α) : Prop :=
  ∀ st st', (abreast σ).Related st st' →
    Coincide spared (left.ending st) (right.ending st')

/-! ## Sequences -/

namespace Coincide

theorem of_returns {a : α} {after after' : DecodeState σ} (first : Returns left st a after)
    (second : Returns right st' a after') (related : (abreast σ).Related after after') :
    Coincide spared (left.ending st) (right.ending st') := by
  rw [first, second]
  exact .returned related

theorem of_throws {e : DecodeError} {after after' : DecodeState σ} (first : Throws left st e after)
    (second : Throws right st' e after') (related : (abreast σ).Related after after') :
    Coincide spared (left.ending st) (right.ending st') := by
  rw [first, second]
  exact .threw (.refl e) related

/-- The rest of two sequences only has to coincide behind what the first parts return. -/
theorem bind {next next' : α → DecodeM σ β}
    (first : Coincide spared (left.ending st) (right.ending st'))
    (rest : ∀ a mid mid', Returns left st a mid → (abreast σ).Related mid mid' →
      Coincide spared ((next a).ending mid) ((next' a).ending mid')) :
    Coincide spared ((left >>= next).ending st) ((right >>= next').ending st') := by
  rw [ending_bind, ending_bind]
  generalize ended : left.ending st = l at first ⊢
  generalize right.ending st' = r at first ⊢
  cases first with
  | returned related => exact rest _ _ _ ended related
  | threw same related => exact .threw same related
  | capped may cap => exact .capped may cap
  | cappedRight may cap => exact .cappedRight may cap

/-- Attempts that coincide, if what is done with their outcomes passes on a failure at the cap. -/
theorem outcome_bind {next next' : Except DecodeError α → DecodeM σ β}
    (first : Coincide spared (left.ending st) (right.ending st'))
    (ok : ∀ a mid mid', (abreast σ).Related mid mid' →
      Coincide spared ((next (.ok a)).ending mid) ((next' (.ok a)).ending mid'))
    (error : ∀ e e' mid mid', e.SameCause σ e' → (abreast σ).Related mid mid' →
      Coincide spared ((next (.error e)).ending mid) ((next' (.error e')).ending mid'))
    (passes : ∀ e mid, e.failure.IsCap → ∃ after, Throws (next (.error e)) mid e after)
    (passes' : ∀ e mid, e.failure.IsCap → ∃ after, Throws (next' (.error e)) mid e after) :
    Coincide spared ((outcome left >>= next).ending st) ((outcome right >>= next').ending st') := by
  rw [ending_bind, ending_bind, ending_outcome, ending_outcome]
  generalize left.ending st = l at first ⊢
  generalize right.ending st' = r at first ⊢
  cases first with
  | returned related => exact ok _ _ _ related
  | threw same related => exact error _ _ _ _ same related
  | @capped e mid _ may cap =>
    obtain ⟨after, thrown⟩ := passes e mid cap
    dsimp only
    rw [thrown]
    exact .capped may cap
  | @cappedRight e _ mid may cap =>
    obtain ⟨after, thrown⟩ := passes' e mid cap
    dsimp only
    rw [thrown]
    exact .cappedRight may cap

theorem symm {l r : Except DecodeError α × DecodeState σ} (coincide : Coincide spared l r) :
    Coincide spared.swap r l := by
  cases coincide with
  | returned related => exact .returned related.symm
  | threw same related => exact .threw same.symm related.symm
  | capped may cap => exact .cappedRight may cap
  | cappedRight may cap => exact .capped may cap

end Coincide

/-! ## Steps -/

namespace Coinciding

/-- Runs that are abreast coincide. -/
theorem of_simulates (simulates : (abreast σ).Simulates Eq left right) :
    Coinciding spared left right := by
  intro st st' related
  have ends := simulates st st' related
  generalize left.ending st = l at ends ⊢
  generalize right.ending st' = r at ends ⊢
  cases ends with
  | returned same related =>
    subst same
    exact .returned related
  | threw related _ => exact .threw (.refl _) related
  | excused excuse => exact excuse.elim

theorem symm (coinciding : Coinciding spared left right) :
    Coinciding spared.swap right left :=
  fun st st' related => (coinciding st' st related.symm).symm

theorem pure (a : α) : Coinciding spared (Pure.pure a : DecodeM σ α) (Pure.pure a) :=
  fun _ _ related => .returned related

theorem throw {e e' : DecodeError} (same : e.SameCause σ e') :
    Coinciding spared (MonadExcept.throw e : DecodeM σ α) (MonadExcept.throw e') :=
  fun _ _ related => .threw same related

theorem bind {next next' : α → DecodeM σ β} (first : Coinciding spared left right)
    (rest : ∀ a, Coinciding spared (next a) (next' a)) :
    Coinciding spared (left >>= next) (right >>= next') :=
  fun st st' related => (first st st' related).bind fun a mid mid' _ between =>
    rest a mid mid' between

/-- An attempt that is given up at most if its failure is a mismatch. -/
theorem outcome_bind {next next' : Except DecodeError α → DecodeM σ β}
    (first : Coinciding spared left right)
    (ok : ∀ a, Coinciding spared (next (.ok a)) (next' (.ok a)))
    (error : ∀ e e', e.SameCause σ e' →
      Coinciding spared (next (.error e)) (next' (.error e')))
    (passes : ∀ e, e.isMismatch = false → next (.error e) = MonadExcept.throw e)
    (passes' : ∀ e, e.isMismatch = false → next' (.error e) = MonadExcept.throw e) :
    Coinciding spared (outcome left >>= next) (outcome right >>= next') :=
  fun st st' related => (first st st' related).outcome_bind
    (fun a mid mid' between => ok a mid mid' between)
    (fun e e' mid mid' same between => error e e' same mid mid' between)
    (fun e mid cap => ⟨mid, by rw [passes e cap.fatal]; rfl⟩)
    (fun e mid cap => ⟨mid, by rw [passes' e cap.fatal]; rfl⟩)

theorem ite {c : Prop} [Decidable c] {yes no yes' no' : DecodeM σ α}
    (holds : c → Coinciding spared yes yes') (fails : ¬ c → Coinciding spared no no') :
    Coinciding spared (if c then yes else no) (if c then yes' else no') := by
  by_cases h : c
  · rw [if_pos h, if_pos h]
    exact holds h
  · rw [if_neg h, if_neg h]
    exact fails h

/-- Events do not have to be the same. -/
theorem record (event event' : Event) :
    Coinciding spared (DecodeM.record event : DecodeM σ Unit) (DecodeM.record event') :=
  fun _ _ related => .returned { related with events := False.elim }

theorem align : Coinciding spared (DecodeM.align : DecodeM σ Unit) DecodeM.align :=
  of_simulates .align

/-- What has come to its end at the cap needs no counterpart. -/
theorem atCap {s : Schema} {n : Node s} {offset limit : Nat} (may : spared.left)
    (right : DecodeM σ α) :
    Coinciding spared (DecodeM.fail n offset (.repeatLimit limit)) right :=
  fun _ _ _ => .capped may ⟨limit, rfl⟩

theorem atCapRight {s : Schema} {n : Node s} {offset limit : Nat} (may : spared.right)
    (left : DecodeM σ α) :
    Coinciding spared left (DecodeM.fail n offset (.repeatLimit limit)) :=
  fun _ _ _ => .cappedRight may ⟨limit, rfl⟩

variable {s s' : Schema} (n : Node s) (n' : Node s')

/-- One and the same operation may be asked for by different elements if its failures are those of a
source that does not find its place. -/
theorem onSource (offset : Nat) {operation : SourceM σ α}
    (misplaces : ∀ {source fault after}, operation source = (.error fault, after) →
      ByteSource.Misplaces σ fault) :
    Coinciding spared (DecodeM.onSource n offset operation)
      (DecodeM.onSource n' offset operation) := by
  intro st st' related
  have same : st.source = st'.source := related.source
  unfold ending DecodeM.onSource
  rw [same]
  rcases ended : (operation st'.source : Except InputError α × σ) with ⟨fault | a, source⟩
  · exact .threw (.misplaced (misplaces ended)) { related with source := rfl }
  · exact .returned { related with source := rfl }

theorem tellAt (offset : Nat) :
    Coinciding spared (DecodeM.tellAt n offset : DecodeM σ Nat) (DecodeM.tellAt n' offset) :=
  onSource n n' offset .tell

theorem tell : Coinciding spared (DecodeM.tell n : DecodeM σ Nat) (DecodeM.tell n') :=
  tellAt n n' 0

theorem take : Coinciding spared (Mark.take n : DecodeM σ Mark) (Mark.take n') := by
  refine .bind (tell n n') fun position =>
    of_simulates (.get_bind fun st st' pending warnings => ?_)
  have same : st.warnings = st'.warnings := warnings
  rw [pending, same]
  exact .pure rfl

theorem rewind (mark : Mark) :
    Coinciding spared (mark.rewind n : DecodeM σ Unit) (mark.rewind n') :=
  .bind (.bind (onSource n n' mark.position .seek) fun _ => .pure ()) fun _ =>
    of_simulates (.modify fun _ _ related => { related with pending := rfl, warnings := rfl })

end Coinciding

end DecodeM

/-! ## Bytes in memory -/

/-- Two runs over the same source, of which the left one may end at the cap. -/
def Simulation.uncapped (σ : Type) : Simulation σ σ where
  source := Eq
  sameEvents := False
  excuses e := e.failure.IsCap
  high := none
  fatal _ := Failure.IsCap.fatal
  admits _ := True
  usual _ _ := trivial
  unindexed _ _ _ _ _ := trivial

/-- What the states have to have in common is the same as for runs that are abreast. -/
theorem Simulation.related_uncapped {σ : Type} {st st' : DecodeState σ} :
    (uncapped σ).Related st st' ↔ (abreast σ).Related st st' :=
  ⟨fun related => ⟨related.source, related.pending, related.warnings, nofun⟩,
    fun related => ⟨related.source, related.pending, related.warnings, nofun⟩⟩

namespace DecodeM.Coinciding

open Simulation

variable {σ α : Type} [ByteSource σ] {left right : DecodeM σ α} {spared : Spared}

theorem of_uncapped (simulates : (Simulation.uncapped σ).Simulates Eq left right)
    (may : spared.left) : Coinciding spared left right := by
  intro st st' related
  have ends := simulates st st' (related_uncapped.mpr related)
  generalize left.ending st = l at ends ⊢
  generalize right.ending st' = r at ends ⊢
  cases ends with
  | returned same related =>
    subst same
    exact .returned (related_uncapped.mp related)
  | threw related _ => exact .threw (.refl _) (related_uncapped.mp related)
  | excused cap => exact .capped may cap

/-- Where a source always finds its place, runs that coincide end with the same error. -/
theorem uncapped (coinciding : Coinciding spared left right) (never : ¬ spared.right)
    (found : ∀ fault, ¬ ByteSource.Misplaces σ fault) :
    (Simulation.uncapped σ).Simulates Eq left right := by
  intro st st' related
  have ends := coinciding st st' (related_uncapped.mp related)
  generalize left.ending st = l at ends ⊢
  generalize right.ending st' = r at ends ⊢
  cases ends with
  | returned related => exact .returned rfl (related_uncapped.mpr related)
  | threw same related =>
    cases same with
    | refl => exact .threw (related_uncapped.mpr related) trivial
    | misplaced misplaces => exact absurd misplaces (found _)
  | capped may cap => exact .excused cap
  | cappedRight may cap => exact absurd may never

end DecodeM.Coinciding

end BinaryTemplate
