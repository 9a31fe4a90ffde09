import BinaryTemplate.Proofs.Agreement
import BinaryTemplate.Proofs.Reading

/-!
# Two runs side by side

Two runs of a decode may be over sources of different types and by different decoders. A
`Simulation` says how much their states have to have in common, which bytes the runs keep to, and
after which errors of the left run nothing more is said about the right one. The left run simulates
the right one if from related states both end with related values or with the same error, in states
that are related again.

The lemmas below are about the steps from which the functions of a decoder are built, one for each.
-/

namespace BinaryTemplate

/-- Two nodes, perhaps of different schemas, that errors and events call by the same names. -/
structure Node.Namesakes {s s' : Schema} (n : Node s) (n' : Node s') : Prop where
  id : n.id = n'.id
  label : n.label = n'.label

theorem Simulation.fatal_of_never (e : DecodeError) (never : False) : e.isMismatch = false :=
  never.elim

theorem Simulation.tolerated_of_same (e : DecodeError) (l r : List DecodeError) (same : l = r) :
    e :: l = e :: r :=
  congrArg (e :: ·) same

/-- Whether a cause is one that not all runs may end with: a fault of the finished tree, which is
looked for behind them, or a bit that has no index. -/
def Failure.isSpecial : Failure → Bool
  | .validation _ | .bitIndexOverflow _ => true
  | _ => false

theorem Simulation.not_isFault_of_usual (e : DecodeError) (usual : e.failure.isSpecial = false) :
    ¬ e.failure.IsFault := by
  rintro ⟨cause, fault⟩
  rw [fault] at usual
  cases usual

theorem Simulation.not_isFault_of_unindexed {moves : Nat → Prop} (e : DecodeError)
    (position : Nat) (_ : moves position) (_ : positionLimit ≤ 8 * position)
    (unindexed : e.failure = .bitIndexOverflow position) : ¬ e.failure.IsFault := by
  rw [unindexed]
  exact nofun

/-- No bound on where the runs move. -/
def Simulation.anywhere (_position : Nat) : Prop := True

/-- How far the states of two runs are alike, and what the runs have to keep to. -/
structure Simulation (σ τ : Type) where
  source : σ → τ → Prop
  warnings : List DecodeError → List DecodeError → Prop := Eq
  sameEvents : Prop
  /-- The errors of the left run after which nothing is said about the right one. -/
  excuses : DecodeError → Prop
  /-- The positions to which the runs may move. -/
  moves : Nat → Prop := Simulation.anywhere
  /-- If set, neither run reads a byte from here on. -/
  high : Option Nat
  /-- Whether the runs may leave a frame for what an offset references, anywhere in the data. -/
  follows : Bool := false
  /-- What is excused ends the left run: no attempt that fails so is given up for another one. -/
  fatal : ∀ e, excuses e → e.isMismatch = false
  tolerated : ∀ e l r, warnings l r → warnings (e :: l) (e :: r) := by
    exact Simulation.tolerated_of_same
  /-- The errors with which the runs may end. -/
  admits : DecodeError → Prop := fun e => ¬ e.failure.IsFault
  usual : ∀ e, e.failure.isSpecial = false → admits e := by
    exact Simulation.not_isFault_of_usual
  unindexed : ∀ e position, moves position → positionLimit ≤ 8 * position →
      e.failure = .bitIndexOverflow position → admits e := by
    exact Simulation.not_isFault_of_unindexed

namespace Simulation

open DecodeM

variable {σ τ α β α' β' : Type} {R : Simulation σ τ}

/-- The bytes before `stop` may be read. -/
def Covers (R : Simulation σ τ) (stop : Nat) : Prop := ∀ high ∈ R.high, stop ≤ high

theorem Covers.mono {stop stop' : Nat} (covers : R.Covers stop) (below : stop' ≤ stop) :
    R.Covers stop' :=
  fun high bound => Nat.le_trans below (covers high bound)

/-- How far a decode at a place may read. -/
def reach (R : Simulation σ τ) (p : Place) : Nat :=
  if R.follows then max p.limit p.dataStop else p.limit

theorem covers_reach {p : Place} :
    R.Covers (R.reach p) ↔ R.Covers p.limit ∧ (R.follows = true → R.Covers p.dataStop) := by
  unfold reach Covers
  by_cases follows : R.follows = true
  · simp only [follows, if_true, forall_const, Nat.max_le]
    exact ⟨fun both =>
        ⟨fun high bound => (both high bound).1, fun high bound => (both high bound).2⟩,
      fun ⟨limit, sides⟩ high bound => ⟨limit high bound, sides high bound⟩⟩
  · rw [if_neg follows]
    exact ⟨fun limit => ⟨limit, fun followed => absurd followed follows⟩, And.left⟩

theorem Covers.limit {p : Place} (covers : R.Covers (R.reach p)) : R.Covers p.limit :=
  (covers_reach.mp covers).1

theorem Covers.sides {p : Place} (covers : R.Covers (R.reach p)) (follows : R.follows = true) :
    R.Covers p.dataStop :=
  (covers_reach.mp covers).2 follows

/-- The runs may go where offsets lead, from every place at which they may be. -/
structure Roams (R : Simulation σ τ) : Prop where
  sides : ∀ p, R.Covers (R.reach p) → R.Covers p.dataStop
  moves : ∀ position, R.Covers position → R.moves position

/-- The runs may read and move anywhere. -/
structure Whole (R : Simulation σ τ) : Prop where
  moves : R.moves = anywhere
  high : R.high = none

theorem Whole.covers (whole : R.Whole) (stop : Nat) : R.Covers stop := by
  rw [Covers, whole.high]
  exact nofun

theorem Whole.moves_to (whole : R.Whole) (position : Nat) : R.moves position := by
  rw [whole.moves]
  trivial

theorem Whole.roams (whole : R.Whole) : R.Roams :=
  ⟨fun _ _ => whole.covers _, fun position _ => whole.moves_to position⟩

/-- States of the two runs that go on alike. -/
structure Related (R : Simulation σ τ) (st : DecodeState σ) (st' : DecodeState τ) : Prop where
  source : R.source st.source st'.source
  pending : st.pending = st'.pending
  warnings : R.warnings st.warnings st'.warnings
  events : R.sameEvents → st.events = st'.events

/-- Two runs end alike: with related values or the same error, which is one that is admitted; or
the left one fails in a way that is excused. -/
inductive EndRelated (R : Simulation σ τ) (Q : α → β → Prop) :
    Except DecodeError α × DecodeState σ → Except DecodeError β × DecodeState τ → Prop
  | returned {a : α} {b : β} {st : DecodeState σ} {st' : DecodeState τ} (same : Q a b)
      (related : R.Related st st') : EndRelated R Q (.ok a, st) (.ok b, st')
  | threw {e : DecodeError} {st : DecodeState σ} {st' : DecodeState τ}
      (related : R.Related st st') (sound : R.admits e) :
      EndRelated R Q (.error e, st) (.error e, st')
  | excused {e : DecodeError} {st : DecodeState σ}
      {right : Except DecodeError β × DecodeState τ} (excuse : R.excuses e) :
      EndRelated R Q (.error e, st) right

/-- From related states the two steps end alike. -/
def Simulates (R : Simulation σ τ) (Q : α → β → Prop) (left : DecodeM σ α)
    (right : DecodeM τ β) : Prop :=
  ∀ st st', R.Related st st' → EndRelated R Q (left.ending st) (right.ending st')

variable {Q : α → β → Prop} {Q' : α' → β' → Prop} {left : DecodeM σ α} {right : DecodeM τ β}
  {st after : DecodeState σ} {st' : DecodeState τ}

/-! ## Reading off an end -/

theorem EndRelated.of_returns {a : α} (ends : EndRelated R Q (left.ending st) (right.ending st'))
    (h : Returns left st a after) :
    ∃ b after', Returns right st' b after' ∧ Q a b ∧ R.Related after after' := by
  rw [h] at ends
  generalize ended : right.ending st' = ending at ends
  cases ends with
  | returned same related => exact ⟨_, _, ended, same, related⟩

theorem EndRelated.of_throws {e : DecodeError}
    (ends : EndRelated R Q (left.ending st) (right.ending st')) (h : Throws left st e after) :
    R.excuses e ∨
      R.admits e ∧ ∃ after', Throws right st' e after' ∧ R.Related after after' := by
  rw [h] at ends
  generalize ended : right.ending st' = ending at ends
  cases ends with
  | threw related sound => exact .inr ⟨sound, _, ended, related⟩
  | excused excuse => exact .inl excuse

/-- If nothing is excused, the same values and errors are left, in states that are related. -/
theorem EndRelated.agree {l : Except DecodeError α × DecodeState σ}
    {r : Except DecodeError α × DecodeState τ} (ends : EndRelated R Eq l r)
    (strict : ∀ e, ¬ R.excuses e) : l.1 = r.1 ∧ R.Related l.2 r.2 := by
  cases ends with
  | returned same related => exact ⟨congrArg Except.ok same, related⟩
  | threw related sound => exact ⟨rfl, related⟩
  | excused excuse => exact absurd excuse (strict _)

/-- The rest of two sequences only has to end alike after what the first parts return. -/
theorem EndRelated.bind {next : α → DecodeM σ α'} {next' : β → DecodeM τ β'}
    (first : EndRelated R Q (left.ending st) (right.ending st'))
    (rest : ∀ a b mid mid', Returns left st a mid → Q a b → R.Related mid mid' →
      EndRelated R Q' ((next a).ending mid) ((next' b).ending mid')) :
    EndRelated R Q' ((left >>= next).ending st) ((right >>= next').ending st') := by
  rw [ending_bind, ending_bind]
  generalize ended : left.ending st = l at first ⊢
  generalize right.ending st' = r at first ⊢
  cases first with
  | returned same related => exact rest _ _ _ _ ended same related
  | threw related sound => exact .threw related sound
  | excused excuse => exact .excused excuse

/-- Taking the outcome never fails. After it the rest has to end alike, and where the left step has
failed in a way that is excused, so does its rest. -/
theorem EndRelated.outcome_bind {next : Except DecodeError α → DecodeM σ α'}
    {next' : Except DecodeError β → DecodeM τ β'}
    (first : EndRelated R Q (left.ending st) (right.ending st'))
    (ok : ∀ a b mid mid', Returns left st a mid → Q a b → R.Related mid mid' →
      EndRelated R Q' ((next (.ok a)).ending mid) ((next' (.ok b)).ending mid'))
    (error : ∀ e mid mid', Throws left st e mid → R.admits e → R.Related mid mid' →
      EndRelated R Q' ((next (.error e)).ending mid) ((next' (.error e)).ending mid'))
    (excused : ∀ e mid, R.excuses e →
      ∃ e' last, Throws (next (.error e)) mid e' last ∧ R.excuses e') :
    EndRelated R Q' ((outcome left >>= next).ending st) ((outcome right >>= next').ending st') := by
  have whole : ∀ {υ γ : Type} (step : DecodeM υ γ) st, (outcome step).ending st =
      (.ok (step.ending st).1, (step.ending st).2) := fun _ _ => rfl
  rw [ending_bind, ending_bind, whole, whole]
  generalize ended : left.ending st = l at first ⊢
  generalize right.ending st' = r at first ⊢
  cases first with
  | returned same related => exact ok _ _ _ _ ended same related
  | threw related sound => exact error _ _ _ ended sound related
  | @excused e mid _ excuse =>
    obtain ⟨e', last, thrown, excuse'⟩ := excused e mid excuse
    dsimp only
    rw [thrown]
    exact .excused excuse'

/-- A step that the left run takes alone. -/
theorem EndRelated.before {first : DecodeM σ α'} {next : α' → DecodeM σ α}
    {r : Except DecodeError β × DecodeState τ}
    (excused : ∀ e mid, Throws first st e mid → R.excuses e)
    (rest : ∀ a mid, Returns first st a mid → EndRelated R Q ((next a).ending mid) r) :
    EndRelated R Q ((first >>= next).ending st) r := by
  rw [ending_bind]
  rcases ended : first.ending st with ⟨e | a, mid⟩
  · exact .excused (excused e mid ended)
  · exact rest a mid ended

/-- Something that the left run does alone once both have ended. -/
theorem EndRelated.afterwards {Q' : α' → β → Prop} {next : α → DecodeM σ α'}
    {r : Except DecodeError β × DecodeState τ} (first : EndRelated R Q (left.ending st) r)
    (rest : ∀ a b mid mid', Q a b → R.Related mid mid' →
      EndRelated R Q' ((next a).ending mid) (.ok b, mid')) :
    EndRelated R Q' ((left >>= next).ending st) r := by
  rw [ending_bind]
  generalize left.ending st = l at first
  cases first with
  | returned same related => exact rest _ _ _ _ same related
  | threw related sound => exact .threw related sound
  | excused excuse => exact .excused excuse

/-- Something that the left run alone does to its value. -/
theorem EndRelated.map_left {f : α → α'} {P : α' → β → Prop}
    {r : Except DecodeError β × DecodeState τ} (ends : EndRelated R Q (left.ending st) r)
    (implies : ∀ a b, Q a b → P (f a) b) :
    EndRelated R P ((left >>= fun a => pure (f a)).ending st) r :=
  ends.afterwards fun _ _ _ _ same related => .returned (implies _ _ same) related

theorem EndRelated.get_bind {next : DecodeState σ → DecodeM σ α}
    {next' : DecodeState τ → DecodeM τ β}
    (rest : EndRelated R Q ((next st).ending st) ((next' st').ending st')) :
    EndRelated R Q ((get >>= next).ending st) ((get >>= next').ending st') :=
  rest

/-! ## The steps -/

namespace Simulates

theorem pure {a : α} {b : β} (same : Q a b) :
    R.Simulates Q (pure a) (pure b) :=
  fun _ _ related => .returned same related

theorem throw {e : DecodeError} (sound : R.admits e) :
    R.Simulates Q (throw e : DecodeM σ α) (throw e) :=
  fun _ _ related => .threw related sound

/-- In sequence after steps with related values. -/
theorem bind_of {next : α → DecodeM σ α'} {next' : β → DecodeM τ β'}
    (first : R.Simulates Q left right)
    (rest : ∀ a b, Q a b → R.Simulates Q' (next a) (next' b)) :
    R.Simulates Q' (left >>= next) (right >>= next') :=
  fun st st' related => (first st st' related).bind fun a b mid mid' _ same related =>
    rest a b same mid mid' related

/-- In sequence after steps with the same value. -/
theorem bind {left : DecodeM σ α} {right : DecodeM τ α} {next : α → DecodeM σ α'}
    {next' : α → DecodeM τ β'} (first : R.Simulates Eq left right)
    (rest : ∀ a, R.Simulates Q' (next a) (next' a)) :
    R.Simulates Q' (left >>= next) (right >>= next') := by
  refine first.bind_of ?_
  rintro a _ rfl
  exact rest a

theorem outcome_bind {next : Except DecodeError α → DecodeM σ α'}
    {next' : Except DecodeError β → DecodeM τ β'} (first : R.Simulates Q left right)
    (ok : ∀ a b, Q a b → R.Simulates Q' (next (.ok a)) (next' (.ok b)))
    (error : ∀ e, R.admits e → R.Simulates Q' (next (.error e)) (next' (.error e)))
    (excused : ∀ e mid, R.excuses e →
      ∃ e' last, Throws (next (.error e)) mid e' last ∧ R.excuses e') :
    R.Simulates Q' (outcome left >>= next) (outcome right >>= next') :=
  fun st st' related => (first st st' related).outcome_bind
    (fun a b mid mid' _ same related => ok a b same mid mid' related)
    (fun e mid mid' _ sound related => error e sound mid mid' related) excused

theorem get_bind {next : DecodeState σ → DecodeM σ α} {next' : DecodeState τ → DecodeM τ β}
    (rest : ∀ st st', st.pending = st'.pending → R.warnings st.warnings st'.warnings →
      R.Simulates Q (next st) (next' st')) :
    R.Simulates Q (get >>= next) (get >>= next') :=
  fun st st' related => rest st st' related.pending related.warnings st st' related

theorem modify {f : DecodeState σ → DecodeState σ} {f' : DecodeState τ → DecodeState τ}
    (keeps : ∀ st st', R.Related st st' → R.Related (f st) (f' st')) :
    R.Simulates Eq (modify f : DecodeM σ Unit) (modify f') :=
  fun st st' related => .returned rfl (keeps st st' related)

theorem ite_ends {c : Prop} [Decidable c] {yes no : DecodeM σ α} {yes' no' : DecodeM τ β}
    (holds : c → EndRelated R Q (yes.ending st) (yes'.ending st'))
    (fails : ¬ c → EndRelated R Q (no.ending st) (no'.ending st')) :
    EndRelated R Q ((if c then yes else no).ending st) ((if c then yes' else no').ending st') := by
  by_cases h : c
  · rw [if_pos h, if_pos h]
    exact holds h
  · rw [if_neg h, if_neg h]
    exact fails h

theorem ite {c : Prop} [Decidable c] {yes no : DecodeM σ α} {yes' no' : DecodeM τ β}
    (holds : c → R.Simulates Q yes yes') (fails : ¬ c → R.Simulates Q no no') :
    R.Simulates Q (if c then yes else no) (if c then yes' else no') :=
  fun st st' related => ite_ends (fun h => holds h st st' related) fun h => fails h st st' related

theorem record (e : Event) : R.Simulates Eq (record e) (record e) :=
  modify fun _ _ related =>
    { related with events := fun same => congrArg (e :: ·) (related.events same) }

theorem align : R.Simulates Eq align align :=
  modify fun _ _ related => { related with pending := rfl }

theorem setPending (bits : List Bool) :
    R.Simulates Eq (setPending bits) (setPending bits) :=
  modify fun _ _ related => { related with pending := rfl }

theorem liftExcept (r : Except DecodeError α) (sound : ∀ e, r = .error e → R.admits e) :
    R.Simulates Eq (liftExcept r) (liftExcept r) := by
  cases r with
  | ok a => exact pure rfl
  | error e => exact throw (sound e rfl)

variable {s s' : Schema} {n : Node s} {n' : Node s'} {offset : Nat} (names : n.Namesakes n')

include names

theorem fail {failure : Failure} (usual : failure.isSpecial = false) :
    R.Simulates Q (fail n offset failure : DecodeM σ α) (fail n' offset failure) := by
  unfold DecodeM.fail
  rw [names.id, names.label]
  exact throw (R.usual _ usual)

/-- A step that fails under a condition, in front of another step. -/
theorem guard {c : Prop} [Decidable c] {failure : Failure} {next : α → DecodeM σ α'}
    {next' : α → DecodeM τ β'} {rest : DecodeM σ α'} {rest' : DecodeM τ β'}
    (usual : failure.isSpecial = false)
    (otherwise : ¬ c → R.Simulates Q' rest rest') :
    R.Simulates Q' (if c then DecodeM.fail n offset failure >>= next else rest)
      (if c then DecodeM.fail n' offset failure >>= next' else rest') :=
  ite (fun _ st st' related => (fail (Q := Eq) names usual st st' related).bind nofun) otherwise

/-- The same from one pair of related states. -/
theorem guard_ends {c : Prop} [Decidable c] {failure : Failure} {next : α → DecodeM σ α'}
    {next' : α → DecodeM τ β'} {rest : DecodeM σ α'} {rest' : DecodeM τ β'}
    (usual : failure.isSpecial = false) (related : R.Related st st')
    (otherwise : ¬ c → EndRelated R Q' (rest.ending st) (rest'.ending st')) :
    EndRelated R Q' ((if c then DecodeM.fail n offset failure >>= next else rest).ending st)
      ((if c then DecodeM.fail n' offset failure >>= next' else rest').ending st') := by
  by_cases h : c
  · rw [if_pos h, if_pos h]
    exact (fail (Q := Eq) names usual st st' related).bind nofun
  · rw [if_neg h, if_neg h]
    exact otherwise h

theorem resolved {r r' : Except CycleError α} (same : r = r') :
    R.Simulates Eq (resolved n offset r) (resolved n' offset r') := by
  subst same
  cases r with
  | ok a => exact pure rfl
  | error cycle => exact fail names rfl

end Simulates

/-! ## The sources -/

/-- Two operations on the sources answer alike and leave them related. -/
def Answers (R : Simulation σ τ) (left : Except InputError α × σ)
    (right : Except InputError α × τ) : Prop :=
  left.1 = right.1 ∧ R.source left.2 right.2

/-- The operations of the two sources answer alike, as long as the runs keep to their bytes. -/
structure Respects [ByteSource σ] [SliceLike σ] [ByteSource τ] (R : Simulation σ τ) : Prop where
  moves : ∀ l r, R.source l r → R.moves (SliceLike.slice l).cursor
  onward : ∀ here there, R.moves here → here ≤ there → R.Covers there → R.moves there
  tell : ∀ l r, R.source l r →
    R.Answers ((ByteSource.tell : SourceM σ Nat) l) ((ByteSource.tell : SourceM τ Nat) r)
  seek : ∀ position l r, R.moves position → R.source l r →
    R.Answers ((ByteSource.seek (.start position) : SourceM σ Nat) l)
      ((ByteSource.seek (.start position) : SourceM τ Nat) r)
  readExact : ∀ count l r, R.Covers ((SliceLike.slice l).cursor + count) → R.source l r →
    R.Answers ((ByteSource.readExact count : SourceM σ (List UInt8)) l)
      ((ByteSource.readExact count : SourceM τ (List UInt8)) r)

/-- One and the same source answers alike. -/
theorem respects_of_eq {σ : Type} [ByteSource σ] [SliceLike σ] {R : Simulation σ σ}
    (same : R.source = Eq) (moves : R.moves = anywhere) : R.Respects := by
  have answers : ∀ {γ : Type} {operation : SourceM σ γ} l r, R.source l r →
      R.Answers (operation l) (operation r) := by
    intro γ operation l r related
    unfold Answers
    rw [same] at related ⊢
    obtain rfl : l = r := related
    exact ⟨rfl, rfl⟩
  have free : ∀ position, R.moves position := by
    intro position
    rw [moves]
    trivial
  exact ⟨fun _ _ _ => free _, fun _ _ _ _ _ => free _, answers,
    fun _ l r _ => answers l r, fun _ l r _ => answers l r⟩

/-- Marks to which the two runs go back alike. -/
structure SameMark (R : Simulation σ τ) (mark mark' : Mark) : Prop where
  position : mark.position = mark'.position
  pending : mark.pending = mark'.pending
  warnings : R.warnings mark.warnings mark'.warnings

section Sources

variable {s s' : Schema} {n : Node s} {n' : Node s'} {offset : Nat} (names : n.Namesakes n')

include names

theorem onSource_ends {operation : SourceM σ α} {operation' : SourceM τ α}
    (related : R.Related st st')
    (answers : R.Answers (operation st.source) (operation' st'.source)) :
    EndRelated R Eq ((onSource n offset operation).ending st)
      ((onSource n' offset operation').ending st') := by
  obtain ⟨same, sources⟩ := answers
  unfold ending onSource
  generalize (operation st.source : Except InputError α × σ) = l at same sources ⊢
  generalize (operation' st'.source : Except InputError α × τ) = r at same sources ⊢
  obtain ⟨answer, source⟩ := l
  obtain ⟨_, source'⟩ := r
  cases same
  cases answer with
  | ok a => exact .returned rfl { related with source := sources }
  | error e =>
    dsimp only [fail]
    rw [names.id, names.label]
    refine .threw { related with source := sources } (R.usual _ ?_)
    cases e <;> rfl

variable [ByteSource σ] [SliceLike σ] [ByteSource τ] (keeps : R.Respects)

include keeps

omit names in
theorem moves_cursor (related : R.Related st st') : R.moves st.reading.cursor :=
  keeps.moves _ _ related.source

theorem tellAt_sims : R.Simulates Eq (tellAt n offset) (tellAt n' offset) :=
  fun _ _ related => onSource_ends names related (keeps.tell _ _ related.source)

theorem tell_sims : R.Simulates Eq (tell n) (tell n') := tellAt_sims names keeps

theorem seek_sims {position : Nat} (moves : R.moves position) :
    R.Simulates Eq (seek n offset position) (seek n' offset position) :=
  .bind (fun _ _ related => onSource_ends names related
    (keeps.seek position _ _ moves related.source)) fun _ => .pure rfl

theorem readExact_ends {count : Nat} (related : R.Related st st')
    (covered : R.Covers (st.reading.cursor + count)) :
    EndRelated R Eq ((onSource n offset (ByteSource.readExact count)).ending st)
      ((onSource n' offset (ByteSource.readExact count)).ending st') :=
  onSource_ends names related (keeps.readExact count _ _ covered related.source)

theorem readByte_ends (related : R.Related st st') (covered : R.Covers (st.reading.cursor + 1)) :
    EndRelated R Eq ((onSource n offset ByteSource.readByte).ending st)
      ((onSource n' offset ByteSource.readByte).ending st') := by
  refine onSource_ends names related ?_
  obtain ⟨same, sources⟩ := keeps.readExact 1 _ _ covered related.source
  unfold Answers
  simp only [ByteSource.readByte, bind, ExceptT.bind, ExceptT.mk, StateT.bind]
  generalize (ByteSource.readExact 1 : SourceM σ (List UInt8)) st.source = l at same sources ⊢
  generalize (ByteSource.readExact 1 : SourceM τ (List UInt8)) st'.source = r at same sources ⊢
  obtain ⟨answer, source⟩ := l
  obtain ⟨_, source'⟩ := r
  cases same
  cases answer with
  | error e => exact ⟨rfl, sources⟩
  | ok bytes => exact ⟨rfl, sources⟩

theorem markTake_sims : R.Simulates R.SameMark (Mark.take n) (Mark.take n') :=
  .bind (tell_sims names keeps) fun _ => .get_bind fun _ _ pending warnings =>
    .pure ⟨rfl, pending, warnings⟩

theorem rewind_sims {mark mark' : Mark} (same : R.SameMark mark mark')
    (moves : R.moves mark.position) :
    R.Simulates Eq (mark.rewind n) (mark'.rewind n') := by
  unfold Mark.rewind
  rw [← same.position]
  exact .bind (seek_sims names keeps moves) fun _ => .modify fun _ _ related =>
    { related with pending := same.pending, warnings := same.warnings }

end Sources

end Simulation

end BinaryTemplate
