import BinaryTemplate.Proofs.Outcome

/-!
# Relations that a decode respects

Two decoders with the same schema, evaluator and scripts but different options go through the same
steps until a limit or a violated constraint comes in between. What their runs have in common is
then a relation between steps, and it holds of the whole decodes as soon as it holds of the steps
where the options matter and is kept by the ways in which a decoder puts steps together. A
`Congruence` lists these laws; the walk through the functions of the decoder is the same for all of
them.
-/

namespace BinaryTemplate

namespace Failure

/-- A lookup that came back to where it was. -/
def IsCycle (f : Failure) : Prop := ∃ cause, f = .cycle cause

/-- The same as a test, which settles a given failure by evaluation. -/
def isCycle : Failure → Bool
  | .cycle _ => true
  | _ => false

theorem not_isCycle {f : Failure} (h : f.isCycle = false) : ¬ f.IsCycle := by
  rintro ⟨cause, rfl⟩
  cases h

/-- A constraint of a field that is not met. -/
inductive IsViolation : Failure → Prop
  | mustMatch {value : String} {allowed : List String} : IsViolation (.mustMatch value allowed)
  | range {value : String} {min max : Option Int64} : IsViolation (.range value min max)

/-- A limit of the options that is reached. -/
inductive IsLimit : Failure → Prop
  | depth {limit : Nat} : IsLimit (.depthExceeded limit)
  | repeats {limit : Nat} : IsLimit (.repeatLimit limit)

theorem IsViolation.not_isCycle {f : Failure} (h : f.IsViolation) : ¬ f.IsCycle := by
  rintro ⟨_, rfl⟩
  cases h

theorem IsLimit.not_isMismatch {f : Failure} (h : f.IsLimit) : f.isMismatch = false := by
  cases h <;> rfl

theorem not_isCycle_of_isMismatch {f : Failure} (h : f.isMismatch = true) : ¬ f.IsCycle := by
  rintro ⟨_, rfl⟩
  cases h

end Failure

/-- A change of errors that only rewords short reads, as overruns of a declared length. -/
def Rewords (reword : DecodeError → DecodeError) : Prop :=
  ∀ e, reword e = e ∨ (∃ wanted available, e.failure = .shortRead wanted available) ∧
    ∃ declared consumed, (reword e).failure = .lengthMismatch declared consumed

theorem rewords_id : Rewords id := fun _ => .inl rfl

namespace Rewords

variable {reword : DecodeError → DecodeError} (rewords : Rewords reword) {e : DecodeError}

include rewords

/-- What is no short read stays as it is. -/
theorem eq_self (h : ∀ wanted available, e.failure ≠ .shortRead wanted available) :
    reword e = e := by
  rcases rewords e with same | ⟨⟨wanted, available, short⟩, -⟩
  · exact same
  · exact absurd short (h wanted available)

theorem eq_of_fatal (h : e.isMismatch = false) : reword e = e := by
  refine rewords.eq_self fun wanted available short => ?_
  rw [DecodeError.isMismatch, short] at h
  cases h

theorem eq_of_violation (h : e.failure.IsViolation) : reword e = e := by
  refine rewords.eq_self fun wanted available short => ?_
  rw [short] at h
  cases h

theorem not_isCycle (h : ¬ e.failure.IsCycle) : ¬ (reword e).failure.IsCycle := by
  rcases rewords e with same | ⟨-, _, _, overrun⟩
  · rwa [same]
  · rw [overrun]
    exact nofun

end Rewords

namespace DecodeM

variable {σ α β : Type}

theorem ending_outcome (step : DecodeM σ α) (st : DecodeState σ) :
    (outcome step).ending st = (.ok (step.ending st).1, (step.ending st).2) :=
  rfl

/-- A step whose failure is passed on by all that is done with its outcome needs no outcome. -/
theorem outcome_bind_of_throws {step : DecodeM σ α} {next : Except DecodeError α → DecodeM σ β}
    (passes : ∀ e, next (.error e) = throw e) :
    outcome step >>= next = step >>= fun a => next (.ok a) := by
  funext st
  show (outcome step >>= next).ending st = (step >>= fun a => next (.ok a)).ending st
  rw [ending_bind, ending_bind, ending_outcome]
  rcases step.ending st with ⟨e | a, mid⟩
  · dsimp only
    rw [passes]
    rfl
  · rfl

/-- A step with something that is done after it in any case. Its failure is passed on afterwards,
perhaps in other words. -/
def closing (back : DecodeM σ Unit) (reword : DecodeError → DecodeError) (step : DecodeM σ α) :
    DecodeM σ α := do
  let result ← outcome step
  back
  match result with
  | .ok a => pure a
  | .error e => throw (reword e)

theorem closing_throws {back : DecodeM σ Unit} {reword : DecodeError → DecodeError}
    {step : DecodeM σ α} {st st' : DecodeState σ} {e : DecodeError} :
    Throws (closing back reword step) st e st' ↔
      (∃ r mid, Returns (outcome step) st r mid ∧ Throws back mid e st') ∨
        ∃ cause mid, Throws step st cause mid ∧ Returns back mid () st' ∧ e = reword cause := by
  unfold closing
  simp only [throws_bind, throws_outcome, false_or]
  constructor
  · rintro ⟨r, mid, ended, failed | ⟨⟨⟩, _, done, failed⟩⟩
    · exact .inl ⟨r, mid, ended, failed⟩
    · rcases returns_outcome.mp ended with ⟨a, rfl, -⟩ | ⟨cause, rfl, thrown⟩
      · exact absurd failed throws_pure
      · obtain ⟨rfl, rfl⟩ := throws_throw.mp failed
        exact .inr ⟨cause, mid, thrown, done, rfl⟩
  · rintro (⟨r, mid, ended, failed⟩ | ⟨cause, mid, thrown, done, rfl⟩)
    · exact ⟨r, mid, ended, .inl failed⟩
    · exact ⟨.error cause, mid, returns_outcome.mpr (.inr ⟨cause, rfl, thrown⟩),
        .inr ⟨(), st', done, throws_throw.mpr ⟨rfl, rfl⟩⟩⟩

/-- What is done after the content of a container, and after a side tree. -/
inductive PutsBack [ByteSource σ] : DecodeM σ Unit → Prop
  | align : PutsBack align
  | resume {s : Schema} (n : Node s) (offset position : Nat) (bits : List Bool) :
      PutsBack do setPending bits; seek n offset position

/-- A step that leaves the warnings alone and does not fail with a cycle. -/
structure Plain (step : DecodeM σ α) : Prop where
  warnings : ∀ st, (step.ending st).2.warnings = st.warnings
  sound : ∀ {st e after}, Throws step st e after → ¬ e.failure.IsCycle

namespace Plain

variable {s : Schema} {n : Node s} {offset : Nat}

theorem pure (a : α) : Plain (pure a : DecodeM σ α) :=
  ⟨fun _ => rfl, fun thrown => absurd thrown throws_pure⟩

theorem get : Plain (get : DecodeM σ (DecodeState σ)) :=
  ⟨fun _ => rfl, fun thrown => absurd thrown throws_get⟩

theorem throw {e : DecodeError} (sound : ¬ e.failure.IsCycle) :
    Plain (throw e : DecodeM σ α) := by
  refine ⟨fun _ => rfl, fun thrown => ?_⟩
  obtain ⟨rfl, -⟩ := throws_throw.mp thrown
  exact sound

theorem modify {f : DecodeState σ → DecodeState σ} (keeps : ∀ st, (f st).warnings = st.warnings) :
    Plain (modify f : DecodeM σ Unit) :=
  ⟨keeps, fun thrown => absurd thrown throws_modify⟩

theorem onSource (operation : SourceM σ α) : Plain (onSource n offset operation) := by
  constructor
  · intro st
    unfold ending DecodeM.onSource
    rcases (operation st.source : Except InputError α × σ) with ⟨_ | _, _⟩ <;> rfl
  · rintro st e after thrown ⟨cause, cycle⟩
    obtain ⟨fault, source, -, rfl, -⟩ := throws_onSource.mp thrown
    cases fault <;> cases cycle

end Plain

end DecodeM

open DecodeM

variable {σ : Type}

/-- The decoder with other options. -/
@[reducible] def Decoder.withOptions (d : Decoder σ) (o : DecodeOptions) : Decoder σ :=
  { d with options := o }

/-- No attempt of a decode is given up for another one: every run has a greatest number of
instances, and the children of every container come in their order. -/
structure Schema.Straight (s : Schema) : Prop where
  bounded : ∀ (n : Node s) (r : Reference), n.repeatMax = .ok r →
    ∃ k : Int64, r = .literal k ∧ 0 ≤ k.toInt
  declared : ∀ (n : Node s) (order : ChildOrder), n.order = .ok order → order = .declared

/-- So much depth, or so many further instances, as two runs may still use: the same, or more for
the second one if nothing is said about what follows a limit. -/
def Room (cutsOff : Prop) (room room' : Nat) : Prop := room = room' ∨ cutsOff ∧ room ≤ room'

namespace Room

variable {cutsOff : Prop} {room room' : Nat}

theorem eq (rooms : Room cutsOff room room') (cuts : ¬ cutsOff) : room = room' :=
  rooms.resolve_right fun more => cuts more.1

theorem cutsOff_of_zero (rooms : Room cutsOff 0 (room + 1)) : cutsOff := by
  obtain same | ⟨cuts, -⟩ := rooms
  · cases same
  · exact cuts

theorem of_succ (rooms : Room cutsOff (room + 1) room') :
    ∃ less, room' = less + 1 ∧ Room cutsOff room less := by
  obtain rfl | ⟨cuts, le⟩ := rooms
  · exact ⟨room, rfl, .inl rfl⟩
  · obtain ⟨less, rfl⟩ := Nat.exists_eq_add_of_le' (Nat.lt_of_lt_of_le (Nat.succ_pos room) le)
    exact ⟨less, rfl, .inr ⟨cuts, Nat.le_of_succ_le_succ le⟩⟩

theorem pred (rooms : Room cutsOff room room') : Room cutsOff (room - 1) (room' - 1) := by
  obtain rfl | ⟨cuts, le⟩ := rooms
  · exact .inl rfl
  · exact .inr ⟨cuts, Nat.sub_le_sub_right le 1⟩

end Room

/-- A relation between the steps of a decoder and those of the same decoder with other options,
with the laws from which it follows for whole decodes. -/
structure Congruence [ByteSource σ] (d : Decoder σ) (o : DecodeOptions) where
  rel : {α : Type} → DecodeM σ α → DecodeM σ α → Prop
  /-- Nothing is said about what follows a limit. -/
  cutsOff : Prop
  /-- The relation is kept where an attempt is given up for another one. -/
  givesUp : Prop
  maxDepth : Room cutsOff d.options.maxDepth o.maxDepth
  maxRepeat : Room cutsOff d.options.maxRepeat o.maxRepeat
  validate : o.validate = d.options.validate
  plain : ∀ {α : Type} {step : DecodeM σ α}, Plain step → rel step step
  lookup : ∀ {α : Type} (n : Node d.schema) (offset : Nat) (a : Attribute α),
    rel (resolved n offset (n.lookup a)) (resolved n offset (n.lookup a))
  bind_of_returns : ∀ {α β : Type} {left right : DecodeM σ α} {next next' : α → DecodeM σ β},
    rel left right → (∀ a st after, Returns left st a after → rel (next a) (next' a)) →
      rel (left >>= next) (right >>= next')
  violation : ∀ {e : DecodeError}, e.failure.IsViolation →
    rel (d.violation e) ((d.withOptions o).violation e)
  closing : ∀ {α : Type} {left right : DecodeM σ α} {back : DecodeM σ Unit}
    {reword : DecodeError → DecodeError}, PutsBack back → Rewords reword → rel left right →
      rel (closing back reword left) (closing back reword right)
  limited : cutsOff → ∀ {α : Type} {e : DecodeError} (right : DecodeM σ α), e.failure.IsLimit →
    rel (throw e) right
  rewind : givesUp → ∀ (mark : Mark) (n : Node d.schema), rel (mark.rewind n) (mark.rewind n)
  attempt : givesUp → ∀ {α β : Type} {left right : DecodeM σ α}
    {next next' : Except DecodeError α → DecodeM σ β}, rel left right →
      (∀ a, rel (next (.ok a)) (next' (.ok a))) →
      (∀ e, e.isMismatch = true → rel (next (.error e)) (next' (.error e))) →
      (∀ e, e.isMismatch = false → next (.error e) = throw e ∧ next' (.error e) = throw e) →
      rel (outcome left >>= next) (outcome right >>= next')

namespace Congruence

variable [ByteSource σ] {d : Decoder σ} {o : DecodeOptions} (C : Congruence d o) {α β : Type}
  {n : Node d.schema} {offset : Nat}

theorem pure (a : α) : C.rel (pure a) (pure a) := C.plain (.pure a)

theorem bind {left right : DecodeM σ α} {next next' : α → DecodeM σ β} (first : C.rel left right)
    (rest : ∀ a, C.rel (next a) (next' a)) : C.rel (left >>= next) (right >>= next') :=
  C.bind_of_returns first fun a _ _ _ => rest a

theorem ite {c : Prop} [Decidable c] {yes no yes' no' : DecodeM σ α} (holds : c → C.rel yes yes')
    (fails : ¬ c → C.rel no no') : C.rel (if c then yes else no) (if c then yes' else no') := by
  by_cases h : c
  · rw [if_pos h, if_pos h]
    exact holds h
  · rw [if_neg h, if_neg h]
    exact fails h

theorem fail {failure : Failure} (sound : failure.isCycle = false) :
    C.rel (fail n offset failure : DecodeM σ α) (fail n offset failure) :=
  C.plain (.throw (Failure.not_isCycle sound))

/-- A step that fails under a condition, in front of another step. -/
theorem guard {c : Prop} [Decidable c] {failure : Failure} {next next' : α → DecodeM σ β}
    {rest rest' : DecodeM σ β} (sound : failure.isCycle = false)
    (otherwise : ¬ c → C.rel rest rest') :
    C.rel (if c then DecodeM.fail n offset failure >>= next else rest)
      (if c then DecodeM.fail n offset failure >>= next' else rest') :=
  -- Behind a failure nothing is ever returned.
  C.ite (fun _ => C.bind_of_returns (C.fail sound) fun _ _ _ h => absurd h returns_fail) otherwise

theorem lookupD (a : Attribute α) (fallback : α) :
    C.rel (resolved n offset (n.lookupD a fallback))
      (resolved n offset (n.lookupD a fallback)) := by
  have split : (resolved n offset (n.lookupD a fallback) : DecodeM σ α) =
      resolved n offset (n.lookup a) >>= fun found => Pure.pure (found.getD fallback) := by
    unfold Node.lookupD
    cases n.lookup a <;> rfl
  rw [split]
  exact C.bind (C.lookup n offset a) fun found => C.pure _

theorem get_bind {next next' : DecodeState σ → DecodeM σ α}
    (rest : ∀ st, C.rel (next st) (next' st)) : C.rel (get >>= next) (get >>= next') :=
  C.bind (C.plain .get) rest

theorem record (e : Event) : C.rel (record e) (record e) := C.plain (.modify fun _ => rfl)

theorem align : C.rel align align := C.plain (.modify fun _ => rfl)

theorem setPending (bits : List Bool) : C.rel (setPending bits) (setPending bits) :=
  C.plain (.modify fun _ => rfl)

theorem onSource (operation : SourceM σ α) :
    C.rel (onSource n offset operation) (onSource n offset operation) :=
  C.plain (.onSource operation)

theorem tellAt : C.rel (tellAt n offset) (tellAt n offset) := C.onSource _

theorem tell : C.rel (tell n) (tell n) := C.onSource _

theorem seek (position : Nat) : C.rel (seek n offset position) (seek n offset position) :=
  C.bind (C.onSource _) fun _ => C.pure ()

theorem take : C.rel (Mark.take n) (Mark.take n) :=
  C.bind C.tell fun _ => C.get_bind fun _ => C.pure _

/-- An attempt whose failure is passed on in any case. -/
theorem passedOn {left right : DecodeM σ α} {next next' : Except DecodeError α → DecodeM σ β}
    (first : C.rel left right) (ok : ∀ a, C.rel (next (.ok a)) (next' (.ok a)))
    (passes : ∀ e, next (.error e) = throw e ∧ next' (.error e) = throw e) :
    C.rel (outcome left >>= next) (outcome right >>= next') := by
  rw [outcome_bind_of_throws fun e => (passes e).1, outcome_bind_of_throws fun e => (passes e).2]
  exact C.bind first ok

/-- Where the first run meets a limit, the second one meets it too, or need not be looked at. -/
theorem atLimit {failure : Failure} {right : DecodeM σ α} (isLimit : failure.IsLimit)
    (same : ¬ C.cutsOff → right = DecodeM.fail n offset failure) :
    C.rel (DecodeM.fail n offset failure) right := by
  by_cases cuts : C.cutsOff
  · exact C.limited cuts right isLimit
  · rw [same cuts]
    refine C.fail ?_
    cases isLimit <;> rfl

end Congruence

end BinaryTemplate
