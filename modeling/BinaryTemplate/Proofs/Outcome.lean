import Mathlib
import BinaryTemplate.Decode

/-!
# Outcomes of decode steps

A step of a decode either returns a value or throws an error, and goes on in a new state in both
cases. `Returns` and `Throws` say so as relations between the state before and the state after.
The lemmas below take a step apart along its construction: what a sequence returns was returned by
its last part, after its first part had returned. Later proofs read the outcome of a whole function
off these lemmas and never unfold the monad.
-/

namespace BinaryTemplate

/-! ## Steps that may fail -/

section Steps

variable {ε σ α β : Type} {step : ExceptT ε (StateM σ) α} {next : α → ExceptT ε (StateM σ) β}
  {before mid : σ}

/-- After a step that succeeds comes the next one. -/
theorem bind_of_ok {a : α} (ended : step before = (.ok a, mid)) :
    (step >>= next) before = next a mid := by
  simp only [bind, ExceptT.bind, ExceptT.mk, StateT.bind]
  rw [ended]
  rfl

/-- After a step that fails comes nothing. -/
theorem bind_of_error {e : ε} (ended : step before = (.error e, mid)) :
    (step >>= next) before = (.error e, mid) := by
  simp only [bind, ExceptT.bind, ExceptT.mk, StateT.bind]
  rw [ended]
  rfl

end Steps

namespace DecodeM

variable {σ α β : Type}

/-- How a step ends from a state: the value or the error, and the state after it. -/
def ending (step : DecodeM σ α) (before : DecodeState σ) : Except DecodeError α × DecodeState σ :=
  step before

/-- From the state `before`, the step ends with the value `a` in the state `after`. -/
def Returns (step : DecodeM σ α) (before : DecodeState σ) (a : α) (after : DecodeState σ) : Prop :=
  step.ending before = (.ok a, after)

/-- From the state `before`, the step ends with the error `e` in the state `after`. -/
def Throws (step : DecodeM σ α) (before : DecodeState σ) (e : DecodeError)
    (after : DecodeState σ) : Prop :=
  step.ending before = (.error e, after)

theorem Returns.unique {step : DecodeM σ α} {before after after' : DecodeState σ} {a b : α}
    (first : Returns step before a after) (second : Returns step before b after') :
    a = b ∧ after = after' := by
  have same := first.symm.trans second
  cases same
  exact ⟨rfl, rfl⟩

theorem Returns.not_throws {step : DecodeM σ α} {before after after' : DecodeState σ} {a : α}
    {e : DecodeError} (returned : Returns step before a after) :
    ¬ Throws step before e after' := by
  intro thrown
  have same := returned.symm.trans thrown
  cases same

/-- Every step has an outcome. -/
theorem returns_or_throws (step : DecodeM σ α) (before : DecodeState σ) :
    (∃ a after, Returns step before a after) ∨ ∃ e after, Throws step before e after := by
  rcases ended : step.ending before with ⟨_ | _, after⟩
  · exact .inr ⟨_, after, ended⟩
  · exact .inl ⟨_, after, ended⟩

variable {st st' : DecodeState σ}

theorem returns_of_result {step : DecodeM σ α} {a : α} (result : (step.ending st).1 = .ok a) :
    Returns step st a (step.ending st).2 :=
  Prod.ext result rfl

/-! ## Sequences -/

@[simp] theorem returns_pure {a b : α} :
    Returns (pure a : DecodeM σ α) st b st' ↔ b = a ∧ st' = st := by
  constructor
  · intro h
    cases h
    exact ⟨rfl, rfl⟩
  · rintro ⟨rfl, rfl⟩
    rfl

theorem ending_bind {step : DecodeM σ α} {next : α → DecodeM σ β} :
    (step >>= next).ending st =
      match step.ending st with
      | (.ok a, mid) => (next a).ending mid
      | (.error e, mid) => (.error e, mid) := by
  rcases ended : step.ending st with ⟨e | a, mid⟩
  · exact bind_of_error ended
  · exact bind_of_ok ended

/-- A step that returns leaves the end of the sequence to the rest. -/
theorem ending_behind {step : DecodeM σ α} {next : α → DecodeM σ β} {a : α}
    {mid : DecodeState σ} (returned : Returns step st a mid) :
    (step >>= next).ending st = (next a).ending mid := by
  rw [ending_bind, show step.ending st = (.ok a, mid) from returned]

theorem ending_bind_of_eq {step step' : DecodeM σ α} {next : α → DecodeM σ β}
    (same : step.ending st = step'.ending st') :
    (step >>= next).ending st = (step' >>= next).ending st' := by
  rw [ending_bind, ending_bind, same]

@[simp] theorem returns_bind {step : DecodeM σ α} {next : α → DecodeM σ β} {b : β} :
    Returns (step >>= next) st b st' ↔
      ∃ a mid, Returns step st a mid ∧ Returns (next a) mid b st' := by
  rw [Returns, ending_bind]
  rcases ended : step.ending st with ⟨e | a, mid⟩
  · simp [Returns, ended]
  · constructor
    · intro h
      exact ⟨a, mid, ended, h⟩
    · rintro ⟨_, _, first, h⟩
      -- The first part ends in one way, so the existential names the value that is at hand.
      obtain ⟨rfl, rfl⟩ := Returns.unique ended first
      exact h

@[simp] theorem returns_throw {e : DecodeError} {a : α} :
    ¬ Returns (throw e : DecodeM σ α) st a st' := by
  intro h
  cases h

@[simp] theorem throws_throw {e e' : DecodeError} :
    Throws (throw e : DecodeM σ α) st e' st' ↔ e' = e ∧ st' = st := by
  constructor
  · intro h
    cases h
    exact ⟨rfl, rfl⟩
  · rintro ⟨rfl, rfl⟩
    rfl

@[simp] theorem returns_fail {s : Schema} {n : Node s} {offset : Nat} {failure : Failure} {a : α} :
    ¬ Returns (fail n offset failure : DecodeM σ α) st a st' :=
  returns_throw

@[simp] theorem returns_ite {c : Prop} [Decidable c] {yes no : DecodeM σ α} {a : α} :
    Returns (if c then yes else no) st a st' ↔
      (c ∧ Returns yes st a st') ∨ (¬ c ∧ Returns no st a st') := by
  by_cases h : c <;> simp [h]

/-- A step that fails under a condition lets the rest go on only if the condition does not hold. -/
@[simp] theorem returns_guard {c : Prop} [Decidable c] {s : Schema} {n : Node s} {offset : Nat}
    {failure : Failure} {rest : DecodeM σ α} {a : α} :
    Returns (if c then fail n offset failure else rest) st a st' ↔ ¬ c ∧ Returns rest st a st' := by
  simp

@[simp] theorem returns_guard_bind {c : Prop} [Decidable c] {s : Schema} {n : Node s}
    {offset : Nat} {failure : Failure} {next : α → DecodeM σ β} {rest : DecodeM σ β} {b : β} :
    Returns (if c then fail n offset failure >>= next else rest) st b st' ↔
      ¬ c ∧ Returns rest st b st' := by
  simp

@[simp] theorem returns_get {s : DecodeState σ} :
    Returns (get : DecodeM σ (DecodeState σ)) st s st' ↔ s = st ∧ st' = st := by
  constructor
  · intro h
    cases h
    exact ⟨rfl, rfl⟩
  · rintro ⟨rfl, rfl⟩
    rfl

@[simp] theorem returns_modify {f : DecodeState σ → DecodeState σ} {u : Unit} :
    Returns (modify f : DecodeM σ Unit) st u st' ↔ st' = f st := by
  constructor
  · intro h
    cases h
    rfl
  · rintro rfl
    rfl

@[simp] theorem returns_record {e : Event} {u : Unit} :
    Returns (record e) st u st' ↔ st' = { st with events := e :: st.events } :=
  returns_modify

@[simp] theorem returns_align {u : Unit} :
    Returns align st u st' ↔ st' = { st with pending := [] } :=
  returns_modify

@[simp] theorem returns_setPending {bits : List Bool} {u : Unit} :
    Returns (setPending bits) st u st' ↔ st' = { st with pending := bits } :=
  returns_modify

@[simp] theorem returns_resolved {s : Schema} {n : Node s} {offset : Nat}
    {r : Except CycleError α} {a : α} :
    Returns (resolved n offset r : DecodeM σ α) st a st' ↔ r = .ok a ∧ st' = st := by
  cases r with
  | ok b => simp [resolved, eq_comm]
  | error cycle => simp [resolved]

@[simp] theorem returns_liftExcept {r : Except DecodeError α} {a : α} :
    Returns (liftExcept r : DecodeM σ α) st a st' ↔ r = .ok a ∧ st' = st := by
  cases r with
  | ok b =>
    constructor
    · intro h
      cases h
      exact ⟨rfl, rfl⟩
    · rintro ⟨h, rfl⟩
      cases h
      rfl
  | error e =>
    constructor
    · intro h
      cases h
    · rintro ⟨h, _⟩
      cases h

/-- The outcome of a step that cannot fail itself is how the step inside ended. -/
@[simp] theorem returns_outcome {step : DecodeM σ α} {r : Except DecodeError α} :
    Returns (outcome step) st r st' ↔
      (∃ a, r = .ok a ∧ Returns step st a st') ∨ ∃ e, r = .error e ∧ Throws step st e st' := by
  rcases ended : step.ending st with ⟨e | a, mid⟩
  · have whole : (outcome step).ending st = (.ok (.error e), mid) := by
      simp only [ending, outcome] at ended ⊢
      rw [ended]
    constructor
    · intro h
      cases whole.symm.trans h
      exact .inr ⟨e, rfl, ended⟩
    · rintro (⟨a, _, returned⟩ | ⟨e', rfl, thrown⟩)
      · cases ended.symm.trans returned
      · cases ended.symm.trans thrown
        exact whole
  · have whole : (outcome step).ending st = (.ok (.ok a), mid) := by
      simp only [ending, outcome] at ended ⊢
      rw [ended]
    constructor
    · intro h
      cases whole.symm.trans h
      exact .inl ⟨a, rfl, ended⟩
    · rintro (⟨a', rfl, returned⟩ | ⟨e, _, thrown⟩)
      · cases ended.symm.trans returned
        exact whole
      · cases ended.symm.trans thrown

theorem returns_onSource {s : Schema} {n : Node s} {offset : Nat} {operation : SourceM σ α}
    {a : α} :
    Returns (onSource n offset operation) st a st' ↔
      ∃ source, operation st.source = (.ok a, source) ∧ st' = { st with source := source } := by
  unfold Returns ending onSource
  rcases ended : (operation st.source : Except InputError α × σ) with ⟨e | b, source⟩
  · constructor
    · intro h
      cases h
    · rintro ⟨_, h, _⟩
      cases h
  · constructor
    · intro h
      cases h
      exact ⟨source, rfl, rfl⟩
    · rintro ⟨_, h, rfl⟩
      cases h
      rfl

/-! ## Failures -/

@[simp] theorem throws_pure {a : α} {e : DecodeError} :
    ¬ Throws (pure a : DecodeM σ α) st e st' := by
  intro h
  cases h

@[simp] theorem throws_bind {step : DecodeM σ α} {next : α → DecodeM σ β} {e : DecodeError} :
    Throws (step >>= next) st e st' ↔
      Throws step st e st' ∨ ∃ a mid, Returns step st a mid ∧ Throws (next a) mid e st' := by
  rw [Throws, ending_bind]
  rcases ended : step.ending st with ⟨e' | a, mid⟩
  · simp [Throws, Returns, ended]
  · constructor
    · intro h
      exact .inr ⟨a, mid, ended, h⟩
    · rintro (h | ⟨_, _, first, h⟩)
      · cases ended.symm.trans h
      · obtain ⟨rfl, rfl⟩ := Returns.unique ended first
        exact h

/-- A step that returns leaves a failure of the sequence to the rest. -/
theorem throws_behind {step : DecodeM σ α} {next : α → DecodeM σ β} {a : α} {mid : DecodeState σ}
    {e : DecodeError} (returned : Returns step st a mid) :
    Throws (step >>= next) st e st' ↔ Throws (next a) mid e st' := by
  unfold Returns at returned
  rw [Throws, Throws, ending_bind, returned]

@[simp] theorem throws_fail {s : Schema} {n : Node s} {offset : Nat} {failure : Failure}
    {e : DecodeError} :
    Throws (fail n offset failure : DecodeM σ α) st e st' ↔
      e = ⟨n.id, n.label, offset, failure⟩ ∧ st' = st :=
  throws_throw

@[simp] theorem throws_ite {c : Prop} [Decidable c] {yes no : DecodeM σ α} {e : DecodeError} :
    Throws (if c then yes else no) st e st' ↔
      (c ∧ Throws yes st e st') ∨ (¬ c ∧ Throws no st e st') := by
  by_cases h : c <;> simp [h]

@[simp] theorem throws_guard_bind {c : Prop} [Decidable c] {s : Schema} {n : Node s}
    {offset : Nat} {failure : Failure} {next : α → DecodeM σ β} {rest : DecodeM σ β}
    {e : DecodeError} :
    Throws (if c then fail n offset failure >>= next else rest) st e st' ↔
      (c ∧ e = ⟨n.id, n.label, offset, failure⟩ ∧ st' = st) ∨ (¬ c ∧ Throws rest st e st') := by
  simp

@[simp] theorem throws_get {e : DecodeError} :
    ¬ Throws (get : DecodeM σ (DecodeState σ)) st e st' := by
  intro h
  cases h

@[simp] theorem throws_modify {f : DecodeState σ → DecodeState σ} {e : DecodeError} :
    ¬ Throws (modify f : DecodeM σ Unit) st e st' := by
  intro h
  cases h

@[simp] theorem throws_record {event : Event} {e : DecodeError} :
    ¬ Throws (record event) st e st' :=
  throws_modify

@[simp] theorem throws_align {e : DecodeError} : ¬ Throws align st e st' := throws_modify

@[simp] theorem throws_setPending {bits : List Bool} {e : DecodeError} :
    ¬ Throws (setPending bits) st e st' :=
  throws_modify

@[simp] theorem throws_resolved {s : Schema} {n : Node s} {offset : Nat}
    {r : Except CycleError α} {e : DecodeError} :
    Throws (resolved n offset r : DecodeM σ α) st e st' ↔
      ∃ cycle, r = .error cycle ∧ e = ⟨n.id, n.label, offset, .cycle cycle⟩ ∧ st' = st := by
  cases r with
  | ok a => simp [resolved]
  | error cycle => simp [resolved]

@[simp] theorem throws_liftExcept {r : Except DecodeError α} {e : DecodeError} :
    Throws (liftExcept r : DecodeM σ α) st e st' ↔ r = .error e ∧ st' = st := by
  cases r with
  | ok a =>
    constructor
    · intro h
      cases h
    · rintro ⟨h, _⟩
      cases h
  | error e' =>
    constructor
    · intro h
      cases h
      exact ⟨rfl, rfl⟩
    · rintro ⟨h, rfl⟩
      cases h
      rfl

/-- To take the outcome of a step never fails. -/
@[simp] theorem throws_outcome {step : DecodeM σ α} {e : DecodeError} :
    ¬ Throws (outcome step) st e st' := by
  intro h
  cases h

theorem throws_onSource {s : Schema} {n : Node s} {offset : Nat} {operation : SourceM σ α}
    {e : DecodeError} :
    Throws (onSource n offset operation) st e st' ↔
      ∃ cause source, operation st.source = (.error cause, source) ∧
        e = ⟨n.id, n.label, offset, .ofInput cause⟩ ∧ st' = { st with source := source } := by
  unfold Throws ending onSource
  rcases ended : (operation st.source : Except InputError α × σ) with ⟨cause | a, source⟩
  · constructor
    · intro h
      cases h
      exact ⟨cause, source, rfl, rfl, rfl⟩
    · rintro ⟨_, _, h, rfl, rfl⟩
      cases h
      rfl
  · constructor
    · intro h
      cases h
    · rintro ⟨_, _, h, _⟩
      cases h

end DecodeM

end BinaryTemplate
