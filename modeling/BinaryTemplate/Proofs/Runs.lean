import BinaryTemplate.Decode.Container
import BinaryTemplate.Proofs.Field

/-!
# Runs of instances

The content of a container comes about in attempts. An attempt either takes an instance, or it is
rejected: then the cursor, the unread bits and the warnings are those from before it again. A `Run`
is the history of the instances of one element, with one constructor for every way on and every way
out of the loop; `Rounds` is the history of a choice between elements. What a container needs of
either history is that it `Fills` the container with values one after the other.
-/

namespace BinaryTemplate

/-- The place after more values are completed in the innermost frame. -/
def Place.completeAll (p : Place) (vs : List Value) : Place := vs.foldl Place.complete p

namespace Place

@[simp] theorem completeAll_nil (p : Place) : p.completeAll [] = p := rfl

@[simp] theorem completeAll_cons (p : Place) (v : Value) (vs : List Value) :
    p.completeAll (v :: vs) = (p.complete v).completeAll vs := rfl

theorem completeAll_append (p : Place) (vs ws : List Value) :
    p.completeAll (vs ++ ws) = (p.completeAll vs).completeAll ws := by
  simp [completeAll]

@[simp] theorem limit_complete (p : Place) (v : Value) : (p.complete v).limit = p.limit := rfl

@[simp] theorem dataStop_complete (p : Place) (v : Value) :
    (p.complete v).dataStop = p.dataStop := rfl

@[simp] theorem limit_completeAll (p : Place) (vs : List Value) :
    (p.completeAll vs).limit = p.limit := by
  induction vs generalizing p with
  | nil => rfl
  | cons v vs inductionHypothesis => exact inductionHypothesis (p.complete v)

@[simp] theorem dataStop_completeAll (p : Place) (vs : List Value) :
    (p.completeAll vs).dataStop = p.dataStop := by
  induction vs generalizing p with
  | nil => rfl
  | cons v vs inductionHypothesis => exact inductionHypothesis (p.complete v)

theorem children_completeAll (p : Place) (vs : List Value) :
    (p.completeAll vs).inner.children = p.inner.children ++ vs := by
  induction vs generalizing p with
  | nil => simp
  | cons v vs inductionHypothesis =>
    rw [completeAll_cons, inductionHypothesis]
    simp [complete, Frame.complete, Frame.children]

end Place

namespace DecodeState

variable {σ : Type} [ByteSource σ] [SliceLike σ]

/-- A decode goes on from `after` as it does from `before`. -/
structure Resumes (before after : DecodeState σ) : Prop where
  reading : after.reading = before.reading
  warnings : after.warnings = before.warnings

/-- What an attempt has changed between `before` and `failed` is put back in `after`; only the
bytes of the source are as the attempt has left them. -/
structure Rewound (before failed after : DecodeState σ) : Prop where
  reading : after.reading = { before.reading with data := failed.reading.data }
  warnings : after.warnings = before.warnings

theorem Resumes.refl (st : DecodeState σ) : st.Resumes st := ⟨rfl, rfl⟩

theorem Resumes.symm {left right : DecodeState σ} (h : left.Resumes right) : right.Resumes left :=
  ⟨h.reading.symm, h.warnings.symm⟩

theorem Resumes.trans {first second third : DecodeState σ} (left : first.Resumes second)
    (right : second.Resumes third) : first.Resumes third :=
  ⟨right.reading.trans left.reading, right.warnings.trans left.warnings⟩

end DecodeState

namespace Decoder

open DecodeM

variable {σ : Type} [ByteSource σ] [SliceLike σ] {d : Decoder σ} {child : d.DecodeChild}
  {p : Place} {n : Node d.schema} {st st' : DecodeState σ}

/-! ## Attempts -/

/-- An attempt takes an instance of an element. -/
inductive Takes (child : d.DecodeChild) (p : Place) (n : Node d.schema) (before : DecodeState σ)
    (v : Value) (after : DecodeState σ) : Prop
  | mk {start : DecodeState σ} (resumes : before.Resumes start)
      (decoded : Returns (child p n) start v after)

/-- An attempt at an instance of an element is rejected, because none is there. -/
inductive Rejects (child : d.DecodeChild) (p : Place) (n : Node d.schema)
    (before after : DecodeState σ) : Prop
  | mk {start failed : DecodeState σ} {e : DecodeError} (resumes : before.Resumes start)
      (failure : Throws (child p n) start e failed) (mismatch : e.isMismatch = true)
      (rewound : before.Rewound failed after)

/-- Nothing is left in the innermost frame, unread bits included. -/
def Spent (p : Place) (st : DecodeState σ) : Prop :=
  p.limit ≤ st.reading.cursor ∧ st.reading.pending = []

/-- The attempts that fill a container with some values, one after the other. -/
inductive Fills (child : d.DecodeChild) :
    Place → DecodeState σ → List Value → DecodeState σ → Prop
  | nil {p : Place} {st st' : DecodeState σ} (resumes : st.Resumes st') : Fills child p st [] st'
  | rejected {p : Place} {n : Node d.schema} {st mid st' : DecodeState σ} {vs : List Value}
      (attempt : Rejects child p n st mid) (rest : Fills child p mid vs st') :
      Fills child p st vs st'
  | took {p : Place} {n : Node d.schema} {st mid st' : DecodeState σ} {v : Value}
      {vs : List Value} (attempt : Takes child p n st v mid)
      (rest : Fills child (p.complete v) mid vs st') : Fills child p st (v :: vs) st'

theorem Takes.resumed {v : Value} {mid : DecodeState σ} (resumes : st.Resumes mid)
    (h : Takes child p n mid v st') : Takes child p n st v st' := by
  cases h with
  | mk start decoded => exact ⟨resumes.trans start, decoded⟩

theorem Rejects.resumed {mid : DecodeState σ} (resumes : st.Resumes mid)
    (h : Rejects child p n mid st') : Rejects child p n st st' := by
  cases h with
  | mk start failure mismatch rewound =>
    refine ⟨resumes.trans start, failure, mismatch, ?_, rewound.warnings.trans resumes.warnings⟩
    rw [rewound.reading, resumes.reading]

theorem Fills.resumed {vs : List Value} {mid : DecodeState σ} (resumes : st.Resumes mid)
    (h : Fills child p mid vs st') : Fills child p st vs st' := by
  cases h with
  | nil more => exact .nil (resumes.trans more)
  | rejected attempt rest => exact .rejected (attempt.resumed resumes) rest
  | took attempt rest => exact .took (attempt.resumed resumes) rest

theorem Fills.append {vs ws : List Value} {mid : DecodeState σ} (first : Fills child p st vs mid)
    (second : Fills child (p.completeAll vs) mid ws st') : Fills child p st (vs ++ ws) st' := by
  induction first with
  | nil resumes => exact second.resumed resumes
  | rejected attempt _ inductionHypothesis => exact .rejected attempt (inductionHypothesis second)
  | took attempt _ inductionHypothesis => exact .took attempt (inductionHypothesis second)

/-! ## Marks -/

/-- A mark from which the attempts of a round start. -/
structure Marked (mark : Mark) (st : DecodeState σ) : Prop where
  position : mark.position = st.reading.cursor
  pending : mark.pending = st.reading.pending
  warnings : mark.warnings = st.warnings

theorem marked_of_take {mark : Mark} (h : Returns (Mark.take n) st mark st') :
    Marked mark st' ∧ st.Resumes st' := by
  obtain ⟨position, pending, warnings, reading, kept⟩ := Mark.take_returns h
  rw [← reading] at position
  refine ⟨⟨position, ?_, warnings.trans kept.symm⟩, reading, kept⟩
  rw [reading]
  exact pending

/-- A rewound attempt is back at the mark from which it started. -/
theorem Marked.rewound {mark : Mark} {failed back : DecodeState σ} (marked : Marked mark st)
    {m : Node d.schema} (h : Returns (Mark.rewind m mark) failed () back) :
    st.Rewound failed back ∧ Marked mark back := by
  obtain ⟨reading, warnings⟩ := Mark.rewind_returns h
  refine ⟨⟨?_, warnings.trans marked.warnings⟩, ?_, ?_, warnings.symm⟩
  · rw [reading, marked.position, marked.pending]
  · rw [reading]
  · rw [reading]

omit [ByteSource σ] [SliceLike σ] in
@[simp] theorem exhausted_returns {position : Nat} {spent : Bool} :
    Returns (exhausted p position) st spent st' ↔
      spent = (p.limit ≤ position && st.pending.isEmpty) ∧ st' = st := by
  simp only [exhausted, returns_bind, returns_get, returns_pure]
  constructor
  · rintro ⟨_, _, ⟨rfl, rfl⟩, rfl, rfl⟩
    exact ⟨rfl, rfl⟩
  · rintro ⟨rfl, rfl⟩
    exact ⟨st', st', ⟨rfl, rfl⟩, rfl, rfl⟩

theorem Marked.spent {mark : Mark} (marked : Marked mark st) :
    (decide (p.limit ≤ mark.position) && st.pending.isEmpty) = true ↔ Spent p st := by
  simp [Spent, marked.position]

/-! ## One element -/

/-- The history of a run of instances of one element, after `count` of them. It ends with the
greatest number, where nothing is left, at an attempt that is rejected, or, if it is open-ended,
with an instance that takes no byte. -/
inductive Run (child : d.DecodeChild) (n : Node d.schema) (min : Nat) (max : Option Nat) :
    Nat → Place → DecodeState σ → List Value → DecodeState σ → Prop
  | full {count : Nat} {p : Place} {st : DecodeState σ} (most : max.any (· ≤ count) = true) :
      Run child n min max count p st [] st
  | spent {count : Nat} {p : Place} {st st' : DecodeState σ} (enough : min ≤ count)
      (spent : Spent p st) (resumes : st.Resumes st') : Run child n min max count p st [] st'
  | rejected {count : Nat} {p : Place} {st st' : DecodeState σ} (openEnded : max = none)
      (enough : min ≤ count) (attempt : Rejects child p n st st') :
      Run child n min max count p st [] st'
  | empty {count : Nat} {p : Place} {st st' : DecodeState σ} {v : Value}
      (openEnded : max = none) (attempt : Takes child p n st v st') (empty : v.len = 0) :
      Run child n min max count p st [v] st'
  | more {count : Nat} {p : Place} {st mid st' : DecodeState σ} {v : Value} {vs : List Value}
      (room : max.any (· ≤ count) = false) (attempt : Takes child p n st v mid)
      (progress : max = none → v.len ≠ 0)
      (rest : Run child n min max (count + 1) (p.complete v) mid vs st') :
      Run child n min max count p st (v :: vs) st'

theorem spent_of_resumes {mid : DecodeState σ} (resumes : st.Resumes mid) (h : Spent p mid) :
    Spent p st := by
  unfold Spent at h ⊢
  rw [← resumes.reading]
  exact h

theorem Run.resumed {min count : Nat} {max : Option Nat} {vs : List Value} {mid : DecodeState σ}
    (resumes : st.Resumes mid) (room : max.any (· ≤ count) = false)
    (h : Run child n min max count p mid vs st') : Run child n min max count p st vs st' := by
  cases h with
  -- The loop asks for the greatest number before it sets the mark, so a full run has none.
  | full most => exact absurd (most.symm.trans room) (by decide)
  | spent enough spent more =>
    exact .spent enough (spent_of_resumes resumes spent) (resumes.trans more)
  | rejected openEnded enough attempt => exact .rejected openEnded enough (attempt.resumed resumes)
  | empty openEnded attempt empty => exact .empty openEnded (attempt.resumed resumes) empty
  | more _ attempt progress rest => exact .more room (attempt.resumed resumes) progress rest

theorem Run.fills {min count : Nat} {max : Option Nat} {vs : List Value}
    (h : Run child n min max count p st vs st') : Fills child p st vs st' := by
  induction h with
  | full => exact .nil (.refl _)
  | spent _ _ resumes => exact .nil resumes
  | rejected _ _ attempt => exact .rejected attempt (.nil (.refl _))
  | empty _ attempt _ => exact .took attempt (.nil (.refl _))
  | more _ attempt _ _ inductionHypothesis => exact .took attempt inductionHypothesis

/-- One round of a run: it ends without a further instance, or an instance is taken and the run ends
with it or goes on behind it. -/
theorem repeatFrom_round {min : Nat} {max : Option Nat} {room count : Nat} {p' : Place}
    (h : Returns (d.repeatFrom child n min max room count p) st p' st') :
    (p' = p ∧ Run child n min max count p st [] st') ∨
      max.any (· ≤ count) = false ∧ ∃ v mid, Takes child p n st v mid ∧
        ((v.len = 0 ∧ max = none ∧ p' = p.complete v ∧ st' = mid) ∨
          (¬ (v.len = 0 ∧ max = none) ∧ ∃ rest, room = rest + 1 ∧
            Returns (d.repeatFrom child n min max rest (count + 1) (p.complete v)) mid p'
              st')) := by
  rw [repeatFrom.eq_def] at h
  simp only [returns_ite, returns_bind, returns_pure, exhausted_returns] at h
  obtain ⟨most, rfl, rfl⟩ | ⟨below, mark, mid, takes, h⟩ := h
  · exact .inl ⟨rfl, .full most⟩
  have free : max.any (· ≤ count) = false := by simpa using below
  obtain ⟨marked, resumes⟩ := marked_of_take takes
  obtain ⟨enough, _, mid, ⟨rfl, rfl⟩, ⟨spent, rfl, rfl⟩ | ⟨-, h⟩⟩ | ⟨-, h⟩ := h
  · exact .inl ⟨rfl, .resumed resumes free (.spent enough (marked.spent.mp spent) (.refl _))⟩
  -- With the minimum or without it, one more instance is tried.
  all_goals
    cases room with
    | zero => exact absurd h returns_fail
    | succ rest =>
      obtain ⟨result, after, tried, h⟩ := returns_bind.mp h
      obtain ⟨v, rfl, decoded⟩ | ⟨e, rfl, failure⟩ := returns_outcome.mp tried
      · refine .inr ⟨free, v, after, ⟨resumes, decoded⟩, ?_⟩
        simp only [returns_ite, returns_pure, Option.isNone_iff_eq_none] at h
        obtain ⟨⟨empty, openEnded⟩, rfl, rfl⟩ | ⟨progress, h⟩ := h
        · exact .inl ⟨empty, openEnded, rfl, rfl⟩
        · exact .inr ⟨progress, rest, rfl, h⟩
      · simp only [returns_ite, returns_bind, returns_record, returns_pure, returns_throw,
          and_false, or_false, Bool.and_eq_true, Option.isNone_iff_eq_none, decide_eq_true_eq] at h
        -- A failure ends the run only if it is open-ended and complete, and finds a mismatch.
        obtain ⟨⟨⟨openEnded, enough⟩, mismatch⟩, _, _, rfl, _, back, rewinds, rfl, rfl⟩ := h
        obtain ⟨rewound, -⟩ := marked.rewound rewinds
        have attempt : Rejects child p' n mid st' :=
          ⟨.refl _, failure, mismatch, ⟨rewound.reading, rewound.warnings⟩⟩
        exact .inl ⟨rfl, .resumed resumes free (.rejected openEnded enough attempt)⟩

theorem repeatFrom_returns {min : Nat} {max : Option Nat} {room count : Nat} {p' : Place}
    (h : Returns (d.repeatFrom child n min max room count p) st p' st') :
    ∃ vs, p' = p.completeAll vs ∧ Run child n min max count p st vs st' := by
  induction room using Nat.strongRecOn generalizing count p st with
  | ind room inductionHypothesis =>
    obtain ⟨rfl, run⟩ | ⟨free, v, mid, attempt, ended⟩ := repeatFrom_round h
    · exact ⟨[], rfl, run⟩
    obtain ⟨empty, openEnded, rfl, rfl⟩ | ⟨progress, rest, less, others⟩ := ended
    · exact ⟨[v], rfl, .empty openEnded attempt empty⟩
    · obtain ⟨vs, rfl, run⟩ := inductionHypothesis rest (by omega) others
      refine ⟨v :: vs, rfl, .more free attempt ?_ run⟩
      intro openEnded empty
      exact progress ⟨empty, openEnded⟩

/-! ## Child definitions -/

/-- Whether a definition is switched off. -/
def Disabled {s : Schema} (n : Node s) (off : Bool) : Prop :=
  match n.kind with
  | .grammarRef _ => n.disabled = .ok off
  | _ => off = false

/-- The bounds of a run at a place: the least number, and the greatest if the run is not
open-ended. -/
def Bounds (d : Decoder σ) (p : Place) (n : Node d.schema) (min : Nat) (max : Option Nat) : Prop :=
  ∃ least most kmin kmax, n.repeatMin = .ok least ∧ n.repeatMax = .ok most ∧
    d.Evaluates p least kmin ∧ d.Evaluates p most kmax ∧ kmin.toInt = min ∧
    max = if kmax.toInt < 0 then none else some kmax.toInt.toNat

/-- The number of instances that a run has to have. -/
def required (min : Nat) : Option Nat → Nat
  | none => min
  | some max => Nat.min min max

/-- A child definition with its bounds, and the values that are decoded for it. -/
structure Tally (s : Schema) where
  node : Node s
  min : Nat
  max : Option Nat
  values : List Value

omit [ByteSource σ] [SliceLike σ] in
theorem isDisabled_returns {off : Bool} :
    Returns (d.isDisabled n) st off st' ↔ Disabled n off ∧ st' = st := by
  unfold isDisabled Disabled
  cases n.kind with
  | grammarRef => exact returns_resolved
  | _ => exact returns_pure

omit [ByteSource σ] [SliceLike σ] in
theorem repeatBounds_returns {offset least : Nat} {max : Option Nat} :
    Returns (d.repeatBounds p n offset) st (least, max) st' ↔
      (∃ min, d.Bounds p n min max ∧ least = required min max) ∧ st' = st := by
  simp only [repeatBounds, returns_bind, returns_resolved, evalInteger_returns,
    returns_guard_bind]
  constructor
  · rintro ⟨rmin, _, ⟨foundMin, rfl⟩, kmin, _, ⟨evalMin, rfl⟩, rmax, _, ⟨foundMax, rfl⟩, kmax, _,
      ⟨evalMax, rfl⟩, nonneg, h⟩
    simp only [returns_ite, returns_pure, Prod.mk.injEq] at h
    -- A least number below zero fails before it is used.
    have counted : kmin.toInt = kmin.toInt.toNat := by omega
    obtain ⟨openEnded, ⟨rfl, rfl⟩, rfl⟩ | ⟨bounded, ⟨rfl, rfl⟩, rfl⟩ := h
    · refine ⟨⟨_, ⟨_, _, kmin, kmax, foundMin, foundMax, evalMin, evalMax, counted, ?_⟩, rfl⟩, rfl⟩
      rw [if_pos openEnded]
    · refine ⟨⟨_, ⟨_, _, kmin, kmax, foundMin, foundMax, evalMin, evalMax, counted, ?_⟩, rfl⟩, rfl⟩
      rw [if_neg bounded]
  · rintro ⟨⟨min, ⟨rmin, rmax, kmin, kmax, foundMin, foundMax, evalMin, evalMax, counted, most⟩,
      rfl⟩, rfl⟩
    refine ⟨rmin, st', ⟨foundMin, rfl⟩, kmin, st', ⟨evalMin, rfl⟩, rmax, st', ⟨foundMax, rfl⟩, kmax,
      st', ⟨evalMax, rfl⟩, by omega, ?_⟩
    simp only [returns_ite, returns_pure, Prod.mk.injEq, counted, Int.toNat_natCast]
    by_cases openEnded : kmax.toInt < 0
    · rw [if_pos openEnded] at most
      subst most
      exact .inl ⟨openEnded, ⟨rfl, rfl⟩, trivial⟩
    · rw [if_neg openEnded] at most
      subst most
      exact .inr ⟨openEnded, ⟨rfl, rfl⟩, trivial⟩

omit [ByteSource σ] [SliceLike σ] in
theorem isDisabled_throws {e : DecodeError}
    (h : Throws (d.isDisabled n) st e st') : e.isMismatch = false := by
  unfold isDisabled at h
  cases kind : n.kind <;> simp only [kind, throws_pure, throws_resolved] at h
  obtain ⟨_, -, rfl, -⟩ := h
  rfl

omit [ByteSource σ] [SliceLike σ] in
/-- Bounds that cannot be worked out are no mismatch. -/
theorem repeatBounds_throws {offset : Nat} {e : DecodeError}
    (h : Throws (d.repeatBounds p n offset) st e st') : e.isMismatch = false := by
  simp only [repeatBounds, throws_bind, throws_resolved, throws_ite, throws_fail, throws_pure,
    returns_fail, exists_false, and_false, or_false] at h
  obtain ⟨_, -, rfl, -⟩ | ⟨_, _, -, thrown | ⟨_, _, -, ⟨_, -, rfl, -⟩ | ⟨_, _, -, thrown |
    ⟨_, _, -, -, rfl, -⟩⟩⟩⟩ := h
  · rfl
  · exact evalInteger_throws thrown
  · rfl
  · exact evalInteger_throws thrown
  · rfl

/-! ## The definitions in their turn -/

/-- The history of a content in which the definitions have their turn. -/
inductive InTurn (child : d.DecodeChild) :
    List ElementId → Place → DecodeState σ → List (Tally d.schema) → DecodeState σ → Prop
  | nil {p : Place} {st : DecodeState σ} : InTurn child [] p st [] st
  | off {id : ElementId} {ids : List ElementId} {n : Node d.schema} {p : Place}
      {st mid st' : DecodeState σ} {ts : List (Tally d.schema)}
      (found : d.schema.node? id = some n) (off : Disabled n true) (resumes : st.Resumes mid)
      (rest : InTurn child ids p mid ts st') : InTurn child (id :: ids) p st ts st'
  | run {id : ElementId} {ids : List ElementId} {t : Tally d.schema} {p : Place}
      {st start mid st' : DecodeState σ} {ts : List (Tally d.schema)}
      (found : d.schema.node? id = some t.node) (on : Disabled t.node false)
      (bounds : d.Bounds p t.node t.min t.max) (resumes : st.Resumes start)
      (run : Run child t.node (required t.min t.max) t.max 0 p start t.values mid)
      (rest : InTurn child ids (p.completeAll t.values) mid ts st') :
      InTurn child (id :: ids) p st (t :: ts) st'

theorem InTurn.fills {ids : List ElementId} {ts : List (Tally d.schema)}
    (h : InTurn child ids p st ts st') : Fills child p st (ts.flatMap Tally.values) st' := by
  induction h with
  | nil => exact .nil (.refl _)
  | off _ _ resumes _ inductionHypothesis => exact inductionHypothesis.resumed resumes
  | run _ _ _ resumes run _ inductionHypothesis =>
    rw [List.flatMap_cons]
    exact (run.fills.resumed resumes).append inductionHypothesis

theorem decodeRepeated_returns {p' : Place} (h : Returns (d.decodeRepeated child p n) st p' st') :
    ∃ min max vs start, d.Bounds p n min max ∧ st.Resumes start ∧ p' = p.completeAll vs ∧
      Run child n (required min max) max 0 p start vs st' := by
  simp only [decodeRepeated, returns_bind] at h
  obtain ⟨offset, start, tells, ⟨least, max⟩, _, bounded, repeats⟩ := h
  obtain ⟨⟨min, bounds, rfl⟩, rfl⟩ := repeatBounds_returns.mp bounded
  obtain ⟨-, same⟩ := tell_returns tells
  obtain ⟨source, -, rfl⟩ := returns_onSource.mp tells
  obtain ⟨vs, completed, run⟩ := repeatFrom_returns repeats
  exact ⟨min, max, vs, _, bounds, ⟨same, rfl⟩, completed, run⟩

theorem decodeDeclared_returns : ∀ {ids : List ElementId} {p p' : Place} {st : DecodeState σ},
    Returns (d.decodeDeclared child ids p) st p' st' →
    ∃ ts, p' = p.completeAll (ts.flatMap Tally.values) ∧ InTurn child ids p st ts st' := by
  intro ids
  induction ids with
  | nil =>
    intro p p' st h
    simp only [decodeDeclared, returns_pure] at h
    obtain ⟨rfl, rfl⟩ := h
    exact ⟨[], rfl, .nil⟩
  | cons id ids inductionHypothesis =>
    intro p p' st h
    simp only [decodeDeclared, returns_bind, node_returns, returns_ite, returns_record] at h
    obtain ⟨n, _, ⟨found, rfl⟩, off, _, switched, h⟩ := h
    obtain ⟨disabled, rfl⟩ := isDisabled_returns.mp switched
    obtain ⟨rfl, _, _, rfl, rest⟩ | ⟨on, next, mid, repeats, rest⟩ := h
    · obtain ⟨ts, rfl, turns⟩ := inductionHypothesis rest
      refine ⟨ts, rfl, .off found disabled ?_ turns⟩
      exact ⟨rfl, rfl⟩
    · obtain ⟨min, max, vs, start, bounds, resumes, rfl, run⟩ := decodeRepeated_returns repeats
      obtain ⟨ts, rfl, turns⟩ := inductionHypothesis rest
      have enabled : Disabled n false := by simpa [on] using disabled
      refine ⟨⟨n, min, max, vs⟩ :: ts, ?_, .run found enabled bounds resumes run turns⟩
      rw [List.flatMap_cons, Place.completeAll_append]

/-! ## Any of the definitions -/

namespace Tally

variable {s : Schema}

/-- The alternative that a choice has for a definition. -/
def alternative (t : Tally s) : Alternative s :=
  ⟨t.node, required t.min t.max, t.max, t.values.length⟩

/-- The tally with one more value. -/
def add (t : Tally s) (v : Value) : Tally s := { t with values := t.values ++ [v] }

@[simp] theorem alternative_add (t : Tally s) (v : Value) :
    (t.add v).alternative = { t.alternative with count := t.alternative.count + 1 } := by
  simp [alternative, add]

end Tally

/-- The definitions that a choice starts with: those that are not switched off, with their bounds
and no values. -/
inductive Offered (d : Decoder σ) (p : Place) : List ElementId → List (Tally d.schema) → Prop
  | nil : Offered d p [] []
  | off {id : ElementId} {ids : List ElementId} {n : Node d.schema} {ts : List (Tally d.schema)}
      (found : d.schema.node? id = some n) (off : Disabled n true) (rest : Offered d p ids ts) :
      Offered d p (id :: ids) ts
  | on {id : ElementId} {ids : List ElementId} {t : Tally d.schema} {ts : List (Tally d.schema)}
      (found : d.schema.node? id = some t.node) (on : Disabled t.node false)
      (bounds : d.Bounds p t.node t.min t.max) (none : t.values = [])
      (rest : Offered d p ids ts) : Offered d p (id :: ids) (t :: ts)

omit [ByteSource σ] [SliceLike σ] in
theorem alternatives_returns {offset : Nat} : ∀ {ids : List ElementId}
    {choices : List (Alternative d.schema)} {st : DecodeState σ},
    Returns (d.alternatives p offset ids) st choices st' →
    (∃ ts, choices = ts.map Tally.alternative ∧ Offered d p ids ts) ∧ st' = st := by
  intro ids
  induction ids with
  | nil =>
    intro choices st h
    obtain ⟨rfl, rfl⟩ := returns_pure.mp h
    exact ⟨⟨[], rfl, .nil⟩, rfl⟩
  | cons id ids inductionHypothesis =>
    intro choices st h
    simp only [alternatives, returns_bind, node_returns, returns_ite, returns_pure] at h
    obtain ⟨n, _, ⟨found, rfl⟩, off, _, switched, h⟩ := h
    obtain ⟨disabled, rfl⟩ := isDisabled_returns.mp switched
    obtain ⟨rfl, rest⟩ | ⟨on, ⟨least, max⟩, _, bounded, others, _, rest, rfl, rfl⟩ := h
    · obtain ⟨⟨ts, rfl, offered⟩, rfl⟩ := inductionHypothesis rest
      exact ⟨⟨ts, rfl, .off found disabled offered⟩, rfl⟩
    · obtain ⟨⟨min, bounds, rfl⟩, rfl⟩ := repeatBounds_returns.mp bounded
      obtain ⟨⟨ts, rfl, offered⟩, rfl⟩ := inductionHypothesis rest
      have enabled : Disabled n false := by simpa [on] using disabled
      exact ⟨⟨⟨n, min, max, []⟩ :: ts, rfl, .on found enabled bounds rfl offered⟩, rfl⟩

/-- Every definition of a choice that is not full is tried and rejected. -/
inductive NonePicks (child : d.DecodeChild) (p : Place) :
    DecodeState σ → List (Tally d.schema) → DecodeState σ → Prop
  | nil {st : DecodeState σ} : NonePicks child p st [] st
  | full {t : Tally d.schema} {ts : List (Tally d.schema)} {st st' : DecodeState σ}
      (full : t.alternative.isFull = true) (rest : NonePicks child p st ts st') :
      NonePicks child p st (t :: ts) st'
  | rejected {t : Tally d.schema} {ts : List (Tally d.schema)} {st mid st' : DecodeState σ}
      (free : t.alternative.isFull = false) (attempt : Rejects child p t.node st mid)
      (rest : NonePicks child p mid ts st') : NonePicks child p st (t :: ts) st'

/-- The first definition of a choice that is not full and not rejected takes an instance. -/
inductive Picks (child : d.DecodeChild) (p : Place) (v : Value) :
    DecodeState σ → List (Tally d.schema) → List (Tally d.schema) → DecodeState σ → Prop
  | here {t : Tally d.schema} {ts : List (Tally d.schema)} {st st' : DecodeState σ}
      (free : t.alternative.isFull = false) (attempt : Takes child p t.node st v st') :
      Picks child p v st (t :: ts) (t.add v :: ts) st'
  | full {t : Tally d.schema} {ts ts' : List (Tally d.schema)} {st st' : DecodeState σ}
      (full : t.alternative.isFull = true) (rest : Picks child p v st ts ts' st') :
      Picks child p v st (t :: ts) (t :: ts') st'
  | rejected {t : Tally d.schema} {ts ts' : List (Tally d.schema)} {st mid st' : DecodeState σ}
      (free : t.alternative.isFull = false) (attempt : Rejects child p t.node st mid)
      (rest : Picks child p v mid ts ts' st') : Picks child p v st (t :: ts) (t :: ts') st'

/-- The history of a choice. It ends where nothing is left, where no definition takes an instance,
or with an instance that takes no byte. -/
inductive Rounds (child : d.DecodeChild) : Place → DecodeState σ → List (Tally d.schema) →
    List Value → List (Tally d.schema) → DecodeState σ → Prop
  | spent {p : Place} {ts : List (Tally d.schema)} {st st' : DecodeState σ} (spent : Spent p st)
      (resumes : st.Resumes st') : Rounds child p st ts [] ts st'
  | unmatched {p : Place} {ts : List (Tally d.schema)} {st start st' : DecodeState σ}
      (resumes : st.Resumes start) (unmatched : NonePicks child p start ts st') :
      Rounds child p st ts [] ts st'
  | empty {p : Place} {ts ts' : List (Tally d.schema)} {st start st' : DecodeState σ} {v : Value}
      (resumes : st.Resumes start) (picks : Picks child p v start ts ts' st')
      (empty : v.len = 0) : Rounds child p st ts [v] ts' st'
  | more {p : Place} {ts ts' ts'' : List (Tally d.schema)} {st start mid st' : DecodeState σ}
      {v : Value} {vs : List Value} (resumes : st.Resumes start)
      (picks : Picks child p v start ts ts' mid) (progress : v.len ≠ 0)
      (rest : Rounds child (p.complete v) mid ts' vs ts'' st') :
      Rounds child p st ts (v :: vs) ts'' st'

theorem NonePicks.fills {ts : List (Tally d.schema)} (h : NonePicks child p st ts st') :
    Fills child p st [] st' := by
  induction h with
  | nil => exact .nil (.refl _)
  | full _ _ inductionHypothesis => exact inductionHypothesis
  | rejected _ attempt _ inductionHypothesis => exact .rejected attempt inductionHypothesis

theorem Picks.fills {v : Value} {ts ts' : List (Tally d.schema)}
    (h : Picks child p v st ts ts' st') : Fills child p st [v] st' := by
  induction h with
  | here _ attempt => exact .took attempt (.nil (.refl _))
  | full _ _ inductionHypothesis => exact inductionHypothesis
  | rejected _ attempt _ inductionHypothesis => exact .rejected attempt inductionHypothesis

theorem Rounds.fills {ts ts' : List (Tally d.schema)} {vs : List Value}
    (h : Rounds child p st ts vs ts' st') : Fills child p st vs st' := by
  induction h with
  | spent _ resumes => exact .nil resumes
  | unmatched resumes unmatched => exact unmatched.fills.resumed resumes
  | empty resumes picks _ => exact picks.fills.resumed resumes
  | more resumes picks _ _ inductionHypothesis =>
    exact (picks.fills.resumed resumes).append inductionHypothesis

theorem firstMatch_returns {mark : Mark} : ∀ {ts : List (Tally d.schema)}
    {found : Option (Value × List (Alternative d.schema))} {st : DecodeState σ},
    Marked mark st →
    Returns (d.firstMatch child p n mark (ts.map Tally.alternative)) st found st' →
    (found = none ∧ NonePicks child p st ts st') ∨
      ∃ v ts', found = some (v, ts'.map Tally.alternative) ∧ Picks child p v st ts ts' st' := by
  intro ts
  induction ts with
  | nil =>
    intro found st marked h
    obtain ⟨rfl, rfl⟩ := returns_pure.mp h
    exact .inl ⟨rfl, .nil⟩
  | cons t ts inductionHypothesis =>
    intro found st marked h
    simp only [List.map_cons, firstMatch, returns_ite, returns_bind, returns_pure] at h
    obtain ⟨full, others, _, rest, rfl, rfl⟩ | ⟨notFull, result, mid, tried, h⟩ := h
    · obtain ⟨rfl, nothing⟩ | ⟨v, ts', rfl, picks⟩ := inductionHypothesis marked rest
      · exact .inl ⟨rfl, .full full nothing⟩
      · exact .inr ⟨v, t :: ts', rfl, .full full picks⟩
    have free : t.alternative.isFull = false := by simpa using notFull
    obtain ⟨v, rfl, decoded⟩ | ⟨e, rfl, failure⟩ := returns_outcome.mp tried
    · obtain ⟨rfl, rfl⟩ := returns_pure.mp h
      refine .inr ⟨v, t.add v :: ts, ?_, .here free ⟨.refl _, decoded⟩⟩
      simp
    · simp only [returns_ite, returns_bind, returns_throw, returns_record, returns_pure, false_and,
        exists_false, and_false, false_or] at h
      -- Any other failure is thrown, so the definition was rejected and the next ones are tried.
      obtain ⟨mismatch, _, _, rfl, _, back, rewinds, others, _, rest, rfl, rfl⟩ := h
      obtain ⟨rewound, again⟩ := marked.rewound rewinds
      have attempt : Rejects child p t.node st back :=
        ⟨.refl _, failure, by simpa using mismatch, ⟨rewound.reading, rewound.warnings⟩⟩
      obtain ⟨rfl, nothing⟩ | ⟨v, ts', rfl, picks⟩ := inductionHypothesis again rest
      · exact .inl ⟨rfl, .rejected free attempt nothing⟩
      · exact .inr ⟨v, t :: ts', rfl, .rejected free attempt picks⟩

/-- One round of a choice: the loop ends without an instance, or an instance is taken and the loop
ends with it or goes on behind it. -/
theorem decodeChoices_round {room : Nat} {p' : Place} {ts : List (Tally d.schema)}
    {choices : List (Alternative d.schema)}
    (h : Returns (d.decodeChoices child n room p (ts.map Tally.alternative)) st (p', choices) st') :
    (p' = p ∧ choices = ts.map Tally.alternative ∧ Rounds child p st ts [] ts st') ∨
      ∃ start v ts' mid, st.Resumes start ∧ Picks child p v start ts ts' mid ∧
        ((v.len = 0 ∧ p' = p.complete v ∧ choices = ts'.map Tally.alternative ∧ st' = mid) ∨
          (v.len ≠ 0 ∧ ∃ rest, room = rest + 1 ∧
            Returns (d.decodeChoices child n rest (p.complete v) (ts'.map Tally.alternative)) mid
              (p', choices) st')) := by
  rw [decodeChoices.eq_def] at h
  simp only [returns_ite, returns_bind, returns_pure, exhausted_returns, Prod.mk.injEq] at h
  obtain ⟨mark, start, takes, _, _, ⟨rfl, rfl⟩, h⟩ := h
  obtain ⟨marked, resumes⟩ := marked_of_take takes
  obtain ⟨spent, ⟨rfl, rfl⟩, rfl⟩ | ⟨-, found, after, matches_, h⟩ := h
  · have spent := spent_of_resumes resumes (marked.spent.mp spent)
    exact .inl ⟨rfl, rfl, .spent spent resumes⟩
  obtain ⟨rfl, unmatched⟩ | ⟨v, ts', rfl, picks⟩ := firstMatch_returns marked matches_
  · simp only [returns_pure, Prod.mk.injEq] at h
    obtain ⟨⟨rfl, rfl⟩, rfl⟩ := h
    exact .inl ⟨rfl, rfl, .unmatched resumes unmatched⟩
  · refine .inr ⟨_, v, ts', after, resumes, picks, ?_⟩
    simp only [returns_ite, returns_pure, Prod.mk.injEq] at h
    obtain ⟨empty, ⟨rfl, rfl⟩, rfl⟩ | ⟨progress, h⟩ := h
    · exact .inl ⟨empty, rfl, rfl, rfl⟩
    · cases room with
      | zero => exact absurd h returns_fail
      | succ rest => exact .inr ⟨progress, rest, rfl, h⟩

theorem decodeChoices_returns {room : Nat} {p' : Place} {ts : List (Tally d.schema)}
    {choices : List (Alternative d.schema)}
    (h : Returns (d.decodeChoices child n room p (ts.map Tally.alternative)) st (p', choices) st') :
    ∃ vs ts', p' = p.completeAll vs ∧ choices = ts'.map Tally.alternative ∧
      Rounds child p st ts vs ts' st' := by
  induction room using Nat.strongRecOn generalizing p st ts with
  | ind room inductionHypothesis =>
    obtain ⟨rfl, rfl, rounds⟩ | ⟨start, v, ts', mid, resumes, picks, ended⟩ :=
      decodeChoices_round h
    · exact ⟨[], ts, rfl, rfl, rounds⟩
    obtain ⟨empty, rfl, rfl, rfl⟩ | ⟨progress, rest, less, others⟩ := ended
    · exact ⟨[v], ts', rfl, rfl, .empty resumes picks empty⟩
    · obtain ⟨vs, ts'', rfl, rfl, rounds⟩ := inductionHypothesis rest (by omega) others
      exact ⟨v :: vs, ts'', rfl, rfl, .more resumes picks progress rounds⟩

omit [ByteSource σ] [SliceLike σ] in
theorem checkMinimums_returns {offset : Nat} {u : Unit} : ∀ {choices : List (Alternative d.schema)}
    {st : DecodeState σ}, Returns (d.checkMinimums offset choices) st u st' →
    (∀ a ∈ choices, a.min ≤ a.count) ∧ st' = st := by
  intro choices
  induction choices with
  | nil =>
    intro st h
    simp only [checkMinimums, returns_pure] at h
    exact ⟨by simp, h.2⟩
  | cons a choices inductionHypothesis =>
    intro st h
    simp only [checkMinimums, returns_guard_bind] at h
    obtain ⟨enough, rest⟩ := h
    obtain ⟨others, rfl⟩ := inductionHypothesis rest
    refine ⟨?_, rfl⟩
    intro b member
    cases member with
    | head => omega
    | tail _ member => exact others b member

/-- The history of a content in which any of the definitions may come next. -/
inductive AnyOf (child : d.DecodeChild) (ids : List ElementId) (p : Place) (st : DecodeState σ)
    (ts : List (Tally d.schema)) (vs : List Value) (st' : DecodeState σ) : Prop
  | mk {offered : List (Tally d.schema)} {start : DecodeState σ} (offers : Offered d p ids offered)
      (resumes : st.Resumes start) (rounds : Rounds child p start offered vs ts st')
      (enough : ∀ t ∈ ts, required t.min t.max ≤ t.values.length)

theorem decodeAnyOf_returns {ids : List ElementId} {p' : Place}
    (h : Returns (d.decodeAnyOf child n ids p) st p' st') :
    ∃ ts vs, p' = p.completeAll vs ∧ AnyOf child ids p st ts vs st' := by
  simp only [decodeAnyOf, returns_bind, returns_pure] at h
  obtain ⟨offset, start, tells, choices, _, offers, ⟨reached, finished⟩, _, rounds, _, _, checks,
    rfl, rfl⟩ := h
  obtain ⟨-, same⟩ := tell_returns tells
  obtain ⟨source, -, rfl⟩ := returns_onSource.mp tells
  obtain ⟨⟨offered, rfl, isOffered⟩, rfl⟩ := alternatives_returns offers
  obtain ⟨vs, ts, rfl, rfl, history⟩ := decodeChoices_returns rounds
  obtain ⟨enough, rfl⟩ := checkMinimums_returns checks
  refine ⟨ts, vs, rfl, ⟨isOffered, ⟨same, rfl⟩, history, ?_⟩⟩
  intro t member
  exact enough t.alternative (List.mem_map_of_mem member)

end Decoder

end BinaryTemplate
