import BinaryTemplate.Proofs.Passing
import BinaryTemplate.Proofs.Shortage

/-!
# Which attempt decides a failure

An element fails because an attempt somewhere inside it fails: all that comes before that attempt
has been decoded, and no run or choice around it takes the failure for its end. On its way out the
failure is passed on as it is, except that a structure with a declared length may take a short read
for one that overruns it.
-/

namespace BinaryTemplate

/-- An element that is about to be decoded. -/
structure Attempt (s : Schema) where
  place : Place
  node : Node s
  state : DecodeState Slice

/-! ## Enclosures -/

/-- A structure with a declared length around an attempt. -/
structure Enclosure where
  element : ElementId
  name : String
  start : Nat
  len : Nat
  /-- The end of the frame around the structure. -/
  limit : Nat

namespace Enclosure

def stop (x : Enclosure) : Nat := x.start + x.len

/-- The failure of a structure whose content would have to reach up to there. -/
def mismatch (x : Enclosure) (reach : Nat) : DecodeError :=
  ⟨x.element, x.name, x.start, .lengthMismatch x.len (reach - x.start)⟩

/-- The structure takes the error for that of a field that reaches beyond it. -/
structure Claims (x : Enclosure) (e : DecodeError) (reach : Nat) : Prop where
  short : e.shortReadStop? = some reach
  goesOn : x.stop < x.limit
  behind : x.start ≤ e.offset
  inside : e.offset ≤ x.stop
  beyond : x.stop < reach

/-- The error with which the structure fails when its content does. -/
def settle (x : Enclosure) (e : DecodeError) : DecodeError :=
  match e.shortReadStop? with
  | none => e
  | some reach =>
    if x.stop < x.limit ∧ x.start ≤ e.offset ∧ e.offset ≤ x.stop ∧ x.stop < reach then
      x.mismatch reach
    else e

/-- The error behind all of the structures, the innermost of which comes first. -/
def settleAll (es : List Enclosure) (e : DecodeError) : DecodeError :=
  es.foldl (fun e x => x.settle e) e

variable {x : Enclosure} {e : DecodeError} {es es' : List Enclosure} {reach : Nat}

theorem Claims.settle (h : x.Claims e reach) : x.settle e = x.mismatch reach := by
  unfold Enclosure.settle
  rw [h.short]
  exact if_pos ⟨h.goesOn, h.behind, h.inside, h.beyond⟩

theorem settle_of_unclaimed (h : ∀ reach, ¬ x.Claims e reach) : x.settle e = e := by
  unfold settle
  cases short : e.shortReadStop? with
  | none => rfl
  | some reach =>
    refine if_neg ?_
    rintro ⟨goesOn, behind, inside, beyond⟩
    exact h reach ⟨short, goesOn, behind, inside, beyond⟩

theorem settleAll_append : settleAll (es ++ es') e = settleAll es' (settleAll es e) :=
  List.foldl_append

/-- A structure that has claimed an error leaves nothing for the ones around it to claim. -/
theorem settleAll_mismatch : settleAll es (x.mismatch reach) = x.mismatch reach := by
  induction es with
  | nil => rfl
  | cons y es inductionHypothesis => exact inductionHypothesis

/-- The error stays as it is if no structure claims it; otherwise it becomes that of one that
does. -/
theorem settleAll_cases (es : List Enclosure) (e : DecodeError) :
    (∀ x ∈ es, ∀ reach, ¬ x.Claims e reach) ∧ settleAll es e = e ∨
      ∃ x ∈ es, ∃ reach, x.Claims e reach ∧ settleAll es e = x.mismatch reach := by
  induction es with
  | nil => exact .inl ⟨nofun, rfl⟩
  | cons x es inductionHypothesis =>
    by_cases claimed : ∃ reach, x.Claims e reach
    · obtain ⟨reach, claims⟩ := claimed
      refine .inr ⟨x, List.mem_cons_self, reach, claims, ?_⟩
      change settleAll es (x.settle e) = _
      rw [claims.settle, settleAll_mismatch]
    have unclaimed : ∀ reach, ¬ x.Claims e reach := not_exists.mp claimed
    have same : settleAll (x :: es) e = settleAll es e := by
      change settleAll es (x.settle e) = _
      rw [settle_of_unclaimed unclaimed]
    rw [same]
    obtain ⟨none, kept⟩ | ⟨y, member, reach, claims, becomes⟩ := inductionHypothesis
    · exact .inl ⟨List.forall_mem_cons.mpr ⟨unclaimed, none⟩, kept⟩
    · exact .inr ⟨y, List.mem_cons_of_mem x member, reach, claims, becomes⟩

theorem settleAll_of_unclaimed (h : ∀ x ∈ es, ∀ reach, ¬ x.Claims e reach) :
    settleAll es e = e := by
  obtain ⟨-, kept⟩ | ⟨x, member, reach, claims, -⟩ := settleAll_cases es e
  · exact kept
  · exact absurd claims (h x member reach)

end Enclosure

namespace Decoder

open DecodeM

variable {d : Decoder Slice} {child : d.DecodeChild} {p : Place} {n : Node d.schema}
  {st st' : DecodeState Slice} {e : DecodeError}

/-- An attempt that fails with the error. -/
def FailsBy (child : d.DecodeChild) (a : Attempt d.schema) (e : DecodeError) : Prop :=
  ∃ st', Throws (child a.place a.node) a.state e st'

abbrev Fails (d : Decoder Slice) (depth : Nat) : Attempt d.schema → DecodeError → Prop :=
  FailsBy (d.decodeOne depth)

theorem FailsBy.unique {a : Attempt d.schema} {e' : DecodeError} (first : FailsBy child a e)
    (second : FailsBy child a e') : e = e' := by
  obtain ⟨st, first⟩ := first
  obtain ⟨st', second⟩ := second
  cases first.symm.trans second
  rfl

/-! ## Runs -/

/-- A run that has room fails behind the next instance or at it. -/
theorem repeatFrom_throws {min room count : Nat} {max : Option Nat} :
    Throws (d.repeatFrom child n min max (room + 1) count p) st e st' ↔
      max.any (· ≤ count) = false ∧ (min ≤ count → ¬ Spent p st) ∧
        ((∃ v mid, Returns (child p n) st v mid ∧ ¬ (v.len = 0 ∧ max = none) ∧
            Throws (d.repeatFrom child n min max room (count + 1) (p.complete v)) mid e st') ∨
          Throws (child p n) st e st' ∧ ¬ (max = none ∧ min ≤ count ∧ e.isMismatch = true)) := by
  rw [repeatFrom.eq_def, throws_ite]
  simp only [throws_pure, and_false, false_or, Bool.not_eq_true]
  refine and_congr_right fun _ => ?_
  rw [throws_behind (returns_take.mpr ⟨rfl, rfl⟩), throws_ite,
    throws_behind (exhausted_returns.mpr ⟨rfl, rfl⟩), throws_ite]
  have spent : (decide (p.limit ≤ st.reading.cursor) && st.pending.isEmpty) = true ↔
      Spent p st := by
    simp [Spent]
  have guarded {c s t : Prop} : (c ∧ ¬ s ∧ t) ∨ (¬ c ∧ t) ↔ (c → ¬ s) ∧ t := by
    by_cases h : c <;> simp [h]
  simp only [spent, throws_pure, and_false, false_or]
  rw [guarded]
  refine and_congr_right fun _ => ?_
  simp only [throws_bind, returns_outcome, throws_outcome, false_or]
  constructor
  · rintro ⟨_, mid, ⟨v, rfl, decoded⟩ | ⟨e', rfl, failed⟩, h⟩
    · simp only [throws_ite, throws_pure, and_false, false_or, Option.isNone_iff_eq_none] at h
      exact .inl ⟨v, mid, decoded, h⟩
    · simp only [throws_ite, throws_bind, throws_record, throws_pure, Mark.not_rewind_throws,
        throws_throw, and_false, exists_false, or_false, false_or, Bool.and_eq_true,
        Option.isNone_iff_eq_none, decide_eq_true_eq, and_assoc] at h
      obtain ⟨passes, rfl, rfl⟩ := h
      exact .inr ⟨failed, passes⟩
  · rintro (⟨v, mid, decoded, h⟩ | ⟨failed, passes⟩)
    · refine ⟨_, mid, .inl ⟨v, rfl, decoded⟩, ?_⟩
      simp only [throws_ite, throws_pure, and_false, false_or, Option.isNone_iff_eq_none]
      exact h
    · refine ⟨_, st', .inr ⟨e, rfl, failed⟩, ?_⟩
      simp only [throws_ite, throws_throw, Bool.and_eq_true, Option.isNone_iff_eq_none,
        decide_eq_true_eq, and_assoc]
      exact .inr ⟨passes, trivial, trivial⟩

/-- A run comes to an attempt whose failure is its own: it may still be continued, and it needs the
instance that is attempted. -/
inductive RunDecides (child : d.DecodeChild) (n : Node d.schema) (min : Nat) (max : Option Nat) :
    (room count : Nat) → Place → DecodeState Slice → Attempt d.schema → Prop
  | here {room count : Nat} {p : Place} {st : DecodeState Slice}
      (free : max.any (· ≤ count) = false) (left : min ≤ count → ¬ Spent p st)
      (needed : ¬ (max = none ∧ min ≤ count)) :
      RunDecides child n min max (room + 1) count p st ⟨p, n, st⟩
  | next {room count : Nat} {p : Place} {st mid : DecodeState Slice} {v : Value}
      {a : Attempt d.schema} (free : max.any (· ≤ count) = false)
      (left : min ≤ count → ¬ Spent p st) (decoded : Returns (child p n) st v mid)
      (progress : ¬ (v.len = 0 ∧ max = none))
      (rest : RunDecides child n min max room (count + 1) (p.complete v) mid a) :
      RunDecides child n min max (room + 1) count p st a

theorem RunDecides.throws {min room count : Nat} {max : Option Nat} {a : Attempt d.schema}
    (h : RunDecides child n min max room count p st a)
    (failed : Throws (child a.place a.node) a.state e st') :
    Throws (d.repeatFrom child n min max room count p) st e st' := by
  induction h with
  | here free left needed =>
    refine repeatFrom_throws.mpr ⟨free, left, .inr ⟨failed, ?_⟩⟩
    rintro ⟨openEnded, enough, -⟩
    exact needed ⟨openEnded, enough⟩
  | next free left decoded progress _ inductionHypothesis =>
    exact repeatFrom_throws.mpr
      ⟨free, left, .inl ⟨_, _, decoded, progress, inductionHypothesis failed⟩⟩

theorem RunDecides.lies {min room count : Nat} {max : Option Nat} {a : Attempt d.schema}
    (h : RunDecides child n min max room count p st a) (passes : PassesAll child)
    (stays : StaysAll child) (within : st.reading.cursor ≤ p.limit) :
    a.place.limit = p.limit ∧ st.reading.cursor ≤ a.state.reading.cursor ∧
      a.state.reading.cursor ≤ p.limit := by
  induction h with
  | here => exact ⟨rfl, Nat.le_refl _, within⟩
  | next _ _ decoded _ _ inductionHypothesis =>
    have moved := (passes decoded).cursor
    have ended := stays decoded within
    obtain ⟨same, behind, inside⟩ := inductionHypothesis ended
    exact ⟨same, by omega, inside⟩

theorem runDecides_of_throws {min : Nat} {max : Option Nat} (short : e.isShort = true) :
    ∀ {room count : Nat} {p : Place} {st : DecodeState Slice},
    Throws (d.repeatFrom child n min max room count p) st e st' →
    ∃ a, RunDecides child n min max room count p st a ∧
      Throws (child a.place a.node) a.state e st' := by
  intro room
  induction room with
  | zero =>
    intro count p st h
    have quiet : Quiet (d.repeatFrom child n min max 0 count p) := by
      rw [repeatFrom.eq_def]
      exact .ite (.pure _) (.bind .take fun _ =>
        .ite (.bind .exhausted fun _ => .ite (.pure _) (.fail rfl)) (.fail rfl))
    exact quiet.absurd short h
  | succ room inductionHypothesis =>
    intro count p st h
    obtain ⟨free, left, ⟨v, mid, decoded, progress, h⟩ | ⟨failed, needed⟩⟩ :=
      repeatFrom_throws.mp h
    · obtain ⟨a, rest, failed⟩ := inductionHypothesis h
      exact ⟨a, .next free left decoded progress rest, failed⟩
    · refine ⟨⟨p, n, st⟩, .here free left ?_, failed⟩
      rintro ⟨openEnded, enough⟩
      exact needed ⟨openEnded, enough, DecodeError.isMismatch_of_isShort short⟩

/-! ## Definitions in their turn -/

/-- The definitions of a container, each in its turn, come to an attempt whose failure is that of
the content. -/
inductive TurnDecides (child : d.DecodeChild) :
    List ElementId → Place → DecodeState Slice → Attempt d.schema → Prop
  | here {id : ElementId} {ids : List ElementId} {p : Place} {n : Node d.schema}
      {st : DecodeState Slice} {min : Nat} {max : Option Nat} {a : Attempt d.schema}
      (found : d.schema.node? id = some n) (on : Disabled n false) (bounds : d.Bounds p n min max)
      (run : RunDecides child n (required min max) max d.options.maxRepeat 0 p st a) :
      TurnDecides child (id :: ids) p st a
  | off {id : ElementId} {ids : List ElementId} {p : Place} {n : Node d.schema}
      {st : DecodeState Slice} {a : Attempt d.schema} (found : d.schema.node? id = some n)
      (off : Disabled n true)
      (rest : TurnDecides child ids p { st with events := .disabled n.label :: st.events } a) :
      TurnDecides child (id :: ids) p st a
  | run {id : ElementId} {ids : List ElementId} {p p' : Place} {n : Node d.schema}
      {st mid : DecodeState Slice} {a : Attempt d.schema} (found : d.schema.node? id = some n)
      (on : Disabled n false) (decoded : Returns (d.decodeRepeated child p n) st p' mid)
      (rest : TurnDecides child ids p' mid a) : TurnDecides child (id :: ids) p st a

theorem decodeDeclared_throws_off {id : ElementId} {ids : List ElementId}
    (found : d.schema.node? id = some n) (off : Disabled n true) :
    Throws (d.decodeDeclared child (id :: ids) p) st e st' ↔
      Throws (d.decodeDeclared child ids p) { st with events := .disabled n.label :: st.events } e
        st' := by
  rw [decodeDeclared, throws_behind (node_returns.mpr ⟨found, rfl⟩),
    throws_behind (isDisabled_returns.mpr ⟨off, rfl⟩), if_pos rfl,
    throws_behind (returns_record (u := ()).mpr rfl)]

theorem decodeDeclared_throws_on {id : ElementId} {ids : List ElementId}
    (found : d.schema.node? id = some n) (on : Disabled n false) :
    Throws (d.decodeDeclared child (id :: ids) p) st e st' ↔
      Throws (d.decodeRepeated child p n) st e st' ∨ ∃ p' mid,
        Returns (d.decodeRepeated child p n) st p' mid ∧
          Throws (d.decodeDeclared child ids p') mid e st' := by
  rw [decodeDeclared, throws_behind (node_returns.mpr ⟨found, rfl⟩),
    throws_behind (isDisabled_returns.mpr ⟨on, rfl⟩), if_neg (by decide), throws_bind]

theorem TurnDecides.throws {ids : List ElementId} {a : Attempt d.schema}
    (h : TurnDecides child ids p st a) (failed : Throws (child a.place a.node) a.state e st') :
    Throws (d.decodeDeclared child ids p) st e st' := by
  induction h with
  | here found on bounds run =>
    refine (decodeDeclared_throws_on found on).mpr (.inl ?_)
    rw [decodeRepeated, throws_behind (returns_tell.mpr ⟨rfl, rfl⟩),
      throws_behind (repeatBounds_returns.mpr ⟨⟨_, bounds, rfl⟩, rfl⟩)]
    exact run.throws failed
  | off found off _ inductionHypothesis =>
    exact (decodeDeclared_throws_off found off).mpr (inductionHypothesis failed)
  | run found on decoded _ inductionHypothesis =>
    exact (decodeDeclared_throws_on found on).mpr
      (.inr ⟨_, _, decoded, inductionHypothesis failed⟩)

theorem TurnDecides.lies {ids : List ElementId} {a : Attempt d.schema}
    (h : TurnDecides child ids p st a) (passes : PassesAll child) (stays : StaysAll child)
    (within : st.reading.cursor ≤ p.limit) :
    a.place.limit = p.limit ∧ st.reading.cursor ≤ a.state.reading.cursor ∧
      a.state.reading.cursor ≤ p.limit := by
  induction h with
  | here _ _ _ run => exact run.lies passes stays within
  | off _ _ _ inductionHypothesis => exact inductionHypothesis within
  | run _ _ decoded _ inductionHypothesis =>
    obtain ⟨_, _, vs, start, -, resumes, rfl, history⟩ := decodeRepeated_returns decoded
    have cursor : start.reading.cursor = _ := congrArg Reading.cursor resumes.reading
    rw [Place.limit_completeAll] at inductionHypothesis
    have forward := history.fills.forward passes
    obtain ⟨same, behind, inside⟩ :=
      inductionHypothesis (history.fills.stays stays (by omega))
    exact ⟨same, by omega, inside⟩

theorem turnDecides_of_throws (short : e.isShort = true) :
    ∀ {ids : List ElementId} {p : Place} {st : DecodeState Slice},
    Throws (d.decodeDeclared child ids p) st e st' →
    ∃ a, TurnDecides child ids p st a ∧ Throws (child a.place a.node) a.state e st' := by
  intro ids
  induction ids with
  | nil =>
    intro p st h
    exact absurd h throws_pure
  | cons id ids inductionHypothesis =>
    intro p st h
    obtain ⟨n, _, looks, h'⟩ := (node_quiet id).rest short h
    obtain ⟨found, same⟩ := node_returns.mp looks
    rw [same] at h'
    obtain ⟨off, _, switched, -⟩ := (Quiet.of_fatal isDisabled_throws).rest short h'
    obtain ⟨disabled, -⟩ := isDisabled_returns.mp switched
    cases off with
    | true =>
      have h := (decodeDeclared_throws_off found disabled).mp h
      obtain ⟨a, rest, failed⟩ := inductionHypothesis h
      exact ⟨a, .off found disabled rest, failed⟩
    | false =>
      obtain repeats | ⟨p', mid, decoded, h⟩ := (decodeDeclared_throws_on found disabled).mp h
      · rw [decodeRepeated, throws_behind (returns_tell.mpr ⟨rfl, rfl⟩)] at repeats
        obtain ⟨⟨least, max⟩, _, bounded, runs⟩ :=
          (Quiet.of_fatal repeatBounds_throws).rest short repeats
        obtain ⟨⟨min, bounds, rfl⟩, same⟩ := repeatBounds_returns.mp bounded
        rw [same] at runs
        obtain ⟨a, run, failed⟩ := runDecides_of_throws short runs
        exact ⟨a, .here found disabled bounds run, failed⟩
      · obtain ⟨a, rest, failed⟩ := inductionHypothesis h
        exact ⟨a, .run found disabled decoded rest, failed⟩

/-! ## Choices -/

/-- A choice takes a short read for a definition that is not there. -/
theorem firstMatch_quiet {mark : Mark} : ∀ {choices : List (Alternative d.schema)},
    Quiet (d.firstMatch child p n mark choices) := by
  intro choices
  induction choices with
  | nil => exact .pure _
  | cons a choices inductionHypothesis =>
    refine .ite (.bind inductionHypothesis fun _ => .pure _) (.bind (.outcome _) fun result => ?_)
    cases result with
    | ok v => exact .pure _
    | error e =>
      dsimp only
      have retried : Quiet (record (.rejected a.node.label mark.position e) >>= fun _ =>
          mark.rewind n >>= fun _ => d.firstMatch child p n mark choices >>= fun found =>
          pure (found.map fun (v, rest) => (v, a :: rest))) :=
        .bind (.record _) fun _ => .bind (.rewind mark) fun _ =>
          .bind inductionHypothesis fun _ => .pure _
      by_cases mismatch : e.isMismatch = true
      · rw [if_neg (by simp [mismatch])]
        exact retried
      · rw [if_pos (by simp [mismatch])]
        exact .bind (.throw (DecodeError.not_isShort_of_fatal mismatch)) fun _ => retried

theorem decodeChoices_quiet : ∀ {room : Nat} {p : Place} {choices : List (Alternative d.schema)},
    Quiet (d.decodeChoices child n room p choices) := by
  intro room
  induction room with
  | zero =>
    intro p choices
    rw [decodeChoices.eq_def]
    refine .bind .take fun _ => .bind .exhausted fun _ =>
      .ite (.pure _) (.bind firstMatch_quiet fun found => ?_)
    cases found with
    | none => exact .pure _
    | some found => exact .ite (.pure _) (.fail rfl)
  | succ room inductionHypothesis =>
    intro p choices
    rw [decodeChoices.eq_def]
    refine .bind .take fun _ => .bind .exhausted fun _ =>
      .ite (.pure _) (.bind firstMatch_quiet fun found => ?_)
    cases found with
    | none => exact .pure _
    | some found => exact .ite (.pure _) inductionHypothesis

theorem alternatives_quiet {offset : Nat} : ∀ {ids : List ElementId},
    Quiet (d.alternatives p offset ids) := by
  intro ids
  induction ids with
  | nil => exact .pure _
  | cons id ids inductionHypothesis =>
    exact .bind (node_quiet id) fun _ => .bind (.of_fatal isDisabled_throws) fun _ =>
      .ite inductionHypothesis (.bind (.of_fatal repeatBounds_throws) fun _ =>
        .bind inductionHypothesis fun _ => .pure _)

theorem checkMinimums_quiet {offset : Nat} : ∀ {choices : List (Alternative d.schema)},
    Quiet (d.checkMinimums offset choices) := by
  intro choices
  induction choices with
  | nil => exact .pure _
  | cons a choices inductionHypothesis =>
    exact .ite (.bind (.fail rfl) fun _ => inductionHypothesis) inductionHypothesis

theorem decodeAnyOf_quiet {ids : List ElementId} : Quiet (d.decodeAnyOf child n ids p) :=
  .bind .tell fun _ => .bind alternatives_quiet fun _ => .bind decodeChoices_quiet fun _ =>
    .bind checkMinimums_quiet fun _ => .pure _

/-! ## Containers -/

/-- The declared length of a container; a grammar has none. -/
inductive Sized (d : Decoder Slice) (p : Place) (n : Node d.schema) : Option Nat → Prop
  | grammar {body : GrammarBody} (kind : n.kind = .grammar body) : Sized d p n none
  | structural {declared : Option Nat} (structural : n.IsStructural)
      (spans : d.Spans p n declared) : Sized d p n declared

/-- An element that is being decoded. -/
def begun (n : Node d.schema) (st : DecodeState Slice) : DecodeState Slice :=
  { st with events := .tried n.kind.name :: st.events }

/-- A container that is opened from a state, before its content. -/
def opened (p : Place) (n : Node d.schema) (declared : Option Nat) (st : DecodeState Slice) :
    DecodeState Slice :=
  { st with
    pending := []
    events := .opened n.label st.reading.cursor
      ((declared.map (st.reading.cursor + ·)).getD p.limit) :: st.events }

/-- The structure that a container with a declared length is around its content. -/
def enclosure? (p : Place) (n : Node d.schema) (start : Nat) (declared : Option Nat) :
    Option Enclosure :=
  declared.map fun len => ⟨n.id, n.label, start, len, p.limit⟩

theorem contentFailure_eq {start : Nat} {declared : Option Nat} :
    d.contentFailure p n start ((declared.map (start + ·)).getD p.limit) declared e =
      Enclosure.settleAll (enclosure? p n start declared).toList e := by
  cases declared with
  | none => rfl
  | some len =>
    change _ = Enclosure.settle _ e
    unfold contentFailure Enclosure.settle
    cases e.shortReadStop? <;> rfl

/-- A short read is not what a structure makes of another error. -/
theorem settleAll_short {es : List Enclosure} (short : (Enclosure.settleAll es e).isShort = true) :
    Enclosure.settleAll es e = e := by
  obtain ⟨-, kept⟩ | ⟨x, -, reach, -, becomes⟩ := Enclosure.settleAll_cases es e
  · exact kept
  · rw [becomes] at short
    cases short

variable {definition : Option ElementId} {ids : List ElementId} {order : ChildOrder}
  {declared : Option Nat}

theorem decodeContainer_fails
    (fits : (inside p n definition st.reading.cursor declared).limit ≤ p.limit)
    (failed : Throws (d.decodeContent child n ids order
      (inside p n definition st.reading.cursor declared)) (opened p n declared st) e st') :
    ∃ st', Throws (d.decodeContainer child p n definition ids order declared) st
      (Enclosure.settleAll (enclosure? p n st.reading.cursor declared).toList e) st' := by
  have starts : Returns (tell n) { st with pending := [] } st.reading.cursor
      { st with pending := [] } := returns_tell.mpr ⟨rfl, rfl⟩
  refine ⟨{ st' with pending := [] }, ?_⟩
  rw [decodeContainer, ← contentFailure_eq, throws_behind (returns_align (u := ()).mpr rfl),
    throws_behind starts, throws_behind (containerStop_returns.mpr ⟨rfl, fits, rfl⟩),
    throws_behind (returns_record (u := ()).mpr rfl)]
  refine (throws_behind (returns_outcome.mpr (.inr ⟨e, rfl, failed⟩))).mpr ?_
  rw [throws_behind (returns_align (u := ()).mpr rfl)]
  exact throws_throw.mpr ⟨rfl, rfl⟩

theorem containerLength_quiet {start consumed : Nat} :
    Quiet (d.containerLength n start consumed declared) := by
  cases declared with
  | none => exact .pure _
  | some len => exact .ite (.pure _) (.fail rfl)

/-- A container is short because it does not fit, or because its content is. -/
theorem decodeContainer_throws (short : e.isShort = true)
    (h : Throws (d.decodeContainer child p n definition ids order declared) st e st') :
    (∃ len, declared = some len ∧ e.Wants st.reading.cursor len ∧
        p.limit < st.reading.cursor + len) ∨
      (inside p n definition st.reading.cursor declared).limit ≤ p.limit ∧
        ∃ st', Throws (d.decodeContent child n ids order
          (inside p n definition st.reading.cursor declared)) (opened p n declared st) e st' := by
  have h := behind_tell (behind_align h)
  obtain stops | ⟨stop, _, stops, h⟩ := throws_bind.mp h
  · cases declared with
    | none => exact absurd stops throws_pure
    | some len =>
      simp only [containerStop, throws_ite, throws_pure, throws_fail, and_false, false_or] at stops
      obtain ⟨beyond, rfl, -⟩ := stops
      exact .inl ⟨len, rfl, ⟨rfl, _, rfl⟩, Nat.lt_of_not_le beyond⟩
  obtain ⟨rfl, fits, same⟩ := containerStop_returns.mp stops
  rw [same] at h
  obtain ⟨_, mid, recorded, h⟩ := (Quiet.record _).rest short h
  obtain rfl := returns_record.mp recorded
  obtain ⟨content, mid, filled, h⟩ := (Quiet.outcome _).rest short h
  obtain ⟨_, _, -, h⟩ := (Quiet.of_not_throws throws_align).rest short h
  obtain ⟨reached, rfl, -⟩ | ⟨e', rfl, failed⟩ := returns_outcome.mp filled
  · refine Quiet.absurd ?_ short h
    exact .bind .tellAt fun _ => .bind containerLength_quiet fun _ => .pure _
  · obtain ⟨same, -⟩ := throws_throw.mp h
    have settled : e = Enclosure.settleAll (enclosure? p n st.reading.cursor declared).toList e' :=
      same.trans contentFailure_eq
    rw [settled] at short
    rw [settleAll_short short] at settled
    rw [settled]
    exact .inr ⟨fits, mid, failed⟩

/-! ## Passing a failure on -/

/-- The failure of an attempt is that of another one that it makes: it is a container, which is an
enclosure of the other attempt if its length is declared, or a reference to a grammar. -/
inductive PassesOn (child : d.DecodeChild) :
    Attempt d.schema → Option Enclosure → Attempt d.schema → Prop
  | content {p : Place} {n : Node d.schema} {st : DecodeState Slice}
      {definition : Option ElementId} {ids : List ElementId} {declared : Option Nat}
      {b : Attempt d.schema} (contains : Contains n definition ids .declared)
      (sized : d.Sized p n declared)
      (fits : (inside p n definition st.reading.cursor declared).limit ≤ p.limit)
      (turn : TurnDecides child ids (inside p n definition st.reading.cursor declared)
        (opened p n declared (begun n st)) b) :
      PassesOn child ⟨p, n, st⟩ (enclosure? p n st.reading.cursor declared) b
  | grammar {p : Place} {n grammar : Node d.schema} {st : DecodeState Slice}
      {body : GrammarRefBody} {inner : GrammarBody} {target : ElementId}
      (kind : n.kind = .grammarRef body) (on : n.disabled = .ok false)
      (named : n.lookup .grammar = .ok (some target))
      (found : d.schema.node? target = some grammar) (defines : grammar.kind = .grammar inner) :
      PassesOn child ⟨p, n, st⟩ none ⟨p, grammar, begun n st⟩

theorem decodeStructure_throws {definition : Node d.schema} (ordered : n.order = .ok order)
    (spans : d.Spans p n declared) :
    Throws (d.decodeStructure child p n definition) st e st' ↔
      Throws (d.decodeContainer child p n
        (if definition.id = n.id then none else some definition.id) definition.kind.children order
        declared) { st with pending := [] } e st' := by
  rw [decodeStructure, throws_behind (returns_align (u := ()).mpr rfl),
    throws_behind (returns_tell.mpr ⟨rfl, rfl⟩),
    throws_behind (returns_resolved.mpr ⟨ordered, rfl⟩),
    throws_behind (structureLength_returns.mpr ⟨spans, rfl⟩)]

/-- A container starts on a byte, so the unread bits have no part in how it fails. -/
theorem decodeContainer_aligned :
    Throws (d.decodeContainer child p n definition ids order declared) { st with pending := [] } e
        st' ↔
      Throws (d.decodeContainer child p n definition ids order declared) st e st' := by
  rw [decodeContainer, throws_behind (returns_align (u := ()).mpr rfl),
    throws_behind (returns_align (u := ()).mpr rfl)]

theorem Contains.throws {offset : Nat} (contains : Contains n definition ids order)
    (sized : d.Sized p n declared)
    (h : Throws (d.decodeContainer child p n definition ids order declared) st e st') :
    Throws (d.decodeKind child p n offset) st e st' := by
  unfold decodeKind
  cases contains with
  | grammar kind =>
    cases sized with
    | grammar =>
      simp only [kind]
      exact h
    | structural structural =>
      obtain ⟨_, other⟩ | ⟨_, other⟩ := structural <;> cases kind.symm.trans other
  | «structure» kind ordered =>
    cases sized with
    | grammar other => cases kind.symm.trans other
    | structural _ spans =>
      simp only [kind]
      rw [decodeStructure_throws ordered spans, decodeContainer_aligned, if_pos rfl]
      exact h
  | structRef kind named found defines ordered =>
    cases sized with
    | grammar other => cases kind.symm.trans other
    | structural _ spans =>
      simp only [kind]
      rw [decodeStructRef, throws_behind (returns_resolved.mpr ⟨named, rfl⟩)]
      dsimp only
      rw [throws_behind (node_returns.mpr ⟨found, rfl⟩)]
      simp only [defines]
      rw [decodeStructure_throws ordered spans, decodeContainer_aligned]
      exact h

theorem decodeOne_throws {depth : Nat} :
    Throws (d.decodeOne (depth + 1) p n) st e st' ↔
      Throws (d.decodeKind (d.decodeOne depth) p n st.reading.cursor) (begun n st) e st' := by
  rw [decodeOne, throws_behind (returns_record (u := ()).mpr rfl),
    throws_behind (returns_tell.mpr ⟨rfl, rfl⟩)]
  rfl

/-- The failure that is passed on is the other one, unless the enclosure claims it. -/
theorem PassesOn.fails {depth : Nat} {a b : Attempt d.schema} {own : Option Enclosure}
    (h : PassesOn (d.decodeOne depth) a own b) (failed : d.Fails depth b e) :
    d.Fails (depth + 1) a (Enclosure.settleAll own.toList e) := by
  obtain ⟨st', failed⟩ := failed
  cases h with
  | @content p n st definition ids declared _ contains sized fits turn =>
    have contained : ∃ st', Throws (d.decodeContainer (d.decodeOne depth) p n definition ids
        .declared declared) (begun n st)
        (Enclosure.settleAll (enclosure? p n st.reading.cursor declared).toList e) st' :=
      decodeContainer_fails fits (turn.throws failed)
    obtain ⟨ended, contained⟩ := contained
    exact ⟨ended, decodeOne_throws.mpr (contains.throws sized contained)⟩
  | grammar kind on named found defines =>
    refine ⟨st', decodeOne_throws.mpr ?_⟩
    unfold decodeKind
    simp only [kind]
    rw [decodeGrammarRef, throws_behind (returns_resolved.mpr ⟨on, rfl⟩), if_neg (by decide),
      throws_behind (returns_resolved.mpr ⟨named, rfl⟩)]
    dsimp only
    rw [throws_behind (node_returns.mpr ⟨found, rfl⟩)]
    simp only [defines]
    exact failed

/-- What is attempted inside another attempt starts behind it, and within its frame. -/
structure Nests (a b : Attempt d.schema) : Prop where
  narrower : b.place.limit ≤ a.place.limit
  behind : a.state.reading.cursor ≤ b.state.reading.cursor
  inside : b.state.reading.cursor ≤ b.place.limit

theorem Nests.trans {a b c : Attempt d.schema} (first : Nests a b) (second : Nests b c) :
    Nests a c :=
  ⟨Nat.le_trans second.narrower first.narrower, Nat.le_trans first.behind second.behind,
    second.inside⟩

/-- An enclosure starts where the outer attempt does, in the frame of that one, and the frame of the
inner attempt ends with it. -/
structure Encloses (x : Enclosure) (a b : Attempt d.schema) : Prop where
  start : x.start = a.state.reading.cursor
  stop : x.stop = b.place.limit
  limit : x.limit = a.place.limit

theorem PassesOn.nests {depth : Nat} {a b : Attempt d.schema} {own : Option Enclosure}
    (h : PassesOn (d.decodeOne depth) a own b) (within : a.state.reading.cursor ≤ a.place.limit) :
    Nests a b ∧ (own = none → b.place.limit = a.place.limit) ∧
      ∀ x, own = some x → Encloses x a b := by
  cases h with
  | @content p n st definition ids declared _ _ _ fits turn =>
    have starts : st.reading.cursor ≤ (inside p n definition st.reading.cursor declared).limit := by
      cases declared with
      | none => exact within
      | some len => exact Nat.le_add_right _ len
    obtain ⟨same, behind, inner⟩ :=
      turn.lies (decodeOne_passes depth) (decodeOne_stays depth) starts
    rw [← same] at fits inner
    refine ⟨⟨fits, behind, inner⟩, ?_, ?_⟩
    · intro undeclared
      cases declared with
      | none => exact same
      | some len => cases undeclared
    · intro x encloses
      cases declared with
      | none => cases encloses
      | some len =>
        cases encloses
        exact ⟨rfl, same.symm, rfl⟩
  | grammar =>
    refine ⟨⟨Nat.le_refl _, Nat.le_refl _, within⟩, fun _ => rfl, nofun⟩

/-! ## Following an offset -/

/-- An offset fails because it cannot be followed: its pointer has been read and means an
address. -/
inductive FollowFails (d : Decoder Slice) : Nat → Attempt d.schema → DecodeError → Prop
  | mk {depth target : Nat} {a : Attempt d.schema} {body : OffsetBody} {order : ByteOrder}
      {r : RawNumber} {element : ElementId} {behind : DecodeState Slice} {e : DecodeError}
      (kind : a.node.kind = .offset body) (ordered : a.node.byteOrder = .ok order)
      (reads : Returns (d.readRaw a.place a.node order) (begun a.node a.state) r behind)
      (means : Returns (d.targetAddress a.place a.node r.offset r.raw) behind (some target) behind)
      (references : a.node.lookup .references = .ok (some element))
      (failed : ∃ st', Throws (d.follow (d.decodeOne depth) a.place a.node r.offset target element)
        behind e st') : FollowFails d (depth + 1) a e

theorem FollowFails.fails {depth : Nat} {a : Attempt d.schema} (h : d.FollowFails depth a e) :
    d.Fails depth a e := by
  cases h with
  | mk kind ordered reads means references failed =>
    obtain ⟨st', failed⟩ := failed
    refine ⟨st', decodeOne_throws.mpr ?_⟩
    unfold decodeKind
    simp only [kind]
    rw [decodeOffset, throws_behind (returns_tell.mpr ⟨rfl, rfl⟩),
      throws_behind (returns_resolved.mpr ⟨ordered, rfl⟩), throws_behind reads,
      throws_behind means, throws_bind, followTarget,
      throws_behind (returns_resolved.mpr ⟨references, rfl⟩)]
    exact .inl (throws_bind.mpr (.inl failed))

theorem baseAddress_quiet {offset : Nat} {base : ElementId} :
    Quiet (d.baseAddress p n offset base) := by
  refine .ite (.pure _) ?_
  dsimp only
  split
  · exact .pure _
  · exact .fail rfl

theorem targetAddress_quiet {offset pointer : Nat} :
    Quiet (d.targetAddress p n offset pointer) := by
  have counted (base : Nat) : Quiet (do
      let additional ← d.evalAttribute p n offset .additional
      let address := (base : Int) + pointer + (additional.map (·.toInt)).getD 0
      if 0 ≤ address ∧ address < positionLimit then return some address.toNat
      fail n offset (.range (toString address) (some 0) none) : DecodeM Slice (Option Nat)) :=
    .bind (evalAttribute_quiet _) fun _ => .ite (.pure _) (.fail rfl)
  -- A pointer that is not null is counted from its base, whether null pointers are followed or not.
  refine .ite (.bind (.resolved _) fun _ => .ite (.pure _) ?_) ?_ <;>
  · refine .bind (.resolved _) fun relative => ?_
    cases relative with
    | none => exact .bind (.pure _) counted
    | some base => exact .bind baseAddress_quiet counted

/-! ## Where short reads come from -/

section Short

variable {depth : Nat} (short : e.isShort = true) (within : st.reading.cursor ≤ p.limit)

include short

theorem decodeStructure_short {definition : Node d.schema}
    (h : Throws (d.decodeStructure child p n definition) st e st') :
    ∃ order declared, n.order = .ok order ∧ d.Spans p n declared ∧
      Throws (d.decodeContainer child p n
        (if definition.id = n.id then none else some definition.id) definition.kind.children order
        declared) st e st' := by
  obtain ⟨order, ordered, rest⟩ := behind_resolved short (behind_tell (behind_align h))
  obtain ⟨declared, _, sizes, -⟩ := structureLength_quiet.rest short rest
  obtain ⟨spans, -⟩ := structureLength_returns.mp sizes
  exact ⟨order, declared, ordered, spans,
    decodeContainer_aligned.mp ((decodeStructure_throws ordered spans).mp h)⟩

theorem decodeGrammarRef_short {body : GrammarRefBody} (kind : n.kind = .grammarRef body)
    {offset : Nat}
    (h : Throws (d.decodeGrammarRef (d.decodeOne depth) p n offset) (begun n st) e st') :
    ∃ own b, PassesOn (d.decodeOne depth) ⟨p, n, st⟩ own b ∧ d.Fails depth b e := by
  obtain ⟨off, switched, h⟩ := behind_resolved short h
  simp only [throws_ite, throws_pure, and_false, false_or] at h
  obtain ⟨on, h⟩ := h
  have enabled : n.disabled = .ok false := by simpa [on] using switched
  obtain ⟨target, named, h⟩ := behind_resolved short h
  cases target with
  | none => exact (Quiet.fail rfl).absurd short h
  | some target =>
    obtain ⟨grammar, _, looks, h⟩ := (node_quiet target).rest short h
    obtain ⟨found, same⟩ := node_returns.mp looks
    rw [same] at h
    cases defines : grammar.kind with
    | grammar inner =>
      simp only [defines] at h
      exact ⟨none, _, .grammar kind enabled named found defines, st', h⟩
    | _ =>
      simp only [defines] at h
      exact (Quiet.fail rfl).absurd short h

/-- A container is short because it does not fit, or because an attempt in it is. -/
theorem Contains.misses (contains : Contains n definition ids order) (sized : d.Sized p n declared)
    (h : Throws (d.decodeContainer (d.decodeOne depth) p n definition ids order declared)
      (begun n st) e st') :
    (∃ len, declared = some len ∧ e.Wants st.reading.cursor len ∧
        p.limit < st.reading.cursor + len) ∨
      ∃ own b, PassesOn (d.decodeOne depth) ⟨p, n, st⟩ own b ∧ d.Fails depth b e := by
  obtain beyond | ⟨fits, mid, failed⟩ := decodeContainer_throws short h
  · exact .inl beyond
  · cases order with
    | anyOf => exact decodeAnyOf_quiet.absurd short failed
    | declared =>
      obtain ⟨b, turn, failed⟩ := turnDecides_of_throws short failed
      exact .inr ⟨_, b, .content contains sized fits turn, mid, failed⟩

/-- A short read of a structure comes from its container. -/
theorem structural_contains (structural : n.IsStructural) {offset : Nat}
    (h : Throws (d.decodeKind child p n offset) st e st') :
    ∃ definition ids order declared, Contains n definition ids order ∧ d.Spans p n declared ∧
      Throws (d.decodeContainer child p n definition ids order declared) st e st' := by
  unfold decodeKind at h
  obtain ⟨body, kind⟩ | ⟨body, kind⟩ := structural
  · simp only [kind] at h
    obtain ⟨order, declared, ordered, spans, h⟩ := decodeStructure_short short h
    rw [if_pos rfl] at h
    exact ⟨none, _, order, declared, .structure kind ordered, spans, h⟩
  · simp only [kind] at h
    obtain ⟨target, named, h⟩ := behind_resolved short h
    cases target with
    | none => exact (Quiet.fail rfl).absurd short h
    | some target =>
      obtain ⟨definition, _, looks, h⟩ := (node_quiet target).rest short h
      obtain ⟨found, same⟩ := node_returns.mp looks
      rw [same] at h
      cases defines : definition.kind with
      | «structure» inner =>
        simp only [defines] at h
        obtain ⟨order, declared, ordered, spans, h⟩ := decodeStructure_short short h
        exact ⟨_, _, order, declared, .structRef kind named found defines ordered, spans, h⟩
      | _ =>
        simp only [defines] at h
        exact (Quiet.fail rfl).absurd short h

/-- A structure is short because its declared length does not fit, or because an attempt in it
is. -/
theorem structural_misses (structural : n.IsStructural) {offset : Nat}
    (h : Throws (d.decodeKind (d.decodeOne depth) p n offset) (begun n st) e st') :
    (∃ len, d.Spans p n (some len) ∧ e.Wants st.reading.cursor len ∧
        p.limit < st.reading.cursor + len) ∨
      ∃ own b, PassesOn (d.decodeOne depth) ⟨p, n, st⟩ own b ∧ d.Fails depth b e := by
  obtain ⟨_, _, _, _, contains, spans, h⟩ := structural_contains short structural h
  obtain ⟨len, rfl, wants, beyond⟩ | passes :=
    Contains.misses short contains (.structural structural spans) h
  · exact .inl ⟨len, spans, wants, beyond⟩
  · exact .inr passes

include within

theorem decodeOffset_short {body : OffsetBody} (kind : n.kind = .offset body)
    (h : Throws (d.decodeOffset (d.decodeOne depth) p n) (begun n st) e st') :
    Shortage d p n st.reading e ∨ d.FollowFails (depth + 1) ⟨p, n, st⟩ e := by
  obtain ⟨order, ordered, h⟩ := behind_resolved short (behind_tell h)
  obtain missing | ⟨r, mid, reads, h⟩ := throws_bind.mp h
  · have shortage : Shortage d p n (begun n st).reading e :=
      readRaw_throws (.inl ⟨body, kind⟩) within short missing
    exact .inl shortage
  obtain ⟨target, _, means, h⟩ := targetAddress_quiet.rest short h
  obtain ⟨-, same⟩ := targetAddress_returns.mp means
  rw [same] at means h
  obtain follows | ⟨_, _, -, h⟩ := throws_bind.mp h
  · obtain ⟨references, found, follows⟩ := behind_resolved short follows
    cases target with
    | none => exact absurd follows throws_pure
    | some target =>
      cases references with
      | none => exact absurd follows throws_pure
      | some element =>
        obtain failed | ⟨_, _, -, h⟩ := throws_bind.mp follows
        · exact .inr (.mk kind ordered reads means found ⟨st', failed⟩)
        · exact absurd h throws_pure
  · exact absurd h throws_pure

/-- A short read comes from the element itself, from where its offset leads, or from an attempt that
it makes. -/
theorem shortage_of_throws
    (h : Throws (d.decodeKind (d.decodeOne depth) p n st.reading.cursor) (begun n st) e st') :
    (Shortage d p n st.reading e ∨ d.FollowFails (depth + 1) ⟨p, n, st⟩ e) ∨
      ∃ own b, PassesOn (d.decodeOne depth) ⟨p, n, st⟩ own b ∧ d.Fails depth b e := by
  have leaf (shortage : Shortage d p n (begun n st).reading e) :
      (Shortage d p n st.reading e ∨ d.FollowFails (depth + 1) ⟨p, n, st⟩ e) ∨
        ∃ own b, PassesOn (d.decodeOne depth) ⟨p, n, st⟩ own b ∧ d.Fails depth b e :=
    .inl (.inl shortage)
  by_cases structural : n.IsStructural
  · obtain ⟨len, spans, wants, beyond⟩ | passes := structural_misses short structural h
    · exact leaf (.all (.container structural spans) wants within beyond)
    · exact .inr passes
  unfold decodeKind at h
  cases kind : n.kind with
  | number body =>
    simp only [kind] at h
    exact leaf (decodeNumber_throws kind within short h)
  | string body =>
    simp only [kind] at h
    exact leaf (decodeString_throws within short kind h)
  | binary body =>
    simp only [kind] at h
    exact leaf (decodeBinary_throws within short kind h)
  | script body =>
    simp only [kind] at h
    exact leaf (decodeScripted_throws within short (.inl ⟨body, kind, rfl⟩) h)
  | custom body =>
    simp only [kind] at h
    obtain ⟨script, named, h⟩ := behind_resolved short h
    cases script with
    | none => exact (Quiet.fail rfl).absurd short h
    | some script => exact leaf (decodeScripted_throws within short (.inr ⟨body, kind, named⟩) h)
  | offset body =>
    simp only [kind] at h
    exact .inl (decodeOffset_short short within kind h)
  | grammar body =>
    simp only [kind] at h
    obtain ⟨len, undeclared, -⟩ | passes := Contains.misses short (.grammar kind) (.grammar kind) h
    · cases undeclared
    · exact .inr passes
  | grammarRef body =>
    simp only [kind] at h
    exact .inr (decodeGrammarRef_short short kind h)
  | «structure» body => exact absurd (.inl ⟨body, kind⟩) structural
  | structRef body => exact absurd (.inr ⟨body, kind⟩) structural

end Short

end Decoder

end BinaryTemplate
