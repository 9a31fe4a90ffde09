import BinaryTemplate.Proofs.FieldSimulation
import BinaryTemplate.Proofs.Container

/-!
# Two runs through containers

Counterparts decode containers alike if they decode the instances of the children alike. Where any
of the children may come next, the left container may have further alternatives that never fit:
each attempt at one of them is rejected, and what it changed is put back, so that the right run,
which does not know them, goes on from a related state.
-/

namespace BinaryTemplate

/-- Whether the innermost frame is that of the structure `id`, decoded as itself or through a
reference. -/
def Place.Inside (p : Place) (id : ElementId) : Prop :=
  p.inner.isScope = false ∧ p.inner.definition.getD p.inner.element = id

/-- A list without some of its elements, each of the others replaced by one that it is kept for. -/
inductive Thinned {α β : Type} (keep : α → β → Prop) (drop : α → Prop) : List α → List β → Prop
  | nil : Thinned keep drop [] []
  | keep {a : α} {b : β} {rest : List α} {rest' : List β} (kept : keep a b)
      (others : Thinned keep drop rest rest') : Thinned keep drop (a :: rest) (b :: rest')
  | drop {a : α} {rest : List α} {rest' : List β} (dropped : drop a)
      (others : Thinned keep drop rest rest') : Thinned keep drop (a :: rest) rest'

theorem Simulation.reach_completeAll {σ τ : Type} {R : Simulation σ τ} (p : Place)
    (vs : List Value) : R.reach (p.completeAll vs) = R.reach p := by
  unfold reach
  rw [Place.limit_completeAll, Place.dataStop_completeAll]

theorem Place.Inside.complete {p : Place} {id : ElementId} (h : p.Inside id) (v : Value) :
    (p.complete v).Inside id :=
  h

namespace Decoder

open DecodeM Simulation

variable {σ τ : Type} {d : Decoder σ} {d' : Decoder τ} {R : Simulation σ τ} {p : Place}
  {n : Node d.schema} {n' : Node d'.schema} {offset : Nat}

/-- Instances of an element decode alike. -/
def SimulatesChild (R : Simulation σ τ) (child : d.DecodeChild) (child' : d'.DecodeChild)
    (id : ElementId) : Prop :=
  ∀ p (n : Node d.schema) (n' : Node d'.schema), n.id = id → n.Twins n' → R.Covers (R.reach p) →
    R.Simulates Eq (child p n) (child' p n')

/-! ## Steps before the first attempt -/

section Bounds

variable (kin : d.Counterpart d') (twins : n.Twins n')

include kin twins

theorem repeatBounds_sims :
    R.Simulates Eq (d.repeatBounds p n offset) (d'.repeatBounds p n' offset) :=
  .bind (.resolved twins.toNamesakes (twins.lookupD rfl)) fun least =>
    .bind (evalInteger_sims kin twins least) fun _ =>
    .bind (.resolved twins.toNamesakes (twins.lookupD rfl)) fun most =>
    .bind (evalInteger_sims kin twins most) fun _ =>
    .guard twins.toNamesakes rfl fun _ => .ite (fun _ => .pure rfl) fun _ => .pure rfl

omit kin twins in
theorem exhausted_sims (position : Nat) :
    R.Simulates Eq (exhausted p position) (exhausted p position) := by
  refine .get_bind fun st st' pending _ => ?_
  rw [pending]
  exact .pure rfl

omit kin in
theorem isDisabled_sims : R.Simulates Eq (d.isDisabled n) (d'.isDisabled n') := by
  have kinds := twins.kind
  unfold isDisabled
  cases kind : n.kind <;> cases kind' : n'.kind <;> rw [kind, kind'] at kinds <;>
    first | exact .resolved twins.toNamesakes (twins.lookupD rfl) | exact .pure rfl | cases kinds

end Bounds

/-! ## Alternatives that never fit -/

section Alternatives

variable [ByteSource σ] [SliceLike σ]

/-- An alternative without which the structure `within` goes on in the same way: it needs no
instance, and each attempt at one fails. Nothing that the runs have to have in common tells that it
was tried. -/
structure Idle (R : Simulation σ τ) (child : d.DecodeChild) (within id : ElementId) : Prop where
  silent : ¬ R.sameEvents
  excuses : ∀ e, e.isMismatch = false → R.excuses e
  source : ∀ l l' r, SliceLike.slice l' = SliceLike.slice l → R.source l r → R.source l' r
  least : ∀ {p : Place} {n : Node d.schema} {min : Nat} {max : Option Nat}, n.id = id →
    d.Bounds p n min max → min = 0
  fails : ∀ {p : Place} {n : Node d.schema} (st : DecodeState σ), n.id = id → p.Inside within →
    ∃ e st', Throws (child p n) st e st' ∧
      (e.isMismatch = true → st'.reading.data = st.reading.data)

/-- The same alternative on both sides. -/
structure Alternative.Twins {s s' : Schema} (a : Alternative s) (a' : Alternative s') : Prop where
  node : a.node.Twins a'.node
  min : a.min = a'.min
  max : a.max = a'.max
  count : a.count = a'.count

/-- The declared children of two containers, some of the left ones being idle. -/
def ThinnedIds (R : Simulation σ τ) (child : d.DecodeChild) (child' : d'.DecodeChild)
    (within : ElementId) : List ElementId → List ElementId → Prop :=
  Thinned (fun id id' => id = id' ∧ SimulatesChild R child child' id) (Idle R child within)

/-- The alternatives of two containers, some of the left ones being idle. -/
def ThinnedChoices (R : Simulation σ τ) (child : d.DecodeChild) (child' : d'.DecodeChild)
    (within : ElementId) : List (Alternative d.schema) → List (Alternative d'.schema) → Prop :=
  Thinned (fun a a' => a.Twins a' ∧ SimulatesChild R child child' a.node.id)
    fun a => Idle R child within a.node.id ∧ a.min = 0

variable {child : d.DecodeChild} {child' : d'.DecodeChild} {within : ElementId}

theorem alternatives_sims (kin : d.Counterpart d') {ids ids' : List ElementId}
    (thinned : ThinnedIds R child child' within ids ids') :
    R.Simulates (ThinnedChoices R child child' within) (d.alternatives p offset ids)
      (d'.alternatives p offset ids') := by
  induction thinned with
  | nil => exact .pure .nil
  | @keep id _ rest rest' kept others inductionHypothesis =>
    obtain ⟨rfl, simulates⟩ := kept
    intro st st' related
    refine (node_sims kin id st st' related).bind ?_
    intro n n' mid mid' found twins between
    obtain ⟨known, rfl⟩ := node_returns.mp found
    rw [← Schema.id_of_node? known] at simulates
    refine Simulates.bind (isDisabled_sims twins) (fun off => ?_) mid mid' between
    refine .ite (fun _ => inductionHypothesis) fun _ => ?_
    refine .bind (repeatBounds_sims kin twins) fun bounds => .bind_of inductionHypothesis ?_
    intro choices choices' others
    exact .pure (.keep ⟨⟨twins, rfl, rfl, rfl⟩, simulates⟩ others)
  | @drop id rest rest' idle others inductionHypothesis =>
    -- The right run does not have this alternative, so only the left one has to look at it.
    intro st st' related
    refine .before (fun e mid thrown => idle.excuses e (node_throws thrown)) ?_
    intro n mid found
    obtain ⟨known, rfl⟩ := node_returns.mp found
    have same := Schema.id_of_node? known
    refine .before (fun e mid thrown => idle.excuses e (isDisabled_throws thrown)) ?_
    intro off mid read
    obtain ⟨-, rfl⟩ := isDisabled_returns.mp read
    cases off with
    | true => exact inductionHypothesis mid st' related
    | false =>
      refine .before (fun e mid thrown => idle.excuses e (repeatBounds_throws thrown)) ?_
      rintro ⟨min, max⟩ last bounded
      obtain ⟨⟨least, bounds, rfl⟩, rfl⟩ := repeatBounds_returns.mp bounded
      obtain rfl : least = 0 := idle.least same bounds
      refine (inductionHypothesis last st' related).map_left ?_
      intro choices choices' others
      refine .drop ⟨?_, ?_⟩ others
      · rw [← same] at idle
        exact idle
      · cases max with
        | none => rfl
        | some max => exact Nat.zero_min max

/-- What the two choices take: the same value, or nothing. -/
def SamePick (R : Simulation σ τ) (child : d.DecodeChild) (child' : d'.DecodeChild)
    (within : ElementId) : Option (Value × List (Alternative d.schema)) →
      Option (Value × List (Alternative d'.schema)) → Prop :=
  Option.Rel fun found found' =>
    found.1 = found'.1 ∧ ThinnedChoices R child child' within found.2 found'.2

theorem SamePick.skip {a : Alternative d.schema} {a' : Alternative d'.schema}
    (twins : a.Twins a') (simulates : SimulatesChild R child child' a.node.id) {found found'}
    (same : SamePick R child child' within found found') :
    SamePick R child child' within (found.map fun (v, rest) => (v, a :: rest))
      (found'.map fun (v, rest) => (v, a' :: rest)) := by
  cases same with
  | none => exact .none
  | some same => exact .some ⟨same.1, .keep ⟨twins, simulates⟩ same.2⟩

theorem SamePick.skip_left {a : Alternative d.schema}
    (idle : Idle R child within a.node.id ∧ a.min = 0) {found found'}
    (same : SamePick R child child' within found found') :
    SamePick R child child' within (found.map fun (v, rest) => (v, a :: rest)) found' := by
  cases same with
  | none => exact .none
  | some same => exact .some ⟨same.1, .drop idle same.2⟩

/-- A rejected attempt at an idle alternative leaves the left run where the right one still is. -/
theorem Idle.back (idle : Idle R child within n.id) (inside : p.Inside within) {mark : Mark}
    {m : Node d.schema} {st failed back : DecodeState σ} {st' : DecodeState τ} {e : DecodeError}
    {events : List Event}
    (marked : Marked mark st) (related : R.Related st st')
    (failure : Throws (child p n) st e failed) (mismatch : e.isMismatch = true)
    (rewound : Returns (mark.rewind m) { failed with events := events } () back) :
    R.Related back st' ∧ Marked mark back := by
  obtain ⟨e', failed', thrown, kept⟩ := idle.fails st rfl inside
  cases failure.symm.trans thrown
  obtain ⟨⟨reading, warnings⟩, marked'⟩ := marked.rewound rewound
  have reading : back.reading = { st.reading with data := failed.reading.data } := reading
  rw [kept mismatch] at reading
  refine ⟨⟨?_, ?_, ?_, fun same => absurd same idle.silent⟩, marked'⟩
  · exact idle.source _ _ _ (DecodeState.slice_eq_of_reading reading) related.source
  · exact (congrArg Reading.pending reading).trans related.pending
  · rw [warnings]
    exact related.warnings

variable [ByteSource τ] (kin : d.Counterpart d') (twins : n.Twins n') (keeps : R.Respects)

include twins keeps

theorem firstMatch_ends (covers : R.Covers (R.reach p)) (inside : p.Inside within)
    {mark mark' : Mark} (same : R.SameMark mark mark')
    {choices : List (Alternative d.schema)} {choices' : List (Alternative d'.schema)}
    (thinned : ThinnedChoices R child child' within choices choices') {st : DecodeState σ}
    {st' : DecodeState τ} (marked : Marked mark st) (related : R.Related st st') :
    EndRelated R (SamePick R child child' within)
      ((d.firstMatch child p n mark choices).ending st)
      ((d'.firstMatch child' p n' mark' choices').ending st') := by
  induction thinned generalizing st st' with
  | nil => exact .returned .none related
  | @keep a a' rest rest' kept others inductionHypothesis =>
    obtain ⟨alike, simulates⟩ := kept
    simp only [firstMatch]
    have full : a.isFull = a'.isFull := by
      unfold Alternative.isFull
      rw [alike.max, alike.count]
    rw [full, alike.node.label, ← same.position]
    by_cases isFull : a'.isFull = true
    · rw [if_pos isFull, if_pos isFull]
      exact (inductionHypothesis marked related).bind fun _ _ _ _ _ same related =>
        .returned (same.skip alike simulates) related
    rw [if_neg isFull, if_neg isFull]
    refine (simulates p _ _ rfl alike.node covers st st' related).outcome_bind ?_ ?_ ?_
    · rintro v _ mid mid' - rfl related
      refine .returned (.some ⟨rfl, .keep ⟨⟨alike.node, alike.min, alike.max, ?_⟩, simulates⟩
        others⟩) related
      exact congrArg (· + 1) alike.count
    · intro e mid mid' failure sound between
      cases mismatch : e.isMismatch with
      | false =>
        simp only [mismatch, Bool.not_false, if_true]
        exact .threw between sound
      | true =>
        simp only [mismatch, Bool.not_true, Bool.false_eq_true, if_false]
        refine EndRelated.bind (Simulates.record _ mid mid' between) ?_
        rintro _ _ logged logged' - - between
        have moves := moves_cursor keeps related
        rw [← marked.position] at moves
        refine (rewind_sims twins.toNamesakes keeps same moves logged logged' between).bind ?_
        rintro _ _ back back' rewound - between
        refine (inductionHypothesis (marked.rewound rewound).2 between).bind ?_
        exact fun _ _ _ _ _ same related => .returned (same.skip alike simulates) related
    · intro e mid excuse
      have fatal := R.fatal e excuse
      refine ⟨e, mid, ?_, excuse⟩
      simp only [fatal, Bool.not_false, if_true, throws_bind, throws_throw, true_and, true_or]
  | @drop a rest rest' dropped others inductionHypothesis =>
    obtain ⟨idle, none⟩ := dropped
    simp only [firstMatch]
    by_cases isFull : a.isFull = true
    · rw [if_pos isFull]
      exact (inductionHypothesis marked related).map_left fun _ _ => .skip_left ⟨idle, none⟩
    rw [if_neg isFull]
    refine .before (fun e mid thrown => absurd thrown throws_outcome) ?_
    intro result mid tried
    obtain ⟨e, failed, failure, -⟩ := idle.fails st rfl inside
    obtain ⟨v, -, returned⟩ | ⟨e', rfl, thrown⟩ := returns_outcome.mp tried
    · exact absurd failure returned.not_throws
    cases failure.symm.trans thrown
    cases mismatch : e.isMismatch with
    | false =>
      simp only [mismatch, Bool.not_false, if_true]
      exact .excused (idle.excuses e mismatch)
    | true =>
      simp only [mismatch, Bool.not_true, Bool.false_eq_true, if_false]
      refine .before (fun e mid thrown => absurd thrown throws_record) ?_
      intro _ logged recorded
      obtain rfl := returns_record.mp recorded
      refine .before (fun e mid thrown => absurd thrown Mark.not_rewind_throws) ?_
      intro _ back rewound
      obtain ⟨related, marked⟩ := idle.back inside marked related failure mismatch rewound
      exact (inductionHypothesis marked related).map_left fun _ _ => .skip_left ⟨idle, none⟩

include kin

theorem decodeChoices_sims {room : Nat} (covers : R.Covers (R.reach p)) (inside : p.Inside within)
    {choices : List (Alternative d.schema)} {choices' : List (Alternative d'.schema)}
    (thinned : ThinnedChoices R child child' within choices choices') :
    R.Simulates (fun x y => x.1 = y.1 ∧ ThinnedChoices R child child' within x.2 y.2)
      (d.decodeChoices child n room p choices) (d'.decodeChoices child' n' room p choices') := by
  induction room using Nat.strongRecOn generalizing p choices choices' with
  | ind room inductionHypothesis =>
    rw [decodeChoices.eq_def, decodeChoices.eq_def, kin.maxRepeat]
    intro st st' related
    refine (markTake_sims twins.toNamesakes keeps st st' related).bind ?_
    intro mark mark' mid mid' taken same between
    obtain ⟨marked, -⟩ := marked_of_take taken
    rw [← same.position]
    refine (exhausted_sims _ mid mid' between).bind ?_
    rintro spent _ looked looked' exhausts rfl still
    obtain ⟨-, rfl⟩ := exhausted_returns.mp exhausts
    refine Simulates.ite_ends (fun _ => .returned ⟨rfl, thinned⟩ still) fun _ => ?_
    refine (firstMatch_ends twins keeps covers inside same thinned marked still).bind ?_
    intro found found' after after' _ pick related
    cases pick with
    | none => exact .returned ⟨rfl, thinned⟩ related
    | @some x y pick =>
      obtain ⟨v, choices⟩ := x
      obtain ⟨_, choices'⟩ := y
      obtain ⟨rfl, others⟩ := pick
      refine Simulates.ite (fun _ => .pure ⟨rfl, others⟩) (fun _ => ?_) after after' related
      cases room with
      | zero => exact .fail twins.toNamesakes rfl
      | succ room =>
        exact inductionHypothesis room (Nat.lt_succ_self room) (p := p.complete v) covers
          (inside.complete v) others

omit [ByteSource τ] kin twins keeps in
theorem checkMinimums_sims {choices : List (Alternative d.schema)}
    {choices' : List (Alternative d'.schema)}
    (thinned : ThinnedChoices R child child' within choices choices') :
    R.Simulates Eq (d.checkMinimums offset choices) (d'.checkMinimums offset choices') := by
  induction thinned with
  | nil => exact .pure rfl
  | keep kept others inductionHypothesis =>
    simp only [checkMinimums]
    rw [kept.1.count, kept.1.min]
    exact .guard kept.1.node.toNamesakes rfl fun _ => inductionHypothesis
  | drop dropped others inductionHypothesis =>
    -- Nothing is missing for an alternative that needs no instance.
    simp only [checkMinimums]
    rw [dropped.2, if_neg (Nat.not_lt_zero _)]
    exact inductionHypothesis

theorem decodeAnyOf_sims (covers : R.Covers (R.reach p)) (inside : p.Inside within)
    {ids ids' : List ElementId} (thinned : ThinnedIds R child child' within ids ids') :
    R.Simulates Eq (d.decodeAnyOf child n ids p) (d'.decodeAnyOf child' n' ids' p) := by
  unfold decodeAnyOf
  rw [kin.maxRepeat]
  refine .bind (tell_sims twins.toNamesakes keeps) fun start =>
    .bind_of (alternatives_sims kin thinned) fun choices choices' thinned =>
    .bind_of (decodeChoices_sims kin twins keeps covers inside thinned) ?_
  rintro ⟨p, choices⟩ ⟨_, choices'⟩ ⟨rfl, thinned⟩
  exact .bind (checkMinimums_sims thinned) fun _ => .pure rfl

end Alternatives

/-! ## Children in their turn -/

section InTurn

variable [ByteSource σ] [SliceLike σ] [ByteSource τ] {child : d.DecodeChild}
  {child' : d'.DecodeChild} (kin : d.Counterpart d') (keeps : R.Respects)

include kin keeps

theorem repeatFrom_sims (twins : n.Twins n') (simulates : SimulatesChild R child child' n.id)
    (covers : R.Covers (R.reach p)) (min : Nat) (max : Option Nat) (room count : Nat) :
    R.Simulates Eq (d.repeatFrom child n min max room count p)
      (d'.repeatFrom child' n' min max room count p) := by
  induction room using Nat.strongRecOn generalizing count p with
  | ind room inductionHypothesis =>
    rw [repeatFrom.eq_def, repeatFrom.eq_def, kin.maxRepeat, twins.label]
    refine .ite (fun _ => .pure rfl) fun _ => ?_
    intro st st' related
    refine (markTake_sims twins.toNamesakes keeps st st' related).bind ?_
    intro mark mark' mid mid' taken same between
    have moves := moves_cursor keeps between
    rw [← (marked_of_take taken).1.position] at moves
    rw [← same.position]
    refine Simulates.ite (fun _ => .bind (exhausted_sims _) fun _ => .ite (fun _ => .pure rfl)
      fun _ => ?_) (fun _ => ?_) mid mid' between
    -- One more instance is tried alike with and without the minimum.
    all_goals
      cases room with
      | zero => exact .fail twins.toNamesakes rfl
      | succ room =>
        refine .outcome_bind (simulates p n n' rfl twins covers) ?_ ?_ ?_
        · rintro v _ rfl
          exact .ite (fun _ => .pure rfl) fun _ =>
            inductionHypothesis room (Nat.lt_succ_self room) (p := p.complete v) covers _
        · refine fun e sound => .ite (fun _ => ?_) fun _ => .throw sound
          exact .bind (.record _) fun _ =>
            .bind (rewind_sims twins.toNamesakes keeps same moves) fun _ => .pure rfl
        · intro e mid excuse
          have fatal := R.fatal e excuse
          refine ⟨e, mid, ?_, excuse⟩
          simp only [fatal, Bool.and_false, Bool.false_eq_true, if_false, throws_throw, and_self]

theorem decodeRepeated_sims (twins : n.Twins n') (simulates : SimulatesChild R child child' n.id)
    (covers : R.Covers (R.reach p)) :
    R.Simulates Eq (d.decodeRepeated child p n) (d'.decodeRepeated child' p n') := by
  unfold decodeRepeated
  rw [kin.maxRepeat]
  exact .bind (tell_sims twins.toNamesakes keeps) fun _ =>
    .bind (repeatBounds_sims kin twins) fun _ =>
    repeatFrom_sims kin keeps twins simulates covers _ _ _ _

theorem decodeDeclared_sims {ids : List ElementId}
    (simulates : ∀ id ∈ ids, SimulatesChild R child child' id) (covers : R.Covers (R.reach p)) :
    R.Simulates Eq (d.decodeDeclared child ids p) (d'.decodeDeclared child' ids p) := by
  induction ids generalizing p with
  | nil => exact .pure rfl
  | cons id rest inductionHypothesis =>
    have others : ∀ id ∈ rest, SimulatesChild R child child' id :=
      fun other member => simulates other (List.mem_cons_of_mem id member)
    simp only [decodeDeclared]
    intro st st' related
    refine (node_sims kin id st st' related).bind ?_
    intro n n' mid mid' found twins between
    obtain ⟨known, rfl⟩ := node_returns.mp found
    have own := simulates id List.mem_cons_self
    rw [← Schema.id_of_node? known] at own
    rw [twins.label]
    refine Simulates.bind (isDisabled_sims twins) (fun off => ?_) mid mid' between
    refine .ite (fun _ => .bind (.record _) fun _ => inductionHypothesis others covers) fun _ => ?_
    intro begun begun' between
    refine (decodeRepeated_sims kin keeps twins own covers begun begun' between).bind ?_
    rintro q _ after after' repeated rfl related
    obtain ⟨-, -, vs, -, -, -, rfl, -⟩ := decodeRepeated_returns repeated
    refine inductionHypothesis (p := p.completeAll vs) others ?_ after after' related
    rw [reach_completeAll]
    exact covers

end InTurn

/-! ## Containers -/

/-- The declared children of a container of the structure `within` on both sides. -/
def SameContent [ByteSource σ] [SliceLike σ] (R : Simulation σ τ) (child : d.DecodeChild)
    (child' : d'.DecodeChild) (within : ElementId) :
    ChildOrder → List ElementId → List ElementId → Prop
  | .declared, ids, ids' => ids = ids' ∧ ∀ id ∈ ids, SimulatesChild R child child' id
  | .anyOf, ids, ids' => ThinnedIds R child child' within ids ids'

theorem SameContent.refl [ByteSource σ] [SliceLike σ] {child : d.DecodeChild}
    {child' : d'.DecodeChild} {within : ElementId} {ids : List ElementId}
    (simulates : ∀ id ∈ ids, SimulatesChild R child child' id) (order : ChildOrder) :
    SameContent R child child' within order ids ids := by
  cases order with
  | declared => exact ⟨rfl, simulates⟩
  | anyOf =>
    show Thinned _ _ ids ids
    induction ids with
    | nil => exact .nil
    | cons id rest inductionHypothesis =>
      exact .keep ⟨rfl, simulates id List.mem_cons_self⟩
        (inductionHypothesis fun other member => simulates other (List.mem_cons_of_mem id member))

/-- What is no mismatch passes through a container as it is. -/
theorem contentFailure_of_fatal {start stop : Nat} {declared : Option Nat} {e : DecodeError}
    (fatal : e.isMismatch = false) : d.contentFailure p n start stop declared e = e := by
  obtain ⟨element, name, offset, failure⟩ := e
  unfold contentFailure DecodeError.shortReadStop?
  cases failure <;> cases declared <;> first | rfl | cases fatal

section Containers

variable [ByteSource σ] [SliceLike σ] [ByteSource τ] {child : d.DecodeChild}
  {child' : d'.DecodeChild} {within : ElementId} (kin : d.Counterpart d') (twins : n.Twins n')
  (keeps : R.Respects)

include kin twins keeps

theorem decodeContent_sims {order : ChildOrder} {ids ids' : List ElementId}
    (content : SameContent R child child' within order ids ids') (covers : R.Covers (R.reach p))
    (inside : p.Inside within) :
    R.Simulates Eq (d.decodeContent child n ids order p)
      (d'.decodeContent child' n' ids' order p) := by
  cases order with
  | declared =>
    obtain ⟨rfl, simulates⟩ := content
    exact decodeDeclared_sims kin keeps simulates covers
  | anyOf => exact decodeAnyOf_sims kin twins keeps covers inside content

omit [ByteSource σ] [SliceLike σ] [ByteSource τ] kin keeps in
theorem containerStop_sims (start : Nat) (declared : Option Nat) :
    R.Simulates Eq (d.containerStop p n start declared) (d'.containerStop p n' start declared) := by
  cases declared with
  | none => exact .pure rfl
  | some len => exact .ite (fun _ => .pure rfl) fun _ => .fail twins.toNamesakes rfl

omit [ByteSource σ] [SliceLike σ] [ByteSource τ] kin keeps in
theorem containerLength_sims (start consumed : Nat) (declared : Option Nat) :
    R.Simulates Eq (d.containerLength n start consumed declared)
      (d'.containerLength n' start consumed declared) := by
  cases declared with
  | none => exact .pure rfl
  | some len => exact .ite (fun _ => .pure rfl) fun _ => .fail twins.toNamesakes rfl

omit [ByteSource σ] [SliceLike σ] [ByteSource τ] kin keeps in
theorem contentFailure_sims {start stop : Nat} {declared : Option Nat} {e : DecodeError}
    (sound : R.admits e) :
    R.Simulates Eq (throw (d.contentFailure p n start stop declared e) : DecodeM σ Value)
      (throw (d'.contentFailure p n' start stop declared e)) := by
  have same : d.contentFailure p n start stop declared e =
      d'.contentFailure p n' start stop declared e := by
    unfold contentFailure
    rw [twins.id, twins.label]
  rw [← same]
  refine .throw ?_
  unfold contentFailure
  split
  · split
    · exact R.usual _ rfl
    · exact sound
  · exact sound

/-- The bytes that the runs keep to only have to hold the content, which ends before the frame
around it if the container declares its length. -/
theorem decodeContainer_ends {definition : Option ElementId} {order : ChildOrder}
    {ids ids' : List ElementId} {declared : Option Nat}
    (content : SameContent R child child' (definition.getD n.id) order ids ids')
    {st : DecodeState σ} {st' : DecodeState τ} (related : R.Related st st')
    (covers : ∀ stop, stop = (declared.map (st.reading.cursor + ·)).getD p.limit →
      stop ≤ p.limit → R.Covers stop)
    (sides : R.follows = true → R.Covers p.dataStop) :
    EndRelated R Eq ((d.decodeContainer child p n definition ids order declared).ending st)
      ((d'.decodeContainer child' p n' definition ids' order declared).ending st') := by
  unfold decodeContainer
  rw [← twins.id, ← twins.label]
  refine EndRelated.bind (Simulates.align st st' related) ?_
  rintro _ _ begun begun' aligned - between
  obtain rfl := returns_align.mp aligned
  refine (tell_sims twins.toNamesakes keeps _ _ between).bind ?_
  rintro start _ told told' tells rfl between
  obtain ⟨rfl, -⟩ := tell_returns tells
  refine (containerStop_sims twins _ declared _ _ between).bind ?_
  rintro stop _ opened opened' stops rfl between
  obtain ⟨ends, within, -⟩ := containerStop_returns.mp stops
  have covered : R.Covers (R.reach (p.enter (.container n.id definition st.reading.cursor stop))) :=
    covers_reach.mpr ⟨covers stop ends within, sides⟩
  refine Simulates.bind (.record _) (fun _ => ?_) _ _ between
  refine .outcome_bind (decodeContent_sims kin twins keeps content covered ⟨rfl, rfl⟩) ?_ ?_ ?_
  · rintro inside _ rfl
    exact .bind .align fun _ => .bind (tellAt_sims twins.toNamesakes keeps) fun _ =>
      .bind (containerLength_sims twins _ _ declared) fun _ => .pure rfl
  · exact fun e sound => .bind .align fun _ => contentFailure_sims twins sound
  · intro e mid excuse
    refine ⟨e, { mid with pending := [] }, ?_, excuse⟩
    simp only [throws_bind, throws_align, false_or, returns_align, throws_throw,
      contentFailure_of_fatal (R.fatal e excuse)]
    exact ⟨(), _, rfl, trivial, rfl⟩

omit [ByteSource σ] [SliceLike σ] [ByteSource τ] keeps in
theorem structureLength_sims :
    R.Simulates Eq (d.structureLength p n offset) (d'.structureLength p n' offset) := by
  refine .bind (.resolved twins.toNamesakes (twins.lookup rfl)) fun length => ?_
  cases length with
  | none => exact .pure rfl
  | some length =>
    exact .bind (evalCount_sims kin twins length) fun _ =>
      .bind (evalAttribute_sims kin twins (twins.lookup rfl)) fun _ =>
      .bind (asCount_sims twins _) fun _ => .bind (.resolved twins.toNamesakes (twins.lookupD rfl))
      fun _ => .bind (toBytes_sims twins _ _) fun _ => .pure rfl

/-- The structure `m` decoded for the element `n`, which is that structure or a reference to it. -/
theorem decodeStructure_ends {m : Node d.schema} {m' : Node d'.schema} (defined : m.Twins m')
    (orders : n.order = n'.order)
    (content : ∀ order, n.order = .ok order →
      SameContent R child child' m.id order m.kind.children m'.kind.children)
    {st : DecodeState σ} {st' : DecodeState τ} (related : R.Related st st')
    (covers : ∀ declared, d.Spans p n declared → ∀ stop,
      stop = (declared.map (st.reading.cursor + ·)).getD p.limit → stop ≤ p.limit →
        R.Covers stop)
    (sides : R.follows = true → R.Covers p.dataStop) :
    EndRelated R Eq ((d.decodeStructure child p n m).ending st)
      ((d'.decodeStructure child' p n' m').ending st') := by
  unfold decodeStructure
  rw [← twins.id, ← defined.id]
  refine EndRelated.bind (Simulates.align st st' related) ?_
  rintro _ _ begun begun' aligned - between
  obtain rfl := returns_align.mp aligned
  refine (tell_sims twins.toNamesakes keeps _ _ between).bind ?_
  rintro start _ told told' tells rfl between
  obtain ⟨rfl, same⟩ := tell_returns tells
  refine EndRelated.bind (Simulates.resolved twins.toNamesakes orders _ _ between) ?_
  rintro order _ read read' reads rfl still
  obtain ⟨ordered, rfl⟩ := returns_resolved.mp reads
  refine (structureLength_sims kin twins _ _ still).bind ?_
  rintro declared _ sized sized' sizes rfl measured
  obtain ⟨spans, rfl⟩ := structureLength_returns.mp sizes
  refine decodeContainer_ends kin twins keeps ?_ measured ?_ sides
  · have own : (if m.id = n.id then none else some m.id).getD n.id = m.id := by
      by_cases same : m.id = n.id
      · rw [if_pos same]
        exact same.symm
      · rw [if_neg same]
        rfl
    rw [own]
    exact content order ordered
  · rw [same]
    exact covers declared spans

theorem decodeStructure_sims {m : Node d.schema} {m' : Node d'.schema} (defined : m.Twins m')
    (orders : n.order = n'.order)
    (content : ∀ order, n.order = .ok order →
      SameContent R child child' m.id order m.kind.children m'.kind.children)
    (covers : R.Covers (R.reach p)) :
    R.Simulates Eq (d.decodeStructure child p n m) (d'.decodeStructure child' p n' m') :=
  fun _ _ related => decodeStructure_ends kin twins keeps defined orders content related
    (fun _ _ _ _ within => covers.limit.mono within) covers.sides

end Containers

end Decoder

end BinaryTemplate
