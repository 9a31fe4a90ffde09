import BinaryTemplate.Proofs.CycleGuard
import BinaryTemplate.Proofs.Independence

/-!
# Alternatives that never fit

A structure whose children may come in any order decodes to the same value without an alternative
that needs no instance and does not fit wherever it is tried. That it does not fit is a matter of
the run, not of the template: a watched decode does what the decoder does, and fails for good where
the alternative fits after all. So it is enough that the watched decode comes to an end.

Beside the watched decode runs the decoder for the template without the alternative. Where the
watched one rejects it, it puts back what the attempt has changed, and is again where the other one
still is.
-/

namespace BinaryTemplate

/-! ## The template without the alternative -/

/-- The kind without one of the children that a structure declares. -/
def Kind.without (child : ElementId) : Kind → Kind
  | .structure body => .structure { body with children := body.children.filter (· ≠ child) }
  | kind => kind

/-- The schema in which the structure `within` does not declare the child. -/
def Schema.without (s : Schema) (within child : ElementId) : Schema :=
  { s with
    elements := s.elements.modify within.index fun e => { e with kind := e.kind.without child } }

@[reducible] def Decoder.without {σ : Type} (d : Decoder σ) (within child : ElementId) :
    Decoder σ :=
  { d with schema := d.schema.without within child }

theorem Kind.bare_without (child : ElementId) (kind : Kind) :
    (kind.without child).bare = kind.bare := by
  cases kind <;> rfl

theorem Kind.children_without (child : ElementId) (kind : Kind) {body : StructureBody}
    (defines : kind = .structure body) :
    (kind.without child).children = kind.children.filter (· ≠ child) := by
  subst defines
  rfl

namespace Schema

variable {s : Schema} {within child : ElementId}

theorem get?_without (id : ElementId) :
    (s.without within child).get? id = (s.get? id).map fun e =>
      if id = within then { e with kind := e.kind.without child } else e := by
  have same : within.index = id.index ↔ id = within := by
    cases within
    cases id
    simp [eq_comm]
  unfold without get?
  rw [Array.getElem?_modify]
  by_cases isWithin : id = within
  · simp only [if_pos isWithin, if_pos (same.mpr isWithin)]
  · simp only [if_neg isWithin, if_neg (mt same.mp isWithin), Option.map_id']

theorem counterpart_without (s : Schema) (within child : ElementId) :
    s.Counterpart (s.without within child) := by
  intro id
  rw [get?_without, Option.map_map]
  congr 1
  funext e
  by_cases isWithin : id = within
  · simp only [Function.comp_apply, if_pos isWithin, Element.bare, Kind.bare_without]
  · simp only [Function.comp_apply, if_neg isWithin]

/-- The children keep their order. -/
theorem order_without {n : Node s} {n' : Node (s.without within child)} (same : n.id = n'.id) :
    n.order = n'.order := by
  rw [Node.order, Node.order, Node.lookupD, Node.lookupD, Node.lookup, Node.lookup, same]
  rw [(counterpart_without s within child).lookup_eq_of_own]
  intro id e e' got got'
  rw [get?_without, got] at got'
  obtain rfl := Option.some.inj got'
  dsimp only
  by_cases isWithin : id = within
  · rw [if_pos isWithin]
    obtain ⟨traits, kind⟩ := e
    cases kind <;> rfl
  · rw [if_neg isWithin]

/-- Only the structure itself has another kind. -/
theorem kind_without {n : Node s} {n' : Node (s.without within child)} (same : n.id = n'.id) :
    n'.kind = if n.id = within then n.kind.without child else n.kind := by
  have found := n'.found
  rw [get?_without, ← same, n.found] at found
  have element := Option.some.inj found
  unfold Node.kind
  rw [← element]
  by_cases isWithin : n.id = within
  · simp only [if_pos isWithin]
  · simp only [if_neg isWithin]

end Schema

/-! ## The order of a structure -/

theorem Node.DefinedBy.defines {s : Schema} {n m : Node s} (defined : n.DefinedBy m) :
    ∃ body, m.kind = .structure body := by
  cases defined with
  | own kind => exact ⟨_, kind⟩
  | named _ _ _ defines => exact ⟨_, defines⟩

/-- A reference to a structure decodes it in the order that the structure has. -/
theorem Node.DefinedBy.anyOf {s : Schema} {n m : Node s} (defined : n.DefinedBy m)
    (order : m.order = .ok .anyOf) : n.order = .ok .anyOf := by
  cases defined with
  | own => exact order
  | @named body inner target _ kind named found defines =>
    have set : s.lookup .order m.id = .ok (some .anyOf) := by
      unfold Node.order Node.lookupD Node.lookup at order
      cases found : s.lookup .order m.id with
      | error cycle =>
        rw [found] at order
        cases order
      | ok own =>
        rw [found] at order
        cases own with
        | none => cases order
        | some own =>
          cases order
          rfl
    rw [Schema.id_of_node? found] at set
    have inherits : s.lookup .order n.id = .ok (some .anyOf) :=
      Schema.lookup_of_reference n.found kind (by
        show (match n.kind with | .structure body => body.order | _ => none) = none
        rw [kind]) nofun named set
    unfold Node.order Node.lookupD Node.lookup
    rw [inherits]
    rfl

/-! ## The watched decode -/

instance (p : Place) (id : ElementId) : Decidable (p.Inside id) :=
  inferInstanceAs (Decidable (_ ∧ _))

namespace Decoder

open DecodeM Simulation

section Watching

variable {σ : Type} [ByteSource σ] (d : Decoder σ) (within alternative : ElementId)

/-- The cause of no other failure, as long as no script is run. -/
def alarm : Failure := .script "an instance fits"

/-- Tries an instance; fails for good if it is one of the alternative and fits. -/
def watch (child : d.DecodeChild) : d.DecodeChild := fun p n => do
  let v ← child p n
  if p.Inside within ∧ n.id = alternative then fail n v.offset alarm
  return v

/-- Decodes one instance of an element, and fails for good where the alternative of the structure
fits. -/
def decodeWatched : (depth : Nat) → d.DecodeChild
  | 0 => d.decodeOne 0
  | depth + 1 => fun p n => do
    record (.tried n.kind.name)
    let offset ← tell n
    d.decodeKind (watch d within alternative (decodeWatched depth)) p n offset

end Watching

variable {d : Decoder Slice} {within alternative : ElementId}

theorem alarm_fatal (e : DecodeError) (raised : e.failure = alarm) : e.isMismatch = false := by
  unfold DecodeError.isMismatch
  rw [raised]
  rfl

/-- The watched decode and the decode itself, as long as there is no alarm. -/
def unalarmed : Simulation Slice Slice where
  source := Eq
  sameEvents := False
  excuses e := e.failure = alarm
  high := none
  fatal := alarm_fatal

/-- The watched decode and the decode without the alternative, until either fails for good. -/
def unfailed : Simulation Slice Slice where
  source := Eq
  sameEvents := False
  excuses e := e.isMismatch = false
  high := none
  fatal _ := id

theorem watch_sims {R : Simulation Slice Slice} {d' : Decoder Slice} {child : d.DecodeChild}
    {child' : d'.DecodeChild} (alarms : ∀ e, e.failure = alarm → R.excuses e) {id : ElementId}
    (simulates : SimulatesChild R child child' id) :
    SimulatesChild R (watch d within alternative child) child' id := by
  intro p n n' same twins covers st st' related
  refine (simulates p n n' same twins covers st st' related).afterwards ?_
  rintro v _ mid mid' rfl related
  by_cases watched : p.Inside within ∧ n.id = alternative
  · rw [if_pos watched]
    exact .excused (alarms _ rfl)
  · rw [if_neg watched]
    exact .returned rfl related

theorem decodeWatched_unalarmed (d : Decoder Slice) (within alternative : ElementId) (depth : Nat)
    (id : ElementId) :
    SimulatesChild unalarmed (decodeWatched d within alternative depth) (d.decodeOne depth) id := by
  have kin : d.Counterpart d := ⟨.refl d.schema, fun _ _ => rfl, rfl, rfl, rfl, rfl⟩
  have keeps : unalarmed.Respects := respects_of_eq rfl rfl
  have whole : unalarmed.Whole := ⟨rfl, rfl⟩
  induction depth generalizing id with
  | zero => exact decodeOne_sims_whole kin rfl keeps whole (sameHosts_of_eq rfl) 0 id
  | succ depth inductionHypothesis =>
    rintro p n n' rfl twins covers
    refine tried_sims kin twins keeps (.of_schema_eq rfl twins ?_ (fun _ => whole.roams) ?_)
      covers
    · exact fun other _ => watch_sims (fun _ => id) (inductionHypothesis other)
    · exact fun _ _ id covers =>
        decodeScripted_sims kin twins keeps whole.roams covers.limit (sameHosts_of_eq rfl) id

/-- Without the idle ones of the declared children, all others are left. -/
theorem thinned_filter {R : Simulation Slice Slice} {d' : Decoder Slice} {child : d.DecodeChild}
    {child' : d'.DecodeChild} (simulates : ∀ id, SimulatesChild R child child' id)
    (idle : Idle R child within alternative) (ids : List ElementId) :
    ThinnedIds R child child' within ids (ids.filter (· ≠ alternative)) := by
  induction ids with
  | nil => exact .nil
  | cons id rest inductionHypothesis =>
    by_cases isIdle : id = alternative
    · subst isIdle
      rw [List.filter_cons_of_neg (by simp)]
      exact .drop idle inductionHypothesis
    · rw [List.filter_cons_of_pos (by simp [isIdle])]
      exact .keep ⟨rfl, simulates id⟩ inductionHypothesis

section Unfailed

variable (hostless : d.scripts = none)
  (variableOrder : ∀ m : Node d.schema, m.id = within → m.order = .ok .anyOf)
  (optional : ∀ {p : Place} {n : Node d.schema} {min : Nat} {max : Option Nat},
    n.id = alternative → d.Bounds p n min max → min = 0)

include hostless optional in
theorem idle_of_watched (depth : Nat) :
    Idle unfailed (watch d within alternative (decodeWatched d within alternative depth)) within
      alternative where
  silent := id
  excuses _ := id
  source := by
    rintro l l' r same rfl
    exact same
  least := optional
  fails := by
    intro p n st same inside
    have watched : p.Inside within ∧ n.id = alternative := ⟨inside, same⟩
    obtain ⟨v, mid, returned⟩ | ⟨e, mid, thrown⟩ :=
      returns_or_throws (decodeWatched d within alternative depth p n) st
    · refine ⟨⟨n.id, n.label, v.offset, alarm⟩, mid, ?_, by rintro ⟨⟩⟩
      simp only [watch, throws_bind, throws_guard_bind]
      exact .inr ⟨v, mid, returned, .inl ⟨watched, rfl, rfl⟩⟩
    · refine ⟨e, mid, throws_bind.mpr (.inl thrown), fun mismatch => ?_⟩
      have whole : unalarmed.Whole := ⟨rfl, rfl⟩
      have ends := decodeWatched_unalarmed d within alternative depth n.id p n n rfl
        ((Schema.Counterpart.refl d.schema).twins rfl) (whole.covers _) st st
        ⟨rfl, rfl, rfl, False.elim⟩
      obtain excuse | ⟨-, after, thrown', related⟩ := ends.of_throws thrown
      · have fatal := unalarmed.fatal e excuse
        cases fatal.symm.trans mismatch
      · have reads : d.ScriptsOnlyRead := by
          intro host hosted
          rw [hostless] at hosted
          cases hosted
        have kept := decodeOne_throws_data reads depth thrown'
        have source : mid.source = after.source := related.source
        show mid.source.data = st.source.data
        rw [source]
        exact kept

include hostless variableOrder optional in
theorem decodeWatched_unfailed (kin : d.Counterpart (d.without within alternative)) (depth : Nat)
    (id : ElementId) :
    SimulatesChild unfailed (decodeWatched d within alternative depth)
      ((d.without within alternative).decodeOne depth) id := by
  have keeps : unfailed.Respects := respects_of_eq rfl rfl
  have whole : unfailed.Whole := ⟨rfl, rfl⟩
  have hosts :
      Option.Rel (SameHost unfailed d (d.without within alternative)) d.scripts d.scripts := by
    rw [hostless]
    exact .none
  induction depth generalizing id with
  | zero => exact fun _ _ _ _ twins _ => decodeOne_zero_sims kin twins keeps
  | succ depth inductionHypothesis =>
    rintro p n n' rfl twins covers
    have children : ∀ other, SimulatesChild unfailed
        (watch d within alternative (decodeWatched d within alternative depth))
        ((d.without within alternative).decodeOne depth) other :=
      fun other => watch_sims alarm_fatal (inductionHypothesis other)
    refine tried_sims kin twins keeps ⟨fun other _ => children other,
      fun _ => Schema.order_without twins.id, ?_, fun _ => whole.roams,
      fun _ _ id covers => decodeScripted_sims kin twins keeps whole.roams covers.limit hosts id⟩
      covers
    intro m m' order defined same ordered
    have kinds := Schema.kind_without same.id
    by_cases isWithin : m.id = within
    · have anyOf := defined.anyOf (variableOrder m isWithin)
      cases ordered.symm.trans anyOf
      obtain ⟨body, defines⟩ := defined.defines
      rw [kinds, if_pos isWithin, Kind.children_without alternative m.kind defines, isWithin]
      exact thinned_filter children (idle_of_watched hostless optional depth) m.kind.children
    · rw [kinds, if_neg isWithin]
      exact .refl (fun other _ => children other) order

end Unfailed

/-- An alternative that needs no instance and does not fit wherever it is tried can be left out: a
decode that succeeds gives the same value and the same warnings without it, and ends in the same
place. -/
theorem decodeOne_without (d : Decoder Slice) (standard : d.evaluator = .standard)
    (hostless : d.scripts = none) (m a : Node d.schema) (variableOrder : m.order = .ok .anyOf)
    (optional : ∀ p min max, d.Bounds p a min max → min = 0) (depth : Nat) (p : Place)
    (n : Node d.schema) (st st' : DecodeState Slice) (v : Value)
    (decodes : Returns (d.decodeOne depth p n) st v st')
    (rejects : ∃ w after, Returns (decodeWatched d m.id a.id depth p n) st w after) :
    ∃ n' : Node (d.without m.id a.id).schema, n'.id = n.id ∧
      ∃ after, Returns ((d.without m.id a.id).decodeOne depth p n') st v after ∧
        after.warnings = st'.warnings ∧ after.reading = st'.reading := by
  have same : d.schema.Counterpart (d.without m.id a.id).schema :=
    Schema.counterpart_without d.schema m.id a.id
  have kin : d.Counterpart (d.without m.id a.id) := by
    refine ⟨same, fun frames text => ?_, rfl, rfl, rfl, rfl⟩
    show d.evaluator.evaluate _ text = d.evaluator.evaluate _ text
    rw [standard]
    exact same.evaluateStandard_eq frames text
  have whole : unalarmed.Whole := ⟨rfl, rfl⟩
  have whole' : unfailed.Whole := ⟨rfl, rfl⟩
  obtain ⟨w, watched, rejects⟩ := rejects
  -- The watched decode ends as the decode itself, as there was no alarm.
  have ends := decodeWatched_unalarmed d m.id a.id depth n.id p n n rfl
    ((Schema.Counterpart.refl d.schema).twins rfl) (whole.covers _) st st ⟨rfl, rfl, rfl, nofun⟩
  obtain ⟨_, ended, again, rfl, related⟩ := ends.of_returns rejects
  obtain ⟨rfl, still⟩ := again.unique decodes
  rw [still] at related
  obtain ⟨n', found, twins⟩ := kin.schema.node? (Schema.node?_of_id n)
  have ends' := decodeWatched_unfailed hostless
    (fun k same => Node.eq_of_id same ▸ variableOrder)
    (fun same bounds => optional _ _ _ (Node.eq_of_id same ▸ bounds)) kin depth n.id p n n' rfl
    twins (whole'.covers _) st st ⟨rfl, rfl, rfl, nofun⟩
  obtain ⟨_, after, decodes', rfl, related'⟩ := ends'.of_returns rejects
  refine ⟨n', twins.id.symm, after, decodes', ?_, ?_⟩
  · exact related'.warnings.symm.trans related.warnings
  · have source : after.source = st'.source := related'.source.symm.trans related.source
    have pending : after.pending = st'.pending := related'.pending.symm.trans related.pending
    unfold DecodeState.reading
    rw [source, pending]

end Decoder

end BinaryTemplate
