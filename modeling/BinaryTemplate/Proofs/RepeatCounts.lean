import Mathlib
import BinaryTemplate.Proofs.Container

/-!
# How many instances there are

A container has, for each of its definitions that is not switched off, as many values as the bounds
of the definition allow. A bounded run has the least number, or the greatest if that is less, and
never more than the greatest; so has every definition of a choice. An open-ended run in its turn is
the exception: an instance that takes no byte ends it, also below the least number. It then has the
least number exactly if none of the instances that come before the last required one is empty.
-/

namespace BinaryTemplate.Decoder

open DecodeM

variable {σ : Type} [ByteSource σ] [SliceLike σ] {d : Decoder σ} {child : d.DecodeChild}
  {p : Place} {n : Node d.schema} {st st' : DecodeState σ}

/-! ## One run -/

/-- A run that is not open-ended has the number that is required, and at most the greatest. -/
theorem Run.bounded {least most count : Nat} {vs : List Value}
    (h : Run child n least (some most) count p st vs st') (below : count ≤ most)
    (fits : least ≤ most) : least ≤ count + vs.length ∧ count + vs.length ≤ most := by
  induction h with
  | full full =>
    simp only [Option.any_some, decide_eq_true_eq] at full
    simp only [List.length_nil]
    omega
  | spent enough =>
    simp only [List.length_nil]
    omega
  | rejected openEnded => cases openEnded
  | empty openEnded => cases openEnded
  | more room _ _ _ inductionHypothesis =>
    simp only [Option.any_some, decide_eq_false_iff_not] at room
    obtain ⟨lower, upper⟩ := inductionHypothesis (by omega)
    simp only [List.length_cons]
    omega

/-- An open-ended run either has the least number, and no instance of it is empty, or it ends with
its first empty instance. -/
theorem Run.openEnded {min count : Nat} {vs : List Value}
    (h : Run child n min none count p st vs st') :
    (min ≤ count + vs.length ∧ ∀ v ∈ vs, v.len ≠ 0) ∨
      ∃ init v, vs = init ++ [v] ∧ v.len = 0 ∧ ∀ w ∈ init, w.len ≠ 0 := by
  induction h with
  | full full =>
    cases full
  | spent enough => exact .inl ⟨enough, nofun⟩
  | rejected _ enough => exact .inl ⟨enough, nofun⟩
  | empty _ _ empty => exact .inr ⟨[], _, rfl, empty, nofun⟩
  | more _ _ progress _ inductionHypothesis =>
    have nonempty := progress rfl
    obtain ⟨enough, others⟩ | ⟨init, v, rfl, empty, others⟩ := inductionHypothesis
    · refine .inl ⟨?_, ?_⟩
      · simp only [List.length_cons]
        omega
      · simpa using ⟨nonempty, others⟩
    · refine .inr ⟨_ :: init, v, rfl, empty, ?_⟩
      simpa using ⟨nonempty, others⟩

/-- An open-ended run has the least number exactly if no instance before the last required one is
empty. -/
theorem Run.least_iff {min : Nat} {vs : List Value}
    (h : Run child n min none 0 p st vs st') :
    min ≤ vs.length ↔ ∀ v ∈ vs.take (min - 1), v.len ≠ 0 := by
  obtain ⟨enough, nonempty⟩ | ⟨init, v, rfl, empty, nonempty⟩ := h.openEnded
  · constructor
    · intro _ v member
      exact nonempty v (List.mem_of_mem_take member)
    · intro _
      omega
  · constructor
    · intro enough w member
      rw [List.length_append, List.length_singleton] at enough
      rw [List.take_append_of_le_length (by omega)] at member
      exact nonempty w (List.mem_of_mem_take member)
    · intro others
      rw [List.length_append, List.length_singleton]
      -- Otherwise the empty instance is among those that come before the last required one.
      by_cases enough : min ≤ init.length + 1
      · exact enough
      · have member : v ∈ (init ++ [v]).take (min - 1) := by
          have all : (init ++ [v]).length ≤ min - 1 := by
            simp only [List.length_append, List.length_singleton]
            omega
          rw [List.take_of_length_le all]
          simp
        exact absurd empty (others v member)

/-- A value is an instance of an element that was decoded somewhere. -/
def DecodedFor (child : d.DecodeChild) (n : Node d.schema) (v : Value) : Prop :=
  ∃ q before after, Returns (child q n) before v after

omit [ByteSource σ] [SliceLike σ] in
theorem decodedFor_of_returns {v : Value} (h : Returns (child p n) st v st') :
    DecodedFor child n v :=
  ⟨p, st, st', h⟩

theorem Takes.decodedFor {v : Value} (h : Takes child p n st v st') : DecodedFor child n v := by
  cases h with
  | mk _ decoded => exact decodedFor_of_returns decoded

theorem Run.decodedFor {min count : Nat} {max : Option Nat} {vs : List Value}
    (h : Run child n min max count p st vs st') : ∀ v ∈ vs, DecodedFor child n v := by
  induction h with
  | full | spent | rejected => exact nofun
  | empty _ attempt _ => simpa using attempt.decodedFor
  | more _ attempt _ _ inductionHypothesis => simpa using ⟨attempt.decodedFor, inductionHypothesis⟩

/-! ## The definitions of a container -/

/-- The definitions that are not switched off, in their order. -/
inductive Enabled {s : Schema} : List ElementId → List (Node s) → Prop
  | nil : Enabled [] []
  | off {id : ElementId} {ids : List ElementId} {n : Node s} {ns : List (Node s)}
      (found : s.node? id = some n) (off : Disabled n true) (rest : Enabled ids ns) :
      Enabled (id :: ids) ns
  | on {id : ElementId} {ids : List ElementId} {n : Node s} {ns : List (Node s)}
      (found : s.node? id = some n) (on : Disabled n false) (rest : Enabled ids ns) :
      Enabled (id :: ids) (n :: ns)

/-- A definition has as many values as its bounds allow. In its turn, an open-ended run has the
least number exactly if no instance before the last required one is empty. -/
structure Tally.Counted {s : Schema} (order : ChildOrder) (t : Tally s) : Prop where
  bounded : ∀ max, t.max = some max →
    Nat.min t.min max ≤ t.values.length ∧ t.values.length ≤ max
  openEnded : t.max = none →
    (t.min ≤ t.values.length ↔ order = .anyOf ∨ ∀ v ∈ t.values.take (t.min - 1), v.len ≠ 0)

theorem Run.counted {t : Tally d.schema}
    (h : Run child t.node (required t.min t.max) t.max 0 p st t.values st') :
    t.Counted .declared := by
  constructor
  · intro max bound
    rw [bound] at h
    have between := h.bounded (Nat.zero_le _) (Nat.min_le_right _ _)
    rw [Nat.zero_add] at between
    exact between
  · intro bound
    rw [bound] at h
    have least := h.least_iff
    simpa [required] using least

/-! ### In their turn -/

theorem InTurn.enabled {ids : List ElementId} {ts : List (Tally d.schema)}
    (h : InTurn child ids p st ts st') : Enabled ids (ts.map Tally.node) := by
  induction h with
  | nil => exact .nil
  | off found off _ _ inductionHypothesis => exact .off found off inductionHypothesis
  | run found on _ _ _ _ inductionHypothesis => exact .on found on inductionHypothesis

/-- The bounds of a definition are evaluated behind the values of the definitions before it. -/
theorem InTurn.counted {ids : List ElementId} {ts pre post : List (Tally d.schema)}
    {t : Tally d.schema} (h : InTurn child ids p st ts st') (split : ts = pre ++ t :: post) :
    d.Bounds (p.completeAll (pre.flatMap Tally.values)) t.node t.min t.max ∧
      t.Counted .declared ∧ ∀ v ∈ t.values, DecodedFor child t.node v := by
  induction h generalizing pre with
  | nil => cases pre <;> cases split
  | off _ _ _ _ inductionHypothesis => exact inductionHypothesis split
  | run _ _ bounds _ run _ inductionHypothesis =>
    cases pre with
    | nil =>
      cases split
      exact ⟨bounds, run.counted, run.decodedFor⟩
    | cons first pre =>
      cases split
      rw [List.flatMap_cons, Place.completeAll_append]
      exact inductionHypothesis rfl

/-! ### Any of them -/

/-- A tally as it was offered, without values. -/
def Tally.cleared {s : Schema} (t : Tally s) : Tally s := { t with values := [] }

@[simp] theorem Tally.cleared_add {s : Schema} (t : Tally s) (v : Value) :
    (t.add v).cleared = t.cleared := rfl

omit [ByteSource σ] [SliceLike σ] in
theorem Offered.enabled {ids : List ElementId} {ts : List (Tally d.schema)}
    (h : Offered d p ids ts) : Enabled ids (ts.map Tally.node) := by
  induction h with
  | nil => exact .nil
  | off found off _ inductionHypothesis => exact .off found off inductionHypothesis
  | on found on _ _ _ inductionHypothesis => exact .on found on inductionHypothesis

omit [ByteSource σ] [SliceLike σ] in
theorem Offered.member {ids : List ElementId} {ts : List (Tally d.schema)}
    (h : Offered d p ids ts) {t : Tally d.schema} (member : t ∈ ts) :
    d.Bounds p t.node t.min t.max ∧ t.values = [] := by
  induction h with
  | nil => cases member
  | off _ _ _ inductionHypothesis => exact inductionHypothesis member
  | on _ _ bounds none _ inductionHypothesis =>
    cases member with
    | head => exact ⟨bounds, none⟩
    | tail _ member => exact inductionHypothesis member

/-- The values of a tally are instances of its definition, and no more than its greatest number. -/
structure Tally.Limited (child : d.DecodeChild) (t : Tally d.schema) : Prop where
  most : ∀ max, t.max = some max → t.values.length ≤ max
  decoded : ∀ v ∈ t.values, DecodedFor child t.node v

omit [ByteSource σ] [SliceLike σ] in
theorem Tally.Limited.add {t : Tally d.schema} {v : Value} (limited : t.Limited child)
    (free : t.alternative.isFull = false) (decoded : DecodedFor child t.node v) :
    (t.add v).Limited child := by
  constructor
  · intro max bound
    -- A definition that takes an instance was not full.
    have room : t.values.length < max := by
      have bound' : t.max = some max := bound
      simpa [Alternative.isFull, alternative, bound'] using free
    simp only [Tally.add, List.length_append, List.length_singleton]
    omega
  · intro w member
    simp only [Tally.add, List.mem_append, List.mem_singleton] at member
    obtain member | rfl := member
    · exact limited.decoded w member
    · exact decoded

/-- What a pick or a round adds to the tallies: some values, within their limits. -/
structure Grows (child : d.DecodeChild) (ts : List (Tally d.schema)) (vs : List Value)
    (ts' : List (Tally d.schema)) : Prop where
  cleared : ts'.map Tally.cleared = ts.map Tally.cleared
  values : (ts'.flatMap Tally.values).Perm (ts.flatMap Tally.values ++ vs)
  limited : (∀ t ∈ ts, t.Limited child) → ∀ t ∈ ts', t.Limited child

omit [ByteSource σ] [SliceLike σ] in
theorem Grows.refl (ts : List (Tally d.schema)) : Grows child ts [] ts :=
  ⟨rfl, by simp, id⟩

omit [ByteSource σ] [SliceLike σ] in
theorem Grows.trans {ts ts' ts'' : List (Tally d.schema)} {vs ws : List Value}
    (first : Grows child ts vs ts') (second : Grows child ts' ws ts'') :
    Grows child ts (vs ++ ws) ts'' := by
  refine ⟨second.cleared.trans first.cleared, ?_, second.limited ∘ first.limited⟩
  rw [← List.append_assoc]
  exact second.values.trans (first.values.append_right ws)

omit [ByteSource σ] [SliceLike σ] in
theorem Grows.cons {t : Tally d.schema} {ts ts' : List (Tally d.schema)} {vs : List Value}
    (h : Grows child ts vs ts') : Grows child (t :: ts) vs (t :: ts') := by
  refine ⟨congrArg (t.cleared :: ·) h.cleared, ?_, ?_⟩
  · rw [List.flatMap_cons, List.flatMap_cons, List.append_assoc]
    exact h.values.append_left t.values
  · intro limited t' member
    cases member with
    | head => exact limited _ List.mem_cons_self
    | tail _ member =>
      exact h.limited (fun u other => limited u (List.mem_cons_of_mem t other)) t' member

omit [ByteSource σ] [SliceLike σ] in
/-- A definition that is not full takes an instance. -/
theorem Grows.here {t : Tally d.schema} {ts : List (Tally d.schema)} {v : Value}
    (free : t.alternative.isFull = false) (decoded : DecodedFor child t.node v) :
    Grows child (t :: ts) [v] (t.add v :: ts) := by
  refine ⟨rfl, ?_, ?_⟩
  · simp only [List.flatMap_cons, Tally.add, List.append_assoc]
    -- The new value stands behind those of its own definition, and before those of the next ones.
    exact List.perm_append_comm.append_left t.values
  · intro limited t' member
    cases member with
    | head => exact (limited t List.mem_cons_self).add free decoded
    | tail _ member => exact limited t' (List.mem_cons_of_mem t member)

omit [ByteSource σ] [SliceLike σ] in
theorem Grows.nodes {ts ts' : List (Tally d.schema)} {vs : List Value}
    (h : Grows child ts vs ts') : ts'.map Tally.node = ts.map Tally.node := by
  have same := congrArg (List.map Tally.node) h.cleared
  simpa [Function.comp_def, Tally.cleared] using same

omit [ByteSource σ] [SliceLike σ] in
theorem Offered.limited {ids : List ElementId} {ts : List (Tally d.schema)}
    (h : Offered d p ids ts) : ∀ t ∈ ts, t.Limited child := by
  intro t member
  have none := (h.member member).2
  refine ⟨?_, ?_⟩ <;> simp [none]

omit [ByteSource σ] [SliceLike σ] in
/-- All values of a choice were taken in its rounds, for none are offered. -/
theorem Offered.values {ids : List ElementId} {ts ts' : List (Tally d.schema)} {vs : List Value}
    (h : Offered d p ids ts) (grows : Grows child ts vs ts') :
    vs.Perm (ts'.flatMap Tally.values) := by
  have none : ts.flatMap Tally.values = [] := by
    simp only [List.flatMap_eq_nil_iff]
    exact fun t member => (h.member member).2
  have values := grows.values
  rw [none, List.nil_append] at values
  exact values.symm

theorem Picks.grows {v : Value} {ts ts' : List (Tally d.schema)}
    (h : Picks child p v st ts ts' st') : Grows child ts [v] ts' := by
  induction h with
  | here free attempt => exact .here free attempt.decodedFor
  | full _ _ inductionHypothesis => exact inductionHypothesis.cons
  | rejected _ _ _ inductionHypothesis => exact inductionHypothesis.cons

theorem Rounds.grows {ts ts' : List (Tally d.schema)} {vs : List Value}
    (h : Rounds child p st ts vs ts' st') : Grows child ts vs ts' := by
  induction h with
  | spent | unmatched => exact .refl _
  | empty _ picks _ => exact picks.grows
  | more _ picks _ _ inductionHypothesis => exact picks.grows.trans inductionHypothesis

theorem AnyOf.counted {ids : List ElementId} {ts : List (Tally d.schema)} {vs : List Value}
    (h : AnyOf child ids p st ts vs st') :
    Enabled ids (ts.map Tally.node) ∧ vs.Perm (ts.flatMap Tally.values) ∧
      ∀ t ∈ ts, d.Bounds p t.node t.min t.max ∧ t.Counted .anyOf ∧
        ∀ v ∈ t.values, DecodedFor child t.node v := by
  cases h with
  | @mk offered start offers _ rounds enough =>
    have grows := rounds.grows
    have limited := grows.limited offers.limited
    refine ⟨grows.nodes ▸ offers.enabled, offers.values grows, ?_⟩
    intro t member
    -- Rounds only add values, so node and bounds are still those from the start.
    have known : t.cleared ∈ offered.map Tally.cleared :=
      grows.cleared ▸ List.mem_map_of_mem member
    obtain ⟨u, offer, same⟩ := List.mem_map.mp known
    obtain ⟨bounds, -⟩ := offers.member offer
    have decoded := (limited t member).decoded
    have most := (limited t member).most
    have least := enough t member
    -- The tally is one that was offered, but for its values.
    obtain ⟨node, min, max, values⟩ := t
    obtain ⟨_, _, _, _⟩ := u
    cases same
    refine ⟨bounds, ⟨?_, ?_⟩, decoded⟩
    · rintro max rfl
      exact ⟨least, most max rfl⟩
    · rintro rfl
      exact iff_of_true least (.inl rfl)

/-! ## Containers -/

/-- Where the bounds of a definition are evaluated in a container that starts at a place: behind the
values of the definitions before it if these have their turn, and at the start otherwise. -/
def runPlace {s : Schema} (order : ChildOrder) (start : Place) (before : List (Tally s)) : Place :=
  match order with
  | .declared => start.completeAll (before.flatMap Tally.values)
  | .anyOf => start

theorem Content.counted {ids : List ElementId} {order : ChildOrder} {ts : List (Tally d.schema)}
    {vs : List Value} (h : Content child ids p st order ts vs st') :
    Enabled ids (ts.map Tally.node) ∧ vs.Perm (ts.flatMap Tally.values) ∧
      (order = .declared → vs = ts.flatMap Tally.values) ∧
      ∀ pre t post, ts = pre ++ t :: post →
        d.Bounds (runPlace order p pre) t.node t.min t.max ∧ t.Counted order ∧
          ∀ v ∈ t.values, DecodedFor child t.node v := by
  cases h with
  | inTurn history =>
    exact ⟨history.enabled, .refl _, fun _ => rfl, fun pre t post split => history.counted split⟩
  | anyOf history =>
    obtain ⟨enabled, values, counted⟩ := history.counted
    refine ⟨enabled, values, nofun, ?_⟩
    rintro pre t post rfl
    exact counted t (by simp)

/-- The values of every container that decodes are those of its definitions that are not switched
off, as many for each as its bounds allow where its run begins; only an open-ended run in its turn
may have fewer than the least number, and it has exactly if an instance before the last required
one is empty. -/
theorem decodeOne_counts (d : Decoder σ) (depth : Nat) (p : Place) (n : Node d.schema)
    (st st' : DecodeState σ) (v : Value) (container : n.kind.producesChildren = true)
    (h : Returns (d.decodeOne depth p n) st v st') :
    ∃ rest definition ids order declared ts, Contains n definition ids order ∧
      Enabled ids (ts.map Tally.node) ∧ v.children.Perm (ts.flatMap Tally.values) ∧
      (order = .declared → v.children = ts.flatMap Tally.values) ∧
      ∀ pre t post, ts = pre ++ t :: post →
        d.Bounds (runPlace order (inside p n definition st.reading.cursor declared) pre) t.node
          t.min t.max ∧
        t.Counted order ∧ ∀ w ∈ t.values, DecodedFor (d.decodeOne rest) t.node w := by
  obtain ⟨rest, definition, ids, order, declared, contains, decoded⟩ :=
    decodeOne_container container h
  generalize st'.reading = after at decoded
  cases decoded with
  | mk _ _ content _ => exact ⟨rest, definition, ids, order, declared, _, contains, content.counted⟩

/-! ## A run of empty structures -/

/-- A structure of at least two empty structures. -/
def hollow : Decoder Slice where
  schema :=
    { elements := #[
        ⟨{}, .structure { children := [⟨1⟩] }⟩,
        ⟨{ repeatMin := some (.literal 2), repeatMax := some (.literal (-1)) }, .structure {}⟩]
      root := ⟨0⟩ }
  options := { maxDepth := 2, maxRepeat := 2 }

def hollowRoot : Node hollow.schema := ⟨⟨0⟩, _, rfl⟩

def hollowChild : Node hollow.schema := ⟨⟨1⟩, _, rfl⟩

/-- What it decodes to: one empty structure, and no second one. -/
def hollowed : Value := { Value.empty ⟨0⟩ 0 0 with children := [Value.empty ⟨1⟩ 0 0] }

theorem hollow_bounds (p : Place) : hollow.Bounds p hollowChild 2 none :=
  ⟨.literal 2, .literal (-1), 2, -1, by cbv, by cbv, rfl, rfl, by decide, by decide⟩

set_option maxRecDepth 8000 in
theorem decodeOne_counts_hollow :
    hollowRoot.kind.producesChildren = true ∧
    ∃ st', Returns (hollow.decodeOne 2 (startPlace ⟨0⟩ 0 1) hollowRoot) { source := ⟨#[0], 0⟩ }
        hollowed st' ∧
      ∃ rest definition ids order declared ts, Contains hollowRoot definition ids order ∧
        hollowed.children.Perm (ts.flatMap Tally.values) ∧
        ∀ pre t post, ts = pre ++ t :: post →
          hollow.Bounds
            (runPlace order (inside (startPlace ⟨0⟩ 0 1) hollowRoot definition 0 declared) pre)
            t.node t.min t.max ∧
          t.Counted order ∧ ∀ w ∈ t.values, DecodedFor (hollow.decodeOne rest) t.node w := by
  have returned : Returns (hollow.decodeOne 2 (startPlace ⟨0⟩ 0 1) hollowRoot)
      { source := ⟨#[0], 0⟩ } hollowed _ := Prod.ext (by cbv) rfl
  obtain ⟨rest, definition, ids, order, declared, ts, contains, -, values, -, counted⟩ :=
    decodeOne_counts hollow 2 (startPlace ⟨0⟩ 0 1) hollowRoot _ _ hollowed rfl returned
  exact ⟨rfl, _, returned, rest, definition, ids, order, declared, ts, contains, values, counted⟩

set_option maxRecDepth 8000 in
/-- The decode succeeds with one value for a definition whose least number is two. -/
theorem empty_instance_ends_run :
    (hollow.decodeElement ⟨0⟩ ⟨#[0], 0⟩).result = .ok (hollowed, []) ∧
      (∀ p, hollow.Bounds p hollowChild 2 none) ∧
      ¬ 2 ≤ (hollowed.children.filter (·.element = hollowChild.id)).length := by
  refine ⟨by cbv, hollow_bounds, by decide⟩

end BinaryTemplate.Decoder
