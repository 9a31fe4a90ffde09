import BinaryTemplate.Proofs.Targets

/-!
# The order of completion

A container is completed after its children, and the values of an inner frame after those of the
frames around it. What is remembered of an element should be its value that was completed last. A
search for it takes frames and siblings from the most recent one on, and a value before those inside
it, but goes through the children of a completed value in decode order. So of several values of the
element in one completed tree, of which none is inside another, it finds the first one.
-/

namespace BinaryTemplate

/-! ## Trees -/

namespace Value

mutual

/-- The values of a tree, side trees left out, in the order in which they are completed. -/
def completions : Value → List Value
  | ⟨element, offset, len, order, payload, children⟩ =>
    completionsIn children ++ [⟨element, offset, len, order, payload, children⟩]

def completionsIn : List Value → List Value
  | [] => []
  | v :: rest => completions v ++ completionsIn rest

end

mutual

/-- The values of an element in a tree that are not inside another value of it, in decode order. -/
def outermost (element : ElementId) : Value → List Value
  | ⟨own, offset, len, order, payload, children⟩ =>
    if own = element then [⟨own, offset, len, order, payload, children⟩]
    else outermostIn element children

def outermostIn (element : ElementId) : List Value → List Value
  | [] => []
  | v :: rest => outermost element v ++ outermostIn element rest

end

/-- The value of an element that is the last one in an order of completion. -/
def lastOf (element : ElementId) (values : List Value) : Option Value :=
  (values.filter (·.element = element)).getLast?

theorem lastOf_append (element : ElementId) (earlier later : List Value) :
    lastOf element (earlier ++ later) = (lastOf element later).or (lastOf element earlier) := by
  rw [lastOf, List.filter_append, List.getLast?_append]
  rfl

theorem lastOf_eq_none_iff {element : ElementId} {values : List Value} :
    lastOf element values = none ↔ ∀ v ∈ values, v.element ≠ element := by
  simp [lastOf]

theorem completionsIn_append (vs ws : List Value) :
    completionsIn (vs ++ ws) = completionsIn vs ++ completionsIn ws := by
  induction vs with
  | nil => rfl
  | cons v rest inductionHypothesis =>
    rw [List.cons_append, completionsIn, completionsIn, inductionHypothesis, List.append_assoc]

mutual

/-- A search in a tree finds the first of the outermost values. -/
theorem find?_eq_head? (element : ElementId) :
    ∀ v : Value, v.find? element = (v.outermost element).head?
  | ⟨own, offset, len, order, payload, children⟩ => by
    rw [find?, outermost]
    by_cases here : own = element
    · rw [if_pos here, if_pos here, List.head?_cons]
    · rw [if_neg here, if_neg here, findIn?_eq_head? element children]

theorem findIn?_eq_head? (element : ElementId) :
    ∀ vs : List Value, findIn? element vs = (outermostIn element vs).head?
  | [] => rfl
  | v :: rest => by
    rw [findIn?, outermostIn, List.head?_append, find?_eq_head? element v,
      findIn?_eq_head? element rest]

end

mutual

/-- The last of the outermost values is the one completed last: what is inside another value of the
element is completed before that one. -/
theorem lastOf_completions (element : ElementId) :
    ∀ v : Value, lastOf element v.completions = (v.outermost element).getLast?
  | ⟨own, offset, len, order, payload, children⟩ => by
    rw [completions, outermost, lastOf_append]
    by_cases here : own = element
    · rw [if_pos here]
      simp [lastOf, here]
    · rw [if_neg here, lastOf_completionsIn element children]
      simp [lastOf, here]

theorem lastOf_completionsIn (element : ElementId) :
    ∀ vs : List Value, lastOf element (completionsIn vs) = (outermostIn element vs).getLast?
  | [] => rfl
  | v :: rest => by
    rw [completionsIn, outermostIn, lastOf_append, List.getLast?_append,
      lastOf_completions element v, lastOf_completionsIn element rest]

end

/-- A tree has an outermost value of the element if it has any value of it. -/
theorem outermost_eq_nil_iff {element : ElementId} {v : Value} :
    v.outermost element = [] ↔ ∀ w ∈ v.completions, w.element ≠ element := by
  rw [← lastOf_eq_none_iff, lastOf_completions, List.getLast?_eq_none_iff]

end Value

/-! ## Contexts -/

namespace Context

variable {c : Context} {element : ElementId} {tree : Value}

/-- The completed trees of all open frames, the most recent one first. -/
def trees (c : Context) : List Value := c.frames.flatMap (·.completed)

/-- The values of all open frames in the order in which they were completed. -/
def completions (c : Context) : List Value := Value.completionsIn c.trees.reverse

/-- The value of an element that was completed last. -/
def latest? (c : Context) (element : ElementId) : Option Value :=
  Value.lastOf element c.completions

/-- The most recent tree with a value of the element in it. -/
structure Newest (c : Context) (element : ElementId) (tree : Value) : Prop where
  recent : ∃ newer older, c.trees = newer ++ tree :: older ∧
    ∀ t ∈ newer, ∀ v ∈ t.completions, v.element ≠ element
  present : ∃ v ∈ tree.completions, v.element = element

/-- A search that goes through the frames and through the trees of each of them goes through the
trees of all of them. -/
theorem findSome?_frames {β : Type} (f : Value → Option β) :
    (c.frames.findSome? fun frame => frame.completed.findSome? f) = c.trees.findSome? f := by
  rw [trees]
  induction c.frames with
  | nil => rfl
  | cons frame rest inductionHypothesis =>
    rw [List.findSome?_cons, inductionHypothesis, List.flatMap_cons, List.findSome?_append]
    cases frame.completed.findSome? f <;> rfl

theorem find?_eq_findSome? : c.find? element = c.trees.findSome? (Value.find? element) :=
  findSome?_frames (Value.find? element)

theorem latest?_eq_findSome? :
    c.latest? element = c.trees.findSome? fun t => (t.outermost element).getLast? := by
  rw [latest?, completions]
  induction c.trees with
  | nil => rfl
  | cons t rest inductionHypothesis =>
    rw [List.reverse_cons, Value.completionsIn_append, Value.lastOf_append, inductionHypothesis,
      List.findSome?_cons]
    have alone : Value.lastOf element (Value.completionsIn [t]) =
        (t.outermost element).getLast? := by
      rw [Value.lastOf_completionsIn, Value.outermostIn, Value.outermostIn, List.append_nil]
    rw [alone]
    cases (t.outermost element).getLast? <;> rfl

/-- A search that finds something in exactly the trees with a value of the element ends at the
newest of these. -/
theorem Newest.findSome? (newest : c.Newest element tree) {f : Value → Option Value}
    (finds : ∀ t, f t = none ↔ t.outermost element = []) : c.trees.findSome? f = f tree := by
  obtain ⟨⟨newer, older, split, without⟩, v, member, same⟩ := newest
  have skipped : newer.findSome? f = none := by
    rw [List.findSome?_eq_none_iff]
    exact fun t inNewer => (finds t).mpr (Value.outermost_eq_nil_iff.mpr (without t inNewer))
  have found : f tree ≠ none := fun missing =>
    Value.outermost_eq_nil_iff.mp ((finds tree).mp missing) v member same
  obtain ⟨w, given⟩ := Option.ne_none_iff_exists'.mp found
  rw [split, List.findSome?_append, skipped, List.findSome?_cons, given]
  rfl

theorem Newest.find? (newest : c.Newest element tree) :
    c.find? element = (tree.outermost element).head? := by
  rw [find?_eq_findSome?, newest.findSome? fun t => ?_, Value.find?_eq_head?]
  rw [Value.find?_eq_head?, List.head?_eq_none_iff]

theorem Newest.latest? (newest : c.Newest element tree) :
    c.latest? element = (tree.outermost element).getLast? := by
  rw [latest?_eq_findSome?, newest.findSome? fun t => List.getLast?_eq_none_iff]

theorem exists_newest (present : ∃ v ∈ c.completions, v.element = element) :
    ∃ tree, c.Newest element tree := by
  obtain ⟨v, member, same⟩ := present
  have found : c.latest? element ≠ none := fun missing =>
    Value.lastOf_eq_none_iff.mp missing v member same
  obtain ⟨w, given⟩ := Option.ne_none_iff_exists'.mp found
  rw [latest?_eq_findSome?, List.findSome?_eq_some_iff] at given
  obtain ⟨newer, tree, older, split, inTree, without⟩ := given
  refine ⟨tree, ⟨newer, older, split, fun t inNewer => ?_⟩, ?_⟩
  · exact Value.outermost_eq_nil_iff.mp (List.getLast?_eq_none_iff.mp (without t inNewer))
  · by_contra absent
    push Not at absent
    rw [Value.outermost_eq_nil_iff.mpr absent] at inTree
    cases inTree

theorem latest?_eq_none_iff :
    c.latest? element = none ↔ ∀ v ∈ c.completions, v.element ≠ element :=
  Value.lastOf_eq_none_iff

theorem find?_eq_none_iff :
    c.find? element = none ↔ ∀ v ∈ c.completions, v.element ≠ element := by
  -- Both searches miss in the same trees.
  rw [← latest?_eq_none_iff, find?_eq_findSome?, latest?_eq_findSome?,
    List.findSome?_eq_none_iff, List.findSome?_eq_none_iff]
  refine forall₂_congr fun t _ => ?_
  rw [Value.find?_eq_head?, List.head?_eq_none_iff, List.getLast?_eq_none_iff]

theorem find?_eq_some_iff {w : Value} :
    c.find? element = some w ↔
      ∃ tree, c.Newest element tree ∧ (tree.outermost element).head? = some w := by
  constructor
  · intro found
    have present : ∃ v ∈ c.completions, v.element = element := by
      by_contra absent
      push Not at absent
      cases found.symm.trans (find?_eq_none_iff.mpr absent)
    obtain ⟨tree, newest⟩ := exists_newest present
    exact ⟨tree, newest, newest.find?.symm.trans found⟩
  · rintro ⟨tree, newest, first⟩
    exact newest.find?.trans first

/-- A search agrees with the order of completion where the newest tree that has the element begins
and ends its outermost values of it with the same value. -/
theorem find?_eq_latest?_iff :
    c.find? element = c.latest? element ↔
      ∀ tree, c.Newest element tree →
        (tree.outermost element).head? = (tree.outermost element).getLast? := by
  constructor
  · intro agree tree newest
    rw [← newest.find?, ← newest.latest?, agree]
  · intro agree
    by_cases present : ∃ v ∈ c.completions, v.element = element
    · obtain ⟨tree, newest⟩ := exists_newest present
      rw [newest.find?, newest.latest?, agree tree newest]
    · push Not at present
      rw [find?_eq_none_iff.mpr present, latest?_eq_none_iff.mpr present]

end Context

namespace Decoder

open DecodeM

variable {σ : Type} {d : Decoder σ} {p : Place} {n : Node d.schema} {offset : Nat}
  {st st' : DecodeState σ}

/-! ## What an offset uses -/

/-- The address of a base that is not open is that of the value that the search finds. -/
theorem baseAddress_returns_completed {base : ElementId} {address : Nat} (other : base ≠ n.id)
    (closed : ∀ f ∈ p.inner :: p.outer, ¬ f.Opens base) :
    Returns (d.baseAddress p n offset base) st address st' ↔
      (∃ w, (p.context d.schema).find? base = some w ∧ w.offset = address) ∧ st' = st := by
  rw [baseAddress_returns]
  refine and_congr_left fun _ => ⟨fun counts => ?_, ?_⟩
  · cases counts with
    | itself => exact absurd rfl other
    | container _ opened =>
      obtain ⟨inner, f, outer, split, opens, -⟩ := opened
      have member : f ∈ (p.context d.schema).frames := by
        rw [split]
        exact List.mem_append_right inner List.mem_cons_self
      exact absurd opens (closed f member)
    | completed _ _ recalled => exact ⟨_, recalled.found, rfl⟩
  · rintro ⟨w, found, rfl⟩
    exact .completed other closed (Context.recalled_iff.mpr found)

/-- The size of a referenced region is the number that the search finds. -/
theorem referencedSize_returns_named {element : ElementId} {size : Option Nat}
    (named : n.lookup .referencedSize = .ok (some element)) :
    Returns (d.referencedSize? p n offset) st size st' ↔
      (∃ w k bytes, (p.context d.schema).find? element = some w ∧ w.toInt? = some k ∧
        k.toInt = (bytes : Nat) ∧ size = some bytes) ∧ st' = st := by
  rw [referencedSize_returns]
  refine and_congr_left fun _ => ⟨fun sized => ?_, ?_⟩
  · cases sized with
    | unset unset => cases named.symm.trans unset
    | given own recalled integer same =>
      cases named.symm.trans own
      exact ⟨_, _, _, recalled.found, integer, same, rfl⟩
  · rintro ⟨w, k, bytes, found, integer, same, rfl⟩
    exact .given named (Context.recalled_iff.mpr found) integer same

/-- A search for an element finds nothing only where no completed value is of it. Otherwise it finds
the first of the outermost values in the newest tree that has one, where the value that was
completed last is the last of these. An offset takes its base and the size of its region from the
value that is found. -/
theorem first_of_newest_recalled (d : Decoder σ) :
    (∀ (c : Context) (element : ElementId),
      (c.find? element = none ↔ ∀ v ∈ c.completions, v.element ≠ element) ∧
      (∀ tree, c.Newest element tree →
        c.find? element = (tree.outermost element).head? ∧
        c.latest? element = (tree.outermost element).getLast?) ∧
      (c.find? element = c.latest? element ↔ ∀ tree, c.Newest element tree →
        (tree.outermost element).head? = (tree.outermost element).getLast?)) ∧
    ∀ (p : Place) (n : Node d.schema) (offset : Nat) (st st' : DecodeState σ),
      (∀ base address, base ≠ n.id → (∀ f ∈ p.inner :: p.outer, ¬ f.Opens base) →
        (Returns (d.baseAddress p n offset base) st address st' ↔
          (∃ tree w, (p.context d.schema).Newest base tree ∧
            (tree.outermost base).head? = some w ∧ w.offset = address) ∧ st' = st)) ∧
      ∀ element size, n.lookup .referencedSize = .ok (some element) →
        (Returns (d.referencedSize? p n offset) st size st' ↔
          (∃ tree w k bytes, (p.context d.schema).Newest element tree ∧
            (tree.outermost element).head? = some w ∧ w.toInt? = some k ∧
            k.toInt = (bytes : Nat) ∧ size = some bytes) ∧ st' = st) := by
  refine ⟨fun c element => ⟨Context.find?_eq_none_iff, fun tree newest => ?_,
    Context.find?_eq_latest?_iff⟩, fun p n offset st st' => ⟨?_, ?_⟩⟩
  · exact ⟨newest.find?, newest.latest?⟩
  · intro base address other closed
    rw [baseAddress_returns_completed other closed]
    simp only [Context.find?_eq_some_iff]
    refine and_congr_left fun _ => ⟨?_, ?_⟩
    · rintro ⟨w, ⟨tree, newest, first⟩, same⟩
      exact ⟨tree, w, newest, first, same⟩
    · rintro ⟨tree, w, newest, first, same⟩
      exact ⟨w, ⟨tree, newest, first⟩, same⟩
  · intro element size named
    rw [referencedSize_returns_named named]
    simp only [Context.find?_eq_some_iff]
    refine and_congr_left fun _ => ⟨?_, ?_⟩
    · rintro ⟨w, k, bytes, ⟨tree, newest, first⟩, integer, same, given⟩
      exact ⟨tree, w, k, bytes, newest, first, integer, same, given⟩
    · rintro ⟨tree, w, k, bytes, newest, first, integer, same, given⟩
      exact ⟨w, k, bytes, ⟨tree, newest, first⟩, integer, same, given⟩

/-- Two numbers in a structure, and behind it a pointer that counts from the number. -/
def twice : Decoder Slice where
  schema :=
    { elements := #[
        ⟨{}, .structure { children := [⟨1⟩, ⟨3⟩] }⟩,
        ⟨{}, .structure { children := [⟨2⟩] }⟩,
        ⟨{ repeatMin := some (.literal 2), repeatMax := some (.literal 2) },
          .number { extent := { length := some (.literal 1) } }⟩,
        ⟨{}, .offset
          { extent := { length := some (.literal 1) }
            relativeTo := some ⟨2⟩
            referencedSize := some ⟨2⟩ }⟩]
      root := ⟨0⟩ }
  options := { maxDepth := 4, maxRepeat := 4 }

def twiceNumber (offset value : Nat) : Value :=
  ⟨⟨2⟩, offset, 1, some .little, .number (.unsigned (.ofNat value)) none [] none, []⟩

def twicePair : Value := ⟨⟨1⟩, 0, 2, none, .none, [twiceNumber 0 10, twiceNumber 1 11]⟩

/-- Where the pointer is decoded: the structure of the two numbers is completed. -/
def twicePlace : Place := (startPlace ⟨0⟩ 0 3).enter ⟨⟨0⟩, none, 0, 3, [twicePair], false⟩

def twicePointer : Node twice.schema := ⟨⟨3⟩, _, rfl⟩

theorem twicePair_newest (s : Schema) :
    Context.Newest (twicePlace.context s) ⟨2⟩ twicePair := by
  refine ⟨⟨[], [], rfl, fun t none => by cases none⟩, twiceNumber 0 10, ?_, rfl⟩
  exact List.mem_cons_self

theorem first_of_newest_recalled_twice :
    (twicePlace.context twice.schema).find? ⟨2⟩ = some (twiceNumber 0 10) ∧
      (twicePlace.context twice.schema).latest? ⟨2⟩ = some (twiceNumber 1 11) ∧
      Returns (twice.baseAddress twicePlace twicePointer 2 ⟨2⟩) ⟨⟨#[10, 11, 1], 3⟩, [], [], []⟩ 0
        ⟨⟨#[10, 11, 1], 3⟩, [], [], []⟩ ∧
      Returns (twice.referencedSize? twicePlace twicePointer 2) ⟨⟨#[10, 11, 1], 3⟩, [], [], []⟩
        (some 10) ⟨⟨#[10, 11, 1], 3⟩, [], [], []⟩ := by
  have newest := twicePair_newest twice.schema
  have recalled := ((first_of_newest_recalled twice).1 _ _).2.1 _ newest
  have used := (first_of_newest_recalled twice).2 twicePlace twicePointer 2
    ⟨⟨#[10, 11, 1], 3⟩, [], [], []⟩ ⟨⟨#[10, 11, 1], 3⟩, [], [], []⟩
  refine ⟨recalled.1, recalled.2, ?_, ?_⟩
  · refine (used.1 ⟨2⟩ 0 (by decide) ?_).mpr ⟨⟨_, _, newest, rfl, rfl⟩, rfl⟩
    simp [twicePlace, startPlace, Place.enter, Frame.scope, Frame.Opens]
  · exact (used.2 ⟨2⟩ (some 10) (by cbv)).mpr ⟨⟨_, _, 10, 10, newest, rfl, rfl, rfl, rfl⟩, rfl⟩

def twiceValue : Value :=
  ⟨⟨0⟩, 0, 3, none, .none,
    [twicePair, ⟨⟨3⟩, 2, 1, some .little, .offset 1 (some 1) none, []⟩]⟩

set_option maxRecDepth 8000 in
/-- The pointer counts from the first number although the second one was completed last. -/
theorem earlier_instance_recalled :
    (twice.decodeElement ⟨0⟩ ⟨#[10, 11, 1], 0⟩).result = .ok (twiceValue, []) ∧
      (twicePlace.context twice.schema).find? ⟨2⟩ ≠ (twicePlace.context twice.schema).latest? ⟨2⟩ ∧
      ((twicePlace.context twice.schema).latest? ⟨2⟩).map (·.offset + 1) = some 2 := by
  refine ⟨by cbv, ?_, rfl⟩
  rintro agree
  cases agree

end Decoder

end BinaryTemplate
