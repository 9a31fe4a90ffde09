import BinaryTemplate.Proofs.RunLimits
import BinaryTemplate.Proofs.Warnings

/-!
# Nesting

A path goes down from the root of a tree, into children and into side trees. However the pointers of
a file are linked, a decode ends with a tree whose paths are short and free of loops. Entering a
side tree needs a target and an element that are not being followed yet, and every value takes one
level of the depth that is left.
-/

namespace BinaryTemplate

/-- A way down from a value: the values on it from the top, and the offsets among them whose side
trees it enters. -/
inductive Value.Path : Value → List Value → List Value → Prop
  | stop {v : Value} : Path v [v] []
  | child {v w : Value} {path entered : List Value} (inner : w ∈ v.children)
      (rest : Path w path entered) : Path v (v :: path) entered
  | side {v w : Value} {path entered : List Value} (referenced : v.referenced? = some w)
      (rest : Path w path entered) : Path v (v :: path) (v :: entered)

/-- What an offset refers to: its target, and the element that it references there. -/
def Refers (s : Schema) (v : Value) (pair : Nat × ElementId) : Prop :=
  ∃ pointer side, v.payload = .offset pointer (some pair.1) side ∧
    s.lookup .references v.element = .ok (some pair.2)

namespace Decoder

open DecodeM

variable {σ : Type} {d : Decoder σ} {child : d.DecodeChild} {p q : Place} {n : Node d.schema}
  {st st' : DecodeState σ} {v w : Value} {vs path entered : List Value}

/-! ## Loops -/

section Following

variable [ByteSource σ] {xs : List (Visit d.schema)}

/-- Each of the trees that are completed one after the other is one that is completed behind some of
them, with the same targets being followed. -/
theorem Visits.member (h : d.Visits p vs xs) (member : v ∈ vs) :
    ∃ q ys, q.following = p.following ∧ d.Visits q [v] ys := by
  induction h with
  | nil => cases member
  | field decodes own childless alone _ inductionHypothesis =>
    cases member with
    | head => exact ⟨_, _, rfl, .field decodes own childless alone .nil⟩
    | tail _ member => exact inductionHypothesis member
  | offset decodes own childless payload references fresh sized region there _ _
      inductionHypothesis =>
    cases member with
    | head =>
      exact ⟨_, _, rfl,
        .offset decodes own childless payload references fresh sized region there .nil⟩
    | tail _ member => exact inductionHypothesis member
  | container decodes own alone contains length content _ _ inductionHypothesis =>
    cases member with
    | head => exact ⟨_, _, rfl, .container decodes own alone contains length content .nil⟩
    | tail _ member => exact inductionHypothesis member

/-- A child is decoded with the same targets being followed as its container. -/
theorem Visits.inner (h : d.Visits p [v] xs) (inner : w ∈ v.children) :
    ∃ q ys, q.following = p.following ∧ d.Visits q [w] ys := by
  cases h with
  | field _ _ childless | offset _ _ childless =>
    rw [childless] at inner
    cases inner
  | container _ _ _ _ _ content => exact content.member inner

/-- A side tree is decoded while what its offset refers to is followed, and that was not followed
before. -/
theorem Visits.side (h : d.Visits p [v] xs) (referenced : v.referenced? = some w) :
    ∃ pair q ys, Refers d.schema v pair ∧ pair ∉ p.following ∧
      q.following = pair :: p.following ∧ d.Visits q [w] ys := by
  cases h with
  | field _ _ _ alone | container _ _ alone => cases alone.symm.trans referenced
  | @offset _ n _ _ _ _ _ _ _ _ _ _ _ own _ payload references fresh _ _ there _ =>
    simp only [Value.referenced?, payload, Option.some.injEq] at referenced
    subst referenced
    refine ⟨_, _, _, ⟨_, _, payload, ?_⟩, fresh, rfl, there⟩
    rw [own]
    exact references

/-- The offsets whose side trees a path enters refer to different targets or elements, and to none
that is followed where the tree is decoded. -/
theorem Visits.loop_free (down : v.Path path entered) (h : d.Visits p [v] xs) :
    ∃ pairs, List.Forall₂ (Refers d.schema) entered pairs ∧ pairs.Nodup ∧
      ∀ pair ∈ pairs, pair ∉ p.following := by
  induction down generalizing p xs with
  | stop => exact ⟨[], .nil, List.nodup_nil, List.forall_mem_nil _⟩
  | child inner _ inductionHypothesis =>
    obtain ⟨q, ys, same, there⟩ := h.inner inner
    rw [← same]
    exact inductionHypothesis there
  | side referenced _ inductionHypothesis =>
    obtain ⟨pair, q, ys, refers, fresh, followed, there⟩ := h.side referenced
    obtain ⟨pairs, others, nodup, new⟩ := inductionHypothesis there
    simp only [followed, List.mem_cons, not_or] at new
    refine ⟨pair :: pairs, .cons refers others, ?_, ?_⟩
    · exact List.nodup_cons.mpr ⟨fun again => (new pair again).1 rfl, nodup⟩
    · exact List.forall_mem_cons.mpr ⟨fresh, fun other member => (new other member).2⟩

end Following

/-! ## Depth -/

/-- How the parts of a value come about with the depth that is left for them: the children of a
container as instances of its definitions, and the side tree of an offset as one of another
element. -/
inductive Assembled (child : d.DecodeChild) (v : Value) : Prop
  | leaf (childless : v.children = [])
      (side : ∀ w, v.referenced? = some w → ∃ n, DecodedFor child n w)
  | container {n : Node d.schema} {definition : Option ElementId} {ids : List ElementId}
      {order : ChildOrder} {ts : List (Tally d.schema)} (own : v.element = n.id)
      (alone : v.referenced? = none) (contains : Contains n definition ids order)
      (stocked : Stocked child order ids v.children ts)

theorem Assembled.inner (h : Assembled child v) (inner : w ∈ v.children) :
    ∃ n, DecodedFor child n w := by
  cases h with
  | leaf childless =>
    rw [childless] at inner
    cases inner
  | container _ _ _ stocked => exact stocked.member inner

theorem Assembled.side (h : Assembled child v) (referenced : v.referenced? = some w) :
    ∃ n, DecodedFor child n w := by
  cases h with
  | leaf _ side => exact side w referenced
  | container _ alone => cases alone.symm.trans referenced

theorem Leaf.assembled {before after : List DecodeError} (h : d.Leaf p n before v after) :
    Assembled child v := by
  apply Assembled.leaf h.childless
  intro w referenced
  cases h.alone.symm.trans referenced

variable [ByteSource σ]

theorem decodeStructure_assembled {definition : Node d.schema}
    (contains : ∀ order, n.order = .ok order →
      Contains n (if definition.id = n.id then none else some definition.id)
        definition.kind.children order)
    (h : Returns (d.decodeStructure child p n definition) st v st') : Assembled child v := by
  simp only [decodeStructure, returns_bind, returns_resolved] at h
  obtain ⟨_, _, -, start, _, -, order, _, ⟨ordered, rfl⟩, declared, _, -, decoded⟩ := h
  obtain ⟨own, alone, ts, stocked⟩ := decodeContainer_stocked decoded
  exact .container own alone (contains order ordered) stocked

theorem decodeStructRef_assembled {body : StructRefBody} {offset : Nat}
    (kind : n.kind = .structRef body)
    (h : Returns (d.decodeStructRef child p n offset) st v st') : Assembled child v := by
  simp only [decodeStructRef, returns_bind, returns_resolved] at h
  obtain ⟨target, _, ⟨named, rfl⟩, h⟩ := h
  cases target with
  | none => exact absurd h returns_fail
  | some target =>
    simp only [returns_bind, node_returns] at h
    obtain ⟨definition, _, ⟨found, rfl⟩, h⟩ := h
    cases defines : definition.kind with
    | «structure» inner =>
      simp only [defines] at h
      exact decodeStructure_assembled (fun _ => .structRef kind named found defines) h
    | _ =>
      simp only [defines] at h
      exact absurd h returns_fail

omit [ByteSource σ] in
/-- A reference to a grammar has a value of its own only where it is switched off; the value of the
grammar is one level deeper. -/
theorem decodeGrammarRef_assembled {offset : Nat}
    (h : Returns (d.decodeGrammarRef child p n offset) st v st') :
    Assembled child v ∨ ∃ m, DecodedFor child m v := by
  simp only [decodeGrammarRef, returns_bind, returns_resolved, returns_ite, returns_pure] at h
  obtain ⟨off, _, -, ⟨-, rfl, -⟩ | ⟨-, target, _, ⟨-, rfl⟩, h⟩⟩ := h
  · exact .inl (.leaf rfl (by rintro _ ⟨⟩))
  cases target with
  | none => exact absurd h returns_fail
  | some target =>
    simp only [returns_bind, node_returns] at h
    obtain ⟨grammar, _, -, h⟩ := h
    cases defines : grammar.kind with
    | grammar inner =>
      simp only [defines] at h
      exact .inr ⟨grammar, decodedFor_of_returns h⟩
    | _ =>
      simp only [defines] at h
      exact absurd h returns_fail

theorem decodeOffset_assembled (h : Returns (d.decodeOffset child p n) st v st') :
    Assembled child v := by
  obtain ⟨start, told, order, r, read, target, side, -, -, -, -, leads, rfl⟩ :=
    decodeOffset_steps h
  apply Assembled.leaf rfl
  rintro w referenced
  cases leads with
  | nowhere | unreferenced => cases referenced
  | side _ followed =>
    cases referenced
    cases followed with
    | mk _ _ _ _ _ _ decoded => exact ⟨_, decodedFor_of_returns decoded⟩

theorem decodeKind_assembled {offset : Nat}
    (h : Returns (d.decodeKind child p n offset) st v st') :
    Assembled child v ∨ ∃ m, DecodedFor child m v := by
  unfold decodeKind at h
  cases kind : n.kind with
  | grammar body =>
    simp only [kind] at h
    obtain ⟨own, alone, ts, stocked⟩ := decodeContainer_stocked h
    exact .inl (.container own alone (.grammar kind) stocked)
  | grammarRef body =>
    simp only [kind] at h
    exact decodeGrammarRef_assembled h
  | «structure» body =>
    simp only [kind] at h
    refine .inl (decodeStructure_assembled (fun order ordered => ?_) h)
    rw [if_pos rfl]
    exact .structure kind ordered
  | structRef body =>
    simp only [kind] at h
    exact .inl (decodeStructRef_assembled kind h)
  | number body =>
    simp only [kind] at h
    exact .inl (decodeNumber_warnings h).assembled
  | string body =>
    simp only [kind] at h
    exact .inl (decodeString_warnings h).assembled
  | binary body =>
    simp only [kind] at h
    exact .inl (decodeBinary_warnings h).assembled
  | custom body =>
    simp only [kind, returns_bind, returns_resolved] at h
    obtain ⟨script, _, -, h⟩ := h
    cases script with
    | none => exact absurd h returns_fail
    | some script => exact .inl (decodeScripted_warnings h).assembled
  | offset body =>
    simp only [kind] at h
    exact .inl (decodeOffset_assembled h)
  | script body =>
    simp only [kind] at h
    exact .inl (decodeScripted_warnings h).assembled

/-- The parts of a value are decoded with less depth left than the value, one level for the value
itself and one for each grammar that is referenced instead of it. -/
theorem decodeOne_assembled {depth : Nat} (h : Returns (d.decodeOne depth p n) st v st') :
    ∃ rest, rest < depth ∧ Assembled (d.decodeOne rest) v := by
  induction depth generalizing p n st st' with
  | zero =>
    simp only [decodeOne, returns_bind, returns_fail, and_false, exists_false] at h
  | succ depth inductionHypothesis =>
    simp only [decodeOne, returns_bind] at h
    obtain ⟨_, _, -, offset, _, -, kinds⟩ := h
    obtain assembled | ⟨m, q, before, after, deeper⟩ := decodeKind_assembled kinds
    · exact ⟨depth, Nat.lt_succ_self depth, assembled⟩
    · obtain ⟨rest, less, assembled⟩ := inductionHypothesis deeper
      exact ⟨rest, by omega, assembled⟩

/-- A path has no more values than there is depth, and each of them is assembled. -/
theorem decodeOne_path {depth : Nat} (down : v.Path path entered)
    (h : Returns (d.decodeOne depth p n) st v st') :
    path.length ≤ depth ∧ ∀ w ∈ path, ∃ rest, Assembled (d.decodeOne rest) w := by
  induction down generalizing depth p n st st' with
  | stop =>
    obtain ⟨rest, less, assembled⟩ := decodeOne_assembled h
    refine ⟨?_, by simpa using ⟨rest, assembled⟩⟩
    rw [List.length_singleton]
    omega
  | child inner _ inductionHypothesis =>
    obtain ⟨rest, less, assembled⟩ := decodeOne_assembled h
    obtain ⟨m, q, before, after, decoded⟩ := assembled.inner inner
    obtain ⟨short, others⟩ := inductionHypothesis decoded
    refine ⟨?_, List.forall_mem_cons.mpr ⟨⟨rest, assembled⟩, others⟩⟩
    rw [List.length_cons]
    omega
  | side referenced _ inductionHypothesis =>
    obtain ⟨rest, less, assembled⟩ := decodeOne_assembled h
    obtain ⟨m, q, before, after, decoded⟩ := assembled.side referenced
    obtain ⟨short, others⟩ := inductionHypothesis decoded
    refine ⟨?_, List.forall_mem_cons.mpr ⟨⟨rest, assembled⟩, others⟩⟩
    rw [List.length_cons]
    omega

/-! ## Whole decodes -/

theorem decodeElement_decodes {d : Decoder σ} {element : ElementId} {source : σ} {v : Value}
    {warnings : List DecodeError}
    (h : (d.decodeElement element source).result = .ok (v, warnings)) :
    ∃ p n before after, p.following = [] ∧
      Returns (d.decodeOne d.options.maxDepth p n) before v after := by
  rw [decodeElement_eq] at h
  rcases ended : (d.decodeWhole element).ending { source := source } with ⟨e | v', after⟩
  · rw [ended] at h
    cases h
  rw [ended] at h
  cases h
  have returned : Returns (d.decodeWhole element) { source := source } v after := ended
  simp only [decodeWhole, returns_bind, node_returns, returns_pure] at returned
  obtain ⟨n, _, -, start, _, -, dataStop, _, -, _, _, decoded, _, _, -, rfl, -⟩ := returned
  exact ⟨_, n, _, _, rfl, decoded⟩

/-- Whatever the source holds, on every path through a returned tree no two of the offsets whose
side trees are entered have the same target and the same referenced element, there are no more
values than the depth that is allowed, and the children of every container are instances of its
definitions, for each definition at most as many as the cap allows. The exception is a cap of zero
and a choice that takes one value without bytes. -/
theorem nesting_bounded (d : Decoder σ) (element : ElementId) (source : σ) (v : Value)
    (warnings : List DecodeError) (path entered : List Value)
    (h : (d.decodeElement element source).result = .ok (v, warnings))
    (down : v.Path path entered) :
    (∃ pairs, List.Forall₂ (Refers d.schema) entered pairs ∧ pairs.Nodup) ∧
      path.length ≤ d.options.maxDepth ∧
      ∀ w ∈ path, w.children = [] ∨
        ∃ rest, ∃ n : Node d.schema, ∃ definition ids order ts, w.element = n.id ∧
          Contains n definition ids order ∧
          Stocked (d.decodeOne rest) order ids w.children ts := by
  obtain ⟨p, n, before, after, outside, decoded⟩ := decodeElement_decodes h
  obtain ⟨xs, visits, -⟩ := decodeOne_yields _ decoded
  obtain ⟨pairs, refers, nodup, -⟩ := visits.loop_free down
  obtain ⟨short, assembled⟩ := decodeOne_path down decoded
  refine ⟨⟨pairs, refers, nodup⟩, short, ?_⟩
  intro w member
  obtain ⟨rest, parts⟩ := assembled w member
  cases parts with
  | leaf childless => exact .inl childless
  | container own _ contains stocked => exact .inr ⟨rest, _, _, _, _, _, own, contains, stocked⟩

/-! ## A chain of pointers -/

/-- A structure with a pointer to another one of its kind. -/
def chain : Decoder Slice where
  schema :=
    { elements := #[
        ⟨{}, .structure { children := [⟨1⟩] }⟩,
        ⟨{}, .offset { extent := { length := some (.literal 1) }, references := some ⟨0⟩ }⟩]
      root := ⟨0⟩ }
  options := { maxDepth := 6, maxRepeat := 1 }

/-- The pointers lead from byte to byte, up to the null pointer at the end. -/
def chainBytes : Slice := ⟨#[1, 2, 0], 0⟩

def chainPointer (offset : Nat) (pointer : UInt64) (target : Option Nat) (side : Option Value) :
    Value :=
  ⟨⟨1⟩, offset, 1, some .little, .offset pointer target side, []⟩

def chainLink (offset : Nat) (pointer : Value) : Value := ⟨⟨0⟩, offset, 1, none, .none, [pointer]⟩

def chainPointers : Value × Value × Value :=
  let third := chainPointer 2 0 none none
  let second := chainPointer 1 2 (some 2) (some (chainLink 2 third))
  let first := chainPointer 0 1 (some 1) (some (chainLink 1 second))
  (first, second, third)

def chainValue : Value := chainLink 0 chainPointers.1

def chainPath : List Value :=
  [chainValue, chainPointers.1, chainLink 1 chainPointers.2.1, chainPointers.2.1,
    chainLink 2 chainPointers.2.2, chainPointers.2.2]

def chainEntered : List Value := [chainPointers.1, chainPointers.2.1]

theorem chain_path : chainValue.Path chainPath chainEntered := by
  apply Value.Path.child (List.mem_singleton_self _)
  apply Value.Path.side rfl
  apply Value.Path.child (List.mem_singleton_self _)
  apply Value.Path.side rfl
  apply Value.Path.child (List.mem_singleton_self _)
  exact .stop

set_option maxRecDepth 8000 in
theorem nesting_bounded_chain :
    (chain.decodeElement ⟨0⟩ chainBytes).result = .ok (chainValue, []) ∧
      chainValue.Path chainPath chainEntered ∧
      (∃ pairs, List.Forall₂ (Refers chain.schema) chainEntered pairs ∧ pairs.Nodup) ∧
      chainPath.length ≤ 6 ∧
      ∀ w ∈ chainPath, w.children = [] ∨
        ∃ rest, ∃ n : Node chain.schema, ∃ definition ids order ts, w.element = n.id ∧
          Contains n definition ids order ∧
          Stocked (chain.decodeOne rest) order ids w.children ts := by
  have decodes : (chain.decodeElement ⟨0⟩ chainBytes).result = .ok (chainValue, []) := by cbv
  exact ⟨decodes, chain_path,
    nesting_bounded chain ⟨0⟩ chainBytes chainValue [] chainPath chainEntered decodes chain_path⟩

/-! ## A choice that may have nothing -/

/-- A choice with an empty structure, and a cap of zero. -/
def uncounted : Decoder Slice where
  schema :=
    { elements := #[
        ⟨{}, .structure { children := [⟨1⟩], order := some .anyOf }⟩,
        ⟨{}, .structure {}⟩]
      root := ⟨0⟩ }
  options := { maxDepth := 2, maxRepeat := 0 }

def uncountedValue : Value := { Value.empty ⟨0⟩ 0 0 with children := [Value.empty ⟨1⟩ 0 0] }

set_option maxRecDepth 8000 in
/-- The empty value is taken, and the decode does not count it. -/
theorem empty_value_uncounted :
    (uncounted.decodeElement ⟨0⟩ ⟨#[0], 0⟩).result = .ok (uncountedValue, []) ∧
      ¬ (uncountedValue.children.filter (·.element = ⟨1⟩)).length ≤
        uncounted.options.maxRepeat := by
  refine ⟨by cbv, by decide⟩

end Decoder

end BinaryTemplate
