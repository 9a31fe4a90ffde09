import BinaryTemplate.Proofs.Container
import BinaryTemplate.Proofs.Targets

/-!
# The instances behind a tree

A decoded tree is made of instances, each decoded from an element at a place: inside the frames
that were open around it, behind the values completed before it in each of them. `Visits` lists
these instances in the order of a walk through the tree, in which a value comes before what is
inside it and its children come before its side tree.
-/

namespace BinaryTemplate

namespace Value

mutual

/-- The values of a tree in the order of a walk through it, side trees included. -/
def preorder : Value → List Value
  | ⟨element, offset, len, order, payload, children⟩ =>
    ⟨element, offset, len, order, payload, children⟩ ::
      (preorderIn children ++
        match payload with
        | .offset _ _ (some side) => preorder side
        | _ => [])

/-- The values of several trees, one tree after the other. -/
def preorderIn : List Value → List Value
  | [] => []
  | v :: vs => preorder v ++ preorderIn vs

end

theorem preorder_eq (v : Value) :
    v.preorder = v :: (preorderIn v.children ++ (v.referenced?.map preorder).getD []) := by
  rcases v with ⟨element, offset, len, order, payload, children⟩
  cases payload with
  | offset pointer target side =>
    cases side with
    | none => simp [preorder, referenced?]
    | some side => simp [preorder, referenced?]
  | none | number | string | binary | custom => simp [preorder, referenced?]

end Value

/-- An instance that was decoded: its element, where in the template it was decoded, and the
value. -/
structure Visit (s : Schema) where
  node : Node s
  place : Place
  value : Value

namespace Decoder

open DecodeM

variable {σ : Type} [ByteSource σ]

/-- An element decodes to a value at a place, from some state and with some depth left. -/
def Decodes (d : Decoder σ) (x : Visit d.schema) : Prop :=
  ∃ depth st st', Returns (d.decodeOne depth x.place x.node) st x.value st'

/-- The instances behind the trees that are completed one after the other from a place on, each
decoded where it says. A value without inner ones is one instance, the side tree of an offset is
decoded at its target, and the children of a container in the frame that it opens. -/
inductive Visits (d : Decoder σ) : Place → List Value → List (Visit d.schema) → Prop
  | nil {p : Place} : Visits d p [] []
  | field {p : Place} {n : Node d.schema} {v : Value} {vs : List Value}
      {ys : List (Visit d.schema)} (decodes : d.Decodes ⟨n, p, v⟩) (own : v.element = n.id)
      (childless : v.children = []) (alone : v.referenced? = none)
      (rest : Visits d (p.complete v) vs ys) : Visits d p (v :: vs) (⟨n, p, v⟩ :: ys)
  | offset {p : Place} {n : Node d.schema} {v side : Value} {vs : List Value} {pointer : UInt64}
      {element : ElementId} {target stop : Nat} {size : Option Nat}
      {xs ys : List (Visit d.schema)} (decodes : d.Decodes ⟨n, p, v⟩) (own : v.element = n.id)
      (childless : v.children = [])
      (payload : v.payload = .offset pointer (some target) (some side))
      (references : n.lookup .references = .ok (some element))
      (fresh : (target, element) ∉ p.following) (sized : d.RegionSize p n size)
      (region : Region p target size stop)
      (there : Visits d (sidePlace p element target stop) [side] xs)
      (rest : Visits d (p.complete v) vs ys) : Visits d p (v :: vs) (⟨n, p, v⟩ :: (xs ++ ys))
  | container {p : Place} {n : Node d.schema} {definition : Option ElementId}
      {ids : List ElementId} {order : ChildOrder} {declared : Option Nat} {v : Value}
      {vs : List Value} {xs ys : List (Visit d.schema)} (decodes : d.Decodes ⟨n, p, v⟩)
      (own : v.element = n.id) (alone : v.referenced? = none)
      (contains : Contains n definition ids order)
      (length : ∀ len, declared = some len → len = v.len)
      (content : Visits d (inside p n definition v.offset declared) v.children xs)
      (rest : Visits d (p.complete v) vs ys) : Visits d p (v :: vs) (⟨n, p, v⟩ :: (xs ++ ys))

variable {d : Decoder σ} {p : Place} {vs ws : List Value} {xs ys : List (Visit d.schema)}

theorem Visits.append (first : d.Visits p vs xs) (second : d.Visits (p.completeAll vs) ws ys) :
    d.Visits p (vs ++ ws) (xs ++ ys) := by
  induction first with
  | nil => exact second
  | field decodes own childless alone _ inductionHypothesis =>
    exact .field decodes own childless alone (inductionHypothesis second)
  | offset decodes own childless payload references fresh sized region there _ _
      inductionHypothesis =>
    simp only [List.cons_append, List.append_assoc]
    exact .offset decodes own childless payload references fresh sized region there
      (inductionHypothesis second)
  | container decodes own alone contains length content _ _ inductionHypothesis =>
    simp only [List.cons_append, List.append_assoc]
    exact .container decodes own alone contains length content (inductionHypothesis second)

/-- The values of the instances are those of the trees, in the order of a walk through them. -/
theorem Visits.values (h : d.Visits p vs xs) : xs.map (·.value) = Value.preorderIn vs := by
  induction h with
  | nil => rfl
  | field _ _ childless alone _ rest =>
    rw [Value.preorderIn, Value.preorder_eq, childless, alone, List.map_cons, rest]
    rfl
  | offset _ _ childless payload _ _ _ _ _ _ there rest =>
    rw [Value.preorderIn, Value.preorder_eq, childless, Value.referenced?, payload]
    rw [Value.preorderIn, Value.preorderIn, List.append_nil] at there
    simp [Value.preorderIn, there, rest]
  | container _ _ alone _ _ _ _ content rest =>
    rw [Value.preorderIn, Value.preorder_eq, alone, List.map_cons, List.map_append, content, rest]
    simp

/-- Every instance decodes where it says, from the element that its value names. -/
theorem Visits.decodes (h : d.Visits p vs xs) :
    ∀ x ∈ xs, d.Decodes x ∧ x.value.element = x.node.id := by
  induction h with
  | nil => exact List.forall_mem_nil _
  | field decodes own _ _ _ rest =>
    exact List.forall_mem_cons.mpr ⟨⟨decodes, own⟩, rest⟩
  | offset decodes own _ _ _ _ _ _ _ _ inner rest | container decodes own _ _ _ _ _ inner rest =>
    exact List.forall_mem_cons.mpr ⟨⟨decodes, own⟩, List.forall_mem_append.mpr ⟨inner, rest⟩⟩

/-- Side trees are held to the end of the same data as the tree. -/
theorem Visits.dataStop (h : d.Visits p vs xs) : ∀ x ∈ xs, x.place.dataStop = p.dataStop := by
  induction h with
  | nil => exact List.forall_mem_nil _
  | field _ _ _ _ _ rest => exact List.forall_mem_cons.mpr ⟨rfl, rest⟩
  | offset _ _ _ _ _ _ _ _ _ _ inner rest | container _ _ _ _ _ _ _ inner rest =>
    exact List.forall_mem_cons.mpr ⟨rfl, List.forall_mem_append.mpr ⟨inner, rest⟩⟩

end Decoder

end BinaryTemplate
