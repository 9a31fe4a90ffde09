import BinaryTemplate.Proofs.Counterpart
import BinaryTemplate.Proofs.ValidTrees

/-!
# Without side trees

A template is detached by taking the reference out of every offset, and a tree by taking out every
side tree. No attribute but the reference itself is looked up differently in a detached template,
and nothing that an expression, a base or a size asks of the values decoded so far looks into a side
tree.
-/

namespace BinaryTemplate

/-! ## Templates -/

namespace Kind

/-- The kind without what an offset references. -/
def detached : Kind → Kind
  | .offset body => .offset { body with references := none }
  | kind => kind

@[simp] theorem name_detached (kind : Kind) : kind.detached.name = kind.name := by
  cases kind <;> rfl

@[simp] theorem children_detached (kind : Kind) : kind.detached.children = kind.children := by
  cases kind <;> rfl

@[simp] theorem producesChildren_detached (kind : Kind) :
    kind.detached.producesChildren = kind.producesChildren := by
  cases kind <;> rfl

end Kind

def Element.detached (e : Element) : Element := { e with kind := e.kind.detached }

/-- An attribute that is kept somewhere else than the reference of an offset. -/
def Attribute.Kept {α : Type} (a : Attribute α) : Prop :=
  (fun traits body => a.own ⟨traits, .offset { body with references := none }⟩) =
    fun traits body => a.own ⟨traits, .offset body⟩

theorem Attribute.Kept.own_detached {α : Type} {a : Attribute α} (kept : a.Kept) (e : Element) :
    a.own e.detached = a.own e := by
  obtain ⟨traits, kind⟩ := e
  cases kind with
  | offset body => exact congrFun (congrFun kept traits) body
  | _ => rfl

namespace Schema

/-- The template with the reference of every offset taken out. -/
def detached (s : Schema) : Schema where
  elements := s.elements.map Element.detached
  root := s.root

variable {s : Schema} {α : Type}

theorem get?_detached (s : Schema) (id : ElementId) :
    s.detached.get? id = (s.get? id).map Element.detached :=
  Array.getElem?_map

theorem elements_detached (s : Schema) (id : ElementId) :
    Option.Rel (fun e e' => e' = e.detached) (s.get? id) (s.detached.get? id) := by
  rw [get?_detached]
  cases s.get? id with
  | none => exact .none
  | some e => exact .some rfl

theorem structureLink_detached (s : Schema) (id : ElementId) :
    s.detached.structureLink id = s.structureLink id := by
  refine (search_congr s.elements_detached rfl ?_ ?_ [] id).symm
  · rintro e _ rfl
    exact (Attribute.Kept.own_detached (a := .structure?) rfl e).symm
  · rintro id e _ rfl
    rfl

theorem fallbacks_detached (s : Schema) (scope : Scope) (id : ElementId) (e : Element) :
    s.detached.fallbacks scope id e.detached = s.fallbacks scope id e := by
  have target : s.detached.referenceLink scope id e.detached = s.referenceLink scope id e := by
    obtain ⟨traits, kind⟩ := e
    unfold referenceLink
    cases scope <;> cases kind <;> first | rfl | exact s.structureLink_detached id
  unfold fallbacks
  rw [target]
  rfl

theorem lookup_detached (s : Schema) {a : Attribute α} (kept : a.Kept) (id : ElementId) :
    s.detached.lookup a id = s.lookup a id := by
  symm
  unfold lookup
  refine search_congr s.elements_detached ?_ ?_ ?_ [] id
  · rfl
  · rintro e _ rfl
    exact (kept.own_detached e).symm
  · rintro id e _ rfl
    exact (s.fallbacks_detached a.scope id e).symm

theorem searchFirst_of_unset {w : Walk α} {chain ids : List ElementId}
    (each : ∀ id found, s.search w chain id = .ok found → found = none) {found : Option α}
    (h : s.searchFirst w chain ids = .ok found) : found = none := by
  induction ids with
  | nil =>
    rw [searchFirst] at h
    cases h
    rfl
  | cons id rest inductionHypothesis =>
    rw [searchFirst] at h
    cases asked : s.search w chain id with
    | error cycle =>
      rw [asked] at h
      cases h
    | ok first =>
      obtain rfl := each id first asked
      rw [asked] at h
      exact inductionHypothesis h

/-- What no element has is not found. -/
theorem search_of_unset {w : Walk α} (unset : ∀ id e, s.get? id = some e → w.own e = none)
    {chain : List ElementId} {id : ElementId} {found : Option α}
    (h : s.search w chain id = .ok found) : found = none := by
  induction measured : s.offChain chain using Nat.strongRecOn generalizing chain id found with
  | ind left inductionHypothesis =>
    subst measured
    by_cases onChain : id ∈ chain
    · rw [search, dif_pos onChain] at h
      cases h
    cases got : s.get? id with
    | none =>
      rw [search_missing onChain got] at h
      cases h
      rfl
    | some e =>
      rw [search_found onChain got, unset id e got] at h
      cases linked : w.links id e with
      | error cycle =>
        rw [linked] at h
        cases h
      | ok next =>
        rw [linked] at h
        have less := offChain_cons_lt onChain got
        exact searchFirst_of_unset (fun _ _ asked => inductionHypothesis _ less asked rfl) h

theorem lookup_of_unset {a : Attribute α} (unset : ∀ e ∈ s.elements, a.own e = none)
    {id : ElementId} {found : Option α} (h : s.lookup a id = .ok found) : found = none :=
  search_of_unset (fun _ e got => unset e (Array.mem_of_getElem? got)) h

/-- In a detached template no offset references anything, though to find that out may run into a
cycle of links. -/
theorem references_detached {id : ElementId} {found : Option ElementId}
    (h : s.detached.lookup .references id = .ok found) : found = none := by
  refine lookup_of_unset (fun e' member => ?_) h
  obtain ⟨⟨traits, kind⟩, -, rfl⟩ := Array.mem_map.mp member
  cases kind <;> rfl

end Schema

namespace Node

variable {s : Schema} {α : Type}

/-- The element in the detached template. -/
def detached (n : Node s) : Node s.detached where
  id := n.id
  element := n.element.detached
  found := by rw [s.get?_detached, n.found]; rfl

@[simp] theorem id_detached (n : Node s) : n.detached.id = n.id := rfl

theorem lookup_detached (n : Node s) {a : Attribute α} (kept : a.Kept) :
    n.detached.lookup a = n.lookup a :=
  s.lookup_detached kept n.id

theorem lookupD_detached (n : Node s) {a : Attribute α} (kept : a.Kept) (fallback : α) :
    n.detached.lookupD a fallback = n.lookupD a fallback := by
  rw [lookupD, n.lookup_detached kept, lookupD]

@[simp] theorem name_detached (n : Node s) : n.detached.name = n.name :=
  n.lookupD_detached (a := .name) rfl ""

@[simp] theorem kind_detached (n : Node s) : n.detached.kind = n.kind.detached := rfl

@[simp] theorem label_detached (n : Node s) : n.detached.label = n.label := by
  simp only [label, name_detached, kind_detached, Kind.name_detached, id_detached]

end Node

theorem Schema.node?_detached (s : Schema) (id : ElementId) :
    s.detached.node? id = (s.node? id).map Node.detached := by
  cases found : s.node? id with
  | none =>
    rw [node?_eq_none_iff] at found
    rw [Option.map_none, node?_eq_none_iff, s.get?_detached, found]
    rfl
  | some n =>
    rw [← id_of_node? found]
    exact node?_of_id n.detached

/-! ## Trees -/

/-- The content of a value without a side tree. -/
def Payload.detached {α : Type} : Payload α → Payload α
  | .offset pointer target _ => .offset pointer target Option.none
  | payload => payload

namespace Value

mutual

/-- The tree without its side trees. -/
def detached : Value → Value
  | ⟨element, offset, len, order, payload, children⟩ =>
    ⟨element, offset, len, order, payload.detached, detachedIn children⟩

def detachedIn : List Value → List Value
  | [] => []
  | v :: vs => detached v :: detachedIn vs

end

variable {s : Schema}

theorem detachedIn_eq_map (vs : List Value) : detachedIn vs = vs.map detached := by
  induction vs with
  | nil => rfl
  | cons v vs inductionHypothesis => rw [detachedIn, inductionHypothesis, List.map_cons]

@[simp] theorem element_detached (v : Value) : v.detached.element = v.element := by
  cases v
  rfl

@[simp] theorem offset_detached (v : Value) : v.detached.offset = v.offset := by
  cases v
  rfl

@[simp] theorem len_detached (v : Value) : v.detached.len = v.len := by
  cases v
  rfl

@[simp] theorem children_detached (v : Value) :
    v.detached.children = v.children.map detached := by
  cases v
  exact detachedIn_eq_map _

/-- A value without children that is no offset has no side trees. -/
theorem detached_of_plain {v : Value} (leaf : v.children = [])
    (plain : ∀ pointer target side, v.payload ≠ .offset pointer target side) : v.detached = v := by
  obtain ⟨element, offset, len, order, payload, children⟩ := v
  obtain rfl : children = [] := leaf
  cases payload with
  | offset pointer target side => exact absurd rfl (plain pointer target side)
  | _ => rfl

@[simp] theorem toInt?_detached (v : Value) : v.detached.toInt? = v.toInt? := by
  obtain ⟨element, offset, len, order, payload, children⟩ := v
  cases payload <;> rfl

@[simp] theorem hasName_detached (name : String) (v : Value) :
    hasName s.detached name v.detached = hasName s name v := by
  have names : v.detached.name s.detached = v.name s := by
    unfold Value.name
    rw [element_detached, s.node?_detached]
    cases s.node? v.element with
    | none => rfl
    | some n => exact n.name_detached
  rw [hasName, names, hasName]

mutual

theorem find?_detached (element : ElementId) :
    ∀ v : Value, v.detached.find? element = (v.find? element).map detached
  | ⟨own, offset, len, order, payload, children⟩ => by
    rw [detached, find?, find?]
    by_cases same : own = element
    · rw [if_pos same, if_pos same]
      rfl
    · rw [if_neg same, if_neg same]
      exact findIn?_detached element children

theorem findIn?_detached (element : ElementId) :
    ∀ vs : List Value, findIn? element (detachedIn vs) = (findIn? element vs).map detached
  | [] => rfl
  | v :: vs => by
    rw [detachedIn, findIn?, findIn?, find?_detached element v, findIn?_detached element vs,
      Option.map_or]

end

mutual

theorem findNamed?_detached (name : String) :
    ∀ v : Value, v.detached.findNamed? s.detached name = (v.findNamed? s name).map detached
  | ⟨own, offset, len, order, payload, children⟩ => by
    have named := hasName_detached (s := s) name ⟨own, offset, len, order, payload, children⟩
    rw [detached] at named ⊢
    rw [findNamed?, findNamed?, named]
    by_cases same : hasName s name ⟨own, offset, len, order, payload, children⟩
    · rw [if_pos same, if_pos same]
      rfl
    · rw [if_neg same, if_neg same]
      exact findNamedIn?_detached name children

theorem findNamedIn?_detached (name : String) : ∀ vs : List Value,
    findNamedIn? s.detached name (detachedIn vs) = (findNamedIn? s name vs).map detached
  | [] => rfl
  | v :: vs => by
    rw [detachedIn, findNamedIn?, findNamedIn?, findNamed?_detached name v,
      findNamedIn?_detached name vs, Option.map_or]

end

theorem childNamed?_detached (name : String) (v : Value) :
    v.detached.childNamed? s.detached name = (v.childNamed? s name).map detached := by
  rw [childNamed?, childNamed?, children_detached, ← List.map_reverse, List.find?_map]
  congr 2
  funext w
  exact hasName_detached name w

theorem tiles_detached {vs : List Value} {start stop : Nat} (tiles : Tiles start vs stop) :
    Tiles start (vs.map detached) stop := by
  induction vs generalizing start with
  | nil => exact tiles
  | cons v vs inductionHypothesis =>
    obtain ⟨starts, rest⟩ := tiles
    refine ⟨(offset_detached v).trans starts, ?_⟩
    rw [offset_detached, len_detached]
    exact inductionHypothesis rest

theorem Sound.detached {v : Value} (sound : Sound s v) : Sound s.detached v.detached where
  known := by simpa [s.get?_detached] using sound.known
  fits := by simpa using sound.fits
  container some := by
    obtain ⟨e, found, container⟩ := sound.container (by simpa using some)
    refine ⟨e.detached, by simp [s.get?_detached, found], ?_⟩
    rw [← Kind.producesChildren_iff] at container ⊢
    exact (Kind.producesChildren_detached e.kind).trans container
  tiles some := by
    rw [children_detached, offset_detached, len_detached]
    exact tiles_detached (sound.tiles (by simpa using some))

@[simp] theorem referenced?_detached (v : Value) : v.detached.referenced? = none := by
  obtain ⟨element, offset, len, order, payload, children⟩ := v
  cases payload <;> rfl

/-- A valid tree stays valid without its side trees. -/
theorem validate_detached (v : Value) (valid : v.validate s = .ok ()) :
    v.detached.validate s.detached = .ok () := by
  rw [validate_eq_ok_iff] at valid ⊢
  induction v using tree_induction with
  | step v children side =>
    obtain ⟨own, inside, -⟩ := allSound_iff.mp valid
    refine allSound_iff.mpr ⟨own.detached, ?_, by simp⟩
    intro c member
    obtain ⟨u, among, rfl⟩ := List.mem_map.mp (children_detached v ▸ member)
    exact children u among (inside u among)

end Value

/-! ## Places -/

def Frame.detached (f : Frame) : Frame := { f with completed := f.completed.map Value.detached }

namespace Place

def detached (p : Place) : Place where
  inner := p.inner.detached
  outer := p.outer.map Frame.detached
  dataStop := p.dataStop
  following := p.following

@[simp] theorem limit_detached (p : Place) : p.detached.limit = p.limit := rfl

theorem children_detached (p : Place) :
    p.detached.inner.children = p.inner.children.map Value.detached := by
  simp only [detached, Frame.detached, Frame.children, List.map_reverse]

end Place

namespace Context

/-- What is known at a point of a decode of the detached template. -/
def detached (c : Context) : Context := ⟨c.schema.detached, c.frames.map Frame.detached⟩

theorem findSome?_detached {α : Type} {frames : List Frame} {f g : Frame → Option α} {h : α → α}
    (each : ∀ frame : Frame, g frame.detached = (f frame).map h) :
    (frames.map Frame.detached).findSome? g = (frames.findSome? f).map h := by
  induction frames with
  | nil => rfl
  | cons frame rest inductionHypothesis =>
    rw [List.map_cons, List.findSome?_cons, List.findSome?_cons, each, inductionHypothesis]
    cases f frame <;> rfl

theorem findSome?_completed {f g : Value → Option Value}
    (each : ∀ v : Value, g v.detached = (f v).map Value.detached) (frame : Frame) :
    frame.detached.completed.findSome? g =
      (frame.completed.findSome? f).map Value.detached := by
  show (frame.completed.map Value.detached).findSome? g = _
  induction frame.completed with
  | nil => rfl
  | cons v rest inductionHypothesis =>
    rw [List.map_cons, List.findSome?_cons, List.findSome?_cons, each, inductionHypothesis]
    cases f v <;> rfl

theorem find?_detached (c : Context) (element : ElementId) :
    c.detached.find? element = (c.find? element).map Value.detached :=
  findSome?_detached (findSome?_completed (Value.find?_detached element))

theorem sibling?_detached (c : Context) (name : String) :
    c.detached.sibling? name = (c.sibling? name).map Value.detached := by
  refine findSome?_detached fun frame => ?_
  show (frame.completed.map Value.detached).find? _ = _
  rw [List.find?_map]
  congr 2
  funext v
  exact Value.hasName_detached name v

theorem descendant?_detached (c : Context) (name : String) :
    c.detached.descendant? name = (c.descendant? name).map Value.detached :=
  findSome?_detached (findSome?_completed (Value.findNamed?_detached name))

theorem lookup_detached (c : Context) (names : List String) :
    c.detached.lookup names = (c.lookup names).map Value.detached := by
  have onward : ∀ (rest : List String) (v : Value),
      rest.foldlM (fun w name => Value.childNamed? c.schema.detached name w) v.detached =
        (rest.foldlM (fun w name => Value.childNamed? c.schema name w) v).map Value.detached := by
    intro rest
    induction rest with
    | nil => exact fun _ => rfl
    | cons name rest inductionHypothesis =>
      intro v
      rw [List.foldlM_cons, List.foldlM_cons, Value.childNamed?_detached]
      cases v.childNamed? c.schema name with
      | none => rfl
      | some w => exact inductionHypothesis w
  cases names with
  | nil => rfl
  | cons first rest =>
    rw [lookup, lookup, sibling?_detached, descendant?_detached, ← Option.map_or]
    cases (c.sibling? first).or (c.descendant? first) with
    | none => rfl
    | some v => exact onward rest v

theorem containerStart?_detached (c : Context) (element : ElementId) :
    c.detached.containerStart? element = c.containerStart? element := by
  show ((c.frames.map Frame.detached).find? _).map _ = _
  rw [List.find?_map, Option.map_map]
  rfl

end Context

@[simp] theorem Place.context_detached (p : Place) (s : Schema) :
    p.detached.context s.detached = (p.context s).detached := rfl

/-- Expressions do not look into side trees. -/
theorem Evaluator.evaluateStandard_detached (c : Context) (text : String) :
    evaluateStandard c.detached text = evaluateStandard c text := by
  have named : ∀ first rest, c.detached.named first rest =
      (c.named first rest).map Value.detached := by
    intro first rest
    rw [Context.named, Context.named, c.lookup_detached]
    cases c.lookup (first :: rest) <;> rfl
  have integer : c.detached.integer = c.integer := by
    funext first rest
    rw [Context.integer, Context.integer, named]
    cases c.named first rest with
    | error e => rfl
    | ok v =>
      simp only [Except.map, bind, Except.bind, v.toInt?_detached]
  unfold evaluateStandard
  rw [integer]
  cases Literal.parse? (Text.trim text.toList) with
  | some n => rfl
  | none =>
    dsimp only
    split
    · next first rest _ =>
      rw [named]
      cases c.named first rest with
      | error e => rfl
      | ok v =>
        simp only [Except.map, bind, Except.bind, v.toInt?_detached, v.element_detached]
    · rfl

end BinaryTemplate
