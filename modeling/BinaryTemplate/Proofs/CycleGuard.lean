import Mathlib
import BinaryTemplate.Attribute.Table

/-!
# The guard against cycles

The walk for an attribute stops with an error where an element returns on its own chain. Beside it
stands the same walk without a chain. A call of that walk may not come to an end, so it is run to a
depth of nested calls, and it never ends if no depth is enough. The guard is exact: the guarded walk
fails if and only if the other one never ends, and otherwise both find the same.

An element that ends within some depth does not meet itself on the way: it would have to end within
a smaller depth as well. This is all that the guard relies on, so the chain may forget an element as
soon as its branch is done.
-/

namespace BinaryTemplate.Schema

variable {α : Type} {s : Schema}

/-! ## The walk without a chain -/

/-- A walk without a guard. Its links may come from another such walk, so they depend on the depth
that is left; more depth keeps the links that are known. -/
structure FreeWalk (α : Type) where
  own : Element → Option α
  links : (depth : Nat) → ElementId → Element → Option (List ElementId)
  grows : ∀ {depth more : Nat} {id : ElementId} {e : Element} {next : List ElementId},
    depth ≤ more → links depth id e = some next → links more id e = some next

/-- Asks several elements in turn until one has a value; `none` if one that is asked does not come
to an end. -/
def firstOf (ask : ElementId → Option (Option α)) : List ElementId → Option (Option α)
  | [] => some none
  | id :: rest =>
    match ask id with
    | none => none
    | some (some v) => some (some v)
    | some none => firstOf ask rest

/-- What a walk without a guard finds from `id`; `none` if its calls nest deeper than `depth`. -/
def follow (s : Schema) (w : FreeWalk α) : (depth : Nat) → ElementId → Option (Option α)
  | 0, _ => none
  | depth + 1, id =>
    match s.get? id with
    | none => some none
    | some e =>
      match w.own e with
      | some v => some (some v)
      | none =>
        match w.links depth id e with
        | none => none
        | some next => firstOf (follow s w depth) next

/-- The walk without a guard comes to an end and finds this. -/
def Ends (s : Schema) (w : FreeWalk α) (id : ElementId) (found : Option α) : Prop :=
  ∃ depth, s.follow w depth id = some found

/-- The walk without a guard does not come to an end, however deep its calls may nest. -/
def NeverEnds (s : Schema) (w : FreeWalk α) (id : ElementId) : Prop :=
  ∀ depth, s.follow w depth id = none

theorem firstOf_grows {ask more : ElementId → Option (Option α)}
    (grows : ∀ {id found}, ask id = some found → more id = some found) {ids : List ElementId}
    {found : Option α} (h : firstOf ask ids = some found) : firstOf more ids = some found := by
  induction ids with
  | nil => exact h
  | cons id rest inductionHypothesis =>
    simp only [firstOf] at h ⊢
    cases asked : ask id with
    | none =>
      rw [asked] at h
      cases h
    | some answer =>
      rw [asked] at h
      rw [grows asked]
      cases answer with
      | none => exact inductionHypothesis h
      | some v => exact h

/-- A walk that ends within some depth ends in the same way within every greater one. -/
theorem follow_grows {w : FreeWalk α} {depth more : Nat} (le : depth ≤ more) {id : ElementId}
    {found : Option α} (h : s.follow w depth id = some found) :
    s.follow w more id = some found := by
  induction depth generalizing more id found with
  | zero => cases h
  | succ depth inductionHypothesis =>
    obtain ⟨more, rfl⟩ := Nat.exists_eq_add_of_le' (Nat.lt_of_lt_of_le (Nat.succ_pos depth) le)
    have less : depth ≤ more := by omega
    simp only [follow] at h ⊢
    cases got : s.get? id with
    | none =>
      rw [got] at h
      exact h
    | some e =>
      rw [got] at h
      dsimp only at h ⊢
      cases own : w.own e with
      | some v =>
        rw [own] at h
        exact h
      | none =>
        rw [own] at h
        dsimp only at h ⊢
        cases links : w.links depth id e with
        | none =>
          rw [links] at h
          cases h
        | some next =>
          rw [links] at h
          rw [w.grows less links]
          exact firstOf_grows (inductionHypothesis less) h

theorem Ends.unique {w : FreeWalk α} {id : ElementId} {found found' : Option α}
    (first : s.Ends w id found) (second : s.Ends w id found') : found = found' := by
  obtain ⟨depth, first⟩ := first
  obtain ⟨depth', second⟩ := second
  have left := follow_grows (Nat.le_max_left depth depth') first
  have right := follow_grows (Nat.le_max_right depth depth') second
  exact Option.some.inj (left.symm.trans right)

theorem neverEnds_iff {w : FreeWalk α} {id : ElementId} :
    s.NeverEnds w id ↔ ∀ found, ¬ s.Ends w id found := by
  constructor
  · rintro never found ⟨depth, ended⟩
    cases (never depth).symm.trans ended
  · intro never depth
    cases ended : s.follow w depth id with
    | none => rfl
    | some found => exact absurd ⟨depth, ended⟩ (never found)

/-! ## The guarded walk finds the same -/

/-- Both walks read the same values and go along the same links, where the links are known. -/
structure Guards (s : Schema) (w : Walk α) (free : FreeWalk α) : Prop where
  own : w.own = free.own
  links : ∀ id e next, w.links id e = .ok next ↔ ∃ depth, free.links depth id e = some next

variable {w : Walk α} {free : FreeWalk α}

theorem searchFirst_ends {chain : List ElementId}
    (each : ∀ {id found}, s.search w chain id = .ok found → s.Ends free id found)
    {ids : List ElementId} {found : Option α} (h : s.searchFirst w chain ids = .ok found) :
    ∃ depth, firstOf (s.follow free depth) ids = some found := by
  induction ids with
  | nil =>
    rw [searchFirst] at h
    cases h
    exact ⟨0, rfl⟩
  | cons id rest inductionHypothesis =>
    rw [searchFirst] at h
    cases asked : s.search w chain id with
    | error cycle =>
      rw [asked] at h
      cases h
    | ok answer =>
      rw [asked] at h
      obtain ⟨depth, ended⟩ := each asked
      cases answer with
      | some v =>
        cases h
        refine ⟨depth, ?_⟩
        simp only [firstOf, ended]
      | none =>
        obtain ⟨further, others⟩ := inductionHypothesis h
        -- The deeper one of the two is enough for the first element and for all others.
        refine ⟨max depth further, ?_⟩
        simp only [firstOf, follow_grows (Nat.le_max_left depth further) ended]
        exact firstOf_grows (follow_grows (Nat.le_max_right depth further)) others

/-- What the guarded walk finds, on whatever chain, the walk without a chain finds. -/
theorem Guards.ends (guards : Guards s w free) {chain : List ElementId} {id : ElementId}
    {found : Option α} (h : s.search w chain id = .ok found) : s.Ends free id found := by
  -- The chain grows from call to call, so the induction is on what is left off it.
  induction measured : s.offChain chain using Nat.strongRecOn generalizing chain id found with
  | ind left inductionHypothesis =>
    subst measured
    rw [search] at h
    by_cases onChain : id ∈ chain
    · rw [dif_pos onChain] at h
      cases h
    rw [dif_neg onChain] at h
    split at h
    · rename_i missing
      cases h
      refine ⟨1, ?_⟩
      simp only [follow, missing]
    · rename_i e got
      cases own : w.own e with
      | some v =>
        simp only [own] at h
        cases h
        refine ⟨1, ?_⟩
        simp only [follow, got, ← guards.own, own]
      | none =>
        simp only [own] at h
        cases links : w.links id e with
        | error cycle =>
          rw [links] at h
          cases h
        | ok next =>
          rw [links] at h
          obtain ⟨depth, known⟩ := (guards.links id e next).mp links
          have less := offChain_cons_lt onChain got
          obtain ⟨further, ended⟩ :=
            searchFirst_ends (fun found => inductionHypothesis _ less found rfl) h
          refine ⟨max depth further + 1, ?_⟩
          simp only [follow, got, ← guards.own, own,
            free.grows (Nat.le_max_left depth further) known]
          exact firstOf_grows (follow_grows (Nat.le_max_right depth further)) ended

theorem searchFirst_of_firstOf {chain : List ElementId} {depth : Nat}
    (each : ∀ {id found}, s.follow free depth id = some found → s.search w chain id = .ok found)
    {ids : List ElementId} {found : Option α}
    (h : firstOf (s.follow free depth) ids = some found) :
    s.searchFirst w chain ids = .ok found := by
  induction ids with
  | nil =>
    cases h
    rw [searchFirst]
  | cons id rest inductionHypothesis =>
    rw [searchFirst]
    simp only [firstOf] at h
    cases asked : s.follow free depth id with
    | none =>
      rw [asked] at h
      cases h
    | some answer =>
      rw [asked] at h
      rw [each asked]
      cases answer with
      | none => exact inductionHypothesis h
      | some v =>
        cases h
        rfl

/-- What the walk without a chain finds within some depth, the guarded walk finds on every chain
whose elements do not end within that depth. -/
theorem Guards.search_of_follow (guards : Guards s w free) {depth : Nat} {id : ElementId}
    {found : Option α} (h : s.follow free depth id = some found) {chain : List ElementId}
    (above : ∀ c ∈ chain, s.follow free depth c = none) : s.search w chain id = .ok found := by
  induction depth using Nat.strongRecOn generalizing id found chain with
  | ind depth inductionHypothesis =>
    -- Only the least depth that is enough rules out that `id` is met again below itself.
    by_cases sooner : ∃ less < depth, ∃ found', s.follow free less id = some found'
    · obtain ⟨less, lt, found', ended⟩ := sooner
      have same : found' = found :=
        Option.some.inj ((follow_grows (Nat.le_of_lt lt) ended).symm.trans h)
      rw [← same]
      apply inductionHypothesis less lt ended
      intro c onChain
      cases reached : s.follow free less c with
      | none => rfl
      | some _ => cases (above c onChain).symm.trans (follow_grows (Nat.le_of_lt lt) reached)
    have onChain : id ∉ chain := by
      intro member
      cases (above id member).symm.trans h
    cases depth with
    | zero => cases h
    | succ depth =>
      rw [search, dif_neg onChain]
      simp only [follow] at h
      split
      · rename_i missing
        rw [missing] at h
        cases h
        rfl
      · rename_i e got
        rw [got] at h
        simp only [← guards.own] at h
        cases own : w.own e with
        | some v =>
          rw [own] at h
          cases h
          rfl
        | none =>
          rw [own] at h
          dsimp only at h ⊢
          cases known : free.links depth id e with
          | none =>
            rw [known] at h
            cases h
          | some next =>
            rw [known] at h
            rw [(guards.links id e next).mpr ⟨depth, known⟩]
            apply searchFirst_of_firstOf _ h
            intro other answer ended
            apply inductionHypothesis depth (Nat.lt_succ_self depth) ended
            intro c member
            cases reached : s.follow free depth c with
            | none => rfl
            | some _ =>
              cases member with
              | head => exact absurd ⟨depth, Nat.lt_succ_self depth, _, reached⟩ sooner
              | tail _ member =>
                cases (above c member).symm.trans
                  (follow_grows (Nat.le_succ depth) reached)

/-- The guarded walk finds what the walk without a chain finds. -/
theorem Guards.search_iff (guards : Guards s w free) {id : ElementId} {found : Option α} :
    s.search w [] id = .ok found ↔ s.Ends free id found := by
  constructor
  · exact guards.ends
  · rintro ⟨depth, ended⟩
    exact guards.search_of_follow ended (by simp)

/-- The guarded walk fails where the walk without a chain never ends, and only there. -/
theorem Guards.fails_iff (guards : Guards s w free) {id : ElementId} :
    (∃ cycle, s.search w [] id = .error cycle) ↔ s.NeverEnds free id := by
  rw [neverEnds_iff]
  constructor
  · rintro ⟨cycle, failed⟩ found ended
    cases failed.symm.trans (guards.search_iff.mpr ended)
  · intro never
    cases result : s.search w [] id with
    | error cycle => exact ⟨cycle, rfl⟩
    | ok found => exact absurd (guards.search_iff.mp result) (never found)

/-! ## The element that returns -/

/-- An element lies on a cycle of links that can be reached from `id`. -/
def Loops (link : ElementId → ElementId → Prop) (id looping : ElementId) : Prop :=
  Relation.ReflTransGen link id looping ∧ Relation.TransGen link looping looping

theorem Loops.behind {link : ElementId → ElementId → Prop} {id next looping : ElementId}
    (first : link id next) (h : Loops link next looping) : Loops link id looping :=
  ⟨.head first h.1, h.2⟩

variable {link : ElementId → ElementId → Prop}

theorem searchFirst_loops {chain ids : List ElementId} {id : ElementId} {cycle : CycleError}
    (linked : ∀ next ∈ ids, link id next)
    (each : ∀ next ∈ ids, s.search w chain next = .error cycle → Loops link next cycle.element)
    (h : s.searchFirst w chain ids = .error cycle) : Loops link id cycle.element := by
  induction ids with
  | nil =>
    rw [searchFirst] at h
    cases h
  | cons next rest inductionHypothesis =>
    rw [searchFirst] at h
    cases asked : s.search w chain next with
    | error other =>
      rw [asked] at h
      cases h
      exact (each next (.head _) asked).behind (linked next (.head _))
    | ok answer =>
      rw [asked] at h
      cases answer with
      | some v => cases h
      | none =>
        exact inductionHypothesis (fun other member => linked other (.tail _ member))
          (fun other member => each other (.tail _ member)) h

/-- The element that a failed walk reports lies on a cycle of links. -/
theorem search_loops
    (linked : ∀ {id e next}, s.get? id = some e → w.links id e = .ok next → ∀ b ∈ next, link id b)
    (unknown : ∀ {id e cycle}, s.get? id = some e → w.links id e = .error cycle →
      Loops link id cycle.element)
    {chain : List ElementId} {id : ElementId} {cycle : CycleError}
    (path : ∀ c ∈ chain, Relation.TransGen link c id)
    (h : s.search w chain id = .error cycle) : Loops link id cycle.element := by
  induction measured : s.offChain chain using Nat.strongRecOn generalizing chain id with
  | ind left inductionHypothesis =>
    subst measured
    rw [search] at h
    by_cases onChain : id ∈ chain
    · rw [dif_pos onChain] at h
      cases h
      exact ⟨.refl, path id onChain⟩
    rw [dif_neg onChain] at h
    split at h
    · cases h
    · rename_i e got
      cases own : w.own e with
      | some v =>
        simp only [own] at h
        cases h
      | none =>
        simp only [own] at h
        cases links : w.links id e with
        | error other =>
          rw [links] at h
          cases h
          exact unknown got links
        | ok next =>
          rw [links] at h
          apply searchFirst_loops (linked got links) _ h
          intro b member failed
          apply inductionHypothesis _ (offChain_cons_lt onChain got) _ failed rfl
          -- Every element of the chain reaches the next one through `id`.
          have last : link id b := linked got links b member
          intro c onPath
          cases onPath with
          | head => exact .single last
          | tail _ onPath => exact (path c onPath).tail last

/-! ## Attributes -/

/-- The walk for the structure of a reference, along templates. -/
def structureWalk : FreeWalk ElementId where
  own := Attribute.structure?.own
  links _ _ e := some e.traits.template.toList
  grows _ h := h

/-- The structure that an element refers to as far as attributes of the scope follow it. -/
def targetWithin (s : Schema) (scope : Scope) (depth : Nat) (id : ElementId) (e : Element) :
    Option (Option ElementId) :=
  match scope, e.kind with
  | .identity, _ => some none
  | _, .structRef _ => s.follow structureWalk depth id
  | _, _ => some none

theorem targetWithin_grows {scope : Scope} {depth more : Nat} {id : ElementId} {e : Element}
    {target : Option ElementId} (le : depth ≤ more)
    (h : s.targetWithin scope depth id e = some target) :
    s.targetWithin scope more id e = some target := by
  unfold targetWithin at h ⊢
  split at h
  · exact h
  · exact follow_grows le h
  · exact h

/-- The walk for an attribute: the referenced structure, then the template, then the parent, as far
as the scope of the attribute says. -/
def attributeWalk (s : Schema) (a : Attribute α) : FreeWalk α where
  own := a.own
  links depth id e := (s.targetWithin a.scope depth id e).map fun target =>
    target.toList ++ e.traits.template.toList ++
      (if a.scope = .structural then e.traits.parent.toList else [])
  grows := by
    intro depth more id e next le h
    obtain ⟨target, known, rfl⟩ := Option.map_eq_some_iff.mp h
    rw [targetWithin_grows le known]
    rfl

/-- An element falls back to another one for attributes of some scope. -/
inductive FallsBack (s : Schema) (scope : Scope) : ElementId → ElementId → Prop
  | reference {id target : ElementId} {e : Element} {body : StructRefBody}
      (found : s.get? id = some e) (refers : e.kind = .structRef body)
      (follows : scope ≠ .identity) (named : s.Ends structureWalk id (some target)) :
      FallsBack s scope id target
  | template {id base : ElementId} {e : Element} (found : s.get? id = some e)
      (named : e.traits.template = some base) : FallsBack s scope id base
  | parent {id container : ElementId} {e : Element} (found : s.get? id = some e)
      (follows : scope = .structural) (named : e.traits.parent = some container) :
      FallsBack s scope id container

theorem guards_structure : Guards s
    { key := Attribute.structure?.key
      own := Attribute.structure?.own
      links := fun _ e => .ok e.traits.template.toList } structureWalk where
  own := rfl
  links id e next := by
    constructor
    · rintro ⟨⟩
      exact ⟨0, rfl⟩
    · rintro ⟨_, ⟨⟩⟩
      rfl

theorem structureLink_iff {id : ElementId} {target : Option ElementId} :
    s.structureLink id = .ok target ↔ s.Ends structureWalk id target :=
  guards_structure.search_iff

theorem referenceLink_iff {scope : Scope} {id : ElementId} {e : Element}
    {target : Option ElementId} :
    s.referenceLink scope id e = .ok target ↔
      ∃ depth, s.targetWithin scope depth id e = some target := by
  cases scope with
  | identity => simp [referenceLink, targetWithin, eq_comm]
  | template | structural =>
    cases kind : e.kind with
    | structRef =>
      simp only [referenceLink, targetWithin, kind]
      exact structureLink_iff
    | _ => simp [referenceLink, targetWithin, kind, eq_comm]

theorem guards_attribute (a : Attribute α) :
    Guards s { key := a.key, own := a.own, links := s.fallbacks a.scope } (s.attributeWalk a) where
  own := rfl
  links id e next := by
    simp only [fallbacks, attributeWalk, Option.map_eq_some_iff]
    cases link : s.referenceLink a.scope id e with
    | error cycle =>
      constructor
      · intro h
        cases h
      · rintro ⟨depth, target, known, -⟩
        cases link.symm.trans (referenceLink_iff.mpr ⟨depth, known⟩)
    | ok target =>
      obtain ⟨depth, known⟩ := referenceLink_iff.mp link
      constructor
      · rintro ⟨⟩
        exact ⟨depth, target, known, rfl⟩
      · rintro ⟨depth', target', known', rfl⟩
        cases link.symm.trans (referenceLink_iff.mpr ⟨depth', known'⟩)
        rfl

theorem structureLink_eq_lookup (s : Schema) (id : ElementId) :
    s.structureLink id = s.lookup .structure? id := by
  unfold structureLink lookup
  congr 2
  funext id e
  simp [fallbacks, referenceLink, Attribute.structure?]
  rfl

/-- What a reference does not set itself it takes from its structure, if that has it. -/
theorem lookup_of_reference {a : Attribute α} {id target : ElementId} {e : Element}
    {body : StructRefBody} {v : α} (found : s.get? id = some e) (refers : e.kind = .structRef body)
    (unset : a.own e = none) (follows : a.scope ≠ .identity)
    (named : s.lookup .structure? id = .ok (some target))
    (set : s.lookup a target = .ok (some v)) : s.lookup a id = .ok (some v) := by
  rw [← structureLink_eq_lookup, structureLink_iff] at named
  obtain ⟨linked, named⟩ := named
  obtain ⟨depth, set⟩ := (guards_attribute a).search_iff.mp set
  refine (guards_attribute a).search_iff.mpr ⟨max linked depth + 1, ?_⟩
  have first : s.targetWithin a.scope linked id e = some (some target) := by
    unfold targetWithin
    rw [refers]
    cases scope : a.scope with
    | identity => exact absurd scope follows
    | _ => exact named
  have links : (s.attributeWalk a).links (max linked depth) id e = some (target ::
      (e.traits.template.toList ++
        if a.scope = .structural then e.traits.parent.toList else [])) := by
    show Option.map _ (s.targetWithin a.scope (max linked depth) id e) = _
    rw [targetWithin_grows (Nat.le_max_left ..) first]
    rfl
  have own : (s.attributeWalk a).own e = none := unset
  simp only [follow, found, own, links, firstOf, follow_grows (Nat.le_max_right linked depth) set]

theorem fallsBack_of_fallbacks {scope : Scope} {id : ElementId} {e : Element}
    {next : List ElementId} (found : s.get? id = some e) (h : s.fallbacks scope id e = .ok next)
    {b : ElementId} (member : b ∈ next) : s.FallsBack scope id b := by
  unfold fallbacks at h
  cases link : s.referenceLink scope id e with
  | error cycle =>
    rw [link] at h
    cases h
  | ok target =>
    rw [link] at h
    cases h
    rw [List.mem_append, List.mem_append] at member
    rcases member with (isTarget | isTemplate) | isParent
    · unfold referenceLink at link
      split at link
      · cases link
        cases isTarget
      · rename_i follows refers
        obtain rfl : target = some b := by simpa using isTarget
        exact .reference found refers follows (structureLink_iff.mp link)
      · cases link
        cases isTarget
    · exact .template found (by simpa using isTemplate)
    · by_cases structural : scope = .structural
      · rw [if_pos structural] at isParent
        exact .parent found structural (by simpa using isParent)
      · rw [if_neg structural] at isParent
        cases isParent

/-- A structure link that cannot be found lies behind a cycle of templates. -/
theorem structureLink_loops {scope : Scope} {id : ElementId} {cycle : CycleError}
    (h : s.structureLink id = .error cycle) : Loops (s.FallsBack scope) id cycle.element := by
  apply search_loops _ _ (by simp) h
  · rintro id e _ found ⟨⟩ base named
    exact .template found (by simpa using named)
  · rintro id e cycle _ ⟨⟩

/-- The guard is exact. An attribute is looked up to what the walk without a chain finds; the lookup
fails if and only if that walk never ends, and it then names an element on a cycle of fallback links
that can be reached from the one that was asked. Without such a cycle every lookup succeeds. -/
theorem lookup_exact (s : Schema) (a : Attribute α) (id : ElementId) :
    (∀ found, s.lookup a id = .ok found ↔ s.Ends (s.attributeWalk a) id found) ∧
    ((∃ cycle, s.lookup a id = .error cycle) ↔ s.NeverEnds (s.attributeWalk a) id) ∧
    (∀ cycle, s.lookup a id = .error cycle →
      Relation.ReflTransGen (s.FallsBack a.scope) id cycle.element ∧
        Relation.TransGen (s.FallsBack a.scope) cycle.element cycle.element) ∧
    ((∀ other, Relation.ReflTransGen (s.FallsBack a.scope) id other →
        ¬ Relation.TransGen (s.FallsBack a.scope) other other) →
      ∃ found, s.lookup a id = .ok found) := by
  have guards := guards_attribute (s := s) a
  have loops : ∀ cycle, s.lookup a id = .error cycle →
      Loops (s.FallsBack a.scope) id cycle.element := by
    intro cycle failed
    apply search_loops (fun found links b => fallsBack_of_fallbacks found links) _ (by simp) failed
    -- The links of an element are unknown only where the structure behind it is.
    intro id e cycle _ unknown
    change (s.referenceLink a.scope id e).map _ = .error cycle at unknown
    cases link : s.referenceLink a.scope id e with
    | ok target =>
      rw [link] at unknown
      cases unknown
    | error other =>
      rw [link] at unknown
      cases unknown
      unfold referenceLink at link
      split at link
      · cases link
      · exact structureLink_loops link
      · cases link
  refine ⟨fun found => guards.search_iff, guards.fails_iff, loops, ?_⟩
  intro acyclic
  cases result : s.lookup a id with
  | ok found => exact ⟨found, rfl⟩
  | error cycle =>
    obtain ⟨reached, returns⟩ := loops cycle result
    exact absurd returns (acyclic _ reached)

/-! ## A cycle and a diamond -/

/-- Two elements that are each other's template, and a reference that comes to one template in two
ways: through its structure and by itself. -/
def tangled : Schema where
  elements := #[
    ⟨{ template := some ⟨1⟩ }, .structure {}⟩,
    ⟨{ template := some ⟨0⟩ }, .structure {}⟩,
    ⟨{ template := some ⟨4⟩ }, .structRef { structure? := some ⟨3⟩ }⟩,
    ⟨{ template := some ⟨4⟩ }, .structure {}⟩,
    ⟨{}, .structure {}⟩]
  root := ⟨2⟩

theorem tangled_upward {a b : ElementId} (behind : 2 ≤ a.index)
    (link : tangled.FallsBack .template a b) : a.index < b.index := by
  have known : ∃ e, tangled.get? a = some e := by
    cases link <;> exact ⟨_, ‹_›⟩
  obtain ⟨i⟩ := a
  obtain ⟨e, found⟩ := known
  have small : i < 5 := index_lt_size_of_get? found
  have named : tangled.Ends structureWalk ⟨2⟩ (some ⟨3⟩) := ⟨1, rfl⟩
  dsimp only at behind
  obtain rfl | rfl | rfl : i = 2 ∨ i = 3 ∨ i = 4 := by omega
  · cases link with
    | reference _ _ _ target =>
      cases target.unique named
      decide
    | template got base =>
      cases got
      cases base
      decide
    | parent _ structural _ => cases structural
  · cases link with
    | reference got refers _ _ =>
      cases got
      cases refers
    | template got base =>
      cases got
      cases base
      decide
    | parent _ structural _ => cases structural
  · cases link with
    | reference got refers _ _ =>
      cases got
      cases refers
    | template got base =>
      cases got
      cases base
    | parent _ structural _ => cases structural

theorem tangled_acyclic (other : ElementId)
    (reached : Relation.ReflTransGen (tangled.FallsBack .template) ⟨2⟩ other) :
    ¬ Relation.TransGen (tangled.FallsBack .template) other other := by
  have above : 2 ≤ other.index := by
    induction reached with
    | refl => exact Nat.le_refl 2
    | tail _ link inductionHypothesis =>
      exact Nat.le_of_lt (Nat.lt_of_le_of_lt inductionHypothesis
        (tangled_upward inductionHypothesis link))
  have upward : ∀ {last}, Relation.TransGen (tangled.FallsBack .template) other last →
      other.index < last.index := by
    intro last path
    induction path with
    | single link => exact tangled_upward above link
    | tail _ link inductionHypothesis =>
      have further := tangled_upward (Nat.le_trans above (Nat.le_of_lt inductionHypothesis)) link
      exact Nat.lt_trans inductionHypothesis further
  intro returns
  exact absurd (upward returns) (Nat.lt_irrefl _)

theorem lookup_exact_tangled :
    tangled.lookup .name ⟨0⟩ = .error ⟨"name", ⟨0⟩, 2⟩ ∧
    tangled.NeverEnds (tangled.attributeWalk .name) ⟨0⟩ ∧
    Relation.TransGen (tangled.FallsBack .identity) ⟨0⟩ ⟨0⟩ ∧
    (∀ other, Relation.ReflTransGen (tangled.FallsBack .template) ⟨2⟩ other →
      ¬ Relation.TransGen (tangled.FallsBack .template) other other) ∧
    ∃ found, tangled.lookup .length ⟨2⟩ = .ok found := by
  have failed : tangled.lookup .name ⟨0⟩ = .error ⟨"name", ⟨0⟩, 2⟩ := by cbv
  obtain ⟨-, fails, loops, -⟩ := lookup_exact tangled .name ⟨0⟩
  obtain ⟨-, -, -, resolves⟩ := lookup_exact tangled .length ⟨2⟩
  exact ⟨failed, fails.mp ⟨_, failed⟩, (loops _ failed).2, tangled_acyclic,
    resolves tangled_acyclic⟩

end BinaryTemplate.Schema
