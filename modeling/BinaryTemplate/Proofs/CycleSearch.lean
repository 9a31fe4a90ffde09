import BinaryTemplate.Proofs.LintCycles

/-!
# The search for a way back

The linter's search for a cycle remembers the elements that it has come through. It has found a
cycle when it is back at its start, and there is none through the start when a link ends, when it
dangles, or when the search meets another element again. The elements behind it are different ones
of the schema, so the search is at an end after little more rounds than the schema has elements;
and where it meets one of them again, they are a set that no link leaves and that the start is not
in. So its answer is that of the bounded search, and both find exactly the elements on a cycle.
-/

namespace BinaryTemplate

open Relation (TransGen)

namespace Lint

/-! ## The search -/

/-- The search with the ids that it has seen and the one it has come to. Each round answers or
follows the link once more; no answer within so many rounds is `none`. -/
def search? (s : Schema) (link : Element → Option ElementId) (start : ElementId) :
    (rounds : Nat) → (seen : List ElementId) → (current : Option ElementId) → Option Bool
  | 0, _, _ => none
  | _ + 1, _, none => some false
  | rounds + 1, seen, some id =>
    if id = start then some true
    else if id ∈ seen then some false
    else search? s link start rounds (id :: seen) (step s link id)

/-- Some number of steps, none included, leads to the start. -/
def Returns (next : ElementId → Option ElementId) (start : ElementId)
    (current : Option ElementId) : Prop :=
  ∃ k, (hop next)^[k] current = some start

/-- What the search has come through: different elements other than the start, each with a link to
the current one or to another of them. -/
structure Trail (next : ElementId → Option ElementId) (start : ElementId) (seen : List ElementId)
    (current : Option ElementId) : Prop where
  nodup : seen.Nodup
  away : start ∉ seen
  leads : ∀ id ∈ seen, next id = current ∨ ∃ other ∈ seen, next id = some other

variable {next : ElementId → Option ElementId} {start id : ElementId} {seen : List ElementId}
  {current : Option ElementId} {s : Schema} {link : Element → Option ElementId}

theorem Returns.here : Returns next start (some start) := ⟨0, rfl⟩

theorem not_returns_none : ¬ Returns next start none := by
  rintro ⟨k, reached⟩
  rw [hop_none_iterate] at reached
  cases reached

/-- From any other element the way to the start is the way from the next one. -/
theorem returns_step (other : id ≠ start) :
    Returns next start (some id) ↔ Returns next start (next id) := by
  constructor
  · rintro ⟨_ | k, reached⟩
    · exact absurd (Option.some.inj reached) other
    · exact ⟨k, reached⟩
  · rintro ⟨k, reached⟩
    exact ⟨k + 1, reached⟩

/-- Following the link once or more comes to the start exactly if there is a way from the first
element that the link leads to. -/
theorem returns_next_iff :
    Returns next start (next start) ↔ TransGen (fun a b => next a = some b) start start := by
  rw [transGen_iff_iterate]
  rfl

namespace Trail

theorem nil : Trail next start [] current :=
  ⟨List.nodup_nil, List.not_mem_nil, nofun⟩

/-- The search goes on to an element that it has not seen. -/
theorem forward (trail : Trail next start seen (some id)) (other : id ≠ start)
    (fresh : id ∉ seen) : Trail next start (id :: seen) (next id) where
  nodup := List.nodup_cons.mpr ⟨fresh, trail.nodup⟩
  away := List.not_mem_cons_of_ne_of_not_mem other.symm trail.away
  leads := by
    rintro member (_ | ⟨_, among⟩)
    · exact .inl rfl
    · refine .inr ?_
      rcases trail.leads member among with toCurrent | ⟨another, known, toAnother⟩
      · exact ⟨id, List.mem_cons_self, toCurrent⟩
      · exact ⟨another, List.mem_cons_of_mem id known, toAnother⟩

/-- No way leads to the start from an element that is met again: no link leaves what the search has
come through. -/
theorem not_returns (trail : Trail next start seen (some id)) (again : id ∈ seen) :
    ¬ Returns next start (some id) := by
  have stays : ∀ k, ∃ other ∈ seen, (hop next)^[k] (some id) = some other := by
    intro k
    induction k with
    | zero => exact ⟨id, again, rfl⟩
    | succ k inductionHypothesis =>
      obtain ⟨other, known, reached⟩ := inductionHypothesis
      rw [Function.iterate_succ_apply', reached]
      rcases trail.leads other known with toCurrent | onward
      · exact ⟨id, again, toCurrent⟩
      · exact onward
  rintro ⟨k, reached⟩
  obtain ⟨other, known, onTrail⟩ := stays k
  cases reached.symm.trans onTrail
  exact trail.away known

/-- As long as the search is at an element, those that it has seen have a link, so none of them
dangles and the schema has as many. -/
theorem length_le (trail : Trail (step s link) start seen (some id)) : seen.length ≤ s.size := by
  have listed : seen ⊆ s.ids := by
    intro other known
    obtain ⟨onward, taken⟩ : ∃ onward, step s link other = some onward := by
      rcases trail.leads other known with toCurrent | ⟨onward, -, toOther⟩
      · exact ⟨id, toCurrent⟩
      · exact ⟨onward, toOther⟩
    obtain ⟨e, found, -⟩ := Option.bind_eq_some_iff.mp taken
    exact Schema.mem_ids found
  have bound := (trail.nodup.subperm listed).length_le
  rwa [Schema.ids, List.length_map, List.length_range] at bound

end Trail

/-- The search answers whether there is a way to the start, unless it is given too few rounds. At an
element it needs one for each of the schema that it has not seen, and two more: one for an element
that dangles and one to end. -/
theorem search?_answers {rounds : Nat} (trail : Trail (step s link) start seen current)
    (enough : current.isSome = true → s.size + 2 ≤ rounds + seen.length) (positive : 0 < rounds) :
    ∃ answer, search? s link start rounds seen current = some answer ∧
      (answer = true ↔ Returns (step s link) start current) := by
  induction rounds generalizing seen current with
  | zero => cases positive
  | succ rounds inductionHypothesis =>
    cases current with
    | none => exact ⟨false, rfl, iff_of_false Bool.false_ne_true not_returns_none⟩
    | some id =>
      have known := trail.length_le
      have rounds' := enough rfl
      by_cases back : id = start
      · subst back
        exact ⟨true, if_pos rfl, iff_of_true rfl .here⟩
      · by_cases again : id ∈ seen
        · exact ⟨false, by rw [search?, if_neg back, if_pos again],
            iff_of_false Bool.false_ne_true (trail.not_returns again)⟩
        · obtain ⟨answer, found, decides⟩ := inductionHypothesis (trail.forward back again)
            (fun _ => by rw [List.length_cons]; omega) (by omega)
          refine ⟨answer, ?_, decides.trans (returns_step back).symm⟩
          rw [search?, if_neg back, if_neg again, found]

/-- Given as many rounds as the schema has elements and two more, or any greater number, the search
has the answer of the bounded one. -/
theorem search?_eq_reachesItself {rounds : Nat} (enough : s.size + 2 ≤ rounds) :
    search? s link start rounds [] (step s link start) = some (reachesItself s link start) := by
  have noTrail : Trail (step s link) start [] (step s link start) := .nil
  obtain ⟨answer, found, decides⟩ := search?_answers noTrail (fun _ => enough) (by omega)
  rw [returns_next_iff, ← reachesItself_iff] at decides
  rw [found, Bool.eq_iff_iff.mpr decides]

/-! ## What the rules find -/

/-- A finding that is not on a cycle of links and not on a child. -/
def Elsewhere (f : Finding) : Prop :=
  f.1 ≠ .extendsCycle ∧ f.1 ≠ .parentCycle ∧ ∀ child, f ≠ dangling "child" child

theorem elsewhere_of_rule {f : Finding}
    (other : f.1 ∉ [LintRule.extendsCycle, .parentCycle, .danglingId]) : Elsewhere f := by
  simp only [List.mem_cons, List.not_mem_nil, or_false, not_or] at other
  obtain ⟨notExtends, notParent, notDangling⟩ := other
  exact ⟨notExtends, notParent, fun child same => notDangling (congrArg Prod.fst same)⟩

/-- The text of a finding starts with the name of the link, and only children start with a `c`. -/
theorem elsewhere_dangling {link : String} {first : Char} (starts : link.toList.head? = some first)
    (other : first ≠ 'c') (target : ElementId) : Elsewhere (dangling link target) := by
  refine ⟨nofun, nofun, fun child same => other ?_⟩
  have texts := congrArg (fun f : Finding => f.2.toList.head?) same
  simp only [dangling, String.toList_append, List.head?_append, starts, Option.some_or] at texts
  exact Option.some.inj texts

section

variable {e : Element} {f : Finding}

theorem elsewhere_of_danglingLink {link : String} {target : Option ElementId} {first : Char}
    (starts : link.toList.head? = some first) (other : first ≠ 'c')
    (finding : f ∈ danglingLink s link target) : Elsewhere f := by
  have found : ∃ id, f = dangling link id := by
    unfold danglingLink at finding
    grind
  obtain ⟨id, rfl⟩ := found
  exact elsewhere_dangling starts other id

theorem elsewhere_of_checkLink {target : Except CycleError (Option ElementId)} {what : String}
    {isRight : Kind → Bool} {rule : LintRule} {first : Char}
    (starts : what.toList.head? = some first) (other : first ≠ 'c')
    (otherRule : rule ∉ [LintRule.extendsCycle, .parentCycle, .danglingId])
    (finding : f ∈ checkLink s target what isRight rule) : Elsewhere f := by
  have found : f.1 = rule ∨ ∃ id, f = dangling what id := by
    unfold checkLink at finding
    grind
  rcases found with rfl | ⟨id, rfl⟩
  · exact elsewhere_of_rule otherRule
  · exact elsewhere_dangling starts other id

theorem elsewhere_of_checkOffset {n : Node s} (finding : f ∈ checkOffset n) : Elsewhere f := by
  unfold checkOffset at finding
  rw [List.mem_append, List.mem_append] at finding
  rcases finding with (references | relativeTo) | referencedSize
  · split at references
    · obtain rfl := List.mem_singleton.mp references
      exact elsewhere_of_rule (by decide)
    · exact elsewhere_of_danglingLink rfl (by decide) references
  · exact elsewhere_of_danglingLink rfl (by decide) relativeTo
  · exact elsewhere_of_danglingLink rfl (by decide) referencedSize

theorem elsewhere_of_checkKind {n : Node s} (finding : f ∈ checkKind n) : Elsewhere f := by
  unfold checkKind at finding
  split at finding
  · exact elsewhere_of_danglingLink rfl (by decide) finding
  · exact elsewhere_of_checkLink rfl (by decide) (by decide) finding
  · exact elsewhere_of_checkLink rfl (by decide) (by decide) finding
  · split at finding
    · cases finding
    · exact elsewhere_of_checkLink rfl (by decide) (by decide) finding
  · exact elsewhere_of_checkOffset finding
  · cases finding

/-- Of the findings on the template, those that are on a cycle say so. -/
theorem checkTemplate_split (s : Schema) (id : ElementId) (e : Element) :
    ∃ others, (∀ f ∈ others, Elsewhere f) ∧
      checkTemplate s id e = others ++ if reachesItself s (·.traits.template) id then
        [(.extendsCycle, "extends chain loops back to this element")] else [] := by
  refine ⟨_, fun f finding => ?_, rfl⟩
  have found : f.1 = .extendsKindMismatch ∨ ∃ base, f = dangling "extends" base := by grind
  rcases found with rule | ⟨base, rfl⟩
  · exact elsewhere_of_rule (by simp [rule])
  · exact elsewhere_dangling rfl (by decide) base

theorem checkParent_split (s : Schema) (id : ElementId) (e : Element) :
    ∃ others, (∀ f ∈ others, Elsewhere f) ∧
      checkParent s id e = others ++ if reachesItself s (·.traits.parent) id then
        [(.parentCycle, "parent chain loops back to this element")] else [] := by
  refine ⟨_, fun f finding => ?_, rfl⟩
  have found : f.1 = .nonContainerParent ∨ ∃ parent, f = dangling "parent" parent := by grind
  rcases found with rule | ⟨parent, rfl⟩
  · exact elsewhere_of_rule (by simp [rule])
  · exact elsewhere_dangling rfl (by decide) parent

theorem dangling_of_checkChildren (finding : f ∈ checkChildren s e) :
    ∃ child ∈ e.kind.children, s.get? child = none ∧ f = dangling "child" child := by
  obtain ⟨child, declared, finding⟩ := List.mem_flatMap.mp finding
  refine ⟨child, declared, ?_⟩
  by_cases missing : (s.get? child).isNone = true
  · rw [danglingLink, if_pos missing, List.mem_singleton] at finding
    exact ⟨Option.isNone_iff_eq_none.mp missing, finding⟩
  · rw [danglingLink, if_neg missing] at finding
    cases finding

end

/-! ## What the linter reports -/

/-- The elements that a rule has findings on, in order and as often as it has. -/
def reported (s : Schema) (rule : LintRule) : List ElementId :=
  (s.lint.filter fun m => m.rule == rule).map (·.element)

theorem map_id_nodes (s : Schema) : (s.ids.filterMap s.node?).map (·.id) = s.ids := by
  have each : ∀ id ∈ s.ids, (s.node? id).map (·.id) = some id := by
    intro id listed
    obtain ⟨i, member, rfl⟩ := List.mem_map.mp listed
    have inRange : i < s.elements.size := List.mem_range.mp member
    have found : s.get? ⟨i⟩ = some s.elements[i] := Array.getElem?_eq_getElem inRange
    obtain ⟨n, named, same⟩ := Schema.node?_of_get? found
    rw [named, Option.map_some, same]
  rw [List.map_filterMap, List.filterMap_congr each, List.filterMap_some]

theorem flatMap_if_eq_filter (p : ElementId → Bool) (ids : List ElementId) :
    (ids.flatMap fun id => if p id then [id] else []) = ids.filter p := by
  induction ids with
  | nil => rfl
  | cons id ids inductionHypothesis =>
    rw [List.flatMap_cons, inductionHypothesis, List.filter_cons]
    split <;> rfl

/-- A rule that has at most one finding on an element reports those that it has one on, in the order
of the schema. -/
theorem reported_eq_filter {rule : LintRule} {text : String} {p : ElementId → Bool}
    (finds : ∀ n : Node s, (checkNode n).filter (·.1 == rule) =
      if p n.id then [(rule, text)] else []) : reported s rule = s.ids.filter p := by
  have each (n : Node s) : (((checkNode n).filter (·.1 == rule)).map fun _ => n.id) =
      if p n.id then [n.id] else [] := by
    rw [finds]
    split <;> rfl
  calc reported s rule
    _ = (s.ids.filterMap s.node?).flatMap fun n =>
          ((checkNode n).filter (·.1 == rule)).map fun _ => n.id := by
        simp only [reported, Schema.lint, List.filter_flatMap, List.map_flatMap, List.filter_map,
          List.map_map]
        rfl
    _ = (s.ids.filterMap s.node?).flatMap fun n => if p n.id then [n.id] else [] := by
        simp only [each]
    _ = ((s.ids.filterMap s.node?).map (·.id)).flatMap fun id => if p id then [id] else [] := by
        rw [List.flatMap_map]
    _ = s.ids.filter p := by rw [map_id_nodes, flatMap_if_eq_filter]

theorem filter_of_elsewhere {findings : List Finding} {rule : LintRule}
    (others : ∀ f ∈ findings, Elsewhere f) (cycle : rule = .extendsCycle ∨ rule = .parentCycle) :
    findings.filter (·.1 == rule) = [] := by
  refine List.filter_eq_nil_iff.mpr fun f member same => ?_
  obtain ⟨notExtends, notParent, -⟩ := others f member
  rcases cycle with rfl | rfl
  · exact notExtends (beq_iff_eq.mp same)
  · exact notParent (beq_iff_eq.mp same)

theorem filter_checkChildren {e : Element} {rule : LintRule} (other : rule ≠ .danglingId) :
    (checkChildren s e).filter (·.1 == rule) = [] := by
  refine List.filter_eq_nil_iff.mpr fun f member same => other ?_
  obtain ⟨child, -, -, rfl⟩ := dangling_of_checkChildren member
  exact (beq_iff_eq.mp same).symm

/-- What is found on cycles is found by the two searches. -/
theorem filter_checkNode (n : Node s) {rule : LintRule}
    (cycle : rule = .extendsCycle ∨ rule = .parentCycle) :
    (checkNode n).filter (·.1 == rule) =
      List.filter (·.1 == rule) ((if reachesItself s (·.traits.template) n.id then
          [(.extendsCycle, "extends chain loops back to this element")] else []) ++
        if reachesItself s (·.traits.parent) n.id then
          [(.parentCycle, "parent chain loops back to this element")] else []) := by
  obtain ⟨templates, noCycle, template⟩ := checkTemplate_split s n.id n.element
  obtain ⟨parents, noCycle', parent⟩ := checkParent_split s n.id n.element
  have children : (checkChildren s n.element).filter (·.1 == rule) = [] :=
    filter_checkChildren (by rcases cycle with rfl | rfl <;> decide)
  have kind : (checkKind n).filter (·.1 == rule) = [] :=
    filter_of_elsewhere (fun _ => elsewhere_of_checkKind) cycle
  rw [checkNode, template, parent]
  simp only [List.filter_append, filter_of_elsewhere noCycle cycle,
    filter_of_elsewhere noCycle' cycle, children, kind, List.nil_append, List.append_nil]

theorem filter_extendsCycle (n : Node s) : (checkNode n).filter (·.1 == .extendsCycle) =
    if reachesItself s (·.traits.template) n.id then
      [(.extendsCycle, "extends chain loops back to this element")] else [] := by
  rw [filter_checkNode n (.inl rfl)]
  split <;> split <;> rfl

theorem filter_parentCycle (n : Node s) : (checkNode n).filter (·.1 == .parentCycle) =
    if reachesItself s (·.traits.parent) n.id then
      [(.parentCycle, "parent chain loops back to this element")] else [] := by
  rw [filter_checkNode n (.inr rfl)]
  split <;> split <;> rfl

theorem mem_ids_of_cycle (cycle : TransGen (fun a b => step s link a = some b) start start) :
    start ∈ s.ids := by
  obtain ⟨onward, taken, -⟩ := TransGen.head'_iff.mp cycle
  obtain ⟨e, found, -⟩ := Option.bind_eq_some_iff.mp taken
  exact Schema.mem_ids found

theorem nodup_ids (s : Schema) : s.ids.Nodup :=
  List.nodup_range.map fun _ _ same => congrArg ElementId.index same

/-- The elements that a rule for a cycle reports are those on a cycle of its link, each once. -/
theorem reported_cycle {rule : LintRule}
    (reports : reported s rule = s.ids.filter fun id => reachesItself s link id) :
    (reported s rule).Nodup ∧ ∀ id, id ∈ reported s rule ↔
      TransGen (fun a b => step s link a = some b) id id := by
  rw [reports]
  refine ⟨(nodup_ids s).filter _, fun id => ?_⟩
  rw [List.mem_filter, reachesItself_iff]
  exact ⟨And.right, fun cycle => ⟨mem_ids_of_cycle cycle, cycle⟩⟩

theorem reported_extendsCycle (s : Schema) :
    reported s .extendsCycle = s.ids.filter fun id => reachesItself s (·.traits.template) id :=
  reported_eq_filter filter_extendsCycle

theorem reported_parentCycle (s : Schema) :
    reported s .parentCycle = s.ids.filter fun id => reachesItself s (·.traits.parent) id :=
  reported_eq_filter filter_parentCycle

/-- The search for a way back is exact, whatever link it follows and wherever links dangle or close
cycles: it is at an end after two rounds more than the schema has elements, and its answer is yes
exactly if following the link one or more times from the start comes back to the start. So the
linter reports a cycle of templates or of parents for exactly the elements on one, each once, and
for none that merely leads into one. -/
theorem cycle_search_exact (s : Schema) (link : Element → Option ElementId) (start : ElementId) :
    (∃ answer,
      (∀ more, search? s link start (s.size + 2 + more) [] (step s link start) = some answer) ∧
      reachesItself s link start = answer ∧
      (answer = true ↔ TransGen (fun a b => step s link a = some b) start start)) ∧
    ((reported s .extendsCycle).Nodup ∧ ∀ id, id ∈ reported s .extendsCycle ↔
      TransGen (fun a b => step s (·.traits.template) a = some b) id id) ∧
    ((reported s .parentCycle).Nodup ∧ ∀ id, id ∈ reported s .parentCycle ↔
      TransGen (fun a b => step s (·.traits.parent) a = some b) id id) :=
  ⟨⟨reachesItself s link start, fun _ => search?_eq_reachesItself (Nat.le_add_right _ _), rfl,
    reachesItself_iff⟩, reported_cycle (reported_extendsCycle s),
    reported_cycle (reported_parentCycle s)⟩

/-- Two numbers with the second one as template, which is its own template. -/
def leadingIn : Schema where
  elements := #[{ traits := { template := some ⟨1⟩ }, kind := .number {} },
    { traits := { template := some ⟨1⟩ }, kind := .number {} }]
  root := ⟨0⟩

example : reported leadingIn .extendsCycle = [⟨1⟩] := by decide

end Lint

end BinaryTemplate
