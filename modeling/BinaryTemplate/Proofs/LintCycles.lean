import Mathlib
import BinaryTemplate.Lint

/-!
# Cycles that the linter searches for

The linter follows one link of an element, template or parent, for as many steps as the schema has
elements. That is far enough: an element that comes back to itself does so for the first time after
visiting pairwise different elements, and all of them are in the schema. So the search finds the
elements that lie on a cycle of the link, and no others.
-/

namespace BinaryTemplate

theorem Schema.mem_ids {s : Schema} {id : ElementId} {e : Element} (found : s.get? id = some e) :
    id ∈ s.ids := by
  simp only [ids, List.mem_map, List.mem_range]
  exact ⟨id.index, index_lt_size_of_get? found, rfl⟩

namespace Lint

/-- The messages are the findings on the nodes of the schema. -/
theorem mem_lint_iff {s : Schema} {m : LintMessage} : m ∈ s.lint ↔
    ∃ n : Node s, (m.rule, m.message) ∈ checkNode n ∧ m.element = n.id ∧ m.name = n.label := by
  simp only [Schema.lint, List.mem_flatMap, List.mem_filterMap, List.mem_map]
  constructor
  · rintro ⟨n, -, f, finding, rfl⟩
    exact ⟨n, finding, rfl, rfl⟩
  · rintro ⟨n, finding, element, name⟩
    refine ⟨n, ⟨n.id, Schema.mem_ids n.found, Schema.node?_of_id n⟩, _, finding, ?_⟩
    rw [← element, ← name]

open Function (iterate_injOn_Iio_minimalPeriod minimalPeriod)

/-- A step from wherever the steps before have led. -/
def hop (next : ElementId → Option ElementId) (current : Option ElementId) : Option ElementId :=
  current.bind next

variable {next : ElementId → Option ElementId} {start : ElementId}

theorem hop_none_iterate (k : Nat) : (hop next)^[k] none = none :=
  Function.iterate_fixed rfl k

/-- The search finds what is reached in fewer steps than it may take. -/
theorem comesTo_iff {steps : Nat} {current : Option ElementId} :
    comesTo next start steps current = true ↔ ∃ k < steps, (hop next)^[k] current = some start := by
  induction steps generalizing current with
  | zero => simp [comesTo]
  | succ steps inductionHypothesis =>
    cases current with
    | none => simp [comesTo, hop_none_iterate]
    | some id =>
      simp only [comesTo, Bool.or_eq_true, beq_iff_eq, inductionHypothesis]
      constructor
      · rintro (rfl | ⟨k, less, reached⟩)
        · exact ⟨0, Nat.succ_pos steps, rfl⟩
        · exact ⟨k + 1, Nat.succ_lt_succ less, reached⟩
      · rintro ⟨_ | k, less, reached⟩
        · exact .inl (Option.some.inj reached)
        · exact .inr ⟨k, Nat.lt_of_succ_lt_succ less, reached⟩

/-- One or more steps lead from one element to another. -/
theorem transGen_iff_iterate {id last : ElementId} :
    Relation.TransGen (fun a b => next a = some b) id last ↔
      ∃ k, (hop next)^[k + 1] (some id) = some last := by
  constructor
  · intro path
    induction path with
    | single link => exact ⟨0, link⟩
    | tail _ link inductionHypothesis =>
      obtain ⟨k, reached⟩ := inductionHypothesis
      refine ⟨k + 1, ?_⟩
      rw [Function.iterate_succ_apply', reached]
      exact link
  · rintro ⟨k, reached⟩
    induction k generalizing last with
    | zero => exact .single reached
    | succ k inductionHypothesis =>
      rw [Function.iterate_succ_apply'] at reached
      obtain ⟨before, known, link⟩ := Option.bind_eq_some_iff.mp reached
      exact (inductionHypothesis known).tail link

variable {s : Schema} {link : Element → Option ElementId}

theorem exists_index_lt_of_hop {current : Option ElementId} {id : ElementId}
    (h : hop (step s link) current = some id) : ∃ i < s.size, current = some ⟨i⟩ := by
  obtain ⟨before, rfl, taken⟩ := Option.bind_eq_some_iff.mp h
  obtain ⟨e, found, -⟩ := Option.bind_eq_some_iff.mp taken
  exact ⟨before.index, Schema.index_lt_size_of_get? found, rfl⟩

/-- An element that comes back to itself at all comes back within as many steps as the schema has
elements. -/
theorem minimalPeriod_le_size {k : Nat}
    (returns : (hop (step s link))^[k + 1] (some start) = some start) :
    minimalPeriod (hop (step s link)) (some start) ≤ s.size := by
  -- Every element on the way goes on, so none of them dangles.
  have inSchema : ∀ i < minimalPeriod (hop (step s link)) (some start),
      ∃ j < s.size, (hop (step s link))^[i] (some start) = some ⟨j⟩ := by
    intro i less
    have within : i < k + 1 := Nat.lt_of_lt_of_le less
      (Function.IsPeriodicPt.minimalPeriod_le (Nat.succ_pos k) returns)
    have goesOn : (hop (step s link))^[k + 1 - (i + 1)]
        (hop (step s link) ((hop (step s link))^[i] (some start))) = some start := by
      rw [← Function.iterate_succ_apply' (hop (step s link)) i, ← Function.iterate_add_apply]
      rwa [Nat.sub_add_cancel within]
    cases taken : hop (step s link) ((hop (step s link))^[i] (some start)) with
    | none =>
      rw [taken, hop_none_iterate] at goesOn
      cases goesOn
    | some id => exact exists_index_lt_of_hop taken
  have card := Finset.card_le_card_of_injOn (s := Finset.range _)
    (t := (Finset.range s.size).image fun j => some (ElementId.mk j))
    (fun i => (hop (step s link))^[i] (some start))
    (fun i member => by
      obtain ⟨j, less, same⟩ := inSchema i (Finset.mem_range.mp member)
      exact Finset.mem_image.mpr ⟨j, Finset.mem_range.mpr less, same.symm⟩)
    (fun i first j second same => iterate_injOn_Iio_minimalPeriod
      (Finset.mem_range.mp first) (Finset.mem_range.mp second) same)
  rw [Finset.card_range] at card
  exact card.trans (Finset.card_image_le.trans_eq (Finset.card_range _))

/-- The search for a way back is exact. -/
theorem reachesItself_iff :
    reachesItself s link start = true ↔
      Relation.TransGen (fun a b => step s link a = some b) start start := by
  rw [reachesItself, comesTo_iff, transGen_iff_iterate]
  constructor
  · rintro ⟨k, -, reached⟩
    exact ⟨k, reached⟩
  · rintro ⟨k, returns⟩
    have positive : 0 < minimalPeriod (hop (step s link)) (some start) :=
      Function.IsPeriodicPt.minimalPeriod_pos (Nat.succ_pos k) returns
    obtain ⟨first, period⟩ := Nat.exists_eq_add_of_le' positive
    refine ⟨first, ?_, ?_⟩
    · have bounded := minimalPeriod_le_size returns
      omega
    · have least := Function.iterate_minimalPeriod (f := hop (step s link)) (x := some start)
      rw [period] at least
      exact least

end Lint

end BinaryTemplate
