import Mathlib
import BinaryTemplate.Value.Validation

/-!
# Valid trees

What the validation of a tree of values decides, said without it: a value is sound if its element
exists, it ends at a position, and its children, which only a container has, tile it from its first
to its last byte. A tree is valid if and only if every value of it and of its side trees is sound.
The values without children then tile every value whose tree they end.
-/

namespace BinaryTemplate

/-- Grammars, structures and references to structures. -/
inductive Kind.IsContainer : Kind → Prop
  | grammar (body : GrammarBody) : IsContainer (.grammar body)
  | «structure» (body : StructureBody) : IsContainer (.structure body)
  | structRef (body : StructRefBody) : IsContainer (.structRef body)

theorem Kind.producesChildren_iff {k : Kind} : k.producesChildren = true ↔ k.IsContainer := by
  constructor
  · intro produces
    cases k with
    | grammar body => exact .grammar body
    | «structure» body => exact .structure body
    | structRef body => exact .structRef body
    | _ => cases produces
  · rintro (_ | _ | _) <;> rfl

namespace Value

/-- A value is part of a tree: the tree itself, or part of a child or of a side tree. -/
inductive Within (w : Value) : Value → Prop
  | self : Within w w
  | child {v c : Value} (member : c ∈ v.children) (within : Within w c) : Within w v
  | side {v c : Value} (referenced : v.referenced? = some c) (within : Within w c) : Within w v

theorem Within.trans {u v w : Value} (inner : Within u w) (outer : Within w v) : Within u v := by
  induction outer with
  | self => exact inner
  | child member _ inside => exact .child member inside
  | side referenced _ inside => exact .side referenced inside

/-- Values follow one another from a start to a stop without gap or overlap. -/
def Tiles : Nat → List Value → Nat → Prop
  | start, [], stop => start = stop
  | start, v :: vs, stop => v.offset = start ∧ Tiles (v.offset + v.len) vs stop

/-- A value is as a valid tree demands it: the element exists, the value ends at a position, only
containers have children, and these tile the value. -/
structure Sound (s : Schema) (v : Value) : Prop where
  known : (s.get? v.element).isSome = true
  fits : v.offset + v.len < positionLimit
  container : v.children ≠ [] → ∃ e, s.get? v.element = some e ∧ e.kind.IsContainer
  tiles : v.children ≠ [] → Tiles v.offset v.children (v.offset + v.len)

/-- Every value of a tree is sound. -/
def AllSound (s : Schema) (v : Value) : Prop := ∀ w, Within w v → Sound s w

theorem stop_eq {v : Value} (fits : v.offset + v.len < positionLimit) :
    v.stop = v.offset + v.len := by
  unfold stop
  omega

/-- The values of a tree are its root, those of its children, and those of its side tree. -/
theorem allSound_iff {s : Schema} {v : Value} :
    v.AllSound s ↔ Sound s v ∧ (∀ c ∈ v.children, c.AllSound s) ∧
      ∀ c, v.referenced? = some c → c.AllSound s := by
  constructor
  · intro all
    exact ⟨all v .self, fun c member w within => all w (.child member within),
      fun c referenced w within => all w (.side referenced within)⟩
  · rintro ⟨own, children, side⟩ w within
    cases within with
    | self => exact own
    | child member within => exact children _ member w within
    | side referenced within => exact side _ referenced w within

/-- What holds of a value once it holds of its children and of its side tree holds of every
value. -/
@[elab_as_elim] theorem tree_induction {motive : Value → Prop}
    (step : ∀ v, (∀ c ∈ v.children, motive c) → (∀ c, v.referenced? = some c → motive c) →
      motive v) (v : Value) : motive v := by
  -- Children and side trees are smaller terms than the value that they belong to.
  refine step v ?_ ?_
  · intro c member
    have smaller : sizeOf c < sizeOf v := by
      have inside := List.sizeOf_lt_of_mem member
      cases v
      simp only [mk.sizeOf_spec] at inside ⊢
      omega
    exact tree_induction step c
  · intro c referenced
    have smaller : sizeOf c < sizeOf v := by
      obtain ⟨element, offset, len, order, payload, children⟩ := v
      rcases payload with _ | _ | _ | _ | ⟨pointer, target, side⟩ | _
      case offset =>
        obtain rfl : side = some c := referenced
        simp only [mk.sizeOf_spec, Payload.offset.sizeOf_spec, Option.some.sizeOf_spec]
        omega
      all_goals cases referenced
    exact tree_induction step c
termination_by sizeOf v

/-! ## What the validation decides -/

theorem bind_eq_ok_iff {ε : Type} {first rest : Except ε Unit} :
    (do first; rest) = .ok () ↔ first = .ok () ∧ rest = .ok () := by
  rcases first with e | ⟨⟩ <;> simp [bind, Except.bind]

theorem mapError_eq_ok_iff {ε δ : Type} {result : Except ε Unit} {f : ε → δ} :
    result.mapError f = .ok () ↔ result = .ok () := by
  rcases result with e | ⟨⟩ <;> simp [Except.mapError]

/-- The last check of a value is that of its side tree. -/
theorem side_eq_ok_iff {s : Schema} {v : Value} {f : ValidationError → ValidationError} :
    (match v.payload with
      | .offset _ _ (some side) => (validate s side).mapError f
      | _ => pure ()) = .ok () ↔
      ∀ c, v.referenced? = some c → c.validate s = .ok () := by
  unfold referenced?
  rcases v.payload with _ | _ | _ | _ | ⟨pointer, target, _ | side⟩ | _
  case offset.some => simp [mapError_eq_ok_iff]
  all_goals simp [pure, Except.pure]

/-- One level of the validation: the value on its own, its children in turn, the side tree. -/
theorem validate_eq_ok_iff_level {s : Schema} {v : Value} :
    v.validate s = .ok () ↔
      (∃ e, s.get? v.element = some e ∧ (v.children ≠ [] → e.kind.IsContainer)) ∧
        v.offset + v.len < positionLimit ∧
        (v.children ≠ [] →
          validateTiling s (v.label s) (v.offset + v.len) v.offset v.children = .ok ()) ∧
        ∀ c, v.referenced? = some c → c.validate s = .ok () := by
  -- The checks are followed in their order, and each that refuses the value ends a branch.
  have last := side_eq_ok_iff (s := s) (v := v) (f := .sideTree (v.label s))
  obtain ⟨element, offset, len, order, payload, children⟩ := v
  rw [validate.eq_def]
  dsimp only at last ⊢
  cases found : s.get? element with
  | none => simp [throw, throwThe, MonadExceptOf.throw]
  | some e =>
    dsimp only
    by_cases beyond : positionLimit ≤ offset + len
    · rw [if_pos beyond]
      constructor
      · rintro ⟨⟩
      · rintro ⟨-, fits, -⟩
        exact absurd fits (Nat.not_lt.mpr beyond)
    rw [if_neg beyond]
    have fits : offset + len < positionLimit := Nat.lt_of_not_le beyond
    by_cases none : children = []
    · subst none
      refine Iff.trans last ?_
      simp [fits]
    rw [if_pos (by simpa using none)]
    by_cases produces : e.kind.producesChildren = true
    · have container := Kind.producesChildren_iff.mp produces
      rw [if_neg (by simp [produces])]
      refine (bind_eq_ok_iff.trans (and_congr_right fun _ => last)).trans ?_
      simp [none, container, fits]
    · rw [if_pos (by simpa using produces)]
      constructor
      · rintro ⟨⟩
      · rintro ⟨⟨_, same, container⟩, -⟩
        cases same
        exact absurd (Kind.producesChildren_iff.mpr (container none)) produces

theorem validateTiling_cons {s : Schema} {parent : String} {stop start : Nat} {v : Value}
    {vs : List Value} :
    validateTiling s parent stop start (v :: vs) = .ok () ↔
      v.offset = start ∧ v.validate s = .ok () ∧
        validateTiling s parent stop v.stop vs = .ok () := by
  rw [validateTiling]
  by_cases starts : v.offset = start
  · rw [if_neg (by simpa using starts), bind_eq_ok_iff]
    simp [starts]
  · rw [if_pos starts]
    constructor
    · rintro ⟨⟩
    · rintro ⟨same, -⟩
      exact absurd same starts

/-- The walk along the children caps the end of each of them, which makes no difference, since
children that end past the last position are refused before. -/
theorem validateTiling_eq_ok_iff {s : Schema} {parent : String} {stop start : Nat}
    {vs : List Value} (decides : ∀ v ∈ vs, v.validate s = .ok () ↔ v.AllSound s) :
    validateTiling s parent stop start vs = .ok () ↔
      Tiles start vs stop ∧ ∀ v ∈ vs, v.AllSound s := by
  induction vs generalizing start with
  | nil =>
    rw [validateTiling, Tiles]
    by_cases ends : start = stop <;> simp [ends, pure, Except.pure, throw, throwThe,
      MonadExceptOf.throw]
  | cons v vs inductionHypothesis =>
    obtain ⟨own, others⟩ := List.forall_mem_cons.mp decides
    rw [validateTiling_cons, own, inductionHypothesis others, Tiles, List.forall_mem_cons]
    constructor
    · rintro ⟨starts, sound, tiles, rest⟩
      rw [stop_eq (sound v .self).fits] at tiles
      exact ⟨⟨starts, tiles⟩, sound, rest⟩
    · rintro ⟨⟨starts, tiles⟩, sound, rest⟩
      rw [← stop_eq (sound v .self).fits] at tiles
      exact ⟨starts, sound, tiles, rest⟩

/-- The validation accepts a tree if and only if every value of it is sound. -/
theorem validate_eq_ok_iff {s : Schema} (v : Value) : v.validate s = .ok () ↔ v.AllSound s := by
  induction v using tree_induction with
  | step v children side =>
    rw [validate_eq_ok_iff_level, allSound_iff, forall₂_congr side,
      validateTiling_eq_ok_iff children]
    constructor
    · rintro ⟨⟨e, found, container⟩, fits, tiling, sides⟩
      refine ⟨⟨by simp [found], fits, fun some => ⟨e, found, container some⟩, fun some =>
        (tiling some).1⟩, fun c member => ?_, sides⟩
      -- Children are only looked at where there are some, which a member of them shows.
      exact (tiling (List.ne_nil_of_mem member)).2 c member
    · rintro ⟨own, sound, sides⟩
      obtain ⟨e, found⟩ := Option.isSome_iff_exists.mp own.known
      refine ⟨⟨e, found, fun some => ?_⟩, own.fits, fun some => ⟨own.tiles some, sound⟩, sides⟩
      obtain ⟨_, same, container⟩ := own.container some
      cases found.symm.trans same
      exact container

/-! ## The values at the ends of a tree -/

mutual

/-- The values of a tree that have no children, in order; side trees are left out. -/
def leaves : Value → List Value
  | ⟨element, offset, len, order, payload, []⟩ => [⟨element, offset, len, order, payload, []⟩]
  | ⟨_, _, _, _, _, child :: rest⟩ => leaves child ++ leavesIn rest

def leavesIn : List Value → List Value
  | [] => []
  | v :: rest => leaves v ++ leavesIn rest

end

theorem leaves_eq (v : Value) :
    v.leaves = if v.children = [] then [v] else leavesIn v.children := by
  obtain ⟨element, offset, len, order, payload, _ | ⟨child, rest⟩⟩ := v
  · rw [if_pos rfl, leaves]
  · rw [if_neg (by simp), leaves, leavesIn]

theorem Tiles.append {vs ws : List Value} {start mid stop : Nat} (first : Tiles start vs mid)
    (rest : Tiles mid ws stop) : Tiles start (vs ++ ws) stop := by
  induction vs generalizing start with
  | nil =>
    obtain rfl : start = mid := first
    exact rest
  | cons v vs inductionHypothesis => exact ⟨first.1, inductionHypothesis first.2⟩

theorem tiles_leavesIn {vs : List Value} {start stop : Nat} (tiles : Tiles start vs stop)
    (each : ∀ v ∈ vs, Tiles v.offset v.leaves (v.offset + v.len)) :
    Tiles start (leavesIn vs) stop := by
  induction vs generalizing start with
  | nil => exact tiles
  | cons v vs inductionHypothesis =>
    obtain ⟨rfl, rest⟩ := tiles
    obtain ⟨own, others⟩ := List.forall_mem_cons.mp each
    exact own.append (inductionHypothesis rest others)

/-- The leaves of a sound tree tile it. -/
theorem AllSound.tiles_leaves {s : Schema} {v : Value} (sound : v.AllSound s) :
    Tiles v.offset v.leaves (v.offset + v.len) := by
  induction v using tree_induction with
  | step v children side =>
    rw [leaves_eq]
    by_cases none : v.children = []
    · rw [if_pos none]
      exact ⟨rfl, rfl⟩
    · rw [if_neg none]
      refine tiles_leavesIn ((sound v .self).tiles none) fun c member => ?_
      exact children c member fun w within => sound w (.child member within)

/-- The validation decides the invariants of a tree, whatever places its values claim: it accepts a
tree if and only if each value of it, in side trees too, has an element and ends at a position, has
children only if it is a container, and is tiled by these. The childless values of a valid tree then
tile it, and so do those of each value in it. -/
theorem validate_decides (s : Schema) (v : Value) :
    (v.validate s = .ok () ↔ ∀ w, Within w v → Sound s w) ∧
      (v.validate s = .ok () → ∀ w, Within w v →
        Tiles w.offset w.leaves (w.offset + w.len)) := by
  refine ⟨validate_eq_ok_iff v, fun valid w within => ?_⟩
  have sound : v.AllSound s := (validate_eq_ok_iff v).mp valid
  exact AllSound.tiles_leaves fun u inside => sound u (inside.trans within)

/-- A structure in a structure, and a pointer to a number. -/
def handmadeSchema : Schema where
  elements := #[
    ⟨{}, .structure { children := [⟨1⟩, ⟨2⟩] }⟩,
    ⟨{}, .structure {}⟩,
    ⟨{}, .offset { references := some ⟨3⟩ }⟩,
    ⟨{}, .number {}⟩]
  root := ⟨0⟩

/-- No decode leaves a gap in a structure as this tree does; still it is valid, since a structure
without children may have any length. -/
def handmade : Value :=
  ⟨⟨0⟩, 4, 4, none, .none,
    [empty ⟨1⟩ 4 3,
      ⟨⟨2⟩, 7, 1, none, .offset 9 (some 9) (some (empty ⟨3⟩ 9 (positionLimit - 10))), []⟩]⟩

theorem validate_decides_handmade :
    handmade.validate handmadeSchema = .ok () ∧ (∀ w, Within w handmade → Sound handmadeSchema w) ∧
      Tiles 4 handmade.leaves 8 := by
  obtain ⟨decides, leaves⟩ := validate_decides handmadeSchema handmade
  have valid : handmade.validate handmadeSchema = .ok () := by
    simp [handmade, handmadeSchema, validate, validateTiling, empty, stop, Schema.get?,
      Kind.producesChildren, positionLimit, Integer.unsignedLimit, Except.mapError]
    rfl
  exact ⟨valid, decides.mp valid, leaves valid _ .self⟩

end Value

end BinaryTemplate
