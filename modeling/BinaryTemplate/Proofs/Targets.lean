import BinaryTemplate.Decode.Offset
import BinaryTemplate.Proofs.Field

/-!
# Where pointers lead

What an offset points to is said here without the functions that work it out: which address the
pointer counts from, which address it means as an exact integer, and which region of the file may
be decoded there. The functions return exactly that. Following an offset is then one sequence of
steps, which the lemmas about offsets take from here.
-/

namespace BinaryTemplate

/-! ## What a context knows of an element -/

/-- A container of `element` is open in the frame, as its own element or as the structure behind a
reference. -/
def Frame.Opens (f : Frame) (element : ElementId) : Prop :=
  f.isScope = false ∧ (f.element = element ∨ f.definition = some element)

/-- A value is in a tree, side trees left out. -/
inductive Value.Under (w : Value) : Value → Prop
  | self : Under w w
  | child {v c : Value} (member : c ∈ v.children) (under : Under w c) : Under w v

namespace Value

mutual

theorem find?_sound {element : ElementId} {w : Value} (v : Value)
    (found : v.find? element = some w) : w.element = element ∧ w.Under v := by
  match v with
  | ⟨own, offset, len, order, payload, children⟩ =>
    rw [find?] at found
    by_cases here : own = element
    · rw [if_pos here] at found
      cases found
      exact ⟨here, .self⟩
    · rw [if_neg here] at found
      obtain ⟨same, c, member, under⟩ := findIn?_sound children found
      exact ⟨same, .child member under⟩

theorem findIn?_sound {element : ElementId} {w : Value} (vs : List Value)
    (found : findIn? element vs = some w) :
    w.element = element ∧ ∃ v ∈ vs, w.Under v := by
  match vs with
  | [] => cases found
  | v :: rest =>
    rw [findIn?, Option.or_eq_some_iff] at found
    rcases found with first | ⟨-, later⟩
    · obtain ⟨same, under⟩ := find?_sound v first
      exact ⟨same, v, List.mem_cons_self, under⟩
    · obtain ⟨same, c, member, under⟩ := findIn?_sound rest later
      exact ⟨same, c, List.mem_cons_of_mem v member, under⟩

end

end Value

namespace Context

variable {c : Context} {element : ElementId}

/-- The innermost open container of an element starts at `start`. -/
def Opened (c : Context) (element : ElementId) (start : Nat) : Prop :=
  ∃ inner f outer, c.frames = inner ++ f :: outer ∧ f.Opens element ∧
    (∀ g ∈ inner, ¬ g.Opens element) ∧ f.start = start

/-- A value of an element is completed, and it is the one that is found. -/
structure Recalled (c : Context) (element : ElementId) (w : Value) : Prop where
  found : c.find? element = some w
  element : w.element = element
  completed : ∃ f ∈ c.frames, ∃ v ∈ f.completed, w.Under v

theorem opens_iff {f : Frame} :
    (!f.isScope && (f.element == element || f.definition == some element)) = true ↔
      f.Opens element := by
  simp [Frame.Opens]

theorem containerStart?_eq_some_iff {start : Nat} :
    c.containerStart? element = some start ↔ c.Opened element start := by
  simp only [containerStart?, Option.map_eq_some_iff, List.find?_eq_some_iff_append, Opened]
  constructor
  · rintro ⟨f, ⟨opens, inner, outer, split, closed⟩, start⟩
    refine ⟨inner, f, outer, split, opens_iff.mp opens, fun g member opens => ?_, start⟩
    have shut := closed g member
    rw [opens_iff.mpr opens] at shut
    cases shut
  · rintro ⟨inner, f, outer, split, opens, closed, start⟩
    refine ⟨f, ⟨opens_iff.mpr opens, inner, outer, split, fun g member => ?_⟩, start⟩
    rw [Bool.not_eq_true', Bool.eq_false_iff]
    exact mt opens_iff.mp (closed g member)

theorem containerStart?_eq_none_iff :
    c.containerStart? element = none ↔ ∀ f ∈ c.frames, ¬ f.Opens element := by
  simp only [containerStart?, Option.map_eq_none_iff, List.find?_eq_none, opens_iff]

theorem recalled_iff {w : Value} : c.Recalled element w ↔ c.find? element = some w := by
  constructor
  · exact Recalled.found
  · intro found
    obtain ⟨f, member, inFrame⟩ := List.exists_of_findSome?_eq_some found
    obtain ⟨v, completed, inTree⟩ := List.exists_of_findSome?_eq_some inFrame
    obtain ⟨same, under⟩ := Value.find?_sound v inTree
    exact ⟨found, same, f, member, v, completed, under⟩

end Context

namespace Decoder

open DecodeM

variable {σ : Type} {d : Decoder σ} {p : Place} {n : Node d.schema} {offset : Nat}
  {st st' : DecodeState σ}

/-! ## Addresses -/

/-- The address that the pointer of an offset counts from: the start of the file, the offset's own
place, the start of the innermost open container of another element, or, where none is open, that
of a completed value of it. -/
inductive CountsFrom (d : Decoder σ) (p : Place) (n : Node d.schema) (offset : Nat) :
    Option ElementId → Nat → Prop
  | file : CountsFrom d p n offset none 0
  | itself : CountsFrom d p n offset (some n.id) offset
  | container {base : ElementId} {start : Nat} (other : base ≠ n.id)
      (opened : (p.context d.schema).Opened base start) :
      CountsFrom d p n offset (some base) start
  | completed {base : ElementId} {w : Value} (other : base ≠ n.id)
      (closed : ∀ f ∈ p.inner :: p.outer, ¬ f.Opens base)
      (recalled : (p.context d.schema).Recalled base w) :
      CountsFrom d p n offset (some base) w.offset

/-- The address that a pointer means: none for a null pointer that is not followed, and otherwise
the exact sum of the base, the pointer and the additional amount. -/
inductive Targets (d : Decoder σ) (p : Place) (n : Node d.schema) (offset pointer : Nat) :
    Option Nat → Prop
  | null (zero : pointer = 0) (ignored : n.followNull = .ok false) :
      Targets d p n offset pointer none
  | address {relative : Option ElementId} {base target : Nat} {additional : Option Int64}
      (followed : pointer = 0 → n.followNull = .ok true)
      (named : n.lookup .relativeTo = .ok relative)
      (based : d.CountsFrom p n offset relative base) (adds : d.Gives p n .additional additional)
      (sum : (target : Int) = base + pointer + (additional.map (·.toInt)).getD 0)
      (position : target < positionLimit) : Targets d p n offset pointer (some target)

theorem baseAddress_returns {base : ElementId} {address : Nat} :
    Returns (d.baseAddress p n offset base) st address st' ↔
      d.CountsFrom p n offset (some base) address ∧ st' = st := by
  unfold baseAddress
  by_cases own : base = n.id
  · subst own
    rw [if_pos rfl, returns_pure]
    constructor
    · rintro ⟨rfl, rfl⟩
      exact ⟨.itself, rfl⟩
    · rintro ⟨counts, rfl⟩
      cases counts with
      | itself => exact ⟨rfl, rfl⟩
      | container other | completed other => exact absurd rfl other
  · rw [if_neg own]
    dsimp only
    rcases opened : (p.context d.schema).containerStart? base with _ | start
    · have closed := Context.containerStart?_eq_none_iff.mp opened
      rcases found : (p.context d.schema).find? base with _ | w
      · simp only [Option.or, Option.map_none, returns_fail, false_iff]
        rintro ⟨counts, -⟩
        cases counts with
        | itself => exact own rfl
        | container _ opens =>
          cases opened.symm.trans (Context.containerStart?_eq_some_iff.mpr opens)
        | completed _ _ recalled => cases found.symm.trans recalled.found
      · simp only [Option.or, Option.map_some, returns_pure]
        constructor
        · rintro ⟨rfl, rfl⟩
          exact ⟨.completed own closed (Context.recalled_iff.mpr found), rfl⟩
        · rintro ⟨counts, rfl⟩
          cases counts with
          | itself => exact absurd rfl own
          | container _ opens =>
            cases opened.symm.trans (Context.containerStart?_eq_some_iff.mpr opens)
          | completed _ _ recalled =>
            cases found.symm.trans recalled.found
            exact ⟨rfl, rfl⟩
    · have opens := Context.containerStart?_eq_some_iff.mp opened
      simp only [Option.or, returns_pure]
      constructor
      · rintro ⟨rfl, rfl⟩
        exact ⟨.container own opens, rfl⟩
      · rintro ⟨counts, rfl⟩
        cases counts with
        | itself => exact absurd rfl own
        | container _ opens =>
          cases opened.symm.trans (Context.containerStart?_eq_some_iff.mpr opens)
          exact ⟨rfl, rfl⟩
        | completed _ closed _ =>
          cases opened.symm.trans (Context.containerStart?_eq_none_iff.mpr closed)

/-- The address at a base: what is added to the pointer there, and the check that the sum is a
position. -/
theorem addressAt_returns {base pointer : Nat} {target : Option Nat} :
    Returns (do
      let additional ← d.evalAttribute p n offset .additional
      let address := (base : Int) + pointer + (additional.map (·.toInt)).getD 0
      if 0 ≤ address ∧ address < positionLimit then return some address.toNat
      fail n offset (.range (toString address) (some 0) none)) st target st' ↔
      (∃ additional address, d.Gives p n .additional additional ∧ target = some address ∧
        (address : Int) = base + pointer + (additional.map (·.toInt)).getD 0 ∧
        address < positionLimit) ∧ st' = st := by
  simp only [returns_bind, evalAttribute_returns, returns_ite, returns_pure, returns_fail,
    and_false, or_false]
  constructor
  · rintro ⟨additional, _, ⟨adds, rfl⟩, ⟨nonnegative, position⟩, rfl, rfl⟩
    exact ⟨⟨additional, _, adds, rfl, Int.toNat_of_nonneg nonnegative,
      (Int.toNat_lt nonnegative).mpr position⟩, rfl⟩
  · rintro ⟨⟨additional, address, adds, rfl, sum, position⟩, rfl⟩
    refine ⟨additional, st', ⟨adds, rfl⟩, ?_⟩
    rw [← sum]
    exact ⟨⟨Int.natCast_nonneg _, Int.ofNat_lt.mpr position⟩, rfl, rfl⟩

/-- The address of a pointer that is known to be followed. -/
theorem followedAddress_returns {pointer : Nat} {target : Option Nat}
    (followed : pointer = 0 → n.followNull = .ok true) :
    Returns (do
      let base ← match ← resolved n offset (n.lookup .relativeTo) with
        | some base => d.baseAddress p n offset base
        | none => pure 0
      let additional ← d.evalAttribute p n offset .additional
      let address := (base : Int) + pointer + (additional.map (·.toInt)).getD 0
      if 0 ≤ address ∧ address < positionLimit then return some address.toNat
      fail n offset (.range (toString address) (some 0) none)) st target st' ↔
      (∃ address, target = some address ∧ d.Targets p n offset pointer (some address)) ∧
        st' = st := by
  rw [returns_bind]
  simp only [returns_resolved]
  constructor
  · rintro ⟨relative, _, ⟨named, rfl⟩, h⟩
    cases relative with
    | none =>
      obtain ⟨base, _, start, rest⟩ := returns_bind.mp h
      obtain ⟨rfl, rfl⟩ := returns_pure.mp start
      obtain ⟨⟨additional, address, adds, rfl, sum, position⟩, rfl⟩ := addressAt_returns.mp rest
      exact ⟨⟨address, rfl, .address followed named .file adds sum position⟩, rfl⟩
    | some relative =>
      obtain ⟨base, _, start, rest⟩ := returns_bind.mp h
      obtain ⟨counts, rfl⟩ := baseAddress_returns.mp start
      obtain ⟨⟨additional, address, adds, rfl, sum, position⟩, rfl⟩ := addressAt_returns.mp rest
      exact ⟨⟨address, rfl, .address followed named counts adds sum position⟩, rfl⟩
  · rintro ⟨⟨address, rfl, targets⟩, rfl⟩
    cases targets with
    | @address relative base _ additional _ named counts adds sum position =>
      refine ⟨relative, st', ⟨named, rfl⟩, ?_⟩
      cases relative with
      | none =>
        cases counts
        exact returns_bind.mpr ⟨0, st', returns_pure.mpr ⟨rfl, rfl⟩, addressAt_returns.mpr
          ⟨⟨additional, address, adds, rfl, sum, position⟩, rfl⟩⟩
      | some relative =>
        exact returns_bind.mpr ⟨base, st', baseAddress_returns.mpr ⟨counts, rfl⟩,
          addressAt_returns.mpr ⟨⟨additional, address, adds, rfl, sum, position⟩, rfl⟩⟩

theorem targetAddress_returns {pointer : Nat} {target : Option Nat} :
    Returns (d.targetAddress p n offset pointer) st target st' ↔
      d.Targets p n offset pointer target ∧ st' = st := by
  unfold targetAddress
  by_cases zero : pointer = 0
  · rw [if_pos zero, returns_bind]
    simp only [returns_resolved]
    constructor
    · rintro ⟨follow, _, ⟨set, rfl⟩, h⟩
      cases follow with
      | false =>
        obtain ⟨rfl, rfl⟩ := returns_pure.mp h
        exact ⟨.null zero set, rfl⟩
      | true =>
        obtain ⟨⟨address, rfl, targets⟩, rfl⟩ :=
          (followedAddress_returns fun _ => set).mp h
        exact ⟨targets, rfl⟩
    · rintro ⟨targets, rfl⟩
      cases targets with
      | null _ ignored => exact ⟨false, st', ⟨ignored, rfl⟩, returns_pure.mpr ⟨rfl, rfl⟩⟩
      | address followed named based adds sum position =>
        refine ⟨true, st', ⟨followed zero, rfl⟩, ?_⟩
        exact (followedAddress_returns followed).mpr
          ⟨⟨_, rfl, .address followed named based adds sum position⟩, rfl⟩
  · rw [if_neg zero]
    refine (followedAddress_returns fun null => absurd null zero).trans ?_
    constructor
    · rintro ⟨⟨address, rfl, targets⟩, rfl⟩
      exact ⟨targets, rfl⟩
    · rintro ⟨targets, rfl⟩
      cases targets with
      | null null => exact absurd null zero
      | address followed named based adds sum position =>
        exact ⟨⟨_, rfl, .address followed named based adds sum position⟩, rfl⟩

/-- An address that is followed is a position. -/
theorem Targets.position {pointer : Nat} {address : Nat}
    (h : d.Targets p n offset pointer (some address)) : address < positionLimit := by
  cases h with
  | address _ _ _ _ _ position => exact position

/-! ## Regions -/

/-- The size of the region that an offset references, by a completed value of the element that
gives it; `none` if no element does. -/
inductive RegionSize (d : Decoder σ) (p : Place) (n : Node d.schema) : Option Nat → Prop
  | unset (unset : n.lookup .referencedSize = .ok none) : RegionSize d p n none
  | given {element : ElementId} {w : Value} {k : Int64} {size : Nat}
      (named : n.lookup .referencedSize = .ok (some element))
      (recalled : (p.context d.schema).Recalled element w) (integer : w.toInt? = some k)
      (same : k.toInt = size) : RegionSize d p n (some size)

/-- The region at a target ends by its size or with the data, and it lies in the data. -/
inductive Region (p : Place) (target : Nat) : Option Nat → Nat → Prop
  | sized {size : Nat} (within : target + size ≤ p.dataStop) :
      Region p target (some size) (target + size)
  | rest (within : target ≤ p.dataStop) : Region p target none p.dataStop

theorem referencedSize_returns {size : Option Nat} :
    Returns (d.referencedSize? p n offset) st size st' ↔ d.RegionSize p n size ∧ st' = st := by
  simp only [referencedSize?, returns_bind, returns_resolved]
  constructor
  · rintro ⟨declared, _, ⟨named, rfl⟩, h⟩
    cases declared with
    | none =>
      obtain ⟨rfl, rfl⟩ := returns_pure.mp h
      exact ⟨.unset named, rfl⟩
    | some element =>
      rcases found : (p.context d.schema).find? element with _ | w
      · simp only [found] at h
        exact absurd h returns_fail
      · rcases integer : w.toInt? with _ | k
        · simp only [found, integer] at h
          exact absurd h returns_fail
        · simp only [found, integer, returns_ite, returns_pure, returns_fail, and_false,
            or_false] at h
          obtain ⟨nonnegative, rfl, rfl⟩ := h
          exact ⟨.given named (Context.recalled_iff.mpr found) integer
            (Int.toNat_of_nonneg nonnegative).symm, rfl⟩
  · rintro ⟨sized, rfl⟩
    cases sized with
    | unset unset => exact ⟨none, st', ⟨unset, rfl⟩, returns_pure.mpr ⟨rfl, rfl⟩⟩
    | given named recalled integer same =>
      refine ⟨some _, st', ⟨named, rfl⟩, ?_⟩
      simp only [recalled.found, integer, same, returns_ite, returns_pure, Int.toNat_natCast,
        Int.natCast_nonneg, true_and, not_true, false_and, or_false]

theorem regionStop_returns {target stop : Nat} {size : Option Nat} :
    Returns (d.regionStop p n offset target size) st stop st' ↔
      Region p target size stop ∧ st' = st := by
  simp only [regionStop, returns_ite, returns_pure, returns_fail, and_false, or_false]
  constructor
  · rintro ⟨⟨behind, within⟩, rfl, rfl⟩
    cases size with
    | none => exact ⟨.rest behind, rfl⟩
    | some size => exact ⟨.sized within, rfl⟩
  · rintro ⟨region, rfl⟩
    cases region with
    | sized within => exact ⟨⟨Nat.le_add_right _ _, within⟩, rfl, rfl⟩
    | rest within => exact ⟨⟨within, Nat.le_refl _⟩, rfl, rfl⟩

theorem Region.behind {target stop : Nat} {size : Option Nat} (h : Region p target size stop) :
    target ≤ stop := by
  cases h with
  | sized => exact Nat.le_add_right _ _
  | rest within => exact within

theorem Region.within {target stop : Nat} {size : Option Nat} (h : Region p target size stop) :
    stop ≤ p.dataStop := by
  cases h with
  | sized within => exact within
  | rest => exact Nat.le_refl _

/-! ## Side trees -/

variable [ByteSource σ]

/-- How an offset is followed, if that is not already being done: the element is decoded at the
target with no bits unread, in a region of the data, and then the cursor and the unread bits are
put back. -/
inductive Followed (child : d.DecodeChild) (p : Place) (n : Node d.schema) (offset target : Nat)
    (element : ElementId) (st : DecodeState σ) : Value → DecodeState σ → Prop
  | mk {referenced : Node d.schema} {size : Option Nat} {stop resume : Nat}
      {told moved ended st' : DecodeState σ} {v : Value}
      (fresh : (target, element) ∉ p.following) (found : d.schema.node? element = some referenced)
      (sized : d.RegionSize p n size) (region : Region p target size stop)
      (tells : Returns (tellAt n offset) st resume told)
      (seeks : Returns (seek n offset target)
        { told with events := .followed n.label referenced.label target :: told.events } () moved)
      (decoded : Returns (child (sidePlace p element target stop) referenced)
        { moved with pending := [] } v ended)
      (returns : Returns (seek n offset resume) { ended with pending := moved.pending } () st') :
      Followed child p n offset target element st v st'

theorem follow_followed {child : d.DecodeChild} {target : Nat} {element : ElementId} {v : Value}
    (h : Returns (d.follow child p n offset target element) st v st') :
    Followed child p n offset target element st v st' := by
  simp only [follow, returns_guard_bind, returns_bind, node_returns, returns_record, returns_get,
    returns_setPending, returns_outcome, returns_liftExcept] at h
  obtain ⟨fresh, referenced, _, ⟨found, rfl⟩, size, _, sized, stop, before, stops, resume, told,
    tells, _, _, rfl, _, moved, seeks, _, _, ⟨rfl, rfl⟩, _, _, rfl, result, ended, child_ends, _, _,
    rfl, _, back, returns, rfl, rfl⟩ := h
  obtain ⟨given, rfl⟩ := referencedSize_returns.mp sized
  obtain ⟨region, rfl⟩ := regionStop_returns.mp stops
  -- The result is passed on after the cursor is put back, so the child has returned.
  obtain ⟨_, ⟨⟩, decoded⟩ | ⟨_, ⟨⟩, _⟩ := child_ends
  exact .mk fresh found given region tells seeks decoded returns

/-- What becomes of the target of an offset: it is followed if there is one and an element is
referenced. -/
inductive Dereferenced (child : d.DecodeChild) (p : Place) (n : Node d.schema) (offset : Nat)
    (st : DecodeState σ) : Option Nat → Option Value → DecodeState σ → Prop
  | nowhere : Dereferenced child p n offset st none none st
  | unreferenced {target : Nat} (unset : n.lookup .references = .ok none) :
      Dereferenced child p n offset st (some target) none st
  | side {target : Nat} {element : ElementId} {v : Value} {st' : DecodeState σ}
      (references : n.lookup .references = .ok (some element))
      (followed : Followed child p n offset target element st v st') :
      Dereferenced child p n offset st (some target) (some v) st'

theorem followTarget_dereferenced {child : d.DecodeChild} {target : Option Nat}
    {side : Option Value} (h : Returns (d.followTarget child p n offset target) st side st') :
    Dereferenced child p n offset st target side st' := by
  simp only [followTarget, returns_bind, returns_resolved] at h
  obtain ⟨references, _, ⟨named, rfl⟩, h⟩ := h
  cases target with
  | none =>
    obtain ⟨rfl, rfl⟩ := returns_pure.mp h
    exact .nowhere
  | some target =>
    cases references with
    | none =>
      obtain ⟨rfl, rfl⟩ := returns_pure.mp h
      exact .unreferenced named
    | some element =>
      simp only [returns_bind, returns_pure] at h
      obtain ⟨v, _, follows, rfl, rfl⟩ := h
      exact .side named (follow_followed follows)

/-- The steps of an offset: its pointer is read, its address is worked out and dereferenced. -/
theorem decodeOffset_steps {child : d.DecodeChild} {v : Value}
    (h : Returns (d.decodeOffset child p n) st v st') :
    ∃ start told order r read target side, Returns (tell n) st start told ∧
      n.byteOrder = .ok order ∧ Returns (d.readRaw p n order) told r read ∧
      d.Targets p n r.offset r.raw target ∧ Dereferenced child p n r.offset read target side st' ∧
      v = ⟨n.id, r.offset, r.len, some order, .offset (UInt64.ofNat r.raw) target side, []⟩ := by
  simp only [decodeOffset, returns_bind, returns_resolved, returns_pure] at h
  obtain ⟨start, _, tells, order, _, ⟨ordered, rfl⟩, r, _, reads, target, _, addressed, side, _,
    follows, rfl, rfl⟩ := h
  obtain ⟨targets, rfl⟩ := targetAddress_returns.mp addressed
  exact ⟨start, _, order, r, _, target, side, tells, ordered, reads, targets,
    followTarget_dereferenced follows, rfl⟩

end Decoder

end BinaryTemplate
