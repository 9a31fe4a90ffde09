import Mathlib
import BinaryTemplate.Proofs.RepeatCounts

/-!
# The cap on instances

The options of a decode cap the instances that a container may hold for one of its definitions. A
run has them counted before each attempt. A choice counts the values that are not empty, and ends
with the first one that is; so it stays within the cap as well, unless the cap is zero: then an
empty value is taken before anything is counted. All of this holds for any source, since it only
depends on the attempts that succeed.
-/

namespace BinaryTemplate.Decoder

open DecodeM

variable {σ : Type} {d : Decoder σ} {child : d.DecodeChild} {p p' : Place} {n : Node d.schema}
  {st st' : DecodeState σ}

/-- The one way in which a container comes to hold more than the cap: the cap is zero, and a choice
has taken an instance without bytes. -/
def Surplus (d : Decoder σ) (order : ChildOrder) (vs : List Value) : Prop :=
  d.options.maxRepeat = 0 ∧ order = .anyOf ∧ ∃ v, vs = [v] ∧ v.len = 0

/-- The children of a container are instances of its definitions that are not switched off, for
each of them no more than the cap but for a surplus. -/
structure Stocked (child : d.DecodeChild) (order : ChildOrder) (ids : List ElementId)
    (vs : List Value) (ts : List (Tally d.schema)) : Prop where
  enabled : Enabled ids (ts.map Tally.node)
  values : vs.Perm (ts.flatMap Tally.values)
  inTurn : order = .declared → vs = ts.flatMap Tally.values
  decoded : ∀ t ∈ ts, ∀ v ∈ t.values, DecodedFor child t.node v
  capped : (∀ t ∈ ts, t.values.length ≤ d.options.maxRepeat) ↔ ¬ d.Surplus order vs

theorem Stocked.member {order : ChildOrder} {ids : List ElementId} {vs : List Value}
    {ts : List (Tally d.schema)} (h : Stocked child order ids vs ts) {v : Value} (inner : v ∈ vs) :
    ∃ n, DecodedFor child n v := by
  obtain ⟨t, tallied, member⟩ := List.mem_flatMap.mp (h.values.mem_iff.mp inner)
  exact ⟨t.node, h.decoded t tallied v member⟩

variable [ByteSource σ]

/-! ## In their turn -/

/-- One round of a run: it ends without a further instance, or one is decoded and the run ends with
it or goes on behind it. -/
theorem repeatFrom_attempt {min : Nat} {max : Option Nat} {room count : Nat}
    (h : Returns (d.repeatFrom child n min max room count p) st p' st') :
    p' = p ∨ ∃ rest v mid, room = rest + 1 ∧ DecodedFor child n v ∧
      (p' = p.complete v ∨
        Returns (d.repeatFrom child n min max rest (count + 1) (p.complete v)) mid p' st') := by
  rw [repeatFrom.eq_def] at h
  simp only [returns_ite, returns_bind, returns_pure, exhausted_returns] at h
  obtain ⟨-, rfl, -⟩ | ⟨-, mark, mid, -, h⟩ := h
  · exact .inl rfl
  obtain ⟨-, _, _, -, ⟨-, rfl, -⟩ | ⟨-, h⟩⟩ | ⟨-, h⟩ := h
  · exact .inl rfl
  -- With the minimum or without it, one more instance is tried.
  all_goals
    cases room with
    | zero => exact absurd h returns_fail
    | succ rest =>
      obtain ⟨result, after, tried, h⟩ := returns_bind.mp h
      obtain ⟨v, rfl, decoded⟩ | ⟨e, rfl, -⟩ := returns_outcome.mp tried
      · refine .inr ⟨rest, v, after, rfl, decodedFor_of_returns decoded, ?_⟩
        simp only [returns_ite, returns_pure] at h
        obtain ⟨-, rfl, -⟩ | ⟨-, h⟩ := h
        · exact .inl rfl
        · exact .inr h
      · simp only [returns_ite, returns_bind, returns_pure, returns_throw, and_false,
          or_false] at h
        obtain ⟨-, _, _, -, _, _, -, rfl, -⟩ := h
        exact .inl rfl

/-- A run has no more instances than there is room for. -/
theorem repeatFrom_capped {min : Nat} {max : Option Nat} {room count : Nat}
    (h : Returns (d.repeatFrom child n min max room count p) st p' st') :
    ∃ vs, p' = p.completeAll vs ∧ vs.length ≤ room ∧ ∀ v ∈ vs, DecodedFor child n v := by
  induction room generalizing count p st with
  | zero =>
    obtain rfl | ⟨_, _, _, impossible, -⟩ := repeatFrom_attempt h
    · exact ⟨[], rfl, Nat.le_refl 0, nofun⟩
    · cases impossible
  | succ room inductionHypothesis =>
    obtain rfl | ⟨rest, v, mid, same, decoded, rfl | others⟩ := repeatFrom_attempt h
    · exact ⟨[], rfl, Nat.zero_le _, nofun⟩
    · exact ⟨[v], rfl, by simp, by simpa using decoded⟩
    · cases same
      obtain ⟨vs, rfl, fits, all⟩ := inductionHypothesis others
      exact ⟨v :: vs, rfl, by simpa using fits, by simpa using ⟨decoded, all⟩⟩

theorem decodeDeclared_capped {ids : List ElementId}
    (h : Returns (d.decodeDeclared child ids p) st p' st') :
    ∃ ts : List (Tally d.schema), p' = p.completeAll (ts.flatMap Tally.values) ∧
      Enabled ids (ts.map Tally.node) ∧ ∀ t ∈ ts, t.values.length ≤ d.options.maxRepeat ∧
        ∀ v ∈ t.values, DecodedFor child t.node v := by
  induction ids generalizing p st with
  | nil =>
    simp only [decodeDeclared, returns_pure] at h
    obtain ⟨rfl, -⟩ := h
    exact ⟨[], rfl, .nil, List.forall_mem_nil _⟩
  | cons id ids inductionHypothesis =>
    simp only [decodeDeclared, decodeRepeated, returns_bind, node_returns, returns_ite,
      returns_record] at h
    obtain ⟨n, _, ⟨found, rfl⟩, off, _, switched, h⟩ := h
    obtain ⟨disabled, rfl⟩ := isDisabled_returns.mp switched
    obtain ⟨rfl, _, _, -, rest⟩ | ⟨on, _, _, ⟨_, _, -, ⟨least, most⟩, _, -, repeats⟩, rest⟩ := h
    · obtain ⟨ts, rfl, enabled, capped⟩ := inductionHypothesis rest
      exact ⟨ts, rfl, .off found disabled enabled, capped⟩
    · obtain ⟨vs, rfl, fits, decoded⟩ := repeatFrom_capped repeats
      obtain ⟨ts, rfl, enabled, capped⟩ := inductionHypothesis rest
      have switchedOn : Disabled n false := by simpa [on] using disabled
      refine ⟨⟨n, least, most, vs⟩ :: ts, ?_, .on found switchedOn enabled, ?_⟩
      · rw [List.flatMap_cons, Place.completeAll_append]
      · exact List.forall_mem_cons.mpr ⟨⟨fits, decoded⟩, capped⟩

/-! ## Any of them -/

/-- The definition that takes an instance has one more, and it was not full. -/
theorem firstMatch_grows {mark : Mark} {ts : List (Tally d.schema)}
    {found : Option (Value × List (Alternative d.schema))}
    (h : Returns (d.firstMatch child p n mark (ts.map Tally.alternative)) st found st') :
    found = none ∨ ∃ v ts', found = some (v, ts'.map Tally.alternative) ∧
      Grows child ts [v] ts' := by
  induction ts generalizing found st st' with
  | nil => exact .inl (returns_pure.mp h).1
  | cons t ts inductionHypothesis =>
    simp only [List.map_cons, firstMatch, returns_ite, returns_bind, returns_pure] at h
    obtain ⟨-, others, _, rest, rfl, -⟩ | ⟨notFull, result, mid, tried, h⟩ := h
    · obtain rfl | ⟨v, ts', rfl, grows⟩ := inductionHypothesis rest
      · exact .inl rfl
      · exact .inr ⟨v, t :: ts', rfl, grows.cons⟩
    obtain ⟨v, rfl, decoded⟩ | ⟨e, rfl, -⟩ := returns_outcome.mp tried
    · obtain ⟨rfl, -⟩ := returns_pure.mp h
      have free : t.alternative.isFull = false := by simpa using notFull
      refine .inr ⟨v, t.add v :: ts, ?_, .here free (decodedFor_of_returns decoded)⟩
      simp
    · simp only [returns_ite, returns_bind, returns_throw, returns_pure, false_and, exists_false,
        and_false, false_or] at h
      obtain ⟨-, _, _, -, _, _, -, others, _, rest, rfl, -⟩ := h
      obtain rfl | ⟨v, ts', rfl, grows⟩ := inductionHypothesis rest
      · exact .inl rfl
      · exact .inr ⟨v, t :: ts', rfl, grows.cons⟩

/-- One round of a choice: it ends without an instance, or one is taken and the choice ends with it,
if it is empty, or goes on behind it. -/
theorem decodeChoices_attempt {room : Nat} {ts : List (Tally d.schema)}
    {choices : List (Alternative d.schema)}
    (h : Returns (d.decodeChoices child n room p (ts.map Tally.alternative)) st (p', choices) st') :
    p' = p ∧ choices = ts.map Tally.alternative ∨
      ∃ v ts', Grows child ts [v] ts' ∧
        (v.len = 0 ∧ p' = p.complete v ∧ choices = ts'.map Tally.alternative ∨
          ∃ rest mid, room = rest + 1 ∧
            Returns (d.decodeChoices child n rest (p.complete v) (ts'.map Tally.alternative)) mid
              (p', choices) st') := by
  rw [decodeChoices.eq_def] at h
  simp only [returns_ite, returns_bind, returns_pure, Prod.mk.injEq] at h
  obtain ⟨mark, _, -, _, _, -, ⟨-, ⟨rfl, rfl⟩, -⟩ | ⟨-, found, after, matches_, h⟩⟩ := h
  · exact .inl ⟨rfl, rfl⟩
  obtain rfl | ⟨v, ts', rfl, grows⟩ := firstMatch_grows matches_
  · simp only [returns_pure, Prod.mk.injEq] at h
    obtain ⟨⟨rfl, rfl⟩, -⟩ := h
    exact .inl ⟨rfl, rfl⟩
  · refine .inr ⟨v, ts', grows, ?_⟩
    simp only [returns_ite, returns_pure, Prod.mk.injEq] at h
    obtain ⟨empty, ⟨rfl, rfl⟩, -⟩ | ⟨-, h⟩ := h
    · exact .inl ⟨empty, rfl, rfl⟩
    · cases room with
      | zero => exact absurd h returns_fail
      | succ rest => exact .inr ⟨rest, after, rfl, h⟩

/-- A choice has no more instances than there is room for, or one more that is empty. -/
theorem decodeChoices_capped {room : Nat} {ts : List (Tally d.schema)}
    {choices : List (Alternative d.schema)}
    (h : Returns (d.decodeChoices child n room p (ts.map Tally.alternative)) st (p', choices) st') :
    ∃ vs ts', p' = p.completeAll vs ∧ Grows child ts vs ts' ∧
      (vs.length ≤ room ∨ ∃ init v, vs = init ++ [v] ∧ init.length = room ∧ v.len = 0) := by
  induction room generalizing p st ts with
  | zero =>
    obtain ⟨rfl, -⟩ | ⟨v, ts', grows, ⟨empty, rfl, -⟩ | ⟨_, _, impossible, -⟩⟩ :=
      decodeChoices_attempt h
    · exact ⟨[], ts, rfl, .refl ts, .inl (Nat.le_refl 0)⟩
    · exact ⟨[v], ts', rfl, grows, .inr ⟨[], v, rfl, rfl, empty⟩⟩
    · cases impossible
  | succ room inductionHypothesis =>
    obtain ⟨rfl, -⟩ | ⟨v, ts', grows, ⟨-, rfl, -⟩ | ⟨rest, mid, same, others⟩⟩ :=
      decodeChoices_attempt h
    · exact ⟨[], ts, rfl, .refl ts, .inl (Nat.zero_le _)⟩
    · exact ⟨[v], ts', rfl, grows, .inl (by simp)⟩
    · cases same
      obtain ⟨vs, ts'', rfl, more, fits | ⟨init, w, rfl, full, empty⟩⟩ :=
        inductionHypothesis others
      · exact ⟨v :: vs, ts'', rfl, grows.trans more, .inl (by simpa using fits)⟩
      · exact ⟨v :: (init ++ [w]), ts'', rfl, grows.trans more,
          .inr ⟨v :: init, w, rfl, by simpa using full, empty⟩⟩

/-! ## Containers -/

omit [ByteSource σ] in
/-- With the values of a choice within its room, no definition has more than the cap unless the one
value of a choice without room is a surplus. -/
theorem surplus_iff {vs : List Value} {ts : List (Tally d.schema)}
    (values : vs.Perm (ts.flatMap Tally.values))
    (fits : vs.length ≤ d.options.maxRepeat - 1 ∨
      ∃ init v, vs = init ++ [v] ∧ init.length = d.options.maxRepeat - 1 ∧ v.len = 0) :
    (∀ t ∈ ts, t.values.length ≤ d.options.maxRepeat) ↔ ¬ d.Surplus .anyOf vs := by
  have part : ∀ t ∈ ts, t.values.length ≤ vs.length := by
    intro t member
    rw [values.length_eq, List.flatMap_def]
    exact (List.sublist_flatten_of_mem (List.mem_map_of_mem member)).length_le
  constructor
  · rintro capped ⟨none, -, v, rfl, -⟩
    have taken := values.mem_iff.mp (List.mem_singleton_self v)
    obtain ⟨t, tallied, member⟩ := List.mem_flatMap.mp taken
    have some := List.length_pos_of_mem member
    have most := capped t tallied
    omega
  · intro noSurplus t member
    have most := part t member
    obtain fits | ⟨init, v, rfl, full, empty⟩ := fits
    · omega
    · rw [List.length_append, List.length_singleton] at most
      by_cases none : d.options.maxRepeat = 0
      · obtain rfl : init = [] := List.eq_nil_of_length_eq_zero (by omega)
        exact absurd ⟨none, rfl, v, rfl, empty⟩ noSurplus
      · omega

theorem decodeContent_stocked {ids : List ElementId} {order : ChildOrder}
    (h : Returns (d.decodeContent child n ids order p) st p' st') :
    ∃ vs ts, p' = p.completeAll vs ∧ Stocked child order ids vs ts := by
  cases order with
  | declared =>
    obtain ⟨ts, rfl, enabled, each⟩ := decodeDeclared_capped h
    refine ⟨_, ts, rfl, enabled, .refl _, fun _ => rfl, fun t member => (each t member).2, ?_⟩
    exact iff_of_true (fun t member => (each t member).1) (by simp [Surplus])
  | anyOf =>
    simp only [decodeContent, decodeAnyOf, returns_bind, returns_pure] at h
    obtain ⟨offset, _, -, choices, _, offers, ⟨reached, finished⟩, _, rounds, _, _, -, rfl, -⟩ := h
    obtain ⟨⟨offered, rfl, isOffered⟩, rfl⟩ := alternatives_returns offers
    obtain ⟨vs, ts, rfl, grows, fits⟩ := decodeChoices_capped rounds
    have values : vs.Perm (ts.flatMap Tally.values) := isOffered.values grows
    refine ⟨vs, ts, rfl, grows.nodes ▸ isOffered.enabled, values, by simp, ?_,
      surplus_iff values fits⟩
    exact fun t member => (grows.limited isOffered.limited t member).decoded

theorem decodeContainer_stocked {definition : Option ElementId} {ids : List ElementId}
    {order : ChildOrder} {declared : Option Nat} {v : Value}
    (h : Returns (d.decodeContainer child p n definition ids order declared) st v st') :
    v.element = n.id ∧ v.referenced? = none ∧
      ∃ ts, Stocked child order ids v.children ts := by
  simp only [decodeContainer, returns_bind, returns_align, returns_record, returns_outcome] at h
  obtain ⟨_, _, -, start, _, -, stop, _, -, _, _, -, content, _, filled, _, _, -, h⟩ := h
  -- An error of the content is thrown again, so the content has returned.
  obtain ⟨reached, rfl, fills⟩ | ⟨e, rfl, -⟩ := filled
  · simp only [returns_bind, returns_pure] at h
    obtain ⟨position, _, -, len, _, -, rfl, -⟩ := h
    obtain ⟨vs, ts, rfl, stocked⟩ := decodeContent_stocked fills
    refine ⟨rfl, rfl, ts, ?_⟩
    show Stocked child order ids (Place.completeAll _ vs).inner.children ts
    rw [Place.children_completeAll]
    exact stocked
  · exact absurd h returns_throw

end BinaryTemplate.Decoder
