import BinaryTemplate.Proofs.Reading

/-!
# What fields take

A field that decodes lies at the cursor, and it moves the reading in one of three ways: it takes
nothing, it lets go of the unread bits and takes whole bytes within the frame, or it takes bits,
first those that are unread and then as many whole bytes as it still needs. Every function that
decodes a field is described here by what has to hold when it returns.
-/

namespace BinaryTemplate.Decoder

open DecodeM

variable {σ : Type} {d : Decoder σ} {p : Place} {n : Node d.schema} {offset : Nat}
  {st st' : DecodeState σ}

/-! ## References and lengths -/

/-- The reference gives this integer at a place. -/
def Evaluates (d : Decoder σ) (p : Place) : Reference → Int64 → Prop
  | .literal k, value => value = k
  | .expression text, value =>
    d.evaluator.evaluate (p.context d.schema) text = .ok (.integer value)

/-- The reference gives this integer, which is no less than zero, at a place. -/
def Counts (d : Decoder σ) (p : Place) (r : Reference) (count : Nat) : Prop :=
  ∃ k, d.Evaluates p r k ∧ k.toInt = count

/-- The reference attribute of an element gives this integer at a place; `none` if it is not set. -/
def Gives (d : Decoder σ) (p : Place) (n : Node d.schema) (a : Attribute Reference) :
    Option Int64 → Prop
  | none => n.lookup a = .ok none
  | some k => ∃ r, n.lookup a = .ok (some r) ∧ d.Evaluates p r k

/-- The length reference of an element gives so many whole bytes at a place. -/
def Measures (d : Decoder σ) (p : Place) (n : Node d.schema) (length : Reference)
    (bytes : Nat) : Prop :=
  ∃ units unit, d.Counts p length units ∧ n.lengthUnit = .ok unit ∧
    units * unit.bits = 8 * bytes ∧ units * unit.bits < positionLimit

/-- The declared length of an element in bytes at a place; `none` if it declares none. -/
def Declares (d : Decoder σ) (p : Place) (n : Node d.schema) : Option Nat → Prop
  | none => n.lookup .length = .ok none
  | some bytes => ∃ length, n.lookup .length = .ok (some length) ∧ d.Measures p n length bytes

theorem Evaluates.unique {r : Reference} {k k' : Int64} (first : d.Evaluates p r k)
    (second : d.Evaluates p r k') : k = k' := by
  cases r with
  | literal value => exact first.trans second.symm
  | expression text =>
    have same := first.symm.trans second
    cases same
    rfl

theorem Counts.unique {r : Reference} {count count' : Nat} (first : d.Counts p r count)
    (second : d.Counts p r count') : count = count' := by
  obtain ⟨k, evaluates, same⟩ := first
  obtain ⟨k', evaluates', same'⟩ := second
  obtain rfl := evaluates.unique evaluates'
  omega

theorem Gives.unique {a : Attribute Reference} {k k' : Option Int64} (first : d.Gives p n a k)
    (second : d.Gives p n a k') : k = k' := by
  cases k with
  | none =>
    cases k' with
    | none => rfl
    | some value =>
      obtain ⟨_, found, -⟩ := second
      cases first.symm.trans found
  | some value =>
    obtain ⟨_, found, evaluates⟩ := first
    cases k' with
    | none => cases found.symm.trans second
    | some value' =>
      obtain ⟨_, found', evaluates'⟩ := second
      cases found.symm.trans found'
      rw [evaluates.unique evaluates']

@[simp] theorem evalInteger_returns {r : Reference} {k : Int64} :
    Returns (d.evalInteger p n offset r) st k st' ↔ d.Evaluates p r k ∧ st' = st := by
  cases r with
  | literal value => simp [evalInteger, Evaluates]
  | expression text =>
    rcases given : d.evaluator.evaluate (p.context d.schema) text with e | ⟨value | id⟩
    · simp [evalInteger, Evaluates, given]
    · simp [evalInteger, Evaluates, given, eq_comm]
    · simp [evalInteger, Evaluates, given]

@[simp] theorem asCount_returns {k : Int} {count : Nat} :
    Returns (d.asCount n offset k) st count st' ↔ k = count ∧ st' = st := by
  unfold asCount
  by_cases nonneg : 0 ≤ k
  · simp only [nonneg, if_true, returns_pure]
    constructor
    · rintro ⟨rfl, rfl⟩
      exact ⟨by omega, rfl⟩
    · rintro ⟨rfl, rfl⟩
      exact ⟨by omega, rfl⟩
  · simp only [nonneg, if_false, returns_fail, false_iff, not_and]
    omega

@[simp] theorem evalCount_returns {r : Reference} {count : Nat} :
    Returns (d.evalCount p n offset r) st count st' ↔ d.Counts p r count ∧ st' = st := by
  simp only [evalCount, returns_bind, evalInteger_returns, asCount_returns, Counts]
  constructor
  · rintro ⟨k, _, ⟨evaluates, rfl⟩, same, rfl⟩
    exact ⟨⟨k, evaluates, same⟩, rfl⟩
  · rintro ⟨⟨k, evaluates, same⟩, rfl⟩
    exact ⟨k, st', ⟨evaluates, rfl⟩, same, rfl⟩

@[simp] theorem evalAttribute_returns {a : Attribute Reference} {k : Option Int64} :
    Returns (d.evalAttribute p n offset a) st k st' ↔ d.Gives p n a k ∧ st' = st := by
  simp only [evalAttribute, returns_bind, returns_resolved]
  constructor
  · rintro ⟨r, _, ⟨found, rfl⟩, h⟩
    cases r with
    | none =>
      obtain ⟨rfl, rfl⟩ := returns_pure.mp h
      exact ⟨found, rfl⟩
    | some r =>
      simp only [evalOptional, returns_bind, evalInteger_returns, returns_pure] at h
      obtain ⟨value, _, ⟨evaluates, rfl⟩, rfl, rfl⟩ := h
      exact ⟨⟨r, found, evaluates⟩, rfl⟩
  · rintro ⟨gives, rfl⟩
    cases k with
    | none => exact ⟨none, st', ⟨gives, rfl⟩, returns_pure.mpr ⟨rfl, rfl⟩⟩
    | some value =>
      obtain ⟨r, found, evaluates⟩ := gives
      refine ⟨some r, st', ⟨found, rfl⟩, ?_⟩
      simp only [evalOptional, returns_bind, evalInteger_returns, returns_pure]
      exact ⟨value, st', ⟨evaluates, rfl⟩, rfl, rfl⟩

@[simp] theorem toBytes_returns {units bytes : Nat} {unit : LengthUnit} :
    Returns (d.toBytes n offset units unit) st bytes st' ↔
      (units * unit.bits = 8 * bytes ∧ units * unit.bits < positionLimit) ∧ st' = st := by
  simp only [toBytes, returns_guard, returns_pure]
  constructor
  · rintro ⟨fits, whole, rfl, rfl⟩
    exact ⟨⟨by omega, by omega⟩, rfl⟩
  · rintro ⟨⟨whole, fits⟩, rfl⟩
    exact ⟨by omega, by omega, by omega, rfl⟩

@[simp] theorem lengthBytes_returns {length : Reference} {bytes : Nat} :
    Returns (d.lengthBytes p n offset length) st bytes st' ↔
      d.Measures p n length bytes ∧ st' = st := by
  simp only [lengthBytes, returns_bind, evalCount_returns, returns_resolved, toBytes_returns,
    Measures]
  constructor
  · rintro ⟨units, _, ⟨counts, rfl⟩, unit, _, ⟨found, rfl⟩, sized, rfl⟩
    exact ⟨⟨units, unit, counts, found, sized⟩, rfl⟩
  · rintro ⟨⟨units, unit, counts, found, sized⟩, rfl⟩
    exact ⟨units, st', ⟨counts, rfl⟩, unit, st', ⟨found, rfl⟩, sized, rfl⟩

@[simp] theorem declaredBytes_returns {declared : Option Nat} :
    Returns (d.declaredBytes p n offset) st declared st' ↔
      d.Declares p n declared ∧ st' = st := by
  simp only [declaredBytes, returns_bind, returns_resolved]
  constructor
  · rintro ⟨length, _, ⟨found, rfl⟩, h⟩
    cases length with
    | none =>
      simp only [returns_pure] at h
      obtain ⟨rfl, rfl⟩ := h
      exact ⟨found, rfl⟩
    | some length =>
      simp only [returns_bind, lengthBytes_returns, returns_pure] at h
      obtain ⟨bytes, _, ⟨measures, rfl⟩, rfl, rfl⟩ := h
      exact ⟨⟨length, found, measures⟩, rfl⟩
  · rintro ⟨declares, rfl⟩
    cases declared with
    | none => exact ⟨none, st', ⟨declares, rfl⟩, by simp⟩
    | some bytes =>
      obtain ⟨length, found, measures⟩ := declares
      refine ⟨some length, st', ⟨found, rfl⟩, ?_⟩
      simp only [returns_bind, lengthBytes_returns, returns_pure]
      exact ⟨bytes, st', ⟨measures, rfl⟩, rfl, rfl⟩

@[simp] theorem node_returns {id : ElementId} {m : Node d.schema} :
    Returns (d.node id offset) st m st' ↔ d.schema.node? id = some m ∧ st' = st := by
  unfold node
  rcases found : d.schema.node? id with _ | m'
  · simp
  · simp [eq_comm]

theorem violation_returns {e : DecodeError} {u : Unit} (h : Returns (d.violation e) st u st')
    [ByteSource σ] [SliceLike σ] : st'.reading = st.reading := by
  simp only [violation, returns_ite, returns_throw, returns_bind, returns_record, returns_modify,
    and_false, false_or] at h
  obtain ⟨-, _, _, rfl, rfl⟩ := h
  rfl

/-! ## Failures that are no mismatch -/

theorem resolved_throws {s : Schema} {n : Node s} {α : Type} {r : Except CycleError α}
    {e : DecodeError} (h : Throws (resolved n offset r) st e st') : e.isMismatch = false := by
  obtain ⟨_, -, rfl, -⟩ := throws_resolved.mp h
  rfl

theorem evalInteger_throws {r : Reference} {e : DecodeError}
    (h : Throws (d.evalInteger p n offset r) st e st') : e.isMismatch = false := by
  cases r with
  | literal k => simp [evalInteger] at h
  | expression text =>
    rcases given : d.evaluator.evaluate (p.context d.schema) text with cause | ⟨k | id⟩ <;>
      simp only [evalInteger, given, throws_fail, throws_pure] at h <;> rw [h.1] <;> rfl

theorem node_throws {id : ElementId} {e : DecodeError}
    (h : Throws (d.node id offset) st e st') : e.isMismatch = false := by
  unfold node at h
  cases found : d.schema.node? id with
  | some m => simp [found] at h
  | none =>
    simp only [found, throws_throw] at h
    rw [h.1]
    rfl

/-! ## Reads within the frame -/

section Reads

variable [ByteSource σ] [SliceLike σ]

theorem checkBound_returns {count position : Nat}
    (h : Returns (d.checkBound p n count) st position st') :
    position = st.reading.cursor ∧ st.reading.cursor + count ≤ p.limit ∧
      st'.reading = st.reading := by
  simp only [checkBound, returns_bind, returns_guard_bind, returns_pure] at h
  obtain ⟨_, _, told, within, rfl, rfl⟩ := h
  obtain ⟨rfl, same⟩ := tell_returns told
  exact ⟨rfl, by omega, same⟩

theorem read_returns {count : Nat} {bytes : List UInt8}
    (h : Returns (d.read p n count) st bytes st') :
    bytes = window st.reading.data st.reading.cursor count ∧
      st.reading.cursor + count ≤ p.limit ∧
      st.reading.cursor + count ≤ st.reading.data.size ∧
      st'.reading = { st.reading with cursor := st.reading.cursor + count } := by
  simp only [read, returns_bind] at h
  obtain ⟨position, _, bounded, reads⟩ := h
  obtain ⟨rfl, within, same⟩ := checkBound_returns bounded
  obtain ⟨inside, rfl, moved⟩ := readExact_returns reads
  rw [same] at inside moved ⊢
  exact ⟨rfl, within, inside, moved⟩

theorem skip_returns {count : Nat} {u : Unit} (h : Returns (d.skip p n count) st u st') :
    st.reading.cursor + count ≤ p.limit ∧
      st'.reading = { st.reading with cursor := st.reading.cursor + count } := by
  simp only [skip, returns_bind] at h
  obtain ⟨position, _, bounded, seeks⟩ := h
  obtain ⟨rfl, within, same⟩ := checkBound_returns bounded
  have moved := seek_returns seeks
  rw [same] at moved
  exact ⟨within, moved⟩

end Reads

end BinaryTemplate.Decoder
