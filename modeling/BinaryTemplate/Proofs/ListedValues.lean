import BinaryTemplate.Proofs.Opening
import BinaryTemplate.Proofs.Unlisted

/-!
# Listed values

A field that lists values is decoded as it would be without the list, and what it stands for is
compared with the listed values in turn. The first equal one gives its name; where there is none
and the field must match, the decode fails at the start of the value. Integers, texts and runs of
bytes differ in what a listed value and a decoded one stand for, and in nothing else; so a
`Comparison` says that, and what the comparison comes to is said once for all three.
-/

namespace BinaryTemplate

/-! ## What is compared -/

def Payload.named {α : Type} (matched : Option String) : Payload α → Payload α
  | .number value _ masks bits => .number value matched masks bits
  | .string text _ => .string text matched
  | .binary _ => .binary matched
  | payload => payload

/-- The value with another name of the listed value that it equals. -/
def Value.named (matched : Option String) (v : Value) : Value :=
  { v with payload := v.payload.named matched }

/-- The integer that a number is; a float is none. -/
def NumberValue.integer? : NumberValue → Option Int
  | unsigned n => some n.toNat
  | signed n => some n.toInt
  | float _ => none

/-- How the values of a kind of field are compared with listed ones. -/
structure Comparison (α γ : Type) where
  /-- What a listed value stands for. -/
  meaning : α → γ
  /-- What a value decoded from the given file stands for. -/
  content? : Array UInt8 → Value → Option γ
  /-- How messages show what equals no listed value. -/
  shown : γ → String
  /-- How messages show a listed value. -/
  choice : NamedValue α → String

namespace Comparison

def integers : Comparison Int64 Int where
  meaning k := k.toInt
  content? _ v := v.number?.bind NumberValue.integer?
  shown := toString
  choice := Decoder.choiceText

def texts : Comparison String String where
  meaning := id
  content? _ v := v.text?
  shown := Text.quoted
  choice := Decoder.textChoice

def runs : Comparison (List UInt8) (List UInt8) where
  meaning := id
  content? data v :=
    if v.offset + v.len ≤ data.size then some (window data v.offset v.len) else none
  shown := Decoder.bytesPreview
  choice := Decoder.bytesChoice

/-- The first listed value that stands for the content. -/
def first? {α γ : Type} [DecidableEq γ] (κ : Comparison α γ) (choices : List (NamedValue α))
    (content : γ) : Option (NamedValue α) :=
  choices.find? fun c => κ.meaning c.value = content

/-- A listed value is an integer of 64 bits with a sign, so only such integers are listed. -/
theorem first?_integers (choices : List (NamedValue Int64)) {value : NumberValue} {k : Int}
    (integer : value.integer? = some k) :
    (value.toInt?.bind fun k => choices.find? (·.value == k)) = integers.first? choices k := by
  have narrows : value.toInt? = Integer.narrow? k := by
    cases value with
    | unsigned n =>
      cases integer
      rfl
    | signed n =>
      cases integer
      exact (Integer.narrow?_toInt n).symm
    | float x => cases integer
  rw [narrows]
  unfold first?
  cases narrow : Integer.narrow? k with
  | some i =>
    obtain rfl := Integer.toInt_narrow? narrow
    show choices.find? (·.value == i) = choices.find? fun c => c.value.toInt = i.toInt
    simp only [Int64.toInt_inj, beq_eq_decide]
  | none =>
    refine (List.find?_eq_none.mpr fun c _ isEqual => ?_).symm
    obtain rfl : c.value.toInt = k := of_decide_eq_true isEqual
    rw [Integer.narrow?_toInt] at narrow
    cases narrow

section Checking

open DecodeM

variable {σ α γ : Type} [DecidableEq γ]

/-- Compares the content of a field with the listed values; nothing but a field that must match
and does not is rejected. -/
def check {s : Schema} (κ : Comparison α γ) (n : Node s) (choices : List (NamedValue α))
    (must : Bool) (offset : Nat) (content : γ) : DecodeM σ (Option String) :=
  match κ.first? choices content with
  | some c => pure (some c.name)
  | none =>
    if must then
      throw ⟨n.id, n.label, offset, .mustMatch (κ.shown content) (choices.map κ.choice)⟩
    else pure none

theorem check_returns {s : Schema} {n : Node s} {κ : Comparison α γ}
    {choices : List (NamedValue α)} {must : Bool} {offset : Nat} {content : γ}
    {st st' : DecodeState σ} {name : Option String} :
    Returns (κ.check n choices must offset content) st name st' ↔
      (must = true → (κ.first? choices content).isSome) ∧
        name = (κ.first? choices content).map (·.name) ∧ st' = st := by
  unfold check
  cases found : κ.first? choices content with
  | some c => simp
  | none => cases must <;> simp

end Checking

end Comparison

theorem NumberValue.text_eq {value : NumberValue} {k : Int} (integer : value.integer? = some k) :
    value.text = toString k := by
  cases value with
  | unsigned n =>
    cases integer
    rfl
  | signed n =>
    cases integer
    rfl
  | float x => cases integer

namespace Decoder

open DecodeM

/-! ## Comparing steps -/

section Comparing

variable {σ α β γ : Type} [DecidableEq γ] {d : Decoder σ} {n : Node d.schema}

/-- From a state, the step `listed` compares what the step `plain` decodes with listed values.
`present` says that the bytes that are compared are in the file. -/
structure Compares [ByteSource σ] [SliceLike σ] (κ : Comparison α γ) (n : Node d.schema)
    (present : Prop) (choices : List (NamedValue α)) (must : Bool)
    (listed plain : DecodeM σ Value) (st : DecodeState σ) : Prop where
  /-- It succeeds where the other one does and, if it must match, a listed value is equal. The
  first equal one gives its name, and the rest of the value is that of the other step. -/
  returns : ∀ v, (∃ st', Returns listed st v st') ↔
    ∃ w after content, Returns plain st w after ∧
      κ.content? st.reading.data w = some content ∧
      (must = true → (κ.first? choices content).isSome) ∧
      v = w.named ((κ.first? choices content).map (·.name))
  /-- The decode goes on behind it as behind the other step. -/
  resumes : ∀ v st' w after, Returns listed st v st' → Returns plain st w after →
    after.Resumes st'
  /-- Where no listed value is equal but one has to be, the error says so at the start of the
  value, and lists them all in order. -/
  rejects : must = true → ∀ w after content, Returns plain st w after →
    κ.content? st.reading.data w = some content → κ.first? choices content = none →
    ∃ st', Throws listed st
      ⟨n.id, n.label, w.offset, .mustMatch (κ.shown content) (choices.map κ.choice)⟩ st'
  /-- What is compared is there. -/
  comparable : present → ∀ w after, Returns plain st w after →
    ∃ content, κ.content? st.reading.data w = some content

variable [ByteSource σ] [SliceLike σ] {κ : Comparison α γ} {present : Prop}
  {choices : List (NamedValue α)} {must : Bool} {listed plain : DecodeM σ Value}
  {st start : DecodeState σ}

/-- Steps that end as ones that compare do compare. -/
theorem Compares.of_ending {listed' plain' : DecodeM σ Value}
    (compares : Compares κ n present choices must listed plain start)
    (same : start.reading = st.reading) (ends : listed'.ending st = listed.ending start)
    (endsPlain : plain'.ending st = plain.ending start) :
    Compares κ n present choices must listed' plain' st := by
  have returnsAs (v : Value) (after : DecodeState σ) :
      Returns listed' st v after ↔ Returns listed start v after := by rw [Returns, ends, Returns]
  have plainAs (w : Value) (after : DecodeState σ) :
      Returns plain' st w after ↔ Returns plain start w after := by rw [Returns, endsPlain, Returns]
  have throwsAs (e : DecodeError) (after : DecodeState σ) :
      Throws listed' st e after ↔ Throws listed start e after := by rw [Throws, ends, Throws]
  obtain ⟨returns, resumes, rejects, comparable⟩ := compares
  constructor <;> simp only [returnsAs, plainAs, throwsAs, ← same] <;> assumption

/-- Where both steps fail there is nothing to compare. -/
theorem Compares.of_failing (fails : ∀ v st', ¬ Returns listed st v st')
    (plainFails : ∀ w after, ¬ Returns plain st w after) :
    Compares κ n present choices must listed plain st where
  returns v := by
    constructor
    · rintro ⟨st', returned⟩
      exact absurd returned (fails v st')
    · rintro ⟨w, after, -, returned, -⟩
      exact absurd returned (plainFails w after)
  resumes v st' _ _ returned _ := absurd returned (fails v st')
  rejects _ w after _ returned _ _ := absurd returned (plainFails w after)
  comparable _ w after returned := absurd returned (plainFails w after)

/-- A field that is read, compared and finished, where the reading and the finishing are those of
the field that is not compared. -/
theorem compares_between {read : DecodeM σ β} {matched : β → DecodeM σ (Option String)}
    {finish : β → DecodeM σ Value} (offset : β → Nat)
    (step : ∀ b mid, Returns read st b mid → ∃ content,
      matched b = κ.check n choices must (offset b) content ∧
        ∀ w after, Returns (finish b) mid w after →
          w.offset = offset b ∧ κ.content? st.reading.data w = some content) :
    Compares κ n present choices must
      (read >>= fun b => matched b >>= fun name => Value.named name <$> finish b)
      (read >>= finish) st := by
  -- What is read settles the content, and comparing moves nothing: both finish from one state.
  constructor
  · intro v
    simp only [returns_bind, map_eq_pure_bind, returns_pure]
    constructor
    · rintro ⟨st', b, mid, reads, name, mid', compared, w, after, finished, rfl, rfl⟩
      obtain ⟨content, isCompared, known⟩ := step b mid reads
      rw [isCompared, Comparison.check_returns] at compared
      obtain ⟨accepted, rfl, rfl⟩ := compared
      exact ⟨w, _, content, ⟨b, mid', reads, finished⟩, (known w _ finished).2, accepted, rfl⟩
    · rintro ⟨w, after, content, ⟨b, mid, reads, finished⟩, isContent, accepted, rfl⟩
      obtain ⟨content', isCompared, known⟩ := step b mid reads
      obtain rfl : content' = content :=
        Option.some.inj ((known w after finished).2.symm.trans isContent)
      refine ⟨after, b, mid, reads, _, mid, ?_, w, after, finished, rfl, rfl⟩
      rw [isCompared, Comparison.check_returns]
      exact ⟨accepted, rfl, rfl⟩
  · intro v st' w after returned returnedPlain
    simp only [returns_bind, map_eq_pure_bind, returns_pure] at returned returnedPlain
    obtain ⟨b, mid, reads, name, mid', compared, w', after', finished, rfl, rfl⟩ := returned
    obtain ⟨b', mid'', reads', finished'⟩ := returnedPlain
    obtain ⟨rfl, rfl⟩ := reads.unique reads'
    obtain ⟨content, isCompared, -⟩ := step b mid reads
    rw [isCompared, Comparison.check_returns] at compared
    obtain ⟨-, -, rfl⟩ := compared
    obtain ⟨-, rfl⟩ := finished.unique finished'
    exact .refl _
  · rintro rfl w after content returned isContent unequal
    obtain ⟨b, mid, reads, finished⟩ := returns_bind.mp returned
    obtain ⟨content', isCompared, known⟩ := step b mid reads
    obtain ⟨start, isContent'⟩ := known w after finished
    obtain rfl : content' = content := Option.some.inj (isContent'.symm.trans isContent)
    refine ⟨mid, (throws_behind reads).mpr (throws_bind.mpr (.inl ?_))⟩
    rw [isCompared, Comparison.check, unequal, start]
    exact throws_throw.mpr ⟨rfl, rfl⟩
  · intro _ w after returned
    obtain ⟨b, mid, reads, finished⟩ := returns_bind.mp returned
    obtain ⟨content, -, known⟩ := step b mid reads
    exact ⟨content, (known w after finished).2⟩

end Comparing

/-! ## Fields that compare -/

section Fields

theorem resolved_ok {σ α : Type} {s : Schema} {n : Node s} {offset : Nat} (a : α) :
    (resolved n offset (.ok a) : DecodeM σ α) = pure a := rfl

variable {σ : Type} {d : Decoder σ} {p : Place} {n : Node d.schema} {must : Bool} {offset : Nat}

section Matching

variable (mustMatch : n.mustMatch = .ok must) (strict : must = true → d.options.strict = true)

include mustMatch strict

/-- What a field does that equals no listed value: it violates its constraint if it must match. -/
theorem unmatched_eq (e : DecodeError) :
    (resolved n offset n.mustMatch >>= fun must =>
        if must then d.violation e >>= fun _ => pure none else pure none) =
      (if must then throw e else pure none : DecodeM σ (Option String)) := by
  rw [mustMatch]
  cases must with
  | true =>
    show (d.violation e >>= fun _ => pure none) = throw e
    rw [violation, if_pos (strict rfl)]
    rfl
  | false => rfl

theorem matchNumber_listed {choices : List (NamedValue Int64)} {value : NumberValue} {k : Int}
    (values : n.numberValues = .ok choices) (listed : choices.isEmpty = false)
    (integer : value.integer? = some k) :
    d.matchNumber n offset value = Comparison.integers.check n choices must offset k := by
  rw [matchNumber, values, resolved_ok, pure_bind, Comparison.first?_integers choices integer,
    value.text_eq integer, Comparison.check]
  cases Comparison.integers.first? choices k with
  | some c => simp only [Option.isNone_some, Bool.and_false, Bool.false_eq_true, if_false]; rfl
  | none =>
    simp only [listed, Option.isNone_none, Bool.not_false, Bool.and_self, if_true]
    exact unmatched_eq mustMatch strict _

theorem matchString_listed {choices : List (NamedValue String)} {text : String}
    (values : n.stringValues = .ok choices) (listed : choices.isEmpty = false) :
    d.matchString n offset text = Comparison.texts.check n choices must offset text := by
  rw [matchString, values, resolved_ok, pure_bind, Comparison.check]
  have found : choices.find? (·.value == text) = Comparison.texts.first? choices text := rfl
  rw [found]
  cases Comparison.texts.first? choices text with
  | some c => simp only [Option.isNone_some, Bool.and_false, Bool.false_eq_true, if_false]; rfl
  | none =>
    simp only [listed, Option.isNone_none, Bool.not_false, Bool.and_self, if_true]
    exact unmatched_eq mustMatch strict _

theorem matchBytes_listed [ByteSource σ] {choices : List (NamedValue (List UInt8))} {count : Nat} :
    d.matchBytes p n offset count choices =
      d.read p n count >>= Comparison.runs.check n choices must offset := by
  unfold matchBytes
  refine bind_congr fun bytes => ?_
  rw [Comparison.check]
  have found : choices.find? (·.value == bytes) = Comparison.runs.first? choices bytes := by
    simp only [beq_eq_decide]
    rfl
  rw [found]
  cases Comparison.runs.first? choices bytes with
  | some c => rfl
  | none =>
    simp only [Option.isNone_none, if_true]
    exact unmatched_eq mustMatch strict _

end Matching

/-! ### Numbers -/

/-- What is read of a number before it is compared with anything. -/
structure NumberRead where
  offset : Nat
  len : Nat
  value : NumberValue
  bits : Option BitSpan
  order : ByteOrder

section Numbers

variable [ByteSource σ]

def readNumber (d : Decoder σ) (p : Place) (n : Node d.schema) : DecodeM σ NumberRead := do
  let offset ← tell n
  let kind ← resolved n offset n.numberKind
  let order ← resolved n offset n.byteOrder
  match ← resolved n offset (n.lookup .valueExpression) with
  | some expression =>
    let k ← d.evalInteger p n offset expression
    let (start, len) ← d.computedPlace p n offset
    return ⟨start, len, computedValue kind k, none, order⟩
  | none =>
    let r ← d.readRaw p n order
    let value ← d.interpret n kind r
    return ⟨r.offset, r.len, value, r.bits, order⟩

/-- The number that was read, checked against its bounds. -/
def boundNumber (d : Decoder σ) (p : Place) (n : Node d.schema) (r : NumberRead) :
    DecodeM σ Value := do
  d.checkRange p n r.offset r.value
  let masks ← resolved n r.offset n.masks
  record (.numberDecoded n.label r.value)
  return ⟨n.id, r.offset, r.len, some r.order,
    .number r.value none (masks.map (extract r.value.rawBits)) r.bits, []⟩

theorem decodeNumber_eq :
    d.decodeNumber p n = d.readNumber p n >>= fun r => d.matchNumber n r.offset r.value >>=
      fun name => Value.named name <$> d.boundNumber p n r := by
  unfold decodeNumber readNumber
  simp only [bind_assoc]
  refine bind_congr fun offset => bind_congr fun kind => bind_congr fun order =>
    bind_congr fun expression => ?_
  cases expression <;>
    simp only [bind_assoc, pure_bind, finishNumber, boundNumber, map_eq_pure_bind] <;> rfl

/-- Numbers but floats stand for an integer, as they are read and as they are computed. -/
theorem readNumber_integer [SliceLike σ] {kind : NumberKind} {r : NumberRead}
    {st st' : DecodeState σ} (ofKind : n.numberKind = .ok kind) (whole : kind ≠ .float)
    (h : Returns (d.readNumber p n) st r st') : ∃ k, r.value.integer? = some k := by
  simp only [readNumber, ofKind, returns_bind, returns_resolved] at h
  obtain ⟨_, _, -, _, _, ⟨known, rfl⟩, order, _, -, expression, _, -, h⟩ := h
  cases known
  cases expression with
  | some expression =>
    simp only [returns_bind, returns_pure] at h
    obtain ⟨k, _, -, _, _, -, rfl, -⟩ := h
    cases kind with
    | unsigned =>
      show ∃ m, (if 0 ≤ k.toInt then _ else _ : NumberValue).integer? = some m
      split <;> exact ⟨_, rfl⟩
    | signed => exact ⟨_, rfl⟩
    | float => exact absurd rfl whole
  | none =>
    simp only [returns_bind, returns_pure] at h
    obtain ⟨r, _, -, value, _, interprets, rfl, -⟩ := h
    obtain ⟨means, -⟩ := interpret_returns interprets
    cases means with
    | unsigned => exact ⟨_, rfl⟩
    | signed => exact ⟨_, rfl⟩
    | single => exact absurd rfl whole
    | double => exact absurd rfl whole

omit [ByteSource σ] in
theorem boundNumber_returns {r : NumberRead} {w : Value} {st after : DecodeState σ}
    (h : Returns (d.boundNumber p n r) st w after) :
    w.offset = r.offset ∧ w.number? = some r.value := by
  simp only [boundNumber, returns_bind, returns_pure] at h
  obtain ⟨-, -, -, -, -, -, -, -, -, rfl, -⟩ := h
  exact ⟨rfl, rfl⟩

/-- Without its list a number is matched with nothing. -/
theorem decodeNumber_unlisted (overlooks : d.OverlooksList n.id) {body : NumberBody}
    (kind : n.kind = .number body) :
    (d.unlisted n.id).decodeNumber p n.unlisted = d.readNumber p n >>= d.boundNumber p n := by
  have alike := lookalikes_unlisted overlooks p
  have reads : (d.unlisted n.id).readNumber p n.unlisted = d.readNumber p n := by
    simp only [readNumber, alike.names.tell, alike.numberKind, alike.byteOrder,
      alike.valueExpression, alike.names.resolved, alike.evalInteger, alike.computedPlace,
      alike.readRaw, alike.interpret]
  have bounds (r : NumberRead) :
      (d.unlisted n.id).boundNumber p n.unlisted r = d.boundNumber p n r := by
    simp only [boundNumber, alike.checkRange, alike.masks, alike.names.resolved,
      alike.names.label, alike.names.id]
  rw [decodeNumber_eq, reads]
  refine bind_congr fun r => ?_
  rw [bounds, matchNumber, n.numberValues_unlisted kind]
  -- Nothing in an empty list is equal, and an empty list rejects nothing.
  show Value.named ((r.value.toInt?.bind fun _ => none).map _) <$> d.boundNumber p n r = _
  have unmatched : (r.value.toInt?.bind fun _ => (none : Option (NamedValue Int64))) = none := by
    cases r.value.toInt? <;> rfl
  rw [unmatched]
  simp only [boundNumber, map_bind, map_pure]
  rfl

theorem decodeNumber_compares [SliceLike σ] {must : Bool} {st : DecodeState σ}
    {choices : List (NamedValue Int64)} {body : NumberBody} {number : NumberKind}
    (overlooks : d.OverlooksList n.id) (mustMatch : n.mustMatch = .ok must)
    (strict : must = true → d.options.strict = true) (kind : n.kind = .number body)
    (ofKind : n.numberKind = .ok number) (whole : number ≠ .float)
    (values : n.numberValues = .ok choices) (listed : choices.isEmpty = false) :
    Compares .integers n True choices must (d.decodeNumber p n)
      ((d.unlisted n.id).decodeNumber p n.unlisted) st := by
  rw [decodeNumber_unlisted overlooks kind, decodeNumber_eq]
  refine compares_between NumberRead.offset fun r mid reads => ?_
  obtain ⟨k, integer⟩ := readNumber_integer ofKind whole reads
  refine ⟨k, matchNumber_listed mustMatch strict values listed integer, fun w after bounded => ?_⟩
  obtain ⟨start, number⟩ := boundNumber_returns bounded
  refine ⟨start, ?_⟩
  show w.number?.bind NumberValue.integer? = some k
  rw [number]
  exact integer

end Numbers

/-! ### Texts -/

/-- What is read of a string before it is compared with anything. -/
structure TextRead where
  offset : Nat
  len : Nat
  text : String

section Texts

variable [ByteSource σ]

def readText (d : Decoder σ) (p : Place) (n : Node d.schema) : DecodeM σ TextRead := do
  align
  let offset ← tell n
  let label ← resolved n offset n.encoding
  match d.encodings.ofLabel? label with
  | none => fail n offset (.unsupported (.unknownEncoding label))
  | some encoding =>
    let delimiter ← resolved n offset (n.lookup .delimiter)
    let kind ← resolved n offset (n.lookup .stringKind)
    let declared ← d.declaredBytes p n offset
    let bytes ← d.readFramed p n offset encoding (effectiveKind kind delimiter) delimiter declared
    let stop ← tellAt n offset
    match d.encodings.decode? encoding bytes with
    | none => fail n offset (.malformed encoding)
    | some chars => return ⟨offset, stop - offset, String.ofList chars⟩

def finishText {s : Schema} (n : Node s) (t : TextRead) : DecodeM σ Value := do
  record (.stringDecoded n.label t.text)
  return ⟨n.id, t.offset, t.len, none, .string t.text none, []⟩

theorem decodeString_eq :
    d.decodeString p n = d.readText p n >>= fun t =>
      d.matchString n t.offset t.text >>= fun name => Value.named name <$> finishText n t := by
  unfold decodeString readText
  simp only [bind_assoc]
  refine bind_congr fun _ => bind_congr fun offset => bind_congr fun label => ?_
  cases d.encodings.ofLabel? label with
  | none => rfl
  | some encoding =>
    simp only [bind_assoc]
    refine bind_congr fun delimiter => bind_congr fun kind => bind_congr fun declared =>
      bind_congr fun bytes => bind_congr fun stop => ?_
    cases d.encodings.decode? encoding bytes with
    | none => rfl
    | some chars => simp only [pure_bind, finishText, map_bind, map_pure]; rfl

theorem decodeString_unlisted (overlooks : d.OverlooksList n.id) {body : StringBody}
    (kind : n.kind = .string body) :
    (d.unlisted n.id).decodeString p n.unlisted = d.readText p n >>= finishText n := by
  have alike := lookalikes_unlisted overlooks p
  have reads : (d.unlisted n.id).readText p n.unlisted = d.readText p n := by
    simp only [readText, alike.names.tell, alike.encoding, alike.delimiter, alike.stringKind,
      alike.names.resolved, alike.names.fail, alike.declaredBytes, alike.readFramed,
      alike.names.tellAt]
  rw [decodeString_eq, reads]
  refine bind_congr fun t => ?_
  rw [matchString, n.stringValues_unlisted kind]
  show Value.named none <$> finishText n.unlisted t = finishText n t
  simp only [finishText, alike.names.label, alike.names.id, map_bind, map_pure]
  rfl

theorem decodeString_compares [SliceLike σ] {must : Bool} {st : DecodeState σ}
    {choices : List (NamedValue String)} {body : StringBody} (overlooks : d.OverlooksList n.id)
    (mustMatch : n.mustMatch = .ok must) (strict : must = true → d.options.strict = true)
    (kind : n.kind = .string body) (values : n.stringValues = .ok choices)
    (listed : choices.isEmpty = false) :
    Compares .texts n True choices must (d.decodeString p n)
      ((d.unlisted n.id).decodeString p n.unlisted) st := by
  rw [decodeString_unlisted overlooks kind, decodeString_eq]
  refine compares_between TextRead.offset fun t mid _ => ?_
  refine ⟨t.text, matchString_listed mustMatch strict values listed, fun w after finished => ?_⟩
  simp only [finishText, returns_bind, returns_pure] at finished
  obtain ⟨_, _, -, rfl, -⟩ := finished
  exact ⟨rfl, rfl⟩

end Texts

/-! ### Runs of bytes -/

section Runs

variable [ByteSource σ]

/-- Where a run of bytes starts and how many bytes it has. -/
def placeRun (d : Decoder σ) (p : Place) (n : Node d.schema) : DecodeM σ (Nat × Nat) := do
  align
  let offset ← tell n
  let declared ← d.declaredBytes p n offset
  return (offset, declared.getD (p.limit - offset))

omit [ByteSource σ] in
def finishRun {s : Schema} (n : Node s) (offset count : Nat) : DecodeM σ Value := do
  record (.bytesSkipped n.label count offset)
  return ⟨n.id, offset, count, none, .binary none, []⟩

theorem decodeBinary_listed {must : Bool} {choices : List (NamedValue (List UInt8))}
    (mustMatch : n.mustMatch = .ok must) (strict : must = true → d.options.strict = true)
    (values : n.binaryValues = .ok choices) (listed : choices.isEmpty = false) :
    d.decodeBinary p n = d.placeRun p n >>= fun (offset, count) =>
      d.read p n count >>= fun bytes => Comparison.runs.check n choices must offset bytes >>=
        fun name => Value.named name <$> finishRun n offset count := by
  unfold decodeBinary placeRun
  simp only [bind_assoc, pure_bind]
  refine bind_congr fun _ => bind_congr fun offset => bind_congr fun declared => ?_
  rw [values, resolved_ok, pure_bind, listed, matchBytes_listed mustMatch strict]
  simp only [Bool.false_eq_true, if_false, bind_assoc, finishRun, map_bind, map_pure]
  rfl

/-- Without its list the bytes of a run are only skipped. -/
theorem decodeBinary_unlisted (overlooks : d.OverlooksList n.id) {body : BinaryBody}
    (kind : n.kind = .binary body) :
    (d.unlisted n.id).decodeBinary p n.unlisted = d.placeRun p n >>= fun (offset, count) =>
      d.skip p n count >>= fun _ => finishRun n offset count := by
  have alike := lookalikes_unlisted overlooks p
  have finishes (offset count : Nat) :
      (finishRun n.unlisted offset count : DecodeM σ Value) = finishRun n offset count := by
    rw [finishRun, finishRun, alike.names.label]
    rfl
  unfold decodeBinary placeRun
  simp only [alike.names.tell, alike.declaredBytes, n.binaryValues_unlisted kind,
    alike.names.resolved, alike.skip, bind_assoc, pure_bind]
  refine bind_congr fun _ => bind_congr fun offset => bind_congr fun declared => ?_
  rw [resolved_ok, pure_bind, ← finishes]
  simp only [List.isEmpty_nil, if_true]
  rfl

variable {st st' : DecodeState σ} {offset count : Nat}

omit [ByteSource σ] in
@[simp] theorem finishRun_returns {w : Value} :
    Returns (finishRun n offset count) st w st' ↔
      w = ⟨n.id, offset, count, none, .binary none, []⟩ ∧
        st' = { st with events := .bytesSkipped n.label count offset :: st.events } := by
  simp only [finishRun, returns_bind, returns_record, returns_pure]
  constructor
  · rintro ⟨_, _, rfl, rfl, rfl⟩
    exact ⟨rfl, rfl⟩
  · rintro ⟨rfl, rfl⟩
    exact ⟨(), _, rfl, rfl, rfl⟩

variable [SliceLike σ]

theorem placeRun_returns (h : Returns (d.placeRun p n) st (offset, count) st') :
    st'.reading.cursor = offset ∧ st'.reading.data = st.reading.data := by
  simp only [placeRun, returns_bind, returns_align, declaredBytes_returns, returns_pure] at h
  obtain ⟨_, _, rfl, position, placed, tells, declared, _, ⟨-, rfl⟩, ended, rfl⟩ := h
  cases ended
  obtain ⟨rfl, same⟩ := tell_returns tells
  rw [same]
  exact ⟨rfl, rfl⟩

/-- Bytes in memory are there to be compared wherever they can be skipped. -/
theorem decodeBinary_compares {must : Bool} {choices : List (NamedValue (List UInt8))}
    {body : BinaryBody} (overlooks : d.OverlooksList n.id) (mustMatch : n.mustMatch = .ok must)
    (strict : must = true → d.options.strict = true) (kind : n.kind = .binary body)
    (values : n.binaryValues = .ok choices) (listed : choices.isEmpty = false) :
    Compares .runs n (p.limit ≤ st.reading.data.size) choices must (d.decodeBinary p n)
      ((d.unlisted n.id).decodeBinary p n.unlisted) st := by
  rw [decodeBinary_unlisted overlooks kind, decodeBinary_listed mustMatch strict values listed]
  -- The bytes at the place of the value, read or skipped.
  have holds {offset count : Nat} {mid : DecodeState σ} {content : List UInt8}
      (placed : Returns (d.placeRun p n) st (offset, count) mid)
      (isContent : Comparison.runs.content? st.reading.data
        ⟨n.id, offset, count, none, .binary none, []⟩ = some content) :
      mid.reading.cursor + count ≤ mid.reading.data.size ∧
        content = window mid.reading.data mid.reading.cursor count := by
    obtain ⟨here, same⟩ := placeRun_returns placed
    have isContent : (if offset + count ≤ st.reading.data.size then
      some (window st.reading.data offset count) else none) = some content := isContent
    split at isContent
    · next inside =>
      cases isContent
      rw [here, same]
      exact ⟨inside, rfl⟩
    · cases isContent
  constructor
  · intro v
    simp only [returns_bind, map_eq_pure_bind, returns_pure, finishRun_returns,
      Comparison.check_returns]
    constructor
    · rintro ⟨_, ⟨offset, count⟩, mid, placed, bytes, behind, reads, name, _,
        ⟨accepted, rfl, rfl⟩, w, _, ⟨rfl, rfl⟩, rfl, rfl⟩
      obtain ⟨here, same⟩ := placeRun_returns placed
      obtain ⟨rfl, within, inside, -⟩ := read_returns reads
      obtain ⟨skipped, skips, -⟩ := skip_delivers within mid rfl
      refine ⟨_, _, _, ⟨(offset, count), mid, placed, (), skipped, skips, rfl, rfl⟩, ?_,
        accepted, rfl⟩
      rw [here, same] at inside ⊢
      exact if_pos inside
    · rintro ⟨w, _, content, ⟨⟨offset, count⟩, mid, placed, _, skipped, skips, rfl, rfl⟩,
        isContent, accepted, rfl⟩
      obtain ⟨inside, rfl⟩ := holds placed isContent
      obtain ⟨within, -⟩ := skip_returns skips
      obtain ⟨behind, reads, -⟩ := read_delivers ⟨within, inside⟩ mid rfl
      exact ⟨_, (offset, count), mid, placed, _, behind, reads, _, _, ⟨accepted, rfl, rfl⟩, _, _,
        ⟨rfl, rfl⟩, rfl, rfl⟩
  · intro v st' w after returned returnedPlain
    simp only [returns_bind, map_eq_pure_bind, returns_pure, finishRun_returns,
      Comparison.check_returns] at returned returnedPlain
    obtain ⟨⟨offset, count⟩, mid, placed, bytes, behind, reads, name, _, ⟨-, -, rfl⟩, _, _,
      ⟨-, rfl⟩, -, rfl⟩ := returned
    obtain ⟨b, mid', placed', _, skipped, skips, -, rfl⟩ := returnedPlain
    obtain ⟨rfl, rfl⟩ := placed.unique placed'
    obtain ⟨-, within, inside, moved⟩ := read_returns reads
    obtain ⟨behind', reads', -, kept⟩ := read_delivers ⟨within, inside⟩ mid rfl
    obtain ⟨skipped', skips', moved', kept'⟩ := skip_delivers within mid rfl
    obtain ⟨-, rfl⟩ := reads.unique reads'
    obtain ⟨-, rfl⟩ := skips.unique skips'
    exact ⟨moved.trans moved'.symm, kept.trans kept'.symm⟩
  · rintro rfl w after content returned isContent unequal
    simp only [returns_bind, finishRun_returns] at returned
    obtain ⟨⟨offset, count⟩, mid, placed, _, skipped, skips, rfl, -⟩ := returned
    obtain ⟨inside, rfl⟩ := holds placed isContent
    obtain ⟨within, -⟩ := skip_returns skips
    obtain ⟨behind, reads, -⟩ := read_delivers ⟨within, inside⟩ mid rfl
    refine ⟨behind, (throws_behind placed).mpr ((throws_behind reads).mpr
      (throws_bind.mpr (.inl ?_)))⟩
    rw [Comparison.check, unequal]
    exact throws_throw.mpr ⟨rfl, rfl⟩
  · intro present w after returned
    simp only [returns_bind, finishRun_returns] at returned
    obtain ⟨⟨offset, count⟩, mid, placed, _, skipped, skips, rfl, -⟩ := returned
    obtain ⟨here, -⟩ := placeRun_returns placed
    obtain ⟨within, -⟩ := skip_returns skips
    rw [here] at within
    exact ⟨_, if_pos (within.trans present)⟩

end Runs

/-! ## Elements that compare -/

section Elements

variable [ByteSource σ] [SliceLike σ]

/-- The decode of a field, with its list and without it, is that of its kind from one state on. -/
theorem decodeOne_unlisted (depth : Nat) (st : DecodeState σ) :
    ∃ start : DecodeState σ, start.reading = st.reading ∧
      (d.decodeOne (depth + 1) p n).ending st =
        (d.decodeKind (d.decodeOne depth) p n st.reading.cursor).ending start ∧
      ((d.unlisted n.id).decodeOne (depth + 1) p n.unlisted).ending st =
        ((d.unlisted n.id).decodeKind ((d.unlisted n.id).decodeOne depth) p n.unlisted
          st.reading.cursor).ending start := by
  have names := n.namesakes_unlisted
  have kind : n.unlisted.kind.name = n.kind.name := n.kind.name_unlisted
  have recorded : Returns (record (.tried n.kind.name)) st ()
    { st with events := .tried n.kind.name :: st.events } := returns_record.mpr rfl
  obtain ⟨start, tells, resumes⟩ :=
    tell_succeeds n { st with events := .tried n.kind.name :: st.events }
  refine ⟨start, resumes.reading, ?_, ?_⟩
  · rw [decodeOne, ending_behind recorded, ending_behind tells]
    rfl
  · rw [decodeOne, kind, names.tell, ending_behind recorded, ending_behind tells]
    rfl

/-- Listed values decide exactly. At every depth, place and state, a number of an integer kind, a
string or a run of bytes with a list succeeds where it does without the list and, if it must match,
equals a listed value; the first equal one gives its name, and the rest is as without the list.
What must match and equals none is an error at the start of the value that lists them all. -/
theorem listed_values_decide (d : Decoder σ) (n : Node d.schema)
    (overlooks : d.OverlooksList n.id) (must : Bool) (mustMatch : n.mustMatch = .ok must)
    (strict : must = true → d.options.strict = true) (depth : Nat) (p : Place)
    (st : DecodeState σ) :
    let listed := d.decodeOne depth p n
    let plain := (d.unlisted n.id).decodeOne depth p n.unlisted
    (∀ body number choices, n.kind = .number body → n.numberKind = .ok number →
        number ≠ .float → n.numberValues = .ok choices → choices ≠ [] →
        Compares .integers n True choices must listed plain st) ∧
      (∀ body choices, n.kind = .string body → n.stringValues = .ok choices → choices ≠ [] →
        Compares .texts n True choices must listed plain st) ∧
      ∀ body choices, n.kind = .binary body → n.binaryValues = .ok choices → choices ≠ [] →
        Compares .runs n (p.limit ≤ st.reading.data.size) choices must listed plain st := by
  intro listed plain
  cases depth with
  | zero =>
    have fails (v : Value) (st' : DecodeState σ) : ¬ Returns listed st v st' := by
      intro returned
      obtain ⟨rest, -, impossible, -⟩ := decodeOne_kinds returned
      cases impossible
    have plainFails (w : Value) (after : DecodeState σ) : ¬ Returns plain st w after := by
      intro returned
      obtain ⟨rest, -, impossible, -⟩ := decodeOne_kinds returned
      cases impossible
    refine ⟨?_, ?_, ?_⟩ <;> intros <;> exact .of_failing fails plainFails
  | succ depth =>
    obtain ⟨start, same, ends, endsPlain⟩ := decodeOne_unlisted (p := p) (n := n) depth st
    have kinds (kind : Kind) (own : n.kind = kind) : n.unlisted.kind = kind.unlisted :=
      congrArg Kind.unlisted own
    refine ⟨?_, ?_, ?_⟩
    · intro body number choices kind ofKind whole values some_
      simp only [decodeKind, kind, kinds _ kind, Kind.unlisted] at ends endsPlain
      exact (decodeNumber_compares overlooks mustMatch strict kind ofKind whole values
        (List.isEmpty_eq_false_iff.mpr some_)).of_ending same ends endsPlain
    · intro body choices kind values some_
      simp only [decodeKind, kind, kinds _ kind, Kind.unlisted] at ends endsPlain
      exact (decodeString_compares overlooks mustMatch strict kind values
        (List.isEmpty_eq_false_iff.mpr some_)).of_ending same ends endsPlain
    · intro body choices kind values some_
      simp only [decodeKind, kind, kinds _ kind, Kind.unlisted] at ends endsPlain
      rw [← same]
      exact (decodeBinary_compares overlooks mustMatch strict kind values
        (List.isEmpty_eq_false_iff.mpr some_)).of_ending same ends endsPlain

end Elements

end Fields

/-! ## Marks -/

/-- A number that must be a listed one, a text that may be, and a run of bytes that must be. -/
def marks : Decoder Slice where
  schema :=
    { elements := #[
        ⟨{}, .number
          { extent := { length := some (.literal 1) }
            values := some [⟨"one", 1⟩, ⟨"unity", 1⟩] }⟩,
        ⟨{}, .string
          { extent := { length := some (.literal 2) }
            values := some [⟨"greeting", "hi"⟩]
            mustMatch := some false }⟩,
        ⟨{}, .binary
          { extent := { length := some (.literal 1) }
            values := some [⟨"seven", [7]⟩] }⟩]
      root := ⟨0⟩ }

def numberMark : Node marks.schema := ⟨⟨0⟩, _, rfl⟩

def textMark : Node marks.schema := ⟨⟨1⟩, _, rfl⟩

def runMark : Node marks.schema := ⟨⟨2⟩, _, rfl⟩

def marked (bytes : Array UInt8) : DecodeState Slice := { source := ⟨bytes, 0⟩ }

/-- A mark as it is decoded without its list. -/
def plainMark (n : Node marks.schema) (bytes : Array UInt8) :
    Except DecodeError Value × DecodeState Slice :=
  ((marks.unlisted n.id).decodeOne 1 (startPlace n.id 0 bytes.size) n.unlisted).ending
    (marked bytes)

theorem plainMark_number (byte : UInt8) (known : byte = 1 ∨ byte = 2) :
    (plainMark numberMark #[byte]).1 =
      .ok ⟨⟨0⟩, 0, 1, some .little, .number (.unsigned byte.toUInt64) none [] none, []⟩ := by
  obtain rfl | rfl := known <;> cbv

theorem plainMark_text :
    (plainMark textMark #[0x68, 0x6F]).1 = .ok ⟨⟨1⟩, 0, 2, none, .string "ho" none, []⟩ := by
  cbv

theorem plainMark_run : (plainMark runMark #[7]).1 = .ok ⟨⟨2⟩, 0, 1, none, .binary none, []⟩ := by
  cbv

/-- The first of two equal entries gives its name; a number that equals none is an error with
both, and a text that need not equal any is not. -/
theorem listed_values_decide_marks :
    (∃ st', Returns (marks.decodeOne 1 (startPlace ⟨0⟩ 0 1) numberMark) (marked #[1])
        ⟨⟨0⟩, 0, 1, some .little, .number (.unsigned 1) (some "one") [] none, []⟩ st') ∧
      (∃ st', Throws (marks.decodeOne 1 (startPlace ⟨0⟩ 0 1) numberMark) (marked #[2])
        ⟨⟨0⟩, "number#0", 0, .mustMatch "2" ["one=1", "unity=1"]⟩ st') ∧
      (∃ st', Returns (marks.decodeOne 1 (startPlace ⟨1⟩ 0 2) textMark) (marked #[0x68, 0x6F])
        ⟨⟨1⟩, 0, 2, none, .string "ho" none, []⟩ st') ∧
      ∃ st', Returns (marks.decodeOne 1 (startPlace ⟨2⟩ 0 1) runMark) (marked #[7])
        ⟨⟨2⟩, 0, 1, none, .binary (some "seven"), []⟩ st' := by
  have number (bytes : Array UInt8) := (listed_values_decide marks numberMark
    (overlooksList_of_standard rfl _) true (by cbv) (fun _ => rfl) 1 (startPlace ⟨0⟩ 0 bytes.size)
    (marked bytes)).1 _ .unsigned _ rfl (by cbv) (by decide) (by cbv) (by decide)
  have text := (listed_values_decide marks textMark (overlooksList_of_standard rfl _) false (by cbv)
    (by decide) 1 (startPlace ⟨1⟩ 0 2) (marked #[0x68, 0x6F])).2.1 _ _ rfl (by cbv) (by decide)
  have run := (listed_values_decide marks runMark (overlooksList_of_standard rfl _) true (by cbv)
    (fun _ => rfl) 1 (startPlace ⟨2⟩ 0 1) (marked #[7])).2.2 _ _ rfl (by cbv) (by decide)
  have plainNumber (byte : UInt8) (known : byte = 1 ∨ byte = 2) :=
    returns_of_result (plainMark_number byte known)
  refine ⟨?_, ?_, ?_, ?_⟩
  · exact ((number #[1]).returns _).mpr
      ⟨_, _, 1, plainNumber 1 (.inl rfl), rfl, fun _ => rfl, rfl⟩
  · have error : (⟨numberMark.id, numberMark.label, 0, .mustMatch (Comparison.integers.shown 2)
        (List.map Comparison.integers.choice [⟨"one", 1⟩, ⟨"unity", 1⟩])⟩ : DecodeError) =
        ⟨⟨0⟩, "number#0", 0, .mustMatch "2" ["one=1", "unity=1"]⟩ := by cbv
    rw [← error]
    exact (number #[2]).rejects rfl _ _ 2 (plainNumber 2 (.inr rfl)) rfl rfl
  · exact (text.returns _).mpr
      ⟨_, _, "ho", returns_of_result plainMark_text, rfl, by decide, rfl⟩
  · exact (run.returns _).mpr
      ⟨_, _, [7], returns_of_result plainMark_run, rfl, fun _ => rfl, rfl⟩

end Decoder

end BinaryTemplate
