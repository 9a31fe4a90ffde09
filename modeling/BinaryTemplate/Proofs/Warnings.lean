import BinaryTemplate.Proofs.Silence
import BinaryTemplate.Proofs.Visits

/-!
# Warnings

In lenient mode a violated constraint is a warning. The warnings of a decode describe the tree that
it returns: walking through the instances behind the tree, each field reports whether it equals
none of its listed values where one has to match, and whether it lies outside its bounds, and no
other warning is there. For that, every step either leaves the warnings alone or adds those of the
instances that it completes, and what an attempt has added is dropped when it is taken back.
-/

namespace BinaryTemplate

/-! ## Violations of a field -/

/-- The list holds the warning if the constraint is violated, and nothing otherwise. -/
def WarnsIf (violated : Prop) (e : DecodeError) (ws : List DecodeError) : Prop :=
  violated ∧ ws = [e] ∨ ¬ violated ∧ ws = []

theorem WarnsIf.reverse {violated : Prop} {e : DecodeError} {ws : List DecodeError}
    (h : WarnsIf violated e ws) : ws.reverse = ws := by
  rcases h with ⟨-, rfl⟩ | ⟨-, rfl⟩ <;> rfl

namespace NumberValue

/-- The number is less than a bound: an integer as an integer, and a float if it is less than the
float nearest to the bound. -/
def Below (bound : Int64) : NumberValue → Prop
  | unsigned n => (n.toNat : Int) < bound.toInt
  | signed n => n.toInt < bound.toInt
  | float x => x.lt (.ofInt bound.toInt)

def Above (bound : Int64) : NumberValue → Prop
  | unsigned n => bound.toInt < (n.toNat : Int)
  | signed n => bound.toInt < n.toInt
  | float x => (Binary64.ofInt bound.toInt).lt x

/-- The number is less than the least value that is set, or greater than the greatest. -/
def Outside (value : NumberValue) (min max : Option Int64) : Prop :=
  (∃ k, min = some k ∧ value.Below k) ∨ ∃ k, max = some k ∧ value.Above k

theorem outside_iff {value : NumberValue} {min max : Option Int64} :
    value.Outside min max ↔ (min.any (value.isBelow ·) || max.any (value.isAbove ·)) = true := by
  cases value <;> simp [Outside, Below, Above, isBelow, isAbove, Option.any_eq_true]

end NumberValue

/-- What a field says of the listed values: the name of the one that it equals, and the warning
that there is none although one has to match. -/
structure Listed {α : Type} {s : Schema} (n : Node s) (offset : Nat)
    (choices : List (NamedValue α)) (found : Option (NamedValue α)) (matched : Option String)
    (text : String) (allowed : List String) (ws : List DecodeError) : Prop where
  named : matched = found.map (·.name)
  warned : WarnsIf (choices ≠ [] ∧ found = none ∧ n.mustMatch = .ok true)
    ⟨n.id, n.label, offset, .mustMatch text allowed⟩ ws

namespace Decoder

open DecodeM

variable {σ : Type} {d : Decoder σ} {p : Place} {n : Node d.schema} {offset : Nat}
  {st st' : DecodeState σ}

/-- What an instance reports: a number whether it is listed and whether it is within its bounds, a
string and a run of bytes whether they are listed, and everything else nothing. A value does not
keep its bytes, only the name of the listed ones that they equal. -/
def Reports (d : Decoder σ) (x : Visit d.schema) (ws : List DecodeError) : Prop :=
  match x.value.payload with
  | .number value matched _ _ =>
    ∃ choices min max unlisted outside, x.node.numberValues = .ok choices ∧
      d.Gives x.place x.node .minVal min ∧ d.Gives x.place x.node .maxVal max ∧
      Listed x.node x.value.offset choices
        (value.toInt?.bind fun k => choices.find? (·.value == k)) matched value.text
        (choices.map choiceText) unlisted ∧
      WarnsIf (value.Outside min max)
        ⟨x.node.id, x.node.label, x.value.offset, .range value.text min max⟩ outside ∧
      ws = unlisted ++ outside
  | .string text matched =>
    ∃ choices, x.node.stringValues = .ok choices ∧
      Listed x.node x.value.offset choices (choices.find? (·.value == text)) matched
        (Text.quoted text) (choices.map textChoice) ws
  | .binary matched =>
    ∃ choices bytes, x.node.binaryValues = .ok choices ∧
      Listed x.node x.value.offset choices (choices.find? (·.value == bytes)) matched
        (bytesPreview bytes) (choices.map bytesChoice) ws
  | _ => ws = []

/-- The warnings before some instances are decoded and those afterwards, the most recent one
first: what each instance reports is added in turn. -/
def Accounts (d : Decoder σ) (before : List DecodeError) (xs : List (Visit d.schema))
    (after : List DecodeError) : Prop :=
  ∃ wss, List.Forall₂ d.Reports xs wss ∧ after = wss.flatten.reverse ++ before

namespace Accounts

variable {first second third ws : List DecodeError} {x : Visit d.schema}
  {xs ys : List (Visit d.schema)}

theorem nil (kept : second = first) : d.Accounts first [] second :=
  ⟨[], .nil, kept⟩

theorem append (left : d.Accounts first xs second) (right : d.Accounts second ys third) :
    d.Accounts first (xs ++ ys) third := by
  obtain ⟨wss, reports, rfl⟩ := left
  obtain ⟨wss', reports', rfl⟩ := right
  refine ⟨wss ++ wss', List.rel_append reports reports', ?_⟩
  simp

theorem one (reports : d.Reports x ws) (added : second = ws.reverse ++ first) :
    d.Accounts first [x] second :=
  ⟨[ws], .cons reports .nil, by simpa using added⟩

/-- An instance that reports nothing itself, in front of those inside it. -/
theorem silent (quiet : d.Reports x []) (inner : d.Accounts first xs second) :
    d.Accounts first (x :: xs) second := by
  obtain ⟨wss, reports, rfl⟩ := inner
  exact ⟨[] :: wss, .cons quiet reports, rfl⟩

end Accounts

/-! ## Comparisons of a field -/

/-- A field that is a single instance, and the warnings before and after it. -/
structure Leaf (d : Decoder σ) (p : Place) (n : Node d.schema) (before : List DecodeError)
    (v : Value) (after : List DecodeError) : Prop where
  own : v.element = n.id
  childless : v.children = []
  alone : v.referenced? = none
  accounts : d.Accounts before [⟨n, p, v⟩] after

theorem violation_warnings {e : DecodeError} {u : Unit} (h : Returns (d.violation e) st u st') :
    st'.warnings = e :: st.warnings := by
  simp only [violation, returns_ite, returns_throw, returns_bind, returns_record, returns_modify,
    and_false, false_or] at h
  obtain ⟨-, _, _, rfl, rfl⟩ := h
  rfl

/-- The end of every comparison with listed values: the violation is reported if one has to match,
once it is known that none does. -/
theorem match_warnings {α : Type} (choices : List (NamedValue α))
    {found : Option (NamedValue α)} {text : String} {allowed : List String}
    {matched : Option String} {c : Prop} [Decidable c] (unlisted : c ↔ choices ≠ [] ∧ found = none)
    (h : Returns (if c then do
        if ← resolved n offset n.mustMatch then
          d.violation ⟨n.id, n.label, offset, .mustMatch text allowed⟩
        return found.map (·.name)
      else return found.map (·.name)) st matched st') :
    ∃ ws, Listed n offset choices found matched text allowed ws ∧
      st'.warnings = ws ++ st.warnings := by
  simp only [returns_ite, returns_bind, returns_resolved, returns_pure] at h
  obtain ⟨none, must, _, ⟨known, rfl⟩, h⟩ | ⟨some, rfl, rfl⟩ := h
  · obtain ⟨rfl, _, _, violates, rfl, rfl⟩ | ⟨optional, rfl, rfl⟩ := h
    · have violated := unlisted.mp none
      exact ⟨_, ⟨rfl, .inl ⟨⟨violated.1, violated.2, known⟩, rfl⟩⟩, violation_warnings violates⟩
    · refine ⟨[], ⟨rfl, .inr ⟨?_, rfl⟩⟩, rfl⟩
      rintro ⟨-, -, required⟩
      cases known.symm.trans required
      exact optional rfl
  · exact ⟨[], ⟨rfl, .inr ⟨fun violated => some (unlisted.mpr ⟨violated.1, violated.2.1⟩), rfl⟩⟩,
      rfl⟩

theorem matchNumber_warnings {value : NumberValue} {matched : Option String}
    (h : Returns (d.matchNumber n offset value) st matched st') :
    ∃ choices ws, n.numberValues = .ok choices ∧
      Listed n offset choices (value.toInt?.bind fun k => choices.find? (·.value == k)) matched
        value.text (choices.map choiceText) ws ∧ st'.warnings = ws ++ st.warnings := by
  simp only [matchNumber, returns_bind, returns_resolved] at h
  obtain ⟨choices, _, ⟨known, rfl⟩, h⟩ := h
  obtain ⟨ws, listed, added⟩ := match_warnings choices (by simp) h
  exact ⟨choices, ws, known, listed, added⟩

theorem checkRange_warnings {value : NumberValue} {u : Unit}
    (h : Returns (d.checkRange p n offset value) st u st') :
    ∃ min max ws, d.Gives p n .minVal min ∧ d.Gives p n .maxVal max ∧
      WarnsIf (value.Outside min max) ⟨n.id, n.label, offset, .range value.text min max⟩ ws ∧
      st'.warnings = ws ++ st.warnings := by
  simp only [checkRange, returns_bind, evalAttribute_returns, returns_ite, returns_pure] at h
  obtain ⟨min, _, ⟨least, rfl⟩, max, _, ⟨most, rfl⟩, h⟩ := h
  rw [← NumberValue.outside_iff] at h
  obtain ⟨outside, violates⟩ | ⟨inside, -, rfl⟩ := h
  · exact ⟨min, max, _, least, most, .inl ⟨outside, rfl⟩, violation_warnings violates⟩
  · exact ⟨min, max, [], least, most, .inr ⟨inside, rfl⟩, rfl⟩

theorem finishNumber_warnings {len : Nat} {value : NumberValue} {bits : Option BitSpan}
    {order : ByteOrder} {v : Value}
    (h : Returns (d.finishNumber p n offset len value bits order) st v st') :
    d.Leaf p n st.warnings v st'.warnings := by
  simp only [finishNumber, returns_bind, returns_resolved, returns_record, returns_pure] at h
  obtain ⟨matched, _, matches_, _, _, checks, masks, _, ⟨-, rfl⟩, _, _, rfl, rfl, rfl⟩ := h
  obtain ⟨choices, unlisted, known, listed, first⟩ := matchNumber_warnings matches_
  obtain ⟨min, max, outside, least, most, ranged, second⟩ := checkRange_warnings checks
  refine ⟨rfl, rfl, rfl, .one ⟨choices, min, max, unlisted, outside, known, least, most, listed,
    ranged, rfl⟩ ?_⟩
  rw [List.reverse_append, listed.warned.reverse, ranged.reverse, List.append_assoc, ← first]
  exact second

/-! ## Fields -/

variable [ByteSource σ]

theorem decodeNumber_warnings {v : Value} (h : Returns (d.decodeNumber p n) st v st') :
    d.Leaf p n st.warnings v st'.warnings := by
  simp only [decodeNumber, returns_bind, returns_resolved] at h
  obtain ⟨start, _, tells, kind, _, ⟨-, rfl⟩, order, _, ⟨-, rfl⟩, expression, _, ⟨-, rfl⟩, h⟩ := h
  rw [← tell_silent _ _ _ tells]
  cases expression with
  | none =>
    simp only [returns_bind] at h
    obtain ⟨r, _, reads, value, _, interprets, finishes⟩ := h
    obtain ⟨-, rfl⟩ := interpret_returns interprets
    rw [← readRaw_silent _ _ _ _ reads]
    exact finishNumber_warnings finishes
  | some expression =>
    simp only [returns_bind, evalInteger_returns] at h
    obtain ⟨k, _, ⟨-, rfl⟩, place, _, places, finishes⟩ := h
    rw [← computedPlace_silent _ _ _ places]
    exact finishNumber_warnings finishes

theorem decodeString_warnings {v : Value} (h : Returns (d.decodeString p n) st v st') :
    d.Leaf p n st.warnings v st'.warnings := by
  simp only [decodeString, returns_bind, returns_align, returns_resolved] at h
  obtain ⟨_, _, rfl, start, _, tells, label, _, ⟨-, rfl⟩, h⟩ := h
  rcases listed : d.encodings.ofLabel? label with _ | encoding
  · rw [listed] at h
    exact absurd h returns_fail
  rw [listed] at h
  simp only [returns_bind, returns_resolved, declaredBytes_returns] at h
  obtain ⟨delimiter, _, ⟨-, rfl⟩, kind, _, ⟨-, rfl⟩, declared, _, ⟨-, rfl⟩, bytes, _, frames, stop,
    _, stops, h⟩ := h
  rcases readable : d.encodings.decode? encoding bytes with _ | chars
  · rw [readable] at h
    exact absurd h returns_fail
  rw [readable] at h
  simp only [matchString, returns_bind, returns_resolved, returns_record, returns_pure] at h
  obtain ⟨matched, _, ⟨choices, _, ⟨known, rfl⟩, matches_⟩, _, _, rfl, rfl, rfl⟩ := h
  obtain ⟨ws, listed, added⟩ := match_warnings choices (by simp) matches_
  refine ⟨rfl, rfl, rfl, .one ⟨choices, known, listed⟩ ?_⟩
  -- Framing reads and skips, and nothing else; then the text is compared.
  have before := (tellAt_silent _ _ _ stops).trans <|
    (readFramed_silent _ _ _ _ _ _ _ frames).trans (tell_silent _ _ _ tells)
  rw [listed.warned.reverse]
  exact added.trans (congrArg (ws ++ ·) before)

theorem decodeBinary_warnings {v : Value} (h : Returns (d.decodeBinary p n) st v st') :
    d.Leaf p n st.warnings v st'.warnings := by
  simp only [decodeBinary, returns_bind, returns_align, returns_resolved, declaredBytes_returns,
    returns_ite, returns_record, returns_pure] at h
  obtain ⟨_, _, rfl, start, _, tells, declared, _, ⟨-, rfl⟩, choices, _, ⟨known, rfl⟩, h⟩ := h
  have before := tell_silent _ _ _ tells
  obtain ⟨empty, _, _, skips, matched, _, ⟨rfl, rfl⟩, _, _, rfl, rfl, rfl⟩ |
    ⟨some, matched, _, reads, _, _, rfl, rfl, rfl⟩ := h
  · -- Bytes that are compared with nothing are not read.
    obtain rfl := List.isEmpty_iff.mp empty
    have listed : Listed n start ([] : List (NamedValue (List UInt8))) none none
        (bytesPreview []) [] [] := ⟨rfl, .inr ⟨fun violated => violated.1 rfl, rfl⟩⟩
    exact ⟨rfl, rfl, rfl, .one ⟨[], [], known, listed⟩ ((skip_silent _ _ _ _ skips).trans before)⟩
  · simp only [matchBytes, returns_bind] at reads
    obtain ⟨bytes, _, read, matches_⟩ := reads
    have unlisted : (choices.find? (·.value == bytes)).isNone = true ↔
        choices ≠ [] ∧ choices.find? (·.value == bytes) = none := by
      have filled : choices ≠ [] := fun none => some (List.isEmpty_iff.mpr none)
      rw [Option.isNone_iff_eq_none, and_iff_right filled]
    obtain ⟨ws, listed, added⟩ := match_warnings choices unlisted matches_
    refine ⟨rfl, rfl, rfl, .one ⟨choices, bytes, known, listed⟩ ?_⟩
    rw [listed.warned.reverse]
    exact added.trans (congrArg (ws ++ ·) ((read_silent _ _ _ _ read).trans before))

theorem decodeScripted_warnings {id : ElementId} {v : Value}
    (h : Returns (d.decodeScripted p n id) st v st') : d.Leaf p n st.warnings v st'.warnings := by
  simp only [decodeScripted, returns_bind, returns_align, node_returns] at h
  obtain ⟨_, _, rfl, start, _, tells, script, _, ⟨-, rfl⟩, h⟩ := h
  cases body : script.kind with
  | script body =>
    simp only [body, decodeByScript] at h
    rcases hosted : d.scripts with _ | host
    · rw [hosted] at h
      exact absurd h returns_fail
    rw [hosted] at h
    simp only [returns_bind, declaredBytes_returns, returns_guard_bind, returns_pure] at h
    obtain ⟨declared, _, ⟨-, rfl⟩, output, _, runs, -, _, _, seeks, rfl, rfl⟩ := h
    obtain ⟨source, rfl⟩ := runScript_returns runs
    have kept := tell_silent _ _ _ tells
    have silent : d.Reports
        ⟨n, p, ⟨n.id, start, output.len, none, .custom output.text, []⟩⟩ [] := rfl
    exact ⟨rfl, rfl, rfl, .one silent ((seek_silent _ _ _ _ seeks).trans kept)⟩
  | _ =>
    simp only [body] at h
    exact absurd h returns_fail

/-! ## Completed instances -/

/-- From one place to another, instances are completed in the innermost frame, and the warnings
that are added are theirs. -/
def Completes (d : Decoder σ) (p : Place) (before : List DecodeError) (p' : Place)
    (after : List DecodeError) : Prop :=
  ∃ vs xs, p' = p.completeAll vs ∧ d.Visits p vs xs ∧ d.Accounts before xs after

namespace Completes

variable {p' p'' : Place} {first second third : List DecodeError}

theorem none (kept : second = first) : d.Completes p first p second :=
  ⟨[], [], rfl, .nil, .nil kept⟩

theorem trans (left : d.Completes p first p' second) (right : d.Completes p' second p'' third) :
    d.Completes p first p'' third := by
  obtain ⟨vs, xs, rfl, visits, accounts⟩ := left
  obtain ⟨ws, ys, rfl, visits', accounts'⟩ := right
  exact ⟨vs ++ ws, xs ++ ys, (p.completeAll_append vs ws).symm, visits.append visits',
    accounts.append accounts'⟩

end Completes

/-- A value is the tree of some instances, and the warnings that are added are theirs. -/
def Yields (d : Decoder σ) (p : Place) (before : List DecodeError) (v : Value)
    (after : List DecodeError) : Prop :=
  ∃ xs, d.Visits p [v] xs ∧ d.Accounts before xs after

theorem Yields.completes {v : Value} {before after : List DecodeError}
    (h : d.Yields p before v after) : d.Completes p before (p.complete v) after := by
  obtain ⟨xs, visits, accounts⟩ := h
  exact ⟨[v], xs, rfl, visits, accounts⟩

theorem Leaf.yields {v : Value} {before after : List DecodeError} (h : d.Leaf p n before v after)
    (decodes : d.Decodes ⟨n, p, v⟩) : d.Yields p before v after :=
  ⟨[⟨n, p, v⟩], .field decodes h.own h.childless h.alone .nil, h.accounts⟩

/-- Every value that an element decodes to is such a tree. -/
def YieldsAll (child : d.DecodeChild) : Prop :=
  ∀ {p : Place} {n : Node d.schema} {st : DecodeState σ} {v : Value} {st' : DecodeState σ},
    Returns (child p n) st v st' → d.Yields p st.warnings v st'.warnings

section Yielding

variable {child : d.DecodeChild} (yields : YieldsAll child)

include yields

theorem repeatFrom_completes {min : Nat} {max : Option Nat} {room count : Nat} {p' : Place}
    (h : Returns (d.repeatFrom child n min max room count p) st p' st') :
    d.Completes p st.warnings p' st'.warnings := by
  induction room using Nat.strongRecOn generalizing count p st with
  | ind room inductionHypothesis =>
    rw [repeatFrom.eq_def] at h
    simp only [returns_ite, returns_bind, returns_pure, exhausted_returns] at h
    obtain ⟨-, rfl, rfl⟩ | ⟨-, mark, mid, takes, h⟩ := h
    · exact .none rfl
    obtain ⟨marked, kept⟩ := take_warnings takes
    obtain ⟨-, _, mid, ⟨-, rfl⟩, ⟨-, rfl, rfl⟩ | ⟨-, h⟩⟩ | ⟨-, h⟩ := h
    · exact .none kept
    -- With the minimum or without it, one more instance is tried.
    all_goals
      cases room with
      | zero => exact absurd h returns_fail
      | succ rest =>
        obtain ⟨result, after, tried, h⟩ := returns_bind.mp h
        obtain ⟨v, rfl, decoded⟩ | ⟨e, rfl, failure⟩ := returns_outcome.mp tried
        · have one := (yields decoded).completes
          rw [kept] at one
          simp only [returns_ite, returns_pure] at h
          obtain ⟨-, rfl, rfl⟩ | ⟨-, h⟩ := h
          · exact one
          · exact one.trans (inductionHypothesis rest (by omega) h)
        · simp only [returns_ite, returns_bind, returns_record, returns_pure, returns_throw,
            and_false, or_false] at h
          -- What the attempt has warned of is dropped: the mark has the warnings from before it.
          obtain ⟨-, _, _, rfl, _, back, rewinds, rfl, rfl⟩ := h
          exact .none ((rewind_warnings rewinds).trans marked)

theorem decodeRepeated_completes {p' : Place}
    (h : Returns (d.decodeRepeated child p n) st p' st') :
    d.Completes p st.warnings p' st'.warnings := by
  simp only [decodeRepeated, returns_bind] at h
  obtain ⟨offset, _, tells, ⟨least, max⟩, _, bounded, repeats⟩ := h
  obtain ⟨-, rfl⟩ := repeatBounds_returns.mp bounded
  rw [← tell_silent _ _ _ tells]
  exact repeatFrom_completes yields repeats

theorem decodeDeclared_completes {ids : List ElementId} {p' : Place}
    (h : Returns (d.decodeDeclared child ids p) st p' st') :
    d.Completes p st.warnings p' st'.warnings := by
  induction ids generalizing p st with
  | nil =>
    simp only [decodeDeclared, returns_pure] at h
    obtain ⟨rfl, rfl⟩ := h
    exact .none rfl
  | cons id ids inductionHypothesis =>
    simp only [decodeDeclared, returns_bind, node_returns, returns_ite, returns_record] at h
    obtain ⟨n, _, ⟨found, rfl⟩, off, _, switched, h⟩ := h
    obtain ⟨-, rfl⟩ := isDisabled_returns.mp switched
    obtain ⟨-, _, _, rfl, rest⟩ | ⟨-, next, mid, repeats, rest⟩ := h
    · have later := inductionHypothesis rest
      exact later
    · exact (decodeRepeated_completes yields repeats).trans (inductionHypothesis rest)

/-- The first alternative that decodes at a mark completes its value; the attempts before it have
left no warnings. -/
theorem firstMatch_completes {mark : Mark} {choices : List (Alternative d.schema)}
    {found : Option (Value × List (Alternative d.schema))} (marked : mark.warnings = st.warnings)
    (h : Returns (d.firstMatch child p n mark choices) st found st') :
    match found with
    | none => st'.warnings = st.warnings
    | some (v, _) => d.Completes p st.warnings (p.complete v) st'.warnings := by
  induction choices generalizing st found with
  | nil =>
    obtain ⟨rfl, rfl⟩ := returns_pure.mp h
    rfl
  | cons a rest inductionHypothesis =>
    simp only [firstMatch, returns_ite, returns_bind, returns_pure] at h
    obtain ⟨-, others, _, rest, rfl, rfl⟩ | ⟨-, result, mid, tried, h⟩ := h
    · have later := inductionHypothesis marked rest
      rcases others with _ | ⟨v, more⟩ <;> exact later
    obtain ⟨v, rfl, decoded⟩ | ⟨e, rfl, failure⟩ := returns_outcome.mp tried
    · obtain ⟨rfl, rfl⟩ := returns_pure.mp h
      exact (yields decoded).completes
    · simp only [returns_ite, returns_bind, returns_throw, returns_record, returns_pure, false_and,
        exists_false, and_false, false_or] at h
      obtain ⟨-, _, _, rfl, _, back, rewinds, others, _, rest, rfl, rfl⟩ := h
      have again := rewind_warnings rewinds
      have later := inductionHypothesis again.symm rest
      rw [again, marked] at later
      rcases others with _ | ⟨v, more⟩ <;> exact later

theorem decodeChoices_completes {room : Nat} {choices choices' : List (Alternative d.schema)}
    {p' : Place}
    (h : Returns (d.decodeChoices child n room p choices) st (p', choices') st') :
    d.Completes p st.warnings p' st'.warnings := by
  induction room using Nat.strongRecOn generalizing p st choices with
  | ind room inductionHypothesis =>
    rw [decodeChoices.eq_def] at h
    simp only [returns_ite, returns_bind, returns_pure, exhausted_returns, Prod.mk.injEq] at h
    obtain ⟨mark, start, takes, _, _, ⟨-, rfl⟩, h⟩ := h
    obtain ⟨marked, kept⟩ := take_warnings takes
    obtain ⟨-, ⟨rfl, rfl⟩, rfl⟩ | ⟨-, found, after, matches_, h⟩ := h
    · exact .none kept
    have first := firstMatch_completes yields (marked.trans kept.symm) matches_
    rw [kept] at first
    rcases found with _ | ⟨v, more⟩
    · simp only [returns_pure, Prod.mk.injEq] at h
      obtain ⟨⟨rfl, rfl⟩, rfl⟩ := h
      exact .none first
    · simp only [returns_ite, returns_pure, Prod.mk.injEq] at h
      obtain ⟨-, ⟨rfl, rfl⟩, rfl⟩ | ⟨-, h⟩ := h
      · exact first
      · cases room with
        | zero => exact absurd h returns_fail
        | succ rest => exact first.trans (inductionHypothesis rest (by omega) h)

theorem decodeContent_completes {ids : List ElementId} {order : ChildOrder} {p' : Place}
    (h : Returns (d.decodeContent child n ids order p) st p' st') :
    d.Completes p st.warnings p' st'.warnings := by
  cases order with
  | declared => exact decodeDeclared_completes yields h
  | anyOf =>
    simp only [decodeContent, decodeAnyOf, returns_bind, returns_pure] at h
    obtain ⟨offset, _, tells, choices, _, offers, ⟨reached, finished⟩, _, rounds, _, _, checks,
      rfl, rfl⟩ := h
    obtain ⟨-, rfl⟩ := alternatives_returns offers
    obtain ⟨-, rfl⟩ := checkMinimums_returns checks
    rw [← tell_silent _ _ _ tells]
    exact decodeChoices_completes yields rounds

/-! ## Containers and offsets -/

theorem decodeContainer_yields {definition : Option ElementId} {ids : List ElementId}
    {order : ChildOrder} {declared : Option Nat} {v : Value}
    (contains : Contains n definition ids order) (decodes : d.Decodes ⟨n, p, v⟩)
    (h : Returns (d.decodeContainer child p n definition ids order declared) st v st') :
    d.Yields p st.warnings v st'.warnings := by
  simp only [decodeContainer, returns_bind, returns_align, returns_record, returns_outcome] at h
  obtain ⟨_, _, rfl, start, opened, tells, stop, _, stops, _, _, rfl, content, closed, filled, _, _,
    rfl, h⟩ := h
  have before := tell_silent _ _ _ tells
  obtain ⟨rfl, -, rfl⟩ := containerStop_returns.mp stops
  -- An error of the content is thrown again, so the content has returned.
  obtain ⟨reached, rfl, fills⟩ | ⟨e, rfl, -⟩ := filled
  · simp only [returns_bind, returns_pure] at h
    obtain ⟨position, _, ends, len, _, sized, rfl, rfl⟩ := h
    obtain ⟨rfl, length, rfl⟩ := containerLength_returns sized
    obtain ⟨vs, xs, rfl, visits, accounts⟩ := decodeContent_completes yields fills
    have kept := tellAt_silent _ _ _ ends
    refine ⟨_ :: (xs ++ []), .container decodes rfl rfl contains length ?_ .nil, .silent rfl ?_⟩
    · -- The frame starts without values, so its children are those of the content.
      show d.Visits _ (Place.completeAll _ vs).inner.children xs
      rw [Place.children_completeAll]
      exact visits
    · rw [List.append_nil, kept, ← before]
      exact accounts
  · exact absurd h returns_throw

theorem decodeStructure_yields {definition : Node d.schema} {v : Value}
    (contains : ∀ order, n.order = .ok order →
      Contains n (if definition.id = n.id then none else some definition.id)
        definition.kind.children order)
    (decodes : d.Decodes ⟨n, p, v⟩)
    (h : Returns (d.decodeStructure child p n definition) st v st') :
    d.Yields p st.warnings v st'.warnings := by
  simp only [decodeStructure, returns_bind, returns_align, returns_resolved] at h
  obtain ⟨_, _, rfl, start, _, tells, order, _, ⟨ordered, rfl⟩, declared, opened, sized, decoded⟩
    := h
  obtain ⟨-, rfl⟩ := structureLength_returns.mp sized
  have before := tell_silent _ _ _ tells
  have inner := decodeContainer_yields yields (contains order ordered) decodes decoded
  rw [before] at inner
  exact inner

theorem decodeStructRef_yields {body : StructRefBody} (kind : n.kind = .structRef body) {v : Value}
    (decodes : d.Decodes ⟨n, p, v⟩) (h : Returns (d.decodeStructRef child p n offset) st v st') :
    d.Yields p st.warnings v st'.warnings := by
  simp only [decodeStructRef, returns_bind, returns_resolved] at h
  obtain ⟨target, _, ⟨named, rfl⟩, h⟩ := h
  cases target with
  | none => exact absurd h returns_fail
  | some target =>
    simp only [returns_bind, node_returns] at h
    obtain ⟨definition, _, ⟨found, rfl⟩, h⟩ := h
    cases defines : definition.kind with
    | «structure» inner =>
      simp only [defines] at h
      exact decodeStructure_yields yields (fun _ => .structRef kind named found defines) decodes h
    | _ =>
      simp only [defines] at h
      exact absurd h returns_fail

theorem decodeGrammarRef_yields {v : Value} (decodes : d.Decodes ⟨n, p, v⟩)
    (h : Returns (d.decodeGrammarRef child p n offset) st v st') :
    d.Yields p st.warnings v st'.warnings := by
  simp only [decodeGrammarRef, returns_bind, returns_resolved, returns_ite, returns_pure] at h
  obtain ⟨off, _, ⟨-, rfl⟩, ⟨-, rfl, rfl⟩ | ⟨-, target, _, ⟨named, rfl⟩, h⟩⟩ := h
  · have silent : d.Reports ⟨n, p, Value.empty n.id offset 0⟩ [] := rfl
    exact Leaf.yields ⟨rfl, rfl, rfl, .one silent rfl⟩ decodes
  cases target with
  | none => exact absurd h returns_fail
  | some target =>
    simp only [returns_bind, node_returns] at h
    obtain ⟨grammar, _, ⟨found, rfl⟩, h⟩ := h
    cases defines : grammar.kind with
    | grammar inner =>
      simp only [defines] at h
      exact yields h
    | _ =>
      simp only [defines] at h
      exact absurd h returns_fail

/-- The side tree is decoded at the target, and putting back the cursor and the unread bits leaves
its warnings where they are. -/
theorem followed_yields {target : Nat} {element : ElementId} {v : Value}
    (h : Followed child p n offset target element st v st') :
    ∃ size stop, (target, element) ∉ p.following ∧ d.RegionSize p n size ∧
      Region p target size stop ∧
      d.Yields (sidePlace p element target stop) st.warnings v st'.warnings := by
  cases h with
  | mk fresh _ sized region tells seeks decoded returns =>
    refine ⟨_, _, fresh, sized, region, ?_⟩
    have told := tellAt_silent _ _ _ tells
    have there := (seek_silent _ _ _ _ seeks).trans told
    have side := yields decoded
    rw [seek_silent _ _ _ _ returns, ← there]
    exact side

theorem decodeOffset_yields {v : Value} (decodes : d.Decodes ⟨n, p, v⟩)
    (h : Returns (d.decodeOffset child p n) st v st') : d.Yields p st.warnings v st'.warnings := by
  obtain ⟨start, told, order, r, read, target, side, tells, -, reads, -, leads, rfl⟩ :=
    decodeOffset_steps h
  have before := (readRaw_silent _ _ _ _ reads).trans (tell_silent _ _ _ tells)
  rw [← before]
  cases leads with
  | nowhere | unreferenced => exact Leaf.yields ⟨rfl, rfl, rfl, .one rfl rfl⟩ decodes
  | side references followed =>
    obtain ⟨size, stop, fresh, sized, region, xs, there, accounts⟩ :=
      followed_yields yields followed
    refine ⟨_, .offset decodes rfl rfl rfl references fresh sized region there .nil,
      .silent rfl ?_⟩
    rw [List.append_nil]
    exact accounts

/-! ## Elements -/

theorem decodeKind_yields {v : Value} (decodes : d.Decodes ⟨n, p, v⟩)
    (h : Returns (d.decodeKind child p n offset) st v st') :
    d.Yields p st.warnings v st'.warnings := by
  unfold decodeKind at h
  cases kind : n.kind with
  | grammar body =>
    simp only [kind] at h
    exact decodeContainer_yields yields (.grammar kind) decodes h
  | grammarRef body =>
    simp only [kind] at h
    exact decodeGrammarRef_yields yields decodes h
  | «structure» body =>
    simp only [kind] at h
    refine decodeStructure_yields yields (fun order ordered => ?_) decodes h
    rw [if_pos rfl]
    exact .structure kind ordered
  | structRef body =>
    simp only [kind] at h
    exact decodeStructRef_yields yields kind decodes h
  | number body =>
    simp only [kind] at h
    exact (decodeNumber_warnings h).yields decodes
  | string body =>
    simp only [kind] at h
    exact (decodeString_warnings h).yields decodes
  | binary body =>
    simp only [kind] at h
    exact (decodeBinary_warnings h).yields decodes
  | custom body =>
    simp only [kind, returns_bind, returns_resolved] at h
    obtain ⟨script, _, ⟨-, rfl⟩, h⟩ := h
    cases script with
    | none => exact absurd h returns_fail
    | some script => exact (decodeScripted_warnings h).yields decodes
  | offset body =>
    simp only [kind] at h
    exact decodeOffset_yields yields decodes h
  | script body =>
    simp only [kind] at h
    exact (decodeScripted_warnings h).yields decodes

end Yielding

theorem decodeOne_yields (depth : Nat) : YieldsAll (d.decodeOne depth) := by
  induction depth with
  | zero =>
    intro p n st v st' h
    simp only [decodeOne, returns_bind, returns_fail, and_false, exists_false] at h
  | succ depth inductionHypothesis =>
    intro p n st v st' h
    have decodes : d.Decodes ⟨n, p, v⟩ := ⟨depth + 1, st, st', h⟩
    simp only [decodeOne, returns_bind, returns_record] at h
    obtain ⟨_, _, rfl, offset, begun, tells, kinds⟩ := h
    have before := tell_silent _ _ _ tells
    have decoded := decodeKind_yields inductionHypothesis decodes kinds
    rw [before] at decoded
    exact decoded

/-! ## Whole decodes -/

/-- Behind the tree that a decode returns stands a visit of each of its values, in order. -/
theorem decodeElement_visits [SliceLike σ] {element : ElementId} {source : σ} {v : Value}
    {warnings : List DecodeError}
    (h : (d.decodeElement element source).result = .ok (v, warnings)) :
    ∃ visits, d.Visits (startPlace element (SliceLike.slice source).cursor
        (SliceLike.slice source).data.size) [v] visits ∧
      visits.map (·.value) = v.preorder := by
  obtain ⟨n, start, after, -, -, decoded, -⟩ := decodeElement_returns h
  obtain ⟨visits, tree, -⟩ := decodeOne_yields _ decoded
  refine ⟨visits, tree, ?_⟩
  rw [tree.values]
  simp [Value.preorderIn]

/-- The warnings of a decode, in order, are what the instances behind the returned tree report, in
the order of a walk through it: each number, string or run of bytes that equals none of its listed
values where one has to match, and each number outside its bounds. -/
theorem warnings_describe_tree (d : Decoder σ) (element : ElementId) (source : σ) (v : Value)
    (warnings : List DecodeError)
    (h : (d.decodeElement element source).result = .ok (v, warnings)) :
    ∃ start dataStop visits reports,
      d.Visits (startPlace element start dataStop) [v] visits ∧
      visits.map (·.value) = v.preorder ∧ List.Forall₂ d.Reports visits reports ∧
      warnings = reports.flatten := by
  rw [decodeElement_eq] at h
  rcases ended : (d.decodeWhole element).ending { source := source } with ⟨e | v', after⟩
  · rw [ended] at h
    cases h
  rw [ended] at h
  cases h
  have returned : Returns (d.decodeWhole element) { source := source } v after := ended
  simp only [decodeWhole, returns_bind, node_returns, returns_pure] at returned
  obtain ⟨n, _, ⟨found, rfl⟩, start, _, tells, dataStop, _, sizes, _, _, decoded, _, _, checked,
    rfl, rfl⟩ := returned
  obtain rfl := checkTree_returns checked
  obtain ⟨visits, tree, reports, described, added⟩ := decodeOne_yields _ decoded
  have before := (Silent.onSource _ _ _ _ sizes).trans (tell_silent _ _ _ tells)
  refine ⟨start, dataStop, visits, reports, tree, ?_, described, ?_⟩
  · rw [tree.values]
    simp [Value.preorderIn]
  · rw [added, before]
    simp

end Decoder

/-! ## An attempt whose warning is dropped -/

namespace Decoder

open DecodeM

/-- As many pairs of bytes as there are, where the first byte of a pair is at most five. -/
def pairs : Decoder Slice where
  schema :=
    { elements := #[
        ⟨{}, .structure { children := [⟨1⟩] }⟩,
        ⟨{ repeatMin := some (.literal 0), repeatMax := some (.literal (-1)) },
          .structure { children := [⟨2⟩, ⟨3⟩] }⟩,
        ⟨{}, .number { extent := { length := some (.literal 1) }, maxVal := some (.literal 5) }⟩,
        ⟨{}, .number { extent := { length := some (.literal 1) } }⟩]
      root := ⟨0⟩ }
  options := { maxDepth := 3, maxRepeat := 4, strict := false }

/-- One pair, and a byte that begins another one. -/
def pairBytes : Slice := ⟨#[9, 1, 8], 0⟩

def pairsValue : Value :=
  ⟨⟨0⟩, 0, 2, none, .none,
    [⟨⟨1⟩, 0, 2, none, .none,
      [⟨⟨2⟩, 0, 1, some .little, .number (.unsigned 9) none [] none, []⟩,
        ⟨⟨3⟩, 1, 1, some .little, .number (.unsigned 1) none [] none, []⟩]⟩]⟩

set_option maxRecDepth 8000 in
theorem warnings_describe_tree_pairs :
    let warnings : List DecodeError := [⟨⟨2⟩, "number#2", 0, .range "9" none (some 5)⟩]
    (pairs.decodeElement ⟨0⟩ pairBytes).result = .ok (pairsValue, warnings) ∧
      ∃ start dataStop visits reports,
        pairs.Visits (startPlace ⟨0⟩ start dataStop) [pairsValue] visits ∧
        visits.map (·.value) = pairsValue.preorder ∧
        List.Forall₂ pairs.Reports visits reports ∧ warnings = reports.flatten := by
  intro warnings
  have decodes : (pairs.decodeElement ⟨0⟩ pairBytes).result = .ok (pairsValue, warnings) := by cbv
  exact ⟨decodes, warnings_describe_tree pairs ⟨0⟩ pairBytes pairsValue warnings decodes⟩

/-! ## A float next to its bound -/

/-- A float of at least `2^53 + 1`, an integer that is no float: the one nearest to it is `2^53`. -/
def nearBound : Decoder Slice where
  schema :=
    { elements := #[⟨{}, .number
        { kind := some .float
          extent := { length := some (.literal 8) }
          minVal := some (.literal 9007199254740993) }⟩]
      root := ⟨0⟩ }
  options := { maxDepth := 1, maxRepeat := 1, strict := false }

def nearBoundRoot : Node nearBound.schema := ⟨⟨0⟩, _, rfl⟩

/-- The float `2^53`. -/
def nearBoundFloat : Binary64 := ⟨0x4340000000000000⟩

def nearBoundBytes : Slice := ⟨#[0, 0, 0, 0, 0, 0, 0x40, 0x43], 0⟩

def nearBoundValue : Value :=
  ⟨⟨0⟩, 0, 8, some .little, .number (.float nearBoundFloat) none [] none, []⟩

theorem nearBound_gives (p : Place) :
    nearBound.Gives p nearBoundRoot .minVal (some 9007199254740993) :=
  ⟨.literal 9007199254740993, by cbv, rfl⟩

theorem nearBound_checks (p : Place) (st : DecodeState Slice) :
    Returns (nearBound.checkRange p nearBoundRoot 0 (.float nearBoundFloat)) st () st := by
  have most : nearBound.Gives p nearBoundRoot .maxVal none := by cbv
  -- The bound is rounded to the float that it is compared with.
  have passes : (NumberValue.float nearBoundFloat).isBelow 9007199254740993 = false := by
    decide +kernel
  simp only [checkRange, returns_bind, evalAttribute_returns, returns_ite, returns_pure]
  exact ⟨_, st, ⟨nearBound_gives p, rfl⟩, _, st, ⟨most, rfl⟩,
    .inr ⟨by simp [passes], trivial, rfl⟩⟩

theorem nearBound_decodes (events : List Event) :
    ∃ after, Returns (nearBound.decodeNumber (startPlace ⟨0⟩ 0 8) nearBoundRoot)
      { source := nearBoundBytes, events := events } nearBoundValue
      { source := ⟨nearBoundBytes.data, 8⟩, events := after } := by
  have kind : nearBoundRoot.numberKind = .ok .float := by cbv
  have order : nearBoundRoot.byteOrder = .ok .little := by cbv
  have uncomputed : nearBoundRoot.lookup .valueExpression = .ok none := by cbv
  have unmasked : nearBoundRoot.masks = .ok [] := by cbv
  have reads : Returns (nearBound.readRaw (startPlace ⟨0⟩ 0 8) nearBoundRoot .little)
      { source := nearBoundBytes, events := events } ⟨0x4340000000000000, 0, 8, none, 64⟩
      { source := ⟨nearBoundBytes.data, 8⟩
        events := .bytesRead nearBoundRoot.label 0x4340000000000000 0 :: events } := by
    cbv
  have matches_ (st : DecodeState Slice) :
      Returns (nearBound.matchNumber nearBoundRoot 0 (.float nearBoundFloat)) st none st := by
    cbv
  refine ⟨.numberDecoded nearBoundRoot.label (.float nearBoundFloat) ::
    .bytesRead nearBoundRoot.label 0x4340000000000000 0 :: events, ?_⟩
  simp only [decodeNumber, returns_bind, returns_resolved]
  refine ⟨0, _, rfl, .float, _, ⟨kind, rfl⟩, .little, _, ⟨order, rfl⟩, none, _,
    ⟨uncomputed, rfl⟩, ?_⟩
  simp only [finishNumber, returns_bind, returns_resolved, returns_record, returns_pure]
  exact ⟨_, _, reads, .float nearBoundFloat, _, rfl, none, _, matches_ _, (), _,
    nearBound_checks _ _, [], _, ⟨unmasked, rfl⟩, (), _, rfl, rfl, rfl⟩

/-- The float is one less than its least value, and the decode does not warn of it. -/
theorem near_bound_unwarned :
    (nearBound.decodeElement ⟨0⟩ nearBoundBytes).result = .ok (nearBoundValue, []) ∧
      nearBoundFloat.toInt? = some 9007199254740992 ∧
      (∀ p, nearBound.Gives p nearBoundRoot .minVal (some 9007199254740993)) ∧
      (9007199254740992 : Int) < (9007199254740993 : Int64).toInt := by
  refine ⟨?_, by decide, nearBound_gives, by decide⟩
  obtain ⟨after, number⟩ := nearBound_decodes [.tried "number"]
  have decodes : Returns (nearBound.decodeWhole ⟨0⟩) { source := nearBoundBytes } nearBoundValue
      { source := ⟨nearBoundBytes.data, 8⟩, events := after } := by
    simp only [decodeWhole, returns_bind, returns_pure, node_returns]
    refine ⟨nearBoundRoot, _, ⟨rfl, rfl⟩, 0, _, rfl, 8, _, rfl, nearBoundValue, _, ?_, (), _, rfl,
      rfl, rfl⟩
    show Returns (nearBound.decodeOne 1 _ nearBoundRoot) _ _ _
    simp only [decodeOne, returns_bind, returns_record]
    exact ⟨(), _, rfl, 0, _, rfl, number⟩
  rw [decodeElement_eq, decodes]
  rfl

end Decoder

end BinaryTemplate
