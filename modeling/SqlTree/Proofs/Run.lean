import Mathlib.Logic.Function.Iterate
import Mathlib.Tactic.Lemma
import SqlTree.Parse

set_option autoImplicit false

/-!
# Runs of parsers

A run of a sequence of two parsers is a run of the first followed by a run of the second, so an
accepted run can be taken apart into the accepted runs of its parts, and put together from them. A
run only ever moves the cursor forward, one token at a time.

## Main definitions

* `SqlTree.Parser.Loops` — a loop gets from one state and place to another.
* `SqlTree.Parser.Yields` — all values of a parser have a property.
* `SqlTree.Parser.Rel` — two parsers that accept alike, with related values.
* `SqlTree.Parser.Accepts` — a parser accepts at a place, with a value and an end of some kind.
* `SqlTree.Cursor.Reachable` — a place that is reached from the start of its source.

## Main results

* `SqlTree.Parser.accepted_bind` — the parts of an accepted run.
* `SqlTree.Parser.accepted_advances` — a run ends some tokens after its start.
* `SqlTree.Parser.run_many_of_some`, `SqlTree.Parser.run_many_of_none` — the first turn of a list.
-/

namespace SqlTree

/-- The token is malformed, so no parser takes it. -/
def TokenKind.isMalformed : TokenKind → Bool
  | .malformed _ => true
  | _ => false

/-! ## Moving forward -/

namespace Cursor

/-- Going on by a token stays in the same source. -/
@[simp] lemma advance_source (cursor : Cursor) : cursor.advance.source = cursor.source := by
  unfold advance; split <;> rfl

/-- Going on by a token leaves the token at the end of input where it is. -/
@[simp] lemma advance_last (cursor : Cursor) : cursor.advance.last = cursor.last := by
  unfold advance; split <;> rfl

/-- Going on by a token takes the first token from those ahead. -/
@[simp] lemma advance_ahead (cursor : Cursor) : cursor.advance.ahead = cursor.ahead.tail := by
  unfold advance; split <;> simp_all

/-- Going on by a token leaves no more tokens ahead. At the end of input it leaves none, as
before. -/
lemma length_advance (cursor : Cursor) :
    cursor.advance.ahead.length ≤ cursor.ahead.length := by
  rw [advance_ahead, List.length_tail]
  exact Nat.sub_le ..

/-- Where a token is ahead, going on by a token leaves one token fewer ahead. -/
lemma length_ahead {cursor : Cursor} (some : cursor.ahead ≠ []) :
    cursor.ahead.length = cursor.advance.ahead.length + 1 := by
  have := List.length_pos_iff.mpr some
  rw [advance_ahead, List.length_tail]
  omega

/-- Where a token is ahead, it is the token behind the cursor after going on. -/
lemma advance_previous {cursor : Cursor} (ahead : cursor.ahead ≠ []) :
    cursor.advance.previous = cursor.current := by
  unfold advance current peek
  split <;> simp_all

/-- After a token, the tokens that are seen are those that were seen one token further on. -/
lemma peek_advance {cursor : Cursor} (distance : Nat) :
    cursor.advance.peek distance = cursor.peek (distance + 1) := by
  unfold peek
  rw [advance_last, advance_ahead]
  cases cursor.ahead <;> simp

/-- A place that is reached from the start of its source, when the source is cut into tokens with
or without the drift extensions. -/
def Reachable (drift : Bool) (cursor : Cursor) : Prop :=
  ∃ count, cursor = advance^[count] (ofSource drift cursor.source)

namespace Reachable

variable {drift : Bool} {cursor : Cursor}

/-- The start of a source can be reached. -/
lemma ofSource (source : String) : (Cursor.ofSource drift source).Reachable drift :=
  ⟨0, rfl⟩

/-- From a place that can be reached, the next one can be reached. -/
lemma advance (reachable : cursor.Reachable drift) : cursor.advance.Reachable drift := by
  obtain ⟨count, eq⟩ := reachable
  exact ⟨count + 1, by rw [Function.iterate_succ_apply', advance_source, ← eq]⟩

/-- From a place that can be reached, any later place can be reached. -/
lemma iterate (reachable : cursor.Reachable drift) (count : Nat) :
    (Cursor.advance^[count] cursor).Reachable drift := by
  induction count with
  | zero => exact reachable
  | succ count ih => rw [Function.iterate_succ_apply']; exact ih.advance

end Reachable

/-- The tokens ahead of a reachable place are the last tokens ahead of the start. -/
lemma iterate_advance (cursor : Cursor) (count : Nat) :
    (advance^[count] cursor).ahead = cursor.ahead.drop count ∧
      (advance^[count] cursor).last = cursor.last ∧
      (advance^[count] cursor).source = cursor.source := by
  induction count with
  | zero => simp
  | succ count ih =>
    obtain ⟨ahead, last, source⟩ := ih
    rw [Function.iterate_succ_apply', advance_ahead, advance_last, advance_source, ahead]
    simp [last, source]

/-- The token after all others marks the end of input, and no other token does. -/
lemma ofTokens_ends (source : String) (tokens : List Token) :
    (ofTokens source tokens).last.isEnd = true ∧
      ∀ token ∈ (ofTokens source tokens).ahead, token.isEnd = false := by
  constructor
  · unfold ofTokens
    cases found : tokens.find? (·.isEnd) with
    | none => simp [endToken, Token.isEnd]
    | some last => simpa [found] using List.find?_some found
  · intro token mem
    simpa using List.all_eq_true.mp List.all_takeWhile token mem

/-- The only token at a reachable place that marks the end of input is the last one: scanning ends
with that token, and going on only drops tokens in front. -/
lemma Reachable.ends {drift : Bool} {cursor : Cursor} (reachable : cursor.Reachable drift) :
    cursor.last.kind = .endOfInput ∧ ∀ token ∈ cursor.ahead, token.kind ≠ .endOfInput := by
  obtain ⟨count, eq⟩ := reachable
  obtain ⟨ahead, last, -⟩ := iterate_advance (Cursor.ofSource drift cursor.source) count
  obtain ⟨lastEnds, others⟩ := ofTokens_ends cursor.source (tokenize drift cursor.source)
  rw [eq, ahead, last]
  constructor
  · unfold Token.isEnd at lastEnds
    split at lastEnds
    · assumption
    · exact absurd lastEnds Bool.false_ne_true
  · intro token mem kind
    have := others token (List.mem_of_mem_drop mem)
    simp [Token.isEnd, kind] at this

end Cursor

/-! ## The end of input -/

namespace View

variable {view : View} (kind : view.current.kind = .endOfInput)

include kind

/-- At the end of input, no keyword is next. -/
lemma atKeyword_end (word : Keyword) : view.atKeyword word = false := by
  simp [atKeyword, Token.isKeyword, Token.keyword?, kind]

/-- At the end of input, no two keywords are next. -/
lemma atKeywords_end (first second : Keyword) : view.atKeywords first second = false := by
  have none : view.current.isKeyword first = false := atKeyword_end kind first
  rw [atKeywords, none, Bool.false_and]

/-- At the end of input, no symbol is next. -/
lemma atSymbol_end (which : Symbol) : view.atSymbol which = false := by
  simp [atSymbol, Token.isSymbol, kind]

/-- At the end of input, none of some keywords is next. -/
lemma atAnyKeyword_end (words : List Keyword) : view.atAnyKeyword words = false := by
  simp [atAnyKeyword, atKeyword_end kind]

/-- At the end of input, no name is next. -/
lemma atIdentifier_end : view.atIdentifier = false := by
  rw [atIdentifier, kind]
  rfl

end View

/-! ## Outcomes -/

/-- The outcome with another value. -/
def Outcome.map {α β : Type} (f : α → β) : Outcome α → Outcome β
  | .accepted value stop => .accepted (f value) stop
  | .rejected error stop => .rejected error stop

namespace Parser

variable {α β : Type} {dialect : Dialect} {cursor stop : Cursor} {value : α}

/-! ## Looking around -/

/-- Looking at the next tokens hands them over without taking any. -/
@[simp] lemma run_view_bind (next : View → Parser α) :
    (view >>= next).run dialect cursor = (next cursor.view).run dialect cursor := rfl

/-- Looking at the next token hands it over without taking it. -/
@[simp] lemma run_current_bind (next : Token → Parser α) :
    (current >>= next).run dialect cursor = (next cursor.current).run dialect cursor := rfl

/-- Asking for the place hands over the span of the next token without taking it. -/
@[simp] lemma run_here_bind (next : Span → Parser α) :
    (here >>= next).run dialect cursor = (next cursor.current.span).run dialect cursor := rfl

/-- A test of the next tokens hands over its outcome without taking any. -/
@[simp] lemma run_sees_bind (test : View → Bool) (next : Bool → Parser α) :
    (sees test >>= next).run dialect cursor = (next (test cursor.view)).run dialect cursor := rfl

/-- Asking for the span since a start hands it over without taking a token. -/
@[simp] lemma run_spanFrom_bind (start : Span) (next : Span → Parser α) :
    (spanFrom start >>= next).run dialect cursor =
      (next (cursor.spanFrom start)).run dialect cursor := rfl

/-- Asking for the drift extensions hands over whether the dialect has them, without taking a
token. -/
@[simp] lemma run_isDrift_bind (next : Bool → Parser α) :
    (isDrift >>= next).run dialect cursor = (next dialect.isDrift).run dialect cursor := rfl

/-! ## Sequences -/

/-- A parser that is followed by returning its value is the parser. -/
lemma andThen_done (parser : Parser α) : parser.andThen .done = parser := by
  induction parser with
  | done value | reject error => rfl
  | look next ih | take next ih | demand feature construct span next ih | ask next ih
  | read start next ih => exact congrArg _ (funext ih)

/-- Parsers are put together in any order of brackets. -/
lemma andThen_assoc {γ : Type} (parser : Parser α) (f : α → Parser β) (g : β → Parser γ) :
    (parser.andThen f).andThen g = parser.andThen fun value => (f value).andThen g := by
  induction parser with
  | done value | reject error => rfl
  | look next ih | take next ih | demand feature construct span next ih | ask next ih
  | read start next ih => exact congrArg _ (funext ih)

instance : LawfulMonad Parser :=
  .mk' Parser andThen_done (fun _ _ => rfl) andThen_assoc

/-- **A sequence runs the first parser and then, from where it stopped, the one that its value asks
for.** If the first one rejects, the sequence does, at the same place. -/
lemma run_bind (parser : Parser α) (next : α → Parser β) (cursor : Cursor) :
    (parser >>= next).run dialect cursor =
      match parser.run dialect cursor with
      | .accepted value stop => (next value).run dialect stop
      | .rejected error stop => .rejected error stop := by
  change (parser.andThen next).run dialect cursor = _
  induction parser generalizing cursor with
  | done | reject => rfl
  | look continuation ih | ask continuation ih | read start continuation ih =>
    simp only [andThen, run, ih]
  | take continuation ih =>
    simp only [andThen, run]
    split
    · rfl
    · rw [ih]
  | demand feature construct span continuation ih =>
    simp only [andThen, run]
    split
    · rw [ih]
    · rfl

/-- Returning the value that has just been read changes nothing. -/
lemma run_bind_pure (parser : Parser α) (cursor : Cursor) :
    (parser >>= pure).run dialect cursor = parser.run dialect cursor := by
  rw [run_bind]
  cases parser.run dialect cursor <;> rfl

/-- **A run moves forward.** Where an accepted run ends is reached by taking tokens. -/
lemma accepted_advances (parser : Parser α) {cursor : Cursor}
    (run : parser.run dialect cursor = .accepted value stop) :
    ∃ count, stop = Cursor.advance^[count] cursor := by
  induction parser generalizing cursor with
  | done other =>
    simp only [Parser.run, Outcome.accepted.injEq] at run
    exact ⟨0, run.2.symm⟩
  | reject => simp [Parser.run] at run
  | look continuation ih | ask continuation ih | read start continuation ih => exact ih _ run
  | take continuation ih =>
    simp only [Parser.run] at run
    split at run
    · simp at run
    · obtain ⟨count, eq⟩ := ih _ run
      exact ⟨count + 1, by rw [eq, Function.iterate_succ_apply]⟩
  | demand feature construct span continuation ih =>
    simp only [Parser.run] at run
    split at run
    · exact ih _ run
    · simp at run

/-- What has been accepted leaves no more tokens ahead than there were, as a parser only goes
forward. -/
lemma accepted_length {parser : Parser α}
    (run : parser.run dialect cursor = .accepted value stop) :
    stop.ahead.length ≤ cursor.ahead.length := by
  obtain ⟨count, rfl⟩ := accepted_advances parser run
  rw [(Cursor.iterate_advance cursor count).1, List.length_drop]
  omega

/-- What a parser leaves of the tokens after the next one is no longer than all of them. -/
lemma length_of_advance {parser : Parser α}
    (run : parser.run dialect cursor.advance = .accepted value stop) :
    stop.advance.ahead.length ≤ cursor.advance.ahead.length :=
  Nat.le_trans stop.length_advance (accepted_length run)

/-- Where a parser stops can be reached from wherever its start can be reached. -/
lemma accepted_reachable {parser : Parser α} {drift : Bool}
    (run : parser.run dialect cursor = .accepted value stop)
    (reachable : cursor.Reachable drift) : stop.Reachable drift := by
  obtain ⟨count, rfl⟩ := accepted_advances parser run
  exact reachable.iterate count

/-- An accepted run of a sequence consists of accepted runs of its two parts. -/
lemma accepted_bind {parser : Parser α} {next : α → Parser β} {result : β}
    (run : (parser >>= next).run dialect cursor = .accepted result stop) :
    ∃ value middle, parser.run dialect cursor = .accepted value middle ∧
      stop.ahead.length ≤ middle.ahead.length ∧
      (next value).run dialect middle = .accepted result stop := by
  rw [run_bind] at run
  split at run
  · next value middle first => exact ⟨value, middle, first, accepted_length run, run⟩
  · simp at run

/-- Returning a value accepts that value and takes no token. -/
lemma accepted_pure {result : α}
    (run : (pure value : Parser α).run dialect cursor = .accepted result stop) :
    value = result ∧ cursor = stop := by
  change Outcome.accepted value cursor = _ at run
  simpa using run

/-- A value at the end of a sequence, after the span of what was read. -/
lemma accepted_return {start : Span} {make : Span → α}
    (run : (do return make (← spanFrom start)).run dialect cursor = .accepted value stop) :
    make (cursor.spanFrom start) = value ∧ cursor = stop := by
  change (pure (make (cursor.spanFrom start)) : Parser α).run dialect cursor = _ at run
  exact accepted_pure run

/-! ## Single steps -/

section Steps

variable {next : α → Parser β} {result : β}

/-- A requirement of a feature that the dialect has does nothing. -/
lemma run_require_bind {feature : Feature} {construct : String} {span : Span}
    {next : Unit → Parser β} (has : dialect.supports feature = true) :
    (require feature construct span >>= next).run dialect cursor = (next ()).run dialect cursor :=
  if_pos has

/-- Only a dialect that has the required feature accepts what follows, which then runs as if nothing
had been required. -/
lemma accepted_require {feature : Feature} {construct : String} {span : Span}
    {next : Unit → Parser β}
    (run : (require feature construct span >>= next).run dialect cursor = .accepted result stop) :
    dialect.supports feature = true ∧ (next ()).run dialect cursor = .accepted result stop := by
  rw [run_bind] at run
  by_cases has : dialect.supports feature = true <;> simp_all [require, Parser.run]

/-- Reporting an unexpected token accepts nothing. -/
lemma not_accepted_unexpected {expected : String} :
    (unexpected expected : Parser α).run dialect cursor ≠ .accepted value stop := by
  simp [unexpected, run]

/-- Reporting an invalid construct accepts nothing. -/
lemma not_accepted_invalid {reason : String} {span : Span} :
    (invalid reason span : Parser α).run dialect cursor ≠ .accepted value stop := by
  simp [invalid, run]

/-- Running out of bounds accepts nothing. -/
lemma not_accepted_exhausted :
    (exhausted : Parser α).run dialect cursor ≠ .accepted value stop := by
  simp [exhausted, run]

/-- Taking a token that is not malformed hands it over and goes on behind it. -/
lemma run_advance_bind {next : Token → Parser β} (sound : cursor.current.kind.isMalformed = false) :
    (advance >>= next).run dialect cursor =
      (next cursor.current).run dialect cursor.advance := by
  change (match cursor.current.kind with
    | .malformed _ => _
    | _ => (next cursor.current).run dialect cursor.advance) = _
  generalize cursor.current.kind = kind at sound
  cases kind with
  | malformed => cases sound
  | _ => rfl

/-- A token that has been taken was not malformed, and what follows was accepted behind it. -/
lemma accepted_advance {next : Token → Parser β}
    (run : (advance >>= next).run dialect cursor = .accepted result stop) :
    cursor.current.kind.isMalformed = false ∧
      stop.ahead.length ≤ cursor.advance.ahead.length ∧
      (next cursor.current).run dialect cursor.advance = .accepted result stop := by
  have sound : cursor.current.kind.isMalformed = false := by
    change (match cursor.current.kind with
      | .malformed _ => _
      | _ => (next cursor.current).run dialect cursor.advance) = _ at run
    generalize cursor.current.kind = kind at run
    cases kind with
    | malformed => cases run
    | _ => rfl
  rw [run_advance_bind sound] at run
  exact ⟨sound, accepted_length run, run⟩

/-- A keyword is not malformed. -/
lemma sound_of_atKeyword {word : Keyword} (at_ : cursor.view.atKeyword word = true) :
    cursor.current.kind.isMalformed = false := by
  change cursor.current.isKeyword word = true at at_
  unfold Token.isKeyword Token.keyword? at at_
  generalize cursor.current.kind = kind at at_
  cases kind with
  | malformed => cases at_
  | _ => rfl

/-- A symbol is not a malformed token. -/
lemma sound_of_atSymbol {which : Symbol} (at_ : cursor.view.atSymbol which = true) :
    cursor.current.kind.isMalformed = false := by
  change cursor.current.isSymbol which = true at at_
  unfold Token.isSymbol at at_
  generalize cursor.current.kind = kind at at_
  cases kind with
  | malformed => cases at_
  | _ => rfl

/-- Taking a token if it passes a test goes on behind it with `true`, or stays and goes on with
`false`. -/
lemma run_taken_bind {test : View → Bool} {next : Bool → Parser β}
    (sound : test cursor.view = true → cursor.current.kind.isMalformed = false) :
    ((do
      if ← sees test then
        let _ ← advance
        return true
      else
        return false) >>= next).run dialect cursor =
      if test cursor.view = true then (next true).run dialect cursor.advance
      else (next false).run dialect cursor := by
  rw [run_bind, run_sees_bind]
  by_cases passes : test cursor.view = true
  · rw [if_pos passes, if_pos passes, run_advance_bind (sound passes)]
    rfl
  · rw [if_neg passes, if_neg passes]
    rfl

/-- Taking a keyword if it is there goes on behind it with `true`, or stays and goes on with
`false`. -/
lemma run_eatKeyword_bind {word : Keyword} {next : Bool → Parser β} :
    (eatKeyword word >>= next).run dialect cursor =
      if cursor.view.atKeyword word = true then (next true).run dialect cursor.advance
      else (next false).run dialect cursor :=
  run_taken_bind sound_of_atKeyword

/-- Taking a symbol if it is there goes on behind it with `true`, or stays and goes on with
`false`. -/
lemma run_eatSymbol_bind {which : Symbol} {next : Bool → Parser β} :
    (eatSymbol which >>= next).run dialect cursor =
      if cursor.view.atSymbol which = true then (next true).run dialect cursor.advance
      else (next false).run dialect cursor :=
  run_taken_bind sound_of_atSymbol

/-- A token that has to pass a test, and does, hands over its span, and the run goes on behind
it. -/
lemma run_expect_bind {test : View → Bool} {expected : String} {next : Span → Parser β}
    (sound : test cursor.view = true → cursor.current.kind.isMalformed = false)
    (passes : test cursor.view = true) :
    ((do if ← sees test then return (← advance).span else unexpected expected) >>= next).run
      dialect cursor = (next cursor.current.span).run dialect cursor.advance := by
  rw [run_bind, run_sees_bind, if_pos passes, run_advance_bind (sound passes)]
  rfl

/-- If a token that has to pass a test has been accepted, it did, and what follows was accepted
behind it. -/
lemma accepted_expect {test : View → Bool} {expected : String} {next : Span → Parser β}
    (sound : test cursor.view = true → cursor.current.kind.isMalformed = false)
    (run : ((do if ← sees test then return (← advance).span else unexpected expected) >>= next).run
      dialect cursor = .accepted result stop) :
    test cursor.view = true ∧ stop.ahead.length ≤ cursor.advance.ahead.length ∧
      (next cursor.current.span).run dialect cursor.advance = .accepted result stop := by
  have passes : test cursor.view = true := by
    by_contra not
    rw [run_bind, run_sees_bind, if_neg not] at run
    simp [unexpected, Parser.run] at run
  rw [run_expect_bind sound passes] at run
  exact ⟨passes, accepted_length run, run⟩

/-- A keyword that has to be there, and is, hands over its span and goes on behind it. -/
lemma run_expectKeyword_bind {word : Keyword} {next : Span → Parser β}
    (at_ : cursor.view.atKeyword word = true) :
    (expectKeyword word >>= next).run dialect cursor =
      (next cursor.current.span).run dialect cursor.advance :=
  run_expect_bind sound_of_atKeyword at_

/-- If a keyword that has to be there has been accepted, it was there, and what follows was accepted
behind it. -/
lemma accepted_expectKeyword {word : Keyword} {next : Span → Parser β}
    (run : (expectKeyword word >>= next).run dialect cursor = .accepted result stop) :
    cursor.view.atKeyword word = true ∧ stop.ahead.length ≤ cursor.advance.ahead.length ∧
      (next cursor.current.span).run dialect cursor.advance = .accepted result stop :=
  accepted_expect sound_of_atKeyword run

/-- A symbol that has to be there, and is, hands over its span and goes on behind it. -/
lemma run_expectSymbol_bind {which : Symbol} {next : Span → Parser β}
    (at_ : cursor.view.atSymbol which = true) :
    (expectSymbol which >>= next).run dialect cursor =
      (next cursor.current.span).run dialect cursor.advance :=
  run_expect_bind sound_of_atSymbol at_

/-- If a symbol that has to be there has been accepted, it was there, and what follows was accepted
behind it. -/
lemma accepted_expectSymbol {which : Symbol} {next : Span → Parser β}
    (run : (expectSymbol which >>= next).run dialect cursor = .accepted result stop) :
    cursor.view.atSymbol which = true ∧ stop.ahead.length ≤ cursor.advance.ahead.length ∧
      (next cursor.current.span).run dialect cursor.advance = .accepted result stop :=
  accepted_expect sound_of_atSymbol run

/-- A name is not a malformed token. -/
lemma sound_of_atIdentifier (at_ : cursor.view.atIdentifier = true) :
    cursor.current.kind.isMalformed = false := by
  change cursor.current.kind.isIdentifierLike = true at at_
  generalize cursor.current.kind = kind at at_
  cases kind with
  | malformed => cases at_
  | _ => rfl

/-- Where a name is next, it is read, and the place behind it is the next one. -/
lemma run_identifier (at_ : cursor.view.atIdentifier = true) :
    identifier.run dialect cursor = .accepted (nameOf cursor.current) cursor.advance := by
  unfold identifier
  rw [run_sees_bind, if_pos at_, run_advance_bind (sound_of_atIdentifier at_)]
  rfl

/-- Where a name is next, what follows is run with it, one token further on. -/
lemma run_identifier_bind {next : String → Parser β} (at_ : cursor.view.atIdentifier = true) :
    (identifier >>= next).run dialect cursor =
      (next (nameOf cursor.current)).run dialect cursor.advance := by
  rw [run_bind, run_identifier at_]

/-- A name that has been read is the next token, and reading it takes that token only. -/
lemma accepted_identifier {name : String}
    (run : identifier.run dialect cursor = .accepted name stop) :
    cursor.view.atIdentifier = true ∧ nameOf cursor.current = name ∧ cursor.advance = stop := by
  have at_ : cursor.view.atIdentifier = true := by
    by_contra not
    unfold identifier at run
    rw [run_sees_bind, if_neg not] at run
    exact not_accepted_unexpected run
  rw [run_identifier at_] at run
  exact ⟨at_, (Outcome.accepted.inj run).1, (Outcome.accepted.inj run).2⟩

end Steps

/-! ## What all values have in common -/

/-- Every value that the parser accepts has this property, in any dialect and at any place. -/
def Yields (parser : Parser α) (property : α → Prop) : Prop :=
  ∀ ⦃dialect cursor value stop⦄, parser.run dialect cursor = .accepted value stop → property value

namespace Yields

variable {property : α → Prop}

/-- A sequence yields what its second parser yields, whatever the first one has read. -/
lemma bind {parser : Parser β} {next : β → Parser α}
    (yields : ∀ value, (next value).Yields property) : (parser >>= next).Yields property := by
  intro dialect cursor value stop run
  obtain ⟨first, middle, -, -, run⟩ := accepted_bind run
  exact yields first run

/-- Returning a value yields whatever holds of it. -/
lemma of_pure (holds : property value) : (pure value : Parser α).Yields property := by
  intro dialect cursor value stop run
  obtain ⟨rfl, -⟩ := accepted_pure run
  exact holds

/-- What all values have, they have in a weaker form. -/
lemma imp {weaker : α → Prop} {parser : Parser α} (yields : parser.Yields property)
    (implies : ∀ value, property value → weaker value) : parser.Yields weaker :=
  fun _ _ value _ run => implies value (yields run)

/-- Reporting an unexpected token yields nothing, so whatever is asked. -/
lemma of_unexpected (expected : String) : (unexpected expected : Parser α).Yields property :=
  fun _ _ _ _ run => absurd run not_accepted_unexpected

/-- Reporting an invalid construct yields nothing, so whatever is asked. -/
lemma of_invalid (reason : String) (span : Span) :
    (invalid reason span : Parser α).Yields property :=
  fun _ _ _ _ run => absurd run not_accepted_invalid

/-- What is read after a keyword has the property, if it is there. -/
lemma afterKeyword {word : Keyword} {parser : Parser α} (yields : parser.Yields property) :
    (afterKeyword word parser).Yields fun value => ∀ part, value = some part → property part := by
  intro dialect cursor value stop run
  unfold Parser.afterKeyword at run
  rw [run_eatKeyword_bind] at run
  split at run
  · obtain ⟨part, middle, inner, -, run⟩ := accepted_bind run
    obtain ⟨rfl, -⟩ := accepted_pure run
    rintro part' ⟨⟩
    exact yields inner
  · obtain ⟨rfl, -⟩ := accepted_pure run
    exact fun part eq => absurd eq (by simp)

/-- What is read where a test passes has the property, if it is there. -/
lemma whenever {test : View → Bool} {parser : Parser α} (yields : parser.Yields property) :
    (whenever test parser).Yields fun value => ∀ part, value = some part → property part := by
  intro dialect cursor value stop run
  unfold Parser.whenever at run
  rw [run_sees_bind] at run
  split at run
  · obtain ⟨part, middle, inner, -, run⟩ := accepted_bind run
    obtain ⟨rfl, -⟩ := accepted_pure run
    rintro part' ⟨⟩
    exact yields inner
  · obtain ⟨rfl, -⟩ := accepted_pure run
    exact fun part eq => absurd eq (by simp)

end Yields

/-! ## Two parsers side by side -/

/-- Whatever the parser accepts, the other one accepts as well, with the same end and a value that
is related to the first one. -/
def Rel (related : α → β → Prop) (parser : Parser α) (other : Parser β) : Prop :=
  ∀ ⦃dialect cursor value stop⦄, parser.run dialect cursor = .accepted value stop →
    ∃ value', other.run dialect cursor = .accepted value' stop ∧ related value value'

namespace Rel

variable {related : α → β → Prop}

/-- Sequences that begin alike. -/
lemma congr {γ : Type} {parser : Parser γ} {next : γ → Parser α} {other : γ → Parser β}
    (rel : ∀ value, (next value).Rel related (other value)) :
    (parser >>= next).Rel related (parser >>= other) := by
  intro dialect cursor value stop run
  obtain ⟨first, middle, run₁, -, run₂⟩ := accepted_bind run
  obtain ⟨value', run', holds⟩ := rel first run₂
  exact ⟨value', by rw [run_bind, run₁]; exact run', holds⟩

/-- Sequences that begin with related values. -/
lemma bind {γ δ : Type} {first : γ → δ → Prop} {parser : Parser γ} {parser' : Parser δ}
    {next : γ → Parser α} {other : δ → Parser β} (rel : parser.Rel first parser')
    (rel' : ∀ value value', first value value' → (next value).Rel related (other value')) :
    (parser >>= next).Rel related (parser' >>= other) := by
  intro dialect cursor value stop run
  obtain ⟨value₁, middle, run₁, -, run₂⟩ := accepted_bind run
  obtain ⟨value₁', run₁', holds⟩ := rel run₁
  obtain ⟨value', run', holds'⟩ := rel' value₁ value₁' holds run₂
  exact ⟨value', by rw [run_bind, run₁']; exact run', holds'⟩

/-- Returning related values is related. -/
lemma of_pure {value : α} {value' : β} (holds : related value value') :
    (pure value : Parser α).Rel related (pure value') := by
  intro dialect cursor result stop run
  obtain ⟨rfl, rfl⟩ := accepted_pure run
  exact ⟨value', rfl, holds⟩

/-- Returning values made with the spans of what has been read is related, if they are related for
all spans. -/
lemma of_return {start start' : Span} {make : Span → α} {make' : Span → β}
    (holds : ∀ span span', related (make span) (make' span')) :
    Rel related (do return make (← spanFrom start)) (do return make' (← spanFrom start')) := by
  intro dialect cursor result stop run
  obtain ⟨rfl, rfl⟩ := accepted_return run
  exact ⟨_, rfl, holds _ _⟩

/-- A parser that accepts nothing is related to every parser. -/
lemma of_unexpected {expected : String} {other : Parser β} :
    (unexpected expected : Parser α).Rel related other :=
  fun _ _ _ _ run => absurd run not_accepted_unexpected

/-- Loops whose steps keep their states related. -/
lemma iterate {step : α → Parser (Option α)} {step' : β → Parser (Option β)}
    (rel : ∀ value value', related value value' →
      (step value).Rel (Option.Rel related) (step' value'))
    (fuel : Nat) {value : α} {value' : β} (holds : related value value') :
    (iterate step fuel value).Rel related (Parser.iterate step' fuel value') := by
  induction fuel generalizing value value' with
  | zero => exact fun _ _ _ _ run => absurd run not_accepted_exhausted
  | succ fuel ih =>
    refine .bind (rel value value' holds) fun next next' holds => ?_
    cases holds with
    | none => exact .of_pure ‹_›
    | some holds => exact ih holds

end Rel

/-! ## Accepting -/

/-- The parser accepts here, with a value and an end of this kind. -/
def Accepts (dialect : Dialect) (parser : Parser α) (cursor : Cursor)
    (post : α → Cursor → Prop) : Prop :=
  ∃ value stop, parser.run dialect cursor = .accepted value stop ∧ post value stop

namespace Accepts

variable {parser : Parser α} {post : α → Cursor → Prop}

/-- **A sequence accepts** if its first parser does, and the second one does from wherever the first
one stops. -/
lemma bind {next : α → Parser β} {result : β → Cursor → Prop}
    (first : Accepts dialect parser cursor post)
    (second : ∀ value stop, parser.run dialect cursor = .accepted value stop → post value stop →
      Accepts dialect (next value) stop result) :
    Accepts dialect (parser >>= next) cursor result := by
  obtain ⟨value, stop, run, holds⟩ := first
  obtain ⟨value', stop', run', holds'⟩ := second value stop run holds
  exact ⟨value', stop', by rw [run_bind, run]; exact run', holds'⟩

/-- Returning a value accepts at the same place. -/
lemma of_pure (holds : post value cursor) :
    Accepts dialect (pure value : Parser α) cursor post :=
  ⟨value, cursor, rfl, holds⟩

/-- Returning a value made with the span of what has been read accepts at the same place. -/
lemma of_return {start : Span} {make : Span → α}
    (holds : post (make (cursor.spanFrom start)) cursor) :
    Accepts dialect (do return make (← spanFrom start)) cursor post :=
  ⟨_, cursor, rfl, holds⟩

/-- Parsers that run alike accept alike. -/
lemma congr {other : Parser α} {elsewhere : Cursor}
    (accepts : Accepts dialect other elsewhere post)
    (alike : parser.run dialect cursor = other.run dialect elsewhere) :
    Accepts dialect parser cursor post := by
  obtain ⟨value, stop, run, holds⟩ := accepts
  exact ⟨value, stop, alike.trans run, holds⟩

/-- What is accepted with a property is accepted with whatever the property implies. -/
lemma mono {weaker : α → Cursor → Prop} (accepts : Accepts dialect parser cursor post)
    (weakens : ∀ value stop, post value stop → weaker value stop) :
    Accepts dialect parser cursor weaker := by
  obtain ⟨value, stop, run, holds⟩ := accepts
  exact ⟨value, stop, run, weakens _ _ holds⟩

end Accepts

/-! ## Loops -/

section Loops

variable {c c₁ : Cursor}

/-- A loop gets from one state and place to another by steps that go on. -/
inductive Loops {σ : Type} (dialect : Dialect) (step : σ → Parser (Option σ)) :
    σ → Cursor → σ → Cursor → Prop where
  | refl (state : σ) (cursor : Cursor) : Loops dialect step state cursor state cursor
  | step {state middle last : σ} {c c₂ c₁ : Cursor}
    (first : (step state).run dialect c = .accepted (some middle) c₂)
    (others : Loops dialect step middle c₂ last c₁) : Loops dialect step state c last c₁

/-- An accepted loop goes on for some steps, and then its step ends it. -/
lemma accepted_iterate {σ : Type} {step : σ → Parser (Option σ)} {fuel : Nat}
    {s s₁ : σ} (run : (iterate step fuel s).run dialect c = .accepted s₁ c₁) :
    ∃ c₂, Loops dialect step s c s₁ c₂ ∧ (step s₁).run dialect c₂ = .accepted none c₁ := by
  induction fuel generalizing s c with
  | zero => exact absurd run not_accepted_exhausted
  | succ fuel ih =>
    obtain ⟨next, c₂, first, -, run⟩ := accepted_bind run
    cases next with
    | none =>
      obtain ⟨rfl, rfl⟩ := accepted_pure run
      exact ⟨c, .refl _ _, first⟩
    | some s₂ =>
      obtain ⟨c₃, loops, stop⟩ := ih run
      exact ⟨c₃, .step first loops, stop⟩

/-- A loop ends where its step ends it. -/
lemma run_iterate_of_none {σ : Type} {step : σ → Parser (Option σ)} {fuel : Nat} {s : σ}
    (some : 0 < fuel) (run : (step s).run dialect c = .accepted none c₁) :
    (iterate step fuel s).run dialect c = .accepted s c₁ := by
  obtain ⟨less, rfl⟩ : ∃ less, fuel = less + 1 := ⟨fuel - 1, by omega⟩
  rw [iterate, run_bind, run]
  rfl

/-- A loop goes on where its step does. -/
lemma run_iterate_of_some {σ : Type} {step : σ → Parser (Option σ)} (fuel : Nat) {s s₁ : σ}
    (run : (step s).run dialect c = .accepted (Option.some s₁) c₁) :
    (iterate step (fuel + 1) s).run dialect c = (iterate step fuel s₁).run dialect c₁ := by
  rw [iterate, run_bind, run]

/-- A loop goes on at its end. -/
lemma Loops.snoc {σ : Type} {step : σ → Parser (Option σ)} {state middle last : σ}
    {c c₂ c₁ : Cursor} (loops : Loops dialect step state c middle c₂)
    (more : (step middle).run dialect c₂ = .accepted (some last) c₁) :
    Loops dialect step state c last c₁ := by
  induction loops with
  | refl => exact .step more (.refl _ _)
  | step first _ ih => exact .step first (ih more)

/-- A loop leaves no more tokens ahead than there were, as none of its turns does. -/
lemma Loops.length {σ : Type} {step : σ → Parser (Option σ)} {s s₁ : σ}
    (loops : Loops dialect step s c s₁ c₁) : c₁.ahead.length ≤ c.ahead.length := by
  induction loops with
  | refl => exact Nat.le_refl _
  | step first _ ih => exact Nat.le_trans ih (accepted_length first)

end Loops

/-! ## Lists

A list of parts is read one part after the other, so a run of the list can be followed part by
part. -/

section Lists

variable {cursor middle : Cursor} {step : Parser (Option α)}

/-- One turn of a list, after the parts that have been read. -/
def collect (step : Parser (Option α)) (parts : List α) : Parser (Option (List α)) := do
  return (← step).map (· :: parts)

/-- A list ends where its step yields nothing, and keeps what it has. -/
lemma run_collect_of_none (run : step.run dialect cursor = .accepted none middle)
    (parts : List α) : (collect step parts).run dialect cursor = .accepted none middle := by
  unfold collect
  rw [run_bind, run]
  rfl

/-- A list takes what its step yields in front of what it has. -/
lemma run_collect_of_some {part : α} (run : step.run dialect cursor = .accepted (some part) middle)
    (parts : List α) :
    (collect step parts).run dialect cursor = .accepted (some (part :: parts)) middle := by
  unfold collect
  rw [run_bind, run]
  rfl

/-- The parts that have been read stay behind the further ones. -/
lemma run_iterate_collect (fuel : Nat) (parts : List α) :
    (iterate (collect step) fuel parts).run dialect cursor =
      ((iterate (collect step) fuel []).run dialect cursor).map (· ++ parts) := by
  induction fuel generalizing parts cursor with
  | zero => rfl
  | succ fuel ih =>
    rw [iterate, iterate, run_bind, run_bind]
    cases run : step.run dialect cursor with
    | accepted next middle =>
      cases next with
      | none => rw [run_collect_of_none run, run_collect_of_none run]; rfl
      | some part =>
        rw [run_collect_of_some run, run_collect_of_some run]
        dsimp only
        rw [ih, ih [part]]
        cases (iterate (collect step) fuel []).run dialect middle with
        | accepted others stop => simp [Outcome.map]
        | rejected error stop => rfl
    | rejected error middle =>
      unfold collect
      rw [run_bind, run_bind, run]
      rfl

/-- A list is read by a loop that collects its parts in reverse order. -/
lemma run_many (fuel : Nat) :
    (many fuel step).run dialect cursor =
      ((iterate (collect step) fuel []).run dialect cursor).map List.reverse := by
  unfold many
  change (iterate (collect step) fuel [] >>= _).run dialect cursor = _
  rw [run_bind]
  cases (iterate (collect step) fuel []).run dialect cursor <;> rfl

/-- A list ends where its step yields nothing. -/
lemma run_many_of_none (fuel : Nat) (run : step.run dialect cursor = .accepted none middle) :
    (many (fuel + 1) step).run dialect cursor = .accepted [] middle := by
  rw [run_many, iterate, run_bind, run_collect_of_none run]
  rfl

/-- A list starts with what its step yields. -/
lemma run_many_of_some (fuel : Nat) {part : α}
    (run : step.run dialect cursor = .accepted (some part) middle) :
    (many (fuel + 1) step).run dialect cursor =
      ((many fuel step).run dialect middle).map (part :: ·) := by
  rw [run_many, run_many, iterate, run_bind, run_collect_of_some run]
  dsimp only
  rw [run_iterate_collect]
  cases (iterate (collect step) fuel []).run dialect middle with
  | accepted others stop => simp [Outcome.map]
  | rejected error stop => rfl

/-- A list is rejected where its step is. -/
lemma run_many_of_rejected (fuel : Nat) {error : ParseError}
    (run : step.run dialect cursor = .rejected error middle) :
    (many (fuel + 1) step).run dialect cursor = .rejected error middle := by
  rw [run_many, iterate, run_bind]
  unfold collect
  rw [run_bind, run]
  rfl

/-- Lists are read alike where their steps do the same. -/
lemma run_many_congr (fuel : Nat) {other : Cursor}
    (same : step.run dialect cursor = step.run dialect other) :
    (many (fuel + 1) step).run dialect cursor = (many (fuel + 1) step).run dialect other := by
  cases run : step.run dialect other with
  | accepted next middle =>
    cases next with
    | none => rw [run_many_of_none fuel run, run_many_of_none fuel (same.trans run)]
    | some part => rw [run_many_of_some fuel run, run_many_of_some fuel (same.trans run)]
  | rejected error middle =>
    rw [run_many_of_rejected fuel run, run_many_of_rejected fuel (same.trans run)]

/-- An accepted list is empty, or it starts with what its step yields. -/
lemma accepted_many {fuel : Nat} {list : List α} {stop : Cursor}
    (run : (many fuel step).run dialect cursor = .accepted list stop) :
    ∃ less, fuel = less + 1 ∧
      ((list = [] ∧ step.run dialect cursor = .accepted none stop) ∨
        ∃ part others middle, list = part :: others ∧
          step.run dialect cursor = .accepted (some part) middle ∧
          (many less step).run dialect middle = .accepted others stop) := by
  cases fuel with
  | zero => simp [run_many, iterate, exhausted, Parser.run, Outcome.map] at run
  | succ fuel =>
    refine ⟨fuel, rfl, ?_⟩
    cases first : step.run dialect cursor with
    | accepted next middle =>
      cases next with
      | none =>
        rw [run_many_of_none fuel first] at run
        obtain ⟨rfl, rfl⟩ : [] = list ∧ middle = stop := by simpa using run
        exact .inl ⟨rfl, rfl⟩
      | some part =>
        rw [run_many_of_some fuel first] at run
        cases rest : (many fuel step).run dialect middle with
        | accepted others place =>
          rw [rest] at run
          obtain ⟨rfl, rfl⟩ : part :: others = list ∧ place = stop := by
            simpa [Outcome.map] using run
          exact .inr ⟨part, others, middle, rfl, rfl, rest⟩
        | rejected error place => simp [rest, Outcome.map] at run
    | rejected error middle => simp [run_many_of_rejected fuel first] at run

end Lists

end Parser

end SqlTree
