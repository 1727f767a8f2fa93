import SqlTree.Proofs.Careful.Setting
import SqlTree.Proofs.Reread.Starter

set_option autoImplicit false

/-!
# Careful steps

The single steps of parsers, their optional parts and their loops are careful. Tests are steady if
they come out in the same way whether the input ends or a separator follows.

## Main definitions

* `SqlTree.View.Nears` — what is seen in a source, and what is seen there in a longer one.
* `SqlTree.Parser.Steady` — a test that comes out in the same way in both.

## Main results

* `SqlTree.Parser.CarefulAt.advance` — taking a token that has been seen is careful.
* `SqlTree.Parser.Careful.iterate` — loops of careful steps are careful.
-/

namespace SqlTree

open SqlTree.Parser

/-! ## What is seen before a separator -/

/-- The kinds are the same, or a separator stands for the end of input. -/
def TokenKind.Nears (kind longer : TokenKind) : Prop :=
  longer = kind ∨ kind = .endOfInput ∧ longer.IsSeparator

namespace TokenKind.Nears

variable {kind longer : TokenKind} (near : kind.Nears longer)

include near

/-- Whether a token is some keyword does not depend on what follows the source, as separators are no
keywords. -/
lemma isKeyword (word : Keyword) : longer.isKeyword word = kind.isKeyword word := by
  obtain rfl | ⟨rfl, rfl | rfl⟩ := near <;> rfl

/-- Whether a token is some symbol does not depend on what follows the source, unless the symbol is
a separator itself. -/
lemma isSymbol {which : Symbol} (other : ¬ (TokenKind.symbol which).IsSeparator) :
    longer.isSymbol which = kind.isSymbol which := by
  obtain rfl | ⟨rfl, separates⟩ := near
  · rfl
  · have no : longer.isSymbol which = false := by
      by_contra is
      rw [Bool.not_eq_false, TokenKind.isSymbol_iff] at is
      exact other (is ▸ separates)
    rw [no]
    rfl

/-- Whether a token may be a name does not depend on what follows the source. -/
lemma isIdentifierLike : longer.isIdentifierLike = kind.isIdentifierLike := by
  obtain rfl | ⟨rfl, rfl | rfl⟩ := near <;> rfl

/-- How tight a token binds as an operator does not depend on what follows the source: neither the
end of input nor a separator is an operator. -/
lemma infixPower : Grammar.infixPower longer = Grammar.infixPower kind := by
  obtain rfl | ⟨rfl, rfl | rfl⟩ := near <;> rfl

end TokenKind.Nears

/-- What is seen at a place, and what is seen there in a longer source: tokens up to the end of
input are the same, and a separator stands for the end. -/
structure View.Nears (view longer : View) : Prop where
  first : view.current.kind.Nears longer.current.kind
  second : view.current.kind ≠ .endOfInput → view.second.kind.Nears longer.second.kind
  third : view.current.kind ≠ .endOfInput → view.second.kind ≠ .endOfInput →
    view.third.kind.Nears longer.third.kind

/-- **What is seen before a sequel.** The three tokens that are seen at a place are the same in a
longer source, up to the end of input, for which a separator stands there.

**Proof sketch.** A token at a distance below the number of tokens ahead is the same in both
(`peek_before`), and the one at that distance is the end of input here and the separator there
(`peek_end`, `peek_before_end`). A token beyond is only asked for where none before it is the end of
input, which is then not the case. -/
lemma Cursor.view_before {cursor : Cursor} (ends : cursor.Ends) (sequel : Sequel) :
    cursor.view.Nears (cursor.before sequel).view := by
  -- a token that is ahead is the same in both; the first one that is not is the separator
  have near (distance : Nat)
      (inside : ∀ i < distance, (cursor.peek i).kind ≠ .endOfInput) :
      (cursor.peek distance).kind.Nears ((cursor.before sequel).peek distance).kind := by
    rcases Nat.lt_trichotomy distance cursor.ahead.length with lt | rfl | gt
    · exact .inl (by rw [peek_before sequel lt])
    · exact .inr ⟨peek_end ends (Nat.le_refl _), by
        rw [peek_before_end]; exact sequel.isSeparator⟩
    · exact absurd (peek_end ends (Nat.le_refl _)) (inside _ gt)
  refine ⟨near 0 (by simp), fun first => near 1 ?_, fun first second => near 2 ?_⟩
  · intro i lt
    obtain rfl : i = 0 := by omega
    exact first
  · intro i lt
    obtain rfl | rfl : i = 0 ∨ i = 1 := by omega
    · exact first
    · exact second

namespace View

variable {view : View}

/-- Whether a symbol is next depends on the next token only. -/
lemma atSymbol_congr {longer : View} {which : Symbol} (same : longer.current = view.current) :
    longer.atSymbol which = view.atSymbol which :=
  congrArg (Token.isSymbol · which) same

/-- The next token is the end of input or a separator. -/
def Stops (view : View) : Prop :=
  view.current.kind = .endOfInput ∨ view.current.kind.IsSeparator

/-- At the end of input or a separator, no keyword is next. -/
lemma Stops.atKeyword (stops : view.Stops) (word : Keyword) : view.atKeyword word = false := by
  unfold View.atKeyword
  obtain kind | kind | kind := stops <;> simp [kind, TokenKind.isKeyword]

/-- At the end of input or a separator, no two keywords are next. -/
lemma Stops.atKeywords (stops : view.Stops) (first second : Keyword) :
    view.atKeywords first second = false := by
  unfold View.atKeywords
  rw [show view.current.isKeyword first = false from stops.atKeyword first, Bool.false_and]

/-- At the end of input or a separator, no comma is next. -/
lemma Stops.atComma (stops : view.Stops) : view.atSymbol .comma = false := by
  unfold View.atSymbol
  obtain kind | kind | kind := stops <;> simp [kind, TokenKind.isSymbol]

end View

namespace View.Nears

variable {view longer : View} (near : view.Nears longer)

include near

/-- Where a token is next, whether the one after it is some keyword does not depend on what follows
the source. -/
lemma second_isKeyword {word : Keyword} (inside : view.current.kind ≠ .endOfInput) :
    longer.second.isKeyword word = view.second.isKeyword word := by
  simpa using (near.second inside).isKeyword word

/-- Where a token is next, whether the one after it is some symbol does not depend on what follows
the source, unless the symbol is a separator. -/
lemma second_isSymbol (which : Symbol) (other : ¬ (TokenKind.symbol which).IsSeparator)
    (inside : view.current.kind ≠ .endOfInput) :
    longer.second.isSymbol which = view.second.isSymbol which := by
  simpa using (near.second inside).isSymbol other

/-- Where two tokens are next, whether the third one is some keyword does not depend on what follows
the source. -/
lemma third_isKeyword {word : Keyword} (inside : view.current.kind ≠ .endOfInput)
    (inside' : view.second.kind ≠ .endOfInput) :
    longer.third.isKeyword word = view.third.isKeyword word := by
  simpa using (near.third inside inside').isKeyword word

/-- Where two tokens are next, whether the third one is some symbol does not depend on what follows
the source, unless the symbol is a separator. -/
lemma third_isSymbol (which : Symbol) (other : ¬ (TokenKind.symbol which).IsSeparator)
    (inside : view.current.kind ≠ .endOfInput) (inside' : view.second.kind ≠ .endOfInput) :
    longer.third.isSymbol which = view.third.isSymbol which := by
  simpa using (near.third inside inside').isSymbol other

/-- Whether some keyword is next does not depend on what follows the source. -/
lemma atKeyword (word : Keyword) : longer.atKeyword word = view.atKeyword word := by
  simpa [View.atKeyword] using near.first.isKeyword word

/-- Whether one of some keywords is next does not depend on what follows the source. -/
lemma atAnyKeyword (words : List Keyword) :
    longer.atAnyKeyword words = view.atAnyKeyword words := by
  unfold View.atAnyKeyword
  congr 1
  funext word
  exact near.atKeyword word

/-- Whether some symbol is next does not depend on what follows the source, unless the symbol is a
separator. -/
lemma atSymbol (which : Symbol) (other : ¬ (TokenKind.symbol which).IsSeparator) :
    longer.atSymbol which = view.atSymbol which := by
  simpa [View.atSymbol] using near.first.isSymbol other

/-- Whether a name is next does not depend on what follows the source. -/
lemma atIdentifier : longer.atIdentifier = view.atIdentifier :=
  near.first.isIdentifierLike

/-- Whether a query is next does not depend on what follows the source. -/
lemma atQuery : longer.atQuery = view.atQuery :=
  near.atAnyKeyword _

omit near in
/-- A test of the first token that fails at the end, and then a test of the second one. -/
lemma and_second {first second first' second' : Bool} (same : first' = first)
    (ends : first = true → view.current.kind ≠ .endOfInput)
    (inside : view.current.kind ≠ .endOfInput → second' = second) :
    (first' && second') = (first && second) := by
  subst same
  cases eq : first' with
  | false => rfl
  | true => rw [inside (ends eq)]

omit near in
/-- Where a keyword is next, the input has not ended. -/
lemma inside_of_atKeyword {word : Keyword} (at_ : view.atKeyword word = true) :
    view.current.kind ≠ .endOfInput := by
  intro kind
  simp [View.atKeyword, kind, TokenKind.isKeyword] at at_

omit near in
/-- Where one of some keywords is next, the input has not ended. -/
lemma inside_of_atAnyKeyword {words : List Keyword} (at_ : view.atAnyKeyword words = true) :
    view.current.kind ≠ .endOfInput := by
  obtain ⟨word, -, at_⟩ := List.any_eq_true.mp at_
  exact inside_of_atKeyword at_

omit near in
/-- Where a symbol is next, the input has not ended. -/
lemma inside_of_atSymbol {which : Symbol} (at_ : view.atSymbol which = true) :
    view.current.kind ≠ .endOfInput := by
  intro kind
  simp [View.atSymbol, kind, TokenKind.isSymbol] at at_

omit near in
/-- Where a name is next, the input has not ended. -/
lemma inside_of_atIdentifier (at_ : view.atIdentifier = true) :
    view.current.kind ≠ .endOfInput := by
  intro kind
  simp [View.atIdentifier, kind, TokenKind.isIdentifierLike] at at_

/-- Whether two keywords are next does not depend on what follows the source: the second token is
only looked at where the first one is a keyword. -/
lemma atKeywords (first second : Keyword) :
    longer.atKeywords first second = view.atKeywords first second :=
  and_second (near.atKeyword first) inside_of_atKeyword fun inside =>
    near.second_isKeyword inside

end View.Nears

/-! ## Tokens that can be taken -/

namespace Token.IsProper

variable {token : Token}

/-- A keyword can be taken. -/
lemma of_isKeyword {word : Keyword} (is : token.isKeyword word = true) : token.IsProper := by
  rw [Token.isKeyword_eq, TokenKind.isKeyword_iff] at is
  exact of_kind is rfl

/-- Where one of some keywords is next, the next token can be taken. -/
lemma of_atAnyKeyword {view : View} {words : List Keyword}
    (at_ : view.atAnyKeyword words = true) : view.current.IsProper := by
  obtain ⟨word, -, is⟩ := List.any_eq_true.mp at_
  exact of_isKeyword is

/-- A token that is looked up as a keyword can be taken. -/
lemma of_keyword? {word : Keyword} (is : token.keyword? = some word) : token.IsProper := by
  unfold Token.keyword? at is
  split at is
  · next kind => exact of_kind kind rfl
  · simp at is

/-- A symbol can be taken. -/
lemma of_isSymbol {which : Symbol} (is : token.isSymbol which = true) : token.IsProper := by
  rw [Token.isSymbol_eq, TokenKind.isSymbol_iff] at is
  exact of_kind is rfl

/-- A token that is something which neither the end of input nor a malformed token is. -/
lemma of_found {β : Type} {find : TokenKind → Option β} {value : β}
    (atEnd : find .endOfInput = none)
    (malformed : ∀ error, find (.malformed error) = none)
    (found : find token.kind = some value) : token.IsProper := by
  unfold IsProper
  generalize token.kind = kind at found ⊢
  cases kind with
  | endOfInput =>
    rw [atEnd] at found
    cases found
  | malformed error =>
    rw [malformed] at found
    cases found
  | _ => rfl

/-- A token that may be a name can be taken. -/
lemma of_isIdentifierLike (is : token.kind.isIdentifierLike = true) : token.IsProper := by
  unfold IsProper
  generalize token.kind = kind at is ⊢
  cases kind with
  | endOfInput | malformed => cases is
  | _ => rfl

end Token.IsProper

namespace Parser

variable {α β : Type} {S : Surroundings} {good : α → Prop} {later : β → Prop} {cursor : Cursor}

/-! ## Ends of parsers -/

namespace CarefulAt

variable {parser : Parser α} {longer : Sequel → Parser α}

/-- What accepts nothing goes on like anything. -/
lemma of_never (orderly : parser.Orderly S.origin cursor good) (never : parser.NeverAt cursor) :
    CarefulAt S parser longer good cursor :=
  ⟨orderly, fun _ _ _ _ _ run => absurd run (@never _ _ _)⟩

/-- Reporting an unexpected token is careful: the error is about the next token, and nothing is
accepted that could go on. -/
lemma of_unexpected (expected : String) :
    CarefulAt S (unexpected expected : Parser α) longer good cursor :=
  of_never rfl fun _ _ _ => not_accepted_unexpected

/-- Parsers that are the same when the source is longer. -/
lemma congr (careful : CarefulOn S parser good cursor)
    (same : ∀ sequel ∈ S.sequel, longer sequel = parser) :
    CarefulAt S parser longer good cursor :=
  ⟨careful.orderly, fun sequel mem dialect value stop run => by
    rw [same sequel mem]; exact careful.goesOn sequel mem run⟩

/-- What is careful with values of one kind is careful with values of any wider kind. -/
lemma mono {weaker : α → Prop} (careful : CarefulAt S parser longer good cursor)
    (weakens : ∀ value, good value → weaker value) :
    CarefulAt S parser longer weaker cursor :=
  ⟨careful.orderly.mono weakens, careful.goesOn⟩

/-! ## Looking around -/

/-- Looking at the next tokens is careful if what follows is, where the second parser may depend on
what is seen in the longer source. -/
lemma view {next : View → Parser α}
    (rest : CarefulAt S (next cursor.view) (fun sequel => next (cursor.before sequel).view) good
      cursor) :
    CarefulOn S (view >>= next) good cursor :=
  ⟨rest.orderly, fun sequel mem _ _ _ run => rest.goesOn sequel mem run⟩

/-- The place is the same where a token is ahead. -/
lemma here {next : Span → Parser α} (some : cursor.ahead ≠ [])
    (rest : CarefulOn S (next cursor.current.span) good cursor) :
    CarefulOn S (here >>= next) good cursor := by
  refine ⟨rest.orderly, fun sequel mem dialect value stop run => ?_⟩
  rw [run_here_bind, Cursor.current_before sequel some]
  exact rest.goesOn sequel mem run

/-- The text behind a place is the same in a longer source. -/
lemma textFrom {start : Nat} {next : String → Parser α} (passes : S.origin.Passes cursor start)
    (rest : ∀ text, CarefulOn S (next text) good cursor) :
    CarefulOn S (textFrom start >>= next) good cursor :=
  ⟨⟨passes, fun text => (rest text).orderly⟩, fun sequel mem _ _ _ run =>
    (rest (cursor.textFrom start)).goesOn sequel mem run⟩

/-! ## Taking tokens -/

/-- Taking a token that has been seen is careful. -/
lemma advance {next : Token → Parser α} (reached : S.origin.Reaches cursor)
    (proper : cursor.current.IsProper)
    (rest : CarefulOn S (next cursor.current) good cursor.advance) :
    CarefulOn S (advance >>= next) good cursor := by
  have some := Cursor.ahead_of_proper (reached.ends S.ends) proper
  refine ⟨⟨proper, rest.orderly⟩, fun sequel mem dialect value stop run => ?_⟩
  rw [run_advance_bind proper.sound] at run
  have same := Cursor.current_before sequel some
  rw [run_advance_bind (by rw [same]; exact proper.sound), same, Cursor.advance_before sequel some]
  exact rest.goesOn sequel mem run

/-- Taking a token that has been seen, of which only the place matters. -/
lemma take {next : Token → Parser α} (reached : S.origin.Reaches cursor)
    (proper : cursor.current.IsProper)
    (rest : ∀ token, S.origin.Begins token.span → Careful S (next token) good) :
    CarefulOn S (Parser.advance >>= next) good cursor :=
  advance reached proper (rest _ reached.begins (reached.advance proper.sound))

/-- Taking two tokens that have been seen is careful. -/
lemma advanceTwice {next : Parser α} (reached : S.origin.Reaches cursor)
    (first : cursor.current.IsProper) (second : cursor.view.second.IsProper)
    (rest : Careful S next good) :
    CarefulOn S (do
      let _ ← Parser.advance
      let _ ← Parser.advance
      next) good cursor := by
  have reached' := reached.advance first.sound
  have second' : cursor.advance.current.IsProper := by
    rwa [Cursor.current, Cursor.peek_advance]
  exact advance reached first (advance reached' second' (rest (reached'.advance second'.sound)))

/-- Taking two keywords that have been seen is careful. -/
lemma keywords {word word' : Keyword} {next : Parser α} (reached : S.origin.Reaches cursor)
    (at_ : cursor.view.atKeywords word word' = true) (rest : Careful S next good) :
    CarefulOn S (do
      let _ ← Parser.advance
      let _ ← Parser.advance
      next) good cursor := by
  obtain ⟨first, second⟩ := Bool.and_eq_true_iff.mp at_
  exact advanceTwice reached (.of_isKeyword first) (.of_isKeyword second) rest

/-- Taking a name that has been seen is careful. -/
lemma identifier {next : String → Parser α} (reached : S.origin.Reaches cursor)
    (at_ : cursor.view.atIdentifier = true)
    (rest : CarefulOn S (next (nameOf cursor.current)) good cursor.advance) :
    CarefulOn S (identifier >>= next) good cursor := by
  have taken : CarefulOn S (Parser.advance >>= fun token => next (nameOf token)) good cursor :=
    advance reached (.of_isIdentifierLike at_) rest
  have branch (place : Cursor) (seen : place.view.atIdentifier = true) (dialect : Dialect) :
      (Parser.identifier >>= next).run dialect place =
        (Parser.advance >>= fun token => next (nameOf token)).run dialect place := by
    rw [run_bind]
    unfold Parser.identifier
    rw [run_sees_bind, if_pos seen, ← run_bind]
    rfl
  refine ⟨?_, fun sequel mem dialect value stop run => ?_⟩
  · change ((if cursor.view.atIdentifier = true then _ else _ : Parser String).andThen _).Orderly
      _ _ _
    rw [if_pos at_]
    exact taken.orderly
  · rw [branch _ at_] at run
    rw [branch _ (((Cursor.view_before (reached.ends S.ends) sequel).atIdentifier).trans at_)]
    exact taken.goesOn sequel mem run

/-- A keyword that is not there is not taken. -/
lemma eatKeyword_of_not {word : Keyword} {next : Bool → Parser α}
    (reached : S.origin.Reaches cursor) (not : cursor.view.atKeyword word = false)
    (rest : CarefulOn S (next false) good cursor) :
    CarefulOn S (eatKeyword word >>= next) good cursor := by
  refine ⟨?_, fun sequel mem dialect value stop run => ?_⟩
  · change ((if cursor.view.atKeyword word = true then _ else _ : Parser Bool).andThen _).Orderly
      _ _ _
    rw [not]
    exact rest.orderly
  · have not' := ((Cursor.view_before (reached.ends S.ends) sequel).atKeyword word).trans not
    rw [run_eatKeyword_bind, not] at run
    rw [run_eatKeyword_bind, not']
    exact rest.goesOn sequel mem run

/-! ## Demands -/

/-- A required feature is careful: whether the dialect has it does not depend on the source, and an
error begins where a token begins. -/
lemma require {feature : Feature} {construct : String} {span : Span} {next : Unit → Parser α}
    (begins : S.origin.Begins span) (rest : CarefulOn S (next ()) good cursor) :
    CarefulOn S (require feature construct span >>= next) good cursor := by
  refine ⟨⟨begins, rest.orderly⟩, fun sequel mem dialect value stop run => ?_⟩
  obtain ⟨has, run⟩ := accepted_require run
  rw [run_bind]
  simp only [Parser.require, Parser.run, if_pos has]
  exact rest.goesOn sequel mem run

/-- A demand of a construct that starts with the next token. -/
lemma demand {feature : Feature} {construct : String} {next : Parser α}
    (reached : S.origin.Reaches cursor) (proper : cursor.current.IsProper)
    (rest : CarefulOn S next good cursor) :
    CarefulOn S (do
      Parser.require feature construct (← Parser.here)
      next) good cursor :=
  here (Cursor.ahead_of_proper (reached.ends S.ends) proper) (require reached.begins rest)

/-- A question about the drift extensions is careful at a placeholder, and where nothing is accepted
without them. -/
lemma isDrift {next : Bool → Parser α}
    (asks : cursor.view.dollarName?.isSome ∨ (next false).NeverAt cursor)
    (rest : ∀ drift, CarefulOn S (next drift) good cursor) :
    CarefulOn S (isDrift >>= next) good cursor :=
  ⟨⟨asks, fun drift => (rest drift).orderly⟩, fun sequel mem dialect _ _ run =>
    (rest dialect.isDrift).goesOn sequel mem run⟩

/-! ## Sequences -/

/-- A choice is careful at a place if both of its branches are. -/
lemma ite {condition : Prop} [Decidable condition] {first second : Parser α}
    (yes : CarefulOn S first good cursor) (no : CarefulOn S second good cursor) :
    CarefulOn S (if condition then first else second) good cursor := by
  split
  · exact yes
  · exact no

/-- **A sequence is careful** at a place if its first part is careful there, and the second one
wherever the first one may stop. -/
lemma bind {parser : Parser α} {next : α → Parser β} (first : CarefulOn S parser good cursor)
    (reached : S.origin.Reaches cursor)
    (second : ∀ value, good value → Careful S (next value) later) :
    CarefulOn S (parser >>= next) later cursor := by
  refine ⟨first.orderly.bind reached fun value stop ok place => (second value ok place).orderly,
    fun sequel mem dialect value stop run => ?_⟩
  obtain ⟨part, middle, run₁, -, run₂⟩ := accepted_bind run
  obtain ⟨ok, place⟩ := first.orderly.accepted reached run₁
  rw [run_bind, first.goesOn sequel mem run₁]
  exact (second part ok place).goesOn sequel mem run₂

/-! ## Looking around where a token is needed -/

/-- What is read where the next tokens have been seen. The test of them is steady where a token is
next, and nothing is accepted at the end of input. -/
lemma viewSolid {next : View → Parser α} (solid : Solid (Parser.view >>= next))
    (steady : S.sequel.isSome → ∀ ⦃view longer⦄, view.Nears longer →
      longer.current = view.current → view.current.kind ≠ .endOfInput → next longer = next view)
    (reached : S.origin.Reaches cursor) (rest : CarefulOn S (next cursor.view) good cursor) :
    CarefulOn S (Parser.view >>= next) good cursor := by
  have ends := reached.ends S.ends
  by_cases atEnd : cursor.current.kind = .endOfInput
  · exact .of_never rest.orderly (solid ends (S.ahead_of_end reached atEnd))
  · refine .view (.congr rest fun sequel mem => ?_)
    have some : cursor.ahead ≠ [] := fun empty =>
      atEnd (Cursor.peek_end ends (by simp [empty]))
    exact steady (Option.isSome_of_mem mem) (Cursor.view_before ends sequel)
      (Cursor.current_before sequel some) atEnd

/-- What is read where the next token has been seen, if nothing is accepted at the end of input. -/
lemma currentSolid {next : Token → Parser α} (solid : Solid (Parser.current >>= next))
    (reached : S.origin.Reaches cursor) (rest : CarefulOn S (next cursor.current) good cursor) :
    CarefulOn S (Parser.current >>= next) good cursor := by
  change CarefulOn S (Parser.view >>= fun view => next view.current) good cursor
  exact viewSolid solid (fun _ _ _ _ same _ => by rw [same]) reached rest

/-- Where something starts that needs a token. -/
lemma hereSolid {next : Span → Parser α} (solid : ∀ span, Solid (next span))
    (reached : S.origin.Reaches cursor)
    (rest : CarefulOn S (next cursor.current.span) good cursor) :
    CarefulOn S (Parser.here >>= next) good cursor := by
  by_cases empty : cursor.ahead = []
  · exact .of_never rest.orderly (solid _ (reached.ends S.ends) empty)
  · exact .here empty rest

end CarefulAt

/-! ## Parsers that need a token -/

namespace Solid

variable {parser : Parser α} {next : α → Parser β}

/-- A sequence accepts nothing at the end of input if its first part does not. -/
lemma bind (first : Solid parser) : Solid (parser >>= next) := by
  intro cursor ends empty dialect value stop run
  obtain ⟨part, middle, run, -, -⟩ := accepted_bind run
  exact first ends empty run

/-- At the end of input no parser moves. -/
lemma stays {dialect : Dialect} {cursor stop : Cursor} {value : α} (empty : cursor.ahead = [])
    (run : parser.run dialect cursor = .accepted value stop) : stop = cursor := by
  obtain ⟨count, rfl⟩ := accepted_advances parser run
  have still : cursor.advance = cursor := by
    unfold Cursor.advance
    rw [empty]
  exact Function.iterate_fixed still count

/-- A sequence accepts nothing at the end of input if its second part does not: the first one takes
no token there, so the second one starts at the end as well. -/
lemma skip (second : ∀ value, Solid (next value)) : Solid (parser >>= next) := by
  intro cursor ends empty dialect value stop run
  obtain ⟨part, middle, first, -, later⟩ := accepted_bind run
  obtain rfl := stays empty first
  exact second part ends empty later

/-- A choice accepts nothing at the end of input if neither branch does. -/
lemma ite {condition : Prop} [Decidable condition] {first second : Parser α} (yes : Solid first)
    (no : Solid second) : Solid (if condition then first else second) := by
  split
  · exact yes
  · exact no

/-- Reporting an unexpected token accepts nothing at the end of input. -/
lemma of_unexpected (expected : String) : Solid (unexpected expected : Parser α) :=
  fun _ _ _ _ _ _ => not_accepted_unexpected

/-- Running out of bounds accepts nothing at the end of input. -/
lemma of_exhausted : Solid (exhausted : Parser α) :=
  fun _ _ _ _ _ _ => not_accepted_exhausted

/-- What is read after looking at the next tokens accepts nothing at the end of input, if it does
not where the end is seen. -/
lemma view {next : View → Parser α}
    (rest : ∀ view, view.current.kind = .endOfInput → Solid (next view)) :
    Solid (view >>= next) := fun _ ends empty _ _ _ run =>
  rest _ (Cursor.peek_end ends (by simp [empty])) ends empty run

/-- What is read after looking at the next token accepts nothing at the end of input, if it does not
where the end is seen. -/
lemma current {next : Token → Parser α}
    (rest : ∀ token, token.kind = .endOfInput → Solid (next token)) :
    Solid (current >>= next) := fun _ ends empty _ _ _ run =>
  rest _ (Cursor.peek_end ends (by simp [empty])) ends empty run

/-- What is read after a test, at the end of input. -/
lemma sees {test : View → Bool} {next : Bool → Parser α}
    (rest : ∀ view, view.current.kind = .endOfInput → Solid (next (test view))) :
    Solid (Parser.sees test >>= next) := by
  intro cursor ends empty dialect value stop run
  rw [run_sees_bind] at run
  exact rest _ (Cursor.peek_end ends (by simp [empty])) ends empty run

/-- A parser of what a test finds, which fails at the end of input. -/
lemma ifSees {test : View → Bool} {yes no : Parser α}
    (inside : ∀ view, test view = true → view.current.kind ≠ .endOfInput) (otherwise : Solid no) :
    Solid (Parser.sees test >>= fun seen => if seen = true then yes else no) := by
  intro cursor ends empty dialect value stop run
  rw [run_sees_bind] at run
  split at run
  · next at_ => exact inside _ at_ (Cursor.peek_end ends (by simp [empty]))
  · exact otherwise ends empty run

/-- A parser of what a keyword starts, which fails at the end of input. -/
lemma ifKeyword {word : Keyword} {yes no : Parser α} (otherwise : Solid no) :
    Solid (eatKeyword word >>= fun seen => if seen = true then yes else no) := by
  intro cursor ends empty dialect value stop run
  have kind : cursor.view.current.kind = .endOfInput := Cursor.peek_end ends (by simp [empty])
  rw [run_eatKeyword_bind, View.atKeyword_end kind] at run
  exact otherwise ends empty run

/-- A parser of what a symbol starts, which fails at the end of input. -/
lemma ifSymbol {which : Symbol} {yes no : Parser α} (otherwise : Solid no) :
    Solid (eatSymbol which >>= fun seen => if seen = true then yes else no) := by
  intro cursor ends empty dialect value stop run
  have kind : cursor.view.current.kind = .endOfInput := Cursor.peek_end ends (by simp [empty])
  rw [run_eatSymbol_bind, View.atSymbol_end kind] at run
  exact otherwise ends empty run

/-- A keyword that has to be there is not accepted at the end of input. -/
lemma expectKeyword (word : Keyword) : Solid (expectKeyword word) :=
  ifSees (fun _ => View.Nears.inside_of_atKeyword) (of_unexpected _)

/-- A name is not accepted at the end of input. -/
lemma identifier : Solid identifier :=
  ifSees (fun _ => View.Nears.inside_of_atIdentifier) (of_unexpected _)

/-- A symbol that has to be there is not accepted at the end of input. -/
lemma expectSymbol (which : Symbol) : Solid (expectSymbol which) :=
  ifSees (fun view at_ => by
    intro kind
    simp [View.atSymbol, kind, TokenKind.isSymbol] at at_) (of_unexpected _)

/-- A part between parentheses is not accepted at the end of input, where its opening parenthesis is
missing. -/
lemma parenthesized : Solid (parenthesized parser) :=
  .bind (expectSymbol _)

/-- A list is not accepted at the end of input if its first part is not. -/
lemma commaSeparated (part : Solid parser) (fuel : Nat) : Solid (commaSeparated fuel parser) :=
  .bind part

end Solid

/-! ## Parts that are left out -/

/-- The optional part is left out at the end of input and at a separator. -/
def Idle (parser : Parser (Option α)) : Prop :=
  ∀ ⦃dialect cursor⦄, cursor.view.Stops → parser.run dialect cursor = .accepted none cursor

namespace Idle

/-- A sequence of optional parts is left out where its first part is, if the second one is then left
out too. -/
lemma bind {part : Parser (Option α)} {next : Option α → Parser (Option β)} (first : Idle part)
    (second : Idle (next none)) : Idle (part >>= next) := by
  intro dialect cursor stops
  rw [run_bind, first stops]
  exact second stops

/-- A part that is never there is left out everywhere. -/
lemma of_none : Idle (pure none : Parser (Option α)) :=
  fun _ _ _ => rfl

/-- A part after a test that fails at the end of input and at a separator. -/
lemma ifSees {test : View → Bool} {yes no : Parser (Option α)}
    (fails : ∀ view : View, view.Stops → test view = false) (otherwise : Idle no) :
    Idle (sees test >>= fun seen => if seen = true then yes else no) := by
  intro dialect cursor stops
  rw [run_sees_bind, fails _ stops]
  exact otherwise stops

/-- A part after a keyword. -/
lemma eatKeyword {word : Keyword} {yes no : Parser (Option α)} (otherwise : Idle no) :
    Idle (eatKeyword word >>= fun seen => if seen = true then yes else no) := by
  intro dialect cursor stops
  rw [run_eatKeyword_bind, stops.atKeyword]
  exact otherwise stops

/-- A part after a comma. -/
lemma eatComma {yes no : Parser (Option α)} (otherwise : Idle no) :
    Idle (eatSymbol .comma >>= fun seen => if seen = true then yes else no) := by
  intro dialect cursor stops
  rw [run_eatSymbol_bind, stops.atComma]
  exact otherwise stops

/-- A part that is read where a test passes is left out at the end of input and at separators, if
the test fails there. -/
lemma whenever {test : View → Bool} {part : Parser α}
    (fails : ∀ view : View, view.Stops → test view = false) :
    Idle (whenever test part) :=
  ifSees fails of_none

end Idle

/-- What follows a list that is empty at the end of input. -/
lemma Solid.afterMany {step : Parser (Option α)} {next : List α → Parser β} {fuel : Nat}
    (idle : Idle step) (empty : Solid (next [])) : Solid (many fuel step >>= next) := by
  intro cursor ends nil dialect value stop run
  obtain ⟨parts, middle, first, -, run⟩ := accepted_bind run
  rw [Solid.stays nil first] at run
  obtain ⟨found, place, loop, -, last⟩ := accepted_bind first
  obtain ⟨rfl, -⟩ := accepted_pure last
  obtain ⟨place, loops, -⟩ := accepted_iterate loop
  have nothing : step.run dialect cursor = .accepted none cursor :=
    idle (.inl (Cursor.peek_end ends (by simp [nil])))
  cases loops with
  | refl => exact empty ends nil run
  | step first others =>
    rw [run_bind, nothing] at first
    exact absurd (accepted_pure first).1 (by simp)

/-! ## Careful parsers -/

/-- The test comes out in the same way whether the input ends or a separator follows. -/
def Steady (S : Surroundings) (test : View → Bool) : Prop :=
  S.sequel.isSome → ∀ ⦃view longer⦄, view.Nears longer → test longer = test view

namespace Steady

variable {test other : View → Bool}

/-- Where nothing follows the source, there is no other place to compare with. -/
lemma of_alone (alone : S.sequel = none) (test : View → Bool) : Steady S test :=
  fun some => by simp [alone] at some

/-- The opposite of a steady test is steady. -/
lemma not (steady : Steady S test) : Steady S fun view => !test view :=
  fun some _ _ near => congrArg Bool.not (steady some near)

/-- Two steady tests together are steady. -/
lemma and (steady : Steady S test) (steady' : Steady S other) :
    Steady S fun view => test view && other view :=
  fun some _ _ near => congrArg₂ Bool.and (steady some near) (steady' some near)

/-- One of two steady tests is steady. -/
lemma or (steady : Steady S test) (steady' : Steady S other) :
    Steady S fun view => test view || other view :=
  fun some _ _ near => congrArg₂ Bool.or (steady some near) (steady' some near)

/-- Looking for a keyword is steady. -/
lemma atKeyword (word : Keyword) : Steady S (·.atKeyword word) :=
  fun _ _ _ near => near.atKeyword word

/-- Looking for one of some keywords is steady. -/
lemma atAnyKeyword (words : List Keyword) : Steady S (·.atAnyKeyword words) :=
  fun _ _ _ near => near.atAnyKeyword words

/-- Looking for two keywords is steady. -/
lemma atKeywords (first second : Keyword) : Steady S (·.atKeywords first second) :=
  fun _ _ _ near => near.atKeywords first second

/-- Whether a separator is next is asked only where nothing follows the source. -/
lemma atSymbol {which : Symbol}
    (other : (TokenKind.symbol which).IsSeparator → S.sequel = none) :
    Steady S (·.atSymbol which) := by
  intro some _ _ near
  refine near.atSymbol which fun eq => ?_
  rw [other eq] at some
  exact Bool.false_ne_true some

/-- Looking for a name is steady. -/
lemma atIdentifier : Steady S (·.atIdentifier) :=
  fun _ _ _ near => near.atIdentifier

/-- Looking for a query is steady. -/
lemma atQuery : Steady S (·.atQuery) :=
  fun _ _ _ near => near.atQuery

end Steady

namespace Careful

variable {parser : Parser α} {next : α → Parser β}

/-- What is careful with values of one kind everywhere is so with values of any wider kind. -/
lemma mono {weaker : α → Prop} (careful : Careful S parser good)
    (weakens : ∀ value, good value → weaker value) : Careful S parser weaker :=
  fun _ reached => (careful reached).mono weakens

/-- A sequence is careful if its first part is, and the second one for every good value of the
first. -/
lemma bind (first : Careful S parser good)
    (second : ∀ value, good value → Careful S (next value) later) :
    Careful S (parser >>= next) later :=
  fun _ reached => (first reached).bind reached second

/-- A part of which nothing more is known. -/
lemma skip (first : Careful S parser good) (second : ∀ value, Careful S (next value) later) :
    Careful S (parser >>= next) later :=
  first.bind fun value _ => second value

/-- A part of which nothing needs to be known. -/
lemma forget (careful : Careful S parser good) : Careful S parser fun _ => True :=
  careful.mono fun _ _ => trivial

/-- Returning a good value is careful. -/
lemma of_pure {value : α} (holds : good value) : Careful S (pure value) good := by
  refine fun cursor _ => ⟨holds, fun sequel _ dialect other stop run => ?_⟩
  obtain ⟨rfl, rfl⟩ := accepted_pure run
  rfl

/-- Reporting an unexpected token is careful. -/
lemma of_unexpected (expected : String) : Careful S (unexpected expected : Parser α) good :=
  fun _ _ => .of_unexpected expected

/-- Reporting an invalid construct is careful if its span begins where a token begins. -/
lemma of_invalid {span : Span} (reason : String) (begins : S.origin.Begins span) :
    Careful S (invalid reason span : Parser α) good :=
  fun _ _ => .of_never begins fun _ _ _ => not_accepted_invalid

/-- Running out of bounds is careful: the error begins at the next token. -/
lemma of_exhausted : Careful S (exhausted : Parser α) good :=
  fun _ reached => .of_never reached.begins fun _ _ _ => not_accepted_exhausted

/-- A choice is careful if both of its branches are. -/
lemma ite {condition : Prop} [Decidable condition] {first second : Parser α}
    (yes : Careful S first good) (no : Careful S second good) :
    Careful S (if condition then first else second) good := by
  split
  · exact yes
  · exact no

/-! ### Places and texts -/

/-- Where something starts that needs a token. -/
lemma here {next : Span → Parser α} (solid : ∀ span, Solid (next span))
    (rest : ∀ span, S.origin.Begins span → Careful S (next span) good) :
    Careful S (here >>= next) good := fun _ reached =>
  .hereSolid solid reached (rest _ reached.begins reached)

/-- Where something starts that is the whole source. -/
lemma hereAlone {next : Span → Parser α} (alone : S.sequel = none)
    (rest : ∀ span, S.origin.Begins span → Careful S (next span) good) :
    Careful S (Parser.here >>= next) good := fun _ reached =>
  ⟨(rest _ reached.begins reached).orderly, fun sequel mem => by simp [alone] at mem⟩

/-- Where something starts that is left out at the end of input and at a separator. -/
lemma hereIdle {next : Span → Parser (Option α)} {good : Option α → Prop}
    (idle : ∀ span, Idle (next span))
    (rest : ∀ span, S.origin.Begins span → Careful S (next span) good) :
    Careful S (Parser.here >>= next) good := by
  intro cursor reached
  have ends := reached.ends S.ends
  have inside := rest _ reached.begins reached
  by_cases empty : cursor.ahead = []
  · refine ⟨inside.orderly, fun sequel mem dialect value stop run => ?_⟩
    have atEnd : cursor.current.kind = .endOfInput := Cursor.peek_end ends (by simp [empty])
    rw [run_here_bind, idle _ (.inl atEnd)] at run
    obtain ⟨rfl, rfl⟩ : none = value ∧ cursor = stop := by simpa using run
    refine idle _ (.inr ?_)
    have separator : (cursor.before sequel).peek cursor.ahead.length = sequel.separator :=
      Cursor.peek_before_end sequel
    rw [empty] at separator
    rw [show (cursor.before sequel).view.current = sequel.separator from separator]
    exact sequel.isSeparator
  · exact .here empty inside

/-- Asking for the span since a start is careful, as the token behind the cursor is the same in a
longer source. -/
lemma spanFrom (start : Span) : Careful S (spanFrom start) fun _ => True := by
  refine fun cursor _ => ⟨trivial, fun sequel _ dialect value stop run => ?_⟩
  simp only [Parser.spanFrom, Parser.run, Outcome.accepted.injEq] at run ⊢
  obtain ⟨rfl, rfl⟩ := run
  exact ⟨rfl, rfl⟩

/-- A span begins where its start does. -/
lemma spanFrom_begins {start : Span} (begins : S.origin.Begins start) :
    Careful S (Parser.spanFrom start) S.origin.Begins :=
  fun cursor reached => ⟨begins.spanFrom cursor, (spanFrom start reached).goesOn⟩

/-- A value at the end of a sequence, with the span of what was read. -/
lemma returns {start : Span} {make : Span → α} :
    Careful S (do return make (← Parser.spanFrom start)) fun _ => True :=
  (spanFrom start).skip fun _ => of_pure trivial

/-- A required feature is careful if the span of the error begins where a token begins. -/
lemma require {feature : Feature} {construct : String} {span : Span}
    (begins : S.origin.Begins span) :
    Careful S (require feature construct span) fun _ => True := by
  refine fun cursor _ => ⟨⟨begins, trivial⟩, fun sequel _ dialect value stop run => ?_⟩
  simp only [Parser.require, Parser.run] at run ⊢
  split at run
  · next has =>
    rw [if_pos has]
    obtain rfl : cursor = stop := by simpa using run
    rfl
  · simp at run

/-! ### Tests -/

/-- What is read after a test. -/
lemma sees {test : View → Bool} {next : Bool → Parser α} (steady : Steady S test)
    (rest : ∀ ⦃cursor⦄, S.origin.Reaches cursor →
      CarefulOn S (next (test cursor.view)) good cursor) :
    Careful S (sees test >>= next) good := by
  intro cursor reached
  refine ⟨(rest reached).orderly, fun sequel mem dialect value stop run => ?_⟩
  rw [run_sees_bind, steady (Option.isSome_of_mem mem)
    (Cursor.view_before (reached.ends S.ends) sequel)]
  exact (rest reached).goesOn sequel mem run

/-- What is read where a test passes, and what is read where it fails. -/
lemma ifSees {test : View → Bool} {yes no : Parser α} (steady : Steady S test)
    (passes : ∀ ⦃cursor⦄, S.origin.Reaches cursor → test cursor.view = true →
      CarefulOn S yes good cursor) (fails : Careful S no good) :
    Careful S (Parser.sees test >>= fun seen => if seen = true then yes else no) good := by
  refine sees steady fun cursor reached => ?_
  split
  · next at_ => exact passes reached at_
  · exact fails reached

/-- What is read where the next tokens have been seen, if it is the same for the end of input and
for a separator. -/
lemma look {next : View → Parser α}
    (steady : S.sequel.isSome → ∀ ⦃view longer⦄, view.Nears longer →
      (view.current.kind ≠ .endOfInput → longer.current = view.current) → next longer = next view)
    (rest : ∀ ⦃cursor⦄, S.origin.Reaches cursor → CarefulOn S (next cursor.view) good cursor) :
    Careful S (Parser.view >>= next) good := by
  intro cursor reached
  have ends := reached.ends S.ends
  refine .view (.congr (rest reached) fun sequel mem => ?_)
  refine steady (Option.isSome_of_mem mem) (Cursor.view_before ends sequel) fun inside => ?_
  exact Cursor.current_before sequel fun empty => inside (Cursor.peek_end ends (by simp [empty]))

/-- What is read where the next tokens have been seen, if nothing follows the source. -/
lemma lookAlone {next : View → Parser α} (alone : S.sequel = none)
    (rest : ∀ ⦃cursor⦄, S.origin.Reaches cursor → CarefulOn S (next cursor.view) good cursor) :
    Careful S (Parser.view >>= next) good :=
  look (fun some => by simp [alone] at some) rest

/-- What is read where the next token has been seen, if nothing else than at the end of input is
read at a separator. -/
lemma lookCurrent {next : Token → Parser α} (otherwise : Parser α)
    (stops : ∀ token : Token, token.kind = .endOfInput ∨ token.kind.IsSeparator →
      next token = otherwise)
    (rest : ∀ ⦃cursor⦄, S.origin.Reaches cursor → CarefulOn S (next cursor.current) good cursor) :
    Careful S (Parser.current >>= next) good := by
  change Careful S (Parser.view >>= fun view => next view.current) good
  refine look (fun _ view longer near inside => ?_) rest
  by_cases atEnd : view.current.kind = .endOfInput
  · rw [stops _ (.inl atEnd), stops _ (near.first.imp (·.trans atEnd) (·.2))]
  · exact congrArg next (inside atEnd)

/-- What is read where the next tokens have been seen. The test of them is steady where a token is
next, and nothing is accepted at the end of input. -/
lemma view {next : View → Parser α} (solid : Solid (view >>= next))
    (steady : S.sequel.isSome → ∀ ⦃view longer⦄, view.Nears longer →
      longer.current = view.current → view.current.kind ≠ .endOfInput → next longer = next view)
    (rest : ∀ ⦃cursor⦄, S.origin.Reaches cursor → CarefulOn S (next cursor.view) good cursor) :
    Careful S (Parser.view >>= next) good := fun _ reached =>
  .viewSolid solid steady reached (rest reached)

/-- What is read where the next token has been seen, if nothing is accepted at the end of input. -/
lemma current {next : Token → Parser α} (solid : Solid (Parser.current >>= next))
    (rest : ∀ ⦃cursor⦄, S.origin.Reaches cursor → CarefulOn S (next cursor.current) good cursor) :
    Careful S (Parser.current >>= next) good := fun _ reached =>
  .currentSolid solid reached (rest reached)

/-- What is read after a test of the next token, if nothing is accepted at the end of input. -/
lemma seesSolid {test : View → Bool} {next : Bool → Parser α}
    (solid : Solid (Parser.sees test >>= next))
    (steady : ∀ ⦃view longer : View⦄, longer.current = view.current → test longer = test view)
    (rest : ∀ ⦃cursor⦄, S.origin.Reaches cursor →
      CarefulOn S (next (test cursor.view)) good cursor) :
    Careful S (Parser.sees test >>= next) good :=
  view solid
    (fun _ _ _ _ same _ => by rw [steady same]) rest

/-- Taking a keyword if it is there is careful, as looking for it is steady. -/
lemma eatKeyword (word : Keyword) : Careful S (eatKeyword word) fun _ => True := by
  refine ifSees (.atKeyword word) (fun cursor reached at_ => ?_) (.of_pure trivial)
  exact .take reached (.of_isKeyword at_) fun _ _ => .of_pure trivial

/-- Taking a symbol if it is there is careful, unless the symbol may be the separator that follows
the source. -/
lemma eatSymbol {which : Symbol}
    (other : (TokenKind.symbol which).IsSeparator → S.sequel = none) :
    Careful S (eatSymbol which) fun _ => True := by
  refine ifSees (.atSymbol other) (fun cursor reached at_ => ?_) (.of_pure trivial)
  exact .take reached (.of_isSymbol at_) fun _ _ => .of_pure trivial

/-- A keyword that has to be there is careful, and its span begins where a token begins. -/
lemma expectKeyword (word : Keyword) : Careful S (expectKeyword word) S.origin.Begins := by
  refine ifSees (.atKeyword word) (fun cursor reached at_ => ?_) (.of_unexpected _)
  exact .take reached (.of_isKeyword at_) fun _ begins => .of_pure begins

/-- Several keywords that have to be there are careful. Induction on the list of keywords. -/
lemma expectKeywords (words : List Keyword) :
    Careful S (expectKeywords words) fun _ => True := by
  induction words with
  | nil => exact .of_pure trivial
  | cons word words ih => exact .skip (expectKeyword word) fun _ => ih

/-- Reading a name is careful. -/
lemma identifier : Careful S identifier fun _ => True := by
  refine ifSees .atIdentifier (fun cursor reached at_ => ?_) (.of_unexpected _)
  exact .take reached (.of_isIdentifierLike at_) fun _ _ => .of_pure trivial

/-- A symbol that has to be there. It is not there at the end of input. -/
lemma expectSymbol (which : Symbol) : Careful S (expectSymbol which) S.origin.Begins := by
  intro cursor reached
  have ends := reached.ends S.ends
  have taken (at_ : cursor.view.atSymbol which = true) :
      CarefulOn S (do return (← Parser.advance).span) S.origin.Begins cursor :=
    .take reached (.of_isSymbol at_) fun _ begins => .of_pure begins
  have orderly : (Parser.expectSymbol which).Orderly S.origin cursor S.origin.Begins := by
    change (if cursor.view.atSymbol which = true then _ else _ : Parser Span).Orderly _ _ _
    split
    · next at_ => exact (taken at_).orderly
    · exact rfl
  refine ⟨orderly, fun sequel mem dialect value stop run => ?_⟩
  rw [← run_bind_pure] at run
  obtain ⟨at_, -, run⟩ := accepted_expectSymbol run
  obtain ⟨rfl, rfl⟩ := accepted_pure run
  have some := Cursor.ahead_of_proper ends (.of_isSymbol at_)
  have same := Cursor.current_before sequel some
  rw [← run_bind_pure, run_expectSymbol_bind (by
    change (cursor.before sequel).current.isSymbol which = true
    rw [same]
    exact at_), same, Cursor.advance_before sequel some]
  rfl

/-! ### Optional parts -/

/-- A part after a keyword is careful if the part is. -/
lemma afterKeyword {word : Keyword} (part : Careful S parser good) :
    Careful S (afterKeyword word parser) fun _ => True := by
  refine .skip (eatKeyword word) fun taken => .ite ?_ (.of_pure trivial)
  exact part.skip fun _ => .of_pure trivial

/-- A part that is read where a steady test passes is careful if the part is, and what has been read
is good. -/
lemma whenever {test : View → Bool} (steady : Steady S test) (part : Careful S parser good) :
    Careful S (whenever test parser) fun value => ∀ part ∈ value, good part := by
  refine ifSees steady (fun cursor reached _ => ?_) (.of_pure (by simp))
  refine (part reached).bind reached fun value holds => .of_pure ?_
  simpa using holds

/-- A part that is careful where a test passes. -/
lemma whenSeen {test : View → Bool} (steady : Steady S test)
    (part : ∀ ⦃cursor⦄, S.origin.Reaches cursor → test cursor.view = true →
      CarefulOn S parser (fun _ => True) cursor) :
    Careful S (Parser.whenever test parser) fun _ => True := by
  refine ifSees steady (fun cursor reached at_ => ?_) (.of_pure trivial)
  exact (part reached at_).bind reached fun _ _ => .of_pure trivial

/-- A part between parentheses is careful if the part is. The closing parenthesis may be asked for
although it is a separator, since it has to be there: at the end of input nothing is accepted. -/
lemma parenthesized (part : Careful S parser good) : Careful S (parenthesized parser) good := by
  refine .skip (expectSymbol _) fun _ => ?_
  refine part.bind fun value holds => ?_
  refine .skip (expectSymbol _) fun _ => ?_
  exact .of_pure holds

/-! ### Repeated parts -/

/-- Loops of careful steps are careful. -/
lemma iterate {σ : Type} {step : σ → Parser (Option σ)}
    (each : ∀ state, Careful S (step state) fun _ => True) (fuel : Nat) (state : σ) :
    Careful S (iterate step fuel state) fun _ => True := by
  induction fuel generalizing state with
  | zero => exact of_exhausted
  | succ fuel ih =>
    refine (each state).skip fun next => ?_
    cases next with
    | none => exact .of_pure trivial
    | some state => exact ih state

/-- A list of careful parts is careful. -/
lemma many {step : Parser (Option α)} {good : Option α → Prop} (each : Careful S step good)
    (fuel : Nat) : Careful S (many fuel step) fun _ => True :=
  .skip (iterate (fun _ => each.skip fun _ => .of_pure trivial) fuel []) fun _ => .of_pure trivial

/-- A list of careful parts with commas between them is careful. -/
lemma commaSeparated (part : Careful S parser good) (fuel : Nat) :
    Careful S (commaSeparated fuel parser) fun _ => True := by
  have further : Careful S (do
      if ← Parser.eatSymbol .comma then return some (← parser) else return none) fun _ => True := by
    refine .skip (eatSymbol (by simp)) fun isComma => .ite ?_ (.of_pure trivial)
    exact part.skip fun _ => .of_pure trivial
  refine part.skip fun _ => ?_
  refine .skip (many further fuel) fun rest => ?_
  exact .of_pure trivial

end Careful

end Parser

end SqlTree
