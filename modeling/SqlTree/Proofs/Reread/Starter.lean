import SqlTree.Proofs.Words
import SqlTree.Grammar.Precedence

set_option autoImplicit false

/-!
# Tokens that go on

A parser that may end at a place has looked at the next two tokens and found that nothing there goes
on with what it reads. A starter is such a test. All of them fail at the end of input, and none of
them fails because of a second token that is no longer there when the source is cut off in between.

## Main definitions

* `SqlTree.Starter` — the tests by which parsers decide whether to go on.
* `SqlTree.Starter.Carries` — if the test passes at one place then it does so at another.

## Main results

* `SqlTree.Starter.carries_cut`, `SqlTree.Starter.carries_end` — cutting off a source lets no test
  pass that failed.
-/

namespace SqlTree

open Grammar

namespace TokenKind

/-- The kind is this keyword. -/
def isKeyword (kind : TokenKind) (word : Keyword) : Bool :=
  match kind with
  | .keyword found => found == word
  | _ => false

/-- The kind is this symbol. -/
def isSymbol (kind : TokenKind) (which : Symbol) : Bool :=
  match kind with
  | .symbol found => found == which
  | _ => false

/-- A keyword is that keyword and no other. -/
@[simp] lemma isKeyword_keyword (found word : Keyword) :
    (TokenKind.keyword found).isKeyword word = (found == word) := rfl

/-- A symbol is that symbol and no other. -/
@[simp] lemma isSymbol_symbol (found which : Symbol) :
    (TokenKind.symbol found).isSymbol which = (found == which) := rfl

/-- A kind is a keyword exactly if it is the kind of that keyword. -/
lemma isKeyword_iff {kind : TokenKind} {word : Keyword} :
    kind.isKeyword word = true ↔ kind = .keyword word := by
  cases kind <;> simp [isKeyword]

/-- A kind is a symbol exactly if it is the kind of that symbol. -/
lemma isSymbol_iff {kind : TokenKind} {which : Symbol} :
    kind.isSymbol which = true ↔ kind = .symbol which := by
  cases kind <;> simp [isSymbol]

/-- The kind is an identifier that is no keyword. -/
def isBare : TokenKind → Bool
  | .identifier _ => true
  | _ => false

end TokenKind

/-- A token is a keyword exactly if its kind is. -/
@[simp] lemma Token.isKeyword_eq (token : Token) (word : Keyword) :
    token.isKeyword word = token.kind.isKeyword word := by
  unfold Token.isKeyword Token.keyword? TokenKind.isKeyword
  cases token.kind <;> rfl

/-- A token is a symbol exactly if its kind is. -/
@[simp] lemma Token.isSymbol_eq (token : Token) (which : Symbol) :
    token.isSymbol which = token.kind.isSymbol which := rfl

/-- An operator of at least this power stands after an operand, if these are the next two kinds. -/
def operatorAt (least : Nat) (first second : TokenKind) : Bool :=
  match infixPower first with
  | some power =>
    least ≤ power && (!first.isKeyword .NOT ||
      [Keyword.IN, .LIKE, .GLOB, .MATCH, .REGEXP, .BETWEEN, .NULL].any second.isKeyword)
  | none => false

/-- A token other than `NOT` is an operator exactly if its power is large enough. -/
lemma operatorAt_of_power {least power : Nat} {first : TokenKind} (second : TokenKind)
    (eq : infixPower first = some power) (plain : first.isKeyword .NOT = false) :
    operatorAt least first second = decide (least ≤ power) := by
  simp [operatorAt, eq, plain]

/-- A test of the next two tokens by which a parser decides whether to go on. -/
inductive Starter where
  /-- The first token is this keyword. -/
  | keyword (word : Keyword)
  /-- The two tokens are these keywords. -/
  | keywords (first second : Keyword)
  /-- The first token is this symbol. -/
  | symbol (which : Symbol)
  /-- The first token is a name that is no keyword. -/
  | name
  /-- The first token is the name of another window. -/
  | base
  /-- The tokens start the filter of a function call. -/
  | filter
  /-- The tokens start the window of a function call. -/
  | overClause
  /-- The first token is an operator, even if it does not go on with the operand. -/
  | power
  /-- An operator of some power goes on with an operand. -/
  | operator
deriving DecidableEq

namespace Starter

/-- The test of the first token alone. -/
def first : Starter → TokenKind → Bool
  | .keyword word, kind => kind.isKeyword word
  | .keywords word _, kind => kind.isKeyword word
  | .symbol which, kind => kind.isSymbol which
  | .name, kind => kind.isBare
  | .base, kind => kind.isIdentifierLike &&
      !([Keyword.PARTITION, .ORDER, .ROWS, .RANGE, .GROUPS].any kind.isKeyword)
  | .filter, kind => kind.isKeyword .FILTER
  | .overClause, kind => kind.isKeyword .OVER
  | .power, kind => (infixPower kind).isSome
  | .operator, kind => (infixPower kind).isSome

/-- The test of the second token, after the first one has passed; that of operators is made for
every power on its own. -/
def second : Starter → TokenKind → Bool
  | .keywords _ word, kind => kind.isKeyword word
  | .filter, kind => kind.isSymbol .leftParen
  | .overClause, kind => kind.isSymbol .leftParen || kind.isIdentifierLike
  | _, _ => true

/-- The test passes. -/
def passes (starter : Starter) (first second : TokenKind) : Bool :=
  starter.first first && starter.second second

/-- If the test passes at the place of the first two kinds then it passes at the other place. An
operator has to be one of every power that it has at the first place. -/
def Carries (starter : Starter) (first second first' second' : TokenKind) : Prop :=
  match starter with
  | .operator => ∀ least, operatorAt least first second → operatorAt least first' second'
  | starter => starter.passes first second → starter.passes first' second'

/-- A starter is carried to the same kinds. -/
lemma carries_refl (starter : Starter) (first second : TokenKind) :
    starter.Carries first second first second := by
  cases starter <;> simp [Carries]

/-- An operator has a power. -/
lemma first_of_operatorAt {least : Nat} {first second : TokenKind}
    (at_ : operatorAt least first second = true) : (infixPower first).isSome = true := by
  unfold operatorAt at at_
  split at at_
  · next eq => simp [eq]
  · exact absurd at_ Bool.false_ne_true

/-- A starter whose first token is not there is carried anywhere. -/
lemma carries_of_first {starter : Starter} {first second first' second' : TokenKind}
    (fails : starter.first first = false) : starter.Carries first second first' second' := by
  cases starter with
  | operator =>
    intro least at_
    have := first_of_operatorAt at_
    simp_all [Starter.first]
  | _ => simp_all [Carries, passes]

/-- At the end of the input every starter is carried. -/
lemma carries_end (starter : Starter) (second first' second' : TokenKind) :
    starter.Carries .endOfInput second first' second' :=
  carries_of_first (by cases starter <;> rfl)

/-- A starter whose test of the second token passes even at the end of the input is carried to
whatever stands after its first token. -/
lemma carries_of_second {starter : Starter} {first second second' : TokenKind}
    (simple : starter ≠ .operator) (single : starter.second .endOfInput = true) :
    starter.Carries first second first second' := by
  have any : starter.second second' = true := by
    cases starter with
    | keywords | filter | overClause => cases single
    | _ => rfl
  have carried : starter.passes first second = true → starter.passes first second' = true := by
    unfold passes
    rw [any, Bool.and_true, Bool.and_eq_true]
    exact And.left
  cases starter with
  | operator => exact absurd rfl simple
  | _ => exact carried

/-- A starter is carried where the input ends after its first token. -/
lemma carries_cut (starter : Starter) (first second' : TokenKind) :
    starter.Carries first .endOfInput first second' := by
  cases starter with
  | operator =>
    intro least at_
    unfold operatorAt at at_ ⊢
    split at at_
    · have : ([Keyword.IN, .LIKE, .GLOB, .MATCH, .REGEXP, .BETWEEN, .NULL].any
          TokenKind.endOfInput.isKeyword) = false := by decide
      rw [this, Bool.or_false] at at_
      simp_all
    · exact absurd at_ Bool.false_ne_true
  | _ => simp [Carries, passes, Starter.second, TokenKind.isKeyword, TokenKind.isSymbol,
      TokenKind.isIdentifierLike]

end Starter

end SqlTree
