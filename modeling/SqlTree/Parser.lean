import SqlTree.Cursor
import SqlTree.Dialect

set_option autoImplicit false

/-!
# Parsers

A parser is a decision tree. At each node it may look at the token behind and at the next three,
take the next token, ask for a feature of the dialect, or read back the source text of what it has
taken. So a parser cannot see further ahead than two tokens beyond the next one, cannot move back,
and can use the dialect in two ways only: to demand a feature, and to ask whether the drift
extensions are read. What holds of every node holds of every parser.

## Main definitions

* `SqlTree.Parser` — the decision trees, with their monad.
* `SqlTree.Parser.run` — running a parser at a place in the tokens.
* `SqlTree.Parser.iterate` — repeating a step; `Parser.many`, `Parser.commaSeparated` — lists.
-/

namespace SqlTree

/-- What a parser sees without moving. -/
structure View where
  /-- The token behind. -/
  previous : Token
  /-- The next token. -/
  current : Token
  /-- The token after the next one. -/
  second : Token
  /-- The token after those two. -/
  third : Token

/-- What a parser sees at a place. -/
def Cursor.view (cursor : Cursor) : View :=
  ⟨cursor.previous, cursor.peek 0, cursor.peek 1, cursor.peek 2⟩

/-- A parser of values of type `α`. -/
inductive Parser (α : Type) : Type where
  /-- Ends with a value. -/
  | done (value : α)
  /-- Ends with an error. -/
  | reject (error : ParseError)
  /-- Looks at the tokens around. -/
  | look (next : View → Parser α)
  /-- Takes the next token. -/
  | take (next : Token → Parser α)
  /-- Goes on only if the dialect has the feature that the construct needs. -/
  | demand (feature : Feature) (construct : String) (span : Span) (next : Unit → Parser α)
  /-- Asks whether the drift extensions are read. -/
  | ask (next : Bool → Parser α)
  /-- Reads the source text from a byte offset up to the token behind. -/
  | read (start : Nat) (next : String → Parser α)

/-- How a run of a parser ends, and where. -/
inductive Outcome (α : Type) where
  | accepted (value : α) (cursor : Cursor)
  | rejected (error : ParseError) (cursor : Cursor)
deriving DecidableEq

namespace Parser

variable {α β : Type}

/-- Goes on with the value of a parser. -/
def andThen : Parser α → (α → Parser β) → Parser β
  | .done value, f => f value
  | .reject error, _ => .reject error
  | .look next, f => .look fun view => (next view).andThen f
  | .take next, f => .take fun token => (next token).andThen f
  | .demand feature construct span next, f =>
    .demand feature construct span fun u => (next u).andThen f
  | .ask next, f => .ask fun drift => (next drift).andThen f
  | .read start next, f => .read start fun text => (next text).andThen f

instance : Monad Parser where
  pure := .done
  bind := andThen

/-- Runs a parser at a place. Taking a malformed token is an error of its own, so no token that was
taken is malformed. -/
def run (dialect : Dialect) : Parser α → Cursor → Outcome α
  | .done value, cursor => .accepted value cursor
  | .reject error, cursor => .rejected error cursor
  | .look next, cursor => (next cursor.view).run dialect cursor
  | .take next, cursor =>
    match cursor.current.kind with
    | .malformed _ => .rejected (cursor.errorAt "token") cursor
    | _ => (next cursor.current).run dialect cursor.advance
  | .demand feature construct span next, cursor =>
    if dialect.supports feature then
      (next ()).run dialect cursor
    else
      .rejected (.unsupported construct dialect.name span) cursor
  | .ask next, cursor => (next dialect.isDrift).run dialect cursor
  | .read start next, cursor => (next (cursor.textFrom start)).run dialect cursor

/-! ## Single steps -/

/-- What is around. -/
def view : Parser View :=
  .look .done

/-- The next token. -/
def current : Parser Token :=
  .look fun view => .done view.current

/-- Where the next token is. -/
def here : Parser Span :=
  .look fun view => .done view.current.span

/-- Whether what is around passes a test. -/
def sees (test : View → Bool) : Parser Bool :=
  .look fun view => .done (test view)

/-- Takes the next token. -/
def advance : Parser Token :=
  .take .done

/-- Asks whether the drift extensions are read. -/
def isDrift : Parser Bool :=
  .ask .done

/-- Fails unless the dialect has the feature that the construct needs. -/
def require (feature : Feature) (construct : String) (span : Span) : Parser Unit :=
  .demand feature construct span .done

/-- Fails because the next token is not what is expected. -/
def unexpected (expected : String) : Parser α :=
  .look fun view => .reject (.unexpected expected view.current)

/-- Fails because a construct has a shape that is not allowed. -/
def invalid (reason : String) (span : Span) : Parser α :=
  .reject (.invalid reason span)

/-- Fails because a bound on the number of steps was reached. -/
def exhausted : Parser α :=
  .look fun view => .reject (.exhausted view.current.span)

/-- The span from the start of an earlier span up to the token behind. -/
def spanFrom (start : Span) : Parser Span :=
  .look fun view =>
    .done ⟨start.start, Cursor.stopAfter view.previous start.start, start.line, start.column⟩

/-- The source text from a byte offset up to the token behind. -/
def textFrom (start : Nat) : Parser String :=
  .read start .done

/-! ## Tests of what is around -/

end Parser

namespace View

/-- The next token is this keyword. -/
def atKeyword (view : View) (word : Keyword) : Bool :=
  view.current.isKeyword word

/-- The next token is one of these keywords. -/
def atAnyKeyword (view : View) (words : List Keyword) : Bool :=
  words.any view.atKeyword

/-- The next two tokens are these keywords. -/
def atKeywords (view : View) (first second : Keyword) : Bool :=
  view.current.isKeyword first && view.second.isKeyword second

/-- The next token is this symbol. -/
def atSymbol (view : View) (symbol : Symbol) : Bool :=
  view.current.isSymbol symbol

/-- The next token can be a name. -/
def atIdentifier (view : View) : Bool :=
  view.current.kind.isIdentifierLike

/-- The next token starts a query. -/
def atQuery (view : View) : Bool :=
  view.atAnyKeyword [.SELECT, .WITH, .VALUES]

/-- The name of the Dart placeholder that the next token is, if it is one. -/
def dollarName? (view : View) : Option String :=
  match view.current.kind with
  | .variable (.named .dollar name) => some name
  | _ => none

end View

namespace Parser

variable {α β : Type}

/-! ## Keywords, symbols and names -/

/-- Takes the next token if it is this keyword, and tells whether it was. -/
def eatKeyword (word : Keyword) : Parser Bool := do
  if ← sees (·.atKeyword word) then
    let _ ← advance
    return true
  else
    return false

/-- Takes the next token if it is this symbol, and tells whether it was. -/
def eatSymbol (symbol : Symbol) : Parser Bool := do
  if ← sees (·.atSymbol symbol) then
    let _ ← advance
    return true
  else
    return false

/-- Takes this keyword, or fails. -/
def expectKeyword (word : Keyword) : Parser Span := do
  if ← sees (·.atKeyword word) then
    return (← advance).span
  else
    unexpected word.text

/-- Takes this symbol, or fails. -/
def expectSymbol (symbol : Symbol) : Parser Span := do
  if ← sees (·.atSymbol symbol) then
    return (← advance).span
  else
    unexpected ("'" ++ symbol.text ++ "'")

/-- Takes these keywords one after the other, or fails. -/
def expectKeywords : List Keyword → Parser Unit
  | [] => return ()
  | word :: words => do
    let _ ← expectKeyword word
    expectKeywords words

/-- Fails unless the end of input is next. -/
def expectEnd (expected : String) : Parser Unit := do
  if ← sees (·.current.isEnd) then return () else unexpected expected

/-- The name that a token stands for, where a keyword may be a name. -/
def nameOf (token : Token) : String :=
  match token.kind with
  | .identifier name => name
  | _ => token.lexeme

/-- Takes a name, or fails. Keywords are names in the spelling of the source. -/
def identifier : Parser String := do
  if ← sees (·.atIdentifier) then
    return nameOf (← advance)
  else
    unexpected "identifier"

/-! ## Optional parts -/

/-- A part that is there exactly if this keyword, which is taken, stands before it. -/
def afterKeyword (word : Keyword) (part : Parser α) : Parser (Option α) := do
  if ← eatKeyword word then
    return some (← part)
  else
    return none

/-- A part that is there exactly if what is around passes a test. -/
def whenever (test : View → Bool) (part : Parser α) : Parser (Option α) := do
  if ← sees test then
    return some (← part)
  else
    return none

/-! ## Repeated parts -/

/-- Repeats a step that changes a state until the step ends the loop. The fuel bounds the number of
repetitions. -/
def iterate (step : α → Parser (Option α)) : Nat → α → Parser α
  | 0, _ => exhausted
  | fuel + 1, state => do
    match ← step state with
    | some state => iterate step fuel state
    | none => return state

/-- The parts that a step yields until it yields none. -/
def many (fuel : Nat) (step : Parser (Option α)) : Parser (List α) := do
  let parts ← iterate (fun parts => do return (← step).map (· :: parts)) fuel []
  return parts.reverse

/-- One or more parts with commas between them. -/
def commaSeparated (fuel : Nat) (part : Parser α) : Parser (List α) := do
  let first ← part
  let rest ← many fuel do
    if ← eatSymbol .comma then
      return some (← part)
    else
      return none
  return first :: rest

/-- A part between parentheses. -/
def parenthesized (part : Parser α) : Parser α := do
  let _ ← expectSymbol .leftParen
  let value ← part
  let _ ← expectSymbol .rightParen
  return value

end Parser

end SqlTree
