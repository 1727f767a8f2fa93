import SqlTree.Token

set_option autoImplicit false

/-!
# Parse errors

Why a sequence of tokens is no statement. An error about a token is told apart further by the token:
the end of input means that the text is incomplete, and a malformed token brings its own message.

## Main definitions

* `SqlTree.ParseError` — the causes.
* `SqlTree.ParseError.kind`, `SqlTree.ParseError.message`, `SqlTree.ParseError.span` — what is
  shown of a cause.
-/

namespace SqlTree

/-- Why parsing stopped. -/
inductive ParseError where
  /-- Something else than this token is needed here. -/
  | unexpected (expected : String) (found : Token)
  /-- The dialect does not read this construct. -/
  | unsupported (construct dialect : String) (span : Span)
  /-- The construct has a shape that is not allowed. -/
  | invalid (reason : String) (span : Span)
  /-- The bound on the number of steps was reached. -/
  | exhausted (span : Span)
deriving DecidableEq, Inhabited

/-- The kinds that users tell errors apart by. -/
inductive ParseErrorKind where
  | lex | unexpectedToken | unexpectedEnd | unsupported | invalid | exhausted
deriving DecidableEq, Repr, Inhabited

namespace ParseError

/-- The kind of an error. -/
def kind : ParseError → ParseErrorKind
  | .unexpected _ found =>
    match found.kind with
    | .endOfInput => .unexpectedEnd
    | .malformed _ => .lex
    | _ => .unexpectedToken
  | .unsupported _ _ _ => .unsupported
  | .invalid _ _ => .invalid
  | .exhausted _ => .exhausted

/-- What users are told about an error. -/
def message : ParseError → String
  | .unexpected expected found =>
    match found.kind with
    | .endOfInput => "Unexpected end of input: expected " ++ expected
    | .malformed error => error.message
    | _ => "Unexpected token: expected " ++ expected ++ ", found '" ++ found.lexeme ++ "'"
  | .unsupported construct dialect _ =>
    construct ++ " is not supported by the " ++ dialect ++ " dialect"
  | .invalid reason _ => reason
  | .exhausted _ => "The statement is too long"

/-- Where an error is. -/
def span : ParseError → Span
  | .unexpected _ found => found.span
  | .unsupported _ _ span | .invalid _ span | .exhausted span => span

/-- What was needed instead of the token that was found. -/
def expected? : ParseError → Option String
  | .unexpected expected _ => some expected
  | _ => none

/-- The kind of the token that was found. -/
def found? : ParseError → Option TokenKind
  | .unexpected _ found => some found.kind
  | _ => none

/-- The message with the place of the error. -/
def display (error : ParseError) : String :=
  error.message ++ " at " ++ error.span.place

end ParseError

end SqlTree
