import SqlTree.ParseError
import SqlTree.Token.Lexer

set_option autoImplicit false

/-!
# A place in a sequence of tokens

A cursor stands between two tokens of a source. It knows the token behind it and those ahead, of
which the last one marks the end of input and is never passed. Looking ahead of the end shows that
last token again.

## Main definitions

* `SqlTree.Cursor` — the place, with `Cursor.peek` and `Cursor.advance`.
* `SqlTree.Cursor.ofTokens`, `SqlTree.Cursor.ofSource` — the place before the first token.
* `SqlTree.Cursor.spanFrom`, `SqlTree.Cursor.textFrom` — the span and the source text from an
  earlier place up to the token behind.
-/

namespace SqlTree

/-- A place in the tokens of a source. -/
structure Cursor where
  /-- The source text. -/
  source : String
  /-- The token behind the cursor; at the start, the first token. -/
  previous : Token
  /-- The tokens ahead, without the end of input. -/
  ahead : List Token
  /-- The token that marks the end of input. -/
  last : Token
deriving DecidableEq, Inhabited

namespace Cursor

/-- The token that marks the end of a source whose tokens do not come with one. -/
def endToken (source : String) : Token :=
  ⟨.endOfInput, "", ⟨source.utf8ByteSize, source.utf8ByteSize, 0, 0⟩⟩

/-- The place before the first of these tokens. -/
def ofTokens (source : String) (tokens : List Token) : Cursor :=
  let ahead := tokens.takeWhile (!·.isEnd)
  let last := (tokens.find? (·.isEnd)).getD (endToken source)
  ⟨source, ahead.headD last, ahead, last⟩

/-- The place before the first token of a source. -/
def ofSource (drift : Bool) (source : String) : Cursor :=
  ofTokens source (tokenize drift source)

/-- The token at a distance ahead; the next token is at distance zero. -/
def peek (cursor : Cursor) (distance : Nat) : Token :=
  cursor.ahead.getD distance cursor.last

/-- The next token. -/
def current (cursor : Cursor) : Token :=
  cursor.peek 0

/-- No token but the end of input is ahead. -/
def isAtEnd (cursor : Cursor) : Bool :=
  cursor.ahead.isEmpty

/-- The place after the next token; at the end of input, the same place. -/
def advance (cursor : Cursor) : Cursor :=
  match cursor.ahead with
  | [] => cursor
  | token :: rest => { cursor with previous := token, ahead := rest }

/-- The end of the text from byte `start` up to the token behind. -/
def stopAfter (previous : Token) (start : Nat) : Nat :=
  max previous.span.stop start

/-- The span from the start of an earlier span up to the token behind. -/
def spanFrom (cursor : Cursor) (start : Span) : Span :=
  ⟨start.start, stopAfter cursor.previous start.start, start.line, start.column⟩

/-- The source text between two byte offsets; empty if they do not fit the source. -/
def slice (cursor : Cursor) (start stop : Nat) : String :=
  (Text.slice? cursor.source start stop).getD ""

/-- The source text from byte `start` up to the token behind. -/
def textFrom (cursor : Cursor) (start : Nat) : String :=
  cursor.slice start (stopAfter cursor.previous start)

/-- The error of finding the next token instead of what is expected. -/
def errorAt (cursor : Cursor) (expected : String) : ParseError :=
  .unexpected expected cursor.current

end Cursor

end SqlTree
