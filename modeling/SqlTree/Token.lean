import SqlTree.Keyword
import SqlTree.Span

set_option autoImplicit false

/-!
# Tokens

The words of source text. A token has a kind, the exact text it was written as, and the span of that
text. Text that is no word of the language is a token too: a malformed one, which carries the cause.

## Main definitions

* `SqlTree.Symbol` — operators and punctuation.
* `SqlTree.Variable` — the kinds of query variables.
* `SqlTree.LexicalError` — why a piece of text is no token of the language.
* `SqlTree.TokenKind`, `SqlTree.Token` — the kinds of tokens, and tokens in their place.
-/

namespace SqlTree

/-! ## Operators and punctuation -/

/-- An operator or a punctuation mark. -/
inductive Symbol where
  | plus | minus | star | doubleStar | slash | percent
  | eq | doubleEq | notEq | ltGt | lt | ltEq | gt | gtEq
  | concat | arrow | doubleArrow | bitAnd | bitOr | bitNot | leftShift | rightShift
  | leftParen | rightParen | comma | semicolon | dot | colon
deriving DecidableEq, Repr, Inhabited

/-- How a symbol is written. -/
def Symbol.text : Symbol → String
  | .plus => "+"
  | .minus => "-"
  | .star => "*"
  | .doubleStar => "**"
  | .slash => "/"
  | .percent => "%"
  | .eq => "="
  | .doubleEq => "=="
  | .notEq => "!="
  | .ltGt => "<>"
  | .lt => "<"
  | .ltEq => "<="
  | .gt => ">"
  | .gtEq => ">="
  | .concat => "||"
  | .arrow => "->"
  | .doubleArrow => "->>"
  | .bitAnd => "&"
  | .bitOr => "|"
  | .bitNot => "~"
  | .leftShift => "<<"
  | .rightShift => ">>"
  | .leftParen => "("
  | .rightParen => ")"
  | .comma => ","
  | .semicolon => ";"
  | .dot => "."
  | .colon => ":"

/-! ## Variables -/

/-- The character that stands before the name of a named variable. -/
inductive Sigil where
  | colon | at | dollar
deriving DecidableEq, Repr, Inhabited

/-- How a sigil is written. -/
def Sigil.char : Sigil → Char
  | .colon => ':'
  | .at => '@'
  | .dollar => '$'

/-- A variable of a query. -/
inductive Variable where
  /-- A question mark alone. -/
  | anonymous
  /-- A question mark with a number, which is positive. -/
  | numbered (index : Nat)
  /-- A sigil with a name. -/
  | named (sigil : Sigil) (name : String)
deriving DecidableEq, Repr, Inhabited

/-! ## Malformed tokens -/

/-- Why a piece of text is no token of the language. -/
inductive LexicalError where
  /-- The text ends before the closing quote of an identifier. -/
  | unterminatedIdentifier
  /-- The text ends before the closing quote of a string. -/
  | unterminatedString
  /-- The text ends before the closing quote of a blob. -/
  | unterminatedBlob
  /-- The text ends before the closing quote of Dart code. -/
  | unterminatedDart
  /-- The power of ten of a number has no digits. -/
  | malformedExponent
  /-- A letter follows a number. -/
  | identifierAfterNumber
  /-- A letter that is no hexadecimal digit follows a hexadecimal number. -/
  | invalidHex
  /-- A hexadecimal number has no digits. -/
  | hexWithoutDigits
  /-- A hexadecimal number has more than 64 bits. -/
  | hexTooBig
  /-- A blob holds a character that is no hexadecimal digit. -/
  | invalidBlobDigit
  /-- The last byte of a blob has one digit only. -/
  | oddBlobDigits
  /-- The number of a variable is zero or has more than 32 bits. -/
  | variableNumber
  /-- A character that starts no token. -/
  | unexpectedCharacter (c : Char)
deriving DecidableEq, Repr, Inhabited

/-- What users are told about a malformed token. -/
def LexicalError.message : LexicalError → String
  | .unterminatedIdentifier => "Unterminated quoted identifier"
  | .unterminatedString => "Unterminated string literal"
  | .unterminatedBlob => "Unterminated blob literal"
  | .unterminatedDart => "Unterminated inline Dart code"
  | .malformedExponent => "Malformed exponent in numeric literal"
  | .identifierAfterNumber => "Unrecognized token: identifier directly after number"
  | .invalidHex => "Invalid hex literal"
  | .hexWithoutDigits => "Hex literal without digits"
  | .hexTooBig => "Hex literal too big"
  | .invalidBlobDigit => "Invalid character in blob literal"
  | .oddBlobDigits => "Odd number of hex digits in blob literal"
  | .variableNumber => "Variable number must be between ?1 and ?4294967295"
  | .unexpectedCharacter c => "Unexpected character: " ++ c.toString

/-! ## Tokens -/

/-- What a token is, with the value that its text stands for. -/
inductive TokenKind where
  | integer (value : Int64)
  | float (value : Float)
  | string (value : String)
  | blob (bytes : List UInt8)
  | identifier (name : String)
  | keyword (word : Keyword)
  | variable (which : Variable)
  /-- Dart code between backticks. -/
  | inlineDart (code : String)
  | symbol (which : Symbol)
  | endOfInput
  | malformed (error : LexicalError)
deriving DecidableEq, Inhabited

namespace TokenKind

/-- The token can name something: identifiers, and the keywords that serve as names. -/
def isIdentifierLike : TokenKind → Bool
  | .identifier _ => true
  | .keyword word => word.canBeIdentifier
  | _ => false

/-- Both tokens are of one kind, whatever their values. Symbols and the forms of variables are kinds
of their own. -/
def sameKind : TokenKind → TokenKind → Bool
  | .integer _, .integer _ => true
  | .float _, .float _ => true
  | .string _, .string _ => true
  | .blob _, .blob _ => true
  | .identifier _, .identifier _ => true
  | .keyword _, .keyword _ => true
  | .variable .anonymous, .variable .anonymous => true
  | .variable (.numbered _), .variable (.numbered _) => true
  | .variable (.named a _), .variable (.named b _) => a == b
  | .inlineDart _, .inlineDart _ => true
  | .symbol a, .symbol b => a == b
  | .endOfInput, .endOfInput => true
  | .malformed _, .malformed _ => true
  | _, _ => false

end TokenKind

/-- A token of the source. -/
structure Token where
  /-- What the token is. -/
  kind : TokenKind
  /-- The text of the token as it was written. -/
  lexeme : String
  /-- Where the text stands. -/
  span : Span
deriving DecidableEq, Inhabited

namespace Token

/-- The token that stands after the last one. -/
def isEnd (token : Token) : Bool :=
  match token.kind with
  | .endOfInput => true
  | _ => false

/-- The keyword that the token is, if it is one. -/
def keyword? (token : Token) : Option Keyword :=
  match token.kind with
  | .keyword word => some word
  | _ => none

/-- The token is this keyword. -/
def isKeyword (token : Token) (word : Keyword) : Bool :=
  token.keyword? == some word

/-- The token is this symbol. -/
def isSymbol (token : Token) (symbol : Symbol) : Bool :=
  match token.kind with
  | .symbol found => found == symbol
  | _ => false

end Token

end SqlTree
