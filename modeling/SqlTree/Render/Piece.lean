import SqlTree.Decimal.Layout
import SqlTree.Text.Quoted
import SqlTree.Token.Lexer
import SqlTree.Tree.Literal

set_option autoImplicit false

/-!
# Pieces of written text

A tree is written as a list of pieces: tokens, and the blanks between them. What a piece stands for
and how it is spelled are kept apart, so that the text of a tree and its tokens can be read off the
same list. Names are quoted only where they would be read as something else.

## Main definitions

* `SqlTree.Render.nameText`, `SqlTree.Render.functionNameText` — the text of names.
* `SqlTree.Literal.text`, `SqlTree.Variable.text` — the text of literals and variables.
* `SqlTree.Render.Piece`, `SqlTree.Render.text` — pieces, and the text they make up.
-/

namespace SqlTree

namespace Render

/-! ## Names -/

/-- The name can be written bare: it is no keyword and has the form of an identifier. -/
def isPlainName (name : String) : Bool :=
  match name.toList with
  | [] => false
  | first :: rest =>
    isIdentifierStart first && rest.all isIdentifierChar && (Keyword.ofText? name).isNone

/-- How a name is written. -/
def nameText (name : String) : String :=
  if isPlainName name then name else String.ofList (Text.quoted '"' name.toList)

/-- How the name of a function is written; the keywords that can name functions are bare. -/
def functionNameText (name : String) : String :=
  match Keyword.ofText? name with
  | some word => if word.canNameFunction then name else nameText name
  | none => nameText name

end Render

/-! ## Literals and variables -/

namespace Literal

/-- Numbers are written with all their places from a ten-thousandth up to sixteen digits before the
point, and with a power of ten beyond. -/
def numberLayout : Decimal.Layout :=
  ⟨-4, 15, 'e'⟩

/-- How a floating-point number is written. Infinity has no numeral of its own: a numeral that is
too large for a double stands for it. -/
def floatText (value : Float) : String :=
  if value.toBits.toNat % Decimal.signBit = Decimal.infinityBits then "9e999"
  else numberLayout.write value

/-- How an integer is written. Negative integers are written as hexadecimal words, because a minus
sign would be an operator. -/
def integerText (value : Int64) : String :=
  if value < 0 then
    "0x" ++ String.ofList ((Nat.toDigits 16 value.toUInt64.toNat).map Char.toUpper)
  else
    toString value.toInt

/-- The two hexadecimal digits of a byte. -/
def byteDigits (byte : UInt8) : List Char :=
  [Text.hexDigit (byte.toNat / 16), Text.hexDigit (byte.toNat % 16)]

/-- How a literal is written. -/
def text : Literal → String
  | .integer value => integerText value
  | .float value => floatText value
  | .string value => String.ofList (Text.quoted '\'' value.toList)
  | .blob bytes => String.ofList ('X' :: '\'' :: bytes.flatMap byteDigits ++ ['\''])
  | .boolean true => "TRUE"
  | .boolean false => "FALSE"
  | .null => "NULL"
  | .currentTime => "CURRENT_TIME"
  | .currentDate => "CURRENT_DATE"
  | .currentTimestamp => "CURRENT_TIMESTAMP"

end Literal

/-- How a variable is written. -/
def Variable.text : Variable → String
  | .anonymous => "?"
  | .numbered index => "?" ++ toString index
  | .named sigil name => sigil.char.toString ++ name

namespace Render

/-! ## Pieces -/

/-- A piece of written text. -/
inductive Piece where
  | blank
  | lineEnd
  | keyword (word : Keyword)
  | symbol (which : Symbol)
  | name (written : String)
  | functionName (written : String)
  | literal (value : Literal)
  | variable (which : Variable)
  /-- Dart code between backticks. -/
  | dart (code : String)
  /-- Source text that is kept as it was. -/
  | verbatim (source : String)

/-- How a piece is written. -/
def Piece.text : Piece → String
  | .blank => " "
  | .lineEnd => "\n"
  | .keyword word => word.text
  | .symbol which => which.text
  | .name written => nameText written
  | .functionName written => functionNameText written
  | .literal value => value.text
  | .variable which => which.text
  | .dart code => "\x60" ++ code ++ "\x60"
  | .verbatim source => source

/-- The text that pieces make up. -/
def text (pieces : List Piece) : String :=
  String.join (pieces.map Piece.text)

/-! ## Putting pieces together -/

/-- Parts with the same pieces between each two of them. -/
def separated (between : List Piece) : List (List Piece) → List Piece
  | [] => []
  | [part] => part
  | part :: rest => part ++ between ++ separated between rest

/-- Parts with a comma and a blank between each two of them. -/
def commas (parts : List (List Piece)) : List Piece :=
  separated [.symbol .comma, .blank] parts

/-- Keywords with a blank between each two of them. -/
def words (keywords : List Keyword) : List Piece :=
  separated [.blank] (keywords.map fun word => [.keyword word])

/-- Keywords, each followed by a blank, if the condition holds. -/
def wordsIf (condition : Bool) (keywords : List Keyword) : List Piece :=
  if condition then keywords.flatMap fun word => [.keyword word, .blank] else []

/-- Pieces between parentheses. -/
def parens (inner : List Piece) : List Piece :=
  .symbol .leftParen :: inner ++ [.symbol .rightParen]

/-- Names with commas between them. -/
def names (list : List String) : List Piece :=
  commas (list.map fun name => [.name name])

/-- A name with the schema it belongs to. -/
def qualified (schema : Option String) (name : String) : List Piece :=
  match schema with
  | some schema => [.name schema, .symbol .dot, .name name]
  | none => [.name name]

/-- The name that something is given, after a blank. -/
def aliased : Option String → List Piece
  | some aliasName => [.blank, .keyword .AS, .blank, .name aliasName]
  | none => []

/-- Keywords after a blank, if there are any to write. -/
def suffix (keywords : Option (List Keyword)) : List Piece :=
  match keywords with
  | some keywords => .blank :: words keywords
  | none => []

/-- The pieces start with a hyphen. -/
def startsWithHyphen : List Piece → Bool
  | piece :: _ => piece.text.toList.head? == some '-'
  | [] => false

end Render

/-- How a unary operator is written: the words of `NOT` need a blank, and a minus sign before a
hyphen needs one too, because two hyphens start a comment. -/
def UnaryOp.pieces (op : UnaryOp) (operand : List Render.Piece) : List Render.Piece :=
  match op with
  | .neg =>
    if Render.startsWithHyphen operand then .symbol .minus :: .blank :: operand
    else .symbol .minus :: operand
  | .plus => .symbol .plus :: operand
  | .not => .keyword .NOT :: .blank :: operand
  | .bitNot => .symbol .bitNot :: operand

/-- How a binary operator is written. -/
def BinaryOp.pieces : BinaryOp → List Render.Piece
  | .add => [.symbol .plus]
  | .sub => [.symbol .minus]
  | .mul => [.symbol .star]
  | .div => [.symbol .slash]
  | .mod => [.symbol .percent]
  | .eq => [.symbol .eq]
  | .notEq => [.symbol .notEq]
  | .lt => [.symbol .lt]
  | .ltEq => [.symbol .ltEq]
  | .gt => [.symbol .gt]
  | .gtEq => [.symbol .gtEq]
  | .is => [.keyword .IS]
  | .isNot => [.keyword .IS, .blank, .keyword .NOT]
  | .and => [.keyword .AND]
  | .or => [.keyword .OR]
  | .concat => [.symbol .concat]
  | .jsonExtract => [.symbol .arrow]
  | .jsonExtractText => [.symbol .doubleArrow]
  | .bitAnd => [.symbol .bitAnd]
  | .bitOr => [.symbol .bitOr]
  | .leftShift => [.symbol .leftShift]
  | .rightShift => [.symbol .rightShift]

end SqlTree
