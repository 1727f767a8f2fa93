import SqlTree.Decimal.Reading
import SqlTree.Token

set_option autoImplicit false

/-!
# From source text to tokens

A token is cut off the front of the text by deciding its kind and the number of its characters, so
that the characters of tokens and gaps always make up the text. Gaps are blanks, comments from two
hyphens to the end of the line, and comments between `/*` and `*/`, of which the last may be open.
Cutting never fails: what starts no token becomes a malformed one.

With the drift extensions, text between backticks is Dart code instead of an identifier, and two
asterisks are one symbol.

## Main definitions

* `SqlTree.gapLength` — the number of characters before the next token.
* `SqlTree.scanToken` — the kind and the length of the token that a text starts with.
* `SqlTree.Scanner` — a place in the text, and the step to the next token.
* `SqlTree.tokenize` — all tokens of a source, ending with the one that marks the end of input.
-/

namespace SqlTree

/-! ## Characters of names -/

/-- The character can start a bare identifier. -/
def isIdentifierStart (c : Char) : Bool :=
  Text.isAlphabetic c || c == '_'

/-- The character can continue a bare identifier. -/
def isIdentifierChar (c : Char) : Bool :=
  Text.isAlphanumeric c || c == '_' || c == '$'

/-- The number of leading characters that can continue a bare identifier. -/
def identifierLength (chars : List Char) : Nat :=
  (chars.takeWhile isIdentifierChar).length

/-- The text starts with a character of the class. -/
def startsWith (test : Char → Bool) (chars : List Char) : Bool :=
  match chars with
  | c :: _ => test c
  | [] => false

/-! ## Gaps -/

mutual

/-- The number of characters of the blanks and comments that a text starts with. -/
def gapLength : List Char → Nat
  | '-' :: '-' :: rest => lineCommentLength rest + 2
  | '/' :: '*' :: rest => blockCommentLength rest + 2
  | c :: rest => if Text.isBlank c then gapLength rest + 1 else 0
  | [] => 0

/-- The length of the gap whose first comment ends with the line, after its two hyphens. -/
def lineCommentLength : List Char → Nat
  | c :: rest => if c = '\n' then gapLength rest + 1 else lineCommentLength rest + 1
  | [] => 0

/-- The length of the gap whose first comment ends with `*/`, after its opening. -/
def blockCommentLength : List Char → Nat
  | '*' :: '/' :: rest => gapLength rest + 2
  | _ :: rest => blockCommentLength rest + 1
  | [] => 0

end

/-! ## Scanning one token -/

/-- The kind of a token and the number of its characters after the first. -/
structure Scanned where
  /-- The kind of the token. -/
  kind : TokenKind
  /-- The number of characters after the first. -/
  tail : Nat

/-- Reads up to the closing quote. A doubled quote stands for one if `doubling` is set. The answer
is the unquoted text and the number of characters read, or nothing if no closing quote follows. -/
def scanQuoted (close : Char) (doubling : Bool) : List Char → Option (List Char × Nat)
  | [] => none
  | c :: rest =>
    if c = close then
      match rest with
      | d :: rest =>
        if doubling && d == close then
          (scanQuoted close doubling rest).map fun (value, count) => (close :: value, count + 2)
        else
          some ([], 1)
      | [] => some ([], 1)
    else
      (scanQuoted close doubling rest).map fun (value, count) => (c :: value, count + 1)

/-- A token in quotes: `make` turns its unquoted text into a kind, and `unterminated` is the error
for text that never closes. -/
def scanQuotedToken (close : Char) (doubling : Bool) (unterminated : LexicalError)
    (make : List Char → TokenKind) (rest : List Char) : Scanned :=
  match scanQuoted close doubling rest with
  | some (value, count) => ⟨make value, count⟩
  | none => ⟨.malformed unterminated, rest.length⟩

/-- The bytes written by pairs of hexadecimal digits. -/
def blobBytes : List Char → List UInt8
  | high :: low :: rest => UInt8.ofNat (Text.hexValue [high, low]) :: blobBytes rest
  | _ => []

/-- The kind of a blob with these characters between its quotes. -/
def blobKind (digits : List Char) : TokenKind :=
  if !digits.all Text.isHexDigit then .malformed .invalidBlobDigit
  else if digits.length % 2 ≠ 0 then .malformed .oddBlobDigits
  else .blob (blobBytes digits)

/-- The number of characters of a power of ten, if the text starts with one: its mark, its sign and
its digits. The second answer tells whether there are digits. -/
def exponentLength : List Char → Nat × Bool
  | mark :: rest =>
    if mark == 'e' || mark == 'E' then
      let sign := if startsWith (fun c => c == '+' || c == '-') rest then 1 else 0
      let digits := ((rest.drop sign).takeWhile Char.isDigit).length
      (1 + sign + digits, digits ≠ 0)
    else
      (0, true)
  | [] => (0, true)

/-- The kind and the whole length of a decimal number. Integers that do not fit into 64 bits are
floating-point numbers. -/
def scanDecimal (chars : List Char) : TokenKind × Nat :=
  let whole := (chars.takeWhile Char.isDigit).length
  let fraction :=
    match chars.drop whole with
    | '.' :: rest => 1 + (rest.takeWhile Char.isDigit).length
    | _ => 0
  let exponent := exponentLength (chars.drop (whole + fraction))
  let length := whole + fraction + exponent.1
  let rest := chars.drop length
  let digits := chars.take length
  if !exponent.2 then
    (.malformed .malformedExponent, length + identifierLength rest)
  else if startsWith isIdentifierStart rest then
    (.malformed .identifierAfterNumber, length + identifierLength rest)
  else if fraction = 0 && exponent.1 = 0 && Text.decimalValue digits < 0x8000000000000000 then
    (.integer (Int64.ofNat (Text.decimalValue digits)), length)
  else
    (.float (((Decimal.Numeral.ofChars? digits).map Decimal.Numeral.toFloat).getD 0), length)

/-- The kind and the length of a hexadecimal number after its `0x`. Its digits are a 64-bit word in
two's complement. -/
def scanHex (chars : List Char) : TokenKind × Nat :=
  let digits := chars.takeWhile Text.isHexDigit
  let rest := chars.drop digits.length
  if startsWith isIdentifierChar rest then
    (.malformed .invalidHex, digits.length + identifierLength rest)
  else if digits.isEmpty then
    (.malformed .hexWithoutDigits, 0)
  else if Text.hexValue digits < 0x10000000000000000 then
    (.integer (UInt64.ofNat (Text.hexValue digits)).toInt64, digits.length)
  else
    (.malformed .hexTooBig, digits.length)

/-- A number, of which `first` is the first character. -/
def scanNumber (first : Char) (rest : List Char) : Scanned :=
  let decimal : Scanned :=
    let (kind, length) := scanDecimal (first :: rest)
    ⟨kind, length - 1⟩
  match rest with
  | mark :: digits =>
    if first == '0' && (mark == 'x' || mark == 'X') then
      let (kind, length) := scanHex digits
      ⟨kind, length + 1⟩
    else
      decimal
  | [] => decimal

/-- A variable that starts with a question mark. -/
def scanQuestion (rest : List Char) : Scanned :=
  let digits := rest.takeWhile Char.isDigit
  let index := Text.decimalValue digits
  if digits.isEmpty then ⟨.variable .anonymous, 0⟩
  else if 0 < index && index < 0x100000000 then ⟨.variable (.numbered index), digits.length⟩
  else ⟨.malformed .variableNumber, digits.length⟩

/-- A variable that starts with a sigil; `alone` is what the sigil is without a name. -/
def scanNamed (sigil : Sigil) (alone : TokenKind) (rest : List Char) : Scanned :=
  let name := rest.takeWhile isIdentifierChar
  if name.isEmpty then ⟨alone, 0⟩
  else ⟨.variable (.named sigil (String.ofList name)), name.length⟩

/-- A bare identifier or a keyword. -/
def scanWord (first : Char) (rest : List Char) : Scanned :=
  let tail := rest.takeWhile isIdentifierChar
  let text := String.ofList (first :: tail)
  match Keyword.ofText? text with
  | some word => ⟨.keyword word, tail.length⟩
  | none => ⟨.identifier text, tail.length⟩

/-- The kind and length of the token that starts with `first` and goes on in `rest`. Of two symbols
that fit, the longer one is taken. -/
def scanToken (drift : Bool) (first : Char) (rest : List Char) : Scanned :=
  let name (chars : List Char) : TokenKind := .identifier (String.ofList chars)
  match first, rest with
  | '(', _ => ⟨.symbol .leftParen, 0⟩
  | ')', _ => ⟨.symbol .rightParen, 0⟩
  | ',', _ => ⟨.symbol .comma, 0⟩
  | ';', _ => ⟨.symbol .semicolon, 0⟩
  | '+', _ => ⟨.symbol .plus, 0⟩
  | '/', _ => ⟨.symbol .slash, 0⟩
  | '%', _ => ⟨.symbol .percent, 0⟩
  | '~', _ => ⟨.symbol .bitNot, 0⟩
  | '&', _ => ⟨.symbol .bitAnd, 0⟩
  | '*', '*' :: _ => if drift then ⟨.symbol .doubleStar, 1⟩ else ⟨.symbol .star, 0⟩
  | '*', _ => ⟨.symbol .star, 0⟩
  | '-', '>' :: '>' :: _ => ⟨.symbol .doubleArrow, 2⟩
  | '-', '>' :: _ => ⟨.symbol .arrow, 1⟩
  | '-', _ => ⟨.symbol .minus, 0⟩
  | '=', '=' :: _ => ⟨.symbol .doubleEq, 1⟩
  | '=', _ => ⟨.symbol .eq, 0⟩
  | '<', '=' :: _ => ⟨.symbol .ltEq, 1⟩
  | '<', '>' :: _ => ⟨.symbol .ltGt, 1⟩
  | '<', '<' :: _ => ⟨.symbol .leftShift, 1⟩
  | '<', _ => ⟨.symbol .lt, 0⟩
  | '>', '=' :: _ => ⟨.symbol .gtEq, 1⟩
  | '>', '>' :: _ => ⟨.symbol .rightShift, 1⟩
  | '>', _ => ⟨.symbol .gt, 0⟩
  | '!', '=' :: _ => ⟨.symbol .notEq, 1⟩
  | '|', '|' :: _ => ⟨.symbol .concat, 1⟩
  | '|', _ => ⟨.symbol .bitOr, 0⟩
  | '.', _ => if startsWith Char.isDigit rest then scanNumber '.' rest else ⟨.symbol .dot, 0⟩
  | '?', _ => scanQuestion rest
  | ':', _ => scanNamed .colon (.symbol .colon) rest
  | '@', _ => scanNamed .at (.malformed (.unexpectedCharacter '@')) rest
  | '$', _ => scanNamed .dollar (.malformed (.unexpectedCharacter '$')) rest
  | '\'', _ =>
    scanQuotedToken '\'' true .unterminatedString (fun value => .string (String.ofList value)) rest
  | '"', _ => scanQuotedToken '"' true .unterminatedIdentifier name rest
  | '[', _ => scanQuotedToken ']' false .unterminatedIdentifier name rest
  | '\x60', _ =>
    if drift then
      scanQuotedToken '\x60' false .unterminatedDart (fun code => .inlineDart (String.ofList code))
        rest
    else
      scanQuotedToken '\x60' true .unterminatedIdentifier name rest
  | _, '\'' :: content =>
    if first == 'x' || first == 'X' then
      let scanned := scanQuotedToken '\'' false .unterminatedBlob blobKind content
      ⟨scanned.kind, scanned.tail + 1⟩
    else
      scanOther first rest
  | _, _ => scanOther first rest
where
  /-- A number, a name, or a character that starts no token. -/
  scanOther (first : Char) (rest : List Char) : Scanned :=
    if first.isDigit then scanNumber first rest
    else if isIdentifierStart first then scanWord first rest
    else ⟨.malformed (.unexpectedCharacter first), 0⟩

/-! ## Scanning a source -/

/-- A place in source text. -/
structure Scanner where
  /-- Whether the drift extensions are read. -/
  drift : Bool
  /-- The place reached. -/
  position : Position
  /-- The characters after it. -/
  rest : List Char

namespace Scanner

/-- The place before the first character of a source. -/
def ofSource (drift : Bool) (source : String) : Scanner :=
  ⟨drift, .origin, source.toList⟩

/-- The next token, and the place after it. At the end of the text this is the token that marks the
end, again and again. -/
def next (scanner : Scanner) : Token × Scanner :=
  let gap := gapLength scanner.rest
  let start := scanner.position.advance (scanner.rest.take gap)
  match scanner.rest.drop gap with
  | [] => (⟨.endOfInput, "", .between start start⟩, ⟨scanner.drift, start, []⟩)
  | first :: rest =>
    let scanned := scanToken scanner.drift first rest
    let chars := first :: rest.take scanned.tail
    let stop := start.advance chars
    (⟨scanned.kind, String.ofList chars, .between start stop⟩,
      ⟨scanner.drift, stop, rest.drop scanned.tail⟩)

/-- All tokens from here on, and the place after the last. The fuel bounds their number. -/
def tokensWithin : Nat → Scanner → List Token × Scanner
  | 0, scanner => ([], scanner)
  | fuel + 1, scanner =>
    let (token, scanner) := scanner.next
    if token.isEnd then
      ([token], scanner)
    else
      let (tokens, scanner) := tokensWithin fuel scanner
      (token :: tokens, scanner)

/-- All tokens from here on up to the one that marks the end of input, and the place after it. Every
token but the last takes at least one character. -/
def tokens (scanner : Scanner) : List Token × Scanner :=
  scanner.tokensWithin (scanner.rest.length + 1)

end Scanner

/-- The tokens of a source. The last one marks the end of input. -/
def tokenize (drift : Bool) (source : String) : List Token :=
  (Scanner.ofSource drift source).tokens.1

end SqlTree
