import Mathlib.Data.List.Forall2
import Mathlib.Data.List.GetD
import SqlTree.Proofs.Run
import SqlTree.Render.Node

set_option autoImplicit false

/-!
# Words

A word is a token without its place. The tokens ahead of a cursor spell words, and so do the pieces
of a tree. A word may also fix the text that stands between it and the token before.

## Main definitions

* `SqlTree.Word` — words.
* `SqlTree.Cursor.words` — the words that the tokens ahead spell.
* `SqlTree.Render.words` — the words that pieces are to be read as.
* `SqlTree.Cursor.Spells` — the tokens ahead spell these words.
* `SqlTree.Word.kindAt` — the kind of token that stands at a distance ahead of such words.

## Main results

* `SqlTree.Cursor.Spells.peek` — what is seen ahead of a place is what the words say.
-/

namespace SqlTree

/-- A token without its place, perhaps with the text between the token before and itself. -/
structure Word where
  kind : TokenKind
  lexeme : String
  gap : Option String

/-- The kind of token that a literal is. -/
def Literal.kind : Literal → TokenKind
  | .integer value => .integer value
  | .float value => .float value
  | .string value => .string value
  | .blob bytes => .blob bytes
  | .boolean true => .keyword .TRUE
  | .boolean false => .keyword .FALSE
  | .null => .keyword .NULL
  | .currentTime => .keyword .CURRENT_TIME
  | .currentDate => .keyword .CURRENT_DATE
  | .currentTimestamp => .keyword .CURRENT_TIMESTAMP

/-! ## Kinds of literals -/

/-- The kind of the token of a literal is looked up as the literal. -/
lemma Grammar.literal?_kind (value : Literal) : literal? value.kind = some value := by
  cases value with
  | boolean value => cases value <;> rfl
  | _ => rfl

/-- A literal is told by the kind of its token. -/
lemma Grammar.kind_of_literal? {kind : TokenKind} {value : Literal}
    (found : literal? kind = some value) : kind = value.kind := by
  cases kind with
  | integer | float | string | blob =>
    cases found
    rfl
  | keyword word => cases word <;> cases found <;> rfl
  | _ => cases found

namespace Literal

/-- The token of a literal has no kind that is looked up as nothing. -/
lemma kind_ne {kind : TokenKind} (value : Literal) (never : Grammar.literal? kind = none) :
    value.kind ≠ kind := by
  rintro rfl
  rw [Grammar.literal?_kind] at never
  cases never

/-- No literal is an error token. -/
lemma kind_isMalformed (value : Literal) : value.kind.isMalformed = false := by
  cases value with
  | boolean value => cases value <;> rfl
  | _ => rfl

/-- No literal can be taken for a name. -/
lemma kind_isIdentifierLike (value : Literal) : value.kind.isIdentifierLike = false := by
  cases value with
  | boolean value => cases value <;> rfl
  | _ => rfl

/-- No literal is a prefix operator. -/
lemma unaryOp?_kind (value : Literal) : Grammar.unaryOp? value.kind = none := by
  cases value with
  | boolean value => cases value <;> rfl
  | _ => rfl

end Literal

namespace Word

/-- The word of a token whose text is not kept. -/
def ofKeyword (word : Keyword) : Word :=
  ⟨.keyword word, word.text, none⟩

/-- The word of a symbol. -/
def ofSymbol (symbol : Symbol) : Word :=
  ⟨.symbol symbol, symbol.text, none⟩

/-- The word of a name. -/
def ofName (written : String) : Word :=
  ⟨.identifier written, Render.nameText written, none⟩

/-- The word of the name of a function: keywords that can name functions stay keywords. -/
def ofFunctionName (written : String) : Word :=
  match Keyword.ofText? written with
  | some word => if word.canNameFunction then ⟨.keyword word, written, none⟩ else ofName written
  | none => ofName written

/-- The word of a literal. -/
def ofLiteral (value : Literal) : Word :=
  ⟨value.kind, value.text, none⟩

/-- The word of a variable. -/
def ofVariable (which : Variable) : Word :=
  ⟨.variable which, which.text, none⟩

/-- The word of Dart code. -/
def ofDart (code : String) : Word :=
  ⟨.inlineDart code, (Render.Piece.dart code).text, none⟩

/-- The word of a keyword is of its kind. -/
@[simp] lemma ofKeyword_kind (word : Keyword) : (ofKeyword word).kind = .keyword word := rfl

/-- The word of a symbol is of its kind. -/
@[simp] lemma ofSymbol_kind (symbol : Symbol) : (ofSymbol symbol).kind = .symbol symbol := rfl

/-- The word of a name is of the kind of an identifier. -/
@[simp] lemma ofName_kind (written : String) : (ofName written).kind = .identifier written := rfl

/-- The word of a literal is of its kind. -/
@[simp] lemma ofLiteral_kind (value : Literal) : (ofLiteral value).kind = value.kind := rfl

/-- The word of a variable is of its kind. -/
@[simp] lemma ofVariable_kind (which : Variable) :
    (ofVariable which).kind = .variable which := rfl

/-- The word of code in Dart is of its kind. -/
@[simp] lemma ofDart_kind (code : String) : (ofDart code).kind = .inlineDart code := rfl

/-- The word found is the word wanted: its gap matters only where it is fixed. -/
def Fits (found wanted : Word) : Prop :=
  found.kind = wanted.kind ∧ found.lexeme = wanted.lexeme ∧
    (wanted.gap = none ∨ found.gap = wanted.gap)

/-- The kind of token at a distance ahead of words that are the last ones of a source. -/
def kindAt (words : List Word) (distance : Nat) : TokenKind :=
  match words[distance]? with
  | some word => word.kind
  | none => .endOfInput

/-- After the last word stands the end of input. -/
@[simp] lemma kindAt_nil (distance : Nat) : kindAt [] distance = .endOfInput := by
  simp [kindAt]

/-- Next is the first word. -/
@[simp] lemma kindAt_cons_zero (word : Word) (rest : List Word) :
    kindAt (word :: rest) 0 = word.kind := rfl

/-- Further on are the words after the first one. -/
@[simp] lemma kindAt_cons_succ (word : Word) (rest : List Word) (distance : Nat) :
    kindAt (word :: rest) (distance + 1) = kindAt rest distance := by
  simp [kindAt]

/-- What is next in a list of words that is not empty is next where more words follow. -/
lemma kindAt_append {words : List Word} (nonempty : words ≠ []) (rest : List Word) :
    kindAt (words ++ rest) 0 = kindAt words 0 := by
  cases words with
  | nil => exact absurd rfl nonempty
  | cons word words => rfl

end Word

/-! ## The words of tokens -/

/-- The words of tokens that follow another token in a source. -/
def wordsFrom (source : String) : Token → List Token → List Word
  | _, [] => []
  | previous, token :: rest =>
    ⟨token.kind, token.lexeme, Text.slice? source previous.span.stop token.span.start⟩ ::
      wordsFrom source token rest

namespace Cursor

/-- The words of the tokens ahead, where the gap before the first one does not matter. -/
def words (cursor : Cursor) : List Word :=
  match cursor.ahead with
  | [] => []
  | token :: rest => ⟨token.kind, token.lexeme, none⟩ :: wordsFrom cursor.source token rest

/-- The tokens ahead spell these words. -/
def Spells (cursor : Cursor) (words : List Word) : Prop :=
  List.Forall₂ Word.Fits (wordsFrom cursor.source cursor.previous cursor.ahead) words

/-- There are as many words as tokens. -/
@[simp] lemma length_wordsFrom (source : String) (previous : Token) (tokens : List Token) :
    (wordsFrom source previous tokens).length = tokens.length := by
  induction tokens generalizing previous with
  | nil => rfl
  | cons token rest ih => simp [wordsFrom, ih]

/-- There are as many words ahead as tokens. -/
@[simp] lemma length_words (cursor : Cursor) : cursor.words.length = cursor.ahead.length := by
  unfold words
  split <;> simp_all

/-- Words are of the kinds of their tokens. -/
lemma getElem?_wordsFrom_kind (source : String) (previous : Token) (tokens : List Token)
    (distance : Nat) :
    (wordsFrom source previous tokens)[distance]?.map Word.kind =
      tokens[distance]?.map Token.kind := by
  induction tokens generalizing previous distance with
  | nil => rfl
  | cons token rest ih =>
    cases distance with
    | zero => rfl
    | succ distance => simpa [wordsFrom] using ih token distance

namespace Spells

variable {cursor : Cursor} {words : List Word} {drift : Bool}

/-- As many tokens are ahead as they spell words. -/
lemma length (spells : cursor.Spells words) : cursor.ahead.length = words.length := by
  simpa using List.Forall₂.length_eq spells

/-- **What is seen ahead is what the words say.** -/
lemma peek (spells : cursor.Spells words) (reachable : cursor.Reachable drift) (distance : Nat) :
    (cursor.peek distance).kind = Word.kindAt words distance := by
  have sameLength := spells.length
  unfold Cursor.peek Word.kindAt
  by_cases within : distance < words.length
  · have fits := (List.forall₂_iff_get.mp spells).2 distance (by simpa [sameLength]) within
    have kind := getElem?_wordsFrom_kind cursor.source cursor.previous cursor.ahead distance
    rw [List.getElem?_eq_getElem (by simpa [sameLength] using within),
      List.getElem?_eq_getElem (by omega), Option.map_some, Option.map_some,
      Option.some_inj] at kind
    rw [List.getElem?_eq_getElem within, List.getD_eq_getElem _ _ (by omega), ← kind]
    exact fits.1
  · rw [List.getElem?_eq_none (by omega), List.getD_eq_default _ _ (by omega)]
    exact reachable.ends.1

/-- Some words are spelled if the first token ahead fits the first of them, and the tokens after it
spell the others. -/
lemma cons_iff {word : Word} :
    cursor.Spells (word :: words) ↔
      ∃ token rest, cursor.ahead = token :: rest ∧
        Word.Fits ⟨token.kind, token.lexeme,
          Text.slice? cursor.source cursor.previous.span.stop token.span.start⟩ word ∧
        List.Forall₂ Word.Fits (wordsFrom cursor.source token rest) words := by
  unfold Spells
  cases ahead : cursor.ahead with
  | nil => simp [wordsFrom]
  | cons token rest => simp [wordsFrom]

/-- After the first word has been taken, the others are spelled. -/
lemma advance {word : Word} (spells : cursor.Spells (word :: words)) :
    cursor.advance.Spells words := by
  obtain ⟨token, rest, ahead, -, others⟩ := cons_iff.mp spells
  unfold Spells Cursor.advance
  simpa [ahead] using others

/-- The next token is the first word. -/
lemma current {word : Word} (spells : cursor.Spells (word :: words)) :
    cursor.current.kind = word.kind ∧ cursor.current.lexeme = word.lexeme := by
  obtain ⟨token, rest, ahead, fits, -⟩ := cons_iff.mp spells
  simpa [Cursor.current, Cursor.peek, ahead] using ⟨fits.1, fits.2.1⟩

end Spells

end Cursor

/-! ## The words of pieces -/

namespace Render

/-- The words that a piece is to be read as. -/
def Piece.words (drift : Bool) : Piece → List Word
  | .blank | .lineEnd => []
  | .keyword word => [.ofKeyword word]
  | .symbol which => [.ofSymbol which]
  | .name written => [.ofName written]
  | .functionName written => [.ofFunctionName written]
  | .literal value => [.ofLiteral value]
  | .variable which => [.ofVariable which]
  | .dart code => [.ofDart code]
  | .verbatim source => (Cursor.ofSource drift source).words

/-- The words that pieces are to be read as. -/
def wordsOf (drift : Bool) (pieces : List Piece) : List Word :=
  pieces.flatMap (Piece.words drift)

section

variable (drift : Bool) (pieces rest : List Piece)

/-- No pieces have no words. -/
@[simp] lemma wordsOf_nil : wordsOf drift [] = [] := rfl

/-- Pieces have the words of their parts. -/
@[simp] lemma wordsOf_append :
    wordsOf drift (pieces ++ rest) = wordsOf drift pieces ++ wordsOf drift rest :=
  List.flatMap_append

/-- A blank is no word. -/
@[simp] lemma wordsOf_blank : wordsOf drift (.blank :: rest) = wordsOf drift rest := rfl

/-- The end of a line is no word. -/
@[simp] lemma wordsOf_lineEnd : wordsOf drift (.lineEnd :: rest) = wordsOf drift rest := rfl

/-- A keyword is a word. -/
@[simp] lemma wordsOf_keyword (word : Keyword) :
    wordsOf drift (.keyword word :: rest) = .ofKeyword word :: wordsOf drift rest := rfl

/-- A symbol is a word. -/
@[simp] lemma wordsOf_symbol (which : Symbol) :
    wordsOf drift (.symbol which :: rest) = .ofSymbol which :: wordsOf drift rest := rfl

/-- A name is a word. -/
@[simp] lemma wordsOf_name (written : String) :
    wordsOf drift (.name written :: rest) = .ofName written :: wordsOf drift rest := rfl

/-- The name of a function is a word. -/
@[simp] lemma wordsOf_functionName (written : String) :
    wordsOf drift (.functionName written :: rest) =
      .ofFunctionName written :: wordsOf drift rest := rfl

/-- A literal is a word. -/
@[simp] lemma wordsOf_literal (value : Literal) :
    wordsOf drift (.literal value :: rest) = .ofLiteral value :: wordsOf drift rest := rfl

/-- A variable is a word. -/
@[simp] lemma wordsOf_variable (which : Variable) :
    wordsOf drift (.variable which :: rest) = .ofVariable which :: wordsOf drift rest := rfl

/-- Code in Dart is a word. -/
@[simp] lemma wordsOf_dart (code : String) :
    wordsOf drift (.dart code :: rest) = .ofDart code :: wordsOf drift rest := rfl

/-- A text that is printed as it is has the words of its tokens. -/
@[simp] lemma wordsOf_verbatim (source : String) :
    wordsOf drift (.verbatim source :: rest) =
      (Cursor.ofSource drift source).words ++ wordsOf drift rest := rfl

end

end Render

end SqlTree
