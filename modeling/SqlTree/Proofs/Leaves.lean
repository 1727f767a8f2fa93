import SqlTree.Proofs.Decimal.Doubles
import SqlTree.Proofs.Legible.Verbatim
import SqlTree.Proofs.Spacing

set_option autoImplicit false

/-!
# The leaves of trees are written as one token each

Names, literals and variables are written such that the scanner reads one token from their text,
with the value that was written, and nothing else. Names are quoted where they would be read
otherwise, negative integers are words in two's complement, and the numerals of doubles read back.

## Main definitions

* `SqlTree.IsOneToken` — a text is one token of a kind, and then it ends.

## Main results

* `SqlTree.Render.tokenize_leaves` — leaves are scanned as themselves.
-/

namespace SqlTree

/-- The text is one token of this kind, and then it ends. -/
def IsOneToken (drift : Bool) (text : String) (kind : TokenKind) : Prop :=
  (tokenize drift text).map Token.content = [(kind, text), (.endOfInput, "")]

section

variable {drift : Bool} {text : String} {kind : TokenKind}

/-- A text that consists of one token is one token. -/
lemma IsOneToken.of_isWhole {chars : List Char}
    (isWhole : IsWhole drift text [⟨[], kind, chars⟩]) : IsOneToken drift text kind := by
  have lexeme : String.ofList chars = text := by
    have whole := isWhole.whole
    rw [← String.toList_inj, String.toList_ofList]
    simpa using whole
  have contents := isWhole.lexes.contents
  rw [List.map_singleton, Lexed.content, Lexed.lexeme, lexeme] at contents
  exact contents

/-- A text that is a token when it stands alone is one token. -/
lemma IsOneToken.of_alone (alone : Alone drift text.toList kind) : IsOneToken drift text kind :=
  .of_isWhole alone.isWhole

/-- A piece that is legible before the end of a text is one token. -/
lemma IsOneToken.of_legible {next : Char → Prop} (piece : Render.Piece)
    (legible : Render.LegibleBefore drift next [piece])
    (words : piece.words drift = [⟨kind, piece.text, none⟩]) :
    IsOneToken drift piece.text kind := by
  have scans := legible Scans.nil (by simp)
  obtain ⟨⟨list, lexes, fits⟩, -⟩ := scans
  have toList : (Render.text [piece]).toList ++ [] = piece.text.toList := by simp
  rw [Render.wordsOf, List.flatMap_singleton, words, List.append_nil] at fits
  rw [toList] at lexes
  unfold IsOneToken
  rw [lexes.contents]
  cases list with
  | nil => exact absurd fits (by simp)
  | cons first rest =>
    rw [List.map_cons, List.forall₂_cons] at fits
    obtain ⟨⟨kind, lexeme, -⟩, rest⟩ := fits
    rw [List.forall₂_nil_right_iff, List.map_eq_nil_iff] at rest
    rw [rest, List.map_singleton, Lexed.content, Lexed.lexeme]
    exact congrArg₂ (fun kind lexeme => [(kind, lexeme), (TokenKind.endOfInput, "")]) kind lexeme

/-- A name is written as one token. -/
lemma IsOneToken.of_name (name : String) :
    IsOneToken drift (Render.nameText name) (.identifier name) :=
  of_legible (.name name) (Render.legible_name name) rfl

/-- A variable is written as one token. -/
lemma IsOneToken.of_variable {which : Variable} (isWritten : which.IsWritten) :
    IsOneToken drift which.text (.variable which) :=
  of_legible (.variable which) (Render.legible_variable isWritten) rfl

end

namespace Literal

/-- Negative integers are written as the sixteen digits of their words. -/
lemma text_negative {value : Int64} (negative : value < 0) : ∃ digits : List Char,
    (integer value).text = "0x" ++ String.ofList digits ∧ digits.length = 16 ∧
      Text.hexValue digits = value.toUInt64.toNat := by
  refine ⟨_, if_pos negative, ?_, (upper_toDigits _).2⟩
  have low : 2 ^ 63 ≤ value.toUInt64.toNat := by
    rw [Int64.lt_iff_toInt_lt] at negative
    have same : value.toUInt64.toBitVec.toInt < 0 := negative
    rw [BitVec.toInt_neg_iff] at same
    change 2 ^ 64 ≤ 2 * value.toUInt64.toNat at same
    omega
  have high := value.toUInt64.toNat_lt
  rw [List.length_map]
  refine Nat.le_antisymm ((Nat.length_toDigits_le_iff (by omega) (by omega)).mpr high) ?_
  by_contra short
  have := (Nat.length_toDigits_le_iff (b := 16) (n := value.toUInt64.toNat) (k := 15)
    (by omega) (by omega)).mp (by omega)
  omega

end Literal

namespace Render

/-- **Leaves are scanned as themselves.** Whatever name, string, bytes, integer, number or name of a
variable is written, in both modes its text is one token with this value. The doubles are those
without a sign that are finite or infinite; there is no assumption on how they are written. -/
theorem tokenize_leaves (drift : Bool) :
    (∀ name, IsOneToken drift (nameText name) (.identifier name)) ∧
    (∀ value, IsOneToken drift (Literal.string value).text (.string value)) ∧
    (∀ bytes, IsOneToken drift (Literal.blob bytes).text (.blob bytes)) ∧
    (∀ value : Int64, IsOneToken drift (Literal.integer value).text (.integer value) ∧
      (value < 0 → ∃ digits : List Char,
        (Literal.integer value).text = "0x" ++ String.ofList digits ∧ digits.length = 16 ∧
          Text.hexValue digits = value.toUInt64.toNat)) ∧
    (∀ index, 0 < index → index < 2 ^ 32 →
      IsOneToken drift (Variable.numbered index).text (.variable (.numbered index))) ∧
    (∀ sigil name, name.toList ≠ [] → (∀ c ∈ name.toList, isIdentifierChar c = true) →
      IsOneToken drift (Variable.named sigil name).text (.variable (.named sigil name))) ∧
    (∀ value : Float, value.toBits.toNat ≤ Decimal.infinityBits →
      IsOneToken drift (Literal.float value).text (.float value)) := by
  refine ⟨fun name => ?_, fun value => ?_, fun bytes => ?_, fun value => ⟨?_, fun negative => ?_⟩,
    fun index pos small => ?_, fun sigil name some all => ?_, fun value plain => ?_⟩
  · exact .of_name name
  · exact .of_alone (Literal.alone_string value)
  · exact .of_alone (Literal.alone_blob bytes)
  · exact .of_alone (Literal.alone_integer value)
  · exact Literal.text_negative negative
  · exact .of_variable ⟨pos, small⟩
  · exact .of_variable ⟨some, all⟩
  · exact .of_alone (Literal.alone_float plain)

/-- A name of quotes and a keyword, the least integer, a variable, and a numeral without a short
double. -/
theorem tokenize_leaves_tenth :
    IsOneToken true "\"a\"\"select \"" (.identifier "a\"select ") ∧
    ((-0x8000000000000000 : Int64) < 0 ∧ ∃ digits : List Char,
      (Literal.integer (-0x8000000000000000)).text = "0x" ++ String.ofList digits ∧
        digits.length = 16 ∧ Text.hexValue digits = 0x8000000000000000) ∧
    (0 < 4294967295 ∧ 4294967295 < 2 ^ 32 ∧
      IsOneToken true "?4294967295" (.variable (.numbered 4294967295))) ∧
    ("id$1".toList ≠ [] ∧ (∀ c ∈ "id$1".toList, isIdentifierChar c = true) ∧
      IsOneToken true "$id$1" (.variable (.named .dollar "id$1"))) ∧
    ((0.1 : Float).toBits.toNat ≤ Decimal.infinityBits ∧ IsOneToken true "0.1" (.float 0.1)) := by
  obtain ⟨names, -, -, integers, numbered, named, floats⟩ := tokenize_leaves true
  have first := names "a\"select "
  have quoted : nameText "a\"select " = "\"a\"\"select \"" := by decide +kernel
  have negative : (-0x8000000000000000 : Int64) < 0 := by decide
  have all : ∀ c ∈ "id$1".toList, isIdentifierChar c = true :=
    List.all_eq_true.mp (by decide +kernel)
  have small : (0.1 : Float).toBits.toNat ≤ Decimal.infinityBits := by decide +kernel
  have last := floats 0.1 small
  have tenth : (Literal.float 0.1).text = "0.1" := by decide +kernel
  rw [quoted] at first
  rw [tenth] at last
  exact ⟨first, ⟨negative, (integers _).2 negative⟩,
    ⟨by omega, by omega, numbered 4294967295 (by omega) (by omega)⟩,
    ⟨by simp, all, named .dollar "id$1" (by simp) all⟩, small, last⟩

end Render

end SqlTree
