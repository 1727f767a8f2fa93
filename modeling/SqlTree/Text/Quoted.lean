set_option autoImplicit false

/-!
# Text between quotes

Inside single and double quotes a quote is written twice. Brackets and backticks around a text are
taken off without looking inside.

## Main definitions

* `SqlTree.Text.quoted` — text between quotes.
* `SqlTree.Text.unquoted` — text without the quotes around it.
-/

namespace SqlTree.Text

/-- The characters between quotes; a quote among them is doubled. -/
def quoted (quote : Char) (chars : List Char) : List Char :=
  quote :: (chars.flatMap fun c => if c = quote then [quote, quote] else [c]) ++ [quote]

/-- The characters with one quote for every two that stand together, from the left. -/
def undoubled (quote : Char) : List Char → List Char
  | a :: b :: rest =>
    if a = quote ∧ b = quote then quote :: undoubled quote rest
    else a :: undoubled quote (b :: rest)
  | chars => chars

/-- What stands between `first` and `last` at the two ends of a text. -/
def between? (first last : Char) (chars : List Char) : Option (List Char) :=
  match chars with
  | a :: b :: rest =>
    if a = first ∧ (b :: rest).getLast? = some last then some (b :: rest).dropLast else none
  | _ => none

/-- The text without the quotes around it, if it stands between quotes of one kind. -/
def unquoted (chars : List Char) : List Char :=
  match between? '\'' '\'' chars with
  | some inner => undoubled '\'' inner
  | none =>
    match between? '"' '"' chars with
    | some inner => undoubled '"' inner
    | none =>
      ((between? '[' ']' chars).or (between? '\x60' '\x60' chars)).getD chars

end SqlTree.Text
