import SqlTree.Text.CharClass

set_option autoImplicit false

/-!
# Words between blanks

## Main definitions

* `SqlTree.Text.trim` — text without the blanks at both ends.
* `SqlTree.Text.words` — the stretches of text between blanks.
* `SqlTree.Text.cutAt?` — the text before and after a character.
-/

namespace SqlTree.Text

/-- The characters without the blanks at both ends. -/
def trim (chars : List Char) : List Char :=
  ((chars.dropWhile isBlank).reverse.dropWhile isBlank).reverse

/-- The stretches of characters between blanks, the first of which may be empty. -/
def stretches : List Char → List (List Char)
  | [] => [[]]
  | c :: rest =>
    match stretches rest with
    | first :: others => if isBlank c then [] :: first :: others else (c :: first) :: others
    | [] => [[c]]

/-- The words of a text: its stretches of one or more characters between blanks. -/
def words (chars : List Char) : List (List Char) :=
  (stretches chars).filter (!·.isEmpty)

/-- The characters before and after the first occurrence of a character. -/
def cutAt? (mark : Char) (chars : List Char) : Option (List Char × List Char) :=
  match chars.dropWhile (· ≠ mark) with
  | [] => none
  | _ :: rest => some (chars.takeWhile (· ≠ mark), rest)

end SqlTree.Text
