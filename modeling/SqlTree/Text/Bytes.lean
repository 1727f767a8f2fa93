set_option autoImplicit false

/-!
# Cutting text by byte offsets

Offsets into source text count the bytes of its UTF-8 form. A cut is defined only where both of
its ends fall between two characters.

## Main definitions

* `SqlTree.Text.dropBytes?`, `SqlTree.Text.takeBytes?` — what follows the first bytes, and the
  first bytes themselves.
* `SqlTree.Text.slice?` — the text between two byte offsets.
-/

namespace SqlTree.Text

/-- The characters after the first `count` bytes, if a character ends there. -/
def dropBytes? : List Char → Nat → Option (List Char)
  | chars, 0 => some chars
  | [], _ + 1 => none
  | c :: rest, count + 1 =>
    if c.utf8Size ≤ count + 1 then dropBytes? rest (count + 1 - c.utf8Size) else none

/-- The characters that fill the first `count` bytes exactly. -/
def takeBytes? : List Char → Nat → Option (List Char)
  | _, 0 => some []
  | [], _ + 1 => none
  | c :: rest, count + 1 =>
    if c.utf8Size ≤ count + 1 then
      (takeBytes? rest (count + 1 - c.utf8Size)).map (c :: ·)
    else
      none

/-- The text from byte `start` to byte `stop`, if both lie between characters of `text` and
`start` does not come after `stop`. -/
def slice? (text : String) (start stop : Nat) : Option String :=
  if start ≤ stop then
    ((dropBytes? text.toList start).bind (takeBytes? · (stop - start))).map String.ofList
  else
    none

end SqlTree.Text
