import SqlTree.Proofs.Lexing

set_option autoImplicit false

/-!
# Written text is scanned into its words

What pieces are written as is scanned into the words that the pieces stand for. Each piece is
scanned into its own words where no character after it goes on with it, so most of what matters is
what may stand directly after what.

## Main definitions

* `SqlTree.Scans` — a text is scanned into words.
* `SqlTree.Render.LegibleBefore`, `SqlTree.Render.Legible` — pieces are scanned into their words,
  whatever stands after them.
* `SqlTree.Render.Trailing` — such pieces may stand after others.

## Main results

* `SqlTree.Scans.spells` — a source that is scanned into words spells them.
* `SqlTree.Render.Legible.append` — pieces one after the other.
-/

namespace SqlTree

/-! ## Texts and words -/

/-- A text is cut into tokens that fit these words, with any gap before the first one. -/
structure Scans (drift : Bool) (chars : List Char) (words : List Word) : Prop where
  lexes : ∃ list, Lexes drift chars list ∧ List.Forall₂ Word.Fits (list.map Lexed.word) words
  loose : ∀ word ∈ words.head?, word.gap = none

/-- The text is one token. -/
structure Alone (drift : Bool) (chars : List Char) (kind : TokenKind) : Prop where
  starts : gapLength chars = 0
  scan : ∃ first tail, chars = first :: tail ∧ scanToken drift first tail = ⟨kind, tail.length⟩
  closed : kind.isOpen = false

namespace Scans

variable {drift : Bool} {chars rest : List Char} {words : List Word}

/-- No characters are scanned to no words. -/
lemma nil : Scans drift [] [] :=
  ⟨⟨[], .ends .nil, .nil⟩, by simp⟩

/-- A blank in front makes no difference. -/
lemma blank {c : Char} (isBlank : Text.isBlank c = true) (scans : Scans drift chars words) :
    Scans drift (c :: chars) words := by
  obtain ⟨⟨list, lexes, fits⟩, loose⟩ := scans
  refine ⟨?_, loose⟩
  cases lexes with
  | ends isGap => exact ⟨[], .ends (.blank isBlank isGap), fits⟩
  | token isGap starts scan later =>
    refine ⟨_, .token (.blank isBlank isGap) starts scan later, ?_⟩
    cases fits with
    | cons first others =>
      exact .cons ⟨first.1, first.2.1, .inl (loose _ rfl)⟩ others

/-- A token in front is a word. -/
lemma token {first : Char} {tail : List Char} {kind : TokenKind}
    (starts : gapLength (first :: (tail ++ rest)) = 0)
    (scan : scanToken drift first (tail ++ rest) = ⟨kind, tail.length⟩)
    (scans : Scans drift rest words) :
    Scans drift (first :: (tail ++ rest))
      (⟨kind, String.ofList (first :: tail), none⟩ :: words) := by
  obtain ⟨⟨list, lexes, fits⟩, -⟩ := scans
  exact ⟨⟨_, .token .nil starts scan lexes, .cons ⟨rfl, rfl, .inl rfl⟩ fits⟩, by simp⟩

/-- **A source that is scanned into words** spells them. -/
lemma spells {source : String} (scans : Scans drift source.toList words) :
    (Cursor.ofSource drift source).Spells words := by
  obtain ⟨⟨list, lexes, fits⟩, loose⟩ := scans
  have same := (Cursor.Sees.ofSource lexes).words
  unfold Cursor.words at same
  unfold Cursor.Spells
  cases ahead : (Cursor.ofSource drift source).ahead with
  | nil =>
    rw [ahead] at same
    cases list with
    | nil => exact fits
    | cons lexed list => exact absurd same (by simp [Lexed.words])
  | cons token others =>
    rw [ahead] at same
    cases list with
    | nil => exact absurd same (by simp [Lexed.words])
    | cons lexed list =>
      obtain ⟨here, later⟩ := List.cons_eq_cons.mp same
      cases fits with
      | cons first fits =>
        rw [wordsFrom, later]
        obtain ⟨kind, lexeme, -⟩ := Word.mk.inj here
        exact .cons ⟨kind.trans first.1, lexeme.trans first.2.1, .inl (loose _ rfl)⟩ fits

end Scans

namespace Alone

variable {drift : Bool} {chars rest : List Char} {kind : TokenKind} {words : List Word}

/-- A token is scanned as it is alone before what does not go on with it. -/
lemma scans (alone : Alone drift chars kind) (ends : ∀ c ∈ rest.head?, Inert c)
    (scans : Scans drift rest words) :
    Scans drift (chars ++ rest) (⟨kind, String.ofList chars, none⟩ :: words) := by
  obtain ⟨starts, ⟨first, tail, rfl, scan⟩, closed⟩ := alone
  have releases : Releases [] rest := .inr ends
  have starts : gapLength (first :: (tail ++ [])) = 0 := by rwa [List.append_nil]
  have scan : scanToken drift first (tail ++ []) = ⟨kind, tail.length⟩ := by rwa [List.append_nil]
  exact .token (gapLength_cut starts releases)
    (scanToken_cut scan releases fun isOpen => absurd isOpen (by simp [closed])) scans

end Alone

/-! ## Pieces -/

namespace Render

/-- The characters of pieces are those of each, in a row. -/
lemma text_toList (pieces : List Piece) :
    (text pieces).toList = pieces.flatMap fun piece => piece.text.toList := by
  induction pieces with
  | nil => rfl
  | cons piece rest ih => simpa [text] using ih

/-- Pieces are scanned into their words, whatever text stands after them, as long as it starts with
such a character. -/
def LegibleBefore (drift : Bool) (next : Char → Prop) (pieces : List Piece) : Prop :=
  ∀ ⦃rest words⦄, Scans drift rest words → (∀ c ∈ rest.head?, next c) →
    Scans drift ((text pieces).toList ++ rest) (wordsOf drift pieces ++ words)

/-- Pieces are scanned into their words before any text that does not go on with the last of
them. -/
abbrev Legible (drift : Bool) (pieces : List Piece) : Prop :=
  LegibleBefore drift Inert pieces

/-- Pieces that may stand after others: they do not go on with the last token before them. -/
structure Trailing (drift : Bool) (pieces : List Piece) : Prop where
  legible : Legible drift pieces
  starts : ∀ c ∈ (text pieces).toList.head?, Inert c

section

variable {drift : Bool} {next next' : Char → Prop} {pieces others : List Piece}

/-- No pieces have no characters. -/
@[simp] lemma toList_text_nil : (text []).toList = [] := rfl

/-- The characters of a piece come before those of the others. -/
@[simp] lemma toList_text_cons (piece : Piece) :
    (text (piece :: pieces)).toList = piece.text.toList ++ (text pieces).toList := by
  simp [text_toList]

/-- The characters of two lists of pieces stand in a row. -/
@[simp] lemma toList_text_append :
    (text (pieces ++ others)).toList = (text pieces).toList ++ (text others).toList := by
  simp [text_toList]

/-! ### Sequences of pieces -/

namespace LegibleBefore

/-- No pieces are legible before anything. -/
lemma nil : LegibleBefore drift next [] :=
  fun _ _ scans _ => scans

/-- Pieces are legible before less. -/
lemma mono (legible : LegibleBefore drift next pieces) (weaker : ∀ c, next' c → next c) :
    LegibleBefore drift next' pieces :=
  fun _ _ scans ends => legible scans fun c head => weaker c (ends c head)

/-- Pieces one after the other, where the first ones may stand before the others. -/
lemma append (first : LegibleBefore drift next pieces) (second : LegibleBefore drift next' others)
    (meets : ∀ rest : List Char, (∀ c ∈ rest.head?, next' c) →
      ∀ c ∈ ((text others).toList ++ rest).head?, next c) :
    LegibleBefore drift next' (pieces ++ others) := by
  intro rest words scans ends
  have whole := first (second scans ends) (meets rest ends)
  simpa [List.append_assoc] using whole

/-- A piece before others, where it may stand before them. -/
lemma cons {piece : Piece} (first : LegibleBefore drift next [piece])
    (second : LegibleBefore drift next' others)
    (meets : ∀ rest : List Char, (∀ c ∈ rest.head?, next' c) →
      ∀ c ∈ ((text others).toList ++ rest).head?, next c) :
    LegibleBefore drift next' (piece :: others) := by
  have whole : LegibleBefore drift next' ([piece] ++ others) := append first second meets
  exact whole

end LegibleBefore

/-- The first character of two texts in a row is that of the first, or of the second. -/
lemma head_append {chars rest : List Char} (starts : ∀ c ∈ chars.head?, next c)
    (ends : ∀ c ∈ rest.head?, next c) : ∀ c ∈ (chars ++ rest).head?, next c := by
  cases chars with
  | nil => exact ends
  | cons => exact starts

/-- **Pieces that are legible** are so before pieces that may stand after others. -/
lemma Legible.append (first : Legible drift pieces) (second : Trailing drift others) :
    Legible drift (pieces ++ others) :=
  LegibleBefore.append first second.legible fun _ ends => head_append second.starts ends

/-- A legible piece before trailing ones is legible with them. -/
lemma Legible.cons {piece : Piece} (first : Legible drift [piece])
    (second : Trailing drift pieces) : Legible drift (piece :: pieces) :=
  first.append second

namespace Trailing

/-- No pieces trail. -/
lemma nil : Trailing drift [] :=
  ⟨.nil, by simp⟩

/-- Two trailing lists of pieces in a row trail. -/
lemma append (first : Trailing drift pieces) (second : Trailing drift others) :
    Trailing drift (pieces ++ others) :=
  ⟨.append first.legible second, by
    rw [toList_text_append]
    exact head_append first.starts second.starts⟩

/-- The pieces of a list trail, if those of each part do. -/
lemma flatMap {α : Type} {list : List α} {part : α → List Piece}
    (each : ∀ value ∈ list, Trailing drift (part value)) : Trailing drift (list.flatMap part) := by
  induction list with
  | nil => exact nil
  | cons first rest ih =>
    rw [List.flatMap_cons]
    exact (each _ List.mem_cons_self).append
      (ih fun value mem => each _ (List.mem_cons_of_mem _ mem))

end Trailing

end

end Render

end SqlTree
