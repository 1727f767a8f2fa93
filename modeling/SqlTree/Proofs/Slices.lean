import Mathlib.Logic.Function.Iterate
import SqlTree.Proofs.Lossless
import SqlTree.Text.Quoted

set_option autoImplicit false

/-!
# Slices of the source

A slice of a text is there exactly if its ends are between characters, in this order. The values of
tokens are read from inside their lexemes, where the marks around a value have one byte each. The
line and the column of a place are at most one more than the number of bytes before it.

## Main definitions

* `SqlTree.Text.IsPlace` — an offset between two characters of a text.
* `SqlTree.TokenKind.Spells` — how a value is written inside the text of its token.
* `SqlTree.Token.ReadsFrom` — the value of a token is in the source between its marks.

## Main results

* `SqlTree.Text.slice?_eq_some_iff` — which slices of a text there are.
* `SqlTree.Token.readsFrom_tokenize` — the values of the tokens of a source are in the source.
* `SqlTree.Position.counters_le` — lines and columns are bounded by bytes.
* `SqlTree.Text.between?_eq_slice?` — text between quotes is a slice.
-/

namespace SqlTree

/-! ## Which slices there are -/

namespace Text

/-- If bytes could be dropped, they are those of the first characters. -/
lemma dropBytes?_eq_some {chars rest : List Char} {count : Nat}
    (eq : dropBytes? chars count = some rest) :
    ∃ before, chars = before ++ rest ∧ byteLength before = count := by
  induction chars generalizing count with
  | nil =>
    cases count with
    | zero => exact ⟨[], by simpa [dropBytes?] using eq, rfl⟩
    | succ count => simp [dropBytes?] at eq
  | cons c chars ih =>
    cases count with
    | zero => exact ⟨[], by simpa [dropBytes?] using eq, rfl⟩
    | succ count =>
      rw [dropBytes?] at eq
      split at eq
      · next fits =>
        obtain ⟨before, rfl, length⟩ := ih eq
        exact ⟨c :: before, rfl, by rw [byteLength_cons]; omega⟩
      · simp at eq

/-- If bytes could be taken, they are those of the first characters. -/
lemma takeBytes?_eq_some {chars inside : List Char} {count : Nat}
    (eq : takeBytes? chars count = some inside) :
    ∃ rest, chars = inside ++ rest ∧ byteLength inside = count := by
  induction chars generalizing count inside with
  | nil =>
    cases count with
    | zero => exact ⟨[], by simpa [takeBytes?] using eq, by simp_all [takeBytes?]⟩
    | succ count => simp [takeBytes?] at eq
  | cons c chars ih =>
    cases count with
    | zero =>
      obtain rfl : [] = inside := by simpa [takeBytes?] using eq
      exact ⟨c :: chars, rfl, rfl⟩
    | succ count =>
      rw [takeBytes?] at eq
      split at eq
      · next fits =>
        obtain ⟨tail, taken, rfl⟩ := Option.map_eq_some_iff.mp eq
        obtain ⟨rest, rfl, length⟩ := ih taken
        exact ⟨rest, rfl, by rw [byteLength_cons]; omega⟩
      · simp at eq

/-- **A slice is there exactly if the text is made up of what is before it, the slice, and a
rest.** -/
lemma slice?_eq_some_iff {source text : String} {start stop : Nat} :
    slice? source start stop = some text ↔
      ∃ before rest, source.toList = before ++ (text.toList ++ rest) ∧
        start = byteLength before ∧ stop = byteLength (before ++ text.toList) := by
  constructor
  · intro eq
    unfold slice? at eq
    split at eq
    · next le =>
      obtain ⟨inside, taken, rfl⟩ := Option.map_eq_some_iff.mp eq
      obtain ⟨later, drop, take⟩ := Option.bind_eq_some_iff.mp taken
      obtain ⟨before, whole, length⟩ := dropBytes?_eq_some drop
      obtain ⟨rest, rfl, length'⟩ := takeBytes?_eq_some take
      refine ⟨before, rest, by simpa using whole, length.symm, ?_⟩
      rw [String.toList_ofList, byteLength_append]
      omega
    · simp at eq
  · rintro ⟨before, rest, whole, rfl, rfl⟩
    simpa using slice?_append source before text.toList rest whole

/-- The offset is between two characters of the text, or at one of its ends. -/
def IsPlace (text : String) (offset : Nat) : Prop :=
  ∃ before rest, text.toList = before ++ rest ∧ offset = byteLength before

/-- A slice starts and ends between characters. -/
lemma isPlace_of_slice? {source text : String} {start stop : Nat}
    (eq : slice? source start stop = some text) : IsPlace source start ∧ IsPlace source stop := by
  obtain ⟨before, rest, whole, rfl, rfl⟩ := slice?_eq_some_iff.mp eq
  exact ⟨⟨before, _, whole, rfl⟩, ⟨before ++ text.toList, rest, by simpa using whole, rfl⟩⟩

/-- Between two places there is a slice. -/
lemma IsPlace.slice? {source : String} {start stop : Nat} (first : IsPlace source start)
    (last : IsPlace source stop) (le : start ≤ stop) : ∃ text, slice? source start stop = some text
    := by
  obtain ⟨before, rest, whole, rfl⟩ := first
  obtain ⟨before', rest', whole', rfl⟩ := last
  rcases List.append_eq_append_iff.mp (whole.symm.trans whole') with
    ⟨inside, rfl, rfl⟩ | ⟨inside, rfl, rfl⟩
  · exact ⟨_, slice?_append source before inside rest' (by simpa using whole')⟩
  · -- the second place is not after the first one, so they are the same
    have empty : byteLength inside = 0 := by
      rw [byteLength_append] at le
      omega
    obtain rfl : inside = [] :=
      Decidable.byContradiction fun more => absurd empty (Nat.ne_of_gt (byteLength_pos more))
    rw [List.append_nil] at whole ⊢
    exact ⟨_, by simpa using slice?_append source before' [] rest (by simpa using whole)⟩

/-- A slice without the characters at its ends is a slice. -/
lemma slice?_inside {source text : String} {start stop skip drop : Nat}
    {first inside last : List Char} (eq : slice? source start stop = some text)
    (parts : text.toList = first ++ (inside ++ last)) (skips : byteLength first = skip)
    (drops : byteLength last = drop) :
    slice? source (start + skip) (stop - drop) = some (String.ofList inside) := by
  obtain ⟨before, rest, whole, rfl, rfl⟩ := slice?_eq_some_iff.mp eq
  rw [parts] at whole ⊢
  have cut := slice?_append source (before ++ first) inside (last ++ rest) (by simpa using whole)
  have length : byteLength (before ++ (first ++ (inside ++ last))) - drop =
      byteLength (before ++ first ++ inside) := by
    simp only [byteLength_append]
    omega
  rw [length, ← skips, ← byteLength_append]
  exact cut

end Text

/-! ## How values are written -/

/-- How the value of a token is written inside its text. The marks around it have one byte each. -/
def TokenKind.Spells (kind : TokenKind) (text : List Char) : Prop :=
  match kind with
  | .inlineDart code => text = '\x60' :: (code.toList ++ ['\x60'])
  | .blob _ | .malformed .invalidBlobDigit | .malformed .oddBlobDigits =>
    ∃ mark digits, mark.utf8Size = 1 ∧ text = [mark, '\''] ++ (digits ++ ['\'']) ∧
      blobKind digits = kind
  | .variable (.named sigil name) => text = sigil.char :: name.toList
  | .variable (.numbered index) =>
    ∃ digits, text = '?' :: digits ∧ Text.decimalValue digits = index
  | .malformed .variableNumber => ∃ digits, text = '?' :: digits
  | _ => True

section

variable {drift : Bool} {first : Char} {rest : List Char}

/-- What is read up to a closing quote ends with it, and without doubled quotes the value is what
stands before it. -/
lemma take_scanQuoted {close : Char} {value : List Char} {count : Nat}
    (found : scanQuoted close false rest = some (value, count)) :
    rest.take count = value ++ [close] := by
  induction rest generalizing value count with
  | nil => simp [scanQuoted] at found
  | cons c rest ih =>
    rw [scanQuoted.eq_def] at found
    dsimp only at found
    split at found
    · next closes =>
      have pair : [] = value ∧ 1 = count := by
        cases rest <;> simpa using found
      obtain ⟨rfl, rfl⟩ := pair
      simp [closes]
    · obtain ⟨⟨tail, read⟩, later, eq⟩ := Option.map_eq_some_iff.mp found
      obtain ⟨rfl, rfl⟩ : c :: tail = value ∧ read + 1 = count := by simpa using eq
      rw [List.take_succ_cons, ih later, List.cons_append]

/-- The characters up to the first that fails a test are those that pass it. -/
lemma take_takeWhile (test : Char → Bool) (chars : List Char) :
    chars.take (chars.takeWhile test).length = chars.takeWhile test :=
  (List.prefix_iff_eq_take.mp (List.takeWhile_prefix test)).symm

/-- A number is read from its text. -/
lemma scanNumber_spells (text : List Char) : (scanNumber first rest).kind.Spells text := by
  have decimal (chars : List Char) : (scanDecimal chars).1.Spells text := by
    unfold scanDecimal
    dsimp only
    split_ifs <;> trivial
  have hex (chars : List Char) : (scanHex chars).1.Spells text := by
    unfold scanHex
    dsimp only
    split_ifs <;> trivial
  unfold scanNumber
  dsimp only
  split
  · split_ifs
    · exact hex _
    · exact decimal _
  · exact decimal _

/-- A token of any other kind is read from its text. -/
lemma scanOther_spells (text : List Char) :
    (scanToken.scanOther first rest).kind.Spells text := by
  unfold scanToken.scanOther
  split_ifs
  · exact scanNumber_spells text
  · unfold scanWord
    dsimp only
    split <;> trivial
  · trivial

/-- A named variable is its sigil and its name. -/
lemma scanNamed_spells {sigil : Sigil} {alone : TokenKind}
    (other : ∀ text, alone.Spells text) :
    (scanNamed sigil alone rest).kind.Spells
      (sigil.char :: rest.take (scanNamed sigil alone rest).tail) := by
  unfold scanNamed
  dsimp only
  split_ifs
  · exact other _
  · simp [TokenKind.Spells, take_takeWhile]

/-- A numbered variable is its question mark and its digits. -/
lemma scanQuestion_spells :
    (scanQuestion rest).kind.Spells ('?' :: rest.take (scanQuestion rest).tail) := by
  unfold scanQuestion
  dsimp only
  split_ifs
  · trivial
  · exact ⟨_, rfl, by rw [take_takeWhile]⟩
  · exact ⟨_, rfl⟩

/-- A quoted token is read from its text, if its value and its error are. -/
lemma scanQuotedToken_spells {close : Char} {doubling : Bool} {error : LexicalError}
    {make : List Char → TokenKind} (text : List Char) (made : ∀ value, (make value).Spells text)
    (failed : (TokenKind.malformed error).Spells text) :
    (scanQuotedToken close doubling error make rest).kind.Spells text := by
  unfold scanQuotedToken
  split
  · exact made _
  · exact failed

/-- Dart code stands between backticks. -/
lemma scanDart_spells :
    let scanned := scanQuotedToken '\x60' false .unterminatedDart
      (fun code => .inlineDart (String.ofList code)) rest
    scanned.kind.Spells ('\x60' :: rest.take scanned.tail) := by
  unfold scanQuotedToken
  split
  · next value count found =>
    dsimp only [TokenKind.Spells]
    rw [take_scanQuoted found, String.toList_ofList]
  · trivial

/-- The digits of a blob stand between its mark with a quote and another quote. -/
lemma scanBlob_spells {mark : Char} (single : mark.utf8Size = 1) :
    let scanned := scanQuotedToken '\'' false .unterminatedBlob blobKind rest
    scanned.kind.Spells (mark :: '\'' :: rest.take scanned.tail) := by
  unfold scanQuotedToken
  split
  · next digits count found =>
    dsimp only
    rw [take_scanQuoted found]
    have written : ∃ before value, before.utf8Size = 1 ∧
        mark :: '\'' :: (digits ++ ['\'']) = [before, '\''] ++ (value ++ ['\'']) ∧
        blobKind value = blobKind digits := ⟨mark, digits, single, rfl, rfl⟩
    revert written
    generalize mark :: '\'' :: (digits ++ ['\'']) = text
    unfold blobKind
    split_ifs <;> exact id
  · trivial

/-- Every token is written in this way. -/
lemma scanToken_spells :
    (scanToken drift first rest).kind.Spells
      (first :: rest.take (scanToken drift first rest).tail) := by
  unfold scanToken
  dsimp only
  split
  case h_10 => split_ifs <;> trivial
  case h_27 =>
    split_ifs
    · exact scanNumber_spells _
    · trivial
  case h_28 => exact scanQuestion_spells
  case h_29 | h_30 | h_31 => exact scanNamed_spells fun _ => trivial
  case h_32 | h_33 | h_34 => exact scanQuotedToken_spells _ (fun _ => trivial) trivial
  case h_35 =>
    split_ifs
    · exact scanDart_spells
    · exact scanQuotedToken_spells _ (fun _ => trivial) trivial
  case h_36 content _ =>
    split_ifs with blob
    · have single : first.utf8Size = 1 := by
        rcases Bool.or_eq_true_iff.mp blob with is | is <;> rw [eq_of_beq is] <;> rfl
      rw [List.take_succ_cons]
      exact scanBlob_spells single
    · exact scanOther_spells _
  case h_37 => exact scanOther_spells _
  all_goals trivial

end

/-! ## The tokens of a source -/

namespace Scanner

variable {scanner : Scanner}

/-- The next token is spelled by its text. -/
lemma next_spells : scanner.next.1.kind.Spells scanner.next.1.lexeme.toList := by
  unfold next
  dsimp only
  split
  · trivial
  · dsimp only
    rw [String.toList_ofList]
    exact scanToken_spells

/-- Every token that is scanned is spelled by its text. -/
lemma tokensWithin_spells {fuel : Nat} {token : Token}
    (mem : token ∈ (scanner.tokensWithin fuel).1) : token.kind.Spells token.lexeme.toList := by
  obtain ⟨later, -, rfl⟩ := exists_next_of_mem mem
  exact next_spells

/-- The places that scanning steps through are those after the characters it has passed. -/
lemma iterate_next (source : String) (drift : Bool) (count : Nat) :
    let scanner := (fun scanner => (next scanner).2)^[count] (ofSource drift source)
    ∃ passed, source.toList = passed ++ scanner.rest ∧
      scanner.position = Position.origin.advance passed := by
  induction count with
  | zero => exact ⟨[], rfl, rfl⟩
  | succ count ih =>
    dsimp only at ih ⊢
    rw [Function.iterate_succ_apply']
    generalize (fun scanner => (next scanner).2)^[count] (ofSource drift source) = scanner at ih
    obtain ⟨passed, whole, here⟩ := ih
    by_cases isGap : Gap true scanner.rest
    · rw [next_of_gap isGap]
      exact ⟨source.toList, by simp, by rw [whole, Position.advance_append, here]⟩
    · obtain ⟨gap, text, rest, eq, -, -, -, -, -, after⟩ := next_of_text isGap
      rw [after]
      refine ⟨passed ++ (gap ++ text), by rw [whole, eq]; simp, ?_⟩
      dsimp only
      rw [here, ← Position.advance_append]

end Scanner

/-- The text of a token is the source at its span, and its value is read from the source between
its marks. -/
def Token.ReadsFrom (source : String) (token : Token) : Prop :=
  let slice (first last : Nat) :=
    Text.slice? source (token.span.start + first) (token.span.stop - last)
  slice 0 0 = some token.lexeme ∧
  match token.kind with
  | .inlineDart code => slice 1 1 = some code
  | .blob _ | .malformed .invalidBlobDigit | .malformed .oddBlobDigits =>
    ∃ digits, slice 2 1 = some digits ∧ blobKind digits.toList = token.kind
  | .variable (.named _ name) => slice 1 0 = some name
  | .variable (.numbered index) =>
    ∃ digits, slice 1 0 = some digits ∧ Text.decimalValue digits.toList = index
  | .malformed .variableNumber => ∃ digits, slice 1 0 = some digits
  | _ => True

/-- **Values are read from the source.**

**Proof sketch.** The text of a token is a slice of the source (`lossless_tokenize`), and it spells
the token (`Scanner.tokensWithin_spells`). By the kinds that hold a value: Dart code, a blob and a
variable have marks of known width around the text that the value is read from, so this text is a
slice too (`Text.slice?_inside`). -/
theorem Token.readsFrom_tokenize {drift : Bool} {source : String} {token : Token}
    (mem : token ∈ tokenize drift source) : token.ReadsFrom source := by
  have lexeme := (lossless_tokenize drift source).lexemes token mem
  have spells : token.kind.Spells token.lexeme.toList := Scanner.tokensWithin_spells mem
  have blob (kind : TokenKind) {mark : Char} {digits : List Char} (single : mark.utf8Size = 1)
      (text : token.lexeme.toList = [mark, '\''] ++ (digits ++ ['\'']))
      (eq : blobKind digits = kind) :
      ∃ digits, Text.slice? source (token.span.start + 2) (token.span.stop - 1) = some digits ∧
        blobKind digits.toList = kind := by
    have skips : Text.byteLength [mark, '\''] = 2 := by
      rw [Text.byteLength_cons, single]
      rfl
    exact ⟨_, Text.slice?_inside lexeme text skips rfl, by rw [String.toList_ofList, eq]⟩
  have question {digits : List Char} (text : token.lexeme.toList = '?' :: digits) :
      Text.slice? source (token.span.start + 1) token.span.stop = some (String.ofList digits) := by
    have text : token.lexeme.toList = ['?'] ++ (digits ++ []) := by simpa using text
    exact Text.slice?_inside lexeme text rfl rfl
  refine ⟨lexeme, ?_⟩
  dsimp only
  split
  · next code kind =>
    rw [kind] at spells
    have text : token.lexeme.toList = ['\x60'] ++ (code.toList ++ ['\x60']) := spells
    have marks : Text.byteLength ['\x60'] = 1 := rfl
    simpa using Text.slice?_inside lexeme text marks marks
  · next kind =>
    rw [kind] at spells ⊢
    obtain ⟨mark, digits, single, text, eq⟩ := spells
    exact blob _ single text eq
  · next kind =>
    rw [kind] at spells ⊢
    obtain ⟨mark, digits, single, text, eq⟩ := spells
    exact blob _ single text eq
  · next kind =>
    rw [kind] at spells ⊢
    obtain ⟨mark, digits, single, text, eq⟩ := spells
    exact blob _ single text eq
  · next sigil name kind =>
    rw [kind] at spells
    have text : token.lexeme.toList = [sigil.char] ++ (name.toList ++ []) := by
      rw [List.append_nil]
      exact spells
    have marks : Text.byteLength [sigil.char] = 1 := by cases sigil <;> rfl
    simpa using Text.slice?_inside lexeme text marks rfl
  · next index kind =>
    rw [kind] at spells
    obtain ⟨digits, text, eq⟩ := spells
    exact ⟨_, question text, by rw [String.toList_ofList, eq]⟩
  · next kind =>
    rw [kind] at spells
    obtain ⟨digits, text⟩ := spells
    exact ⟨_, question text⟩
  · trivial

/-! ## Counting lines and columns -/

/-- Each line and each column takes a byte. -/
lemma Position.counters_le (position : Position) (chars : List Char) :
    (position.advance chars).line ≤ position.line + Text.byteLength chars ∧
      (position.advance chars).column ≤ position.column + Text.byteLength chars := by
  induction chars generalizing position with
  | nil => exact ⟨Nat.le_refl _, Nat.le_refl _⟩
  | cons c chars ih =>
    have later := ih (position.next c)
    have size := c.utf8Size_pos
    have line : (position.next c).line ≤ position.line + 1 := by
      unfold next
      split <;> simp
    have column : (position.next c).column ≤ position.column + 1 := by
      unfold next
      split <;> simp
    rw [Text.byteLength_cons]
    change ((position.next c).advance chars).line ≤ _ ∧ ((position.next c).advance chars).column ≤ _
    omega

/-! ## Text between quotes -/

/-- The text is between these two characters. -/
def Text.IsBetween (first last : Char) (text : String) : Prop :=
  2 ≤ text.utf8ByteSize ∧ text.toList.head? = some first ∧ text.toList.getLast? = some last

/-- **Text between quotes is a slice**, and other text is not taken for it. The quotes have one byte
each, and a text of one character only is not between quotes.

**Proof sketch.** By the characters of the text. With none or one it is not between quotes, and
nothing is taken for it. With two or more, it is compared with the first and the last; if both
agree, the bytes between them are the slice from `1` to one before the end, because each quote has
one byte. -/
theorem Text.between?_eq_slice? {first last : Char} (single : first.utf8Size = 1)
    (single' : last.utf8Size = 1) (text : String) :
    (IsBetween first last text → ∃ inner, slice? text 1 (text.utf8ByteSize - 1) = some inner ∧
      between? first last text.toList = some inner.toList) ∧
    (¬ IsBetween first last text → between? first last text.toList = none) := by
  have whole : slice? text 0 text.utf8ByteSize = some text :=
    slice?_eq_some_iff.mpr ⟨[], [], by simp, rfl, (byteLength_toList text).symm⟩
  have marks : byteLength [first] = 1 := by rw [byteLength_cons, single]; rfl
  have marks' : byteLength [last] = 1 := by rw [byteLength_cons, single']; rfl
  have size := byteLength_toList text
  unfold IsBetween
  match eq : text.toList with
  | [] => exact ⟨fun ⟨_, head, _⟩ => by simp at head, fun _ => rfl⟩
  | [a] =>
    refine ⟨fun ⟨two, head, _⟩ => ?_, fun _ => rfl⟩
    obtain rfl : a = first := by simpa using head
    rw [eq, marks] at size
    omega
  | a :: b :: rest =>
    refine ⟨fun ⟨_, head, ends⟩ => ?_, fun other => ?_⟩
    · obtain rfl : a = first := by simpa using head
      rw [List.getLast?_cons_cons] at ends
      obtain ⟨inner, parts⟩ := List.getLast?_eq_some_iff.mp ends
      have cut := slice?_inside whole
        (show text.toList = [a] ++ (inner ++ [last]) by rw [eq, parts]; rfl) marks marks'
      refine ⟨_, by simpa using cut, ?_⟩
      simp [between?, parts]
    · have two : 2 ≤ text.utf8ByteSize := by
        have := a.utf8Size_pos
        have := b.utf8Size_pos
        rw [← size, eq, byteLength_cons, byteLength_cons]
        omega
      refine if_neg fun ⟨head, ends⟩ => other ⟨two, by rw [List.head?_cons, head], ?_⟩
      rwa [List.getLast?_cons_cons]

end SqlTree
