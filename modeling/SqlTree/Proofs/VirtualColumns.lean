import Mathlib.Data.List.TakeWhile
import SqlTree.Grammar.VirtualTable
import SqlTree.Proofs.Legible.Piece
import SqlTree.Proofs.Spacing

set_option autoImplicit false

/-!
# The columns of full-text indexes

The arguments of a full-text index are read as text, not as tokens: an argument with an equals sign
is an option, and otherwise its first word is the name of a column. For names without blanks and
equals signs this agrees with the scanner, in whatever quotes they are written. A quoted name with
a blank is cut at the blank, and one with an equals sign is taken for an option.

Quotes are taken off by their own rules, which agree with those of the scanner for names and
strings, but for one case: backticks in a name between backticks stay doubled.

## Main definitions

* `SqlTree.IsNameText` — the ways to write a name.
* `SqlTree.TokenKind.Spelled` — the ways to write a name or a string.
* `SqlTree.Grammar.Fts5Reads` — what an argument means.

## Main results

* `SqlTree.scanToken_spelled` — the names and strings that the scanner reads are written so.
* `SqlTree.Grammar.unquotedText_of_contents` — a name or a string is read without its quotes.
* `SqlTree.Grammar.recognize_fts5` — each argument is one column or one option, in their order.
* `SqlTree.Grammar.Fts5Reads.entry_eq` — names and options are read as they are written.
-/

namespace SqlTree

/-! ## How names and strings are written -/

/-- The characters, of which each quote is written twice. -/
def Text.doubled (quote : Char) (chars : List Char) : List Char :=
  chars.flatMap fun c => if c = quote then [quote, quote] else [c]

/-- The text is this name, bare or in quotes of some kind. Quotes inside double quotes and backticks
are doubled. -/
inductive IsNameText : List Char → List Char → Prop
  | bare {name : List Char} (some : name ≠ []) (all : ∀ c ∈ name, isIdentifierChar c = true) :
    IsNameText name name
  | quoted {quote : Char} (name : List Char) (isQuote : quote = '"' ∨ quote = '\x60') :
    IsNameText (Text.quoted quote name) name
  | bracketed {name : List Char} (closed : ']' ∉ name) : IsNameText ('[' :: name ++ [']']) name

/-- The text is one of those that names and strings of this kind are written as. -/
def TokenKind.Spelled (text : List Char) : TokenKind → Prop
  | .identifier name => IsNameText text name.toList
  | .string value => text = Text.quoted '\'' value.toList
  | _ => True

section

variable {drift : Bool} {first close : Char} {tail value text : List Char} {doubling : Bool}

/-- Text that ends with its closing quote is its value with the quotes doubled. -/
lemma eq_of_scanQuoted {chars : List Char}
    (found : scanQuoted close doubling chars = some (value, chars.length)) :
    chars = Text.doubled close value ++ [close] ∧ (doubling = false → close ∉ value) := by
  fun_induction scanQuoted close doubling chars generalizing value with
  | case1 => simp at found
  | case2 next rest double ih =>
    obtain ⟨⟨inner, count⟩, later, eq⟩ := Option.map_eq_some_iff.mp found
    obtain ⟨rfl, size⟩ : close :: inner = value ∧ count + 2 = rest.length + 2 := by
      simpa using eq
    obtain rfl : count = rest.length := by omega
    obtain ⟨text, -⟩ := ih later
    obtain ⟨on, rfl⟩ : doubling = true ∧ next = close := by simpa using double
    refine ⟨?_, fun off => absurd (on.symm.trans off) (by simp)⟩
    rw [Text.doubled, List.flatMap_cons, if_pos rfl, List.append_assoc, ← Text.doubled, ← text]
    rfl
  | case3 next rest single => simp at found
  | case4 =>
    obtain rfl : [] = value := by simpa using found
    simp [Text.doubled]
  | case5 c rest other ih =>
    obtain ⟨⟨inner, count⟩, later, eq⟩ := Option.map_eq_some_iff.mp found
    obtain ⟨rfl, rfl⟩ : c :: inner = value ∧ count = rest.length := by simpa using eq
    obtain ⟨text, without⟩ := ih later
    refine ⟨?_, fun off => by simpa [Ne.symm other] using without off⟩
    rw [Text.doubled, List.flatMap_cons, if_neg other, List.append_assoc, ← Text.doubled, ← text]
    rfl

/-- Doubling a quote does nothing where there is none. -/
lemma Text.doubled_of_not_mem (not : close ∉ value) : doubled close value = value := by
  unfold doubled
  induction value with
  | nil => rfl
  | cons c value ih =>
    obtain ⟨other, not⟩ := not_or.mp (mt List.mem_cons.mpr not)
    rw [List.flatMap_cons, if_neg (Ne.symm other), ih not]
    rfl

/-- What a token in quotes stands for, if it goes on to the end of a text. -/
lemma scanQuotedToken_spelled {error : LexicalError} {make : List Char → TokenKind}
    (made : ∀ value, tail = Text.doubled close value ++ [close] →
      (doubling = false → close ∉ value) →
      (make value).Spelled text)
    (whole : (scanQuotedToken close doubling error make tail).tail = tail.length) :
    (scanQuotedToken close doubling error make tail).kind.Spelled text := by
  unfold scanQuotedToken at whole ⊢
  split at whole
  · next value count found =>
    obtain rfl : count = tail.length := whole
    obtain ⟨eq, closed⟩ := eq_of_scanQuoted found
    exact made value eq closed
  · trivial

/-- A number is no name and no string. -/
lemma scanNumber_spelled : (scanNumber first tail).kind.Spelled text := by
  have decimal (chars : List Char) : (scanDecimal chars).1.Spelled text := by
    unfold scanDecimal
    dsimp only
    split_ifs <;> trivial
  have hex (chars : List Char) : (scanHex chars).1.Spelled text := by
    unfold scanHex
    dsimp only
    split_ifs <;> trivial
  unfold scanNumber
  dsimp only
  split
  · split_ifs
    · exact hex _
    · exact decimal _
  · exact decimal _

/-- A named variable is no name and no string. -/
lemma scanNamed_spelled {sigil : Sigil} {alone : TokenKind} (other : alone.Spelled text) :
    (scanNamed sigil alone tail).kind.Spelled text := by
  unfold scanNamed
  dsimp only
  split_ifs
  · exact other
  · trivial

/-- A question mark is no name and no string. -/
lemma scanQuestion_spelled : (scanQuestion tail).kind.Spelled text := by
  unfold scanQuestion
  dsimp only
  split_ifs <;> trivial

/-- A blob is no name and no string. -/
lemma blobKind_spelled (digits : List Char) : (blobKind digits).Spelled text := by
  unfold blobKind
  split_ifs <;> trivial

/-- A word is a name that is written bare, or a keyword. -/
lemma scanOther_spelled (whole : (scanToken.scanOther first tail).tail = tail.length) :
    (scanToken.scanOther first tail).kind.Spelled (first :: tail) := by
  unfold scanToken.scanOther at whole ⊢
  split_ifs at whole ⊢ with digit start
  · exact scanNumber_spelled
  · unfold scanWord at whole ⊢
    dsimp only at whole ⊢
    split at whole
    · trivial
    · have all : tail.takeWhile isIdentifierChar = tail :=
        List.IsPrefix.eq_of_length (List.takeWhile_prefix _) whole
      rw [all]
      change IsNameText _ (String.ofList _).toList
      rw [String.toList_ofList]
      exact .bare (List.cons_ne_nil first tail) (List.forall_mem_cons.mpr
        ⟨isIdentifierChar_of_start start, fun c mem => List.mem_takeWhile_imp (all.symm ▸ mem)⟩)
  · trivial

/-- **The names and strings that the scanner reads** are written bare or in quotes.

**Proof sketch.** By the first character. Of the tokens in quotes, strings and names are spelled
with their content between the quotes, where a quote of the content is doubled
(`scanQuotedToken_spelled`). Between brackets nothing is doubled, since a closing bracket ends the
name. A word is spelled bare, and all other tokens are neither names nor strings. -/
lemma scanToken_spelled (whole : (scanToken drift first tail).tail = tail.length) :
    (scanToken drift first tail).kind.Spelled (first :: tail) := by
  unfold scanToken at whole ⊢
  dsimp only at whole ⊢
  split at whole
  case h_27 =>
    split_ifs
    · exact scanNumber_spelled
    · trivial
  case h_28 => exact scanQuestion_spelled
  case h_29 | h_30 | h_31 => exact scanNamed_spelled trivial
  case h_32 =>
    refine scanQuotedToken_spelled (fun value eq _ => ?_) whole
    change _ = Text.quoted _ (String.ofList value).toList
    rw [String.toList_ofList, eq]
    rfl
  case h_33 =>
    refine scanQuotedToken_spelled (fun value eq _ => ?_) whole
    change IsNameText _ (String.ofList value).toList
    rw [String.toList_ofList, eq]
    exact .quoted value (.inl rfl)
  case h_34 =>
    refine scanQuotedToken_spelled (fun value eq closed => ?_) whole
    change IsNameText _ (String.ofList value).toList
    rw [String.toList_ofList, eq, Text.doubled_of_not_mem (closed rfl)]
    exact .bracketed (closed rfl)
  case h_35 =>
    split_ifs at whole ⊢
    · exact scanQuotedToken_spelled (fun _ _ _ => trivial) whole
    · refine scanQuotedToken_spelled (fun value eq _ => ?_) whole
      change IsNameText _ (String.ofList value).toList
      rw [String.toList_ofList, eq]
      exact .quoted value (.inr rfl)
  case h_36 =>
    split_ifs at whole ⊢
    · exact scanQuotedToken_spelled (fun _ _ _ => blobKind_spelled _) (Nat.succ.inj whole)
    · exact scanOther_spelled whole
  case h_37 => exact scanOther_spelled whole
  case h_10 => split_ifs <;> trivial
  -- the others are symbols
  all_goals trivial

/-- A text that is scanned as one token spells it. -/
lemma spelled_of_alone {chars : List Char} {kind : TokenKind} (alone : Alone drift chars kind) :
    kind.Spelled chars := by
  obtain ⟨-, ⟨first, tail, rfl, scan⟩, -⟩ := alone
  have spelled := @scanToken_spelled drift first tail (by rw [scan])
  rwa [scan] at spelled

end

/-! ## Names without quotes -/

namespace Text

section

variable {first last c : Char} {chars inner word gap rest : List Char}

/-- A text that does not start with an opening mark is not between marks. -/
lemma between?_of_head (other : ∀ c ∈ chars.head?, c ≠ first) :
    between? first last chars = none := by
  unfold between?
  split
  · exact if_neg fun both => other _ rfl both.1
  · rfl

/-- A text between marks is found there. -/
lemma between?_wrapped : between? first last (first :: inner ++ [last]) = some inner := by
  cases inner with
  | nil => simp [between?]
  | cons c inner =>
    rw [List.cons_append, List.cons_append, between?,
      if_pos ⟨rfl, by rw [← List.cons_append, List.getLast?_concat]⟩, ← List.cons_append,
      List.dropLast_concat]

/-- Doubled quotes are read as they were written. -/
lemma undoubled_doubled (quote : Char) (chars : List Char) :
    undoubled quote (doubled quote chars) = chars := by
  unfold doubled
  induction chars with
  | nil => rfl
  | cons c chars ih =>
    rw [List.flatMap_cons]
    by_cases same : c = quote
    · rw [if_pos same, List.cons_append, List.cons_append, List.nil_append, undoubled,
        if_pos ⟨rfl, rfl⟩, ih, same]
    · rw [if_neg same, List.singleton_append]
      generalize (chars.flatMap fun c => if c = quote then [quote, quote] else [c]) = text at ih ⊢
      cases text with
      | nil => rw [← ih]; rfl
      | cons d text => rw [undoubled, if_neg fun both => same both.1, ih]

/-- A string is read without its quotes. -/
lemma unquoted_quoted (chars : List Char) : unquoted (quoted '\'' chars) = chars := by
  unfold unquoted quoted
  rw [between?_wrapped]
  exact undoubled_doubled '\'' chars

/-- **A name is read without its quotes.** In double quotes and brackets this is the name that the
scanner reads, but in backticks each backtick of the name is kept twice.

**Proof sketch.** By how the name is written. Written bare it starts with none of the quotes, so
nothing is taken off. In each kind of quotes, the kinds that are tried before it do not apply, and
what is between its quotes is found. In double quotes doubled ones are undone, in brackets there are
none, and in backticks they are left. -/
lemma unquoted_of_isNameText {name : List Char} (isName : IsNameText chars name) :
    unquoted chars = if chars.head? = some '\x60' then doubled '\x60' name else name := by
  have head (marks : List Char) (start : ∀ c ∈ chars.head?, c ∉ marks) :
      ∀ mark ∈ marks, ∀ last, between? mark last chars = none :=
    fun mark mem last => between?_of_head fun c mem' same => start c mem' (same ▸ mem)
  unfold unquoted
  cases isName with
  | bare _ all =>
    have start : ∀ c ∈ chars.head?, c ∉ ['\'', '"', '[', '\x60'] := fun c mem inside => by
      have char := all c (List.mem_of_mem_head? mem)
      simp only [List.mem_cons, List.not_mem_nil, or_false] at inside
      rcases inside with rfl | rfl | rfl | rfl <;> exact absurd char (by decide)
    have none := head _ start
    have noTick : ¬ chars.head? = some '\x60' := fun tick => start _ tick (by simp)
    rw [none _ (by simp), none _ (by simp), none _ (by simp), none _ (by simp), if_neg noTick]
    rfl
  | quoted _ isQuote =>
    unfold quoted at head ⊢
    rcases isQuote with rfl | rfl
    · rw [head ['\''] (by simp) _ (by simp), between?_wrapped]
      exact undoubled_doubled '"' name
    · have none := head ['\'', '"', '['] (by simp)
      rw [none _ (by simp), none _ (by simp), none _ (by simp), between?_wrapped]
      rfl
  | bracketed closed =>
    have none := head ['\'', '"'] (by simp)
    rw [none _ (by simp), none _ (by simp), between?_wrapped]
    rfl

/-! ## Words between blanks -/

/-- A text has a stretch without blanks, be it empty. -/
lemma stretches_ne_nil (chars : List Char) : stretches chars ≠ [] := by
  cases chars with
  | nil => simp [stretches]
  | cons c rest =>
    rw [stretches]
    split
    · split_ifs <;> simp
    · simp

/-- A blank ends an empty stretch. -/
lemma stretches_blank (blank : isBlank c = true) :
    stretches (c :: rest) = [] :: stretches rest := by
  rw [stretches]
  split
  · next first others eq => rw [if_pos blank, eq]
  · next eq => exact absurd eq (stretches_ne_nil rest)

/-- Characters that are no blanks belong to the first stretch. -/
lemma stretches_word (solid : ∀ c ∈ word, isBlank c = false) :
    stretches (word ++ rest) = (stretches rest).modifyHead (word ++ ·) := by
  obtain ⟨start, others, eq⟩ := List.exists_cons_of_ne_nil (stretches_ne_nil rest)
  induction word with
  | nil => simp [eq]
  | cons c word ih =>
    rw [List.forall_mem_cons] at solid
    rw [List.cons_append, stretches, ih solid.2, eq]
    simp [solid.1]

/-- Blanks before a text add no word. -/
lemma words_gap (blank : ∀ c ∈ gap, isBlank c = true) : words (gap ++ rest) = words rest := by
  induction gap with
  | nil => rfl
  | cons c gap ih =>
    rw [List.forall_mem_cons] at blank
    rw [← ih blank.2, List.cons_append]
    unfold words
    rw [stretches_blank blank.1]
    rfl

/-- A text without blanks is one word. -/
lemma words_word (solid : ∀ c ∈ word, isBlank c = false) (some : word ≠ []) :
    words word = [word] := by
  have eq : stretches (word ++ []) = _ := stretches_word solid
  rw [List.append_nil] at eq
  unfold words
  rw [eq]
  simp [stretches, some]

/-- A text without blanks is a word, if blanks follow it. -/
lemma words_word_gap (solid : ∀ c ∈ word, isBlank c = false) (some : word ≠ [])
    (blank : ∀ c ∈ gap, isBlank c = true) (apart : gap ≠ []) :
    words (word ++ (gap ++ rest)) = word :: words rest := by
  obtain ⟨c, gap, rfl⟩ := List.exists_cons_of_ne_nil apart
  rw [List.forall_mem_cons] at blank
  have skip : words (gap ++ rest) = words rest := words_gap blank.2
  rw [← skip, List.cons_append]
  unfold words
  rw [stretches_word solid, stretches_blank blank.1]
  simp [some]

/-- A text without the mark is not cut. -/
lemma cutAt?_eq_none {mark : Char} (not : mark ∉ chars) : cutAt? mark chars = none := by
  have all : ∀ c ∈ chars, decide (c ≠ mark) = true := fun c mem => by
    simpa using ne_of_mem_of_not_mem mem not
  unfold cutAt?
  rw [List.dropWhile_eq_nil_iff.mpr all]

/-- A text is cut at its first mark. -/
lemma cutAt?_append {mark : Char} (not : mark ∉ chars) :
    cutAt? mark (chars ++ mark :: rest) = some (chars, rest) := by
  have all : ∀ c ∈ chars, decide (c ≠ mark) = true := fun c mem => by
    simpa using ne_of_mem_of_not_mem mem not
  unfold cutAt?
  rw [List.dropWhile_append_of_pos all, List.takeWhile_append_of_pos all]
  simp

end

end Text

/-! ## Texts of one token -/

namespace Lexes

variable {drift : Bool} {text : String} {kind : TokenKind}

/-- A text whose only token has the text as its lexeme is this token alone. -/
lemma alone_of_contents (closed : kind.isOpen = false)
    (one : (tokenize drift text).map Token.content = [(kind, text), (.endOfInput, "")]) :
    Alone drift text.toList kind := by
  obtain ⟨list, lexes⟩ := exists_of_text drift text.toList
  rw [lexes.contents] at one
  have one : list.map Lexed.content ++ [_] = [(kind, text)] ++ [_] := one
  obtain ⟨only, -⟩ := List.append_inj' one rfl
  obtain ⟨lexed, rfl, content⟩ := List.map_eq_singleton_iff.mp only
  obtain ⟨sameKind, lexeme⟩ := Prod.mk.inj content
  have chars : lexed.chars = text.toList := by rw [← lexeme, Lexed.lexeme, String.toList_ofList]
  generalize text.toList = whole at lexes chars
  cases lexes with
  | @token gap tail rest first _ _ isGap starts scan later =>
    -- the lexeme is the whole text, so there are no gaps
    have size := congrArg List.length chars
    simp only [List.length_append, List.length_cons] at size
    obtain rfl : gap = [] := List.eq_nil_of_length_eq_zero (by omega)
    obtain rfl : rest = [] := List.eq_nil_of_length_eq_zero (by omega)
    obtain rfl : _ = kind := sameKind
    rw [List.append_nil] at starts scan ⊢
    exact ⟨starts, ⟨first, tail, rfl, scan⟩, closed⟩

end Lexes

/-! ## Arguments -/

namespace Grammar

/-- **The name or the string that a text stands for.** A text that is read as one name or one string
has, without its quotes, the value that the scanner reads. Only in backticks is each backtick of the
name kept twice. -/
lemma unquotedText_of_contents {text value : String} {kind : TokenKind}
    (one : (tokenize false text).map Token.content = [(kind, text), (.endOfInput, "")])
    (isText : kind = .identifier value ∨ kind = .string value) :
    unquotedText text.toList = if text.toList.head? = some '\x60' then
      String.ofList (Text.doubled '\x60' value.toList) else value := by
  unfold unquotedText
  rcases isText with rfl | rfl
  · have isName : IsNameText text.toList value.toList :=
      spelled_of_alone (Lexes.alone_of_contents rfl one)
    rw [Text.unquoted_of_isNameText isName]
    split
    · rfl
    · exact String.ofList_toList
  · have isString : text.toList = Text.quoted '\'' value.toList :=
      spelled_of_alone (Lexes.alone_of_contents rfl one)
    rw [isString, Text.unquoted_quoted, if_neg (by simp [Text.quoted]), String.ofList_toList]

/-- The scanner reads a doubled backtick as one. -/
example : (tokenize false "\x60a\x60\x60b\x60").map Token.content =
      [(.identifier "a\x60b", "\x60a\x60\x60b\x60"), (.endOfInput, "")] ∧
    unquotedText "\x60a\x60\x60b\x60".toList = "a\x60\x60b" :=
  ⟨rfl, by decide⟩

/-- The text is the name of a column that is read as it is written: it has no blank and no equals
sign, and no doubled backtick. -/
structure IsColumnName (text name : String) : Prop where
  isName : IsNameText text.toList name.toList
  solid : ∀ c ∈ text.toList, Text.isBlank c = false
  single : '=' ∉ text.toList
  backtick : '\x60' ∈ name.toList → text.toList.head? ≠ some '\x60'

/-- What an argument of a full-text index means: a name, with the word `UNINDEXED` after it or not,
is a column, and a key before an equals sign is an option. -/
inductive Fts5Reads : String → Fts5Column ⊕ String × String → Prop
  | column {name text : String} (isName : IsColumnName text name) :
    Fts5Reads text (.inl ⟨name, false⟩)
  | unindexed {name text gap word : String} (isName : IsColumnName text name)
    (apart : gap.toList ≠ []) (blank : ∀ c ∈ gap.toList, Text.isBlank c = true)
    (isWord : equalIgnoringCase word "unindexed" = true) :
    Fts5Reads (text ++ (gap ++ word)) (.inl ⟨name, true⟩)
  | option (key value : String) (single : '=' ∉ key.toList) :
    Fts5Reads (key ++ "=" ++ value)
      (.inr (String.ofList (Text.trim key.toList), unquotedText (Text.trim value.toList)))

/-- The letters of `UNINDEXED` are no blanks and no equals signs. -/
lemma solid_of_unindexed {word : String} (isWord : equalIgnoringCase word "unindexed" = true) :
    (∀ c ∈ word.toList, Text.isBlank c = false ∧ c ≠ '=') ∧ word.toList ≠ [] := by
  have upper : word.toList.map Char.toUpper = "UNINDEXED".toList := by
    simpa [equalIgnoringCase, upperChars] using isWord
  refine ⟨fun c mem => ?_, ?_⟩
  · have letters : ∀ letter ∈ "UNINDEXED".toList, letter.isUpper = true := by simp
    have char := isIdentifierChar_of_start
      (Keyword.start_of_toUpper (.inl (letters _ (upper ▸ List.mem_map_of_mem mem))))
    refine ⟨?_, ?_⟩
    · rw [← Bool.not_eq_true]
      intro blank
      exact absurd (char.symm.trans (inert_of_blank blank).word) (by simp)
    · rintro rfl
      exact absurd char (by decide)
  · intro empty
    rw [empty] at upper
    exact absurd upper (by simp)

/-- The name of a column is written in one word, and read without its quotes. -/
lemma IsColumnName.words {text name : String} (isName : IsColumnName text name) :
    text.toList ≠ [] ∧ unquotedText text.toList = name := by
  refine ⟨?_, ?_⟩
  · have isText := isName.isName
    generalize text.toList = chars at isText
    cases isText with
    | bare some _ => exact some
    | quoted => exact List.cons_ne_nil _ _
    | bracketed => exact List.cons_ne_nil _ _
  · unfold unquotedText
    have plain : (if text.toList.head? = some '\x60' then Text.doubled '\x60' name.toList
        else name.toList) = name.toList := by
      split
      · next tick => exact Text.doubled_of_not_mem fun mem => isName.backtick mem tick
      · rfl
    rw [Text.unquoted_of_isNameText isName.isName, plain, String.ofList_toList]

/-- The column or the option that an argument of a full-text index is. -/
def fts5Entry (argument : String) : Fts5Column ⊕ String × String :=
  match fts5Option? argument.toList with
  | some option => .inr option
  | none => .inl (fts5Column argument.toList)

/-- **Each argument of a full-text index is one column or one option**, and columns and options
stand in the order of the arguments. -/
lemma recognize_fts5 {module : String} (isModule : equalIgnoringCase module "fts5" = true)
    (arguments : List String) :
    recognize module arguments = .fts5 ((arguments.map fts5Entry).filterMap Sum.getLeft?)
      ((arguments.map fts5Entry).filterMap Sum.getRight?) := by
  unfold recognize
  dsimp only
  rw [if_pos isModule]
  unfold fts5
  congr 1
  all_goals
    induction arguments with
    | nil => rfl
    | cons argument arguments ih =>
      rw [List.map_cons, List.map_cons]
      cases option : fts5Option? argument.toList <;>
        simp_all [fts5Entry, List.filterMap_cons]

/-- **Arguments are the columns and options that they are written as.**

**Proof sketch.** By how the argument is written. A name alone, or with blanks and `UNINDEXED` after
it, has no equals sign, so it is no option, and its words are the name and the keyword
(`words_word_gap`). An option is cut at its first equals sign. -/
lemma Fts5Reads.entry_eq {argument : String} {entry : Fts5Column ⊕ String × String}
    (reads : Fts5Reads argument entry) : fts5Entry argument = entry := by
  unfold fts5Entry
  cases reads with
  | column isName =>
    obtain ⟨some, unquoted⟩ := isName.words
    have option : fts5Option? argument.toList = none := by
      rw [fts5Option?, Text.cutAt?_eq_none isName.single, Option.map_none]
    simp [option, fts5Column, Text.words_word isName.solid some, unquoted]
  | @unindexed name text gap word isName apart blank isWord =>
    obtain ⟨some, unquoted⟩ := isName.words
    obtain ⟨solid, some'⟩ := solid_of_unindexed isWord
    rw [String.toList_append, String.toList_append]
    have single : '=' ∉ text.toList ++ (gap.toList ++ word.toList) := by
      simp only [List.mem_append, not_or]
      refine ⟨isName.single, fun mem => ?_, fun mem => (solid _ mem).2 rfl⟩
      exact absurd (blank _ mem) (by decide)
    have option : fts5Option? (text.toList ++ (gap.toList ++ word.toList)) = none := by
      rw [fts5Option?, Text.cutAt?_eq_none single, Option.map_none]
    simp [option, fts5Column, Text.words_word_gap isName.solid some blank apart,
      Text.words_word (fun c mem => (solid c mem).1) some', unquoted, isWord]
  | option key value single =>
    have option : fts5Option? (key ++ "=" ++ value).toList =
        some (String.ofList (Text.trim key.toList), unquotedText (Text.trim value.toList)) := by
      rw [String.toList_append, String.toList_append, List.append_assoc,
        show "=".toList = ['='] from rfl, List.singleton_append, fts5Option?,
        Text.cutAt?_append single, Option.map_some]
    rw [option]

/-- A blank between quotes ends a name. -/
example : fts5Entry "\"a b\"" = .inl ⟨"\"a", false⟩ := by decide

end Grammar

end SqlTree
