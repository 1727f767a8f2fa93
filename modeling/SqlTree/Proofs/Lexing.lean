import SqlTree.Proofs.Cutting
import SqlTree.Proofs.Lossless
import SqlTree.Proofs.Words

set_option autoImplicit false

/-!
# Texts as tokens between gaps

A text is a list of tokens, each with the gap before it, and a gap at its end. The same tokens with
other gaps make up a text with the same tokens, if a gap that is changed starts with a blank. So the
text from one token to another is cut into these tokens and those between them.

## Main definitions

* `SqlTree.Lexed` — a token of a text, with the gap before it.
* `SqlTree.Lexes` — a text is cut into these tokens.
* `SqlTree.Lexed.Respaced` — the same tokens, up to one of them, with other gaps.

## Main results

* `SqlTree.Lexes.respace` — the same tokens with other gaps are cut in the same way.
* `SqlTree.Cursor.words_source` — the words of a source.
* `SqlTree.Cursor.Reachable.words_slice` — the words of the text from one token to another.
-/

namespace SqlTree

/-! ## Gaps before tokens -/

/-- A gap is skipped up to the text after it. -/
lemma gapLength_append {gap rest : List Char} (isGap : Gap false gap)
    (starts : gapLength rest = 0) : gapLength (gap ++ rest) = gap.length := by
  generalize ends : false = atEnd at isGap
  induction isGap with
  | nil => exact starts
  | blank isBlank _ ih => rw [List.cons_append, gapLength_blank isBlank, ih, List.length_cons]
  | @line text after within _ ih =>
    simp only [List.cons_append, List.append_assoc, gapLength, lineCommentLength_append within,
      ih, List.length_cons, List.length_append]
    omega
  | @block text after within _ ih =>
    simp only [List.cons_append, List.append_assoc, gapLength, blockCommentLength_append within,
      ih, List.length_cons, List.length_append]
    omega
  | openLine isEnd => exact absurd (ends.trans isEnd) Bool.false_ne_true
  | openBlock isEnd => exact absurd (ends.trans isEnd) Bool.false_ne_true

/-- Text that is no gap: no blank, and no opening of a comment. -/
lemma gapLength_eq_zero_iff {c : Char} {chars : List Char} :
    gapLength (c :: chars) = 0 ↔ Text.isBlank c = false ∧
      ¬ (c = '-' ∧ chars.head? = some '-') ∧ ¬ (c = '/' ∧ chars.head? = some '*') := by
  constructor
  · intro zero
    refine ⟨?_, ?_, ?_⟩
    · rw [← Bool.not_eq_true]
      intro isBlank
      rw [gapLength_blank isBlank] at zero
      omega
    · rintro ⟨rfl, head⟩
      obtain ⟨after, rfl⟩ := List.head?_eq_some_iff.mp head
      simp [gapLength] at zero
    · rintro ⟨rfl, head⟩
      obtain ⟨after, rfl⟩ := List.head?_eq_some_iff.mp head
      simp [gapLength] at zero
  · rintro ⟨blank, line, block⟩
    rw [gapLength.eq_3, blank]
    · rfl
    · rintro after rfl rfl
      exact line ⟨rfl, rfl⟩
    · rintro after rfl rfl
      exact block ⟨rfl, rfl⟩

/-- Text that starts no gap does so before another rest. -/
lemma gapLength_cut {first : Char} {tail rest rest' : List Char}
    (starts : gapLength (first :: (tail ++ rest)) = 0) (releases : Releases rest rest') :
    gapLength (first :: (tail ++ rest')) = 0 := by
  rw [gapLength_eq_zero_iff] at starts ⊢
  obtain ⟨blank, line, block⟩ := starts
  refine ⟨blank, ?_, ?_⟩
  · rintro ⟨rfl, head⟩
    cases tail with
    | cons c tail => exact line ⟨rfl, head⟩
    | nil =>
      exact head_cut (fun head => line ⟨rfl, head⟩) releases
        (fun inert => absurd inert.mark (by decide)) head
  · rintro ⟨rfl, head⟩
    cases tail with
    | cons c tail => exact block ⟨rfl, head⟩
    | nil =>
      exact head_cut (fun head => block ⟨rfl, head⟩) releases
        (fun inert => absurd inert.mark (by decide)) head

/-! ## Texts as tokens -/

/-- A token of a text, with the gap before it. -/
structure Lexed where
  gap : List Char
  kind : TokenKind
  chars : List Char

namespace Lexed

/-- The word that the token is. -/
def word (lexed : Lexed) : Word :=
  ⟨lexed.kind, String.ofList lexed.chars, some (String.ofList lexed.gap)⟩

/-- The text of tokens and the gaps before them. -/
def spelling (list : List Lexed) : List Char :=
  list.flatMap fun lexed => lexed.gap ++ lexed.chars

/-- No tokens spell nothing. -/
@[simp] lemma spelling_nil : spelling [] = [] := rfl

/-- A token is spelled by the gap before it and its characters, and the others after it. -/
@[simp] lemma spelling_cons (lexed : Lexed) (rest : List Lexed) :
    spelling (lexed :: rest) = lexed.gap ++ (lexed.chars ++ spelling rest) := by
  simp [spelling]

/-- The words of tokens, where the gap before the first one does not matter. -/
def words : List Lexed → List Word
  | [] => []
  | first :: rest => { first.word with gap := none } :: rest.map word

/-- The tokens at their places, from a position on. -/
def placed : Position → List Lexed → List Token
  | _, [] => []
  | position, lexed :: rest =>
    let stop := position.advance (lexed.gap ++ lexed.chars)
    ⟨lexed.kind, String.ofList lexed.chars, .between (position.advance lexed.gap) stop⟩ ::
      placed stop rest

/-- There are as many placed tokens as lexed ones. -/
@[simp] lemma length_placed (position : Position) (list : List Lexed) :
    (placed position list).length = list.length := by
  induction list generalizing position with
  | nil => rfl
  | cons lexed rest ih => simp [placed, ih]

/-- None of the tokens is the end of input. -/
lemma placed_inside {list : List Lexed} (notEnd : ∀ lexed ∈ list, lexed.kind ≠ .endOfInput)
    (position : Position) : ∀ token ∈ placed position list, token.isEnd = false := by
  induction list generalizing position with
  | nil => simp [placed]
  | cons lexed rest ih =>
    intro token mem
    rcases List.mem_cons.mp mem with rfl | later
    · rw [← Bool.not_eq_true, Token.isEnd_iff]
      exact notEnd lexed List.mem_cons_self
    · exact ih (fun lexed mem => notEnd lexed (List.mem_cons_of_mem _ mem)) _ token later

/-- The token is the same, and the gap before it is the same or starts with a blank. -/
structure Respaced (before after : Lexed) : Prop where
  kind : after.kind = before.kind
  chars : after.chars = before.chars
  isGap : Gap false after.gap
  apart : after.gap = before.gap ∨ ∃ c ∈ after.gap.head?, Text.isBlank c = true

end Lexed

/-- A text is cut into these tokens. -/
inductive Lexes (drift : Bool) : List Char → List Lexed → Prop where
  | ends {gap : List Char} (isGap : Gap true gap) : Lexes drift gap []
  | token {gap tail rest : List Char} {first : Char} {kind : TokenKind} {others : List Lexed}
    (isGap : Gap false gap) (starts : gapLength (first :: (tail ++ rest)) = 0)
    (scan : scanToken drift first (tail ++ rest) = ⟨kind, tail.length⟩)
    (later : Lexes drift rest others) :
    Lexes drift (gap ++ first :: (tail ++ rest)) (⟨gap, kind, first :: tail⟩ :: others)

namespace Lexes

variable {drift : Bool} {chars : List Char} {list : List Lexed}

/-- Every text is cut into tokens. -/
lemma exists_of_text (drift : Bool) (chars : List Char) : ∃ list, Lexes drift chars list := by
  induction size : chars.length using Nat.strongRecOn generalizing chars with
  | ind size ih =>
    subst size
    obtain ⟨gap, rest, rfl, length, isGap⟩ := gap_split chars
    cases rest with
    | nil =>
      rw [List.append_nil]
      exact ⟨[], .ends isGap.atEnd⟩
    | cons first rest =>
      have starts := gapLength_drop length
      rw [List.drop_left] at starts
      have within := (scanToken_within drift first rest).length
      generalize scanned : scanToken drift first rest = token at within
      obtain ⟨kind, count⟩ := token
      have whole := List.take_append_drop count rest
      have size : (rest.take count).length = count := by
        rw [List.length_take, Nat.min_eq_left within]
      obtain ⟨others, later⟩ := ih _ (by
        have := List.length_drop (i := count) (l := rest)
        simp only [List.length_append, List.length_cons]
        omega) (rest.drop count) rfl
      refine ⟨⟨gap, kind, first :: rest.take count⟩ :: others, ?_⟩
      have lexes := Lexes.token isGap (by rwa [whole]) (by rw [whole, scanned, size]) later
      rwa [whole] at lexes

/-- The tokens are cut off the front of the text; what is left is a gap. -/
lemma spelling_append (lexes : Lexes drift chars list) :
    ∃ gap, chars = Lexed.spelling list ++ gap := by
  induction lexes with
  | ends => exact ⟨_, rfl⟩
  | token _ _ _ _ ih =>
    obtain ⟨gap, eq⟩ := ih
    exact ⟨gap, by simp [← eq]⟩

/-- No token of a text is the end of the input. -/
lemma notEnd (lexes : Lexes drift chars list) : ∀ lexed ∈ list, lexed.kind ≠ .endOfInput := by
  induction lexes with
  | ends => simp
  | @token gap tail rest first kind others _ _ scan _ ih =>
    intro lexed mem
    rcases List.mem_cons.mp mem with rfl | later
    · have notEnd : (scanToken drift first (tail ++ rest)).kind ≠ .endOfInput :=
        scanToken_isScanned.notEnd
      rwa [scan] at notEnd
    · exact ih lexed later

/-- The gaps before the tokens of a text are gaps. -/
lemma gaps (lexes : Lexes drift chars list) : ∀ lexed ∈ list, Gap false lexed.gap := by
  induction lexes with
  | ends => simp
  | token isGap _ _ _ ih =>
    intro lexed mem
    rcases List.mem_cons.mp mem with rfl | later
    · exact isGap
    · exact ih lexed later

/-- An empty text has no tokens. -/
lemma nil_of_empty (lexes : Lexes drift chars list) (empty : chars = []) : list = [] := by
  cases lexes with
  | ends => rfl
  | token => simp at empty

/-! ### Other gaps -/

/-- The first tokens of a text make up a text with other gaps, and are cut off it in the same
way.

**Proof sketch.** By induction on how the text is cut, for any tokens with other gaps. The first one
has the same characters; the induction hypothesis is about those after it. What follows it is
released by it: either it is the same as before, or it starts with a blank or is empty, so the same
token is cut off there. -/
lemma respace_aux (lexes : Lexes drift chars list) (after : List Lexed)
    (respaced : List.Forall₂ Lexed.Respaced (list.take after.length) after) :
    Lexes drift (Lexed.spelling after) after ∧ Releases chars (Lexed.spelling after) := by
  induction lexes generalizing after with
  | ends =>
    obtain rfl : after = [] := by simpa using respaced
    exact ⟨.ends .nil, .inr (by simp)⟩
  | @token gap tail rest first kind others isGap starts scan later ih =>
    cases after with
    | nil => exact ⟨.ends .nil, .inr (by simp)⟩
    | cons lexed after =>
      rw [List.length_cons, List.take_succ_cons, List.forall₂_cons] at respaced
      obtain ⟨same, respaced⟩ := respaced
      obtain ⟨lexes, releases⟩ := ih after respaced
      obtain ⟨gap', kind', chars'⟩ := lexed
      obtain ⟨sameKind, sameChars, isGap', apart⟩ := same
      dsimp only at sameKind sameChars isGap' apart
      subst sameKind sameChars
      have closed : kind'.isOpen = true → Lexed.spelling after = [] := by
        intro isOpen
        have whole := (scanToken_within drift first (tail ++ rest)).whole
        rw [scan] at whole
        obtain rfl : rest = [] := by simpa using whole isOpen
        obtain rfl := later.nil_of_empty rfl
        obtain rfl : after = [] := by simpa using respaced
        rfl
      refine ⟨?_, ?_⟩
      · rw [Lexed.spelling_cons, List.cons_append]
        exact .token isGap' (gapLength_cut starts releases) (scanToken_cut scan releases closed)
          lexes
      · rw [Lexed.spelling_cons, List.cons_append]
        rcases apart with rfl | ⟨c, head, isBlank⟩
        · refine .inl ?_
          cases gap' <;> rfl
        · obtain ⟨after', rfl⟩ := List.head?_eq_some_iff.mp head
          exact .inr (by simpa using inert_of_blank isBlank)

/-- **The same tokens with other gaps are cut in the same way**, if each gap is as it was or starts
with a blank. The gap before the first token may be any. -/
lemma respace (lexes : Lexes drift chars list) {before : Lexed} {others : List Lexed}
    (eq : list = before :: others) (lexed : Lexed) (after : List Lexed)
    (sameKind : lexed.kind = before.kind)
    (sameChars : lexed.chars = before.chars) (isGap : Gap false lexed.gap)
    (respaced : List.Forall₂ Lexed.Respaced (others.take after.length) after) :
    Lexes drift (Lexed.spelling (lexed :: after)) (lexed :: after) := by
  subst eq
  cases lexes with
  | @token gap tail rest first kind _ isGap' starts scan later =>
    -- the text with the gap put before the first token is cut into the same tokens
    have changed : Lexes drift (lexed.gap ++ first :: (tail ++ rest))
        (⟨lexed.gap, kind, first :: tail⟩ :: others) := .token isGap starts scan later
    refine (changed.respace_aux (lexed :: after) ?_).1
    rw [List.length_cons, List.take_succ_cons]
    exact .cons ⟨sameKind, sameChars, isGap, .inl rfl⟩ respaced

/-! ### The tokens of a source -/

/-- After a gap, the next token is the one that is scanned there. -/
lemma next_of_token {gap tail rest : List Char} {first : Char} {kind : TokenKind}
    {scanner : Scanner} (eq : scanner.rest = gap ++ first :: (tail ++ rest))
    (isGap : Gap false gap) (starts : gapLength (first :: (tail ++ rest)) = 0)
    (scan : scanToken scanner.drift first (tail ++ rest) = ⟨kind, tail.length⟩) :
    scanner.next =
      (⟨kind, String.ofList (first :: tail), .between (scanner.position.advance gap)
        (scanner.position.advance (gap ++ first :: tail))⟩,
        ⟨scanner.drift, scanner.position.advance (gap ++ first :: tail), rest⟩) := by
  unfold Scanner.next
  rw [eq, gapLength_append isGap starts]
  simp [scan]

/-- Scanning finds these tokens, and the end of input after them.

**Proof sketch.** By induction on the number of tokens that may be scanned. If only a gap is left,
the next token is the end. Otherwise the next one is the first of the list (`next_of_token`), and
the induction hypothesis is about what is left. -/
lemma tokensWithin {scanner : Scanner} (lexes : Lexes scanner.drift scanner.rest list) {fuel : Nat}
    (enough : scanner.rest.length < fuel) :
    ∃ last : Token, last.kind = .endOfInput ∧
      (scanner.tokensWithin fuel).1 = Lexed.placed scanner.position list ++ [last] := by
  induction fuel generalizing scanner list with
  | zero => exact absurd enough (Nat.not_lt_zero _)
  | succ fuel ih =>
    generalize eq : scanner.rest = chars at lexes
    cases lexes with
    | ends isGap =>
      have next : scanner.next = _ := Scanner.next_of_gap (eq ▸ isGap)
      refine ⟨scanner.next.1, by rw [next], ?_⟩
      unfold Scanner.tokensWithin
      simp [next, Token.isEnd, Lexed.placed]
    | @token gap tail rest first kind others isGap starts scan later =>
      have next := next_of_token eq isGap starts scan
      have notEnd : ¬ scanner.next.1.isEnd = true := by
        rw [Token.isEnd_iff, next]
        exact (Lexes.token isGap starts scan later).notEnd _ List.mem_cons_self
      have later' : Lexes scanner.next.2.drift scanner.next.2.rest others := by rwa [next]
      obtain ⟨last, isLast, found⟩ := ih later' (by
        rw [next]
        rw [eq] at enough
        simp only [List.length_append, List.length_cons] at enough ⊢
        omega)
      refine ⟨last, isLast, ?_⟩
      have run : (scanner.tokensWithin (fuel + 1)).1 =
          scanner.next.1 :: (scanner.next.2.tokensWithin fuel).1 := by
        rw [Scanner.tokensWithin]
        exact congrArg Prod.fst (if_neg notEnd)
      rw [run, found, next]
      rfl

/-- The tokens ahead of the start of a source. -/
lemma ahead_source {source : String} (lexes : Lexes drift source.toList list) :
    (Cursor.ofSource drift source).ahead = Lexed.placed .origin list := by
  obtain ⟨last, isLast, found⟩ := @tokensWithin _ (.ofSource drift source) lexes _
    (Nat.lt_succ_self _)
  have tokens : tokenize drift source = Lexed.placed .origin list ++ [last] := found
  have others := Lexed.placed_inside lexes.notEnd
  change (tokenize drift source).takeWhile _ = _
  rw [tokens, List.takeWhile_append_of_pos (by simpa using others .origin),
    List.takeWhile_cons_of_neg (by simp [Token.isEnd, isLast]), List.append_nil]

end Lexes

/-! ## The words of a text -/

/-- The text of words, with the gaps that they fix between them. -/
def Word.joined : List Word → String
  | [] => ""
  | first :: rest =>
    first.lexeme ++ String.join (rest.map fun word => word.gap.getD "" ++ word.lexeme)

/-- Joining the gaps and texts of words gives what spells them. -/
lemma Lexed.joined_words (list : List Lexed) :
    String.join ((list.map word).map fun word => word.gap.getD "" ++ word.lexeme) =
      String.ofList (spelling list) := by
  induction list with
  | nil => rfl
  | cons lexed rest ih =>
    rw [List.map_cons, List.map_cons, String.join_cons, ih]
    simp [word, String.append_assoc]

/-- The tokens ahead of the cursor are these tokens of the text after a place. -/
structure Cursor.Sees (drift : Bool) (cursor : Cursor) (before chars : List Char)
    (position : Position) (list : List Lexed) : Prop where
  whole : cursor.source.toList = before ++ chars
  lexes : Lexes drift chars list
  ahead : cursor.ahead = Lexed.placed position list
  here : position.offset = Text.byteLength before

namespace Cursor

variable {drift : Bool} {cursor : Cursor}

/-- What is seen after some steps is seen from further ahead. -/
lemma peek_iterate (count distance : Nat) :
    (advance^[count] cursor).peek distance = cursor.peek (distance + count) := by
  induction count generalizing distance with
  | zero => rfl
  | succ count ih =>
    rw [Function.iterate_succ_apply', peek_advance, ih]
    congr 1
    omega

/-- The token behind is the last one taken. -/
lemma previous_iterate {count : Nat} (within : count < cursor.ahead.length) :
    (advance^[count + 1] cursor).previous = cursor.peek count := by
  rw [Function.iterate_succ_apply', advance_previous]
  · exact (peek_iterate count 0).trans (by rw [Nat.zero_add])
  · rw [(iterate_advance cursor count).1]
    exact List.ne_nil_of_length_pos (by rw [List.length_drop]; omega)

namespace Sees

variable {before chars : List Char} {position : Position} {list : List Lexed}

/-- The cursor at the start of a source sees its tokens. -/
lemma ofSource {source : String} (lexes : Lexes drift source.toList list) :
    (Cursor.ofSource drift source).Sees drift [] source.toList .origin list :=
  ⟨rfl, lexes, lexes.ahead_source, rfl⟩

/-- After the next token the others are seen. -/
lemma advance {lexed : Lexed} (sees : cursor.Sees drift before chars position (lexed :: list)) :
    ∃ rest, cursor.advance.Sees drift (before ++ (lexed.gap ++ lexed.chars)) rest
      (position.advance (lexed.gap ++ lexed.chars)) list := by
  obtain ⟨whole, lexes, ahead, here⟩ := sees
  cases lexes with
  | @token gap tail rest first kind _ _ _ _ later =>
    refine ⟨rest, ⟨?_, later, ?_, ?_⟩⟩
    · rw [advance_source, whole]
      simp
    · rw [advance_ahead, ahead]
      rfl
    · simp only [Position.advance_offset, here, Text.byteLength_append]

/-- The words ahead are those of the tokens. -/
lemma wordsFrom (sees : cursor.Sees drift before chars position list) (previous : Token)
    (behind : previous.span.stop = position.offset) :
    wordsFrom cursor.source previous cursor.ahead = list.map Lexed.word := by
  induction list generalizing cursor before chars position previous with
  | nil =>
    rw [sees.ahead]
    rfl
  | cons lexed list ih =>
    obtain ⟨rest, next⟩ := sees.advance
    obtain ⟨gap, eq⟩ := sees.lexes.spelling_append
    have cutOut := Text.slice?_append cursor.source before lexed.gap
      (lexed.chars ++ Lexed.spelling list ++ gap) (by simp [sees.whole, eq])
    have later := ih next cursor.current (by
      simp [Cursor.current, Cursor.peek, sees.ahead, Lexed.placed, Span.between])
    rw [advance_source, advance_ahead] at later
    rw [sees.ahead] at later ⊢
    simp only [Lexed.placed, List.tail_cons, SqlTree.wordsFrom, List.map_cons] at later ⊢
    congr 1
    · simpa [Lexed.word, Span.between, Position.advance_offset, sees.here, behind] using cutOut
    · rw [← later]
      simp [Cursor.current, Cursor.peek, sees.ahead, Lexed.placed]

/-- The words ahead are those of the tokens that are seen. -/
lemma words (sees : cursor.Sees drift before chars position list) :
    cursor.words = Lexed.words list := by
  cases list with
  | nil =>
    unfold Cursor.words
    rw [sees.ahead]
    rfl
  | cons lexed list =>
    obtain ⟨rest, next⟩ := sees.advance
    have later := next.wordsFrom cursor.current (by
      simp [Cursor.current, Cursor.peek, sees.ahead, Lexed.placed, Span.between])
    rw [advance_source, advance_ahead] at later
    unfold Cursor.words
    rw [sees.ahead] at later ⊢
    simp only [Lexed.placed, List.tail_cons, Lexed.words] at later ⊢
    rw [← later]
    simp [Lexed.word, Cursor.current, Cursor.peek, sees.ahead, Lexed.placed]

end Sees

/-- The words of a source are those of its tokens. -/
lemma words_source (source : String) {list : List Lexed} (lexes : Lexes drift source.toList list) :
    (Cursor.ofSource drift source).words = Lexed.words list :=
  (Sees.ofSource lexes).words

/-- What is ahead of a reachable place. -/
lemma Reachable.sees (reachable : cursor.Reachable drift) :
    ∃ before chars position list, cursor.Sees drift before chars position list := by
  obtain ⟨count, eq⟩ := reachable
  generalize cursor.source = source at eq
  subst eq
  induction count with
  | zero =>
    obtain ⟨list, lexes⟩ := Lexes.exists_of_text drift source.toList
    exact ⟨_, _, _, _, .ofSource lexes⟩
  | succ count ih =>
    obtain ⟨before, chars, position, list, sees⟩ := ih
    rw [Function.iterate_succ_apply']
    cases list with
    | nil =>
      have still : (Cursor.advance^[count] (Cursor.ofSource drift source)).advance =
          Cursor.advance^[count] (Cursor.ofSource drift source) := by
        generalize Cursor.advance^[count] (Cursor.ofSource drift source) = there at sees
        unfold Cursor.advance
        simp [sees.ahead, Lexed.placed]
      rw [still]
      exact ⟨_, _, _, _, sees⟩
    | cons lexed list =>
      obtain ⟨rest, next⟩ := sees.advance
      exact ⟨_, _, _, _, next⟩

/-! ### Slices -/

namespace Sees

variable {before chars : List Char} {position : Position} {first : Lexed} {list : List Lexed}

/-- Where the last of the next tokens ends. -/
lemma stop_peek (sees : cursor.Sees drift before chars position list) {count : Nat}
    (within : count < list.length) :
    (cursor.peek count).span.stop =
      Text.byteLength (before ++ Lexed.spelling (list.take (count + 1))) := by
  induction count generalizing cursor before chars position list with
  | zero =>
    cases list with
    | nil => exact absurd within (Nat.not_lt_zero _)
    | cons lexed list =>
      simp [Cursor.peek, sees.ahead, Lexed.placed, Span.between, Position.advance_offset,
        sees.here, Nat.add_assoc]
  | succ count ih =>
    cases list with
    | nil => exact absurd within (Nat.not_lt_zero _)
    | cons lexed list =>
      obtain ⟨rest, next⟩ := sees.advance
      have later := ih next (by simpa using within)
      rw [peek_advance] at later
      rw [later]
      simp

/-- The source from the next token up to a later one. -/
lemma slice (sees : cursor.Sees drift before chars position (first :: list)) {count : Nat}
    (within : count ≤ list.length) :
    Text.slice? cursor.source cursor.current.span.start (cursor.peek count).span.stop =
      some (String.ofList (first.chars ++ Lexed.spelling (list.take count))) := by
  obtain ⟨gap, eq⟩ := sees.lexes.spelling_append
  have split : Lexed.spelling list =
      Lexed.spelling (list.take count) ++ Lexed.spelling (list.drop count) := by
    rw [Lexed.spelling, Lexed.spelling, Lexed.spelling, ← List.flatMap_append,
      List.take_append_drop]
  have cutOut := Text.slice?_append cursor.source (before ++ first.gap)
    (first.chars ++ Lexed.spelling (list.take count)) (Lexed.spelling (list.drop count) ++ gap)
    (by simp [sees.whole, eq, split])
  rw [sees.stop_peek (by simp only [List.length_cons]; omega)]
  have start : cursor.current.span.start = Text.byteLength (before ++ first.gap) := by
    simp [Cursor.current, Cursor.peek, sees.ahead, Lexed.placed, Span.between,
      Position.advance_offset, sees.here]
  rw [start]
  simpa using cutOut

end Sees

/-- **The words of the text from one token to another** are those ahead of the first token, up to
the other one. -/
theorem Reachable.words_slice (reachable : cursor.Reachable drift) {count : Nat}
    (within : count < cursor.ahead.length) :
    ∃ text, Text.slice? cursor.source cursor.current.span.start (cursor.peek count).span.stop =
        some text ∧
      (Cursor.ofSource drift text).words = cursor.words.take (count + 1) ∧
      text = Word.joined (cursor.words.take (count + 1)) := by
  obtain ⟨before, chars, position, list, sees⟩ := reachable.sees
  cases list with
  | nil => simp [sees.ahead, Lexed.placed] at within
  | cons first list =>
    have within : count ≤ list.length := by
      simpa [sees.ahead, Lexed.placed, Nat.lt_succ_iff] using within
    have size : (list.take count).length = count := by
      rw [List.length_take, Nat.min_eq_left within]
    refine ⟨_, sees.slice within, ?_, ?_⟩
    · have lexes := sees.lexes.respace rfl { first with gap := [] } (list.take count) rfl rfl
        .nil (by
          rw [size, List.forall₂_same]
          intro lexed mem
          have isGap := sees.lexes.gaps lexed (List.mem_cons_of_mem _ (List.mem_of_mem_take mem))
          exact ⟨rfl, rfl, isGap, .inl rfl⟩)
      rw [words_source (String.ofList (first.chars ++ Lexed.spelling (list.take count)))
        (by simpa using lexes), sees.words]
      simp [Lexed.words, Lexed.word, List.map_take]
    · rw [sees.words]
      rw [Lexed.words, List.take_succ_cons, Word.joined, ← List.map_take, Lexed.joined_words,
        String.ofList_append]
      rfl

end Cursor

end SqlTree
