import SqlTree.Proofs.Bounds.Alike

set_option autoImplicit false

/-!
# Careful parsers

A parser is careful if it takes a token only after it has seen that there is a well-formed one,
complains only about the next token or about a place that it has reached, reads text only from the
start of such a token on, asks for the drift extensions only where the answer matters to
placeholders and nested queries, and goes on in the same way whether the input ends or a semicolon
or a closing parenthesis follows.

## Main definitions

* `SqlTree.Sequel` — what may follow a source in a longer one.
* `SqlTree.Cursor.Begins` — a span begins where a token begins that is reached.
* `SqlTree.Cursor.Passes` — a token that is reached before a place begins at an offset.
* `SqlTree.Parser.Orderly` — whatever a run meets from a place on is in order.
* `SqlTree.Parser.CarefulAt`, `SqlTree.Parser.Careful` — a parser is careful at a place, and at
  every place that is reached.

## Main results

* `SqlTree.Parser.Careful.bind` — sequences of careful parsers are careful.
-/

namespace SqlTree

/-! ## Places in a longer source -/

/-- A token of this kind may follow a source in a longer one: it is a semicolon or a closing
parenthesis. -/
@[simp]
def TokenKind.IsSeparator (kind : TokenKind) : Prop :=
  kind = .symbol .semicolon ∨ kind = .symbol .rightParen

/-- What follows a source in a longer one: a separator and more tokens. -/
structure Sequel where
  /-- The semicolon or the closing parenthesis. -/
  separator : Token
  isSeparator : separator.kind.IsSeparator
  /-- The tokens after it. -/
  later : List Token
  /-- The end of the longer source. -/
  last : Token

/-- A token of this kind can be taken: it is well formed, and not the end of input. -/
def TokenKind.isProper : TokenKind → Bool
  | .endOfInput | .malformed _ => false
  | _ => true

/-- The token can be taken. -/
def Token.IsProper (token : Token) : Prop :=
  token.kind.isProper = true

namespace Token.IsProper

variable {token : Token}

/-- A token that can be taken is not malformed. -/
lemma sound (proper : token.IsProper) : token.kind.isMalformed = false := by
  unfold IsProper at proper
  generalize token.kind = kind at proper ⊢
  cases kind with
  | malformed => cases proper
  | _ => rfl

/-- A token that can be taken is not the end of input. -/
lemma inside (proper : token.IsProper) : token.kind ≠ .endOfInput := by
  intro kind
  simp [IsProper, kind, TokenKind.isProper] at proper

/-- A token whose kind can be taken can be taken. -/
lemma of_kind {kind : TokenKind} (eq : token.kind = kind) (proper : kind.isProper = true) :
    token.IsProper := by
  rw [IsProper, eq, proper]

end Token.IsProper

namespace Cursor

variable {cursor : Cursor}

/-- The same place in a longer source. -/
def before (cursor : Cursor) (sequel : Sequel) : Cursor :=
  { cursor with
    ahead := cursor.ahead ++ sequel.separator :: sequel.later
    last := sequel.last }

/-- Where a token is ahead, going on by a token and letting the source go on with a sequel may be
done in either order. -/
lemma advance_before (sequel : Sequel) (some : cursor.ahead ≠ []) :
    (cursor.before sequel).advance = cursor.advance.before sequel := by
  obtain ⟨token, rest, eq⟩ := List.exists_cons_of_ne_nil some
  simp [before, advance, eq]

/-- The tokens that are ahead are the same in a longer source. -/
lemma peek_before (sequel : Sequel) {distance : Nat} (lt : distance < cursor.ahead.length) :
    (cursor.before sequel).peek distance = cursor.peek distance := by
  simp [before, peek, List.getElem?_append_left lt, List.getElem?_eq_getElem lt]

/-- Where a token is ahead, the next token is the same in a longer source. -/
lemma current_before (sequel : Sequel) (some : cursor.ahead ≠ []) :
    (cursor.before sequel).current = cursor.current :=
  peek_before sequel (List.length_pos_iff.mpr some)

/-- Where a source ended, the longer source has the separator. -/
lemma peek_before_end (sequel : Sequel) :
    (cursor.before sequel).peek cursor.ahead.length = sequel.separator := by
  simp [before, peek]

/-- From the end of the tokens ahead on, all that is seen is the end of input. -/
lemma peek_end {distance : Nat} (ends : cursor.Ends) (le : cursor.ahead.length ≤ distance) :
    (cursor.peek distance).kind = .endOfInput := by
  unfold peek
  rw [List.getD_eq_getElem?_getD, List.getElem?_eq_none le]
  exact ends

/-- What is reached from a place past well-formed tokens. -/
def Reaches (origin cursor : Cursor) : Prop :=
  ∃ count, cursor = advance^[count] origin ∧
    ∀ i < count, (origin.peek i).kind.isMalformed = false

/-- A place reaches itself. -/
lemma Reaches.refl (origin : Cursor) : origin.Reaches origin :=
  ⟨0, rfl, fun _ lt => absurd lt (Nat.not_lt_zero _)⟩

/-- What is seen after going on by some tokens is what was seen that many tokens further on. -/
lemma peek_iterate_advance (origin : Cursor) (count distance : Nat) :
    (advance^[count] origin).peek distance = origin.peek (count + distance) := by
  induction count generalizing distance with
  | zero => simp
  | succ count ih =>
    rw [Function.iterate_succ_apply', peek_advance, ih]
    congr 1
    omega

/-- A place that is reached reaches the next one past a well-formed token. -/
lemma Reaches.advance {origin : Cursor} (reached : origin.Reaches cursor)
    (sound : cursor.current.kind.isMalformed = false) : origin.Reaches cursor.advance := by
  obtain ⟨count, rfl, passed⟩ := reached
  refine ⟨count + 1, by rw [Function.iterate_succ_apply'], fun i lt => ?_⟩
  rcases Nat.lt_succ_iff_lt_or_eq.mp lt with earlier | rfl
  · exact passed i earlier
  · unfold current at sound
    rwa [peek_iterate_advance] at sound

/-- Where a place is reached from one at whose source the last token marks the end of input, the
same holds of the place itself. -/
lemma Reaches.ends {origin : Cursor} (reached : origin.Reaches cursor) (ends : origin.Ends) :
    cursor.Ends := by
  obtain ⟨count, rfl, -⟩ := reached
  unfold Ends
  rwa [(iterate_advance origin count).2.1]

/-- The offset is where a token begins that is reached, at the place or before it. -/
def Passes (origin cursor : Cursor) (offset : Nat) : Prop :=
  ∃ place, origin.Reaches place ∧ place.Reaches cursor ∧ offset = place.current.span.start

/-- A place that is reached passes the offset where its next token begins. -/
lemma Reaches.passes {origin : Cursor} (reached : origin.Reaches cursor) :
    origin.Passes cursor cursor.current.span.start :=
  ⟨cursor, reached, .refl cursor, rfl⟩

/-- An offset that has been passed stays so past a well-formed token. -/
lemma Passes.advance {origin : Cursor} {offset : Nat} (passes : origin.Passes cursor offset)
    (sound : cursor.current.kind.isMalformed = false) : origin.Passes cursor.advance offset := by
  obtain ⟨place, first, second, eq⟩ := passes
  exact ⟨place, first, second.advance sound, eq⟩

/-- The span begins where a token begins that is reached. -/
def Begins (origin : Cursor) (span : Span) : Prop :=
  ∃ cursor, origin.Reaches cursor ∧ span.start = cursor.current.span.start ∧
    span.line = cursor.current.span.line ∧ span.column = cursor.current.span.column

/-- The span of the next token of a place that is reached begins where a reached token begins. -/
lemma Reaches.begins {origin : Cursor} (reached : origin.Reaches cursor) :
    origin.Begins cursor.current.span :=
  ⟨cursor, reached, rfl, rfl, rfl⟩

/-- A span that goes on from where another one starts begins where that one does. -/
lemma Begins.spanFrom {origin : Cursor} {start : Span} (begins : origin.Begins start)
    (cursor : Cursor) : origin.Begins (cursor.spanFrom start) := by
  obtain ⟨place, reached, first, line, column⟩ := begins
  exact ⟨place, reached, first, line, column⟩

/-- Where a well-formed token is next, a token is ahead. -/
lemma ahead_of_proper (ends : cursor.Ends) (proper : cursor.current.IsProper) :
    cursor.ahead ≠ [] :=
  List.length_pos_iff.mp (Parser.ahead_of_ends ends proper.inside)

end Cursor

/-- The error is about the next token, or its span begins where a token begins that is reached. -/
def ParseError.Fits (error : ParseError) (origin cursor : Cursor) : Prop :=
  match error with
  | .unexpected _ found => found = cursor.current
  | .unsupported _ _ span | .invalid _ span | .exhausted span => origin.Begins span

namespace Parser

variable {α β : Type}

/-! ## Orderly runs -/

/-- The parser accepts nothing at a place, in any dialect. -/
def NeverAt (parser : Parser α) (cursor : Cursor) : Prop :=
  ∀ ⦃dialect value stop⦄, parser.run dialect cursor ≠ .accepted value stop

/-- Whatever a run meets from a place on is in order: a token that is taken can be taken, an error
fits the place, text is read from the start of a token on, and what is accepted is good. Whether the
drift extensions are read is asked only at a placeholder, or where without them nothing is
accepted. -/
def Orderly (origin : Cursor) : Parser α → Cursor → (α → Prop) → Prop
  | .done value, _, good => good value
  | .reject error, cursor, _ => error.Fits origin cursor
  | .look next, cursor, good => (next cursor.view).Orderly origin cursor good
  | .take next, cursor, good =>
    cursor.current.IsProper ∧ (next cursor.current).Orderly origin cursor.advance good
  | .demand _ _ span next, cursor, good =>
    origin.Begins span ∧ (next ()).Orderly origin cursor good
  | .ask next, cursor, good =>
    (cursor.view.dollarName?.isSome ∨ (next false).NeverAt cursor) ∧
      ∀ drift, (next drift).Orderly origin cursor good
  | .read start next, cursor, good =>
    origin.Passes cursor start ∧ ∀ text, (next text).Orderly origin cursor good

namespace Orderly

variable {origin cursor : Cursor} {good : α → Prop} {later : β → Prop} {parser : Parser α}

/-- What is orderly with values of one kind is orderly with values of any wider kind. -/
lemma mono {weaker : α → Prop} (orderly : parser.Orderly origin cursor good)
    (weakens : ∀ value, good value → weaker value) : parser.Orderly origin cursor weaker := by
  induction parser generalizing cursor with
  | done value => exact weakens value orderly
  | reject error => exact orderly
  | look next ih => exact ih _ orderly
  | take next ih | demand feature construct span next ih => exact ⟨orderly.1, ih _ orderly.2⟩
  | ask next ih => exact ⟨orderly.1, fun drift => ih drift (orderly.2 drift)⟩
  | read start next ih => exact ⟨orderly.1, fun text => ih text (orderly.2 text)⟩

/-- A sequence is orderly if its parts are, the second one wherever the first may end. -/
lemma bind {next : α → Parser β} (first : parser.Orderly origin cursor good)
    (reached : origin.Reaches cursor)
    (second : ∀ ⦃value stop⦄, good value → origin.Reaches stop →
      (next value).Orderly origin stop later) :
    (parser >>= next).Orderly origin cursor later := by
  change (parser.andThen next).Orderly origin cursor later
  induction parser generalizing cursor with
  | done value => exact second first reached
  | reject error => exact first
  | look continuation ih => exact ih _ first reached
  | take continuation ih => exact ⟨first.1, ih _ first.2 (reached.advance first.1.sound)⟩
  | demand feature construct span continuation ih => exact ⟨first.1, ih _ first.2 reached⟩
  | ask continuation ih =>
    refine ⟨first.1.imp_right fun never dialect value stop run => ?_,
      fun drift => ih drift (first.2 drift) reached⟩
    obtain ⟨part, middle, run, -, -⟩ := accepted_bind run
    exact never run
  | read start continuation ih => exact ⟨first.1, fun text => ih text (first.2 text) reached⟩

/-- What an orderly run accepts is good, and the place where it ends is reached. -/
lemma accepted {dialect : Dialect} {value : α} {stop : Cursor}
    (orderly : parser.Orderly origin cursor good) (reached : origin.Reaches cursor)
    (run : parser.run dialect cursor = .accepted value stop) :
    good value ∧ origin.Reaches stop := by
  induction parser generalizing cursor with
  | done other =>
    simp only [Parser.run, Outcome.accepted.injEq] at run
    obtain ⟨rfl, rfl⟩ := run
    exact ⟨orderly, reached⟩
  | reject error => simp [Parser.run] at run
  | look next ih => exact ih _ orderly reached run
  | take next ih =>
    simp only [Parser.run] at run
    split at run
    · simp at run
    · exact ih _ orderly.2 (reached.advance orderly.1.sound) run
  | demand feature construct span next ih =>
    simp only [Parser.run] at run
    split at run
    · exact ih _ orderly.2 reached run
    · simp at run
  | ask next ih => exact ih _ (orderly.2 _) reached run
  | read start next ih => exact ih _ (orderly.2 _) reached run

end Orderly

/-! ## Careful parsers -/

/-- What surrounds a run: the place where it starts, and perhaps what follows the source. -/
structure Surroundings where
  /-- The place where the run starts. -/
  origin : Cursor
  ends : origin.Ends
  inner : ∀ token ∈ origin.ahead, token.kind ≠ .endOfInput
  /-- What follows the source in a longer one. -/
  sequel : Option Sequel

variable {S : Surroundings} {good : α → Prop} {later : β → Prop} {cursor : Cursor}

/-- The end of input is next only where no token is ahead. -/
lemma Surroundings.ahead_of_end (S : Surroundings) (reached : S.origin.Reaches cursor)
    (atEnd : cursor.current.kind = .endOfInput) : cursor.ahead = [] := by
  obtain ⟨count, rfl, -⟩ := reached
  by_contra some
  obtain ⟨token, rest, eq⟩ := List.exists_cons_of_ne_nil some
  have mem : token ∈ S.origin.ahead :=
    List.mem_of_mem_drop ((Cursor.iterate_advance S.origin count).1 ▸ eq ▸ List.mem_cons_self)
  apply S.inner token mem
  rwa [show (Cursor.advance^[count] S.origin).current = token by
    unfold Cursor.current Cursor.peek; rw [eq]; rfl] at atEnd

/-- The first parser is orderly at a place, and what it accepts there the second one accepts too
when the source is longer. -/
structure CarefulAt (S : Surroundings) (parser : Parser α) (longer : Sequel → Parser α)
    (good : α → Prop) (cursor : Cursor) : Prop where
  orderly : parser.Orderly S.origin cursor good
  goesOn : ∀ sequel ∈ S.sequel, ∀ ⦃dialect value stop⦄,
    parser.run dialect cursor = .accepted value stop →
      (longer sequel).run dialect (cursor.before sequel) = .accepted value (stop.before sequel)

/-- The parser is careful at a place, and does there what it does when the source is longer. -/
abbrev CarefulOn (S : Surroundings) (parser : Parser α) (good : α → Prop) (cursor : Cursor) :
    Prop :=
  CarefulAt S parser (fun _ => parser) good cursor

/-- The parser is careful at every place that is reached. -/
def Careful (S : Surroundings) (parser : Parser α) (good : α → Prop) : Prop :=
  ∀ ⦃cursor⦄, S.origin.Reaches cursor → CarefulOn S parser good cursor

/-- The parser accepts nothing at the end of input. -/
def Solid (parser : Parser α) : Prop :=
  ∀ ⦃cursor⦄, cursor.Ends → cursor.ahead = [] → parser.NeverAt cursor

end Parser

end SqlTree
