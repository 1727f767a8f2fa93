import SqlTree.Proofs.Careful.Source
import SqlTree.Proofs.Sources

set_option autoImplicit false

/-!
# Malformed tokens

A malformed token is never passed: whatever a parser takes it has seen to be something else. So a
source with malformed tokens is rejected, no error is behind the first of them, and an error that
tells of a malformed token tells of the first one.

## Main definitions

* `SqlTree.Parser.runFreely` — runs that would take malformed tokens like any others.
* `SqlTree.Dialect.firstMalformed` — the first malformed token of a source.

## Main results

* `SqlTree.Parser.Orderly.rejected` — an error of an orderly run fits the place where it ends.
* `SqlTree.Entry.parse_malformed` — what becomes of malformed tokens.
-/

namespace SqlTree

/-! ## Runs that stop -/

namespace Parser

variable {α : Type} {origin cursor stop : Cursor} {good : α → Prop} {parser : Parser α}
  {dialect : Dialect}

/-- Runs a parser that takes every token that is next, the malformed ones too. -/
def runFreely (dialect : Dialect) : Parser α → Cursor → Outcome α
  | .done value, cursor => .accepted value cursor
  | .reject error, cursor => .rejected error cursor
  | .look next, cursor => (next cursor.view).runFreely dialect cursor
  | .take next, cursor => (next cursor.current).runFreely dialect cursor.advance
  | .demand feature construct span next, cursor =>
    if dialect.supports feature then
      (next ()).runFreely dialect cursor
    else
      .rejected (.unsupported construct dialect.name span) cursor
  | .ask next, cursor => (next dialect.isDrift).runFreely dialect cursor
  | .read start next, cursor => (next (cursor.textFrom start)).runFreely dialect cursor

/-- Taking a token that is not malformed. -/
lemma run_take {next : Token → Parser α} (sound : cursor.current.kind.isMalformed = false) :
    (Parser.take next).run dialect cursor = (next cursor.current).run dialect cursor.advance :=
  run_advance_bind sound

namespace Orderly

/-- An orderly run meets no malformed token that it would take. -/
lemma runFreely_eq (orderly : parser.Orderly origin cursor good) :
    parser.runFreely dialect cursor = parser.run dialect cursor := by
  induction parser generalizing cursor with
  | done value | reject error => rfl
  | look next ih => exact ih _ orderly
  | take next ih => exact (ih _ orderly.2).trans (run_take orderly.1.sound).symm
  | demand feature construct span next ih =>
    simp only [runFreely, run]
    split
    · exact ih _ orderly.2
    · rfl
  | ask next ih => exact ih _ (orderly.2 _)
  | read start next ih => exact ih _ (orderly.2 _)

/-- An error of an orderly run fits the place where the run ends, and this place is reached. -/
lemma rejected {error : ParseError} (orderly : parser.Orderly origin cursor good)
    (reached : origin.Reaches cursor) (run : parser.run dialect cursor = .rejected error stop) :
    origin.Reaches stop ∧ error.Fits origin stop := by
  induction parser generalizing cursor with
  | done value => simp [Parser.run] at run
  | reject other =>
    obtain ⟨rfl, rfl⟩ : other = error ∧ cursor = stop := by simpa [Parser.run] using run
    exact ⟨reached, orderly⟩
  | look next ih => exact ih _ orderly reached run
  | take next ih =>
    rw [run_take orderly.1.sound] at run
    exact ih _ orderly.2 (reached.advance orderly.1.sound) run
  | demand feature construct span next ih =>
    simp only [Parser.run] at run
    split at run
    · exact ih _ orderly.2 reached run
    · obtain ⟨rfl, rfl⟩ : _ = error ∧ cursor = stop := by simpa using run
      exact ⟨reached, orderly.1⟩
  | ask next ih => exact ih _ (orderly.2 _) reached run
  | read start next ih => exact ih _ (orderly.2 _) reached run

end Orderly

end Parser

/-! ## Tokens around a place -/

namespace Cursor

variable {origin cursor : Cursor}

/-- The tokens from a place on, with the end of input. -/
def remaining (cursor : Cursor) : List Token :=
  cursor.ahead ++ [cursor.last]

/-- What is seen is one of the remaining tokens. -/
lemma peek_eq_remaining (distance : Nat) (le : distance ≤ cursor.ahead.length) :
    cursor.remaining[distance]? = some (cursor.peek distance) := by
  unfold remaining peek
  rcases Nat.lt_or_eq_of_le le with lt | rfl
  · rw [List.getElem?_append_left lt]
    simp [List.getElem?_eq_getElem lt]
  · simp

/-- The tokens before a place that is reached are not malformed. -/
lemma Reaches.split (reached : origin.Reaches cursor) :
    ∃ passed later, origin.remaining = passed ++ cursor.current :: later ∧
      ∀ token ∈ passed, token.kind.isMalformed = false := by
  obtain ⟨count, rfl, passed⟩ := reached
  -- the end of input is never passed
  obtain ⟨place, le, here, passed⟩ : ∃ place, place ≤ origin.ahead.length ∧
      (Cursor.advance^[count] origin).current = origin.peek place ∧
      ∀ i < place, (origin.peek i).kind.isMalformed = false := by
    rcases Nat.le_total count origin.ahead.length with le | ge
    · exact ⟨count, le, peek_iterate_advance origin count 0, passed⟩
    · refine ⟨_, Nat.le_refl _, (peek_iterate_advance origin count 0).trans ?_,
        fun i lt => passed i (by omega)⟩
      unfold peek
      rw [List.getD_eq_default _ _ (by omega), List.getD_eq_default _ _ (Nat.le_refl _)]
  refine ⟨origin.remaining.take place, origin.remaining.drop (place + 1), ?_, fun token mem => ?_⟩
  · have at_ := peek_eq_remaining place le
    obtain ⟨lt, eq⟩ := List.getElem?_eq_some_iff.mp at_
    rw [here, ← eq, List.getElem_cons_drop, List.take_append_drop]
  · obtain ⟨i, lt, rfl⟩ := List.mem_take_iff_getElem.mp mem
    have at_ := peek_eq_remaining i (show i ≤ origin.ahead.length by omega)
    obtain ⟨_, eq⟩ := List.getElem?_eq_some_iff.mp at_
    rw [eq]
    exact passed i (by omega)

/-- The tokens of a source are those ahead of its start, with the end of input. -/
lemma remaining_ofSource (drift : Bool) (source : String) :
    (ofSource drift source).remaining = tokenize drift source := by
  obtain ⟨others, last, eq, isEnd, -, -, -, inner⟩ := (lossless_tokenize drift source).ends
  unfold remaining ofSource
  rw [eq, ofTokens_concat source (fun token mem => (inner token mem).1) isEnd]

end Cursor

/-! ## The first malformed token -/

/-- The first malformed token of a source, if it has any. -/
def Dialect.firstMalformed (dialect : Dialect) (source : String) : Option Token :=
  (tokenize dialect.isDrift source).find? (·.kind.isMalformed)

namespace Dialect

variable {dialect : Dialect} {source : String} {cursor : Cursor}

/-- The first malformed token is at a place that is reached, or behind it. -/
lemma firstMalformed_of_reaches (reached : (dialect.start source).Reaches cursor) :
    ∃ passed later, tokenize dialect.isDrift source = passed ++ cursor.current :: later ∧
      dialect.firstMalformed source = (cursor.current :: later).find? (·.kind.isMalformed) := by
  obtain ⟨passed, later, eq, sound⟩ := reached.split
  rw [start, Cursor.remaining_ofSource] at eq
  refine ⟨passed, later, eq, ?_⟩
  rw [firstMalformed, eq, List.find?_append, List.find?_eq_none.mpr fun token mem => by
    simp [sound token mem], Option.none_or]

/-- No place that is reached is behind the first malformed token. -/
lemma start_le_firstMalformed (reached : (dialect.start source).Reaches cursor) {token : Token}
    (first : dialect.firstMalformed source = some token) :
    cursor.current.span.start ≤ token.span.start := by
  obtain ⟨passed, later, eq, found⟩ := firstMalformed_of_reaches reached
  have lossless := lossless_tokenize dialect.isDrift source
  have mem := List.mem_of_find?_eq_some (found.symm.trans first)
  rcases List.mem_cons.mp mem with rfl | mem
  · exact Nat.le_refl _
  · have ordered := lossless.ordered
    have inside := (lossless.inside cursor.current (by simp [eq])).1
    rw [eq] at ordered
    have := (List.pairwise_cons.mp (List.pairwise_append.mp ordered).2.1).1 token mem
    omega

/-- Where the end of input is reached, no token of the source is malformed, and the end is where the
source ends. -/
lemma firstMalformed_of_end (reached : (dialect.start source).Reaches cursor)
    (atEnd : cursor.current.kind = .endOfInput) :
    (∀ token ∈ tokenize dialect.isDrift source, token.kind.isMalformed = false) ∧
      cursor.current.span.start = source.utf8ByteSize ∧
      cursor.current.span.stop = source.utf8ByteSize := by
  obtain ⟨passed, later, eq, found⟩ := firstMalformed_of_reaches reached
  obtain ⟨others, last, eq', isEnd, -, start, stop, inner⟩ :=
    (lossless_tokenize dialect.isDrift source).ends
  -- only the last token is the end of input
  have nothing : later = [] := by
    by_contra some
    have dropped := congrArg List.dropLast (eq.symm.trans eq')
    rw [List.dropLast_append_of_ne_nil (List.cons_ne_nil _ _), List.dropLast_cons_of_ne_nil some,
      List.dropLast_concat] at dropped
    exact (inner cursor.current (by simp [← dropped])).1 atEnd
  subst nothing
  obtain ⟨-, same⟩ := List.append_inj' (eq.symm.trans eq') rfl
  obtain rfl : cursor.current = last := by simpa using same
  refine ⟨?_, start, stop⟩
  have none : dialect.firstMalformed source = none := by
    rw [found]
    simp [atEnd, TokenKind.isMalformed]
  simpa [firstMalformed] using none

end Dialect

/-! ## What becomes of malformed tokens -/

/-- Only the end of input is told of as one. -/
lemma ParseError.found_of_unexpectedEnd {expected : String} {found : Token}
    (ended : (ParseError.unexpected expected found).kind = .unexpectedEnd) :
    found.kind = .endOfInput := by
  cases kind : found.kind with
  | endOfInput => rfl
  | _ => simp [ParseError.kind, kind] at ended

namespace Entry

/-- Reads a source with a parser that would take malformed tokens like any others. -/
def parseFreely (entry : Entry) (dialect : Dialect) (source : String) :
    Except ParseError entry.Tree :=
  let start := dialect.start source
  ((entry.parser (Grammar.rulesFor start.ahead.length)).runFreely dialect start).result

variable {entry : Entry} {dialect : Dialect} {source : String}

/-- A parser that would take malformed tokens reads the same. -/
lemma parseFreely_eq (entry : Entry) (dialect : Dialect) (source : String) :
    entry.parseFreely dialect source = entry.parse dialect source := by
  rw [entry.parse_eq]
  exact congrArg Outcome.result (entry.start_orderly dialect source).runFreely_eq

/-- What is accepted has no malformed token. -/
lemma sound_of_parse {tree : entry.Tree} (ok : entry.parse dialect source = .ok tree) :
    ∀ token ∈ tokenize dialect.isDrift source, token.kind.isMalformed = false := by
  rw [entry.parse_eq] at ok
  obtain ⟨stop, run⟩ := Outcome.accepted_of_result ok
  have reached := ((entry.start_orderly dialect source).accepted (.refl _) run).2
  exact (Dialect.firstMalformed_of_end reached
    (Token.isEnd_iff.mp (entry.accepted_end run))).1

/-- An error fits a place that is reached. -/
lemma fits_of_parse {error : ParseError} (failed : entry.parse dialect source = .error error) :
    ∃ stop, (dialect.start source).Reaches stop ∧ error.Fits (dialect.start source) stop := by
  rw [entry.parse_eq] at failed
  unfold Grammar.bounded at failed
  cases run : (entry.parser (Grammar.rulesFor (dialect.start source).ahead.length)).run dialect
      (dialect.start source) with
  | accepted tree stop => simp [run, Outcome.result] at failed
  | rejected other stop =>
    obtain rfl : other = error := by simpa [run, Outcome.result] using failed
    exact ⟨stop, (entry.start_orderly dialect source).rejected (.refl _) run⟩

/-- **No malformed token is accepted, and it is the first one that is told of.** A parser that would
take malformed tokens like any others never meets one. A source that has one is rejected; an error
about a malformed token is about the first one; where the input ends too early there is none; and no
error is behind the first one.

**Proof sketch.** The first part is `parseFreely_eq`. What is accepted has no malformed token
(`sound_of_parse`), which is the second one. An error stands at a place that was reached
(`fits_of_parse`), so all tokens passed before it are sound, and it is about a malformed token only
if this is the next one, which is then the first; and it ends the input too early only where no
token is left. -/
theorem parse_malformed (entry : Entry) (dialect : Dialect) (source : String) :
    entry.parseFreely dialect source = entry.parse dialect source ∧
    ((∃ token ∈ tokenize dialect.isDrift source, token.kind.isMalformed = true) →
      ∃ error, entry.parse dialect source = .error error) ∧
    ∀ error, entry.parse dialect source = .error error →
      (error.kind = .lex → ∃ token cause, dialect.firstMalformed source = some token ∧
        token.kind = .malformed cause ∧ error.span = token.span ∧
        error.message = cause.message) ∧
      (error.kind = .unexpectedEnd →
        (∀ token ∈ tokenize dialect.isDrift source, token.kind.isMalformed = false) ∧
        error.span.start = source.utf8ByteSize ∧ error.span.stop = source.utf8ByteSize) ∧
      ∀ token, dialect.firstMalformed source = some token →
        error.span.start ≤ token.span.start := by
  refine ⟨entry.parseFreely_eq dialect source, fun found => ?_, fun error failed => ?_⟩
  · obtain ⟨token, mem, malformed⟩ := found
    cases parsed : entry.parse dialect source with
    | error error => exact ⟨error, rfl⟩
    | ok tree =>
      rw [sound_of_parse parsed token mem] at malformed
      exact absurd malformed Bool.false_ne_true
  · obtain ⟨stop, reached, fits⟩ := fits_of_parse failed
    -- an error that is not about the next token has another kind
    have behind {span : Span} (begins : (dialect.start source).Begins span) (token : Token)
        (first : dialect.firstMalformed source = some token) : span.start ≤ token.span.start := by
      obtain ⟨place, reached, start, -, -⟩ := begins
      rw [start]
      exact Dialect.start_le_firstMalformed reached first
    cases error with
    | unexpected expected found =>
      obtain rfl : found = stop.current := fits
      refine ⟨fun lex => ?_, fun atEnd => ?_, behind reached.begins⟩
      · obtain ⟨passed, later, -, first⟩ := Dialect.firstMalformed_of_reaches reached
        cases kind : stop.current.kind with
        | malformed cause =>
          refine ⟨stop.current, cause, ?_, kind, rfl, ?_⟩
          · rw [first, List.find?_cons_of_pos (by rw [kind]; rfl)]
          · simp [ParseError.message, kind]
        | _ => simp [ParseError.kind, kind] at lex
      · exact Dialect.firstMalformed_of_end reached (ParseError.found_of_unexpectedEnd atEnd)
    | unsupported construct name span | invalid reason span | exhausted span =>
      exact ⟨by simp [ParseError.kind], by simp [ParseError.kind], behind fits⟩

end Entry

end SqlTree
