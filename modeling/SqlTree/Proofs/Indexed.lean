import Mathlib.Algebra.Group.Nat.Defs
import SqlTree.Proofs.Bounds.Statement
import SqlTree.Proofs.Careful.Source
import SqlTree.Proofs.Slices

set_option autoImplicit false

/-!
# Tokens by index

A parser can also run on all tokens of a source with an index into them, where each access may fail:
an index may be behind the last token, and the ends of a slice may be inside a character. Runs on
cursors are the same runs without these tests. So the tests never fail, also when a parser is run
again and again from where it stopped.

## Main definitions

* `SqlTree.TokenStream` — the tokens of a source and an index into them, with partial accesses.
* `SqlTree.Parser.runIndexed?` — running a parser on them; no answer if an access fails.
* `SqlTree.Entry.callAll?` — entry points called one after the other.
* `SqlTree.TokenStream.Shows` — the stream is at the place of a cursor.
* `SqlTree.Scanner.InRange` — whatever scanning reads of a source is there.

## Main results

* `SqlTree.Parser.runIndexed?_eq` — orderly runs are the same on streams and on cursors.
* `SqlTree.Entry.calls_inRange` — whatever is read of a source is there.
-/

namespace SqlTree

/-! ## Partial accesses -/

/-- The tokens of a source with an index into them. -/
structure TokenStream where
  /-- The source text. -/
  source : String
  /-- All tokens, of which the last one marks the end of input. -/
  tokens : List Token
  /-- The index of the next token. -/
  index : Nat

namespace TokenStream

/-- The first token of a source. -/
def ofSource (drift : Bool) (source : String) : TokenStream :=
  ⟨source, tokenize drift source, 0⟩

/-- The index of the last token, if there are tokens. -/
def lastIndex? (stream : TokenStream) : Option Nat :=
  if stream.tokens.length = 0 then none else some (stream.tokens.length - 1)

/-- The token at a distance ahead, or the last one. -/
def peek? (stream : TokenStream) (distance : Nat) : Option Token := do
  let last ← stream.lastIndex?
  stream.tokens[min (stream.index + distance) last]?

/-- The token behind; at the start, the first token. -/
def previous? (stream : TokenStream) : Option Token :=
  stream.tokens[stream.index - 1]?

/-- What a parser sees without moving. -/
def view? (stream : TokenStream) : Option View := do
  return ⟨← stream.previous?, ← stream.peek? 0, ← stream.peek? 1, ← stream.peek? 2⟩

/-- The place after this token, which must not be behind the last token. The end of input is never
passed. -/
def after? (stream : TokenStream) (token : Token) : Option TokenStream :=
  if token.isEnd then some stream
  else if stream.index + 1 < stream.tokens.length then
    some { stream with index := stream.index + 1 }
  else none

/-- The source text from byte `start` up to the token behind. -/
def textFrom? (stream : TokenStream) (start : Nat) : Option String := do
  Text.slice? stream.source start (Cursor.stopAfter (← stream.previous?) start)

end TokenStream

/-- Runs a parser on the tokens of a source by index. There is no answer if an access fails. -/
def Parser.runIndexed? {α : Type} (dialect : Dialect) :
    Parser α → TokenStream → Option (Except ParseError α × TokenStream)
  | .done value, stream => some (.ok value, stream)
  | .reject error, stream => some (.error error, stream)
  | .look next, stream => do (next (← stream.view?)).runIndexed? dialect stream
  | .take next, stream => do
    let token ← stream.peek? 0
    match token.kind with
    | .malformed _ => return (.error (.unexpected "token" token), stream)
    | _ => (next token).runIndexed? dialect (← stream.after? token)
  | .demand feature construct span next, stream =>
    if dialect.supports feature then
      (next ()).runIndexed? dialect stream
    else
      some (.error (.unsupported construct dialect.name span), stream)
  | .ask next, stream => (next dialect.isDrift).runIndexed? dialect stream
  | .read start next, stream => do (next (← stream.textFrom? start)).runIndexed? dialect stream

namespace Entry

/-- Calls an entry point on a stream, which is left where the call stops. -/
def call? (entry : Entry) (dialect : Dialect) (stream : TokenStream) :
    Option (Except ParseError entry.Tree × TokenStream) :=
  (entry.parser (Grammar.rulesFor stream.tokens.length)).runIndexed? dialect stream

/-- Calls entry points one after the other, also after errors. -/
def callAll? (dialect : Dialect) : List Entry → TokenStream → Option TokenStream
  | [], stream => some stream
  | entry :: entries, stream => do
    let (_, later) ← entry.call? dialect stream
    callAll? dialect entries later

end Entry

/-! ## Streams and cursors -/

namespace TokenStream

/-- The stream is at the place of the cursor. -/
structure Shows (stream : TokenStream) (cursor : Cursor) : Prop where
  source : cursor.source = stream.source
  ahead : stream.tokens.drop stream.index = cursor.ahead ++ [cursor.last]
  previous : stream.previous? = some cursor.previous
  ends : cursor.Ends
  inner : ∀ token ∈ cursor.ahead, token.kind ≠ .endOfInput
  /-- Tokens begin and end between characters. -/
  places : ∀ token ∈ stream.tokens, Text.IsPlace stream.source token.span.start ∧
    Text.IsPlace stream.source token.span.stop

namespace Shows

variable {stream : TokenStream} {cursor : Cursor} (shows : stream.Shows cursor)

include shows

/-- The stream has the tokens behind, those ahead, and the last one. -/
lemma length : stream.tokens.length = stream.index + cursor.ahead.length + 1 := by
  have length := congrArg List.length shows.ahead
  simp only [List.length_drop, List.length_append, List.length_singleton] at length
  omega

/-- The index is at most that of the last token. -/
lemma inside : stream.index < stream.tokens.length := by
  have := shows.length
  omega

/-- What is seen from the cursor is in range of the stream. -/
lemma peek? (distance : Nat) : stream.peek? distance = some (cursor.peek distance) := by
  have length := shows.length
  have ahead (i : Nat) : stream.tokens[stream.index + i]? =
      (cursor.ahead ++ [cursor.last])[i]? := by
    rw [← shows.ahead, List.getElem?_drop]
  unfold TokenStream.peek? lastIndex? Cursor.peek
  rw [if_neg (by omega), Option.bind_eq_bind, Option.bind_some]
  rcases Nat.lt_or_ge distance cursor.ahead.length with lt | ge
  · rw [Nat.min_eq_left (by omega), ahead, List.getElem?_append_left lt,
      List.getD_eq_getElem?_getD, List.getElem?_eq_getElem lt, Option.getD_some]
  · rw [Nat.min_eq_right (by omega),
      show stream.tokens.length - 1 = stream.index + cursor.ahead.length by omega, ahead,
      List.getElem?_concat_length, List.getD_eq_getElem?_getD, List.getElem?_eq_none ge,
      Option.getD_none]

/-- What is seen around the cursor is in range of the stream. -/
lemma view? : stream.view? = some cursor.view := by
  unfold TokenStream.view?
  simp only [shows.previous, shows.peek?, Option.bind_eq_bind, Option.bind_some]
  rfl

/-- Tokens that are reached begin between characters. -/
lemma place_reached {place : Cursor} (reached : cursor.Reaches place) :
    Text.IsPlace stream.source place.current.span.start := by
  obtain ⟨count, rfl, -⟩ := reached
  have peek := shows.peek? count
  unfold TokenStream.peek? at peek
  obtain ⟨last, -, mem⟩ := Option.bind_eq_some_iff.mp peek
  rw [Cursor.current, Cursor.peek_iterate_advance]
  exact (shows.places _ (List.mem_of_getElem? mem)).1

/-- After a token that can be taken, the stream is at the next place.

**Proof sketch.** A token that can be taken is not the last one, so the next index is in range, and
the stream has the tokens that are ahead after a step. -/
lemma after? (proper : cursor.current.IsProper) : ∃ later,
    stream.after? cursor.current = some later ∧ later.tokens = stream.tokens ∧
      later.Shows cursor.advance := by
  have some := Cursor.ahead_of_proper shows.ends proper
  obtain ⟨token, rest, eq⟩ := List.exists_cons_of_ne_nil some
  have next : stream.index + 1 < stream.tokens.length := by
    have := shows.length
    rw [eq] at this
    simp only [List.length_cons] at this
    omega
  have current : cursor.current = token := by
    unfold Cursor.current Cursor.peek
    rw [eq]
    rfl
  have notEnd : ¬ cursor.current.isEnd = true := mt Token.isEnd_iff.mp proper.inside
  refine ⟨{ stream with index := stream.index + 1 }, by
    rw [TokenStream.after?, if_neg notEnd, if_pos next], rfl, ?_⟩
  exact {
    source := by rw [Cursor.advance_source, shows.source]
    ahead := by
      rw [Cursor.advance_ahead, Cursor.advance_last, ← List.drop_drop, shows.ahead, eq]
      rfl
    previous := by
      have ahead := congrArg List.head? shows.ahead
      rw [eq, List.head?_drop] at ahead
      rw [Cursor.advance_previous some, current]
      exact ahead
    ends := by
      unfold Cursor.Ends
      rw [Cursor.advance_last]
      exact shows.ends
    inner := fun token mem => shows.inner token (by
      rw [Cursor.advance_ahead] at mem
      exact List.mem_of_mem_tail mem)
    places := shows.places }

/-- Text is read up to the token behind. -/
lemma textFrom? {start : Nat} (place : Text.IsPlace stream.source start) :
    stream.textFrom? start = some (cursor.textFrom start) := by
  unfold TokenStream.textFrom? Cursor.textFrom Cursor.slice
  rw [shows.previous, Option.bind_eq_bind, Option.bind_some, shows.source]
  have mem : cursor.previous ∈ stream.tokens := List.mem_of_getElem? shows.previous
  have stop : Text.IsPlace stream.source (Cursor.stopAfter cursor.previous start) := by
    unfold Cursor.stopAfter
    rcases Nat.le_total cursor.previous.span.stop start with le | le
    · rwa [Nat.max_eq_right le]
    · rw [Nat.max_eq_left le]
      exact (shows.places _ mem).2
  obtain ⟨text, eq⟩ := place.slice? stop (Nat.le_max_right _ _)
  rw [eq, Option.getD_some]

end Shows

end TokenStream

/-! ## Runs -/

namespace Parser

variable {α : Type}

/-- Taking a token that is there goes on after it. -/
lemma runIndexed?_take {next : Token → Parser α} {dialect : Dialect} {token : Token}
    {stream later : TokenStream} (sound : token.kind.isMalformed = false)
    (peek : stream.peek? 0 = some token) (after : stream.after? token = some later) :
    (Parser.take next).runIndexed? dialect stream = (next token).runIndexed? dialect later := by
  rw [runIndexed?, peek, Option.bind_eq_bind, Option.bind_some, after]
  generalize token.kind = kind at sound
  cases kind with
  | malformed => cases sound
  | _ => rfl

/-- **Orderly runs are the same on streams and on cursors.** No access fails.

**Proof sketch.** By induction on the parser. What is seen from the cursor is in range
(`Shows.view?`). An orderly parser takes only tokens that can be taken, after which the stream shows
the next cursor (`Shows.after?`). Where a parser reads the text behind it, the place where that
starts is one where a token starts, so the slice exists. -/
theorem runIndexed?_eq {parser : Parser α} {dialect : Dialect} {origin cursor : Cursor}
    {good : α → Prop} {stream : TokenStream} (orderly : parser.Orderly origin cursor good)
    (shows : stream.Shows cursor) (reached : origin.Reaches cursor)
    (starts : ∀ place, origin.Reaches place → Text.IsPlace stream.source place.current.span.start) :
    ∃ later, parser.runIndexed? dialect stream = some ((parser.run dialect cursor).result, later) ∧
      later.tokens = stream.tokens ∧ later.Shows (parser.run dialect cursor).cursor := by
  induction parser generalizing cursor stream with
  | done value => exact ⟨stream, rfl, rfl, shows⟩
  | reject error => exact ⟨stream, rfl, rfl, shows⟩
  | look next ih =>
    rw [runIndexed?, shows.view?]
    exact ih _ orderly shows reached starts
  | take next ih =>
    obtain ⟨proper, orderly⟩ := orderly
    obtain ⟨later, after, tokens, shown⟩ := shows.after? proper
    obtain ⟨last, run, tokens', shown'⟩ := ih _ orderly shown
      (reached.advance proper.sound) (by
        rw [← shown.source, Cursor.advance_source, shows.source]
        exact starts)
    have peek : stream.peek? 0 = some cursor.current := shows.peek? 0
    have onward : (Parser.take next).run dialect cursor =
        (next cursor.current).run dialect cursor.advance := run_advance_bind proper.sound
    rw [runIndexed?_take proper.sound peek after, onward]
    exact ⟨last, run, tokens'.trans tokens, shown'⟩
  | demand feature construct span next ih =>
    rw [runIndexed?, Parser.run]
    split
    · exact ih _ orderly.2 shows reached starts
    · exact ⟨stream, rfl, rfl, shows⟩
  | ask next ih => exact ih _ (orderly.2 _) shows reached starts
  | read start next ih =>
    obtain ⟨⟨place, first, -, eq⟩, orderly⟩ := orderly
    rw [runIndexed?, shows.textFrom? (eq ▸ starts place first)]
    exact ih _ (orderly _) shows reached starts

end Parser

/-! ## Sources -/

namespace TokenStream

/-- The stream of a source is at its start.

**Proof sketch.** The tokens of a source are others and one that marks the end
(`lossless_tokenize`). So the tokens ahead of the cursor are the others, its last one is that mark,
and the stream has both. -/
lemma shows_ofSource (drift : Bool) (source : String) :
    (ofSource drift source).Shows (Cursor.ofSource drift source) := by
  have lossless := lossless_tokenize drift source
  obtain ⟨others, last, tokens, kind, -, -, -, each⟩ := lossless.ends
  have notEnd : ∀ token ∈ others, (!token.isEnd) = true := fun token mem => by
    rw [Bool.not_eq_true', ← Bool.not_eq_true, Token.isEnd_iff]
    exact (each token mem).1
  have isEnd : last.isEnd = true := Token.isEnd_iff.mpr kind
  have ahead : (Cursor.ofSource drift source).ahead = others := by
    change (tokenize drift source).takeWhile _ = others
    rw [tokens, List.takeWhile_append_of_pos notEnd, List.takeWhile_cons_of_neg (by simp [isEnd]),
      List.append_nil]
  have atEnd : (Cursor.ofSource drift source).last = last := by
    change ((tokenize drift source).find? _).getD _ = last
    rw [tokens, List.find?_append, List.find?_eq_none.mpr (by simpa using notEnd)]
    simp [isEnd]
  exact {
    source := rfl
    ahead := by rw [ahead, atEnd, ← tokens]; rfl
    previous := by
      have previous : (Cursor.ofSource drift source).previous =
          (Cursor.ofSource drift source).ahead.headD (Cursor.ofSource drift source).last := rfl
      rw [previous, ahead, atEnd]
      change (tokenize drift source)[0]? = _
      rw [tokens]
      cases others <;> rfl
    ends := by rw [Cursor.Ends, atEnd, kind]
    inner := by
      rw [ahead]
      exact fun token mem => (each token mem).1
    places := fun token mem => Text.isPlace_of_slice? (lossless.lexemes token mem) }

end TokenStream

namespace Entry

variable {dialect : Dialect} {stream : TokenStream} {cursor : Cursor}

/-- A call on a stream answers what it answers on the cursor, and stops at the same place. -/
lemma call?_eq (entry : Entry) (shows : stream.Shows cursor) : ∃ later,
    entry.call? dialect stream =
      some ((Grammar.bounded dialect entry.parser cursor).result, later) ∧
    later.tokens = stream.tokens ∧
    later.Shows (Grammar.bounded dialect entry.parser cursor).cursor := by
  have enough : cursor.ahead.length < stream.tokens.length + 1 := by
    have := shows.length
    omega
  have orderly := entry.parser_orderly (stream.tokens.length + 1) (stream.tokens.length + 1)
    shows.ends shows.inner
  rw [← Grammar.run_of_enough entry shows.ends enough enough]
  exact Parser.runIndexed?_eq orderly shows (.refl cursor) fun _ reached =>
    shows.place_reached reached

/-- Any calls one after the other are the same on streams and on cursors. -/
lemma callAll?_eq (calls : List Entry) (shows : stream.Shows cursor) : ∃ later,
    callAll? dialect calls stream = some later ∧ later.tokens = stream.tokens ∧
    later.Shows (calls.foldl
      (fun cursor entry => (Grammar.bounded dialect entry.parser cursor).cursor) cursor) := by
  induction calls generalizing stream cursor with
  | nil => exact ⟨stream, rfl, rfl, shows⟩
  | cons entry calls ih =>
    obtain ⟨middle, call, tokens, shown⟩ := entry.call?_eq shows
    obtain ⟨later, all, tokens', shown'⟩ := ih shown
    refine ⟨later, ?_, tokens'.trans tokens, shown'⟩
    rw [callAll?, call, Option.bind_eq_bind, Option.bind_some]
    exact all

end Entry

/-- Whatever scanning reads of a source is there, and the counters of its places have 32 bits. -/
structure Scanner.InRange (drift : Bool) (source : String) : Prop where
  /-- Scanning goes from one place between characters to another. -/
  places : ∀ count, ∃ passed,
    let scanner := (fun scanner => (next scanner).2)^[count] (ofSource drift source)
    source.toList = passed ++ scanner.rest ∧ scanner.position = Position.origin.advance passed
  /-- At each place the rest of the source is there. -/
  ahead : ∀ passed rest, source.toList = passed ++ rest →
    Text.dropBytes? source.toList (Position.origin.advance passed).offset = some rest
  /-- Between two places there is a slice. -/
  slices : ∀ passed inside rest, source.toList = passed ++ (inside ++ rest) →
    Text.slice? source (Position.origin.advance passed).offset
      (Position.origin.advance (passed ++ inside)).offset = some (String.ofList inside)
  /-- No counter overflows. -/
  counters : ∀ passed rest, source.toList = passed ++ rest →
    let place := Position.origin.advance passed
    place.offset < 2 ^ 32 ∧ place.line < 2 ^ 32 ∧ place.column < 2 ^ 32
  /-- The lexemes of tokens and the values inside them are there. -/
  tokens : ∀ token ∈ tokenize drift source, token.ReadsFrom source

/-- Every place, slice and counter of the scanner is in range, for sources that are short enough. -/
lemma Scanner.inRange (drift : Bool) {source : String}
    (short : source.utf8ByteSize < 2 ^ 32 - 1) : Scanner.InRange drift source where
  places := iterate_next source drift
  ahead passed rest whole := by
    rw [whole, Position.advance_offset, show Position.origin.offset = 0 from rfl, Nat.zero_add]
    exact Text.dropBytes?_append passed rest
  slices passed inside rest whole := by
    simpa only [Position.advance_offset, show Position.origin.offset = 0 from rfl, Nat.zero_add]
      using Text.slice?_append source passed inside rest whole
  counters passed rest whole := by
    have size : Text.byteLength passed ≤ source.utf8ByteSize := by
      rw [← Text.byteLength_toList, whole, Text.byteLength_append]
      exact Nat.le_add_right _ _
    have offset := Position.advance_offset .origin passed
    have counters := Position.origin.counters_le passed
    simp only [Position.origin] at offset counters ⊢
    omega
  tokens _ := Token.readsFrom_tokenize

/-- The quotes that are taken off a text, the first one and the last one. -/
def Text.quotePairs : List (Char × Char) :=
  [('\'', '\''), ('"', '"'), ('[', ']'), ('\x60', '\x60')]

namespace Entry

open Grammar

/-- **Whatever is read of a source is there**, if the source has less than `2 ^ 32 - 1` bytes: by
scanning, by taking quotes off any text, and by entry points that are called one after the other,
also after errors. Each call answers what it answers on the cursor where the last one stopped, and
the index stays at a token. -/
theorem calls_inRange (dialect : Dialect) {source : String}
    (short : source.utf8ByteSize < 2 ^ 32 - 1) :
    Scanner.InRange dialect.isDrift source ∧
    (∀ quotes ∈ Text.quotePairs, ∀ text,
      (Text.IsBetween quotes.1 quotes.2 text → ∃ inner,
        Text.slice? text 1 (text.utf8ByteSize - 1) = some inner ∧
          Text.between? quotes.1 quotes.2 text.toList = some inner.toList) ∧
      (¬ Text.IsBetween quotes.1 quotes.2 text →
        Text.between? quotes.1 quotes.2 text.toList = none)) ∧
    ∀ calls, ∃ stream, callAll? dialect calls (.ofSource dialect.isDrift source) = some stream ∧
      stream.tokens = tokenize dialect.isDrift source ∧ stream.index < stream.tokens.length ∧
      ∀ entry : Entry, ∃ later,
        let cursor := calls.foldl (fun cursor entry => (bounded dialect entry.parser cursor).cursor)
          (dialect.start source)
        entry.call? dialect stream = some ((bounded dialect entry.parser cursor).result, later) ∧
          later.index < later.tokens.length := by
  refine ⟨Scanner.inRange _ short, fun quotes mem text => ?_, fun calls => ?_⟩
  · have single : ∀ quotes ∈ Text.quotePairs, quotes.1.utf8Size = 1 ∧ quotes.2.utf8Size = 1 := by
      decide
    exact Text.between?_eq_slice? (single quotes mem).1 (single quotes mem).2 text
  · obtain ⟨stream, all, tokens, shows⟩ := callAll?_eq calls (TokenStream.shows_ofSource _ source)
    refine ⟨stream, all, tokens, shows.inside, fun entry => ?_⟩
    obtain ⟨later, call, -, shown⟩ := entry.call?_eq shows
    exact ⟨later, call, shown.inside⟩

/-- An expression that fails, and then a statement from where it failed. -/
theorem calls_inRange_again : ("é + SELECT 1".utf8ByteSize < 2 ^ 32 - 1) ∧
    ∃ stream, callAll? .generic [expression, statement] (.ofSource false "é + SELECT 1") =
      some stream ∧ stream.index < stream.tokens.length := by
  have short : "é + SELECT 1".utf8ByteSize < 2 ^ 32 - 1 := by decide
  obtain ⟨stream, all, -, inside, -⟩ :=
    (calls_inRange .generic short).2.2 [expression, statement]
  exact ⟨short, stream, all, inside⟩

end Entry

end SqlTree
