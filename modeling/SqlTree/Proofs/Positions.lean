import Mathlib.Data.List.Induction
import SqlTree.Proofs.Spans.Source

set_option autoImplicit false

/-!
# Lines and columns

The scanner counts lines and columns as it goes, and spans of nodes and errors take over the counts
of the tokens and nodes that they start with. Here the line and the column of an offset are counted
afresh from the characters before it, and every span of a source turns out to have them.

## Main definitions

* `SqlTree.Position.at?` — the position of an offset, counted from the characters before it.
* `SqlTree.Span.IsExact` — the line and the column of a span are those of its start.

## Main results

* `SqlTree.Position.advance_origin` — counting as one goes gives the same as counting afresh.
* `SqlTree.Token.isExact` — the tokens of a source are exact.
* `SqlTree.Entry.positions_exact` — so are the nodes that are made of it, and the errors.
-/

namespace SqlTree

/-! ## Counting afresh -/

namespace Position

/-- The position behind some characters: the line is one more than the number of line feeds among
them, and the column is one more than the number of characters after the last of these. -/
def behind (before : List Char) : Position :=
  ⟨Text.byteLength before, 1 + before.count '\n',
    1 + (before.reverse.takeWhile (· ≠ '\n')).length⟩

/-- The position of an offset of a source, if a character ends there. -/
def at? (source : String) (offset : Nat) : Option Position :=
  (Text.takeBytes? source.toList offset).map behind

/-- The position behind one more character is the next one. -/
lemma behind_concat (before : List Char) (c : Char) :
    behind (before ++ [c]) = (behind before).next c := by
  unfold behind next
  by_cases isLine : c = '\n'
  · simp [isLine, Text.byteLength_cons, Nat.add_assoc]
  · simp [isLine, Text.byteLength_cons, Nat.add_comm]

/-- **Counting as one goes** along some characters leads to what is counted afresh. -/
theorem advance_origin (before : List Char) : origin.advance before = behind before := by
  induction before using List.reverseRecOn with
  | nil => rfl
  | append_singleton before c ih => rw [advance_append, ih, behind_concat]; rfl

/-- The position at the bytes of some first characters is the one behind them. -/
lemma at?_byteLength {source : String} {before rest : List Char}
    (whole : source.toList = before ++ rest) :
    at? source (Text.byteLength before) = some (behind before) := by
  rw [at?, whole, Text.takeBytes?_append, Option.map_some]

end Position

/-- The line and the column of a span are those of the offset where it starts. -/
def Span.IsExact (source : String) (span : Span) : Prop :=
  Position.at? source span.start = some ⟨span.start, span.line, span.column⟩

instance (source : String) (span : Span) : Decidable (span.IsExact source) :=
  inferInstanceAs (Decidable (_ = _))

namespace Span.IsExact

variable {source : String} {span other : Span}

/-- A span from a place that has been advanced to. -/
lemma between {before : List Char} (rest : List Char) (whole : source.toList = before ++ rest)
    (last : Position) :
    IsExact source (.between (.advance .origin before) last) := by
  rw [Position.advance_origin]
  exact Position.at?_byteLength whole

/-- Spans that start together are exact together. -/
lemma of_start (exact : other.IsExact source) (start : span.start = other.start)
    (line : span.line = other.line) (column : span.column = other.column) :
    span.IsExact source := by
  rw [IsExact, start, line, column]
  exact exact

end Span.IsExact

/-! ## Tokens -/

/-- The spans of the tokens of a cut are exact. -/
lemma Cut.isExact {source : String} {position : Position} {before rest : List Char}
    {tokens : List Token} (cut : Cut position rest tokens) (whole : source.toList = before ++ rest)
    (here : position = .advance .origin before) :
    ∀ token ∈ tokens, token.span.IsExact source := by
  induction cut generalizing before with
  | @ends position gap last _ _ _ span =>
    intro token mem
    obtain rfl := List.mem_singleton.mp mem
    rw [span, here, ← Position.advance_append]
    exact .between [] (by simpa using whole) _
  | @token position gap text rest token others _ _ _ _ span _ ih =>
    intro other mem
    rcases List.mem_cons.mp mem with rfl | later
    · rw [span, here, ← Position.advance_append]
      exact .between (text ++ rest) (by simpa using whole) _
    · exact ih (whole_later whole) (by rw [here, ← Position.advance_append]) other later

/-- **The tokens of a source are exact**, the end of input as well. -/
theorem Token.isExact {drift : Bool} {source : String} {token : Token}
    (mem : token ∈ tokenize drift source) : token.span.IsExact source := by
  have cut := (Scanner.tokensWithin_cut (.ofSource drift source) (Nat.lt_succ_self _)).1
  have whole : source.toList = [] ++ source.toList := rfl
  exact cut.isExact whole rfl token mem

/-! ## Nodes and errors -/

namespace Tape

variable {drift : Bool} {source : String} {i j : Nat} {span : Span}

/-- A span that starts where a token of the source does is exact. -/
lemma Starts.isExact (starts : (ofSource drift source).Starts i span) : span.IsExact source :=
  (Token.isExact (token_mem drift source i)).of_start starts.start starts.line starts.column

end Tape

namespace Entry

variable {entry : Entry} {dialect : Dialect} {source : String}

/-- The span of every node of an accepted source is exact. -/
lemma node_isExact {tree : entry.Tree} (accepted : entry.parse dialect source = .ok tree)
    {root node : Node} (isRoot : root ∈ entry.roots tree) (mem : node ∈ root.walk) :
    node.span.IsExact source := by
  obtain ⟨i, j, -, placed⟩ | ⟨walk, empty⟩ := entry.nodes_placed dialect source accepted isRoot
  · obtain ⟨a, b, -, -, placed⟩ := placed.walk mem
    exact placed.starts.isExact
  · obtain rfl := List.mem_singleton.mp (walk ▸ mem)
    exact empty.starts.isExact

/-- An error starts with a token that has been reached. -/
lemma error_begins {error : ParseError} (failed : entry.parse dialect source = .error error) :
    (dialect.start source).Begins error.span := by
  obtain ⟨stop, reached, fits⟩ := fits_of_parse failed
  cases error with
  | unexpected expected found =>
    obtain rfl : found = stop.current := fits
    exact reached.begins
  | unsupported construct name span | invalid reason span | exhausted span => exact fits

/-- The span of an error is exact. -/
lemma error_isExact {error : ParseError} (failed : entry.parse dialect source = .error error) :
    error.span.IsExact source := by
  obtain ⟨cursor, reached, start, line, column⟩ := error_begins failed
  obtain ⟨passed, later, tokens, -⟩ := Dialect.firstMalformed_of_reaches reached
  have mem : cursor.current ∈ tokenize dialect.isDrift source := by simp [tokens]
  exact (Token.isExact mem).of_start start line column

/-- **Lines and columns are exact everywhere.** Whatever mode the scanner is in, and whatever is
made of the source in whatever dialect: every token, every node of the tree, and the error if there
is one, have the line and the column of the offset where they start. -/
theorem positions_exact (entry : Entry) (dialect : Dialect) (drift : Bool) (source : String) :
    (∀ token ∈ tokenize drift source, token.span.IsExact source) ∧
    (∀ tree, entry.parse dialect source = .ok tree →
      ∀ root ∈ entry.roots tree, ∀ node ∈ root.walk, node.span.IsExact source) ∧
    ∀ error, entry.parse dialect source = .error error → error.span.IsExact source :=
  ⟨fun _ mem => Token.isExact mem,
    fun _ accepted _ isRoot _ mem => node_isExact accepted isRoot mem,
    fun _ failed => error_isExact failed⟩

/-- After text that goes over a line end, the end of input is where it is missed. -/
example : (⟨7, 7, 2, 4⟩ : Span).IsExact "'é\n' +" ∧ ¬ (⟨7, 7, 1, 7⟩ : Span).IsExact "'é\n' +" := by
  decide

end Entry

end SqlTree
