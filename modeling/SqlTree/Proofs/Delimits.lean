import SqlTree.Proofs.Origins.Source
import SqlTree.Proofs.Reread.Creation
import SqlTree.Proofs.Reread.Knot

set_option autoImplicit false

/-!
# Spans delimit their nodes

The text that the span of an expression or a statement cuts out of a source is not empty, and read
alone it is that expression or statement again. The node has been read between two places of the
source, and the text of its span is cut into the tokens between them. At the end of the text nothing
can go on with the node that did not go on with it in the source, whatever follows there.

## Main definitions

* `SqlTree.Rereading.ofCopy` — how the text between two places is read.

## Main results

* `SqlTree.Grammar.Chained.places`, `SqlTree.Grammar.placedBetween` — a node that has been read
  from one place to another is placed between them.
* `SqlTree.Tape.Places.slice` — the text of a span, and its tokens.
* `SqlTree.Entry.nodes_delimited` — read alone, the text of a node is the node.
-/

namespace SqlTree

open SqlTree.Parser SqlTree.Grammar

/-! ## Places by index -/

namespace Cursor

variable {drift : Bool} {cursor : Cursor}

/-- A place that is reached comes after some of the tokens. -/
lemma Reachable.exists_index (reachable : cursor.Reachable drift) :
    ∃ i ≤ (Tape.ofSource drift cursor.source).count,
      cursor = Cursor.advance^[i] (Cursor.ofSource drift cursor.source) := by
  obtain ⟨count, eq⟩ := reachable
  generalize Cursor.source cursor = source at eq
  subst eq
  induction count with
  | zero => exact ⟨0, Nat.zero_le _, rfl⟩
  | succ count ih =>
    obtain ⟨i, le, eq⟩ := ih
    rw [Function.iterate_succ_apply', eq, ← Function.iterate_succ_apply' Cursor.advance]
    rcases Nat.lt_or_ge i (Tape.ofSource drift source).count with lt | ge
    · exact ⟨i + 1, lt, rfl⟩
    · -- at the end of the source the cursor stays
      have empty : (Cursor.advance^[i] (Cursor.ofSource drift source)).ahead = [] := by
        rw [(iterate_advance _ i).1, List.drop_eq_nil_iff]
        exact ge
      refine ⟨i, le, ?_⟩
      rw [Function.iterate_succ_apply', Cursor.advance, empty]

end Cursor

/-! ## Where nodes have been read -/

section

variable {α : Type} {dialect : Dialect} {source : String} {cursor stop : Cursor} {limit depth : Nat}

/-- A careful parser leads from a place of a source to another one. -/
lemma Parser.Leads.within {parser : Parser α} {post : Nat → α → Nat → Prop} {value : α}
    (leads : ∀ i, parser.Leads (.ofSource dialect.isDrift source) i (post i))
    (careful : ∀ S : Surroundings, Careful S parser fun _ => True) {i : Nat}
    (le : i ≤ (Tape.ofSource dialect.isDrift source).count)
    (run : parser.run dialect (Cursor.advance^[i] (dialect.start source)) = .accepted value stop) :
    ∃ j ≤ (Tape.ofSource dialect.isDrift source).count,
      stop = Cursor.advance^[j] (dialect.start source) ∧ post i value j := by
  have reached : (Cursor.advance^[i] (dialect.start source)).Reachable dialect.isDrift :=
    (Cursor.Reachable.ofSource source).iterate i
  let S : Surroundings := ⟨_, reached.ends.1, reached.ends.2, none⟩
  exact (leads i).accepted le (careful S (.refl _)).orderly run

namespace Grammar

/-- The node is placed between these places of a source. -/
def PlacedBetween (dialect : Dialect) (source : String) (cursor stop : Cursor) (node : Node) :
    Prop :=
  ∃ i j, j ≤ (Tape.ofSource dialect.isDrift source).count ∧
    cursor = Cursor.advance^[i] (dialect.start source) ∧
    stop = Cursor.advance^[j] (dialect.start source) ∧
    (Tape.ofSource dialect.isDrift source).Places i j node

/-- A node is placed between the ends of the run that reads it. -/
lemma placedBetween {parser : Parser α} {node : α → Node} {value : α}
    (places : parser.Places (.ofSource dialect.isDrift source) node)
    (careful : ∀ S : Surroundings, Careful S parser fun _ => True)
    (here : (Site.within dialect source).holds cursor)
    (run : parser.run dialect cursor = .accepted value stop) :
    PlacedBetween dialect source cursor stop (node value) := by
  obtain ⟨i, le, eq⟩ := Cursor.Reachable.exists_index here.1
  obtain ⟨-, rfl⟩ := here
  rw [eq] at run
  obtain ⟨j, le', rfl, placed⟩ := Leads.within places careful le run
  exact ⟨i, j, le', eq, rfl, placed⟩

/-- **A chain is placed between its ends.** -/
lemma Chained.places {least : Nat} {expr : Expr}
    (chain : Chained (.within dialect source) (rules limit depth) least cursor expr stop) :
    PlacedBetween dialect source cursor stop (.expr expr) := by
  have laid : (rules limit depth).Laid (.ofSource dialect.isDrift source) := rules_laid ..
  induction chain with
  | operand here run =>
    exact placedBetween (operand_places laid)
      (fun S => operand_careful (rules_careful S limit depth)) here run
  | @operator left value middle stop before run ih =>
    obtain ⟨i, j, le, rfl, rfl, placed⟩ := ih
    have leads (k : Nat) : (nextOperator (rules limit depth) least left).Leads
        (.ofSource dialect.isDrift source) k fun next l => k = j →
          next.elim ((Tape.ofSource dialect.isDrift source).Places i l (.expr left))
            ((Tape.ofSource dialect.isDrift source).Places i l <| .expr ·) := by
      by_cases same : k = j
      · subst same
        exact (nextOperator_leads laid placed least).mono fun _ _ _ holds _ => holds
      · exact (Leads.forward _).mono fun _ _ _ _ eq => absurd eq same
    obtain ⟨k, le', rfl, holds⟩ := Leads.within leads
      (fun S => nextOperator_careful (rules_careful S limit depth) least left) le run
    exact ⟨i, k, le', rfl, rfl, holds rfl⟩

end Grammar

end
/-! ## The text of a span -/

/-- **The text of a span** is not empty, and it is cut into the tokens between the places.

**Proof sketch.** The text from the first to the last token of a span is a slice of the source,
whose words are those tokens (`Reachable.words_slice`). It is the text of the span, because a placed
node starts and ends with these tokens. It is not empty, because it has at least one word. -/
lemma Tape.Places.slice {dialect : Dialect} {source : String} {i j : Nat} {node : Node}
    (placed : (Tape.ofSource dialect.isDrift source).Places i j node)
    (le : j ≤ (Tape.ofSource dialect.isDrift source).count) :
    ∃ text, Text.slice? source node.span.start node.span.stop = some text ∧ text ≠ "" ∧
      (dialect.start text).words =
        (Cursor.advance^[i] (dialect.start source)).words.take (j - i) := by
  have lt := placed.lt
  have reached : (Cursor.advance^[i] (dialect.start source)).Reachable dialect.isDrift :=
    (Cursor.Reachable.ofSource source).iterate i
  obtain ⟨ahead, -, same⟩ := Cursor.iterate_advance (dialect.start source) i
  have size : (Cursor.advance^[i] (dialect.start source)).ahead.length =
      (Tape.ofSource dialect.isDrift source).count - i := by
    rw [ahead, List.length_drop]
    rfl
  have inside : j - 1 - i < (Cursor.advance^[i] (dialect.start source)).ahead.length := by omega
  obtain ⟨text, cutOut, words, -⟩ := reached.words_slice inside
  have source_eq : (dialect.start source).source = source := rfl
  have first : (Cursor.advance^[i] (dialect.start source)).current.span.start =
      node.span.start := by
    rw [placed.starts.start, Tape.token_ofSource, Cursor.current, Cursor.peek_iterate_advance]
    rfl
  have last : ((Cursor.advance^[i] (dialect.start source)).peek (j - 1 - i)).span.stop =
      node.span.stop := by
    rw [placed.span, Tape.extent_stop, Tape.token_ofSource, Cursor.peek_iterate_advance,
      show i + (j - 1 - i) = j - 1 by omega]
    rfl
  rw [same, source_eq, first, last] at cutOut
  rw [show j - 1 - i + 1 = j - i by omega] at words
  refine ⟨text, cutOut, ?_, words⟩
  rintro rfl
  have lengths := congrArg List.length words
  rw [Cursor.length_words, List.length_take, Cursor.length_words, size] at lengths
  have none : (Cursor.ofSource dialect.isDrift "").ahead.length = 0 := rfl
  omega

/-! ## Reading the text of a span -/

namespace Rereading

variable {dialect : Dialect} {text : String} {cursor stop : Cursor} {n : Nat}

/-- A cursor spells the words ahead of it. -/
lemma spells_self (cursor : Cursor) : cursor.Spells cursor.words := by
  have spells : cursor.Spells
      ((wordsFrom cursor.source cursor.previous cursor.ahead).take cursor.ahead.length) := by
    rw [List.take_of_length_le (by simp)]
    exact List.forall₂_same.mpr fun _ _ => ⟨rfl, rfl, .inr rfl⟩
  have spells := spells_words rfl rfl spells
  rwa [List.take_of_length_le (by simp)] at spells

/-- How the text from one place of a source to another is read, with rules that suffice for it. -/
def ofCopy (dialect : Dialect) (text : String) (stop : Cursor) (limit depth : Nat) : Rereading :=
  let tokens := (dialect.start text).ahead.length
  ⟨dialect, .copy stop.ahead.length, Grammar.rules limit depth,
    Grammar.rules (tokens + 1) (depth + (tokens + 1))⟩

/-- The text is cut into the tokens from one place to the other. -/
def Copies (dialect : Dialect) (text : String) (cursor stop : Cursor) : Prop :=
  cursor.Reachable dialect.isDrift ∧
    (dialect.start text).words = cursor.words.take (cursor.ahead.length - stop.ahead.length)

variable {limit depth : Nat}

/-- The start of the text follows the place where it starts in the source. -/
lemma Copies.follows (copies : Copies dialect text cursor stop) (rest : List Word) :
    (ofCopy dialect text stop limit depth).Follows ((dialect.start text).ahead.length + 1) cursor
      (dialect.start text) rest := by
  refine ⟨copies.1, .ofSource text, Nat.lt_succ_self _, ?_⟩
  change (dialect.start text).Spells (cursor.words.take (cursor.ahead.length - stop.ahead.length))
  rw [← copies.2]
  exact spells_self _

variable (dialect text stop limit depth) in
/-- The rules of the second reading suffice for the text. -/
lemma ofCopy_known :
    (ofCopy dialect text stop limit depth).Known ((dialect.start text).ahead.length + 1) :=
  known dialect _ (Nat.le_refl _) (Nat.le_add_right depth _)

/-- In a copy all nodes are read again. -/
lemma ofCopy_safe {nodes : List Node} : (ofCopy dialect text stop limit depth).Safe nodes :=
  fun written => absurd written (by simp [ofCopy])

/-- At the end of a copy nothing is next. -/
lemma ofCopy_nothing (distance : Nat) :
    Word.kindAt ((ofCopy dialect text stop limit depth).plan stop []) distance = .endOfInput := by
  rw [kindAt_plan_copy rfl, if_neg (by omega)]

/-- In a copy that ends there, nothing goes on with what was read. -/
lemma ofCopy_quiet {starters : List Starter} :
    (ofCopy dialect text stop limit depth).Quiet starters stop [] :=
  .of_written fun written => absurd written (by simp [ofCopy])

/-- Where the second reading has come to the end of the text, its input ends. -/
lemma Follows.atEnd {c' : Cursor}
    (follows : (ofCopy dialect text stop limit depth).Follows n stop c' []) :
    c'.current.isEnd = true :=
  Token.isEnd_iff.mpr ((follows.peek 0).trans (ofCopy_nothing 0))

end Rereading

namespace Grammar

variable {dialect : Dialect} {cursor stop : Cursor} {rules : Rules}

/-- What is read as a query is read as a statement that reads rows.

**Proof sketch.** The common tables are read in the same way. After them `SELECT` or `VALUES` is
next, as a member of a query starts there (`accepted_queryCore`). So the statement is read as one
that reads rows, by the parser of queries. -/
lemma run_dataStatement_of_query {value : Query} {expected : String}
    (run : (query rules).run dialect cursor = .accepted value stop) :
    (dataStatement rules expected).run dialect cursor = .accepted (.select value) stop := by
  unfold query at run
  rw [run_here_bind] at run
  obtain ⟨commonTables, middle, first, -, run⟩ := accepted_bind run
  have at_ : middle.view.atAnyKeyword [.SELECT, .VALUES] = true := by
    unfold queryAfter at run
    obtain ⟨core, place, inner, -, -⟩ := accepted_bind run
    let E : Rereading := ⟨dialect, .written, rules, rules⟩
    rcases Rereading.accepted_queryCore (E := E) inner with ⟨_, -, at_, -⟩ | ⟨_, -, at_, -⟩ <;>
      exact Rereading.atAnyKeyword_of (by simp) at_
  have select (expected : String) :
      (dataStatementAfter rules commonTables cursor.current.span expected).run dialect middle =
        .accepted (.select value) stop := by
    unfold dataStatementAfter
    rw [run_view_bind, if_pos at_, run_bind, run]
    rfl
  unfold dataStatement
  rw [run_here_bind, run_sees_bind]
  unfold whenever at first
  rw [run_sees_bind] at first
  split at first
  · next tables =>
    obtain ⟨clause, place, inner, -, last⟩ := accepted_bind first
    obtain ⟨rfl, rfl⟩ := accepted_pure last
    rw [if_pos tables, run_bind, inner]
    exact select _
  · next tables =>
    obtain ⟨rfl, rfl⟩ := accepted_pure first
    rw [if_neg tables]
    exact select _

/-- A statement that reads or changes rows does not start like one that creates something. -/
lemma not_create_of_dataStatement {value : DataStatement} {expected : String}
    (run : (dataStatement rules expected).run dialect cursor = .accepted value stop) :
    ¬ cursor.view.atKeyword .CREATE = true := by
  intro create
  unfold dataStatement at run
  rw [run_here_bind, run_sees_bind, if_neg (Rereading.not_otherKeyword create (by decide))] at run
  let E : Rereading := ⟨dialect, .written, rules, rules⟩
  rcases Rereading.accepted_dataStatementAfter (E := E) run with ⟨_, -, any, -⟩ | ⟨_, -, any, -⟩ |
    ⟨_, -, at_, -⟩ | ⟨_, -, at_, -⟩
  · exact absurd (Rereading.atAny_mem any create) (by decide)
  · exact absurd (Rereading.atAny_mem any create) (by decide)
  · exact Rereading.not_otherKeyword create (by decide) at_
  · exact Rereading.not_otherKeyword create (by decide) at_

/-- A statement that reads or changes rows is read as a statement. -/
lemma run_statement_of_data {value : DataStatement}
    (run : (dataStatement rules "statement").run dialect cursor = .accepted value stop) :
    (statement rules).run dialect cursor = .accepted (.data value) stop := by
  unfold statement
  rw [run_sees_bind, if_neg (not_create_of_dataStatement run), run_bind, run]
  rfl

end Grammar

/-! ## Parsing the text of a span -/

section

variable {dialect : Dialect} {source text : String} {cursor stop : Cursor} {limit depth n : Nat}

/-- A text is parsed as the expression that is read up to its end. -/
lemma Expr.parse_of_accepts {bare : Expr}
    (accepts : Accepts dialect (expression (Rereading.ofCopy dialect text stop limit depth).again 0)
      (dialect.start text) fun value stop => stop.current.isEnd = true ∧ value.unplaced = bare) :
    ∃ again, Expr.parse dialect text = .ok again ∧ again.unplaced = bare := by
  obtain ⟨again, place, run, atEnd, same⟩ := accepts
  let tokens := (dialect.start text).ahead.length
  have whole : (Entry.expression.parser (rules (tokens + 1) (depth + (tokens + 1) + 1))).run dialect
      (dialect.start text) = .accepted again place := by
    change (wholeExpression _).run dialect (dialect.start text) = _
    unfold wholeExpression
    have part : ((rules (tokens + 1) (depth + (tokens + 1) + 1)).expr).run dialect
        (dialect.start text) = .accepted again place := run
    rw [run_bind, part]
    exact run_expectEnd atEnd
  have reached : (dialect.start text).Reachable dialect.isDrift := .ofSource text
  rw [run_of_enough .expression reached.ends.1 (Nat.lt_succ_self _) (by omega)] at whole
  refine ⟨again, ?_, same⟩
  change (bounded dialect wholeExpression (dialect.start text)).result = .ok again
  exact congrArg Outcome.result whole

/-- A text is parsed as the statement that is read up to its end. -/
lemma Statement.parse_of_accepts {bare : Statement}
    (accepts : Accepts dialect (statement (Rereading.ofCopy dialect text stop limit depth).again)
      (dialect.start text) fun value stop => stop.current.isEnd = true ∧ value.unplaced = bare) :
    ∃ again, Statement.parse dialect text = .ok again ∧ again.unplaced = bare := by
  obtain ⟨again, place, run, atEnd, same⟩ := accepts
  let tokens := (dialect.start text).ahead.length
  have whole : (Entry.statement.parser (rules (tokens + 1) (depth + (tokens + 1)))).run dialect
      (dialect.start text) = .accepted again place := by
    change (wholeStatement _).run dialect (dialect.start text) = _
    unfold wholeStatement
    have part : (statement (rules (tokens + 1) (depth + (tokens + 1)))).run dialect
        (dialect.start text) = .accepted again place := run
    rw [run_bind, part]
    change (eatSymbol .semicolon >>= _).run dialect place = _
    rw [run_eatSymbol_bind, if_neg (Cursor.not_atSymbol_end (Token.isEnd_iff.mp atEnd) _)]
    exact run_expectEnd atEnd
  have reached : (dialect.start text).Reachable dialect.isDrift := .ofSource text
  rw [run_of_enough .statement reached.ends.1 (Nat.lt_succ_self _) (by omega)] at whole
  refine ⟨again, ?_, same⟩
  change (bounded dialect wholeStatement (dialect.start text)).result = .ok again
  exact congrArg Outcome.result whole

/-- The steps of a chain, in their order. -/
lemma Grammar.Chained.loops {site : Site} {rules : Rules} {least : Nat} {expr : Expr}
    (chain : Chained site rules least cursor expr stop) :
    ∃ first middle, (Grammar.operand rules).run site.dialect cursor = .accepted first middle ∧
      Loops site.dialect (nextOperator rules least) first middle expr stop := by
  induction chain with
  | operand _ run => exact ⟨_, _, run, .refl _ _⟩
  | operator _ run ih =>
    obtain ⟨first, middle, run₁, loops⟩ := ih
    exact ⟨first, middle, run₁, loops.snoc run⟩

namespace Rereading

/-- **The text of a chain is parsed as the chain.** What follows in the source may have gone on with
it, but in the text nothing follows. -/
lemma parse_chain {least : Nat} {expr : Expr}
    (chain : Chained (.within dialect source) (Grammar.rules limit depth) least cursor expr stop)
    (copies : Copies dialect text cursor stop) :
    ∃ again, Expr.parse dialect text = .ok again ∧ again.unplaced = expr.unplaced := by
  obtain ⟨first, middle, run, loops⟩ := chain.loops
  have accepts := chain_again (ofCopy_known dialect text stop limit depth) (Nat.zero_le least) run
    loops (copies.follows _) (Nat.le_refl _) ofCopy_safe ofCopy_quiet (by
      rw [ofCopy_nothing, ofCopy_nothing]
      rfl)
  exact Expr.parse_of_accepts (accepts.mono fun value stop post => ⟨post.1.atEnd, post.2⟩)

variable (dialect text stop limit depth) in
/-- Whatever follows in the source, in the text a statement has to end. -/
lemma ofCopy_ends (ends : stop.AtStatementEnd) :
    (ofCopy dialect text stop limit depth).EndsStatement stop [] :=
  ⟨ends, fun written => absurd written (by simp [ofCopy])⟩

/-- The text of a statement is parsed as the statement. -/
lemma parse_statement {value : Statement}
    (run : (statement (Grammar.rules limit depth)).run dialect cursor = .accepted value stop)
    (ends : stop.AtStatementEnd) (copies : Copies dialect text cursor stop) :
    ∃ again, Statement.parse dialect text = .ok again ∧ again.unplaced = value.unplaced := by
  have accepts := statement_again (ofCopy_known dialect text stop limit depth) run
    (copies.follows _) (Nat.le_refl _) ofCopy_safe (ofCopy_ends dialect text stop limit depth ends)
  exact Statement.parse_of_accepts (accepts.mono fun value stop post => ⟨post.1.atEnd, post.2⟩)

/-- The text of a statement that reads or changes rows is parsed as the statement. -/
lemma parse_data {value : DataStatement} {expected : String}
    (run : (dataStatement (Grammar.rules limit depth) expected).run dialect cursor =
      .accepted value stop)
    (ends : stop.AtStatementEnd) (copies : Copies dialect text cursor stop) :
    ∃ again, Statement.parse dialect text = .ok again ∧
      again.unplaced = (Statement.data value).unplaced := by
  obtain ⟨again, place, run', follows, same⟩ :=
    dataStatement_again (ofCopy_known dialect text stop limit depth) run
      (copies.follows _) (Nat.le_refl _) ofCopy_safe
        (ofCopy_ends dialect text stop limit depth ends)
  exact Statement.parse_of_accepts
    ⟨_, place, run_statement_of_data run', follows.atEnd, congrArg Statement.data same⟩

/-- The text of a query is parsed as the statement that it is. -/
lemma parse_query {value : Query}
    (run : (query (Grammar.rules limit depth)).run dialect cursor = .accepted value stop)
    (done : Done stop) (copies : Copies dialect text cursor stop) :
    ∃ again, Statement.parse dialect text = .ok again ∧
      again.unplaced = (Statement.data (.select value)).unplaced := by
  obtain ⟨again, place, run', follows, same⟩ :=
    query_again (ofCopy_known dialect text stop limit depth) run
      (copies.follows _) (Nat.le_refl _) ofCopy_safe ⟨ofCopy_quiet, done⟩
  have same : again.unplaced = value.unplaced := same
  refine Statement.parse_of_accepts
    ⟨_, place, run_statement_of_data (run_dataStatement_of_query run'), follows.atEnd, ?_⟩
  simp [Statement.unplaced, DataStatement.unplaced, same]

end Rereading

end

/-! ## Nodes of a source -/

/-- The text of the expression in the source is not empty, and parsed alone it is the expression. -/
def Expr.Delimited (dialect : Dialect) (source : String) (expr : Expr) : Prop :=
  ∃ text again, Text.slice? source expr.span.start expr.span.stop = some text ∧ text ≠ "" ∧
    Expr.parse dialect text = .ok again ∧ again.unplaced = expr.unplaced

/-- The text of the statement in the source is not empty, and parsed alone it is the statement. -/
def Statement.Delimited (dialect : Dialect) (source : String) (statement : Statement) : Prop :=
  ∃ text again, Text.slice? source statement.span.start statement.span.stop = some text ∧
    text ≠ "" ∧ Statement.parse dialect text = .ok again ∧
    again.unplaced = statement.unplaced

section

variable {dialect : Dialect} {source : String} {cursor stop : Cursor}

/-- The text of a node that has been read is a copy of what it was read from. -/
lemma Grammar.PlacedBetween.slice {node : Node}
    (placed : PlacedBetween dialect source cursor stop node) :
    ∃ text, Text.slice? source node.span.start node.span.stop = some text ∧ text ≠ "" ∧
      Rereading.Copies dialect text cursor stop := by
  obtain ⟨i, j, le, rfl, rfl, placed⟩ := placed
  obtain ⟨text, cutOut, nonempty, words⟩ := placed.slice le
  refine ⟨text, cutOut, nonempty, (Cursor.Reachable.ofSource source).iterate i, ?_⟩
  have size (i : Nat) : (Cursor.advance^[i] (dialect.start source)).ahead.length =
      (Tape.ofSource dialect.isDrift source).count - i := by
    rw [(Cursor.iterate_advance _ i).1, List.length_drop]
    rfl
  have lt := placed.lt
  rw [words, size, size]
  congr 1
  omega

/-- A statement is delimited if it is placed, and read again from copies of its tokens. -/
lemma Statement.delimited_of_placed {value : Statement}
    (placed : PlacedBetween dialect source cursor stop value.node)
    (parses : ∀ text, Rereading.Copies dialect text cursor stop →
      ∃ again, Statement.parse dialect text = .ok again ∧ again.unplaced = value.unplaced) :
    value.Delimited dialect source := by
  obtain ⟨text, cutOut, nonempty, copies⟩ := placed.slice
  obtain ⟨again, ok, same⟩ := parses text copies
  rw [Statement.span_node] at cutOut
  exact ⟨text, again, cutOut, nonempty, ok, same⟩

/-- What was read as a statement is delimited. -/
lemma Statement.delimited_of_statement {value : Statement}
    (made : MadeBefore (.within dialect source) Cursor.AtStatementEnd Grammar.statement value) :
    value.Delimited dialect source := by
  obtain ⟨limit, depth, cursor, stop, here, run, ends⟩ := made
  have placed : PlacedBetween dialect source cursor stop value.node :=
    placedBetween (statement_places (rules_laid limit depth))
      (fun S => statement_careful (rules_careful S limit depth)) here run
  exact delimited_of_placed placed fun text copies => Rereading.parse_statement run ends copies

/-- What was read as a statement about rows is delimited. -/
lemma Statement.delimited_of_data {value : DataStatement} {expected : String}
    (made : MadeBefore (.within dialect source) Cursor.AtStatementEnd (dataStatement · expected)
      value) :
    (Statement.data value).Delimited dialect source := by
  obtain ⟨limit, depth, cursor, stop, here, run, ends⟩ := made
  have placed : PlacedBetween dialect source cursor stop value.node :=
    placedBetween (dataStatement_places (rules_laid limit depth) expected)
      (fun S => dataStatement_careful (rules_careful S limit depth) expected) here run
  exact delimited_of_placed placed fun text copies => Rereading.parse_data run ends copies

/-- What was read as a query is delimited, as the statement that reads its rows. -/
lemma Statement.delimited_of_query {value : Query}
    (made : MadeBefore (.within dialect source) Rereading.Done Grammar.query value) :
    (Statement.data (.select value)).Delimited dialect source := by
  obtain ⟨limit, depth, cursor, stop, here, run, done⟩ := made
  have placed : PlacedBetween dialect source cursor stop (.query value) :=
    placedBetween (query_places (rules_laid limit depth))
      (fun S => query_careful (rules_careful S limit depth)) here run
  exact delimited_of_placed placed fun text copies => Rereading.parse_query run done copies

/-- An expression that has been read is delimited. -/
lemma Expr.delimited_of_read {value : Expr}
    (read : (Node.expr value).IsRead (.within dialect source)) :
      value.Delimited dialect source := by
  cases read with
  | expr chain =>
    obtain ⟨text, cutOut, nonempty, copies⟩ := chain.places.slice
    obtain ⟨again, ok, same⟩ := Rereading.parse_chain chain copies
    exact ⟨text, again, cutOut, nonempty, ok, same⟩

/-- Each kind of statement is read by the parser of statements, or by that of the statements that
read or change rows, which also stand in triggers; queries are read in expressions too. -/
lemma Statement.delimited_of_read {value : Statement}
    (read : value.node.IsRead (.within dialect source)) : value.Delimited dialect source := by
  cases value with
  | data inner =>
    cases inner with
    | select part =>
      cases read with
      | query made => exact delimited_of_query made
      | select made => exact delimited_of_data made
    | insert part => cases read with | insert made => exact delimited_of_data made
    | update part => cases read with | update made => exact delimited_of_data made
    | delete part => cases read with | delete made => exact delimited_of_data made
  | createTable part => cases read with | createTable made => exact delimited_of_statement made
  | createVirtualTable part =>
    cases read with | createVirtualTable made => exact delimited_of_statement made
  | createView part => cases read with | createView made => exact delimited_of_statement made
  | createTrigger part => cases read with | createTrigger made => exact delimited_of_statement made
  | createIndex part => cases read with | createIndex made => exact delimited_of_statement made

end

namespace Entry

/-- **Spans delimit their nodes.** In a source that is accepted, the text of the span of every
expression and of every statement is not empty, and it is accepted alone as that expression or
statement, up to the places of its nodes. The statements are those of triggers and of the entries of
drift files too, and the queries inside expressions and other statements. -/
theorem nodes_delimited (entry : Entry) (dialect : Dialect) (source : String) {tree : entry.Tree}
    (accepted : entry.parse dialect source = .ok tree) :
    ∀ root ∈ entry.roots tree,
      (∀ expr : Expr, .expr expr ∈ root.walk → expr.Delimited dialect source) ∧
        ∀ statement : Statement, statement.node ∈ root.walk →
          statement.Delimited dialect source := by
  intro root isRoot
  rw [parse_eq] at accepted
  obtain ⟨stop, run⟩ := Outcome.accepted_of_result accepted
  have start : (Site.within dialect source).holds (dialect.start source) := ⟨.ofSource source, rfl⟩
  have traced : root.Traced (.within dialect source) :=
    entry.parser_traced (.within dialect source) _ _ start run trivial root isRoot
  exact ⟨fun expr mem => Expr.delimited_of_read (traced _ mem),
    fun statement mem => Statement.delimited_of_read (traced _ mem)⟩

/-- A product inside a sum is cut out of the source, although it was read after the operator of the
sum. -/
theorem nodes_delimited_product :
    let product := Expr.binary (.reference none none "b" ⟨4, 5, 1, 5⟩) .mul
      (.reference none none "c" ⟨8, 9, 1, 9⟩) ⟨4, 9, 1, 5⟩
    let whole := Expr.binary (.reference none none "a" ⟨0, 1, 1, 1⟩) .add product ⟨0, 9, 1, 1⟩
    Entry.expression.parse .generic "a + b * c" = .ok whole ∧
      Text.slice? "a + b * c" product.span.start product.span.stop = some "b * c" ∧
      product.Delimited .generic "a + b * c" := by
  intro product whole
  have accepted : Entry.expression.parse .generic "a + b * c" = .ok whole := rfl
  have mem : .expr product ∈ (Node.expr whole).walk := by
    rw [Node.walk_eq, List.mem_cons, List.mem_flatMap]
    refine .inr ⟨.expr product, by simp [whole, Node.children, Node.ofExpr], ?_⟩
    rw [Node.walk_eq]
    exact List.mem_cons_self
  exact ⟨accepted, rfl,
    (nodes_delimited .expression .generic "a + b * c" accepted _ List.mem_cons_self).1 _ mem⟩

end Entry

end SqlTree
