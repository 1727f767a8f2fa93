import SqlTree.Proofs.Origins.Written
import SqlTree.Proofs.RoundTrip

set_option autoImplicit false

/-!
# The shapes of trees

Trees have a place for more than what is ever read: the type of a list allows an empty one, and a
frame may have any two ends. Every node that has been read has a shape that those who use the tree
can rely on: lists that are written with commas have items, a message goes with every action but
one, and a frame does not end before it starts.

The nodes of an accepted tree are values of the parsers of their kinds, so it is enough to know what
each parser gives.

## Main definitions

* `SqlTree.FrameBound.rank` — the bounds of frames in their order.
* `SqlTree.Expr.IsShaped`, `SqlTree.Frame.IsShaped`, `SqlTree.CreateTable.IsShaped`,
  `SqlTree.Node.IsShaped` — the shape that a node has.

## Main results

* `SqlTree.Node.IsRead.isShaped` — nodes that have been read have their shape.
* `SqlTree.Entry.nodes_shaped` — all nodes of an accepted tree have their shape.
-/

namespace SqlTree

open Grammar SqlTree.Parser

/-! ## Shapes -/

/-- A number counts from one, and a name has characters. -/
def Variable.IsShaped : Variable → Prop
  | .anonymous => True
  | .numbered index => 1 ≤ index
  | .named _ name => name ≠ ""

/-- A list of arguments has arguments. -/
def Parameters.IsShaped : Parameters → Prop
  | .none | .star => True
  | .list _ arguments => arguments ≠ []

namespace Expr

/-- The expression is a variable or a placeholder. -/
def isVariable : Expr → Bool
  | .variable _ _ | .placeholder _ _ => true
  | _ => false

/-- The shape of an expression, but for the expressions in it. -/
def IsShaped : Expr → Prop
  | .variable which _ => which.IsShaped
  | .placeholder name _ => name ≠ ""
  | .isIn _ (.variable which) _ _ => which.isVariable = true
  | .cases _ branches _ _ => branches ≠ []
  | .tuple items _ => 2 ≤ items.length
  | .call _ parameters _ | .windowCall _ parameters _ _ _ => parameters.IsShaped
  | .aggregate _ parameters order filter _ =>
    parameters.IsShaped ∧ (order.isSome = true ∨ filter.isSome = true)
  | .raise action message _ => message.isSome = true ↔ action ≠ .ignore
  | _ => True

end Expr

/-- How far a bound is from the first row of all, compared with other bounds. -/
def FrameBound.rank : FrameBound → Nat
  | .unboundedPreceding => 0
  | .preceding _ => 1
  | .currentRow => 2
  | .following _ => 3
  | .unboundedFollowing => 4

/-- A frame starts before the last row of all, and ends after the first one and not before it
starts. -/
structure Frame.IsShaped (frame : Frame) : Prop where
  start : frame.start ≠ .unboundedFollowing
  stop : frame.stop ≠ .unboundedPreceding
  ordered : frame.start.rank ≤ frame.stop.rank

/-- The table reference is a join outside parentheses. -/
def TableRef.isJoin : TableRef → Bool
  | .join _ _ _ => true
  | _ => false

/-- Tables that are only listed have no columns in common, and joins group to the left. -/
structure Join.IsShaped (join : Join) : Prop where
  comma : join.kind = .comma → join.natural = false
  table : join.table.isJoin = false

/-- A table has columns, or it is made of the rows of a query; then nothing else is stated. -/
structure CreateTable.IsShaped (table : CreateTable) : Prop where
  columns : table.columns ≠ [] ↔ table.asSelect = none
  others : table.asSelect ≠ none → table.constraints = [] ∧ table.withoutRowid = false ∧
    table.strict = false ∧ table.rowClass = none

/-- A trigger has statements, and none of them creates anything. -/
structure CreateTrigger.IsShaped (trigger : CreateTrigger) : Prop where
  body : trigger.body ≠ []
  changes : ∀ statement ∈ trigger.body, statement.isSchemaStatement = false

/-- A hint is about a variable, and only a stated type may allow nulls. -/
def StatementParameter.IsShaped : StatementParameter → Prop
  | .variableType which _ type orNull _ => which.IsShaped ∧ (orNull = true → type.isSome = true)
  | .defaultValue name _ _ => name ≠ ""

/-- The shape of a node, but for the nodes below it. -/
def Node.IsShaped : Node → Prop
  | .expr part => part.IsShaped
  | .createTable part => part.IsShaped
  | .createTrigger part => part.IsShaped
  | .withClause part => part.tables ≠ []
  | .selectClause part => part.columns ≠ []
  | .valuesClause part => part.rows ≠ [] ∧ ∀ row ∈ part.rows, row ≠ []
  | .join part => part.IsShaped
  | .orderBy part => part.items ≠ []
  | .frame part => part.IsShaped
  | .assignment part => part.columns ≠ []
  | .statementParameter part => part.IsShaped
  | _ => True

/-! ## Expressions -/

/-- A variable that is written in a source has its shape: its number counts from one, and its name
is not empty. -/
lemma Variable.IsWritten.isShaped {which : Variable} (isWritten : which.IsWritten) :
    which.IsShaped := by
  cases which with
  | anonymous => trivial
  | numbered index => exact isWritten.1
  | named sigil name =>
    rintro rfl
    exact isWritten.1 rfl

namespace Grammar

variable {dialect : Dialect} {source : String} {rules : Rules} {site : Site}

/-- A list with commas has at least one part. -/
lemma commaSeparated_ne_nil {α : Type} {parser : Parser α} (fuel : Nat) :
    Gives site (commaSeparated fuel parser) (· ≠ []) :=
  fun _ _ _ _ run _ => Rereading.commaSeparated_ne_nil fuel run

/-- A part is there if this is known from the start. -/
lemma whenever_isSome {α : Type} (condition : Bool) (parser : Parser α) :
    Gives site (whenever (fun _ => condition) parser) fun part => part.isSome = condition := by
  intro cursor part stop _ run _
  unfold whenever at run
  rw [run_sees_bind] at run
  cases condition with
  | true =>
    obtain ⟨inner, middle, -, -, run⟩ := accepted_bind run
    obtain ⟨rfl, -⟩ := accepted_pure run
    rfl
  | false =>
    obtain ⟨rfl, -⟩ := accepted_pure run
    rfl

/-- A variable has its shape, and it is one of the two expressions that are variables. -/
lemma variableExpr_isShaped : Gives (.within dialect source) variableExpr fun expr =>
    expr.IsShaped ∧ expr.isVariable = true := by
  intro cursor expr stop here run _
  have isWritten := tokenize_isWritten (Site.peek_mem here 0)
  obtain ⟨-, ⟨name, dollar, rfl⟩ | ⟨which, kind, rfl⟩⟩ := variableExpr_token run
  · have isWritten : cursor.view.current.IsWritten dialect.isDrift := isWritten
    exact ⟨(isWritten.dollar dollar).isShaped, rfl⟩
  · exact ⟨(isWritten.variable kind).isShaped, rfl⟩

/-- The parameters of a call have their shape: a list of arguments is only read with arguments. -/
lemma callParameters_isShaped : Gives site (callParameters rules) fun call => call.1.IsShaped := by
  unfold callParameters
  refine .skip fun _ => .ite (.of_pure trivial) (.skip fun _ => .ite (.of_pure trivial) ?_)
  refine .skip fun distinct => ?_
  refine (commaSeparated_ne_nil _).bind fun arguments some => ?_
  exact .skip fun order => .of_pure some

/-- A call has its shape, as its parameters have theirs. -/
lemma functionCall_isShaped : Gives site (functionCall rules) Expr.IsShaped := by
  unfold functionCall
  refine .skip fun token => .bind (.parenthesized callParameters_isShaped fun _ _ => trivial) ?_
  rintro ⟨parameters, order⟩ shaped
  refine .skip fun filter => .skip fun hasWindow => .ite (.skip fun _ => .skip fun _ => ?_) ?_
  · split
    · exact .of_invalid _ _
    · refine .skip fun _ => .skip fun window => .skip fun span => ?_
      exact .of_pure shaped
  · split
    · next further => exact .skip fun span => .of_pure ⟨shaped, by simpa using further⟩
    · exact .skip fun span => .of_pure shaped

/-- A row in parentheses has two expressions at least: the one before the comma, and those after
it. -/
lemma parenthesizedExpr_isShaped : Gives site (parenthesizedExpr rules) Expr.IsShaped := by
  unfold parenthesizedExpr
  refine .skip fun start => .skip fun query => .ite ?_ (.skip fun first => .skip fun comma => ?_)
  · refine .skip fun query => .skip fun _ => .skip fun span => ?_
    exact .of_pure trivial
  · refine .ite ((commaSeparated_ne_nil _).bind fun rest some => ?_) ?_
    · refine .skip fun _ => .skip fun span => .of_pure ?_
      have := List.length_pos_iff.mpr some
      change 2 ≤ (first :: rest).length
      rw [List.length_cons]
      omega
    · refine .skip fun _ => .skip fun span => ?_
      exact .of_pure trivial

/-- `CASE` has a branch, since it is rejected without one. -/
lemma caseExpr_isShaped : Gives site (caseExpr rules) Expr.IsShaped := by
  unfold caseExpr
  refine .skip fun start => .skip fun operand => .skip fun branches => ?_
  split
  · exact .of_unexpected _
  · next some =>
    refine .skip fun otherwise => .skip fun _ => .skip fun span => .of_pure ?_
    change branches ≠ []
    simpa using some

/-- `RAISE` has a message if, and only if, its action is not to ignore. -/
lemma raiseExpr_isShaped : Gives site (raiseExpr rules) Expr.IsShaped := by
  unfold raiseExpr
  refine .skip fun start => .skip fun _ => .skip fun token => ?_
  split
  · next action found =>
    refine .skip fun _ => ?_
    refine (whenever_isSome _ _).bind fun message isSome => ?_
    refine .skip fun _ => .skip fun span => .of_pure ?_
    change message.isSome = true ↔ action ≠ .ignore
    rw [isSome, decide_eq_true_eq]
  · exact .of_unexpected _

/-- `CAST` is no case that the shape restricts. -/
lemma castExpr_isShaped : Gives site (castExpr rules) Expr.IsShaped := by
  unfold castExpr
  refine .skip fun start => .skip fun _ => .skip fun operand => .skip fun _ => .skip fun type => ?_
  refine .skip fun _ => .skip fun span => ?_
  exact .of_pure trivial

/-- `EXISTS` is no case that the shape restricts. -/
lemma existsExpr_isShaped : Gives site (existsExpr rules) Expr.IsShaped := by
  unfold existsExpr
  refine .skip fun start => .skip fun negated => .skip fun _ => .skip fun query => ?_
  exact .skip fun _ => .of_pure trivial

/-- A reference to a column is no case that the shape restricts. -/
lemma reference_isShaped : Gives site reference Expr.IsShaped := by
  unfold reference
  refine .skip fun start => .skip fun first => .skip fun isDot => ?_
  refine .ite ?_ (.skip fun _ => .of_pure trivial)
  refine .skip fun second => .skip fun isDot => .ite ?_ (.skip fun _ => .of_pure trivial)
  refine .skip fun third => .skip fun span => ?_
  exact .of_pure trivial

/-- An operand without prefix has its shape, whichever kind it is. -/
lemma primary_isShaped : Gives (.within dialect source) (primary rules) Expr.IsShaped := by
  unfold primary
  refine .skip fun view => ?_
  split
  · exact .skip fun _ => .of_pure trivial
  · split
    · exact parenthesizedExpr_isShaped
    · exact caseExpr_isShaped
    · exact castExpr_isShaped
    · exact existsExpr_isShaped
    · exact .ite raiseExpr_isShaped (.ite functionCall_isShaped (.ite reference_isShaped
        (variableExpr_isShaped.mono fun _ shaped => shaped.1)))

/-- An operand has its shape. -/
lemma operand_isShaped : Gives (.within dialect source) (operand rules) Expr.IsShaped := by
  unfold operand
  refine .skip fun view => .ite existsExpr_isShaped ?_
  split
  · refine .skip fun token => .skip fun operand => .skip fun span => ?_
    exact .of_pure trivial
  · exact primary_isShaped

/-! ### Operators -/

/-- What follows `IN`, if it is a variable, is a variable or a placeholder. -/
lemma inSource_isShaped : Gives (.within dialect source) (inSource rules) fun values =>
    ∀ which, values = .variable which → which.isVariable = true := by
  unfold inSource
  refine .skip fun view => .ite (.parenthesized ?_ fun _ _ => trivial) ?_
  · refine .skip fun _ => .ite (.of_pure (by simp)) (.skip fun _ => .ite ?_ ?_)
    · exact .skip fun _ => .of_pure (by simp)
    · exact .skip fun _ => .of_pure (by simp)
  · split
    · refine variableExpr_isShaped.bind fun which shaped => .of_pure ?_
      rintro _ ⟨⟩
      exact shaped.2
    · refine .ite ?_ (.of_unexpected _)
      refine .skip fun names => .skip fun span => ?_
      exact .of_pure (by simp)

/-- An operator that `NOT` may precede has its shape. -/
lemma negatable_isShaped (left : Expr) (negated : Bool) :
    Gives (.within dialect source) (negatable rules left negated) Expr.IsShaped := by
  unfold negatable
  refine .skip fun token => ?_
  dsimp only
  split
  · refine .skip fun _ => .skip fun low => .skip fun _ => .skip fun high => .skip fun span => ?_
    exact .of_pure trivial
  · refine .skip fun _ => ?_
    refine inSource_isShaped.bind fun values shaped => ?_
    refine .skip fun span => .of_pure ?_
    cases values with
    | «variable» which => exact shaped which rfl
    | _ => trivial
  · split
    · refine .skip fun _ => .skip fun pattern => .skip fun escape => .skip fun span => ?_
      exact .of_pure trivial
    · exact .of_unexpected _

/-- What `IS` makes of its operands is no case that the shape restricts. -/
lemma isExpr_isShaped (left : Expr) : Gives site (isExpr rules left) Expr.IsShaped := by
  unfold isExpr
  refine .skip fun negated => .skip fun isNull => .ite (.skip fun _ => .of_pure trivial) ?_
  refine .skip fun distinct => .skip fun right => ?_
  exact .of_pure trivial

/-- What a binary operator makes of its operands is no case that the shape restricts. -/
lemma binaryExpr_isShaped (left : Expr) (power : Nat) :
    Gives site (binaryExpr rules left power) Expr.IsShaped := by
  unfold binaryExpr
  refine .skip fun _ => ?_
  split
  · refine .ite (.skip fun _ => ?_) ?_
    · refine .skip fun _ => .skip fun right => ?_
      exact .of_pure trivial
    · refine .skip fun _ => .skip fun right => ?_
      exact .of_pure trivial
  · exact .of_unexpected _

/-- An operator after an operand has its shape, whichever operator it is. -/
lemma operatorAfter_isShaped (left : Expr) (power : Nat) :
    Gives (.within dialect source) (operatorAfter rules left power) Expr.IsShaped := by
  unfold operatorAfter
  refine .skip fun token => ?_
  split
  case h_1 => exact .skip fun _ => .skip fun _ => .skip fun _ => .of_pure trivial
  case h_2 | h_3 => exact .skip fun _ => .skip fun _ => .of_pure trivial
  case h_4 => exact .skip fun _ => isExpr_isShaped left
  case h_5 =>
    refine .skip fun _ => .skip fun isNull => .ite (.skip fun _ => .of_pure trivial) ?_
    exact negatable_isShaped left true
  case h_12 => exact binaryExpr_isShaped left power
  -- the keywords that may stand after `NOT`
  all_goals exact negatable_isShaped left false

/-- An expression has its shape from the operand, or from the last operator after it. -/
lemma Chained.isShaped {least : Nat} {expr : Expr} {cursor stop : Cursor}
    (chain : Chained (.within dialect source) rules least cursor expr stop) : expr.IsShaped := by
  cases chain with
  | operand here run => exact operand_isShaped here run trivial
  | operator before run =>
    obtain ⟨power, -, -, run⟩ := accepted_nextOperator_some run
    exact operatorAfter_isShaped _ power before.holds run trivial

/-! ## Clauses -/

/-- `WITH` has a common table. -/
lemma withClause_isShaped : Gives site (withClause rules) fun clause => clause.tables ≠ [] := by
  unfold withClause
  refine .skip fun start => .skip fun recursive => ?_
  refine (commaSeparated_ne_nil _).bind fun tables some => ?_
  exact .skip fun span => .of_pure some

/-- `SELECT` has a result column. -/
lemma selectClause_isShaped :
    Gives site (selectClause rules) fun clause => clause.columns ≠ [] := by
  have columns : Gives site (resultColumns rules) (· ≠ []) := commaSeparated_ne_nil _
  unfold selectClause
  refine .skip fun start => .skip fun distinct => ?_
  refine columns.bind fun columns some => ?_
  refine .skip fun source => .skip fun filter => .skip fun groupBy => .skip fun having => ?_
  refine .skip fun windows => .skip fun span => ?_
  exact .of_pure some

/-- `VALUES` has a row, and each of its rows has an expression. -/
lemma valuesClause_isShaped : Gives site (valuesClause rules) fun clause =>
    clause.rows ≠ [] ∧ ∀ row ∈ clause.rows, row ≠ [] := by
  have row : Gives site (parenthesized rules.exprs) (· ≠ []) :=
    .parenthesized (commaSeparated_ne_nil _) fun _ _ => trivial
  unfold valuesClause
  refine .skip fun start => ?_
  refine ((commaSeparated_ne_nil _).and (.commaSeparated row _)).bind fun rows shaped => ?_
  exact .skip fun span => .of_pure shaped

/-- `ORDER BY` has an item. -/
lemma orderBy_isShaped : Gives site (orderBy rules) fun order => order.items ≠ [] := by
  unfold orderBy
  refine .skip fun start => .skip fun _ => ?_
  refine (commaSeparated_ne_nil _).bind fun items some => ?_
  exact .skip fun span => .of_pure some

/-- An assignment has a column. -/
lemma assignment_isShaped : Gives site (assignment rules) fun change => change.columns ≠ [] := by
  have value {start : Span} {columns : List String} (some : columns ≠ []) :
      Gives site (Rereading.assignValue rules start columns) fun change => change.columns ≠ [] := by
    intro cursor change stop _ run _
    rwa [Rereading.assignValue_columns run]
  have names : Gives site rules.columnNames (· ≠ []) :=
    .parenthesized (commaSeparated_ne_nil _) fun _ _ => trivial
  rw [Rereading.assignment_eq]
  refine .skip fun start => .skip fun paren => .ite (names.bind fun columns some => value some) ?_
  exact .skip fun column => value (List.cons_ne_nil _ _)

/-! ### Frames -/

/-- The tests of the parser leave the frames that do not end before they start. -/
lemma frame_isShaped {unit : FrameUnit} {start stop : FrameBound} {exclude : Exclusion}
    {span : Span}
    (starts : start ≠ .unboundedFollowing) (ends : frameEndError? start stop = none) :
    (Frame.mk unit start stop exclude span).IsShaped := by
  refine ⟨starts, ?_, ?_⟩
  · rintro (rfl : stop = _)
    cases start <;> cases ends
  · change start.rank ≤ stop.rank
    cases start <;> cases stop <;> simp_all [FrameBound.rank, frameEndError?]

/-- A frame has its shape.

**Proof sketch.** The bounds were read after `BETWEEN` or alone, and in both cases those that a
frame may not start or end with are rejected (`accepted_frameBetween`, `accepted_frameFrom`). What
follows the unit of a frame therefore yields bounds that are in order, and without a unit there is
no frame. -/
lemma optionalFrame_isShaped : Gives site (optionalFrame rules) fun frame =>
    ∀ part ∈ frame, part.IsShaped := by
  have bounds : Gives site (Rereading.frameBounds rules) fun bounds =>
      bounds.1 ≠ .unboundedFollowing ∧ frameEndError? bounds.1 bounds.2 = none := by
    unfold Rereading.frameBounds
    refine .skip fun between => .ite ?_ ?_
    · intro cursor value stop _ run _
      obtain ⟨_, _, _, _, _, starts, ends⟩ := Rereading.accepted_frameBetween run
      exact ⟨starts, ends⟩
    · intro cursor value stop _ run _
      obtain ⟨start, rfl, -, starts, ends⟩ := Rereading.accepted_frameFrom run
      exact ⟨starts, ends⟩
  intro cursor frame stop here run last
  cases found : frameUnit? cursor.current.kind with
  | none =>
    rw [Rereading.run_optionalFrame_none found] at run
    cases run
    simp
  | some unit =>
    rw [Rereading.run_optionalFrame_some found] at run
    have after : Gives site (Rereading.frameAfter rules unit cursor.current.span) fun frame =>
        ∀ part ∈ frame, part.IsShaped := by
      unfold Rereading.frameAfter
      refine bounds.bind fun bounds shaped => ?_
      refine .skip fun exclude => .skip fun span => .of_pure ?_
      rintro _ ⟨⟩
      exact frame_isShaped shaped.1 shaped.2
    exact after (site.advance here) run last

/-! ### Joins -/

/-- A single table is no join. -/
lemma singleTable_isShaped : Gives site (singleTable rules) fun table => table.isJoin = false := by
  unfold singleTable
  refine .skip fun start => .skip fun paren => .ite (.skip fun query => .ite ?_ ?_) ?_
  · refine .skip fun query => .skip fun _ => .skip fun aliasName => .skip fun span => ?_
    exact .of_pure rfl
  · refine .skip fun inner => .skip fun _ => .skip fun span => ?_
    exact .of_pure rfl
  · refine .skip fun ⟨schema, name⟩ => .skip fun call => .ite ?_ ?_
    · refine .skip fun arguments => .skip fun _ => .skip fun aliasName => .skip fun span => ?_
      exact .of_pure rfl
    · refine .skip fun aliasName => .skip fun indexing => .skip fun span => ?_
      exact .of_pure rfl

/-- The kind of a join that is spelled in words is not that of a comma. -/
lemma joinKind_isShaped : Gives site joinKind (· ≠ .comma) := by
  unfold joinKind
  refine .skip fun token => ?_
  split
  · exact .of_pure (by simp)
  · exact .skip fun _ => .of_pure (by simp)
  · exact .skip fun _ => .of_pure (by simp)
  · refine .skip fun _ => .skip fun _ => ?_
    exact .of_pure (by simp)
  · refine .skip fun _ => .skip fun _ => .skip fun _ => ?_
    exact .of_pure (by simp)
  · refine .skip fun _ => .skip fun _ => .skip fun _ => ?_
    exact .of_pure (by simp)
  · exact .of_unexpected _

/-- A comma is no natural join. -/
lemma optionalJoinOperator_isShaped : Gives site optionalJoinOperator fun operator =>
    ∀ part ∈ operator, part.2 = .comma → part.1 = false := by
  unfold optionalJoinOperator
  refine .skip fun comma => .ite (.of_pure ?_) (.skip fun join => .ite ?_ (.of_pure (by simp)))
  · rintro _ ⟨⟩ -
    rfl
  · refine .skip fun natural => ?_
    refine joinKind_isShaped.bind fun kind other => ?_
    refine .skip fun _ => .of_pure ?_
    rintro _ ⟨⟩ comma
    exact absurd comma other

/-- A join that was read has its shape: its right side is a single table, and a comma is no natural
join. -/
lemma nextJoin_isShaped (left : TableRef) : Gives site (nextJoin rules left) fun next =>
    ∀ before join span, next = some (.join before join span) → join.IsShaped := by
  unfold nextJoin
  refine .skip fun start => ?_
  refine optionalJoinOperator_isShaped.bind fun operator notNatural => ?_
  split
  · next natural kind =>
    refine singleTable_isShaped.bind fun table single => ?_
    refine .skip fun constraint => ?_
    refine .skip fun span => .of_pure ?_
    rintro _ _ _ ⟨⟩
    exact ⟨notNatural _ rfl, single⟩
  · exact .of_pure (by simp)

/-! ## Statements -/

/-- A table that was read has its shape: it is defined by columns, of which there is one at least,
or by a query, and not by both. -/
lemma createTable_isShaped (start : Span) (temporary : Bool) :
    Gives site (createTable rules start temporary) CreateTable.IsShaped := by
  have defined : Gives site (tableDefinition rules) fun definition => definition.columns ≠ [] := by
    unfold tableDefinition
    refine .skip fun members => ?_
    split
    · exact .of_unexpected _
    · next some =>
      refine .skip fun options => .skip fun rowClass => .of_pure ?_
      simpa using some
  unfold createTable
  refine .skip fun _ => .skip fun ifNotExists => .skip fun ⟨schema, name⟩ => .skip fun as => ?_
  refine .ite (.skip fun rows => .skip fun span => .of_pure ⟨?_, ?_⟩) ?_
  · simp
  · exact fun _ => ⟨rfl, rfl, rfl, rfl⟩
  · refine defined.bind fun definition some => ?_
    refine .skip fun span => .of_pure ⟨?_, ?_⟩
    · simpa using some
    · exact fun rows => absurd rfl rows

/-- A trigger starts with a statement, and all its statements only read or change rows. -/
lemma triggerBody_isShaped : Gives site (triggerBody rules) fun body =>
    body ≠ [] ∧ ∀ statement ∈ body, statement.isSchemaStatement = false := by
  have reads : Gives site (triggerStatement rules) fun statement =>
      statement.isSchemaStatement = false := by
    unfold triggerStatement
    refine .skip fun statement => .skip fun _ => ?_
    exact .of_pure rfl
  have next : Gives site
      (do if ← eatKeyword .END then return none else return some (← triggerStatement rules))
      fun next => ∀ statement ∈ next, statement.isSchemaStatement = false := by
    refine .skip fun ended => .ite (.of_pure (by simp)) ?_
    exact reads.bind fun statement changes => .of_pure (by simpa using changes)
  unfold triggerBody
  refine .skip fun _ => ?_
  refine reads.bind fun first changes => ?_
  refine .bind (.many next _) fun rest others => .of_pure ⟨List.cons_ne_nil _ _, ?_⟩
  simpa using ⟨changes, others⟩

/-- A trigger that was read has its shape, as its body has (`triggerBody_isShaped`). -/
lemma createTrigger_isShaped (start : Span) (temporary : Bool) :
    Gives site (createTrigger rules start temporary) CreateTrigger.IsShaped := by
  unfold createTrigger
  refine .skip fun _ => .skip fun ifNotExists => .skip fun ⟨schema, name⟩ => .skip fun timing => ?_
  refine .skip fun event => .skip fun _ => .skip fun table => .skip fun forEachRow => ?_
  refine .skip fun condition => ?_
  refine triggerBody_isShaped.bind fun body shaped => ?_
  refine .skip fun span => ?_
  exact .of_pure ⟨shaped.1, shaped.2⟩

/-- The table or the trigger that a statement creates has its shape. -/
structure CreatesShaped (statement : Statement) : Prop where
  table : ∀ table, statement = .createTable table → table.IsShaped
  trigger : ∀ trigger, statement = .createTrigger trigger → trigger.IsShaped

/-- A statement creates tables and triggers of their shape.

**Proof sketch.** By the keyword that says what is created: for a table and a trigger by the lemmas
about them, while all other statements create neither. Whether the thing is temporary does not
matter, so the same holds of all creations (`creates`), and statements about data create nothing. -/
lemma statement_isShaped : Gives site (statement rules) CreatesShaped := by
  have creates (start place : Span) (temporary : Bool) :
      Gives site (created rules start place temporary) CreatesShaped := by
    unfold created
    refine .skip fun token => ?_
    split
    · refine (createTable_isShaped start temporary).bind fun table shaped => .of_pure ⟨?_, ?_⟩
      · rintro _ ⟨⟩
        exact shaped
      · simp
    · exact .skip fun view => .of_pure ⟨by simp, by simp⟩
    · refine (createTrigger_isShaped start temporary).bind fun trigger shaped => .of_pure ⟨?_, ?_⟩
      · simp
      · rintro _ ⟨⟩
        exact shaped
    · refine .ite (.of_invalid _ _) ?_
      exact .skip fun table => .of_pure ⟨by simp, by simp⟩
    · refine .ite (.of_invalid _ _) ?_
      exact .skip fun index => .of_pure ⟨by simp, by simp⟩
    · refine .ite (.of_invalid _ _) ?_
      exact .skip fun index => .of_pure ⟨by simp, by simp⟩
    · exact .of_unexpected _
  unfold statement
  refine .skip fun create => .ite ?_ (.skip fun statement => .of_pure ⟨by simp, by simp⟩)
  rw [creation_eq]
  refine .skip fun start => .skip fun place => .skip fun temp => .ite (creates _ _ _) ?_
  refine .skip fun temporary => ?_
  exact creates _ _ _

/-! ## Hints -/

/-- A hint about a variable has its shape.

**Proof sketch.** Whether null is allowed is only read after a type (`typed`). The variable, with a
type or with a default value, is a token of the source, and so it is written like one. -/
lemma statementParameter_isShaped :
    Gives (.within dialect source) (statementParameter rules) StatementParameter.IsShaped := by
  have typed : Gives (.within dialect source) (variableType rules) fun type =>
      type.2 = true → type.1.isSome = true := by
    unfold variableType
    refine .skip fun as => .ite (.skip fun type => .skip fun orNull => .ite ?_ ?_) ?_
    · refine .skip fun _ => .skip fun _ => ?_
      exact .of_pure fun _ => rfl
    · exact .of_pure fun _ => rfl
    · exact .of_pure fun null => absurd null Bool.false_ne_true
  unfold statementParameter
  refine .bind view_mem fun view seen => ?_
  split
  · next name default =>
    have dollar : view.dollarName? = some name := by
      unfold atDefaultValue at default
      split at default
      · exact default
      · cases default
    unfold defaultValue
    refine .skip fun _ => .skip fun _ => .skip fun _ => .skip fun value => .skip fun span => ?_
    exact .of_pure ((tokenize_isWritten seen.1).dollar dollar).isShaped
  · unfold typedVariable
    refine .skip fun start => .skip fun required => ?_
    refine .bind current_isWritten fun token isWritten => ?_
    split
    · next which kind =>
      refine .skip fun _ => typed.bind ?_
      rintro ⟨type, orNull⟩ shaped
      exact .skip fun _ => .of_pure ⟨(isWritten.variable kind).isShaped, shaped⟩
    · exact .of_unexpected _

end Grammar

/-! ## Nodes -/

open Grammar in
/-- **Nodes that have been read have their shape.** -/
lemma Node.IsRead.isShaped {dialect : Dialect} {source : String} {node : Node}
    (read : node.IsRead (.within dialect source)) : node.IsShaped := by
  cases read with
  | expr chain => exact chain.isShaped
  | createTable made =>
    exact (made.of_gives fun _ _ => statement_isShaped).table _ rfl
  | createTrigger made =>
    exact (made.of_gives fun _ _ => statement_isShaped).trigger _ rfl
  | withClause made =>
    exact made.of_gives fun _ _ => withClause_isShaped
  | selectClause made =>
    exact made.of_gives fun _ _ => selectClause_isShaped
  | valuesClause made =>
    exact made.of_gives fun _ _ => valuesClause_isShaped
  | join made =>
    exact (made.of_gives fun _ _ => nextJoin_isShaped _) _ _ _ rfl
  | orderBy made =>
    exact made.of_gives fun _ _ => orderBy_isShaped
  | frame made =>
    exact (made.of_gives fun _ _ => optionalFrame_isShaped) _ rfl
  | assignment made =>
    exact made.of_gives fun _ _ => assignment_isShaped
  | statementParameter made =>
    exact made.of_gives fun _ _ => statementParameter_isShaped
  -- all shapes of the others may be read
  | _ => trivial

namespace Entry

/-- **Trees have their shapes.** Every node of an accepted tree has the shape that is stated for its
kind, at every depth. -/
theorem nodes_shaped (entry : Entry) (dialect : Dialect) (source : String) {tree : entry.Tree}
    (accepted : entry.parse dialect source = .ok tree) :
    ∀ root ∈ entry.roots tree, ∀ node ∈ root.walk, node.IsShaped :=
  fun root isRoot node mem => (isRead_of_parse accepted root isRoot node mem).isShaped

/-- A frame with one stated end is a node at the third level of a tree. -/
theorem nodes_shaped_frame :
    let frame : Frame :=
      ⟨.rows, .preceding (.literal (.integer 1) ⟨16, 17, 1, 17⟩), .currentRow, .noOthers,
        ⟨11, 27, 1, 12⟩⟩
    let window : Window := ⟨none, [], none, some frame, ⟨10, 28, 1, 11⟩⟩
    let whole := Expr.windowCall "f" .star none (.window window) ⟨0, 28, 1, 1⟩
    Entry.expression.parse .generic "f(*) OVER (ROWS 1 PRECEDING)" = .ok whole ∧
      Node.frame frame ∈ (Node.expr whole).walk ∧ frame.start.rank ≤ frame.stop.rank := by
  intro frame window whole
  have accepted : Entry.expression.parse .generic "f(*) OVER (ROWS 1 PRECEDING)" = .ok whole := rfl
  have inner : Node.frame frame ∈ (Node.window window).walk :=
    Node.mem_walk_of_child (by simp [window, Node.children, Node.maybe, Node.each])
      (Node.self_mem_walk _)
  have mem : Node.frame frame ∈ (Node.expr whole).walk :=
    Node.mem_walk_of_child (by simp [whole, Node.children, Node.ofExpr, Node.ofOver, Node.maybe,
      Node.each, Parameters.arguments]) inner
  have shaped : frame.IsShaped :=
    nodes_shaped .expression .generic "f(*) OVER (ROWS 1 PRECEDING)" accepted _
      List.mem_cons_self (.frame frame) mem
  exact ⟨accepted, mem, shaped.ordered⟩

end Entry

end SqlTree
