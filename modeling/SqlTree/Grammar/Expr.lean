import SqlTree.Grammar.Precedence
import SqlTree.Grammar.Rules
import SqlTree.Grammar.TypeName

set_option autoImplicit false

/-!
# Parsing expressions

An expression is an operand followed by operators, each with its further operands. Which operators
an operand takes in is decided by their power.

## Main definitions

* `SqlTree.Grammar.expression` — an expression whose operators have at least some power.
* `SqlTree.Grammar.primary` — an operand without operators.
* `SqlTree.Grammar.functionCall`, `SqlTree.Grammar.windowDefinition`, `SqlTree.Grammar.orderBy` —
  calls of functions, with their windows and orders.
-/

namespace SqlTree.Grammar

open SqlTree.Parser

variable (rules : Rules)

/-! ## Variables and placeholders -/

/-- A variable, or a Dart placeholder where the drift extensions are read. -/
def variableExpr : Parser Expr := do
  let view ← view
  match view.current.kind with
  | .variable which =>
    match view.dollarName? with
    | some name =>
      if ← isDrift then
        return .placeholder name (← advance).span
      else
        return .variable which (← advance).span
    | none => return .variable which (← advance).span
  | _ => unexpected "expression"

/-- The next token is a placeholder that is not the start of a larger expression: neither an
operator follows it nor one of the tokens that modify the clause. -/
def atLonePlaceholder (modifies : Token → Bool) (view : View) : Option String :=
  if modifies view.second || (infixPower view.second.kind).isSome then none else view.dollarName?

/-! ## Sorting -/

/-- A direction, if one is stated. -/
def direction : Parser (Option OrderDirection) := do
  if ← eatKeyword .ASC then
    return some .asc
  else if ← eatKeyword .DESC then
    return some .desc
  else
    return none

/-- Where nulls go, after `NULLS`. -/
def nullOrdering : Parser NullOrdering := do
  require .nullsOrdering "NULLS FIRST and NULLS LAST" (← here)
  let _ ← advance
  if ← eatKeyword .FIRST then
    return .first
  else if ← eatKeyword .LAST then
    return .last
  else
    unexpected "FIRST or LAST"

/-- An expression to sort by. -/
def orderingTerm : Parser OrderingTerm := do
  let expr ← rules.expr
  let direction ← direction
  let nulls ← whenever (·.atKeyword .NULLS) nullOrdering
  return ⟨expr, direction, nulls, ← spanFrom expr.span⟩

/-- The token modifies a sorting term. -/
def modifiesOrdering (token : Token) : Bool :=
  [Keyword.ASC, .DESC, .NULLS].any token.isKeyword

/-- An item of a sorting clause. A Dart placeholder alone stands for the whole item. -/
def orderingItem : Parser OrderingItem := do
  match atLonePlaceholder modifiesOrdering (← view) with
  | some name =>
    if ← isDrift then
      return .placeholder name (← advance).span
    else
      return .term (← orderingTerm rules)
  | none => return .term (← orderingTerm rules)

/-- A sorting clause. -/
def orderBy : Parser OrderBy := do
  let start ← expectKeyword .ORDER
  let _ ← expectKeyword .BY
  let items ← commaSeparated rules.limit (orderingItem rules)
  return ⟨items, ← spanFrom start⟩

/-- A sorting clause, if one is there. -/
def optionalOrderBy : Parser (Option OrderBy) :=
  whenever (·.atKeyword .ORDER) (orderBy rules)

/-! ## Windows -/

/-- An end of a window frame. -/
def frameBound : Parser FrameBound := do
  let view ← view
  if view.atKeywords .UNBOUNDED .PRECEDING then
    let _ ← advance
    let _ ← advance
    return .unboundedPreceding
  else if view.atKeywords .UNBOUNDED .FOLLOWING then
    let _ ← advance
    let _ ← advance
    return .unboundedFollowing
  else if view.atKeywords .CURRENT .ROW then
    let _ ← advance
    let _ ← advance
    return .currentRow
  else
    let offset ← rules.expr
    if ← eatKeyword .PRECEDING then
      return .preceding offset
    else if ← eatKeyword .FOLLOWING then
      return .following offset
    else
      unexpected "PRECEDING or FOLLOWING"

/-- Why a frame cannot end with `stop` after it starts with `start`. -/
def frameEndError? (start stop : FrameBound) : Option String :=
  match start, stop with
  | _, .unboundedPreceding => some "a window frame cannot end with UNBOUNDED PRECEDING"
  | .currentRow, .preceding _ =>
    some "a window frame starting at CURRENT ROW cannot end with PRECEDING"
  | .following _, .preceding _ | .following _, .currentRow =>
    some "a window frame starting with FOLLOWING must end with FOLLOWING"
  | _, _ => none

/-- Both ends of a frame, after `BETWEEN`. -/
def frameBetween : Parser (FrameBound × FrameBound) := do
  let startSpan ← here
  let start ← frameBound rules
  match start with
  | .unboundedFollowing =>
    invalid "a window frame cannot start with UNBOUNDED FOLLOWING" (← spanFrom startSpan)
  | _ =>
    let _ ← expectKeyword .AND
    let stopSpan ← here
    let stop ← frameBound rules
    match frameEndError? start stop with
    | some reason => invalid reason (← spanFrom stopSpan)
    | none => return (start, stop)

/-- The only stated end of a frame, which then ends with the current row. -/
def frameFrom : Parser (FrameBound × FrameBound) := do
  let startSpan ← here
  let start ← frameBound rules
  match start with
  | .following _ | .unboundedFollowing =>
    invalid "a window frame without BETWEEN cannot start with FOLLOWING" (← spanFrom startSpan)
  | _ => return (start, .currentRow)

/-- Which rows a frame leaves out. -/
def exclusion : Parser Exclusion := do
  if ← eatKeyword .EXCLUDE then
    if ← eatKeyword .NO then
      let _ ← expectKeyword .OTHERS
      return .noOthers
    else if ← eatKeyword .CURRENT then
      let _ ← expectKeyword .ROW
      return .currentRow
    else if ← eatKeyword .GROUP then
      return .group
    else if ← eatKeyword .TIES then
      return .ties
    else
      unexpected "NO OTHERS, CURRENT ROW, GROUP or TIES"
  else
    return .noOthers

/-- The unit of a frame that a token starts. -/
def frameUnit? : TokenKind → Option FrameUnit
  | .keyword .ROWS => some .rows
  | .keyword .RANGE => some .range
  | .keyword .GROUPS => some .groups
  | _ => none

/-- The frame of a window, if one is there. -/
def optionalFrame : Parser (Option Frame) := do
  let token ← current
  match frameUnit? token.kind with
  | some unit =>
    let _ ← advance
    let bounds ← if ← eatKeyword .BETWEEN then frameBetween rules else frameFrom rules
    let exclude ← exclusion
    return some ⟨unit, bounds.1, bounds.2, exclude, ← spanFrom token.span⟩
  | none => return none

/-- The next token is the name of another window, and not the start of a clause. -/
def atBaseWindow (view : View) : Bool :=
  view.atIdentifier && !view.atAnyKeyword [.PARTITION, .ORDER, .ROWS, .RANGE, .GROUPS]

/-- The definition of a window, between parentheses. -/
def windowDefinition : Parser Window := do
  let start ← expectSymbol .leftParen
  let base ← whenever atBaseWindow identifier
  let partition ← afterKeyword .PARTITION do
    let _ ← expectKeyword .BY
    rules.exprs
  let order ← optionalOrderBy rules
  let frame ← optionalFrame rules
  let _ ← expectSymbol .rightParen
  return ⟨base, partition.getD [], order, frame, ← spanFrom start⟩

/-! ## Function calls -/

/-- The next two tokens start a function call. -/
def atCall (view : View) : Bool :=
  view.second.isSymbol .leftParen &&
    match view.current.kind with
    | .identifier _ => true
    | .keyword word => word.canNameFunction
    | _ => false

/-- What a function is called with, and the order of its arguments. -/
def callParameters : Parser (Parameters × Option OrderBy) := do
  if ← sees (·.atSymbol .rightParen) then
    return (.none, none)
  else if ← eatSymbol .star then
    return (.star, none)
  else
    let distinct ← eatKeyword .DISTINCT
    let arguments ← rules.exprs
    return (.list distinct arguments, ← optionalOrderBy rules)

/-- The filter of an aggregate function, if one is there. -/
def optionalFilter : Parser (Option Expr) :=
  whenever (fun view => view.atKeyword .FILTER && view.second.isSymbol .leftParen) do
    require .windowFunctions "FILTER clauses" (← here)
    let _ ← advance
    parenthesized do
      let _ ← expectKeyword .WHERE
      rules.expr

/-- The next tokens are `OVER` and a window. -/
def atOver (view : View) : Bool :=
  view.atKeyword .OVER && (view.second.isSymbol .leftParen || view.second.kind.isIdentifierLike)

/-- A window, or the name of one. -/
def functionWindow : Parser Over := do
  if ← sees (·.atSymbol .leftParen) then
    return .window (← windowDefinition rules)
  else
    let start ← here
    let name ← identifier
    return .named name (← spanFrom start)

/-- A function call: a call of a window function if a window follows, a call of an aggregate
function if there is an order or a filter, and a plain call otherwise. -/
def functionCall : Parser Expr := do
  let token ← advance
  let name := nameOf token
  let (parameters, order) ← parenthesized (callParameters rules)
  let filter ← optionalFilter rules
  if ← sees atOver then
    require .windowFunctions "window functions" (← here)
    match order with
    | some order =>
      invalid "ORDER BY is not allowed in the arguments of a window function" order.span
    | none =>
      let _ ← advance
      let window ← functionWindow rules
      return .windowCall name parameters filter window (← spanFrom token.span)
  else if order.isSome || filter.isSome then
    return .aggregate name parameters order filter (← spanFrom token.span)
  else
    return .call name parameters (← spanFrom token.span)

/-! ## Operands -/

/-- The literal that a token is. -/
def literal? : TokenKind → Option Literal
  | .integer value => some (.integer value)
  | .float value => some (.float value)
  | .string value => some (.string value)
  | .blob bytes => some (.blob bytes)
  | .keyword .NULL => some .null
  | .keyword .TRUE => some (.boolean true)
  | .keyword .FALSE => some (.boolean false)
  | .keyword .CURRENT_TIME => some .currentTime
  | .keyword .CURRENT_DATE => some .currentDate
  | .keyword .CURRENT_TIMESTAMP => some .currentTimestamp
  | _ => none

/-- A query, an expression, or several expressions between parentheses. -/
def parenthesizedExpr : Parser Expr := do
  let start ← expectSymbol .leftParen
  if ← sees (·.atQuery) then
    let query ← rules.query
    let _ ← expectSymbol .rightParen
    return .subquery query (← spanFrom start)
  else
    let first ← rules.expr
    if ← eatSymbol .comma then
      let rest ← rules.exprs
      let _ ← expectSymbol .rightParen
      return .tuple (first :: rest) (← spanFrom start)
    else
      let _ ← expectSymbol .rightParen
      return .parentheses first (← spanFrom start)

/-- A column, perhaps of a table, perhaps of a schema. -/
def reference : Parser Expr := do
  let start ← here
  let first ← identifier
  if ← eatSymbol .dot then
    let second ← identifier
    if ← eatSymbol .dot then
      let third ← identifier
      return .reference (some first) (some second) third (← spanFrom start)
    else
      return .reference none (some first) second (← spanFrom start)
  else
    return .reference none none first (← spanFrom start)

/-- A branch of a choice. -/
def whenClause : Parser WhenClause := do
  let start ← expectKeyword .WHEN
  let condition ← rules.expr
  let _ ← expectKeyword .THEN
  let result ← rules.expr
  return ⟨condition, result, ← spanFrom start⟩

/-- A choice between values. -/
def caseExpr : Parser Expr := do
  let start ← expectKeyword .CASE
  let operand ← whenever (!·.atKeyword .WHEN) rules.expr
  let branches ← many rules.limit (whenever (·.atKeyword .WHEN) (whenClause rules))
  if branches.isEmpty then
    unexpected "WHEN"
  else
    let otherwise ← afterKeyword .ELSE rules.expr
    let _ ← expectKeyword .END
    return .cases operand branches otherwise (← spanFrom start)

/-- A conversion to a type. -/
def castExpr : Parser Expr := do
  let start ← expectKeyword .CAST
  let _ ← expectSymbol .leftParen
  let operand ← rules.expr
  let _ ← expectKeyword .AS
  let type ← typeName rules.limit
  let _ ← expectSymbol .rightParen
  return .cast operand type (← spanFrom start)

/-- A test whether a query has rows, perhaps after `NOT`. -/
def existsExpr : Parser Expr := do
  let start ← here
  let negated ← eatKeyword .NOT
  let _ ← expectKeyword .EXISTS
  let query ← parenthesized rules.query
  return .existsRow query negated (← spanFrom start)

/-- The action that a keyword is, when an error is raised. -/
def raiseAction? : TokenKind → Option RaiseAction
  | .keyword .IGNORE => some .ignore
  | .keyword .ROLLBACK => some .rollback
  | .keyword .ABORT => some .abort
  | .keyword .FAIL => some .fail
  | _ => none

/-- An error raised inside a trigger, with a message unless it is ignored. -/
def raiseExpr : Parser Expr := do
  let start ← expectKeyword .RAISE
  let _ ← expectSymbol .leftParen
  match raiseAction? (← current).kind with
  | some action =>
    let _ ← advance
    let message ← whenever (fun _ => action ≠ .ignore) do
      let _ ← expectSymbol .comma
      rules.expr
    let _ ← expectSymbol .rightParen
    return .raise action message (← spanFrom start)
  | none => unexpected "IGNORE, ROLLBACK, ABORT or FAIL"

/-- An operand without operators. -/
def primary : Parser Expr := do
  let view ← view
  match literal? view.current.kind with
  | some value => return .literal value (← advance).span
  | none =>
    match view.current.kind with
    | .symbol .leftParen => parenthesizedExpr rules
    | .keyword .CASE => caseExpr rules
    | .keyword .CAST => castExpr rules
    | .keyword .EXISTS => existsExpr rules
    | _ =>
      if view.atKeyword .RAISE && view.second.isSymbol .leftParen then raiseExpr rules
      else if atCall view then functionCall rules
      else if view.atIdentifier then reference
      else variableExpr

/-- An operand, perhaps after operators. -/
def operand : Parser Expr := do
  let view ← view
  if view.atKeywords .NOT .EXISTS then
    existsExpr rules
  else
    match unaryOp? view.current.kind with
    | some (op, least) =>
      let start := (← advance).span
      let operand ← rules.operators least
      return .unary op operand (← spanFrom start)
    | none => primary rules

/-! ## Operators after an operand -/

/-- What membership is tested in. -/
def inSource : Parser InSource := do
  let view ← view
  if view.atSymbol .leftParen then
    parenthesized do
      if ← sees (·.atSymbol .rightParen) then
        return .list []
      else if ← sees (·.atQuery) then
        return .subquery (← rules.query)
      else
        return .list (← rules.exprs)
  else
    match view.current.kind with
    | .variable _ => return .variable (← variableExpr)
    | _ =>
      if view.atIdentifier then
        let (schema, name) ← qualifiedName
        return .table schema name (← spanFrom view.current.span)
      else
        unexpected "'(' or table name"

/-- An operator that may stand after `NOT`: a range, membership or a pattern. -/
def negatable (left : Expr) (negated : Bool) : Parser Expr := do
  let kind := (← current).kind
  match kind with
  | .keyword .BETWEEN =>
    let _ ← advance
    let low ← rules.operators (equalityPower + 1)
    let _ ← expectKeyword .AND
    let high ← rules.operators (equalityPower + 1)
    return .between left low high negated (← spanFrom left.span)
  | .keyword .IN =>
    let _ ← advance
    let source ← inSource rules
    return .isIn left source negated (← spanFrom left.span)
  | _ =>
    match patternOp? kind with
    | some op =>
      let _ ← advance
      let pattern ← rules.operators (equalityPower + 1)
      let escape ← afterKeyword .ESCAPE (rules.operators (equalityPower + 1))
      return .like left op pattern escape negated (← spanFrom left.span)
    | none => unexpected "IN, LIKE, GLOB, MATCH, REGEXP or BETWEEN"

/-- What follows `IS`: a test for null, or a comparison that treats nulls as values. Being distinct
is the negation of being the same. -/
def isExpr (left : Expr) : Parser Expr := do
  let negated ← eatKeyword .NOT
  if ← eatKeyword .NULL then
    return .isNull left negated (← spanFrom left.span)
  else
    let distinct ← whenever (·.atKeyword .DISTINCT) do
      require .isDistinctFrom "IS DISTINCT FROM" (← here)
      let _ ← advance
      expectKeyword .FROM
    let right ← rules.operators (equalityPower + 1)
    let op := if negated != distinct.isSome then .isNot else .is
    return .binary left op right (left.span.merge right.span)

/-- An operator of one token and its right operand. -/
def binaryExpr (left : Expr) (power : Nat) : Parser Expr := do
  let token ← current
  match binaryOp? token.kind with
  | some op =>
    if op = .jsonExtract || op = .jsonExtractText then
      require .jsonArrows "JSON operators" token.span
    let _ ← advance
    let right ← rules.operators (power + 1)
    return .binary left op right (left.span.merge right.span)
  | none => unexpected "operator"

/-- The operator of this power that follows an operand, with its further operands. -/
def operatorAfter (left : Expr) (power : Nat) : Parser Expr := do
  match (← current).kind with
  | .keyword .COLLATE =>
    let _ ← advance
    let collation ← identifier
    return .collate left collation (← spanFrom left.span)
  | .keyword .ISNULL =>
    let _ ← advance
    return .isNull left false (← spanFrom left.span)
  | .keyword .NOTNULL =>
    let _ ← advance
    return .isNull left true (← spanFrom left.span)
  | .keyword .IS =>
    let _ ← advance
    isExpr rules left
  | .keyword .NOT =>
    let _ ← advance
    if ← eatKeyword .NULL then
      return .isNull left true (← spanFrom left.span)
    else
      negatable rules left true
  | .keyword .IN | .keyword .LIKE | .keyword .GLOB | .keyword .MATCH | .keyword .REGEXP
  | .keyword .BETWEEN => negatable rules left false
  | _ => binaryExpr rules left power

/-- The next operator, if its power is at least `least`. -/
def nextOperator (least : Nat) (left : Expr) : Parser (Option Expr) := do
  let view ← view
  match infixPower view.current.kind with
  | some power =>
    if power < least || (view.atKeyword .NOT && !startsNegated view) then
      return none
    else
      return some (← operatorAfter rules left power)
  | none => return none

/-- An expression whose operators outside all parentheses have at least the power `least`. -/
def expression (least : Nat) : Parser Expr := do
  let first ← operand rules
  iterate (nextOperator rules least) rules.limit first

end SqlTree.Grammar
