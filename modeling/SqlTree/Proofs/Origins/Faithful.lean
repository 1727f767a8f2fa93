import SqlTree.Proofs.Delimits
import SqlTree.Proofs.Origins.Written
import SqlTree.Proofs.Precedence.Fitted

set_option autoImplicit false

/-!
# What has been read is written as itself

Two constructs are written as something else, as the tree does not tell them from others:
comparisons with `DISTINCT`, which are negated comparisons, and calls of functions whose name is in
quotes, as the quotes are not kept. Whatever else has been read is written such that it reads back:
a right operand that started with a part of the operator would have been taken for one, and a name
without quotes is a keyword only if it was one.

## Main definitions

* `SqlTree.Node.callsQuoted`, `SqlTree.Node.comparesDistinct` — the two constructs.
* `SqlTree.Node.IsPlain` — the node is neither of them.

## Main results

* `SqlTree.Node.IsRead.faithful` — nodes that have been read are faithful, if they are plain.
-/

namespace SqlTree

open Grammar SqlTree.Parser

/-! ## The two constructs -/

/-- The tokens of a source from a byte offset on. -/
def tokensFrom (drift : Bool) (source : String) (start : Nat) : List Token :=
  (tokenize drift source).dropWhile (·.span.start < start)

namespace Node

/-- The node calls a function whose name is in quotes in the source. The name is the first token of
the call, unless the name of a schema stands before it. -/
def callsQuoted (drift : Bool) (source : String) (node : Node) : Bool :=
  let tokens := tokensFrom drift source node.span.start
  match node with
  | .expr part => part.function?.isSome && tokens[0]?.any Token.isQuoted
  | .tableRef (.function schema _ _ _ _) =>
    tokens[if schema.isSome then 2 else 0]?.any Token.isQuoted
  | _ => false

/-- The node is a comparison with `DISTINCT` between its operands in the source. -/
def comparesDistinct (drift : Bool) (source : String) : Node → Bool
  | .expr (.binary left _ right _) => (tokenize drift source).any fun token =>
    token.isKeyword .DISTINCT && left.span.stop ≤ token.span.start &&
      token.span.stop ≤ right.span.start
  | _ => false

/-- The node is neither the call of a function whose name is in quotes nor a comparison with
`DISTINCT`. -/
def IsPlain (drift : Bool) (source : String) (node : Node) : Prop :=
  node.callsQuoted drift source = false ∧ node.comparesDistinct drift source = false

end Node

/-! ## Tokens from a place on -/

namespace Cursor

variable {drift : Bool} {source : String}

/-- The tokens from the start of one of them on. -/
lemma tokensFrom_peek {i : Nat} (lt : i < (ofSource drift source).ahead.length) :
    tokensFrom drift source ((ofSource drift source).peek i).span.start =
      (tokenize drift source).drop i := by
  obtain ⟨others, last, tokens, eq, -, -, each⟩ := ofSource_eq drift source
  have peek {k : Nat} (inside : k < others.length) :
      (ofSource drift source).peek k = others[k] := by
    rw [eq]
    exact List.getD_eq_getElem _ _ inside
  replace lt : i < others.length := by rwa [eq] at lt
  have before : ∀ token ∈ others.take i,
      decide (token.span.start < ((ofSource drift source).peek i).span.start) = true := by
    intro token mem
    obtain ⟨k, inside, rfl⟩ := List.mem_take_iff_getElem.mp mem
    have ordered : ((ofSource drift source).peek k).span.stop ≤
        ((ofSource drift source).peek i).span.start := peek_ordered (by omega)
    rw [peek (by omega : k < others.length)] at ordered
    have := (each _ (List.getElem_mem (by omega : k < others.length))).2
    exact decide_eq_true (Nat.lt_of_lt_of_le this ordered)
  unfold tokensFrom
  rw [tokens, ← List.take_append_drop i others, List.append_assoc,
    List.dropWhile_append_of_pos before, List.drop_eq_getElem_cons lt, ← peek lt, List.cons_append,
    List.dropWhile_cons_of_neg (by simp)]
  simp [Nat.min_eq_left (Nat.le_of_lt lt)]

/-- What is seen from the start of a source is one of its tokens. -/
lemma getElem?_tokenize {i : Nat} (le : i ≤ (ofSource drift source).ahead.length) :
    (tokenize drift source)[i]? = some ((ofSource drift source).peek i) := by
  obtain ⟨others, last, tokens, eq, -⟩ := ofSource_eq drift source
  rw [eq] at le ⊢
  rw [tokens]
  change (others ++ [last])[i]? = some (others.getD i last)
  rcases Nat.eq_or_lt_of_le le with rfl | lt
  · simp
  · have lt : i < others.length := lt
    rw [List.getElem?_append_left lt, List.getD_eq_getElem _ _ lt, List.getElem?_eq_getElem lt]

end Cursor

namespace Grammar

variable {dialect : Dialect} {source : String} {cursor stop : Cursor} {node : Node}

/-- From a node on, the source has the tokens that are seen where the node has been read. -/
lemma PlacedBetween.tokensFrom (placed : PlacedBetween dialect source cursor stop node)
    {distance : Nat} (le : distance ≤ cursor.ahead.length) :
    (tokensFrom dialect.isDrift source node.span.start)[distance]? =
      some (cursor.peek distance) := by
  obtain ⟨i, j, inside, rfl, rfl, placed⟩ := placed
  have lt := placed.lt
  have inside : j ≤ (dialect.start source).ahead.length := inside
  rw [(Cursor.iterate_advance _ i).1, List.length_drop] at le
  have within : i + distance ≤ (dialect.start source).ahead.length := by omega
  have first : node.span.start = ((dialect.start source).peek i).span.start := placed.starts.start
  rw [first, Dialect.start, Cursor.tokensFrom_peek (by exact Nat.lt_of_lt_of_le lt inside),
    List.getElem?_drop, Cursor.getElem?_tokenize (by exact within), Cursor.peek_iterate_advance]

/-- A node starts where the first token that it has been read from does. -/
lemma PlacedBetween.start_eq (placed : PlacedBetween dialect source cursor stop node) :
    node.span.start = cursor.current.span.start := by
  obtain ⟨i, j, -, rfl, rfl, placed⟩ := placed
  rw [placed.starts.start, Cursor.current, Cursor.peek_iterate_advance]
  rfl

/-- A node ends before the tokens that are ahead after it. -/
lemma PlacedBetween.stop_le (placed : PlacedBetween dialect source cursor stop node)
    (distance : Nat) : node.span.stop ≤ (stop.peek distance).span.start := by
  obtain ⟨i, j, -, rfl, rfl, placed⟩ := placed
  have lt := placed.lt
  rw [placed.span, Tape.extent_stop, Tape.token_ofSource, Dialect.start,
    Cursor.peek_iterate_advance]
  exact Cursor.peek_ordered (by omega)

/-- Tokens that are ahead in a source come one after the other. -/
lemma peek_ordered (here : (Site.within dialect source).holds cursor) {i j : Nat} (lt : i < j) :
    (cursor.peek i).span.stop ≤ (cursor.peek j).span.start := by
  obtain ⟨reached, rfl⟩ := here
  obtain ⟨k, -, eq⟩ := Cursor.Reachable.exists_index reached
  rw [eq, Cursor.peek_iterate_advance, Cursor.peek_iterate_advance]
  exact Cursor.peek_ordered (by omega)

end Grammar

/-! ## Names of functions -/

/-- A name without quotes is a keyword only if its token is. -/
lemma Token.IsWritten.kind_of_ofText? {drift : Bool} {token : Token} {word : Keyword}
    (isWritten : token.IsWritten drift) (bare : token.isQuoted = false)
    (names : token.kind.namesFunction = true) (found : Keyword.ofText? (nameOf token) = some word) :
    token.kind = .keyword word := by
  unfold IsWritten at isWritten
  unfold isQuoted at bare
  unfold nameOf at found
  cases kind : token.kind with
  | identifier name =>
    rw [kind] at isWritten bare found
    rcases isWritten with quoted | none
    · exact absurd (bare.symm.trans quoted) Bool.false_ne_true
    · rw [none] at found
      cases found
  | keyword other =>
    rw [kind] at isWritten found
    have isWritten : Keyword.ofText? (String.ofList token.lexeme.toList) = some other := isWritten
    rw [String.ofList_toList] at isWritten
    exact congrArg TokenKind.keyword (Option.some.inj (isWritten.symm.trans found))
  | _ =>
    rw [kind] at names
    exact absurd names Bool.false_ne_true

namespace Grammar

variable {dialect : Dialect} {source : String} {cursor stop : Cursor} {limit depth : Nat}

/-- A call has the name that its first token stands for. -/
lemma functionCall_name {rules : Rules} {expr : Expr} {name : String} {parameters : Parameters}
    (run : (functionCall rules).run dialect cursor = .accepted expr stop)
    (call : expr.function? = some (name, parameters)) : name = nameOf cursor.current := by
  let E : Rereading := ⟨dialect, .written, rules, rules⟩
  obtain ⟨_, _, _, _, _, -, -, -, ⟨_, -, -, -, -, rfl⟩ | ⟨-, -, eq⟩⟩ :=
    Rereading.accepted_functionCall (E := E) run
  · exact (congrArg Prod.fst (Option.some.inj call)).symm
  · split at eq <;> subst eq <;> exact (congrArg Prod.fst (Option.some.inj call)).symm

/-- **The name of a call** that is no quoted one is not that of `RAISE`. -/
lemma Chained.keepsName {least : Nat} {expr : Expr}
    (chain : Chained (.within dialect source) (rules limit depth) least cursor expr stop)
    (plain : (Node.expr expr).callsQuoted dialect.isDrift source = false) : expr.KeepsName := by
  intro name parameters call
  have isCall : expr.function?.isSome = true := by rw [call]; rfl
  have simple : expr.isSimple = true := by
    cases expr <;> first | rfl | exact absurd isCall Bool.false_ne_true
  have first := chain.places.tokensFrom (Nat.zero_le _)
  rw [Node.callsQuoted, isCall, Bool.true_and, first] at plain
  replace plain : cursor.current.isQuoted = false := plain
  cases chain with
  | operator _ run => exact absurd ((nextOperator_yields run).symm.trans simple) Bool.false_ne_true
  | operand here run =>
    have isWritten := tokenize_isWritten (Site.peek_mem here 0)
    rcases accepted_operand run with ⟨_, -, rfl, -⟩ | run | ⟨at_, noRaise, run⟩ | larger
    · cases call
    · obtain ⟨-, ⟨_, -, rfl⟩ | ⟨_, -, rfl⟩⟩ := variableExpr_token run <;> cases call
    · have names : cursor.current.kind.namesFunction = true := (atCall_iff.mp at_).2
      rw [functionCall_name run call]
      intro found
      have kind := isWritten.kind_of_ofText? plain names found
      have raise : cursor.view.atKeyword .RAISE = true := Rereading.atKeyword_of_kind kind
      exact absurd (noRaise.symm.trans raise) Bool.false_ne_true
    · exact absurd (larger.symm.trans simple) Bool.false_ne_true

/-- The name of a function that is called in place of a table.

**Proof sketch.** Of the forms of a table, only a function yields this tree, so its qualified name
was read first. The schema and the dot are the first two tokens, if they are there, and the next one
is the identifier that the name was read from. -/
lemma singleTable_function {rules : Rules} {schema aliasName : Option String} {name : String}
    {arguments : List Expr} {span : Span}
    (run : (singleTable rules).run dialect cursor =
      .accepted (.function schema name arguments aliasName span) stop) :
    (cursor.peek (if schema.isSome then 2 else 0)).kind.isIdentifierLike = true ∧
      name = nameOf (cursor.peek (if schema.isSome then 2 else 0)) := by
  unfold singleTable at run
  rw [run_here_bind, run_eatSymbol_bind] at run
  split at run
  · rw [if_pos rfl, run_sees_bind] at run
    split at run
    · obtain ⟨query, c₁, -, -, run⟩ := accepted_bind run
      obtain ⟨-, -, run⟩ := accepted_expectSymbol run
      obtain ⟨aliased, c₂, -, -, run⟩ := accepted_bind run
      cases (accepted_return run).1
    · obtain ⟨inner, c₁, -, -, run⟩ := accepted_bind run
      obtain ⟨-, -, run⟩ := accepted_expectSymbol run
      cases (accepted_return run).1
  · rw [if_neg Bool.false_ne_true] at run
    obtain ⟨⟨schema', name'⟩, c₁, names, -, run⟩ := accepted_bind run
    have called : schema = schema' ∧ name = name' := by
      rw [run_eatSymbol_bind] at run
      split at run
      · rw [if_pos rfl] at run
        obtain ⟨arguments, c₂, -, -, run⟩ := accepted_bind run
        obtain ⟨-, -, run⟩ := accepted_expectSymbol run
        obtain ⟨aliased, c₃, -, -, run⟩ := accepted_bind run
        cases (accepted_return run).1
        exact ⟨rfl, rfl⟩
      · rw [if_neg Bool.false_ne_true] at run
        obtain ⟨aliased, c₂, -, -, run⟩ := accepted_bind run
        obtain ⟨indexing, c₃, -, -, run⟩ := accepted_bind run
        cases (accepted_return run).1
    obtain ⟨rfl, rfl⟩ := called
    unfold qualifiedName at names
    obtain ⟨first, c₂, first_run, -, names⟩ := accepted_bind names
    obtain ⟨at₁, rfl, rfl⟩ := accepted_identifier first_run
    rw [run_eatSymbol_bind] at names
    split at names
    · rw [if_pos rfl] at names
      obtain ⟨second, c₃, second_run, -, names⟩ := accepted_bind names
      obtain ⟨at₂, rfl, -⟩ := accepted_identifier second_run
      cases (accepted_pure names).1
      have at₂ : (cursor.advance.advance.peek 0).kind.isIdentifierLike = true := at₂
      rw [Cursor.peek_advance, Cursor.peek_advance] at at₂
      refine ⟨at₂, ?_⟩
      rw [Cursor.current, Cursor.peek_advance, Cursor.peek_advance]
      rfl
    · rw [if_neg Bool.false_ne_true] at names
      cases (accepted_pure names).1
      exact ⟨at₁, rfl⟩

/-- **The name of a function in place of a table** that is no quoted one can stand there. -/
lemma singleTable_keepsName {table : TableRef} (here : (Site.within dialect source).holds cursor)
    (run : (singleTable (rules limit depth)).run dialect cursor = .accepted table stop)
    (plain : (Node.tableRef table).callsQuoted dialect.isDrift source = false) :
    table.KeepsName := by
  have placed : PlacedBetween dialect source cursor stop (.tableRef table) :=
    placedBetween (singleTable_places (rules_laid limit depth))
      (fun S => singleTable_careful (rules_careful S limit depth)) here run
  cases table with
  | function schema name arguments aliasName span =>
    obtain ⟨isName, rfl⟩ := singleTable_function run
    unfold Node.callsQuoted at plain
    dsimp only at plain
    generalize (if schema.isSome then 2 else 0) = distance at *
    have inside : distance ≤ cursor.ahead.length := by
      by_contra outside
      have missing : cursor.peek distance = cursor.last := List.getD_eq_default _ _ (by omega)
      rw [missing, show cursor.last.kind = .endOfInput from here.1.ends.1] at isName
      exact absurd isName Bool.false_ne_true
    have isWritten := tokenize_isWritten (Site.peek_mem here distance)
    rw [placed.tokensFrom inside] at plain
    intro word found _
    rw [isWritten.kind_of_ofText? plain (TokenKind.namesFunction_of_isIdentifierLike isName) found]
      at isName
    exact isName
  | _ => trivial

/-! ## Comparisons -/

/-- `DISTINCT FROM` was read exactly if `DISTINCT` was next. -/
lemma accepted_distinctFrom {value : Option Span}
    (run : Rereading.distinctFrom.run dialect cursor = .accepted value stop) :
    (cursor.view.atKeyword .DISTINCT = true ∧ stop = cursor.advance.advance) ∨
      (value = none ∧ stop = cursor) := by
  unfold Rereading.distinctFrom whenever at run
  rw [run_sees_bind] at run
  split at run
  · next at_ =>
    obtain ⟨words, c₁, inner, -, last⟩ := accepted_bind run
    obtain ⟨-, rfl⟩ := accepted_pure last
    rw [run_here_bind] at inner
    obtain ⟨-, inner⟩ := accepted_require inner
    obtain ⟨-, -, inner⟩ := accepted_advance inner
    rw [← run_bind_pure] at inner
    obtain ⟨-, -, inner⟩ := accepted_expectKeyword inner
    obtain ⟨-, rfl⟩ := accepted_pure inner
    exact .inl ⟨at_, rfl⟩
  · obtain ⟨rfl, rfl⟩ := accepted_pure run
    exact .inr ⟨rfl, rfl⟩

/-- What a comparison with `IS` has been read from: after `IS` comes `NOT` if it is negated, and
then the right operand, perhaps after `DISTINCT FROM`.

**Proof sketch.** After `IS`, and after `NOT` if it is there, no `NULL` was next, as the result is a
binary operation. So a comparison was read, with `DISTINCT FROM` or without it
(`accepted_distinctFrom`), and the operator is told by both. This is shown once for a place after
`IS`, and used with `NOT` and without it. -/
lemma accepted_isExpr {rules : Rules} {left left' right : Expr} {op : BinaryOp} {span : Span}
    (run : (isExpr rules left).run dialect cursor = .accepted (.binary left' op right span) stop) :
    left' = left ∧ ∃ place, (place.view.atKeyword .NULL = false) ∧
      (place = cursor ∧ cursor.view.atKeyword .NOT = false ∨
        place = cursor.advance ∧ cursor.view.atKeyword .NOT = true) ∧
      ((place.view.atKeyword .DISTINCT = true ∧ (rules.operators (equalityPower + 1)).run dialect
          place.advance.advance = .accepted right stop) ∨
        (op = (if cursor.view.atKeyword .NOT then .isNot else .is) ∧
          (rules.operators (equalityPower + 1)).run dialect place = .accepted right stop)) := by
  -- what follows is the same with `NOT` and without it
  have after {negated : Bool} {place : Cursor}
      (run : (do
        if ← eatKeyword .NULL then return .isNull left negated (← spanFrom left.span)
        else Rereading.comparison rules left negated : Parser Expr).run dialect place =
          .accepted (.binary left' op right span) stop) :
      left' = left ∧ place.view.atKeyword .NULL = false ∧
        ((place.view.atKeyword .DISTINCT = true ∧ (rules.operators (equalityPower + 1)).run dialect
            place.advance.advance = .accepted right stop) ∨
          (op = (if negated then .isNot else .is) ∧
            (rules.operators (equalityPower + 1)).run dialect place = .accepted right stop)) := by
    rw [run_eatKeyword_bind] at run
    split at run
    · cases (accepted_return run).1
    · next notNull =>
      rw [if_neg Bool.false_ne_true] at run
      obtain ⟨distinct, c₁, first, -, run⟩ := accepted_bind run
      obtain ⟨other, c₂, second, -, run⟩ := accepted_bind run
      obtain ⟨eq, rfl⟩ := accepted_pure run
      cases eq
      refine ⟨rfl, by simpa using notNull, ?_⟩
      rcases accepted_distinctFrom first with ⟨at_, rfl⟩ | ⟨rfl, rfl⟩
      · exact .inl ⟨at_, second⟩
      · exact .inr ⟨by cases negated <;> rfl, second⟩
  rw [Rereading.isExpr_eq, run_eatKeyword_bind] at run
  split at run
  · next at_ =>
    obtain ⟨same, notNull, rest⟩ := after run
    exact ⟨same, _, notNull, .inr ⟨rfl, at_⟩, by simpa [at_] using rest⟩
  · next not =>
    obtain ⟨same, notNull, rest⟩ := after run
    have not : cursor.view.atKeyword .NOT = false := by simpa using not
    exact ⟨same, _, notNull, .inl ⟨rfl, not⟩, by simpa [not] using rest⟩

/-- A range, a membership or a pattern is no comparison of two operands. -/
lemma negatable_not_binary {rules : Rules} (left : Expr) (negated : Bool) :
    (negatable rules left negated).Yields fun expr =>
      ∀ first op second span, expr ≠ .binary first op second span := by
  unfold negatable
  refine .bind fun _ => ?_
  dsimp only
  repeat' first
    | exact .of_pure (by simp)
    | exact .of_unexpected _
    | refine .bind fun _ => ?_
    | split

/-- An operand is no comparison of two operands. -/
lemma operand_not_binary {rules : Rules} : (operand rules).Yields fun expr =>
    ∀ first op second span, expr ≠ .binary first op second span := by
  have closed {parser : Parser Expr} (yields : parser.Yields fun expr => expr.isClosed = true) :
      parser.Yields fun expr => ∀ first op second span, expr ≠ .binary first op second span := by
    rintro dialect cursor _ stop run first op second span rfl
    exact absurd (yields run) Bool.false_ne_true
  unfold operand
  refine .bind fun view => ?_
  split
  · exact closed existsExpr_closed
  · split
    · refine .bind fun token => ?_
      refine .bind fun operand => ?_
      exact .bind fun _ => .of_pure (by simp)
    · exact closed primary_closed

/-- An operator that compares with `IS` is read by the parser for those. -/
lemma accepted_comparison {rules : Rules} {left left' right : Expr} {op : BinaryOp} {least : Nat}
    {span : Span} (is_op : op = .is ∨ op = .isNot)
    (run : (nextOperator rules least left).run dialect cursor =
      .accepted (some (.binary left' op right span)) stop) :
    (isExpr rules left).run dialect cursor.advance =
      .accepted (.binary left' op right span) stop := by
  obtain ⟨power, found, -, run⟩ := accepted_nextOperator_some run
  rcases accepted_operatorAfter found run with ⟨-, _, _, eq⟩ | ⟨-, _, _, eq⟩ | ⟨-, inner⟩ |
    ⟨-, _, _, inner⟩ | ⟨other, binary, -, inner⟩
  · cases eq
  · cases eq
  · exact inner
  · exact absurd rfl (negatable_not_binary _ _ inner _ _ _ _)
  · obtain ⟨second, _, -, -, last⟩ := accepted_bind inner
    cases (accepted_pure last).1
    unfold binaryOp? at binary
    rcases is_op with rfl | rfl <;> split at binary <;> cases binary

/-- A comparison is one with `DISTINCT` if it has been read as one. -/
lemma comparesDistinct_of_place {first middle place : Cursor} {left right : Expr} {op : BinaryOp}
    {span : Span} {power : Nat} (placed : PlacedBetween dialect source first middle (.expr left))
    (near : (place = middle.advance ∨ place = middle.advance.advance))
    (here : (Site.within dialect source).holds place)
    (distinct : place.view.atKeyword .DISTINCT = true)
    (run : ((rules limit depth).operators power).run dialect place.advance.advance =
      .accepted right stop) :
    (Node.expr (.binary left op right span)).comparesDistinct dialect.isDrift source = true := by
  have right_placed : PlacedBetween dialect source place.advance.advance stop (.expr right) :=
    placedBetween ((rules_laid limit depth).operators power)
      (fun S => (rules_careful S limit depth).operators power)
      (Site.advance _ (Site.advance _ here)) run
  have before : left.span.stop ≤ place.current.span.start := by
    rcases near with rfl | rfl <;> rw [Cursor.current, Cursor.peek_advance]
    · exact placed.stop_le 1
    · rw [Cursor.peek_advance]
      exact placed.stop_le 2
  have after : place.current.span.stop ≤ right.span.start := by
    have start : right.span.start = place.advance.advance.current.span.start :=
      right_placed.start_eq
    rw [start, Cursor.current, Cursor.current, Cursor.peek_advance, Cursor.peek_advance]
    exact peek_ordered here (by omega)
  refine List.any_eq_true.mpr ⟨place.current, Site.peek_mem here 0, ?_⟩
  rw [Bool.and_eq_true, Bool.and_eq_true]
  exact ⟨⟨distinct, decide_eq_true before⟩, decide_eq_true after⟩

/-- **The right operand of a comparison** that is none with `DISTINCT` starts with no word that
would have been taken for a part of the operator.

**Proof sketch.** If the expression is a comparison by `IS`, its last operator was read by `isExpr`
(`accepted_isExpr`). Had it `DISTINCT FROM`, the node would compare so, against the assumption.
Without it, the right operand was read where neither `NULL` nor, after a plain `IS`, `NOT` was next,
and it starts with the token that was next there. -/
lemma Chained.keepsComparison {least : Nat} {expr : Expr}
    (chain : Chained (.within dialect source) (rules limit depth) least cursor expr stop)
    (plain : (Node.expr expr).comparesDistinct dialect.isDrift source = false) :
    expr.KeepsComparison dialect.isDrift := by
  have keeps {left right : Expr} {op : BinaryOp} {span : Span}
      (eq : expr = .binary left op right span) (is_op : op = .is ∨ op = .isNot) :
      Word.kindAt (Render.wordsOf dialect.isDrift right.pieces) 0 ≠ .keyword .NULL ∧
        (op = .is →
          Word.kindAt (Render.wordsOf dialect.isDrift right.pieces) 0 ≠ .keyword .NOT) := by
    subst eq
    cases chain with
    | operand here run => exact absurd rfl (operand_not_binary run _ _ _ _)
    | @operator left' _ middle _ before run =>
      obtain ⟨rfl, place, notNull, near, rest⟩ := accepted_isExpr (accepted_comparison is_op run)
      have here : (Site.within dialect source).holds place := by
        rcases near with ⟨rfl, -⟩ | ⟨rfl, -⟩
        · exact Site.advance _ before.holds
        · exact Site.advance _ (Site.advance _ before.holds)
      rcases rest with ⟨distinct, inner⟩ | ⟨negated, inner⟩
      · have compares : (Node.expr (.binary left op right span)).comparesDistinct
            dialect.isDrift source = true :=
          comparesDistinct_of_place before.places (near.imp And.left And.left) here distinct inner
        exact absurd (plain.symm.trans compares) Bool.false_ne_true
      · have starts {word : Keyword} (mem : word ∈ [Keyword.NOT, .NULL, .EXISTS])
            (not : place.view.atKeyword word = false) :
            Word.kindAt (Render.wordsOf dialect.isDrift right.pieces) 0 ≠ .keyword word := by
          intro front
          let E : Rereading := ⟨dialect, .written, rules limit depth, rules limit depth⟩
          have known : E.Known 0 := Rereading.known _ _ (Nat.zero_le limit) (Nat.le_refl depth)
          have kind := known.front inner here.1 word mem [] (by rwa [List.append_nil])
          exact absurd (not.symm.trans (Rereading.atKeyword_of_kind kind)) Bool.false_ne_true
        refine ⟨starts (by simp) notNull, fun is_is => starts (by simp) ?_⟩
        rcases near with ⟨rfl, not⟩ | ⟨-, isNot⟩
        · exact not
        · rw [isNot, if_pos rfl, is_is] at negated
          cases negated
  cases expr with
  | binary left op right span =>
    cases op with
    | is => exact ⟨(keeps rfl (.inl rfl)).2 rfl, (keeps rfl (.inl rfl)).1⟩
    | isNot => exact (keeps rfl (.inr rfl)).1
    | _ => trivial
  | _ => trivial

end Grammar

/-! ## All nodes -/

open Grammar in
/-- **Nodes that have been read are faithful**, if they are neither calls of functions whose names
are in quotes nor comparisons with `DISTINCT`. -/
theorem Node.IsRead.faithful {dialect : Dialect} {source : String} {node : Node}
    (read : node.IsRead (.within dialect source)) (plain : node.IsPlain dialect.isDrift source) :
    node.Faithful dialect.isDrift := by
  obtain ⟨notQuoted, notDistinct⟩ := plain
  cases read with
  | expr chain => exact ⟨chain.keepsComparison notDistinct, chain.keepsName notQuoted⟩
  | singleTable made =>
    obtain ⟨_, _, _, _, here, run, -⟩ := made
    exact ⟨trivial, singleTable_keepsName here run notQuoted⟩
  | joined made =>
    obtain ⟨bound, depth, _, _, here, run, -⟩ := made
    obtain ⟨_, _, rfl, -⟩ :=
      nextJoin_children (rules_traced _ bound depth) _ here run trivial _ rfl
    exact ⟨trivial, trivial⟩
  | _ => exact ⟨trivial, trivial⟩

end SqlTree
