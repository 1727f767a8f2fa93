import SqlTree.Proofs.Legible.Literal
import SqlTree.Proofs.Legible.Verbatim
import SqlTree.Proofs.Reread.Forms

set_option autoImplicit false

/-!
# Written expressions are scanned into their words

An expression is legible if it can be written and its children are legible: no piece of it stands
next to one that it would be read with. Only a minus sign stands directly before an operand that it
could be read with, so it has to be known how operands start.

## Main definitions

* `SqlTree.Node.IsWritten` — what the node holds besides its children can be written.
* `SqlTree.Node.AllLegible` — nodes are legible.

## Main results

* `SqlTree.Node.legible_expr` — expressions are legible if their children are.
-/

namespace SqlTree

open Render

/-! ## What can be written -/

/-- Dart code can be written: it holds no backtick, and it is read with the drift extensions. -/
def IsDart (drift : Bool) (code : String) : Prop :=
  drift = true ∧ '\x60' ∉ code.toList

/-- Code in Dart is legible if it is written like such. -/
lemma IsDart.legible {drift : Bool} {code : String} (isDart : IsDart drift code) :
    Legible drift [.dart code] := by
  obtain ⟨rfl, noBacktick⟩ := isDart
  exact (legible_dart noBacktick).mono fun _ _ => trivial

namespace Node

/-- What the node holds besides its children can be written. -/
def IsWritten (drift : Bool) : Node → Prop
  | .expr (.literal (.float number) _) =>
    Alone drift (Literal.floatText number).toList (.float number)
  | .expr (.variable which _) => which.IsWritten
  | .expr (.placeholder name _) => (Variable.named .dollar name).IsWritten
  | .orderingItem (.placeholder name _) => (Variable.named .dollar name).IsWritten
  | .limit ⟨.placeholder name, _⟩ => (Variable.named .dollar name).IsWritten
  | .insert part =>
    ∀ name span, part.source = .placeholder name span → (Variable.named .dollar name).IsWritten
  | .resultColumn (.nestedStar _ _) => drift = true
  | .resultColumn (.expression _ _ mappedBy _) => ∀ code ∈ mappedBy, IsDart drift code
  | .columnConstraint part => ∀ code, part.kind = .mappedBy code → IsDart drift code
  | .typeName part =>
    IsVerbatim drift part.name ∧ ∀ argument ∈ part.arguments, IsVerbatim drift argument
  | .createVirtualTable part => ∀ argument ∈ part.arguments, IsVerbatim drift argument
  | .statementParameter (.variableType which _ _ _ _) => which.IsWritten
  | .statementParameter (.defaultValue name _ _) => (Variable.named .dollar name).IsWritten
  | _ => True

/-- All of these nodes are legible. -/
def AllLegible (drift : Bool) (nodes : List Node) : Prop :=
  ∀ node ∈ nodes, Legible drift node.pieces

section

variable {drift : Bool}

/-- No nodes are legible. -/
@[simp] lemma allLegible_nil : AllLegible drift [] := by
  simp [AllLegible]

/-- Nodes are legible if the first one and the others are. -/
@[simp] lemma allLegible_cons {node : Node} {nodes : List Node} :
    AllLegible drift (node :: nodes) ↔ Legible drift node.pieces ∧ AllLegible drift nodes := by
  simp [AllLegible]

/-- Nodes of two lists are legible if those of each are. -/
@[simp] lemma allLegible_append {first second : List Node} :
    AllLegible drift (first ++ second) ↔ AllLegible drift first ∧ AllLegible drift second := by
  simp [AllLegible, or_imp, forall_and]

/-- The nodes of some parts are legible if the pieces of each are. -/
@[simp] lemma allLegible_each {α : Type} {node : α → Node} {parts : List α} :
    AllLegible drift (each node parts) ↔ ∀ part ∈ parts, Legible drift (node part).pieces := by
  simp [AllLegible, each]

/-- The node of a part that may be missing is legible if its pieces are. -/
@[simp] lemma allLegible_maybe {α : Type} {node : α → Node} {part : Option α} :
    AllLegible drift (maybe node part) ↔ ∀ inner ∈ part, Legible drift (node inner).pieces := by
  cases part <;> simp [maybe]

end

end Node

/-! ## Optional parts -/

/-- The condition on the rows that a function is computed over, after a blank. -/
def Render.filterClause (filter : Option Expr) : List Piece :=
  optional filter fun filter => .blank :: .keyword .FILTER :: .blank ::
    parens (.keyword .WHERE :: .blank :: filter.pieces)

namespace Expr

variable {name : String} {parameters : Parameters} {filter otherwise : Option Expr} {span : Span}

/-- The pieces of a match. -/
lemma pieces_like {operand pattern : Expr} {op : PatternOp} {escape : Option Expr}
    {negated : Bool} :
    (like operand op pattern escape negated span).pieces =
      operand.pieces ++ .blank :: wordsIf negated [.NOT] ++
        .keyword op.keyword :: .blank :: pattern.pieces ++
        optional escape fun escape => .blank :: .keyword .ESCAPE :: .blank :: escape.pieces := by
  cases escape <;> rfl

/-- The pieces of `CASE`. -/
lemma pieces_cases {operand : Option Expr} {branches : List WhenClause} :
    (cases operand branches otherwise span).pieces =
      .keyword .CASE :: optional operand (fun operand => .blank :: operand.pieces) ++
        WhenClause.listPieces branches ++
        optional otherwise
          (fun otherwise => .blank :: .keyword .ELSE :: .blank :: otherwise.pieces) ++
        [.blank, .keyword .END] := by
  cases operand <;> cases otherwise <;> rfl

/-- The pieces of an aggregate. -/
lemma pieces_aggregate {order : Option OrderBy} :
    (aggregate name parameters order filter span).pieces =
      .functionName name ::
        parens (parameters.pieces ++ optional order fun order => .blank :: order.pieces) ++
        filterClause filter := by
  cases order <;> cases filter <;> rfl

/-- The pieces of the call of a window function. -/
lemma pieces_windowCall {window : Over} :
    (windowCall name parameters filter window span).pieces =
      .functionName name :: parens parameters.pieces ++ filterClause filter ++
        .blank :: .keyword .OVER :: .blank :: window.pieces := by
  cases filter <;> rfl

/-- The pieces of `RAISE`. -/
lemma pieces_raise {action : RaiseAction} {message : Option Expr} :
    (raise action message span).pieces =
      .keyword .RAISE :: parens (.keyword action.keyword ::
        optional message fun message => .symbol .comma :: .blank :: message.pieces) := by
  cases message <;> rfl

end Expr

namespace Render

variable {drift : Bool} {pieces others : List Piece}

/-! ## First characters -/

/-- The first character of the first piece is no part of an arrow. -/
def Opens (pieces : List Piece) : Prop :=
  ∃ piece ∈ pieces.head?, ∃ c ∈ piece.text.toList.head?, c ≠ '>'

namespace Opens

/-- What starts with no arrow does so before anything else. -/
lemma append (opens : Opens pieces) : Opens (pieces ++ others) := by
  obtain ⟨piece, mem, rest⟩ := opens
  exact ⟨piece, by rw [List.head?_append, mem]; rfl, rest⟩

/-- What starts like a name starts with no arrow. -/
lemma of_start {piece : Piece}
    (head : ∃ first tail, piece.text.toList = first :: tail ∧ StartsName first) :
    Opens (piece :: pieces) := by
  obtain ⟨first, tail, toList, starts⟩ := head
  refine ⟨piece, rfl, first, by rw [toList]; rfl, ?_⟩
  rintro rfl
  rcases starts with start | quote
  · exact absurd start (by decide)
  · exact absurd quote (by decide)

/-- A keyword starts with no arrow. -/
lemma keyword (word : Keyword) : Opens (.keyword word :: pieces) :=
  of_start (head_keyword word.ofText?_text)

/-- A name starts with no arrow. -/
lemma name (written : String) : Opens (.name written :: pieces) :=
  of_start (head_nameText written)

/-- The name of a function starts with no arrow. -/
lemma functionName (written : String) : Opens (.functionName written :: pieces) :=
  of_start (head_functionNameText written)

/-- A parenthesis starts with no arrow. -/
lemma leftParen : Opens (.symbol .leftParen :: pieces) :=
  ⟨_, rfl, '(', rfl, by decide⟩

/-- A variable starts with no arrow. -/
lemma of_variable (which : Variable) : Opens (.variable which :: pieces) := by
  cases which with
  | anonymous => exact ⟨_, rfl, '?', rfl, by decide⟩
  | numbered index =>
    exact ⟨_, rfl, '?', by simp [Piece.text, Variable.text], by decide⟩
  | named sigil written =>
    refine ⟨_, rfl, sigil.char, by simp [Piece.text, Variable.text], ?_⟩
    cases sigil <;> decide

/-- What is a token alone starts with no arrow, unless it is a symbol. -/
lemma of_alone {piece : Piece} {kind : TokenKind} (alone : Alone drift piece.text.toList kind)
    (noSymbol : ∀ which, kind ≠ .symbol which) : Opens (piece :: pieces) := by
  obtain ⟨-, ⟨first, tail, toList, scan⟩, -⟩ := alone
  refine ⟨piece, rfl, first, by rw [toList]; rfl, ?_⟩
  rintro rfl
  have isSymbol : ∃ which, (scanToken drift '>' tail).kind = .symbol which := by
    unfold scanToken
    split <;> simp_all
  obtain ⟨which, isSymbol⟩ := isSymbol
  rw [scan] at isSymbol
  exact noSymbol which isSymbol

end Opens

/-- A literal starts with no arrow. -/
lemma opens_literal {value : Literal} (reads : ∀ number, value = .float number →
    Alone drift (Literal.floatText number).toList (.float number)) :
    Opens (.literal value :: pieces) := by
  have alone : Alone drift (Piece.literal value).text.toList value.kind := Literal.alone reads
  exact .of_alone alone fun _ => value.kind_ne rfl

/-- A prefix operator starts with no arrow. -/
lemma opens_unary (op : UnaryOp) (operand : List Piece) : Opens (op.pieces operand) := by
  cases op with
  | neg =>
    rw [UnaryOp.pieces]
    split <;> exact ⟨_, rfl, '-', rfl, by decide⟩
  | plus => exact ⟨_, rfl, '+', rfl, by decide⟩
  | not => exact .keyword _
  | bitNot => exact ⟨_, rfl, '~', rfl, by decide⟩

/-- An operand that starts with no arrow is legible after its operator. -/
lemma legible_unary (op : UnaryOp) (legible : Legible drift pieces) (opens : Opens pieces) :
    Legible drift (op.pieces pieces) := by
  unfold UnaryOp.pieces
  cases op with
  | not => exact .keyword .NOT (.blank legible)
  | plus => exact LegibleBefore.cons (legible_bracket (by simp)) legible fun _ _ _ _ => trivial
  | bitNot => exact LegibleBefore.cons (legible_bracket (by simp)) legible fun _ _ _ _ => trivial
  | neg =>
    obtain ⟨piece, isPiece, first, isFirst, noArrow⟩ := opens
    obtain ⟨others, rfl⟩ := List.head?_eq_some_iff.mp isPiece
    unfold startsWithHyphen
    dsimp only
    split
    · have sign : Legible drift [.symbol .minus] := legible_symbol .minus (by simp)
      exact .cons sign (.blank legible)
    · next noHyphen =>
      refine LegibleBefore.cons legible_minus legible fun rest _ c head => ?_
      rw [isFirst] at noHyphen
      obtain ⟨tail, toList⟩ := List.head?_eq_some_iff.mp isFirst
      rw [toList_text_cons, toList, List.cons_append, List.cons_append, List.head?_cons,
        Option.mem_some_iff] at head
      subst head
      exact ⟨by simpa using noHyphen, noArrow⟩

/-- The operator between two operands is legible. -/
lemma legible_binary (op : BinaryOp) : Legible drift op.pieces := by
  cases op with
  | isNot => exact .keyword .IS (.blank (.keyword .NOT .nil))
  | is | and | or => exact .keyword _ .nil
  | _ => exact legible_symbol _ (fun h => nomatch h)

end Render

namespace Node

variable {drift : Bool}

/-! ## Expressions -/

/-- An expression starts with no arrow. -/
def Opens : Node → Prop
  | .expr part => Render.Opens part.pieces
  | _ => True

/-- A list of expressions is legible if each of them is. -/
lemma legible_exprs {list : List Expr} (each : ∀ part ∈ list, Legible drift part.pieces) :
    Legible drift (commas (Expr.listPieces list)) := by
  rw [Expr.listPieces_eq_map]
  exact .mapped each

/-- The parameters of a call are legible if its arguments are. -/
lemma legible_parameters {parameters : Parameters}
    (children : AllLegible drift (each expr parameters.arguments)) :
    Legible drift parameters.pieces := by
  cases parameters with
  | none => exact .nil
  | star => exact legible_symbol .star (fun h => nomatch h)
  | list distinct arguments =>
    rw [Parameters.pieces]
    exact .after_wordsIf
      (legible_exprs (by simpa [Node.pieces, Parameters.arguments] using children)) _ _

/-- What follows `IN` is legible if its children are. -/
lemma legible_inSource {source : InSource} (children : AllLegible drift (ofInSource source)) :
    Legible drift source.pieces := by
  cases source with
  | list items => exact .parens (legible_exprs (by simpa [ofInSource, Node.pieces] using children))
  | subquery query =>
    rw [InSource.pieces]
    exact .parens (by simpa [ofInSource, Node.pieces] using children)
  | table schema name => exact .qualified schema name
  | «variable» which => simpa [ofInSource, Node.pieces, InSource.pieces] using children

/-- `FILTER` may follow a name. -/
lemma trailing_filter {filter : Option Expr} (children : AllLegible drift (maybe expr filter)) :
    Trailing drift (filterClause filter) := by
  simp only [allLegible_maybe, Node.pieces] at children
  exact .optional fun filter mem =>
    .clause .FILTER (.parens (.keyword .WHERE (.blank (children filter mem))))

/-- An expression is legible if its children are.

**Proof sketch.** By the kind of the expression. Its pieces are keywords, names and symbols with
blanks and parentheses between them, which leave the pieces next to them alone, and the pieces of
its children, which are legible. Literals and variables are legible as they are written. After a
prefix operator the operand must not go on with an arrow, as `opens` says. -/
lemma legible_expr {part : Expr} (isWritten : IsWritten drift (.expr part))
    (children : AllLegible drift (ofExpr part))
    (opens : ∀ child ∈ ofExpr part, child.Opens) : Legible drift part.pieces := by
  cases part with
  | literal value =>
    rw [Expr.pieces]
    refine legible_of_alone (Literal.alone fun number isFloat => ?_) rfl
    subst isFloat
    exact isWritten
  | reference schema table column =>
    cases schema with
    | none =>
      simp only [Expr.pieces, List.nil_append]
      exact .qualified table column
    | some schema =>
      simp only [Expr.pieces, List.cons_append, List.nil_append]
      cases table with
      | none => exact .dotted (.name column .nil) schema (Legible.start_name column)
      | some table =>
        exact .dotted (.dotted (.name column .nil) table (Legible.start_name column)) schema
          (Legible.start_name table)
  | «variable» which =>
    rw [Expr.pieces]
    exact (legible_variable isWritten).legible
  | placeholder name =>
    have isWritten : (Variable.named .dollar name).IsWritten := isWritten
    rw [Expr.pieces]
    exact (legible_variable isWritten).legible
  | unary op operand =>
    simp only [ofExpr, allLegible_cons, Node.pieces] at children
    rw [Expr.pieces]
    exact legible_unary op children.1 (opens _ List.mem_cons_self)
  | binary left op right =>
    simp only [ofExpr, allLegible_cons, Node.pieces] at children
    rw [Expr.pieces]
    exact (children.1.append (.blank (legible_binary op))).append (.blank children.2.1)
  | collate operand collation =>
    simp only [ofExpr, allLegible_cons, Node.pieces] at children
    rw [Expr.pieces]
    exact children.1.append (.clause .COLLATE (.name collation .nil))
  | isNull operand negated =>
    simp only [ofExpr, allLegible_cons, Node.pieces] at children
    simp only [Expr.pieces, List.append_assoc, List.cons_append]
    exact children.1.append
      (.clause .IS (.after_wordsIf (.keyword .NULL .nil) negated _))
  | like operand op pattern escape negated =>
    simp only [ofExpr, allLegible_cons, allLegible_maybe, Node.pieces] at children
    obtain ⟨operand, pattern, escapes⟩ := children
    simp only [Expr.pieces_like, List.append_assoc, List.cons_append]
    refine operand.append
      (.blank (.after_wordsIf (.keyword op.keyword (.blank (pattern.append ?_))) negated _))
    exact .optional fun escape mem => .clause .ESCAPE (escapes escape mem)
  | isIn operand source negated =>
    simp only [ofExpr, allLegible_cons, Node.pieces] at children
    simp only [Expr.pieces, List.append_assoc, List.cons_append]
    exact children.1.append (.blank
      (.after_wordsIf (.keyword .IN (.blank (legible_inSource children.2))) negated _))
  | between operand low high negated =>
    simp only [ofExpr, allLegible_cons, Node.pieces] at children
    obtain ⟨operand, low, high, -⟩ := children
    simp only [Expr.pieces, List.append_assoc, List.cons_append]
    exact operand.append (.blank (.after_wordsIf
      (.keyword .BETWEEN (.blank (low.append (.clause .AND high)))) negated _))
  | cases operand branches otherwise =>
    simp only [ofExpr, allLegible_append, allLegible_maybe, allLegible_each, Node.pieces,
      and_assoc] at children
    obtain ⟨operands, each, others⟩ := children
    simp only [Expr.pieces_cases, List.append_assoc, List.cons_append,
      WhenClause.listPieces_eq_flatMap]
    refine .keyword .CASE (.append (.optional fun operand mem => .blank (operands operand mem))
      (.append (.flatMap fun branch mem => .blank (each branch mem))
        (.append (.optional fun otherwise mem => ?_) (.blank (.keyword .END .nil)))))
    exact .clause .ELSE (others otherwise mem)
  | cast operand type =>
    simp only [ofExpr, allLegible_cons, Node.pieces] at children
    rw [Expr.pieces]
    exact .keyword .CAST
      (.parens (children.1.append (.clause .AS children.2.1)))
  | existsRow query negated =>
    simp only [ofExpr, allLegible_cons, Node.pieces] at children
    rw [Expr.pieces]
    exact .after_wordsIf (.keyword .EXISTS (.blank (.parens children.1))) negated _
  | subquery query =>
    simp only [ofExpr, allLegible_cons, Node.pieces] at children
    rw [Expr.pieces]
    exact .parens children.1
  | tuple items =>
    simp only [ofExpr, allLegible_each, Node.pieces] at children
    rw [Expr.pieces]
    exact .parens (legible_exprs children)
  | parentheses inner =>
    simp only [ofExpr, allLegible_cons, Node.pieces] at children
    rw [Expr.pieces]
    exact .parens children.1
  | call name parameters =>
    rw [Expr.pieces]
    exact .functionName name (.parens (legible_parameters children))
  | aggregate name parameters order filter =>
    simp only [ofExpr, allLegible_append] at children
    obtain ⟨⟨arguments, orders⟩, filters⟩ := children
    simp only [allLegible_maybe, Node.pieces] at orders
    simp only [Expr.pieces_aggregate, List.cons_append]
    refine .functionName name (.append (.parens ((legible_parameters arguments).append ?_))
      (trailing_filter filters))
    exact .optional fun order mem => .blank (orders order mem)
  | windowCall name parameters filter window =>
    simp only [ofExpr, allLegible_append] at children
    obtain ⟨⟨arguments, filters⟩, place⟩ := children
    simp only [Expr.pieces_windowCall, List.append_assoc, List.cons_append]
    refine .functionName name (.append (.parens (legible_parameters arguments))
      (.append (trailing_filter filters) (.clause .OVER ?_)))
    cases window with
    | window definition => simpa [ofOver, Node.pieces, Over.pieces] using place
    | named written => exact .name written .nil
  | raise action message =>
    simp only [ofExpr, allLegible_maybe, Node.pieces] at children
    rw [Expr.pieces_raise]
    exact .keyword .RAISE (.parens (.keyword action.keyword (.optional fun message mem =>
      .symbol (by simp) (.blank (children message mem)))))

/-- An expression starts with no arrow if its first operand does not.

**Proof sketch.** By the kind of the expression. It starts with its first operand, or with a piece
of its own: a literal, a variable, a name, a keyword, a parenthesis or a prefix operator. -/
lemma opens_expr {part : Expr} (isWritten : IsWritten drift (.expr part))
    (opens : ∀ child ∈ ofExpr part, child.Opens) : Render.Opens part.pieces := by
  have first {operand : Expr} (isFirst : Node.expr operand ∈ ofExpr part) :
      Render.Opens operand.pieces := opens _ isFirst
  cases part with
  | literal value =>
    rw [Expr.pieces]
    exact opens_literal fun number isFloat => by subst isFloat; exact isWritten
  | reference schema table column =>
    cases schema with
    | none => cases table <;> exact .name _
    | some schema => exact .name _
  | «variable» which =>
    rw [Expr.pieces]
    exact .of_variable which
  | placeholder name =>
    rw [Expr.pieces]
    exact .of_variable _
  | unary op operand =>
    rw [Expr.pieces]
    exact opens_unary op _
  | like =>
    simp only [Expr.pieces_like, List.append_assoc]
    exact .append (first (by simp [ofExpr]))
  | binary | collate | isNull | isIn | between =>
    simp only [Expr.pieces, List.append_assoc]
    exact .append (first (by simp [ofExpr]))
  | cases =>
    rw [Expr.pieces_cases]
    exact .keyword _
  | raise =>
    rw [Expr.pieces_raise]
    exact .keyword _
  | cast =>
    rw [Expr.pieces]
    exact .keyword _
  | existsRow query negated =>
    rw [Expr.pieces]
    cases negated <;> exact .keyword _
  | subquery | tuple | parentheses =>
    rw [Expr.pieces]
    exact .leftParen
  | call =>
    rw [Expr.pieces]
    exact .functionName _
  | aggregate =>
    rw [Expr.pieces_aggregate]
    exact .functionName _
  | windowCall =>
    rw [Expr.pieces_windowCall]
    exact .functionName _

end Node

end SqlTree
