import SqlTree.Grammar.DriftFile
import SqlTree.Grammar.Knot
import SqlTree.Proofs.Origins.Gives
import SqlTree.Proofs.Reread.Change
import SqlTree.Proofs.Walks

set_option autoImplicit false

/-!
# Where the nodes of a tree come from

Every node of an accepted tree has been accepted by the parser of its kind, at some place of the
source and with rules of some depth. So what is known of the values of one parser is known of all
nodes of that kind, however deep they are in a tree.

An operator is read after its first operand, so an expression is read as a chain: an operand, and
some of the operators after it.

## Main definitions

* `SqlTree.Grammar.MadeBefore`, `SqlTree.Grammar.Made` — the value of a parser over the rules.
* `SqlTree.Grammar.Chained` — an operand with some of the operators after it.
* `SqlTree.Node.IsRead` — the node has been accepted by the parser of its kind.
* `SqlTree.Node.Traced` — the node and all nodes below it have been.
* `SqlTree.Grammar.Rules.Traced` — so have all nodes of whatever the rules accept.
* `SqlTree.ColumnConstraintKind.isPlain` — the constraints of columns that are leaves.

## Main results

* `SqlTree.Parser.GivesBefore.own` — a node is traced if its children are.
-/

namespace SqlTree

open Grammar SqlTree.Parser

/-! ## Nodes that have been read -/

namespace Grammar

/-- The parser accepts this value at the site, before a place of some kind, with rules of some
depth. -/
def MadeBefore {α : Type} (site : Site) (ends : Cursor → Prop) (parser : Rules → Parser α)
    (value : α) : Prop :=
  ∃ limit depth cursor stop, site.holds cursor ∧
    (parser (rules limit depth)).run site.dialect cursor = .accepted value stop ∧ ends stop

/-- The parser accepts this value at the site, with rules of some depth. -/
abbrev Made {α : Type} (site : Site) (parser : Rules → Parser α) (value : α) : Prop :=
  MadeBefore site (fun _ => True) parser value

/-- What is made before some end is made. -/
lemma MadeBefore.made {α : Type} {site : Site} {ends : Cursor → Prop} {parser : Rules → Parser α}
    {value : α} (made : MadeBefore site ends parser value) : Made site parser value := by
  obtain ⟨limit, depth, cursor, stop, here, run, -⟩ := made
  exact ⟨limit, depth, cursor, stop, here, run, trivial⟩

/-- A value that has been accepted has every property of the values that its parser accepts. -/
lemma MadeBefore.of_gives {α : Type} {site : Site} {ends : Cursor → Prop}
    {parser : Rules → Parser α} {value : α} {property : α → Prop}
    (made : MadeBefore site ends parser value)
    (gives : ∀ limit depth, Gives site (parser (rules limit depth)) property) : property value := by
  obtain ⟨limit, depth, cursor, stop, here, run, -⟩ := made
  exact gives limit depth here run trivial

/-- An operand that has been read from one place, with operators after it up to another place. -/
inductive Chained (site : Site) (rules : Rules) (least : Nat) (cursor : Cursor) :
    Expr → Cursor → Prop where
  | operand {first : Expr} {stop : Cursor} (here : site.holds cursor)
    (run : (operand rules).run site.dialect cursor = .accepted first stop) :
    Chained site rules least cursor first stop
  | operator {left value : Expr} {middle stop : Cursor}
    (before : Chained site rules least cursor left middle)
    (run : (nextOperator rules least left).run site.dialect middle = .accepted (some value) stop) :
    Chained site rules least cursor value stop

/-- A chain of operators ends at a place of the site. -/
lemma Chained.holds {site : Site} {rules : Rules} {least : Nat} {cursor stop : Cursor} {expr : Expr}
    (chain : Chained site rules least cursor expr stop) : site.holds stop := by
  induction chain with
  | operand here run => exact site.holds_of_accepted here run
  | operator _ run ih => exact site.holds_of_accepted ih run

end Grammar

/-- A statement may end here: a semicolon is next, or nothing. -/
def Cursor.AtStatementEnd (cursor : Cursor) : Prop :=
  Rereading.endsAt [.semicolon] cursor.current.kind = true

/-- No operator is next, not even one that does not go on with what is before it. -/
def Cursor.PastOperators (cursor : Cursor) : Prop :=
  infixPower cursor.current.kind = none

open Cursor in
/-- The node has been accepted by the parser of its kind. -/
inductive Node.IsRead (site : Site) : Node → Prop where
  | expr {limit depth least : Nat} {cursor stop : Cursor} {part : Expr}
    (chain : Chained site (rules limit depth) least cursor part stop) : IsRead site (.expr part)
  | query {part : Query} (made : MadeBefore site Rereading.Done Grammar.query part) :
    IsRead site (.query part)
  | select {part : Query} {expected : String}
    (made : MadeBefore site AtStatementEnd (dataStatement · expected) (.select part)) :
    IsRead site (.query part)
  | insert {part : Insert} {expected : String}
    (made : MadeBefore site AtStatementEnd (dataStatement · expected) (.insert part)) :
    IsRead site (.insert part)
  | update {part : Update} {expected : String}
    (made : MadeBefore site AtStatementEnd (dataStatement · expected) (.update part)) :
    IsRead site (.update part)
  | delete {part : Delete} {expected : String}
    (made : MadeBefore site AtStatementEnd (dataStatement · expected) (.delete part)) :
    IsRead site (.delete part)
  | createTable {part : CreateTable}
    (made : MadeBefore site AtStatementEnd Grammar.statement (.createTable part)) :
    IsRead site (.createTable part)
  | createVirtualTable {part : CreateVirtualTable}
    (made : MadeBefore site AtStatementEnd Grammar.statement (.createVirtualTable part)) :
    IsRead site (.createVirtualTable part)
  | createView {part : CreateView}
    (made : MadeBefore site AtStatementEnd Grammar.statement (.createView part)) :
    IsRead site (.createView part)
  | createTrigger {part : CreateTrigger}
    (made : MadeBefore site AtStatementEnd Grammar.statement (.createTrigger part)) :
    IsRead site (.createTrigger part)
  | createIndex {part : CreateIndex}
    (made : MadeBefore site AtStatementEnd Grammar.statement (.createIndex part)) :
    IsRead site (.createIndex part)
  | withClause {part : WithClause} (made : Made site Grammar.withClause part) :
    IsRead site (.withClause part)
  | commonTable {part : CommonTable} (made : Made site Grammar.commonTable part) :
    IsRead site (.commonTable part)
  | selectClause {part : SelectClause} (made : Made site Grammar.selectClause part) :
    IsRead site (.selectClause part)
  | valuesClause {part : ValuesClause} (made : Made site Grammar.valuesClause part) :
    IsRead site (.valuesClause part)
  | compoundPart {part : CompoundPart} (made : Made site Grammar.nextCompound (some part)) :
    IsRead site (.compoundPart part)
  | resultColumn {part : ResultColumn} (made : Made site Grammar.resultColumn part) :
    IsRead site (.resultColumn part)
  | singleTable {part : TableRef} (made : Made site Grammar.singleTable part) :
    IsRead site (.tableRef part)
  /-- A join is read after the table references before it. -/
  | joined {left part : TableRef} (made : Made site (Grammar.nextJoin · left) (some part)) :
    IsRead site (.tableRef part)
  | join {left : TableRef} {part : Join} {span : Span}
    (made : Made site (Grammar.nextJoin · left) (some (.join left part span))) :
    IsRead site (.join part)
  | whenClause {part : WhenClause} (made : Made site Grammar.whenClause part) :
    IsRead site (.whenClause part)
  | orderBy {part : OrderBy} (made : MadeBefore site PastOperators Grammar.orderBy part) :
    IsRead site (.orderBy part)
  | orderingItem {part : OrderingItem}
    (made : MadeBefore site PastOperators Grammar.orderingItem part) :
    IsRead site (.orderingItem part)
  | limit {part : Limit} (made : MadeBefore site PastOperators Grammar.limit part) :
    IsRead site (.limit part)
  | window {part : Window} (made : Made site Grammar.windowDefinition part) :
    IsRead site (.window part)
  | namedWindow {part : NamedWindow} (made : Made site Grammar.namedWindow part) :
    IsRead site (.namedWindow part)
  | frame {part : Frame} (made : Made site Grammar.optionalFrame (some part)) :
    IsRead site (.frame part)
  | typeName {part : TypeName} (made : Made site (Grammar.typeName ·.limit) part) :
    IsRead site (.typeName part)
  | assignment {part : Assignment} (made : Made site Grammar.assignment part) :
    IsRead site (.assignment part)
  | upsert {part : Upsert} (made : Made site Grammar.upsert part) : IsRead site (.upsert part)
  | conflictTarget {part : ConflictTarget} (made : Made site Grammar.conflictTarget part) :
    IsRead site (.conflictTarget part)
  | returning {part : Returning} (made : Made site Grammar.returning part) :
    IsRead site (.returning part)
  | columnDefinition {part : ColumnDefinition} (made : Made site Grammar.columnDefinition part) :
    IsRead site (.columnDefinition part)
  | columnConstraint {part : ColumnConstraint}
    (made : Made site Grammar.nextColumnConstraint (some part)) :
    IsRead site (.columnConstraint part)
  | tableConstraint {part : TableConstraint} (made : Made site Grammar.tableConstraint part) :
    IsRead site (.tableConstraint part)
  | foreignKey {part : ForeignKey} (made : Made site Grammar.foreignKey part) :
    IsRead site (.foreignKey part)
  | indexedColumn {part : IndexedColumn} (made : Made site Grammar.indexedColumn part) :
    IsRead site (.indexedColumn part)
  | rowClass {part : RowClass} (made : Made site (fun _ => Grammar.rowClass) part) :
    IsRead site (.rowClass part)
  | driftFile {part : DriftFile} (made : Made site Grammar.driftFile part) :
    IsRead site (.driftFile part)
  | imported {part : Import} (made : Made site Grammar.driftEntry (.imported part)) :
    IsRead site (.imported part)
  | declared {part : DeclaredStatement} (made : Made site Grammar.declaredStatement part) :
    IsRead site (.declared part)
  | statementParameter {part : StatementParameter}
    (made : Made site Grammar.statementParameter part) : IsRead site (.statementParameter part)

namespace Node

variable {site : Site}

/-- The node and all nodes below it have been accepted by the parsers of their kinds. -/
def Traced (site : Site) (node : Node) : Prop :=
  ∀ below ∈ node.walk, below.IsRead site

/-- All of these nodes, and all nodes below them, have been accepted by the parsers of their
kinds. -/
def AllTraced (site : Site) (nodes : List Node) : Prop :=
  ∀ node ∈ nodes, node.Traced site

/-- A node is traced if it has been read and its children are traced. -/
lemma traced_iff {node : Node} :
    node.Traced site ↔ node.IsRead site ∧ AllTraced site node.children :=
  forall_walk_iff

/-- An empty list of nodes is traced. -/
@[simp] lemma allTraced_nil : AllTraced site [] := by
  simp [AllTraced]

/-- Nodes are traced if the first and the others are. -/
@[simp] lemma allTraced_cons {node : Node} {nodes : List Node} :
    AllTraced site (node :: nodes) ↔ node.Traced site ∧ AllTraced site nodes := by
  simp [AllTraced]

/-- The nodes of two lists are traced if those of each are. -/
@[simp] lemma allTraced_append {first second : List Node} :
    AllTraced site (first ++ second) ↔ AllTraced site first ∧ AllTraced site second := by
  simp [AllTraced, or_imp, forall_and]

/-- The nodes of the parts of a list are traced if each is. -/
@[simp] lemma allTraced_each {α : Type} {node : α → Node} {parts : List α} :
    AllTraced site (each node parts) ↔ ∀ part ∈ parts, (node part).Traced site := by
  simp [AllTraced, each]

/-- The node of an optional part is traced if the part has one that is. -/
@[simp] lemma allTraced_maybe {α : Type} {node : α → Node} {part : Option α} :
    AllTraced site (maybe node part) ↔ ∀ inner ∈ part, (node inner).Traced site := by
  cases part <;> simp [maybe]

end Node

/-! ## Parsers -/

namespace Parser

variable {α : Type} {site : Site} {limit depth : Nat}

/-- **A node is traced if its children are.** -/
lemma GivesBefore.own {ends : Cursor → Prop} {make : α → Node} (parser : Rules → Parser α)
    (is_read : ∀ {value}, MadeBefore site ends parser value → (make value).IsRead site)
    (below : GivesBefore site ends (parser (Grammar.rules limit depth))
      fun value => Node.AllTraced site (make value).children) :
    GivesBefore site ends (parser (Grammar.rules limit depth))
      fun value => (make value).Traced site :=
  fun _ _ _ here run last =>
    Node.traced_iff.mpr ⟨is_read ⟨_, _, _, _, here, run, last⟩, below here run last⟩

/-- A node that may be missing is traced if its children are. -/
lemma GivesBefore.ownMaybe {make : α → Node} (parser : Rules → Parser (Option α))
    (is_read : ∀ {value}, Made site parser (some value) → (make value).IsRead site)
    (below : Gives site (parser (Grammar.rules limit depth))
      fun part => ∀ value ∈ part, Node.AllTraced site (make value).children) :
    Gives site (parser (Grammar.rules limit depth))
      fun part => ∀ value ∈ part, (make value).Traced site := by
  rintro cursor part stop here run last value rfl
  exact Node.traced_iff.mpr
    ⟨is_read ⟨_, _, _, _, here, run, last⟩, below here run last value rfl⟩

end Parser

namespace Grammar

/-- Whatever the rules accept is traced. -/
structure Rules.Traced (site : Site) (rules : Rules) : Prop where
  operators : ∀ least,
    Gives site (rules.operators least) fun expr => (Node.expr expr).Traced site
  query : GivesBefore site Rereading.Done rules.query fun query => (Node.query query).Traced site
  tableRef : Gives site rules.tableRef fun table => (Node.tableRef table).Traced site

/-- No operator follows where a symbol is next that is none. -/
lemma pastOperators_of_symbol {cursor : Cursor} {which : Symbol}
    (at_ : cursor.view.atSymbol which = true) (no : infixPower (.symbol which) = none) :
    cursor.PastOperators := by
  unfold Cursor.PastOperators
  rw [Rereading.kind_of_atSymbol at_, no]

/-- No operator follows where a keyword is next that is none. -/
lemma pastOperators_of_keyword {cursor : Cursor} {word : Keyword}
    (at_ : cursor.view.atKeyword word = true) (no : infixPower (.keyword word) = none) :
    cursor.PastOperators := by
  unfold Cursor.PastOperators
  rw [Rereading.kind_of_atKeyword at_, no]

/-- After a query no operator is next. -/
lemma pastOperators_of_done {cursor : Cursor} (done : Rereading.Done cursor) :
    cursor.PastOperators :=
  Rereading.not_power_of_done done

/-- No operator follows at the end of a statement. -/
lemma pastOperators_of_statementEnd {cursor : Cursor} (ends : cursor.AtStatementEnd) :
    cursor.PastOperators := by
  unfold Cursor.AtStatementEnd Rereading.endsAt at ends
  unfold Cursor.PastOperators
  split at ends
  · next which kind =>
    rw [kind]
    simp only [List.contains_cons, List.contains_nil, Bool.or_false, beq_iff_eq] at ends
    rw [ends]
    rfl
  · next kind =>
    rw [kind]
    rfl
  · exact absurd ends Bool.false_ne_true

/-- A closing parenthesis goes on with no expression. -/
lemma done_of_rightParen {cursor : Cursor} (at_ : cursor.view.atSymbol .rightParen = true) :
    Rereading.Done cursor :=
  Rereading.done_of_symbol at_ rfl

end Grammar

/-! ## Constraints of columns without parts -/

namespace ColumnConstraintKind

/-- A constraint of this kind holds neither a tree nor code. -/
def isPlain : ColumnConstraintKind → Bool
  | .check _ | .default _ | .foreignKey _ | .generated _ _ _ | .mappedBy _ => false
  | _ => true

variable {kind : ColumnConstraintKind}

/-- Nothing is below a plain constraint. -/
lemma children_of_isPlain (isPlain : kind.isPlain = true) :
    Node.ofColumnConstraintKind kind = [] := by
  cases kind <;> first | rfl | cases isPlain

/-- A plain constraint is no converter. -/
lemma ne_mappedBy_of_isPlain (isPlain : kind.isPlain = true) (code : String) :
    kind ≠ .mappedBy code := by
  rintro rfl
  cases isPlain

end ColumnConstraintKind

namespace Grammar

/-- A primary key is plain. -/
lemma columnPrimaryKey_isPlain : columnPrimaryKey.Yields (·.isPlain = true) := by
  unfold columnPrimaryKey
  refine .bind fun _ => .bind fun _ => ?_
  refine .bind fun direction => .bind fun onConflict => .bind fun autoincrement => ?_
  exact .of_pure rfl

/-- A ban of null is plain. -/
lemma notNull_isPlain : notNull.Yields (·.isPlain = true) := by
  unfold notNull
  refine .bind fun _ => .bind fun _ => ?_
  exact .bind fun onConflict => .of_pure rfl

/-- The name of a column in Dart is plain. -/
lemma dartName_isPlain : dartName.Yields (·.isPlain = true) := by
  unfold dartName
  refine .bind fun start => .bind fun _ => .bind fun _ => ?_
  exact .bind fun name => .of_pure rfl

/-- The key of a column in JSON objects is plain. -/
lemma jsonKey_isPlain : jsonKey.Yields (·.isPlain = true) := by
  unfold jsonKey
  refine .bind fun start => .bind fun _ => .bind fun _ => .bind fun _ => ?_
  exact .bind fun key => .of_pure rfl

end Grammar

end SqlTree
