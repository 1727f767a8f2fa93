import SqlTree.Proofs.Reread.Names
import SqlTree.Proofs.Unplaced

set_option autoImplicit false

/-!
# How the parts of trees are written

## Main definitions

* `SqlTree.Form.expr`, `SqlTree.Form.query`, `SqlTree.Form.tableRef` and the forms of all parts of
  expressions and queries.

## Main results

* `SqlTree.Form.wordsOf_commas` — the words of pieces with commas between them.
-/

namespace SqlTree

open Render

/-! ## Lists of pieces -/

/-- The pieces of expressions are those of each. -/
@[simp] lemma Expr.listPieces_eq_map (list : List Expr) :
    Expr.listPieces list = list.map Expr.pieces := by
  induction list <;> simp_all [Expr.listPieces]

/-- The pieces of items of an ordering are those of each. -/
@[simp] lemma OrderingItem.listPieces_eq_map (list : List OrderingItem) :
    OrderingItem.listPieces list = list.map OrderingItem.pieces := by
  induction list <;> simp_all [OrderingItem.listPieces]

/-- The pieces of named windows are those of each. -/
@[simp] lemma NamedWindow.listPieces_eq_map (list : List NamedWindow) :
    NamedWindow.listPieces list = list.map NamedWindow.pieces := by
  induction list <;> simp_all [NamedWindow.listPieces]

/-- The pieces of result columns are those of each. -/
@[simp] lemma ResultColumn.listPieces_eq_map (list : List ResultColumn) :
    ResultColumn.listPieces list = list.map ResultColumn.pieces := by
  induction list <;> simp_all [ResultColumn.listPieces]

/-- The pieces of common tables are those of each. -/
@[simp] lemma CommonTable.listPieces_eq_map (list : List CommonTable) :
    CommonTable.listPieces list = list.map CommonTable.pieces := by
  induction list <;> simp_all [CommonTable.listPieces]

/-- The pieces of rows are the expressions of each, in parentheses. -/
@[simp] lemma ValuesClause.rowPieces_eq_map (rows : List (List Expr)) :
    ValuesClause.rowPieces rows =
      rows.map fun row => parens (commas (row.map Expr.pieces)) := by
  induction rows <;> simp_all [ValuesClause.rowPieces]

/-- The pieces of branches are those of each, with a blank before it. -/
@[simp] lemma WhenClause.listPieces_eq_flatMap (list : List WhenClause) :
    WhenClause.listPieces list = list.flatMap fun branch => .blank :: branch.pieces := by
  induction list <;> simp_all [WhenClause.listPieces]

/-- The pieces of further members are those of each, with a blank before it. -/
@[simp] lemma CompoundPart.listPieces_eq_flatMap (list : List CompoundPart) :
    CompoundPart.listPieces list = list.flatMap fun part => .blank :: part.pieces := by
  induction list <;> simp_all [CompoundPart.listPieces]

namespace Form

variable {α : Type} (drift : Bool)

/-- Values that are written as pieces. -/
def ofPieces (pieces : α → List Piece) (nodes : α → List Node) (bare : α → α) : Form α :=
  ⟨fun value => wordsOf drift (pieces value), nodes, bare⟩

/-- The words of a form by pieces are those of the pieces. -/
@[simp] lemma ofPieces_words (pieces : α → List Piece) (nodes : α → List Node) (bare : α → α)
    (value : α) :
    (ofPieces drift pieces nodes bare).words value = wordsOf drift (pieces value) := rfl

/-- The nodes of a form by pieces are those it is given. -/
@[simp] lemma ofPieces_nodes (pieces : α → List Piece) (nodes : α → List Node) (bare : α → α) :
    (ofPieces drift pieces nodes bare).nodes = nodes := rfl

/-- What a form by pieces forgets is what it is given. -/
@[simp] lemma ofPieces_bare (pieces : α → List Piece) (nodes : α → List Node) (bare : α → α) :
    (ofPieces drift pieces nodes bare).bare = bare := rfl

/-- The words of pieces with commas between them. -/
lemma wordsOf_commas (form : Form α) (pieces : α → List Piece)
    (words : ∀ value, form.words value = wordsOf drift (pieces value)) (parts : List α) :
    wordsOf drift (Render.commas (parts.map pieces)) = form.commas.words parts := by
  unfold Render.commas Form.commas
  cases parts with
  | nil => rfl
  | cons first others =>
    induction others generalizing first with
    | nil => simp [separated, words]
    | cons second others ih =>
      have := ih second
      simp only [List.map_cons] at this ⊢
      rw [separated, wordsOf_append, wordsOf_append, this]
      · simp [words]
      · simp

/-! ## Expressions -/

/-- An expression. -/
def expr : Form Expr :=
  ofPieces drift Expr.pieces (fun expr => [.expr expr]) Expr.unplaced

/-- The words of expressions with commas between them are those of their form. -/
lemma wordsOf_exprs (parts : List Expr) :
    wordsOf drift (Render.commas (parts.map Expr.pieces)) = (expr drift).commas.words parts :=
  wordsOf_commas drift (expr drift) Expr.pieces (fun _ => rfl) parts

/-- A query. -/
def query : Form Query :=
  ofPieces drift Query.pieces (fun query => [.query query]) Query.unplaced

/-- A table reference. -/
def tableRef : Form TableRef :=
  ofPieces drift TableRef.pieces (fun table => [.tableRef table]) TableRef.unplaced

/-- A type. -/
def typeName : Form TypeName :=
  ofPieces drift TypeName.pieces (fun type => [.typeName type]) TypeName.unplaced

/-- What membership is tested in. -/
def inSource : Form InSource :=
  ofPieces drift InSource.pieces Node.ofInSource InSource.unplaced

/-- A branch of a choice. -/
def whenClause : Form WhenClause :=
  ofPieces drift WhenClause.pieces (fun branch => [.whenClause branch]) WhenClause.unplaced

/-- What a function is called with, and the order of its arguments. -/
def parameters : Form (Parameters × Option OrderBy) :=
  ofPieces drift
    (fun (parameters, order) => parameters.pieces ++
      match order with
      | some order => .blank :: order.pieces
      | none => [])
    (fun (parameters, order) =>
      Node.each Node.expr parameters.arguments ++ Node.maybe Node.orderBy order)
    (fun (parameters, order) => (parameters.unplaced, order.map OrderBy.unplaced))

/-- The window of a function. -/
def overClause : Form Over :=
  ofPieces drift Over.pieces Node.ofOver Over.unplaced

/-- A sorting term. -/
def orderingTerm : Form OrderingTerm :=
  ofPieces drift OrderingTerm.pieces (fun sorting => [.expr sorting.expr]) OrderingTerm.unplaced

/-- An item of a sorting clause. -/
def orderingItem : Form OrderingItem :=
  ofPieces drift OrderingItem.pieces (fun item => [.orderingItem item]) OrderingItem.unplaced

/-- A sorting clause. -/
def orderBy : Form OrderBy :=
  ofPieces drift OrderBy.pieces (fun order => [.orderBy order]) OrderBy.unplaced

/-- An end of a frame. -/
def frameBound : Form FrameBound :=
  ofPieces drift FrameBound.pieces (fun bound => Node.maybe Node.expr bound.offset?)
    FrameBound.unplaced

/-- A frame. -/
def frame : Form Frame :=
  ofPieces drift Frame.pieces (fun frame => [.frame frame]) Frame.unplaced

/-- The definition of a window. -/
def window : Form Window :=
  ofPieces drift Window.pieces (fun window => [.window window]) Window.unplaced

section

variable {drift}

/-- The form of expressions forgets their spans. -/
@[simp] lemma expr_bare : (expr drift).bare = Expr.unplaced := rfl

/-- The form of expressions has the expression as its node. -/
@[simp] lemma expr_nodes (value : Expr) : (expr drift).nodes value = [.expr value] := rfl

end

/-! ## Queries -/

/-- A window with a name. -/
def namedWindow : Form NamedWindow :=
  ofPieces drift NamedWindow.pieces (fun window => [.namedWindow window]) NamedWindow.unplaced

/-- A result column. -/
def resultColumn : Form ResultColumn :=
  ofPieces drift ResultColumn.pieces (fun column => [.resultColumn column]) ResultColumn.unplaced

/-- The words of result columns with commas between them are those of their form. -/
lemma wordsOf_resultColumns (parts : List ResultColumn) :
    wordsOf drift (Render.commas (parts.map ResultColumn.pieces)) =
      (resultColumn drift).commas.words parts :=
  wordsOf_commas drift (resultColumn drift) ResultColumn.pieces (fun _ => rfl) parts

/-- What joined rows have in common. -/
def joinConstraint : Form JoinConstraint :=
  ofPieces drift JoinConstraint.pieces Node.ofJoinConstraint JoinConstraint.unplaced

/-- A common table. -/
def commonTable : Form CommonTable :=
  ofPieces drift CommonTable.pieces (fun table => [.commonTable table]) CommonTable.unplaced

/-- The common tables of a statement. -/
def withClause : Form WithClause :=
  ofPieces drift WithClause.pieces (fun clause => [.withClause clause]) WithClause.unplaced

/-- A query that computes columns. -/
def selectClause : Form SelectClause :=
  ofPieces drift SelectClause.pieces (fun clause => [.selectClause clause]) SelectClause.unplaced

/-- A query that lists its rows. -/
def valuesClause : Form ValuesClause :=
  ofPieces drift ValuesClause.pieces (fun clause => [.valuesClause clause]) ValuesClause.unplaced

/-- A member of a compound query. -/
def queryCore : Form QueryCore :=
  ofPieces drift QueryCore.pieces (fun core => [core.node]) QueryCore.unplaced

/-- A further member of a compound query. -/
def compoundPart : Form CompoundPart :=
  ofPieces drift CompoundPart.pieces (fun part => [.compoundPart part]) CompoundPart.unplaced

/-- A limit. -/
def limit : Form Limit :=
  ofPieces drift Limit.pieces (fun limit => [.limit limit]) Limit.unplaced

end Form

end SqlTree
