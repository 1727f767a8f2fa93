import SqlTree.Render.DriftFile
import SqlTree.Tree.Node

set_option autoImplicit false

/-!
# Writing nodes

Every node can be written on its own, as it is written inside its tree.

## Main definitions

* `SqlTree.Node.pieces`, `SqlTree.Node.render` — the pieces and the text of a node.
-/

namespace SqlTree.Node

/-- The pieces of a node. -/
def pieces : Node → List Render.Piece
  | .expr part => part.pieces
  | .query part => part.pieces
  | .insert part => part.pieces
  | .update part => part.pieces
  | .delete part => part.pieces
  | .createTable part => part.pieces
  | .createVirtualTable part => part.pieces
  | .createView part => part.pieces
  | .createTrigger part => part.pieces
  | .createIndex part => part.pieces
  | .withClause part => part.pieces
  | .commonTable part => part.pieces
  | .selectClause part => part.pieces
  | .valuesClause part => part.pieces
  | .compoundPart part => part.pieces
  | .resultColumn part => part.pieces
  | .tableRef part => part.pieces
  | .join part => part.pieces
  | .whenClause part => part.pieces
  | .orderBy part => part.pieces
  | .orderingItem part => part.pieces
  | .limit part => part.pieces
  | .window part => part.pieces
  | .namedWindow part => part.pieces
  | .frame part => part.pieces
  | .typeName part => part.pieces
  | .assignment part => part.pieces
  | .upsert part => part.pieces
  | .conflictTarget part => part.pieces
  | .returning part => part.pieces
  | .columnDefinition part => part.pieces
  | .columnConstraint part => part.pieces
  | .tableConstraint part => part.pieces
  | .foreignKey part => part.pieces
  | .indexedColumn part => part.pieces
  | .rowClass part => part.pieces
  | .driftFile part => part.pieces
  | .imported part => part.pieces
  | .declared part => part.pieces
  | .statementParameter part => part.pieces

/-- The text of a node. -/
def render (node : Node) : String :=
  Render.text node.pieces

end SqlTree.Node
