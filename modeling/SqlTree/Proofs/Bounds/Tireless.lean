import SqlTree.Grammar.DriftFile
import SqlTree.Proofs.Bounds.Settles

set_option autoImplicit false

/-!
# Parsers without bounds

The small parsers of the grammar have neither loops nor parts that hold expressions or queries, so
they have no bounds that they could reach.
-/

namespace SqlTree.Grammar

open SqlTree.Parser

/-! ## Names, expressions and queries -/

instance : Tireless qualifiedName := by
  unfold qualifiedName
  infer_instance

instance : Tireless asName := by
  unfold asName
  infer_instance

instance : Tireless optionalAlias := by
  have bare : Tireless (do
      match (← current).kind with
      | .identifier name =>
        let _ ← advance
        return some name
      | _ => return none) := by
    refine @Tireless.bind _ _ _ _ _ fun token => ?_
    split <;> infer_instance
  unfold optionalAlias
  infer_instance

instance : Tireless variableExpr := by
  unfold variableExpr
  refine @Tireless.bind _ _ _ _ _ fun view => ?_
  split
  · split <;> infer_instance
  · infer_instance

instance : Tireless direction := by
  unfold direction
  infer_instance

instance : Tireless nullOrdering := by
  unfold nullOrdering
  infer_instance

instance : Tireless exclusion := by
  unfold exclusion
  infer_instance

instance : Tireless reference := by
  unfold reference
  infer_instance

instance : Tireless materialization := by
  have demanded (start : Span) (hint : Option Bool) : Tireless (do
      if hint.isSome then
        require .materializedTables "MATERIALIZED hints" (← spanFrom start)
      return hint) := by
    dsimp only
    infer_instance
  unfold materialization
  refine @Tireless.bind _ _ _ _ _ fun start => @Tireless.bind _ _ _ _ _ fun _ => ?_
  infer_instance

instance : Tireless dartCode := by
  unfold dartCode
  refine @Tireless.bind _ _ _ _ _ fun value => ?_
  split <;> infer_instance

instance : Tireless mappedBy := by
  unfold mappedBy
  infer_instance

instance : Tireless optionalMappedBy := by
  unfold optionalMappedBy
  infer_instance

instance : Tireless tableOfStar := by
  unfold tableOfStar
  infer_instance

instance : Tireless optionalIndexing := by
  unfold optionalIndexing
  infer_instance

instance : Tireless joinKind := by
  unfold joinKind
  refine @Tireless.bind _ _ _ _ _ fun value => ?_
  split <;> infer_instance

instance : Tireless optionalJoinOperator := by
  unfold optionalJoinOperator
  infer_instance

instance : Tireless distinctRows := by
  unfold distinctRows
  infer_instance

instance : Tireless optionalCompoundOperator := by
  unfold optionalCompoundOperator
  infer_instance

/-! ## Statements -/

instance : Tireless conflict := by
  unfold conflict
  refine @Tireless.bind _ _ _ _ _ fun value => ?_
  split <;> infer_instance

instance : Tireless insertMode := by
  unfold insertMode
  infer_instance

instance : Tireless optionalOnConflict := by
  unfold optionalOnConflict
  infer_instance

instance : Tireless constraintName := by
  unfold constraintName
  infer_instance

instance : Tireless referentialAction := by
  unfold referentialAction
  infer_instance

instance : Tireless referentialEvent := by
  unfold referentialEvent
  infer_instance

instance : Tireless nextReferentialAction := by
  unfold nextReferentialAction
  infer_instance

instance : Tireless deferrable := by
  unfold deferrable
  infer_instance

instance : Tireless columnPrimaryKey := by
  unfold columnPrimaryKey
  infer_instance

instance : Tireless notNull := by
  unfold notNull
  infer_instance

instance : Tireless generatedStorage := by
  unfold generatedStorage
  infer_instance

instance : Tireless dartName := by
  unfold dartName
  infer_instance

instance : Tireless jsonKey := by
  unfold jsonKey
  infer_instance

instance : Tireless ifNotExists := by
  unfold ifNotExists
  infer_instance

instance : Tireless rowClass := by
  unfold rowClass
  infer_instance

instance : Tireless tableOption := by
  unfold tableOption
  infer_instance

instance : Tireless triggerTiming := by
  unfold triggerTiming
  infer_instance

instance : Tireless forEachRow := by
  unfold forEachRow
  infer_instance

instance : Tireless entryEnd := by
  unfold entryEnd
  infer_instance

end SqlTree.Grammar
