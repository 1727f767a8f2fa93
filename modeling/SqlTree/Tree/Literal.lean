import SqlTree.Token

set_option autoImplicit false

/-!
# Literals and operators

The leaves and the operators of expressions, with the words and symbols they are written as.

## Main definitions

* `SqlTree.Literal` — constant values.
* `SqlTree.UnaryOp`, `SqlTree.BinaryOp`, `SqlTree.PatternOp` — operators.
-/

namespace SqlTree

/-- A constant value. -/
inductive Literal where
  | integer (value : Int64)
  | float (value : Float)
  | string (value : String)
  | blob (bytes : List UInt8)
  | boolean (value : Bool)
  | null
  | currentTime
  | currentDate
  | currentTimestamp
deriving DecidableEq, Repr, Inhabited

/-- An operator before its operand. -/
inductive UnaryOp where
  | neg | plus | not | bitNot
deriving DecidableEq, Repr, Inhabited

/-- An operator between two operands. -/
inductive BinaryOp where
  | add | sub | mul | div | mod
  | eq | notEq | lt | ltEq | gt | gtEq | is | isNot
  | and | or
  | concat | jsonExtract | jsonExtractText
  | bitAnd | bitOr | leftShift | rightShift
deriving DecidableEq, Repr, Inhabited

/-- An operator that compares text with a pattern. -/
inductive PatternOp where
  | like | glob | matching | regexp
deriving DecidableEq, Repr, Inhabited

/-- The word of a pattern operator. -/
def PatternOp.keyword : PatternOp → Keyword
  | .like => .LIKE
  | .glob => .GLOB
  | .matching => .MATCH
  | .regexp => .REGEXP

end SqlTree
