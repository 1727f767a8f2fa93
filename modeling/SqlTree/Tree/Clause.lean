import SqlTree.Keyword
import SqlTree.Span

set_option autoImplicit false

/-!
# Choices inside clauses

The small closed choices that clauses of statements make, with the words they are written as, and
the names of column types.

## Main definitions

* `SqlTree.OrderDirection`, `SqlTree.NullOrdering` — how a sorting term sorts.
* `SqlTree.FrameUnit`, `SqlTree.Exclusion` — what the frame of a window counts and leaves out.
* `SqlTree.JoinKind`, `SqlTree.CompoundOperator` — how tables and queries are put together.
* `SqlTree.Conflict`, `SqlTree.RaiseAction` — what happens when a constraint fails.
* `SqlTree.TypeName` — the declared type of a column, with its affinity.
-/

namespace SqlTree

/-! ## Sorting -/

/-- The direction of a sorting term. -/
inductive OrderDirection where
  | asc | desc
deriving DecidableEq, Repr, Inhabited

/-- The word of a direction. -/
def OrderDirection.keyword : OrderDirection → Keyword
  | .asc => .ASC
  | .desc => .DESC

/-- Where a sorting term puts nulls. -/
inductive NullOrdering where
  | first | last
deriving DecidableEq, Repr, Inhabited

/-- The words of a null ordering. -/
def NullOrdering.keywords : NullOrdering → List Keyword
  | .first => [.NULLS, .FIRST]
  | .last => [.NULLS, .LAST]

/-! ## Windows -/

/-- What the bounds of a window frame count. -/
inductive FrameUnit where
  | rows | range | groups
deriving DecidableEq, Repr, Inhabited

/-- The word of a frame unit. -/
def FrameUnit.keyword : FrameUnit → Keyword
  | .rows => .ROWS
  | .range => .RANGE
  | .groups => .GROUPS

/-- Which rows a window frame leaves out. -/
inductive Exclusion where
  | noOthers | currentRow | group | ties
deriving DecidableEq, Repr, Inhabited

/-- The words of an exclusion. -/
def Exclusion.keywords : Exclusion → List Keyword
  | .noOthers => [.EXCLUDE, .NO, .OTHERS]
  | .currentRow => [.EXCLUDE, .CURRENT, .ROW]
  | .group => [.EXCLUDE, .GROUP]
  | .ties => [.EXCLUDE, .TIES]

/-! ## Joins and compound queries -/

/-- How two tables are joined. -/
inductive JoinKind where
  | comma | inner | left | right | full | cross
deriving DecidableEq, Repr, Inhabited

/-- The words of a join; a comma has none. -/
def JoinKind.keywords : JoinKind → List Keyword
  | .comma => []
  | .inner => [.JOIN]
  | .left => [.LEFT, .JOIN]
  | .right => [.RIGHT, .JOIN]
  | .full => [.FULL, .JOIN]
  | .cross => [.CROSS, .JOIN]

/-- How the rows of two queries are put together. -/
inductive CompoundOperator where
  | union | unionAll | intersect | except
deriving DecidableEq, Repr, Inhabited

/-- The words of a compound operator. -/
def CompoundOperator.keywords : CompoundOperator → List Keyword
  | .union => [.UNION]
  | .unionAll => [.UNION, .ALL]
  | .intersect => [.INTERSECT]
  | .except => [.EXCEPT]

/-- Which index a table is read by. -/
inductive Indexing where
  | indexedBy (name : String)
  | notIndexed
deriving DecidableEq, Repr, Inhabited

/-! ## Failing constraints -/

/-- What a statement does when a constraint fails. -/
inductive Conflict where
  | rollback | abort | fail | ignore | replace
deriving DecidableEq, Repr, Inhabited

/-- The word of a conflict resolution. -/
def Conflict.keyword : Conflict → Keyword
  | .rollback => .ROLLBACK
  | .abort => .ABORT
  | .fail => .FAIL
  | .ignore => .IGNORE
  | .replace => .REPLACE

/-- What raising an error inside a trigger does. -/
inductive RaiseAction where
  | ignore | rollback | abort | fail
deriving DecidableEq, Repr, Inhabited

/-- The word of a raise action. -/
def RaiseAction.keyword : RaiseAction → Keyword
  | .ignore => .IGNORE
  | .rollback => .ROLLBACK
  | .abort => .ABORT
  | .fail => .FAIL

/-! ## Column types -/

/-- The kind of values that a column prefers. -/
inductive Affinity where
  | integer | text | blob | real | numeric
deriving DecidableEq, Repr, Inhabited

/-- How a column stores the values of a Dart enumeration. -/
inductive EnumStorage where
  | index | name
deriving DecidableEq, Repr, Inhabited

/-- The declared type of a column: words, and the text of each argument in parentheses. -/
structure TypeName where
  /-- The words of the type, with single blanks between them. -/
  name : String
  /-- The source text of the arguments. -/
  arguments : List String
  /-- Where the type is written. -/
  span : Span
deriving DecidableEq, Repr, Inhabited

/-- The text with ASCII letters in upper case. -/
def upperChars (text : String) : List Char :=
  text.toList.map Char.toUpper

/-- Both texts are the same but for the case of ASCII letters. -/
def equalIgnoringCase (a b : String) : Bool :=
  upperChars a == upperChars b

/-- The text holds this word somewhere. -/
def mentions (word : List Char) : List Char → Bool
  | [] => word.isEmpty
  | c :: rest => word.isPrefixOf (c :: rest) || mentions word rest

namespace TypeName

/-- The Dart enumeration that the column stores, when the type is `ENUM` or `ENUMNAME` with one
argument. -/
def enumeration? (type : TypeName) : Option (EnumStorage × String) :=
  match type.arguments with
  | [dartType] =>
    if equalIgnoringCase type.name "ENUM" then some (.index, dartType)
    else if equalIgnoringCase type.name "ENUMNAME" then some (.name, dartType)
    else none
  | _ => none

/-- The affinity that the name of a type stands for. -/
def affinity (type : TypeName) : Affinity :=
  match type.enumeration? with
  | some (.index, _) => .integer
  | some (.name, _) => .text
  | none =>
    let has (word : String) : Bool := mentions word.toList (upperChars type.name)
    if has "INT" then .integer
    else if has "CHAR" || has "CLOB" || has "TEXT" then .text
    else if has "BLOB" || type.name.isEmpty then .blob
    else if has "REAL" || has "FLOA" || has "DOUB" then .real
    else .numeric

end TypeName

end SqlTree
