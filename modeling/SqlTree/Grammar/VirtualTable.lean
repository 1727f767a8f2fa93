import SqlTree.Text.Quoted
import SqlTree.Text.Words
import SqlTree.Tree.Schema

set_option autoImplicit false

/-!
# The arguments of virtual tables

The arguments of a virtual table are kept as source text. For the modules of full-text indexes and
of spatial indexes, this text is read further.

## Main definitions

* `SqlTree.Grammar.recognize` — what arguments mean to a module.
-/

namespace SqlTree.Grammar

/-- A text without the quotes around it. -/
def unquotedText (chars : List Char) : String :=
  String.ofList (Text.unquoted chars)

/-- The column that an argument of a full-text index declares: a name, then words, of which
`UNINDEXED` has a meaning. -/
def fts5Column (argument : List Char) : Fts5Column :=
  match Text.words argument with
  | [] => ⟨"", false⟩
  | name :: options =>
    ⟨unquotedText name,
      options.any fun option => equalIgnoringCase (String.ofList option) "unindexed"⟩

/-- The option that an argument of a full-text index sets: a key, an equals sign and a value. -/
def fts5Option? (argument : List Char) : Option (String × String) :=
  (Text.cutAt? '=' argument).map fun (key, value) =>
    (String.ofList (Text.trim key), unquotedText (Text.trim value))

/-- The meaning of the arguments of a full-text index. -/
def fts5 (arguments : List (List Char)) : VirtualModule :=
  .fts5 ((arguments.filter fun argument => (fts5Option? argument).isNone).map fts5Column)
    (arguments.filterMap fts5Option?)

/-- The argument of a spatial index is a column that is stored, but not searched. -/
def isAuxiliary (argument : List Char) : Bool :=
  argument.head? == some '+'

/-- The meaning of the arguments of a spatial index after the first. -/
def rtree (integer : Bool) (id : List Char) (columns : List (List Char)) : VirtualModule :=
  .rtree integer (unquotedText id)
    ((columns.filter (!isAuxiliary ·)).map unquotedText)
    ((columns.filter isAuxiliary).map fun column =>
      unquotedText (Text.trim (column.dropWhile (· == '+'))))

/-- What arguments mean to the module of this name. -/
def recognize (module : String) (arguments : List String) : VirtualModule :=
  let texts := arguments.map String.toList
  let integer := equalIgnoringCase module "rtree_i32"
  if equalIgnoringCase module "fts5" then
    fts5 texts
  else if integer || equalIgnoringCase module "rtree" then
    match texts with
    | id :: columns => rtree integer id columns
    | [] => .unknown
  else
    .unknown

end SqlTree.Grammar
