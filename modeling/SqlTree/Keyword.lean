import SqlTree.Text.CharClass

set_option autoImplicit false

/-!
# Keywords

The reserved words of the language, each written as its constructor. Case is ignored when source
text is compared with them, for ASCII letters only.

## Main definitions

* `SqlTree.Keyword` — the words, in alphabetical order.
* `SqlTree.Keyword.ofText?` — the word that a piece of source text spells.
* `SqlTree.Keyword.canBeIdentifier` — the words that are names wherever the grammar has no other
  use for them.
-/

namespace SqlTree

/-- A word with a meaning of its own in the grammar. -/
inductive Keyword where
  | ABORT | ACTION | AFTER | ALL | ALWAYS | AND | AS | ASC | AUTOINCREMENT | BEFORE | BEGIN
  | BETWEEN | BY | CASCADE | CASE | CAST | CHECK | COLLATE | CONFLICT | CONSTRAINT | CREATE
  | CROSS | CURRENT | CURRENT_DATE | CURRENT_TIME | CURRENT_TIMESTAMP | DEFAULT | DEFERRABLE
  | DEFERRED | DELETE | DESC | DISTINCT | DO | EACH | ELSE | END | ESCAPE | EXCEPT | EXCLUDE
  | EXISTS | FAIL | FALSE | FILTER | FIRST | FOLLOWING | FOR | FOREIGN | FROM | FULL | GENERATED
  | GLOB | GROUP | GROUPS | HAVING | IF | IGNORE | IMMEDIATE | IMPORT | IN | INDEX | INDEXED
  | INITIALLY | INNER | INSERT | INSTEAD | INTERSECT | INTO | IS | ISNULL | JOIN | JSON | KEY
  | LAST | LEFT | LIKE | LIMIT | MAPPED | MATCH | MATERIALIZED | NATURAL | NO | NOT | NOTHING
  | NOTNULL | NULL | NULLS | OF | OFFSET | ON | OR | ORDER | OTHERS | OUTER | OVER | PARTITION
  | PRECEDING | PRIMARY | RAISE | RANGE | RECURSIVE | REFERENCES | REGEXP | REPLACE | REQUIRED
  | RESTRICT | RETURNING | RIGHT | ROLLBACK | ROW | ROWS | SELECT | SET | STORED | STRICT | TABLE
  | TEMP | TEMPORARY | THEN | TIES | TRIGGER | TRUE | UNBOUNDED | UNION | UNIQUE | UPDATE | USING
  | VALUES | VIEW | VIRTUAL | WHEN | WHERE | WINDOW | WITH | WITHOUT
deriving DecidableEq, Repr, Inhabited

namespace Keyword

/-- Every keyword, in the order of declaration. -/
def all : List Keyword :=
  [.ABORT, .ACTION, .AFTER, .ALL, .ALWAYS, .AND, .AS, .ASC, .AUTOINCREMENT, .BEFORE, .BEGIN,
   .BETWEEN, .BY, .CASCADE, .CASE, .CAST, .CHECK, .COLLATE, .CONFLICT, .CONSTRAINT, .CREATE,
   .CROSS, .CURRENT, .CURRENT_DATE, .CURRENT_TIME, .CURRENT_TIMESTAMP, .DEFAULT, .DEFERRABLE,
   .DEFERRED, .DELETE, .DESC, .DISTINCT, .DO, .EACH, .ELSE, .END, .ESCAPE, .EXCEPT, .EXCLUDE,
   .EXISTS, .FAIL, .FALSE, .FILTER, .FIRST, .FOLLOWING, .FOR, .FOREIGN, .FROM, .FULL, .GENERATED,
   .GLOB, .GROUP, .GROUPS, .HAVING, .IF, .IGNORE, .IMMEDIATE, .IMPORT, .IN, .INDEX, .INDEXED,
   .INITIALLY, .INNER, .INSERT, .INSTEAD, .INTERSECT, .INTO, .IS, .ISNULL, .JOIN, .JSON, .KEY,
   .LAST, .LEFT, .LIKE, .LIMIT, .MAPPED, .MATCH, .MATERIALIZED, .NATURAL, .NO, .NOT, .NOTHING,
   .NOTNULL, .NULL, .NULLS, .OF, .OFFSET, .ON, .OR, .ORDER, .OTHERS, .OUTER, .OVER, .PARTITION,
   .PRECEDING, .PRIMARY, .RAISE, .RANGE, .RECURSIVE, .REFERENCES, .REGEXP, .REPLACE, .REQUIRED,
   .RESTRICT, .RETURNING, .RIGHT, .ROLLBACK, .ROW, .ROWS, .SELECT, .SET, .STORED, .STRICT,
   .TABLE, .TEMP, .TEMPORARY, .THEN, .TIES, .TRIGGER, .TRUE, .UNBOUNDED, .UNION, .UNIQUE,
   .UPDATE, .USING, .VALUES, .VIEW, .VIRTUAL, .WHEN, .WHERE, .WINDOW, .WITH, .WITHOUT]

/-- The upper-case text of a keyword. -/
def text : Keyword → String
  | .ABORT => "ABORT"
  | .ACTION => "ACTION"
  | .AFTER => "AFTER"
  | .ALL => "ALL"
  | .ALWAYS => "ALWAYS"
  | .AND => "AND"
  | .AS => "AS"
  | .ASC => "ASC"
  | .AUTOINCREMENT => "AUTOINCREMENT"
  | .BEFORE => "BEFORE"
  | .BEGIN => "BEGIN"
  | .BETWEEN => "BETWEEN"
  | .BY => "BY"
  | .CASCADE => "CASCADE"
  | .CASE => "CASE"
  | .CAST => "CAST"
  | .CHECK => "CHECK"
  | .COLLATE => "COLLATE"
  | .CONFLICT => "CONFLICT"
  | .CONSTRAINT => "CONSTRAINT"
  | .CREATE => "CREATE"
  | .CROSS => "CROSS"
  | .CURRENT => "CURRENT"
  | .CURRENT_DATE => "CURRENT_DATE"
  | .CURRENT_TIME => "CURRENT_TIME"
  | .CURRENT_TIMESTAMP => "CURRENT_TIMESTAMP"
  | .DEFAULT => "DEFAULT"
  | .DEFERRABLE => "DEFERRABLE"
  | .DEFERRED => "DEFERRED"
  | .DELETE => "DELETE"
  | .DESC => "DESC"
  | .DISTINCT => "DISTINCT"
  | .DO => "DO"
  | .EACH => "EACH"
  | .ELSE => "ELSE"
  | .END => "END"
  | .ESCAPE => "ESCAPE"
  | .EXCEPT => "EXCEPT"
  | .EXCLUDE => "EXCLUDE"
  | .EXISTS => "EXISTS"
  | .FAIL => "FAIL"
  | .FALSE => "FALSE"
  | .FILTER => "FILTER"
  | .FIRST => "FIRST"
  | .FOLLOWING => "FOLLOWING"
  | .FOR => "FOR"
  | .FOREIGN => "FOREIGN"
  | .FROM => "FROM"
  | .FULL => "FULL"
  | .GENERATED => "GENERATED"
  | .GLOB => "GLOB"
  | .GROUP => "GROUP"
  | .GROUPS => "GROUPS"
  | .HAVING => "HAVING"
  | .IF => "IF"
  | .IGNORE => "IGNORE"
  | .IMMEDIATE => "IMMEDIATE"
  | .IMPORT => "IMPORT"
  | .IN => "IN"
  | .INDEX => "INDEX"
  | .INDEXED => "INDEXED"
  | .INITIALLY => "INITIALLY"
  | .INNER => "INNER"
  | .INSERT => "INSERT"
  | .INSTEAD => "INSTEAD"
  | .INTERSECT => "INTERSECT"
  | .INTO => "INTO"
  | .IS => "IS"
  | .ISNULL => "ISNULL"
  | .JOIN => "JOIN"
  | .JSON => "JSON"
  | .KEY => "KEY"
  | .LAST => "LAST"
  | .LEFT => "LEFT"
  | .LIKE => "LIKE"
  | .LIMIT => "LIMIT"
  | .MAPPED => "MAPPED"
  | .MATCH => "MATCH"
  | .MATERIALIZED => "MATERIALIZED"
  | .NATURAL => "NATURAL"
  | .NO => "NO"
  | .NOT => "NOT"
  | .NOTHING => "NOTHING"
  | .NOTNULL => "NOTNULL"
  | .NULL => "NULL"
  | .NULLS => "NULLS"
  | .OF => "OF"
  | .OFFSET => "OFFSET"
  | .ON => "ON"
  | .OR => "OR"
  | .ORDER => "ORDER"
  | .OTHERS => "OTHERS"
  | .OUTER => "OUTER"
  | .OVER => "OVER"
  | .PARTITION => "PARTITION"
  | .PRECEDING => "PRECEDING"
  | .PRIMARY => "PRIMARY"
  | .RAISE => "RAISE"
  | .RANGE => "RANGE"
  | .RECURSIVE => "RECURSIVE"
  | .REFERENCES => "REFERENCES"
  | .REGEXP => "REGEXP"
  | .REPLACE => "REPLACE"
  | .REQUIRED => "REQUIRED"
  | .RESTRICT => "RESTRICT"
  | .RETURNING => "RETURNING"
  | .RIGHT => "RIGHT"
  | .ROLLBACK => "ROLLBACK"
  | .ROW => "ROW"
  | .ROWS => "ROWS"
  | .SELECT => "SELECT"
  | .SET => "SET"
  | .STORED => "STORED"
  | .STRICT => "STRICT"
  | .TABLE => "TABLE"
  | .TEMP => "TEMP"
  | .TEMPORARY => "TEMPORARY"
  | .THEN => "THEN"
  | .TIES => "TIES"
  | .TRIGGER => "TRIGGER"
  | .TRUE => "TRUE"
  | .UNBOUNDED => "UNBOUNDED"
  | .UNION => "UNION"
  | .UNIQUE => "UNIQUE"
  | .UPDATE => "UPDATE"
  | .USING => "USING"
  | .VALUES => "VALUES"
  | .VIEW => "VIEW"
  | .VIRTUAL => "VIRTUAL"
  | .WHEN => "WHEN"
  | .WHERE => "WHERE"
  | .WINDOW => "WINDOW"
  | .WITH => "WITH"
  | .WITHOUT => "WITHOUT"

/-- The keyword that `name` spells, where ASCII letters stand for either case. -/
def ofText? (name : String) : Option Keyword :=
  let upper := String.ofList (name.toList.map Char.toUpper)
  all.find? fun word => word.text == upper

/-- The keyword also serves as a name, because it has a meaning in few places of the grammar. -/
def canBeIdentifier : Keyword → Bool
  | .ABORT | .ACTION | .AFTER | .ALWAYS | .ASC | .BEFORE | .BEGIN | .BY | .CASCADE | .CONFLICT
  | .CURRENT | .DEFERRED | .DESC | .DO | .EACH | .END | .EXCLUDE | .FAIL | .FILTER | .FIRST
  | .FOLLOWING | .FOR | .GENERATED | .GROUPS | .IGNORE | .IMMEDIATE | .IMPORT | .INITIALLY
  | .INSTEAD | .JSON | .KEY | .LAST | .MAPPED | .MATERIALIZED | .NO | .NOTHING | .NULLS | .OF
  | .OFFSET | .OTHERS | .OVER | .PARTITION | .PRECEDING | .RAISE | .RANGE | .RECURSIVE
  | .REPLACE | .REQUIRED | .RESTRICT | .RETURNING | .ROLLBACK | .ROW | .ROWS | .STORED
  | .STRICT | .TEMP | .TIES | .TRIGGER | .UNBOUNDED | .VIEW | .VIRTUAL | .WINDOW | .WITHOUT => true
  | _ => false

/-- The keyword may stand before a parenthesis as the name of a function: every keyword that can
be a name, and the four pattern operators. -/
def canNameFunction (word : Keyword) : Bool :=
  match word with
  | .LIKE | .GLOB | .MATCH | .REGEXP => true
  | _ => word.canBeIdentifier

end Keyword

end SqlTree
