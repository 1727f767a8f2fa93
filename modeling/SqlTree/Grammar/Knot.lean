import SqlTree.Grammar.Query

set_option autoImplicit false

/-!
# Closing the circle of the grammar

An expression, query or table reference inside another one starts at least one token later, so no
nesting is deeper than the number of tokens ahead, and no loop repeats more often. One more than
that number bounds both.

## Main definitions

* `SqlTree.Grammar.rules` — the parsers of expressions, queries and table references, up to a depth
  of nesting.
* `SqlTree.Grammar.bounded` — a parser with as much depth as the tokens ahead can need.
-/

namespace SqlTree.Grammar

/-- The parsers of expressions, queries and table references whose parts are nested at most `depth`
deep. -/
def rules (limit : Nat) : Nat → Rules
  | 0 => Rules.exhausted limit
  | depth + 1 =>
    let parts := rules limit depth
    ⟨limit, expression parts, query parts, joinedTables parts⟩

/-- The rules that suffice for this many tokens. -/
def rulesFor (tokens : Nat) : Rules :=
  rules (tokens + 1) (tokens + 1)

/-- Runs a parser with the rules that suffice for the tokens ahead. -/
def bounded {α : Type} (dialect : Dialect) (parser : Rules → Parser α) (cursor : Cursor) :
    Outcome α :=
  (parser (rulesFor cursor.ahead.length)).run dialect cursor

end SqlTree.Grammar
