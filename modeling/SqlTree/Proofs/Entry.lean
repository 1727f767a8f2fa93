import Mathlib.Tactic.Lemma
import SqlTree.Parse

set_option autoImplicit false

/-!
# Ways of reading a source

A source is read as a statement, as an expression, as a script or as a drift file. What holds of all
four of them is stated for any of them.

## Main definitions

* `SqlTree.Entry` — the four ways, with `Entry.Tree`, `Entry.parse` and `Entry.parser`.
-/

namespace SqlTree

/-- A way of reading a source. -/
inductive Entry where
  | statement | expression | script | driftFile
deriving DecidableEq, Repr

namespace Entry

/-- What a source is read as. -/
def Tree : Entry → Type
  | .statement => Statement
  | .expression => Expr
  | .script => List Statement
  | .driftFile => DriftFile

/-- Reads a source. -/
def parse : (entry : Entry) → Dialect → String → Except ParseError entry.Tree
  | .statement => Statement.parse
  | .expression => Expr.parse
  | .script => Statement.parseScript
  | .driftFile => DriftFile.parse

/-- The parser of a whole source. -/
def parser : (entry : Entry) → Grammar.Rules → Parser entry.Tree
  | .statement => Grammar.wholeStatement
  | .expression => Grammar.wholeExpression
  | .script => Grammar.script
  | .driftFile => Grammar.driftFile

/-- A source is parsed by the parser of its entry from its start. -/
lemma parse_eq (entry : Entry) (dialect : Dialect) (source : String) :
    entry.parse dialect source =
      (Grammar.bounded dialect entry.parser (dialect.start source)).result := by
  cases entry <;> rfl

end Entry

namespace Outcome

variable {α : Type}

/-- An outcome with a tree is accepted. -/
lemma accepted_of_result {outcome : Outcome α} {value : α} (ok : outcome.result = .ok value) :
    ∃ stop, outcome = .accepted value stop := by
  cases outcome with
  | accepted other stop => exact ⟨stop, by rw [Except.ok.inj ok]⟩
  | rejected error stop => exact nomatch ok

end Outcome

end SqlTree
