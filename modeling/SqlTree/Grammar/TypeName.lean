import SqlTree.Parser
import SqlTree.Tree.Clause

set_option autoImplicit false

/-!
# Types and raw arguments

The name of a column type is a run of words. Its arguments, like those of virtual tables, are kept
as source text: each stretch between commas that stand in no inner parentheses.

## Main definitions

* `SqlTree.Grammar.rawArguments` — the source text of the arguments between parentheses.
* `SqlTree.Grammar.typeName` — the type of a column or of a conversion.
-/

namespace SqlTree.Grammar

open SqlTree.Parser

/-! ## Raw arguments -/

/-- How far the raw arguments have been read. -/
structure RawArguments where
  /-- The arguments read, the last one first. -/
  found : List String
  /-- The number of parentheses that are open inside the argument. -/
  depth : Nat
  /-- The byte offset at which the argument starts. -/
  start : Nat
  /-- The closing parenthesis has been taken. -/
  closed : Bool

/-- The arguments after the one that ends before the next token, if that one has any text. -/
def RawArguments.finish (state : RawArguments) (text : String) : List String :=
  if text.isEmpty then state.found else text :: state.found

/-- Takes one token of the arguments. At the end of input, and at a malformed token, the closing
parenthesis is missing. -/
def rawArgumentStep (state : RawArguments) : Parser (Option RawArguments) := do
  if state.closed then
    return none
  else
    match (← current).kind with
    | .endOfInput | .malformed _ => unexpected "')'"
    | .symbol .leftParen =>
      let _ ← advance
      return some { state with depth := state.depth + 1 }
    | .symbol .rightParen =>
      if state.depth = 0 then
        let text ← textFrom state.start
        let _ ← advance
        return some { state with found := state.finish text, closed := true }
      else
        let _ ← advance
        return some { state with depth := state.depth - 1 }
    | .symbol .comma =>
      if state.depth = 0 then
        let text ← textFrom state.start
        let _ ← advance
        return some { state with found := state.finish text, start := (← here).start }
      else
        let _ ← advance
        return some state
    | _ =>
      let _ ← advance
      return some state

/-- The source text of each argument between parentheses; empty arguments are left out. -/
def rawArguments (fuel : Nat) : Parser (List String) := do
  let _ ← expectSymbol .leftParen
  let state ← iterate rawArgumentStep fuel ⟨[], 0, (← here).start, false⟩
  return state.found.reverse

/-! ## Types -/

/-- The next token is a word of a type. A keyword that starts a constraint together with the word
after it is none. -/
def atTypeWord (view : View) : Bool :=
  match view.current.kind with
  | .keyword .GENERATED => !view.second.isKeyword .ALWAYS
  | .keyword .MAPPED => !view.second.isKeyword .BY
  | .keyword .JSON => !view.second.isKeyword .KEY
  | _ => view.atIdentifier

/-- A type: one or more words, as they are written in the source, and perhaps arguments. -/
def typeName (fuel : Nat) : Parser TypeName := do
  let start ← here
  let words ← many fuel (whenever atTypeWord do return (← advance).lexeme)
  if words.isEmpty then
    unexpected "type name"
  else
    let arguments ← whenever (·.atSymbol .leftParen) (rawArguments fuel)
    return ⟨" ".intercalate words, arguments.getD [], ← spanFrom start⟩

end SqlTree.Grammar
