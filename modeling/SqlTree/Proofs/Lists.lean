import SqlTree.Parse
import SqlTree.Proofs.Run

set_option autoImplicit false

/-!
# Lists are read part by part

A list is read by a loop that knows nothing of the parts before the one that it reads. So whether a
list is accepted is decided for each of its parts alone, where it stands, and nothing is asked of
the parts together: the rows of `VALUES` may have different widths, and of several clauses for
conflicts any may come without a target.

## Main definitions

* `SqlTree.Parser.Repeated` — parts that are read one after the other.
* `SqlTree.Parser.Listed` — parts that are read one after the other, with commas between them.

## Main results

* `SqlTree.Parser.accepted_many_iff`, `SqlTree.Parser.accepted_commaSeparated_iff` — what a loop
  accepts are parts that are read one after the other.
* `SqlTree.Grammar.accepted_valuesClause_iff` — rows are read one after the other.
-/

namespace SqlTree

open SqlTree.Parser

namespace Parser

variable {α : Type} {dialect : Dialect} {cursor stop : Cursor} {values : List α} {fuel : Nat}

/-! ## Lists without commas -/

/-- The step yields these values one after the other, and then nothing. -/
inductive Repeated (dialect : Dialect) (step : Parser (Option α)) : Cursor → List α → Cursor → Prop
  | nil {cursor stop : Cursor} (run : step.run dialect cursor = .accepted none stop) :
    Repeated dialect step cursor [] stop
  | cons {cursor middle stop : Cursor} {value : α} {values : List α}
    (run : step.run dialect cursor = .accepted (some value) middle)
    (later : Repeated dialect step middle values stop) :
    Repeated dialect step cursor (value :: values) stop

/-- **A loop accepts what its step yields**, one part after the other. -/
lemma accepted_many_iff {step : Parser (Option α)} :
    (many fuel step).run dialect cursor = .accepted values stop ↔
      Repeated dialect step cursor values stop ∧ values.length < fuel := by
  constructor
  · intro run
    induction values generalizing fuel cursor with
    | nil =>
      obtain ⟨less, rfl, ⟨-, last⟩ | ⟨_, _, _, eq, -⟩⟩ := accepted_many run
      · exact ⟨.nil last, Nat.succ_pos less⟩
      · cases eq
    | cons value values ih =>
      obtain ⟨less, rfl, ⟨eq, -⟩ | ⟨_, _, middle, eq, first, later⟩⟩ := accepted_many run
      · cases eq
      · cases eq
        obtain ⟨others, few⟩ := ih later
        exact ⟨.cons first others, Nat.succ_lt_succ few⟩
  · rintro ⟨repeated, few⟩
    obtain ⟨fuel, rfl⟩ : ∃ less, fuel = less + 1 := ⟨fuel - 1, by omega⟩
    induction repeated generalizing fuel with
    | nil run => exact run_many_of_none fuel run
    | cons run later ih =>
      rw [List.length_cons] at few
      obtain ⟨fuel, rfl⟩ : ∃ less, fuel = less + 1 := ⟨fuel - 1, by omega⟩
      rw [run_many_of_some (fuel + 1) run, ih fuel (by omega)]
      rfl

/-- Clauses for conflicts are such a list, and none of these two has a target. -/
example : (Statement.parse .generic
      "INSERT INTO t VALUES (1) ON CONFLICT DO NOTHING ON CONFLICT DO NOTHING").toOption.map
    (fun
      | .data (.insert insert) => insert.upserts.map fun upsert => upsert.target.isSome
      | _ => []) = some [false, false] := rfl

/-! ## Lists with commas -/

/-- The values are read one after the other, with commas between them and none after the last. -/
inductive Listed (dialect : Dialect) (part : Parser α) : Cursor → List α → Cursor → Prop
  | one {cursor stop : Cursor} {value : α} (run : part.run dialect cursor = .accepted value stop)
    (ends : ¬ stop.view.atSymbol .comma = true) : Listed dialect part cursor [value] stop
  | cons {cursor middle stop : Cursor} {value : α} {values : List α}
    (run : part.run dialect cursor = .accepted value middle)
    (comma : middle.view.atSymbol .comma = true)
    (later : Listed dialect part middle.advance values stop) :
    Listed dialect part cursor (value :: values) stop

/-- A further part after a comma, if there is one. -/
def afterComma (part : Parser α) : Parser (Option α) := do
  if ← eatSymbol .comma then return some (← part) else return none

variable {part : Parser α}

/-- A list ends exactly where no comma is next. -/
lemma run_afterComma_none :
    (afterComma part).run dialect cursor = .accepted none stop ↔
      ¬ cursor.view.atSymbol .comma = true ∧ cursor = stop := by
  unfold afterComma
  rw [run_eatSymbol_bind]
  by_cases comma : cursor.view.atSymbol .comma = true
  · rw [if_pos comma, if_pos rfl]
    refine ⟨fun run => ?_, fun ends => absurd comma ends.1⟩
    obtain ⟨_, _, -, -, run⟩ := accepted_bind run
    cases accepted_pure run
    contradiction
  · rw [if_neg comma, if_neg Bool.false_ne_true]
    refine ⟨fun run => ⟨comma, (accepted_pure run).2⟩, ?_⟩
    rintro ⟨-, rfl⟩
    rfl

/-- A list goes on exactly after a comma. -/
lemma run_afterComma_some {value : α} :
    (afterComma part).run dialect cursor = .accepted (some value) stop ↔
      cursor.view.atSymbol .comma = true ∧
        part.run dialect cursor.advance = .accepted value stop := by
  unfold afterComma
  rw [run_eatSymbol_bind]
  by_cases comma : cursor.view.atSymbol .comma = true
  · rw [if_pos comma, if_pos rfl]
    refine ⟨fun run => ?_, fun ⟨_, run⟩ => by rw [run_bind, run]; rfl⟩
    obtain ⟨_, _, first, -, run⟩ := accepted_bind run
    obtain ⟨⟨⟩, rfl⟩ := accepted_pure run
    exact ⟨comma, first⟩
  · rw [if_neg comma, if_neg Bool.false_ne_true]
    refine ⟨fun run => ?_, fun goes => absurd goes.1 comma⟩
    cases (accepted_pure run).1

/-- A list is its first part, and the parts after commas. -/
lemma listed_cons_iff {value : α} :
    Listed dialect part cursor (value :: values) stop ↔
      ∃ middle, part.run dialect cursor = .accepted value middle ∧
        Repeated dialect (afterComma part) middle values stop := by
  constructor
  · intro listed
    generalize eq : value :: values = whole at listed
    induction listed generalizing value values with
    | @one cursor stop first run ends =>
      cases eq
      exact ⟨stop, run, .nil (run_afterComma_none.mpr ⟨ends, rfl⟩)⟩
    | @cons cursor middle stop first others run comma later ih =>
      cases eq
      refine ⟨middle, run, ?_⟩
      cases others with
      | nil => cases later
      | cons second others =>
        obtain ⟨place, next, repeated⟩ := ih rfl
        exact .cons (run_afterComma_some.mpr ⟨comma, next⟩) repeated
  · rintro ⟨middle, run, repeated⟩
    induction repeated generalizing cursor value with
    | nil last =>
      obtain ⟨ends, rfl⟩ := run_afterComma_none.mp last
      exact .one run ends
    | cons next later ih =>
      obtain ⟨comma, next⟩ := run_afterComma_some.mp next
      exact .cons run comma (ih next)

/-- **A list is accepted if its parts are**, one after the other. -/
lemma accepted_commaSeparated_iff :
    (commaSeparated fuel part).run dialect cursor = .accepted values stop ↔
      Listed dialect part cursor values stop ∧ values.length ≤ fuel := by
  change (part >>= fun first => many fuel (afterComma part) >>= fun rest =>
    pure (first :: rest)).run dialect cursor = _ ↔ _
  constructor
  · intro run
    obtain ⟨first, middle, head, -, run⟩ := accepted_bind run
    obtain ⟨rest, place, loop, -, run⟩ := accepted_bind run
    obtain ⟨rfl, rfl⟩ := accepted_pure run
    obtain ⟨repeated, few⟩ := accepted_many_iff.mp loop
    exact ⟨listed_cons_iff.mpr ⟨middle, head, repeated⟩, few⟩
  · rintro ⟨listed, few⟩
    obtain ⟨value, values, rfl⟩ : ∃ value others, values = value :: others := by
      cases listed <;> exact ⟨_, _, rfl⟩
    obtain ⟨middle, head, repeated⟩ := listed_cons_iff.mp listed
    rw [run_bind, head]
    dsimp only
    rw [run_bind, accepted_many_iff.mpr ⟨repeated, few⟩]
    rfl

end Parser

namespace Grammar

variable {dialect : Dialect} {cursor stop : Cursor} {rules : Rules}

/-- **Rows are read one after the other**: a row is one or more expressions between parentheses, and
it does not matter how many expressions the other rows have. -/
lemma accepted_valuesClause_iff {clause : ValuesClause} :
    (valuesClause rules).run dialect cursor = .accepted clause stop ↔
      cursor.view.atKeyword .VALUES = true ∧
        Listed dialect (parenthesized rules.exprs) cursor.advance clause.rows stop ∧
        clause.rows.length ≤ rules.limit ∧ clause.span = stop.spanFrom cursor.current.span := by
  unfold valuesClause
  constructor
  · intro run
    obtain ⟨at_, -, run⟩ := accepted_expectKeyword run
    obtain ⟨rows, middle, list, -, run⟩ := accepted_bind run
    obtain ⟨rfl, rfl⟩ := accepted_return run
    obtain ⟨listed, few⟩ := accepted_commaSeparated_iff.mp list
    exact ⟨at_, listed, few, rfl⟩
  · rintro ⟨at_, listed, few, eq⟩
    obtain ⟨rows, span⟩ := clause
    obtain rfl : span = _ := eq
    rw [run_expectKeyword_bind at_, run_bind, accepted_commaSeparated_iff.mpr ⟨listed, few⟩]
    rfl

/-- A row of one expression and a row of two. -/
example : (Statement.parse .generic "VALUES (1), (1, 2)").toOption.map
    (fun
      | .data (.select ⟨_, .values clause, _, _, _, _⟩) => clause.rows.map List.length
      | _ => []) = some [1, 2] := rfl

end Grammar

end SqlTree
