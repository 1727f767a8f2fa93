import SqlTree.Proofs.Bounds.Statement
import SqlTree.Proofs.Lossless

set_option autoImplicit false

/-!
# Runs over the entries of a source

An entry of a source is read after all semicolons before it, and a source is read up to the end of
input.

## Main definitions

* `SqlTree.Entry.parseTokens` — reading tokens that are given with their source.

## Main results

* `SqlTree.Grammar.run_nextEntry_skip`, `SqlTree.Grammar.run_nextEntry_here` — an entry after a
  semicolon, and an entry where none is.
* `SqlTree.Entry.accepted_end` — whole sources are read up to the end of input.
-/

namespace SqlTree

namespace Grammar

open SqlTree.Parser

variable {α : Type} {dialect : Dialect} {cursor stop : Cursor} {rules : Rules} {entry : Parser α}

/-! ## Entries -/

/-- A semicolon before an entry changes nothing. -/
lemma run_nextEntry_skip (ends : cursor.Ends) (at_ : cursor.view.atSymbol .semicolon = true)
    (enough : cursor.ahead.length < rules.limit) :
    (nextEntry rules entry).run dialect cursor =
      (nextEntry rules entry).run dialect cursor.advance := by
  have some : 0 < cursor.ahead.length := ahead_of_ends ends fun kind =>
    Cursor.not_atSymbol_end kind _ at_
  obtain ⟨fuel, eq⟩ : ∃ fuel, rules.limit = fuel + 1 := ⟨rules.limit - 1, by omega⟩
  have one : (whenever (·.atSymbol .semicolon) advance).run dialect cursor =
      .accepted (Option.some cursor.current) cursor.advance := by
    unfold whenever
    rw [run_sees_bind, if_pos at_, run_advance_bind (sound_of_atSymbol at_)]
    rfl
  have fewer : cursor.advance.ahead.length < fuel := by
    rw [Cursor.advance_ahead, List.length_tail]
    omega
  have same : (many fuel (whenever (·.atSymbol .semicolon) advance)).run dialect cursor.advance =
      (many (fuel + 1) (whenever (·.atSymbol .semicolon) advance)).run dialect cursor.advance :=
    Alike.many (.refl _) semicolon_progress (Nat.le_refl _) (Nat.le_succ _) ends.advance fewer
  unfold nextEntry
  rw [run_bind, run_bind, eq, run_many_of_some fuel one, same]
  cases (many (fuel + 1) (whenever (·.atSymbol .semicolon) advance)).run dialect cursor.advance <;>
    rfl

/-- An entry is read where no semicolon is. -/
lemma run_nextEntry_here (not : cursor.view.atSymbol .semicolon = false)
    (some : 0 < rules.limit) :
    (nextEntry rules entry).run dialect cursor =
      if cursor.current.isEnd = true then .accepted none cursor
      else (do
        let value ← entry
        entryEnd
        return Option.some value).run dialect cursor := by
  obtain ⟨fuel, eq⟩ : ∃ fuel, rules.limit = fuel + 1 := ⟨rules.limit - 1, by omega⟩
  have none : (whenever (·.atSymbol .semicolon) advance).run dialect cursor =
      .accepted Option.none cursor := by
    unfold whenever
    rw [run_sees_bind, not]
    rfl
  unfold nextEntry
  rw [run_bind, eq, run_many_of_none fuel none]
  dsimp only
  rw [run_sees_bind]
  change (if cursor.current.isEnd = true then _ else _ : Parser (Option α)).run dialect cursor = _
  split <;> rfl

/-- After an entry the input ends, or a semicolon is taken. -/
lemma run_entryEnd :
    entryEnd.run dialect cursor =
      if cursor.current.isEnd = true then .accepted () cursor
      else (do let _ ← expectSymbol .semicolon).run dialect cursor := by
  unfold entryEnd
  rw [run_sees_bind]
  change (if cursor.current.isEnd = true then _ else _ : Parser Unit).run dialect cursor = _
  split <;> rfl

/-- No further entry is there only at the end of input. -/
lemma accepted_nextEntry_none
    (run : (nextEntry rules entry).run dialect cursor = .accepted none stop) :
    stop.current.isEnd = true := by
  obtain ⟨parts, middle, -, -, run⟩ := accepted_bind run
  rw [run_sees_bind] at run
  split at run
  · next atEnd =>
    obtain ⟨-, rfl⟩ := accepted_pure run
    exact atEnd
  · obtain ⟨value, place, -, -, run⟩ := accepted_bind run
    obtain ⟨-, place, -, -, run⟩ := accepted_bind run
    exact absurd (accepted_pure run).1 (by simp)

/-- The entries of a source end at its end. -/
lemma accepted_many_entries {fuel : Nat} {list : List α}
    (run : (many fuel (nextEntry rules entry)).run dialect cursor = .accepted list stop) :
    stop.current.isEnd = true := by
  induction fuel generalizing cursor list with
  | zero =>
    obtain ⟨less, eq, -⟩ := accepted_many run
    omega
  | succ fuel ih =>
    obtain ⟨less, eq, ⟨-, last⟩ | ⟨part, others, middle, -, -, later⟩⟩ := accepted_many run
    · exact accepted_nextEntry_none last
    · obtain rfl : fuel = less := by omega
      exact ih later

/-- At the end of the source, its end is not in the way. -/
lemma run_expectEnd {expected : String} {next : Unit → Parser α}
    (atEnd : cursor.current.isEnd = true) :
    (expectEnd expected >>= next).run dialect cursor = (next ()).run dialect cursor := by
  have atEnd : cursor.view.current.isEnd = true := atEnd
  rw [run_bind]
  unfold expectEnd
  rw [run_sees_bind, if_pos atEnd]
  rfl

/-- Where the end was expected, it was next. -/
lemma accepted_expectEnd {expected : String} {next : Unit → Parser α} {value : α}
    (run : (expectEnd expected >>= next).run dialect cursor = .accepted value stop) :
    cursor.current.isEnd = true ∧ (next ()).run dialect cursor = .accepted value stop := by
  rw [run_bind] at run
  unfold expectEnd at run
  rw [run_sees_bind] at run
  by_cases atEnd : cursor.view.current.isEnd = true
  · rw [if_pos atEnd] at run
    exact ⟨atEnd, run⟩
  · rw [if_neg atEnd] at run
    simp [unexpected, Parser.run] at run

end Grammar

/-! ## Tokens that are given -/

namespace Cursor

/-- A cursor over tokens ends. -/
lemma ends_ofTokens (source : String) (tokens : List Token) : (ofTokens source tokens).Ends :=
  Token.isEnd_iff.mp (ofTokens_ends source tokens).1

/-- No token ahead of a cursor over tokens is the end of the input. -/
lemma inner_ofTokens (source : String) (tokens : List Token) :
    ∀ token ∈ (ofTokens source tokens).ahead, token.kind ≠ .endOfInput := fun token mem kind =>
  Bool.false_ne_true (((ofTokens_ends source tokens).2 token mem).symm.trans
    (Token.isEnd_iff.mpr kind))

/-- At the start, the token behind is the first one. -/
lemma previous_ofTokens (source : String) (tokens : List Token) :
    (ofTokens source tokens).previous = (ofTokens source tokens).current := by
  unfold ofTokens current peek
  cases tokens.takeWhile (!·.isEnd) <;> rfl

/-- The place before tokens that are given with the end of input. -/
lemma ofTokens_concat (source : String) {others : List Token} {last : Token}
    (inner : ∀ token ∈ others, token.kind ≠ .endOfInput) (isEnd : last.kind = .endOfInput) :
    ofTokens source (others ++ [last]) = ⟨source, others.headD last, others, last⟩ := by
  have others_inner : ∀ token ∈ others, (!token.isEnd) = true := fun token mem => by
    have := mt Token.isEnd_iff.mp (inner token mem)
    simpa using this
  have lastEnds : last.isEnd = true := Token.isEnd_iff.mpr isEnd
  have ahead : (others ++ [last]).takeWhile (!·.isEnd) = others := by
    rw [List.takeWhile_append_of_pos others_inner]
    simp [lastEnds]
  have found : (others ++ [last]).find? (·.isEnd) = some last := by
    rw [List.find?_append, List.find?_eq_none.mpr fun token mem => by
      simpa using others_inner token mem]
    simp [lastEnds]
  unfold ofTokens
  simp only [ahead, found, Option.getD_some]

end Cursor

/-- Reads tokens that are given with their source. -/
def Entry.parseTokens (entry : Entry) (dialect : Dialect) (source : String) (tokens : List Token) :
    Outcome entry.Tree :=
  Grammar.bounded dialect entry.parser (Cursor.ofTokens source tokens)

/-- A source is read by reading its tokens. -/
lemma Entry.parse_eq_parseTokens (entry : Entry) (dialect : Dialect) (source : String) :
    entry.parse dialect source =
      (entry.parseTokens dialect source (tokenize dialect.isDrift source)).result :=
  entry.parse_eq dialect source

/-! ## Whole sources -/

/-- **Whole sources are read up to the end of input.** -/
lemma Entry.accepted_end (entry : Entry) {dialect : Dialect} {rules : Grammar.Rules}
    {cursor stop : Cursor} {tree : entry.Tree}
    (run : (entry.parser rules).run dialect cursor = .accepted tree stop) :
    stop.current.isEnd = true := by
  cases entry with
  | statement =>
    obtain ⟨value, middle, -, -, run⟩ := Parser.accepted_bind run
    obtain ⟨-, middle, -, -, run⟩ := Parser.accepted_bind run
    obtain ⟨atEnd, run⟩ := Grammar.accepted_expectEnd run
    obtain ⟨-, rfl⟩ := Parser.accepted_pure run
    exact atEnd
  | expression =>
    obtain ⟨value, middle, -, -, run⟩ := Parser.accepted_bind run
    obtain ⟨atEnd, run⟩ := Grammar.accepted_expectEnd run
    obtain ⟨-, rfl⟩ := Parser.accepted_pure run
    exact atEnd
  | script => exact Grammar.accepted_many_entries run
  | driftFile =>
    change (Grammar.driftFile rules).run dialect cursor = _ at run
    unfold Grammar.driftFile at run
    rw [Parser.run_here_bind] at run
    obtain ⟨-, run⟩ := Parser.accepted_require run
    obtain ⟨list, middle, entries, -, last⟩ := Parser.accepted_bind run
    obtain ⟨-, rfl⟩ := Parser.accepted_pure last
    exact Grammar.accepted_many_entries entries

end SqlTree
