import Mathlib.Data.List.TakeWhile
import SqlTree.Proofs.Careful.Source
import SqlTree.Proofs.Scripts.Fresh
import SqlTree.Proofs.Sources

set_option autoImplicit false

/-!
# Scripts

A statement is read in the same way whether the input ends after it or a semicolon follows, and it
takes the semicolons inside it with it. So a script of one statement is that statement, a script
with another one after it has the statements of both, and a script is a drift file whose entries are
plain statements.

## Main results

* `SqlTree.Grammar.accepted_statement_starts` — the words that statements start with.
* `SqlTree.Statement.result_parseScriptAt_before` — a script that another one follows.
* `SqlTree.Statement.parseScript_compose` — how statements, scripts and drift files fit together.
-/

namespace SqlTree

/-! ## What statements start with -/

/-- A token that is a keyword is of its kind. -/
lemma Token.kind_of_isKeyword {token : Token} {word : Keyword}
    (is : token.isKeyword word = true) : token.kind = .keyword word := by
  unfold Token.isKeyword Token.keyword? at is
  split at is
  · next found kind => rw [kind, Option.some.inj (eq_of_beq is)]
  · exact absurd (eq_of_beq is) (by simp)

namespace Grammar

open SqlTree.Parser

variable {dialect : Dialect} {cursor stop : Cursor} {rules : Rules}

/-- The next tokens start a statement. -/
def atStatement (view : View) : Bool :=
  view.atAnyKeyword [.CREATE, .WITH, .SELECT, .VALUES, .INSERT, .UPDATE, .DELETE] ||
    view.atKeywords .REPLACE .INTO

/-- A statement starts at each of these keywords. -/
lemma atStatement_of_keyword {view : View} {word : Keyword} (at_ : view.atKeyword word = true)
    (mem : word ∈ [Keyword.CREATE, .WITH, .SELECT, .VALUES, .INSERT, .UPDATE, .DELETE]) :
    atStatement view = true :=
  Bool.or_eq_true_iff.mpr (.inl (List.any_eq_true.mpr ⟨word, mem, at_⟩))

/-- An `INSERT` was read where a statement starts: at `INSERT`, or at `REPLACE INTO`. -/
lemma accepted_insert_starts {commonTables : Option WithClause} {start : Span} {value : Insert}
    (run : (insert rules commonTables start).run dialect cursor = .accepted value stop) :
    atStatement cursor.view = true := by
  obtain ⟨mode, middle, first, -, run⟩ := accepted_bind run
  unfold insertMode at first
  rw [run_eatKeyword_bind] at first
  split at first
  · next replace =>
    obtain ⟨-, rfl⟩ := accepted_pure first
    obtain ⟨into, -, -⟩ := accepted_expectKeyword run
    refine Bool.or_eq_true_iff.mpr (.inr (Bool.and_eq_true_iff.mpr ⟨replace, ?_⟩))
    rwa [View.atKeyword, Cursor.view, Cursor.peek_advance] at into
  · obtain ⟨at_, -, -⟩ := accepted_expectKeyword first
    exact atStatement_of_keyword at_ (by decide)

/-- A statement about rows was read where a statement starts. -/
lemma accepted_dataStatementAfter_starts {commonTables : Option WithClause} {start : Span}
    {expected : String} {value : DataStatement}
    (run : (dataStatementAfter rules commonTables start expected).run dialect cursor =
      .accepted value stop) : atStatement cursor.view = true := by
  unfold dataStatementAfter at run
  rw [run_view_bind] at run
  split at run
  · next at_ =>
    obtain ⟨word, mem, at_⟩ := List.any_eq_true.mp at_
    have subset : [Keyword.SELECT, .VALUES] ⊆
        [.CREATE, .WITH, .SELECT, .VALUES, .INSERT, .UPDATE, .DELETE] := by decide
    exact atStatement_of_keyword at_ (subset mem)
  · split at run
    · obtain ⟨part, middle, run, -, -⟩ := accepted_bind run
      exact accepted_insert_starts run
    · split at run
      · next at_ => exact atStatement_of_keyword at_ (by decide)
      · split at run
        · next at_ => exact atStatement_of_keyword at_ (by decide)
        · exact absurd run not_accepted_unexpected

/-- A statement starts with one of a few words. -/
lemma accepted_statement_starts {value : Statement}
    (run : (statement rules).run dialect cursor = .accepted value stop) :
    atStatement cursor.view = true := by
  unfold statement at run
  rw [run_sees_bind] at run
  split at run
  · next at_ => exact atStatement_of_keyword at_ (by decide)
  · obtain ⟨part, middle, run, -, -⟩ := accepted_bind run
    unfold dataStatement at run
    rw [run_here_bind, run_sees_bind] at run
    split at run
    · next at_ => exact atStatement_of_keyword at_ (by decide)
    · exact accepted_dataStatementAfter_starts run

/-- What starts a statement starts no other entry of a drift file, and it is neither a semicolon nor
the end of input. -/
lemma kind_of_atStatement {view : View} (at_ : atStatement view = true) :
    ∃ word, view.current.kind = .keyword word ∧ word ≠ .IMPORT ∧
      atDeclaredStatement view = false := by
  rcases Bool.or_eq_true_iff.mp at_ with first | both
  · obtain ⟨word, mem, at_⟩ := List.any_eq_true.mp first
    have kind := Token.kind_of_isKeyword at_
    have reserved : ∀ word ∈ [Keyword.CREATE, .WITH, .SELECT, .VALUES, .INSERT, .UPDATE, .DELETE],
        word.canBeIdentifier = false ∧ word ≠ .IMPORT := by decide
    obtain ⟨noName, noImport⟩ := reserved word mem
    exact ⟨word, kind, noImport, by
      simp [atDeclaredStatement, View.atIdentifier, TokenKind.isIdentifierLike, kind, noName]⟩
  · obtain ⟨first, second⟩ := Bool.and_eq_true_iff.mp both
    have kind := Token.kind_of_isKeyword second
    refine ⟨.REPLACE, Token.kind_of_isKeyword first, by decide, ?_⟩
    simp [atDeclaredStatement, Token.isSymbol, Token.isKeyword, Token.keyword?, kind]

/-- Where a statement starts, an entry of a drift file is read as a plain statement. -/
lemma run_driftEntry_plain (at_ : atStatement cursor.view = true) :
    (driftEntry rules).run dialect cursor =
      ((statement rules).run dialect cursor).map .plain := by
  obtain ⟨word, kind, noImport, noName⟩ := kind_of_atStatement at_
  have import_ : atImport cursor.view = none := by
    unfold atImport
    split
    · next other _ => simp_all
    · rfl
  have onCreate : atOnCreate cursor.view = false := by
    unfold atOnCreate
    rw [kind]
  unfold driftEntry
  rw [run_view_bind]
  simp only [import_, onCreate, noName, Bool.false_eq_true, if_false]
  rw [run_bind]
  cases (statement rules).run dialect cursor <;> rfl

/-! ## Entries of other forms -/

section Map

variable {α β : Type} {entry : Parser α} {entry' : Parser β} {f : α → β}
  (same : ∀ ⦃cursor value stop⦄, entry.run dialect cursor = .accepted value stop →
    entry'.run dialect cursor = .accepted (f value) stop)
include same

/-- A further entry is read as by another parser, if the two agree on entries up to a function. -/
lemma accepted_nextEntry_map {next : Option α}
    (run : (nextEntry rules entry).run dialect cursor = .accepted next stop) :
    (nextEntry rules entry').run dialect cursor = .accepted (next.map f) stop := by
  obtain ⟨skipped, middle, first, -, run⟩ := accepted_bind run
  unfold nextEntry
  rw [run_bind, first]
  dsimp only
  rw [run_sees_bind] at run ⊢
  split at run
  · next atEnd =>
    obtain ⟨rfl, rfl⟩ := accepted_pure run
    rw [if_pos atEnd]
    rfl
  · next more =>
    obtain ⟨value, place, second, -, run⟩ := accepted_bind run
    obtain ⟨u, last, third, -, run⟩ := accepted_bind run
    obtain ⟨rfl, rfl⟩ := accepted_pure run
    rw [if_neg more, run_bind, same second]
    dsimp only
    rw [run_bind, third]
    rfl

/-- Where entries of one form are accepted, so are the same entries in another form. -/
lemma accepted_many_map {fuel : Nat} {list : List α}
    (run : (many fuel (nextEntry rules entry)).run dialect cursor = .accepted list stop) :
    (many fuel (nextEntry rules entry')).run dialect cursor = .accepted (list.map f) stop := by
  induction fuel generalizing cursor list with
  | zero =>
    obtain ⟨less, eq, -⟩ := accepted_many run
    omega
  | succ fuel ih =>
    obtain ⟨less, eq, ⟨rfl, last⟩ | ⟨part, others, middle, rfl, first, later⟩⟩ := accepted_many run
    · exact run_many_of_none fuel (accepted_nextEntry_map same last)
    · obtain rfl : fuel = less := by omega
      rw [run_many_of_some fuel (accepted_nextEntry_map same first), ih later]
      rfl

end Map

/-- **A script is a drift file** of plain statements. -/
lemma accepted_driftFile {list : List Statement} (drift : dialect.isDrift = true)
    (run : (script rules).run dialect cursor = .accepted list stop) :
    ∃ file, (driftFile rules).run dialect cursor = .accepted file stop ∧
      file.entries = list.map .plain := by
  have entries : (many rules.limit (nextEntry rules (driftEntry rules))).run dialect cursor =
      .accepted (list.map .plain) stop :=
    accepted_many_map (fun place value after run => by
      rw [run_driftEntry_plain (accepted_statement_starts run), run]
      rfl) run
  refine ⟨⟨list.map .plain, entriesSpan cursor.current.span (list.map .plain)⟩, ?_, rfl⟩
  unfold driftFile
  rw [run_here_bind, run_bind]
  unfold require
  simp only [Parser.run, if_pos (show dialect.supports .driftExtensions = true from drift)]
  rw [run_bind]
  unfold Grammar.entries
  rw [entries]
  rfl

/-! ## Scripts of one statement -/

/-- A statement that starts an entry is followed by the end of input or by a semicolon. -/
lemma run_nextEntry_statement {value : Statement} {middle : Cursor}
    (run : (statement rules).run dialect cursor = .accepted value middle) (some : 0 < rules.limit) :
    (nextEntry rules (statement rules)).run dialect cursor =
      (entryEnd.run dialect middle).map fun _ => Option.some value := by
  obtain ⟨word, kind, -⟩ := kind_of_atStatement (accepted_statement_starts run)
  have noSemicolon : cursor.view.atSymbol .semicolon = false := by
    unfold View.atSymbol Token.isSymbol
    rw [kind]
  have noEnd : cursor.current.isEnd = false := by
    unfold Token.isEnd
    rw [show cursor.current.kind = .keyword word from kind]
  rw [run_nextEntry_here noSemicolon some, if_neg (by simp [noEnd]), run_bind, run]
  dsimp only
  rw [run_bind]
  cases entryEnd.run dialect middle <;> rfl

/-- A semicolon after an entry is taken. -/
lemma run_entryEnd_semicolon (at_ : cursor.view.atSymbol .semicolon = true) :
    entryEnd.run dialect cursor = .accepted () cursor.advance := by
  have noEnd : ¬ cursor.current.isEnd = true := fun atEnd => by
    rw [View.atSymbol_end (Token.isEnd_iff.mp atEnd)] at at_
    exact Bool.false_ne_true at_
  rw [run_entryEnd, if_neg noEnd, run_expectSymbol_bind at_]
  rfl

/-- Where the input ends, a list of entries does. -/
lemma run_entries_end {α : Type} {entry : Parser α} (atEnd : cursor.current.isEnd = true)
    (fuel : Nat) (some : 0 < rules.limit) :
    (many (fuel + 1) (nextEntry rules entry)).run dialect cursor = .accepted [] cursor := by
  refine run_many_of_none fuel ?_
  rw [run_nextEntry_here (View.atSymbol_end (Token.isEnd_iff.mp atEnd) _) some, if_pos atEnd]

/-- **A statement is a script** of its own. -/
lemma accepted_script {value : Statement} (ends : cursor.Ends)
    (enough : cursor.ahead.length < rules.limit)
    (run : (wholeStatement rules).run dialect cursor = .accepted value stop) :
    (script rules).run dialect cursor = .accepted [value] stop := by
  obtain ⟨other, middle, first, -, run⟩ := accepted_bind run
  -- the statement and the end of the list take one turn each
  obtain ⟨fuel, eq⟩ : ∃ fuel, rules.limit = fuel + 2 := by
    obtain ⟨word, kind, -⟩ := kind_of_atStatement (accepted_statement_starts first)
    have := @ahead_of_ends cursor ends fun atEnd => nomatch (atEnd.symm.trans kind)
    exact ⟨rules.limit - 2, by omega⟩
  have some : 0 < rules.limit := by omega
  obtain ⟨ended, atEnd, rfl⟩ : entryEnd.run dialect middle = .accepted () stop ∧
      stop.current.isEnd = true ∧ other = value := by
    rw [run_eatSymbol_bind] at run
    split at run
    · next at_ =>
      obtain ⟨atEnd, run⟩ := accepted_expectEnd run
      obtain ⟨rfl, rfl⟩ := accepted_pure run
      exact ⟨run_entryEnd_semicolon at_, atEnd, rfl⟩
    · obtain ⟨atEnd, run⟩ := accepted_expectEnd run
      obtain ⟨rfl, rfl⟩ := accepted_pure run
      exact ⟨by rw [run_entryEnd, if_pos atEnd], atEnd, rfl⟩
  have entry : (nextEntry rules (statement rules)).run dialect cursor =
      .accepted (Option.some other) stop := by
    rw [run_nextEntry_statement first some, ended]
    rfl
  unfold script entries
  rw [eq, run_many_of_some _ entry, run_entries_end atEnd _ some]
  rfl

/-! ## Scripts that another one follows -/

/-- An entry ends at the end of the source, or at a semicolon, which is taken. -/
lemma accepted_entryEnd (run : entryEnd.run dialect cursor = .accepted () stop) :
    (cursor.current.isEnd = true ∧ cursor = stop) ∨
      (cursor.view.atSymbol .semicolon = true ∧ cursor.advance = stop) := by
  rw [run_entryEnd] at run
  split at run
  · next atEnd => exact .inl ⟨atEnd, by simpa using run⟩
  · obtain ⟨at_, -, run⟩ := accepted_expectSymbol run
    exact .inr ⟨at_, (accepted_pure run).2⟩

/-- Where neither a semicolon nor the end of input is, an entry is a statement and what ends it. -/
lemma accepted_nextEntry {next : Option Statement} (some : 0 < rules.limit)
    (noSemicolon : cursor.view.atSymbol .semicolon = false) (noEnd : ¬ cursor.current.isEnd = true)
    (run : (nextEntry rules (statement rules)).run dialect cursor = .accepted next stop) :
    ∃ value middle, next = Option.some value ∧
      (statement rules).run dialect cursor = .accepted value middle ∧
      entryEnd.run dialect middle = .accepted () stop := by
  rw [run_nextEntry_here noSemicolon some, if_neg noEnd] at run
  obtain ⟨value, middle, first, -, run⟩ := accepted_bind run
  obtain ⟨u, place, ended, -, run⟩ := accepted_bind run
  obtain ⟨eq, rfl⟩ := accepted_pure run
  exact ⟨value, middle, eq.symm, first, ended⟩

end Grammar

/-! ## Scripts that another one follows -/

/-- The place after the semicolon. -/
def Sequel.start (sequel : Sequel) (source : String) : Cursor :=
  ⟨source, sequel.separator, sequel.later, sequel.last⟩

namespace Cursor

variable {cursor : Cursor} (sequel : Sequel)

/-- Where a source ends, the separator follows in a longer one. -/
lemma atSymbol_before_end (isSemicolon : sequel.separator.kind = .symbol .semicolon)
    (empty : cursor.ahead = []) :
    (cursor.before sequel).view.atSymbol .semicolon = true := by
  have current : (cursor.before sequel).current = sequel.separator := by
    simp [before, Cursor.current, peek, empty]
  change (cursor.before sequel).current.isSymbol .semicolon = true
  rw [current, Token.isSymbol, isSemicolon]
  rfl

/-- After the last token of a script, the separator is taken, and what follows it starts. -/
lemma advance_before_end (empty : cursor.ahead = []) :
    (cursor.before sequel).advance = sequel.start cursor.source := by
  simp [before, advance, empty, Sequel.start]

/-- Inside a script, the same symbols are next whether or not another one follows. -/
lemma atSymbol_before (inside : cursor.ahead ≠ []) (which : Symbol) :
    (cursor.before sequel).view.atSymbol which = cursor.view.atSymbol which := by
  unfold View.atSymbol Cursor.view
  rw [peek_before sequel (List.length_pos_iff.mpr inside)]

/-- The tokens ahead are those of the script, the separator and those after it. -/
lemma length_before : (cursor.before sequel).ahead.length =
    cursor.ahead.length + sequel.later.length + 1 := by
  simp [before, Nat.add_assoc]

/-- A cursor that is reached has the source of the one it is reached from. -/
lemma Reaches.source {origin : Cursor} (reached : origin.Reaches cursor) :
    cursor.source = origin.source := by
  obtain ⟨count, rfl, -⟩ := reached
  exact (iterate_advance origin count).2.2

end Cursor

/-- The result of a mapped outcome is the mapped result. -/
lemma Outcome.result_map {α β : Type} (f : α → β) (outcome : Outcome α) :
    (outcome.map f).result = outcome.result.map f := by
  cases outcome <;> rfl

namespace Grammar

open SqlTree.Parser

section Before

variable {S : Surroundings} {sequel : Sequel} {dialect : Dialect} {cursor : Cursor}
  {limit depth : Nat}

/-- The entries of a script, with rules that suffice. -/
def statements (limit depth : Nat) (fuel : Nat) : Parser (List Statement) :=
  many fuel (nextEntry (Grammar.rules limit depth) (statement (Grammar.rules limit depth)))

/-- Bounds that suffice do not matter to the entries of a script. -/
lemma run_statements_bounds (some : 0 < limit) (deep : 0 < depth) (ends : cursor.Ends)
    {fuel fuel' : Nat} (enough : cursor.ahead.length < fuel)
    (enough' : cursor.ahead.length < fuel') :
    (statements limit depth fuel).run dialect cursor =
      (statements limit depth fuel').run dialect cursor := by
  have steps := statement_steps (rules_settles Nat.one_pos some some deep deep)
  exact Alike.many (.refl _) (nextEntry_progress steps) enough enough' ends
    (Nat.lt_succ_self cursor.ahead.length)

/-- At the end of input no statement is left. -/
lemma accepted_statements_end (atEnd : cursor.current.isEnd = true) (some : 0 < limit) {fuel : Nat}
    {list : List Statement} {stop : Cursor}
    (run : (statements limit depth fuel).run dialect cursor = .accepted list stop) : [] = list := by
  obtain ⟨less, rfl, -⟩ := accepted_many run
  unfold statements at run
  rw [run_entries_end atEnd less (by rwa [limit_rules])] at run
  exact (Outcome.accepted.inj run).1

/-- Semicolons before a script do not matter. -/
lemma run_statements_skip (ends : cursor.Ends) (at_ : cursor.view.atSymbol .semicolon = true)
    (enough : cursor.ahead.length < limit) {fuel : Nat} (some : 0 < fuel) :
    (statements limit depth fuel).run dialect cursor =
      (statements limit depth fuel).run dialect cursor.advance := by
  obtain ⟨less, rfl⟩ : ∃ less, fuel = less + 1 := ⟨fuel - 1, by omega⟩
  exact run_many_congr less (run_nextEntry_skip ends at_ (by rwa [limit_rules]))

/-- A script starts with its first statement, up to the place after the semicolon. -/
lemma result_statements_cons {value : Statement} {middle stop : Cursor} (some : 0 < limit)
    (deep : 0 < depth) (ends : cursor.Ends) (enough : cursor.ahead.length < limit)
    (run : (statement (Grammar.rules limit depth)).run dialect cursor = .accepted value middle)
    (ended : entryEnd.run dialect middle = .accepted () stop) :
    ((statements limit depth limit).run dialect cursor).result =
      ((statements limit depth limit).run dialect stop).result.map (value :: ·) := by
  have entry : (nextEntry (Grammar.rules limit depth) (statement (Grammar.rules limit depth))).run
      dialect cursor = .accepted (Option.some value) stop := by
    rw [run_nextEntry_statement run (by rwa [limit_rules]), ended]
    rfl
  rw [run_statements_bounds some deep ends enough (Nat.lt_succ_of_lt enough), ← Outcome.result_map]
  exact congrArg Outcome.result (run_many_of_some limit entry)

/-- What ends an entry ends it in the longer source too. At the end of the source, it is the
semicolon between the sources. -/
lemma run_entryEnd_before (isSemicolon : sequel.separator.kind = .symbol .semicolon)
    {stop : Cursor} (reached : S.origin.Reaches cursor)
    (run : entryEnd.run dialect cursor = .accepted () stop) :
    (stop.current.isEnd = true ∧ entryEnd.run dialect (cursor.before sequel) =
        .accepted () (sequel.start S.origin.source)) ∨
      (stop.ahead.length < cursor.ahead.length ∧ S.origin.Reaches stop ∧
        entryEnd.run dialect (cursor.before sequel) = .accepted () (stop.before sequel)) := by
  obtain ⟨atEnd, rfl⟩ | ⟨at_, rfl⟩ := accepted_entryEnd run
  · have empty := S.ahead_of_end reached (Token.isEnd_iff.mp atEnd)
    refine .inl ⟨atEnd, ?_⟩
    rw [run_entryEnd_semicolon (Cursor.atSymbol_before_end sequel isSemicolon empty),
      Cursor.advance_before_end sequel empty, reached.source]
  · have inside : cursor.ahead ≠ [] :=
      Cursor.ahead_of_proper (reached.ends S.ends) (.of_isSymbol at_)
    refine .inr ⟨?_, reached.advance (sound_of_atSymbol at_), ?_⟩
    · have := Cursor.length_ahead inside
      omega
    · rw [run_entryEnd_semicolon ((Cursor.atSymbol_before sequel inside _).trans at_),
        Cursor.advance_before sequel inside]

/-- **A script that another one follows** is read first, and then the other one.

**Proof sketch.** Induction on the number of tokens ahead. A semicolon is skipped in both scripts.
At the end of the first script the semicolon between them is skipped. A statement is read in the
same way in both, and then the semicolon after it is taken: one of the first script, or the one
between them. -/
lemma result_statements_before (mem : sequel ∈ S.sequel)
    (isSemicolon : sequel.separator.kind = .symbol .semicolon)
    (last : sequel.last.kind = .endOfInput) (deep : 0 < depth) (reached : S.origin.Reaches cursor)
    (enough : cursor.ahead.length + sequel.later.length + 1 < limit) {fuel : Nat}
    {list : List Statement} {stop : Cursor}
    (run : (statements limit depth fuel).run dialect cursor = .accepted list stop) :
    ((statements limit depth limit).run dialect (cursor.before sequel)).result =
      ((statements limit depth limit).run dialect (sequel.start S.origin.source)).result.map
        (list ++ ·) := by
  have some : 0 < limit := by omega
  induction ahead : cursor.ahead.length using Nat.strongRecOn generalizing cursor fuel list with
  | _ length ih =>
    have ends : cursor.Ends := reached.ends S.ends
    have ends' : (cursor.before sequel).Ends := last
    have few : cursor.ahead.length < limit := by omega
    have few' : (cursor.before sequel).ahead.length < limit := by rwa [Cursor.length_before]
    by_cases semicolon : cursor.view.atSymbol .semicolon = true
    · have inside : cursor.ahead ≠ [] := Cursor.ahead_of_proper ends (.of_isSymbol semicolon)
      have semicolon' := (Cursor.atSymbol_before sequel inside _).trans semicolon
      have shorter : cursor.advance.ahead.length < cursor.ahead.length := by
        have := Cursor.length_ahead inside
        omega
      obtain ⟨less, rfl, -⟩ := accepted_many run
      rw [run_statements_skip ends semicolon few (Nat.succ_pos _)] at run
      rw [run_statements_skip ends' semicolon' few' some, Cursor.advance_before sequel inside]
      exact ih _ (ahead ▸ shorter) (reached.advance (sound_of_atSymbol semicolon))
        (by omega) run rfl
    replace semicolon : cursor.view.atSymbol .semicolon = false := by simpa using semicolon
    by_cases atEnd : cursor.current.isEnd = true
    · have empty := S.ahead_of_end reached (Token.isEnd_iff.mp atEnd)
      obtain rfl : [] = list := accepted_statements_end atEnd some run
      rw [run_statements_skip ends' (Cursor.atSymbol_before_end sequel isSemicolon empty) few' some,
        Cursor.advance_before_end sequel empty, reached.source]
      exact (congrFun Except.map_id _).symm
    have some' : 0 < (Grammar.rules limit depth).limit := by rwa [limit_rules]
    obtain ⟨less, rfl, ⟨-, none⟩ | ⟨part, others, place, rfl, entry, rest⟩⟩ := accepted_many run
    · obtain ⟨value, middle, eq, -⟩ := accepted_nextEntry some' semicolon atEnd none
      exact nomatch eq
    obtain ⟨value, middle, eq, first, ended⟩ := accepted_nextEntry some' semicolon atEnd entry
    obtain rfl := Option.some.inj eq
    have careful := statement_careful (rules_careful S limit depth) reached
    have reached' := (careful.orderly.accepted reached first).2
    have first' := careful.goesOn sequel mem first
    obtain ⟨atEnd', ended'⟩ | ⟨shorter, reached'', ended'⟩ :=
      run_entryEnd_before isSemicolon reached' ended
    · obtain rfl : [] = others := accepted_statements_end atEnd' some rest
      exact result_statements_cons some deep ends' few' first' ended'
    · have le := accepted_length first
      rw [result_statements_cons some deep ends' few' first' ended',
        ih _ (by omega) reached'' (by omega) rest rfl]
      cases ((statements limit depth limit).run dialect (sequel.start S.origin.source)).result <;>
        rfl

end Before

/-- The parser of scripts is the loop over statements. -/
lemma script_rules (limit depth : Nat) :
    script (Grammar.rules limit depth) = statements limit depth limit := by
  unfold script entries statements
  rw [limit_rules]

end Grammar

/-! ## Tokens with a semicolon between -/

namespace Cursor

variable {first : List Token} (inner : ∀ token ∈ first, token.kind ≠ .endOfInput)
include inner

/-- A cursor over tokens has all of them ahead. -/
lemma ofTokens_inner (source : String) :
    ofTokens source first = ⟨source, first.headD (endToken source), first, endToken source⟩ := by
  have others : ∀ token ∈ first, (!token.isEnd) = true := fun token mem => by
    simpa using mt Token.isEnd_iff.mp (inner token mem)
  unfold ofTokens
  rw [List.takeWhile_eq_self_iff.mpr others, List.find?_eq_none.mpr fun token mem => by
    simpa using others token mem]
  rfl

/-- A cursor over two scripts has the tokens of the first, the separator, and those of the second
ahead. -/
lemma ofTokens_append (source : String) {separator : Token}
    (other : separator.kind ≠ .endOfInput) (second : List Token) :
    ofTokens source (first ++ separator :: second) =
      ⟨source, first.headD separator, first ++ separator :: (ofTokens source second).ahead,
        (ofTokens source second).last⟩ := by
  have others : ∀ token ∈ first, (!token.isEnd) = true := fun token mem => by
    simpa using mt Token.isEnd_iff.mp (inner token mem)
  have other' : separator.isEnd = false := by simpa using mt Token.isEnd_iff.mp other
  unfold ofTokens
  rw [List.takeWhile_append_of_pos others, List.find?_append, List.find?_eq_none.mpr
    fun token mem => by simpa using others token mem]
  cases first <;> simp [other']

end Cursor

namespace Statement

open Cursor Grammar

/-- A script is read alike within any bounds above the number of its tokens. -/
lemma parseScriptAt_bounds {dialect : Dialect} {cursor : Cursor} {bound : Nat} (ends : cursor.Ends)
    (enough : cursor.ahead.length < bound) :
    parseScriptAt dialect cursor = (statements bound bound bound).run dialect cursor := by
  rw [← script_rules]
  exact (run_of_enough .script ends enough enough).symm

/-- What was taken before a script does not matter. -/
lemma result_parseScriptAt_previous {dialect : Dialect} {cursor : Cursor} (ends : cursor.Ends)
    (inner : ∀ token ∈ cursor.ahead, token.kind ≠ .endOfInput) (token : Token) :
    (parseScriptAt dialect { cursor with previous := token }).result =
      (parseScriptAt dialect cursor).result :=
  script_fresh.result_run (Entry.script.parser_orderly _ _ ends inner) ends token

/-- A script that another one follows. -/
lemma result_parseScriptAt_before {dialect : Dialect} {cursor : Cursor} {sequel : Sequel}
    {list : List Statement} (isSemicolon : sequel.separator.kind = .symbol .semicolon)
    (ends : cursor.Ends) (last : sequel.last.kind = .endOfInput)
    (inner : ∀ token ∈ cursor.ahead, token.kind ≠ .endOfInput)
    (ok : (parseScriptAt dialect cursor).result = .ok list) :
    (parseScriptAt dialect (cursor.before sequel)).result =
      (parseScriptAt dialect (sequel.start cursor.source)).result.map (list ++ ·) := by
  have ends' : (cursor.before sequel).Ends := last
  have ends'' : (sequel.start cursor.source).Ends := last
  -- all runs are runs of one parser, with bounds that suffice for the longest one
  obtain ⟨bound, enough⟩ :
      ∃ bound, cursor.ahead.length + sequel.later.length + 1 < bound := ⟨_, Nat.lt_succ_self _⟩
  have enough' : (cursor.before sequel).ahead.length < bound := by rwa [Cursor.length_before]
  have enough'' : (sequel.start cursor.source).ahead.length < bound :=
    Nat.lt_of_le_of_lt (by simp only [Sequel.start]; omega) enough
  obtain ⟨stop, run⟩ := Outcome.accepted_of_result ok
  rw [parseScriptAt_bounds ends (Nat.lt_of_le_of_lt (by omega) enough)] at run
  rw [parseScriptAt_bounds ends' enough', parseScriptAt_bounds ends'' enough'']
  let S : Parser.Surroundings := ⟨cursor, ends, inner, some sequel⟩
  exact result_statements_before (S := S) rfl isSemicolon last (by omega) (.refl _) enough run

/-- Tokens of a script, a semicolon and more tokens. -/
lemma result_parseScriptAt_append {dialect : Dialect} {source : String} {first : List Token}
    {separator : Token} {list : List Statement}
    (inner : ∀ token ∈ first, token.kind ≠ .endOfInput)
    (isSemicolon : separator.kind = .symbol .semicolon)
    (ok : (parseScriptAt dialect (ofTokens source first)).result = .ok list)
    (second : List Token) :
    (parseScriptAt dialect (ofTokens source (first ++ separator :: second))).result =
      (parseScriptAt dialect (ofTokens source second)).result.map (list ++ ·) := by
  have other : separator.kind ≠ .endOfInput := by simp [isSemicolon]
  let alone := ofTokens source first
  let rest := ofTokens source second
  let sequel : Sequel := ⟨separator, .inl isSemicolon, rest.ahead, rest.last⟩
  have composed : (parseScriptAt dialect (alone.before sequel)).result =
      (parseScriptAt dialect { rest with previous := separator }).result.map (list ++ ·) :=
    result_parseScriptAt_before isSemicolon (ends_ofTokens source first)
      (ends_ofTokens source second)
      (inner_ofTokens source first) ok
  have both : alone.before sequel =
      { ofTokens source (first ++ separator :: second) with previous := alone.previous } := by
    simp only [alone, ofTokens_append inner source other, ofTokens_inner inner]
    rfl
  have start : (parseScriptAt dialect { rest with previous := separator }).result =
      (parseScriptAt dialect rest).result :=
    result_parseScriptAt_previous (ends_ofTokens source _) (inner_ofTokens source _) separator
  rw [start, both] at composed
  exact (result_parseScriptAt_previous (ends_ofTokens source _) (inner_ofTokens source _)
    _).symm.trans composed

/-- **Scripts compose.** A statement is a script of its own. Where drift files are read, a script is
one, with the same statements as entries. Where a semicolon and more tokens follow the tokens of a
script, its statements come before those of the rest, and an error of the rest stays the same; the
same holds of the tokens of one statement, whatever semicolons are inside. -/
theorem parseScript_compose (dialect : Dialect) :
    (∀ source statement, parse dialect source = .ok statement →
      parseScript dialect source = .ok [statement]) ∧
    (dialect.isDrift = true → ∀ source list, parseScript dialect source = .ok list →
      ∃ file, DriftFile.parse dialect source = .ok file ∧ file.entries = list.map .plain) ∧
    ∀ (source : String) (first second : List Token) (separator : Token),
      (∀ token ∈ first, token.kind ≠ .endOfInput) → separator.kind = .symbol .semicolon →
      let alone := ofTokens source first
      let both := parseScriptAt dialect (ofTokens source (first ++ separator :: second))
      let rest := parseScriptAt dialect (ofTokens source second)
      (∀ list, (parseScriptAt dialect alone).result = .ok list →
        both.result = rest.result.map (list ++ ·)) ∧
      ∀ statement, (parseAt dialect alone).result = .ok statement →
        (parseScriptAt dialect alone).result = .ok [statement] ∧
          both.result = rest.result.map (statement :: ·) := by
  have single {cursor : Cursor} (ends : cursor.Ends) {statement : Statement}
      (ok : (parseAt dialect cursor).result = .ok statement) :
      (parseScriptAt dialect cursor).result = .ok [statement] := by
    obtain ⟨stop, run⟩ := Outcome.accepted_of_result ok
    exact congrArg Outcome.result
      (accepted_script ends (by rw [rulesFor, limit_rules]; exact Nat.lt_succ_self _) run)
  refine ⟨fun source statement ok => single (ends_ofTokens source _) ok,
    fun drift source list ok => ?_, fun source first second separator inner isSemicolon => ?_⟩
  · obtain ⟨stop, run⟩ := Outcome.accepted_of_result ok
    obtain ⟨file, run, entries⟩ := accepted_driftFile drift run
    exact ⟨file, congrArg Outcome.result run, entries⟩
  · refine ⟨fun list ok => result_parseScriptAt_append inner isSemicolon ok second,
      fun statement ok => ?_⟩
    have script := single (ends_ofTokens source first) ok
    exact ⟨script, result_parseScriptAt_append inner isSemicolon script second⟩

/-- The semicolons of a trigger and of the arguments of a type are inside its statement. -/
example : (parseScript .generic
    "CREATE TRIGGER t AFTER INSERT ON a BEGIN SELECT CAST(1 AS T(x;y)); DELETE FROM b; END; SELECT 3"
    ).map List.length = .ok 2 := rfl

end Statement

end SqlTree
