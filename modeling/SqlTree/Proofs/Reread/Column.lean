import SqlTree.Proofs.Reread.Table

set_option autoImplicit false

/-!
# Reading result columns again

## Main results

* `SqlTree.Rereading.resultColumn_again`, `SqlTree.Rereading.resultColumns_again` — result columns
  are read again.
-/

namespace SqlTree

/-- The Dart converter of a column. -/
def Form.mapped : Form String :=
  ⟨fun code => [.ofKeyword .MAPPED, .ofKeyword .BY, .ofDart code], fun _ => [], id⟩

namespace Rereading

open SqlTree.Parser SqlTree.Grammar

variable {E : Rereading} {n : Nat} {c c' c₁ c₁' : Cursor} {rest : List Word}

/-! ## Dart converters -/

/-- Dart code was read from its token. -/
lemma accepted_dartCode {code : String}
    (run : dartCode.run E.dialect c = .accepted code c₁) :
    c.current.kind = .inlineDart code ∧ c₁ = c.advance := by
  unfold dartCode at run
  rw [run_current_bind] at run
  split at run
  · next code kind =>
    obtain ⟨-, -, run⟩ := accepted_advance run
    obtain ⟨rfl, rfl⟩ := accepted_pure run
    exact ⟨kind, rfl⟩
  · exact absurd run not_accepted_unexpected

/-- Dart code is read where its token is next. -/
lemma run_dartCode {dialect : Dialect} {code : String} (kind : c.current.kind = .inlineDart code) :
    dartCode.run dialect c = .accepted code c.advance := by
  unfold dartCode
  rw [run_current_bind, kind]
  dsimp only
  rw [run_advance_bind (by rw [kind]; rfl)]
  rfl

/-- Dart code is read again. -/
lemma dartCode_again :
    E.Reruns n ⟨fun code => [.ofDart code], fun _ => [], id⟩ (fun _ _ => True) dartCode
      dartCode := by
  intro c c' code c₁ rest run follows keeps _ _
  obtain ⟨kind, rfl⟩ := accepted_dartCode run
  have follows : E.Follows n c c' (.ofDart code :: rest) := follows
  obtain ⟨kind', follows, -⟩ := follows.same kind (by rw [kind]; simp) keeps
  exact ⟨code, _, run_dartCode kind', follows, rfl⟩

/-- What a converter was read from, if it was there. -/
lemma accepted_optionalMappedBy {value : Option String}
    (run : optionalMappedBy.run E.dialect c = .accepted value c₁) :
    (∃ code, value = some code ∧ c.view.atKeywords .MAPPED .BY = true ∧
        E.dialect.supports .driftExtensions = true ∧
        dartCode.run E.dialect c.advance.advance = .accepted code c₁) ∨
      (value = none ∧ ¬ c.view.atKeywords .MAPPED .BY = true ∧ c₁ = c) := by
  unfold optionalMappedBy whenever mappedBy at run
  rw [run_sees_bind] at run
  split at run
  · next at_ =>
    obtain ⟨code, c₂, inner, -, run⟩ := accepted_bind run
    obtain ⟨rfl, rfl⟩ := accepted_pure run
    rw [run_here_bind] at inner
    obtain ⟨has, inner⟩ := accepted_require inner
    obtain ⟨-, -, inner⟩ := accepted_advance inner
    obtain ⟨-, -, inner⟩ := accepted_advance inner
    exact .inl ⟨code, rfl, at_, has, inner⟩
  · next not =>
    obtain ⟨rfl, rfl⟩ := accepted_pure run
    exact .inr ⟨rfl, not, rfl⟩

/-- A Dart converter is read again. -/
lemma mappedBy_again {code : String}
    (run : optionalMappedBy.run E.dialect c = .accepted (some code) c₁)
    (follows : E.Follows n c c' (Form.mapped.words code ++ rest))
    (keeps : E.mode.left ≤ c₁.ahead.length) :
    ∃ c₁', optionalMappedBy.run E.dialect c' = .accepted (some code) c₁' ∧
      E.Follows n c₁ c₁' rest := by
  rcases accepted_optionalMappedBy run with ⟨code, eq, at_, has, inner⟩ | ⟨eq, -, -⟩
  · obtain rfl := Option.some.inj eq
    have follows : E.Follows n c c'
        (.ofKeyword .MAPPED :: .ofKeyword .BY :: .ofDart _ :: rest) := follows
    obtain ⟨at', follows, -⟩ := follows.keywords at_ (Nat.le_trans keeps (accepted_length inner))
    obtain ⟨code', c₁', inner', last, same⟩ := dartCode_again inner follows keeps safe_nil trivial
    obtain rfl : code' = _ := same
    refine ⟨c₁', ?_, last⟩
    obtain ⟨one, two⟩ := kinds_of_atKeywords at'
    have two : c'.advance.current.kind = .keyword .BY := by
      unfold Cursor.current
      rw [Cursor.peek_advance]
      exact two
    have whole : mappedBy.run E.dialect c' = .accepted code' c₁' := by
      unfold mappedBy
      rw [run_here_bind, run_bind]
      simp only [require, Parser.run, has, if_true]
      rw [run_advance_bind (sound_of_atKeyword (atKeyword_of_kind one)),
        run_advance_bind (sound_of_atKeyword (atKeyword_of_kind two)), inner']
    unfold optionalMappedBy whenever
    rw [run_sees_bind, if_pos at', run_bind, whole]
    rfl
  · exact absurd eq (by simp)

/-- Where `MAPPED BY` is not next, there is no converter. -/
lemma run_optionalMappedBy_none {dialect : Dialect}
    (not : ¬ c.view.atKeywords .MAPPED .BY = true) :
    optionalMappedBy.run dialect c = .accepted none c := by
  unfold optionalMappedBy whenever
  rw [run_sees_bind, if_neg not]
  rfl

/-- Where no Dart converter follows, none does in the second reading. -/
lemma noMappedBy_again (run : optionalMappedBy.run E.dialect c = .accepted none c₁)
    (follows : E.Follows n c c' rest) (quiet : E.Quiet [.keywords .MAPPED .BY] c rest) :
    optionalMappedBy.run E.dialect c' = .accepted none c' ∧ c₁ = c := by
  rcases accepted_optionalMappedBy run with ⟨code, eq, -⟩ | ⟨-, not, rfl⟩
  · exact absurd eq (by simp)
  · exact ⟨run_optionalMappedBy_none (quiet.not_keywords follows rfl not), rfl⟩

/-- A converter that may be left out takes nothing unless `MAPPED` is next. -/
lemma optionalMappedBy_skips :
    Skips E.dialect Form.mapped.maybe [.keyword .MAPPED] optionalMappedBy :=
  .whenever fun _ => ⟨_, _, rfl, by simp⟩

/-! ## Expressions as columns -/

/-- What goes on with a result column. -/
def resultEnd : List Starter :=
  exprEnd ++ [.keyword .AS, .name, .keywords .MAPPED .BY]

/-- The words of a column are those of its expression, its name and its converter. -/
lemma column_words (expr : Expr) (aliasName mappedBy : Option String) (span : Span) :
    (Form.resultColumn E.drift).words (.expression expr aliasName mappedBy span) ++ rest =
      (Form.expr E.drift).words expr ++ (Form.aliased.words aliasName ++
        (Form.mapped.maybe.words mappedBy ++ rest)) := by
  cases mappedBy <;>
    simp [Form.resultColumn, ResultColumn.pieces, wordsOf_aliased, Form.expr, Form.maybe,
      Form.mapped]

/-- What follows the expression of a result column. -/
def columnTail (expr : Expr) (start : Span) : Parser ResultColumn := do
  match ← optionalMappedBy with
  | some code =>
    let aliasName ← optionalAlias
    return .expression expr aliasName (some code) (← spanFrom start)
  | none =>
    let aliasName ← optionalAlias
    let code ← optionalMappedBy
    return .expression expr aliasName code (← spanFrom start)

/-- A converter that stands before the name is read again. Written text has the name before it.

**Proof sketch.** By the mode. If the text is written and there is a name, then `AS` stands first,
so no converter is next; the name is read again, and the converter after it (`mappedBy_again`). In a
copy, and without a name, the converter is next again, and the name is read again after it. -/
lemma converterFirst_again {c₂ : Cursor} {expr' : Expr} {start' : Span} {aliasName : Option String}
    {code : String}
    (run₁ : optionalMappedBy.run E.dialect c = .accepted (some code) c₂)
    (run₂ : optionalAlias.run E.dialect c₂ = .accepted aliasName c₁)
    (reached : c.Reachable E.drift)
    (follows : E.Follows n c c' (Form.aliased.words aliasName ++
      (Form.mapped.words code ++ rest)))
    (keeps : E.mode.left ≤ c₁.ahead.length) (quiet : E.Quiet resultEnd c₁ rest) :
    Accepts E.dialect (columnTail expr' start') c' fun value' c₁' =>
      E.Follows n c₁ c₁' rest ∧
        ∃ span', value' = .expression expr' aliasName (some code) span' := by
  unfold columnTail
  have reached₂ := accepted_reachable run₁ reached
  have safe : E.Safe (Form.aliased.nodes aliasName) := by
    cases aliasName <;> exact safe_nil
  by_cases swapped : E.mode = .written ∧ aliasName.isSome
  · obtain ⟨written, isSome⟩ := swapped
    obtain ⟨name, rfl⟩ := Option.isSome_iff_exists.mp isSome
    have all : ∀ cursor : Cursor, E.mode.left ≤ cursor.ahead.length := by
      intro cursor
      rw [written]
      exact Nat.zero_le _
    have follows : E.Follows n c₂ c' (Form.aliased.words (some name) ++
      (Form.mapped.words code ++ rest)) := follows.of_written written reached₂
    have notMapped : ¬ c'.view.atKeywords .MAPPED .BY = true := by
      intro at'
      have follows : E.Follows n c₂ c' (.ofKeyword .AS :: .ofName name ::
        (Form.mapped.words code ++ rest)) := follows
      have kind := (kinds_of_atKeywords at').1
      exact absurd (kind.symm.trans (follows.spelled written).1) (by simp)
    refine accepts_of_run (run_optionalMappedBy_none notMapped) ?_
    refine optionalAlias_again.plain (Form.maybe_bare rfl) run₂ follows (all _) safe
      (.front rfl) fun c₂' _ follows => ?_
    obtain ⟨c₃', run₃', follows⟩ :=
      mappedBy_again run₁ (follows.of_written written reached) (all _)
    refine accepts_of_run run₃' ?_
    exact .of_return
      ⟨follows.of_written written (accepted_reachable run₂ reached₂), _, rfl⟩
  · have follows : E.Follows n c c' (Form.mapped.words code ++
        (Form.aliased.words aliasName ++ rest)) := by
      by_cases written : E.mode = .written
      · obtain rfl : aliasName = none := by simpa [written] using swapped
        exact follows
      · exact follows.of_copy written _
    obtain ⟨c₂', run₁', follows⟩ :=
      mappedBy_again run₁ follows (Nat.le_trans keeps (accepted_length run₂))
    refine accepts_of_run run₁' ?_
    exact optionalAlias_again.plain (Form.maybe_bare rfl) run₂ follows keeps safe
      (quiet.mono rfl) fun c₃' _ follows => .of_return ⟨follows, _, rfl⟩

/-- A column whose converter, if it has one, stands after its name is read again.

**Proof sketch.** Before the name, no converter is next again: a name starts with `AS` or is bare,
and without one a converter would have been read there in the source. Then the name and the
converter are read again, one after the other. -/
lemma converterLast_again {c₂ : Cursor} {expr' : Expr} {start' : Span}
    {aliasName code : Option String}
    (run₁ : optionalMappedBy.run E.dialect c = .accepted none c)
    (run₂ : optionalAlias.run E.dialect c = .accepted aliasName c₂)
    (run₃ : optionalMappedBy.run E.dialect c₂ = .accepted code c₁)
    (follows : E.Follows n c c' (Form.aliased.words aliasName ++
      (Form.mapped.maybe.words code ++ rest)))
    (keeps : E.mode.left ≤ c₁.ahead.length) (quiet : E.Quiet resultEnd c₁ rest) :
    Accepts E.dialect (columnTail expr' start') c' fun value' c₁' =>
      E.Follows n c₁ c₁' rest ∧ ∃ span', value' = .expression expr' aliasName code span' := by
  unfold columnTail
  have safe : E.Safe (Form.aliased.nodes aliasName) := by
    cases aliasName <;> exact safe_nil
  -- without a name, a converter would already have been found
  have quiet₂ : E.Quiet [.keywords .MAPPED .BY] c
      (Form.aliased.words aliasName ++ (Form.mapped.maybe.words code ++ rest)) := by
    cases aliasName with
    | some name => exact .front rfl
    | none =>
      rcases optionalAlias_skips run₂ with ⟨-, rfl⟩ | ⟨word, ws, eq, -⟩
      · obtain ⟨eq, rfl⟩ : none = code ∧ c₂ = c₁ := by simpa [run₁] using run₃
        subst eq
        exact quiet.mono rfl
      · exact absurd eq (by simp [Form.aliased, Form.maybe])
  obtain ⟨run₁', -⟩ := noMappedBy_again run₁ follows quiet₂
  refine accepts_of_run run₁' ?_
  refine optionalAlias_again.plain (Form.maybe_bare rfl) run₂ follows
    (Nat.le_trans keeps (accepted_length run₃)) safe
    (optionalMappedBy_skips.quiet run₃ rfl (quiet.mono rfl)) fun c₂' _ follows => ?_
  cases code with
  | some code =>
    obtain ⟨c₃', run₃', follows⟩ := mappedBy_again run₃ follows keeps
    exact accepts_of_run run₃' (.of_return ⟨follows, _, rfl⟩)
  | none =>
    rcases accepted_optionalMappedBy run₃ with ⟨code, eq, -⟩ | ⟨-, -, rfl⟩
    · exact absurd eq (by simp)
    · obtain ⟨run₃', -⟩ := noMappedBy_again run₃ follows (quiet.mono rfl)
      exact accepts_of_run run₃' (.of_return ⟨follows, _, rfl⟩)

/-- The second reading finds the name and the Dart converter of a column, which the first one may
have found in the other order.

**Proof sketch.** By what the first reading found first. With the converter in front, the second
reading is `converterFirst_again`, and with the name in front `converterLast_again`. What follows is
quiet about the words of the name and the converter, as both are written with a keyword in front. -/
lemma columnTail_again {expr : Expr} {start : Span} {value : ResultColumn}
    (run : (columnTail expr start).run E.dialect c = .accepted value c₁)
    (reached : c.Reachable E.drift) :
    ∃ aliasName code span, value = .expression expr aliasName code span ∧
      (∀ {starters rest}, E.Quiet starters c₁ rest →
        [TokenKind.keyword .AS, .keyword .MAPPED].all
          (fun kind => starters.all fun starter => !starter.first kind) = true →
        E.Quiet starters c (Form.aliased.words aliasName ++
          (Form.mapped.maybe.words code ++ rest))) ∧
      ∀ {expr' start' c' rest}, E.Follows n c c' (Form.aliased.words aliasName ++
          (Form.mapped.maybe.words code ++ rest)) →
        E.mode.left ≤ c₁.ahead.length → E.Quiet resultEnd c₁ rest →
        Accepts E.dialect (columnTail expr' start') c' fun value' c₁' =>
          E.Follows n c₁ c₁' rest ∧ ∃ span', value' = .expression expr' aliasName code span' := by
  obtain ⟨first, c₂, run₁, -, run⟩ := accepted_bind run
  cases first with
  | some code =>
    obtain ⟨aliasName, c₃, run₂, -, run⟩ := accepted_bind run
    obtain ⟨rfl, rfl⟩ := accepted_return run
    refine ⟨aliasName, some code, _, rfl, fun _ inert => ?_, fun follows keeps quiet =>
      converterFirst_again run₁ run₂ reached follows keeps quiet⟩
    simp only [List.all_cons, List.all_nil, Bool.and_true, Bool.and_eq_true] at inert
    cases aliasName with
    | some name => exact .front inert.1
    | none => exact .front inert.2
  | none =>
    obtain ⟨aliasName, c₃, run₂, -, run⟩ := accepted_bind run
    obtain ⟨code, c₄, run₃, -, run⟩ := accepted_bind run
    obtain ⟨rfl, rfl⟩ := accepted_return run
    rcases accepted_optionalMappedBy run₁ with ⟨code, eq, -⟩ | ⟨-, -, rfl⟩
    · exact absurd eq (by simp)
    refine ⟨aliasName, code, _, rfl, fun quiet inert => ?_, fun follows keeps quiet =>
      converterLast_again run₁ run₂ run₃ follows keeps quiet⟩
    simp only [List.all_cons, List.all_nil, Bool.and_true, Bool.and_eq_true] at inert
    exact optionalAlias_skips.quiet run₂ (by simpa using inert.1)
      (optionalMappedBy_skips.quiet run₃ (by simpa using inert.2) quiet)

/-! ## Result columns -/

/-- What an expression starts with is no table with an asterisk and no nested query.

**Proof sketch.** The tests of `resultColumn` fail one by one. An asterisk starts no expression,
what follows a table and a dot is a column, and after a name with a parenthesis no query starts. -/
lemma run_resultColumn {dialect : Dialect} {rules : Rules} (starts : c.StartsExpr) :
    (resultColumn rules).run dialect c = (expressionColumn rules).run dialect c := by
  have noStar : ∀ which, which = .star ∨ which = .doubleStar →
      ¬ atTableStar which c.view = true := by
    intro which either at_
    unfold atTableStar at at_
    simp only [Bool.and_eq_true] at at_
    obtain ⟨⟨one, two⟩, three⟩ := at_
    change (c.peek 1).isSymbol .dot = true at two
    change (c.peek 2).isSymbol which = true at three
    rw [Token.isSymbol_eq, TokenKind.isSymbol_iff] at two three
    have := starts.column one two
    rw [three] at this
    exact absurd this Bool.false_ne_true
  unfold resultColumn
  rw [run_view_bind, if_neg (starts.not_symbol rfl),
    if_neg (noStar _ (.inl rfl)), if_neg (noStar _ (.inr rfl))]
  split
  · next nested =>
    exfalso
    unfold atNestedQuery at nested
    simp only [Bool.and_eq_true] at nested
    obtain ⟨⟨one, two⟩, three⟩ := nested
    change (c.peek 1).isSymbol .leftParen = true at two
    rw [Token.isSymbol_eq, TokenKind.isSymbol_iff] at two
    have bare : (c.peek 0).kind.isBare = true := by
      rw [show c.view.current = c.peek 0 from rfl] at one
      generalize (c.peek 0).kind = kind at one
      cases kind with
      | identifier => rfl
      | _ => cases one
    have := starts.arguments bare two
    change ([Keyword.SELECT, .WITH].any fun word => (c.peek 2).isKeyword word) = true at three
    simp [Token.isKeyword_eq, TokenKind.isKeyword_iff, this.1, this.2] at three
  · rfl

/-- The end of the expression of a column is quiet if that of the column is. -/
lemma resultEnd_inert : [TokenKind.keyword .AS, .keyword .MAPPED].all
    (fun kind => exprEnd.all fun starter => !starter.first kind) = true := rfl

/-- A column that is an expression is read again. -/
lemma expressionColumn_again (known : E.Known n) {value : ResultColumn}
    (run : (expressionColumn E.rules).run E.dialect c = .accepted value c₁)
    (follows : E.Follows n c c' ((Form.resultColumn E.drift).words value ++ rest))
    (keeps : E.mode.left ≤ c₁.ahead.length) (safe : E.Safe [.resultColumn value])
    (quiet : E.Quiet resultEnd c₁ rest) :
    Accepts E.dialect (resultColumn E.again) c' fun value' c₁' =>
      E.Follows n c₁ c₁' rest ∧ value'.unplaced = value.unplaced := by
  unfold expressionColumn at run
  rw [run_here_bind] at run
  obtain ⟨expr, c₂, run₁, le₁, run⟩ := accepted_bind run
  change (columnTail expr _).run E.dialect c₂ = .accepted value c₁ at run
  obtain ⟨aliasName, code, span, rfl, quiets, again⟩ :=
    columnTail_again run (accepted_reachable run₁ follows.reached)
  rw [column_words] at follows
  obtain ⟨expr', c₂', run₁', follows, same⟩ := known.expr run₁ follows
    (Nat.le_trans keeps le₁) (safe_singleton.mp safe).2
    (quiets (quiet.mono rfl) resultEnd_inert)
  refine Accepts.congr ?_ (run_resultColumn (known.sound'.expr run₁'))
  unfold expressionColumn
  refine Accepts.congr ?_ (run_here_bind ..)
  refine accepts_of_run run₁' ?_
  refine (again follows keeps quiet).mono ?_
  rintro value' c₁' ⟨follows, span', rfl⟩
  have same : expr'.unplaced = expr.unplaced := same
  exact ⟨follows, by simp [ResultColumn.unplaced, same]⟩

/-- The name of a table before an asterisk is read again.

**Proof sketch.** The three tokens are next again one after the other: the name, the dot and the
asterisk. So the test holds again, and the name that is read is the same. -/
lemma tableOfStar_again {which : Symbol} {table : String}
    (at_ : atTableStar which c.view = true)
    (run : tableOfStar.run E.dialect c = .accepted table c₁)
    (follows : E.Follows n c c' (.ofName table :: .ofSymbol .dot :: .ofSymbol which :: rest))
    (keeps : E.mode.left ≤ c₁.ahead.length) :
    atTableStar which c'.view = true ∧
      ∃ c₁', tableOfStar.run E.dialect c' = .accepted table c₁' ∧ E.Follows n c₁ c₁' rest := by
  unfold atTableStar at at_ ⊢
  simp only [Bool.and_eq_true] at at_ ⊢
  obtain ⟨⟨one, two⟩, three⟩ := at_
  unfold tableOfStar at run ⊢
  obtain ⟨name, c₂, run₁, -, run⟩ := accepted_bind run
  obtain ⟨-, rfl, rfl⟩ := accepted_identifier run₁
  obtain ⟨-, le₂, run⟩ := accepted_advance run
  obtain ⟨-, le₃, run⟩ := accepted_advance run
  obtain ⟨rfl, rfl⟩ := accepted_pure run
  have two : c.advance.view.atSymbol .dot = true := by rwa [atSymbol_advance]
  have three : c.advance.advance.view.atSymbol which = true := by
    rw [atSymbol_advance]
    change (c.advance.peek 1).isSymbol which = true
    rwa [Cursor.peek_advance]
  obtain ⟨one', same, follows, -⟩ := follows.name one (Nat.le_trans keeps (by simp; omega))
  obtain ⟨two', follows, -⟩ := follows.symbol two (Nat.le_trans keeps (by simp))
  obtain ⟨three', follows, -⟩ := follows.symbol three keeps
  refine ⟨⟨⟨one', ?_⟩, ?_⟩, c'.advance.advance.advance, ?_, follows⟩
  · rwa [atSymbol_advance] at two'
  · rw [atSymbol_advance] at three'
    change (c'.advance.peek 1).isSymbol which = true at three'
    rwa [Cursor.peek_advance] at three'
  · rw [run_bind, run_identifier one']
    dsimp only
    rw [run_advance_bind (sound_of_atSymbol two'), run_advance_bind (sound_of_atSymbol three'),
      same]
    rfl

/-- Which asterisk stands after a table. -/
lemma not_otherStar {which other : Symbol} (at_ : atTableStar which c.view = true)
    (differ : which ≠ other) : ¬ atTableStar other c.view = true := by
  intro contra
  unfold atTableStar at at_ contra
  simp only [Bool.and_eq_true] at at_ contra
  have one := at_.2
  have two := contra.2
  rw [Token.isSymbol_eq, TokenKind.isSymbol_iff] at one two
  rw [one] at two
  exact differ (by simpa using two)

/-- A table before an asterisk is no asterisk. -/
lemma not_star_of_table {which : Symbol} (at_ : atTableStar which c.view = true) :
    ¬ c.view.atSymbol .star = true := by
  intro star
  unfold atTableStar at at_
  simp only [Bool.and_eq_true] at at_
  have name : c.current.kind.isIdentifierLike = true := at_.1.1
  rw [kind_of_atSymbol star] at name
  exact absurd name Bool.false_ne_true

/-- A nested query does not start with an asterisk. -/
lemma not_star_of_nested (nested : atNestedQuery c.view = true) :
    ¬ c.view.atSymbol .star = true := by
  intro star
  unfold atNestedQuery at nested
  simp only [Bool.and_eq_true] at nested
  have kind : c.view.current.kind = .symbol .star := kind_of_atSymbol star
  rw [kind] at nested
  exact absurd nested.1.1 Bool.false_ne_true

/-- A parenthesis stands where a table would have its point. -/
lemma not_table_of_nested (nested : atNestedQuery c.view = true) (which : Symbol) :
    ¬ atTableStar which c.view = true := by
  intro table
  unfold atNestedQuery at nested
  unfold atTableStar at table
  simp only [Bool.and_eq_true] at nested table
  have open_ := nested.1.2
  have dot := table.1.2
  rw [Token.isSymbol_eq, TokenKind.isSymbol_iff] at open_ dot
  rw [open_] at dot
  exact absurd dot (by simp)

/-- The words of a nested query are `LIST`, the query in parentheses and its name. -/
lemma nestedQuery_words (query : Query) (aliasName : Option String) (span : Span) :
    (Form.resultColumn E.drift).words (.nestedQuery query aliasName span) ++ rest =
      .ofName "LIST" :: ((Form.query E.drift).parens.words query ++
        (Form.aliased.words aliasName ++ rest)) := by
  simp [Form.resultColumn, ResultColumn.pieces, Form.query, Form.parens, Render.parens,
    wordsOf_aliased]

/-- The name before a nested query is read again. -/
lemma listName_again
    (one : (match c.current.kind with
      | .identifier name => equalIgnoringCase name "list"
      | _ => false) = true)
    (follows : E.Follows n c c' (.ofName "LIST" :: rest))
    (keeps : E.mode.left ≤ c.advance.ahead.length) :
    (match c'.current.kind with
      | .identifier name => equalIgnoringCase name "list"
      | _ => false) = true ∧ c'.current.kind.isMalformed = false ∧
      E.Follows n c.advance c'.advance rest := by
  have some : c.current.kind ≠ .endOfInput := by
    intro kind
    rw [kind] at one
    exact absurd one Bool.false_ne_true
  obtain ⟨follows, -, seen⟩ := follows.take (ahead_of_kind follows.reached some) keeps
  have named : (match c'.current.kind with
      | .identifier name => equalIgnoringCase name "list"
      | _ => false) = true := by
    rcases seen with ⟨-, kind, -⟩ | ⟨-, kind, -⟩
    · rwa [kind]
    · rw [kind]
      rfl
  refine ⟨named, ?_, follows⟩
  generalize c'.current.kind = kind at named
  cases kind with
  | malformed => cases named
  | _ => rfl

/-- A nested query is read again.

**Proof sketch.** The name `LIST` and the parenthesis are next again, and the query in them starts
with `SELECT` or `WITH` again (`Known.queryFront`), so the test holds again. In a copy the name has
the same letters; in a written text it is `LIST`. Then the query and the name of the column are read
again. -/
lemma nestedQuery_again (known : E.Known n) {value : ResultColumn}
    (at_ : atNestedQuery c.view = true)
    (run : (nestedQuery E.rules).run E.dialect c = .accepted value c₁)
    (follows : E.Follows n c c' ((Form.resultColumn E.drift).words value ++ rest))
    (keeps : E.mode.left ≤ c₁.ahead.length) (safe : E.Safe [.resultColumn value])
    (quiet : E.Quiet resultEnd c₁ rest) :
    atNestedQuery c'.view = true ∧ Accepts E.dialect (nestedQuery E.again) c' fun value' c₁' =>
      E.Follows n c₁ c₁' rest ∧ value'.unplaced = value.unplaced := by
  unfold atNestedQuery at at_ ⊢
  simp only [Bool.and_eq_true] at at_ ⊢
  obtain ⟨⟨one, two⟩, three⟩ := at_
  unfold nestedQuery at run ⊢
  rw [run_here_bind] at run
  obtain ⟨-, le₁, run⟩ := accepted_advance run
  obtain ⟨query, c₂, run₂, le₂, run⟩ := accepted_bind run
  obtain ⟨aliasName, c₃, run₃, le₃, run⟩ := accepted_bind run
  obtain ⟨rfl, rfl⟩ := accepted_return run
  rw [nestedQuery_words] at follows
  obtain ⟨one', sound, follows⟩ := listName_again one follows (Nat.le_trans keeps le₁)
  have whole := follows
  have inner := run₂
  unfold parenthesized at inner
  obtain ⟨open_, le₄, inner⟩ := accepted_expectSymbol inner
  obtain ⟨inside, c₄, run₅, -, inner⟩ := accepted_bind inner
  obtain ⟨close, le₆, inner⟩ := accepted_expectSymbol inner
  obtain ⟨rfl, rfl⟩ := accepted_pure inner
  have keeps₂ := Nat.le_trans keeps (accepted_length run₃)
  obtain ⟨takes, word, ws, words, first⟩ :=
    known.queryFront run₅ follows.reached.advance
  have spelled : (Form.query E.drift).parens.words inside ++
      (Form.aliased.words aliasName ++ rest) = .ofSymbol .leftParen :: .ofKeyword word ::
        (ws ++ .ofSymbol .rightParen :: (Form.aliased.words aliasName ++ rest)) := by
    simp [Form.parens, words]
  rw [spelled] at follows
  have keeps₃ : E.mode.left ≤ c.advance.advance.advance.ahead.length :=
    Nat.le_trans keeps₂ (Nat.le_trans (by simp) takes)
  obtain ⟨open', follows, -⟩ := follows.symbol open_ (Nat.le_trans keeps₃ (by simp))
  obtain ⟨first', -, -⟩ := follows.keyword first keeps₃
  refine ⟨⟨⟨one', ?_⟩, ?_⟩, ?_⟩
  · rwa [atSymbol_advance] at open'
  · rw [atKeyword_advance] at first first'
    have eq : c.advance.view.second = c.view.third := Cursor.peek_advance 1
    have eq' : c'.advance.view.second = c'.view.third := Cursor.peek_advance 1
    rw [eq] at first
    rw [eq'] at first'
    rw [List.any_eq_true] at three ⊢
    obtain ⟨other, mem, third⟩ := three
    rw [Token.isKeyword_eq, TokenKind.isKeyword_iff] at third first
    obtain rfl : other = word := by
      rw [first] at third
      simpa using third.symm
    exact ⟨other, mem, first'⟩
  · refine Accepts.congr ?_ (run_here_bind ..)
    refine accepts_advance sound ?_
    refine (known.query.parenthesized fun _ _ close _ => queryEnds_of_close close).step run₂ whole
      keeps₂ (safe_singleton.mp safe).2 trivial fun query' c₂' _ same follows => ?_
    refine optionalAlias_again.plain (Form.maybe_bare rfl) run₃ follows keeps
      (by cases aliasName <;> exact safe_nil) (quiet.mono rfl) fun c₃' _ follows => ?_
    exact .of_return ⟨follows, congrArg (ResultColumn.nestedQuery · aliasName .none) same⟩

/-- **Result columns are read again.**

**Proof sketch.** By what was tested for. An asterisk is next again, alone or after its table
(`tableOfStar_again`), and a nested query is read again (`nestedQuery_again`); the tests before it
fail again, because the tokens in front are others. In the last case an expression was read, which
starts as an expression does, so all tests fail again (`run_resultColumn`), and it is read again. -/
lemma resultColumn_again (known : E.Known n) :
    E.Reruns n (.resultColumn E.drift) (E.Quiet resultEnd) (resultColumn E.rules)
      (resultColumn E.again) := by
  intro c c' value c₁ rest run follows keeps safe quiet
  unfold resultColumn at run
  rw [run_view_bind] at run
  split at run
  · next star =>
    obtain ⟨-, le, run⟩ := accepted_advance run
    obtain ⟨rfl, rfl⟩ := accepted_pure run
    have follows : E.Follows n c c' (.ofSymbol .star :: rest) := follows
    obtain ⟨star', -⟩ := follows.symbol star keeps
    unfold resultColumn
    refine Accepts.congr ?_ (run_view_bind ..)
    rw [if_pos star']
    exact follows.advanceSymbol star keeps fun _ follows _ => .of_pure ⟨follows, rfl⟩
  split at run
  · next table =>
    obtain ⟨name, c₂, run₁, -, run⟩ := accepted_bind run
    obtain ⟨rfl, rfl⟩ := accepted_return run
    obtain ⟨table', c₁', run₁', follows⟩ := tableOfStar_again table run₁ follows keeps
    unfold resultColumn
    refine Accepts.congr ?_ (run_view_bind ..)
    rw [if_neg (not_star_of_table table'), if_pos table']
    exact accepts_of_run run₁' (.of_return ⟨follows, rfl⟩)
  split at run
  · next table =>
    obtain ⟨name, c₂, run₁, -, run⟩ := accepted_bind run
    obtain ⟨rfl, rfl⟩ := accepted_return run
    obtain ⟨table', c₁', run₁', follows⟩ := tableOfStar_again table run₁ follows keeps
    unfold resultColumn
    refine Accepts.congr ?_ (run_view_bind ..)
    rw [if_neg (not_star_of_table table'), if_neg (not_otherStar table' (by decide)),
      if_pos table']
    exact accepts_of_run run₁' (.of_return ⟨follows, rfl⟩)
  split at run
  · next nested =>
    rw [run_isDrift_bind] at run
    split at run
    · next drift =>
      obtain ⟨nested', accepts⟩ := nestedQuery_again known nested run follows keeps safe quiet
      unfold resultColumn
      refine Accepts.congr ?_ (run_view_bind ..)
      rw [if_neg (not_star_of_nested nested'), if_neg (not_table_of_nested nested' _),
        if_neg (not_table_of_nested nested' _), if_pos nested']
      refine Accepts.congr ?_ (run_isDrift_bind ..)
      rwa [if_pos drift]
    · exact expressionColumn_again known run follows keeps safe quiet
  · exact expressionColumn_again known run follows keeps safe quiet

/-- Result columns with commas between them are read again. -/
lemma resultColumns_again (known : E.Known n) :
    E.Reruns n (Form.resultColumn E.drift).commas (E.Quiet columnEnd) (resultColumns E.rules)
      (resultColumns E.again) :=
  (resultColumn_again known).commaSeparated known.enough (fun _ _ _ => .front rfl)
    fun _ _ quiet => ⟨quiet.mono rfl, quiet.mono rfl⟩

end Rereading

end SqlTree
