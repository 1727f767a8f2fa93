import SqlTree.Proofs.Reread.Column

set_option autoImplicit false

/-!
# Reading members of queries again

## Main results

* `SqlTree.Rereading.selectClause_again` — queries that compute columns are read again.
* `SqlTree.Rereading.queryCore_again` — members of queries are read again.
-/

namespace SqlTree

/-- Windows with names, after their keyword. -/
def Form.namedWindows (drift : Bool) : Form (List NamedWindow) :=
  (Form.namedWindow drift).commas.after [.ofKeyword .WINDOW]

/-- Rows of values. -/
def Form.row (drift : Bool) : Form (List Expr) :=
  (Form.expr drift).commas.parens

section

open Render

/-- The pieces of a query that computes columns, with its clauses one after the other. -/
lemma SelectClause.pieces_mk (distinct : Bool) (columns : List ResultColumn)
    (source : Option TableRef) (filter : Option Expr) (groupBy : List Expr) (having : Option Expr)
    (windows : List NamedWindow) (span : Span) :
    SelectClause.pieces ⟨distinct, columns, source, filter, groupBy, having, windows, span⟩ =
      .keyword .SELECT :: .blank :: wordsIf distinct [.DISTINCT] ++
      commas (ResultColumn.listPieces columns) ++
      optional source (fun source => .blank :: .keyword .FROM :: .blank :: source.pieces) ++
      whereClause filter ++
      (if groupBy.isEmpty then []
        else .blank :: words [.GROUP, .BY] ++ .blank :: commas (Expr.listPieces groupBy)) ++
      optional having (fun having => .blank :: .keyword .HAVING :: .blank :: having.pieces) ++
      (if windows.isEmpty then []
        else .blank :: .keyword .WINDOW :: .blank :: commas (NamedWindow.listPieces windows)) := by
  cases source <;> cases filter <;> cases having <;> rfl
/-- Forgetting the spans of a `SELECT` forgets those of its parts. -/
lemma SelectClause.unplaced_mk (distinct : Bool) (columns : List ResultColumn)
    (source : Option TableRef) (filter : Option Expr) (groupBy : List Expr) (having : Option Expr)
    (windows : List NamedWindow) (span : Span) :
    SelectClause.unplaced ⟨distinct, columns, source, filter, groupBy, having, windows, span⟩ =
      ⟨distinct, columns.map ResultColumn.unplaced, source.map TableRef.unplaced,
        filter.map Expr.unplaced, groupBy.map Expr.unplaced, having.map Expr.unplaced,
        windows.map NamedWindow.unplaced, .none⟩ := by
  simp [SelectClause.unplaced]

/-- A list that may be left out is mapped like the list it stands for. -/
lemma getD_map {α β : Type} (f : α → β) (list : Option (List α)) :
    (list.map (List.map f)).getD [] = (list.getD []).map f := by
  cases list <;> rfl

end

namespace Rereading

open SqlTree.Parser SqlTree.Grammar

variable {E : Rereading} {n : Nat} {c c' c₁ c₁' : Cursor} {rest : List Word}

/-! ## Windows with names -/

/-- A window with a name is read again. -/
lemma namedWindow_again (known : E.Known n) :
    E.Reruns n (.namedWindow E.drift) (fun _ _ => True) (namedWindow E.rules)
      (namedWindow E.again) := by
  intro c c' value c₁ rest run follows keeps safe _
  unfold namedWindow at run ⊢
  rw [run_here_bind] at run
  obtain ⟨name, c₂, run₁, le₁, run⟩ := accepted_bind run
  obtain ⟨at₂, le₂, run⟩ := accepted_expectKeyword run
  obtain ⟨definition, c₃, run₃, le₃, run⟩ := accepted_bind run
  obtain ⟨rfl, rfl⟩ := accepted_return run
  have follows : E.Follows n c c' (Form.name.words name ++ .ofKeyword .AS ::
      ((Form.window E.drift).words definition ++ rest)) := by
    simpa [Form.namedWindow, NamedWindow.pieces, Form.name, Form.window] using follows
  refine Accepts.congr ?_ (run_here_bind ..)
  refine identifier_again.plain rfl run₁ follows (Nat.le_trans keeps le₁) safe_nil trivial
    fun c₂' _ follows => ?_
  refine follows.expectKeyword at₂ (Nat.le_trans keeps le₂) fun _ follows _ => ?_
  refine (windowDefinition_again known).step run₃ follows keeps (safe_singleton.mp safe).2 trivial
    fun definition' c₃' _ same follows => ?_
  exact .of_return ⟨follows, congrArg (NamedWindow.mk name · .none) same⟩

/-- The named windows of a query are read again. -/
lemma namedWindows_again (known : E.Known n) :
    E.RerunsAt .WINDOW n (.namedWindows E.drift) (E.Quiet [.symbol .comma])
      (namedWindows E.rules) (namedWindows E.again) := by
  intro c c' value c₁ rest at_ run follows keeps safe quiet
  unfold namedWindows at run ⊢
  rw [run_here_bind] at run
  obtain ⟨has, run⟩ := accepted_require run
  obtain ⟨-, le, run⟩ := accepted_advance run
  refine Accepts.congr ?_ (run_here_bind ..)
  refine accepts_require has ?_
  have follows : E.Follows n c c' (.ofKeyword .WINDOW ::
    ((Form.namedWindow E.drift).commas.words value ++ rest)) := follows
  refine follows.advanceKeyword at_ (Nat.le_trans keeps le) fun _ follows _ => ?_
  exact (namedWindow_again known).commaSeparated known.enough (fun _ _ _ => trivial)
    (fun _ _ quiet => ⟨trivial, quiet⟩) run follows keeps safe quiet

/-- The windows of a query take at least their keyword. -/
lemma namedWindows_takes {rules : Rules} {value : List NamedWindow}
    (run : (namedWindows rules).run E.dialect c = .accepted value c₁) :
    c₁.ahead.length ≤ c.advance.ahead.length := by
  unfold namedWindows at run
  rw [run_here_bind] at run
  obtain ⟨-, run⟩ := accepted_require run
  exact (accepted_advance run).2.1

/-- The windows of a query are at least one. -/
lemma namedWindows_yields {rules : Rules} :
    (namedWindows rules).Yields fun windows => windows ≠ [] := by
  unfold namedWindows
  refine .bind fun start => .bind fun _ => .bind fun _ => ?_
  exact commaSeparated_ne_nil _

/-- The named windows of a query are read again if there are any. -/
lemma optionalWindows_again (known : E.Known n) :
    E.Reruns n (Form.namedWindows E.drift).maybe
      (E.Quiet [.symbol .comma, .keyword .WINDOW])
      (whenever (·.atKeyword .WINDOW) (namedWindows E.rules))
      (whenever (·.atKeyword .WINDOW) (namedWindows E.again)) :=
  .whenKeyword (fun _ _ _ _ _ at_ run => namedWindows_again known at_ run) (fun _ => ⟨_, rfl⟩)
    namedWindows_takes
    fun _ _ quiet => ⟨quiet.mono rfl, quiet.mono rfl⟩

/-- The windows of a query take nothing unless `WINDOW` is next. -/
lemma optionalWindows_skips {rules : Rules} :
    Skips E.dialect (Form.namedWindows E.drift).maybe [.keyword .WINDOW]
      (whenever (·.atKeyword .WINDOW) (namedWindows rules)) :=
  .whenever fun _ => ⟨_, _, rfl, by simp⟩

/-! ## Repeated rows -/

/-- Whether rows are distinct was read from `DISTINCT`, from `ALL`, or from nothing. -/
lemma accepted_distinctRows {distinct : Bool}
    (run : distinctRows.run E.dialect c = .accepted distinct c₁) :
    (distinct = true ∧ c.view.atKeyword .DISTINCT = true ∧ c₁ = c.advance) ∨
      (distinct = false ∧ c.view.atKeyword .ALL = true ∧ c₁ = c.advance) ∨
      (distinct = false ∧ c₁ = c) := by
  unfold distinctRows at run
  rw [run_eatKeyword_bind] at run
  split at run
  · next at_ =>
    obtain ⟨rfl, rfl⟩ := accepted_pure run
    exact .inl ⟨rfl, at_, rfl⟩
  · rw [if_neg Bool.false_ne_true, run_eatKeyword_bind] at run
    split at run
    · next at_ =>
      obtain ⟨rfl, rfl⟩ := accepted_pure run
      exact .inr (.inl ⟨rfl, at_, rfl⟩)
    · obtain ⟨rfl, rfl⟩ := accepted_pure run
      exact .inr (.inr ⟨rfl, rfl⟩)

/-- Whether repeated rows are left out is read again, where the keyword that is not written may be
missing. -/
lemma distinctRows_again {distinct : Bool}
    (run : distinctRows.run E.dialect c = .accepted distinct c₁)
    (follows : E.Follows n c c' ((Form.flag [.ofKeyword .DISTINCT]).words distinct ++ rest))
    (keeps : E.mode.left ≤ c₁.ahead.length)
    (other : ∀ {c₁'}, E.Follows n c₁ c₁' rest → ¬ c₁'.view.atKeyword .DISTINCT = true ∧
      ¬ c₁'.view.atKeyword .ALL = true) :
    Accepts E.dialect distinctRows c' fun distinct' c₁' =>
      E.Follows n c₁ c₁' rest ∧ distinct' = distinct := by
  unfold distinctRows
  rcases accepted_distinctRows run with ⟨rfl, at_, rfl⟩ | ⟨rfl, at_, rfl⟩ | ⟨rfl, rfl⟩
  · have follows : E.Follows n c c' (.ofKeyword .DISTINCT :: rest) := follows
    exact follows.eatKeyword at_ keeps fun follows _ => .of_pure ⟨follows, rfl⟩
  · have follows : E.Follows n c c' rest := follows
    by_cases written : E.mode = .written
    · have follows := follows.of_written written follows.reached.advance
      refine skipKeyword (other follows).1 ?_
      rw [if_neg Bool.false_ne_true]
      exact skipKeyword (other follows).2 (.of_pure ⟨follows, rfl⟩)
    · have follows := follows.of_copy written (.ofKeyword .ALL :: rest)
      refine skipKeyword (follows.notKeyword at_ keeps (by decide)) ?_
      rw [if_neg Bool.false_ne_true]
      exact follows.eatKeyword at_ keeps fun follows _ => .of_pure ⟨follows, rfl⟩
  · have follows : E.Follows n c₁ c' rest := follows
    refine skipKeyword (other follows).1 ?_
    rw [if_neg Bool.false_ne_true]
    exact skipKeyword (other follows).2 (.of_pure ⟨follows, rfl⟩)

/-- No result column starts with a keyword that starts no expression. -/
lemma resultColumn_starts {rules : Rules} (sound : rules.Sound E.dialect) {value : ResultColumn}
    {word : Keyword} (run : (resultColumn rules).run E.dialect c = .accepted value c₁)
    (inert : (TokenKind.keyword word).startsExpr = false) : ¬ c.view.atKeyword word = true := by
  intro at_
  have kind := kind_of_atKeyword at_
  have notName : ¬ c.view.atIdentifier = true := by
    intro name
    have name : c.current.kind.isIdentifierLike = true := name
    rw [kind] at name
    simp [TokenKind.startsExpr, name] at inert
  unfold resultColumn at run
  rw [run_view_bind, if_neg (not_atSymbol at_ _), if_neg, if_neg, if_neg] at run
  · unfold expressionColumn at run
    rw [run_here_bind] at run
    obtain ⟨expr, c₂, run, -, -⟩ := accepted_bind run
    exact (sound.expr run).not_keyword inert at_
  · intro nested
    unfold atNestedQuery at nested
    have kind : c.view.current.kind = .keyword word := kind
    simp [kind] at nested
  · intro table
    unfold atTableStar at table
    simp only [Bool.and_eq_true] at table
    exact notName table.1.1
  · intro table
    unfold atTableStar at table
    simp only [Bool.and_eq_true] at table
    exact notName table.1.1

/-- Result columns do not start with a keyword that starts no expression. -/
lemma resultColumns_starts {rules : Rules} (sound : rules.Sound E.dialect)
    {value : List ResultColumn} {word : Keyword}
    (run : (resultColumns rules).run E.dialect c = .accepted value c₁)
    (inert : (TokenKind.keyword word).startsExpr = false) : ¬ c.view.atKeyword word = true := by
  obtain ⟨first, c₂, run, -, -⟩ := accepted_bind run
  exact resultColumn_starts sound run inert

/-! ## Members -/

/-- Groups that may be left out have the words of their form, as a list that is there is not
empty. -/
lemma groupBy_words {groups : Option (List Expr)}
    (nonempty : ∀ list, groups = some list → list ≠ []) :
    Render.wordsOf E.drift (if (groups.getD []).isEmpty then []
        else .blank :: (Render.words [.GROUP, .BY] ++ .blank ::
          Render.commas ((groups.getD []).map Expr.pieces))) =
      ((Form.groups E.drift).after [.ofKeyword .GROUP]).maybe.words groups := by
  cases groups with
  | none => rfl
  | some list =>
    rw [Option.getD_some, if_neg (by simpa using nonempty list rfl), Render.wordsOf_blank,
      Render.wordsOf_append, Render.wordsOf_blank, wordsOf_words, Form.wordsOf_exprs]
    rfl

/-- Windows that may be left out have the words of their form, as a list that is there is not
empty. -/
lemma windows_words {windows : Option (List NamedWindow)}
    (nonempty : ∀ list, windows = some list → list ≠ []) :
    Render.wordsOf E.drift (if (windows.getD []).isEmpty then []
        else .blank :: .keyword .WINDOW :: .blank ::
          Render.commas ((windows.getD []).map NamedWindow.pieces)) =
      (Form.namedWindows E.drift).maybe.words windows := by
  cases windows with
  | none => rfl
  | some list =>
    have listed := Form.wordsOf_commas E.drift (.namedWindow E.drift) NamedWindow.pieces
      (fun _ => rfl) list
    rw [Option.getD_some, if_neg (by simpa using nonempty list rfl), Render.wordsOf_blank,
      Render.wordsOf_keyword, Render.wordsOf_blank, listed]
    rfl

/-- The words of a `SELECT` are those of its clauses, from the keyword to the windows. -/
lemma select_words {distinct : Bool} {columns : List ResultColumn} {source : Option TableRef}
    {filter : Option Expr} {groups : Option (List Expr)} {having : Option Expr}
    {windows : Option (List NamedWindow)} (span : Span)
    (someGroups : ∀ list, groups = some list → list ≠ [])
    (someWindows : ∀ list, windows = some list → list ≠ []) :
    (Form.selectClause E.drift).words ⟨distinct, columns, source, filter, groups.getD [], having,
        windows.getD [], span⟩ ++ rest =
      .ofKeyword .SELECT :: ((Form.flag [.ofKeyword .DISTINCT]).words distinct ++
        ((Form.resultColumn E.drift).commas.words columns ++
        (((Form.tableRef E.drift).after [.ofKeyword .FROM]).maybe.words source ++
        (((Form.expr E.drift).after [.ofKeyword .WHERE]).maybe.words filter ++
        (((Form.groups E.drift).after [.ofKeyword .GROUP]).maybe.words groups ++
        (((Form.expr E.drift).after [.ofKeyword .HAVING]).maybe.words having ++
        ((Form.namedWindows E.drift).maybe.words windows ++ rest))))))) := by
  have listed := Form.wordsOf_resultColumns E.drift columns
  have grouped := groupBy_words (E := E) someGroups
  have named := windows_words (E := E) someWindows
  unfold Form.selectClause
  rw [Form.ofPieces_words, SelectClause.pieces_mk, ResultColumn.listPieces_eq_map,
    Expr.listPieces_eq_map, NamedWindow.listPieces_eq_map]
  simp only [List.cons_append, Render.wordsOf_keyword, Render.wordsOf_blank]
  rw [Render.wordsOf_append, Render.wordsOf_append, Render.wordsOf_append, Render.wordsOf_append,
    Render.wordsOf_append, Render.wordsOf_append, wordsOf_wordsIf, listed, grouped, named]
  simp only [List.append_assoc]
  cases source <;> cases filter <;> cases having <;> rfl

/-- What goes on after the columns of a query that computes them. -/
def afterColumns : List Starter :=
  tableEnd ++ [.keywords .MAPPED .BY, .keyword .FROM, .keyword .WHERE, .keyword .GROUP,
    .keyword .HAVING]

/-- **Queries that compute columns are read again.**

**Proof sketch.** The run and the words are taken apart into the clauses. From the end to the front,
each clause starts with its own keyword, so each one is quiet about those after it. Then each clause
is read again by its own lemma, and the results agree up to spans part by part. In front of the
columns, neither `DISTINCT` nor `ALL` is next again unless it was (`resultColumns_starts`). -/
lemma selectClause_again (known : E.Known n) :
    E.Reruns n (.selectClause E.drift) (E.Quiet coreEnd) (selectClause E.rules)
      (selectClause E.again) := by
  intro c c' value c₁ rest run follows keeps safe quiet
  unfold selectClause at run ⊢
  obtain ⟨at₁, le₁, run⟩ := accepted_expectKeyword run
  obtain ⟨distinct, c₂, run₂, le₂, run⟩ := accepted_bind run
  obtain ⟨columns, c₃, run₃, le₃, run⟩ := accepted_bind run
  obtain ⟨source, c₄, run₄, le₄, run⟩ := accepted_bind run
  obtain ⟨filter, c₅, run₅, le₅, run⟩ := accepted_bind run
  obtain ⟨groups, c₆, run₆, le₆, run⟩ := accepted_bind run
  obtain ⟨having, c₇, run₇, le₇, run⟩ := accepted_bind run
  obtain ⟨windows, c₈, run₈, le₈, run⟩ := accepted_bind run
  obtain ⟨rfl, rfl⟩ := accepted_return run
  rw [select_words _ (fun _ eq => Yields.afterKeyword groups_yields run₆ _ eq)
    (fun _ eq => Yields.whenever namedWindows_yields run₈ _ eq)] at follows
  have below : E.Safe (Node.each Node.resultColumn columns ++ Node.maybe Node.tableRef source ++
    Node.maybe Node.expr filter ++ Node.each Node.expr (groups.getD []) ++
    Node.maybe Node.expr having ++ Node.each Node.namedWindow (windows.getD [])) :=
    (safe_singleton.mp safe).2
  simp only [safe_append, each_eq, maybe_eq] at below
  obtain ⟨⟨⟨⟨⟨safe₃, safe₄⟩, safe₅⟩, safe₆⟩, safe₇⟩, safe₈⟩ := below
  -- from the end to the front: each clause is quiet before the clauses after it
  have quiet₇ : E.Quiet afterColumns c₇ _ := optionalWindows_skips.quiet run₈ rfl (quiet.mono rfl)
  have quiet₆ : E.Quiet (afterColumns.erase (.keyword .HAVING)) c₆ _ :=
    Skips.quiet (.afterKeyword (Form.expr E.drift) _ _) run₇ rfl (quiet₇.mono rfl)
  have quiet₅ : E.Quiet ((afterColumns.erase (.keyword .HAVING)).erase (.keyword .GROUP)) c₅ _ :=
    Skips.quiet (.afterKeyword (Form.groups E.drift) _ _) run₆ rfl (quiet₆.mono rfl)
  have quiet₄ : E.Quiet (tableEnd ++ [.keywords .MAPPED .BY, .keyword .FROM]) c₄ _ :=
    Skips.quiet (.afterKeyword (Form.expr E.drift) _ _) run₅ rfl (quiet₅.mono rfl)
  have quiet₃ : E.Quiet columnEnd c₃ _ :=
    Skips.quiet (.afterKeyword (Form.tableRef E.drift) _ _) run₄ rfl (quiet₄.mono rfl)
  refine follows.expectKeyword at₁ (Nat.le_trans keeps le₁) fun _ follows _ => ?_
  refine (distinctRows_again run₂ follows (Nat.le_trans keeps le₂) fun follows => ?_).bind ?_
  · obtain ⟨columns', c₃', run', -⟩ := resultColumns_again known run₃ follows
      (Nat.le_trans keeps le₃) safe₃ quiet₃
    exact ⟨resultColumns_starts known.sound' run' rfl, resultColumns_starts known.sound' run' rfl⟩
  rintro _ c₂' - ⟨follows₂, rfl⟩
  refine (resultColumns_again known).step run₃ follows₂ (Nat.le_trans keeps le₃) safe₃ quiet₃
    fun columns' c₃' _ same₃ follows => ?_
  refine (known.tableRef.afterKeyword fun _ _ quiet => ⟨quiet.mono rfl, quiet.mono rfl⟩).step
    run₄ follows (Nat.le_trans keeps le₄) (by cases source <;> exact safe₄) quiet₄
    fun source' c₄' _ same₄ follows => ?_
  refine (known.expr.afterKeyword fun _ _ quiet => ⟨quiet.mono rfl, quiet.mono rfl⟩).step
    run₅ follows (Nat.le_trans keeps le₅) (by cases filter <;> exact safe₅) quiet₅
    fun filter' c₅' _ same₅ follows => ?_
  refine (groups_again known .GROUP).step run₆ follows (Nat.le_trans keeps le₆)
    (by cases groups <;> exact safe₆) (quiet₆.mono rfl) fun groups' c₆' _ same₆ follows => ?_
  refine (known.expr.afterKeyword fun _ _ quiet => ⟨quiet.mono rfl, quiet.mono rfl⟩).step
    run₇ follows (Nat.le_trans keeps le₇) (by cases having <;> exact safe₇) quiet₇
    fun having' c₇' _ same₇ follows => ?_
  refine (optionalWindows_again known).step run₈ follows keeps (by cases windows <;> exact safe₈)
    (quiet.mono rfl) fun windows' c₈' _ same₈ follows => ?_
  refine .of_return ⟨follows, ?_⟩
  have parts₆ : (groups'.getD []).map Expr.unplaced = (groups.getD []).map Expr.unplaced := by
    rw [← getD_map, ← getD_map]
    exact congrArg (Option.getD · []) same₆
  have parts₈ : (windows'.getD []).map NamedWindow.unplaced =
      (windows.getD []).map NamedWindow.unplaced := by
    rw [← getD_map, ← getD_map]
    exact congrArg (Option.getD · []) same₈
  have same₃ : columns'.map ResultColumn.unplaced = columns.map ResultColumn.unplaced := same₃
  have same₄ : source'.map TableRef.unplaced = source.map TableRef.unplaced := same₄
  have same₅ : filter'.map Expr.unplaced = filter.map Expr.unplaced := same₅
  have same₇ : having'.map Expr.unplaced = having.map Expr.unplaced := same₇
  simp only [Form.selectClause, Form.ofPieces_bare, SelectClause.unplaced_mk, parts₆, parts₈,
    same₃, same₄, same₅, same₇]

/-! ## Lists of rows -/

/-- The words of rows of values are `VALUES` and the rows. -/
lemma values_words (rows : List (List Expr)) (span : Span) :
    (Form.valuesClause E.drift).words ⟨rows, span⟩ =
      .ofKeyword .VALUES :: (Form.row E.drift).commas.words rows := by
  have listed := Form.wordsOf_commas E.drift (Form.row E.drift)
    (fun row => Render.parens (Render.commas (row.map Expr.pieces)))
    (fun row => by
      simp [Form.row, Form.parens, Render.parens, Form.wordsOf_exprs]) rows
  simp [Form.valuesClause, ValuesClause.pieces, listed]

/-- **Queries that list their rows are read again.** -/
lemma valuesClause_again (known : E.Known n) :
    E.Reruns n (.valuesClause E.drift) (E.Quiet [.symbol .comma]) (valuesClause E.rules)
      (valuesClause E.again) := by
  intro c c' value c₁ rest run follows keeps safe quiet
  unfold valuesClause at run ⊢
  obtain ⟨at₁, le₁, run⟩ := accepted_expectKeyword run
  obtain ⟨rows, c₂, run₂, le₂, run⟩ := accepted_bind run
  obtain ⟨rfl, rfl⟩ := accepted_return run
  rw [values_words] at follows
  have row : E.Reruns n (.row E.drift) (fun _ _ => True) (parenthesized E.rules.exprs)
      (parenthesized E.again.exprs) :=
    known.exprs.parenthesized fun _ _ _ _ => .front rfl
  refine follows.expectKeyword at₁ (Nat.le_trans keeps le₁) fun _ follows _ => ?_
  have below : E.Safe (rows.flatMap fun row => Node.each Node.expr row) :=
    (safe_singleton.mp safe).2
  simp only [each_eq] at below
  refine (row.commaSeparated known.enough (fun _ _ _ => trivial)
    fun _ _ quiet => ⟨trivial, quiet⟩).step run₂ follows keeps below quiet
    fun rows' c₂' _ same follows => ?_
  refine .of_return ⟨follows, ?_⟩
  have same : rows'.map (List.map Expr.unplaced) = rows.map (List.map Expr.unplaced) := same
  simp [Form.valuesClause, ValuesClause.unplaced, same]

/-! ## Members of either kind -/

/-- A member of a query was read from a `SELECT` or from rows of values, by its keyword. -/
lemma accepted_queryCore {rules : Rules} {value : QueryCore}
    (run : (queryCore rules).run E.dialect c = .accepted value c₁) :
    (∃ clause, value = .select clause ∧ c.view.atKeyword .SELECT = true ∧
        (selectClause rules).run E.dialect c = .accepted clause c₁) ∨
      ∃ clause, value = .values clause ∧ c.view.atKeyword .VALUES = true ∧
        (valuesClause rules).run E.dialect c = .accepted clause c₁ := by
  unfold queryCore at run
  rw [run_current_bind] at run
  split at run
  · next kind =>
    obtain ⟨clause, c₂, inner, -, run⟩ := accepted_bind run
    obtain ⟨rfl, rfl⟩ := accepted_pure run
    exact .inl ⟨clause, rfl, atKeyword_of_kind kind, inner⟩
  · next kind =>
    obtain ⟨clause, c₂, inner, -, run⟩ := accepted_bind run
    obtain ⟨rfl, rfl⟩ := accepted_pure run
    exact .inr ⟨clause, rfl, atKeyword_of_kind kind, inner⟩
  · exact absurd run not_accepted_unexpected

/-- At `SELECT` a `SELECT` is read. -/
lemma run_queryCore_select {dialect : Dialect} {rules : Rules}
    (at_ : c.view.atKeyword .SELECT = true) :
    (queryCore rules).run dialect c =
      (do return .select (← selectClause rules) : Parser QueryCore).run dialect c := by
  unfold queryCore
  rw [run_current_bind]
  simp only [kind_of_atKeyword at_]

/-- At `VALUES` rows of values are read. -/
lemma run_queryCore_values {dialect : Dialect} {rules : Rules}
    (at_ : c.view.atKeyword .VALUES = true) :
    (queryCore rules).run dialect c =
      (do return .values (← valuesClause rules) : Parser QueryCore).run dialect c := by
  unfold queryCore
  rw [run_current_bind]
  simp only [kind_of_atKeyword at_]

/-- A `SELECT` starts with its keyword. -/
lemma selectClause_front (clause : SelectClause) :
    ∃ ws, (Form.selectClause E.drift).words clause = .ofKeyword .SELECT :: ws := by
  obtain ⟨distinct, columns, source, filter, groups, having, windows, span⟩ := clause
  unfold Form.selectClause
  rw [Form.ofPieces_words, SelectClause.pieces_mk]
  exact ⟨_, rfl⟩

/-- Rows of values start with `VALUES`. -/
lemma valuesClause_front (clause : ValuesClause) :
    ∃ ws, (Form.valuesClause E.drift).words clause = .ofKeyword .VALUES :: ws := by
  obtain ⟨rows, span⟩ := clause
  exact ⟨_, values_words rows span⟩

/-- **Members of queries are read again.** -/
lemma queryCore_again (known : E.Known n) :
    E.Reruns n (.queryCore E.drift) (E.Quiet coreEnd) (queryCore E.rules) (queryCore E.again) := by
  intro c c' value c₁ rest run follows keeps safe quiet
  rcases accepted_queryCore run with ⟨clause, rfl, at_, run⟩ | ⟨clause, rfl, at_, run⟩
  · obtain ⟨-, takes, -⟩ := accepted_expectKeyword run
    have follows : E.Follows n c c' ((Form.selectClause E.drift).words clause ++ rest) := follows
    have at' := (follows.front_keyword (selectClause_front clause) at_
      (Nat.le_trans keeps takes)).1
    refine Accepts.congr ?_ (run_queryCore_select at')
    refine (selectClause_again known).step run follows keeps safe quiet
      fun clause' c₁' _ same follows => ?_
    exact .of_pure ⟨follows, congrArg QueryCore.select same⟩
  · obtain ⟨-, takes, -⟩ := accepted_expectKeyword run
    have follows : E.Follows n c c' ((Form.valuesClause E.drift).words clause ++ rest) := follows
    have at' := (follows.front_keyword (valuesClause_front clause) at_
      (Nat.le_trans keeps takes)).1
    refine Accepts.congr ?_ (run_queryCore_values at')
    refine (valuesClause_again known).step run follows keeps safe (quiet.mono rfl)
      fun clause' c₁' _ same follows => ?_
    exact .of_pure ⟨follows, congrArg QueryCore.values same⟩

end Rereading

end SqlTree
