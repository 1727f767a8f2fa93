import SqlTree.Proofs.Reread.Query

set_option autoImplicit false

/-!
# Reading statements that change rows again

A statement ends at a semicolon or at the end of input, where nothing goes on with any of its parts.

## Main definitions

* `SqlTree.Rereading.EndsAt`, `SqlTree.Rereading.EndsStatement` — where a part or a statement has to
  end.

## Main results

* `SqlTree.Rereading.insert_again`, `SqlTree.Rereading.update_again`,
  `SqlTree.Rereading.delete_again` — the three kinds of changes are read again.
* `SqlTree.Rereading.dataStatement_again` — statements that read or change rows are read again.
-/

namespace SqlTree

namespace Form

/-- How conflicts are resolved. -/
abbrev conflict : Form Conflict :=
  Form.choice fun conflict : Conflict => [conflict.keyword]

/-- What an insertion does about rows that are there already. -/
abbrev insertMode : Form InsertMode :=
  Form.choice fun
    | .insert => [.INSERT]
    | .replace => [.REPLACE]
    | .insertOr conflict => [.INSERT, .OR, conflict.keyword]

variable (drift : Bool)

/-- A column of an index. -/
def indexedColumn : Form IndexedColumn :=
  ofPieces drift IndexedColumn.pieces (fun column => [.indexedColumn column])
    IndexedColumn.unplaced

/-- New values for columns. -/
def assignment : Form Assignment :=
  ofPieces drift Assignment.pieces (fun assignment => [.assignment assignment])
    Assignment.unplaced

/-- The words of a list of assignments are those of its parts, with commas between them. -/
lemma wordsOf_assignments (parts : List Assignment) :
    Render.wordsOf drift (Render.commas (parts.map Assignment.pieces)) =
      (assignment drift).commas.words parts :=
  wordsOf_commas drift (assignment drift) Assignment.pieces (fun _ => rfl) parts

/-- The columns that a change returns. -/
def returning : Form Returning :=
  ofPieces drift Returning.pieces (fun returning => [.returning returning]) Returning.unplaced

/-- The source of an insertion. -/
def insertSource : Form InsertSource :=
  ofPieces drift InsertSource.pieces Node.ofInsertSource InsertSource.unplaced

/-- The target of a conflict. -/
def conflictTarget : Form ConflictTarget :=
  ofPieces drift ConflictTarget.pieces (fun target => [.conflictTarget target])
    ConflictTarget.unplaced

/-- What is done with a row that conflicts. -/
def upsertAction : Form UpsertAction :=
  ofPieces drift UpsertAction.pieces Node.ofUpsertAction UpsertAction.unplaced

/-- A conflict clause. -/
def upsert : Form Upsert :=
  ofPieces drift Upsert.pieces (fun upsert => [.upsert upsert]) Upsert.unplaced

/-- A statement that reads or changes rows. -/
def dataStatement : Form DataStatement :=
  ofPieces drift DataStatement.pieces (fun statement => [statement.node]) DataStatement.unplaced

end Form

namespace Rereading

open SqlTree.Parser SqlTree.Grammar

variable {E : Rereading} {n : Nat} {c c' c₁ c₁' : Cursor} {rest : List Word}

/-! ## Ends of statements -/

/-- The token is one of these symbols, or the end of input. -/
def endsAt (marks : List Symbol) (kind : TokenKind) : Bool :=
  match kind with
  | .symbol which => marks.contains which
  | .endOfInput => true
  | _ => false

variable (E) in
/-- One of these symbols is next, in both sources, or nothing. -/
structure EndsAt (marks : List Symbol) (cursor : Cursor) (rest : List Word) : Prop where
  here : endsAt marks cursor.current.kind = true
  written : E.mode = .written → endsAt marks (Word.kindAt rest 0) = true

variable (E) in
/-- A statement may end here: a semicolon is next, or nothing. -/
abbrev EndsStatement (cursor : Cursor) (rest : List Word) : Prop :=
  E.EndsAt [.semicolon] cursor rest

namespace EndsAt

variable {marks : List Symbol}

/-- A kind of token that may end some part is one of its marks, or the end of input. -/
lemma cases_kind {kind : TokenKind} (ends : endsAt marks kind = true) :
    (∃ which ∈ marks, kind = .symbol which) ∨ kind = .endOfInput := by
  unfold endsAt at ends
  split at ends
  · exact .inl ⟨_, by simpa using ends, rfl⟩
  · exact .inr rfl
  · exact absurd ends Bool.false_ne_true

/-- Where a part has to end, nothing goes on that does not start with one of the symbols. -/
lemma quiet {starters : List Starter} (ends : E.EndsAt marks c rest)
    (inert : marks.all (fun which =>
      starters.all fun starter => !starter.first (.symbol which)) = true) :
    E.Quiet starters c rest := by
  refine .of_written fun written starter mem => ?_
  rcases cases_kind (ends.written written) with ⟨which, listed, kind⟩ | kind
  · have inert := List.all_eq_true.mp (List.all_eq_true.mp inert which listed) starter mem
    rw [kind]
    exact Starter.carries_of_first (by simpa using inert)
  · rw [kind]
    exact starter.carries_end _ _ _

/-- No operator follows a part that is ended by marks of which none starts one. -/
lemma done (ends : E.EndsAt marks c rest)
    (inert : marks.all (fun which =>
      (Starter.power :: exprEnd).all fun starter => !starter.first (.symbol which)) = true) :
    Done c := by
  unfold Done
  rcases cases_kind ends.here with ⟨which, listed, kind⟩ | kind
  · rw [kind]
    exact List.all_eq_true.mp inert which listed
  · rw [kind]
    rfl

/-- Where a part has to end, it has to end in the second source too. -/
lemma again (ends : E.EndsAt marks c rest) (follows : E.Follows n c c' rest) :
    endsAt marks c'.current.kind = true := by
  change endsAt marks (c'.peek 0).kind = true
  rw [follows.peek]
  cases mode : E.mode with
  | written =>
    rw [plan_written mode]
    exact ends.written mode
  | copy left =>
    rw [kindAt_plan_copy mode]
    split
    · exact ends.here
    · rfl

/-- No keyword is among the marks, so what ends a part by them is no keyword. -/
lemma not_keyword {kind : TokenKind} (ends : endsAt marks kind = true) (word : Keyword) :
    kind ≠ .keyword word := by
  rintro rfl
  exact absurd ends Bool.false_ne_true

end EndsAt

/-! ## Parts of several statements -/

/-- A condition on rows is read again. -/
lemma filter_again (known : E.Known n) :
    E.Reruns n ((Form.expr E.drift).after [.ofKeyword .WHERE]).maybe
      (E.Quiet (.keyword .WHERE :: exprEnd)) (afterKeyword .WHERE E.rules.expr)
      (afterKeyword .WHERE E.again.expr) :=
  known.expr.afterKeyword fun _ _ quiet => ⟨quiet.mono rfl, quiet.mono rfl⟩

/-- The condition after `WHERE` takes nothing unless the keyword is next. -/
lemma filter_skips {rules : Rules} :
    Skips E.dialect ((Form.expr E.drift).after [.ofKeyword .WHERE]).maybe [.keyword .WHERE]
      (afterKeyword .WHERE rules.expr) :=
  .afterKeyword _ _ _

/-- What goes on with a column of an index. -/
def indexedEnd : List Starter :=
  exprEnd ++ [.keyword .ASC, .keyword .DESC]

/-- The word of a resolution of conflicts stands for it. -/
lemma conflict?_keyword (resolution : Conflict) :
    conflict? (.keyword resolution.keyword) = some resolution := by
  cases resolution <;> rfl

/-- A way to resolve conflicts is looked up by its keyword. -/
lemma kind_of_conflict {kind : TokenKind} {resolution : Conflict}
    (eq : conflict? kind = some resolution) : kind = .keyword resolution.keyword := by
  unfold conflict? at eq
  split at eq <;> first | (obtain rfl := Option.some.inj eq; rfl) | exact absurd eq (by simp)

/-- A resolution of conflicts is read again. -/
lemma conflict_again : E.Reruns n .conflict (fun _ _ => True) conflict conflict := by
  intro c c' value c₁ rest run follows keeps _ _
  unfold conflict at run ⊢
  rw [run_current_bind] at run
  split at run
  · next resolution found =>
    obtain ⟨-, -, run⟩ := accepted_advance run
    obtain ⟨rfl, rfl⟩ := accepted_pure run
    have kind := kind_of_conflict found
    have follows : E.Follows n c c' (.ofKeyword resolution.keyword :: rest) := follows
    obtain ⟨at', next, -⟩ := follows.keyword (atKeyword_of_kind kind) keeps
    refine Accepts.congr ?_ (run_current_bind ..)
    rw [kind_of_atKeyword at', conflict?_keyword]
    exact accepts_advance (sound_of_atKeyword at') (.of_pure ⟨next, rfl⟩)
  · exact absurd run not_accepted_unexpected

/-- A column of an index is read again. -/
lemma indexedColumn_again (known : E.Known n) :
    E.Reruns n (.indexedColumn E.drift) (E.Quiet indexedEnd) (indexedColumn E.rules)
      (indexedColumn E.again) := by
  intro c c' value c₁ rest run follows keeps safe quiet
  unfold indexedColumn at run ⊢
  obtain ⟨expr, c₂, run₁, le₁, run⟩ := accepted_bind run
  obtain ⟨dir, c₃, run₂, le₂, run⟩ := accepted_bind run
  obtain ⟨rfl, rfl⟩ := accepted_return run
  simp only [Form.indexedColumn, Form.ofPieces_words, IndexedColumn.pieces, Render.wordsOf_append,
    wordsOf_suffix_map, List.append_assoc] at follows
  refine known.expr.step run₁ follows (Nat.le_trans keeps le₁) (safe_singleton.mp safe).2
    (direction_skips.quiet run₂ rfl (quiet.mono rfl))
    fun expr' c₂' _ (same : expr'.unplaced = expr.unplaced) follows => ?_
  refine direction_again.plain (choice_maybe_bare _) run₂ follows keeps (safe_maybe_choice _)
    (quiet.mono rfl) fun c₃' _ follows => ?_
  exact .of_return ⟨follows, congrArg (IndexedColumn.mk · dir .none) same⟩

/-- The words of indexed columns in parentheses are those of their form. -/
lemma wordsOf_indexedColumns (drift : Bool) (columns : List IndexedColumn) :
    Render.wordsOf drift (Render.parens (Render.commas (columns.map IndexedColumn.pieces))) =
      (Form.indexedColumn drift).commas.parens.words columns := by
  rw [wordsOf_parens, Form.wordsOf_commas drift (Form.indexedColumn drift) _ (fun _ => rfl)]
  rfl

/-- Columns of an index in parentheses are read again. -/
lemma indexedColumns_again (known : E.Known n) :
    E.Reruns n (Form.indexedColumn E.drift).commas.parens (fun _ _ => True)
      (parenthesized (indexedColumns E.rules)) (parenthesized (indexedColumns E.again)) :=
  have list : E.Reruns n (Form.indexedColumn E.drift).commas
      (E.Quiet (.symbol .comma :: indexedEnd)) (indexedColumns E.rules) (indexedColumns E.again) :=
    (indexedColumn_again known).commaSeparated known.enough (fun _ _ _ => .front rfl)
      fun _ _ quiet => ⟨quiet.mono rfl, quiet.mono rfl⟩
  list.parenthesized fun _ _ _ _ => .front rfl

/-- The columns that a value is assigned to: one name, or names in parentheses. -/
def assignedWords (drift : Bool) (columns : List String) : List Word :=
  Render.wordsOf drift
    (match columns with
      | [column] => [.name column]
      | columns => Render.parens (Render.names columns))

/-- The words of an assignment are those of its columns, an equals sign and those of its value. -/
lemma assignment_words (columns : List String) (value : Expr) (span : Span) :
    (Form.assignment E.drift).words ⟨columns, value, span⟩ =
      assignedWords E.drift columns ++ (.ofSymbol .eq :: (Form.expr E.drift).words value) := by
  unfold Form.assignment
  rw [Form.ofPieces_words]
  unfold Assignment.pieces
  rw [Render.wordsOf_append]
  rfl

/-- The value that is assigned to columns, after them. -/
def assignValue (rules : Rules) (start : Span) (columns : List String) : Parser Assignment := do
  let _ ← expectSymbol .eq
  let value ← rules.expr
  return ⟨columns, value, ← spanFrom start⟩

/-- An assignment reads its columns, and then goes on in the same way whether they are in
parentheses or not. -/
lemma assignment_eq (rules : Rules) :
    assignment rules = (do
      let start ← here
      if ← sees (·.atSymbol .leftParen) then
        assignValue rules start (← rules.columnNames)
      else
        assignValue rules start [← identifier]) := rfl

/-- The columns of an assignment are those that were read. -/
lemma assignValue_columns {rules : Rules} {start : Span} {columns : List String} :
    (assignValue rules start columns).Yields (·.columns = columns) := by
  unfold assignValue
  refine .bind fun _ => .bind fun value => ?_
  exact .bind fun span => .of_pure rfl

/-- The value of an assignment is read again. -/
lemma assignValue_again (known : E.Known n) {start start' : Span} {columns : List String}
    {value : Assignment}
    (run : (assignValue E.rules start columns).run E.dialect c = .accepted value c₁)
    (follows : E.Follows n c c'
      (.ofSymbol .eq :: ((Form.expr E.drift).words value.value ++ rest)))
    (keeps : E.mode.left ≤ c₁.ahead.length) (safe : E.Safe [.assignment value])
    (quiet : E.Quiet exprEnd c₁ rest) :
    Accepts E.dialect (assignValue E.again start' columns) c' fun value' c₁' =>
      E.Follows n c₁ c₁' rest ∧ value'.unplaced = value.unplaced := by
  unfold assignValue at run ⊢
  obtain ⟨at_, le₁, run⟩ := accepted_expectSymbol run
  obtain ⟨expr, c₂, run₁, le₂, run⟩ := accepted_bind run
  obtain ⟨rfl, rfl⟩ := accepted_return run
  refine follows.expectSymbol at_ (Nat.le_trans keeps le₁) fun _ follows _ => ?_
  refine known.expr.step run₁ follows keeps (safe_singleton.mp safe).2 quiet
    fun expr' c₂' _ same follows => ?_
  exact .of_return ⟨follows, congrArg (Assignment.mk columns · .none) same⟩

/-- Where a name follows that is written, no symbol is next. -/
lemma Follows.not_symbol_of_name {name : String} {which : Symbol}
    (follows : E.Follows n c c' (.ofName name :: rest)) (written : E.mode = .written) :
    ¬ c'.view.atSymbol which = true := by
  intro at'
  have kind := (kind_of_atSymbol at').symm.trans (follows.spelled written).1
  exact absurd kind (by simp [Word.ofName])

/-- Names in parentheses are read with the keyword or symbol in front that they are written
with. -/
lemma columnNames_takes {rules : Rules} {names : List String}
    (run : rules.columnNames.run E.dialect c = .accepted names c₁) :
    names ≠ [] ∧ c.view.atSymbol .leftParen = true ∧
      c₁.ahead.length ≤ c.advance.ahead.length := by
  unfold Rules.columnNames parenthesized at run
  obtain ⟨at_, le, run⟩ := accepted_expectSymbol run
  obtain ⟨found, c₂, list, -, run⟩ := accepted_bind run
  obtain ⟨-, -, run⟩ := accepted_expectSymbol run
  obtain ⟨rfl, rfl⟩ := accepted_pure run
  exact ⟨commaSeparated_ne_nil _ list, at_, le⟩

/-- Columns in parentheses are read again, in parentheses or as the one name that they are.

**Proof sketch.** When a tree is written out, one column is written without parentheses, so it is
read again as a name. In every other case, in a written text as in a copy, the columns stand in
parentheses, which are next again where they were next before, and the list in them is read again
(`columnNames_again`). -/
lemma assigned_again (known : E.Known n) {columns : List String} {c₂ : Cursor} {β : Type}
    {post : β → Cursor → Prop} {next : List String → Parser β}
    (run : E.rules.columnNames.run E.dialect c = .accepted columns c₂)
    (follows : E.Follows n c c' (assignedWords E.drift columns ++ rest))
    (keeps : E.mode.left ≤ c₂.ahead.length)
    (accepts : ∀ c₂', E.Follows n c₂ c₂' rest → Accepts E.dialect (next columns) c₂' post) :
    Accepts E.dialect (do
      if ← sees (·.atSymbol .leftParen) then next (← E.again.columnNames)
      else next [← identifier]) c' post := by
  obtain ⟨nonempty, at_, takes⟩ := columnNames_takes run
  refine Accepts.congr ?_ (run_sees_bind ..)
  by_cases lone : E.mode = .written ∧ ∃ column, columns = [column]
  · -- one name is written without parentheses
    obtain ⟨written, column, rfl⟩ := lone
    have follows : E.Follows n c c' (.ofName column :: rest) := follows
    rw [if_neg (follows.not_symbol_of_name written)]
    obtain ⟨kind, -, follows, -⟩ := follows.spelled written
    have at' : c'.view.atIdentifier = true := by
      change c'.current.kind.isIdentifierLike = true
      rw [kind]
      rfl
    have named : nameOf c'.current = column := by rw [nameOf, kind]; rfl
    refine accepts_of_run (run_identifier at') ?_
    rw [named]
    exact accepts _ (follows.of_written written (accepted_reachable run follows.reached))
  · have follows : E.Follows n c c' (Form.name.commas.parens.words columns ++ rest) := by
      by_cases written : E.mode = .written
      · have spelled : assignedWords E.drift columns = Form.name.commas.parens.words columns := by
          unfold assignedWords
          split
          · next column => exact absurd ⟨written, column, rfl⟩ lone
          · rw [wordsOf_parens, wordsOf_names]
            rfl
        rwa [spelled] at follows
      · exact follows.of_copy written _
    have at' : c'.view.atSymbol .leftParen = true := by
      have follows : E.Follows n c c' (.ofSymbol .leftParen :: (Form.name.commas.words columns ++
        .ofSymbol .rightParen :: rest)) := by simpa [Form.parens] using follows
      exact (follows.symbol at_ (Nat.le_trans keeps takes)).1
    rw [if_pos at']
    exact (columnNames_again known.enough).plain (Form.commas_bare rfl) run follows keeps
      (safe_names columns) trivial fun c₂' _ follows => accepts c₂' follows

/-- A new value for columns is read again.

**Proof sketch.** By how the columns were read. If it was in parentheses, `assigned_again` leads to
the value. If it was as one name, then a name is next again, which is no parenthesis. The value is
read again in both cases (`assignValue_again`). -/
lemma assignment_again (known : E.Known n) :
    E.Reruns n (.assignment E.drift) (E.Quiet exprEnd) (assignment E.rules)
      (assignment E.again) := by
  intro c c' value c₁ rest run follows keeps safe quiet
  obtain ⟨columns, expr, span⟩ := value
  rw [assignment_words, List.append_assoc] at follows
  rw [assignment_eq] at run ⊢
  rw [run_here_bind, run_sees_bind] at run
  refine Accepts.congr ?_ (run_here_bind ..)
  split at run
  · obtain ⟨found, c₂, run₁, le, run⟩ := accepted_bind run
    obtain rfl : columns = found := assignValue_columns run
    refine assigned_again known run₁ follows (Nat.le_trans keeps le) fun c₂' follows => ?_
    exact assignValue_again known run follows keeps safe quiet
  · next not =>
    obtain ⟨name, c₂, run₁, le, run⟩ := accepted_bind run
    obtain rfl : columns = [name] := assignValue_columns run
    have follows : E.Follows n c c' (Form.name.words name ++ _) := follows
    have notParen : ¬ c'.view.atSymbol .leftParen = true := by
      intro at'
      obtain ⟨at_, rfl, rfl⟩ := accepted_identifier run₁
      obtain ⟨named, -⟩ := follows.name at_ (Nat.le_trans keeps le)
      have named : c'.current.kind.isIdentifierLike = true := named
      rw [kind_of_atSymbol at'] at named
      exact absurd named Bool.false_ne_true
    refine Accepts.congr ?_ (run_sees_bind ..)
    rw [if_neg notParen]
    refine identifier_again.plain rfl run₁ follows (Nat.le_trans keeps le) safe_nil trivial
      fun c₂' _ follows => ?_
    exact assignValue_again known run follows keeps safe quiet

/-- New values for columns are read again. -/
lemma assignments_again (known : E.Known n) :
    E.Reruns n (Form.assignment E.drift).commas (E.Quiet (.symbol .comma :: exprEnd))
      (assignments E.rules) (assignments E.again) :=
  (assignment_again known).commaSeparated known.enough (fun _ _ _ => .front rfl)
    fun _ _ quiet => ⟨quiet.mono rfl, quiet.mono rfl⟩

/-! ## Returned columns -/

/-- The words of `RETURNING` are the keyword and those of the columns. -/
lemma returning_words (columns : List ResultColumn) (span : Span) :
    (Form.returning E.drift).words ⟨columns, span⟩ =
      .ofKeyword .RETURNING :: (Form.resultColumn E.drift).commas.words columns := by
  unfold Form.returning
  rw [Form.ofPieces_words, Returning.pieces, Render.wordsOf_keyword, Render.wordsOf_blank,
    Form.wordsOf_resultColumns]

/-- The words of `RETURNING` start with its keyword. -/
lemma returning_front (value : Returning) :
    ∃ ws, (Form.returning E.drift).words value = .ofKeyword .RETURNING :: ws := by
  obtain ⟨columns, span⟩ := value
  exact ⟨_, returning_words columns span⟩

/-- `RETURNING` takes its keyword. -/
lemma returning_takes {rules : Rules} {value : Returning}
    (run : (returning rules).run E.dialect c = .accepted value c₁) :
    c₁.ahead.length ≤ c.advance.ahead.length := by
  unfold returning at run
  rw [run_here_bind] at run
  obtain ⟨-, run⟩ := accepted_require run
  exact (accepted_advance run).2.1

/-- The columns that a change returns are read again. -/
lemma returning_again (known : E.Known n) :
    E.RerunsAt .RETURNING n (.returning E.drift) (E.Quiet columnEnd) (returning E.rules)
      (returning E.again) := by
  intro c c' value c₁ rest at_ run follows keeps safe quiet
  unfold returning at run ⊢
  rw [run_here_bind] at run
  obtain ⟨has, run⟩ := accepted_require run
  obtain ⟨-, le, run⟩ := accepted_advance run
  obtain ⟨columns, c₂, run₁, le₁, run⟩ := accepted_bind run
  obtain ⟨rfl, rfl⟩ := accepted_return run
  rw [returning_words] at follows
  have below : E.Safe (Node.each Node.resultColumn columns) := (safe_singleton.mp safe).2
  rw [each_eq] at below
  refine Accepts.congr ?_ (run_here_bind ..)
  refine accepts_require has ?_
  refine follows.advanceKeyword at_ (Nat.le_trans keeps le) fun _ follows _ => ?_
  refine (resultColumns_again known).step run₁ follows keeps below quiet
    fun columns' c₂' _ (same : columns'.map ResultColumn.unplaced =
      columns.map ResultColumn.unplaced) follows => ?_
  exact .of_return ⟨follows, congrArg (Returning.mk · .none) same⟩

/-- `RETURNING` that may be left out is read again. -/
lemma optionalReturning_again (known : E.Known n) :
    E.Reruns n (Form.returning E.drift).maybe E.EndsStatement (optionalReturning E.rules)
      (optionalReturning E.again) :=
  .whenKeyword (returning_again known) returning_front returning_takes
    fun _ _ ends => ⟨ends.quiet rfl, ends.quiet rfl⟩

/-- `RETURNING` takes nothing unless its keyword is next. -/
lemma optionalReturning_skips {rules : Rules} :
    Skips E.dialect (Form.returning E.drift).maybe [.keyword .RETURNING]
      (optionalReturning rules) :=
  .whenever fun value => by
    obtain ⟨ws, eq⟩ := returning_front (E := E) value
    exact ⟨_, ws, eq, by simp⟩

/-- Before the columns that a change returns, nothing goes on with an expression. -/
lemma optionalReturning_ends {rules : Rules} {value : Option Returning} {starters : List Starter}
    (run : (optionalReturning rules).run E.dialect c = .accepted value c₁)
    (ends : E.EndsStatement c₁ rest)
    (inert : [TokenKind.symbol .semicolon, .keyword .RETURNING].all
      (fun kind => starters.all fun starter => !starter.first kind) = true) :
    E.Ends starters c ((Form.returning E.drift).maybe.words value ++ rest) := by
  simp only [List.all_cons, List.all_nil, Bool.and_true, Bool.and_eq_true] at inert
  exact ⟨optionalReturning_skips.quiet run (by simpa using inert.2)
    (ends.quiet (by simpa using inert.1)), done_whenever run rfl (ends.done rfl)⟩

/-! ## Conflicts with rows that are there already -/

/-- What goes on with a conflict clause. -/
def upsertEnd : List Starter :=
  exprEnd ++ [.symbol .comma, .keyword .WHERE]

/-- The words of the target of a conflict clause are those of its columns and of its condition. -/
lemma target_words (columns : List IndexedColumn) (filter : Option Expr) (span : Span) :
    (Form.conflictTarget E.drift).words ⟨columns, filter, span⟩ =
      (Form.indexedColumn E.drift).commas.parens.words columns ++
        ((Form.expr E.drift).after [.ofKeyword .WHERE]).maybe.words filter := by
  unfold Form.conflictTarget
  rw [Form.ofPieces_words, ConflictTarget.pieces, Render.wordsOf_append, wordsOf_indexedColumns]
  cases filter <;> rfl

/-- The target of a conflict is read again. -/
lemma conflictTarget_again (known : E.Known n) :
    E.Reruns n (.conflictTarget E.drift) (E.Quiet (.keyword .WHERE :: exprEnd))
      (conflictTarget E.rules) (conflictTarget E.again) := by
  intro c c' value c₁ rest run follows keeps safe quiet
  unfold conflictTarget at run ⊢
  rw [run_here_bind] at run
  obtain ⟨columns, c₂, run₁, le₁, run⟩ := accepted_bind run
  obtain ⟨filter, c₃, run₂, le₂, run⟩ := accepted_bind run
  obtain ⟨rfl, rfl⟩ := accepted_return run
  rw [target_words, List.append_assoc] at follows
  have below : E.Safe (Node.each Node.indexedColumn columns ++ Node.maybe Node.expr filter) :=
    (safe_singleton.mp safe).2
  simp only [safe_append, each_eq, maybe_eq] at below
  refine Accepts.congr ?_ (run_here_bind ..)
  refine (indexedColumns_again known).step run₁ follows (Nat.le_trans keeps le₁) below.1 trivial
    fun columns' c₂' _ (same₁ : columns'.map IndexedColumn.unplaced =
      columns.map IndexedColumn.unplaced) follows => ?_
  refine (filter_again known).step run₂ follows keeps (by cases filter <;> exact below.2) quiet
    fun filter' c₃' _ (same₂ : filter'.map Expr.unplaced = filter.map Expr.unplaced)
      follows => ?_
  exact .of_return ⟨follows, by simp [Form.conflictTarget, ConflictTarget.unplaced, same₁, same₂]⟩

/-- The target of a conflict clause takes its parenthesis. -/
lemma target_takes {rules : Rules} {value : ConflictTarget}
    (run : (conflictTarget rules).run E.dialect c = .accepted value c₁) :
    c₁.ahead.length ≤ c.advance.ahead.length := by
  unfold conflictTarget at run
  rw [run_here_bind] at run
  obtain ⟨columns, c₂, run₁, le₁, -⟩ := accepted_bind run
  unfold parenthesized at run₁
  exact Nat.le_trans le₁ (accepted_expectSymbol run₁).2.1

/-- The words of an action that updates are its keywords, and those of the assignments and the
condition. -/
lemma updateAction_words (assignments : List Assignment) (filter : Option Expr) :
    (Form.upsertAction E.drift).words (.update assignments filter) =
      .ofKeyword .DO :: .ofKeyword .UPDATE :: .ofKeyword .SET ::
        ((Form.assignment E.drift).commas.words assignments ++
          ((Form.expr E.drift).after [.ofKeyword .WHERE]).maybe.words filter) := by
  unfold Form.upsertAction
  rw [Form.ofPieces_words, UpsertAction.pieces]
  cases filter <;> simp [wordsOf_words, Form.wordsOf_assignments, Render.whereClause,
    Render.optional, Form.maybe, Form.after, Form.expr]

/-- The words of an action start with `DO`. -/
lemma upsertAction_front (value : UpsertAction) :
    ∃ ws, (Form.upsertAction E.drift).words value = .ofKeyword .DO :: ws := by
  cases value with
  | nothing => exact ⟨_, rfl⟩
  | update assignments filter => exact ⟨_, updateAction_words assignments filter⟩

/-- What is done with a row that conflicts is read again.

**Proof sketch.** The run is taken apart, and the words of the action alike. With `NOTHING` both
keywords are next again. Otherwise `NOTHING` is not next again, as `UPDATE` is, and each part is
read again by its own lemma. The assignments may be followed by the condition or by what follows the
action, and both are quiet after an expression (`filter_skips`). -/
lemma upsertAction_again (known : E.Known n) :
    E.Reruns n (.upsertAction E.drift) (E.Quiet upsertEnd) (upsertAction E.rules)
      (upsertAction E.again) := by
  intro c c' value c₁ rest run follows keeps safe quiet
  unfold upsertAction at run ⊢
  obtain ⟨at_, le₁, run⟩ := accepted_expectKeyword run
  rw [run_eatKeyword_bind] at run
  split at run
  · next nothing =>
    obtain ⟨rfl, rfl⟩ := accepted_pure run
    have follows : E.Follows n c c' (.ofKeyword .DO :: .ofKeyword .NOTHING :: rest) := follows
    refine follows.expectKeyword at_ (Nat.le_trans keeps le₁) fun _ follows _ => ?_
    exact follows.eatKeyword nothing keeps fun follows _ => .of_pure ⟨follows, rfl⟩
  · next something =>
    rw [if_neg Bool.false_ne_true] at run
    obtain ⟨_, c₂, run₁, le₂, run⟩ := accepted_bind run
    obtain ⟨assignments, c₃, run₂, le₃, run⟩ := accepted_bind run
    obtain ⟨filter, c₄, run₃, le₄, run⟩ := accepted_bind run
    obtain ⟨rfl, rfl⟩ := accepted_pure run
    rw [updateAction_words] at follows
    have below : E.Safe (Node.each Node.assignment assignments ++ Node.maybe Node.expr filter) :=
      safe
    simp only [safe_append, each_eq, maybe_eq] at below
    have quiet₃ : E.Quiet (.symbol .comma :: exprEnd) c₃ _ :=
      filter_skips.quiet run₃ rfl (quiet.mono rfl)
    refine follows.expectKeyword at_ (Nat.le_trans keeps le₁) fun _ follows _ => ?_
    have update := (accepted_expectKeyword run₁).1
    refine skipKeyword (follows.notKeyword update
      (Nat.le_trans keeps (Nat.le_trans le₂ (accepted_expectKeyword run₁).2.1)) (by decide)) ?_
    rw [if_neg Bool.false_ne_true]
    have follows : E.Follows n c.advance c'.advance (([Keyword.UPDATE, .SET].map .ofKeyword) ++
        ((Form.assignment E.drift).commas.words assignments ++
          (((Form.expr E.drift).after [.ofKeyword .WHERE]).maybe.words filter ++ rest))) := by
      simpa using follows
    refine (expectKeywords_again [.UPDATE, .SET]).plain rfl run₁ follows (Nat.le_trans keeps le₂)
      safe_nil trivial fun c₂' _ follows => ?_
    refine (assignments_again known).step run₂ follows (Nat.le_trans keeps le₃) below.1 quiet₃
      fun assignments' c₃' _ (same₂ : assignments'.map Assignment.unplaced =
        assignments.map Assignment.unplaced) follows => ?_
    refine (filter_again known).step run₃ follows keeps (by cases filter <;> exact below.2)
      (quiet.mono rfl)
      fun filter' c₄' _ (same₃ : filter'.map Expr.unplaced = filter.map Expr.unplaced)
        follows => ?_
    exact .of_pure ⟨follows, by simp [Form.upsertAction, UpsertAction.unplaced, same₂, same₃]⟩

/-- The words of a conflict clause are its keywords, and those of its target and its action. -/
lemma upsert_words (target : Option ConflictTarget) (action : UpsertAction) (span : Span) :
    (Form.upsert E.drift).words ⟨target, action, span⟩ =
      .ofKeyword .ON :: .ofKeyword .CONFLICT ::
        ((Form.conflictTarget E.drift).maybe.words target ++
          (Form.upsertAction E.drift).words action) := by
  unfold Form.upsert
  rw [Form.ofPieces_words, Upsert.pieces]
  cases target <;> simp [wordsOf_words, Render.optional, Form.maybe, Form.conflictTarget,
    Form.upsertAction]

/-- A conflict clause is read again.

**Proof sketch.** The feature is demanded again, the keywords are read again, and so are the target
and the action. Whether there is a target is told by a parenthesis, with which a target starts, and
which is not next where there is none, as the action starts with `DO`. -/
lemma upsert_again (known : E.Known n) :
    E.Reruns n (.upsert E.drift) (E.Quiet upsertEnd) (upsert E.rules) (upsert E.again) := by
  intro c c' value c₁ rest run follows keeps safe quiet
  unfold upsert at run ⊢
  rw [run_here_bind] at run
  obtain ⟨has, run⟩ := accepted_require run
  obtain ⟨_, c₂, run₁, le₁, run⟩ := accepted_bind run
  obtain ⟨target, c₃, run₂, le₂, run⟩ := accepted_bind run
  obtain ⟨action, c₄, run₃, le₃, run⟩ := accepted_bind run
  obtain ⟨rfl, rfl⟩ := accepted_return run
  have follows : E.Follows n c c' (([Keyword.ON, .CONFLICT].map .ofKeyword) ++
      ((Form.conflictTarget E.drift).maybe.words target ++
        ((Form.upsertAction E.drift).words action ++ rest))) := by
    simpa [upsert_words] using follows
  have below : E.Safe (Node.maybe Node.conflictTarget target ++ Node.ofUpsertAction action) :=
    (safe_singleton.mp safe).2
  simp only [safe_append, maybe_eq] at below
  obtain ⟨do_, front⟩ := upsertAction_front (E := E) action
  refine Accepts.congr ?_ (run_here_bind ..)
  refine accepts_require has ?_
  refine (expectKeywords_again [.ON, .CONFLICT]).plain rfl run₁ follows (Nat.le_trans keeps le₁)
    safe_nil trivial fun c₂' _ follows => ?_
  have part := conflictTarget_again known
  refine (part.whenever ?_ run₂ follows (Nat.le_trans keeps le₂)
    (by cases target <;> exact below.1) (fun _ => ?_) ?_).bind ?_
  · rintro c c' ⟨columns, filter, span⟩ c₁ rest at_ run follows keeps -
    rw [target_words, List.append_assoc] at follows
    have follows : E.Follows n c c' (.ofSymbol .leftParen :: _) := follows
    exact (follows.symbol at_ (Nat.le_trans keeps (target_takes run))).1
  · rw [front]
    exact .front rfl
  · rintro rfl not
    have quiet : E.Quiet [.symbol .leftParen] c₂
        ((Form.upsertAction E.drift).words action ++ rest) := by
      rw [front]
      exact .front rfl
    exact quiet.not_symbol follows rfl not
  rintro target' c₃' - ⟨follows, same₁⟩
  refine (upsertAction_again known).step run₃ follows keeps below.2 quiet
    fun action' c₄' _ (same₂ : action'.unplaced = action.unplaced) follows => ?_
  have same₁ : target'.map ConflictTarget.unplaced = target.map ConflictTarget.unplaced := same₁
  exact .of_return ⟨follows, by simp [Form.upsert, Upsert.unplaced, same₁, same₂]⟩

/-- What goes on with an insertion after its source. -/
def sourceEnd : List Starter :=
  queryEnd ++ [.keywords .ON .CONFLICT]

/-- Where two words are those that were next in the first source, nothing goes on there more than in
the second. -/
lemma Quiet.same_two {starters : List Starter} {first second : Word}
    (one : first.kind = (c.peek 0).kind) (two : second.kind = (c.peek 1).kind) :
    E.Quiet starters c (first :: second :: rest) := by
  refine .of_written fun _ starter _ => ?_
  rw [← one, ← two]
  exact starter.carries_refl _ _

/-- A conflict clause takes its two keywords, and its words start with them. -/
lemma accepted_upsert {rules : Rules} {value : Upsert}
    (run : (upsert rules).run E.dialect c = .accepted value c₁) :
    c₁.ahead.length ≤ c.advance.advance.ahead.length ∧
      ∃ ws, (Form.upsert E.drift).words value = .ofKeyword .ON :: .ofKeyword .CONFLICT :: ws := by
  unfold upsert at run
  rw [run_here_bind] at run
  obtain ⟨-, run⟩ := accepted_require run
  obtain ⟨_, c₂, run₁, le₁, run⟩ := accepted_bind run
  refine ⟨Nat.le_trans le₁ ?_, ?_⟩
  · unfold expectKeywords at run₁
    obtain ⟨-, -, run₁⟩ := accepted_expectKeyword run₁
    exact (accepted_expectKeyword run₁).2.1
  · obtain ⟨target, action, span⟩ := value
    exact ⟨_, upsert_words target action span⟩

/-- Parts that are there as long as a test passes are read again, if the test passes again exactly
where it did before.

**Proof sketch.** By the lemma about repetitions (`Reruns.many`). A turn where the test passes reads
a part, and since the test passes again the part is read again. A turn where it does not pass takes
nothing, both times, as `stops` says. -/
lemma Reruns.manyWhenever {α : Type} {form : Form α} {p p' : Parser α} {test : View → Bool}
    {fuel fuel' : Nat} (enough : n ≤ fuel') (ends : Cursor → List Word → Prop)
    (before : ∀ {c value c₁}, test c.view = true → p.run E.dialect c = .accepted value c₁ →
      ∀ rest, ends c (form.words value ++ rest))
    (part : ∀ {c c' value c₁ rest}, test c.view = true →
      p.run E.dialect c = .accepted value c₁ → E.Follows n c c' (form.words value ++ rest) →
      E.mode.left ≤ c₁.ahead.length → E.Safe (form.nodes value) → ends c₁ rest →
      test c'.view = true ∧ Accepts E.dialect p' c' fun value' c₁' =>
        c₁'.ahead.length < c'.ahead.length ∧ E.Follows n c₁ c₁' rest ∧
          form.bare value' = form.bare value)
    (stops : ∀ {c c' rest}, ends c rest → E.Follows n c c' rest → ¬ test c.view = true →
      ¬ test c'.view = true)
    {parts : List α}
    (run : (Parser.many fuel (Parser.whenever test p)).run E.dialect c = .accepted parts c₁)
    (reached : c.Reachable E.drift) (safe : E.Safe (form.flat.nodes parts)) :
    (∀ rest, ends c₁ rest → ends c (form.flat.words parts ++ rest)) ∧
      ∀ {c' rest}, E.Follows n c c' (form.flat.words parts ++ rest) →
        E.mode.left ≤ c₁.ahead.length → ends c₁ rest →
        Accepts E.dialect (Parser.many fuel' (Parser.whenever test p')) c' fun parts' c₁' =>
          E.Follows n c₁ c₁' rest ∧ form.flat.bare parts' = form.flat.bare parts := by
  refine Reruns.many form ends (Parser.whenever test p') enough ?_ ?_ run reached safe
  · intro c value c₂ run reached
    unfold Parser.whenever at run
    rw [run_sees_bind] at run
    split at run
    · next at_ =>
      obtain ⟨value, c₃, inner, -, run⟩ := accepted_bind run
      obtain ⟨eq, rfl⟩ := accepted_pure run
      obtain rfl := Option.some.inj eq
      refine ⟨before at_ inner, fun {c' rest} follows keeps safe quiet => ?_⟩
      obtain ⟨at', accepts⟩ := part at_ inner follows keeps safe quiet
      refine Accepts.congr ?_ (run_sees_bind ..)
      rw [if_pos at']
      refine accepts.bind ?_
      rintro value' c₃' - ⟨shorter, last, same⟩
      exact .of_pure ⟨shorter, value', rfl, same, last⟩
    · exact absurd (accepted_pure run).1 (by simp)
  · intro c c₂ run
    unfold Parser.whenever at run
    rw [run_sees_bind] at run
    split at run
    · obtain ⟨value, c₃, -, -, run⟩ := accepted_bind run
      exact absurd (accepted_pure run).1 (by simp)
    · next not =>
      obtain ⟨-, rfl⟩ := accepted_pure run
      refine ⟨rfl, fun follows _ quiet => ?_⟩
      refine (accepts_whenever_none (stops quiet follows not)).mono ?_
      rintro _ c₁' ⟨rfl, rfl⟩
      exact ⟨rfl, follows⟩

/-- Conflict clauses are read again, after a source of insertions that ends there. -/
lemma upserts_again (known : E.Known n) {parts : List Upsert}
    (run : (many E.rules.limit (whenever (·.atKeywords .ON .CONFLICT) (upsert E.rules))).run
      E.dialect c = .accepted parts c₁) (reached : c.Reachable E.drift)
    (safe : E.Safe ((Form.upsert E.drift).flat.nodes parts)) :
    (∀ rest, E.Ends sourceEnd c₁ rest →
      E.Ends sourceEnd c ((Form.upsert E.drift).flat.words parts ++ rest)) ∧
      ∀ {c' rest}, E.Follows n c c' ((Form.upsert E.drift).flat.words parts ++ rest) →
        E.mode.left ≤ c₁.ahead.length → E.Ends sourceEnd c₁ rest →
        Accepts E.dialect
          (many E.again.limit (whenever (·.atKeywords .ON .CONFLICT) (upsert E.again))) c'
          fun parts' c₁' => E.Follows n c₁ c₁' rest ∧
            parts'.map Upsert.unplaced = parts.map Upsert.unplaced := by
  refine Reruns.manyWhenever known.enough (E.Ends sourceEnd) (fun {c value c₂} at_ run rest => ?_)
    (fun {c c' value c₂ rest} at_ run follows keeps safe ends => ?_)
    (fun ends follows not => ends.1.not_keywords follows rfl not) run reached safe
  · obtain ⟨-, ws, front⟩ := accepted_upsert run
    obtain ⟨one, two⟩ := kinds_of_atKeywords at_
    have first : c.view.atKeyword .ON = true := atKeyword_of_kind one
    rw [front]
    exact ⟨.same_two one.symm two.symm, done_of_keyword first rfl⟩
  · obtain ⟨takes, ws, front⟩ := accepted_upsert run
    have at' : c'.view.atKeywords .ON .CONFLICT = true := by
      rw [front] at follows
      exact (follows.keywords at_ (Nat.le_trans keeps takes)).1
    obtain ⟨value', c₂', run', last, same⟩ :=
      upsert_again known run follows keeps safe (ends.1.mono rfl)
    refine ⟨at', value', c₂', run', ?_, last, same⟩
    have first : c'.view.atKeyword .ON = true := atKeyword_of_kind (kinds_of_atKeywords at').1
    have takes' := (accepted_upsert run').1
    have := length_of_atKeyword first follows.reached'
    simp only [Cursor.advance_ahead, List.length_tail] at this takes'
    omega

/-! ## Insertions -/

/-- What an insertion does about rows that are there already is read again.

**Proof sketch.** By the keyword that is next: `REPLACE`, or `INSERT` with or without `OR`. A
keyword that was next is next again, and one that was not is not: `REPLACE` because `INSERT` is
next, and `OR` because what follows is quiet about it. -/
lemma insertMode_again :
    E.Reruns n .insertMode (E.Quiet [.keyword .OR]) insertMode insertMode := by
  intro c c' value c₁ rest run follows keeps _ quiet
  unfold insertMode at run ⊢
  rw [run_eatKeyword_bind] at run
  split at run
  · next at_ =>
    obtain ⟨rfl, rfl⟩ := accepted_pure run
    have follows : E.Follows n c c' (.ofKeyword .REPLACE :: rest) := follows
    exact follows.eatKeyword at_ keeps fun follows _ => .of_pure ⟨follows, rfl⟩
  · rw [if_neg Bool.false_ne_true] at run
    obtain ⟨at_, le₁, run⟩ := accepted_expectKeyword run
    rw [run_eatKeyword_bind] at run
    split at run
    · next or_ =>
      obtain ⟨resolution, c₂, run₁, le₂, run⟩ := accepted_bind run
      obtain ⟨rfl, rfl⟩ := accepted_pure run
      have follows : E.Follows n c c' (.ofKeyword .INSERT :: .ofKeyword .OR ::
        (Form.conflict.words resolution ++ rest)) := follows
      refine skipKeyword (follows.notKeyword at_ (Nat.le_trans keeps le₁) (by decide)) ?_
      refine follows.expectKeyword at_ (Nat.le_trans keeps le₁) fun _ follows _ => ?_
      refine follows.eatKeyword or_ (Nat.le_trans keeps (accepted_length run₁))
        fun follows _ => ?_
      exact conflict_again.plain rfl run₁ follows keeps safe_nil trivial
        fun c₂' _ follows => .of_pure ⟨follows, rfl⟩
    · next not =>
      obtain ⟨rfl, rfl⟩ := accepted_pure run
      have follows : E.Follows n c c' (.ofKeyword .INSERT :: rest) := follows
      refine skipKeyword (follows.notKeyword at_ keeps (by decide)) ?_
      refine follows.expectKeyword at_ keeps fun _ follows _ => ?_
      exact skipKeyword (quiet.not_keyword follows rfl not) (.of_pure ⟨follows, rfl⟩)

/-- The words of the mode start with `INSERT` or `REPLACE`. -/
lemma insertMode_front (value : InsertMode) :
    ∃ word ∈ [Keyword.INSERT, .REPLACE], ∃ ws,
      Form.insertMode.words value = .ofKeyword word :: ws := by
  cases value with
  | insert => exact ⟨.INSERT, by simp, _, rfl⟩
  | replace => exact ⟨.REPLACE, by simp, _, rfl⟩
  | insertOr resolution => exact ⟨.INSERT, by simp, _, rfl⟩

/-- The keyword that the words of the mode start with was next when the mode was read, and was
taken. -/
lemma insertMode_starts {value : InsertMode} {word : Keyword} {ws : List Word}
    (run : insertMode.run E.dialect c = .accepted value c₁)
    (front : Form.insertMode.words value = .ofKeyword word :: ws) :
    c.view.atKeyword word = true ∧ c₁.ahead.length ≤ c.advance.ahead.length := by
  unfold insertMode at run
  rw [run_eatKeyword_bind] at run
  split at run
  · next at_ =>
    obtain ⟨rfl, rfl⟩ := accepted_pure run
    cases front
    exact ⟨at_, Nat.le_refl _⟩
  · rw [if_neg Bool.false_ne_true] at run
    obtain ⟨at_, le, run⟩ := accepted_expectKeyword run
    refine ⟨?_, le⟩
    rw [run_eatKeyword_bind] at run
    split at run
    · obtain ⟨resolution, c₂, -, -, run⟩ := accepted_bind run
      obtain ⟨rfl, rfl⟩ := accepted_pure run
      cases front
      exact at_
    · obtain ⟨rfl, rfl⟩ := accepted_pure run
      cases front
      exact at_

/-- How a source of insertions was read.

There are four of them, in the order in which they are tried. -/
lemma accepted_insertSource {rules : Rules} {value : InsertSource}
    (run : (insertSource rules).run E.dialect c = .accepted value c₁) :
    (∃ clause, value = .values clause ∧ c.view.atKeyword .VALUES = true ∧
        (valuesClause rules).run E.dialect c = .accepted clause c₁) ∨
      (∃ rows, value = .query rows ∧ ¬ c.view.atKeyword .VALUES = true ∧
        c.view.atAnyKeyword [.SELECT, .WITH] = true ∧
        rules.query.run E.dialect c = .accepted rows c₁) ∨
      (∃ span, value = .defaultValues span ∧ c.view.atKeyword .DEFAULT = true ∧
        c.advance.view.atKeyword .VALUES = true ∧ c₁ = c.advance.advance) ∨
      ∃ name span, value = .placeholder name span ∧ c.view.dollarName? = some name ∧
        E.dialect.isDrift = true ∧ c₁ = c.advance := by
  unfold insertSource at run
  rw [run_view_bind] at run
  split at run
  · next at_ =>
    obtain ⟨clause, c₂, inner, -, run⟩ := accepted_bind run
    obtain ⟨rfl, rfl⟩ := accepted_pure run
    exact .inl ⟨clause, rfl, at_, inner⟩
  · next notValues =>
    split at run
    · next at_ =>
      obtain ⟨rows, c₂, inner, -, run⟩ := accepted_bind run
      obtain ⟨rfl, rfl⟩ := accepted_pure run
      exact .inr (.inl ⟨rows, rfl, notValues, at_, inner⟩)
    · split at run
      · next at_ =>
        obtain ⟨-, -, run⟩ := accepted_advance run
        obtain ⟨values, -, run⟩ := accepted_expectKeyword run
        obtain ⟨rfl, rfl⟩ := accepted_return run
        exact .inr (.inr (.inl ⟨_, rfl, at_, values, rfl⟩))
      · split at run
        · next name dollar =>
          rw [run_isDrift_bind] at run
          split at run
          · next drift =>
            obtain ⟨-, -, run⟩ := accepted_advance run
            obtain ⟨rfl, rfl⟩ := accepted_pure run
            exact .inr (.inr (.inr ⟨name, _, rfl, dollar, drift, rfl⟩))
          · exact absurd run not_accepted_unexpected
        · exact absurd run not_accepted_unexpected

/-- If none of some keywords is next, then not any of them is. -/
lemma not_any_of_not {words : List Keyword} (not : ∀ word ∈ words, ¬ c.view.atKeyword word = true) :
    ¬ c.view.atAnyKeyword words = true := by
  intro any
  obtain ⟨word, mem, at_⟩ := List.any_eq_true.mp any
  exact not word mem at_

/-- If any of some keywords is next, the keyword that is next is among them. -/
lemma atAny_mem {words : List Keyword} {word : Keyword} (any : c.view.atAnyKeyword words = true)
    (at_ : c.view.atKeyword word = true) : word ∈ words := by
  obtain ⟨found, mem, seen⟩ := List.any_eq_true.mp any
  obtain rfl : word = found := by
    by_contra differ
    exact not_otherKeyword at_ differ seen
  exact mem

/-- If a keyword is next, then any of a list with it is. -/
lemma atAnyKeyword_of {words : List Keyword} {word : Keyword} (mem : word ∈ words)
    (at_ : c.view.atKeyword word = true) : c.view.atAnyKeyword words = true :=
  List.any_eq_true.mpr ⟨word, mem, at_⟩

/-- A source of insertions is read again.

**Proof sketch.** By how the source was read (`accepted_insertSource`). The keyword that told its
kind is next again, so the tests before it fail again and its own one passes. Then the rows, the
query or the keywords are read again. A placeholder is a dollar name, which is no keyword, and the
dialect is the same. -/
lemma insertSource_again (known : E.Known n) :
    E.Reruns n (.insertSource E.drift) (E.Ends (.symbol .comma :: queryEnd))
      (insertSource E.rules) (insertSource E.again) := by
  intro c c' value c₁ rest run follows keeps safe ends
  unfold insertSource
  refine Accepts.congr ?_ (run_view_bind ..)
  rcases accepted_insertSource run with ⟨clause, rfl, at_, inner⟩ |
    ⟨rows, rfl, notValues, any, inner⟩ | ⟨span, rfl, at_, values, rfl⟩ |
    ⟨name, span, rfl, dollar, drift, rfl⟩
  · have follows : E.Follows n c c' ((Form.valuesClause E.drift).words clause ++ rest) := follows
    obtain ⟨-, takes, -⟩ := accepted_expectKeyword inner
    rw [if_pos (follows.front_keyword (valuesClause_front clause) at_
      (Nat.le_trans keeps takes)).1]
    refine (valuesClause_again known).step inner follows keeps safe (ends.1.mono rfl)
      fun clause' c₁' _ same follows => ?_
    exact .of_pure ⟨follows, congrArg InsertSource.values same⟩
  · have follows : E.Follows n c c' ((Form.query E.drift).words rows ++ rest) := follows
    obtain ⟨takes, word, ws, front, at_⟩ := known.queryFront inner follows.reached
    have at' := (follows.front_keyword ⟨ws, front⟩ at_ (Nat.le_trans keeps takes)).1
    have mem := atAny_mem any at_
    rw [if_neg (not_otherKeyword at' (by rintro rfl; exact notValues at_)),
      if_pos (atAnyKeyword_of mem at')]
    refine known.query.step inner follows keeps safe ⟨ends.1.mono rfl, ends.2⟩
      fun rows' c₁' _ same follows => ?_
    exact .of_pure ⟨follows, congrArg InsertSource.query same⟩
  · have follows : E.Follows n c c' (.ofKeyword .DEFAULT :: .ofKeyword .VALUES :: rest) := follows
    have keeps₁ : E.mode.left ≤ c.advance.ahead.length := Nat.le_trans keeps (by simp)
    have at' := (follows.keyword at_ keeps₁).1
    rw [if_neg (not_otherKeyword at' (by decide)), if_neg (not_any_of_not (by
      intro word mem
      exact not_otherKeyword at' (by rintro rfl; exact absurd mem (by decide)))), if_pos at']
    refine follows.advanceKeyword at_ keeps₁ fun _ follows _ => ?_
    exact follows.expectKeyword values keeps fun _ follows _ => .of_return ⟨follows, rfl⟩
  · have follows : E.Follows n c c' (.ofVariable (.named .dollar name) :: rest) := follows
    have kind : c.current.kind = .variable (.named .dollar name) := kind_of_dollarName dollar
    obtain ⟨kind', next, -⟩ := follows.same kind (by rw [kind]; simp) keeps
    have kind' : c'.current.kind = .variable (.named .dollar name) := kind'
    have notKeyword : ∀ word, ¬ c'.view.atKeyword word = true := fun word at' =>
      absurd (kind'.symm.trans (kind_of_atKeyword at')) (by simp)
    rw [if_neg (notKeyword _), if_neg (not_any_of_not fun word _ => notKeyword word),
      if_neg (notKeyword _), dollarName_of_kind kind']
    refine Accepts.congr ?_ (run_isDrift_bind ..)
    rw [if_pos drift]
    exact accepts_advance (by rw [kind']; rfl) (.of_pure ⟨next, rfl⟩)

/-- The source of an insertion is written such that no name, column or other name goes on before
it. -/
lemma insertSource_quiet (known : E.Known n) {value : InsertSource}
    (run : (insertSource E.rules).run E.dialect c = .accepted value c₁)
    (reached : c.Reachable E.drift) (rest : List Word) :
    E.Quiet [.symbol .dot, .keyword .AS, .symbol .leftParen] c
      ((Form.insertSource E.drift).words value ++ rest) := by
  rcases accepted_insertSource run with ⟨clause, rfl, -⟩ | ⟨rows, rfl, -, any, inner⟩ |
    ⟨span, rfl, -⟩ | ⟨name, span, rfl, -⟩
  · obtain ⟨ws, front⟩ := valuesClause_front (E := E) clause
    change E.Quiet _ c ((Form.valuesClause E.drift).words clause ++ rest)
    rw [front]
    exact .front rfl
  · obtain ⟨-, word, ws, front, at_⟩ := known.queryFront inner reached
    have mem := atAny_mem any at_
    change E.Quiet _ c ((Form.query E.drift).words rows ++ rest)
    rw [front]
    simp only [List.mem_cons, List.not_mem_nil, or_false] at mem
    rcases mem with rfl | rfl <;> exact .front rfl
  · exact .front rfl
  · exact .front rfl

/-- The words of an insertion after its common tables. -/
def insertWords (drift : Bool) (value : Insert) : List Word :=
  Form.insertMode.words value.mode ++ .ofKeyword .INTO ::
    (Form.qualified.words (value.schema, value.table) ++
      (Form.aliased.words value.aliasName ++ (Form.columnNames.words value.columns ++
        ((Form.insertSource drift).words value.source ++
          ((Form.upsert drift).flat.words value.upserts ++
            (Form.returning drift).maybe.words value.returning)))))

/-- The pieces of the mode have the words of its form. -/
lemma insertMode_words (drift : Bool) (value : InsertMode) :
    Render.wordsOf drift value.pieces = Form.insertMode.words value := by
  cases value <;> simp [InsertMode.pieces, wordsOf_words, Form.choice]

/-- The pieces of a name that may be qualified have the words of its form. -/
lemma wordsOf_qualified (drift : Bool) (schema : Option String) (name : String) :
    Render.wordsOf drift (Render.qualified schema name) =
      Form.qualified.words (schema, name) := by
  cases schema <;> rfl

/-- The words of common tables with a blank after them. -/
lemma wordsOf_withClause (drift : Bool) (commonTables : Option WithClause) :
    Render.wordsOf drift (Render.withClause commonTables) =
      (Form.withClause drift).maybe.words commonTables := by
  cases commonTables <;> simp [Render.withClause, Render.optional, Form.maybe, Form.withClause]

/-- The pieces of a condition after `WHERE` have the words of its form. -/
lemma wordsOf_whereClause (drift : Bool) (filter : Option Expr) :
    Render.wordsOf drift (Render.whereClause filter) =
      ((Form.expr drift).after [.ofKeyword .WHERE]).maybe.words filter := by
  cases filter <;> rfl

/-- The pieces of `RETURNING` have the words of its form. -/
lemma wordsOf_returningClause (drift : Bool) (clause : Option Returning) :
    Render.wordsOf drift (Render.returningClause clause) =
      (Form.returning drift).maybe.words clause := by
  cases clause <;> rfl

/-- The pieces of column names that may be left out have the words of their form. -/
lemma wordsOf_blankColumns (drift : Bool) (columns : List String) :
    Render.wordsOf drift
        (if columns.isEmpty then [] else .blank :: Render.parens (Render.names columns)) =
      Form.columnNames.words columns := by
  cases columns with
  | nil => rfl
  | cons first others => simp [Render.parens, wordsOf_names, Form.columnNames, Form.parens]

/-- The words of an insertion are those of its common tables, and its own. -/
lemma insert_words (value : Insert) :
    (Form.dataStatement E.drift).words (.insert value) =
      (Form.withClause E.drift).maybe.words value.commonTables ++ insertWords E.drift value := by
  have listed := Form.wordsOf_flatMap E.drift (.upsert E.drift) Upsert.pieces (fun _ => rfl)
    value.upserts
  unfold Form.dataStatement
  rw [Form.ofPieces_words, DataStatement.pieces, Insert.pieces]
  simp only [Render.wordsOf_append, wordsOf_withClause, insertMode_words, List.cons_append,
    Render.wordsOf_blank, Render.wordsOf_keyword, wordsOf_qualified, wordsOf_aliased,
    wordsOf_blankColumns, wordsOf_returningClause, listed, List.append_assoc, insertWords]
  rfl

/-- **Insertions are read again.**

**Proof sketch.** The run is taken apart, part by part, and so are the words. What follows a part
must not be taken for more of it, and so the quiet places are worked out from the end of the
insertion to its front: `RETURNING` starts with its keyword, a conflict clause with `ON`
(`upserts_again`), the source with a keyword or a placeholder (`insertSource_quiet`), and the
columns and the alias with marks of their own. Then each part is read again by its own lemma, from
the front to the end. -/
lemma insert_again (known : E.Known n) {commonTables commonTables' : Option WithClause}
    {start start' : Span} {value : Insert}
    (run : (Grammar.insert E.rules commonTables start).run E.dialect c = .accepted value c₁)
    (same : commonTables'.map WithClause.unplaced = commonTables.map WithClause.unplaced)
    (follows : E.Follows n c c' (insertWords E.drift value ++ rest))
    (keeps : E.mode.left ≤ c₁.ahead.length) (safe : E.Safe [.insert value])
    (ends : E.EndsStatement c₁ rest) :
    Accepts E.dialect (Grammar.insert E.again commonTables' start') c' fun value' c₁' =>
      E.Follows n c₁ c₁' rest ∧ value'.unplaced = value.unplaced := by
  unfold Grammar.insert at run ⊢
  obtain ⟨mode, c₂, run₁, le₁, run⟩ := accepted_bind run
  obtain ⟨into, le₂, run⟩ := accepted_expectKeyword run
  obtain ⟨⟨schema, table⟩, c₃, run₃, le₃, run⟩ := accepted_bind run
  obtain ⟨aliasName, c₄, run₄, le₄, run⟩ := accepted_bind run
  obtain ⟨columns, c₅, run₅, le₅, run⟩ := accepted_bind run
  obtain ⟨source, c₆, run₆, le₆, run⟩ := accepted_bind run
  obtain ⟨upserts, c₇, run₇, le₇, run⟩ := accepted_bind run
  obtain ⟨returning, c₈, run₈, le₈, run⟩ := accepted_bind run
  obtain ⟨rfl, rfl⟩ := accepted_return run
  simp only [insertWords, List.append_assoc, List.cons_append] at follows
  have below : E.Safe (Node.maybe Node.withClause commonTables ++ Node.ofInsertSource source ++
    Node.each Node.upsert upserts ++ Node.maybe Node.returning returning) :=
    (safe_singleton.mp safe).2
  simp only [safe_append, each_eq, maybe_eq] at below
  obtain ⟨⟨⟨-, safe₆⟩, safe₇⟩, safe₈⟩ := below
  have reached₅ : c₅.Reachable E.drift :=
    accepted_reachable run₅ (accepted_reachable run₄ (accepted_reachable run₃
      (accepted_reachable run₁ follows.reached).advance))
  have reached₆ := accepted_reachable run₆ reached₅
  obtain ⟨before, again⟩ := upserts_again known run₇ reached₆ safe₇
  -- from the end to the front: each part is quiet before the parts after it
  have ends₇ : E.Ends sourceEnd c₇ _ := optionalReturning_ends run₈ ends rfl
  have ends₆ : E.Ends (.symbol .comma :: queryEnd) c₆ _ :=
    ⟨(before _ ends₇).1.mono rfl, (before _ ends₇).2⟩
  have quiet₅ : E.Quiet [.symbol .dot, .keyword .AS, .symbol .leftParen] c₅ _ :=
    insertSource_quiet known run₆ reached₅ ((Form.upsert E.drift).flat.words upserts ++
      ((Form.returning E.drift).maybe.words returning ++ rest))
  have quiet₄ : E.Quiet [.symbol .dot, .keyword .AS] c₄ _ :=
    optionalColumnNames_skips.quiet run₅ rfl (quiet₅.mono rfl)
  have quiet₃ : E.Quiet [.symbol .dot] c₃ _ := asName_skips.quiet run₄ rfl (quiet₄.mono rfl)
  refine insertMode_again.plain rfl run₁ follows (Nat.le_trans keeps le₁) safe_nil (.front rfl)
    fun c₂' _ follows => ?_
  refine follows.expectKeyword into (Nat.le_trans keeps le₂) fun _ follows _ => ?_
  refine qualifiedName_again.plain rfl run₃ follows (Nat.le_trans keeps le₃) safe_nil quiet₃
    fun c₃' _ follows => ?_
  refine asName_again.plain (Form.maybe_bare rfl) run₄ follows (Nat.le_trans keeps le₄)
    (by cases aliasName <;> exact safe_nil) (quiet₄.mono rfl) fun c₄' _ follows => ?_
  refine (optionalColumnNames_again known.enough).plain rfl run₅ follows (Nat.le_trans keeps le₅)
    safe_nil (quiet₅.mono rfl) fun c₅' _ follows => ?_
  refine (insertSource_again known).step run₆ follows (Nat.le_trans keeps le₆) safe₆ ends₆
    fun source' c₆' _ (same₆ : source'.unplaced = source.unplaced) follows => ?_
  refine (again follows (Nat.le_trans keeps le₇) ends₇).bind ?_
  rintro upserts' c₇' - ⟨follows, same₇⟩
  refine (optionalReturning_again known).step run₈ follows keeps
    (by cases returning <;> exact safe₈) ends
    fun returning' c₈' _ (same₈ : returning'.map Returning.unplaced =
      returning.map Returning.unplaced) follows => ?_
  exact .of_return ⟨follows, by simp [Insert.unplaced, same, same₆, same₇, same₈]⟩

/-! ## Updates and deletions -/

/-- Before a name, no keyword goes on. -/
lemma quiet_qualified {word : Keyword} (value : Option String × String) (rest : List Word) :
    E.Quiet [.keyword word] c (Form.qualified.words value ++ rest) := by
  obtain ⟨schema, name⟩ := value
  cases schema <;> exact .front rfl

/-- The words of an update after its common tables. -/
def updateWords (drift : Bool) (value : Update) : List Word :=
  .ofKeyword .UPDATE :: ((Form.conflict.after [.ofKeyword .OR]).maybe.words value.conflict ++
    (Form.qualified.words (value.schema, value.table) ++
      (Form.aliased.words value.aliasName ++ .ofKeyword .SET ::
        ((Form.assignment drift).commas.words value.assignments ++
          (((Form.tableRef drift).after [.ofKeyword .FROM]).maybe.words value.source ++
            (((Form.expr drift).after [.ofKeyword .WHERE]).maybe.words value.filter ++
              (Form.returning drift).maybe.words value.returning))))))

/-- The words of an update are those of its common tables, and its own. -/
lemma update_words (value : Update) :
    (Form.dataStatement E.drift).words (.update value) =
      (Form.withClause E.drift).maybe.words value.commonTables ++ updateWords E.drift value := by
  have listed := Form.wordsOf_assignments E.drift value.assignments
  have conflicts : Render.wordsOf E.drift (Render.optional value.conflict fun conflict =>
      Render.wordsIf true [.OR, conflict.keyword]) =
        (Form.conflict.after [.ofKeyword .OR]).maybe.words value.conflict := by
    cases value.conflict <;> rfl
  have source : Render.wordsOf E.drift (Render.optional value.source fun table =>
      .blank :: .keyword .FROM :: .blank :: table.pieces) =
        ((Form.tableRef E.drift).after [.ofKeyword .FROM]).maybe.words value.source := by
    cases value.source <;> rfl
  unfold Form.dataStatement
  rw [Form.ofPieces_words, DataStatement.pieces, Update.pieces]
  simp only [Render.wordsOf_append, wordsOf_withClause, List.cons_append,
    Render.wordsOf_blank, Render.wordsOf_keyword, wordsOf_qualified, wordsOf_aliased, conflicts,
    source, wordsOf_whereClause, wordsOf_returningClause, listed, List.append_assoc, updateWords]

/-- **Updates are read again.**

**Proof sketch.** As for insertions: the quiet places are worked out from the end to the front,
where `RETURNING`, `WHERE` and `FROM` each start with their keyword, and then each part is read
again by its own lemma. -/
lemma update_again (known : E.Known n) {commonTables commonTables' : Option WithClause}
    {start start' : Span} {value : Update}
    (run : (update E.rules commonTables start).run E.dialect c = .accepted value c₁)
    (same : commonTables'.map WithClause.unplaced = commonTables.map WithClause.unplaced)
    (follows : E.Follows n c c' (updateWords E.drift value ++ rest))
    (keeps : E.mode.left ≤ c₁.ahead.length) (safe : E.Safe [.update value])
    (ends : E.EndsStatement c₁ rest) :
    Accepts E.dialect (update E.again commonTables' start') c' fun value' c₁' =>
      E.Follows n c₁ c₁' rest ∧ value'.unplaced = value.unplaced := by
  unfold update at run ⊢
  obtain ⟨at_, le₁, run⟩ := accepted_expectKeyword run
  obtain ⟨resolution, c₂, run₂, le₂, run⟩ := accepted_bind run
  obtain ⟨⟨schema, table⟩, c₃, run₃, le₃, run⟩ := accepted_bind run
  obtain ⟨aliasName, c₄, run₄, le₄, run⟩ := accepted_bind run
  obtain ⟨set, le₅, run⟩ := accepted_expectKeyword run
  obtain ⟨assignments, c₅, run₅, le₆, run⟩ := accepted_bind run
  obtain ⟨source, c₆, run₆, le₇, run⟩ := accepted_bind run
  obtain ⟨filter, c₇, run₇, le₈, run⟩ := accepted_bind run
  obtain ⟨returning, c₈, run₈, le₉, run⟩ := accepted_bind run
  obtain ⟨rfl, rfl⟩ := accepted_return run
  simp only [updateWords, List.append_assoc, List.cons_append] at follows
  have below : E.Safe (Node.maybe Node.withClause commonTables ++
    Node.each Node.assignment assignments ++ Node.maybe Node.tableRef source ++
    Node.maybe Node.expr filter ++ Node.maybe Node.returning returning) :=
    (safe_singleton.mp safe).2
  simp only [safe_append, each_eq, maybe_eq] at below
  obtain ⟨⟨⟨⟨-, safe₅⟩, safe₆⟩, safe₇⟩, safe₈⟩ := below
  have quiet₇ : E.Quiet (.symbol .comma :: .keyword .FROM :: .keyword .WHERE :: tableEnd) c₇ _ :=
    (optionalReturning_ends run₈ ends rfl).1
  have quiet₆ : E.Quiet (.symbol .comma :: .keyword .FROM :: tableEnd) c₆ _ :=
    filter_skips.quiet run₇ rfl (quiet₇.mono rfl)
  have quiet₅ : E.Quiet (.symbol .comma :: exprEnd) c₅ _ :=
    Skips.quiet (.afterKeyword (Form.tableRef E.drift) _ _) run₆ rfl (quiet₆.mono rfl)
  refine follows.expectKeyword at_ (Nat.le_trans keeps le₁) fun _ follows _ => ?_
  refine (conflict_again.afterKeyword fun _ _ quiet => ⟨trivial, quiet⟩).plain
    (Form.maybe_bare rfl) run₂ follows (Nat.le_trans keeps le₂)
    (by cases resolution <;> exact safe_nil) (quiet_qualified _ _) fun c₂' _ follows => ?_
  refine qualifiedName_again.plain rfl run₃ follows (Nat.le_trans keeps le₃) safe_nil
    (asName_skips.quiet run₄ rfl (.front rfl)) fun c₃' _ follows => ?_
  refine asName_again.plain (Form.maybe_bare rfl) run₄ follows (Nat.le_trans keeps le₄)
    (by cases aliasName <;> exact safe_nil) (.front rfl) fun c₄' _ follows => ?_
  refine follows.expectKeyword set (Nat.le_trans keeps le₅) fun _ follows _ => ?_
  refine (assignments_again known).step run₅ follows (Nat.le_trans keeps le₆) safe₅ quiet₅
    fun assignments' c₅' _ (same₅ : assignments'.map Assignment.unplaced =
      assignments.map Assignment.unplaced) follows => ?_
  refine (known.tableRef.afterKeyword fun _ _ quiet => ⟨quiet.mono rfl, quiet.mono rfl⟩).step
    run₆ follows (Nat.le_trans keeps le₇) (by cases source <;> exact safe₆) quiet₆
    fun source' c₆' _ (same₆ : source'.map TableRef.unplaced = source.map TableRef.unplaced)
      follows => ?_
  refine (filter_again known).step run₇ follows (Nat.le_trans keeps le₈)
    (by cases filter <;> exact safe₇) (quiet₇.mono rfl)
    fun filter' c₇' _ (same₇ : filter'.map Expr.unplaced = filter.map Expr.unplaced)
      follows => ?_
  refine (optionalReturning_again known).step run₈ follows keeps
    (by cases returning <;> exact safe₈) ends
    fun returning' c₈' _ (same₈ : returning'.map Returning.unplaced =
      returning.map Returning.unplaced) follows => ?_
  exact .of_return ⟨follows, by simp [Update.unplaced, same, same₅, same₆, same₇, same₈]⟩

/-- The words of a deletion after its common tables. -/
def deleteWords (drift : Bool) (value : Delete) : List Word :=
  [Keyword.DELETE, .FROM].map .ofKeyword ++
    (Form.qualified.words (value.schema, value.table) ++
      (Form.aliased.words value.aliasName ++
        (((Form.expr drift).after [.ofKeyword .WHERE]).maybe.words value.filter ++
          (Form.returning drift).maybe.words value.returning)))

/-- The words of a deletion are those of its common tables, and its own. -/
lemma delete_words (value : Delete) :
    (Form.dataStatement E.drift).words (.delete value) =
      (Form.withClause E.drift).maybe.words value.commonTables ++ deleteWords E.drift value := by
  unfold Form.dataStatement
  rw [Form.ofPieces_words, DataStatement.pieces, Delete.pieces]
  simp only [Render.wordsOf_append, wordsOf_withClause, wordsOf_words, Render.wordsOf_blank,
    wordsOf_qualified, wordsOf_aliased, wordsOf_whereClause, wordsOf_returningClause,
    List.append_assoc, deleteWords, List.cons_append]

/-- **Deletions are read again.**

**Proof sketch.** As for insertions: the quiet places are worked out from the end to the front, and
then each part is read again by its own lemma. -/
lemma delete_again (known : E.Known n) {commonTables commonTables' : Option WithClause}
    {start start' : Span} {value : Delete}
    (run : (delete E.rules commonTables start).run E.dialect c = .accepted value c₁)
    (same : commonTables'.map WithClause.unplaced = commonTables.map WithClause.unplaced)
    (follows : E.Follows n c c' (deleteWords E.drift value ++ rest))
    (keeps : E.mode.left ≤ c₁.ahead.length) (safe : E.Safe [.delete value])
    (ends : E.EndsStatement c₁ rest) :
    Accepts E.dialect (delete E.again commonTables' start') c' fun value' c₁' =>
      E.Follows n c₁ c₁' rest ∧ value'.unplaced = value.unplaced := by
  unfold delete at run ⊢
  obtain ⟨_, c₂, run₂, le₂, run⟩ := accepted_bind run
  obtain ⟨⟨schema, table⟩, c₃, run₃, le₃, run⟩ := accepted_bind run
  obtain ⟨aliasName, c₄, run₄, le₄, run⟩ := accepted_bind run
  obtain ⟨filter, c₅, run₅, le₅, run⟩ := accepted_bind run
  obtain ⟨returning, c₆, run₆, le₆, run⟩ := accepted_bind run
  obtain ⟨rfl, rfl⟩ := accepted_return run
  simp only [deleteWords, List.append_assoc] at follows
  have below : E.Safe (Node.maybe Node.withClause commonTables ++ Node.maybe Node.expr filter ++
    Node.maybe Node.returning returning) := (safe_singleton.mp safe).2
  simp only [safe_append, maybe_eq] at below
  obtain ⟨⟨-, safe₅⟩, safe₆⟩ := below
  have quiet₅ : E.Quiet (.symbol .dot :: .keyword .AS :: .keyword .WHERE :: exprEnd) c₅ _ :=
    (optionalReturning_ends run₆ ends rfl).1
  have quiet₄ : E.Quiet [.symbol .dot, .keyword .AS] c₄ _ :=
    filter_skips.quiet run₅ rfl (quiet₅.mono rfl)
  have quiet₃ : E.Quiet [.symbol .dot] c₃ _ := asName_skips.quiet run₄ rfl (quiet₄.mono rfl)
  refine (expectKeywords_again [.DELETE, .FROM]).plain rfl run₂ follows (Nat.le_trans keeps le₂)
    safe_nil trivial fun c₂' _ follows => ?_
  refine qualifiedName_again.plain rfl run₃ follows (Nat.le_trans keeps le₃) safe_nil quiet₃
    fun c₃' _ follows => ?_
  refine asName_again.plain (Form.maybe_bare rfl) run₄ follows (Nat.le_trans keeps le₄)
    (by cases aliasName <;> exact safe_nil) (quiet₄.mono rfl) fun c₄' _ follows => ?_
  refine (filter_again known).step run₅ follows (Nat.le_trans keeps le₅)
    (by cases filter <;> exact safe₅) (quiet₅.mono rfl)
    fun filter' c₅' _ (same₅ : filter'.map Expr.unplaced = filter.map Expr.unplaced)
      follows => ?_
  refine (optionalReturning_again known).step run₆ follows keeps
    (by cases returning <;> exact safe₆) ends
    fun returning' c₆' _ (same₆ : returning'.map Returning.unplaced =
      returning.map Returning.unplaced) follows => ?_
  exact .of_return ⟨follows, by simp [Delete.unplaced, same, same₅, same₆]⟩

/-! ## Statements that read or change rows -/

/-- The common tables of a statement. -/
def tablesOf : DataStatement → Option WithClause
  | .select statement => statement.commonTables
  | .insert statement => statement.commonTables
  | .update statement => statement.commonTables
  | .delete statement => statement.commonTables

/-- The words of a statement after its common tables. -/
def afterTables (drift : Bool) : DataStatement → List Word
  | .select statement => bodyWords drift statement
  | .insert statement => insertWords drift statement
  | .update statement => updateWords drift statement
  | .delete statement => deleteWords drift statement

/-- The words of a statement about data are those of its common tables, and those after them. -/
lemma dataStatement_words (statement : DataStatement) :
    (Form.dataStatement E.drift).words statement =
      (Form.withClause E.drift).maybe.words (tablesOf statement) ++
        afterTables E.drift statement := by
  cases statement with
  | select statement => exact query_words statement
  | insert statement => exact insert_words statement
  | update statement => exact update_words statement
  | delete statement => exact delete_words statement

/-- How a statement was read after its common tables. -/
lemma accepted_dataStatementAfter {rules : Rules} {commonTables : Option WithClause} {start : Span}
    {expected : String} {value : DataStatement}
    (run : (dataStatementAfter rules commonTables start expected).run E.dialect c =
      .accepted value c₁) :
    (∃ statement, value = .select statement ∧ c.view.atAnyKeyword [.SELECT, .VALUES] = true ∧
        (queryAfter rules commonTables start).run E.dialect c = .accepted statement c₁) ∨
      (∃ statement, value = .insert statement ∧ c.view.atAnyKeyword [.INSERT, .REPLACE] = true ∧
        (Grammar.insert rules commonTables start).run E.dialect c = .accepted statement c₁) ∨
      (∃ statement, value = .update statement ∧ c.view.atKeyword .UPDATE = true ∧
        (update rules commonTables start).run E.dialect c = .accepted statement c₁) ∨
      ∃ statement, value = .delete statement ∧ c.view.atKeyword .DELETE = true ∧
        (delete rules commonTables start).run E.dialect c = .accepted statement c₁ := by
  unfold dataStatementAfter at run
  rw [run_view_bind] at run
  split at run
  · next at_ =>
    obtain ⟨statement, c₂, inner, -, run⟩ := accepted_bind run
    obtain ⟨rfl, rfl⟩ := accepted_pure run
    exact .inl ⟨statement, rfl, at_, inner⟩
  split at run
  · next at_ =>
    obtain ⟨statement, c₂, inner, -, run⟩ := accepted_bind run
    obtain ⟨rfl, rfl⟩ := accepted_pure run
    exact .inr (.inl ⟨statement, rfl, at_, inner⟩)
  split at run
  · next at_ =>
    obtain ⟨statement, c₂, inner, -, run⟩ := accepted_bind run
    obtain ⟨rfl, rfl⟩ := accepted_pure run
    exact .inr (.inr (.inl ⟨statement, rfl, at_, inner⟩))
  split at run
  · next at_ =>
    obtain ⟨statement, c₂, inner, -, run⟩ := accepted_bind run
    obtain ⟨rfl, rfl⟩ := accepted_pure run
    exact .inr (.inr (.inr ⟨statement, rfl, at_, inner⟩))
  · exact absurd run not_accepted_unexpected

/-- Where one of some keywords stands, none of others does. -/
lemma not_any {word : Keyword} {others : List Keyword} (at_ : c.view.atKeyword word = true)
    (differ : others.contains word = false) : ¬ c.view.atAnyKeyword others = true := by
  refine not_any_of_not fun other mem => not_otherKeyword at_ ?_
  rintro rfl
  simp [mem] at differ

/-- **Statements are read again after their common tables.**

**Proof sketch.** By the kind of the statement. Its first keyword was next, and its words start with
it, so it is next again: for a query this is the keyword of its first member, for an insertion the
one of its mode. Then the tests for the other kinds fail again, and the statement is read again by
the lemma about its kind. -/
lemma dataStatementAfter_again (known : E.Known n) {commonTables commonTables' : Option WithClause}
    {start start' : Span} {expected expected' : String} {value : DataStatement}
    (run : (dataStatementAfter E.rules commonTables start expected).run E.dialect c =
      .accepted value c₁)
    (same : commonTables'.map WithClause.unplaced = commonTables.map WithClause.unplaced)
    (follows : E.Follows n c c' (afterTables E.drift value ++ rest))
    (keeps : E.mode.left ≤ c₁.ahead.length) (safe : E.Safe [value.node])
    (ends : E.EndsStatement c₁ rest) :
    Accepts E.dialect (dataStatementAfter E.again commonTables' start' expected') c'
      fun value' c₁' => E.Follows n c₁ c₁' rest ∧ value'.unplaced = value.unplaced := by
  unfold dataStatementAfter
  refine Accepts.congr ?_ (run_view_bind ..)
  rcases accepted_dataStatementAfter run with ⟨statement, rfl, any, inner⟩ |
    ⟨statement, rfl, any, inner⟩ | ⟨statement, rfl, at_, inner⟩ | ⟨statement, rfl, at_, inner⟩
  · have inner' := inner
    unfold queryAfter at inner'
    obtain ⟨core, c₂, run₁, le₁, inner'⟩ := accepted_bind inner'
    obtain ⟨compounds, c₃, -, -, inner'⟩ := accepted_bind inner'
    obtain ⟨order, c₄, -, -, inner'⟩ := accepted_bind inner'
    obtain ⟨limit, c₅, -, -, inner'⟩ := accepted_bind inner'
    obtain ⟨rfl, rfl⟩ := accepted_return inner'
    obtain ⟨takes, word, ws, front, at_⟩ := queryCore_starts (E := E) run₁
    have at' : c'.view.atKeyword word = true := by
      simp only [afterTables, bodyWords, front, List.cons_append] at follows
      exact (follows.keyword at_ (Nat.le_trans keeps (Nat.le_trans le₁ takes))).1
    rw [if_pos (atAnyKeyword_of (atAny_mem any at_) at')]
    refine (queryAfter_again known inner same follows keeps safe
      ⟨ends.quiet rfl, ends.done rfl⟩).bind
      ?_
    rintro statement' c₁' - ⟨follows, same⟩
    exact .of_pure ⟨follows, congrArg DataStatement.select same⟩
  · have inner' := inner
    unfold Grammar.insert at inner'
    obtain ⟨mode, c₂, run₁, le₁, inner'⟩ := accepted_bind inner'
    obtain ⟨-, -, inner'⟩ := accepted_expectKeyword inner'
    obtain ⟨⟨schema, table⟩, c₃, -, -, inner'⟩ := accepted_bind inner'
    obtain ⟨aliasName, c₄, -, -, inner'⟩ := accepted_bind inner'
    obtain ⟨columns, c₅, -, -, inner'⟩ := accepted_bind inner'
    obtain ⟨source, c₆, -, -, inner'⟩ := accepted_bind inner'
    obtain ⟨upserts, c₇, -, -, inner'⟩ := accepted_bind inner'
    obtain ⟨returning, c₈, -, -, inner'⟩ := accepted_bind inner'
    obtain ⟨rfl, rfl⟩ := accepted_return inner'
    obtain ⟨word, mem, ws, front⟩ := insertMode_front mode
    obtain ⟨at_, takes⟩ := insertMode_starts run₁ front
    have at' : c'.view.atKeyword word = true := by
      simp only [afterTables, insertWords, front, List.cons_append] at follows
      exact (follows.keyword at_ (Nat.le_trans keeps (Nat.le_trans le₁ takes))).1
    have notQuery : [Keyword.SELECT, .VALUES].contains word = false := by
      clear at_ at' front
      revert word
      decide
    rw [if_neg (not_any at' notQuery), if_pos (atAnyKeyword_of mem at')]
    refine (insert_again known inner same follows keeps safe ends).bind ?_
    rintro statement' c₁' - ⟨follows, same⟩
    exact .of_pure ⟨follows, congrArg DataStatement.insert same⟩
  · obtain ⟨-, takes, -⟩ := accepted_expectKeyword inner
    have at' := (follows.front_keyword ⟨_, rfl⟩ at_ (Nat.le_trans keeps takes)).1
    rw [if_neg (not_any at' rfl), if_neg (not_any at' rfl), if_pos at']
    refine (update_again known inner same follows keeps safe ends).bind ?_
    rintro statement' c₁' - ⟨follows, same⟩
    exact .of_pure ⟨follows, congrArg DataStatement.update same⟩
  · have inner' := inner
    unfold delete at inner'
    obtain ⟨_, c₂, run₁, le₁, -⟩ := accepted_bind inner'
    obtain ⟨-, takes, -⟩ := accepted_expectKeyword run₁
    have at' := (follows.front_keyword ⟨_, rfl⟩ at_
      (Nat.le_trans keeps (Nat.le_trans le₁ takes))).1
    rw [if_neg (not_any at' rfl), if_neg (not_any at' rfl),
      if_neg (not_otherKeyword at' (by decide)), if_pos at']
    refine (delete_again known inner same follows keeps safe ends).bind ?_
    rintro statement' c₁' - ⟨follows, same⟩
    exact .of_pure ⟨follows, congrArg DataStatement.delete same⟩

/-- An insertion has the common tables that were read before it. -/
lemma insert_tables {rules : Rules} {commonTables : Option WithClause} {start : Span} :
    (Grammar.insert rules commonTables start).Yields (·.commonTables = commonTables) := by
  unfold Grammar.insert
  refine .bind fun mode => .bind fun _ => .bind fun (schema, table) => .bind fun aliasName => ?_
  refine .bind fun columns => .bind fun source => .bind fun upserts => .bind fun returning => ?_
  exact .bind fun span => .of_pure rfl

/-- An update has the common tables that were read before it. -/
lemma update_tables {rules : Rules} {commonTables : Option WithClause} {start : Span} :
    (update rules commonTables start).Yields (·.commonTables = commonTables) := by
  unfold update
  refine .bind fun _ => .bind fun onConflict => .bind fun (schema, table) => ?_
  refine .bind fun aliasName => .bind fun _ => .bind fun assignments => .bind fun source => ?_
  refine .bind fun filter => .bind fun returning => ?_
  exact .bind fun span => .of_pure rfl

/-- A deletion has the common tables that were read before it. -/
lemma delete_tables {rules : Rules} {commonTables : Option WithClause} {start : Span} :
    (delete rules commonTables start).Yields (·.commonTables = commonTables) := by
  unfold delete
  refine .bind fun _ => .bind fun (schema, table) => .bind fun aliasName => ?_
  refine .bind fun filter => .bind fun returning => ?_
  exact .bind fun span => .of_pure rfl

/-- A statement about data has the common tables that were read before it. -/
lemma dataStatementAfter_tables {rules : Rules} {commonTables : Option WithClause} {start : Span}
    {expected : String} :
    (dataStatementAfter rules commonTables start expected).Yields
      (tablesOf · = commonTables) := by
  intro dialect c value c₁ run
  rcases accepted_dataStatementAfter (E := ⟨dialect, .written, rules, rules⟩) run with
    ⟨statement, rfl, -, inner⟩ | ⟨statement, rfl, -, inner⟩ | ⟨statement, rfl, -, inner⟩ |
    ⟨statement, rfl, -, inner⟩
  · exact queryAfter_tables inner
  · exact insert_tables inner
  · exact update_tables inner
  · exact delete_tables inner

/-- After its common tables, no more of them go on with a statement. -/
lemma afterTables_quiet (statement : DataStatement) (rest : List Word) :
    E.Quiet [.keyword .WITH, .symbol .comma, .keyword .CREATE] c
      (afterTables E.drift statement ++ rest) := by
  cases statement with
  | select statement =>
    simp only [afterTables, bodyWords, List.append_assoc]
    exact quiet_queryCore statement.core rfl
  | insert statement =>
    simp only [afterTables, insertWords, List.append_assoc]
    cases statement.mode <;> exact .front rfl
  | update statement => exact .front rfl
  | delete statement => exact .front rfl

/-- The common tables of a safe statement are safe. -/
lemma safe_tables {statement : DataStatement} {clause : WithClause}
    (safe : E.Safe [statement.node]) (some : tablesOf statement = some clause) :
    E.Safe [.withClause clause] := by
  have below := (safe_singleton.mp safe).2
  cases statement <;>
    · simp only [tablesOf] at some
      simp only [DataStatement.node, Node.children, some, maybe_eq, safe_append] at below
      first | exact below.1.1.1 | exact below.1.1.1.1 | exact below.1.1

/-- **Statements that read or change rows are read again.**

**Proof sketch.** If `WITH` was next, the words start with the common tables that were read, and
`WITH` is next again. If it was not, there are no common tables, and what the words start with is
not `WITH` (`afterTables_quiet`). The rest is `dataStatementAfter_again`. -/
lemma dataStatement_again (known : E.Known n) {expected expected' : String} :
    E.Reruns n (.dataStatement E.drift) E.EndsStatement (dataStatement E.rules expected)
      (dataStatement E.again expected') := by
  intro c c' value c₁ rest run follows keeps safe ends
  rw [dataStatement_words, List.append_assoc] at follows
  unfold dataStatement at run ⊢
  rw [run_here_bind, run_sees_bind] at run
  refine Accepts.congr ?_ (run_here_bind ..)
  refine accepts_sees ?_
  split at run
  · next at_ =>
    obtain ⟨clause, c₂, run₁, le₁, run⟩ := accepted_bind run
    have tables := dataStatementAfter_tables run
    rw [tables] at follows
    have follows : E.Follows n c c' ((Form.withClause E.drift).words clause ++
      (afterTables E.drift value ++ rest)) := follows
    obtain ⟨-, takes, -⟩ := accepted_expectKeyword run₁
    rw [if_pos (follows.front_keyword (withClause_front clause) at_
      (Nat.le_trans keeps (Nat.le_trans le₁ takes))).1]
    refine (withClause_again known).step run₁ follows (Nat.le_trans keeps le₁)
      (safe_tables safe tables) ((afterTables_quiet value rest).mono rfl)
      fun clause' c₂' _ same follows => ?_
    exact dataStatementAfter_again known run (congrArg some same) follows keeps safe ends
  · next not =>
    have tables := dataStatementAfter_tables run
    rw [tables] at follows
    have follows : E.Follows n c c' (afterTables E.drift value ++ rest) := follows
    rw [if_neg ((afterTables_quiet value rest).not_keyword follows rfl not)]
    exact dataStatementAfter_again known run rfl follows keeps safe ends

end Rereading

end SqlTree
