import SqlTree.Proofs.Gates
import SqlTree.Proofs.Reread.Constraint
import SqlTree.Proofs.Reread.TypeName

set_option autoImplicit false

/-!
# Reading definitions of tables again

The constraints of a column end where a comma, a parenthesis or a further constraint stands. What is
written after a constraint starts with the keywords that the next one was read with.

## Main results

* `SqlTree.Rereading.columnDefinition_again` — columns are read again.
* `SqlTree.Rereading.tableConstraint_again` — constraints of tables are read again.
* `SqlTree.Rereading.tableDefinition_again` — whole definitions are read again, with each option
  written once.
-/

namespace SqlTree

open SqlTree.Grammar in
/-- Options of a table as they are written: each of them once, and in this order. -/
def Grammar.normalOptions (options : List TableOption) : List TableOption :=
  (if options.contains .withoutRowid then [.withoutRowid] else []) ++
    if options.contains .strict then [.strict] else []

namespace Form

open SqlTree.Grammar

/-- An option of a table. -/
def tableOption : Form TableOption :=
  ⟨fun option =>
    match option with
    | .withoutRowid => [.ofKeyword .WITHOUT, .ofName "ROWID"]
    | .strict => [.ofKeyword .STRICT], fun _ => [], id⟩

/-- The options of a table. -/
def tableOptions : Form (List TableOption) :=
  ⟨fun options => tableOption.commas.words (normalOptions options), fun _ => [], normalOptions⟩

variable (drift : Bool)

/-- The Dart class of rows. -/
def rowClass : Form RowClass :=
  ofPieces drift RowClass.pieces (fun rowClass => [.rowClass rowClass]) RowClass.unplaced

/-- The columns, constraints and options of a table. -/
def tableDefinition : Form TableDefinition :=
  ofPieces drift TableDefinition.pieces Node.ofTableDefinition TableDefinition.unplaced

end Form

namespace Rereading

open SqlTree.Parser SqlTree.Grammar

variable {E : Rereading} {n : Nat} {c c' c₁ c₁' : Cursor} {rest : List Word}

/-! ## Constraints of columns -/

/-- The next tokens start a constraint of a column. -/
def StartsConstraint (cursor : Cursor) : Prop :=
  cursor.view.atKeyword .CONSTRAINT = true ∨
    ∃ word, cursor.view.atKeyword word = true ∧ constraintAt word (cursor.peek 1).kind = true

variable (E) in
/-- The definition of a column may end here: a comma or a parenthesis is next. -/
abbrev EndsMember (cursor : Cursor) (rest : List Word) : Prop :=
  E.EndsAt [.comma, .rightParen] cursor rest

variable (E) in
/-- A constraint of a column may end here: either the definition of the column ends, or a further
constraint was read. -/
def EndsColumnConstraint (cursor : Cursor) (rest : List Word) : Prop :=
  E.EndsMember cursor rest ∨ E.EndsConstraint cursor rest ∧ StartsConstraint cursor

/-- Where the constraints of a column end, one of them ends. -/
lemma EndsColumnConstraint.constraint (ends : E.EndsColumnConstraint c rest) :
    E.EndsConstraint c rest := by
  rcases ends with ends | ⟨ends, -⟩
  · exact ⟨ends.quiet rfl, fun on =>
      EndsAt.not_keyword ends.here .ON (kind_of_atKeyword on)⟩
  · exact ends

/-- The words of a constraint of a column are those of its name and those of its kind. -/
lemma columnConstraint_words (name : Option String) (kind : ColumnConstraintKind) (span : Span) :
    (Form.columnConstraint E.drift).words ⟨name, kind, span⟩ ++ rest =
      Form.constraintName.words name ++
        ((Form.columnConstraintKind E.drift).words kind ++ rest) := by
  simp [Form.columnConstraint, ColumnConstraint.pieces, wordsOf_constraintName,
    Form.columnConstraintKind]

/-- A constraint has a name if `CONSTRAINT` was next, and nothing was taken if it was not. -/
lemma accepted_constraintName {name : Option String}
    (run : constraintName.run E.dialect c = .accepted name c₁) :
    (∃ text, name = some text ∧ c.view.atKeyword .CONSTRAINT = true ∧
        c₁.ahead.length ≤ c.advance.ahead.length) ∨
      (name = none ∧ ¬ c.view.atKeyword .CONSTRAINT = true ∧ c₁ = c) := by
  unfold constraintName afterKeyword at run
  rw [run_eatKeyword_bind] at run
  split at run
  · next at_ =>
    obtain ⟨text, c₂, inner, le, run⟩ := accepted_bind run
    obtain ⟨rfl, rfl⟩ := accepted_pure run
    exact .inl ⟨text, rfl, at_, accepted_length inner⟩
  · next not =>
    obtain ⟨rfl, rfl⟩ := accepted_pure run
    exact .inr ⟨rfl, not, rfl⟩

/-- A constraint is read where one starts, and none where none does. -/
lemma accepted_nextColumnConstraint {rules : Rules} {next : Option ColumnConstraint}
    (run : (nextColumnConstraint rules).run E.dialect c = .accepted next c₁) :
    (∃ name kind span c₂, next = some ⟨name, kind, span⟩ ∧
        constraintName.run E.dialect c = .accepted name c₂ ∧
        (columnConstraintKind rules c.current.span).run E.dialect c₂ =
          .accepted (some kind) c₁) ∨
      (next = none ∧ c₁ = c ∧ ¬ StartsConstraint c) := by
  unfold nextColumnConstraint at run
  rw [run_here_bind] at run
  obtain ⟨name, c₂, run₁, -, run⟩ := accepted_bind run
  obtain ⟨kind, c₃, run₂, -, run₃⟩ := accepted_bind run
  cases kind with
  | some kind =>
    dsimp only at run₃
    rw [run_spanFrom_bind] at run₃
    obtain ⟨rfl, rfl⟩ := accepted_pure run₃
    exact .inl ⟨name, kind, _, c₂, rfl, run₁, run₂⟩
  | none =>
    obtain ⟨not, rfl⟩ := accepted_columnConstraintKind_none run₂
    obtain ⟨text, rfl, -⟩ | ⟨rfl, notNamed, rfl⟩ := accepted_constraintName run₁
    · exact absurd run₃ not_accepted_unexpected
    · obtain ⟨rfl, rfl⟩ := accepted_pure run₃
      refine .inr ⟨rfl, rfl, ?_⟩
      rintro (named | ⟨word, at_, starts⟩)
      · exact notNamed named
      · rw [not word at_] at starts
        exact Bool.false_ne_true starts

/-- A constraint of one keyword goes on with nothing that did not go on before. -/
lemma frontOf_inert (kind : ColumnConstraintKind) (alone : (frontOf kind).2 = none) :
    constraintEnd.all (fun starter => !starter.first (.keyword (frontOf kind).1) ||
      starter.second .endOfInput &&
        (starter != .operator || (frontOf kind).1 != .NOT)) = true := by
  cases kind with
  | generated _ _ always =>
    cases always with
    | false => rfl
    | true => cases alone
  | notNull _ | mappedBy _ | jsonKey _ => cases alone
  | _ => rfl

/-- What was read before a constraint may end in front of it. -/
lemma constraint_before {rules : Rules} {name : Option String} {kind : ColumnConstraintKind}
    {start span : Span} {c₂ : Cursor} (run₁ : constraintName.run E.dialect c = .accepted name c₂)
    (run₂ : (columnConstraintKind rules start).run E.dialect c₂ = .accepted (some kind) c₁)
    (rest : List Word) :
    E.EndsConstraint c ((Form.columnConstraint E.drift).words ⟨name, kind, span⟩ ++ rest) ∧
      StartsConstraint c := by
  rw [columnConstraint_words]
  obtain ⟨text, rfl, at_, -⟩ | ⟨rfl, -, rfl⟩ := accepted_constraintName run₁
  · exact ⟨⟨.front rfl, not_otherKeyword at_ (by decide)⟩, .inl at_⟩
  obtain ⟨word, at_, starts, body⟩ := accepted_columnConstraintKind run₂
  have notOn : word ≠ .ON := by
    rintro rfl
    exact absurd starts Bool.false_ne_true
  obtain ⟨rfl, -, pair⟩ := accepted_constraintBody starts body
  refine ⟨⟨?_, not_otherKeyword at_ notOn⟩, .inr ⟨_, at_, starts⟩⟩
  obtain ⟨ws, words⟩ := frontOf_words (E := E) kind
  rw [words]
  cases second : (frontOf kind).2 with
  | none => exact .at_keyword at_ (frontOf_inert kind second)
  | some next =>
    obtain ⟨at_next, -⟩ := pair next second
    refine .same_two (kind_of_atKeyword at_).symm ?_
    rw [← Cursor.peek_advance]
    exact (kind_of_atKeyword at_next).symm

/-- A constraint of a column starts with words that tell that one is next. -/
lemma constraintAt_front (kind : ColumnConstraintKind) {second : TokenKind}
    (pair : ∀ next ∈ (frontOf kind).2, second.isKeyword next = true) :
    constraintAt (frontOf kind).1 second = true := by
  cases kind with
  | generated _ _ always =>
    cases always with
    | false => rfl
    | true => exact pair _ rfl
  | mappedBy _ | jsonKey _ => exact pair _ rfl
  | _ => rfl

/-- What a constraint of a column demands is read again where the same keywords are next. -/
lemma columnConstraintKind_again (known : E.Known n) {start start' : Span}
    {value : ColumnConstraintKind}
    (run : (columnConstraintKind E.rules start).run E.dialect c = .accepted (some value) c₁)
    (follows : E.Follows n c c' ((Form.columnConstraintKind E.drift).words value ++ rest))
    (keeps : E.mode.left ≤ c₁.ahead.length)
    (safe : E.Safe ((Form.columnConstraintKind E.drift).nodes value))
    (ends : E.EndsConstraint c₁ rest) :
    Accepts E.dialect (columnConstraintKind E.again start') c' fun value' c₁' =>
      c₁'.ahead.length < c'.ahead.length ∧ E.Follows n c₁ c₁' rest ∧
        ∃ kind', value' = some kind' ∧ kind'.unplaced = value.unplaced := by
  obtain ⟨word, at_, starts, body⟩ := accepted_columnConstraintKind run
  obtain ⟨rfl, takes, pair⟩ := accepted_constraintBody starts body
  obtain ⟨ws, words⟩ := frontOf_words (E := E) value
  obtain ⟨at', shorter⟩ := follows.front_keyword ⟨_, words⟩ at_ (Nat.le_trans keeps takes)
  have starts' : constraintAt (frontOf value).1 (c'.peek 1).kind = true := by
    refine constraintAt_front value fun next mem => ?_
    obtain ⟨at_next, takes₂⟩ := pair next mem
    have second : E.Follows n c c' (.ofKeyword (frontOf value).1 :: .ofKeyword next ::
        (ws ++ rest)) := by
      rw [words, Option.mem_def.mp mem] at follows
      simpa using follows
    obtain ⟨-, second, -⟩ := second.keyword at_ (Nat.le_trans keeps takes)
    obtain ⟨at_next', -, -⟩ := second.keyword at_next (Nat.le_trans keeps takes₂)
    rw [← Cursor.peek_advance]
    exact TokenKind.isKeyword_iff.mpr (kind_of_atKeyword at_next')
  refine Accepts.congr ?_ (run_columnConstraintKind at' starts')
  have again : Accepts E.dialect (constraintBody E.again start' (frontOf value).1
      (c'.view.second.isSymbol .leftParen)) c' _ :=
    constraintBody_again known at_ starts body follows keeps safe ends
  obtain ⟨kind', c₁', run', last, same⟩ := again
  obtain ⟨-, takes', -⟩ := accepted_constraintBody starts' run'
  exact accepts_of_run run' (.of_pure ⟨Nat.lt_of_le_of_lt takes' shorter, last, kind', rfl, same⟩)

/-- The constraints of a column are read again.

**Proof sketch.** By the lemma about repetitions (`Reruns.many`). A constraint was read where one
starts, before which the one before it ends (`constraint_before`). Its name is read again, and the
kind after it does not start with `CONSTRAINT`, so no name is read where there is none. Where no
constraint was read, either the column ends there, or no constraint starts, and none is read
again. -/
lemma columnConstraints_again (known : E.Known n) {parts : List ColumnConstraint}
    (run : (many E.rules.limit (nextColumnConstraint E.rules)).run E.dialect c =
      .accepted parts c₁) (reached : c.Reachable E.drift)
    (safe : E.Safe ((Form.columnConstraint E.drift).flat.nodes parts)) :
    (∀ rest, E.EndsColumnConstraint c₁ rest →
      E.EndsColumnConstraint c ((Form.columnConstraint E.drift).flat.words parts ++ rest)) ∧
      ∀ {c' rest}, E.Follows n c c' ((Form.columnConstraint E.drift).flat.words parts ++ rest) →
        E.mode.left ≤ c₁.ahead.length → E.EndsColumnConstraint c₁ rest →
        Accepts E.dialect (many E.again.limit (nextColumnConstraint E.again)) c'
          fun parts' c₁' => E.Follows n c₁ c₁' rest ∧
            parts'.map ColumnConstraint.unplaced = parts.map ColumnConstraint.unplaced := by
  refine Reruns.many (Form.columnConstraint E.drift) E.EndsColumnConstraint
    (nextColumnConstraint E.again) known.enough ?_ ?_ run reached safe
  · intro c part c₂ run reached
    obtain ⟨name, kind, span, c₃, eq, run₁, run₂⟩ | ⟨eq, -⟩ := accepted_nextColumnConstraint run
    · obtain rfl := Option.some.inj eq
      refine ⟨fun rest => .inr (constraint_before run₁ run₂ rest),
        fun {c' rest} follows keeps safe ends => ?_⟩
      have unnamed : E.Quiet [.keyword .CONSTRAINT] c₃
          ((Form.columnConstraintKind E.drift).words kind ++ rest) := by
        obtain ⟨word, -, starts, body⟩ := accepted_columnConstraintKind run₂
        obtain ⟨rfl, -, -⟩ := accepted_constraintBody starts body
        obtain ⟨ws, words⟩ := frontOf_words (E := E) kind
        rw [words]
        refine .front ?_
        rw [List.all_cons, List.all_nil, Bool.and_true, Bool.not_eq_true', ← Bool.not_eq_true]
        intro named
        obtain eq : (frontOf kind).1 = .CONSTRAINT := eq_of_beq named
        rw [eq] at starts
        exact absurd starts Bool.false_ne_true
      have safe : E.Safe ((Form.columnConstraintKind E.drift).nodes kind) :=
        (safe_singleton.mp safe).2
      rw [columnConstraint_words] at follows
      unfold nextColumnConstraint
      refine Accepts.congr ?_ (run_here_bind ..)
      refine constraintName_again.plain (Form.maybe_bare rfl) run₁ follows
        (Nat.le_trans keeps (accepted_length run₂)) (by cases name <;> exact safe_nil) unnamed
        fun c₃' run₁' follows => ?_
      refine (columnConstraintKind_again known run₂ follows keeps safe ends.constraint).bind ?_
      rintro _ c₂' - ⟨shorter, last, kind', rfl, same⟩
      refine .of_return ⟨Nat.lt_of_lt_of_le shorter (accepted_length run₁'), _, rfl, ?_, last⟩
      exact congrArg (ColumnConstraint.mk name · .none) same
    · exact absurd eq (by simp)
  · intro c c₂ run
    obtain ⟨_, _, _, _, eq, -⟩ | ⟨-, rfl, not⟩ := accepted_nextColumnConstraint run
    · exact absurd eq (by simp)
    · refine ⟨rfl, fun {c' rest} follows _ ends => ?_⟩
      obtain ends | ⟨-, starts⟩ := ends
      · have none : ∀ word, ¬ c'.view.atKeyword word = true := fun word at' =>
          EndsAt.not_keyword (ends.again follows) word (kind_of_atKeyword at')
        unfold nextColumnConstraint
        refine Accepts.congr ?_ (run_here_bind ..)
        unfold constraintName afterKeyword
        simp only [bind_assoc]
        refine skipKeyword (none .CONSTRAINT) ?_
        rw [if_neg Bool.false_ne_true, pure_bind]
        refine accepts_of_run (run_columnConstraintKind_none fun word at' =>
          absurd at' (none word)) ?_
        exact .of_pure ⟨rfl, follows⟩
      · exact absurd starts not

/-! ## Columns -/

/-- What ends a part by some marks is what is planned to be read next. -/
lemma EndsAt.plan {marks : List Symbol} (ends : E.EndsAt marks c rest) :
    endsAt marks (Word.kindAt (E.plan c rest) 0) = true := by
  cases mode : E.mode with
  | written =>
    rw [plan_written mode]
    exact ends.written mode
  | copy left =>
    rw [kindAt_plan_copy mode]
    split
    · exact ends.here
    · rfl

/-- A type ends where one of these symbols has to be next. -/
lemma EndsAt.type {marks : List Symbol} (ends : E.EndsAt marks c rest)
    (closed : marks.contains .leftParen = false) : E.EndsType c rest := by
  rcases EndsAt.cases_kind ends.plan with ⟨which, mem, kind⟩ | kind
  · refine ⟨by rw [kind]; rfl, ?_⟩
    rw [kind, TokenKind.isSymbol_symbol, beq_eq_false_iff_ne]
    rintro rfl
    rw [List.contains_iff_mem.mpr mem] at closed
    exact absurd closed (by decide)
  · exact ⟨by rw [kind]; rfl, by rw [kind]; rfl⟩

/-- The second reading finds the keyword that the first one takes. -/
lemma kindAt_plan_keyword {word : Keyword} (at_ : c.view.atKeyword word = true)
    (reached : c.Reachable E.drift) (keeps : E.mode.left ≤ c.advance.ahead.length) :
    Word.kindAt (E.plan c (.ofKeyword word :: rest)) 0 = .keyword word := by
  cases mode : E.mode with
  | written =>
    rw [plan_written mode]
    rfl
  | copy left =>
    have length := length_of_atKeyword at_ reached
    rw [mode, Mode.left] at keeps
    rw [kindAt_plan_copy mode, if_pos (by omega)]
    exact kind_of_atKeyword at_

/-- What is planned further on is planned after the first word. -/
lemma kindAt_plan_advance (cursor : Cursor) (word : Word) (rest : List Word) (distance : Nat) :
    Word.kindAt (E.plan cursor (word :: rest)) (distance + 1) =
      Word.kindAt (E.plan cursor.advance rest) distance := by
  cases mode : E.mode with
  | written =>
    rw [plan_written mode, plan_written mode]
    rfl
  | copy left =>
    rw [kindAt_plan_copy mode, kindAt_plan_copy mode, Cursor.peek_advance, Cursor.advance_ahead,
      List.length_tail]
    split <;> split <;> first | rfl | omega

/-- A type ends in front of a keyword that belongs to no type before the token after it. -/
lemma endsType_keyword {word : Keyword} (at_ : c.view.atKeyword word = true)
    (reached : c.Reachable E.drift) (keeps : E.mode.left ≤ c.advance.ahead.length)
    (inert : ∀ {second}, Word.kindAt (E.plan c.advance rest) 0 = second →
      typeWordAt (.keyword word) second = false) :
    E.EndsType c (.ofKeyword word :: rest) := by
  refine ⟨?_, ?_⟩
  · rw [kindAt_plan_keyword at_ reached keeps, kindAt_plan_advance]
    exact inert rfl
  · rw [kindAt_plan_keyword at_ reached keeps]
    rfl

/-- The first keywords of a constraint belong to no type. -/
lemma typeWordAt_front (kind : ColumnConstraintKind) {second : TokenKind}
    (pair : ∀ next ∈ (frontOf kind).2, second = .keyword next) :
    typeWordAt (.keyword (frontOf kind).1) second = false := by
  cases kind with
  | generated _ _ always =>
    cases always with
    | false => rfl
    | true => rw [pair _ rfl]; rfl
  | mappedBy _ | jsonKey _ => rw [pair _ rfl]; rfl
  | _ => rfl

/-- A type may end where the constraints of its column start. -/
lemma columnConstraints_endsType {rules : Rules} {fuel : Nat} {parts : List ColumnConstraint}
    (run : (many fuel (nextColumnConstraint rules)).run E.dialect c = .accepted parts c₁)
    (reached : c.Reachable E.drift) (keeps : E.mode.left ≤ c₁.ahead.length)
    (ends : E.EndsMember c₁ rest) :
    E.EndsType c ((Form.columnConstraint E.drift).flat.words parts ++ rest) := by
  obtain ⟨less, -, ⟨rfl, stop⟩ | ⟨part, others, c₂, rfl, first, later⟩⟩ := accepted_many run
  · obtain ⟨_, _, _, _, eq, -⟩ | ⟨-, rfl, -⟩ := accepted_nextColumnConstraint stop
    · exact absurd eq (by simp)
    · exact ends.type rfl
  · obtain ⟨name, kind, span, c₃, eq, run₁, run₂⟩ | ⟨eq, -⟩ := accepted_nextColumnConstraint first
    · obtain rfl := Option.some.inj eq
      have keeps₂ := Nat.le_trans keeps (accepted_length later)
      change E.EndsType c (((Form.columnConstraint E.drift).words ⟨name, kind, span⟩ ++ _) ++ rest)
      rw [List.append_assoc, columnConstraint_words]
      obtain ⟨text, rfl, named, takes⟩ | ⟨rfl, -, rfl⟩ := accepted_constraintName run₁
      · exact endsType_keyword named reached
          (Nat.le_trans keeps₂ (Nat.le_trans (accepted_length run₂) takes)) fun _ => rfl
      obtain ⟨word, at_, starts, body⟩ := accepted_columnConstraintKind run₂
      obtain ⟨rfl, takes, pair⟩ := accepted_constraintBody starts body
      obtain ⟨ws, words⟩ := frontOf_words (E := E) kind
      rw [words]
      refine endsType_keyword at_ reached (Nat.le_trans keeps₂ takes) fun second =>
        typeWordAt_front kind fun next mem => ?_
      obtain ⟨at_next, takes₂⟩ := pair next mem
      rw [← second, Option.mem_def.mp mem]
      exact kindAt_plan_keyword at_next reached.advance (Nat.le_trans keeps₂ takes₂)
    · exact absurd eq (by simp)

/-- A type starts with a word of a type. -/
lemma typeName_starts {fuel : Nat} {type : TypeName}
    (run : (typeName fuel).run E.dialect c = .accepted type c₁) : atTypeWord c.view = true := by
  unfold typeName at run
  rw [run_here_bind] at run
  obtain ⟨words, c₂, run₁, -, run⟩ := accepted_bind run
  obtain ⟨less, -, ⟨rfl, -⟩ | ⟨word, others, c₃, -, first, -⟩⟩ := accepted_many run₁
  · exact absurd run not_accepted_unexpected
  · obtain ⟨eq, -⟩ | ⟨-, -, at_, -⟩ := accepted_typeWord first
    · exact absurd eq (by simp)
    · exact at_

/-- A type is safe. -/
lemma safe_typeName (type : TypeName) : E.Safe [.typeName type] :=
  safe_singleton.mpr ⟨fun _ => ⟨trivial, trivial⟩, safe_nil⟩

/-- The words of a column are those of its name, of its type and of its constraints. -/
lemma columnDefinition_words (column : ColumnDefinition) :
    (Form.columnDefinition E.drift).words column ++ rest =
      Form.name.words column.name ++ ((Form.typeName E.drift).maybe.words column.type ++
        ((Form.columnConstraint E.drift).flat.words column.constraints ++ rest)) := by
  have listed : Render.wordsOf E.drift (column.constraints.flatMap fun constraint =>
      .blank :: constraint.pieces) =
        (Form.columnConstraint E.drift).flat.words column.constraints :=
    Form.wordsOf_flatMap E.drift (Form.columnConstraint E.drift) _ (fun _ => rfl) _
  have typed : Render.wordsOf E.drift (Render.optional column.type fun type =>
      .blank :: type.pieces) = (Form.typeName E.drift).maybe.words column.type := by
    cases column.type <;> rfl
  unfold Form.columnDefinition
  rw [Form.ofPieces_words, ColumnDefinition.pieces, Render.wordsOf_append, listed,
    Render.wordsOf_name, typed, List.append_assoc, List.cons_append]
  rfl

/-- **Columns are read again.**

**Proof sketch.** The name is read again. The type may be left out, and whether it is is told by the
next word: the constraints after it, and what ends a column, start with no word of a type
(`columnConstraints_endsType`). Then the constraints are read again. -/
lemma columnDefinition_again (known : E.Known n) :
    E.Reruns n (.columnDefinition E.drift) E.EndsMember (columnDefinition E.rules)
      (columnDefinition E.again) := by
  intro c c' value c₁ rest run follows keeps safe ends
  unfold columnDefinition at run ⊢
  rw [run_here_bind] at run
  obtain ⟨name, c₂, run₂, le₂, run⟩ := accepted_bind run
  obtain ⟨type, c₃, run₃, le₃, run⟩ := accepted_bind run
  obtain ⟨constraints, c₄, run₄, le₄, run⟩ := accepted_bind run
  obtain ⟨rfl, rfl⟩ := accepted_return run
  rw [columnDefinition_words] at follows
  have safe : E.Safe ((Form.columnConstraint E.drift).flat.nodes constraints) := by
    have children := (safe_singleton.mp safe).2
    rw [Node.children, safe_append, each_eq] at children
    exact children.2
  have reached₃ := accepted_reachable run₃ (accepted_reachable run₂ follows.reached)
  obtain ⟨-, again⟩ := columnConstraints_again known run₄ reached₃ safe
  refine Accepts.congr ?_ (run_here_bind ..)
  refine identifier_again.plain rfl run₂ follows (Nat.le_trans keeps le₂) safe_nil trivial
    fun c₂' _ follows => ?_
  have quiet := columnConstraints_endsType run₄ reached₃ keeps ends
  refine (known.type.whenever ?_ run₃ follows (Nat.le_trans keeps le₃)
    (by cases type <;> first | exact safe_nil | exact safe_typeName _) (fun _ => quiet) ?_).bind ?_
  · intro c c' type c₁ rest _ run follows keeps ends
    obtain ⟨_, _, run', -⟩ := known.type run follows keeps (safe_typeName _) ends
    exact typeName_starts run'
  · rintro rfl not
    obtain rfl : c₃ = c₂ := by
      unfold whenever at run₃
      rw [run_sees_bind, if_neg not] at run₃
      exact (accepted_pure run₃).2.symm
    rw [atTypeWord_eq, follows.peek, follows.peek, Bool.not_eq_true]
    exact quiet.word
  rintro type' c₃' - ⟨follows, same₃⟩
  refine (again follows keeps (.inl ends)).bind ?_
  rintro constraints' c₄' - ⟨follows, same₄⟩
  have same₃ : type'.map TypeName.unplaced = type.map TypeName.unplaced := same₃
  exact .of_return ⟨follows, by
    simp [Form.columnDefinition, ColumnDefinition.unplaced, same₃, same₄]⟩

/-! ## Constraints of tables -/

/-- The columns of a key, with what to do on a conflict, are read again. -/
lemma keyColumns_again (known : E.Known n)
    (make : List IndexedColumn → Option Conflict → TableConstraintKind)
    {c₂ : Cursor} {columns : List IndexedColumn} {resolution : Option Conflict}
    (run₁ : (parenthesized (indexedColumns E.rules)).run E.dialect c = .accepted columns c₂)
    (run₂ : optionalOnConflict.run E.dialect c₂ = .accepted resolution c₁)
    (follows : E.Follows n c c' ((Form.indexedColumn E.drift).commas.parens.words columns ++
      (Form.onConflict.words resolution ++ rest)))
    (keeps : E.mode.left ≤ c₁.ahead.length)
    (safe : E.Safe (Node.each Node.indexedColumn columns))
    (conflicts : E.Quiet [.keywords .ON .CONFLICT] c₁ rest)
    (bare : ∀ columns', (make columns' resolution).unplaced =
      make (columns'.map IndexedColumn.unplaced) resolution) :
    Accepts E.dialect (do
        let columns ← parenthesized (indexedColumns E.again)
        return make columns (← optionalOnConflict)) c' fun value' c₁' =>
      E.Follows n c₁ c₁' rest ∧ value'.unplaced = (make columns resolution).unplaced := by
  have safe : E.Safe ((Form.indexedColumn E.drift).commas.parens.nodes columns) := by
    rw [each_eq] at safe
    exact safe
  refine (indexedColumns_again known).step run₁ follows
    (Nat.le_trans keeps (accepted_length run₂)) safe trivial fun columns' c₂' _ same follows => ?_
  refine optionalOnConflict_again.plain (Form.maybe_bare rfl) run₂ follows keeps
    (by cases resolution <;> exact safe_nil) conflicts fun c₁' _ follows => ?_
  have same : columns'.map IndexedColumn.unplaced = columns.map IndexedColumn.unplaced := same
  exact .of_pure ⟨follows, by rw [bare, bare, same]⟩

/-- What a constraint of a table demands is read again.

**Proof sketch.** By the keyword that was next. It is next again, so those that are tried before it
are skipped and it is taken. Then the parts are read again: the columns of a key with what is done
on conflict (`keyColumns_again`), the condition in parentheses, or the columns and the table that a
foreign key refers to. -/
lemma tableConstraintKind_again (known : E.Known n) :
    E.Reruns n (.tableConstraintKind E.drift) E.EndsMember (tableConstraintKind E.rules)
      (tableConstraintKind E.again) := by
  intro c c' value c₁ rest run follows keeps safe ends
  have conflicts : E.Quiet [.keywords .ON .CONFLICT] c₁ rest := ends.quiet rfl
  unfold tableConstraintKind at run ⊢
  rw [run_eatKeyword_bind] at run
  split at run
  · next primary =>
    obtain ⟨key, le₁, run⟩ := accepted_expectKeyword run
    obtain ⟨columns, c₂, run₂, -, run⟩ := accepted_bind run
    obtain ⟨resolution, c₃, run₃, -, run⟩ := accepted_bind run
    obtain ⟨rfl, rfl⟩ := accepted_pure run
    have follows : E.Follows n c c' (.ofKeyword .PRIMARY :: .ofKeyword .KEY ::
        ((Form.indexedColumn E.drift).commas.parens.words columns ++
          (Form.onConflict.words resolution ++ rest))) := by
      simpa [Form.tableConstraintKind, TableConstraintKind.pieces, wordsOf_words,
        wordsOf_indexedColumns, wordsOf_onConflict] using follows
    have keeps₁ := Nat.le_trans keeps le₁
    refine follows.eatKeyword primary (Nat.le_trans keeps₁ (by simp)) fun follows _ => ?_
    rw [if_pos rfl]
    refine follows.expectKeyword key keeps₁ fun _ follows _ => ?_
    exact keyColumns_again known .primaryKey run₂ run₃ follows keeps safe conflicts
      fun _ => rfl
  next notPrimary =>
  rw [if_neg Bool.false_ne_true, run_eatKeyword_bind] at run
  split at run
  · next unique =>
    have le₁ := accepted_length run
    obtain ⟨columns, c₂, run₂, -, run⟩ := accepted_bind run
    obtain ⟨resolution, c₃, run₃, -, run⟩ := accepted_bind run
    obtain ⟨rfl, rfl⟩ := accepted_pure run
    have follows : E.Follows n c c' (.ofKeyword .UNIQUE ::
        ((Form.indexedColumn E.drift).commas.parens.words columns ++
          (Form.onConflict.words resolution ++ rest))) := by
      simpa [Form.tableConstraintKind, TableConstraintKind.pieces, wordsOf_indexedColumns,
        wordsOf_onConflict] using follows
    have keeps₁ := Nat.le_trans keeps le₁
    refine follows.skips unique keeps₁ (by decide) ?_
    refine follows.eatKeyword unique keeps₁ fun follows _ => ?_
    exact keyColumns_again known .unique run₂ run₃ follows keeps safe conflicts
      fun _ => rfl
  next notUnique =>
  rw [if_neg Bool.false_ne_true, run_eatKeyword_bind] at run
  split at run
  · next check =>
    obtain ⟨expr, c₂, run₂, -, run⟩ := accepted_bind run
    obtain ⟨rfl, rfl⟩ := accepted_pure run
    have follows : E.Follows n c c' (.ofKeyword .CHECK ::
        ((Form.expr E.drift).parens.words expr ++ rest)) := by
      simpa [Form.tableConstraintKind, TableConstraintKind.pieces, wordsOf_parens, Form.parens,
        Form.expr] using follows
    have keeps₁ := Nat.le_trans keeps (accepted_length run₂)
    refine follows.skips check keeps₁ (by decide) ?_
    refine follows.skips check keeps₁ (by decide) ?_
    refine follows.eatKeyword check keeps₁ fun follows _ => ?_
    refine (enclosed_again known).step run₂ follows keeps safe trivial
      fun expr' c₂' _ same follows => ?_
    exact .of_pure ⟨follows, congrArg TableConstraintKind.check same⟩
  next notCheck =>
  rw [if_neg Bool.false_ne_true, run_eatKeyword_bind] at run
  split at run
  · next foreign =>
    obtain ⟨key, le₁, run⟩ := accepted_expectKeyword run
    obtain ⟨columns, c₂, run₂, le₂, run⟩ := accepted_bind run
    obtain ⟨target, c₃, run₃, le₃, run⟩ := accepted_bind run
    obtain ⟨rfl, rfl⟩ := accepted_pure run
    have follows : E.Follows n c c' (.ofKeyword .FOREIGN :: .ofKeyword .KEY ::
        (Form.name.commas.parens.words columns ++
          ((Form.foreignKey E.drift).words target ++ rest))) := by
      simpa [Form.tableConstraintKind, TableConstraintKind.pieces, wordsOf_words, wordsOf_parens,
        wordsOf_names, Form.parens, Form.foreignKey] using follows
    have keeps₁ := Nat.le_trans keeps le₁
    refine follows.skips foreign (Nat.le_trans keeps₁ (by simp)) (by decide) ?_
    refine follows.skips foreign (Nat.le_trans keeps₁ (by simp)) (by decide) ?_
    refine follows.skips foreign (Nat.le_trans keeps₁ (by simp)) (by decide) ?_
    refine follows.eatKeyword foreign (Nat.le_trans keeps₁ (by simp)) fun follows _ => ?_
    refine follows.expectKeyword key keeps₁ fun _ follows _ => ?_
    refine (columnNames_again known.enough).plain (Form.commas_bare rfl) run₂ follows
      (Nat.le_trans keeps le₂) (safe_names columns) trivial fun c₂' _ follows => ?_
    refine (foreignKey_again known).step run₃ follows keeps safe
      ⟨ends.quiet rfl, fun on => EndsAt.not_keyword ends.here .ON (kind_of_atKeyword on)⟩
      fun target' c₃' _ same follows => ?_
    exact .of_pure ⟨follows, congrArg (TableConstraintKind.foreignKey columns) same⟩
  · exact absurd run not_accepted_unexpected

/-- **Constraints of tables are read again.** -/
lemma tableConstraint_again (known : E.Known n) :
    E.Reruns n (.tableConstraint E.drift) E.EndsMember (tableConstraint E.rules)
      (tableConstraint E.again) := by
  intro c c' value c₁ rest run follows keeps safe ends
  unfold tableConstraint at run ⊢
  rw [run_here_bind] at run
  obtain ⟨name, c₂, run₁, le₁, run⟩ := accepted_bind run
  obtain ⟨kind, c₃, run₂, le₂, run⟩ := accepted_bind run
  obtain ⟨rfl, rfl⟩ := accepted_return run
  have follows : E.Follows n c c' (Form.constraintName.words name ++
      ((Form.tableConstraintKind E.drift).words kind ++ rest)) := by
    simpa [Form.tableConstraint, TableConstraint.pieces, wordsOf_constraintName,
      Form.tableConstraintKind] using follows
  refine Accepts.congr ?_ (run_here_bind ..)
  refine constraintName_again.plain (Form.maybe_bare rfl) run₁ follows (Nat.le_trans keeps le₁)
    (by cases name <;> exact safe_nil) (by cases kind <;> exact .front rfl)
    fun c₂' _ follows => ?_
  refine (tableConstraintKind_again known).step run₂ follows keeps (safe_singleton.mp safe).2 ends
    fun kind' c₃' _ same follows => ?_
  exact .of_return ⟨follows, congrArg (TableConstraint.mk name · .none) same⟩

/-! ## Members of tables -/

/-- The words of members that have been read, each of them after a comma. -/
def memberWords (drift : Bool) (members : TableMembers) : List Word :=
  (members.columns.reverse.flatMap fun column =>
      .ofSymbol .comma :: (Form.columnDefinition drift).words column) ++
    members.constraints.reverse.flatMap fun constraint =>
      .ofSymbol .comma :: (Form.tableConstraint drift).words constraint

/-- The nodes of members that have been read. -/
def memberNodes (members : TableMembers) : List Node :=
  Node.each Node.columnDefinition members.columns.reverse ++
    Node.each Node.tableConstraint members.constraints.reverse

/-- Members that have been read, without spans. -/
def bareMembers (members : TableMembers) : TableMembers :=
  ⟨members.columns.map ColumnDefinition.unplaced, members.constraints.map TableConstraint.unplaced⟩

/-- Members that are the same but for their places have constraints if one of them does. -/
lemma bareMembers_isEmpty {members members' : TableMembers}
    (same : bareMembers members' = bareMembers members) :
    members'.constraints.isEmpty = members.constraints.isEmpty := by
  have := congrArg (fun members => members.constraints.isEmpty) same
  simpa [bareMembers] using this

/-- A constraint of a table is written with the keyword in front that it was read with.

**Proof sketch.** The keywords are tried one after another, and the one that is taken is the first
word of what is read. -/
lemma tableConstraintKind_front {rules : Rules} {value : TableConstraintKind}
    (run : (tableConstraintKind rules).run E.dialect c = .accepted value c₁) :
    ∃ word ws, (Form.tableConstraintKind E.drift).words value = .ofKeyword word :: ws ∧
      c.view.atKeyword word = true ∧ c₁.ahead.length ≤ c.advance.ahead.length := by
  unfold tableConstraintKind at run
  rw [run_eatKeyword_bind] at run
  split at run
  · next at_ =>
    have le := accepted_length run
    obtain ⟨-, -, run⟩ := accepted_expectKeyword run
    obtain ⟨_, _, -, -, run⟩ := accepted_bind run
    obtain ⟨_, _, -, -, run⟩ := accepted_bind run
    obtain ⟨rfl, rfl⟩ := accepted_pure run
    exact ⟨.PRIMARY, _, rfl, at_, le⟩
  rw [if_neg Bool.false_ne_true, run_eatKeyword_bind] at run
  split at run
  · next at_ =>
    have le := accepted_length run
    obtain ⟨_, _, -, -, run⟩ := accepted_bind run
    obtain ⟨_, _, -, -, run⟩ := accepted_bind run
    obtain ⟨rfl, rfl⟩ := accepted_pure run
    exact ⟨.UNIQUE, _, rfl, at_, le⟩
  rw [if_neg Bool.false_ne_true, run_eatKeyword_bind] at run
  split at run
  · next at_ =>
    have le := accepted_length run
    obtain ⟨_, _, -, -, run⟩ := accepted_bind run
    obtain ⟨rfl, rfl⟩ := accepted_pure run
    exact ⟨.CHECK, _, rfl, at_, le⟩
  rw [if_neg Bool.false_ne_true, run_eatKeyword_bind] at run
  split at run
  · next at_ =>
    have le := accepted_length run
    obtain ⟨-, -, run⟩ := accepted_expectKeyword run
    obtain ⟨_, _, -, -, run⟩ := accepted_bind run
    obtain ⟨_, _, -, -, run⟩ := accepted_bind run
    obtain ⟨rfl, rfl⟩ := accepted_pure run
    exact ⟨.FOREIGN, _, rfl, at_, le⟩
  · exact absurd run not_accepted_unexpected

/-- A constraint of a table is written with the keyword in front that it was read with, be it that
of its name. -/
lemma tableConstraint_front {rules : Rules} {value : TableConstraint}
    (run : (tableConstraint rules).run E.dialect c = .accepted value c₁) :
    ∃ word ws, (Form.tableConstraint E.drift).words value = .ofKeyword word :: ws ∧
      c.view.atKeyword word = true ∧ c₁.ahead.length ≤ c.advance.ahead.length := by
  unfold tableConstraint at run
  rw [run_here_bind] at run
  obtain ⟨name, c₂, run₁, le₁, run⟩ := accepted_bind run
  obtain ⟨kind, c₃, run₂, -, run⟩ := accepted_bind run
  obtain ⟨rfl, rfl⟩ := accepted_return run
  have words : (Form.tableConstraint E.drift).words ⟨name, kind, c₃.spanFrom c.current.span⟩ =
      Form.constraintName.words name ++ (Form.tableConstraintKind E.drift).words kind := by
    simp [Form.tableConstraint, TableConstraint.pieces, wordsOf_constraintName,
      Form.tableConstraintKind]
  rw [words]
  obtain ⟨text, rfl, at_, takes⟩ | ⟨rfl, -, rfl⟩ := accepted_constraintName run₁
  · exact ⟨.CONSTRAINT, _, rfl, at_, Nat.le_trans le₁ takes⟩
  · exact tableConstraintKind_front run₂

/-- A word that is no name is not read as one. -/
lemma not_atKeyword_of_atIdentifier {word : Keyword} (at_ : c.view.atIdentifier = true)
    (plain : word.canBeIdentifier = false) : ¬ c.view.atKeyword word = true := by
  intro at_word
  change c.current.kind.isIdentifierLike = true at at_
  rw [kind_of_atKeyword at_word] at at_
  exact absurd (at_.symm.trans plain) (by decide)

/-- A further member of a table is read again.

**Proof sketch.** By whether a constraint was next. If it was, its first keyword is next again, and
the constraint is read again. If it was not, the member is a column, which is only read before the
first constraint, and its name is next again, which is none of the keywords of constraints. -/
lemma tableMember_again (known : E.Known n) {members value : TableMembers}
    (run : (tableMember E.rules members).run E.dialect c = .accepted value c₁) :
    ∃ ws, memberWords E.drift value = memberWords E.drift members ++ .ofSymbol .comma :: ws ∧
      (E.Safe (memberNodes value) → E.Safe (memberNodes members) ∧
        ∀ {members' c' rest}, bareMembers members' = bareMembers members →
          E.Follows n c c' (ws ++ rest) → E.mode.left ≤ c₁.ahead.length → E.EndsMember c₁ rest →
          Accepts E.dialect (tableMember E.again members') c' fun value' c₁' =>
            bareMembers value' = bareMembers value ∧ E.Follows n c₁ c₁' rest) := by
  unfold tableMember at run
  rw [run_sees_bind] at run
  split at run
  · next at_ =>
    obtain ⟨constraint, c₂, run₁, -, run⟩ := accepted_bind run
    obtain ⟨rfl, rfl⟩ := accepted_pure run
    refine ⟨(Form.tableConstraint E.drift).words constraint, by simp [memberWords], fun safe => ?_⟩
    simp only [memberNodes, List.reverse_cons, each_eq, List.flatMap_append, List.flatMap_cons,
      List.flatMap_nil, List.append_nil, safe_append] at safe ⊢
    refine ⟨⟨safe.1, safe.2.1⟩, fun {members' c' rest} same follows keeps ends => ?_⟩
    unfold tableMember
    obtain ⟨word, ws, front, at_word, takes⟩ := tableConstraint_front run₁
    have at' : atTableConstraint c'.view = true :=
      atAnyKeyword_of (atAny_mem at_ at_word)
        (follows.front_keyword ⟨ws, front⟩ at_word (Nat.le_trans keeps takes)).1
    refine Accepts.congr ?_ (run_sees_bind ..)
    rw [if_pos at']
    refine (tableConstraint_again known).step run₁ follows keeps safe.2.2 ends
      fun constraint' c₁' _ (eq : constraint'.unplaced = constraint.unplaced) follows =>
        .of_pure ⟨?_, follows⟩
    have := congrArg TableMembers.columns same
    have := congrArg TableMembers.constraints same
    simp_all [bareMembers]
  · next not =>
    split at run
    · next none =>
      obtain ⟨column, c₂, run₁, -, run⟩ := accepted_bind run
      obtain ⟨rfl, rfl⟩ := accepted_pure run
      rw [List.isEmpty_iff] at none
      refine ⟨(Form.columnDefinition E.drift).words column, by simp [memberWords, none],
        fun safe => ?_⟩
      simp only [memberNodes, List.reverse_cons, each_eq, List.flatMap_append, List.flatMap_cons,
        List.flatMap_nil, List.append_nil, safe_append] at safe ⊢
      refine ⟨⟨safe.1.1, safe.2⟩, fun {members' c' rest} same follows keeps ends => ?_⟩
      obtain ⟨column', c₁', run₁', last, eq⟩ :=
        columnDefinition_again known run₁ follows keeps safe.1.2 ends
      have eq : column'.unplaced = column.unplaced := eq
      have not' : ¬ atTableConstraint c'.view = true := by
        have named : c'.view.atIdentifier = true := by
          unfold columnDefinition at run₁'
          rw [run_here_bind] at run₁'
          obtain ⟨name, _, named, -, -⟩ := accepted_bind run₁'
          exact (accepted_identifier named).1
        refine not_any_of_not fun word mem => not_atKeyword_of_atIdentifier named ?_
        simp only [List.mem_cons, List.not_mem_nil, or_false] at mem
        rcases mem with rfl | rfl | rfl | rfl | rfl <;> rfl
      unfold tableMember
      refine Accepts.congr ?_ (run_sees_bind ..)
      rw [if_neg not', bareMembers_isEmpty same, if_pos (by simpa using none)]
      refine accepts_of_run run₁' (.of_pure ⟨?_, last⟩)
      have := congrArg TableMembers.columns same
      have := congrArg TableMembers.constraints same
      simp_all [bareMembers]
    · exact absurd run not_accepted_unexpected

/-- Where one of these symbols was next, it may be next again. -/
lemma EndsAt.at_symbol {which : Symbol} {marks : List Symbol} (at_ : c.view.atSymbol which = true)
    (mem : marks.contains which = true) : E.EndsAt marks c (.ofSymbol which :: rest) :=
  ⟨by rw [kind_of_atSymbol at_]; exact mem, fun _ => mem⟩

/-- The members of a table are read again.

**Proof sketch.** The first member is read again, and the loop over the others is taken apart into
its turns (`loops_again`): in each of them the comma is taken again, and then the member is read
again. At the end no comma is next again, because the end of the list is quiet about commas. -/
lemma tableMembers_again (known : E.Known n) {value : TableMembers}
    (run : (tableMembers E.rules).run E.dialect c = .accepted value c₁)
    (reached : c.Reachable E.drift) (safe : E.Safe (memberNodes value)) :
    ∃ ws, memberWords E.drift value = .ofSymbol .comma :: ws ∧
      ∀ {c' rest}, E.Follows n c c' (ws ++ rest) → E.mode.left ≤ c₁.ahead.length →
        E.EndsMember c₁ rest → E.Quiet [.symbol .comma] c₁ rest →
        Accepts E.dialect (tableMembers E.again) c' fun value' c₁' =>
          bareMembers value' = bareMembers value ∧ E.Follows n c₁ c₁' rest := by
  unfold tableMembers at run
  obtain ⟨first, c₂, run₁, -, loop⟩ := accepted_bind run
  obtain ⟨c₃, loops, stop⟩ := accepted_iterate loop
  rw [run_eatSymbol_bind] at stop
  split at stop
  · obtain ⟨_, _, -, -, last⟩ := accepted_bind stop
    exact absurd (accepted_pure last).1 (by simp)
  next noComma =>
  obtain ⟨-, rfl⟩ := accepted_pure stop
  obtain ⟨ws, words, quiets, again⟩ := loops_again (E := E) (n := n)
    (fun members => do
      if ← eatSymbol .comma then
        return some (← tableMember E.again members)
      else
        return none)
    (memberWords E.drift) (fun members members' => bareMembers members' = bareMembers members)
    (fun members => E.Safe (memberNodes members)) E.EndsMember
    (by
      intro members c next c₂ run _
      rw [run_eatSymbol_bind] at run
      split at run
      · next comma =>
        obtain ⟨value, c₃, inner, -, last⟩ := accepted_bind run
        obtain ⟨eq, rfl⟩ := accepted_pure last
        obtain rfl := Option.some.inj eq
        obtain ⟨ws, words, again⟩ := tableMember_again known inner
        refine ⟨.ofSymbol .comma :: ws, words, fun _ => .at_symbol comma rfl, fun safe => ?_⟩
        obtain ⟨safe, again⟩ := again safe
        refine ⟨safe, fun {members' c' rest} same follows keeps ends => ?_⟩
        refine follows.eatSymbol comma (Nat.le_trans keeps (accepted_length inner))
          fun follows shorter => ?_
        obtain ⟨value', c₃', run', same, last⟩ := again same follows keeps ends
        exact accepts_of_run run' (.of_pure
          ⟨Nat.lt_of_le_of_lt (accepted_length run') shorter, value', rfl, same, last⟩)
      · exact absurd (accepted_pure run).1 (by simp))
    loops (accepted_reachable run₁ reached)
  obtain ⟨safe₁, again⟩ := again safe
  obtain ⟨ws₁, words₁, again₁⟩ := tableMember_again known run₁
  obtain ⟨-, again₁⟩ := again₁ safe₁
  refine ⟨ws₁ ++ ws, by rw [words, words₁]; rfl, fun {c' rest} follows keeps ends noMore => ?_⟩
  rw [List.append_assoc] at follows
  unfold tableMembers
  refine (again₁ rfl follows (Nat.le_trans keeps loops.length) (quiets rest ends)).bind ?_
  rintro first' c₂' - ⟨same, follows⟩
  have short := follows.short
  have enough := known.enough
  refine again same follows keeps ends (by omega) fun {value' c₁'} _ follows => ?_
  exact skipSymbol (noMore.not_symbol follows rfl noComma) (.of_pure ⟨rfl, follows⟩)

/-! ## Options of tables -/

/-- `WITHOUT ROWID` is read as the option. -/
lemma run_withoutRowid {dialect : Dialect} (at_ : c.view.atKeyword .WITHOUT = true)
    (rowid : atRowid c.advance.view = true) :
    tableOption.run dialect c = .accepted .withoutRowid c.advance.advance := by
  have sound : c.advance.current.kind.isMalformed = false := by
    unfold atRowid at rowid
    split at rowid
    · next word kind => rw [show c.advance.current.kind = _ from kind]; rfl
    · exact absurd rowid Bool.false_ne_true
  unfold tableOption
  rw [run_eatKeyword_bind, if_pos at_, if_pos rfl, run_sees_bind, if_pos rowid,
    run_advance_bind sound]
  rfl

/-- `STRICT` is read as the option, where the dialect has it. -/
lemma run_strict {dialect : Dialect} (at_ : c.view.atKeyword .STRICT = true)
    (has : dialect.supports .strictTables = true) :
    tableOption.run dialect c = .accepted .strict c.advance := by
  unfold tableOption
  rw [run_eatKeyword_bind, if_neg (not_otherKeyword at_ (by decide)), if_neg Bool.false_ne_true,
    run_sees_bind, if_pos at_, run_here_bind, run_bind]
  simp only [require, Parser.run, has, if_true]
  rw [run_advance_bind (sound_of_atKeyword at_)]
  rfl

/-- What an option was read from. -/
lemma accepted_tableOption {option : TableOption}
    (run : tableOption.run E.dialect c = .accepted option c₁) :
    (option = .withoutRowid ∧ c.view.atKeyword .WITHOUT = true ∧
        atRowid c.advance.view = true ∧ c₁ = c.advance.advance) ∨
      (option = .strict ∧ c.view.atKeyword .STRICT = true ∧
        E.dialect.supports .strictTables = true ∧ c₁ = c.advance) := by
  unfold tableOption at run
  rw [run_eatKeyword_bind] at run
  split at run
  · next without =>
    rw [if_pos rfl, run_sees_bind] at run
    split at run
    · next rowid =>
      obtain ⟨-, -, run⟩ := accepted_advance run
      obtain ⟨rfl, rfl⟩ := accepted_pure run
      exact .inl ⟨rfl, without, rowid, rfl⟩
    · exact absurd run not_accepted_unexpected
  rw [if_neg Bool.false_ne_true, run_sees_bind] at run
  split at run
  · next strict =>
    rw [run_here_bind] at run
    obtain ⟨has, run⟩ := accepted_require run
    obtain ⟨-, -, run⟩ := accepted_advance run
    obtain ⟨rfl, rfl⟩ := accepted_pure run
    exact .inr ⟨rfl, strict, has, rfl⟩
  · exact absurd run not_accepted_unexpected

/-- An option of a table is read again. -/
lemma tableOption_again : E.Reruns n .tableOption (fun _ _ => True) tableOption tableOption := by
  intro c c' value c₁ rest run follows keeps _ _
  obtain ⟨rfl, without, rowid, rfl⟩ | ⟨rfl, strict, has, rfl⟩ := accepted_tableOption run
  · have follows : E.Follows n c c' (.ofKeyword .WITHOUT :: .ofName "ROWID" :: rest) := follows
    obtain ⟨without', follows, -⟩ := follows.keyword without (Nat.le_trans keeps (by simp))
    have kind : c.advance.current.kind ≠ .endOfInput := by
      intro kind
      unfold atRowid at rowid
      rw [show c.advance.view.current.kind = _ from kind] at rowid
      exact absurd rowid Bool.false_ne_true
    obtain ⟨next, -, seen⟩ := follows.take (ahead_of_kind follows.reached kind) keeps
    have rowid' : atRowid c'.advance.view = true := by
      unfold atRowid at rowid ⊢
      rcases seen with ⟨-, kind, -⟩ | ⟨-, kind, -⟩
      · rw [show c'.advance.view.current.kind = c.advance.view.current.kind from kind]
        exact rowid
      · rw [show c'.advance.view.current.kind = .identifier "ROWID" from kind]
        decide
    exact ⟨_, _, run_withoutRowid without' rowid', next, rfl⟩
  · have follows : E.Follows n c c' (.ofKeyword .STRICT :: rest) := follows
    obtain ⟨strict', next, -⟩ := follows.keyword strict keeps
    exact ⟨_, _, run_strict strict' has, next, rfl⟩

/-- Options that are written are read, whatever was read in the first source. -/
lemma tableOption_written {option : TableOption} (written : E.mode = .written)
    (has : option = .strict → E.dialect.supports .strictTables = true)
    (follows : E.Follows n c c' (Form.tableOption.words option ++ rest)) :
    ∃ c₁', tableOption.run E.dialect c' = .accepted option c₁' ∧ E.Follows n c c₁' rest := by
  cases option with
  | withoutRowid =>
    have follows : E.Follows n c c' (.ofKeyword .WITHOUT :: .ofName "ROWID" :: rest) := follows
    obtain ⟨without, -, next, -⟩ := follows.spelled written
    obtain ⟨rowid, -, last, -⟩ := next.spelled written
    refine ⟨_, run_withoutRowid (atKeyword_of_kind without) ?_, last⟩
    unfold atRowid
    rw [show c'.advance.view.current.kind = .identifier "ROWID" from rowid]
    decide
  | strict =>
    have follows : E.Follows n c c' (.ofKeyword .STRICT :: rest) := follows
    obtain ⟨strict, -, last, -⟩ := follows.spelled written
    exact ⟨_, run_strict (atKeyword_of_kind strict) (has rfl), last⟩

/-- The options after the first one are read as they are written. -/
lemma furtherOptions_written {others : List TableOption} {fuel : Nat} (written : E.mode = .written)
    (has : .strict ∈ others → E.dialect.supports .strictTables = true)
    (follows : E.Follows n c c' ((others.flatMap fun option =>
      .ofSymbol .comma :: Form.tableOption.words option) ++ rest))
    (enough : c'.ahead.length < fuel)
    (last : ∀ {c₁'}, E.Follows n c c₁' rest → ¬ c₁'.view.atSymbol .comma = true) :
    ∃ c₁', (many fuel do
        if ← eatSymbol .comma then return some (← tableOption) else return none).run E.dialect c' =
      .accepted others c₁' ∧ E.Follows n c c₁' rest := by
  induction others generalizing c' fuel with
  | nil =>
    obtain ⟨fuel, rfl⟩ : ∃ less, fuel = less + 1 := ⟨fuel - 1, by omega⟩
    refine ⟨c', run_many_of_none fuel ?_, follows⟩
    rw [run_eatSymbol_bind, if_neg (last follows)]
    rfl
  | cons option others ih =>
    obtain ⟨fuel, rfl⟩ : ∃ less, fuel = less + 1 := ⟨fuel - 1, by omega⟩
    rw [List.flatMap_cons, List.append_assoc, List.cons_append] at follows
    obtain ⟨comma, -, next, shorter⟩ := follows.spelled written
    obtain ⟨c₂', run₂, next⟩ := tableOption_written written
      (fun eq => has (by rw [eq]; exact List.mem_cons_self)) next
    have le := accepted_length run₂
    have short : c₂'.ahead.length < fuel := by omega
    obtain ⟨c₃', run₃, next⟩ := ih (fun mem => has (List.mem_cons_of_mem _ mem)) next short
    have step : (do
        if ← eatSymbol .comma then return some (← tableOption) else return none).run E.dialect c' =
          .accepted (some option) c₂' := by
      rw [run_eatSymbol_bind, if_pos (atSymbol_of_kind comma), if_pos rfl, run_bind, run₂]
      rfl
    exact ⟨c₃', by rw [run_many_of_some fuel step, run₃]; rfl, next⟩

/-- Where there are options, there are some when each is written once. -/
lemma normalOptions_ne_nil {options : List TableOption} (some : options ≠ []) :
    normalOptions options ≠ [] := by
  obtain ⟨option, others, rfl⟩ := List.exists_cons_of_ne_nil some
  cases option <;> simp [normalOptions]

/-- Writing each option once changes nothing the second time. -/
lemma normalOptions_normal (options : List TableOption) :
    normalOptions (normalOptions options) = normalOptions options := by
  unfold normalOptions
  split <;> split <;> rfl

/-- The options are the same when each is written once. -/
lemma normalOptions_contains (options : List TableOption) (option : TableOption) :
    (normalOptions options).contains option = options.contains option := by
  unfold normalOptions
  cases option <;> split <;> split <;> simp_all

/-- Options that are written are read one after the other. -/
lemma tableOptions_written {options : List TableOption} (written : E.mode = .written)
    (enough : n ≤ E.again.limit) (some : options ≠ [])
    (has : .strict ∈ options → E.dialect.supports .strictTables = true)
    (follows : E.Follows n c c' (Form.tableOption.commas.words options ++ rest))
    (last : ∀ {c₁'}, E.Follows n c c₁' rest → ¬ c₁'.view.atSymbol .comma = true) :
    ∃ c₁', (tableOptions E.again).run E.dialect c' = .accepted options c₁' ∧
      E.Follows n c c₁' rest := by
  obtain ⟨first, others, rfl⟩ := List.exists_cons_of_ne_nil some
  have follows : E.Follows n c c' (Form.tableOption.words first ++
      ((others.flatMap fun option => .ofSymbol .comma :: Form.tableOption.words option) ++
        rest)) := by simpa [Form.commas] using follows
  have at' : c'.view.atAnyKeyword [.WITHOUT, .STRICT] = true := by
    cases first with
    | withoutRowid =>
      have follows : E.Follows n c c' (.ofKeyword .WITHOUT :: _) := follows
      exact atAnyKeyword_of (by simp) (atKeyword_of_kind (follows.spelled written).1)
    | strict =>
      have follows : E.Follows n c c' (.ofKeyword .STRICT :: _) := follows
      exact atAnyKeyword_of (by simp) (atKeyword_of_kind (follows.spelled written).1)
  obtain ⟨c₂', run₂, follows⟩ := tableOption_written written
    (fun eq => has (by rw [eq]; exact List.mem_cons_self)) follows
  have short := follows.short
  obtain ⟨c₃', run₃, follows⟩ := furtherOptions_written written
    (fun mem => has (List.mem_cons_of_mem _ mem)) follows (Nat.lt_of_lt_of_le short enough) last
  refine ⟨c₃', ?_, follows⟩
  unfold tableOptions whenever commaSeparated
  rw [run_bind, run_sees_bind, if_pos at', run_bind, run_bind, run₂]
  dsimp only
  rw [run_bind, run₃]
  rfl

/-- No comma stands after parts with commas between them. -/
lemma commaSeparated_stops {α : Type} {p : Parser α} {fuel : Nat} {parts : List α}
    (run : (commaSeparated fuel p).run E.dialect c = .accepted parts c₁) :
    ¬ c₁.view.atSymbol .comma = true := by
  obtain ⟨first, c₂, -, -, run⟩ := accepted_bind run
  obtain ⟨others, c₃, loop, -, run⟩ := accepted_bind run
  obtain ⟨-, rfl⟩ := accepted_pure run
  obtain ⟨found, c₄, turns, -, last⟩ := accepted_bind loop
  obtain ⟨-, rfl⟩ := accepted_pure last
  obtain ⟨c₅, -, stop⟩ := accepted_iterate turns
  obtain ⟨next, c₆, turn, -, last⟩ := accepted_bind stop
  obtain ⟨none, rfl⟩ := accepted_pure last
  rw [run_eatSymbol_bind] at turn
  split at turn
  · obtain ⟨value, _, -, -, last⟩ := accepted_bind turn
    obtain ⟨rfl, -⟩ := accepted_pure last
    exact absurd none (by simp)
  · next not =>
    obtain ⟨-, rfl⟩ := accepted_pure turn
    exact not

/-- The options of a table are read again, or what is left of them where each is written once.

**Proof sketch.** By whether options were next, and then by the mode. In a written text each option
stands once, and they are read as they stand (`tableOptions_written`); that the dialect has strict
tables follows from the first reading. In a copy the options are read again one by one, and the
first keyword of them is next again. Without options none is next again, as what follows is quiet
about them. -/
lemma tableOptions_again (enough : n ≤ E.again.limit) :
    E.Reruns n .tableOptions (E.Quiet [.keyword .WITHOUT, .keyword .STRICT, .symbol .comma])
      (tableOptions E.rules) (tableOptions E.again) := by
  intro c c' value c₁ rest run follows keeps _ quiet
  have strict : value.contains .strict = true → E.dialect.supports .strictTables = true := by
    obtain ⟨count, eq⟩ := follows.reached
    exact tableOptions_gated (by rw [eq]; exact (E.dialect.start_fits _).iterate count) run
  unfold tableOptions at run ⊢
  obtain ⟨found, c₂, run₁, -, run⟩ := accepted_bind run
  obtain ⟨rfl, rfl⟩ := accepted_pure run
  unfold whenever at run₁
  rw [run_sees_bind] at run₁
  split at run₁
  · next at_ =>
    obtain ⟨options, c₂, inner, -, last⟩ := accepted_bind run₁
    obtain ⟨rfl, rfl⟩ := accepted_pure last
    rw [Option.getD_some] at follows strict
    cases mode : E.mode with
    | written =>
      obtain ⟨c₁', run', last⟩ := tableOptions_written mode enough
        (normalOptions_ne_nil (commaSeparated_ne_nil _ inner))
        (fun mem => strict (by
          unfold normalOptions at mem
          split at mem <;> split at mem <;> simp_all))
        follows fun follows => quiet.not_symbol
          (follows.of_written mode (accepted_reachable inner follows.reached)) rfl
          (commaSeparated_stops inner)
      exact ⟨_, c₁', run', last.of_written mode (accepted_reachable inner follows.reached),
        normalOptions_normal options⟩
    | copy left =>
      have copy : E.mode ≠ .written := by simp [mode]
      obtain ⟨options', c₁', run', next, same⟩ :=
        (tableOption_again.commaSeparated enough (fun _ _ _ => trivial)
          fun _ _ quiet => ⟨trivial, quiet⟩) inner (follows.of_copy copy _) keeps
          (by intro written; exact absurd written copy) (quiet.mono rfl)
      obtain rfl : options' = options := by simpa [Form.commas, Form.tableOption] using same
      obtain ⟨word, mem, here⟩ := List.any_eq_true.mp at_
      have takes : c₂.ahead.length ≤ c.advance.ahead.length := by
        obtain ⟨first, c₃, run₁, le, -⟩ := accepted_bind inner
        refine Nat.le_trans le ?_
        obtain ⟨-, -, -, rfl⟩ | ⟨-, -, -, rfl⟩ := accepted_tableOption run₁ <;> simp
      obtain ⟨kind, -⟩ := follows.copied copy [] (ahead_of_kind follows.reached (by
        rw [kind_of_atKeyword here]
        exact TokenKind.noConfusion)) (Nat.le_trans keeps takes)
      have at' : c'.view.atAnyKeyword [.WITHOUT, .STRICT] = true :=
        atAnyKeyword_of mem (atKeyword_of_kind (kind.trans (kind_of_atKeyword here)))
      have accepts : Accepts E.dialect (commaSeparated E.again.limit tableOption) c'
          fun options'' c₁' => options'' = options' ∧ E.Follows n c₂ c₁' rest :=
        ⟨_, _, run', rfl, next⟩
      refine (accepts_whenever_some at' accepts).bind ?_
      rintro _ c₁' - ⟨_, rfl, rfl, next⟩
      exact .of_pure ⟨next, rfl⟩
  · next not =>
    obtain ⟨rfl, rfl⟩ := accepted_pure run₁
    have follows : E.Follows n c c' rest := follows
    refine (accepts_whenever_none (not_any_of_not fun word mem => ?_)).bind ?_
    · refine quiet.not_keyword follows ?_ fun at_ => not (atAnyKeyword_of mem at_)
      simp only [List.mem_cons, List.not_mem_nil, or_false] at mem
      rcases mem with rfl | rfl <;> rfl
    · rintro _ c₁' - ⟨rfl, rfl⟩
      exact .of_pure ⟨follows, rfl⟩

/-! ## Classes of rows -/

/-- The words of a row class are the keyword it was read with, and its name. -/
lemma rowClass_words {word : Keyword} {value : RowClass} (mem : word ∈ [Keyword.AS, .WITH])
    (at_ : c.view.atKeyword word = true)
    (run : rowClass.run E.dialect c = .accepted value c₁) :
    value.existing = (word == .WITH) ∧
      (Form.rowClass E.drift).words value = [.ofKeyword word, .ofName value.name] := by
  unfold rowClass at run
  rw [run_here_bind] at run
  obtain ⟨-, run⟩ := accepted_require run
  obtain ⟨-, -, run⟩ := accepted_advance run
  obtain ⟨name, c₂, -, -, run⟩ := accepted_bind run
  obtain ⟨rfl, rfl⟩ := accepted_return run
  have existing : c.current.isKeyword .WITH = (word == .WITH) := by
    rw [Token.isKeyword_eq, kind_of_atKeyword at_, TokenKind.isKeyword_keyword]
  refine ⟨existing, ?_⟩
  unfold Form.rowClass
  rw [Form.ofPieces_words, RowClass.pieces]
  simp only [List.mem_cons, List.not_mem_nil, or_false] at mem
  rcases mem with rfl | rfl <;> simp [kind_of_atKeyword at_]

/-- A row class takes its keyword. -/
lemma rowClass_takes {value : RowClass} (run : rowClass.run E.dialect c = .accepted value c₁) :
    c₁.ahead.length ≤ c.advance.ahead.length := by
  unfold rowClass at run
  rw [run_here_bind] at run
  obtain ⟨-, run⟩ := accepted_require run
  exact (accepted_advance run).2.1

/-- What a row class was read from. -/
lemma rowClass_names {value : RowClass} (run : rowClass.run E.dialect c = .accepted value c₁) :
    c.advance.view.atIdentifier = true ∧ value.name = nameOf c.advance.current ∧
      c.advance.advance = c₁ := by
  unfold rowClass at run
  rw [run_here_bind] at run
  obtain ⟨-, run⟩ := accepted_require run
  obtain ⟨-, -, run⟩ := accepted_advance run
  obtain ⟨name, c₂, run₁, -, run⟩ := accepted_bind run
  obtain ⟨rfl, rfl⟩ := accepted_return run
  obtain ⟨is, rfl, rfl⟩ := accepted_identifier run₁
  exact ⟨is, rfl, rfl⟩

/-- The Dart class of rows is read again. -/
lemma rowClass_again {word : Keyword} (mem : word ∈ [Keyword.AS, .WITH]) :
    E.RerunsAt word n (.rowClass E.drift) (fun _ _ => True) rowClass rowClass := by
  intro c c' value c₁ rest at_ run follows keeps _ _
  obtain ⟨existing, words⟩ := rowClass_words mem at_ run
  rw [words] at follows
  unfold rowClass at run ⊢
  rw [run_here_bind] at run
  obtain ⟨has, run⟩ := accepted_require run
  obtain ⟨-, le, run⟩ := accepted_advance run
  obtain ⟨name, c₂, run₂, -, run⟩ := accepted_bind run
  obtain ⟨rfl, rfl⟩ := accepted_return run
  obtain ⟨at', next, -⟩ := follows.keyword at_ (Nat.le_trans keeps le)
  refine Accepts.congr ?_ (run_here_bind ..)
  refine accepts_require has (accepts_advance (sound_of_atKeyword at') ?_)
  refine identifier_again.plain rfl run₂ next keeps safe_nil trivial fun c₂' _ follows => ?_
  refine .of_return ⟨follows, ?_⟩
  simp [Form.rowClass, RowClass.unplaced, kind_of_atKeyword at', kind_of_atKeyword at_]

/-- A row class is safe. -/
lemma safe_rowClass (value : Option RowClass) :
    E.Safe ((Form.rowClass E.drift).maybe.nodes value) := by
  cases value with
  | none => exact safe_nil
  | some value => exact safe_singleton.mpr ⟨fun _ => ⟨trivial, trivial⟩, safe_nil⟩

/-- The Dart class of rows is read again where one of its keywords is next. -/
lemma optionalRowClass_again :
    E.Reruns n (Form.rowClass E.drift).maybe (E.Quiet [.keyword .AS, .keyword .WITH])
      (whenever (·.atAnyKeyword [.AS, .WITH]) rowClass)
      (whenever (·.atAnyKeyword [.AS, .WITH]) rowClass) := by
  intro c c' value c₁ rest run follows keeps _ quiet
  unfold whenever at run
  rw [run_sees_bind] at run
  split at run
  · next any =>
    obtain ⟨value, c₂, inner, -, last⟩ := accepted_bind run
    obtain ⟨rfl, rfl⟩ := accepted_pure last
    obtain ⟨word, mem, at_⟩ := List.any_eq_true.mp any
    obtain ⟨-, words⟩ := rowClass_words mem at_ inner
    have follows : E.Follows n c c' ((Form.rowClass E.drift).words value ++ rest) := follows
    have takes : c₂.ahead.length ≤ c.advance.ahead.length := rowClass_takes inner
    have at' := (follows.front_keyword ⟨_, words⟩ at_ (Nat.le_trans keeps takes)).1
    refine (accepts_whenever_some (atAnyKeyword_of mem at')
      (rowClass_again mem at_ inner follows keeps (safe_rowClass (some value)) trivial)).mono ?_
    rintro _ c₁' ⟨value', rfl, next, same⟩
    exact ⟨next, congrArg Option.some same⟩
  · next not =>
    obtain ⟨rfl, rfl⟩ := accepted_pure run
    have follows : E.Follows n c c' rest := follows
    refine (accepts_whenever_none (not_any_of_not fun word mem => ?_)).mono ?_
    · refine quiet.not_keyword follows ?_ fun at_ => not (atAnyKeyword_of mem at_)
      simp only [List.mem_cons, List.not_mem_nil, or_false] at mem
      rcases mem with rfl | rfl <;> rfl
    · rintro _ c₁' ⟨rfl, rfl⟩
      exact ⟨follows, rfl⟩

/-- A row class that may be left out has words that start with its keyword. -/
lemma optionalRowClass_skips {test : View → Bool} :
    Skips E.dialect (Form.rowClass E.drift).maybe [.keyword .AS, .keyword .WITH]
      (whenever test rowClass) :=
  .whenever fun value => by
    obtain ⟨name, existing, span⟩ := value
    cases existing <;> exact ⟨_, _, rfl, by simp [Word.ofKeyword]⟩

/-- The pieces of a row class that may be left out have the words of its form. -/
lemma wordsOf_rowClass (drift : Bool) (value : Option RowClass) :
    Render.wordsOf drift (Render.optional value fun rowClass => .blank :: rowClass.pieces) =
      (Form.rowClass drift).maybe.words value := by
  cases value <;> rfl

/-! ## Definitions of tables -/

/-- What goes on with the definition of a table. -/
def definitionEnd : List Starter :=
  [.keyword .WITHOUT, .keyword .STRICT, .symbol .comma, .keyword .AS, .keyword .WITH]

/-- The members of a table have the words of its columns and constraints, after a comma. -/
lemma wordsOf_members (drift : Bool) (members : TableMembers) (some : members.columns ≠ []) :
    memberWords drift members = .ofSymbol .comma :: (Render.wordsOf drift (Render.commas
        (members.columns.reverse.map ColumnDefinition.pieces)) ++
      Render.wordsOf drift (members.constraints.reverse.flatMap fun constraint =>
        .symbol .comma :: .blank :: constraint.pieces)) := by
  have constraints : Render.wordsOf drift (members.constraints.reverse.flatMap fun constraint =>
      .symbol .comma :: .blank :: constraint.pieces) =
        members.constraints.reverse.flatMap fun constraint =>
          .ofSymbol .comma :: (Form.tableConstraint drift).words constraint := by
    simp [Render.wordsOf, List.flatMap_assoc, Form.tableConstraint]
    rfl
  obtain ⟨first, others, eq⟩ := List.exists_cons_of_ne_nil
    (fun none => some (List.reverse_eq_nil_iff.mp none))
  rw [constraints, Form.wordsOf_commas drift (.columnDefinition drift) _ fun _ => rfl]
  simp only [memberWords, eq, List.flatMap_cons, List.cons_append]
  rfl

/-- The pieces of the options of a table have the words of their form. -/
lemma wordsOf_options (drift : Bool) (options : List TableOption) :
    Render.wordsOf drift
        (let written : List (List Render.Piece) :=
          (if options.contains .withoutRowid then [[.keyword .WITHOUT, .blank, .name "ROWID"]]
            else []) ++ if options.contains .strict then [[.keyword .STRICT]] else []
        if written.isEmpty then [] else .blank :: Render.commas written) =
      Form.tableOptions.words options := by
  change _ = Form.tableOption.commas.words (normalOptions options)
  unfold normalOptions
  split <;> split <;> rfl

/-- The words of a definition of a table start with a parenthesis. -/
lemma tableDefinition_front (drift : Bool) (definition : TableDefinition) :
    ∃ ws, (Form.tableDefinition drift).words definition = .ofSymbol .leftParen :: ws :=
  ⟨_, rfl⟩

/-- The columns, constraints and options of a table are read again.

**Proof sketch.** The run is taken apart into the members, the options and the row class, and the
words alike (`wordsOf_members`). The members are read again between their parentheses
(`tableMembers_again`), and there are columns among them again. Each option is there again, though
perhaps once instead of twice, which the definition does not tell. The row class starts with its
keyword, so the options before it end where they did. -/
lemma tableDefinition_again (known : E.Known n) :
    E.Reruns n (.tableDefinition E.drift) (E.Quiet definitionEnd) (tableDefinition E.rules)
      (tableDefinition E.again) := by
  intro c c' value c₁ rest run follows keeps safe quiet
  unfold tableDefinition at run ⊢
  obtain ⟨members, c₂, run₁, le₁, run⟩ := accepted_bind run
  split at run
  · exact absurd run not_accepted_unexpected
  next some =>
  obtain ⟨options, c₃, run₂, le₂, run⟩ := accepted_bind run
  obtain ⟨rows, c₄, run₃, le₃, run⟩ := accepted_bind run
  obtain ⟨rfl, rfl⟩ := accepted_pure run
  obtain ⟨open_, le₀, run₁⟩ := accepted_expectSymbol run₁
  obtain ⟨found, c₅, inner, le₅, run₁⟩ := accepted_bind run₁
  obtain ⟨close, le₆, run₁⟩ := accepted_expectSymbol run₁
  obtain ⟨rfl, rfl⟩ := accepted_pure run₁
  have listed := wordsOf_members E.drift found (by simpa using some)
  have safe : E.Safe (memberNodes found) := by
    simp only [Form.tableDefinition, Form.ofPieces_nodes, Node.ofTableDefinition,
      safe_append] at safe
    exact safe_append.mpr safe.1
  obtain ⟨ws, words, again⟩ := tableMembers_again known inner follows.reached.advance safe
  rw [words, List.cons.injEq] at listed
  obtain ⟨-, rfl⟩ := listed
  have follows : E.Follows n c c' (.ofSymbol .leftParen ::
      (Render.wordsOf E.drift (Render.commas
          (found.columns.reverse.map ColumnDefinition.pieces)) ++
        Render.wordsOf E.drift (found.constraints.reverse.flatMap fun constraint =>
          .symbol .comma :: .blank :: constraint.pieces) ++
        .ofSymbol .rightParen :: (Form.tableOptions.words options ++
          ((Form.rowClass E.drift).maybe.words rows ++ rest)))) := by
    unfold Form.tableDefinition at follows
    rw [Form.ofPieces_words, TableDefinition.pieces, Render.wordsOf_append, Render.wordsOf_append,
      wordsOf_parens, wordsOf_options, wordsOf_rowClass] at follows
    simpa using follows
  have quiet₃ : E.Quiet [.keyword .WITHOUT, .keyword .STRICT, .symbol .comma] c₃
      ((Form.rowClass E.drift).maybe.words rows ++ rest) :=
    optionalRowClass_skips.quiet run₃ rfl (quiet.mono rfl)
  unfold parenthesized
  simp only [bind_assoc]
  refine follows.expectSymbol open_ (Nat.le_trans keeps (Nat.le_trans le₁ le₀))
    fun _ follows _ => ?_
  have keeps₂ := Nat.le_trans keeps le₁
  refine (again follows (Nat.le_trans keeps₂ le₅) (.at_symbol close rfl) (.front rfl)).bind ?_
  rintro found' c₅' - ⟨same, follows⟩
  refine follows.expectSymbol close keeps₂ fun _ follows _ => ?_
  have columns : found'.columns.map ColumnDefinition.unplaced =
      found.columns.map ColumnDefinition.unplaced := congrArg TableMembers.columns same
  have constraints : found'.constraints.map TableConstraint.unplaced =
      found.constraints.map TableConstraint.unplaced := congrArg TableMembers.constraints same
  rw [pure_bind, if_neg (by
    rw [List.isEmpty_iff]
    rintro none
    rw [none] at columns
    exact some (by simpa using columns.symm))]
  refine (tableOptions_again known.enough).step run₂ follows (Nat.le_trans keeps le₂) safe_nil
    quiet₃ fun options' c₃' _ normal follows => ?_
  have option (option : TableOption) : options'.contains option = options.contains option := by
    rw [← normalOptions_contains options', ← normalOptions_contains options]
    exact congrArg (·.contains option) normal
  refine optionalRowClass_again.step run₃ follows keeps (safe_rowClass rows) (quiet.mono rfl)
    fun rows' c₄' _ same₃ follows => ?_
  have same₃ : rows'.map RowClass.unplaced = rows.map RowClass.unplaced := same₃
  refine .of_pure ⟨follows, ?_⟩
  rw [option, option]
  simp [Form.tableDefinition, TableDefinition.unplaced, columns, constraints, same₃]

end Rereading

end SqlTree
