import SqlTree.Grammar.DriftFile
import SqlTree.Proofs.Reread.Creation
import SqlTree.Proofs.Scripts

set_option autoImplicit false

/-!
# Reading the entries of drift files again

An entry is written as it has been read, but for hints that are an empty list, which are not written
at all. So entries are read again from what they are written as, and not from copies of what they
have been read from.

## Main results

* `SqlTree.Rereading.declaredStatement_again` — a statement with a name is read again.
* `SqlTree.Rereading.driftEntry_again` — entries of every kind are read again.
-/

namespace SqlTree

namespace Form

open Render

variable (drift : Bool)

/-- The type of a variable, and whether it may be null. -/
def variableType : Form (Option TypeName × Bool) :=
  ofPieces drift
    (fun (type, orNull) => optional type fun type =>
      .blank :: .keyword .AS :: .blank :: type.pieces ++
        suffix (if orNull then some [.OR, .NULL] else none))
    (fun (type, _) => Node.maybe Node.typeName type)
    (fun (type, orNull) => (type.map TypeName.unplaced, orNull))

/-- A hint about a variable. -/
def statementParameter : Form StatementParameter :=
  ofPieces drift StatementParameter.pieces (fun parameter => [.statementParameter parameter])
    StatementParameter.unplaced

/-- The hints after the name of a statement. -/
def statementParameters : Form (List StatementParameter) :=
  { (statementParameter drift).commas with
    words := fun parameters =>
      if parameters.isEmpty then [] else (statementParameter drift).commas.parens.words parameters }

/-- A statement with a name. -/
def declared : Form DeclaredStatement :=
  ofPieces drift DeclaredStatement.pieces (fun declared => [.declared declared])
    DeclaredStatement.unplaced

/-- An entry of a drift file. -/
def driftEntry : Form DriftEntry :=
  ofPieces drift DriftEntry.pieces (fun entry => [entry.node]) DriftEntry.unplaced

end Form

namespace Rereading

open SqlTree.Parser SqlTree.Grammar

variable {E : Rereading} {n : Nat} {c c' c₁ c₁' : Cursor} {rest : List Word}

/-! ## Hints about variables -/

/-- The type of a variable is read again.

**Proof sketch.** By what was next. After `AS` the type is read again, and it ends before `OR NULL`
or before what follows (`endsType_keyword`). `OR NULL` is next again exactly if it was. Without `AS`
no type is read again, because a comma or a parenthesis follows. -/
lemma variableType_again (known : E.Known n) :
    E.Reruns n (.variableType E.drift) (E.EndsAt [.comma, .rightParen]) (variableType E.rules)
      (variableType E.again) := by
  intro c c' value c₁ rest run follows keeps safe ends
  unfold variableType at run ⊢
  rw [run_eatKeyword_bind] at run
  split at run
  · next at_ =>
    obtain ⟨type, c₂, run₁, le₁, run⟩ := accepted_bind run
    have keeps₁ := Nat.le_trans keeps (Nat.le_trans le₁ (accepted_length run₁))
    rw [run_sees_bind] at run
    split at run
    · next both =>
      obtain ⟨-, le₂, run⟩ := accepted_advance run
      obtain ⟨-, -, run⟩ := accepted_advance run
      obtain ⟨rfl, rfl⟩ := accepted_pure run
      have follows : E.Follows n c c' (.ofKeyword .AS :: ((Form.typeName E.drift).words type ++
          .ofKeyword .OR :: .ofKeyword .NULL :: rest)) := by
        simpa [Form.variableType, Form.typeName, Render.optional, Render.suffix, Render.words,
          Render.separated] using follows
      refine follows.eatKeyword at_ keeps₁ fun follows _ => ?_
      have reached := accepted_reachable run₁ follows.reached
      refine (typeName_again known.enough).step run₁ follows (Nat.le_trans keeps le₁) safe
        (endsType_keyword (Bool.and_eq_true_iff.mp both).1 reached (Nat.le_trans keeps le₂)
          fun _ => rfl)
        fun type' c₂' _ (same : type'.unplaced = type.unplaced) follows => ?_
      refine accepts_sees ?_
      rw [if_pos (follows.keywords both keeps).1]
      exact follows.advanceKeywords both keeps fun follows _ =>
        .of_pure ⟨follows, by simp [Form.variableType, same]⟩
    · next notBoth =>
      obtain ⟨rfl, rfl⟩ := accepted_pure run
      have follows : E.Follows n c c' (.ofKeyword .AS :: ((Form.typeName E.drift).words type ++
          rest)) := by
        simpa [Form.variableType, Form.typeName, Render.optional, Render.suffix] using follows
      refine follows.eatKeyword at_ keeps₁ fun follows _ => ?_
      refine (typeName_again known.enough).step run₁ follows keeps safe (ends.type rfl)
        fun type' c₂' _ (same : type'.unplaced = type.unplaced) follows => ?_
      refine accepts_sees ?_
      rw [if_neg fun both' => ?_]
      · exact .of_pure ⟨follows, by simp [Form.variableType, same]⟩
      · exact EndsAt.not_keyword (ends.again follows) .OR
          (kind_of_atKeyword (Bool.and_eq_true_iff.mp both').1)
  · next not =>
    obtain ⟨rfl, rfl⟩ := accepted_pure run
    have follows : E.Follows n c c' rest := follows
    refine skipKeyword (fun at' => ?_) (.of_pure ⟨follows, rfl⟩)
    exact EndsAt.not_keyword (ends.again follows) .AS (kind_of_atKeyword at')

/-- The type of a variable is either not stated or starts with `AS`. -/
lemma variableType_skips :
    Skips E.dialect (.variableType E.drift) [.keyword .AS] (variableType E.rules) := by
  intro c value c₁ run
  unfold variableType at run
  rw [run_eatKeyword_bind] at run
  split at run
  · obtain ⟨type, c₂, -, -, run⟩ := accepted_bind run
    have front (orNull : Bool) : ∃ ws, (Form.variableType E.drift).words (some type, orNull) =
        .ofKeyword .AS :: ws := ⟨_, rfl⟩
    rw [run_sees_bind] at run
    split at run
    · obtain ⟨-, -, run⟩ := accepted_advance run
      obtain ⟨-, -, run⟩ := accepted_advance run
      obtain ⟨rfl, -⟩ := accepted_pure run
      obtain ⟨ws, eq⟩ := front true
      exact .inr ⟨_, ws, eq, by simp [Word.ofKeyword]⟩
    · obtain ⟨rfl, -⟩ := accepted_pure run
      obtain ⟨ws, eq⟩ := front false
      exact .inr ⟨_, ws, eq, by simp [Word.ofKeyword]⟩
  · obtain ⟨rfl, rfl⟩ := accepted_pure run
    exact .inl ⟨rfl, rfl⟩

/-- The words of a parameter with a default value are its name, `=` and the value. -/
lemma defaultValue_words (name : String) (value : Expr) (span : Span) :
    (Form.statementParameter E.drift).words (.defaultValue name value span) =
      .ofVariable (.named .dollar name) :: .ofSymbol .eq :: (Form.expr E.drift).words value := by
  simp [Form.statementParameter, StatementParameter.pieces, Form.expr]

/-- The words of a typed parameter are `REQUIRED`, the variable and its type. -/
lemma variableType_words (which : Variable) (required : Bool) (type : Option TypeName)
    (orNull : Bool) (span : Span) :
    (Form.statementParameter E.drift).words (.variableType which required type orNull span) =
      (Form.flag [.ofKeyword .REQUIRED]).words required ++
        .ofVariable which :: (Form.variableType E.drift).words (type, orNull) := by
  simp [Form.statementParameter, StatementParameter.pieces, Form.variableType, Form.flag,
    wordsOf_wordsIf]

/-- No equals sign follows a variable whose type may be stated. -/
lemma variableType_noEq {value : Option TypeName × Bool} {c₂ : Cursor}
    (run : (variableType E.rules).run E.dialect c₂ = .accepted value c₁)
    (written : E.mode = .written)
    (follows : E.Follows n c c' ((Form.variableType E.drift).words value ++ rest))
    (ends : E.EndsAt [.comma, .rightParen] c₁ rest) : ¬ c'.view.atSymbol .eq = true := by
  intro at'
  have kind : (c'.peek 0).kind = .symbol .eq := kind_of_atSymbol at'
  rw [follows.peek, plan_written written] at kind
  rcases variableType_skips run with ⟨empty, -⟩ | ⟨word, ws, eq, mem⟩
  · rw [empty, List.nil_append] at kind
    have ends := ends.written written
    rw [kind] at ends
    exact absurd ends (by decide)
  · rw [eq, List.cons_append, Word.kindAt_cons_zero] at kind
    rw [kind] at mem
    exact absurd mem (by simp)

/-- A hint is read again from what it is written as.

**Proof sketch.** By the two forms. A default value starts with a dollar name and `=`, which are
next again, and the value is read again. A typed variable has no `=` after it (`variableType_noEq`),
and after `REQUIRED` no dollar name is first, so it is not taken for a default value; then
`REQUIRED`, the variable and its type are read again. -/
lemma statementParameter_again (known : E.Known n) (written : E.mode = .written) :
    E.Reruns n (.statementParameter E.drift) (E.EndsAt [.comma, .rightParen])
      (statementParameter E.rules) (statementParameter E.again) := by
  intro c c' value c₁ rest run follows keeps safe ends
  have all (cursor : Cursor) : E.mode.left ≤ cursor.ahead.length := by simp [written, Mode.left]
  unfold statementParameter at run ⊢
  rw [run_view_bind] at run
  refine Accepts.congr ?_ (run_view_bind ..)
  split at run
  · next name default =>
    unfold defaultValue at run
    rw [run_here_bind] at run
    obtain ⟨-, -, run⟩ := accepted_advance run
    obtain ⟨-, -, run⟩ := accepted_advance run
    obtain ⟨expr, c₂, run₁, -, run⟩ := accepted_bind run
    obtain ⟨rfl, rfl⟩ := accepted_return run
    rw [defaultValue_words] at follows
    obtain ⟨kind, -, follows, -⟩ := follows.spelled written
    obtain ⟨kind₂, -, follows, -⟩ := follows.spelled written
    have equals : c'.view.second.isSymbol .eq = true := by
      rw [← atSymbol_advance]
      exact atSymbol_of_kind kind₂
    have default' : atDefaultValue c'.view = some name := by
      unfold atDefaultValue
      rw [if_pos equals, dollarName_of_kind kind]
    rw [default']
    refine Accepts.congr ?_ (run_here_bind ..)
    refine accepts_advance (by rw [kind]; rfl) (accepts_advance (by rw [kind₂]; rfl) ?_)
    have reached := follows.reached.advance.advance
    refine known.expr.step run₁ (follows.of_written written reached) (all _)
      (safe_singleton.mp safe).2 (ends.quiet rfl) fun expr' c₂' _ same follows => ?_
    exact .of_return ⟨follows, congrArg (StatementParameter.defaultValue name · .none) same⟩
  · next typed =>
    unfold typedVariable at run
    rw [run_here_bind] at run
    obtain ⟨required, c₂, run₁, -, run⟩ := accepted_bind run
    rw [run_current_bind] at run
    split at run
    · next which kind =>
      obtain ⟨-, -, run⟩ := accepted_advance run
      obtain ⟨⟨type, orNull⟩, c₃, run₂, -, run⟩ := accepted_bind run
      obtain ⟨rfl, rfl⟩ := accepted_return run
      rw [variableType_words, List.append_assoc] at follows
      have typed' : atDefaultValue c'.view = none := by
        unfold atDefaultValue
        cases required with
        | true =>
          obtain ⟨kind', -⟩ := follows.spelled written
          have noDollar : c'.view.dollarName? = none := by
            unfold View.dollarName?
            rw [show c'.view.current.kind = _ from kind']
            rfl
          rw [noDollar]
          split <;> rfl
        | false =>
          obtain ⟨-, -, follows, -⟩ := follows.spelled written
          rw [← atSymbol_advance, if_neg (variableType_noEq run₂ written follows ends)]
      rw [typed']
      refine Accepts.congr ?_ (run_here_bind ..)
      refine (eatKeyword_again .REQUIRED).plain rfl run₁ follows (all _) safe_nil (.front rfl)
        fun c₂' _ follows => ?_
      obtain ⟨kind', -, follows, -⟩ := follows.spelled written
      refine Accepts.congr ?_ (run_current_bind ..)
      rw [kind']
      refine accepts_advance (by rw [kind']; rfl) ?_
      have reached := follows.reached.advance
      refine (variableType_again known).step run₂ (follows.of_written written reached) keeps
        (safe_singleton.mp safe).2 ends fun value' c₃' _ same follows => ?_
      obtain ⟨type', orNull'⟩ := value'
      obtain ⟨sameType, sameNull⟩ : type'.map TypeName.unplaced = type.map TypeName.unplaced ∧
        orNull' = orNull := Prod.mk.inj same
      exact .of_return ⟨follows, by
        simp [Form.statementParameter, StatementParameter.unplaced, sameType, sameNull]⟩
    · exact absurd run not_accepted_unexpected

/-- A hint starts with no closing parenthesis. -/
lemma statementParameter_starts {rules : Rules} {value : StatementParameter}
    (run : (statementParameter rules).run E.dialect c = .accepted value c₁) :
    ¬ c.view.atSymbol .rightParen = true := by
  intro close
  have kind : c.view.current.kind = .symbol .rightParen := kind_of_atSymbol close
  unfold statementParameter at run
  rw [run_view_bind] at run
  split at run
  · next name default =>
    unfold atDefaultValue View.dollarName? at default
    rw [kind] at default
    split at default <;> cases default
  · unfold typedVariable at run
    rw [run_here_bind, run_eatKeyword_bind, if_neg (not_atKeyword close _), run_current_bind] at run
    rw [show c.current.kind = _ from kind] at run
    exact not_accepted_unexpected run

/-- The hints between the parentheses are read again. -/
lemma parameterList_again (known : E.Known n) (written : E.mode = .written) :
    E.Reruns n (Form.statementParameter E.drift).commas E.Closes
      (do
        if ← sees (·.atSymbol .rightParen) then return []
        else commaSeparated E.rules.limit (statementParameter E.rules))
      (do
        if ← sees (·.atSymbol .rightParen) then return []
        else commaSeparated E.again.limit (statementParameter E.again)) := by
  intro c c' value c₁ rest run follows keeps safe closes
  rw [run_sees_bind] at run
  refine accepts_sees ?_
  split at run
  · obtain ⟨rfl, rfl⟩ := accepted_pure run
    have follows : E.Follows n c c' rest := follows
    rw [if_pos (closes.at_again follows)]
    exact .of_pure ⟨follows, rfl⟩
  · have list : E.Reruns n (Form.statementParameter E.drift).commas E.Closes
        (commaSeparated E.rules.limit (statementParameter E.rules))
        (commaSeparated E.again.limit (statementParameter E.again)) := by
      refine (statementParameter_again known written).commaSeparated known.enough ?_ ?_
      · intro c rest comma
        exact ⟨by rw [kind_of_atSymbol comma]; rfl, fun _ => rfl⟩
      · rintro c rest ⟨at_, keeps, more, rfl⟩
        exact ⟨⟨by rw [kind_of_atSymbol at_]; rfl, fun _ => rfl⟩, .front rfl⟩
    obtain ⟨value', c₁', run', post⟩ := list run follows keeps safe closes
    obtain ⟨first, c₂', first_run, -, -⟩ := accepted_bind run'
    rw [if_neg (statementParameter_starts first_run)]
    exact ⟨value', c₁', run', post⟩

/-- The hints after the name of a statement are read again. An empty list of hints is not
written.

**Proof sketch.** If parameters were read, their list in parentheses is read again
(`parameterList_again`). If the list was empty or missing, nothing is written, and what follows does
not start with a parenthesis, so nothing is read. -/
lemma statementParameters_again (known : E.Known n) (written : E.mode = .written) :
    E.Reruns n (.statementParameters E.drift)
      (fun _ rest => (Word.kindAt rest 0).isSymbol .leftParen = false)
      (statementParameters E.rules) (statementParameters E.again) := by
  intro c c' value c₁ rest run follows keeps safe closed
  -- where nothing is written, nothing is read
  have missing (follows : E.Follows n c₁ c' rest) :
      Accepts E.dialect (statementParameters E.again) c' fun value' c₁' =>
        E.Follows n c₁ c₁' rest ∧ value' = [] := by
    have noParen : ¬ c'.view.atSymbol .leftParen = true := fun open_ => by
      have kind : (c'.peek 0).kind = .symbol .leftParen := kind_of_atSymbol open_
      rw [follows.peek, plan_written written] at kind
      rw [kind] at closed
      exact absurd closed (by decide)
    refine ⟨[], c', ?_, follows, rfl⟩
    unfold statementParameters whenever
    rw [run_bind, run_sees_bind, if_neg noParen]
    rfl
  unfold statementParameters at run
  obtain ⟨parameters, c₂, first, -, last⟩ := accepted_bind run
  obtain ⟨rfl, rfl⟩ := accepted_pure last
  unfold whenever at first
  rw [run_sees_bind] at first
  split at first
  · next open_ =>
    obtain ⟨list, c₃, inner, -, last⟩ := accepted_bind first
    obtain ⟨rfl, rfl⟩ := accepted_pure last
    cases list with
    | nil =>
      refine (missing (follows.of_written written ?_)).mono ?_
      · exact accepted_reachable inner follows.reached
      · rintro _ c₁' ⟨follows, rfl⟩
        exact ⟨follows, rfl⟩
    | cons parameter others =>
      obtain ⟨value', c₁', run', follows, same⟩ :=
        (parameterList_again known written).parenthesized
          (fun _ _ close keeps => ⟨close, keeps, _, rfl⟩) inner follows keeps safe trivial
      refine ⟨value', c₁', ?_, follows, same⟩
      unfold statementParameters whenever
      rw [run_bind, run_sees_bind, if_pos (accepted_expectSymbol run').1, run_bind, run']
      rfl
  · obtain ⟨rfl, rfl⟩ := accepted_pure first
    refine (missing follows).mono ?_
    rintro _ c₁' ⟨follows, rfl⟩
    exact ⟨follows, rfl⟩

/-! ## Statements with names -/

/-- The words of a declared statement are its name, its parameters, its row class and the
statement. -/
lemma declared_words (declared : DeclaredStatement) :
    (Form.declared E.drift).words declared = .ofName declared.name ::
      ((Form.statementParameters E.drift).words declared.parameters ++
        (Form.aliased.words declared.resultClass ++
          .ofSymbol .colon :: (Form.statement E.drift).words declared.statement)) := by
  have parameters : Render.wordsOf E.drift (if declared.parameters.isEmpty then []
        else Render.parens (Render.commas (declared.parameters.map StatementParameter.pieces))) =
      (Form.statementParameters E.drift).words declared.parameters := by
    change _ = if declared.parameters.isEmpty then [] else _
    split
    · rfl
    · simp [Render.parens, Form.parens,
        Form.wordsOf_commas E.drift (.statementParameter E.drift) _ fun _ => rfl]
  simp only [Form.declared, Form.statement, Form.ofPieces_words, DeclaredStatement.pieces,
    List.cons_append, List.append_assoc, Render.wordsOf_name, Render.wordsOf_append, parameters,
    wordsOf_aliased, Render.wordsOf_symbol, Render.wordsOf_blank]

/-- **A statement with a name is read again.**

**Proof sketch.** The name, the parameters, the class of the rows, the colon and the statement are
read again, one after the other. What may be left out is followed by `AS` or by the colon, neither
of which goes on with it. -/
lemma declaredStatement_again (known : E.Known n) (written : E.mode = .written) :
    E.Reruns n (.declared E.drift) E.EndsStatement (declaredStatement E.rules)
      (declaredStatement E.again) := by
  intro c c' value c₁ rest run follows keeps safe ends
  have all (cursor : Cursor) : E.mode.left ≤ cursor.ahead.length := by simp [written, Mode.left]
  unfold declaredStatement at run ⊢
  rw [run_here_bind] at run
  refine Accepts.congr ?_ (run_here_bind ..)
  obtain ⟨name, c₂, run₁, -, run⟩ := accepted_bind run
  obtain ⟨parameters, c₃, run₂, -, run⟩ := accepted_bind run
  obtain ⟨resultClass, c₄, run₃, -, run⟩ := accepted_bind run
  obtain ⟨colon, -, run⟩ := accepted_expectSymbol run
  obtain ⟨statement, c₅, run₄, -, run⟩ := accepted_bind run
  obtain ⟨rfl, rfl⟩ := accepted_return run
  rw [declared_words] at follows
  simp only [List.cons_append, List.append_assoc] at follows
  have safe : E.Safe (Node.each Node.statementParameter parameters ++ [statement.node]) :=
    (safe_singleton.mp safe).2
  rw [safe_append, each_eq] at safe
  refine identifier_again.plain rfl run₁ follows (all _) safe_nil trivial fun c₂' _ follows => ?_
  refine (statementParameters_again known written).step run₂ follows (all _) safe.1 ?_
    fun parameters' c₃' _ same follows => ?_
  · cases resultClass <;> rfl
  refine asName_again.plain (Form.maybe_bare rfl) run₃ follows (all _) ?_ (.front rfl)
    fun c₄' _ follows => ?_
  · cases resultClass <;> exact safe_nil
  refine follows.expectSymbol colon (all _) fun _ follows _ => ?_
  refine (statement_again known).step run₄ follows keeps safe.2 ends
    fun statement' c₅' _ same' follows => ?_
  have same : parameters'.map StatementParameter.unplaced =
    parameters.map StatementParameter.unplaced := same
  have same' : statement'.unplaced = statement.unplaced := same'
  exact .of_return ⟨follows, by simp [Form.declared, DeclaredStatement.unplaced, same, same']⟩

/-! ## Entries -/

/-- The keyword of an import is the only one that is written in small letters. -/
lemma import_words (entry : Import) :
    (Form.driftEntry E.drift).words (.imported entry) =
      ⟨.keyword .IMPORT, "import", none⟩ :: [.ofLiteral (.string entry.uri)] := by
  have keyword (drift : Bool) :
      (Cursor.ofSource drift "import").words = [⟨.keyword .IMPORT, "import", none⟩] := by
    cases drift <;> rfl
  simp [Form.driftEntry, DriftEntry.pieces, Import.pieces, keyword]

/-- The words of a statement that runs at creation are `@create`, a colon and the statement. -/
lemma onCreate_words (statement : Statement) (span : Span) :
    (Form.driftEntry E.drift).words (.onCreate statement span) =
      .ofVariable (.named .at "create") :: .ofSymbol .colon ::
        (Form.statement E.drift).words statement := by
  simp [Form.driftEntry, Form.statement, DriftEntry.pieces]

/-- Entries start with neither a semicolon nor the end of input.

**Proof sketch.** By the kind of the entry: an import starts with its keyword, a statement that runs
at creation with a variable, a declared one with its name, and a plain one with a keyword of
statements (`accepted_statement_starts`). -/
lemma driftEntry_starts {rules : Rules} {value : DriftEntry}
    (run : (driftEntry rules).run E.dialect c = .accepted value c₁) :
    endsAt [.semicolon] c.current.kind = false := by
  unfold driftEntry at run
  rw [run_view_bind] at run
  split at run
  · next uri import_ =>
    unfold atImport at import_
    split at import_
    · next first _ => 
      rw [show c.current.kind = _ from first]
      rfl
    · cases import_
  · split at run
    · next onCreate =>
      unfold atOnCreate at onCreate
      split at onCreate
      · next first =>
        rw [show c.current.kind = _ from first]
        rfl
      · cases onCreate
    · split at run
      · next declares =>
        have name : c.current.kind.isIdentifierLike = true := (Bool.and_eq_true_iff.mp declares).1
        cases kind : c.current.kind <;> rw [kind] at name <;> first | rfl | cases name
      · obtain ⟨statement, c₂, inner, -, -⟩ := accepted_bind run
        obtain ⟨word, kind, -⟩ := kind_of_atStatement (accepted_statement_starts inner)
        rw [show c.current.kind = _ from kind]
        rfl

/-- After its name, a statement is written with hints, a class or a colon. -/
lemma declared_second (declared : DeclaredStatement) (rest : List Word) :
    Word.kindAt ((Form.declared E.drift).words declared ++ rest) 1 ∈
      [.symbol .leftParen, .symbol .colon, .keyword .AS] := by
  rw [declared_words, List.cons_append, Word.kindAt_cons_succ]
  cases hints : declared.parameters with
  | cons => simp [Form.statementParameters, Form.parens]
  | nil =>
    cases declared.resultClass <;>
      simp [Form.statementParameters, Form.aliased, Form.maybe, Form.after]

/-- A statement with a name is an entry.

**Proof sketch.** A written name is quoted or bare, and in both cases an identifier. So `@create`
is not next, and no import is. After the name a parenthesis, a colon or `AS` stands
(`declared_second`), so a declared statement is next, and it is read again
(`declaredStatement_again`). -/
lemma declaredEntry_again (known : E.Known n) (written : E.mode = .written)
    {declared : DeclaredStatement}
    (run : (declaredStatement E.rules).run E.dialect c = .accepted declared c₁)
    (follows : E.Follows n c c' ((Form.declared E.drift).words declared ++ rest))
    (safe : E.Safe [.declared declared]) (ends : E.EndsStatement c₁ rest) :
    Accepts E.dialect (driftEntry E.again) c' fun value' c₁' =>
      E.Follows n c₁ c₁' rest ∧ value'.unplaced = .declared declared.unplaced := by
  have first : c'.view.current.kind = .identifier declared.name := by
    rw [declared_words] at follows
    exact (follows.spelled written).1
  have second : c'.view.second.kind ∈
      [.symbol .leftParen, .symbol .colon, .keyword .AS] := by
    have peeks := follows.peek 1
    rw [plan_written written] at peeks
    rw [show c'.view.second.kind = _ from peeks]
    exact declared_second declared rest
  have import_ : atImport c'.view = none := by
    unfold atImport
    rw [first]
  have onCreate : ¬ atOnCreate c'.view = true := by
    unfold atOnCreate
    rw [first]
    exact Bool.false_ne_true
  have declares : atDeclaredStatement c'.view = true := by
    unfold atDeclaredStatement View.atIdentifier
    rw [Token.isSymbol_eq, Token.isSymbol_eq, Token.isKeyword_eq, first]
    simp only [List.mem_cons, List.not_mem_nil, or_false] at second
    rcases second with kind | kind | kind <;> rw [kind] <;> rfl
  unfold driftEntry
  refine Accepts.congr ?_ (run_view_bind ..)
  rw [import_]
  dsimp only
  rw [if_neg onCreate, if_pos declares]
  exact (declaredStatement_again known written).step run follows (by simp [written, Mode.left])
    safe ends fun declared' c₁' _ same follows =>
      .of_pure ⟨follows, congrArg DriftEntry.declared same⟩

/-- An import is an entry. -/
lemma importEntry_again (written : E.mode = .written) {uri : String} {span : Span}
    (reached : c₁.Reachable E.drift)
    (follows : E.Follows n c c'
      ((Form.driftEntry E.drift).words (.imported ⟨uri, span⟩) ++ rest)) :
    Accepts E.dialect (driftEntry E.again) c' fun value' c₁' =>
      E.Follows n c₁ c₁' rest ∧ value'.unplaced = .imported ⟨uri, .none⟩ := by
  rw [import_words] at follows
  obtain ⟨keyword, -, follows, -⟩ := follows.spelled written
  obtain ⟨string, -, follows, -⟩ := follows.spelled written
  have import_ : atImport c'.view = some uri := by
    have second : c'.view.second.kind = .string uri := by
      change (c'.peek 1).kind = _
      rw [← Cursor.peek_advance]
      exact string
    unfold atImport
    rw [show c'.view.current.kind = _ from keyword, second]
  unfold driftEntry
  refine Accepts.congr ?_ (run_view_bind ..)
  rw [import_]
  refine accepts_advance (by rw [keyword]; rfl) (accepts_advance (by rw [string]; rfl) ?_)
  exact .of_return ⟨follows.of_written written reached, rfl⟩

/-- A statement that runs when the database is created is an entry. -/
lemma onCreateEntry_again (known : E.Known n) (written : E.mode = .written) {value : Statement}
    {span : Span} {c₂ : Cursor} (reached : c₂.Reachable E.drift)
    (run : (statement E.rules).run E.dialect c₂ = .accepted value c₁)
    (follows : E.Follows n c c'
      ((Form.driftEntry E.drift).words (.onCreate value span) ++ rest))
    (safe : E.Safe [value.node]) (ends : E.EndsStatement c₁ rest) :
    Accepts E.dialect (driftEntry E.again) c' fun value' c₁' =>
      E.Follows n c₁ c₁' rest ∧ value'.unplaced = .onCreate value.unplaced .none := by
  rw [onCreate_words] at follows
  obtain ⟨first, -, follows, -⟩ := follows.spelled written
  obtain ⟨colon, -, follows, -⟩ := follows.spelled written
  have first : c'.view.current.kind = .variable (.named .at "create") := first
  have import_ : atImport c'.view = none := by
    unfold atImport
    rw [first]
  have onCreate : atOnCreate c'.view = true := by
    unfold atOnCreate
    rw [first]
    rfl
  unfold driftEntry
  refine Accepts.congr ?_ (run_view_bind ..)
  rw [import_]
  dsimp only
  rw [if_pos onCreate]
  refine accepts_advance (by rw [show c'.current.kind = _ from first]; rfl) ?_
  refine Accepts.congr ?_ (run_expectSymbol_bind (atSymbol_of_kind colon))
  exact (statement_again known).step run (follows.of_written written reached)
    (by simp [written, Mode.left]) safe ends fun statement' c₂' _ same follows =>
      .of_return ⟨follows, congrArg (DriftEntry.onCreate · .none) same⟩

/-- **Entries of drift files are read again.**

**Proof sketch.** By the kind of the entry. Each kind is read again by its own lemma, which also
shows that the tests before it fail again. -/
lemma driftEntry_again (known : E.Known n) (written : E.mode = .written) :
    E.Reruns n (.driftEntry E.drift) E.EndsStatement (driftEntry E.rules) (driftEntry E.again) := by
  intro c c' value c₁ rest run follows keeps safe ends
  have reached := follows.reached
  unfold driftEntry at run
  rw [run_view_bind] at run
  split at run
  · obtain ⟨-, -, run⟩ := accepted_advance run
    obtain ⟨-, -, run⟩ := accepted_advance run
    obtain ⟨rfl, rfl⟩ := accepted_return run
    exact importEntry_again written reached.advance.advance follows
  · split at run
    · obtain ⟨-, -, run⟩ := accepted_advance run
      obtain ⟨-, -, run⟩ := accepted_expectSymbol run
      obtain ⟨statement, c₂, inner, -, last⟩ := accepted_bind run
      obtain ⟨rfl, rfl⟩ := accepted_return last
      exact onCreateEntry_again known written reached.advance.advance inner follows safe ends
    · split at run
      · obtain ⟨declared, c₂, inner, -, last⟩ := accepted_bind run
        obtain ⟨rfl, rfl⟩ := accepted_pure last
        exact declaredEntry_again known written inner follows safe ends
      · obtain ⟨statement, c₂, inner, -, last⟩ := accepted_bind run
        obtain ⟨rfl, rfl⟩ := accepted_pure last
        have follows : E.Follows n c c' ((Form.statement E.drift).words statement ++ rest) :=
          follows
        obtain ⟨statement', c₁', run', follows, same⟩ :=
          statement_again known inner follows keeps safe ends
        refine ⟨.plain statement', c₁', ?_, follows, congrArg DriftEntry.plain same⟩
        rw [run_driftEntry_plain (accepted_statement_starts run'), run']
        rfl

end Rereading

end SqlTree
