import SqlTree.Proofs.Reread.Select

set_option autoImplicit false

/-!
# Reading queries again

## Main definitions

* `SqlTree.Form.columnNames` — names of columns, which are written only if there are any.

## Main results

* `SqlTree.Rereading.limit_again` — limits are read again, wherever the offset was written.
* `SqlTree.Rereading.withClause_again` — common tables are read again.
* `SqlTree.Rereading.queryAfter_again`, `SqlTree.Rereading.query_again` — queries are read again.
-/

namespace SqlTree

/-- An operator that puts a further member after a query. -/
def Form.compoundOperator : Form CompoundOperator :=
  .choice CompoundOperator.keywords

/-- Names of columns between parentheses, which are not written if there are none. -/
def Form.columnNames : Form (List String) :=
  ⟨fun names => if names.isEmpty then [] else Form.name.commas.parens.words names, fun _ => [], id⟩

/-- The words of pieces with a blank before each of them. -/
lemma Form.wordsOf_flatMap {α : Type} (drift : Bool) (form : Form α)
    (pieces : α → List Render.Piece)
    (words : ∀ value, form.words value = Render.wordsOf drift (pieces value)) (parts : List α) :
    Render.wordsOf drift (parts.flatMap fun part => .blank :: pieces part) =
      form.flat.words parts := by
  induction parts with
  | nil => rfl
  | cons part others ih =>
    rw [List.flatMap_cons, Render.wordsOf_append, ih, Render.wordsOf_blank, ← words]
    rfl

/-- Whether a common table is kept. -/
def Form.materialized : Form (Option Bool) :=
  ⟨fun
    | some true => [.ofKeyword .MATERIALIZED]
    | some false => [.ofKeyword .NOT, .ofKeyword .MATERIALIZED]
    | none => [], fun _ => [], id⟩

/-- The kind of a limit. -/
def Form.limitKind (drift : Bool) : Form LimitKind :=
  .ofPieces drift LimitKind.pieces Node.ofLimitKind LimitKind.unplaced

/-- If a test that carries over fails at the place that it carries over to, it fails everywhere. -/
lemma Starter.Carries.anywhere {starter : Starter} {first second first' second' : TokenKind}
    (carries : starter.Carries first second first' second')
    (fails : starter.first first' = false) (other other' : TokenKind) :
    starter.Carries first second other other' := by
  cases starter with
  | operator =>
    intro least at_
    exact absurd (first_of_operatorAt (carries least at_)) (by simpa [Starter.first] using fails)
  | _ =>
    intro passes
    have := carries passes
    rw [Starter.passes, Bool.and_eq_true] at this
    exact absurd this.1 (by rw [fails]; exact Bool.false_ne_true)

namespace Rereading

open SqlTree.Parser SqlTree.Grammar

variable {E : Rereading} {n : Nat} {c c' c₁ c₁' : Cursor} {rest : List Word}

/-! ## Optional parts -/

section

variable {α : Type} {test : View → Bool} {parser : Parser α} {post : α → Cursor → Prop}

/-- A part that may be left out is left out where the test fails. -/
lemma accepts_whenever_none (not : ¬ test c'.view = true) :
    Accepts E.dialect (whenever test parser) c' fun value c₁' => value = none ∧ c₁' = c' := by
  unfold whenever
  refine Accepts.congr ?_ (run_sees_bind ..)
  rw [if_neg not]
  exact .of_pure ⟨rfl, rfl⟩

/-- A part that may be left out is read where the test passes and the part is read. -/
lemma accepts_whenever_some (at_ : test c'.view = true)
    (accepts : Accepts E.dialect parser c' post) :
    Accepts E.dialect (whenever test parser) c' fun value c₁' =>
      ∃ part, value = some part ∧ post part c₁' := by
  unfold whenever
  refine Accepts.congr ?_ (run_sees_bind ..)
  rw [if_pos at_]
  refine accepts.bind ?_
  rintro part c₁' - holds
  exact .of_pure ⟨part, rfl, holds⟩

end

/-! ## Names of columns -/

/-- What column names that may be left out were read from. -/
lemma optionalColumnNames_eq {rules : Rules} {names : List String}
    (run : rules.optionalColumnNames.run E.dialect c = .accepted names c₁) :
    (names = [] ∧ c₁ = c ∧ ¬ c.view.atSymbol .leftParen = true) ∨
      (names ≠ [] ∧ c.view.atSymbol .leftParen = true ∧
        rules.columnNames.run E.dialect c = .accepted names c₁) := by
  unfold Rules.optionalColumnNames at run
  obtain ⟨found, c₂, run₁, -, run⟩ := accepted_bind run
  obtain ⟨rfl, rfl⟩ := accepted_pure run
  unfold whenever at run₁
  rw [run_sees_bind] at run₁
  split at run₁
  · next at_ =>
    obtain ⟨names, c₃, inner, -, run₁⟩ := accepted_bind run₁
    obtain ⟨rfl, rfl⟩ := accepted_pure run₁
    refine .inr ⟨?_, at_, inner⟩
    obtain ⟨-, -, inner⟩ := accepted_expectSymbol inner
    obtain ⟨names, c₄, list, -, inner⟩ := accepted_bind inner
    obtain ⟨-, -, inner⟩ := accepted_expectSymbol inner
    obtain ⟨rfl, rfl⟩ := accepted_pure inner
    exact commaSeparated_ne_nil _ list
  · next not =>
    obtain ⟨rfl, rfl⟩ := accepted_pure run₁
    exact .inl ⟨rfl, rfl, not⟩

/-- Column names that may be left out take nothing unless a parenthesis is next. -/
lemma optionalColumnNames_skips {rules : Rules} :
    Skips E.dialect .columnNames [.symbol .leftParen] rules.optionalColumnNames := by
  intro c names c₁ run
  rcases optionalColumnNames_eq run with ⟨rfl, rfl, -⟩ | ⟨nonempty, -, -⟩
  · exact .inl ⟨rfl, rfl⟩
  · refine .inr ⟨.ofSymbol .leftParen, _, if_neg (by simpa using nonempty), by simp⟩

/-- The pieces of a list of names have the words of its form. -/
lemma wordsOf_names (drift : Bool) (names : List String) :
    Render.wordsOf drift (Render.names names) = Form.name.commas.words names :=
  Form.wordsOf_commas drift .name (fun name => [.name name]) (fun _ => rfl) names

/-- Pieces in parentheses have their words between the words of the parentheses. -/
lemma wordsOf_parens (drift : Bool) (pieces : List Render.Piece) :
    Render.wordsOf drift (Render.parens pieces) =
      .ofSymbol .leftParen :: Render.wordsOf drift pieces ++ [.ofSymbol .rightParen] := by
  simp [Render.parens]

/-- The pieces of column names that may be left out have the words of their form. -/
lemma wordsOf_columnNames (drift : Bool) (columns : List String) :
    Render.wordsOf drift (if columns = [] then [] else Render.parens (Render.names columns)) =
      Form.columnNames.words columns := by
  cases columns with
  | nil => rfl
  | cons first others => simp [Render.parens, wordsOf_names, Form.columnNames, Form.parens]

/-- Names are safe. -/
lemma safe_names (names : List String) : E.Safe (Form.name.commas.parens.nodes names) :=
  fun _ node mem => by simp [Form.parens, Form.commas, Form.name] at mem

/-- Names of columns are read again if there are any. -/
lemma optionalColumnNames_again (enough : n ≤ E.again.limit) :
    E.Reruns n .columnNames (E.Quiet [.symbol .leftParen]) E.rules.optionalColumnNames
      E.again.optionalColumnNames := by
  intro c c' names c₁ rest run follows keeps safe quiet
  unfold Rules.optionalColumnNames
  rcases optionalColumnNames_eq run with ⟨rfl, rfl, not⟩ | ⟨nonempty, at_, run⟩
  · have follows : E.Follows n c₁ c' rest := follows
    refine (accepts_whenever_none (quiet.not_symbol follows (by simp) not)).bind ?_
    rintro _ c₁' - ⟨rfl, rfl⟩
    exact .of_pure ⟨follows, rfl⟩
  · have spelled : Form.columnNames.words names = Form.name.commas.parens.words names :=
      if_neg (by simpa using nonempty)
    rw [spelled] at follows
    obtain ⟨-, takes, -⟩ := accepted_expectSymbol run
    have follows' : E.Follows n c c' (.ofSymbol .leftParen :: (Form.name.commas.words names ++
      .ofSymbol .rightParen :: rest)) := by simpa [Form.parens] using follows
    have at' := (follows'.symbol at_ (Nat.le_trans keeps takes)).1
    have again : Accepts E.dialect E.again.columnNames c' fun names' c₁' =>
        E.Follows n c₁ c₁' rest ∧ names' = names := by
      obtain ⟨names', c₁', run', follows, same⟩ :=
        columnNames_again enough run follows keeps (safe_names names) trivial
      rw [show Form.name.commas.parens.bare = id from Form.commas_bare rfl] at same
      exact ⟨names', c₁', run', follows, same⟩
    refine (accepts_whenever_some at' again).bind ?_
    rintro _ c₁' - ⟨names', rfl, next, rfl⟩
    exact .of_pure ⟨next, rfl⟩

/-! ## Further members -/

/-- What an operator between the members of a query was read from, in the order in which the
keywords are tried. -/
lemma accepted_optionalCompoundOperator {value : Option CompoundOperator}
    (run : optionalCompoundOperator.run E.dialect c = .accepted value c₁) :
    (c.view.atKeyword .UNION = true ∧
      ((value = some .unionAll ∧ c.advance.view.atKeyword .ALL = true ∧ c₁ = c.advance.advance) ∨
        (value = some .union ∧ ¬ c.advance.view.atKeyword .ALL = true ∧ c₁ = c.advance))) ∨
    (value = some .intersect ∧ c.view.atKeyword .INTERSECT = true ∧ c₁ = c.advance) ∨
    (value = some .except ∧ c.view.atKeyword .EXCEPT = true ∧ c₁ = c.advance) ∨
    (value = none ∧ c₁ = c ∧ ∀ word ∈ [Keyword.UNION, .INTERSECT, .EXCEPT],
      ¬ c.view.atKeyword word = true) := by
  unfold optionalCompoundOperator at run
  rw [run_eatKeyword_bind] at run
  split at run
  · next union =>
    rw [if_pos rfl, run_eatKeyword_bind] at run
    split at run
    · next all =>
      obtain ⟨rfl, rfl⟩ := accepted_pure run
      exact .inl ⟨union, .inl ⟨rfl, all, rfl⟩⟩
    · next notAll =>
      obtain ⟨rfl, rfl⟩ := accepted_pure run
      exact .inl ⟨union, .inr ⟨rfl, notAll, rfl⟩⟩
  rw [if_neg Bool.false_ne_true, run_eatKeyword_bind] at run
  split at run
  · next intersect =>
    obtain ⟨rfl, rfl⟩ := accepted_pure run
    exact .inr (.inl ⟨rfl, intersect, rfl⟩)
  rw [if_neg Bool.false_ne_true, run_eatKeyword_bind] at run
  split at run
  · next except =>
    obtain ⟨rfl, rfl⟩ := accepted_pure run
    exact .inr (.inr (.inl ⟨rfl, except, rfl⟩))
  · next notUnion notIntersect notExcept =>
    obtain ⟨rfl, rfl⟩ := accepted_pure run
    refine .inr (.inr (.inr ⟨rfl, rfl, ?_⟩))
    simp only [List.mem_cons, List.not_mem_nil, or_false, forall_eq_or_imp, forall_eq]
    exact ⟨notUnion, notIntersect, notExcept⟩

/-- What goes on with a query by a further member. -/
def compoundEnd : List Starter :=
  [.keyword .UNION, .keyword .INTERSECT, .keyword .EXCEPT]

/-- An operator that puts a further member after a query is read again before that member.

**Proof sketch.** By what was read (`accepted_optionalCompoundOperator`). The keyword that was next
is next again, so those that are tried before it are skipped. After `UNION` alone no `ALL` is next
again, as the member after it does not start with `ALL`. -/
lemma compoundOperator_again {operator : CompoundOperator}
    (run : optionalCompoundOperator.run E.dialect c = .accepted (some operator) c₁)
    (follows : E.Follows n c c' (Form.compoundOperator.words operator ++ rest))
    (keeps : E.mode.left ≤ c₁.ahead.length) (quiet : E.Quiet [.keyword .ALL] c₁ rest) :
    Accepts E.dialect optionalCompoundOperator c' fun operator' c₁' =>
      E.Follows n c₁ c₁' rest ∧ operator' = some operator := by
  unfold optionalCompoundOperator
  rcases accepted_optionalCompoundOperator run with
    ⟨union, ⟨eq, all, rfl⟩ | ⟨eq, notAll, rfl⟩⟩ | ⟨eq, at_, rfl⟩ | ⟨eq, at_, rfl⟩ | ⟨eq, -, -⟩
  · obtain rfl := Option.some.inj eq
    have follows : E.Follows n c c' (.ofKeyword .UNION :: .ofKeyword .ALL :: rest) := follows
    refine follows.eatKeyword union (Nat.le_trans keeps (by simp)) fun follows _ => ?_
    rw [if_pos rfl]
    exact follows.eatKeyword all keeps fun follows _ => .of_pure ⟨follows, rfl⟩
  · obtain rfl := Option.some.inj eq
    have follows : E.Follows n c c' (.ofKeyword .UNION :: rest) := follows
    refine follows.eatKeyword union keeps fun follows _ => ?_
    rw [if_pos rfl]
    exact skipKeyword (quiet.not_keyword follows rfl notAll) (.of_pure ⟨follows, rfl⟩)
  · obtain rfl := Option.some.inj eq
    have follows : E.Follows n c c' (.ofKeyword .INTERSECT :: rest) := follows
    have at' := (follows.keyword at_ keeps).1
    refine skipKeyword (not_otherKeyword at' (by decide)) ?_
    rw [if_neg Bool.false_ne_true]
    exact follows.eatKeyword at_ keeps fun follows _ => .of_pure ⟨follows, rfl⟩
  · obtain rfl := Option.some.inj eq
    have follows : E.Follows n c c' (.ofKeyword .EXCEPT :: rest) := follows
    have at' := (follows.keyword at_ keeps).1
    refine skipKeyword (not_otherKeyword at' (by decide)) ?_
    rw [if_neg Bool.false_ne_true]
    refine skipKeyword (not_otherKeyword at' (by decide)) ?_
    rw [if_neg Bool.false_ne_true]
    exact follows.eatKeyword at_ keeps fun follows _ => .of_pure ⟨follows, rfl⟩
  · exact absurd eq (by simp)

/-- An operator between members is written with the keyword that it was read with, and takes it. -/
lemma compoundOperator_front {operator : CompoundOperator}
    (run : optionalCompoundOperator.run E.dialect c = .accepted (some operator) c₁)
    (reached : c.Reachable E.drift) :
    c₁.ahead.length < c.ahead.length ∧
      ∃ word ∈ [Keyword.UNION, .INTERSECT, .EXCEPT], c.view.atKeyword word = true ∧
        ∃ ws, Form.compoundOperator.words operator = .ofKeyword word :: ws := by
  rcases accepted_optionalCompoundOperator run with
    ⟨at_, ⟨eq, all, rfl⟩ | ⟨eq, notAll, rfl⟩⟩ | ⟨eq, at_, rfl⟩ | ⟨eq, at_, rfl⟩ | ⟨eq, -, -⟩
  case inr.inr.inr => exact absurd eq (by simp)
  all_goals
    obtain rfl := Option.some.inj eq
    refine ⟨?_, _, ?_, at_, _, rfl⟩
    · have := length_of_atKeyword at_ reached
      simp only [Cursor.advance_ahead, List.length_tail] at this ⊢
      omega
    · simp

/-- The keywords of the operators between members go on with no member. -/
lemma compoundEnd_inert : [Keyword.UNION, .INTERSECT, .EXCEPT].all (fun word =>
    (coreEnd ++ compoundEnd).all fun starter => !starter.first (.keyword word) ||
      starter.second .endOfInput && (starter != .operator || word != .NOT)) = true := rfl

/-- No further member is read where none was before. -/
lemma noCompoundOperator_again
    (run : optionalCompoundOperator.run E.dialect c = .accepted none c₁)
    (quiet : E.Quiet compoundEnd c rest) (follows : E.Follows n c c' rest) :
    Accepts E.dialect optionalCompoundOperator c' fun operator' c₁' =>
      operator' = none ∧ c₁' = c' := by
  have fails : ∀ word ∈ [Keyword.UNION, .INTERSECT, .EXCEPT], ¬ c.view.atKeyword word = true := by
    rcases accepted_optionalCompoundOperator run with ⟨-, ⟨some, -⟩ | ⟨some, -⟩⟩ | ⟨some, -⟩ |
      ⟨some, -⟩ | ⟨-, -, fails⟩
    all_goals first | exact fails | exact absurd some (by simp)
  simp only [List.mem_cons, List.not_mem_nil, or_false, forall_eq_or_imp, forall_eq] at fails
  unfold optionalCompoundOperator
  refine skipKeyword (quiet.not_keyword follows rfl fails.1) ?_
  rw [if_neg Bool.false_ne_true]
  refine skipKeyword (quiet.not_keyword follows rfl fails.2.1) ?_
  rw [if_neg Bool.false_ne_true]
  exact skipKeyword (quiet.not_keyword follows rfl fails.2.2) (.of_pure ⟨rfl, rfl⟩)

/-- The words of a further member are those of the operator and those of the member. -/
lemma compound_words (operator : CompoundOperator) (core : QueryCore) (span : Span) :
    (Form.compoundPart E.drift).words ⟨operator, core, span⟩ =
      Form.compoundOperator.words operator ++ (Form.queryCore E.drift).words core := by
  simp [Form.compoundPart, CompoundPart.pieces, wordsOf_words, Form.compoundOperator, Form.choice,
    Form.queryCore]

/-- The words of a member start with `SELECT` or `VALUES`. -/
lemma queryCore_front (core : QueryCore) :
    ∃ word ∈ [Keyword.SELECT, .VALUES], ∃ ws,
      (Form.queryCore E.drift).words core = .ofKeyword word :: ws := by
  cases core with
  | select clause => exact ⟨.SELECT, by simp, selectClause_front clause⟩
  | values clause => exact ⟨.VALUES, by simp, valuesClause_front clause⟩

/-- A member of a query is written with the keyword in front that it was read with. -/
lemma queryCore_starts {rules : Rules} {core : QueryCore}
    (run : (queryCore rules).run E.dialect c = .accepted core c₁) :
    c₁.ahead.length ≤ c.advance.ahead.length ∧
      ∃ word ws, (Form.queryCore E.drift).words core = .ofKeyword word :: ws ∧
        c.view.atKeyword word = true := by
  rcases accepted_queryCore run with ⟨clause, rfl, at_, run⟩ | ⟨clause, rfl, at_, run⟩
  · obtain ⟨ws, eq⟩ := selectClause_front (E := E) clause
    exact ⟨(accepted_expectKeyword run).2.1, _, ws, eq, at_⟩
  · obtain ⟨ws, eq⟩ := valuesClause_front (E := E) clause
    exact ⟨(accepted_expectKeyword run).2.1, _, ws, eq, at_⟩

/-- Before a member of a query an end is quiet. -/
lemma quiet_queryCore {starters : List Starter} (core : QueryCore)
    (inert : [Keyword.SELECT, .VALUES].all (fun word =>
      starters.all fun starter => !starter.first (.keyword word)) = true) :
    E.Quiet starters c ((Form.queryCore E.drift).words core ++ rest) := by
  obtain ⟨word, mem, ws, eq⟩ := queryCore_front (E := E) core
  rw [eq]
  exact .front (List.all_eq_true.mp inert word mem)

/-- Further members of a query are read again.

**Proof sketch.** By the lemma about repetitions (`Reruns.many`). In each turn that read a member
the operator before it was next, which goes on with nothing before it (`compoundEnd_inert`), and is
read again, and then the member is. In the last turn no operator was next, and none is next again,
because what follows is quiet about them. -/
lemma compounds_again (known : E.Known n) {parts : List CompoundPart}
    (run : (many E.rules.limit (nextCompound E.rules)).run E.dialect c = .accepted parts c₁)
    (reached : c.Reachable E.drift)
    (safe : E.Safe ((Form.compoundPart E.drift).flat.nodes parts)) :
    (∀ rest, E.Quiet (coreEnd ++ compoundEnd) c₁ rest →
      E.Quiet coreEnd c ((Form.compoundPart E.drift).flat.words parts ++ rest)) ∧
      ∀ {c' rest}, E.Follows n c c' ((Form.compoundPart E.drift).flat.words parts ++ rest) →
        E.mode.left ≤ c₁.ahead.length → E.Quiet (coreEnd ++ compoundEnd) c₁ rest →
        Accepts E.dialect (many E.again.limit (nextCompound E.again)) c' fun parts' c₁' =>
          E.Follows n c₁ c₁' rest ∧
            parts'.map CompoundPart.unplaced = parts.map CompoundPart.unplaced := by
  have both := Reruns.many (E := E) (n := n) (.compoundPart E.drift)
    (E.Quiet (coreEnd ++ compoundEnd)) (nextCompound E.again) known.enough ?_ ?_ run reached safe
  · exact ⟨fun rest quiet => (both.1 rest quiet).mono rfl, both.2⟩
  · intro c part c₂ run reached
    unfold nextCompound at run
    rw [run_here_bind] at run
    obtain ⟨operator, c₃, run₁, le₁, run⟩ := accepted_bind run
    cases operator with
    | none => exact absurd (accepted_pure run).1 (by simp)
    | some operator =>
      obtain ⟨core, c₄, run₂, le₂, run⟩ := accepted_bind run
      obtain ⟨eq, rfl⟩ := accepted_return run
      obtain rfl := Option.some.inj eq
      obtain ⟨-, word, mem, at_, ws, front⟩ := compoundOperator_front run₁ reached
      rw [compound_words]
      refine ⟨fun rest => ?_, fun follows keeps safe quiet => ?_⟩
      · rw [front]
        exact .at_keyword at_ (List.all_eq_true.mp compoundEnd_inert word mem)
      · unfold nextCompound
        rw [List.append_assoc] at follows
        refine Accepts.congr ?_ (run_here_bind ..)
        refine (compoundOperator_again run₁ follows (Nat.le_trans keeps le₁)
          (quiet_queryCore core rfl)).bind ?_
        rintro _ c₃' run₁' ⟨follows₁, rfl⟩
        have shorter := (compoundOperator_front run₁' follows.reached').1
        refine (queryCore_again known).step run₂ follows₁ keeps (safe_singleton.mp safe).2
          (quiet.mono rfl) fun core' c₄' run₂' same follows => ?_
        refine .of_return ⟨Nat.lt_of_le_of_lt (accepted_length run₂') shorter, _, rfl, ?_, follows⟩
        exact congrArg (CompoundPart.mk operator · .none) same
  · intro c c₂ run
    unfold nextCompound at run
    rw [run_here_bind] at run
    obtain ⟨operator, c₃, run₁, -, run⟩ := accepted_bind run
    cases operator with
    | some operator =>
      obtain ⟨core, c₄, -, -, run⟩ := accepted_bind run
      exact absurd (accepted_return run).1 (by simp)
    | none =>
      obtain ⟨-, rfl⟩ := accepted_pure run
      obtain rfl : c₃ = c := by
        rcases accepted_optionalCompoundOperator run₁ with ⟨-, ⟨some, -⟩ | ⟨some, -⟩⟩ | ⟨some, -⟩ |
          ⟨some, -⟩ | ⟨-, same, -⟩
        all_goals first | exact same | exact absurd some (by simp)
      refine ⟨rfl, fun follows keeps quiet => ?_⟩
      unfold nextCompound
      refine Accepts.congr ?_ (run_here_bind ..)
      refine (noCompoundOperator_again run₁ (quiet.mono rfl) follows).bind ?_
      rintro _ c₂' - ⟨rfl, rfl⟩
      exact .of_pure ⟨rfl, follows⟩

/-! ## Limits -/

/-- What goes on with a limit. -/
def limitEnd : List Starter :=
  .keyword .OFFSET :: .symbol .comma :: .power :: exprEnd

/-- Where a limit may end in written text, every expression may. -/
lemma quiet_of_done (written : E.mode = .written) (ends : E.Ends limitEnd c₁ rest) :
    E.Quiet exprEnd c rest := by
  refine .of_written fun _ starter mem => ?_
  have quiet := ends.1 starter (by simp [limitEnd, mem])
  rw [plan_written written] at quiet
  refine quiet.anywhere ?_ _ _
  have fails := List.all_eq_true.mp ends.2 starter (List.mem_cons_of_mem _ mem)
  rwa [Bool.not_eq_true'] at fails

/-- What modifies a placeholder in a limit is `OFFSET` or a comma after it. -/
lemma modifiesLimit_eq (cursor : Cursor) :
    modifiesLimit cursor.current =
      (cursor.view.atKeyword .OFFSET || cursor.view.atSymbol .comma) := by
  simp [modifiesLimit, View.atKeyword, View.atSymbol, Cursor.view, Cursor.current]

/-- A placeholder that stands alone is the whole expression that starts with it. -/
lemma lone_fixed (known : E.Known n) {modifies : Token → Bool} {name : String} {expr : Expr}
    (drift : E.drift = true)
    (run : E.again.expr.run E.dialect c' = .accepted expr c₁')
    (now : atLonePlaceholder modifies c'.view = some name) : modifies c₁'.current = false := by
  obtain ⟨dollar, fixed, noOperator⟩ := atLonePlaceholder_eq_some now
  obtain ⟨-, rfl⟩ := known.sound'.alone run dollar drift noOperator
  unfold Cursor.current
  rwa [Cursor.peek_advance]

/-- A placeholder does not stand alone where the limit goes on after the expression it starts. -/
lemma not_lone_of_modified (known : E.Known n) {expr : Expr}
    (run : E.again.expr.run E.dialect c' = .accepted expr c₁')
    (there : (c₁'.view.atKeyword .OFFSET || c₁'.view.atSymbol .comma) = true)
    (drift : E.drift = true) : atLonePlaceholder modifiesLimit c'.view = none := by
  cases now : atLonePlaceholder modifiesLimit c'.view with
  | none => rfl
  | some name =>
    have fixed := lone_fixed known drift run now
    rw [modifiesLimit_eq, there] at fixed
    exact absurd fixed (by simp)

/-- A bound with its offset after the word for it is read again. -/
lemma offsetWord_again (known : E.Known n) {first second : Expr} {c₂ : Cursor}
    (run₁ : E.rules.expr.run E.dialect c = .accepted first c₂)
    (at_ : c₂.view.atKeyword .OFFSET = true)
    (run₂ : E.rules.expr.run E.dialect c₂.advance = .accepted second c₁)
    (follows : E.Follows n c c'
      ((Form.limitKind E.drift).words (.expressions first (some second)) ++ rest))
    (keeps : E.mode.left ≤ c₁.ahead.length)
    (safe : E.Safe (Node.ofLimitKind (.expressions first (some second))))
    (quiet : E.Ends limitEnd c₁ rest) :
    (E.drift = true → atLonePlaceholder modifiesLimit c'.view = none) ∧
      Accepts E.dialect (limitExpressions E.again) c' fun value' c₁' =>
        E.Follows n c₁ c₁' rest ∧
          value'.unplaced = LimitKind.unplaced (.expressions first (some second)) := by
  have follows : E.Follows n c c' ((Form.expr E.drift).words first ++ .ofKeyword .OFFSET ::
    ((Form.expr E.drift).words second ++ rest)) := by
    simpa [Form.limitKind, LimitKind.pieces, Form.expr] using follows
  have keeps₂ : E.mode.left ≤ c₂.advance.ahead.length :=
    Nat.le_trans keeps (accepted_length run₂)
  have below : E.Safe ([.expr first] ++ [.expr second]) := safe
  rw [safe_append] at below
  obtain ⟨first', c₂', run₁', follows, same₁⟩ := known.expr run₁ follows
    (Nat.le_trans keeps₂ (by simp)) below.1 (.front rfl)
  refine ⟨not_lone_of_modified known run₁' (by simp [(follows.keyword at_ keeps₂).1]),
    accepts_of_run run₁' ?_⟩
  refine follows.eatKeyword at_ keeps₂ fun follows _ => ?_
  rw [if_pos rfl]
  refine known.expr.step run₂ follows keeps below.2 (quiet.1.mono rfl)
    fun second' c₁' _ same₂ follows => .of_pure ⟨follows, ?_⟩
  have same₁ : first'.unplaced = first.unplaced := same₁
  have same₂ : second'.unplaced = second.unplaced := same₂
  simp [LimitKind.unplaced, same₁, same₂]

/-- An offset before a comma and the bound after it are read again, wherever the text has the
offset: written text has it after the word.

**Proof sketch.** A written text has the bound first, then `OFFSET` and the offset. So the second
expression of the source is read first, and then the first one. In a copy the expressions are read
again where they were, with the comma between them. In both cases a placeholder at the front does
not stand alone, because of what follows it (`not_lone_of_modified`). -/
lemma offsetComma_again (known : E.Known n) {first second : Expr} {c₂ : Cursor}
    (run₁ : E.rules.expr.run E.dialect c = .accepted first c₂)
    (at_ : c₂.view.atSymbol .comma = true)
    (run₂ : E.rules.expr.run E.dialect c₂.advance = .accepted second c₁)
    (follows : E.Follows n c c'
      ((Form.limitKind E.drift).words (.expressions second (some first)) ++ rest))
    (keeps : E.mode.left ≤ c₁.ahead.length)
    (safe : E.Safe (Node.ofLimitKind (.expressions second (some first))))
    (quiet : E.Ends limitEnd c₁ rest) :
    (E.drift = true → atLonePlaceholder modifiesLimit c'.view = none) ∧
      Accepts E.dialect (limitExpressions E.again) c' fun value' c₁' =>
        E.Follows n c₁ c₁' rest ∧
          value'.unplaced = LimitKind.unplaced (.expressions second (some first)) := by
  have follows : E.Follows n c c' ((Form.expr E.drift).words second ++ .ofKeyword .OFFSET ::
    ((Form.expr E.drift).words first ++ rest)) := by
    simpa [Form.limitKind, LimitKind.pieces, Form.expr] using follows
  have keeps₂ : E.mode.left ≤ c₂.advance.ahead.length :=
    Nat.le_trans keeps (accepted_length run₂)
  have below : E.Safe ([.expr second] ++ [.expr first]) := safe
  rw [safe_append] at below
  by_cases written : E.mode = .written
  · have reached := follows.reached
    have reached₂ := accepted_reachable run₁ reached
    have follows := follows.of_written written reached₂.advance
    obtain ⟨second', c₂', run₁', follows, same₁⟩ :=
      known.expr run₂ follows keeps below.1 (.front rfl)
    obtain ⟨kind, -, follows, -⟩ := follows.spelled written
    have at' := atKeyword_of_kind kind
    refine ⟨not_lone_of_modified known run₁' (by simp [at']),
      accepts_of_run run₁' (takeKeyword at' ?_)⟩
    rw [if_pos rfl]
    have follows := follows.of_written written reached
    refine known.expr.step run₁ follows (Nat.le_trans keeps₂ (by simp)) below.2
      (quiet_of_done written quiet) fun first' c₁' _ same₂ follows => ?_
    have follows := follows.of_written written (accepted_reachable run₂ reached₂.advance)
    refine .of_pure ⟨follows, ?_⟩
    have same₁ : second'.unplaced = second.unplaced := same₁
    have same₂ : first'.unplaced = first.unplaced := same₂
    simp [LimitKind.unplaced, same₁, same₂]
  · have follows := follows.of_copy written ((Form.expr E.drift).words first ++
      .ofSymbol .comma :: ((Form.expr E.drift).words second ++ rest))
    obtain ⟨first', c₂', run₁', follows, same₁⟩ := known.expr run₁ follows
      (Nat.le_trans keeps₂ (by simp)) below.2 (.front rfl)
    have at' := (follows.symbol at_ keeps₂).1
    refine ⟨not_lone_of_modified known run₁' (by simp [at']), accepts_of_run run₁' ?_⟩
    refine skipKeyword (not_atKeyword at' _) ?_
    rw [if_neg Bool.false_ne_true]
    refine follows.eatSymbol at_ keeps₂ fun follows _ => ?_
    rw [if_pos rfl]
    refine known.expr.step run₂ follows keeps below.1 (quiet.1.mono rfl)
      fun second' c₁' _ same₂ follows => .of_pure ⟨follows, ?_⟩
    have same₁ : first'.unplaced = first.unplaced := same₁
    have same₂ : second'.unplaced = second.unplaced := same₂
    simp [LimitKind.unplaced, same₁, same₂]

/-- A bound without an offset is read again. -/
lemma bound_again (known : E.Known n) {first : Expr}
    (run : E.rules.expr.run E.dialect c = .accepted first c₁)
    (notOffset : ¬ c₁.view.atKeyword .OFFSET = true)
    (notComma : ¬ c₁.view.atSymbol .comma = true)
    (follows : E.Follows n c c' ((Form.limitKind E.drift).words (.expressions first none) ++ rest))
    (keeps : E.mode.left ≤ c₁.ahead.length)
    (safe : E.Safe (Node.ofLimitKind (.expressions first none)))
    (quiet : E.Ends limitEnd c₁ rest)
    (before : E.drift = true → atLonePlaceholder modifiesLimit c.view = none) :
    (E.drift = true → atLonePlaceholder modifiesLimit c'.view = none) ∧
      Accepts E.dialect (limitExpressions E.again) c' fun value' c₁' =>
        E.Follows n c₁ c₁' rest ∧
          value'.unplaced = LimitKind.unplaced (.expressions first none) := by
  have follows : E.Follows n c c' ((Form.expr E.drift).words first ++ rest) := by
    simpa [Form.limitKind, LimitKind.pieces, Form.expr] using follows
  have below : E.Safe ([.expr first] ++ []) := safe
  obtain ⟨first', c₁', run', follows, same⟩ := known.expr run follows keeps
    (by simpa using below) (quiet.1.mono rfl)
  refine ⟨fun drift => ?_, accepts_of_run run' ?_⟩
  · cases now : atLonePlaceholder modifiesLimit c'.view with
    | none => rfl
    | some name =>
      obtain ⟨either, -, -⟩ := lone_again known drift run run' same (before drift) now
      rw [modifiesLimit_eq, not_power_of_done quiet.2] at either
      simp_all
  · refine skipKeyword (quiet.1.not_keyword follows rfl notOffset) ?_
    rw [if_neg Bool.false_ne_true]
    refine skipSymbol (quiet.1.not_symbol follows rfl notComma) ?_
    rw [if_neg Bool.false_ne_true]
    have same : first'.unplaced = first.unplaced := same
    exact .of_pure ⟨follows, by simp [LimitKind.unplaced, same]⟩

/-- The expressions of a limit are read again, and as expressions. -/
lemma limitExpressions_again (known : E.Known n) {value : LimitKind}
    (run : (limitExpressions E.rules).run E.dialect c = .accepted value c₁)
    (follows : E.Follows n c c' ((Form.limitKind E.drift).words value ++ rest))
    (keeps : E.mode.left ≤ c₁.ahead.length) (safe : E.Safe (Node.ofLimitKind value))
    (quiet : E.Ends limitEnd c₁ rest)
    (before : E.drift = true → atLonePlaceholder modifiesLimit c.view = none) :
    (E.drift = true → atLonePlaceholder modifiesLimit c'.view = none) ∧
      Accepts E.dialect (limitExpressions E.again) c' fun value' c₁' =>
        E.Follows n c₁ c₁' rest ∧ value'.unplaced = value.unplaced := by
  unfold limitExpressions at run
  obtain ⟨first, c₂, run₁, -, run⟩ := accepted_bind run
  rw [run_eatKeyword_bind] at run
  split at run
  · next at_ =>
    obtain ⟨second, c₃, run₂, -, run⟩ := accepted_bind run
    obtain ⟨rfl, rfl⟩ := accepted_pure run
    exact offsetWord_again known run₁ at_ run₂ follows keeps safe quiet
  rw [if_neg Bool.false_ne_true, run_eatSymbol_bind] at run
  split at run
  · next at_ =>
    obtain ⟨second, c₃, run₂, -, run⟩ := accepted_bind run
    obtain ⟨rfl, rfl⟩ := accepted_pure run
    exact offsetComma_again known run₁ at_ run₂ follows keeps safe quiet
  · next notOffset notComma =>
    obtain ⟨rfl, rfl⟩ := accepted_pure run
    exact bound_again known run₁ notOffset notComma follows keeps safe quiet before

/-- **Limits are read again.**

**Proof sketch.** If a placeholder stood alone and was read as such, then the dollar name is next
again, and what follows it is neither an operator nor modifies it, as the end of the limit is quiet
about both. If expressions were read, they are read again (`limitExpressions_again`), and where the
drift extensions are read no placeholder stands alone before them. In plain SQL it does not matter
whether one does. -/
lemma limit_again (known : E.Known n) :
    E.Reruns n (.limit E.drift) (E.Ends limitEnd) (limit E.rules) (limit E.again) := by
  intro c c' value c₁ rest run follows keeps safe quiet
  unfold limit at run ⊢
  obtain ⟨at_, le, run⟩ := accepted_expectKeyword run
  rw [run_view_bind] at run
  obtain ⟨kind, span⟩ := value
  have follows : E.Follows n c c' (.ofKeyword .LIMIT :: ((Form.limitKind E.drift).words kind ++
    rest)) := by simpa [Form.limit, Limit.pieces, Form.limitKind] using follows
  have below : E.Safe (Node.ofLimitKind kind) := (safe_singleton.mp safe).2
  refine follows.expectKeyword at_ (Nat.le_trans keeps le) fun start next _ => ?_
  refine Accepts.congr ?_ (run_view_bind ..)
  have expressions {start₁ : Span}
      (run : (do
        let kind ← limitExpressions E.rules
        return ⟨kind, ← spanFrom start₁⟩ : Parser Limit).run E.dialect c.advance =
          .accepted ⟨kind, span⟩ c₁)
      (before : E.drift = true → atLonePlaceholder modifiesLimit c.advance.view = none) :
      (E.drift = true → atLonePlaceholder modifiesLimit c'.advance.view = none) ∧
        Accepts E.dialect (do
          let kind ← limitExpressions E.again
          return ⟨kind, ← spanFrom start⟩ : Parser Limit) c'.advance fun value' c₁' =>
            E.Follows n c₁ c₁' rest ∧ value'.unplaced = Limit.unplaced ⟨kind, span⟩ := by
    obtain ⟨kind, c₂, run₁, -, run⟩ := accepted_bind run
    obtain ⟨eq, rfl⟩ := accepted_return run
    cases eq
    obtain ⟨lone, accepts⟩ := limitExpressions_again known run₁ next keeps below quiet before
    refine ⟨lone, accepts.bind ?_⟩
    rintro kind' c₁' - ⟨follows, same⟩
    exact .of_return ⟨follows, congrArg (Limit.mk · .none) same⟩
  split at run
  · next name lone =>
    rw [run_isDrift_bind] at run
    split at run
    · next drift =>
      obtain ⟨-, -, run⟩ := accepted_advance run
      obtain ⟨eq, rfl⟩ := accepted_return run
      cases eq
      obtain ⟨dollar, fixed, noOperator⟩ := atLonePlaceholder_eq_some lone
      have kind := kind_of_dollarName dollar
      have next : E.Follows n c.advance c'.advance (.ofVariable (.named .dollar name) :: rest) :=
        next
      obtain ⟨kind', last, -⟩ := next.same kind
        (by rw [show c.advance.current.kind = _ from kind]; simp) keeps
      have fixed' : modifiesLimit (c'.advance.peek 1) = false := by
        rw [← Cursor.peek_advance] at fixed ⊢
        change modifiesLimit c'.advance.advance.current = false
        change modifiesLimit c.advance.advance.current = false at fixed
        rw [modifiesLimit_eq, Bool.or_eq_false_iff] at fixed ⊢
        simp only [← Bool.not_eq_true] at fixed ⊢
        exact ⟨quiet.1.not_keyword last rfl fixed.1, quiet.1.not_symbol last rfl fixed.2⟩
      have noOperator' : infixPower (c'.advance.peek 1).kind = none := by
        rw [← Cursor.peek_advance] at noOperator ⊢
        have := quiet.1.not_passes .power last (by decide) (by simp)
          (by simp [Starter.passes, Starter.first, noOperator])
        simpa [Starter.passes, Starter.first, Starter.second] using this
      rw [atLonePlaceholder_of (dollarName_of_kind kind') fixed' noOperator']
      refine Accepts.congr ?_ (run_isDrift_bind ..)
      rw [if_pos drift]
      exact accepts_advance (by rw [kind']; rfl) (.of_return ⟨last, rfl⟩)
    · next notDrift =>
      obtain ⟨-, accepts⟩ := expressions run fun drift => absurd drift notDrift
      split
      · refine Accepts.congr ?_ (run_isDrift_bind ..)
        rw [if_neg notDrift]
        exact accepts
      · exact accepts
  · next before =>
    obtain ⟨lone, accepts⟩ := expressions run fun _ => before
    split
    · next name now =>
      refine Accepts.congr ?_ (run_isDrift_bind ..)
      split
      · next drift => exact absurd now (by rw [lone drift]; simp)
      · exact accepts
    · exact accepts

/-! ## Common tables -/

/-- What the hint about a common table was read from. -/
lemma accepted_materialization {hint : Option Bool}
    (run : materialization.run E.dialect c = .accepted hint c₁) :
    (hint = some false ∧ c.view.atKeywords .NOT .MATERIALIZED = true ∧ c₁ = c.advance.advance ∧
        E.dialect.supports .materializedTables = true) ∨
      (hint = some true ∧ c.view.atKeyword .MATERIALIZED = true ∧ c₁ = c.advance ∧
        E.dialect.supports .materializedTables = true) ∨
      (hint = none ∧ ¬ c.view.atKeywords .NOT .MATERIALIZED = true ∧
        ¬ c.view.atKeyword .MATERIALIZED = true ∧ c₁ = c) := by
  unfold materialization at run
  rw [run_here_bind, run_sees_bind, run_eatKeyword_bind] at run
  split at run
  · next at_ =>
    by_cases not : c.view.atKeywords .NOT .MATERIALIZED = true
    · unfold View.atKeywords at not
      rw [Bool.and_eq_true] at not
      exact absurd at_ (not_otherKeyword not.1 (by decide))
    · rw [if_neg not, if_pos rfl] at run
      obtain ⟨has, run⟩ := accepted_require run
      obtain ⟨rfl, rfl⟩ := accepted_pure run
      exact .inr (.inl ⟨rfl, at_, rfl, has⟩)
  · next notAt =>
    by_cases not : c.view.atKeywords .NOT .MATERIALIZED = true
    · rw [if_pos not] at run
      obtain ⟨-, -, run⟩ := accepted_advance run
      obtain ⟨-, -, run⟩ := accepted_advance run
      obtain ⟨has, run⟩ := accepted_require run
      obtain ⟨rfl, rfl⟩ := accepted_pure run
      exact .inl ⟨rfl, not, rfl, has⟩
    · rw [if_neg not, if_neg Bool.false_ne_true] at run
      obtain ⟨rfl, rfl⟩ := accepted_pure run
      exact .inr (.inr ⟨rfl, not, notAt, rfl⟩)

/-- Whether a common table is kept is read again before its query.

**Proof sketch.** By what was read (`accepted_materialization`). The keywords that were next are
next again, and the feature is demanded again. `MATERIALIZED` is not next where `NOT` is, and
neither is next again where there was no hint. -/
lemma materialization_again :
    E.Reruns n .materialized (E.Quiet [.keywords .NOT .MATERIALIZED, .keyword .MATERIALIZED])
      materialization materialization := by
  intro c c' value c₁ rest run follows keeps _ quiet
  unfold materialization
  refine Accepts.congr ?_ (run_here_bind ..)
  refine accepts_sees ?_
  rcases accepted_materialization run with ⟨rfl, not, rfl, has⟩ | ⟨rfl, at_, rfl, has⟩ |
    ⟨rfl, notNot, notAt, rfl⟩
  · have follows : E.Follows n c c' (.ofKeyword .NOT :: .ofKeyword .MATERIALIZED :: rest) := follows
    have not' := (follows.keywords not keeps).1
    have first : c'.view.atKeyword .NOT = true := by
      unfold View.atKeywords at not'
      rw [Bool.and_eq_true] at not'
      exact not'.1
    refine skipKeyword (not_otherKeyword first (by decide)) ?_
    rw [if_pos not']
    refine follows.advanceKeywords not keeps fun follows _ => ?_
    exact .congr (accepts_require has (.of_pure ⟨follows, rfl⟩)) (run_spanFrom_bind ..)
  · have follows : E.Follows n c c' (.ofKeyword .MATERIALIZED :: rest) := follows
    have at' := (follows.keyword at_ keeps).1
    have notNot : ¬ c'.view.atKeywords .NOT .MATERIALIZED = true := by
      unfold View.atKeywords
      rw [Bool.and_eq_true, not_and_or]
      exact .inl (not_otherKeyword at' (by decide))
    refine follows.eatKeyword at_ keeps fun follows _ => ?_
    rw [if_neg notNot, if_pos rfl]
    exact .congr (accepts_require has (.of_pure ⟨follows, rfl⟩)) (run_spanFrom_bind ..)
  · have follows : E.Follows n c₁ c' rest := follows
    refine skipKeyword (quiet.not_keyword follows rfl notAt) ?_
    rw [if_neg (quiet.not_keywords follows rfl notNot), if_neg Bool.false_ne_true]
    exact .of_pure ⟨follows, rfl⟩

/-- The words of a common table are those of its parts. -/
lemma commonTable_words (name : String) (columns : List String) (materialized : Option Bool)
    (query : Query) (span : Span) :
    (Form.commonTable E.drift).words ⟨name, columns, materialized, query, span⟩ ++ rest =
      Form.name.words name ++ (Form.columnNames.words columns ++ .ofKeyword .AS ::
        (Form.materialized.words materialized ++
          ((Form.query E.drift).parens.words query ++ rest))) := by
  cases materialized with
  | none =>
    simp [Form.commonTable, CommonTable.pieces, Form.query, Form.parens, wordsOf_parens,
      Form.materialized, Form.name, wordsOf_columnNames]
  | some kept =>
    cases kept <;>
      simp [Form.commonTable, CommonTable.pieces, Form.query, Form.parens, wordsOf_parens,
        Form.materialized, Form.name, wordsOf_columnNames, wordsOf_wordsIf]

/-- A common table is read again. -/
lemma commonTable_again (known : E.Known n) :
    E.Reruns n (.commonTable E.drift) (fun _ _ => True) (commonTable E.rules)
      (commonTable E.again) := by
  intro c c' value c₁ rest run follows keeps safe _
  unfold commonTable at run ⊢
  rw [run_here_bind] at run
  obtain ⟨name, c₂, run₁, le₁, run⟩ := accepted_bind run
  obtain ⟨columns, c₃, run₂, le₂, run⟩ := accepted_bind run
  obtain ⟨at_, le₃, run⟩ := accepted_expectKeyword run
  obtain ⟨materialized, c₄, run₃, le₄, run⟩ := accepted_bind run
  obtain ⟨query, c₅, run₄, le₅, run⟩ := accepted_bind run
  obtain ⟨rfl, rfl⟩ := accepted_return run
  rw [commonTable_words] at follows
  refine Accepts.congr ?_ (run_here_bind ..)
  refine identifier_again.plain rfl run₁ follows (Nat.le_trans keeps le₁) safe_nil trivial
    fun c₂' _ follows => ?_
  refine (optionalColumnNames_again known.enough).plain rfl run₂ follows (Nat.le_trans keeps le₂)
    safe_nil (.front rfl) fun c₃' _ follows => ?_
  refine follows.expectKeyword at_ (Nat.le_trans keeps le₃) fun _ follows _ => ?_
  refine materialization_again.plain rfl run₃ follows (Nat.le_trans keeps le₄) safe_nil
    (.front rfl) fun c₄' _ follows => ?_
  refine (known.query.parenthesized fun _ _ close _ => queryEnds_of_close close).step run₄ follows
    keeps (safe_singleton.mp safe).2 trivial fun query' c₅' _ same follows => ?_
  exact .of_return ⟨follows, congrArg (CommonTable.mk name columns materialized · .none) same⟩

/-- The words of `WITH` are those of its parts. -/
lemma with_words (recursive : Bool) (tables : List CommonTable) (span : Span) :
    (Form.withClause E.drift).words ⟨recursive, tables, span⟩ =
      .ofKeyword .WITH :: ((Form.flag [.ofKeyword .RECURSIVE]).words recursive ++
        (Form.commonTable E.drift).commas.words tables) := by
  have listed := Form.wordsOf_commas E.drift (.commonTable E.drift) CommonTable.pieces
    (fun _ => rfl) tables
  simp [Form.withClause, WithClause.pieces, listed, wordsOf_wordsIf, Form.flag]

/-- The words of `WITH` start with its keyword. -/
lemma withClause_front (clause : WithClause) :
    ∃ ws, (Form.withClause E.drift).words clause = .ofKeyword .WITH :: ws := by
  obtain ⟨recursive, tables, span⟩ := clause
  exact ⟨_, with_words recursive tables span⟩

/-- **Common tables are read again.** -/
lemma withClause_again (known : E.Known n) :
    E.Reruns n (.withClause E.drift) (E.Quiet [.symbol .comma]) (withClause E.rules)
      (withClause E.again) := by
  intro c c' value c₁ rest run follows keeps safe quiet
  unfold withClause at run ⊢
  obtain ⟨at_, le₁, run⟩ := accepted_expectKeyword run
  obtain ⟨recursive, c₂, run₂, le₂, run⟩ := accepted_bind run
  obtain ⟨tables, c₃, run₃, le₃, run⟩ := accepted_bind run
  obtain ⟨rfl, rfl⟩ := accepted_return run
  rw [with_words, List.cons_append, List.append_assoc] at follows
  have named : E.Quiet [.keyword .RECURSIVE] c₂
      ((Form.commonTable E.drift).commas.words tables ++ rest) := by
    cases tables with
    | nil => exact absurd rfl (commaSeparated_ne_nil _ run₃)
    | cons first others =>
      obtain ⟨name, columns, materialized, query, span⟩ := first
      rw [Form.commas, List.append_assoc, commonTable_words]
      exact .front rfl
  have below : E.Safe (Node.each Node.commonTable tables) := (safe_singleton.mp safe).2
  rw [each_eq] at below
  refine follows.expectKeyword at_ (Nat.le_trans keeps le₁) fun _ follows _ => ?_
  refine (eatKeyword_again .RECURSIVE).plain rfl run₂ follows (Nat.le_trans keeps le₂) safe_nil
    named fun c₂' _ follows => ?_
  refine ((commonTable_again known).commaSeparated known.enough (fun _ _ _ => trivial)
    fun _ _ quiet => ⟨trivial, quiet⟩).step run₃ follows keeps below quiet
    fun tables' c₃' _ same follows => ?_
  have same : tables'.map CommonTable.unplaced = tables.map CommonTable.unplaced := same
  exact .of_return ⟨follows, by simp [Form.withClause, WithClause.unplaced, same]⟩

/-! ## Whole queries -/

/-- The words of a query after its common tables. -/
def bodyWords (drift : Bool) (query : Query) : List Word :=
  (Form.queryCore drift).words query.core ++
    ((Form.compoundPart drift).flat.words query.compounds ++
      ((Form.orderBy drift).maybe.words query.order ++ (Form.limit drift).maybe.words query.limit))

/-- The words of a query are those of its common tables, and those after them. -/
lemma query_words (query : Query) :
    (Form.query E.drift).words query =
      (Form.withClause E.drift).maybe.words query.commonTables ++ bodyWords E.drift query := by
  obtain ⟨commonTables, core, compounds, order, limit, span⟩ := query
  have parts := Form.wordsOf_flatMap E.drift (.compoundPart E.drift) CompoundPart.pieces
    (fun _ => rfl) compounds
  cases commonTables <;> cases order <;> cases limit <;>
    simp [Form.query, Query.pieces, bodyWords, parts, Form.queryCore, Form.maybe, Form.orderBy,
      Form.limit, Form.withClause]

/-- The words of a limit start with its keyword. -/
lemma limit_front (limit : Limit) :
    ∃ ws, (Form.limit E.drift).words limit = .ofKeyword .LIMIT :: ws := by
  obtain ⟨kind, span⟩ := limit
  exact ⟨_, by simp [Form.limit, Limit.pieces]; rfl⟩

/-- A limit that may be left out is read again. -/
lemma optionalLimit_again (known : E.Known n) :
    E.Reruns n (Form.limit E.drift).maybe (E.Ends (.keyword .LIMIT :: limitEnd))
      (whenever (·.atKeyword .LIMIT) (limit E.rules))
      (whenever (·.atKeyword .LIMIT) (limit E.again)) :=
  .whenKeyword (fun _ _ _ _ _ _ run => limit_again known run) limit_front
    (fun run => (accepted_expectKeyword run).2.1)
    fun _ _ ends => ⟨⟨ends.1.mono rfl, ends.2⟩, ends.1.mono rfl⟩

/-- A limit that may be left out takes nothing unless its keyword is next. -/
lemma optionalLimit_skips {rules : Rules} :
    Skips E.dialect (Form.limit E.drift).maybe [.keyword .LIMIT]
      (whenever (·.atKeyword .LIMIT) (limit rules)) :=
  .whenever fun value => by
    obtain ⟨ws, eq⟩ := limit_front (E := E) value
    exact ⟨_, ws, eq, by simp⟩

/-- Before a part that may be missing, nothing goes on with an expression if nothing does so after
it. -/
lemma done_whenever {α : Type} {word : Keyword} {parser : Parser α} {value : Option α}
    (run : (whenever (·.atKeyword word) parser).run E.dialect c = .accepted value c₁)
    (inert : (Starter.power :: exprEnd).all (fun starter => !starter.first (.keyword word)) = true)
    (done : Done c₁) : Done c := by
  unfold whenever at run
  rw [run_sees_bind] at run
  split at run
  · next at_ => exact done_of_keyword at_ inert
  · obtain ⟨-, rfl⟩ := accepted_pure run
    exact done

/-- A query has the common tables that were read before it. -/
lemma queryAfter_tables {rules : Rules} {commonTables : Option WithClause} {start : Span} :
    (queryAfter rules commonTables start).Yields (·.commonTables = commonTables) := by
  unfold queryAfter
  refine .bind fun core => .bind fun compounds => .bind fun order => .bind fun limit => ?_
  exact .bind fun span => .of_pure rfl

/-- **Queries after their common tables are read again.**

**Proof sketch.** The run is taken apart into the first member, the further ones, the ordering and
the limit, and so are the words. From the end to the front, the limit and the ordering start with
their keywords and a further member with its operator, so that each part is quiet about those after
it. Then each part is read again by its own lemma. -/
lemma queryAfter_again (known : E.Known n) {commonTables commonTables' : Option WithClause}
    {start start' : Span} {value : Query}
    (run : (queryAfter E.rules commonTables start).run E.dialect c = .accepted value c₁)
    (same : commonTables'.map WithClause.unplaced = commonTables.map WithClause.unplaced)
    (follows : E.Follows n c c' (bodyWords E.drift value ++ rest))
    (keeps : E.mode.left ≤ c₁.ahead.length) (safe : E.Safe [.query value])
    (quiet : E.Ends queryEnd c₁ rest) :
    Accepts E.dialect (queryAfter E.again commonTables' start') c' fun value' c₁' =>
      E.Follows n c₁ c₁' rest ∧ value'.unplaced = value.unplaced := by
  unfold queryAfter at run ⊢
  obtain ⟨core, c₂, run₁, le₁, run⟩ := accepted_bind run
  obtain ⟨compounds, c₃, run₂, le₂, run⟩ := accepted_bind run
  obtain ⟨order, c₄, run₃, le₃, run⟩ := accepted_bind run
  obtain ⟨limit, c₅, run₄, le₄, run⟩ := accepted_bind run
  obtain ⟨rfl, rfl⟩ := accepted_return run
  have follows : E.Follows n c c' ((Form.queryCore E.drift).words core ++
      ((Form.compoundPart E.drift).flat.words compounds ++
        ((Form.orderBy E.drift).maybe.words order ++
          ((Form.limit E.drift).maybe.words limit ++ rest)))) := by
    simpa [bodyWords] using follows
  have below : E.Safe (Node.maybe Node.withClause commonTables ++ core.node ::
    Node.each Node.compoundPart compounds ++ Node.maybe Node.orderBy order ++
    Node.maybe Node.limit limit) := (safe_singleton.mp safe).2
  simp only [safe_append, each_eq, maybe_eq] at below
  obtain ⟨⟨⟨-, members⟩, safe₃⟩, safe₄⟩ := below
  obtain ⟨safe₁, safe₂⟩ := safe_cons.mp members
  have reached₂ := accepted_reachable run₁ follows.reached
  have quiet₄ : E.Ends (.keyword .ORDER :: orderEnd) c₄ _ :=
    ⟨optionalLimit_skips.quiet run₄ rfl (quiet.1.mono rfl), done_whenever run₄ rfl quiet.2⟩
  have quiet₃ : E.Quiet (coreEnd ++ compoundEnd) c₃ _ :=
    optionalOrderBy_skips.quiet run₃ rfl (optionalLimit_skips.quiet run₄ rfl (quiet.1.mono rfl))
  obtain ⟨before, again⟩ := compounds_again known run₂ reached₂ safe₂
  refine (queryCore_again known).step run₁ follows (Nat.le_trans keeps le₁) safe₁ (before _ quiet₃)
    fun core' c₂' _ same₁ follows => ?_
  refine (again follows (Nat.le_trans keeps le₂) quiet₃).bind ?_
  rintro compounds' c₃' - ⟨follows, same₂⟩
  refine (optionalOrderBy_again known).step run₃ follows (Nat.le_trans keeps le₃)
    (by cases order <;> exact safe₃) quiet₄ fun order' c₄' _ same₃ follows => ?_
  refine (optionalLimit_again known).step run₄ follows keeps (by cases limit <;> exact safe₄)
    ⟨quiet.1.mono rfl, quiet.2⟩ fun limit' c₅' _ same₄ follows => .of_return ⟨follows, ?_⟩
  have same₁ : core'.unplaced = core.unplaced := same₁
  have same₃ : order'.map OrderBy.unplaced = order.map OrderBy.unplaced := same₃
  have same₄ : limit'.map Limit.unplaced = limit.map Limit.unplaced := same₄
  simp [Query.unplaced, same, same₁, same₂, same₃, same₄]

/-- **Queries are read again.** -/
lemma query_again (known : E.Known n) :
    E.Reruns n (.query E.drift) (E.Ends queryEnd) (query E.rules) (query E.again) := by
  intro c c' value c₁ rest run follows keeps safe quiet
  unfold query at run ⊢
  rw [run_here_bind] at run
  obtain ⟨commonTables, c₂, run₁, le₁, run⟩ := accepted_bind run
  rw [query_words, List.append_assoc] at follows
  refine Accepts.congr ?_ (run_here_bind ..)
  obtain rfl := queryAfter_tables run
  have below : E.Safe ((Form.withClause E.drift).maybe.nodes value.commonTables) := by
    have below : E.Safe (Node.maybe Node.withClause value.commonTables ++ value.core.node ::
      Node.each Node.compoundPart value.compounds ++ Node.maybe Node.orderBy value.order ++
      Node.maybe Node.limit value.limit) := (safe_singleton.mp safe).2
    simp only [safe_append, maybe_eq] at below
    have tables := below.1.1.1
    revert tables
    cases value.commonTables <;> exact id
  have part : E.Reruns n (Form.withClause E.drift).maybe (E.Quiet [.symbol .comma, .keyword .WITH])
      (whenever (·.atKeyword .WITH) (withClause E.rules))
      (whenever (·.atKeyword .WITH) (withClause E.again)) :=
    .whenKeyword (fun _ _ _ _ _ _ run => withClause_again known run) withClause_front
      (fun run => (accepted_expectKeyword run).2.1)
      fun _ _ quiet => ⟨quiet.mono rfl, quiet.mono rfl⟩
  refine part.step run₁ follows (Nat.le_trans keeps le₁) below
    (by rw [bodyWords, List.append_assoc]; exact quiet_queryCore value.core rfl)
    fun commonTables' c₂' _ same follows => ?_
  exact queryAfter_again known run same follows keeps safe quiet

/-- A query is written with the keyword in front that it was read with.

**Proof sketch.** If `WITH` was next, the words start with the common tables that were read, and
these with `WITH`. Otherwise they start with the first member, and this with its keyword
(`queryCore_starts`). -/
lemma query_front {rules : Rules} {value : Query}
    (run : (query rules).run E.dialect c = .accepted value c₁) :
    c₁.ahead.length ≤ c.advance.ahead.length ∧
      ∃ word ws, (Form.query E.drift).words value = .ofKeyword word :: ws ∧
        c.view.atKeyword word = true := by
  unfold query at run
  rw [run_here_bind] at run
  obtain ⟨commonTables, c₂, run₁, le₁, run⟩ := accepted_bind run
  rw [query_words]
  unfold whenever at run₁
  rw [run_sees_bind] at run₁
  split at run₁
  · next at_ =>
    obtain ⟨clause, c₃, inner, -, run₁⟩ := accepted_bind run₁
    obtain ⟨rfl, rfl⟩ := accepted_pure run₁
    have tables := queryAfter_tables run
    obtain ⟨-, takes, -⟩ := accepted_expectKeyword inner
    obtain ⟨ws, front⟩ := withClause_front (E := E) clause
    refine ⟨Nat.le_trans le₁ takes, .WITH, ws ++ bodyWords E.drift value, ?_, at_⟩
    rw [tables]
    change (Form.withClause E.drift).words clause ++ _ = _
    rw [front]
    rfl
  · obtain ⟨rfl, rfl⟩ := accepted_pure run₁
    unfold queryAfter at run
    obtain ⟨core, c₃, run₃, le₃, run⟩ := accepted_bind run
    obtain ⟨compounds, c₄, -, -, run⟩ := accepted_bind run
    obtain ⟨order, c₅, -, -, run⟩ := accepted_bind run
    obtain ⟨limit, c₆, -, -, run⟩ := accepted_bind run
    obtain ⟨rfl, rfl⟩ := accepted_return run
    obtain ⟨takes, word, ws, front, at_⟩ := queryCore_starts run₃
    refine ⟨Nat.le_trans le₃ takes, ?_⟩
    rw [bodyWords, front]
    exact ⟨word, _, rfl, at_⟩

end Rereading

end SqlTree
