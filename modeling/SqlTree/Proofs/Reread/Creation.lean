import SqlTree.Proofs.Bounds.Statement
import SqlTree.Proofs.Reread.Definition

set_option autoImplicit false

/-!
# Reading statements that create things again

After `CREATE` and `TEMP` the keyword that is next tells what is created. Both readings find the
same keyword there, so each of the parsers is read again on its own.

## Main definitions

* `SqlTree.Form.statement` — how statements are written.

## Main results

* `SqlTree.Rereading.statement_again` — statements of every kind are read again.
-/

namespace SqlTree

namespace Form

variable (drift : Bool)

/-- A statement. -/
def statement : Form Statement :=
  ofPieces drift Statement.pieces (fun statement => [statement.node]) Statement.unplaced

/-- Whether nothing happens to a thing that is there already. -/
abbrev ifNotExists : Form Bool :=
  .flag [.ofKeyword .IF, .ofKeyword .NOT, .ofKeyword .EXISTS]

/-- When a trigger runs. -/
abbrev triggerTiming : Form (Option TriggerTiming) :=
  (Form.choice TriggerTiming.keywords).maybe

/-- The change that a trigger answers. -/
def triggerEvent : Form TriggerEvent :=
  ofPieces false TriggerEvent.pieces (fun _ => []) id

/-- A statement of a trigger with the semicolon after it. -/
def triggerStatement : Form Statement :=
  { statement drift with
    words := fun value => (statement drift).words value ++ [.ofSymbol .semicolon] }

/-- The statements of a trigger, with the keywords around them. -/
def triggerBody : Form (List Statement) :=
  { (triggerStatement drift).flat with
    words := fun statements =>
      .ofKeyword .BEGIN :: ((triggerStatement drift).flat.words statements ++ [.ofKeyword .END]) }

end Form

namespace Rereading

open SqlTree.Parser SqlTree.Grammar

variable {E : Rereading} {n : Nat} {c c' c₁ c₁' : Cursor} {rest : List Word}

/-! ## Parts of several creations -/

/-- Whether nothing happens to a thing that is there already is read again. -/
lemma ifNotExists_again :
    E.Reruns n .ifNotExists (E.Quiet [.keyword .IF]) ifNotExists ifNotExists := by
  intro c c' value c₁ rest run follows keeps _ quiet
  unfold ifNotExists at run ⊢
  rw [run_eatKeyword_bind] at run
  split at run
  · next at_ =>
    obtain ⟨_, c₂, run₁, le₁, run⟩ := accepted_bind run
    obtain ⟨rfl, rfl⟩ := accepted_pure run
    have follows : E.Follows n c c' (.ofKeyword .IF ::
      ([Keyword.NOT, .EXISTS].map .ofKeyword ++ rest)) := follows
    refine follows.eatKeyword at_ (Nat.le_trans keeps (accepted_length run₁)) fun follows _ => ?_
    exact (expectKeywords_again [.NOT, .EXISTS]).plain rfl run₁ follows keeps safe_nil trivial
      fun c₂' _ follows => .of_pure ⟨follows, rfl⟩
  · next not =>
    obtain ⟨rfl, rfl⟩ := accepted_pure run
    exact skipKeyword (quiet.not_keyword follows rfl not) (.of_pure ⟨follows, rfl⟩)

/-- The words that a creation starts with: `CREATE`, whether it is temporary, what is created, and
`IF NOT EXISTS`. -/
lemma wordsOf_creation (drift temporary ifNotExists : Bool) (object : List Keyword) :
    Render.wordsOf drift (Render.creation temporary object ifNotExists) =
      .ofKeyword .CREATE :: ((Form.flag [.ofKeyword .TEMP]).words temporary ++
        (object.map .ofKeyword ++ Form.ifNotExists.words ifNotExists)) := by
  have temp : Render.wordsOf drift (Render.wordsIf temporary [.TEMP]) =
      (Form.flag [.ofKeyword .TEMP]).words temporary := by cases temporary <;> rfl
  have exists_ : Render.wordsOf drift (Render.wordsIf ifNotExists [.IF, .NOT, .EXISTS]) =
      Form.ifNotExists.words ifNotExists := by cases ifNotExists <;> rfl
  unfold Render.creation
  simp only [Render.wordsOf_append, temp, exists_, wordsOf_wordsIf, List.append_assoc]
  rfl

/-- What is created is read again after the keywords that say what it is. -/
lemma head_again {β : Type} {ifNotExists_ : Bool} {name : Option String × String} {c₂ c₃ : Cursor}
    {ws : List Word} {next : Bool → Option String × String → Parser β}
    {post : β → Cursor → Prop}
    (run₁ : ifNotExists.run E.dialect c = .accepted ifNotExists_ c₂)
    (run₂ : qualifiedName.run E.dialect c₂ = .accepted name c₃)
    (follows : E.Follows n c c'
      (Form.ifNotExists.words ifNotExists_ ++ (Form.qualified.words name ++ ws)))
    (keeps : E.mode.left ≤ c₃.ahead.length) (quiet : E.Quiet [.symbol .dot] c₃ ws)
    (accepts : ∀ c₃', E.Follows n c₃ c₃' ws → Accepts E.dialect (next ifNotExists_ name) c₃' post) :
    Accepts E.dialect (do
      let ifNotExists ← ifNotExists
      let name ← qualifiedName
      next ifNotExists name) c' post := by
  refine ifNotExists_again.plain rfl run₁ follows (Nat.le_trans keeps (accepted_length run₂))
    safe_nil (quiet_qualified name ws) fun c₂' _ follows => ?_
  exact qualifiedName_again.plain rfl run₂ follows keeps safe_nil quiet
    fun c₃' _ follows => accepts c₃' follows

/-! ## Tables -/

/-- The words of what a table is made of. -/
def tableSourceWords (drift : Bool) (table : CreateTable) : List Word :=
  match table.asSelect with
  | some rows => .ofKeyword .AS :: (Form.query drift).words rows
  | none => (Form.tableDefinition drift).words table.toTableDefinition

/-- The words of the creation of a table, after `CREATE` and `TEMP`. -/
def tableWords (drift : Bool) (table : CreateTable) : List Word :=
  .ofKeyword .TABLE :: (Form.ifNotExists.words table.ifNotExists ++
    (Form.qualified.words (table.schema, table.name) ++ tableSourceWords drift table))

/-- The creation of a table is read again.

**Proof sketch.** The run is taken apart by whether `AS` was next after the name. If it was, the
words are those of the query, which is read again. If it was not, they are those of the members and
options, whose parenthesis comes first; so `AS` is not next again. In both cases the name and
`IF NOT EXISTS` are read again first (`head_again`). -/
lemma createTable_again (known : E.Known n) {start start' : Span} {temporary : Bool} :
    E.Reruns n ⟨tableWords E.drift, fun table => [.createTable table], CreateTable.unplaced⟩
      E.EndsStatement (createTable E.rules start temporary)
      (createTable E.again start' temporary) := by
  intro c c' value c₁ rest run follows keeps safe ends
  unfold createTable at run ⊢
  obtain ⟨at_, le₁, run⟩ := accepted_expectKeyword run
  obtain ⟨exists_, c₂, run₂, le₂, run⟩ := accepted_bind run
  obtain ⟨⟨schema, name⟩, c₃, run₃, le₃, run⟩ := accepted_bind run
  dsimp only at run
  rw [run_eatKeyword_bind] at run
  split at run
  · next as =>
    obtain ⟨rows, c₄, run₄, le₄, run⟩ := accepted_bind run
    obtain ⟨rfl, rfl⟩ := accepted_return run
    have follows : E.Follows n c c' (.ofKeyword .TABLE :: (Form.ifNotExists.words exists_ ++
        (Form.qualified.words (schema, name) ++ (.ofKeyword .AS ::
          ((Form.query E.drift).words rows ++ rest))))) := by
      simpa [tableWords, tableSourceWords] using follows
    refine follows.expectKeyword at_ (Nat.le_trans keeps le₁) fun _ follows _ => ?_
    refine head_again run₂ run₃ follows (Nat.le_trans keeps le₃) (.front rfl)
      fun c₃' follows => ?_
    refine follows.eatKeyword as (Nat.le_trans keeps (accepted_length run₄)) fun follows _ => ?_
    refine known.query.step run₄ follows keeps (safe_singleton.mp safe).2
      ⟨ends.quiet rfl, ends.done rfl⟩ fun rows' c₄' _ (same : rows'.unplaced = rows.unplaced)
        follows => ?_
    exact .of_return ⟨follows, by simp [CreateTable.unplaced, same]⟩
  · next notAs =>
    obtain ⟨definition, c₄, run₄, le₄, run⟩ := accepted_bind run
    obtain ⟨rfl, rfl⟩ := accepted_return run
    have follows : E.Follows n c c' (.ofKeyword .TABLE :: (Form.ifNotExists.words exists_ ++
        (Form.qualified.words (schema, name) ++
          ((Form.tableDefinition E.drift).words definition ++ rest)))) := by
      simpa [tableWords, tableSourceWords] using follows
    obtain ⟨ws, words⟩ := tableDefinition_front E.drift definition
    refine follows.expectKeyword at_ (Nat.le_trans keeps le₁) fun _ follows _ => ?_
    refine head_again run₂ run₃ follows (Nat.le_trans keeps le₃) (by rw [words]; exact .front rfl)
      fun c₃' follows => ?_
    have quiet : E.Quiet [.keyword .AS] c₃
        ((Form.tableDefinition E.drift).words definition ++ rest) := by
      rw [words]
      exact .front rfl
    refine skipKeyword (quiet.not_keyword follows rfl notAs) ?_
    have below := (safe_singleton.mp safe).2
    rw [Node.children_createTable_of_asSelect rfl] at below
    refine (tableDefinition_again known).step run₄ follows keeps below (ends.quiet rfl)
      fun definition' c₄' _ (same : definition'.unplaced = definition.unplaced)
        follows => ?_
    exact .of_return ⟨follows, by simp [CreateTable.unplaced, same]⟩

/-! ## Virtual tables -/

/-- The words of the creation of a virtual table, after `CREATE`. -/
def virtualWords (drift : Bool) (table : CreateVirtualTable) : List Word :=
  .ofKeyword .VIRTUAL :: .ofKeyword .TABLE :: (Form.ifNotExists.words table.ifNotExists ++
    (Form.qualified.words (table.schema, table.name) ++ .ofKeyword .USING ::
      .ofName table.module :: (Form.rawArguments drift).words table.arguments))

/-- The creation of a virtual table is read again. -/
lemma createVirtualTable_again (known : E.Known n) {start start' : Span} :
    E.Reruns n ⟨virtualWords E.drift, fun table => [.createVirtualTable table],
        CreateVirtualTable.unplaced⟩
      E.EndsStatement (createVirtualTable E.rules start) (createVirtualTable E.again start') := by
  intro c c' value c₁ rest run follows keeps safe ends
  unfold createVirtualTable at run ⊢
  obtain ⟨_, c₂, run₁, le₁, run⟩ := accepted_bind run
  obtain ⟨exists_, c₃, run₂, le₂, run⟩ := accepted_bind run
  obtain ⟨⟨schema, name⟩, c₄, run₃, le₃, run⟩ := accepted_bind run
  obtain ⟨using_, le₄, run⟩ := accepted_expectKeyword run
  obtain ⟨module, c₅, run₅, le₅, run⟩ := accepted_bind run
  obtain ⟨arguments, c₆, run₆, le₆, run⟩ := accepted_bind run
  obtain ⟨rfl, rfl⟩ := accepted_return run
  have follows : E.Follows n c c' ([Keyword.VIRTUAL, .TABLE].map .ofKeyword ++
      (Form.ifNotExists.words exists_ ++ (Form.qualified.words (schema, name) ++
        (.ofKeyword .USING :: (Form.name.words module ++
          ((Form.rawArguments E.drift).words (arguments.getD []) ++ rest)))))) := by
    simpa [virtualWords, Form.name] using follows
  refine (expectKeywords_again [.VIRTUAL, .TABLE]).plain rfl run₁ follows (Nat.le_trans keeps le₁)
    safe_nil trivial fun c₂' _ follows => ?_
  refine head_again run₂ run₃ follows (Nat.le_trans keeps le₃) (.front rfl) fun c₄' follows => ?_
  refine follows.expectKeyword using_ (Nat.le_trans keeps le₄) fun _ follows _ => ?_
  refine identifier_again.plain rfl run₅ follows (Nat.le_trans keeps le₅) safe_nil trivial
    fun c₅' _ follows => ?_
  refine (optionalArguments_again known.enough run₆ follows keeps (ends.type rfl).arguments).bind ?_
  rintro arguments' c₆' - ⟨follows, same⟩
  exact .of_return ⟨follows, by simp [CreateVirtualTable.unplaced, same]⟩

/-! ## Views -/

/-- The words of the creation of a view, after `CREATE` and `TEMP`. -/
def viewWords (drift : Bool) (view : CreateView) : List Word :=
  .ofKeyword .VIEW :: (Form.ifNotExists.words view.ifNotExists ++
    (Form.qualified.words (view.schema, view.name) ++ (Form.columnNames.words view.columns ++
      ((Form.rowClass drift).maybe.words view.rowClass ++
        .ofKeyword .AS :: (Form.query drift).words view.query))))

/-- A query is written with one of three keywords in front. -/
lemma query_words_front (query : Query) : ∃ word ∈ [Keyword.SELECT, .WITH, .VALUES], ∃ ws,
    (Form.query E.drift).words query = .ofKeyword word :: ws := by
  rw [query_words]
  cases query.commonTables with
  | some clause =>
    obtain ⟨ws, front⟩ := withClause_front (E := E) clause
    refine ⟨.WITH, by simp, ws ++ bodyWords E.drift query, ?_⟩
    change (Form.withClause E.drift).words clause ++ _ = _
    rw [front]
    rfl
  | none =>
    obtain ⟨word, mem, ws, front⟩ := queryCore_front (E := E) query.core
    have front : ∃ ws, bodyWords E.drift query = .ofKeyword word :: ws := by
      rw [bodyWords, front]
      exact ⟨_, rfl⟩
    refine ⟨word, ?_, front⟩
    simp only [List.mem_cons, List.not_mem_nil, or_false] at mem ⊢
    rcases mem with rfl | rfl <;> simp

/-- What is looked at to tell a row class of a view: `WITH`, or `AS` with a name and another `AS`
after it. -/
lemma atViewRowClass_eq (cursor : Cursor) :
    atViewRowClass cursor.view = (cursor.view.atKeyword .WITH || cursor.view.atKeyword .AS &&
      cursor.advance.view.atIdentifier && cursor.advance.advance.view.atKeyword .AS) := by
  have second : cursor.advance.view.current = cursor.view.second := Cursor.peek_advance 0
  have third : cursor.advance.advance.view.current = cursor.view.third :=
    (Cursor.peek_advance 0).trans (Cursor.peek_advance 1)
  unfold atViewRowClass View.atIdentifier
  rw [second, ← third]
  rfl

/-- The Dart class of the rows of a view is read again, or the keyword before its query.

**Proof sketch.** If a row class was read, its first keyword is next again, and after `AS` the name
of the class and the `AS` of the view are next again, so the test holds again and the class is read
again (`rowClass_again`). If none was read, the `AS` of the view and the keyword of its query are
next again. The one is no `WITH`, and the other is no identifier, so the test fails again. -/
lemma viewRowClass_again {value : Option RowClass} {word : Keyword} {ws : List Word}
    (run : (whenever atViewRowClass rowClass).run E.dialect c = .accepted value c₁)
    (as : c₁.view.atKeyword .AS = true) (at_ : c₁.advance.view.atKeyword word = true)
    (mem : word ∈ [Keyword.SELECT, .WITH, .VALUES])
    (follows : E.Follows n c c' ((Form.rowClass E.drift).maybe.words value ++
      .ofKeyword .AS :: .ofKeyword word :: ws))
    (keeps : E.mode.left ≤ c₁.advance.advance.ahead.length) :
    Accepts E.dialect (whenever atViewRowClass rowClass) c' fun value' c₁' =>
      E.Follows n c₁ c₁' (.ofKeyword .AS :: .ofKeyword word :: ws) ∧
        value'.map RowClass.unplaced = value.map RowClass.unplaced := by
  have keeps₂ : E.mode.left ≤ c₁.advance.ahead.length := Nat.le_trans keeps (by simp)
  have keeps₁ : E.mode.left ≤ c₁.ahead.length := Nat.le_trans keeps₂ (by simp)
  unfold whenever at run
  rw [run_sees_bind] at run
  split at run
  · next test =>
    obtain ⟨value, c₂, inner, -, last⟩ := accepted_bind run
    obtain ⟨rfl, rfl⟩ := accepted_pure last
    have follows : E.Follows n c c' ((Form.rowClass E.drift).words value ++ _) := follows
    have takes := Nat.le_trans keeps₁ (rowClass_takes inner)
    obtain ⟨first, listed, here⟩ : ∃ first ∈ [Keyword.AS, .WITH],
      c.view.atKeyword first = true := by
      rw [atViewRowClass_eq, Bool.or_eq_true, Bool.and_eq_true, Bool.and_eq_true] at test
      rcases test with with_ | ⟨⟨as, -⟩, -⟩
      · exact ⟨.WITH, by simp, with_⟩
      · exact ⟨.AS, by simp, as⟩
    obtain ⟨-, words⟩ := rowClass_words listed here inner
    have test' : atViewRowClass c'.view = true := by
      rw [words] at follows
      obtain ⟨here', next, -⟩ := follows.keyword here takes
      rw [atViewRowClass_eq, Bool.or_eq_true, Bool.and_eq_true, Bool.and_eq_true]
      simp only [List.mem_cons, List.not_mem_nil, or_false] at listed
      rcases listed with rfl | rfl
      · obtain ⟨is, stop⟩ := rowClass_names inner
        have next : E.Follows n c.advance c'.advance (.ofName _ :: .ofKeyword .AS :: _) := next
        rw [stop.1] at next
        obtain ⟨is', -, last, -⟩ := next.name is (by rw [stop.2]; exact keeps₁)
        rw [stop.2] at last
        exact .inr ⟨⟨here', is'⟩, (last.keyword as keeps₂).1⟩
      · exact .inl here'
    refine (accepts_whenever_some test' (rowClass_again listed here inner follows keeps₁
      (safe_rowClass (some value)) trivial)).mono ?_
    rintro _ c₁' ⟨value', rfl, next, same⟩
    exact ⟨next, congrArg some same⟩
  · next not =>
    obtain ⟨rfl, rfl⟩ := accepted_pure run
    have follows : E.Follows n c c' (.ofKeyword .AS :: .ofKeyword word :: ws) := follows
    obtain ⟨as', next, -⟩ := follows.keyword as keeps₂
    obtain ⟨at', -, -⟩ := next.keyword at_ keeps
    have not' : ¬ atViewRowClass c'.view = true := by
      rw [atViewRowClass_eq, Bool.or_eq_true, Bool.and_eq_true, Bool.and_eq_true]
      rintro (with_ | ⟨⟨-, named⟩, -⟩)
      · exact not_otherKeyword as' (by decide) with_
      · refine not_atKeyword_of_atIdentifier named ?_ at'
        simp only [List.mem_cons, List.not_mem_nil, or_false] at mem
        rcases mem with rfl | rfl | rfl <;> rfl
    refine (accepts_whenever_none not').mono ?_
    rintro _ c₁' ⟨rfl, rfl⟩
    exact ⟨follows, rfl⟩

/-- The creation of a view is read again.

**Proof sketch.** The query starts with a keyword (`Known.queryFront`), which is what the row class
has to be told from. Then the name, the columns, the row class (`viewRowClass_again`), `AS` and the
query are read again, one after the other; each part is quiet about those after it, because what may
be left out starts with its own keyword or symbol. -/
lemma createView_again (known : E.Known n) {start start' : Span} {temporary : Bool} :
    E.Reruns n ⟨viewWords E.drift, fun view => [.createView view], CreateView.unplaced⟩
      E.EndsStatement (createView E.rules start temporary)
      (createView E.again start' temporary) := by
  intro c c' value c₁ rest run follows keeps safe ends
  unfold createView at run ⊢
  obtain ⟨at_, le₁, run⟩ := accepted_expectKeyword run
  obtain ⟨exists_, c₂, run₂, le₂, run⟩ := accepted_bind run
  obtain ⟨⟨schema, name⟩, c₃, run₃, le₃, run⟩ := accepted_bind run
  obtain ⟨columns, c₄, run₄, le₄, run⟩ := accepted_bind run
  obtain ⟨rows, c₅, run₅, le₅, run⟩ := accepted_bind run
  obtain ⟨as, le₆, run⟩ := accepted_expectKeyword run
  obtain ⟨query, c₇, run₇, le₇, run⟩ := accepted_bind run
  obtain ⟨rfl, rfl⟩ := accepted_return run
  have reached₅ := accepted_reachable run₅ (accepted_reachable run₄ (accepted_reachable run₃
    (accepted_reachable run₂ follows.reached.advance)))
  obtain ⟨takes, word, ws, front, at_word⟩ := known.queryFront run₇ reached₅.advance
  have mem : word ∈ [Keyword.SELECT, .WITH, .VALUES] := by
    obtain ⟨other, mem, _, eq⟩ := query_words_front (E := E) query
    rw [front, List.cons.injEq, Word.ofKeyword, Word.ofKeyword] at eq
    simp only [Word.mk.injEq, TokenKind.keyword.injEq] at eq
    rw [eq.1.1]
    exact mem
  have follows : E.Follows n c c' (.ofKeyword .VIEW :: (Form.ifNotExists.words exists_ ++
      (Form.qualified.words (schema, name) ++ (Form.columnNames.words columns ++
        ((Form.rowClass E.drift).maybe.words rows ++
          .ofKeyword .AS :: .ofKeyword word :: (ws ++ rest)))))) := by
    simpa [viewWords, front] using follows
  have quiet₄ : E.Quiet [.symbol .leftParen, .symbol .dot] c₄
      ((Form.rowClass E.drift).maybe.words rows ++
      .ofKeyword .AS :: .ofKeyword word :: (ws ++ rest)) :=
    optionalRowClass_skips.quiet run₅ rfl (.front rfl)
  refine follows.expectKeyword at_ (Nat.le_trans keeps le₁) fun _ follows _ => ?_
  refine head_again run₂ run₃ follows (Nat.le_trans keeps le₃)
    (optionalColumnNames_skips.quiet run₄ rfl (quiet₄.mono rfl)) fun c₃' follows => ?_
  refine (optionalColumnNames_again known.enough).plain rfl run₄ follows (Nat.le_trans keeps le₄)
    safe_nil (quiet₄.mono rfl) fun c₄' _ follows => ?_
  refine (viewRowClass_again run₅ as at_word mem follows (Nat.le_trans keeps takes)).bind ?_
  rintro rows' c₅' - ⟨follows, same₅⟩
  refine follows.expectKeyword as (Nat.le_trans keeps le₆) fun _ follows _ => ?_
  have below := (safe_singleton.mp safe).2
  rw [Node.children, safe_append] at below
  refine known.query.step run₇ (by rw [front]; exact follows) keeps below.2
    ⟨ends.quiet rfl, ends.done rfl⟩ fun query' c₇' _ (same₇ : query'.unplaced = query.unplaced)
      follows => ?_
  exact .of_return ⟨follows, by simp [CreateView.unplaced, same₅, same₇]⟩

/-! ## Triggers -/

/-- When a trigger runs is read again.

**Proof sketch.** By the keyword that was next, which is next again, so those that are tried before
it are skipped. If none was next, none is next again, because what follows is quiet about all
three. -/
lemma triggerTiming_again :
    E.Reruns n .triggerTiming (E.Quiet [.keyword .BEFORE, .keyword .AFTER, .keyword .INSTEAD])
      triggerTiming triggerTiming := by
  intro c c' value c₁ rest run follows keeps _ quiet
  unfold triggerTiming at run ⊢
  rw [run_eatKeyword_bind] at run
  split at run
  · next before =>
    obtain ⟨rfl, rfl⟩ := accepted_pure run
    have follows : E.Follows n c c' (.ofKeyword .BEFORE :: rest) := follows
    exact follows.eatKeyword before keeps fun follows _ => .of_pure ⟨follows, rfl⟩
  next notBefore =>
  rw [if_neg Bool.false_ne_true, run_eatKeyword_bind] at run
  split at run
  · next after =>
    obtain ⟨rfl, rfl⟩ := accepted_pure run
    have follows : E.Follows n c c' (.ofKeyword .AFTER :: rest) := follows
    refine follows.skips after keeps (by decide) ?_
    exact follows.eatKeyword after keeps fun follows _ => .of_pure ⟨follows, rfl⟩
  next notAfter =>
  rw [if_neg Bool.false_ne_true, run_eatKeyword_bind] at run
  split at run
  · next instead =>
    obtain ⟨of, le, run⟩ := accepted_expectKeyword run
    obtain ⟨rfl, rfl⟩ := accepted_pure run
    have follows : E.Follows n c c' (.ofKeyword .INSTEAD :: .ofKeyword .OF :: rest) := follows
    have keeps₁ : E.mode.left ≤ c.advance.ahead.length := Nat.le_trans keeps (by simp)
    refine follows.skips instead keeps₁ (by decide) ?_
    refine follows.skips instead keeps₁ (by decide) ?_
    refine follows.eatKeyword instead keeps₁ fun follows _ => ?_
    exact follows.expectKeyword of keeps fun _ follows _ => .of_pure ⟨follows, rfl⟩
  next notInstead =>
  obtain ⟨rfl, rfl⟩ := accepted_pure run
  refine skipKeyword (quiet.not_keyword follows rfl notBefore) ?_
  refine skipKeyword (quiet.not_keyword follows rfl notAfter) ?_
  exact skipKeyword (quiet.not_keyword follows rfl notInstead) (.of_pure ⟨follows, rfl⟩)

/-- The change that a trigger answers is read again.

**Proof sketch.** By the keyword that was next, which is next again, so those that are tried before
it are skipped. After `UPDATE` the columns are read again, if `OF` was next. -/
lemma triggerEvent_again (known : E.Known n) :
    E.Reruns n .triggerEvent (E.Quiet [.keyword .OF, .symbol .comma]) (triggerEvent E.rules)
      (triggerEvent E.again) := by
  intro c c' value c₁ rest run follows keeps _ quiet
  unfold triggerEvent at run ⊢
  rw [run_eatKeyword_bind] at run
  split at run
  · next delete =>
    obtain ⟨rfl, rfl⟩ := accepted_pure run
    have follows : E.Follows n c c' (.ofKeyword .DELETE :: rest) := follows
    exact follows.eatKeyword delete keeps fun follows _ => .of_pure ⟨follows, rfl⟩
  rw [if_neg Bool.false_ne_true, run_eatKeyword_bind] at run
  split at run
  · next insert =>
    obtain ⟨rfl, rfl⟩ := accepted_pure run
    have follows : E.Follows n c c' (.ofKeyword .INSERT :: rest) := follows
    refine follows.skips insert keeps (by decide) ?_
    exact follows.eatKeyword insert keeps fun follows _ => .of_pure ⟨follows, rfl⟩
  rw [if_neg Bool.false_ne_true, run_eatKeyword_bind] at run
  split at run
  · next update =>
    obtain ⟨columns, c₂, run₂, le₂, run⟩ := accepted_bind run
    obtain ⟨rfl, rfl⟩ := accepted_pure run
    have words : Form.triggerEvent.words (.update (columns.getD [])) =
        .ofKeyword .UPDATE ::
          (Form.name.commas.after [.ofKeyword .OF]).maybe.words columns := by
      have some := Yields.afterKeyword (commaSeparated_ne_nil _) run₂
      cases columns with
      | none => rfl
      | some columns =>
        have some := some columns rfl
        simp [Form.triggerEvent, TriggerEvent.pieces, some, wordsOf_words, wordsOf_names,
          Form.maybe, Form.after]
    rw [words] at follows
    have keeps₁ := Nat.le_trans keeps (accepted_length run₂)
    refine follows.skips update keeps₁ (by decide) ?_
    refine follows.skips update keeps₁ (by decide) ?_
    refine follows.eatKeyword update keeps₁ fun follows _ => ?_
    have list : E.Reruns n Form.name.commas (E.Quiet [.symbol .comma]) E.rules.identifiers
        E.again.identifiers :=
      identifier_again.commaSeparated known.enough (fun _ _ _ => trivial)
        fun _ _ quiet => ⟨trivial, quiet⟩
    exact (list.afterKeyword fun _ _ quiet => ⟨quiet.mono rfl, quiet.mono rfl⟩).plain
      (Form.maybe_bare (Form.commas_bare rfl)) run₂ follows keeps
      (by
        cases columns with
        | none => exact safe_nil
        | some columns => exact safe_names columns)
      quiet fun c₂' _ follows => .of_pure ⟨follows, rfl⟩
  · exact absurd run not_accepted_unexpected

/-- Whether a trigger states that it runs for each row is read again. -/
lemma forEachRow_again :
    E.Reruns n (.flag [.ofKeyword .FOR, .ofKeyword .EACH, .ofKeyword .ROW])
      (E.Quiet [.keyword .FOR]) forEachRow forEachRow := by
  intro c c' value c₁ rest run follows keeps _ quiet
  unfold forEachRow at run ⊢
  rw [run_eatKeyword_bind] at run
  split at run
  · next at_ =>
    obtain ⟨_, c₂, run₁, le₁, run⟩ := accepted_bind run
    obtain ⟨rfl, rfl⟩ := accepted_pure run
    have follows : E.Follows n c c' (.ofKeyword .FOR ::
      ([Keyword.EACH, .ROW].map .ofKeyword ++ rest)) := follows
    refine follows.eatKeyword at_ (Nat.le_trans keeps (accepted_length run₁)) fun follows _ => ?_
    exact (expectKeywords_again [.EACH, .ROW]).plain rfl run₁ follows keeps safe_nil trivial
      fun c₂' _ follows => .of_pure ⟨follows, rfl⟩
  · next not =>
    obtain ⟨rfl, rfl⟩ := accepted_pure run
    exact skipKeyword (quiet.not_keyword follows rfl not) (.of_pure ⟨follows, rfl⟩)

/-- A statement of a trigger is read again, with the semicolon after it. -/
lemma triggerStatement_again (known : E.Known n) :
    E.Reruns n (.triggerStatement E.drift) (fun _ _ => True) (triggerStatement E.rules)
      (triggerStatement E.again) := by
  intro c c' value c₁ rest run follows keeps safe _
  unfold triggerStatement at run ⊢
  obtain ⟨statement, c₂, run₁, le₁, run⟩ := accepted_bind run
  obtain ⟨semicolon, le₂, run⟩ := accepted_expectSymbol run
  obtain ⟨rfl, rfl⟩ := accepted_pure run
  have follows : E.Follows n c c' ((Form.dataStatement E.drift).words statement ++
      (.ofSymbol .semicolon :: rest)) := by
    simpa [Form.triggerStatement, Form.statement, Form.dataStatement, Statement.pieces]
      using follows
  refine (dataStatement_again known).step run₁ follows (Nat.le_trans keeps le₁) safe
    (.at_symbol semicolon rfl) fun statement' c₂' _ same follows => ?_
  exact follows.expectSymbol semicolon keeps fun _ follows _ =>
    .of_pure ⟨follows, congrArg Statement.data same⟩

/-- No statement of a trigger starts with `END`. -/
lemma triggerStatement_not_end {rules : Rules} {value : Statement}
    (run : (triggerStatement rules).run E.dialect c = .accepted value c₁) :
    ¬ c.view.atKeyword .END = true := by
  intro at_
  unfold triggerStatement at run
  obtain ⟨statement, c₂, run, -, -⟩ := accepted_bind run
  unfold dataStatement at run
  rw [run_here_bind, run_sees_bind, if_neg (not_otherKeyword at_ (by decide))] at run
  rcases accepted_dataStatementAfter run with ⟨_, _, any, -⟩ | ⟨_, _, any, -⟩ | ⟨_, _, other, -⟩ |
    ⟨_, _, other, -⟩
  · exact not_any at_ rfl any
  · exact not_any at_ rfl any
  · exact not_otherKeyword at_ (by decide) other
  · exact not_otherKeyword at_ (by decide) other

/-- A statement of a trigger takes at least one token. -/
lemma triggerStatement_takes {rules : Rules} {value : Statement}
    (run : (triggerStatement rules).run E.dialect c = .accepted value c₁)
    (reached : c.Reachable E.drift) : c₁.ahead.length < c.ahead.length := by
  unfold triggerStatement at run
  obtain ⟨statement, c₂, run₁, -, run⟩ := accepted_bind run
  obtain ⟨semicolon, -, run⟩ := accepted_expectSymbol run
  obtain ⟨rfl, rfl⟩ := accepted_pure run
  have some := List.length_pos_iff.mpr
    (ahead_of_atSymbol (accepted_reachable run₁ reached) semicolon)
  have := accepted_length run₁
  simp only [Cursor.advance_ahead, List.length_tail]
  omega

/-- A further statement of a trigger, or `END`. -/
def nextTriggerStatement (rules : Rules) : Parser (Option Statement) := do
  if ← eatKeyword .END then
    return none
  else
    return some (← triggerStatement rules)

/-- A further statement of a trigger was read where `END` was not next, or else `END` was taken. -/
lemma accepted_nextTriggerStatement {rules : Rules} {next : Option Statement}
    (run : (nextTriggerStatement rules).run E.dialect c = .accepted next c₁) :
    (next = none ∧ c.view.atKeyword .END = true ∧ c₁ = c.advance) ∨
      ∃ statement, next = some statement ∧ ¬ c.view.atKeyword .END = true ∧
        (triggerStatement rules).run E.dialect c = .accepted statement c₁ := by
  unfold nextTriggerStatement at run
  rw [run_eatKeyword_bind] at run
  split at run
  · next at_ =>
    obtain ⟨rfl, rfl⟩ := accepted_pure run
    exact .inl ⟨rfl, at_, rfl⟩
  · next not =>
    obtain ⟨statement, c₂, inner, -, run⟩ := accepted_bind run
    obtain ⟨rfl, rfl⟩ := accepted_pure run
    exact .inr ⟨statement, rfl, not, inner⟩

/-- The statements of a trigger are read again up to `END`.

**Proof sketch.** By induction on the statements that were read, for any number of turns that are
left. If there are none, `END` was next, and is next again. Otherwise the first one is read again
(`triggerStatement_again`), where `END` is not next (`triggerStatement_not_end`). It takes a token
(`triggerStatement_takes`), so the turns that are left suffice for the others. -/
lemma triggerStatements_again (known : E.Known n) {fuel fuel' : Nat} {others : List Statement}
    (run : (many fuel (nextTriggerStatement E.rules)).run E.dialect c = .accepted others c₁)
    (follows : E.Follows n c c'
      ((Form.triggerStatement E.drift).flat.words others ++ .ofKeyword .END :: rest))
    (keeps : E.mode.left ≤ c₁.ahead.length)
    (safe : E.Safe ((Form.triggerStatement E.drift).flat.nodes others))
    (enough : c'.ahead.length < fuel') :
    Accepts E.dialect (many fuel' (nextTriggerStatement E.again)) c' fun others' c₁' =>
      E.Follows n c₁ c₁' rest ∧
        others'.map Statement.unplaced = others.map Statement.unplaced := by
  induction others generalizing c c' fuel fuel' with
  | nil =>
    obtain ⟨fuel', rfl⟩ : ∃ less, fuel' = less + 1 := ⟨fuel' - 1, by omega⟩
    obtain ⟨less, -, ⟨-, stop⟩ | ⟨_, _, _, eq, -⟩⟩ := accepted_many run
    · obtain ⟨-, end_, rfl⟩ | ⟨_, eq, -⟩ := accepted_nextTriggerStatement stop
      · have follows : E.Follows n c c' (.ofKeyword .END :: rest) := follows
        obtain ⟨end', next, -⟩ := follows.keyword end_ keeps
        have stop' : (nextTriggerStatement E.again).run E.dialect c' =
            .accepted none c'.advance := by
          unfold nextTriggerStatement
          rw [run_eatKeyword_bind, if_pos end']
          rfl
        exact ⟨_, _, run_many_of_none fuel' stop', next, rfl⟩
      · exact absurd eq (by simp)
    · exact absurd eq (by simp)
  | cons first others ih =>
    obtain ⟨fuel', rfl⟩ : ∃ less, fuel' = less + 1 := ⟨fuel' - 1, by omega⟩
    obtain ⟨less, -, ⟨eq, -⟩ | ⟨_, _, c₂, eq, one, later⟩⟩ := accepted_many run
    · exact absurd eq (by simp)
    obtain ⟨rfl, rfl⟩ := List.cons.inj eq
    obtain ⟨eq, -⟩ | ⟨_, eq, -, inner⟩ := accepted_nextTriggerStatement one
    · exact absurd eq (by simp)
    obtain rfl := Option.some.inj eq
    have safe : E.Safe ((Form.triggerStatement E.drift).nodes first) ∧
        E.Safe ((Form.triggerStatement E.drift).flat.nodes others) := safe_append.mp safe
    have follows : E.Follows n c c' ((Form.triggerStatement E.drift).words first ++
        ((Form.triggerStatement E.drift).flat.words others ++ .ofKeyword .END :: rest)) := by
      simpa [Form.flat] using follows
    obtain ⟨first', c₂', inner', next, same⟩ := triggerStatement_again known inner follows
      (Nat.le_trans keeps (accepted_length later)) safe.1 trivial
    have same : first'.unplaced = first.unplaced := same
    have shorter := triggerStatement_takes inner' follows.reached'
    have enough : c₂'.ahead.length < fuel' := by omega
    obtain ⟨others', c₃', run', last, same'⟩ := ih later next safe.2 enough
    have step' : (nextTriggerStatement E.again).run E.dialect c' = .accepted (some first') c₂' := by
      unfold nextTriggerStatement
      rw [run_eatKeyword_bind, if_neg (triggerStatement_not_end inner'),
        if_neg Bool.false_ne_true, run_bind, inner']
      rfl
    refine ⟨first' :: others', c₃', ?_, last, by simp [same, same']⟩
    rw [run_many_of_some fuel' step', run']
    rfl

/-- The statements of a trigger are read again, with the keywords around them. -/
lemma triggerBody_again (known : E.Known n) :
    E.Reruns n (Form.triggerBody E.drift) (fun _ _ => True) (triggerBody E.rules)
      (triggerBody E.again) := by
  intro c c' value c₁ rest run follows keeps safe _
  unfold triggerBody at run ⊢
  obtain ⟨begin_, le₁, run⟩ := accepted_expectKeyword run
  obtain ⟨first, c₂, run₂, le₂, run⟩ := accepted_bind run
  obtain ⟨others, c₃, run₃, le₃, run⟩ := accepted_bind run
  obtain ⟨rfl, rfl⟩ := accepted_pure run
  have follows : E.Follows n c c' (.ofKeyword .BEGIN ::
      ((Form.triggerStatement E.drift).words first ++
        ((Form.triggerStatement E.drift).flat.words others ++ (.ofKeyword .END :: rest)))) := by
    simpa [Form.triggerBody, Form.flat] using follows
  have safe : E.Safe ((Form.triggerStatement E.drift).nodes first) ∧
      E.Safe ((Form.triggerStatement E.drift).flat.nodes others) := safe_append.mp safe
  refine follows.expectKeyword begin_ (Nat.le_trans keeps le₁) fun _ follows _ => ?_
  refine (triggerStatement_again known).step run₂ follows (Nat.le_trans keeps le₂) safe.1 trivial
    fun first' c₂' _ same₂ follows => ?_
  have same₂ : first'.unplaced = first.unplaced := same₂
  refine (triggerStatements_again known run₃ follows keeps safe.2
    (Nat.lt_of_lt_of_le follows.short known.enough)).bind ?_
  rintro others' c₃' - ⟨follows, same₃⟩
  exact .of_pure ⟨follows, congrArg₂ List.cons same₂ same₃⟩

/-- The words of the creation of a trigger, after `CREATE` and `TEMP`. -/
def triggerWords (drift : Bool) (trigger : CreateTrigger) : List Word :=
  .ofKeyword .TRIGGER :: (Form.ifNotExists.words trigger.ifNotExists ++
    (Form.qualified.words (trigger.schema, trigger.name) ++
      (Form.triggerTiming.words trigger.timing ++ (Form.triggerEvent.words trigger.event ++
        .ofKeyword .ON :: .ofName trigger.table ::
          ((Form.flag [.ofKeyword .FOR, .ofKeyword .EACH, .ofKeyword .ROW]).words
              trigger.forEachRow ++
            (((Form.expr drift).after [.ofKeyword .WHEN]).maybe.words trigger.condition ++
              (Form.triggerBody drift).words trigger.body))))))

/-- The change that a trigger answers is written with one of three keywords in front. -/
lemma triggerEvent_quiet {starters : List Starter} (event : TriggerEvent) (rest : List Word)
    (inert : [Keyword.DELETE, .INSERT, .UPDATE].all (fun word =>
      starters.all fun starter => !starter.first (.keyword word)) = true) :
    E.Quiet starters c (Form.triggerEvent.words event ++ rest) := by
  obtain ⟨word, mem, ws, words⟩ : ∃ word ∈ [Keyword.DELETE, .INSERT, .UPDATE], ∃ ws,
      Form.triggerEvent.words event = .ofKeyword word :: ws := by
    cases event with
    | delete => exact ⟨.DELETE, by simp, _, rfl⟩
    | insert => exact ⟨.INSERT, by simp, _, rfl⟩
    | update columns =>
      refine ⟨.UPDATE, by simp, ?_⟩
      by_cases none : columns.isEmpty
      · simp [Form.triggerEvent, TriggerEvent.pieces, none, wordsOf_words]
      · simp [Form.triggerEvent, TriggerEvent.pieces, none, wordsOf_words]
  rw [words]
  exact .front (List.all_eq_true.mp inert word mem)

/-- What comes after the name of a trigger does not go on with the name. -/
lemma triggerTiming_quiet (timing : Option TriggerTiming) (event : TriggerEvent)
    (rest : List Word) :
    E.Quiet [.symbol .dot] c
      (Form.triggerTiming.words timing ++ (Form.triggerEvent.words event ++ rest)) := by
  cases timing with
  | some timing => cases timing <;> exact .front rfl
  | none => exact triggerEvent_quiet event rest rfl

/-- The creation of a trigger is read again.

**Proof sketch.** The run and the words are taken apart into the parts: the name, the timing, the
event, the table, `FOR EACH ROW`, the condition and the body. Each part is read again after the one
before it, and what may be left out is quiet about what follows, as each part starts with its own
keyword. -/
lemma createTrigger_again (known : E.Known n) {start start' : Span} {temporary : Bool} :
    E.Reruns n ⟨triggerWords E.drift, fun trigger => [.createTrigger trigger],
        CreateTrigger.unplaced⟩
      (fun _ _ => True) (createTrigger E.rules start temporary)
      (createTrigger E.again start' temporary) := by
  intro c c' value c₁ rest run follows keeps safe _
  unfold createTrigger at run ⊢
  obtain ⟨at_, le₁, run⟩ := accepted_expectKeyword run
  obtain ⟨exists_, c₂, run₂, le₂, run⟩ := accepted_bind run
  obtain ⟨⟨schema, name⟩, c₃, run₃, le₃, run⟩ := accepted_bind run
  obtain ⟨timing, c₄, run₄, le₄, run⟩ := accepted_bind run
  obtain ⟨event, c₅, run₅, le₅, run⟩ := accepted_bind run
  obtain ⟨on, le₆, run⟩ := accepted_expectKeyword run
  obtain ⟨table, c₇, run₇, le₇, run⟩ := accepted_bind run
  obtain ⟨each, c₈, run₈, le₈, run⟩ := accepted_bind run
  obtain ⟨condition, c₉, run₉, le₉, run⟩ := accepted_bind run
  obtain ⟨body, c₁₀, run₁₀, le₁₀, run⟩ := accepted_bind run
  obtain ⟨rfl, rfl⟩ := accepted_return run
  have follows : E.Follows n c c' (.ofKeyword .TRIGGER :: (Form.ifNotExists.words exists_ ++
      (Form.qualified.words (schema, name) ++ (Form.triggerTiming.words timing ++
        (Form.triggerEvent.words event ++ (.ofKeyword .ON :: (Form.name.words table ++
          ((Form.flag [.ofKeyword .FOR, .ofKeyword .EACH, .ofKeyword .ROW]).words each ++
            (((Form.expr E.drift).after [.ofKeyword .WHEN]).maybe.words condition ++
              ((Form.triggerBody E.drift).words body ++ rest)))))))))) := by
    simpa [triggerWords, Form.name] using follows
  have below := (safe_singleton.mp safe).2
  rw [Node.children, safe_append] at below
  refine follows.expectKeyword at_ (Nat.le_trans keeps le₁) fun _ follows _ => ?_
  refine head_again run₂ run₃ follows (Nat.le_trans keeps le₃) (triggerTiming_quiet _ _ _)
    fun c₃' follows => ?_
  refine triggerTiming_again.plain (Form.maybe_bare rfl) run₄ follows (Nat.le_trans keeps le₄)
    (safe_maybe_choice timing) (triggerEvent_quiet _ _ rfl) fun c₄' _ follows => ?_
  refine (triggerEvent_again known).plain rfl run₅ follows (Nat.le_trans keeps le₅) safe_nil
    (.front rfl) fun c₅' _ follows => ?_
  refine follows.expectKeyword on (Nat.le_trans keeps le₆) fun _ follows _ => ?_
  refine identifier_again.plain rfl run₇ follows (Nat.le_trans keeps le₇) safe_nil trivial
    fun c₇' _ follows => ?_
  refine forEachRow_again.plain rfl run₈ follows (Nat.le_trans keeps le₈) safe_nil
    (by cases condition <;> exact .front rfl) fun c₈' _ follows => ?_
  refine (known.expr.afterKeyword
    fun _ _ (quiet : E.Quiet (.keyword .WHEN :: exprEnd) _ _) =>
      ⟨quiet.mono rfl, quiet.mono rfl⟩).step run₉ follows (Nat.le_trans keeps le₉)
      (by cases condition <;> exact below.1) (.front rfl)
      fun condition' c₉' _ (same₉ : condition'.map Expr.unplaced = condition.map Expr.unplaced)
        follows => ?_
  refine (triggerBody_again known).step run₁₀ follows keeps
    (by rw [each_eq] at below; exact below.2) trivial
      fun body' c₁₀' _ (same₁₀ : body'.map Statement.unplaced =
        body.map Statement.unplaced) follows => ?_
  exact .of_return ⟨follows, by simp [CreateTrigger.unplaced, same₉, same₁₀]⟩

/-! ## Indexes -/

/-- The words of the creation of an index, after `CREATE`. -/
def indexWords (drift : Bool) (index : CreateIndex) : List Word :=
  (Form.flag [.ofKeyword .UNIQUE]).words index.unique ++ .ofKeyword .INDEX ::
    (Form.ifNotExists.words index.ifNotExists ++
      (Form.qualified.words (index.schema, index.name) ++ .ofKeyword .ON :: .ofName index.table ::
        ((Form.indexedColumn drift).commas.parens.words index.columns ++
          ((Form.expr drift).after [.ofKeyword .WHERE]).maybe.words index.filter)))

/-- The creation of an index is read again.

**Proof sketch.** The run and the words are taken apart into the parts: `UNIQUE`, the name, the
table, the columns and the condition. Each part is read again after the one before it, and `WHERE`
is not next where it was not, because the end of a statement is quiet about it. -/
lemma createIndex_again (known : E.Known n) {start start' : Span} :
    E.Reruns n ⟨indexWords E.drift, fun index => [.createIndex index], CreateIndex.unplaced⟩
      E.EndsStatement (createIndex E.rules start) (createIndex E.again start') := by
  intro c c' value c₁ rest run follows keeps safe ends
  unfold createIndex at run ⊢
  obtain ⟨unique, c₂, run₂, le₂, run⟩ := accepted_bind run
  obtain ⟨at_, le₁, run⟩ := accepted_expectKeyword run
  obtain ⟨exists_, c₃, run₃, le₃, run⟩ := accepted_bind run
  obtain ⟨⟨schema, name⟩, c₄, run₄, le₄, run⟩ := accepted_bind run
  obtain ⟨on, le₅, run⟩ := accepted_expectKeyword run
  obtain ⟨table, c₆, run₆, le₆, run⟩ := accepted_bind run
  obtain ⟨columns, c₇, run₇, le₇, run⟩ := accepted_bind run
  obtain ⟨filter, c₈, run₈, le₈, run⟩ := accepted_bind run
  obtain ⟨rfl, rfl⟩ := accepted_return run
  have follows : E.Follows n c c' ((Form.flag [.ofKeyword .UNIQUE]).words unique ++
      (.ofKeyword .INDEX :: (Form.ifNotExists.words exists_ ++
        (Form.qualified.words (schema, name) ++ (.ofKeyword .ON :: (Form.name.words table ++
          ((Form.indexedColumn E.drift).commas.parens.words columns ++
            (((Form.expr E.drift).after [.ofKeyword .WHERE]).maybe.words filter ++
              rest)))))))) := by
    simpa [indexWords, Form.name] using follows
  have below := (safe_singleton.mp safe).2
  rw [Node.children, safe_append, each_eq] at below
  refine (eatKeyword_again .UNIQUE).plain rfl run₂ follows (Nat.le_trans keeps le₂) safe_nil
    (.front rfl) fun c₂' _ follows => ?_
  refine follows.expectKeyword at_ (Nat.le_trans keeps le₁) fun _ follows _ => ?_
  refine head_again run₃ run₄ follows (Nat.le_trans keeps le₄) (.front rfl) fun c₄' follows => ?_
  refine follows.expectKeyword on (Nat.le_trans keeps le₅) fun _ follows _ => ?_
  refine identifier_again.plain rfl run₆ follows (Nat.le_trans keeps le₆) safe_nil trivial
    fun c₆' _ follows => ?_
  refine (indexedColumns_again known).step run₇ follows (Nat.le_trans keeps le₇) below.1 trivial
    fun columns' c₇' _ (same₇ : columns'.map IndexedColumn.unplaced =
      columns.map IndexedColumn.unplaced) follows => ?_
  refine (filter_again known).step run₈ follows keeps (by cases filter <;> exact below.2)
    (ends.quiet rfl) fun filter' c₈' _
      (same₈ : filter'.map Expr.unplaced = filter.map Expr.unplaced) follows => ?_
  exact .of_return ⟨follows, by simp [CreateIndex.unplaced, same₇, same₈]⟩

/-! ## Statements -/

/-- The statement creates a temporary thing. -/
def temporaryOf : Statement → Bool
  | .createTable table => table.temporary
  | .createView view => view.temporary
  | .createTrigger trigger => trigger.temporary
  | .data _ | .createVirtualTable _ | .createIndex _ => false

/-- The words of what is created, after `CREATE` and `TEMP`. -/
def createdWords (drift : Bool) : Statement → List Word
  | .data _ => []
  | .createTable table => tableWords drift table
  | .createVirtualTable table => virtualWords drift table
  | .createView view => viewWords drift view
  | .createTrigger trigger => triggerWords drift trigger
  | .createIndex index => indexWords drift index

/-- The words of a statement that creates something. -/
def creationWords (drift : Bool) (statement : Statement) : List Word :=
  .ofKeyword .CREATE :: ((Form.flag [.ofKeyword .TEMP]).words (temporaryOf statement) ++
    createdWords drift statement)

/-- The words of a table are those that its creation is read from. -/
lemma createTable_words (drift : Bool) (table : CreateTable) :
    Render.wordsOf drift table.pieces = creationWords drift (.createTable table) := by
  unfold CreateTable.pieces
  simp only [Render.wordsOf_append, wordsOf_creation, wordsOf_qualified, List.cons_append,
    List.append_assoc]
  cases source : table.asSelect <;>
    simp [creationWords, createdWords, temporaryOf, tableWords, tableSourceWords, source,
      Form.query, Form.tableDefinition]

/-- The words of a virtual table are those that its creation is read from. -/
lemma createVirtualTable_words (drift : Bool) (table : CreateVirtualTable) :
    Render.wordsOf drift table.pieces = creationWords drift (.createVirtualTable table) := by
  have arguments := Form.wordsOf_commas drift (.verbatim drift)
    (fun argument => [.verbatim argument]) (fun _ => by simp [Form.verbatim]) table.arguments
  have listed : Render.wordsOf drift (if table.arguments.isEmpty then []
      else Render.parens (Render.commas (table.arguments.map fun argument =>
        [.verbatim argument]))) = (Form.rawArguments drift).words table.arguments := by
    unfold Form.rawArguments
    dsimp only
    split
    · rfl
    · rw [wordsOf_parens, arguments]
      rfl
  unfold CreateVirtualTable.pieces
  simp only [Render.wordsOf_append, Render.wordsOf_blank, Render.wordsOf_keyword,
    Render.wordsOf_name, wordsOf_creation, wordsOf_qualified, listed]
  simp [creationWords, createdWords, temporaryOf, virtualWords, Form.flag]

/-- The words of a view are those that its creation is read from. -/
lemma createView_words (drift : Bool) (view : CreateView) :
    Render.wordsOf drift view.pieces = creationWords drift (.createView view) := by
  have rows : Render.wordsOf drift (Render.optional view.rowClass fun rowClass =>
      .blank :: rowClass.pieces) = (Form.rowClass drift).maybe.words view.rowClass := by
    cases view.rowClass <;> rfl
  unfold CreateView.pieces
  simp only [Render.wordsOf_append, wordsOf_creation, wordsOf_qualified, wordsOf_blankColumns,
    rows]
  simp [creationWords, createdWords, temporaryOf, viewWords, Form.query]

/-- The words of a trigger are those that its creation is read from.

**Proof sketch.** Part by part: the timing, the event, `FOR EACH ROW`, the condition and the body
have the words of their forms, by the cases of what may be left out. -/
lemma createTrigger_words (drift : Bool) (trigger : CreateTrigger) :
    Render.wordsOf drift trigger.pieces = creationWords drift (.createTrigger trigger) := by
  obtain ⟨temporary, ifNotExists, schema, name, timing, event, table, forEachRow, condition, body,
    span⟩ := trigger
  have timing : Render.wordsOf drift (Render.suffix (timing.map TriggerTiming.keywords)) =
      Form.triggerTiming.words timing := by
    cases timing with
    | none => rfl
    | some timing => cases timing <;> rfl
  have event : Render.wordsOf drift event.pieces =
      Form.triggerEvent.words event := by
    cases event with
    | delete | insert => rfl
    | update columns =>
      simp only [Form.triggerEvent, Form.ofPieces_words, TriggerEvent.pieces]
      split <;> simp [wordsOf_words, wordsOf_names]
  have each : Render.wordsOf drift (Render.suffix
      (if forEachRow then some [.FOR, .EACH, .ROW] else none)) =
      (Form.flag [.ofKeyword .FOR, .ofKeyword .EACH, .ofKeyword .ROW]).words
        forEachRow := by
    cases forEachRow <;> rfl
  have condition : Render.wordsOf drift (Render.optional condition fun condition =>
      .blank :: .keyword .WHEN :: .blank :: condition.pieces) =
        ((Form.expr drift).after [.ofKeyword .WHEN]).maybe.words condition := by
    cases condition <;> rfl
  have body : Render.wordsOf drift (Statement.bodyPieces body) =
      (Form.triggerStatement drift).flat.words body := by
    rw [Statement.bodyPieces_eq_flatMap]
    simpa using Form.wordsOf_flatMap drift (.triggerStatement drift)
      (fun statement => statement.pieces ++ [.symbol .semicolon])
      (fun _ => by simp [Form.triggerStatement, Form.statement]) body
  unfold CreateTrigger.pieces
  simp only [Render.wordsOf_append, wordsOf_creation, wordsOf_qualified, timing, event, each,
    condition, body, Render.wordsOf_blank, Render.wordsOf_keyword]
  simp [creationWords, createdWords, temporaryOf, triggerWords, Form.triggerBody]

/-- The words of an index are those that its creation is read from. -/
lemma createIndex_words (drift : Bool) (index : CreateIndex) :
    Render.wordsOf drift index.pieces = creationWords drift (.createIndex index) := by
  unfold CreateIndex.pieces
  simp only [Render.wordsOf_append, wordsOf_creation, wordsOf_qualified, wordsOf_indexedColumns,
    wordsOf_whereClause]
  cases unique : index.unique <;>
    simp [creationWords, createdWords, temporaryOf, indexWords, Form.parens, Form.flag, unique]

/-- The words of a statement are those of a statement about rows, or of a creation. -/
lemma statement_words (statement : Statement) :
    (Form.statement E.drift).words statement =
      match statement with
      | .data statement => (Form.dataStatement E.drift).words statement
      | statement => creationWords E.drift statement := by
  cases statement with
  | data statement => rfl
  | createTable table => exact createTable_words E.drift table
  | createVirtualTable table => exact createVirtualTable_words E.drift table
  | createView view => exact createView_words E.drift view
  | createTrigger trigger => exact createTrigger_words E.drift trigger
  | createIndex index => exact createIndex_words E.drift index

/-- Where a keyword is found, it is next. -/
lemma atKeyword_of_keyword? {word : Keyword} (found : c.current.keyword? = some word) :
    c.view.atKeyword word = true := by
  change (c.current.keyword? == some word) = true
  rw [found]
  exact beq_self_eq_true _

/-- What is created is what the next keyword says.

**Proof sketch.** By the cases of the next keyword, in the order of `created`. A virtual table or an
index that is temporary is rejected. -/
lemma accepted_created {rules : Rules} {start place : Span} {temporary : Bool} {value : Statement}
    (run : (created rules start place temporary).run E.dialect c = .accepted value c₁) :
    (∃ table, value = .createTable table ∧ c.view.atKeyword .TABLE = true ∧
      (createTable rules start temporary).run E.dialect c = .accepted table c₁) ∨
    (∃ view, value = .createView view ∧ c.view.atKeyword .VIEW = true ∧
      (createView rules start temporary).run E.dialect c = .accepted view c₁) ∨
    (∃ trigger, value = .createTrigger trigger ∧ c.view.atKeyword .TRIGGER = true ∧
      (createTrigger rules start temporary).run E.dialect c = .accepted trigger c₁) ∨
    (∃ table, value = .createVirtualTable table ∧ temporary = false ∧
      c.view.atKeyword .VIRTUAL = true ∧
      (createVirtualTable rules start).run E.dialect c = .accepted table c₁) ∨
    ∃ index, ∃ word ∈ [Keyword.UNIQUE, .INDEX], value = .createIndex index ∧ temporary = false ∧
      c.view.atKeyword word = true ∧
      (createIndex rules start).run E.dialect c = .accepted index c₁ := by
  unfold created at run
  rw [run_current_bind] at run
  split at run
  · next found =>
    obtain ⟨table, c₂, inner, -, run⟩ := accepted_bind run
    obtain ⟨rfl, rfl⟩ := accepted_pure run
    exact .inl ⟨table, rfl, atKeyword_of_keyword? found, inner⟩
  · next found =>
    obtain ⟨view, c₂, inner, -, run⟩ := accepted_bind run
    obtain ⟨rfl, rfl⟩ := accepted_pure run
    exact .inr (.inl ⟨view, rfl, atKeyword_of_keyword? found, inner⟩)
  · next found =>
    obtain ⟨trigger, c₂, inner, -, run⟩ := accepted_bind run
    obtain ⟨rfl, rfl⟩ := accepted_pure run
    exact .inr (.inr (.inl ⟨trigger, rfl, atKeyword_of_keyword? found, inner⟩))
  · next found =>
    split at run
    · exact absurd run not_accepted_invalid
    · next permanent =>
      obtain ⟨table, c₂, inner, -, run⟩ := accepted_bind run
      obtain ⟨rfl, rfl⟩ := accepted_pure run
      exact .inr (.inr (.inr (.inl ⟨table, rfl, by simpa using permanent,
        atKeyword_of_keyword? found, inner⟩)))
  iterate 2
    · next found =>
      split at run
      · exact absurd run not_accepted_invalid
      · next permanent =>
        obtain ⟨index, c₂, inner, -, run⟩ := accepted_bind run
        obtain ⟨rfl, rfl⟩ := accepted_pure run
        refine .inr (.inr (.inr (.inr ⟨index, _, ?_, rfl, by simpa using permanent,
          atKeyword_of_keyword? found, inner⟩)))
        simp
  · exact absurd run not_accepted_unexpected

/-- An index after its `UNIQUE`. -/
def indexAfterUnique (rules : Rules) (start : Span) (unique : Bool) : Parser CreateIndex := do
  let _ ← expectKeyword .INDEX
  let ifNotExists ← ifNotExists
  let (schema, name) ← qualifiedName
  let _ ← expectKeyword .ON
  let table ← identifier
  let columns ← parenthesized (indexedColumns rules)
  let filter ← afterKeyword .WHERE rules.expr
  return ⟨unique, ifNotExists, schema, name, table, columns, filter, ← spanFrom start⟩

/-- An index is read by `UNIQUE` and what follows it. -/
lemma createIndex_eq (rules : Rules) (start : Span) :
    createIndex rules start = (do
      let unique ← eatKeyword .UNIQUE
      indexAfterUnique rules start unique) := rfl

/-- After `UNIQUE`, an index was read from `INDEX` on, and it is unique exactly if that keyword was
there. -/
lemma accepted_indexAfterUnique {rules : Rules} {start : Span} {unique : Bool}
    {index : CreateIndex}
    (run : (indexAfterUnique rules start unique).run E.dialect c = .accepted index c₁) :
    index.unique = unique ∧ c.view.atKeyword .INDEX = true ∧
      c₁.ahead.length ≤ c.advance.ahead.length := by
  unfold indexAfterUnique at run
  obtain ⟨here, le, run⟩ := accepted_expectKeyword run
  obtain ⟨_, _, -, -, run⟩ := accepted_bind run
  obtain ⟨_, _, -, -, run⟩ := accepted_bind run
  obtain ⟨-, -, run⟩ := accepted_expectKeyword run
  obtain ⟨_, _, -, -, run⟩ := accepted_bind run
  obtain ⟨_, _, -, -, run⟩ := accepted_bind run
  obtain ⟨_, _, -, -, run⟩ := accepted_bind run
  obtain ⟨rfl, rfl⟩ := accepted_return run
  exact ⟨rfl, here, le⟩

/-- An index is written with the keyword in front that it was read with. -/
lemma createIndex_front {rules : Rules} {start : Span} {index : CreateIndex} {word : Keyword}
    (at_ : c.view.atKeyword word = true) (mem : word ∈ [Keyword.UNIQUE, .INDEX])
    (run : (createIndex rules start).run E.dialect c = .accepted index c₁) :
    c₁.ahead.length ≤ c.advance.ahead.length ∧
      ∃ ws, indexWords E.drift index = .ofKeyword word :: ws := by
  rw [createIndex_eq, run_eatKeyword_bind] at run
  unfold indexWords
  split at run
  · next unique =>
    obtain ⟨eq, -, le⟩ := accepted_indexAfterUnique run
    obtain rfl : word = .UNIQUE := by
      by_contra differ
      exact not_otherKeyword at_ differ unique
    rw [eq]
    exact ⟨Nat.le_trans le (by simp), _, rfl⟩
  · next not =>
    obtain ⟨eq, here, le⟩ := accepted_indexAfterUnique run
    obtain rfl : word = .INDEX := by
      by_contra differ
      exact not_otherKeyword at_ differ here
    rw [eq]
    exact ⟨le, _, rfl⟩

/-- Where a keyword is next, it is found. -/
lemma current_keyword? {word : Keyword} (at_ : c.view.atKeyword word = true) :
    c.current.keyword? = some word :=
  keyword?_of_atKeyword at_

/-- A table is temporary if that was stated. -/
lemma createTable_temporary {rules : Rules} {start : Span} {temporary : Bool} :
    (createTable rules start temporary).Yields (·.temporary = temporary) := by
  unfold createTable
  refine .bind fun _ => .bind fun ifNotExists => .bind fun (schema, name) => .bind fun as => ?_
  split
  · refine .bind fun rows => ?_
    exact .bind fun span => .of_pure rfl
  · refine .bind fun definition => ?_
    exact .bind fun span => .of_pure rfl

/-- A view is temporary if that was stated. -/
lemma createView_temporary {rules : Rules} {start : Span} {temporary : Bool} :
    (createView rules start temporary).Yields (·.temporary = temporary) := by
  unfold createView
  refine .bind fun _ => .bind fun ifNotExists => .bind fun (schema, name) => ?_
  refine .bind fun columns => .bind fun rowClass => .bind fun _ => .bind fun query => ?_
  exact .bind fun span => .of_pure rfl

/-- A trigger is temporary if that was stated. -/
lemma createTrigger_temporary {rules : Rules} {start : Span} {temporary : Bool} :
    (createTrigger rules start temporary).Yields (·.temporary = temporary) := by
  unfold createTrigger
  refine .bind fun _ => .bind fun ifNotExists => .bind fun (schema, name) => ?_
  refine .bind fun timing => .bind fun event => .bind fun _ => .bind fun table => ?_
  refine .bind fun forEachRow => .bind fun condition => .bind fun body => ?_
  exact .bind fun span => .of_pure rfl

/-- What is created is temporary if that was stated. -/
lemma created_temporary {rules : Rules} {start place : Span} {temporary : Bool} :
    (created rules start place temporary).Yields (temporaryOf · = temporary) := by
  intro dialect c value c₁ run
  rcases accepted_created (E := ⟨dialect, .written, rules, rules⟩) run with
    ⟨_, rfl, -, inner⟩ | ⟨_, rfl, -, inner⟩ | ⟨_, rfl, -, inner⟩ | ⟨_, rfl, rfl, -, -⟩ |
    ⟨_, _, -, rfl, rfl, -, -⟩
  · exact createTable_temporary inner
  · exact createView_temporary inner
  · exact createTrigger_temporary inner
  · rfl
  · rfl

/-- What is created is written with a keyword in front that says what it is. -/
lemma createdWords_quiet {rules : Rules} {start place : Span} {temporary : Bool}
    {value : Statement}
    (run : (created rules start place temporary).run E.dialect c = .accepted value c₁)
    (rest : List Word) :
    E.Quiet [.keyword .TEMP, .keyword .TEMPORARY] c (createdWords E.drift value ++ rest) := by
  rcases accepted_created run with ⟨_, rfl, -, -⟩ | ⟨_, rfl, -, -⟩ | ⟨_, rfl, -, -⟩ |
    ⟨_, rfl, -, -, -⟩ | ⟨index, _, -, rfl, -, -, -⟩
  iterate 4 exact .front rfl
  change E.Quiet _ c (indexWords E.drift index ++ rest)
  unfold indexWords
  cases index.unique <;> exact .front rfl

/-- What is created is read again.

**Proof sketch.** By what was created (`accepted_created`). Its keyword is next again, because the
words of each creation start with it, so the same parser is run, and reads it again by its own
lemma. -/
lemma created_again (known : E.Known n) {start start' place place' : Span} {temporary : Bool}
    {value : Statement}
    (run : (created E.rules start place temporary).run E.dialect c = .accepted value c₁)
    (follows : E.Follows n c c' (createdWords E.drift value ++ rest))
    (keeps : E.mode.left ≤ c₁.ahead.length) (safe : E.Safe [value.node])
    (ends : E.EndsStatement c₁ rest) :
    Accepts E.dialect (created E.again start' place' temporary) c' fun value' c₁' =>
      E.Follows n c₁ c₁' rest ∧ value'.unplaced = value.unplaced := by
  unfold created
  refine Accepts.congr ?_ (run_current_bind ..)
  rcases accepted_created run with ⟨table, rfl, at_, inner⟩ | ⟨view, rfl, at_, inner⟩ |
    ⟨trigger, rfl, at_, inner⟩ | ⟨table, rfl, rfl, at_, inner⟩ |
    ⟨index, word, mem, rfl, rfl, at_, inner⟩
  · have takes := (accepted_expectKeyword inner).2.1
    have at' := (follows.front_keyword ⟨_, rfl⟩ at_ (Nat.le_trans keeps takes)).1
    rw [current_keyword? at']
    exact (createTable_again known).step inner follows keeps safe ends fun table' c₁' _ same
      follows => .of_pure ⟨follows, congrArg Statement.createTable same⟩
  · have takes := (accepted_expectKeyword inner).2.1
    have at' := (follows.front_keyword ⟨_, rfl⟩ at_ (Nat.le_trans keeps takes)).1
    rw [current_keyword? at']
    exact (createView_again known).step inner follows keeps safe ends fun view' c₁' _ same
      follows => .of_pure ⟨follows, congrArg Statement.createView same⟩
  · have takes := (accepted_expectKeyword inner).2.1
    have at' := (follows.front_keyword ⟨_, rfl⟩ at_ (Nat.le_trans keeps takes)).1
    rw [current_keyword? at']
    exact (createTrigger_again known).step inner follows keeps safe trivial fun trigger' c₁' _ same
      follows => .of_pure ⟨follows, congrArg Statement.createTrigger same⟩
  · obtain ⟨_, c₂, run₁, le₁, -⟩ := accepted_bind inner
    have takes := (accepted_expectKeyword run₁).2.1
    have at' := (follows.front_keyword ⟨_, rfl⟩ at_
      (Nat.le_trans keeps (Nat.le_trans le₁ takes))).1
    rw [current_keyword? at']
    exact (createVirtualTable_again known).step inner follows keeps safe ends fun table' c₁' _ same
      follows => .of_pure ⟨follows, congrArg Statement.createVirtualTable same⟩
  · obtain ⟨takes, ws, front⟩ := createIndex_front (E := E) at_ mem inner
    have at' := (follows.front_keyword ⟨ws, front⟩ at_ (Nat.le_trans keeps takes)).1
    rw [current_keyword? at']
    simp only [List.mem_cons, List.not_mem_nil, or_false] at mem
    rcases mem with rfl | rfl <;>
      exact (createIndex_again known).step inner follows keeps safe ends fun index' c₁' _ same
        follows => .of_pure ⟨follows, congrArg Statement.createIndex same⟩

/-- **Statements that create something are read again.**

**Proof sketch.** `CREATE` is next again. What was read tells whether `TEMP` or `TEMPORARY` was next
(`created_temporary`); both are written as `TEMP` in a written text, and kept in a copy. Then what
is created is read again (`created_again`). -/
theorem creation_again (known : E.Known n) {value : Statement}
    (run : (creation E.rules).run E.dialect c = .accepted value c₁)
    (follows : E.Follows n c c' (creationWords E.drift value ++ rest))
    (keeps : E.mode.left ≤ c₁.ahead.length) (safe : E.Safe [value.node])
    (ends : E.EndsStatement c₁ rest) :
    Accepts E.dialect (creation E.again) c' fun value' c₁' =>
      E.Follows n c₁ c₁' rest ∧ value'.unplaced = value.unplaced := by
  rw [creation_eq] at run ⊢
  obtain ⟨at_, le₁, run⟩ := accepted_expectKeyword run
  rw [run_here_bind, run_eatKeyword_bind] at run
  have follows : E.Follows n c c' (.ofKeyword .CREATE ::
      ((Form.flag [.ofKeyword .TEMP]).words (temporaryOf value) ++
        (createdWords E.drift value ++ rest))) := by
    simpa [creationWords] using follows
  refine follows.expectKeyword at_ (Nat.le_trans keeps le₁) fun _ follows _ => ?_
  refine Accepts.congr ?_ (run_here_bind ..)
  split at run
  · next temp =>
    rw [created_temporary run] at follows
    have follows : E.Follows n c.advance c'.advance
      (.ofKeyword .TEMP :: (createdWords E.drift value ++ rest)) := follows
    exact follows.eatKeyword temp (Nat.le_trans keeps (accepted_length run)) fun follows _ =>
      created_again known run follows keeps safe ends
  next notTemp =>
  rw [if_neg Bool.false_ne_true, run_eatKeyword_bind] at run
  split at run
  · next temporary =>
    rw [created_temporary run] at follows
    have follows : E.Follows n c.advance c'.advance
      (.ofKeyword .TEMP :: (createdWords E.drift value ++ rest)) := follows
    -- the longer keyword is written as the shorter one
    obtain ⟨next, -, seen⟩ := follows.take
      (ahead_of_kind follows.reached (by simp [kind_of_atKeyword temporary]))
      (Nat.le_trans keeps (accepted_length run))
    rcases seen with ⟨-, kind, -⟩ | ⟨-, kind, -⟩
    · have at' : c'.advance.view.atKeyword .TEMPORARY = true :=
        atKeyword_of_kind (kind.trans (kind_of_atKeyword temporary))
      refine skipKeyword (not_otherKeyword at' (by decide)) ?_
      exact takeKeyword at' (created_again known run next keeps safe ends)
    · exact takeKeyword (atKeyword_of_kind kind) (created_again known run next keeps safe ends)
  · next notTemporary =>
    rw [created_temporary run] at follows
    have follows : E.Follows n c.advance c'.advance (createdWords E.drift value ++ rest) := follows
    have quiet := createdWords_quiet (E := E) run rest
    refine skipKeyword (quiet.not_keyword follows rfl notTemp) ?_
    refine skipKeyword (quiet.not_keyword follows rfl notTemporary) ?_
    exact created_again known run follows keeps safe ends

/-- The words of a statement that was read as a creation are those of that creation. -/
lemma statement_words_of_creation {rules : Rules} {value : Statement}
    (run : (creation rules).run E.dialect c = .accepted value c₁) :
    (Form.statement E.drift).words value = creationWords E.drift value := by
  rw [creation_eq] at run
  obtain ⟨-, -, run⟩ := accepted_expectKeyword run
  rw [run_here_bind, run_eatKeyword_bind] at run
  obtain ⟨start, place, temporary, c₂, run⟩ : ∃ start place temporary c₂,
      (created rules start place temporary).run E.dialect c₂ = .accepted value c₁ := by
    split at run
    · exact ⟨_, _, _, _, run⟩
    · obtain ⟨_, _, -, -, run⟩ := accepted_bind run
      exact ⟨_, _, _, _, run⟩
  rw [statement_words]
  rcases accepted_created run with ⟨_, rfl, -, -⟩ | ⟨_, rfl, -, -⟩ | ⟨_, rfl, -, -⟩ |
    ⟨_, rfl, -, -, -⟩ | ⟨_, _, -, rfl, -, -, -⟩ <;> rfl

/-- **Statements are read again.**

**Proof sketch.** By whether `CREATE` was next. If it was, the words start with it, so it is next
again, and the creation is read again (`creation_again`). If it was not, a statement about rows was
read, which starts with `WITH` or with the keyword of its kind, so `CREATE` is not next again, and
it is read again. -/
theorem statement_again (known : E.Known n) :
    E.Reruns n (.statement E.drift) E.EndsStatement (statement E.rules) (statement E.again) := by
  intro c c' value c₁ rest run follows keeps safe ends
  unfold statement at run ⊢
  rw [run_sees_bind] at run
  refine accepts_sees ?_
  split at run
  · next at_ =>
    rw [statement_words_of_creation run] at follows
    obtain ⟨-, takes, -⟩ := accepted_expectKeyword run
    rw [if_pos (follows.front_keyword ⟨_, rfl⟩ at_ (Nat.le_trans keeps takes)).1]
    exact creation_again known run follows keeps safe ends
  · next not =>
    obtain ⟨inner, c₂, first, -, last⟩ := accepted_bind run
    obtain ⟨rfl, rfl⟩ := accepted_pure last
    have follows : E.Follows n c c' ((Form.dataStatement E.drift).words inner ++ rest) := follows
    have quiet : E.Quiet [.keyword .CREATE] c
        ((Form.dataStatement E.drift).words inner ++ rest) := by
      rw [dataStatement_words, List.append_assoc]
      cases tables : tablesOf inner with
      | some clause =>
        obtain ⟨ws, front⟩ := withClause_front (E := E) clause
        change E.Quiet _ c ((Form.withClause E.drift).words clause ++ _)
        rw [front]
        exact .front rfl
      | none => exact (afterTables_quiet inner rest).mono rfl
    rw [if_neg (quiet.not_keyword follows rfl not)]
    exact (dataStatement_again known).step first follows keeps safe ends fun inner' c₁' _ same
      follows => .of_pure ⟨follows, congrArg Statement.data same⟩

end Rereading

end SqlTree
