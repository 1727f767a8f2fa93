import SqlTree.Proofs.Reread.Operator

set_option autoImplicit false

/-!
# Reading table references again

## Main results

* `SqlTree.Rereading.singleTable_again` — tables, calls and queries in place of a table are read
  again.
* `SqlTree.Rereading.joinedTables_again` — table references with their joins are read again.
-/

namespace SqlTree

namespace Form

/-- The index that a table is read by. -/
def indexing : Form Indexing :=
  ⟨fun
    | .indexedBy name => [.ofKeyword .INDEXED, .ofKeyword .BY, .ofName name]
    | .notIndexed => [.ofKeyword .NOT, .ofKeyword .INDEXED], fun _ => [], id⟩

/-- A keyword that is read but not written. -/
def noise : Form Bool :=
  ⟨fun _ => [], fun _ => [], fun _ => false⟩

/-- The keywords of a join before the last one. -/
def joinKind : Form JoinKind :=
  ⟨fun kind => kind.keywords.dropLast.map .ofKeyword, fun _ => [], id⟩

/-- The keywords of a join, or the comma that stands for one. -/
def joinOperator : Form (Bool × JoinKind) :=
  ⟨fun (natural, kind) =>
    if kind = .comma then [.ofSymbol .comma]
    else (flag [.ofKeyword .NATURAL]).words natural ++ joinKind.words kind ++ [.ofKeyword .JOIN],
    fun _ => [], id⟩

end Form

namespace Rereading

open SqlTree.Parser SqlTree.Grammar

variable {E : Rereading} {n : Nat} {c c' c₁ c₁' : Cursor} {rest : List Word}

/-! ## Keywords that have been seen -/

variable (E) in
/-- The keyword is next, in both sources. -/
structure Expects (word : Keyword) (cursor : Cursor) (rest : List Word) : Prop where
  at_ : cursor.view.atKeyword word = true
  keeps : E.mode.left ≤ cursor.advance.ahead.length
  word : ∃ more, rest = .ofKeyword word :: more

namespace Expects

variable {word other : Keyword}

/-- A keyword that is expected is next again. -/
lemma again (expects : E.Expects word c rest) (follows : E.Follows n c c' rest) :
    c'.view.atKeyword word = true := by
  obtain ⟨more, rfl⟩ := expects.word
  exact (follows.keyword expects.at_ expects.keeps).1

end Expects

/-- A keyword that is not written is read again where it is still there. -/
lemma noise_again (word : Keyword) :
    E.Reruns n .noise (fun _ rest => Word.kindAt rest 0 ≠ .keyword word) (eatKeyword word)
      (eatKeyword word) := by
  intro c c' value c₁ rest run follows keeps _ other
  rw [← run_bind_pure] at run
  refine Accepts.congr ?_ (run_bind_pure _ _).symm
  have follows : E.Follows n c c' rest := follows
  by_cases written : E.mode = .written
  · refine skipKeyword (fun at' => other ?_)
      (.of_pure ⟨follows.of_written written (accepted_reachable run follows.reached), rfl⟩)
    have kind := follows.peek 0
    rw [plan_written written] at kind
    exact kind.symm.trans (kind_of_atKeyword at')
  · rw [run_eatKeyword_bind] at run
    split at run
    · next at_ =>
      obtain ⟨rfl, rfl⟩ := accepted_pure run
      exact (follows.of_copy written (.ofKeyword word :: rest)).eatKeyword at_ keeps
        fun follows _ => .of_pure ⟨follows, rfl⟩
    · next not =>
      obtain ⟨rfl, rfl⟩ := accepted_pure run
      have quiet : E.Quiet [.keyword word] c rest :=
        .of_written fun is_written => absurd is_written written
      exact skipKeyword (quiet.not_keyword follows (by simp) not) (.of_pure ⟨follows, rfl⟩)

/-! ## Indexes -/

/-- What the hint about an index was read from. -/
lemma accepted_optionalIndexing {value : Option Indexing}
    (run : optionalIndexing.run E.dialect c = .accepted value c₁) :
    (∃ name, value = some (.indexedBy name) ∧ c.view.atKeyword .INDEXED = true ∧
        c.advance.view.atKeyword .BY = true ∧ c₁.ahead.length ≤ c.advance.advance.ahead.length ∧
        identifier.run E.dialect c.advance.advance = .accepted name c₁) ∨
      (value = some .notIndexed ∧ c.view.atKeywords .NOT .INDEXED = true ∧
        c₁ = c.advance.advance) ∨
      (value = none ∧ ¬ c.view.atKeyword .INDEXED = true ∧
        ¬ c.view.atKeywords .NOT .INDEXED = true ∧ c₁ = c) := by
  unfold optionalIndexing at run
  rw [run_eatKeyword_bind] at run
  split at run
  · next at₁ =>
    obtain ⟨at₂, le, run⟩ := accepted_expectKeyword run
    obtain ⟨name, c₂, inner, -, run⟩ := accepted_bind run
    obtain ⟨rfl, rfl⟩ := accepted_pure run
    exact .inl ⟨name, rfl, at₁, at₂, le, inner⟩
  · next not₁ =>
    rw [if_neg Bool.false_ne_true, run_sees_bind] at run
    split at run
    · next at₂ =>
      obtain ⟨-, -, run⟩ := accepted_advance run
      obtain ⟨-, -, run⟩ := accepted_advance run
      obtain ⟨rfl, rfl⟩ := accepted_pure run
      exact .inr (.inl ⟨rfl, at₂, rfl⟩)
    · next not₂ =>
      obtain ⟨rfl, rfl⟩ := accepted_pure run
      exact .inr (.inr ⟨rfl, not₁, not₂, rfl⟩)

/-- A hint about an index takes nothing unless `INDEXED` or `NOT` is next. -/
lemma optionalIndexing_skips :
    Skips E.dialect Form.indexing.maybe [.keyword .INDEXED, .keyword .NOT] optionalIndexing := by
  intro c value c₁ run
  rcases accepted_optionalIndexing run with ⟨name, rfl, -⟩ | ⟨rfl, -⟩ | ⟨rfl, -, -, rfl⟩
  · exact .inr ⟨_, _, rfl, by simp⟩
  · exact .inr ⟨_, _, rfl, by simp⟩
  · exact .inl ⟨rfl, rfl⟩

/-- The index that a table is read by is read again. -/
lemma optionalIndexing_again :
    E.Reruns n Form.indexing.maybe (E.Quiet [.keyword .INDEXED, .keywords .NOT .INDEXED])
      optionalIndexing optionalIndexing := by
  intro c c' value c₁ rest run follows keeps _ quiet
  unfold optionalIndexing
  rcases accepted_optionalIndexing run with
    ⟨name, rfl, at₁, at₂, le, inner⟩ | ⟨rfl, at_, rfl⟩ | ⟨rfl, not₁, not₂, rfl⟩
  · have follows : E.Follows n c c'
        (.ofKeyword .INDEXED :: .ofKeyword .BY :: .ofName name :: rest) := follows
    have keeps₂ := Nat.le_trans keeps le
    refine follows.eatKeyword at₁ (Nat.le_trans keeps₂ (by simp)) fun follows _ => ?_
    refine follows.expectKeyword at₂ keeps₂ fun _ follows _ => ?_
    exact identifier_again.plain rfl inner follows keeps safe_nil trivial
      fun _ _ follows => .of_pure ⟨follows, rfl⟩
  · have follows : E.Follows n c c' (.ofKeyword .NOT :: .ofKeyword .INDEXED :: rest) := follows
    have at' := (follows.keywords at_ keeps).1
    refine skipKeyword (not_otherKeyword
      (atKeyword_of_kind (kinds_of_atKeywords at').1) (by decide)) ?_
    rw [if_neg Bool.false_ne_true]
    refine accepts_sees ?_
    rw [if_pos at']
    exact follows.advanceKeywords at_ keeps fun follows _ => .of_pure ⟨follows, rfl⟩
  · have follows : E.Follows n c₁ c' rest := follows
    refine skipKeyword (quiet.not_keyword follows rfl not₁) ?_
    rw [if_neg Bool.false_ne_true]
    refine accepts_sees ?_
    rw [if_neg (quiet.not_keywords follows rfl not₂)]
    exact .of_pure ⟨follows, rfl⟩

/-! ## Names of functions in place of a table -/

/-- The second reading takes the name of a function where the first one took a name. -/
lemma Follows.tableFunction
    (follows : E.Follows n c c' (.ofFunctionName (nameOf c.current) :: rest))
    (at_ : c.view.atIdentifier = true) (keeps : E.mode.left ≤ c.advance.ahead.length)
    (names : E.mode = .written → ∀ word, Keyword.ofText? (nameOf c.current) = some word →
      word.canNameFunction → word.canBeIdentifier) :
    c'.view.atIdentifier = true ∧ nameOf c'.current = nameOf c.current ∧
      E.Follows n c.advance c'.advance rest := by
  obtain ⟨next, -, seen⟩ :=
    follows.take (ahead_of_kind follows.reached (atIdentifier_ne_end at_)) keeps
  change c'.current.kind.isIdentifierLike = true ∧ _
  rcases seen with ⟨-, kind, lexeme⟩ | ⟨written, kind, lexeme⟩
  · refine ⟨by rw [kind]; exact at_, ?_, next⟩
    unfold nameOf
    rw [kind, lexeme]
  · rcases Word.ofFunctionName_cases (nameOf c.current) with eq | ⟨word, found, can, eq⟩
    · rw [eq] at kind
      refine ⟨by rw [kind]; rfl, ?_, next⟩
      rw [nameOf, kind]
      rfl
    · rw [eq] at kind lexeme
      refine ⟨by rw [kind]; exact names written word found can, ?_, next⟩
      rw [nameOf, kind]
      exact lexeme

/-- The name of a function in place of a table, perhaps with a schema before it. -/
def functionWords : Option String × String → List Word
  | (some schema, name) => [.ofName schema, .ofSymbol .dot, .ofFunctionName name]
  | (none, name) => [.ofFunctionName name]

/-- The name of a function in place of a table is read again.

**Proof sketch.** The schema is an identifier, read again with the dot after it. The name of the
function is written like one that is called, and read as an identifier: a keyword that names a
function can be an identifier, by assumption (`Follows.tableFunction`). Without a schema no dot is
next again, as a parenthesis stands there. -/
lemma functionName_again {value : Option String × String}
    (run : qualifiedName.run E.dialect c = .accepted value c₁)
    (follows : E.Follows n c c' (functionWords value ++ .ofSymbol .leftParen :: rest))
    (keeps : E.mode.left ≤ c₁.ahead.length)
    (names : E.mode = .written → ∀ word, Keyword.ofText? value.2 = some word →
      word.canNameFunction → word.canBeIdentifier) :
    ∃ c₁', qualifiedName.run E.dialect c' = .accepted value c₁' ∧
      E.Follows n c₁ c₁' (.ofSymbol .leftParen :: rest) := by
  unfold qualifiedName at run ⊢
  obtain ⟨first, c₂, run₁, le, run⟩ := accepted_bind run
  obtain ⟨at₁, rfl, rfl⟩ := accepted_identifier run₁
  rw [run_eatSymbol_bind] at run
  split at run
  · next dot =>
    have le' := accepted_length run
    obtain ⟨second, c₃, run₂, -, run⟩ := accepted_bind run
    obtain ⟨rfl, rfl⟩ := accepted_pure run
    obtain ⟨at₂, rfl, rfl⟩ := accepted_identifier run₂
    have follows : E.Follows n c c' (.ofName (nameOf c.current) :: .ofSymbol .dot ::
      .ofFunctionName (nameOf c.advance.advance.current) :: .ofSymbol .leftParen :: rest) := follows
    obtain ⟨at₁', same₁, follows, -⟩ := follows.name at₁ (Nat.le_trans keeps le)
    obtain ⟨dot', follows, -⟩ := follows.symbol dot (Nat.le_trans keeps le')
    obtain ⟨at₂', same₂, follows⟩ := follows.tableFunction at₂ keeps names
    refine ⟨_, ?_, follows⟩
    rw [run_bind, run_identifier at₁']
    dsimp only
    rw [run_eatSymbol_bind, if_pos dot', if_pos rfl, run_bind, run_identifier at₂', same₁, same₂]
    rfl
  · next notDot =>
    obtain ⟨rfl, rfl⟩ := accepted_pure run
    have follows : E.Follows n c c'
      (.ofFunctionName (nameOf c.current) :: .ofSymbol .leftParen :: rest) := follows
    obtain ⟨at₁', same₁, follows⟩ := follows.tableFunction at₁ keeps names
    have quiet : E.Quiet [.symbol .dot] c.advance (.ofSymbol .leftParen :: rest) := .front rfl
    refine ⟨_, ?_, follows⟩
    rw [run_bind, run_identifier at₁']
    dsimp only
    rw [run_eatSymbol_bind, if_neg (quiet.not_symbol follows rfl notDot),
      if_neg Bool.false_ne_true, same₁]
    rfl

/-! ## Tables without joins -/

/-- What goes on with a table reference without joins. -/
def singleEnd : List Starter :=
  [.symbol .dot, .symbol .leftParen, .keyword .AS, .name, .keyword .INDEXED,
    .keywords .NOT .INDEXED]

/-- The words of an alias are those of its form. -/
lemma wordsOf_aliased (drift : Bool) (aliasName : Option String) :
    Render.wordsOf drift (Render.aliased aliasName) = Form.aliased.words aliasName := by
  cases aliasName <;> rfl

/-- The words of a named table are those of its parts. -/
lemma table_words (schema : Option String) (name : String) (aliasName : Option String)
    (indexing : Option Indexing) (span : Span) :
    (Form.tableRef E.drift).words (.table schema name aliasName indexing span) ++ rest =
      Form.qualified.words (schema, name) ++ (Form.aliased.words aliasName ++
        (Form.indexing.maybe.words indexing ++ rest)) := by
  have named : Render.wordsOf E.drift (Render.qualified schema name) =
      Form.qualified.words (schema, name) := by
    cases schema <;> rfl
  rcases indexing with _ | index | _ <;>
    simp [Form.tableRef, TableRef.pieces, named, wordsOf_aliased, Form.indexing, Form.maybe,
      Indexing.pieces]

/-- The words of a query in place of a table are those of its parts. -/
lemma tableSubquery_words (query : Query) (aliasName : Option String) (span : Span) :
    (Form.tableRef E.drift).words (.subquery query aliasName span) ++ rest =
      .ofSymbol .leftParen :: ((Form.query E.drift).words query ++
        .ofSymbol .rightParen :: (Form.aliased.words aliasName ++ rest)) := by
  simp [Form.tableRef, TableRef.pieces, Form.query, Render.parens, wordsOf_aliased]

/-- The words of a function in place of a table are those of its parts. -/
lemma tableFunction_words (schema : Option String) (name : String) (arguments : Option (List Expr))
    (aliasName : Option String) (span : Span) :
    (Form.tableRef E.drift).words (.function schema name (arguments.getD []) aliasName span) ++
        rest =
      functionWords (schema, name) ++ .ofSymbol .leftParen ::
        ((Form.expr E.drift).commas.maybe.words arguments ++
          .ofSymbol .rightParen :: (Form.aliased.words aliasName ++ rest)) := by
  have list : (Form.expr E.drift).commas.words (arguments.getD []) =
      (Form.expr E.drift).commas.maybe.words arguments := by
    cases arguments <;> rfl
  cases schema <;>
    simp [Form.tableRef, TableRef.pieces, functionWords, Render.parens, wordsOf_aliased,
      Form.wordsOf_exprs, list]

/-- The words of tables in parentheses stand between those of the parentheses. -/
lemma tableParenthesized_words (inner : TableRef) (span : Span) :
    (Form.tableRef E.drift).words (.parenthesized inner span) ++ rest =
      .ofSymbol .leftParen :: ((Form.tableRef E.drift).words inner ++
        .ofSymbol .rightParen :: rest) := by
  simp [Form.tableRef, TableRef.pieces, Render.parens]

/-- The arguments of a function in place of a table are read again. -/
lemma tableArguments_again (known : E.Known n) :
    E.Reruns n (Form.expr E.drift).commas.maybe E.Closes
      (whenever (!·.atSymbol .rightParen) E.rules.exprs)
      (whenever (!·.atSymbol .rightParen) E.again.exprs) := by
  intro c c' value c₁ rest run follows keeps safe closes
  unfold whenever at run ⊢
  rw [run_sees_bind] at run
  refine accepts_sees ?_
  split at run
  · obtain ⟨arguments, c₂, inner, -, last⟩ := accepted_bind run
    obtain ⟨rfl, rfl⟩ := accepted_pure last
    obtain ⟨arguments', c₂', inner', follows, same⟩ :=
      known.exprs inner follows keeps safe (closes.quiet rfl)
    have not' : ¬ c'.view.atSymbol .rightParen = true :=
      (known.exprs_start inner').not_symbol rfl
    rw [if_pos (by simpa using not')]
    exact accepts_of_run inner' (.of_pure ⟨follows, congrArg some same⟩)
  · obtain ⟨rfl, rfl⟩ := accepted_pure run
    have follows : E.Follows n c c' rest := follows
    rw [if_neg (by simpa using closes.at_again follows)]
    exact .of_pure ⟨follows, rfl⟩

/-- A query in place of a table is read again. -/
lemma tableSubquery_again (known : E.Known n) {c₂ : Cursor} {query : Query}
    {aliasName : Option String} {span : Span}
    (open_ : c.view.atSymbol .leftParen = true)
    (run₁ : E.rules.query.run E.dialect c.advance = .accepted query c₂)
    (close : c₂.view.atSymbol .rightParen = true)
    (run₂ : optionalAlias.run E.dialect c₂.advance = .accepted aliasName c₁)
    (follows : E.Follows n c c'
      ((Form.tableRef E.drift).words (.subquery query aliasName span) ++ rest))
    (keeps : E.mode.left ≤ c₁.ahead.length)
    (safe : E.Safe [.tableRef (.subquery query aliasName span)])
    (quiet : E.Quiet singleEnd c₁ rest) :
    Accepts E.dialect (singleTable E.again) c' fun value' c₁' =>
      E.Follows n c₁ c₁' rest ∧
        value'.unplaced = TableRef.unplaced (.subquery query aliasName span) := by
  have keeps₂ := Nat.le_trans keeps (accepted_length run₂)
  have keeps₁ := Nat.le_trans keeps₂ (length_of_advance run₁)
  rw [tableSubquery_words] at follows
  unfold singleTable
  refine Accepts.congr ?_ (run_here_bind ..)
  refine follows.eatSymbol open_ keeps₁ fun follows _ => ?_
  rw [if_pos rfl]
  obtain ⟨query', c₂', run₁', follows, same⟩ := known.query run₁ follows
    (Nat.le_trans keeps₂ c₂.length_advance) (safe_singleton.mp safe).2 (queryEnds_of_close close)
  refine accepts_sees ?_
  rw [if_pos (known.sound'.query run₁')]
  refine accepts_of_run run₁' ?_
  refine follows.expectSymbol close keeps₂ fun _ follows _ => ?_
  refine optionalAlias_again.plain (Form.maybe_bare rfl) run₂ follows keeps
    (by cases aliasName <;> exact safe_nil) (quiet.mono rfl) fun c₁' _ follows => ?_
  exact .of_return ⟨follows, congrArg (TableRef.subquery · aliasName .none) same⟩

/-- A table reference between parentheses is read again. -/
lemma tableParenthesized_again (known : E.Known n) {c₂ : Cursor} {inner : TableRef} {span : Span}
    (open_ : c.view.atSymbol .leftParen = true)
    (run : E.rules.tableRef.run E.dialect c.advance = .accepted inner c₂)
    (close : c₂.view.atSymbol .rightParen = true)
    (follows : E.Follows n c c' ((Form.tableRef E.drift).words (.parenthesized inner span) ++ rest))
    (keeps : E.mode.left ≤ c₂.advance.ahead.length)
    (safe : E.Safe [.tableRef (.parenthesized inner span)]) :
    Accepts E.dialect (singleTable E.again) c' fun value' c₁' =>
      E.Follows n c₂.advance c₁' rest ∧
        value'.unplaced = TableRef.unplaced (.parenthesized inner span) := by
  rw [tableParenthesized_words] at follows
  unfold singleTable
  refine Accepts.congr ?_ (run_here_bind ..)
  refine follows.eatSymbol open_ (Nat.le_trans keeps (length_of_advance run)) fun follows _ => ?_
  rw [if_pos rfl]
  obtain ⟨inner', c₂', run', follows, same⟩ := known.tableRef run follows
    (Nat.le_trans keeps c₂.length_advance) (safe_singleton.mp safe).2 (.front rfl)
  refine accepts_sees ?_
  rw [if_neg (by simp [known.sound'.tableRef run'])]
  refine accepts_of_run run' ?_
  exact follows.expectSymbol close keeps fun _ follows _ =>
    .of_return ⟨follows, congrArg (TableRef.parenthesized · .none) same⟩

/-- The name of a table starts with no parenthesis. -/
lemma not_open_of_qualifiedName {value : Option String × String}
    (run : qualifiedName.run E.dialect c = .accepted value c₁) :
    ¬ c.view.atSymbol .leftParen = true := by
  intro open_
  unfold qualifiedName at run
  obtain ⟨first, c₂, run, -, -⟩ := accepted_bind run
  have at_ := (accepted_identifier run).1
  change c.current.kind.isIdentifierLike = true at at_
  rw [kind_of_atSymbol open_] at at_
  exact absurd at_ Bool.false_ne_true

/-- A call of a function in place of a table is read again.

**Proof sketch.** The name is read again first (`functionName_again`); that it is one that can stand
in place of a table follows from the safety of the node. So no parenthesis was next at the front.
Then the parenthesis after the name, the arguments (`tableArguments_again`) and the alias are read
again, one after the other. -/
lemma tableFunction_again (known : E.Known n) {c₂ c₃ : Cursor} {schema : Option String}
    {name : String} {arguments : Option (List Expr)} {aliasName : Option String} {span : Span}
    (run₁ : qualifiedName.run E.dialect c = .accepted (schema, name) c₂)
    (open_ : c₂.view.atSymbol .leftParen = true)
    (run₂ : (whenever (!·.atSymbol .rightParen) E.rules.exprs).run E.dialect c₂.advance =
      .accepted arguments c₃)
    (close : c₃.view.atSymbol .rightParen = true)
    (run₃ : optionalAlias.run E.dialect c₃.advance = .accepted aliasName c₁)
    (follows : E.Follows n c c' ((Form.tableRef E.drift).words
      (.function schema name (arguments.getD []) aliasName span) ++ rest))
    (keeps : E.mode.left ≤ c₁.ahead.length)
    (safe : E.Safe [.tableRef (.function schema name (arguments.getD []) aliasName span)])
    (quiet : E.Quiet singleEnd c₁ rest) :
    Accepts E.dialect (singleTable E.again) c' fun value' c₁' =>
      E.Follows n c₁ c₁' rest ∧ value'.unplaced =
        TableRef.unplaced (.function schema name (arguments.getD []) aliasName span) := by
  have keeps₃ := Nat.le_trans keeps (accepted_length run₃)
  have keeps₂ := Nat.le_trans keeps₃ (length_of_advance run₂)
  rw [tableFunction_words] at follows
  obtain ⟨own, below⟩ := safe_singleton.mp safe
  have below : E.Safe (Node.each Node.expr (arguments.getD [])) := below
  rw [each_eq] at below
  obtain ⟨c₂', run₁', follows⟩ := functionName_again run₁ follows
    (Nat.le_trans keeps₂ c₂.length_advance) fun written => (own written).2
  unfold singleTable
  refine Accepts.congr ?_ (run_here_bind ..)
  refine skipSymbol (not_open_of_qualifiedName run₁') ?_
  rw [if_neg Bool.false_ne_true]
  refine accepts_of_run run₁' ?_
  refine follows.eatSymbol open_ keeps₂ fun follows _ => ?_
  rw [if_pos rfl]
  refine (tableArguments_again known).step run₂ follows (Nat.le_trans keeps₃ c₃.length_advance)
    (by cases arguments <;> exact below) ⟨close, keeps₃, _, rfl⟩
    fun arguments' c₃' _ same follows => ?_
  refine follows.expectSymbol close keeps₃ fun _ follows _ => ?_
  refine optionalAlias_again.plain (Form.maybe_bare rfl) run₃ follows keeps
    (by cases aliasName <;> exact safe_nil) (quiet.mono rfl) fun c₁' _ follows => ?_
  have same : arguments'.map (List.map Expr.unplaced) = arguments.map (List.map Expr.unplaced) :=
    same
  have same : (arguments'.getD []).map Expr.unplaced = (arguments.getD []).map Expr.unplaced := by
    cases arguments <;> cases arguments' <;> simp_all
  exact .of_return ⟨follows, by simp [TableRef.unplaced, same]⟩

/-- The name of a table, with what is said about it, is read again. -/
lemma namedTable_again {c₂ c₃ : Cursor} {schema : Option String} {name : String}
    {aliasName : Option String} {indexing : Option Indexing} {span : Span}
    (run₁ : qualifiedName.run E.dialect c = .accepted (schema, name) c₂)
    (notOpen : ¬ c₂.view.atSymbol .leftParen = true)
    (run₂ : optionalAlias.run E.dialect c₂ = .accepted aliasName c₃)
    (run₃ : optionalIndexing.run E.dialect c₃ = .accepted indexing c₁)
    (follows : E.Follows n c c'
      ((Form.tableRef E.drift).words (.table schema name aliasName indexing span) ++ rest))
    (keeps : E.mode.left ≤ c₁.ahead.length) (quiet : E.Quiet singleEnd c₁ rest) :
    Accepts E.dialect (singleTable E.again) c' fun value' c₁' =>
      E.Follows n c₁ c₁' rest ∧
        value'.unplaced = TableRef.unplaced (.table schema name aliasName indexing span) := by
  have keeps₃ := Nat.le_trans keeps (accepted_length run₃)
  rw [table_words] at follows
  have quiet₂ : E.Quiet [.symbol .dot, .symbol .leftParen] c₂ _ :=
    optionalAlias_skips.quiet run₂ rfl (optionalIndexing_skips.quiet run₃ rfl (quiet.mono rfl))
  obtain ⟨value', c₂', run₁', follows, same⟩ := qualifiedName_again run₁ follows
    (Nat.le_trans keeps₃ (accepted_length run₂)) safe_nil (quiet₂.mono rfl)
  obtain rfl : value' = (schema, name) := same
  unfold singleTable
  refine Accepts.congr ?_ (run_here_bind ..)
  refine skipSymbol (not_open_of_qualifiedName run₁') ?_
  rw [if_neg Bool.false_ne_true]
  refine accepts_of_run run₁' ?_
  dsimp only
  refine skipSymbol (quiet₂.not_symbol follows rfl notOpen) ?_
  rw [if_neg Bool.false_ne_true]
  refine optionalAlias_again.plain (Form.maybe_bare rfl) run₂ follows keeps₃
    (by cases aliasName <;> exact safe_nil)
    (optionalIndexing_skips.quiet run₃ rfl (quiet.mono rfl)) fun c₃' _ follows => ?_
  refine optionalIndexing_again.plain (Form.maybe_bare rfl) run₃ follows keeps
    (by cases indexing <;> exact safe_nil) (quiet.mono rfl) fun c₁' _ follows => ?_
  exact .of_return ⟨follows, rfl⟩

/-- **Table references without joins are read again.**

**Proof sketch.** The run is taken apart by what was next: a query in parentheses, tables in
parentheses, a function or a named table. Each form is read again by its own lemma. -/
lemma singleTable_again (known : E.Known n) :
    E.Reruns n (.tableRef E.drift) (E.Quiet singleEnd) (singleTable E.rules)
      (singleTable E.again) := by
  intro c c' value c₁ rest run follows keeps safe quiet
  unfold singleTable at run
  rw [run_here_bind, run_eatSymbol_bind] at run
  split at run
  · next open_ =>
    rw [if_pos rfl, run_sees_bind] at run
    split at run
    · obtain ⟨query, c₂, run₁, -, run⟩ := accepted_bind run
      obtain ⟨close, -, run⟩ := accepted_expectSymbol run
      obtain ⟨aliasName, c₃, run₂, -, run⟩ := accepted_bind run
      obtain ⟨rfl, rfl⟩ := accepted_return run
      exact tableSubquery_again known open_ run₁ close run₂ follows keeps safe quiet
    · obtain ⟨inner, c₂, run₁, -, run⟩ := accepted_bind run
      obtain ⟨close, -, run⟩ := accepted_expectSymbol run
      obtain ⟨rfl, rfl⟩ := accepted_return run
      exact tableParenthesized_again known open_ run₁ close follows keeps safe
  · rw [if_neg Bool.false_ne_true] at run
    obtain ⟨⟨schema, name⟩, c₂, run₁, -, run⟩ := accepted_bind run
    dsimp only at run
    rw [run_eatSymbol_bind] at run
    split at run
    · next open_ =>
      rw [if_pos rfl] at run
      obtain ⟨arguments, c₃, run₂, -, run⟩ := accepted_bind run
      obtain ⟨close, -, run⟩ := accepted_expectSymbol run
      obtain ⟨aliasName, c₄, run₃, -, run⟩ := accepted_bind run
      obtain ⟨rfl, rfl⟩ := accepted_return run
      exact tableFunction_again known run₁ open_ run₂ close run₃ follows keeps safe quiet
    · next notOpen =>
      rw [if_neg Bool.false_ne_true] at run
      obtain ⟨aliasName, c₃, run₂, -, run⟩ := accepted_bind run
      obtain ⟨indexing, c₄, run₃, -, run⟩ := accepted_bind run
      obtain ⟨rfl, rfl⟩ := accepted_return run
      exact namedTable_again run₁ notOpen run₂ run₃ follows keeps quiet

/-! ## Joins -/

/-- The kind of join that starts with a token of this kind. -/
def joinKindOf (token : Token) (kind : TokenKind) : Parser JoinKind :=
  match kind with
  | .keyword .JOIN => return .inner
  | .keyword .INNER => do
    let _ ← advance
    return .inner
  | .keyword .CROSS => do
    let _ ← advance
    return .cross
  | .keyword .LEFT => do
    let _ ← advance
    let _ ← eatKeyword .OUTER
    return .left
  | .keyword .RIGHT => do
    require .rightFullJoin "RIGHT and FULL joins" token.span
    let _ ← advance
    let _ ← eatKeyword .OUTER
    return .right
  | .keyword .FULL => do
    require .rightFullJoin "RIGHT and FULL joins" token.span
    let _ ← advance
    let _ ← eatKeyword .OUTER
    return .full
  | _ => unexpected "JOIN"

/-- The kind of a join is read by the kind of the next token. -/
lemma run_joinKind_of {dialect : Dialect} {kind : TokenKind} (eq : c.current.kind = kind) :
    joinKind.run dialect c = (joinKindOf c.current kind).run dialect c := by
  subst eq
  rfl

/-- An outer join after the dialect has been asked for it. -/
def outerJoin (kind : JoinKind) : Parser JoinKind := do
  let _ ← advance
  let _ ← eatKeyword .OUTER
  return kind

/-- An outer join yields its kind. -/
lemma accepted_outerJoin {kind value : JoinKind}
    (run : (outerJoin kind).run E.dialect c = .accepted value c₁) : value = kind := by
  obtain ⟨-, -, run⟩ := accepted_advance run
  obtain ⟨_, _, -, -, run⟩ := accepted_bind run
  exact (accepted_pure run).1.symm

/-- An outer join is read again, where the keyword that is not written may be missing. -/
lemma outerJoin_again {word : Keyword} (kind : JoinKind) {value : JoinKind}
    (run : (outerJoin kind).run E.dialect c = .accepted value c₁)
    (at_ : c.view.atKeyword word = true) (keywords : kind.keywords = [word, .JOIN])
    (follows : E.Follows n c c' (Form.joinKind.words value ++ rest))
    (keeps : E.mode.left ≤ c₁.ahead.length) (expects : E.Expects .JOIN c₁ rest) :
    c'.current.kind = .keyword word ∧ Accepts E.dialect (outerJoin kind) c'
      fun value' c₁' => E.Follows n c₁ c₁' rest ∧ value' = value := by
  obtain ⟨-, le, run⟩ := accepted_advance run
  obtain ⟨outer, c₂, run₂, -, run⟩ := accepted_bind run
  obtain ⟨rfl, rfl⟩ := accepted_pure run
  have follows : E.Follows n c c' (.ofKeyword word :: rest) := by
    simpa [Form.joinKind, keywords] using follows
  refine ⟨kind_of_atKeyword (follows.keyword at_ (Nat.le_trans keeps le)).1, ?_⟩
  refine follows.advanceKeyword at_ (Nat.le_trans keeps le) fun _ follows _ => ?_
  refine (noise_again .OUTER).step run₂ follows keeps safe_nil ?_
    fun outer' c₂' _ _ follows => .of_pure ⟨follows, rfl⟩
  obtain ⟨more, rfl⟩ := expects.word
  simp

/-- The kind of a join is read again. That a join is an inner or an outer one is not written.

**Proof sketch.** By the keyword that was next. For `JOIN` nothing was read, and the expected `JOIN`
is next again. `INNER` is not written, so in a written text `JOIN` is next in its place; in a copy
it is next again. `CROSS` is read again, and so are the outer joins, with or without `OUTER`
(`outerJoin_again`). -/
lemma joinKind_again :
    E.Reruns n .joinKind (E.Expects .JOIN) joinKind joinKind := by
  intro c c' value c₁ rest run follows keeps _ expects
  rw [run_joinKind_of rfl] at run
  unfold joinKindOf at run
  split at run
  · next kind =>
    obtain ⟨rfl, rfl⟩ := accepted_pure run
    have follows : E.Follows n c c' rest := follows
    refine Accepts.congr ?_ (run_joinKind_of (kind_of_atKeyword (expects.again follows)))
    exact .of_pure ⟨follows, rfl⟩
  · next kind =>
    obtain ⟨-, -, run⟩ := accepted_advance run
    obtain ⟨rfl, rfl⟩ := accepted_pure run
    have follows : E.Follows n c c' rest := follows
    by_cases written : E.mode = .written
    · have follows := follows.of_written written follows.reached.advance
      refine Accepts.congr ?_ (run_joinKind_of (kind_of_atKeyword (expects.again follows)))
      exact .of_pure ⟨follows, rfl⟩
    · have follows := follows.of_copy written (.ofKeyword .INNER :: rest)
      have at_ := atKeyword_of_kind kind
      refine Accepts.congr ?_
        (run_joinKind_of (kind_of_atKeyword (follows.keyword at_ keeps).1))
      exact follows.advanceKeyword at_ keeps fun _ follows _ => .of_pure ⟨follows, rfl⟩
  · next kind =>
    obtain ⟨-, -, run⟩ := accepted_advance run
    obtain ⟨rfl, rfl⟩ := accepted_pure run
    have follows : E.Follows n c c' (.ofKeyword .CROSS :: rest) := follows
    have at_ := atKeyword_of_kind kind
    refine Accepts.congr ?_ (run_joinKind_of (kind_of_atKeyword (follows.keyword at_ keeps).1))
    exact follows.advanceKeyword at_ keeps fun _ follows _ => .of_pure ⟨follows, rfl⟩
  · next kind =>
    obtain ⟨kind', accepts⟩ :=
      outerJoin_again .left run (atKeyword_of_kind kind) rfl follows keeps expects
    exact accepts.congr (run_joinKind_of kind')
  · next kind =>
    obtain ⟨has, run⟩ := accepted_require run
    obtain ⟨kind', accepts⟩ :=
      outerJoin_again .right run (atKeyword_of_kind kind) rfl follows keeps expects
    exact (accepts_require has accepts).congr (run_joinKind_of kind')
  · next kind =>
    obtain ⟨has, run⟩ := accepted_require run
    obtain ⟨kind', accepts⟩ :=
      outerJoin_again .full run (atKeyword_of_kind kind) rfl follows keeps expects
    exact (accepts_require has accepts).congr (run_joinKind_of kind')
  · exact absurd run not_accepted_unexpected

/-- The kind of a join starts with a keyword of joins, and is no comma.

**Proof sketch.** By the kind of the next token: in each case the run yields the kind of its
keyword (`accepted_outerJoin` where that is an outer join), and the keyword is one of the list. -/
lemma joinKind_starts {kind : JoinKind}
    (run : joinKind.run E.dialect c = .accepted kind c₁) : kind ≠ .comma ∧
      c.view.atAnyKeyword [.JOIN, .INNER, .LEFT, .RIGHT, .FULL, .CROSS, .NATURAL] = true := by
  rw [run_joinKind_of rfl] at run
  unfold joinKindOf at run
  have starts : ∀ {word}, c.current.kind = .keyword word →
      word ∈ [Keyword.JOIN, .INNER, .LEFT, .RIGHT, .FULL, .CROSS, .NATURAL] →
      c.view.atAnyKeyword [.JOIN, .INNER, .LEFT, .RIGHT, .FULL, .CROSS, .NATURAL] = true :=
    fun kind mem => List.any_eq_true.mpr ⟨_, mem, atKeyword_of_kind kind⟩
  split at run
  · next kind =>
    obtain ⟨rfl, -⟩ := accepted_pure run
    exact ⟨by simp, starts kind (by simp)⟩
  · next kind =>
    obtain ⟨-, -, run⟩ := accepted_advance run
    obtain ⟨rfl, -⟩ := accepted_pure run
    exact ⟨by simp, starts kind (by simp)⟩
  · next kind =>
    obtain ⟨-, -, run⟩ := accepted_advance run
    obtain ⟨rfl, -⟩ := accepted_pure run
    exact ⟨by simp, starts kind (by simp)⟩
  · next kind =>
    obtain rfl := accepted_outerJoin run
    exact ⟨by simp, starts kind (by simp)⟩
  · next kind =>
    obtain ⟨-, run⟩ := accepted_require run
    obtain rfl := accepted_outerJoin run
    exact ⟨by simp, starts kind (by simp)⟩
  · next kind =>
    obtain ⟨-, run⟩ := accepted_require run
    obtain rfl := accepted_outerJoin run
    exact ⟨by simp, starts kind (by simp)⟩
  · exact absurd run not_accepted_unexpected

/-- The keywords of a join are read where they start. -/
lemma joinKeywords_start {natural : Bool} {kind : JoinKind} {c₂ : Cursor}
    (run₁ : (eatKeyword .NATURAL).run E.dialect c = .accepted natural c₂)
    (run₂ : joinKind.run E.dialect c₂ = .accepted kind c₁) :
    c.view.atAnyKeyword [.JOIN, .INNER, .LEFT, .RIGHT, .FULL, .CROSS, .NATURAL] = true := by
  rcases accepted_eatKeyword run₁ with ⟨-, at_, -⟩ | ⟨-, -, rfl⟩
  · exact List.any_eq_true.mpr ⟨.NATURAL, by simp, at_⟩
  · exact (joinKind_starts run₂).2

/-- A keyword is no symbol. -/
lemma not_symbol_of_any {words : List Keyword} (at_ : c.view.atAnyKeyword words = true)
    (which : Symbol) : ¬ c.view.atSymbol which = true := by
  obtain ⟨word, -, at_⟩ := List.any_eq_true.mp at_
  exact not_atSymbol at_ which

/-- An operator of a join was read from a comma, or from `NATURAL`, the kind and `JOIN`. -/
lemma accepted_optionalJoinOperator {natural : Bool} {kind : JoinKind}
    (run : optionalJoinOperator.run E.dialect c = .accepted (some (natural, kind)) c₁) :
    (c.view.atSymbol .comma = true ∧ natural = false ∧ kind = .comma ∧ c₁ = c.advance) ∨
      ∃ c₂ c₃, (eatKeyword .NATURAL).run E.dialect c = .accepted natural c₂ ∧
        joinKind.run E.dialect c₂ = .accepted kind c₃ ∧ c₃.view.atKeyword .JOIN = true ∧
        c₁ = c₃.advance := by
  unfold optionalJoinOperator at run
  rw [run_eatSymbol_bind] at run
  split at run
  · next at_ =>
    obtain ⟨eq, rfl⟩ := accepted_pure run
    cases eq
    exact .inl ⟨at_, rfl, rfl, rfl⟩
  · rw [if_neg Bool.false_ne_true, run_sees_bind] at run
    split at run
    · obtain ⟨natural, c₂, run₁, -, run⟩ := accepted_bind run
      obtain ⟨kind, c₃, run₂, -, run⟩ := accepted_bind run
      obtain ⟨at_, -, run⟩ := accepted_expectKeyword run
      obtain ⟨eq, rfl⟩ := accepted_pure run
      cases eq
      exact .inr ⟨c₂, c₃, run₁, run₂, at_, rfl⟩
    · exact absurd (accepted_pure run).1 (by simp)

/-- The operator of a join takes a token. -/
lemma joinOperator_takes {value : Bool × JoinKind} (reached : c.Reachable E.drift)
    (run : optionalJoinOperator.run E.dialect c = .accepted (some value) c₁) :
    c₁.ahead.length < c.ahead.length := by
  rcases accepted_optionalJoinOperator run with ⟨at_, -, -, rfl⟩ | ⟨c₂, c₃, run₁, run₂, at_, rfl⟩
  · have := List.length_pos_iff.mpr (ahead_of_kind reached (by simp [kind_of_atSymbol at_]))
    simp only [Cursor.advance_ahead, List.length_tail]
    omega
  · have := length_of_atKeyword at_ (accepted_reachable run₂ (accepted_reachable run₁ reached))
    have := accepted_length run₁
    have := accepted_length run₂
    omega

/-- The operator of a join is read again.

**Proof sketch.** A comma is next again. Otherwise `NATURAL`, the kind (`joinKind_again`) and `JOIN`
are read again, one after the other. They start with a keyword of joins (`joinKeywords_start`),
which is no comma, so the same branch is taken. -/
lemma joinOperator_again {value : Bool × JoinKind}
    (run : optionalJoinOperator.run E.dialect c = .accepted (some value) c₁)
    (follows : E.Follows n c c' (Form.joinOperator.words value ++ rest))
    (keeps : E.mode.left ≤ c₁.ahead.length) :
    ∃ c₁', optionalJoinOperator.run E.dialect c' = .accepted (some value) c₁' ∧
      E.Follows n c₁ c₁' rest := by
  obtain ⟨natural, kind⟩ := value
  unfold optionalJoinOperator
  rcases accepted_optionalJoinOperator run with
    ⟨at_, rfl, rfl, rfl⟩ | ⟨c₂, c₃, run₁, run₂, at_, rfl⟩
  · have follows : E.Follows n c c' (.ofSymbol .comma :: rest) := follows
    obtain ⟨at', follows, -⟩ := follows.symbol at_ keeps
    refine ⟨_, ?_, follows⟩
    rw [run_eatSymbol_bind, if_pos at']
    rfl
  · have notComma := (joinKind_starts run₂).1
    have keeps₃ : E.mode.left ≤ c₃.ahead.length := Nat.le_trans keeps (by simp)
    simp only [Form.joinOperator, if_neg notComma, List.append_assoc, List.cons_append,
      List.nil_append] at follows
    obtain ⟨natural', c₂', run₁', next, same⟩ := eatKeyword_again .NATURAL run₁ follows
      (Nat.le_trans keeps₃ (accepted_length run₂)) safe_nil (by
        cases kind <;> first | exact absurd rfl notComma | exact .front rfl)
    obtain rfl : natural' = natural := same
    obtain ⟨kind', c₃', run₂', last, same⟩ := joinKind_again run₂ next keeps₃ safe_nil
      ⟨at_, keeps, _, rfl⟩
    obtain rfl : kind' = kind := same
    obtain ⟨at', last, -⟩ := last.keyword at_ keeps
    have starts := joinKeywords_start run₁' run₂'
    refine ⟨_, ?_, last⟩
    rw [run_eatSymbol_bind, if_neg (not_symbol_of_any starts _), if_neg Bool.false_ne_true,
      run_sees_bind, if_pos starts, run_bind, run₁']
    dsimp only
    rw [run_bind, run₂']
    dsimp only
    rw [run_expectKeyword_bind at']
    rfl

/-- Without an operator, neither a comma nor a keyword of joins was next, and nothing was read. -/
lemma optionalJoinOperator_none (run : optionalJoinOperator.run E.dialect c = .accepted none c₁) :
    c₁ = c ∧ ¬ c.view.atSymbol .comma = true ∧
      ¬ c.view.atAnyKeyword [.JOIN, .INNER, .LEFT, .RIGHT, .FULL, .CROSS, .NATURAL] = true := by
  unfold optionalJoinOperator at run
  rw [run_eatSymbol_bind] at run
  split at run
  · exact absurd (accepted_pure run).1 (by simp)
  · next notComma =>
    rw [if_neg Bool.false_ne_true, run_sees_bind] at run
    split at run
    · obtain ⟨natural, c₂, -, -, run⟩ := accepted_bind run
      obtain ⟨kind, c₃, -, -, run⟩ := accepted_bind run
      obtain ⟨-, -, run⟩ := accepted_expectKeyword run
      exact absurd (accepted_pure run).1 (by simp)
    · next notAny => exact ⟨(accepted_pure run).2.symm, notComma, notAny⟩

/-- Where no join follows, none does in the second reading. -/
lemma noJoin_again (quiet : E.Quiet tableEnd c rest)
    (run : optionalJoinOperator.run E.dialect c = .accepted none c₁)
    (follows : E.Follows n c c' rest) :
    optionalJoinOperator.run E.dialect c' = .accepted none c' := by
  obtain ⟨-, notComma, notAny⟩ := optionalJoinOperator_none run
  have notAny' : ¬ c'.view.atAnyKeyword
      [.JOIN, .INNER, .LEFT, .RIGHT, .FULL, .CROSS, .NATURAL] = true := by
    intro any'
    obtain ⟨word, mem, at'⟩ := List.any_eq_true.mp any'
    refine quiet.not_keyword follows ?_ (fun at_ => notAny (List.any_eq_true.mpr ⟨word, mem, at_⟩))
      at'
    simp only [List.mem_cons, List.not_mem_nil, or_false] at mem
    rcases mem with rfl | rfl | rfl | rfl | rfl | rfl | rfl <;> rfl
  unfold optionalJoinOperator
  rw [run_eatSymbol_bind, if_neg (quiet.not_symbol follows rfl notComma),
    if_neg Bool.false_ne_true, run_sees_bind, if_neg notAny']
  rfl

/-- What the rows of a join have in common is read again.

**Proof sketch.** By the keyword that was next. `ON` is next again, and the condition is read again.
`USING` is next again and no `ON` is, and the columns are read again. If neither was next, neither
is next again, because what follows is quiet about both. -/
lemma optionalJoinConstraint_again (known : E.Known n) :
    E.Reruns n (Form.joinConstraint E.drift).maybe
      (E.Quiet (.keyword .ON :: .keyword .USING :: exprEnd))
      (optionalJoinConstraint E.rules) (optionalJoinConstraint E.again) := by
  intro c c' value c₁ rest run follows keeps safe quiet
  unfold optionalJoinConstraint at run ⊢
  rw [run_eatKeyword_bind] at run
  split at run
  · next at_ =>
    rw [if_pos rfl] at run
    obtain ⟨expr, c₂, inner, -, run⟩ := accepted_bind run
    obtain ⟨rfl, rfl⟩ := accepted_pure run
    have follows : E.Follows n c c' (.ofKeyword .ON :: ((Form.expr E.drift).words expr ++ rest)) :=
      follows
    refine follows.eatKeyword at_ (Nat.le_trans keeps (accepted_length inner)) fun follows _ => ?_
    rw [if_pos rfl]
    refine known.expr.step inner follows keeps safe (quiet.mono rfl)
      fun expr' c₂' _ same follows => .of_pure ⟨follows, ?_⟩
    exact congrArg (fun expr => some (JoinConstraint.condition expr)) same
  · next notOn =>
    rw [if_neg Bool.false_ne_true, run_eatKeyword_bind] at run
    split at run
    · next at_ =>
      rw [if_pos rfl] at run
      obtain ⟨names, c₂, inner, -, run⟩ := accepted_bind run
      obtain ⟨rfl, rfl⟩ := accepted_pure run
      have follows : E.Follows n c c' (.ofKeyword .USING ::
          (Form.name.commas.parens.words names ++ rest)) := by
        simpa [Form.maybe, Form.joinConstraint, JoinConstraint.pieces, Render.names, Form.parens,
          Render.parens, Form.wordsOf_commas E.drift .name (fun name => [.name name])
            (fun _ => rfl)] using follows
      have keeps₁ := Nat.le_trans keeps (accepted_length inner)
      refine skipKeyword (follows.notKeyword at_ keeps₁ (by decide)) ?_
      rw [if_neg Bool.false_ne_true]
      refine follows.eatKeyword at_ keeps₁ fun follows _ => ?_
      rw [if_pos rfl]
      exact (columnNames_again known.enough).plain (Form.commas_bare rfl) inner follows keeps
        (by exact fun _ node mem => by simp [Form.parens, Form.commas, Form.name] at mem) trivial
        fun _ _ follows => .of_pure ⟨follows, rfl⟩
    · next notUsing =>
      obtain ⟨rfl, rfl⟩ := accepted_pure run
      have follows : E.Follows n c c' rest := follows
      refine skipKeyword (quiet.not_keyword follows rfl notOn) ?_
      rw [if_neg Bool.false_ne_true]
      refine skipKeyword (quiet.not_keyword follows rfl notUsing) ?_
      exact .of_pure ⟨follows, rfl⟩

/-- What the rows of a join have in common takes nothing unless `ON` or `USING` is next. -/
lemma optionalJoinConstraint_skips {rules : Rules} :
    Skips E.dialect (Form.joinConstraint E.drift).maybe [.keyword .ON, .keyword .USING]
      (optionalJoinConstraint rules) := by
  intro c value c₁ run
  unfold optionalJoinConstraint at run
  rw [run_eatKeyword_bind] at run
  split at run
  · obtain ⟨expr, c₂, -, -, run⟩ := accepted_bind run
    obtain ⟨rfl, rfl⟩ := accepted_pure run
    exact .inr ⟨_, _, rfl, by simp⟩
  · rw [if_neg Bool.false_ne_true, run_eatKeyword_bind] at run
    split at run
    · obtain ⟨names, c₂, -, -, run⟩ := accepted_bind run
      obtain ⟨rfl, rfl⟩ := accepted_pure run
      exact .inr ⟨_, _, rfl, by simp⟩
    · obtain ⟨rfl, rfl⟩ := accepted_pure run
      exact .inl ⟨rfl, rfl⟩

/-- What goes on with a table reference up to a join. -/
def joinEnd : List Starter :=
  singleEnd ++ exprEnd ++ [.keyword .ON, .keyword .USING]

/-- The words of a join: those of the tables before it, the operator, the table and the
constraint. -/
lemma join_words (left : TableRef) (natural : Bool) (kind : JoinKind) (table : TableRef)
    (constraint : Option JoinConstraint) (span outer : Span) :
    (Form.tableRef E.drift).words (.join left ⟨natural, kind, table, constraint, span⟩ outer) =
      (Form.tableRef E.drift).words left ++ (Form.joinOperator.words (natural, kind) ++
        ((Form.tableRef E.drift).words table ++
          (Form.joinConstraint E.drift).maybe.words constraint)) := by
  have operator : Render.wordsOf E.drift (if kind = .comma then [.symbol .comma]
      else .blank :: (Render.wordsIf natural [.NATURAL] ++ Render.words kind.keywords)) =
      Form.joinOperator.words (natural, kind) := by
    cases kind <;> cases natural <;> rfl
  cases constraint <;>
    simp [Form.tableRef, TableRef.pieces, Join.pieces, operator, Form.maybe, Form.joinConstraint]

/-- An operator of a join starts with a word that ends what stands before a join. -/
lemma joinOperator_words (natural : Bool) (kind : JoinKind) :
    ∃ word ws, Form.joinOperator.words (natural, kind) = word :: ws ∧
      joinEnd.all (fun starter => !starter.first word.kind) = true := by
  cases kind <;> cases natural <;> exact ⟨_, _, rfl, rfl⟩

/-- A join is read again.

**Proof sketch.** The operator takes at least one token (`joinOperator_takes`), which is what makes
the loop advance. Its first word ends the tables before it (`joinOperator_words`). Then the
operator, the table and the constraint are read again, one after the other, and the result holds the
tables before, which agree by assumption. -/
lemma nextJoin_again (known : E.Known n) {left value : TableRef}
    (run : (nextJoin E.rules left).run E.dialect c = .accepted (some value) c₁)
    (reached : c.Reachable E.drift) :
    ∃ ws, (Form.tableRef E.drift).words value = (Form.tableRef E.drift).words left ++ ws ∧
      (∀ rest, E.Quiet joinEnd c (ws ++ rest)) ∧
      (E.Safe [.tableRef value] → E.Safe [.tableRef left] ∧ ∀ {left' c' rest},
        left'.unplaced = left.unplaced → E.Follows n c c' (ws ++ rest) →
        E.mode.left ≤ c₁.ahead.length → E.Quiet joinEnd c₁ rest →
        Accepts E.dialect (nextJoin E.again left') c' fun next c₁' =>
          c₁'.ahead.length < c'.ahead.length ∧ ∃ value', next = some value' ∧
            value'.unplaced = value.unplaced ∧ E.Follows n c₁ c₁' rest) := by
  unfold nextJoin at run
  rw [run_here_bind] at run
  obtain ⟨operator, c₂, run₂, le₂, run⟩ := accepted_bind run
  cases operator with
  | none => exact absurd (accepted_pure run).1 (by simp)
  | some operator =>
    obtain ⟨natural, kind⟩ := operator
    obtain ⟨table, c₃, run₃, le₃, run⟩ := accepted_bind run
    obtain ⟨constraint, c₄, run₄, le₄, run⟩ := accepted_bind run
    rw [run_spanFrom_bind] at run
    obtain ⟨eq, rfl⟩ := accepted_pure run
    cases eq
    have shrinks := joinOperator_takes reached run₂
    obtain ⟨word, ws, words, inert⟩ := joinOperator_words natural kind
    refine ⟨_, join_words .., fun rest => ?_, fun safe => ?_⟩
    · rw [words]
      exact .front inert
    · have below := safe_cons.mp (safe_singleton.mp safe).2
      have inner := safe_cons.mp (safe_singleton.mp below.2).2
      refine ⟨below.1, fun {left' c' rest} same follows keeps quiet => ?_⟩
      have whole := follows
      rw [List.append_assoc, List.append_assoc] at follows
      obtain ⟨c₂', run₂', follows⟩ := joinOperator_again run₂ follows (Nat.le_trans keeps le₂)
      unfold nextJoin
      refine Accepts.congr ?_ (run_here_bind ..)
      refine accepts_of_run run₂' ?_
      refine (singleTable_again known).step run₃ follows (Nat.le_trans keeps le₃) inner.1
        (optionalJoinConstraint_skips.quiet run₄ rfl (quiet.mono rfl))
        fun table' c₃' _ (same₃ : table'.unplaced = table.unplaced) follows => ?_
      refine (optionalJoinConstraint_again known).step run₄ follows keeps
        (by cases constraint <;> simp_all [Form.maybe, Form.joinConstraint])
        (quiet.mono rfl)
        fun constraint' c₄' _ same₄ follows => ?_
      have same₄ : constraint'.map JoinConstraint.unplaced =
        constraint.map JoinConstraint.unplaced := same₄
      refine .of_return ⟨?_, _, rfl, by simp [TableRef.unplaced, Join.unplaced, same, same₃, same₄],
        follows⟩
      rw [words] at whole
      exact whole.shorter follows (by omega) keeps

/-- **Table references with their joins are read again.**

**Proof sketch.** The loop that was run is taken apart into its turns and the one where it stopped.
Each turn read a join, which is read again (`nextJoin_again`), so the lemma about such loops applies
(`loops_again`). In the last turn no operator was next, and none is next again (`noJoin_again`). -/
lemma joinedTables_again (known : E.Known n) :
    E.Reruns n (.tableRef E.drift) (E.Quiet tableEnd) (joinedTables E.rules)
      (joinedTables E.again) := by
  intro c c' value c₁ rest run follows keeps safe quiet
  unfold joinedTables at run ⊢
  obtain ⟨first, c₂, run₁, -, run⟩ := accepted_bind run
  obtain ⟨c₃, loops, stop⟩ := accepted_iterate run
  unfold nextJoin at stop
  rw [run_here_bind] at stop
  obtain ⟨operator, c₄, noJoin, -, last⟩ := accepted_bind stop
  cases operator with
  | some operator =>
    obtain ⟨natural, kind⟩ := operator
    obtain ⟨table, c₃, run₃, le₃, last⟩ := accepted_bind last
    obtain ⟨constraint, c₄, run₄, le₄, last⟩ := accepted_bind last
    rw [run_spanFrom_bind] at last
    exact absurd (accepted_pure last).1 (by simp)
  | none =>
    obtain ⟨-, rfl⟩ := accepted_pure last
    obtain ⟨rfl, -⟩ := optionalJoinOperator_none noJoin
    obtain ⟨ws, words, quiets, again⟩ := loops_again (E := E) (n := n)
      (nextJoin E.again) (Form.tableRef E.drift).words
      (fun value value' => value'.unplaced = value.unplaced)
      (fun value => E.Safe [.tableRef value]) (E.Quiet joinEnd)
      (fun run reached => nextJoin_again known run reached) loops
      (accepted_reachable run₁ follows.reached)
    obtain ⟨safe₁, again⟩ := again safe
    rw [words, List.append_assoc] at follows
    refine (singleTable_again known).step run₁ follows (Nat.le_trans keeps loops.length) safe₁
      ((quiets rest (quiet.mono rfl)).mono rfl) fun first' c₂' _ same follows => ?_
    have enough := known.enough
    have short := follows.short
    refine (again same follows keeps (quiet.mono rfl) (by omega)
      fun {value' c₁'} same follows => ?_).mono fun value' c₁' post => ⟨post.2, post.1⟩
    refine ⟨none, c₁', ?_, rfl, follows⟩
    unfold nextJoin
    rw [run_here_bind, run_bind, noJoin_again quiet noJoin follows]
    rfl

end Rereading

end SqlTree
