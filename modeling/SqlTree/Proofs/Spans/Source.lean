import SqlTree.Proofs.Lexing
import SqlTree.Proofs.Malformed
import SqlTree.Proofs.Spans.Schema

set_option autoImplicit false

/-!
# Where the nodes of a source are

The nodes of an accepted source are cut out of it by its tokens: each has the span from the start of
a token to the end of one, its children are inside it, and no two of them overlap. Only the node of
a drift file without entries is empty.

## Main definitions

* `SqlTree.Entry.roots` — the outermost nodes of a tree.
* `SqlTree.Node.Nested` — a node is cut out of a source by tokens, and contains its children.

## Main results

* `SqlTree.Grammar.driftFile_leads` — where a drift file is placed.
* `SqlTree.Parser.Leads.accepted` — what leads somewhere by its steps ends there when it is run.
* `SqlTree.Entry.nodes_placed` — every node of an accepted source is placed between two tokens.
* `SqlTree.Entry.nodes_nested` — every node of an accepted source is nested.
-/

namespace SqlTree

/-! ## Entries of a drift file -/

/-- A statement and its node have the same span. -/
lemma Statement.span_node (statement : Statement) : statement.node.span = statement.span := by
  rcases statement with (_ | _ | _ | _) | _ | _ | _ | _ | _ <;> rfl

/-- The node of a drift file without entries. -/
def Node.isEmptyFile : Node → Bool
  | .driftFile file => file.entries.isEmpty
  | _ => false

namespace Tape

/-- An entry of a file is placed between two indices: its span goes from the one to the other, and
its node is placed between them. -/
structure PlacesEntry (tape : Tape) (i j : Nat) (entry : DriftEntry) : Prop where
  span : entry.span = tape.extent i j
  node : Row tape.Places i j [entry.node]

/-- A file without entries is placed at an index: it is empty. -/
structure PlacesEmpty (tape : Tape) (i : Nat) (node : Node) : Prop where
  isEmptyFile : node.isEmptyFile = true
  starts : tape.Starts i node.span
  stop : node.span.stop = (tape.token i).span.start

/-- An entry with the span of its node is placed where the node is. -/
lemma PlacesEntry.of_node {tape : Tape} {i j : Nat} {entry : DriftEntry}
    (span : entry.span = entry.node.span) (placed : tape.Places i j entry.node) :
    tape.PlacesEntry i j entry :=
  ⟨span.trans placed.span, placed.row⟩

end Tape

namespace Grammar

open SqlTree.Parser

variable {tape : Tape} {rules : Rules}

/-! ## Lists of entries -/

section

variable {α : Type} {entry : Parser α} {places : Nat → Nat → α → Prop}
  (leads : ∀ i, entry.Leads tape i fun value j => i < j ∧ places i j value)

include leads

/-- A further entry of a file is placed in a row: nothing, or one entry after the semicolons before
it. -/
lemma nextEntry_leads (i : Nat) : (nextEntry rules entry).Leads tape i fun value j =>
    Row places i j value.toList := by
  unfold nextEntry
  refine .skip fun _ _ le => ?_
  refine .ifSees (.of_pure (.nil le)) ?_
  refine (leads _).bind fun value _ _ ⟨lt, placed⟩ => ?_
  refine .skip fun _ _ le' => ?_
  exact .of_pure ((Row.single placed lt).mono le le')

/-- The entries of a file are placed one after the other. -/
lemma entries_leads (i : Nat) : (entries rules entry).Leads tape i fun list j =>
    Row places i j list := by
  refine .many (fun list j => Row places i j list) _
    (fun list j row => (nextEntry_leads leads j).mono fun value _ _ row' => ?_)
    (.nil (Nat.le_refl _))
  cases value with
  | none => exact row.mono (Nat.le_refl _) row'.le
  | some value => exact row.append row'

end

/-! ## Hints about variables -/

variable (laid : rules.Laid tape)

omit laid in
/-- The type of a variable is laid out, if it is there. -/
lemma variableType_lays :
    (variableType rules).Lays tape fun type => Node.maybe .typeName type.1 := by
  unfold variableType
  intro i
  refine .ifKeyword ?_ (.of_pure (.nil (by omega)))
  refine (typeName_places _ _).bind fun _ _ _ type => ?_
  refine .ifSees ?_ (.of_pure (type.row.mono (by omega) (Nat.le_refl _)))
  refine .skip fun _ _ _ => .skip fun _ _ _ => ?_
  exact .of_pure (type.row.mono (by omega) (by omega))

omit laid in
/-- A typed parameter is placed. -/
lemma typedVariable_places : (typedVariable rules).Places tape .statementParameter := by
  intro i
  refine .here fun start starts => ?_
  refine .skip fun required _ _ => ?_
  refine .current ?_
  split
  · refine .advance fun _ => ?_
    refine (variableType_lays _).bind fun parts _ _ type => ?_
    exact .node starts (by omega) rfl (type.mono (by omega) (Nat.le_refl _))
  · trivial

include laid

/-- A parameter with a default value is placed. -/
lemma defaultValue_places (name : String) :
    (defaultValue rules name).Places tape .statementParameter := by
  unfold defaultValue
  intro i
  refine .here fun start starts => ?_
  refine .advance fun _ => ?_
  refine .skip fun _ _ _ => ?_
  refine (laid.expr _).bind fun _ _ _ value => ?_
  exact .node starts (by omega) rfl (value.row.mono (by omega) (Nat.le_refl _))

/-- A parameter of a statement is placed, of either form. -/
lemma statementParameter_places : (statementParameter rules).Places tape .statementParameter :=
  fun i => by
  refine .view ?_
  split
  · exact defaultValue_places laid _ i
  · exact typedVariable_places i

/-- The parameters of a statement are laid out in a row. -/
lemma statementParameters_lays :
    (statementParameters rules).Lays tape (Node.each .statementParameter) := by
  intro i
  have list : Lays tape (do
      if ← sees (·.atSymbol .rightParen) then
        return []
      else
        commaSeparated rules.limit (statementParameter rules)) (Node.each .statementParameter) :=
    fun i => .ifSees (.of_pure (.nil (Nat.le_refl _)))
      ((statementParameter_places laid).commaSeparated _ i)
  exact (list.parenthesized.wheneverList i).bind fun _ _ _ row => .of_pure row

/-! ## Entries -/

/-- A declared statement is placed. -/
lemma declaredStatement_places : (declaredStatement rules).Places tape .declared := by
  unfold declaredStatement
  intro i
  refine .here fun start starts => ?_
  refine .identifier fun name => ?_
  refine (statementParameters_lays laid _).bind fun _ _ _ parameters => ?_
  refine .skip fun resultClass _ _ => ?_
  refine .expectSymbol fun _ _ => ?_
  refine (statement_places laid _).bind fun _ _ _ statement => ?_
  exact .node starts (by omega) rfl
    ((parameters.append (statement.row.mono (by omega) (Nat.le_refl _))).mono (by omega)
    (Nat.le_refl _))

/-- An entry of a file takes tokens, and is placed between them. -/
lemma driftEntry_leads (i : Nat) : (driftEntry rules).Leads tape i fun entry j =>
    i < j ∧ tape.PlacesEntry i j entry := by
  refine .view ?_
  dsimp only
  split
  · refine .advance fun _ => ?_
    refine .advance fun _ => ?_
    refine .returns .token (by omega) ⟨by omega, ?_⟩
    exact .of_node rfl (.of_row (by omega) rfl (.nil (by omega)))
  · refine .ite ?_ <| .ite ?_ ?_
    · refine .advance fun _ => ?_
      refine .expectSymbol fun _ _ => ?_
      refine (statement_places laid _).bind fun _ _ _ statement => ?_
      exact .returns .token (by omega)
        ⟨by omega, rfl, statement.row.mono (by omega) (Nat.le_refl _)⟩
    · exact (declaredStatement_places laid i).bind fun _ _ _ placed =>
        .of_pure ⟨placed.lt, .of_node rfl placed⟩
    · exact (statement_places laid i).bind fun statement _ _ placed =>
        .of_pure ⟨placed.lt, .of_node statement.span_node.symm placed⟩

/-! ## Whole sources -/

/-- **A drift file is placed from its first entry to its last one.** Without entries it is empty and
stands where the first token does. -/
theorem driftFile_leads (i : Nat) : (driftFile rules).Leads tape i fun file j =>
    (∃ a b, b ≤ j ∧ tape.Places a b (.driftFile file)) ∨ tape.PlacesEmpty i (.driftFile file) := by
  refine .here fun start starts => .require ?_
  refine (entries_leads (driftEntry_leads laid) i).bind fun list j _ row => .of_pure ?_
  rcases List.eq_nil_or_concat list with rfl | ⟨_, _, eq⟩
  · exact .inr ⟨rfl, ⟨starts.start, starts.line, starts.column⟩, starts.start⟩
  · obtain ⟨a, b, c, d, head, last, isHead, isLast, first, second, -, le, le', lt, inside, row⟩ :=
      row.between (by simp [eq])
    refine .inl ⟨a, d, inside, .of_row lt ?_ (row.map fun _ _ _ placed => placed.node)⟩
    change entriesSpan start list = _
    rw [entriesSpan, isHead, isLast]
    change head.span.merge last.span = _
    rw [first.span, second.span, Tape.merge_extent le le']

end Grammar

/-! ## Trees -/

namespace Entry

/-- The outermost nodes of a tree. -/
def roots : (entry : Entry) → entry.Tree → List Node
  | .statement, tree => [Statement.node tree]
  | .expression, tree => [.expr tree]
  | .script, trees => List.map Statement.node trees
  | .driftFile, tree => [.driftFile tree]

open Grammar SqlTree.Parser in
/-- The outermost nodes of a tree are placed. -/
lemma parser_leads (entry : Entry) {tape : Tape} {rules : Rules}
    (laid : rules.Laid tape) (i : Nat) :
    (entry.parser rules).Leads tape i fun tree j => ∀ root ∈ entry.roots tree,
      (∃ a b, b ≤ j ∧ tape.Places a b root) ∨ tape.PlacesEmpty i root := by
  cases entry with
  | statement =>
    refine (statement_places laid i).bind fun statement j _ placed => ?_
    refine .skip fun _ _ _ => .skip fun _ _ le => .of_pure ?_
    intro root mem
    obtain rfl := List.mem_singleton.mp mem
    exact .inl ⟨i, j, by omega, placed⟩
  | expression =>
    refine (laid.expr i).bind fun expr j _ placed => ?_
    refine .skip fun _ _ le => .of_pure ?_
    intro root mem
    obtain rfl := List.mem_singleton.mp mem
    exact .inl ⟨i, j, le, placed⟩
  | script =>
    have list : (entries rules (Grammar.statement rules)).Leads tape i fun list j =>
        Row (fun i j statement => tape.Places i j (Statement.node statement)) i j list :=
      entries_leads
        (fun i => (statement_places laid i).mono fun _ _ _ placed => ⟨placed.lt, placed⟩) i
    refine list.mono fun _ j _ row root mem => ?_
    obtain ⟨a, b, -, -, le, placed⟩ := (row.map fun _ _ _ placed => placed.row).exists_of_mem mem
    exact .inl ⟨a, b, le, placed⟩
  | driftFile =>
    refine (driftFile_leads laid i).mono fun _ _ _ placed root mem => ?_
    obtain rfl := List.mem_singleton.mp mem
    exact placed

end Entry

/-! ## The tape of a source -/

namespace Cursor

variable {drift : Bool} {source : String}

/-- The start of a source: its tokens are ahead, and the empty one at its end comes last. -/
lemma ofSource_eq (drift : Bool) (source : String) : ∃ others last,
    tokenize drift source = others ++ [last] ∧
    ofSource drift source = ⟨source, others.headD last, others, last⟩ ∧
    last.span.start = source.utf8ByteSize ∧ last.span.stop = source.utf8ByteSize ∧
    ∀ token ∈ others, token.kind ≠ .endOfInput ∧ token.span.start < token.span.stop := by
  obtain ⟨others, last, tokens, kind, -, start, stop, each⟩ := (lossless_tokenize drift source).ends
  refine ⟨others, last, tokens, ?_, start, stop, each⟩
  rw [ofSource, tokens, ofTokens_concat source (fun token mem => (each token mem).1) kind]

/-- A token that is seen from the start is one of the source. -/
lemma peek_mem (drift : Bool) (source : String) (i : Nat) :
    (ofSource drift source).peek i ∈ tokenize drift source := by
  obtain ⟨others, last, tokens, start, -⟩ := ofSource_eq drift source
  rw [tokens, start]
  change others.getD i last ∈ _
  rcases Nat.lt_or_ge i others.length with lt | ge
  · rw [List.getD_eq_getElem _ _ lt]
    exact List.mem_append_left _ (List.getElem_mem lt)
  · rw [List.getD_eq_default _ _ ge]
    exact List.mem_append_right _ List.mem_cons_self

/-- A token before the end of input is not empty. -/
lemma peek_proper {i : Nat} (lt : i < (ofSource drift source).ahead.length) :
    ((ofSource drift source).peek i).kind ≠ .endOfInput ∧
      ((ofSource drift source).peek i).span.start < ((ofSource drift source).peek i).span.stop := by
  obtain ⟨others, last, -, start, -, -, each⟩ := ofSource_eq drift source
  have mem : (ofSource drift source).peek i ∈ others := by
    rw [start] at lt ⊢
    change others.getD i last ∈ _
    rw [List.getD_eq_getElem _ _ lt]
    exact List.getElem_mem lt
  exact each _ mem

/-- The tokens of a source stand one after the other. -/
lemma peek_ordered {i j : Nat} (lt : i < j) :
    ((ofSource drift source).peek i).span.stop ≤ ((ofSource drift source).peek j).span.start := by
  have lossless := lossless_tokenize drift source
  obtain ⟨others, last, tokens, eq, start, stop, -⟩ := ofSource_eq drift source
  have ordered := lossless.ordered
  rw [tokens, List.pairwise_append] at ordered
  obtain ⟨inner, -, before⟩ := ordered
  rw [eq]
  change (others.getD i last).span.stop ≤ (others.getD j last).span.start
  rcases Nat.lt_or_ge j others.length with inside | ge
  · rw [List.getD_eq_getElem _ _ inside, List.getD_eq_getElem _ _ (by omega)]
    exact List.pairwise_iff_getElem.mp inner i j (by omega) inside lt
  · rw [List.getD_eq_default _ _ ge, start]
    exact (lossless.inside _ (by simpa [eq, peek] using peek_mem drift source i)).2

end Cursor

namespace Tape

/-- The tokens of a source. -/
def ofSource (drift : Bool) (source : String) : Tape where
  token i := (Cursor.ofSource drift source).peek i
  count := (Cursor.ofSource drift source).ahead.length
  ordered _ _ lt := Cursor.peek_ordered lt
  forward i := ((lossless_tokenize drift source).inside _ (Cursor.peek_mem drift source i)).1
  nonempty _ lt := (Cursor.peek_proper lt).2

variable {drift : Bool} {source : String} {i j : Nat}

/-- A token of the tape is what is seen from the start of the source. -/
lemma token_ofSource (i : Nat) :
    (ofSource drift source).token i = (Cursor.ofSource drift source).peek i := rfl

/-- What is seen after some tokens of a source have been taken. -/
lemma view_ofSource (le : i ≤ (ofSource drift source).count) :
    (Cursor.advance^[i] (Cursor.ofSource drift source)).view = (ofSource drift source).view i := by
  have peek (distance : Nat) :=
    Cursor.peek_iterate_advance (Cursor.ofSource drift source) i distance
  have previous : (Cursor.advance^[i] (Cursor.ofSource drift source)).previous =
      (Cursor.ofSource drift source).peek (i - 1) := by
    cases i with
    | zero =>
      obtain ⟨others, last, -, start, -⟩ := Cursor.ofSource_eq drift source
      rw [Function.iterate_zero_apply, start]
      cases others <;> rfl
    | succ i => exact Cursor.previous_iterate le
  simp only [Cursor.view, previous, peek]
  rfl

end Tape

/-! ## Runs -/

/-- **What a parser leads to holds where its run ends.**

**Proof sketch.** By induction on the parser, for any place on the tape: each step of the run is one
of the walk along the tape. What is seen from a cursor is what the tape shows at its place
(`Tape.view_ofSource`). A token is taken only where one is left, because an orderly parser never
takes the end of the source. -/
theorem Parser.Leads.accepted {α : Type} {parser : Parser α} {post : α → Nat → Prop}
    {drift : Bool} {source : String} {i : Nat}
    (leads : parser.Leads (.ofSource drift source) i post)
    (le : i ≤ (Tape.ofSource drift source).count) {origin : Cursor} {good : α → Prop}
    (orderly : parser.Orderly origin (Cursor.advance^[i] (.ofSource drift source)) good)
    {dialect : Dialect} {value : α} {stop : Cursor}
    (run : parser.run dialect (Cursor.advance^[i] (.ofSource drift source)) =
      .accepted value stop) :
    ∃ j ≤ (Tape.ofSource drift source).count,
      stop = Cursor.advance^[j] (.ofSource drift source) ∧ post value j := by
  induction parser generalizing i with
  | done other =>
    obtain ⟨rfl, rfl⟩ := Outcome.accepted.inj run
    exact ⟨i, le, rfl, leads⟩
  | reject error => simp [Parser.run] at run
  | look next ih =>
    rw [Parser.run] at run
    rw [Parser.Orderly] at orderly
    rw [Tape.view_ofSource le] at run orderly
    exact ih _ leads le orderly run
  | take next ih =>
    obtain ⟨proper, orderly⟩ := orderly
    obtain ⟨ahead, last, -⟩ := Cursor.iterate_advance (.ofSource drift source) i
    have ends : (Cursor.advance^[i] (.ofSource drift source)).Ends := by
      rw [Cursor.Ends, last]
      exact (Cursor.Reachable.ofSource source).ends.1
    have inside : i < (Tape.ofSource drift source).count := by
      have some := Cursor.ahead_of_proper ends proper
      rwa [ahead, ne_eq, List.drop_eq_nil_iff, Nat.not_le] at some
    rw [Parser.run_take proper.sound] at run
    rw [← Function.iterate_succ_apply' Cursor.advance] at run orderly
    rw [Cursor.current, Cursor.peek_iterate_advance] at run orderly
    exact ih _ (leads inside) inside orderly run
  | demand feature construct span next ih =>
    rw [Parser.run] at run
    split at run
    · exact ih _ leads le orderly.2 run
    · cases run
  | ask next ih => exact ih _ (leads _) le (orderly.2 _) run
  | read start next ih => exact ih _ (leads _) le (orderly.2 _) run

/-! ## Nested nodes -/

/-- A node is cut out of a source by tokens: it starts where one starts and ends where one ends. Its
children are inside it, and no two of them overlap. -/
structure Node.Nested (drift : Bool) (source : String) (node : Node) : Prop where
  inside : node.span.start ≤ node.span.stop ∧ node.span.stop ≤ source.utf8ByteSize
  starts : ∃ token ∈ tokenize drift source, token.span.start = node.span.start
  nonempty : node.isEmptyFile = false → node.span.start < node.span.stop
  ends : node.isEmptyFile = false → ∃ token ∈ tokenize drift source,
    token.kind ≠ .endOfInput ∧ token.span.stop = node.span.stop
  contains : ∀ child ∈ node.children, node.span.contains child.span = true
  disjoint : node.children.Pairwise fun child other =>
    child.span.stop ≤ other.span.start ∨ other.span.stop ≤ child.span.start

namespace Tape

variable {drift : Bool} {source : String} {i j : Nat} {node : Node}

/-- What the tape shows is a token of the source. -/
lemma token_mem (drift : Bool) (source : String) (i : Nat) :
    (ofSource drift source).token i ∈ tokenize drift source :=
  Cursor.peek_mem drift source i

/-- Before the end, the tape shows no end of the source. -/
lemma token_proper (lt : i < (ofSource drift source).count) :
    ((ofSource drift source).token i).kind ≠ .endOfInput :=
  (Cursor.peek_proper lt).1

/-- A node that is placed between two tokens of a source is nested.

**Proof sketch.** Its span starts where the first token does and ends where the last one does. As
the tokens are ordered and not empty (`lossless_tokenize`), the span is not empty, and the last
token is not the end of the source. That it contains its children, and that these do not overlap, is
part of being placed. -/
lemma Places.nested (placed : (ofSource drift source).Places i j node)
    (inside : j ≤ (ofSource drift source).count) : node.Nested drift source := by
  have lossless := lossless_tokenize drift source
  have lt := placed.lt
  have first := token_mem drift source i
  have last := token_mem drift source (j - 1)
  have nonempty : node.span.start < node.span.stop := by
    rw [placed.span]
    exact extent_nonempty lt inside
  have start : node.span.start = ((ofSource drift source).token i).span.start := by
    rw [placed.span, extent]
  have stop : node.span.stop = ((ofSource drift source).token (j - 1)).span.stop := by
    rw [placed.span, extent]
  have proper : ((ofSource drift source).token (j - 1)).kind ≠ .endOfInput :=
    token_proper (by omega)
  exact {
    inside := ⟨Nat.le_of_lt nonempty, stop ▸ (lossless.inside _ last).2⟩
    starts := ⟨_, first, start.symm⟩
    nonempty := fun _ => nonempty
    ends := fun _ => ⟨_, last, proper, stop.symm⟩
    contains := fun _ => placed.contains
    disjoint := placed.disjoint }

/-- A file without entries has no children. -/
lemma PlacesEmpty.children (empty : (ofSource drift source).PlacesEmpty i node) :
    node.children = [] := by
  have isEmptyFile := empty.isEmptyFile
  cases node with
  | driftFile file => rw [Node.children, List.isEmpty_iff.mp isEmptyFile]; rfl
  | _ => exact absurd isEmptyFile Bool.false_ne_true

/-- A file without entries is nested: its empty span starts at a token. -/
lemma PlacesEmpty.nested (empty : (ofSource drift source).PlacesEmpty i node) :
    node.Nested drift source := by
  have first := token_mem drift source i
  have inside := (lossless_tokenize drift source).inside _ first
  have exempt : ¬ node.isEmptyFile = false := by simp [empty.isEmptyFile]
  exact {
    inside := ⟨Nat.le_of_eq (empty.starts.start.trans empty.stop.symm),
      empty.stop ▸ Nat.le_trans inside.1 inside.2⟩
    starts := ⟨_, first, empty.starts.start.symm⟩
    nonempty := fun notEmpty => absurd notEmpty exempt
    ends := fun notEmpty => absurd notEmpty exempt
    contains := by simp [empty.children]
    disjoint := by simp [empty.children] }

end Tape

namespace Entry

/-- **The nodes of an accepted source are placed**: each between two of its tokens, but for that of
a drift file without entries. -/
lemma nodes_placed (entry : Entry) (dialect : Dialect) (source : String) {tree : entry.Tree}
    (accepted : entry.parse dialect source = .ok tree) {root : Node}
    (isRoot : root ∈ entry.roots tree) :
    (∃ i j, j ≤ (Tape.ofSource dialect.isDrift source).count ∧
      (Tape.ofSource dialect.isDrift source).Places i j root) ∨
      root.walk = [root] ∧ (Tape.ofSource dialect.isDrift source).PlacesEmpty 0 root := by
  rw [parse_eq] at accepted
  obtain ⟨stop, run⟩ := Outcome.accepted_of_result accepted
  have laid : (Grammar.rulesFor (dialect.start source).ahead.length).Laid
      (.ofSource dialect.isDrift source) := Grammar.rules_laid _ _
  obtain ⟨j, le, -, placed⟩ := (entry.parser_leads laid 0).accepted (Nat.zero_le _)
    (entry.start_orderly dialect source) run
  obtain ⟨a, b, inside, placed⟩ | empty := placed root isRoot
  · exact .inl ⟨a, b, by omega, placed⟩
  · exact .inr ⟨by rw [Node.walk_eq, empty.children]; rfl, empty⟩

/-- **The nodes of an accepted source are nested.** Each starts where a token starts and ends where
one ends, and is not empty, unless it is that of a drift file without entries. Children are inside
their parents, and no two of them overlap. -/
theorem nodes_nested (entry : Entry) (dialect : Dialect) (source : String) {tree : entry.Tree}
    (accepted : entry.parse dialect source = .ok tree) :
    ∀ root ∈ entry.roots tree, ∀ node ∈ root.walk, node.Nested dialect.isDrift source := by
  intro root isRoot node mem
  obtain ⟨i, j, inside, placed⟩ | ⟨walk, empty⟩ :=
    entry.nodes_placed dialect source accepted isRoot
  · obtain ⟨c, d, -, last, placed⟩ := placed.walk mem
    exact placed.nested (by omega)
  · obtain rfl := List.mem_singleton.mp (walk ▸ mem)
    exact empty.nested

/-- The nodes of a sum. -/
theorem nodes_nested_sum :
    Entry.expression.parse .generic "a + b" =
      .ok (.binary (.reference none none "a" ⟨0, 1, 1, 1⟩) .add
        (.reference none none "b" ⟨4, 5, 1, 5⟩) ⟨0, 5, 1, 1⟩) ∧
    ∀ node ∈ (Node.expr (.binary (.reference none none "a" ⟨0, 1, 1, 1⟩) .add
        (.reference none none "b" ⟨4, 5, 1, 5⟩) ⟨0, 5, 1, 1⟩)).walk, node.Nested false "a + b" :=
  ⟨rfl, nodes_nested .expression .generic "a + b" rfl _ List.mem_cons_self⟩

/-- The node of a file without entries ends where no token does. -/
theorem nodes_of_separator :
    Entry.driftFile.parse .drift ";" = .ok ⟨[], ⟨0, 0, 1, 1⟩⟩ ∧
    ∃ node ∈ (Node.driftFile ⟨[], ⟨0, 0, 1, 1⟩⟩).walk,
      ∀ token ∈ tokenize Dialect.drift.isDrift ";", token.span.stop ≠ node.span.stop := by
  have tokens : tokenize Dialect.drift.isDrift ";" =
      [⟨.symbol .semicolon, ";", ⟨0, 1, 1, 1⟩⟩, ⟨.endOfInput, "", ⟨1, 1, 1, 2⟩⟩] := rfl
  refine ⟨rfl, .driftFile ⟨[], ⟨0, 0, 1, 1⟩⟩, ?_, ?_⟩
  · rw [Node.walk_eq]
    exact List.mem_cons_self
  · rw [tokens]
    simp [Node.span]

end Entry

end SqlTree
