import SqlTree.Proofs.Legible.Statement
import SqlTree.Proofs.Origins.Faithful
import SqlTree.Proofs.Reread.Source

set_option autoImplicit false

/-!
# Round trips

What has been read from a source is written as a text that reads back as the same tree, but for the
spans. The text is scanned into the words that the tree stands for, and from these words the tree is
read again.

## Main definitions

* `SqlTree.Entry.render` — the text of the tree of a source.
* `SqlTree.Entry.IsPlain` — the tree has none of the two constructs that the text does not keep.
* `SqlTree.Entry.IsFaithful` — the tree has none of the nodes that are written as something else.

## Main results

* `SqlTree.Entry.parse_render_of_isFaithful` — trees read back if all their nodes are faithful.
* `SqlTree.Entry.parse_render` — statements, expressions and scripts read back.
* `SqlTree.DriftFile.parse_render_entries` — drift files read back.
-/

namespace SqlTree

open Render Grammar SqlTree.Parser

namespace Entry

/-- The text of the tree of a source; each statement of a script ends with a semicolon and stands on
a line of its own. -/
def render : (entry : Entry) → entry.Tree → String
  | .statement => Statement.render
  | .expression => Expr.render
  | .script => fun list => String.join (List.map (fun part => Statement.render part ++ ";\n") list)
  | .driftFile => DriftFile.render

/-- Nowhere in the tree is a comparison with `DISTINCT` or a call of a function whose name is in
quotes. -/
def IsPlain (entry : Entry) (drift : Bool) (source : String) (tree : entry.Tree) : Prop :=
  ∀ root ∈ entry.roots tree, ∀ node ∈ root.walk, node.IsPlain drift source

/-- Nowhere in the tree is a node that is written as something else: a comparison with `IS` or
`IS NOT` whose right operand starts with a word that goes on with the operator, or a call of a
function whose name is a keyword that names no function there. -/
def IsFaithful (entry : Entry) (drift : Bool) (tree : entry.Tree) : Prop :=
  ∀ root ∈ entry.roots tree, ∀ node ∈ root.walk, node.Faithful drift

variable {entry : Entry} {dialect : Dialect} {source : String} {tree : entry.Tree}

/-! ## The text of a tree -/

/-- The text of a tree is that of its pieces. -/
lemma text_pieces (entry : Entry) (tree : entry.Tree) :
    Render.text (entry.pieces tree) = entry.render tree := by
  cases entry with
  | statement | expression | driftFile => rfl
  | script =>
    refine String.toList_inj.mp ?_
    induction tree with
    | nil => rfl
    | cons statement others ih =>
      simp only [pieces, render, String.toList_join] at ih
      simp [pieces, render, ih, Statement.render, Piece.text, Symbol.text]

/-- A statement is legible if all its nodes can be written. -/
lemma legible_statement {drift : Bool} (statement : Statement)
    (isWritten : ∀ node ∈ statement.node.walk, node.IsWritten drift) :
    Legible drift statement.pieces :=
  Node.pieces_statement statement ▸ Node.legible_of_walk isWritten

/-- A tree is legible if all its nodes can be written. -/
lemma legible_pieces {drift : Bool}
    (isWritten : ∀ root ∈ entry.roots tree, ∀ node ∈ root.walk, node.IsWritten drift) :
    Legible drift (entry.pieces tree) := by
  cases entry with
  | statement => exact legible_statement tree (isWritten _ List.mem_cons_self)
  | expression =>
    have whole := Node.legible_of_walk (isWritten (.expr tree) List.mem_cons_self)
    exact whole
  | driftFile =>
    have whole := Node.legible_of_walk (isWritten (.driftFile tree) List.mem_cons_self)
    exact whole
  | script =>
    exact Node.legible_lines fun statement mem =>
      legible_statement statement (isWritten _ (List.mem_map_of_mem mem))

/-! ## Reading back -/

/-- The nodes of a tree have been read from its source. -/
lemma isRead_of_parse (accepted : entry.parse dialect source = .ok tree) :
    ∀ root ∈ entry.roots tree, ∀ node ∈ root.walk, node.IsRead (.within dialect source) := by
  rw [parse_eq] at accepted
  obtain ⟨stop, run⟩ := Outcome.accepted_of_result accepted
  exact entry.parser_traced (.within dialect source) _ _ ⟨.ofSource source, rfl⟩ run trivial

/-- The text of a tree is scanned into the words that the tree stands for. -/
lemma spells_render (accepted : entry.parse dialect source = .ok tree) :
    (dialect.start (entry.render tree)).Spells
      ((Form.source dialect.isDrift entry).words tree) := by
  have legible : Legible dialect.isDrift (entry.pieces tree) :=
    legible_pieces fun root isRoot node mem =>
      (isRead_of_parse accepted root isRoot node mem).isWritten
  have scans := legible Scans.nil (by simp)
  rw [List.append_nil, List.append_nil, text_pieces] at scans
  exact scans.spells

/-- **What has been read reads back** from its text, if no node is written as something else.

**Proof sketch.** The text is scanned into the words of the tree, so the second reading follows the
first one from the start of both sources. -/
theorem parse_render_of_isFaithful (accepted : entry.parse dialect source = .ok tree)
    (faithful : entry.IsFaithful dialect.isDrift tree) :
    ∃ again, entry.parse dialect (entry.render tree) = .ok again ∧
      entry.unplaced again = entry.unplaced tree := by
  let text := entry.render tree
  let count := (dialect.start source).ahead.length
  let count' := (dialect.start text).ahead.length
  let E : Rereading :=
    ⟨dialect, .written, rulesFor count, rules (count' + 1) (count + (count' + 1))⟩
  have known : E.Known (count' + 1) := Rereading.known dialect _ (Nat.le_refl _) (by omega)
  have reached (source : String) : (dialect.start source).Reachable dialect.isDrift :=
    .ofSource source
  have follows : E.Follows (count' + 1) (dialect.start source) (dialect.start text)
      ((Form.source E.drift entry).words tree) :=
    ⟨reached source, reached text, Nat.lt_succ_self _, spells_render accepted⟩
  have run := accepted
  rw [parse_eq] at run
  obtain ⟨stop, run⟩ := Outcome.accepted_of_result run
  obtain ⟨again, place, run', same⟩ :=
    Rereading.source_again known rfl entry run follows fun _ => faithful
  refine ⟨again, ?_, same⟩
  have bounds : (entry.parser E.again).run dialect (dialect.start text) =
      bounded dialect entry.parser (dialect.start text) :=
    run_of_enough entry (reached text).ends.1 (Nat.lt_succ_self _) (by omega)
  rw [parse_eq, ← bounds, run']
  rfl

/-- In a tree that has been read, all nodes are faithful if they are neither calls of functions
whose names are in quotes nor comparisons with `DISTINCT`. -/
lemma isFaithful_of_isPlain (accepted : entry.parse dialect source = .ok tree)
    (plain : entry.IsPlain dialect.isDrift source tree) : entry.IsFaithful dialect.isDrift tree :=
  fun root isRoot node mem =>
    (isRead_of_parse accepted root isRoot node mem).faithful (plain root isRoot node mem)

/-- **Whatever is accepted reads back** from the text that it is written as, but for its spans. -/
theorem parse_render (entry : Entry) (dialect : Dialect) (source : String) {tree : entry.Tree}
    (accepted : entry.parse dialect source = .ok tree)
    (plain : entry.IsPlain dialect.isDrift source tree) :
    ∃ again, entry.parse dialect (entry.render tree) = .ok again ∧
      entry.unplaced again = entry.unplaced tree :=
  parse_render_of_isFaithful accepted (isFaithful_of_isPlain accepted plain)

/-- A test for null is written in another form than it was read in, and there are fewer
semicolons. -/
theorem parse_render_notNull :
    let test := Expr.isNull (.reference none none "a" ⟨8, 9, 1, 9⟩) true ⟨8, 17, 1, 9⟩
    let values : Query :=
      ⟨none, .values ⟨[[test]], ⟨0, 18, 1, 1⟩⟩, [], none, none, ⟨0, 18, 1, 1⟩⟩
    let delete : Delete := ⟨none, none, "t", none, none, none, ⟨20, 33, 1, 21⟩⟩
    let list : List Statement := [.data (.select values), .data (.delete delete)]
    Entry.script.parse .generic "VALUES (a NOTNULL);;DELETE FROM t" = .ok list ∧
      Entry.script.IsPlain false "VALUES (a NOTNULL);;DELETE FROM t" list ∧
      ∃ again, Entry.script.parse .generic "VALUES (a IS NOT NULL);\nDELETE FROM t;\n" =
        .ok again ∧ again.map Statement.unplaced = list.map Statement.unplaced := by
  intro test values delete list
  have accepted : Entry.script.parse .generic "VALUES (a NOTNULL);;DELETE FROM t" = .ok list := rfl
  have first : ∀ node ∈ (Node.query values).walk,
      node.IsPlain false "VALUES (a NOTNULL);;DELETE FROM t" := by
    refine Node.forall_walk_iff.mpr ⟨⟨rfl, rfl⟩, List.forall_mem_singleton.mpr ?_⟩
    refine Node.forall_walk_iff.mpr ⟨⟨rfl, rfl⟩, List.forall_mem_singleton.mpr ?_⟩
    refine Node.forall_walk_iff.mpr ⟨⟨rfl, rfl⟩, List.forall_mem_singleton.mpr ?_⟩
    exact Node.forall_walk_iff.mpr ⟨⟨rfl, rfl⟩, fun _ mem => nomatch mem⟩
  have second : ∀ node ∈ (Node.delete delete).walk,
      node.IsPlain false "VALUES (a NOTNULL);;DELETE FROM t" :=
    Node.forall_walk_iff.mpr ⟨⟨rfl, rfl⟩, fun _ mem => nomatch mem⟩
  have plain : Entry.script.IsPlain false "VALUES (a NOTNULL);;DELETE FROM t" list :=
    List.forall_mem_cons.mpr ⟨first, List.forall_mem_singleton.mpr second⟩
  have text : Entry.script.render list = "VALUES (a IS NOT NULL);\nDELETE FROM t;\n" := by
    decide +kernel
  exact ⟨accepted, plain, text ▸ parse_render .script .generic _ accepted plain⟩

end Entry

/-- **Drift files read back** with the same entries in the same order. -/
theorem DriftFile.parse_render_entries (dialect : Dialect) (source : String) {file : DriftFile}
    (accepted : DriftFile.parse dialect source = .ok file)
    (plain : ∀ node ∈ (Node.driftFile file).walk, node.IsPlain dialect.isDrift source) :
    ∃ again, DriftFile.parse dialect file.render = .ok again ∧
      again.entries.map DriftEntry.unplaced = file.entries.map DriftEntry.unplaced := by
  have plain : Entry.driftFile.IsPlain dialect.isDrift source file := by
    intro root isRoot
    obtain rfl := List.mem_singleton.mp isRoot
    exact plain
  have accepted : Entry.driftFile.parse dialect source = .ok file := accepted
  obtain ⟨again, reparsed, same⟩ :=
    Entry.parse_render_of_isFaithful accepted (Entry.isFaithful_of_isPlain accepted plain)
  exact ⟨again, reparsed, congrArg DriftFile.entries same⟩

/-- The name is a keyword, so it is written in quotes, and its empty list of hints is not
written. -/
theorem DriftFile.parse_render_entries_key :
    let one := Expr.literal (.integer 1) ⟨14, 15, 1, 15⟩
    let values : Query :=
      ⟨none, .values ⟨[[one]], ⟨7, 16, 1, 8⟩⟩, [], none, none, ⟨7, 16, 1, 8⟩⟩
    let delete : Delete := ⟨none, none, "t", none, none, none, ⟨26, 39, 1, 27⟩⟩
    let file : DriftFile :=
      ⟨[.declared ⟨"key", [], none, .data (.select values), ⟨0, 16, 1, 1⟩⟩,
        .onCreate (.data (.delete delete)) ⟨17, 39, 1, 18⟩], ⟨0, 39, 1, 1⟩⟩
    DriftFile.parse .drift "key(): VALUES(1);@create: DELETE FROM t" = .ok file ∧
      (∀ node ∈ (Node.driftFile file).walk,
        node.IsPlain true "key(): VALUES(1);@create: DELETE FROM t") ∧
      ∃ again, DriftFile.parse .drift "\"key\": VALUES (1);\n@create: DELETE FROM t;\n" =
        .ok again ∧ again.entries.map DriftEntry.unplaced =
          file.entries.map DriftEntry.unplaced := by
  intro one values delete file
  have accepted : DriftFile.parse .drift "key(): VALUES(1);@create: DELETE FROM t" = .ok file := rfl
  have plain : ∀ node ∈ (Node.driftFile file).walk,
      node.IsPlain true "key(): VALUES(1);@create: DELETE FROM t" := by
    refine Node.forall_walk_iff.mpr ⟨⟨rfl, rfl⟩, List.forall_mem_cons.mpr ⟨?_, ?_⟩⟩
    · refine Node.forall_walk_iff.mpr ⟨⟨rfl, rfl⟩, List.forall_mem_singleton.mpr ?_⟩
      refine Node.forall_walk_iff.mpr ⟨⟨rfl, rfl⟩, List.forall_mem_singleton.mpr ?_⟩
      refine Node.forall_walk_iff.mpr ⟨⟨rfl, rfl⟩, List.forall_mem_singleton.mpr ?_⟩
      exact Node.forall_walk_iff.mpr ⟨⟨rfl, rfl⟩, fun _ mem => nomatch mem⟩
    · refine List.forall_mem_singleton.mpr ?_
      exact Node.forall_walk_iff.mpr ⟨⟨rfl, rfl⟩, fun _ mem => nomatch mem⟩
  have text : file.render = "\"key\": VALUES (1);\n@create: DELETE FROM t;\n" := by
    decide +kernel
  exact ⟨accepted, plain, text ▸ parse_render_entries .drift _ accepted plain⟩

end SqlTree
