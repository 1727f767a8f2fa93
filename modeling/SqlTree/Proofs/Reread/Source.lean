import SqlTree.Proofs.Reread.DriftFile
import SqlTree.Proofs.Spans.Source

set_option autoImplicit false

/-!
# Reading whole sources again

A statement and an expression are written without a semicolon after them, so nothing may follow
them. Scripts and drift files are written with a semicolon after each entry, however many semicolons
there were in the first source.

## Main definitions

* `SqlTree.Entry.pieces` — how the tree of a source is written.
* `SqlTree.Entry.unplaced` — the tree of a source without its spans.

## Main results

* `SqlTree.Rereading.entries_again` — the entries of a source are read again.
* `SqlTree.Rereading.source_again` — whole sources are read again.
-/

namespace SqlTree

open Render

namespace Entry

/-- The pieces of the tree of a source; each statement of a script ends with a semicolon and stands
on a line of its own. -/
def pieces : (entry : Entry) → entry.Tree → List Piece
  | .statement => Statement.pieces
  | .expression => Expr.pieces
  | .script =>
    List.flatMap fun statement => Statement.pieces statement ++ [.symbol .semicolon, .lineEnd]
  | .driftFile => DriftFile.pieces

/-- The tree of a source without its spans. -/
def unplaced : (entry : Entry) → entry.Tree → entry.Tree
  | .statement => Statement.unplaced
  | .expression => Expr.unplaced
  | .script => List.map Statement.unplaced
  | .driftFile => DriftFile.unplaced

end Entry

namespace Form

variable {α : Type} (drift : Bool)

/-- Parts with a semicolon after each of them. -/
def lines (form : Form α) : Form (List α) :=
  { form.flat with
    words := fun parts => parts.flatMap fun part => form.words part ++ [.ofSymbol .semicolon] }

/-- Entries on lines of their own have the words of each, with a semicolon after it. -/
lemma wordsOf_lines (form : Form α) (pieces : α → List Piece)
    (words : ∀ value, form.words value = wordsOf drift (pieces value)) (parts : List α) :
    wordsOf drift (parts.flatMap fun part => pieces part ++ [.symbol .semicolon, .lineEnd]) =
      form.lines.words parts := by
  induction parts with
  | nil => rfl
  | cons part parts ih => simp_all [lines]

/-- The tree of a source. -/
def source (entry : Entry) : Form entry.Tree :=
  ofPieces drift entry.pieces entry.roots entry.unplaced

end Form

namespace Rereading

open SqlTree.Parser SqlTree.Grammar

variable {E : Rereading} {α : Type} {n : Nat} {c c' c₁ c₁' : Cursor} {rest : List Word}

/-! ## The end of a source -/

/-- Where nothing is written any more, the second source ends. -/
lemma atEnd_of_nil (written : E.mode = .written) (follows : E.Follows n c c' []) :
    c'.current.isEnd = true := by
  have kind := follows.peek 0
  rw [plan_written written, Word.kindAt_nil] at kind
  exact Token.isEnd_iff.mpr kind

/-- A statement may end where the first source ends or has a semicolon, if nothing is written after
it. -/
lemma endsStatement_nil (ends : endsAt [.semicolon] c.current.kind = true) :
    E.EndsStatement c [] :=
  ⟨ends, fun _ => rfl⟩

/-- At the end of the source anything ends. -/
lemma endsAt_of_isEnd {marks : List Symbol} (atEnd : c.current.isEnd = true) :
    endsAt marks c.current.kind = true := by
  rw [Token.isEnd_iff.mp atEnd]
  rfl

/-- At a semicolon an entry ends. -/
lemma endsAt_of_semicolon (at_ : c.view.atSymbol .semicolon = true) :
    endsAt [.semicolon] c.current.kind = true := by
  rw [kind_of_atSymbol at_]
  rfl

/-! ## Entries -/

section

variable {form : Form α} {p p' : Parser α} (written : E.mode = .written)
  (part : E.Reruns n form E.EndsStatement p p')
  (starts : ∀ {c value c₁}, p'.run E.dialect c = .accepted value c₁ →
    endsAt [.semicolon] c.current.kind = false)
  (some : 0 < E.again.limit)
include written part starts some

/-- An entry is read again, with the semicolon after it. The second reading finds no semicolon
before it.

**Proof sketch.** The run is taken apart into the skipped semicolons, the entry and its end. The
entry ended at a semicolon or at the end of the source, so it is read again, with a semicolon next,
which is taken. The second reading skips nothing, because no entry starts with a semicolon. -/
lemma nextEntry_again {value : α}
    (run : (nextEntry E.rules p).run E.dialect c = .accepted (Option.some value) c₁)
    (follows : E.Follows n c c' (form.words value ++ .ofSymbol .semicolon :: rest))
    (safe : E.Safe (form.nodes value)) :
    ∃ value' c₁', (nextEntry E.again p').run E.dialect c' = .accepted (Option.some value') c₁' ∧
      form.bare value' = form.bare value ∧ E.Follows n c₁ c₁' rest ∧
      c₁'.ahead.length < c'.ahead.length := by
  obtain ⟨skipped, c₂, skip, -, run⟩ := accepted_bind run
  rw [run_sees_bind] at run
  split at run
  · exact absurd (accepted_pure run).1 (by simp)
  obtain ⟨found, c₃, inner, -, run⟩ := accepted_bind run
  obtain ⟨_, c₄, ended, -, run⟩ := accepted_bind run
  obtain ⟨eq, rfl⟩ := accepted_pure run
  obtain rfl := Option.some.inj eq
  have ends : endsAt [.semicolon] c₃.current.kind = true := by
    rcases accepted_entryEnd ended with ⟨atEnd, -⟩ | ⟨at_, -⟩
    · exact endsAt_of_isEnd atEnd
    · exact endsAt_of_semicolon at_
  have reached := accepted_reachable skip follows.reached
  obtain ⟨value', c₃', inner', follows, same⟩ := part inner (follows.of_written written reached)
    (by simp [written, Mode.left]) safe ⟨ends, fun _ => rfl⟩
  obtain ⟨semicolon, -, follows, shorter⟩ := follows.spelled written
  have reached := accepted_reachable ended (accepted_reachable inner reached)
  refine ⟨value', c₃'.advance, ?_, same, follows.of_written written reached,
    Nat.lt_of_lt_of_le shorter (accepted_length inner')⟩
  have start := starts inner'
  have noSemicolon : c'.view.atSymbol .semicolon = false := by
    rw [← Bool.not_eq_true]
    intro at_
    rw [endsAt_of_semicolon at_] at start
    cases start
  have noEnd : ¬ c'.current.isEnd = true := by
    intro atEnd
    rw [endsAt_of_isEnd atEnd] at start
    cases start
  rw [run_nextEntry_here noSemicolon some, if_neg noEnd, run_bind, inner']
  dsimp only
  rw [run_bind, run_entryEnd_semicolon (atSymbol_of_kind semicolon)]
  rfl

/-- **Entries are read again.**

**Proof sketch.** Induction on the bound of the first reading, with one entry a turn. The bound of
the second one suffices because each turn takes at least a semicolon. -/
lemma entries_again {fuel fuel' : Nat} {list : List α}
    (run : (many fuel (nextEntry E.rules p)).run E.dialect c = .accepted list c₁)
    (follows : E.Follows n c c' (form.lines.words list)) (safe : E.Safe (form.lines.nodes list))
    (enough : c'.ahead.length < fuel') :
    Accepts E.dialect (many fuel' (nextEntry E.again p')) c' fun list' _ =>
      form.lines.bare list' = form.lines.bare list := by
  obtain ⟨fuel', rfl⟩ : ∃ less, fuel' = less + 1 := ⟨fuel' - 1, by omega⟩
  induction fuel generalizing c c' list fuel' with
  | zero =>
    obtain ⟨less, eq, -⟩ := accepted_many run
    omega
  | succ fuel ih =>
    obtain ⟨less, eq, ⟨rfl, -⟩ | ⟨value, others, c₂, rfl, first, later⟩⟩ := accepted_many run
    · exact ⟨[], c', run_entries_end (atEnd_of_nil written follows) fuel' some, rfl⟩
    obtain rfl : fuel = less := by omega
    have follows : E.Follows n c c' (form.words value ++
        .ofSymbol .semicolon :: form.lines.words others) := by
      simpa [Form.lines] using follows
    obtain ⟨value', c₂', first', same, follows, shorter⟩ :=
      nextEntry_again written part starts some first follows (safe_append.mp safe).1
    obtain ⟨fuel', rfl⟩ : ∃ less, fuel' = less + 1 := ⟨fuel' - 1, by omega⟩
    obtain ⟨others', c₁', later', sames⟩ :=
      ih later follows (safe_append.mp safe).2 fuel' (by omega)
    refine ⟨value' :: others', c₁', ?_, congrArg₂ List.cons same sames⟩
    rw [run_many_of_some _ first', later']
    rfl

end

/-! ## Whole sources -/

/-- A source of one statement is read again. -/
lemma wholeStatement_again (known : E.Known n) (written : E.mode = .written) {value : Statement}
    (run : (wholeStatement E.rules).run E.dialect c = .accepted value c₁)
    (follows : E.Follows n c c' ((Form.statement E.drift).words value))
    (safe : E.Safe [value.node]) :
    Accepts E.dialect (wholeStatement E.again) c' fun value' _ =>
      value'.unplaced = value.unplaced := by
  obtain ⟨found, c₂, inner, -, run⟩ := accepted_bind run
  rw [run_eatSymbol_bind] at run
  obtain ⟨ends, rfl⟩ : endsAt [.semicolon] c₂.current.kind = true ∧ found = value := by
    split at run
    · next at_ => exact ⟨endsAt_of_semicolon at_, (accepted_pure (accepted_expectEnd run).2).1⟩
    · obtain ⟨atEnd, run⟩ := accepted_expectEnd run
      exact ⟨endsAt_of_isEnd atEnd, (accepted_pure run).1⟩
  rw [← List.append_nil ((Form.statement E.drift).words found)] at follows
  refine (statement_again known).step inner follows (by simp [written, Mode.left]) safe
    (endsStatement_nil ends) fun found' c₂' _ same follows => ?_
  have atEnd := atEnd_of_nil written follows
  refine skipSymbol (Cursor.not_atSymbol_end (Token.isEnd_iff.mp atEnd) _) ?_
  exact Accepts.congr (.of_pure same) (run_expectEnd atEnd)

/-- A source of one expression is read again. -/
lemma wholeExpression_again (known : E.Known n) (written : E.mode = .written) {value : Expr}
    (run : (wholeExpression E.rules).run E.dialect c = .accepted value c₁)
    (follows : E.Follows n c c' ((Form.expr E.drift).words value)) (safe : E.Safe [.expr value]) :
    Accepts E.dialect (wholeExpression E.again) c' fun value' _ =>
      value'.unplaced = value.unplaced := by
  obtain ⟨found, c₂, inner, -, run⟩ := accepted_bind run
  obtain ⟨atEnd, run⟩ := accepted_expectEnd run
  obtain ⟨rfl, rfl⟩ := accepted_pure run
  rw [← List.append_nil ((Form.expr E.drift).words found)] at follows
  refine known.expr.step inner follows (by simp [written, Mode.left]) safe
    ((endsStatement_nil (endsAt_of_isEnd atEnd)).quiet rfl) fun found' c₂' _ same follows => ?_
  exact Accepts.congr (.of_pure same) (run_expectEnd (atEnd_of_nil written follows))

/-- A script is read again. -/
lemma script_again (known : E.Known n) (written : E.mode = .written) {list : List Statement}
    (run : (script E.rules).run E.dialect c = .accepted list c₁)
    (follows : E.Follows n c c' ((Form.statement E.drift).lines.words list))
    (safe : E.Safe ((Form.statement E.drift).lines.nodes list)) :
    Accepts E.dialect (script E.again) c' fun list' _ =>
      list'.map Statement.unplaced = list.map Statement.unplaced := by
  have enough : c'.ahead.length < E.again.limit := Nat.lt_of_lt_of_le follows.short known.enough
  refine entries_again written (statement_again known) (fun run => ?_) (by omega) run follows safe
    enough
  obtain ⟨word, kind, -⟩ := kind_of_atStatement (accepted_statement_starts run)
  change endsAt _ (Cursor.view _).current.kind = false
  rw [kind]
  rfl

/-- A drift file is read again. -/
lemma driftFile_again (known : E.Known n) (written : E.mode = .written) {file : DriftFile}
    (run : (driftFile E.rules).run E.dialect c = .accepted file c₁)
    (follows : E.Follows n c c' ((Form.driftEntry E.drift).lines.words file.entries))
    (safe : E.Safe [.driftFile file]) :
    Accepts E.dialect (driftFile E.again) c' fun file' _ => file'.unplaced = file.unplaced := by
  have enough : c'.ahead.length < E.again.limit := Nat.lt_of_lt_of_le follows.short known.enough
  unfold driftFile at run ⊢
  rw [run_here_bind] at run
  obtain ⟨has, run⟩ := accepted_require run
  obtain ⟨list, c₂, inner, -, last⟩ := accepted_bind run
  obtain ⟨rfl, rfl⟩ := accepted_pure last
  have safe : E.Safe ((Form.driftEntry E.drift).lines.nodes list) := by
    have below := (safe_singleton.mp safe).2
    rwa [show Node.children (.driftFile _) = Node.each DriftEntry.node list from rfl, each_eq]
      at below
  refine Accepts.congr ?_ (run_here_bind ..)
  refine accepts_require has ?_
  refine Accepts.bind (entries_again written (driftEntry_again known written) driftEntry_starts
    (by omega) inner follows safe enough) ?_
  intro list' c₂' _ same
  exact .of_pure (congrArg (DriftFile.mk · .none) same)

/-- **Whole sources are read again** from what their trees are written as. -/
theorem source_again (known : E.Known n) (written : E.mode = .written) (entry : Entry)
    {tree : entry.Tree} (run : (entry.parser E.rules).run E.dialect c = .accepted tree c₁)
    (follows : E.Follows n c c' ((Form.source E.drift entry).words tree))
    (safe : E.Safe ((Form.source E.drift entry).nodes tree)) :
    Accepts E.dialect (entry.parser E.again) c' fun tree' _ =>
      entry.unplaced tree' = entry.unplaced tree := by
  cases entry with
  | statement => exact wholeStatement_again known written run follows safe
  | expression => exact wholeExpression_again known written run follows safe
  | script =>
    refine script_again known written run ?_ ?_
    · exact Form.wordsOf_lines E.drift (.statement E.drift) _ (fun _ => rfl) _ ▸ follows
    · rwa [show (Form.statement E.drift).lines.nodes tree = _ from (each_eq tree).symm]
  | driftFile =>
    refine driftFile_again known written run ?_ safe
    exact Form.wordsOf_lines E.drift (.driftEntry E.drift) _ (fun _ => rfl) _ ▸ follows

end Rereading

end SqlTree
