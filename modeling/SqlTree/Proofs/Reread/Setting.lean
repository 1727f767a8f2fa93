import SqlTree.Grammar.Rules
import SqlTree.Proofs.Reread.Starter
import SqlTree.Tree.Walk

set_option autoImplicit false

/-!
# Reading a second time

What has been read once is read a second time from another source: from a copy of the part of the
first source that it was read from, or from the text that the tree is written as. Both sources are
followed side by side. A cursor in the second source follows one in the first if the tokens ahead of
it are those that the second reading still has to take: in a copy those ahead in the first source,
up to the end of the copy, and in written text the words of the pieces that are left.

## Main definitions

* `SqlTree.Node.Faithful` — the node is not one of those that are written as something else.
* `SqlTree.Rereading` — how a source is read a second time.
* `SqlTree.Rereading.Follows` — a cursor of the second reading follows one of the first.
* `SqlTree.Rereading.Quiet` — no test passes at the end of what was read that did not pass before.
* `SqlTree.Rereading.Reruns` — whatever a parser reads, a parser reads again.

## Main results

* `SqlTree.Rereading.Follows.take` — both readings take a token.
* `SqlTree.Rereading.Follows.peek` — what the second reading sees.
-/

namespace SqlTree

open SqlTree.Parser

/-! ## Nodes that are written as something else -/

/-- The right operand of a comparison with `IS` starts such that it stays the operand: `NOT` after
`IS` would belong to the operator, and `NULL` would make the comparison a test for null. -/
def Expr.KeepsComparison (drift : Bool) : Expr → Prop
  | .binary _ .is right _ =>
    Word.kindAt (Render.wordsOf drift right.pieces) 0 ≠ .keyword .NOT ∧
      Word.kindAt (Render.wordsOf drift right.pieces) 0 ≠ .keyword .NULL
  | .binary _ .isNot right _ =>
    Word.kindAt (Render.wordsOf drift right.pieces) 0 ≠ .keyword .NULL
  | _ => True

/-- The name of a function that is called in an expression is not read as `RAISE`. -/
def Expr.KeepsName (expr : Expr) : Prop :=
  ∀ name parameters, expr.function? = some (name, parameters) →
    Keyword.ofText? name ≠ some .RAISE

/-- The name of a function that is called in place of a table is not read as an operator. -/
def TableRef.KeepsName : TableRef → Prop
  | .function _ name _ _ _ => ∀ word, Keyword.ofText? name = some word → word.canNameFunction →
    word.canBeIdentifier
  | _ => True

namespace Node

/-- If the node is a comparison with `IS` then it is read as one again. -/
def KeepsComparison (drift : Bool) : Node → Prop
  | .expr part => part.KeepsComparison drift
  | _ => True

/-- If the node is a function call then its name is read as one again. -/
def KeepsName : Node → Prop
  | .expr part => part.KeepsName
  | .tableRef part => part.KeepsName
  | _ => True

/-- The node is none of those that are written as something else. -/
def Faithful (drift : Bool) (node : Node) : Prop :=
  node.KeepsComparison drift ∧ node.KeepsName

end Node

/-! ## Readings -/

/-- Where something is read a second time from. -/
inductive Mode where
  /-- A copy of the source, cut off where this many of its tokens are left. -/
  | copy (left : Nat)
  /-- The text that the tree is written as. -/
  | written
deriving DecidableEq

/-- The number of tokens that are not in the second source. -/
def Mode.left : Mode → Nat
  | .copy left => left
  | .written => 0

/-- How a source is read a second time. -/
structure Rereading where
  dialect : Dialect
  mode : Mode
  /-- The rules of the first reading. -/
  rules : Grammar.Rules
  /-- The rules of the second reading. -/
  again : Grammar.Rules

/-- How the values of a parser are written, which nodes they hold, and what they are without their
places. -/
structure Form (α : Type) where
  words : α → List Word
  nodes : α → List Node
  bare : α → α

namespace Rereading

variable (E : Rereading) {α β : Type} {n : Nat} {c c' c₁ c₁' : Cursor} {rest : List Word}

/-- The sources are cut into tokens with the drift extensions. -/
abbrev drift : Bool :=
  E.dialect.isDrift

/-- The words that the second reading has to find ahead: in written text these, in a copy those that
are ahead in the first source. -/
def plan (cursor : Cursor) (rest : List Word) : List Word :=
  match E.mode with
  | .copy left => cursor.words.take (cursor.ahead.length - left)
  | .written => rest

/-- The second cursor follows the first one, with fewer than `n` tokens ahead. -/
structure Follows (n : Nat) (cursor cursor' : Cursor) (rest : List Word) : Prop where
  reached : cursor.Reachable E.drift
  reached' : cursor'.Reachable E.drift
  short : cursor'.ahead.length < n
  spells : cursor'.Spells (E.plan cursor rest)

/-- No test of these passes in the second source after the cursor unless it does so in the first. -/
def Quiet (starters : List Starter) (cursor : Cursor) (rest : List Word) : Prop :=
  ∀ starter ∈ starters,
    starter.Carries (Word.kindAt (E.plan cursor rest) 0) (Word.kindAt (E.plan cursor rest) 1)
      (cursor.peek 0).kind (cursor.peek 1).kind

/-- All nodes in these are written such that they read back, if the second source is written
text. -/
def Safe (nodes : List Node) : Prop :=
  E.mode = .written → ∀ node ∈ nodes, ∀ inner ∈ node.walk, inner.Faithful E.drift

/-- **Reading again.** Whatever the first parser reads is read again by the second one, wherever its
cursor follows and the words after those of the value do not go on with it. -/
def Reruns (n : Nat) (form : Form α) (ends : Cursor → List Word → Prop) (p p' : Parser α) : Prop :=
  ∀ ⦃c c' : Cursor⦄ ⦃value : α⦄ ⦃c₁ : Cursor⦄ ⦃rest : List Word⦄,
    p.run E.dialect c = .accepted value c₁ → E.Follows n c c' (form.words value ++ rest) →
    E.mode.left ≤ c₁.ahead.length → E.Safe (form.nodes value) → ends c₁ rest →
    Accepts E.dialect p' c' fun value' c₁' =>
      E.Follows n c₁ c₁' rest ∧ form.bare value' = form.bare value

/-- Whatever the first parser reads where this keyword is next is read again. -/
def RerunsAt (word : Keyword) (n : Nat) (form : Form α) (ends : Cursor → List Word → Prop)
    (p p' : Parser α) : Prop :=
  ∀ ⦃c c' : Cursor⦄ ⦃value : α⦄ ⦃c₁ : Cursor⦄ ⦃rest : List Word⦄,
    c.view.atKeyword word = true →
    p.run E.dialect c = .accepted value c₁ → E.Follows n c c' (form.words value ++ rest) →
    E.mode.left ≤ c₁.ahead.length → E.Safe (form.nodes value) → ends c₁ rest →
    Accepts E.dialect p' c' fun value' c₁' =>
      E.Follows n c₁ c₁' rest ∧ form.bare value' = form.bare value

variable {E}

/-! ## Copies -/

/-- The words ahead start with that of the next token. -/
lemma current_words (cursor : Cursor) (some : cursor.ahead ≠ []) :
    cursor.words = ⟨cursor.current.kind, cursor.current.lexeme, none⟩ ::
      wordsFrom cursor.source cursor.current cursor.ahead.tail := by
  unfold Cursor.words Cursor.current Cursor.peek
  cases ahead : cursor.ahead with
  | nil => exact absurd ahead some
  | cons token others => simp

/-- Without the gap before the first token, the words of a copy are spelled by what spells them with
it. -/
lemma spells_words {source : String} {previous : Token} {tokens : List Token} {count : Nat}
    {cursor cursor' : Cursor} (source_eq : cursor.source = source) (ahead : cursor.ahead = tokens)
    (spells : cursor'.Spells ((wordsFrom source previous tokens).take count)) :
    cursor'.Spells (cursor.words.take count) := by
  subst source_eq ahead
  unfold Cursor.words
  cases ahead : cursor.ahead with
  | nil => simpa [ahead, wordsFrom] using spells
  | cons token others =>
    rw [ahead, wordsFrom] at spells
    cases count with
    | zero => simpa using spells
    | succ count =>
      simp only [List.take_succ_cons] at spells ⊢
      obtain ⟨token', others', ahead', fits, spelled⟩ := Cursor.Spells.cons_iff.mp spells
      exact Cursor.Spells.cons_iff.mpr
        ⟨token', others', ahead', ⟨fits.1, fits.2.1, .inl rfl⟩, spelled⟩

/-- The kinds that are ahead in a copy are those ahead in the first source, up to its end. -/
lemma kindAt_copy (cursor : Cursor) (count distance : Nat) (within : distance < count) :
    Word.kindAt (cursor.words.take count) distance = (cursor.peek distance).kind ∨
      cursor.ahead.length ≤ distance := by
  by_cases inside : distance < cursor.ahead.length
  · left
    unfold Word.kindAt
    rw [List.getElem?_take_of_lt within]
    have kinds : cursor.words[distance]?.map Word.kind =
        cursor.ahead[distance]?.map Token.kind := by
      unfold Cursor.words
      cases ahead : cursor.ahead with
      | nil => rfl
      | cons token others =>
        cases distance with
        | zero => rfl
        | succ distance => simpa using Cursor.getElem?_wordsFrom_kind _ _ _ distance
    unfold Cursor.peek
    rw [List.getElem?_eq_getElem (by simpa using inside), List.getElem?_eq_getElem inside,
      Option.map_some, Option.map_some, Option.some_inj] at kinds
    rw [List.getElem?_eq_getElem (by simpa using inside), List.getD_eq_getElem _ _ inside]
    exact kinds
  · exact .inr (by omega)

/-- In a copy a token is the one of the first source, or the end of input. -/
lemma kindAt_plan_copy {left : Nat} (copy : E.mode = .copy left) (cursor : Cursor)
    (rest : List Word) (distance : Nat) :
    Word.kindAt (E.plan cursor rest) distance =
      if distance < cursor.ahead.length - left then (cursor.peek distance).kind
      else .endOfInput := by
  unfold plan
  rw [copy]
  dsimp only
  split
  · next within =>
    rcases kindAt_copy cursor _ distance within with same | outside
    · exact same
    · omega
  · next beyond =>
    unfold Word.kindAt
    rw [List.getElem?_eq_none (by simp; omega)]

/-- A written text has the words of the tree, whatever the source has. -/
lemma plan_written (written : E.mode = .written) (cursor : Cursor) (rest : List Word) :
    E.plan cursor rest = rest := by
  unfold plan
  rw [written]

/-! ## Following -/

namespace Follows

/-- **What the second reading sees.** -/
lemma peek (follows : E.Follows n c c' rest) (distance : Nat) :
    (c'.peek distance).kind = Word.kindAt (E.plan c rest) distance :=
  follows.spells.peek follows.reached' distance

/-- **Both readings take a token.**

**Proof sketch.** By the mode. In a written text the second reading spells the word that was
planned, which is the one given. In a copy it spells the words ahead of the first one, up to the end
of the copy, and the first of these is that of the next token. -/
lemma take {word : Word} (follows : E.Follows n c c' (word :: rest)) (some : c.ahead ≠ [])
    (keeps : E.mode.left ≤ c.advance.ahead.length) :
    E.Follows n c.advance c'.advance rest ∧ c'.advance.ahead.length < c'.ahead.length ∧
      ((E.mode ≠ .written ∧ c'.current.kind = c.current.kind ∧
          c'.current.lexeme = c.current.lexeme) ∨
        (E.mode = .written ∧ c'.current.kind = word.kind ∧
          c'.current.lexeme = word.lexeme)) := by
  obtain ⟨reached, reached', short, spells⟩ := follows
  have shrinks : ∀ {first : Word} {others : List Word}, c'.Spells (first :: others) →
      c'.advance.ahead.length < c'.ahead.length := by
    intro first others spelled
    have := spelled.length
    simp only [Cursor.advance_ahead, List.length_tail, List.length_cons] at this ⊢
    omega
  cases mode : E.mode with
  | written =>
    rw [plan_written mode] at spells
    have smaller := shrinks spells
    refine ⟨⟨reached.advance, reached'.advance, by omega, ?_⟩, smaller,
      .inr ⟨rfl, spells.current⟩⟩
    rw [plan_written mode]
    exact spells.advance
  | copy left =>
    unfold plan at spells
    rw [mode] at spells keeps
    obtain ⟨count, eq⟩ : ∃ count, c.ahead.length - left = count + 1 := by
      have := Cursor.length_ahead some
      simp only [Mode.left] at keeps
      exact ⟨c.ahead.length - left - 1, by omega⟩
    dsimp only at spells
    rw [current_words c some, eq, List.take_succ_cons] at spells
    have smaller := shrinks spells
    refine ⟨⟨reached.advance, reached'.advance, by omega, ?_⟩, smaller,
      .inl ⟨by simp, spells.current⟩⟩
    unfold plan
    rw [mode]
    dsimp only
    have counts : c.advance.ahead.length - left = count := by
      have := Cursor.length_ahead some
      omega
    rw [counts]
    exact spells_words (by simp) (by simp) spells.advance

/-- In a copy only the first source matters. -/
lemma of_copy (follows : E.Follows n c c' rest) (copy : E.mode ≠ .written)
    (others : List Word) :
    E.Follows n c c' others := by
  obtain ⟨reached, reached', short, spells⟩ := follows
  refine ⟨reached, reached', short, ?_⟩
  unfold plan at spells ⊢
  split at spells
  · next mode => simpa [mode] using spells
  · next mode => exact absurd mode copy

/-- In a copy both readings take the same token. -/
lemma copied (follows : E.Follows n c c' rest) (copy : E.mode ≠ .written)
    (others : List Word) (some : c.ahead ≠ []) (keeps : E.mode.left ≤ c.advance.ahead.length) :
    c'.current.kind = c.current.kind ∧ c'.current.lexeme = c.current.lexeme ∧
      E.Follows n c.advance c'.advance others ∧ c'.advance.ahead.length < c'.ahead.length := by
  obtain ⟨next, shorter, seen⟩ :=
    (follows.of_copy copy (⟨.endOfInput, "", none⟩ :: others)).take some keeps
  rcases seen with ⟨-, kind, lexeme⟩ | ⟨written, -⟩
  · exact ⟨kind, lexeme, next, shorter⟩
  · exact absurd written copy

/-- In written text only the words matter. -/
lemma of_written {other : Cursor} (follows : E.Follows n c c' rest) (written : E.mode = .written)
    (reached : other.Reachable E.drift) : E.Follows n other c' rest := by
  obtain ⟨-, reached', short, spells⟩ := follows
  exact ⟨reached, reached', short, by rwa [plan_written written] at spells ⊢⟩

/-- In written text the second reading takes the next word. -/
lemma spelled {word : Word} (follows : E.Follows n c c' (word :: rest))
    (written : E.mode = .written) :
    c'.current.kind = word.kind ∧ c'.current.lexeme = word.lexeme ∧
      E.Follows n c c'.advance rest ∧ c'.advance.ahead.length < c'.ahead.length := by
  obtain ⟨reached, reached', short, spells⟩ := follows
  rw [plan_written written] at spells
  have := spells.length
  have smaller : c'.advance.ahead.length < c'.ahead.length := by
    simp only [Cursor.advance_ahead, List.length_tail, List.length_cons] at this ⊢
    omega
  refine ⟨spells.current.1, spells.current.2,
    ⟨reached, reached'.advance, by omega, ?_⟩, smaller⟩
  rw [plan_written written]
  exact spells.advance

end Follows

/-! ## Quiet ends -/

namespace Quiet

variable {starters more : List Starter}

/-- In a copy every end is quiet, so it is enough to look at the words of written text. -/
lemma of_written
    (quiet : E.mode = .written → ∀ starter ∈ starters,
      starter.Carries (Word.kindAt rest 0) (Word.kindAt rest 1) (c.peek 0).kind (c.peek 1).kind) :
    E.Quiet starters c rest := by
  intro starter mem
  cases mode : E.mode with
  | written =>
    rw [plan_written mode]
    exact quiet mode starter mem
  | copy left =>
    rw [kindAt_plan_copy mode, kindAt_plan_copy mode]
    split
    · split
      · exact starter.carries_refl _ _
      · exact starter.carries_cut _ _
    · exact starter.carries_end _ _ _

/-- What is quiet about more is quiet about less. -/
lemma mono (quiet : E.Quiet more c rest) (sub : starters.all more.contains = true) :
    E.Quiet starters c rest := by
  intro starter mem
  refine quiet starter ?_
  simpa using List.all_eq_true.mp sub starter mem

/-- A word that is the first token of no starter makes an end quiet. -/
lemma front {word : Word}
    (inert : starters.all (fun starter => !starter.first word.kind) = true) :
    E.Quiet starters c (word :: rest) :=
  of_written fun _ starter mem =>
    Starter.carries_of_first (by simpa using List.all_eq_true.mp inert starter mem)

/-- A test that fails in the first source fails in the second. -/
lemma not_passes (quiet : E.Quiet starters c rest) (starter : Starter)
    (follows : E.Follows n c c' rest) (mem : starter ∈ starters) (simple : starter ≠ .operator)
    (fails : starter.passes (c.peek 0).kind (c.peek 1).kind = false) :
    starter.passes (c'.peek 0).kind (c'.peek 1).kind = false := by
  have carries := quiet starter mem
  rw [← follows.peek, ← follows.peek] at carries
  rw [← Bool.not_eq_true] at fails ⊢
  intro passes
  apply fails
  cases starter <;> first | exact absurd rfl simple | exact carries passes

end Quiet

end Rereading

end SqlTree
