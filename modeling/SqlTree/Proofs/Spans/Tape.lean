import Mathlib.Data.List.Perm.Basic
import Mathlib.Tactic.Lemma
import SqlTree.Parser
import SqlTree.Tree.Walk

set_option autoImplicit false

/-!
# Where nodes are placed

The tokens of a source have indices. A node is placed between two indices if its span goes from the
start of the first token to the end of the last one, and its children are placed between them, one
after the other.

## Main definitions

* `SqlTree.Tape` — the tokens of a source by index.
* `SqlTree.Tape.extent` — the span from one index to another.
* `SqlTree.Row` — nodes one after the other.
* `SqlTree.Node.WrittenAs` — the children of a node in the order of the source.
* `SqlTree.Tape.Places` — a node between two indices.

## Main results

* `SqlTree.Tape.Places.walk` — every node of a walk is placed.
* `SqlTree.Tape.Places.disjoint` — the children of a node that is placed have disjoint spans inside
  its own.
-/

namespace SqlTree

/-! ## Tapes -/

/-- The tokens of a source by index. After the last one comes the end of input, again and again. -/
structure Tape where
  /-- The token of an index. -/
  token : Nat → Token
  /-- The number of tokens before the end of input. -/
  count : Nat
  ordered : ∀ i j, i < j → (token i).span.stop ≤ (token j).span.start
  forward : ∀ i, (token i).span.start ≤ (token i).span.stop
  nonempty : ∀ i < count, (token i).span.start < (token i).span.stop

namespace Tape

variable (tape : Tape)

/-- What a parser sees at an index. -/
def view (i : Nat) : View :=
  ⟨tape.token (i - 1), tape.token i, tape.token (i + 1), tape.token (i + 2)⟩

/-- The span of the tokens from index `i` up to index `j`. -/
def extent (i j : Nat) : Span :=
  ⟨(tape.token i).span.start, (tape.token (j - 1)).span.stop, (tape.token i).span.line,
    (tape.token i).span.column⟩

/-- The span starts where the token of this index does. -/
structure Starts (i : Nat) (span : Span) : Prop where
  start : span.start = (tape.token i).span.start
  line : span.line = (tape.token i).span.line
  column : span.column = (tape.token i).span.column

variable {tape} {i j k : Nat}

/-- The span of a token starts where the token does. -/
lemma Starts.token : tape.Starts i (tape.token i).span :=
  ⟨rfl, rfl, rfl⟩

/-- An extent starts where its first token does. -/
lemma Starts.extent : tape.Starts i (tape.extent i j) :=
  ⟨rfl, rfl, rfl⟩

/-- An extent ends where its last token does. -/
lemma extent_stop (i j : Nat) : (tape.extent i j).stop = (tape.token (j - 1)).span.stop := rfl

/-- Later tokens start later. -/
lemma start_le (le : i ≤ j) : (tape.token i).span.start ≤ (tape.token j).span.start := by
  rcases Nat.eq_or_lt_of_le le with rfl | lt
  · exact Nat.le_refl _
  · exact Nat.le_trans (tape.forward i) (tape.ordered i j lt)

/-- Later tokens end later. -/
lemma stop_le (le : i ≤ j) : (tape.token i).span.stop ≤ (tape.token j).span.stop := by
  rcases Nat.eq_or_lt_of_le le with rfl | lt
  · exact Nat.le_refl _
  · exact Nat.le_trans (tape.ordered i j lt) (tape.forward j)

/-- An extent of at least one token is not empty. -/
lemma extent_nonempty (lt : i < j) (inside : j ≤ tape.count) :
    (tape.extent i j).start < (tape.extent i j).stop :=
  Nat.lt_of_lt_of_le (tape.nonempty i (by omega)) (stop_le (by omega))

/-- A span from an earlier start up to the token behind. -/
lemma Starts.spanFrom {start : Span} (starts : tape.Starts i start) (lt : i < j) :
    (⟨start.start, Cursor.stopAfter (tape.token (j - 1)) start.start, start.line, start.column⟩ :
      Span) = tape.extent i j := by
  have le : start.start ≤ (tape.token (j - 1)).span.stop := by
    rw [starts.start]
    exact Nat.le_trans (tape.forward i) (stop_le (by omega))
  rw [Cursor.stopAfter, Nat.max_eq_left le, starts.start, starts.line, starts.column]
  rfl

/-- The span of two operands with an operator between them. -/
lemma merge_extent {l : Nat} (before : i ≤ k) (after : j ≤ l) :
    (tape.extent i j).merge (tape.extent k l) = tape.extent i l := by
  have le : (tape.extent i j).start ≤ (tape.extent k l).start := start_le before
  have le' : (tape.extent i j).stop ≤ (tape.extent k l).stop := stop_le (by omega)
  rw [Span.merge, if_pos le, Nat.max_eq_right le']
  rfl

end Tape

/-! ## Rows of nodes -/

/-- Nodes are placed one after the other, between two indices. -/
inductive Row {α : Type} (places : Nat → Nat → α → Prop) : Nat → Nat → List α → Prop where
  | nil {i j : Nat} (le : i ≤ j) : Row places i j []
  | cons {i a b j : Nat} {node : α} {rest : List α} (le : i ≤ a) (first : places a b node)
    (lt : a < b) (others : Row places b j rest) : Row places i j (node :: rest)

namespace Row

variable {α : Type} {places : Nat → Nat → α → Prop} {i j k l : Nat} {first second : List α}

/-- A row goes forward. -/
lemma le (row : Row places i j first) : i ≤ j := by
  induction row with
  | nil le => exact le
  | cons le _ lt _ ih => omega

/-- A row may be given more room. -/
lemma mono (row : Row places i j first) (before : k ≤ i) (after : j ≤ l) :
    Row places k l first := by
  induction row generalizing k with
  | nil le => exact .nil (by omega)
  | cons le first lt _ ih => exact .cons (by omega) first lt (ih (Nat.le_refl _) after)

/-- Two rows with one behind the other are a row. -/
lemma append (row : Row places i j first) (row' : Row places j k second) :
    Row places i k (first ++ second) := by
  induction row with
  | nil le => exact row'.mono le (Nat.le_refl _)
  | cons le first lt _ ih => exact .cons le first lt (ih row')

/-- The front of a row is a row with the same room. -/
lemma left (row : Row places i j (first ++ second)) : Row places i j first := by
  induction first generalizing i with
  | nil => exact .nil row.le
  | cons node first ih =>
    cases row with
    | cons le placed lt others => exact .cons le placed lt (ih others)

/-- A placed node is a row of its own. -/
lemma single {node : α} (placed : places i j node) (lt : i < j) : Row places i j [node] :=
  .cons (Nat.le_refl _) placed lt (.nil (Nat.le_refl _))

/-- Where a node of a row is placed. -/
lemma exists_of_mem (row : Row places i j first) {node : α} (mem : node ∈ first) :
    ∃ a b, i ≤ a ∧ a < b ∧ b ≤ j ∧ places a b node := by
  induction row with
  | nil => simp at mem
  | @cons i a b j other rest le placed lt others ih =>
    rcases List.mem_cons.mp mem with rfl | later
    · exact ⟨a, b, le, lt, others.le, placed⟩
    · obtain ⟨c, d, le', lt', le'', placed'⟩ := ih later
      exact ⟨c, d, by omega, lt', le'', placed'⟩

/-- A row is placed from the start of its first node to the end of its last one. -/
lemma between (row : Row places i j first) (nonempty : first ≠ []) :
    ∃ a b c d head last, first.head? = some head ∧ first.getLast? = some last ∧
      places a b head ∧ places c d last ∧ i ≤ a ∧ a ≤ c ∧ b ≤ d ∧ a < d ∧ d ≤ j ∧
      Row places a d first := by
  induction row with
  | nil => exact absurd rfl nonempty
  | @cons i a b j node rest le placed lt others ih =>
    rcases List.eq_nil_or_concat rest with rfl | ⟨_, _, eq⟩
    · exact ⟨a, b, a, b, node, node, rfl, rfl, placed, placed, le, Nat.le_refl _, Nat.le_refl _, lt,
        others.le, .single placed lt⟩
    · obtain ⟨a', b', c, d, head, last, -, isLast, -, placed', le', le'', -, lt', inside, row⟩ :=
        ih (by simp [eq])
      refine ⟨a, b, c, d, node, last, rfl, ?_, placed, placed', le, by omega, by omega, by omega,
        inside, .cons (Nat.le_refl _) placed lt (row.mono le' (Nat.le_refl _))⟩
      rw [List.getLast?_cons, isLast]
      rfl

/-- The nodes of what stands in a row stand in a row. -/
lemma map {β : Type} {places' : Nat → Nat → β → Prop} {node : α → β}
    (nodes : ∀ a b value, places a b value → Row places' a b [node value])
    (row : Row places i j first) : Row places' i j (first.map node) := by
  induction row with
  | nil le => exact .nil le
  | cons le placed lt _ ih => exact ((nodes _ _ _ placed).append ih).mono le (Nat.le_refl _)

/-- Of two nodes of a row, one ends before the other one begins. -/
lemma pairwise (row : Row places i j first) : first.Pairwise fun node other =>
    ∃ a b c d, a < b ∧ b ≤ c ∧ c < d ∧ d ≤ j ∧ places a b node ∧ places c d other := by
  induction row with
  | nil => exact .nil
  | @cons i a b j node rest le placed lt others ih =>
    refine .cons (fun other mem => ?_) ih
    obtain ⟨c, d, le', lt', inside, placed'⟩ := others.exists_of_mem mem
    exact ⟨a, b, c, d, lt, le', lt', inside, placed, placed'⟩

end Row

/-! ## Nodes -/

/-- The children of a node in the order in which they are written. The node lists them in this
order, unless it is a limit whose offset is written before its count. -/
inductive Node.WrittenAs : Node → List Node → Prop where
  | listed (node : Node) : WrittenAs node node.children
  | offsetFirst (count offset : Expr) (span : Span) :
    WrittenAs (.limit ⟨.expressions count (some offset), span⟩) [.expr offset, .expr count]

/-- A node is written as an arrangement of its children. -/
lemma Node.WrittenAs.perm {node : Node} {row : List Node} (written : node.WrittenAs row) :
    row.Perm node.children := by
  cases written with
  | listed => exact .refl _
  | offsetFirst => exact .swap ..

/-- A node is placed between two indices: its span goes from the one to the other, and its children
are placed between them, in the order in which they are written. -/
inductive Tape.Places (tape : Tape) : Nat → Nat → Node → Prop where
  | node {i j : Nat} {node : Node} {row : List Node} (lt : i < j)
    (span : node.span = tape.extent i j) (written : node.WrittenAs row)
    (children : Row tape.Places i j row) : Places tape i j node

namespace Tape.Places

variable {tape : Tape} {i j : Nat} {node : Node}

/-- A node whose children stand in their order. -/
lemma of_row (lt : i < j) (span : node.span = tape.extent i j)
    (children : Row tape.Places i j node.children) : tape.Places i j node :=
  .node lt span (.listed node) children

/-- A placed node takes at least one token. -/
lemma lt (placed : tape.Places i j node) : i < j := by
  cases placed
  assumption

/-- A placed node has the extent of its tokens as its span. -/
lemma span (placed : tape.Places i j node) : node.span = tape.extent i j := by
  cases placed
  assumption

/-- The span of a placed node starts where its first token does. -/
lemma starts (placed : tape.Places i j node) : tape.Starts i node.span :=
  placed.span ▸ .extent

/-- A placed node is a row of its own. -/
lemma row (placed : tape.Places i j node) : Row tape.Places i j [node] :=
  .single placed placed.lt

/-- The children of a placed node are placed between the same tokens. -/
lemma child (placed : tape.Places i j node) {child : Node} (mem : child ∈ node.children) :
    ∃ a b, i ≤ a ∧ b ≤ j ∧ tape.Places a b child := by
  cases placed with
  | node _ _ written children =>
    obtain ⟨a, b, first, -, last, placed⟩ := children.exists_of_mem (written.perm.mem_iff.mpr mem)
    exact ⟨a, b, first, last, placed⟩

/-- **Every node of a walk is placed.** -/
theorem walk {i j : Nat} {node : Node} (placed : tape.Places i j node) {below : Node}
    (mem : below ∈ node.walk) : ∃ a b, i ≤ a ∧ b ≤ j ∧ tape.Places a b below := by
  rw [Node.walk_eq] at mem
  rcases List.mem_cons.mp mem with rfl | mem
  · exact ⟨i, j, Nat.le_refl _, Nat.le_refl _, placed⟩
  · obtain ⟨child, isChild, mem⟩ := List.mem_flatMap.mp mem
    obtain ⟨a, b, first, last, placed⟩ := placed.child isChild
    obtain ⟨c, d, first', last', placed'⟩ := placed.walk mem
    exact ⟨c, d, by omega, by omega, placed'⟩
termination_by sizeOf node
decreasing_by exact Node.sizeOf_lt_of_mem_children isChild

/-- The span of a child is inside that of its parent. -/
lemma contains (placed : tape.Places i j node) {child : Node} (mem : child ∈ node.children) :
    node.span.contains child.span = true := by
  obtain ⟨a, b, first, last, placed'⟩ := placed.child mem
  have := placed'.lt
  rw [placed.span, placed'.span]
  exact Bool.and_eq_true_iff.mpr
    ⟨decide_eq_true (start_le first), decide_eq_true (stop_le (by omega))⟩

/-- **Children have disjoint spans.** -/
theorem disjoint (placed : tape.Places i j node) : node.children.Pairwise fun child other =>
    child.span.stop ≤ other.span.start ∨ other.span.stop ≤ child.span.start := by
  cases placed with
  | node _ _ written children =>
    refine (written.perm.pairwise_iff Or.symm).mp (children.pairwise.imp ?_)
    rintro child other ⟨a, b, c, d, lt, le, -, -, placed, placed'⟩
    rw [placed.span, placed'.span]
    exact .inl (tape.ordered (b - 1) c (by omega))

end Tape.Places

end SqlTree
