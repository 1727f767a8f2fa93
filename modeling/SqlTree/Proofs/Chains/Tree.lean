import SqlTree.Parse
import SqlTree.Proofs.Operands
import SqlTree.Proofs.Precedence.Ranked

set_option autoImplicit false

/-!
# Chains of operators

A chain is an operand and any number of further ones, each after an operator of one token. It is
given its tree without a parser: at the root stands the last of the weakest operators, with the tree
of the chain before it on the left and that of the chain after it on the right. So an operator that
binds tighter is deeper down, and operators of one level group to the left.

A parser does not look for the root. It meets the operators from left to right, and whenever it has
taken one with all that binds tighter after it, the whole becomes the first operand of the chain
that is left. That this leads to the same tree is `SqlTree.Chain.treeOf_cons`.

## Main definitions

* `SqlTree.Chain` — a chain, with `Chain.tokens` and `Chain.tree`.
* `SqlTree.Chain.IsOperand` — which tokens are operands, and what they are read as.
* `SqlTree.Chain.splitAtLeast` — a list, split at the last of its least elements.

## Main results

* `SqlTree.Chain.treeOf_split` — the tree is split where the definition says.
* `SqlTree.Chain.treeOf_cons` — the first operator can be taken first.
-/

namespace SqlTree

/-- The span from the start of an earlier span up to the end of the token. -/
def Token.spanFrom (last : Token) (start : Span) : Span :=
  ⟨start.start, Cursor.stopAfter last start.start, start.line, start.column⟩

namespace Chain

open Grammar

/-! ## Operands and chains -/

/-- The tokens are an operand, which is read as the expression: a literal, a column, a variable, an
expression between parentheses, or an operand after a sign or `~`. What stands between parentheses
is whatever is an expression by itself. -/
inductive IsOperand (dialect : Dialect) (source : String) : List Token → Expr → Prop where
  | literal {token : Token} {value : Literal} (found : literal? token.kind = some value) :
    IsOperand dialect source [token] (.literal value token.span)
  | column {name : Token} (isName : name.kind.isIdentifierLike = true) :
    IsOperand dialect source [name]
      (.reference none none (Parser.nameOf name) (name.spanFrom name.span))
  | columnOf {table point name : Token} (isTable : table.kind.isIdentifierLike = true)
    (isPoint : point.kind = .symbol .dot) (isName : name.kind.isIdentifierLike = true) :
    IsOperand dialect source [table, point, name]
      (.reference none (some (Parser.nameOf table)) (Parser.nameOf name)
        (name.spanFrom table.span))
  | columnOfSchema {schema point table point' name : Token}
    (isSchema : schema.kind.isIdentifierLike = true) (isPoint : point.kind = .symbol .dot)
    (isTable : table.kind.isIdentifierLike = true) (isPoint' : point'.kind = .symbol .dot)
    (isName : name.kind.isIdentifierLike = true) :
    IsOperand dialect source [schema, point, table, point', name]
      (.reference (some (Parser.nameOf schema)) (some (Parser.nameOf table))
        (Parser.nameOf name) (name.spanFrom schema.span))
  | «variable» {token : Token} {which : Variable} (isVariable : token.kind = .variable which) :
    IsOperand dialect source [token] (variableOf dialect.isDrift which token.span)
  | parentheses {opening closing : Token} {inner : List Token} {expr : Expr}
    (opens : opening.kind = .symbol .leftParen) (closes : closing.kind = .symbol .rightParen)
    (inside : ∀ token ∈ inner, token.kind ≠ .endOfInput)
    (reads : (Expr.parseAt dialect (.ofTokens source inner)).result = .ok expr) :
    IsOperand dialect source (opening :: inner ++ [closing])
      (.parentheses expr (closing.spanFrom opening.span))
  | signed {sign : Token} {op : UnaryOp} {power : Nat} {tokens : List Token} {operand : Expr}
    (found : unaryOp? sign.kind = some (op, power)) (isSign : op ≠ .not)
    (isOperand : IsOperand dialect source tokens operand) :
    IsOperand dialect source (sign :: tokens)
      (.unary op operand ((tokens.getLastD sign).spanFrom sign.span))

/-- An operand of a chain. -/
structure Operand (dialect : Dialect) (source : String) where
  /-- The tokens of the operand. -/
  tokens : List Token
  /-- What they are read as. -/
  expr : Expr
  isOperand : IsOperand dialect source tokens expr

/-- An operator of one token, and the operand after it. -/
structure Link (dialect : Dialect) (source : String) where
  /-- The token of the operator. -/
  token : Token
  /-- The operator. -/
  op : BinaryOp
  isOperator : binaryOp? token.kind = some op
  /-- The operand after the operator. -/
  operand : Operand dialect source

variable {dialect : Dialect} {source : String}

namespace Link

/-- How tight the operator binds. -/
def power (link : Link dialect source) : Nat :=
  link.op.power

/-- The operator and the operand after it. -/
def tokens (link : Link dialect source) : List Token :=
  link.token :: link.operand.tokens

/-- The operator between two operands. -/
def node (link : Link dialect source) (left right : Expr) : Expr :=
  .binary left link.op right (left.span.merge right.span)

end Link

/-- The tokens of several links. -/
def tokensOf (links : List (Link dialect source)) : List Token :=
  links.flatMap Link.tokens

/-- No links have no tokens. -/
@[simp] lemma tokensOf_nil : tokensOf ([] : List (Link dialect source)) = [] :=
  rfl

/-- The tokens of a link come before those of the others. -/
@[simp] lemma tokensOf_cons (link : Link dialect source) (links : List (Link dialect source)) :
    tokensOf (link :: links) = link.token :: (link.operand.tokens ++ tokensOf links) :=
  rfl

/-- The tokens of two chains of links stand in a row. -/
@[simp] lemma tokensOf_append (links links' : List (Link dialect source)) :
    tokensOf (links ++ links') = tokensOf links ++ tokensOf links' :=
  List.flatMap_append

/-! ## The last of the least elements -/

section Split

variable {α : Type} (measure : α → Nat)

/-- Splits a list at the last of the elements of least measure. -/
def splitAtLeast : List α → Option (List α × α × List α)
  | [] => none
  | x :: list =>
    match splitAtLeast list with
    | some (before, least, after) =>
      if measure least ≤ measure x then some (x :: before, least, after) else some ([], x, list)
    | none => some ([], x, list)

variable {measure}

/-- Only an empty list is not split. -/
lemma splitAtLeast_eq_none_iff {list : List α} :
    splitAtLeast measure list = none ↔ list = [] := by
  cases list with
  | nil => simp [splitAtLeast]
  | cons x list =>
    refine ⟨fun none => ?_, fun nil => absurd nil (List.cons_ne_nil _ _)⟩
    unfold splitAtLeast at none
    split at none
    · split at none <;> cases none
    · cases none

/-- What stands before the element is at least as great, and what stands after it is greater. -/
lemma splitAtLeast_spec {list before after : List α} {least : α}
    (split : splitAtLeast measure list = some (before, least, after)) :
    list = before ++ least :: after ∧ (∀ x ∈ before, measure least ≤ measure x) ∧
      ∀ x ∈ after, measure least < measure x := by
  induction list generalizing before least after with
  | nil => cases split
  | cons x list ih =>
    unfold splitAtLeast at split
    split at split
    · next before' least' after' found =>
      obtain ⟨rfl, weak, strong⟩ := ih found
      split at split
      · next le =>
        cases split
        exact ⟨rfl, by simpa using ⟨le, weak⟩, strong⟩
      · next gt =>
        cases split
        refine ⟨rfl, by simp, fun y mem => ?_⟩
        have lt : measure x < measure least' := Nat.not_le.mp gt
        rcases List.mem_append.mp mem with before | after
        · exact Nat.lt_of_lt_of_le lt (weak y before)
        · rcases List.mem_cons.mp after with rfl | after
          · exact lt
          · exact Nat.lt_trans lt (strong y after)
    · next found =>
      cases split
      obtain rfl := splitAtLeast_eq_none_iff.mp found
      simp

/-- There is only one place where a list can be split so. -/
lemma splitAtLeast_append {before after : List α} {least : α}
    (weak : ∀ x ∈ before, measure least ≤ measure x)
    (strong : ∀ x ∈ after, measure least < measure x) :
    splitAtLeast measure (before ++ least :: after) = some (before, least, after) := by
  induction before with
  | nil =>
    rw [List.nil_append]
    unfold splitAtLeast
    split
    · next before least' after found =>
      have mem : least' ∈ before ++ least' :: after := by simp
      rw [← (splitAtLeast_spec found).1] at mem
      rw [if_neg (Nat.not_le.mpr (strong _ mem)), (splitAtLeast_spec found).1]
    · rfl
  | cons x before ih =>
    rw [List.cons_append, splitAtLeast, ih fun y mem => weak y (List.mem_cons_of_mem x mem)]
    exact if_pos (weak x List.mem_cons_self)

end Split

/-! ## Trees -/

/-- The tree of an operand with links after it. At the root stands the last of the weakest
operators, between the trees of what is before it and of what is after it. -/
def treeOf (first : Expr) (links : List (Link dialect source)) : Expr :=
  match _split : splitAtLeast Link.power links with
  | none => first
  | some (before, root, after) => root.node (treeOf first before) (treeOf root.operand.expr after)
termination_by links.length
decreasing_by
  all_goals
    rw [(splitAtLeast_spec _split).1, List.length_append, List.length_cons]
    omega

/-- Without links, the tree is the first operand. -/
lemma treeOf_nil (first : Expr) : treeOf first ([] : List (Link dialect source)) = first := by
  rw [treeOf]
  rfl

/-- **The tree is split at the last of the weakest operators.** -/
lemma treeOf_split (first : Expr) {before after : List (Link dialect source)}
    {root : Link dialect source} (weak : ∀ link ∈ before, root.power ≤ link.power)
    (strong : ∀ link ∈ after, root.power < link.power) :
    treeOf first (before ++ root :: after) =
      root.node (treeOf first before) (treeOf root.operand.expr after) := by
  have found := splitAtLeast_append weak strong
  rw [treeOf]
  split
  · next none => cases none.symm.trans found
  · next split =>
    cases split.symm.trans found
    rfl

/-- **The first operator can be taken first**, with all that binds tighter right after it. The whole
is then the first operand of what is left.

**Proof sketch.** Induction on the number of links that are left. If none is left, the first
operator is the only weakest one. Otherwise the root is among those that are left, since the first
of them binds no tighter than the operator that is taken first; what stands before the root starts
with that operator still, and has fewer links. -/
theorem treeOf_cons (first : Expr) {link : Link dialect source}
    {stronger rest : List (Link dialect source)}
    (strong : ∀ other ∈ stronger, link.power < other.power)
    (weak : ∀ other ∈ rest.head?, other.power ≤ link.power) :
    treeOf first (link :: (stronger ++ rest)) =
      treeOf (link.node first (treeOf link.operand.expr stronger)) rest := by
  induction length : rest.length using Nat.strongRecOn generalizing rest with
  | _ length ih =>
    subst length
    cases split : splitAtLeast Link.power rest with
    | none =>
      obtain rfl := splitAtLeast_eq_none_iff.mp split
      have whole : treeOf first ([] ++ link :: stronger) =
          link.node (treeOf first []) (treeOf link.operand.expr stronger) :=
        treeOf_split first (by simp) strong
      rw [List.nil_append, treeOf_nil] at whole
      rw [List.append_nil, whole, treeOf_nil]
    | some parts =>
      obtain ⟨before, root, after⟩ := parts
      obtain ⟨rfl, weaker, stronger'⟩ := splitAtLeast_spec split
      -- the first link that is left is the root, or it stands before the root
      have least : root.power ≤ link.power := by
        cases before with
        | nil => exact weak root rfl
        | cons other before =>
          exact Nat.le_trans (weaker other List.mem_cons_self) (weak other rfl)
      have before_weak : ∀ other ∈ before.head?, other.power ≤ link.power := by
        cases before with
        | nil => simp
        | cons other before => exact weak
      have all : ∀ other ∈ link :: (stronger ++ before), root.power ≤ other.power := by
        intro other mem
        rcases List.mem_cons.mp mem with rfl | mem
        · exact least
        · rcases List.mem_append.mp mem with inner | outer
          · exact Nat.le_trans least (Nat.le_of_lt (strong other inner))
          · exact weaker other outer
      have whole := treeOf_split first all stronger'
      rw [List.cons_append, List.append_assoc] at whole
      rw [whole, ih before.length (by simp) before_weak rfl, treeOf_split _ weaker stronger']

end Chain

/-- An operand, and any number of further ones after operators. -/
structure Chain (dialect : Dialect) (source : String) where
  /-- The first operand. -/
  first : Chain.Operand dialect source
  /-- The operators, each with the operand after it. -/
  links : List (Chain.Link dialect source)

namespace Chain

variable {dialect : Dialect} {source : String}

/-- The tokens of the chain. -/
def tokens (chain : Chain dialect source) : List Token :=
  chain.first.tokens ++ tokensOf chain.links

/-- The tree of the chain. -/
def tree (chain : Chain dialect source) : Expr :=
  treeOf chain.first.expr chain.links

end Chain

end SqlTree
