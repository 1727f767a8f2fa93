import SqlTree.Proofs.Chains.Operand

set_option autoImplicit false

/-!
# Chains of operators are read as the levels say

The loop over operators reads a chain from left to right: whenever an operator is next that binds as
tight as asked for, it is taken together with the operators after it that bind tighter, and the
whole is the operand of what follows. So the loop reads the links up to the first one that binds
less tight than asked for, and makes of them the tree of the chain.

## Main results

* `SqlTree.Chain.run_links` — what the loop makes of the links that it reads.
* `SqlTree.Chain.parseAt_tokens` — a chain by itself is read as its tree.
-/

namespace SqlTree.Chain

open Grammar SqlTree.Parser

variable {dialect : Dialect} {source : String} {previous last : Token}

/-! ## What comes next -/

/-- After an operand there is another link, or the end of input. -/
lemma endsOperand (links : List (Link dialect source)) (ends : last.kind = .endOfInput) :
    Cursor.EndsOperand ⟨source, previous, tokensOf links, last⟩ := by
  cases links with
  | nil => exact .inl ends
  | cons link links => exact .inr ⟨link.op, link.isOperator⟩

/-- No link goes on if the next one binds less tight than asked for. -/
lemma declines {links : List (Link dialect source)} {least : Nat} (ends : last.kind = .endOfInput)
    (weak : ∀ link ∈ links.head?, link.power < least) :
    operatorAt least ((⟨source, previous, tokensOf links, last⟩ : Cursor).peek 0).kind
      ((⟨source, previous, tokensOf links, last⟩ : Cursor).peek 1).kind = false := by
  cases links with
  | nil =>
    change operatorAt least last.kind last.kind = false
    rw [ends]
    rfl
  | cons link links =>
    change operatorAt least link.token.kind _ = false
    rw [operatorAt_of_binaryOp? link.isOperator]
    exact decide_eq_false (Nat.not_le.mpr (weak link rfl))

/-! ## The loop over operators -/

/-- The links after a link that bind tighter than it, up to one that does not. -/
lemma exists_stronger (link : Link dialect source) (links : List (Link dialect source)) :
    ∃ stronger rest, links = stronger ++ rest ∧ (∀ other ∈ stronger, link.power < other.power) ∧
      ∀ other ∈ rest.head?, other.power ≤ link.power := by
  induction links with
  | nil => exact ⟨[], [], rfl, by simp, by simp⟩
  | cons other links ih =>
    by_cases tighter : link.power < other.power
    · obtain ⟨stronger, rest, rfl, strong, weak⟩ := ih
      exact ⟨other :: stronger, rest, rfl, by simpa using ⟨tighter, strong⟩, weak⟩
    · exact ⟨[], other :: links, rfl, by simp, by simpa using tighter⟩

/-- The last element of two lists in a row is that of the second, or else of the first. -/
lemma getLastD_append {α : Type} (first second : List α) (default : α) :
    (first ++ second).getLastD default = second.getLastD (first.getLastD default) := by
  simp only [List.getLastD_eq_getLast?, List.getLast?_append, Option.getD_or]

/-- There are at least as many tokens as links. -/
lemma length_le (links : List (Link dialect source)) : links.length ≤ (tokensOf links).length := by
  induction links with
  | nil => rfl
  | cons link links ih =>
    simp only [tokensOf_cons, List.length_cons, List.length_append]
    omega

/-- An operator is taken with what its right operand is read as. -/
lemma run_link {link : Link dialect source} {limit depth least : Nat} {left right : Expr}
    {ahead : List Token} {stop : Cursor} (arrows : dialect.supports .jsonArrows = true)
    (strong : least ≤ link.power)
    (run : ((rules limit depth).operators (link.power + 1)).run dialect
      ⟨source, link.token, ahead, last⟩ = .accepted right stop) :
    (nextOperator (rules limit depth) least left).run dialect
        ⟨source, previous, link.token :: ahead, last⟩ =
      .accepted (some (link.node left right)) stop := by
  let place : Cursor := ⟨source, previous, link.token :: ahead, last⟩
  have found : binaryOp? place.current.kind = some link.op := link.isOperator
  refine run_nextOperator_some (infixPower_of_binaryOp? found) ?_ ?_
  · change operatorAt least link.token.kind _ = true
    rw [operatorAt_of_binaryOp? link.isOperator]
    exact decide_eq_true strong
  · rw [run_operatorAfter_of rfl, operatorOf_binary found, run_binaryExpr found fun _ => arrows]
    change (binaryAfter (rules limit depth) left link.power link.op).run dialect
      ⟨source, link.token, ahead, last⟩ = _
    unfold binaryAfter
    rw [run_bind, run]
    rfl

/-- An operand is read first, and then the links after it. -/
lemma run_operators (operand : Operand dialect source) {links : List (Link dialect source)}
    {limit depth least : Nat} {outcome : Outcome Expr} (ends : last.kind = .endOfInput)
    (enough : operand.tokens.length + (tokensOf links).length ≤ limit)
    (deep : operand.tokens.length + (tokensOf links).length ≤ depth)
    (loop : (iterate (nextOperator (rules limit depth) least) limit operand.expr).run dialect
      ⟨source, operand.tokens.getLastD previous, tokensOf links, last⟩ = outcome) :
    ((rules limit (depth + 1)).operators least).run dialect
      ⟨source, previous, operand.tokens ++ tokensOf links, last⟩ = outcome := by
  change (expression (rules limit depth) least).run _ _ = _
  unfold expression
  rw [run_bind, operand.isOperand.run_operand (endsOperand links ends) enough deep, limit_rules]
  exact loop

/-- **The loop over operators makes the tree of the links that it reads.** It reads the links that
bind as tight as asked for, up to the first one that does not.

**Proof sketch.** Induction on the number of links that are read. The first of them is taken with
those after it that bind tighter, which its right operand reads in the same way. Then the loop goes
on with the rest, and the whole is the tree of all of them, since the first operator of a chain can
be taken first. -/
theorem run_links (arrows : dialect.supports .jsonArrows = true) (ends : last.kind = .endOfInput)
    {limit depth least fuel : Nat} {left : Expr} {taken others : List (Link dialect source)}
    (strong : ∀ link ∈ taken, least ≤ link.power)
    (weak : ∀ link ∈ others.head?, link.power < least)
    (enough : (tokensOf (taken ++ others)).length ≤ limit)
    (deep : (tokensOf (taken ++ others)).length ≤ depth) (more : taken.length < fuel) :
    (iterate (nextOperator (rules limit depth) least) fuel left).run dialect
        ⟨source, previous, tokensOf (taken ++ others), last⟩ =
      .accepted (treeOf left taken)
        ⟨source, (tokensOf taken).getLastD previous, tokensOf others, last⟩ := by
  induction length : taken.length using Nat.strongRecOn
    generalizing taken others depth least fuel left previous with
  | _ length ih =>
    subst length
    cases taken with
    | nil =>
      rw [treeOf_nil]
      exact run_iterate_of_none more (run_nextOperator_none (declines ends weak))
    | cons link links =>
      obtain ⟨stronger, rest, rfl, tighter, weaker⟩ := exists_stronger link links
      have first : least ≤ link.power := strong link List.mem_cons_self
      have weaker' : ∀ other ∈ (rest ++ others).head?, other.power < link.power + 1 := by
        cases rest with
        | nil =>
          exact fun other mem =>
            Nat.lt_succ_of_lt (Nat.lt_of_lt_of_le (weak other mem) first)
        | cons other rest => exact fun other mem => Nat.lt_succ_of_le (weaker other mem)
      have strong' : ∀ other ∈ rest, least ≤ other.power := fun other mem =>
        strong other (List.mem_cons_of_mem _ (List.mem_append_right _ mem))
      simp only [List.cons_append, List.append_assoc, tokensOf_cons, List.length_cons,
        List.length_append] at enough deep more ⊢
      obtain ⟨depth, rfl⟩ : ∃ less, depth = less + 1 := ⟨depth - 1, by omega⟩
      obtain ⟨fuel, rfl⟩ : ∃ less, fuel = less + 1 := ⟨fuel - 1, by omega⟩
      have few := length_le (stronger ++ (rest ++ others))
      rw [List.length_append, List.length_append] at few
      have fewer : (tokensOf (rest ++ others)).length ≤
          (tokensOf (stronger ++ (rest ++ others))).length := by
        rw [tokensOf_append stronger, List.length_append]
        omega
      have right : ((rules limit (depth + 1)).operators (link.power + 1)).run dialect
          ⟨source, link.token, link.operand.tokens ++
            tokensOf (stronger ++ (rest ++ others)), last⟩ =
          .accepted (treeOf link.operand.expr stronger)
            ⟨source, (tokensOf stronger).getLastD (link.operand.tokens.getLastD link.token),
              tokensOf (rest ++ others), last⟩ := by
        refine run_operators link.operand ends (by omega) (by omega) ?_
        exact ih stronger.length (by
          simp only [List.length_cons, List.length_append]
          omega) tighter
          weaker' (by omega) (by omega) (by omega) rfl
      rw [run_iterate_of_some fuel (run_link arrows first right), treeOf_cons left tighter weaker,
        ih rest.length (by simp only [List.length_cons, List.length_append]; omega) strong' weak
          (by omega) (by omega) (by omega) rfl]
      simp only [List.getLastD_cons, tokensOf_append, getLastD_append]

/-! ## Whole chains -/

/-- **Chains of operators are read as the levels say.** A chain by itself is an expression, and what
it is read as is its tree: at the root stands the last of the weakest operators, with the tree of
the chain before it on the left and that of the chain after it on the right. -/
theorem parseAt_tokens (chain : Chain dialect source) (previous : Token)
    (arrows : dialect.supports .jsonArrows = true) (ends : last.kind = .endOfInput) :
    Expr.parseAt dialect ⟨source, previous, chain.tokens, last⟩ =
      .accepted chain.tree ⟨source, chain.tokens.getLastD previous, [], last⟩ := by
  let count := chain.tokens.length
  have few := length_le chain.links
  have length : chain.first.tokens.length + (tokensOf chain.links).length = count :=
    List.length_append.symm
  have loop : (iterate (nextOperator (rules (count + 1) count) 0) (count + 1)
      chain.first.expr).run dialect
        ⟨source, chain.first.tokens.getLastD previous, tokensOf (chain.links ++ []), last⟩ =
      .accepted chain.tree
        ⟨source, (tokensOf chain.links).getLastD (chain.first.tokens.getLastD previous),
          [], last⟩ :=
    run_links arrows ends (fun _ _ => Nat.zero_le _) (by simp) (by rw [List.append_nil]; omega)
      (by rw [List.append_nil]; omega) (by omega)
  rw [List.append_nil, ← getLastD_append] at loop
  have read : (rules (count + 1) (count + 1)).expr.run dialect
      ⟨source, previous, chain.tokens, last⟩ =
      .accepted chain.tree ⟨source, chain.tokens.getLastD previous, [], last⟩ :=
    run_operators chain.first ends (by omega) (by omega) loop
  change (wholeExpression (rules (count + 1) (count + 1))).run dialect _ = _
  unfold wholeExpression
  rw [run_bind, read]
  exact run_expectEnd (Token.isEnd_iff.mpr ends)

/-- The last of the weakest operators is at the root, however tight what is around it binds.

**Proof sketch.** The operands of `a-b*(c)-+d` are built up from their tokens, with `(c)` read on
its own. The second minus is the last of the weakest operators, so the tree is split there
(`treeOf_split`), and it is what is parsed (`parseAt_tokens`). -/
theorem parseAt_tokens_root :
    let place := Dialect.generic.start "a-b*(c)-+d"
    Dialect.generic.supports .jsonArrows = true ∧ place.last.kind = .endOfInput ∧
      ∃ chain : Chain .generic place.source, chain.tokens = place.ahead ∧
        chain.links.map Link.op = [.sub, .mul, .sub] ∧
        (∃ left operand span span',
          chain.tree = .binary left .sub (.unary .plus operand span) span') ∧
        Expr.parseAt .generic place =
          .accepted chain.tree ⟨place.source, chain.tokens.getLastD place.previous, [],
            place.last⟩ := by
  intro place
  let token (kind : TokenKind) (lexeme : String) (start : Nat) : Token :=
    ⟨kind, lexeme, ⟨start, start + 1, 1, start + 1⟩⟩
  let name (lexeme : String) (start : Nat) := token (.identifier lexeme) lexeme start
  let column (lexeme : String) (start : Nat) : Operand .generic place.source :=
    ⟨_, _, @IsOperand.column _ _ (name lexeme start) rfl⟩
  have inside : ∀ token ∈ [name "c" 5], token.kind ≠ .endOfInput := by
    simp [name, token]
  have reads : (Expr.parseAt .generic (.ofTokens place.source [name "c" 5])).result =
      .ok (column "c" 5).expr := rfl
  let inner : Operand .generic place.source :=
    ⟨_, _, @IsOperand.parentheses _ _ (token (.symbol .leftParen) "(" 4)
      (token (.symbol .rightParen) ")" 6) _ _ rfl rfl inside reads⟩
  let signed : Operand .generic place.source :=
    ⟨_, _, @IsOperand.signed _ _ (token (.symbol .plus) "+" 8) .plus 21 _ _ rfl (by decide)
      (column "d" 9).isOperand⟩
  let first : Link .generic place.source := ⟨token (.symbol .minus) "-" 1, .sub, rfl, column "b" 2⟩
  let second : Link .generic place.source := ⟨token (.symbol .star) "*" 3, .mul, rfl, inner⟩
  let root : Link .generic place.source := ⟨token (.symbol .minus) "-" 7, .sub, rfl, signed⟩
  let chain : Chain .generic place.source := ⟨column "a" 0, [first, second, root]⟩
  have weak : ∀ link ∈ [first, second], root.power ≤ link.power := by
    simp [first, second, root, Link.power, BinaryOp.power]
  have split : treeOf (column "a" 0).expr ([first, second] ++ root :: []) =
      root.node (treeOf (column "a" 0).expr [first, second]) (treeOf signed.expr []) :=
    treeOf_split _ weak (by simp)
  rw [treeOf_nil] at split
  refine ⟨rfl, rfl, chain, rfl, rfl, ⟨_, _, _, _, split⟩, ?_⟩
  exact parseAt_tokens chain place.previous rfl rfl

end SqlTree.Chain
