import SqlTree.Proofs.Bounds.Rules
import SqlTree.Proofs.Reread.Column
import SqlTree.Proofs.Reread.Operator
import SqlTree.Proofs.Reread.Query
import SqlTree.Proofs.Reread.Table
import SqlTree.Proofs.Reread.TypeName

set_option autoImplicit false

/-!
# Reading expressions, queries and table references again

What is read with rules of some depth is read again with rules of the same depth, as the second
reading reaches every part inside the same parts.

## Main results

* `SqlTree.Rereading.known` — expressions, queries and table references are read again.
-/

namespace SqlTree

namespace Rereading

open SqlTree.Parser SqlTree.Grammar

variable {α : Type} {E : Rereading} {n : Nat} {form : Form α} {p p' : Parser α}
  {ends ends' : Cursor → List Word → Prop}

/-- The same way of reading again, with other rules. -/
def withRules (E : Rereading) (rules again : Rules) : Rereading :=
  { E with rules, again }

/-- Following does not depend on the rules. -/
lemma Follows.withRules {c c' : Cursor} {rest : List Word} (rules again : Rules) :
    (E.withRules rules again).Follows n c c' rest ↔ E.Follows n c c' rest :=
  ⟨fun ⟨reached, reached', short, spells⟩ => ⟨reached, reached', short, spells⟩,
    fun ⟨reached, reached', short, spells⟩ => ⟨reached, reached', short, spells⟩⟩

/-- Which rules there are besides does not matter. -/
lemma Reruns.withRules {rules again : Rules} (reruns : E.Reruns n form ends p p')
    (same : ∀ {c rest}, ends' c rest → ends c rest) :
    (E.withRules rules again).Reruns n form ends' p p' := by
  intro c c' value c₁ rest run follows keeps safe quiet
  refine (reruns run ((Follows.withRules _ _).mp follows) keeps safe (same quiet)).mono ?_
  rintro value' c₁' ⟨follows, bare⟩
  exact ⟨(Follows.withRules _ _).mpr follows, bare⟩

/-- **Expressions, queries and table references are read again** by rules that are as deep.

**Proof sketch.** Induction on the depth of the first rules: the parts are read by rules of the next
smaller depth. -/
theorem known (dialect : Dialect) (mode : Mode) {limit limit' : Nat} (enough : n ≤ limit')
    {depth depth' : Nat} (deep : depth ≤ depth') :
    Known ⟨dialect, mode, Grammar.rules limit depth, Grammar.rules limit' depth'⟩ n := by
  induction depth generalizing depth' with
  | zero =>
    replace enough : n ≤ (Grammar.rules limit' depth').limit := by rwa [limit_rules]
    exact ⟨enough, fun _ _ _ _ _ _ run => absurd run not_accepted_exhausted,
      fun _ _ _ _ _ run => absurd run not_accepted_exhausted,
      fun _ _ _ _ _ run => absurd run not_accepted_exhausted, typeName_again enough,
      rules_sound .., rules_sound .., fun run => absurd run not_accepted_exhausted,
      fun run => absurd run not_accepted_exhausted⟩
  | succ depth ih =>
    obtain ⟨depth', rfl⟩ : ∃ less, depth' = less + 1 := ⟨depth' - 1, by omega⟩
    have parts := ih (Nat.le_of_succ_le_succ deep)
    refine ⟨enough, fun least => ?_, ?_, ?_, ?_, rules_sound .., rules_sound .., ?_, ?_⟩
    · exact (expression_again parts least).withRules id
    · exact (query_again parts).withRules id
    · exact (joinedTables_again parts).withRules id
    · exact typeName_again enough
    · exact fun run _ => query_front run
    · exact expression_front parts

end Rereading

end SqlTree
