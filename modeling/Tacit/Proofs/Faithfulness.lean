import Tacit.Proofs.Failure
import Tacit.Proofs.Soundness

/-!
# Graphs are faithful to their sources

An expression of a graph has the tokens of its source as leaves, one by one and in their order, and
its groups are made by the rules of the grammar from the left.  So every part of it is something
that evaluation knows how to take, and evaluation fails only for reasons that lie in the meanings.
-/

namespace Tacit

/-- The failures that evaluation of grouped sources can end with.  There is nothing in them without
a meaning of its own, and a group that is malformed has the size of a rule. -/
def EvalError.Arises (rules : List Rule) : EvalError → Prop
  | .notEvaluable _ => False
  | .malformed children =>
      children ≠ 2 ∧ children ≠ 3 ∧ ∃ rule ∈ rules, rule.pattern.length = children
  | _ => True

theorem EvalError.arises_missing (rules : List Rule) (set : SymbolSet)
    (expected : List Category) : (set.missing expected).Arises rules := by
  rw [SymbolSet.missing]
  split
  next => trivial
  next => trivial

/-- A failure that does not come from evaluation. -/
def Error.IsStatic (error : Error) : Prop := ∀ reason, error ≠ .eval reason

theorem Expr.toNodes_eq_map (exprs : List Expr) : toNodes exprs = exprs.map toNode := by
  induction exprs with
  | nil => rfl
  | cons expr rest ih => rw [toNodes, ih, List.map_cons]

namespace Evaluator

variable {evaluator : Evaluator} {rules : List Rule}

/-- The search for the meaning of a grouped expression fails only for reasons that can arise. -/
theorem failsOnly_of_leftNested {expr : Expr} (nested : LeftNested rules expr.toNode)
    (plain : ∀ leaf ∈ expr.leaves, leaf.isPlain = true) :
    evaluator.FailsOnly (EvalError.Arises rules) expr := by
  have missing := EvalError.arises_missing rules
  induction expr using Expr.nestedInduction with
  | keyword spelling => exact evaluator.table.symbols_admits spelling
  | number value => exact SymbolSet.admits_noun _
  | reference id => exact Inquiry.alwaysEnds_get id
  | search text | stub categories index =>
      have isPlain := plain _ List.mem_cons_self
      contradiction
  | group children categories ih =>
      rw [Expr.toNode, Expr.toNodes_eq_map] at nested
      have inside : ∀ child ∈ children,
          evaluator.FailsOnly (EvalError.Arises rules) child := by
        intro child member
        refine ih child member ?_ fun leaf inChild => ?_
        · exact nested.children _ (List.mem_map_of_mem member)
        · exact plain leaf (Expr.mem_leavesOf.mpr ⟨child, member, inChild⟩)
      obtain ⟨rule, member, sized⟩ := nested.exists_rule
      rw [List.length_map] at sized
      -- Evaluation takes groups of two and of three; a group of any other size is malformed, and
      -- this is the size of the rule that made it.
      rcases children with _ | ⟨left, _ | ⟨middle, _ | ⟨right, _ | ⟨more, rest⟩⟩⟩⟩
      · exact ⟨by simp, by simp, rule, member, sized⟩
      · exact ⟨by simp, by simp, rule, member, sized⟩
      · exact failsOnly_pair missing categories (inside left (by simp)) (inside middle (by simp))
      · exact failsOnly_triple missing categories (inside left (by simp))
          (inside middle (by simp)) (inside right (by simp))
      · exact ⟨by simp, by simp, rule, member, sized⟩

end Evaluator

namespace Language

variable {language : Language} {sources : Catalog String} {id : String} {expr : Expr}

/-- Every expression of the graph is nested to the left by the rules of the grammar. -/
theorem leftNested_of_graph (found : (language.buildGraph sources).1.get? id = some expr) :
    LeftNested language.rules expr.toNode := by
  obtain ⟨source, _, builds⟩ := builds_of_graph found
  obtain ⟨children, staged, settles⟩ := builds.settles
  obtain ⟨tokens, _, parts⟩ := linkedTokens_of_stage staged
  have steps := Grouper.steps_of_reductionToOne (expand_of_stage staged) settles
  have unfolded : FoldedFront language.rules (Expr.toNodes children) := by
    have tokensOnly : ∀ node ∈ Expr.toNodes children, ∃ token, node = .token token := by
      intro node member
      rw [parts] at member
      obtain ⟨token, _, rfl⟩ := List.mem_map.mp member
      exact ⟨token, rfl⟩
    constructor
    · intro node isHead
      obtain ⟨token, rfl⟩ := tokensOnly node (List.mem_of_mem_head? isHead)
      exact .token token
    · intro node inTail
      exact tokensOnly node (List.mem_of_mem_tail inTail)
  exact (Rule.foldedFront_of_steps steps unfolded).1 _ rfl

/-- The leaves of an expression of the graph are the linked tokens of its source. -/
theorem leaves_of_graph (found : (language.buildGraph sources).1.get? id = some expr) :
    ∃ source tokens, sources.get? id = some source ∧
      language.lexer.tokens source = .ok tokens ∧
      expr.leaves.map Expr.toNode =
        tokens.map fun token => .token (token.link sources.contains) := by
  obtain ⟨source, named, builds⟩ := builds_of_graph found
  obtain ⟨children, staged, sameLeaves⟩ := builds.leaves_eq
  obtain ⟨tokens, lexed, parts⟩ := toNodes_of_stage staged
  refine ⟨source, tokens, named, lexed, ?_⟩
  rw [← expr.leaves_toNode, sameLeaves, parts]

theorem isPlain_of_graph (found : (language.buildGraph sources).1.get? id = some expr) :
    ∀ leaf ∈ expr.leaves, leaf.isPlain = true := by
  obtain ⟨source, tokens, _, lexed, sameLeaves⟩ := leaves_of_graph found
  intro leaf member
  have isToken := List.mem_map_of_mem (f := Expr.toNode) member
  rw [sameLeaves] at isToken
  obtain ⟨token, inTokens, linked⟩ := List.mem_map.mp isToken
  have spelled := Lexer.isSpelled_of_mem_tokens lexed token inTokens
  cases leaf with
  | search text => exact absurd (Node.token.inj linked) (link_ne_search spelled text)
  | stub categories index => cases linked
  | keyword _ | number _ | group _ _ | reference _ => rfl

section Failures

theorem expression_ends (node : Node) : Ends Error.IsStatic (fun _ => True) (expression node) :=
  ends_mapError (fun _ _ => Error.noConfusion) (Expr.ofNode node)

theorem stage_ends (language : Language) (isKnown : String → Bool) (source : String) :
    Ends Error.IsStatic (fun _ => True) (language.stage isKnown source) := by
  have linked : Ends Error.IsStatic (fun _ => True) (language.linkedTokens isKnown source) := by
    rw [linkedTokens]
    split
    next => exact trivial
    next => exact fun _ => Error.noConfusion
  exact linked.bind fun tokens _ => ends_mapM (fun token => expression_ends _) tokens

/-- Building a source fails before evaluation begins. -/
theorem Builds.ends {source : String} {result : Except Error Expr}
    (builds : language.Builds sources source result) :
    Ends Error.IsStatic (fun _ => True) result := by
  cases builds with
  | unstaged error staged =>
      have ends := language.stage_ends sources.contains source
      rwa [staged] at ends
  | grouped children reduced _ _ =>
      exact (ends_mapError (fun _ _ => Error.noConfusion) reduced).bind fun node _ =>
        expression_ends node

/-- The meanings of a graph that is built from sources fail only for reasons that can arise. -/
theorem ending_of_graph (language : Language) (sources : Catalog String) :
    (language.evaluator (language.buildGraph sources).1).resolver.Ending
      (EvalError.Arises language.rules) (SymbolSet.Admits (EvalError.Arises language.rules)) where
  items _ _ found :=
    Evaluator.failsOnly_of_leftNested (leftNested_of_graph found) (isPlain_of_graph found)
  cycle _ := trivial
  unknown _ := trivial

/-- A failure of evaluation that is recorded for a source is what the search for its meaning comes
to, or the refusal of the formula that was found. -/
theorem accounts_of_failure {reason : EvalError}
    (failed : (language.interpretSources sources).failures.get? id = some (.eval reason)) :
    ∃ expr, (language.buildGraph sources).1.get? id = some expr ∧
      ((language.evaluator (language.buildGraph sources).1).resolver.Accounts (.get id)
          (.error reason) ∨ ∃ refused, reason = .execution refused) := by
  have said : ((language.interpretSources sources).entry id).2.2 = some (.eval reason) := failed
  cases found : (language.buildGraph sources).1.get? id with
  | some expr =>
      obtain ⟨meaning, accounts, entry⟩ :=
        (language.evaluator (language.buildGraph sources).1).interpret_entry language.execute found
      rw [interpretSources_entry_of_graph found, interpret, entry] at said
      refine ⟨expr, rfl, ?_⟩
      obtain ⟨other, rfl, same⟩ | ⟨refused, same⟩ := Outcome.failure_of_ofMeaning said
      · cases same
        exact .inl accounts
      · cases same
        exact .inr ⟨refused, rfl⟩
  | none =>
      cases named : sources.get? id with
      | none =>
          have absent := graphEntry_of_not_staged (language.stageAll_entry_of_absent named)
          rw [interpretSources_entry_of_not_built absent] at said
          cases said
      | some source =>
          obtain ⟨result, builds, entry⟩ := language.graphEntry_of_source named
          cases result with
          | ok expr =>
              have stored : (language.buildGraph sources).1.get? id = some expr :=
                congrArg Prod.fst entry
              rw [found] at stored
              contradiction
          | error error =>
              rw [interpretSources_entry_of_error entry] at said
              exact absurd (Option.some.inj said) (builds.ends reason)

/-- A failure of evaluation that is recorded for a source can arise. -/
theorem arises_of_failure {reason : EvalError}
    (failed : (language.interpretSources sources).failures.get? id = some (.eval reason)) :
    reason.Arises language.rules := by
  obtain ⟨_, _, accounts | ⟨refused, rfl⟩⟩ := accounts_of_failure failed
  · exact (ending_of_graph language sources).accounts (Inquiry.alwaysEnds_get id) accounts
  · exact trivial

end Failures

/-- A graph is faithful to its sources.  The leaves of an expression are the tokens of its source,
with known names linked, and its groups are those that rules of the grammar make from the left.  So
evaluation meets nothing that has no meaning of its own, and no group of a size it cannot take
unless a rule makes such groups. -/
theorem buildGraph_faithful (language : Language) (sources : Catalog String) :
    (∀ id expr, (language.buildGraph sources).1.get? id = some expr →
      (∃ source tokens, sources.get? id = some source ∧
        language.lexer.tokens source = .ok tokens ∧
        expr.leaves.map Expr.toNode =
          tokens.map fun token => .token (token.link sources.contains)) ∧
      (∀ leaf ∈ expr.leaves, leaf.isPlain = true) ∧ LeftNested language.rules expr.toNode) ∧
    (∀ id kind, (language.interpretSources sources).failures.get? id ≠
      some (.eval (.notEvaluable kind))) ∧
    ((∀ rule ∈ language.rules, rule.pattern.length = 2 ∨ rule.pattern.length = 3) →
      ∀ id children, (language.interpretSources sources).failures.get? id ≠
        some (.eval (.malformed children))) := by
  refine ⟨?_, ?_, ?_⟩
  · intro id expr found
    exact ⟨leaves_of_graph found, isPlain_of_graph found, leftNested_of_graph found⟩
  · intro id kind failed
    exact arises_of_failure failed
  · intro spans id children failed
    obtain ⟨notTwo, notThree, rule, member, sized⟩ := arises_of_failure failed
    have twoOrThree := spans rule member
    omega

theorem squareSources_faithful :
    (standard.buildGraph squareSources).1.get? "x" = some squareOfFour ∧
      (∀ rule ∈ standard.rules, rule.pattern.length = 2 ∨ rule.pattern.length = 3) ∧
      LeftNested standard.rules squareOfFour.toNode ∧
      ∀ id children, (standard.interpretSources squareSources).failures.get? id ≠
        some (.eval (.malformed children)) := by
  obtain ⟨faithful, _, wellSized⟩ := buildGraph_faithful standard squareSources
  have spans : ∀ rule ∈ standard.rules, rule.pattern.length = 2 ∨ rule.pattern.length = 3 := by
    decide
  exact ⟨squareSources_graph, spans, (faithful "x" _ squareSources_graph).2.2, wellSized spans⟩

end Language

end Tacit
