import Mathlib.Data.List.Forall2
import Tacit.Keyword.Standard
import Tacit.Proofs.Session

/-!
# References are transparent

A reference means what the expression means that it names.  So the expression may be written in the
stead of the reference, at some places and not at others, even inside the expression itself or
along a cycle: no name gains, loses or changes its meaning.
-/

namespace Tacit

/-- The second expression is the first with `named` in the stead of some references to `id`. -/
inductive Expr.Inlines (id : String) (named : Expr) : Expr → Expr → Prop
  /-- Nothing is replaced. -/
  | kept (expr : Expr) : Inlines id named expr expr
  /-- The reference is replaced. -/
  | replaced : Inlines id named (.reference id) named
  /-- Something is replaced inside the children of a group. -/
  | group {children others : List Expr} (categories : Option CategorySet)
      (each : List.Forall₂ (Inlines id named) children others) :
      Inlines id named (.group children categories) (.group others categories)

/-- The second graph is the first with the expression of a name in the stead of some references to
the name, in any of its expressions. -/
structure Graph.Inlines (graph : Graph) (id : String) (named : Expr) (inlined : Graph) : Prop where
  found : graph.get? id = some named
  related : ∀ name, Option.Rel (Expr.Inlines id named) (graph.get? name) (inlined.get? name)

namespace Evaluator

variable {table : KeywordTable} {graph inlined : Graph} {id : String} {named expr other : Expr}
  {set : SymbolSet}

/-- A meaning stays when references are replaced. -/
theorem Means.inline (graphs : graph.Inlines id named inlined)
    (means : (Evaluator.mk table graph).Means expr set)
    (inlines : Expr.Inlines id named expr other) :
    (Evaluator.mk table inlined).Means other set := by
  induction means generalizing other with
  | keyword spelling =>
      cases inlines
      exact .keyword spelling
  | number value =>
      cases inlines
      exact .number value
  | @reference name target set targetFound meansTarget ih =>
      cases inlines with
      | kept =>
          have here := graphs.related name
          rw [show graph.get? name = some target from targetFound] at here
          generalize now : inlined.get? name = after at here
          cases here with
          | some inlinesTarget => exact .reference now (ih inlinesTarget)
      | replaced =>
          -- The copy still mentions the names that the expression mentions, itself included.
          cases graphs.found.symm.trans targetFound
          exact ih (.kept named)
  | triple operates leftMeans rightMeans joined operatesIh leftIh rightIh =>
      cases inlines with
      | kept => exact .triple (operatesIh (.kept _)) (leftIh (.kept _)) (rightIh (.kept _)) joined
      | group _ each =>
          obtain _ | ⟨left, _ | ⟨middle, _ | ⟨right, _ | _⟩⟩⟩ := each
          exact .triple (operatesIh middle) (leftIh left) (rightIh right) joined
  | pair leftMeans rightMeans applied leftIh rightIh =>
      cases inlines with
      | kept => exact .pair (leftIh (.kept _)) (rightIh (.kept _)) applied
      | group _ each =>
          obtain _ | ⟨left, _ | ⟨right, _ | _⟩⟩ := each
          exact .pair (leftIh left) (rightIh right) applied

/-- An expression means what it means with references replaced, provided that this holds where
they are replaced inside a group. -/
theorem means_of_inlines {evaluator : Evaluator} (found : evaluator.graph.get? id = some named)
    (inlines : Expr.Inlines id named expr other) (same : evaluator.Means other set)
    (inside : ∀ children others categories, expr = .group children categories →
      other = .group others categories → List.Forall₂ (Expr.Inlines id named) children others →
      evaluator.Means expr set) : evaluator.Means expr set := by
  cases inlines with
  | kept => exact same
  | replaced => exact .reference found same
  | group categories each => exact inside _ _ categories rfl rfl each

/-- A meaning stays when replaced references are put back. -/
theorem Means.of_inline (graphs : graph.Inlines id named inlined)
    (means : (Evaluator.mk table inlined).Means other set)
    (inlines : Expr.Inlines id named expr other) : (Evaluator.mk table graph).Means expr set := by
  -- The meaning with everything as it is comes first: a replaced reference rests on it.
  induction means generalizing expr with
  | keyword spelling => exact means_of_inlines graphs.found inlines (.keyword spelling) nofun
  | number value => exact means_of_inlines graphs.found inlines (.number value) nofun
  | @reference name target set targetFound meansTarget ih =>
      have here := graphs.related name
      rw [show inlined.get? name = some target from targetFound] at here
      generalize before : graph.get? name = source at here
      cases here with
      | some inlinesTarget =>
          exact means_of_inlines graphs.found inlines (.reference before (ih inlinesTarget)) nofun
  | triple operates leftMeans rightMeans joined operatesIh leftIh rightIh =>
      refine means_of_inlines graphs.found inlines
        (.triple (operatesIh (.kept _)) (leftIh (.kept _)) (rightIh (.kept _)) joined) ?_
      rintro children others categories rfl ⟨⟩ each
      obtain _ | ⟨left, _ | ⟨middle, _ | ⟨right, _ | _⟩⟩⟩ := each
      exact .triple (operatesIh middle) (leftIh left) (rightIh right) joined
  | pair leftMeans rightMeans applied leftIh rightIh =>
      refine means_of_inlines graphs.found inlines
        (.pair (leftIh (.kept _)) (rightIh (.kept _)) applied) ?_
      rintro children others categories rfl ⟨⟩ each
      obtain _ | ⟨left, _ | ⟨right, _ | _⟩⟩ := each
      exact .pair (leftIh left) (rightIh right) applied

/-- Writing the expression of a name in the stead of any references to it changes no meaning.
Every name is answered with a meaning in one graph exactly if it is in the other, and with the same
one, whatever either evaluator was asked before. -/
theorem answer_inlined_iff (table : KeywordTable) {graph inlined : Graph} {id : String}
    {named : Expr} (graphs : graph.Inlines id named inlined) (earlier others : List Query)
    (name : String) (set : SymbolSet) :
    (Evaluator.mk table inlined).answerAfter others (.name name) = .ok set ↔
      (Evaluator.mk table graph).answerAfter earlier (.name name) = .ok set := by
  rw [answerAfter_eq_ok_iff_means, answerAfter_eq_ok_iff_means]
  constructor
  · intro means
    exact means.of_inline graphs (.kept _)
  · intro means
    exact means.inline graphs (.kept _)

/-- The function `- + #` under a name and its value at its value at five, with the function written
out where it is applied first. -/
def onceWrittenOut : Graph := Graph.negatePlusSelfTwice.insert "x"
  (.group [.reference "f", .group [.negatePlusSelf, .reference "five"] none] none)

theorem negatePlusSelfTwice_inlines :
    Graph.negatePlusSelfTwice.Inlines "f" .negatePlusSelf onceWrittenOut := by
  refine ⟨rfl, fun name => ?_⟩
  by_cases isValue : name = "x"
  · rw [isValue, onceWrittenOut, Catalog.get?_insert_self]
    have written : Expr.Inlines "f" .negatePlusSelf
        (.group [.reference "f", .reference "five"] none)
        (.group [.negatePlusSelf, .reference "five"] none) :=
      .group none (.cons .replaced (.cons (.kept _) .nil))
    exact .some (.group none (.cons (.kept _) (.cons written .nil)))
  · rw [onceWrittenOut, Catalog.get?_insert_of_ne _ _ isValue]
    cases Graph.negatePlusSelfTwice.get? name with
    | none => exact .none
    | some expr => exact .some (.kept expr)

/-- The value is the same whether the function is named or written out. -/
theorem onceWrittenOut_answered :
    Graph.negatePlusSelfTwice.Inlines "f" .negatePlusSelf onceWrittenOut ∧
      (Evaluator.mk .standard .negatePlusSelfTwice).answerAfter [] (.name "x") =
        .ok (.single (.noun (Formula.number 5).negatePlusSelf.negatePlusSelf)) ∧
      (Evaluator.mk .standard onceWrittenOut).answerAfter [] (.name "x") =
        .ok (.single (.noun (Formula.number 5).negatePlusSelf.negatePlusSelf)) := by
  have answered : (Evaluator.mk .standard .negatePlusSelfTwice).answerAfter [] (.name "x") = _ :=
    answerAfter_eq_ok_iff_means.mpr means_negatePlusSelfTwice
  exact ⟨negatePlusSelfTwice_inlines, answered,
    (answer_inlined_iff .standard negatePlusSelfTwice_inlines [] [] "x" _).mpr answered⟩

end Evaluator

end Tacit
