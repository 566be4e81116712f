import Tacit.Proofs.Failure
import Tacit.Proofs.Unmixed

/-!
# Pipelines associate

A pipeline from a value is done at once, a pipeline between functions is put off.  In a pipeline of
three parts one grouping may do at once what the other puts off.  Values stay values all the way,
and functions in sequence stop at the first failure, so the grouping does not show.
-/

namespace Tacit

/-- How functions in sequence are grouped does not show on any operand. -/
theorem Verb.apply_sequence_assoc (first second third : Verb) (operand : SymbolSet) :
    (Verb.sequence (.sequence first second) third).apply operand =
      (Verb.sequence first (.sequence second third)).apply operand := by
  simp only [apply]
  cases first.apply operand with
  | error error => rfl
  | ok between => rfl

namespace Conjunction

/-- The pipeline of the first two parts, piped into the third. -/
def pipedLeft (left middle right : SymbolSet) : Except EvalError SymbolSet :=
  pipeline.apply left middle >>= fun both => pipeline.apply both right

/-- The first part, piped into the pipeline of the other two. -/
def pipedRight (left middle right : SymbolSet) : Except EvalError SymbolSet :=
  pipeline.apply middle right >>= fun both => pipeline.apply left both

section Grouping

variable {left middle right : SymbolSet} {first second third : Verb}

theorem pipedLeft_of_isNoun (value : left.IsNoun) (middleFunction : middle.monad = some second)
    (rightFunction : right.monad = some third) :
    pipedLeft left middle right = (Verb.sequence second third).apply left := by
  obtain ⟨formula, rfl⟩ := value
  rw [pipedLeft, pipeline_of_noun rfl middleFunction, Verb.apply]
  cases applied : second.apply (.single (.noun formula)) with
  | error error => rfl
  | ok between =>
      -- The function in the middle made a value again, which is handed on at once.
      obtain ⟨made, rfl⟩ := Verb.apply_isNoun ⟨formula, rfl⟩ applied
      exact pipeline_of_noun rfl rightFunction

theorem pipedRight_of_isNoun (value : left.IsNoun) (middleNoValue : middle.noun = none)
    (middleFunction : middle.monad = some second) (rightFunction : right.monad = some third) :
    pipedRight left middle right = (Verb.sequence second third).apply left := by
  obtain ⟨formula, rfl⟩ := value
  rw [pipedRight, pipeline_of_monad middleNoValue middleFunction rightFunction]
  change pipeline.apply (.single (.noun formula)) (.single (.monad (.sequence second third))) = _
  rw [pipeline_of_noun rfl rfl]

theorem pipedLeft_of_monad (leftNoValue : left.noun = none)
    (leftFunction : left.monad = some first) (middleFunction : middle.monad = some second)
    (rightFunction : right.monad = some third) :
    pipedLeft left middle right =
      .ok (.single (.monad (.sequence (.sequence first second) third))) := by
  rw [pipedLeft, pipeline_of_monad leftNoValue leftFunction middleFunction]
  change pipeline.apply (.single (.monad (.sequence first second))) right = _
  rw [pipeline_of_monad rfl rfl rightFunction]

theorem pipedRight_of_monad (leftNoValue : left.noun = none)
    (leftFunction : left.monad = some first) (middleNoValue : middle.noun = none)
    (middleFunction : middle.monad = some second) (rightFunction : right.monad = some third) :
    pipedRight left middle right =
      .ok (.single (.monad (.sequence first (.sequence second third)))) := by
  rw [pipedRight, pipeline_of_monad middleNoValue middleFunction rightFunction]
  change pipeline.apply left (.single (.monad (.sequence second third))) = _
  rw [pipeline_of_monad leftNoValue leftFunction rfl]

end Grouping

end Conjunction

namespace Evaluator

variable {evaluator : Evaluator} {x y z pipe : Expr} {left middle right : SymbolSet}

/-- An expression means a pipeline, and no arithmetic that would come before it. -/
def MeansPipeline (evaluator : Evaluator) (expr : Expr) : Prop :=
  ∃ operator, evaluator.Means expr operator ∧ operator.dyad = none ∧
    operator.conjunction = some .pipeline

/-- An expression written out, or a name for it. -/
def WrittenAs (evaluator : Evaluator) (expr written : Expr) : Prop :=
  written = expr ∨ ∃ id, written = .reference id ∧ evaluator.graph.get? id = some expr

theorem WrittenAs.settles {expr written : Expr} {result : Except EvalError SymbolSet}
    (writtenAs : evaluator.WrittenAs expr written)
    (settles : evaluator.resolver.Settles (evaluator.meaning expr) result) :
    evaluator.resolver.Settles (evaluator.meaning written) result := by
  obtain rfl | ⟨id, rfl, named⟩ := writtenAs
  · exact settles
  · have found : evaluator.resolver.items.get? id = some expr := named
    rw [meaning]
    exact (Resolver.settles_get_iff found).mpr settles

/-- A pipeline comes to what it makes of its two sides, or to the failure on its left. -/
theorem MeansPipeline.settles {categories : Option CategorySet}
    {result : Except EvalError SymbolSet} (pipes : evaluator.MeansPipeline pipe)
    (leftSettles : evaluator.resolver.Settles (evaluator.meaning x) result)
    (rightMeans : evaluator.Means y right) :
    evaluator.resolver.Settles (evaluator.meaning (.group [x, pipe, y] categories))
      (result >>= fun set => Conjunction.pipeline.apply set right) := by
  obtain ⟨operator, operates, noDyad, isPipeline⟩ := pipes
  cases result with
  | ok set =>
      have joined : evaluator.resolver.Settles
          (evaluator.meaning (.group [x, pipe, y] categories)) (operator.between set right) :=
        settles_triple operates (means_iff_settles.mpr leftSettles) rightMeans
      rwa [SymbolSet.between, noDyad, isPipeline] at joined
  | error error =>
      obtain ⟨operatorDepth, operatorFound⟩ := settles_of_means operates
      obtain ⟨leftDepth, leftFailed⟩ := leftSettles
      refine ⟨max operatorDepth leftDepth, ?_⟩
      have operatorHere :=
        Resolver.follow_within_mono (Nat.le_max_left operatorDepth leftDepth) operatorFound
      have failedHere :=
        Resolver.follow_within_mono (Nat.le_max_right operatorDepth leftDepth) leftFailed
      rw [meaning]
      refine Inquiry.follow_bind_eq_error.mpr (.inr ⟨operator, operatorHere, ?_⟩)
      simp only [noDyad, isPipeline]
      exact Inquiry.follow_bind_eq_error.mpr (.inl failedHere)

section Regrouping

variable {early late : Expr} {inner outer : Option CategorySet}

theorem settles_pipedLeft (pipes : evaluator.MeansPipeline pipe)
    (xMeans : evaluator.Means x left) (yMeans : evaluator.Means y middle)
    (zMeans : evaluator.Means z right)
    (written : evaluator.WrittenAs (.group [x, pipe, y] inner) early) :
    evaluator.resolver.Settles (evaluator.meaning (.group [early, pipe, z] outer))
      (Conjunction.pipedLeft left middle right) :=
  pipes.settles (written.settles (pipes.settles (settles_of_means xMeans) yMeans)) zMeans

theorem settles_pipedRight {second third : Verb} (pipes : evaluator.MeansPipeline pipe)
    (xMeans : evaluator.Means x left) (yMeans : evaluator.Means y middle)
    (zMeans : evaluator.Means z right) (middleNoValue : middle.noun = none)
    (middleFunction : middle.monad = some second) (rightFunction : right.monad = some third)
    (written : evaluator.WrittenAs (.group [y, pipe, z] inner) late) :
    evaluator.resolver.Settles (evaluator.meaning (.group [x, pipe, late] outer))
      (Conjunction.pipedRight left middle right) := by
  have joined := Conjunction.pipeline_of_monad middleNoValue middleFunction rightFunction
  have lateSettles := written.settles (pipes.settles (settles_of_means yMeans) zMeans)
  change evaluator.resolver.Settles _ (Conjunction.pipeline.apply middle right) at lateSettles
  rw [joined] at lateSettles
  have settles : evaluator.resolver.Settles (evaluator.meaning (.group [x, pipe, late] outer)) _ :=
    pipes.settles (settles_of_means xMeans) (means_iff_settles.mpr lateSettles)
  rw [Conjunction.pipedRight, joined]
  exact settles

end Regrouping

/-- Three parts are piped alike in both groupings.  From a value on both come to the same, failures
included.  Between functions both make exactly one function, and the two functions take every
operand alike.  This is what evaluation comes to in the two groupings, whether their inner pipeline
is written out or named. -/
theorem pipelines_associate (left middle right : SymbolSet) {second third : Verb}
    (middleNoValue : middle.noun = none) (middleFunction : middle.monad = some second)
    (rightFunction : right.monad = some third) :
    (left.IsNoun →
      Conjunction.pipedLeft left middle right = Conjunction.pipedRight left middle right) ∧
    (∀ first, left.noun = none → left.monad = some first →
      ∃ onLeft onRight,
        Conjunction.pipedLeft left middle right = .ok (.single (.monad onLeft)) ∧
        Conjunction.pipedRight left middle right = .ok (.single (.monad onRight)) ∧
        ∀ operand, onLeft.apply operand = onRight.apply operand) ∧
    ∀ (evaluator : Evaluator) (x y z pipe early late : Expr) (inner outer : Option CategorySet),
      evaluator.MeansPipeline pipe → evaluator.Means x left → evaluator.Means y middle →
      evaluator.Means z right → evaluator.WrittenAs (.group [x, pipe, y] inner) early →
      evaluator.WrittenAs (.group [y, pipe, z] inner) late →
      evaluator.resolver.Settles (evaluator.meaning (.group [early, pipe, z] outer))
        (Conjunction.pipedLeft left middle right) ∧
      evaluator.resolver.Settles (evaluator.meaning (.group [x, pipe, late] outer))
        (Conjunction.pipedRight left middle right) := by
  refine ⟨fun value => ?_, fun first leftNoValue leftFunction => ?_, ?_⟩
  · rw [Conjunction.pipedLeft_of_isNoun value middleFunction rightFunction,
      Conjunction.pipedRight_of_isNoun value middleNoValue middleFunction rightFunction]
  · exact ⟨_, _,
      Conjunction.pipedLeft_of_monad leftNoValue leftFunction middleFunction rightFunction,
      Conjunction.pipedRight_of_monad leftNoValue leftFunction middleNoValue middleFunction
        rightFunction,
      Verb.apply_sequence_assoc first second third⟩
  · intro evaluator x y z pipe early late inner outer pipes xMeans yMeans zMeans earlyWritten
      lateWritten
    exact ⟨settles_pipedLeft pipes xMeans yMeans zMeans earlyWritten,
      settles_pipedRight pipes xMeans yMeans zMeans middleNoValue middleFunction rightFunction
        lateWritten⟩

/-- The pipeline `4 +~`, under a name. -/
def fourDoubled : Evaluator where
  table := .standard
  graph := .ofList [("doubled", .group [.number 4, .keyword " ",
    .group [.keyword "+", .keyword "~"] none] none)]

/-- The value 4 doubled, with its sign turned. -/
def fourDoubledNegated : Formula := .unary .negate (.binary .add (.number 4) (.number 4))

/-- From 4 on, doubling and turning the sign are piped alike in both groupings, and so they are
after the identity.  One grouping uses the name of its inner pipeline. -/
theorem fourDoubled_pipelines_associate :
    fourDoubled.resolver.Settles (fourDoubled.meaning
        (.group [.reference "doubled", .keyword " ", .keyword "-"] none))
      (.ok (.single (.noun fourDoubledNegated))) ∧
    fourDoubled.resolver.Settles (fourDoubled.meaning
        (.group [.number 4, .keyword " ", .group [.group [.keyword "+", .keyword "~"] none,
          .keyword " ", .keyword "-"] none] none))
      (.ok (.single (.noun fourDoubledNegated))) ∧
    ∃ onLeft onRight,
      Conjunction.pipedLeft (.single (.monad .identity)) (.single (.monad (.reflexive .add)))
        (KeywordTable.standard.symbols "-") = .ok (.single (.monad onLeft)) ∧
      Conjunction.pipedRight (.single (.monad .identity)) (.single (.monad (.reflexive .add)))
        (KeywordTable.standard.symbols "-") = .ok (.single (.monad onRight)) ∧
      onLeft.apply (.single (.noun (.number 4))) = onRight.apply (.single (.noun (.number 4))) := by
  have doubles : fourDoubled.Means (.group [.keyword "+", .keyword "~"] none)
      (.single (.monad (.reflexive .add))) := .pair (.keyword "+") (.keyword "~") rfl
  have pipes : fourDoubled.MeansPipeline (.keyword " ") := ⟨_, .keyword " ", rfl, rfl⟩
  obtain ⟨fromValue, _, evaluated⟩ := pipelines_associate (.single (.noun (.number 4)))
    (.single (.monad (.reflexive .add))) (KeywordTable.standard.symbols "-") rfl rfl rfl
  obtain ⟨_, betweenFunctions, _⟩ := pipelines_associate (.single (.monad .identity))
    (.single (.monad (.reflexive .add))) (KeywordTable.standard.symbols "-") rfl rfl rfl
  obtain ⟨onLeft, onRight, leftFound, rightFound, alike⟩ := betweenFunctions _ rfl rfl
  have piped : Conjunction.pipedRight (.single (.noun (.number 4)))
      (.single (.monad (.reflexive .add))) (KeywordTable.standard.symbols "-") =
      .ok (.single (.noun fourDoubledNegated)) := rfl
  obtain ⟨earlySettles, lateSettles⟩ := evaluated fourDoubled _ _ _ _ _ _ none none pipes
    (.number 4) doubles (.keyword "-") (.inr ⟨"doubled", rfl, rfl⟩) (.inl rfl)
  rw [fromValue ⟨_, rfl⟩, piped] at earlySettles
  rw [piped] at lateSettles
  exact ⟨earlySettles, lateSettles, onLeft, onRight, leftFound, rightFound, alike _⟩

end Evaluator

end Tacit
