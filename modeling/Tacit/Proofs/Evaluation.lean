import Tacit.Evaluation
import Tacit.Keyword.Standard
import Tacit.Proofs.Expression
import Tacit.Proofs.Keyword
import Tacit.Proofs.Resolver

/-!
# The meaning of an expression, without a memory

`Evaluator.Means` gives the meanings of expressions by rules, one for each way a meaning comes
about.  It mentions neither a memory nor a guard against cycles.  An evaluator finds exactly these
meanings, whatever it remembers.
-/

namespace Tacit

namespace Evaluator

/-- An expression has this meaning. -/
inductive Means (evaluator : Evaluator) : Expr → SymbolSet → Prop
  | keyword (spelling : String) :
      Means evaluator (.keyword spelling) (evaluator.table.symbols spelling)
  | number (value : Float) :
      Means evaluator (.number value) (.single (.noun (.number value)))
  | reference {id : String} {expr : Expr} {set : SymbolSet}
      (found : evaluator.graph.get? id = some expr) (named : Means evaluator expr set) :
      Means evaluator (.reference id) set
  | triple {left middle right : Expr} {categories : Option CategorySet}
      {operator x y set : SymbolSet} (operates : Means evaluator middle operator)
      (leftMeans : Means evaluator left x) (rightMeans : Means evaluator right y)
      (joined : operator.between x y = .ok set) :
      Means evaluator (.group [left, middle, right] categories) set
  | pair {left right : Expr} {categories : Option CategorySet} {operand argument set : SymbolSet}
      (leftMeans : Means evaluator left operand) (rightMeans : Means evaluator right argument)
      (applied : operand.beside argument = .ok set) :
      Means evaluator (.group [left, right] categories) set

variable {evaluator : Evaluator}

/-- Every function that can be meant is proper. -/
theorem Means.proper {expr : Expr} {set : SymbolSet}
    (means : evaluator.Means expr set) : set.Proper := by
  induction means with
  | keyword spelling => exact evaluator.table.symbols_proper spelling
  | number value => exact SymbolSet.proper_noun _
  | reference found named ih => exact ih
  | triple operates leftMeans rightMeans joined operatesIh leftIh rightIh =>
      exact SymbolSet.between_proper leftIh rightIh joined
  | pair leftMeans rightMeans applied leftIh rightIh =>
      exact SymbolSet.beside_proper leftIh rightIh applied

theorem follow_triple {answers : String → Option (Except EvalError SymbolSet)}
    {left middle right : Expr} {categories : Option CategorySet} {set : SymbolSet} :
    (evaluator.meaning (.group [left, middle, right] categories)).follow answers =
        some (.ok set) ↔
      ∃ operator x y, (evaluator.meaning middle).follow answers = some (.ok operator) ∧
        (evaluator.meaning left).follow answers = some (.ok x) ∧
        (evaluator.meaning right).follow answers = some (.ok y) ∧
        operator.between x y = .ok set := by
  rw [meaning, Inquiry.follow_bind_eq_ok]
  refine exists_congr fun operator => ?_
  rcases dyad : operator.dyad with _ | op
  · rcases conjunction : operator.conjunction with _ | joins
    · simp [SymbolSet.between, dyad, conjunction, Inquiry.fail]
    · simp [SymbolSet.between, dyad, conjunction, Inquiry.follow_bind_eq_ok]
  · simp [SymbolSet.between, dyad, Inquiry.follow_bind_eq_ok]

theorem follow_pair {answers : String → Option (Except EvalError SymbolSet)}
    {left right : Expr} {categories : Option CategorySet} {set : SymbolSet} :
    (evaluator.meaning (.group [left, right] categories)).follow answers = some (.ok set) ↔
      ∃ operand argument, (evaluator.meaning left).follow answers = some (.ok operand) ∧
        (evaluator.meaning right).follow answers = some (.ok argument) ∧
        operand.beside argument = .ok set := by
  rw [meaning, Inquiry.follow_bind_eq_ok]
  refine exists_congr fun operand => ?_
  cases noFunction : operand.monad.isNone && operand.dyad.isNone with
  | true => simp [SymbolSet.beside, noFunction, Inquiry.fail]
  | false =>
      simp only [SymbolSet.beside, noFunction, Bool.false_eq_true, if_false,
        Inquiry.follow_bind_eq_ok]
      rw [← exists_and_left]
      refine exists_congr fun argument => and_congr_right fun _ => and_congr_right fun _ => ?_
      cases adverbial : argument.offers .adverb with
      | true => simp [Inquiry.follow_bind_eq_ok, bind_eq_ok_iff]
      | false => simp [Inquiry.follow_bind_eq_ok, bind_eq_ok_iff]

/-- Groups of two and of three are all that has a meaning. -/
theorem group_of_follow {answers : String → Option (Except EvalError SymbolSet)}
    {children : List Expr} {categories : Option CategorySet} {set : SymbolSet}
    (found : (evaluator.meaning (.group children categories)).follow answers = some (.ok set)) :
    (∃ left right, children = [left, right]) ∨
      ∃ left middle right, children = [left, middle, right] := by
  rcases children with _ | ⟨left, _ | ⟨middle, _ | ⟨right, _ | ⟨more, rest⟩⟩⟩⟩
  · simp [meaning, Inquiry.fail] at found
  · simp [meaning, Inquiry.fail] at found
  · exact .inl ⟨left, middle, rfl⟩
  · exact .inr ⟨left, middle, right, rfl⟩
  · simp [meaning, Inquiry.fail] at found

/-- A meaning found at some depth is a meaning by the rules. -/
theorem means_of_follow {depth : Nat} {expr : Expr} {set : SymbolSet}
    (found : (evaluator.meaning expr).follow (evaluator.resolver.within depth) =
      some (.ok set)) : evaluator.Means expr set := by
  -- The depth decreases at a reference, the expression everywhere else.
  induction depth using Nat.strongRecOn generalizing expr set with
  | ind depth shallower =>
      induction expr using Expr.nestedInduction generalizing set with
      | keyword spelling =>
          simp only [meaning, Inquiry.follow_pure, Option.some.injEq, Except.ok.injEq] at found
          exact found ▸ .keyword spelling
      | number value =>
          simp only [meaning, Inquiry.follow_pure, Option.some.injEq, Except.ok.injEq] at found
          exact found ▸ .number value
      | search text => simp [meaning, Inquiry.fail] at found
      | stub categories index => simp [meaning, Inquiry.fail] at found
      | reference id =>
          rw [meaning, Inquiry.follow_get] at found
          obtain ⟨expr, earlier, before, named, inner⟩ := Resolver.item_of_within found
          exact .reference named (shallower earlier before inner)
      | group children categories ih =>
          obtain ⟨left, right, rfl⟩ | ⟨left, middle, right, rfl⟩ := group_of_follow found
          · obtain ⟨operand, argument, leftFound, rightFound, applied⟩ := follow_pair.mp found
            exact .pair (ih left (by simp) leftFound) (ih right (by simp) rightFound) applied
          · obtain ⟨operator, x, y, middleFound, leftFound, rightFound, joined⟩ :=
              follow_triple.mp found
            exact .triple (ih middle (by simp) middleFound) (ih left (by simp) leftFound)
              (ih right (by simp) rightFound) joined

/-- A meaning by the rules is found at some depth. -/
theorem settles_of_means {expr : Expr} {set : SymbolSet} (means : evaluator.Means expr set) :
    evaluator.resolver.Settles (evaluator.meaning expr) (.ok set) := by
  induction means with
  | keyword spelling => exact Resolver.settles_done _
  | number value => exact Resolver.settles_done _
  | reference found named ih => exact (Resolver.settles_get_iff found).mpr ih
  | triple operates leftMeans rightMeans joined operatesIh leftIh rightIh =>
      obtain ⟨middleDepth, middleFound⟩ := operatesIh
      obtain ⟨leftDepth, leftFound⟩ := leftIh
      obtain ⟨rightDepth, rightFound⟩ := rightIh
      let depth := max middleDepth (max leftDepth rightDepth)
      have middleHere :=
        Resolver.follow_within_mono (show middleDepth ≤ depth by omega) middleFound
      have leftHere := Resolver.follow_within_mono (show leftDepth ≤ depth by omega) leftFound
      have rightHere := Resolver.follow_within_mono (show rightDepth ≤ depth by omega) rightFound
      exact ⟨depth, follow_triple.mpr ⟨_, _, _, middleHere, leftHere, rightHere, joined⟩⟩
  | pair leftMeans rightMeans applied leftIh rightIh =>
      obtain ⟨leftDepth, leftFound⟩ := leftIh
      obtain ⟨rightDepth, rightFound⟩ := rightIh
      let depth := max leftDepth rightDepth
      have leftHere := Resolver.follow_within_mono (show leftDepth ≤ depth by omega) leftFound
      have rightHere := Resolver.follow_within_mono (show rightDepth ≤ depth by omega) rightFound
      exact ⟨depth, follow_pair.mpr ⟨_, _, leftHere, rightHere, applied⟩⟩

/-- The rules give exactly the meanings that a search for them settles on. -/
theorem means_iff_settles {expr : Expr} {set : SymbolSet} :
    evaluator.Means expr set ↔
      evaluator.resolver.Settles (evaluator.meaning expr) (.ok set) := by
  constructor
  · exact settles_of_means
  · rintro ⟨depth, found⟩
    exact means_of_follow found

/-- An evaluator finds exactly the meanings by the rules for a name, whatever it remembers. -/
theorem run_get_eq_ok_iff {memory : Memory EvalError SymbolSet}
    (faithful : evaluator.resolver.Faithful memory) {id : String} {expr : Expr}
    (found : evaluator.graph.get? id = some expr) {set : SymbolSet} :
    (evaluator.run (.get id) memory).1 = .ok set ↔ evaluator.Means expr set := by
  have named : evaluator.resolver.items.get? id = some expr := found
  rw [means_iff_settles]
  exact (Resolver.run_eq_ok_iff _ faithful).trans (Resolver.settles_get_iff named)

/-- The search for a meaning asks only names that the expression mentions. -/
theorem meaning_asks (expr : Expr) :
    (evaluator.meaning expr).AsksOnly expr.Mentions := by
  induction expr using Expr.nestedInduction with
  | keyword spelling => exact trivial
  | number value => exact trivial
  | search text => exact trivial
  | stub categories index => exact trivial
  | reference id => exact Inquiry.always_get List.mem_cons_self fun _ _ => trivial
  | group children categories ih =>
      have inside : ∀ child ∈ children, (evaluator.meaning child).AsksOnly
          (Expr.group children categories).Mentions :=
        fun child member => (ih child member).allow fun _ => Expr.mentions_child member
      have lifted : ∀ result : Except EvalError SymbolSet,
          (liftM result : MeaningInquiry SymbolSet).AsksOnly
            (Expr.group children categories).Mentions :=
        fun result => Inquiry.always_lift fun _ _ => trivial
      rcases children with _ | ⟨left, _ | ⟨middle, _ | ⟨right, _ | ⟨more, rest⟩⟩⟩⟩
      · exact trivial
      · exact trivial
      · rw [meaning]
        refine (inside left (by simp)).bind fun operand _ => ?_
        split
        · exact trivial
        · refine (inside middle (by simp)).bind fun argument _ => ?_
          split
          · exact (Inquiry.always_lift fun _ _ => trivial).bind fun adverb _ => lifted _
          · exact (Inquiry.always_lift fun _ _ => trivial).bind fun verb _ => lifted _
      · rw [meaning]
        refine (inside middle (by simp)).bind fun operator _ => ?_
        split
        · exact (inside left (by simp)).bind fun x _ =>
            (inside right (by simp)).bind fun y _ => lifted _
        · exact (inside left (by simp)).bind fun x _ =>
            (inside right (by simp)).bind fun y _ => lifted _
        · exact trivial
      · exact trivial

/-- The search for a meaning does not depend on the expressions that it may ask for. -/
theorem meaning_eq_of_graph (table : KeywordTable) (left right : Graph) (expr : Expr) :
    (Evaluator.mk table left).meaning expr = (Evaluator.mk table right).meaning expr := by
  induction expr using Expr.nestedInduction with
  | keyword spelling => simp only [meaning]
  | number value => simp only [meaning]
  | search text => simp only [meaning]
  | stub categories index => simp only [meaning]
  | reference id => simp only [meaning]
  | group children categories ih =>
      rcases children with _ | ⟨first, _ | ⟨second, _ | ⟨third, _ | ⟨more, rest⟩⟩⟩⟩
      · simp only [meaning]
      · simp only [meaning]
      · simp only [meaning, ih first (by simp), ih second (by simp)]
      · simp only [meaning, ih first (by simp), ih second (by simp), ih third (by simp)]
      · simp only [meaning]

/-- Graphs that agree on names whose expressions mention no others give them the same meanings. -/
theorem agreeOn (table : KeywordTable) {left right : Graph} {domain : String → Prop}
    (same : ∀ id, domain id → left.get? id = right.get? id)
    (closed : ∀ id expr, domain id → left.get? id = some expr →
      ∀ name, expr.Mentions name → domain name) :
    Resolver.AgreeOn domain (Evaluator.mk table left).resolver
      (Evaluator.mk table right).resolver where
  items := same
  inquiry := meaning_eq_of_graph table left right
  inside id expr member found := (meaning_asks expr).allow (closed id expr member found)
  cycle := rfl
  unknown := rfl

end Evaluator

/-- The function `- + #`, whose parts are functions again: a sample for what holds of all
expressions. -/
def Expr.negatePlusSelf : Expr := .group [.keyword "-", .keyword "+", .keyword "#"] none

/-- What the function does with an operand. -/
def Verb.negatePlusSelf : Verb := .train .add (.verb (.unary .negate)) (.verb .identity)

/-- The formula that the function makes of another. -/
def Formula.negatePlusSelf (formula : Formula) : Formula :=
  .binary .add (.unary .negate formula) formula

/-- The function, its value at its value at five, and a name that leads back to itself. -/
def Graph.negatePlusSelfTwice : Graph := .ofList
  [("f", .negatePlusSelf), ("five", .number 5), ("round", .reference "round"),
    ("x", .group [.reference "f", .group [.reference "f", .reference "five"] none] none)]

namespace Evaluator

theorem means_negatePlusSelf (graph : Graph) :
    (Evaluator.mk .standard graph).Means .negatePlusSelf (.single (.monad .negatePlusSelf)) :=
  .triple (.keyword "+") (.keyword "-") (.keyword "#") rfl

theorem means_negatePlusSelfTwice :
    (Evaluator.mk .standard .negatePlusSelfTwice).Means (.reference "x")
      (.single (.noun (Formula.number 5).negatePlusSelf.negatePlusSelf)) := by
  have function : (Evaluator.mk .standard .negatePlusSelfTwice).Means (.reference "f") _ :=
    .reference rfl (means_negatePlusSelf _)
  have five : (Evaluator.mk .standard .negatePlusSelfTwice).Means (.reference "five") _ :=
    .reference rfl (.number 5)
  exact .reference rfl (.pair function (.pair function five rfl) rfl)

end Evaluator

end Tacit
