import Tacit.Proofs.Evaluation

/-!
# How searches fail

A failure comes from somewhere: from a part of an expression that has no meaning, from a name, or
from a symbol that was needed and not found.  The last kind may be kept inside a function and come
up only when the function is used.  `Ends` follows results and failures alike; here it tells which
failures the search for a meaning can end with.
-/

namespace Tacit

/-- A result is as claimed, or its failure is admitted. -/
def Ends {ε α : Type} (admitted : ε → Prop) (claim : α → Prop) : Except ε α → Prop
  | .ok value => claim value
  | .error error => admitted error

section Results

variable {ε α β : Type} {admitted : ε → Prop}

theorem Ends.bind {between : α → Prop} {claim : β → Prop} {result : Except ε α}
    {next : α → Except ε β} (first : Ends admitted between result)
    (second : ∀ value, between value → Ends admitted claim (next value)) :
    Ends admitted claim (result >>= next) := by
  cases result with
  | ok value => exact second value first
  | error error => exact first

theorem Ends.imp {claim weaker : α → Prop} {result : Except ε α}
    (ends : Ends admitted claim result) (implied : ∀ value, claim value → weaker value) :
    Ends admitted weaker result := by
  cases result with
  | ok value => exact implied value ends
  | error error => exact ends

theorem Ends.weaken {wider : ε → Prop} {claim : α → Prop} {result : Except ε α}
    (ends : Ends admitted claim result) (implied : ∀ error, admitted error → wider error) :
    Ends wider claim result := by
  cases result with
  | ok value => exact ends
  | error error => exact implied error ends

theorem ends_mapError {δ : Type} {admitted : δ → Prop} {rename : ε → δ}
    (renamed : ∀ error, admitted (rename error)) (result : Except ε α) :
    Ends admitted (fun _ => True) (result.mapError rename) := by
  cases result with
  | ok value => exact trivial
  | error error => exact renamed error

theorem ends_mapM {make : α → Except ε β}
    (each : ∀ item, Ends admitted (fun _ => True) (make item)) (items : List α) :
    Ends admitted (fun _ => True) (items.mapM make) := by
  induction items with
  | nil => exact trivial
  | cons item rest ih =>
      rw [List.mapM_cons]
      exact (each item).bind fun _ _ => ih.bind fun _ _ => trivial

end Results

namespace Inquiry

/-- With answers of a kind, a search finds only what is claimed and fails only as admitted. -/
def AlwaysEnds {ε β α : Type} (given : β → Prop) (admitted : ε → Prop) (claim : α → Prop) :
    Inquiry ε β α → Prop
  | done result => Ends admitted claim result
  | ask _ next => ∀ answer, given answer → (next answer).AlwaysEnds given admitted claim

section Ending

variable {ε β α γ : Type} {given : β → Prop} {admitted : ε → Prop}

theorem alwaysEnds_get (id : String) :
    (get id : Inquiry ε β β).AlwaysEnds given admitted given :=
  fun _ holds => holds

theorem AlwaysEnds.bind {between : α → Prop} {claim : γ → Prop} {search : Inquiry ε β α}
    {next : α → Inquiry ε β γ} (first : search.AlwaysEnds given admitted between)
    (second : ∀ value, between value → (next value).AlwaysEnds given admitted claim) :
    (search >>= next).AlwaysEnds given admitted claim := by
  induction search with
  | done result =>
      cases result with
      | ok value => exact second value first
      | error error => exact first
  | ask id more ih => exact fun answer holds => ih answer (first answer holds)

theorem alwaysEnds_lift_bind {between : α → Prop} {claim : γ → Prop} {result : Except ε α}
    {next : α → Inquiry ε β γ} (first : Ends admitted between result)
    (second : ∀ value, between value → (next value).AlwaysEnds given admitted claim) :
    ((liftM result : Inquiry ε β α) >>= next).AlwaysEnds given admitted claim :=
  AlwaysEnds.bind (show (done result).AlwaysEnds given admitted between from first) second

/-- Whatever a search comes to is as claimed or admitted, if this holds of all answers. -/
theorem AlwaysEnds.of_follow {claim : α → Prop} {search : Inquiry ε β α}
    (ends : search.AlwaysEnds given admitted claim) {answers : String → Option (Except ε β)}
    (answered : ∀ id answer, answers id = some answer → Ends admitted given answer)
    {result : Except ε α} (found : search.follow answers = some result) :
    Ends admitted claim result := by
  induction search with
  | done finished =>
      obtain rfl : finished = result := by simpa using found
      exact ends
  | ask id next ih =>
      rcases here : answers id with _ | error | answer
      · rw [follow_ask_none here] at found
        contradiction
      · rw [follow_ask_error here] at found
        cases found
        exact answered id _ here
      · rw [follow_ask_ok here] at found
        exact ih answer (ends answer (answered id _ here)) found

end Ending

end Inquiry

namespace Resolver

/-- The searches of all items find only what is given and fail only as admitted, and so do names
that are needed for their own answer and names without item. -/
structure Ending {ι ε β : Type} (resolver : Resolver ι ε β) (admitted : ε → Prop)
    (given : β → Prop) : Prop where
  items : ∀ id item, resolver.items.get? id = some item →
    (resolver.inquiry item).AlwaysEnds given admitted given
  cycle : ∀ id, admitted (resolver.cycle id)
  unknown : ∀ id, admitted (resolver.unknown id)

variable {ι ε β α : Type} {resolver : Resolver ι ε β} {admitted : ε → Prop} {given : β → Prop}

theorem Ending.within (ending : resolver.Ending admitted given) {depth : Nat} {id : String}
    {answer : Except ε β} (settled : resolver.within depth id = some answer) :
    Ends admitted given answer := by
  induction depth generalizing id answer with
  | zero => contradiction
  | succ depth ih =>
      cases found : resolver.items.get? id with
      | none =>
          rw [within_unknown found] at settled
          cases settled
          exact ending.unknown id
      | some item =>
          rw [within_item found] at settled
          exact (ending.items id item found).of_follow (fun _ _ => ih) settled

/-- An account of a search is as claimed, or its failure is admitted. -/
theorem Ending.accounts (ending : resolver.Ending admitted given) {claim : α → Prop}
    {search : Inquiry ε β α} (ends : search.AlwaysEnds given admitted claim)
    {result : Except ε α} (accounts : resolver.Accounts search result) :
    Ends admitted claim result := by
  obtain ⟨settled, ⟨depth, found⟩, rfl | ⟨first, second, rfl, _⟩⟩ | ⟨_, id, rfl⟩ := accounts
  · exact ends.of_follow (fun _ _ => ending.within) found
  · exact ending.cycle first
  · exact ending.cycle id

end Resolver

/-- A failure settles for a name without item, or for an item from what has settled before. -/
theorem Resolver.error_of_within {ι ε β : Type} {resolver : Resolver ι ε β} {depth : Nat}
    {id : String} {error : ε} (settled : resolver.within depth id = some (.error error)) :
    error = resolver.unknown id ∨ ∃ item earlier, earlier < depth ∧
      resolver.items.get? id = some item ∧
      (resolver.inquiry item).follow (resolver.within earlier) = some (.error error) := by
  cases depth with
  | zero => contradiction
  | succ earlier =>
      cases found : resolver.items.get? id with
      | none =>
          rw [within_unknown found] at settled
          cases settled
          exact .inl rfl
      | some item =>
          rw [within_item found] at settled
          exact .inr ⟨item, earlier, Nat.lt_succ_self earlier, rfl, settled⟩

theorem Inquiry.follow_lift_bind {ε β α γ : Type} {answers : String → Option (Except ε β)}
    (first : Except ε α) (next : α → Except ε γ) :
    ((liftM first : Inquiry ε β α) >>= fun value =>
      (liftM (next value) : Inquiry ε β γ)).follow answers = some (first >>= next) := by
  cases first <;> rfl

namespace Evaluator

variable {evaluator : Evaluator} {answers : String → Option (Except EvalError SymbolSet)}
  {left middle right : Expr} {categories : Option CategorySet} {error : EvalError}

theorem error_of_operands {apply : SymbolSet → SymbolSet → Except EvalError SymbolSet}
    (failed : (evaluator.meaning left >>= fun x => evaluator.meaning right >>= fun y =>
      (liftM (apply x y) : MeaningInquiry SymbolSet)).follow answers = some (.error error)) :
    (∃ child ∈ [left, right], (evaluator.meaning child).follow answers = some (.error error)) ∨
      ∃ x y, (evaluator.meaning left).follow answers = some (.ok x) ∧
        (evaluator.meaning right).follow answers = some (.ok y) ∧ apply x y = .error error := by
  obtain leftFailed | ⟨x, leftFound, rest⟩ := Inquiry.follow_bind_eq_error.mp failed
  · exact .inl ⟨left, by simp, leftFailed⟩
  · obtain rightFailed | ⟨y, rightFound, applied⟩ := Inquiry.follow_bind_eq_error.mp rest
    · exact .inl ⟨right, by simp, rightFailed⟩
    · exact .inr ⟨x, y, leftFound, rightFound, Option.some.inj applied⟩

/-- A group of three fails in a child, for want of an operator, or when the operator is applied. -/
theorem error_of_triple
    (failed : (evaluator.meaning (.group [left, middle, right] categories)).follow answers =
      some (.error error)) :
    (∃ child ∈ [left, middle, right],
      (evaluator.meaning child).follow answers = some (.error error)) ∨
    ∃ operator, (evaluator.meaning middle).follow answers = some (.ok operator) ∧
      (error = operator.missing [.dyad, .conjunction] ∨
        ∃ x y, (evaluator.meaning left).follow answers = some (.ok x) ∧
          (evaluator.meaning right).follow answers = some (.ok y) ∧
          operator.between x y = .error error) := by
  rw [meaning] at failed
  obtain middleFailed | ⟨operator, middleFound, rest⟩ := Inquiry.follow_bind_eq_error.mp failed
  · exact .inl ⟨middle, by simp, middleFailed⟩
  · have operands : [left, right] ⊆ [left, middle, right] := by simp
    rcases dyad : operator.dyad with _ | op
    · rcases conjunction : operator.conjunction with _ | joins
      · simp only [dyad, conjunction] at rest
        cases rest
        exact .inr ⟨operator, middleFound, .inl rfl⟩
      · simp only [dyad, conjunction] at rest
        obtain ⟨child, member, childFailed⟩ | ⟨x, y, leftFound, rightFound, applied⟩ :=
          error_of_operands rest
        · exact .inl ⟨child, operands member, childFailed⟩
        · refine .inr ⟨operator, middleFound, .inr ⟨x, y, leftFound, rightFound, ?_⟩⟩
          simpa only [SymbolSet.between, dyad, conjunction] using applied
    · simp only [dyad] at rest
      obtain ⟨child, member, childFailed⟩ | ⟨x, y, leftFound, rightFound, applied⟩ :=
        error_of_operands rest
      · exact .inl ⟨child, operands member, childFailed⟩
      · refine .inr ⟨operator, middleFound, .inr ⟨x, y, leftFound, rightFound, ?_⟩⟩
        simpa only [SymbolSet.between, dyad] using applied

/-- A group of two fails in a child, for want of a function, or when the function is applied. -/
theorem error_of_pair
    (failed : (evaluator.meaning (.group [left, right] categories)).follow answers =
      some (.error error)) :
    (∃ child ∈ [left, right], (evaluator.meaning child).follow answers = some (.error error)) ∨
    ∃ operand, (evaluator.meaning left).follow answers = some (.ok operand) ∧
      (error = operand.missing [.monad, .dyad] ∨
        ∃ argument, (evaluator.meaning right).follow answers = some (.ok argument) ∧
          operand.beside argument = .error error) := by
  rw [meaning] at failed
  obtain leftFailed | ⟨operand, leftFound, rest⟩ := Inquiry.follow_bind_eq_error.mp failed
  · exact .inl ⟨left, by simp, leftFailed⟩
  · cases noFunction : operand.monad.isNone && operand.dyad.isNone with
    | true =>
        simp only [noFunction, if_true] at rest
        cases rest
        exact .inr ⟨operand, leftFound, .inl rfl⟩
    | false =>
        simp only [noFunction, Bool.false_eq_true, if_false] at rest
        obtain rightFailed | ⟨argument, rightFound, applied⟩ :=
          Inquiry.follow_bind_eq_error.mp rest
        · exact .inl ⟨right, by simp, rightFailed⟩
        · refine .inr ⟨operand, leftFound, .inr ⟨argument, rightFound, ?_⟩⟩
          rw [SymbolSet.beside, noFunction, if_neg Bool.false_ne_true]
          split at applied
          next offered =>
            rw [Inquiry.follow_lift_bind, Option.some.injEq] at applied
            rw [if_pos offered]
            exact applied
          next notOffered =>
            rw [Inquiry.follow_lift_bind, Option.some.injEq] at applied
            rw [if_neg notOffered]
            exact applied

/-- A group of three with parts that have meanings comes to what its operator makes of them. -/
theorem settles_triple {operator x y : SymbolSet} (operates : evaluator.Means middle operator)
    (leftMeans : evaluator.Means left x) (rightMeans : evaluator.Means right y) :
    evaluator.resolver.Settles (evaluator.meaning (.group [left, middle, right] categories))
      (operator.between x y) := by
  cases joined : operator.between x y with
  | ok set => exact settles_of_means (.triple operates leftMeans rightMeans joined)
  | error error =>
      obtain ⟨middleDepth, middleFound⟩ := settles_of_means operates
      obtain ⟨leftDepth, leftFound⟩ := settles_of_means leftMeans
      obtain ⟨rightDepth, rightFound⟩ := settles_of_means rightMeans
      let depth := max middleDepth (max leftDepth rightDepth)
      have middleHere :=
        Resolver.follow_within_mono (show middleDepth ≤ depth by omega) middleFound
      have leftHere := Resolver.follow_within_mono (show leftDepth ≤ depth by omega) leftFound
      have rightHere := Resolver.follow_within_mono (show rightDepth ≤ depth by omega) rightFound
      refine ⟨depth, ?_⟩
      rw [meaning, Inquiry.follow_bind_eq_error]
      refine .inr ⟨operator, middleHere, ?_⟩
      rcases dyad : operator.dyad with _ | op
      · rcases conjunction : operator.conjunction with _ | joins
        · simpa [SymbolSet.between, dyad, conjunction, Inquiry.fail] using joined
        · simpa [SymbolSet.between, dyad, conjunction, Inquiry.follow_bind_eq_error, leftHere,
            rightHere] using joined
      · simpa [SymbolSet.between, dyad, Inquiry.follow_bind_eq_error, leftHere, rightHere]
          using joined

end Evaluator

mutual

/-- All failures that are kept inside a function are admitted. -/
def Verb.Admits (admitted : EvalError → Prop) : Verb → Prop
  | .identity | .unary _ | .reflexive _ => True
  | .sequence first next => first.Admits admitted ∧ next.Admits admitted
  | .train _ left right => left.Admits admitted ∧ right.Admits admitted

/-- All failures that are kept on a side are admitted. -/
def Side.Admits (admitted : EvalError → Prop) : Side → Prop
  | .verb verb => verb.Admits admitted
  | .fixed _ => True
  | .missing error => admitted error

end

/-- All failures that are kept in the function of a set are admitted. -/
def SymbolSet.Admits (admitted : EvalError → Prop) (set : SymbolSet) : Prop :=
  ∀ verb, set.monad = some verb → verb.Admits admitted

section Symbols

variable {admitted : EvalError → Prop} {left right operand : SymbolSet}

theorem SymbolSet.admits_noun (formula : Formula) :
    (SymbolSet.single (.noun formula)).Admits admitted := by
  intro verb found
  cases found

theorem SymbolSet.admits_monad {verb : Verb} (admits : verb.Admits admitted) :
    (SymbolSet.single (.monad verb)).Admits admitted := by
  intro other found
  cases found
  exact admits

variable (missing : ∀ (set : SymbolSet) expected, admitted (set.missing expected))
include missing

theorem SymbolSet.demand_ends {α : Type} (set : SymbolSet) (category : Category)
    (found : Option α) :
    Ends admitted (fun symbol => found = some symbol) (set.demand category found) := by
  cases found with
  | none => exact missing set [category]
  | some symbol => exact rfl

theorem Side.admits_ofSet (admits : operand.Admits admitted) :
    (Side.ofSet operand).Admits admitted := by
  rw [ofSet]
  split
  next verb found => exact admits verb found
  next =>
    have ends := operand.demand_ends missing .noun operand.noun
    rw [← SymbolSet.requireNoun] at ends
    split
    next => exact trivial
    next error failed =>
      rw [failed] at ends
      exact ends

theorem UnaryOp.applySet_ends (op : UnaryOp) (admits : operand.Admits admitted) :
    Ends admitted (SymbolSet.Admits admitted) (op.applySet operand) := by
  rw [applySet]
  split
  next formula _ => exact SymbolSet.admits_noun _
  next =>
    refine (operand.demand_ends missing .monad operand.monad).bind fun inner found => ?_
    exact SymbolSet.admits_monad ⟨admits inner found, trivial⟩

theorem BinaryOp.applySet_ends (op : BinaryOp) (leftAdmits : left.Admits admitted)
    (rightAdmits : right.Admits admitted) :
    Ends admitted (SymbolSet.Admits admitted) (op.applySet left right) := by
  rw [applySet]
  split
  next =>
    exact SymbolSet.admits_monad
      ⟨Side.admits_ofSet missing leftAdmits, Side.admits_ofSet missing rightAdmits⟩
  next =>
    refine (left.demand_ends missing .noun left.noun).bind fun x _ => ?_
    refine (right.demand_ends missing .noun right.noun).bind fun y _ => ?_
    exact SymbolSet.admits_noun _

theorem Side.formula_ends {side : Side} (admits : side.Admits admitted)
    (inside : ∀ verb, side = .verb verb → verb.Admits admitted →
      Ends admitted (SymbolSet.Admits admitted) (verb.apply operand)) :
    Ends admitted (fun _ => True) (side.formula operand) := by
  cases side with
  | verb verb =>
      rw [formula]
      refine (inside verb rfl admits).bind fun made _ => ?_
      exact (made.demand_ends missing .noun made.noun).imp fun _ _ => trivial
  | fixed formula => exact trivial
  | missing error => exact admits

/-- A function fails for a reason that is kept in it, or because a symbol is missing. -/
theorem Verb.apply_ends {verb : Verb} (admits : verb.Admits admitted)
    (operandAdmits : operand.Admits admitted) :
    Ends admitted (SymbolSet.Admits admitted) (verb.apply operand) := by
  induction verb using Verb.nestedInduction generalizing operand with
  | identity => exact operandAdmits
  | unary op => exact UnaryOp.applySet_ends missing op operandAdmits
  | sequence first next firstIh nextIh =>
      rw [apply]
      exact (firstIh admits.1 operandAdmits).bind fun between betweenAdmits =>
        nextIh admits.2 betweenAdmits
  | train op left right leftIh rightIh =>
      rw [apply]
      refine (Side.formula_ends missing admits.1 fun verb isVerb verbAdmits =>
        leftIh verb isVerb verbAdmits operandAdmits).bind fun x _ => ?_
      refine (Side.formula_ends missing admits.2 fun verb isVerb verbAdmits =>
        rightIh verb isVerb verbAdmits operandAdmits).bind fun y _ => ?_
      exact SymbolSet.admits_noun _
  | reflexive op => exact BinaryOp.applySet_ends missing op operandAdmits operandAdmits

theorem Conjunction.apply_ends (conjunction : Conjunction) (leftAdmits : left.Admits admitted)
    (rightAdmits : right.Admits admitted) :
    Ends admitted (SymbolSet.Admits admitted) (conjunction.apply left right) := by
  cases conjunction with
  | pipeline =>
      rw [apply]
      split
      next formula next _ found => exact Verb.apply_ends missing (rightAdmits next found) leftAdmits
      next =>
        refine (left.demand_ends missing .monad left.monad).bind fun first leftMonad => ?_
        refine (right.demand_ends missing .monad right.monad).bind fun next rightMonad => ?_
        exact SymbolSet.admits_monad ⟨leftAdmits first leftMonad, rightAdmits next rightMonad⟩

theorem Adverb.apply_ends (adverb : Adverb) (operand : SymbolSet) :
    Ends admitted (SymbolSet.Admits admitted) (adverb.apply operand) := by
  cases adverb with
  | reflex =>
      rw [apply]
      refine (operand.demand_ends missing .dyad operand.dyad).bind fun op _ => ?_
      exact SymbolSet.admits_monad trivial

end Symbols

theorem KeywordTable.symbols_admits {admitted : EvalError → Prop} (table : KeywordTable)
    (spelling : String) : (table.symbols spelling).Admits admitted := by
  intro verb found
  obtain rfl | ⟨op, rfl⟩ := symbols_monad found
  · exact trivial
  · exact trivial

namespace Evaluator

variable {evaluator : Evaluator} {admitted : EvalError → Prop} {left middle right : Expr}

/-- The search for a meaning fails only as admitted, and so does all that it finds. -/
abbrev FailsOnly (evaluator : Evaluator) (admitted : EvalError → Prop) (expr : Expr) : Prop :=
  (evaluator.meaning expr).AlwaysEnds (SymbolSet.Admits admitted) admitted
    (SymbolSet.Admits admitted)

variable (missing : ∀ (set : SymbolSet) expected, admitted (set.missing expected))
include missing

theorem failsOnly_pair (categories : Option CategorySet)
    (leftFails : evaluator.FailsOnly admitted left)
    (rightFails : evaluator.FailsOnly admitted right) :
    evaluator.FailsOnly admitted (.group [left, right] categories) := by
  rw [FailsOnly, meaning]
  refine leftFails.bind fun operand operandAdmits => ?_
  split
  next => exact missing operand _
  next =>
    refine rightFails.bind fun argument argumentAdmits => ?_
    split
    next =>
      refine Inquiry.alwaysEnds_lift_bind
        (argument.demand_ends missing .adverb argument.adverb) fun adverb _ => ?_
      exact adverb.apply_ends missing operand
    next =>
      refine Inquiry.alwaysEnds_lift_bind
        (operand.demand_ends missing .monad operand.monad) fun verb found => ?_
      exact Verb.apply_ends missing (operandAdmits verb found) argumentAdmits

theorem failsOnly_triple (categories : Option CategorySet)
    (leftFails : evaluator.FailsOnly admitted left)
    (middleFails : evaluator.FailsOnly admitted middle)
    (rightFails : evaluator.FailsOnly admitted right) :
    evaluator.FailsOnly admitted (.group [left, middle, right] categories) := by
  rw [FailsOnly, meaning]
  refine middleFails.bind fun operator _ => ?_
  split
  next op _ =>
    refine leftFails.bind fun x leftAdmits => rightFails.bind fun y rightAdmits => ?_
    exact BinaryOp.applySet_ends missing op leftAdmits rightAdmits
  next conjunction _ _ =>
    refine leftFails.bind fun x leftAdmits => rightFails.bind fun y rightAdmits => ?_
    exact Conjunction.apply_ends missing conjunction leftAdmits rightAdmits
  next => exact missing operator _

end Evaluator

end Tacit
