import Tacit.Proofs.Fitting
import Tacit.Proofs.Language

/-!
# Trains

A train is a sequence of operands with arithmetic between them.  An operand is a number or a
function of one operand.  Grouping folds a train from the left, whatever else its keywords could be
used as.  The result means the arithmetic on numbers, and as soon as there is a function among the
operands it is itself a function: each function stands for what it makes of the argument, and each
number for itself.
-/

namespace Tacit

/-- An operand of a train: a number, or a keyword for a function of one operand. -/
inductive Operand (table : KeywordTable) where
  | number (value : Float)
  | identity (spelling : String) (bound : table.Binds spelling .identity)
  | unary (spelling : String) (op : UnaryOp) (bound : table.Binds spelling (.unary op))

/-- A keyword for arithmetic on two operands, with the operand on its right. -/
structure Link (table : KeywordTable) where
  /-- The spelling of the keyword. -/
  spelling : String
  /-- The arithmetic. -/
  op : BinaryOp
  /-- The spelling stands for it. -/
  bound : table.Binds spelling (.binary op)
  /-- The operand on the right. -/
  right : Operand table

/-- An operand with any number of links after it. -/
inductive Train (table : KeywordTable) where
  | operand (first : Operand table)
  | link (left : Train table) (last : Link table)

/-- The categories of a part of a train that is a value or a function. -/
def CategorySet.ofConstant : Bool → CategorySet
  | true => {.noun}
  | false => {.monad}

namespace Operand

variable {table : KeywordTable}

/-- The operand as an expression. -/
def expr : Operand table → Expr
  | number value => .number value
  | identity spelling _ | unary spelling _ _ => .keyword spelling

/-- The operand as a token. -/
def token : Operand table → Token
  | number value => .number value
  | identity spelling _ | unary spelling _ _ => .keyword spelling

/-- Whether the operand is a number. -/
def isNumber : Operand table → Bool
  | number _ => true
  | identity _ _ | unary _ _ _ => false

/-- What the operand stands for where the argument is a formula. -/
def formula : Operand table → Formula → Formula
  | number value, _ => .number value
  | identity _ _, argument => argument
  | unary _ op _, argument => .unary op argument

end Operand

namespace Train

variable {table : KeywordTable}

/-- The tokens of a train. -/
def tokens : Train table → List Token
  | operand first => [first.token]
  | link left last => left.tokens ++ [.keyword last.spelling, last.right.token]

/-- Whether all operands are numbers. -/
def isConstant : Train table → Bool
  | operand first => first.isNumber
  | link left last => left.isConstant && last.right.isNumber

/-- The train as groups nested to the left. -/
def nested : Train table → Expr
  | operand first => first.expr
  | link left last =>
      .group [left.nested, .keyword last.spelling, last.right.expr]
        (some (.ofConstant (left.isConstant && last.right.isNumber)))

/-- The arithmetic of a train from the left, with its functions applied to the argument. -/
def formula : Train table → Formula → Formula
  | operand first, argument => first.formula argument
  | link left last, argument =>
      .binary last.op (left.formula argument) (last.right.formula argument)

/-- The number of links. -/
def links : Train table → Nat
  | operand _ => 0
  | link left _ => left.links + 1

end Train

/-- Categories that make a part of a train: those of a value, or those of a function that is no
value. -/
def CategorySet.Plays (offered : CategorySet) : Bool → Prop
  | true => offered = {.noun}
  | false => .monad ∈ offered ∧ .noun ∉ offered

theorem CategorySet.plays_ofConstant (constant : Bool) :
    (CategorySet.ofConstant constant).Plays constant := by
  cases constant with
  | true => rfl
  | false => exact ⟨by decide, by decide⟩

namespace Rule

variable {left middle right : CategorySet}

/-- Arithmetic between two parts is folded before anything else that could be made of them. -/
theorem find?_standard_link {leftConstant rightConstant : Bool}
    (leftPlays : left.Plays leftConstant) (operates : .dyad ∈ middle)
    (rightPlays : right.Plays rightConstant) (rest : List CategorySet) :
    ∃ rule, (standard.find? fun rule => rule.folds (left :: middle :: right :: rest)) = some rule ∧
      rule.pattern.length = 3 ∧ rule.result = .ofConstant (leftConstant && rightConstant) := by
  cases leftConstant with
  | true =>
      cases rightConstant with
      | true =>
          obtain rfl := leftPlays
          obtain rfl := rightPlays
          refine ⟨⟨[.noun, .dyad, .noun], {.noun}⟩, ?_, rfl, rfl⟩
          simp [standard, folds, fitsFront, operates]
      | false =>
          obtain rfl := leftPlays
          obtain ⟨function, noValue⟩ := rightPlays
          refine ⟨⟨[.noun, .dyad, .monad], {.monad}⟩, ?_, rfl, rfl⟩
          simp [standard, folds, fitsFront, operates, function, noValue]
  | false =>
      obtain ⟨function, noValue⟩ := leftPlays
      cases rightConstant with
      | true =>
          obtain rfl := rightPlays
          refine ⟨⟨[.monad, .dyad, .noun], {.monad}⟩, ?_, rfl, rfl⟩
          simp [standard, folds, fitsFront, operates, function, noValue]
      | false =>
          refine ⟨⟨[.monad, .dyad, .monad], {.monad}⟩, ?_, rfl, rfl⟩
          simp [standard, folds, fitsFront, operates, function, rightPlays.1]

/-- A function beside a value is folded to a value. -/
theorem find?_standard_apply (leftPlays : left.Plays false) :
    (standard.find? fun rule => rule.folds [left, {.noun}]) =
      some ⟨[.monad, .noun], {.noun}⟩ := by
  obtain ⟨function, _⟩ := leftPlays
  simp [standard, folds, fitsFront, function]

end Rule

/-- The categories of a token that names no expression. -/
def KeywordTable.offered (table : KeywordTable) : Token → CategorySet
  | .keyword spelling => table.categories spelling
  | .number _ => {.noun}
  | .identifier _ | .reference _ | .search _ => ∅

/-- A token with its categories. -/
def KeywordTable.known (table : KeywordTable) (token : Token) : Node × CategorySet :=
  (.token token, table.offered token)

namespace Operand

theorem toNode_expr {table : KeywordTable} (operand : Operand table) :
    operand.expr.toNode = .token operand.token := by
  cases operand <;> rfl

/-- Whatever else a standard keyword can be used as, no function is a value. -/
theorem plays_standard (operand : Operand .standard) :
    (KeywordTable.standard.offered operand.token).Plays operand.isNumber := by
  have noValue : ∀ spelling, Category.noun ∉ KeywordTable.standard.categories spelling :=
    fun spelling member => (KeywordTable.regular_standard spelling).1
      (CategorySet.mem_ofList.mp member)
  cases operand with
  | number value => exact rfl
  | identity spelling bound => exact ⟨bound.mem_categories, noValue spelling⟩
  | unary spelling op bound => exact ⟨bound.mem_categories, noValue spelling⟩

end Operand

/-- One fold takes one link. -/
theorem Link.foldFor_standard (last : Link .standard) (front : Node) {offered : CategorySet}
    {constant : Bool} (plays : offered.Plays constant) (rest : List (Node × CategorySet))
    (steps : Nat) :
    Reading.foldFor Rule.standard (steps + 1)
        (Reading.known ((front, offered) :: KeywordTable.standard.known (.keyword last.spelling) ::
          KeywordTable.standard.known last.right.token :: rest)) =
      Reading.foldFor Rule.standard steps
        (Reading.known ((.group [front, .token (.keyword last.spelling), .token last.right.token]
          (some (.ofConstant (constant && last.right.isNumber))),
          .ofConstant (constant && last.right.isNumber)) :: rest)) := by
  obtain ⟨rule, found, three, result⟩ := Rule.find?_standard_link plays
    last.bound.mem_categories last.right.plays_standard (rest.map Prod.snd)
  have folded := Reading.foldFor_known ((front, offered) ::
    KeywordTable.standard.known (.keyword last.spelling) ::
    KeywordTable.standard.known last.right.token :: rest) found steps
  rw [three, result] at folded
  exact folded

namespace Train

/-- A train in front of other nodes is folded to its groups, one fold for each link. -/
theorem foldFor_standard (train : Train .standard) (rest : List (Node × CategorySet))
    (steps : Nat) :
    ∃ offered, offered.Plays train.isConstant ∧
      Reading.foldFor Rule.standard (steps + train.links)
          (Reading.known (train.tokens.map KeywordTable.standard.known ++ rest)) =
        Reading.foldFor Rule.standard steps
          (Reading.known ((train.nested.toNode, offered) :: rest)) := by
  -- The last link of the train becomes part of the rest, so the rest is arbitrary.
  induction train generalizing rest steps with
  | operand first =>
      refine ⟨_, first.plays_standard, ?_⟩
      rw [nested, first.toNode_expr]
      rfl
  | link left last ih =>
      obtain ⟨offered, plays, folded⟩ := ih (KeywordTable.standard.known (.keyword last.spelling)
        :: KeywordTable.standard.known last.right.token :: rest) (steps + 1)
      refine ⟨_, CategorySet.plays_ofConstant _, ?_⟩
      have enough : steps + (link left last).links = steps + 1 + left.links := by
        rw [links]
        omega
      rw [enough, tokens, List.map_append, List.append_assoc]
      refine folded.trans ((last.foldFor_standard _ plays rest steps).trans ?_)
      simp only [nested, Expr.toNode, Expr.toNodes, last.right.toNode_expr, isConstant]

theorem length_tokens {table : KeywordTable} (train : Train table) :
    train.tokens.length = 2 * train.links + 1 := by
  induction train with
  | operand first => rfl
  | link left last ih =>
      rw [tokens, List.length_append, ih, links]
      simp only [List.length_cons, List.length_nil]
      omega

theorem isSpelled_tokens {table : KeywordTable} (train : Train table) :
    ∀ token ∈ train.tokens, token.isSpelled = true := by
  have operandSpelled : ∀ operand : Operand table, operand.token.isSpelled = true := by
    intro operand
    cases operand <;> rfl
  induction train with
  | operand first => simp [tokens, operandSpelled]
  | link left last ih =>
      intro token member
      rw [tokens, List.mem_append] at member
      obtain inLeft | atEnd := member
      · exact ih token inLeft
      · simp only [List.mem_cons, List.not_mem_nil, or_false] at atEnd
        obtain rfl | rfl := atEnd
        · rfl
        · exact operandSpelled last.right

end Train

theorem Grouper.readings_of_isSpelled (grouper : Grouper) {tokens : List Token}
    (spelled : ∀ token ∈ tokens, token.isSpelled = true) :
    grouper.readings (tokens.map .token) =
      .ok (Reading.known (tokens.map grouper.lexer.table.known)) := by
  have noSearch : ∀ text, Node.token (.search text) ∉ tokens.map Node.token := by
    intro text member
    obtain ⟨token, inTokens, same⟩ := List.mem_map.mp member
    cases same
    have impossible := spelled _ inTokens
    contradiction
  refine readings_eq_ok_iff.mpr ⟨_, Lexer.expand_eq_self noSearch, ?_⟩
  rw [Reading.known, List.map_map, List.map_map]
  refine List.map_congr_left fun token member => ?_
  have isSpelled := spelled token member
  cases token with
  | keyword _ | number _ | identifier _ => rfl
  | reference _ | search _ => contradiction

namespace Language

variable (graph : Graph)

/-- Folding a train before other tokens goes on from its groups. -/
theorem group_train (train : Train .standard) {after : List Token}
    (spelled : ∀ token ∈ after, token.isSpelled = true) :
    ∃ offered, offered.Plays train.isConstant ∧ ∀ folded,
      Reading.foldFor Rule.standard (train.links + 1 + after.length) (Reading.known
        ((train.nested.toNode, offered) :: after.map KeywordTable.standard.known)) =
          pure folded →
      standard.group graph ((train.tokens ++ after).map .token) =
        .ok (folded.map Reading.node) := by
  have allSpelled : ∀ token ∈ train.tokens ++ after, token.isSpelled = true := by
    intro token member
    exact (List.mem_append.mp member).elim (train.isSpelled_tokens token) (spelled token)
  have read := (standard.grouper graph).readings_of_isSpelled allSpelled
  obtain ⟨offered, plays, folds⟩ := train.foldFor_standard
    (after.map KeywordTable.standard.known) (train.links + 1 + after.length)
  refine ⟨offered, plays, fun folded final => ?_⟩
  have length : (Reading.known ((train.tokens ++ after).map KeywordTable.standard.known)).length =
      train.links + 1 + after.length + train.links := by
    simp only [Reading.known, List.length_map, List.length_append, train.length_tokens]
    omega
  have whole : Reading.foldAll Rule.standard
      (Reading.known ((train.tokens ++ after).map KeywordTable.standard.known)) = pure folded := by
    rw [Reading.foldAll, length, List.map_append]
    exact folds.trans final
  rw [group, Grouper.reduction, read]
  change ((standard.grouper graph).run (Reading.foldAll Rule.standard
    (Reading.known ((train.tokens ++ after).map KeywordTable.standard.known)) >>= _) ∅).1 = _
  rw [whole]
  rfl

theorem group_train_alone (train : Train .standard) :
    standard.group graph (train.tokens.map .token) = .ok [train.nested.toNode] := by
  obtain ⟨offered, _, grouped⟩ := group_train graph train (List.forall_mem_nil _)
  rw [List.append_nil] at grouped
  exact grouped _ (Reading.foldFor_singleton _ _ _)

theorem group_train_argument {train : Train .standard} (function : train.isConstant = false)
    (argument : Float) :
    standard.group graph ((train.tokens ++ [Token.number argument]).map .token) =
      .ok [.group [train.nested.toNode, .token (.number argument)] (some {.noun})] := by
  have spelled : ∀ token ∈ [Token.number argument], token.isSpelled = true := by
    simp [Token.isSpelled]
  obtain ⟨offered, plays, grouped⟩ := group_train graph train spelled
  rw [function] at plays
  have folded := Reading.foldFor_known [(train.nested.toNode, offered),
    KeywordTable.standard.known (.number argument)] (Rule.find?_standard_apply plays)
    (train.links + 1)
  exact grouped _ (folded.trans (Reading.foldFor_singleton _ _ _))

end Language

/-- A meaning stands for a formula with a place for the argument: it is the formula itself if that
does not depend on the argument, and otherwise a function that makes the formula of it. -/
inductive SymbolSet.Stands (formula : Formula → Formula) : Bool → SymbolSet → Prop
  | constant (value : Formula) (same : ∀ argument, formula argument = value) :
      Stands formula true (.single (.noun value))
  | function {set : SymbolSet} {verb : Verb} (found : set.monad = some verb)
      (applies : ∀ argument, verb.apply (.single (.noun argument)) =
        .ok (.single (.noun (formula argument)))) :
      Stands formula false set

namespace SymbolSet

variable {left right : SymbolSet} {leftFormula rightFormula : Formula → Formula}
  {leftConstant rightConstant : Bool}

/-- As a side of a train, such a meaning gives its formula of every argument. -/
theorem Stands.side (stands : Stands leftFormula leftConstant left) (argument : Formula) :
    (Side.ofSet left).formula (.single (.noun argument)) = .ok (leftFormula argument) := by
  cases stands with
  | constant value same =>
      rw [same]
      rfl
  | function found applies =>
      rw [Side.ofSet, found]
      change (Verb.apply _ _ >>= _) = _
      rw [applies]
      rfl

theorem Stands.train (leftStands : Stands leftFormula leftConstant left)
    (rightStands : Stands rightFormula rightConstant right) (op : BinaryOp) :
    Stands (fun argument => .binary op (leftFormula argument) (rightFormula argument)) false
      (.single (.monad (.train op (.ofSet left) (.ofSet right)))) := by
  refine .function rfl fun argument => ?_
  rw [Verb.apply, leftStands.side, rightStands.side]
  rfl

/-- Arithmetic on two such meanings stands for the arithmetic on their formulas. -/
theorem Stands.applySet (leftStands : Stands leftFormula leftConstant left)
    (rightStands : Stands rightFormula rightConstant right) (op : BinaryOp) :
    ∃ set, op.applySet left right = .ok set ∧
      Stands (fun argument => .binary op (leftFormula argument) (rightFormula argument))
        (leftConstant && rightConstant) set ∧
      ((leftConstant && rightConstant) = false → set.IsMonad) := by
  have deferred : (left.monad.isSome || right.monad.isSome) = true →
      op.applySet left right = .ok (.single (.monad (.train op (.ofSet left) (.ofSet right)))) := by
    intro some_function
    rw [BinaryOp.applySet, if_pos some_function]
  have train := leftStands.train rightStands op
  cases leftStands with
  | constant x sameLeft =>
      cases rightStands with
      | constant y sameRight =>
          refine ⟨.single (.noun (.binary op x y)), rfl, .constant _ fun argument => ?_, ?_⟩
          · rw [sameLeft, sameRight]
          · intro impossible
            contradiction
      | function found _ =>
          exact ⟨_, deferred (by simp [found]), train, fun _ => ⟨_, rfl⟩⟩
  | function found _ =>
      have notConstant : (false && rightConstant) = false := Bool.false_and _
      rw [notConstant]
      exact ⟨_, deferred (by simp [found]), train, fun _ => ⟨_, rfl⟩⟩

end SymbolSet

namespace Operand

/-- An operand means what it stands for. -/
theorem means_stands {table : KeywordTable} (operand : Operand table) (graph : Graph) :
    ∃ set, (Evaluator.mk table graph).Means operand.expr set ∧
      SymbolSet.Stands operand.formula operand.isNumber set := by
  cases operand with
  | number value => exact ⟨_, .number value, .constant _ fun _ => rfl⟩
  | identity spelling bound =>
      exact ⟨_, .keyword spelling, .function (bound.monad rfl) fun _ => rfl⟩
  | unary spelling op bound =>
      exact ⟨_, .keyword spelling, .function (bound.monad rfl) fun _ => rfl⟩

end Operand

namespace Train

/-- With one more link, the arithmetic is applied to what stands before it. -/
theorem means_link {table : KeywordTable} {graph : Graph} {left : Train table}
    {x : SymbolSet} (leftMeans : (Evaluator.mk table graph).Means left.nested x)
    (leftStands : SymbolSet.Stands left.formula left.isConstant x) (last : Link table) :
    ∃ set, (Evaluator.mk table graph).Means (left.link last).nested set ∧
      SymbolSet.Stands (left.link last).formula (left.link last).isConstant set ∧
      ((left.link last).isConstant = false → set.IsMonad) := by
  obtain ⟨y, rightMeans, rightStands⟩ := last.right.means_stands graph
  obtain ⟨set, applied, stands, single⟩ := leftStands.applySet rightStands last.op
  have joined : (table.symbols last.spelling).between x y = .ok set := by
    rw [SymbolSet.between, last.bound.dyad]
    exact applied
  exact ⟨set, .triple (.keyword last.spelling) leftMeans rightMeans joined, stands, single⟩

/-- A train means what its formula says. -/
theorem means_stands {table : KeywordTable} (train : Train table) (graph : Graph) :
    ∃ set, (Evaluator.mk table graph).Means train.nested set ∧
      SymbolSet.Stands train.formula train.isConstant set := by
  induction train with
  | operand first => exact first.means_stands graph
  | link left last ih =>
      obtain ⟨x, leftMeans, leftStands⟩ := ih
      obtain ⟨set, means, stands, _⟩ := means_link leftMeans leftStands last
      exact ⟨set, means, stands⟩

end Train

namespace Language

variable {language : Language} {graph : Graph}

theorem evaluate_eq_ok_iff {expr : Expr} {set : SymbolSet} :
    language.evaluate graph expr = .ok set ↔ (language.evaluator graph).Means expr set :=
  (Resolver.run_eq_ok_iff _ Resolver.faithful_empty).trans Evaluator.means_iff_settles.symm

/-- A function beside a number means what the function makes of it. -/
theorem evaluate_argument {expr : Expr} {verb : Verb} {value : Float} {result : Formula}
    (function : language.evaluate graph expr = .ok (.single (.monad verb)))
    (applied : verb.apply (.single (.noun (.number value))) = .ok (.single (.noun result)))
    (categories : Option CategorySet) :
    language.evaluate graph (.group [expr, .number value] categories) =
      .ok (.single (.noun result)) :=
  evaluate_eq_ok_iff.mpr (.pair (evaluate_eq_ok_iff.mp function) (.number value) applied)

/-- With the standard vocabulary and grammar, a train of at least one link is grouped to the left.
If all operands are numbers it means their arithmetic.  Otherwise it means a function that gives,
of every formula, the arithmetic with the functions among the operands applied to it; and followed
by a number it is grouped to the value of this function there. -/
theorem standard_train (train : Train .standard) (linked : 1 ≤ train.links) (graph : Graph) :
    standard.group graph (train.tokens.map .token) = .ok [train.nested.toNode] ∧
      (train.isConstant = true → ∀ argument,
        standard.evaluate graph train.nested =
          .ok (.single (.noun (train.formula argument)))) ∧
      (train.isConstant = false → ∃ verb,
        standard.evaluate graph train.nested = .ok (.single (.monad verb)) ∧
        (∀ argument, verb.apply (.single (.noun argument)) =
          .ok (.single (.noun (train.formula argument)))) ∧
        ∀ value,
          standard.group graph ((train.tokens ++ [Token.number value]).map .token) =
            .ok [(Expr.group [train.nested, .number value] (some {.noun})).toNode] ∧
          standard.evaluate graph (.group [train.nested, .number value] (some {.noun})) =
            .ok (.single (.noun (train.formula (.number value))))) := by
  cases train with
  | operand first => exact absurd linked (Nat.not_succ_le_zero 0)
  | link left last =>
      obtain ⟨x, leftMeans, leftStands⟩ := left.means_stands graph
      obtain ⟨set, means, stands, single⟩ := Train.means_link leftMeans leftStands last
      have meant : standard.evaluate graph (left.link last).nested = .ok set :=
        evaluate_eq_ok_iff.mpr means
      refine ⟨group_train_alone graph _, ?_, ?_⟩
      · intro constant argument
        rw [constant] at stands
        obtain ⟨value, same⟩ := stands
        rw [same]
        exact meant
      · intro function
        obtain ⟨verb, rfl⟩ := single function
        rw [function] at stands
        obtain ⟨_, _⟩ | ⟨found, applies⟩ := stands
        cases found
        refine ⟨verb, meant, applies, fun value => ⟨?_, ?_⟩⟩
        · exact group_train_argument graph function value
        · exact evaluate_argument meant (applies _) _

/-- The opposite of the argument less two, less the argument; every sign could also be the other
kind of function. -/
def minusTrain : Train .standard :=
  .link (.link (.operand (.unary "-" .negate (by decide)))
    ⟨"-", .subtract, by decide, .number 2⟩) ⟨"-", .subtract, by decide, .identity "#" (by decide)⟩

theorem minusTrain_law :
    1 ≤ minusTrain.links ∧ minusTrain.isConstant = false ∧
      standard.group ∅ [.token (.keyword "-"), .token (.keyword "-"), .token (.number 2),
        .token (.keyword "-"), .token (.keyword "#")] = .ok [minusTrain.nested.toNode] ∧
      ∃ verb, standard.evaluate ∅ minusTrain.nested = .ok (.single (.monad verb)) ∧
        ∀ argument, verb.apply (.single (.noun argument)) =
          .ok (.single (.noun (.binary .subtract
            (.binary .subtract (.unary .negate argument) (.number 2)) argument))) := by
  have linked : 1 ≤ minusTrain.links := by decide
  obtain ⟨grouped, _, function⟩ := standard_train minusTrain linked ∅
  obtain ⟨verb, meant, applies, _⟩ := function rfl
  exact ⟨linked, rfl, grouped, verb, meant, applies⟩

end Language

end Tacit
