import Mathlib.Logic.Relation
import Tacit.Grouping
import Tacit.Proofs.Expression
import Tacit.Proofs.Inquiry

/-!
# Folding from the front

One step of grouping folds the first nodes of a sequence by the first rule that they match.  Here
the step is a relation between sequences of nodes, over any relation that tells which categories a
node offers.  A search that folds readings follows these steps until no rule is left that fits.
-/

namespace Tacit

namespace Rule

/-- The first nodes offer the categories of a pattern. -/
def Matches (offers : Node → CategorySet → Prop) : List Category → List Node → Prop
  | [], _ => True
  | _ :: _, [] => False
  | category :: pattern, node :: nodes =>
      (∃ offered, offers node offered ∧ category ∈ offered) ∧ Matches offers pattern nodes

/-- One of the first nodes does not offer its category of a pattern, after others that do. -/
def Misses (offers : Node → CategorySet → Prop) : List Category → List Node → Prop
  | [], _ => False
  | _ :: _, [] => True
  | category :: pattern, node :: nodes =>
      ∃ offered, offers node offered ∧ (category ∈ offered → Misses offers pattern nodes)

/-- A rule that does not fold a sequence: it is for fewer than two nodes, for more than there are,
or for others. -/
def PassedOver (offers : Node → CategorySet → Prop) (nodes : List Node) (rule : Rule) : Prop :=
  rule.pattern.length < 2 ∨ nodes.length < rule.pattern.length ∨ Misses offers rule.pattern nodes

/-- A rule is the first of a grammar that folds a sequence. -/
def IsFirst (offers : Node → CategorySet → Prop) (rules : List Rule) (nodes : List Node)
    (rule : Rule) : Prop :=
  ∃ earlier later, rules = earlier ++ rule :: later ∧
    (∀ other ∈ earlier, other.PassedOver offers nodes) ∧ 2 ≤ rule.pattern.length ∧
    rule.pattern.length ≤ nodes.length ∧ Matches offers rule.pattern nodes

/-- The sequence whose first nodes a rule has folded. -/
def foldFront (rule : Rule) (nodes : List Node) : List Node :=
  .group (nodes.take rule.pattern.length) (some rule.result) :: nodes.drop rule.pattern.length

/-- One step of grouping. -/
def Step (offers : Node → CategorySet → Prop) (rules : List Rule) (before after : List Node) :
    Prop :=
  ∃ rule, IsFirst offers rules before rule ∧ after = rule.foldFront before

theorem Matches.take {offers : Node → CategorySet → Prop} {pattern : List Category}
    {nodes : List Node} (matched : Matches offers pattern nodes) :
    Matches offers pattern (nodes.take pattern.length) := by
  induction pattern generalizing nodes with
  | nil => trivial
  | cons category pattern ih =>
      cases nodes with
      | nil => exact matched
      | cons node nodes => exact ⟨matched.1, ih matched.2⟩

theorem IsFirst.mem {offers : Node → CategorySet → Prop} {rules : List Rule} {nodes : List Node}
    {rule : Rule} (first : IsFirst offers rules nodes rule) : rule ∈ rules := by
  obtain ⟨earlier, later, same, _⟩ := first
  rw [same]
  exact List.mem_append_right earlier List.mem_cons_self

theorem IsFirst.length_foldFront_lt {offers : Node → CategorySet → Prop} {rules : List Rule}
    {nodes : List Node} {rule : Rule} (first : IsFirst offers rules nodes rule) :
    (rule.foldFront nodes).length < nodes.length := by
  obtain ⟨_, _, _, _, two, short, _⟩ := first
  rw [foldFront, List.length_cons, List.length_drop]
  omega

/-- The rule to fold a sequence with, if there is one. -/
def Selects (offers : Node → CategorySet → Prop) (rules : List Rule) (nodes : List Node) :
    Option Rule → Prop
  | some rule => IsFirst offers rules nodes rule
  | none => ∀ rule ∈ rules, rule.PassedOver offers nodes

theorem Selects.cons {offers : Node → CategorySet → Prop} {rules : List Rule}
    {nodes : List Node} {rule? : Option Rule} {other : Rule}
    (passed : other.PassedOver offers nodes) (selects : Selects offers rules nodes rule?) :
    Selects offers (other :: rules) nodes rule? := by
  cases rule? with
  | none => exact List.forall_mem_cons.mpr ⟨passed, selects⟩
  | some rule =>
      obtain ⟨earlier, later, rfl, passedEarlier, fits⟩ := selects
      refine ⟨other :: earlier, later, rfl, ?_, fits⟩
      exact List.forall_mem_cons.mpr ⟨passed, passedEarlier⟩

/-- Whether the first of these categories, one set for each node, have a pattern. -/
def fitsFront : List Category → List CategorySet → Bool
  | [], _ => true
  | _ :: _, [] => false
  | category :: pattern, offered :: rest => decide (category ∈ offered) && fitsFront pattern rest

/-- Whether a rule folds nodes of these categories. -/
def folds (rule : Rule) (offered : List CategorySet) : Bool :=
  !(rule.pattern.length < 2 || offered.length < rule.pattern.length) &&
    fitsFront rule.pattern offered

/-- A step keeps the leaves in their order. -/
theorem Step.leavesOf_eq {offers : Node → CategorySet → Prop} {rules : List Rule}
    {before after : List Node} (step : Step offers rules before after) :
    Node.leavesOf after = Node.leavesOf before := by
  obtain ⟨rule, _, rfl⟩ := step
  rw [foldFront, Node.leavesOf, Node.leaves_group, ← Node.leavesOf_append, List.take_append_drop]

/-- Grouping keeps the leaves in their order. -/
theorem leavesOf_eq_of_steps {offers : Node → CategorySet → Prop} {rules : List Rule}
    {before after : List Node} (steps : Relation.ReflTransGen (Step offers rules) before after) :
    Node.leavesOf after = Node.leavesOf before := by
  induction steps with
  | refl => rfl
  | tail _ step ih => rw [step.leavesOf_eq, ih]

end Rule

/-- A node whose groups are all made by rules, each from nodes that match the pattern of the
rule. -/
inductive Formed (offers : Node → CategorySet → Prop) (rules : List Rule) : Node → Prop
  /-- A single token. -/
  | token (token : Token) : Formed offers rules (.token token)
  /-- A group. -/
  | group (rule : Rule) (children : List Node) (member : rule ∈ rules)
      (length_eq : children.length = rule.pattern.length)
      (matched : Rule.Matches offers rule.pattern children)
      (formed : ∀ child ∈ children, Formed offers rules child) :
      Formed offers rules (.group children (some rule.result))

theorem Formed.children {offers : Node → CategorySet → Prop} {rules : List Rule}
    {children : List Node} {known : Option CategorySet}
    (formed : Formed offers rules (.group children known)) :
    ∀ child ∈ children, Formed offers rules child := by
  cases formed with
  | group rule _ _ _ _ inside => exact inside

/-- A step forms groups of formed nodes. -/
theorem Rule.Step.formed {offers : Node → CategorySet → Prop} {rules : List Rule}
    {before after : List Node} (step : Step offers rules before after)
    (formed : ∀ node ∈ before, Formed offers rules node) :
    ∀ node ∈ after, Formed offers rules node := by
  obtain ⟨rule, first, rfl⟩ := step
  have inGrammar := first.mem
  obtain ⟨_, _, _, _, _, short, matched⟩ := first
  intro node member
  obtain rfl | inRest := List.mem_cons.mp member
  · refine .group rule _ inGrammar ?_ matched.take fun child inFront =>
      formed child (List.mem_of_mem_take inFront)
    rw [List.length_take, Nat.min_eq_left short]
  · exact formed node (List.mem_of_mem_drop inRest)

/-- Grouping forms groups of formed nodes. -/
theorem Rule.formed_of_steps {offers : Node → CategorySet → Prop} {rules : List Rule}
    {before after : List Node} (steps : Relation.ReflTransGen (Step offers rules) before after)
    (formed : ∀ node ∈ before, Formed offers rules node) :
    ∀ node ∈ after, Formed offers rules node := by
  induction steps with
  | refl => exact formed
  | tail _ step ih => exact step.formed ih

/-- A node whose groups are all made by rules, each from as many nodes as the rule has categories,
of which only the first may be a group. -/
inductive LeftNested (rules : List Rule) : Node → Prop
  /-- A single token. -/
  | token (token : Token) : LeftNested rules (.token token)
  /-- A group. -/
  | group (rule : Rule) (first : Node) (others : List Node) (member : rule ∈ rules)
      (length_eq : (first :: others).length = rule.pattern.length)
      (nested : LeftNested rules first)
      (flat : ∀ other ∈ others, ∃ token, other = .token token) :
      LeftNested rules (.group (first :: others) (some rule.result))

theorem LeftNested.children {rules : List Rule} {children : List Node}
    {known : Option CategorySet} (nested : LeftNested rules (.group children known)) :
    ∀ child ∈ children, LeftNested rules child := by
  cases nested with
  | group rule first others _ _ firstNested flat =>
      refine List.forall_mem_cons.mpr ⟨firstNested, fun other member => ?_⟩
      obtain ⟨token, rfl⟩ := flat other member
      exact .token token

theorem LeftNested.exists_rule {rules : List Rule} {children : List Node}
    {known : Option CategorySet} (nested : LeftNested rules (.group children known)) :
    ∃ rule ∈ rules, rule.pattern.length = children.length := by
  cases nested with
  | group rule _ _ member length_eq => exact ⟨rule, member, length_eq.symm⟩

/-- A sequence of tokens of which the first may have been folded already. -/
def FoldedFront (rules : List Rule) (nodes : List Node) : Prop :=
  (∀ node ∈ nodes.head?, LeftNested rules node) ∧
    ∀ node ∈ nodes.tail, ∃ token, node = .token token

/-- A step folds the front once more. -/
theorem Rule.Step.foldedFront {offers : Node → CategorySet → Prop} {rules : List Rule}
    {before after : List Node} (step : Step offers rules before after)
    (folded : FoldedFront rules before) : FoldedFront rules after := by
  obtain ⟨rule, isFirst, rfl⟩ := step
  have inGrammar := isFirst.mem
  obtain ⟨_, _, _, _, two, short, _⟩ := isFirst
  obtain ⟨count, isSucc⟩ : ∃ count, rule.pattern.length = count + 1 :=
    ⟨rule.pattern.length - 1, by omega⟩
  cases before with
  | nil =>
      rw [List.length_nil] at short
      omega
  | cons first rest =>
      rw [foldFront, isSucc, List.take_succ_cons, List.drop_succ_cons]
      constructor
      · intro node isHead
        cases isHead
        refine .group rule first _ inGrammar ?_ (folded.1 first rfl) fun other member =>
          folded.2 other (List.mem_of_mem_take member)
        rw [List.length_cons] at short ⊢
        rw [List.length_take]
        omega
      · intro node inTail
        exact folded.2 node (List.mem_of_mem_drop inTail)

/-- Grouping folds nothing but the front. -/
theorem Rule.foldedFront_of_steps {offers : Node → CategorySet → Prop} {rules : List Rule}
    {before after : List Node} (steps : Relation.ReflTransGen (Step offers rules) before after)
    (folded : FoldedFront rules before) : FoldedFront rules after := by
  induction steps with
  | refl => exact folded
  | tail _ step ih => exact step.foldedFront ih

namespace Reading

/-- A property of readings that folding keeps, and that makes the categories found for a reading
categories that its node offers. -/
structure Invariant (allowed : String → Prop) (possible : String → CategorySet → Prop)
    (offers : Node → CategorySet → Prop) (holds : Reading → Prop) : Prop where
  /-- It is kept when the categories are found. -/
  asked : ∀ reading, holds reading →
    reading.categories.Always allowed possible fun offered => holds (settled reading.node offered)
  /-- It holds of a group made by a rule. -/
  folded : ∀ children result, holds (settled (.group children (some result)) result)
  /-- The categories found are offered. -/
  offered : ∀ node categories, holds (settled node categories) → offers node categories

section Folding

variable {allowed : String → Prop} {possible : String → CategorySet → Prop}
  {offers : Node → CategorySet → Prop} {holds : Reading → Prop}

theorem Invariant.fit (invariant : Invariant allowed possible offers holds)
    (pattern : List Category) {readings : List Reading}
    (holding : ∀ reading ∈ readings, holds reading) :
    (Reading.fit pattern readings).Always allowed possible fun (fits, after) =>
      after.map node = readings.map node ∧ (∀ reading ∈ after, holds reading) ∧
        if fits then Rule.Matches offers pattern (readings.map node)
        else Rule.Misses offers pattern (readings.map node) := by
  induction pattern generalizing readings with
  | nil => exact Inquiry.always_pure ⟨rfl, holding, trivial⟩
  | cons category pattern ih =>
      cases readings with
      | nil => exact Inquiry.always_pure ⟨rfl, holding, trivial⟩
      | cons reading readings =>
          obtain ⟨first, others⟩ := List.forall_mem_cons.mp holding
          refine (invariant.asked reading first).bind fun offered known => ?_
          have offeredHere := invariant.offered reading.node offered known
          split
          next member =>
            refine (ih others).bind fun ⟨fits, after⟩ ⟨sameNodes, allHold, found⟩ => ?_
            have allKnown := List.forall_mem_cons.mpr ⟨known, allHold⟩
            refine Inquiry.always_pure
              ⟨congrArg (List.cons reading.node) sameNodes, allKnown, ?_⟩
            cases fits with
            | true => exact ⟨⟨offered, offeredHere, member⟩, found⟩
            | false => exact ⟨offered, offeredHere, fun _ => found⟩
          next absent =>
            exact Inquiry.always_pure ⟨rfl, List.forall_mem_cons.mpr ⟨known, others⟩,
              offered, offeredHere, fun member => (absent member).elim⟩

theorem Invariant.firstRule (invariant : Invariant allowed possible offers holds)
    (rules : List Rule) {readings : List Reading} {nodes : List Node}
    (same : readings.map node = nodes) (holding : ∀ reading ∈ readings, holds reading) :
    (Reading.firstRule rules readings).Always allowed possible fun (rule?, after) =>
      after.map node = nodes ∧ (∀ reading ∈ after, holds reading) ∧
        Rule.Selects offers rules nodes rule? := by
  induction rules generalizing readings with
  | nil => exact Inquiry.always_pure ⟨same, holding, by simp [Rule.Selects]⟩
  | cons rule rules ih =>
      rw [Reading.firstRule]
      split
      next unfit =>
        have passed : rule.PassedOver offers nodes := by
          rw [Rule.PassedOver, ← same, List.length_map]
          simp only [Bool.or_eq_true, decide_eq_true_eq] at unfit
          omega
        exact (ih same holding).imp fun _ ⟨sameNodes, allHold, selects⟩ =>
          ⟨sameNodes, allHold, selects.cons passed⟩
      next fitting =>
        simp only [Bool.or_eq_true, decide_eq_true_eq, not_or, Nat.not_lt] at fitting
        refine (invariant.fit rule.pattern holding).bind
          fun ⟨fits, after⟩ ⟨sameNodes, allHold, found⟩ => ?_
        rw [same] at sameNodes found
        cases fits with
        | true =>
            refine Inquiry.always_pure ⟨sameNodes, allHold, [], rules, rfl, by simp, ?_⟩
            rw [← same, List.length_map, same]
            exact ⟨fitting.1, fitting.2, found⟩
        | false =>
            exact (ih sameNodes allHold).imp fun _ ⟨sameNodes, allHold, selects⟩ =>
              ⟨sameNodes, allHold, selects.cons (.inr (.inr found))⟩

theorem map_node_fold (rule : Rule) (readings : List Reading) :
    (fold rule readings).map node = rule.foldFront (readings.map node) := by
  simp [fold, Rule.foldFront, List.splitAt_eq, settled]

theorem Invariant.fold (invariant : Invariant allowed possible offers holds) (rule : Rule)
    {readings : List Reading} (holding : ∀ reading ∈ readings, holds reading) :
    ∀ reading ∈ Reading.fold rule readings, holds reading := by
  rw [Reading.fold, List.splitAt_eq]
  intro reading member
  obtain rfl | inRest := List.mem_cons.mp member
  · exact invariant.folded _ rule.result
  · exact holding reading (List.mem_of_mem_drop inRest)

/-- Folding takes steps until every rule is passed over, as soon as it may take as many steps as
there are readings. -/
theorem Invariant.foldFor (invariant : Invariant allowed possible offers holds)
    (rules : List Rule) {steps : Nat} {readings : List Reading}
    (enough : readings.length ≤ steps) (holding : ∀ reading ∈ readings, holds reading) :
    (Reading.foldFor rules steps readings).Always allowed possible fun after =>
      (∀ reading ∈ after, holds reading) ∧
        Relation.ReflTransGen (Rule.Step offers rules) (readings.map node) (after.map node) ∧
        ∀ rule ∈ rules, rule.PassedOver offers (after.map node) := by
  induction steps generalizing readings with
  | zero =>
      obtain rfl : readings = [] := List.eq_nil_of_length_eq_zero (by omega)
      refine Inquiry.always_pure ⟨holding, .refl, fun rule _ => ?_⟩
      rw [Rule.PassedOver, List.map_nil, List.length_nil]
      omega
  | succ steps ih =>
      refine (invariant.firstRule rules rfl holding).bind
        fun ⟨rule?, after⟩ ⟨sameNodes, allHold, selects⟩ => ?_
      rw [← sameNodes] at selects ⊢
      cases rule? with
      | none => exact Inquiry.always_pure ⟨allHold, .refl, selects⟩
      | some rule =>
          have shorter := selects.length_foldFront_lt
          rw [← map_node_fold, List.length_map, List.length_map] at shorter
          have sameLength := congrArg List.length sameNodes
          rw [List.length_map, List.length_map] at sameLength
          refine (ih (by omega) (invariant.fold rule allHold)).imp
            fun final ⟨finalHold, chain, stuck⟩ => ⟨finalHold, ?_, stuck⟩
          exact .head ⟨rule, selects, map_node_fold rule after⟩ chain

end Folding

theorem firstRule_singleton (rules : List Rule) (reading : Reading) :
    firstRule rules [reading] = pure (none, [reading]) := by
  induction rules with
  | nil => rfl
  | cons rule rules ih =>
      have unfit : (rule.pattern.length < 2 || [reading].length < rule.pattern.length) = true := by
        simp only [List.length_singleton, Bool.or_eq_true, decide_eq_true_eq]
        omega
      rw [firstRule, if_pos unfit, ih]

/-- A single reading stays as it is, and is not asked. -/
theorem foldFor_singleton (rules : List Rule) (steps : Nat) (reading : Reading) :
    foldFor rules steps [reading] = pure [reading] := by
  cases steps with
  | zero => rfl
  | succ steps =>
      rw [foldFor, firstRule_singleton]
      rfl

theorem foldAll_singleton (rules : List Rule) (reading : Reading) :
    foldAll rules [reading] = pure [reading] :=
  foldFor_singleton rules _ reading

section Known

/-- The readings of nodes whose categories are known. -/
def known (nodes : List (Node × CategorySet)) : List Reading :=
  nodes.map fun node => settled node.1 node.2

theorem fit_known (pattern : List Category) (nodes : List (Node × CategorySet)) :
    fit pattern (known nodes) =
      pure (Rule.fitsFront pattern (nodes.map Prod.snd), known nodes) := by
  induction pattern generalizing nodes with
  | nil => rfl
  | cons category pattern ih =>
      cases nodes with
      | nil => rfl
      | cons node rest =>
          change (if category ∈ node.2 then _ else _) = _
          by_cases member : category ∈ node.2
          · rw [if_pos member]
            change (fit pattern (known rest) >>= _) = _
            rw [ih]
            simp only [List.map_cons, Rule.fitsFront, member, decide_true, Bool.true_and]
            rfl
          · rw [if_neg member]
            simp only [List.map_cons, Rule.fitsFront, member, decide_false, Bool.false_and]
            rfl

/-- Where the categories are known, the first rule that folds them is found at once. -/
theorem firstRule_known (rules : List Rule) (nodes : List (Node × CategorySet)) :
    firstRule rules (known nodes) =
      pure (rules.find? fun rule => rule.folds (nodes.map Prod.snd), known nodes) := by
  have sameLength : (known nodes).length = (nodes.map Prod.snd).length := by simp [known]
  induction rules with
  | nil => rfl
  | cons rule rules ih =>
      rw [firstRule, sameLength, List.find?_cons, Rule.folds]
      split
      next unfit =>
        rw [unfit, ih]
        rfl
      next fitting =>
        rw [fit_known, Bool.not_eq_true _ |>.mp fitting]
        cases Rule.fitsFront rule.pattern (nodes.map Prod.snd) with
        | true => rfl
        | false => exact ih

/-- Where the categories are known, folding goes on with the first rule that folds them. -/
theorem foldFor_known {rules : List Rule} (nodes : List (Node × CategorySet)) {rule : Rule}
    (found : (rules.find? fun rule => rule.folds (nodes.map Prod.snd)) = some rule)
    (steps : Nat) :
    foldFor rules (steps + 1) (known nodes) = foldFor rules steps
      (known ((.group ((nodes.take rule.pattern.length).map Prod.fst) (some rule.result),
        rule.result) :: nodes.drop rule.pattern.length)) := by
  rw [foldFor, firstRule_known, found]
  change foldFor rules steps (fold rule (known nodes)) = _
  simp [fold, known, List.splitAt_eq, settled, Function.comp_def]

end Known

end Reading

end Tacit
