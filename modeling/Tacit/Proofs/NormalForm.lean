import Mathlib.Logic.Function.Iterate
import Tacit.Proofs.Language
import Tacit.Proofs.Session

/-!
# What remains of a sequence

The steps of a grammar are folds at the front, each by the first rule that fits.  Reduction takes
them until no rule fits, and it is complete: wherever steps lead to a sequence that every rule
passes over, that sequence is what remains.  So what remains stays as it is when it is reduced
again.  Since every step folds the front, the groups it makes lie inside one another at the front,
and opening them one after another gives back the sequence.
-/

namespace Tacit

namespace Rule

variable {offers : Node → CategorySet → Prop} {rules : List Rule} {before middle after : List Node}
  {steps : Nat}

/-- So many steps of a grammar, one after another. -/
inductive Chain (offers : Node → CategorySet → Prop) (rules : List Rule) :
    Nat → List Node → List Node → Prop
  | stop (nodes : List Node) : Chain offers rules 0 nodes nodes
  | fold {steps : Nat} {before middle after : List Node} (step : Step offers rules before middle)
      (more : Chain offers rules steps middle after) : Chain offers rules (steps + 1) before after

theorem exists_chain (reaches : Relation.ReflTransGen (Step offers rules) before after) :
    ∃ steps, Chain offers rules steps before after := by
  induction reaches using Relation.ReflTransGen.head_induction_on with
  | refl => exact ⟨0, .stop after⟩
  | head step _ ih =>
      obtain ⟨steps, more⟩ := ih
      exact ⟨steps + 1, .fold step more⟩

theorem Step.length_lt (step : Step offers rules before after) :
    after.length < before.length := by
  obtain ⟨rule, first, rfl⟩ := step
  exact first.length_foldFront_lt

theorem Step.ne_nil (step : Step offers rules before after) : after ≠ [] := by
  obtain ⟨rule, _, rfl⟩ := step
  exact List.cons_ne_nil _ _

/-- The first rule of a grammar is passed over, or it is the one that is selected. -/
theorem Selects.cases {nodes : List Node} {rule : Rule} {rule? : Option Rule}
    (selects : Selects offers (rule :: rules) nodes rule?) :
    (rule.PassedOver offers nodes ∧ Selects offers rules nodes rule?) ∨
      (rule? = some rule ∧ 2 ≤ rule.pattern.length ∧ rule.pattern.length ≤ nodes.length ∧
        Matches offers rule.pattern nodes) := by
  cases rule? with
  | none => exact .inl (List.forall_mem_cons.mp selects)
  | some other =>
      obtain ⟨earlier, later, same, passed, fits⟩ := selects
      cases earlier with
      | nil =>
          cases same
          exact .inr ⟨rfl, fits⟩
      | cons head earlier =>
          cases same
          obtain ⟨first, others⟩ := List.forall_mem_cons.mp passed
          exact .inl ⟨first, earlier, later, rfl, others, fits⟩

/-- Every step leaves fewer nodes. -/
theorem Chain.length_le (chain : Chain offers rules steps before after) :
    steps + after.length ≤ before.length := by
  induction chain with
  | stop nodes => exact Nat.le_of_eq (Nat.zero_add _)
  | fold step _ ih =>
      have fewer := step.length_lt
      omega

theorem Chain.ne_nil (chain : Chain offers rules steps before after) (some_node : before ≠ []) :
    after ≠ [] := by
  induction chain with
  | stop nodes => exact some_node
  | fold step _ ih => exact ih step.ne_nil

/-- There are fewer steps than nodes. -/
theorem Chain.steps_le (chain : Chain offers rules steps before after) :
    steps ≤ before.length - 1 := by
  have short := chain.length_le
  cases before with
  | nil =>
      rw [List.length_nil] at short
      omega
  | cons first rest =>
      have remains := List.length_pos_iff.mpr (chain.ne_nil (List.cons_ne_nil first rest))
      omega

/-- A step leaves alone what it does not fold. -/
theorem Step.tail_suffix (step : Step offers rules before after) : after.tail <:+ before.tail := by
  obtain ⟨rule, ⟨_, _, _, _, two, _, _⟩, rfl⟩ := step
  obtain ⟨count, isSucc⟩ : ∃ count, rule.pattern.length = count + 1 :=
    ⟨rule.pattern.length - 1, by omega⟩
  rw [foldFront, List.tail_cons, isSucc, ← List.drop_tail]
  exact List.drop_suffix count before.tail

/-- All but the first node that remains are the last nodes of the sequence, as they were. -/
theorem Chain.tail_suffix (chain : Chain offers rules steps before after) :
    after.tail <:+ before.tail := by
  induction chain with
  | stop nodes => exact List.suffix_refl _
  | fold step _ ih => exact ih.trans step.tail_suffix

end Rule

/-- The sequence with its first group opened. -/
def Node.openFirst : List Node → List Node
  | .group children _ :: rest => children ++ rest
  | nodes => nodes

namespace Rule

variable {offers : Node → CategorySet → Prop} {rules : List Rule} {before after : List Node}
  {steps : Nat}

theorem Step.openFirst_eq (step : Step offers rules before after) :
    Node.openFirst after = before := by
  obtain ⟨rule, _, rfl⟩ := step
  exact List.take_append_drop rule.pattern.length before

/-- Opening as many groups as there were steps gives back the sequence. -/
theorem Chain.openFirst_iterate (chain : Chain offers rules steps before after) :
    Node.openFirst^[steps] after = before := by
  induction chain with
  | stop nodes => rfl
  | fold step _ ih => rw [Function.iterate_succ_apply', ih, step.openFirst_eq]

/-- Steps make no search text. -/
theorem Chain.not_mem_search (chain : Chain offers rules steps before after)
    (plain : ∀ text, Node.token (.search text) ∉ before) :
    ∀ text, Node.token (.search text) ∉ after := by
  induction chain with
  | stop nodes => exact plain
  | fold step _ ih =>
      obtain ⟨rule, _, rfl⟩ := step
      refine ih fun text member => ?_
      obtain isGroup | inRest := List.mem_cons.mp member
      · contradiction
      · exact plain text (List.mem_of_mem_drop inRest)

end Rule

/-- No search text is left of a sequence whose search texts have been read. -/
theorem Lexer.not_mem_search {lexer : Lexer} {nodes expanded : List Node}
    (expands : lexer.expand nodes = .ok expanded) (text : String) :
    Node.token (.search text) ∉ expanded := by
  fun_induction Lexer.expand lexer nodes generalizing expanded with
  | case1 =>
      cases expands
      simp
  | case2 source rest ih =>
      obtain ⟨found, lexed, more⟩ := bind_eq_ok_iff.mp expands
      obtain ⟨others, otherwise, made⟩ := bind_eq_ok_iff.mp more
      cases made
      intro member
      obtain inFound | inOthers := List.mem_append.mp member
      · obtain ⟨token, inTokens, isSearch⟩ := List.mem_map.mp inFound
        cases isSearch
        have spelled := isSpelled_of_mem_tokens (mapError_eq_ok_iff.mp lexed) _ inTokens
        contradiction
      · exact ih otherwise inOthers
  | case3 first rest noSearch ih =>
      obtain ⟨others, otherwise, made⟩ := bind_eq_ok_iff.mp expands
      cases made
      intro member
      obtain isFirst | inOthers := List.mem_cons.mp member
      · exact noSearch text isFirst.symm
      · exact ih otherwise inOthers

namespace Grouper

variable {grouper : Grouper} {readings : List Reading} {rules : List Rule}

section Completeness

theorem settles_fit_cons {category : Category} {pattern : List Category} {reading : Reading}
    {offered : CategorySet} {fits : Bool} {after : List Reading}
    (asked : grouper.resolver.Settles reading.categories (.ok offered))
    (member : category ∈ offered)
    (rest : grouper.resolver.Settles (Reading.fit pattern readings) (.ok (fits, after))) :
    grouper.resolver.Settles (Reading.fit (category :: pattern) (reading :: readings))
      (.ok (fits, .settled reading.node offered :: after)) := by
  refine Resolver.settles_bind_ok.mpr ⟨offered, asked, ?_⟩
  rw [if_pos member]
  exact Resolver.settles_bind_ok.mpr ⟨_, rest, Resolver.settles_done _⟩

/-- Whether a pattern fits is found as soon as the categories that tell it are offered. -/
theorem settles_fit {pattern : List Category}
    (truthful : ∀ reading ∈ readings, grouper.Truthful reading) {fits : Bool}
    (verdict : if fits then Rule.Matches grouper.Offers pattern (readings.map Reading.node)
      else Rule.Misses grouper.Offers pattern (readings.map Reading.node)) :
    ∃ after, grouper.resolver.Settles (Reading.fit pattern readings) (.ok (fits, after)) := by
  induction pattern generalizing readings with
  | nil =>
      cases fits with
      | true => exact ⟨readings, Resolver.settles_done _⟩
      | false => exact verdict.elim
  | cons category pattern ih =>
      cases readings with
      | nil =>
          cases fits with
          | true => exact verdict.elim
          | false => exact ⟨[], Resolver.settles_done _⟩
      | cons reading readings =>
          obtain ⟨first, others⟩ := List.forall_mem_cons.mp truthful
          cases fits with
          | true =>
              obtain ⟨⟨offered, offers, member⟩, rest⟩ := verdict
              obtain ⟨after, settles⟩ := ih others rest
              exact ⟨_, settles_fit_cons ((first offered).mpr offers) member settles⟩
          | false =>
              obtain ⟨offered, offers, rest⟩ := verdict
              have asked := (first offered).mpr offers
              by_cases member : category ∈ offered
              · obtain ⟨after, settles⟩ := ih others (rest member)
                exact ⟨_, settles_fit_cons asked member settles⟩
              · refine ⟨.settled reading.node offered :: readings, ?_⟩
                refine Resolver.settles_bind_ok.mpr ⟨offered, asked, ?_⟩
                rw [if_neg member]
                exact Resolver.settles_done _

/-- A rule that is passed over is passed over in the search, which keeps the nodes. -/
theorem settles_firstRule_cons {rule : Rule} {rule? : Option Rule}
    (truthful : ∀ reading ∈ readings, grouper.Truthful reading)
    (passed : rule.PassedOver grouper.Offers (readings.map Reading.node))
    (rest : ∀ after : List Reading, (∀ reading ∈ after, grouper.Truthful reading) →
      after.map Reading.node = readings.map Reading.node →
      ∃ final, grouper.resolver.Settles (Reading.firstRule rules after) (.ok (rule?, final))) :
    ∃ final, grouper.resolver.Settles (Reading.firstRule (rule :: rules) readings)
      (.ok (rule?, final)) := by
  rw [Reading.firstRule]
  split
  next unfit => exact rest readings truthful rfl
  next fitting =>
    have misses : Rule.Misses grouper.Offers rule.pattern (readings.map Reading.node) := by
      simp only [Bool.or_eq_true, decide_eq_true_eq, not_or, Nat.not_lt] at fitting
      obtain short | long | misses := passed
      · omega
      · rw [List.length_map] at long
        omega
      · exact misses
    obtain ⟨after, asked⟩ := settles_fit truthful
      (show if false then _ else Rule.Misses grouper.Offers _ _ from misses)
    obtain ⟨sameNodes, allTruthful, _⟩ :=
      asked.of_always (grouper.truthful_invariant.fit rule.pattern truthful)
    obtain ⟨final, settles⟩ := rest after allTruthful sameNodes
    exact ⟨final, Resolver.settles_bind_ok.mpr ⟨_, asked, settles⟩⟩

/-- The rule that a sequence selects is found. -/
theorem settles_firstRule {rule? : Option Rule}
    (truthful : ∀ reading ∈ readings, grouper.Truthful reading)
    (selects : Rule.Selects grouper.Offers rules (readings.map Reading.node) rule?) :
    ∃ after, grouper.resolver.Settles (Reading.firstRule rules readings)
      (.ok (rule?, after)) := by
  induction rules generalizing readings with
  | nil =>
      cases rule? with
      | none => exact ⟨readings, Resolver.settles_done _⟩
      | some rule => exact absurd selects.mem List.not_mem_nil
  | cons rule rules ih =>
      obtain ⟨passed, later⟩ | ⟨rfl, two, short, matched⟩ := selects.cases
      · refine settles_firstRule_cons truthful passed fun after allTruthful sameNodes => ?_
        exact ih allTruthful (sameNodes ▸ later)
      · rw [List.length_map] at short
        obtain ⟨after, asked⟩ := settles_fit truthful
          (show if true then Rule.Matches grouper.Offers _ _ else _ from matched)
        refine ⟨after, ?_⟩
        rw [Reading.firstRule, if_neg (by simp; omega)]
        exact Resolver.settles_bind_ok.mpr ⟨_, asked, Resolver.settles_done _⟩

/-- Wherever steps lead to a sequence that every rule passes over, folding ends there. -/
theorem settles_foldFor {steps limit : Nat} {final : List Node}
    (truthful : ∀ reading ∈ readings, grouper.Truthful reading)
    (chain : Rule.Chain grouper.Offers rules steps (readings.map Reading.node) final)
    (stuck : ∀ rule ∈ rules, rule.PassedOver grouper.Offers final) (enough : steps ≤ limit) :
    ∃ folded, grouper.resolver.Settles (Reading.foldFor rules limit readings) (.ok folded) ∧
      folded.map Reading.node = final := by
  induction limit generalizing readings steps with
  | zero =>
      obtain rfl : steps = 0 := by omega
      cases chain
      exact ⟨readings, Resolver.settles_done _, rfl⟩
  | succ limit ih =>
      cases chain with
      | stop =>
          obtain ⟨after, found⟩ := settles_firstRule truthful
            (show Rule.Selects grouper.Offers rules _ none from stuck)
          obtain ⟨sameNodes, _, _⟩ :=
            found.of_always (grouper.truthful_invariant.firstRule rules rfl truthful)
          refine ⟨after, ?_, sameNodes⟩
          exact Resolver.settles_bind_ok.mpr ⟨_, found, Resolver.settles_done _⟩
      | fold step more =>
          obtain ⟨rule, first, rfl⟩ := step
          obtain ⟨after, found⟩ := settles_firstRule truthful
            (show Rule.Selects grouper.Offers rules _ (some rule) from first)
          obtain ⟨sameNodes, allTruthful, _⟩ :=
            found.of_always (grouper.truthful_invariant.firstRule rules rfl truthful)
          rw [← sameNodes, ← Reading.map_node_fold] at more
          obtain ⟨folded, settles, same⟩ :=
            ih (grouper.truthful_invariant.fold rule allTruthful) more (by omega)
          exact ⟨folded, Resolver.settles_bind_ok.mpr ⟨_, found, settles⟩, same⟩

/-- What remains of a sequence is what steps lead to that every rule passes over. -/
theorem settles_reduction_iff {nodes reduced : List Node} :
    grouper.resolver.Settles (grouper.reduction nodes) (.ok reduced) ↔
      ∃ expanded steps, grouper.lexer.expand nodes = .ok expanded ∧
        Rule.Chain grouper.Offers grouper.rules steps expanded reduced ∧
        ∀ rule ∈ grouper.rules, rule.PassedOver grouper.Offers reduced := by
  constructor
  · intro settles
    obtain ⟨readings, readSettles, more⟩ := Resolver.settles_bind_ok.mp settles
    obtain ⟨folded, foldedSettles, mapped⟩ := Resolver.settles_bind_ok.mp more
    have read := readSettles.unique (Resolver.settles_done (grouper.readings nodes))
    obtain ⟨expanded, expands, rfl⟩ := readings_eq_ok_iff.mp read.symm
    cases mapped.unique (Resolver.settles_done (.ok (folded.map Reading.node)))
    obtain ⟨_, reaches, stuck⟩ := foldAll_spec foldedSettles
    obtain ⟨steps, chain⟩ := Rule.exists_chain reaches
    exact ⟨expanded, steps, expands, chain, stuck⟩
  · rintro ⟨expanded, steps, expands, chain, stuck⟩
    have truthful : ∀ reading ∈ expanded.map grouper.reading, grouper.Truthful reading := by
      intro reading member
      obtain ⟨node, _, rfl⟩ := List.mem_map.mp member
      exact grouper.truthful_reading node
    have enough : steps ≤ (expanded.map grouper.reading).length := by
      have fewer := chain.length_le
      rw [List.length_map]
      omega
    have nodesOf : (expanded.map grouper.reading).map Reading.node = expanded := by
      simp [Function.comp_def, reading]
    obtain ⟨folded, foldedSettles, same⟩ :=
      settles_foldFor truthful (nodesOf.symm ▸ chain) stuck enough
    have read := readings_eq_ok_iff.mpr ⟨expanded, expands, rfl⟩
    refine Resolver.settles_bind_ok.mpr ⟨_, ?_, Resolver.settles_bind_ok.mpr
      ⟨folded, foldedSettles, same ▸ Resolver.settles_done _⟩⟩
    rw [read]
    exact Resolver.settles_done _

end Completeness

/-- Whatever was asked before, a value is answered exactly if the search settles on it. -/
theorem answerAfter_eq_ok_iff {asked : List Query} {query : Query} {answer : query.Answer} :
    grouper.answerAfter asked query = .ok answer ↔
      grouper.resolver.Settles (grouper.search query) (.ok answer) :=
  Resolver.run_eq_ok_iff _ (Resolver.faithful_empty.foldl_run grouper.search asked)

/-- The categories that a node is answered to have, after other queries. -/
def OffersAfter (grouper : Grouper) (asked : List Query) (node : Node)
    (categories : CategorySet) : Prop :=
  grouper.answerAfter asked (.categories node) = .ok categories

theorem offersAfter_eq (grouper : Grouper) (asked : List Query) :
    grouper.OffersAfter asked = grouper.Offers :=
  funext fun _ => funext fun _ => propext answerAfter_eq_ok_iff

/-- What remains of a sequence is reached from it, with its search texts read, by fewer steps than
it has nodes.  Each step folds the front by the first rule that fits the categories of the nodes
there, and where no more are taken every rule is passed over.  Only the first node that remains can
be new, and the others are the last nodes of the sequence.  Opening the first group once for each
step gives back the sequence.  What remains stays as it is when it is reduced again.  None of this
depends on what the grouper was asked before. -/
theorem reduction_normal_form (grouper : Grouper) (earlier : List Query)
    {nodes reduced : List Node}
    (reduces : grouper.answerAfter earlier (.reduction nodes) = .ok reduced) :
    ∃ expanded steps, grouper.lexer.expand nodes = .ok expanded ∧
      steps ≤ expanded.length - 1 ∧
      (∀ asked, Rule.Chain (grouper.OffersAfter asked) grouper.rules steps expanded reduced ∧
        ∀ rule ∈ grouper.rules, rule.PassedOver (grouper.OffersAfter asked) reduced) ∧
      reduced.tail <:+ expanded.tail ∧
      Node.openFirst^[steps] reduced = expanded ∧
      ∀ asked, grouper.answerAfter asked (.reduction reduced) = .ok reduced := by
  obtain ⟨expanded, steps, expands, chain, stuck⟩ :=
    settles_reduction_iff.mp (answerAfter_eq_ok_iff.mp reduces)
  have plain := chain.not_mem_search (Lexer.not_mem_search expands)
  have again : grouper.resolver.Settles (grouper.reduction reduced) (.ok reduced) :=
    settles_reduction_iff.mpr ⟨reduced, 0, Lexer.expand_eq_self plain, .stop reduced, stuck⟩
  refine ⟨expanded, steps, expands, chain.steps_le, fun asked => ?_, chain.tail_suffix,
    chain.openFirst_iterate, fun asked => answerAfter_eq_ok_iff.mpr again⟩
  rw [grouper.offersAfter_eq asked]
  exact ⟨chain, stuck⟩

/-- The standard language over a graph with a name for `#`. -/
def namedIdentity : Grouper := Language.standard.grouper (.ofList [("f", .keyword "#")])

/-- The function `-~#`, with a search text and a name. -/
def searchedReflex : List Node := [.token (.search "-~"), .token (.reference "f")]

/-- The group `-~`. -/
def reflexGroup : Node :=
  .group [.token (.keyword "-"), .token (.keyword "~")] (some {.monad, .dyad})

/-- What remains of the function. -/
def reflexOfNamed : List Node :=
  [.group [reflexGroup, .token (.reference "f")] (some {.monad, .dyad})]

theorem searchedReflex_reduces :
    namedIdentity.answerAfter [.categories (.token (.reference "lost"))]
      (.reduction searchedReflex) = .ok reflexOfNamed := by
  decide +kernel

/-- The function is folded in two steps, and not folded any further. -/
theorem searchedReflex_normal_form :
    namedIdentity.answerAfter [.categories (.token (.reference "lost"))]
        (.reduction searchedReflex) = .ok reflexOfNamed ∧
      (∃ expanded steps, namedIdentity.lexer.expand searchedReflex = .ok expanded ∧
        expanded.length = 3 ∧ steps ≤ 2 ∧
        Rule.Chain (namedIdentity.OffersAfter []) Rule.standard steps expanded reflexOfNamed ∧
        Node.openFirst^[steps] reflexOfNamed = expanded) ∧
      namedIdentity.answerAfter [] (.reduction reflexOfNamed) = .ok reflexOfNamed := by
  obtain ⟨expanded, steps, expands, few, chain, _, opened, again⟩ :=
    reduction_normal_form _ _ searchedReflex_reduces
  have three : expanded.length = 3 := by
    have read : namedIdentity.lexer.expand searchedReflex =
        .ok [.token (.keyword "-"), .token (.keyword "~"), .token (.reference "f")] := by decide +kernel
    cases expands.symm.trans read
    rfl
  rw [three] at few
  exact ⟨searchedReflex_reduces, ⟨expanded, steps, expands, three, few, (chain []).1, opened⟩,
    again []⟩

end Grouper

end Tacit
