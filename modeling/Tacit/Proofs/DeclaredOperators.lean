import Tacit.Proofs.Blame
import Tacit.Proofs.Faithfulness
import Tacit.Proofs.Printing
import Tacit.Proofs.Strictness

/-!
# Declared operators as the cause of failures

In a graph that is built from sources, a meaning without any symbol is a word that is declared and
not implemented, or a name for one.  Grouping takes such a word for what it is declared as.  An
operator that needs a symbol of that category reports the declared meaning by name.  Arithmetic does
not: where it is given no function it asks for values, which no word is declared as, and all that
it can report is that a value was needed and nothing found.
-/

namespace Tacit

namespace KeywordTable

/-- A spelling has variants, and none of them is implemented. -/
def DeclaresOnly (table : KeywordTable) (spelling : String) : Prop :=
  table.variants spelling ≠ [] ∧
    ∀ variant ∈ table.variants spelling, variant.isImplemented = false

/-- A spelling whose meaning has no symbol has no implemented variant. -/
theorem isImplemented_of_isBlank {table : KeywordTable} {spelling : String}
    (blank : (table.symbols spelling).IsBlank) :
    ∀ variant ∈ table.variants spelling, variant.isImplemented = false := by
  intro variant member
  rw [Variant.isImplemented]
  split
  next builtin implemented =>
    have binds : table.Binds spelling builtin := ⟨variant, member, implemented⟩
    have bound := binds.get?_symbols
    obtain ⟨noun, monad, dyad, conjunction, adverb⟩ := blank
    cases builtin <;> simp [SymbolSet.get?, Builtin.category, Builtin.symbol, Symbol.category,
      monad, dyad, conjunction, adverb] at bound
  next => rfl

/-- The meaning of a word in use goes back to it. -/
theorem symbols_traced (table : KeywordTable) {used : String → Prop}
    {spelling : String} (isUsed : used spelling) :
    (table.symbols spelling).Traced table used where
  kept := table.symbols_admits spelling
  calculates verb found calculates := by
    obtain rfl | ⟨op, rfl⟩ := symbols_monad found
    · exact calculates.elim
    · exact calculates.elim
  dyad op found := ⟨spelling, op, isUsed, symbols_dyad found⟩
  declared _ _ found := ⟨spelling, isUsed, symbols_declared found⟩

theorem exists_standardEntry {spelling : String} {variant : Variant}
    (member : variant ∈ standard.variants spelling) :
    ∃ entry ∈ standardEntries, entry.1 = spelling ∧ variant ∈ entry.2 := by
  rw [variants] at member
  cases found : standard.entries.get? spelling with
  | none =>
      rw [found] at member
      cases member
  | some variants =>
      rw [found] at member
      obtain nowhere | listed :=
        Catalog.mem_of_mem_insertMany (Catalog.exists_mem_of_get? found)
      · cases nowhere
      · exact ⟨(spelling, variants), listed, rfl, member⟩

/-- Standard words with a declared variant have no other. -/
theorem declaresOnly_standard {spelling name : String} {category : Category}
    (declares : standard.Declares spelling name category) : standard.DeclaresOnly spelling := by
  obtain ⟨variant, member, _, meaning⟩ := declares
  refine ⟨List.ne_nil_of_mem member, ?_⟩
  have unmixed : ∀ entry ∈ standard.entries.entries, ∀ one ∈ entry.2, one.isImplemented = false →
      ∀ other ∈ entry.2, other.isImplemented = false := forall_standard (by decide)
  rw [variants] at member ⊢
  cases found : standard.entries.get? spelling with
  | none =>
      rw [found] at member
      cases member
  | some variants =>
      rw [found] at member
      refine unmixed _ (Catalog.exists_mem_of_get? found) variant member ?_
      rw [Variant.isImplemented, meaning]

end KeywordTable

/-- An expression is a keyword, or a name for one, maybe through other names. -/
inductive Graph.Spells (graph : Graph) : Expr → String → Prop
  | keyword (spelling : String) : Spells graph (.keyword spelling) spelling
  | named {id spelling : String} {expr : Expr} (found : graph.get? id = some expr)
      (spells : Spells graph expr spelling) : Spells graph (.reference id) spelling

theorem Graph.Spells.uses {graph : Graph} {expr : Expr} {spelling : String}
    (spells : graph.Spells expr spelling) : graph.Uses expr spelling := by
  induction spells with
  | keyword spelling => exact .inl List.mem_cons_self
  | named found spells ih => exact ih.of_named found

theorem Graph.Uses.of_part {graph : Graph} {expr part : Expr} {spelling : String}
    (isPart : expr.HasPart part) (uses : graph.Uses part spelling) :
    graph.Uses expr spelling := by
  induction isPart with
  | self => exact uses
  | child member inside ih => exact (ih uses).of_child member

theorem Formed.part {offers : Node → CategorySet → Prop} {rules : List Rule} {expr part : Expr}
    (formed : Formed offers rules expr.toNode) (isPart : expr.HasPart part) :
    Formed offers rules part.toNode := by
  induction isPart with
  | self => exact formed
  | child member inside ih =>
      rw [Expr.toNode, Expr.toNodes_eq_map] at formed
      exact ih (formed.children _ (List.mem_map_of_mem member))

namespace Language

variable {language : Language} {sources : Catalog String} {id : String} {expr : Expr}
  {set : SymbolSet}

/-- Evaluation over the finished graph of sources. -/
abbrev builtEvaluator (language : Language) (sources : Catalog String) : Evaluator :=
  language.evaluator (language.buildGraph sources).1

/-- A meaning fits what an expression offers, delivers it, and goes back to the words in use. -/
structure Suits (grouper : Grouper) (used : String → Prop) (expr : Expr) (set : SymbolSet) :
    Prop where
  delivers : ∃ categories, grouper.Offers expr.toNode categories ∧ set.Fits categories ∧
    set.Delivers categories
  traced : set.Traced grouper.lexer.table used

section Groups

variable {grouper : Grouper} {used : String → Prop} {left middle right : Expr}
  {known : Option CategorySet} {operator x y : SymbolSet}

theorem Suits.serves (suits : Suits grouper used expr set) {category : Category}
    (matched : ∃ offered, grouper.Offers expr.toNode offered ∧ category ∈ offered) :
    set.Serves category := by
  obtain ⟨categories, offers, fits, delivers⟩ := suits.delivers
  obtain ⟨offered, alsoOffers, member⟩ := matched
  rw [← offers.unique alsoOffers] at member
  exact ⟨categories, fits, delivers, member⟩

/-- The rule behind a group of three, with what the children serve for. -/
theorem rule_of_triple (used : String → Prop)
    (formed : Formed grouper.Offers Rule.standard
      (.group [left.toNode, middle.toNode, right.toNode] known)) :
    ∃ rule ∈ Rule.standard, ∃ first second third, rule.pattern = [first, second, third] ∧
      (∀ set, Suits grouper used left set → set.Serves first) ∧
      (∀ set, Suits grouper used middle set → set.Serves second) ∧
      ∀ set, Suits grouper used right set → set.Serves third := by
  cases formed with
  | group rule children member length_eq matched _ =>
      obtain ⟨first, second, third, pattern⟩ := List.length_eq_three.mp length_eq.symm
      rw [pattern] at matched
      obtain ⟨leftMatches, middleMatches, rightMatches, -⟩ := matched
      exact ⟨rule, member, first, second, third, pattern, fun _ suits => suits.serves leftMatches,
        fun _ suits => suits.serves middleMatches, fun _ suits => suits.serves rightMatches⟩

/-- The rule behind a group of two, with what the children serve for. -/
theorem rule_of_pair (used : String → Prop)
    (formed : Formed grouper.Offers Rule.standard (.group [left.toNode, right.toNode] known)) :
    ∃ rule ∈ Rule.standard, ∃ first second, rule.pattern = [first, second] ∧
      (∀ set, Suits grouper used left set → set.Serves first) ∧
      ∀ set, Suits grouper used right set → set.Serves second := by
  cases formed with
  | group rule children member length_eq matched _ =>
      obtain ⟨first, second, pattern⟩ := List.length_eq_two.mp length_eq.symm
      rw [pattern] at matched
      obtain ⟨leftMatches, rightMatches, -⟩ := matched
      exact ⟨rule, member, first, second, pattern, fun _ suits => suits.serves leftMatches,
        fun _ suits => suits.serves rightMatches⟩

theorem operator_explained
    (formed : Formed grouper.Offers Rule.standard
      (.group [left.toNode, middle.toNode, right.toNode] known))
    (middleSuits : Suits grouper used middle operator) :
    (operator.missing [.dyad, .conjunction]).Explained grouper.lexer.table used := by
  obtain ⟨rule, member, _, _, _, pattern, _, serves, _⟩ := rule_of_triple used formed
  exact Rule.missing_operator_explained member pattern (serves _ middleSuits) middleSuits.traced

theorem triple_explained
    (formed : Formed grouper.Offers Rule.standard
      (.group [left.toNode, middle.toNode, right.toNode] known))
    (leftSuits : Suits grouper used left x) (middleSuits : Suits grouper used middle operator)
    (rightSuits : Suits grouper used right y) :
    EndsExplained grouper.lexer.table used (operator.between x y) := by
  obtain ⟨rule, member, _, _, _, pattern, leftServes, middleServes, rightServes⟩ :=
    rule_of_triple used formed
  exact Rule.between_explained member pattern (leftServes x leftSuits)
    (middleServes operator middleSuits) (rightServes y rightSuits) leftSuits.traced
    middleSuits.traced rightSuits.traced

theorem function_explained
    (formed : Formed grouper.Offers Rule.standard (.group [left.toNode, right.toNode] known))
    (leftSuits : Suits grouper used left x) :
    (x.missing [.monad, .dyad]).Explained grouper.lexer.table used := by
  obtain ⟨rule, member, _, _, pattern, serves, _⟩ := rule_of_pair used formed
  exact Rule.missing_function_explained member pattern (serves x leftSuits) leftSuits.traced

theorem pair_explained
    (formed : Formed grouper.Offers Rule.standard (.group [left.toNode, right.toNode] known))
    (leftSuits : Suits grouper used left x) (rightSuits : Suits grouper used right y) :
    EndsExplained grouper.lexer.table used (x.beside y) := by
  obtain ⟨rule, member, _, _, pattern, leftServes, rightServes⟩ := rule_of_pair used formed
  exact Rule.beside_explained member pattern (leftServes x leftSuits) (rightServes y rightSuits)
    leftSuits.traced rightSuits.traced

end Groups

section Meanings

variable (grammar : language.rules = Rule.standard)
  (regular : ∀ spelling, KeywordTable.Regular (language.lexer.table.variants spelling))
  {used : String → Prop}
  (formed : Formed (language.stagedGrouper sources).Offers language.rules expr.toNode)
  (covers : ∀ spelling, (language.buildGraph sources).1.Uses expr spelling → used spelling)
include grammar regular formed covers

/-- Every meaning suits its expression, with the words that the expression uses. -/
theorem suits_of_means
    (means : (language.builtEvaluator sources).Means expr set) :
    Suits (language.stagedGrouper sources) used expr set := by
  induction means with
  | keyword spelling =>
      refine ⟨⟨_, Grouper.offers_keyword _ spelling,
        KeywordTable.symbols_fits (regular spelling), .inl fun category => ?_⟩, ?_⟩
      · exact (language.lexer.table.offers_symbols_iff spelling category).mpr
      · exact language.lexer.table.symbols_traced (covers spelling (.inl List.mem_cons_self))
  | number value =>
      exact ⟨⟨_, Grouper.offers_number _ value, SymbolSet.fits_noun _, .inr (.inl ⟨_, rfl⟩)⟩,
        (SymbolSet.operand_noun _).toTraced⟩
  | reference found named ih =>
      obtain ⟨⟨categories, offers, delivers⟩, traced⟩ := ih (formed_of_graph found)
        fun spelling uses => covers spelling (uses.of_named found)
      exact ⟨⟨categories, offers_name_of_graph found offers, delivers⟩, traced⟩
  | triple operates leftMeans rightMeans joined operatesIh leftIh rightIh =>
      obtain ⟨categories, offers, fits, _⟩ :=
        agrees_of_means grammar regular (.triple operates leftMeans rightMeans joined) formed
      have children := formed.children
      simp only [Expr.toNodes, List.forall_mem_cons] at children
      rw [grammar] at formed
      have ends := triple_explained formed
        (leftIh children.1 fun spelling uses => covers spelling (uses.of_child (by simp)))
        (operatesIh children.2.1 fun spelling uses => covers spelling (uses.of_child (by simp)))
        (rightIh children.2.2.1 fun spelling uses => covers spelling (uses.of_child (by simp)))
      rw [joined] at ends
      refine ⟨⟨categories, offers, fits, .inr ?_⟩, ends.toTraced⟩
      exact SymbolSet.isNoun_or_isMonad_of_between leftMeans.unmixed joined
  | pair leftMeans rightMeans applied leftIh rightIh =>
      obtain ⟨categories, offers, fits, _⟩ :=
        agrees_of_means grammar regular (.pair leftMeans rightMeans applied) formed
      have children := formed.children
      simp only [Expr.toNodes, List.forall_mem_cons] at children
      rw [grammar] at formed
      have leftSuits := leftIh children.1 fun spelling uses =>
        covers spelling (uses.of_child (by simp))
      have rightSuits := rightIh children.2.1 fun spelling uses =>
        covers spelling (uses.of_child (by simp))
      have ends := pair_explained formed leftSuits rightSuits
      rw [applied] at ends
      refine ⟨⟨categories, offers, fits, .inr ?_⟩, ends.toTraced⟩
      obtain ⟨rule, member, _, _, pattern, leftServes, rightServes⟩ := rule_of_pair used formed
      exact Rule.isNoun_or_isMonad_of_beside member pattern (leftServes _ leftSuits)
        (rightServes _ rightSuits) leftMeans.proper applied

end Meanings

/-- The failure for a missing symbol is recorded where the search for the meaning settles on it. -/
theorem category_failure_iff {expected offered : CategorySet}
    (found : (language.buildGraph sources).1.get? id = some expr) :
    (language.interpretSources sources).failures.get? id =
        some (.eval (.category expected offered)) ↔
      (language.builtEvaluator sources).resolver.Settles
        ((language.builtEvaluator sources).meaning expr) (.error (.category expected offered)) := by
  constructor
  · intro failed
    obtain ⟨_, _, accounts | ⟨_, impossible⟩⟩ := accounts_of_failure failed
    · obtain ⟨_, settles, rfl | ⟨_, _, impossible, _⟩⟩ | ⟨_, _, impossible⟩ := accounts
      · exact (Resolver.settles_get_iff found).mp settles
      · cases impossible
      · cases impossible
    · cases impossible
  · intro settles
    obtain ⟨meaning, accounts, entry⟩ :=
      (language.builtEvaluator sources).interpret_entry language.execute found
    have said := (interpretSources_entry_of_graph found).trans entry
    obtain rfl | ⟨_, _, _, impossible⟩ :=
      accounts.alike ((Resolver.settles_get_iff found).mpr settles).accounts
    · exact congrArg (fun entry : Entry => entry.2.2) said
    · cases impossible

section Failures

variable (grammar : language.rules = Rule.standard)
  (regular : ∀ spelling, KeywordTable.Regular (language.lexer.table.variants spelling))
  {error : EvalError}
include grammar regular

/-- The failure that an expression settles on is explained by the words that it uses. -/
theorem explained_of_follow {used : String → Prop} {depth : Nat}
    (formed : Formed (language.stagedGrouper sources).Offers language.rules expr.toNode)
    (covers : ∀ spelling, (language.buildGraph sources).1.Uses expr spelling → used spelling)
    (failed : ((language.builtEvaluator sources).meaning expr).follow
      ((language.builtEvaluator sources).resolver.within depth) = some (.error error)) :
    error.Explained language.lexer.table used := by
  -- The depth decreases at a reference, the expression everywhere else.
  induction depth using Nat.strongRecOn generalizing expr error with
  | ind depth shallower =>
      induction expr using Expr.nestedInduction generalizing error with
      | keyword _ | number _ => simp [Evaluator.meaning] at failed
      | search text | stub categories index =>
          simp only [Evaluator.meaning, Inquiry.fail, Inquiry.follow_done] at failed
          cases failed
          exact trivial
      | reference id =>
          rw [Evaluator.meaning, Inquiry.follow_get] at failed
          obtain rfl | ⟨named, earlier, before, found, inner⟩ := Resolver.error_of_within failed
          · exact trivial
          · exact shallower earlier before (formed_of_graph found)
              (fun spelling uses => covers spelling (uses.of_named found)) inner
      | group children known ih =>
          rw [Expr.toNode, Expr.toNodes_eq_map] at formed
          have inner : ∀ child ∈ children,
              Formed (language.stagedGrouper sources).Offers language.rules child.toNode :=
            fun child member => formed.children _ (List.mem_map_of_mem member)
          have within : ∀ child ∈ children, ∀ spelling,
              (language.buildGraph sources).1.Uses child spelling → used spelling :=
            fun child member spelling uses => covers spelling (uses.of_child member)
          have suits : ∀ child ∈ children, ∀ set,
              ((language.builtEvaluator sources).meaning child).follow
                ((language.builtEvaluator sources).resolver.within depth) = some (.ok set) →
              Suits (language.stagedGrouper sources) used child set :=
            fun child member set found => suits_of_means grammar regular (inner child member)
              (within child member) (Evaluator.means_of_follow found)
          rw [grammar] at formed
          rcases children with _ | ⟨left, _ | ⟨middle, _ | ⟨right, _ | ⟨more, rest⟩⟩⟩⟩
          · cases failed
            exact trivial
          · cases failed
            exact trivial
          · obtain ⟨child, member, inside⟩ | ⟨operand, leftFound, rfl |
                ⟨argument, rightFound, applied⟩⟩ := Evaluator.error_of_pair failed
            · exact ih child member (inner child member) (within child member) inside
            · exact function_explained formed (suits left (by simp) operand leftFound)
            · have ends := pair_explained formed (suits left (by simp) operand leftFound)
                (suits middle (by simp) argument rightFound)
              rw [applied] at ends
              exact ends
          · obtain ⟨child, member, inside⟩ | ⟨operator, middleFound, rfl |
                ⟨x, y, leftFound, rightFound, applied⟩⟩ := Evaluator.error_of_triple failed
            · exact ih child member (inner child member) (within child member) inside
            · exact operator_explained formed (suits middle (by simp) operator middleFound)
            · have ends := triple_explained formed (suits left (by simp) x leftFound)
                (suits middle (by simp) operator middleFound) (suits right (by simp) y rightFound)
              rw [applied] at ends
              exact ends
          · cases failed
            exact trivial

/-- The failure of evaluation that is recorded for a source is explained by the words that its
expression uses. -/
theorem explained_of_failure
    (failed : (language.interpretSources sources).failures.get? id = some (.eval error)) :
    ∃ expr, (language.buildGraph sources).1.get? id = some expr ∧
      error.Explained language.lexer.table ((language.buildGraph sources).1.Uses expr) := by
  obtain ⟨expr, found, accounts | ⟨refused, rfl⟩⟩ := accounts_of_failure failed
  · refine ⟨expr, found, ?_⟩
    obtain ⟨settled, settles, rfl | ⟨first, second, same, _⟩⟩ | ⟨_, name, same⟩ := accounts
    · obtain ⟨depth, inner⟩ := (Resolver.settles_get_iff found).mp settles
      exact explained_of_follow grammar regular (formed_of_graph found) (fun _ uses => uses) inner
    · cases same
      exact trivial
    · cases same
      exact trivial
  · exact ⟨expr, found, trivial⟩

end Failures

section Words

/-- A keyword stands in one of the sources. -/
def Words (language : Language) (sources : Catalog String) (spelling : String) : Prop :=
  ∃ id source tokens, sources.get? id = some source ∧
    language.lexer.tokens source = .ok tokens ∧ .keyword spelling ∈ tokens

theorem words_of_leaf {spelling : String}
    (found : (language.buildGraph sources).1.get? id = some expr)
    (leaf : Expr.keyword spelling ∈ expr.leaves) : language.Words sources spelling := by
  obtain ⟨source, tokens, named, lexed, sameLeaves⟩ := leaves_of_graph found
  have isToken := List.mem_map_of_mem (f := Expr.toNode) leaf
  rw [sameLeaves] at isToken
  obtain ⟨token, inTokens, linked⟩ := List.mem_map.mp isToken
  refine ⟨id, source, tokens, named, lexed, ?_⟩
  cases token with
  | keyword other =>
      cases linked
      exact inTokens
  | identifier name =>
      rw [Token.link] at linked
      split at linked <;> cases linked
  | number _ | reference _ | search _ => cases linked

/-- The keywords that an expression uses stand in the sources. -/
theorem words_of_uses {spelling : String}
    (found : (language.buildGraph sources).1.get? id = some expr)
    (uses : (language.buildGraph sources).1.Uses expr spelling) :
    language.Words sources spelling := by
  obtain leaf | ⟨_, target, other, _, _, targetFound, leaf⟩ := uses
  · exact words_of_leaf found leaf
  · exact words_of_leaf targetFound leaf

/-- A keyword of a source has variants. -/
theorem variants_of_words {spelling : String} (words : language.Words sources spelling) :
    language.lexer.table.variants spelling ≠ [] := by
  obtain ⟨_, source, tokens, _, lexed, member⟩ := words
  obtain ⟨spans, munches, _, rfl⟩ := Lexer.tokens_eq_ok_iff.mp lexed
  obtain ⟨span, inSpans, isKeyword⟩ := List.mem_map.mp member
  obtain ⟨variants, entered⟩ := Catalog.mem_names_iff.mp (munches.listed inSpans isKeyword)
  rw [KeywordTable.variants, entered]
  exact language.lexer.table.variants_ne _ (Catalog.exists_mem_of_get? entered)

end Words

section Blanks

variable (grammar : language.rules = Rule.standard)
  (regular : ∀ spelling, KeywordTable.Regular (language.lexer.table.variants spelling))
include grammar regular

theorem not_isBlank_of_group {children : List Expr} {known : Option CategorySet}
    (formed : Formed (language.stagedGrouper sources).Offers language.rules
      (Expr.group children known).toNode)
    (means : (language.builtEvaluator sources).Means (.group children known) set) :
    ¬ set.IsBlank := by
  obtain ⟨_, _, _, group⟩ := agrees_of_means grammar regular means formed
  obtain ⟨_, _, symbol, rfl, _⟩ := group children known rfl
  exact SymbolSet.not_isBlank_single symbol

/-- A meaning without any symbol is that of a keyword, which stands there or is named. -/
theorem spells_of_isBlank
    (formed : Formed (language.stagedGrouper sources).Offers language.rules expr.toNode)
    (means : (language.builtEvaluator sources).Means expr set) (blank : set.IsBlank) :
    ∃ spelling, (language.buildGraph sources).1.Spells expr spelling ∧
      set = language.lexer.table.symbols spelling := by
  induction means with
  | keyword spelling => exact ⟨spelling, .keyword spelling, rfl⟩
  | number value => exact absurd blank (SymbolSet.not_isBlank_single _)
  | reference found named ih =>
      obtain ⟨spelling, spells, same⟩ := ih (formed_of_graph found) blank
      exact ⟨spelling, .named found spells, same⟩
  | triple operates leftMeans rightMeans joined =>
      exact absurd blank (not_isBlank_of_group grammar regular formed
        (.triple operates leftMeans rightMeans joined))
  | pair leftMeans rightMeans applied =>
      exact absurd blank (not_isBlank_of_group grammar regular formed
        (.pair leftMeans rightMeans applied))

end Blanks

section Standard

/-- An operator between two occurrences of a word. -/
def clash (operator word : String) : Catalog String := .ofList [("x", word ++ operator ++ word)]

theorem clash_fails_bare : ∀ operator ∈ KeywordTable.standardEntries,
    ∀ word ∈ KeywordTable.standardEntries,
      (∃ variant ∈ operator.2, variant.category = .dyad ∧ variant.isImplemented = true) →
      (∃ variant ∈ word.2, variant.category = .monad ∧ variant.isImplemented = false) →
      standard.lexer.tokens (word.1 ++ operator.1 ++ word.1) =
          .ok [.keyword word.1, .keyword operator.1, .keyword word.1] ∧
        (standard.interpretSources (clash operator.1 word.1)).failures.get? "x" =
          some (.eval (.category {.noun} ∅)) := by
  decide +kernel

theorem words_of_clash {operator word spelling : String}
    (lexed : standard.lexer.tokens (word ++ operator ++ word) =
      .ok [.keyword word, .keyword operator, .keyword word])
    (words : standard.Words (clash operator word) spelling) :
    spelling = word ∨ spelling = operator := by
  obtain ⟨id, source, tokens, named, alsoLexed, member⟩ := words
  have entry : (id, source) ∈ [("x", word ++ operator ++ word)] :=
    Catalog.exists_mem_of_get? named
  cases List.mem_singleton.mp entry
  cases lexed.symm.trans alsoLexed
  simp only [List.mem_cons, Token.keyword.injEq, List.not_mem_nil, or_false] at member
  tauto

/-- Arithmetic and a word that is declared as a function are enough for a failure that finds
nothing. -/
theorem exists_bare_failure {allowed : String → Prop}
    (calculates : KeywordTable.standard.Calculates allowed)
    (promises : ∃ name, KeywordTable.standard.Promises allowed name .monad) :
    ∃ sources, (∀ spelling, standard.Words sources spelling → allowed spelling) ∧
      (standard.interpretSources sources).failures.get? "x" =
        some (.eval (.category {.noun} ∅)) := by
  obtain ⟨_, op, operatorAllowed, _, operatorMember, operates⟩ := calculates
  obtain ⟨_, _, wordAllowed, _, wordMember, _, declared⟩ := promises
  obtain ⟨operator, operatorListed, rfl, operatorVariant⟩ :=
    KeywordTable.exists_standardEntry operatorMember
  obtain ⟨word, wordListed, rfl, wordVariant⟩ := KeywordTable.exists_standardEntry wordMember
  obtain ⟨lexed, fails⟩ := clash_fails_bare operator operatorListed word wordListed
    ⟨_, operatorVariant, by rw [Variant.category, operates]; rfl,
      by rw [Variant.isImplemented, operates]⟩
    ⟨_, wordVariant, by rw [Variant.category, declared], by rw [Variant.isImplemented, declared]⟩
  refine ⟨clash operator.1 word.1, fun spelling words => ?_, fails⟩
  obtain rfl | rfl := words_of_clash lexed words
  · exact wordAllowed
  · exact operatorAllowed

theorem declared_noun_of_means {part : Expr}
    (found : (standard.buildGraph sources).1.get? id = some expr) (isPart : expr.HasPart part)
    (means : (standard.builtEvaluator sources).Means part set) :
    set.declared.get .noun = none := by
  have suits := suits_of_means rfl KeywordTable.regular_standard
    ((formed_of_graph found).part isPart) (fun _ uses => uses) means
  cases declared : set.declared.get .noun with
  | none => rfl
  | some name =>
      obtain ⟨_, _, variant, member, _, meaning⟩ := suits.traced.declared .noun name declared
      obtain ⟨entry, listed, _, inEntry⟩ := KeywordTable.exists_standardEntry member
      have noValues : ∀ entry ∈ KeywordTable.standardEntries, ∀ variant ∈ entry.2,
          variant.category ≠ .noun := by decide
      refine absurd ?_ (noValues entry listed variant inEntry)
      rw [Variant.category, meaning]

/-- Arithmetic on operands that have meanings fails without finding anything exactly where neither
of them is a function and the first that is no value has no symbol. -/
theorem arithmetic_fails_bare_iff {left middle right : Expr} {known : Option CategorySet}
    {operator x y : SymbolSet} {op : BinaryOp}
    (found : (standard.buildGraph sources).1.get? id = some (.group [left, middle, right] known))
    (operates : (standard.builtEvaluator sources).Means middle operator)
    (dyad : operator.dyad = some op)
    (leftMeans : (standard.builtEvaluator sources).Means left x)
    (rightMeans : (standard.builtEvaluator sources).Means right y) :
    (standard.interpretSources sources).failures.get? id =
        some (.eval (.category {.noun} ∅)) ↔
      x.monad = none ∧ y.monad = none ∧ (x.IsBlank ∨ x.noun ≠ none ∧ y.IsBlank) := by
  have undeclared : ∀ part ∈ [left, middle, right], ∀ set,
      (standard.builtEvaluator sources).Means part set → set.declared.get .noun = none :=
    fun part member set => declared_noun_of_means found (.child member (.self part))
  have settled : (standard.builtEvaluator sources).resolver.Settles
      ((standard.builtEvaluator sources).meaning (.group [left, middle, right] known))
      (op.applySet x y) := by
    have joined : operator.between x y = op.applySet x y := by rw [SymbolSet.between, dyad]
    exact joined ▸ Evaluator.settles_triple operates leftMeans rightMeans
  rw [category_failure_iff found, ← op.applySet_bare_iff (undeclared left (by simp) x leftMeans)
    (undeclared right (by simp) y rightMeans)]
  constructor
  · exact settled.unique
  · intro applied
    rwa [applied] at settled

/-- With the standard vocabulary, a failure names the declared operator that causes it, except
where a value is needed.

The words of some sources make it impossible that a failure finds nothing exactly if arithmetic or
words that are declared as functions are not among them.  Where such a failure is recorded, a value
was needed, and the expression uses arithmetic together with such a word.  For an arithmetic group
with operands that have meanings, it is recorded exactly where neither operand is a function and
the first that is no value has no symbol.  A declared meaning that a failure names is one of a word
that the expression uses, and so is the reason why a function was needed and a value found.  A part
whose meaning has no symbol is a word that is only declared, or a name for one. -/
theorem declared_operators_reported_unless_value_needed (sources : Catalog String) :
    ((∀ others, (∀ spelling, standard.Words others spelling → standard.Words sources spelling) →
        ∀ id expected, (standard.interpretSources others).failures.get? id ≠
          some (.eval (.category expected ∅))) ↔
      ¬ (KeywordTable.standard.Calculates (standard.Words sources) ∧
        ∃ name, KeywordTable.standard.Promises (standard.Words sources) name .monad)) ∧
    (∀ id error, (standard.interpretSources sources).failures.get? id = some (.eval error) →
      ∃ expr, (standard.buildGraph sources).1.get? id = some expr ∧
        (∀ expected, error = .category expected ∅ → expected = {.noun} ∧
          KeywordTable.standard.Calculates ((standard.buildGraph sources).1.Uses expr) ∧
          ∃ name, KeywordTable.standard.Promises ((standard.buildGraph sources).1.Uses expr) name
            .monad) ∧
        (error = .category {.monad} {.noun} →
          ∃ name, KeywordTable.standard.Promises ((standard.buildGraph sources).1.Uses expr) name
            .monad) ∧
        ∀ name category, error = .unsupportedOperator name category →
          KeywordTable.standard.Promises ((standard.buildGraph sources).1.Uses expr) name
            category) ∧
    (∀ id left middle right known operator op x y,
      (standard.buildGraph sources).1.get? id = some (.group [left, middle, right] known) →
      (standard.builtEvaluator sources).Means middle operator → operator.dyad = some op →
      (standard.builtEvaluator sources).Means left x →
      (standard.builtEvaluator sources).Means right y →
      ((standard.interpretSources sources).failures.get? id =
          some (.eval (.category {.noun} ∅)) ↔
        x.monad = none ∧ y.monad = none ∧ (x.IsBlank ∨ x.noun ≠ none ∧ y.IsBlank))) ∧
    (∀ spelling name category, KeywordTable.standard.Declares spelling name category →
      KeywordTable.standard.DeclaresOnly spelling) ∧
    ∀ id expr, (standard.buildGraph sources).1.get? id = some expr →
      ∀ part set, expr.HasPart part → (standard.builtEvaluator sources).Means part set →
        set.IsBlank → ∃ spelling, (standard.buildGraph sources).1.Spells part spelling ∧
          KeywordTable.standard.DeclaresOnly spelling ∧
          set = KeywordTable.standard.symbols spelling := by
  refine ⟨⟨?_, ?_⟩, ?_, ?_, fun _ _ _ => KeywordTable.declaresOnly_standard, ?_⟩
  · rintro avoided ⟨calculates, promises⟩
    obtain ⟨others, inside, fails⟩ := exists_bare_failure calculates promises
    exact avoided others inside "x" {.noun} fails
  · intro lacking others inside id expected failed
    obtain ⟨expr, found, explained⟩ :=
      explained_of_failure rfl KeywordTable.regular_standard failed
    have shared : ∀ spelling, (standard.buildGraph others).1.Uses expr spelling →
        standard.Words sources spelling :=
      fun spelling uses => inside spelling (words_of_uses found uses)
    obtain ⟨_, calculates⟩ := explained.1 rfl
    obtain ⟨name, promises⟩ := explained.2 (.inl rfl)
    exact lacking ⟨calculates.mono shared, name, promises.mono shared⟩
  · intro id error failed
    obtain ⟨expr, found, explained⟩ :=
      explained_of_failure rfl KeywordTable.regular_standard failed
    refine ⟨expr, found, ?_, ?_, ?_⟩
    · rintro expected rfl
      obtain ⟨value, calculates⟩ := explained.1 rfl
      exact ⟨value, calculates, explained.2 (.inl rfl)⟩
    · rintro rfl
      exact explained.2 (.inr ⟨rfl, rfl⟩)
    · rintro name category rfl
      exact explained
  · intro id left middle right known operator op x y found operates dyad leftMeans rightMeans
    exact arithmetic_fails_bare_iff found operates dyad leftMeans rightMeans
  · intro id expr found part set isPart means blank
    obtain ⟨spelling, spells, rfl⟩ := spells_of_isBlank rfl KeywordTable.regular_standard
      ((formed_of_graph found).part isPart) means blank
    have uses := spells.uses.of_part isPart
    exact ⟨spelling, spells, ⟨variants_of_words (words_of_uses found uses),
      KeywordTable.isImplemented_of_isBlank blank⟩, rfl⟩

/-- Addition does not report a declared function by name. -/
theorem sumWithFirst_fails_bare :
    (standard.interpretSources (.ofList [("x", "3+[")])).failures.get? "x" =
      some (.eval (.category {.noun} ∅)) := by
  decide +kernel

/-- One word that is only declared, asked for a value by one name and applied by another. -/
def firstTwice : Catalog String := .ofList [("a", "["), ("x", "a+a"), ("y", "-a")]

theorem firstTwice_failures_explained :
    (∃ expr, (standard.buildGraph firstTwice).1.get? "x" = some expr ∧
      KeywordTable.standard.Calculates ((standard.buildGraph firstTwice).1.Uses expr) ∧
      ∃ name, KeywordTable.standard.Promises ((standard.buildGraph firstTwice).1.Uses expr) name
        .monad) ∧
    ∃ expr, (standard.buildGraph firstTwice).1.get? "y" = some expr ∧
      KeywordTable.standard.Promises ((standard.buildGraph firstTwice).1.Uses expr) "first"
        .monad := by
  obtain ⟨_, explained, _⟩ := declared_operators_reported_unless_value_needed firstTwice
  obtain ⟨sum, sumFound, bare, _, _⟩ := explained "x" (.category {.noun} ∅) (by decide +kernel)
  obtain ⟨minus, minusFound, _, _, named⟩ :=
    explained "y" (.unsupportedOperator "first" .monad) (by decide +kernel)
  exact ⟨⟨sum, sumFound, (bare {.noun} rfl).2⟩, minus, minusFound, named "first" .monad rfl⟩

end Standard

end Language

end Tacit
