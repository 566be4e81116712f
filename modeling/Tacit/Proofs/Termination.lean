import Mathlib.Data.List.Forall2
import Tacit.Proofs.Grouping
import Tacit.Proofs.Munch
import Tacit.Proofs.Symbol
import Tacit.Proofs.Unbounded

/-!
# Every search ends

The searches that nothing bounds all end, whatever the graph, the vocabulary, the grammar and what
is remembered, and they end as the searches of the resolvers do.  Three things see to it.  A name
is busy while its item is worked on, so names are looked up no deeper than there are items.  A
fold leaves fewer nodes, since rules for fewer than two nodes are passed over.  A function applies
only the functions it is made of, and never its operand.
-/

namespace Tacit

namespace Lexer

/-- Reading a source ends, for every lexeme has characters. -/
theorem endsWith_seekSpans (lexer : Lexer) (count start position : Nat) (input : List Char) :
    EndsWith (fun limit => (lexer.seekSpans limit count start position input).run)
      (lexer.spansFrom count start position input) := by
  refine EndsWith.of_succ ?_
  fun_induction spansFrom lexer count start position input with
  | case1 count start position =>
      simp only [seekSpans]
      exact .of_forall fun _ => rfl
  | case2 count start position first rest full =>
      simp only [seekSpans, if_pos full]
      exact .of_forall fun _ => rfl
  | case3 count start position first rest notFull unread =>
      simp only [seekSpans, if_neg notFull, unread]
      exact .of_forall fun _ => rfl
  | case4 count start position first rest notFull token lexeme read stop ih =>
      obtain ⟨head, tail, rfl⟩ := List.exists_cons_of_ne_nil (read?_eq_some_iff.mp read).ne_nil
      simp only [seekSpans, if_neg notFull, read]
      exact Limited.endsWith_bind (EndsWith.of_succ ih) fun later => .of_forall fun _ => rfl

theorem endsWith_seekTokens (lexer : Lexer) (source : String) :
    EndsWith (fun limit => (lexer.seekTokens limit source).run) (lexer.tokens source) :=
  Limited.endsWith_bind (lexer.endsWith_seekSpans 0 0 0 source.toList) fun _ =>
    .of_forall fun _ => rfl

theorem endsWith_seekExpansion (lexer : Lexer) (nodes : List Node) :
    EndsWith (fun limit => (lexer.seekExpansion limit nodes).run) (lexer.expand nodes) := by
  fun_induction expand lexer nodes with
  | case1 => exact .of_forall fun _ => rfl
  | case2 text rest ih =>
      have lexed : EndsWith (fun limit => ((lexer.seekTokens limit text).adapt GroupError.lex).run)
          ((lexer.tokens text).mapError .lex) :=
        (lexer.endsWith_seekTokens text).map (Except.mapError GroupError.lex)
      simp only [seekExpansion]
      refine Limited.endsWith_bind lexed fun found => Limited.endsWith_bind ih fun others => ?_
      exact .of_forall fun _ => rfl
  | case3 first rest noSearch ih =>
      simp only [seekExpansion]
      exact Limited.endsWith_bind ih fun others => .of_forall fun _ => rfl

end Lexer

section Applying

theorem Side.endsWith_seek {side : Side} {operand : SymbolSet}
    (inside : ∀ inner, side = .verb inner →
      EndsWith (fun limit => (inner.seek limit operand).run) (inner.apply operand)) :
    EndsWith (fun limit => (side.seek fun inner => inner.seek limit operand).run)
      (side.formula operand) := by
  cases side with
  | verb inner =>
      rw [formula]
      exact Limited.endsWith_bind (inside inner rfl) fun result => .of_forall fun _ => rfl
  | fixed formula => exact .of_forall fun _ => rfl
  | missing error => exact .of_forall fun _ => rfl

/-- Applying a function ends: it applies the functions it is made of, and never its operand. -/
theorem Verb.endsWith_seek (verb : Verb) (operand : SymbolSet) :
    EndsWith (fun limit => (verb.seek limit operand).run) (verb.apply operand) := by
  refine EndsWith.of_succ ?_
  induction verb using Verb.nestedInduction generalizing operand with
  | identity | unary op | reflexive op => exact .of_forall fun _ => rfl
  | sequence first next firstIh nextIh =>
      simp only [seek, apply]
      exact Limited.endsWith_bind (EndsWith.of_succ (firstIh operand)) fun between =>
        .of_succ (nextIh between)
  | train op left right leftIh rightIh =>
      simp only [seek, apply]
      refine Limited.endsWith_bind
        (Side.endsWith_seek fun inner isVerb => .of_succ (leftIh inner isVerb operand)) ?_
      intro leftFormula
      refine Limited.endsWith_bind
        (Side.endsWith_seek fun inner isVerb => .of_succ (rightIh inner isVerb operand)) ?_
      exact fun rightFormula => .of_forall fun _ => rfl

theorem Conjunction.endsWith_seek (conjunction : Conjunction) (left right : SymbolSet) :
    EndsWith (fun limit => (conjunction.seek limit left right).run)
      (conjunction.apply left right) := by
  cases conjunction with
  | pipeline =>
      simp only [seek, apply]
      cases left.noun <;> cases right.monad
      case some.some formula next => exact next.endsWith_seek left
      all_goals cases left.requireMonad <;> cases right.requireMonad
      all_goals exact .of_forall fun _ => rfl

end Applying

namespace Grouper

open Seeking

section Rounds

variable {look : Nat → Look} {grouper : Grouper} {opened : Catalog Expr}
  {memory later : Memory GroupError CategorySet} {reading : Reading}

/-- From a memory on, looking a node up comes to the end that the search of its reading comes to. -/
def Agrees (look : Nat → Look) (grouper : Grouper) (opened : Catalog Expr)
    (memory : Memory GroupError CategorySet) (reading : Reading) : Prop :=
  ∀ later, memory.Grows later → EndsWith (fun limit => (look limit reading.node).outcome later)
    (reading.categories.run (grouper.resolver.answer opened) later)

theorem Agrees.mono (agrees : Agrees look grouper opened memory reading)
    (grows : memory.Grows later) : Agrees look grouper opened later reading :=
  fun evenLater growsOn => agrees evenLater (grows.trans growsOn)

/-- Categories that were found are found again when the node is looked up once more. -/
theorem Agrees.settled (agrees : Agrees look grouper opened memory reading) {offered : CategorySet}
    (ran : reading.categories.run (grouper.resolver.answer opened) memory = (.ok offered, later)) :
    Agrees look grouper opened later (.settled reading.node offered) := by
  intro evenLater grows
  have before := grouper.resolver.run_grows opened reading.categories memory
  rw [ran] at before
  have lookedUp := agrees evenLater (before.trans grows)
  rw [Resolver.run_again ran grows opened] at lookedUp
  exact lookedUp

/-- A node with the categories that were found for it in a round, and the reading it stands for. -/
structure Sees (look : Nat → Look) (grouper : Grouper) (opened : Catalog Expr)
    (memory : Memory GroupError CategorySet) (seen : Node × Option CategorySet)
    (reading : Reading) : Prop where
  node : seen.1 = reading.node
  known : ∀ categories, seen.2 = some categories → reading.categories = pure categories
  agrees : Agrees look grouper opened memory reading

theorem Sees.mono {seen : Node × Option CategorySet}
    (sees : Sees look grouper opened memory seen reading) (grows : memory.Grows later) :
    Sees look grouper opened later seen reading :=
  ⟨sees.node, sees.known, sees.agrees.mono grows⟩

theorem Sees.mirrors {node : Node} {known? : Option CategorySet}
    (sees : Sees look grouper opened memory (node, known?) reading) :
    Mirrors (grouper.resolver.answer opened) (fun _ value other => value = other)
      (fun limit => seekOffered (look limit) node known?) reading.categories memory := by
  refine .of_endsWith ?_
  cases known? with
  | none =>
      have same : node = reading.node := sees.node
      simp only [seekOffered, same]
      exact sees.agrees memory (.refl memory)
  | some known =>
      rw [sees.known known rfl]
      exact .of_forall fun _ => rfl

/-- Readings that stand for nodes. -/
structure StandFor (look : Nat → Look) (grouper : Grouper) (opened : Catalog Expr)
    (memory : Memory GroupError CategorySet) (nodes : List Node) (readings : List Reading) :
    Prop where
  nodes : readings.map Reading.node = nodes
  agree : ∀ reading ∈ readings, Agrees look grouper opened memory reading

theorem standFor_of_sees {seen : List (Node × Option CategorySet)} {readings : List Reading}
    (sees : List.Forall₂ (Sees look grouper opened memory) seen readings) :
    StandFor look grouper opened memory (seen.map Prod.fst) readings := by
  induction sees with
  | nil => exact ⟨rfl, by simp⟩
  | cons here others ih =>
      refine ⟨?_, List.forall_mem_cons.mpr ⟨here.agrees, ih.agree⟩⟩
      rw [List.map_cons, List.map_cons, here.node, ih.nodes]

/-- At the start of a round nothing has been found. -/
theorem StandFor.sees {nodes : List Node} {readings : List Reading}
    (stand : StandFor look grouper opened memory nodes readings) :
    List.Forall₂ (Sees look grouper opened memory) (nodes.map fun node => (node, none))
      readings := by
  rw [← stand.nodes, List.map_map, List.forall₂_map_left_iff, List.forall₂_same]
  exact fun reading member => ⟨rfl, by simp, stand.agree reading member⟩

theorem standFor_succ (look : Nat → Look) :
    StandFor (fun limit => look (limit + 1)) = StandFor look := by
  funext grouper opened memory nodes readings
  refine propext ⟨fun stand => ⟨stand.nodes, ?_⟩, fun stand => ⟨stand.nodes, ?_⟩⟩
  · exact fun reading member later grows => (stand.agree reading member later grows).of_succ
  · exact fun reading member later grows => (stand.agree reading member later grows).succ

/-- Trying a pattern on nodes comes to the end that trying it on their readings comes to. -/
theorem seekFit_mirrors (pattern : List Category) {seen : List (Node × Option CategorySet)}
    {readings : List Reading}
    (sees : List.Forall₂ (Sees look grouper opened memory) seen readings) :
    Mirrors (grouper.resolver.answer opened)
      (fun later found other => found.1 = other.1 ∧ found.2.map Prod.fst = seen.map Prod.fst ∧
        List.Forall₂ (Sees look grouper opened later) found.2 other.2)
      (fun limit => seekFit (look limit) pattern seen) (Reading.fit pattern readings) memory := by
  induction pattern generalizing seen readings memory with
  | nil =>
      simp only [seekFit, Reading.fit]
      exact .pure ⟨rfl, rfl, sees⟩
  | cons category pattern ih =>
      cases sees with
      | nil =>
          simp only [seekFit, Reading.fit]
          exact .pure ⟨rfl, rfl, .nil⟩
      | @cons pair reading seen readings here others =>
          simp only [seekFit, Reading.fit]
          refine here.mirrors.bind fun later offered other ran same => ?_
          subst same
          have grows := grouper.resolver.run_grows opened reading.categories memory
          rw [ran] at grows
          have asked : Sees look grouper opened later (pair.1, some offered)
              (.settled reading.node offered) :=
            ⟨here.node, by rintro _ ⟨⟩; rfl, here.agrees.settled ran⟩
          have onward := others.imp fun _ _ sees => sees.mono grows
          by_cases fits : category ∈ offered
          · simp only [if_pos fits]
            refine (ih onward).bind fun evenLater found more ranOn holds => ?_
            have growsOn := grouper.resolver.run_grows opened (Reading.fit pattern readings) later
            rw [ranOn] at growsOn
            exact .pure ⟨holds.1, congrArg (pair.1 :: ·) holds.2.1,
              .cons (asked.mono growsOn) holds.2.2⟩
          · simp only [if_neg fits]
            exact .pure ⟨rfl, rfl, .cons asked onward⟩

/-- Trying the rules on nodes comes to the end that trying them on their readings comes to. -/
theorem seekRule_mirrors (rules : List Rule) {seen : List (Node × Option CategorySet)}
    {readings : List Reading}
    (sees : List.Forall₂ (Sees look grouper opened memory) seen readings) :
    Mirrors (grouper.resolver.answer opened)
      (fun later rule? other => rule? = other.1 ∧
        StandFor look grouper opened later (seen.map Prod.fst) other.2 ∧
        ∀ rule, rule? = some rule → 2 ≤ rule.pattern.length ∧ rule.pattern.length ≤ seen.length)
      (fun limit => seekRule (look limit) rules seen) (Reading.firstRule rules readings)
      memory := by
  induction rules generalizing seen readings memory with
  | nil =>
      simp only [seekRule, Reading.firstRule]
      exact .pure ⟨rfl, standFor_of_sees sees, by simp⟩
  | cons rule rules ih =>
      simp only [seekRule, Reading.firstRule, ← sees.length_eq]
      by_cases unfit : (rule.pattern.length < 2 || seen.length < rule.pattern.length) = true
      · simp only [if_pos unfit]
        exact ih sees
      · simp only [if_neg unfit]
        refine (seekFit_mirrors rule.pattern sees).bind fun later found other ran holds => ?_
        obtain ⟨fits, seenNow⟩ := found
        obtain ⟨alsoFits, readingsNow⟩ := other
        obtain ⟨same, sameNodes, seesNow⟩ := holds
        simp only at same sameNodes seesNow
        subst same
        cases fits with
        | true =>
            have standNow := standFor_of_sees seesNow
            rw [sameNodes] at standNow
            simp only [Bool.or_eq_true, decide_eq_true_eq, not_or, Nat.not_lt] at unfit
            exact .pure ⟨rfl, standNow, by rintro _ ⟨⟩; exact unfit⟩
        | false =>
            have sameLength : seenNow.length = seen.length := by
              simpa using congrArg List.length sameNodes
            have others := ih seesNow
            rw [sameNodes, sameLength] at others
            exact others

/-- Of fewer than two nodes no rule folds any. -/
theorem seekRule_short (look : Look) (rules : List Rule) {seen : List (Node × Option CategorySet)}
    (short : seen.length < 2) : seekRule look rules seen = pure none := by
  induction rules with
  | nil => rw [seekRule]
  | cons rule rules ih =>
      rw [seekRule, if_pos, ih]
      simp only [Bool.or_eq_true, decide_eq_true_eq]
      omega

end Rounds

section Folding

/-- Looking up finds again what a fold made. -/
def LooksFolded (look : Nat → Look) : Prop :=
  ∀ children categories memory,
    EndsWith (fun limit => (look limit (.group children (some categories))).outcome memory)
      (.ok categories, memory)

variable {look : Nat → Look} {grouper : Grouper} {opened : Catalog Expr}
  {memory : Memory GroupError CategorySet}

theorem StandFor.fold {nodes : List Node} {readings : List Reading}
    (stand : StandFor look grouper opened memory nodes readings) (looksFolded : LooksFolded look)
    (rule : Rule) :
    StandFor look grouper opened memory (rule.foldFront nodes) (Reading.fold rule readings) where
  nodes := by rw [Reading.map_node_fold, stand.nodes]
  agree := by
    rw [Reading.fold, List.splitAt_eq]
    refine List.forall_mem_cons.mpr ⟨fun later _ => looksFolded _ _ later, fun reading inRest => ?_⟩
    exact stand.agree reading (List.mem_of_mem_drop inRest)

/-- Folding nodes comes to the end that folding their readings comes to. -/
theorem seekFolds_mirrors {steps : Nat} {nodes : List Node} {readings : List Reading}
    (looksFolded : LooksFolded look) (enough : nodes.length ≤ steps)
    (stand : StandFor look grouper opened memory nodes readings) :
    Mirrors (grouper.resolver.answer opened) (StandFor look grouper opened)
      (fun limit => seekFolds (look limit) grouper.rules limit nodes)
      (Reading.foldFor grouper.rules steps readings) memory := by
  induction steps generalizing look nodes readings memory with
  | zero =>
      obtain rfl := List.eq_nil_of_length_eq_zero (Nat.le_zero.mp enough)
      refine .of_succ ?_
      simp only [seekFolds, List.map_nil, seekRule_short _ _ (show [].length < 2 by decide)]
      exact .pure stand
  | succ steps ih =>
      -- A round is one step of the loop, so the loop is nearer to its limit than the look-ups.
      refine .of_succ ?_
      rw [← standFor_succ look] at stand ⊢
      simp only [seekFolds, Reading.foldFor]
      refine (seekRule_mirrors grouper.rules stand.sees).bind fun later rule? other ran holds => ?_
      obtain ⟨alsoRule?, readingsNow⟩ := other
      obtain ⟨same, standNow, sized⟩ := holds
      simp only at same
      subst same
      have sameNodes :
          (nodes.map fun node => (node, (none : Option CategorySet))).map Prod.fst = nodes := by
        simp [Function.comp_def]
      rw [sameNodes] at standNow
      cases rule? with
      | none => exact .pure standNow
      | some rule =>
          obtain ⟨two, short⟩ := sized rule rfl
          rw [List.length_map] at short
          have looksToo : LooksFolded fun limit => look (limit + 1) :=
            fun children categories memory => (looksFolded children categories memory).succ
          have folded := standNow.fold looksToo rule
          by_cases single : (rule.foldFront nodes).length = 1
          · simp only [if_pos single]
            have singleToo : (Reading.fold rule readingsNow).length = 1 := by
              rw [← single, ← folded.nodes, List.length_map]
            obtain ⟨reading, only⟩ := List.length_eq_one_iff.mp singleToo
            rw [only, Reading.foldFor_singleton]
            rw [only] at folded
            exact .pure folded
          · simp only [if_neg single]
            refine ih looksToo ?_ folded
            rw [Rule.foldFront, List.length_cons, List.length_drop]
            omega

end Folding

section Nodes

variable {grouper : Grouper} {busy : List String} {opened : Catalog Expr}
  {memory : Memory GroupError CategorySet}

theorem looksFolded_seekCategories :
    LooksFolded fun limit => grouper.seekCategories limit busy :=
  fun _ _ _ => .of_succ (.of_forall fun _ => rfl)

/-- Replacing search texts by their tokens ends, with readings that stand for the tokens. -/
theorem seekExpansion_mirrors {look : Nat → Look} {nodes : List Node}
    (agree : ∀ node ∈ nodes, Agrees look grouper opened memory (grouper.reading node))
    (agreeToken : ∀ token, Agrees look grouper opened memory (grouper.reading (.token token))) :
    Mirrors (grouper.resolver.answer opened) (StandFor look grouper opened)
      (fun limit => Seeking.lift (grouper.lexer.seekExpansion limit nodes))
      (liftM (grouper.readings nodes)) memory := by
  have ends := grouper.lexer.endsWith_seekExpansion nodes
  rw [readings_eq]
  cases expands : grouper.lexer.expand nodes with
  | error error =>
      rw [expands] at ends
      exact .error (endsWith_lift ends memory) rfl
  | ok expanded =>
      rw [expands] at ends
      refine .ok (endsWith_lift ends memory) rfl ⟨?_, ?_⟩
      · simp [Function.comp_def, reading]
      · refine List.forall_mem_map.mpr fun node member => ?_
        obtain inNodes | ⟨token, _, rfl⟩ := Lexer.mem_expand expands node member
        · exact agree node inNodes
        · exact agreeToken token

/-- Reducing nodes and going on comes to the end that folding their readings and going on comes
to. -/
theorem seekRemains_mirrors {look : Nat → Look} (looksFolded : LooksFolded look)
    {nodes : List Node}
    (agree : ∀ node ∈ nodes, Agrees look grouper opened memory (grouper.reading node))
    (agreeToken : ∀ token, Agrees look grouper opened memory (grouper.reading (.token token)))
    {α γ : Type} {after : Memory GroupError CategorySet → α → γ → Prop}
    {next : Nat → List Node → Seeking GroupError CategorySet α}
    {more : List Reading → CategoryInquiry γ}
    (onward : ∀ later reduced folded, StandFor look grouper opened later reduced folded →
      Mirrors (grouper.resolver.answer opened) after (fun limit => next limit reduced)
        (more folded) later) :
    Mirrors (grouper.resolver.answer opened) after
      (fun limit => grouper.seekRemains (look limit) limit nodes >>= next limit)
      (do let readings ← grouper.readings nodes
          let folded ← Reading.foldAll grouper.rules readings
          more folded) memory := by
  simp only [seekRemains, bind_assoc]
  refine (seekExpansion_mirrors agree agreeToken).bind fun later expanded readings _ stand => ?_
  have enough : expanded.length ≤ readings.length := by
    rw [← stand.nodes, List.length_map]
  exact (seekFolds_mirrors looksFolded enough stand).bind
    fun evenLater reduced folded _ standFor => onward evenLater reduced folded standFor

section Named

variable (named : ∀ id memory,
  EndsWith (fun limit => (grouper.resolver.lookUp busy id fun expr =>
    grouper.seekCategories limit (id :: busy) expr.toNode).outcome memory)
    (grouper.resolver.answer opened id memory))

include named

theorem endsWith_seekToken (token : Token) (memory : Memory GroupError CategorySet) :
    EndsWith (fun limit => (grouper.seekCategories limit busy (.token token)).outcome memory)
      ((grouper.tokenCategories token).run (grouper.resolver.answer opened) memory) := by
  refine EndsWith.of_succ ?_
  cases token with
  | reference id =>
      rw [tokenCategories, Inquiry.run_get]
      exact named id memory
  | keyword spelling | number value | identifier name | search text =>
      exact .of_forall fun _ => rfl

/-- Categories of nodes are found as the resolver finds them, if those of names are. -/
theorem endsWith_seekCategories (node : Node) (memory : Memory GroupError CategorySet) :
    EndsWith (fun limit => (grouper.seekCategories limit busy node).outcome memory)
      ((grouper.nodeCategories node).run (grouper.resolver.answer opened) memory) := by
  induction node using Node.nestedInduction generalizing memory with
  | token token =>
      rw [nodeCategories]
      exact endsWith_seekToken named token memory
  | group children categories ih =>
      refine EndsWith.of_succ ?_
      cases categories with
      | some categories => exact .of_forall fun _ => rfl
      | none =>
          simp only [seekCategories, nodeCategories]
          refine (seekRemains_mirrors looksFolded_seekCategories
            (fun child member later _ => ih child member later)
            (fun token later _ => endsWith_seekToken named token later)
            fun later reduced folded standFor => ?_).endsWith
          rw [← standFor.nodes]
          cases folded with
          | nil => exact .pure rfl
          | cons first others =>
              exact .of_endsWith (standFor.agree first List.mem_cons_self later (.refl later))
  | stub categories index => exact .of_succ (.of_forall fun _ => rfl)

/-- Sequences are reduced as the resolver reduces them, if the categories of names are found. -/
theorem endsWith_seekReduction (nodes : List Node) (memory : Memory GroupError CategorySet) :
    EndsWith (fun limit => (grouper.seekReduction limit busy nodes).outcome memory)
      ((grouper.reduction nodes).run (grouper.resolver.answer opened) memory) := by
  have reduced := seekRemains_mirrors looksFolded_seekCategories
    (fun node (_ : node ∈ nodes) later (_ : memory.Grows later) =>
      endsWith_seekCategories named node later)
    (fun token later _ => endsWith_seekToken named token later)
    fun later reduced folded standFor => Mirrors.pure standFor.nodes.symm
  simp only [bind_pure] at reduced
  exact reduced.endsWith

end Named

/-- The categories of names are found as the resolver finds them. -/
theorem endsWith_lookUp_categories (leaves : grouper.resolver.LeavesOpen busy opened) (id : String)
    (memory : Memory GroupError CategorySet) :
    EndsWith (fun limit => (grouper.resolver.lookUp busy id fun expr =>
      grouper.seekCategories limit (id :: busy) expr.toNode).outcome memory)
      (grouper.resolver.answer opened id memory) := by
  have ends := grouper.resolver.endsWith_lookUp_of_work
    (fun limit busy expr => grouper.seekCategories limit busy expr.toNode)
    (fun _ _ named expr => endsWith_seekCategories named expr.toNode) leaves id memory
  exact ends

end Nodes

section ShortRules

theorem firstRule_filter_long (rules : List Rule) (readings : List Reading) :
    Reading.firstRule (rules.filter fun rule => 2 ≤ rule.pattern.length) readings =
      Reading.firstRule rules readings := by
  induction rules generalizing readings with
  | nil => rfl
  | cons rule rules ih =>
      by_cases long : 2 ≤ rule.pattern.length
      · rw [List.filter_cons_of_pos (by simpa using long), Reading.firstRule, Reading.firstRule]
        simp only [ih]
      · have short : rule.pattern.length < 2 := Nat.lt_of_not_le long
        rw [List.filter_cons_of_neg (by simpa using long), ih, Reading.firstRule, if_pos]
        simp [short]

theorem foldFor_filter_long (rules : List Rule) (steps : Nat) (readings : List Reading) :
    Reading.foldFor (rules.filter fun rule => 2 ≤ rule.pattern.length) steps readings =
      Reading.foldFor rules steps readings := by
  induction steps generalizing readings with
  | zero => rfl
  | succ steps ih => simp only [Reading.foldFor, firstRule_filter_long, ih]

/-- The grouper without its rules for fewer than two nodes. -/
def withoutShortRules (grouper : Grouper) : Grouper :=
  { grouper with rules := grouper.rules.filter fun rule => 2 ≤ rule.pattern.length }

theorem nodeCategories_withoutShortRules (grouper : Grouper) (node : Node) :
    grouper.withoutShortRules.nodeCategories node = grouper.nodeCategories node := by
  induction node using Node.nestedInduction with
  | token token => cases token <;> rfl
  | stub categories index => rfl
  | group children known ih =>
      cases known with
      | some categories => rfl
      | none =>
          rw [nodeCategories, nodeCategories, readings_eq_of_nodeCategories_eq ih rfl]
          simp only [withoutShortRules, Reading.foldAll, foldFor_filter_long]

/-- Rules for fewer than two nodes never fold any. -/
theorem run_reduction_withoutShortRules (grouper : Grouper) (nodes : List Node)
    (memory : Memory GroupError CategorySet) :
    grouper.withoutShortRules.run (grouper.withoutShortRules.reduction nodes) memory =
      grouper.run (grouper.reduction nodes) memory := by
  have sameResolver : grouper.withoutShortRules.resolver = grouper.resolver := by
    simp only [resolver, nodeCategories_withoutShortRules]
    rfl
  have sameSearch : grouper.withoutShortRules.reduction nodes = grouper.reduction nodes := by
    rw [reduction, reduction, readings_eq_of_nodeCategories_eq
      (fun node _ => grouper.nodeCategories_withoutShortRules node) rfl]
    simp only [withoutShortRules, Reading.foldAll, foldFor_filter_long]
  rw [run, run, sameResolver, sameSearch]

end ShortRules

end Grouper

namespace Evaluator

open Seeking

variable {evaluator : Evaluator} {busy : List String} {opened : Catalog Expr}

/-- Meanings of expressions are found as the resolver finds them, if those of names are. -/
theorem endsWith_seekMeaning
    (named : ∀ id memory,
      EndsWith (fun limit => (evaluator.resolver.lookUp busy id fun expr =>
        evaluator.seekMeaning limit (id :: busy) expr).outcome memory)
        (evaluator.resolver.answer opened id memory))
    (expr : Expr) (memory : Memory EvalError SymbolSet) :
    EndsWith (fun limit => (evaluator.seekMeaning limit busy expr).outcome memory)
      ((evaluator.meaning expr).run (evaluator.resolver.answer opened) memory) := by
  induction expr using Expr.nestedInduction generalizing memory with
  | keyword spelling | number value | search text | stub categories index =>
      exact .of_succ (.of_forall fun _ => rfl)
  | reference id =>
      refine .of_succ ?_
      rw [meaning, Inquiry.run_get]
      exact named id memory
  | group children categories ih =>
      refine .of_succ ?_
      rcases children with _ | ⟨left, _ | ⟨middle, _ | ⟨right, _ | ⟨extra, others⟩⟩⟩⟩
      case cons.cons.nil =>
          have argumentFound := ih middle (by simp)
          simp only [seekMeaning, meaning]
          refine endsWith_bind (ih left (by simp) memory) fun later operand => ?_
          split
          · exact .of_forall fun _ => rfl
          · refine endsWith_bind (argumentFound later) fun later argument => ?_
            split
            · cases argument.requireAdverb <;> exact .of_forall fun _ => rfl
            · cases operand.requireMonad with
              | error error => exact .of_forall fun _ => rfl
              | ok verb => exact endsWith_lift (verb.endsWith_seek argument) later
      case cons.cons.cons.nil =>
          have leftFound := ih left (by simp)
          have rightFound := ih right (by simp)
          simp only [seekMeaning, meaning]
          refine endsWith_bind (ih middle (by simp) memory) fun later operator => ?_
          rcases operator.dyad with _ | op
          · rcases operator.conjunction with _ | conjunction
            · exact .of_forall fun _ => rfl
            · refine endsWith_bind (leftFound later) fun later x => ?_
              refine endsWith_bind (rightFound later) fun later y => ?_
              exact endsWith_lift (conjunction.endsWith_seek x y) later
          · refine endsWith_bind (leftFound later) fun later x => ?_
            exact endsWith_bind (rightFound later) fun later y => .of_forall fun _ => rfl
      all_goals exact .of_forall fun _ => rfl

/-- Meanings of names are found as the resolver finds them. -/
theorem endsWith_lookUp_meaning (leaves : evaluator.resolver.LeavesOpen busy opened) (id : String)
    (memory : Memory EvalError SymbolSet) :
    EndsWith (fun limit => (evaluator.resolver.lookUp busy id fun expr =>
      evaluator.seekMeaning limit (id :: busy) expr).outcome memory)
      (evaluator.resolver.answer opened id memory) :=
  evaluator.resolver.endsWith_lookUp_of_work evaluator.seekMeaning
    (fun _ _ named => endsWith_seekMeaning named) leaves id memory

end Evaluator

/-- Nothing runs forever.  Every grouper ends the search for the categories of every node and
reduces every sequence, every evaluator ends the search for the meaning of every name, and every
function and conjunction ends on all operands, with the answers that the resolvers give and from
all that may be remembered.  Rules for fewer than two nodes change nothing. -/
theorem unbounded_searches_end (grouper : Grouper) (evaluator : Evaluator) :
    (∀ node memory,
      EndsWith (fun limit => (grouper.seekCategories limit [] node).outcome memory)
        (grouper.run (grouper.nodeCategories node) memory)) ∧
    (∀ nodes memory,
      EndsWith (fun limit => (grouper.seekReduction limit [] nodes).outcome memory)
        (grouper.run (grouper.reduction nodes) memory) ∧
      EndsWith
        (fun limit => (grouper.withoutShortRules.seekReduction limit [] nodes).outcome memory)
        (grouper.run (grouper.reduction nodes) memory)) ∧
    (∀ id memory, EndsWith (fun limit => (evaluator.seekNamed limit id).outcome memory)
      (evaluator.run (.get id) memory)) ∧
    (∀ (verb : Verb) operand,
      EndsWith (fun limit => (verb.seek limit operand).run) (verb.apply operand)) ∧
    ∀ (conjunction : Conjunction) left right,
      EndsWith (fun limit => (conjunction.seek limit left right).run)
        (conjunction.apply left right) := by
  have reduces (grouper : Grouper) (nodes : List Node) (memory : Memory GroupError CategorySet) :
      EndsWith (fun limit => (grouper.seekReduction limit [] nodes).outcome memory)
        (grouper.run (grouper.reduction nodes) memory) :=
    Grouper.endsWith_seekReduction
      (Grouper.endsWith_lookUp_categories Resolver.leavesOpen_nil) nodes memory
  refine ⟨?_, fun nodes memory => ⟨reduces grouper nodes memory, ?_⟩, fun id memory => ?_,
    Verb.endsWith_seek, Conjunction.endsWith_seek⟩
  · exact Grouper.endsWith_seekCategories
      (Grouper.endsWith_lookUp_categories Resolver.leavesOpen_nil)
  · rw [← grouper.run_reduction_withoutShortRules]
    exact reduces grouper.withoutShortRules nodes memory
  · rw [Evaluator.run, Resolver.run, Inquiry.run_get]
    exact Evaluator.endsWith_lookUp_meaning Resolver.leavesOpen_nil id memory

end Tacit
