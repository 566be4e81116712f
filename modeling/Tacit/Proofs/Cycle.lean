import Tacit.Proofs.Failure
import Tacit.Proofs.Language
import Tacit.Proofs.Reachability
import Tacit.Proofs.Session

/-!
# Cycles are genuine

A search fails with a cycle when it asks for a name whose answer is being worked out.  The failure
is remembered for all names on the way, and comes up again wherever one of them is needed.  Even so
the name that it carries tells the truth: it has an item, it is reached from what was asked, and it
leads back to itself.  The reason is that whatever is being worked on leads to the name that is
asked next.
-/

namespace Tacit

namespace Resolver

/-- A failure that is no cycle. -/
def NoCycle {ι ε β : Type} (resolver : Resolver ι ε β) (error : ε) : Prop :=
  ∀ name, error ≠ resolver.cycle name

/-- If a failure is a cycle, then the name that it carries has an item, is reached from one of the
names asked, and leads back to itself. -/
def Genuine {ι ε β : Type} (resolver : Resolver ι ε β) (refers : String → String → Prop)
    (asked : String → Prop) (error : ε) : Prop :=
  ∀ name, error = resolver.cycle name →
    resolver.items.contains name = true ∧
      (∃ start, asked start ∧ Relation.ReflTransGen refers start name) ∧
      Relation.TransGen refers name name

/-- All that is remembered is of a kind, or a failure that is genuine for its name. -/
def Traced {ι ε β : Type} (resolver : Resolver ι ε β) (refers : String → String → Prop)
    (given : β → Prop) (memory : Memory ε β) : Prop :=
  ∀ id result, memory.get? id = some result →
    Ends (resolver.Genuine refers (· = id)) given result

/-- A search asks only such names, finds only such results, and ends in a cycle only if one of the
names does. -/
structure Tracks {ι ε β α : Type} (resolver : Resolver ι ε β) (given : β → Prop)
    (asked : String → Prop) (claim : α → Prop) (search : Inquiry ε β α) : Prop where
  asks : search.AsksOnly asked
  ends : search.AlwaysEnds given resolver.NoCycle claim

/-- The searches of items ask only names that the items refer to and end in no cycle of their
own. -/
structure Referring {ι ε β : Type} (resolver : Resolver ι ε β)
    (refers : String → String → Prop) (given : β → Prop) : Prop where
  items : ∀ id item, resolver.items.get? id = some item →
    resolver.Tracks given (refers id) given (resolver.inquiry item)
  cycle_inj : ∀ first second, resolver.cycle first = resolver.cycle second → first = second
  unknown : ∀ id, resolver.NoCycle (resolver.unknown id)

/-- Open items are items, and all others lead to the name that is asked. -/
structure LeadsTo {ι ε β : Type} (resolver : Resolver ι ε β) (refers : String → String → Prop)
    (opened : Catalog ι) (id : String) : Prop where
  known : ∀ name item, opened.get? name = some item → resolver.items.get? name = some item
  path : ∀ name, resolver.items.contains name = true → opened.get? name = none →
    Relation.TransGen refers name id

variable {ι ε β α : Type} {resolver : Resolver ι ε β} {refers : String → String → Prop}
  {given : β → Prop} {asked : String → Prop} {claim : α → Prop} {search : Inquiry ε β α}
  {opened : Catalog ι} {memory : Memory ε β} {id name : String} {item : ι} {error : ε}

theorem NoCycle.genuine (noCycle : resolver.NoCycle error) :
    resolver.Genuine refers asked error :=
  fun name isCycle => absurd isCycle (noCycle name)

theorem Genuine.of_asked (genuine : resolver.Genuine refers (· = id) error) (member : asked id) :
    resolver.Genuine refers asked error := by
  intro name isCycle
  obtain ⟨contained, ⟨_, rfl, reaches⟩, round⟩ := genuine name isCycle
  exact ⟨contained, ⟨_, member, reaches⟩, round⟩

/-- What is genuine for the names that an item refers to is genuine for its own name. -/
theorem Genuine.of_refers (genuine : resolver.Genuine refers (refers id) error) :
    resolver.Genuine refers (· = id) error := by
  intro name isCycle
  obtain ⟨contained, ⟨start, step, reaches⟩, round⟩ := genuine name isCycle
  exact ⟨contained, ⟨id, rfl, .head step reaches⟩, round⟩

theorem traced_empty : resolver.Traced refers given ∅ := by
  intro id result known
  simp at known

theorem Traced.insert (traced : resolver.Traced refers given memory) {result : Except ε β}
    (ends : Ends (resolver.Genuine refers (· = id)) given result) :
    resolver.Traced refers given (memory.insert id result) :=
  Catalog.forall_get?_insert traced ends

theorem leadsTo_items (id : String) : resolver.LeadsTo refers resolver.items id where
  known _ _ found := found
  path name contained absent := by
    obtain ⟨item, found⟩ := Catalog.contains_iff.mp contained
    rw [found] at absent
    contradiction

/-- When work on a name begins, it and all that led to it lead to every name it refers to. -/
theorem LeadsTo.begun (leads : resolver.LeadsTo refers opened id) (step : refers id name) :
    resolver.LeadsTo refers (opened.erase id) name where
  known other item still := leads.known other item (Catalog.get?_of_get?_erase still)
  path other contained absent := by
    by_cases same : other = id
    · rw [same]
      exact .single step
    · rw [Catalog.get?_erase_of_ne opened same] at absent
      exact (leads.path other contained absent).tail step

/-- A run of a search ends in a genuine cycle if at all, as long as the answers to names do. -/
theorem Tracks.run (tracks : resolver.Tracks given asked claim search)
    (answering : ∀ id memory, asked id → resolver.Traced refers given memory →
      Ends (resolver.Genuine refers (· = id)) given (resolver.answer opened id memory).1 ∧
        resolver.Traced refers given (resolver.answer opened id memory).2)
    (traced : resolver.Traced refers given memory) :
    Ends (resolver.Genuine refers asked) claim (search.run (resolver.answer opened) memory).1 ∧
      resolver.Traced refers given (search.run (resolver.answer opened) memory).2 := by
  obtain ⟨asks, ends⟩ := tracks
  induction search generalizing memory with
  | done result => exact ⟨Ends.weaken ends fun _ => NoCycle.genuine, traced⟩
  | ask id next ih =>
      obtain ⟨here, later⟩ := answering id memory asks.1 traced
      rcases answered : resolver.answer opened id memory with ⟨error | value, remembered⟩
      · rw [answered] at here later
        simp only [Inquiry.run, answered]
        exact ⟨Genuine.of_asked here asks.1, later⟩
      · rw [answered] at here later
        simp only [Inquiry.run, answered]
        exact ih value later (asks.2 value trivial) (ends value here)

/-- Answering a name ends in a genuine cycle if at all, whatever is being worked on. -/
theorem Referring.answer (referring : resolver.Referring refers given)
    (leads : resolver.LeadsTo refers opened id) (traced : resolver.Traced refers given memory) :
    Ends (resolver.Genuine refers (· = id)) given (resolver.answer opened id memory).1 ∧
      resolver.Traced refers given (resolver.answer opened id memory).2 := by
  -- One item less is open inside the search of an item.
  induction size : opened.size using Nat.strongRecOn generalizing opened id memory with
  | ind bound ih =>
      rw [Resolver.answer]
      split
      next known remembered => exact ⟨traced id known remembered, traced⟩
      next unknown =>
        split
        next item found =>
          have smaller : (opened.erase id).size < bound := size ▸ Catalog.size_erase_lt found
          have tracks := referring.items id item (leads.known id item found)
          obtain ⟨ends, later⟩ := tracks.run
            (fun name store step trusted => ih _ smaller (leads.begun step) trusted rfl) traced
          have named := ends.weaken fun _ => Genuine.of_refers
          exact ⟨named, later.insert named⟩
        next closed =>
          refine ⟨?_, traced⟩
          by_cases contained : resolver.items.contains id = true
          · rw [if_pos contained]
            intro name isCycle
            cases referring.cycle_inj id name isCycle
            -- The name is itself being worked on, so it leads to the name asked: to itself.
            exact ⟨contained, ⟨id, rfl, .refl⟩, leads.path id contained closed⟩
          · rw [if_neg contained]
            exact (referring.unknown id).genuine

theorem Referring.run (referring : resolver.Referring refers given)
    (tracks : resolver.Tracks given asked claim search)
    (traced : resolver.Traced refers given memory) :
    Ends (resolver.Genuine refers asked) claim (resolver.run search memory).1 ∧
      resolver.Traced refers given (resolver.run search memory).2 :=
  tracks.run (fun id _ _ => referring.answer (leadsTo_items id)) traced

/-- A memory stays traced through searches one after another. -/
theorem Traced.foldl_run {κ : Type} {Answer : κ → Type}
    (referring : resolver.Referring refers given)
    {search : (query : κ) → Inquiry ε β (Answer query)} {asked : κ → String → Prop}
    {claim : (query : κ) → Answer query → Prop}
    (tracks : ∀ query, resolver.Tracks given (asked query) (claim query) (search query))
    (queries : List κ) (traced : resolver.Traced refers given memory) :
    resolver.Traced refers given
      (queries.foldl (fun memory query => (resolver.run (search query) memory).2) memory) := by
  induction queries generalizing memory with
  | nil => exact traced
  | cons query later ih => exact ih (referring.run (tracks query) traced).2

/-- After any searches, the next one ends in a genuine cycle if at all. -/
theorem Referring.run_after {κ : Type} {Answer : κ → Type}
    (referring : resolver.Referring refers given)
    {search : (query : κ) → Inquiry ε β (Answer query)} {asked : κ → String → Prop}
    {claim : (query : κ) → Answer query → Prop}
    (tracks : ∀ query, resolver.Tracks given (asked query) (claim query) (search query))
    (earlier : List κ) (query : κ) :
    Ends (resolver.Genuine refers (asked query)) (claim query)
      (resolver.run (search query)
        (earlier.foldl (fun memory query => (resolver.run (search query) memory).2) ∅)).1 :=
  (referring.run (tracks query) (traced_empty.foldl_run referring tracks earlier)).1

end Resolver

/-- A name that has an expression, is reached from one of the starting names, and comes back to
itself. -/
structure Graph.CycleFrom (graph : Graph) (starts : String → Prop) (name : String) : Prop where
  contained : graph.contains name = true
  reached : ∃ start, starts start ∧ graph.Reaches start name
  returns : Relation.TransGen graph.Refers name name

namespace Evaluator

variable (evaluator : Evaluator)

theorem noCycle_missing (set : SymbolSet) (expected : List Category) :
    evaluator.resolver.NoCycle (set.missing expected) := by
  intro name isCycle
  rw [SymbolSet.missing] at isCycle
  split at isCycle
  next => cases isCycle
  next => cases isCycle

/-- The search for a meaning ends in no cycle of its own, and finds no function that could. -/
theorem meaning_failsOnly_noCycle (expr : Expr) :
    evaluator.FailsOnly evaluator.resolver.NoCycle expr := by
  induction expr using Expr.nestedInduction with
  | keyword spelling => exact evaluator.table.symbols_admits spelling
  | number value => exact SymbolSet.admits_noun _
  | reference id => exact Inquiry.alwaysEnds_get id
  | search _ | stub _ _ =>
      intro name isCycle
      cases isCycle
  | group children categories ih =>
      have missing := evaluator.noCycle_missing
      have malformed : ∀ count, evaluator.resolver.NoCycle (.malformed count) := by
        intro count name isCycle
        cases isCycle
      rcases children with _ | ⟨left, _ | ⟨middle, _ | ⟨right, _ | ⟨more, rest⟩⟩⟩⟩
      · exact malformed 0
      · exact malformed 1
      · exact failsOnly_pair missing categories (ih left (by simp)) (ih middle (by simp))
      · exact failsOnly_triple missing categories (ih left (by simp)) (ih middle (by simp))
          (ih right (by simp))
      · exact malformed _

/-- Evaluation asks along the references of the graph. -/
theorem referring :
    evaluator.resolver.Referring evaluator.graph.Refers
      (SymbolSet.Admits evaluator.resolver.NoCycle) where
  items id expr found :=
    ⟨(evaluator.meaning_asks expr).allow fun _ mentions => ⟨expr, found, mentions⟩,
      evaluator.meaning_failsOnly_noCycle expr⟩
  cycle_inj _ _ same := EvalError.cycle.inj same
  unknown _ _ isCycle := by cases isCycle

/-- The names that a query starts from. -/
def Query.Mentions : Query → String → Prop
  | .name id => fun start => start = id
  | .expression expr => expr.Mentions

theorem search_tracks (query : Query) :
    evaluator.resolver.Tracks (SymbolSet.Admits evaluator.resolver.NoCycle) query.Mentions
      (SymbolSet.Admits evaluator.resolver.NoCycle) (evaluator.search query) := by
  cases query with
  | name id => exact ⟨Inquiry.always_get rfl fun _ _ => trivial, Inquiry.alwaysEnds_get id⟩
  | expression expr =>
      exact ⟨evaluator.meaning_asks expr, evaluator.meaning_failsOnly_noCycle expr⟩

/-- Whatever an evaluator was asked before, a cycle that it answers with is there. -/
theorem cycleFrom_of_answerAfter {earlier : List Query} {query : Query} {name : String}
    (failed : evaluator.answerAfter earlier query = .error (.cycle name)) :
    evaluator.graph.CycleFrom query.Mentions name := by
  have ends := evaluator.referring.run_after evaluator.search_tracks earlier query
  change Ends _ _ (evaluator.answerAfter earlier query) at ends
  rw [failed] at ends
  obtain ⟨contained, reached, returns⟩ := ends name rfl
  exact ⟨contained, reached, returns⟩

end Evaluator

namespace Reading

variable {admitted : GroupError → Prop}

/-- The search for the categories of a reading fails only as admitted. -/
abbrev FailsOnly (admitted : GroupError → Prop) (reading : Reading) : Prop :=
  reading.categories.AlwaysEnds (fun _ => True) admitted fun _ => True

theorem fit_ends (pattern : List Category) {readings : List Reading}
    (each : ∀ reading ∈ readings, reading.FailsOnly admitted) :
    (fit pattern readings).AlwaysEnds (fun _ => True) admitted
      fun found => ∀ reading ∈ found.2, reading.FailsOnly admitted := by
  induction pattern generalizing readings with
  | nil => exact each
  | cons category pattern ih =>
      cases readings with
      | nil => exact each
      | cons reading readings =>
          obtain ⟨first, others⟩ := List.forall_mem_cons.mp each
          refine Inquiry.AlwaysEnds.bind first fun offered _ => ?_
          split
          next =>
            refine (ih others).bind fun found afterEnd => ?_
            exact List.forall_mem_cons.mpr ⟨trivial, afterEnd⟩
          next => exact List.forall_mem_cons.mpr ⟨trivial, others⟩

theorem firstRule_ends (rules : List Rule) {readings : List Reading}
    (each : ∀ reading ∈ readings, reading.FailsOnly admitted) :
    (firstRule rules readings).AlwaysEnds (fun _ => True) admitted
      fun found => ∀ reading ∈ found.2, reading.FailsOnly admitted := by
  induction rules generalizing readings with
  | nil => exact each
  | cons rule rules ih =>
      rw [firstRule]
      split
      next => exact ih each
      next =>
        refine (fit_ends rule.pattern each).bind ?_
        rintro ⟨fits, after⟩ afterEnd
        cases fits with
        | true => exact afterEnd
        | false => exact ih afterEnd

/-- Folding fails only as the searches for categories do. -/
theorem foldFor_ends (rules : List Rule) (steps : Nat) {readings : List Reading}
    (each : ∀ reading ∈ readings, reading.FailsOnly admitted) :
    (foldFor rules steps readings).AlwaysEnds (fun _ => True) admitted
      fun after => ∀ reading ∈ after, reading.FailsOnly admitted := by
  induction steps generalizing readings with
  | zero => exact each
  | succ steps ih =>
      refine (firstRule_ends rules each).bind ?_
      rintro ⟨rule?, after⟩ afterEnd
      cases rule? with
      | none => exact afterEnd
      | some rule =>
          refine ih fun reading member => ?_
          rw [fold, List.splitAt_eq] at member
          obtain rfl | inRest := List.mem_cons.mp member
          · exact trivial
          · exact afterEnd reading (List.mem_of_mem_drop inRest)

end Reading

theorem Lexer.expand_ends {admitted : GroupError → Prop} (lex : ∀ error, admitted (.lex error))
    (lexer : Lexer) (nodes : List Node) :
    Ends admitted (fun _ => True) (lexer.expand nodes) := by
  fun_induction Lexer.expand lexer nodes with
  | case1 => exact trivial
  | case2 text rest ih => exact (ends_mapError lex _).bind fun _ _ => ih.bind fun _ _ => trivial
  | case3 first rest plain ih => exact ih.bind fun _ _ => trivial

namespace Grouper

variable {admitted : GroupError → Prop} (lex : ∀ error, admitted (.lex error)) (grouper : Grouper)

theorem tokenCategories_failsOnly (token : Token) :
    (grouper.reading (.token token)).FailsOnly admitted := by
  cases token with
  | reference id => exact Inquiry.alwaysEnds_get id
  | keyword _ | number _ | identifier _ | search _ => exact trivial

include lex

theorem readings_end {nodes : List Node}
    (each : ∀ node ∈ nodes, (grouper.reading node).FailsOnly admitted) :
    Ends admitted (fun readings => ∀ reading ∈ readings, reading.FailsOnly admitted)
      (grouper.readings nodes) := by
  have ends := Lexer.expand_ends lex grouper.lexer nodes
  rw [readings_eq]
  cases expands : grouper.lexer.expand nodes with
  | error error =>
      rw [expands] at ends
      exact ends
  | ok expanded =>
      intro reading member
      obtain ⟨node, inExpanded, rfl⟩ := List.mem_map.mp member
      obtain inNodes | ⟨token, _, rfl⟩ := Lexer.mem_expand expands node inExpanded
      · exact each node inNodes
      · exact grouper.tokenCategories_failsOnly token

/-- The search for the categories of a node fails only where a search text cannot be read. -/
theorem nodeCategories_failsOnly (node : Node) : (grouper.reading node).FailsOnly admitted := by
  induction node using Node.nestedInduction with
  | token token => exact grouper.tokenCategories_failsOnly token
  | stub categories index => exact trivial
  | group children known ih =>
      cases known with
      | some categories => exact trivial
      | none =>
          rw [Reading.FailsOnly, reading, nodeCategories]
          refine Inquiry.alwaysEnds_lift_bind (grouper.readings_end lex ih) fun readings each => ?_
          refine (Reading.foldFor_ends grouper.rules _ each).bind fun folded allEnd => ?_
          cases folded with
          | nil => exact trivial
          | cons first rest => exact allEnd first List.mem_cons_self

theorem reduction_ends (nodes : List Node) :
    (grouper.reduction nodes).AlwaysEnds (fun _ => True) admitted fun _ => True := by
  have each : ∀ node ∈ nodes, (grouper.reading node).FailsOnly admitted :=
    fun node _ => grouper.nodeCategories_failsOnly lex node
  refine Inquiry.alwaysEnds_lift_bind (grouper.readings_end lex each) fun readings allEnd => ?_
  exact (Reading.foldFor_ends grouper.rules _ allEnd).bind fun _ _ => trivial

omit lex

theorem noCycle_lex (error : LexError) : grouper.resolver.NoCycle (.lex error) := by
  intro name isCycle
  cases isCycle

theorem theOne_ends (nodes : List Node) :
    Ends grouper.resolver.NoCycle (fun _ => True) (theOne nodes) := by
  rw [theOne.eq_def]
  split
  next =>
    intro name isCycle
    cases isCycle
  next => exact trivial
  next =>
    intro name isCycle
    cases isCycle

/-- Grouping asks along the references of the graph. -/
theorem referring :
    grouper.resolver.Referring grouper.graph.Refers fun _ => True where
  items id expr found :=
    ⟨(grouper.nodeCategories_asks expr.toNode).allow fun name mentions =>
        ⟨expr, found, (expr.mentions_toNode name).mp mentions⟩,
      grouper.nodeCategories_failsOnly grouper.noCycle_lex expr.toNode⟩
  cycle_inj _ _ same := GroupError.cycle.inj same
  unknown _ _ isCycle := by cases isCycle

/-- The names that a query starts from. -/
def Query.Mentions : Query → String → Prop
  | .reduction nodes | .reductionToOne nodes => fun start => ∃ node ∈ nodes, node.Mentions start
  | .categories node => node.Mentions

theorem search_tracks (query : Query) :
    grouper.resolver.Tracks (fun _ => True) query.Mentions (fun _ => True)
      (grouper.search query) := by
  cases query with
  | reduction nodes =>
      exact ⟨grouper.reduction_asks fun node member _ mentions => ⟨node, member, mentions⟩,
        grouper.reduction_ends grouper.noCycle_lex nodes⟩
  | reductionToOne nodes =>
      refine ⟨grouper.reductionToOne_asks fun node member _ mentions =>
        ⟨node, member, mentions⟩, ?_⟩
      exact (grouper.reduction_ends grouper.noCycle_lex nodes).bind fun reduced _ =>
        grouper.theOne_ends reduced
  | categories node =>
      exact ⟨grouper.nodeCategories_asks node,
        grouper.nodeCategories_failsOnly grouper.noCycle_lex node⟩

/-- Whatever a grouper was asked before, a cycle that it answers with is there. -/
theorem cycleFrom_of_answerAfter {earlier : List Query} {query : Query} {name : String}
    (failed : grouper.answerAfter earlier query = .error (.cycle name)) :
    grouper.graph.CycleFrom query.Mentions name := by
  have ends := grouper.referring.run_after grouper.search_tracks earlier query
  change Ends _ _ (grouper.answerAfter earlier query) at ends
  rw [failed] at ends
  obtain ⟨contained, reached, returns⟩ := ends name rfl
  exact ⟨contained, reached, returns⟩

end Grouper

namespace Graph

/-- Where evaluation or grouping over a graph fails with a cycle, there is one.  Whatever was asked
before, the name that the failure carries has an expression, is reached from a name that the
present query starts from, and comes back to itself.  So a graph in which no name comes back to
itself never gives such a failure. -/
theorem cycle_failures_genuine (graph : Graph) :
    (∀ table earlier (query : Evaluator.Query) name,
      (Evaluator.mk table graph).answerAfter earlier query = .error (.cycle name) →
        graph.CycleFrom query.Mentions name) ∧
    (∀ lexer rules earlier (query : Grouper.Query) name,
      (Grouper.mk lexer rules graph).answerAfter earlier query = .error (.cycle name) →
        graph.CycleFrom query.Mentions name) ∧
    ((∀ name, ¬ Relation.TransGen graph.Refers name name) →
      (∀ table earlier query name,
        (Evaluator.mk table graph).answerAfter earlier query ≠ .error (.cycle name)) ∧
      ∀ lexer rules earlier query name,
        (Grouper.mk lexer rules graph).answerAfter earlier query ≠ .error (.cycle name)) := by
  refine ⟨fun table _ _ _ failed => (Evaluator.mk table graph).cycleFrom_of_answerAfter failed,
    fun lexer rules _ _ _ failed =>
      (Grouper.mk lexer rules graph).cycleFrom_of_answerAfter failed,
    fun acyclic => ⟨?_, ?_⟩⟩
  · intro table earlier query name failed
    exact acyclic name ((Evaluator.mk table graph).cycleFrom_of_answerAfter failed).returns
  · intro lexer rules earlier query name failed
    exact acyclic name ((Grouper.mk lexer rules graph).cycleFrom_of_answerAfter failed).returns

/-- Two names that name each other, and a third that names one of them. -/
def roundTrip : Graph := .ofList
  [("a", .reference "b"), ("b", .reference "a"), ("c", .reference "a")]

/-- A name that names another, which has no expression. -/
def oneWay : Graph := .ofList [("a", .reference "b")]

theorem oneWay_acyclic (name : String) : ¬ Relation.TransGen oneWay.Refers name name := by
  have only : ∀ source target, oneWay.Refers source target → source = "a" ∧ target = "b" := by
    rintro source target ⟨expr, found, mentions⟩
    have member : (source, expr) ∈ [("a", Expr.reference "b")] := Catalog.get?_eq_some_iff.mp found
    obtain ⟨rfl, rfl⟩ := Prod.mk.inj (List.mem_singleton.mp member)
    cases List.mem_singleton.mp mentions
    exact ⟨rfl, rfl⟩
  intro round
  obtain ⟨next, step, _⟩ := Relation.TransGen.head'_iff.mp round
  obtain ⟨previous, _, back⟩ := Relation.TransGen.tail'_iff.mp round
  exact absurd ((only name next step).1.symm.trans (only previous name back).2) (by decide)

/-- The failure that was remembered for `a` when `b` was asked comes up again for `c`, and the name
in it is reached from `c` and comes back to itself.  Where a name is only missing there is no
cycle. -/
theorem roundTrip_genuine :
    (Evaluator.mk .standard roundTrip).answerAfter [.name "b"] (.name "c") =
        .error (.cycle "b") ∧
      roundTrip.CycleFrom (Evaluator.Query.name "c").Mentions "b" ∧
      (Grouper.mk Language.standard.lexer Rule.standard roundTrip).answerAfter
          [.categories (.token (.reference "b"))]
          (.reduction [.token (.reference "c"), .token (.keyword "+"), .token (.number 1)]) =
        .error (.cycle "b") ∧
      roundTrip.CycleFrom (Grouper.Query.reduction
        [.token (.reference "c"), .token (.keyword "+"), .token (.number 1)]).Mentions "b" ∧
      (∀ name, ¬ Relation.TransGen oneWay.Refers name name) ∧
      (Evaluator.mk .standard oneWay).answerAfter [] (.name "a") ≠ .error (.cycle "b") := by
  have evaluated : (Evaluator.mk .standard roundTrip).answerAfter [.name "b"] (.name "c") =
      .error (.cycle "b") := by decide +kernel
  have grouped : (Grouper.mk Language.standard.lexer Rule.standard roundTrip).answerAfter
      [.categories (.token (.reference "b"))]
      (.reduction [.token (.reference "c"), .token (.keyword "+"), .token (.number 1)]) =
      .error (.cycle "b") := by decide +kernel
  obtain ⟨evaluation, grouping, _⟩ := cycle_failures_genuine roundTrip
  have never := ((cycle_failures_genuine oneWay).2.2 oneWay_acyclic).1
  exact ⟨evaluated, evaluation _ _ _ _ evaluated, grouped, grouping _ _ _ _ _ grouped,
    oneWay_acyclic, never _ _ _ _⟩

end Graph

end Tacit
