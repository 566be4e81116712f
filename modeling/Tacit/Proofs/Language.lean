import Tacit.Language
import Tacit.Proofs.Grouping
import Tacit.Proofs.Interpretation

/-!
# What becomes of each source

Sources are staged, grouped and interpreted one after another with shared memories.  What becomes
of one source is nevertheless a matter of its own tokens and of what the names in it stand for.
-/

namespace Tacit

namespace Draft

variable {α : Type}

/-- What a draft holds of a name. -/
def entry (draft : Draft α) (id : String) : Option α × Entry :=
  (draft.made.get? id, draft.failed.entry id)

/-- What a draft holds of a name with this result. -/
def entryOf : Except Error α → Option α × Entry
  | .ok made => (some made, Entry.nothing)
  | .error error => (none, (Outcome.failed error).entry)

theorem entry_record_of_ne (draft : Draft α) {id read : String} (result : Except Error α)
    (different : read ≠ id) : (draft.record id result).entry read = draft.entry read := by
  cases result with
  | ok made => simp [entry, record, Catalog.get?_insert_of_ne _ _ different]
  | error error => simp [entry, record, Interpretation.entry_recordFailure_of_ne _ _ different]

theorem entry_record_self {draft : Draft α} {id : String} (result : Except Error α)
    (fresh : draft.entry id = (none, Entry.nothing)) :
    (draft.record id result).entry id = entryOf result := by
  obtain ⟨notMade, silent⟩ := Prod.mk.inj fresh
  cases result with
  | ok made => simp [entry, record, entryOf, silent]
  | error error =>
      simp [entry, record, entryOf, notMade, Interpretation.entry_recordFailure_self error silent]

end Draft

namespace Language

variable {language : Language} {sources : Catalog String}

section Staging

variable {isKnown : String → Bool} {source : String} {children : List Expr}

theorem toNodes_of_mapM_expression {tokens : List Token}
    (made : (tokens.mapM fun token => expression (.token token)) = .ok children) :
    Expr.toNodes children = tokens.map .token := by
  induction tokens generalizing children with
  | nil =>
      cases made
      rfl
  | cons token rest ih =>
      rw [List.mapM_cons] at made
      obtain ⟨first, firstMade, more⟩ := bind_eq_ok_iff.mp made
      obtain ⟨others, othersMade, all⟩ := bind_eq_ok_iff.mp more
      cases all
      rw [Expr.toNodes, ih othersMade,
        Expr.toNode_of_ofNode (mapError_eq_ok_iff.mp firstMade), List.map_cons]

theorem linkedTokens_of_stage (staged : language.stage isKnown source = .ok children) :
    ∃ tokens, language.linkedTokens isKnown source = .ok tokens ∧
      Expr.toNodes children = tokens.map .token := by
  obtain ⟨tokens, linked, made⟩ := bind_eq_ok_iff.mp staged
  exact ⟨tokens, linked, toNodes_of_mapM_expression made⟩

/-- The parts of a source are its linked tokens. -/
theorem toNodes_of_stage (staged : language.stage isKnown source = .ok children) :
    ∃ tokens, language.lexer.tokens source = .ok tokens ∧
      Expr.toNodes children = tokens.map fun token => .token (token.link isKnown) := by
  obtain ⟨linked, linkedTokens, parts⟩ := linkedTokens_of_stage staged
  rw [Language.linkedTokens] at linkedTokens
  split at linkedTokens
  next tokens lexed =>
    cases linkedTokens
    refine ⟨tokens, lexed, ?_⟩
    rw [parts, List.map_map]
    rfl
  next => contradiction

theorem isKnown_of_mentions_link {token : Token} {id : String}
    (spelled : token.isSpelled = true)
    (mentions : (Node.token (token.link isKnown)).Mentions id) : isKnown id = true := by
  cases token with
  | keyword _ | number _ => simp [Node.Mentions, Token.link] at mentions
  | reference _ | search _ => contradiction
  | identifier name =>
      rw [Node.Mentions, Token.link] at mentions
      split at mentions
      next known =>
        simp at mentions
        rwa [mentions]
      next => simp at mentions

/-- The parts of a source mention known names only. -/
theorem isKnown_of_stage (staged : language.stage isKnown source = .ok children) :
    ∀ node ∈ Expr.toNodes children, ∀ id, node.Mentions id → isKnown id = true := by
  obtain ⟨tokens, lexed, same⟩ := toNodes_of_stage staged
  rw [same]
  intro node member id mentions
  obtain ⟨token, inTokens, rfl⟩ := List.mem_map.mp member
  exact isKnown_of_mentions_link (Lexer.isSpelled_of_mem_tokens lexed token inTokens) mentions

theorem link_ne_search {token : Token} (spelled : token.isSpelled = true) (text : String) :
    token.link isKnown ≠ .search text := by
  cases token with
  | keyword _ | number _ => simp [Token.link]
  | reference _ | search _ => contradiction
  | identifier name =>
      rw [Token.link]
      split <;> simp

/-- The parts of a source hold no search text. -/
theorem expand_of_stage (staged : language.stage isKnown source = .ok children) :
    language.lexer.expand (Expr.toNodes children) = .ok (Expr.toNodes children) := by
  obtain ⟨tokens, lexed, same⟩ := toNodes_of_stage staged
  refine Lexer.expand_eq_self fun text member => ?_
  rw [same] at member
  obtain ⟨token, inTokens, linked⟩ := List.mem_map.mp member
  exact link_ne_search (Lexer.isSpelled_of_mem_tokens lexed token inTokens) text
    (Node.token.inj linked)

/-- A source is staged alike wherever the identifiers in it are known alike. -/
theorem stage_congr {other : String → Bool}
    (agree : ∀ tokens name, language.lexer.tokens source = .ok tokens →
      .identifier name ∈ tokens → isKnown name = other name) :
    language.stage isKnown source = language.stage other source := by
  have sameTokens :
      language.linkedTokens isKnown source = language.linkedTokens other source := by
    rw [linkedTokens, linkedTokens]
    split
    next tokens lexed =>
      refine congrArg Except.ok (List.map_congr_left fun token member => ?_)
      cases token with
      | identifier name => rw [Token.link, Token.link, agree tokens name lexed member]
      | keyword _ | number _ | reference _ | search _ => rfl
    next => rfl
  rw [stage, stage, sameTokens]

/-- The draft of all sources holds of each what it was staged to. -/
theorem stageAll_entry (language : Language) {id : String}
    (found : sources.get? id = some source) :
    (language.stageAll sources).entry id =
      Draft.entryOf (language.stage sources.contains source) := by
  obtain ⟨before, _, fresh, final⟩ := Catalog.foldl_view_of_mem Prod.fst
    (fun draft : Draft (List Expr) => draft.entry id)
    (fun draft entry => draft.record entry.1 (language.stage sources.contains entry.2))
    (fun _ => True)
    (fun draft entry different => draft.entry_record_of_ne _ different.symm)
    (fun _ _ _ => trivial) sources.names_nodup (Catalog.get?_eq_some_iff.mp found) rfl
    {} trivial
  exact final.trans (Draft.entry_record_self _ fresh)

theorem stageAll_entry_of_absent (language : Language) {id : String}
    (absent : sources.get? id = none) :
    (language.stageAll sources).entry id = (none, Entry.nothing) := by
  refine Catalog.foldl_view_of_not_mem Prod.fst
    (fun draft : Draft (List Expr) => draft.entry id) _
    (fun draft entry different => draft.entry_record_of_ne _ different.symm) ?_ _
  rintro ⟨name, other⟩ member rfl
  rw [Catalog.get?_eq_some_iff.mpr member] at absent
  contradiction

end Staging

section Grouping

/-- Grouping over the parts of all sources. -/
abbrev stagedGrouper (language : Language) (sources : Catalog String) : Grouper :=
  language.grouper (language.stagedGraph sources)

theorem stagedGraph_get? (language : Language) {id source : String}
    (found : sources.get? id = some source) :
    (language.stagedGraph sources).get? id =
      (language.stage sources.contains source).toOption.map fun children =>
        .group children none := by
  have made := congrArg Prod.fst (language.stageAll_entry found)
  rw [stagedGraph, Catalog.get?_map]
  refine congrArg (Option.map _) (made.trans ?_)
  cases language.stage sources.contains source <;> rfl

theorem staged_of_stagedGraph {id source : String} {expr : Expr}
    (found : sources.get? id = some source)
    (inGraph : (language.stagedGraph sources).get? id = some expr) :
    ∃ children, language.stage sources.contains source = .ok children ∧
      expr = .group children none := by
  rw [language.stagedGraph_get? found] at inGraph
  cases staged : language.stage sources.contains source with
  | error error =>
      rw [staged] at inGraph
      contradiction
  | ok children =>
      rw [staged] at inGraph
      cases inGraph
      exact ⟨children, rfl, rfl⟩

/-- What a source can be built to: the failure to stage it, or what grouping makes of its parts,
up to the name in a cycle. -/
inductive Builds (language : Language) (sources : Catalog String) (source : String) :
    Except Error Expr → Prop
  /-- The source is not staged. -/
  | unstaged (error : Error) (staged : language.stage sources.contains source = .error error) :
      Builds language sources source (.error error)
  /-- The parts of the source are grouped. -/
  | grouped (children : List Expr) (reduced : Except GroupError Node)
      (staged : language.stage sources.contains source = .ok children)
      (accounts : (language.stagedGrouper sources).resolver.Accounts
        ((language.stagedGrouper sources).reductionToOne (Expr.toNodes children)) reduced) :
      Builds language sources source (reduced.mapError .group >>= expression)

/-- What the graph of named sources holds of a name, and what is said of its failure. -/
def graphEntry (language : Language) (sources : Catalog String) (id : String) :
    Option Expr × Entry :=
  ((language.buildGraph sources).1.get? id, (language.buildGraph sources).2.entry id)

theorem entry_groupOne_of_ne {grouper : Grouper}
    (state : Draft Expr × Memory GroupError CategorySet) (source : String × List Expr)
    {id : String} (different : source.1 ≠ id) :
    (groupOne grouper state source).1.entry id = state.1.entry id :=
  state.1.entry_record_of_ne _ different.symm

/-- A name that was not staged keeps what staging said of it. -/
theorem graphEntry_of_not_staged {id : String} {said : Entry}
    (staged : (language.stageAll sources).entry id = (none, said)) :
    language.graphEntry sources id = (none, said) := by
  obtain ⟨notMade, entry⟩ := Prod.mk.inj staged
  refine (Catalog.foldl_view_of_not_mem Prod.fst (fun state => state.1.entry id)
    (groupOne (language.stagedGrouper sources))
    (fun state source => entry_groupOne_of_ne state source) ?_ _).trans ?_
  · rintro ⟨name, children⟩ member rfl
    rw [Catalog.get?_eq_some_iff.mpr member] at notMade
    contradiction
  · exact congrArg (Prod.mk none) entry

/-- A name that was staged gets what grouping makes of its parts. -/
theorem graphEntry_of_staged {id : String} {children : List Expr}
    (staged : (language.stageAll sources).entry id = (some children, Entry.nothing)) :
    ∃ reduced, (language.stagedGrouper sources).resolver.Accounts
        ((language.stagedGrouper sources).reductionToOne (Expr.toNodes children)) reduced ∧
      language.graphEntry sources id =
        Draft.entryOf (reduced.mapError .group >>= expression) := by
  obtain ⟨made, silent⟩ := Prod.mk.inj staged
  obtain ⟨before, faithful, same, final⟩ := Catalog.foldl_view_of_mem Prod.fst
    (fun state => state.1.entry id) (groupOne (language.stagedGrouper sources))
    (fun state => (language.stagedGrouper sources).resolver.Faithful state.2)
    (fun state source => entry_groupOne_of_ne state source)
    (fun _ _ faithful => (Resolver.run_spec _ faithful).2)
    (language.stageAll sources).made.names_nodup (Catalog.get?_eq_some_iff.mp made) rfl
    ({ failed := (language.stageAll sources).failed }, ∅) Resolver.faithful_empty
  have fresh : before.1.entry id = (none, Entry.nothing) :=
    same.trans (congrArg (Prod.mk none) silent)
  exact ⟨_, (Resolver.run_spec _ faithful).1, final.trans (Draft.entry_record_self _ fresh)⟩

/-- Every source is built on its own. -/
theorem graphEntry_of_source (language : Language) {id source : String}
    (found : sources.get? id = some source) :
    ∃ result, language.Builds sources source result ∧
      language.graphEntry sources id = Draft.entryOf result := by
  have entry := language.stageAll_entry found
  cases staged : language.stage sources.contains source with
  | error error =>
      rw [staged] at entry
      exact ⟨_, .unstaged error staged, graphEntry_of_not_staged entry⟩
  | ok children =>
      rw [staged] at entry
      obtain ⟨reduced, accounts, built⟩ := graphEntry_of_staged entry
      exact ⟨_, .grouped children reduced staged accounts, built⟩

theorem Builds.settles {source : String} {expr : Expr}
    (builds : language.Builds sources source (.ok expr)) :
    ∃ children, language.stage sources.contains source = .ok children ∧
      (language.stagedGrouper sources).resolver.Settles
        ((language.stagedGrouper sources).reductionToOne (Expr.toNodes children))
        (.ok expr.toNode) := by
  generalize built : Except.ok expr = result at builds
  cases builds with
  | unstaged error staged => contradiction
  | grouped children reduced staged accounts =>
      obtain ⟨node, renamed, stored⟩ := bind_eq_ok_iff.mp built.symm
      rw [mapError_eq_ok_iff.mp renamed] at accounts
      rw [Expr.toNode_of_ofNode (mapError_eq_ok_iff.mp stored)]
      exact ⟨children, staged, accounts.settles⟩

theorem graphEntry_of_graph {id : String} {expr : Expr}
    (found : (language.buildGraph sources).1.get? id = some expr) :
    ∃ source, sources.get? id = some source ∧ language.Builds sources source (.ok expr) ∧
      language.graphEntry sources id = Draft.entryOf (.ok expr) := by
  cases named : sources.get? id with
  | none =>
      have absent := graphEntry_of_not_staged (language.stageAll_entry_of_absent named)
      have notFound := congrArg Prod.fst absent
      rw [graphEntry, found] at notFound
      contradiction
  | some source =>
      obtain ⟨result, builds, entry⟩ := language.graphEntry_of_source named
      have inGraph := congrArg Prod.fst entry
      rw [graphEntry, found] at inGraph
      cases result with
      | error error => contradiction
      | ok other =>
          cases inGraph
          exact ⟨source, rfl, builds, entry⟩

/-- An expression of the graph is what remains of the parts of its source. -/
theorem builds_of_graph {id : String} {expr : Expr}
    (found : (language.buildGraph sources).1.get? id = some expr) :
    ∃ source, sources.get? id = some source ∧ language.Builds sources source (.ok expr) := by
  obtain ⟨source, named, builds, _⟩ := graphEntry_of_graph found
  exact ⟨source, named, builds⟩

/-- An expression that is built has the parts of its source as leaves. -/
theorem Builds.leaves_eq {source : String} {expr : Expr}
    (builds : language.Builds sources source (.ok expr)) :
    ∃ children, language.stage sources.contains source = .ok children ∧
      expr.toNode.leaves = Expr.toNodes children := by
  obtain ⟨children, staged, settles⟩ := builds.settles
  obtain ⟨tokens, _, parts⟩ := linkedTokens_of_stage staged
  have steps := Grouper.steps_of_reductionToOne (expand_of_stage staged) settles
  have sameLeaves := Rule.leavesOf_eq_of_steps steps
  rw [Node.leavesOf, Node.leavesOf, List.append_nil, parts, Node.leavesOf_tokens] at sameLeaves
  exact ⟨children, staged, sameLeaves.trans parts.symm⟩

theorem Builds.contains_of_mentions {source : String} {expr : Expr}
    (builds : language.Builds sources source (.ok expr)) {id : String}
    (mentions : expr.Mentions id) : sources.contains id = true := by
  obtain ⟨children, staged, sameLeaves⟩ := builds.leaves_eq
  have inLeaves := (expr.mentions_toNode id).mpr mentions
  rw [Node.Mentions, sameLeaves] at inLeaves
  exact isKnown_of_stage staged _ inLeaves id List.mem_cons_self

/-- Every expression of the graph is formed by the rules of the grammar. -/
theorem formed_of_graph {id : String} {expr : Expr}
    (found : (language.buildGraph sources).1.get? id = some expr) :
    Formed (language.stagedGrouper sources).Offers language.rules expr.toNode := by
  obtain ⟨source, _, builds⟩ := builds_of_graph found
  obtain ⟨children, staged, settles⟩ := builds.settles
  obtain ⟨tokens, _, parts⟩ := toNodes_of_stage staged
  have steps := Grouper.steps_of_reductionToOne (expand_of_stage staged) settles
  refine Rule.formed_of_steps steps (fun node member => ?_) _ List.mem_cons_self
  rw [parts] at member
  obtain ⟨token, _, rfl⟩ := List.mem_map.mp member
  exact .token _

/-- A name offers, through the parts of its source, what its expression in the graph offers. -/
theorem offers_name_of_graph {id : String} {expr : Expr}
    (found : (language.buildGraph sources).1.get? id = some expr)
    {categories : CategorySet}
    (offers : (language.stagedGrouper sources).Offers expr.toNode categories) :
    (language.stagedGrouper sources).Offers (.token (.reference id)) categories := by
  obtain ⟨source, named, builds⟩ := builds_of_graph found
  obtain ⟨children, staged, settles⟩ := builds.settles
  have inStaged :
      (language.stagedGrouper sources).graph.get? id = some (.group children none) := by
    refine (language.stagedGraph_get? named).trans ?_
    rw [staged]
    rfl
  refine (Grouper.offers_reference inStaged).mpr ?_
  exact Grouper.offers_of_reductionToOne settles offers

end Grouping

section Interpreting

variable {id : String}

/-- Of a name without expression, only what was said in building the graph is said. -/
theorem interpretSources_entry_of_not_built {said : Entry}
    (built : language.graphEntry sources id = (none, said)) :
    (language.interpretSources sources).entry id = said := by
  obtain ⟨absent, failed⟩ := Prod.mk.inj built
  have silent := (language.evaluator (language.buildGraph sources).1).interpret_entry_of_absent
    language.execute absent
  exact (Interpretation.entry_merge_of_older_nothing _ silent).trans failed

theorem interpretSources_entry_of_error {error : Error}
    (built : language.graphEntry sources id = Draft.entryOf (.error error)) :
    (language.interpretSources sources).entry id = (Outcome.failed error).entry :=
  interpretSources_entry_of_not_built built

theorem interpretSources_entry_of_graph {expr : Expr}
    (found : (language.buildGraph sources).1.get? id = some expr) :
    (language.interpretSources sources).entry id =
      (language.interpret (language.buildGraph sources).1).entry id := by
  obtain ⟨_, _, _, built⟩ := graphEntry_of_graph found
  exact Interpretation.entry_merge_of_newer_nothing _ (Prod.mk.inj built).2

end Interpreting

end Language

end Tacit
