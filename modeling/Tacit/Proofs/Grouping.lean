import Tacit.Proofs.Lexer
import Tacit.Proofs.Reduction
import Tacit.Proofs.Resolver

/-!
# Grouping

What a node offers is what the search for its categories comes to.  A sequence that is reduced to
one node takes the steps of its grammar, and offers as a whole what that node offers.
-/

namespace Tacit

/-- A sequence with the tokens of search texts in the stead of the texts. -/
def Lexer.expand (lexer : Lexer) : List Node → Except GroupError (List Node)
  | [] => .ok []
  | .token (.search text) :: rest => do
      let found ← (lexer.tokens text).mapError .lex
      let others ← lexer.expand rest
      return found.map .token ++ others
  | node :: rest => do
      let others ← lexer.expand rest
      return node :: others

/-- Search texts are replaced by spelled tokens; all else stays. -/
theorem Lexer.mem_expand {lexer : Lexer} {nodes expanded : List Node}
    (expands : lexer.expand nodes = .ok expanded) :
    ∀ node ∈ expanded, node ∈ nodes ∨ ∃ token : Token, token.isSpelled ∧ node = .token token := by
  fun_induction Lexer.expand lexer nodes generalizing expanded with
  | case1 =>
      cases expands
      simp
  | case2 text rest ih =>
      obtain ⟨found, lexed, more⟩ := bind_eq_ok_iff.mp expands
      obtain ⟨others, otherwise, made⟩ := bind_eq_ok_iff.mp more
      cases made
      intro node member
      obtain inFound | inOthers := List.mem_append.mp member
      · obtain ⟨token, inTokens, rfl⟩ := List.mem_map.mp inFound
        have lexedText := mapError_eq_ok_iff.mp lexed
        exact .inr ⟨token, isSpelled_of_mem_tokens lexedText token inTokens, rfl⟩
      · exact (ih otherwise node inOthers).imp_left (List.mem_cons_of_mem _)
  | case3 first rest plain ih =>
      obtain ⟨others, otherwise, made⟩ := bind_eq_ok_iff.mp expands
      cases made
      intro node member
      obtain rfl | inOthers := List.mem_cons.mp member
      · exact .inl List.mem_cons_self
      · exact (ih otherwise node inOthers).imp_left (List.mem_cons_of_mem _)

/-- A sequence without search texts stays as it is. -/
theorem Lexer.expand_eq_self {lexer : Lexer} {nodes : List Node}
    (plain : ∀ text, Node.token (.search text) ∉ nodes) : lexer.expand nodes = .ok nodes := by
  fun_induction Lexer.expand lexer nodes with
  | case1 => rfl
  | case2 text rest ih => exact absurd List.mem_cons_self (plain text)
  | case3 first rest noSearch ih =>
      rw [ih fun text member => plain text (List.mem_cons_of_mem _ member)]
      rfl

namespace Grouper

/-- A node with the search for its categories. -/
def reading (grouper : Grouper) (node : Node) : Reading := ⟨node, grouper.nodeCategories node⟩

theorem searchReadings_eq (grouper : Grouper) (text : String) :
    grouper.searchReadings text =
      ((grouper.lexer.tokens text).mapError .lex).map
        fun tokens => tokens.map fun token => grouper.reading (.token token) := by
  rw [searchReadings]
  cases grouper.lexer.tokens text <;> rfl

/-- Nodes are read as the sequence that they expand to. -/
theorem readings_eq (grouper : Grouper) (nodes : List Node) :
    grouper.readings nodes = (grouper.lexer.expand nodes).map (List.map grouper.reading) := by
  fun_induction Lexer.expand grouper.lexer nodes with
  | case1 => rfl
  | case2 text rest ih =>
      rw [readings, searchReadings_eq, ih]
      cases (grouper.lexer.tokens text).mapError GroupError.lex with
      | error error => rfl
      | ok found =>
          cases grouper.lexer.expand rest with
          | error error => rfl
          | ok others =>
              change Except.ok _ = Except.ok _
              simp [Function.comp_def]
  | case3 first rest noSearch ih =>
      rw [readings, ih]
      · cases grouper.lexer.expand rest <;> rfl
      · exact noSearch

theorem readings_eq_ok_iff {grouper : Grouper} {nodes : List Node} {readings : List Reading} :
    grouper.readings nodes = .ok readings ↔
      ∃ expanded, grouper.lexer.expand nodes = .ok expanded ∧
        readings = expanded.map grouper.reading := by
  rw [readings_eq]
  cases grouper.lexer.expand nodes with
  | error error => simp [Except.map]
  | ok expanded => simp [Except.map, eq_comm]

/-- The categories that a node offers. -/
def Offers (grouper : Grouper) (node : Node) (categories : CategorySet) : Prop :=
  grouper.resolver.Settles (grouper.nodeCategories node) (.ok categories)

theorem Offers.unique {grouper : Grouper} {node : Node} {left right : CategorySet}
    (first : grouper.Offers node left) (second : grouper.Offers node right) : left = right :=
  Except.ok.inj (Resolver.Settles.unique first second)

theorem offers_keyword (grouper : Grouper) (spelling : String) :
    grouper.Offers (.token (.keyword spelling)) (grouper.lexer.table.categories spelling) :=
  Resolver.settles_done _

theorem offers_number (grouper : Grouper) (value : Float) :
    grouper.Offers (.token (.number value)) {.noun} :=
  Resolver.settles_done _

theorem offers_group (grouper : Grouper) (children : List Node) (categories : CategorySet) :
    grouper.Offers (.group children (some categories)) categories :=
  Resolver.settles_done _

/-- A name offers what its expression offers. -/
theorem offers_reference {grouper : Grouper} {id : String} {expr : Expr}
    (found : grouper.graph.get? id = some expr) {categories : CategorySet} :
    grouper.Offers (.token (.reference id)) categories ↔
      grouper.Offers expr.toNode categories := by
  have named : grouper.resolver.items.get? id = some expr := found
  exact Resolver.settles_get_iff named

/-- The categories that are found for a reading are those that its node offers. -/
def Truthful (grouper : Grouper) (reading : Reading) : Prop :=
  ∀ categories, grouper.resolver.Settles reading.categories (.ok categories) ↔
    grouper.Offers reading.node categories

theorem truthful_reading (grouper : Grouper) (node : Node) :
    grouper.Truthful (grouper.reading node) :=
  fun _ => Iff.rfl

theorem truthful_settled {grouper : Grouper} {node : Node} {categories : CategorySet} :
    grouper.Truthful (.settled node categories) ↔ grouper.Offers node categories := by
  constructor
  · intro truthful
    exact (truthful categories).mp (Resolver.settles_done _)
  · intro offers other
    constructor
    · intro settles
      cases settles.unique (Resolver.settles_done (.ok categories))
      exact offers
    · intro alsoOffers
      rw [offers.unique alsoOffers]
      exact Resolver.settles_done _

/-- Folding keeps readings truthful. -/
theorem truthful_invariant (grouper : Grouper) :
    Reading.Invariant (fun _ => True)
      (fun id answer => grouper.resolver.Settles (.get id) (.ok answer)) grouper.Offers
      grouper.Truthful where
  asked reading truthful :=
    (Resolver.always_settles reading.categories).imp fun offered settles =>
      truthful_settled.mpr ((truthful offered).mp settles)
  folded children result := truthful_settled.mpr (grouper.offers_group children result)
  offered _ _ := truthful_settled.mp

/-- The steps of the grammar, with the categories that nodes offer. -/
def Step (grouper : Grouper) : List Node → List Node → Prop :=
  Rule.Step grouper.Offers grouper.rules

/-- A sequence that is reduced takes steps until every rule is passed over. -/
theorem foldAll_spec {grouper : Grouper} {nodes : List Node} {folded : List Reading}
    (settles : grouper.resolver.Settles
      (Reading.foldAll grouper.rules (nodes.map grouper.reading)) (.ok folded)) :
    (∀ reading ∈ folded, grouper.Truthful reading) ∧
      Relation.ReflTransGen grouper.Step nodes (folded.map Reading.node) ∧
      ∀ rule ∈ grouper.rules, rule.PassedOver grouper.Offers (folded.map Reading.node) := by
  have truthful : ∀ reading ∈ nodes.map grouper.reading, grouper.Truthful reading := by
    intro reading member
    obtain ⟨node, _, rfl⟩ := List.mem_map.mp member
    exact grouper.truthful_reading node
  have same : (nodes.map grouper.reading).map Reading.node = nodes := by
    simp [Function.comp_def, reading]
  have spec := settles.of_always
    (grouper.truthful_invariant.foldFor grouper.rules (Nat.le_refl _) truthful)
  rwa [same] at spec

theorem theOne_eq_ok_iff {nodes : List Node} {node : Node} :
    theOne nodes = .ok node ↔ nodes = [node] := by
  match nodes with
  | [] => simp [theOne]
  | [only] => simp [theOne]
  | first :: second :: rest => simp [theOne]

/-- Reduction to one node folds readings until the one of that node remains. -/
theorem settles_reductionToOne {grouper : Grouper} {nodes : List Node} {node : Node}
    (settles : grouper.resolver.Settles (grouper.reductionToOne nodes) (.ok node)) :
    ∃ expanded reading, grouper.lexer.expand nodes = .ok expanded ∧
      grouper.resolver.Settles
        (Reading.foldAll grouper.rules (expanded.map grouper.reading)) (.ok [reading]) ∧
      reading.node = node := by
  obtain ⟨reduced, reducedSettles, last⟩ := Resolver.settles_bind_ok.mp settles
  obtain ⟨readings, readSettles, more⟩ := Resolver.settles_bind_ok.mp reducedSettles
  obtain ⟨folded, foldedSettles, mapped⟩ := Resolver.settles_bind_ok.mp more
  have read := readSettles.unique (Resolver.settles_done (grouper.readings nodes))
  obtain ⟨expanded, expands, rfl⟩ := readings_eq_ok_iff.mp read.symm
  have same := mapped.unique (Resolver.settles_done (.ok (folded.map Reading.node)))
  cases same
  have one := theOne_eq_ok_iff.mp (last.unique (Resolver.settles_done (theOne _))).symm
  obtain ⟨reading, rest, rfl, nodeEq, restEq⟩ := List.map_eq_cons_iff.mp one
  obtain rfl := List.map_eq_nil_iff.mp restEq
  exact ⟨expanded, reading, expands, foldedSettles, nodeEq⟩

/-- A sequence that is reduced to one node takes steps to it. -/
theorem steps_of_reductionToOne {grouper : Grouper} {nodes expanded : List Node} {node : Node}
    (expands : grouper.lexer.expand nodes = .ok expanded)
    (settles : grouper.resolver.Settles (grouper.reductionToOne nodes) (.ok node)) :
    Relation.ReflTransGen grouper.Step expanded [node] := by
  obtain ⟨others, reading, expandsToo, folded, rfl⟩ := settles_reductionToOne settles
  cases expandsToo.symm.trans expands
  exact (foldAll_spec folded).2.1

/-- A sequence that is reduced to one node offers what that node offers. -/
theorem offers_of_reductionToOne {grouper : Grouper} {nodes : List Node} {node : Node}
    {categories : CategorySet}
    (settles : grouper.resolver.Settles (grouper.reductionToOne nodes) (.ok node))
    (offers : grouper.Offers node categories) :
    grouper.Offers (.group nodes none) categories := by
  obtain ⟨expanded, reading, expands, folded, rfl⟩ := settles_reductionToOne settles
  have truthful := (foldAll_spec folded).1 reading List.mem_cons_self
  have read := readings_eq_ok_iff.mpr ⟨expanded, expands, rfl⟩
  rw [Offers, nodeCategories]
  refine Resolver.settles_bind_ok.mpr ⟨_, ?_, Resolver.settles_bind_ok.mpr
    ⟨[reading], folded, (truthful categories).mpr offers⟩⟩
  rw [read]
  exact Resolver.settles_done _

/-- A name by itself in an open group is looked up. -/
theorem nodeCategories_reference (grouper : Grouper) (id : String) :
    grouper.nodeCategories (.group [.token (.reference id)] none) = .get id := by
  have read : grouper.readings [.token (.reference id)] =
      .ok [grouper.reading (.token (.reference id))] :=
    readings_eq_ok_iff.mpr ⟨[.token (.reference id)], rfl, rfl⟩
  rw [nodeCategories, read]
  change (Reading.foldAll grouper.rules _ >>= _) = _
  rw [Reading.foldAll_singleton]
  rfl

/-- A node that is made by rules is a name, or it offers the same over every graph. -/
theorem offers_of_formed {offers : Node → CategorySet → Prop} {rules : List Rule} {node : Node}
    (formed : Formed offers rules node) (lexer : Lexer) :
    (∃ id, node = .token (.reference id)) ∨
      ∃ categories, ∀ graph, (Grouper.mk lexer rules graph).Offers node categories := by
  cases formed with
  | token token =>
      cases token with
      | reference id => exact .inl ⟨id, rfl⟩
      | keyword spelling =>
          exact .inr ⟨lexer.table.categories spelling, fun _ => offers_keyword _ spelling⟩
      | number value => exact .inr ⟨_, fun _ => offers_number _ value⟩
      | identifier _ | search _ => exact .inr ⟨∅, fun _ => Resolver.settles_done (.ok ∅)⟩
  | group rule children => exact .inr ⟨rule.result, fun _ => offers_group _ children rule.result⟩

section Asking

variable {allowed : String → Prop}

/-- Folding asks no other names than its readings do. -/
theorem asking_invariant (allowed : String → Prop) :
    Reading.Invariant allowed (fun _ _ => True) (fun _ _ => True)
      fun reading => reading.categories.AsksOnly allowed where
  asked _ asks := asks.imp fun _ _ => trivial
  folded _ _ := trivial
  offered _ _ _ := trivial

/-- A spelled token asks no name. -/
theorem tokenCategories_asks_nothing (grouper : Grouper) {token : Token}
    (spelled : token.isSpelled = true) : (grouper.tokenCategories token).AsksOnly allowed := by
  cases token with
  | keyword _ | number _ | identifier _ => trivial
  | reference _ | search _ => contradiction

/-- The readings of a sequence ask no other names than its nodes do. -/
theorem readings_ask (grouper : Grouper) {nodes : List Node}
    (asks : ∀ node ∈ nodes, (grouper.nodeCategories node).AsksOnly allowed) :
    ∀ readings, grouper.readings nodes = .ok readings →
      ∀ reading ∈ readings, reading.categories.AsksOnly allowed := by
  intro readings read reading member
  obtain ⟨expanded, expands, rfl⟩ := readings_eq_ok_iff.mp read
  obtain ⟨node, inExpanded, rfl⟩ := List.mem_map.mp member
  obtain inNodes | ⟨token, spelled, rfl⟩ := Lexer.mem_expand expands node inExpanded
  · exact asks node inNodes
  · exact grouper.tokenCategories_asks_nothing spelled

theorem foldAll_asks (rules : List Rule) {readings : List Reading}
    (asks : ∀ reading ∈ readings, reading.categories.AsksOnly allowed) :
    (Reading.foldAll rules readings).Always allowed (fun _ _ => True) fun folded =>
      ∀ reading ∈ folded, reading.categories.AsksOnly allowed :=
  ((asking_invariant allowed).foldFor rules (Nat.le_refl _) asks).imp fun _ spec => spec.1

/-- The search for the categories of a node asks only for names that the node mentions. -/
theorem nodeCategories_asks (grouper : Grouper) (node : Node) :
    (grouper.nodeCategories node).AsksOnly node.Mentions := by
  induction node using Node.nestedInduction with
  | token token =>
      cases token with
      | reference id => exact Inquiry.always_get List.mem_cons_self fun _ _ => trivial
      | keyword _ | number _ | identifier _ | search _ => trivial
  | stub categories index => trivial
  | group children known ih =>
      cases known with
      | some categories => trivial
      | none =>
          have childrenAsk : ∀ child ∈ children,
              (grouper.nodeCategories child).AsksOnly (Node.group children none).Mentions :=
            fun child member => (ih child member).allow fun _ => Node.mentions_child member
          rw [nodeCategories]
          refine (Inquiry.always_lift (grouper.readings_ask childrenAsk)).bind
            fun readings asks => (foldAll_asks grouper.rules asks).bind fun folded allAsk => ?_
          cases folded with
          | nil => trivial
          | cons first rest => exact allAsk first List.mem_cons_self

/-- Reduction asks only for names that the nodes of the sequence mention. -/
theorem reduction_asks (grouper : Grouper) {nodes : List Node}
    (mentioned : ∀ node ∈ nodes, ∀ id, node.Mentions id → allowed id) :
    (grouper.reduction nodes).AsksOnly allowed := by
  have nodesAsk : ∀ node ∈ nodes, (grouper.nodeCategories node).AsksOnly allowed :=
    fun node member => (grouper.nodeCategories_asks node).allow (mentioned node member)
  exact (Inquiry.always_lift (grouper.readings_ask nodesAsk)).bind fun _ asks =>
    (foldAll_asks grouper.rules asks).bind fun _ _ => trivial

theorem reductionToOne_asks (grouper : Grouper) {nodes : List Node}
    (mentioned : ∀ node ∈ nodes, ∀ id, node.Mentions id → allowed id) :
    (grouper.reductionToOne nodes).AsksOnly allowed :=
  (grouper.reduction_asks mentioned).bind fun _ _ => Inquiry.always_lift fun _ _ => trivial

end Asking

section Graphs

theorem readings_eq_of_nodeCategories_eq {left right : Grouper} {nodes : List Node}
    (same : ∀ node ∈ nodes, left.nodeCategories node = right.nodeCategories node)
    (sameLexer : left.lexer = right.lexer) :
    left.readings nodes = right.readings nodes := by
  rw [readings_eq, readings_eq, sameLexer]
  cases expands : right.lexer.expand nodes with
  | error error => rfl
  | ok expanded =>
      refine congrArg Except.ok (List.map_congr_left fun node member => ?_)
      obtain inNodes | ⟨token, _, rfl⟩ := Lexer.mem_expand expands node member
      · exact congrArg (Reading.mk node) (same node inNodes)
      · cases token <;> simp [reading, nodeCategories, tokenCategories, sameLexer]

variable (lexer : Lexer) (rules : List Rule) (left right : Graph)

/-- The search for the categories of a node is the same over any graph; only its answers
differ. -/
theorem nodeCategories_eq_of_graph (node : Node) :
    (Grouper.mk lexer rules left).nodeCategories node =
      (Grouper.mk lexer rules right).nodeCategories node := by
  induction node using Node.nestedInduction with
  | token token => cases token <;> rfl
  | stub categories index => rfl
  | group children known ih =>
      cases known with
      | some categories => rfl
      | none =>
          rw [nodeCategories, nodeCategories, readings_eq_of_nodeCategories_eq ih rfl]

theorem reductionToOne_eq_of_graph (nodes : List Node) :
    (Grouper.mk lexer rules left).reductionToOne nodes =
      (Grouper.mk lexer rules right).reductionToOne nodes := by
  rw [reductionToOne, reductionToOne, reduction, reduction,
    readings_eq_of_nodeCategories_eq
      (fun node _ => nodeCategories_eq_of_graph lexer rules left right node) rfl]

variable {left right} in
/-- Graphs that agree on names whose expressions mention no others give them the same
categories. -/
theorem agreeOn {domain : String → Prop}
    (same : ∀ id, domain id → left.get? id = right.get? id)
    (closed : ∀ id expr, domain id → left.get? id = some expr →
      ∀ name, expr.Mentions name → domain name) :
    Resolver.AgreeOn domain (Grouper.mk lexer rules left).resolver
      (Grouper.mk lexer rules right).resolver where
  items := same
  inquiry expr := nodeCategories_eq_of_graph lexer rules left right expr.toNode
  inside id expr member found := (nodeCategories_asks _ _).allow fun name mentions =>
    closed id expr member found name ((expr.mentions_toNode name).mp mentions)
  cycle := rfl
  unknown := rfl

end Graphs

end Grouper

end Tacit
