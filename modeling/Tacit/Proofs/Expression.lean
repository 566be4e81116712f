import Tacit.Node
import Tacit.Proofs.Inquiry

/-!
# Leaves

Groups nest; what they are made of are leaves.  Both views of an expression, as it is stored and as
it is grouped, have the same leaves in the same order.  Whether two of them are equal is decided by
walking through both, so that grouping can be run on samples and compared.
-/

namespace Tacit

/-- Induction over an expression, with the claim for all children of a group at once. -/
@[elab_as_elim]
theorem Expr.nestedInduction {motive : Expr → Prop}
    (keyword : ∀ spelling, motive (.keyword spelling)) (number : ∀ value, motive (.number value))
    (group : ∀ children categories, (∀ child ∈ children, motive child) →
      motive (.group children categories))
    (reference : ∀ id, motive (.reference id)) (search : ∀ text, motive (.search text))
    (stub : ∀ categories index, motive (.stub categories index)) : ∀ expr, motive expr
  | .keyword spelling => keyword spelling
  | .number value => number value
  | .group children categories => group children categories fun child _ =>
      Expr.nestedInduction keyword number group reference search stub child
  | .reference id => reference id
  | .search text => search text
  | .stub categories index => stub categories index

/-- Induction over a node, with the claim for all children of a group at once. -/
@[elab_as_elim]
theorem Node.nestedInduction {motive : Node → Prop} (token : ∀ token, motive (.token token))
    (group : ∀ children categories, (∀ child ∈ children, motive child) →
      motive (.group children categories))
    (stub : ∀ categories index, motive (.stub categories index)) : ∀ node, motive node
  | .token leaf => token leaf
  | .group children categories => group children categories fun child _ =>
      Node.nestedInduction token group stub child
  | .stub categories index => stub categories index

namespace Node

mutual

/-- Whether two nodes are equal. -/
def decEq : (first second : Node) → Decidable (first = second)
  | .token first, .token second => decidable_of_iff (first = second) (by simp)
  | .group children categories, .group others known =>
      haveI := decEqAll children others
      decidable_of_iff (children = others ∧ categories = known) (by simp)
  | .stub categories index, .stub known place =>
      decidable_of_iff (categories = known ∧ index = place) (by simp)
  | .token _, .group _ _ | .token _, .stub _ _ | .group _ _, .token _ | .group _ _, .stub _ _
  | .stub _ _, .token _ | .stub _ _, .group _ _ => .isFalse nofun

/-- Whether neighbours are equal, one by one. -/
def decEqAll : (first second : List Node) → Decidable (first = second)
  | [], [] => .isTrue rfl
  | node :: rest, other :: others =>
      haveI := decEq node other
      haveI := decEqAll rest others
      decidable_of_iff (node = other ∧ rest = others) (by simp)
  | [], _ :: _ | _ :: _, [] => .isFalse nofun

end

instance : DecidableEq Node := decEq

mutual

/-- The parts of a node that are no groups, from left to right. -/
def leaves : Node → List Node
  | .group children _ => leavesOf children
  | leaf => [leaf]

/-- The leaves of neighbours, from left to right. -/
def leavesOf : List Node → List Node
  | [] => []
  | node :: rest => node.leaves ++ leavesOf rest

end

@[simp]
theorem leaves_token (token : Token) : (Node.token token).leaves = [.token token] := rfl

@[simp]
theorem leaves_group (children : List Node) (categories : Option CategorySet) :
    (Node.group children categories).leaves = leavesOf children := rfl

@[simp]
theorem leavesOf_append (left right : List Node) :
    leavesOf (left ++ right) = leavesOf left ++ leavesOf right := by
  induction left with
  | nil => rfl
  | cons node rest ih => simp [leavesOf, ih]

theorem mem_leavesOf {nodes : List Node} {leaf : Node} :
    leaf ∈ leavesOf nodes ↔ ∃ node ∈ nodes, leaf ∈ node.leaves := by
  induction nodes with
  | nil => simp [leavesOf]
  | cons node rest ih => simp [leavesOf, ih]

theorem leavesOf_tokens (tokens : List Token) :
    leavesOf (tokens.map .token) = tokens.map .token := by
  induction tokens with
  | nil => rfl
  | cons token rest ih => rw [List.map_cons, leavesOf, leaves_token, ih, List.singleton_append]

/-- A name is mentioned by one of the leaves. -/
def Mentions (node : Node) (id : String) : Prop := Node.token (.reference id) ∈ node.leaves

theorem mentions_child {children : List Node} {child : Node} {categories : Option CategorySet}
    {id : String} (member : child ∈ children) (mentions : child.Mentions id) :
    (Node.group children categories).Mentions id :=
  mem_leavesOf.mpr ⟨child, member, mentions⟩

end Node

namespace Expr

mutual

/-- The parts of an expression that are no groups, from left to right. -/
def leaves : Expr → List Expr
  | .group children _ => leavesOf children
  | leaf => [leaf]

/-- The leaves of neighbours, from left to right. -/
def leavesOf : List Expr → List Expr
  | [] => []
  | expr :: rest => expr.leaves ++ leavesOf rest

end

@[simp]
theorem leaves_group (children : List Expr) (categories : Option CategorySet) :
    (Expr.group children categories).leaves = leavesOf children := rfl

theorem mem_leavesOf {exprs : List Expr} {leaf : Expr} :
    leaf ∈ leavesOf exprs ↔ ∃ expr ∈ exprs, leaf ∈ expr.leaves := by
  induction exprs with
  | nil => simp [leavesOf]
  | cons expr rest ih => simp [leavesOf, ih]

theorem toNodes_of_ofNodes {nodes : List Node}
    (each : ∀ node ∈ nodes, ∀ expr, ofNode node = .ok expr → expr.toNode = node)
    {exprs : List Expr} (stored : ofNodes nodes = .ok exprs) : toNodes exprs = nodes := by
  induction nodes generalizing exprs with
  | nil =>
      cases stored
      rfl
  | cons node rest ih =>
      rw [ofNodes] at stored
      obtain ⟨first, firstStored, more⟩ := bind_eq_ok_iff.mp stored
      obtain ⟨others, othersStored, all⟩ := bind_eq_ok_iff.mp more
      cases all
      obtain ⟨here, later⟩ := List.forall_mem_cons.mp each
      rw [toNodes, here first firstStored, ih later othersStored]

/-- A stored expression is as good as the node it is stored from. -/
theorem toNode_of_ofNode {node : Node} {expr : Expr} (stored : ofNode node = .ok expr) :
    expr.toNode = node := by
  induction node using Node.nestedInduction generalizing expr with
  | token token =>
      cases token with
      | identifier name => cases stored
      | keyword spelling | number value | reference id | search text =>
          cases stored
          rfl
  | stub categories index =>
      cases stored
      rfl
  | group children categories ih =>
      rw [ofNode] at stored
      obtain ⟨exprs, childrenStored, made⟩ := bind_eq_ok_iff.mp stored
      cases made
      rw [toNode, toNodes_of_ofNodes (fun child member _ => ih child member) childrenStored]

theorem ofNodes_toNodes {exprs : List Expr}
    (each : ∀ expr ∈ exprs, ofNode expr.toNode = .ok expr) :
    ofNodes (toNodes exprs) = .ok exprs := by
  induction exprs with
  | nil => rfl
  | cons expr rest ih =>
      obtain ⟨here, later⟩ := List.forall_mem_cons.mp each
      rw [toNodes, ofNodes, here, ih later]
      rfl

/-- Every expression is stored from its node. -/
theorem ofNode_toNode (expr : Expr) : ofNode expr.toNode = .ok expr := by
  induction expr using Expr.nestedInduction with
  | keyword _ | number _ | reference _ | search _ | stub _ _ => rfl
  | group children categories ih =>
      rw [toNode, ofNode, ofNodes_toNodes ih]
      rfl

theorem toNode_inj {first second : Expr} : first.toNode = second.toNode ↔ first = second := by
  refine ⟨fun same => ?_, congrArg toNode⟩
  have stored := ofNode_toNode first
  rw [same, ofNode_toNode] at stored
  exact (Except.ok.inj stored).symm

instance : DecidableEq Expr := fun _ _ => decidable_of_iff _ toNode_inj

theorem leaves_toNode (expr : Expr) : expr.toNode.leaves = expr.leaves.map toNode := by
  induction expr using Expr.nestedInduction with
  | keyword spelling => rfl
  | number value => rfl
  | reference id => rfl
  | search text => rfl
  | stub categories index => rfl
  | group children categories ih =>
      change Node.leavesOf (toNodes children) = (leavesOf children).map toNode
      induction children with
      | nil => rfl
      | cons child rest restIh =>
          rw [toNodes, Node.leavesOf, leavesOf, List.map_append,
            ih child List.mem_cons_self,
            restIh fun other member => ih other (List.mem_cons_of_mem child member)]

/-- Whether an expression is no search text and no stub. -/
def isPlain : Expr → Bool
  | .search _ | .stub _ _ => false
  | _ => true

/-- A name is mentioned by one of the leaves. -/
def Mentions (expr : Expr) (id : String) : Prop := Expr.reference id ∈ expr.leaves

theorem mentions_toNode (expr : Expr) (id : String) :
    expr.toNode.Mentions id ↔ expr.Mentions id := by
  rw [Node.Mentions, leaves_toNode, List.mem_map]
  constructor
  · rintro ⟨leaf, member, same⟩
    cases leaf <;> cases same
    exact member
  · intro mentions
    exact ⟨.reference id, mentions, rfl⟩

theorem mentions_child {children : List Expr} {child : Expr} {categories : Option CategorySet}
    {id : String} (member : child ∈ children) (mentions : child.Mentions id) :
    (Expr.group children categories).Mentions id :=
  mem_leavesOf.mpr ⟨child, member, mentions⟩

end Expr

end Tacit
