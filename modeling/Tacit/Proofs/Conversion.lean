import Tacit.Proofs.Checking
import Tacit.Proofs.Expression

/-!
# Expressions and nodes

An expression is a node without identifiers.  Storing a node walks over its leaves from left to
right and stops at the first identifier; without one the node is stored, and nothing of it is lost.
-/

namespace Tacit

/-- A leaf that cannot be stored, with what is reported of it. -/
inductive Node.Unresolved : Node → GroupError → Prop
  | identifier (name : String) :
      Node.Unresolved (.token (.identifier name)) (.unresolvedIdentifier name)

namespace Expr

/-- What is reported of neighbours is what is reported of the first that cannot be stored. -/
theorem ofNodes_eq_error_iff {nodes : List Node}
    (each : ∀ node ∈ nodes, ∀ error,
      ofNode node = .error error ↔ FirstFault Node.Unresolved node.leaves error)
    {error : GroupError} :
    ofNodes nodes = .error error ↔ FirstFault Node.Unresolved (Node.leavesOf nodes) error := by
  induction nodes with
  | nil => exact iff_of_false nofun not_firstFault_nil
  | cons node rest ih =>
      obtain ⟨here, later⟩ := List.forall_mem_cons.mp each
      rw [ofNodes, Node.leavesOf, firstFault_append_iff, bind_eq_error_iff, here]
      refine or_congr_right ?_
      simp only [← here, ← ih later, ← ne_eq, ← exists_eq_ok_iff]
      constructor
      · rintro ⟨first, stored, failed⟩
        obtain inRest | ⟨_, _, impossible⟩ := bind_eq_error_iff.mp failed
        · exact ⟨⟨first, stored⟩, inRest⟩
        · cases impossible
      · rintro ⟨⟨first, stored⟩, inRest⟩
        exact ⟨first, stored, bind_eq_error_iff.mpr (.inl inRest)⟩

/-- Storing a node fails with the first identifier among its leaves. -/
theorem ofNode_eq_error_iff {node : Node} {error : GroupError} :
    ofNode node = .error error ↔ FirstFault Node.Unresolved node.leaves error := by
  induction node using Node.nestedInduction generalizing error with
  | token token =>
      rw [Node.leaves_token, firstFault_singleton_iff]
      cases token with
      | identifier name =>
          constructor
          · rintro ⟨⟩
            exact .identifier name
          · rintro ⟨⟩
            rfl
      | keyword _ | number _ | reference _ | search _ => exact iff_of_false nofun nofun
  | stub categories index => exact iff_of_false nofun (firstFault_singleton_iff.not.mpr nofun)
  | group children categories ih =>
      rw [ofNode, Node.leaves_group, ← ofNodes_eq_error_iff fun child member _ => ih child member,
        bind_eq_error_iff, or_iff_left]
      rintro ⟨_, _, impossible⟩
      cases impossible

/-- A node can be stored exactly if none of its leaves is an identifier. -/
theorem exists_ofNode_eq_ok_iff {node : Node} :
    (∃ expr, ofNode node = .ok expr) ↔
      ∀ name, Node.token (.identifier name) ∉ node.leaves := by
  rw [exists_eq_ok_iff]
  simp only [ne_eq, ofNode_eq_error_iff, forall_not_firstFault_iff]
  constructor
  · intro resolved name member
    exact resolved _ member _ (.identifier name)
  · rintro resolved leaf member error ⟨name⟩
    exact resolved name member

/-- Expressions are the nodes without identifiers, and nothing is lost between the two.  A node with
identifiers is refused for the first of them. -/
theorem nodes_convert_without_loss (expr : Expr) (node : Node) :
    ofNode expr.toNode = .ok expr ∧
    (ofNode node = .ok expr ↔ expr.toNode = node) ∧
    ((∃ stored, ofNode node = .ok stored) ↔
      ∀ name, Node.token (.identifier name) ∉ node.leaves) ∧
    ∀ error, ofNode node = .error error ↔ FirstFault Node.Unresolved node.leaves error := by
  refine ⟨ofNode_toNode expr, ⟨toNode_of_ofNode, ?_⟩, exists_ofNode_eq_ok_iff,
    fun _ => ofNode_eq_error_iff⟩
  rintro rfl
  exact ofNode_toNode expr

end Expr

end Tacit
