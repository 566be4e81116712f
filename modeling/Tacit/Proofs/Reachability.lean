import Mathlib.Logic.Relation
import Tacit.Proofs.Expression

/-!
# Reaching names

A named expression refers to the names that its leaves mention, and reaches all names that these
reach in turn.  An expression uses the keywords among its own leaves and among the leaves of all
expressions it reaches.
-/

namespace Tacit.Graph

/-- The expression of the first name mentions the second. -/
def Refers (graph : Graph) (source target : String) : Prop :=
  ∃ expr, graph.get? source = some expr ∧ expr.Mentions target

/-- The second name is the first or is referred to from it through any number of expressions. -/
def Reaches (graph : Graph) : String → String → Prop := Relation.ReflTransGen graph.Refers

/-- A keyword is a leaf of an expression or of an expression that it reaches. -/
def Uses (graph : Graph) (expr : Expr) (spelling : String) : Prop :=
  Expr.keyword spelling ∈ expr.leaves ∨
    ∃ id target other, expr.Mentions id ∧ graph.Reaches id target ∧
      graph.get? target = some other ∧ Expr.keyword spelling ∈ other.leaves

variable {graph : Graph} {spelling : String}

/-- What a group uses, one of its children uses. -/
theorem Uses.child {children : List Expr} {categories : Option CategorySet}
    (uses : graph.Uses (.group children categories) spelling) :
    ∃ child ∈ children, graph.Uses child spelling := by
  obtain leaf | ⟨id, target, other, mentions, rest⟩ := uses
  · obtain ⟨child, member, inside⟩ := Expr.mem_leavesOf.mp leaf
    exact ⟨child, member, .inl inside⟩
  · obtain ⟨child, member, inside⟩ := Expr.mem_leavesOf.mp mentions
    exact ⟨child, member, .inr ⟨id, target, other, inside, rest⟩⟩

/-- What a child uses, the group uses. -/
theorem Uses.of_child {children : List Expr} {categories : Option CategorySet} {child : Expr}
    (member : child ∈ children) (uses : graph.Uses child spelling) :
    graph.Uses (.group children categories) spelling := by
  obtain leaf | ⟨id, target, other, mentions, rest⟩ := uses
  · exact .inl (Expr.mem_leavesOf.mpr ⟨child, member, leaf⟩)
  · exact .inr ⟨id, target, other, Expr.mem_leavesOf.mpr ⟨child, member, mentions⟩, rest⟩

/-- What is used from a name on is used by its expression. -/
theorem uses_of_reaches {id target : String} {expr other : Expr}
    (found : graph.get? id = some expr) (reaches : graph.Reaches id target)
    (targetFound : graph.get? target = some other)
    (leaf : Expr.keyword spelling ∈ other.leaves) : graph.Uses expr spelling := by
  obtain rfl | ⟨next, ⟨source, here, mentions⟩, rest⟩ := Relation.ReflTransGen.cases_head reaches
  · rw [found, Option.some.injEq] at targetFound
    exact .inl (targetFound ▸ leaf)
  · rw [found, Option.some.injEq] at here
    subst here
    exact .inr ⟨next, target, other, mentions, rest, targetFound, leaf⟩

/-- What a reference uses, the expression it names uses. -/
theorem Uses.named {id : String} {expr : Expr} (found : graph.get? id = some expr)
    (uses : graph.Uses (.reference id) spelling) : graph.Uses expr spelling := by
  obtain leaf | ⟨name, target, other, mentions, reaches, targetFound, leaf⟩ := uses
  · cases List.mem_singleton.mp leaf
  · cases List.mem_singleton.mp mentions
    exact uses_of_reaches found reaches targetFound leaf

/-- What a named expression uses, a reference to it uses. -/
theorem Uses.of_named {id : String} {expr : Expr} (found : graph.get? id = some expr)
    (uses : graph.Uses expr spelling) : graph.Uses (.reference id) spelling := by
  have itself : (Expr.reference id).Mentions id := List.mem_cons_self
  obtain leaf | ⟨name, target, other, mentions, reaches, rest⟩ := uses
  · exact .inr ⟨id, id, expr, itself, .refl, found, leaf⟩
  · exact .inr ⟨id, target, other, itself, .head ⟨expr, found, mentions⟩ reaches, rest⟩

end Tacit.Graph
