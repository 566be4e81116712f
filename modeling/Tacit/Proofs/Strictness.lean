import Tacit.Keyword.Standard
import Tacit.Proofs.Reachability
import Tacit.Proofs.Session

/-!
# Evaluation is strict

No way to a meaning passes a part by.  A group has a meaning only if all its children have one, and
a name only if all names have one that its expression mentions, each found before it.  So behind a
meaning there is no gap, no malformed group and no cycle, however far one follows the names.
-/

namespace Tacit

namespace Expr

/-- The second expression is the first, or lies within it as a child of a group at any depth. -/
inductive HasPart : Expr → Expr → Prop
  | self (expr : Expr) : HasPart expr expr
  | child {children : List Expr} {categories : Option CategorySet} {child part : Expr}
      (member : child ∈ children) (inside : HasPart child part) :
      HasPart (.group children categories) part

/-- All groups of an expression have two or three children, and its leaves are no search texts and
no stubs. -/
structure Sound (expr : Expr) : Prop where
  groups : ∀ children categories, expr.HasPart (.group children categories) →
    children.length = 2 ∨ children.length = 3
  leaves : ∀ leaf ∈ expr.leaves, leaf.isPlain = true

theorem sound_group {children : List Expr} (categories : Option CategorySet)
    (sized : children.length = 2 ∨ children.length = 3) (sound : ∀ child ∈ children, child.Sound) :
    (Expr.group children categories).Sound where
  groups others known isPart := by
    cases isPart with
    | self => exact sized
    | child member inside => exact (sound _ member).groups others known inside
  leaves leaf member := by
    obtain ⟨child, inChildren, inside⟩ := mem_leavesOf.mp member
    exact (sound child inChildren).leaves leaf inside

theorem sound_leaf {leaf : Expr} (noGroup : ∀ children categories, leaf ≠ .group children categories)
    (alone : leaf.leaves = [leaf]) (plain : leaf.isPlain = true) : leaf.Sound where
  groups children categories isPart := by
    cases isPart with
    | self => exact absurd rfl (noGroup children categories)
    | child _ _ => exact absurd rfl (noGroup _ _)
  leaves other member := by
    rw [alone] at member
    rwa [List.mem_singleton.mp member]

end Expr

namespace Evaluator

variable {evaluator : Evaluator} {answers : String → Option (Except EvalError SymbolSet)}
  {expr : Expr} {set : SymbolSet} {depth : Nat} {source target : String}

/-- A group that has a meaning has two or three children, and all of them have one. -/
theorem children_of_follow {children : List Expr} {categories : Option CategorySet}
    (found : (evaluator.meaning (.group children categories)).follow answers = some (.ok set)) :
    (children.length = 2 ∨ children.length = 3) ∧
      ∀ child ∈ children, ∃ part, (evaluator.meaning child).follow answers = some (.ok part) := by
  obtain ⟨left, right, rfl⟩ | ⟨left, middle, right, rfl⟩ := group_of_follow found
  · obtain ⟨operand, argument, leftFound, rightFound, _⟩ := follow_pair.mp found
    refine ⟨.inl rfl, ?_⟩
    simp only [List.forall_mem_cons]
    exact ⟨⟨operand, leftFound⟩, ⟨argument, rightFound⟩, List.forall_mem_nil _⟩
  · obtain ⟨operator, x, y, middleFound, leftFound, rightFound, _⟩ := follow_triple.mp found
    refine ⟨.inr rfl, ?_⟩
    simp only [List.forall_mem_cons]
    exact ⟨⟨x, leftFound⟩, ⟨operator, middleFound⟩, ⟨y, rightFound⟩, List.forall_mem_nil _⟩

/-- Whatever has a meaning is sound. -/
theorem sound_of_follow (found : (evaluator.meaning expr).follow answers = some (.ok set)) :
    expr.Sound := by
  induction expr using Expr.nestedInduction generalizing set with
  | keyword _ | number _ | reference _ => exact Expr.sound_leaf (by simp) rfl rfl
  | search _ | stub _ _ => simp [meaning, Inquiry.fail] at found
  | group children categories ih =>
      obtain ⟨sized, all⟩ := children_of_follow found
      refine Expr.sound_group categories sized fun child member => ?_
      obtain ⟨part, partFound⟩ := all child member
      exact ih child member partFound

/-- Whatever has a meaning has it from an answer to each name that it mentions. -/
theorem answered_of_mentions (found : (evaluator.meaning expr).follow answers = some (.ok set))
    (mentions : expr.Mentions target) : ∃ answer, answers target = some (.ok answer) := by
  induction expr using Expr.nestedInduction generalizing set with
  | keyword _ | number _ => cases List.mem_singleton.mp mentions
  | search _ | stub _ _ => simp [meaning, Inquiry.fail] at found
  | reference id =>
      cases List.mem_singleton.mp mentions
      rw [meaning, Inquiry.follow_get] at found
      exact ⟨set, found⟩
  | group children categories ih =>
      obtain ⟨child, member, inside⟩ := Expr.mem_leavesOf.mp mentions
      obtain ⟨part, partFound⟩ := (children_of_follow found).2 child member
      exact ih child member partFound inside

/-- A name has a meaning that settles at a depth. -/
def MeantWithin (evaluator : Evaluator) (depth : Nat) (id : String) : Prop :=
  ∃ set, evaluator.resolver.within depth id = some (.ok set)

theorem MeantWithin.sound (meant : evaluator.MeantWithin depth source) :
    ∃ expr, evaluator.graph.get? source = some expr ∧ expr.Sound := by
  obtain ⟨set, settled⟩ := meant
  obtain ⟨expr, earlier, _, found, follows⟩ := Resolver.item_of_within settled
  exact ⟨expr, found, sound_of_follow follows⟩

/-- The names that an expression refers to have their meanings before its own name. -/
theorem MeantWithin.refers (meant : evaluator.MeantWithin depth source)
    (refers : evaluator.graph.Refers source target) :
    ∃ earlier < depth, evaluator.MeantWithin earlier target := by
  obtain ⟨set, settled⟩ := meant
  obtain ⟨expr, mentioned, mentions⟩ := refers
  obtain ⟨item, earlier, before, found, follows⟩ := Resolver.item_of_within settled
  cases (show evaluator.graph.get? source = some item from found).symm.trans mentioned
  exact ⟨earlier, before, answered_of_mentions follows mentions⟩

theorem MeantWithin.reaches (meant : evaluator.MeantWithin depth source)
    (reaches : evaluator.graph.Reaches source target) :
    ∃ earlier ≤ depth, evaluator.MeantWithin earlier target := by
  induction reaches with
  | refl => exact ⟨depth, Nat.le_refl depth, meant⟩
  | tail _ refers ih =>
      obtain ⟨between, below, meantBetween⟩ := ih
      obtain ⟨earlier, before, meantEarlier⟩ := meantBetween.refers refers
      exact ⟨earlier, by omega, meantEarlier⟩

/-- A name with a meaning does not come back to itself: its meaning would have to settle before it
settles. -/
theorem MeantWithin.not_transGen_self (meant : evaluator.MeantWithin depth source) :
    ¬ Relation.TransGen evaluator.graph.Refers source source := by
  intro round
  obtain ⟨next, refers, back⟩ := Relation.TransGen.head'_iff.mp round
  induction depth using Nat.strongRecOn with
  | ind depth ih =>
      obtain ⟨between, before, meantNext⟩ := meant.refers refers
      obtain ⟨earlier, below, meantAgain⟩ := meantNext.reaches back
      exact ih earlier (by omega) meantAgain

/-- A name is answered with a meaning only if everything it reaches is in order.  Whatever else the
evaluator has been asked, before or since, each name that is reached has a sound expression, is
answered with a meaning as well, and does not come back to itself. -/
theorem answer_strict_in_reachable (evaluator : Evaluator) (earlier : List Query) {id : String}
    {set : SymbolSet} (answered : evaluator.answerAfter earlier (.name id) = .ok set) :
    ∀ target, evaluator.graph.Reaches id target →
      (∃ expr, evaluator.graph.get? target = some expr ∧ expr.Sound) ∧
      (∃ meaning, ∀ session, evaluator.answerAfter session (.name target) = .ok meaning) ∧
      ¬ Relation.TransGen evaluator.graph.Refers target target := by
  intro target reaches
  obtain ⟨depth, settled⟩ := answerAfter_eq_ok_iff.mp answered
  have meant : evaluator.MeantWithin depth id := ⟨set, by simpa [search] using settled⟩
  obtain ⟨below, _, meantTarget⟩ := meant.reaches reaches
  refine ⟨meantTarget.sound, ?_, meantTarget.not_transGen_self⟩
  obtain ⟨meaning, settledTarget⟩ := meantTarget
  refine ⟨meaning, fun session => answerAfter_eq_ok_iff.mpr ⟨below, ?_⟩⟩
  simpa [search] using settledTarget

theorem negatePlusSelfTwice_reaches_five : Graph.negatePlusSelfTwice.Reaches "x" "five" :=
  .single ⟨_, rfl, by simp [Expr.Mentions, Expr.leaves, Expr.leavesOf]⟩

/-- The value rests on the number inside the inner group, although the failures of two other names
came before. -/
theorem negatePlusSelfTwice_strict :
    (Evaluator.mk .standard .negatePlusSelfTwice).answerAfter [.name "round", .name "absent"]
        (.name "x") = .ok (.single (.noun (Formula.number 5).negatePlusSelf.negatePlusSelf)) ∧
      Graph.negatePlusSelfTwice.Reaches "x" "five" ∧
      (∃ expr, Graph.negatePlusSelfTwice.get? "five" = some expr ∧ expr.Sound) ∧
      (∃ meaning, ∀ session, (Evaluator.mk .standard .negatePlusSelfTwice).answerAfter session
        (.name "five") = .ok meaning) ∧
      ¬ Relation.TransGen Graph.negatePlusSelfTwice.Refers "five" "five" := by
  have answered : (Evaluator.mk .standard .negatePlusSelfTwice).answerAfter
      [.name "round", .name "absent"] (.name "x") = _ :=
    answerAfter_eq_ok_iff_means.mpr means_negatePlusSelfTwice
  exact ⟨answered, negatePlusSelfTwice_reaches_five,
    answer_strict_in_reachable _ _ answered "five" negatePlusSelfTwice_reaches_five⟩

end Evaluator

end Tacit
