import ContinuousQuery.Algebra.Lowering
import ContinuousQuery.Proofs.OperatorTrees

/-!
Trees of graph patterns. Lowering adds operators one by one, so the tree of a graph pattern is
built like any other. Read from its root it is the algebra of the pattern, with a label at
every operator.
-/

namespace ContinuousQuery

def Algebra.unlabelled {ι : Type} : Algebra ι → Algebra Unit
  | .pattern _ triple => .pattern () triple
  | .unary _ kind operand => .unary () kind operand.unlabelled
  | .binary _ kind left right => .binary () kind left.unlabelled right.unlabelled
  | .unsupported _ name => .unsupported () name

theorem Algebra.unlabelled_eq_self (algebra : Algebra Unit) : algebra.unlabelled = algebra := by
  induction algebra with
  | pattern => rfl
  | unary _ _ _ ih => rw [unlabelled, ih]
  | binary _ _ _ _ left right => rw [unlabelled, left, right]
  | unsupported => rfl

namespace Tree

/-- Operators have been added to a tree without a change to what was there. -/
structure GrewFrom (tree grown : Tree) : Prop where
  built : grown.Built
  size_le : tree.size ≤ grown.size
  parents : ∀ id : NodeId, id.index < tree.size → grown.parent? id = tree.parent? id
  represents : ∀ other, tree.Represents other → grown.Represents other

theorem GrewFrom.trans {first second third : Tree} (left : GrewFrom first second)
    (right : GrewFrom second third) : GrewFrom first third where
  built := right.built
  size_le := Nat.le_trans left.size_le right.size_le
  parents := fun id older =>
    (right.parents id (Nat.lt_of_lt_of_le older left.size_le)).trans (left.parents id older)
  represents := fun other old => right.represents other (left.represents other old)

theorem GrewFrom.push {tree middle : Tree} (grew : GrewFrom tree middle)
    {operator : Operator NodeId} (free : middle.Free operator.operands)
    (newer : ∀ operand ∈ operator.operands, tree.size ≤ operand.index) :
    GrewFrom tree (middle.push operator (fun operand member => (free.2 operand member).1)) where
  built := .add grew.built (add_eq_ok_iff.mpr ⟨free, rfl⟩)
  size_le := Nat.le_trans grew.size_le (Nat.le_of_lt (size_lt_push ..))
  parents := by
    intro id older
    have elsewhere : id ∉ operator.operands := fun member => by
      have bound := newer id member
      omega
    rw [parent?_push_of_lt (Nat.lt_of_lt_of_le older grew.size_le), if_neg elsewhere,
      grew.parents id older]
  represents := fun other old => (grew.represents other old).push _

theorem parent?_lastId_push {tree : Tree} {operator : Operator NodeId}
    {present : ∀ operand ∈ operator.operands, operand.index < tree.size} :
    (tree.push operator present).parent? (tree.push operator present).lastId = none := by
  rw [lastId_push, parent?_push_nextId]

structure Grafted {ι : Type} (tree grown : Tree) (algebra : Algebra ι) : Prop
    extends GrewFrom tree grown where
  larger : tree.size < grown.size
  root : grown.parent? grown.lastId = none
  labelled : ∃ copy, grown.Represents copy ∧ copy.label = grown.lastId ∧
    copy.unlabelled = algebra.unlabelled

theorem Grafted.size_le_lastId {ι : Type} {tree grown : Tree} {algebra : Algebra ι}
    (grafted : Grafted tree grown algebra) :
    tree.size ≤ grown.lastId.index ∧ grown.lastId.index < grown.size := by
  have larger := grafted.larger
  simp only [lastId]
  omega

theorem GrewFrom.refl {tree : Tree} (built : tree.Built) : GrewFrom tree tree :=
  ⟨built, Nat.le_refl _, fun _ _ => rfl, fun _ old => old⟩

theorem GrewFrom.grafted_push {ι : Type} {tree middle : Tree} (grew : GrewFrom tree middle)
    {operator : Operator NodeId} (free : middle.Free operator.operands)
    (newer : ∀ operand ∈ operator.operands, tree.size ≤ operand.index) {algebra : Algebra ι}
    (labelled : ∃ copy, (middle.push operator
        (fun operand member => (free.2 operand member).1)).Represents copy ∧
      copy.label = middle.nextId ∧ copy.unlabelled = algebra.unlabelled) :
    Grafted tree (middle.push operator (fun operand member => (free.2 operand member).1))
      algebra where
  toGrewFrom := grew.push free newer
  larger := Nat.lt_of_le_of_lt grew.size_le (size_lt_push ..)
  root := parent?_lastId_push
  labelled := by
    rw [lastId_push]
    exact labelled

theorem grafted_graft {ι : Type} (algebra : Algebra ι) {tree : Tree} (built : tree.Built) :
    Grafted tree (tree.graft algebra).1 algebra := by
  induction algebra generalizing tree with
  | pattern _ triple =>
    have free : tree.Free (Operator.pattern triple).operands :=
      ⟨List.nodup_nil, fun _ member => by cases member⟩
    exact (GrewFrom.refl built).grafted_push free (fun _ member => by cases member)
      ⟨.pattern tree.nextId triple, .pattern operator?_push_nextId, rfl, rfl⟩
  | unsupported _ name =>
    have free : tree.Free (Operator.unsupported name).operands :=
      ⟨List.nodup_nil, fun _ member => by cases member⟩
    exact (GrewFrom.refl built).grafted_push free (fun _ member => by cases member)
      ⟨.unsupported tree.nextId name, .unsupported operator?_push_nextId, rfl, rfl⟩
  | unary _ kind operand ih =>
    have inner := ih built
    obtain ⟨newer, inside⟩ := inner.size_le_lastId
    obtain ⟨copy, represents, label, same⟩ := inner.labelled
    have free : (tree.graft operand).1.Free
        (Operator.unary kind (tree.graft operand).1.lastId).operands :=
      ⟨List.nodup_singleton _, List.forall_mem_singleton.mpr ⟨inside, inner.root⟩⟩
    refine inner.toGrewFrom.grafted_push free (List.forall_mem_singleton.mpr newer)
      ⟨.unary (tree.graft operand).1.nextId kind copy, .unary ?_ (represents.push _), rfl, ?_⟩
    · rw [label, operator?_push_nextId]
    · rw [Algebra.unlabelled, Algebra.unlabelled, same]
  | binary _ kind left right leftIh rightIh =>
    have first := leftIh built
    have second := rightIh first.built
    obtain ⟨leftNewer, leftInside⟩ := first.size_le_lastId
    obtain ⟨rightNewer, rightInside⟩ := second.size_le_lastId
    obtain ⟨leftCopy, leftRepresents, leftLabel, leftSame⟩ := first.labelled
    obtain ⟨rightCopy, rightRepresents, rightLabel, rightSame⟩ := second.labelled
    have different : (tree.graft left).1.lastId ≠ ((tree.graft left).1.graft right).1.lastId := by
      intro same
      rw [← same] at rightNewer
      omega
    have leftRoot := (second.parents _ leftInside).trans first.root
    have free : ((tree.graft left).1.graft right).1.Free (Operator.binary kind
        (tree.graft left).1.lastId ((tree.graft left).1.graft right).1.lastId).operands := by
      refine ⟨by simpa [Operator.operands] using different, ?_⟩
      simp only [Operator.operands, List.forall_mem_cons]
      exact ⟨⟨Nat.lt_of_lt_of_le leftInside second.size_le, leftRoot⟩, ⟨rightInside, second.root⟩,
        fun _ member => by cases member⟩
    refine (first.toGrewFrom.trans second.toGrewFrom).grafted_push free ?_
      ⟨.binary ((tree.graft left).1.graft right).1.nextId kind leftCopy rightCopy,
        .binary ?_ ((second.represents _ leftRepresents).push _) (rightRepresents.push _), rfl, ?_⟩
    · simp only [Operator.operands, List.forall_mem_cons]
      exact ⟨leftNewer, Nat.le_trans first.size_le rightNewer, fun _ member => by cases member⟩
    · rw [leftLabel, rightLabel, operator?_push_nextId]
    · rw [Algebra.unlabelled, Algebra.unlabelled, leftSame, rightSame]

theorem grafted_ofGraphPattern (pattern : GraphPattern) :
    Grafted empty (ofGraphPattern pattern) pattern.toAlgebra := by
  rw [ofGraphPattern_eq]
  exact grafted_graft pattern.toAlgebra .empty

theorem built_ofGraphPattern (pattern : GraphPattern) : (ofGraphPattern pattern).Built :=
  (grafted_ofGraphPattern pattern).built

theorem root?_of_lastId {tree : Tree} (nonempty : 0 < tree.size)
    (root : tree.parent? tree.lastId = none) : tree.root? = some tree.lastId := by
  have last : tree.nodes.getLast? = tree.node? tree.lastId := List.getLast?_eq_getElem? ..
  have inside : tree.lastId.index < tree.nodes.length := by
    simp only [size] at nonempty
    simp only [lastId, size]
    omega
  have found : tree.node? tree.lastId = some tree.nodes[tree.lastId.index] :=
    List.getElem?_eq_getElem inside
  rw [parent?, found] at root
  rw [root?, last, found]
  simp only [Option.isNone_iff_eq_none]
  exact if_pos root

theorem algebra?_ofGraphPattern (pattern : GraphPattern) :
    ∃ algebra, (ofGraphPattern pattern).algebra? = some algebra ∧
      algebra.unlabelled = pattern.toAlgebra := by
  have grafted := grafted_ofGraphPattern pattern
  obtain ⟨copy, represents, label, same⟩ := grafted.labelled
  refine ⟨copy, algebra?_eq_some_iff.mpr ⟨represents, ?_⟩,
    same.trans (Algebra.unlabelled_eq_self _)⟩
  rw [label]
  exact root?_of_lastId (Nat.lt_of_le_of_lt (Nat.zero_le _) grafted.larger) grafted.root

end Tree

end ContinuousQuery
