import ContinuousQuery.Proofs.BuiltTrees

/-!
The algebra below a node of a tree. It names the nodes it is made of, and these determine
it. In a consistent tree they are pairwise different, each of them knows the side of the
join above it, and the names it binds can be computed from the operators below it.
-/

namespace ContinuousQuery

namespace Tree

/-- An algebra whose operators are those of the nodes that it is labelled by. -/
inductive Represents (tree : Tree) : Algebra NodeId → Prop
  | pattern {id : NodeId} {triple : TriplePattern}
      (found : tree.operator? id = some (.pattern triple)) : Represents tree (.pattern id triple)
  | unary {id : NodeId} {kind : UnaryKind} {operand : Algebra NodeId}
      (found : tree.operator? id = some (.unary kind operand.label))
      (inner : Represents tree operand) : Represents tree (.unary id kind operand)
  | binary {id : NodeId} {kind : BinaryKind} {left right : Algebra NodeId}
      (found : tree.operator? id = some (.binary kind left.label right.label))
      (first : Represents tree left) (second : Represents tree right) :
      Represents tree (.binary id kind left right)
  | unsupported {id : NodeId} {name : String}
      (found : tree.operator? id = some (.unsupported name)) :
      Represents tree (.unsupported id name)

theorem Represents.push {tree : Tree} {operator : Operator NodeId} {algebra : Algebra NodeId}
    (represents : tree.Represents algebra)
    (present : ∀ operand ∈ operator.operands, operand.index < tree.size) :
    (tree.push operator present).Represents algebra := by
  have kept : ∀ id shape, tree.operator? id = some shape →
      (tree.push operator present).operator? id = some shape :=
    fun id shape found => (operator?_push_of_lt (index_lt_of_operator? found)).trans found
  induction represents with
  | pattern found => exact .pattern (kept _ _ found)
  | unary found _ ih => exact .unary (kept _ _ found) ih
  | binary found _ _ left right => exact .binary (kept _ _ found) left right
  | unsupported found => exact .unsupported (kept _ _ found)

theorem label_below (tree : Tree) (index : Nat) (inside : index < tree.nodes.length) :
    (tree.below index inside).label = ⟨index⟩ := by
  unfold below
  split <;> rfl

theorem represents_below (tree : Tree) (index : Nat) (inside : index < tree.nodes.length) :
    tree.Represents (tree.below index inside) := by
  induction index using Nat.strongRecOn with
  | ind index ih =>
    have found : tree.operator? ⟨index⟩ = some tree.nodes[index].operator := by
      rw [operator?, node?, List.getElem?_eq_getElem inside]
      rfl
    have before : ∀ operand ∈ tree.nodes[index].operator.operands, operand.index < index :=
      fun _ => operand_lt found
    unfold below
    split
    next triple shape => exact .pattern (shape ▸ found)
    next kind operand shape =>
      have smaller := before operand (by simp [shape, Operator.operands])
      refine .unary ?_ (ih operand.index smaller (Nat.lt_trans smaller inside))
      rw [label_below, found, shape]
    next kind left right shape =>
      have leftSmaller := before left (by simp [shape, Operator.operands])
      have rightSmaller := before right (by simp [shape, Operator.operands])
      refine .binary ?_ (ih left.index leftSmaller (Nat.lt_trans leftSmaller inside))
        (ih right.index rightSmaller (Nat.lt_trans rightSmaller inside))
      rw [label_below, label_below, found, shape]
    next name shape => exact .unsupported (shape ▸ found)

theorem Represents.eq_of_label_eq {tree : Tree} {first second : Algebra NodeId}
    (left : tree.Represents first) (right : tree.Represents second)
    (same : first.label = second.label) : first = second := by
  have operators : tree.operator? first.label = tree.operator? second.label := by rw [same]
  induction left generalizing second with
  | pattern found =>
    cases right with
    | _ other => simp_all [Algebra.label]
  | unsupported found =>
    cases right with
    | _ other => simp_all [Algebra.label]
  | unary found inner ih =>
    cases right with
    | unary other operand =>
      simp only [Algebra.label] at same operators
      rw [found, other] at operators
      simp only [Option.some.injEq, Operator.unary.injEq] at operators
      rw [same, operators.1, ih operand operators.2 (by rw [operators.2])]
    | _ other => simp_all [Algebra.label]
  | binary found _ _ first second =>
    cases right with
    | binary other left right =>
      simp only [Algebra.label] at same operators
      rw [found, other] at operators
      simp only [Option.some.injEq, Operator.binary.injEq] at operators
      rw [same, operators.1, first left operators.2.1 (by rw [operators.2.1]),
        second right operators.2.2 (by rw [operators.2.2])]
    | _ other => simp_all [Algebra.label]

theorem algebra?_eq_some_iff {tree : Tree} {algebra : Algebra NodeId} :
    tree.algebra? = some algebra ↔ tree.Represents algebra ∧ tree.root? = some algebra.label := by
  unfold algebra?
  cases top : tree.root? with
  | none => simp
  | some root =>
    by_cases inside : root.index < tree.nodes.length
    · simp only [inside, dite_true, Option.some.injEq]
      constructor
      · rintro rfl
        exact ⟨represents_below .., (label_below ..).symm⟩
      · intro both
        obtain ⟨represents, here⟩ := both
        exact (represents_below ..).eq_of_label_eq represents ((label_below ..).trans here)
    · simp only [inside, dite_false, reduceCtorEq, Option.some.injEq, false_iff, not_and]
      rintro represents rfl
      obtain ⟨operator, found⟩ : ∃ operator, tree.operator? algebra.label = some operator := by
        cases represents with
        | _ found => exact ⟨_, found⟩
      exact inside (index_lt_of_operator? found)

theorem parent?_of_root? {tree : Tree} {root : NodeId} (top : tree.root? = some root) :
    tree.parent? root = none := by
  unfold root? at top
  split at top
  next node last =>
    split at top
    next unattached =>
      cases top
      rw [List.getLast?_eq_getElem?] at last
      rw [parent?, node?, size, last]
      exact Option.isNone_iff_eq_none.mp unattached
    next => cases top
  next => cases top

theorem Represents.index_le {tree : Tree} {algebra : Algebra NodeId}
    (represents : tree.Represents algebra) :
    ∀ id ∈ algebra.labels, id.index ≤ algebra.label.index := by
  induction represents with
  | pattern found => simp [Algebra.labels, Algebra.label]
  | unsupported found => simp [Algebra.labels, Algebra.label]
  | unary found _ ih =>
    intro id member
    rcases List.mem_cons.mp member with here | below
    · exact here ▸ Nat.le_refl _
    · exact Nat.le_trans (ih id below)
        (Nat.le_of_lt (operand_lt found (by simp [Operator.operands])))
  | binary found _ _ left right =>
    intro id member
    rcases List.mem_cons.mp member with here | below
    · exact here ▸ Nat.le_refl _
    rcases List.mem_append.mp below with first | second
    · exact Nat.le_trans (left id first)
        (Nat.le_of_lt (operand_lt found (by simp [Operator.operands])))
    · exact Nat.le_trans (right id second)
        (Nat.le_of_lt (operand_lt found (by simp [Operator.operands])))

namespace Consistent

variable {tree : Tree}

theorem parent?_of_operand (consistent : tree.Consistent) {id operand : NodeId}
    {operator : Operator NodeId} (found : tree.operator? id = some operator)
    (member : operand ∈ operator.operands) : tree.parent? operand = some id :=
  (consistent.parents operand id).mpr ⟨operator, found, member⟩

theorem parent?_of_mem_labels (consistent : tree.Consistent) {algebra : Algebra NodeId}
    (represents : tree.Represents algebra) {id : NodeId} (member : id ∈ algebra.labels)
    (below : id ≠ algebra.label) : ∃ parent ∈ algebra.labels, tree.parent? id = some parent := by
  induction represents with
  | pattern found => exact absurd (List.mem_singleton.mp member) below
  | unsupported found => exact absurd (List.mem_singleton.mp member) below
  | @unary top kind lower found inner ih =>
    have inside := (List.mem_cons.mp member).resolve_left below
    by_cases here : id = lower.label
    · have operand : id ∈ (Operator.unary kind lower.label).operands := by
        simp [here, Operator.operands]
      have parent := consistent.parent?_of_operand found operand
      exact ⟨top, List.mem_cons_self, parent⟩
    · obtain ⟨parent, known, attached⟩ := ih inside here
      exact ⟨parent, List.mem_cons_of_mem _ known, attached⟩
  | @binary top kind left right found _ _ leftIh rightIh =>
    by_cases here : id = left.label ∨ id = right.label
    · have operand : id ∈ (Operator.binary kind left.label right.label).operands := by
        simpa [Operator.operands] using here
      have parent := consistent.parent?_of_operand found operand
      exact ⟨top, List.mem_cons_self, parent⟩
    · obtain ⟨notLeft, notRight⟩ := not_or.mp here
      rcases List.mem_append.mp ((List.mem_cons.mp member).resolve_left below) with first | second
      · obtain ⟨parent, inside, attached⟩ := leftIh first notLeft
        exact ⟨parent, List.mem_cons_of_mem _ (List.mem_append_left _ inside), attached⟩
      · obtain ⟨parent, inside, attached⟩ := rightIh second notRight
        exact ⟨parent, List.mem_cons_of_mem _ (List.mem_append_right _ inside), attached⟩

/-- Two operands of one node share no node. A shared one would make its parent shared as well, up
to the topmost nodes of the operands, whose parent lies in neither of them. -/
theorem disjoint_labels (consistent : tree.Consistent) {top : NodeId} {kind : BinaryKind}
    {left right : Algebra NodeId}
    (found : tree.operator? top = some (.binary kind left.label right.label))
    (first : tree.Represents left) (second : tree.Represents right) :
    List.Disjoint left.labels right.labels := by
  have different : left.label ≠ right.label := by
    have nodup := consistent.distinct top _ found
    simpa [Operator.operands] using nodup
  have outside : ∀ operand, tree.Represents operand →
      operand.label ∈ [left.label, right.label] → top ∉ operand.labels := by
    intro operand represents member inside
    have above := represents.index_le top inside
    have before := operand_lt found member
    omega
  have attached : ∀ operand ∈ [left.label, right.label], tree.parent? operand = some top :=
    fun operand member => consistent.parent?_of_operand found member
  intro id onLeft onRight
  induction bound : tree.size - id.index using Nat.strongRecOn generalizing id with
  | ind bound ih =>
    by_cases isLeft : id = left.label
    · obtain ⟨parent, inside, same⟩ :=
        consistent.parent?_of_mem_labels second onRight (isLeft ▸ different)
      rw [isLeft, attached _ (by simp)] at same
      cases same
      exact outside right second (by simp) inside
    · by_cases isRight : id = right.label
      · obtain ⟨parent, inside, same⟩ := consistent.parent?_of_mem_labels first onLeft isLeft
        rw [isRight, attached _ (by simp)] at same
        cases same
        exact outside left first (by simp) inside
      · obtain ⟨parent, inLeft, same⟩ := consistent.parent?_of_mem_labels first onLeft isLeft
        obtain ⟨other, inRight, again⟩ := consistent.parent?_of_mem_labels second onRight isRight
        have parents : parent = other := Option.some.inj (same.symm.trans again)
        obtain ⟨operator, shape, uses⟩ := (consistent.parents id parent).mp same
        have above := operand_lt shape uses
        have known := index_lt_of_operator? shape
        exact ih (tree.size - parent.index) (by omega) inLeft (parents ▸ inRight) rfl

theorem nodup_labels (consistent : tree.Consistent) {algebra : Algebra NodeId}
    (represents : tree.Represents algebra) : algebra.labels.Nodup := by
  induction represents with
  | pattern found => exact List.nodup_singleton _
  | unsupported found => exact List.nodup_singleton _
  | unary found inner ih =>
    refine List.nodup_cons.mpr ⟨fun member => ?_, ih⟩
    have above := inner.index_le _ member
    have before := operand_lt found (List.mem_singleton.mpr rfl)
    omega
  | binary found first second left right =>
    refine List.nodup_cons.mpr ⟨fun member => ?_,
      left.append right (consistent.disjoint_labels found first second)⟩
    rcases List.mem_append.mp member with below | below
    · have above := first.index_le _ below
      have before := operand_lt found (List.mem_cons_self)
      omega
    · have above := second.index_le _ below
      have before := operand_lt found (List.mem_cons_of_mem _ (List.mem_singleton.mpr rfl))
      omega

theorem names_of_operator? (consistent : tree.Consistent) {id : NodeId}
    {operator : Operator NodeId} (found : tree.operator? id = some operator) :
    tree.names id = operator.bindingNames tree.names := by
  obtain ⟨node, present, rfl⟩ := Option.map_eq_some_iff.mp found
  rw [← consistent.names id node present, Tree.names, present]
  rfl

theorem names_label (consistent : tree.Consistent) {algebra : Algebra NodeId}
    (represents : tree.Represents algebra) : tree.names algebra.label = algebra.names := by
  induction represents with
  | pattern found => exact consistent.names_of_operator? found
  | unsupported found => exact consistent.names_of_operator? found
  | unary found _ ih =>
    rw [Algebra.label, consistent.names_of_operator? found, Operator.bindingNames, ih]
    rfl
  | binary found _ _ left right =>
    rw [Algebra.label, consistent.names_of_operator? found, Operator.bindingNames, left, right]
    rfl

theorem side?_of_parent {id parent : NodeId} {operator : Operator NodeId}
    (attached : tree.parent? id = some parent) (found : tree.operator? parent = some operator) :
    tree.side? id = operator.binaryOperands?.bind (fun operands =>
      if operands.1 = id then some .left else if operands.2 = id then some .right else none) := by
  obtain ⟨node, present, rfl⟩ := Option.map_eq_some_iff.mp found
  simp only [side?, attached, present, Option.bind_eq_bind, Option.bind_some]

theorem side?_unary (consistent : tree.Consistent) {id operand : NodeId} {kind : UnaryKind}
    (found : tree.operator? id = some (.unary kind operand)) : tree.side? operand = none :=
  side?_of_parent (consistent.parent?_of_operand found (List.mem_singleton.mpr rfl)) found

theorem side?_left (consistent : tree.Consistent) {id left right : NodeId} {kind : BinaryKind}
    (found : tree.operator? id = some (.binary kind left right)) :
    tree.side? left = some .left := by
  rw [side?_of_parent (consistent.parent?_of_operand found List.mem_cons_self) found]
  simp [Operator.binaryOperands?]

theorem side?_right (consistent : tree.Consistent) {id left right : NodeId} {kind : BinaryKind}
    (found : tree.operator? id = some (.binary kind left right)) :
    tree.side? right = some .right := by
  have different : left ≠ right := by
    simpa [Operator.operands] using consistent.distinct id _ found
  rw [side?_of_parent (consistent.parent?_of_operand found
    (List.mem_cons_of_mem _ (List.mem_singleton.mpr rfl))) found]
  simp [Operator.binaryOperands?, different]

end Consistent

theorem side?_root {tree : Tree} {root : NodeId} (top : tree.root? = some root) :
    tree.side? root = none := by
  rw [side?, parent?_of_root? top]
  rfl

end Tree

end ContinuousQuery
