import ContinuousQuery.Algebra.Growth
import ContinuousQuery.Algebra.Translation

/-!
From graph patterns to operator trees. The operators of a graph pattern are added without any
inspection, operands before the operator and left before right. They are those of the algebra of
the pattern, and nothing else is added.
-/

namespace ContinuousQuery

namespace Growing

def unary (kind : UnaryKind) (operand : Growing NodeId) : Growing NodeId := do
  append (.unary kind (← operand))

def binary (kind : BinaryKind) (left right : Growing NodeId) : Growing NodeId := do
  let left ← left
  let right ← right
  append (.binary kind left right)

def joinAll (patterns : List TriplePattern) (first : NodeId) : Growing NodeId :=
  patterns.foldlM (fun left triple => do
    let right ← append (.pattern triple)
    append (.binary .naturalJoin left right)) first

def lowerBasic : List TriplePattern → Growing NodeId
  | [] => append (.unsupported "EmptyBgp")
  | first :: rest => do joinAll rest (← append (.pattern first))

def rebinding (elements : List Projection.Element) (operand : Growing NodeId) : Growing NodeId :=
  if elements.isEmpty then operand else unary (.rebinding elements) operand

/-- Adds the operators of a graph pattern and of the extensions right above it, whose elements are
given from the innermost to the outermost. -/
def lower (elements : List Projection.Element) : GraphPattern → Growing NodeId
  | .extend inner name (some source) => lower (⟨source, name⟩ :: elements) inner
  | .extend _ _ none => append (.unsupported "Extend with a computed expression")
  | .basic patterns => rebinding elements (lowerBasic patterns)
  | .join left right => rebinding elements (binary .naturalJoin (lower [] left) (lower [] right))
  | .leftJoin left right filtered =>
    rebinding elements (binary (.leftOuterJoin filtered) (lower [] left) (lower [] right))
  | .union left right => rebinding elements (binary .union (lower [] left) (lower [] right))
  | .minus left right => rebinding elements (binary .minus (lower [] left) (lower [] right))
  | .filter inner => rebinding elements (unary .filter (lower [] inner))
  | .project inner names => rebinding elements (unary (.projection names) (lower [] inner))
  | other => rebinding elements (append (.unsupported other.unsupportedName))

end Growing

namespace Tree

def lastId (tree : Tree) : NodeId := ⟨tree.size - 1⟩

theorem lastId_lt {tree grown : Tree} (grew : tree.size < grown.size) :
    grown.lastId.index < grown.size := by
  simp only [lastId]
  omega

theorem unary_present {tree grown : Tree} (grew : tree.size < grown.size) (kind : UnaryKind) :
    ∀ operand ∈ (Operator.unary kind grown.lastId).operands, operand.index < grown.size := by
  simpa only [Operator.operands, List.mem_singleton, forall_eq] using lastId_lt grew

theorem binary_present {tree middle grown : Tree} (first : tree.size < middle.size)
    (second : middle.size < grown.size) (kind : BinaryKind) :
    ∀ operand ∈ (Operator.binary kind middle.lastId grown.lastId).operands,
      operand.index < grown.size := by
  simp only [Operator.operands, List.mem_cons, List.not_mem_nil, or_false, forall_eq_or_imp,
    forall_eq]
  exact ⟨Nat.lt_trans (lastId_lt first) second, lastId_lt second⟩

theorem leaf_present {tree : Tree} {operator : Operator NodeId} (leaf : operator.operands = []) :
    ∀ operand ∈ operator.operands, operand.index < tree.size := by
  simp [leaf]

def graft {ι : Type} (tree : Tree) : Algebra ι → { grown : Tree // tree.size < grown.size }
  | .pattern _ triple => ⟨tree.push (.pattern triple) (leaf_present rfl), size_lt_push ..⟩
  | .unary _ kind operand =>
    let inner := tree.graft operand
    ⟨inner.1.push (.unary kind inner.1.lastId) (unary_present inner.2 kind),
      Nat.lt_trans inner.2 (size_lt_push ..)⟩
  | .binary _ kind left right =>
    let first := tree.graft left
    let second := first.1.graft right
    ⟨second.1.push (.binary kind first.1.lastId second.1.lastId)
        (binary_present first.2 second.2 kind),
      Nat.lt_trans (Nat.lt_trans first.2 second.2) (size_lt_push ..)⟩
  | .unsupported _ name => ⟨tree.push (.unsupported name) (leaf_present rfl), size_lt_push ..⟩

theorem lastId_push {tree : Tree} {operator : Operator NodeId}
    {present : ∀ operand ∈ operator.operands, operand.index < tree.size} :
    (tree.push operator present).lastId = tree.nextId := by
  rw [lastId, size_push, Nat.add_sub_cancel, nextId]

end Tree

namespace Growing

/-- The work adds the operators of an algebra to any tree, and yields the node of the topmost. -/
def Grafts (work : Growing NodeId) (algebra : Algebra Unit) : Prop :=
  ∀ tree : Tree,
    work.run tree.nodes = .ok (tree.graft algebra).1.lastId (tree.graft algebra).1.nodes

theorem run_append_lastId {tree : Tree} {operator : Operator NodeId}
    (present : ∀ operand ∈ operator.operands, operand.index < tree.size) :
    (append operator).run tree.nodes =
      .ok (tree.push operator present).lastId (tree.push operator present).nodes := by
  rw [run_append present, Tree.lastId_push]

theorem grafts_pattern (triple : TriplePattern) :
    Grafts (append (.pattern triple)) (.pattern () triple) :=
  fun _ => run_append_lastId (Tree.leaf_present rfl)

theorem grafts_unsupported (name : String) :
    Grafts (append (.unsupported name)) (.unsupported () name) :=
  fun _ => run_append_lastId (Tree.leaf_present rfl)

section Operands

variable {first second : Growing NodeId} {left right : Algebra Unit}

theorem Grafts.unary (inner : Grafts first left) (kind : UnaryKind) :
    Grafts (unary kind first) (.unary () kind left) := by
  intro tree
  rw [Growing.unary, EStateM.run_bind, inner tree]
  exact run_append_lastId (Tree.unary_present (tree.graft left).2 kind)

theorem Grafts.binary (onLeft : Grafts first left) (onRight : Grafts second right)
    (kind : BinaryKind) : Grafts (binary kind first second) (.binary () kind left right) := by
  intro tree
  rw [Growing.binary, EStateM.run_bind, onLeft tree]
  simp only [EStateM.run_bind, onRight _]
  exact run_append_lastId (Tree.binary_present (tree.graft left).2 (Tree.graft _ right).2 kind)

end Operands

/-- The induction is on the patterns that are left, below what has been added for the others. -/
theorem Grafts.joinAll {work : Growing NodeId} {algebra : Algebra Unit}
    (grafts : Grafts work algebra) (patterns : List TriplePattern) :
    Grafts (do joinAll patterns (← work)) (patterns.foldl
      (fun left triple => .binary () .naturalJoin left (.pattern () triple)) algebra) := by
  induction patterns generalizing work algebra with
  | nil =>
    have same : (do Growing.joinAll [] (← work)) = work := bind_pure work
    rw [same, List.foldl_nil]
    exact grafts
  | cons triple rest ih =>
    have same : (do Growing.joinAll (triple :: rest) (← work)) = (do
        let left ← Growing.binary .naturalJoin work (append (.pattern triple))
        Growing.joinAll rest left) := by
      simp only [Growing.joinAll, Growing.binary, List.foldlM_cons, bind_assoc]
    rw [same, List.foldl_cons]
    exact ih (grafts.binary (grafts_pattern triple) .naturalJoin)

theorem grafts_lowerBasic (patterns : List TriplePattern) :
    Grafts (lowerBasic patterns) (GraphPattern.chain patterns) := by
  cases patterns with
  | nil => exact grafts_unsupported "EmptyBgp"
  | cons first rest => exact (grafts_pattern first).joinAll rest

theorem Grafts.rebinding {work : Growing NodeId} {pattern : GraphPattern}
    (inner : Grafts work pattern.toAlgebra) (other : pattern.isExtend = false)
    (elements : List Projection.Element) :
    Grafts (rebinding elements work) (pattern.copying elements).toAlgebra := by
  by_cases none : elements = []
  · subst none
    exact inner
  · rw [Growing.rebinding, if_neg (by simpa using none), GraphPattern.toAlgebra_copying other none]
    exact inner.unary _

/-- The elements that have been collected are extensions again, around what is left to be done. -/
theorem grafts_lower (elements : List Projection.Element) (pattern : GraphPattern) :
    Grafts (lower elements pattern) (pattern.copying elements).toAlgebra := by
  induction pattern generalizing elements with
  | extend inner name source ih =>
    cases source with
    | none =>
      rw [GraphPattern.toAlgebra_of_computes GraphPattern.computes_copying]
      exact grafts_unsupported _
    | some source => exact ih (⟨source, name⟩ :: elements)
  | basic patterns =>
    rw [lower]
    exact Grafts.rebinding (grafts_lowerBasic patterns) rfl elements
  | join left right onLeft onRight | union left right onLeft onRight
  | minus left right onLeft onRight | leftJoin left right filtered onLeft onRight =>
    rw [lower]
    refine Grafts.rebinding ?_ rfl elements
    rw [GraphPattern.toAlgebra]
    exact (onLeft []).binary (onRight []) _
  | filter inner ih | project inner names ih =>
    rw [lower]
    refine Grafts.rebinding ?_ rfl elements
    rw [GraphPattern.toAlgebra]
    exact (ih []).unary _
  | _ =>
    refine Grafts.rebinding ?_ rfl elements
    exact grafts_unsupported _

end Growing

namespace Tree

variable (pattern : GraphPattern)

theorem run_lower : (Growing.lower [] pattern).run [] =
    .ok (empty.graft pattern.toAlgebra).1.lastId (empty.graft pattern.toAlgebra).1.nodes :=
  Growing.grafts_lower [] pattern empty

def ofGraphPattern : Tree :=
  match done : (Growing.lower [] pattern).run [] with
  | .ok _ nodes => ⟨nodes, by
      cases (run_lower pattern).symm.trans done
      exact (empty.graft pattern.toAlgebra).1.operands_before⟩
  | .error _ _ => False.elim (by cases (run_lower pattern).symm.trans done)

theorem ofGraphPattern_eq : ofGraphPattern pattern = (empty.graft pattern.toAlgebra).1 := by
  unfold ofGraphPattern
  split
  next id nodes done =>
    cases (run_lower pattern).symm.trans done
    rfl
  next error after failed => cases (run_lower pattern).symm.trans failed

end Tree

end ContinuousQuery
