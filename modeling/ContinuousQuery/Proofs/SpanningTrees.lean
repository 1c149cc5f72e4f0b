import ContinuousQuery.Proofs.Additions
import ContinuousQuery.Proofs.Assignments
import ContinuousQuery.Proofs.OrderedMaps
import Mathlib.Data.List.Induction
import Mathlib.Data.List.Perm.Subperm

/-!
Lowering leaves one tree that spans all nodes, whatever the graph pattern is. Read from its root
it is the image of the pattern under a relation that says for each form of patterns what becomes
of it, and the names of the root are those in the scope of the pattern.
-/

namespace ContinuousQuery

namespace TriplePattern

/-- The name is that of a variable of the pattern, or the anonymous name of a blank node. -/
def Mentions (pattern : TriplePattern) (name : String) : Prop :=
  .variable name ∈ pattern.positions ∨
    ∃ label, .blank label ∈ pattern.positions ∧ anonymousName label = name

theorem mentions_iff {pattern : TriplePattern} {name : String} :
    pattern.Mentions name ↔ ∃ position ∈ pattern.positions, position.bindingName? = some name := by
  constructor
  · rintro (member | ⟨label, member, rfl⟩)
    · exact ⟨_, member, rfl⟩
    · exact ⟨_, member, rfl⟩
  · rintro ⟨position, member, named⟩
    cases position with
    | «variable» own =>
      cases named
      exact .inl member
    | blank label =>
      cases named
      exact .inr ⟨label, member, rfl⟩
    | _ => cases named

theorem mem_bindingNames_iff_mentions {pattern : TriplePattern} {name : String} :
    name ∈ pattern.bindingNames ↔ pattern.Mentions name := by
  rw [mentions_iff]
  simp [bindingNames, positions, PatternPredicate.bindingName?_toTerm, eq_comm]

end TriplePattern

namespace GraphPattern

/-- There is no operator that does what the pattern asks for at its top. -/
def isForeign : GraphPattern → Bool
  | .path _ _ | .graph _ _ | .service _ | .values _ | .group _ _ | .orderBy _ | .distinct _
  | .reduced _ | .slice _ => true
  | _ => false

inductive LowersTo : GraphPattern → Algebra Unit → Prop
  | empty : LowersTo (.basic []) (.unsupported () "EmptyBgp")
  | single (triple : TriplePattern) : LowersTo (.basic [triple]) (.pattern () triple)
  | concat {patterns : List TriplePattern} {left : Algebra Unit} (nonempty : patterns ≠ [])
      (earlier : LowersTo (.basic patterns) left) (triple : TriplePattern) :
      LowersTo (.basic (patterns ++ [triple]))
        (.binary () .naturalJoin left (.pattern () triple))
  | join {first second : GraphPattern} {left right : Algebra Unit}
      (onLeft : LowersTo first left) (onRight : LowersTo second right) :
      LowersTo (.join first second) (.binary () .naturalJoin left right)
  | leftJoin {first second : GraphPattern} {left right : Algebra Unit}
      (onLeft : LowersTo first left) (onRight : LowersTo second right) (filtered : Bool) :
      LowersTo (.leftJoin first second filtered) (.binary () (.leftOuterJoin filtered) left right)
  | union {first second : GraphPattern} {left right : Algebra Unit}
      (onLeft : LowersTo first left) (onRight : LowersTo second right) :
      LowersTo (.union first second) (.binary () .union left right)
  | minus {first second : GraphPattern} {left right : Algebra Unit}
      (onLeft : LowersTo first left) (onRight : LowersTo second right) :
      LowersTo (.minus first second) (.binary () .minus left right)
  | filter {inner : GraphPattern} {operand : Algebra Unit} (below : LowersTo inner operand) :
      LowersTo (.filter inner) (.unary () .filter operand)
  | project {inner : GraphPattern} {operand : Algebra Unit} (below : LowersTo inner operand)
      (names : List String) :
      LowersTo (.project inner names) (.unary () (.projection names) operand)
  /-- As many extensions as there are, if all of them copy names and constants. -/
  | copies {inner : GraphPattern} {operand : Algebra Unit} {elements : List Projection.Element}
      (nonempty : elements ≠ []) (maximal : inner.isExtend = false)
      (below : LowersTo inner operand) :
      LowersTo (inner.copying elements) (.unary () (.rebinding elements) operand)
  | computes {pattern : GraphPattern} (computing : pattern.computes = true) :
      LowersTo pattern (.unsupported () "Extend with a computed expression")
  | foreign {pattern : GraphPattern} (foreign : pattern.isForeign = true) :
      LowersTo pattern (.unsupported () pattern.unsupportedName)

theorem LowersTo.eq_toAlgebra {pattern : GraphPattern} {algebra : Algebra Unit}
    (lowers : pattern.LowersTo algebra) : algebra = pattern.toAlgebra := by
  induction lowers with
  | empty => rfl
  | single triple => rfl
  | concat nonempty _ triple ih =>
    rw [toAlgebra, chain_concat nonempty, ih]
    rfl
  | join _ _ left right | leftJoin _ _ _ left right | union _ _ left right
  | minus _ _ left right => rw [toAlgebra, ← left, ← right]
  | filter _ ih | project _ _ ih => rw [toAlgebra, ← ih]
  | copies nonempty maximal _ ih => rw [toAlgebra_copying maximal nonempty, ← ih]
  | computes computing => exact (toAlgebra_of_computes computing).symm
  | @foreign pattern foreign => cases pattern <;> first | rfl | cases foreign

theorem lowersTo_chain (patterns : List TriplePattern) :
    (GraphPattern.basic patterns).LowersTo (chain patterns) := by
  induction patterns using List.reverseRecOn with
  | nil => exact .empty
  | append_singleton before last ih =>
    by_cases alone : before = []
    · subst alone
      exact .single last
    · rw [chain_concat alone]
      exact .concat alone ih last

/-- The induction needs the pattern below all extensions as well, which one rebinding skips. -/
theorem lowersTo_toAlgebra (pattern : GraphPattern) :
    pattern.LowersTo pattern.toAlgebra ∧ pattern.base.LowersTo pattern.base.toAlgebra := by
  have plain : ∀ {other : GraphPattern}, other.isExtend = false →
      other.LowersTo other.toAlgebra →
        other.LowersTo other.toAlgebra ∧ other.base.LowersTo other.base.toAlgebra := by
    intro other notExtend lowers
    rw [base_of_not_extend notExtend]
    exact ⟨lowers, lowers⟩
  induction pattern with
  | basic patterns => exact plain rfl (lowersTo_chain patterns)
  | join first second left right => exact plain rfl (.join left.1 right.1)
  | leftJoin first second filtered left right =>
    exact plain rfl (.leftJoin left.1 right.1 filtered)
  | union first second left right => exact plain rfl (.union left.1 right.1)
  | minus first second left right => exact plain rfl (.minus left.1 right.1)
  | filter inner ih => exact plain rfl (.filter ih.1)
  | project inner names ih => exact plain rfl (.project ih.1 names)
  | extend inner name source ih =>
    refine ⟨?_, ih.2⟩
    have extension : (inner.extend name source).isExtend = true := rfl
    rcases copies_or_computes_of_isExtend extension with ⟨elements, nonempty, same⟩ | computing
    · rw [same, toAlgebra_copying (isExtend_base _) nonempty]
      exact .copies nonempty (isExtend_base _) ih.2
    · rw [toAlgebra_of_computes computing]
      exact .computes computing
  | _ => exact plain rfl (.foreign rfl)

theorem lowersTo_iff {pattern : GraphPattern} {algebra : Algebra Unit} :
    pattern.LowersTo algebra ↔ algebra = pattern.toAlgebra := by
  constructor
  · exact LowersTo.eq_toAlgebra
  · rintro rfl
    exact pattern.lowersTo_toAlgebra.1

/-- The name is in the scope of the pattern. Nothing is in the scope of what has no counterpart. -/
def Scope : GraphPattern → String → Prop
  | .basic patterns, name => ∃ triple ∈ patterns, triple.Mentions name
  | .join left right, name | .leftJoin left right _, name | .union left right, name =>
    left.Scope name ∨ right.Scope name
  | .minus left _, name => left.Scope name
  | .filter inner, name => inner.Scope name
  | .project _ names, name => name ∈ names
  | .extend inner target source, name =>
    (inner.extend target source).computes = false ∧ (name = target ∨ inner.Scope name)
  | _, _ => False

theorem scope_copying {inner : GraphPattern} {elements : List Projection.Element}
    (copies : inner.computes = false) {name : String} :
    (inner.copying elements).Scope name ↔
      inner.Scope name ∨ name ∈ elements.map (·.target) := by
  induction elements using List.reverseRecOn with
  | nil => simp [copying]
  | append_singleton before last ih =>
    have whole : (inner.copying (before ++ [last])).computes = false :=
      computes_copying.trans copies
    rw [copying_concat] at whole ⊢
    rw [Scope, and_iff_right whole, ih, List.map_append, List.mem_append, List.map_singleton,
      List.mem_singleton]
    tauto

theorem not_mem_names_unsupported (text name : String) :
    name ∉ (Algebra.unsupported () text).names.names := List.not_mem_nil

theorem LowersTo.mem_names_iff {pattern : GraphPattern} {algebra : Algebra Unit}
    (lowers : pattern.LowersTo algebra) {name : String} :
    name ∈ algebra.names.names ↔ pattern.Scope name := by
  induction lowers with
  | empty =>
    exact iff_of_false (not_mem_names_unsupported _ _) fun ⟨_, member, _⟩ => List.not_mem_nil member
  | single triple =>
    simp [Algebra.names, NameSet.mem_names_ofNames, Scope,
      TriplePattern.mem_bindingNames_iff_mentions]
  | concat _ _ triple ih =>
    rw [Algebra.names, BinaryKind.bindingNames, NameSet.mem_names_union, ih, Algebra.names,
      NameSet.mem_names_ofNames, TriplePattern.mem_bindingNames_iff_mentions]
    simp only [Scope, List.mem_append, List.mem_singleton, or_and_right, exists_or,
      exists_eq_left]
  | join _ _ left right | leftJoin _ _ _ left right | union _ _ left right =>
    rw [Algebra.names, BinaryKind.bindingNames, NameSet.mem_names_union, left, right, Scope]
  | minus _ _ left _ => exact left
  | filter _ ih => exact ih
  | project _ names _ => exact NameSet.mem_names_ofNames
  | @copies inner _ elements _ maximal _ ih =>
    have copies : inner.computes = false := by
      cases inner <;> first | rfl | cases maximal
    rw [Algebra.names, UnaryKind.bindingNames, NameSet.mem_names_union,
      NameSet.mem_names_ofNames, ih, scope_copying copies]
  | @computes pattern computing =>
    cases pattern with
    | extend inner binds source =>
      refine iff_of_false (not_mem_names_unsupported _ _) fun scope => ?_
      rw [Scope, computing] at scope
      exact Bool.noConfusion scope.1
    | _ => cases computing
  | @foreign pattern foreign =>
    cases pattern <;> first | exact iff_of_false (not_mem_names_unsupported _ _) id | cases foreign

end GraphPattern

namespace Algebra

variable {ι : Type}

theorem names_unlabelled (algebra : Algebra ι) : algebra.unlabelled.names = algebra.names := by
  induction algebra with
  | pattern => rfl
  | unary _ _ _ ih => rw [unlabelled, names, names, ih]
  | binary _ _ _ _ left right => rw [unlabelled, names, names, left, right]
  | unsupported => rfl

theorem length_labels_unlabelled (algebra : Algebra ι) :
    algebra.unlabelled.labels.length = algebra.labels.length := by
  induction algebra with
  | pattern => rfl
  | unary _ _ _ ih => simp only [unlabelled, labels, List.length_cons, ih]
  | binary _ _ _ _ left right =>
    simp only [unlabelled, labels, List.length_cons, List.length_append, left, right]
  | unsupported => rfl

end Algebra

namespace Tree

/-- All nodes of the tree are those of one algebra, whose topmost operator is the last one. -/
structure Spans (tree : Tree) (root : Algebra NodeId) : Prop where
  whole : tree.algebra? = some root
  last : root.label.index + 1 = tree.size
  /-- Every node occurs once. -/
  labels : root.labels.Perm ((List.range tree.size).map NodeId.mk)
  reachable : tree.reachable = (List.range tree.size).map NodeId.mk
  unattached : tree.parent? root.label = none
  /-- Every other node is an operand of its parent and of nothing else. -/
  attached : ∀ id : NodeId, id.index < root.label.index → ∃ parent,
    tree.parent? id = some parent ∧ id.index < parent.index ∧
      ∀ other operator, tree.operator? other = some operator →
        (id ∈ operator.operands ↔ other = parent)

theorem size_graft {ι : Type} (tree : Tree) (algebra : Algebra ι) :
    (tree.graft algebra).1.size = tree.size + algebra.labels.length := by
  induction algebra generalizing tree with
  | pattern => rw [graft, size_push, Algebra.labels, List.length_singleton]
  | unsupported => rw [graft, size_push, Algebra.labels, List.length_singleton]
  | unary _ _ _ ih => rw [graft, size_push, ih, Algebra.labels, List.length_cons, Nat.add_assoc]
  | binary _ _ _ _ left right =>
    rw [graft, size_push, right, left, Algebra.labels, List.length_cons, List.length_append,
      Nat.add_assoc, Nat.add_assoc, Nat.add_assoc]

theorem mem_allIds {tree : Tree} {id : NodeId} :
    id ∈ (List.range tree.size).map NodeId.mk ↔ id.index < tree.size := by
  obtain ⟨index⟩ := id
  simp

namespace Consistent

variable {tree : Tree} {root : Algebra NodeId}

theorem root_label (consistent : tree.Consistent) (whole : tree.algebra? = some root) :
    root.label = tree.lastId ∧ root.label.index + 1 = tree.size := by
  have top := (algebra?_eq_some_iff.mp whole).2
  rw [consistent.root?_eq] at top
  by_cases empty : tree.size = 0
  · rw [if_pos empty] at top
    cases top
  · rw [if_neg empty] at top
    have last := (Option.some.inj top).symm
    refine ⟨last, ?_⟩
    rw [last]
    exact Nat.sub_add_cancel (Nat.pos_of_ne_zero empty)

theorem labels_perm (consistent : tree.Consistent) (whole : tree.algebra? = some root)
    (complete : tree.size = root.labels.length) :
    root.labels.Perm ((List.range tree.size).map NodeId.mk) := by
  have represents := (algebra?_eq_some_iff.mp whole).1
  have last := (consistent.root_label whole).2
  have known : root.labels ⊆ (List.range tree.size).map NodeId.mk := by
    intro id member
    have below := represents.index_le id member
    rw [mem_allIds]
    omega
  refine (List.subperm_of_subset (consistent.nodup_labels represents) known).perm_of_length_le ?_
  rw [List.length_map, List.length_range]
  exact Nat.le_of_eq complete

theorem spans (consistent : tree.Consistent) (whole : tree.algebra? = some root)
    (complete : tree.size = root.labels.length) : tree.Spans root where
  whole := whole
  last := (consistent.root_label whole).2
  labels := consistent.labels_perm whole complete
  reachable := by
    have permuted := consistent.labels_perm whole complete
    simp only [Tree.reachable, whole]
    rw [List.filter_eq_self]
    intro id member
    exact decide_eq_true (permuted.mem_iff.mpr member)
  unattached := parent?_of_root? (algebra?_eq_some_iff.mp whole).2
  attached := by
    intro id older
    have represents := (algebra?_eq_some_iff.mp whole).1
    have last := (consistent.root_label whole).2
    have inside : id ∈ root.labels := by
      rw [(consistent.labels_perm whole complete).mem_iff, mem_allIds]
      omega
    have below : id ≠ root.label := fun same => absurd older (same ▸ Nat.lt_irrefl _)
    obtain ⟨parent, -, isParent⟩ := consistent.parent?_of_mem_labels represents inside below
    obtain ⟨operator, found, uses⟩ := (consistent.parents id parent).mp isParent
    refine ⟨parent, isParent, operand_lt found uses, fun other shape here => ?_⟩
    constructor
    · intro member
      exact Option.some.inj ((consistent.parent?_of_operand here member).symm.trans isParent)
    · rintro rfl
      cases found.symm.trans here
      exact uses

end Consistent

/-- Lowering leaves one tree that spans all nodes. It is the image of the graph pattern, and its
root, which lowering yields, holds the names in the scope of the pattern. -/
theorem ofGraphPattern_spans (pattern : GraphPattern) :
    ∃ root : Algebra NodeId,
      (Growing.lower [] pattern).run [] = .ok root.label (ofGraphPattern pattern).nodes ∧
        (ofGraphPattern pattern).Spans root ∧
        (∀ algebra, pattern.LowersTo algebra ↔ algebra = root.unlabelled) ∧
        ∀ name,
          name ∈ ((ofGraphPattern pattern).names root.label).names ↔ pattern.Scope name := by
  obtain ⟨root, whole, same⟩ := algebra?_ofGraphPattern pattern
  have consistent := (built_ofGraphPattern pattern).consistent
  have complete : (ofGraphPattern pattern).size = root.labels.length := by
    rw [← root.length_labels_unlabelled, same, ofGraphPattern_eq, size_graft]
    exact Nat.zero_add _
  refine ⟨root, ?_, consistent.spans whole complete, fun algebra => ?_, fun name => ?_⟩
  · rw [run_lower, (consistent.root_label whole).1, ofGraphPattern_eq]
  · rw [same, GraphPattern.lowersTo_iff]
  · rw [consistent.names_label (algebra?_eq_some_iff.mp whole).1, ← root.names_unlabelled, same]
    exact pattern.lowersTo_toAlgebra.1.mem_names_iff

example :
    let tree := ofGraphPattern (.extend (.extend (.union
      (.basic [⟨.variable "a", .iri "p", .variable "b"⟩, ⟨.variable "b", .iri "p", .blank "c"⟩])
      (.extend (.extend (.values ["a"]) "d" none) "e" (some (.binding "d"))))
      "f" (some (.binding "a"))) "g" (some (.binding "f")))
    tree.algebra? =
        some (.unary ⟨5⟩ (.rebinding [⟨.binding "a", "f"⟩, ⟨.binding "f", "g"⟩])
          (.binary ⟨4⟩ .union
            (.binary ⟨2⟩ .naturalJoin (.pattern ⟨0⟩ ⟨.variable "a", .iri "p", .variable "b"⟩)
              (.pattern ⟨1⟩ ⟨.variable "b", .iri "p", .blank "c"⟩))
            (.unsupported ⟨3⟩ "Extend with a computed expression"))) ∧
      (tree.names ⟨5⟩).names = ["_anon_c", "a", "b", "f", "g"] := by
  decide +kernel

end Tree

end ContinuousQuery
