import ContinuousQuery.Algebra.Operator
import ContinuousQuery.GraphPattern

/-!
The algebra of a graph pattern. A basic graph pattern becomes a chain of natural joins that leans
to the left, and nested extensions become one rebinding. What has no counterpart becomes a leaf
that names it; its operands are left out.
-/

namespace ContinuousQuery

namespace GraphPattern

def unsupportedName : GraphPattern → String
  | .path _ _ => "Path"
  | .graph _ _ => "Graph"
  | .values _ => "Values"
  | .orderBy _ => "OrderBy"
  | .distinct _ => "Distinct"
  | .reduced _ => "Reduced"
  | .slice _ => "Slice"
  | .group _ _ => "Group"
  | .service _ => "Service"
  | _ => "GraphPattern"

def isExtend : GraphPattern → Bool
  | .extend _ _ _ => true
  | _ => false

def chain : List TriplePattern → Algebra Unit
  | [] => .unsupported () "EmptyBgp"
  | first :: rest =>
    rest.foldl (fun left pattern => .binary () .naturalJoin left (.pattern () pattern))
      (.pattern () first)

theorem chain_concat {patterns : List TriplePattern} (nonempty : patterns ≠ [])
    (triple : TriplePattern) :
    chain (patterns ++ [triple]) =
      .binary () .naturalJoin (chain patterns) (.pattern () triple) := by
  cases patterns with
  | nil => exact absurd rfl nonempty
  | cons first rest =>
    rw [List.cons_append, chain, chain, List.foldl_append]
    rfl

/-- Evaluates one more element after what an inner pattern yields. If that pattern is an
extension too, its rebinding grows, and its refusal remains a refusal. -/
def rebind (inner : Algebra Unit) (innerExtends : Bool) (name : String) :
    Option Projection.Source → Algebra Unit
  | none => .unsupported () "Extend with a computed expression"
  | some source =>
    match innerExtends, inner with
    | true, .unary label (.rebinding elements) operand =>
      .unary label (.rebinding (elements ++ [⟨source, name⟩])) operand
    | true, refused => refused
    | false, operand => .unary () (.rebinding [⟨source, name⟩]) operand

def toAlgebra : GraphPattern → Algebra Unit
  | .basic patterns => chain patterns
  | .join left right => .binary () .naturalJoin left.toAlgebra right.toAlgebra
  | .leftJoin left right filtered =>
    .binary () (.leftOuterJoin filtered) left.toAlgebra right.toAlgebra
  | .union left right => .binary () .union left.toAlgebra right.toAlgebra
  | .minus left right => .binary () .minus left.toAlgebra right.toAlgebra
  | .filter inner => .unary () .filter inner.toAlgebra
  | .project inner names => .unary () (.projection names) inner.toAlgebra
  | .extend inner name source => rebind inner.toAlgebra inner.isExtend name source
  | other => .unsupported () other.unsupportedName

def copying (inner : GraphPattern) (elements : List Projection.Element) : GraphPattern :=
  elements.foldl (fun pattern element => .extend pattern element.target (some element.source))
    inner

def computes : GraphPattern → Bool
  | .extend inner _ source => source.isNone || inner.computes
  | _ => false

section Copies

variable {inner : GraphPattern} {elements : List Projection.Element}

theorem copying_concat (element : Projection.Element) :
    inner.copying (elements ++ [element]) =
      .extend (inner.copying elements) element.target (some element.source) := by
  rw [copying, List.foldl_append]
  rfl

theorem toAlgebra_copying_of_isExtend (extension : inner.isExtend = true)
    {before : List Projection.Element} {operand : Algebra Unit}
    (same : inner.toAlgebra = .unary () (.rebinding before) operand) :
    (inner.copying elements).toAlgebra = .unary () (.rebinding (before ++ elements)) operand := by
  induction elements generalizing inner before with
  | nil => rw [List.append_nil, ← same, copying, List.foldl_nil]
  | cons element rest ih =>
    have next : (inner.extend element.target (some element.source)).toAlgebra =
        .unary () (.rebinding (before ++ [element])) operand := by
      rw [toAlgebra, same, extension]
      rfl
    rw [List.append_cons, ← ih rfl next, copying, List.foldl_cons, copying]

/-- Copies one after the other become one rebinding, in the order in which they are made. -/
theorem toAlgebra_copying (other : inner.isExtend = false) (nonempty : elements ≠ []) :
    (inner.copying elements).toAlgebra = .unary () (.rebinding elements) inner.toAlgebra := by
  cases elements with
  | nil => exact absurd rfl nonempty
  | cons element rest =>
    have first : (inner.extend element.target (some element.source)).toAlgebra =
        .unary () (.rebinding [element]) inner.toAlgebra := by
      rw [toAlgebra, other]
      rfl
    exact toAlgebra_copying_of_isExtend rfl first

theorem computes_copying : (inner.copying elements).computes = inner.computes := by
  induction elements generalizing inner with
  | nil => rfl
  | cons element rest ih => exact ih

end Copies

theorem isExtend_of_computes {pattern : GraphPattern} (computing : pattern.computes = true) :
    pattern.isExtend = true := by
  cases pattern with
  | extend inner name source => rfl
  | _ => cases computing

/-- If an extension computes, nothing of the extensions and of their operand is kept. -/
theorem toAlgebra_of_computes {pattern : GraphPattern} (computing : pattern.computes = true) :
    pattern.toAlgebra = .unsupported () "Extend with a computed expression" := by
  induction pattern with
  | extend inner name source ih =>
    cases source with
    | none => rfl
    | some source =>
      have below : inner.computes = true := computing
      rw [toAlgebra, ih below, isExtend_of_computes below]
      rfl
  | _ => cases computing

def base : GraphPattern → GraphPattern
  | .extend inner _ _ => inner.base
  | other => other

theorem isExtend_base (pattern : GraphPattern) : pattern.base.isExtend = false := by
  fun_induction base pattern with
  | case1 inner name source ih => exact ih
  | case2 other different =>
    cases other with
    | extend inner name source => exact (different inner name source rfl).elim
    | _ => rfl

theorem base_of_not_extend {pattern : GraphPattern} (other : pattern.isExtend = false) :
    pattern.base = pattern := by
  cases pattern with
  | extend inner name source => cases other
  | _ => rfl

theorem copies_or_computes (pattern : GraphPattern) :
    (∃ elements, pattern = pattern.base.copying elements) ∨ pattern.computes = true := by
  induction pattern with
  | extend inner name source ih =>
    cases source with
    | none => exact .inr rfl
    | some source =>
      rcases ih with ⟨elements, same⟩ | computing
      · refine .inl ⟨elements ++ [⟨source, name⟩], ?_⟩
        rw [copying_concat, base, ← same]
      · exact .inr computing
  | _ => exact .inl ⟨[], rfl⟩

theorem copies_or_computes_of_isExtend {pattern : GraphPattern}
    (extension : pattern.isExtend = true) :
    (∃ elements, elements ≠ [] ∧ pattern = pattern.base.copying elements) ∨
      pattern.computes = true := by
  refine pattern.copies_or_computes.imp_left fun copies => ?_
  obtain ⟨elements, same⟩ := copies
  refine ⟨elements, ?_, same⟩
  rintro rfl
  have plain : pattern.isExtend = false := same ▸ pattern.isExtend_base
  exact absurd extension (by simp [plain])

end GraphPattern

end ContinuousQuery
