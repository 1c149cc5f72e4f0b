import ContinuousQuery.Stream.JoinState
import ContinuousQuery.Proofs.OrderedMaps
import Mathlib.Tactic.SplitIfs

/-!
The written form of a term determines the term. Quoted values can be read back, and the
first character of a text tells which kind of term it belongs to. A text contains the
separator of store keys only if an IRI, a label or a language tag of the term does.
-/

namespace ContinuousQuery

open JoinState

namespace Literal

def hexValue (digit : Char) : Nat :=
  if digit.toNat < 58 then digit.toNat - 48 else digit.toNat - 55

/-- Undoes the escapes of a text up to the first quote that is not escaped. The rest follows it. -/
def unquote : List Char → Option (List Char × List Char)
  | [] => none
  | '"' :: rest => some ([], rest)
  | '\\' :: 'b' :: rest => (unquote rest).map (Prod.map ('\x08' :: ·) id)
  | '\\' :: 't' :: rest => (unquote rest).map (Prod.map ('\t' :: ·) id)
  | '\\' :: 'n' :: rest => (unquote rest).map (Prod.map ('\n' :: ·) id)
  | '\\' :: 'f' :: rest => (unquote rest).map (Prod.map ('\x0c' :: ·) id)
  | '\\' :: 'r' :: rest => (unquote rest).map (Prod.map ('\r' :: ·) id)
  | '\\' :: 'u' :: _ :: _ :: high :: low :: rest =>
    (unquote rest).map (Prod.map (Char.ofNat (16 * hexValue high + hexValue low) :: ·) id)
  | '\\' :: char :: rest => (unquote rest).map (Prod.map (char :: ·) id)
  | char :: rest => (unquote rest).map (Prod.map (char :: ·) id)

theorem hexValue_hexDigit {value : Nat} (small : value < 16) : hexValue (hexDigit value) = value := by
  revert value
  decide

theorem unquote_escaped (value rest : List Char) :
    unquote (value.flatMap escapeChar ++ '"' :: rest) = some (value, rest) := by
  induction value with
  | nil => rfl
  | cons char value ih =>
    rw [List.flatMap_cons, List.append_assoc, escapeChar]
    split_ifs with backspace tab newline feed carriage quote backslash control
    · subst backspace; simp [unquote, ih]
    · subst tab; simp [unquote, ih]
    · subst newline; simp [unquote, ih]
    · subst feed; simp [unquote, ih]
    · subst carriage; simp [unquote, ih]
    · subst quote; simp [unquote, ih]
    · subst backslash; simp [unquote, ih]
    · have high : char.toNat / 16 < 16 := by omega
      have low : char.toNat % 16 < 16 := Nat.mod_lt _ (by decide)
      have whole : 16 * (char.toNat / 16) + char.toNat % 16 = char.toNat := Nat.div_add_mod ..
      simp [unquote, ih, hexValue_hexDigit high, hexValue_hexDigit low, whole]
    · simp [unquote, ih, backslash]

def mark : Literal → List Char
  | .plain _ => []
  | .tagged _ language => '@' :: language.toList
  | .typed _ datatype => '^' :: '^' :: '<' :: (datatype.toList ++ ['>'])

theorem toList_text (literal : Literal) :
    literal.text.toList = '"' :: (literal.value.toList.flatMap escapeChar ++ '"' :: literal.mark) := by
  cases literal <;> simp [text, value, mark, quoted]

theorem eq_of_value_of_mark {first second : Literal} (values : first.value = second.value)
    (marks : first.mark = second.mark) : first = second := by
  cases first <;> cases second <;> simp_all [value, mark, String.toList_inj]

theorem text_injective {first second : Literal} (same : first.text = second.text) :
    first = second := by
  have chars := congrArg String.toList same
  rw [toList_text, toList_text, List.cons_inj_right] at chars
  have read := congrArg unquote chars
  rw [unquote_escaped, unquote_escaped, Option.some.injEq, Prod.mk.injEq] at read
  exact eq_of_value_of_mark (String.toList_inj.mp read.1) read.2

def SeparatorFree : Literal → Prop
  | .plain _ => True
  | .tagged _ language => separator ∉ language.toList
  | .typed _ datatype => separator ∉ datatype.toList

instance : DecidablePred SeparatorFree
  | .plain _ => inferInstanceAs (Decidable True)
  | .tagged _ language => inferInstanceAs (Decidable (separator ∉ language.toList))
  | .typed _ datatype => inferInstanceAs (Decidable (separator ∉ datatype.toList))

def Printable (char : Char) : Prop := 0x20 ≤ char.toNat ∧ char.toNat ≠ 0x7f

instance : DecidablePred Printable := fun char =>
  inferInstanceAs (Decidable (0x20 ≤ char.toNat ∧ char.toNat ≠ 0x7f))

theorem printable_hexDigit {value : Nat} (small : value < 16) : Printable (hexDigit value) := by
  revert value
  decide

theorem printable_escapeChar (char : Char) : ∀ written ∈ escapeChar char, Printable written := by
  have escaped : ∀ letter, Printable letter → ∀ written ∈ ['\\', letter], Printable written := by
    intro letter printable
    simp only [List.forall_mem_cons, List.not_mem_nil, false_implies, implies_true, and_true]
    exact ⟨by decide, printable⟩
  unfold escapeChar
  split_ifs with backspace tab newline feed carriage quote backslash control
  · exact escaped 'b' (by decide)
  · exact escaped 't' (by decide)
  · exact escaped 'n' (by decide)
  · exact escaped 'f' (by decide)
  · exact escaped 'r' (by decide)
  · exact escaped '"' (by decide)
  · exact escaped '\\' (by decide)
  · have high := printable_hexDigit (show char.toNat / 16 < 16 by omega)
    have low := printable_hexDigit (Nat.mod_lt char.toNat (show 16 > 0 by decide))
    simp only [List.forall_mem_cons, List.not_mem_nil, false_implies, implies_true, and_true]
    exact ⟨by decide, by decide, by decide, by decide, high, low⟩
  · rw [List.forall_mem_singleton, Printable]
    omega

theorem printable_quoted (value : String) : ∀ char ∈ (quoted value).toList, Printable char := by
  intro char member
  simp only [quoted, String.toList_append, String.toList_ofList, List.mem_append,
    List.mem_flatMap] at member
  rcases member with (opening | ⟨original, -, written⟩) | closing
  · rw [List.mem_singleton.mp opening]
    decide
  · exact printable_escapeChar original char written
  · rw [List.mem_singleton.mp closing]
    decide

/-- The separator is a control character, so values are written without it. -/
theorem separator_notMem_escapeChar (char : Char) : separator ∉ escapeChar char := by
  intro member
  exact absurd (printable_escapeChar char separator member) (by decide)

theorem separator_notMem_text {literal : Literal} (free : literal.SeparatorFree) :
    separator ∉ literal.text.toList := by
  have body : separator ∉ literal.value.toList.flatMap escapeChar := by
    rw [List.mem_flatMap]
    intro found
    obtain ⟨char, _, member⟩ := found
    exact separator_notMem_escapeChar char member
  have marked : separator ∉ literal.mark := by
    cases literal with
    | plain => simp [mark]
    | tagged value language =>
      have ne : separator ≠ '@' := by decide
      simpa [mark, ne, SeparatorFree] using free
    | typed value datatype =>
      have caret : separator ≠ '^' := by decide
      have less : separator ≠ '<' := by decide
      have greater : separator ≠ '>' := by decide
      simpa [mark, caret, less, greater, SeparatorFree] using free
  have quote : separator ≠ '"' := by decide
  rw [toList_text]
  simp [body, marked, quote]

end Literal

namespace Term

/-- The separator of store keys stands in no IRI, label or language tag of the term. -/
def SeparatorFree : Term → Prop
  | .iri value => separator ∉ value.toList
  | .blank label => separator ∉ label.toList
  | .literal value => value.SeparatorFree

instance : DecidablePred SeparatorFree
  | .iri value => inferInstanceAs (Decidable (separator ∉ value.toList))
  | .blank label => inferInstanceAs (Decidable (separator ∉ label.toList))
  | .literal value => inferInstanceAs (Decidable value.SeparatorFree)

theorem toList_text_iri (value : String) : (iri value).text.toList = '<' :: (value.toList ++ ['>']) := by
  simp [text]

theorem toList_text_blank (label : String) : (blank label).text.toList = '_' :: ':' :: label.toList := by
  simp [text]

theorem toList_text_literal (value : Literal) :
    (literal value).text.toList =
      '"' :: (value.value.toList.flatMap Literal.escapeChar ++ '"' :: value.mark) :=
  Literal.toList_text value

theorem text_injective {first second : Term} (same : first.text = second.text) : first = second := by
  have chars := congrArg String.toList same
  cases first with
  | iri value =>
    cases second with
    | iri other => simpa [toList_text_iri, String.toList_inj] using chars
    | blank label => simp [toList_text_iri, toList_text_blank] at chars
    | literal other => simp [toList_text_iri, toList_text_literal] at chars
  | blank label =>
    cases second with
    | iri value => simp [toList_text_iri, toList_text_blank] at chars
    | blank other => simpa [toList_text_blank, String.toList_inj] using chars
    | literal other => simp [toList_text_blank, toList_text_literal] at chars
  | literal value =>
    cases second with
    | iri other => simp [toList_text_iri, toList_text_literal] at chars
    | blank label => simp [toList_text_blank, toList_text_literal] at chars
    | literal other => exact congrArg literal (Literal.text_injective same)

/-- The empty text is free to stand for an unbound name. -/
theorem text_ne_empty (term : Term) : term.text ≠ "" := by
  intro empty
  have chars := congrArg String.toList empty
  cases term with
  | iri value => simp [toList_text_iri] at chars
  | blank label => simp [toList_text_blank] at chars
  | literal value => simp [toList_text_literal] at chars

theorem separator_notMem_text {term : Term} (free : term.SeparatorFree) :
    separator ∉ term.text.toList := by
  cases term with
  | iri value =>
    have less : separator ≠ '<' := by decide
    have greater : separator ≠ '>' := by decide
    simpa [toList_text_iri, less, greater, SeparatorFree] using free
  | blank label =>
    have underscore : separator ≠ '_' := by decide
    have colon : separator ≠ ':' := by decide
    simpa [toList_text_blank, underscore, colon, SeparatorFree] using free
  | literal value => exact Literal.separator_notMem_text free

end Term

def Triple.SeparatorFree (triple : Triple) : Prop :=
  triple.subject.toTerm.SeparatorFree ∧ (Term.iri triple.predicate).SeparatorFree ∧
    triple.object.SeparatorFree

instance : DecidablePred Triple.SeparatorFree := fun triple =>
  inferInstanceAs (Decidable (triple.subject.toTerm.SeparatorFree ∧
    (Term.iri triple.predicate).SeparatorFree ∧ triple.object.SeparatorFree))

def Bindings.SeparatorFree (bindings : Bindings) : Prop :=
  ∀ entry ∈ bindings.entries, entry.2.SeparatorFree

instance : DecidablePred Bindings.SeparatorFree := fun bindings =>
  inferInstanceAs (Decidable (∀ entry ∈ bindings.entries, entry.2.SeparatorFree))

theorem Bindings.separatorFree_iff {bindings : Bindings} :
    bindings.SeparatorFree ↔
      ∀ name term, OrderedMap.get? bindings name = some term → term.SeparatorFree := by
  simp only [SeparatorFree, OrderedMap.get?_eq_some_iff, Prod.forall]

namespace JoinState

theorem valueText_inj {first second : Solution} {name : String} :
    valueText first name = valueText second name ↔
      OrderedMap.get? first.content name = OrderedMap.get? second.content name := by
  unfold valueText
  cases OrderedMap.get? first.content name with
  | none =>
    cases OrderedMap.get? second.content name with
    | none => simp
    | some term => simpa using (Term.text_ne_empty term).symm
  | some term =>
    cases OrderedMap.get? second.content name with
    | none => simpa using Term.text_ne_empty term
    | some other =>
      simp only [Option.map_some, Option.getD_some, Option.some.injEq]
      exact ⟨Term.text_injective, congrArg Term.text⟩

theorem separator_notMem_valueText {solution : Solution} {name : String}
    (free : ∀ term, OrderedMap.get? solution.content name = some term → term.SeparatorFree) :
    separator ∉ (valueText solution name).toList := by
  unfold valueText
  cases found : OrderedMap.get? solution.content name with
  | none => simp
  | some term => exact Term.separator_notMem_text (free term found)

end JoinState

end ContinuousQuery
