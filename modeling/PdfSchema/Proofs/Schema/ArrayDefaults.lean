import PdfSchema.Proofs.Row.IntegerList
import PdfSchema.Proofs.Schema.Defaults

namespace PdfSchema

open Consistency Row Token

namespace Consistency

variable {type : ValueType} {w : String} {ws : List String}

/-- Numerals without brackets, where an array is asked for: only a single one is no formula. -/
theorem literalProblem_integerRun (htype : type = .matrix ∨ type = .rectangle)
    (h : ∀ v ∈ w :: ws, IsInteger v) :
    ((literalProblem type (.ofFormula (integerRun (w :: ws)))).map Finding.badDefault).toList =
      if ws = [] then [.badDefault (.unlike w type)] else [] := by
  cases ws with
  | nil =>
    have hraw : ¬ (w = "TRUE" ∨ w = "FALSE") := by
      rintro (rfl | rfl)
      · exact absurd ((h "TRUE" List.mem_cons_self).chars 'T' (by decide)) (by decide)
      · exact absurd ((h "FALSE" List.mem_cons_self).chars 'F' (by decide)) (by decide)
    rcases htype with rfl | rfl <;>
      simp [integerRun, Value.ofFormula, Value.ofTerm, literalProblem, hraw, fits, Value.render]
  | cons v ws => rfl

end Consistency

/-- A list of integers in brackets as the default of a row of a type of arrays. It is kept as an
array exactly for the type `array`, and then nothing is found about it. For the other types the row
has the numbers as they are without brackets: one of them is found not to be an array, and more
than one are taken for a formula. -/
theorem Table.Declares.integers_default_iff {t : Table} {r : Table.Record} {type : ValueType}
    {w : String} {ws : List String} (h : t.Declares r type)
    (htype : type = .array ∨ type = .matrix ∨ type = .rectangle)
    (hcell : Text.trim (r.cell .defaultValue) = "[" ++ " ".intercalate (w :: ws) ++ "]")
    (hws : ∀ v ∈ w :: ws, IsInteger v) :
    ((∃ findings, t.GivesDefault r type (.array ((w :: ws).map integerScalar)) findings) ↔
      type = .array) ∧
    (type = .array → t.GivesDefault r type (.array ((w :: ws).map integerScalar)) []) ∧
    (type ≠ .array → t.GivesDefault r type (.ofFormula (integerRun (w :: ws)))
      (if ws = [] then [.badDefault (.unlike w type)] else [])) := by
  have hname : type ≠ .name := by
    rintro rfl
    simp at htype
  have hgives := h.givesDefault fun e he ↦ defaultValues_integers hws hcell he hname
  have harray (ha : type = .array) :
      t.GivesDefault r type (.array ((w :: ws).map integerScalar)) [] := by
    rw [if_pos ha, ha] at hgives
    rwa [ha]
  have hother (ha : type ≠ .array) : t.GivesDefault r type (.ofFormula (integerRun (w :: ws)))
      (if ws = [] then [.badDefault (.unlike w type)] else []) := by
    rwa [if_neg ha, literalProblem_integerRun (htype.resolve_left ha) hws] at hgives
  refine ⟨⟨?_, fun ha ↦ ⟨[], harray ha⟩⟩, harray, hother⟩
  rintro ⟨findings, hgiven⟩
  by_contra ha
  have heq := hgiven.value_eq (hother ha)
  cases ws <;> cases heq

theorem integerArray_default :
    (valueTable "array" "[0 -5 12]").Declares (.ofValues "array" "[0 -5 12]" "") .array ∧
    (∀ v ∈ ["0", "-5", "12"], IsInteger v) ∧
    (valueTable "array" "[0 -5 12]").GivesDefault (.ofValues "array" "[0 -5 12]" "") .array
      (.array (["0", "-5", "12"].map integerScalar)) [] := by
  have h : (valueTable "array" "[0 -5 12]").Declares (.ofValues "array" "[0 -5 12]" "") .array :=
    declares_valueTable _ (by decide +kernel)
  have hcell : Text.trim ((Table.Record.ofValues "array" "[0 -5 12]" "").cell .defaultValue) =
      "[" ++ " ".intercalate ["0", "-5", "12"] ++ "]" := by
    rw [Table.Record.cell_ofValues]
    decide +kernel
  have hintegers : ∀ v ∈ ["0", "-5", "12"], IsInteger v := by decide +kernel
  exact ⟨h, hintegers, (h.integers_default_iff (.inl rfl) hcell hintegers).2.1 rfl⟩

/-- The numbers of a matrix are a formula, and that of a rectangle is found to be none. -/
theorem integersOfMatrix_default :
    ((valueTable "matrix" "[1 0 0 1 0 0]").Declares (.ofValues "matrix" "[1 0 0 1 0 0]" "")
      .matrix ∧
    (∀ v ∈ ["1", "0", "0", "1", "0", "0"], IsInteger v) ∧
    (valueTable "matrix" "[1 0 0 1 0 0]").GivesDefault (.ofValues "matrix" "[1 0 0 1 0 0]" "")
      .matrix (.formula (integerRun ["1", "0", "0", "1", "0", "0"])) [] ∧
    ∀ findings, ¬ (valueTable "matrix" "[1 0 0 1 0 0]").GivesDefault
      (.ofValues "matrix" "[1 0 0 1 0 0]" "") .matrix
      (.array (["1", "0", "0", "1", "0", "0"].map integerScalar)) findings) ∧
    (valueTable "rectangle" "[5]").GivesDefault (.ofValues "rectangle" "[5]" "") .rectangle
      (integerScalar "5") [.badDefault (.unlike "5" .rectangle)] := by
  have hmatrix : (valueTable "matrix" "[1 0 0 1 0 0]").Declares
      (.ofValues "matrix" "[1 0 0 1 0 0]" "") .matrix := declares_valueTable _ (by decide +kernel)
  have hrectangle : (valueTable "rectangle" "[5]").Declares (.ofValues "rectangle" "[5]" "")
      .rectangle := declares_valueTable _ (by decide +kernel)
  have hintegers : ∀ v ∈ ["1", "0", "0", "1", "0", "0"], IsInteger v := by decide +kernel
  have hcell : Text.trim ((Table.Record.ofValues "matrix" "[1 0 0 1 0 0]" "").cell .defaultValue) =
      "[" ++ " ".intercalate ["1", "0", "0", "1", "0", "0"] ++ "]" := by
    rw [Table.Record.cell_ofValues]
    decide +kernel
  have hcell' : Text.trim ((Table.Record.ofValues "rectangle" "[5]" "").cell .defaultValue) =
      "[" ++ " ".intercalate ["5"] ++ "]" := by
    rw [Table.Record.cell_ofValues]
    decide +kernel
  have hgives := hmatrix.givesDefault fun e he ↦
    defaultValues_integers hintegers hcell he (by decide)
  have hgives' := hrectangle.givesDefault fun e he ↦
    defaultValues_integers (by decide +kernel) hcell' he (by decide)
  exact ⟨⟨hmatrix, hintegers, hgives, fun findings h ↦ nomatch h.value_eq hgives⟩, hgives'⟩

end PdfSchema
