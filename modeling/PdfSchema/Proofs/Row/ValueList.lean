import PdfSchema.Proofs.Row.Reading
import PdfSchema.Proofs.Row.Value

namespace PdfSchema

namespace Cell

theorem isInfix_intercalate {sep piece : List Char} {pieces : List (List Char)}
    (h : piece ∈ pieces) : piece <:+: sep.intercalate pieces := by
  induction pieces with
  | nil => cases h
  | cons p pieces ih =>
    cases pieces with
    | nil => exact ⟨[], [], by simp [List.mem_singleton.1 h]⟩
    | cons q pieces =>
      rw [List.intercalate_cons_cons, List.append_assoc]
      rcases List.mem_cons.1 h with rfl | h
      · exact (List.prefix_append _ _).isInfix
      · exact (ih h).trans (((List.suffix_append _ _).trans (List.suffix_append _ _)).isInfix)

theorem of_mem_items {s w : String} (h : w ∈ items s) :
    Text.trim w = w ∧ w.toList <:+: s.toList := by
  obtain ⟨piece, hpiece, rfl⟩ := List.mem_map.1 (List.mem_filter.1 h).1
  refine ⟨Text.trim_trim _, ?_⟩
  obtain ⟨b, e, hall, -, -⟩ := Text.exists_eq_append_trimmed piece
  have htrimmed : Text.trimmed piece <:+: piece := ⟨b, e, hall.symm⟩
  rw [toList_trim_ofList]
  exact htrimmed.trans (intercalate_topLevelPieces 0 s.toList ▸ isInfix_intercalate hpiece)

end Cell

namespace Value

/-- Whether a value is what some term stands for. -/
def IsTerm (v : Value) : Prop := ∃ u : Term, u.IsPlain ∧ ofTerm u = v

theorem isTerm_scalar_iff {t : Token} : (scalar t).IsTerm ↔ t.kind.isLeaf = true := by
  constructor
  · rintro ⟨u, hu, hv⟩
    exact isLeaf_of_mem_scalars_ofTerm hu t (hv ▸ List.mem_singleton_self t)
  · exact fun ht ↦ ⟨.leaf t, .leaf ht, rfl⟩

theorem not_isTerm_text (raw : String) : ¬ (text raw).IsTerm := by
  rintro ⟨u, -, hu⟩
  cases u <;> cases hu

theorem exists_of_isTerm_ofFormula {f : Formula} (h : (ofFormula f).IsTerm) : ∃ u, f = [u] := by
  obtain ⟨u, -, hu⟩ := h
  rcases f with _ | ⟨t, _ | ⟨t', f⟩⟩
  · cases u <;> cases hu
  · exact ⟨t, rfl⟩
  · cases u <;> cases hu

theorem isTerm_asName_iff (type : Option TypeEntry) {v : Value} :
    (Row.asName type v).IsTerm ↔ v.IsTerm := by
  unfold Row.asName
  split
  · cases v with
    | scalar t =>
      dsimp only
      split
      · rename_i hk
        have hleaf : t.kind.isLeaf = true := by
          rcases hk with hk | hk <;> rw [hk] <;> rfl
        rw [isTerm_scalar_iff, isTerm_scalar_iff, hleaf]
        rfl
      · rfl
    | _ => rfl
  · rfl

end Value

namespace Row

open Token

variable {s text call : String} {column : Column} {v : Value} {values values' : List Value}
  {u : Term}

/-- Whether a text is a single term and does not stand in parentheses. -/
def IsTermText (s : String) : Prop := ¬ Text.InParens s ∧ ∃ u, Formula.parse s = .ok [u]

instance : DecidablePred IsTermText := fun s ↦
  decidable_of_iff (¬ Text.InParens s ∧ (Formula.parse s).toOption.any (·.length = 1) = true) <|
    and_congr_right' <| by
      cases h : Formula.parse s <;> simp [Except.toOption, List.length_eq_one_iff]

theorem isTermText_iff (hcalls : Cell.callsFunction (Text.trim s) = false)
    (hv : value column s = .ok v) : IsTermText (Text.trim s) ↔ v.IsTerm := by
  constructor
  · rintro ⟨hparens, u, hparse⟩
    have hu := Formula.isPlain_of_parse hparse u (List.mem_singleton_self u)
    have hvalue := value_of_parse column hparens hparse (List.cons_ne_nil u [])
    exact ⟨u, hu, Except.ok.inj (hvalue.symm.trans hv)⟩
  · intro hterm
    have hparens : ¬ Text.InParens (Text.trim s) := by
      intro hparens
      cases (value_of_inParens column hparens hcalls).symm.trans hv
      exact Value.not_isTerm_text _ hterm
    have hsign : Text.trim s ∉ loneSigns := by
      intro hsign
      obtain ⟨t, hk, -, hvalue⟩ := value_of_mem_loneSigns column hsign
      cases hvalue.symm.trans hv
      rw [Value.isTerm_scalar_iff, hk] at hterm
      cases hterm
    rw [value_of_notMem_loneSigns column hparens hsign, parsedValue_eq_ok_iff] at hv
    obtain ⟨f, hparse, rfl⟩ := hv
    obtain ⟨u, rfl⟩ := Value.exists_of_isTerm_ofFormula hterm
    exact ⟨hparens, u, hparse⟩

theorem exists_parse_of_piece (column : Column)
    (h : Text.trim s ≠ "" → IsTermText (Text.trim s)) :
    ∃ f, Formula.parse s = .ok f ∧
      ([Text.trim s].filter (· ≠ "")).mapM (value column) = .ok (f.map .ofTerm) := by
  by_cases hblank : Text.trim s = ""
  · exact ⟨[], Formula.parse_of_trim (hblank ▸ Formula.parse_empty), by simp [hblank]; rfl⟩
  · obtain ⟨hparens, u, hparse⟩ := h hblank
    refine ⟨[u], Formula.parse_of_trim hparse, ?_⟩
    rw [← Text.trim_trim] at hparens hparse
    simp [hblank, value_of_parse column hparens hparse (List.cons_ne_nil u []), Value.ofFormula]

/-- Pieces that are blank or single terms: as one formula they stand for the values that they are
one by one. -/
theorem exists_parse_of_pieces (column : Column) (pieces : List (List Char))
    (h : ∀ p ∈ pieces, Text.trim (String.ofList p) ≠ "" →
      IsTermText (Text.trim (String.ofList p))) :
    ∃ f, Formula.parse (String.ofList ([','].intercalate pieces)) = .ok f ∧
      ((pieces.map fun p ↦ Text.trim (String.ofList p)).filter (· ≠ "")).mapM (value column) =
        .ok (f.map .ofTerm) := by
  induction pieces with
  | nil => exact ⟨[], Formula.parse_empty, rfl⟩
  | cons p pieces ih =>
    obtain ⟨hp, hpieces⟩ := List.forall_mem_cons.1 h
    obtain ⟨g, hparse', hvalues'⟩ := ih hpieces
    obtain ⟨f, hparse, hvalues⟩ := exists_parse_of_piece column hp
    refine ⟨f ++ g, ?_, ?_⟩
    · cases pieces with
      | nil =>
        obtain rfl : [] = g := Except.ok.inj (Formula.parse_empty.symm.trans hparse')
        simpa using hparse
      | cons q pieces =>
        rw [List.intercalate_cons_cons, String.ofList_append, String.ofList_append]
        exact Formula.parse_append_comma hparse hparse'
    · rw [List.map_cons, ← List.singleton_append, List.filter_append, List.map_append]
      exact mapM_append_eq_ok hvalues hvalues'

theorem possibleValuesOf_eq_ok_iff (hcalls : Cell.callsFunction s = true) :
    possibleValuesOf s = .ok values ↔
      ∃ f, Formula.parse s = .ok f ∧ f.map .ofTerm = values := by
  simp only [possibleValuesOf, hcalls, if_true, map_eq_ok_iff, parseCell_eq_ok_iff,
    Value.ofTerms_eq_map]

section

variable (htext : Cell.callsFunction text = false) (hcalls : Cell.callsFunction call = true)

include hcalls

theorem callsFunction_append : Cell.callsFunction (text ++ "," ++ call) = true := by
  refine Cell.callsFunction_of_isInfix ?_ hcalls
  rw [String.toList_append]
  exact (List.suffix_append _ _).isInfix

include htext

theorem possibleValuesOf_append (hitems : ∀ w ∈ Cell.items text, IsTermText w)
    (hparse : Formula.parse call = .ok [u]) : ∃ values, possibleValuesOf text = .ok values ∧
      possibleValuesOf (text ++ "," ++ call) = .ok (values ++ [.ofTerm u]) := by
  obtain ⟨f, hf, hvalues⟩ := exists_parse_of_pieces .possibleValues
    (Cell.topLevelPieces 0 text.toList) fun p hp hne ↦
      hitems _ (List.mem_filter.2 ⟨List.mem_map_of_mem hp, decide_eq_true hne⟩)
  rw [Cell.intercalate_topLevelPieces, String.ofList_toList] at hf
  refine ⟨f.map .ofTerm, ?_, ?_⟩
  · rw [possibleValuesOf, htext]
    exact hvalues
  · rw [possibleValuesOf_eq_ok_iff (callsFunction_append hcalls)]
    exact ⟨f ++ [u], Formula.parse_append_comma hf hparse, List.map_append⟩

theorem isTermText_of_append (type : Option TypeEntry)
    (hvalues : possibleValuesOf text = .ok values)
    (hall : possibleValuesOf (text ++ "," ++ call) = .ok values')
    (hkept : ∀ v ∈ values, asName type v ∈ values'.map (asName type)) :
    ∀ w ∈ Cell.items text, IsTermText w := by
  intro w hw
  obtain ⟨htrim, hinfix⟩ := Cell.of_mem_items hw
  have hplain : Cell.callsFunction (Text.trim w) = false := by
    rw [htrim, ← Bool.not_eq_true]
    exact fun h ↦ Bool.eq_false_iff.1 htext (Cell.callsFunction_of_isInfix hinfix h)
  rw [possibleValuesOf, htext] at hvalues
  obtain ⟨v, hv, hvalue⟩ := (exists_of_mapM_eq_ok hvalues).2 w hw
  -- All values of the longer list are terms of one formula.
  obtain ⟨f, hparse, rfl⟩ := (possibleValuesOf_eq_ok_iff (callsFunction_append hcalls)).1 hall
  obtain ⟨v', hv', heq⟩ := List.mem_map.1 (hkept v hv)
  obtain ⟨u, hu, rfl⟩ := List.mem_map.1 hv'
  have hterm : (Value.ofTerm u).IsTerm := ⟨u, Formula.isPlain_of_parse hparse u hu, rfl⟩
  rw [← Value.isTerm_asName_iff type, heq, Value.isTerm_asName_iff] at hterm
  rw [← htrim]
  exact (isTermText_iff hplain hvalue).2 hterm

end

end Row

end PdfSchema
