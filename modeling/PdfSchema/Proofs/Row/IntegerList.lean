import PdfSchema.Proofs.Row.Value
import PdfSchema.Proofs.Token.Integer

namespace PdfSchema

theorem ValueType.ofLabel?_label (type : ValueType) : ofLabel? type.label = some type := by
  cases type <;> decide

theorem ValueType.label_inj {type type' : ValueType} :
    type.label = type'.label ↔ type = type' := by
  refine ⟨fun h ↦ Option.some.inj ?_, congrArg label⟩
  rw [← ofLabel?_label, h, ofLabel?_label]

theorem TypeEntry.name?_of_valueType? {e : TypeEntry} {type : ValueType}
    (h : e.valueType? = some type) : e.name? = some type.label := by
  obtain ⟨name, hname, hlabel⟩ := Option.bind_eq_some_iff.1 h
  unfold ValueType.ofLabel? at hlabel
  have hlabel : type.label = name := by simpa using List.find?_some hlabel
  rw [hname, hlabel]

namespace Row

open Token

variable {w cell : String} {ws : List String} {e : TypeEntry} {type : ValueType}

def integerScalar (w : String) : Value := .scalar ⟨.integer, w⟩

def integerRun (ws : List String) : Formula := ws.map fun w ↦ .leaf ⟨.integer, w⟩

theorem parse_integers (h : ∀ v ∈ w :: ws, IsInteger v) :
    Formula.parse (" ".intercalate (w :: ws)) = .ok (integerRun (w :: ws)) := by
  have hleaves : ∀ t ∈ (w :: ws).map (Token.mk .integer), t.kind.isLeaf = true :=
    List.forall_mem_map.2 fun _ _ ↦ rfl
  rw [Formula.parse_leaves (scan_integers h) hleaves, List.map_map]
  rfl

theorem chars_integers (h : ∀ v ∈ w :: ws, IsInteger v) :
    ∀ c ∈ (" ".intercalate (w :: ws)).toList, c.isDigit = true ∨ c = '-' ∨ c = ' ' :=
  Cell.forall_mem_intercalate (by simp) fun v hv c hc ↦
    ((h v hv).chars c hc).imp_right .inl

theorem notMem_integers (h : ∀ v ∈ w :: ws, IsInteger v) {c : Char}
    (hc : ¬ (c.isDigit = true ∨ c = '-' ∨ c = ' ')) : c ∉ (" ".intercalate (w :: ws)).toList :=
  fun hmem ↦ hc (chars_integers h c hmem)

theorem trim_integers (h : ∀ v ∈ w :: ws, IsInteger v) :
    Text.trim (" ".intercalate (w :: ws)) = " ".intercalate (w :: ws) := by
  refine Cell.trim_intercalate fun v hv ↦ ⟨fun c hc ↦ ?_, (h v hv).ne_empty⟩
  rcases (h v hv).chars c hc with hc | rfl
  · refine ⟨(isVisible_of_isDigit hc).not_isBlank, ?_⟩
    rintro rfl
    exact absurd hc (by decide)
  · decide

theorem value_integers (column : Column) (h : ∀ v ∈ w :: ws, IsInteger v) :
    value column (" ".intercalate (w :: ws)) = .ok (.ofFormula (integerRun (w :: ws))) := by
  have htrim := trim_integers h
  refine value_of_parse column ?_ ?_ (List.cons_ne_nil _ _)
  · rw [htrim]
    exact fun hparens ↦ notMem_integers h (by decide) (List.mem_of_mem_head? hparens.1)
  · rw [htrim]
    exact parse_integers h

theorem value_integers_brackets (column : Column) (h : ∀ v ∈ w :: ws, IsInteger v) :
    value column ("[" ++ " ".intercalate (w :: ws) ++ "]") =
      .ok (.array ((w :: ws).map integerScalar)) := by
  have htrim := Cell.trim_brackets (" ".intercalate (w :: ws))
  have hvalue : Value.ofFormula [.bracket (integerRun (w :: ws))] =
      .array ((w :: ws).map integerScalar) := by
    rw [Value.ofFormula, Value.ofTerm, Value.ofTerms_eq_map, integerRun, List.map_map]
    rfl
  rw [← hvalue]
  refine value_of_parse column ?_ ?_ (List.cons_ne_nil _ _)
  · rw [htrim]
    simp [Text.InParens]
  · rw [htrim]
    exact Formula.parse_brackets (parse_integers h)

theorem asName_eq_self (he : e.valueType? = some type) (hname : type ≠ .name) (v : Value) :
    asName (some e) v = v := by
  unfold asName
  rw [Option.bind_some, TypeEntry.name?_of_valueType? he, if_neg]
  exact fun h ↦ hname (ValueType.label_inj.1 (Option.some.inj h))

/-- The default that integers in brackets are: the brackets count only where a row may be of the
type `array`. -/
theorem defaultValues_integers (h : ∀ v ∈ w :: ws, IsInteger v)
    (hcell : Text.trim cell = "[" ++ " ".intercalate (w :: ws) ++ "]")
    (he : e.valueType? = some type) (hname : type ≠ .name) :
    defaultValues cell [e] = .ok (some [some (if type = .array then
      .array ((w :: ws).map integerScalar) else .ofFormula (integerRun (w :: ws)))]) := by
  have hne : Text.trim cell ≠ "" := by
    intro hempty
    have hempty := congrArg String.toList (hcell.symm.trans hempty)
    simp at hempty
  have hcut : ';' ∉ (Text.trim cell).toList := by
    simpa [hcell] using notMem_integers h (c := ';') (by decide)
  have hinner : " ".intercalate (w :: ws) ≠ "" :=
    Cell.intercalate_ne_empty (h w List.mem_cons_self).ne_empty
  have hkeep : [e].any (fun e ↦ e.name? = some "array") = decide (type = .array) := by
    rw [List.any_cons, List.any_nil, Bool.or_false, TypeEntry.name?_of_valueType? he,
      decide_eq_decide, Option.some_inj]
    exact @ValueType.label_inj type .array
  rw [defaultValues, Cell.optionalAlternatives_of_notMem hne hcut, hkeep, hcell,
    Cell.alternative?_brackets hinner]
  by_cases harray : type = .array
  · simp only [harray, decide_true, if_true, mapPresent_singleton,
      value_integers_brackets .defaultValue h, Except.map]
    rw [List.getElem?_cons_zero, asName_eq_self he hname]
  · simp only [harray, decide_false, if_false, Bool.false_eq_true, mapPresent_singleton,
      value_integers .defaultValue h, Except.map]
    rw [List.getElem?_cons_zero, asName_eq_self he hname]

end Row

end PdfSchema
