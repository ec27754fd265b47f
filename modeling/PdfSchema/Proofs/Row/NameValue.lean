import PdfSchema.Consistency
import PdfSchema.Proofs.Row.Reading
import PdfSchema.Proofs.Token.Word

namespace PdfSchema

open Token

theorem isItem_of_isWord {w : String} (h : IsWord w) : Cell.IsItem w := by
  have hc : ∀ c : Char, c.isAlphanum = true → c ∉ [',', '[', ']', '(', ')', ';'] := by
    intro c hc hm
    have hall : [',', '[', ']', '(', ')', ';'].all (!·.isAlphanum) = true := by decide
    simpa [hc] using List.all_eq_true.1 hall c hm
  constructor
  case entry =>
    intro c hm
    refine ⟨(isVisible_of_isAlphanum (h.2 c hm)).not_isBlank, ?_⟩
    rintro rfl
    exact hc _ (h.2 _ hm) (by decide)
  case ne_empty => exact h.1
  case flat => exact fun c hm hmem ↦ hc c (h.2 c hm) (List.mem_append_left [';'] hmem)

namespace Row

variable {w : String} {ws : List String} {t : TypeEntry}

/-- What a word is read as under the type `name`. -/
def nameValue (w : String) : Value := .scalar ⟨(keyword? w).getD .keyName, w⟩

theorem callsFunction_word (h : IsWord w) : Cell.callsFunction w = false :=
  Cell.callsFunction_eq_false fun hm ↦ absurd (h.2 _ hm) (by decide)

theorem head?_ne_of_word (h : IsWord w) {c : Char} (hc : c.isAlphanum = false) :
    w.toList.head? ≠ some c := by
  intro hhead
  rw [h.2 c (List.mem_of_mem_head? hhead)] at hc
  cases hc

def wordError (column : Column) (w : String) : CellError :=
  ⟨column, w, .lexical (.numberOutOfRange w)⟩

theorem value_word (h : IsWord w) (column : Column) : value column w =
    if FitsInteger w then .ok (.scalar ⟨wordKind w, w⟩) else .error (wordError column w) := by
  have hparen : w.toList.head? ≠ some '(' := head?_ne_of_word h (by decide)
  have hbracket : w.toList.head? ≠ some '[' := head?_ne_of_word h (by decide)
  by_cases hfits : FitsInteger w <;>
    simp [value, Cell.trim_eq_self (isItem_of_isWord h).entry, callsFunction_word h, hparen,
      hbracket, scan_word h, hfits, wordError]

theorem asName_word (ht : t.name? = some "name") (w : String) :
    asName (some t) (.scalar ⟨wordKind w, w⟩) = nameValue w := by
  cases hkeyword : keyword? w with
  | none => cases hdigits : w.toList.all Char.isDigit <;>
      simp [asName, ht, nameValue, wordKind, hkeyword, hdigits]
  | some k =>
    have hword := isWord_of_keyword? hkeyword
    cases k <;> simp_all [asName, nameValue, wordKind, Kind.isWord]

theorem defaultValues_word (h : IsWord w) (ht : t.name? = some "name") :
    defaultValues w [t] = if FitsInteger w then .ok (some [some (nameValue w)])
      else .error (wordError .defaultValue w) := by
  have hitem := isItem_of_isWord h
  rw [defaultValues, Cell.optionalAlternatives_eq_singleton hitem.entry hitem.ne_empty
    (head?_ne_of_word h (by decide))]
  by_cases hfits : FitsInteger w <;>
    simp [mapPresent_singleton, value_word h, hfits, asName_word ht, Except.map]

theorem possibleValuesOf_words (h : ∀ v ∈ w :: ws, IsWord v) :
    possibleValuesOf (",".intercalate (w :: ws)) = (w :: ws).mapM (value .possibleValues) := by
  have hcolon : ∀ c ∈ (",".intercalate (w :: ws)).toList, c ≠ ':' :=
    Cell.forall_mem_intercalate (by simp) fun v hv c hc hcolon ↦ by
      rw [hcolon] at hc
      exact absurd ((h v hv).2 _ hc) (by decide)
  rw [possibleValuesOf, Cell.callsFunction_eq_false fun hc ↦ hcolon _ hc rfl,
    Cell.items_intercalate fun v hv ↦ isItem_of_isWord (h v hv)]
  rfl

theorem possibleValueLists_words (h : ∀ v ∈ w :: ws, IsWord v) :
    possibleValueLists ("[" ++ ",".intercalate (w :: ws) ++ "]") [t] =
      ((w :: ws).mapM (value .possibleValues)).map
        fun values ↦ some [some (values.map (asName (some t)))] := by
  have hentry : Cell.IsEntry (",".intercalate (w :: ws)) :=
    Cell.forall_mem_intercalate (by simp [Text.isBlank]) fun v hv ↦
      (isItem_of_isWord (h v hv)).entry
  have hne : ",".intercalate (w :: ws) ≠ "" := Cell.intercalate_ne_empty (h w List.mem_cons_self).1
  rw [possibleValueLists_brackets (Cell.semicolon_notMem hentry) hne, possibleValuesOf_words h]

theorem possibleValueLists_of_fitsInteger (h : ∀ v ∈ w :: ws, IsWord v)
    (hfits : ∀ v ∈ w :: ws, FitsInteger v) (ht : t.name? = some "name") :
    possibleValueLists ("[" ++ ",".intercalate (w :: ws) ++ "]") [t] =
      .ok (some [some ((w :: ws).map nameValue)]) := by
  have hvalues := mapM_eq_ok_map (f := value .possibleValues)
    (g := fun v ↦ .scalar ⟨wordKind v, v⟩) fun v hv ↦
      (value_word (h v hv) .possibleValues).trans (if_pos (hfits v hv))
  rw [possibleValueLists_words h, hvalues, Except.map, List.map_map]
  simp [Function.comp_def, asName_word ht]

theorem fitsInteger_of_possibleValueLists (h : ∀ v ∈ w :: ws, IsWord v)
    {lists : Option (List (Option (List Value)))}
    (hread : possibleValueLists ("[" ++ ",".intercalate (w :: ws) ++ "]") [t] = .ok lists) :
    ∀ v ∈ w :: ws, FitsInteger v := by
  rw [possibleValueLists_words h] at hread
  intro v hv
  by_contra hfits
  cases hvalues : (w :: ws).mapM (value .possibleValues) with
  | error e =>
    rw [hvalues] at hread
    cases hread
  | ok values =>
    obtain ⟨b, -, hb⟩ := (exists_of_mapM_eq_ok hvalues).2 v hv
    rw [value_word (h v hv), if_neg hfits] at hb
    cases hb

end Row

end PdfSchema
