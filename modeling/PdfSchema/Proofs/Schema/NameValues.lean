import PdfSchema.Proofs.Row.NameValue
import PdfSchema.Proofs.Schema.Ingestion
import PdfSchema.Proofs.Schema.TableRows
import PdfSchema.Proofs.Schema.Values

namespace PdfSchema

open Consistency Token

/-- Whether the record `r` of a table makes up a row of the type `name` that lists the words `w` and
`ws`, the first one as the default, and all else in the table can be read. -/
structure Table.ListsWords (t : Table) (r : Table.Record) (w : String) (ws : List String) :
    Prop where
  first : t.records.find? (·.key = r.key) = some r
  readable : ∀ q ∈ t.records, q.key ≠ "" ∧ (q ≠ r → q.row?.isSome = true)
  named : ∃ r' row, r'.row? = some row ∧ r.SameBut [.defaultValue, .possibleValues] r' ∧
    row.types.map TypeEntry.name? = [some "name"]
  defaultValue : r.cell .defaultValue = w
  possibleValues : r.cell .possibleValues = "[" ++ ",".intercalate (w :: ws) ++ "]"
  words : ∀ v ∈ w :: ws, IsWord v

structure Row.HoldsWords (row : Row) (w : String) (ws : List String) : Prop where
  types : row.types.map TypeEntry.name? = [some "name"]
  defaultValue : row.defaultValue = some [some (nameValue w)]
  possibleValues : row.possibleValues = some [some ((w :: ws).map nameValue)]

variable {t : Table} {r : Table.Record} {w : String} {ws : List String}

namespace Table.ListsWords

theorem exists_row (h : t.ListsWords r w ws) (hfits : ∀ v ∈ w :: ws, FitsInteger v) :
    ∃ row, r.row? = some row ∧ row.HoldsWords w ws := by
  obtain ⟨r', row, hrow, hsame, htypes⟩ := h.named
  obtain ⟨type, htype, hname⟩ := List.map_eq_singleton_iff.1 htypes
  have hread := Record.row?_eq_some_iff.1 hrow
  have hdefault : Row.defaultValues (r.cell .defaultValue) row.types =
      .ok (some [some (Row.nameValue w)]) := by
    rw [h.defaultValue, htype, Row.defaultValues_word (h.words w List.mem_cons_self) hname,
      if_pos (hfits w List.mem_cons_self)]
  have hpossible : Row.possibleValueLists (r.cell .possibleValues) row.types =
      .ok (some [some ((w :: ws).map Row.nameValue)]) := by
    rw [h.possibleValues, htype]
    exact Row.possibleValueLists_of_fitsInteger h.words hfits hname
  have hlink : Row.linkTargets (r.cell .link) = .ok row.link := by
    rw [hsame .link (by decide)]
    exact hread.link
  have hrewritten := hread.rewrite (hsame.mono (by simp)) hdefault hpossible hlink
  exact ⟨_, Record.row?_eq_some_iff.2 hrewritten, htypes, rfl, rfl⟩

theorem fitsInteger (h : t.ListsWords r w ws) {row : Row} (hrow : r.row? = some row) :
    ∀ v ∈ w :: ws, FitsInteger v := by
  obtain ⟨r', row', hrow', hsame, htypes⟩ := h.named
  obtain ⟨type, htype, -⟩ := List.map_eq_singleton_iff.1 htypes
  have hread := Record.row?_eq_some_iff.1 hrow
  have htypes : row.types = [type] := by
    have hread' := (Record.row?_eq_some_iff.1 hrow').types
    rw [← hsame .type (by decide), hread.types] at hread'
    rw [Except.ok.inj hread', htype]
  have hpossible := hread.possibleValues
  rw [h.possibleValues, htypes] at hpossible
  exact Row.fitsInteger_of_possibleValueLists h.words hpossible

theorem exists_toObject (h : t.ListsWords r w ws) (hfits : ∀ v ∈ w :: ws, FitsInteger v) :
    ∃ diagnostics rows row, t.toObject = (diagnostics, .ok rows) ∧ rows.get? r.key = some row ∧
      row.HoldsWords w ws := by
  obtain ⟨row, hrow, hwords⟩ := h.exists_row hfits
  obtain ⟨diagnostics, rows, hobject, hget⟩ :=
    Table.exists_toObject_of_first h.first h.readable hrow
  exact ⟨diagnostics, rows, row, hobject, hget, hwords⟩

theorem toObject_eq_ok_iff (h : t.ListsWords r w ws) :
    (∃ rows, t.toObject.2 = .ok rows) ↔ ∀ v ∈ w :: ws, FitsInteger v := by
  constructor
  · rintro ⟨rows, hobject⟩
    obtain ⟨row, hrow, -⟩ := Table.exists_row_of_toObject h.first h.readable hobject
    exact h.fitsInteger hrow
  · intro hfits
    obtain ⟨diagnostics, rows, row, hobject, -⟩ := h.exists_toObject hfits
    exact ⟨rows, congrArg Prod.snd hobject⟩

end Table.ListsWords

namespace Consistency

def nameProblem (w : String) : LiteralProblem :=
  if w = "TRUE" ∨ w = "FALSE" then .schemaBoolean w else .unlike w .name

theorem literalProblem_nameValue (w : String) : literalProblem .name (Row.nameValue w) =
    if (keyword? w).isSome = true then some (nameProblem w) else none := by
  by_cases hboolean : w = "TRUE" ∨ w = "FALSE"
  · have hkeyword : (keyword? w).isSome = true := by
      rcases hboolean with rfl | rfl <;> decide
    simp [literalProblem, Row.nameValue, nameProblem, hboolean, hkeyword, Value.render]
  · cases hkeyword : keyword? w with
    | none => simp [literalProblem, Row.nameValue, hboolean, hkeyword, fits]
    | some k =>
      have hk : k ≠ .keyName := by
        rintro rfl
        cases isWord_of_keyword? hkeyword
      simp [literalProblem, Row.nameValue, nameProblem, hboolean, hkeyword, fits, hk, Value.render]

theorem filterMap_literalProblem (ws : List String) :
    (ws.map Row.nameValue).filterMap (literalProblem .name) =
      (ws.filter fun v ↦ (keyword? v).isSome).map nameProblem := by
  induction ws with
  | nil => rfl
  | cons v ws ih =>
    rw [List.map_cons, List.filterMap_cons, literalProblem_nameValue, ih]
    cases hv : (keyword? v).isSome <;> simp [hv]

variable {row : Row}

theorem checkValues_of_holdsWords (h : row.HoldsWords w ws) : checkValues row =
    ([w].filter fun v ↦ (keyword? v).isSome).map (.badDefault ∘ nameProblem) ++
      ((w :: ws).filter fun v ↦ (keyword? v).isSome).map (.badPossible ∘ nameProblem) := by
  obtain ⟨type, htype, hname⟩ := List.map_eq_singleton_iff.1 h.types
  have hlabel : type.valueType? = some .name := by
    rw [TypeEntry.valueType?, hname]
    decide
  have hcounts : checkCount .defaultValue row row.defaultValue = [] ∧
      checkCount .possibleValues row row.possibleValues = [] := by
    simp [checkCount, h.defaultValue, h.possibleValues, htype]
  have hdefault : checkDefault (Row.nameValue w) ((w :: ws).map Row.nameValue) = [] := by
    simp [checkDefault]
  have hbad : ((literalProblem .name (Row.nameValue w)).map Finding.badDefault).toList =
      ([w].filter fun v ↦ (keyword? v).isSome).map (.badDefault ∘ nameProblem) := by
    rw [literalProblem_nameValue]
    cases hw : (keyword? w).isSome <;> simp [hw]
  have halternative : checkAlternative row type 0 =
      ((literalProblem .name (Row.nameValue w)).map Finding.badDefault).toList ++
        (((w :: ws).map Row.nameValue).filterMap (literalProblem .name)).map .badPossible := by
    simp only [checkAlternative, h.defaultValue, h.possibleValues, hlabel, hdefault,
      Option.getD_some, List.getElem?_cons_zero, Option.join_some, Option.bind_some,
      List.append_nil]
  simp only [checkValues, hcounts, htype, List.zipIdx_singleton, List.flatMap_singleton,
    List.nil_append, halternative, hbad, filterMap_literalProblem, List.map_map]

theorem filter_misfits_of_holdsWords (h : row.HoldsWords w ws) :
    (checkValues row).filter (·.code = "bad-default-value") =
        ([w].filter fun v ↦ (keyword? v).isSome).map (.badDefault ∘ nameProblem) ∧
      (checkValues row).filter (·.code = "bad-possible-value") =
        ((w :: ws).filter fun v ↦ (keyword? v).isSome).map (.badPossible ∘ nameProblem) := by
  have hcode (vs : List String) :
      (vs.map (Finding.badDefault ∘ nameProblem)).filter (·.code = "bad-possible-value") = [] ∧
      (vs.map (Finding.badPossible ∘ nameProblem)).filter (·.code = "bad-default-value") = [] := by
    simp [List.filter_map, Function.comp_def, Finding.code]
  have hown (vs : List String) :
      (vs.map (Finding.badDefault ∘ nameProblem)).filter (·.code = "bad-default-value") =
        vs.map (Finding.badDefault ∘ nameProblem) ∧
      (vs.map (Finding.badPossible ∘ nameProblem)).filter (·.code = "bad-possible-value") =
        vs.map (Finding.badPossible ∘ nameProblem) := by
    simp [List.filter_map, Function.comp_def, Finding.code]
  rw [checkValues_of_holdsWords h]
  simp only [List.filter_append, hcode, hown, List.append_nil, List.nil_append, and_self]

end Consistency

/-- What a table that lists words comes to, and what is found about the row in a schema with its
object. -/
structure Table.KeepsWords (t : Table) (r : Table.Record) (w : String) (ws : List String)
    (rows : SchemaObject) (row : Row) : Prop where
  found : rows.get? r.key = some row
  values : row.HoldsWords w ws
  badPossible : ∀ (s : Schema) (roots : List String), s.get? t.name = some rows →
    (s.validate roots).filter (fun d ↦ d.location.object = some t.name ∧
        d.location.key = some r.key ∧ d.code = "bad-possible-value") =
      ((w :: ws).filter fun v ↦ (keyword? v).isSome).map fun v ↦
        (Finding.badPossible (nameProblem v)).diagnostic t.name (some r.key)
  badDefault : ∀ (s : Schema) (roots : List String), s.get? t.name = some rows →
    (s.validate roots).filter (fun d ↦ d.location.object = some t.name ∧
        d.location.key = some r.key ∧ d.code = "bad-default-value") =
      ([w].filter fun v ↦ (keyword? v).isSome).map fun v ↦
        (Finding.badDefault (nameProblem v)).diagnostic t.name (some r.key)

/-- A table that lists words gives an object unless one of them is a numeral beyond the integers.
The words are kept, all but the keywords as names, and found to be no names exactly if they are
keywords. -/
theorem keepsWords_of_listsWords (h : t.ListsWords r w ws) :
    ((∃ rows, t.toObject.2 = .ok rows) ↔ ∀ v ∈ w :: ws, FitsInteger v) ∧
      ∀ rows, t.toObject.2 = .ok rows → ∃ row, t.KeepsWords r w ws rows row := by
  refine ⟨h.toObject_eq_ok_iff, fun rows hrows ↦ ?_⟩
  obtain ⟨diagnostics, rows', row, hobject, hrow, hwords⟩ :=
    h.exists_toObject (h.toObject_eq_ok_iff.1 ⟨rows, hrows⟩)
  obtain rfl : rows' = rows := Except.ok.inj ((congrArg Prod.snd hobject).symm.trans hrows)
  refine ⟨row, hrow, hwords, fun s roots hs ↦ ?_, fun s roots hs ↦ ?_⟩
  · rw [filter_validate_of_row (by decide) roots hs hrow, (filter_misfits_of_holdsWords hwords).2,
      List.map_map]
    rfl
  · rw [filter_validate_of_row (by decide) roots hs hrow, (filter_misfits_of_holdsWords hwords).1,
      List.map_map]
    rfl

def nameRecord (default possible : String) : Table.Record :=
  .ofFields (Column.all.map Column.label) 2
    ["Trapped", "name", "1.0", "", "FALSE", "FALSE", "FALSE", default, possible, "", "", ""]

def nameTable (default possible : String) : Table :=
  ⟨"FileTrailer", "FileTrailer.tsv", [nameRecord default possible]⟩

theorem listsWords_nameTable {cell : String}
    (hcell : cell = "[" ++ ",".intercalate (w :: ws) ++ "]") (h : ∀ v ∈ w :: ws, IsWord v) :
    (nameTable w cell).ListsWords (nameRecord w cell) w ws where
  first := by simp [nameTable]
  readable := by
    intro q hq
    rw [List.mem_singleton.1 hq]
    refine ⟨?_, fun hne ↦ absurd rfl hne⟩
    have hkey : (nameRecord w cell).cell .key = "Trapped" := rfl
    rw [Table.Record.key, hkey]
    decide
  named := by
    have hread : (nameRecord "" "").row?.map (fun row ↦ row.types.map TypeEntry.name?) =
        some [some "name"] := by decide +kernel
    obtain ⟨row, hrow, htypes⟩ := Option.map_eq_some_iff.1 hread
    refine ⟨_, row, hrow, fun c hc ↦ ?_, htypes⟩
    cases c with
    | defaultValue | possibleValues => exact absurd hc (by decide)
    | _ => rfl
  defaultValue := rfl
  possibleValues := hcell
  words := h

/-- A number, a word that starts with digits and a keyword beside a name. -/
theorem nameTable_keepsWords : ∃ rows row,
    (nameTable "Normal" "[Normal,1,12x,mod]").ListsWords
      (nameRecord "Normal" "[Normal,1,12x,mod]") "Normal" ["1", "12x", "mod"] ∧
    (nameTable "Normal" "[Normal,1,12x,mod]").toObject.2 = .ok rows ∧
    (nameTable "Normal" "[Normal,1,12x,mod]").KeepsWords
      (nameRecord "Normal" "[Normal,1,12x,mod]") "Normal" ["1", "12x", "mod"] rows row := by
  have h : (nameTable "Normal" "[Normal,1,12x,mod]").ListsWords
      (nameRecord "Normal" "[Normal,1,12x,mod]") "Normal" ["1", "12x", "mod"] :=
    listsWords_nameTable (by decide +kernel) (by decide +kernel)
  obtain ⟨hok, hkeeps⟩ := keepsWords_of_listsWords h
  obtain ⟨rows, hrows⟩ := hok.2 (by decide +kernel)
  obtain ⟨row, hrow⟩ := hkeeps rows hrows
  exact ⟨rows, row, h, hrows, hrow⟩

/-- The keyword `true` is no name, though it is none of the two words that tables write flags with,
and with a numeral beyond the integers there is no object. -/
theorem words_not_kept :
    (IsWord "true" ∧ "true" ∉ ["TRUE", "FALSE"] ∧ ∃ rows row,
      (nameTable "true" "[true]").toObject.2 = .ok rows ∧
      rows.get? "Trapped" = some row ∧ row.types.map TypeEntry.name? = [some "name"] ∧
      row.defaultValue = some [some (.scalar ⟨.trueWord, "true"⟩)] ∧
      row.possibleValues = some [some [.scalar ⟨.trueWord, "true"⟩]] ∧
      ∀ code ∈ ["bad-default-value", "bad-possible-value"],
        ∃ d ∈ (ingest [nameTable "true" "[true]"]).schema.validate defaultRoots,
          d.location.object = some "FileTrailer" ∧ d.location.key = some "Trapped" ∧
            d.code = code) ∧
    IsWord "9223372036854775808" ∧
      ∀ rows, (nameTable "9223372036854775808" "[9223372036854775808]").toObject.2 ≠ .ok rows := by
  constructor
  case left =>
    have h : (nameTable "true" "[true]").ListsWords (nameRecord "true" "[true]") "true" [] :=
      listsWords_nameTable (by decide +kernel) (by decide +kernel)
    obtain ⟨diagnostics, rows, row, hobject, hrow, hwords⟩ := h.exists_toObject (by decide +kernel)
    have hkey : (nameRecord "true" "[true]").key = "Trapped" := by decide +kernel
    rw [hkey] at hrow
    have hs : (ingest [nameTable "true" "[true]"]).schema.get? "FileTrailer" = some rows := by
      rw [ingest, List.foldl_cons, List.foldl_nil, Ingested.add_of_ok hobject, KeyedList.get?_put]
      rfl
    refine ⟨by decide +kernel, by decide, rows, row, congrArg Prod.snd hobject, hrow, hwords.types,
      hwords.defaultValue, hwords.possibleValues, fun code hcode ↦ ?_⟩
    have hne : (checkValues row).filter (·.code = code) ≠ [] := by
      obtain ⟨hdefault, hpossible⟩ := filter_misfits_of_holdsWords hwords
      rcases List.mem_cons.1 hcode with rfl | hcode
      · rw [hdefault]
        decide
      · rw [List.mem_singleton.1 hcode, hpossible]
        decide
    obtain ⟨f, fs, hf⟩ := List.exists_cons_of_ne_nil hne
    have hfilter := filter_validate_of_row hcode defaultRoots hs hrow
    rw [hf, List.map_cons] at hfilter
    obtain ⟨hmem, hat⟩ := List.mem_filter.1 (hfilter ▸ List.mem_cons_self)
    exact ⟨_, hmem, of_decide_eq_true hat⟩
  case right =>
    have hword : IsWord "9223372036854775808" := by decide +kernel
    have h : (nameTable "9223372036854775808" "[9223372036854775808]").ListsWords
        (nameRecord "9223372036854775808" "[9223372036854775808]") "9223372036854775808" [] :=
      listsWords_nameTable (by decide +kernel) (by decide +kernel)
    refine ⟨hword, fun rows hrows ↦ ?_⟩
    have hfits := h.toObject_eq_ok_iff.1 ⟨rows, hrows⟩ _ List.mem_cons_self
    revert hfits
    decide +kernel

end PdfSchema
