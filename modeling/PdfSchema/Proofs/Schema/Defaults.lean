import Mathlib.Data.List.Infix
import PdfSchema.Proofs.Row.Value
import PdfSchema.Proofs.Schema.Ingestion
import PdfSchema.Proofs.Schema.TableRows
import PdfSchema.Proofs.Schema.Values

namespace PdfSchema

open Consistency

def isDefaultFinding (code : String) (column : Option String) : Bool :=
  (code = "bad-default-value" || code = "alternative-count") && column = some "DefaultValue"

/-- Whether the record `r` of a table makes up the row of its key and is of the single type `type`,
and all else in the table can be read, whatever the cell of its default is. -/
structure Table.Declares (t : Table) (r : Table.Record) (type : ValueType) : Prop where
  first : t.records.find? (·.key = r.key) = some r
  readable : ∀ q ∈ t.records, q.key ≠ "" ∧ (q ≠ r → q.row?.isSome = true)
  typed : ∃ r' row, r'.row? = some row ∧ r.SameBut [.defaultValue] r' ∧
    row.types.map TypeEntry.valueType? = [some type]

/-- Whether a table gives an object in which the row of a record has one type and one default, and
`findings` are all that is found about the default in a schema with the object. -/
structure Table.GivesDefault (t : Table) (r : Table.Record) (type : ValueType) (v : Value)
    (findings : List Finding) : Prop where
  found : ∃ rows row, t.toObject.2 = .ok rows ∧ rows.get? r.key = some row ∧
    row.types.map TypeEntry.valueType? = [some type] ∧ row.defaultValue = some [some v] ∧
    ∀ (s : Schema) (roots : List String), s.get? t.name = some rows →
      (s.validate roots).filter (fun d ↦ d.location.object = some t.name ∧
          d.location.key = some r.key ∧ isDefaultFinding d.code d.location.column = true) =
        findings.map (Finding.diagnostic t.name (some r.key))
  silent : ∀ d ∈ t.toObject.1, isDefaultFinding d.code d.location.column = false

theorem Table.GivesDefault.value_eq {t : Table} {r : Table.Record} {type : ValueType}
    {v v' : Value} {findings findings' : List Finding} (h : t.GivesDefault r type v findings)
    (h' : t.GivesDefault r type v' findings') : v = v' := by
  obtain ⟨rows, row, hrows, hget, -, hdefault, -⟩ := h.found
  obtain ⟨rows', row', hrows', hget', -, hdefault', -⟩ := h'.found
  obtain rfl : rows = rows' := Except.ok.inj (hrows.symm.trans hrows')
  obtain rfl : row = row' := Option.some.inj (hget.symm.trans hget')
  simpa using hdefault.symm.trans hdefault'

theorem isOfValues_of_isDefaultFinding (f : Finding)
    (h : isDefaultFinding f.code (f.column?.map Column.label) = true) : f.isOfValues = true := by
  cases f with
  | badDefault | badPossible | defaultNotPossible => rfl
  | alternativeCount column =>
    cases column with
    | defaultValue | possibleValues => rfl
    | _ => exact absurd h (by simp [isDefaultFinding, Finding.code, Finding.column?, Column.label])
  | badFlag column =>
    cases column <;> exact absurd h (by simp [isDefaultFinding, Finding.code])
  | notCall column | functionNotAllowed column =>
    cases column <;> exact absurd h (by simp [isDefaultFinding, Finding.code, Finding.functionCode])
  | _ => exact absurd h (by simp [isDefaultFinding, Finding.code])

theorem Cell.callsFunction_parens {s : String} (h : callsFunction s = false) :
    callsFunction ("(" ++ s ++ ")") = false := by
  rw [← Bool.not_eq_true, callsFunction, occursIn_eq_true_iff] at h ⊢
  have htext : ("(" ++ s ++ ")").toList = '(' :: (s.toList ++ [')']) := by simp
  rw [htext, List.infix_cons_iff, List.infix_concat_iff]
  rintro (⟨rest, hrest⟩ | ⟨rest, hrest⟩ | hin)
  · cases hrest
  · have hlast := congrArg List.getLast? hrest
    simp at hlast
  · exact h hin

namespace Row

theorem defaultValues_text {cell s : String} (hcell : Text.trim cell = "(" ++ s ++ ")")
    (hcalls : Cell.callsFunction s = false) (hcut : ';' ∉ s.toList) (e : TypeEntry) :
    defaultValues cell [e] = .ok (some [some (.text ("(" ++ s ++ ")"))]) := by
  have hne : Text.trim cell ≠ "" := by
    intro h
    have h := congrArg String.toList (hcell.symm.trans h)
    simp at h
  have htrim : Text.trim ("(" ++ s ++ ")") = "(" ++ s ++ ")" := by
    rw [← hcell, Text.trim_trim]
  have hparens : Text.InParens ("(" ++ s ++ ")") := by
    simp [Text.InParens, List.getLast?_cons]
  have hvalue : value .defaultValue ("(" ++ s ++ ")") = .ok (.text ("(" ++ s ++ ")")) := by
    have hvalue := value_of_inParens .defaultValue (s := "(" ++ s ++ ")")
    rw [htrim] at hvalue
    exact hvalue hparens (Cell.callsFunction_parens hcalls)
  rw [defaultValues, Cell.optionalAlternatives_of_notMem hne (by simpa [hcell] using hcut),
    Cell.alternative?_eq_some hne (by simp [hcell]), ite_self]
  simp [mapPresent_singleton, hcell, hvalue, asName, Except.map]

theorem eq_alternativeCount_of_isDefaultFinding {f : Row.Finding}
    (h : isDefaultFinding f.code (f.column?.map Column.label) = true) :
    ∃ entries types, f = .alternativeCount .defaultValue entries types := by
  cases f with
  | alternativeCount column entries types =>
    cases column with
    | defaultValue => exact ⟨entries, types, rfl⟩
    | _ => exact absurd h (by simp [isDefaultFinding, Finding.code, Finding.column?, Column.label])
  | shape column e => cases e <;> exact absurd h (by simp [isDefaultFinding, Finding.code])
  | _ => exact absurd h (by simp [isDefaultFinding, Finding.code])

theorem not_isDefaultFinding_of_ofRecord {r : Table.Record} {row : Row}
    {findings : List Row.Finding} (h : ofRecord r = (findings, .ok row)) :
    ∀ f ∈ findings, isDefaultFinding f.code (f.column?.map Column.label) = false := by
  intro f hf
  rw [← Bool.not_eq_true]
  intro hdefault
  obtain ⟨entries, types, rfl⟩ := eq_alternativeCount_of_isDefaultFinding hdefault
  rw [findings_of_ofRecord h] at hf
  simp only [List.mem_append, shapeFindings, List.mem_flatMap, List.mem_map] at hf
  rcases hf with (hf | hf) | ⟨_, _, _, _, hf⟩
  · unfold countFindings at hf
    split at hf <;> simp at hf
  · unfold countFindings at hf
    split at hf
    · cases hf
    · split at hf <;> simp at hf
  · cases hf

end Row

namespace Table

variable {t : Table} {r : Record} {row : Row} {rows : SchemaObject} {type : ValueType}

theorem not_isDefaultFinding_of_addRow (object : String) (rows : SchemaObject)
    (hrow : r.row? = some row) : ∀ f ∈ (addRow object rows r).1,
      isDefaultFinding f.code (f.column?.map Column.label) = false := by
  obtain ⟨found, hread⟩ := Record.readAs_iff.1 (Record.row?_eq_some_iff.1 hrow)
  have hfound := Row.not_isDefaultFinding_of_ofRecord hread
  have hcount : isDefaultFinding (Row.Finding.columnCount r.line r.cellCount).code
      ((Row.Finding.columnCount r.line r.cellCount).column?.map Column.label) = false := rfl
  have hduplicate : isDefaultFinding (Row.Finding.duplicateKey r.key).code
      ((Row.Finding.duplicateKey r.key).column?.map Column.label) = false := rfl
  unfold addRow
  rw [hread]
  grind

theorem not_isDefaultFinding_of_addRows (object : String) {records : List Record}
    (h : ∀ r ∈ records, ∃ row, r.row? = some row) (rows : SchemaObject) :
    ∀ d ∈ (addRows object rows records).1,
      isDefaultFinding d.code d.location.column = false := by
  induction records generalizing rows with
  | nil =>
    intro d hd
    cases hd
  | cons r records ih =>
    obtain ⟨⟨row, hrow⟩, hrecords⟩ := List.forall_mem_cons.1 h
    have hfirst := not_isDefaultFinding_of_addRow object rows hrow
    have hfirst : ∀ d ∈ (addRow object rows r).1.map (Row.Finding.diagnostic object r.key),
        isDefaultFinding d.code d.location.column = false := List.forall_mem_map.2 hfirst
    rw [addRows]
    split
    · intro d hd
      cases hd
    · split
      · rename_i hadd
        rwa [hadd] at hfirst
      · rename_i findings rows' hadd
        rw [hadd] at hfirst
        exact List.forall_mem_append.2 ⟨hfirst, ih hrecords rows'⟩

namespace Declares

theorem types_of_row (h : t.Declares r type) (hrow : r.row? = some row) :
    ∃ e, row.types = [e] ∧ e.valueType? = some type := by
  obtain ⟨r', row', hrow', hsame, htypes⟩ := h.typed
  obtain ⟨e, he, htype⟩ := List.map_eq_singleton_iff.1 htypes
  have hread := (Record.row?_eq_some_iff.1 hrow').types
  rw [← hsame .type (by decide), (Record.row?_eq_some_iff.1 hrow).types] at hread
  exact ⟨e, (Except.ok.inj hread).trans he, htype⟩

theorem exists_row (h : t.Declares r type) {defaults : Option (List (Option Value))}
    (hdefault : ∀ e : TypeEntry, e.valueType? = some type →
      Row.defaultValues (r.cell .defaultValue) [e] = .ok defaults) :
    ∃ row, r.row? = some row ∧ row.types.map TypeEntry.valueType? = [some type] ∧
      row.defaultValue = defaults := by
  obtain ⟨r', row, hrow, hsame, htypes⟩ := h.typed
  obtain ⟨e, he, htype⟩ := List.map_eq_singleton_iff.1 htypes
  have hread := Record.row?_eq_some_iff.1 hrow
  have hdefault := hdefault e htype
  rw [← he] at hdefault
  have hpossible := hread.possibleValues
  have hlink := hread.link
  rw [← hsame .possibleValues (by decide)] at hpossible
  rw [← hsame .link (by decide)] at hlink
  have hrewritten := hread.rewrite (hsame.mono (by simp)) hdefault hpossible hlink
  exact ⟨_, Record.row?_eq_some_iff.2 hrewritten, htypes, rfl⟩

theorem exists_entries (h : t.Declares r type)
    (hcut : ';' ∈ (Text.trim (r.cell .defaultValue)).toList) (hrows : t.toObject.2 = .ok rows) :
    ∃ row entries, rows.get? r.key = some row ∧
      row.types.map TypeEntry.valueType? = [some type] ∧ row.defaultValue = some entries ∧
      entries.length = (Text.trim (r.cell .defaultValue)).toList.count ';' + 1 := by
  obtain ⟨row, hrow, hget⟩ := exists_row_of_toObject h.first h.readable hrows
  obtain ⟨e, he, htype⟩ := h.types_of_row hrow
  have hread := (Record.row?_eq_some_iff.1 hrow).defaultValue
  obtain ⟨entries, hentries, hlength⟩ := Row.length_of_defaultValues hcut hread
  exact ⟨row, entries, hget, by rw [he, List.map_singleton, htype], hentries, hlength⟩

end Declares

end Table

namespace Consistency

variable {row : Row} {type : ValueType} {v : Value}

theorem literalProblem_text (htype : type.isText = true) (raw : String) :
    literalProblem type (.text raw) = none := by
  cases type <;> first | rfl | cases htype

theorem filter_checkAlternative {t : TypeEntry} (htype : t.valueType? = some type) (row : Row)
    (i : Nat) : (checkAlternative row t i).filter
        (fun f ↦ isDefaultFinding f.code (f.column?.map Column.label)) =
      (((((row.defaultValue.getD [])[i]?).join).bind (literalProblem type)).map
        .badDefault).toList := by
  have hbad (problem? : Option LiteralProblem) : (problem?.map Finding.badDefault).toList.filter
      (fun f ↦ isDefaultFinding f.code (f.column?.map Column.label)) =
        (problem?.map .badDefault).toList := by
    cases problem? <;> rfl
  have hpossible (problems : List LiteralProblem) : (problems.map Finding.badPossible).filter
      (fun f ↦ isDefaultFinding f.code (f.column?.map Column.label)) = [] := by
    simp [isDefaultFinding, Finding.code]
  have hlisted (v : Value) (possible : List Value) : (checkDefault v possible).filter
      (fun f ↦ isDefaultFinding f.code (f.column?.map Column.label)) = [] := by
    unfold checkDefault
    split <;> rfl
  simp only [checkAlternative, htype, List.filter_append, hbad, hpossible, List.append_nil]
  split
  · rw [hlisted, List.append_nil]
  · exact List.append_nil _

theorem filter_checkValues_of_default (htypes : row.types.map TypeEntry.valueType? = [some type])
    (hdefault : row.defaultValue = some [some v]) :
    (checkValues row).filter (fun f ↦ isDefaultFinding f.code (f.column?.map Column.label)) =
      ((literalProblem type v).map .badDefault).toList := by
  obtain ⟨e, he, htype⟩ := List.map_eq_singleton_iff.1 htypes
  have hcount : checkCount .defaultValue row row.defaultValue = [] := by
    simp [checkCount, hdefault, he]
  have hpossibleCount : (checkCount .possibleValues row row.possibleValues).filter
      (fun f ↦ isDefaultFinding f.code (f.column?.map Column.label)) = [] := by
    unfold checkCount
    split
    · rfl
    · split <;> rfl
  rw [checkValues, hcount, he, List.zipIdx_singleton, List.flatMap_singleton, List.nil_append,
    List.filter_append, hpossibleCount, List.nil_append, filter_checkAlternative htype, hdefault]
  rfl

theorem alternativeCount_mem_checkValues (htypes : row.types.map TypeEntry.valueType? = [some type])
    {entries : List (Option Value)} (hdefault : row.defaultValue = some entries)
    (hlength : entries.length ≠ 1) :
    .alternativeCount .defaultValue entries.length 1 ∈ checkValues row := by
  obtain ⟨e, he, -⟩ := List.map_eq_singleton_iff.1 htypes
  have hcount : checkCount .defaultValue row row.defaultValue =
      [.alternativeCount .defaultValue entries.length 1] := by
    simp [checkCount, hdefault, he, hlength]
  rw [checkValues, hcount]
  exact List.mem_cons_self

end Consistency

/-- What a table that declares a key comes to, by what the cell of its default is read as. -/
theorem Table.Declares.givesDefault {t : Table} {r : Table.Record} {type : ValueType} {v : Value}
    (h : t.Declares r type) (hdefault : ∀ e : TypeEntry, e.valueType? = some type →
      Row.defaultValues (r.cell .defaultValue) [e] = .ok (some [some v])) :
    t.GivesDefault r type v ((literalProblem type v).map .badDefault).toList := by
  obtain ⟨row, hrow, htypes, hvalue⟩ := h.exists_row hdefault
  obtain ⟨diagnostics, rows, hobject, hget⟩ :=
    Table.exists_toObject_of_first h.first h.readable hrow
  have hall : ∀ q ∈ t.records, ∃ row, q.row? = some row := by
    have hadd : addRows t.name .empty t.records = (diagnostics, .ok rows) := hobject
    exact Table.exists_row_of_addRows hadd
  constructor
  case found =>
    refine ⟨rows, row, congrArg Prod.snd hobject, hget, htypes, hvalue, fun s roots hs ↦ ?_⟩
    rw [filter_validate_of_isOfValues isOfValues_of_isDefaultFinding roots hs hget,
      filter_checkValues_of_default htypes hvalue]
  case silent => exact Table.not_isDefaultFinding_of_addRows t.name hall .empty

/-- A text in parentheses as the default of a row of a type of texts. Exactly if there is no
semicolon in it, it is the only default of the row, as it stands, and nothing is found about it.
With semicolons the row has more defaults than types, and this is found, or there is no object. -/
theorem Table.Declares.text_default_iff {t : Table} {r : Table.Record} {type : ValueType}
    {s : String} (h : t.Declares r type) (htype : type.isText = true)
    (hcell : Text.trim (r.cell .defaultValue) = "(" ++ s ++ ")")
    (hcalls : Cell.callsFunction s = false) :
    ((∃ findings, t.GivesDefault r type (.text ("(" ++ s ++ ")")) findings) ↔ ';' ∉ s.toList) ∧
    (';' ∉ s.toList → t.GivesDefault r type (.text ("(" ++ s ++ ")")) []) ∧
    (';' ∈ s.toList → ∀ rows, t.toObject.2 = .ok rows → ∃ row entries,
      rows.get? r.key = some row ∧ row.defaultValue = some entries ∧
      entries.length = s.toList.count ';' + 1 ∧
      ∀ (schema : Schema) (roots : List String), schema.get? t.name = some rows →
        (Finding.alternativeCount .defaultValue entries.length 1).diagnostic t.name (some r.key) ∈
          schema.validate roots) := by
  have hkept (hcut : ';' ∉ s.toList) : t.GivesDefault r type (.text ("(" ++ s ++ ")")) [] := by
    have hgives := h.givesDefault fun e _ ↦ Row.defaultValues_text hcell hcalls hcut e
    rwa [literalProblem_text htype] at hgives
  have hcut (hmem : ';' ∈ s.toList) {rows : SchemaObject} (hrows : t.toObject.2 = .ok rows) :
      ∃ row entries, rows.get? r.key = some row ∧
        row.types.map TypeEntry.valueType? = [some type] ∧ row.defaultValue = some entries ∧
        entries.length = s.toList.count ';' + 1 := by
    have hcount : (Text.trim (r.cell .defaultValue)).toList.count ';' = s.toList.count ';' := by
      simp [hcell]
    rw [← hcount]
    exact h.exists_entries (by simp [hcell, hmem]) hrows
  refine ⟨⟨?_, fun hcut ↦ ⟨_, hkept hcut⟩⟩, hkept, fun hmem rows hrows ↦ ?_⟩
  · rintro ⟨findings, ⟨rows, row, hrows, hget, -, hdefault, -⟩, -⟩ hmem
    obtain ⟨row', entries, hget', -, hentries, hlength⟩ := hcut hmem hrows
    obtain rfl : row = row' := Option.some.inj (hget.symm.trans hget')
    obtain rfl : [some (Value.text ("(" ++ s ++ ")"))] = entries :=
      Option.some.inj (hdefault.symm.trans hentries)
    have hpos := List.count_pos_iff.2 hmem
    rw [List.length_singleton] at hlength
    omega
  · obtain ⟨row, entries, hget, htypes, hentries, hlength⟩ := hcut hmem hrows
    refine ⟨row, entries, hget, hentries, hlength, fun schema roots hs ↦ ?_⟩
    have hpos := List.count_pos_iff.2 hmem
    have hcount := alternativeCount_mem_checkValues htypes hentries (by omega)
    have hfilter := filter_validate_of_isOfValues isOfValues_of_isDefaultFinding roots hs hget
    exact (List.mem_filter.1 (hfilter ▸ List.mem_map_of_mem (List.mem_filter.2 ⟨hcount, rfl⟩))).1

def valueTable (type default : String) : Table :=
  ⟨"FileTrailer", "FileTrailer.tsv", [.ofValues type default ""]⟩

theorem declares_valueTable {type : String} {valueType : ValueType} (default : String)
    (h : (Table.Record.ofValues type "" "").row?.map (fun row ↦
      row.types.map TypeEntry.valueType?) = some [some valueType]) :
    (valueTable type default).Declares (.ofValues type default "") valueType where
  first := by simp [valueTable]
  readable := by
    intro q hq
    rw [List.mem_singleton.1 hq, Table.Record.key, Table.Record.cell_ofValues]
    have hkey : Text.trim "V" ≠ "" := by decide +kernel
    exact ⟨hkey, fun hne ↦ absurd rfl hne⟩
  typed := by
    obtain ⟨row, hrow, htypes⟩ := Option.map_eq_some_iff.1 h
    refine ⟨_, row, hrow, fun c hc ↦ ?_, htypes⟩
    rw [Table.Record.cell_ofValues, Table.Record.cell_ofValues]
    cases c with
    | defaultValue => exact absurd hc (by decide)
    | _ => rfl

theorem bracketsInText_default :
    (valueTable "string" " (a), [b (c)").Declares (.ofValues "string" " (a), [b (c)" "") .string ∧
    (valueTable "string" " (a), [b (c)").GivesDefault (.ofValues "string" " (a), [b (c)" "")
      .string (.text "(a), [b (c)") [] := by
  have h : (valueTable "string" " (a), [b (c)").Declares (.ofValues "string" " (a), [b (c)" "")
      .string := declares_valueTable _ (by decide +kernel)
  have hcell : Text.trim ((Table.Record.ofValues "string" " (a), [b (c)" "").cell .defaultValue) =
      "(" ++ "a), [b (c" ++ ")" := by
    rw [Table.Record.cell_ofValues]
    decide +kernel
  exact ⟨h, (h.text_default_iff rfl hcell (by decide +kernel)).2.1 (by decide)⟩

/-- A semicolon cuts a text in two, and neither half is one. -/
theorem semicolonInText_default :
    (valueTable "string" "(a;b)").Declares (.ofValues "string" "(a;b)" "") .string ∧
    Cell.callsFunction "a;b" = false ∧
    (valueTable "string" "(a;b)").toObject.2.map (fun _ ↦ ()) =
      .error (.badCell "FileTrailer" "V" ⟨.defaultValue, "(a", .nesting (.unclosed .paren)⟩) :=
  ⟨declares_valueTable _ (by decide +kernel), by decide +kernel, by decide +kernel⟩

end PdfSchema
