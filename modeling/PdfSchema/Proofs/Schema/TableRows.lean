import PdfSchema.Ingestion
import PdfSchema.Proofs.Row.Reading

namespace PdfSchema.Table

variable {rows : SchemaObject} {records : List Record} {r : Record} {row : Row} {object : String}

def Record.row? (r : Record) : Option Row := (Row.ofRecord r).2.toOption

theorem Record.row?_eq_some_iff : r.row? = some row ↔ r.ReadAs row := by
  rw [readAs_iff, row?]
  cases h : Row.ofRecord r with
  | mk findings result => cases result <;> simp [Except.toOption]

theorem exists_addRow (object : String) (rows : SchemaObject) (h : r.row? = some row) :
    ∃ findings rows', addRow object rows r = (findings, .ok rows') ∧
      ∀ key, rows'.get? key = (rows.get? key).or (if r.key = key then some row else none) := by
  obtain ⟨found, hread⟩ := Record.readAs_iff.1 (Record.row?_eq_some_iff.1 h)
  by_cases hcontains : rows.contains r.key = true
  · refine ⟨(addRow object rows r).1, rows, Prod.ext rfl ?_, fun key ↦ ?_⟩
    · simp [addRow, hread, hcontains]
    split
    · rename_i hkey
      obtain ⟨row', hrow'⟩ := Option.isSome_iff_exists.1 hcontains
      rw [← hkey, hrow', Option.some_or]
    · rw [Option.or_none]
  · refine ⟨(addRow object rows r).1, rows.put r.key row, Prod.ext rfl ?_, fun key ↦ ?_⟩
    · simp [addRow, hread, hcontains]
    rw [KeyedList.get?_put]
    split
    · rename_i hkey
      rw [← hkey, Option.not_isSome_iff_eq_none.1 hcontains, Option.none_or]
    · rw [Option.or_none]

theorem exists_addRows (object : String)
    (h : ∀ r ∈ records, r.key ≠ "" ∧ r.row?.isSome = true) (rows : SchemaObject) :
    ∃ diagnostics rows', addRows object rows records = (diagnostics, .ok rows') ∧
      ∀ key, rows'.get? key =
        (rows.get? key).or ((records.find? (·.key = key)).bind Record.row?) := by
  induction records generalizing rows with
  | nil => exact ⟨[], rows, rfl, fun key ↦ by simp⟩
  | cons r records ih =>
    obtain ⟨⟨hkey, hr⟩, hrecords⟩ := List.forall_mem_cons.1 h
    obtain ⟨row, hrow⟩ := Option.isSome_iff_exists.1 hr
    obtain ⟨findings, rows₁, hadd, hrows₁⟩ := exists_addRow object rows hrow
    obtain ⟨diagnostics, rows', hlater, hrows'⟩ := ih hrecords rows₁
    refine ⟨(addRows object rows (r :: records)).1, rows', Prod.ext rfl ?_, fun key ↦ ?_⟩
    · simp [addRows, hkey, hadd, hlater]
    rw [hrows', hrows₁, Option.or_assoc, List.find?_cons]
    by_cases hk : r.key = key <;> simp [hk, hrow]

theorem exists_row_of_addRow {rows' : SchemaObject} {findings : List Row.Finding}
    (h : addRow object rows r = (findings, .ok rows')) : ∃ row, r.row? = some row := by
  unfold addRow at h
  simp only at h
  split at h
  · cases h
  · rename_i found row hread
    exact ⟨row, Record.row?_eq_some_iff.2 (Record.readAs_iff.2 ⟨found, hread⟩)⟩

theorem exists_row_of_addRows {rows' : SchemaObject} {diagnostics : List Diagnostic}
    (h : addRows object rows records = (diagnostics, .ok rows')) :
    ∀ r ∈ records, ∃ row, r.row? = some row := by
  induction records generalizing rows diagnostics with
  | nil => exact fun r hr ↦ nomatch hr
  | cons r records ih =>
    rw [addRows] at h
    split at h
    · cases h
    · split at h
      · cases h
      · rename_i findings rows₁ hadd
        obtain ⟨-, hlater⟩ := Prod.mk.inj h
        exact List.forall_mem_cons.2 ⟨exists_row_of_addRow hadd, ih (Prod.ext rfl hlater)⟩

theorem exists_toObject {t : Table} (h : ∀ r ∈ t.records, r.key ≠ "" ∧ r.row?.isSome = true) :
    ∃ diagnostics rows, t.toObject = (diagnostics, .ok rows) ∧
      ∀ key, rows.get? key = (t.records.find? (·.key = key)).bind Record.row? := by
  obtain ⟨diagnostics, rows, hadd, hrows⟩ := exists_addRows t.name h .empty
  exact ⟨diagnostics, rows, hadd, fun key ↦ (hrows key).trans (Option.none_or)⟩

section

variable {t : Table} (hfirst : t.records.find? (·.key = r.key) = some r)
  (hread : ∀ q ∈ t.records, q.key ≠ "" ∧ (q ≠ r → q.row?.isSome = true))

include hfirst hread

/-- If the first record of a key is read, and all others are, then its row is that of the key. -/
theorem exists_toObject_of_first (hrow : r.row? = some row) :
    ∃ diagnostics rows, t.toObject = (diagnostics, .ok rows) ∧ rows.get? r.key = some row := by
  have hall : ∀ q ∈ t.records, q.key ≠ "" ∧ q.row?.isSome = true := by
    intro q hq
    obtain ⟨hkey, hother⟩ := hread q hq
    refine ⟨hkey, ?_⟩
    by_cases hqr : q = r
    · rw [hqr, hrow]
      rfl
    · exact hother hqr
  obtain ⟨diagnostics, rows, hobject, hrows⟩ := exists_toObject hall
  refine ⟨diagnostics, rows, hobject, ?_⟩
  rw [hrows, hfirst, Option.bind_some, hrow]

theorem exists_row_of_toObject (hobject : t.toObject.2 = .ok rows) :
    ∃ row, r.row? = some row ∧ rows.get? r.key = some row := by
  have hadd : t.toObject = (t.toObject.1, .ok rows) := Prod.ext rfl hobject
  obtain ⟨row, hrow⟩ := exists_row_of_addRows hadd r (List.mem_of_find?_eq_some hfirst)
  obtain ⟨diagnostics, rows', hobject', hget⟩ := exists_toObject_of_first hfirst hread hrow
  obtain rfl : rows' = rows := Except.ok.inj ((congrArg Prod.snd hobject').symm.trans hobject)
  exact ⟨row, hrow, hget⟩

end

def Record.ofValues (type default possible : String) : Record :=
  .ofFields (Column.all.map Column.label) 2
    ["V", type, "1.0", "", "FALSE", "FALSE", "FALSE", default, possible, "", "", ""]

theorem Record.cell_ofValues (type default possible : String) (c : Column) :
    (Record.ofValues type default possible).cell c =
      match c with
      | .key => "V"
      | .type => type
      | .sinceVersion => "1.0"
      | .required | .indirectReference | .inheritable => "FALSE"
      | .defaultValue => default
      | .possibleValues => possible
      | .deprecatedIn | .specialCase | .link | .note => "" := by
  have hcells : (ofValues type default possible).cells =
      [("Key", "V"), ("Type", type), ("SinceVersion", "1.0"), ("DeprecatedIn", ""),
        ("Required", "FALSE"), ("IndirectReference", "FALSE"), ("Inheritable", "FALSE"),
        ("DefaultValue", default), ("PossibleValues", possible), ("SpecialCase", ""), ("Link", ""),
        ("Note", "")] := by
    simp [ofValues, ofFields, Pairs.ofList, Pairs.put, Column.all, Column.label]
  cases c <;> simp [cell, hcells, Pairs.get?, Column.label]

end PdfSchema.Table
