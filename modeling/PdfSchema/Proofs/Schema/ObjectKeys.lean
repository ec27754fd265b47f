import PdfSchema.Proofs.KeyedList
import PdfSchema.Proofs.Schema.Ingestion
import PdfSchema.Proofs.Schema.TableRows

namespace PdfSchema.Table

def Record.failure? (object : String) (r : Record) : Option ObjectError :=
  if r.key = "" then some (.emptyKey object r.line)
  else match (Row.ofRecord r).2 with
    | .error e => some (.badCell object r.key e)
    | .ok _ => none

/-- The records whose key some record before them has. -/
def repeated (records : List Record) : List Record :=
  (records.zipIdx.filter fun p ↦ p.1.key ∈ (records.take p.2).map Record.key).map Prod.fst

/-- What the rows of an object and the diagnostics about them are, where all records are read. -/
structure Collects (object : String) (records : List Record) (diagnostics : List Diagnostic)
    (rows : SchemaObject) : Prop where
  keys : rows.keys = (records.map Record.key).eraseDups
  row : ∀ key, rows.get? key = (records.find? (·.key = key)).bind Record.row?
  repeated : diagnostics.filter (·.code = "duplicate-key") = (repeated records).map fun r ↦
    (Row.Finding.duplicateKey r.key).diagnostic object r.key
  columnCount : diagnostics.filter (·.code = "column-count") =
    (records.filter (·.cellCount ≠ Column.all.length)).map fun r ↦
      (Row.Finding.columnCount r.line r.cellCount).diagnostic object r.key

variable {object : String} {records done : List Record} {r : Record} {row : Row}
  {rows rows' : SchemaObject} {findings : List Row.Finding} {diagnostics ds : List Diagnostic}
  {e : ObjectError}

theorem repeated_concat (records : List Record) (r : Record) : repeated (records ++ [r]) =
    repeated records ++ if r.key ∈ records.map Record.key then [r] else [] := by
  have hbefore : records.zipIdx.filter
        (fun p ↦ p.1.key ∈ ((records ++ [r]).take p.2).map Record.key) =
      records.zipIdx.filter fun p ↦ p.1.key ∈ (records.take p.2).map Record.key := by
    refine List.filter_congr fun p hp ↦ ?_
    have hlt := List.snd_lt_of_mem_zipIdx hp
    rw [List.take_append_of_le_length (by omega)]
  rw [repeated, List.zipIdx_append, List.filter_append, hbefore, List.map_append, ← repeated]
  split <;> simp [*]

theorem Record.isSome_failure?_iff : (r.failure? object).isSome = true ↔
    r.key = "" ∨ ∃ e, (Row.ofRecord r).2 = .error e := by
  unfold failure?
  split
  · simp [*]
  · cases (Row.ofRecord r).2 <;> simp [*]

theorem code_of_mem_ofRecord (h : Row.ofRecord r = (findings, .ok row)) {f : Row.Finding}
    (hf : f ∈ findings) : f.code ≠ "duplicate-key" ∧ f.code ≠ "column-count" := by
  have hcell : (∃ column n m, f = .alternativeCount column n m) ∨
      ∃ column e, f = .shape column e := by
    rw [Row.findings_of_ofRecord h] at hf
    unfold Row.countFindings Row.shapeFindings at hf
    grind
  rcases hcell with ⟨column, n, m, rfl⟩ | ⟨column, e, rfl⟩
  · simp [Row.Finding.code]
  · cases e <;> simp [Row.Finding.code]

theorem exists_of_addRow (h : addRow object rows r = (findings, .ok rows')) :
    ∃ found row, Row.ofRecord r = (found, .ok row) ∧
      findings =
        (if r.cellCount = Column.all.length then [] else [.columnCount r.line r.cellCount]) ++
          found ++ (if r.key ∈ rows.keys then [.duplicateKey r.key] else []) ∧
      rows' = if r.key ∈ rows.keys then rows else rows.put r.key row := by
  have hcontains : rows.contains r.key = true ↔ r.key ∈ rows.keys := Pairs.isSome_get?_iff
  unfold addRow at h
  simp only [hcontains] at h
  split at h
  · cases h
  · rename_i found row hread
    refine ⟨found, row, hread, ?_⟩
    split at h <;> cases h <;> simp [*]

theorem filter_of_addRow (h : addRow object rows r = (findings, .ok rows')) :
    findings.filter (·.code = "duplicate-key") =
        (if r.key ∈ rows.keys then [.duplicateKey r.key] else []) ∧
      findings.filter (·.code = "column-count") =
        if r.cellCount = Column.all.length then [] else [.columnCount r.line r.cellCount] := by
  obtain ⟨found, row, hread, rfl, -⟩ := exists_of_addRow h
  have hdup : found.filter (·.code = "duplicate-key") = [] := by
    simpa [List.filter_eq_nil_iff] using fun f hf ↦ (code_of_mem_ofRecord hread hf).1
  have hcount : found.filter (·.code = "column-count") = [] := by
    simpa [List.filter_eq_nil_iff] using fun f hf ↦ (code_of_mem_ofRecord hread hf).2
  rw [List.filter_append, List.filter_append, List.filter_append, List.filter_append, hdup, hcount]
  constructor <;> split <;> split <;> simp [Row.Finding.code]

theorem keys_of_addRow (h : addRow object rows r = (findings, .ok rows')) :
    rows'.keys = rows.keys ++ if r.key ∈ rows.keys then [] else [r.key] := by
  obtain ⟨found, row, -, -, rfl⟩ := exists_of_addRow h
  split
  · rw [List.append_nil]
  · rw [KeyedList.keys_put, if_neg ‹_›]

theorem get?_of_addRow (h : addRow object rows r = (findings, .ok rows')) (key : String) :
    rows'.get? key = (rows.get? key).or (if r.key = key then r.row? else none) := by
  obtain ⟨row, hrow⟩ := exists_row_of_addRow h
  obtain ⟨findings', rows₁, hadd, hget⟩ := exists_addRow object rows hrow
  obtain rfl : rows₁ = rows' := Except.ok.inj (congrArg Prod.snd (hadd.symm.trans h))
  rw [hget, hrow]

theorem filter_map_diagnostic (object key code : String) (findings : List Row.Finding) :
    (findings.map (Row.Finding.diagnostic object key)).filter (·.code = code) =
      (findings.filter (·.code = code)).map (Row.Finding.diagnostic object key) := by
  rw [List.filter_map]
  rfl

namespace Collects

theorem nil (object : String) : Collects object [] [] .empty := by
  constructor <;> first | rfl | exact fun _ ↦ rfl

theorem concat (h : Collects object done ds rows)
    (hadd : addRow object rows r = (findings, .ok rows')) :
    Collects object (done ++ [r]) (ds ++ findings.map (Row.Finding.diagnostic object r.key))
      rows' := by
  obtain ⟨hdup, hcount⟩ := filter_of_addRow hadd
  have hmem : r.key ∈ rows.keys ↔ r.key ∈ done.map Record.key := by
    rw [h.keys, List.mem_eraseDups]
  constructor
  case keys =>
    rw [keys_of_addRow hadd, List.map_append, List.map_singleton,
      KeyedList.eraseDups_concat, ← h.keys]
    simp only [hmem]
  case row =>
    intro key
    rw [get?_of_addRow hadd, List.find?_append, List.find?_singleton]
    cases hfirst : done.find? (·.key = key) with
    | none =>
      rw [h.row, hfirst]
      by_cases hkey : r.key = key <;> simp [hkey]
    | some q =>
      -- The key is there already, so that the row of its first record stays.
      have hq : q.key = key := by simpa using List.find?_some hfirst
      have hkeys : key ∈ rows.keys := by
        rw [h.keys, List.mem_eraseDups, ← hq]
        exact List.mem_map_of_mem (List.mem_of_find?_eq_some hfirst)
      obtain ⟨row, hrow⟩ := KeyedList.exists_get?_of_mem_keys hkeys
      have hget := h.row key
      rw [hfirst, hrow] at hget
      rw [hrow, Option.some_or, hget]
      rfl
  case repeated =>
    rw [List.filter_append, h.repeated, filter_map_diagnostic, hdup, repeated_concat,
      List.map_append]
    simp only [hmem]
    split <;> rfl
  case columnCount =>
    rw [List.filter_append, h.columnCount, filter_map_diagnostic, hcount, List.filter_append,
      List.map_append]
    split <;> simp [*]

theorem addRows (h : Collects object done ds rows)
    (hadd : Table.addRows object rows records = (diagnostics, .ok rows')) :
    Collects object (done ++ records) (ds ++ diagnostics) rows' := by
  induction records generalizing done ds rows diagnostics with
  | nil =>
    cases hadd
    simpa using h
  | cons r records ih =>
    rw [Table.addRows] at hadd
    split at hadd
    · cases hadd
    · split at hadd
      · cases hadd
      · rename_i findings rows₁ hrow
        obtain ⟨rfl, hlater⟩ := Prod.mk.inj hadd
        simpa using ih (h.concat hrow) (Prod.ext rfl hlater)

end Collects

theorem addRows_eq_error_iff (rows : SchemaObject) :
    (addRows object rows records).2 = .error e ↔
      records.findSome? (Record.failure? object) = some e := by
  induction records generalizing rows with
  | nil => exact ⟨fun h ↦ (nomatch h), fun h ↦ (nomatch h)⟩
  | cons r records ih =>
    rw [List.findSome?_cons, addRows, Record.failure?]
    split
    · simp
    · rename_i hkey
      cases hread : Row.ofRecord r with | mk found result
      cases result with
      | error cell => simp [addRow, hread]
      | ok row =>
        have hrow : r.row? = some row :=
          Record.row?_eq_some_iff.2 (Record.readAs_iff.2 ⟨found, hread⟩)
        obtain ⟨findings, rows₁, hadd, -⟩ := exists_addRow object rows hrow
        simpa [hadd] using ih rows₁

/-- A table gives no object exactly if a record has no key or cannot be read, and then the error is
that of the first such record. Else its object and the diagnostics are what its records make up. -/
theorem toObject_outcome (t : Table) :
    ((∃ e, t.toObject.2 = .error e) ↔
      ∃ r ∈ t.records, r.key = "" ∨ ∃ e, (Row.ofRecord r).2 = .error e) ∧
    (∀ e, t.toObject.2 = .error e ↔ ∃ before r after, t.records = before ++ r :: after ∧
      r.failure? t.name = some e ∧ ∀ q ∈ before, q.failure? t.name = none) ∧
    ∀ rows, t.toObject.2 = .ok rows → Collects t.name t.records t.toObject.1 rows := by
  have herror (e : ObjectError) : t.toObject.2 = .error e ↔
      t.records.findSome? (Record.failure? t.name) = some e := addRows_eq_error_iff .empty
  refine ⟨?_, fun e ↦ ?_, fun rows h ↦ ?_⟩
  · simp only [herror, ← Option.isSome_iff_exists, List.isSome_findSome?, List.any_eq_true,
      Record.isSome_failure?_iff]
  · rw [herror, List.findSome?_eq_some_iff]
  · have hadd : addRows t.name .empty t.records = (t.toObject.1, .ok rows) := Prod.ext rfl h
    simpa using (Collects.nil t.name).addRows hadd

end PdfSchema.Table
