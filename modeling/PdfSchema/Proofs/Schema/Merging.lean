import PdfSchema.Proofs.KeyedList
import PdfSchema.Proofs.Schema.Ingestion

namespace PdfSchema

/-- Whether a diagnostic is one that drops an object. -/
def Diagnostic.isFatal (d : Diagnostic) : Bool :=
  ["empty-key", "lex-error", "parse-error"].contains d.code

theorem ObjectError.isFatal_diagnostic (e : ObjectError) : e.diagnostic.isFatal = true := by
  cases e with
  | emptyKey object line => rfl
  | badCell object key cell =>
    cases hcell : cell.error <;> simp [diagnostic, hcell, Diagnostic.isFatal]

theorem Row.Finding.isFatal_diagnostic (object key : String) (f : Row.Finding) :
    (f.diagnostic object key).isFatal = false := by
  cases f with
  | shape column error => cases error <;> rfl
  | _ => rfl

namespace Table

def object? (t : Table) : Option SchemaObject := t.toObject.2.toOption

def failure? (t : Table) : Option ObjectError :=
  match t.toObject.2 with
  | .ok _ => none
  | .error e => some e

def report (t : Table) : List Diagnostic :=
  t.toObject.1 ++ (t.failure?.map ObjectError.diagnostic).toList

def named? (t : Table) : Option (String × SchemaObject) :=
  t.object?.map fun object ↦ (t.name, object)

theorem exists_finding_of_mem_addRows {object : String} {records : List Record} {d : Diagnostic} :
    ∀ {rows : SchemaObject}, d ∈ (addRows object rows records).1 →
      ∃ key f, d = Row.Finding.diagnostic object key f := by
  induction records with
  | nil =>
    intro rows h
    cases h
  | cons r records ih =>
    intro rows h
    unfold addRows at h
    split at h
    · cases h
    · split at h
      · obtain ⟨f, -, rfl⟩ := List.mem_map.1 h
        exact ⟨r.key, f, rfl⟩
      · rcases List.mem_append.1 h with h | h
        · obtain ⟨f, -, rfl⟩ := List.mem_map.1 h
          exact ⟨r.key, f, rfl⟩
        · exact ih h

/-- What drops a table's object is said once, and of no other table. -/
theorem length_filter_isFatal_report (t : Table) :
    (t.report.filter Diagnostic.isFatal).length = if t.object?.isSome then 0 else 1 := by
  have hown : t.toObject.1.filter Diagnostic.isFatal = [] := by
    rw [List.filter_eq_nil_iff]
    intro d hd
    obtain ⟨key, f, rfl⟩ := exists_finding_of_mem_addRows hd
    simp [Row.Finding.isFatal_diagnostic]
  rw [report, List.filter_append, hown, List.nil_append, failure?, object?]
  cases t.toObject.2 with
  | ok object => rfl
  | error e => simp [ObjectError.isFatal_diagnostic, Except.toOption]

end Table

namespace Ingested

theorem add_eq (out : Ingested) (t : Table) :
    out.add t = ⟨out.schema.putAll t.named?.toList, out.diagnostics ++ t.report⟩ := by
  cases hobject : t.toObject with | mk diagnostics result
  cases result with
  | ok object =>
    rw [add_of_ok hobject]
    simp [Table.named?, Table.object?, Table.report, Table.failure?, hobject, Except.toOption,
      KeyedList.putAll]
  | error e =>
    rw [add_of_error hobject]
    simp [Table.named?, Table.object?, Table.report, Table.failure?, hobject, Except.toOption,
      KeyedList.putAll]

theorem foldl_add (out : Ingested) (tables : List Table) :
    tables.foldl add out =
      ⟨out.schema.putAll (tables.filterMap Table.named?),
        out.diagnostics ++ tables.flatMap Table.report⟩ := by
  induction tables generalizing out with
  | nil => simp [KeyedList.putAll]
  | cons t tables ih =>
    rw [List.foldl_cons, ih, add_eq, List.flatMap_cons, List.append_assoc]
    congr 1
    rw [← KeyedList.putAll_append]
    cases ht : t.named? <;> simp [ht]

end Ingested

theorem ingest_eq (tables : List Table) :
    ingest tables =
      ⟨KeyedList.empty.putAll (tables.filterMap Table.named?), tables.flatMap Table.report⟩ :=
  Ingested.foldl_add .empty tables

/-- What the tables come to: the objects of those that can be read, and what is said of each. -/
structure Ingested.Collects (out : Ingested) (tables : List Table) : Prop where
  names : out.schema.keys =
    ((tables.filter fun t ↦ t.object?.isSome).map Table.name).eraseDups
  object_iff : ∀ name object, out.schema.get? name = some object ↔
    ∃ before t after, tables = before ++ t :: after ∧ t.name = name ∧ t.object? = some object ∧
      ∀ later ∈ after, later.name = name → later.object? = none
  diagnostics : out.diagnostics = tables.flatMap Table.report
  fatal : ∀ t ∈ tables,
    (t.report.filter Diagnostic.isFatal).length = if t.object?.isSome then 0 else 1

theorem keys_filterMap_named? (tables : List Table) :
    Pairs.keys (tables.filterMap Table.named?) =
      (tables.filter fun t ↦ t.object?.isSome).map Table.name := by
  induction tables with
  | nil => rfl
  | cons t tables ih =>
    cases ht : t.object? with
    | none => simpa [Table.named?, ht] using ih
    | some object => simpa [Table.named?, ht, Pairs.keys] using ih

theorem collects_ingest (tables : List Table) : (ingest tables).Collects tables := by
  have hnamed {t : Table} {name : String} {object : SchemaObject} :
      t.named? = some (name, object) ↔ t.name = name ∧ t.object? = some object := by
    cases ht : t.object? <;> simp [Table.named?, ht]
  have hlater {t : Table} {name : String} :
      (∀ object, t.named? ≠ some (name, object)) ↔ (t.name = name → t.object? = none) := by
    simp only [ne_eq, hnamed, not_and, Option.eq_none_iff_forall_ne_some]
    exact ⟨fun h hname object ↦ h object hname, fun h object hname ↦ h hname object⟩
  constructor
  case names => rw [ingest_eq, KeyedList.keys_putAll, keys_filterMap_named?]
  case object_iff =>
    intro name object
    rw [ingest_eq, KeyedList.get?_putAll_filterMap_eq_some_iff]
    simp only [hnamed, hlater, and_assoc]
  case diagnostics => rw [ingest_eq]
  case fatal => exact fun t _ ↦ t.length_filter_isFatal_report

/-- Tables are read apart from each other: one that fails can be left out, and tables that are read
again change no object. -/
theorem ingest_isolated (tables : List Table) :
    (ingest tables).Collects tables ∧
    (∀ before t after, tables = before ++ t :: after → t.object? = none →
      (ingest tables).schema = (ingest (before ++ after)).schema ∧
      (ingest tables).diagnostics =
        (ingest before).diagnostics ++ t.report ++ (ingest after).diagnostics ∧
      (ingest (before ++ after)).diagnostics =
        (ingest before).diagnostics ++ (ingest after).diagnostics) ∧
    (ingest (tables ++ tables)).schema = (ingest tables).schema := by
  refine ⟨collects_ingest tables, ?_, ?_⟩
  · rintro before t after rfl ht
    have hnamed : t.named? = none := by rw [Table.named?, ht, Option.map_none]
    simp [ingest_eq, hnamed]
  · simp only [ingest_eq, List.filterMap_append, KeyedList.putAll_append_self]

def rowTable (name key type link : String) : Table :=
  ⟨name, name ++ ".tsv", Table.recordsOf [(1, Column.all.map Column.label),
    (2, [key, type, "1.0", "", "FALSE", "FALSE", "FALSE", "", "", "", link, ""])]⟩

def mixedTables : List Table :=
  [rowTable "Leaf" "Size" "fn:SinceVersion((" "", rowTable "Node" "Kids" "integer" ""] ++
    rowTable "Node" "" "integer" "" ::
      [rowTable "Leaf" "Size" "integer" "", rowTable "Node" "Count" "name" ""]

theorem mixedTables_isolated :
    (rowTable "Node" "" "integer" "").object? = none ∧
    (ingest mixedTables).schema =
      (ingest [rowTable "Leaf" "Size" "fn:SinceVersion((" "", rowTable "Node" "Kids" "integer" "",
        rowTable "Leaf" "Size" "integer" "", rowTable "Node" "Count" "name" ""]).schema ∧
    (ingest (mixedTables ++ mixedTables)).schema = (ingest mixedTables).schema ∧
    (ingest mixedTables).schema.keys = ["Node", "Leaf"] ∧
    ((ingest mixedTables).schema.get? "Node").map KeyedList.keys = some ["Count"] ∧
    (ingest mixedTables).diagnostics.map Diagnostic.code = ["parse-error", "empty-key"] := by
  have hfails : (rowTable "Node" "" "integer" "").object? = none :=
    Option.isNone_iff_eq_none.1 (by decide +kernel)
  obtain ⟨_, hleftOut, hagain⟩ := ingest_isolated mixedTables
  refine ⟨hfails, (hleftOut _ _ _ rfl hfails).1, hagain, ?_⟩
  decide +kernel

end PdfSchema
