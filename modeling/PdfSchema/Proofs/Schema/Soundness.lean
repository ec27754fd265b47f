import Mathlib.Data.List.Chain
import PdfSchema.Consistency
import PdfSchema.Proofs.Schema.Ingestion
import PdfSchema.Proofs.Schema.Reachability

namespace PdfSchema

open Relation

namespace Row

/-- Whether a row has as many entries as types in all columns with one entry a type. -/
structure Aligned (r : Row) : Prop extends r.Counted where
  defaultValue : ∀ entries, r.defaultValue = some entries → entries.length = r.types.length
  possibleValues : ∀ entries, r.possibleValues = some entries → entries.length = r.types.length
  link : ∀ entries, r.link = some entries → entries.length = r.types.length

/-- What holds of the row of `key` in a schema without findings. -/
structure Sound (s : Schema) (key : String) (r : Row) : Prop where
  aligned : r.Aligned
  known : ∀ t ∈ r.types, ∃ name type, t.name? = some name ∧ ValueType.ofLabel? name = some type
  sorted : (r.types.filterMap TypeEntry.name?).Pairwise (· ≤ ·)
  linked : ∀ name ∈ r.linkNames, name ∈ s.keys
  unlinked : ∀ (i : ℕ) (t : TypeEntry) (type : ValueType), r.types[i]? = some t →
    t.valueType? = some type → type.requiresLink = false → r.linksFor i = []
  indirect : ∀ (i : ℕ) (t : TypeEntry), r.types[i]? = some t → t.valueType? = some .stream →
    r.indirectReference[i]? = some (.literal true)
  wildcard : '*' ∈ key.toList → ∀ f ∈ r.required, f = .literal false

end Row

/-- What holds of a schema without findings whose documents start from `roots`. -/
structure Schema.Sound (s : Schema) (roots : List String) : Prop where
  row : ∀ name object, (name, object) ∈ s.pairs → ∀ key row, (key, row) ∈ object.pairs →
    row.Sound s key
  wildcard_last : ∀ name object, (name, object) ∈ s.pairs → "*" ∈ object.keys →
    object.keys.getLast? = some "*"
  reachable : ∀ name ∈ s.keys, ∃ root ∈ roots, ReflTransGen s.LinksTo root name

theorem Row.exists_type_of_mem_linksFor {r : Row}
    (hlink : ∀ entries, r.link = some entries → entries.length = r.types.length) {i : ℕ}
    {target : LinkTarget} (h : target ∈ r.linksFor i) : ∃ t, r.types[i]? = some t := by
  have hlength : (r.link.getD []).length ≤ r.types.length := by
    cases hentries : r.link with
    | none => exact Nat.zero_le _
    | some entries => exact Nat.le_of_eq (hlink entries hentries)
  have hi : i < (r.link.getD []).length := by
    rw [← Nat.not_le]
    intro hle
    rw [linksFor, List.getElem?_eq_none hle] at h
    cases h
  exact ⟨_, List.getElem?_eq_getElem (Nat.lt_of_lt_of_le hi hlength)⟩

namespace Flag

theorem isTrue_iff {f : Flag} : f.isTrue = true ↔ f = .literal true := by
  cases f <;> simp [isTrue]

theorem isFalse_iff {f : Flag} : f.isFalse = true ↔ f = .literal false := by
  cases f <;> simp [isFalse]

end Flag

namespace Consistency

variable {s : Schema} {row : Row}

theorem checkCount_eq_nil_iff {α : Type} {column : Column} {entries : Option (List α)} :
    checkCount column row entries = [] ↔
      ∀ es, entries = some es → es.length = row.types.length := by
  cases entries with
  | none => simp [checkCount]
  | some es => simp [checkCount]

theorem required_of_checkKey {key : String} (h : checkKey key row = []) (hkey : '*' ∈ key.toList) :
    ∀ f ∈ row.required, f = .literal false := by
  rw [checkKey, List.append_eq_nil_iff] at h
  have hmay : row.mayBeRequired = false := by
    cases hmay : row.mayBeRequired with
    | false => rfl
    | true => simp [hmay, hkey] at h
  intro f hf
  rw [Row.mayBeRequired, Bool.not_eq_false', List.all_eq_true] at hmay
  exact Flag.isFalse_iff.1 (hmay f hf)

theorem known_of_checkTypeEntry {t : TypeEntry} (h : checkTypeEntry t = []) :
    ∃ name type, t.name? = some name ∧ ValueType.ofLabel? name = some type := by
  have h := (List.append_eq_nil_iff.1 h).2
  cases hname : t.name? with
  | none => simp [hname] at h
  | some name =>
    cases htype : ValueType.ofLabel? name with
    | none => simp [hname, htype] at h
    | some type => exact ⟨name, type, rfl, htype⟩

theorem isSorted_iff_isChain {names : List String} :
    isSorted names = true ↔ names.IsChain (· ≤ ·) := by
  induction names with
  | nil => simp [isSorted]
  | cons a names ih =>
    cases names with
    | nil => simp [isSorted]
    | cons b names => simp [isSorted, ih]

theorem isSorted_iff_pairwise {names : List String} :
    isSorted names = true ↔ names.Pairwise (· ≤ ·) := by
  rw [isSorted_iff_isChain, List.isChain_iff_pairwise]

theorem checkTypes_eq_nil (h : checkTypes row = []) :
    (∀ t ∈ row.types, ∃ name type, t.name? = some name ∧ ValueType.ofLabel? name = some type) ∧
      (row.types.filterMap TypeEntry.name?).Pairwise (· ≤ ·) := by
  obtain ⟨hentries, hsorted⟩ := List.append_eq_nil_iff.1 h
  refine ⟨fun t ht ↦ known_of_checkTypeEntry (List.flatMap_eq_nil_iff.1 hentries t ht), ?_⟩
  rw [← isSorted_iff_pairwise]
  split at hsorted
  · assumption
  · cases hsorted

theorem indirect_of_checkIndirect (h : checkIndirect row = [])
    (hcount : row.indirectReference.length = row.types.length) {i : ℕ} {t : TypeEntry}
    (hi : row.types[i]? = some t) (ht : t.valueType? = some .stream) :
    row.indirectReference[i]? = some (.literal true) := by
  -- The alternative has an entry of its own, so that the first one does not stand in for it.
  have hlt : i < row.indirectReference.length := by
    rw [hcount]
    exact (List.getElem?_eq_some_iff.1 hi).1
  have h := List.flatMap_eq_nil_iff.1 h (t, i) (List.mk_mem_zipIdx_iff_getElem?.2 hi)
  have htrue : row.indirectReference[i].isTrue = true := by
    simpa [ht, List.getElem?_eq_getElem hlt] using h
  rw [List.getElem?_eq_getElem hlt, Flag.isTrue_iff.1 htrue]

theorem mem_keys_of_checkTarget {target : LinkTarget} (h : checkTarget s target = [])
    {name : String} (hname : target.objectName? = some name) : name ∈ s.keys := by
  have h := (List.append_eq_nil_iff.1 h).2
  rw [← Schema.contains_iff_mem_keys]
  cases hc : s.contains name with
  | true => rfl
  | false => simp [hname, hc] at h

theorem eq_nil_of_checkLinked {name : String} {type : ValueType} {targets : List LinkTarget}
    (h : checkLinked name targets = []) (htype : ValueType.ofLabel? name = some type)
    (hlink : type.requiresLink = false) : targets = [] := by
  simpa [checkLinked, htype, hlink] using h

theorem checkLinks_eq_nil (h : checkLinks s row = []) {i : ℕ} {t : TypeEntry} {name : String}
    (hi : row.types[i]? = some t) (hname : t.name? = some name) :
    checkLinked name (row.linksFor i) = [] ∧
      ∀ target ∈ row.linksFor i, checkTarget s target = [] := by
  have h := (List.append_eq_nil_iff.1 h).2
  have h := List.flatMap_eq_nil_iff.1 h (t, i) (List.mk_mem_zipIdx_iff_getElem?.2 hi)
  simp only [hname, List.append_eq_nil_iff, List.flatMap_eq_nil_iff] at h
  exact h

/-- A row that was counted when it was read, and without findings now, is sound. -/
theorem sound_of_checkRow {name key : String} {object : SchemaObject} (hcounted : row.Counted)
    (h : checkRow s name object key row = []) : row.Sound s key := by
  simp only [checkRow, List.append_eq_nil_iff] at h
  obtain ⟨⟨⟨⟨⟨⟨hkey, htypes⟩, _⟩, hflags⟩, hvalues⟩, hlinks⟩, _⟩ := h
  obtain ⟨⟨hdefault, hpossible⟩, _⟩ : (_ ∧ _) ∧ _ := by
    simpa only [checkValues, List.append_eq_nil_iff] using hvalues
  obtain ⟨hknown, hsorted⟩ := checkTypes_eq_nil htypes
  have hlink := checkCount_eq_nil_iff.1 (List.append_eq_nil_iff.1 hlinks).1
  constructor
  case aligned =>
    exact ⟨hcounted, checkCount_eq_nil_iff.1 hdefault, checkCount_eq_nil_iff.1 hpossible, hlink⟩
  case known => exact hknown
  case sorted => exact hsorted
  case linked =>
    -- The check goes through the types; as there are no more links than types, it sees all links.
    intro name hname
    obtain ⟨target, htarget, hname⟩ := List.mem_filterMap.1 hname
    obtain ⟨i, htarget⟩ := Row.mem_links_iff.1 htarget
    obtain ⟨t, hi⟩ := Row.exists_type_of_mem_linksFor hlink htarget
    obtain ⟨_, _, ht, _⟩ := hknown t (List.mem_of_getElem? hi)
    exact mem_keys_of_checkTarget ((checkLinks_eq_nil hlinks hi ht).2 target htarget) hname
  case unlinked =>
    intro i t type hi htype hrequires
    obtain ⟨name, hname, htype⟩ := Option.bind_eq_some_iff.1 htype
    exact eq_nil_of_checkLinked (checkLinks_eq_nil hlinks hi hname).1 htype hrequires
  case indirect =>
    intro i t hi ht
    have hindirect := (List.append_eq_nil_iff.1 hflags).2
    exact indirect_of_checkIndirect hindirect hcounted.indirectReference hi ht
  case wildcard => exact required_of_checkKey hkey

theorem checkRow_of_checkObject {name key : String} {object : SchemaObject}
    (h : checkObject s name object = []) (hr : (key, row) ∈ object.pairs) :
    checkRow s name object key row = [] := by
  unfold checkObject at h
  split at h
  · cases h
  · simp only [List.append_eq_nil_iff, List.flatMap_eq_nil_iff, List.map_eq_nil_iff] at h
    exact h.1.2 (key, row) hr

theorem getLast?_of_checkObject {name : String} {object : SchemaObject}
    (h : checkObject s name object = []) (hkey : "*" ∈ object.keys) :
    object.keys.getLast? = some "*" := by
  have hcontains : object.contains "*" = true := by
    simpa [KeyedList.contains, KeyedList.get?, KeyedList.keys, Pairs.get?, Pairs.keys] using hkey
  unfold checkObject at h
  split at h
  · cases h
  · have h := (List.append_eq_nil_iff.1 (List.append_eq_nil_iff.1 h).1).1
    rw [hcontains] at h
    simpa using h

end Consistency

/-- A schema is sound if neither the reading of its tables nor the check of it against itself finds
anything. -/
theorem sound_of_validate {tables : List Table} {roots : List String}
    (hingest : (ingest tables).diagnostics = [])
    (hvalidate : (ingest tables).schema.validate roots = []) :
    (ingest tables).schema.Sound roots := by
  obtain ⟨hobjects, hreachability⟩ := List.append_eq_nil_iff.1 hvalidate
  have hobject : ∀ name object, (name, object) ∈ (ingest tables).schema.pairs →
      Consistency.checkObject (ingest tables).schema name object = [] := by
    intro name object ho
    exact List.map_eq_nil_iff.1 (List.flatMap_eq_nil_iff.1 hobjects _ ho)
  constructor
  case row =>
    intro name object ho key row hr
    have hcounted := counted_of_ingest hingest ho hr
    exact Consistency.sound_of_checkRow hcounted
      (Consistency.checkRow_of_checkObject (hobject name object ho) hr)
  case wildcard_last =>
    intro name object ho hkey
    exact Consistency.getLast?_of_checkObject (hobject name object ho) hkey
  case reachable =>
    intro name hname
    have horphans := List.map_eq_nil_iff.1 (List.append_eq_nil_iff.1 hreachability).2
    exact Schema.exists_root_of_orphans_eq_nil horphans hname

def treeTables : List Table :=
  let header := (1, Column.all.map Column.label)
  [⟨"Root", "Root.tsv", Table.recordsOf [header,
      (2, ["Tree", "dictionary", "1.0", "", "TRUE", "FALSE", "FALSE", "", "", "", "[Node]", ""])]⟩,
    ⟨"Node", "Node.tsv", Table.recordsOf [header,
      (2, ["Kids", "array;stream", "1.0", "", "FALSE", "[FALSE];[TRUE]", "FALSE", "", "", "",
        "[Node];[Node]", ""]),
      (3, ["*", "integer", "1.0", "", "FALSE", "FALSE", "FALSE", "", "", "", "", ""])]⟩]

theorem treeTables_sound :
    (ingest treeTables).diagnostics = [] ∧ (ingest treeTables).schema.validate ["Root"] = [] ∧
      (ingest treeTables).schema.Sound ["Root"] := by
  obtain ⟨hingest, hkeys, hroot, hnode, hobjects⟩ : (ingest treeTables).diagnostics = [] ∧
      (ingest treeTables).schema.keys = ["Root", "Node"] ∧
      (ingest treeTables).schema.successors "Root" = ["Node"] ∧
      (ingest treeTables).schema.successors "Node" = ["Node"] ∧
      ((ingest treeTables).schema.pairs.flatMap fun x ↦
        Consistency.checkObject (ingest treeTables).schema x.1 x.2) = [] := by decide +kernel
  have hreachable : (ingest treeTables).schema.reachable ["Root"] = ["Node", "Root"] := by
    simp [Schema.reachable, Schema.explore, Schema.contains_iff_mem_keys, hkeys, hroot, hnode]
  have horphans : (ingest treeTables).schema.orphans ["Root"] = [] := by
    simp [Schema.orphans, hreachable, hkeys]
  have hvalidate : (ingest treeTables).schema.validate ["Root"] = [] := by
    refine List.append_eq_nil_iff.2 ⟨?_, ?_⟩
    · refine List.flatMap_eq_nil_iff.2 fun x hx ↦ List.map_eq_nil_iff.2 ?_
      exact List.flatMap_eq_nil_iff.1 hobjects x hx
    · simp [Consistency.checkReachability, horphans, Schema.contains_iff_mem_keys, hkeys]
  exact ⟨hingest, hvalidate, sound_of_validate hingest hvalidate⟩

end PdfSchema
