import PdfSchema.Ingestion

namespace PdfSchema

namespace Row

/-- Whether a row has as many entries as types in the columns that are counted when it is read. -/
structure Counted (r : Row) : Prop where
  indirectReference : r.indirectReference.length = r.types.length
  specialCase : ∀ entries, r.specialCase = some entries → entries.length = r.types.length

theorem countFindings_eq_nil_iff {column : Column} {entries types : Nat} :
    countFindings column entries types = [] ↔ entries = types := by
  unfold countFindings
  split
  · rename_i h
    exact ⟨fun _ ↦ h, fun _ ↦ rfl⟩
  · rename_i h
    exact ⟨fun he ↦ (nomatch he), fun he ↦ absurd he h⟩

theorem findings_of_ofRecord {r : Table.Record} {row : Row} {findings : List Finding}
    (h : ofRecord r = (findings, .ok row)) :
    findings =
      countFindings .indirectReference row.indirectReference.length row.types.length ++
        (match row.specialCase with
          | none => []
          | some entries => countFindings .specialCase entries.length row.types.length) ++
        shapeFindings row := by
  unfold ofRecord at h
  split at h
  · cases h
  · simp only at h
    split at h
    · cases (Prod.mk.inj h).2
    · split at h
      · cases (Prod.mk.inj h).2
      · cases h
        rfl

theorem counted_of_ofRecord {r : Table.Record} {row : Row} (h : ofRecord r = ([], .ok row)) :
    row.Counted := by
  have h := (findings_of_ofRecord h).symm
  simp only [List.append_eq_nil_iff] at h
  obtain ⟨⟨hindirect, hspecial⟩, _⟩ := h
  refine ⟨countFindings_eq_nil_iff.1 hindirect, fun entries he ↦ ?_⟩
  rw [he] at hspecial
  exact countFindings_eq_nil_iff.1 hspecial

theorem shapeFindings_of_ofRecord {r : Table.Record} {row : Row}
    (h : ofRecord r = ([], .ok row)) : shapeFindings row = [] :=
  (List.append_eq_nil_iff.1 (findings_of_ofRecord h).symm).2

def ReadFrom (row : Row) (object key : String) (records : List Table.Record)
    (diagnostics : List Diagnostic) : Prop :=
  ∃ r ∈ records, r.key = key ∧ ∃ findings, ofRecord r = (findings, .ok row) ∧
    ∀ f ∈ findings, f.diagnostic object key ∈ diagnostics

theorem ReadFrom.mono {row : Row} {object key : String} {records records' : List Table.Record}
    {diagnostics diagnostics' : List Diagnostic} (h : row.ReadFrom object key records diagnostics)
    (hr : records ⊆ records') (hd : diagnostics ⊆ diagnostics') :
    row.ReadFrom object key records' diagnostics' := by
  obtain ⟨r, hm, hkey, findings, hread, hf⟩ := h
  exact ⟨r, hr hm, hkey, findings, hread, fun f hm ↦ hd (hf f hm)⟩

end Row

namespace Table

theorem readFrom_of_addRow {object : String} {rows rows' : SchemaObject} {r : Record}
    {findings : List Row.Finding} (h : addRow object rows r = (findings, .ok rows'))
    {p : String × Row} (hp : p ∈ rows'.pairs) :
    p ∈ rows.pairs ∨
      p.2.ReadFrom object p.1 [r] (findings.map (Row.Finding.diagnostic object r.key)) := by
  unfold addRow at h
  simp only at h
  split at h
  · cases h
  · rename_i found row hread
    split at h
    · cases h
      exact .inl hp
    · cases h
      rcases KeyedList.mem_put hp with hp | rfl
      · exact .inl hp
      · refine .inr ⟨r, List.mem_cons_self, rfl, found, hread, fun f hf ↦ ?_⟩
        exact List.mem_map_of_mem (List.mem_append_right _ hf)

theorem readFrom_of_addRows {object : String} {records : List Record} :
    ∀ {rows rows' : SchemaObject} {diagnostics : List Diagnostic},
      addRows object rows records = (diagnostics, .ok rows') → ∀ p ∈ rows'.pairs,
        p ∈ rows.pairs ∨ p.2.ReadFrom object p.1 records diagnostics := by
  induction records with
  | nil =>
    intro rows rows' diagnostics h p hp
    cases h
    exact .inl hp
  | cons r records ih =>
    intro rows rows' diagnostics h p hp
    unfold addRows at h
    split at h
    · cases h
    · split at h
      · cases h
      · rename_i findings rows₁ hadd
        simp only [Prod.mk.injEq] at h
        obtain ⟨rfl, hlater⟩ := h
        rcases ih (Prod.ext rfl hlater) p hp with hp | hp
        · refine (readFrom_of_addRow hadd hp).imp_right fun hread ↦ ?_
          refine hread.mono ?_ (List.subset_append_left _ _)
          exact List.cons_subset_cons _ (List.nil_subset _)
        · exact .inr (hp.mono (List.subset_cons_self _ _) (List.subset_append_right _ _))

end Table

namespace Ingested

def ReadFrom (out : Ingested) (tables : List Table) : Prop :=
  ∀ name object, (name, object) ∈ out.schema.pairs → ∃ t ∈ tables, t.name = name ∧
    ∀ p ∈ object.pairs, p.2.ReadFrom name p.1 t.records out.diagnostics

theorem add_of_ok {out : Ingested} {t : Table} {diagnostics : List Diagnostic}
    {object : SchemaObject} (h : t.toObject = (diagnostics, .ok object)) :
    out.add t = ⟨out.schema.put t.name object, out.diagnostics ++ diagnostics⟩ := by
  rw [add, h]

theorem add_of_error {out : Ingested} {t : Table} {diagnostics : List Diagnostic}
    {e : ObjectError} (h : t.toObject = (diagnostics, .error e)) :
    out.add t = ⟨out.schema, out.diagnostics ++ (diagnostics ++ [e.diagnostic])⟩ := by
  rw [add, h, ← List.append_assoc]

theorem ReadFrom.add {out : Ingested} {tables : List Table} (h : out.ReadFrom tables) {t : Table}
    (ht : t ∈ tables) : (out.add t).ReadFrom tables := by
  have hmono : ∀ {ds}, out.diagnostics ⊆ ds → ∀ name object, (name, object) ∈ out.schema.pairs →
      ∃ t ∈ tables, t.name = name ∧ ∀ p ∈ object.pairs, p.2.ReadFrom name p.1 t.records ds := by
    intro ds hds name object ho
    obtain ⟨t, ht, hname, hrows⟩ := h name object ho
    exact ⟨t, ht, hname, fun p hp ↦ (hrows p hp).mono (List.Subset.refl _) hds⟩
  cases hobject : t.toObject with | mk diagnostics result
  cases result with
  | error e =>
    rw [add_of_error hobject]
    exact hmono (List.subset_append_left _ _)
  | ok rows =>
    rw [add_of_ok hobject]
    intro name object ho
    rcases KeyedList.mem_put ho with ho | he
    · exact hmono (List.subset_append_left _ _) name object ho
    · obtain ⟨rfl, rfl⟩ := Prod.mk.inj he
      refine ⟨t, ht, rfl, fun p hp ↦ ?_⟩
      rcases Table.readFrom_of_addRows hobject p hp with hp | hp
      · cases hp
      · exact hp.mono (List.Subset.refl _) (List.subset_append_right _ _)

end Ingested

/-- Each row of an ingested schema is read from a record of a table, and the findings about it are
among the diagnostics. -/
theorem ingest_readFrom (tables : List Table) : (ingest tables).ReadFrom tables := by
  refine List.foldlRecOn (motive := fun out ↦ out.ReadFrom tables) tables Ingested.add ?_ ?_
  · intro name object ho
    cases ho
  · exact fun out h t ht ↦ h.add ht

theorem exists_ofRecord_of_ingest {tables : List Table} (h : (ingest tables).diagnostics = [])
    {name key : String} {object : SchemaObject} {row : Row}
    (ho : (name, object) ∈ (ingest tables).schema.pairs) (hr : (key, row) ∈ object.pairs) :
    ∃ r, Row.ofRecord r = ([], .ok row) := by
  obtain ⟨t, _, _, hrows⟩ := ingest_readFrom tables name object ho
  obtain ⟨r, _, _, findings, hread, hf⟩ := hrows _ hr
  have hnil : findings = [] := by
    rw [List.eq_nil_iff_forall_not_mem]
    intro f hm
    have hm := hf f hm
    rw [h] at hm
    cases hm
  exact ⟨r, hnil ▸ hread⟩

theorem counted_of_ingest {tables : List Table} (h : (ingest tables).diagnostics = [])
    {name key : String} {object : SchemaObject} {row : Row}
    (ho : (name, object) ∈ (ingest tables).schema.pairs) (hr : (key, row) ∈ object.pairs) :
    row.Counted := by
  obtain ⟨r, hread⟩ := exists_ofRecord_of_ingest h ho hr
  exact Row.counted_of_ofRecord hread

end PdfSchema
