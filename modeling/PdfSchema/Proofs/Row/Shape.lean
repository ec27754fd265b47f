import Mathlib.Data.List.Forall2
import PdfSchema.Proofs.Row.Place
import PdfSchema.Proofs.Schema.Ingestion

namespace PdfSchema.Row

def error? (r : Row) (p : Place) : Option ShapeError :=
  (r.call? p).bind fun (name, args) ↦ checkCall name args

variable (r : Row)

theorem shapeFindings_eq_flatMap : r.shapeFindings = Column.all.flatMap fun c ↦
    ((r.entries c).flatMap Part.calls).filterMap fun call ↦
      (checkCall call.1 call.2).map (Finding.shape c) := by
  rw [shapeFindings, formulas_eq_flatMap, List.flatMap_assoc]
  refine List.flatMap_congr fun c _ ↦ ?_
  rw [List.flatMap_map, List.filterMap_flatMap, List.flatMap_assoc]
  refine List.flatMap_congr fun p _ ↦ ?_
  rw [Part.calls, List.filterMap_flatMap]
  refine List.flatMap_congr fun f _ ↦ ?_
  exact List.map_filterMap

/-- All errors of calls are found, each at one place. -/
theorem finds_shapeFindings :
    Finds (fun p ↦ (r.error? p).map (Finding.shape p.column)) r.shapeFindings := by
  have hall : Finds some Column.all :=
    .ofAll (by decide) fun c ↦ by cases c <;> decide
  have h := hall.flatMap fun c _ ↦
    (r.finds_calls c).filterMap fun call ↦ (checkCall call.1 call.2).map (Finding.shape c)
  rw [shapeFindings_eq_flatMap]
  refine h.map (e := fun q ↦ ⟨q.1, q.2.1, q.2.2.1, q.2.2.2⟩) ?_ (fun q ↦ ?_) ?_
  · intro q q' hq
    simpa [Prod.ext_iff] using hq
  · rw [error?, Option.map_bind]
    rfl
  · exact fun p _ ↦ ⟨(p.column, p.alternative, p.entry, p.path), rfl⟩

variable {r} {record : Table.Record} {findings : List Finding}

theorem exists_counts_of_ofRecord (h : ofRecord record = (findings, .ok r)) :
    ∃ counts, findings = counts ++ r.shapeFindings ∧
      ∀ f ∈ counts, ∃ column entries types, f = .alternativeCount column entries types := by
  have hcount : ∀ column entries types, ∀ f ∈ countFindings column entries types,
      ∃ column entries types, f = .alternativeCount column entries types := by
    intro column entries types f hf
    unfold countFindings at hf
    split at hf
    · cases hf
    · exact ⟨column, entries, types, List.mem_singleton.1 hf⟩
  refine ⟨_, findings_of_ofRecord h, fun f hf ↦ ?_⟩
  rcases List.mem_append.1 hf with hf | hf
  · exact hcount _ _ _ f hf
  · split at hf
    · cases hf
    · exact hcount _ _ _ f hf

theorem filter_shape_of_ofRecord (h : ofRecord record = (findings, .ok r)) (object key : String) :
    (findings.map (Finding.diagnostic object key)).filter (·.kind = .shape) =
      r.shapeFindings.map (Finding.diagnostic object key) := by
  obtain ⟨counts, rfl, hcounts⟩ := exists_counts_of_ofRecord h
  rw [List.map_append, List.filter_append, List.filter_eq_nil_iff.2, List.filter_eq_self.2]
  · rfl
  · intro d hd
    obtain ⟨f, hf, rfl⟩ := List.mem_map.1 hd
    obtain ⟨p, _, hf⟩ := List.mem_flatMap.1 hf
    obtain ⟨e, _, rfl⟩ := List.mem_map.1 hf
    rfl
  · intro d hd
    obtain ⟨f, hf, rfl⟩ := List.mem_map.1 hd
    obtain ⟨column, entries, types, rfl⟩ := hcounts f hf
    simp [Finding.diagnostic]

/-- Where a row is read, there is one diagnostic for each call that is not of the shape of its
function, under the column of the call. -/
theorem shape_diagnostics_of_ofRecord (h : ofRecord record = (findings, .ok r))
    (object key : String) :
    (∃ places : List Place, places.Nodup ∧ (∀ p, p ∈ places ↔ (r.error? p).isSome = true) ∧
      List.Forall₂ (fun p d ↦ ∃ error, r.error? p = some error ∧
          d = { kind := .shape
                severity := .error
                code := (Finding.shape p.column error).code
                location := { object := some object, key := some key,
                              column := some p.column.label }
                message := error.message })
        places ((findings.map (Finding.diagnostic object key)).filter (·.kind = .shape))) ∧
    ((∀ p name args, r.call? p = some (name, args) → checkCall name args = none) →
      (findings.map (Finding.diagnostic object key)).filter (·.kind = .shape) = []) := by
  rw [filter_shape_of_ofRecord h]
  constructor
  · obtain ⟨places, hnodup, hmem, hplaces⟩ := r.finds_shapeFindings
    refine ⟨places, hnodup, fun p ↦ by rw [hmem, Option.isSome_map], ?_⟩
    rw [List.forall₂_map_right_iff]
    rw [← List.forall₂_eq_eq_eq, List.forall₂_map_left_iff, List.forall₂_map_right_iff] at hplaces
    refine hplaces.imp fun p f hf ↦ ?_
    obtain ⟨error, herror, rfl⟩ := Option.map_eq_some_iff.1 hf
    exact ⟨error, herror, rfl⟩
  · intro hcalls
    rw [r.finds_shapeFindings.eq_nil, List.map_nil]
    intro p
    rw [Option.map_eq_none_iff, error?, Option.bind_eq_none_iff]
    exact fun call hcall ↦ hcalls p call.1 call.2 hcall

def nestedRecord : Table.Record :=
  .ofFields (Column.all.map Column.label) 2
    ["Key", "array;fn:Guard(name)", "1.0", "", "fn:IsRequired((fn:IsPresent()))", "FALSE;TRUE",
      "FALSE", "[[1 [fn:First(fn:Second())]]];[]", "", "[fn:Eval([fn:Third()])];[]",
      "[fn:SinceVersion(1.7,fn:Fourth(A))];[]", ""]

def nestedFindings : List Finding :=
  [.shape .type (.unknownFunction "Guard"),
    .shape .required (.badArguments "IsPresent" ""),
    .shape .defaultValue (.unknownFunction "First"),
    .shape .defaultValue (.unknownFunction "Second"),
    .shape .specialCase (.unknownFunction "Third"),
    .shape .link (.unknownFunction "Fourth")]

theorem nestedRecord_reported : ∃ r, ofRecord nestedRecord = (nestedFindings, .ok r) ∧
    ∃ places : List Place, places.Nodup ∧ (∀ p, p ∈ places ↔ (r.error? p).isSome = true) ∧
      places.length = nestedFindings.length := by
  obtain ⟨hfindings, hread⟩ : (ofRecord nestedRecord).1 = nestedFindings ∧
      (ofRecord nestedRecord).2.toOption.isSome = true := by decide +kernel
  cases hr : (ofRecord nestedRecord).2 with
  | error e =>
    rw [hr] at hread
    cases hread
  | ok r =>
    have h : ofRecord nestedRecord = (nestedFindings, .ok r) := Prod.ext hfindings hr
    obtain ⟨⟨places, hnodup, hmem, hplaces⟩, -⟩ := shape_diagnostics_of_ofRecord h "Catalog" "Names"
    refine ⟨r, h, places, hnodup, hmem, hplaces.length_eq.trans ?_⟩
    decide

end PdfSchema.Row
