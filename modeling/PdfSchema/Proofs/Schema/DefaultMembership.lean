import PdfSchema.Proofs.Row.Literal
import PdfSchema.Proofs.Schema.Ingestion
import PdfSchema.Proofs.Schema.TableRows
import PdfSchema.Proofs.Schema.Values

namespace PdfSchema

namespace Row

def default? (row : Row) (i : ℕ) : Option Value := ((row.defaultValue.getD [])[i]?).join

def possible? (row : Row) (i : ℕ) : Option (List Value) := ((row.possibleValues.getD [])[i]?).join

/-- Whether the alternative `i` of a row has the literal `v` as its default, and literals as its
possible values that are all different from `v`. -/
structure StraysAt (row : Row) (i : ℕ) (v : Value) : Prop where
  lt_length : i < row.types.length
  default : row.default? i = some v
  literal : v.isLiteral = true
  possible : ∃ values, row.possible? i = some values ∧ (∀ p ∈ values, p.isLiteral = true) ∧
    v ∉ values

end Row

namespace Consistency

variable {row : Row} {type : Option TypeEntry} {v : Value} {values : List Value} {f : Finding}

theorem mem_checkDefault_iff (hv : v.ReadFor type) (hvalues : ∀ p ∈ values, p.ReadFor type) :
    f ∈ checkDefault v values ↔ (v.isLiteral = true ∧ (∀ p ∈ values, p.isLiteral = true) ∧
      v ∉ values) ∧ f = .defaultNotPossible v.render := by
  have hmem (hliteral : v.isLiteral = true) (hall : ∀ p ∈ values, p.isLiteral = true) :
      values.any (·.render = v.render) = true ↔ v ∈ values := by
    rw [List.any_eq_true]
    constructor
    · rintro ⟨p, hp, heq⟩
      have heq := (hvalues p hp).eq_of_render hv (hall p hp) hliteral (of_decide_eq_true heq)
      exact heq ▸ hp
    · exact fun hv ↦ ⟨v, hv, decide_eq_true rfl⟩
  have hcond :
      (v.isLiteral && Value.allLiteral values && !values.any (·.render = v.render)) = true ↔
        v.isLiteral = true ∧ (∀ p ∈ values, p.isLiteral = true) ∧ v ∉ values := by
    rw [Bool.and_eq_true, Bool.and_eq_true, Value.allLiteral_iff, and_assoc, Bool.not_eq_true',
      Bool.eq_false_iff]
    exact and_congr_right fun hliteral ↦ and_congr_right fun hall ↦
      not_congr (hmem hliteral hall)
  rw [checkDefault, ← hcond]
  split <;> simp [*]

theorem mem_checkAlternative_iff (row : Row) (t : TypeEntry) (i : ℕ)
    (hf : f.code = "default-not-possible") : f ∈ checkAlternative row t i ↔
      ∃ v values, row.default? i = some v ∧ row.possible? i = some values ∧
        f ∈ checkDefault v values := by
  have hbad (problem : LiteralProblem) : f ≠ .badDefault problem ∧ f ≠ .badPossible problem := by
    constructor <;> rintro rfl <;> simp [Finding.code] at hf
  simp only [checkAlternative, List.mem_append]
  constructor
  · rintro (h | h)
    · split at h
      · simp only [List.mem_append, Option.mem_toList, Option.map_eq_some_iff, List.mem_map] at h
        rcases h with ⟨problem, -, rfl⟩ | ⟨problem, -, rfl⟩
        · exact absurd rfl (hbad problem).1
        · exact absurd rfl (hbad problem).2
      · cases h
    · split at h
      · rename_i v values hv hvalues
        exact ⟨v, values, hv, hvalues, h⟩
      · cases h
  · rintro ⟨v, values, hv, hvalues, h⟩
    unfold Row.default? at hv
    unfold Row.possible? at hvalues
    rw [hv, hvalues]
    exact .inr h

/-- Of a row that is read, the defaults that are reported are those that stray. -/
theorem mem_checkValues_iff {r : Table.Record} (hrow : r.row? = some row)
    (hf : f.code = "default-not-possible") : f ∈ checkValues row ↔
      ∃ i v, row.StraysAt i v ∧ f = .defaultNotPossible v.render := by
  have hread := Table.Record.row?_eq_some_iff.1 hrow
  have hcount {α : Type} (column : Column) (entries : Option (List α)) :
      f ∉ checkCount column row entries := by
    intro h
    unfold checkCount at h
    grind [Finding.code]
  have hdefault {i : ℕ} {v : Value} {values : List Value} (hv : row.default? i = some v)
      (hvalues : row.possible? i = some values) := mem_checkDefault_iff (f := f)
    (Row.readFor_of_defaultValues hread.defaultValue hv)
    (Row.readFor_of_possibleValueLists hread.possibleValues hvalues)
  rw [checkValues, List.mem_append, List.mem_append, or_iff_right (hcount _ _),
    or_iff_right (hcount _ _), List.mem_flatMap]
  constructor
  · rintro ⟨⟨t, i⟩, ht, h⟩
    obtain ⟨v, values, hv, hvalues, h⟩ := (mem_checkAlternative_iff row t i hf).1 h
    obtain ⟨⟨hliteral, hall, hnot⟩, rfl⟩ := (hdefault hv hvalues).1 h
    have hlt : i < row.types.length := List.snd_lt_of_mem_zipIdx ht
    exact ⟨i, v, ⟨hlt, hv, hliteral, values, hvalues, hall, hnot⟩, rfl⟩
  · rintro ⟨i, v, ⟨hlt, hv, hliteral, values, hvalues, hall, hnot⟩, rfl⟩
    have hi : (row.types[i], i) ∈ row.types.zipIdx :=
      List.mem_zipIdx_iff_getElem?.2 (List.getElem?_eq_getElem hlt)
    refine ⟨_, hi, (mem_checkAlternative_iff row _ i hf).2 ⟨v, values, hv, hvalues, ?_⟩⟩
    exact (hdefault hv hvalues).2 ⟨⟨hliteral, hall, hnot⟩, rfl⟩

theorem mem_validate_iff {s : Schema} {name key : String} {object : SchemaObject}
    {r : Table.Record} (hrow : r.row? = some row) (roots : List String)
    (hobject : s.get? name = some object) (hget : object.get? key = some row) (d : Diagnostic) :
    (d ∈ s.validate roots ∧ d.location.object = some name ∧ d.location.key = some key ∧
        d.code = "default-not-possible") ↔
      ∃ i v, row.StraysAt i v ∧
        d = (Finding.defaultNotPossible v.render).diagnostic name (some key) := by
  have hfilter := filter_validate_of_isOfValues (q := fun c _ ↦ c = "default-not-possible")
    (fun f hf ↦ f.isOfValues_of_code (of_decide_eq_true hf ▸ List.mem_cons_self)) roots hobject hget
  have hmem := congrArg (d ∈ ·) hfilter
  simp only [List.mem_filter, List.mem_map, decide_eq_true_eq, eq_iff_iff] at hmem
  rw [hmem]
  constructor
  · rintro ⟨f, ⟨hf, hcode⟩, rfl⟩
    obtain ⟨i, v, hstrays, rfl⟩ := (mem_checkValues_iff hrow hcode).1 hf
    exact ⟨i, v, hstrays, rfl⟩
  · rintro ⟨i, v, hstrays, rfl⟩
    exact ⟨_, ⟨(mem_checkValues_iff hrow rfl).2 ⟨i, v, hstrays, rfl⟩, rfl⟩, rfl⟩

end Consistency

open Consistency in
/-- A literal is read again from its own text, and so two literals with one text are the same. The
check of defaults, which compares texts, reports of each row exactly the literal defaults that are
none of the possible values of their alternative, where all of these are literals. -/
theorem literals_compared_by_text :
    (∀ column s v, Row.value column s = .ok v → v.isLiteral = true → v.ReadsBack) ∧
    (∀ column s v column' s' v', Row.value column s = .ok v → Row.value column' s' = .ok v' →
      v.isLiteral = true → v'.isLiteral = true → v.render = v'.render → v = v') ∧
    ∀ tables roots name object key row, (ingest tables).schema.get? name = some object →
      object.get? key = some row → ∀ d,
        (d ∈ (ingest tables).schema.validate roots ∧ d.location.object = some name ∧
          d.location.key = some key ∧ d.code = "default-not-possible") ↔
        ∃ i v, row.StraysAt i v ∧
          d = (Finding.defaultNotPossible v.render).diagnostic name (some key) := by
  refine ⟨fun column s v ↦ Row.readsBack_of_value, ?_, ?_⟩
  · intro column s v column' s' v' h h' hv hv'
    exact (Row.readsBack_of_value h hv).eq_of_render (Row.readsBack_of_value h' hv')
  · intro tables roots name object key row hobject hrow
    obtain ⟨t, -, -, hrows⟩ :=
      ingest_readFrom tables name object (KeyedList.get?_eq_some_iff.1 hobject)
    obtain ⟨r, -, -, findings, hread, -⟩ := hrows _ (KeyedList.get?_eq_some_iff.1 hrow)
    have hr : r.row? = some row :=
      Table.Record.row?_eq_some_iff.2 (Table.Record.readAs_iff.2 ⟨findings, hread⟩)
    exact mem_validate_iff hr roots hobject hrow

def numberedNames : Table :=
  ⟨"FileTrailer", "FileTrailer.tsv", [.ofValues "name" "12" "[A,13]"]⟩

/-- Two arrays that are one but for a comma, and a default that strays. -/
theorem numberedNames_compared_by_text :
    (∃ v v', Row.value .defaultValue " [1,-2 'a b'] " = .ok v ∧
      Row.value .possibleValues "[1 -2, 'a b' ]" = .ok v' ∧ v.render = "[1 -2 'a b']" ∧
      v.ReadsBack ∧ v = v') ∧
    ∃ object row, (ingest [numberedNames]).schema.get? "FileTrailer" = some object ∧
      object.get? "V" = some row ∧ ∃ i v, row.StraysAt i v := by
  obtain ⟨hback, hexact, hreported⟩ := literals_compared_by_text
  constructor
  · have hread {x : Except CellError Value} (h : x.toOption.any (fun v ↦
          v.isLiteral && v.render = "[1 -2 'a b']") = true) :
        ∃ v, x = .ok v ∧ v.isLiteral = true ∧ v.render = "[1 -2 'a b']" := by
      cases x with
      | error e => cases h
      | ok v => simpa [Except.toOption] using h
    obtain ⟨v, hv, hliteral, hrender⟩ :=
      hread (x := Row.value .defaultValue " [1,-2 'a b'] ") (by decide +kernel)
    obtain ⟨v', hv', hliteral', hrender'⟩ :=
      hread (x := Row.value .possibleValues "[1 -2, 'a b' ]") (by decide +kernel)
    exact ⟨v, v', hv, hv', hrender, hback _ _ _ hv hliteral,
      hexact _ _ _ _ _ _ hv hv' hliteral hliteral' (hrender.trans hrender'.symm)⟩
  · have hsome : (((ingest [numberedNames]).schema.get? "FileTrailer").bind
        (KeyedList.get? · "V")).isSome = true := by decide +kernel
    obtain ⟨row, hrow⟩ := Option.isSome_iff_exists.1 hsome
    obtain ⟨object, hobject, hrow⟩ := Option.bind_eq_some_iff.1 hrow
    have hfound : ∃ d ∈ (ingest [numberedNames]).schema.validate ["FileTrailer"],
        d.location.object = some "FileTrailer" ∧ d.location.key = some "V" ∧
          d.code = "default-not-possible" := by decide +kernel
    obtain ⟨d, hmem, hd⟩ := hfound
    obtain ⟨i, v, hstrays, -⟩ := (hreported _ _ _ _ _ _ hobject hrow d).1 ⟨hmem, hd⟩
    exact ⟨object, row, hobject, hrow, i, v, hstrays⟩

end PdfSchema
