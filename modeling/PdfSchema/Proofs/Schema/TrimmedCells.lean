import PdfSchema.Ingestion
import PdfSchema.Proofs.Row.Cell

namespace PdfSchema

namespace Text

variable {sep : Char → Bool} {b e s : List Char}

theorem trimmed_append_left (hb : ∀ c ∈ b, isBlank c = true) : trimmed (b ++ s) = trimmed s := by
  rw [trimmed, List.dropWhile_append_of_pos hb, trimmed]

theorem trimmed_append_right (he : ∀ c ∈ e, isBlank c = true) : trimmed (s ++ e) = trimmed s := by
  have hdrop : e.dropWhile isBlank = [] := List.dropWhile_eq_nil_iff.2 he
  rw [trimmed, trimmed, List.dropWhile_append]
  split
  · rename_i hs
    rw [hdrop, List.isEmpty_iff.1 hs]
  · rw [List.reverse_append, List.dropWhile_append_of_pos (by simpa using he)]

theorem exists_splitBy_append_left (hb : ∀ c ∈ b, sep c = false) (s : List Char) :
    ∃ first rest, splitBy sep s = first :: rest ∧ splitBy sep (b ++ s) = (b ++ first) :: rest := by
  induction b with
  | nil =>
    have hne : splitBy sep s ≠ [] := by
      rw [splitBy_eq_splitOnP]
      exact List.splitOnP_ne_nil sep s
    obtain ⟨first, rest, hs⟩ := List.exists_cons_of_ne_nil hne
    exact ⟨first, rest, hs, hs⟩
  | cons c b ih =>
    obtain ⟨hc, hb⟩ := List.forall_mem_cons.1 hb
    obtain ⟨first, rest, hs, hall⟩ := ih hb
    refine ⟨first, rest, hs, ?_⟩
    rw [List.cons_append, splitBy, hc, hall]
    rfl

theorem exists_splitBy_append_right (he : ∀ c ∈ e, sep c = false) (s : List Char) :
    ∃ pieces last, splitBy sep s = pieces ++ [last] ∧
      splitBy sep (s ++ e) = pieces ++ [last ++ e] := by
  induction s with
  | nil =>
    refine ⟨[], [], rfl, ?_⟩
    rw [List.nil_append, splitBy_eq_singleton he]
    rfl
  | cons c s ih =>
    obtain ⟨pieces, last, hs, hall⟩ := ih
    rw [List.cons_append, splitBy, splitBy, hs, hall]
    split
    · exact ⟨[] :: pieces, last, rfl, rfl⟩
    · cases pieces with
      | nil => exact ⟨[], c :: last, rfl, rfl⟩
      | cons piece pieces => exact ⟨(c :: piece) :: pieces, last, rfl, rfl⟩

theorem map_trimmed_splitBy (hsep : ∀ c, isBlank c = true → sep c = false) (s : List Char) :
    (splitBy sep (trimmed s)).map trimmed = (splitBy sep s).map trimmed := by
  obtain ⟨b, e, hs, hb, he⟩ := exists_eq_append_trimmed s
  obtain ⟨first, rest, hinner, hleft⟩ :=
    exists_splitBy_append_left (fun c hc ↦ hsep c (hb c hc)) (trimmed s)
  obtain ⟨pieces, last, hright, hall⟩ :=
    exists_splitBy_append_right (fun c hc ↦ hsep c (he c hc)) (b ++ trimmed s)
  rw [← hs] at hall
  calc (splitBy sep (trimmed s)).map trimmed
      = (splitBy sep (b ++ trimmed s)).map trimmed := by
        rw [hinner, hleft, List.map_cons, List.map_cons, trimmed_append_left hb]
    _ = (splitBy sep s).map trimmed := by
        rw [hright, hall, List.map_append, List.map_append, List.map_singleton,
          List.map_singleton, trimmed_append_right he]

end Text

namespace Cell

variable {s t : String}

theorem alternatives_trim (s : String) : alternatives (Text.trim s) = alternatives s := by
  have hsep : ∀ c, Text.isBlank c = true → decide (c = ';') = false := by
    intro c hc
    refine decide_eq_false ?_
    rintro rfl
    revert hc
    decide
  have hpieces := congrArg (List.map String.ofList) (Text.map_trimmed_splitBy hsep s.toList)
  simpa [alternatives, Text.trim, Function.comp_def] using hpieces

theorem alternatives_congr (h : Text.trim s = Text.trim t) : alternatives s = alternatives t := by
  rw [← alternatives_trim, h, alternatives_trim]

theorem optionalAlternatives_congr (h : Text.trim s = Text.trim t) (keepSingle : Bool) :
    optionalAlternatives s keepSingle = optionalAlternatives t keepSingle := by
  rw [optionalAlternatives, h, optionalAlternatives]

theorem text?_congr (h : Text.trim s = Text.trim t) : text? s = text? t := by
  rw [text?, h, text?]

end Cell

namespace Table

/-- Records on lines of one number and length, with cells that differ at most in the blanks around
them. -/
structure Record.Alike (r r' : Record) : Prop where
  line : r.line = r'.line
  cellCount : r.cellCount = r'.cellCount
  cell : ∀ c, Text.trim (r.cell c) = Text.trim (r'.cell c)

variable {r r' : Record} {records records' : List Record}

namespace Record.Alike

open Row

variable (h : r.Alike r')

include h

theorem key_eq : r.key = r'.key := h.cell .key

theorem readHead_eq : readHead r = readHead r' := by
  simp only [readHead, Cell.alternatives_congr (h.cell _), h.cell]

theorem readBody_eq (types : List TypeEntry) : readBody r types = readBody r' types := by
  simp only [readBody, defaultValues, possibleValueLists, specialCases,
    Cell.optionalAlternatives_congr (h.cell _), h.cell]

theorem linkTargets_eq : linkTargets (r.cell .link) = linkTargets (r'.cell .link) := by
  simp only [linkTargets, Cell.optionalAlternatives_congr (h.cell .link)]

theorem ofRecord_eq : ofRecord r = ofRecord r' := by
  simp only [ofRecord, h.readHead_eq, h.readBody_eq, h.linkTargets_eq, Cell.text?_congr (h.cell _)]

theorem addRow_eq (object : String) (rows : SchemaObject) :
    addRow object rows r = addRow object rows r' := by
  simp only [addRow, h.ofRecord_eq, h.key_eq, h.line, h.cellCount]

end Record.Alike

theorem addRows_eq_of_alike (object : String) (rows : SchemaObject)
    (h : List.Forall₂ Record.Alike records records') :
    addRows object rows records = addRows object rows records' := by
  induction h generalizing rows with
  | nil => rfl
  | cons hr _ ih => simp only [addRows, hr.addRow_eq, hr.key_eq, hr.line, ih]

/-- Tables of one name whose records are alike one by one give the same object or the same error,
and the same diagnostics in the same order. -/
theorem toObject_eq_of_alike {t t' : Table} (hname : t.name = t'.name)
    (h : List.Forall₂ Record.Alike t.records t'.records) : t.toObject = t'.toObject := by
  rw [toObject, toObject, hname, addRows_eq_of_alike t'.name .empty h]

/-- A record without its last cells, and one with blanks around all that are not empty. -/
theorem toObject_spaced : ∃ r r' : Record,
    r.cells = [("Key", "V"), ("Type", "array;integer"), ("Link", "[A;B]")] ∧
    r'.cells = [("Note", " "), ("Link", "\u00a0[A;B]"), ("Type", "\tarray;integer\u2003"),
      ("Key", "V ")] ∧
    List.Forall₂ Record.Alike [r, r] [r', r'] ∧
    toObject ⟨"Obj", "Obj.tsv", [r, r]⟩ = toObject ⟨"Obj", "", [r', r']⟩ := by
  have halike : Record.Alike
      ⟨2, [("Key", "V"), ("Type", "array;integer"), ("Link", "[A;B]")], 4⟩
      ⟨2, [("Note", " "), ("Link", "\u00a0[A;B]"), ("Type", "\tarray;integer\u2003"),
        ("Key", "V ")], 4⟩ := by
    refine ⟨rfl, rfl, fun c ↦ ?_⟩
    cases c <;> decide +kernel
  have hall := List.Forall₂.cons halike (.cons halike .nil)
  exact ⟨_, _, rfl, rfl, hall, toObject_eq_of_alike rfl hall⟩

end Table

end PdfSchema
