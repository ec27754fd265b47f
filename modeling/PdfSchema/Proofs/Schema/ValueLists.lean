import PdfSchema.Proofs.Row.ValueList
import PdfSchema.Proofs.Schema.TableRows

namespace PdfSchema

def Row.withPossibleValues (row : Row) (values : List Value) : Row :=
  { row with possibleValues := some [some values] }

namespace Table.Record

open Row

/-- Whether a record makes up a row of one type that lists the items of a text as its possible
values, with no function among them. -/
structure ListsValues (r : Record) (row : Row) (t : TypeEntry) (text : String)
    (values : List Value) : Prop where
  read : r.row? = some row
  types : row.types = [t]
  cell : r.cell .possibleValues = "[" ++ text ++ "]"
  uncut : ';' ∉ text.toList
  literal : Cell.callsFunction text = false
  values : row.possibleValues = some [some values]

variable {r r' : Record} {row row' : Row} {t : TypeEntry} {text call : String} {values : List Value}
  {u : Term}

theorem ListsValues.exists_values (h : r.ListsValues row t text values) :
    ∃ vs, possibleValuesOf text = .ok vs ∧ vs.map (asName (some t)) = values := by
  have hread := (row?_eq_some_iff.1 h.read).possibleValues
  have hne : text ≠ "" := by
    rintro rfl
    rw [h.cell, h.values] at hread
    cases hread
  rw [h.cell, h.types, possibleValueLists_brackets h.uncut hne, h.values, map_eq_ok_iff] at hread
  obtain ⟨vs, hvs, hvalues⟩ := hread
  exact ⟨vs, hvs, by simpa using hvalues⟩

variable (h : r.ListsValues row t text values) (hcalls : Cell.callsFunction call = true)
  (hsame : r'.SameBut [.possibleValues] r)
  (hcell : r'.cell .possibleValues = "[" ++ (text ++ "," ++ call) ++ "]")

include h hcalls hsame hcell

theorem ListsValues.row?_append (hparse : Formula.parse call = .ok [u])
    (hcut : ';' ∉ call.toList) (hitems : ∀ w ∈ Cell.items text, IsTermText w) :
    r'.row? = some (row.withPossibleValues (values ++ [asName (some t) (.ofTerm u)])) := by
  obtain ⟨vs, hvs, rfl⟩ := h.exists_values
  obtain ⟨vs', hvs', hall⟩ := possibleValuesOf_append h.literal hcalls hitems hparse
  obtain rfl : vs = vs' := Except.ok.inj (hvs.symm.trans hvs')
  have huncut : ';' ∉ (text ++ "," ++ call).toList := by simp [h.uncut, hcut]
  have hread := row?_eq_some_iff.1 h.read
  refine row?_eq_some_iff.2 (hread.rewrite (hsame.mono (by simp)) ?_ ?_ ?_)
  · rw [hsame .defaultValue (by decide)]
    exact hread.defaultValue
  · rw [hcell, h.types, possibleValueLists_brackets huncut (by simp), hall]
    simp [Except.map]
  · rw [hsame .link (by decide)]
    exact hread.link

theorem ListsValues.isTermText (hrow : r'.row? = some row') {v : Value}
    (hkept : row'.possibleValues = some [some (values ++ [v])]) :
    ';' ∉ call.toList ∧ ∀ w ∈ Cell.items text, IsTermText w := by
  obtain ⟨vs, hvs, rfl⟩ := h.exists_values
  have hread := row?_eq_some_iff.1 hrow
  have htypes : row'.types = [t] := by
    have htypes := hread.types
    rw [hsame .type (by decide), (row?_eq_some_iff.1 h.read).types] at htypes
    rw [← Except.ok.inj htypes, h.types]
  have hlists := hread.possibleValues
  rw [hcell, htypes, hkept] at hlists
  have hcut : ';' ∉ call.toList := by
    intro hcut
    have hmem : ';' ∈ (Text.trim ("[" ++ (text ++ "," ++ call) ++ "]")).toList := by
      rw [Cell.trim_brackets]
      simp [hcut]
    obtain ⟨entries, hentries, hlength⟩ := length_of_possibleValueLists hmem hlists
    have hpos := List.count_pos_iff.2 hmem
    cases hentries
    simp only [List.length_singleton] at hlength
    omega
  refine ⟨hcut, ?_⟩
  have huncut : ';' ∉ (text ++ "," ++ call).toList := by simp [h.uncut, hcut]
  rw [possibleValueLists_brackets huncut (by simp), map_eq_ok_iff] at hlists
  obtain ⟨ws, hws, hall⟩ := hlists
  have hall : ws.map (asName (some t)) = vs.map (asName (some t)) ++ [v] := by simpa using hall
  refine isTermText_of_append h.literal hcalls (some t) hvs hws fun v hv ↦ ?_
  rw [hall]
  exact List.mem_append_left _ (List.mem_map_of_mem hv)

/-- An item with a function after the others: the row is read with the same values before that of
the item exactly if all others are single terms and no semicolon is in the item. -/
theorem ListsValues.kept_append_iff (hparse : Formula.parse call = .ok [u]) :
    ((∃ row' v, r'.row? = some row' ∧ row'.possibleValues = some [some (values ++ [v])]) ↔
      ';' ∉ call.toList ∧ ∀ w ∈ Cell.items text, IsTermText w) ∧
    (';' ∉ call.toList → (∀ w ∈ Cell.items text, IsTermText w) →
      r'.row? = some (row.withPossibleValues (values ++ [asName (some t) (.ofTerm u)]))) := by
  have hkept := h.row?_append hcalls hsame hcell hparse
  refine ⟨⟨?_, fun ⟨hcut, hitems⟩ ↦ ⟨_, _, hkept hcut hitems, rfl⟩⟩, hkept⟩
  rintro ⟨row', v, hrow, hvalues⟩
  exact h.isTermText hcalls hsame hcell hrow hvalues

omit h hcalls hsame hcell

theorem sameBut_ofValues (type default possible possible' : String) :
    (ofValues type default possible).SameBut [.possibleValues]
      (ofValues type default possible') := by
  intro c hc
  rw [cell_ofValues, cell_ofValues]
  cases c with
  | possibleValues => exact absurd hc (by decide)
  | _ => rfl

theorem exists_listsValues (type cell : String) {vs : List Value}
    (htype : Cell.IsEntry type ∧ Cell.callsFunction type = false)
    (htext : text ≠ "" ∧ ';' ∉ text.toList ∧ Cell.callsFunction text = false)
    (hvalues : possibleValuesOf text = .ok vs) (hcell : cell = "[" ++ text ++ "]")
    (hrow : (ofValues type "" cell).row?.isSome = true) :
    ∃ row, (ofValues type "" cell).ListsValues row (.named type) text
      (vs.map (asName (some (.named type)))) := by
  obtain ⟨row, hrow⟩ := Option.isSome_iff_exists.1 hrow
  have hread := row?_eq_some_iff.1 hrow
  have htypes : [.named type] = row.types := by
    have htypes := hread.types
    rw [cell_ofValues, Cell.alternatives_eq_singleton htype.1,
      mapM_eq_ok_map (g := .named) (by simp [typeEntry, htype.2])] at htypes
    exact Except.ok.inj htypes
  obtain ⟨hne, hcut, hliteral⟩ := htext
  have hlists := hread.possibleValues
  rw [cell_ofValues, ← htypes] at hlists
  simp only [hcell, possibleValueLists_brackets hcut hne, hvalues] at hlists
  exact ⟨row, hrow, htypes.symm, (cell_ofValues ..).trans hcell, hcut, hliteral,
    (Except.ok.inj hlists).symm⟩

/-- Names, an array and numbers that are taken for names, before a function. -/
theorem namesAndArray_kept_append : ∃ row values u,
    (ofValues "name" "" "[Normal,[0 -1], 12 ,-1.5]").ListsValues row (.named "name")
      "Normal,[0 -1], 12 ,-1.5" values ∧ values.length = 4 ∧
    Formula.parse "fn:SinceVersion(1.5,Soft)" = .ok [u] ∧
    (ofValues "name" "" "[Normal,[0 -1], 12 ,-1.5,fn:SinceVersion(1.5,Soft)]").row? =
      some (row.withPossibleValues (values ++ [asName (some (.named "name")) (.ofTerm u)])) := by
  have hitems : ∀ w ∈ Cell.items "Normal,[0 -1], 12 ,-1.5", IsTermText w := by decide +kernel
  have hterm : IsTermText "fn:SinceVersion(1.5,Soft)" := by decide +kernel
  obtain ⟨u, hu⟩ := hterm.2
  obtain ⟨vs, hvs, -⟩ := possibleValuesOf_append (by decide +kernel) (by decide +kernel) hitems hu
  have hlength : vs.length = 4 := by
    rw [possibleValuesOf, if_neg (by decide +kernel)] at hvs
    rw [(exists_of_mapM_eq_ok hvs).1]
    decide +kernel
  obtain ⟨row, h⟩ := exists_listsValues "name" "[Normal,[0 -1], 12 ,-1.5]"
    (by decide +kernel) (by decide +kernel) hvs (by decide) (by decide +kernel)
  refine ⟨row, _, u, h, by simpa using hlength, hu, ?_⟩
  exact (h.kept_append_iff (by decide +kernel) (sameBut_ofValues _ _ _ _) (cell_ofValues ..) hu).2
    (by decide +kernel) hitems

/-- A text in parentheses is a value, but not before a function: there it is a group, and if it
cannot be read as one the row is lost. -/
theorem textInParens_not_kept : (∃ row,
    (ofValues "string" "" "[(a)]").ListsValues row (.named "string") "(a)" [.text "(a)"]) ∧
    (∃ u, Formula.parse "fn:SinceVersion(1.5,b)" = .ok [u]) ∧
    (∀ row' v, (ofValues "string" "" "[(a),fn:SinceVersion(1.5,b)]").row? = some row' →
      row'.possibleValues ≠ some [some ([.text "(a)"] ++ [v])]) ∧
    (ofValues "string" "" "[(50%)]").row?.isSome = true ∧
    (ofValues "string" "" "[(50%),fn:SinceVersion(1.5,b)]").row? = none := by
  have hitems : Cell.items "(a)" = ["(a)"] := by decide +kernel
  have htrim : Text.trim "(a)" = "(a)" := by decide +kernel
  have hvalue := value_of_inParens .possibleValues (s := "(a)") (by rw [htrim]; decide)
    (by decide +kernel)
  have hvalues : possibleValuesOf "(a)" = .ok [.text "(a)"] := by
    rw [possibleValuesOf, if_neg (by decide +kernel), hitems, List.mapM_cons, hvalue, htrim]
    rfl
  obtain ⟨row, h⟩ := exists_listsValues "string" "[(a)]" (by decide +kernel)
    (by decide +kernel) hvalues (by decide) (by decide +kernel)
  have hcalls : Cell.callsFunction "fn:SinceVersion(1.5,b)" = true := by decide +kernel
  have hterm : IsTermText "fn:SinceVersion(1.5,b)" := by decide +kernel
  refine ⟨⟨row, h⟩, hterm.2, fun row' v hrow hkept ↦ ?_, by decide +kernel, ?_⟩
  · have hkept := (h.isTermText hcalls (sameBut_ofValues _ _ _ _) (cell_ofValues ..) hrow hkept).2
    revert hkept
    decide +kernel
  · exact Option.isNone_iff_eq_none.1 (by decide +kernel)

end Table.Record

end PdfSchema
