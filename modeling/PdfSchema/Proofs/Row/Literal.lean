import PdfSchema.Proofs.Row.ValueList

namespace PdfSchema

namespace Token

variable {k : Kind} {r : List Char} {t : Token}

theorem Kind.Spells.not_isBlank_getLast (h : k.Spells r) :
    ∀ c ∈ r.getLast?, Text.isBlank c = false := by
  obtain ⟨c, w, rfl, hc, hw⟩ := Kind.shapes_of_spells h
  by_cases hquoted : k = .quoted
  · rw [hquoted] at h
    obtain ⟨w', -, -, hr⟩ := h
    rw [hr, ← List.cons_append, List.getLast?_concat]
    rintro d ⟨⟩
    decide
  intro d hd
  rcases List.mem_cons.1 (List.mem_of_mem_getLast? hd) with rfl | hd
  · exact (Kind.isVisible_of_starts hc).not_isBlank
  · rcases k.isVisible_of_continues (hw d hd) with hd | hk | ⟨-, rfl⟩
    · exact hd.not_isBlank
    · exact absurd hk hquoted
    · decide

theorem ReadAlone.trim_raw (h : t.ReadAlone) : Text.trim t.raw = t.raw := by
  have hspells : t.kind.Spells t.raw.toList := spells_of_first? h.first
  have htrimmed : Text.trimmed t.raw.toList = t.raw.toList := by
    refine Text.trimmed_of_ends (fun c hc ↦ ?_) hspells.not_isBlank_getLast
    obtain ⟨d, w, hr, hd, -⟩ := Kind.shapes_of_spells hspells
    rw [hr] at hc
    obtain rfl := Option.some.inj hc
    exact (Kind.isVisible_of_starts hd).not_isBlank
  rw [Text.trim, htrimmed, String.ofList_toList]

theorem ReadAlone.head?_ne_openParen (h : t.ReadAlone) (hleaf : t.kind.isLeaf = true) :
    t.raw.toList.head? ≠ some '(' := by
  have hparen : ∀ k : Kind, k.isLeaf = true → k.starts '(' = false := by
    intro k hk
    cases k <;> first | rfl | cases hk
  obtain ⟨c, w, hr, hc, -⟩ := Kind.shapes_of_spells (spells_of_first? h.first)
  rw [hr]
  rintro ⟨⟩
  rw [hparen _ hleaf] at hc
  cases hc

end Token

namespace Value

open Token

variable {u : Term} {f : Formula} {a : List Char}

theorem renderAll_eq_map (vs : List Value) : renderAll vs = vs.map render := by
  induction vs with
  | nil => rfl
  | cons v vs ih => rw [renderAll, ih, List.map_cons]

theorem allLiteral_iff (vs : List Value) :
    allLiteral vs = true ↔ ∀ v ∈ vs, v.isLiteral = true := by
  induction vs with
  | nil => simp [allLiteral]
  | cons v vs ih => rw [allLiteral, Bool.and_eq_true, ih, List.forall_mem_cons]

theorem render_array (f : List Term) : (array (ofTerms f)).render =
    "[" ++ " ".intercalate (f.map fun u ↦ (ofTerm u).render) ++ "]" := by
  rw [render, renderAll_eq_map, ofTerms_eq_map, List.map_map]
  rfl

theorem isLiteral_ofFormula (h : (ofFormula f).isLiteral = true) :
    ∃ u, f = [u] ∧ (ofTerm u).isLiteral = true := by
  rcases f with _ | ⟨u, _ | ⟨u', f⟩⟩
  · cases h
  · exact ⟨u, rfl, h⟩
  · cases h

theorem reads_intercalate (h : ∀ u ∈ f, ∀ a : List Char, (∀ c ∈ a.head?, IsSeparator c) →
      Reads (ofTerm u).render.toList u.tokens a)
    (ha : ∀ c ∈ a.head?, IsSeparator c) :
    Reads (" ".intercalate (f.map fun u ↦ (ofTerm u).render)).toList (Formula.tokens f) a := by
  induction f with
  | nil => exact .nil a
  | cons u f ih =>
    obtain ⟨hu, hf⟩ := List.forall_mem_cons.1 h
    have ih := ih hf
    cases f with
    | nil => simpa [Formula.tokens] using hu a ha
    | cons u' f =>
      have hblank : Text.isBlank ' ' = true := by decide
      have htext : (" ".intercalate ((u :: u' :: f).map fun u ↦ (ofTerm u).render)).toList =
          (ofTerm u).render.toList ++
            ' ' :: (" ".intercalate ((u' :: f).map fun u ↦ (ofTerm u).render)).toList := by
        simp [String.intercalate_cons_cons]
      rw [htext]
      refine (hu _ ?_).append rfl (.blank hblank ih)
      rintro c ⟨⟩
      exact isSeparator_of_isBlank hblank

/-- The text of a literal is read as the tokens of the term that it stands for. -/
theorem reads_render (h : u.IsPlain) (hliteral : (ofTerm u).isLiteral = true)
    (halone : ∀ t ∈ u.tokens, t.ReadAlone) (ha : ∀ c ∈ a.head?, IsSeparator c) :
    Reads (ofTerm u).render.toList u.tokens a := by
  induction h generalizing a with
  | @leaf t _ => exact (halone t (List.mem_singleton_self t)).reads fun c hc ↦ .inl (ha c hc)
  | @group o body _ ih =>
    cases o with
    | call name | paren => cases hliteral
    | bracket =>
      change allLiteral (ofTerms body) = true at hliteral
      rw [allLiteral_iff, ofTerms_eq_map, List.forall_mem_map] at hliteral
      rw [Opening.tokens_group, Formula.tokens_eq_flatMap] at halone
      have hitems : ∀ u ∈ body, ∀ a : List Char, (∀ c ∈ a.head?, IsSeparator c) →
          Reads (ofTerm u).render.toList u.tokens a := by
        intro u hu a ha
        refine ih u hu (hliteral u hu) (fun t ht ↦ halone t ?_) ha
        simp only [List.mem_cons, List.mem_append, List.mem_flatMap]
        exact .inr (.inl ⟨u, hu, ht⟩)
      have hclose : Reads closeBracket.raw.toList [closeBracket] a :=
        Opening.bracket.readAlone_closingToken.reads fun c hc ↦ .inl (ha c hc)
      have hinside := (reads_intercalate hitems
        (Opening.bracket.isSeparator_closingToken a)).append rfl hclose
      change Reads (array (ofTerms body)).render.toList _ a
      rw [render_array, String.toList_append, String.toList_append, List.append_assoc]
      exact readAlone_openBracket.reads_append rfl hinside

theorem parse_render_ofTerm (h : u.IsPlain) (hliteral : (ofTerm u).isLiteral = true)
    (halone : ∀ t ∈ u.tokens, t.ReadAlone) : Formula.parse (ofTerm u).render = .ok [u] := by
  refine Formula.parse_eq_ok_iff.2 ⟨u.tokens, ?_, ?_⟩
  · exact scan_eq_ok_iff.2 (reads_render h hliteral halone (by simp))
  · have htokens : Formula.tokens [u] = u.tokens := List.append_nil _
    rw [← htokens]
    exact Formula.ofTokens_tokens (List.forall_mem_singleton.2 h)

theorem ends_of_render (h : u.IsPlain) (hliteral : (ofTerm u).isLiteral = true)
    (halone : ∀ t ∈ u.tokens, t.ReadAlone) : Text.trim (ofTerm u).render = (ofTerm u).render ∧
      ¬ Text.InParens (ofTerm u).render := by
  cases h with
  | @leaf t ht =>
    have hread := halone t (List.mem_singleton_self t)
    exact ⟨hread.trim_raw, fun hparens ↦ hread.head?_ne_openParen ht hparens.1⟩
  | @group o body _ =>
    cases o with
    | call name | paren => cases hliteral
    | bracket =>
      change Text.trim (array (ofTerms body)).render = (array (ofTerms body)).render ∧
        ¬ Text.InParens (array (ofTerms body)).render
      rw [render_array]
      exact ⟨Cell.trim_brackets _, fun hparens ↦ by simp [Text.InParens] at hparens⟩

/-- Whether the text of a value is read as the value, in whatever column it stands. -/
def ReadsBack (v : Value) : Prop := ∀ column, Row.value column v.render = .ok v

theorem ReadsBack.eq_of_render {v v' : Value} (h : v.ReadsBack) (h' : v'.ReadsBack)
    (heq : v.render = v'.render) : v = v' := by
  have hread := h .defaultValue
  rw [heq] at hread
  exact Except.ok.inj (hread.symm.trans (h' .defaultValue))

theorem readsBack_ofTerm {s : String} (hparse : Formula.parse s = .ok f) (hu : u ∈ f)
    (hliteral : (ofTerm u).isLiteral = true) : (ofTerm u).ReadsBack := by
  have hplain := Formula.isPlain_of_parse hparse u hu
  have halone : ∀ t ∈ u.tokens, t.ReadAlone := by
    intro t ht
    apply Formula.readAlone_of_parse hparse
    rw [Formula.tokens_eq_flatMap]
    exact List.mem_flatMap.2 ⟨u, hu, ht⟩
  obtain ⟨htrim, hparens⟩ := ends_of_render hplain hliteral halone
  intro column
  rw [← htrim] at hparens
  refine Row.value_of_parse column hparens ?_ (List.cons_ne_nil u [])
  rw [htrim, parse_render_ofTerm hplain hliteral halone]

end Value

namespace Row

open Token

variable {s : String} {column : Column} {v v' : Value} {values : List Value}

theorem value_of_callsFunction (column : Column) (h : Cell.callsFunction (Text.trim s) = true) :
    value column s = parsedValue column s := by
  rw [value, h]
  simp [parsedValue]

/-- A value is a text in parentheses, a lone sign, or what a formula stands for. -/
theorem value_cases (h : value column s = .ok v) :
    (Text.InParens (Text.trim s) ∧ Cell.callsFunction (Text.trim s) = false) ∨
      Text.trim s ∈ loneSigns ∨
      ∃ f, Formula.parse (Text.trim s) = .ok f ∧ Value.ofFormula f = v := by
  by_cases hcalls : Cell.callsFunction (Text.trim s) = true
  · rw [value_of_callsFunction column hcalls] at h
    exact .inr (.inr (parsedValue_eq_ok_iff.1 h))
  by_cases hparens : Text.InParens (Text.trim s)
  · exact .inl ⟨hparens, Bool.eq_false_iff.2 hcalls⟩
  by_cases hsign : Text.trim s ∈ loneSigns
  · exact .inr (.inl hsign)
  · rw [value_of_notMem_loneSigns column hparens hsign] at h
    exact .inr (.inr (parsedValue_eq_ok_iff.1 h))

theorem readsBack_of_value (h : value column s = .ok v) (hliteral : v.isLiteral = true) :
    v.ReadsBack := by
  rcases value_cases h with ⟨hparens, hcalls⟩ | hsign | ⟨f, hparse, rfl⟩
  · cases (value_of_inParens column hparens hcalls).symm.trans h
    intro column'
    have hvalue := value_of_inParens column' (s := Text.trim s)
    rw [Text.trim_trim] at hvalue
    exact hvalue hparens hcalls
  · obtain ⟨t, -, hscan, hvalue⟩ := value_of_mem_loneSigns column hsign
    cases hvalue.symm.trans h
    intro column'
    rw [← Text.trim_trim] at hsign
    obtain ⟨t', -, hscan', hvalue'⟩ := value_of_mem_loneSigns column' hsign
    rw [Text.trim_trim, hscan] at hscan'
    cases hscan'
    rwa [trim_eq_raw_of_scan hscan] at hvalue'
  · obtain ⟨u, rfl, hu⟩ := Value.isLiteral_ofFormula hliteral
    exact Value.readsBack_ofTerm hparse (List.mem_singleton_self u) hu

theorem readsBack_of_possibleValuesOf (h : possibleValuesOf s = .ok values) (hv : v ∈ values)
    (hliteral : v.isLiteral = true) : v.ReadsBack := by
  by_cases hcalls : Cell.callsFunction s = true
  · obtain ⟨f, hparse, rfl⟩ := (possibleValuesOf_eq_ok_iff hcalls).1 h
    obtain ⟨u, hu, rfl⟩ := List.mem_map.1 hv
    exact Value.readsBack_ofTerm hparse hu hliteral
  · rw [possibleValuesOf, if_neg hcalls] at h
    obtain ⟨i, hi⟩ := List.mem_iff_getElem?.1 hv
    obtain ⟨item, -, hvalue⟩ := exists_of_mapM_getElem? h hi
    exact readsBack_of_value hvalue hliteral

theorem asName_kept (type : Option TypeEntry) (v : Value) :
    (asName type v).render = v.render ∧ (asName type v).isLiteral = v.isLiteral := by
  unfold asName
  split
  · cases v with
    | scalar t => dsimp only; split <;> exact ⟨rfl, rfl⟩
    | _ => exact ⟨rfl, rfl⟩
  · exact ⟨rfl, rfl⟩

end Row

namespace Value

def ReadFor (type : Option TypeEntry) (v : Value) : Prop :=
  ∃ w : Value, (w.isLiteral = true → w.ReadsBack) ∧ Row.asName type w = v

theorem ReadFor.eq_of_render {type : Option TypeEntry} {v v' : Value} (h : v.ReadFor type)
    (h' : v'.ReadFor type) (hv : v.isLiteral = true) (hv' : v'.isLiteral = true)
    (heq : v.render = v'.render) : v = v' := by
  obtain ⟨w, hw, rfl⟩ := h
  obtain ⟨w', hw', rfl⟩ := h'
  obtain ⟨hrender, hliteral⟩ := Row.asName_kept type w
  obtain ⟨hrender', hliteral'⟩ := Row.asName_kept type w'
  rw [hliteral] at hv
  rw [hliteral'] at hv'
  rw [hrender, hrender'] at heq
  rw [(hw hv).eq_of_render (hw' hv') heq]

end Value

namespace Row

variable {s : String} {types : List TypeEntry} {i : ℕ} {v : Value}

theorem readFor_of_defaultValues {defaults : Option (List (Option Value))}
    (h : defaultValues s types = .ok defaults) (hv : ((defaults.getD [])[i]?).join = some v) :
    v.ReadFor types[i]? := by
  rw [defaultValues] at h
  split at h
  · cases h
    cases hv
  · obtain ⟨entries, hentries, rfl⟩ := map_eq_ok_iff.1 h
    obtain ⟨text, -, hvalue⟩ := exists_of_mapPresent hentries (Option.join_eq_some_iff.1 hv)
    obtain ⟨w, hw, rfl⟩ := map_eq_ok_iff.1 hvalue
    exact ⟨w, readsBack_of_value hw, rfl⟩

theorem readFor_of_possibleValueLists {possible : Option (List (Option (List Value)))}
    {values : List Value} (h : possibleValueLists s types = .ok possible)
    (hvalues : ((possible.getD [])[i]?).join = some values) :
    ∀ v ∈ values, v.ReadFor types[i]? := by
  rw [possibleValueLists] at h
  split at h
  · cases h
    cases hvalues
  · obtain ⟨entries, hentries, rfl⟩ := map_eq_ok_iff.1 h
    obtain ⟨text, -, hvalue⟩ := exists_of_mapPresent hentries (Option.join_eq_some_iff.1 hvalues)
    obtain ⟨ws, hws, rfl⟩ := map_eq_ok_iff.1 hvalue
    refine List.forall_mem_map.2 fun w hw ↦ ?_
    exact ⟨w, readsBack_of_possibleValuesOf hws hw, rfl⟩

end Row

end PdfSchema
