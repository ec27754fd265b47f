import PdfSchema.Proofs.Row.Reading
import PdfSchema.Proofs.Term.Joining

namespace PdfSchema

namespace Cell

variable {s : String}

theorem callsFunction_of_scan {ts : List Token} {t : Token} (h : Token.scan s = .ok ts)
    (ht : t ∈ ts) (hk : t.kind = .functionHead) : callsFunction s = true := by
  have hreads := Token.scan_eq_ok_iff.1 h
  have hspells := hreads.spells ht
  rw [hk] at hspells
  obtain ⟨c, v, -, -, -, hraw⟩ := hspells
  have hhead : ['f', 'n', ':'] <:+: t.raw.toList := by
    rw [hraw]
    exact (List.prefix_append ['f', 'n', ':'] (c :: (v ++ ['(']))).isInfix
  exact occursIn_eq_true_iff.2 (hhead.trans (hreads.isInfix ht))

end Cell

namespace Text

def InParens (s : String) : Prop := s.toList.head? = some '(' ∧ s.toList.getLast? = some ')'

instance (s : String) : Decidable (InParens s) := inferInstanceAs (Decidable (_ ∧ _))

end Text

namespace Token

variable {s : String} {t : Token}

/-- The signs that are tokens, but no terms where they stand alone. -/
def loneSigns : List String := ["(", ")", "]", ","]

theorem callsFunction_eq_false_of_mem_loneSigns (h : s ∈ loneSigns) :
    Cell.callsFunction s = false := by
  have hall : ∀ s ∈ loneSigns, Cell.callsFunction s = false := by decide +kernel
  exact hall s h

theorem exists_scan_of_mem_loneSigns (h : s ∈ loneSigns) :
    ∃ k : Kind, k.isLeaf = false ∧ scan s = .ok [⟨k, s⟩] := by
  simp only [loneSigns, List.mem_cons, List.not_mem_nil, or_false] at h
  rcases h with rfl | rfl | rfl | rfl
  · exact ⟨.openParen, rfl, by decide +kernel⟩
  · exact ⟨.closeParen, rfl, by decide +kernel⟩
  · exact ⟨.closeBracket, rfl, by decide +kernel⟩
  · exact ⟨.comma, rfl, by decide +kernel⟩

theorem trim_eq_raw_of_scan (h : scan (Text.trim s) = .ok [t]) : Text.trim s = t.raw := by
  obtain ⟨before, gaps, after, hs, hgaps, hbefore, -, hafter⟩ := (scan_eq_ok_iff.1 h).eq_spaced
  obtain rfl : gaps = [] := List.length_eq_zero_iff.1 hgaps
  have hs := congrArg String.toList hs
  simp only [Text.trim, spaced, String.append_empty, String.toList_ofList,
    String.toList_append] at hs
  rw [Text.trim, Text.trimmed_eq_of_eq_append hs hbefore hafter, String.ofList_toList]

/-- The only token that is all of a text and no term, besides heads of functions and opening
brackets, are the lone signs. -/
theorem isLeaf_of_scan (h : scan (Text.trim s) = .ok [t]) (hsign : Text.trim s ∉ loneSigns)
    (hcalls : Cell.callsFunction (Text.trim s) = false)
    (hbracket : (Text.trim s).toList.head? ≠ some '[') : t.kind.isLeaf = true := by
  have hraw := trim_eq_raw_of_scan h
  have hspells := (scan_eq_ok_iff.1 h).spells (List.mem_singleton_self t)
  rw [← hraw] at hspells
  have hsigns (text : String) (ht : (Text.trim s).toList = text.toList) (hmem : text ∈ loneSigns) :
      False := hsign (String.toList_inj.1 ht ▸ hmem)
  cases hk : t.kind with
  | functionHead =>
    rw [Cell.callsFunction_of_scan h (List.mem_singleton_self t) hk] at hcalls
    cases hcalls
  | openBracket =>
    rw [hk] at hspells
    exact absurd (congrArg List.head? hspells) hbracket
  | openParen | closeParen | closeBracket | comma =>
    rw [hk] at hspells
    exact (hsigns (String.ofList _) (hspells.trans String.toList_ofList.symm)
      (by decide)).elim
  | _ => rfl

end Token

namespace Value

mutual

def scalars : Value → List Token
  | scalar t => [t]
  | text _ => []
  | array items => scalarsOfAll items
  | formula _ => []

def scalarsOfAll : List Value → List Token
  | [] => []
  | v :: vs => v.scalars ++ scalarsOfAll vs

end

theorem ofTerms_eq_map (f : List Term) : ofTerms f = f.map ofTerm := by
  induction f with
  | nil => rfl
  | cons t f ih => rw [ofTerms, ih, List.map_cons]

theorem scalarsOfAll_ofTerms (f : List Term) :
    scalarsOfAll (ofTerms f) = f.flatMap fun t ↦ (ofTerm t).scalars := by
  induction f with
  | nil => rfl
  | cons t f ih => rw [ofTerms, scalarsOfAll, ih, List.flatMap_cons]

theorem isLeaf_of_mem_scalars_ofTerm {u : Term} (h : u.IsPlain) :
    ∀ t ∈ (ofTerm u).scalars, t.kind.isLeaf = true := by
  induction h with
  | leaf ht => exact List.forall_mem_singleton.2 ht
  | @group o body _ ih =>
    cases o with
    | call name | paren => exact fun t ht ↦ nomatch ht
    | bracket =>
      intro t ht
      change t ∈ scalarsOfAll (ofTerms body) at ht
      rw [scalarsOfAll_ofTerms, List.mem_flatMap] at ht
      obtain ⟨u, hu, ht⟩ := ht
      exact ih u hu t ht

theorem isLeaf_of_mem_scalars_ofFormula {f : Formula} (h : ∀ u ∈ f, u.IsPlain) :
    ∀ t ∈ (ofFormula f).scalars, t.kind.isLeaf = true := by
  rcases f with _ | ⟨u, _ | ⟨u', f⟩⟩
  · exact fun t ht ↦ nomatch ht
  · exact isLeaf_of_mem_scalars_ofTerm (h u List.mem_cons_self)
  · exact fun t ht ↦ nomatch ht

end Value

namespace Row

open Token

variable {s : String} {column : Column} {v : Value}

def parsedValue (column : Column) (s : String) : Except CellError Value :=
  (parseCell column (Text.trim s)).map Value.ofFormula

theorem parseCell_eq_ok_iff {f : Formula} :
    parseCell column s = .ok f ↔ Formula.parse s = .ok f := by
  unfold parseCell
  cases Formula.parse s <;> simp

theorem parsedValue_eq_ok_iff : parsedValue column s = .ok v ↔
    ∃ f, Formula.parse (Text.trim s) = .ok f ∧ Value.ofFormula f = v := by
  simp only [parsedValue, map_eq_ok_iff, parseCell_eq_ok_iff]

theorem value_of_inParens (column : Column) (hparens : Text.InParens (Text.trim s))
    (hcalls : Cell.callsFunction (Text.trim s) = false) :
    value column s = .ok (.text (Text.trim s)) := by
  rw [value, hcalls]
  simp [hparens.1, hparens.2]

theorem value_of_not_inParens (column : Column) (h : ¬ Text.InParens (Text.trim s)) :
    value column s =
      if Cell.callsFunction (Text.trim s) || (Text.trim s).toList.head? = some '[' then
        parsedValue column s
      else match scan (Text.trim s) with
        | .ok [t] => .ok (.scalar t)
        | _ => parsedValue column s := by
  have hparens : ((Text.trim s).toList.head? = some '(' &&
      (Text.trim s).toList.getLast? = some ')' && !Cell.callsFunction (Text.trim s)) = false := by
    rw [Bool.and_eq_false_iff, ← Bool.decide_and]
    exact .inl (decide_eq_false h)
  rw [value, hparens]
  simp only [Bool.false_eq_true, if_false]
  refine if_congr Iff.rfl rfl ?_
  cases hscan : scan (Text.trim s) with
  | error e => simp [parsedValue, parseCell, Formula.parse, hscan, Except.map]
  | ok ts => rcases ts with _ | ⟨t, _ | ⟨u, ts⟩⟩ <;> rfl

theorem value_of_mem_loneSigns (column : Column) (h : Text.trim s ∈ loneSigns) :
    ∃ t : Token, t.kind.isLeaf = false ∧ scan (Text.trim s) = .ok [t] ∧
      value column s = .ok (.scalar t) := by
  have hends : ∀ s ∈ loneSigns, ¬ Text.InParens s ∧ s.toList.head? ≠ some '[' := by decide
  obtain ⟨hparens, hbracket⟩ := hends _ h
  obtain ⟨k, hk, hscan⟩ := exists_scan_of_mem_loneSigns h
  refine ⟨_, hk, hscan, ?_⟩
  rw [value_of_not_inParens column hparens, hscan]
  simp [callsFunction_eq_false_of_mem_loneSigns h, hbracket]

theorem value_of_notMem_loneSigns (column : Column) (hparens : ¬ Text.InParens (Text.trim s))
    (hsign : Text.trim s ∉ loneSigns) : value column s = parsedValue column s := by
  rw [value_of_not_inParens column hparens]
  split
  · rfl
  · rename_i hplain
    obtain ⟨hcalls, hbracket⟩ := not_or.1 (mt Bool.or_eq_true_iff.2 hplain)
    split
    · rename_i t hscan
      -- The token is a leaf, so it is all of the formula of the text as well.
      have hleaf := isLeaf_of_scan hscan hsign (by simpa using hcalls) (by simpa using hbracket)
      have hparse := Formula.parse_leaves hscan (List.forall_mem_singleton.2 hleaf)
      exact (parsedValue_eq_ok_iff.2 ⟨_, hparse, rfl⟩).symm
    · rfl

theorem value_of_parse (column : Column) (hparens : ¬ Text.InParens (Text.trim s)) {f : Formula}
    (hparse : Formula.parse (Text.trim s) = .ok f) (hne : f ≠ []) :
    value column s = .ok (.ofFormula f) := by
  have hnone : ∀ s ∈ loneSigns, (Formula.parse s).toOption.all List.isEmpty = true := by
    decide +kernel
  have hsign : Text.trim s ∉ loneSigns := by
    intro hmem
    have hempty := hnone _ hmem
    rw [hparse] at hempty
    exact hne (List.isEmpty_iff.1 hempty)
  rw [value_of_notMem_loneSigns column hparens hsign]
  exact parsedValue_eq_ok_iff.2 ⟨f, hparse, rfl⟩

/-- What is wrong with the nesting of a text is an error of the value, but for a lone sign. -/
theorem value_eq_nesting_error_iff (column : Column) (hparens : ¬ Text.InParens (Text.trim s))
    {ts : List Token} {e : NestingError} (hscan : scan (Text.trim s) = .ok ts)
    (hnest : Formula.ofTokens ts = .error e) :
    value column s = .error ⟨column, Text.trim s, .nesting e⟩ ↔ Text.trim s ∉ loneSigns := by
  constructor
  · intro h hsign
    obtain ⟨t, -, -, hvalue⟩ := value_of_mem_loneSigns column hsign
    cases h.symm.trans hvalue
  · intro hsign
    rw [value_of_notMem_loneSigns column hparens hsign]
    simp [parsedValue, parseCell, Formula.parse, hscan, hnest, Except.map]

theorem exists_scalar_iff (column : Column) (hparens : ¬ Text.InParens (Text.trim s))
    (hv : value column s = .ok v) :
    (∃ t ∈ v.scalars, t.kind.isLeaf = false) ↔ Text.trim s ∈ loneSigns := by
  constructor
  · rintro ⟨t, ht, hk⟩
    by_contra hsign
    rw [value_of_notMem_loneSigns column hparens hsign, parsedValue_eq_ok_iff] at hv
    obtain ⟨f, hparse, rfl⟩ := hv
    rw [Value.isLeaf_of_mem_scalars_ofFormula (Formula.isPlain_of_parse hparse) t ht] at hk
    cases hk
  · intro hsign
    obtain ⟨t, hk, -, hvalue⟩ := value_of_mem_loneSigns column hsign
    cases hv.symm.trans hvalue
    exact ⟨t, List.mem_singleton_self t, hk⟩

/-- A text that is not in parentheses is read as its formula, with the same errors, unless it is a
lone sign. A lone sign is a value on its own, and it is the only value with a token in it that
opens or closes a group or is a comma; so wrong nesting is an error everywhere else. -/
theorem value_eq_parsedValue_iff (column : Column) (s : String)
    (h : ¬ Text.InParens (Text.trim s)) :
    (value column s = parsedValue column s ↔ Text.trim s ∉ loneSigns) ∧
    (Text.trim s ∈ loneSigns → ∃ t : Token, t.kind.isLeaf = false ∧
      scan (Text.trim s) = .ok [t] ∧ value column s = .ok (.scalar t)) ∧
    (∀ v, value column s = .ok v →
      ((∃ t ∈ v.scalars, t.kind.isLeaf = false) ↔ Text.trim s ∈ loneSigns)) ∧
    ∀ ts e, scan (Text.trim s) = .ok ts → Formula.ofTokens ts = .error e →
      (value column s = .error ⟨column, Text.trim s, .nesting e⟩ ↔ Text.trim s ∉ loneSigns) := by
  refine ⟨⟨fun heq hsign ↦ ?_, value_of_notMem_loneSigns column h⟩, value_of_mem_loneSigns column,
    fun v ↦ exists_scalar_iff column h, fun ts e ↦ value_eq_nesting_error_iff column h⟩
  obtain ⟨t, hk, hscan, hvalue⟩ := value_of_mem_loneSigns column hsign
  obtain ⟨f, hparse, hf⟩ := parsedValue_eq_ok_iff.1 (heq.symm.trans hvalue)
  -- No formula stands for a token that is no leaf.
  have hleaf := Value.isLeaf_of_mem_scalars_ofFormula (Formula.isPlain_of_parse hparse) t
    (by rw [hf]; exact List.mem_singleton_self t)
  rw [hk] at hleaf
  cases hleaf

/-- A group that the wrong sign closes is an error, although single tokens stand on both sides. -/
theorem value_eq_parsedValue_mismatch : ¬ Text.InParens (Text.trim " [0 1) ") ∧
    value .defaultValue " [0 1) " = parsedValue .defaultValue " [0 1) " ∧
    value .defaultValue " [0 1) " =
      .error ⟨.defaultValue, "[0 1)", .nesting (.mismatchedClose .bracket ")")⟩ := by
  have htrim : Text.trim " [0 1) " = "[0 1)" := by decide +kernel
  have hparens : ¬ Text.InParens (Text.trim " [0 1) ") := by
    rw [htrim]
    decide
  have hsign : Text.trim " [0 1) " ∉ loneSigns := by
    rw [htrim]
    decide
  have hscan : scan (Text.trim " [0 1) ") =
      .ok [openBracket, ⟨.integer, "0"⟩, ⟨.integer, "1"⟩, closeParen] := by decide +kernel
  obtain ⟨hvalue, -, -, hnesting⟩ := value_eq_parsedValue_iff .defaultValue " [0 1) " hparens
  have herror := (hnesting _ _ hscan rfl).2 hsign
  rw [htrim] at herror
  exact ⟨hparens, hvalue.2 hsign, herror⟩

/-- A closing bracket alone is a value, although its formula is an error. -/
theorem value_closeBracket : ¬ Text.InParens (Text.trim "]") ∧
    value .defaultValue "]" = .ok (.scalar closeBracket) ∧
    parsedValue .defaultValue "]" =
      .error ⟨.defaultValue, "]", .nesting (.unmatchedClose "]")⟩ := by
  have htrim : Text.trim "]" = "]" := by decide +kernel
  have hscan : scan "]" = .ok [closeBracket] := by decide +kernel
  have hsign : Text.trim "]" ∈ loneSigns := by
    rw [htrim]
    decide
  obtain ⟨t, -, ht, hvalue⟩ := value_of_mem_loneSigns .defaultValue hsign
  rw [htrim, hscan] at ht
  obtain rfl : closeBracket = t := by simpa using ht
  refine ⟨?_, hvalue, ?_⟩
  · rw [htrim]
    decide
  · rw [parsedValue, parseCell, htrim, Formula.parse, hscan]
    rfl

end Row

end PdfSchema
