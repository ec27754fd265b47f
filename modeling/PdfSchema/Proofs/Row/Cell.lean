import PdfSchema.Proofs.Row.TopLevel
import PdfSchema.Proofs.Text.Split

namespace PdfSchema

namespace Text

variable {s : List Char}

theorem trimmed_eq_self (h : ∀ c ∈ s, isBlank c = false) : trimmed s = s :=
  trimmed_of_ends (fun c hc ↦ h c (List.mem_of_mem_head? hc))
    fun c hc ↦ h c (List.mem_of_mem_getLast? hc)

theorem splitBy_eq_singleton {sep : Char → Bool} (h : ∀ c ∈ s, sep c = false) :
    splitBy sep s = [s] := by
  rw [splitBy_eq_splitOnP, List.splitOnP_eq_singleton]
  simpa using h

end Text

namespace Cell

def IsEntry (s : String) : Prop := ∀ c ∈ s.toList, Text.isBlank c = false ∧ c ≠ ';'

instance (s : String) : Decidable (IsEntry s) := List.decidableBAll _ s.toList

variable {s t : String}

theorem isEntry_append : IsEntry (s ++ t) ↔ IsEntry s ∧ IsEntry t := by
  rw [IsEntry, String.toList_append, List.forall_mem_append]
  rfl

theorem trim_eq_self (h : IsEntry s) : Text.trim s = s := by
  rw [Text.trim, Text.trimmed_eq_self fun c hc ↦ (h c hc).1, String.ofList_toList]

theorem alternatives_eq_singleton (h : IsEntry s) : alternatives s = [s] := by
  rw [alternatives, Text.splitBy_eq_singleton fun c hc ↦ by simpa using (h c hc).2]
  simp [trim_eq_self h]

theorem inBrackets?_brackets (s : String) : inBrackets? ("[" ++ s ++ "]") = some s := by
  simp [inBrackets?]

theorem inBrackets?_eq_none (h : s.toList.head? ≠ some '[') : inBrackets? s = none := by
  unfold inBrackets?
  split
  · rename_i hs
    rw [hs] at h
    exact absurd rfl h
  · rfl

theorem semicolon_notMem (h : IsEntry s) : ';' ∉ s.toList := fun hc ↦ (h _ hc).2 rfl

theorem alternative?_brackets (hne : s ≠ "") : alternative? ("[" ++ s ++ "]") = some s := by
  simp [alternative?, inBrackets?_brackets, hne]

theorem alternative?_eq_some (hne : s ≠ "") (hhead : s.toList.head? ≠ some '[') :
    alternative? s = some s := by
  simp [alternative?, inBrackets?_eq_none hhead, hne]

theorem optionalAlternatives_of_notMem (hne : Text.trim s ≠ "")
    (hcut : ';' ∉ (Text.trim s).toList) (keepSingle : Bool) : optionalAlternatives s keepSingle =
      some [if keepSingle then some (Text.trim s) else alternative? (Text.trim s)] := by
  cases keepSingle <;> simp [optionalAlternatives, hne, hcut]

theorem optionalAlternatives_of_mem (h : ';' ∈ (Text.trim s).toList) (keepSingle : Bool) :
    optionalAlternatives s keepSingle =
      some ((alternatives (Text.trim s)).map alternative?) := by
  have hne : Text.trim s ≠ "" := by
    intro hs
    rw [hs] at h
    cases h
  simp [optionalAlternatives, hne, h]

theorem length_alternatives (s : String) :
    (alternatives s).length = s.toList.count ';' + 1 := by
  rw [alternatives, List.length_map, Text.length_splitBy]
  rfl

theorem optionalAlternatives_eq_singleton (h : IsEntry s) (hne : s ≠ "")
    (hhead : s.toList.head? ≠ some '[') (keepSingle : Bool) :
    optionalAlternatives s keepSingle = some [some s] := by
  have htrim := trim_eq_self h
  rw [optionalAlternatives_of_notMem (htrim.symm ▸ hne) (htrim.symm ▸ semicolon_notMem h), htrim,
    alternative?_eq_some hne hhead, ite_self]

theorem trim_brackets (s : String) : Text.trim ("[" ++ s ++ "]") = "[" ++ s ++ "]" := by
  have htext : ("[" ++ s ++ "]").toList = '[' :: s.toList ++ [']'] := by simp
  rw [Text.trim, htext, Text.trimmed_of_ends, ← htext, String.ofList_toList]
  · rintro c ⟨⟩
    decide
  · intro c hc
    rw [List.getLast?_concat] at hc
    cases hc
    decide

/-- A list in brackets is one alternative, whatever stands in it. -/
theorem optionalAlternatives_brackets (hcut : ';' ∉ s.toList) (hne : s ≠ "") :
    optionalAlternatives ("[" ++ s ++ "]") false = some [some s] := by
  have htrim := trim_brackets s
  have hne' : Text.trim ("[" ++ s ++ "]") ≠ "" := by
    intro h
    have h := congrArg String.toList (htrim.symm.trans h)
    simp at h
  rw [optionalAlternatives_of_notMem hne' (by simpa [htrim] using hcut), htrim,
    alternative?_brackets hne]
  rfl

theorem occursIn_eq_true_iff {v u : List Char} : occursIn v u = true ↔ v <:+: u := by
  induction u with
  | nil => rw [occursIn, List.isEmpty_iff, List.infix_nil]
  | cons c u ih =>
    rw [occursIn, Bool.or_eq_true, List.isPrefixOf_iff_prefix, ih, List.infix_cons_iff]

theorem callsFunction_of_isInfix (h : s.toList <:+: t.toList) (hs : callsFunction s = true) :
    callsFunction t = true := occursIn_eq_true_iff.2 ((occursIn_eq_true_iff.1 hs).trans h)

theorem callsFunction_eq_false (h : ':' ∉ s.toList) : callsFunction s = false :=
  Bool.eq_false_iff.2 fun hcalls ↦ h ((occursIn_eq_true_iff.1 hcalls).subset (by simp))

structure IsItem (s : String) : Prop where
  entry : IsEntry s
  ne_empty : s ≠ ""
  flat : ∀ c ∈ s.toList, c ∉ [',', '[', ']', '(', ')']

theorem separate_of_isItem {ws : List String} (h : ∀ v ∈ ws, IsItem v) :
    Separate (ws.map String.toList) := by
  have hdepth : ∀ v ∈ ws, depth v.toList = 0 := fun v hv ↦
    depth_eq_zero fun c hc hbracket ↦ (h v hv).flat c hc (List.mem_cons_of_mem _ hbracket)
  constructor
  · intro p hp
    obtain ⟨v, hv, rfl⟩ := List.mem_map.1 hp
    exact commasAt_eq_nil fun hcomma ↦ (h v hv).flat _ hcomma List.mem_cons_self
  · exact List.pairwise_map.2 (List.pairwise_of_forall_mem_list fun v hv _ _ ↦ hdepth v hv)

/-- The items of a list are those that it is written with. -/
theorem items_intercalate {ws : List String} (h : ∀ v ∈ ws, IsItem v) :
    items (",".intercalate ws) = ws :=
  items_intercalate_of_separate (separate_of_isItem h) fun v hv ↦
    ⟨trim_eq_self (h v hv).entry, (h v hv).ne_empty⟩

theorem forall_mem_intercalate {P : Char → Prop} {sep w : String} {ws : List String}
    (hsep : ∀ c ∈ sep.toList, P c) (h : ∀ v ∈ w :: ws, ∀ c ∈ v.toList, P c) :
    ∀ c ∈ (sep.intercalate (w :: ws)).toList, P c := by
  induction ws generalizing w with
  | nil => simpa using h
  | cons v ws ih =>
    obtain ⟨hw, hws⟩ := List.forall_mem_cons.1 h
    rw [String.intercalate_cons_cons, String.toList_append, String.toList_append,
      List.forall_mem_append, List.forall_mem_append]
    exact ⟨⟨hw, hsep⟩, ih hws⟩

theorem head?_intercalate (sep : String) {w : String} (ws : List String) (hw : w ≠ "") :
    (sep.intercalate (w :: ws)).toList.head? = w.toList.head? := by
  cases ws with
  | nil => rw [String.intercalate_singleton]
  | cons v ws =>
    rw [String.intercalate_cons_cons, String.append_assoc, String.toList_append,
      List.head?_append_of_ne_nil _ (mt String.toList_eq_nil_iff.1 hw)]

theorem intercalate_ne_empty {sep w : String} {ws : List String} (hw : w ≠ "") :
    sep.intercalate (w :: ws) ≠ "" := by
  intro hempty
  have hhead := head?_intercalate sep ws hw
  rw [hempty, eq_comm, String.toList_empty, List.head?_nil, List.head?_eq_none_iff,
    String.toList_eq_nil_iff] at hhead
  exact hw hhead

theorem exists_getLast?_intercalate (sep : String) {w : String} {ws : List String}
    (h : ∀ v ∈ w :: ws, v ≠ "") : ∃ v ∈ w :: ws,
      (sep.intercalate (w :: ws)).toList.getLast? = v.toList.getLast? := by
  induction ws generalizing w with
  | nil => exact ⟨w, List.mem_singleton_self w, by rw [String.intercalate_singleton]⟩
  | cons v ws ih =>
    obtain ⟨u, hu, hlast⟩ := ih (List.forall_mem_cons.1 h).2
    have hne : (sep.intercalate (v :: ws)).toList ≠ [] :=
      mt String.toList_eq_nil_iff.1 (intercalate_ne_empty (h v (by simp)))
    refine ⟨u, List.mem_cons_of_mem w hu, ?_⟩
    rw [String.intercalate_cons_cons, String.toList_append, List.getLast?_append_of_ne_nil _ hne,
      hlast]

theorem trim_intercalate {sep w : String} {ws : List String}
    (h : ∀ v ∈ w :: ws, IsEntry v ∧ v ≠ "") :
    Text.trim (sep.intercalate (w :: ws)) = sep.intercalate (w :: ws) := by
  have hends : Text.trimmed (sep.intercalate (w :: ws)).toList =
      (sep.intercalate (w :: ws)).toList := by
    apply Text.trimmed_of_ends
    · intro c hc
      rw [head?_intercalate sep ws (h w List.mem_cons_self).2] at hc
      exact ((h w List.mem_cons_self).1 c (List.mem_of_mem_head? hc)).1
    · intro c hc
      obtain ⟨v, hv, hlast⟩ := exists_getLast?_intercalate sep fun v hv ↦ (h v hv).2
      rw [hlast] at hc
      exact ((h v hv).1 c (List.mem_of_mem_getLast? hc)).1
  rw [Text.trim, hends, String.ofList_toList]

end Cell

end PdfSchema
