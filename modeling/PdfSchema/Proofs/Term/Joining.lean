import PdfSchema.Proofs.Term.Rendering
import PdfSchema.Proofs.Text.Trim

namespace PdfSchema

namespace Token

variable {p a : List Char} {t : Token} {ts : List Token} {s : String}

theorem Reads.isInfix (h : Reads p ts a) (ht : t ∈ ts) : t.raw.toList <:+: p := by
  induction h with
  | nil => cases ht
  | blank _ _ ih => exact (ih ht).trans (List.suffix_cons _ _).isInfix
  | token _ _ _ ih =>
    rcases List.mem_cons.1 ht with rfl | ht
    · exact (List.prefix_append _ _).isInfix
    · exact (ih ht).trans (List.suffix_append _ _).isInfix

theorem Reads.append_blanks (h : Reads p ts []) {e : List Char}
    (he : ∀ c ∈ e, Text.isBlank c = true) : Reads (p ++ e) ts [] := by
  have hsep : ∀ c ∈ e.head?, IsSeparator c := fun c hc ↦
    isSeparator_of_isBlank (he c (List.mem_of_mem_head? hc))
  rw [← List.append_nil ts]
  exact (h.append_separator hsep).append (by simp) (.blanks he)

theorem readAlone_openBracket : openBracket.ReadAlone := ⟨by decide +kernel, by decide +kernel⟩

theorem scan_of_trim (h : scan (Text.trim s) = .ok ts) : scan s = .ok ts := by
  obtain ⟨b, e, hs, hb, he⟩ := Text.exists_eq_append_trimmed s.toList
  rw [scan_eq_ok_iff, Text.trim, String.toList_ofList] at h
  rw [scan_eq_ok_iff, hs, List.append_assoc, ← List.nil_append ts]
  exact (Reads.blanks hb).append (List.append_nil _).symm (h.append_blanks he)

end Token

namespace Formula

open Token

variable {ts us : List Token} {f g : Formula} {s t : String}

theorem ofTokens_append (hts : ofTokens ts = .ok f) (hus : ofTokens us = .ok g) :
    ofTokens (ts ++ us) = .ok (f ++ g) := by
  have hall : withoutCommas (ts ++ us) = withoutCommas ts ++ (withoutCommas us ++ []) := by
    rw [List.append_nil, withoutCommas, List.filter_append, withoutCommas, withoutCommas]
  rw [← ofTokens_withoutCommas, hall, ofTokens, (nestInside_of_ofTokens hts).2.1,
    (nestInside_of_ofTokens hus).2.1, nestInside]
  simp

theorem ofTokens_brackets (h : ofTokens ts = .ok f) :
    ofTokens (openBracket :: (ts ++ [closeBracket])) = .ok [.bracket f] := by
  have hinside := (nestInside_of_ofTokens h).2.1 [⟨.bracket, []⟩] [] [closeBracket]
  have hclose : nestInside [⟨.bracket, []⟩] (f.reverse ++ []) [closeBracket] =
      nestInside [] [.bracket f] [] := by
    rw [nestInside_close rfl, List.append_nil, List.reverse_reverse]
    rfl
  have htokens : withoutCommas (openBracket :: (ts ++ [closeBracket])) =
      openBracket :: (withoutCommas ts ++ [closeBracket]) := by
    simp [withoutCommas, openBracket, closeBracket]
  rw [← ofTokens_withoutCommas, htokens, ofTokens, nestInside_open (o := .bracket) rfl, hinside,
    hclose]
  rfl

theorem ofTokens_leaves (h : ∀ t ∈ ts, t.kind.isLeaf = true) :
    ofTokens ts = .ok (ts.map .leaf) := by
  have htokens : tokens (ts.map .leaf) = ts := by
    rw [tokens_eq_flatMap, List.flatMap_map]
    exact List.flatMap_singleton' ts
  have hplain : ∀ t ∈ ts.map Term.leaf, t.IsPlain := List.forall_mem_map.2 fun t ht ↦ .leaf (h t ht)
  rw [← ofTokens_tokens hplain, htokens]

theorem parse_empty : parse "" = .ok [] := by
  have hscan : scan "" = .ok [] := by decide +kernel
  exact parse_eq_ok_iff.2 ⟨[], hscan, rfl⟩

theorem parse_of_trim (h : parse (Text.trim s) = .ok f) : parse s = .ok f := by
  obtain ⟨ts, hscan, hnest⟩ := parse_eq_ok_iff.1 h
  exact parse_eq_ok_iff.2 ⟨ts, scan_of_trim hscan, hnest⟩

theorem parse_append_comma (hs : parse s = .ok f) (ht : parse t = .ok g) :
    parse (s ++ "," ++ t) = .ok (f ++ g) := by
  obtain ⟨ts, hscan, hnest⟩ := parse_eq_ok_iff.1 hs
  obtain ⟨us, hscan', hnest'⟩ := parse_eq_ok_iff.1 ht
  rw [scan_eq_ok_iff] at hscan hscan'
  have hcomma : Reads (',' :: t.toList) (⟨.comma, ","⟩ :: us) [] :=
    readAlone_comma.reads_append rfl hscan'
  have hseparator : ∀ c ∈ (',' :: t.toList).head?, IsSeparator c := by
    simp [isSeparator_of_mem]
  have hreads := (hscan.append_separator hseparator).append (by simp) hcomma
  refine parse_eq_ok_iff.2 ⟨ts ++ ⟨.comma, ","⟩ :: us, ?_, ?_⟩
  · rw [scan_eq_ok_iff]
    simpa using hreads
  · apply ofTokens_append hnest
    rw [← ofTokens_withoutCommas] at hnest' ⊢
    exact hnest'

theorem parse_brackets (h : parse s = .ok f) : parse ("[" ++ s ++ "]") = .ok [.bracket f] := by
  obtain ⟨ts, hscan, hnest⟩ := parse_eq_ok_iff.1 h
  rw [scan_eq_ok_iff] at hscan
  have hclose : Reads [']'] [closeBracket] [] :=
    Opening.bracket.readAlone_closingToken.reads (by simp)
  have hseparator : ∀ c ∈ [']'].head?, IsSeparator c := by simp [isSeparator_of_mem]
  have hinside := (hscan.append_separator hseparator).append (by simp) hclose
  refine parse_eq_ok_iff.2 ⟨openBracket :: (ts ++ [closeBracket]), ?_, ofTokens_brackets hnest⟩
  rw [scan_eq_ok_iff]
  simpa [openBracket] using readAlone_openBracket.reads_append rfl hinside

theorem parse_leaves (h : scan s = .ok ts) (hts : ∀ t ∈ ts, t.kind.isLeaf = true) :
    parse s = .ok (ts.map .leaf) :=
  parse_eq_ok_iff.2 ⟨ts, h, ofTokens_leaves hts⟩

end Formula

end PdfSchema
