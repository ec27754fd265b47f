import PdfSchema.Text.Blank

namespace PdfSchema.Text

variable {sep : Char → Bool}

theorem splitBy_eq_splitOnP (s : List Char) : splitBy sep s = s.splitOnP sep := by
  induction s with
  | nil => rfl
  | cons c s ih =>
    rw [splitBy, ih, List.splitOnP_cons_eq_if_modifyHead]
    split
    · rfl
    · cases h : s.splitOnP sep with
      | nil => exact absurd h (List.splitOnP_ne_nil sep s)
      | cons piece pieces => rfl

theorem sep_eq_false_of_mem_splitBy {s piece : List Char} (h : piece ∈ splitBy sep s) :
    ∀ c ∈ piece, sep c = false := by
  induction s generalizing piece with
  | nil =>
    rw [List.mem_singleton.1 h]
    exact fun c hc ↦ nomatch hc
  | cons c s ih =>
    unfold splitBy at h
    split at h
    · rcases List.mem_cons.1 h with rfl | h
      · exact fun c hc ↦ nomatch hc
      · exact ih h
    · rename_i hsep
      have hc : sep c = false := by simpa using hsep
      split at h
      · rw [List.mem_singleton.1 h, List.forall_mem_singleton]
        exact hc
      · rename_i first pieces hs
        rw [hs] at ih
        rcases List.mem_cons.1 h with rfl | h
        · exact List.forall_mem_cons.2 ⟨hc, ih List.mem_cons_self⟩
        · exact ih (List.mem_cons_of_mem first h)

theorem length_splitBy (s : List Char) : (splitBy sep s).length = s.countP sep + 1 := by
  induction s with
  | nil => rfl
  | cons c s ih =>
    rw [splitBy, List.countP_cons]
    split
    · rw [List.length_cons, ih]
    · cases hs : splitBy sep s with
      | nil => simp [hs] at ih
      | cons piece pieces => simpa [hs] using ih

end PdfSchema.Text
