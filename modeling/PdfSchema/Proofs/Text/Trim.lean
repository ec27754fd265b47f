import Mathlib.Data.List.DropRight
import Mathlib.Data.List.Induction
import PdfSchema.Text.Blank

namespace PdfSchema.Text

variable {s : List Char}

theorem trimmed_eq_rdropWhile (s : List Char) :
    trimmed s = (s.dropWhile isBlank).rdropWhile isBlank := rfl

theorem isBlank_of_mem_head?_dropWhile :
    ∀ c ∈ (s.dropWhile isBlank).head?, isBlank c = false := by
  intro c hc
  have hhead := s.head?_dropWhile_not isBlank
  rwa [Option.mem_def.1 hc] at hhead

theorem isBlank_of_mem_getLast?_trimmed : ∀ c ∈ (trimmed s).getLast?, isBlank c = false := by
  intro c hc
  rw [trimmed, List.getLast?_reverse] at hc
  exact isBlank_of_mem_head?_dropWhile c hc

theorem isBlank_of_mem_head?_trimmed : ∀ c ∈ (trimmed s).head?, isBlank c = false := by
  intro c hc
  obtain ⟨u, hu⟩ := List.rdropWhile_prefix isBlank (s.dropWhile isBlank)
  obtain ⟨m, hm⟩ := List.head?_eq_some_iff.1 hc
  refine isBlank_of_mem_head?_dropWhile (s := s) c ?_
  rw [← hu, ← trimmed_eq_rdropWhile, hm]
  rfl

theorem exists_eq_append_trimmed (s : List Char) : ∃ b e, s = b ++ trimmed s ++ e ∧
    (∀ c ∈ b, isBlank c = true) ∧ ∀ c ∈ e, isBlank c = true := by
  refine ⟨s.takeWhile isBlank, (s.dropWhile isBlank).rtakeWhile isBlank, ?_,
    fun c ↦ List.mem_takeWhile_imp, fun c ↦ List.mem_rtakeWhile_imp⟩
  rw [List.append_assoc, trimmed_eq_rdropWhile, List.rdropWhile_append_rtakeWhile,
    List.takeWhile_append_dropWhile]

theorem trimmed_eq_of_eq_append {b m e : List Char} (h : trimmed s = b ++ m ++ e)
    (hb : ∀ c ∈ b, isBlank c = true) (he : ∀ c ∈ e, isBlank c = true) : trimmed s = m := by
  have hbefore : b = [] := by
    cases b with
    | nil => rfl
    | cons c b =>
      have hc := isBlank_of_mem_head?_trimmed (s := s) c (by simp [h])
      rw [hb c List.mem_cons_self] at hc
      cases hc
  have hafter : e = [] := by
    induction e using List.reverseRecOn with
    | nil => rfl
    | append_singleton e c =>
      have hc := isBlank_of_mem_getLast?_trimmed (s := s) c (by simp [h])
      rw [he c (by simp)] at hc
      cases hc
  rw [h, hbefore, hafter, List.nil_append, List.append_nil]

theorem trimmed_of_ends (hhead : ∀ c ∈ s.head?, isBlank c = false)
    (hlast : ∀ c ∈ s.getLast?, isBlank c = false) : trimmed s = s := by
  have hkept : s.dropWhile isBlank = s := by
    cases s with
    | nil => rfl
    | cons c s => exact List.dropWhile_cons_of_neg (by simp [hhead c rfl])
  rw [trimmed_eq_rdropWhile, hkept, List.rdropWhile_eq_self_iff]
  intro hs
  simp [hlast _ (List.getLast?_eq_some_getLast hs)]

theorem trim_trim (s : String) : trim (trim s) = trim s := by
  rw [trim, trim, String.toList_ofList,
    trimmed_of_ends isBlank_of_mem_head?_trimmed isBlank_of_mem_getLast?_trimmed]

end PdfSchema.Text
