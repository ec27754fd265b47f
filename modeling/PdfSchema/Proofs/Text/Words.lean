import Mathlib.Data.List.TakeWhile
import PdfSchema.Proofs.Text.Split

namespace PdfSchema.Text

def AllBlank (s : List Char) : Prop := ∀ c ∈ s, isBlank c = true

/-- `s` is made of the words `ws` with blanks around them: no word is empty or has a blank in it,
and no two words touch. -/
def MadeOf : List (List Char) → List Char → Prop
  | [], s => AllBlank s
  | w :: ws, s => ∃ before rest, s = before ++ (w ++ rest) ∧ AllBlank before ∧
      w ≠ [] ∧ (∀ c ∈ w, isBlank c = false) ∧ (∀ c ∈ rest.head?, isBlank c = true) ∧ MadeOf ws rest

variable {s w b : List Char} {ws : List (List Char)} {c : Char}

theorem words_cons_of_isBlank (hc : isBlank c = true) (s : List Char) :
    words (c :: s) = words s := by
  simp [words, splitBy, hc]

theorem words_append_of_allBlank (hb : AllBlank b) (s : List Char) : words (b ++ s) = words s := by
  induction b with
  | nil => rfl
  | cons c b ih =>
    obtain ⟨hc, hb⟩ := List.forall_mem_cons.1 hb
    rw [List.cons_append, words_cons_of_isBlank hc, ih hb]

theorem words_append (hne : w ≠ []) (hw : ∀ c ∈ w, isBlank c = false)
    (hs : ∀ c ∈ s.head?, isBlank c = true) : words (w ++ s) = w :: words s := by
  cases s with
  | nil =>
    rw [List.append_nil, words, splitBy_eq_splitOnP, List.splitOnP_eq_singleton (by simpa using hw)]
    simp [words, splitBy, hne]
  | cons c s =>
    have hc := hs c rfl
    rw [words_cons_of_isBlank hc, words, splitBy_eq_splitOnP,
      List.splitOnP_append_cons_of_forall_mem (by simpa using hw) c hc, ← splitBy_eq_splitOnP]
    simp [words, hne]

theorem words_of_madeOf (h : MadeOf ws s) : words s = ws := by
  induction ws generalizing s with
  | nil =>
    rw [← List.append_nil s, words_append_of_allBlank h]
    rfl
  | cons w ws ih =>
    obtain ⟨before, rest, rfl, hbefore, hne, hw, hrest, h⟩ := h
    rw [words_append_of_allBlank hbefore, words_append hne hw hrest, ih h]

theorem MadeOf.append (hb : AllBlank b) (h : MadeOf ws s) : MadeOf ws (b ++ s) := by
  cases ws with
  | nil => exact List.forall_mem_append.2 ⟨hb, h⟩
  | cons w ws =>
    obtain ⟨before, rest, rfl, hbefore, h⟩ := h
    exact ⟨b ++ before, rest, (List.append_assoc _ _ _).symm,
      List.forall_mem_append.2 ⟨hb, hbefore⟩, h⟩

theorem exists_madeOf (s : List Char) : ∃ ws, MadeOf ws s := by
  induction hlen : s.length using Nat.strongRecOn generalizing s with
  | ind len ih =>
    subst hlen
    cases hs : s with
    | nil => exact ⟨[], List.forall_mem_nil _⟩
    | cons c t =>
      subst hs
      cases hc : isBlank c with
      | true =>
        obtain ⟨ws, hws⟩ := ih t.length (by simp) t rfl
        exact ⟨ws, hws.append (b := [c]) (List.forall_mem_singleton.2 hc)⟩
      | false =>
        let w := (c :: t).takeWhile fun d ↦ !isBlank d
        let rest := (c :: t).dropWhile fun d ↦ !isBlank d
        have hsplit : c :: t = w ++ rest := List.takeWhile_append_dropWhile.symm
        have hne : w ≠ [] := by simp [w, hc]
        have hw : ∀ d ∈ w, isBlank d = false := fun d hd ↦ by
          simpa using List.mem_takeWhile_imp hd
        have hrest : ∀ d ∈ rest.head?, isBlank d = true := fun d hd ↦ by
          have hhead := List.head?_dropWhile_not (fun d ↦ !isBlank d) (c :: t)
          rw [Option.mem_def.1 hd] at hhead
          simpa using hhead
        have hlt : rest.length < (c :: t).length := by
          rw [hsplit, List.length_append]
          have := List.length_pos_iff.2 hne
          omega
        obtain ⟨ws, hws⟩ := ih rest.length hlt rest rfl
        exact ⟨w :: ws, [], rest, hsplit, List.forall_mem_nil _, hne, hw, hrest, hws⟩

theorem words_eq_iff : words s = ws ↔ MadeOf ws s := by
  refine ⟨?_, words_of_madeOf⟩
  rintro rfl
  obtain ⟨ws, hws⟩ := exists_madeOf s
  rwa [words_of_madeOf hws]

end PdfSchema.Text
