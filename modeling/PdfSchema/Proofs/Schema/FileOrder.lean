import PdfSchema.Proofs.Schema.Extension

namespace PdfSchema.Schema

open Consistency

variable {s s' : Schema}

section

variable (h : ∀ name, s.get? name = s'.get? name)

include h

theorem contains_eq_of_get?_eq (name : String) : s.contains name = s'.contains name := by
  rw [KeyedList.contains, h, KeyedList.contains]

theorem explore_eq_of_get?_eq (visited queue : List String) :
    s.explore visited queue = s'.explore visited queue := by
  fun_induction explore s visited queue with
  | case1 visited => rw [explore]
  | case2 visited name rest hnew ih =>
    have hsuccessors : s.successors name = s'.successors name := by
      rw [successors, h, successors]
    rw [contains_eq_of_get?_eq h] at hnew
    rw [ih, hsuccessors, explore, dif_pos hnew]
  | case3 visited name rest hpass ih =>
    rw [contains_eq_of_get?_eq h] at hpass
    rw [ih, explore, dif_neg hpass]

theorem checkObjects_eq_of_get?_eq (objects : List (String × SchemaObject)) :
    checkObjects s objects = checkObjects s' objects := by
  have hcontains (name : String) : s'.contains name = (s.contains name || [].contains name) := by
    rw [contains_eq_of_get?_eq h, List.contains_nil, Bool.or_false]
  rw [checkObjects_eq_filter hcontains, eq_comm, List.filter_eq_self]
  intro d _
  simp [Diagnostic.isBrokenLinkTo]

end

theorem orphans_eq_of_perm (h : s.pairs.Perm s'.pairs) (roots : List String) :
    s.orphans roots = s'.orphans roots := by
  have hreachable : s.reachable roots = s'.reachable roots :=
    explore_eq_of_get?_eq (KeyedList.get?_eq_of_perm h) [] roots
  have hkeys : s.keys.Perm s'.keys := h.map Prod.fst
  have hperm : (s.orphans roots).Perm (s'.orphans roots) := by
    unfold orphans
    rw [hreachable]
    exact (List.mergeSort_perm _ _).trans ((hkeys.filter _).trans (List.mergeSort_perm _ _).symm)
  have hasymm (a b : String) (hab : a < b) (hba : b < a) : a = b :=
    absurd hba (String.lt_asymm hab)
  exact hperm.eq_of_pairwise (fun a b _ _ ↦ hasymm a b) (s.pairwise_orphans roots)
    (s'.pairwise_orphans roots)

/-- The same is reached and left out, and the same is found in another order. -/
theorem validation_of_perm (h : s.pairs.Perm s'.pairs) (roots : List String) :
    s.reachable roots = s'.reachable roots ∧ s.orphans roots = s'.orphans roots ∧
      (s.validate roots).Perm (s'.validate roots) := by
  have hget (name : String) : s.get? name = s'.get? name := KeyedList.get?_eq_of_perm h name
  have horphans : s.orphans roots = s'.orphans roots := orphans_eq_of_perm h roots
  refine ⟨explore_eq_of_get?_eq hget [] roots, horphans, ?_⟩
  have hobjects : (checkObjects s s.pairs).Perm (checkObjects s' s'.pairs) := by
    rw [checkObjects_eq_of_get?_eq hget]
    exact h.flatMap_right _
  have hreachability : checkReachability s roots = checkReachability s' roots := by
    unfold checkReachability
    rw [horphans, funext (contains_eq_of_get?_eq hget)]
  exact hobjects.append (.of_eq hreachability)

def openSchemaReversed : Schema where
  pairs := openSchema.pairs.reverse
  nodup := by decide +kernel

theorem openSchemaReversed_validation :
    openSchema.pairs.Perm openSchemaReversed.pairs ∧
    openSchema.reachable ["FileTrailer"] = openSchemaReversed.reachable ["FileTrailer"] ∧
    openSchema.orphans ["FileTrailer"] = openSchemaReversed.orphans ["FileTrailer"] ∧
    (openSchema.validate ["FileTrailer"]).Perm (openSchemaReversed.validate ["FileTrailer"]) ∧
    (checkObjects openSchemaReversed openSchemaReversed.pairs).map Diagnostic.message =
      ["broken link to `Nowhere`", "broken link to `Catalog`"] := by
  have hperm : openSchema.pairs.Perm openSchemaReversed.pairs := (List.reverse_perm _).symm
  obtain ⟨hreachable, horphans, hvalidate⟩ := validation_of_perm hperm ["FileTrailer"]
  exact ⟨hperm, hreachable, horphans, hvalidate, by decide +kernel⟩

end PdfSchema.Schema
