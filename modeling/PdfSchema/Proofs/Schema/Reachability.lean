import Mathlib.Logic.Relation
import PdfSchema.Reachability

namespace PdfSchema

theorem Row.mem_links_iff {r : Row} {target : LinkTarget} :
    target ∈ r.links ↔ ∃ i, target ∈ r.linksFor i := by
  simp only [links, List.mem_flatten, List.mem_filterMap, id_eq, exists_eq_right, linksFor]
  constructor
  · rintro ⟨targets, ht, h⟩
    obtain ⟨i, hi⟩ := List.getElem?_of_mem ht
    refine ⟨i, ?_⟩
    rw [hi]
    exact h
  · rintro ⟨i, h⟩
    cases hi : (r.link.getD [])[i]? with
    | none =>
      rw [hi] at h
      cases h
    | some entry =>
      rw [hi] at h
      cases entry with
      | none => cases h
      | some targets => exact ⟨targets, List.mem_of_getElem? hi, h⟩

namespace Schema

open Relation

def LinksTo (s : Schema) (a b : String) : Prop :=
  ∃ o, s.get? a = some o ∧ ∃ row ∈ KeyedList.values o, b ∈ row.linkNames

variable {s : Schema} {a b : String}

theorem mem_successors_iff : b ∈ s.successors a ↔ s.LinksTo a b := by
  unfold successors LinksTo
  cases s.get? a with
  | none => simp
  | some o => simp [SchemaObject.linkNames]

/-- What holds of the names that a search has found or is to look at, and goes over from an object
to the names that it leads to, holds of all names that the search finds. -/
theorem explore_forall {P : String → Prop} (step : ∀ a b, P a → s.LinksTo a b → P b)
    {visited queue : List String} (hvisited : ∀ name ∈ visited, P name)
    (hqueue : ∀ name ∈ queue, P name) : ∀ name ∈ s.explore visited queue, P name := by
  fun_induction explore s visited queue with
  | case1 visited => exact hvisited
  | case2 visited name rest h ih =>
    have hname : P name := hqueue name List.mem_cons_self
    apply ih
    · intro a ha
      rcases List.mem_cons.1 ha with rfl | ha
      · exact hname
      · exact hvisited a ha
    · intro a ha
      rcases List.mem_append.1 ha with ha | ha
      · exact hqueue a (List.mem_cons_of_mem _ ha)
      · exact step name a hname (mem_successors_iff.1 ha)
  | case3 visited name rest h ih =>
    exact ih hvisited fun a ha ↦ hqueue a (List.mem_cons_of_mem _ ha)

theorem exists_root_of_mem_reachable {roots : List String} {name : String}
    (h : name ∈ s.reachable roots) : ∃ root ∈ roots, ReflTransGen s.LinksTo root name := by
  refine explore_forall (P := fun name ↦ ∃ root ∈ roots, ReflTransGen s.LinksTo root name)
    ?_ ?_ ?_ name h
  · intro a b ha hl
    obtain ⟨root, hroot, ha⟩ := ha
    exact ⟨root, hroot, ha.tail hl⟩
  · exact fun name hname ↦ nomatch hname
  · exact fun root hroot ↦ ⟨root, hroot, .refl⟩

/-- Where a search leaves no orphans, a path of links leads from a root to each object. -/
theorem exists_root_of_orphans_eq_nil {roots : List String} (h : s.orphans roots = [])
    {name : String} (hname : name ∈ s.keys) :
    ∃ root ∈ roots, ReflTransGen s.LinksTo root name := by
  have hnone := congrArg List.length h
  rw [orphans, List.length_mergeSort, List.length_nil, List.length_eq_zero_iff,
    List.filter_eq_nil_iff] at hnone
  have hreached := hnone name hname
  simp only [Bool.and_eq_true, Bool.not_eq_true', List.contains_eq_mem, decide_eq_false_iff_not,
    not_and, Classical.not_not] at hreached
  by_cases hm : name ∈ s.reachable roots
  · exact exists_root_of_mem_reachable hm
  · exact ⟨name, hreached hm, .refl⟩

end Schema

end PdfSchema
