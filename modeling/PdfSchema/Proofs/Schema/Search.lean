import Mathlib.Algebra.Order.BigOperators.Group.List
import Mathlib.Algebra.Order.Ring.Nat
import Mathlib.Data.List.Chain
import Mathlib.Data.List.Nodup
import Mathlib.Data.List.Perm.Subperm
import Mathlib.Logic.Function.Iterate
import PdfSchema.Proofs.Schema.Reachability

namespace PdfSchema.Schema

variable {s : Schema} {roots visited queue rest path : List String} {a b name : String}

/-- A path of links from a root to `name` over objects of the schema. -/
structure LinkPath (s : Schema) (roots path : List String) (name : String) : Prop where
  starts : ∃ root ∈ roots, path.head? = some root
  ends : path.getLast? = some name
  objects : ∀ a ∈ path, a ∈ s.keys
  links : path.IsChain s.LinksTo

theorem LinkPath.single (hroot : name ∈ roots) (hk : name ∈ s.keys) :
    s.LinkPath roots [name] name where
  starts := ⟨name, hroot, rfl⟩
  ends := rfl
  objects := fun _ ha ↦ List.mem_singleton.1 ha ▸ hk
  links := .singleton _

theorem LinkPath.snoc (h : s.LinkPath roots path a) (hl : s.LinksTo a b) (hk : b ∈ s.keys) :
    s.LinkPath roots (path ++ [b]) b := by
  constructor
  case starts =>
    obtain ⟨root, hroot, hhead⟩ := h.starts
    exact ⟨root, hroot, by simp [hhead]⟩
  case ends => simp
  case objects =>
    intro c hc
    rcases List.mem_append.1 hc with hc | hc
    · exact h.objects c hc
    · exact List.mem_singleton.1 hc ▸ hk
  case links =>
    refine List.isChain_append.2 ⟨h.links, .singleton _, ?_⟩
    intro x hx y hy
    have hxa : x = a := by simpa [h.ends] using hx.symm
    have hyb : y = b := by simpa using hy.symm
    rw [hxa, hyb]
    exact hl

theorem mem_keys_of_linksTo (h : s.LinksTo a b) : a ∈ s.keys := by
  obtain ⟨o, ho, _⟩ := h
  exact KeyedList.mem_keys_of_get?_eq_some ho

/-- Whether each object that a visited one leads to is visited or in the queue. -/
def Frontier (s : Schema) (visited queue : List String) : Prop :=
  ∀ a ∈ visited, ∀ b, s.LinksTo a b → b ∈ s.keys → b ∈ visited ∨ b ∈ queue

theorem Frontier.visit (h : s.Frontier visited (name :: rest)) :
    s.Frontier (name :: visited) (rest ++ s.successors name) := by
  intro a ha b hl hk
  rcases List.mem_cons.1 ha with rfl | ha
  · exact .inr (List.mem_append_right _ (mem_successors_iff.2 hl))
  · rcases h a ha b hl hk with hb | hb
    · exact .inl (List.mem_cons_of_mem _ hb)
    · rcases List.mem_cons.1 hb with rfl | hb
      · exact .inl List.mem_cons_self
      · exact .inr (List.mem_append_left _ hb)

theorem mem_visited_of_passed (h : ¬ (s.contains name && !visited.contains name) = true)
    (hk : name ∈ s.keys) : name ∈ visited := by
  have hc : s.contains name = true := (contains_iff_mem_keys s name).2 hk
  simpa [hc] using h

theorem Frontier.pass (h : s.Frontier visited (name :: rest))
    (hpass : ¬ (s.contains name && !visited.contains name) = true) :
    s.Frontier visited rest := by
  intro a ha b hl hk
  rcases h a ha b hl hk with hb | hb
  · exact .inl hb
  · rcases List.mem_cons.1 hb with rfl | hb
    · exact .inl (mem_visited_of_passed hpass hk)
    · exact .inr hb

theorem frontier_explore (h : s.Frontier visited queue) :
    s.Frontier (s.explore visited queue) [] := by
  fun_induction explore s visited queue with
  | case1 visited => exact h
  | case2 visited name rest _ ih => exact ih h.visit
  | case3 visited name rest hpass ih => exact ih (h.pass hpass)

theorem mem_explore (h : name ∈ visited ∨ name ∈ queue ∧ name ∈ s.keys) :
    name ∈ s.explore visited queue := by
  fun_induction explore s visited queue with
  | case1 visited => simpa using h
  | case2 visited first rest _ ih =>
    apply ih
    rcases h with h | ⟨h, hk⟩
    · exact .inl (List.mem_cons_of_mem _ h)
    · rcases List.mem_cons.1 h with rfl | h
      · exact .inl List.mem_cons_self
      · exact .inr ⟨List.mem_append_left _ h, hk⟩
  | case3 visited first rest hpass ih =>
    apply ih
    rcases h with h | ⟨h, hk⟩
    · exact .inl h
    · rcases List.mem_cons.1 h with rfl | h
      · exact .inl (mem_visited_of_passed hpass hk)
      · exact .inr ⟨h, hk⟩

theorem explore_nodup_subset (hd : visited.Nodup) (hs : visited ⊆ s.keys) :
    (s.explore visited queue).Nodup ∧ s.explore visited queue ⊆ s.keys := by
  fun_induction explore s visited queue with
  | case1 visited => exact ⟨hd, hs⟩
  | case2 visited name rest hnew ih =>
    obtain ⟨hk, hv⟩ : name ∈ s.keys ∧ name ∉ visited := by
      simpa [contains_iff_mem_keys] using hnew
    exact ih (List.nodup_cons.2 ⟨hv, hd⟩) (List.cons_subset.2 ⟨hk, hs⟩)
  | case3 visited name rest _ ih => exact ih hd hs

theorem reachable_subset_keys (s : Schema) (roots : List String) : s.reachable roots ⊆ s.keys :=
  (explore_nodup_subset List.nodup_nil (List.nil_subset _)).2

theorem mem_reachable_of_mem_roots (hroot : name ∈ roots) (hk : name ∈ s.keys) :
    name ∈ s.reachable roots := mem_explore (.inr ⟨hroot, hk⟩)

theorem mem_reachable_of_linksTo (h : a ∈ s.reachable roots) (hl : s.LinksTo a b)
    (hk : b ∈ s.keys) : b ∈ s.reachable roots := by
  have hclosed : s.Frontier (s.reachable roots) [] :=
    frontier_explore fun a ha ↦ nomatch ha
  have hb := hclosed a h b hl hk
  simpa using hb

theorem exists_linkPath_of_mem_reachable (h : name ∈ s.reachable roots) :
    ∃ path, s.LinkPath roots path name := by
  have hpaths : ∀ name ∈ s.reachable roots, name ∈ s.keys → ∃ path, s.LinkPath roots path name := by
    apply explore_forall
    · intro a b ha hl hb
      obtain ⟨path, hpath⟩ := ha (mem_keys_of_linksTo hl)
      exact ⟨path ++ [b], hpath.snoc hl hb⟩
    · intro name hname
      cases hname
    · intro root hroot hk
      exact ⟨[root], .single hroot hk⟩
  exact hpaths name h (reachable_subset_keys s roots h)

theorem subset_reachable_of_isChain (hc : path.IsChain s.LinksTo) (hk : path ⊆ s.keys)
    (hhead : ∀ a, path.head? = some a → a ∈ s.reachable roots) : path ⊆ s.reachable roots := by
  induction path with
  | nil => exact List.nil_subset _
  | cons a path ih =>
    obtain ⟨hlinks, hc⟩ := List.isChain_cons.1 hc
    obtain ⟨_, hk⟩ := List.cons_subset.1 hk
    have ha : a ∈ s.reachable roots := hhead a rfl
    refine List.cons_subset.2 ⟨ha, ih hc hk ?_⟩
    intro b hb
    have hbk : b ∈ s.keys := hk (List.mem_of_mem_head? hb)
    exact mem_reachable_of_linksTo ha (hlinks b hb) hbk

theorem LinkPath.mem_reachable (h : s.LinkPath roots path name) : name ∈ s.reachable roots := by
  have hsub : path ⊆ s.reachable roots := by
    apply subset_reachable_of_isChain h.links h.objects
    intro a ha
    obtain ⟨root, hroot, hhead⟩ := h.starts
    obtain rfl : root = a := Option.some.inj (hhead.symm.trans ha)
    exact mem_reachable_of_mem_roots hroot (h.objects root (List.mem_of_mem_head? hhead))
  exact hsub (List.mem_of_getLast? h.ends)

theorem mem_orphans_iff : name ∈ s.orphans roots ↔
    name ∈ s.keys ∧ name ∉ s.reachable roots ∧ name ∉ roots := by
  simp [orphans]

theorem pairwise_orphans (s : Schema) (roots : List String) :
    (s.orphans roots).Pairwise (· < ·) := by
  have hsorted : (s.orphans roots).Pairwise (· ≤ ·) := by
    have htrans : ∀ a b c : String,
        decide (a ≤ b) = true → decide (b ≤ c) = true → decide (a ≤ c) = true := by
      intro a b c hab hbc
      rw [decide_eq_true_eq] at hab hbc ⊢
      exact String.le_trans hab hbc
    have htotal : ∀ a b : String, (decide (a ≤ b) || decide (b ≤ a)) = true := by
      intro a b
      simpa using String.le_total a b
    exact (List.pairwise_mergeSort htrans htotal _).imp of_decide_eq_true
  have hnodup : (s.orphans roots).Nodup := by
    refine (List.mergeSort_perm _ _).nodup_iff.2 ?_
    exact List.Nodup.filter _ s.nodup
  exact hsorted.imp₂ (fun a b hab hne ↦ Std.lt_of_le_of_ne hab hne) hnodup

end PdfSchema.Schema
