import PdfSchema.Proofs.Match.Revisit

namespace PdfSchema

namespace Match

namespace Context

variable {c : Context} {maxDepth : ℕ} {visited : List ObjectId} {stack : List (Place × Frame)}

def Parent (c : Context) (maxDepth : ℕ) (u t : Stop) : Prop :=
  ¬ maxDepth < u.frame.depth ∧
    (t.place, t.frame) ∈ c.locate u.place u.frame (c.visit u.visited u.frame).children

theorem mem_stack_or_parent {after : List Stop} {t : Stop} : ∀ before : List Stop,
    c.stops maxDepth visited stack = before ++ t :: after →
      (t.place, t.frame) ∈ stack ∨ ∃ u ∈ before, c.Parent maxDepth u t := by
  fun_induction stops c maxDepth visited stack with
  | case1 visited =>
    intro before h
    simp at h
  | case2 visited p f rest hd ih =>
    intro before h
    cases before with
    | nil =>
      obtain ⟨rfl, _⟩ := List.cons.inj h
      exact .inl List.mem_cons_self
    | cons u before =>
      rcases ih before (List.cons.inj h).2 with hmem | ⟨v, hv, hp⟩
      · exact .inl (List.mem_cons_of_mem _ hmem)
      · exact .inr ⟨v, List.mem_cons_of_mem _ hv, hp⟩
  | case3 visited p f rest hd v ih =>
    intro before h
    cases before with
    | nil =>
      obtain ⟨rfl, _⟩ := List.cons.inj h
      exact .inl List.mem_cons_self
    | cons u before =>
      obtain ⟨rfl, htail⟩ := List.cons.inj h
      rcases ih before htail with hmem | ⟨w, hw, hp⟩
      · rcases List.mem_append.1 hmem with hmem | hmem
        · exact .inr ⟨_, List.mem_cons_self, hd, hmem⟩
        · exact .inl (List.mem_cons_of_mem _ hmem)
      · exact .inr ⟨w, List.mem_cons_of_mem _ hw, hp⟩

/-- What holds at the stops of the frames on the stack and goes over from a parent, holds at every
stop. -/
theorem stops_induction {P : Stop → Prop}
    (root : ∀ t ∈ c.stops maxDepth visited stack, (t.place, t.frame) ∈ stack → P t)
    (child : ∀ u ∈ c.stops maxDepth visited stack, P u →
      ∀ t ∈ c.stops maxDepth visited stack, c.Parent maxDepth u t → P t) :
    ∀ t ∈ c.stops maxDepth visited stack, P t := by
  have key : ∀ n, ∀ {before after : List Stop} {t : Stop}, before.length = n →
      c.stops maxDepth visited stack = before ++ t :: after → P t := by
    intro n
    induction n using Nat.strongRecOn with
    | ind n ih =>
      intro before after t hn h
      have ht : t ∈ c.stops maxDepth visited stack := by
        rw [h]
        exact List.mem_append_right _ List.mem_cons_self
      rcases mem_stack_or_parent before h with hmem | ⟨u, hu, hp⟩
      · exact root t ht hmem
      · obtain ⟨l, r, rfl⟩ := List.append_of_mem hu
        have hlt : l.length < n := by
          rw [← hn, List.length_append, List.length_cons]
          omega
        have hsplit : c.stops maxDepth visited stack = l ++ u :: (r ++ t :: after) := by
          rw [h, List.append_assoc, List.cons_append]
        refine child u ?_ (ih _ hlt rfl hsplit) t ht hp
        rw [hsplit]
        exact List.mem_append_right _ List.mem_cons_self
  intro t ht
  obtain ⟨before, after, h⟩ := List.append_of_mem ht
  exact key _ rfl h

theorem visited_subset_of_mem_stops {t : Stop} (ht : t ∈ c.stops maxDepth visited stack) :
    visited ⊆ t.visited := by
  fun_induction stops c maxDepth visited stack with
  | case1 visited => cases ht
  | case2 visited p f rest hd ih =>
    rcases List.mem_cons.1 ht with rfl | ht
    · exact List.Subset.refl _
    · exact ih ht
  | case3 visited p f rest hd v ih =>
    rcases List.mem_cons.1 ht with rfl | ht
    · exact List.Subset.refl _
    · exact List.Subset.trans visited_subset_visit (ih ht)

/-- The first annotation of an indirect container is made where the container is entered. -/
theorem find?_annotations_stops {t : Stop} (ht : t ∈ c.stops maxDepth visited stack)
    (hd : ¬ maxDepth < t.frame.depth) {id : ObjectId}
    (he : c.entered t.visited t.frame = some id) :
    ((c.stops maxDepth visited stack).flatMap (c.annotationsAt maxDepth)).find?
      (·.containerId? = some id) = some (c.annotation t.frame) := by
  fun_induction stops c maxDepth visited stack with
  | case1 visited => cases ht
  | case2 visited p f rest hd' ih =>
    have hnone : c.annotationsAt maxDepth ⟨p, f, visited⟩ = [] := by rw [annotationsAt, if_pos hd']
    rw [List.flatMap_cons, hnone, List.nil_append]
    rcases List.mem_cons.1 ht with rfl | ht
    · exact absurd hd' hd
    · exact ih ht
  | case3 visited p f rest hd' v ih =>
    have hone : c.annotationsAt maxDepth ⟨p, f, visited⟩ = [c.annotation f] := by
      rw [annotationsAt, if_neg hd']
    rw [List.flatMap_cons, hone, List.singleton_append]
    rcases List.mem_cons.1 ht with rfl | ht
    · have hid : (c.annotation f).containerId? = some id := by
        obtain ⟨hk, hid, _⟩ := entered_eq_some_iff.1 he
        rw [Context.containerId?_annotation, Resolved.containerId?, if_pos hk, hid]
      exact List.find?_cons_of_pos (by simpa using hid)
    · have hid : (c.annotation f).containerId? ≠ some id := by
        intro hid
        have hv : id ∈ v.visited := mem_visit_visited_iff.2 (.inr hid)
        exact (entered_eq_some_iff.1 he).2.2 (visited_subset_of_mem_stops ht hv)
      rw [List.find?_cons_of_neg (by simpa using hid)]
      exact ih ht

end Context

end Match

end PdfSchema
