import PdfSchema.Proofs.Match.Revisit

namespace PdfSchema

namespace Match

/-- What is reported of a value, and the indirect containers that are entered for that. -/
structure Unfolding where
  annotations : List Annotation
  findings : List Finding
  entered : List ObjectId

structure Fresh (visited ids : List ObjectId) : Prop where
  nodup : ids.Nodup
  notMem : ∀ id ∈ ids, id ∉ visited

theorem fresh_append_iff {visited ids : List ObjectId} {o : Option ObjectId} :
    Fresh visited (o.toList ++ ids) ↔
      (∀ id, o = some id → id ∉ visited) ∧ Fresh (o.toList ++ visited) ids := by
  cases o with
  | none => simp
  | some id =>
    simp only [Option.toList_some, List.singleton_append, Option.some.injEq, forall_eq']
    constructor
    · rintro ⟨hnodup, hnot⟩
      obtain ⟨hid, hnodup⟩ := List.nodup_cons.1 hnodup
      refine ⟨hnot id List.mem_cons_self, hnodup, fun id' hid' hmem ↦ ?_⟩
      rcases List.mem_cons.1 hmem with rfl | hmem
      · exact hid hid'
      · exact hnot id' (List.mem_cons_of_mem _ hid') hmem
    · rintro ⟨hid, hnodup, hnot⟩
      constructor
      · exact List.nodup_cons.2 ⟨fun hmem ↦ hnot id hmem List.mem_cons_self, hnodup⟩
      · intro id' hmem hv
        rcases List.mem_cons.1 hmem with rfl | hmem
        · exact hid hv
        · exact hnot id' hmem (List.mem_cons_of_mem _ hv)

namespace Context

variable (c : Context) (maxDepth : ℕ)

/-- Unfolds the value of a frame into so many levels. -/
def unfold : ℕ → Frame → Unfolding
  | 0, f => ⟨[], [f.finding (.depthLimit maxDepth)], []⟩
  | levels + 1, f =>
    let v := c.visit [] f
    let inside := v.children.map (unfold levels)
    { annotations := v.annotation :: inside.flatMap Unfolding.annotations
      findings := v.findings ++ inside.flatMap Unfolding.findings
      entered := v.visited ++ inside.flatMap Unfolding.entered }

def unfolding (f : Frame) : Unfolding := c.unfold maxDepth (maxDepth + 1 - f.depth) f

def unfoldedIds (fs : List Frame) : List ObjectId :=
  fs.flatMap fun f ↦ (c.unfolding maxDepth f).entered

variable {c maxDepth} {visited : List ObjectId} {f : Frame} {rest : List Frame}

theorem unfolding_of_lt (h : maxDepth < f.depth) :
    c.unfolding maxDepth f = ⟨[], [f.finding (.depthLimit maxDepth)], []⟩ := by
  have hlevels : maxDepth + 1 - f.depth = 0 := by omega
  rw [unfolding, hlevels, unfold]

theorem unfolding_of_le (h : ¬ maxDepth < f.depth) :
    c.unfolding maxDepth f =
      { annotations := c.annotation f ::
          (c.visit [] f).children.flatMap fun g ↦ (c.unfolding maxDepth g).annotations
        findings := (c.visit [] f).findings ++
          (c.visit [] f).children.flatMap fun g ↦ (c.unfolding maxDepth g).findings
        entered := (c.entered [] f).toList ++ c.unfoldedIds maxDepth (c.visit [] f).children } := by
  have hlevels : maxDepth + 1 - f.depth = (maxDepth - f.depth) + 1 := by omega
  have hinside : (c.visit [] f).children.map (c.unfold maxDepth (maxDepth - f.depth)) =
      (c.visit [] f).children.map (c.unfolding maxDepth) := by
    refine List.map_congr_left fun g hg ↦ ?_
    obtain ⟨i, hi⟩ := List.getElem?_of_mem hg
    have hdepth : g.depth = f.depth + 1 := (of_mem_visit_children hi).2.2.2.2
    have hlevels : maxDepth + 1 - g.depth = maxDepth - f.depth := by omega
    rw [unfolding, hlevels]
  rw [unfolding, hlevels, unfold]
  simp only [hinside, List.flatMap_map, visit_annotation, visit_visited, List.append_nil,
    unfoldedIds]

theorem revisited_nil : c.revisited [] f = none := by
  refine Option.eq_none_iff_forall_ne_some.2 fun id hid ↦ ?_
  cases (revisited_eq_some_iff.1 hid).2.2

theorem visit_of_revisited_eq_none (h : c.revisited visited f = none) :
    (c.visit visited f).findings = (c.visit [] f).findings ∧
      (c.visit visited f).children = (c.visit [] f).children ∧
      c.entered visited f = c.entered [] f := by
  have henters : c.enters visited f = c.enters [] f := by rw [enters, enters, h, revisited_nil]
  refine ⟨?_, ?_, ?_⟩
  · rw [visit_eq, visit_eq, henters, h, revisited_nil]
  · rw [visit_eq, visit_eq, henters]
  · rw [entered, entered, henters]

theorem revisited_eq_none_iff :
    c.revisited visited f = none ↔ ∀ id, c.entered [] f = some id → id ∉ visited := by
  rw [Option.eq_none_iff_forall_ne_some]
  refine forall_congr' fun id ↦ ?_
  rw [ne_eq, revisited_eq_some_iff, entered_eq_some_iff]
  simp only [List.not_mem_nil, not_false_iff, and_true, not_and, and_imp]

theorem fresh_unfoldedIds_cons (hd : ¬ maxDepth < f.depth) :
    Fresh visited (c.unfoldedIds maxDepth (f :: rest)) ↔
      c.revisited visited f = none ∧ Fresh (c.visit visited f).visited
        (c.unfoldedIds maxDepth ((c.visit visited f).children ++ rest)) := by
  have hcons : c.unfoldedIds maxDepth (f :: rest) = (c.entered [] f).toList ++
      c.unfoldedIds maxDepth ((c.visit [] f).children ++ rest) := by
    rw [unfoldedIds, List.flatMap_cons, unfolding_of_le hd, unfoldedIds, unfoldedIds,
      List.flatMap_append, List.append_assoc]
  rw [hcons, fresh_append_iff, ← revisited_eq_none_iff]
  -- The unfolding visits as if nothing was visited before, and the walk does so here.
  refine and_congr_right fun hr ↦ ?_
  obtain ⟨_, hchildren, hentered⟩ := visit_of_revisited_eq_none hr
  rw [visit_visited, hchildren, hentered]

theorem fresh_unfoldedIds_cons_of_lt (hd : maxDepth < f.depth) :
    Fresh visited (c.unfoldedIds maxDepth (f :: rest)) ↔
      Fresh visited (c.unfoldedIds maxDepth rest) := by
  rw [unfoldedIds, List.flatMap_cons, unfolding_of_lt hd]
  rfl

/-- A walk that has nothing to visit again reports the unfoldings of the values on its stack. -/
theorem walk_eq_unfolding {stack : List Frame} (h : Fresh visited (c.unfoldedIds maxDepth stack)) :
    c.walk maxDepth visited stack =
      (stack.flatMap fun f ↦ (c.unfolding maxDepth f).annotations,
        stack.flatMap fun f ↦ (c.unfolding maxDepth f).findings) := by
  fun_induction walk c maxDepth visited stack with
  | case1 visited => rfl
  | case2 visited f rest hd later ih =>
    have hlater := ih ((fresh_unfoldedIds_cons_of_lt hd).1 h)
    simp only [later, hlater, List.flatMap_cons, unfolding_of_lt hd, List.nil_append,
      List.singleton_append]
  | case3 visited f rest hd v later ih =>
    obtain ⟨hr, hfresh⟩ := (fresh_unfoldedIds_cons hd).1 h
    obtain ⟨hfindings, hchildren, _⟩ := visit_of_revisited_eq_none hr
    simp only [later, ih hfresh, List.flatMap_append, List.flatMap_cons]
    simp only [v, hfindings, hchildren, visit_annotation, unfolding_of_le hd, List.append_assoc,
      List.cons_append]

/-- A walk that reports no revisits has nothing to visit again. -/
theorem fresh_of_walk {stack : List Frame}
    (h : ∀ x ∈ (c.walk maxDepth visited stack).2, x.issue.isRevisit = false) :
    Fresh visited (c.unfoldedIds maxDepth stack) := by
  fun_induction walk c maxDepth visited stack with
  | case1 visited => exact ⟨List.nodup_nil, fun _ hid ↦ nomatch hid⟩
  | case2 visited f rest hd later ih =>
    exact (fresh_unfoldedIds_cons_of_lt hd).2 (ih fun x hx ↦ h x (List.mem_cons_of_mem _ hx))
  | case3 visited f rest hd v later ih =>
    refine (fresh_unfoldedIds_cons hd).2 ⟨?_, ih fun x hx ↦ h x (List.mem_append_right _ hx)⟩
    have hquiet : v.findings.filter (·.issue.isRevisit) = [] :=
      filter_isRevisit_eq_nil fun x hx ↦ h x (List.mem_append_left _ hx)
    rw [filter_isRevisit_visit, List.map_eq_nil_iff, Option.toList_eq_nil_iff] at hquiet
    exact hquiet

end Context

end Match

end PdfSchema
