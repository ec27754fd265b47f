import Mathlib
import PdfSchema.Proofs.Match.Stop
import PdfSchema.Proofs.Match.Traversal

namespace PdfSchema

open Relation

namespace Document

/-- What holds of the visited containers on the way through a document without cycles: those that
are not above the value at hand lead to others of their kind only, and are on no cycle. -/
structure Settled (d : Document) (visited above : List ObjectId) : Prop where
  above_subset : above ⊆ visited
  closed : ∀ u ∈ visited, u ∉ above → ∀ w, d.Links u w → w ∈ visited ∧ w ∉ above
  acyclic : ∀ u ∈ visited, u ∉ above → ¬ TransGen d.Links u u

variable {d : Document} {visited above : List ObjectId} {u : ObjectId}

theorem Settled.enter (h : d.Settled visited above) (hu : u ∉ visited) :
    d.Settled (u :: visited) (above ++ [u]) := by
  have hmem : ∀ w ∈ u :: visited, w ∉ above ++ [u] → w ∈ visited ∧ w ∉ above := by
    intro w hw ha
    simp only [List.mem_append, List.mem_singleton, not_or] at ha
    exact ⟨(List.mem_cons.1 hw).resolve_left ha.2, ha.1⟩
  constructor
  · intro w hw
    rcases List.mem_append.1 hw with hw | hw
    · exact List.mem_cons_of_mem _ (h.above_subset hw)
    · exact List.mem_singleton.1 hw ▸ List.mem_cons_self
  · intro w hw ha x hx
    obtain ⟨hw, ha⟩ := hmem w hw ha
    obtain ⟨hxv, hxa⟩ := h.closed w hw ha x hx
    refine ⟨List.mem_cons_of_mem _ hxv, ?_⟩
    simp only [List.mem_append, List.mem_singleton, not_or]
    exact ⟨hxa, fun he ↦ hu (he ▸ hxv)⟩
  · intro w hw ha
    obtain ⟨hw, ha⟩ := hmem w hw ha
    exact h.acyclic w hw ha

theorem Settled.reflTransGen (h : d.Settled visited above) {w x : ObjectId} (hw : w ∈ visited)
    (ha : w ∉ above) (hx : ReflTransGen d.Links w x) : x ∈ visited ∧ x ∉ above := by
  induction hx with
  | refl => exact ⟨hw, ha⟩
  | tail _ hl ih => exact h.closed _ ih.1 ih.2 _ hl

/-- A container is settled once all that it leads to is settled without it. -/
theorem Settled.leave (h : d.Settled visited (above ++ [u]))
    (hl : ∀ w, d.Links u w → w ∈ visited ∧ w ∉ above ++ [u]) : d.Settled visited above := by
  have hne : ∀ {w}, w ∉ above → w ≠ u → w ∉ above ++ [u] := by
    intro w ha hw
    simp only [List.mem_append, List.mem_singleton, not_or]
    exact ⟨ha, hw⟩
  constructor
  · exact fun w hw ↦ h.above_subset (List.mem_append_left _ hw)
  · intro w hw ha x hx
    have hx' : x ∈ visited ∧ x ∉ above ++ [u] := by
      by_cases he : w = u
      · exact hl x (he ▸ hx)
      · exact h.closed w hw (hne ha he) x hx
    exact ⟨hx'.1, fun hxa ↦ hx'.2 (List.mem_append_left _ hxa)⟩
  · intro w hw ha hc
    by_cases he : w = u
    · subst he
      obtain ⟨x, hx, hc⟩ := TransGen.head'_iff.1 hc
      have hx := hl x hx
      exact (h.reflTransGen hx.1 hx.2 hc).2 (List.mem_append_right _ List.mem_cons_self)
    · exact h.acyclic w hw (hne ha he) hc

end Document

namespace Match

structure Traversal.Plain (t : Traversal) : Prop where
  depthLimit : ∀ x ∈ t.findings, ∀ n, x.issue ≠ .depthLimit n
  cycle : ∀ x ∈ t.findings, ∀ id, x.issue ≠ .cycle id
  isSealed : ∀ a ∈ t.annotations, a.isSealed = false

theorem Traversal.Plain.of_append {t u : Traversal} (h : (t.append u).Plain) :
    t.Plain ∧ u.Plain :=
  ⟨⟨fun x hx ↦ h.depthLimit x (List.mem_append_left _ hx),
      fun x hx ↦ h.cycle x (List.mem_append_left _ hx),
      fun a ha ↦ h.isSealed a (List.mem_append_left _ ha)⟩,
    ⟨fun x hx ↦ h.depthLimit x (List.mem_append_right _ hx),
      fun x hx ↦ h.cycle x (List.mem_append_right _ hx),
      fun a ha ↦ h.isSealed a (List.mem_append_right _ ha)⟩⟩

/-- What holds of the frames of a walk: all that the node leads to can be reached from the trailer
and from each of the containers that were entered above. -/
structure Frame.Descends (f : Frame) (d : Document) : Prop where
  reached : ∀ id, d.Leads f.node id → d.Reached id
  above : ∀ id, d.Leads f.node id → ∀ a ∈ f.ancestors, TransGen d.Links a id

namespace Context

variable {c : Context} {visited : List ObjectId} {f : Frame}

theorem leads_visit_children (he : c.enters visited f = true)
    (hs : (c.annotation f).isSealed = false) {id : ObjectId}
    (h : ∃ e ∈ (c.target f).value.children, c.document.Leads e.2 id) :
    ∃ g ∈ (c.visit visited f).children, c.document.Leads g.node id := by
  obtain ⟨e, hm, hl⟩ := h
  obtain ⟨i, hi⟩ := List.getElem?_of_mem hm
  obtain ⟨g, hg, rfl⟩ := exists_visit_child he hs hi
  exact ⟨g, List.mem_of_getElem? hg, hl⟩

theorem revisited_of_leads (he : c.enters visited f = false) {id : ObjectId}
    (h : c.document.Leads f.node id) : c.revisited visited f = some id := by
  obtain ⟨hk, h⟩ := leads_node_iff.1 h
  obtain ⟨id', hid', hv⟩ := exists_visited_of_not_enters hk he
  rcases h with h | ⟨h, _⟩
  · rw [hid', Option.some.injEq] at h
    exact revisited_eq_some_iff.2 ⟨hk, h ▸ hid', h ▸ hv⟩
  · cases hid'.symm.trans h

theorem traverseInside_of_not_enters {maxDepth : ℕ} {above : List ObjectId}
    (he : c.enters visited (f.below above) = false) :
    c.traverseInside maxDepth visited above f = .empty visited := by
  have hv : (c.visit visited (f.below above)).visited = visited := by
    rw [visit_visited, entered, if_neg (by simp [he])]
    rfl
  rw [traverseInside, visit_children_of_not_enters he, traverseAll_nil, hv]

/-- What the traversal inside a container settles, the container that is entered apart, the visit
to the container settles. -/
theorem settled_visit {maxDepth : ℕ} {above : List ObjectId}
    (he : c.enters visited (f.below above) = true)
    (hs : (c.annotation (f.below above)).isSealed = false) (hset : c.document.Settled visited above)
    (inside : ∀ o, c.entered visited (f.below above) = o →
      c.document.Settled (o.toList ++ visited) (above ++ o.toList) →
      c.document.Settled (c.traverseInside maxDepth visited above f).visited (above ++ o.toList) ∧
        ∀ g ∈ (c.visit visited (f.below above)).children, ∀ id, c.document.Leads g.node id →
          id ∈ (c.traverseInside maxDepth visited above f).visited ∧ id ∉ above ++ o.toList) :
    c.document.Settled (c.traverseInside maxDepth visited above f).visited above ∧
      ∀ id, c.document.Leads f.node id →
        id ∈ (c.traverseInside maxDepth visited above f).visited ∧ id ∉ above := by
  have hchildren : ∀ {id}, (∃ e ∈ (c.target (f.below above)).value.children,
      c.document.Leads e.2 id) → ∃ g ∈ (c.visit visited (f.below above)).children,
        c.document.Leads g.node id := leads_visit_children he hs
  cases ho : c.entered visited (f.below above) with
  | some u =>
    -- All that `u` leads to is settled inside of it, so that `u` is settled with it.
    obtain ⟨hk, hid, hv⟩ := entered_eq_some_iff.1 ho
    obtain ⟨hset', hl⟩ := inside _ ho (hset.enter hv)
    refine ⟨hset'.leave fun w hw ↦ ?_, fun id h ↦ ?_⟩
    · obtain ⟨g, hg, hw⟩ := hchildren ((links_target_iff hid hk).1 hw)
      exact hl g hg w hw
    · rcases (leads_node_iff.1 h).2 with h | ⟨h, _⟩
      · obtain rfl : u = id := Option.some.inj (hid.symm.trans h)
        have hu : u ∈ (c.visit visited (f.below above)).visited := mem_visit_visited.2 (.inl ho)
        exact ⟨(c.traverseAll maxDepth _ _ _).2 hu, fun ha ↦ hv (hset.above_subset ha)⟩
      · cases hid.symm.trans h
  | none =>
    -- A direct container is no vertex, and leads to what its entries lead to.
    obtain ⟨hset', hl⟩ := inside _ ho (by simpa using hset)
    rw [Option.toList_none, List.append_nil] at hset' hl
    refine ⟨hset', fun id h ↦ ?_⟩
    rw [entered, if_pos he] at ho
    rcases (leads_node_iff.1 h).2 with h | ⟨_, h⟩
    · cases ho.symm.trans h
    · obtain ⟨g, hg, h⟩ := hchildren h
      exact hl g hg id h

theorem settled_traverse (c : Context) (maxDepth : ℕ) :
    (∀ visited above f, (c.traverse maxDepth visited above f).1.Plain →
      c.document.Settled visited above →
      c.document.Settled (c.traverse maxDepth visited above f).1.visited above ∧
      ∀ id, c.document.Leads f.node id →
        id ∈ (c.traverse maxDepth visited above f).1.visited ∧ id ∉ above) ∧
    (∀ visited above fs, (c.traverseAll maxDepth visited above fs).1.Plain →
      c.document.Settled visited above →
      c.document.Settled (c.traverseAll maxDepth visited above fs).1.visited above ∧
      ∀ f ∈ fs, ∀ id, c.document.Leads f.node id →
        id ∈ (c.traverseAll maxDepth visited above fs).1.visited ∧ id ∉ above) := by
  refine traverse_induction c maxDepth _ _ ?deep ?visit ?nil ?cons
  case deep =>
    intro visited above f hd hp
    rw [traverse_of_lt hd] at hp
    exact absurd rfl (hp.depthLimit _ List.mem_cons_self maxDepth)
  case visit =>
    intro visited above f hd ih hp hset
    rw [traverse_of_le hd] at hp ⊢
    have hin : (c.traverseInside maxDepth visited above f).Plain :=
      ⟨fun x hx ↦ hp.depthLimit x (List.mem_append_right _ hx),
        fun x hx ↦ hp.cycle x (List.mem_append_right _ hx),
        fun a ha ↦ hp.isSealed a (List.mem_cons_of_mem _ ha)⟩
    cases he : c.enters visited (f.below above) with
    | false =>
      -- If the node leads to a container, that one was visited before, and not above.
      simp only [traverseInside_of_not_enters he]
      refine ⟨hset, fun id hid ↦ ?_⟩
      have hr := revisited_of_leads he hid
      refine ⟨(revisited_eq_some_iff.1 hr).2.2, fun ha ↦ ?_⟩
      obtain ⟨x, hx, hi⟩ := cycle_mem_visit_findings.2 ⟨hr, ha⟩
      exact hp.cycle x (List.mem_append_left _ hx) id hi
    | true =>
      refine settled_visit he (hp.isSealed _ List.mem_cons_self) hset ?_
      rintro _ rfl h
      rw [← visit_visited] at h
      exact ih hin h
  case nil =>
    intro visited above _ hset
    rw [traverseAll_nil]
    exact ⟨hset, fun f hf ↦ nomatch hf⟩
  case cons =>
    intro visited above f fs ihf ihfs hp hset
    rw [traverseAll_cons] at hp ⊢
    obtain ⟨hp₁, hp₂⟩ := hp.of_append
    obtain ⟨hset₁, hl₁⟩ := ihf hp₁ hset
    obtain ⟨hset₂, hl₂⟩ := ihfs hp₂ hset₁
    refine ⟨hset₂, fun g hg id hid ↦ ?_⟩
    rcases List.mem_cons.1 hg with rfl | hg
    · obtain ⟨hv, ha⟩ := hl₁ id hid
      exact ⟨(c.traverseAll maxDepth _ above fs).2 hv, ha⟩
    · exact hl₂ g hg id hid

theorem descends_of_visit_children {g : Frame} {i : ℕ} (h : f.Descends c.document)
    (hg : (c.visit visited f).children[i]? = some g) : g.Descends c.document := by
  obtain ⟨he, _, hi, ha, _⟩ := of_mem_visit_children hg
  have hk := (enters_iff.1 he).1
  have hm := List.mem_of_getElem? hi
  rw [entered, if_pos he] at ha
  cases hid : (c.target f).id with
  | none =>
    have hl : ∀ {id}, c.document.Leads g.node id → c.document.Leads f.node id :=
      fun hl ↦ leads_node_iff.2 ⟨hk, .inr ⟨hid, _, hm, hl⟩⟩
    rw [hid, Option.toList_none, List.append_nil] at ha
    exact ⟨fun id h' ↦ h.reached id (hl h'), fun id h' a ha' ↦ h.above id (hl h') a (ha ▸ ha')⟩
  | some u =>
    have hu : c.document.Leads f.node u := leads_node_iff.2 ⟨hk, .inl hid⟩
    have hl : ∀ {id}, c.document.Leads g.node id → c.document.Links u id :=
      fun hl ↦ (links_target_iff hid hk).2 ⟨_, hm, hl⟩
    rw [hid, Option.toList_some] at ha
    refine ⟨fun id h' ↦ (h.reached u hu).links (hl h'), fun id h' a ha' ↦ ?_⟩
    rw [ha, List.mem_append, List.mem_singleton] at ha'
    rcases ha' with ha' | rfl
    · exact (h.above u hu a ha').tail (hl h')
    · exact .single (hl h')

end Context

end Match

open Match

namespace Schema

variable {s : Schema} {d : Document} {options : Options}

theorem descends_of_mem_stops {t : Stop} (ht : t ∈ s.stops d options) :
    t.frame.Descends d := by
  refine Context.stops_forall (P := fun _ f ↦ f.Descends d) ?_ ?_ t ht
  · intro visited p f h x hx
    obtain ⟨i, hi, _⟩ := Context.mem_locate.1 hx
    exact Context.descends_of_visit_children h hi
  · intro x hx
    rw [List.mem_singleton.1 hx]
    exact ⟨fun id h ↦ ⟨id, h, .refl⟩, fun id _ a ha ↦ nomatch ha⟩

/-- A walk that comes back to a container from inside of it has found a cycle. -/
theorem cyclic_of_cycle_mem_findings {x : Finding} {id : ObjectId}
    (hx : x ∈ (s.matchDocument d options).findings) (hi : x.issue = .cycle id) : d.Cyclic := by
  rcases mem_findings_iff.1 hx with hx | ⟨t, ht, hx⟩
  · obtain ⟨_, he⟩ := mem_rootFindings hx
    cases he.symm.trans hi
  · unfold Context.findingsAt at hx
    split at hx
    · rw [List.mem_singleton.1 hx] at hi
      cases hi
    · obtain ⟨hr, ha⟩ := Context.cycle_mem_visit_findings.1 ⟨x, hx, hi⟩
      obtain ⟨hk, hid, _⟩ := Context.revisited_eq_some_iff.1 hr
      have hl : d.Leads t.frame.node id := Context.leads_node_iff.2 ⟨hk, .inl hid⟩
      have h := descends_of_mem_stops ht
      exact ⟨id, h.reached id hl, h.above id hl id ha⟩

theorem not_cyclic_of_plain {c : Context} {maxDepth : ℕ} {f : Frame}
    (h : (c.traverse maxDepth [] [] f).1.Plain) (hf : f.node = c.document.trailer) :
    ¬ c.document.Cyclic := by
  have h₀ : c.document.Settled [] [] :=
    ⟨List.Subset.refl _, fun u hu ↦ (nomatch hu), fun u hu ↦ (nomatch hu)⟩
  obtain ⟨hset, hl⟩ := (c.settled_traverse maxDepth).1 [] [] f h h₀
  rintro ⟨id, ⟨u, hu, hid⟩, hc⟩
  obtain ⟨hv, ha⟩ := hl u (hf ▸ hu)
  obtain ⟨hv, ha⟩ := hset.reflTransGen hv ha hid
  exact hset.acyclic id hv ha hc

theorem plain_of_unabridged (h : (s.matchDocument d options).Unabridged)
    (hno : ¬ ∃ x ∈ (s.matchDocument d options).findings, x.issue.code = "cycle") :
    ((Context.mk s d).traverse options.maxDepth [] []
      (rootFrame d (s.matchDocument d options).rootObject)).1.Plain := by
  let f := rootFrame d (s.matchDocument d options).rootObject
  let t := ((Context.mk s d).traverse options.maxDepth [] [] f).1
  have hwalk : (Context.mk s d).walk options.maxDepth [] [f] = (t.annotations, t.findings) :=
    Context.walk_root _ _ rfl
  have ha : (s.matchDocument d options).annotations = t.annotations := congrArg Prod.fst hwalk
  have hf : ∀ x ∈ t.findings, x ∈ (s.matchDocument d options).findings := by
    intro x hx
    rw [show t.findings = ((Context.mk s d).walk options.maxDepth [] [f]).2 by rw [hwalk]] at hx
    exact List.mem_append_right _ hx
  constructor
  · intro x hx n hi
    have hcode := Issue.code_eq_depthLimit_iff.2 ⟨n, hi⟩
    exact (Report.unabridged_iff.1 h).1 x (hf x hx) hcode
  · exact fun x hx id hi ↦ hno ⟨x, hf x hx, Issue.code_eq_cycle_iff.2 ⟨id, hi⟩⟩
  · exact fun a h' ↦ h.isSealed a (ha ▸ h')

/-- A report that leaves nothing out tells of a cycle if and only if the indirect containers that
can be reached from the trailer are on one. -/
theorem exists_cycle_iff_cyclic (h : (s.matchDocument d options).Unabridged) :
    (∃ x ∈ (s.matchDocument d options).diagnostics, x.code = "cycle") ↔ d.Cyclic := by
  rw [Report.mem_diagnostics_code]
  constructor
  · rintro ⟨x, hx, hc⟩
    obtain ⟨id, hi⟩ := Issue.code_eq_cycle_iff.1 hc
    exact cyclic_of_cycle_mem_findings hx hi
  · intro hcyclic
    refine Classical.byContradiction fun hno ↦ ?_
    exact not_cyclic_of_plain (c := ⟨s, d⟩) (plain_of_unabridged h hno) rfl hcyclic

def ringDocument : Document where
  trailer := .dictionary [("Root", .reference ⟨1, 0⟩)]
  objects :=
    ((KeyedList.empty.put ⟨1, 0⟩ (.dictionary [("Kids", .array [.reference ⟨3, 0⟩])])).put
      ⟨2, 0⟩ (.dictionary [("Parent", .reference ⟨1, 0⟩)])).put ⟨3, 0⟩ (.reference ⟨2, 0⟩)

theorem ringDocument_cyclic :
    (matchDocument .empty ringDocument {}).Unabridged ∧ ringDocument.Cyclic := by
  have h : (matchDocument .empty ringDocument {}).Unabridged := of_decide_eq_true (by cbv)
  have hcodes : (matchDocument .empty ringDocument {}).findings.map (fun x ↦ x.issue.code) =
      ["missing-root", "cycle"] := by cbv
  have hx : ∃ x ∈ (matchDocument .empty ringDocument {}).findings, x.issue.code = "cycle" := by
    refine List.mem_map.1 ?_
    rw [hcodes]
    exact List.mem_cons_of_mem _ List.mem_cons_self
  exact ⟨h, (exists_cycle_iff_cyclic h).1 (Report.mem_diagnostics_code.2 hx)⟩

end Schema

end PdfSchema
