import Mathlib.Data.Finset.Card
import Mathlib.Data.Finset.Dedup
import PdfSchema.Proofs.Match.Trail

namespace PdfSchema

namespace Match

def Issue.isRevisit : Issue → Bool
  | cycle _ | sharedObject _ => true
  | _ => false

def Annotation.containerId? (a : Annotation) : Option ObjectId :=
  if a.kind.isContainer then a.id else none

/-- An annotation with what stands above its value on a trail, and the revisit notes about it. -/
structure Sighting where
  annotation : Annotation
  above : List (String × Resolved)
  notes : List Finding

namespace Sighting

def aboveIds (x : Sighting) : List ObjectId := x.above.filterMap fun y ↦ y.2.containerId?

/-- Whether the notes are right, where `seen` are the containers that were annotated before. -/
structure Accounted (x : Sighting) (d : Document) (seen : List ObjectId) : Prop where
  trail : ∃ r : Resolved, r.id = x.annotation.id ∧ r.value.kind = x.annotation.kind ∧
    d.IsTrail (x.above ++ [(x.annotation.path, r)])
  quiet : x.notes = [] ↔ ∀ id, x.annotation.containerId? = some id → id ∉ seen
  noted : ∀ id, x.annotation.containerId? = some id → id ∈ seen →
    x.notes = [⟨x.annotation.path, x.annotation.object,
      if id ∈ x.aboveIds then .cycle id else .sharedObject id⟩]

def AllAccounted (xs : List Sighting) (d : Document) (seen : List ObjectId) : Prop :=
  ∀ (n : ℕ) (x : Sighting), xs[n]? = some x →
    x.Accounted d (seen ++ ((xs.map annotation).take n).filterMap Annotation.containerId?)

variable {d : Document} {seen : List ObjectId} {x : Sighting} {xs : List Sighting}

theorem AllAccounted.cons (hx : x.Accounted d seen)
    (hxs : AllAccounted xs d (seen ++ x.annotation.containerId?.toList)) :
    AllAccounted (x :: xs) d seen := by
  intro n y hy
  cases n with
  | zero =>
    obtain rfl : x = y := by simpa using hy
    simpa using hx
  | succ n =>
    have h := hxs n y (by simpa using hy)
    have hseen : ((x :: xs).map annotation).take (n + 1) =
        x.annotation :: (xs.map annotation).take n := rfl
    rw [hseen, List.filterMap_cons]
    cases hid : x.annotation.containerId? <;> simpa [hid] using h

theorem AllAccounted.of_snoc (h : AllAccounted (xs ++ [x]) d []) :
    AllAccounted xs d [] ∧
      x.Accounted d ((xs.map annotation).filterMap Annotation.containerId?) := by
  constructor
  · intro n y hy
    have hn : n < xs.length := (List.getElem?_eq_some_iff.1 hy).1
    have hy' := h n y (by rw [List.getElem?_append_left hn, hy])
    rwa [List.map_append, List.take_append_of_le_length (by simpa using hn.le)] at hy'
  · have hx := h xs.length x (by simp)
    simpa using hx

theorem length_dedup_snoc (ids : List ObjectId) (id : ObjectId) :
    (ids ++ [id]).dedup.length = ids.dedup.length + if id ∈ ids then 0 else 1 := by
  have hinsert : (ids ++ [id]).toFinset = insert id ids.toFinset := by
    ext
    simp
  rw [← List.card_toFinset, ← List.card_toFinset, hinsert]
  by_cases h : id ∈ ids
  · rw [Finset.insert_eq_of_mem (List.mem_toFinset.2 h), if_pos h, Nat.add_zero]
  · rw [Finset.card_insert_of_notMem (by simpa using h), if_neg h]

/-- There are as many notes as annotations of containers that are not the first of theirs. -/
theorem AllAccounted.length_notes (h : AllAccounted xs d []) :
    (xs.flatMap notes).length +
        ((xs.map annotation).filterMap Annotation.containerId?).dedup.length =
      ((xs.map annotation).filterMap Annotation.containerId?).length := by
  induction xs using List.reverseRecOn with
  | nil => rfl
  | append_singleton xs x ih =>
    obtain ⟨hxs, hx⟩ := h.of_snoc
    have ih := ih hxs
    rw [List.flatMap_append, List.flatMap_singleton, List.length_append, List.map_append,
      List.map_singleton, List.filterMap_append]
    cases hid : x.annotation.containerId? with
    | none =>
      have hquiet : x.notes = [] := hx.quiet.2 fun id h ↦ by cases hid.symm.trans h
      simpa [hid, hquiet] using ih
    | some id =>
      have hone : [x.annotation].filterMap Annotation.containerId? = [id] := by simp [hid]
      have hnotes : x.notes.length + (if id ∈ (xs.map annotation).filterMap
          Annotation.containerId? then 0 else 1) = 1 := by
        split
        · rename_i hseen
          rw [hx.noted id hid hseen]
          rfl
        · rename_i hseen
          rw [hx.quiet.2 fun id' h ↦ Option.some.inj (hid.symm.trans h) ▸ hseen]
          rfl
      rw [hone, length_dedup_snoc, List.length_append, List.length_singleton]
      omega

end Sighting

theorem filter_isRevisit_eq_nil {xs : List Finding} (h : ∀ x ∈ xs, x.issue.isRevisit = false) :
    xs.filter (·.issue.isRevisit) = [] := by
  refine List.filter_eq_nil_iff.2 fun x hx ↦ ?_
  rw [h x hx]
  exact Bool.false_ne_true

namespace Context

variable {c : Context} {visited seen : List ObjectId} {f : Frame}

theorem containerId?_annotation : (c.annotation f).containerId? = (c.target f).containerId? := rfl

theorem mem_visit_visited_iff {id : ObjectId} :
    id ∈ (c.visit visited f).visited ↔
      id ∈ visited ∨ (c.annotation f).containerId? = some id := by
  rw [mem_visit_visited, entered_eq_some_iff, containerId?_annotation, Resolved.containerId?]
  by_cases hk : (c.target f).value.kind.isContainer = true <;> by_cases hv : id ∈ visited <;>
    simp [hk, hv]

theorem revisited_eq_some_iff' {id : ObjectId} :
    c.revisited visited f = some id ↔
      (c.annotation f).containerId? = some id ∧ id ∈ visited := by
  rw [revisited_eq_some_iff, containerId?_annotation, Resolved.containerId?]
  by_cases hk : (c.target f).value.kind.isContainer = true <;> simp [hk]

theorem isRevisit_revisitFinding (id : ObjectId) :
    (revisitFinding f id).issue.isRevisit = true := by
  unfold revisitFinding Frame.finding
  split <;> rfl

theorem filter_isRevisit_visit :
    (c.visit visited f).findings.filter (·.issue.isRevisit) =
      (c.revisited visited f).toList.map (revisitFinding f) := by
  have hreference : (c.referenceFindings f).filter (·.issue.isRevisit) = [] := by
    apply filter_isRevisit_eq_nil
    intro x hx
    obtain ⟨id, hi⟩ := mem_referenceFindings hx
    rw [hi]
    rfl
  have hkind : (kindFindings f (c.target f)).filter (·.issue.isRevisit) = [] := by
    apply filter_isRevisit_eq_nil
    intro x hx
    obtain ⟨kind, types, hi⟩ := mem_kindFindings hx
    rw [hi]
    rfl
  have henter : ∀ a v, (c.enter f a v).1.filter (·.issue.isRevisit) = [] := by
    intro a v
    apply filter_isRevisit_eq_nil
    intro x hx
    rcases mem_enter_findings hx with ⟨_, _, _, hi⟩ | ⟨_, _, hi⟩ | ⟨_, _, hi⟩ <;> (rw [hi]; rfl)
  have hrevisit : ((c.revisited visited f).toList.map (revisitFinding f)).filter
      (·.issue.isRevisit) = (c.revisited visited f).toList.map (revisitFinding f) := by
    refine List.filter_eq_self.2 fun x hx ↦ ?_
    obtain ⟨id, _, rfl⟩ := List.mem_map.1 hx
    exact isRevisit_revisitFinding id
  rw [visit_eq]
  simp only [List.filter_append, hreference, hkind, hrevisit, List.nil_append]
  split
  · rw [henter, List.append_nil]
  · rw [List.filter_nil, List.append_nil]

theorem accounted_visit (hf : f.OnTrail c.document) (hseen : ∀ id, id ∈ visited ↔ id ∈ seen) :
    ∃ x : Sighting, x.annotation = c.annotation f ∧
      x.notes = (c.visit visited f).findings.filter (·.issue.isRevisit) ∧
      x.Accounted c.document seen := by
  obtain ⟨trail, htrail, habove⟩ := hf
  refine ⟨⟨c.annotation f, trail, (c.revisited visited f).toList.map (revisitFinding f)⟩, rfl,
    filter_isRevisit_visit.symm, ?trail, ?quiet, ?noted⟩
  case trail => exact ⟨c.target f, rfl, rfl, htrail⟩
  case quiet =>
    rw [List.map_eq_nil_iff, Option.toList_eq_nil_iff, Option.eq_none_iff_forall_ne_some]
    refine forall_congr' fun id ↦ ?_
    rw [ne_eq, revisited_eq_some_iff', hseen, not_and]
  case noted =>
    intro id hid hs
    have hr : c.revisited visited f = some id := revisited_eq_some_iff'.2 ⟨hid, (hseen id).2 hs⟩
    simp only [hr, Option.toList_some, List.map_cons, List.map_nil, revisitFinding, habove,
      List.contains_iff_mem]
    rfl

/-- What the walk annotates from some point on is accounted for, after what it annotated before. -/
theorem accounted_stops (c : Context) (maxDepth : ℕ) (visited : List ObjectId)
    (stack : List (Place × Frame)) : ∀ seen : List ObjectId, (∀ id, id ∈ visited ↔ id ∈ seen) →
    (∀ x ∈ stack, x.2.OnTrail c.document) → ∃ xs : List Sighting,
      xs.map Sighting.annotation =
        (c.stops maxDepth visited stack).flatMap (c.annotationsAt maxDepth) ∧
      xs.flatMap Sighting.notes =
        ((c.stops maxDepth visited stack).flatMap (c.findingsAt maxDepth)).filter
          (·.issue.isRevisit) ∧
      Sighting.AllAccounted xs c.document seen := by
  fun_induction stops c maxDepth visited stack with
  | case1 visited =>
    intro seen _ _
    refine ⟨[], rfl, rfl, ?_⟩
    intro n x hx
    cases hx
  | case2 visited p f rest hd ih =>
    intro seen hseen hstack
    obtain ⟨xs, hannotations, hnotes, hxs⟩ :=
      ih seen hseen fun x hx ↦ hstack x (List.mem_cons_of_mem _ hx)
    refine ⟨xs, ?_, ?_, hxs⟩
    · rw [List.flatMap_cons, annotationsAt, if_pos hd, hannotations, List.nil_append]
    · rw [List.flatMap_cons, findingsAt, if_pos hd, hnotes, List.filter_append]
      rfl
  | case3 visited p f rest hd v ih =>
    intro seen hseen hstack
    have hf : f.OnTrail c.document := hstack _ List.mem_cons_self
    obtain ⟨x, hannotation, hnote, hx⟩ := accounted_visit hf hseen
    have hseen' : ∀ id, id ∈ v.visited ↔ id ∈ seen ++ x.annotation.containerId?.toList := by
      intro id
      rw [mem_visit_visited_iff, hseen, List.mem_append, Option.mem_toList, hannotation]
    have hstack' : ∀ y ∈ c.locate p f v.children ++ rest, y.2.OnTrail c.document := by
      intro y hy
      rcases List.mem_append.1 hy with hy | hy
      · obtain ⟨i, hi, _⟩ := mem_locate.1 hy
        exact onTrail_of_mem_visit_children hf (List.mem_of_getElem? hi)
      · exact hstack y (List.mem_cons_of_mem _ hy)
    obtain ⟨xs, hannotations, hnotes, hxs⟩ := ih _ hseen' hstack'
    refine ⟨x :: xs, ?_, ?_, .cons hx hxs⟩
    · rw [List.map_cons, List.flatMap_cons, annotationsAt, if_neg hd, hannotation, hannotations]
      rfl
    · rw [List.flatMap_cons, List.flatMap_cons, findingsAt, if_neg hd, hnote, hnotes,
        List.filter_append]

end Context

theorem Report.countP_revisits (r : Report) :
    r.diagnostics.countP (·.code = "cycle") + r.diagnostics.countP (·.code = "shared-object") =
      (r.findings.filter (·.issue.isRevisit)).length := by
  rw [diagnostics, List.countP_map, List.countP_map, ← List.countP_eq_length_filter]
  induction r.findings with
  | nil => rfl
  | cons x xs ih =>
    obtain ⟨path, object, issue⟩ := x
    simp only [List.countP_cons, ← ih, Function.comp_apply, Finding.diagnostic]
    cases issue <;> simp [Issue.code, Issue.isRevisit] <;> omega

end Match

open Match

namespace Schema

/-- The revisit notes of a report are those of its annotations, taken one after the other: none for
the first annotation of an indirect container, and one for each later one, which tells a cycle if
and only if that container is on the trail above. So there is one note for each annotation of an
indirect container, the first ones apart. -/
theorem revisits_accounted (s : Schema) (d : Document) (options : Options) :
    (∃ xs : List Sighting,
      xs.map Sighting.annotation = (s.matchDocument d options).annotations ∧
      xs.flatMap Sighting.notes =
        (s.matchDocument d options).findings.filter (·.issue.isRevisit) ∧
      ∀ (n : ℕ) (x : Sighting), xs[n]? = some x →
        x.Accounted d (((s.matchDocument d options).annotations.take n).filterMap
          Annotation.containerId?)) ∧
    (s.matchDocument d options).diagnostics.countP (·.code = "cycle") +
        (s.matchDocument d options).diagnostics.countP (·.code = "shared-object") +
        ((s.matchDocument d options).annotations.filterMap
          Annotation.containerId?).dedup.length =
      ((s.matchDocument d options).annotations.filterMap Annotation.containerId?).length := by
  have htrailer : ∀ x ∈ [(Place.trailer, rootFrame d (s.matchDocument d options).rootObject)],
      x.2.OnTrail d := by
    intro x hx
    rw [List.mem_singleton.1 hx]
    exact onTrail_rootFrame d _
  obtain ⟨xs, hannotations, hnotes, hxs⟩ :=
    Context.accounted_stops ⟨s, d⟩ options.maxDepth [] _ [] (fun _ ↦ .rfl) htrailer
  have hannotations : xs.map Sighting.annotation = (s.matchDocument d options).annotations := by
    rw [hannotations, matchDocument_eq_stops]
    rfl
  have hroot : (s.rootFindings d options).filter (·.issue.isRevisit) = [] := by
    apply filter_isRevisit_eq_nil
    intro x hx
    obtain ⟨name, hi⟩ := mem_rootFindings hx
    rw [hi]
    rfl
  have hnotes : xs.flatMap Sighting.notes =
      (s.matchDocument d options).findings.filter (·.issue.isRevisit) := by
    rw [hnotes, matchDocument_eq_stops, List.filter_append, hroot]
    rfl
  refine ⟨⟨xs, hannotations, hnotes, ?_⟩, ?_⟩
  · rw [← hannotations]
    exact hxs
  · rw [Report.countP_revisits, ← hnotes, ← hannotations]
    exact hxs.length_notes

end Schema

end PdfSchema
