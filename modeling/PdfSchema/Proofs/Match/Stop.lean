import PdfSchema.Match.Walk
import PdfSchema.Proofs.Document.Place
import PdfSchema.Proofs.Match.Visit

namespace PdfSchema

namespace Match

/-- Where a walk takes a frame off its stack. -/
structure Stop where
  place : Place
  frame : Frame
  visited : List ObjectId

namespace Context

variable (c : Context) (maxDepth : ℕ)

def annotationsAt (s : Stop) : List Annotation :=
  if maxDepth < s.frame.depth then [] else [c.annotation s.frame]

def findingsAt (s : Stop) : List Finding :=
  if maxDepth < s.frame.depth then [s.frame.finding (.depthLimit maxDepth)]
  else (c.visit s.visited s.frame).findings

def targetPlace (p : Place) (f : Frame) : Place :=
  match (c.target f).id with
  | some id => ⟨some id, []⟩
  | none => p

def locate (p : Place) (f : Frame) (children : List Frame) : List (Place × Frame) :=
  children.zipIdx.map fun (g, i) ↦ ((c.targetPlace p f).child i, g)

variable {c maxDepth}

theorem map_snd_locate (p : Place) (f : Frame) (children : List Frame) :
    (c.locate p f children).map Prod.snd = children := by
  simp [locate, Function.comp_def]

theorem mem_locate {p : Place} {f : Frame} {children : List Frame} {x : Place × Frame} :
    x ∈ c.locate p f children ↔
      ∃ i, children[i]? = some x.2 ∧ x.1 = (c.targetPlace p f).child i := by
  obtain ⟨q, g⟩ := x
  simp only [locate, List.mem_map, Prod.exists, List.mk_mem_zipIdx_iff_getElem?, Prod.mk.injEq]
  constructor
  · rintro ⟨g, i, hi, rfl, rfl⟩
    exact ⟨i, hi, rfl⟩
  · rintro ⟨i, hi, rfl⟩
    exact ⟨g, i, hi, rfl, rfl⟩

variable (c maxDepth)

/-- The stops of a walk over a stack of frames whose values stand at the places beside them. -/
def stops (visited : List ObjectId) (stack : List (Place × Frame)) : List Stop :=
  match stack with
  | [] => []
  | (p, f) :: rest =>
    if maxDepth < f.depth then ⟨p, f, visited⟩ :: stops visited rest
    else
      let v := c.visit visited f
      ⟨p, f, visited⟩ :: stops v.visited (c.locate p f v.children ++ rest)
termination_by ((c.unvisited visited).length, stackSize (stack.map Prod.snd))
decreasing_by
  · refine Prod.Lex.right _ ?_
    have hpos := PdfValue.size_pos f.node
    simp only [stackSize, List.map_cons, PdfValue.sizeItems]
    omega
  · rw [List.map_append, map_snd_locate]
    exact c.visit_decreases visited f _

/-- A walk reports at its stops, one after the other, and nowhere else. -/
theorem walk_eq_stops (visited : List ObjectId) (stack : List (Place × Frame)) :
    c.walk maxDepth visited (stack.map Prod.snd) =
      ((c.stops maxDepth visited stack).flatMap (c.annotationsAt maxDepth),
        (c.stops maxDepth visited stack).flatMap (c.findingsAt maxDepth)) := by
  fun_induction stops c maxDepth visited stack with
  | case1 visited =>
    rw [List.map_nil, walk]
    rfl
  | case2 visited p f rest hd ih =>
    rw [List.map_cons, walk, if_pos hd, ih]
    simp [annotationsAt, findingsAt, hd]
  | case3 visited p f rest hd v ih =>
    rw [List.map_append, map_snd_locate] at ih
    rw [List.map_cons, walk, if_neg hd]
    simp only [v] at ih ⊢
    simp only [ih, visit_annotation, annotationsAt, findingsAt, hd, if_false, List.flatMap_cons,
      List.singleton_append]

variable {c maxDepth} {visited : List ObjectId} {stack : List (Place × Frame)}

theorem stops_forall {P : Place → Frame → Prop}
    (step : ∀ visited p f, P p f → ∀ x ∈ c.locate p f (c.visit visited f).children, P x.1 x.2)
    (h : ∀ x ∈ stack, P x.1 x.2) :
    ∀ s ∈ c.stops maxDepth visited stack, P s.place s.frame := by
  fun_induction stops c maxDepth visited stack with
  | case1 visited => exact fun s hs ↦ nomatch hs
  | case2 visited p f rest hd ih =>
    intro s hs
    rcases List.mem_cons.1 hs with rfl | hs
    · exact h _ List.mem_cons_self
    · exact ih (fun x hx ↦ h x (List.mem_cons_of_mem _ hx)) s hs
  | case3 visited p f rest hd v ih =>
    intro s hs
    rcases List.mem_cons.1 hs with rfl | hs
    · exact h _ List.mem_cons_self
    · refine ih (fun x hx ↦ ?_) s hs
      rcases List.mem_append.1 hx with hx | hx
      · exact step visited p f (h _ List.mem_cons_self) x hx
      · exact h x (List.mem_cons_of_mem _ hx)

theorem exists_stop_of_mem_stack {x : Place × Frame} (h : x ∈ stack) :
    ∃ s ∈ c.stops maxDepth visited stack, s.place = x.1 ∧ s.frame = x.2 := by
  fun_induction stops c maxDepth visited stack with
  | case1 visited => cases h
  | case2 visited p f rest hd ih =>
    rcases List.mem_cons.1 h with rfl | h
    · exact ⟨_, List.mem_cons_self, rfl, rfl⟩
    · obtain ⟨s, hs, he⟩ := ih h
      exact ⟨s, List.mem_cons_of_mem _ hs, he⟩
  | case3 visited p f rest hd v ih =>
    rcases List.mem_cons.1 h with rfl | h
    · exact ⟨_, List.mem_cons_self, rfl, rfl⟩
    · obtain ⟨s, hs, he⟩ := ih (List.mem_append_right _ h)
      exact ⟨s, List.mem_cons_of_mem _ hs, he⟩

theorem exists_stop_of_mem_locate {s : Stop} (hs : s ∈ c.stops maxDepth visited stack)
    (hd : ¬ maxDepth < s.frame.depth) {x : Place × Frame}
    (hx : x ∈ c.locate s.place s.frame (c.visit s.visited s.frame).children) :
    ∃ t ∈ c.stops maxDepth visited stack, t.place = x.1 ∧ t.frame = x.2 := by
  fun_induction stops c maxDepth visited stack with
  | case1 visited => cases hs
  | case2 visited p f rest hd' ih =>
    rcases List.mem_cons.1 hs with rfl | hs
    · exact absurd hd' hd
    · obtain ⟨t, ht, he⟩ := ih hs
      exact ⟨t, List.mem_cons_of_mem _ ht, he⟩
  | case3 visited p f rest hd' v ih =>
    rcases List.mem_cons.1 hs with rfl | hs
    · obtain ⟨t, ht, he⟩ : ∃ t ∈ c.stops maxDepth v.visited (c.locate p f v.children ++ rest),
          t.place = x.1 ∧ t.frame = x.2 := exists_stop_of_mem_stack (List.mem_append_left rest hx)
      exact ⟨t, List.mem_cons_of_mem _ ht, he⟩
    · obtain ⟨t, ht, he⟩ := ih hs
      exact ⟨t, List.mem_cons_of_mem _ ht, he⟩

/-- A container that is visited at a stop was visited from the start, or is entered at a stop. -/
theorem mem_visited_of_stop {s : Stop} (hs : s ∈ c.stops maxDepth visited stack) {id : ObjectId}
    (hid : id ∈ s.visited) :
    id ∈ visited ∨ ∃ t ∈ c.stops maxDepth visited stack, ¬ maxDepth < t.frame.depth ∧
      c.entered t.visited t.frame = some id := by
  fun_induction stops c maxDepth visited stack with
  | case1 visited => cases hs
  | case2 visited p f rest hd ih =>
    rcases List.mem_cons.1 hs with rfl | hs
    · exact .inl hid
    · refine (ih hs).imp_right ?_
      rintro ⟨t, ht, he⟩
      exact ⟨t, List.mem_cons_of_mem _ ht, he⟩
  | case3 visited p f rest hd v ih =>
    rcases List.mem_cons.1 hs with rfl | hs
    · exact .inl hid
    · rcases ih hs with h | ⟨t, ht, he⟩
      · rcases mem_visit_visited.1 h with h | h
        · exact .inr ⟨_, List.mem_cons_self, hd, h⟩
        · exact .inl h
      · exact .inr ⟨t, List.mem_cons_of_mem _ ht, he⟩

end Context

end Match

namespace Match

theorem Issue.code_eq_depthLimit_iff {i : Issue} :
    i.code = "depth-limit" ↔ ∃ n, i = .depthLimit n := by
  cases i <;> simp [code]

theorem Issue.code_eq_cycle_iff {i : Issue} : i.code = "cycle" ↔ ∃ id, i = .cycle id := by
  cases i <;> simp [code]

/-- Whether a report leaves out nothing inside the values that it annotates. -/
structure Report.Unabridged (r : Report) : Prop where
  depthLimit : ∀ x ∈ r.diagnostics, x.code ≠ "depth-limit"
  isSealed : ∀ a ∈ r.annotations, a.isSealed = false

theorem Report.mem_diagnostics_code {r : Report} {code : String} :
    (∃ x ∈ r.diagnostics, x.code = code) ↔ ∃ x ∈ r.findings, x.issue.code = code := by
  simp [diagnostics, Finding.diagnostic]

theorem Report.unabridged_iff {r : Report} :
    r.Unabridged ↔ (∀ x ∈ r.findings, x.issue.code ≠ "depth-limit") ∧
      ∀ a ∈ r.annotations, a.isSealed = false := by
  have h : (∀ x ∈ r.diagnostics, x.code ≠ "depth-limit") ↔
      ∀ x ∈ r.findings, x.issue.code ≠ "depth-limit" := by
    simp [diagnostics, Finding.diagnostic]
  rw [← h]
  exact ⟨fun h ↦ ⟨h.1, h.2⟩, fun h ↦ ⟨h.1, h.2⟩⟩

instance (r : Report) : Decidable r.Unabridged := decidable_of_iff' _ Report.unabridged_iff

end Match

open Match

namespace Schema

variable (s : Schema) (d : Document) (options : Options)

def stops : List Stop :=
  (Context.mk s d).stops options.maxDepth []
    [(.trailer, rootFrame d (s.matchDocument d options).rootObject)]

def rootFindings : List Finding :=
  let root := d.rootObject options.rootObject
  if s.contains root then [] else [⟨"trailer", none, .missingRoot root⟩]

theorem matchDocument_eq_stops :
    s.matchDocument d options =
      ⟨(s.matchDocument d options).rootObject,
        (s.stops d options).flatMap ((Context.mk s d).annotationsAt options.maxDepth),
        s.rootFindings d options ++
          (s.stops d options).flatMap ((Context.mk s d).findingsAt options.maxDepth)⟩ := by
  have h : (Context.mk s d).walk options.maxDepth []
      [rootFrame d (s.matchDocument d options).rootObject] =
        ((s.stops d options).flatMap ((Context.mk s d).annotationsAt options.maxDepth),
          (s.stops d options).flatMap ((Context.mk s d).findingsAt options.maxDepth)) :=
    (Context.mk s d).walk_eq_stops options.maxDepth [] [(.trailer, _)]
  simp only [matchDocument] at h ⊢
  rw [h]
  rfl

variable {s d options}

theorem mem_rootFindings {x : Finding} (h : x ∈ s.rootFindings d options) :
    ∃ name, x.issue = .missingRoot name := by
  simp only [rootFindings] at h
  split at h
  · cases h
  · rw [List.mem_singleton.1 h]
    exact ⟨_, rfl⟩

theorem mem_annotations_iff {a : Annotation} :
    a ∈ (s.matchDocument d options).annotations ↔ ∃ t ∈ s.stops d options,
      a ∈ (Context.mk s d).annotationsAt options.maxDepth t := by
  rw [matchDocument_eq_stops, List.mem_flatMap]

theorem mem_findings_iff {x : Finding} :
    x ∈ (s.matchDocument d options).findings ↔ x ∈ s.rootFindings d options ∨
      ∃ t ∈ s.stops d options, x ∈ (Context.mk s d).findingsAt options.maxDepth t := by
  rw [matchDocument_eq_stops, List.mem_append, List.mem_flatMap]

theorem not_deep_of_diagnostics
    (h : ∀ x ∈ (s.matchDocument d options).diagnostics, x.code ≠ "depth-limit") {t : Stop}
    (ht : t ∈ s.stops d options) : ¬ options.maxDepth < t.frame.depth := by
  intro hd
  have hx : t.frame.finding (.depthLimit options.maxDepth) ∈
      (s.matchDocument d options).findings := by
    refine mem_findings_iff.2 (.inr ⟨t, ht, ?_⟩)
    rw [Context.findingsAt, if_pos hd]
    exact List.mem_cons_self
  exact h _ (List.mem_map_of_mem hx) rfl

theorem of_unabridged (h : (s.matchDocument d options).Unabridged) {t : Stop}
    (ht : t ∈ s.stops d options) :
    ¬ options.maxDepth < t.frame.depth ∧
      (Context.annotation ⟨s, d⟩ t.frame).isSealed = false := by
  have hd := not_deep_of_diagnostics h.depthLimit ht
  refine ⟨hd, h.isSealed _ (mem_annotations_iff.2 ⟨t, ht, ?_⟩)⟩
  rw [Context.annotationsAt, if_neg hd]
  exact List.mem_cons_self

end Schema

end PdfSchema
