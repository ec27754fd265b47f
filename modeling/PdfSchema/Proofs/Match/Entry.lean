import PdfSchema.Proofs.Match.Layout
import PdfSchema.Proofs.Match.Parent

namespace PdfSchema

namespace Match

namespace Report

def first? (r : Report) (id : ObjectId) : Option Annotation :=
  r.annotations.find? (·.containerId? = some id)

def Notes (r : Report) (id : ObjectId) : Prop :=
  ∃ x ∈ r.findings, x.issue = .cycle id ∨ x.issue = .sharedObject id

/-- Whether each entry or item of the indirect container that `a` is about is annotated below it. -/
def Opens (r : Report) (d : Document) (a : Annotation) : Prop :=
  ∃ v, a.id.bind d.objects.get? = some v ∧
    ∀ e ∈ v.children, ∃ b ∈ r.annotations, b.path = Context.childPath a.path e.1

/-- Whether an indirect container is entered at one of its annotations. -/
def Enters (r : Report) (d : Document) (id : ObjectId) : Prop :=
  ∃ a ∈ r.annotations, a.id = some id ∧ r.Opens d a

end Report

namespace Context

variable {c : Context} {visited : List ObjectId} {f : Frame}

theorem revisit_mem_visit_findings {x : Finding} {id : ObjectId}
    (hx : x ∈ (c.visit visited f).findings)
    (hi : x.issue = .cycle id ∨ x.issue = .sharedObject id) :
    c.revisited visited f = some id ∧ x = revisitFinding f id := by
  have hrevisit : x.issue.isRevisit = true := by
    rcases hi with hi | hi <;> rw [hi] <;> rfl
  have hmem : x ∈ (c.visit visited f).findings.filter (·.issue.isRevisit) :=
    List.mem_filter.2 ⟨hx, hrevisit⟩
  rw [filter_isRevisit_visit, List.mem_map] at hmem
  obtain ⟨id', hid', rfl⟩ := hmem
  have hsame : id' = id := by
    unfold revisitFinding Frame.finding at hi
    split at hi <;> simpa using hi
  subst hsame
  exact ⟨Option.mem_toList.1 hid', rfl⟩

theorem revisitFinding_mem_visit {id : ObjectId} (h : c.revisited visited f = some id) :
    revisitFinding f id ∈ (c.visit visited f).findings :=
  mem_visit_findings.2 (.inr (.inr (.inl ⟨id, h, rfl⟩)))

theorem issue_revisitFinding (f : Frame) (id : ObjectId) :
    (revisitFinding f id).issue = .cycle id ∨ (revisitFinding f id).issue = .sharedObject id := by
  unfold revisitFinding Frame.finding
  split
  · exact .inl rfl
  · exact .inr rfl

end Context

end Match

open Match

namespace Schema

variable {s : Schema} {d : Document} {options : Options} {t : Stop} {id : ObjectId}

theorem stops_induction {P : Stop → Prop}
    (trailer : ∀ t ∈ s.stops d options, t.place = .trailer →
      t.frame = rootFrame d (s.matchDocument d options).rootObject → P t)
    (child : ∀ u ∈ s.stops d options, P u →
      ∀ t ∈ s.stops d options, Context.Parent ⟨s, d⟩ options.maxDepth u t → P t) :
    ∀ t ∈ s.stops d options, P t := by
  refine Context.stops_induction (fun t ht hmem ↦ ?_) child
  obtain ⟨hplace, hframe⟩ := Prod.mk.inj (List.mem_singleton.1 hmem)
  exact trailer t ht hplace hframe

theorem annotation_mem_of_stop (ht : t ∈ s.stops d options)
    (hd : ¬ options.maxDepth < t.frame.depth) :
    (Context.annotation ⟨s, d⟩ t.frame) ∈ (s.matchDocument d options).annotations := by
  refine mem_annotations_iff.2 ⟨t, ht, ?_⟩
  rw [Context.annotationsAt, if_neg hd]
  exact List.mem_cons_self

theorem exists_stop_of_mem_annotations {a : Annotation}
    (ha : a ∈ (s.matchDocument d options).annotations) : ∃ t ∈ s.stops d options,
      ¬ options.maxDepth < t.frame.depth ∧ Context.annotation ⟨s, d⟩ t.frame = a := by
  obtain ⟨t, ht, hat⟩ := mem_annotations_iff.1 ha
  unfold Context.annotationsAt at hat
  split at hat
  · cases hat
  · rename_i hd
    exact ⟨t, ht, hd, (List.mem_singleton.1 hat).symm⟩

theorem finding_mem_of_stop (ht : t ∈ s.stops d options)
    (hd : ¬ options.maxDepth < t.frame.depth) {x : Finding}
    (hx : x ∈ (Context.visit ⟨s, d⟩ t.visited t.frame).findings) :
    x ∈ (s.matchDocument d options).findings := by
  refine mem_findings_iff.2 (.inr ⟨t, ht, ?_⟩)
  rw [Context.findingsAt, if_neg hd]
  exact hx

theorem depthLimit_mem_of_stop (ht : t ∈ s.stops d options)
    (hd : options.maxDepth < t.frame.depth) :
    t.frame.finding (.depthLimit options.maxDepth) ∈ (s.matchDocument d options).findings := by
  refine mem_findings_iff.2 (.inr ⟨t, ht, ?_⟩)
  rw [Context.findingsAt, if_pos hd]
  exact List.mem_cons_self

theorem not_lt_of_mem_stops
    (h : ∀ x ∈ (s.matchDocument d options).diagnostics, x.code ≠ "depth-limit")
    (ht : t ∈ s.stops d options) : ¬ options.maxDepth < t.frame.depth := by
  intro hd
  exact h _ (List.mem_map_of_mem (depthLimit_mem_of_stop ht hd)) rfl

/-- A revisit note is made at a stop whose container was entered at another one. -/
theorem exists_stops_of_note {x : Finding} (hx : x ∈ (s.matchDocument d options).findings)
    (hi : x.issue = .cycle id ∨ x.issue = .sharedObject id) :
    ∃ t ∈ s.stops d options, x = Context.revisitFinding t.frame id ∧
      ∃ u ∈ s.stops d options, ¬ options.maxDepth < u.frame.depth ∧
        Context.entered ⟨s, d⟩ u.visited u.frame = some id := by
  rcases mem_findings_iff.1 hx with hx | ⟨t, ht, hx⟩
  · obtain ⟨name, hname⟩ := mem_rootFindings hx
    rw [hname] at hi
    rcases hi with hi | hi <;> cases hi
  · unfold Context.findingsAt at hx
    split at hx
    · rw [List.mem_singleton.1 hx] at hi
      rcases hi with hi | hi <;> cases hi
    · obtain ⟨hr, rfl⟩ := Context.revisit_mem_visit_findings hx hi
      refine ⟨t, ht, rfl, ?_⟩
      rcases Context.mem_visited_of_stop ht (Context.revisited_eq_some_iff.1 hr).2.2 with hv | hu
      · cases hv
      · exact hu

theorem first?_of_entered (ht : t ∈ s.stops d options) (hd : ¬ options.maxDepth < t.frame.depth)
    (he : Context.entered ⟨s, d⟩ t.visited t.frame = some id) :
    (s.matchDocument d options).first? id = some (Context.annotation ⟨s, d⟩ t.frame) := by
  rw [Report.first?, matchDocument_eq_stops]
  exact Context.find?_annotations_stops ht hd he

theorem exists_stop_of_mem_ancestors (ht : t ∈ s.stops d options) :
    ∀ a ∈ t.frame.ancestors, ∃ u ∈ s.stops d options, ¬ options.maxDepth < u.frame.depth ∧
      Context.entered ⟨s, d⟩ u.visited u.frame = some a ∧
      (Context.annotation ⟨s, d⟩ u.frame).isSealed = false := by
  refine stops_induction (P := fun t ↦ ∀ a ∈ t.frame.ancestors, ∃ u ∈ s.stops d options,
    ¬ options.maxDepth < u.frame.depth ∧ Context.entered ⟨s, d⟩ u.visited u.frame = some a ∧
      (Context.annotation ⟨s, d⟩ u.frame).isSealed = false) ?trailer ?child t ht
  case trailer =>
    intro t _ _ hframe a ha
    rw [hframe] at ha
    cases ha
  case child =>
    intro u hu ih t _ hp a ha
    obtain ⟨i, hi, _⟩ := Context.mem_locate.1 hp.2
    obtain ⟨_, hs, _, habove, _⟩ := Context.of_mem_visit_children hi
    rw [habove] at ha
    rcases List.mem_append.1 ha with ha | ha
    · exact ih a ha
    · exact ⟨u, hu, hp.1, Option.mem_toList.1 ha, hs⟩

theorem exists_stop_inside (ht : t ∈ s.stops d options) (hd : ¬ options.maxDepth < t.frame.depth)
    (he : Context.enters ⟨s, d⟩ t.visited t.frame = true)
    (hs : (Context.annotation ⟨s, d⟩ t.frame).isSealed = false) {i : ℕ} {e : String × PdfValue}
    (hi : (Context.target ⟨s, d⟩ t.frame).value.children[i]? = some e) :
    ∃ u ∈ s.stops d options,
      u.place = (Context.targetPlace ⟨s, d⟩ t.place t.frame).child i ∧
      (Context.visit ⟨s, d⟩ t.visited t.frame).children[i]? = some u.frame ∧
      u.frame.path = Context.childPath t.frame.path e.1 := by
  obtain ⟨g, hg, rfl⟩ := Context.exists_visit_child he hs hi
  obtain ⟨u, hu, hplace, rfl⟩ := Context.exists_stop_of_mem_locate ht hd
    (Context.mem_locate.2 ⟨i, hg, rfl⟩ : (_, g) ∈ _)
  exact ⟨u, hu, hplace, hg, Context.path_of_mem_visit_children (List.mem_of_getElem? hg)⟩

theorem opens_of_entered
    (h : ∀ x ∈ (s.matchDocument d options).diagnostics, x.code ≠ "depth-limit")
    (ht : t ∈ s.stops d options) (he : Context.entered ⟨s, d⟩ t.visited t.frame = some id)
    (hs : (Context.annotation ⟨s, d⟩ t.frame).isSealed = false) :
    (s.matchDocument d options).Opens d (Context.annotation ⟨s, d⟩ t.frame) := by
  have hid : (Context.target ⟨s, d⟩ t.frame).id = some id := (Context.entered_eq_some_iff.1 he).2.1
  have hann : (Context.annotation ⟨s, d⟩ t.frame).id = some id := hid
  refine ⟨(Context.target ⟨s, d⟩ t.frame).value, ?_, fun e hmem ↦ ?_⟩
  · rw [hann]
    exact Context.get?_target hid
  · obtain ⟨i, hi⟩ := List.getElem?_of_mem hmem
    obtain ⟨u, hu, _, _, hpath⟩ := exists_stop_inside ht (not_lt_of_mem_stops h ht)
      (Context.enters_of_entered he) hs hi
    exact ⟨_, annotation_mem_of_stop hu (not_lt_of_mem_stops h hu), hpath⟩

/-- The walk goes into a container with a revisit note at the first annotation of it, unless that
one is of a type that is taken as a whole. No cycle is noted about a container of such a type. -/
theorem opens_of_noted
    (h : ∀ x ∈ (s.matchDocument d options).diagnostics, x.code ≠ "depth-limit") {x : Finding}
    (hx : x ∈ (s.matchDocument d options).findings)
    (hi : x.issue = .cycle id ∨ x.issue = .sharedObject id) :
    ∃ a ∈ (s.matchDocument d options).annotations,
      (s.matchDocument d options).first? id = some a ∧ a.id = some id ∧
      (a.isSealed = true → x.issue = .sharedObject id) ∧
      (a.isSealed = false → (s.matchDocument d options).Opens d a) := by
  obtain ⟨t, ht, rfl, u, hu, hd, he⟩ := exists_stops_of_note hx hi
  have hfirst := first?_of_entered hu hd he
  refine ⟨_, annotation_mem_of_stop hu hd, hfirst, (Context.entered_eq_some_iff.1 he).2.1,
    fun hs ↦ ?_, opens_of_entered h hu he⟩
  refine hi.resolve_left fun hcycle ↦ ?_
  -- A cycle is noted about a container above, and the walk went into that one.
  have habove : id ∈ t.frame.ancestors := by
    unfold Context.revisitFinding Frame.finding at hcycle
    split at hcycle
    · rename_i ha
      exact List.contains_iff_mem.1 ha
    · cases hcycle
  obtain ⟨w, hw, hwd, hwe, hws⟩ := exists_stop_of_mem_ancestors ht id habove
  have hsame := hfirst.symm.trans (first?_of_entered hw hwd hwe)
  rw [Option.some.inj hsame, hws] at hs
  cases hs

def indexSchema : Schema :=
  KeyedList.empty.put "FileTrailer"
    ((KeyedList.empty.put "Index" { dictionaryRow ["Node"] with types := [.named "name-tree"] }).put
      "Node" (dictionaryRow ["Node"]))

def twofoldDocument (key₁ key₂ : String) : Document where
  trailer := .dictionary [(key₁, .reference ⟨1, 0⟩), (key₂, .reference ⟨1, 0⟩)]
  objects := KeyedList.empty.put ⟨1, 0⟩ (.dictionary [("A", .null)])

/-- The container is entered as a node, and noted when it turns up as an index. -/
theorem twofoldDocument_opened :
    ∃ x ∈ (indexSchema.matchDocument (twofoldDocument "Node" "Index") {}).findings,
      x.issue = .sharedObject ⟨1, 0⟩ ∧
      ∃ a ∈ (indexSchema.matchDocument (twofoldDocument "Node" "Index") {}).annotations,
        a.id = some ⟨1, 0⟩ ∧ a.isSealed = false ∧
        (indexSchema.matchDocument (twofoldDocument "Node" "Index") {}).Opens
          (twofoldDocument "Node" "Index") a := by
  let r := indexSchema.matchDocument (twofoldDocument "Node" "Index") {}
  have hfindings : r.findings = [⟨"trailer/Index", some "FileTrailer", .sharedObject ⟨1, 0⟩⟩] := by
    cbv
  have hfirst : (r.first? ⟨1, 0⟩).map Annotation.isSealed = some false := by cbv
  have hcodes : ∀ x ∈ r.diagnostics, x.code ≠ "depth-limit" := by
    rw [Report.diagnostics, hfindings]
    decide
  have hx : ⟨"trailer/Index", some "FileTrailer", .sharedObject ⟨1, 0⟩⟩ ∈ r.findings := by
    rw [hfindings]
    exact List.mem_cons_self
  obtain ⟨a, ha, hfa, hid, _, hopens⟩ := opens_of_noted hcodes hx (.inr rfl)
  rw [hfa] at hfirst
  have hs : a.isSealed = false := Option.some.inj hfirst
  exact ⟨_, hx, rfl, a, ha, hid, hs, hopens hs⟩

/-- The container is noted as visited before, and not entered again, but it was never entered. -/
theorem twofoldDocument_unentered :
    (∀ x ∈ (indexSchema.matchDocument (twofoldDocument "Index" "Node") {}).diagnostics,
      x.code ≠ "depth-limit") ∧
    (indexSchema.matchDocument (twofoldDocument "Index" "Node") {}).Notes ⟨1, 0⟩ ∧
    ¬ (indexSchema.matchDocument (twofoldDocument "Index" "Node") {}).Enters
      (twofoldDocument "Index" "Node") ⟨1, 0⟩ := by
  let r := indexSchema.matchDocument (twofoldDocument "Index" "Node") {}
  have hfindings : r.findings = [⟨"trailer/Node", some "FileTrailer", .sharedObject ⟨1, 0⟩⟩] := by
    cbv
  have hpaths : r.annotations.map Annotation.path =
      ["trailer", "trailer/Index", "trailer/Node"] := by cbv
  have hmem : ∀ a ∈ r.annotations,
      a.path ∈ ["trailer", "trailer/Index", "trailer/Node"] := by
    intro a ha
    rw [← hpaths]
    exact List.mem_map_of_mem ha
  refine ⟨?_, ?_, ?_⟩
  · change ∀ x ∈ r.diagnostics, _
    rw [Report.diagnostics, hfindings]
    decide
  · refine ⟨⟨"trailer/Node", some "FileTrailer", .sharedObject ⟨1, 0⟩⟩, ?_, .inr rfl⟩
    change _ ∈ r.findings
    rw [hfindings]
    exact List.mem_cons_self
  · rintro ⟨a, ha, hid, v, hv, hopens⟩
    rw [hid] at hv
    obtain rfl : PdfValue.dictionary [("A", .null)] = v := Option.some.inj hv
    obtain ⟨b, hb, hpath⟩ := hopens ("A", .null) List.mem_cons_self
    have hnone : ∀ p ∈ ["trailer", "trailer/Index", "trailer/Node"],
        Context.childPath p "A" ∉ ["trailer", "trailer/Index", "trailer/Node"] := by decide
    exact hnone a.path (hmem a ha) (hpath ▸ hmem b hb)

end Schema

end PdfSchema
