import PdfSchema.Proofs.Match.Defects

namespace PdfSchema

namespace Match

/-- An annotation with the place of its value, and how many keys lead there from the trailer. -/
structure Sounding where
  place : Place
  annotation : Annotation
  depth : ℕ

namespace Sounding

def targetPlace (x : Sounding) : Place :=
  match x.annotation.id with
  | some id => ⟨some id, []⟩
  | none => x.place

def contents (x : Sounding) (d : Document) : List (String × PdfValue) :=
  ((d.entryAt? x.place).map fun e ↦ (d.resolved e.2).value.children).getD []

def contentPaths (x : Sounding) (d : Document) : List String :=
  (x.contents d).map fun e ↦ Context.childPath x.annotation.path e.1

structure Holds (x y : Sounding) (d : Document) : Prop where
  path : y.annotation.path = Context.childPath x.annotation.path y.annotation.key
  place : ∃ i node, (x.contents d)[i]? = some (y.annotation.key, node) ∧
    y.place = x.targetPlace.child i

/-- Whether the contents of the value at a sounding come next, where `seen` are the indirect
containers that were annotated before: it is a container, which is not taken as a whole and does not
come again. -/
def isExpanded (x : Sounding) (seen : List ObjectId) : Bool :=
  x.annotation.kind.isContainer && !x.annotation.isSealed &&
    x.annotation.containerId?.all fun id ↦ !seen.contains id

def expanded (seen : List ObjectId) : List Sounding → List Sounding
  | [] => []
  | x :: xs =>
    let rest := expanded (x.annotation.containerId?.toList ++ seen) xs
    if x.isExpanded seen then x :: rest else rest

/-- Whether soundings tell all about the depths of a report: each is one key deeper than that of the
container which holds it, none is too deep, and the report is cut off at the contents of the
deepest. -/
structure Tell (xs : List Sounding) (d : Document) (maxDepth : ℕ) (r : Report) : Prop where
  annotations : xs.map annotation = r.annotations
  describes : ∀ x ∈ xs, ∃ node, x.annotation.Describes d x.place node
  descends : ∀ x ∈ xs, x.place = .trailer ∧ x.depth = 0 ∨
    ∃ y ∈ expanded [] xs, y.Holds x d ∧ x.depth = y.depth + 1
  depth_le : ∀ x ∈ xs, x.depth ≤ maxDepth
  limits : r.pathsWith ["depth-limit"] =
    (((expanded [] xs).filter fun x ↦ x.depth = maxDepth).flatMap (contentPaths · d)).map some
  count : r.diagnostics.countP (·.code = "depth-limit") =
    (((expanded [] xs).filter fun x ↦ x.depth = maxDepth).map fun x ↦ (x.contents d).length).sum

end Sounding

namespace Context

variable {c : Context} {maxDepth : ℕ} {visited seen : List ObjectId} {f : Frame}

def sounding (c : Context) (t : Stop) : Sounding :=
  ⟨t.place, c.annotation t.frame, t.frame.depth⟩

def expands (c : Context) (t : Stop) : Bool :=
  c.enters t.visited t.frame && !(c.annotation t.frame).isSealed

theorem isExpanded_sounding {t : Stop} (hseen : ∀ id, id ∈ t.visited ↔ id ∈ seen) :
    (c.sounding t).isExpanded seen = c.expands t := by
  have henters : c.enters t.visited t.frame = true ↔
      (c.target t.frame).value.kind.isContainer = true ∧
        ∀ id, (c.annotation t.frame).containerId? = some id → id ∉ seen := by
    rw [enters_iff, containerId?_annotation, Resolved.containerId?]
    refine and_congr_right fun hk ↦ forall_congr' fun id ↦ ?_
    rw [if_pos hk, hseen]
  have hexpanded : (c.sounding t).isExpanded seen =
      ((c.target t.frame).value.kind.isContainer && !(c.annotation t.frame).isSealed &&
        (c.annotation t.frame).containerId?.all fun id ↦ !seen.contains id) := rfl
  rw [Bool.eq_iff_iff, hexpanded, expands, Bool.and_eq_true, Bool.and_eq_true, Bool.and_eq_true,
    henters, and_right_comm]
  refine and_congr_left fun _ ↦ and_congr_right fun _ ↦ ?_
  cases (c.annotation t.frame).containerId? <;> simp

/-- The soundings that are expanded are those of the stops that leave their contents behind. -/
theorem expanded_stops (c : Context) (maxDepth : ℕ) (visited : List ObjectId)
    (stack : List (Place × Frame)) : ∀ seen : List ObjectId, (∀ id, id ∈ visited ↔ id ∈ seen) →
    Sounding.expanded seen (((c.stops maxDepth visited stack).filter fun t ↦
        !decide (maxDepth < t.frame.depth)).map c.sounding) =
      (((c.stops maxDepth visited stack).filter fun t ↦
        !decide (maxDepth < t.frame.depth)).filter c.expands).map c.sounding := by
  fun_induction stops c maxDepth visited stack with
  | case1 visited => exact fun _ _ ↦ rfl
  | case2 visited p f rest hd ih =>
    intro seen hseen
    rw [List.filter_cons_of_neg (by simpa using hd)]
    exact ih seen hseen
  | case3 visited p f rest hd v ih =>
    intro seen hseen
    have hseen' : ∀ id, id ∈ v.visited ↔ id ∈ (c.annotation f).containerId?.toList ++ seen := by
      intro id
      rw [mem_visit_visited_iff, hseen, List.mem_append, Option.mem_toList, or_comm]
    have ih := ih _ hseen'
    rw [List.filter_cons_of_pos (by simpa using hd), List.map_cons, Sounding.expanded,
      isExpanded_sounding hseen, List.filter_cons]
    split
    · rw [List.map_cons]
      exact congrArg _ ih
    · exact ih

theorem pathsWith_visit_depthLimit (c : Context) (visited : List ObjectId) (f : Frame) :
    pathsWith ["depth-limit"] (c.visit visited f).findings = [] := by
  apply pathsWith_eq_nil
  intro x hx
  rcases mem_visit_findings.1 hx with hx | hx | ⟨id, _, rfl⟩ | ⟨_, hx⟩
  · obtain ⟨_, hissue⟩ := mem_referenceFindings hx
    simp [hissue, Issue.code]
  · obtain ⟨_, _, hissue⟩ := mem_kindFindings hx
    simp [hissue, Issue.code]
  · rcases issue_revisitFinding f id with hissue | hissue <;> simp [hissue, Issue.code]
  · rcases mem_enter_findings hx with ⟨_, _, _, hissue⟩ | ⟨_, _, hissue⟩ | ⟨_, _, hissue⟩ <;>
      simp [hissue, Issue.code]

def cutOff (c : Context) (maxDepth : ℕ) (t : Stop) : List String :=
  if t.frame.depth = maxDepth then (c.visit t.visited t.frame).children.map Frame.path else []

/-- A walk is cut off at the frames that are too deep, which are on top of its stack, and later at
those that visits at the greatest depth leave behind. -/
theorem limits_stops (c : Context) (maxDepth : ℕ) (visited : List ObjectId)
    (stack : List (Place × Frame)) : ∀ deep rest, stack = deep ++ rest →
    (∀ x ∈ deep, maxDepth < x.2.depth) → (∀ x ∈ rest, ¬ maxDepth < x.2.depth) →
    pathsWith ["depth-limit"] ((c.stops maxDepth visited stack).flatMap (c.findingsAt maxDepth)) =
      deep.map (fun x ↦ x.2.path) ++
        ((c.stops maxDepth visited stack).filter fun t ↦
          !decide (maxDepth < t.frame.depth)).flatMap (c.cutOff maxDepth) := by
  fun_induction stops c maxDepth visited stack with
  | case1 visited =>
    intro deep rest h _ _
    obtain ⟨rfl, rfl⟩ := List.append_eq_nil_iff.1 h.symm
    rfl
  | case2 visited p f stack hd ih =>
    intro deep rest h hdeep hrest
    cases deep with
    | nil =>
      obtain rfl : (p, f) :: stack = rest := h
      exact absurd hd (hrest _ List.mem_cons_self)
    | cons x deep =>
      obtain ⟨rfl, htail⟩ := List.cons.inj h
      have ih := ih deep rest htail (List.forall_mem_cons.1 hdeep).2 hrest
      rw [List.flatMap_cons, pathsWith_append, ih, findingsAt, if_pos hd,
        List.filter_cons_of_neg (by simpa using hd)]
      rfl
  | case3 visited p f stack hd v ih =>
    intro deep rest h hdeep hrest
    cases deep with
    | cons x deep =>
      obtain ⟨rfl, _⟩ := List.cons.inj h
      exact absurd (hdeep _ List.mem_cons_self) hd
    | nil =>
      -- What the visit leaves behind goes on top, and it is too deep as a whole or not at all.
      obtain rfl : (p, f) :: stack = rest := h
      have hstack := (List.forall_mem_cons.1 hrest).2
      have hchild : ∀ x ∈ c.locate p f v.children, x.2.depth = f.depth + 1 := by
        intro x hx
        obtain ⟨i, hi, _⟩ := mem_locate.1 hx
        exact (of_mem_visit_children hi).2.2.2.2
      rw [List.flatMap_cons, pathsWith_append, findingsAt, if_neg hd, pathsWith_visit_depthLimit,
        List.filter_cons_of_pos (by simpa using hd), List.flatMap_cons, cutOff]
      by_cases hdepth : f.depth = maxDepth
      · rw [ih _ stack rfl (fun x hx ↦ by have := hchild x hx; omega) hstack, if_pos hdepth]
        have hpaths := congrArg (List.map Frame.path) (c.map_snd_locate p f v.children)
        rw [List.map_map] at hpaths
        rw [← hpaths]
        rfl
      · rw [ih [] _ rfl (fun x hx ↦ absurd hx List.not_mem_nil) ?_, if_neg hdepth]
        · rfl
        · intro x hx
          rcases List.mem_append.1 hx with hx | hx
          · have := hchild x hx
            omega
          · exact hstack x hx

theorem visit_children_of_not_expands {t : Stop} (h : c.expands t = false) :
    (c.visit t.visited t.frame).children = [] := by
  rcases Bool.and_eq_false_iff.1 h with he | hs
  · exact visit_children_of_not_enters he
  · exact visit_children_of_isSealed (by simpa using hs)

theorem map_path_visit_children (he : c.enters visited f = true)
    (hs : (c.annotation f).isSealed = false) :
    (c.visit visited f).children.map Frame.path =
      (c.target f).value.children.map fun e ↦ childPath f.path e.1 := by
  rw [visit_children he hs, ← lookups_fst ((c.layout (c.annotation f).link).map Prod.snd),
    childFrames, List.map_map, List.map_map]
  rfl

end Context

theorem Report.countP_code (r : Report) (code : String) :
    r.diagnostics.countP (·.code = code) = (r.pathsWith [code]).length := by
  rw [pathsWith, List.length_map, List.countP_eq_length_filter]
  simp

end Match

open Match

namespace Schema

variable {s : Schema} {d : Document} {options : Options} {t : Stop}

def soundings (s : Schema) (d : Document) (options : Options) : List Sounding :=
  (s.annotatedStops d options).map (Context.sounding ⟨s, d⟩)

theorem map_annotation_soundings (s : Schema) (d : Document) (options : Options) :
    (s.soundings d options).map Sounding.annotation = (s.matchDocument d options).annotations := by
  rw [soundings, List.map_map]
  exact s.map_annotation_annotatedStops d options

theorem expanded_soundings (s : Schema) (d : Document) (options : Options) :
    Sounding.expanded [] (s.soundings d options) =
      ((s.annotatedStops d options).filter (Context.expands ⟨s, d⟩)).map
        (Context.sounding ⟨s, d⟩) :=
  Context.expanded_stops ⟨s, d⟩ options.maxDepth [] _ [] fun _ ↦ .rfl

theorem contents_sounding (ht : t ∈ s.stops d options) :
    (Context.sounding ⟨s, d⟩ t).contents d =
      (Context.target ⟨s, d⟩ t.frame).value.children := by
  have hentry : d.entryAt? t.place = some (t.frame.key, t.frame.node) :=
    (standsAt_of_mem_stops ht).1
  change ((d.entryAt? t.place).map _).getD [] = _
  rw [hentry]
  rfl

theorem flatMap_cutOff (stops : List Stop) (h : ∀ t ∈ stops, t ∈ s.stops d options) :
    stops.flatMap (Context.cutOff ⟨s, d⟩ options.maxDepth) =
      (((stops.filter (Context.expands ⟨s, d⟩)).map (Context.sounding ⟨s, d⟩)).filter fun x ↦
        x.depth = options.maxDepth).flatMap (Sounding.contentPaths · d) := by
  induction stops with
  | nil => rfl
  | cons t stops ih =>
    obtain ⟨ht, hstops⟩ := List.forall_mem_cons.1 h
    rw [List.flatMap_cons, ih hstops, Context.cutOff]
    cases hexpands : Context.expands ⟨s, d⟩ t with
    | false =>
      rw [List.filter_cons_of_neg (by simp [hexpands]),
        Context.visit_children_of_not_expands hexpands, List.map_nil, ite_self, List.nil_append]
    | true =>
      obtain ⟨he, hs⟩ := Bool.and_eq_true_iff.1 hexpands
      have hpaths : (Context.visit ⟨s, d⟩ t.visited t.frame).children.map Frame.path =
          (Context.sounding ⟨s, d⟩ t).contentPaths d := by
        rw [Context.map_path_visit_children he (by simpa using hs), Sounding.contentPaths,
          contents_sounding ht]
        rfl
      rw [List.filter_cons_of_pos hexpands, List.map_cons, hpaths]
      have hsame : decide ((Context.sounding ⟨s, d⟩ t).depth = options.maxDepth) =
          decide (t.frame.depth = options.maxDepth) := rfl
      rw [List.filter_cons, hsame]
      by_cases hdepth : t.frame.depth = options.maxDepth
      · rw [if_pos hdepth, if_pos (decide_eq_true hdepth), List.flatMap_cons]
      · rw [if_neg hdepth, if_neg (by simpa using hdepth), List.nil_append]

theorem holds_of_parent {u : Stop} (hu : u ∈ s.stops d options)
    (h : Context.Parent ⟨s, d⟩ options.maxDepth u t) :
    (Context.sounding ⟨s, d⟩ u).Holds (Context.sounding ⟨s, d⟩ t) d := by
  obtain ⟨i, hi, hplace⟩ := Context.mem_locate.1 h.2
  refine ⟨path_of_parent h, i, t.frame.node, ?_, hplace⟩
  rw [contents_sounding hu]
  exact (Context.of_mem_visit_children hi).2.2.1

/-- A walk annotates no value that is too many keys below the trailer, and it is cut off exactly at
the entries and items of the containers at the greatest depth whose contents would come next. -/
theorem soundings_tell (s : Schema) (d : Document) (options : Options) :
    Sounding.Tell (s.soundings d options) d options.maxDepth (s.matchDocument d options) := by
  have hlimits : (s.matchDocument d options).pathsWith ["depth-limit"] =
      (((Sounding.expanded [] (s.soundings d options)).filter fun x ↦
        x.depth = options.maxDepth).flatMap (Sounding.contentPaths · d)).map some := by
    rw [Report.pathsWith_eq, matchDocument_eq_stops, pathsWith_append,
      pathsWith_rootFindings s d options (by decide), List.nil_append, expanded_soundings,
      ← flatMap_cutOff _ fun t ht ↦ (mem_annotatedStops.1 ht).1]
    refine congrArg _ (Context.limits_stops ⟨s, d⟩ options.maxDepth [] _ [] _ rfl ?_ ?_)
    · exact fun x hx ↦ absurd hx List.not_mem_nil
    · intro x hx
      rw [List.mem_singleton.1 hx]
      exact Nat.not_lt_zero _
  constructor
  case annotations => exact s.map_annotation_soundings d options
  case describes =>
    intro x hx
    obtain ⟨t, ht, rfl⟩ := List.mem_map.1 hx
    exact ⟨t.frame.node, describes_of_mem_stops (mem_annotatedStops.1 ht).1⟩
  case descends =>
    intro x hx
    obtain ⟨t, ht, rfl⟩ := List.mem_map.1 hx
    have ht := (mem_annotatedStops.1 ht).1
    rcases trailer_or_parent ht with ⟨hplace, _⟩ | ⟨u, hu, hp⟩
    · obtain ⟨rest, hstops⟩ := s.stops_eq_cons d options
      have hroot := eq_of_place_eq ht (hstops ▸ List.mem_cons_self) hplace
      rw [hroot]
      exact .inl ⟨rfl, rfl⟩
    · obtain ⟨i, hi, _⟩ := Context.mem_locate.1 hp.2
      obtain ⟨he, hs, _, _, hdepth⟩ := Context.of_mem_visit_children hi
      refine .inr ⟨Context.sounding ⟨s, d⟩ u, ?_, holds_of_parent hu hp, hdepth⟩
      rw [expanded_soundings]
      refine List.mem_map_of_mem (List.mem_filter.2 ⟨mem_annotatedStops.2 ⟨hu, hp.1⟩, ?_⟩)
      rw [Context.expands, he, hs]
      rfl
  case depth_le =>
    intro x hx
    obtain ⟨t, ht, rfl⟩ := List.mem_map.1 hx
    exact Nat.le_of_not_lt (mem_annotatedStops.1 ht).2
  case limits => exact hlimits
  case count =>
    rw [Report.countP_code, hlimits, List.length_map, List.length_flatMap]
    simp only [Sounding.contentPaths, List.length_map]

example : pathsWith ["depth-limit"] (catalogSchema.matchDocument catalogDocument ⟨none, 1⟩).findings =
    ["trailer/Root/Pages"] := by cbv

end Schema

end PdfSchema
