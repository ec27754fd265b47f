import PdfSchema.Proofs.Match.Coverage
import PdfSchema.Proofs.Match.Entry
import PdfSchema.Proofs.Match.Traversal

namespace PdfSchema

namespace Match

def LeadsOn (above path : String) : Prop :=
  path = above ∨ ∃ rest, path = Context.childPath above rest

theorem LeadsOn.child {above path : String} (h : LeadsOn above path) (key : String) :
    LeadsOn above (Context.childPath path key) := by
  rcases h with rfl | ⟨rest, rfl⟩
  · exact .inr ⟨key, rfl⟩
  · refine .inr ⟨Context.childPath rest key, ?_⟩
    simp only [Context.childPath, String.append_assoc]

namespace Report

/-- Whether something is left out of a report at a path or further down. -/
def OmitsBelow (r : Report) (path : String) : Prop :=
  (∃ x ∈ r.findings, x.issue.code = "depth-limit" ∧ LeadsOn path x.path) ∨
    ∃ a ∈ r.annotations, a.isSealed = true ∧ LeadsOn path a.path

/-- Whether a container is not entered again although something inside of it was left out. -/
def Obscures (r : Report) (id : ObjectId) : Prop :=
  r.Notes id ∧ ∃ a, r.first? id = some a ∧ r.OmitsBelow a.path

/-- Whether a path is in the part of a report where the first annotation of a container with a
revisit note is. -/
def Revisits (r : Report) (path : String) : Prop :=
  ∃ id a, r.Notes id ∧ r.first? id = some a ∧ LeadsOn a.path path

end Report

namespace Context

variable {c : Context} {visited visited' : List ObjectId} {f g g' : Frame}

theorem childFrames_below (f : Frame) (above above' above'' : List ObjectId) (name : Option String)
    (object : Option SchemaObject) (v : PdfValue) :
    childFrames (f.below above) name object above' v =
      (childFrames f name object above'' v).map (·.below above') := by
  simp only [childFrames, List.map_map]
  rfl

theorem eq_below_of_visit_children {above : List ObjectId} {i : ℕ}
    (h : (c.visit visited f).children[i]? = some g)
    (h' : (c.visit visited' (f.below above)).children[i]? = some g') :
    g' = g.below g'.ancestors := by
  obtain ⟨he, hs, _⟩ := of_mem_visit_children h
  obtain ⟨he', hs', _, habove, _⟩ := of_mem_visit_children h'
  rw [visit_children he hs] at h
  rw [visit_children he' hs', childFrames_below _ _ _ (f.ancestors ++ (c.entered visited f).toList),
    List.getElem?_map] at h'
  obtain ⟨g₁, hg₁, rfl⟩ := Option.map_eq_some_iff.1 h'
  obtain rfl : g = g₁ := Option.some.inj (h.symm.trans hg₁)
  rfl

end Context

end Match

open Match

namespace Schema

variable {s : Schema} {d : Document} {options : Options} {t : Stop}

theorem of_revisits (hr : ∀ id, ¬ (s.matchDocument d options).Obscures id)
    (ht : t ∈ s.stops d options) (h : (s.matchDocument d options).Revisits t.frame.path) :
    ¬ options.maxDepth < t.frame.depth ∧ (Context.annotation ⟨s, d⟩ t.frame).isSealed = false := by
  obtain ⟨id, a, hnotes, hfirst, hpath⟩ := h
  have hd : ¬ options.maxDepth < t.frame.depth := by
    intro hd
    exact hr id ⟨hnotes, a, hfirst, .inl ⟨_, depthLimit_mem_of_stop ht hd, rfl, hpath⟩⟩
  refine ⟨hd, ?_⟩
  rw [Bool.eq_false_iff]
  intro hs
  exact hr id ⟨hnotes, a, hfirst, .inr ⟨_, annotation_mem_of_stop ht hd, hs, hpath⟩⟩

/-- Whether a walk stops at the value of a frame: with the same frame but for the containers above,
or inside a container that it comes to again. -/
def Reaches (s : Schema) (d : Document) (options : Options) (p : Place) (f : Frame) : Prop :=
  ∃ t ∈ s.stops d options, t.place = p ∧
    (t.frame = f.below t.frame.ancestors ∨ (s.matchDocument d options).Revisits t.frame.path)

theorem node_eq_of_place_eq {f : Frame} {p : Place} (hf : f.StandsAt d p)
    (ht : t ∈ s.stops d options) (hp : t.place = p) : t.frame.node = f.node := by
  have hat := (standsAt_of_mem_stops ht).1
  rw [Frame.StandsAt, hp] at hat
  exact (Prod.mk.inj (Option.some.inj (hat.symm.trans hf))).2

variable {p : Place} {f g : Frame} {visited : List ObjectId} {i : ℕ}

/-- A walk that reaches a container reaches all that is inside of it, even if it is the second time
that it comes to the container. -/
theorem Reaches.child (hr : ∀ id, ¬ (s.matchDocument d options).Obscures id)
    (hf : f.StandsAt d p) (hd : ¬ options.maxDepth < f.depth) (h : s.Reaches d options p f)
    (hg : (Context.visit ⟨s, d⟩ visited f).children[i]? = some g) :
    s.Reaches d options ((Context.targetPlace ⟨s, d⟩ p f).child i) g := by
  obtain ⟨t, ht, rfl, hsame⟩ := h
  obtain ⟨he, hs, hi, _⟩ := Context.of_mem_visit_children hg
  have htarget : Context.target ⟨s, d⟩ t.frame = Context.target ⟨s, d⟩ f := by
    simp only [Context.target, node_eq_of_place_eq hf ht rfl]
  have hplace : Context.targetPlace ⟨s, d⟩ t.place t.frame =
      Context.targetPlace ⟨s, d⟩ t.place f := by
    simp only [Context.targetPlace, htarget]
  have hopen : ¬ options.maxDepth < t.frame.depth ∧
      (Context.annotation ⟨s, d⟩ t.frame).isSealed = false := by
    rcases hsame with hsame | hrevisits
    · rw [hsame]
      exact ⟨hd, hs⟩
    · exact of_revisits hr ht hrevisits
  rw [← htarget] at hi
  cases he' : Context.enters ⟨s, d⟩ t.visited t.frame with
  | true =>
    obtain ⟨u, hu, hup, huf, hpath⟩ := exists_stop_inside ht hopen.1 he' hopen.2 hi
    refine ⟨u, hu, hplace ▸ hup, ?_⟩
    rcases hsame with hsame | ⟨id, a, hnotes, hfirst, hon⟩
    · rw [hsame] at huf
      exact .inl (Context.eq_below_of_visit_children hg huf)
    · exact .inr ⟨id, a, hnotes, hfirst, hpath ▸ hon.child g.key⟩
  | false =>
    -- The container was entered at another stop, and has a revisit note at this one.
    have hk : (Context.target ⟨s, d⟩ t.frame).value.kind.isContainer = true := by
      rw [htarget]
      exact (Context.enters_iff.1 he).1
    obtain ⟨id, hid, hv⟩ := Context.exists_visited_of_not_enters hk he'
    rcases Context.mem_visited_of_stop ht hv with hv | ⟨u, hu, hud, hue⟩
    · cases hv
    have hrevisited : Context.revisited ⟨s, d⟩ t.visited t.frame = some id :=
      Context.revisited_eq_some_iff.2 ⟨hk, hid, ‹_›⟩
    have hnotes : (s.matchDocument d options).Notes id :=
      ⟨_, finding_mem_of_stop ht hopen.1 (Context.revisitFinding_mem_visit hrevisited),
        Context.issue_revisitFinding _ _⟩
    have hfirst := first?_of_entered hu hud hue
    have huid : (Context.target ⟨s, d⟩ u.frame).id = some id :=
      (Context.entered_eq_some_iff.1 hue).2.1
    have hvalue : (Context.target ⟨s, d⟩ u.frame).value = (Context.target ⟨s, d⟩ t.frame).value :=
      Option.some.inj ((Context.get?_target huid).symm.trans (Context.get?_target hid))
    have hus := (of_revisits hr hu ⟨id, _, hnotes, hfirst, .inl rfl⟩).2
    rw [← hvalue] at hi
    obtain ⟨w, hw, hwp, _, hpath⟩ :=
      exists_stop_inside hu hud (Context.enters_of_entered hue) hus hi
    refine ⟨w, hw, ?_, .inr ⟨id, _, hnotes, hfirst, .inr ⟨g.key, hpath⟩⟩⟩
    rw [hwp, ← hplace, Context.targetPlace_of_id_eq_some huid,
      Context.targetPlace_of_id_eq_some hid]

theorem reaches_of_mem_stops {root : Option String} {n n' : ℕ} (hn : n ≤ n')
    (hr : ∀ id, ¬ (s.matchDocument d ⟨root, n'⟩).Obscures id) (ht : t ∈ s.stops d ⟨root, n⟩)
    (hd : ¬ n < t.frame.depth) : s.Reaches d ⟨root, n'⟩ t.place t.frame := by
  have key : t.frame.StandsAt d t.place ∧
      (¬ n < t.frame.depth → s.Reaches d ⟨root, n'⟩ t.place t.frame) := by
    refine Context.stops_forall (P := fun p f ↦ f.StandsAt d p ∧
      (¬ n < f.depth → s.Reaches d ⟨root, n'⟩ p f)) ?step ?root t ht
    case step =>
      rintro visited p f ⟨hf, hreach⟩ x hx
      obtain ⟨i, hi, hp⟩ := Context.mem_locate.1 hx
      refine ⟨(Context.standsAt_of_mem_locate hf hx).1, fun hdx ↦ ?_⟩
      have hdepth : x.2.depth = f.depth + 1 := (Context.of_mem_visit_children hi).2.2.2.2
      rw [hp]
      exact (hreach (by omega)).child hr hf (by change ¬ n' < f.depth; omega) hi
    case root =>
      intro x hx
      rw [List.mem_singleton.1 hx]
      refine ⟨rfl, fun _ ↦ ?_⟩
      obtain ⟨t, ht, hp, hf⟩ := Context.exists_stop_of_mem_stack (c := ⟨s, d⟩)
        (List.mem_singleton_self
          (Place.trailer, rootFrame d (s.matchDocument d ⟨root, n'⟩).rootObject))
      exact ⟨t, ht, hp, .inl (by rw [hf]; rfl)⟩
  exact key.2 hd

/-- An object that a walk annotates is annotated by each deeper walk as well, unless the deeper walk
has left something out inside a container that it does not enter again. -/
theorem ids_subset_of_le {root : Option String} {n n' : ℕ} (hn : n ≤ n')
    (hr : ∀ id, ¬ (s.matchDocument d ⟨root, n'⟩).Obscures id) {a : Annotation}
    (ha : a ∈ (s.matchDocument d ⟨root, n⟩).annotations) {id : ObjectId} (hid : a.id = some id) :
    ∃ b ∈ (s.matchDocument d ⟨root, n'⟩).annotations, b.id = some id := by
  obtain ⟨t, ht, hd, rfl⟩ := exists_stop_of_mem_annotations ha
  obtain ⟨u, hu, hp, hsame⟩ := reaches_of_mem_stops hn hr ht hd
  have hud : ¬ n' < u.frame.depth := by
    rcases hsame with hsame | hrevisits
    · rw [hsame]
      change ¬ n' < t.frame.depth
      exact fun h ↦ hd (by change n < t.frame.depth; omega)
    · exact (of_revisits hr hu hrevisits).1
  refine ⟨_, annotation_mem_of_stop hu hud, ?_⟩
  have hnode := node_eq_of_place_eq (standsAt_of_mem_stops ht).1 hu hp
  rw [← hid]
  simp only [Context.annotation, Context.annotate, Context.target, hnode]

def detourDocument : Document where
  trailer := .dictionary [("Long", .reference ⟨1, 0⟩), ("Short", .reference ⟨3, 0⟩)]
  objects :=
    (((KeyedList.empty.put ⟨1, 0⟩ (.dictionary [("Next", .reference ⟨2, 0⟩)])).put
      ⟨2, 0⟩ (.dictionary [("Next", .reference ⟨3, 0⟩)])).put
      ⟨3, 0⟩ (.dictionary [("Last", .reference ⟨4, 0⟩)])).put ⟨4, 0⟩ (.dictionary [])

theorem detourDocument_shown :
    ∃ a ∈ (matchDocument .empty detourDocument ⟨none, 1⟩).annotations, a.id = some ⟨3, 0⟩ ∧
    (∀ id, ¬ (matchDocument .empty detourDocument ⟨none, 2⟩).Obscures id) ∧
    ∃ b ∈ (matchDocument .empty detourDocument ⟨none, 2⟩).annotations, b.id = some ⟨3, 0⟩ := by
  have hids : (matchDocument .empty detourDocument ⟨none, 1⟩).annotations.map Annotation.id =
      [none, some ⟨1, 0⟩, some ⟨3, 0⟩] := by cbv
  have hissues : (matchDocument .empty detourDocument ⟨none, 2⟩).findings.map Finding.issue =
      [.missingRoot "FileTrailer", .depthLimit 2] := by cbv
  have hr : ∀ id, ¬ (matchDocument .empty detourDocument ⟨none, 2⟩).Obscures id := by
    rintro id ⟨⟨x, hx, hi⟩, _⟩
    have hm := List.mem_map_of_mem (f := Finding.issue) hx
    rw [hissues] at hm
    rcases hi with hi | hi <;> simp [hi] at hm
  have hm : some ⟨3, 0⟩ ∈
      (matchDocument .empty detourDocument ⟨none, 1⟩).annotations.map Annotation.id := by
    rw [hids]
    decide
  obtain ⟨a, ha, hid⟩ := List.mem_map.1 hm
  exact ⟨a, ha, hid, hr, ids_subset_of_le (by decide) hr ha hid⟩

/-- The deeper walk first comes to the container by the long way, at the end of its depth, and then
does not enter it by the short one. -/
theorem detourDocument_hidden : 2 ≤ 3 ∧
    (∃ a ∈ (matchDocument .empty detourDocument ⟨none, 2⟩).annotations, a.id = some ⟨4, 0⟩) ∧
    ¬ ∃ b ∈ (matchDocument .empty detourDocument ⟨none, 3⟩).annotations, b.id = some ⟨4, 0⟩ := by
  have hshallow : (matchDocument .empty detourDocument ⟨none, 2⟩).annotations.map Annotation.id =
      [none, some ⟨1, 0⟩, some ⟨2, 0⟩, some ⟨3, 0⟩, some ⟨4, 0⟩] := by cbv
  have hdeep : (matchDocument .empty detourDocument ⟨none, 3⟩).annotations.map Annotation.id =
      [none, some ⟨1, 0⟩, some ⟨2, 0⟩, some ⟨3, 0⟩, some ⟨3, 0⟩] := by cbv
  refine ⟨by decide, List.mem_map.1 ?_, fun h ↦ ?_⟩
  · rw [hshallow]
    decide
  · have hm := List.mem_map.2 h
    rw [hdeep] at hm
    exact absurd hm (by decide)

def indexedDocument : Document where
  trailer := .dictionary
    [("Node", .dictionary [("Node", .dictionary [("Index", .reference ⟨1, 0⟩)])]),
      ("Short", .reference ⟨1, 0⟩)]
  objects := (KeyedList.empty.put ⟨1, 0⟩ (.dictionary [("Last", .reference ⟨2, 0⟩)])).put
    ⟨2, 0⟩ (.dictionary [])

def nodeSchema : Schema :=
  KeyedList.empty.put "FileTrailer"
    ((KeyedList.empty.put "Index"
      { dictionaryRow ["FileTrailer"] with types := [.named "name-tree"] }).put
      "Node" (dictionaryRow ["FileTrailer"]))

-- Nor does a deeper walk enter a container that it first takes for an index, even if its depth cuts
-- nothing off.
example : (nodeSchema.matchDocument indexedDocument ⟨none, 2⟩).annotations.map Annotation.id =
    [none, none, none, some ⟨1, 0⟩, some ⟨2, 0⟩] := by cbv

example : (nodeSchema.matchDocument indexedDocument ⟨none, 3⟩).annotations.map Annotation.id =
    [none, none, none, some ⟨1, 0⟩, some ⟨1, 0⟩] := by cbv

example : (nodeSchema.matchDocument indexedDocument ⟨none, 3⟩).findings.map (fun x ↦ x.issue.code) =
    ["unmatched-key", "shared-object"] := by cbv

end Schema

end PdfSchema
