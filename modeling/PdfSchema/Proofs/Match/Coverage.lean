import Mathlib
import PdfSchema.Proofs.Match.Loop

namespace PdfSchema

open Relation

namespace Match

def Frame.StandsAt (f : Frame) (d : Document) (p : Place) : Prop :=
  d.entryAt? p = some (f.key, f.node)

/-- What holds of the places of a stack: no one is inside another, and where they are in indirect
objects, those are visited. -/
structure Separate (visited : List ObjectId) (places : List Place) : Prop where
  apart : places.Pairwise Place.Apart
  owned : ∀ p ∈ places, ∀ id, p.owner = some id → id ∈ visited

namespace Context

variable {c : Context} {maxDepth : ℕ} {visited : List ObjectId} {p : Place} {f : Frame}

theorem targetPlace_of_id_eq_some {id : ObjectId} (h : (c.target f).id = some id) :
    c.targetPlace p f = ⟨some id, []⟩ := by rw [targetPlace, h]

theorem targetPlace_of_id_eq_none (h : (c.target f).id = none) : c.targetPlace p f = p := by
  rw [targetPlace, h]

theorem exists_entryAt?_targetPlace (h : f.StandsAt c.document p)
    (hk : (c.target f).value.kind.isContainer = true) :
    ∃ key, c.document.entryAt? (c.targetPlace p f) = some (key, (c.target f).value) := by
  cases hid : (c.target f).id with
  | none =>
    rw [targetPlace_of_id_eq_none hid, target_value_of_id_eq_none hid hk]
    exact ⟨_, h⟩
  | some id =>
    rw [targetPlace_of_id_eq_some hid]
    exact ⟨_, Document.entryAt?_object (get?_target hid)⟩

theorem standsAt_of_mem_locate (h : f.StandsAt c.document p) {x : Place × Frame}
    (hx : x ∈ c.locate p f (c.visit visited f).children) :
    x.2.StandsAt c.document x.1 ∧ x.1.position ≠ [] := by
  obtain ⟨i, hi, he⟩ := mem_locate.1 hx
  obtain ⟨hen, _, hc, _⟩ := of_mem_visit_children hi
  obtain ⟨key, ht⟩ := exists_entryAt?_targetPlace h (enters_iff.1 hen).1
  rw [he]
  refine ⟨?_, List.append_ne_nil_of_right_ne_nil _ (List.cons_ne_nil _ _)⟩
  rw [Frame.StandsAt, Document.entryAt?_child ht, hc]

theorem map_fst_locate (p : Place) (f : Frame) (children : List Frame) :
    (c.locate p f children).map Prod.fst =
      (List.range children.length).map (c.targetPlace p f).child := by
  have h := congrArg (List.map (c.targetPlace p f).child) (List.zipIdx_map_snd 0 children)
  rw [List.map_map] at h
  rw [locate, List.map_map, List.range_eq_range']
  exact h

/-- The place of a container that a visit enters is apart from those on the stack: it is that of an
object not visited before, or that of the frame which was taken off. -/
theorem apart_targetPlace {rest : List Place} (h : Separate visited (p :: rest))
    (he : c.enters visited f = true) :
    (∀ q ∈ rest, (c.targetPlace p f).Apart q) ∧
      ∀ id, (c.targetPlace p f).owner = some id → id ∈ (c.visit visited f).visited := by
  obtain ⟨hk, hnew⟩ := enters_iff.1 he
  cases hid : (c.target f).id with
  | none =>
    rw [targetPlace_of_id_eq_none hid]
    exact ⟨(List.pairwise_cons.1 h.apart).1,
      fun id ho ↦ visited_subset_visit (h.owned p List.mem_cons_self id ho)⟩
  | some id =>
    rw [targetPlace_of_id_eq_some hid]
    refine ⟨fun q hq ↦ .of_owner_ne fun ho ↦ ?_, fun id' ho ↦ ?_⟩
    · exact hnew id hid (h.owned q (List.mem_cons_of_mem _ hq) id ho.symm)
    · cases ho
      exact mem_visit_visited.2 (.inl (entered_eq_some_iff.2 ⟨hk, hid, hnew id hid⟩))

theorem not_child_targetPlace_within {rest : List Place} (h : Separate visited (p :: rest))
    (he : c.enters visited f = true) (i : ℕ) : ¬ ((c.targetPlace p f).child i).Within p := by
  intro hw
  cases hid : (c.target f).id with
  | none =>
    rw [targetPlace_of_id_eq_none hid] at hw
    exact p.not_child_within i hw
  | some id =>
    rw [targetPlace_of_id_eq_some hid] at hw
    exact (enters_iff.1 he).2 id hid (h.owned p List.mem_cons_self id hw.1)

theorem separate_visit {rest : List Place} (h : Separate visited (p :: rest)) :
    Separate (c.visit visited f).visited
      ((c.locate p f (c.visit visited f).children).map Prod.fst ++ rest) := by
  have hrest : Separate (c.visit visited f).visited rest :=
    ⟨(List.pairwise_cons.1 h.apart).2,
      fun q hq id hid ↦ visited_subset_visit (h.owned q (List.mem_cons_of_mem _ hq) id hid)⟩
  cases he : c.enters visited f with
  | false =>
    rw [visit_children_of_not_enters he]
    exact hrest
  | true =>
    obtain ⟨hapart, howned⟩ := apart_targetPlace h he
    rw [map_fst_locate]
    constructor
    · refine List.pairwise_append.2 ⟨List.pairwise_map.2 ?_, hrest.apart, ?_⟩
      · exact List.pairwise_lt_range.imp fun hij ↦ Place.apart_child (Nat.ne_of_lt hij)
      · intro q hq r hr
        obtain ⟨i, _, rfl⟩ := List.mem_map.1 hq
        exact (hapart r hr).child i
    · intro q hq id hid
      rcases List.mem_append.1 hq with hq | hq
      · obtain ⟨i, _, rfl⟩ := List.mem_map.1 hq
        exact howned id hid
      · exact hrest.owned q hq id hid

theorem place_of_mem_stops {stack : List (Place × Frame)} :
    ∀ t ∈ c.stops maxDepth visited stack, (∃ x ∈ stack, x.1.Within t.place) ∨
      ∃ id, t.place.owner = some id ∧ id ∉ visited := by
  fun_induction stops c maxDepth visited stack with
  | case1 visited =>
    intro t ht
    cases ht
  | case2 visited p f rest hd ih =>
    intro t ht
    rcases List.mem_cons.1 ht with rfl | ht
    · exact .inl ⟨_, List.mem_cons_self, .refl _⟩
    · refine (ih t ht).imp_left ?_
      rintro ⟨x, hx, hw⟩
      exact ⟨x, List.mem_cons_of_mem _ hx, hw⟩
  | case3 visited p f rest hd v ih =>
    intro t ht
    rcases List.mem_cons.1 ht with rfl | ht
    · exact .inl ⟨_, List.mem_cons_self, .refl _⟩
    · rcases ih t ht with ⟨x, hx, hw⟩ | ⟨id, ho, hv⟩
      · rcases List.mem_append.1 hx with hx | hx
        · obtain ⟨i, hi, he⟩ := mem_locate.1 hx
          obtain ⟨_, hnew⟩ := enters_iff.1 (of_mem_visit_children hi).1
          rw [he] at hw
          -- An entry of a direct container is inside `p`, any other in an object that is new here.
          cases hid : (c.target f).id with
          | none =>
            rw [targetPlace_of_id_eq_none hid] at hw
            exact .inl ⟨_, List.mem_cons_self, (p.within_child i).trans hw⟩
          | some id =>
            rw [targetPlace_of_id_eq_some hid] at hw
            exact .inr ⟨id, hw.1, hnew id hid⟩
        · exact .inl ⟨x, List.mem_cons_of_mem _ hx, hw⟩
      · exact .inr ⟨id, ho, fun h ↦ hv (visited_subset_visit h)⟩

theorem notMem_place_stops {stack : List (Place × Frame)} (h : ∀ x ∈ stack, ¬ x.1.Within p)
    (hp : ∀ id, p.owner = some id → id ∈ visited) :
    p ∉ (c.stops maxDepth visited stack).map Stop.place := by
  intro hm
  obtain ⟨t, ht, rfl⟩ := List.mem_map.1 hm
  rcases place_of_mem_stops t ht with ⟨x, hx, hw⟩ | ⟨id, ho, hv⟩
  · exact h x hx hw
  · exact hv (hp id ho)

theorem nodup_place_stops {stack : List (Place × Frame)}
    (h : Separate visited (stack.map Prod.fst)) :
    ((c.stops maxDepth visited stack).map Stop.place).Nodup := by
  fun_induction stops c maxDepth visited stack with
  | case1 visited => exact List.nodup_nil
  | case2 visited p f rest hd ih =>
    obtain ⟨hp, hrest⟩ := List.pairwise_cons.1 h.apart
    rw [List.map_cons, List.nodup_cons]
    refine ⟨notMem_place_stops (fun x hx ↦ ?_) (h.owned p List.mem_cons_self), ?_⟩
    · exact (hp _ (List.mem_map_of_mem hx)).2
    · exact ih ⟨hrest, fun q hq ↦ h.owned q (List.mem_cons_of_mem _ hq)⟩
  | case3 visited p f rest hd v ih =>
    have hp := (List.pairwise_cons.1 h.apart).1
    rw [List.map_cons, List.nodup_cons]
    refine ⟨notMem_place_stops (fun x hx ↦ ?_) ?_, ?_⟩
    · rcases List.mem_append.1 hx with hx | hx
      · obtain ⟨i, hi, he⟩ := mem_locate.1 hx
        rw [he]
        exact not_child_targetPlace_within h (of_mem_visit_children hi).1 i
      · exact (hp _ (List.mem_map_of_mem hx)).2
    · exact fun id hid ↦ visited_subset_visit (h.owned p List.mem_cons_self id hid)
    · refine ih ?_
      rw [List.map_append]
      exact separate_visit h

theorem target_eq_of_mem_children {e : String × PdfValue} (h : e ∈ f.node.children) :
    c.target f = ⟨none, f.node⟩ ∧ f.node.kind.isContainer = true := by
  have hk := PdfValue.isContainer_of_mem_children h
  rw [target, Document.resolve_direct _ (PdfValue.isReference_eq_false hk)]
  exact ⟨rfl, hk⟩

end Context

end Match

open Match

namespace Schema

variable {s : Schema} {d : Document} {options : Options}

theorem standsAt_of_mem_stops {t : Stop} (ht : t ∈ s.stops d options) :
    t.frame.StandsAt d t.place ∧ (t.place = .trailer ∨ t.place ∈ d.slots) := by
  have h : t.frame.StandsAt d t.place ∧ (t.place = .trailer ∨ t.place.position ≠ []) := by
    refine Context.stops_forall
      (P := fun p f ↦ f.StandsAt d p ∧ (p = .trailer ∨ p.position ≠ [])) ?_ ?_ t ht
    · intro visited p f hp x hx
      exact (Context.standsAt_of_mem_locate hp.1 hx).imp_right .inr
    · intro x hx
      rw [List.mem_singleton.1 hx]
      exact ⟨rfl, .inl rfl⟩
  refine ⟨h.1, h.2.imp_right fun hp ↦ Document.mem_slots.2 ⟨hp, ?_⟩⟩
  exact Option.isSome_iff_exists.2 ⟨_, h.1⟩

/-- Whether the walk over a document stops at each place right inside the value at `p`. -/
def Opens (s : Schema) (d : Document) (options : Options) (p : Place) : Prop :=
  ∀ i, (d.entryAt? (p.child i)).isSome → ∃ t ∈ s.stops d options, t.place = p.child i

theorem Opens.exists_stop {p : Place} {key : String} {v : PdfValue} {e : String × PdfValue}
    (h : s.Opens d options p) (hp : d.entryAt? p = some (key, v)) (he : e ∈ v.children) :
    ∃ t ∈ s.stops d options, t.frame.node = e.2 := by
  obtain ⟨i, hi⟩ := List.getElem?_of_mem he
  have hchild := Document.entryAt?_child hp i
  obtain ⟨t, ht, htp⟩ := h i (by rw [hchild, hi]; rfl)
  have hat := (standsAt_of_mem_stops ht).1
  rw [Frame.StandsAt, htp, hchild, hi] at hat
  obtain rfl : e = (t.frame.key, t.frame.node) := Option.some.inj hat
  exact ⟨t, ht, rfl⟩

theorem opens_of_enters (h : (s.matchDocument d options).Unabridged) {t : Stop}
    (ht : t ∈ s.stops d options) (he : Context.enters ⟨s, d⟩ t.visited t.frame = true) :
    s.Opens d options (Context.targetPlace ⟨s, d⟩ t.place t.frame) := by
  intro i hi
  obtain ⟨hd, hs⟩ := of_unabridged h ht
  obtain ⟨key, hp⟩ : ∃ key, d.entryAt? (Context.targetPlace ⟨s, d⟩ t.place t.frame) =
      some (key, (Context.target ⟨s, d⟩ t.frame).value) :=
    Context.exists_entryAt?_targetPlace (standsAt_of_mem_stops ht).1 (Context.enters_iff.1 he).1
  rw [Document.entryAt?_child hp] at hi
  obtain ⟨e, hi⟩ := Option.isSome_iff_exists.1 hi
  obtain ⟨g, hg, _⟩ := Context.exists_visit_child he hs hi
  obtain ⟨t', ht', hp', _⟩ := Context.exists_stop_of_mem_locate ht hd
    (Context.mem_locate.2 ⟨i, hg, rfl⟩ : (_, g) ∈ _)
  exact ⟨t', ht', hp'⟩

/-- Whether it is entered at a stop or was visited before, the container that a stop stands for has
a stop at each place right inside of it. -/
theorem opens_targetPlace (h : (s.matchDocument d options).Unabridged) {t : Stop}
    (ht : t ∈ s.stops d options)
    (hk : (Context.target ⟨s, d⟩ t.frame).value.kind.isContainer = true) :
    s.Opens d options (Context.targetPlace ⟨s, d⟩ t.place t.frame) := by
  cases he : Context.enters ⟨s, d⟩ t.visited t.frame with
  | true => exact opens_of_enters h ht he
  | false =>
    -- The container was visited before, and so it was entered at another stop.
    obtain ⟨id, hid, hv⟩ := Context.exists_visited_of_not_enters hk he
    rcases Context.mem_visited_of_stop ht hv with hv | ⟨t', ht', _, hen⟩
    · cases hv
    · have hopens := opens_of_enters h ht' (Context.enters_of_entered hen)
      have hid' := (Context.entered_eq_some_iff.1 hen).2.1
      rw [Context.targetPlace_of_id_eq_some hid'] at hopens
      rwa [Context.targetPlace_of_id_eq_some hid]

theorem opens_of_mem_stops (h : (s.matchDocument d options).Unabridged) {t : Stop}
    (ht : t ∈ s.stops d options) : s.Opens d options t.place := by
  intro i hi
  have hchild := Document.entryAt?_child (standsAt_of_mem_stops ht).1 i
  obtain ⟨e, he⟩ := Option.isSome_iff_exists.1 hi
  obtain ⟨htarget, hk⟩ : Context.target ⟨s, d⟩ t.frame = ⟨none, t.frame.node⟩ ∧ _ :=
    Context.target_eq_of_mem_children (List.mem_of_getElem? (hchild.symm.trans he))
  have hopens := opens_targetPlace h ht (by rw [htarget]; exact hk)
  rw [Context.targetPlace_of_id_eq_none (by rw [htarget])] at hopens
  exact hopens i hi

theorem exists_stop_of_append (h : (s.matchDocument d options).Unabridged) (is : List ℕ) :
    ∀ t ∈ s.stops d options, (d.entryAt? ⟨t.place.owner, t.place.position ++ is⟩).isSome →
      ∃ t' ∈ s.stops d options, t'.place = ⟨t.place.owner, t.place.position ++ is⟩ := by
  induction is with
  | nil =>
    intro t ht _
    rw [List.append_nil]
    exact ⟨t, ht, rfl⟩
  | cons i is ih =>
    intro t ht hi
    rw [List.append_cons] at hi ⊢
    obtain ⟨t', ht', hp⟩ := opens_of_mem_stops h ht i (Document.isSome_entryAt?_of_append hi)
    have ih := ih t' ht'
    rw [hp] at ih
    exact ih hi

theorem opens_of_leads (h : (s.matchDocument d options).Unabridged) {id : ObjectId}
    (v : PdfValue) : ∀ t ∈ s.stops d options, t.frame.node = v → d.Leads v id →
      s.Opens d options ⟨some id, []⟩ := by
  induction v using PdfValue.children_induction with
  | step v ih =>
    rintro t ht rfl hl
    obtain ⟨hk, hl⟩ := Context.leads_node_iff (c := ⟨s, d⟩).1 hl
    rcases hl with hid | ⟨hid, e, he, hl⟩
    · have hopens := opens_targetPlace h ht hk
      rwa [Context.targetPlace_of_id_eq_some hid] at hopens
    · rw [Context.target_value_of_id_eq_none hid hk] at he
      obtain ⟨t', ht', hn⟩ := (opens_of_mem_stops h ht).exists_stop (standsAt_of_mem_stops ht).1 he
      exact ih e he t' ht' hn hl

theorem exists_root_stop (s : Schema) (d : Document) (options : Options) :
    ∃ t ∈ s.stops d options, t.place = .trailer ∧ t.frame.node = d.trailer := by
  obtain ⟨t, ht, hp, hf⟩ := Context.exists_stop_of_mem_stack (c := ⟨s, d⟩)
    (List.mem_singleton_self
      (Place.trailer, rootFrame d (s.matchDocument d options).rootObject))
  exact ⟨t, ht, hp, by rw [hf]; rfl⟩

theorem opens_of_reached (h : (s.matchDocument d options).Unabridged) {id : ObjectId}
    (hr : d.Reached id) : s.Opens d options ⟨some id, []⟩ := by
  obtain ⟨u, hu, hid⟩ := hr
  induction hid with
  | refl =>
    obtain ⟨t, ht, _, hf⟩ := exists_root_stop s d options
    exact opens_of_leads h d.trailer t ht hf hu
  | @tail w x _ hl ih =>
    obtain ⟨v, hv, hk, hl⟩ := hl
    obtain ⟨e, he, hl⟩ := (Document.leads_iff_of_direct (PdfValue.isReference_eq_false hk)).1 hl
    obtain ⟨t, ht, hn⟩ := ih.exists_stop (Document.entryAt?_object hv) he
    exact opens_of_leads h e.2 t ht hn hl

theorem exists_stop_of_mem_slots (h : (s.matchDocument d options).Unabridged) {p : Place}
    (hp : p ∈ d.slots) (hr : ∀ id, p.owner = some id → d.Reached id) :
    ∃ t ∈ s.stops d options, t.place = p := by
  obtain ⟨owner, is⟩ := p
  obtain ⟨hne, hsome⟩ := Document.mem_slots.1 hp
  cases owner with
  | none =>
    obtain ⟨t, ht, htp, _⟩ := exists_root_stop s d options
    have hstop := exists_stop_of_append h is t ht
    rw [htp] at hstop
    exact hstop hsome
  | some id =>
    cases is with
    | nil => exact absurd rfl hne
    | cons i is =>
      have hchild : (d.entryAt? ⟨some id, [i] ++ is⟩).isSome := hsome
      obtain ⟨t, ht, htp⟩ := opens_of_reached h (hr id rfl) i
        (Document.isSome_entryAt?_of_append hchild)
      have hstop := exists_stop_of_append h is t ht
      rw [htp] at hstop
      exact hstop hsome

theorem nodup_place_stops (s : Schema) (d : Document) (options : Options) :
    ((s.stops d options).map Stop.place).Nodup := by
  refine Context.nodup_place_stops ⟨List.pairwise_singleton _ _, ?_⟩
  intro p hp id hid
  rw [List.mem_singleton.1 hp] at hid
  cases hid

theorem length_stops_le (s : Schema) (d : Document) (options : Options) :
    (s.stops d options).length ≤ 1 + d.slots.length := by
  have hsub : (s.stops d options).map Stop.place ⊆ .trailer :: d.slots := by
    intro p hp
    obtain ⟨t, ht, rfl⟩ := List.mem_map.1 hp
    exact List.mem_cons.2 (standsAt_of_mem_stops ht).2
  have hle := ((nodup_place_stops s d options).subperm hsub).length_le
  rwa [List.length_map, List.length_cons, Nat.add_comm] at hle

def placedAnnotations (s : Schema) (d : Document) (options : Options) :
    List (Place × Annotation) :=
  (s.stops d options).flatMap fun t ↦
    ((Context.mk s d).annotationsAt options.maxDepth t).map fun a ↦ (t.place, a)

theorem map_snd_placedAnnotations (s : Schema) (d : Document) (options : Options) :
    (s.placedAnnotations d options).map Prod.snd = (s.matchDocument d options).annotations := by
  rw [placedAnnotations, matchDocument_eq_stops, List.map_flatMap]
  simp only [List.map_map, Function.comp_def, List.map_id']

theorem exists_stop_of_mem_placedAnnotations {p : Place} {a : Annotation}
    (h : (p, a) ∈ s.placedAnnotations d options) : ∃ t ∈ s.stops d options,
      ¬ options.maxDepth < t.frame.depth ∧ p = t.place ∧ a = Context.annotation ⟨s, d⟩ t.frame := by
  obtain ⟨t, ht, hx⟩ := List.mem_flatMap.1 h
  obtain ⟨a, ha, hpa⟩ := List.mem_map.1 hx
  obtain ⟨rfl, rfl⟩ := Prod.mk.inj hpa
  unfold Context.annotationsAt at ha
  split at ha
  · cases ha
  · rename_i hd
    exact ⟨t, ht, hd, rfl, List.mem_singleton.1 ha⟩

theorem mem_placedAnnotations {x : Place × Annotation}
    (h : x ∈ s.placedAnnotations d options) : ∃ v, d.entryAt? x.1 = some (x.2.key, v) := by
  obtain ⟨p, a⟩ := x
  obtain ⟨t, ht, _, rfl, rfl⟩ := exists_stop_of_mem_placedAnnotations h
  exact ⟨t.frame.node, (standsAt_of_mem_stops ht).1⟩

theorem map_fst_placedAnnotations_sublist (s : Schema) (d : Document) (options : Options) :
    ((s.placedAnnotations d options).map Prod.fst).Sublist
      ((s.stops d options).map Stop.place) := by
  rw [placedAnnotations, List.map_flatMap, List.map_eq_flatMap]
  refine List.Sublist.flatMap_right _ fun t _ ↦ ?_
  unfold Context.annotationsAt
  split
  · exact List.nil_sublist _
  · exact List.Sublist.refl _

theorem map_fst_placedAnnotations (h : (s.matchDocument d options).Unabridged) :
    (s.placedAnnotations d options).map Prod.fst = (s.stops d options).map Stop.place := by
  rw [placedAnnotations, List.map_flatMap, List.map_eq_flatMap]
  refine List.flatMap_congr fun t ht ↦ ?_
  rw [Context.annotationsAt, if_neg (of_unabridged h ht).1]
  rfl

/-- What is said of the walk over a document: that it ends, and that it comes to each value once. -/
structure Covers (s : Schema) (d : Document) (options : Options) : Prop where
  takes : ∀ n, (s.loop d options n).stack.head? = (s.stops d options)[n]?.map Stop.frame
  ends : (s.loop d options (s.stops d options).length).stack = []
  annotations : (s.loop d options (s.stops d options).length).annotations =
    (s.matchDocument d options).annotations
  findings : s.rootFindings d options ++
    (s.loop d options (s.stops d options).length).findings = (s.matchDocument d options).findings
  /-- Apart from the trailer, each frame is that of a slot. -/
  slot : ∀ t ∈ s.stops d options,
    t.frame.StandsAt d t.place ∧ (t.place = .trailer ∨ t.place ∈ d.slots)
  nodup : ((s.stops d options).map Stop.place).Nodup
  nodup_slots : d.slots.Nodup
  length_stops : (s.stops d options).length ≤ 1 + d.slots.length
  length_annotations : (s.matchDocument d options).annotations.length ≤ 1 + d.slots.length
  placed : (s.placedAnnotations d options).map Prod.snd = (s.matchDocument d options).annotations
  key : ∀ x ∈ s.placedAnnotations d options, ∃ v, d.entryAt? x.1 = some (x.2.key, v)
  /-- When nothing is left out, each slot that can be reached is annotated once. -/
  once : (s.matchDocument d options).Unabridged → ∀ p ∈ d.slots,
    (∀ id, p.owner = some id → d.Reached id) →
      ((s.placedAnnotations d options).map Prod.fst).count p = 1

/-- The walk over a document ends after at most one turn for each of its slots and one for the
trailer, and annotates no slot twice; when it leaves nothing out, it misses no slot that can be
reached. -/
theorem covers (s : Schema) (d : Document) (options : Options) : s.Covers d options := by
  obtain ⟨hends, hannotations, hfindings⟩ := s.loop_length_stops d options
  have hplaced := s.map_snd_placedAnnotations d options
  constructor
  case takes => exact s.head?_loop d options
  case ends => exact hends
  case annotations => exact hannotations.symm
  case findings => exact hfindings.symm
  case slot => exact fun t ht ↦ standsAt_of_mem_stops ht
  case nodup => exact s.nodup_place_stops d options
  case nodup_slots => exact d.nodup_slots
  case length_stops => exact s.length_stops_le d options
  case length_annotations =>
    have hle := (s.map_fst_placedAnnotations_sublist d options).length_le
    rw [List.length_map, List.length_map] at hle
    rw [← hplaced, List.length_map]
    exact Nat.le_trans hle (s.length_stops_le d options)
  case placed => exact hplaced
  case key => exact fun x hx ↦ mem_placedAnnotations hx
  case once =>
    intro h p hp hr
    obtain ⟨t, ht, rfl⟩ := exists_stop_of_mem_slots h hp hr
    rw [map_fst_placedAnnotations h]
    exact List.count_eq_one_of_mem (s.nodup_place_stops d options) (List.mem_map_of_mem ht)

def sharedDocument : Document where
  trailer := .dictionary [("Root", .reference ⟨1, 0⟩), ("Info", .reference ⟨1, 0⟩)]
  objects := KeyedList.empty.put ⟨1, 0⟩ (.dictionary [("Kids", .dictionary [("A", .null)])])

theorem sharedDocument_once : (matchDocument .empty sharedDocument {}).Unabridged ∧
    ∀ p ∈ sharedDocument.slots,
      ((placedAnnotations .empty sharedDocument {}).map Prod.fst).count p = 1 := by
  have h : (matchDocument .empty sharedDocument {}).Unabridged := of_decide_eq_true (by cbv)
  have hr : sharedDocument.Reached ⟨1, 0⟩ :=
    ⟨_, ⟨⟨1, 0⟩, _, .inside List.mem_cons_self .here, rfl, rfl, rfl⟩, .refl⟩
  refine ⟨h, fun p hp ↦ (covers .empty sharedDocument {}).once h p hp fun id hid ↦ ?_⟩
  have howners : sharedDocument.slots.map Place.owner =
      [none, none, some ⟨1, 0⟩, some ⟨1, 0⟩] := by decide
  have hm := List.mem_map_of_mem (f := Place.owner) hp
  rw [howners, hid] at hm
  simp only [List.mem_cons, reduceCtorEq, Option.some.injEq, List.not_mem_nil, or_false,
    or_self, false_or] at hm
  exact hm ▸ hr

end Schema

end PdfSchema
