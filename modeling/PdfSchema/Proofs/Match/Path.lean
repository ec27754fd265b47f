import PdfSchema.Proofs.Document.Keys
import PdfSchema.Proofs.Match.Coverage
import PdfSchema.Proofs.Match.Entry
import PdfSchema.Proofs.Text.Numeral

namespace PdfSchema

namespace PdfValue

variable {v : PdfValue}

theorem keys_children_array (items : List PdfValue) :
    (array items).children.map Prod.fst = (List.range items.length).map toString := by
  rw [children, List.map_map, List.range_eq_range', ← List.zipIdx_map_snd, List.map_map]
  rfl

theorem nodup_keys_children (h : v.AllKeys List.Nodup) : (v.children.map Prod.fst).Nodup := by
  cases v with
  | dictionary es => exact h.keys rfl
  | stream es n => exact h.keys rfl
  | array items =>
    rw [keys_children_array]
    exact List.nodup_range.map toString_injective
  | _ => exact List.nodup_nil

theorem slash_notMem_key (h : v.AllKeys fun keys ↦ ∀ key ∈ keys, '/' ∉ key.toList)
    {e : String × PdfValue} (he : e ∈ v.children) : '/' ∉ e.1.toList := by
  cases v with
  | dictionary es => exact h.keys rfl e.1 (List.mem_map_of_mem he)
  | stream es n => exact h.keys rfl e.1 (List.mem_map_of_mem he)
  | array items =>
    obtain ⟨x, _, rfl⟩ := List.mem_map.1 he
    exact slash_notMem_toString x.2
  | _ => cases he

end PdfValue

namespace Match

theorem toList_childPath (path key : String) :
    (Context.childPath path key).toList = path.toList ++ '/' :: key.toList := by
  simp [Context.childPath]

theorem append_cons_inj_of_notMem_right {α : Type} {a : α} {l l' r r' : List α} (hr : a ∉ r)
    (hr' : a ∉ r') (h : l ++ a :: r = l' ++ a :: r') : l = l' ∧ r = r' := by
  rcases List.append_eq_append_iff.1 h with ⟨m, hl, hm⟩ | ⟨m, hl, hm⟩
  all_goals cases m with
    | nil =>
      have hm := (List.cons.inj hm).2
      simp_all
    | cons b m =>
      have hm := (List.cons.inj hm).2
      simp_all

theorem childPath_inj {path path' key key' : String} (hk : '/' ∉ key.toList)
    (hk' : '/' ∉ key'.toList) (h : Context.childPath path key = Context.childPath path' key') :
    path = path' ∧ key = key' := by
  have hlist := congrArg String.toList h
  rw [toList_childPath, toList_childPath] at hlist
  obtain ⟨hp, hk⟩ := append_cons_inj_of_notMem_right hk hk' hlist
  exact ⟨String.toList_injective hp, String.toList_injective hk⟩

theorem leadsOn_of_childPath_eq {path path' key rest : String} (hk : '/' ∉ key.toList)
    (h : Context.childPath path rest = Context.childPath path' key) :
    path' = path ∨ ∃ rest', path' = Context.childPath path rest' := by
  have hlist := congrArg String.toList h
  rw [toList_childPath, toList_childPath] at hlist
  rcases List.append_eq_append_iff.1 hlist with ⟨m, hp, hm⟩ | ⟨m, hp, hm⟩
  · cases m with
    | nil => exact .inl (String.toList_injective (by simpa using hp))
    | cons b m =>
      obtain ⟨rfl, _⟩ := List.cons.inj hm
      refine .inr ⟨String.ofList m, String.toList_injective ?_⟩
      rw [hp, toList_childPath, String.toList_ofList]
  · cases m with
    | nil => exact .inl (String.toList_injective (by simpa using hp.symm))
    | cons b m =>
      obtain ⟨_, hm⟩ := List.cons.inj hm
      rw [hm] at hk
      exact absurd (List.mem_append_right _ List.mem_cons_self) hk

theorem childPath_ne_trailer (path key : String) : Context.childPath path key ≠ "trailer" := by
  intro h
  have hmem : '/' ∈ (Context.childPath path key).toList := by
    rw [toList_childPath]
    exact List.mem_append_right _ List.mem_cons_self
  rw [h] at hmem
  exact absurd hmem (by decide)

structure Frame.InContext (g : Frame) : Prop where
  forced : g.forced = none
  lost : g.object = none → g.row = none ∧ g.cls = .unmatched

/-- Whether an annotation is about the container that another one is right inside of. -/
structure Annotation.IsParent (p a : Annotation) : Prop where
  path : a.path = Context.childPath p.path a.key
  container : p.kind.isContainer = true
  isSealed : p.isSealed = false
  object : a.object = p.link

/-- Whether nothing is known of the value of an annotation from the schema. -/
structure Annotation.Lost (a : Annotation) : Prop where
  cls : a.cls = .unmatched
  type : a.type = none
  link : a.link = none

/-- What is said of the annotations of a report: that they form a tree. -/
structure Report.IsTree (r : Report) : Prop where
  nodup : (r.annotations.map Annotation.path).Nodup
  root : r.annotations.head?.map Annotation.path = some "trailer"
  /-- Each annotation but the first has one parent, which comes before it. -/
  parent : ∀ before a after, r.annotations = before ++ a :: after → before ≠ [] →
    ∃ p ∈ before, p.IsParent a ∧
      ∀ q ∈ r.annotations, a.path = Context.childPath q.path a.key → q = p
  lost : ∀ a ∈ r.annotations.tail, a.object = none → a.Lost
  /-- All that is further down is unknown as well. -/
  lost_below : ∀ p ∈ r.annotations, p.link = none → ∀ a ∈ r.annotations, ∀ rest,
    a.path = Context.childPath p.path rest → a.object = none ∧ a.Lost

namespace Context

variable {c : Context} {visited : List ObjectId} {f g : Frame} {P : List String → Prop}

theorem allKeys_target (hd : c.document.AllKeys P) (hf : f.node.AllKeys P) :
    (c.target f).value.AllKeys P := by
  unfold target
  split
  · rename_i r hr
    rcases Document.resolve_eq_ok hr with ⟨_, rfl⟩ | ⟨_, id, _, hv⟩
    · exact hf
    · exact hd.2 id _ hv
  · exact .of_leaf rfl

theorem inContext_of_mem_visit_children (h : g ∈ (c.visit visited f).children) : g.InContext := by
  obtain ⟨i, hi⟩ := List.getElem?_of_mem h
  obtain ⟨he, hs, _⟩ := of_mem_visit_children hi
  rw [visit_children he hs] at h
  obtain ⟨x, hx, rfl⟩ := List.mem_map.1 h
  refine ⟨rfl, fun hobject ↦ ?_⟩
  have hlayout : c.layout (c.annotation f).link = none := Option.map_eq_none_iff.1 hobject
  rw [hlayout] at hx
  have hlost := lookups_none hx
  exact ⟨congrArg Prod.fst hlost, congrArg Prod.snd hlost⟩

theorem lost_annotation (h : g.InContext) (hobject : g.object = none) :
    (c.annotation g).Lost := by
  obtain ⟨hrow, hcls⟩ := h.lost hobject
  constructor <;> simp [Context.annotation, annotate, hrow, hcls, h.forced]

theorem object_of_mem_visit_children {roots : List String} (hf : f.Found c.schema roots)
    (h : g ∈ (c.visit visited f).children) : g.object = (c.annotation f).link := by
  obtain ⟨i, hi⟩ := List.getElem?_of_mem h
  obtain ⟨he, hs, _⟩ := of_mem_visit_children hi
  rw [visit_children he hs] at h
  obtain ⟨x, _, rfl⟩ := List.mem_map.1 h
  change (c.layout (c.annotation f).link).map Prod.fst = _
  cases hlink : (c.annotation f).link with
  | none => rfl
  | some name =>
    have hkey := Schema.reachable_subset_keys c.schema roots (mem_reachable_of_link hf hlink)
    obtain ⟨object, hget⟩ := KeyedList.exists_get?_of_mem_keys hkey
    simp [layout, hget]

end Context

end Match

open Match

namespace Schema

variable {s : Schema} {d : Document} {options : Options} {t u : Stop}

theorem stops_eq_cons (s : Schema) (d : Document) (options : Options) :
    ∃ rest, s.stops d options =
      ⟨.trailer, rootFrame d (s.matchDocument d options).rootObject, []⟩ :: rest := by
  unfold stops
  rw [Context.stops]
  split
  · exact ⟨_, rfl⟩
  · exact ⟨_, rfl⟩

theorem eq_of_place_eq (ht : t ∈ s.stops d options) (hu : u ∈ s.stops d options)
    (h : t.place = u.place) : t = u :=
  List.inj_on_of_nodup_map (nodup_place_stops s d options) ht hu h

theorem allKeys_of_mem_stops {P : List String → Prop} (hd : d.AllKeys P)
    (ht : t ∈ s.stops d options) : t.frame.node.AllKeys P := by
  refine Context.stops_forall (P := fun _ f ↦ f.node.AllKeys P) ?_ ?_ t ht
  · intro visited p f hf x hx
    obtain ⟨i, hi, _⟩ := Context.mem_locate.1 hx
    have hchild := (Context.of_mem_visit_children hi).2.2.1
    exact (Context.allKeys_target hd hf).child (List.mem_of_getElem? hchild)
  · intro x hx
    rw [List.mem_singleton.1 hx]
    exact hd.1

theorem trailer_or_parent (ht : t ∈ s.stops d options) :
    (t.place = .trailer ∧ t.frame.path = "trailer") ∨
      ∃ u ∈ s.stops d options, Context.Parent ⟨s, d⟩ options.maxDepth u t := by
  refine stops_induction (P := fun t ↦ (t.place = .trailer ∧ t.frame.path = "trailer") ∨
    ∃ u ∈ s.stops d options, Context.Parent ⟨s, d⟩ options.maxDepth u t) ?trailer ?child t ht
  case trailer =>
    intro t _ hplace hframe
    refine .inl ⟨hplace, ?_⟩
    rw [hframe]
    rfl
  case child => exact fun u hu _ t _ hp ↦ .inr ⟨u, hu, hp⟩

theorem path_of_parent (h : Context.Parent ⟨s, d⟩ options.maxDepth u t) :
    t.frame.path = Context.childPath u.frame.path t.frame.key := by
  obtain ⟨i, hi, _⟩ := Context.mem_locate.1 h.2
  exact Context.path_of_mem_visit_children (List.mem_of_getElem? hi)

theorem slash_notMem_of_parent (hd : d.SimpleKeys) (hu : u ∈ s.stops d options)
    (h : Context.Parent ⟨s, d⟩ options.maxDepth u t) : '/' ∉ t.frame.key.toList := by
  obtain ⟨i, hi, _⟩ := Context.mem_locate.1 h.2
  have hchild := (Context.of_mem_visit_children hi).2.2.1
  exact PdfValue.slash_notMem_key (Context.allKeys_target hd (allKeys_of_mem_stops hd hu))
    (List.mem_of_getElem? hchild)

theorem place_eq_of_parent {t' : Stop} (hd : d.DistinctKeys) (hu : u ∈ s.stops d options)
    (h : Context.Parent ⟨s, d⟩ options.maxDepth u t)
    (h' : Context.Parent ⟨s, d⟩ options.maxDepth u t') (hkey : t.frame.key = t'.frame.key) :
    t.place = t'.place := by
  obtain ⟨i, hi, hp⟩ := Context.mem_locate.1 h.2
  obtain ⟨j, hj, hp'⟩ := Context.mem_locate.1 h'.2
  have hchild := (Context.of_mem_visit_children hi).2.2.1
  have hchild' := (Context.of_mem_visit_children hj).2.2.1
  have hkeys := PdfValue.nodup_keys_children
    (Context.allKeys_target (c := ⟨s, d⟩) hd (allKeys_of_mem_stops hd hu))
  have hlt : i < ((Context.target ⟨s, d⟩ u.frame).value.children.map Prod.fst).length := by
    rw [List.length_map]
    exact (List.getElem?_eq_some_iff.1 hchild).1
  have hij : i = j := by
    apply (List.getElem?_inj hlt hkeys).1
    rw [List.getElem?_map, List.getElem?_map, hchild, hchild']
    exact congrArg some hkey
  subst hij
  exact hp.trans hp'.symm

/-- The paths tell the stops of a walk apart. -/
theorem place_eq_of_path_eq (hdistinct : d.DistinctKeys) (hsimple : d.SimpleKeys)
    (ht : t ∈ s.stops d options) : ∀ t' ∈ s.stops d options,
      t.frame.path = t'.frame.path → t.place = t'.place := by
  refine stops_induction (P := fun t ↦ ∀ t' ∈ s.stops d options,
    t.frame.path = t'.frame.path → t.place = t'.place) ?trailer ?child t ht
  case trailer =>
    intro t _ hplace hframe t' ht' h
    rcases trailer_or_parent ht' with ⟨hplace', _⟩ | ⟨u', _, hp'⟩
    · rw [hplace, hplace']
    · rw [path_of_parent hp', hframe] at h
      exact absurd h.symm (childPath_ne_trailer _ _)
  case child =>
    intro u hu ih t _ hp t' ht' h
    rcases trailer_or_parent ht' with ⟨_, hpath'⟩ | ⟨u', hu', hp'⟩
    · rw [path_of_parent hp, hpath'] at h
      exact absurd h (childPath_ne_trailer _ _)
    · rw [path_of_parent hp, path_of_parent hp'] at h
      -- The last keys are the same, and so are the parents, as the induction says.
      obtain ⟨hpath, hkey⟩ := childPath_inj (slash_notMem_of_parent hsimple hu hp)
        (slash_notMem_of_parent hsimple hu' hp') h
      obtain rfl : u = u' := eq_of_place_eq hu hu' (ih u' hu' hpath)
      exact place_eq_of_parent hdistinct hu hp hp' hkey

def annotatedStops (s : Schema) (d : Document) (options : Options) : List Stop :=
  (s.stops d options).filter fun t ↦ !decide (options.maxDepth < t.frame.depth)

theorem mem_annotatedStops :
    t ∈ s.annotatedStops d options ↔
      t ∈ s.stops d options ∧ ¬ options.maxDepth < t.frame.depth := by
  simp [annotatedStops]

theorem map_annotation_annotatedStops (s : Schema) (d : Document) (options : Options) :
    (s.annotatedStops d options).map (fun t ↦ Context.annotation ⟨s, d⟩ t.frame) =
      (s.matchDocument d options).annotations := by
  rw [matchDocument_eq_stops]
  simp only [annotatedStops]
  induction s.stops d options with
  | nil => rfl
  | cons t ts ih =>
    rw [List.flatMap_cons, ← ih, Context.annotationsAt]
    by_cases hd : options.maxDepth < t.frame.depth
    · rw [List.filter_cons_of_neg (by simpa using hd), if_pos hd, List.nil_append]
    · rw [List.filter_cons_of_pos (by simpa using hd), if_neg hd]
      rfl

theorem annotatedStops_eq_cons (s : Schema) (d : Document) (options : Options) :
    ∃ rest, s.annotatedStops d options =
      ⟨.trailer, rootFrame d (s.matchDocument d options).rootObject, []⟩ :: rest := by
  obtain ⟨rest, h⟩ := s.stops_eq_cons d options
  rw [annotatedStops, h]
  exact ⟨_, List.filter_cons_of_pos (by simp [rootFrame])⟩

theorem exists_parent_of_split {before after : List Stop}
    (h : s.annotatedStops d options = before ++ t :: after) (hne : before ≠ []) :
    ∃ u ∈ before, Context.Parent ⟨s, d⟩ options.maxDepth u t := by
  obtain ⟨l, r, hl, rfl, hr⟩ := List.filter_eq_append_iff.1 h
  obtain ⟨m, r', rfl, hm, _⟩ := List.filter_eq_cons_iff.1 hr
  have hsplit : s.stops d options = (l ++ m) ++ t :: r' := by rw [hl, List.append_assoc]
  rcases Context.mem_stack_or_parent (l ++ m) hsplit with hmem | ⟨u, hu, hp⟩
  · -- The trailer is the first stop, and it is annotated, so that nothing is before it.
    obtain ⟨hplace, _⟩ := Prod.mk.inj (List.mem_singleton.1 hmem)
    obtain ⟨rest, hcons⟩ := s.stops_eq_cons d options
    have hnodup := nodup_place_stops s d options
    rw [hsplit] at hcons hnodup
    cases l with
    | nil => exact absurd rfl hne
    | cons u l =>
      obtain ⟨rfl, _⟩ := List.cons.inj hcons
      have hnot := (List.nodup_cons.1 hnodup).1
      have hmem : t.place ∈ ((l ++ m) ++ t :: r').map Stop.place :=
        List.mem_map_of_mem (List.mem_append_right _ List.mem_cons_self)
      rw [hplace] at hmem
      exact absurd hmem hnot
  · rcases List.mem_append.1 hu with hu | hu
    · exact ⟨u, List.mem_filter.2 ⟨hu, by simpa using hp.1⟩, hp⟩
    · exact absurd (by simpa using hp.1) (hm u hu)

theorem isParent_of_parent (hu : u ∈ s.stops d options)
    (h : Context.Parent ⟨s, d⟩ options.maxDepth u t) :
    (Context.annotation ⟨s, d⟩ u.frame).IsParent (Context.annotation ⟨s, d⟩ t.frame) := by
  obtain ⟨i, hi, _⟩ := Context.mem_locate.1 h.2
  obtain ⟨he, hs, _⟩ := Context.of_mem_visit_children hi
  exact ⟨path_of_parent h, (Context.enters_iff.1 he).1, hs,
    Context.object_of_mem_visit_children (found_of_mem_stops hu) (List.mem_of_getElem? hi)⟩

theorem inContext_of_parent (h : Context.Parent ⟨s, d⟩ options.maxDepth u t) :
    t.frame.InContext := by
  obtain ⟨i, hi, _⟩ := Context.mem_locate.1 h.2
  exact Context.inContext_of_mem_visit_children (List.mem_of_getElem? hi)

theorem nodup_paths (hdistinct : d.DistinctKeys) (hsimple : d.SimpleKeys) (s : Schema)
    (options : Options) :
    ((s.matchDocument d options).annotations.map Annotation.path).Nodup := by
  have hplaces : ((s.annotatedStops d options).map Stop.place).Nodup :=
    (nodup_place_stops s d options).sublist ((List.filter_sublist).map _)
  rw [← map_annotation_annotatedStops, List.map_map]
  refine List.Nodup.map_on ?_ (List.Nodup.of_map _ hplaces)
  intro t ht t' ht' h
  have ht := (mem_annotatedStops.1 ht).1
  have ht' := (mem_annotatedStops.1 ht').1
  exact eq_of_place_eq ht ht' (place_eq_of_path_eq hdistinct hsimple ht t' ht' h)

theorem annotation_eq_of_path_eq (hdistinct : d.DistinctKeys) (hsimple : d.SimpleKeys)
    {a b : Annotation} (ha : a ∈ (s.matchDocument d options).annotations)
    (hb : b ∈ (s.matchDocument d options).annotations) (h : a.path = b.path) : a = b :=
  List.inj_on_of_nodup_map (nodup_paths hdistinct hsimple s options) ha hb h

theorem exists_stops_of_split {before after : List Annotation} {a : Annotation}
    (h : (s.matchDocument d options).annotations = before ++ a :: after) :
    ∃ l t r, s.annotatedStops d options = l ++ t :: r ∧
      l.map (fun t ↦ Context.annotation ⟨s, d⟩ t.frame) = before ∧
      Context.annotation ⟨s, d⟩ t.frame = a := by
  rw [← map_annotation_annotatedStops] at h
  obtain ⟨l, r, hl, hbefore, hr⟩ := List.map_eq_append_iff.1 h
  obtain ⟨t, r', rfl, ha, _⟩ := List.map_eq_cons_iff.1 hr
  exact ⟨l, t, r', hl, hbefore, ha⟩

theorem lost_of_split {before after : List Annotation} {a : Annotation}
    (h : (s.matchDocument d options).annotations = before ++ a :: after) (hne : before ≠ [])
    (ho : a.object = none) : a.Lost := by
  obtain ⟨l, t, r, hl, rfl, rfl⟩ := exists_stops_of_split h
  have hne : l ≠ [] := fun hnil ↦ hne (by rw [hnil]; rfl)
  obtain ⟨u, _, hp⟩ := exists_parent_of_split hl hne
  exact Context.lost_annotation (inContext_of_parent hp) ho

theorem lost_below_of_link_eq_none (hdistinct : d.DistinctKeys) (hsimple : d.SimpleKeys)
    {p : Annotation} (hmem : p ∈ (s.matchDocument d options).annotations) (hlink : p.link = none)
    (ht : t ∈ s.stops d options) : ∀ rest, t.frame.path = Context.childPath p.path rest →
      (Context.annotation ⟨s, d⟩ t.frame).object = none ∧
        (Context.annotation ⟨s, d⟩ t.frame).Lost := by
  refine stops_induction (P := fun t ↦ ∀ rest,
    t.frame.path = Context.childPath p.path rest →
      (Context.annotation ⟨s, d⟩ t.frame).object = none ∧
        (Context.annotation ⟨s, d⟩ t.frame).Lost) ?trailer ?child t ht
  case trailer =>
    intro t _ _ hframe rest h
    rw [hframe] at h
    exact absurd h.symm (childPath_ne_trailer _ _)
  case child =>
    intro u hu ih t _ hp rest h
    have hparent := isParent_of_parent hu hp
    have hobject : (Context.annotation ⟨s, d⟩ t.frame).object = none := by
      rw [hparent.object]
      have hpath := h.symm.trans (path_of_parent hp)
      rcases leadsOn_of_childPath_eq (slash_notMem_of_parent hsimple hu hp) hpath with
        hsame | ⟨rest', hrest⟩
      · have hann := annotation_mem_of_stop hu hp.1
        rw [annotation_eq_of_path_eq hdistinct hsimple hann hmem hsame]
        exact hlink
      · exact (ih rest' hrest).2.link
    exact ⟨hobject, Context.lost_annotation (inContext_of_parent hp) hobject⟩

/-- The annotations of a document whose keys hold no separator form a tree by their paths, along
which the objects of the schema are handed down. -/
theorem isTree_matchDocument (hdistinct : d.DistinctKeys) (hsimple : d.SimpleKeys) (s : Schema)
    (options : Options) : (s.matchDocument d options).IsTree := by
  obtain ⟨rest, hrest⟩ := s.annotatedStops_eq_cons d options
  have hcons := s.map_annotation_annotatedStops d options
  rw [hrest, List.map_cons] at hcons
  constructor
  case nodup => exact nodup_paths hdistinct hsimple s options
  case root =>
    rw [← hcons]
    rfl
  case parent =>
    intro before a after h hne
    obtain ⟨l, t, r, hl, rfl, rfl⟩ := exists_stops_of_split h
    have hne : l ≠ [] := fun hnil ↦ hne (by rw [hnil]; rfl)
    obtain ⟨u, hu, hp⟩ := exists_parent_of_split hl hne
    have hus : u ∈ s.stops d options := by
      refine (mem_annotatedStops.1 ?_).1
      rw [hl]
      exact List.mem_append_left _ hu
    refine ⟨_, List.mem_map_of_mem hu, isParent_of_parent hus hp, fun q hq hpath ↦ ?_⟩
    have hkey : '/' ∉ t.frame.key.toList := slash_notMem_of_parent hsimple hus hp
    have hsame := (childPath_inj hkey hkey (hpath.symm.trans (path_of_parent hp))).1
    exact annotation_eq_of_path_eq hdistinct hsimple hq (annotation_mem_of_stop hus hp.1) hsame
  case lost =>
    intro a ha ho
    rw [← hcons, List.tail_cons] at ha
    obtain ⟨l, r, h⟩ := List.append_of_mem ha
    rw [h] at hcons
    exact lost_of_split hcons.symm (List.cons_ne_nil _ l) ho
  case lost_below =>
    intro p hp hlink a ha rest h
    obtain ⟨t, ht, _, rfl⟩ := exists_stop_of_mem_annotations ha
    exact lost_below_of_link_eq_none hdistinct hsimple hp hlink ht rest h

theorem allKeys_catalogDocument {P : List String → Prop} (hroot : P ["Root"])
    (hpages : P ["Pages"]) (hkids : P ["Kids"]) : catalogDocument.AllKeys P := by
  have hnull : ∀ e ∈ [("Kids", PdfValue.null)], e.2.AllKeys P := by
    intro e he
    rw [List.mem_singleton.1 he]
    exact .of_leaf rfl
  have hinner : ∀ e ∈ [("Pages", PdfValue.dictionary [("Kids", .null)])], e.2.AllKeys P := by
    intro e he
    rw [List.mem_singleton.1 he]
    exact .dictionary hkids hnull
  refine ⟨.dictionary hroot fun e he ↦ ?_, fun id v h ↦ ?_⟩
  · rw [List.mem_singleton.1 he]
    exact .of_leaf rfl
  · rw [catalogDocument, KeyedList.get?_put] at h
    split at h
    · cases h
      exact .dictionary hpages hinner
    · cases h

theorem catalogDocument_isTree : catalogDocument.DistinctKeys ∧ catalogDocument.SimpleKeys ∧
    (catalogSchema.matchDocument catalogDocument {}).IsTree := by
  have hdistinct : catalogDocument.DistinctKeys :=
    allKeys_catalogDocument (by decide) (by decide) (by decide)
  have hsimple : catalogDocument.SimpleKeys :=
    allKeys_catalogDocument (by decide) (by decide) (by decide)
  exact ⟨hdistinct, hsimple, isTree_matchDocument hdistinct hsimple catalogSchema {}⟩

end Schema

end PdfSchema
