import Mathlib.Data.List.MinMax
import PdfSchema.Proofs.Match.Path

namespace PdfSchema

namespace Match

variable {s : Schema} {d : Document} {kind : PdfValue.Kind}

def Refuses (kind : PdfValue.Kind) (t : TypeEntry) : Prop :=
  ∀ type, t.valueType? = some type → accepts type kind = false

theorem alternativeFrom?_cons_of_refuses {t : TypeEntry} (h : Refuses kind t)
    (types : List TypeEntry) (n : ℕ) :
    alternativeFrom? kind n (t :: types) = alternativeFrom? kind (n + 1) types := by
  cases htype : t.valueType? with
  | none => simp only [alternativeFrom?, htype]
  | some type => simp [alternativeFrom?, htype, h type htype]

theorem alternativeFrom?_cases (kind : PdfValue.Kind) (types : List TypeEntry) (n : ℕ) :
    (alternativeFrom? kind n types = none ∧ ∀ t ∈ types, Refuses kind t) ∨
    ∃ before t after type, types = before ++ t :: after ∧ (∀ t' ∈ before, Refuses kind t') ∧
      t.valueType? = some type ∧ accepts type kind = true ∧
      alternativeFrom? kind n types = some (n + before.length, type) := by
  induction types generalizing n with
  | nil => exact .inl ⟨rfl, fun t ht ↦ absurd ht List.not_mem_nil⟩
  | cons t types ih =>
    by_cases hrefuses : Refuses kind t
    · rw [alternativeFrom?_cons_of_refuses hrefuses]
      rcases ih (n + 1) with ⟨hnone, hall⟩ |
        ⟨before, t', after, type, rfl, hbefore, htype, ha, hsome⟩
      · exact .inl ⟨hnone, List.forall_mem_cons.2 ⟨hrefuses, hall⟩⟩
      · refine .inr ⟨t :: before, t', after, type, rfl,
          List.forall_mem_cons.2 ⟨hrefuses, hbefore⟩, htype, ha, ?_⟩
        rw [hsome, List.length_cons, Nat.add_assoc, Nat.add_comm 1]
    · obtain ⟨type, htype, ha⟩ : ∃ type, t.valueType? = some type ∧ accepts type kind = true := by
        simpa [Refuses] using hrefuses
      refine .inr ⟨[], t, types, type, rfl, fun _ h ↦ absurd h List.not_mem_nil, htype, ha, ?_⟩
      simp [alternativeFrom?, htype, ha]

def linkedNames (s : Schema) (row : Row) (i : ℕ) : List String :=
  ((row.linksFor i).filterMap LinkTarget.objectName?).filter s.contains

def scoreOf (s : Schema) (v : PdfValue) (name : String) : ℕ :=
  ((s.get? name).map (score · v)).getD 0

theorem candidates_eq_map (s : Schema) (row : Row) (i : ℕ) (v : PdfValue) :
    candidates s row i v = (linkedNames s row i).map fun name ↦ (name, scoreOf s v name) := by
  unfold candidates linkedNames
  induction row.linksFor i with
  | nil => rfl
  | cons target targets ih =>
    cases hname : target.objectName? with
    | none => simpa [hname] using ih
    | some name =>
      cases hget : s.get? name with
      | none => simpa [hname, hget, KeyedList.contains] using ih
      | some object => simpa [hname, hget, KeyedList.contains, scoreOf] using ih

theorem foldl_better_map (names : List String) (f : String → ℕ) :
    (names.map fun name ↦ (name, f name)).foldl better none =
      (names.argmax f).map fun name ↦ (name, f name) := by
  induction names using List.reverseRecOn with
  | nil => rfl
  | append_singleton names name ih =>
    rw [List.map_append, List.foldl_append, ih, List.argmax_concat]
    cases names.argmax f with
    | none => rfl
    | some best =>
      simp only [List.map_cons, List.map_nil, List.foldl_cons, List.foldl_nil, Option.map_some,
        better]
      split <;> rfl

/-- A choice falls on the first of the objects that declare the most keys. -/
theorem chooseLink_eq_argmax (s : Schema) (row : Row) (i : ℕ) (v : PdfValue) :
    chooseLink s row i v = (linkedNames s row i).argmax (scoreOf s v) := by
  rw [chooseLink_eq, candidates_eq_map, foldl_better_map, Option.map_map]
  exact Option.map_id'

/-- What an annotation says of a value, by the row and the class that are found for its key. -/
inductive Annotation.Follows (a : Annotation) (s : Schema) (v : PdfValue) :
    Option Row × Class → Prop
  | unknown {cls : Class} (lost : a.Lost) : Follows a s v (none, cls)
  | refused {row : Row} {cls : Class} (refuses : ∀ t ∈ row.types, Refuses a.kind t)
    (lost : a.Lost) : Follows a s v (some row, cls)
  | admitted {row : Row} {cls : Class} {before after : List TypeEntry} {t : TypeEntry}
    {type : ValueType} (types : row.types = before ++ t :: after)
    (first : ∀ t' ∈ before, Refuses a.kind t') (valueType : t.valueType? = some type)
    (accepts : accepts type a.kind = true) (hcls : a.cls = cls) (htype : a.type = some type)
    (link : a.link = (linkedNames s row before.length).argmax (scoreOf s v)) :
    Follows a s v (some row, cls)

/-- Whether an annotation is about the value at a place, where `node` stands. -/
structure Annotation.Describes (a : Annotation) (d : Document) (p : Place) (node : PdfValue) :
    Prop where
  entry : d.entryAt? p = some (a.key, node)
  kind : a.kind = (d.resolved node).value.kind
  id : a.id = (d.resolved node).id

def lookupIn (container : PdfValue) (object : SchemaObject) (i : ℕ) (key : String) :
    Option Row × Class :=
  match container with
  | .array _ => lookupIndex (some object) i
  | _ => lookupKey (some object) key

theorem getElem?_lookups (object : SchemaObject) (v : PdfValue) (i : ℕ) :
    (Context.lookups (some object) v)[i]? =
      v.children[i]?.map fun e ↦ (e, lookupIn v object i e.1) := by
  cases v with
  | array items =>
    cases hi : items[i]? <;>
      simp [Context.lookups, PdfValue.children, lookupIn, List.getElem?_zipIdx, hi]
  | _ => simp [Context.lookups, PdfValue.children, lookupIn]

namespace Context

variable {c : Context} {visited : List ObjectId} {f g : Frame} {p : Place} {name : String}

theorem follows_annotation (hforced : f.forced = none) (hcls : f.row = none → f.cls = .unmatched) :
    (c.annotation f).Follows c.schema (c.target f).value (f.row, f.cls) := by
  cases hrow : f.row with
  | none =>
    apply Annotation.Follows.unknown
    constructor <;> simp [Context.annotation, annotate, hrow, hcls hrow, hforced]
  | some row =>
    rcases alternativeFrom?_cases (c.target f).value.kind row.types 0 with ⟨hnone, hrefuses⟩ |
      ⟨before, t, after, type, htypes, hfirst, htype, haccepts, hsome⟩
    · refine .refused hrefuses ?_
      constructor <;> simp [Context.annotation, annotate, hrow, hforced, alternative?, hnone]
    · rw [Nat.zero_add] at hsome
      refine .admitted htypes hfirst htype haccepts ?_ ?_ ?_
      · simp [Context.annotation, annotate, hrow, alternative?, hsome]
      · simp [Context.annotation, annotate, hrow, alternative?, hsome]
      · rw [← chooseLink_eq_argmax]
        simp [Context.annotation, annotate, hrow, hforced, alternative?, hsome]

theorem lookupIn_of_visit_children {i : ℕ} (h : (c.visit visited f).children[i]? = some g)
    (hname : g.object = some name) :
    ∃ object, c.schema.get? name = some object ∧ g.forced = none ∧
      (g.row = none ↔ g.cls = .unmatched) ∧
      (g.row, g.cls) = lookupIn (c.target f).value object i g.key := by
  obtain ⟨he, hs, hchild, _⟩ := of_mem_visit_children h
  rw [visit_children he hs, childFrames, List.getElem?_map, Option.map_eq_some_iff] at h
  obtain ⟨⟨⟨key, node⟩, row, cls⟩, hx, rfl⟩ := h
  obtain ⟨⟨name', object⟩, hlayout, rfl⟩ := Option.map_eq_some_iff.1 hname
  have hrow := row_eq_none_iff_of_mem_lookups (List.mem_of_getElem? hx)
  rw [hlayout, Option.map_some, getElem?_lookups, hchild, Option.map_some] at hx
  have hlookup := (Prod.mk.inj (Option.some.inj hx)).2
  exact ⟨object, (layout_eq_some hlayout).2, rfl, hrow, hlookup.symm⟩

end Context

end Match

open Match

namespace Schema

variable {s : Schema} {d : Document} {options : Options} {t u : Stop}

theorem describes_of_mem_stops (ht : t ∈ s.stops d options) :
    (Context.annotation ⟨s, d⟩ t.frame).Describes d t.place t.frame.node :=
  ⟨(standsAt_of_mem_stops ht).1, rfl, rfl⟩

theorem mem_placedAnnotations_of_stop (ht : t ∈ s.stops d options)
    (hd : ¬ options.maxDepth < t.frame.depth) :
    (t.place, Context.annotation ⟨s, d⟩ t.frame) ∈ s.placedAnnotations d options := by
  refine List.mem_flatMap.2 ⟨t, ht, List.mem_map.2 ⟨_, ?_, rfl⟩⟩
  rw [Context.annotationsAt, if_neg hd]
  exact List.mem_cons_self

theorem exists_parent_of_object (ht : t ∈ s.stops d options) (h : t.frame.object ≠ none) :
    ∃ u ∈ s.stops d options, Context.Parent ⟨s, d⟩ options.maxDepth u t := by
  rcases trailer_or_parent ht with ⟨hplace, _⟩ | hparent
  · obtain ⟨rest, hstops⟩ := s.stops_eq_cons d options
    have hroot := eq_of_place_eq ht (hstops ▸ List.mem_cons_self) hplace
    rw [hroot] at h
    exact absurd rfl h
  · exact hparent

theorem follows_of_mem_placedAnnotations {p : Place} {a : Annotation} {name : String}
    (ha : (p, a) ∈ s.placedAnnotations d options) (hname : a.object = some name) :
    ∃ object, s.get? name = some object ∧ ∃ q b above i node,
      (q, b) ∈ s.placedAnnotations d options ∧ b.IsParent a ∧ b.Describes d q above ∧
      a.Describes d p node ∧ (d.resolved above).value.children[i]? = some (a.key, node) ∧
      a.Follows s (d.resolved node).value
        (lookupIn (d.resolved above).value object i a.key) := by
  obtain ⟨t, ht, _, rfl, rfl⟩ := exists_stop_of_mem_placedAnnotations ha
  have hobject : t.frame.object = some name := hname
  obtain ⟨u, hu, hp⟩ := exists_parent_of_object ht (by simp [hobject])
  obtain ⟨i, hi, _⟩ := Context.mem_locate.1 hp.2
  obtain ⟨object, hget, hforced, hrow, hlookup⟩ := Context.lookupIn_of_visit_children hi hobject
  have hchild := (Context.of_mem_visit_children hi).2.2.1
  have hfollows := Context.follows_annotation (c := ⟨s, d⟩) hforced hrow.1
  rw [hlookup] at hfollows
  exact ⟨object, hget, u.place, _, u.frame.node, i, t.frame.node,
    mem_placedAnnotations_of_stop hu hp.1, isParent_of_parent hu hp, describes_of_mem_stops hu,
    describes_of_mem_stops ht, hchild, hfollows⟩

/-- Each annotation whose key was looked up in an object follows from the schema: the object is
there, and the annotation says what the object says of the key, for the kind of the container that
the value is in. -/
theorem justified_annotations (s : Schema) (d : Document) (options : Options) :
    (s.placedAnnotations d options).map Prod.snd = (s.matchDocument d options).annotations ∧
    ∀ p a, (p, a) ∈ s.placedAnnotations d options → ∀ name, a.object = some name →
      ∃ object, s.get? name = some object ∧ ∃ q b above i node,
        (q, b) ∈ s.placedAnnotations d options ∧ b.IsParent a ∧ b.Describes d q above ∧
        a.Describes d p node ∧ (d.resolved above).value.children[i]? = some (a.key, node) ∧
        a.Follows s (d.resolved node).value
          (lookupIn (d.resolved above).value object i a.key) :=
  ⟨s.map_snd_placedAnnotations d options,
    fun _ _ ha _ hname ↦ follows_of_mem_placedAnnotations ha hname⟩

theorem catalogSchema_justified :
    ∃ a ∈ (catalogSchema.matchDocument catalogDocument {}).annotations,
      a.object = some "Catalog" ∧ a.link = some "Node" ∧
      ∃ object above i node, catalogSchema.get? "Catalog" = some object ∧
        a.Follows catalogSchema (catalogDocument.resolved node).value
          (lookupIn (catalogDocument.resolved above).value object i a.key) := by
  obtain ⟨hplaced, hjustified⟩ := justified_annotations catalogSchema catalogDocument {}
  have hlinks : (catalogSchema.matchDocument catalogDocument {}).annotations.map
      (fun a ↦ (a.object, a.link)) = [(none, some "FileTrailer"),
        (some "FileTrailer", some "Catalog"), (some "Catalog", some "Node"),
        (some "Node", none)] := by
    cbv
  have hmem : (some "Catalog", some "Node") ∈
      (catalogSchema.matchDocument catalogDocument {}).annotations.map
        (fun a ↦ (a.object, a.link)) := by
    rw [hlinks]
    exact List.mem_cons_of_mem _ (List.mem_cons_of_mem _ List.mem_cons_self)
  obtain ⟨a, ha, he⟩ := List.mem_map.1 hmem
  obtain ⟨hobject, hlink⟩ := Prod.mk.inj he
  obtain ⟨⟨p, a⟩, hpa, rfl⟩ := List.mem_map.1 (hplaced ▸ ha)
  obtain ⟨object, hget, q, b, above, i, node, _, _, _, _, _, hfollows⟩ :=
    hjustified p a hpa "Catalog" hobject
  exact ⟨a, ha, hobject, hlink, object, above, i, node, hget, hfollows⟩

end Schema

end PdfSchema
