import PdfSchema.Proofs.Document.Reordering
import PdfSchema.Proofs.KeyedList
import PdfSchema.Proofs.Match.Layout
import PdfSchema.Proofs.Match.Unfolding

namespace PdfSchema

namespace Match

open PdfValue

variable {v w : PdfValue}

theorem isSome_get?_eq {es fs : List (String × PdfValue)} (h : UpToOrder EntryReordered es fs)
    (key : String) : (Pairs.get? es key).isSome = (Pairs.get? fs key).isSome := by
  rw [Bool.eq_iff_iff, Pairs.isSome_get?_iff, Pairs.isSome_get?_iff]
  exact (perm_keys h).mem_iff

theorem score_eq (object : SchemaObject) (h : v.Reordered w) : score object v = score object w := by
  have hcount (es : List (String × PdfValue)) : (es.countP fun e ↦ object.contains e.1) =
      (Pairs.keys es).countP object.contains := by
    rw [Pairs.keys, List.countP_map]
    rfl
  have hes := h.entries?
  unfold score
  generalize v.entries? = o, w.entries? = o' at hes
  cases hes with
  | none => rfl
  | some hes =>
    simp only [Option.getD_some, hcount]
    exact (perm_keys hes).countP_eq _

theorem chooseLink_reordered (s : Schema) (row : Row) (i : ℕ) (h : v.Reordered w) :
    chooseLink s row i v = chooseLink s row i w := by
  simp only [chooseLink, score_eq _ h]

/-- Whether frames differ in the order of the entries inside their values alone. -/
def Frame.Reordered (f g : Frame) : Prop :=
  ∃ w, f.node.Reordered w ∧ g = { f with node := w }

namespace Context

theorem hasKey_eq (h : v.Reordered w) (key : String) : hasKey v key = hasKey w key := by
  cases h with
  | refl => rfl
  | dictionary hkeys hvalues hperm =>
    exact isSome_get?_eq (upToOrder_entries hkeys hvalues hperm) key
  | stream hkeys hvalues hperm =>
    exact isSome_get?_eq (upToOrder_entries hkeys hvalues hperm) key
  | array hitems => simp only [hasKey, hitems.length_eq]

theorem missingKeys_eq (object : SchemaObject) (h : v.Reordered w) :
    missingKeys object v = missingKeys object w := by
  simp only [missingKeys, hasKey_eq h]

def LookupReordered (x y : (String × PdfValue) × Option Row × Class) : Prop :=
  EntryReordered x.1 y.1 ∧ x.2 = y.2

theorem forall₂_zipIdx {vs ws : List PdfValue} (h : List.Forall₂ PdfValue.Reordered vs ws) (n : ℕ) :
    List.Forall₂ (fun x y ↦ x.1.Reordered y.1 ∧ x.2 = y.2) (vs.zipIdx n) (ws.zipIdx n) := by
  induction h generalizing n with
  | nil => exact .nil
  | cons hvw _ ih => exact .cons ⟨hvw, rfl⟩ (ih (n + 1))

theorem upToOrder_lookups (object : Option SchemaObject) (h : v.Reordered w) :
    UpToOrder LookupReordered (lookups object v) (lookups object w) := by
  have hentries {es fs : List (String × PdfValue)} (hes : UpToOrder EntryReordered es fs) :
      UpToOrder LookupReordered (es.map fun e ↦ (e, lookupKey object e.1))
        (fs.map fun e ↦ (e, lookupKey object e.1)) := by
    refine hes.map fun e f hef ↦ ⟨hef, ?_⟩
    rw [hef.1]
  cases h with
  | refl => exact .of_forall₂ (List.forall₂_same.2 fun x _ ↦ ⟨⟨rfl, .refl _⟩, rfl⟩)
  | dictionary hkeys hvalues hperm => exact hentries (upToOrder_entries hkeys hvalues hperm)
  | stream hkeys hvalues hperm => exact hentries (upToOrder_entries hkeys hvalues hperm)
  | array hitems =>
    refine (UpToOrder.of_forall₂ (forall₂_zipIdx hitems 0)).map ?_
    rintro ⟨v, i⟩ ⟨w, j⟩ ⟨hvw, rfl⟩
    exact ⟨⟨rfl, hvw⟩, rfl⟩

theorem keyFindings_perm (f : Frame) (name : String) (object : SchemaObject) (h : v.Reordered w) :
    (keyFindings f name object v).Perm (keyFindings f name object w) := by
  unfold keyFindings
  rw [missingKeys_eq object h]
  refine List.Perm.append_right _ (UpToOrder.map_perm (R := LookupReordered) ?_ ?_)
  · refine (upToOrder_lookups (some object) h).filter ?_
    rintro ⟨e, found⟩ ⟨e', _⟩ ⟨_, rfl⟩
    rfl
  · rintro ⟨⟨key, v⟩, found⟩ ⟨⟨_, w⟩, found'⟩ ⟨⟨rfl, _⟩, _⟩
    rfl

theorem upToOrder_childFrames (f : Frame) (name : Option String) (object : Option SchemaObject)
    (above : List ObjectId) (h : v.Reordered w) :
    UpToOrder Frame.Reordered (childFrames f name object above v)
      (childFrames f name object above w) := by
  refine (upToOrder_lookups object h).map ?_
  rintro ⟨⟨key, v⟩, found⟩ ⟨⟨_, w⟩, _⟩ ⟨⟨rfl, hvw⟩, rfl⟩
  exact ⟨w, hvw, rfl⟩

variable {s : Schema} {d d' : Document} {f g : Frame}

theorem all_eq_of_forall₂ {α β : Type} {R : α → β → Prop} {l : List α} {m : List β} {p : α → Bool}
    {q : β → Bool} (h : List.Forall₂ R l m) (hpq : ∀ a b, R a b → p a = q b) :
    l.all p = m.all q := by
  induction h with
  | nil => rfl
  | cons hab _ ih => rw [List.all_cons, List.all_cons, hpq _ _ hab, ih]

def isNumeric (c : Context) (v : PdfValue) : Bool :=
  match c.document.resolve v with
  | .ok r => r.value.kind.isNumeric
  | .error _ => false

theorem numbersFindings_eq (c : Context) (f : Frame) (type : ValueType) (length : ℕ)
    (v : PdfValue) :
    c.numbersFindings f type length v =
      let items := v.items?.getD []
      if items.length = length && items.all c.isNumeric then []
      else [f.finding (.malformedArray type length items.length)] := rfl

theorem isNumeric_eq (hd : d.Reordered d') (h : v.Reordered w) :
    isNumeric ⟨s, d⟩ v = isNumeric ⟨s, d'⟩ w := by
  unfold isNumeric
  rcases hd.resolve h with ⟨id, hv, hw⟩ | ⟨r, r', hv, hw, hr⟩
  · simp only [hv, hw]
  · simp only [hv, hw, hr.value.kind_eq]

theorem numbersFindings_reordered (hd : d.Reordered d') (f : Frame) (type : ValueType) (length : ℕ)
    (h : v.Reordered w) :
    numbersFindings ⟨s, d⟩ f type length v = numbersFindings ⟨s, d'⟩ f type length w := by
  have hitems : List.Forall₂ PdfValue.Reordered (v.items?.getD []) (w.items?.getD []) := by
    have hitems := h.items?
    generalize v.items? = o, w.items? = o' at hitems
    cases hitems with
    | none => exact .nil
    | some hitems => exact hitems
  have hall := all_eq_of_forall₂ hitems fun v w hvw ↦ isNumeric_eq (s := s) hd hvw
  simp only [numbersFindings_eq, hitems.length_eq, hall]

theorem enter_perm (hd : d.Reordered d') (f : Frame) (a : Annotation) (h : v.Reordered w) :
    (enter ⟨s, d⟩ f a v).1.Perm (enter ⟨s, d'⟩ f a w).1 := by
  unfold enter
  split
  · rw [numbersFindings_reordered hd f _ _ h]
  · rw [numbersFindings_reordered hd f _ _ h]
  · exact .refl []
  · exact .refl []
  · have hlayout : layout ⟨s, d'⟩ a.link = layout ⟨s, d⟩ a.link := rfl
    simp only [hlayout]
    split
    · exact keyFindings_perm f _ _ h
    · exact .refl []

theorem target_reordered (hd : d.Reordered d') (h : f.Reordered g) :
    (target ⟨s, d⟩ f).Reordered (target ⟨s, d'⟩ g) := by
  obtain ⟨w, hw, rfl⟩ := h
  unfold target
  rcases hd.resolve hw with ⟨id, hv, hw⟩ | ⟨r, r', hv, hw, hr⟩
  · simp only [hv, hw]
    exact ⟨rfl, .refl _⟩
  · simp only [hv, hw]
    exact hr

theorem referenceFindings_eq (hd : d.Reordered d') (h : f.Reordered g) :
    referenceFindings ⟨s, d⟩ f = referenceFindings ⟨s, d'⟩ g := by
  obtain ⟨w, hw, rfl⟩ := h
  unfold referenceFindings
  rcases hd.resolve hw with ⟨id, hv, hw⟩ | ⟨r, r', hv, hw, hr⟩
  · simp only [hv, hw]
    rfl
  · simp only [hv, hw]

theorem annotation_eq (hd : d.Reordered d') (h : f.Reordered g) :
    annotation ⟨s, d⟩ f = annotation ⟨s, d'⟩ g := by
  have hr : (target ⟨s, d⟩ f).Reordered (target ⟨s, d'⟩ g) := target_reordered hd h
  obtain ⟨w, hw, rfl⟩ := h
  unfold annotation
  generalize target ⟨s, d⟩ f = r, target ⟨s, d'⟩ _ = r' at hr
  simp only [annotate, hr.value.kind_eq, hr.id, chooseLink_reordered s _ _ hr.value]

theorem enters_eq (hd : d.Reordered d') (h : f.Reordered g) :
    enters ⟨s, d⟩ [] f = enters ⟨s, d'⟩ [] g := by
  rw [enters, enters, revisited_nil, revisited_nil,
    (target_reordered (s := s) hd h).value.kind_eq]

theorem entered_eq (hd : d.Reordered d') (h : f.Reordered g) :
    entered ⟨s, d⟩ [] f = entered ⟨s, d'⟩ [] g := by
  rw [entered, entered, enters_eq hd h, (target_reordered (s := s) hd h).id]

theorem visit_findings_perm (hd : d.Reordered d') (h : f.Reordered g) :
    (visit ⟨s, d⟩ [] f).findings.Perm (visit ⟨s, d'⟩ [] g).findings := by
  have hr : (target ⟨s, d⟩ f).Reordered (target ⟨s, d'⟩ g) := target_reordered hd h
  have hkind : kindFindings f (target ⟨s, d⟩ f) = kindFindings g (target ⟨s, d'⟩ g) := by
    obtain ⟨w, _, rfl⟩ := h
    simp only [kindFindings, hr.value.kind_eq]
    rfl
  have henter : (enter ⟨s, d⟩ f (Context.annotation ⟨s, d⟩ f) (target ⟨s, d⟩ f).value).1.Perm
      (enter ⟨s, d'⟩ g (Context.annotation ⟨s, d'⟩ g) (target ⟨s, d'⟩ g).value).1 := by
    rw [annotation_eq hd h]
    obtain ⟨w, _, rfl⟩ := h
    exact enter_perm hd f _ hr.value
  rw [visit_eq, visit_eq, revisited_nil, revisited_nil, enters_eq hd h, referenceFindings_eq hd h,
    hkind]
  refine List.Perm.append_left _ (List.Perm.append_left _ ?_)
  split
  · exact henter
  · exact .refl []

theorem upToOrder_visit_children (hd : d.Reordered d') (h : f.Reordered g) :
    UpToOrder Frame.Reordered (visit ⟨s, d⟩ [] f).children (visit ⟨s, d'⟩ [] g).children := by
  have hr : (target ⟨s, d⟩ f).Reordered (target ⟨s, d'⟩ g) := target_reordered hd h
  rw [visit_eq, visit_eq, enters_eq hd h, annotation_eq hd h]
  simp only [enter_frames]
  split
  · split
    · exact .of_forall₂ .nil
    · obtain ⟨w, _, rfl⟩ := h
      exact upToOrder_childFrames f _ _ _ hr.value
  · exact .of_forall₂ .nil

end Context

/-- Whether unfoldings are the same but for the order. -/
structure Unfolding.Reordered (t u : Unfolding) : Prop where
  annotations : t.annotations.Perm u.annotations
  findings : t.findings.Perm u.findings
  entered : t.entered.Perm u.entered

theorem Context.unfold_reordered {s : Schema} {d d' : Document} (hd : d.Reordered d')
    (maxDepth levels : ℕ) {f g : Frame} (h : f.Reordered g) :
    (Context.unfold ⟨s, d⟩ maxDepth levels f).Reordered
      (Context.unfold ⟨s, d'⟩ maxDepth levels g) := by
  induction levels generalizing f g with
  | zero =>
    obtain ⟨w, _, rfl⟩ := h
    exact ⟨.refl _, .refl _, .refl _⟩
  | succ levels ih =>
    have hinside := (upToOrder_visit_children (s := s) hd h).map (S := Unfolding.Reordered)
      fun f g hfg ↦ ih hfg
    simp only [unfold, visit_annotation, annotation_eq hd h, visit_visited, entered_eq hd h]
    constructor
    · exact (hinside.flatMap_perm fun _ _ hu ↦ hu.annotations).cons _
    · exact (visit_findings_perm hd h).append (hinside.flatMap_perm fun _ _ hu ↦ hu.findings)
    · exact (hinside.flatMap_perm fun _ _ hu ↦ hu.entered).append_left _

theorem Fresh.perm {visited ids ids' : List ObjectId} (h : Fresh visited ids)
    (hperm : ids.Perm ids') : Fresh visited ids' :=
  ⟨hperm.nodup h.nodup, fun id hid ↦ h.notMem id (hperm.symm.subset hid)⟩

theorem Issue.isRevisit_eq_false_iff {i : Issue} :
    i.isRevisit = false ↔ i.code ≠ "cycle" ∧ i.code ≠ "shared-object" := by
  cases i <;> simp [isRevisit, code]

/-- A walk that reports no revisits reports the same but for the order when the entries inside the
value that it starts from, and in the document, are put in other orders. -/
theorem Context.walk_reordered {s : Schema} {d d' : Document} (hd : d.Reordered d') {maxDepth : ℕ}
    {f g : Frame} (h : f.Reordered g)
    (hquiet : ∀ x ∈ (Context.walk ⟨s, d⟩ maxDepth [] [f]).2, x.issue.isRevisit = false) :
    (Context.walk ⟨s, d⟩ maxDepth [] [f]).1.Perm (Context.walk ⟨s, d'⟩ maxDepth [] [g]).1 ∧
      (Context.walk ⟨s, d⟩ maxDepth [] [f]).2.Perm (Context.walk ⟨s, d'⟩ maxDepth [] [g]).2 := by
  have hdepth : f.depth = g.depth := by
    obtain ⟨w, _, rfl⟩ := h
    rfl
  have hunfolding : (Context.unfolding ⟨s, d⟩ maxDepth f).Reordered
      (Context.unfolding ⟨s, d'⟩ maxDepth g) := by
    rw [unfolding, unfolding, hdepth]
    exact unfold_reordered hd maxDepth _ h
  have hfresh := fresh_of_walk hquiet
  -- Both unfoldings enter the same containers, so the second walk comes to none twice either.
  have hfresh' : Fresh [] (Context.unfoldedIds ⟨s, d'⟩ maxDepth [g]) := by
    rw [unfoldedIds, List.flatMap_singleton] at hfresh ⊢
    exact hfresh.perm hunfolding.entered
  rw [walk_eq_unfolding hfresh, walk_eq_unfolding hfresh']
  simp only [List.flatMap_singleton]
  exact ⟨hunfolding.annotations, hunfolding.findings⟩

end Match

open Match

namespace Schema

variable {s : Schema} {d d' : Document} {options : Options}

/-- The order of the entries in a document makes no difference to a report without revisit notes,
except to the order in the report. -/
theorem report_perm_of_reordered (hkeys : d.DistinctKeys) (hd : d.Reordered d')
    (hquiet : ∀ x ∈ (s.matchDocument d options).diagnostics,
      x.code ≠ "cycle" ∧ x.code ≠ "shared-object") :
    (s.matchDocument d options).annotations.Perm (s.matchDocument d' options).annotations ∧
      (s.matchDocument d options).diagnostics.Perm (s.matchDocument d' options).diagnostics := by
  have hquiet' : ∀ x ∈ (s.matchDocument d options).findings, x.issue.isRevisit = false :=
    fun x hx ↦ Issue.isRevisit_eq_false_iff.2 (hquiet _ (List.mem_map_of_mem hx))
  simp only [Report.diagnostics, matchDocument, ← hd.rootObject_eq hkeys] at hquiet' ⊢
  have hroot (root : Option String) : (rootFrame d root).Reordered (rootFrame d' root) :=
    ⟨d'.trailer, hd.trailer, rfl⟩
  obtain ⟨hannotations, hfindings⟩ := Context.walk_reordered hd (hroot _)
    fun x hx ↦ hquiet' x (List.mem_append_right _ hx)
  exact ⟨hannotations, (hfindings.append_left _).map _⟩

def unsortedDocument : Document where
  trailer := .dictionary [("Root", .reference ⟨1, 0⟩), ("Info", .null)]
  objects := KeyedList.empty.put ⟨1, 0⟩
    (.dictionary [("Pages", .dictionary [("Kids", .null), ("Count", .null)]), ("Lang", .null)])

def sortedDocument : Document where
  trailer := .dictionary [("Info", .null), ("Root", .reference ⟨1, 0⟩)]
  objects := KeyedList.empty.put ⟨1, 0⟩
    (.dictionary [("Lang", .null), ("Pages", .dictionary [("Count", .null), ("Kids", .null)])])

theorem distinctKeys_unsortedDocument : unsortedDocument.DistinctKeys := by
  have hinner : ∀ e ∈ [("Kids", PdfValue.null), ("Count", .null)], e.2.AllKeys List.Nodup := by
    intro e he
    rcases List.mem_pair.1 he with rfl | rfl <;> exact .of_leaf rfl
  refine ⟨.dictionary (by decide) fun e he ↦ ?_, fun id v h ↦ ?_⟩
  · rcases List.mem_pair.1 he with rfl | rfl <;> exact .of_leaf rfl
  · rw [unsortedDocument, KeyedList.get?_put] at h
    split at h
    · cases h
      refine .dictionary (by decide) fun e he ↦ ?_
      rcases List.mem_pair.1 he with rfl | rfl
      · exact .dictionary (by decide) hinner
      · exact .of_leaf rfl
    · cases h

theorem unsortedDocument_reordered : unsortedDocument.Reordered sortedDocument := by
  have hinner : (PdfValue.dictionary [("Kids", .null), ("Count", .null)]).Reordered
      (.dictionary [("Count", .null), ("Kids", .null)]) :=
    .dictionary rfl (List.forall₂_same.2 fun v _ ↦ .refl v) (.swap _ _ [])
  constructor
  case trailer => exact .dictionary rfl (List.forall₂_same.2 fun v _ ↦ .refl v) (.swap _ _ [])
  case keys => exact .refl _
  case values =>
    intro id v w hv hw
    rw [unsortedDocument, KeyedList.get?_put] at hv
    rw [sortedDocument, KeyedList.get?_put] at hw
    split at hv
    · rename_i hid
      rw [if_pos hid] at hw
      cases hv
      cases hw
      refine .dictionary ?_ ?_ (.swap _ _ [])
      · rfl
      · exact .cons hinner (.cons (.refl _) .nil)
    · cases hv

theorem unsortedDocument_perm : unsortedDocument.DistinctKeys ∧
    unsortedDocument.Reordered sortedDocument ∧
    (∀ x ∈ (catalogSchema.matchDocument unsortedDocument {}).diagnostics,
      x.code ≠ "cycle" ∧ x.code ≠ "shared-object") ∧
    (catalogSchema.matchDocument unsortedDocument {}).annotations.Perm
      (catalogSchema.matchDocument sortedDocument {}).annotations ∧
    (catalogSchema.matchDocument unsortedDocument {}).diagnostics.Perm
      (catalogSchema.matchDocument sortedDocument {}).diagnostics := by
  have hrevisits : (catalogSchema.matchDocument unsortedDocument {}).findings.map
      (fun x ↦ x.issue.isRevisit) = [false, false, false, false] := by cbv
  have hquiet : ∀ x ∈ (catalogSchema.matchDocument unsortedDocument {}).diagnostics,
      x.code ≠ "cycle" ∧ x.code ≠ "shared-object" := by
    intro x hx
    obtain ⟨y, hy, rfl⟩ := List.mem_map.1 hx
    have hmem := List.mem_map_of_mem (f := fun x : Finding ↦ x.issue.isRevisit) hy
    rw [hrevisits] at hmem
    exact Issue.isRevisit_eq_false_iff.1 (by simpa using hmem)
  exact ⟨distinctKeys_unsortedDocument, unsortedDocument_reordered, hquiet,
    report_perm_of_reordered distinctKeys_unsortedDocument unsortedDocument_reordered hquiet⟩

end Schema

end PdfSchema
