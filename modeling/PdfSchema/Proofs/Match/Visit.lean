import Mathlib.Data.Nat.Notation
import PdfSchema.Match.Visit
import PdfSchema.Proofs.Document.ContainerGraph

namespace PdfSchema

/-- The types whose values the walk takes as a whole. -/
def ValueType.isSealed : ValueType → Bool
  | matrix | rectangle | nameTree | numberTree => true
  | _ => false

namespace Match

def Annotation.isSealed (a : Annotation) : Bool := a.type.any ValueType.isSealed

theorem lookups_fst (object : Option SchemaObject) (v : PdfValue) :
    (Context.lookups object v).map Prod.fst = v.children := by
  cases v <;> simp [Context.lookups, PdfValue.children, Function.comp_def]

namespace Context

variable (c : Context) (visited : List ObjectId) (f : Frame)

def revisited : Option ObjectId :=
  if (c.target f).value.kind.isContainer then (c.target f).id.filter visited.contains else none

def enters : Bool :=
  (c.target f).value.kind.isContainer && (c.revisited visited f).isNone

def entered : Option ObjectId := if c.enters visited f then (c.target f).id else none

def annotation : Annotation := c.annotate f (c.target f)

theorem visit_eq :
    c.visit visited f =
      { annotation := c.annotation f
        findings := c.referenceFindings f ++ kindFindings f (c.target f) ++
          ((c.revisited visited f).toList.map (revisitFinding f) ++
            if c.enters visited f then (c.enter f (c.annotation f) (c.target f).value).1 else [])
        visited := (c.entered visited f).toList ++ visited
        children := if c.enters visited f then
          (c.enter f (c.annotation f) (c.target f).value).2 else [] } := by
  unfold visit annotation
  cases hk : (c.target f).value.kind.isContainer with
  | false => simp [enters, entered, revisited, hk]
  | true =>
    cases hid : (c.target f).id with
    | none => simp [enters, entered, revisited, hk, hid]
    | some id =>
      by_cases hv : id ∈ visited <;>
        simp [enters, entered, revisited, hk, hid, Option.filter, hv]

variable {c visited f}

theorem revisited_eq_some_iff {id : ObjectId} :
    c.revisited visited f = some id ↔ (c.target f).value.kind.isContainer = true ∧
      (c.target f).id = some id ∧ id ∈ visited := by
  simp [revisited]

theorem enters_iff :
    c.enters visited f = true ↔ (c.target f).value.kind.isContainer = true ∧
      ∀ id, (c.target f).id = some id → id ∉ visited := by
  simp only [enters, Bool.and_eq_true, Option.isNone_iff_eq_none, Option.eq_none_iff_forall_ne_some]
  constructor
  · rintro ⟨hk, h⟩
    exact ⟨hk, fun id hid hv ↦ h id (revisited_eq_some_iff.2 ⟨hk, hid, hv⟩)⟩
  · rintro ⟨hk, h⟩
    refine ⟨hk, fun id hid ↦ ?_⟩
    obtain ⟨_, hid, hv⟩ := revisited_eq_some_iff.1 hid
    exact h id hid hv

theorem exists_visited_of_not_enters (hk : (c.target f).value.kind.isContainer = true)
    (h : c.enters visited f = false) : ∃ id, (c.target f).id = some id ∧ id ∈ visited := by
  have hn : ¬ c.enters visited f = true := by simp [h]
  simpa only [enters_iff, hk, true_and, Classical.not_forall, Classical.not_not,
    exists_prop] using hn

theorem entered_eq_some_iff {id : ObjectId} :
    c.entered visited f = some id ↔ (c.target f).value.kind.isContainer = true ∧
      (c.target f).id = some id ∧ id ∉ visited := by
  unfold entered
  cases he : c.enters visited f with
  | true =>
    obtain ⟨hk, hv⟩ := enters_iff.1 he
    simp only [if_true, hk, true_and]
    exact ⟨fun h ↦ ⟨h, hv id h⟩, And.left⟩
  | false =>
    simp only [Bool.false_eq_true, if_false, reduceCtorEq, false_iff]
    rintro ⟨hk, hid, hv⟩
    have := enters_iff.2 ⟨hk, fun id' hid' ↦ Option.some.inj (hid ▸ hid') ▸ hv⟩
    rw [he] at this
    cases this

theorem enters_of_entered {id : ObjectId} (h : c.entered visited f = some id) :
    c.enters visited f = true := by
  unfold entered at h
  split at h
  · assumption
  · cases h

@[simp] theorem visit_annotation : Visit.annotation (c.visit visited f) = c.annotation f := by
  rw [visit_eq]

theorem visit_visited :
    (c.visit visited f).visited = (c.entered visited f).toList ++ visited := by rw [visit_eq]

theorem visited_subset_visit : visited ⊆ (c.visit visited f).visited := by
  rw [visit_visited]
  exact List.subset_append_right _ _

theorem mem_visit_visited {id : ObjectId} :
    id ∈ (c.visit visited f).visited ↔ c.entered visited f = some id ∨ id ∈ visited := by
  rw [visit_visited, List.mem_append, Option.mem_toList]

theorem enter_frames (a : Annotation) (v : PdfValue) :
    (c.enter f a v).2 = if a.isSealed then [] else
      childFrames f ((c.layout a.link).map Prod.fst) ((c.layout a.link).map Prod.snd)
        (f.ancestors ++ a.id.toList) v := by
  obtain ⟨path, key, object, cls, kind, id, type, link⟩ := a
  cases type with
  | none => rfl
  | some type => cases type <;> rfl

theorem visit_children (he : c.enters visited f = true) (hs : (c.annotation f).isSealed = false) :
    (c.visit visited f).children =
      childFrames f ((c.layout (c.annotation f).link).map Prod.fst)
        ((c.layout (c.annotation f).link).map Prod.snd)
        (f.ancestors ++ (c.entered visited f).toList) (c.target f).value := by
  have hid : (c.annotation f).id = c.entered visited f := by
    rw [entered, if_pos he]
    rfl
  rw [visit_eq]
  simp only [if_pos he, enter_frames, hs, Bool.false_eq_true, if_false, hid]

theorem visit_children_of_not_enters (h : c.enters visited f = false) :
    (c.visit visited f).children = [] := by
  rw [visit_eq, h]
  rfl

theorem visit_children_of_isSealed (hs : (c.annotation f).isSealed = true) :
    (c.visit visited f).children = [] := by
  rw [visit_eq, enter_frames, hs]
  exact ite_self _

theorem childFrames_entries (name : Option String) (object : Option SchemaObject)
    (above : List ObjectId) (v : PdfValue) :
    (childFrames f name object above v).map (fun g ↦ (g.key, g.node)) = v.children := by
  rw [← lookups_fst object v, childFrames, List.map_map]
  rfl

/-- A visit leaves frames behind only inside a container that it enters: one for each entry, in
order, with that container added to what was entered above. -/
theorem of_mem_visit_children {g : Frame} {i : ℕ} (h : (c.visit visited f).children[i]? = some g) :
    c.enters visited f = true ∧ (c.annotation f).isSealed = false ∧
      (c.target f).value.children[i]? = some (g.key, g.node) ∧
      g.ancestors = f.ancestors ++ (c.entered visited f).toList ∧ g.depth = f.depth + 1 := by
  cases he : c.enters visited f with
  | false => simp [visit_children_of_not_enters he] at h
  | true =>
    cases hs : (c.annotation f).isSealed with
    | true => simp [visit_children_of_isSealed hs] at h
    | false =>
      rw [visit_children he hs] at h
      refine ⟨rfl, rfl, ?_, ?_⟩
      · rw [← childFrames_entries (f := f), List.getElem?_map, h]
        rfl
      · obtain ⟨x, _, rfl⟩ := List.mem_map.1 (List.mem_of_getElem? h)
        exact ⟨rfl, rfl⟩

theorem exists_visit_child (he : c.enters visited f = true)
    (hs : (c.annotation f).isSealed = false) {i : ℕ} {e : String × PdfValue}
    (h : (c.target f).value.children[i]? = some e) :
    ∃ g, (c.visit visited f).children[i]? = some g ∧ (g.key, g.node) = e := by
  rw [← childFrames_entries (f := f), ← visit_children he hs, List.getElem?_map,
    Option.map_eq_some_iff] at h
  exact h

theorem mem_numbersFindings {type : ValueType} {n : ℕ} {v : PdfValue} {x : Finding}
    (h : x ∈ c.numbersFindings f type n v) : ∃ type n m, x.issue = .malformedArray type n m := by
  simp only [numbersFindings] at h
  split at h
  · cases h
  · rw [List.mem_singleton.1 h]
    exact ⟨_, _, _, rfl⟩

theorem mem_enter_findings {a : Annotation} {v : PdfValue} {x : Finding}
    (h : x ∈ (c.enter f a v).1) :
    (∃ type n m, x.issue = .malformedArray type n m) ∨
      (∃ key object, x.issue = .unmatchedKey key object) ∨
      ∃ key object, x.issue = .missingRequired key object := by
  unfold enter at h
  split at h
  · exact .inl (mem_numbersFindings h)
  · exact .inl (mem_numbersFindings h)
  · cases h
  · cases h
  · simp only at h
    split at h
    · rcases List.mem_append.1 h with h | h
      · obtain ⟨y, _, rfl⟩ := List.mem_map.1 h
        exact .inr (.inl ⟨_, _, rfl⟩)
      · obtain ⟨y, _, rfl⟩ := List.mem_map.1 h
        exact .inr (.inr ⟨_, _, rfl⟩)
    · cases h

theorem mem_visit_findings {x : Finding} :
    x ∈ (c.visit visited f).findings ↔
      x ∈ c.referenceFindings f ∨ x ∈ kindFindings f (c.target f) ∨
      (∃ id, c.revisited visited f = some id ∧ revisitFinding f id = x) ∨
      (c.enters visited f = true ∧ x ∈ (c.enter f (c.annotation f) (c.target f).value).1) := by
  rw [visit_eq]
  simp only [List.mem_append, List.mem_map, Option.mem_toList, or_assoc]
  cases c.enters visited f <;> simp

theorem mem_referenceFindings {x : Finding} (h : x ∈ c.referenceFindings f) :
    ∃ id, x.issue = .danglingReference id := by
  unfold referenceFindings at h
  split at h
  · cases h
  · rw [List.mem_singleton.1 h]
    exact ⟨_, rfl⟩

theorem mem_kindFindings {r : Resolved} {x : Finding} (h : x ∈ kindFindings f r) :
    ∃ kind types, x.issue = .unexpectedKind kind types := by
  unfold kindFindings at h
  split at h
  · cases h
  · split at h
    · cases h
    · rw [List.mem_singleton.1 h]
      exact ⟨_, _, rfl⟩

/-- A visit reports a cycle exactly when it comes back to a container that it is inside of. -/
theorem cycle_mem_visit_findings {id : ObjectId} :
    (∃ x ∈ (c.visit visited f).findings, x.issue = .cycle id) ↔
      c.revisited visited f = some id ∧ id ∈ f.ancestors := by
  simp only [mem_visit_findings]
  constructor
  · rintro ⟨x, hx | hx | ⟨id', hid, rfl⟩ | ⟨_, hx⟩, hi⟩
    · obtain ⟨_, he⟩ := mem_referenceFindings hx
      cases he.symm.trans hi
    · obtain ⟨_, _, he⟩ := mem_kindFindings hx
      cases he.symm.trans hi
    · unfold revisitFinding at hi
      split at hi
      · rename_i ha
        cases hi
        exact ⟨hid, List.contains_iff_mem.1 ha⟩
      · cases hi
    · rcases mem_enter_findings hx with ⟨_, _, _, he⟩ | ⟨_, _, he⟩ | ⟨_, _, he⟩ <;>
        cases he.symm.trans hi
  · rintro ⟨hid, ha⟩
    refine ⟨revisitFinding f id, .inr (.inr (.inl ⟨id, hid, rfl⟩)), ?_⟩
    rw [revisitFinding, if_pos (List.contains_iff_mem.2 ha)]
    rfl

theorem get?_target {id : ObjectId} (h : (c.target f).id = some id) :
    c.document.objects.get? id = some (c.target f).value := by
  unfold target at h ⊢
  split at h <;> rename_i he
  · rcases Document.resolve_eq_ok he with ⟨_, rfl⟩ | ⟨_, id', hid, hv⟩
    · cases h
    · exact Option.some.inj (hid ▸ h) ▸ hv
  · cases h

theorem target_value_of_id_eq_none (h : (c.target f).id = none)
    (hk : (c.target f).value.kind.isContainer = true) : (c.target f).value = f.node := by
  unfold target at h hk ⊢
  split at h <;> rename_i he
  · rcases Document.resolve_eq_ok he with ⟨_, rfl⟩ | ⟨_, id', hid, _⟩
    · rfl
    · cases hid.symm.trans h
  · rw [he] at hk
    cases hk

/-- Where the node of a frame leads to: to its target, or through a direct container to where the
entries of that lead to. -/
theorem leads_node_iff {id : ObjectId} :
    c.document.Leads f.node id ↔ (c.target f).value.kind.isContainer = true ∧
      ((c.target f).id = some id ∨ (c.target f).id = none ∧
        ∃ e ∈ (c.target f).value.children, c.document.Leads e.2 id) := by
  cases hr : f.node.isReference with
  | false =>
    have ht : c.target f = ⟨none, f.node⟩ := by
      rw [target, Document.resolve_direct _ hr]
    rw [Document.leads_iff_of_direct hr, ht]
    simp only [reduceCtorEq, true_and, false_or]
    constructor
    · rintro ⟨e, he, h⟩
      exact ⟨PdfValue.isContainer_of_mem_children he, e, he, h⟩
    · exact And.right
  | true =>
    obtain ⟨ref, hn⟩ : ∃ ref, f.node = .reference ref := by
      cases hn : f.node <;> first | exact ⟨_, rfl⟩ | (rw [hn] at hr; cases hr)
    rw [hn, Document.leads_reference_iff, target, hn]
    cases he : c.document.resolve (.reference ref) with
    | error e => simp [PdfValue.kind, PdfValue.Kind.isContainer]
    | ok r =>
      have hid : r.id ≠ none := by
        rcases Document.resolve_eq_ok he with ⟨h, _⟩ | ⟨_, id', hid, _⟩
        · cases h
        · simp [hid]
      simp only [Except.ok.injEq, exists_eq_left', hid, false_and, or_false]
      exact And.comm

theorem links_target_iff {u id : ObjectId} (hu : (c.target f).id = some u)
    (hk : (c.target f).value.kind.isContainer = true) :
    c.document.Links u id ↔ ∃ e ∈ (c.target f).value.children, c.document.Leads e.2 id := by
  rw [← Document.leads_iff_of_direct (PdfValue.isReference_eq_false hk)]
  constructor
  · rintro ⟨v, hv, _, h⟩
    rw [get?_target hu] at hv
    exact Option.some.inj hv ▸ h
  · intro h
    exact ⟨_, get?_target hu, hk, h⟩

end Context

end Match

end PdfSchema
