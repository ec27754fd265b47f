import Mathlib.Data.List.Perm.Basic
import PdfSchema.Proofs.Match.Justification

namespace PdfSchema

namespace Match

def pathsWith (codes : List String) (fs : List Finding) : List String :=
  (fs.filter fun x ↦ codes.contains x.issue.code).map Finding.path

def Report.pathsWith (r : Report) (codes : List String) : List (Option String) :=
  (r.diagnostics.filter fun x ↦ codes.contains x.code).map fun x ↦ x.location.path

variable {codes : List String} {f : Frame} {v : PdfValue}

theorem Report.pathsWith_eq (r : Report) (codes : List String) :
    r.pathsWith codes = (Match.pathsWith codes r.findings).map some := by
  rw [pathsWith, diagnostics, List.filter_map, List.map_map, Match.pathsWith, List.map_map]
  rfl

theorem pathsWith_append (codes : List String) (fs gs : List Finding) :
    pathsWith codes (fs ++ gs) = pathsWith codes fs ++ pathsWith codes gs := by
  rw [pathsWith, List.filter_append, List.map_append]
  rfl

theorem pathsWith_flatMap {α : Type} (codes : List String) (l : List α) (g : α → List Finding) :
    pathsWith codes (l.flatMap g) = l.flatMap fun x ↦ pathsWith codes (g x) := by
  rw [pathsWith, List.filter_flatMap, List.map_flatMap]
  rfl

theorem pathsWith_eq_nil {fs : List Finding} (h : ∀ x ∈ fs, x.issue.code ∉ codes) :
    pathsWith codes fs = [] := by
  rw [pathsWith, List.map_eq_nil_iff, List.filter_eq_nil_iff]
  intro x hx
  simpa using h x hx

def mismatchCodes : List String := ["unmatched-key", "unexpected-kind"]

def Frame.unknown (f : Frame) : List String :=
  if f.object.isSome && f.row.isNone then [f.path] else []

def Annotation.isMismatch (a : Annotation) : Bool := a.cls = .unmatched && a.object.isSome

structure Frame.LookedUp (f : Frame) : Prop where
  row : f.object = none → f.row = none
  cls : f.object ≠ none → (f.row = none ↔ f.cls = .unmatched)

namespace Context

variable {c : Context} {visited : List ObjectId} {g : Frame}

theorem pathsWith_unmatchedKeys (f : Frame) (name : String) (above : List ObjectId)
    {ls : List ((String × PdfValue) × Option Row × Class)}
    (h : ∀ x ∈ ls, x.2.1 = none ↔ x.2.2 = .unmatched) :
    pathsWith mismatchCodes ((ls.filter fun (_, _, cls) ↦ cls = .unmatched).map fun ((key, _), _) ↦
      ⟨childPath f.path key, some name, .unmatchedKey key name⟩) =
    (ls.map fun ((key, node), row, cls) ↦ Frame.mk node (childPath f.path key) key (some name) row
      cls none (f.depth + 1) above).flatMap Frame.unknown := by
  induction ls with
  | nil => rfl
  | cons x ls ih =>
    obtain ⟨⟨key, node⟩, row, cls⟩ := x
    obtain ⟨hx, hls⟩ := List.forall_mem_cons.1 h
    have ih := ih hls
    by_cases hcls : cls = .unmatched
    · have hrow : row = none := hx.2 hcls
      rw [List.filter_cons_of_pos (by simpa using hcls), List.map_cons, List.map_cons,
        List.flatMap_cons, ← ih]
      simp [Frame.unknown, hrow, pathsWith, mismatchCodes, Issue.code]
    · have hrow : row ≠ none := fun hnone ↦ hcls (hx.1 hnone)
      rw [List.filter_cons_of_neg (by simpa using hcls), List.map_cons, List.flatMap_cons, ← ih]
      simp [Frame.unknown, hrow]

theorem pathsWith_enter (c : Context) (f : Frame) (a : Annotation) (v : PdfValue) :
    pathsWith mismatchCodes (c.enter f a v).1 = (c.enter f a v).2.flatMap Frame.unknown := by
  have hnumbers (type : ValueType) (n : ℕ) :
      pathsWith mismatchCodes (c.numbersFindings f type n v) = [] := by
    apply pathsWith_eq_nil
    intro x hx
    obtain ⟨type, n, m, hissue⟩ := mem_numbersFindings hx
    simp [hissue, mismatchCodes, Issue.code]
  unfold enter
  split
  · exact hnumbers _ _
  · exact hnumbers _ _
  · rfl
  · rfl
  · cases hlayout : c.layout a.link with
    | none =>
      have hunknown : ∀ g ∈ childFrames f none none (f.ancestors ++ a.id.toList) v,
          Frame.unknown g = [] := by
        intro g hg
        obtain ⟨x, _, rfl⟩ := List.mem_map.1 hg
        rfl
      exact (List.flatMap_eq_nil_iff.2 hunknown).symm
    | some layout =>
      obtain ⟨name, object⟩ := layout
      have hmissing : pathsWith mismatchCodes ((missingKeys object v).map fun key ↦
          ⟨f.path, some name, .missingRequired key name⟩) = [] := by
        apply pathsWith_eq_nil
        intro x hx
        obtain ⟨key, _, rfl⟩ := List.mem_map.1 hx
        simp [mismatchCodes, Issue.code]
      change pathsWith mismatchCodes (keyFindings f name object v) = _
      rw [keyFindings, pathsWith_append, hmissing, List.append_nil]
      exact pathsWith_unmatchedKeys f name _ fun x hx ↦ row_eq_none_iff_of_mem_lookups hx

theorem pathsWith_referenceFindings (c : Context) (f : Frame) (h : "dangling-reference" ∉ codes) :
    pathsWith codes (c.referenceFindings f) = [] := by
  apply pathsWith_eq_nil
  intro x hx
  obtain ⟨id, hissue⟩ := mem_referenceFindings hx
  rwa [hissue]

theorem pathsWith_revisited (c : Context) (visited : List ObjectId) (f : Frame)
    (hcycle : "cycle" ∉ codes) (hshared : "shared-object" ∉ codes) :
    pathsWith codes ((c.revisited visited f).toList.map (revisitFinding f)) = [] := by
  apply pathsWith_eq_nil
  intro x hx
  obtain ⟨id, _, rfl⟩ := List.mem_map.1 hx
  unfold revisitFinding
  split
  · exact hcycle
  · exact hshared

/-- A visit tells of its own value if that is refused, and of those that it leaves behind if they
are not known. -/
theorem pathsWith_visit (c : Context) (visited : List ObjectId) (f : Frame) :
    pathsWith mismatchCodes (c.visit visited f).findings =
      pathsWith mismatchCodes (kindFindings f (c.target f)) ++
        (c.visit visited f).children.flatMap Frame.unknown := by
  rw [visit_eq]
  simp only [pathsWith_append, List.nil_append,
    pathsWith_referenceFindings c f (show "dangling-reference" ∉ mismatchCodes by decide),
    pathsWith_revisited c visited f (show "cycle" ∉ mismatchCodes by decide) (by decide)]
  cases c.enters visited f with
  | false => rfl
  | true => rw [if_pos rfl, if_pos rfl, pathsWith_enter]

theorem pathsWith_visit_dangling (c : Context) (visited : List ObjectId) (f : Frame) :
    pathsWith ["dangling-reference"] (c.visit visited f).findings =
      if (c.document.resolve f.node).isOk then [] else [f.path] := by
  have hkind : pathsWith ["dangling-reference"] (kindFindings f (c.target f)) = [] := by
    apply pathsWith_eq_nil
    intro x hx
    obtain ⟨_, _, hissue⟩ := mem_kindFindings hx
    simp [hissue, Issue.code]
  have henter : pathsWith ["dangling-reference"] (if c.enters visited f then
      (c.enter f (c.annotation f) (c.target f).value).1 else []) = [] := by
    apply pathsWith_eq_nil
    intro x hx
    split at hx
    · rcases mem_enter_findings hx with ⟨_, _, _, hissue⟩ | ⟨_, _, hissue⟩ | ⟨_, _, hissue⟩ <;>
        simp [hissue, Issue.code]
    · cases hx
  rw [visit_eq]
  simp only [pathsWith_append, hkind, henter, List.append_nil,
    pathsWith_revisited c visited f (show "cycle" ∉ ["dangling-reference"] by decide) (by decide)]
  unfold referenceFindings
  cases c.document.resolve f.node <;> rfl

theorem lookedUp_of_mem_visit_children (h : g ∈ (c.visit visited f).children) : g.LookedUp := by
  obtain ⟨i, hi⟩ := List.getElem?_of_mem h
  obtain ⟨he, hs, _⟩ := of_mem_visit_children hi
  rw [visit_children he hs] at h
  obtain ⟨x, hx, rfl⟩ := List.mem_map.1 h
  refine ⟨fun hobject ↦ ?_, fun _ ↦ row_eq_none_iff_of_mem_lookups hx⟩
  rw [Option.map_eq_none_iff.1 hobject] at hx
  exact row_eq_none_of_lookups hx

theorem filter_isMismatch_annotation (h : f.LookedUp) :
    ([c.annotation f].filter Annotation.isMismatch).map Annotation.path =
      pathsWith mismatchCodes (kindFindings f (c.target f)) ++ f.unknown := by
  cases hobject : f.object with
  | none =>
    simp [Context.annotation, annotate, Annotation.isMismatch, Frame.unknown, kindFindings,
      hobject, h.row hobject, pathsWith]
  | some name =>
    have hcls := h.cls (by simp [hobject])
    cases hrow : f.row with
    | none =>
      simp [Context.annotation, annotate, Annotation.isMismatch, Frame.unknown, kindFindings,
        hobject, hrow, hcls.1 hrow, pathsWith]
    | some row =>
      have hmatched : f.cls ≠ .unmatched := fun heq ↦ by simp [hcls.2 heq] at hrow
      cases ha : alternative? row (c.target f).value.kind with
      | none =>
        simp [Context.annotation, annotate, Annotation.isMismatch, Frame.unknown, kindFindings,
          hobject, hrow, ha, pathsWith, Frame.finding, mismatchCodes, Issue.code]
      | some alternative =>
        simp [Context.annotation, annotate, Annotation.isMismatch, Frame.unknown, kindFindings,
          hobject, hrow, ha, hmatched, pathsWith]

def leftAt (c : Context) (maxDepth : ℕ) (t : Stop) : List Frame :=
  if maxDepth < t.frame.depth then [] else (c.visit t.visited t.frame).children

theorem frames_stops_perm (c : Context) (maxDepth : ℕ) (visited : List ObjectId)
    (stack : List (Place × Frame)) :
    ((c.stops maxDepth visited stack).map Stop.frame).Perm
      (stack.map Prod.snd ++ (c.stops maxDepth visited stack).flatMap (c.leftAt maxDepth)) := by
  fun_induction stops c maxDepth visited stack with
  | case1 visited => exact .nil
  | case2 visited p f rest hd ih =>
    rw [List.map_cons, List.map_cons, List.flatMap_cons, leftAt, if_pos hd, List.nil_append]
    exact ih.cons f
  | case3 visited p f rest hd v ih =>
    rw [List.map_cons, List.map_cons, List.flatMap_cons, leftAt, if_neg hd]
    refine List.Perm.cons f (ih.trans ?_)
    rw [List.map_append, map_snd_locate, List.append_assoc]
    exact List.perm_append_comm_assoc _ _ _

end Context

end Match

open Match
open scoped List

namespace Document

def dangles (d : Document) (p : Place) : Bool :=
  (d.entryAt? p).any fun e ↦ e.2.isReference && !(d.resolve e.2).isOk

end Document

namespace Schema

variable {s : Schema} {d : Document} {options : Options} {t : Stop}

theorem lookedUp_of_mem_stops (ht : t ∈ s.stops d options) : t.frame.LookedUp := by
  refine Context.stops_forall (P := fun _ f ↦ f.LookedUp) ?_ ?_ t ht
  · intro visited p f _ x hx
    obtain ⟨i, hi, _⟩ := Context.mem_locate.1 hx
    exact Context.lookedUp_of_mem_visit_children (List.mem_of_getElem? hi)
  · intro x hx
    rw [List.mem_singleton.1 hx]
    exact ⟨fun _ ↦ rfl, fun hobject ↦ absurd rfl hobject⟩

theorem pathsWith_rootFindings (s : Schema) (d : Document) (options : Options) {codes : List String}
    (h : "missing-root" ∉ codes) : pathsWith codes (s.rootFindings d options) = [] := by
  apply pathsWith_eq_nil
  intro x hx
  obtain ⟨name, hissue⟩ := mem_rootFindings hx
  rw [hissue]
  exact h

/-- Where the walk is not cut off, the paths of the findings about values that the schema does not
know or refuses are those of the annotations that say so. -/
theorem mismatches_perm
    (h : ∀ x ∈ (s.matchDocument d options).diagnostics, x.code ≠ "depth-limit") :
    (pathsWith mismatchCodes (s.matchDocument d options).findings).Perm
      (((s.matchDocument d options).annotations.filter Annotation.isMismatch).map
        Annotation.path) := by
  let refused (t : Stop) := pathsWith mismatchCodes
    (Context.kindFindings t.frame (Context.target ⟨s, d⟩ t.frame))
  have hfindings : pathsWith mismatchCodes (s.matchDocument d options).findings =
      (s.stops d options).flatMap fun t ↦
        refused t ++ (Context.leftAt ⟨s, d⟩ options.maxDepth t).flatMap Frame.unknown := by
    rw [matchDocument_eq_stops, pathsWith_append, pathsWith_rootFindings s d options (by decide),
      List.nil_append, pathsWith_flatMap]
    refine List.flatMap_congr fun t ht ↦ ?_
    rw [Context.findingsAt, if_neg (not_deep_of_diagnostics h ht), Context.leftAt,
      if_neg (not_deep_of_diagnostics h ht), Context.pathsWith_visit]
  have hannotations : ((s.matchDocument d options).annotations.filter Annotation.isMismatch).map
      Annotation.path = (s.stops d options).flatMap fun t ↦ refused t ++ t.frame.unknown := by
    rw [matchDocument_eq_stops, List.filter_flatMap, List.map_flatMap]
    refine List.flatMap_congr fun t ht ↦ ?_
    rw [Context.annotationsAt, if_neg (not_deep_of_diagnostics h ht)]
    exact Context.filter_isMismatch_annotation (lookedUp_of_mem_stops ht)
  -- Each value that is not known is a stop, and nothing is known to be amiss with the trailer.
  have hunknown : ((s.stops d options).flatMap fun t ↦ t.frame.unknown).Perm
      ((s.stops d options).flatMap fun t ↦
        (Context.leftAt ⟨s, d⟩ options.maxDepth t).flatMap Frame.unknown) := by
    have hframes := ((Context.mk s d).frames_stops_perm options.maxDepth []
      [(.trailer, rootFrame d (s.matchDocument d options).rootObject)]).flatMap_right Frame.unknown
    rw [List.flatMap_map, List.flatMap_append, List.flatMap_assoc] at hframes
    exact hframes
  rw [hfindings, hannotations]
  calc (s.stops d options).flatMap (fun t ↦
        refused t ++ (Context.leftAt ⟨s, d⟩ options.maxDepth t).flatMap Frame.unknown)
    _ ~ (s.stops d options).flatMap refused ++ (s.stops d options).flatMap (fun t ↦
        (Context.leftAt ⟨s, d⟩ options.maxDepth t).flatMap Frame.unknown) :=
      (List.flatMap_append_perm _ _ _).symm
    _ ~ (s.stops d options).flatMap refused ++
        (s.stops d options).flatMap (fun t ↦ t.frame.unknown) := hunknown.symm.append_left _
    _ ~ (s.stops d options).flatMap (fun t ↦ refused t ++ t.frame.unknown) :=
      List.flatMap_append_perm _ _ _

theorem dangles_of_mem_stops (ht : t ∈ s.stops d options) :
    d.dangles t.place = !(d.resolve t.frame.node).isOk := by
  have hentry : d.entryAt? t.place = some (t.frame.key, t.frame.node) :=
    (standsAt_of_mem_stops ht).1
  rw [Document.dangles, hentry, Option.any_some]
  cases hreference : t.frame.node.isReference with
  | true => rw [Bool.true_and]
  | false =>
    rw [d.resolve_direct hreference]
    rfl

theorem danglings_eq (s : Schema) (d : Document) (options : Options) :
    pathsWith ["dangling-reference"] (s.matchDocument d options).findings =
      ((s.placedAnnotations d options).filter fun x ↦ d.dangles x.1).map fun x ↦ x.2.path := by
  rw [matchDocument_eq_stops, pathsWith_append, pathsWith_rootFindings s d options (by decide),
    List.nil_append, pathsWith_flatMap, placedAnnotations, List.filter_flatMap, List.map_flatMap]
  refine List.flatMap_congr fun t ht ↦ ?_
  rw [Context.findingsAt, Context.annotationsAt]
  split
  · rfl
  · rw [Context.pathsWith_visit_dangling, List.map_singleton]
    have hdangles := dangles_of_mem_stops ht
    cases hresolve : (d.resolve t.frame.node).isOk with
    | true =>
      rw [List.filter_cons_of_neg (by simp [hdangles, hresolve])]
      rfl
    | false =>
      rw [List.filter_cons_of_pos (by simp [hdangles, hresolve])]
      rfl

theorem of_dangles {p : Place} {a : Annotation} (ha : (p, a) ∈ s.placedAnnotations d options)
    (h : d.dangles p = true) : a.kind = .null ∧ a.id = none := by
  obtain ⟨t, ht, _, rfl, rfl⟩ := exists_stop_of_mem_placedAnnotations ha
  have htarget : Context.target ⟨s, d⟩ t.frame = ⟨none, .null⟩ := by
    rw [dangles_of_mem_stops ht] at h
    unfold Context.target
    cases hresolve : d.resolve t.frame.node with
    | ok r => simp [hresolve, Except.isOk, Except.toBool] at h
    | error id => rfl
  simp [Context.annotation, Context.annotate, htarget, PdfValue.kind]

/-- Where the walk is not cut off, each value that an object of the schema does not know or refuses
has one finding about it, and so has each reference that leads nowhere, which is annotated as
null. -/
theorem defects_accounted
    (h : ∀ x ∈ (s.matchDocument d options).diagnostics, x.code ≠ "depth-limit") :
    ((s.matchDocument d options).pathsWith ["unmatched-key", "unexpected-kind"]).Perm
      (((s.matchDocument d options).annotations.filter fun a ↦
        a.cls = .unmatched && a.object.isSome).map fun a ↦ some a.path) ∧
    (s.placedAnnotations d options).map Prod.snd = (s.matchDocument d options).annotations ∧
    (s.matchDocument d options).pathsWith ["dangling-reference"] =
      ((s.placedAnnotations d options).filter fun x ↦ d.dangles x.1).map (fun x ↦ some x.2.path) ∧
    ∀ x ∈ s.placedAnnotations d options, d.dangles x.1 = true →
      x.2.kind = .null ∧ x.2.id = none := by
  refine ⟨?mismatches, s.map_snd_placedAnnotations d options, ?danglings, fun x ↦ of_dangles⟩
  case mismatches =>
    have hperm := (mismatches_perm h).map some
    rw [List.map_map] at hperm
    rw [Report.pathsWith_eq]
    exact hperm
  case danglings => rw [Report.pathsWith_eq, danglings_eq, List.map_map, Function.comp_def]

def defectiveDocument : Document where
  trailer := .dictionary [("Root", .reference ⟨1, 0⟩), ("Spare", .reference ⟨9, 0⟩)]
  objects := KeyedList.empty.put ⟨1, 0⟩
    (.dictionary [("Pages", .dictionary [("Kids", .null), ("Extra", .integer 5)])])

theorem defectiveDocument_accounted :
    (∀ x ∈ (catalogSchema.matchDocument defectiveDocument {}).diagnostics,
      x.code ≠ "depth-limit") ∧
    ((catalogSchema.matchDocument defectiveDocument {}).pathsWith
      ["unmatched-key", "unexpected-kind"]).Perm
        [some "trailer/Root/Pages/Kids", some "trailer/Root/Pages/Extra", some "trailer/Spare"] ∧
    (catalogSchema.matchDocument defectiveDocument {}).pathsWith ["dangling-reference"] =
      [some "trailer/Spare"] := by
  have hcodes : (catalogSchema.matchDocument defectiveDocument {}).findings.map
      (fun x ↦ x.issue.code) =
        ["unmatched-key", "unmatched-key", "unexpected-kind", "dangling-reference"] := by cbv
  have h : ∀ x ∈ (catalogSchema.matchDocument defectiveDocument {}).diagnostics,
      x.code ≠ "depth-limit" := by
    intro x hx heq
    obtain ⟨y, hy, hcode⟩ := Report.mem_diagnostics_code.1 ⟨x, hx, heq⟩
    have hmem := List.mem_map_of_mem (f := fun x ↦ x.issue.code) hy
    rw [hcodes, hcode] at hmem
    exact absurd hmem (by decide)
  have hmismatches : ((catalogSchema.matchDocument defectiveDocument {}).annotations.filter
      fun a ↦ a.cls = .unmatched && a.object.isSome).map (fun a ↦ some a.path) =
        [some "trailer/Root/Pages/Kids", some "trailer/Root/Pages/Extra",
          some "trailer/Spare"] := by cbv
  have hdanglings : ((placedAnnotations catalogSchema defectiveDocument {}).filter fun x ↦
      defectiveDocument.dangles x.1).map (fun x ↦ some x.2.path) = [some "trailer/Spare"] := by cbv
  obtain ⟨hperm, _, hequal, _⟩ := defects_accounted h
  rw [hmismatches] at hperm
  exact ⟨h, hperm, hequal.trans hdanglings⟩

end Schema

end PdfSchema
