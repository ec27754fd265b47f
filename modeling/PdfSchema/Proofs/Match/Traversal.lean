import PdfSchema.Match.Walk
import PdfSchema.Proofs.Match.Visit

namespace PdfSchema

namespace Match

/-- What a traversal reports, and the indirect containers that are visited when it ends. -/
structure Traversal where
  annotations : List Annotation
  findings : List Finding
  visited : List ObjectId

namespace Traversal

def empty (visited : List ObjectId) : Traversal := ⟨[], [], visited⟩

def append (t u : Traversal) : Traversal :=
  ⟨t.annotations ++ u.annotations, t.findings ++ u.findings, u.visited⟩

def followedBy (t : Traversal) (later : List Annotation × List Finding) :
    List Annotation × List Finding := (t.annotations ++ later.1, t.findings ++ later.2)

theorem append_followedBy (t u : Traversal) (later : List Annotation × List Finding) :
    (t.append u).followedBy later = t.followedBy (u.followedBy later) := by
  simp only [append, followedBy, List.append_assoc]

end Traversal

def Frame.below (f : Frame) (above : List ObjectId) : Frame := { f with ancestors := above }

theorem stackSize_cons (f : Frame) (fs : List Frame) :
    stackSize (f :: fs) = f.node.size + stackSize fs := rfl

theorem stackSize_singleton (f : Frame) : stackSize [f] = f.node.size := rfl

namespace Context

variable (c : Context)

theorem length_unvisited_le {visited visited' : List ObjectId} (h : visited ⊆ visited') :
    (c.unvisited visited').length ≤ (c.unvisited visited).length := by
  have hsub : c.unvisited visited' = (c.unvisited visited).filter (!visited'.contains ·) := by
    simp only [unvisited, List.filter_filter]
    apply List.filter_congr
    intro id _
    by_cases hv : id ∈ visited
    · simp [hv, h hv]
    · simp [hv]
  rw [hsub]
  exact List.length_filter_le _ _

variable (maxDepth : ℕ)

mutual

/-- Traverses the value of a frame, where `above` are the indirect containers that were entered
above it. -/
def traverse (visited above : List ObjectId) (f : Frame) :
    { t : Traversal // visited ⊆ t.visited } :=
  if maxDepth < f.depth then
    ⟨⟨[], [f.finding (.depthLimit maxDepth)], visited⟩, List.Subset.refl _⟩
  else
    let v := c.visit visited (f.below above)
    let inside := traverseAll v.visited (above ++ (c.entered visited (f.below above)).toList)
      v.children
    ⟨⟨v.annotation :: inside.1.annotations, v.findings ++ inside.1.findings, inside.1.visited⟩,
      List.Subset.trans visited_subset_visit inside.2⟩
termination_by ((c.unvisited visited).length, f.node.size, 0)
decreasing_by
  have h := c.visit_decreases visited (f.below above) []
  rw [List.append_nil] at h
  simp only [Prod.lex_def, stackSize_singleton] at h ⊢
  exact h.imp_right fun h ↦ ⟨h.1, .inl h.2⟩

def traverseAll (visited above : List ObjectId) (fs : List Frame) :
    { t : Traversal // visited ⊆ t.visited } :=
  match fs with
  | [] => ⟨.empty visited, List.Subset.refl _⟩
  | f :: fs =>
    let first := traverse visited above f
    let later := traverseAll first.1.visited above fs
    ⟨first.1.append later.1, List.Subset.trans first.2 later.2⟩
termination_by ((c.unvisited visited).length, stackSize fs, 1)
decreasing_by
  · have := stackSize_cons f fs
    exact Prod.lex_def.2 (.inr ⟨rfl, Prod.lex_def.2 (by dsimp only; omega)⟩)
  · have hlt : stackSize fs < stackSize (f :: fs) := by
      have := PdfValue.size_pos f.node
      rw [stackSize_cons]
      omega
    -- The later frames may find more containers visited, or else there are fewer of them.
    rcases Nat.lt_or_eq_of_le (c.length_unvisited_le first.2) with h | h
    · exact Prod.lex_def.2 (.inl h)
    · exact Prod.lex_def.2 (.inr ⟨h, Prod.lex_def.2 (.inl hlt)⟩)

end

variable {c maxDepth} {visited above : List ObjectId} {f : Frame} {fs : List Frame}

theorem traverse_of_lt (h : maxDepth < f.depth) :
    (c.traverse maxDepth visited above f).1 =
      ⟨[], [f.finding (.depthLimit maxDepth)], visited⟩ := by
  rw [traverse, if_pos h]

abbrev traverseInside (c : Context) (maxDepth : ℕ) (visited above : List ObjectId) (f : Frame) :
    Traversal :=
  (c.traverseAll maxDepth (c.visit visited (f.below above)).visited
    (above ++ (c.entered visited (f.below above)).toList)
    (c.visit visited (f.below above)).children).1

theorem traverse_of_le (h : ¬ maxDepth < f.depth) :
    (c.traverse maxDepth visited above f).1 =
      ⟨c.annotation (f.below above) :: (c.traverseInside maxDepth visited above f).annotations,
        (c.visit visited (f.below above)).findings ++
          (c.traverseInside maxDepth visited above f).findings,
        (c.traverseInside maxDepth visited above f).visited⟩ := by
  rw [traverse, if_neg h, ← visit_annotation]

theorem traverseAll_nil :
    (c.traverseAll maxDepth visited above []).1 = .empty visited := by rw [traverseAll]

theorem traverseAll_cons :
    (c.traverseAll maxDepth visited above (f :: fs)).1 =
      (c.traverse maxDepth visited above f).1.append
        (c.traverseAll maxDepth (c.traverse maxDepth visited above f).1.visited above fs).1 := by
  rw [traverseAll]

/-- Induction along a traversal: over the values inside the one that is visited, and over the
values that follow it. -/
theorem traverse_induction (c : Context) (maxDepth : ℕ)
    (P : List ObjectId → List ObjectId → Frame → Prop)
    (Q : List ObjectId → List ObjectId → List Frame → Prop)
    (deep : ∀ visited above f, maxDepth < f.depth → P visited above f)
    (visit : ∀ visited above f, ¬ maxDepth < f.depth →
      Q (c.visit visited (f.below above)).visited
        (above ++ (c.entered visited (f.below above)).toList)
        (c.visit visited (f.below above)).children → P visited above f)
    (nil : ∀ visited above, Q visited above [])
    (cons : ∀ visited above f fs, P visited above f →
      Q (c.traverse maxDepth visited above f).1.visited above fs → Q visited above (f :: fs)) :
    (∀ visited above f, P visited above f) ∧ ∀ visited above fs, Q visited above fs :=
  traverse.mutual_induct c maxDepth P Q deep (fun visited above f h _ hq ↦ visit visited above f h hq)
    nil (fun visited above f fs hp _ hq ↦ cons visited above f fs hp hq)

/-- The walk over a stack takes off a value, and all that is inside it, as the traversal does, and
leaves the rest of the stack to the containers that are visited then. -/
theorem walk_traverse (c : Context) (maxDepth : ℕ) :
    (∀ visited above f, f.ancestors = above → ∀ rest,
      c.walk maxDepth visited (f :: rest) =
        let t := (c.traverse maxDepth visited above f).1
        t.followedBy (c.walk maxDepth t.visited rest)) ∧
    (∀ visited above fs, (∀ f ∈ fs, f.ancestors = above) → ∀ rest,
      c.walk maxDepth visited (fs ++ rest) =
        let t := (c.traverseAll maxDepth visited above fs).1
        t.followedBy (c.walk maxDepth t.visited rest)) := by
  refine traverse_induction c maxDepth _ _ ?deep ?visit ?nil ?cons
  case deep =>
    intro visited above f hd _ rest
    rw [walk, if_pos hd, traverse_of_lt hd]
    rfl
  case visit =>
    rintro visited _ f hd ih rfl rest
    let t := c.traverseInside maxDepth visited f.ancestors f
    have hi : c.walk maxDepth (c.visit visited f).visited ((c.visit visited f).children ++ rest) =
        t.followedBy (c.walk maxDepth t.visited rest) := by
      refine ih (fun g hg ↦ ?_) rest
      obtain ⟨i, hi⟩ := List.getElem?_of_mem hg
      exact (of_mem_visit_children hi).2.2.2.1
    rw [walk, if_neg hd, traverse_of_le hd]
    simp only [hi, visit_annotation, Traversal.followedBy, List.cons_append, List.append_assoc]
    rfl
  case nil =>
    intro visited above _ rest
    rw [traverseAll_nil]
    rfl
  case cons =>
    intro visited above f fs ihf ihfs ha rest
    rw [List.cons_append, ihf (ha f List.mem_cons_self), traverseAll_cons]
    simp only [Traversal.append_followedBy]
    rw [ihfs fun g hg ↦ ha g (List.mem_cons_of_mem _ hg)]
    rfl

theorem walk_root (c : Context) (maxDepth : ℕ) {f : Frame} (h : f.ancestors = []) :
    c.walk maxDepth [] [f] =
      ((c.traverse maxDepth [] [] f).1.annotations, (c.traverse maxDepth [] [] f).1.findings) := by
  have hnil (visited : List ObjectId) : c.walk maxDepth visited [] = ([], []) := by rw [walk]
  rw [(walk_traverse c maxDepth).1 [] [] f h []]
  simp only [hnil, Traversal.followedBy, List.append_nil]

end Context

end Match

open Match

def Schema.traverseDocument (s : Schema) (d : Document) (options : Options) : Report :=
  let root := d.rootObject options.rootObject
  let known := s.contains root
  let forced := if known then some root else none
  let t := ((Context.mk s d).traverse options.maxDepth [] [] (rootFrame d forced)).1
  let missing : List Finding :=
    if known then [] else [⟨"trailer", none, .missingRoot root⟩]
  ⟨forced, t.annotations, missing ++ t.findings⟩

/-- The walk over a stack reports the same annotations and the same findings as the recursive
traversal, both in the same order. -/
theorem Schema.matchDocument_eq_traverseDocument (s : Schema) (d : Document) (options : Options) :
    s.matchDocument d options = s.traverseDocument d options := by
  have h (root : Option String) :=
    (Context.mk s d).walk_root options.maxDepth (f := rootFrame d root) rfl
  simp only [matchDocument, traverseDocument, h]

end PdfSchema
