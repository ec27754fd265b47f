import PdfSchema.Match.Visit

namespace PdfSchema.Match

def stackSize (stack : List Frame) : Nat := PdfValue.sizeItems (stack.map Frame.node)

theorem stackSize_append (a b : List Frame) : stackSize (a ++ b) = stackSize a + stackSize b := by
  simp only [stackSize, List.map_append, PdfValue.sizeItems_append]

namespace Context

variable (c : Context)

def unvisited (visited : List ObjectId) : List ObjectId :=
  c.document.objects.keys.filter fun id => !visited.contains id

theorem length_unvisited_lt {visited : List ObjectId} {id : ObjectId}
    (hk : id ∈ c.document.objects.keys) (hv : visited.contains id = false) :
    (c.unvisited (id :: visited)).length < (c.unvisited visited).length := by
  have hmem : id ∈ c.unvisited visited := List.mem_filter.2 ⟨hk, by simpa using hv⟩
  have hsub : c.unvisited (id :: visited) = (c.unvisited visited).filter (· ≠ id) := by
    simp only [unvisited, List.filter_filter]
    apply List.filter_congr
    intro a _
    by_cases h : a = id <;> simp [h]
  rw [hsub]
  exact List.length_filter_lt_length_iff_exists.2 ⟨id, hmem, by simp⟩

theorem sizeItems_lookups (object : Option SchemaObject) (v : PdfValue) :
    PdfValue.sizeItems ((lookups object v).map fun l => l.1.2) < v.size := by
  cases v <;>
    simp [lookups, PdfValue.children, PdfValue.size, PdfValue.sizeEntries_eq,
      PdfValue.sizeItems, Function.comp_def]

theorem stackSize_enter_lt (f : Frame) (a : Annotation) (v : PdfValue) :
    stackSize (c.enter f a v).2 < v.size := by
  unfold enter
  split
  iterate 4 exact PdfValue.size_pos v
  simp only [stackSize, childFrames, List.map_map, Function.comp_def]
  exact sizeItems_lookups _ v

theorem target_cases (f : Frame) :
    ((c.target f).id = none ∧ (c.target f).value = f.node) ∨
    ((c.target f).id = none ∧ (c.target f).value = .null) ∨
    ∃ id, (c.target f).id = some id ∧ id ∈ c.document.objects.keys := by
  unfold target
  split
  · rename_i r h
    rcases Document.resolve_eq_ok h with ⟨_, rfl⟩ | ⟨_, id, hid, hv⟩
    · exact .inl ⟨rfl, rfl⟩
    · exact .inr (.inr ⟨id, hid, KeyedList.mem_keys_of_get?_eq_some hv⟩)
  · exact .inr (.inl ⟨rfl, rfl⟩)

/-- A visit leaves less to do: it takes the frame off without entering anything, or what it puts on
is smaller, or it enters an object for the first time. -/
theorem visit_decreases (visited : List ObjectId) (f : Frame) (rest : List Frame) :
    Prod.Lex (· < ·) (· < ·)
      ((c.unvisited (c.visit visited f).visited).length,
        stackSize ((c.visit visited f).children ++ rest))
      ((c.unvisited visited).length, stackSize (f :: rest)) := by
  have hcons : stackSize (f :: rest) = f.node.size + stackSize rest := rfl
  have hpos := PdfValue.size_pos f.node
  have popped : Prod.Lex (· < ·) (· < ·) ((c.unvisited visited).length, stackSize ([] ++ rest))
      ((c.unvisited visited).length, stackSize (f :: rest)) := by
    refine Prod.Lex.right _ ?_
    rw [List.nil_append, hcons]
    omega
  unfold visit
  simp only
  split
  · exact popped
  · rename_i hkind
    split
    · rename_i id hid
      split
      · exact popped
      · rename_i hv
        refine Prod.Lex.left _ _ (c.length_unvisited_lt ?_ (by simpa using hv))
        rcases c.target_cases f with h | h | ⟨id', h, hk⟩
        · simp [hid] at h
        · simp [hid] at h
        · rw [hid] at h
          exact (Option.some.inj h) ▸ hk
    · rename_i hid
      refine Prod.Lex.right _ ?_
      rw [stackSize_append, hcons]
      have hlt := c.stackSize_enter_lt f (c.annotate f (c.target f)) (c.target f).value
      rcases c.target_cases f with ⟨_, h⟩ | ⟨_, h⟩ | ⟨id', h, _⟩
      · rw [h] at hlt ⊢
        simp only
        omega
      · simp [h, PdfValue.kind, PdfValue.Kind.isContainer] at hkind
      · simp [hid] at h

/-- Visits the frames of a stack and all that they lead to, down to `maxDepth` keys below the
trailer. -/
def walk (maxDepth : Nat) (visited : List ObjectId) (stack : List Frame) :
    List Annotation × List Finding :=
  match stack with
  | [] => ([], [])
  | f :: rest =>
    if maxDepth < f.depth then
      let later := walk maxDepth visited rest
      (later.1, f.finding (.depthLimit maxDepth) :: later.2)
    else
      let v := c.visit visited f
      let later := walk maxDepth v.visited (v.children ++ rest)
      (v.annotation :: later.1, v.findings ++ later.2)
termination_by ((c.unvisited visited).length, stackSize stack)
decreasing_by
  · refine Prod.Lex.right _ ?_
    have hpos := PdfValue.size_pos f.node
    simp only [stackSize, List.map_cons, PdfValue.sizeItems]
    omega
  · exact c.visit_decreases visited f rest

end Context

structure Options where
  rootObject : Option String := none
  maxDepth : Nat := defaultMaxDepth

def rootFrame (d : Document) (root : Option String) : Frame :=
  { node := d.trailer
    path := "trailer"
    key := "trailer"
    object := none
    row := none
    cls := if root.isSome then .declared else .unmatched
    forced := root
    depth := 0
    ancestors := [] }

end Match

open Match in
def Schema.matchDocument (s : Schema) (d : Document) (options : Options) : Report :=
  let root := d.rootObject options.rootObject
  let known := s.contains root
  let forced := if known then some root else none
  let walked := (Context.mk s d).walk options.maxDepth [] [rootFrame d forced]
  let missing : List Finding :=
    if known then [] else [⟨"trailer", none, .missingRoot root⟩]
  ⟨forced, walked.1, missing ++ walked.2⟩

end PdfSchema
