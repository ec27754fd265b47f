import PdfSchema.Row.Basic

namespace PdfSchema

def SchemaObject.linkNames (o : SchemaObject) : List String :=
  (o.values.flatMap Row.linkNames).eraseDups

namespace Schema

def successors (s : Schema) (name : String) : List String :=
  match s.get? name with
  | some o => SchemaObject.linkNames o
  | none => []

def unvisited (s : Schema) (visited : List String) : List String :=
  s.keys.filter fun name => !visited.contains name

theorem contains_iff_mem_keys (s : Schema) (name : String) :
    s.contains name = true ↔ name ∈ s.keys := by
  simp [KeyedList.contains, KeyedList.get?, KeyedList.keys, Pairs.get?, Pairs.keys]

theorem length_unvisited_lt {s : Schema} {visited : List String} {name : String}
    (hs : s.contains name = true) (hv : visited.contains name = false) :
    (s.unvisited (name :: visited)).length < (s.unvisited visited).length := by
  have hmem : name ∈ s.unvisited visited := by
    simp [unvisited, (contains_iff_mem_keys s name).1 hs] at hv ⊢
    exact hv
  have hsub : s.unvisited (name :: visited) = (s.unvisited visited).filter (· ≠ name) := by
    simp only [unvisited, List.filter_filter]
    apply List.filter_congr
    intro a _
    by_cases h : a = name <;> simp [h]
  rw [hsub]
  exact List.length_filter_lt_length_iff_exists.2 ⟨name, hmem, by simp⟩

/-- The objects among those in `queue` and those that they lead to, besides the ones in `visited`.
Names of no object are passed over. -/
def explore (s : Schema) (visited : List String) (queue : List String) : List String :=
  match queue with
  | [] => visited
  | name :: rest =>
    if _h : s.contains name && !visited.contains name then
      s.explore (name :: visited) (rest ++ s.successors name)
    else s.explore visited rest
termination_by ((s.unvisited visited).length, queue.length)
decreasing_by
  · simp only [Bool.and_eq_true, Bool.not_eq_true'] at _h
    exact Prod.Lex.left _ _ (length_unvisited_lt _h.1 _h.2)
  · exact Prod.Lex.right _ (by simp)

def reachable (s : Schema) (roots : List String) : List String := s.explore [] roots

/-- The objects that are neither roots nor reachable from one, in the order of their names. -/
def orphans (s : Schema) (roots : List String) : List String :=
  let reached := s.reachable roots
  (s.keys.filter fun name => !reached.contains name && !roots.contains name).mergeSort
    fun a b => a ≤ b

end Schema

end PdfSchema
