import Mathlib.Logic.Function.Iterate
import PdfSchema.Proofs.Match.Stop

namespace PdfSchema

namespace Match

structure LoopState where
  stack : List Frame
  visited : List ObjectId
  annotations : List Annotation
  findings : List Finding

def LoopState.start (f : Frame) : LoopState := ⟨[f], [], [], []⟩

namespace Context

/-- One turn of the loop, which does nothing once the stack is empty. -/
def turn (c : Context) (maxDepth : ℕ) (l : LoopState) : LoopState :=
  match l.stack with
  | [] => l
  | f :: rest =>
    if maxDepth < f.depth then
      { l with stack := rest, findings := l.findings ++ [f.finding (.depthLimit maxDepth)] }
    else
      let v := c.visit l.visited f
      { stack := v.children ++ rest
        visited := v.visited
        annotations := l.annotations ++ [v.annotation]
        findings := l.findings ++ v.findings }

variable {c : Context} {maxDepth : ℕ} {visited : List ObjectId}

theorem turn_of_lt (p : Place) {f : Frame} (h : maxDepth < f.depth) (rest : List Frame)
    (as : List Annotation) (fs : List Finding) :
    c.turn maxDepth ⟨f :: rest, visited, as, fs⟩ =
      ⟨rest, visited, as ++ c.annotationsAt maxDepth ⟨p, f, visited⟩,
        fs ++ c.findingsAt maxDepth ⟨p, f, visited⟩⟩ := by
  simp only [turn, annotationsAt, findingsAt, if_pos h, List.append_nil]

theorem turn_of_le (p : Place) {f : Frame} (h : ¬ maxDepth < f.depth) (rest : List Frame)
    (as : List Annotation) (fs : List Finding) :
    c.turn maxDepth ⟨f :: rest, visited, as, fs⟩ =
      ⟨(c.visit visited f).children ++ rest, (c.visit visited f).visited,
        as ++ c.annotationsAt maxDepth ⟨p, f, visited⟩,
        fs ++ c.findingsAt maxDepth ⟨p, f, visited⟩⟩ := by
  simp only [turn, annotationsAt, findingsAt, if_neg h, visit_annotation]

theorem head?_iterate_turn (c : Context) (maxDepth : ℕ) (visited : List ObjectId)
    (stack : List (Place × Frame)) : ∀ (n : ℕ) (as : List Annotation) (fs : List Finding),
    ((c.turn maxDepth)^[n] ⟨stack.map Prod.snd, visited, as, fs⟩).stack.head? =
      (c.stops maxDepth visited stack)[n]?.map Stop.frame := by
  fun_induction stops c maxDepth visited stack with
  | case1 visited =>
    intro n as fs
    have hfix : c.turn maxDepth ⟨[], visited, as, fs⟩ = ⟨[], visited, as, fs⟩ := rfl
    rw [List.map_nil, Function.iterate_fixed hfix]
    rfl
  | case2 visited p f rest hd ih =>
    intro n as fs
    cases n with
    | zero => rfl
    | succ n =>
      rw [List.map_cons, Function.iterate_succ_apply, turn_of_lt p hd, ih]
      rfl
  | case3 visited p f rest hd v ih =>
    intro n as fs
    cases n with
    | zero => rfl
    | succ n =>
      rw [List.map_cons, Function.iterate_succ_apply, turn_of_le p hd]
      rw [List.getElem?_cons_succ, ← ih, List.map_append, map_snd_locate]

/-- After as many turns as there are stops nothing is left on the stack, and all that there is to
report is reported. -/
theorem iterate_turn_stops (c : Context) (maxDepth : ℕ) (visited : List ObjectId)
    (stack : List (Place × Frame)) : ∀ (as : List Annotation) (fs : List Finding),
    ∃ visited', (c.turn maxDepth)^[(c.stops maxDepth visited stack).length]
        ⟨stack.map Prod.snd, visited, as, fs⟩ =
      ⟨[], visited', as ++ (c.stops maxDepth visited stack).flatMap (c.annotationsAt maxDepth),
        fs ++ (c.stops maxDepth visited stack).flatMap (c.findingsAt maxDepth)⟩ := by
  fun_induction stops c maxDepth visited stack with
  | case1 visited =>
    intro as fs
    refine ⟨visited, ?_⟩
    simp only [List.length_nil, Function.iterate_zero, id_eq, List.map_nil, List.flatMap_nil,
      List.append_nil]
  | case2 visited p f rest hd ih =>
    intro as fs
    obtain ⟨visited', h⟩ := ih (as ++ c.annotationsAt maxDepth ⟨p, f, visited⟩)
      (fs ++ c.findingsAt maxDepth ⟨p, f, visited⟩)
    refine ⟨visited', ?_⟩
    rw [List.length_cons, Function.iterate_succ_apply, List.map_cons, turn_of_lt p hd, h]
    simp only [List.flatMap_cons, List.append_assoc]
  | case3 visited p f rest hd v ih =>
    intro as fs
    obtain ⟨visited', h⟩ := ih (as ++ c.annotationsAt maxDepth ⟨p, f, visited⟩)
      (fs ++ c.findingsAt maxDepth ⟨p, f, visited⟩)
    refine ⟨visited', ?_⟩
    rw [List.map_append, map_snd_locate] at h
    rw [List.length_cons, Function.iterate_succ_apply, List.map_cons, turn_of_le p hd, h]
    simp only [List.flatMap_cons, List.append_assoc]

end Context

end Match

open Match

namespace Schema

variable (s : Schema) (d : Document) (options : Options)

def loop (n : ℕ) : LoopState :=
  ((Context.mk s d).turn options.maxDepth)^[n]
    (.start (rootFrame d (s.matchDocument d options).rootObject))

theorem head?_loop (n : ℕ) :
    (s.loop d options n).stack.head? = (s.stops d options)[n]?.map Stop.frame :=
  Context.head?_iterate_turn ⟨s, d⟩ options.maxDepth [] [(.trailer, _)] n [] []

theorem loop_length_stops :
    (s.loop d options (s.stops d options).length).stack = [] ∧
      (s.matchDocument d options).annotations =
        (s.loop d options (s.stops d options).length).annotations ∧
      (s.matchDocument d options).findings =
        s.rootFindings d options ++ (s.loop d options (s.stops d options).length).findings := by
  have h : ∃ visited, s.loop d options (s.stops d options).length =
      ⟨[], visited, [] ++ (s.stops d options).flatMap _, [] ++ (s.stops d options).flatMap _⟩ :=
    Context.iterate_turn_stops ⟨s, d⟩ options.maxDepth [] [(.trailer, _)] [] []
  obtain ⟨visited, h⟩ := h
  rw [h, matchDocument_eq_stops]
  exact ⟨rfl, rfl, rfl⟩

end Schema

end PdfSchema
