import Mathlib.Data.List.Chain
import PdfSchema.Proofs.Match.Stop

namespace PdfSchema

def Resolved.containerId? (r : Resolved) : Option ObjectId :=
  if r.value.kind.isContainer then r.id else none

namespace Document

variable {d : Document} {trail : List (String × Resolved)} {x y : String × Resolved}

def resolved (d : Document) (v : PdfValue) : Resolved :=
  match d.resolve v with
  | .ok r => r
  | .error _ => ⟨none, .null⟩

/-- Whether `y` is right inside `x`. Each is what a value stands for, beside its path. -/
def Below (d : Document) (x y : String × Resolved) : Prop :=
  ∃ e ∈ x.2.value.children, y = (Match.Context.childPath x.1 e.1, d.resolved e.2)

structure IsTrail (d : Document) (trail : List (String × Resolved)) : Prop where
  starts : trail.head? = some ("trailer", d.resolved d.trailer)
  descends : trail.IsChain d.Below

theorem isTrail_trailer (d : Document) : d.IsTrail [("trailer", d.resolved d.trailer)] :=
  ⟨rfl, .singleton _⟩

theorem IsTrail.snoc (h : d.IsTrail (trail ++ [x])) (hxy : d.Below x y) :
    d.IsTrail (trail ++ [x] ++ [y]) := by
  constructor
  · rw [List.head?_append, h.starts]
    rfl
  · refine List.isChain_append.2 ⟨h.descends, .singleton _, ?_⟩
    intro a ha b hb
    have hax : a = x := by simpa using ha.symm
    have hby : b = y := by simpa using hb.symm
    rw [hax, hby]
    exact hxy

end Document

namespace Match

/-- Whether a trail leads to the value of a frame, through the containers that were entered. -/
def Frame.OnTrail (f : Frame) (d : Document) : Prop :=
  ∃ trail, d.IsTrail (trail ++ [(f.path, d.resolved f.node)]) ∧
    f.ancestors = trail.filterMap fun x ↦ x.2.containerId?

namespace Context

variable {c : Context} {visited : List ObjectId} {f g : Frame}

theorem target_eq_resolved (c : Context) (f : Frame) :
    c.target f = c.document.resolved f.node := rfl

theorem entered_of_enters (h : c.enters visited f = true) :
    c.entered visited f = (c.target f).containerId? := by
  have hk : (c.target f).value.kind.isContainer = true := (enters_iff.1 h).1
  rw [entered, if_pos h, Resolved.containerId?, if_pos hk]

theorem path_of_mem_visit_children (h : g ∈ (c.visit visited f).children) :
    g.path = childPath f.path g.key := by
  obtain ⟨i, hi⟩ := List.getElem?_of_mem h
  obtain ⟨he, hs, _⟩ := of_mem_visit_children hi
  rw [visit_children he hs] at h
  obtain ⟨x, _, rfl⟩ := List.mem_map.1 h
  rfl

theorem onTrail_of_mem_visit_children (hf : f.OnTrail c.document)
    (h : g ∈ (c.visit visited f).children) : g.OnTrail c.document := by
  obtain ⟨trail, htrail, habove⟩ := hf
  obtain ⟨i, hi⟩ := List.getElem?_of_mem h
  obtain ⟨he, _, hchild, hancestors, _⟩ := of_mem_visit_children hi
  have hbelow : c.document.Below (f.path, c.document.resolved f.node)
      (g.path, c.document.resolved g.node) := by
    refine ⟨(g.key, g.node), List.mem_of_getElem? hchild, ?_⟩
    rw [path_of_mem_visit_children h]
  refine ⟨trail ++ [(f.path, c.document.resolved f.node)], htrail.snoc hbelow, ?_⟩
  have hlast : [(f.path, c.document.resolved f.node)].filterMap (fun x ↦ x.2.containerId?) =
      (c.target f).containerId?.toList := by
    rw [target_eq_resolved]
    cases hid : (c.document.resolved f.node).containerId? <;> simp [hid]
  rw [hancestors, habove, entered_of_enters he, List.filterMap_append, hlast]

end Context

theorem onTrail_rootFrame (d : Document) (root : Option String) :
    (rootFrame d root).OnTrail d := ⟨[], d.isTrail_trailer, rfl⟩

end Match

end PdfSchema
