import Mathlib
import PdfSchema.Proofs.Match.Lookup
import PdfSchema.Proofs.Match.Stop
import PdfSchema.Proofs.Schema.Search

namespace PdfSchema

theorem Schema.linksTo_of_offers {s : Schema} {a b : String} {object : SchemaObject} {row : Row}
    {i : Nat} (hget : s.get? a = some object) (hrow : row ∈ KeyedList.values object)
    (h : Match.Offers s row i b) : s.LinksTo a b ∧ b ∈ s.keys := by
  obtain ⟨target, htarget, hname, hkey⟩ := h
  have hlink : target ∈ row.links := Row.mem_links_iff.2 ⟨i, htarget⟩
  have hmem : b ∈ row.linkNames := List.mem_filterMap.2 ⟨target, hlink, hname⟩
  exact ⟨⟨object, hget, row, hrow, hmem⟩, hkey⟩

namespace Match

/-- Whether the search from `roots` finds all that a frame takes from the schema: its objects, and
one that its row belongs to. -/
structure Frame.Found (f : Frame) (s : Schema) (roots : List String) : Prop where
  object : ∀ name, f.object = some name → name ∈ s.reachable roots
  forced : ∀ name, f.forced = some name → name ∈ s.reachable roots
  row : ∀ row, f.row = some row → ∃ name object, name ∈ s.reachable roots ∧
    s.get? name = some object ∧ row ∈ KeyedList.values object

namespace Context

variable {c : Context} {visited : List ObjectId} {f g : Frame} {name : String}
  {roots : List String}

theorem link_annotation (h : (c.annotation f).link = some name) :
    f.forced = some name ∨ ∃ row i, f.row = some row ∧ Offers c.schema row i name := by
  simp only [Context.annotation, annotate] at h
  split at h
  · rename_i hforced
    exact .inl (h ▸ hforced)
  · rename_i row i _ _ hrow _
    exact .inr ⟨row, i, hrow, offers_of_chooseLink h⟩
  · cases h

theorem mem_reachable_of_link (hf : f.Found c.schema roots)
    (h : (c.annotation f).link = some name) : name ∈ c.schema.reachable roots := by
  rcases link_annotation h with hforced | ⟨row, i, hrow, hoffers⟩
  · exact hf.forced name hforced
  · obtain ⟨above, object, habove, hget, hmem⟩ := hf.row row hrow
    obtain ⟨hlink, hkey⟩ := Schema.linksTo_of_offers hget hmem hoffers
    exact Schema.mem_reachable_of_linksTo habove hlink hkey

theorem layout_eq_some {link : Option String} {object : SchemaObject}
    (h : c.layout link = some (name, object)) :
    link = some name ∧ c.schema.get? name = some object := by
  obtain ⟨name', hlink, h⟩ := Option.bind_eq_some_iff.1 h
  obtain ⟨object', hget, h⟩ := Option.bind_eq_some_iff.1 h
  cases h
  exact ⟨hlink, hget⟩

theorem mem_childFrames {layout : Option (String × SchemaObject)} {above : List ObjectId}
    {v : PdfValue}
    (h : g ∈ childFrames f (layout.map Prod.fst) (layout.map Prod.snd) above v) :
    g.forced = none ∧ g.object = layout.map Prod.fst ∧
      ∀ row, g.row = some row → ∃ name object, layout = some (name, object) ∧
        row ∈ KeyedList.values object := by
  obtain ⟨⟨⟨key, node⟩, row, cls⟩, hx, rfl⟩ := List.mem_map.1 h
  refine ⟨rfl, rfl, ?_⟩
  rintro _ rfl
  cases layout with
  | none => cases row_eq_none_of_lookups hx
  | some layout => exact ⟨layout.1, layout.2, rfl, mem_values_of_lookups hx rfl⟩

theorem found_of_mem_visit_children (hf : f.Found c.schema roots)
    (h : g ∈ (c.visit visited f).children) : g.Found c.schema roots := by
  obtain ⟨i, hi⟩ := List.getElem?_of_mem h
  obtain ⟨he, hs, _⟩ := of_mem_visit_children hi
  rw [visit_children he hs] at h
  obtain ⟨hforced, hobject, hrow⟩ := mem_childFrames h
  constructor
  case object =>
    intro name hname
    obtain ⟨layout, hlayout, rfl⟩ := Option.map_eq_some_iff.1 (hobject.symm.trans hname)
    exact mem_reachable_of_link hf (layout_eq_some hlayout).1
  case forced =>
    intro name hname
    rw [hforced] at hname
    cases hname
  case row =>
    intro row hr
    obtain ⟨name, object, hlayout, hmem⟩ := hrow row hr
    obtain ⟨hlink, hget⟩ := layout_eq_some hlayout
    exact ⟨name, object, mem_reachable_of_link hf hlink, hget, hmem⟩

end Context

/-- Whether an annotation names an object of the schema: the one that the key was looked up in, or
the one that lays out the value. -/
def Annotation.Applies (a : Annotation) (name : String) : Prop :=
  a.object = some name ∨ a.link = some name

end Match

open Match

namespace Schema

variable {s : Schema} {d : Document} {options : Options}

theorem found_rootFrame (s : Schema) (d : Document) (options : Options) :
    (rootFrame d (s.matchDocument d options).rootObject).Found s
      [d.rootObject options.rootObject] := by
  constructor
  case object =>
    intro name hname
    cases hname
  case forced =>
    intro name hname
    have hroot : (if s.contains (d.rootObject options.rootObject) then
        some (d.rootObject options.rootObject) else none) = some name := hname
    split at hroot
    · rename_i hknown
      cases hroot
      have hk := (contains_iff_mem_keys s _).1 hknown
      exact mem_reachable_of_mem_roots List.mem_cons_self hk
    · cases hroot
  case row =>
    intro row hrow
    cases hrow

theorem found_of_mem_stops {t : Stop} (ht : t ∈ s.stops d options) :
    t.frame.Found s [d.rootObject options.rootObject] := by
  refine Context.stops_forall
    (P := fun _ f ↦ f.Found s [d.rootObject options.rootObject]) ?_ ?_ t ht
  · intro visited p f hf x hx
    obtain ⟨i, hi, _⟩ := Context.mem_locate.1 hx
    exact Context.found_of_mem_visit_children hf (List.mem_of_getElem? hi)
  · intro x hx
    rw [List.mem_singleton.1 hx]
    exact found_rootFrame s d options

theorem mem_reachable_of_applies {a : Annotation} {name : String}
    (ha : a ∈ (s.matchDocument d options).annotations) (h : a.Applies name) :
    name ∈ s.reachable [d.rootObject options.rootObject] := by
  obtain ⟨t, ht, hat⟩ := mem_annotations_iff.1 ha
  have hfound := found_of_mem_stops ht
  unfold Context.annotationsAt at hat
  split at hat
  · cases hat
  · rw [List.mem_singleton.1 hat] at h
    rcases h with h | h
    · exact hfound.object name h
    · exact Context.mem_reachable_of_link hfound h

/-- Each object that a walk applies can be reached from the one of the trailer, so that it is no
orphan of it. -/
theorem reachable_of_applied {a : Annotation} {name : String}
    (ha : a ∈ (s.matchDocument d options).annotations) (h : a.Applies name) :
    name ∈ s.reachable [d.rootObject options.rootObject] ∧
      name ∉ s.orphans [d.rootObject options.rootObject] := by
  have hreached := mem_reachable_of_applies ha h
  exact ⟨hreached, fun horphan ↦ (mem_orphans_iff.1 horphan).2.1 hreached⟩

def dictionaryRow (names : List String) : Row where
  types := [.named "dictionary"]
  sinceVersion := .version "1.0"
  deprecatedIn := none
  required := [.literal false]
  indirectReference := [.literal false]
  inheritable := .literal false
  defaultValue := none
  possibleValues := none
  specialCase := none
  link := some [some (names.map .object)]
  note := none

def catalogSchema : Schema :=
  (((KeyedList.empty.put "FileTrailer" (KeyedList.empty.put "Root" (dictionaryRow ["Catalog"]))).put
    "Catalog" (KeyedList.empty.put "*" (dictionaryRow ["Leaf", "Node"]))).put
    "Node" (KeyedList.empty.put "Kids" (dictionaryRow ["Node"]))).put "Leaf" .empty

def catalogDocument : Document where
  trailer := .dictionary [("Root", .reference ⟨1, 0⟩)]
  objects := KeyedList.empty.put ⟨1, 0⟩ (.dictionary [("Pages", .dictionary [("Kids", .null)])])

theorem catalogSchema_node_reachable :
    ∃ a ∈ (catalogSchema.matchDocument catalogDocument {}).annotations, a.Applies "Node" ∧
      "Node" ∈ catalogSchema.reachable [catalogDocument.rootObject none] ∧
      "Node" ∉ catalogSchema.orphans [catalogDocument.rootObject none] := by
  have hlinks : (catalogSchema.matchDocument catalogDocument {}).annotations.map
      (fun a ↦ (a.object, a.link)) = [(none, some "FileTrailer"),
        (some "FileTrailer", some "Catalog"), (some "Catalog", some "Node"), (some "Node", none)] := by
    cbv
  have hmem : (some "Catalog", some "Node") ∈
      (catalogSchema.matchDocument catalogDocument {}).annotations.map
        (fun a ↦ (a.object, a.link)) := by
    rw [hlinks]
    exact List.mem_cons_of_mem _ (List.mem_cons_of_mem _ List.mem_cons_self)
  obtain ⟨a, ha, he⟩ := List.mem_map.1 hmem
  have happlies : a.Applies "Node" := .inr (congrArg Prod.snd he)
  exact ⟨a, ha, happlies, reachable_of_applied ha happlies⟩

end Schema

end PdfSchema
