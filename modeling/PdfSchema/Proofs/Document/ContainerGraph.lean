import Mathlib.Logic.Relation
import PdfSchema.Document.Basic

namespace PdfSchema

open Relation

/-- Whether a reference to `ref` occurs in a value, at any depth of the containers in it. -/
inductive PdfValue.Holds (ref : ObjectId) : PdfValue → Prop
  | here : Holds ref (.reference ref)
  | inside {v : PdfValue} {e : String × PdfValue} :
      e ∈ v.children → Holds ref e.2 → Holds ref v

namespace Document

variable {d : Document} {v : PdfValue} {id : ObjectId}

/-- Whether a reference in `v` resolves to the indirect container `id`. -/
def Leads (d : Document) (v : PdfValue) (id : ObjectId) : Prop :=
  ∃ ref r, v.Holds ref ∧ d.resolve (.reference ref) = .ok r ∧ r.id = some id ∧
    r.value.kind.isContainer = true

def Links (d : Document) (u w : ObjectId) : Prop :=
  ∃ v, d.objects.get? u = some v ∧ v.kind.isContainer = true ∧ d.Leads v w

def Reached (d : Document) (id : ObjectId) : Prop :=
  ∃ u, d.Leads d.trailer u ∧ ReflTransGen d.Links u id

/-- Whether the part of the graph that can be reached from the trailer has a cycle. -/
def Cyclic (d : Document) : Prop := ∃ id, d.Reached id ∧ TransGen d.Links id id

theorem Reached.links {u w : ObjectId} (h : d.Reached u) (hl : d.Links u w) : d.Reached w := by
  obtain ⟨r, hr, hu⟩ := h
  exact ⟨r, hr, hu.tail hl⟩

theorem Leads.of_child {e : String × PdfValue} (he : e ∈ v.children) (h : d.Leads e.2 id) :
    d.Leads v id := by
  obtain ⟨ref, r, hh, hr⟩ := h
  exact ⟨ref, r, .inside he hh, hr⟩

theorem leads_iff_of_direct (hv : v.isReference = false) :
    d.Leads v id ↔ ∃ e ∈ v.children, d.Leads e.2 id := by
  constructor
  · rintro ⟨ref, r, hh, hr⟩
    cases hh with
    | here => cases hv
    | inside he hh => exact ⟨_, he, ref, r, hh, hr⟩
  · rintro ⟨e, he, h⟩
    exact h.of_child he

theorem leads_reference_iff {ref : ObjectId} :
    d.Leads (.reference ref) id ↔
      ∃ r, d.resolve (.reference ref) = .ok r ∧ r.id = some id ∧
        r.value.kind.isContainer = true := by
  constructor
  · rintro ⟨ref', r, hh, hr⟩
    cases hh with
    | here => exact ⟨r, hr⟩
    | inside he _ => cases he
  · rintro ⟨r, hr⟩
    exact ⟨ref, r, .here, hr⟩

end Document

end PdfSchema
