import Mathlib.Data.List.Perm.Basic
import PdfSchema.Export
import PdfSchema.Proofs.Document.Reordering

namespace PdfSchema

section

variable {α β γ δ : Type} {R S : α → β → Prop} {l : List α} {m : List β}

theorem forall₂_imp_of_mem (h : List.Forall₂ R l m) (hRS : ∀ a ∈ l, ∀ b ∈ m, R a b → S a b) :
    List.Forall₂ S l m := by
  rw [List.forall₂_iff_zip] at h ⊢
  refine ⟨h.1, fun {a b} hab ↦ ?_⟩
  obtain ⟨ha, hb⟩ := List.of_mem_zip hab
  exact hRS a ha b hb (h.2 hab)

theorem forall₂_and_iff : List.Forall₂ (fun a b ↦ R a b ∧ S a b) l m ↔
    List.Forall₂ R l m ∧ List.Forall₂ S l m := by
  simp only [List.forall₂_iff_zip]
  grind

theorem map_eq_map_iff_forall₂ {f : α → γ} {g : β → γ} :
    l.map f = m.map g ↔ List.Forall₂ (fun a b ↦ f a = g b) l m := by
  rw [← List.forall₂_eq_eq_eq, List.forall₂_map_left_iff, List.forall₂_map_right_iff]

theorem UpToOrder.imp_of_mem (h : UpToOrder R l m) (hRS : ∀ a ∈ l, ∀ b ∈ m, R a b → S a b) :
    UpToOrder S l m := by
  obtain ⟨l', hl, hperm⟩ := h
  exact ⟨l', forall₂_imp_of_mem hl fun a ha b hb ↦ hRS a ha b (hperm.mem_iff.1 hb), hperm⟩

theorem UpToOrder.of_map {R : γ → δ → Prop} {f : α → γ} {g : β → δ}
    (h : UpToOrder R (l.map f) (m.map g)) : UpToOrder (fun a b ↦ R (f a) (g b)) l m := by
  obtain ⟨l', hl, hperm⟩ := h
  have hmap : List.Forall₂ (fun d b ↦ d = g b) (m.map g) m := by
    rw [List.forall₂_map_left_iff]
    exact List.forall₂_same.2 fun _ _ ↦ rfl
  obtain ⟨m', hm', hperm'⟩ := List.perm_comp_forall₂ hperm hmap
  obtain rfl : l' = m'.map g := by simpa using map_eq_map_iff_forall₂ (f := id).2 hm'
  rw [List.forall₂_map_left_iff, List.forall₂_map_right_iff] at hl
  exact ⟨m', hl, hperm'⟩

def UnderSameKey (R : α → β → Prop) (p : String × α) (q : String × β) : Prop :=
  p.1 = q.1 ∧ R p.2 q.2

end

namespace Json

/-- Whether a value becomes another one when the members of the objects in it are put in other
orders, however deep they stand. -/
inductive Reordered : Json → Json → Prop
  | refl (j : Json) : Reordered j j
  | array {as bs : List Json} (hitems : List.Forall₂ Reordered as bs) :
      Reordered (.array as) (.array bs)
  | object {ms ns ns' : List (String × Json)} (hkeys : ms.map Prod.fst = ns.map Prod.fst)
      (hvalues : List.Forall₂ Reordered (ms.map Prod.snd) (ns.map Prod.snd)) (hperm : ns.Perm ns') :
      Reordered (.object ms) (.object ns')

variable {α : Type} {R : α → α → Prop} {f : α → Json} {as bs : List α} {o o' : Option α}
  {ms ns : List (String × Json)} {j : Json}

theorem reordered_array_iff {js ks : List Json} :
    Reordered (.array js) (.array ks) ↔ List.Forall₂ Reordered js ks := by
  constructor
  · intro h
    cases h with
    | refl => exact List.forall₂_same.2 fun j _ ↦ .refl j
    | array hitems => exact hitems
  · exact .array

theorem reordered_object_iff :
    Reordered (.object ms) (.object ns) ↔ UpToOrder (UnderSameKey Reordered) ms ns := by
  constructor
  · intro h
    cases h with
    | refl => exact .of_forall₂ (List.forall₂_same.2 fun m _ ↦ ⟨rfl, .refl m.2⟩)
    | @object _ ns' _ hkeys hvalues hperm =>
      rw [map_eq_map_iff_forall₂] at hkeys
      rw [List.forall₂_map_left_iff, List.forall₂_map_right_iff] at hvalues
      exact ⟨ns', forall₂_and_iff.2 ⟨hkeys, hvalues⟩, hperm⟩
  · rintro ⟨ns', hmembers, hperm⟩
    obtain ⟨hkeys, hvalues⟩ := forall₂_and_iff.1 hmembers
    refine .object (map_eq_map_iff_forall₂.2 hkeys) ?_ hperm
    rwa [List.forall₂_map_left_iff, List.forall₂_map_right_iff]

theorem Reordered.eq_null_left (h : Reordered .null j) : j = .null := by
  cases h
  rfl

theorem Reordered.eq_null_right (h : Reordered j .null) : j = .null := by
  cases h
  rfl

end Json

end PdfSchema
