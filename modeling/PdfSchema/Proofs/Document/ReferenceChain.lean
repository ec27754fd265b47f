import Mathlib.Data.List.Perm.Subperm
import PdfSchema.Document.Basic

namespace PdfSchema.Document

/-- References to `ids`, followed one after the other, lead from a value to another one. -/
inductive Chain (d : Document) : PdfValue → List ObjectId → PdfValue → Prop
  | nil (v : PdfValue) : Chain d v [] v
  | cons {id : ObjectId} {ids : List ObjectId} {v w : PdfValue} (hv : d.objects.get? id = some v)
      (h : Chain d v ids w) : Chain d (.reference id) (id :: ids) w

def Dangles (d : Document) (v : PdfValue) (id : ObjectId) : Prop :=
  ∃ ids, d.Chain v ids (.reference id) ∧ d.objects.get? id = none

def NeverEnds (d : Document) (v : PdfValue) : Prop := ∀ n, ∃ ids w, ids.length = n ∧ d.Chain v ids w

def Final (d : Document) (v : PdfValue) : Prop := ∀ id, v = .reference id → d.objects.get? id = none

variable {d : Document} {u v w : PdfValue} {id : ObjectId} {ids ids' : List ObjectId}

theorem final_of_direct (h : v.isReference = false) : d.Final v := by
  rintro id rfl
  cases h

theorem final_reference (h : d.objects.get? id = none) : d.Final (.reference id) := by
  intro id' he
  cases he
  exact h

theorem Final.cases (h : d.Final v) :
    v.isReference = false ∨ ∃ id, v = .reference id ∧ d.objects.get? id = none := by
  cases v with
  | reference id => exact .inr ⟨id, rfl, h id rfl⟩
  | _ => exact .inl rfl

namespace Chain

theorem append (h : d.Chain v ids w) (h' : d.Chain w ids' u) : d.Chain v (ids ++ ids') u := by
  induction h with
  | nil => exact h'
  | cons hv _ ih => exact .cons hv (ih h')

theorem of_append (h : d.Chain v (ids ++ ids') u) :
    ∃ w, d.Chain v ids w ∧ d.Chain w ids' u := by
  induction ids generalizing v with
  | nil => exact ⟨v, .nil v, h⟩
  | cons id ids ih =>
    cases h with
    | cons hv h =>
      obtain ⟨w, hw, hu⟩ := ih h
      exact ⟨w, .cons hv hw, hu⟩

theorem subset_keys (h : d.Chain v ids w) : ids ⊆ d.objects.keys := by
  induction h with
  | nil => simp
  | cons hv _ ih =>
    apply List.cons_subset.2
    exact ⟨KeyedList.mem_keys_of_get?_eq_some hv, ih⟩

theorem isPrefix (h : d.Chain v ids w) (hw : d.Final w) (h' : d.Chain v ids' u) :
    ids' <+: ids := by
  induction h' generalizing ids with
  | nil => exact List.nil_prefix
  | @cons id ids' x u hx _ ih =>
    cases h with
    | nil => simp [hw id rfl] at hx
    | cons hv h =>
      cases hv.symm.trans hx
      apply List.prefix_cons_inj id |>.2
      exact ih h

/-- A chain that ends does not come to one id twice, since it would go on from there in the same
way. -/
theorem nodup (h : d.Chain v ids w) (hw : d.Final w) : ids.Nodup := by
  induction h with
  | nil => exact List.nodup_nil
  | @cons id ids v w hv h ih =>
    refine List.nodup_cons.2 ⟨fun hid ↦ ?_, ih hw⟩
    obtain ⟨before, after, rfl⟩ := List.append_of_mem hid
    obtain ⟨x, -, hx⟩ := h.of_append
    have hend : d.Chain (.reference id) (id :: after) w := by
      cases hx with
      | cons hv' h' => exact .cons hv' h'
    have hlen := (hend.isPrefix hw (.cons hv h)).length_le
    simp at hlen
    omega

theorem length_le (h : d.Chain v ids w) (hw : d.Final w) : ids.length ≤ d.objects.size := by
  have hle := ((h.nodup hw).subperm h.subset_keys).length_le
  rwa [KeyedList.keys, Pairs.keys, List.length_map] at hle

theorem follow_eq (h : d.Chain v ids w) (steps : ℕ) (last : Option ObjectId) :
    d.follow (ids.length + steps) last v = d.follow steps (ids.getLast?.or last) w := by
  induction h generalizing last with
  | nil => simp
  | @cons id ids v w hv _ ih =>
    have hstep : (id :: ids).length + steps = ids.length + steps + 1 := by
      simp only [List.length_cons]
      omega
    rw [hstep, follow, hv]
    simp only [ih]
    cases ids <;> simp [List.getLast?_cons]

theorem resolve_eq (h : d.Chain v ids w) (hw : d.Final w) :
    ∃ steps, d.resolve v = d.follow (steps + 1) ids.getLast? w := by
  obtain ⟨steps, hsteps⟩ := Nat.exists_eq_add_of_le (h.length_le hw)
  refine ⟨steps, ?_⟩
  rw [resolve, hsteps, Nat.add_assoc, h.follow_eq, Option.or_none]

theorem resolve_eq_ok (h : d.Chain v ids w) (hw : w.isReference = false) :
    d.resolve v = .ok ⟨ids.getLast?, w⟩ := by
  obtain ⟨steps, hr⟩ := h.resolve_eq (final_of_direct hw)
  rw [hr, d.follow_of_direct _ _ hw]

theorem resolve_eq_error (h : d.Chain v ids (.reference id)) (hid : d.objects.get? id = none) :
    d.resolve v = .error id := by
  obtain ⟨steps, hr⟩ := h.resolve_eq (final_reference hid)
  rw [hr, follow, hid]

theorem not_neverEnds (h : d.Chain v ids w) (hw : d.Final w) : ¬ d.NeverEnds v := by
  intro hn
  obtain ⟨ids', u, hlen, h'⟩ := hn (ids.length + 1)
  have hle := (h.isPrefix hw h').length_le
  omega

end Chain

theorem exists_final_or_neverEnds (d : Document) (v : PdfValue) :
    (∃ ids w, d.Chain v ids w ∧ d.Final w) ∨ d.NeverEnds v := by
  by_cases hf : ∃ ids w, d.Chain v ids w ∧ d.Final w
  · exact .inl hf
  right
  intro n
  induction n with
  | zero => exact ⟨[], v, rfl, .nil v⟩
  | succ n ih =>
    obtain ⟨ids, w, hlen, h⟩ := ih
    have hw : ¬ d.Final w := fun hw ↦ hf ⟨ids, w, h, hw⟩
    simp only [Final, not_forall] at hw
    obtain ⟨id, rfl, hid⟩ := hw
    obtain ⟨u, hu⟩ := Option.ne_none_iff_exists'.1 hid
    exact ⟨ids ++ [id], u, by simp [hlen], h.append (.cons hu (.nil u))⟩

/-- The id at which a chain that never ends is given up: it comes after as many others as the table
has objects, and one more. -/
def GivenUpAt (d : Document) (v : PdfValue) (id : ObjectId) : Prop :=
  d.NeverEnds v ∧ ∃ ids, ids.length = d.objects.size + 1 ∧ d.Chain v ids (.reference id)

theorem NeverEnds.exists_givenUpAt (h : d.NeverEnds v) : ∃ id, d.GivenUpAt v id := by
  obtain ⟨ids, w, hlen, hw⟩ := h (d.objects.size + 1)
  cases w with
  | reference id => exact ⟨id, h, ids, hlen, hw⟩
  | _ => exact absurd h (hw.not_neverEnds (final_of_direct rfl))

theorem GivenUpAt.resolve_eq (h : d.GivenUpAt v id) : d.resolve v = .error id := by
  obtain ⟨-, ids, hlen, hids⟩ := h
  have hr := hids.follow_eq 0 none
  rwa [hlen, Nat.add_zero, follow] at hr

theorem Dangles.resolve_eq (h : d.Dangles v id) : d.resolve v = .error id := by
  obtain ⟨ids, h, hid⟩ := h
  exact h.resolve_eq_error hid

/-- What comes of a value: the end of its chain, with the id that led there; the id that is
missing; or an id on a chain that never ends. -/
theorem resolve_cases (d : Document) (v : PdfValue) :
    (∃ ids w, d.Chain v ids w ∧ w.isReference = false ∧ d.resolve v = .ok ⟨ids.getLast?, w⟩) ∨
      ∃ id, (d.Dangles v id ∨ d.GivenUpAt v id) ∧ d.resolve v = .error id := by
  rcases d.exists_final_or_neverEnds v with ⟨ids, w, h, hw⟩ | h
  · rcases hw.cases with hw | ⟨id, rfl, hid⟩
    · exact .inl ⟨ids, w, h, hw, h.resolve_eq_ok hw⟩
    · exact .inr ⟨id, .inl ⟨ids, h, hid⟩, h.resolve_eq_error hid⟩
  · obtain ⟨id, h⟩ := h.exists_givenUpAt
    exact .inr ⟨id, .inr h, h.resolve_eq⟩

/-- A value resolves if and only if its chain of references ends at a direct value, however long it
is. It does not if and only if the chain comes to an id that is missing, which is the error then,
or never ends. -/
theorem resolves_iff_chain_ends (d : Document) (v : PdfValue) :
    (∀ r, d.resolve v = .ok r ↔
      ∃ ids, d.Chain v ids r.value ∧ r.value.isReference = false ∧ r.id = ids.getLast?) ∧
    (∀ id, d.resolve v = .error id ↔ d.Dangles v id ∨ d.GivenUpAt v id) ∧
    ((∃ id, d.resolve v = .error id) ↔ (∃ id, d.Dangles v id) ∨ d.NeverEnds v) := by
  have herror (id) : d.resolve v = .error id ↔ d.Dangles v id ∨ d.GivenUpAt v id := by
    refine ⟨fun h ↦ ?_, ?_⟩
    · rcases d.resolve_cases v with ⟨ids, w, -, -, hr⟩ | ⟨id', hid, hr⟩ <;>
        cases hr.symm.trans h
      exact hid
    · rintro (h | h)
      · exact h.resolve_eq
      · exact h.resolve_eq
  refine ⟨fun r ↦ ⟨fun h ↦ ?_, ?_⟩, herror, ⟨?_, ?_⟩⟩
  · rcases d.resolve_cases v with ⟨ids, w, hc, hw, hr⟩ | ⟨id, -, hr⟩ <;> cases hr.symm.trans h
    exact ⟨ids, hc, hw, rfl⟩
  · rintro ⟨ids, hc, hr, hid⟩
    rw [hc.resolve_eq_ok hr, ← hid]
  · rintro ⟨id, h⟩
    rcases (herror id).1 h with h | h
    · exact .inl ⟨id, h⟩
    · exact .inr h.1
  · rintro (⟨id, h⟩ | h)
    · exact ⟨id, h.resolve_eq⟩
    · obtain ⟨id, h⟩ := h.exists_givenUpAt
      exact ⟨id, h.resolve_eq⟩

end PdfSchema.Document
