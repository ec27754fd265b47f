import Mathlib.Data.List.Forall2
import PdfSchema.Proofs.Document.Keys

namespace PdfSchema

/-- Whether the members of two lists are related one by one, in some order of the second one. -/
def UpToOrder {α β : Type} (R : α → β → Prop) (l : List α) (m : List β) : Prop :=
  ∃ l', List.Forall₂ R l l' ∧ l'.Perm m

namespace UpToOrder

variable {α β γ δ : Type} {R : α → β → Prop} {l : List α} {m : List β}

theorem of_forall₂ (h : List.Forall₂ R l m) : UpToOrder R l m := ⟨m, h, .refl m⟩

theorem map {S : γ → δ → Prop} {f : α → γ} {g : β → δ} (h : UpToOrder R l m)
    (hfg : ∀ a b, R a b → S (f a) (g b)) : UpToOrder S (l.map f) (m.map g) := by
  obtain ⟨l', hl, hperm⟩ := h
  refine ⟨l'.map g, ?_, hperm.map g⟩
  rw [List.forall₂_map_left_iff, List.forall₂_map_right_iff]
  exact hl.imp fun a b hab ↦ hfg a b hab

theorem filter {p : α → Bool} {q : β → Bool} (h : UpToOrder R l m)
    (hpq : ∀ a b, R a b → p a = q b) : UpToOrder R (l.filter p) (m.filter q) := by
  obtain ⟨l', hl, hperm⟩ := h
  refine ⟨l'.filter q, List.rel_filter (fun a b hab ↦ ?_) hl, hperm.filter q⟩
  simp only [hpq a b hab]

theorem flatMap_perm {f : α → List γ} {g : β → List γ} (h : UpToOrder R l m)
    (hfg : ∀ a b, R a b → (f a).Perm (g b)) : (l.flatMap f).Perm (m.flatMap g) := by
  obtain ⟨l', hl, hperm⟩ := h
  refine List.Perm.trans ?_ (hperm.flatMap_right g)
  clear hperm
  induction hl with
  | nil => exact .refl []
  | cons hab _ ih =>
    rw [List.flatMap_cons, List.flatMap_cons]
    exact (hfg _ _ hab).append ih

theorem map_perm {f : α → γ} {g : β → γ} (h : UpToOrder R l m) (hfg : ∀ a b, R a b → f a = g b) :
    (l.map f).Perm (m.map g) := by
  rw [List.map_eq_flatMap, List.map_eq_flatMap]
  refine h.flatMap_perm fun a b hab ↦ ?_
  rw [hfg a b hab]

theorem exists_of_mem {a : α} (h : UpToOrder R l m) (ha : a ∈ l) : ∃ b ∈ m, R a b := by
  obtain ⟨l', hl, hperm⟩ := h
  have hmem : ∃ b ∈ l', R a b := by
    clear hperm
    induction hl with
    | nil => cases ha
    | cons hr _ ih =>
      rcases List.mem_cons.1 ha with rfl | ha
      · exact ⟨_, List.mem_cons_self, hr⟩
      · obtain ⟨b, hb, hab⟩ := ih ha
        exact ⟨b, List.mem_cons_of_mem _ hb, hab⟩
  obtain ⟨b, hb, hab⟩ := hmem
  exact ⟨b, hperm.subset hb, hab⟩

end UpToOrder

/-- Whether a value becomes another one when the entries of the dictionaries and of the streams in
it are put in other orders, however deep they stand. -/
inductive PdfValue.Reordered : PdfValue → PdfValue → Prop
  | refl (v : PdfValue) : Reordered v v
  | dictionary {es fs gs : List (String × PdfValue)} (hkeys : Pairs.keys es = Pairs.keys fs)
      (hvalues : List.Forall₂ Reordered (es.map Prod.snd) (fs.map Prod.snd)) (hperm : fs.Perm gs) :
      Reordered (.dictionary es) (.dictionary gs)
  | stream {es fs gs : List (String × PdfValue)} {n : ℕ} (hkeys : Pairs.keys es = Pairs.keys fs)
      (hvalues : List.Forall₂ Reordered (es.map Prod.snd) (fs.map Prod.snd)) (hperm : fs.Perm gs) :
      Reordered (.stream es n) (.stream gs n)
  | array {vs ws : List PdfValue} (hitems : List.Forall₂ Reordered vs ws) :
      Reordered (.array vs) (.array ws)

namespace PdfValue

def EntryReordered (e f : String × PdfValue) : Prop := e.1 = f.1 ∧ e.2.Reordered f.2

variable {v w : PdfValue} {es fs gs : List (String × PdfValue)}

theorem forall₂_entryReordered_refl (es : List (String × PdfValue)) :
    List.Forall₂ EntryReordered es es := by
  induction es with
  | nil => exact .nil
  | cons e es ih => exact .cons ⟨rfl, .refl e.2⟩ ih

theorem forall₂_entryReordered (hkeys : Pairs.keys es = Pairs.keys fs)
    (hvalues : List.Forall₂ Reordered (es.map Prod.snd) (fs.map Prod.snd)) :
    List.Forall₂ EntryReordered es fs := by
  induction es generalizing fs with
  | nil =>
    cases fs with
    | nil => exact .nil
    | cons f fs => cases hkeys
  | cons e es ih =>
    cases fs with
    | nil => cases hkeys
    | cons f fs =>
      obtain ⟨hkey, hkeys⟩ := List.cons.inj hkeys
      obtain ⟨hvalue, hvalues⟩ := List.forall₂_cons.1 hvalues
      exact .cons ⟨hkey, hvalue⟩ (ih hkeys hvalues)

theorem upToOrder_entries (hkeys : Pairs.keys es = Pairs.keys fs)
    (hvalues : List.Forall₂ Reordered (es.map Prod.snd) (fs.map Prod.snd)) (hperm : fs.Perm gs) :
    UpToOrder EntryReordered es gs := ⟨fs, forall₂_entryReordered hkeys hvalues, hperm⟩

namespace Reordered

theorem kind_eq (h : v.Reordered w) : v.kind = w.kind := by cases h <;> rfl

theorem direct_or_reference (h : v.Reordered w) :
    (v.isReference = false ∧ w.isReference = false) ∨
      ∃ id, v = .reference id ∧ w = .reference id := by
  cases h with
  | refl =>
    cases v with
    | reference id => exact .inr ⟨id, rfl, rfl⟩
    | _ => exact .inl ⟨rfl, rfl⟩
  | _ => exact .inl ⟨rfl, rfl⟩

theorem entries? (h : v.Reordered w) :
    Option.Rel (UpToOrder EntryReordered) v.entries? w.entries? := by
  cases h with
  | refl =>
    cases v.entries? with
    | none => exact .none
    | some es => exact .some (.of_forall₂ (forall₂_entryReordered_refl es))
  | dictionary hkeys hvalues hperm => exact .some (upToOrder_entries hkeys hvalues hperm)
  | stream hkeys hvalues hperm => exact .some (upToOrder_entries hkeys hvalues hperm)
  | array hitems => exact .none

theorem items? (h : v.Reordered w) : Option.Rel (List.Forall₂ Reordered) v.items? w.items? := by
  cases h with
  | refl =>
    cases v.items? with
    | none => exact .none
    | some items => exact .some (List.forall₂_same.2 fun v _ ↦ .refl v)
  | dictionary hkeys hvalues hperm => exact .none
  | stream hkeys hvalues hperm => exact .none
  | array hitems => exact .some hitems

end Reordered

theorem perm_keys (h : UpToOrder EntryReordered es gs) : (Pairs.keys es).Perm (Pairs.keys gs) :=
  h.map_perm fun _ _ hef ↦ hef.1

theorem get?_of_upToOrder (hnodup : (Pairs.keys es).Nodup) (h : UpToOrder EntryReordered es gs)
    (key : String) : Option.Rel Reordered (Pairs.get? es key) (Pairs.get? gs key) := by
  have hnodup' : (Pairs.keys gs).Nodup := (perm_keys h).nodup hnodup
  cases hv : Pairs.get? es key with
  | some v =>
    obtain ⟨⟨key', w⟩, hw, hkey, hvw⟩ := h.exists_of_mem ((Pairs.get?_eq_some_iff hnodup).1 hv)
    obtain rfl : key = key' := hkey
    rw [(Pairs.get?_eq_some_iff hnodup').2 hw]
    exact .some hvw
  | none =>
    cases hw : Pairs.get? gs key with
    | none => exact .none
    | some w =>
      have hmem : key ∈ Pairs.keys es := by
        rw [(perm_keys h).mem_iff]
        exact List.mem_map_of_mem ((Pairs.get?_eq_some_iff hnodup').1 hw)
      obtain ⟨⟨_, v⟩, he, rfl⟩ := List.mem_map.1 hmem
      cases hv.symm.trans ((Pairs.get?_eq_some_iff hnodup).2 he)

theorem Reordered.entry? (h : v.Reordered w) (hkeys : v.AllKeys List.Nodup) (key : String) :
    Option.Rel Reordered (v.entry? key) (w.entry? key) := by
  have hes := h.entries?
  unfold PdfValue.entry?
  generalize hw : w.entries? = o at hes
  cases hv : v.entries? with
  | none =>
    rw [hv] at hes
    cases hes
    exact .none
  | some es =>
    rw [hv] at hes
    cases hes with
    | some hes => exact get?_of_upToOrder (hkeys.keys hv) hes key

end PdfValue

structure Resolved.Reordered (r r' : Resolved) : Prop where
  id : r.id = r'.id
  value : r.value.Reordered r'.value

namespace Document

structure Reordered (d d' : Document) : Prop where
  trailer : d.trailer.Reordered d'.trailer
  keys : d.objects.keys.Perm d'.objects.keys
  values : ∀ id v w, d.objects.get? id = some v → d'.objects.get? id = some w → v.Reordered w

variable {d d' : Document} {v w : PdfValue}

theorem Reordered.size_eq (h : d.Reordered d') : d.objects.size = d'.objects.size := by
  have hlength := h.keys.length_eq
  rwa [KeyedList.keys, KeyedList.keys, Pairs.keys, Pairs.keys, List.length_map, List.length_map]
    at hlength

theorem Reordered.get? (h : d.Reordered d') (id : ObjectId) :
    Option.Rel PdfValue.Reordered (d.objects.get? id) (d'.objects.get? id) := by
  cases hv : d.objects.get? id with
  | some v =>
    have hk := h.keys.subset (KeyedList.mem_keys_of_get?_eq_some hv)
    obtain ⟨w, hw⟩ := KeyedList.exists_get?_of_mem_keys hk
    rw [hw]
    exact .some (h.values id v w hv hw)
  | none =>
    cases hw : d'.objects.get? id with
    | none => exact .none
    | some w =>
      have hk := h.keys.symm.subset (KeyedList.mem_keys_of_get?_eq_some hw)
      obtain ⟨v, hv'⟩ := KeyedList.exists_get?_of_mem_keys hk
      cases hv.symm.trans hv'

theorem Reordered.follow (h : d.Reordered d') (steps : ℕ) (last : Option ObjectId)
    (hvw : v.Reordered w) :
    (∃ id, d.follow steps last v = .error id ∧ d'.follow steps last w = .error id) ∨
      ∃ r r', d.follow steps last v = .ok r ∧ d'.follow steps last w = .ok r' ∧ r.Reordered r' := by
  induction steps generalizing last v w with
  | zero =>
    rcases hvw.direct_or_reference with ⟨hv, hw⟩ | ⟨id, rfl, rfl⟩
    · exact .inr ⟨_, _, follow_of_direct d 0 last hv, follow_of_direct d' 0 last hw, rfl, hvw⟩
    · exact .inl ⟨id, rfl, rfl⟩
  | succ steps ih =>
    rcases hvw.direct_or_reference with ⟨hv, hw⟩ | ⟨id, rfl, rfl⟩
    · exact .inr ⟨_, _, follow_of_direct d _ last hv, follow_of_direct d' _ last hw, rfl, hvw⟩
    · -- Both tables hold a value under the id, or neither does.
      have hget := h.get? id
      simp only [Document.follow]
      generalize d.objects.get? id = o, d'.objects.get? id = o' at hget
      cases hget with
      | none => exact .inl ⟨id, rfl, rfl⟩
      | some hget => exact ih (some id) hget

theorem Reordered.resolve (h : d.Reordered d') (hvw : v.Reordered w) :
    (∃ id, d.resolve v = .error id ∧ d'.resolve w = .error id) ∨
      ∃ r r', d.resolve v = .ok r ∧ d'.resolve w = .ok r' ∧ r.Reordered r' := by
  unfold Document.resolve
  rw [← h.size_eq]
  exact h.follow _ none hvw

theorem Reordered.rootObject_eq (h : d.Reordered d') (hkeys : d.DistinctKeys)
    (wanted : Option String) : d.rootObject wanted = d'.rootObject wanted := by
  have hstream : d.isCrossReferenceStream = d'.isCrossReferenceStream := by
    have htype := h.trailer.entry? hkeys.1 "Type"
    simp only [isCrossReferenceStream, h.trailer.kind_eq]
    generalize d.trailer.entry? "Type" = o, d'.trailer.entry? "Type" = o' at htype
    cases htype with
    | none => rfl
    | some htype => cases htype <;> rfl
  rw [rootObject, rootObject, hstream]

end Document

end PdfSchema
