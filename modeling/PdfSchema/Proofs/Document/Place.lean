import Mathlib.Data.List.Nodup
import PdfSchema.Document.Basic

namespace PdfSchema

namespace PdfValue

def entryAt? : String × PdfValue → List ℕ → Option (String × PdfValue)
  | e, [] => some e
  | e, i :: is => (e.2.children[i]?).bind fun e ↦ entryAt? e is

theorem entryAt?_append (e : String × PdfValue) (is js : List ℕ) :
    entryAt? e (is ++ js) = (entryAt? e is).bind fun e ↦ entryAt? e js := by
  induction is generalizing e with
  | nil => rfl
  | cons i is ih =>
    simp only [List.cons_append, entryAt?, Option.bind_assoc]
    exact Option.bind_congr fun e _ ↦ ih e

theorem entryAt?_snoc {e e' : String × PdfValue} {is : List ℕ} (h : entryAt? e is = some e')
    (i : ℕ) : entryAt? e (is ++ [i]) = e'.2.children[i]? := by
  rw [entryAt?_append, h]
  simp only [Option.bind_some, entryAt?, Option.bind_fun_some]

mutual

def positions : PdfValue → List (List ℕ)
  | dictionary es => positionsOfEntries es 0
  | stream es _ => positionsOfEntries es 0
  | array items => positionsOfItems items 0
  | name _ | string _ | boolean _ | integer _ | number _ | null | reference _ => []

def positionsOfEntries : List (String × PdfValue) → ℕ → List (List ℕ)
  | [], _ => []
  | (_, v) :: es, i => ([i] :: v.positions.map (i :: ·)) ++ positionsOfEntries es (i + 1)

def positionsOfItems : List PdfValue → ℕ → List (List ℕ)
  | [], _ => []
  | v :: vs, i => ([i] :: v.positions.map (i :: ·)) ++ positionsOfItems vs (i + 1)

end

theorem positionsOfEntries_eq (es : List (String × PdfValue)) (i : ℕ) :
    positionsOfEntries es i = positionsOfItems (es.map Prod.snd) i := by
  induction es generalizing i with
  | nil => rfl
  | cons e es ih => simp only [positionsOfEntries, positionsOfItems, List.map_cons, ih]

theorem map_snd_children_array (items : List PdfValue) :
    (array items).children.map Prod.snd = items := by
  simp [children, Function.comp_def]

theorem positions_eq (v : PdfValue) :
    v.positions = positionsOfItems (v.children.map Prod.snd) 0 := by
  cases v with
  | dictionary es => exact positionsOfEntries_eq es 0
  | stream es n => exact positionsOfEntries_eq es 0
  | array items => rw [map_snd_children_array, positions]
  | _ => rfl

theorem mem_positionsOfItems {vs : List PdfValue} {n : ℕ} {is : List ℕ} :
    is ∈ positionsOfItems vs n ↔
      ∃ i v js, vs[i]? = some v ∧ is = (n + i) :: js ∧ (js = [] ∨ js ∈ v.positions) := by
  induction vs generalizing n with
  | nil => simp [positionsOfItems]
  | cons v vs ih =>
    simp only [positionsOfItems, List.mem_append, List.mem_cons, List.mem_map, ih]
    constructor
    · rintro ((rfl | ⟨js, hjs, rfl⟩) | ⟨i, w, js, hw, rfl, hjs⟩)
      · exact ⟨0, v, [], rfl, rfl, .inl rfl⟩
      · exact ⟨0, v, js, rfl, rfl, .inr hjs⟩
      · exact ⟨i + 1, w, js, hw, by rw [Nat.add_right_comm, Nat.add_assoc], hjs⟩
    · rintro ⟨i, w, js, hw, rfl, hjs⟩
      cases i with
      | zero =>
        obtain rfl : v = w := Option.some.inj hw
        rcases hjs with rfl | hjs
        · exact .inl (.inl rfl)
        · exact .inl (.inr ⟨js, hjs, rfl⟩)
      | succ i => exact .inr ⟨i, w, js, hw, by rw [Nat.add_right_comm, Nat.add_assoc], hjs⟩

theorem nil_notMem_positions (v : PdfValue) : [] ∉ v.positions := by
  rw [positions_eq, mem_positionsOfItems]
  rintro ⟨i, w, js, _, he, _⟩
  cases he

theorem cons_mem_positions {v : PdfValue} {i : ℕ} {is : List ℕ} :
    i :: is ∈ v.positions ↔
      ∃ e, v.children[i]? = some e ∧ (is = [] ∨ is ∈ e.2.positions) := by
  rw [positions_eq, mem_positionsOfItems]
  simp only [List.getElem?_map, Option.map_eq_some_iff, Nat.zero_add, List.cons.injEq]
  constructor
  · rintro ⟨j, w, js, ⟨e, he, rfl⟩, ⟨rfl, rfl⟩, hjs⟩
    exact ⟨e, he, hjs⟩
  · rintro ⟨e, he, his⟩
    exact ⟨i, e.2, is, ⟨e, he, rfl⟩, ⟨rfl, rfl⟩, his⟩

theorem mem_positions {k : String} {v : PdfValue} {is : List ℕ} :
    is ∈ v.positions ↔ is ≠ [] ∧ (entryAt? (k, v) is).isSome := by
  induction is generalizing k v with
  | nil => simp [nil_notMem_positions]
  | cons i is ih =>
    rw [cons_mem_positions]
    simp only [entryAt?, ne_eq, reduceCtorEq, not_false_eq_true, true_and]
    cases he : v.children[i]? with
    | none => simp
    | some e =>
      simp only [Option.some.injEq, Option.bind_some, exists_eq_left']
      rw [ih (k := e.1)]
      by_cases hn : is = []
      · simp [hn, entryAt?]
      · simp [hn]

theorem size_le_sizeItems {vs : List PdfValue} {v : PdfValue} (h : v ∈ vs) :
    v.size ≤ sizeItems vs := by
  induction vs with
  | nil => cases h
  | cons w vs ih =>
    simp only [sizeItems]
    rcases List.mem_cons.1 h with rfl | h
    · omega
    · have := ih h
      omega

theorem size_lt_of_mem_children {v : PdfValue} {e : String × PdfValue} (h : e ∈ v.children) :
    e.2.size < v.size := by
  have hitems : e.2.size ≤ sizeItems (v.children.map Prod.snd) :=
    size_le_sizeItems (List.mem_map_of_mem h)
  cases v with
  | dictionary es => exact Nat.lt_succ_of_le (sizeEntries_eq es ▸ hitems)
  | stream es n => exact Nat.lt_succ_of_le (sizeEntries_eq es ▸ hitems)
  | array items =>
    rw [map_snd_children_array] at hitems
    exact Nat.lt_succ_of_le hitems
  | _ => cases h

/-- What holds of a value as soon as it holds of the values right inside it, holds of every
value. -/
theorem children_induction {P : PdfValue → Prop} (step : ∀ v, (∀ e ∈ v.children, P e.2) → P v)
    (v : PdfValue) : P v := by
  induction h : v.size using Nat.strongRecOn generalizing v with
  | ind n ih => exact step v fun e he ↦ ih _ (h ▸ size_lt_of_mem_children he) e.2 rfl

theorem nodup_positionsOfItems {vs : List PdfValue} (h : ∀ v ∈ vs, v.positions.Nodup) (n : ℕ) :
    (positionsOfItems vs n).Nodup := by
  induction vs generalizing n with
  | nil => exact List.nodup_nil
  | cons v vs ih =>
    rw [positionsOfItems, List.nodup_append]
    refine ⟨List.nodup_cons.2 ⟨?_, ?_⟩, ih (fun w hw ↦ h w (List.mem_cons_of_mem _ hw)) _, ?_⟩
    · intro hm
      obtain ⟨js, hjs, he⟩ := List.mem_map.1 hm
      obtain rfl : js = [] := (List.cons.inj he).2
      exact nil_notMem_positions v hjs
    · exact (h v List.mem_cons_self).map fun a b hab ↦ (List.cons.inj hab).2
    · intro a ha b hb hab
      obtain ⟨i, w, js, _, rfl, _⟩ := mem_positionsOfItems.1 hb
      rcases List.mem_cons.1 ha with rfl | ha
      · have := (List.cons.inj hab).1
        omega
      · obtain ⟨js', _, rfl⟩ := List.mem_map.1 ha
        have := (List.cons.inj hab).1
        omega

theorem nodup_positions (v : PdfValue) : v.positions.Nodup := by
  induction v using children_induction with
  | step v ih =>
    rw [positions_eq]
    refine nodup_positionsOfItems (fun w hw ↦ ?_) 0
    obtain ⟨e, he, rfl⟩ := List.mem_map.1 hw
    exact ih e he

end PdfValue

/-- A place in a document: in the trailer, or in the indirect object `owner`. -/
structure Place where
  owner : Option ObjectId
  position : List ℕ
  deriving DecidableEq, Repr

namespace Place

def trailer : Place := ⟨none, []⟩

def child (p : Place) (i : ℕ) : Place := ⟨p.owner, p.position ++ [i]⟩

/-- Whether `q` is `p` or a place inside the value at `p`. -/
def Within (p q : Place) : Prop := q.owner = p.owner ∧ p.position <+: q.position

theorem Within.refl (p : Place) : p.Within p := ⟨rfl, List.prefix_refl _⟩

theorem Within.trans {p q r : Place} (h : p.Within q) (h' : q.Within r) : p.Within r :=
  ⟨h'.1.trans h.1, h.2.trans h'.2⟩

theorem within_child (p : Place) (i : ℕ) : p.Within (p.child i) :=
  ⟨rfl, List.prefix_append _ _⟩

theorem not_child_within (p : Place) (i : ℕ) : ¬ (p.child i).Within p := by
  intro h
  have := h.2.length_le
  simp only [child, List.length_append, List.length_singleton] at this
  omega

def Apart (p q : Place) : Prop := ¬ p.Within q ∧ ¬ q.Within p

theorem Apart.of_owner_ne {p q : Place} (h : p.owner ≠ q.owner) : p.Apart q :=
  ⟨fun hw ↦ h hw.1.symm, fun hw ↦ h hw.1⟩

theorem Apart.child {p q : Place} (h : p.Apart q) (i : ℕ) : (p.child i).Apart q := by
  refine ⟨fun hw ↦ h.1 ((p.within_child i).trans hw), fun hw ↦ ?_⟩
  rcases List.prefix_concat_iff.1 hw.2 with hp | hp
  · exact h.1 ⟨hw.1.symm, hp ▸ List.prefix_append _ _⟩
  · exact h.2 ⟨hw.1, hp⟩

theorem apart_child {p : Place} {i j : ℕ} (h : i ≠ j) : (p.child i).Apart (p.child j) := by
  have key : ∀ {i j}, (p.child i).Within (p.child j) → i = j := by
    intro i j hw
    have he := hw.2.eq_of_length (by simp only [child, List.length_append, List.length_singleton])
    exact List.singleton_inj.1 (List.append_cancel_left he)
  exact ⟨fun hw ↦ h (key hw), fun hw ↦ h (key hw).symm⟩

end Place

namespace Document

def ownerEntry? (d : Document) (owner : Option ObjectId) : Option (String × PdfValue) :=
  match owner with
  | none => some ("trailer", d.trailer)
  | some id => (d.objects.get? id).map fun v ↦ ("", v)

def entryAt? (d : Document) (p : Place) : Option (String × PdfValue) :=
  (d.ownerEntry? p.owner).bind fun e ↦ PdfValue.entryAt? e p.position

theorem entryAt?_child {d : Document} {p : Place} {e : String × PdfValue}
    (h : d.entryAt? p = some e) (i : ℕ) : d.entryAt? (p.child i) = e.2.children[i]? := by
  obtain ⟨o, ho, he⟩ := Option.bind_eq_some_iff.1 h
  simp only [entryAt?, Place.child, ho, Option.bind_some]
  exact PdfValue.entryAt?_snoc he i

theorem isSome_entryAt?_of_append {d : Document} {owner : Option ObjectId} {is js : List ℕ}
    (h : (d.entryAt? ⟨owner, is ++ js⟩).isSome) : (d.entryAt? ⟨owner, is⟩).isSome := by
  obtain ⟨e, h⟩ := Option.isSome_iff_exists.1 h
  obtain ⟨o, ho, h⟩ := Option.bind_eq_some_iff.1 h
  rw [PdfValue.entryAt?_append] at h
  obtain ⟨e', he', _⟩ := Option.bind_eq_some_iff.1 h
  exact Option.isSome_iff_exists.2 ⟨e', Option.bind_eq_some_iff.2 ⟨o, ho, he'⟩⟩

theorem entryAt?_object {d : Document} {id : ObjectId} {v : PdfValue}
    (h : d.objects.get? id = some v) : d.entryAt? ⟨some id, []⟩ = some ("", v) := by
  simp [entryAt?, ownerEntry?, h, PdfValue.entryAt?]

/-- The places of all entries and items of a document, at any depth of the trailer and of the
indirect objects. -/
def slots (d : Document) : List Place :=
  d.trailer.positions.map (Place.mk none) ++
    d.objects.pairs.flatMap fun (id, v) ↦ v.positions.map (Place.mk (some id))

theorem mem_slots {d : Document} {p : Place} :
    p ∈ d.slots ↔ p.position ≠ [] ∧ (d.entryAt? p).isSome := by
  obtain ⟨owner, is⟩ := p
  simp only [slots, List.mem_append, List.mem_map, List.mem_flatMap, Place.mk.injEq]
  cases owner with
  | none =>
    simp [entryAt?, ownerEntry?, PdfValue.mem_positions (k := "trailer")]
  | some id =>
    simp only [reduceCtorEq, false_and, and_false, exists_false, false_or, Option.some.injEq,
      Prod.exists, entryAt?, ownerEntry?]
    constructor
    · rintro ⟨id', v, hv, js, hjs, rfl, rfl⟩
      rw [KeyedList.get?_eq_some_iff.2 hv]
      exact (PdfValue.mem_positions (k := "")).1 hjs
    · rintro ⟨hne, hs⟩
      cases hv : d.objects.get? id with
      | none => simp [hv] at hs
      | some v =>
        rw [hv] at hs
        exact ⟨id, v, KeyedList.get?_eq_some_iff.1 hv, is,
          (PdfValue.mem_positions (k := "")).2 ⟨hne, hs⟩, rfl, rfl⟩

theorem nodup_slots (d : Document) : d.slots.Nodup := by
  have hinj : ∀ owner : Option ObjectId, Function.Injective (Place.mk owner) :=
    fun owner a b h ↦ (Place.mk.inj h).2
  refine List.nodup_append.2 ⟨(PdfValue.nodup_positions _).map (hinj _), ?_, ?_⟩
  · refine List.nodup_flatMap.2 ⟨fun x _ ↦ (PdfValue.nodup_positions _).map (hinj _), ?_⟩
    have hkeys : d.objects.pairs.Pairwise fun x y ↦ x.1 ≠ y.1 :=
      List.pairwise_map.1 d.objects.nodup
    refine hkeys.imp fun {x y} hxy p hp hq ↦ ?_
    obtain ⟨is, _, rfl⟩ := List.mem_map.1 hp
    obtain ⟨js, _, he⟩ := List.mem_map.1 hq
    exact hxy (Option.some.inj (Place.mk.inj he).1).symm
  · intro p hp q hq hpq
    obtain ⟨is, _, rfl⟩ := List.mem_map.1 hp
    obtain ⟨x, _, hx⟩ := List.mem_flatMap.1 hq
    obtain ⟨js, _, rfl⟩ := List.mem_map.1 hx
    cases (Place.mk.inj hpq).1

end Document

end PdfSchema
