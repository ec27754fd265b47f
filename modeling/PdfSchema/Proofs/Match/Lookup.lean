import PdfSchema.Match.Visit

namespace PdfSchema

namespace Match

variable {s : Schema} {object : SchemaObject} {row : Row} {name : String}

theorem mem_values_of_get? {key : String} (h : object.get? key = some row) :
    row ∈ object.values := List.mem_map_of_mem (KeyedList.get?_eq_some_iff.1 h)

theorem mem_values_of_lookupWildcard (h : (lookupWildcard object).1 = some row) :
    row ∈ object.values := by
  unfold lookupWildcard at h
  split at h
  · rename_i hget
    cases h
    exact mem_values_of_get? hget
  · cases h

theorem mem_values_of_lookupKey {key : String} (h : (lookupKey (some object) key).1 = some row) :
    row ∈ object.values := by
  unfold lookupKey at h
  simp only at h
  split at h
  · rename_i hget
    cases h
    exact mem_values_of_get? hget
  · exact mem_values_of_lookupWildcard h

theorem repeatingRows_subset (object : SchemaObject) : repeatingRows object ⊆ object.values := by
  intro row h
  obtain ⟨p, hp, rfl⟩ := List.mem_map.1 h
  exact List.mem_map_of_mem (List.mem_filter.1 hp).1

theorem mem_values_of_lookupIndex {i : Nat} (h : (lookupIndex (some object) i).1 = some row) :
    row ∈ object.values := by
  unfold lookupIndex at h
  simp only at h
  split at h
  · rename_i hget
    cases h
    exact mem_values_of_get? hget
  · split at h
    · rename_i hrow
      cases h
      exact repeatingRows_subset object (List.mem_of_getElem? hrow)
    · exact mem_values_of_lookupWildcard h

theorem lookups_none {v : PdfValue} {x : (String × PdfValue) × Option Row × Class}
    (h : x ∈ Context.lookups none v) : x.2 = (none, .unmatched) := by
  unfold Context.lookups at h
  split at h
  · obtain ⟨y, _, rfl⟩ := List.mem_map.1 h
    rfl
  · obtain ⟨y, _, rfl⟩ := List.mem_map.1 h
    rfl

theorem row_eq_none_of_lookups {v : PdfValue} {x : (String × PdfValue) × Option Row × Class}
    (h : x ∈ Context.lookups none v) : x.2.1 = none := congrArg Prod.fst (lookups_none h)

theorem mem_values_of_lookups {v : PdfValue} {x : (String × PdfValue) × Option Row × Class}
    (h : x ∈ Context.lookups (some object) v) (hrow : x.2.1 = some row) :
    row ∈ object.values := by
  unfold Context.lookups at h
  split at h
  · obtain ⟨y, _, rfl⟩ := List.mem_map.1 h
    exact mem_values_of_lookupIndex hrow
  · obtain ⟨y, _, rfl⟩ := List.mem_map.1 h
    exact mem_values_of_lookupKey hrow

theorem lookupWildcard_eq_none_iff (object : SchemaObject) :
    (lookupWildcard object).1 = none ↔ (lookupWildcard object).2 = .unmatched := by
  cases h : object.wildcard? <;> simp [lookupWildcard, h]

theorem lookupKey_eq_none_iff (object : Option SchemaObject) (key : String) :
    (lookupKey object key).1 = none ↔ (lookupKey object key).2 = .unmatched := by
  cases object with
  | none => simp [lookupKey]
  | some object =>
    cases h : object.get? key with
    | some row => simp [lookupKey, h]
    | none => simpa [lookupKey, h] using lookupWildcard_eq_none_iff object

theorem lookupIndex_eq_none_iff (object : Option SchemaObject) (i : Nat) :
    (lookupIndex object i).1 = none ↔ (lookupIndex object i).2 = .unmatched := by
  cases object with
  | none => simp [lookupIndex]
  | some object =>
    cases h : object.get? (toString i) with
    | some row => simp only [lookupIndex, h, reduceCtorEq]
    | none =>
      cases hrow : (repeatingRows object)[i % (repeatingRows object).length]? with
      | some row => simp only [lookupIndex, h, hrow, reduceCtorEq]
      | none => simpa only [lookupIndex, h, hrow] using lookupWildcard_eq_none_iff object

/-- No row is found for a value exactly when it is unmatched. -/
theorem row_eq_none_iff_of_mem_lookups {o : Option SchemaObject} {v : PdfValue}
    {x : (String × PdfValue) × Option Row × Class} (h : x ∈ Context.lookups o v) :
    x.2.1 = none ↔ x.2.2 = .unmatched := by
  unfold Context.lookups at h
  split at h
  · obtain ⟨y, _, rfl⟩ := List.mem_map.1 h
    exact lookupIndex_eq_none_iff o y.2
  · obtain ⟨y, _, rfl⟩ := List.mem_map.1 h
    exact lookupKey_eq_none_iff o y.1

theorem better_isSome (best : Option (String × Nat)) (candidate : String × Nat) :
    ∃ b, better best candidate = some b ∧ (b = candidate ∨ best = some b) := by
  unfold better
  split
  · exact ⟨candidate, rfl, .inl rfl⟩
  · rename_i b
    split
    · exact ⟨candidate, rfl, .inl rfl⟩
    · exact ⟨b, rfl, .inr rfl⟩

theorem foldl_better_of_some (candidates : List (String × Nat)) :
    ∀ b, ∃ b', candidates.foldl better (some b) = some b' ∧ (b' = b ∨ b' ∈ candidates) := by
  induction candidates with
  | nil => exact fun b ↦ ⟨b, rfl, .inl rfl⟩
  | cons candidate candidates ih =>
    intro b
    obtain ⟨b₁, hb₁, hmem₁⟩ := better_isSome (some b) candidate
    obtain ⟨b₂, hb₂, hmem₂⟩ := ih b₁
    refine ⟨b₂, by rw [List.foldl_cons, hb₁, hb₂], ?_⟩
    rcases hmem₂ with rfl | hmem₂
    · rcases hmem₁ with rfl | hmem₁
      · exact .inr List.mem_cons_self
      · exact .inl (Option.some.inj hmem₁).symm
    · exact .inr (List.mem_cons_of_mem _ hmem₂)

theorem foldl_better_cases (candidates : List (String × Nat)) :
    candidates = [] ∨ ∃ b ∈ candidates, candidates.foldl better none = some b := by
  cases candidates with
  | nil => exact .inl rfl
  | cons candidate candidates =>
    obtain ⟨b, hb, hmem⟩ := foldl_better_of_some candidates candidate
    exact .inr ⟨b, List.mem_cons.2 hmem, hb⟩

/-- Whether a link of the alternative `i` of a row leads to the object `name` of the schema. -/
def Offers (s : Schema) (row : Row) (i : Nat) (name : String) : Prop :=
  ∃ target ∈ row.linksFor i, target.objectName? = some name ∧ name ∈ s.keys

def candidates (s : Schema) (row : Row) (i : Nat) (v : PdfValue) : List (String × Nat) :=
  (row.linksFor i).filterMap fun target => do
    let name ← target.objectName?
    let object ← s.get? name
    return (name, score object v)

theorem chooseLink_eq (s : Schema) (row : Row) (i : Nat) (v : PdfValue) :
    chooseLink s row i v = ((candidates s row i v).foldl better none).map Prod.fst := rfl

theorem offers_of_mem_candidates {i : Nat} {v : PdfValue} {b : String × Nat}
    (h : b ∈ candidates s row i v) : Offers s row i b.1 := by
  obtain ⟨target, htarget, h⟩ := List.mem_filterMap.1 h
  obtain ⟨name, hname, h⟩ := Option.bind_eq_some_iff.1 h
  obtain ⟨object, hobject, h⟩ := Option.bind_eq_some_iff.1 h
  cases h
  exact ⟨target, htarget, hname, KeyedList.mem_keys_of_get?_eq_some hobject⟩

theorem candidates_ne_nil_of_offers {i : Nat} (v : PdfValue) (h : Offers s row i name) :
    candidates s row i v ≠ [] := by
  obtain ⟨target, htarget, hname, hkey⟩ := h
  obtain ⟨object, hobject⟩ := KeyedList.exists_get?_of_mem_keys hkey
  have hmem : (name, score object v) ∈ candidates s row i v := by
    refine List.mem_filterMap.2 ⟨target, htarget, ?_⟩
    simp [hname, hobject]
  exact List.ne_nil_of_mem hmem

theorem offers_of_chooseLink {i : Nat} {v : PdfValue} (h : chooseLink s row i v = some name) :
    Offers s row i name := by
  rw [chooseLink_eq] at h
  obtain ⟨b, hb, rfl⟩ := Option.map_eq_some_iff.1 h
  rcases foldl_better_cases (candidates s row i v) with hnil | ⟨b', hmem, hb'⟩
  · rw [hnil] at hb
    cases hb
  · obtain rfl : b' = b := Option.some.inj (hb'.symm.trans hb)
    exact offers_of_mem_candidates hmem

theorem isSome_chooseLink_iff {i : Nat} {v : PdfValue} :
    (chooseLink s row i v).isSome ↔ ∃ name, Offers s row i name := by
  constructor
  · intro h
    obtain ⟨name, hname⟩ := Option.isSome_iff_exists.1 h
    exact ⟨name, offers_of_chooseLink hname⟩
  · rintro ⟨name, h⟩
    rw [chooseLink_eq, Option.isSome_map]
    rcases foldl_better_cases (candidates s row i v) with hnil | ⟨b, _, hb⟩
    · exact absurd hnil (candidates_ne_nil_of_offers v h)
    · rw [hb]
      rfl

end Match

end PdfSchema
