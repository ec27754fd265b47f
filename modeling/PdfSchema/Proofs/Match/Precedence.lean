import PdfSchema.Proofs.KeyedList
import PdfSchema.Proofs.Match.Layout
import PdfSchema.Proofs.Match.Lookup
import PdfSchema.Proofs.Text.Numeral

namespace PdfSchema

namespace Match

variable {object : SchemaObject} {key k : String} {row : Row} {i n : ℕ}

def repeatingKeys (object : SchemaObject) : List String := object.keys.filter isRepeatingKey

/-- The repeating key whose turn it is at an index. -/
def turn? (object : SchemaObject) (i : ℕ) : Option String :=
  (repeatingKeys object)[i % (repeatingKeys object).length]?

def rowKey? (object : SchemaObject) (key : String) : Option String :=
  [key, "*"].find? (· ∈ object.keys)

def rowKeyAt? (object : SchemaObject) (i : ℕ) : Option String :=
  (toString i :: ((turn? object i).toList ++ ["*"])).find? (· ∈ object.keys)

theorem isRepeatingKey_iff : isRepeatingKey k = true ↔
    ∃ digits, digits ≠ [] ∧ (∀ d ∈ digits, d.isDigit = true) ∧ k.toList = digits ++ ['*'] := by
  unfold isRepeatingKey
  split
  · rename_i digits h
    have hk : k.toList = digits.reverse ++ ['*'] := by
      rw [← List.reverse_cons, ← h, List.reverse_reverse]
    simp only [Bool.and_eq_true, Bool.not_eq_true', List.isEmpty_eq_false_iff, List.all_eq_true]
    constructor
    · rintro ⟨hne, hdigits⟩
      exact ⟨digits.reverse, by simpa using hne, by simpa using hdigits, hk⟩
    · rintro ⟨digits', hne, hdigits, hk'⟩
      obtain rfl : digits.reverse = digits' := List.append_cancel_right (hk.symm.trans hk')
      exact ⟨by simpa using hne, by simpa using hdigits⟩
  · rename_i h
    refine ⟨Bool.noConfusion, ?_⟩
    rintro ⟨digits, _, _, hk⟩
    exact absurd (by rw [hk, List.reverse_append]; rfl) (h digits.reverse)

theorem star_mem_of_isRepeatingKey (h : isRepeatingKey k = true) : '*' ∈ k.toList := by
  obtain ⟨digits, _, _, hk⟩ := isRepeatingKey_iff.1 h
  rw [hk]
  exact List.mem_append_right _ List.mem_cons_self

theorem ne_star_of_isRepeatingKey (h : isRepeatingKey k = true) : k ≠ "*" := by
  rintro rfl
  cases h

theorem star_notMem_toString (i : ℕ) : '*' ∉ (toString i).toList :=
  fun h ↦ absurd (isDigit_of_mem_toString h) (by decide)

theorem ne_star_of_notMem (h : '*' ∉ k.toList) : k ≠ "*" := by
  rintro rfl
  exact h List.mem_cons_self

theorem toString_ne_star (i : ℕ) : toString i ≠ "*" := ne_star_of_notMem (star_notMem_toString i)

theorem mem_repeatingKeys_iff :
    k ∈ repeatingKeys object ↔ k ∈ object.keys ∧ isRepeatingKey k = true := List.mem_filter

theorem mem_repeatingKeys_of_turn (h : turn? object i = some k) : k ∈ repeatingKeys object :=
  List.mem_of_getElem? h

theorem turn?_eq_none_iff : turn? object i = none ↔ repeatingKeys object = [] := by
  rw [turn?, List.getElem?_eq_none_iff]
  constructor
  · intro h
    rw [← List.length_eq_zero_iff]
    by_contra hne
    have := Nat.mod_lt i (Nat.pos_of_ne_zero hne)
    omega
  · intro h
    rw [h]
    exact Nat.zero_le _

theorem rowKey?_eq_some_iff : rowKey? object key = some k ↔
    k ∈ object.keys ∧ (k = key ∨ k = "*" ∧ key ∉ object.keys) := by
  by_cases hkey : key ∈ object.keys <;> by_cases hstar : "*" ∈ object.keys <;>
    simp only [rowKey?, List.find?_cons, hkey, hstar] <;> grind

theorem rowKeyAt?_eq_some_iff : rowKeyAt? object i = some k ↔
    k ∈ object.keys ∧ (k = toString i ∨ toString i ∉ object.keys ∧
      (turn? object i = some k ∨ k = "*" ∧ repeatingKeys object = [])) := by
  rw [← turn?_eq_none_iff (i := i)]
  cases hturn : turn? object i with
  | none =>
    by_cases hkey : toString i ∈ object.keys <;> by_cases hstar : "*" ∈ object.keys <;>
      simp only [rowKeyAt?, hturn, Option.toList_none, List.nil_append, List.find?_cons, hkey,
        hstar] <;> grind
  | some k' =>
    have hk' : k' ∈ object.keys := (mem_repeatingKeys_iff.1 (mem_repeatingKeys_of_turn hturn)).1
    by_cases hkey : toString i ∈ object.keys <;>
      simp only [rowKeyAt?, hturn, Option.toList_some, List.cons_append, List.find?_cons, hkey,
        hk'] <;> grind

theorem lookupWildcard_of_mem (h : "*" ∈ object.keys) :
    lookupWildcard object = (object.get? "*", .extra) := by
  obtain ⟨row, hrow⟩ := KeyedList.exists_get?_of_mem_keys h
  rw [lookupWildcard, SchemaObject.wildcard?, hrow]

theorem lookupWildcard_of_notMem (h : "*" ∉ object.keys) :
    lookupWildcard object = (none, .unmatched) := by
  rw [lookupWildcard, SchemaObject.wildcard?, KeyedList.get?_eq_none_iff.2 h]

theorem getElem?_repeatingRows (object : SchemaObject) (n : ℕ) :
    (repeatingRows object)[n]? = (repeatingKeys object)[n]?.bind object.get? := by
  have hkeys : repeatingKeys object =
      (object.pairs.filter fun p ↦ isRepeatingKey p.1).map Prod.fst := List.filter_map
  rw [repeatingRows, hkeys, List.getElem?_map, List.getElem?_map]
  cases hp : (object.pairs.filter fun p ↦ isRepeatingKey p.1)[n]? with
  | none => rfl
  | some p =>
    have hmem : p ∈ object.pairs := (List.mem_filter.1 (List.mem_of_getElem? hp)).1
    exact (KeyedList.get?_eq_some_iff.2 hmem).symm

theorem length_repeatingRows (object : SchemaObject) :
    (repeatingRows object).length = (repeatingKeys object).length := by
  have hkeys : repeatingKeys object =
      (object.pairs.filter fun p ↦ isRepeatingKey p.1).map Prod.fst := List.filter_map
  rw [repeatingRows, hkeys, List.length_map, List.length_map]

theorem lookupKey_eq (object : SchemaObject) (key : String) :
    lookupKey (some object) key = match rowKey? object key with
      | some k => (object.get? k, if k = key then .declared else .extra)
      | none => (none, .unmatched) := by
  cases hget : object.get? key with
  | some row =>
    have hmem := KeyedList.mem_keys_of_get?_eq_some hget
    have hkey : rowKey? object key = some key := rowKey?_eq_some_iff.2 ⟨hmem, .inl rfl⟩
    simp [lookupKey, hkey, hget]
  | none =>
    have hmem := KeyedList.get?_eq_none_iff.1 hget
    by_cases hstar : "*" ∈ object.keys
    · have hne : "*" ≠ key := fun h ↦ hmem (h ▸ hstar)
      have hkey : rowKey? object key = some "*" :=
        rowKey?_eq_some_iff.2 ⟨hstar, .inr ⟨rfl, hmem⟩⟩
      simp [lookupKey, hkey, hget, hne, lookupWildcard_of_mem hstar]
    · have hkey : rowKey? object key = none := by simp [rowKey?, hmem, hstar]
      simp [lookupKey, hkey, hget, lookupWildcard_of_notMem hstar]

theorem lookupIndex_eq (object : SchemaObject) (i : ℕ) :
    lookupIndex (some object) i = match rowKeyAt? object i with
      | some k => (object.get? k, if k = "*" then .extra else .declared)
      | none => (none, .unmatched) := by
  have hrow : (repeatingRows object)[i % (repeatingRows object).length]? =
      (turn? object i).bind object.get? := by
    rw [getElem?_repeatingRows, length_repeatingRows, turn?]
  cases hget : object.get? (toString i) with
  | some row =>
    have hmem := KeyedList.mem_keys_of_get?_eq_some hget
    have hkey : rowKeyAt? object i = some (toString i) :=
      rowKeyAt?_eq_some_iff.2 ⟨hmem, .inl rfl⟩
    simp only [lookupIndex, hkey, hget, toString_ne_star, if_false]
  | none =>
    have hmem := KeyedList.get?_eq_none_iff.1 hget
    simp only [lookupIndex, hget, hrow]
    cases hturn : turn? object i with
    | some k =>
      obtain ⟨hk, hrepeats⟩ := mem_repeatingKeys_iff.1 (mem_repeatingKeys_of_turn hturn)
      obtain ⟨row, hrow⟩ := KeyedList.exists_get?_of_mem_keys hk
      have hkey : rowKeyAt? object i = some k :=
        rowKeyAt?_eq_some_iff.2 ⟨hk, .inr ⟨hmem, .inl hturn⟩⟩
      simp only [Option.bind_some, hkey, hrow, ne_star_of_isRepeatingKey hrepeats, if_false]
    | none =>
      rw [Option.bind_none]
      by_cases hstar : "*" ∈ object.keys
      · have hkey : rowKeyAt? object i = some "*" := rowKeyAt?_eq_some_iff.2
          ⟨hstar, .inr ⟨hmem, .inr ⟨rfl, turn?_eq_none_iff.1 hturn⟩⟩⟩
        simp only [hkey, if_true, lookupWildcard_of_mem hstar]
      · have hkey : rowKeyAt? object i = none := by
          simp only [rowKeyAt?, hturn, Option.toList_none, List.nil_append, List.find?_cons,
            List.find?_nil, hmem, hstar, decide_false]
        simp only [hkey, lookupWildcard_of_notMem hstar]

theorem lookupKey_fst (object : SchemaObject) (key : String) :
    (lookupKey (some object) key).1 = (rowKey? object key).bind object.get? := by
  rw [lookupKey_eq]
  cases rowKey? object key <;> rfl

theorem lookupIndex_fst (object : SchemaObject) (i : ℕ) :
    (lookupIndex (some object) i).1 = (rowKeyAt? object i).bind object.get? := by
  rw [lookupIndex_eq]
  cases rowKeyAt? object i <;> rfl

theorem rowKey?_eq_some_iff_of_ne (hmem : k ∈ object.keys) (hk : k ≠ "*") :
    rowKey? object key = some k ↔ key = k := by
  rw [rowKey?_eq_some_iff]
  grind

theorem rowKeyAt?_eq_some_iff_of_notMem (hmem : k ∈ object.keys) (hk : '*' ∉ k.toList) :
    rowKeyAt? object i = some k ↔ toString i = k := by
  have hturn : turn? object i ≠ some k := fun h ↦
    hk (star_mem_of_isRepeatingKey (mem_repeatingKeys_iff.1 (mem_repeatingKeys_of_turn h)).2)
  have hne : k ≠ "*" := ne_star_of_notMem hk
  rw [rowKeyAt?_eq_some_iff]
  grind

/-- A lookup is extra if the wildcard is what it finds, unless the key is the name of the wildcard
itself: that one is taken for a declared key. -/
theorem class_eq_extra_iff (object : SchemaObject) :
    (∀ key, (lookupKey (some object) key).1 = (rowKey? object key).bind object.get? ∧
      ((lookupKey (some object) key).2 = .extra ↔ rowKey? object key = some "*" ∧ key ≠ "*") ∧
      ((lookupKey (some object) key).2 = .declared ↔
        ∃ k, rowKey? object key = some k ∧ (k ≠ "*" ∨ key = "*"))) ∧
    ∀ i, (lookupIndex (some object) i).1 = (rowKeyAt? object i).bind object.get? ∧
      ((lookupIndex (some object) i).2 = .extra ↔ rowKeyAt? object i = some "*") ∧
      ((lookupIndex (some object) i).2 = .declared ↔
        ∃ k, rowKeyAt? object i = some k ∧ k ≠ "*") := by
  constructor
  · intro key
    refine ⟨lookupKey_fst object key, ?_⟩
    rw [lookupKey_eq]
    cases hkey : rowKey? object key with
    | none => simp
    | some k =>
      obtain ⟨hk, rfl | ⟨rfl, hmem⟩⟩ := rowKey?_eq_some_iff.1 hkey
      · simpa using ne_or_eq k "*"
      · have hne : key ≠ "*" := fun h ↦ hmem (h ▸ hk)
        simp [hne, hne.symm]
  · intro i
    refine ⟨lookupIndex_fst object i, ?_⟩
    rw [lookupIndex_eq]
    cases rowKeyAt? object i with
    | none => simp
    | some k => by_cases hk : k = "*" <;> simp [hk]

def keyedObject (keys : List String) : SchemaObject :=
  keys.foldl (fun object k ↦ object.put k (Schema.dictionaryRow [k])) KeyedList.empty

theorem keyedObject_declares_star :
    ¬ ∀ key, ((lookupKey (some (keyedObject ["*"])) key).2 = .extra ↔
        rowKey? (keyedObject ["*"]) key = some "*") ∧
      ((lookupKey (some (keyedObject ["*"])) key).2 = .declared →
        rowKey? (keyedObject ["*"]) key ≠ some "*") := by
  intro h
  have hdeclared : (lookupKey (some (keyedObject ["*"])) "*").2 = .declared := by decide
  exact (h "*").2 hdeclared (by decide)

/-- The key of the row that is meant for the index `n` and those that come around to it. -/
def repeatingKey (n : ℕ) : String := toString n ++ "*"

theorem toList_repeatingKey (n : ℕ) : (repeatingKey n).toList = (toString n).toList ++ ['*'] := by
  rw [repeatingKey, String.toList_append]
  rfl

theorem isRepeatingKey_repeatingKey (n : ℕ) : isRepeatingKey (repeatingKey n) = true := by
  refine isRepeatingKey_iff.2 ⟨(toString n).toList, ?_, ?_, toList_repeatingKey n⟩
  · rw [toList_toString]
    exact Nat.toDigits_ne_nil
  · exact fun d hd ↦ isDigit_of_mem_toString hd

theorem nodup_repeatingKeys (object : SchemaObject) : (repeatingKeys object).Nodup :=
  object.nodup.filter _

/-- Where an object declares no row under an index itself, the turn decides. -/
theorem rowKeyAt?_of_notMem (hne : repeatingKeys object ≠ []) (hi : toString i ∉ object.keys) :
    rowKeyAt? object i = turn? object i := by
  cases hturn : turn? object i with
  | none => exact absurd (turn?_eq_none_iff.1 hturn) hne
  | some k =>
    have hk := (mem_repeatingKeys_iff.1 (mem_repeatingKeys_of_turn hturn)).1
    exact rowKeyAt?_eq_some_iff.2 ⟨hk, .inr ⟨hi, .inl hturn⟩⟩

theorem turn?_eq_some_iff (hk : k ∈ repeatingKeys object) : turn? object i = some k ↔
    (repeatingKeys object).idxOf k = i % (repeatingKeys object).length := by
  rw [turn?, List.getElem?_eq_some_iff]
  constructor
  · rintro ⟨hlt, rfl⟩
    exact (nodup_repeatingKeys object).idxOf_getElem _ hlt
  · intro h
    have hlt := List.idxOf_lt_length_of_mem hk
    simp only [← h]
    exact ⟨hlt, List.getElem_idxOf hlt⟩

/-- Only finitely many indices have a row of their own, so that every residue is left to the turn
somewhere. -/
theorem exists_index_of_lt (object : SchemaObject) {j : ℕ} (hj : j < n) :
    ∃ i, i % n = j ∧ toString i ∉ object.keys := by
  have hinjective : Function.Injective fun m : ℕ ↦ toString (j + n * m) := by
    intro a b h
    have hmul : n * a = n * b := Nat.add_left_cancel (toString_injective h)
    exact Nat.eq_of_mul_eq_mul_left (by omega) hmul
  obtain ⟨_, ⟨m, rfl⟩, hm⟩ := (Set.infinite_range_of_injective hinjective).exists_notMem_finite
    (List.finite_toSet object.keys)
  exact ⟨j + n * m, by rw [Nat.add_mul_mod_self_left, Nat.mod_eq_of_lt hj], hm⟩

/-- The keys `0*`, `1*`, … up to a number each speak about their own residue if and only if they
stand in that order. -/
theorem turns_eq_residues_iff (hn : 0 < n)
    (hkeys : (repeatingKeys object).Perm ((List.range n).map repeatingKey)) :
    (∀ i, toString i ∉ object.keys → turn? object i = some (repeatingKey (i % n))) ↔
      repeatingKeys object = (List.range n).map repeatingKey := by
  have hlength : (repeatingKeys object).length = n := by simpa using hkeys.length_eq
  constructor
  · intro h
    refine List.ext_getElem? fun j ↦ ?_
    by_cases hj : j < n
    · obtain ⟨i, rfl, hi⟩ := exists_index_of_lt object hj
      have hturn := h i hi
      rw [turn?, hlength] at hturn
      simp [hturn, hj]
    · have hj' : n ≤ j := Nat.le_of_not_lt hj
      rw [List.getElem?_eq_none (by omega), List.getElem?_eq_none (by simpa using hj')]
  · intro h i _
    rw [turn?, hlength, h]
    simp [Nat.mod_lt i hn]

/-- The repeating rows take turns in the order of the object, whatever numbers their keys begin
with: a row serves the index that its key begins with if its place falls to that index. -/
theorem repeating_rows_take_turns (object : SchemaObject) (hne : repeatingKeys object ≠ []) :
    (∀ i, toString i ∉ object.keys → ∃ k row, turn? object i = some k ∧
      rowKeyAt? object i = some k ∧ object.get? k = some row ∧
      lookupIndex (some object) i = (some row, .declared)) ∧
    (∀ i, toString i ∉ object.keys → repeatingKey i ∈ object.keys →
      (rowKeyAt? object i = some (repeatingKey i) ↔
        (repeatingKeys object).idxOf (repeatingKey i) = i % (repeatingKeys object).length)) ∧
    ∀ n, (repeatingKeys object).Perm ((List.range n).map repeatingKey) →
      ((∀ i, toString i ∉ object.keys → rowKeyAt? object i = some (repeatingKey (i % n))) ↔
        repeatingKeys object = (List.range n).map repeatingKey) := by
  refine ⟨?_, ?_, ?_⟩
  · intro i hi
    obtain ⟨k, hturn⟩ := Option.ne_none_iff_exists'.1 (mt turn?_eq_none_iff.1 hne)
    have hrepeats := mem_repeatingKeys_iff.1 (mem_repeatingKeys_of_turn hturn)
    obtain ⟨row, hrow⟩ := KeyedList.exists_get?_of_mem_keys hrepeats.1
    have hkey := (rowKeyAt?_of_notMem hne hi).trans hturn
    refine ⟨k, row, hturn, hkey, hrow, ?_⟩
    simp only [lookupIndex_eq, hkey, hrow, ne_star_of_isRepeatingKey hrepeats.2, if_false]
  · intro i hi hmem
    rw [rowKeyAt?_of_notMem hne hi]
    exact turn?_eq_some_iff (mem_repeatingKeys_iff.2 ⟨hmem, isRepeatingKey_repeatingKey i⟩)
  · intro n hkeys
    have hn : 0 < n := by
      have hlength : (repeatingKeys object).length = n := by simpa using hkeys.length_eq
      exact hlength ▸ List.length_pos_iff.2 hne
    rw [← turns_eq_residues_iff hn hkeys]
    exact forall₂_congr fun i hi ↦ by rw [rowKeyAt?_of_notMem hne hi]

theorem keyedObject_pairs_take_turns :
    repeatingKeys (keyedObject ["0", "0*", "1*"]) ≠ [] ∧
      ∀ i, toString i ∉ (keyedObject ["0", "0*", "1*"]).keys →
        rowKeyAt? (keyedObject ["0", "0*", "1*"]) i = some (repeatingKey (i % 2)) := by
  have hne : repeatingKeys (keyedObject ["0", "0*", "1*"]) ≠ [] := by decide
  have hkeys : repeatingKeys (keyedObject ["0", "0*", "1*"]) =
      (List.range 2).map repeatingKey := by decide
  exact ⟨hne, ((repeating_rows_take_turns _ hne).2.2 2 (.of_eq hkeys)).2 hkeys⟩

/-- Behind a first row of its own, the row of `1*` does not get the index 1, and pairs in the other
order swap their rows. -/
theorem keyedObject_gets_other_row :
    ¬ (∀ i, toString i ∉ (keyedObject ["0", "1*", "2*"]).keys →
      repeatingKey i ∈ (keyedObject ["0", "1*", "2*"]).keys →
      lookupIndex (some (keyedObject ["0", "1*", "2*"])) i =
        ((keyedObject ["0", "1*", "2*"]).get? (repeatingKey i), .declared)) ∧
    (repeatingKeys (keyedObject ["1*", "0*"])).Perm ((List.range 2).map repeatingKey) ∧
    ¬ ∀ i, toString i ∉ (keyedObject ["1*", "0*"]).keys →
      (lookupIndex (some (keyedObject ["1*", "0*"])) i).1 =
        (keyedObject ["1*", "0*"]).get? (repeatingKey (i % 2)) := by
  refine ⟨?_, by decide, ?_⟩
  · intro h
    have hnames := congrArg (fun x ↦ x.1.map Row.linkNames) (h 1 (by decide) (by decide))
    revert hnames
    decide
  · intro h
    have hnames := congrArg (Option.map Row.linkNames) (h 0 (by decide))
    revert hnames
    decide

end Match

end PdfSchema
