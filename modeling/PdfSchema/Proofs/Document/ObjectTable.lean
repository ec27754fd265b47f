import Mathlib.Data.List.Nodup
import Mathlib.Data.List.Perm.Subperm
import PdfSchema.Proofs.Document.Keys
import PdfSchema.Proofs.KeyedList

namespace PdfSchema.Document

open Decoding

def identified? (e : String × PdfValue) : Option (ObjectId × PdfValue) :=
  (ObjectId.parse? e.1).map fun id ↦ (id, e.2)

def denotedIds (entries : List (String × PdfValue)) : List ObjectId :=
  (Pairs.keys entries).filterMap ObjectId.parse?

variable {raw : RawDocument} {d : Document} {entries : List (String × PdfValue)}
  {e : String × PdfValue} {table table' : KeyedList ObjectId PdfValue} {id : ObjectId} {v : PdfValue}

theorem identified?_eq_some_iff :
    identified? e = some (id, v) ↔ ObjectId.parse? e.1 = some id ∧ e.2 = v := by
  cases hid : ObjectId.parse? e.1 <;> simp [identified?, hid]

theorem keys_filterMap_identified? (entries : List (String × PdfValue)) :
    Pairs.keys (entries.filterMap identified?) = denotedIds entries := by
  rw [Pairs.keys, List.map_filterMap, denotedIds, Pairs.keys, List.filterMap_map]
  congr 1
  funext e
  simp [identified?, Option.map_map, Function.comp_def]

theorem addObjects_eq_ok_iff : addObjects table entries = .ok table' ↔
    (∀ e ∈ entries, (ObjectId.parse? e.1).isSome) ∧
      table' = table.putAll (entries.filterMap identified?) := by
  induction entries generalizing table with
  | nil =>
    constructor
    · intro h
      cases h
      exact ⟨List.forall_mem_nil _, rfl⟩
    · rintro ⟨-, rfl⟩
      rfl
  | cons e entries ih =>
    unfold addObjects
    cases hid : ObjectId.parse? e.1 with
    | none => simp [hid]
    | some id =>
      have hentry : identified? e = some (id, e.2) := identified?_eq_some_iff.2 ⟨hid, rfl⟩
      simp only [ih, List.forall_mem_cons, hid, Option.isSome_some, true_and,
        List.filterMap_cons_some hentry]
      rfl

/-- A raw document is one exactly if its trailer has keys and all keys of its table denote ids. -/
theorem ofRaw_eq_ok_iff : ofRaw raw = .ok d ↔
    (raw.trailer.kind = .dictionary ∨ raw.trailer.kind = .stream) ∧
    (∀ e ∈ raw.objects, (ObjectId.parse? e.1).isSome) ∧
    d = ⟨raw.trailer, KeyedList.empty.putAll (raw.objects.filterMap identified?)⟩ := by
  have htable : (do
      let objects ← addObjects .empty raw.objects
      return ⟨raw.trailer, objects⟩ : Except DocumentError Document) = .ok d ↔
      (∀ e ∈ raw.objects, (ObjectId.parse? e.1).isSome) ∧
        d = ⟨raw.trailer, KeyedList.empty.putAll (raw.objects.filterMap identified?)⟩ := by
    constructor
    · intro h
      obtain ⟨objects, hobjects, h⟩ := of_bind_eq_ok h
      obtain ⟨hids, rfl⟩ := addObjects_eq_ok_iff.1 hobjects
      cases h
      exact ⟨hids, rfl⟩
    · rintro ⟨hids, rfl⟩
      rw [addObjects_eq_ok_iff.2 ⟨hids, rfl⟩]
      rfl
  unfold ofRaw
  split
  · rename_i hkind
    rw [htable]
    simp [hkind]
  · rename_i hkind
    rw [htable]
    simp [hkind]
  · rename_i hdictionary hstream
    constructor
    · intro h
      cases h
    · rintro ⟨hkind | hkind, -⟩
      · exact absurd hkind hdictionary
      · exact absurd hkind hstream

theorem keys_of_ofRaw (h : ofRaw raw = .ok d) :
    d.objects.keys = (denotedIds raw.objects).eraseDups := by
  obtain ⟨-, -, rfl⟩ := ofRaw_eq_ok_iff.1 h
  rw [KeyedList.keys_putAll, keys_filterMap_identified?]

theorem get?_eq_some_iff_of_ofRaw (h : ofRaw raw = .ok d) : d.objects.get? id = some v ↔
    ∃ before e after, raw.objects = before ++ e :: after ∧ ObjectId.parse? e.1 = some id ∧
      e.2 = v ∧ ∀ later ∈ after, ObjectId.parse? later.1 ≠ some id := by
  obtain ⟨-, -, rfl⟩ := ofRaw_eq_ok_iff.1 h
  have hlater {e : String × PdfValue} :
      (∀ w, identified? e ≠ some (id, w)) ↔ ObjectId.parse? e.1 ≠ some id := by
    simp [identified?_eq_some_iff]
  rw [KeyedList.get?_putAll_filterMap_eq_some_iff]
  simp only [identified?_eq_some_iff, hlater, and_assoc]

/-- Whether a table has an entry of its own for each entry of a raw table. -/
structure KeepsAll (d : Document) (entries : List (String × PdfValue)) : Prop where
  size : d.objects.size = entries.length
  found : ∀ e ∈ entries, ∃ id, ObjectId.parse? e.1 = some id ∧ d.objects.get? id = some e.2

theorem keepsAll_iff_of_ofRaw (h : ofRaw raw = .ok d) :
    d.KeepsAll raw.objects ↔ (denotedIds raw.objects).Nodup := by
  obtain ⟨-, hids, -⟩ := ofRaw_eq_ok_iff.1 h
  have hmem (id : ObjectId) : id ∈ d.objects.keys ↔ id ∈ denotedIds raw.objects := by
    rw [keys_of_ofRaw h, List.mem_eraseDups]
  have hsize : d.objects.size = d.objects.keys.length := (List.length_map _).symm
  have hlength : (denotedIds raw.objects).length = raw.objects.length := by
    have hall : ∀ key ∈ Pairs.keys raw.objects, (ObjectId.parse? key).isSome :=
      List.forall_mem_map.2 hids
    rw [denotedIds, List.filterMap_length_eq_length.2 hall]
    exact List.length_map _
  constructor
  · intro hkeeps
    have hsub : d.objects.keys.Subperm (denotedIds raw.objects) :=
      d.objects.nodup.subperm fun id hid ↦ (hmem id).1 hid
    have hlengths : (denotedIds raw.objects).length = d.objects.keys.length := by
      rw [hlength, ← hkeeps.size, hsize]
    have hperm : d.objects.keys.Perm (denotedIds raw.objects) :=
      hsub.perm_of_length_le (Nat.le_of_eq hlengths)
    exact hperm.nodup_iff.1 d.objects.nodup
  · intro hnodup
    have hperm : d.objects.keys.Perm (denotedIds raw.objects) :=
      (List.perm_ext_iff_of_nodup d.objects.nodup hnodup).2 hmem
    constructor
    case size => rw [hsize, hperm.length_eq, hlength]
    case found =>
      intro e he
      obtain ⟨id, hid⟩ := Option.isSome_iff_exists.1 (hids e he)
      obtain ⟨before, after, hsplit⟩ := List.append_of_mem he
      have hdenoted : denotedIds raw.objects = denotedIds before ++ id :: denotedIds after := by
        rw [hsplit, denotedIds, Pairs.keys, List.map_append, List.filterMap_append, List.map_cons,
          List.filterMap_cons_some hid]
        rfl
      have hlast : id ∉ denotedIds after := by
        rw [hdenoted] at hnodup
        exact (List.nodup_cons.1 hnodup.of_append_right).1
      refine ⟨id, hid, (get?_eq_some_iff_of_ofRaw h).2 ⟨before, e, after, hsplit, hid, rfl, ?_⟩⟩
      intro later hlater hsame
      exact hlast (List.mem_filterMap.2 ⟨later.1, List.mem_map_of_mem hlater, hsame⟩)

/-- What the table of a document has from a raw table. -/
structure Tabulates (d : Document) (entries : List (String × PdfValue)) : Prop where
  denoted : ∀ e ∈ entries, ∃ id, ObjectId.parse? e.1 = some id ∧ id ∈ d.objects.keys
  object_iff : ∀ id v, d.objects.get? id = some v ↔ ∃ before e after,
    entries = before ++ e :: after ∧ ObjectId.parse? e.1 = some id ∧ e.2 = v ∧
      ∀ later ∈ after, ObjectId.parse? later.1 ≠ some id
  size : d.objects.size = (denotedIds entries).eraseDups.length
  keepsAll_iff : d.KeepsAll entries ↔ (denotedIds entries).Nodup

/-- Each key has its id in the table. Of the objects under one id it is the last one that stays. -/
theorem tabulates_of_ofRaw (h : ofRaw raw = .ok d) : d.Tabulates raw.objects := by
  constructor
  case denoted =>
    intro e he
    obtain ⟨-, hids, -⟩ := ofRaw_eq_ok_iff.1 h
    obtain ⟨id, hid⟩ := Option.isSome_iff_exists.1 (hids e he)
    have hdenoted : id ∈ denotedIds raw.objects :=
      List.mem_filterMap.2 ⟨e.1, List.mem_map_of_mem he, hid⟩
    refine ⟨id, hid, ?_⟩
    rwa [keys_of_ofRaw h, List.mem_eraseDups]
  case object_iff => exact fun _ _ ↦ get?_eq_some_iff_of_ofRaw h
  case size => rw [← keys_of_ofRaw h, KeyedList.keys, Pairs.keys, List.length_map, KeyedList.size]
  case keepsAll_iff => exact keepsAll_iff_of_ofRaw h

def respelledJson : Json :=
  .object [("trailer", .object []),
    ("objects", .object [("1 0", .integer 1), ("2", .integer 2), (" +01", .integer 3)])]

def respelledRaw : RawDocument :=
  ⟨.dictionary [], [("1 0", .integer 1), ("2", .integer 2), (" +01", .integer 3)]⟩

def respelledDocument : Document :=
  ⟨.dictionary [], (KeyedList.empty.put ⟨1, 0⟩ (.integer 3)).put ⟨2, 0⟩ (.integer 2)⟩

theorem respelledDocument_tabulates :
    rawOfJson respelledJson = .ok respelledRaw ∧ ofRaw respelledRaw = .ok respelledDocument ∧
      respelledDocument.Tabulates respelledRaw.objects := by
  have hraw : rawOfJson respelledJson = .ok respelledRaw := rfl
  have hdocument : ofRaw respelledRaw = .ok respelledDocument := rfl
  exact ⟨hraw, hdocument, tabulates_of_ofRaw hdocument⟩

/-- The object under the first of the two keys gets lost. -/
theorem respelledDocument_not_keepsAll :
    rawOfJson respelledJson = .ok respelledRaw ∧ ofRaw respelledRaw = .ok respelledDocument ∧
      ("1 0", .integer 1) ∈ respelledRaw.objects ∧
      respelledDocument.objects.get? ⟨1, 0⟩ = some (.integer 3) ∧
      ¬ respelledDocument.KeepsAll respelledRaw.objects := by
  refine ⟨rfl, rfl, List.mem_cons_self, rfl, fun h ↦ ?_⟩
  have hsize : 2 = 3 := h.size
  cases hsize

end PdfSchema.Document
