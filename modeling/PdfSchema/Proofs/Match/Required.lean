import PdfSchema.Proofs.Match.Justification
import PdfSchema.Proofs.Match.Precedence

namespace PdfSchema

namespace Match

variable {object : SchemaObject} {v : PdfValue} {k name : String} {row : Row}

def rowKeyIn? (container : PdfValue) (object : SchemaObject) (i : ℕ) (key : String) :
    Option String :=
  match container with
  | .array _ => rowKeyAt? object i
  | _ => rowKey? object key

theorem lookupIn_fst (v : PdfValue) (object : SchemaObject) (i : ℕ) (key : String) :
    (lookupIn v object i key).1 = (rowKeyIn? v object i key).bind object.get? := by
  cases v with
  | array items => exact lookupIndex_fst object i
  | _ => exact lookupKey_fst object key

/-- Whether a key is the number of an item of an array, but not in the spelling that the item is
looked up under. -/
def IsRespelledIndex (v : PdfValue) (k : String) : Prop :=
  ∃ items n, v = .array items ∧ n < items.length ∧ Text.IsPadded k.toList n

theorem mem_keys_children_array_iff {items : List PdfValue} :
    k ∈ (PdfValue.array items).children.map Prod.fst ↔
      ∃ n < items.length, k.toList = Nat.toDigits 10 n := by
  simp only [PdfValue.keys_children_array, List.mem_map, List.mem_range, ← toList_toString,
    String.toList_inj, eq_comm]

theorem getElem?_children_array {items : List PdfValue} {i : ℕ} {e : String × PdfValue}
    (h : (PdfValue.array items).children[i]? = some e) :
    ∃ item, items[i]? = some item ∧ e = (toString i, item) := by
  simp only [PdfValue.children, List.getElem?_map, List.getElem?_zipIdx, Option.map_map,
    Option.map_eq_some_iff] at h
  obtain ⟨item, hitem, rfl⟩ := h
  exact ⟨item, hitem, by simp⟩

theorem not_isRespelledIndex (hv : v.items? = none) : ¬ IsRespelledIndex v k := by
  rintro ⟨items, _, rfl, _⟩
  cases hv

theorem IsRespelledIndex.notMem (h : IsRespelledIndex v k) : k ∉ v.children.map Prod.fst := by
  obtain ⟨items, n, rfl, _, hk⟩ := h
  intro hmem
  obtain ⟨m, _, hm⟩ := mem_keys_children_array_iff.1 hmem
  exact hk.ne_toDigits m hm

theorem hasKey_array_iff {items : List PdfValue} :
    Context.hasKey (.array items) k = true ↔
      ∃ n < items.length, Text.natural? UInt64.size k.toList = some n := by
  unfold Context.hasKey
  cases Text.natural? UInt64.size k.toList with
  | none => simp
  | some n => simp

theorem hasKey_iff (hlength : v.children.length ≤ UInt64.size) :
    Context.hasKey v k = true ↔ k ∈ v.children.map Prod.fst ∨ IsRespelledIndex v k := by
  cases v with
  | array items =>
    have hlength : items.length ≤ UInt64.size := by simpa [PdfValue.children] using hlength
    have hread {n : ℕ} (hn : n < items.length) :
        Text.natural? UInt64.size k.toList = some n ↔
          k.toList = Nat.toDigits 10 n ∨ Text.IsPadded k.toList n := by
      rw [Text.natural?_eq_some_iff, and_iff_right (hn.trans_le hlength)]
    rw [hasKey_array_iff, mem_keys_children_array_iff]
    constructor
    · rintro ⟨n, hn, h⟩
      exact ((hread hn).1 h).imp (fun h ↦ ⟨n, hn, h⟩) fun h ↦ ⟨items, n, rfl, hn, h⟩
    · rintro (⟨n, hn, h⟩ | ⟨_, n, ⟨⟩, hn, h⟩)
      · exact ⟨n, hn, (hread hn).2 (.inl h)⟩
      · exact ⟨n, hn, (hread hn).2 (.inr h)⟩
  | dictionary es =>
    rw [or_iff_left (not_isRespelledIndex rfl)]
    exact Pairs.isSome_get?_iff
  | stream es n =>
    rw [or_iff_left (not_isRespelledIndex rfl)]
    exact Pairs.isSome_get?_iff
  | _ =>
    rw [or_iff_left (not_isRespelledIndex rfl)]
    simp [Context.hasKey, PdfValue.entry?, PdfValue.entries?, PdfValue.children]

theorem exists_rowKeyIn_iff (hmem : k ∈ object.keys) (hk : '*' ∉ k.toList) :
    (∃ i e, v.children[i]? = some e ∧ rowKeyIn? v object i e.1 = some k) ↔
      k ∈ v.children.map Prod.fst := by
  have hkey {i : ℕ} {e : String × PdfValue} (he : v.children[i]? = some e) :
      rowKeyIn? v object i e.1 = some k ↔ e.1 = k := by
    cases v with
    | array items =>
      obtain ⟨item, _, rfl⟩ := getElem?_children_array he
      exact rowKeyAt?_eq_some_iff_of_notMem hmem hk
    | _ => exact rowKey?_eq_some_iff_of_ne hmem (ne_star_of_notMem hk)
  rw [List.mem_map]
  constructor
  · rintro ⟨i, e, he, hrow⟩
    exact ⟨e, List.mem_of_getElem? he, (hkey he).1 hrow⟩
  · rintro ⟨e, he, rfl⟩
    obtain ⟨i, hi⟩ := List.getElem?_of_mem he
    exact ⟨i, e, hi, (hkey hi).2 rfl⟩

namespace Context

variable {c : Context} {visited : List ObjectId} {f g : Frame} {t : Stop} {maxDepth : ℕ}

/-- Whether a walk enters a container at a stop and looks its keys up in an object. -/
structure EntersWith (c : Context) (maxDepth : ℕ) (t : Stop) (name : String)
    (object : SchemaObject) : Prop where
  depth : ¬ maxDepth < t.frame.depth
  enters : c.enters t.visited t.frame = true
  isSealed : (c.annotation t.frame).isSealed = false
  link : (c.annotation t.frame).link = some name
  object : c.schema.get? name = some object

/-- Whether a key of an object is told of as missing where a container is entered. -/
def TellsMissing (c : Context) (maxDepth : ℕ) (t : Stop) (name k : String) : Prop :=
  ⟨t.frame.path, some name, .missingRequired k name⟩ ∈ c.findingsAt maxDepth t

/-- Whether the row under a key of an object is found for a value inside the container that is
entered at a stop. -/
def FindsRow (c : Context) (t : Stop) (object : SchemaObject) (k : String) : Prop :=
  ∃ i g, (c.visit t.visited t.frame).children[i]? = some g ∧
    rowKeyIn? (c.target t.frame).value object i g.key = some k ∧ g.row = object.get? k

theorem layout_of_get? {link : Option String} (hlink : link = some name)
    (hget : c.schema.get? name = some object) : c.layout link = some (name, object) := by
  subst hlink
  simp [layout, hget]

theorem enter_findings {a : Annotation} (hs : a.isSealed = false)
    (hlayout : c.layout a.link = some (name, object)) (v : PdfValue) :
    (c.enter f a v).1 = keyFindings f name object v := by
  unfold enter
  split
  case h_5 => simp only [hlayout]
  all_goals
    rename_i htype
    simp [htype, Annotation.isSealed, ValueType.isSealed] at hs

theorem tellsMissing_iff (h : c.EntersWith maxDepth t name object) :
    c.TellsMissing maxDepth t name k ↔ k ∈ missingKeys object (c.target t.frame).value := by
  have hfindings := enter_findings (f := t.frame) h.isSealed (layout_of_get? h.link h.object)
    (c.target t.frame).value
  unfold TellsMissing
  rw [findingsAt, if_neg h.depth, mem_visit_findings, hfindings, keyFindings]
  constructor
  · rintro (hx | hx | ⟨id, _, hx⟩ | ⟨_, hx⟩)
    · obtain ⟨_, hissue⟩ := mem_referenceFindings hx
      cases hissue
    · obtain ⟨_, _, hissue⟩ := mem_kindFindings hx
      cases hissue
    · have hissue := congrArg Finding.issue hx
      simp only [revisitFinding, Frame.finding] at hissue
      split at hissue <;> cases hissue
    · rcases List.mem_append.1 hx with hx | hx
      · obtain ⟨_, _, hx⟩ := List.mem_map.1 hx
        cases congrArg Finding.issue hx
      · obtain ⟨key, hkey, hx⟩ := List.mem_map.1 hx
        cases hx
        exact hkey
  · intro hk
    exact .inr (.inr (.inr ⟨h.enters, List.mem_append_right _ (List.mem_map_of_mem hk)⟩))

theorem mem_missingKeys_iff (hget : object.get? k = some row) (hk : '*' ∉ k.toList)
    (hrequired : row.isRequired = true) (hinheritable : row.inheritable.isTrue = false) :
    k ∈ missingKeys object v ↔ hasKey v k = false := by
  constructor
  · intro h
    obtain ⟨p, hp, rfl⟩ := List.mem_map.1 h
    simpa using (Bool.and_eq_true_iff.1 (List.mem_filter.1 hp).2).2
  · intro h
    refine List.mem_map.2 ⟨(k, row), List.mem_filter.2 ⟨KeyedList.get?_eq_some_iff.1 hget, ?_⟩, rfl⟩
    simp [hk, hrequired, hinheritable, h]

theorem findsRow_iff (h : c.EntersWith maxDepth t name object) (hmem : k ∈ object.keys)
    (hk : '*' ∉ k.toList) :
    c.FindsRow t object k ↔ k ∈ (c.target t.frame).value.children.map Prod.fst := by
  rw [← exists_rowKeyIn_iff hmem hk]
  constructor
  · rintro ⟨i, g, hg, hkey, _⟩
    exact ⟨i, (g.key, g.node), (of_mem_visit_children hg).2.2.1, hkey⟩
  · rintro ⟨i, e, he, hkey⟩
    obtain ⟨g, hg, rfl⟩ := exists_visit_child h.enters h.isSealed he
    refine ⟨i, g, hg, hkey, ?_⟩
    have hobject : g.object = some name := by
      have hmem := List.mem_of_getElem? hg
      rw [visit_children h.enters h.isSealed, layout_of_get? h.link h.object] at hmem
      exact (mem_childFrames hmem).2.1
    obtain ⟨object', hget, _, _, hlookup⟩ := lookupIn_of_visit_children hg hobject
    obtain rfl : object' = object := Option.some.inj (hget.symm.trans h.object)
    rw [show g.row = _ from congrArg Prod.fst hlookup, lookupIn_fst, hkey, Option.bind_some]

end Context

end Match

open Match

namespace Schema

variable {s : Schema} {d : Document} {options : Options} {t : Stop} {name k : String}
  {object : SchemaObject} {row : Row}

/-- A required key of an object is told of as missing from a container that is entered with the
object, or a value inside is looked up under it. A key that is another spelling of an index falls
between the two. No container holds more values than a machine word can count. -/
theorem required_key_missing_or_found (ht : t ∈ s.stops d options)
    (h : Context.EntersWith ⟨s, d⟩ options.maxDepth t name object)
    (hlength : (d.resolved t.frame.node).value.children.length ≤ UInt64.size)
    (hget : object.get? k = some row) (hk : '*' ∉ k.toList) (hrequired : row.isRequired = true)
    (hinheritable : row.inheritable.isTrue = false) :
    (∀ x ∈ Context.findingsAt ⟨s, d⟩ options.maxDepth t,
      x ∈ (s.matchDocument d options).findings) ∧
    (¬ IsRespelledIndex (d.resolved t.frame.node).value k →
      (Context.TellsMissing ⟨s, d⟩ options.maxDepth t name k ↔
        ¬ Context.FindsRow ⟨s, d⟩ t object k)) ∧
    (IsRespelledIndex (d.resolved t.frame.node).value k →
      ¬ Context.TellsMissing ⟨s, d⟩ options.maxDepth t name k ∧
        ¬ Context.FindsRow ⟨s, d⟩ t object k) := by
  rw [Context.tellsMissing_iff h, Context.mem_missingKeys_iff hget hk hrequired hinheritable,
    Context.findsRow_iff h (KeyedList.mem_keys_of_get?_eq_some hget) hk, ← Bool.not_eq_true]
  have hheld := hasKey_iff (k := k) hlength
  refine ⟨fun x hx ↦ mem_findings_iff.2 (.inr ⟨t, ht, hx⟩), fun hspelled ↦ ?_, fun hspelled ↦ ?_⟩
  · rw [or_iff_left hspelled] at hheld
    exact not_congr hheld
  · exact ⟨not_not_intro (hheld.2 (.inr hspelled)), hspelled.notMem⟩

def requiringObject (keys : List String) : SchemaObject :=
  keys.foldl (fun object k ↦
    object.put k { dictionaryRow [] with required := [.literal true] }) KeyedList.empty

def pairSchema : Schema :=
  (KeyedList.empty.put "FileTrailer" (KeyedList.empty.put "Pair"
    { dictionaryRow ["Pair"] with types := [.named "array"] })).put
    "Pair" (requiringObject ["0", "01"])

def pairDocument : Document where
  trailer := .dictionary [("Pair", .array [.null, .null])]
  objects := .empty

theorem exists_stop_pairDocument : ∃ t ∈ pairSchema.stops pairDocument {},
    Context.EntersWith ⟨pairSchema, pairDocument⟩ defaultMaxDepth t "Pair"
      (requiringObject ["0", "01"]) ∧
    (pairDocument.resolved t.frame.node).value = .array [.null, .null] := by
  have hstop : ((pairSchema.stops pairDocument {}).map fun t ↦
      ((Context.annotation ⟨pairSchema, pairDocument⟩ t.frame).link,
        (Context.annotation ⟨pairSchema, pairDocument⟩ t.frame).isSealed,
        Context.enters ⟨pairSchema, pairDocument⟩ t.visited t.frame, t.frame.depth,
        (pairDocument.resolved t.frame.node).value))[1]? =
      some (some "Pair", false, true, 1, .array [.null, .null]) := by
    cbv
  rw [List.getElem?_map, Option.map_eq_some_iff] at hstop
  obtain ⟨t, ht, he⟩ := hstop
  simp only [Prod.mk.injEq] at he
  obtain ⟨hlink, hsealed, henters, hdepth, hvalue⟩ := he
  refine ⟨t, List.mem_of_getElem? ht, ⟨?_, henters, hsealed, hlink, rfl⟩, hvalue⟩
  rw [hdepth]
  decide

theorem pairDocument_required : ∃ t ∈ pairSchema.stops pairDocument {},
    Context.EntersWith ⟨pairSchema, pairDocument⟩ defaultMaxDepth t "Pair"
      (requiringObject ["0", "01"]) ∧
    (Context.TellsMissing ⟨pairSchema, pairDocument⟩ defaultMaxDepth t "Pair" "0" ↔
      ¬ Context.FindsRow ⟨pairSchema, pairDocument⟩ t (requiringObject ["0", "01"]) "0") ∧
    ¬ Context.TellsMissing ⟨pairSchema, pairDocument⟩ defaultMaxDepth t "Pair" "01" := by
  obtain ⟨t, ht, h, hvalue⟩ := exists_stop_pairDocument
  have hlength : (pairDocument.resolved t.frame.node).value.children.length ≤ UInt64.size := by
    rw [hvalue]
    decide
  have hspelled : ¬ IsRespelledIndex (pairDocument.resolved t.frame.node).value "0" := by
    rintro ⟨_, n, _, _, hpadded⟩
    exact hpadded.ne_toDigits 0 rfl
  have hrespelled : IsRespelledIndex (pairDocument.resolved t.frame.node).value "01" :=
    ⟨_, 1, hvalue, by decide, [], 1, .inl ⟨rfl, by decide⟩, by decide⟩
  obtain ⟨-, hzero, -⟩ := required_key_missing_or_found ht h hlength
    (k := "0") rfl (by decide) (by decide) (by decide)
  obtain ⟨-, -, hone⟩ := required_key_missing_or_found ht h hlength
    (k := "01") rfl (by decide) (by decide) (by decide)
  exact ⟨t, ht, h, hzero hspelled, (hone hrespelled).1⟩

theorem pairDocument_neither :
    ¬ ∀ t ∈ pairSchema.stops pairDocument {}, ∀ name object k row,
      Context.EntersWith ⟨pairSchema, pairDocument⟩ defaultMaxDepth t name object →
      object.get? k = some row → '*' ∉ k.toList → row.isRequired = true →
      row.inheritable.isTrue = false →
      (Context.TellsMissing ⟨pairSchema, pairDocument⟩ defaultMaxDepth t name k ↔
        ¬ Context.FindsRow ⟨pairSchema, pairDocument⟩ t object k) := by
  intro hall
  obtain ⟨t, ht, h, hvalue⟩ := exists_stop_pairDocument
  have htarget : (Context.target ⟨pairSchema, pairDocument⟩ t.frame).value =
      .array [.null, .null] := hvalue
  have hget : (requiringObject ["0", "01"]).get? "01" =
      some { dictionaryRow [] with required := [.literal true] } := rfl
  have hexactly := hall t ht "Pair" _ "01" _ h hget (by decide) (by decide) (by decide)
  rw [Context.tellsMissing_iff h,
    Context.mem_missingKeys_iff hget (by decide) (by decide) (by decide),
    Context.findsRow_iff h (KeyedList.mem_keys_of_get?_eq_some hget) (by decide), htarget]
    at hexactly
  revert hexactly
  decide

end Schema

end PdfSchema
