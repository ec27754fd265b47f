import PdfSchema.Document.Basic

namespace PdfSchema

/-- Whether the keys of each dictionary and of each stream in a value satisfy `P`. -/
inductive PdfValue.AllKeys (P : List String → Prop) : PdfValue → Prop
  | intro {v : PdfValue} : (∀ es, v.entries? = some es → P (Pairs.keys es)) →
      (∀ e ∈ v.children, AllKeys P e.2) → AllKeys P v

namespace PdfValue.AllKeys

variable {P : List String → Prop} {v : PdfValue}

theorem keys (h : v.AllKeys P) {es : List (String × PdfValue)} (hes : v.entries? = some es) :
    P (Pairs.keys es) := by
  cases h with
  | intro hkeys _ => exact hkeys es hes

theorem child (h : v.AllKeys P) {e : String × PdfValue} (he : e ∈ v.children) : e.2.AllKeys P := by
  cases h with
  | intro _ hchildren => exact hchildren e he

theorem of_leaf (h : v.kind.isContainer = false) : v.AllKeys P := by
  constructor
  · intro es hes
    cases v <;> simp_all [kind, Kind.isContainer, entries?]
  · intro e he
    rw [isContainer_of_mem_children he] at h
    cases h

theorem dictionary {es : List (String × PdfValue)} (hkeys : P (Pairs.keys es))
    (h : ∀ e ∈ es, e.2.AllKeys P) : (dictionary es).AllKeys P := by
  constructor
  · intro es' hes
    cases hes
    exact hkeys
  · exact h

theorem array {items : List PdfValue} (h : ∀ v ∈ items, v.AllKeys P) : (array items).AllKeys P := by
  constructor
  · intro es hes
    cases hes
  · intro e he
    obtain ⟨x, hx, rfl⟩ := List.mem_map.1 he
    exact h x.1 (List.fst_mem_of_mem_zipIdx hx)

end PdfValue.AllKeys

def Document.AllKeys (P : List String → Prop) (d : Document) : Prop :=
  d.trailer.AllKeys P ∧ ∀ id v, d.objects.get? id = some v → v.AllKeys P

abbrev Document.DistinctKeys (d : Document) : Prop := d.AllKeys List.Nodup

abbrev Document.SimpleKeys (d : Document) : Prop :=
  d.AllKeys fun keys ↦ ∀ key ∈ keys, '/' ∉ key.toList

namespace Decoding

def Distinct (es : List (String × PdfValue)) : Prop :=
  (Pairs.keys es).Nodup ∧ ∀ e ∈ es, e.2.AllKeys List.Nodup

theorem distinct_nil : Distinct [] := ⟨List.nodup_nil, fun _ he ↦ nomatch he⟩

theorem Distinct.put {es : List (String × PdfValue)} (h : Distinct es) {v : PdfValue}
    (hv : v.AllKeys List.Nodup) (key : String) : Distinct (Pairs.put es key v) := by
  refine ⟨Pairs.nodup_keys_put h.1 key v, fun e he ↦ ?_⟩
  rcases Pairs.mem_put he with he | rfl
  · exact h.2 e he
  · exact hv

theorem Distinct.dictionary {es : List (String × PdfValue)} (h : Distinct es) :
    (PdfValue.dictionary es).AllKeys List.Nodup := .dictionary h.1 h.2

theorem Distinct.stream {es : List (String × PdfValue)} (h : Distinct es) (n : Nat) :
    (PdfValue.stream es n).AllKeys List.Nodup := by
  constructor
  · intro es' hes
    cases hes
    exact h.1
  · exact h.2

theorem distinct_of_dictionary {es : List (String × PdfValue)}
    (h : (PdfValue.dictionary es).AllKeys List.Nodup) : Distinct es :=
  ⟨h.keys rfl, fun _ he ↦ h.child he⟩

structure Members.Distinct (m : Members) : Prop where
  entries : Decoding.Distinct m.entries
  stream : ∀ es, m.stream = some es → Decoding.Distinct es

theorem ok_of_mapError {ε ε' α : Type} {f : ε → ε'} {x : Except ε α} {a : α}
    (h : x.mapError f = .ok a) : x = .ok a := by
  cases x with
  | error e => cases h
  | ok b =>
    cases h
    rfl

theorem ok_of_within {α : Type} {segment : Segment} {r : Except DecodeError α} {a : α}
    (h : within segment r = .ok a) : r = .ok a := ok_of_mapError h

theorem of_bind_eq_ok {ε α β : Type} {x : Except ε α} {f : α → Except ε β} {b : β}
    (h : (x >>= f) = .ok b) : ∃ a, x = .ok a ∧ f a = .ok b := by
  cases x with
  | error e => cases h
  | ok a => exact ⟨a, rfl, h⟩

theorem eq_of_checkBreak {α : Type} {broken : Option Json.Break} {a b : α}
    (h : checkBreak broken a = .ok b) : a = b := by
  unfold checkBreak at h
  split at h
  · cases h
  · cases h
  · exact Except.ok.inj h

theorem Members.Distinct.value {m : Members} (h : m.Distinct) {v : PdfValue}
    (hv : m.value = .ok v) : v.AllKeys List.Nodup := by
  unfold Members.value at hv
  split at hv
  · split at hv
    · split at hv
      · cases hv
        exact .of_leaf rfl
      · cases hv
    · cases hv
  · cases hv
  · rename_i es _ hes
    split at hv
    · cases hv
      exact (h.stream es hes).stream _
    · cases hv
  · cases hv
    exact h.entries.dictionary

theorem allKeys_ofString (s : String) (P : List String → Prop) : (ofString s).AllKeys P := by
  unfold ofString
  split <;> exact .of_leaf rfl

theorem distinct_members_cons {m : Members} {key : String} {d : Json.Draft}
    {rest : List (String × Json.Draft)} (hm : m.Distinct) (hr : key ≠ "$ref") (hl : key ≠ "$length")
    (hd : ∀ v, value d = .ok v → v.AllKeys List.Nodup)
    (hstream : ∀ es, Members.Distinct { m with stream := some es } →
      ∀ m', members { m with stream := some es } rest = .ok m' → m'.Distinct)
    (hput : ∀ v, Members.Distinct { m with entries := Pairs.put m.entries key v } →
      ∀ m', members { m with entries := Pairs.put m.entries key v } rest = .ok m' → m'.Distinct)
    {m' : Members} (h : members m ((key, d) :: rest) = .ok m') : m'.Distinct := by
  rw [members, if_neg hr, if_neg hl] at h
  obtain ⟨v, hv, h⟩ := of_bind_eq_ok h
  have hv : v.AllKeys List.Nodup := hd v (ok_of_within hv)
  split at h
  · split at h
    · rename_i es _
      refine hstream es ⟨hm.entries, ?_⟩ m' h
      rintro _ ⟨⟩
      exact distinct_of_dictionary hv
    · cases h
  · exact hput v ⟨hm.entries.put hv key, hm.stream⟩ m' h

theorem allKeys_of_value :
    (∀ d v, value d = .ok v → v.AllKeys List.Nodup) ∧
    (∀ m ms, Members.Distinct m → ∀ m', members m ms = .ok m' → m'.Distinct) ∧
    ∀ n ds vs, values n ds = .ok vs → ∀ v ∈ vs, v.AllKeys List.Nodup := by
  refine value.mutual_induct _ _ _ ?null ?boolean ?integer ?outOfRange ?number ?string ?array
    ?object ?fault ?noItem ?item ?noMember ?reference ?length ?member
  case null =>
    intro v h
    rw [value] at h
    cases h
    exact .of_leaf rfl
  case boolean =>
    intro b v h
    rw [value] at h
    cases h
    exact .of_leaf rfl
  case integer =>
    intro n hn v h
    rw [value, if_pos hn] at h
    cases h
    exact .of_leaf rfl
  case outOfRange =>
    intro n hn v h
    rw [value, if_neg hn] at h
    cases h
  case number =>
    intro x v h
    rw [value] at h
    cases h
    exact .of_leaf rfl
  case string =>
    intro s v h
    rw [value] at h
    cases h
    exact allKeys_ofString s _
  case array =>
    intro ds broken ih v h
    rw [value] at h
    obtain ⟨items, hitems, h⟩ := of_bind_eq_ok h
    split at h
    · cases h
    · cases h
      exact .array (ih items hitems)
  case object =>
    intro ms broken ih v h
    rw [value] at h
    obtain ⟨m, hm, h⟩ := of_bind_eq_ok h
    obtain ⟨m', hm', h⟩ := of_bind_eq_ok h
    have hdistinct : m.Distinct := ih ⟨distinct_nil, fun es hes ↦ nomatch hes⟩ m hm
    rw [← eq_of_checkBreak hm'] at h
    exact hdistinct.value h
  case fault =>
    intro f v h
    rw [value] at h
    cases h
  case noItem =>
    intro n vs h
    rw [values] at h
    cases h
    exact fun v hv ↦ nomatch hv
  case item =>
    intro n d ds ihd ihds vs h
    rw [values] at h
    obtain ⟨v, hv, h⟩ := of_bind_eq_ok h
    obtain ⟨ws, hws, h⟩ := of_bind_eq_ok h
    cases h
    intro w hw
    rcases List.mem_cons.1 hw with rfl | hw
    · exact ihd _ (ok_of_within hv)
    · exact ihds ws hws w hw
  case noMember =>
    intro m hm m' h
    rw [members] at h
    cases h
    exact hm
  case reference =>
    intro m d rest ih hm m' h
    rw [members, if_pos rfl] at h
    obtain ⟨r, _, h⟩ := of_bind_eq_ok h
    exact ih r ⟨hm.entries, hm.stream⟩ m' h
  case length =>
    intro m d rest hr ih hm m' h
    rw [members, if_neg hr, if_pos rfl] at h
    obtain ⟨n, _, h⟩ := of_bind_eq_ok h
    exact ih n ⟨hm.entries, hm.stream⟩ m' h
  case member =>
    intro m key d rest hr hl hd hstream hput hm m' h
    exact distinct_members_cons hm hr hl hd hstream hput h

theorem allKeys_of_objectMembers {ms : List (String × Json.Draft)} :
    ∀ {es : List (String × PdfValue)}, objectMembers ms = .ok es →
      ∀ e ∈ es, e.2.AllKeys List.Nodup := by
  induction ms with
  | nil =>
    intro es h e he
    cases h
    cases he
  | cons m ms ih =>
    intro es h e he
    obtain ⟨v, hv, h⟩ := of_bind_eq_ok h
    obtain ⟨rest, hrest, h⟩ := of_bind_eq_ok h
    cases h
    rcases List.mem_cons.1 he with rfl | he
    · exact allKeys_of_value.1 _ v (ok_of_within hv)
    · exact ih hrest e he

theorem mem_of_mem_ofList {es : List (String × PdfValue)} {e : String × PdfValue}
    (h : e ∈ Pairs.ofList es) : e ∈ es := by
  have key : Pairs.ofList es ⊆ es := by
    refine List.foldlRecOn es _ (motive := fun out ↦ out ⊆ es) (List.nil_subset _) ?_
    intro out hout p hp x hx
    rcases Pairs.mem_put hx with hx | rfl
    · exact hout hx
    · exact hp
  exact key h

theorem allKeys_of_objectTable {d : Json.Draft} {es : List (String × PdfValue)}
    (h : objectTable d = .ok es) : ∀ e ∈ es, e.2.AllKeys List.Nodup := by
  unfold objectTable at h
  split at h
  · obtain ⟨table, htable, h⟩ := of_bind_eq_ok h
    rw [← eq_of_checkBreak h]
    exact fun e he ↦ allKeys_of_objectMembers htable e (mem_of_mem_ofList he)
  · rename_i d _
    unfold wrongType at h
    split at h <;> cases h

structure Fields.Distinct (f : Fields) : Prop where
  trailer : ∀ v, f.trailer = some v → v.AllKeys List.Nodup
  objects : ∀ es, f.objects = some es → ∀ e ∈ es, e.2.AllKeys List.Nodup

structure RawDocument.Distinct (r : RawDocument) : Prop where
  trailer : r.trailer.AllKeys List.Nodup
  objects : ∀ e ∈ r.objects, e.2.AllKeys List.Nodup

theorem Fields.distinct_empty : Fields.Distinct {} := by
  constructor
  · intro v hv
    cases hv
  · intro es hes
    cases hes

theorem Fields.Distinct.set {f f' : Fields} (h : f.Distinct) {key : String} {d : Json.Draft}
    (hf : f.set key d = .ok f') : f'.Distinct := by
  unfold Fields.set at hf
  split at hf
  · obtain ⟨v, hv, hf⟩ := of_bind_eq_ok hf
    cases hf
    refine ⟨?_, h.objects⟩
    rintro _ ⟨⟩
    exact allKeys_of_value.1 d v (ok_of_within hv)
  · split at hf
    · obtain ⟨es, hes, hf⟩ := of_bind_eq_ok hf
      cases hf
      refine ⟨h.trailer, ?_⟩
      rintro _ ⟨⟩
      exact allKeys_of_objectTable (ok_of_within hes)
    · cases hf
      exact h

theorem Fields.Distinct.finish {f : Fields} (h : f.Distinct) {r : RawDocument}
    (hr : f.finish = .ok r) : r.Distinct := by
  unfold Fields.finish at hr
  split at hr
  · rename_i v hv
    cases hr
    refine ⟨h.trailer v hv, ?_⟩
    cases ho : f.objects with
    | none => exact fun e he ↦ nomatch he
    | some es => exact h.objects es ho
  · cases hr

theorem Fields.Distinct.field {f : Fields} (h : f.Distinct) {key : String} {s : List Json.Lexeme}
    {x : Fields × Json.Left s} (hx : field f key s = .ok x) : x.1.Distinct := by
  unfold Decoding.field at hx
  split at hx
  · obtain ⟨f', hf', hx⟩ := of_bind_eq_ok hx
    cases hx
    exact h.set hf'
  · split at hx
    · cases hx
      exact h
    · cases hx

theorem Fields.Distinct.fields {f : Fields} {atEnd : Json.Fault} {s : List Json.Lexeme}
    (h : f.Distinct) {r : RawDocument} (hr : fields f atEnd s = .ok r) : r.Distinct := by
  fun_induction Decoding.fields f atEnd s with
  | case2 => exact h.finish hr
  | case7 _ _ _ _ _ _ _ _ _ _ hx => exact (h.field hx).finish hr
  | case9 _ _ _ _ _ _ _ _ _ _ _ _ hx ih => exact ih (h.field hx) hr
  | _ => cases hr

theorem distinct_positional {s : List Json.Lexeme} {r : RawDocument} (h : positional s = .ok r) :
    r.Distinct := by
  unfold positional at h
  split at h
  · cases h
  · cases h
  · obtain ⟨trailer, htrailer, h⟩ := of_bind_eq_ok h
    have htrailer := allKeys_of_value.1 _ trailer (ok_of_within htrailer)
    split at h
    · cases h
    · cases h
      exact ⟨htrailer, fun e he ↦ nomatch he⟩
    · cases h
    · cases h
    · obtain ⟨objects, hobjects, h⟩ := of_bind_eq_ok h
      have hobjects := allKeys_of_objectTable (ok_of_within hobjects)
      split at h
      · cases h
      · cases h
        exact ⟨htrailer, hobjects⟩
      · cases h
      · cases h
    · cases h

theorem ne_ok_of_wrongType {expected : String} {d : Json.Draft} {r : RawDocument} :
    wrongType expected d ≠ .ok r := by
  intro h
  unfold wrongType at h
  split at h <;> cases h

theorem distinct_rawOfLexemes {s : List Json.Lexeme} {r : RawDocument}
    (h : rawOfLexemes s = .ok r) : r.Distinct := by
  unfold rawOfLexemes at h
  split at h
  · exact Fields.distinct_empty.fields h
  · exact distinct_positional h
  · exact absurd h ne_ok_of_wrongType

theorem Fields.Distinct.setFields {ms : List (String × Json)} :
    ∀ {f f' : Fields}, f.Distinct → setFields f ms = .ok f' → f'.Distinct := by
  induction ms with
  | nil =>
    intro f f' h hf
    cases hf
    exact h
  | cons m ms ih =>
    intro f f' h hf
    obtain ⟨f₁, hf₁, hf⟩ := of_bind_eq_ok hf
    exact ih (h.set hf₁) hf

theorem distinct_rawOfJson {v : Json} {r : RawDocument} (h : rawOfJson v = .ok r) : r.Distinct := by
  unfold rawOfJson at h
  split at h
  · obtain ⟨f, hf, h⟩ := of_bind_eq_ok h
    exact (Fields.distinct_empty.setFields hf).finish h
  · cases h
  · obtain ⟨trailer, htrailer, h⟩ := of_bind_eq_ok h
    have htrailer := allKeys_of_value.1 _ trailer (ok_of_within htrailer)
    split at h
    · cases h
      exact ⟨htrailer, fun e he ↦ nomatch he⟩
    · obtain ⟨objects, hobjects, h⟩ := of_bind_eq_ok h
      split at h
      · cases h
        exact ⟨htrailer, allKeys_of_objectTable (ok_of_within hobjects)⟩
      · cases h
  · exact absurd h ne_ok_of_wrongType

end Decoding

namespace Document

theorem allKeys_addObjects {P : List String → Prop} {es : List (String × PdfValue)} :
    ∀ {table table' : KeyedList ObjectId PdfValue}, (∀ x ∈ table.pairs, x.2.AllKeys P) →
      (∀ e ∈ es, e.2.AllKeys P) → addObjects table es = .ok table' →
      ∀ x ∈ table'.pairs, x.2.AllKeys P := by
  induction es with
  | nil =>
    intro table table' htable _ h
    cases h
    exact htable
  | cons e es ih =>
    intro table table' htable hes h
    unfold addObjects at h
    split at h
    · refine ih (fun x hx ↦ ?_) (fun e' he' ↦ hes e' (List.mem_cons_of_mem _ he')) h
      rcases KeyedList.mem_put hx with hx | rfl
      · exact htable x hx
      · exact hes e List.mem_cons_self
    · cases h

theorem distinctKeys_ofRaw {r : Decoding.RawDocument} (hr : r.Distinct) {d : Document}
    (h : ofRaw r = .ok d) : d.DistinctKeys := by
  have key : (do
      let objects ← addObjects .empty r.objects
      return ⟨r.trailer, objects⟩ : Except DocumentError Document) = .ok d → d.DistinctKeys := by
    intro h
    obtain ⟨objects, hobjects, h⟩ := Decoding.of_bind_eq_ok h
    cases h
    have hempty : ∀ x ∈ (KeyedList.empty : KeyedList ObjectId PdfValue).pairs,
        x.2.AllKeys List.Nodup := fun x hx ↦ (nomatch hx)
    have hpairs := allKeys_addObjects hempty hr.objects hobjects
    exact ⟨hr.trailer, fun id v hv ↦ hpairs _ (KeyedList.get?_eq_some_iff.1 hv)⟩
  unfold ofRaw at h
  split at h
  · exact key h
  · exact key h
  · cases h

theorem distinctKeys_ofFiltered {language : FilterLanguage} {filter : String} {v : Json}
    {d : Document} (h : ofFiltered language filter v = .ok d) : d.DistinctKeys := by
  obtain ⟨v', _, h⟩ := Decoding.of_bind_eq_ok h
  obtain ⟨r, hr, h⟩ := Decoding.of_bind_eq_ok h
  exact distinctKeys_ofRaw (Decoding.distinct_rawOfJson (Decoding.ok_of_mapError hr)) h

/-- No dictionary of a document that is read, through a filter or without one, has a key twice. -/
theorem distinctKeys_ofBytes {language : FilterLanguage} {filter : Option String}
    {bytes : List UInt8} {d : Document} (h : ofBytes language filter bytes = .ok d) : d.DistinctKeys := by
  cases filter with
  | none =>
    obtain ⟨r, hr, h⟩ := Decoding.of_bind_eq_ok h
    exact distinctKeys_ofRaw (Decoding.distinct_rawOfLexemes (Decoding.ok_of_mapError hr)) h
  | some filter =>
    obtain ⟨v, _, h⟩ := Decoding.of_bind_eq_ok h
    exact distinctKeys_ofFiltered h

end Document

end PdfSchema
